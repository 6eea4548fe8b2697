import LiveRevenue.Proof.Statements

/-! # Commands outside transactions

Reads on the connection pool, messages sent, Redis commands and marked offsets:
none of them touches the tables, and all but the reads leave a trace that stays.
-/

namespace LiveRevenue

open Transact

def DB.Recorded (d : DB) (consumer : String) (m : Message) : Prop :=
  ∃ r ∈ d.consumerDedupe, r.lock = .dedupe consumer (extractEventID m)

instance {d : DB} {consumer : String} {m : Message} : Decidable (d.Recorded consumer m) :=
  inferInstanceAs (Decidable (∃ r ∈ d.consumerDedupe, r.lock = .dedupe consumer (extractEventID m)))

theorem DB.Recorded.mono {d d' : DB} {consumer : String} {m : Message}
    (h : d.Recorded consumer m) (hg : d.Grows d') : d'.Recorded consumer m := by
  obtain ⟨r, hr, hk⟩ := h
  exact ⟨r, hg.consumerDedupe.subset hr, hk⟩

variable [Platform] {𝓔 : Env} {ε : Type} {t : ℕ} {w : World} {E : ε → World → Prop}
  {f : SqlErr → ε}

theorem execAuto_reads {s : Stmt} (hs : s.reads = true) {rank : ℕ → ℕ} {r : Except SqlErr s.Res}
    {w' : World} (h : w.execAuto t s rank = some (r, w')) :
    w' = w ∧ r = (s.run w.db w.ids (w.store.busy t) rank).res := by
  obtain ⟨hw, hi⟩ : (s.run w.db w.ids (w.store.busy t) rank).writes = [] ∧
    (s.run w.db w.ids (w.store.busy t) rank).ids = w.ids := run_reads hs
  unfold World.execAuto at h
  simp only [hw, hi, if_true] at h
  split at h
  · cases h
  · cases h
    exact ⟨rfl, rfl⟩

/-- How a read on the pool fails: the command does, or the statement finds what does not scan. -/
inductive ReadFails (𝓔 : Env) (t : ℕ) (s : Stmt) (w : World) : Prop where
  | fault {c : Cmd} {applied : Bool} {u : World} :
      𝓔.permit t c (.fault applied) u → ReadFails 𝓔 t s w
  | error {e : SqlErr} {rank : ℕ → ℕ} {u : World} : u.db.Grows w.db →
      (s.run u.db u.ids (u.store.busy t) rank).res = .error e → ReadFails 𝓔 t s w

theorem runs_dbRead {s : Stmt} {Q : s.Res → World → Prop} (hs : s.reads = true)
    (hdead : ∀ v, 𝓔.Rely t w v → Inv 𝓔 v → Dead 𝓔 t v)
    (herr : ∀ e v, 𝓔.Rely t w v → Inv 𝓔 v → ReadFails 𝓔 t s v → E (f e) v)
    (hok : ∀ r rank u v, 𝓔.Rely t w u → Inv 𝓔 u →
      (s.run u.db u.ids (u.store.busy t) rank).res = .ok r → 𝓔.Rely t u v → Inv 𝓔 v → Q r v) :
    Runs 𝓔.logic t (dbDo f s) Q E w := by
  refine Runs.bind fun u hu hi => ⟨fun _ => hdead u hu hi, ?_⟩
  rintro r u' ⟨ch, hp, hex, -⟩
  have herr' : ∀ e, (∀ x, 𝓔.Rely t u x → ReadFails 𝓔 t s x) →
      Runs 𝓔.logic t (orReturn f (.error e : Except SqlErr s.Res)) Q E u :=
    fun e hf => Runs.throw fun x hx hix => herr e x (hu.trans hx) hix (hf x hx)
  cases ch with
  | ok n rank =>
    obtain ⟨rfl, rfl⟩ := execAuto_reads hs hex
    refine ⟨.silent rfl rfl rfl rfl rfl (fun _ h => h) id, fun v hv _ => ?_⟩
    cases hr : (s.run u'.db u'.ids (u'.store.busy t) rank).res with
    | error e => exact (herr' e fun x hx => .error hx.store.grows hr).rely hv
    | ok r => exact Runs.pure fun x hx hix => hok r rank u' x hu hi hr (hv.trans hx) hix
  | fault applied =>
    simp only [World.exec] at hex
    have hw : u' = u ∧ r = .error .infra := by
      split at hex
      · obtain ⟨x, hx, he⟩ := Option.map_eq_some_iff.mp hex
        cases he
        exact ⟨(execAuto_reads (r := x.1) hs hx).1, rfl⟩
      · cases hex
        exact ⟨rfl, rfl⟩
    obtain ⟨rfl, rfl⟩ := hw
    exact ⟨.silent rfl rfl rfl rfl rfl (fun _ h => h) id, fun v hv _ =>
      (herr' .infra fun _ _ => .fault hp).rely hv⟩

theorem runs_clock {Q : ℕ → World → Prop} (hdead : ∀ v, 𝓔.Rely t w v → Inv 𝓔 v → Dead 𝓔 t v)
    (h : ∀ n v, 𝓔.Rely t w v → Inv 𝓔 v → Q n v) : Runs 𝓔.logic t timeNow Q E w := by
  refine fun u hu hi => ⟨fun _ => hdead u hu hi, ?_⟩
  rintro r u' ⟨ch, _, hex, -⟩
  have hw : u' = u := by cases ch <;> cases hex <;> rfl
  subst hw
  exact ⟨.silent rfl rfl rfl rfl rfl (fun _ h => h) id, fun v hv hiv => h r v (hu.trans hv) hiv⟩

theorem runs_redis {c : RedisCmd} {Q : Unit → World → Prop}
    (hdead : ∀ u, 𝓔.Rely t w u → Inv 𝓔 u → 𝓔.crash t (.redis c) u → Dead 𝓔 t u)
    (hpush : ∀ u, 𝓔.Rely t w u → Inv 𝓔 u → (𝓔.calls t).Pushes t u c)
    (herr : ∀ ch e u u' v, 𝓔.permit t (.redis c) ch u →
      World.exec t (.redis c) ch u = some (.error e, u') →
      u'.store.committedBy t = w.store.committedBy t → 𝓔.Rely t u' v → Inv 𝓔 v → E (f e) v)
    (hok : ∀ v, Inv 𝓔 v → v.store.committedBy t = w.store.committedBy t →
      v.aofBy t = w.aofBy t ++ [c] → Q () v) :
    Runs 𝓔.logic t (redisDo f c) Q E w := by
  refine Runs.bind fun u hu hi => ⟨hdead u hu hi, ?_⟩
  rintro r u' ⟨ch, hch, hex, -⟩
  have hguar : Guar 𝓔 t u (u.addAof t c) :=
    ⟨.inl ⟨rfl, rfl⟩, .inl rfl, .inr ⟨c, rfl, hpush u hu hi⟩, .inl rfl, .inr fun _ h => .inl h,
      fun _ h h' => absurd h' h, .inl rfl⟩
  have hsilent : Guar 𝓔 t u u := .silent rfl rfl rfl rfl rfl (fun _ h => h) id
  cases exec_redis hex with
  | applied =>
    refine ⟨hguar, fun v hv _ => Runs.pure fun x hx hix => ?_⟩
    have hr := hv.trans hx
    refine hok x hix (hr.store.committed.trans hu.store.committed) (hr.aof.trans ?_)
    rw [← hu.aof]
    simp [World.aofBy, World.addAof, List.filterMap_append]
  | refused =>
    exact ⟨hsilent, fun v hv _ => Runs.throw fun x hx hix =>
      herr _ _ u _ x hch hex hu.store.committed (hv.trans hx) hix⟩
  | lost =>
    exact ⟨hguar, fun v hv _ => Runs.throw fun x hx hix =>
      herr _ _ u _ x hch hex hu.store.committed (hv.trans hx) hix⟩
  | unsent =>
    exact ⟨hsilent, fun v hv _ => Runs.throw fun x hx hix =>
      herr _ _ u _ x hch hex hu.store.committed (hv.trans hx) hix⟩

theorem safe_markDone {group metadata : String} {m : Message} {Q : Except Err Unit → World → Prop}
    (hdead : ∀ v, 𝓔.Rely t w v → Inv 𝓔 v → Dead 𝓔 t v)
    (hmark : ∀ u, 𝓔.Rely t w u → Inv 𝓔 u → (𝓔.calls t).Marks u.db ⟨group, m, metadata⟩)
    (hok : ∀ v, 𝓔.Rely t w v → Inv 𝓔 v → Q (.ok ()) v) :
    Safe 𝓔.logic t Q (markDone group metadata m) w := by
  intro u hu hi
  refine ⟨fun _ => hdead u hu hi, ?_⟩
  rintro r u' ⟨ch, _, hex, -⟩
  cases hex
  refine ⟨⟨.inl ⟨rfl, rfl⟩, .inl rfl, .inl rfl, .inr ⟨_, rfl, hmark u hu hi⟩,
    .inr fun _ h => .inl h, fun _ h h' => absurd h' h, .inl rfl⟩, fun v hv hiv => ?_⟩
  exact hok v (hu.trans ⟨⟨hv.store, hv.binlog, hv.log, hv.sent, hv.aof⟩, hv.calm⟩) hiv

end LiveRevenue
