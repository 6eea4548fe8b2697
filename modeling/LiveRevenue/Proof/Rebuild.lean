import LiveRevenue.Proof.Solo
import LiveRevenue.Spec.Redis

/-! # A rebuild that runs undisturbed

Alone, a rebuild reads the orders of its session and of its campaign in one state of the
tables. If it succeeds, it has applied the commands that replace the contributor set, the
scores of the matches its orders name, and the campaign set.
-/

namespace LiveRevenue

open Transact

def campaignCommands (d : DB) : Option ℕ → List RedisCmd
  | none => []
  | some c =>
    let z := campaignZ (groupSum (·.creatorID) (·.chargedCoins) (d.campaignOrders c))
    [RedisCmd.del (campaignKey c)] ++
      (if z.length = 0 then [] else [RedisCmd.zAdd (campaignKey c) z])

def World.pushAll (w : World) (t : ℕ) (cs : List RedisCmd) : World :=
  { w with aof := w.aof ++ cs.map fun c => (t, c) }

@[simp] theorem World.pushAll_nil (w : World) (t : ℕ) : w.pushAll t [] = w := by
  simp [World.pushAll]

theorem World.pushAll_cons (w : World) (t : ℕ) (c : RedisCmd) (cs : List RedisCmd) :
    (w.addAof t c).pushAll t cs = w.pushAll t (c :: cs) := by
  simp [World.pushAll, World.addAof]

theorem World.redis_pushAll (w : World) (t : ℕ) (cs : List RedisCmd) :
    (w.pushAll t cs).redis = w.redis.replay cs := by
  simp [World.pushAll, World.redis, Redis.replay_append]

theorem World.pushAll_pushAll (w : World) (t : ℕ) (cs cs' : List RedisCmd) :
    (w.pushAll t cs).pushAll t cs' = w.pushAll t (cs ++ cs') := by
  simp [World.pushAll]

/-- What a rebuild that succeeds has done. -/
def Rebuilt (t id : ℕ) (w w' : World) : Prop :=
  ∃ os l, os.Perm (w.db.acceptedOrders id) ∧ w.db.liveSessions id = some l ∧
    w' = w.pushAll t (rebuildCommands id os ++ campaignCommands w.db l.campaignID)

/-- What an undisturbed rebuild may end with: it has replaced its keys, or it fails because a
command failed or something does not fit. -/
def RebuildEnds (ok : Choice → Prop) (t id : ℕ) (w : World) (r : Except Err Unit) (w' : World) :
    Prop :=
  (r = .ok () → Rebuilt t id w w' ∧ ∃ l, w.db.Rebuildable id l) ∧
    (r ≠ .ok () → (∃ a, ok (.fault a)) ∨ ∀ l, ¬ w.db.Rebuildable id l)

section Ends

variable {ok : Choice → Prop} {t id : ℕ} {w : World} {os : List GiftOrder} {l : LiveSession}

theorem RebuildEnds.of_fault {a : Bool} {e : SqlErr} {v : World} (ha : ok (.fault a)) :
    RebuildEnds ok t id w (retFail e) v := ⟨nofun, fun _ => .inl ⟨a, ha⟩⟩

theorem RebuildEnds.of_misfit {e : SqlErr} {v : World} (hl : ∀ l, ¬ w.db.Rebuildable id l) :
    RebuildEnds ok t id w (retFail e) v := ⟨nofun, fun _ => .inr hl⟩

theorem RebuildEnds.of_done (hperm : os.Perm (w.db.acceptedOrders id))
    (hfits : w.db.Rebuildable id l) : RebuildEnds ok t id w (.ok ())
      (w.pushAll t (rebuildCommands id os ++ campaignCommands w.db l.campaignID)) :=
  ⟨fun _ => ⟨⟨os, l, hperm, hfits.session, rfl⟩, l, hfits⟩, fun hne => absurd rfl hne⟩

end Ends

section Solo

variable [Platform] {calls : ℕ → Call} {ok : Choice → Prop} {t : ℕ} {w : World} {ε : Type}
  {Q : World → Prop} {E : ε → World → Prop} {f : SqlErr → ε}

theorem runs_solo_redis {c : RedisCmd} (hinc : c.increments = false) (hok : ∃ ch, ok ch)
    (he : ∀ a e v, ok (.fault a) → E (f e) v) (hq : Q (w.addAof t c)) :
    Runs ((system calls).solo ok) t (redisDo f c : GoBody ε Unit) (fun _ => Q) E w := by
  refine Runs.seq (Runs.solo_call (Q := fun r v => (r = .ok () → Q v) ∧
    ∀ e, r = .error e → E (f e) v) ?_ ?_) ?_
  · obtain ⟨ch, hch⟩ := hok
    refine ⟨ch, hch, ?_⟩
    change (World.exec t (.redis c) ch w).isSome = true
    cases ch with
    | ok n rank =>
      simp only [World.exec]
      split <;> rfl
    | fault a => rfl
  · intro ch r w' hch hex
    cases exec_redis hex with
    | applied => exact ⟨fun _ => hq, fun _ he' => by cases he'⟩
    | refused ho => cases c <;> cases hinc <;> cases ho
    | lost => exact ⟨fun hr => (by cases hr), fun e _ => he _ e _ hch⟩
    | unsent => exact ⟨fun hr => (by cases hr), fun e _ => he _ e _ hch⟩
  · rintro (e | a) v - h
    · refine Runs.throw fun v' hv' _ => ?_
      obtain rfl : v' = v := hv'
      exact h.2 e rfl
    · refine Runs.pure fun v' hv' _ => ?_
      obtain rfl : v' = v := hv'
      exact h.1 rfl

theorem runs_solo_redisAll {cs : List RedisCmd} (hinc : ∀ c ∈ cs, c.increments = false)
    (hok : ∃ ch, ok ch) (he : ∀ a e v, ok (.fault a) → E (f e) v)
    (hq : Q (w.pushAll t cs)) :
    Runs ((system calls).solo ok) t (redisAll f cs : GoBody ε Unit) (fun _ => Q) E w := by
  induction cs generalizing w with
  | nil =>
    refine Runs.pure fun v hv _ => ?_
    obtain rfl : v = w := hv
    rwa [World.pushAll_nil] at hq
  | cons c cs ih =>
    rw [List.forall_mem_cons] at hinc
    refine Runs.bind (runs_solo_redis hinc.1 hok he (ih hinc.2 ?_))
    rwa [World.pushAll_cons]

/-- The last part of a rebuild, for a session with a campaign. -/
theorem runs_solo_campaign {id c : ℕ} {os : List GiftOrder} {l : LiveSession} (hok : ∃ ch, ok ch) (hperm : os.Perm (w.db.acceptedOrders id))
    (hl : w.db.liveSessions id = some l) (hcamp : l.campaignID = some c)
    (hfits : (∀ x ∈ groupSum (·.creatorID) (·.chargedCoins) (w.db.campaignOrders c),
      fitsInt64 x.2 = true) → w.db.Rebuildable id l) :
    Runs ((system calls).solo ok) t (do
        redisDo retFail (.del (campaignKey c))
        let rows ← dbDo retFail (.sumCampaignCharges c)
        if (campaignZ rows).length = 0 then pure (.ok ())
        else do
          redisDo retFail (.zAdd (campaignKey c) (campaignZ rows))
          pure (.ok ()) : GoBody (Except Err Unit) (Except Err Unit))
      (RebuildEnds ok t id w) (RebuildEnds ok t id w) (w.pushAll t (rebuildCommands id os)) := by
  refine Runs.bind (runs_solo_redis rfl hok (fun _ _ _ => .of_fault) ?_)
  refine Runs.bind (runs_solo_read hok rfl (fun _ => rfl) (fun _ _ _ => .of_fault)
    (fun e rank he => .of_misfit ?_) fun rows rank hrows => ?_)
  · intro l' hl'
    obtain rfl := Option.some.inj (hl.symm.trans hl'.session)
    cases he.symm.trans (hl'.sumCampaignCharges hcamp)
  obtain ⟨hsum, hrowsFit⟩ := run_sumCampaignCharges hrows
  have hdone : RebuildEnds ok t id w (.ok ()) _ :=
    RebuildEnds.of_done hperm (hfits (hsum ▸ hrowsFit))
  rw [hcamp, campaignCommands, ← World.pushAll_pushAll] at hdone
  split
  · next hnil =>
    refine Runs.pure fun v hv _ => ?_
    obtain rfl : v = _ := hv
    rw [if_pos (hsum ▸ hnil), List.append_nil, ← World.pushAll_cons, World.pushAll_nil] at hdone
    exact hdone
  · next hne =>
    refine Runs.bind (runs_solo_redis rfl hok (fun _ _ _ => .of_fault) (Runs.pure fun v hv _ => ?_))
    obtain rfl : v = _ := hv
    rw [if_neg (hsum ▸ hne), List.singleton_append, ← World.pushAll_cons, ← World.pushAll_cons,
      World.pushAll_nil] at hdone
    exact hsum ▸ hdone

theorem safe_solo_rebuild {id : ℕ} (hok : ∃ ch, ok ch) : Safe ((system calls).solo ok) t
    (RebuildEnds ok t id w) (rebuildLiveSession id) w := by
  refine Runs.toSafe (Runs.bind (runs_solo_read hok rfl (fun _ => rfl) (fun _ _ _ => .of_fault)
    (fun e rank he => ?_) fun os rank hos => ?_))
  · cases he
  have hperm : os.Perm (w.db.acceptedOrders id) := by
    cases hos
    exact List.perm_insertionSort _ _
  refine Runs.bind ?_
  cases hscan : scanOrders os with
  | error e =>
    refine Runs.throw fun v _ _ => .of_misfit fun l hl => ?_
    rw [hl.scanOrders hperm] at hscan
    cases hscan
  | ok _ =>
    refine Runs.pure fun v hv _ => ?_
    obtain rfl : v = w := hv
    refine Runs.bind (runs_solo_redisAll rebuildCommands_overwrite hok (fun _ _ _ => .of_fault) ?_)
    refine Runs.bind (runs_solo_read hok rfl (fun _ => ?_) (fun _ _ _ => .of_fault)
      (fun e rank he => .of_misfit ?_) fun c rank hc => ?_)
    · simp only [Stmt.run]
      split <;> rfl
    · intro l hl
      cases he.symm.trans hl.selectCampaign
    obtain ⟨l, hl, hcamp, hlt⟩ := run_selectCampaign hc
    -- only the sums of the campaign are still to be scanned
    have hfits : (∀ c, l.campaignID = some c → ∀ x ∈ groupSum (·.creatorID) (·.chargedCoins)
        (v.db.campaignOrders c), fitsInt64 x.2 = true) → v.db.Rebuildable id l := fun hsums =>
      ⟨hl, fun o ho => scanOrders_ok hscan o (hperm.mem_iff.mpr ho), hlt, hsums⟩
    cases c with
    | none =>
      refine Runs.pure fun v' hv' _ => ?_
      obtain rfl : v' = _ := hv'
      have hdone : RebuildEnds ok t id v (.ok ()) _ :=
        RebuildEnds.of_done hperm (hfits fun c hc => by cases hcamp.symm.trans hc)
      rw [hcamp, campaignCommands, List.append_nil] at hdone
      exact hdone
    | some c =>
      refine runs_solo_campaign hok hperm hl hcamp fun hsums => hfits fun c' hc' => ?_
      cases hcamp.symm.trans hc'
      exact hsums

theorem safe_solo_rebuildCall {id : ℕ} (hok : ∃ ch, ok ch) : Safe ((system calls).solo ok) t
    (fun o w' => ∃ r, o = .handled r ∧ RebuildEnds ok t id w r w') (Call.rebuild id).program w := by
  refine ((safe_solo_rebuild hok).mono fun r v _ h => ?_).bind
  rintro v' hv' -
  obtain rfl : v' = v := hv'
  exact ⟨r, rfl, h⟩

/-- A rebuild that runs alone and reports success has replaced its keys. -/
theorem reach_rebuilt {s s' : State} {l : ℕ} (hc : calls t = .rebuild l)
    (hidle : s.threads t = .idle) (hok : ∃ ch, ok ch) (hr : (system calls).Reach (Only ok t) s s')
    (hres : (s'.threads t).result? = some (.handled (.ok ()))) :
    Rebuilt t l s.world s'.world := by
  obtain ⟨r, he, hends⟩ := Machine.reach_only_program hidle
    (show Safe _ t _ (calls t).program s.world from hc ▸ safe_solo_rebuildCall hok) hr hres
  exact (hends.1 (Outcome.handled.inj he).symm).1

theorem exists_rebuilt {s : State} {l : ℕ} {x : LiveSession} (hc : calls t = .rebuild l)
    (hidle : s.threads t = .idle) (hfits : s.world.db.Rebuildable l x) :
    ∃ s', (system calls).Reach (Only Choice.Ok t) s s' ∧
      (s'.threads t).result? = some (.handled (.ok ())) := by
  have hsafe : Safe ((system calls).solo Choice.Ok) t (fun o w' => ∃ r, o = .handled r ∧
      RebuildEnds Choice.Ok t l s.world r w') (calls t).program s.world :=
    hc ▸ safe_solo_rebuildCall ⟨.ok 0 id, trivial⟩
  have hready : (calls t).ready s.world = true := by
    rw [hc]
    rfl
  obtain ⟨s', o, hr, ho, r, rfl, -, hends⟩ :=
    Machine.exists_reach_only_program (M := system calls) hidle hready hsafe
  refine ⟨s', hr, ho.trans ?_⟩
  by_contra hne
  rcases hends fun h => hne (h ▸ rfl) with ⟨a, ha⟩ | hall
  · exact ha
  · exact hall x hfits

end Solo

end LiveRevenue
