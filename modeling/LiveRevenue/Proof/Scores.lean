import LiveRevenue.Proof.Delivery
import LiveRevenue.Spec.Redis

/-! # What the leaderboard handlers have pushed

At most one handler of a message inserts its dedupe row, and only that one touches
Redis. So all handlers of a message together have pushed the first few increments of
its event, and all of them if the row is there, nobody is at work and nobody failed
after the row was committed.
-/

namespace LiveRevenue

open Transact

/-- The Redis commands that handlers of a message have applied. -/
def World.pushedFor (calls : ℕ → Call) (w : World) (m : Message) : List RedisCmd :=
  (w.aof.filter fun e => calls e.1 = .leaderboard m).map (·.2)

def Cmd.applies : Cmd → Bool
  | .commit => true
  | .redis _ => true
  | _ => false

/-- No delivery fails after its dedupe row is committed: whoever gets an error from `COMMIT` or
Redis, or dies there, has committed no such row. -/
def Unbroken (s : State) (a : Act Choice) (s' : State) : Prop :=
  ∀ t ∈ broken? s a, ∀ c ∈ (s.threads t).next?, c.applies = true → ¬ s'.world.HasClaimed t

instance {s : State} {a : Act Choice} {s' : State} : Decidable (Unbroken s a s') :=
  inferInstanceAs (Decidable (∀ t ∈ broken? s a, ∀ c ∈ (s.threads t).next?, c.applies = true →
    ¬ s'.world.HasClaimed t))

def DB.Unprojected (d : DB) : Prop := ∀ r ∈ d.consumerDedupe, r.consumerName ≠ leaderboardConsumer

variable {calls : ℕ → Call} {w : World} {m : Message} {evt : LiveGiftAcceptedV1}

theorem World.aofBy_eq (w : World) (t : ℕ) :
    w.aofBy t = (w.aof.filter fun e => e.1 = t).map (·.2) := by
  unfold World.aofBy
  induction w.aof with
  | nil => rfl
  | cons e es ih => by_cases he : e.1 = t <;> simp [he, ih]

theorem World.pushedFor_eq_aofBy {t : ℕ}
    (h : ∀ e ∈ w.aof, calls e.1 = .leaderboard m ↔ e.1 = t) : w.pushedFor calls m = w.aofBy t := by
  rw [World.aofBy_eq, World.pushedFor]
  congr 1
  exact List.filter_congr fun e he => by simp [h e he]

variable [Platform] {s : State} {K : State → Act Choice → State → Prop}

def Env.unbroken (calls : ℕ → Call) (w : World) : Env where
  calls := calls
  start := w
  permit t c ch v := c.applies = true → (failing? (.run t ch) ≠ none ∨ v.refuses c = true) →
    ∀ r v', World.exec t c ch v = some (r, v') → ¬ v'.HasClaimed t
  crash t c v := c.applies = true → ¬ v.HasClaimed t
  bars _ _ := False

theorem Env.unbroken_lucky {t : ℕ} : ¬ (Env.unbroken calls w).Unlucky t := by
  intro h
  cases h with
  | commit hp hex hclaim => exact hp rfl (.inl nofun) _ _ hex hclaim
  | redis hp hex hclaim =>
    refine hp rfl ?_ _ _ hex hclaim
    cases exec_redis hex with
    | refused ho => exact .inr ho
    | lost => exact .inl nofun
    | unsent => exact .inl nofun
  | death hp hclaim => exact hp rfl hclaim

theorem Env.unbroken_allows (s : State) (a : Act Choice) (s' : State)
    (h : (system calls).step s a = some s' ∧ Unbroken s a s') :
    (Env.unbroken calls w).Allows s a s' := by
  obtain ⟨hstep, h⟩ := h
  cases a with
  | start t => trivial
  | run t ch =>
    refine ⟨fun c hc happ hf r v' hex => ?_, fun _ _ _ _ _ hb => hb⟩
    obtain ⟨c', k, r', w', hlive, hex', rfl⟩ := Machine.step_run hstep
    rw [hlive] at hc
    obtain rfl : c' = c := Option.some.inj hc
    obtain ⟨rfl, rfl⟩ := Prod.mk.inj (Option.some.inj (hex.symm.trans hex'))
    refine h t ?_ c' (by rw [hlive]; rfl) happ
    cases ch with
    | ok n rank => simpa [broken?, hlive, failing?, Thread.next?, Prog.next?] using hf
    | fault applied => rfl
  | crash t =>
    intro c hc happ
    obtain ⟨c', k, hlive, rfl⟩ := Machine.step_crash hstep
    exact h t rfl c hc happ

def ClaimedBy (h : History) (t : ℕ) (m : Message) : Prop :=
  ∃ r : DedupeRow, (t, [.dedupe r]) ∈ h ∧ r.lock = .dedupe leaderboardConsumer (extractEventID m)

theorem Legal.claimer_unique {d : DB} {h : History} (hl : Legal calls d h) {t u : ℕ}
    (ht : ClaimedBy h t m) (hu : ClaimedBy h u m) : t = u := by
  obtain ⟨r, hr, hk⟩ := ht
  obtain ⟨r', hr', hk'⟩ := hu
  have he := hl.inserter_unique DedupeRow.lock (fun _ _ => applyAll_consumerDedupe)
    (fun ht r hr r' hr' => (ht.of_dedupe hr).1 r' hr') hr hr'
    (List.mem_singleton_self r) (List.mem_singleton_self r') (hk.trans hk'.symm)
  exact congrArg Prod.fst he

section Runs

variable (hs : Start w) (h : (system calls).Reach K (Pool.fresh w) s)
include hs h

theorem reach_aofBy (t : ℕ) (hc : calls t = .leaderboard m)
    (hevt : m.value.unmarshalGiftAccepted = some evt) : s.world.aofBy t <+: giftIncrements evt := by
  refine ((Env.any calls w).sound hs (Env.any_allows (K := K))).reach_keeps
    (P := fun v => v.aofBy t <+: giftIncrements evt) hs.inv hs.fresh ?_
    (fun {u v v'} _ hp hg => ?_) (fun hp => hp) h
  · change w.aofBy t <+: giftIncrements evt
    rw [(hs.fresh t).pushed]
    exact List.nil_prefix
  · rcases hg.aof with ha | ⟨c, ha, hpush⟩
    · rwa [World.aofBy, ha]
    by_cases hut : u = t
    · subst hut
      change (calls u).Pushes u v c at hpush
      rw [hc] at hpush
      obtain ⟨-, evt', hevt', hpre⟩ := hpush
      obtain rfl := Option.some.inj (hevt.symm.trans hevt')
      simpa [World.aofBy, ha] using hpre
    · simpa [World.aofBy, ha, hut] using hp

theorem reach_claimed {e : ℕ × RedisCmd} (he : e ∈ s.world.aof) (hc : calls e.1 = .leaderboard m) :
    ClaimedBy s.world.store.binlog e.1 m := by
  have hp := (reach_delivery hs h).pushed e he
  rw [hc] at hp
  exact hp.1

theorem reach_pushedFor_eq {t : ℕ} (hc : calls t = .leaderboard m)
    (ht : ClaimedBy s.world.store.binlog t m) : s.world.pushedFor calls m = s.world.aofBy t := by
  refine World.pushedFor_eq_aofBy fun e he => ⟨fun hce => ?_, fun het => het ▸ hc⟩
  exact (reach_legal hs h).1.claimer_unique (reach_claimed hs h he hce) ht

theorem reach_pushedFor_nil (hn : ∀ t, calls t = .leaderboard m →
    ¬ ClaimedBy s.world.store.binlog t m) : s.world.pushedFor calls m = [] := by
  refine List.map_eq_nil_iff.mpr (List.filter_eq_nil_iff.mpr fun e he hc => ?_)
  have hc := of_decide_eq_true hc
  exact hn e.1 hc (reach_claimed hs h he hc)

theorem reach_pushedFor_none (hevt : m.value.unmarshalGiftAccepted = none) :
    s.world.pushedFor calls m = [] := by
  refine List.map_eq_nil_iff.mpr (List.filter_eq_nil_iff.mpr fun e he hc => ?_)
  have hp := (reach_delivery hs h).pushed e he
  rw [of_decide_eq_true hc] at hp
  obtain ⟨-, evt, hevt', -⟩ := hp
  rw [hevt] at hevt'
  cases hevt'

/-- All handlers of a message together push each increment of its event at most once. -/
theorem reach_pushedFor (hevt : m.value.unmarshalGiftAccepted = some evt) :
    s.world.pushedFor calls m <+: giftIncrements evt := by
  cases hnil : s.world.pushedFor calls m with
  | nil => exact List.nil_prefix
  | cons c cs =>
    have hc : c ∈ s.world.pushedFor calls m := hnil ▸ List.mem_cons_self
    obtain ⟨e, he, -⟩ := List.mem_map.mp hc
    obtain ⟨he, hce⟩ := List.mem_filter.mp he
    have hce := of_decide_eq_true hce
    rw [← hnil, reach_pushedFor_eq hs h hce (reach_claimed hs h he hce)]
    exact reach_aofBy hs h e.1 hce hevt

theorem ClaimedBy.recorded {t : ℕ} (ht : ClaimedBy s.world.store.binlog t m) :
    s.world.db.Recorded leaderboardConsumer m := by
  obtain ⟨r, hr, hk⟩ := ht
  refine ⟨r, ?_, hk⟩
  rw [(reach_legal hs h).2]
  exact (mem_dbAt (fun _ _ => applyAll_consumerDedupe)).mpr
    (.inr ⟨_, hr, List.mem_singleton_self r⟩)

theorem reach_recorded (hd : w.db.Unprojected) (hm : m ∈ s.world.log.map (·.2))
    (hr : s.world.db.Recorded leaderboardConsumer m) :
    ∃ t, calls t = .leaderboard m ∧ ClaimedBy s.world.store.binlog t m := by
  obtain ⟨hl, hdb⟩ := reach_legal hs h
  have hi := (reach_good (.any calls w) hs Env.any_allows h).1
  obtain ⟨r, hr, hk⟩ := hr
  rw [hdb, mem_dbAt (fun _ _ => applyAll_consumerDedupe)] at hr
  rcases hr with hr | ⟨⟨t, ws⟩, he, hr⟩
  · exact absurd (Lock.dedupe.inj hk).1 (hd r hr)
  obtain ⟨h₁, h₂, -, -, htx⟩ := hl.at he
  generalize hc : calls t = c at htx
  rcases (htx.of_dedupe hr).2 with ⟨m', rfl, hk', rfl⟩ | ⟨m', -, hk', -⟩
  · have hm' : m' ∈ s.world.log.map (·.2) := reach_handled hs h he (by rw [hc]; rfl)
    obtain rfl := hi.message_unique hs hm hm' (Lock.dedupe.inj (hk.symm.trans hk')).2
    exact ⟨t, hc, r, he, hk⟩
  · exact absurd (Lock.dedupe.inj (hk.symm.trans hk')).1 (by decide)

end Runs

theorem reach_flushed (hs : Start w) (h : (system calls).Reach Unbroken (Pool.fresh w) s) {t : ℕ}
    (hc : calls t = .leaderboard m) (hevt : m.value.unmarshalGiftAccepted = some evt)
    (ht : ClaimedBy s.world.store.binlog t m) (hrun : (s.threads t).running = false) :
    s.world.aofBy t = giftIncrements evt := by
  have hg := reach_good (.unbroken calls w) hs Env.unbroken_allows
    (h.strengthen fun _ _ _ _ hstep hk _ => ⟨hstep, hk⟩)
  obtain ⟨r, hr, -⟩ := ht
  have hmem := Store.mem_committedBy.mpr hr
  have hdead : Dead (.unbroken calls w) t s.world := by
    have hth := hg.2 t
    cases hst : s.threads t with
    | idle =>
      rw [hst] at hth
      rw [hth.committed] at hmem
      cases hmem
    | dead => rwa [hst] at hth
    | live p =>
      cases p with
      | op c k => simp [hst, Thread.running, Thread.next?, Prog.next?] at hrun
      | ret o =>
        have hfin := hg.result (t := t) (o := o) (by rw [hst]; rfl)
        generalize hcall : (Env.unbroken calls w).calls t = c at hfin
        obtain rfl : c = .leaderboard m := hcall.symm.trans hc
        cases hfin with
        | leaderboard hd => exact hd
  unfold Dead at hdead
  rw [show (Env.unbroken calls w).calls t = .leaderboard m from hc] at hdead
  rcases hdead.resolve_right Env.unbroken_lucky with hnone | hnone | hall
  · rw [hnone] at hmem
    cases hmem
  · rw [hnone] at hmem
    cases List.mem_singleton.mp hmem
  · exact hall evt hevt

/-- Then, once a message is recorded and no handler of it is at work, its event has been applied
exactly once. -/
theorem reach_pushedFor_all (hs : Start w) (h : (system calls).Reach Unbroken (Pool.fresh w) s)
    (hd : w.db.Unprojected) (hm : m ∈ s.world.log.map (·.2))
    (hevt : m.value.unmarshalGiftAccepted = some evt)
    (hr : s.world.db.Recorded leaderboardConsumer m)
    (hidle : ∀ t, calls t = .leaderboard m → (s.threads t).running = false) :
    s.world.pushedFor calls m = giftIncrements evt := by
  obtain ⟨t, hc, ht⟩ := reach_recorded hs h hd hm hr
  rw [reach_pushedFor_eq hs h hc ht]
  exact reach_flushed hs h hc hevt ht (hidle t hc)

end LiveRevenue
