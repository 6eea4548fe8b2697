import LiveRevenue.Proof.Recharge
import LiveRevenue.Proof.Gift
import LiveRevenue.Proof.Settlement
import LiveRevenue.Proof.Relay
import LiveRevenue.Proof.Leaderboard
import LiveRevenue.Proof.Points
import LiveRevenue.Proof.Ingest

/-! # The system refines the atomic transactions

Whatever the schedule, the committed tables are those of a legal history, and what
a finished call returned is what its own commits justify. The guarantees of single
commands give the invariants that relate tables, message log and marked offsets.
-/

namespace LiveRevenue

open Transact

structure Fresh (t : ℕ) (w : World) : Prop where
  opened : w.store.opened t = none
  committed : w.store.committedBy t = []
  pushed : w.aofBy t = []
  sent : w.sentBy t = []

/-- The steps that a setting allows. -/
def Env.Allows (𝓔 : Env) (s : State) (a : Act Choice) (s' : State) : Prop :=
  match a with
  | .start _ => True
  | .run t ch => (∀ c, (s.threads t).next? = some c → 𝓔.permit t c ch s.world) ∧
      𝓔.Respects t s.world s'.world
  | .crash t => ∀ c, (s.threads t).next? = some c → 𝓔.crash t c s.world

def failing? : Act Choice → Option ℕ
  | .run t (.fault _) => some t
  | .crash t => some t
  | _ => none

def World.refuses (w : World) : Cmd → Bool
  | .redis c => c.overflows w.redis
  | _ => false

/-- The process that gets an infrastructure error, is refused by Redis or dies in a step. -/
def broken? (s : State) : Act Choice → Option ℕ
  | .run t (.ok _ _) => if (s.threads t).next?.any s.world.refuses then some t else none
  | a => failing? a

def Cmd.isCommit : Cmd → Bool
  | .commit => true
  | _ => false

/-- The answer to a `COMMIT` of process `t` does not get lost: one that fails is not applied. -/
def Answered (t : ℕ) (s : State) (a : Act Choice) (_ : State) : Prop :=
  match a with
  | .run u (.fault true) => u = t → ∀ c ∈ (s.threads u).next?, c.isCommit = false
  | _ => True

theorem answered_of_unfailing {t : ℕ} {s s' : State} {a : Act Choice}
    (h : (failing? a).isNone = true) : Answered t s a s' := by
  unfold Answered
  split
  · cases h
  · trivial

def Env.answered (calls : ℕ → Call) (w : World) (t : ℕ) : Env where
  calls := calls
  start := w
  permit u c ch _ := u = t → c.isCommit = true → ch ≠ .fault true
  crash _ _ _ := True
  bars _ _ := False

theorem Env.answered_not_losing {calls : ℕ → Call} {w : World} {t : ℕ} :
    ¬ (Env.answered calls w t).Losing t := by
  rintro ⟨_, hp⟩
  exact hp rfl rfl rfl

theorem Env.answered_allows {calls : ℕ → Call} {w : World} {t : ℕ} (s : State) (a : Act Choice)
    (s' : State) (h : Answered t s a s') : (Env.answered calls w t).Allows s a s' := by
  cases a with
  | start u => trivial
  | run u ch =>
    refine ⟨?_, fun _ _ _ _ _ hb => hb⟩
    rintro c hc hu hcommit rfl
    rw [h hu c hc] at hcommit
    cases hcommit
  | crash u => exact fun _ _ => trivial

/-- The setting in which anything may happen. -/
def Env.any (calls : ℕ → Call) (w : World) : Env :=
  ⟨calls, w, fun _ _ _ _ => True, fun _ _ _ => True, fun _ _ => False⟩

theorem Env.any_allows {calls : ℕ → Call} {w : World} {K : State → Act Choice → State → Prop}
    (s : State) (a : Act Choice) (s' : State) (_ : K s a s') : (Env.any calls w).Allows s a s' := by
  cases a with
  | start t => trivial
  | run t ch => exact ⟨fun _ _ => trivial, fun _ _ _ _ _ h => h⟩
  | crash t => exact fun _ _ => trivial

theorem Start.fresh {w : World} (h : Start w) (t : ℕ) : Fresh t w where
  opened := h.opened t
  committed := by simp [Store.committedBy, h.binlog]
  pushed := by simp [World.aofBy, h.aof]
  sent := by simp [World.sentBy, h.log]

variable [Platform] {𝓔 : Env} {t : ℕ} {w w' : World}

/-- What each kind of call has achieved when it returns. -/
inductive Finished (𝓔 : Env) (t : ℕ) (w : World) : Call → Outcome → Prop where
  | recharged {req : RechargeRequest} {r : Ret RechargeResponse} :
      RechargePost 𝓔 t req r w → Finished 𝓔 t w (.recharge req) (.recharged r)
  | gifted {req : GiftRequest} {r : Ret GiftResponse} :
      GiftPost 𝓔 t req r w → Finished 𝓔 t w (.sendGift req) (.gifted r)
  | closed {id : ℕ} {r : Option AppError} :
      ClosePost t id r w → Finished 𝓔 t w (.closeLiveSession id) (.closed r)
  | settled {id : ℕ} {r : Except Err SettlementResponse} :
      SettlePost 𝓔 id r w → Finished 𝓔 t w (.generateSettlement id) (.settled r)
  | shown {id : ℕ} {r : Ret SettlementResponse} : (∀ resp, r = .ok resp → ShowsRows 𝓔 id resp w) →
      Finished 𝓔 t w (.getSettlement id) (.shown r)
  | settlement {m : Message} {r : Except Err Unit} : Finished 𝓔 t w (.settlement m) (.handled r)
  | relayed {n : ℤ} {r : Except Err ℕ} :
      RelayPost 𝓔 t r w → Finished 𝓔 t w (.runOnce n) (.relayed r)
  | leaderboard {m : Message} {r : Except Err Unit} :
      Dead 𝓔 t w → Finished 𝓔 t w (.leaderboard m) (.handled r)
  | points {m : Message} {r : Except Err Unit} :
      PointsHandled 𝓔 t m r w → Finished 𝓔 t w (.points m) (.handled r)
  | rebuilt {id : ℕ} {r : Except Err Unit} :
      RebuildPost 𝓔 t id r w → Finished 𝓔 t w (.rebuild id) (.handled r)
  | commented {req : InternalCommentRequest} {r : Option AppError} :
      CommentPost t req r w → Finished 𝓔 t w (.enqueueComment req) (.commented r)
  | watched {req : InternalWatchMinutesRequest} {r : Except AppError ℕ} :
      WatchPost 𝓔 t req r w → Finished 𝓔 t w (.enqueueWatchMinutes req) (.watched r)

section Steps

theorem Guar.grows (hg : Guar 𝓔 t w w') : w.db.Grows w'.db := by
  rcases hg.tables with ⟨-, hd⟩ | ⟨ws, -, hd, -⟩
  · rw [hd]
    exact .refl _
  · rw [hd]
    exact grows_applyAll ws w.db

theorem Moves.row_free (h : Moves t w w') (he : Engine w) {r : OutboxRow}
    (hr : r ∈ w'.db.outboxEvents) : (∃ r₀ ∈ w.db.outboxEvents, r₀.eventID = r.eventID) ∨
      w'.store.holder (.outbox r.eventID) = none := by
  obtain ⟨store, ids, log, aof, marked⟩ := w'
  have hm : StoreMove t w store ids := h.store
  change r ∈ store.db.outboxEvents at hr
  change _ ∨ store.holder (.outbox r.eventID) = none
  cases hm with
  | same => exact .inl ⟨r, hr, rfl⟩
  | begin => exact .inl ⟨r, hr, rfl⟩
  | rollback => exact .inl ⟨r, hr, rfl⟩
  | record ho hs hb => exact .inl ⟨r, hr, rfl⟩
  | read => exact .inl ⟨r, hr, rfl⟩
  | @commit ws ho =>
    change r ∈ (applyAll ws w.db).outboxEvents at hr
    obtain ⟨r', hr', hi, -⟩ := mem_applyAll_outbox hr
    have hid := (OutboxRow.eq_of_inserted hi).1
    rcases List.mem_append.mp hr' with hr' | hr'
    · exact .inl ⟨r', hr', hid⟩
    · obtain ⟨x, hx, hp⟩ := List.mem_filterMap.mp hr'
      cases x <;> cases hp
      have hh := he.covered t ws ho _ hx (.outbox r'.eventID) (List.mem_singleton_self _)
      rw [hid] at hh
      exact .inr (if_pos hh)
  | @auto s rank e hs hb =>
    change r ∈ (applyAll e.writes w.db).outboxEvents at hr
    obtain ⟨r', hr', hi, -⟩ := mem_applyAll_outbox hr
    have hid := (OutboxRow.eq_of_inserted hi).1
    rcases List.mem_append.mp hr' with hr' | hr'
    · exact .inl ⟨r', hr', hid⟩
    · obtain ⟨x, hx, hp⟩ := List.mem_filterMap.mp hr'
      cases x <;> cases hp
      subst hs
      rw [← hid, run_outbox_insert hx]
      refine .inr (Option.eq_none_iff_forall_ne_some.mpr fun u hu => ?_)
      exact (he.held _ u hu).false

theorem Guar.inv (hg : Guar 𝓔 t w w') (hm : Moves t w w') (hi : Inv 𝓔 w) : Inv 𝓔 w' where
  engine := hm.engine hi.engine
  legal := by
    rcases hg.tables with ⟨hb, -⟩ | ⟨ws, hb, -, ht, -⟩
    · exact hb ▸ hi.legal
    · exact hb ▸ hi.legal.snoc ht
  db_eq := by
    rcases hg.tables with ⟨hb, hd⟩ | ⟨ws, hb, hd, -⟩
    · rw [hb, hd]
      exact hi.db_eq
    · rw [hb, hd, dbAt_snoc, ← hi.db_eq]
  log := by
    have hold : ∀ e ∈ w.log, ∃ r ∈ w'.db.outboxEvents, r.message = some e.2 := fun e hm =>
      hg.grows.message (hi.log e hm)
    rcases hg.log with hl | ⟨r, hr, m, hm, hl, -⟩
    · exact hl ▸ hold
    · rw [hl]
      intro e he
      rcases List.mem_append.mp he with he | he
      · exact hold e he
      · rw [List.mem_singleton] at he
        exact he ▸ hg.grows.message ⟨r, hr, hm⟩
  locks := by
    intro r hr u hu
    rcases hm.row_free hi.engine hr with ⟨r₀, hr₀, hid⟩ | hfree
    · rw [← hid] at hu
      by_cases hut : u = t
      · subst hut
        rcases hg.locks with hrel | hold
        · exact hrel
        · rcases hold _ hu with hh | hle
          · exact hi.locks r₀ hr₀ u hh
          · exact absurd (hi.engine.below.outboxEvents r₀ hr₀).2.1 (not_lt.mpr hle)
      · exact hi.locks r₀ hr₀ u (((hm.rely hi.engine hut).store.holder _).mp hu)
    · rw [hfree] at hu
      cases hu

theorem Inv.abort (hi : Inv 𝓔 w) : Inv 𝓔 (w.abort t) where
  engine := (abort_moves t w).engine hi.engine
  legal := hi.legal
  db_eq := hi.db_eq
  log := hi.log
  locks r hr u hu := by
    have hut : u ≠ t := by
      rintro rfl
      exact Store.release_ne _ _ _ hu
    exact hi.locks r hr u ((Store.release_eq_some hut).mp hu)

theorem Moves.env_rely {u : ℕ} (h : Moves t w w') (he : Engine w) (hg : Guar 𝓔 t w w')
    (hr : 𝓔.Respects t w w') (hu : u ≠ t) : 𝓔.Rely u w w' := by
  refine ⟨h.rely he hu, fun ho => ?_⟩
  rcases hg.tables with ⟨hb, -⟩ | ⟨ws, hb, -⟩
  · exact ⟨[], by rw [hb, List.append_nil], fun _ h => by cases h⟩
  · refine ⟨[(t, ws)], hb, fun e he => ?_⟩
    rw [List.mem_singleton.mp he]
    exact hr u hu ho ws hb

theorem Dead.rely (hr : 𝓔.Rely t w w') (h : Dead 𝓔 t w) : Dead 𝓔 t w' := by
  unfold Dead at h ⊢
  split
  · next m hm =>
    rw [hm] at h
    exact h.imp_left fun hf => hf.of_later hr.aof hr.store.committed
  · trivial

theorem Start.inv (hs : Start 𝓔.start) : Inv 𝓔 𝓔.start where
  engine := hs.engine
  legal := by
    rw [hs.binlog]
    exact .nil
  db_eq := by
    rw [hs.binlog]
    rfl
  log := by
    rw [hs.log]
    exact fun _ h => by cases h
  locks _ _ u hu := by
    rw [hs.holder] at hu
    cases hu

end Steps

/-- Every call keeps its promises from wherever it may start. -/
theorem safe_program (hs : Start 𝓔.start) (hi : Inv 𝓔 w) (hf : Fresh t w)
    (hready : (𝓔.calls t).ready w = true) :
    Safe 𝓔.logic t (fun o v => Finished 𝓔 t v (𝓔.calls t) o) (𝓔.calls t).program w := by
  have hfresh := And.intro hf.committed hf.pushed
  cases hc : 𝓔.calls t with
  | recharge req =>
    exact Safe.bind (Safe.mono (Safe.keep (safe_recharge hc hfresh)) fun _ _ _ h v hv hi =>
      .recharged (h v hv hi))
  | sendGift req =>
    exact Safe.bind (Safe.mono (Safe.keep (safe_sendGift hc hfresh)) fun _ _ _ h v hv hi =>
      .gifted (h v hv hi))
  | closeLiveSession id =>
    exact Safe.bind (Safe.mono (Safe.keep (safe_closeLiveSession hc hfresh)) fun _ _ _ h v hv hi =>
      .closed (h v hv hi))
  | generateSettlement id =>
    exact Safe.bind (Safe.mono (Safe.keep (safe_generateSettlement hc hfresh))
      fun _ _ _ h v hv hi => .settled (h v hv hi))
  | getSettlement id =>
    refine Safe.bind (Safe.mono (Safe.keep (safe_getSettlement fun v => ?_))
      fun _ _ _ h v hv hi => .shown (h v hv hi))
    unfold Dead
    rw [hc]
    trivial
  | settlement m =>
    rw [hc] at hready
    simp only [Call.ready, decide_eq_true_eq] at hready
    exact Safe.bind (Safe.mono (safe_settlementHandle hc hi hready.1 hready.2 hfresh)
      fun _ _ _ _ _ _ _ => .settlement)
  | runOnce n =>
    exact Safe.bind (Safe.mono (Safe.keep (safe_runOnce hc hs.eventIDs hfresh
      (by simp [World.HasSent, hf.sent])))
      fun _ _ _ h v hv hi => .relayed (h v hv hi))
  | leaderboard m =>
    exact Safe.bind (Safe.mono (Safe.keep (safe_leaderboardHandle hc hfresh))
      fun _ _ _ h v hv hi => .leaderboard (h v hv hi))
  | points m =>
    rw [hc] at hready
    simp only [Call.ready, decide_eq_true_eq] at hready
    exact Safe.bind (Safe.mono (Safe.keep (safe_pointsHandle hc hready.1 hfresh))
      fun _ _ _ h v hv hi => .points (h v hv hi))
  | rebuild id =>
    exact Safe.bind (Safe.mono (Safe.keep (safe_rebuild hc)) fun _ _ _ h v hv hi =>
      .rebuilt (h v hv hi))
  | enqueueComment req =>
    exact Safe.bind (Safe.mono (Safe.keep (safe_enqueueCommentEvent hc hf.committed))
      fun _ _ _ h v hv hi => .commented (h v hv hi))
  | enqueueWatchMinutes req =>
    exact Safe.bind (Safe.mono (Safe.keep (safe_enqueueWatchMinuteEvents hc hfresh))
      fun _ _ _ h v hv hi => .watched (h v hv hi))

variable {K : State → Act Choice → State → Prop}

/-- The logic is sound for every run that the setting allows. -/
theorem Env.sound (𝓔 : Env) (hs : Start 𝓔.start) (hK : ∀ s a s', K s a s' → 𝓔.Allows s a s') :
    Machine.Sound (system 𝓔.calls) K 𝓔.logic Fresh (Dead 𝓔)
      (fun t o w => Finished 𝓔 t w (𝓔.calls t) o) where
  sem {s t ch c k r w} hk ht he :=
    ⟨ch, (hK _ _ _ hk).1 c (by rw [ht]; rfl), he, (hK _ _ _ hk).2⟩
  inv := by
    rintro t c w r w' hi ⟨ch, -, hex, -⟩ hg
    exact hg.inv (exec_moves hex) hi
  rely := by
    rintro t u c w r w' hu hi ⟨ch, -, hex, hr⟩ hg
    exact (exec_moves hex).env_rely hi.engine hg hr hu
  abort_inv hi := hi.abort
  abort_rely hu hi := ⟨(abort_moves _ _).rely hi.engine hu, .refl 𝓔 _ _⟩
  dies hk ht hi hd := hd (hK _ _ _ hk _ (by rw [ht]; rfl))
  dead := Dead.rely
  fresh hr hf := ⟨hr.store.opened.trans hf.opened, hr.store.committed.trans hf.committed,
    hr.aof.trans hf.pushed, hr.sent.trans hf.sent⟩
  start {s t s' w} _ hw hi hf hready := safe_program hs hi hf hready

/-- Every reachable state: the tables of a legal history, every call as its assertion says. -/
theorem reach_good (𝓔 : Env) (hs : Start 𝓔.start)
    (hK : ∀ s a s', K s a s' → 𝓔.Allows s a s') {s : State}
    (h : (system 𝓔.calls).Reach K (Pool.fresh 𝓔.start) s) :
    Machine.Good 𝓔.logic Fresh (Dead 𝓔) (fun t o w => Finished 𝓔 t w (𝓔.calls t) o) s :=
  (𝓔.sound hs hK).reach hs.inv hs.fresh h

theorem gifted_of_good {s : State}
    (hg : Machine.Good 𝓔.logic Fresh (Dead 𝓔) (fun t o w => Finished 𝓔 t w (𝓔.calls t) o) s)
    {req : GiftRequest} (hc : 𝓔.calls t = .sendGift req) {o : Outcome}
    (ho : (s.threads t).result? = some o) : ∃ r, o = .gifted r ∧ GiftPost 𝓔 t req r s.world := by
  have hfin := hg.result ho
  rw [hc] at hfin
  cases hfin with
  | gifted hp => exact ⟨_, rfl, hp⟩

/-- Induction over the committed history of a run: each new transaction comes with the step
that commits it. -/
theorem reach_history (𝓔 : Env) {I : History → Prop} (hs : Start 𝓔.start)
    (hK : ∀ s a s', K s a s' → 𝓔.Allows s a s') (h₀ : I [])
    (hstep : ∀ {s a s' h t ws}, K s a s' → Legal 𝓔.calls 𝓔.start.db h → I h →
      Txn 𝓔.start.db h (𝓔.calls t) ws → s.world.db = dbAt 𝓔.start.db h →
      s'.world.db = applyAll ws (dbAt 𝓔.start.db h) → s.world.store.binlog = h →
      Backed 𝓔 t ws s.world → I (h ++ [(t, ws)]))
    {s : State} (h : (system 𝓔.calls).Reach K (Pool.fresh 𝓔.start) s) :
    I s.world.store.binlog := by
  refine (𝓔.sound hs hK).reach_induct (P := fun s => I s.world.store.binlog) hs.inv hs.fresh ?_
    (fun _ hp _ _ _ => hp) (fun {s t ch c k r w'} hg hp ht he hk hgu => ?_) (fun _ hp _ _ => hp) h
  · rw [show (Pool.fresh 𝓔.start).world.store.binlog = [] from hs.binlog]
    exact h₀
  · rcases hgu.tables with ⟨hb, -⟩ | ⟨ws, hb, hd, htx, hback⟩
    · rw [Pool.setThread_world, hb]
      exact hp
    · rw [Pool.setThread_world, hb]
      exact hstep hk hg.1.legal hp htx hg.1.db_eq (hg.1.db_eq ▸ hd) rfl hback

section Any

variable {calls : ℕ → Call} {s : State}

theorem reach_legal (hs : Start w) (h : (system calls).Reach K (Pool.fresh w) s) :
    Legal calls w.db s.world.store.binlog ∧ s.world.db = dbAt w.db s.world.store.binlog :=
  have hi := (reach_good (.any calls w) hs Env.any_allows h).1
  ⟨hi.legal, hi.db_eq⟩

theorem reach_unopened (hs : Start w) (h : (system calls).Reach K (Pool.fresh w) s) {t : ℕ}
    (hidle : s.threads t = .idle) : s.world.store.opened t = none := by
  have hfresh := (reach_good (.any calls w) hs Env.any_allows h).2 t
  rw [hidle] at hfresh
  exact hfresh.opened

theorem reach_not_idle (hs : Start w) (h : (system calls).Reach K (Pool.fresh w) s) {t : ℕ}
    {ws : List Write} (ht : (t, ws) ∈ s.world.store.binlog) : s.threads t ≠ .idle := by
  intro hidle
  have hfresh := (reach_good (.any calls w) hs Env.any_allows h).2 t
  rw [hidle] at hfresh
  have hmem := Store.mem_committedBy.mpr ht
  rw [hfresh.committed] at hmem
  cases hmem

theorem reach_pusher_not_idle (hs : Start w) (h : (system calls).Reach K (Pool.fresh w) s)
    {e : ℕ × RedisCmd} (he : e ∈ s.world.aof) : s.threads e.1 ≠ .idle := by
  intro hidle
  have hfresh := (reach_good (.any calls w) hs Env.any_allows h).2 e.1
  rw [hidle] at hfresh
  have hmem : e.2 ∈ s.world.aofBy e.1 := List.mem_filterMap.mpr ⟨e, he, if_pos rfl⟩
  rw [hfresh.pushed] at hmem
  cases hmem

theorem StoreMove.tables {t : ℕ} {w : World} {store : Store DB Write Lock} {ids : Ids}
    (h : StoreMove t w store ids) : store.binlog = w.store.binlog ∧ store.db = w.db ∨
      ∃ ws, store.binlog = w.store.binlog ++ [(t, ws)] ∧ store.db = applyAll ws w.db := by
  cases h with
  | commit => exact .inr ⟨_, rfl, rfl⟩
  | auto => exact .inr ⟨_, rfl, rfl⟩
  | _ => exact .inl ⟨rfl, rfl⟩

theorem step_tables {a : Act Choice} {s' : State} (hstep : (system calls).step s a = some s') :
    s'.world.store.binlog = s.world.store.binlog ∧ s'.world.db = s.world.db ∨
      ∃ ws, s'.world.store.binlog = s.world.store.binlog ++ [(a.process, ws)] ∧
        s'.world.db = applyAll ws s.world.db := by
  cases a with
  | start t =>
    obtain ⟨-, -, rfl⟩ := Machine.step_start hstep
    exact .inl ⟨rfl, rfl⟩
  | run t ch =>
    obtain ⟨c, k, r, w', -, hex, rfl⟩ := Machine.step_run hstep
    exact (exec_moves hex).store.tables
  | crash t =>
    obtain ⟨c, k, -, rfl⟩ := Machine.step_crash hstep
    exact (abort_moves t _).store.tables

theorem reach_binlog {s' : State} (h : (system calls).Reach K s s') :
    s.world.store.binlog <+: s'.world.store.binlog := by
  refine h.induct (P := fun x => s.world.store.binlog <+: x.world.store.binlog) List.prefix_rfl ?_
  intro x a x' _ ih hstep _
  rcases step_tables hstep with ⟨hb, -⟩ | ⟨ws, hb, -⟩
  · exact hb ▸ ih
  · exact hb ▸ ih.trans (List.prefix_append _ _)

theorem reach_grows {s' : State} (hs : Start w) (h : (system calls).Reach K (Pool.fresh w) s)
    (h' : (system calls).Reach K s s') : s.world.db.Grows s'.world.db := by
  refine h'.induct (P := fun x => s.world.db.Grows x.world.db) (.refl _) ?_
  intro x a x' hr hg hstep _
  have he := (reach_good (.any calls w) hs Env.any_allows (h.trans hr)).1.engine
  -- the step is interference to every other process
  have hmoves : ∀ {t : ℕ} {w' : World}, Moves t x.world w' → s.world.db.Grows w'.db :=
    fun {t _} hm =>
    hg.trans (hm.rely he (Nat.succ_ne_self t)).store.grows
  cases a with
  | start t =>
    obtain ⟨-, -, rfl⟩ := Machine.step_start hstep
    exact hg
  | run t ch =>
    obtain ⟨c, k, r, w', -, hex, rfl⟩ := Machine.step_run hstep
    exact hmoves (exec_moves hex)
  | crash t =>
    obtain ⟨c, k, -, rfl⟩ := Machine.step_crash hstep
    exact hmoves (abort_moves t _)

end Any

end LiveRevenue
