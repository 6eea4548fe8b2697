import LiveRevenue.Result.Finality
import LiveRevenue.Result.Outbox

/-! # A session closes once

Only a transaction that finds the session OPEN closes it, and the same transaction
inserts the close event. A session that is closed stays closed, so there is one such
transaction at most, and every other caller finds the session closed.
-/

namespace LiveRevenue

open Transact

def DB.closeEvents (d : DB) (id : ℕ) : ℕ :=
  (d.payloads sessionClosedTopic).countP fun p =>
    p.unmarshalSessionClosed.any (·.liveSessionID = id)

@[simp] def Write.closes? : Write → Option ℕ
  | .closeSession id _ => some id
  | _ => none

/-- What the calls that close a session, and its events, look like when `d` are the initial
tables. -/
structure ClosedOnce (calls : ℕ → Call) (d : DB) (id : ℕ) (s : State) : Prop where
  closedEvent : d.HasStatus id .opened → d.closeEvents id = 0 →
    s.world.db.HasStatus id .closed → s.world.db.closeEvents id = 1
  openEvent : d.HasStatus id .opened → d.closeEvents id = 0 →
    s.world.db.HasStatus id .opened → s.world.db.closeEvents id = 0
  winner : ∀ t t', calls t = .closeLiveSession id → calls t' = .closeLiveSession id →
    (s.threads t).result? = some (.closed none) → (s.threads t').result? = some (.closed none) →
    t = t'
  losers : ∀ t e, calls t = .closeLiveSession id →
    (s.threads t).result? = some (.closed (some e)) → e.code ≠ "INTERNAL_ERROR" →
    s.world.store.committedBy t = [] ∧ (d.liveSessions id ≠ none →
      e.httpStatus = 409 ∧ e.code = "LIVE_SESSION_CLOSED")

@[simp] theorem opening_closes {d : DB} {u : ℕ} : (d.opening u).filterMap Write.closes? = [] :=
  filterMap_opening rfl

theorem closes_of_post {t id : ℕ} {w : World} (h : ClosePost t id none w) :
    ∃ ws, (t, ws) ∈ w.store.binlog ∧ id ∈ ws.filterMap Write.closes? := by
  obtain ⟨d, p, hp⟩ := h
  refine ⟨p.writes, Store.mem_committedBy.mp ?_, by simp [Closed.writes]⟩
  rw [hp]
  exact List.mem_singleton_self _

section General

variable [Platform] {calls : ℕ → Call} {d : DB} {h : History} {c : Call} {ws : List Write} {id : ℕ}

theorem applyAll_liveSessions (h : id ∉ ws.filterMap Write.closes?) :
    (applyAll ws d).liveSessions id = d.liveSessions id := by
  induction ws generalizing d with
  | nil => rfl
  | cons x ws ih =>
    rw [List.filterMap_cons] at h
    cases x with
    | closeSession i at_ =>
      simp only [Write.closes?, List.mem_cons, not_or] at h
      rw [applyAll_cons, ih h.2]
      exact Function.update_of_ne h.1 _ _
    | _ => exact ih h

/-- A transaction closes a session and announces it, or does neither. -/
theorem Txn.closing (ht : Txn d h c ws) :
    (∃ i, ∃ p : Closed i (dbAt d h), c = .closeLiveSession i ∧ ws = p.writes) ∨
    ws.filterMap Write.closes? = [] ∧
      (ws.filterMap Write.outbox?).filter (fun r => r.topic = sessionClosedTopic) = [] := by
  cases ht with
  | closed p => exact .inl ⟨_, p, rfl, rfl⟩
  | recharged p =>
    refine .inr
      ⟨by simp [Recharged.writes, posting, List.filterMap_append, List.filterMap_cons], ?_⟩
    rw [p.picks.2.2.2.2.1]
    rfl
  | accepted p =>
    refine .inr ⟨by simp [Accepted.writes, posting, List.filterMap_append, List.filterMap_cons], ?_⟩
    rw [p.picks.2.2.2.2.1]
    rfl
  | rejected p =>
    refine .inr ⟨?_, ?_⟩
    · unfold Rejected.writes
      split <;> simp [List.filterMap_append, List.filterMap_cons]
    · rw [p.picks.2.2.2.2.1]
      rfl
  | points p _ hp =>
    refine .inr ⟨?_, by simp [List.filterMap_cons, hp.picks.2.2.2.2.1]⟩
    cases hp <;> simp [List.filterMap_cons]
  | published p => exact .inr ⟨by simp [Published.writes], by simp⟩
  | commented p =>
    refine .inr ⟨by simp [Enqueued.writes], ?_⟩
    rw [p.picks.2.2.2.2.1, List.filter_eq_nil_iff]
    intro r hr
    rw [(p.row hr).1]
    decide
  | watched p =>
    refine .inr ⟨by simp [Enqueued.writes], ?_⟩
    rw [p.picks.2.2.2.2.1, List.filter_eq_nil_iff]
    intro r hr
    rw [(p.row hr).1]
    decide
  | settled p => exact .inr ⟨rfl, rfl⟩
  | settledBy p => exact .inr ⟨rfl, rfl⟩
  | _ => exact .inr ⟨rfl, rfl⟩

theorem Txn.liveSessions (ht : Txn d h c ws) (hc : ∀ i, c ≠ .closeLiveSession i) :
    (applyAll ws (dbAt d h)).liveSessions = (dbAt d h).liveSessions := by
  funext id
  refine applyAll_liveSessions ?_
  rcases ht.closing with ⟨i, p, rfl, -⟩ | ⟨hno, -⟩
  · exact absurd rfl (hc i)
  · rw [hno]
    exact List.not_mem_nil

theorem Legal.liveSessions (hl : Legal calls d h) (hc : ∀ t i, calls t ≠ .closeLiveSession i) :
    (dbAt d h).liveSessions = d.liveSessions := by
  induction hl with
  | nil => rfl
  | snoc _ ht ih =>
    rw [dbAt_snoc, ht.liveSessions (hc _)]
    exact ih

theorem closeEvents_applyAll : (applyAll ws d).closeEvents id = d.closeEvents id +
    (((ws.filterMap Write.outbox?).filter fun r => r.topic = sessionClosedTopic).map
      (·.payload)).countP fun p => p.unmarshalSessionClosed.any (·.liveSessionID = id) := by
  rw [DB.closeEvents, payloads_applyAll, List.countP_append]
  rfl

theorem Closed.closeEvents {i : ℕ} (p : Closed i d) : (applyAll p.writes d).closeEvents id =
    d.closeEvents id + if i = id then 1 else 0 := by
  rw [closeEvents_applyAll, p.picks.2.2.2.2.1]
  by_cases h : i = id <;> simp [Closed.event, Payload.unmarshalSessionClosed, h]

theorem Closed.hasStatus (p : Closed id d) : (applyAll p.writes d).HasStatus id .closed := by
  simp [DB.HasStatus, Closed.writes, Write.apply, p.session_eq, LiveSession.close]

theorem Legal.closeEvents (hl : Legal calls d h) (ho : d.HasStatus id .opened)
    (he : d.closeEvents id = 0) :
    ((dbAt d h).HasStatus id .closed → (dbAt d h).closeEvents id = 1) ∧
    ((dbAt d h).HasStatus id .opened → (dbAt d h).closeEvents id = 0) := by
  have hne : ∀ {d : DB}, d.HasStatus id .opened → ¬ d.HasStatus id .closed := by
    intro d h1 h2
    rw [DB.HasStatus, h1] at h2
    cases h2
  induction hl with
  | nil => exact ⟨fun hc => absurd hc (hne ho), fun _ => he⟩
  | @snoc h t ws _ ht ih =>
    rw [dbAt_snoc]
    rcases ht.closing with ⟨i, p, -, rfl⟩ | ⟨hclose, hnone⟩
    · rw [p.closeEvents]
      by_cases hi : i = id
      · subst hi
        have hopen : (dbAt d h).HasStatus i .opened := by
          simp [DB.HasStatus, p.session_eq, p.session_open]
        rw [ih.2 hopen, if_pos rfl]
        exact ⟨fun _ => rfl, fun h => absurd p.hasStatus (hne h)⟩
      · have hsame : (applyAll p.writes (dbAt d h)).liveSessions id = (dbAt d h).liveSessions id :=
          applyAll_liveSessions (by simp [Closed.writes, Ne.symm hi])
        rw [if_neg hi, Nat.add_zero]
        unfold DB.HasStatus at ih ⊢
        rwa [hsame]
    · have hsame : (applyAll ws (dbAt d h)).liveSessions id = (dbAt d h).liveSessions id :=
        applyAll_liveSessions (by simp [hclose])
      rw [closeEvents_applyAll, hnone, List.map_nil, List.countP_nil, Nat.add_zero]
      unfold DB.HasStatus at ih ⊢
      rwa [hsame]

theorem Legal.closed_of_mem (hl : Legal calls d h) {e : ℕ × List Write} (he : e ∈ h)
    (hid : id ∈ e.2.filterMap Write.closes?) : (dbAt d h).HasStatus id .closed := by
  obtain ⟨h₁, h₂, rfl, -, ht⟩ := hl.at he
  rcases ht.closing with ⟨i, p, -, hw⟩ | ⟨hnone, -⟩
  · rw [hw] at hid
    have hi : id = i := by simpa [Closed.writes] using hid
    subst hi
    rw [List.append_cons, dbAt_append, dbAt_append, dbAt_singleton, hw]
    exact (grows_dbAt _ h₂).hasStatus p.hasStatus
  · rw [hnone] at hid
    cases hid

theorem Legal.closer_unique (hl : Legal calls d h) {e e' : ℕ × List Write} (he : e ∈ h)
    (he' : e' ∈ h) (hid : id ∈ e.2.filterMap Write.closes?)
    (hid' : id ∈ e'.2.filterMap Write.closes?) : e = e' := by
  induction hl with
  | nil => cases he
  | @snoc h t ws hl ht ih =>
    have hlast : ∀ x ∈ h, id ∈ x.2.filterMap Write.closes? →
        id ∉ ws.filterMap Write.closes? := by
      intro x hx hxid hw
      have hclosed := hl.closed_of_mem hx hxid
      rcases ht.closing with ⟨i, p, -, rfl⟩ | ⟨hnone, -⟩
      · have hi : id = i := by simpa [Closed.writes] using hw
        subst hi
        rw [DB.HasStatus, p.session_eq, Option.map_some, p.session_open] at hclosed
        cases hclosed
      · rw [hnone] at hw
        cases hw
    rw [List.mem_append, List.mem_singleton] at he he'
    rcases he with he | rfl <;> rcases he' with he' | rfl
    · exact ih he he'
    · exact absurd hid' (hlast e he hid)
    · exact absurd hid (hlast e' he' hid')
    · rfl

/-- Whatever runs and wherever it fails: a closed session stays closed, its events say so once,
one caller at most closes it and the others are told that it is closed. -/
theorem close_exactly_once (calls : ℕ → Call) (id : ℕ) (hid : id ≠ 0) {w : World} (hs : Start w)
    {s : State} (h : (system calls).Reach (fun _ _ _ => True) (Pool.fresh w) s) :
    (∀ s', (system calls).Reach (fun _ _ _ => True) s s' → s.world.db.HasStatus id .closed →
      s'.world.db.HasStatus id .closed) ∧ ClosedOnce calls w.db id s := by
  have hg := reach_good (.any calls w) hs Env.any_allows h
  obtain ⟨hl, hd⟩ := reach_legal hs h
  have hpost : ∀ {t r}, calls t = .closeLiveSession id → (s.threads t).result? = some (.closed r) →
      ClosePost t id r s.world := by
    intro t r hc hr
    have hf := hg.result hr
    simp only [Env.any, hc] at hf
    cases hf with
    | closed hp => exact hp
  refine ⟨fun s' h' hc => (reach_grows hs h h').hasStatus hc, ?_, ?_, ?_, ?_⟩
  · intro ho he
    rw [hd]
    exact (hl.closeEvents ho he).1
  · intro ho he
    rw [hd]
    exact (hl.closeEvents ho he).2
  · intro t t' hc hc' hr hr'
    obtain ⟨ws, hm, hi⟩ := closes_of_post (hpost hc hr)
    obtain ⟨ws', hm', hi'⟩ := closes_of_post (hpost hc' hr')
    exact congrArg Prod.fst (hl.closer_unique hm hm' hi hi')
  · intro t e hc hr hcode
    obtain ⟨hnone, href⟩ := hpost hc hr
    refine ⟨hnone.resolve_right hcode, fun hexists => ?_⟩
    cases href with
    | internal => exact absurd rfl hcode
    | invalid h0 => exact absurd h0 hid
    | notFound hnf =>
      have hfix := (reach_grows hs .refl h).sessionFixed id
      rw [hnf, Option.map_none, eq_comm, Option.map_eq_none_iff] at hfix
      exact absurd hfix hexists
    | closed => exact ⟨rfl, rfl⟩

end General

section Witness

open Plain

def closeTwice : ℕ → Call := fun _ => .closeLiveSession 9001

/-- Both callers begin before either updates the session. -/
theorem close_exactly_once_race : ∃ s : State,
    (s.threads 0).result? = some (.closed none) ∧
    (∃ e, (s.threads 1).result? = some (.closed (some e)) ∧ e.code = "LIVE_SESSION_CLOSED") ∧
    s.world.db.HasStatus 9001 .closed ∧ ClosedOnce closeTwice migrated 9001 s := by
  obtain ⟨s, hr, hp⟩ := Machine.exists_reach (M := system closeTwice)
    (s := Pool.fresh (World.boot migrated)) (K := fun _ _ _ => true)
    (p := fun s => decide ((s.threads 0).result? = some (.closed none) ∧
      (s.threads 1).result? = some (.closed (some
        ⟨409, "LIVE_SESSION_CLOSED", "live session already closed"⟩)) ∧
      s.world.db.HasStatus 9001 .closed))
    (startAll [0, 1] ++ resume 1 3 4 ++ resume 0 8 5 ++ resume 1 3 6) (by decide +kernel)
  obtain ⟨h0, h1, hst⟩ := of_decide_eq_true hp
  exact ⟨s, h0, ⟨_, h1, rfl⟩, hst, (close_exactly_once closeTwice 9001 (by decide)
    (Start.boot rfl rfl rfl rfl) (hr.mono fun _ _ _ _ => trivial)).2⟩

def withSessionZero : DB :=
  { migrated with
    liveSessions := Function.update migrated.liveSessions 0 (some ⟨1001, none, .opened, none⟩) }

/-- Session 0 exists and is OPEN, but closing it is refused as invalid. -/
theorem close_session_zero : ∃ s : State,
    (system fun _ => .closeLiveSession 0).Reach (fun _ _ _ => True)
      (Pool.fresh (World.boot withSessionZero)) s ∧
    s.world.db.HasStatus 0 .opened ∧ ∃ e, (s.threads 0).result? = some (.closed (some e)) ∧
      e.code ≠ "INTERNAL_ERROR" ∧ e.code ≠ "LIVE_SESSION_CLOSED" := by
  obtain ⟨s, hr, hp⟩ := Machine.exists_reach (M := system fun _ => .closeLiveSession 0)
    (s := Pool.fresh (World.boot withSessionZero)) (K := fun _ _ _ => true)
    (p := fun s => decide ((s.threads 0).result? = some (.closed (some errValidation)) ∧
      s.world.db.HasStatus 0 .opened)) (startAll [0]) (by decide +kernel)
  obtain ⟨hres, hst⟩ := of_decide_eq_true hp
  exact ⟨s, hr.mono fun _ _ _ _ => trivial, hst, errValidation, hres, by decide, by decide⟩

end Witness

end LiveRevenue
