import LiveRevenue.Proof.System
import LiveRevenue.Schema.Seed

/-! # Caps on points

A handler counts the rows of a viewer in a session and then inserts one more. Neither
statement locks what was counted, so the cap holds as long as no row of the same kind
is committed between the two, that is, while the handler's transaction is open.
-/

namespace LiveRevenue

open Transact

def DB.pointCount (d : DB) (viewerID liveSessionID : ℕ) (reason : PointReason) : ℕ :=
  d.fanPoints.countP fun r =>
    r.viewerID = viewerID ∧ r.liveSessionID = liveSessionID ∧ r.reason = reason

/-- At most 20 COMMENT and 60 WATCH_MINUTE rows for each viewer and session. -/
def DB.WithinCaps (d : DB) : Prop :=
  ∀ v l, d.pointCount v l .comment ≤ 20 ∧ d.pointCount v l .watchMinute ≤ 60

def Call.cappedPoint : Call → Option FanPoint
  | .points m => m.cappedPoint
  | _ => none

/-- A step that commits a COMMENT or WATCH_MINUTE row finds no other transaction open that may
insert a row of the same viewer, session and reason. -/
def OneAtATime (calls : ℕ → Call) (s s' : State) : Prop :=
  ∀ t ws, s'.world.store.binlog = s.world.store.binlog ++ [(t, ws)] →
    ∀ r, .fanPoint r ∈ ws → r.reason ≠ .gift → ∀ u, u ≠ t →
      (∃ r', (calls u).cappedPoint = some r' ∧ r'.alike r = true) → s.world.store.opened u = none

def Env.capping (calls : ℕ → Call) (w : World) : Env :=
  ⟨calls, w, fun _ _ _ _ => True, fun _ _ _ => True, fun t ws => ∃ r, .fanPoint r ∈ ws ∧
    r.reason ≠ .gift ∧ ∃ r', (calls t).cappedPoint = some r' ∧ r'.alike r = true⟩

theorem Env.capping_allows {calls : ℕ → Call} {w : World} (s : State) (a : Act Choice) (s' : State)
    (h : OneAtATime calls s s') : (Env.capping calls w).Allows s a s' := by
  cases a with
  | start t => trivial
  | run t ch =>
    refine ⟨fun _ _ => trivial, fun u hu ho ws hb hbar => ho ?_⟩
    obtain ⟨r, hr, hgift, hlike⟩ := hbar
    exact h t ws hb r hr hgift u hu hlike
  | crash t => exact fun _ _ => trivial

theorem DB.countP_alike (d : DB) (r : FanPoint) :
    d.fanPoints.countP r.alike = d.pointCount r.viewerID r.liveSessionID r.reason := rfl

theorem DB.withinCaps_iff {d : DB} : d.WithinCaps ↔
    ∀ r : FanPoint, r.reason ≠ .gift → d.fanPoints.countP r.alike ≤ r.reason.cap := by
  constructor
  · intro h r hr
    obtain ⟨hc, hw⟩ := h r.viewerID r.liveSessionID
    rw [DB.countP_alike]
    cases hreason : r.reason with
    | gift => exact absurd hreason hr
    | comment => exact hc
    | watchMinute => exact hw
  · intro h v l
    constructor
    · exact h ⟨0, v, 0, l, 0, .comment⟩ (by simp)
    · exact h ⟨0, v, 0, l, 0, .watchMinute⟩ (by simp)

theorem FanPoint.alike_eq {r x : FanPoint} (h : r.alike x = true) :
    x.alike = r.alike ∧ x.reason = r.reason := by
  obtain ⟨hv, hl, hreason⟩ : x.viewerID = r.viewerID ∧ x.liveSessionID = r.liveSessionID ∧
    x.reason = r.reason := by simpa [FanPoint.alike] using h
  refine ⟨?_, hreason⟩
  funext y
  simp [FanPoint.alike, hv, hl, hreason]

theorem fanPoint_mem {ws : List Write} {r : FanPoint}
    (hr : r ∈ ws.filterMap Write.fanPoint?) : .fanPoint r ∈ ws := by
  obtain ⟨x, hx, he⟩ := List.mem_filterMap.mp hr
  cases x with
  | fanPoint y =>
    cases he
    exact hx
  | _ => cases he

section General

variable [Platform] {d : DB} {h : History} {c : Call} {ws : List Write}

theorem Txn.capped (ht : Txn d h c ws) :
    (∀ r ∈ ws.filterMap Write.fanPoint?, r.reason = .gift) ∨
    ∃ r, c.cappedPoint = some r ∧ ws.filterMap Write.fanPoint? = [r] := by
  cases ht with
  | @points m vs p _ hp =>
    cases hp with
    | gift => exact .inl (by simp [List.filterMap_cons])
    | capped => exact .inl (by simp [List.filterMap_cons])
    | counted _ hrow => exact .inr ⟨_, hrow, by simp [List.filterMap_cons]⟩
  | _ => exact .inl (by simp)

theorem countP_alike_of_quiet {r : FanPoint}
    (hq : ∀ x ∈ ws.filterMap Write.fanPoint?, r.alike x = false) :
    (applyAll ws d).fanPoints.countP r.alike = d.fanPoints.countP r.alike := by
  have hnone : (ws.filterMap Write.fanPoint?).countP r.alike = 0 :=
    List.countP_eq_zero.mpr fun x hx => by simp [hq x hx]
  rw [applyAll_fanPoints, List.countP_append, hnone, Nat.add_zero]

theorem countP_dbAt_of_quiet {r : FanPoint} {k : History}
    (hq : ∀ e ∈ k, ∀ x ∈ e.2.filterMap Write.fanPoint?, r.alike x = false) :
    (dbAt d (h ++ k)).fanPoints.countP r.alike = (dbAt d h).fanPoints.countP r.alike := by
  induction k generalizing h with
  | nil => rw [List.append_nil]
  | cons e k ih =>
    rw [List.append_cons, ih fun e he => hq e (List.mem_cons_of_mem _ he), dbAt_snoc]
    exact countP_alike_of_quiet (hq e List.mem_cons_self)

/-- Where rows of one kind are inserted one at a time, none like the new one was committed since
it was counted: the count is still below the cap at the commit. -/
theorem Backed.below_cap {calls : ℕ → Call} {w u : World} {t : ℕ} {x : FanPoint}
    (hback : Backed (.capping calls w) t ws u) (hx : (calls t).cappedPoint = some x)
    (hmem : .fanPoint x ∈ ws) (hr : x.reason ≠ .gift) :
    (dbAt w.db u.store.binlog).fanPoints.countP x.alike < x.reason.cap := by
  obtain ⟨h₁, ⟨k, hk, hcalm⟩, hlt⟩ := hback.counted x hmem hr
  have hquiet : ∀ e ∈ k, ∀ y ∈ e.2.filterMap Write.fanPoint?, x.alike y = false := by
    intro e he y hy
    by_contra hne
    have hy' : x.alike y = true := by simpa using hne
    refine hcalm e he ⟨y, fanPoint_mem hy, ?_, x, hx, hy'⟩
    rwa [(FanPoint.alike_eq hy').2]
  rw [hk, countP_dbAt_of_quiet hquiet]
  exact hlt

/-- In every run in which rows of one kind are inserted one at a time, the caps hold. -/
theorem points_within_caps (calls : ℕ → Call) {w : World} (hs : Start w) (hw : w.db.WithinCaps)
    {s : State} (h : (system calls).Reach (fun s _ s' => OneAtATime calls s s') (Pool.fresh w) s) :
    s.world.db.WithinCaps := by
  rw [(reach_legal hs h).2, DB.withinCaps_iff]
  refine reach_history (.capping calls w)
    (I := fun h => ∀ r : FanPoint, r.reason ≠ .gift →
      (dbAt w.db h).fanPoints.countP r.alike ≤ r.reason.cap) hs Env.capping_allows
    (DB.withinCaps_iff.mp hw) (fun {s a s' h t ws} _ hl hi ht _ _ hb hback => ?_) h
  intro r hr
  rw [dbAt_snoc]
  rcases ht.capped with hgift | ⟨x, hx, hrows⟩
  · rw [countP_alike_of_quiet fun y hy => ?_]
    · exact hi r hr
    · simp [FanPoint.alike, hgift y hy, hr.symm]
  by_cases hlike : r.alike x = true
  · obtain ⟨hsame, hreason⟩ := FanPoint.alike_eq hlike
    have hlt := hback.below_cap hx (fanPoint_mem (by simp [hrows])) (hreason ▸ hr)
    rw [hb, hsame, hreason] at hlt
    rw [applyAll_fanPoints, hrows, List.countP_append, List.countP_singleton, if_pos hlike]
    exact hlt
  · rw [countP_alike_of_quiet fun y hy => ?_]
    · exact hi r hr
    · rw [hrows, List.mem_singleton] at hy
      simpa [hy] using hlike

end General

section Witness

open Plain

def commentMessage (eventID : ℕ) : Message :=
  ⟨commentTopic, "9001", .comment ⟨"c", 2001, 1001, 9001⟩, [("event_id", toString eventID)]⟩

def comments (n t : ℕ) : Call :=
  if t < n then .enqueueComment ⟨"c", 2001, 1001, 9001⟩
  else if t = n then .runOnce 100
  else .points (commentMessage (t - n))

def ingest (n : ℕ) : List (Act Choice) :=
  (List.range n).flatMap (fun t => launch t 2 4) ++
  launch n (2 * n + 5) 5

def twoComments (t : ℕ) : Call := if t ≤ 4 then comments 2 t else .runOnce 100

theorem twoComments_capped {t : ℕ} {r : FanPoint} (h : (twoComments t).cappedPoint = some r) :
    t ∈ [3, 4] := by
  unfold twoComments comments at h
  split at h
  · split at h
    · cases h
    split at h
    · cases h
    · simp only [List.mem_cons, List.not_mem_nil, or_false]
      omega
  · cases h

theorem twoComments_in_turn {s s' : State}
    (hk : ((s'.world.store.binlog.drop s.world.store.binlog.length).all fun e =>
      [3, 4].all fun u => u == e.1 || (s.world.store.opened u).isNone) = true) :
    OneAtATime twoComments s s' := by
  rintro t ws hb r - - u hu ⟨r', hr', -⟩
  rw [hb, List.drop_left, List.all_cons, Bool.and_eq_true, List.all_eq_true] at hk
  simpa [hu] using hk.1 u (twoComments_capped hr')

theorem points_within_caps_in_turn : ∃ s : State,
    s.world.db.pointCount 2001 9001 .comment = 2 ∧ s.world.db.WithinCaps := by
  obtain ⟨s, hr, hp⟩ := Machine.exists_reach (M := system twoComments)
    (s := Pool.fresh (World.boot migrated))
    (K := fun s _ s' => (s'.world.store.binlog.drop s.world.store.binlog.length).all fun e =>
      [3, 4].all fun u => u == e.1 || (s.world.store.opened u).isNone)
    (p := fun s => decide (s.world.db.pointCount 2001 9001 .comment = 2))
    (ingest 2 ++ launch 3 8 6 ++ launch 4 8 6) (by decide +kernel)
  refine ⟨s, of_decide_eq_true hp, points_within_caps twoComments (Start.boot rfl rfl rfl rfl)
    (fun _ _ => ⟨Nat.zero_le _, Nat.zero_le _⟩)
    (hr.mono fun _ _ _ hk => twoComments_in_turn hk)⟩

/-- Two handlers count 19 rows each before either commits its own. -/
theorem comment_cap_exceeded : ∃ s : State,
    (system (comments 21)).Reach (fun _ _ _ => True) (Pool.fresh (World.boot migrated)) s ∧
    s.world.db.pointCount 2001 9001 .comment = 21 := by
  obtain ⟨s, hr, hp⟩ := Machine.exists_reach (M := system (comments 21))
    (s := Pool.fresh (World.boot migrated)) (K := fun _ _ _ => true)
    (p := fun s => decide (s.world.db.pointCount 2001 9001 .comment = 21))
    (ingest 21 ++
      (List.range 19).flatMap (fun t => launch (t + 22) 6 6) ++
      startAll [41, 42] ++ resume 41 4 6 ++
      resume 42 6 6 ++ resume 41 2 6)
    (by decide +kernel)
  exact ⟨s, hr.mono fun _ _ _ _ => trivial, of_decide_eq_true hp⟩

end Witness

end LiveRevenue
