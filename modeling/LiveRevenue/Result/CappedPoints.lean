import LiveRevenue.Result.Caps
import LiveRevenue.Result.Retries

/-! # Capped points, exactly

The handlers of comments and watched minutes record every event they see and insert a row
only below the cap. When rows of one kind are inserted one at a time, the ledger holds a row
for each recorded event until the cap is reached and none after that, whatever the order of
the deliveries and however often they were repeated.
-/

namespace LiveRevenue

open Transact

/-- The comments or watched minutes of a viewer in a session whose events handlers have
committed. A handler that finds its event recorded has nothing to commit. -/
def committedEvents (calls : ℕ → Call) (h : History) (viewerID liveSessionID : ℕ)
    (reason : PointReason) : List ℕ :=
  h.filterMap fun e => if e.2 = [] then none else
    ((calls e.1).cappedPoint.filter fun r =>
      r.viewerID = viewerID ∧ r.liveSessionID = liveSessionID ∧ r.reason = reason).map (·.eventID)

/-- One row for every event up to the cap, each of one point. -/
structure CappedExactly (calls : ℕ → Call) (s : State) (viewerID liveSessionID : ℕ)
    (reason : PointReason) (cap : ℕ) : Prop where
  distinct : (committedEvents calls s.world.store.binlog viewerID liveSessionID reason).Nodup
  count : s.world.db.pointCount viewerID liveSessionID reason =
    min cap (committedEvents calls s.world.store.binlog viewerID liveSessionID reason).length
  worth : ∀ r ∈ s.world.db.fanPoints, r.reason = reason → r.points = 1

theorem CappedExactly.total {calls : ℕ → Call} {s : State} {v l cap : ℕ} {reason : PointReason}
    (h : CappedExactly calls s v l reason cap) :
    s.world.db.pointTotal v l reason = s.world.db.pointCount v l reason := by
  have hone : ∀ r ∈ s.world.db.fanPoints.filter fun r =>
      r.viewerID = v ∧ r.liveSessionID = l ∧ r.reason = reason, r.points = 1 := by
    intro r hr
    obtain ⟨hmem, hkind⟩ := List.mem_filter.mp hr
    exact h.worth r hmem (of_decide_eq_true hkind).2.2
  rw [DB.pointTotal, List.map_congr_left hone, DB.pointCount, List.countP_eq_length_filter]
  simp

theorem committedEvents_snoc {calls : ℕ → Call} {h : History} {t : ℕ} {ws : List Write}
    {v l : ℕ} {reason : PointReason} : committedEvents calls (h ++ [(t, ws)]) v l reason =
      committedEvents calls h v l reason ++ if ws = [] then [] else
        (((calls t).cappedPoint.filter fun r =>
          r.viewerID = v ∧ r.liveSessionID = l ∧ r.reason = reason).map (·.eventID)).toList := by
  rw [committedEvents, List.filterMap_append]
  congr 1
  by_cases hws : ws = []
  · simp [hws]
  · rw [if_neg hws, List.filterMap_cons, if_neg hws]
    cases ((calls t).cappedPoint.filter _).map _ <;> rfl

section General

variable [Platform] {calls : ℕ → Call} {d : DB} {h : History} {t : ℕ} {ws : List Write}

/-- What a handler of a capped event commits: its dedupe row, with the row it asks for or, when
the cap is reached, without. -/
theorem Txn.of_cappedPoint {c : Call} (ht : Txn d h c ws) {x : FanPoint}
    (hx : c.cappedPoint = some x) (hne : ws ≠ []) :
    ∃ p : Deduped pointsConsumer x.eventID (dbAt d h),
      ws = [.dedupe p.row] ∧ x.reason.cap ≤ (dbAt d h).fanPoints.countP x.alike ∨
        ws = [.dedupe p.row, .fanPoint x] := by
  cases ht with
  | @points m vs p _ hp =>
    have hid := (cappedPoint_spec hx).1
    rw [hid]
    refine ⟨p, ?_⟩
    cases hp with
    | gift htopic =>
      rw [Call.cappedPoint, Message.cappedPoint, htopic, if_neg (by decide),
        if_neg (by decide)] at hx
      cases hx
    | capped _ hrow hcap =>
      obtain rfl := Option.some.inj (hrow.symm.trans hx)
      exact .inl ⟨rfl, hcap⟩
    | counted _ hrow =>
      obtain rfl := Option.some.inj (hrow.symm.trans hx)
      exact .inr rfl
  | nothing => exact absurd rfl hne
  | _ => cases hx

theorem Legal.committedEvents (hl : Legal calls d h) (v l : ℕ) (reason : PointReason) :
    (committedEvents calls h v l reason).Nodup ∧
      ∀ id ∈ committedEvents calls h v l reason,
        ∃ r ∈ (dbAt d h).consumerDedupe, r.lock = .dedupe pointsConsumer id := by
  induction hl with
  | nil => exact ⟨List.nodup_nil, nofun⟩
  | @snoc h t ws _ ht ih =>
    obtain ⟨hnodup, hrec⟩ := ih
    have hkept : ∀ id ∈ LiveRevenue.committedEvents calls h v l reason,
        ∃ r ∈ (dbAt d (h ++ [(t, ws)])).consumerDedupe, r.lock = .dedupe pointsConsumer id := by
      intro id hid
      obtain ⟨r, hr, hk⟩ := hrec id hid
      exact ⟨r, (dbAt_grows (List.prefix_append _ _)).consumerDedupe.subset hr, hk⟩
    rw [committedEvents_snoc]
    split
    · rw [List.append_nil]
      exact ⟨hnodup, hkept⟩
    next hne =>
    cases hx : (calls t).cappedPoint.filter _ with
    | none =>
      rw [Option.map_none, Option.toList_none, List.append_nil]
      exact ⟨hnodup, hkept⟩
    | some x =>
      obtain ⟨p, hp⟩ := ht.of_cappedPoint (Option.filter_eq_some_iff.mp hx).1 hne
      -- the id had no dedupe row before and has one now
      have hnew : x.eventID ∉ LiveRevenue.committedEvents calls h v l reason := by
        intro hid
        obtain ⟨r, hr, hk⟩ := hrec _ hid
        exact p.newRow r hr hk
      have hrow : p.row ∈ (dbAt d (h ++ [(t, ws)])).consumerDedupe := by
        rw [dbAt_snoc, applyAll_consumerDedupe]
        rcases hp with ⟨rfl, -⟩ | rfl <;> simp
      rw [Option.map_some, Option.toList_some]
      refine ⟨List.nodup_append.mpr ⟨hnodup, List.nodup_singleton _, ?_⟩, ?_⟩
      · intro id hid y hy
        rw [List.mem_singleton.mp hy]
        rintro rfl
        exact hnew hid
      · intro id hid
        rcases List.mem_append.mp hid with hid | hid
        · exact hkept id hid
        · rw [List.mem_singleton.mp hid]
          exact ⟨p.row, hrow, rfl⟩

theorem Legal.worth (hl : Legal calls d h) (hd : d.fanPoints = []) :
    ∀ r ∈ (dbAt d h).fanPoints, r.reason ≠ .gift → r.points = 1 := by
  induction hl with
  | nil =>
    intro r hr
    rw [dbAt_nil, hd] at hr
    cases hr
  | @snoc h t ws _ ht ih =>
    intro r hr hreason
    rw [dbAt_snoc, applyAll_fanPoints] at hr
    rcases List.mem_append.mp hr with hr | hr
    · exact ih r hr hreason
    rcases ht.capped with hgift | ⟨x, hx, hrows⟩
    · exact absurd (hgift r hr) hreason
    · rw [hrows, List.mem_singleton] at hr
      subst hr
      generalize calls t = c at hx
      cases c with
      | points m => exact (cappedPoint_spec hx).2.2
      | _ => cases hx

theorem countP_step {w u : World} (ht : Txn w.db u.store.binlog (calls t) ws)
    (hback : Backed (.capping calls w) t ws u) {r : FanPoint} (hr : r.reason ≠ .gift)
    (hi : (dbAt w.db u.store.binlog).fanPoints.countP r.alike = min r.reason.cap
      (committedEvents calls u.store.binlog r.viewerID r.liveSessionID r.reason).length) :
    (applyAll ws (dbAt w.db u.store.binlog)).fanPoints.countP r.alike = min r.reason.cap
      (committedEvents calls (u.store.binlog ++ [(t, ws)]) r.viewerID r.liveSessionID
        r.reason).length := by
  rw [committedEvents_snoc]
  split
  · next hws =>
    subst hws
    rw [List.append_nil]
    exact hi
  next hne =>
  cases hx : (calls t).cappedPoint.filter _ with
  | none =>
    rw [Option.map_none, Option.toList_none, List.append_nil, ← hi]
    refine countP_alike_of_quiet fun y hy => ?_
    rcases ht.capped with hgift | ⟨x, hx', hrows⟩
    · simp [FanPoint.alike, hgift y hy, hr.symm]
    · rw [hrows, List.mem_singleton] at hy
      subst hy
      rw [hx', Option.filter_some] at hx
      split at hx
      · cases hx
      · next hlike => exact Bool.eq_false_iff.mpr hlike
  | some x =>
    obtain ⟨hx, hlike⟩ := Option.filter_eq_some_iff.mp hx
    have hlike : r.alike x = true := hlike
    obtain ⟨hsame, hreason⟩ := FanPoint.alike_eq hlike
    rw [Option.map_some, Option.toList_some, List.length_append, List.length_singleton,
      applyAll_fanPoints, List.countP_append, hi]
    obtain ⟨p, ⟨hws, hcap⟩ | hws⟩ := ht.of_cappedPoint hx hne
    · rw [hsame, hreason, hi] at hcap
      have hnone : ws.filterMap Write.fanPoint? = [] := by simp [hws]
      rw [hnone, List.countP_nil]
      omega
    · have hlt := hback.below_cap hx (by simp [hws]) (hreason ▸ hr)
      rw [hsame, hreason, hi] at hlt
      have hone : ws.filterMap Write.fanPoint? = [x] := by simp [hws, List.filterMap_cons]
      rw [hone, List.countP_singleton, if_pos hlike]
      omega

theorem Txn.of_recorded {m : Message} (ht : Txn d h (.points m) ws)
    (hr : (dbAt d h).Recorded pointsConsumer m) : ws = [] := by
  cases ht with
  | nothing => rfl
  | points p =>
    obtain ⟨r, hr, hk⟩ := hr
    exact absurd hk (p.newRow r hr)

section Runs

variable {K : State → Act Choice → State → Prop} {w : World} {s s' : State}

theorem redelivery_same (hs : Start w) (h : (system calls).Reach K (Pool.fresh w) s) {m : Message}
    {a : Act Choice} (hc : calls a.process = .points m)
    (hr : s.world.db.Recorded pointsConsumer m) (hstep : (system calls).step s a = some s') :
    s'.world.db = s.world.db := by
  rcases step_tables hstep with ⟨-, hd⟩ | ⟨ws, hb, hd⟩
  · exact hd
  · have hd₀ := (reach_legal hs h).2
    have hl := (reach_legal hs (.tail (h.mono fun _ _ _ _ => trivial) hstep
      (trivial : (fun _ _ _ => True) s a s'))).1
    rw [hb] at hl
    have ht : Txn w.db s.world.store.binlog (calls a.process) ws := by
      generalize hh : s.world.store.binlog ++ [(a.process, ws)] = h' at hl
      cases hl with
      | nil => simp at hh
      | snoc _ ht =>
        obtain ⟨rfl, he⟩ := List.append_inj' hh rfl
        cases he
        exact ht
    rw [hc] at ht
    rw [hd, ht.of_recorded (hd₀ ▸ hr)]
    rfl

theorem reach_cappedExactly (hs : Start w) (hd : w.db.fanPoints = [])
    (h : (system calls).Reach (fun s _ s' => OneAtATime calls s s') (Pool.fresh w) s) (v l : ℕ)
    {reason : PointReason} (hr : reason ≠ .gift) : CappedExactly calls s v l reason reason.cap := by
  obtain ⟨hl, hdb⟩ := reach_legal hs h
  refine ⟨(hl.committedEvents v l reason).1, ?_, fun r hm hreason => ?_⟩
  · have hcount := reach_history (.capping calls w)
      (I := fun h => ∀ r : FanPoint, r.reason ≠ .gift → (dbAt w.db h).fanPoints.countP r.alike =
        min r.reason.cap (committedEvents calls h r.viewerID r.liveSessionID r.reason).length)
      hs Env.capping_allows (fun r _ => by simp [hd, committedEvents])
      (fun {s a s' h t ws} _ hl hi ht _ _ hb hback r hr => by
        subst hb
        rw [dbAt_snoc]
        exact countP_step ht hback hr (hi r hr)) h
    rw [hdb]
    exact hcount ⟨0, v, 0, l, 0, reason⟩ hr
  · exact hl.worth hd r (hdb ▸ hm) (hreason ▸ hr)

end Runs

/-- In every run in which rows of one kind are inserted one at a time: the ledger has one row of
one point for each committed event, up to 20 comments and 60 watched minutes for each viewer
and session; a run that commits the same events in any other order ends with the same points;
and a handler that gets an event again changes nothing. -/
theorem capped_points_exact (calls : ℕ → Call) {w : World} (hs : Start w)
    (hd : w.db.fanPoints = []) {s : State}
    (h : (system calls).Reach (fun s _ s' => OneAtATime calls s s') (Pool.fresh w) s) :
    (∀ v l, CappedExactly calls s v l .comment 20 ∧ CappedExactly calls s v l .watchMinute 60) ∧
    (∀ (calls' : ℕ → Call) (w' : World) (s' : State), Start w' → w'.db.fanPoints = [] →
      (system calls').Reach (fun s _ s' => OneAtATime calls' s s') (Pool.fresh w') s' →
      ∀ v l reason, reason ≠ .gift →
        (∀ id, id ∈ committedEvents calls' s'.world.store.binlog v l reason ↔
          id ∈ committedEvents calls s.world.store.binlog v l reason) →
        s'.world.db.pointCount v l reason = s.world.db.pointCount v l reason ∧
        s'.world.db.pointTotal v l reason = s.world.db.pointTotal v l reason) ∧
    ∀ t m, calls t = .points m → s.world.db.Recorded pointsConsumer m → ∀ a s', a.process = t →
      (system calls).step s a = some s' → s'.world.db = s.world.db := by
  refine ⟨fun v l => ⟨?_, ?_⟩, ?_, ?_⟩
  · exact reach_cappedExactly hs hd h v l nofun
  · exact reach_cappedExactly hs hd h v l nofun
  · intro calls' w' s' hs' hd' h' v l reason hreason hsame
    have hx := reach_cappedExactly hs hd h v l hreason
    have hx' := reach_cappedExactly hs' hd' h' v l hreason
    have hlength := ((List.perm_ext_iff_of_nodup hx'.distinct hx.distinct).mpr hsame).length_eq
    have hcount : s'.world.db.pointCount v l reason = s.world.db.pointCount v l reason := by
      rw [hx'.count, hx.count, hlength]
    exact ⟨hcount, by rw [hx'.total, hx.total, hcount]⟩
  · rintro t m hc hr a s' rfl hstep
    exact redelivery_same hs h hc hr hstep

end General

section Witness

open Plain

/-- Two comments, each delivered once. -/
theorem capped_points_exact_two : ∃ s : State,
    s.world.db.pointTotal 2001 9001 .comment = 2 ∧
    CappedExactly twoComments s 2001 9001 .comment 20 := by
  obtain ⟨s, hr, hp⟩ := Machine.exists_reach (M := system twoComments)
    (s := Pool.fresh (World.boot migrated))
    (K := fun s _ s' => (s'.world.store.binlog.drop s.world.store.binlog.length).all fun e =>
      [3, 4].all fun u => u == e.1 || (s.world.store.opened u).isNone)
    (p := fun s => decide (s.world.db.pointTotal 2001 9001 .comment = 2))
    (ingest 2 ++ launch 3 8 6 ++ launch 4 8 6) (by decide +kernel)
  refine ⟨s, of_decide_eq_true hp, ((capped_points_exact twoComments (Start.boot rfl rfl rfl rfl)
    rfl (hr.mono fun s _ s' hk => twoComments_in_turn hk)).1 2001 9001).1⟩

end Witness

end LiveRevenue
