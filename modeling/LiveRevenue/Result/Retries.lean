import LiveRevenue.Result.Points
import LiveRevenue.Result.WatchMinutes

/-! # Repeated submissions of viewer activity

The projector recognises an event by the id of its outbox row, which a client that
submits its activity again cannot choose: the second submission is a second event. So a
viewer earns at most one point for each submitted id as long as no activity is submitted
again once its event is in the outbox.
-/

namespace LiveRevenue

open Transact

@[ext] structure Submission where
  reason : PointReason
  viewerID : ℕ
  liveSessionID : ℕ
  eventID : String
  deriving DecidableEq, Repr

def Payload.submission? : Payload → Option Submission
  | .comment e => some ⟨.comment, e.viewerID, e.liveSessionID, e.eventID⟩
  | .watchMinute e => some ⟨.watchMinute, e.viewerID, e.liveSessionID, e.eventID⟩
  | _ => none

def Call.submissions : Call → List Submission
  | .enqueueComment req => [⟨.comment, req.viewerID, req.liveSessionID, req.eventID⟩]
  | .enqueueWatchMinutes req =>
    req.minuteIDs.map fun id => ⟨.watchMinute, req.viewerID, req.liveSessionID, id⟩
  | _ => []

theorem Call.submissions_nodup (c : Call) : c.submissions.Nodup := by
  cases c with
  | enqueueComment req => exact List.nodup_singleton _
  | enqueueWatchMinutes req =>
    exact req.minuteIDs_nodup.map fun i j h => congrArg Submission.eventID h
  | _ => exact List.nodup_nil

def DB.submissions (d : DB) : List Submission := d.outboxEvents.filterMap (·.payload.submission?)

def DB.pointTotal (d : DB) (viewerID liveSessionID : ℕ) (reason : PointReason) : ℕ :=
  ((d.fanPoints.filter fun r =>
    r.viewerID = viewerID ∧ r.liveSessionID = liveSessionID ∧ r.reason = reason).map (·.points)).sum

/-- Activity is submitted only while none of its events is in the outbox and no other process is
at work on it. -/
def NotRepeated (calls : ℕ → Call) (s : State) : Act Choice → Prop
  | .start t => ∀ x ∈ (calls t).submissions, x ∉ s.world.db.submissions ∧
      ∀ u, (s.threads u).running = true → x ∉ (calls u).submissions
  | _ => True

/-- The capped points of every viewer in every session are at most the distinct ids submitted. -/
def EarnedOnce (calls : ℕ → Call) (s : State) : Prop :=
  ∀ viewerID liveSessionID reason, reason ≠ .gift → ∃ ids : List String, ids.Nodup ∧
    (∀ id ∈ ids, ∃ t, s.threads t ≠ .idle ∧
      ⟨reason, viewerID, liveSessionID, id⟩ ∈ (calls t).submissions) ∧
    s.world.db.pointTotal viewerID liveSessionID reason ≤ ids.length

theorem submissions_inserted (d : DB) :
    d.submissions = (d.outboxEvents.map (·.inserted)).filterMap (·.payload.submission?) := by
  rw [List.filterMap_map]
  rfl

theorem Enqueued.submissions {topic key : String} {payloads : List Payload} {d : DB}
    (p : Enqueued topic key payloads d) :
    p.rows.filterMap (·.payload.submission?) = payloads.filterMap Payload.submission? := by
  have hmap := congrArg (List.filterMap Payload.submission?) p.payloads_eq
  rwa [List.filterMap_map] at hmap

/-- What stands in the outbox was submitted once; what is being submitted is not there yet, and
no two processes are at work on the same submission. -/
structure Separate (calls : ℕ → Call) (s : State) : Prop where
  nodup : s.world.db.submissions.Nodup
  pending : ∀ t, (s.threads t).running = true → s.world.store.committedBy t = [] →
    ∀ x ∈ (calls t).submissions, x ∉ s.world.db.submissions
  apart : ∀ t u, t ≠ u → (s.threads t).running = true → (s.threads u).running = true →
    ∀ x ∈ (calls t).submissions, x ∉ (calls u).submissions

section Steps

variable {calls : ℕ → Call} {s : State} {t : ℕ}

theorem running_of_setThread {w : World} {th : Thread Cmd Cmd.Resp Outcome}
    (ht : (s.threads t).running = true ∨ th.running = false) {u : ℕ}
    (hu : ((s.setThread t th w).threads u).running = true) : (s.threads u).running = true := by
  by_cases hut : u = t
  · subst hut
    rw [Pool.setThread_self] at hu
    rcases ht with ht | ht
    · exact ht
    · rw [ht] at hu
      cases hu
  · rwa [Pool.setThread_of_ne hut] at hu

theorem Separate.start {w : World} {th : Thread Cmd Cmd.Resp Outcome} (hp : Separate calls s)
    (hw : s.world = w) (hk : ∀ x ∈ (calls t).submissions, x ∉ s.world.db.submissions ∧
      ∀ u, (s.threads u).running = true → x ∉ (calls u).submissions) :
    Separate calls (s.setThread t th w) := by
  subst hw
  refine ⟨hp.nodup, fun u hu hc x hx => ?_, fun u v huv hu hv x hx hxv => ?_⟩
  · by_cases hut : u = t
    · subst hut
      exact (hk x hx).1
    · rw [Pool.setThread_of_ne hut] at hu
      exact hp.pending u hu hc x hx
  · by_cases hut : u = t
    · subst hut
      rw [Pool.setThread_of_ne (Ne.symm huv)] at hv
      exact (hk x hx).2 v hv hxv
    by_cases hvt : v = t
    · subst hvt
      rw [Pool.setThread_of_ne hut] at hu
      exact (hk x hxv).2 u hu hx
    · rw [Pool.setThread_of_ne hut] at hu
      rw [Pool.setThread_of_ne hvt] at hv
      exact hp.apart u v huv hu hv x hx hxv

theorem Separate.quiet {w : World} {th : Thread Cmd Cmd.Resp Outcome} (hp : Separate calls s)
    (ht : (s.threads t).running = true ∨ th.running = false) (hd : w.db = s.world.db)
    (hb : w.store.binlog = s.world.store.binlog) : Separate calls (s.setThread t th w) := by
  have hrun : ∀ u, ((s.setThread t th w).threads u).running = true → (s.threads u).running = true :=
    fun _ => running_of_setThread ht
  have hc : ∀ u, w.store.committedBy u = s.world.store.committedBy u := fun u => by
    rw [Store.committedBy, hb, Store.committedBy]
  refine ⟨?_, fun u hu hcu x hx => ?_, fun u v huv hu hv =>
    hp.apart u v huv (hrun u hu) (hrun v hv)⟩
  · rw [Pool.setThread_world, hd]
    exact hp.nodup
  · rw [Pool.setThread_world, hd]
    exact hp.pending u (hrun u hu) ((hc u).symm.trans hcu) x hx

end Steps

section General

variable [Platform] {d : DB} {h : History} {c : Call} {ws : List Write}

theorem submissions_applyAll : (applyAll ws d).submissions =
    d.submissions ++ (ws.filterMap Write.outbox?).filterMap (·.payload.submission?) := by
  rw [submissions_inserted, applyAll_inserted, List.filterMap_append, ← submissions_inserted,
    List.filterMap_map]
  rfl

theorem Txn.submissions (ht : Txn d h c ws) :
    (ws.filterMap Write.outbox?).filterMap (·.payload.submission?) = [] ∨
    (ws.filterMap Write.outbox?).filterMap (·.payload.submission?) = c.submissions := by
  cases ht with
  | commented p =>
    rw [p.picks.2.2.2.2.1, p.submissions]
    exact .inr rfl
  | @watched req p =>
    rw [p.picks.2.2.2.2.1, p.submissions, req.payloads_eq, List.filterMap_map]
    refine .inr ?_
    rw [Call.submissions, ← List.filterMap_eq_map]
    rfl
  | recharged p =>
    rw [p.picks.2.2.2.2.1]
    exact .inl rfl
  | rejected p =>
    rw [p.picks.2.2.2.2.1]
    exact .inl rfl
  | accepted p =>
    rw [p.picks.2.2.2.2.1]
    exact .inl rfl
  | closed p =>
    rw [p.picks.2.2.2.2.1]
    exact .inl rfl
  | points p _ hp => exact .inl (by simp [List.filterMap_cons, hp.picks.2.2.2.2.1])
  | _ => exact .inl (by simp)

theorem Emits.submission {r : OutboxRow} (he : Emits d h ws r c) {x : Submission}
    (hx : r.payload.submission? = some x) : x ∈ c.submissions := by
  cases he with
  | commented p _ hr =>
    obtain ⟨-, -, hpayload, -⟩ := p.row hr
    rw [List.mem_singleton.mp hpayload] at hx
    cases hx
    exact List.mem_singleton_self _
  | @watched req p _ hr =>
    obtain ⟨-, -, hpayload, -⟩ := p.row hr
    rw [req.payloads_eq] at hpayload
    obtain ⟨id, hid, hpayload⟩ := List.mem_map.mp hpayload
    rw [← hpayload] at hx
    cases hx
    exact List.mem_map_of_mem hid
  | _ => subst_vars; cases hx

/-- A running process commits the events of its submissions. -/
theorem Separate.commit {calls : ℕ → Call} {s : State} {t : ℕ} {d₀ : DB} {w : World}
    {th : Thread Cmd Cmd.Resp Outcome} (hp : Separate calls s) (ht : (s.threads t).running = true)
    (hc : s.world.store.committedBy t = []) (htx : Txn d₀ h (calls t) ws)
    (hd : w.db = applyAll ws s.world.db) (hb : w.store.binlog = s.world.store.binlog ++ [(t, ws)]) :
    Separate calls (s.setThread t th w) := by
  have hrun : ∀ u, ((s.setThread t th w).threads u).running = true → (s.threads u).running = true :=
    fun _ => running_of_setThread (.inl ht)
  have hsub : ∀ x ∈ (ws.filterMap Write.outbox?).filterMap (·.payload.submission?),
      x ∈ (calls t).submissions := fun x hx => by
    rcases htx.submissions with hn | hn
    · rw [hn] at hx
      cases hx
    · exact hn ▸ hx
  refine ⟨?_, fun u hu hcu x hx => ?_, fun u v huv hu hv =>
    hp.apart u v huv (hrun u hu) (hrun v hv)⟩
  · rw [Pool.setThread_world, hd, submissions_applyAll, List.nodup_append]
    refine ⟨hp.nodup, ?_, ?_⟩
    · rcases htx.submissions with hn | hn
      · rw [hn]
        exact List.nodup_nil
      · rw [hn]
        exact (calls t).submissions_nodup
    · rintro x hx _ hy rfl
      exact hp.pending t ht hc x (hsub x hy) hx
  · rw [Pool.setThread_world, Store.committedBy, hb, List.filterMap_append] at hcu
    obtain ⟨hcu', hother⟩ := List.append_eq_nil_iff.mp hcu
    have hut : u ≠ t := by
      rintro rfl
      simp at hother
    rw [Pool.setThread_world, hd, submissions_applyAll, List.mem_append]
    rintro (hold | hnew)
    · exact hp.pending u (hrun u hu) hcu' x hx hold
    · exact hp.apart u t hut (hrun u hu) ht x hx (hsub x hnew)

variable {calls : ℕ → Call} {w : World} {s : State}

theorem reach_separate (hs : Start w) (hb : w.db.Blank)
    (h : (system calls).Reach (fun s a _ => NotRepeated calls s a) (Pool.fresh w) s) :
    Separate calls s := by
  refine ((Env.any calls w).sound hs (K := fun s a _ => NotRepeated calls s a)
    Env.any_allows).reach_induct (P := Separate calls) hs.inv hs.fresh ?_
    (fun _ hp _ _ hk => hp.start rfl hk) (fun {s t ch c k r w'} hg hp ht _ _ hgu => ?_)
    (fun _ hp _ _ => hp.quiet (.inr rfl) rfl rfl) h
  · have hnone : (Pool.fresh (Env.any calls w).start : State).world.db.submissions = [] := by
      rw [DB.submissions,
        show (Pool.fresh (Env.any calls w).start : State).world.db.outboxEvents = []
        from hb.outboxEvents]
      rfl
    exact ⟨by rw [hnone]; exact List.nodup_nil, nofun, nofun⟩
  · have hrunning : (s.threads t).running = true := by rw [ht]; rfl
    rcases hgu.tables with ⟨hbin, hd⟩ | ⟨ws, hbin, hd, htx, -⟩
    · exact hp.quiet (.inl hrunning) hd hbin
    · refine hp.commit hrunning ?_ htx hd hbin
      rcases hgu.commits with hsame | hnone
      · rw [hsame] at hbin
        simp at hbin
      · exact hnone

theorem Emits.cappedPoint {r : OutboxRow} (he : Emits d h ws r c) {m : Message}
    (hm : r.message = some m) {p : FanPoint} (hp : m.cappedPoint = some p) : p.points = 1 ∧
      ∃ id, r.payload.submission? = some ⟨p.reason, p.viewerID, p.liveSessionID, id⟩ := by
  have ht := message_topic hm
  have hv := message_value hm
  rw [Message.cappedPoint, ht, hv] at hp
  cases he with
  | commented p _ hr =>
    obtain ⟨htopic, -, hpayload, -⟩ := p.row hr
    rw [if_pos htopic, List.mem_singleton.mp hpayload] at hp
    cases hp
    exact ⟨rfl, _, by rw [List.mem_singleton.mp hpayload]; rfl⟩
  | @watched req p _ hr =>
    obtain ⟨htopic, -, hpayload, -⟩ := p.row hr
    rw [req.payloads_eq] at hpayload
    obtain ⟨id, -, hpayload⟩ := List.mem_map.mp hpayload
    rw [htopic, if_neg (by decide), if_pos rfl, ← hpayload] at hp
    cases hp
    exact ⟨rfl, id, by rw [← hpayload]; rfl⟩
  | recharged p _ hr => subst hr; cases hp
  | rejected p _ hr => subst hr; cases hp
  | debited p _ hr => subst hr; cases hp
  | accepted p _ hr => subst hr; cases hp
  | closed p _ hr => subst hr; cases hp

theorem reach_capped_event {K : State → Act Choice → State → Prop} (hs : Start w) (hb : w.db.Blank)
    (h : (system calls).Reach K (Pool.fresh w) s) {p : FanPoint} (hp : p ∈ s.world.db.fanPoints)
    (hr : p.reason ≠ .gift) : p.points = 1 ∧ ∃ r ∈ s.world.db.outboxEvents, r.eventID = p.eventID ∧
      ∃ id, r.payload.submission? = some ⟨p.reason, p.viewerID, p.liveSessionID, id⟩ := by
  obtain ⟨hl, hd⟩ := reach_legal hs h
  have hi := (reach_good (.any calls w) hs Env.any_allows h).1
  rw [hd, mem_dbAt (fun _ _ => applyAll_fanPoints), hb.fanPoints] at hp
  rcases hp with hp | ⟨⟨t, ws⟩, he, hp⟩
  · cases hp
  obtain ⟨h₁, h₂, -, -, ht⟩ := hl.at he
  generalize hc : calls t = c at ht
  cases ht.credits with
  | nothing hnone => simp [hnone] at hp
  | gift _ _ _ _ hfan =>
    rw [hfan, List.mem_singleton] at hp
    exact absurd (hp ▸ rfl) hr
  | @capped m x hrow _ hfan =>
    obtain rfl : p = x := by simpa [hfan] using hp
    obtain ⟨r, hmem, hrm, hid⟩ := hi.row_of_message (reach_handled hs h he (by rw [hc]; rfl))
    obtain ⟨u, vs, h₃, r₀, -, hins, hemit⟩ := hl.emitted hb.outboxEvents (hd ▸ hmem)
    obtain ⟨h1, id, hsub⟩ := hemit.cappedPoint ((message_congr hins).trans hrm) hrow
    refine ⟨h1, r, hmem, hid.symm.trans (cappedPoint_spec hrow).1.symm, id, ?_⟩
    rw [show r.payload = r₀.payload from (congrArg (·.payload) hins).symm]
    exact hsub

/-- As long as no activity is submitted again once it is in the outbox, the points of each viewer in
each session are at most the distinct ids submitted, whatever fails and however often and in
whatever order the events are delivered. -/
theorem submissions_earn_once (calls : ℕ → Call) {w : World} (hs : Start w) (hb : w.db.Blank)
    {s : State} (h : (system calls).Reach (fun s a _ => NotRepeated calls s a) (Pool.fresh w) s) :
    EarnedOnce calls s := by
  intro v l reason hreason
  obtain ⟨hl, hd⟩ := reach_legal hs h
  let kind : Submission → Bool := fun x => x.reason = reason ∧ x.viewerID = v ∧ x.liveSessionID = l
  have hkind : ∀ x, kind x = true → x.reason = reason ∧ x.viewerID = v ∧ x.liveSessionID = l :=
    fun x hx => of_decide_eq_true hx
  let rows := s.world.db.fanPoints.filter fun r =>
    r.viewerID = v ∧ r.liveSessionID = l ∧ r.reason = reason
  have hrows : ∀ p ∈ rows, p.points = 1 ∧ ∃ r ∈ s.world.db.outboxEvents, r.eventID = p.eventID ∧
      (r.payload.submission?.filter kind).isSome = true := by
    intro p hp
    obtain ⟨hmem, hkind⟩ := List.mem_filter.mp hp
    obtain ⟨rfl, rfl, rfl⟩ := of_decide_eq_true hkind
    obtain ⟨h1, r, hr, hid, id, hsub⟩ := reach_capped_event hs hb h hmem hreason
    refine ⟨h1, r, hr, hid, ?_⟩
    rw [hsub, Option.filter_some_pos (by simp [kind])]
    rfl
  refine ⟨(s.world.db.submissions.filter kind).map (·.eventID), ?_, fun id hid => ?_, ?_⟩
  · -- within one kind, submissions with the same id are the same
    refine ((reach_separate hs hb h).nodup.filter _).map_on fun x hx y hy he => ?_
    obtain ⟨hx1, hx2, hx3⟩ := hkind x (List.mem_filter.mp hx).2
    obtain ⟨hy1, hy2, hy3⟩ := hkind y (List.mem_filter.mp hy).2
    exact Submission.ext (hx1.trans hy1.symm) (hx2.trans hy2.symm) (hx3.trans hy3.symm) he
  · obtain ⟨x, hx, rfl⟩ := List.mem_map.mp hid
    obtain ⟨hmem, hx⟩ := List.mem_filter.mp hx
    obtain ⟨hx1, hx2, hx3⟩ := hkind x hx
    obtain ⟨r, hr, hsub⟩ := List.mem_filterMap.mp hmem
    obtain ⟨t, ws, h₁, r₀, he, hins, hemit⟩ := hl.emitted hb.outboxEvents (hd ▸ hr)
    rw [show r.payload = r₀.payload from (congrArg (·.payload) hins).symm] at hsub
    rw [show x = ⟨reason, v, l, x.eventID⟩ from Submission.ext hx1 hx2 hx3 rfl] at hsub
    exact ⟨t, reach_not_idle hs h he, hemit.submission hsub⟩
  · have hids : (rows.map (·.eventID)).Nodup := by
      have hall := (hl.pointIDs hb.fanPoints hb.campaignPoints).1
      rw [← hd] at hall
      exact (List.filter_sublist.map _).nodup hall
    have hsubset : rows.map (·.eventID) ⊆ (s.world.db.outboxEvents.filter fun r =>
        (r.payload.submission?.filter kind).isSome).map (·.eventID) := by
      intro id hid
      obtain ⟨p, hp, rfl⟩ := List.mem_map.mp hid
      obtain ⟨-, r, hr, hid, hsome⟩ := hrows p hp
      exact hid ▸ List.mem_map_of_mem (List.mem_filter.mpr ⟨hr, hsome⟩)
    calc s.world.db.pointTotal v l reason = (rows.map fun _ => 1).sum := by
          rw [DB.pointTotal, List.map_congr_left fun p hp => (hrows p hp).1]
      _ = (rows.map (·.eventID)).length := by simp
      _ ≤ _ := (List.subperm_of_subset hids hsubset).length_le
      _ = _ := by
          rw [List.length_map, List.length_map, ← List.countP_eq_length_filter, DB.submissions,
            List.filter_filterMap, List.length_filterMap_eq_countP]

end General

section Witness

open Plain

def commentsNamed (a b : String) : ℕ → Call
  | 0 => .enqueueComment ⟨a, 2001, 1001, 9001⟩
  | 1 => .enqueueComment ⟨b, 2001, 1001, 9001⟩
  | 2 => .runOnce 100
  | 3 => .points ⟨commentTopic, "9001", .comment ⟨a, 2001, 1001, 9001⟩, [("event_id", "1")]⟩
  | _ => .points ⟨commentTopic, "9001", .comment ⟨b, 2001, 1001, 9001⟩, [("event_id", "2")]⟩

theorem commentsNamed_submissions {a b : String} {t : ℕ} {x : Submission}
    (h : x ∈ (commentsNamed a b t).submissions) :
    (t = 0 ∧ x = ⟨.comment, 2001, 9001, a⟩) ∨ t = 1 ∧ x = ⟨.comment, 2001, 9001, b⟩ := by
  unfold commentsNamed at h
  split at h
  · exact .inl ⟨rfl, List.mem_singleton.mp h⟩
  · exact .inr ⟨rfl, List.mem_singleton.mp h⟩
  · cases h
  · cases h
  · cases h

def commentsInTurn : List (Act Choice) :=
  launch 0 2 4 ++ launch 1 2 4 ++ launch 2 9 5 ++ launch 3 8 6 ++ launch 4 8 6

/-- Two comments with different ids earn two points. -/
theorem submissions_earn_once_two : ∃ s : State,
    s.world.db.pointTotal 2001 9001 .comment = 2 ∧ EarnedOnce (commentsNamed "c1" "c2") s := by
  obtain ⟨s, hr, hp⟩ := Machine.exists_reach (M := system (commentsNamed "c1" "c2"))
    (s := Pool.fresh (World.boot migrated))
    (K := fun s a _ => match a with
      | .start t =>
        (commentsNamed "c1" "c2" t).submissions.all (fun x => x ∉ s.world.db.submissions) &&
          !(s.threads t).running
      | _ => true)
    (p := fun s => decide (s.world.db.pointTotal 2001 9001 .comment = 2)) commentsInTurn
    (by decide +kernel)
  refine ⟨s, of_decide_eq_true hp,
    submissions_earn_once _ (Start.boot rfl rfl rfl rfl) migrated_blank
    (hr.mono fun s a _ hk => ?_)⟩
  cases a with
  | start t =>
    intro x hx
    simp only [Bool.and_eq_true, List.all_eq_true, decide_eq_true_eq, Bool.not_eq_true'] at hk
    refine ⟨hk.1 x hx, fun u hu hxu => ?_⟩
    obtain rfl : u = t := by
      rcases commentsNamed_submissions hx with ⟨rfl, rfl⟩ | ⟨rfl, rfl⟩ <;>
        rcases commentsNamed_submissions hxu with ⟨rfl, hx⟩ | ⟨rfl, hx⟩
      · rfl
      · simp at hx
      · simp at hx
      · rfl
    rw [hk.2] at hu
    cases hu
  | run t ch => trivial
  | crash t => trivial

/-- The same comment, submitted again, earns a second point. -/
theorem retry_earns_again : ∃ s : State,
    (system (commentsNamed "c" "c")).Reach (fun _ _ _ => True)
    (Pool.fresh (World.boot migrated)) s ∧ s.world.db.pointTotal 2001 9001 .comment = 2 ∧
    ¬ EarnedOnce (commentsNamed "c" "c") s := by
  obtain ⟨s, hr, hp⟩ := Machine.exists_reach (M := system (commentsNamed "c" "c"))
    (s := Pool.fresh (World.boot migrated)) (K := fun _ _ _ => true)
    (p := fun s => decide (s.world.db.pointTotal 2001 9001 .comment = 2)) commentsInTurn
    (by decide +kernel)
  have htwo := of_decide_eq_true hp
  refine ⟨s, hr.mono fun _ _ _ _ => trivial, htwo, fun hearned => ?_⟩
  obtain ⟨ids, hnodup, hsub, hle⟩ := hearned 2001 9001 .comment (by decide)
  have hall : ids ⊆ ["c"] := by
    intro id hid
    obtain ⟨t, -, hx⟩ := hsub id hid
    rcases commentsNamed_submissions hx with ⟨-, hx⟩ | ⟨-, hx⟩ <;> cases hx <;>
      exact List.mem_singleton_self _
  have hlen : ids.length ≤ 1 := (List.subperm_of_subset hnodup hall).length_le
  omega

end Witness

end LiveRevenue
