import LiveRevenue.Proof.Outside

/-! # Ingested events

A comment is committed by its one statement. The minutes of a request are committed
together, numbered from 1; a request for 65535 of them never gets to its commit, since
the counter passes that value only by wrapping.
-/

namespace LiveRevenue

open Transact

theorem Enqueued.plain {topic key : String} {payloads : List Payload} {d : DB}
    (p : Enqueued topic key payloads d) : ∀ x ∈ p.writes, x.backed = false := by
  intro x hx
  obtain ⟨r, -, rfl⟩ := List.mem_map.mp hx
  rfl

variable [Platform] {𝓔 : Env} {t : ℕ} {w : World}

section Comment

variable {req : InternalCommentRequest}

def CommentPost (t : ℕ) (req : InternalCommentRequest) (r : Option AppError) (w : World) : Prop :=
  match r with
  | none => ∃ d, ∃ p : Enqueued commentTopic (toString req.liveSessionID) [req.payload] d,
      w.store.committedBy t = [p.writes]
  | some e => w.store.committedBy t = [] ∨ e.code = "INTERNAL_ERROR"

theorem Inv.commented {u : World} (hi : Inv 𝓔 u) (hc : 𝓔.calls t = .enqueueComment req)
    (p : Enqueued commentTopic (toString req.liveSessionID) [req.payload] u.db) :
    Txn 𝓔.start.db u.store.binlog (𝓔.calls t) p.writes := by
  rw [hc]
  exact hi.txn (P := Enqueued commentTopic (toString req.liveSessionID) [req.payload])
    (W := fun _ p => p.writes) .commented p

theorem execAuto_insertOutbox {topic key : String} {payload : Payload} {n : ℕ} {rank : ℕ → ℕ}
    {r : Except SqlErr Unit} {w' : World}
    (h : w.execAuto t (.insertOutbox topic key payload n) rank = some (r, w')) :
    (∃ e, r = .error e ∧ w' = w) ∨
    r = .ok () ∧ w' = { w with
      store := w.store.autocommit t [.outbox ⟨w.ids.event, topic, key, payload, none, n⟩]
      ids := { w.ids with event := w.ids.event + 1 } } := by
  unfold World.execAuto at h
  by_cases hid : 2 ^ 64 ≤ w.ids.event
  · simp only [Stmt.run, if_pos hid] at h
    simp at h
    exact .inl ⟨_, h.1.symm, h.2.symm⟩
  · simp only [Stmt.run, if_neg hid] at h
    split at h
    · cases h
    · rw [if_neg (by simp)] at h
      cases h
      exact .inr ⟨rfl, rfl⟩

theorem runs_insertComment {n : ℕ} (hc : 𝓔.calls t = .enqueueComment req)
    (hfresh : w.store.committedBy t = []) :
    Runs 𝓔.logic t (dbDo internalError (.insertOutbox commentTopic (toString req.liveSessionID)
      req.payload n)) (fun _ => CommentPost t req none) (CommentPost t req) w := by
  have hdead : ∀ v, Dead 𝓔 t v := fun v => by
    unfold Dead
    rw [hc]
    trivial
  refine Runs.bind fun u hu hi => ⟨fun _ => hdead u, ?_⟩
  let row : OutboxRow :=
    ⟨u.ids.event, commentTopic, toString req.liveSessionID, req.payload, none, n⟩
  let p : Enqueued commentTopic (toString req.liveSessionID) [req.payload] u.db :=
    ⟨[row], rfl, by simpa [row] using hi.engine.below.newEvent, List.nodup_singleton _⟩
  have hguar : Guar 𝓔 t u { u with
      store := u.store.autocommit t [.outbox row]
      ids := { u.ids with event := u.ids.event + 1 } } :=
    ⟨.inr ⟨p.writes, rfl, rfl, hi.commented hc p, .plain (by rw [hc]; rfl) p.plain⟩, .inl rfl,
      .inl rfl, .inl rfl, .inr fun _ h => .inl h, fun _ h h' => absurd h' h,
      .inr (hu.store.committed.trans hfresh)⟩
  have hthrow : ∀ {e v}, Runs 𝓔.logic t (orReturn internalError (.error e : Except SqlErr Unit))
      (fun _ => CommentPost t req none) (CommentPost t req) v :=
    Runs.throw fun _ _ _ => .inr rfl
  rintro r u' ⟨ch, _, hex, -⟩
  cases ch with
  | ok m rank =>
    rcases execAuto_insertOutbox hex with ⟨e, rfl, rfl⟩ | ⟨rfl, rfl⟩
    · exact ⟨.silent rfl rfl rfl rfl rfl (fun _ h => h) id, fun v _ _ => hthrow⟩
    · refine ⟨hguar, fun v hv _ => Runs.pure fun x hx _ => ⟨u.db, p, ?_⟩⟩
      refine (hv.trans hx).store.committed.trans ((Store.committedBy_append_self _ _ _).trans ?_)
      rw [hu.store.committed, hfresh]
      rfl
  | fault applied =>
    simp only [World.exec] at hex
    split at hex
    · obtain ⟨⟨r', v'⟩, hx, he⟩ := Option.map_eq_some_iff.mp hex
      cases he
      rcases execAuto_insertOutbox hx with ⟨e, -, rfl⟩ | ⟨-, rfl⟩
      · exact ⟨.silent rfl rfl rfl rfl rfl (fun _ h => h) id, fun v _ _ => hthrow⟩
      · exact ⟨hguar, fun v _ _ => hthrow⟩
    · cases hex
      exact ⟨.silent rfl rfl rfl rfl rfl (fun _ h => h) id, fun v _ _ => hthrow⟩

theorem safe_enqueueCommentEvent (hc : 𝓔.calls t = .enqueueComment req)
    (hfresh : w.store.committedBy t = []) :
    Safe 𝓔.logic t (CommentPost t req) (enqueueCommentEvent req) w := by
  unfold enqueueCommentEvent
  split
  · exact fun v hv _ => .inl (hv.store.committed.trans hfresh)
  refine Runs.toSafe (Runs.bind (runs_clock (fun v hv _ => ?_) fun n v hv _ => ?_))
  · exact dead_of_fresh (hv.store.committed.trans hfresh)
  · refine Runs.bind (Runs.mono (Runs.keep (runs_insertComment hc ?_)) ?_ ?_)
    · exact hv.store.committed.trans hfresh
    · exact fun _ x _ hx => Runs.pure fun y hy hi => hx y hy hi
    · exact fun e x hi hx => hx x (.refl 𝓔 t x) hi

end Comment

section Watch

variable {req : InternalWatchMinutesRequest}

def InternalWatchMinutesRequest.Valid (req : InternalWatchMinutesRequest) : Prop :=
  ¬ isBlank req.eventID ∧ req.viewerID ≠ 0 ∧ req.creatorID ≠ 0 ∧ req.liveSessionID ≠ 0 ∧
    req.minutes ≠ 0

/-- A command of process `t` may fail, or find that the event ids are used up. -/
def Env.Hitch (𝓔 : Env) (t : ℕ) : Prop :=
  (∃ c applied w, 𝓔.permit t c (.fault applied) w) ∨
    ∃ c n rank w, 𝓔.permit t c (.ok n rank) w ∧ 2 ^ 64 ≤ w.ids.event

/-- Minutes that are accepted have their events, one each; otherwise nothing is written, and
the request is not valid, its counter wraps around or a command failed. -/
def WatchPost (𝓔 : Env) (t : ℕ) (req : InternalWatchMinutesRequest) (r : Except AppError ℕ)
    (w : World) : Prop :=
  match r with
  | .ok n => n = req.minutes.toNat ∧ req.minutes.toNat < 65535 ∧ ∃ d,
      ∃ p : Enqueued watchMinuteTopic (toString req.liveSessionID) req.payloads d,
        w.store.committedBy t = [p.writes]
  | .error e => (w.store.committedBy t = [] ∨ e.code = "INTERNAL_ERROR" ∧ 𝓔.Losing t) ∧
      (req.Valid → req.minutes.toNat < 65535 → 𝓔.Hitch t)

theorem hitch_insertOutbox {topic key : String} {payload : Payload} {n : ℕ} {ws : List Write}
    {e : SqlErr} (h : Fails 𝓔 t ws (.insertOutbox topic key payload n) w e) : 𝓔.Hitch t := by
  cases h with
  | fault hp => exact .inl ⟨_, _, _, hp⟩
  | error hp he => exact .inr ⟨_, _, _, _, hp, run_insertOutbox_error he⟩

theorem Inv.watched {u : World} (hi : Inv 𝓔 u) (hc : 𝓔.calls t = .enqueueWatchMinutes req)
    (p : Enqueued watchMinuteTopic (toString req.liveSessionID) req.payloads u.db) :
    Txn 𝓔.start.db u.store.binlog (𝓔.calls t) p.writes := by
  rw [hc]
  exact hi.txn (P := Enqueued watchMinuteTopic (toString req.liveSessionID) req.payloads)
    (W := fun _ p => p.writes) .watched p

structure Buffered (t : ℕ) (req : InternalWatchMinutesRequest) (k : ℕ) (rows : List OutboxRow)
    (pins : List (Lock × DB)) (w : World) : Prop where
  own : Own t (rows.map .outbox) pins w
  rows_eq : rows.map (fun r => (r.topic, r.eventKey, r.payload, r.publishedAt)) =
    ((List.range k).map fun i => req.payload (.ofNat (i + 1))).map fun p =>
      (watchMinuteTopic, toString req.liveSessionID, p, none)
  newEvents : ∀ r ∈ rows, ∃ d : DB, d.NewEvent r.eventID ∧ (.outbox r.eventID, d) ∈ pins
  nodup : (rows.map (·.eventID)).Nodup

theorem Buffered.snoc {k id n : ℕ} {rows : List OutboxRow} {pins : List (Lock × DB)} {d : DB}
    {v : World} (h : Buffered t req k rows pins w) {i : UInt16} (hi : i = .ofNat (k + 1))
    (hnew : d.NewEvent id) (hne : ∀ r, .outbox r ∈ rows.map Write.outbox → r.eventID ≠ id)
    (hv : Own t (rows.map .outbox ++ [Write.outbox ⟨id, watchMinuteTopic,
      toString req.liveSessionID, req.payload i, none, n⟩]) (pins ++ [(Lock.outbox id, d)]) v) :
    Buffered t req (k + 1) (rows ++ [⟨id, watchMinuteTopic, toString req.liveSessionID,
      req.payload i, none, n⟩]) (pins ++ [(.outbox id, d)]) v := by
  refine ⟨by simpa using hv, ?_, fun r hr => ?_, ?_⟩
  · rw [List.map_append, h.rows_eq, List.range_succ, List.map_append, List.map_append, hi]
    rfl
  · rcases List.mem_append.mp hr with hr | hr
    · obtain ⟨d', hd', hp⟩ := h.newEvents r hr
      exact ⟨d', hd', List.mem_append_left _ hp⟩
    · rw [List.mem_singleton.mp hr]
      exact ⟨d, hnew, List.mem_append_right _ (List.mem_singleton_self _)⟩
  · rw [List.map_append]
    refine List.nodup_append.mpr ⟨h.nodup, List.nodup_singleton _, ?_⟩
    rintro a ha b hb rfl
    obtain ⟨r, hr, rfl⟩ := List.mem_map.mp ha
    exact hne r (List.mem_map_of_mem hr) (List.mem_singleton.mp hb)

/-- The loop, below the largest counter value and with rounds enough. -/
theorem runs_watchMinutes (hm : req.minutes.toNat < 65535) {rounds k : ℕ} {i : UInt16}
    (hi : i = .ofNat (k + 1)) (hk : k ≤ req.minutes.toNat)
    (hrounds : req.minutes.toNat < rounds + k) {rows : List OutboxRow} {pins : List (Lock × DB)}
    (hb : Buffered t req k rows pins w) :
    Runs 𝓔.logic t (watchMinutes req rounds i)
      (fun _ v => ∃ rows pins, Buffered t req req.minutes.toNat rows pins v)
      (WatchPost 𝓔 t req) w := by
  have hto : i.toNat = k + 1 := by
    rw [hi, UInt16.toNat_ofNat_of_lt' (by simp [UInt16.size]; omega)]
  induction rounds generalizing w k i rows pins with
  | zero => omega
  | succ rounds ih =>
    unfold watchMinutes
    split
    · next hle =>
      rw [UInt16.le_iff_toNat_le] at hle
      refine Runs.bind (runs_now hb.own fun n v hv => ?_)
      have hb : Buffered t req k rows pins v := ⟨hv.own, hb.rows_eq, hb.newEvents, hb.nodup⟩
      refine Runs.bind (runs_insertOutbox hb.own
        (fun _ _ _ _ hf hv => ⟨.inl hv.own.committed, fun _ _ => hitch_insertOutbox hf⟩)
        fun id d v hnew hne hv => ?_)
      have hi' : i + 1 = .ofNat (k + 1 + 1) := by rw [hi, UInt16.ofNat_add (k + 1) 1]; rfl
      refine ih hi' (by omega) (by omega) (hb.snoc hi hnew hne hv.own) ?_
      rw [hi', UInt16.toNat_ofNat_of_lt' (by simp [UInt16.size]; omega)]
    · next hle =>
      rw [UInt16.le_iff_toNat_le] at hle
      obtain rfl : k = req.minutes.toNat := by omega
      exact Runs.pure fun v hv _ =>
        ⟨rows, pins, hb.own.rely hv, hb.rows_eq, hb.newEvents, hb.nodup⟩

theorem runs_watchMinutes_wraps (hm : req.minutes.toNat = 65535) {rounds : ℕ} {i : UInt16}
    {ws : List Write} {pins : List (Lock × DB)} (own : Own t ws pins w) :
    Runs 𝓔.logic t (watchMinutes req rounds i) (fun _ _ => False) (WatchPost 𝓔 t req) w := by
  have herr : ∀ {e v}, v.store.committedBy t = [] → WatchPost 𝓔 t req (.error e) v :=
    fun h => ⟨.inl h, fun _ hlt => by omega⟩
  induction rounds generalizing w i ws pins with
  | zero => exact Runs.throw fun v hv _ => herr (own.rely hv).committed
  | succ rounds ih =>
    have hle : i ≤ req.minutes := by
      rw [UInt16.le_iff_toNat_le, hm]
      have := i.toNat_lt
      omega
    rw [watchMinutes, if_pos hle]
    refine Runs.bind (runs_now own fun n v hv => ?_)
    refine Runs.bind (runs_insertOutbox hv.own (fun _ _ _ _ _ hv => herr hv.own.committed)
      fun id d v _ _ hv => ?_)
    exact ih hv.own

theorem safe_enqueueWatchMinuteEvents (hc : 𝓔.calls t = .enqueueWatchMinutes req)
    (hfresh : w.store.committedBy t = [] ∧ w.aofBy t = []) :
    Safe 𝓔.logic t (WatchPost 𝓔 t req) (enqueueWatchMinuteEvents req) w := by
  unfold enqueueWatchMinuteEvents
  split
  · next hn =>
    refine fun v hv _ => ⟨.inl (hv.store.committed.trans hfresh.1), fun hvalid => ?_⟩
    obtain ⟨h1, h2, h3, h4, h5⟩ := hvalid
    simp [h1, h2, h3, h4, h5] at hn
  refine safe_withTx hfresh (fun _ _ _ hp _ _ hcv _ => ⟨.inl hcv, fun _ _ => .inl ⟨_, _, _, hp⟩⟩)
    (fun v hv => ?_) (fun r v _ _ => ?_) (by rw [hc]; nofun) fun r v v' _ hl hcv h => ?_
  · have hlt : req.minutes.toNat < 2 ^ 16 := req.minutes.toNat_lt
    by_cases hm : req.minutes.toNat = 65535
    · exact Runs.seq (runs_watchMinutes_wraps hm hv.own) fun _ _ _ h => h.elim
    have hnone : Buffered t req 0 [] [] v := ⟨hv.own, rfl, by simp, List.nodup_nil⟩
    refine Runs.seq (runs_watchMinutes (by omega) rfl (Nat.zero_le _) (by omega) hnone)
      fun _ x _ hb => ?_
    obtain ⟨rows, pins, hb⟩ := hb
    refine runs_commit_return hb.own
      (fun _ _ _ _ _ hp _ _ _ hd =>
        ⟨(hd.unless_lost hp).imp_right fun hl => ⟨rfl, hl⟩, fun _ _ => .inl ⟨_, _, _, hp⟩⟩)
      fun y hy => ?_
    let p : Enqueued watchMinuteTopic (toString req.liveSessionID) req.payloads y.db :=
      ⟨rows, hb.rows_eq, fun r hr => ?_, hb.nodup⟩
    · exact ⟨p.writes, rfl, hy.inv.watched hc p, .plain (by rw [hc]; rfl) p.plain,
        fun z _ _ _ hd => ⟨rfl, by omega, y.db, p, hd.committed⟩⟩
    · obtain ⟨d, hd, hp⟩ := hb.newEvents r hr
      exact hy.own.newEvent hp hd
  · unfold Dead
    rw [hc]
    trivial
  · cases r with
    | error e => exact ⟨h.1.imp_left hcv.trans, h.2⟩
    | ok n =>
      obtain ⟨hn, hlt, d, p, hp⟩ := h
      exact ⟨hn, hlt, d, p, hcv.trans hp⟩

end Watch

end LiveRevenue
