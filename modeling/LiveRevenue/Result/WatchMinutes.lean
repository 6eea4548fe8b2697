import LiveRevenue.Proof.Solo
import LiveRevenue.Schema.Seed

/-! # One event per watched minute

The loop of `EnqueueWatchMinuteEvents` counts in a `uint16` up to a bound of the same type.
Below the largest bound it takes two commands a minute and commits one event for each; at
the largest bound the counter wraps around and the commit is never reached.
-/

namespace LiveRevenue

open Transact

variable {req : InternalWatchMinutesRequest}

section Loop

theorem run_watchMinutes_succ {rounds : ℕ} {i : UInt16} (h : i ≤ req.minutes) :
    ExceptT.run (watchMinutes req (rounds + 1) i) = .op .now fun createdAt =>
      .op (.sql (.insertOutbox watchMinuteTopic (toString req.liveSessionID) (req.payload i)
        createdAt)) fun
        | .ok _ => ExceptT.run (watchMinutes req rounds (i + 1))
        | .error e => .ret (.error (retInternal e)) := by
  rw [watchMinutes, if_pos h]
  refine congrArg (Prog.op Cmd.now) (funext fun createdAt => ?_)
  refine congrArg (Prog.op (Cmd.sql _)) (funext fun r => ?_)
  cases r <;> rfl

theorem run_watchMinutes_of_lt {rounds : ℕ} {i : UInt16} (h : ¬ i ≤ req.minutes) :
    ExceptT.run (watchMinutes req (rounds + 1) i) = .ret (.ok ()) := by
  rw [watchMinutes, if_neg h]
  rfl

/-- Below the largest bound the loop takes two commands for each minute that is left. -/
theorem within_watchMinutes (hm : req.minutes.toNat < 65535) {rounds : ℕ} {i : UInt16}
    (hi : i.toNat ≤ req.minutes.toNat + 1) :
    (ExceptT.run (watchMinutes req rounds i)).Within (2 * (req.minutes.toNat + 1 - i.toNat)) := by
  induction rounds generalizing i with
  | zero => trivial
  | succ rounds ih =>
    by_cases hle : i ≤ req.minutes
    · rw [run_watchMinutes_succ hle]
      rw [UInt16.le_iff_toNat_le] at hle
      have hnext : (i + 1).toNat = i.toNat + 1 := by
        rw [UInt16.toNat_add]
        exact Nat.mod_eq_of_lt (by simp; omega)
      have hih := ih (i := i + 1) (by omega)
      rw [hnext] at hih
      obtain ⟨n, hn⟩ : ∃ n, req.minutes.toNat + 1 - i.toNat = n + 1 :=
        ⟨req.minutes.toNat - i.toNat, by omega⟩
      rw [hn]
      rw [show req.minutes.toNat + 1 - (i.toNat + 1) = n by omega] at hih
      intro createdAt r
      cases r with
      | ok _ => exact hih
      | error e => trivial
    · rw [run_watchMinutes_of_lt hle]
      trivial

/-- At the largest bound the loop goes on for as many rounds as there are. -/
theorem le_of_within_watchMinutes (hm : req.minutes.toNat = 65535) {rounds n : ℕ} {i : UInt16}
    (h : (ExceptT.run (watchMinutes req rounds i)).Within n) : rounds ≤ n := by
  induction rounds generalizing i n with
  | zero => exact Nat.zero_le n
  | succ rounds ih =>
    have hle : i ≤ req.minutes := by
      rw [UInt16.le_iff_toNat_le, hm]
      have := i.toNat_lt
      omega
    rw [run_watchMinutes_succ hle] at h
    cases n with
    | zero => cases h
    | succ n =>
      cases n with
      | zero => cases h 0
      | succ n =>
        have := ih (h 0 (.ok ()))
        omega

end Loop

section Program

theorem within_enqueueWatchMinuteEvents (hm : req.minutes.toNat < 65535) :
    (enqueueWatchMinuteEvents req).Within (2 * req.minutes.toNat + 3) := by
  unfold enqueueWatchMinuteEvents
  split
  · trivial
  rintro (e | _)
  · trivial
  have hloop : (ExceptT.run (watchMinutes req (2 ^ 64) 1)).Within
      (2 * (req.minutes.toNat + 1 - (1 : UInt16).toNat)) := within_watchMinutes hm (by simp)
  rw [show req.minutes.toNat + 1 - (1 : UInt16).toNat = req.minutes.toNat from rfl] at hloop
  refine Prog.Within.bind (n := 1)
    (Prog.Within.bind (n := 0) (Prog.Within.bind (n := 1) hloop ?_) ?_) ?_
  · rintro (e | _)
    · trivial
    · rintro (e | _) <;> trivial
  · rintro (e | a) <;> trivial
  · exact fun _ _ => trivial

theorem le_of_within_enqueueWatchMinuteEvents (hv : req.Valid)
    (hm : req.minutes.toNat = 65535) {n : ℕ} (h : (enqueueWatchMinuteEvents req).Within n) :
    2 ^ 64 < n := by
  obtain ⟨h1, h2, h3, h4, h5⟩ := hv
  rw [enqueueWatchMinuteEvents, if_neg (by simp [h1, h2, h3, h4, h5])] at h
  cases n with
  | zero => cases h
  | succ n =>
    have hloop : (ExceptT.run (watchMinutes req (2 ^ 64) 1)).Within n :=
      (h (.ok ())).of_bind.of_bind.of_bind
    exact Nat.lt_succ_of_le (le_of_within_watchMinutes hm hloop)

/-- What every command of an ingest of minutes is like: the only statements insert events, one
that fails is followed by the rollback and the return of its error, and the `COMMIT` is followed by
the deferred rollback and the return. -/
def WatchStep : (c : Cmd) → (c.Resp → Go Outcome) → Prop
  | .sql s, k => (∃ topic key payload at_, s = .insertOutbox topic key payload at_) ∧
      ∀ e, k (.error e) = .op .rollback fun _ => .ret (.watched (retInternal e))
  | .begin, _ => True
  | .commit, k => ∀ r, ∃ o, k r = .op .rollback fun _ => .ret o
  | .rollback, _ => True
  | .now, _ => True
  | _, _ => False

theorem all_watchMinutes {g : Except (Except AppError ℕ) Unit → Go Outcome}
    (hok : (g (.ok ())).All WatchStep)
    (herr : ∀ e, g (.error (retInternal e)) =
      .op .rollback fun _ => .ret (.watched (retInternal e)))
    {rounds : ℕ} {i : UInt16} :
    ((ExceptT.run (watchMinutes req rounds i)).bind g).All WatchStep := by
  have hfail : ∀ e, (g (.error (retInternal e))).All WatchStep := fun e => by
    rw [herr e]
    exact ⟨trivial, fun _ => trivial⟩
  induction rounds generalizing i with
  | zero => exact hfail .autoIncrement
  | succ rounds ih =>
    by_cases hle : i ≤ req.minutes
    · rw [run_watchMinutes_succ hle]
      refine ⟨trivial, fun createdAt => ⟨⟨⟨_, _, _, _, rfl⟩, herr⟩, fun r => ?_⟩⟩
      cases r with
      | ok _ => exact ih
      | error e => exact hfail e
    · rw [run_watchMinutes_of_lt hle]
      exact hok

theorem all_watch [Platform] (req : InternalWatchMinutesRequest) :
    (Call.enqueueWatchMinutes req).program.All WatchStep := by
  change Prog.All WatchStep ((enqueueWatchMinuteEvents req).bind _)
  unfold enqueueWatchMinuteEvents
  split
  · trivial
  refine ⟨trivial, ?_⟩
  rintro (e | _)
  · trivial
  change Prog.All WatchStep
    (((((ExceptT.run (watchMinutes req (2 ^ 64) 1)).bind _).bind _).bind _).bind _)
  rw [Prog.bind_bind, Prog.bind_bind, Prog.bind_bind]
  refine all_watchMinutes ?_ fun e => rfl
  constructor
  · rintro (e | _) <;> exact ⟨_, rfl⟩
  · rintro (e | _) <;> exact ⟨trivial, fun _ => trivial⟩

def Ended (p : Go Outcome) : Prop := ∃ o, p = .op .rollback (fun _ => .ret o) ∨ p = .ret o

theorem Ended.next {c : Cmd} {k : c.Resp → Go Outcome} (h : Ended (.op c k)) (r : c.Resp) :
    Ended (k r) := by
  obtain ⟨o, h | h⟩ := h
  · cases h
    exact ⟨o, .inr rfl⟩
  · cases h

end Program

def InternalWatchMinutesRequest.minuteIDs (req : InternalWatchMinutesRequest) : List String :=
  (List.range req.minutes.toNat).map fun i => req.eventID ++ "-" ++ toString (i + 1)

theorem InternalWatchMinutesRequest.minuteIDs_nodup (req : InternalWatchMinutesRequest) :
    req.minuteIDs.Nodup := by
  refine List.Nodup.map (fun i j h => ?_) List.nodup_range
  have hij := decimal_inj.mp ((String.append_right_inj _).mp h)
  omega

theorem InternalWatchMinutesRequest.payloads_eq (req : InternalWatchMinutesRequest) :
    req.payloads = req.minuteIDs.map
      (fun id => .watchMinute ⟨id, req.viewerID, req.creatorID, req.liveSessionID⟩) := by
  rw [InternalWatchMinutesRequest.minuteIDs, InternalWatchMinutesRequest.payloads, List.map_map]
  refine List.map_congr_left fun i hi => ?_
  have hlt := List.mem_range.mp hi
  have hmax : req.minutes.toNat < 2 ^ 16 := req.minutes.toNat_lt
  simp only [Function.comp_apply, InternalWatchMinutesRequest.payload]
  rw [UInt16.toNat_ofNat_of_lt' (by simp [UInt16.size]; omega)]

def World.HasWatched (t : ℕ) (req : InternalWatchMinutesRequest) (w : World) : Prop :=
  ∃ rows : List OutboxRow, w.store.committedBy t = [rows.map .outbox] ∧
    rows.map (·.payload) = req.minuteIDs.map
      (fun id => .watchMinute ⟨id, req.viewerID, req.creatorID, req.liveSessionID⟩) ∧
    req.minuteIDs.Nodup ∧
    ∀ r ∈ rows, r.topic = watchMinuteTopic ∧ ∃ r' ∈ w.db.outboxEvents, r'.inserted = r

/-- No command of process `t` fails, it does not die, and event ids are left. -/
def Smooth (t : ℕ) (s : State) (a : Act Choice) (_ : State) : Prop :=
  failing? a ≠ some t ∧ s.world.ids.event < 2 ^ 64

def Env.smooth (calls : ℕ → Call) (w : World) (t : ℕ) : Env where
  calls := calls
  start := w
  permit u _ ch v := failing? (.run u ch) ≠ some t ∧ v.ids.event < 2 ^ 64
  crash _ _ _ := True
  bars _ _ := False

theorem Env.smooth_allows {calls : ℕ → Call} {w : World} {t : ℕ} (s : State) (a : Act Choice)
    (s' : State) (h : Smooth t s a s') : (Env.smooth calls w t).Allows s a s' := by
  cases a with
  | start u => trivial
  | run u ch => exact ⟨fun _ _ => h, fun _ _ _ _ _ hb => hb⟩
  | crash u => exact fun _ _ => trivial

theorem Env.smooth_not_hitch {calls : ℕ → Call} {w : World} {t : ℕ} :
    ¬ (Env.smooth calls w t).Hitch t := by
  rintro (⟨c, applied, v, hp⟩ | ⟨c, n, rank, v, hp, hid⟩)
  · exact hp.1 rfl
  · exact absurd hp.2 (Nat.not_lt.mpr hid)

section General

variable [Platform]

/-- What is asked of an ingest of minutes by process `t`, whatever the others do. -/
structure WatchesExactly (calls : ℕ → Call) (w : World) (t : ℕ)
    (req : InternalWatchMinutesRequest) : Prop where
  /-- It ends after so many commands, -/
  ends : (enqueueWatchMinuteEvents req).Within (2 * req.minutes.toNat + 3)
  /-- never waits, -/
  runs : ∀ {s : State}, (system calls).Reach (fun _ _ _ => True) (Pool.fresh w) s → ∀ c,
    (s.threads t).next? = some c → ∃ ch, Choice.Ok ch ∧ (World.exec t c ch s.world).isSome
  /-- returns the number of minutes and has then committed their events, -/
  returns : ∀ {s : State}, (system calls).Reach (Smooth t) (Pool.fresh w) s → ∀ o,
    (s.threads t).result? = some o →
    o = .watched (.ok req.minutes.toNat) ∧ s.world.HasWatched t req
  /-- and if a statement fails it returns the error and has committed nothing. -/
  fails : ∀ {s : State} {stmt : Stmt} {k : Cmd.Resp (.sql stmt) → Go Outcome} {ch : Choice}
    {e : SqlErr} {w' : World}, (system calls).Reach (fun _ _ _ => True) (Pool.fresh w) s →
    s.threads t = .live (.op (.sql stmt) k) →
    World.exec t (.sql stmt) ch s.world = some (.error e, w') → ∀ {s' : State},
    (system calls).Reach (fun _ _ _ => True) (s.setThread t (.live (k (.error e))) w') s' → ∀ o,
    (s'.threads t).result? = some o →
    o = .watched (retInternal e) ∧ s'.world.store.committedBy t = []

variable {calls : ℕ → Call} {w : World} {t : ℕ} {s s' : State}

theorem Engine.insertOutbox_enabled (he : Engine w) {topic key : String}
    {payload : Payload} {n : ℕ} :
    (World.exec t (.sql (.insertOutbox topic key payload n)) (.ok 0 id) w).isSome := by
  have hfree : w.store.busy t (.outbox w.ids.event) = false := by
    rw [Store.not_busy_iff]
    intro u hu
    exact absurd (he.held _ u hu) (lt_irrefl _)
  simp only [World.exec, World.execSql]
  split
  · rfl
  · simp only [Stmt.run]
    split
    · rfl
    · rw [if_neg (by simp [Write.locks, hfree])]
      rfl

theorem WatchStep.enabled (he : Engine w) {c : Cmd} {k : c.Resp → Go Outcome} (h : WatchStep c k) :
    ∃ ch, Choice.Ok ch ∧ (World.exec t c ch w).isSome := by
  refine ⟨.ok 0 id, trivial, ?_⟩
  cases c with
  | sql s =>
    obtain ⟨⟨topic, key, payload, n, rfl⟩, -⟩ := h
    exact he.insertOutbox_enabled
  | commit =>
    simp only [World.exec]
    split <;> rfl
  | begin => rfl
  | rollback => rfl
  | now => rfl
  | _ => cases h

theorem reach_watchPost (𝓔 : Env) {K : State → Act Choice → State → Prop} (hs : Start 𝓔.start)
    (hK : ∀ s a s', K s a s' → 𝓔.Allows s a s')
    (h : (system 𝓔.calls).Reach K (Pool.fresh 𝓔.start) s)
    (hc : 𝓔.calls t = .enqueueWatchMinutes req) {r : Except AppError ℕ}
    (ho : (s.threads t).result? = some (.watched r)) :
    WatchPost 𝓔 t req r s.world := by
  have hfin := (reach_good 𝓔 hs hK h).result ho
  rw [hc] at hfin
  cases hfin with
  | watched hp => exact hp

theorem reach_enqueued (hs : Start w) {K : State → Act Choice → State → Prop}
    (h : (system calls).Reach K (Pool.fresh w) s) {topic key : String}
    {payloads : List Payload} {d : DB} (p : Enqueued topic key payloads d)
    (hp : s.world.store.committedBy t = [p.writes]) :
    ∀ r ∈ p.rows, r.topic = topic ∧ ∃ r' ∈ s.world.db.outboxEvents, r'.inserted = r := by
  obtain ⟨hl, hd⟩ := reach_legal hs h
  intro r hr
  obtain ⟨htopic, -, -, hpub⟩ := p.row hr
  refine ⟨htopic, ?_⟩
  have hmem : (t, p.writes) ∈ s.world.store.binlog :=
    Store.mem_committedBy.mp (hp ▸ List.mem_singleton_self _)
  obtain ⟨h₁, h₂, hb, -, -⟩ := hl.at hmem
  have hprefix : h₁ ++ [(t, p.writes)] <+: s.world.store.binlog := ⟨h₂, by rw [hb]; simp⟩
  have hins : r.inserted ∈ s.world.db.outboxEvents.map (·.inserted) := by
    rw [hd]
    refine (dbAt_inserted hprefix).subset ?_
    rw [dbAt_snoc, applyAll_inserted]
    refine List.mem_append_right _ (List.mem_map_of_mem ?_)
    exact List.mem_filterMap.mpr ⟨.outbox r, List.mem_map_of_mem hr, rfl⟩
  obtain ⟨r', hr', hi⟩ := List.mem_map.mp hins
  refine ⟨r', hr', hi.trans ?_⟩
  rw [OutboxRow.inserted, ← hpub]

theorem reach_hasWatched (hs : Start w) {K : State → Act Choice → State → Prop}
    (h : (system calls).Reach K (Pool.fresh w) s) {d : DB}
    (p : Enqueued watchMinuteTopic (toString req.liveSessionID) req.payloads d)
    (hp : s.world.store.committedBy t = [p.writes]) : s.world.HasWatched t req :=
  ⟨p.rows, hp, p.payloads_eq.trans req.payloads_eq, req.minuteIDs_nodup, reach_enqueued hs h p hp⟩

section Call

variable (hc : calls t = .enqueueWatchMinutes req)
include hc

theorem reach_watch_steps {K : State → Act Choice → State → Prop}
    (h : (system calls).Reach K (Pool.fresh w) s) {p : Go Outcome} (hp : s.threads t = .live p) :
    p.All WatchStep := by
  refine h.suspended (I := fun p => p.All WatchStep) (fun _ _ r hI => hI.2 r)
    nofun (fun _ => ?_) p hp
  change Prog.All WatchStep (calls t).program
  rw [hc]
  exact all_watch req

theorem reach_watch_enabled (hs : Start w) {K : State → Act Choice → State → Prop}
    (h : (system calls).Reach K (Pool.fresh w) s) {c : Cmd} (hn : (s.threads t).next? = some c) :
    ∃ ch, Choice.Ok ch ∧ (World.exec t c ch s.world).isSome := by
  have hi := (reach_good (.any calls w) hs Env.any_allows h).1
  obtain ⟨k, hk⟩ := Thread.live_of_next hn
  exact (reach_watch_steps hc h hk).1.enabled hi.engine

omit hc in
theorem reach_ended {K : State → Act Choice → State → Prop} (h : (system calls).Reach K s s')
    {p : Go Outcome} (ht : s.threads t = .live p) (hp : Ended p) :
    ∀ q, s'.threads t = .live q → Ended q := by
  refine h.suspended (fun _ _ r hI => hI.next r) (fun q hq => ?_) fun hidle => ?_
  · rw [ht] at hq
    cases hq
    exact hp
  · rw [ht] at hidle
    cases hidle

omit hc in
theorem commits_of_not_answered {a : Act Choice} (h : ¬ Answered t s a s')
    (hstep : (system calls).step s a = some s') : ∃ k r w', s.threads t = .live (.op .commit k) ∧
      s' = s.setThread t (.live (k r)) w' := by
  unfold Answered at h
  split at h
  · next u =>
    push Not at h
    obtain ⟨rfl, c, hc, hcommit⟩ := h
    obtain ⟨c', k, r, w', ht, -, rfl⟩ := Machine.step_run hstep
    rw [ht] at hc
    obtain rfl : c' = c := Option.some.inj hc
    cases c' with
    | commit => exact ⟨k, r, w', ht, rfl⟩
    | _ => exact absurd rfl hcommit
  · exact absurd trivial h

theorem reach_watch_answered (h : (system calls).Reach (fun _ _ _ => True) (Pool.fresh w) s)
    {stmt : Stmt} {k : Cmd.Resp (.sql stmt) → Go Outcome}
    (ht : s.threads t = .live (.op (.sql stmt) k)) :
    (system calls).Reach (Answered t) (Pool.fresh w) s := by
  refine h.strengthen fun x a x' hx hstep _ hrest => ?_
  by_contra hlost
  obtain ⟨k', r, w', hcommit, rfl⟩ := commits_of_not_answered hlost hstep
  obtain ⟨o, ho⟩ := (reach_watch_steps hc hx hcommit).1 r
  obtain ⟨o', hend | hend⟩ := reach_ended hrest (by rw [Pool.setThread_self]) ⟨o, .inl ho⟩ _ ht
  · cases hend
  · cases hend

omit hc in
theorem reach_rolledBack {K : State → Act Choice → State → Prop} (h : (system calls).Reach K s s')
    {o o' : Outcome} (ht : s.threads t = .live (.op .rollback fun _ => .ret o))
    (ho : (s'.threads t).result? = some o') : o' = o := by
  have hrest : ∀ p, s'.threads t = .live p →
      p = .op .rollback (fun _ => .ret o) ∨ p = .ret o := by
    refine h.suspended (fun c k r hI => ?_) (fun p hp => ?_) fun hidle => ?_
    · rcases hI with hI | hI
      · cases hI
        exact .inr rfl
      · cases hI
    · exact .inl (Thread.live.inj (hp.symm.trans ht))
    · cases ht.symm.trans hidle
  rcases hrest _ (Thread.live_of_result ho) with hr | hr
  · cases hr
  · cases hr
    rfl

theorem reach_watch_fails (hs : Start w)
    (h : (system calls).Reach (fun _ _ _ => True) (Pool.fresh w) s) {stmt : Stmt}
    {k : Cmd.Resp (.sql stmt) → Go Outcome}
    (ht : s.threads t = .live (.op (.sql stmt) k)) {ch : Choice} {e : SqlErr} {w' : World}
    (hex : World.exec t (.sql stmt) ch s.world = some (.error e, w'))
    (h' : (system calls).Reach (fun _ _ _ => True)
      (s.setThread t (.live (k (.error e))) w') s')
    {o : Outcome} (ho : (s'.threads t).result? = some o) :
    o = .watched (retInternal e) ∧ s'.world.store.committedBy t = [] := by
  have hk : k (.error e) = .op .rollback fun _ => .ret (.watched (retInternal e)) :=
    (reach_watch_steps hc h ht).1.2 e
  obtain rfl : o = .watched (retInternal e) :=
    reach_rolledBack h' (by rw [Pool.setThread_self, hk]) ho
  have hstep : (system calls).step s (.run t ch) =
      some (s.setThread t (.live (k (.error e))) w') := by
    have hex' : (system calls).exec t (.sql stmt) ch s.world = some (.error e, w') := hex
    simp only [Machine.step, ht, hex']
  -- the process commits neither before the statement nor after it
  have hanswered : (system calls).Reach (Answered t) (Pool.fresh w) s' := by
    refine ((reach_watch_answered hc h ht).tail hstep ?_).trans (h'.strengthen ?_)
    · by_contra hlost
      obtain ⟨k', r, w', hcommit, -⟩ := commits_of_not_answered hlost hstep
      rw [ht] at hcommit
      cases hcommit
    · intro x a x' hx hstep' _ _
      by_contra hlost
      obtain ⟨k', r, w', hcommit, -⟩ := commits_of_not_answered hlost hstep'
      obtain ⟨o', hend | hend⟩ :=
        reach_ended hx (by rw [Pool.setThread_self]) ⟨_, .inl hk⟩ _ hcommit
      · cases hend
      · cases hend
  have hpost := reach_watchPost (.answered calls w t) hs Env.answered_allows hanswered hc ho
  exact ⟨rfl, hpost.1.resolve_right fun hl => Env.answered_not_losing hl.2⟩

theorem reach_watch_outcome (hs : Start w) {K : State → Act Choice → State → Prop}
    (h : (system calls).Reach K (Pool.fresh w) s) {o : Outcome}
    (ho : (s.threads t).result? = some o) :
    ∃ r, o = .watched r := by
  have hfin := (reach_good (.any calls w) hs Env.any_allows h).result ho
  rw [show (Env.any calls w).calls t = .enqueueWatchMinutes req from hc] at hfin
  cases hfin with
  | watched hp => exact ⟨_, rfl⟩

theorem reach_watch_wraps (hs : Start w) (hm : req.minutes.toNat = 65535)
    {K : State → Act Choice → State → Prop} (h : (system calls).Reach K (Pool.fresh w) s) (n : ℕ) :
    (s.threads t).result? ≠ some (.watched (.ok n)) := by
  intro ho
  have hp := reach_watchPost (.any calls w) hs Env.any_allows h hc ho
  exact absurd hp.2.1 (by omega)

end Call

/-- An ingest of minutes ends, returns their number and commits their events, each once, or
fails and commits nothing, exactly if it is for at most 65534 of them. -/
theorem watches_exactly_iff (calls : ℕ → Call) {w : World} (hs : Start w) {t : ℕ}
    (hc : calls t = .enqueueWatchMinutes req) (hv : req.Valid) :
    WatchesExactly calls w t req ↔ req.minutes.toNat ≤ 65534 := by
  have hmax : req.minutes.toNat < 2 ^ 16 := req.minutes.toNat_lt
  constructor
  · intro hw
    by_contra hm
    have := le_of_within_enqueueWatchMinuteEvents hv (by omega) hw.ends
    omega
  · intro hm
    refine ⟨within_enqueueWatchMinuteEvents (by omega),
      fun h c hn => reach_watch_enabled hc hs h hn, fun h o ho => ?_,
      fun h ht hex _ h' o ho => reach_watch_fails hc hs h ht hex h' ho⟩
    obtain ⟨r, rfl⟩ := reach_watch_outcome hc hs h ho
    have hp := reach_watchPost (.smooth calls w t) hs Env.smooth_allows h hc ho
    cases r with
    | error e => exact absurd (hp.2 hv (by omega)) Env.smooth_not_hitch
    | ok n =>
      obtain ⟨rfl, -, d, p, hcom⟩ := hp
      exact ⟨rfl, reach_hasWatched hs h p hcom⟩

end General

section Witness

open Plain

def minutesOf (minutes : UInt16) (_ : ℕ) : Call :=
  .enqueueWatchMinutes ⟨"w1", 2001, 1001, 9001, minutes⟩

theorem minutesOf_valid {minutes : UInt16} (h : minutes ≠ 0) :
    InternalWatchMinutesRequest.Valid ⟨"w1", 2001, 1001, 9001, minutes⟩ :=
  ⟨(by decide : ¬ isBlank "w1" = true), (by decide : (2001 : ℕ) ≠ 0), (by decide : (1001 : ℕ) ≠ 0),
    (by decide : (9001 : ℕ) ≠ 0), h⟩

/-- The largest request that is served. -/
theorem watches_exactly_65534 : WatchesExactly (minutesOf 65534) (World.boot migrated) 0
    ⟨"w1", 2001, 1001, 9001, 65534⟩ :=
  (watches_exactly_iff (minutesOf 65534) (Start.boot rfl rfl rfl rfl) rfl
    (minutesOf_valid (by decide))).mpr (by decide)

/-- One more minute, and the loop goes on until the event ids are used up: nothing is ever
returned. -/
theorem watches_65535_never_returns :
    InternalWatchMinutesRequest.Valid ⟨"w1", 2001, 1001, 9001, 65535⟩ ∧
    (∀ n ≤ 2 ^ 64, ¬ (enqueueWatchMinuteEvents ⟨"w1", 2001, 1001, 9001, 65535⟩).Within n) ∧
    ∀ s : State,
      (system (minutesOf 65535)).Reach (fun _ _ _ => True) (Pool.fresh (World.boot migrated)) s →
      ∀ n, (s.threads 0).result? ≠ some (.watched (.ok n)) := by
  have hv : InternalWatchMinutesRequest.Valid ⟨"w1", 2001, 1001, 9001, 65535⟩ :=
    minutesOf_valid (by decide)
  refine ⟨hv, fun n hn hw => ?_, fun s h n => ?_⟩
  · have := le_of_within_enqueueWatchMinuteEvents hv (by decide) hw
    omega
  · have hc : minutesOf 65535 0 = .enqueueWatchMinutes ⟨"w1", 2001, 1001, 9001, 65535⟩ := rfl
    exact reach_watch_wraps hc (Start.boot rfl rfl rfl rfl) (by decide) h n

end Witness

end LiveRevenue
