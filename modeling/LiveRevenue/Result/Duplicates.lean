import LiveRevenue.Result.Relay

/-! # Concurrent relays send each row once

A relay sends a row only while it holds its lock, and as long as no command fails it gives
up the lock only by the commit that marks the row. Until then `SKIP LOCKED` keeps the row
out of all other batches, and afterwards its mark does.
-/

namespace LiveRevenue

open Transact

def World.timesSent (w : World) (r : OutboxRow) : ℕ := w.log.countP fun e => r.message = some e.2

/-- `SendMessage`, `UPDATE` and `Commit` of the relays do not fail, and no relay is stopped in
its transaction. -/
def RelaysSucceed (calls : ℕ → Call) (s : State) : Act Choice → Prop
  | .run t (.fault _) => (calls t).relays = true →
      ∀ c, (s.threads t).next? = some c → c.delivers = false
  | .crash t => (calls t).relays = true → s.world.store.opened t = none
  | _ => True

def World.InProgress (calls : ℕ → Call) (w : World) (r : OutboxRow) : Prop :=
  ∃ t, (calls t).relays = true ∧ w.store.opened t ≠ none ∧ ∃ m ∈ w.sentBy t, r.message = some m

/-- No message was sent twice; what was sent is marked or still locked by its sender. -/
structure World.SentOnce (calls : ℕ → Call) (w : World) : Prop where
  nodup : (w.log.map (·.2)).Nodup
  relays : ∀ e ∈ w.log, (calls e.1).relays = true
  held : ∀ e ∈ w.log, ∀ r ∈ w.db.outboxEvents, r.message = some e.2 →
    r.publishedAt ≠ none ∨ w.store.holder (.outbox r.eventID) = some e.1

theorem World.mem_sentBy {w : World} {e : ℕ × Message} (h : e ∈ w.log) : e.2 ∈ w.sentBy e.1 :=
  List.mem_filterMap.mpr ⟨e, h, if_pos rfl⟩

theorem World.SentOnce.timesSent_le {calls : ℕ → Call} {w : World} (hw : w.SentOnce calls)
    (r : OutboxRow) : w.timesSent r ≤ 1 := by
  cases hm : r.message with
  | none => simp [World.timesSent, hm]
  | some m =>
    calc w.timesSent r = (w.log.map (·.2)).count m := by
          rw [World.timesSent, List.count, List.countP_map]
          refine List.countP_congr fun e _ => ?_
          rw [hm, Function.comp_apply, decide_eq_true_eq, Option.some_inj, beq_iff_eq]
          exact eq_comm
      _ ≤ 1 := List.nodup_iff_count_le_one.mp hw.nodup m

def Env.relaying (calls : ℕ → Call) (w : World) : Env where
  calls := calls
  start := w
  permit t c ch _ := (calls t).relays = true → (∃ applied, ch = .fault applied) → c.delivers = false
  crash _ _ _ := True
  bars _ _ := False

theorem Env.relaying_allows {calls : ℕ → Call} {w : World} (s : State) (a : Act Choice) (s' : State)
    (h : RelaysSucceed calls s a) : (Env.relaying calls w).Allows s a s' := by
  cases a with
  | start t => trivial
  | run t ch =>
    refine ⟨fun c hc hr hf => ?_, fun _ _ _ _ _ h => h⟩
    obtain ⟨applied, rfl⟩ := hf
    exact h hr c hc
  | crash t => exact fun _ _ => trivial

theorem Env.relaying_not_failing {calls : ℕ → Call} {w : World} {t : ℕ}
    (ht : (calls t).relays = true) : ¬ (Env.relaying calls w).Failing t := by
  rintro ⟨c, applied, v, hc, hp⟩
  rw [hp ht ⟨applied, rfl⟩] at hc
  cases hc

section General

variable [Platform] {𝓔 : Env} {t : ℕ} {w w' : World}

theorem Moves.held (h : Moves t w w') {l : Lock}
    (hl : w.store.holder l = some t) (ho : w'.store.opened t ≠ none) :
    w'.store.holder l = some t := by
  obtain ⟨store, ids, log, aof, marked⟩ := w'
  have hm : StoreMove t w store ids := h.store
  change store.opened t ≠ none at ho
  change store.holder l = some t
  cases hm with
  | same => exact hl
  | begin => exact hl
  | rollback => exact absurd (Store.setOpened_self _ _ _) ho
  | commit _ => exact absurd (Store.setOpened_self _ _ _) ho
  | record _ _ _ =>
    simp only [Store.record]
    split
    · rfl
    · exact hl
  | read => exact hl
  | auto _ _ => exact hl

theorem Inv.row_of_message_unique (hs : Start 𝓔.start) (hi : Inv 𝓔 w) {r r' : OutboxRow}
    (hr : r ∈ w.db.outboxEvents) (hr' : r' ∈ w.db.outboxEvents) {m : Message}
    (hm : r.message = some m) (hm' : r'.message = some m) : r = r' :=
  hi.row_unique hs hr hr' ((hi.eventID_of_message hr hm).symm.trans (hi.eventID_of_message hr' hm'))

theorem Picked.not_sent (hs : Start 𝓔.start) (hw : w.SentOnce 𝓔.calls)
    {r : OutboxRow} (hp : Picked 𝓔 t r w) (hr : r ∈ w.db.outboxEvents) {m : Message}
    (hm : r.message = some m) : m ∉ w.log.map (·.2) := by
  obtain ⟨u, limit, n, rank, sent, todo, hiu, -, -, -, -, hbatch, hheld, hsent⟩ := hp
  have hids := hiu.legal.eventIDs hs.eventIDs
  rw [← hiu.db_eq] at hids
  have hspec : (∀ r ∈ u.db.outboxBatch (u.store.busy t) rank limit,
      r ∈ u.db.outboxEvents ∧ r.publishedAt = none) ∧
      ((u.db.outboxBatch (u.store.busy t) rank limit).map (·.eventID)).Nodup :=
        outboxBatch_spec hids
  rw [hbatch] at hspec
  obtain ⟨hmem, hnodup⟩ := hspec
  intro hlog
  obtain ⟨⟨v, m'⟩, he, rfl⟩ := List.mem_map.mp hlog
  rcases hw.held _ he r hr hm with hpub | hv
  · -- batches are read from unpublished rows
    exact hpub (hmem r (by simp)).2
  · -- whoever sent it holds the lock, so it was this relay, and earlier in this batch
    obtain rfl : v = t := Option.some.inj (hv.symm.trans hheld)
    obtain ⟨x, hx, hxm⟩ := hsent.row (World.mem_sentBy he)
    have hid : x.eventID = r.eventID := by
      rw [← hiu.eventID_of_message (hmem x (by simp [hx])).1 hxm,
        hiu.eventID_of_message (hmem r (by simp)).1 hm]
    rw [List.map_append, List.map_cons] at hnodup
    exact (List.nodup_append.mp hnodup).2.2 _ (List.mem_map_of_mem hx) _ List.mem_cons_self hid

/-- Every entry of the log after a command belongs to a row that was marked or locked by the
sender before it. -/
theorem Guar.sender (hi : Inv 𝓔 w) (hw : w.SentOnce 𝓔.calls) (hg : Guar 𝓔 t w w')
    {e : ℕ × Message} (he : e ∈ w'.log) : (𝓔.calls e.1).relays = true ∧
      ∃ r ∈ w.db.outboxEvents, r.message = some e.2 ∧
        (r.publishedAt ≠ none ∨ w.store.holder (.outbox r.eventID) = some e.1) := by
  have hold : e ∈ w.log → (𝓔.calls e.1).relays = true ∧ ∃ r ∈ w.db.outboxEvents,
      r.message = some e.2 ∧
        (r.publishedAt ≠ none ∨ w.store.holder (.outbox r.eventID) = some e.1) := fun he => by
    obtain ⟨r, hr, hm⟩ := hi.log e he
    exact ⟨hw.relays e he, r, hr, hm, hw.held e he r hr hm⟩
  rcases hg.log with hl | ⟨r, hr, m, hm, hl, hp⟩
  · exact hold (hl ▸ he)
  · rw [hl] at he
    rcases List.mem_append.mp he with he | he
    · exact hold he
    · rw [List.mem_singleton.mp he]
      obtain ⟨-, -, -, -, -, -, -, -, hrel, -, -, -, hheld, -⟩ := hp
      exact ⟨hrel, r, hr, hm, .inr hheld⟩

theorem Guar.sentOnce (hs : Start 𝓔.start)
    (hf : ∀ t, (𝓔.calls t).relays = true → ¬ 𝓔.Failing t) (hi : Inv 𝓔 w) (hw : w.SentOnce 𝓔.calls)
    (hm : Moves t w w') (hg : Guar 𝓔 t w w') : w'.SentOnce 𝓔.calls where
  nodup := by
    rcases hg.log with hl | ⟨r, hr, m, hm, hl, hp⟩
    · rw [hl]
      exact hw.nodup
    · rw [hl, List.map_append, List.map_singleton, ← List.concat_eq_append]
      exact hw.nodup.concat (hp.not_sent hs hw hr hm)
  relays e he := (hg.sender hi hw he).1
  held := by
    rintro ⟨u, m⟩ he r' hr' hrm'
    obtain ⟨hrel, r, hr, hrm, hor⟩ := hg.sender hi hw he
    have hi' : Inv 𝓔 w' := hg.inv hm hi
    -- the row as it is now
    obtain ⟨x, hx, hxi, hxp⟩ := hg.grows.outboxEvents r hr
    obtain rfl : x = r' :=
      hi'.row_of_message_unique hs hx hr' ((message_congr hxi).trans hrm) hrm'
    rw [(OutboxRow.eq_of_inserted hxi).1]
    rcases hor with hpub | hheld
    · exact .inl (hxp hpub)
    by_cases hu : u = t
    · subst hu
      by_cases ho : w'.store.opened u = none
      · have hopen := hi.engine.owned _ u hheld
        rcases hg.ends hrel hopen ho with hmarked | hfail
        · obtain ⟨y, hy, hym, hyp⟩ := hmarked m (World.mem_sentBy he)
          exact .inl (hi'.row_of_message_unique hs hy hx hym hrm' ▸ hyp)
        · exact absurd hfail (hf u hrel)
      · exact .inr (hm.held hheld ho)
    · exact .inr (((hm.rely hi.engine hu).store.holder _).mpr hheld)

theorem World.SentOnce.abort (hi : Inv 𝓔 w) (hw : w.SentOnce 𝓔.calls)
    (ht : (𝓔.calls t).relays = true → w.store.opened t = none) : (w.abort t).SentOnce 𝓔.calls where
  nodup := hw.nodup
  relays := hw.relays
  held e he r hr hm := by
    refine (hw.held e he r hr hm).imp_right fun hh => ?_
    have hne : e.1 ≠ t := by
      rintro rfl
      exact hi.engine.owned _ _ hh (ht (hw.relays e he))
    exact (Store.release_eq_some hne).mpr hh

/-- However many relays run, with whatever batches and next to whatever other calls: as long as
their commands succeed, each row is sent at most once, and the rows that have been sent are those
that are marked or belong to the sent part of a batch in progress. -/
theorem relays_send_once (calls : ℕ → Call) {w : World} (hs : Start w)
    (hw : ∀ r ∈ w.db.outboxEvents, r.publishedAt = none) {s : State}
    (h : (system calls).Reach (fun s a _ => RelaysSucceed calls s a) (Pool.fresh w) s)
    {r : OutboxRow} (hr : r ∈ s.world.db.outboxEvents) :
    s.world.timesSent r ≤ 1 ∧
    (s.world.timesSent r = 1 ↔ r.publishedAt ≠ none ∨ s.world.InProgress calls r) := by
  have hS := (Env.relaying calls w).sound hs (K := fun s a _ => RelaysSucceed calls s a)
    Env.relaying_allows
  have hi := (hS.reach hs.inv hs.fresh h).1
  have hpair : s.world.MarkedSent ∧ s.world.SentOnce calls := by
    refine hS.reach_induct (P := fun s => s.world.MarkedSent ∧ s.world.SentOnce calls) hs.inv
      hs.fresh ⟨fun r hr hp => absurd (hw r hr) hp, ?_⟩ (fun _ hp _ _ _ => hp)
      (fun hg hp _ he _ hgu => ⟨hgu.markedSent hs hg.1 hp.1, ?_⟩)
      (fun hg hp _ hk => ⟨hp.1, hp.2.abort hg.1 hk⟩) h
    · have hlog : (Pool.fresh (Env.relaying calls w).start : State).world.log = [] := hs.log
      constructor <;> simp [hlog]
    · exact hgu.sentOnce hs (fun _ => Env.relaying_not_failing) hg.1 hp.2 (exec_moves he)
  obtain ⟨hmarked, honce⟩ := hpair
  refine ⟨honce.timesSent_le r, fun h1 => ?_, fun hor => ?_⟩
  · obtain ⟨e, he, hm⟩ := List.countP_pos_iff.mp (Nat.lt_of_lt_of_eq Nat.zero_lt_one h1.symm)
    have hm := of_decide_eq_true hm
    refine (honce.held e he r hr hm).imp_right fun hh => ?_
    exact ⟨e.1, honce.relays e he, hi.engine.owned _ _ hh, e.2, World.mem_sentBy he, hm⟩
  · obtain ⟨m, hm, hrm⟩ : ∃ m ∈ s.world.log.map (·.2), r.message = some m := by
      rcases hor with hp | ⟨t, -, -, m, hm, hrm⟩
      · exact hmarked r hr hp
      · exact ⟨m, World.mem_log_of_sentBy hm, hrm⟩
    obtain ⟨e, he, rfl⟩ := List.mem_map.mp hm
    have hpos : 0 < s.world.timesSent r := List.countP_pos_iff.mpr ⟨e, he, decide_eq_true hrm⟩
    have hle := honce.timesSent_le r
    omega

end General

section Witness

open Plain

def giftAndRelays : ℕ → Call
  | 0 => .sendGift ⟨"g1", 2001, 1001, 9001, none, "ROSE", 3, 0⟩
  | _ => .runOnce 1

/-- The first relay has sent one of the two events when the second one sends and marks the other. -/
theorem relays_send_once_side_by_side : ∃ (s : State) (r r' : OutboxRow),
    s.world.db.outboxEvents = [r, r'] ∧ r.publishedAt = none ∧ r'.publishedAt = some 7 ∧
    s.world.timesSent r = 1 ∧ s.world.timesSent r' = 1 := by
  obtain ⟨s, hr, hp⟩ := Machine.exists_reach (M := system giftAndRelays)
    (s := Pool.fresh (World.boot migrated)) (K := fun _ a _ => failing? a = none)
    (p := fun s => decide (s.world.db.outboxEvents.map (·.publishedAt) = [none, some 7] ∧
      ∃ m ∈ s.world.sentBy 1, (s.world.db.outboxEvents.map (·.message)).head? = some (some m) ∧
        s.world.store.opened 1 ≠ none))
    (startAll [0, 1, 2] ++ resume 0 20 5 ++ resume 1 4 6 ++ resume 2 7 7) (by decide +kernel)
  obtain ⟨h1, m, hm, h2, h3⟩ := of_decide_eq_true hp
  obtain ⟨r, r', hrows⟩ := List.length_eq_two.mp (by simpa using congrArg List.length h1)
  obtain ⟨hr1, hr2⟩ : r.publishedAt = none ∧ r'.publishedAt = some 7 := by simpa [hrows] using h1
  have honce := fun {x} => relays_send_once giftAndRelays (Start.boot rfl rfl rfl rfl)
    (fun r hr => by cases hr) (hr.mono fun s a _ hk => ?_) (r := x)
  · refine ⟨s, r, r', hrows, hr1, hr2, (honce (by simp [hrows])).2.mpr (.inr ?_),
      (honce (by simp [hrows])).2.mpr (.inl (by simp [hr2]))⟩
    exact ⟨1, rfl, h3, m, hm, by simpa [hrows] using h2⟩
  · have hk := of_decide_eq_true hk
    unfold RelaysSucceed
    split
    · cases hk
    · cases hk
    · trivial

end Witness

end LiveRevenue
