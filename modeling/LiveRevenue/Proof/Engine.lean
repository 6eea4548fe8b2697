import LiveRevenue.Spec.Transactions

/-! # What commands do to the world

One inversion lemma says everything a command can change. From it follow the
invariants of the engine itself (buffered writes are locked, generated ids are
new) and that a command of one process is mere interference to the others.
-/

namespace LiveRevenue

open Transact

def Ids.le (a b : Ids) : Prop := a.tx ≤ b.tx ∧ a.order ≤ b.order ∧ a.event ≤ b.event

theorem Ids.le_refl (a : Ids) : a.le a := ⟨le_rfl, le_rfl, le_rfl⟩

def Logged {β : Type} (t : ℕ) (l l' : List (ℕ × β)) : Prop := l' = l ∨ ∃ x, l' = l ++ [(t, x)]

section Logs

variable {β : Type} {t u : ℕ} {l l' : List (ℕ × β)}

theorem Logged.le (h : Logged t l l') : l <+: l' := by
  obtain rfl | ⟨x, rfl⟩ := h
  · exact List.prefix_rfl
  · exact List.prefix_append _ _

theorem Logged.others (h : Logged t l l') (hu : u ≠ t) :
    l'.filterMap (fun e => if e.1 = u then some e.2 else none) =
      l.filterMap fun e => if e.1 = u then some e.2 else none := by
  obtain rfl | ⟨x, rfl⟩ := h
  · rfl
  · simp [List.filterMap_append, Ne.symm hu]

end Logs

section Bounds

variable {d : DB} {ids ids' : Ids}

theorem Write.Below.mono {x : Write} (h : x.Below ids) (hle : ids.le ids') : x.Below ids' := by
  obtain ⟨h1, h2, h3⟩ := hle
  cases x <;> simp only [Write.Below] at h ⊢ <;> omega

theorem DB.Below.mono (h : d.Below ids) (hle : ids.le ids') : d.Below ids' where
  walletTxs r hr := (h.walletTxs r hr).trans_le hle.1
  walletEntries r hr := (h.walletEntries r hr).trans_le hle.1
  giftOrders r hr := (h.giftOrders r hr).trans_le hle.2.1
  outboxEvents r hr :=
    ⟨(h.outboxEvents r hr).1, (h.outboxEvents r hr).2.1.trans_le hle.2.2, (h.outboxEvents r hr).2.2⟩

theorem DB.Below.apply (h : d.Below ids) {x : Write} (hx : x.Below ids) :
    (x.apply d).Below ids := by
  obtain ⟨h1, h2, h3, h4⟩ := h
  cases x with
  | published id at_ =>
    refine ⟨h1, h2, h3, fun r hr => ?_⟩
    obtain ⟨r', hr', rfl⟩ := List.mem_map.mp hr
    have := h4 r' hr'
    unfold OutboxRow.publish
    split <;> exact this
  | walletTx r =>
    exact ⟨List.forall_mem_append.mpr ⟨h1, List.forall_mem_singleton.mpr hx⟩, h2, h3, h4⟩
  | walletEntry r =>
    exact ⟨h1, List.forall_mem_append.mpr ⟨h2, List.forall_mem_singleton.mpr hx⟩, h3, h4⟩
  | giftOrder r =>
    exact ⟨h1, h2, List.forall_mem_append.mpr ⟨h3, List.forall_mem_singleton.mpr hx⟩, h4⟩
  | outbox r =>
    exact ⟨h1, h2, h3, List.forall_mem_append.mpr ⟨h4, List.forall_mem_singleton.mpr hx⟩⟩
  | _ => exact ⟨h1, h2, h3, h4⟩

variable [Platform]

theorem DB.Below.applyAll (h : d.Below ids) {ws : List Write} (hws : ∀ x ∈ ws, x.Below ids) :
    (applyAll ws d).Below ids := by
  induction ws generalizing d with
  | nil => exact h
  | cons w ws ih =>
    exact ih (h.apply (hws w List.mem_cons_self)) fun x hx => hws x (List.mem_cons_of_mem w hx)

end Bounds

variable [Platform]

section Statements

variable {d : DB} {ids : Ids} {busy : Lock → Bool} {rank : ℕ → ℕ} {s : Stmt}

theorem run_error {e : SqlErr} (h : (s.run d ids busy rank).res = .error e) :
    (s.run d ids busy rank).writes = [] ∧ (s.run d ids busy rank).takes = [] := by
  revert h
  cases s <;> simp only [Stmt.run] <;> (repeat' split) <;> simp

theorem run_ids (s : Stmt) : ids.le (s.run d ids busy rank).ids := by
  cases s <;> simp only [Stmt.run, Ids.le] <;> (repeat' split) <;> simp

theorem run_below (hd : d.Below ids) (h1 : 1 ≤ ids.event) :
    ∀ x ∈ (s.run d ids busy rank).writes, x.Below (s.run d ids busy rank).ids := by
  cases s with
  | insertWalletEntry id code amount =>
    simp only [Stmt.run]
    (repeat' split) <;>
      simp only [List.not_mem_nil, List.mem_singleton, false_implies, implies_true,
        forall_eq, Write.Below]
    next h =>
      simp only [List.all_eq_true, decide_eq_true_eq, not_forall, not_not] at h
      obtain ⟨r, hr, rfl⟩ := h
      exact hd.walletTxs r hr
  | insertOutbox topic key payload at_ =>
    simp only [Stmt.run]
    split
    · exact List.forall_mem_nil _
    · next h =>
      exact List.forall_mem_singleton.mpr ⟨h1, Nat.lt_succ_self _, not_le.mp h⟩
  | _ =>
    simp only [Stmt.run]
    (repeat' split) <;>
      simp only [List.not_mem_nil, List.mem_singleton, false_implies, implies_true, forall_eq,
        Write.Below, Nat.lt_add_one]

def Stmt.relays : Stmt → Bool
  | .selectOutboxBatch .. | .updatePublished .. => true
  | _ => false

theorem run_outbox_new (hs : s.relays = false) {id : ℕ}
    (h : Lock.outbox id ∈ (s.run d ids busy rank).takes ++
      (s.run d ids busy rank).writes.flatMap Write.locks) : id = ids.event := by
  revert h
  cases s <;> cases hs <;> simp only [Stmt.run] <;> (repeat' split) <;>
    simp [Write.locks, WalletTx.lock, RechargeRow.lock, GiftOrder.lock, DedupeRow.lock]

theorem run_outbox_insert {r : OutboxRow} (h : Write.outbox r ∈ (s.run d ids busy rank).writes) :
    r.eventID = ids.event := by
  revert h
  cases s <;> simp only [Stmt.run] <;> (repeat' split) <;> simp
  rintro rfl
  rfl

theorem run_outbox_lt (hd : d.Below ids) {id : ℕ}
    (h : Lock.outbox id ∈ (s.run d ids busy rank).takes ++
      (s.run d ids busy rank).writes.flatMap Write.locks) :
    id < (s.run d ids busy rank).ids.event := by
  cases s with
  | selectOutboxBatch limit =>
    obtain ⟨r, hr, he⟩ : ∃ r ∈ d.outboxBatch busy rank limit, r.eventID = id := by
      simpa [Stmt.run] using h
    have hmem := (List.mem_insertionSort _).mp (List.mem_of_mem_take hr)
    exact he ▸ (hd.outboxEvents r (List.mem_filter.mp hmem).1).2.1
  | updatePublished at_ eventID =>
    simp only [Stmt.run] at h ⊢
    split at h
    · next hex =>
      obtain ⟨r, hr, he⟩ := List.any_eq_true.mp hex
      have hid : id = eventID := by simpa [Write.locks] using h
      rw [if_pos hex, hid, ← of_decide_eq_true he]
      exact (hd.outboxEvents r hr).2.1
    · simp at h
  | insertOutbox topic key payload at_ =>
    have hid := run_outbox_new rfl h
    subst hid
    revert h
    simp only [Stmt.run]
    split <;> simp
  | _ =>
    revert h
    simp only [Stmt.run]
    (repeat' split) <;>
      simp [Write.locks, WalletTx.lock, RechargeRow.lock, GiftOrder.lock, DedupeRow.lock]

end Statements

inductive StoreMove (t : ℕ) (w : World) : Store DB Write Lock → Ids → Prop where
  | same : StoreMove t w w.store w.ids
  | begin : StoreMove t w (w.store.begin t) w.ids
  | rollback : StoreMove t w (w.store.rollback t) w.ids
  | commit {ws : List Write} : w.store.opened t = some ws →
      StoreMove t w (w.store.commit t ws) w.ids
  | record {ws : List Write} {s : Stmt} {rank : ℕ → ℕ} {e : Effect s.Res} :
      w.store.opened t = some ws →
      e = s.run (applyAll ws w.db) w.ids (w.store.busy t) rank →
      (∀ l ∈ e.takes ++ e.writes.flatMap (Layout.locks DB), w.store.busy t l = false) →
      StoreMove t w (w.store.record t ws e.writes e.takes) e.ids
  | read {s : Stmt} {rank : ℕ → ℕ} :
      StoreMove t w w.store (s.run w.db w.ids (w.store.busy t) rank).ids
  | auto {s : Stmt} {rank : ℕ → ℕ} {e : Effect s.Res} :
      e = s.run w.db w.ids (w.store.busy t) rank →
      (∀ l ∈ e.writes.flatMap (Layout.locks DB), w.store.busy t l = false) →
      StoreMove t w (w.store.autocommit t e.writes) e.ids

/-- Everything one command of process `t` can change. -/
structure Moves (t : ℕ) (w w' : World) : Prop where
  store : StoreMove t w w'.store w'.ids
  log : Logged t w.log w'.log
  aof : Logged t w.aof w'.aof
  marked : Logged t w.marked w'.marked

section Inversion

variable {t u : ℕ} {w w' : World}

theorem Moves.of_store {s : Store DB Write Lock} {ids : Ids} (h : StoreMove t w s ids) :
    Moves t w { w with store := s, ids := ids } := ⟨h, .inl rfl, .inl rfl, .inl rfl⟩

theorem execSql_moves {s : Stmt} {rank : ℕ → ℕ} {r : Except SqlErr s.Res}
    (h : w.execSql t s rank = some (r, w')) : Moves t w w' := by
  unfold World.execSql at h
  split at h
  · cases h; exact .of_store .same
  · next ws ho =>
    dsimp only at h
    split at h
    · cases h
    · next hb =>
      cases h
      refine .of_store (.record ho rfl fun l hl => ?_)
      simp only [List.any_eq_true, not_exists, not_and, Bool.not_eq_true] at hb
      exact hb l (List.mem_append_right _ hl)

theorem execAuto_moves {s : Stmt} {rank : ℕ → ℕ} {r : Except SqlErr s.Res}
    (h : w.execAuto t s rank = some (r, w')) : Moves t w w' := by
  unfold World.execAuto at h
  dsimp only at h
  split at h
  · cases h
  · next hb =>
    split at h
    · cases h; exact .of_store .read
    · cases h
      refine .of_store (.auto rfl fun l hl => ?_)
      simp only [List.any_eq_true, not_exists, not_and, Bool.not_eq_true] at hb
      exact hb l (List.mem_append_right _ hl)

theorem Moves.addLog (w : World) (m : Message) : Moves t w (w.addLog t m) :=
  ⟨.same, .inr ⟨m, rfl⟩, .inl rfl, .inl rfl⟩

theorem Moves.addAof (w : World) (c : RedisCmd) : Moves t w (w.addAof t c) :=
  ⟨.same, .inl rfl, .inr ⟨c, rfl⟩, .inl rfl⟩

theorem Moves.same (w : World) : Moves t w w := ⟨.same, .inl rfl, .inl rfl, .inl rfl⟩

inductive CommitStep (t : ℕ) (w : World) : Choice → Except SqlErr Unit → World → Prop where
  | idle {ch : Choice} : w.store.opened t = none → CommitStep t w ch (.error .txDone) w
  | done {n : ℕ} {rank : ℕ → ℕ} {ws : List Write} : w.store.opened t = some ws →
      CommitStep t w (.ok n rank) (.ok ()) (w.setStore (w.store.commit t ws))
  | lost {ws : List Write} : w.store.opened t = some ws →
      CommitStep t w (.fault true) (.error .infra) (w.setStore (w.store.commit t ws))
  | undone {ws : List Write} : w.store.opened t = some ws →
      CommitStep t w (.fault false) (.error .infra) (w.setStore (w.store.rollback t))

theorem exec_commit {ch : Choice} {r : Except SqlErr Unit}
    (h : World.exec t .commit ch w = some (r, w')) : CommitStep t w ch r w' := by
  simp only [World.exec] at h
  split at h <;> cases h
  · exact .idle ‹_›
  · exact .done ‹_›
  · exact .lost ‹_›
  · exact .undone ‹_›

inductive RedisStep (t : ℕ) (w : World) (c : RedisCmd) :
    Choice → Except SqlErr Unit → World → Prop where
  | applied {n : ℕ} {rank : ℕ → ℕ} : c.overflows w.redis = false →
      RedisStep t w c (.ok n rank) (.ok ()) (w.addAof t c)
  | refused {n : ℕ} {rank : ℕ → ℕ} : c.overflows w.redis = true →
      RedisStep t w c (.ok n rank) (.error .overflow) w
  | lost : c.overflows w.redis = false →
      RedisStep t w c (.fault true) (.error .infra) (w.addAof t c)
  | unsent {applied : Bool} : RedisStep t w c (.fault applied) (.error .infra) w

theorem exec_redis {c : RedisCmd} {ch : Choice} {r : Except SqlErr Unit}
    (h : World.exec t (.redis c) ch w = some (r, w')) : RedisStep t w c ch r w' := by
  cases ch with
  | ok n rank =>
    simp only [World.exec] at h
    split at h <;> cases h
    · exact .refused ‹_›
    · exact .applied (Bool.eq_false_iff.mpr ‹_›)
  | fault applied =>
    simp only [World.exec] at h
    split at h <;> cases h
    · next ha =>
      rw [Bool.and_eq_true, Bool.not_eq_true'] at ha
      obtain ⟨rfl, ho⟩ := ha
      exact .lost ho
    · exact .unsent

/-- Inversion: whatever a command does is one of the moves. -/
theorem exec_moves {c : Cmd} {ch : Choice} {r : c.Resp} (h : World.exec t c ch w = some (r, w')) :
    Moves t w w' := by
  cases c with
  | begin =>
    cases ch with
    | ok => cases h; exact .of_store .begin
    | fault => cases h; exact .same w
  | commit =>
    cases exec_commit h with
    | idle => exact .same w
    | done ho => exact .of_store (.commit ho)
    | lost ho => exact .of_store (.commit ho)
    | undone => exact .of_store .rollback
  | rollback => cases h; exact .of_store .rollback
  | sql s =>
    cases ch with
    | ok => exact execSql_moves h
    | fault => cases h; exact .same w
  | auto s =>
    cases ch with
    | ok => exact execAuto_moves h
    | fault applied =>
      simp only [World.exec] at h
      split at h
      · obtain ⟨x, hx, he⟩ := Option.map_eq_some_iff.mp h
        cases he
        exact execAuto_moves (r := x.1) hx
      · cases h; exact .same w
  | now => cases ch <;> cases h <;> exact .same w
  | send m =>
    cases ch with
    | ok => cases h; exact .addLog w m
    | fault applied =>
      cases h
      split
      · exact .addLog w m
      · exact .same w
  | redis c =>
    cases exec_redis h with
    | applied => exact .addAof w c
    | refused => exact .same w
    | lost => exact .addAof w c
    | unsent => exact .same w
  | mark m => cases h; exact ⟨.same, .inl rfl, .inl rfl, .inr ⟨m, rfl⟩⟩

end Inversion

/-- What the engine keeps by itself: writes are locked before they are buffered, locks end
with their transaction, and ids in rows, committed or not, were generated. -/
structure Engine (w : World) : Prop where
  covered : w.store.Covered
  owned : w.store.Owned
  held : ∀ id u, w.store.holder (.outbox id) = some u → id < w.ids.event
  below : w.db.Below w.ids
  buffered : ∀ t ws, w.store.opened t = some ws → ∀ x ∈ ws, x.Below w.ids
  one_le : 1 ≤ w.ids.tx ∧ 1 ≤ w.ids.order ∧ 1 ≤ w.ids.event

/-- What a process may rely on when others move. -/
structure Rely (t : ℕ) (w w' : World) : Prop where
  store : Store.Quiet t w.store w'.store
  binlog : w.store.binlog <+: w'.store.binlog
  log : w.log <+: w'.log
  sent : w'.sentBy t = w.sentBy t
  aof : w'.aofBy t = w.aofBy t

theorem Rely.refl (t : ℕ) (w : World) : Rely t w w :=
  ⟨.refl t _, List.prefix_rfl, List.prefix_rfl, rfl, rfl⟩

theorem Rely.trans {t : ℕ} {w w' w'' : World} (h : Rely t w w') (h' : Rely t w' w'') :
    Rely t w w'' where
  store := h.store.trans h'.store
  binlog := h.binlog.trans h'.binlog
  log := h.log.trans h'.log
  sent := h'.sent.trans h.sent
  aof := h'.aof.trans h.aof

section Moves

variable {t u : ℕ} {w w' : World}

theorem StoreMove.quiet {s : Store DB Write Lock} {ids : Ids} (h : StoreMove t w s ids)
    (he : Engine w) (hu : u ≠ t) : Store.Quiet u w.store s ∧ w.store.binlog <+: s.binlog := by
  cases h with
  | same => exact ⟨.refl u _, List.prefix_rfl⟩
  | begin => exact ⟨Store.begin_quiet hu, List.prefix_rfl⟩
  | rollback => exact ⟨Store.rollback_quiet hu, List.prefix_rfl⟩
  | commit ho => exact ⟨Store.commit_quiet he.covered hu ho, List.prefix_append _ _⟩
  | record ho hs hb => exact ⟨Store.record_quiet hu hb, List.prefix_rfl⟩
  | read => exact ⟨.refl u _, List.prefix_rfl⟩
  | auto hs hb => exact ⟨Store.autocommit_quiet hu hb, List.prefix_append _ _⟩

/-- A command of `t` is interference to every other process. -/
theorem Moves.rely (h : Moves t w w') (he : Engine w) (hu : u ≠ t) : Rely u w w' where
  store := (h.store.quiet he hu).1
  binlog := (h.store.quiet he hu).2
  log := h.log.le
  sent := h.log.others hu
  aof := h.aof.others hu

theorem Engine.own_below (he : Engine w) {ws : List Write} (ho : w.store.opened t = some ws) :
    (applyAll ws w.db).Below w.ids := he.below.applyAll (he.buffered t ws ho)

theorem Engine.buffered_setOpened (he : Engine w) {ids : Ids} (hle : w.ids.le ids)
    {o : Option (List Write)} (ho : ∀ ws, o = some ws → ∀ x ∈ ws, x.Below ids) (u : ℕ)
    (ws : List Write) (hu : w.store.setOpened t o u = some ws) : ∀ x ∈ ws, x.Below ids := by
  by_cases h : u = t
  · subst h
    rw [Store.setOpened_self] at hu
    exact ho ws hu
  · rw [Store.setOpened_of_ne h] at hu
    exact fun x hx => (he.buffered u ws hu x hx).mono hle

theorem Engine.held_record (he : Engine w) {ws : List Write} (ho : w.store.opened t = some ws)
    {s : Stmt} {rank : ℕ → ℕ} {e : Effect s.Res}
    (hs : e = s.run (applyAll ws w.db) w.ids (w.store.busy t) rank) {id u : ℕ}
    (hh : (w.store.record t ws e.writes e.takes).holder (.outbox id) = some u) :
    id < e.ids.event := by
  subst hs
  simp only [Store.record] at hh
  split at hh
  · next hm => exact run_outbox_lt (he.own_below ho) hm
  · exact (he.held id u hh).trans_le (run_ids s).2.2

theorem Engine.held_release (he : Engine w) {id u : ℕ}
    (hh : w.store.release t (.outbox id) = some u) : id < w.ids.event := by
  have hu : u ≠ t := by
    rintro rfl
    exact Store.release_ne _ _ _ hh
  exact he.held id u ((Store.release_eq_some hu).mp hh)

/-- The engine's invariant survives every command. -/
theorem Moves.engine (h : Moves t w w') (he : Engine w) : Engine w' := by
  obtain ⟨store, ids, log, aof, marked⟩ := w'
  have hm : StoreMove t w store ids := h.store
  suffices hs : store.Covered ∧ store.Owned ∧
      (∀ id u, store.holder (.outbox id) = some u → id < ids.event) ∧ store.db.Below ids ∧
      (∀ t ws, store.opened t = some ws → ∀ x ∈ ws, x.Below ids) ∧ 1 ≤ ids.tx ∧ 1 ≤ ids.order ∧
      1 ≤ ids.event from
    ⟨hs.1, hs.2.1, hs.2.2.1, hs.2.2.2.1, hs.2.2.2.2.1, hs.2.2.2.2.2⟩
  cases hm with
  | same => exact ⟨he.covered, he.owned, he.held, he.below, he.buffered, he.one_le⟩
  | begin =>
    exact ⟨Store.begin_covered he.covered, Store.begin_owned he.owned, he.held, he.below,
      he.buffered_setOpened (Ids.le_refl _) (by rintro ws ⟨⟩ x hx; cases hx), he.one_le⟩
  | rollback =>
    exact ⟨Store.rollback_covered he.covered, Store.rollback_owned he.owned,
      fun _ _ hh => he.held_release hh, he.below,
      he.buffered_setOpened (Ids.le_refl _) (by rintro ws ⟨⟩), he.one_le⟩
  | commit ho =>
    exact ⟨Store.commit_covered he.covered, Store.commit_owned he.owned,
      fun _ _ hh => he.held_release hh, he.own_below ho,
      he.buffered_setOpened (Ids.le_refl _) (by rintro ws ⟨⟩), he.one_le⟩
  | @record ws s rank e ho hs hb =>
    have hheld : ∀ id u, (w.store.record t ws e.writes e.takes).holder (.outbox id) = some u →
        id < e.ids.event := fun _ _ hh => he.held_record ho hs hh
    subst hs
    have hle : w.ids.le (s.run (applyAll ws w.db) w.ids (w.store.busy t) rank).ids := run_ids s
    refine ⟨Store.record_covered he.covered ho hb, Store.record_owned he.owned, hheld,
      he.below.mono hle, he.buffered_setOpened hle ?_, he.one_le.1.trans hle.1,
      he.one_le.2.1.trans hle.2.1, he.one_le.2.2.trans hle.2.2⟩
    rintro xs ⟨⟩ x hx
    rcases List.mem_append.mp hx with hx | hx
    · exact (he.buffered t ws ho x hx).mono hle
    · exact run_below (he.own_below ho) he.one_le.2.2 x hx
  | @read s rank =>
    have hle : w.ids.le (s.run w.db w.ids (w.store.busy t) rank).ids := run_ids s
    exact ⟨he.covered, he.owned, fun id u hh => (he.held id u hh).trans_le hle.2.2,
      he.below.mono hle, fun u ws hu x hx => (he.buffered u ws hu x hx).mono hle,
      he.one_le.1.trans hle.1, he.one_le.2.1.trans hle.2.1, he.one_le.2.2.trans hle.2.2⟩
  | @auto s rank e hs hb =>
    subst hs
    have hle : w.ids.le (s.run w.db w.ids (w.store.busy t) rank).ids := run_ids s
    refine ⟨?_, he.owned, fun id u hh => (he.held id u hh).trans_le hle.2.2,
      (he.below.mono hle).applyAll (run_below he.below he.one_le.2.2),
      fun u ws hu x hx => (he.buffered u ws hu x hx).mono hle, he.one_le.1.trans hle.1,
      he.one_le.2.1.trans hle.2.1, he.one_le.2.2.trans hle.2.2⟩
    exact fun u ws hu x hx l hl => he.covered u ws hu x hx l hl

theorem abort_moves (t : ℕ) (w : World) : Moves t w (w.abort t) := .of_store .rollback

end Moves

theorem Start.engine {w : World} (h : Start w) : Engine w where
  covered t ws ho := by rw [h.opened] at ho; cases ho
  owned l t hl := by rw [h.holder] at hl; cases hl
  held id u hl := by rw [h.holder] at hl; cases hl
  below := h.below
  buffered t ws ho := by rw [h.opened] at ho; cases ho
  one_le := h.one_le

end LiveRevenue
