import LiveRevenue.Result.Waiting

/-! # The outbox drains

A relay run that nothing disturbs publishes the oldest events that no open transaction has
locked, as many as its batch holds, and leaves every lock of the others as it was. Relay
runs that follow each other therefore empty the outbox in the order of the events' ages,
batch by batch, even while other transactions stay open.
-/

namespace LiveRevenue

open Transact

/-- The events that wait to be published and that no open transaction has locked. -/
def World.pending (w : World) : List OutboxRow :=
  w.db.outboxEvents.filter fun r =>
    r.publishedAt = none ∧ w.store.holder (.outbox r.eventID) = none

theorem World.mem_pending {w : World} {r : OutboxRow} : r ∈ w.pending ↔
    r ∈ w.db.outboxEvents ∧ r.publishedAt = none ∧ w.store.holder (.outbox r.eventID) = none := by
  simp [World.pending]

def messagesOf (t : ℕ) (rows : List OutboxRow) : List (ℕ × Message) :=
  rows.filterMap fun r => r.message.map fun m => (t, m)

section Batches

variable {w v : World} {t : ℕ} {rank : ℕ → ℕ} {limit now : ℕ} {rows : List OutboxRow}

theorem busy_of_unheld (hfree : ∀ l, w.store.holder l ≠ some t) (l : Lock) :
    w.store.busy t l = false ↔ w.store.holder l = none := by
  rw [Store.not_busy_iff]
  constructor
  · intro h
    rw [Option.eq_none_iff_forall_ne_some]
    rintro u hu
    obtain rfl := h u hu
    exact hfree l hu
  · intro h u hu
    rw [h] at hu
    cases hu

def older (rank : ℕ → ℕ) (a b : OutboxRow) : Prop :=
  a.createdAt < b.createdAt ∨ (a.createdAt = b.createdAt ∧ rank a.eventID ≤ rank b.eventID)

instance : DecidableRel (older rank) := fun a b => inferInstanceAs (Decidable
  (a.createdAt < b.createdAt ∨ (a.createdAt = b.createdAt ∧ rank a.eventID ≤ rank b.eventID)))

theorem outboxBatch_eq (hfree : ∀ l, w.store.holder l ≠ some t) :
    w.db.outboxBatch (w.store.busy t) rank limit =
      (w.pending.insertionSort (older rank)).take limit := by
  have hfilter : (w.db.outboxEvents.filter fun r =>
      r.publishedAt = none ∧ w.store.busy t (.outbox r.eventID) = false) = w.pending := by
    apply List.filter_congr
    intro r _
    simp only [busy_of_unheld hfree]
  change List.take limit (List.insertionSort (older rank) _) = _
  rw [hfilter]

theorem older_of_batch {r x : OutboxRow}
    (hr : r ∈ (w.pending.insertionSort (older rank)).take limit) (hx : x ∈ w.pending)
    (hnot : x ∉ (w.pending.insertionSort (older rank)).take limit) : r.createdAt ≤ x.createdAt := by
  have : Std.Total (older rank) := ⟨fun a b => by unfold older; omega⟩
  have : IsTrans OutboxRow (older rank) := ⟨fun a b c => by unfold older; omega⟩
  have hsorted := List.pairwise_insertionSort (older rank) w.pending
  have hmem := (List.mem_insertionSort (older rank)).mpr hx
  generalize w.pending.insertionSort (older rank) = rows at hr hnot hsorted hmem
  rw [← List.take_append_drop limit rows] at hsorted hmem
  have hlater := (List.mem_append.mp hmem).resolve_left hnot
  have hle := (List.pairwise_append.mp hsorted).2.2 r hr x hlater
  unfold older at hle
  omega

def OutboxRow.markedIn (batch : List OutboxRow) (now : ℕ) (r : OutboxRow) : OutboxRow :=
  if r.eventID ∈ batch.map (·.eventID) then { r with publishedAt := some now } else r

theorem markedIn_pending (r : OutboxRow) : ((r.markedIn rows now).publishedAt = none ∧
    w.store.holder (.outbox (r.markedIn rows now).eventID) = none) ↔
    r.eventID ∉ rows.map (·.eventID) ∧
      r.publishedAt = none ∧ w.store.holder (.outbox r.eventID) = none := by
  unfold OutboxRow.markedIn
  split
  · next h => exact ⟨nofun, fun hr => absurd h hr.1⟩
  · next h => exact ⟨fun hr => ⟨h, hr⟩, fun hr => hr.2⟩

variable [Platform]

theorem outboxEvents_marks (d : DB) : (applyAll (marks now rows) d).outboxEvents =
    d.outboxEvents.map (·.markedIn rows now) := by
  induction rows generalizing d with
  | nil =>
    change d.outboxEvents = _
    conv_lhs => rw [← List.map_id d.outboxEvents]
    exact List.map_congr_left fun r _ => (if_neg List.not_mem_nil).symm
  | cons e es ih =>
    change (applyAll (marks now es) (Write.apply d (.published e.eventID now))).outboxEvents = _
    rw [ih]
    change (d.outboxEvents.map _).map _ = _
    rw [List.map_map]
    apply List.map_congr_left
    intro r _
    by_cases he : r.eventID = e.eventID
    · simp [OutboxRow.publish, OutboxRow.markedIn, he]
    · simp [OutboxRow.publish, OutboxRow.markedIn, he]

/-- What a relay run that nothing disturbs has done. -/
structure Forwarded (t : ℕ) (w : World) (now : ℕ) (batch : List OutboxRow) (v : World) : Prop where
  db : v.db = applyAll (marks now batch) w.db
  holder : v.store.holder = w.store.holder
  log : v.log = w.log ++ messagesOf t batch

theorem Forwarded.pending (h : Forwarded t w now rows v) :
    v.pending = w.pending.filter fun r => r.eventID ∉ rows.map (·.eventID) := by
  unfold World.pending
  rw [h.db, h.holder, outboxEvents_marks, List.filter_map, List.filter_filter]
  simp only [Function.comp_def, markedIn_pending]
  conv_rhs => rw [← List.map_id (List.filter _ _)]
  have hfilter : ∀ r : OutboxRow, decide (r.eventID ∉ rows.map (·.eventID) ∧
      r.publishedAt = none ∧ w.store.holder (.outbox r.eventID) = none) =
      (decide (r.eventID ∉ rows.map (·.eventID)) &&
        decide (r.publishedAt = none ∧ w.store.holder (.outbox r.eventID) = none)) :=
    fun r => Bool.decide_and _ _
  simp only [hfilter]
  apply List.map_congr_left
  intro r hr
  have hnot := (Bool.and_eq_true _ _ ▸ (List.mem_filter.mp hr).2).1
  exact if_neg (of_decide_eq_true hnot)

theorem Forwarded.length_pending (hids : (w.db.outboxEvents.map (·.eventID)).Nodup)
    (h : Forwarded t w now ((w.pending.insertionSort (older rank)).take limit) v) :
    v.pending.length = w.pending.length - limit := by
  have hperm := List.perm_insertionSort (older rank) w.pending
  have hnodup : ((w.pending.insertionSort (older rank)).map (·.eventID)).Nodup :=
    (hperm.map _).nodup_iff.mpr ((List.filter_sublist.map _).nodup hids)
  rw [h.pending, ← (hperm.filter _).length_eq]
  generalize w.pending.insertionSort (older rank) = rows at hperm hnodup
  rw [← hperm.length_eq, ← List.length_drop]
  conv_lhs => rw [← List.take_append_drop limit rows]
  rw [← List.take_append_drop limit rows, List.map_append, List.nodup_append] at hnodup
  rw [List.filter_append]
  have htake : (rows.take limit).filter (fun r => r.eventID ∉ (rows.take limit).map (·.eventID)) =
      [] := by
    refine List.filter_eq_nil_iff.mpr fun r hr hp => of_decide_eq_true hp ?_
    exact List.mem_map_of_mem hr
  have hdrop : (rows.drop limit).filter (fun r => r.eventID ∉ (rows.take limit).map (·.eventID)) =
      rows.drop limit := by
    refine List.filter_eq_self.mpr fun r hr => decide_eq_true fun hmem => ?_
    exact hnodup.2.2 _ hmem _ (List.mem_map_of_mem hr) rfl
  simp only [List.take_append_drop, htake, hdrop, List.nil_append]

end Batches

section Alone

variable [Platform] {calls : ℕ → Call} {w v v' : World} {t now : ℕ} {batch sent : List OutboxRow}
  {logged : List (ℕ × Message)} {E : Except Err ℕ → World → Prop} {f : SqlErr → Except Err ℕ}

/-- In the middle of a relay run that nothing disturbs, from the world `w` on: the rows `batch` are
read and locked, `sent` are marked and `logged` are the messages sent. -/
structure Relaying (t : ℕ) (w : World) (now : ℕ) (batch sent : List OutboxRow)
    (logged : List (ℕ × Message)) (v : World) : Prop where
  db : v.db = w.db
  opened : v.store.opened t = some (marks now sent)
  held : v.Holds t batch
  released : v.store.release t = w.store.holder
  log : v.log = w.log ++ logged

omit [Platform] in
theorem Relaying.send (h : Relaying t w now batch sent logged v) (m : Message) :
    Relaying t w now batch sent (logged ++ [(t, m)]) (v.addLog t m) :=
  ⟨h.db, h.opened, h.held, h.released, by rw [World.addLog, h.log, List.append_assoc]⟩

theorem Relaying.update (h : Relaying t w now batch sent logged v) {e : OutboxRow} (he : e ∈ batch)
    (hrow : e ∈ w.db.outboxEvents) {rank : ℕ → ℕ} {r : Except SqlErr Unit}
    (hex : v.execSql t (.updatePublished now e.eventID) rank = some (r, v')) :
    r = .ok () ∧ Relaying t w now batch (sent ++ [e]) logged v' := by
  obtain ⟨hnone, -, -⟩ | ⟨ws, hws, hr, rfl⟩ := execSql_cases hex
  · cases h.opened.symm.trans hnone
  obtain rfl := Option.some.inj (h.opened.symm.trans hws)
  have hex : ∃ x ∈ (applyAll (marks now sent) v.db).outboxEvents, x.eventID = e.eventID := by
    rw [h.db]
    obtain ⟨x, hx, hi, -⟩ := (grows_applyAll (marks now sent) w.db).outboxEvents e hrow
    exact ⟨x, hx, (OutboxRow.eq_of_inserted hi).1⟩
  have heff : v.effect t (marks now sent) (.updatePublished now e.eventID) rank =
      ⟨.ok (), v.ids, [.published e.eventID now], [], []⟩ := by
    simp only [World.effect, Stmt.run]
    rw [if_pos (by simpa using hex)]
  rw [heff] at hr ⊢
  -- the row is locked already
  have hholder : (v.store.record t (marks now sent) [.published e.eventID now] []).holder =
      v.store.holder := by
    funext l
    simp only [Store.record]
    split
    · next hl =>
      obtain rfl : l = .outbox e.eventID := by simpa [Layout.locks, Write.locks] using hl
      exact (h.held e he).symm
    · rfl
  refine ⟨hr, h.db, ?_, ?_, ?_, h.log⟩
  · simp [Store.record, marks]
  · intro x hx
    exact (congrFun hholder _).trans (h.held x hx)
  · rw [← h.released]
    funext l
    unfold Store.release
    rw [hholder]

theorem runs_alone_publishRows (hbatch : ∀ r ∈ batch, r ∈ w.db.outboxEvents ∧ r.message ≠ none)
    {todo : List OutboxRow} (hrows : batch = sent ++ todo)
    (h : Relaying t w now batch sent (messagesOf t sent) v) :
    Runs ((system calls).solo Choice.Ok) t (publishRows now todo)
      (fun _ => Relaying t w now batch batch (messagesOf t batch)) E v := by
  induction todo generalizing sent v with
  | nil =>
    rw [List.append_nil] at hrows
    subst hrows
    exact runs_alone_pure h
  | cons e es ih =>
    obtain ⟨hrow, hmsg⟩ := hbatch e (by simp [hrows])
    unfold publishRows
    split
    · next hnone => exact absurd hnone hmsg
    · next m hm =>
      have hlogged : messagesOf t sent ++ [(t, m)] = messagesOf t (sent ++ [e]) := by
        simp [messagesOf, hm]
      refine Runs.bind (Runs.bind (Runs.solo_call ⟨.ok 0 id, trivial, rfl⟩ ?_))
      rintro (⟨n, rank⟩ | a) r v' hok hex
      · cases hex
        refine runs_alone_pure (Runs.bind (Runs.bind (Runs.solo_call ?_ ?_)))
        · exact ⟨.ok 0 id, trivial,
            enabled_updatePublished ((h.send m).held e (by simp [hrows])) 0 id⟩
        · rintro (⟨n, rank⟩ | a) r v' hok hex
          · obtain ⟨rfl, hv'⟩ := (h.send m).update (by simp [hrows]) hrow hex
            rw [hlogged] at hv'
            exact runs_alone_pure (ih (by simp [hrows]) hv')
          · cases hok
      · cases hok

theorem Relaying.select {limit : ℕ} {rank : ℕ → ℕ} {r : Except SqlErr (List OutboxRow)}
    (hfree : ∀ l, w.store.holder l ≠ some t)
    (hex : (w.setStore (w.store.begin t)).execSql t (.selectOutboxBatch limit) rank = some (r, v)) :
    r = .ok ((w.pending.insertionSort (older rank)).take limit) ∧
      ∀ now, Relaying t w now ((w.pending.insertionSort (older rank)).take limit) [] [] v := by
  have hopen : (w.setStore (w.store.begin t)).store.opened t = some [] :=
    Store.setOpened_self _ _ _
  obtain ⟨hnone, -, -⟩ | ⟨ws, hws, hr, rfl⟩ := execSql_cases hex
  · cases hopen.symm.trans hnone
  obtain rfl := Option.some.inj (hopen.symm.trans hws)
  have heff : (w.setStore (w.store.begin t)).effect t [] (.selectOutboxBatch limit) rank =
      ⟨.ok ((w.pending.insertionSort (older rank)).take limit), w.ids, [], [],
        ((w.pending.insertionSort (older rank)).take limit).map fun r => .outbox r.eventID⟩ := by
    simp only [World.effect, Stmt.run]
    rw [show (applyAll [] (w.setStore (w.store.begin t)).db).outboxBatch
      ((w.setStore (w.store.begin t)).store.busy t) rank limit = _ from outboxBatch_eq hfree]
    rfl
  rw [heff] at hr ⊢
  refine ⟨hr, fun now => ⟨rfl, Store.setOpened_self _ _ _, ?_, ?_, (List.append_nil _).symm⟩⟩
  · intro x hx
    exact if_pos (List.mem_append_left _ (List.mem_map.mpr ⟨x, hx, rfl⟩))
  · -- what it locks was free
    funext l
    simp only [Store.release, Store.record, List.flatMap_nil, List.append_nil]
    by_cases hl : l ∈ ((w.pending.insertionSort (older rank)).take limit).map
        fun r => Lock.outbox r.eventID
    · rw [if_pos hl, if_pos rfl]
      obtain ⟨x, hx, rfl⟩ := List.mem_map.mp hl
      have hmem := (List.mem_insertionSort _).mp (List.mem_of_mem_take hx)
      exact (World.mem_pending.mp hmem).2.2.symm
    · rw [if_neg hl]
      exact if_neg (hfree l)

theorem Relaying.commit {r : Except SqlErr Unit} {n : ℕ} {rank : ℕ → ℕ}
    (h : Relaying t w now batch batch (messagesOf t batch) v)
    (hex : World.exec t .commit (.ok n rank) v = some (r, v')) :
    r = .ok () ∧ Forwarded t w now batch v' := by
  simp only [World.exec, h.opened] at hex
  cases hex
  refine ⟨rfl, ?_, h.released, h.log⟩
  change applyAll (marks now batch) v.db = _
  rw [h.db]

theorem runs_alone_commit_batch {k : ℕ} (hk : k = batch.length)
    {Q : Except Err ℕ → World → Prop}
    (hQ : ∀ v', Forwarded t w now batch v' → Q (.ok batch.length) v')
    (h : Relaying t w now batch batch (messagesOf t batch) v) :
    Runs ((system calls).solo Choice.Ok) t (commitTx f >>= fun _ => pure (.ok k)) Q E v := by
  subst hk
  refine Runs.bind (Runs.bind (Runs.solo_call ⟨.ok 0 id, trivial, ?_⟩ ?_))
  · change (World.exec t .commit (.ok 0 id) v).isSome = true
    simp only [World.exec, h.opened]
    rfl
  · rintro (⟨n, rank⟩ | a) r v' hok hex
    · obtain ⟨rfl, hv'⟩ :=
        h.commit (show World.exec t .commit (.ok n rank) v = some (r, v') from hex)
      exact runs_alone_pure (runs_alone_pure (hQ v' hv'))
    · cases hok

def DrainPost (t : ℕ) (n : ℤ) (w : World) (r : Except Err ℕ) (v : World) : Prop :=
  ∃ now rank, r = .ok ((w.pending.insertionSort (older rank)).take (relayBatch n)).length ∧
    Forwarded t w now ((w.pending.insertionSort (older rank)).take (relayBatch n)) v

theorem runs_alone_relayTx {n : ℤ} (he : Engine w) (hfree : ∀ l, w.store.holder l ≠ some t)
    (hmsg : ∀ r ∈ w.db.outboxEvents, r.message ≠ none) :
    Runs ((system calls).solo Choice.Ok) t (relayTx n) (DrainPost t n w) (DrainPost t n w)
      (w.setStore (w.store.begin t)) := by
  have henabled : Cmd.Enabled t (.sql (.selectOutboxBatch (relayBatch n)))
      (w.setStore (w.store.begin t)) :=
    enabled_sql fun ws rank _ => run_waitless rank rfl he.next_free
  unfold relayTx
  refine Runs.bind (Runs.bind (Runs.solo_call ⟨.ok 0 id, trivial, henabled 0 id⟩ ?_))
  rintro (⟨m, rank⟩ | a) r v hok hex
  · obtain ⟨rfl, hv⟩ := Relaying.select hfree hex
    have hpost : ∀ now v', Forwarded t w now _ v' → DrainPost t n w (.ok _) v' :=
      fun now v' hv' => ⟨now, rank, rfl, hv'⟩
    refine runs_alone_pure ?_
    split
    · next h0 =>
      have hv0 := hv 0
      rw [List.length_eq_zero_iff.mp h0] at hv0 hpost
      exact runs_alone_commit_batch rfl (hpost 0) hv0
    · refine Runs.bind (runs_alone_now fun now => ?_)
      refine Runs.seq (runs_alone_publishRows (fun r hr => ?_) (List.nil_append _).symm (hv now))
        fun _ v _ hv => runs_alone_commit_batch rfl (hpost now) hv
      have hmem := World.mem_pending.mp
        ((List.mem_insertionSort _).mp (List.mem_of_mem_take hr))
      exact ⟨hmem.1, hmsg r hmem.1⟩
  · cases hok

theorem Forwarded.rollback (hfree : ∀ l, w.store.holder l ≠ some t)
    (h : Forwarded t w now batch v) :
    Forwarded t w now batch (v.setStore (v.store.rollback t)) := by
  refine ⟨h.db, ?_, h.log⟩
  funext l
  change v.store.release t l = _
  unfold Store.release
  rw [h.holder]
  exact if_neg (hfree l)

theorem safe_alone_runOnce {n : ℤ} (he : Engine w) (hfree : ∀ l, w.store.holder l ≠ some t)
    (hmsg : ∀ r ∈ w.db.outboxEvents, r.message ≠ none) :
    Safe ((system calls).solo Choice.Ok) t (DrainPost t n w) (runOnce n) w := by
  refine Machine.safe_solo_op ⟨.ok 0 id, trivial, rfl⟩ ?_
  rintro (⟨m, rank⟩ | a) r v hok hex
  · cases hex
    refine ((Runs.toSafe (runs_alone_relayTx he hfree hmsg)).mono fun a v' _ hp => ?_).bind
    refine Machine.safe_solo_op ⟨.ok 0 id, trivial, rfl⟩ ?_
    rintro (⟨m, rank⟩ | x) r v'' hok hex
    · cases hex
      rintro _ rfl -
      obtain ⟨now, rank, hr, hv⟩ := hp
      exact ⟨now, rank, hr, hv.rollback hfree⟩
    · cases hok
  · cases hok

end Alone

section Turns

variable [Platform] {calls : ℕ → Call} {w : World} {s s' : State} {t : ℕ} {ts : List ℕ}
  {K : State → Act Choice → State → Prop}

/-- The processes act one after the other, each of them alone and without failures, until it has
returned. -/
inductive InTurn (calls : ℕ → Call) : List ℕ → State → State → Prop where
  | nil {s : State} : InTurn calls [] s s
  | cons {t : ℕ} {ts : List ℕ} {s x s' : State} : (system calls).Reach (Only Choice.Ok t) s x →
      (x.threads t).result?.isSome = true → InTurn calls ts x s' → InTurn calls (t :: ts) s s'

def Call.batch : Call → ℕ
  | .runOnce n => relayBatch n
  | _ => 0

theorem safe_alone_relay (hs : Start w) (h : (system calls).Reach K (Pool.fresh w) s)
    (hc : (calls t).relays = true) (hidle : s.threads t = .idle) :
    Safe ((system calls).solo Choice.Ok) t (fun _ v => ∃ now rank, Forwarded t s.world now
      ((s.world.pending.insertionSort (older rank)).take (calls t).batch) v)
      ((system calls).program t) s.world := by
  have hinv := (reach_good (.any calls w) hs Env.any_allows h).1
  have hfree : ∀ l, s.world.store.holder l ≠ some t := fun l hl =>
    hinv.engine.owned l t hl (reach_unopened hs h hidle)
  change Safe _ t _ (calls t).program _
  cases hcall : calls t with
  | runOnce n =>
    refine Safe.bind ((safe_alone_runOnce (n := n) hinv.engine hfree
      fun r hr => hinv.message_ne_none hr).mono fun a v _ hp => ?_)
    rintro _ rfl -
    obtain ⟨now, rank, -, hv⟩ := hp
    exact ⟨now, rank, hv⟩
  | _ =>
    rw [hcall] at hc
    cases hc

omit [Platform] in
theorem Call.relays_ready {c : Call} (hc : c.relays = true) : c.ready w = true := by
  cases c <;> first | rfl | cases hc

/-- The outbox after relay runs that publish up to `limit` events: that many fewer are pending, what
is not pending any more is published and sent, and it is not younger than what is left. -/
structure Drained (w : World) (limit : ℕ) (v : World) : Prop where
  length : v.pending.length = w.pending.length - limit
  subset : v.pending ⊆ w.pending
  published : ∀ r ∈ w.pending, r ∉ v.pending →
    (∃ r' ∈ v.db.outboxEvents, r'.inserted = r.inserted ∧ r'.publishedAt ≠ none) ∧
      ∃ e ∈ v.log, r.message = some e.2
  order : ∀ r ∈ w.pending, r ∉ v.pending → ∀ x ∈ v.pending, r.createdAt ≤ x.createdAt
  grows : w.db.Grows v.db
  log : w.log <+: v.log

omit [Platform] in
theorem Drained.refl (w : World) : Drained w 0 w :=
  ⟨rfl, fun _ h => h, fun _ h hn => absurd h hn, fun _ h hn => absurd h hn, .refl _,
    List.prefix_rfl⟩

omit [Platform] in
theorem Drained.trans {m n : ℕ} {u v w : World} (h : Drained u m v) (h' : Drained v n w) :
    Drained u (m + n) w where
  length := by
    have := h.length
    have := h'.length
    omega
  subset := fun _ hr => h.subset (h'.subset hr)
  published r hr hn := by
    by_cases hv : r ∈ v.pending
    · exact h'.published r hv hn
    · obtain ⟨⟨x, hx, hi, hp⟩, e, he, hm⟩ := h.published r hr hv
      obtain ⟨y, hy, hi', hp'⟩ := h'.grows.outboxEvents x hx
      exact ⟨⟨y, hy, hi'.trans hi, hp' hp⟩, e, h'.log.subset he, hm⟩
  order r hr hn x hx := by
    by_cases hv : r ∈ v.pending
    · exact h'.order r hv hn x hx
    · exact h.order r hr hv x (h'.subset hx)
  grows := h.grows.trans h'.grows
  log := h.log.trans h'.log

theorem Forwarded.drained {v : World} {now limit : ℕ} {rank : ℕ → ℕ}
    (hids : (w.db.outboxEvents.map (·.eventID)).Nodup)
    (hmsg : ∀ r ∈ w.db.outboxEvents, r.message ≠ none)
    (h : Forwarded t w now ((w.pending.insertionSort (older rank)).take limit) v) :
    Drained w limit v := by
  have hlength := h.length_pending hids
  have hbatch : ∀ r ∈ (w.pending.insertionSort (older rank)).take limit, r ∈ w.pending :=
    fun r hr => (List.mem_insertionSort _).mp (List.mem_of_mem_take hr)
  have holder : ∀ {r x}, r ∈ (w.pending.insertionSort (older rank)).take limit → x ∈ w.pending →
      x ∉ (w.pending.insertionSort (older rank)).take limit → r.createdAt ≤ x.createdAt :=
    older_of_batch
  generalize (w.pending.insertionSort (older rank)).take limit = batch at h hbatch holder
  have hmem : ∀ r, r ∈ v.pending ↔ r ∈ w.pending ∧ r.eventID ∉ batch.map (·.eventID) := fun r => by
    rw [h.pending, List.mem_filter, decide_eq_true_eq]
  -- an event that is not pending any more was in the batch
  have hgone : ∀ r ∈ w.pending, r ∉ v.pending → r ∈ batch := by
    intro r hr hn
    by_contra hnot
    refine hn ((hmem r).mpr ⟨hr, fun hid => ?_⟩)
    obtain ⟨x, hx, he⟩ := List.mem_map.mp hid
    have hrow := (World.mem_pending.mp hr).1
    have hrow' := (World.mem_pending.mp (hbatch x hx)).1
    exact hnot (List.inj_on_of_nodup_map hids hrow' hrow he ▸ hx)
  constructor
  · exact hlength
  · exact fun r hr => ((hmem r).mp hr).1
  · intro r hr hn
    have hrow := (World.mem_pending.mp hr).1
    constructor
    · rw [h.db]
      exact exists_marked hrow (List.mem_map_of_mem (hgone r hr hn))
    · obtain ⟨m, hm⟩ := Option.ne_none_iff_exists'.mp (hmsg r hrow)
      refine ⟨(t, m), ?_, hm⟩
      rw [h.log]
      refine List.mem_append_right _ (List.mem_filterMap.mpr ⟨r, hgone r hr hn, ?_⟩)
      rw [hm]
      rfl
  · intro r hr hn x hx
    refine holder (hgone r hr hn) ((hmem x).mp hx).1 fun hxb => ?_
    exact ((hmem x).mp hx).2 (List.mem_map_of_mem hxb)
  · rw [h.db]
    exact grows_applyAll (marks now batch) w.db
  · rw [h.log]
    exact List.prefix_append _ _

/-- One turn: it can be taken, and however it ends, the outbox has lost a batch. -/
theorem reach_turn (hs : Start w) (h : (system calls).Reach K (Pool.fresh w) s)
    (hc : (calls t).relays = true) (hidle : s.threads t = .idle) :
    (∃ x, (system calls).Reach (Only Choice.Ok t) s x ∧ (x.threads t).result?.isSome = true) ∧
    ∀ x, (system calls).Reach (Only Choice.Ok t) s x → (x.threads t).result?.isSome = true →
      Drained s.world (calls t).batch x.world := by
  have hsafe := safe_alone_relay hs h hc hidle
  constructor
  · obtain ⟨x, o, hr, ho, -⟩ := Machine.exists_reach_only_program (M := system calls) hidle
      (Call.relays_ready hc) hsafe
    exact ⟨x, hr, by rw [ho]; rfl⟩
  · intro x hr ho
    obtain ⟨o, ho⟩ := Option.isSome_iff_exists.mp ho
    obtain ⟨now, rank, hx⟩ := Machine.reach_only_program hidle hsafe hr ho
    have hinv := (reach_good (.any calls w) hs Env.any_allows h).1
    refine hx.drained ?_ fun r hr => hinv.message_ne_none hr
    rw [hinv.db_eq]
    exact hinv.legal.eventIDs hs.eventIDs

/-- From every reachable state, whatever transactions are open, relay runs that follow each other
undisturbed all come to their end, and however they do, they drain the outbox: as many pending
events are published as the batches hold together, the oldest first. -/
theorem outbox_drains (calls : ℕ → Call) {w : World} (hs : Start w) {s : State}
    (h : (system calls).Reach (fun _ _ _ => True) (Pool.fresh w) s) {ts : List ℕ}
    (hnodup : ts.Nodup) (hts : ∀ t ∈ ts, (calls t).relays = true ∧ s.threads t = .idle) :
    (∃ s', InTurn calls ts s s') ∧ ∀ s', InTurn calls ts s s' →
      Drained s.world (ts.map fun t => (calls t).batch).sum s'.world := by
  induction ts generalizing s with
  | nil =>
    refine ⟨⟨s, .nil⟩, ?_⟩
    rintro s' ⟨⟩
    exact .refl _
  | cons t ts ih =>
    obtain ⟨hnot, hnodup⟩ := List.nodup_cons.mp hnodup
    obtain ⟨hc, hidle⟩ := hts t List.mem_cons_self
    obtain ⟨⟨x, hr, hx⟩, hturn⟩ := reach_turn hs h hc hidle
    -- the others have not been started in the meantime
    have hnext : ∀ x, (system calls).Reach (Only Choice.Ok t) s x →
        (∃ s', InTurn calls ts x s') ∧ ∀ s', InTurn calls ts x s' →
          Drained x.world (ts.map fun t => (calls t).batch).sum s'.world := by
      intro x hr
      refine ih (h.trans (hr.mono fun _ _ _ _ => trivial)) hnodup fun u hu => ?_
      obtain ⟨huc, hui⟩ := hts u (List.mem_cons_of_mem t hu)
      refine ⟨huc, (Machine.reach_only_threads hr ?_).trans hui⟩
      rintro rfl
      exact hnot hu
    constructor
    · obtain ⟨s', hs'⟩ := (hnext x hr).1
      exact ⟨s', .cons hr hx hs'⟩
    · rintro s' (_ | ⟨hr, hx, hs'⟩)
      rw [List.map_cons, List.sum_cons]
      exact (hturn _ hr hx).trans ((hnext _ hr).2 s' hs')

end Turns

section Witness

open Plain

def giftCommentsRelays : ℕ → Call
  | 0 => .sendGift ⟨"g1", 2001, 1001, 9001, some 8001, "ROSE", 3, 0⟩
  | 1 => .enqueueComment ⟨"c1", 2001, 1001, 9001⟩
  | 2 => .enqueueComment ⟨"c2", 2002, 1001, 9001⟩
  | _ => .runOnce 1

/-- The gift stops before its commit; two runs publish both comments. -/
theorem outbox_drains_comments : ∃ s s' : State, s.world.store.opened 0 ≠ none ∧
    s.world.pending.length = 2 ∧ InTurn giftCommentsRelays [3, 4] s s' ∧
    s'.world.pending.length = 0 := by
  obtain ⟨s, hr, hp⟩ := Machine.exists_reach (M := system giftCommentsRelays)
    (s := Pool.fresh (World.boot migrated)) (K := fun _ a _ => decide (a.process < 3))
    (p := fun s => decide (s.world.store.opened 0 ≠ none ∧ s.world.pending.length = 2))
    (launch 0 16 5 ++ launch 1 2 6 ++ launch 2 2 7) (by decide +kernel)
  obtain ⟨hopen, hpending⟩ := of_decide_eq_true hp
  have hidle : ∀ t, 3 ≤ t → s.threads t = .idle := fun t ht => hr.untouched fun _ _ _ hk => by
    have := of_decide_eq_true hk
    omega
  obtain ⟨⟨s', hs'⟩, hdrained⟩ := outbox_drains giftCommentsRelays
    (Start.boot rfl rfl rfl rfl : Start (World.boot migrated)) (hr.mono fun _ _ _ _ => trivial)
    (show List.Nodup [3, 4] by decide) (by
      intro t ht
      rcases List.mem_pair.mp ht with rfl | rfl
      · exact ⟨rfl, hidle 3 (by omega)⟩
      · exact ⟨rfl, hidle 4 (by omega)⟩)
  refine ⟨s, s', hopen, hpending, hs', ?_⟩
  rw [(hdrained s' hs').length, hpending]
  rfl

end Witness

end LiveRevenue
