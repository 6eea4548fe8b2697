import LiveRevenue.Proof.Outside

/-! # The relay marks what it has sent

The locks of the batch hold its rows unpublished to the end of the transaction;
along the loop every marked row has been sent by the same run. Generated ids fit the
buffer of `formatUint`, so a batch fails only where a command does.
-/

namespace LiveRevenue

open Transact

/-- A relay that returns `n` has marked `n` rows and sent each of them; one that fails has
marked none, unless the answer to its `COMMIT` got lost. Unless a command may fail, all it has
sent is marked. -/
def RelayPost (𝓔 : Env) (t : ℕ) (r : Except Err ℕ) (w : World) : Prop :=
  (w.AllMarked t w.db ∨ 𝓔.Failing t) ∧ match r with
  | .ok n => ∃ d : DB, d.Grows w.db ∧ ∃ p : Published d, w.store.committedBy t = [p.writes] ∧
      p.rows.length = n ∧ ∀ r ∈ p.rows, ∃ m ∈ w.sentBy t, r.message = some m
  | .error _ => w.store.committedBy t = [] ∨ 𝓔.Losing t

namespace World

variable {t : ℕ} {w w' : World} {d d' : DB} {rows : List OutboxRow}

theorem HasSent.sent (h : w.HasSent t rows) {r : OutboxRow} (hr : r ∈ rows) :
    ∃ m ∈ w.sentBy t, r.message = some m := by
  have hm : r.message ∈ (w.sentBy t).map some := h ▸ List.mem_map_of_mem hr
  obtain ⟨m, hm, he⟩ := List.mem_map.mp hm
  exact ⟨m, hm, he.symm⟩

theorem HasSent.row (h : w.HasSent t rows) {m : Message} (hm : m ∈ w.sentBy t) :
    ∃ r ∈ rows, r.message = some m := by
  have hr : some m ∈ rows.map (·.message) := h ▸ List.mem_map_of_mem hm
  exact List.mem_map.mp hr

theorem HasSent.later (h : w.HasSent t rows) (hl : w'.sentBy t = w.sentBy t) :
    w'.HasSent t rows := by
  unfold HasSent
  rw [hl]
  exact h

theorem AllMarked.mono (h : w.AllMarked t d) (hl : w'.sentBy t = w.sentBy t) (hg : d.Grows d') :
    w'.AllMarked t d' := by
  intro m hm
  obtain ⟨r, hr, he, hp⟩ := h m (hl ▸ hm)
  obtain ⟨r', hr', hi, hp'⟩ := hg.outboxEvents r hr
  exact ⟨r', hr', (message_congr hi).trans he, hp' hp⟩

theorem HasSent.allMarked (h : w.HasSent t []) : w.AllMarked t d := by
  intro m hm
  obtain ⟨r, hr, -⟩ := h.row hm
  cases hr

end World

theorem outboxBatch_spec {d : DB} {busy : Lock → Bool} {rank : ℕ → ℕ} {limit : ℕ}
    (hd : (d.outboxEvents.map (·.eventID)).Nodup) :
    (∀ r ∈ d.outboxBatch busy rank limit, r ∈ d.outboxEvents ∧ r.publishedAt = none) ∧
    ((d.outboxBatch busy rank limit).map (·.eventID)).Nodup := by
  unfold DB.outboxBatch
  refine ⟨fun r hr => ?_, ?_⟩
  · have hm := (List.mem_insertionSort _).mp (List.mem_of_mem_take hr)
    obtain ⟨hm, hp⟩ := List.mem_filter.mp hm
    simp only [decide_eq_true_eq] at hp
    exact ⟨hm, hp.1⟩
  · refine ((List.take_sublist _ _).map _).nodup ?_
    rw [((List.perm_insertionSort _ _).map _).nodup_iff]
    exact ((List.filter_sublist).map _).nodup hd

variable [Platform] {𝓔 : Env} {t : ℕ} {w : World}

theorem runs_send {ε : Type} {E : ε → World → Prop} {f : SqlErr → ε} {m : Message}
    {ws : List Write} {pins : List (Lock × DB)} {Q : Unit → World → Prop} (own : Own t ws pins w)
    (hrow : ∀ u, At 𝓔 t ws pins w u → ∃ r ∈ u.db.outboxEvents, r.message = some m ∧ Picked 𝓔 t r u)
    (herr : ∀ v, 𝓔.Failing t → v.store.committedBy t = [] → E (f .infra) v)
    (hok : ∀ v, Own t ws pins v → w.store.binlog <+: v.store.binlog →
      v.sentBy t = w.sentBy t ++ [m] → Q () v) :
    Runs 𝓔.logic t (sendDo f m) Q E w := by
  refine Runs.bind fun u hu hi => ⟨fun _ => dead_of_fresh (own.rely hu).committed, ?_⟩
  rintro r u' ⟨ch, hch, hex, -⟩
  have hau : At 𝓔 t ws pins w u := own.at hu hi
  have hown : Own t ws pins (u.addLog t m) :=
    ⟨hau.own.opened, hau.own.committed, hau.own.pushed, hau.own.pinned, hau.own.unlocked⟩
  have hguar : Guar 𝓔 t u (u.addLog t m) := by
    obtain ⟨r, hr, hm, hp⟩ := hrow u hau
    exact ⟨.inl ⟨rfl, rfl⟩, .inr ⟨r, hr, m, hm, rfl, hp⟩, .inl rfl, .inl rfl,
      .inr fun _ h => .inl h, fun _ h h' => absurd h' h, .inl rfl⟩
  cases ch with
  | ok n rank =>
    cases hex
    refine ⟨hguar, fun v hv _ => Runs.pure fun x hx _ => ?_⟩
    refine hok x (hown.rely (hv.trans hx)) (hu.binlog.trans (hv.trans hx).binlog)
      ((hv.trans hx).sent.trans ?_)
    rw [← hu.sent]
    simp [World.sentBy, World.addLog, List.filterMap_append]
  | fault applied =>
    cases hex
    have hcommit : ∀ v, 𝓔.Rely t (if applied then u.addLog t m else u) v →
        v.store.committedBy t = [] := fun v hv => by
      refine hv.store.committed.trans (Eq.trans ?_ hau.own.committed)
      split <;> rfl
    refine ⟨?_, fun v hv _ => Runs.throw fun x hx _ =>
      herr x ⟨.send m, applied, u, rfl, hch⟩ (hcommit x (hv.trans hx))⟩
    split
    · exact hguar
    · exact .silent rfl rfl rfl rfl rfl (fun _ h => h) id

section Loop

def marks (now : ℕ) (rows : List OutboxRow) : List Write :=
  rows.map fun r => .published r.eventID now

def batchPins (d : DB) (rows : List OutboxRow) : List (Lock × DB) :=
  rows.map fun r => (.outbox r.eventID, d)

/-- The rows that the relay `t` read in world `u`. -/
def Batch (𝓔 : Env) (t : ℕ) (u : World) (rows : List OutboxRow) : Prop :=
  Inv 𝓔 u ∧ (𝓔.calls t).relays = true ∧ u.store.opened t ≠ none ∧ ∃ limit n rank,
    𝓔.permit t (.sql (.selectOutboxBatch limit)) (.ok n rank) u ∧
    u.db.outboxBatch (u.store.busy t) rank limit = rows

variable {d : DB} {rows : List OutboxRow} {u : World}

theorem Batch.picked (hb : Batch 𝓔 t u rows) {sent todo : List OutboxRow} {r : OutboxRow}
    (hrows : rows = sent ++ r :: todo) (hl : u.store.binlog <+: w.store.binlog)
    (hh : w.store.holder (.outbox r.eventID) = some t) (hsent : w.HasSent t sent) :
    Picked 𝓔 t r w := by
  obtain ⟨hi, hrel, ho, limit, n, rank, hp, hq⟩ := hb
  exact ⟨u, limit, n, rank, sent, todo, hi, hl, hrel, ho, hp, hq.trans hrows, hh, hsent⟩

theorem Inv.message_ne_none (hi : Inv 𝓔 w) {r : OutboxRow} (hr : r ∈ w.db.outboxEvents) :
    r.message ≠ none := by
  rw [r.message_eq (hi.engine.below.outboxEvents r hr).2.2]
  exact nofun

theorem Own.batchRow {ws : List Write} (own : Own t ws (batchPins d rows) w) {r : OutboxRow}
    (hr : r ∈ rows) (hm : r ∈ d.outboxEvents) : r ∈ w.db.outboxEvents :=
  ((own.pinned (.outbox r.eventID, d) (List.mem_map.mpr ⟨r, hr, rfl⟩)).2.1 r rfl).mpr hm

theorem Own.batchHeld {ws : List Write} (own : Own t ws (batchPins d rows) w) {r : OutboxRow}
    (hr : r ∈ rows) : w.store.holder (.outbox r.eventID) = some t :=
  (own.pinned (.outbox r.eventID, d) (List.mem_map.mpr ⟨r, hr, rfl⟩)).1

theorem failing_update {ws : List Write} {at_ id : ℕ} {e : SqlErr}
    (h : Fails 𝓔 t ws (.updatePublished at_ id) w e) : 𝓔.Failing t := by
  cases h with
  | fault hp => exact ⟨_, _, _, rfl, hp⟩
  | error _ he =>
    simp only [World.effect, Stmt.run] at he
    split at he <;> cases he

/-- The batch loop, with the rows `sent` behind it. -/
theorem runs_publishRows {n : ℤ} {now : ℕ} (hc : 𝓔.calls t = .runOnce n) (hb : Batch 𝓔 t u rows)
    (sent : List OutboxRow) {todo : List OutboxRow} (hrows : rows = sent ++ todo)
    (hmem : ∀ r ∈ rows, r ∈ d.outboxEvents) (hl : u.store.binlog <+: w.store.binlog)
    (own : Own t (marks now sent) (batchPins d rows) w) (hsent : w.HasSent t sent) :
    Runs 𝓔.logic t (publishRows now todo)
      (fun _ v => Own t (marks now rows) (batchPins d rows) v ∧ v.HasSent t rows)
      (RelayPost 𝓔 t) w := by
  induction todo generalizing sent w with
  | nil =>
    rw [List.append_nil] at hrows
    subst hrows
    exact Runs.pure fun v hv _ => ⟨own.rely hv, hsent.later hv.sent⟩
  | cons e es ih =>
    have he : e ∈ rows := by simp [hrows]
    unfold publishRows
    split
    · next hnone =>
      refine Runs.throw fun v hv hi => ?_
      exact absurd hnone (hi.message_ne_none ((own.rely hv).batchRow he (hmem e he)))
    · next m hm =>
      refine Runs.bind (runs_send own (fun y hy => ⟨e, hy.own.batchRow he (hmem e he), hm,
        hb.picked hrows (hl.trans hy.later.binlog) (hy.own.batchHeld he)
          (hsent.later hy.later.sent)⟩)
        (fun v hf hv => ⟨.inr hf, .inl hv⟩) fun v own hlater hlog => ?_)
      refine Runs.bind (runs_txDo own (fun _ => by rw [hc]; rfl) (fun _ y _ _ hf hv => ?_)
        fun _ _ _ y x hy _ _ hx => ?_)
      · exact ⟨.inr (failing_update hf), .inl hv.own.committed⟩
      have hex : ∃ r ∈ (applyAll (marks now sent) y.db).outboxEvents, r.eventID = e.eventID := by
        obtain ⟨r, hr, hi, -⟩ := (grows_applyAll (marks now sent) y.db).outboxEvents e
          (hy.own.batchRow he (hmem e he))
        exact ⟨r, hr, (OutboxRow.eq_of_inserted hi).1⟩
      have hx := hy.after hx (run_updatePublished hex) [] (by simp)
      refine ih (sent ++ [e]) (by simp [hrows]) ((hl.trans hlater).trans hx.later.binlog)
        (by simpa [marks] using hx.own) ?_
      rw [World.HasSent, hx.later.sent, hlog, List.map_append, List.map_append, hsent]
      simp [hm]

theorem Inv.published {u : World} {n : ℤ} (hi : Inv 𝓔 u) (hc : 𝓔.calls t = .runOnce n)
    (p : Published u.db) : Txn 𝓔.start.db u.store.binlog (𝓔.calls t) p.writes := by
  rw [hc]
  exact hi.txn (P := Published) (W := fun _ p => p.writes) .published p

theorem runs_commit_batch {n : ℤ} (now : ℕ) (rows : List OutboxRow)
    (hc : 𝓔.calls t = .runOnce n)
    (hmem : ∀ r ∈ rows, r ∈ d.outboxEvents ∧ r.publishedAt = none)
    (hnodup : (rows.map (·.eventID)).Nodup) (own : Own t (marks now rows) (batchPins d rows) w)
    (hsent : w.HasSent t rows) :
    Runs 𝓔.logic t (commitTx retFail >>= fun _ => pure (.ok rows.length)) (RelayPost 𝓔 t)
      (RelayPost 𝓔 t) w := by
  refine runs_commit_return own
    (fun _ _ _ _ _ hf _ _ _ hd => ⟨.inr ⟨_, _, _, rfl, hf⟩, hd.unless_lost hf⟩) fun x hx => ?_
  let p : Published x.db := ⟨rows, now, fun r hr =>
    ⟨hx.own.batchRow hr (hmem r hr).1, (hmem r hr).2⟩, hnodup⟩
  have hp : x.HasSent t rows := hsent.later hx.later.sent
  have hmarked : x.AllMarked t (applyAll p.writes x.db) := by
    intro m hm
    obtain ⟨r, hr, he⟩ := hp.row hm
    obtain ⟨r', hr', hi, hpub⟩ : ∃ r' ∈ (applyAll p.writes x.db).outboxEvents,
        r'.inserted = r.inserted ∧ r'.publishedAt ≠ none :=
      exists_marked (p.mem r hr).1 (List.mem_map_of_mem hr)
    exact ⟨r', hr', (message_congr hi).trans he, hpub⟩
  refine ⟨p.writes, rfl, hx.inv.published hc p, ⟨fun id at_ hm => ?_, fun _ => hmarked,
    fun _ _ hm => by simp [Published.writes] at hm, fun _ hm => by simp [Published.writes] at hm⟩,
    fun v _ hl hg hd => ⟨.inl (hmarked.mono hl.sent hg), x.db, hl.grows, p, hd.committed, rfl,
      fun r hr => (hp.later hl.sent).sent hr⟩⟩
  obtain ⟨r, hr, he⟩ := List.mem_map.mp hm
  cases he
  exact ⟨r, (p.mem r hr).1, rfl, hp.sent hr⟩

end Loop

theorem runs_relayTx {n : ℤ} (hc : 𝓔.calls t = .runOnce n)
    (hids : (𝓔.start.db.outboxEvents.map (·.eventID)).Nodup) (own : Own t [] [] w)
    (hnone : w.HasSent t []) :
    Runs 𝓔.logic t (relayTx n) (RelayPost 𝓔 t) (RelayPost 𝓔 t) w := by
  unfold relayTx
  refine Runs.bind (runs_txDo own (fun _ => by rw [hc]; rfl) (fun _ u v hu _ hv => ?_)
    fun rows _ rank u v hu hp hr hv => ?_)
  · exact ⟨.inl ((hnone.later hu.later.sent).later hv.later.sent).allMarked, .inl hv.own.committed⟩
  have hu' := hu.inv.legal.eventIDs hids
  rw [← hu.inv.db_eq] at hu'
  have hrows : u.db.outboxBatch (u.store.busy t) rank (relayBatch n) = rows := by
    simpa [World.effect, Stmt.run] using hr
  obtain ⟨hmem, hnodup⟩ : (∀ r ∈ rows, r ∈ u.db.outboxEvents ∧ r.publishedAt = none) ∧
      (rows.map (·.eventID)).Nodup := hrows ▸ outboxBatch_spec hu'
  have hl : u.store.binlog <+: v.store.binlog := hv.later.binlog
  have hv : At 𝓔 t [] (batchPins u.db rows) w v := by
    have hw : (u.effect t [] (.selectOutboxBatch (relayBatch n)) rank).writes = [] := rfl
    have := hu.after hv hw (rows.map fun r => .outbox r.eventID) (by
      simp [World.effect, Stmt.run, hrows])
    simpa [batchPins, Function.comp_def] using this
  have hb : Batch 𝓔 t u rows := ⟨hu.inv, by rw [hc]; rfl, by simp [hu.own.opened], _, _, rank,
    hp, hrows⟩
  split
  · next h0 =>
    obtain rfl := List.length_eq_zero_iff.mp h0
    exact runs_commit_batch 0 [] hc hmem hnodup hv.own (hnone.later hv.later.sent)
  · refine Runs.bind (runs_now hv.own fun now x hx => ?_)
    refine Runs.seq (runs_publishRows hc hb [] rfl (fun r hr => (hmem r hr).1)
      (hl.trans hx.later.binlog) hx.own ((hnone.later hv.later.sent).later hx.later.sent))
      fun _ x _ hx => ?_
    exact runs_commit_batch now rows hc hmem hnodup hx.1 hx.2

theorem safe_runOnce {n : ℤ} (hc : 𝓔.calls t = .runOnce n)
    (hids : (𝓔.start.db.outboxEvents.map (·.eventID)).Nodup)
    (hfresh : w.store.committedBy t = [] ∧ w.aofBy t = []) (hnone : w.HasSent t []) :
    Safe 𝓔.logic t (RelayPost 𝓔 t) (runOnce n) w := by
  refine safe_withTx hfresh
    (fun _ _ _ _ _ hl hcv _ => ⟨.inl (hnone.later hl.sent).allMarked, .inl hcv⟩)
    (fun v hv => runs_relayTx hc hids hv.own (hnone.later hv.later.sent)) (fun r v _ _ => ?_)
    (fun _ _ _ h => h.1) fun r v v' _ hl hcv h => ⟨h.1.imp_left (·.mono hl.sent hl.grows), ?_⟩
  · unfold Dead
    rw [hc]
    trivial
  · cases r with
    | error e => exact h.2.imp_left hcv.trans
    | ok n =>
      obtain ⟨-, d, hg, p, hp, hn, hs⟩ := h
      exact ⟨d, hg.trans hl.grows, p, hcv.trans hp, hn, hl.sent ▸ hs⟩

end LiveRevenue
