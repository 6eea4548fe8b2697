import LiveRevenue.Spec.Transactions

/-! # What transactions add to the tables

Tables without updates are, after any writes, the old rows followed by the rows the
writes insert. With the rows each kind of transaction inserts this turns every
statement about a history into one about lists.
-/

namespace LiveRevenue

open Transact

namespace Write

@[simp] def walletTx? : Write → Option WalletTx
  | .walletTx r => some r
  | _ => none

@[simp] def walletEntry? : Write → Option WalletEntry
  | .walletEntry r => some r
  | _ => none

@[simp] def rechargeRequest? : Write → Option RechargeRow
  | .rechargeRequest r => some r
  | _ => none

@[simp] def giftOrder? : Write → Option GiftOrder
  | .giftOrder r => some r
  | _ => none

@[simp] def outbox? : Write → Option OutboxRow
  | .outbox r => some r
  | _ => none

@[simp] def published? : Write → Option ℕ
  | .published id _ => some id
  | _ => none

@[simp] def dedupe? : Write → Option DedupeRow
  | .dedupe r => some r
  | _ => none

@[simp] def fanPoint? : Write → Option FanPoint
  | .fanPoint r => some r
  | _ => none

@[simp] def campaignPoint? : Write → Option CampaignPoint
  | .campaignPoint r => some r
  | _ => none

@[simp] def settlementRow? : Write → Option ℕ
  | .settlement id _ => some id
  | .reconciliation id _ => some id
  | _ => none

end Write

theorem inserted_publish (id at_ : ℕ) (r : OutboxRow) :
    (r.publish id at_).inserted = r.inserted := by
  unfold OutboxRow.publish OutboxRow.inserted
  split <;> rfl

section Picks

variable {ρ : Type} {d : DB} {u : ℕ}

theorem filterMap_opening {pick : Write → Option ρ} (h : pick (.openAccount u) = none) :
    (d.opening u).filterMap pick = [] := by
  unfold DB.opening
  split <;> simp [h]

@[simp] theorem opening_picks :
    (d.opening u).filterMap Write.walletTx? = [] ∧
    (d.opening u).filterMap Write.walletEntry? = [] ∧
    (d.opening u).filterMap Write.rechargeRequest? = [] ∧
    (d.opening u).filterMap Write.giftOrder? = [] ∧
    (d.opening u).filterMap Write.outbox? = [] ∧
    (d.opening u).filterMap Write.published? = [] ∧
    (d.opening u).filterMap Write.dedupe? = [] ∧
    (d.opening u).filterMap Write.fanPoint? = [] ∧
    (d.opening u).filterMap Write.campaignPoint? = [] := by
  refine ⟨?_, ?_, ?_, ?_, ?_, ?_, ?_, ?_, ?_⟩ <;> exact filterMap_opening rfl

@[simp] theorem opening_settlementRow : (d.opening u).filterMap Write.settlementRow? = [] :=
  filterMap_opening rfl

@[simp] theorem posting_picks {tx : WalletTx} {counter : String} {delta balance : ℤ} :
    (posting d tx counter delta balance).filterMap Write.walletTx? = [tx] ∧
    (posting d tx counter delta balance).filterMap Write.walletEntry? =
      [⟨tx.txID, userCoins tx.actorUserID, delta⟩, ⟨tx.txID, counter, -delta⟩] ∧
    (posting d tx counter delta balance).filterMap Write.rechargeRequest? = [] ∧
    (posting d tx counter delta balance).filterMap Write.giftOrder? = [] ∧
    (posting d tx counter delta balance).filterMap Write.outbox? = [] ∧
    (posting d tx counter delta balance).filterMap Write.published? = [] ∧
    (posting d tx counter delta balance).filterMap Write.dedupe? = [] ∧
    (posting d tx counter delta balance).filterMap Write.fanPoint? = [] ∧
    (posting d tx counter delta balance).filterMap Write.campaignPoint? = [] := by
  unfold posting
  refine ⟨?_, ?_, ?_, ?_, ?_, ?_, ?_, ?_, ?_⟩ <;>
    rw [List.filterMap_append, filterMap_opening] <;> rfl

@[simp] theorem Closed.picks {id : ℕ} (p : Closed id d) :
    p.writes.filterMap Write.walletTx? = [] ∧
    p.writes.filterMap Write.walletEntry? = [] ∧
    p.writes.filterMap Write.rechargeRequest? = [] ∧
    p.writes.filterMap Write.giftOrder? = [] ∧
    p.writes.filterMap Write.outbox? = [p.event] ∧
    p.writes.filterMap Write.published? = [] ∧
    p.writes.filterMap Write.dedupe? = [] ∧
    p.writes.filterMap Write.fanPoint? = [] ∧
    p.writes.filterMap Write.campaignPoint? = [] := by
  refine ⟨?_, ?_, ?_, ?_, ?_, ?_, ?_, ?_, ?_⟩ <;> rfl

@[simp] theorem Published.picks (p : Published d) :
    p.writes.filterMap Write.walletTx? = [] ∧
    p.writes.filterMap Write.walletEntry? = [] ∧
    p.writes.filterMap Write.rechargeRequest? = [] ∧
    p.writes.filterMap Write.giftOrder? = [] ∧
    p.writes.filterMap Write.outbox? = [] ∧
    p.writes.filterMap Write.published? = p.rows.map (·.eventID) ∧
    p.writes.filterMap Write.dedupe? = [] ∧
    p.writes.filterMap Write.fanPoint? = [] ∧
    p.writes.filterMap Write.campaignPoint? = [] := by
  simp [Published.writes, List.filterMap_map, Function.comp_def]

@[simp] theorem Enqueued.picks {topic key : String} {payloads : List Payload}
    (p : Enqueued topic key payloads d) :
    p.writes.filterMap Write.walletTx? = [] ∧
    p.writes.filterMap Write.walletEntry? = [] ∧
    p.writes.filterMap Write.rechargeRequest? = [] ∧
    p.writes.filterMap Write.giftOrder? = [] ∧
    p.writes.filterMap Write.outbox? = p.rows ∧
    p.writes.filterMap Write.published? = [] ∧
    p.writes.filterMap Write.dedupe? = [] ∧
    p.writes.filterMap Write.fanPoint? = [] ∧
    p.writes.filterMap Write.campaignPoint? = [] := by
  simp [Enqueued.writes, List.filterMap_map, Function.comp_def]

theorem Enqueued.payloads_eq {topic key : String} {payloads : List Payload}
    (p : Enqueued topic key payloads d) : p.rows.map (·.payload) = payloads := by
  have h := congrArg (List.map fun x : String × String × Payload × Option ℕ => x.2.2.1) p.rows_eq
  rw [List.map_map, List.map_map] at h
  exact h.trans (List.map_id' payloads)

theorem Enqueued.row {topic key : String} {payloads : List Payload}
    (p : Enqueued topic key payloads d) {r : OutboxRow} (hr : r ∈ p.rows) :
    r.topic = topic ∧ r.eventKey = key ∧ r.payload ∈ payloads ∧ r.publishedAt = none := by
  have hm := List.mem_map_of_mem (f := fun r => (r.topic, r.eventKey, r.payload, r.publishedAt)) hr
  rw [p.rows_eq] at hm
  obtain ⟨x, hx, he⟩ := List.mem_map.mp hm
  simp only [Prod.mk.injEq] at he
  obtain ⟨rfl, rfl, rfl, h⟩ := he
  exact ⟨rfl, rfl, hx, h.symm⟩

theorem Points.picks {m : Message} {id : ℕ} {ws : List Write} (p : Points m id d ws) :
    ws.filterMap Write.walletTx? = [] ∧
    ws.filterMap Write.walletEntry? = [] ∧
    ws.filterMap Write.rechargeRequest? = [] ∧
    ws.filterMap Write.giftOrder? = [] ∧
    ws.filterMap Write.outbox? = [] ∧
    ws.filterMap Write.published? = [] ∧
    ws.filterMap Write.dedupe? = [] := by
  cases p with
  | gift => simp
  | capped => simp
  | counted => simp

end Picks

variable [Platform]

section Tables

variable {ρ : Type} {ws : List Write} {d : DB}

theorem applyAll_table (table : DB → List ρ) (pick : Write → Option ρ)
    (h : ∀ w d, table (Write.apply d w) = table d ++ (pick w).toList) (ws : List Write) (d : DB) :
    table (applyAll ws d) = table d ++ ws.filterMap pick := by
  induction ws generalizing d with
  | nil => simp
  | cons w ws ih =>
    rw [applyAll_cons, ih, layout_apply, h, List.filterMap_cons]
    cases pick w <;> simp

@[simp] theorem applyAll_walletTxs :
    (applyAll ws d).walletTxs = d.walletTxs ++ ws.filterMap Write.walletTx? :=
  applyAll_table (·.walletTxs) _ (fun w d => by cases w <;> simp [Write.apply]) ws d

@[simp] theorem applyAll_walletEntries :
    (applyAll ws d).walletEntries = d.walletEntries ++ ws.filterMap Write.walletEntry? :=
  applyAll_table (·.walletEntries) _ (fun w d => by cases w <;> simp [Write.apply]) ws d

@[simp] theorem applyAll_rechargeRequests :
    (applyAll ws d).rechargeRequests = d.rechargeRequests ++ ws.filterMap Write.rechargeRequest? :=
  applyAll_table (·.rechargeRequests) _ (fun w d => by cases w <;> simp [Write.apply]) ws d

@[simp] theorem applyAll_giftOrders :
    (applyAll ws d).giftOrders = d.giftOrders ++ ws.filterMap Write.giftOrder? :=
  applyAll_table (·.giftOrders) _ (fun w d => by cases w <;> simp [Write.apply]) ws d

@[simp] theorem applyAll_consumerDedupe :
    (applyAll ws d).consumerDedupe = d.consumerDedupe ++ ws.filterMap Write.dedupe? :=
  applyAll_table (·.consumerDedupe) _ (fun w d => by cases w <;> simp [Write.apply]) ws d

@[simp] theorem applyAll_fanPoints :
    (applyAll ws d).fanPoints = d.fanPoints ++ ws.filterMap Write.fanPoint? :=
  applyAll_table (·.fanPoints) _ (fun w d => by cases w <;> simp [Write.apply]) ws d

@[simp] theorem applyAll_campaignPoints :
    (applyAll ws d).campaignPoints = d.campaignPoints ++ ws.filterMap Write.campaignPoint? :=
  applyAll_table (·.campaignPoints) _ (fun w d => by cases w <;> simp [Write.apply]) ws d

theorem applyAll_inserted : (applyAll ws d).outboxEvents.map (·.inserted) =
    d.outboxEvents.map (·.inserted) ++ (ws.filterMap Write.outbox?).map (·.inserted) := by
  have h := applyAll_table (fun d => d.outboxEvents.map (·.inserted))
    (fun w => w.outbox?.map (·.inserted)) (fun w d => by
      cases w <;> simp [Write.apply, inserted_publish]) ws d
  rw [h, List.map_filterMap]

theorem applyAll_settlementRows {id : ℕ} (hid : id ∉ ws.filterMap Write.settlementRow?) :
    (applyAll ws d).streamSettlements id = d.streamSettlements id ∧
      (applyAll ws d).reconciliations id = d.reconciliations id := by
  induction ws generalizing d with
  | nil => exact ⟨rfl, rfl⟩
  | cons x ws ih =>
    rw [List.filterMap_cons] at hid
    cases x with
    | settlement i r =>
      simp only [Write.settlementRow?, List.mem_cons, not_or] at hid
      rw [applyAll_cons, (ih hid.2).1, (ih hid.2).2]
      exact ⟨Function.update_of_ne hid.1 _ _, rfl⟩
    | reconciliation i r =>
      simp only [Write.settlementRow?, List.mem_cons, not_or] at hid
      rw [applyAll_cons, (ih hid.2).1, (ih hid.2).2]
      exact ⟨rfl, Function.update_of_ne hid.1 _ _⟩
    | _ => exact ih hid

/-- A row of the outbox was there or is inserted, and it is as before unless it is marked. -/
theorem mem_applyAll_outbox {r : OutboxRow} (h : r ∈ (applyAll ws d).outboxEvents) :
    ∃ r' ∈ d.outboxEvents ++ ws.filterMap Write.outbox?, r'.inserted = r.inserted ∧
      (r'.publishedAt = r.publishedAt ∨ ∃ at_, .published r.eventID at_ ∈ ws) := by
  induction ws generalizing d with
  | nil => exact ⟨r, by simpa using h, rfl, .inl rfl⟩
  | cons w ws ih =>
    rw [applyAll_cons, layout_apply] at h
    obtain ⟨r', hr', hi, hp⟩ := ih h
    have hp := hp.imp_right (Exists.imp fun at_ hm => List.mem_cons_of_mem w hm)
    cases w with
    | published id at_ =>
      rcases List.mem_append.mp hr' with hr' | hr'
      · obtain ⟨x, hx, rfl⟩ := List.mem_map.mp hr'
        rw [inserted_publish] at hi
        refine ⟨x, List.mem_append_left _ hx, hi, ?_⟩
        by_cases hid : x.eventID = id
        · refine .inr ⟨at_, ?_⟩
          rw [← (OutboxRow.eq_of_inserted hi).1, hid]
          exact List.mem_cons_self
        · rwa [OutboxRow.publish, if_neg hid] at hp
      · exact ⟨r', List.mem_append_right _ hr', hi, hp⟩
    | outbox x =>
      refine ⟨r', ?_, hi, hp⟩
      simpa [Write.apply, List.filterMap_cons] using hr'
    | _ => exact ⟨r', hr', hi, hp⟩

theorem exists_marked {r : OutboxRow} {at_ : ℕ} (hr : r ∈ d.outboxEvents)
    (hm : .published r.eventID at_ ∈ ws) :
    ∃ r' ∈ (applyAll ws d).outboxEvents, r'.inserted = r.inserted ∧ r'.publishedAt ≠ none := by
  induction ws generalizing d r with
  | nil => cases hm
  | cons w ws ih =>
    rw [applyAll_cons, layout_apply]
    rcases List.mem_cons.mp hm with rfl | hm
    · obtain ⟨r', hr', hi, hp⟩ := (grows_applyAll ws (Write.apply d (.published r.eventID at_))
        ).outboxEvents (r.publish r.eventID at_) (List.mem_map_of_mem hr)
      exact ⟨r', hr', hi.trans (inserted_publish _ _ _), hp (by simp [OutboxRow.publish])⟩
    · obtain ⟨r₁, hr₁, hi₁, -⟩ := (DB.Grows.apply w d).outboxEvents r hr
      rw [← (OutboxRow.eq_of_inserted hi₁).1] at hm
      obtain ⟨r', hr', hi, hp⟩ := ih hr₁ hm
      exact ⟨r', hr', hi.trans hi₁, hp⟩

@[simp] theorem applyAll_users : (applyAll ws d).users = d.users := (grows_applyAll ws d).users

@[simp] theorem applyAll_giftCatalog : (applyAll ws d).giftCatalog = d.giftCatalog :=
  (grows_applyAll ws d).giftCatalog

@[simp] theorem applyAll_liveMatches : (applyAll ws d).liveMatches = d.liveMatches :=
  (grows_applyAll ws d).liveMatches

end Tables

section Histories

variable {d : DB} {h h' : History} {t : ℕ} {ws : List Write}

@[simp] theorem dbAt_nil : dbAt d [] = d := rfl

@[simp] theorem dbAt_append : dbAt d (h ++ h') = dbAt (dbAt d h) h' := List.foldl_append

@[simp] theorem dbAt_singleton : dbAt d [(t, ws)] = applyAll ws d := rfl

theorem dbAt_snoc : dbAt d (h ++ [(t, ws)]) = applyAll ws (dbAt d h) := by simp

theorem grows_dbAt (d : DB) (h : History) : d.Grows (dbAt d h) := by
  induction h generalizing d with
  | nil => exact .refl d
  | cons e h ih => exact (grows_applyAll e.2 d).trans (ih _)

theorem dbAt_grows (hp : h <+: h') : (dbAt d h).Grows (dbAt d h') := by
  obtain ⟨k, rfl⟩ := hp
  rw [dbAt_append]
  exact grows_dbAt _ k

theorem dbAt_inserted (hp : h <+: h') : (dbAt d h).outboxEvents.map (·.inserted) <+:
    (dbAt d h').outboxEvents.map (·.inserted) := by
  obtain ⟨k, rfl⟩ := hp
  rw [dbAt_append]
  generalize dbAt d h = d'
  induction k generalizing d' with
  | nil => exact List.prefix_rfl
  | cons e k ih =>
    refine List.IsPrefix.trans ?_ (ih (applyAll e.2 d'))
    rw [applyAll_inserted]
    exact List.prefix_append _ _

theorem exists_grows_of_mem {e : ℕ × List Write} (he : e ∈ h) :
    ∃ h₁, (applyAll e.2 (dbAt d h₁)).Grows (dbAt d h) := by
  obtain ⟨h₁, h₂, rfl⟩ := List.append_of_mem he
  refine ⟨h₁, ?_⟩
  rw [dbAt_append]
  exact grows_dbAt _ h₂

theorem Legal.at {calls : ℕ → Call} (hl : Legal calls d h) {e : ℕ × List Write} (he : e ∈ h) :
    ∃ h₁ h₂, h = h₁ ++ e :: h₂ ∧ Legal calls d h₁ ∧ Txn d h₁ (calls e.1) e.2 := by
  induction hl with
  | nil => cases he
  | @snoc h t ws hl ht ih =>
    rcases List.mem_append.mp he with he | he
    · obtain ⟨h₁, h₂, rfl, hl₁, ht₁⟩ := ih he
      exact ⟨h₁, h₂ ++ [(t, ws)], by simp, hl₁, ht₁⟩
    · rw [List.mem_singleton] at he
      subst he
      exact ⟨h, [], rfl, hl, ht⟩

theorem Legal.last {calls : ℕ → Call} {t : ℕ} {ws : List Write}
    (hl : Legal calls d (h ++ [(t, ws)])) :
    Txn d h (calls t) ws := by
  generalize hh : h ++ [(t, ws)] = h' at hl
  cases hl with
  | nil => simp at hh
  | snoc _ ht =>
    obtain ⟨rfl, he⟩ := List.append_inj' hh rfl
    cases he
    exact ht

theorem Legal.earlier {calls : ℕ → Call} (hl : Legal calls d h) (hp : h' <+: h) :
    Legal calls d h' := by
  induction hl with
  | nil =>
    rw [List.prefix_nil.mp hp]
    exact .nil
  | snoc hl ht ih =>
    rcases List.prefix_concat_iff.mp hp with rfl | hp
    · exact .snoc hl ht
    · exact ih hp

end Histories

section Picks

variable {d : DB}

@[simp] theorem Recharged.picks {req : RechargeRequest} (p : Recharged req d) :
    p.writes.filterMap Write.walletTx? = [p.tx] ∧
    p.writes.filterMap Write.walletEntry? = [⟨p.txID, userCoins req.viewerID, req.coins⟩,
      ⟨p.txID, "SYSTEM_TOPUP_SOURCE", -req.coins⟩] ∧
    p.writes.filterMap Write.rechargeRequest? = [p.request] ∧
    p.writes.filterMap Write.giftOrder? = [] ∧
    p.writes.filterMap Write.outbox? = [p.event] ∧
    p.writes.filterMap Write.published? = [] ∧
    p.writes.filterMap Write.dedupe? = [] ∧
    p.writes.filterMap Write.fanPoint? = [] ∧
    p.writes.filterMap Write.campaignPoint? = [] := by
  unfold Recharged.writes
  refine ⟨?_, ?_, ?_, ?_, ?_, ?_, ?_, ?_, ?_⟩ <;>
    simp [List.filterMap_append, List.filterMap_cons, Recharged.tx]

@[simp] theorem Accepted.picks {req : GiftRequest} (p : Accepted req d) :
    p.writes.filterMap Write.walletTx? = [p.tx] ∧
    p.writes.filterMap Write.walletEntry? = [⟨p.txID, userCoins req.viewerID, -p.amounts.charged⟩,
      ⟨p.txID, "PLATFORM_RESERVED_COINS", p.amounts.charged⟩] ∧
    p.writes.filterMap Write.rechargeRequest? = [] ∧
    p.writes.filterMap Write.giftOrder? = [p.order] ∧
    p.writes.filterMap Write.outbox? = [p.walletEvent, p.giftEvent] ∧
    p.writes.filterMap Write.published? = [] ∧
    p.writes.filterMap Write.dedupe? = [] ∧
    p.writes.filterMap Write.fanPoint? = [] ∧
    p.writes.filterMap Write.campaignPoint? = [] := by
  unfold Accepted.writes
  refine ⟨?_, ?_, ?_, ?_, ?_, ?_, ?_, ?_, ?_⟩ <;>
    simp [List.filterMap_append, List.filterMap_cons, Accepted.tx]

@[simp] theorem Rejected.picks {req : GiftRequest} (p : Rejected req d) :
    p.writes.filterMap Write.walletTx? = [] ∧
    p.writes.filterMap Write.walletEntry? = [] ∧
    p.writes.filterMap Write.rechargeRequest? = [] ∧
    p.writes.filterMap Write.giftOrder? = [p.order] ∧
    p.writes.filterMap Write.outbox? = [p.event] ∧
    p.writes.filterMap Write.published? = [] ∧
    p.writes.filterMap Write.dedupe? = [] ∧
    p.writes.filterMap Write.fanPoint? = [] ∧
    p.writes.filterMap Write.campaignPoint? = [] := by
  unfold Rejected.writes
  split <;> simp [List.filterMap_append, List.filterMap_cons]

@[simp] theorem Settled.picks {id : ℕ} {h : History} (p : Settled id d h) :
    p.writes.filterMap Write.walletTx? = [] ∧
    p.writes.filterMap Write.walletEntry? = [] ∧
    p.writes.filterMap Write.rechargeRequest? = [] ∧
    p.writes.filterMap Write.giftOrder? = [] ∧
    p.writes.filterMap Write.outbox? = [] ∧
    p.writes.filterMap Write.published? = [] ∧
    p.writes.filterMap Write.dedupe? = [] ∧
    p.writes.filterMap Write.fanPoint? = [] ∧
    p.writes.filterMap Write.campaignPoint? = [] := by
  refine ⟨?_, ?_, ?_, ?_, ?_, ?_, ?_, ?_, ?_⟩ <;> rfl

end Picks

end LiveRevenue
