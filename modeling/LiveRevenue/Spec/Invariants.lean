import LiveRevenue.Spec.Effects

/-! # Invariants of legal histories

Which transaction a row comes from, and what follows for the tables of every legal
history: debits and accepted orders come in pairs, request rows have their
transaction, keys stay unique.
-/

namespace LiveRevenue

open Transact

variable [Platform] {d : DB} {h : History} {c : Call} {ws : List Write}

section Origins

theorem Txn.of_walletTx (ht : Txn d h c ws) {x : WalletTx} (hx : x ∈ ws.filterMap Write.walletTx?) :
    (∃ req, ∃ p : Recharged req (dbAt d h), c = .recharge req ∧ ws = p.writes ∧ x = p.tx) ∨
    ∃ req, ∃ p : Accepted req (dbAt d h), c = .sendGift req ∧ ws = p.writes ∧ x = p.tx := by
  cases ht with
  | recharged p => exact .inl ⟨_, p, rfl, rfl, by simpa using hx⟩
  | accepted p => exact .inr ⟨_, p, rfl, rfl, by simpa using hx⟩
  | points p _ hp => simp [List.filterMap_cons, hp.picks.1] at hx
  | _ => simp at hx

theorem Txn.locks_wallet (ht : Txn d h c ws) {x : WalletTx}
    (hx : x ∈ ws.filterMap Write.walletTx?) : .wallet x.actorUserID ∈ ws.flatMap Write.locks := by
  have hset : ∀ {tx counter delta balance} {vs : List Write},
      .wallet tx.actorUserID ∈
        (posting (dbAt d h) tx counter delta balance ++ vs).flatMap Write.locks :=
    fun {tx _ _ balance _} => List.mem_flatMap.mpr
      ⟨.setBalance tx.actorUserID balance, by simp [posting], List.mem_singleton_self _⟩
  rcases ht.of_walletTx hx with ⟨req, p, -, rfl, rfl⟩ | ⟨req, p, -, rfl, rfl⟩
  · exact hset
  · exact hset

theorem Txn.of_giftOrder (ht : Txn d h c ws) {o : GiftOrder}
    (ho : o ∈ ws.filterMap Write.giftOrder?) :
    (∃ req, ∃ p : Accepted req (dbAt d h), c = .sendGift req ∧ ws = p.writes ∧ o = p.order) ∨
    ∃ req, ∃ p : Rejected req (dbAt d h), c = .sendGift req ∧ ws = p.writes ∧ o = p.order := by
  cases ht with
  | accepted p => exact .inl ⟨_, p, rfl, rfl, by simpa using ho⟩
  | rejected p => exact .inr ⟨_, p, rfl, rfl, by simpa using ho⟩
  | points p _ hp => simp [List.filterMap_cons, hp.picks.2.2.2.1] at ho
  | _ => simp at ho

theorem Txn.newOrder (ht : Txn d h c ws) {o : GiftOrder} (ho : o ∈ ws.filterMap Write.giftOrder?) :
    (dbAt d h).NewOrder o := by
  rcases ht.of_giftOrder ho with ⟨_, p, -, -, rfl⟩ | ⟨_, p, -, -, rfl⟩
  · exact p.newOrder
  · exact p.newOrder

theorem Txn.of_rechargeRequest (ht : Txn d h c ws) {r : RechargeRow}
    (hr : r ∈ ws.filterMap Write.rechargeRequest?) :
    ∃ req, ∃ p : Recharged req (dbAt d h), c = .recharge req ∧ ws = p.writes ∧ r = p.request := by
  cases ht with
  | recharged p => exact ⟨_, p, rfl, rfl, by simpa using hr⟩
  | points p _ hp => simp [List.filterMap_cons, hp.picks.2.2.1] at hr
  | _ => simp at hr

/-- Where an event comes from. -/
inductive Emits (d : DB) (h : History) (ws : List Write) (r : OutboxRow) : Call → Prop where
  | recharged {req : RechargeRequest} (p : Recharged req (dbAt d h)) :
      ws = p.writes → r = p.event → Emits d h ws r (.recharge req)
  | rejected {req : GiftRequest} (p : Rejected req (dbAt d h)) :
      ws = p.writes → r = p.event → Emits d h ws r (.sendGift req)
  | debited {req : GiftRequest} (p : Accepted req (dbAt d h)) :
      ws = p.writes → r = p.walletEvent → Emits d h ws r (.sendGift req)
  | accepted {req : GiftRequest} (p : Accepted req (dbAt d h)) :
      ws = p.writes → r = p.giftEvent → Emits d h ws r (.sendGift req)
  | closed {id : ℕ} (p : Closed id (dbAt d h)) :
      ws = p.writes → r = p.event → Emits d h ws r (.closeLiveSession id)
  | commented {req : InternalCommentRequest}
      (p : Enqueued commentTopic (toString req.liveSessionID) [req.payload] (dbAt d h)) :
      ws = p.writes → r ∈ p.rows → Emits d h ws r (.enqueueComment req)
  | watched {req : InternalWatchMinutesRequest}
      (p : Enqueued watchMinuteTopic (toString req.liveSessionID) req.payloads (dbAt d h)) :
      ws = p.writes → r ∈ p.rows → Emits d h ws r (.enqueueWatchMinutes req)

theorem Txn.of_outbox (ht : Txn d h c ws) {r : OutboxRow} (hr : r ∈ ws.filterMap Write.outbox?) :
    Emits d h ws r c := by
  cases ht with
  | recharged p => exact .recharged p rfl (by simpa using hr)
  | rejected p => exact .rejected p rfl (by simpa using hr)
  | accepted p =>
    rw [p.picks.2.2.2.2.1] at hr
    rcases List.mem_pair.mp hr with rfl | rfl
    · exact .debited p rfl rfl
    · exact .accepted p rfl rfl
  | closed p => exact .closed p rfl (by simpa using hr)
  | commented p => exact .commented p rfl (by simpa using hr)
  | watched p => exact .watched p rfl (by simpa using hr)
  | points p _ hp => simp [List.filterMap_cons, hp.picks.2.2.2.2.1] at hr
  | _ => simp at hr

inductive Settles (d : DB) (h : History) (id : ℕ) (ws : List Write) : Call → Prop where
  | asked (p : Settled id d h) : ws = p.writes → Settles d h id ws (.generateSettlement id)
  | announced {m : Message} {evt : LiveSessionClosedV1} (p : Settled id d h) : ws = p.writes →
      m.topic = sessionClosedTopic → m.value.unmarshalSessionClosed = some evt →
      evt.liveSessionID = id → (∃ r ∈ (dbAt d p.read).outboxEvents, r.message = some m) →
      Settles d h id ws (.settlement m)

theorem Settles.settled {id : ℕ} (hs : Settles d h id ws c) :
    ∃ p : Settled id d h, ws = p.writes := by
  cases hs with
  | asked p hw => exact ⟨p, hw⟩
  | announced p hw => exact ⟨p, hw⟩

theorem Txn.of_settlementRow (ht : Txn d h c ws) {id : ℕ}
    (hid : id ∈ ws.filterMap Write.settlementRow?) : Settles d h id ws c := by
  cases ht with
  | settled p =>
    obtain rfl : id = _ := by simpa [Settled.writes] using hid
    exact .asked p rfl
  | settledBy p htopic hu hr =>
    obtain rfl : id = _ := by simpa [Settled.writes] using hid
    exact .announced p rfl htopic hu rfl hr
  | recharged p =>
    simp [Recharged.writes, posting, List.filterMap_append, List.filterMap_cons] at hid
  | accepted p =>
    simp [Accepted.writes, posting, List.filterMap_append, List.filterMap_cons] at hid
  | rejected p =>
    simp only [Rejected.writes, List.filterMap_append] at hid
    split at hid <;> simp at hid
  | points p _ hp => cases hp <;> simp [List.filterMap_cons] at hid
  | published p => simp [Published.writes] at hid
  | closed p => simp [Closed.writes] at hid
  | commented p => simp [Enqueued.writes] at hid
  | watched p => simp [Enqueued.writes] at hid
  | _ => simp at hid

theorem Emits.newEvent {r : OutboxRow} (he : Emits d h ws r c) : (dbAt d h).NewEvent r.eventID := by
  cases he with
  | recharged p _ hr => exact hr ▸ p.newEvent
  | rejected p _ hr => exact hr ▸ p.newEvent
  | debited p _ hr => exact hr ▸ p.newWalletEvent
  | accepted p _ hr => exact hr ▸ p.newGiftEvent
  | closed p _ hr => exact hr ▸ p.newEvent
  | commented p _ hr => exact p.newEvents r hr
  | watched p _ hr => exact p.newEvents r hr

theorem Emits.unpublished {r : OutboxRow} (he : Emits d h ws r c) : r.publishedAt = none := by
  cases he with
  | commented p _ hr => exact (p.row hr).2.2.2
  | watched p _ hr => exact (p.row hr).2.2.2
  | _ => subst_vars; rfl

theorem Txn.eventIDs (ht : Txn d h c ws) :
    ((ws.filterMap Write.outbox?).map (·.eventID)).Nodup := by
  cases ht with
  | accepted p =>
    rw [p.picks.2.2.2.2.1]
    refine List.nodup_cons.mpr ⟨fun hm => ?_, List.nodup_singleton _⟩
    exact p.events_ne (List.mem_singleton.mp hm)
  | commented p => exact p.picks.2.2.2.2.1 ▸ p.nodup
  | watched p => exact p.picks.2.2.2.2.1 ▸ p.nodup
  | points p _ hp => simp [List.filterMap_cons, hp.picks.2.2.2.2.1]
  | _ => simp [List.filterMap_cons]

theorem Txn.of_dedupe (ht : Txn d h c ws) {r : DedupeRow} (hr : r ∈ ws.filterMap Write.dedupe?) :
    (∀ r' ∈ (dbAt d h).consumerDedupe, r'.lock ≠ r.lock) ∧
    ((∃ m, c = .leaderboard m ∧ r.lock = .dedupe leaderboardConsumer (extractEventID m) ∧
        ws = [.dedupe r]) ∨
      ∃ m, c = .points m ∧ r.lock = .dedupe pointsConsumer (extractEventID m) ∧
        ∃ vs, Points m (extractEventID m) (dbAt d h) vs ∧ ws = .dedupe r :: vs) := by
  cases ht with
  | leaderboard p =>
    obtain rfl := List.mem_singleton.mp hr
    exact ⟨p.newRow, .inl ⟨_, rfl, rfl, rfl⟩⟩
  | @points m vs p _ hp =>
    simp only [List.filterMap_cons, Write.dedupe?, hp.picks.2.2.2.2.2.2, List.mem_singleton] at hr
    subst hr
    exact ⟨p.newRow, .inr ⟨_, rfl, rfl, vs, hp, rfl⟩⟩
  | _ => simp at hr

end Origins

section Pairs

variable {calls : ℕ → Call}

theorem Legal.debit_of_accepted (hl : Legal calls d h) :
    ∀ o ∈ (dbAt d h).giftOrders, o.status = .accepted → o ∈ d.giftOrders ∨
      ∃ x ∈ (dbAt d h).walletTxs,
        x.lock = .walletTxKey o.viewerID .giftDebit (Platform.collate o.requestID) := by
  induction hl with
  | nil => exact fun o ho _ => .inl ho
  | snoc _ ht ih =>
    intro o ho hs
    simp only [dbAt_snoc, applyAll_giftOrders, List.mem_append, applyAll_walletTxs] at ho ⊢
    rcases ho with ho | ho
    · rcases ih o ho hs with hd | ⟨x, hx, hk⟩
      · exact .inl hd
      · exact .inr ⟨x, .inl hx, hk⟩
    · rcases ht.of_giftOrder ho with ⟨req, p, _, rfl, rfl⟩ | ⟨req, p, _, rfl, rfl⟩
      · exact .inr ⟨p.tx, .inr (by simp), rfl⟩
      · cases hs

theorem Legal.request_of_order (hl : Legal calls d h) : ∀ o ∈ (dbAt d h).giftOrders,
    o ∈ d.giftOrders ∨ ∃ req : GiftRequest, o.bodyHash = Platform.giftHash req ∧
      o.requestID = Varchar.store 64 req.requestID := by
  induction hl with
  | nil => exact fun o ho => .inl ho
  | snoc _ ht ih =>
    intro o ho
    rw [dbAt_snoc, applyAll_giftOrders, List.mem_append] at ho
    rcases ho with ho | ho
    · exact ih o ho
    · rcases ht.of_giftOrder ho with ⟨req, p, _, rfl, rfl⟩ | ⟨req, p, _, rfl, rfl⟩
      · exact .inr ⟨req, rfl, rfl⟩
      · exact .inr ⟨req, rfl, rfl⟩

theorem Legal.order_of_debit (hl : Legal calls d h) :
    ∀ x ∈ (dbAt d h).walletTxs, x.txType = .giftDebit → x ∈ d.walletTxs ∨
      ∃ o ∈ (dbAt d h).giftOrders, o.status = .accepted ∧
        o.lock = .giftOrderKey x.actorUserID (Platform.collate x.requestID) := by
  induction hl with
  | nil => exact fun x hx _ => .inl hx
  | snoc _ ht ih =>
    intro x hx hty
    simp only [dbAt_snoc, applyAll_giftOrders, List.mem_append, applyAll_walletTxs] at hx ⊢
    rcases hx with hx | hx
    · rcases ih x hx hty with hd | ⟨o, ho, hk⟩
      · exact .inl hd
      · exact .inr ⟨o, .inl ho, hk⟩
    · rcases ht.of_walletTx hx with ⟨req, p, _, rfl, rfl⟩ | ⟨req, p, _, rfl, rfl⟩
      · cases hty
      · exact .inr ⟨p.order, .inr (by simp), rfl, rfl⟩

theorem Legal.tx_of_request (hl : Legal calls d h) :
    ∀ r ∈ (dbAt d h).rechargeRequests, r ∈ d.rechargeRequests ∨
      ∃ x ∈ (dbAt d h).walletTxs,
        x.lock = .walletTxKey r.viewerID .recharge (Platform.collate r.requestID) := by
  induction hl with
  | nil => exact fun r hr => .inl hr
  | snoc _ ht ih =>
    intro r hr
    simp only [dbAt_snoc, applyAll_rechargeRequests, List.mem_append, applyAll_walletTxs] at hr ⊢
    rcases hr with hr | hr
    · rcases ih r hr with hd | ⟨x, hx, hk⟩
      · exact .inl hd
      · exact .inr ⟨x, .inl hx, hk⟩
    · obtain ⟨req, p, _, rfl, rfl⟩ := ht.of_rechargeRequest hr
      exact .inr ⟨p.tx, .inr (by simp), rfl⟩

theorem Legal.eventIDs (hl : Legal calls d h) (hd : (d.outboxEvents.map (·.eventID)).Nodup) :
    ((dbAt d h).outboxEvents.map (·.eventID)).Nodup := by
  have hmap : ∀ rs : List OutboxRow, (rs.map (·.inserted)).map (·.eventID) = rs.map (·.eventID) :=
    fun rs => by simp [Function.comp_def, OutboxRow.inserted]
  induction hl with
  | nil => exact hd
  | snoc _ ht ih =>
    rw [dbAt_snoc, ← hmap, applyAll_inserted, List.map_append, hmap, hmap]
    refine List.nodup_append.mpr ⟨ih, ht.eventIDs, ?_⟩
    intro a ha b hb he
    obtain ⟨r, hr, rfl⟩ := List.mem_map.mp ha
    obtain ⟨x, hx, rfl⟩ := List.mem_map.mp hb
    exact (ht.of_outbox hx).newEvent r hr he

end Pairs

section Inserters

variable {calls : ℕ → Call} {ρ κ : Type} {table : DB → List ρ} {pick : Write → Option ρ}
  {key : ρ → κ}

theorem mem_dbAt (htable : ∀ ws d, table (applyAll ws d) = table d ++ ws.filterMap pick) {r : ρ} :
    r ∈ table (dbAt d h) ↔ r ∈ table d ∨ ∃ e ∈ h, r ∈ e.2.filterMap pick := by
  induction h generalizing d with
  | nil => simp
  | cons e h ih =>
    change r ∈ table (dbAt (applyAll e.2 d) h) ↔ _
    rw [ih, htable, List.mem_append]
    simp only [List.mem_cons, exists_eq_or_imp, or_assoc]

theorem Legal.emitted (hl : Legal calls d h) (hd : d.outboxEvents = []) {r : OutboxRow}
    (hr : r ∈ (dbAt d h).outboxEvents) : ∃ t ws h₁ r₀, (t, ws) ∈ h ∧
      r₀.inserted = r.inserted ∧ Emits d h₁ ws r₀ (calls t) := by
  let inserted : DB → List OutboxRow := fun d => d.outboxEvents.map (·.inserted)
  have htable : ∀ (ws : List Write) (d : DB), inserted (applyAll ws d) =
      inserted d ++ ws.filterMap fun x => x.outbox?.map (·.inserted) :=
    fun ws d => by rw [← List.map_filterMap]; exact applyAll_inserted
  have hmem : r.inserted ∈ inserted (dbAt d h) := List.mem_map_of_mem hr
  have hins := (mem_dbAt htable).mp hmem
  rcases hins with hins | ⟨⟨t, ws⟩, he, hins⟩
  · simp only [inserted, hd, List.map_nil] at hins
    cases hins
  · rw [← List.map_filterMap] at hins
    obtain ⟨r₀, hr₀, hi⟩ := List.mem_map.mp hins
    obtain ⟨h₁, h₂, -, -, ht⟩ := hl.at he
    exact ⟨t, ws, h₁, r₀, he, hi, ht.of_outbox hr₀⟩

variable (key) in
/-- Where every new row has a new key, no two transactions insert rows with the same one. -/
theorem Legal.inserter_unique
    (htable : ∀ ws d, table (applyAll ws d) = table d ++ ws.filterMap pick)
    (hnew : ∀ {h c ws}, Txn d h c ws → ∀ r ∈ ws.filterMap pick, ∀ r' ∈ table (dbAt d h),
      key r' ≠ key r)
    (hl : Legal calls d h) {e e' : ℕ × List Write} (he : e ∈ h) (he' : e' ∈ h) {r r' : ρ}
    (hr : r ∈ e.2.filterMap pick) (hr' : r' ∈ e'.2.filterMap pick) (hk : key r = key r') :
    e = e' := by
  induction hl with
  | nil => cases he
  | @snoc h t ws _ ht ih =>
    rw [List.mem_append, List.mem_singleton] at he he'
    rcases he with he | rfl <;> rcases he' with he' | rfl
    · exact ih he he'
    · exact absurd hk (hnew ht r' hr' r ((mem_dbAt htable).mpr (.inr ⟨e, he, hr⟩)))
    · exact absurd hk.symm (hnew ht r hr r' ((mem_dbAt htable).mpr (.inr ⟨e', he', hr'⟩)))
    · rfl

end Inserters

end LiveRevenue
