import LiveRevenue.Result.Debits

/-! # The outbox is complete

Rows and their events are written by the same transactions, in the same order. Topic
by topic, the events are therefore the rows they announce, one each, and what an
event says stays what its row says. Only the ids of a request may differ: the event
tells them as they were given, the row has them cut to the length of their columns.
-/

namespace LiveRevenue

open Transact

def DB.payloads (d : DB) (topic : String) : List Payload :=
  (d.outboxEvents.filter fun r => r.topic = topic).map (·.payload)

def DB.rejected (d : DB) : List GiftOrder := d.giftOrders.filter fun o => o.status = .rejected

/-- The balance recorded next to a wallet transaction. -/
def DB.RecordsBalance (d : DB) (x : WalletTx) (balance : ℤ) : Prop :=
  match x.txType with
  | .recharge => ∃ r ∈ d.rechargeRequests, r.txID = x.txID ∧ r.viewerID = x.actorUserID ∧
      r.requestID = x.requestID ∧ r.resultingBalance = balance
  | .giftDebit => ∃ o ∈ d.accepted, o.viewerID = x.actorUserID ∧ o.requestID = x.requestID ∧
      o.postBalance = some balance

section Announcing

-- `R n stored told`: a `VARCHAR(n)` column may have `stored` where the event tells `told`
variable (R : ℕ → String → String → Prop)

def DB.AnnouncesTx (d : DB) (x : WalletTx) (p : Payload) : Prop :=
  ∃ requestID delta balance, R 64 x.requestID requestID ∧ p = .walletPosted
      ⟨x.txID, x.txType.text, x.actorUserID, requestID, delta, balance⟩ ∧
    ((d.entriesOf x.txID).filter fun e => e.accountCode = userCoins x.actorUserID) =
      [⟨x.txID, userCoins x.actorUserID, delta⟩] ∧ d.RecordsBalance x balance

def DB.AnnouncesGift (d : DB) (o : GiftOrder) (p : Payload) : Prop :=
  ∃ s giftID requestID, d.liveSessions o.liveSessionID = some s ∧ R 32 o.giftID giftID ∧
    R 64 o.requestID requestID ∧ p = .giftAccepted
      ⟨giftAcceptedTopic, o.giftOrderID, o.viewerID, o.creatorID, o.liveSessionID, s.campaignID,
        o.matchID, giftID, o.quantity, o.chargedCoins, o.matchPointsAdded, o.diamondReward,
        requestID⟩

def AnnouncesReject (o : GiftOrder) (p : Payload) : Prop :=
  ∃ giftID requestID code, R 32 o.giftID giftID ∧ R 64 o.requestID requestID ∧
    o.rejectCode = some code ∧ p = .giftRejected
      ⟨giftRejectedTopic, o.viewerID, o.creatorID, o.liveSessionID, o.matchID, giftID, o.quantity,
        requestID, code⟩

/-- Transactions, accepted orders and rejected orders, each against the events of its topic. -/
structure Announcing [Platform] (d : DB) : Prop where
  wallet : List.Forall₂ (d.AnnouncesTx R) d.walletTxs (d.payloads walletTopic)
  accepted : List.Forall₂ (d.AnnouncesGift R) d.accepted (d.payloads giftAcceptedTopic)
  rejected : List.Forall₂ (AnnouncesReject R) d.rejected (d.payloads giftRejectedTopic)
  txIDs : (d.walletTxs.map (·.txID)).Nodup
  orderIDs : (d.giftOrders.map (·.giftOrderID)).Nodup
  orderKeys : (d.giftOrders.map fun o => (o.viewerID, Platform.collate o.requestID)).Nodup

end Announcing

/-- The outbox is complete, with the ids of requests as they were given. -/
abbrev OutboxComplete [Platform] (d : DB) : Prop := Announcing Varchar.Cut d

/-- The outbox is complete, and tells the ids that the rows have. -/
abbrev OutboxExact [Platform] (d : DB) : Prop := Announcing (fun _ => Eq) d

variable {R : ℕ → String → String → Prop}

theorem DB.AnnouncesGift.mono {d d' : DB} {o : GiftOrder} {p : Payload} (hg : d.Grows d')
    (h : d.AnnouncesGift R o p) : d'.AnnouncesGift R o p := by
  obtain ⟨s, giftID, requestID, hs, hgid, hrid, rfl⟩ := h
  have hfix := hg.sessionFixed o.liveSessionID
  rw [hs] at hfix
  obtain ⟨s', hs', he⟩ := Option.map_eq_some_iff.mp hfix
  exact ⟨s', giftID, requestID, hs', hgid, hrid, by rw [(Prod.mk.inj he).2]⟩

theorem DB.RecordsBalance.mono {d d' : DB} {x : WalletTx} {b : ℤ} (hg : d.Grows d')
    (h : d.RecordsBalance x b) : d'.RecordsBalance x b := by
  unfold DB.RecordsBalance at h ⊢
  split at h
  · obtain ⟨r, hr, he⟩ := h
    exact ⟨r, hg.rechargeRequests.subset hr, he⟩
  · obtain ⟨o, ho, he⟩ := h
    exact ⟨o, (hg.giftOrders.filter _).subset ho, he⟩

section General

variable [Platform] {d : DB} {ws : List Write}

theorem payloads_applyAll (topic : String) : (applyAll ws d).payloads topic = d.payloads topic ++
    ((ws.filterMap Write.outbox?).filter fun r => r.topic = topic).map (·.payload) := by
  have hrow : ∀ rs : List OutboxRow, (rs.filter fun r => r.topic = topic).map (·.payload) =
      ((rs.map (·.inserted)).filter fun r => r.topic = topic).map (·.payload) := fun rs => by
    simp [List.filter_map, Function.comp_def, OutboxRow.inserted]
  rw [DB.payloads, hrow, applyAll_inserted, List.filter_append, List.map_append, ← hrow, ← hrow]
  rfl

theorem rejected_applyAll : (applyAll ws d).rejected =
    d.rejected ++ (ws.filterMap Write.giftOrder?).filter fun o => o.status = .rejected := by
  simp [DB.rejected]

theorem DB.AnnouncesTx.keep (hb : Booked d ws) {x : WalletTx} (hx : x ∈ d.walletTxs) {p : Payload}
    (h : d.AnnouncesTx R x p) : (applyAll ws d).AnnouncesTx R x p := by
  obtain ⟨requestID, delta, balance, hid, hp, he, hr⟩ := h
  refine ⟨requestID, delta, balance, hid, hp, ?_, hr.mono (grows_applyAll ws d)⟩
  rw [hb.entriesOf_old hx]
  exact he

structure Announced (R : ℕ → String → String → Prop) (d : DB) (ws : List Write) : Prop where
  wallet : List.Forall₂ ((applyAll ws d).AnnouncesTx R) (ws.filterMap Write.walletTx?)
    (((ws.filterMap Write.outbox?).filter fun r => r.topic = walletTopic).map (·.payload))
  accepted : List.Forall₂ ((applyAll ws d).AnnouncesGift R)
    ((ws.filterMap Write.giftOrder?).filter fun o => o.status = .accepted)
    (((ws.filterMap Write.outbox?).filter fun r => r.topic = giftAcceptedTopic).map (·.payload))
  rejected : List.Forall₂ (AnnouncesReject R)
    ((ws.filterMap Write.giftOrder?).filter fun o => o.status = .rejected)
    (((ws.filterMap Write.outbox?).filter fun r => r.topic = giftRejectedTopic).map (·.payload))
  txs : ((ws.filterMap Write.walletTx?).map (·.txID)).Nodup
  newTxs : ∀ x ∈ ws.filterMap Write.walletTx?, d.NewTxID x.txID
  orders : (ws.filterMap Write.giftOrder?).length ≤ 1
  newOrders : ∀ o ∈ ws.filterMap Write.giftOrder?, d.NewOrder o

theorem Announced.of_quiet (hx : ws.filterMap Write.walletTx? = [])
    (ho : ws.filterMap Write.giftOrder? = [])
    (he : ∀ r ∈ ws.filterMap Write.outbox?,
      r.topic ∉ [walletTopic, giftAcceptedTopic, giftRejectedTopic]) : Announced R d ws := by
  have hnone : ∀ topic ∈ [walletTopic, giftAcceptedTopic, giftRejectedTopic],
      ((ws.filterMap Write.outbox?).filter fun r => r.topic = topic) = [] := by
    intro topic ht
    refine List.filter_eq_nil_iff.mpr fun r hr h => he r hr ?_
    rwa [of_decide_eq_true h]
  constructor <;> simp [hx, ho, hnone]

/-- The texts of a call that both a row and an event have, with the lengths of their columns. -/
def Call.texts : Call → List (ℕ × String)
  | .recharge req => [(64, req.requestID)]
  | .sendGift req => [(32, req.giftID), (64, req.requestID)]
  | _ => []

def Call.Keeps (c : Call) (R : ℕ → String → String → Prop) : Prop :=
  ∀ x ∈ c.texts, Varchar.refuses x.1 x.2 = false → R x.1 (Varchar.store x.1 x.2) x.2

theorem Recharged.announced {req : RechargeRequest} (p : Recharged req d)
    (hR : (Call.recharge req).Keeps R) : Announced R d p.writes := by
  have hrow : p.request ∈ (applyAll p.writes d).rechargeRequests := by simp
  have hent : (applyAll p.writes d).entriesOf p.txID = _ := entriesOf_new p.newTxID
  rw [p.picks.2.1] at hent
  have hne : "SYSTEM_TOPUP_SOURCE" ≠ userCoins req.viewerID :=
    (userCoins_ne req.viewerID (by decide)).symm
  constructor <;> simp only [p.picks.1, p.picks.2.2.2.1, p.picks.2.2.2.2.1]
  · refine .cons ⟨req.requestID, _, p.newBalance, hR _ (List.mem_singleton_self _) p.fits, rfl, ?_,
      p.request, hrow, rfl, rfl, rfl, rfl⟩ .nil
    rw [show p.tx.txID = p.txID from rfl, hent]
    simp [Recharged.tx, hne]
  · exact .nil
  · exact .nil
  · exact List.nodup_singleton _
  · exact fun x hx => List.mem_singleton.mp hx ▸ p.newTxID
  · exact Nat.zero_le 1
  · exact fun o ho => by cases ho

theorem Accepted.announced {req : GiftRequest} (p : Accepted req d)
    (hR : (Call.sendGift req).Keeps R) : Announced R d p.writes := by
  have hgid := hR (32, req.giftID) List.mem_cons_self
  have hrid := hR (64, req.requestID) (List.mem_cons_of_mem _ List.mem_cons_self)
  have hrow : p.order ∈ (applyAll p.writes d).accepted := by
    simp [accepted_applyAll, Accepted.order, GiftOrder.stored, acceptedOrder]
  have hgift : d.AnnouncesGift R p.order p.giftEvent.payload :=
    ⟨p.session, req.giftID, req.requestID, p.session_eq, hgid p.fits.1, hrid p.fits.2, rfl⟩
  have hent : (applyAll p.writes d).entriesOf p.txID = _ := entriesOf_new p.newTxID
  rw [p.picks.2.1] at hent
  have hne : "PLATFORM_RESERVED_COINS" ≠ userCoins req.viewerID :=
    (userCoins_ne req.viewerID (by decide)).symm
  constructor <;> simp only [p.picks.1, p.picks.2.2.2.1, p.picks.2.2.2.2.1]
  · refine .cons ⟨req.requestID, _, p.newBalance, hrid p.fits.2, rfl, ?_, p.order, hrow, rfl, rfl,
      rfl⟩ .nil
    rw [show p.tx.txID = p.txID from rfl, hent]
    simp [Accepted.tx, hne]
  · exact .cons (hgift.mono (grows_applyAll p.writes d)) .nil
  · exact .nil
  · exact List.nodup_singleton _
  · exact fun x hx => List.mem_singleton.mp hx ▸ p.newTxID
  · exact Nat.le_refl 1
  · exact fun o ho => List.mem_singleton.mp ho ▸ p.newOrder

theorem Rejected.announced {req : GiftRequest} (p : Rejected req d)
    (hR : (Call.sendGift req).Keeps R) : Announced R d p.writes := by
  have hgid := hR (32, req.giftID) List.mem_cons_self
  have hrid := hR (64, req.requestID) (List.mem_cons_of_mem _ List.mem_cons_self)
  constructor <;> simp only [p.picks.1, p.picks.2.2.2.1, p.picks.2.2.2.2.1]
  · exact .nil
  · exact .nil
  · exact .cons ⟨req.giftID, req.requestID, p.code, hgid p.fits.1, hrid p.fits.2, rfl, rfl⟩ .nil
  · exact List.nodup_nil
  · exact fun x hx => by cases hx
  · exact Nat.le_refl 1
  · exact fun o ho => List.mem_singleton.mp ho ▸ p.newOrder

theorem Txn.announced {h : History} {c : Call} (ht : Txn d h c ws) (hR : c.Keeps R) :
    Announced R (dbAt d h) ws := by
  cases ht with
  | recharged p => exact p.announced hR
  | accepted p => exact p.announced hR
  | rejected p => exact p.announced hR
  | closed p =>
    refine .of_quiet p.picks.1 p.picks.2.2.2.1 fun r hr => ?_
    rw [p.picks.2.2.2.2.1] at hr
    rw [List.mem_singleton.mp hr]
    exact (by decide : sessionClosedTopic ∉ [walletTopic, giftAcceptedTopic, giftRejectedTopic])
  | commented p =>
    refine .of_quiet p.picks.1 p.picks.2.2.2.1 fun r hr => ?_
    rw [p.picks.2.2.2.2.1] at hr
    rw [(p.row hr).1]
    decide
  | watched p =>
    refine .of_quiet p.picks.1 p.picks.2.2.2.1 fun r hr => ?_
    rw [p.picks.2.2.2.2.1] at hr
    rw [(p.row hr).1]
    decide
  | points p _ hp =>
    apply Announced.of_quiet <;>
      simp [List.filterMap_cons, hp.picks.1, hp.picks.2.2.2.1, hp.picks.2.2.2.2.1]
  | _ => apply Announced.of_quiet <;> simp

theorem Announcing.apply (hc : Announcing R d) (hb : Booked d ws) (ha : Announced R d ws) :
    Announcing R (applyAll ws d) where
  wallet := by
    rw [applyAll_walletTxs, payloads_applyAll]
    exact List.Forall₂.append_of_imp hc.wallet (fun x hx p hp => hp.keep hb hx) ha.wallet
  accepted := by
    rw [accepted_applyAll, payloads_applyAll]
    exact List.Forall₂.append_of_imp hc.accepted (fun o _ p hp => hp.mono (grows_applyAll ws d))
      ha.accepted
  rejected := by
    rw [rejected_applyAll, payloads_applyAll]
    exact List.Forall₂.append_of_imp hc.rejected (fun o _ p hp => hp) ha.rejected
  txIDs := by
    rw [applyAll_walletTxs]
    exact List.nodup_map_append hc.txIDs ha.txs fun x hx y hy => (ha.newTxs y hy).1 x hx
  orderIDs := by
    rw [applyAll_giftOrders]
    exact List.nodup_map_append hc.orderIDs (List.nodup_map_of_length_le_one _ ha.orders)
      fun o ho o' ho' => (ha.newOrders o' ho' o ho).1
  orderKeys := by
    rw [applyAll_giftOrders]
    exact List.nodup_map_append hc.orderKeys (List.nodup_map_of_length_le_one _ ha.orders)
      fun o ho o' ho' => (ha.newOrders o' ho').key ho

theorem Legal.announcing {calls : ℕ → Call} {h : History} (hl : Legal calls d h)
    (hR : ∀ t, (calls t).Keeps R) (hc : Announcing R d) : Announcing R (dbAt d h) := by
  induction hl with
  | nil => exact hc
  | snoc _ ht ih =>
    rw [dbAt_snoc]
    exact ih.apply ht.booked (ht.announced (hR _))

theorem Legal.outboxComplete {calls : ℕ → Call} {h : History} (hl : Legal calls d h)
    (hc : OutboxComplete d) : OutboxComplete (dbAt d h) :=
  hl.announcing (fun _ _ _ _ => rfl) hc

/-- Whatever is called and wherever it fails, the outbox stays complete. If no request has an id
that its column would cut, it tells of every row what the row has. -/
theorem outbox_complete (calls : ℕ → Call) {w : World} (hs : Start w) {s : State}
    (h : (system calls).Reach (fun _ _ _ => True) (Pool.fresh w) s) :
    (OutboxComplete w.db → OutboxComplete s.world.db) ∧
    (OutboxExact w.db → (∀ t, ∀ x ∈ (calls t).texts, Varchar.Exact x.1 x.2) →
      OutboxExact s.world.db) := by
  obtain ⟨hl, hd⟩ := reach_legal hs h
  rw [hd]
  exact ⟨hl.outboxComplete, fun hc hids => hl.announcing hids hc⟩

end General

section Witness

open Plain

theorem migrated_announcing : Announcing R migrated :=
  ⟨.nil, .nil, .nil, List.nodup_nil, List.nodup_nil, List.nodup_nil⟩

def rechargeAndGifts : ℕ → Call
  | 0 => .recharge ⟨"r1", 2001, 100, "card"⟩
  | 1 => .sendGift ⟨"g1", 2001, 1001, 9001, some 8001, "ROSE", 3, 0⟩
  | _ => .sendGift ⟨"g2", 2001, 1001, 9001, some 8001, "NONE", 3, 0⟩

theorem outbox_complete_three : ∃ s : State, s.world.db.walletTxs.length = 2 ∧
    s.world.db.accepted.length = 1 ∧ s.world.db.rejected.length = 1 ∧
    OutboxComplete s.world.db ∧ OutboxExact s.world.db := by
  obtain ⟨s, hr, hp⟩ := Machine.exists_reach (M := system rechargeAndGifts)
    (s := Pool.fresh (World.boot migrated)) (K := fun _ _ _ => true)
    (p := fun s => decide (s.world.db.walletTxs.length = 2 ∧ s.world.db.accepted.length = 1 ∧
      s.world.db.rejected.length = 1))
    (startAll [0, 1, 2] ++ resume 0 15 5 ++ resume 1 21 7 ++ resume 2 10 9) (by decide +kernel)
  obtain ⟨h1, h2, h3⟩ := of_decide_eq_true hp
  obtain ⟨hcomplete, hexact⟩ := outbox_complete rechargeAndGifts (Start.boot rfl rfl rfl rfl)
    (hr.mono fun _ _ _ _ => trivial)
  refine ⟨s, h1, h2, h3, hcomplete migrated_announcing, hexact migrated_announcing fun t => ?_⟩
  unfold rechargeAndGifts
  split <;> decide +kernel

end Witness

section Cut

namespace Ignorable

/-- A collation in which U+0001 has no weight, and for a hash the request id. -/
scoped instance : Platform where
  giftHash req := req.requestID.toByteArray.data.toList
  rechargeHash req := req.requestID.toByteArray.data.toList
  simpleFold := id
  collate s := String.ofList (s.toList.filter (· ≠ '\u0001'))
  giftHash_covers {req req'} hhash h := by
    have hid : req'.requestID = req.requestID := by
      apply String.toByteArray_inj.mp
      apply ByteArray.ext
      exact Array.toList_inj.mp hhash
    rw [hid] at h
    exact h

end Ignorable

open Ignorable

def paddedID : String := String.ofList (List.replicate 64 'g' ++ [' '])

/-- To the collation this is "ROSE" and a space. -/
def paddedRose : String := String.ofList ("ROSE".toList ++ List.replicate 28 '\u0001' ++ [' '])

def spacedRose : DB :=
  { migrated with
    giftCatalog := [⟨"ROSE ", 1, 1, 1, true, one_lt_uint32, one_lt_uint32, one_lt_uint32⟩] }

def padded : ℕ → Call := fun _ =>
  .sendGift ⟨paddedID, 2001, 1001, 9001, none, paddedRose, 3, 0⟩

/-- A gift under padded ids is accepted. Its transaction and its order have the ids without the
last space, the events have them as they were given. -/
theorem outbox_tells_uncut : ∃ s : State,
    (system padded).Reach (fun _ _ _ => True) (Pool.fresh (World.boot spacedRose)) s ∧
    (s.threads 0).result? = some (.gifted (.ok ⟨1, true, 3, 3, 3, 997, "created"⟩)) ∧
    s.world.db.walletTxs.map (·.requestID) = [Varchar.store 64 paddedID] ∧
    s.world.db.payloads walletTopic =
      [.walletPosted ⟨1, "GIFT_DEBIT", 2001, paddedID, -3, 997⟩] ∧
    s.world.db.accepted.map (·.giftID) = [Varchar.store 32 paddedRose] ∧
    s.world.db.payloads giftAcceptedTopic = [.giftAccepted ⟨giftAcceptedTopic, 1, 2001, 1001, 9001,
      some 7001, none, paddedRose, 3, 3, 3, 3, paddedID⟩] ∧
    Varchar.store 64 paddedID ≠ paddedID ∧ Varchar.store 32 paddedRose ≠ paddedRose ∧
    ¬ OutboxExact s.world.db := by
  obtain ⟨s, hr, hp⟩ := Machine.exists_reach (M := system padded)
    (s := Pool.fresh (World.boot spacedRose)) (K := fun _ _ _ => true)
    (p := fun s => decide ((s.threads 0).result? =
        some (.gifted (.ok ⟨1, true, 3, 3, 3, 997, "created"⟩)) ∧
      s.world.db.walletTxs.map (·.requestID) = [Varchar.store 64 paddedID] ∧
      s.world.db.payloads walletTopic =
        [.walletPosted ⟨1, "GIFT_DEBIT", 2001, paddedID, -3, 997⟩] ∧
      s.world.db.accepted.map (·.giftID) = [Varchar.store 32 paddedRose] ∧
      s.world.db.payloads giftAcceptedTopic = [.giftAccepted ⟨giftAcceptedTopic, 1, 2001, 1001,
        9001, some 7001, none, paddedRose, 3, 3, 3, 3, paddedID⟩]))
    (launch 0 20 5) (by decide +kernel)
  obtain ⟨hres, htx, hwallet, horder, hgift⟩ := of_decide_eq_true hp
  have hcutID : Varchar.store 64 paddedID ≠ paddedID := by decide +kernel
  have hcutGift : Varchar.store 32 paddedRose ≠ paddedRose := by decide +kernel
  refine ⟨s, hr.mono fun _ _ _ _ => trivial, hres, htx, hwallet, horder, hgift, hcutID, hcutGift,
    fun hexact => ?_⟩
  obtain ⟨x, hx, hid⟩ := List.map_eq_singleton_iff.mp htx
  have htells := hexact.wallet
  rw [hx, hwallet] at htells
  cases htells with
  | cons hannounced _ =>
    obtain ⟨requestID, delta, balance, hsame, hpayload, -⟩ := hannounced
    have htold : paddedID = requestID :=
      congrArg WalletTransactionPostedV1.requestID (Payload.walletPosted.inj hpayload)
    exact hcutID (hid.symm.trans (hsame.trans htold.symm))

end Cut

end LiveRevenue
