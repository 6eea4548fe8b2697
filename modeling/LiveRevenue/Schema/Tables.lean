import LiveRevenue.Lists
import LiveRevenue.Schema.Contracts
import LiveRevenue.Transact.Store

/-! # Tables

The rows of `migrations/00001_init.sql` that the modelled functions read or write,
the writes their statements make, and the row locks that cover each write. Tables
looked up by primary key are functions of the key; tables that only grow are lists
in commit order. Columns that nothing reads (`display_name`, `updated_at`,
`started_at`, the defaulted `created_at`s) are left out.
-/

namespace LiveRevenue

open Transact

inductive AccountStanding | good | restricted | banned
  deriving DecidableEq, Repr

inductive AccountType | normal | government | politician | politicalParty | publicInterest
  deriving DecidableEq, Repr

structure User where
  ageYears : ℕ
  regionCode : String
  accountStanding : AccountStanding
  canGoLive : Bool
  liveGiftsEnabled : Bool
  accountType : AccountType
  deriving DecidableEq, Repr

inductive LiveStatus | opened | closed
  deriving DecidableEq, Repr

structure LiveSession where
  creatorID : ℕ
  campaignID : Option ℕ
  status : LiveStatus
  closedAt : Option ℕ
  deriving DecidableEq, Repr

inductive MatchMode | allGifts | specificGift
  deriving DecidableEq, Repr

structure LiveMatch where
  matchID : ℕ
  liveSessionID : ℕ
  mode : MatchMode
  specificGiftID : Option String
  status : LiveStatus
  deriving DecidableEq, Repr

/-- A `gift_catalog` row; its amounts are `INT UNSIGNED`. -/
structure Gift where
  giftID : String
  coinPrice : ℕ
  matchPoints : ℕ
  diamondReward : ℕ
  enabled : Bool
  coinPrice_lt : coinPrice < 2 ^ 32 := by decide
  matchPoints_lt : matchPoints < 2 ^ 32 := by decide
  diamondReward_lt : diamondReward < 2 ^ 32 := by decide
  deriving DecidableEq, Repr

inductive TxType | recharge | giftDebit
  deriving DecidableEq, Repr

def TxType.text : TxType → String
  | .recharge => "RECHARGE"
  | .giftDebit => "GIFT_DEBIT"

structure WalletTx where
  txID : ℕ
  txType : TxType
  actorUserID : ℕ
  requestID : String
  bodyHash : Digest
  createdAt : ℕ
  deriving DecidableEq, Repr

structure WalletEntry where
  txID : ℕ
  accountCode : String
  amount : ℤ
  deriving DecidableEq, Repr

structure RechargeRow where
  viewerID : ℕ
  requestID : String
  bodyHash : Digest
  coins : ℕ
  paymentRef : String
  resultingBalance : ℤ
  txID : ℕ
  createdAt : ℕ
  deriving DecidableEq, Repr

inductive OrderStatus | accepted | rejected
  deriving DecidableEq, Repr

structure GiftOrder where
  giftOrderID : ℕ
  viewerID : ℕ
  creatorID : ℕ
  liveSessionID : ℕ
  matchID : Option ℕ
  giftID : String
  quantity : ℕ
  chargedCoins : ℕ
  matchPointsAdded : ℕ
  diamondReward : ℕ
  postBalance : Option ℤ
  status : OrderStatus
  rejectCode : Option String
  requestID : String
  bodyHash : Digest
  createdAt : ℕ
  deriving DecidableEq, Repr

def RechargeRow.stored (r : RechargeRow) : RechargeRow :=
  { r with requestID := Varchar.store 64 r.requestID, paymentRef := Varchar.store 128 r.paymentRef }

def GiftOrder.stored (o : GiftOrder) : GiftOrder :=
  { o with giftID := Varchar.store 32 o.giftID, requestID := Varchar.store 64 o.requestID }

structure OutboxRow where
  eventID : ℕ
  topic : String
  eventKey : String
  payload : Payload
  publishedAt : Option ℕ
  createdAt : ℕ
  deriving DecidableEq, Repr

def OutboxRow.inserted (r : OutboxRow) : OutboxRow := { r with publishedAt := none }

theorem OutboxRow.eq_of_inserted {r r' : OutboxRow} (h : r'.inserted = r.inserted) :
    r'.eventID = r.eventID ∧ r'.topic = r.topic ∧ r'.eventKey = r.eventKey ∧
      r'.payload = r.payload ∧ r'.createdAt = r.createdAt := by
  simpa [OutboxRow.inserted] using h

structure DedupeRow where
  consumerName : String
  eventID : ℕ
  appliedAt : ℕ
  deriving DecidableEq, Repr

inductive PointReason | gift | comment | watchMinute
  deriving DecidableEq, Repr

structure FanPoint where
  eventID : ℕ
  viewerID : ℕ
  creatorID : ℕ
  liveSessionID : ℕ
  points : ℕ
  reason : PointReason
  deriving DecidableEq, Repr

structure CampaignPoint where
  eventID : ℕ
  campaignID : ℕ
  creatorID : ℕ
  points : ℕ
  deriving DecidableEq, Repr

structure StreamSettlement where
  grossCoinSpend : ℤ
  acceptedGiftCount : ℤ
  diamondRewardTotal : ℤ
  generatedAt : ℕ
  deriving DecidableEq, Repr

inductive ReconciliationStatus | pass | fail
  deriving DecidableEq, Repr

structure ReconciliationDetails where
  walletGiftDebitTotal : ℤ
  giftOrderCoinTotal : ℤ
  deriving DecidableEq, Repr

structure Reconciliation where
  status : ReconciliationStatus
  walletGiftDebitTotal : ℤ
  giftOrderCoinTotal : ℤ
  mismatchCount : ℕ
  details : ReconciliationDetails
  generatedAt : ℕ
  deriving DecidableEq, Repr

structure DB where
  users : ℕ → Option User
  liveSessions : ℕ → Option LiveSession
  liveMatches : ℕ → Option LiveMatch
  giftCatalog : List Gift
  walletAccounts : ℕ → Option ℤ
  walletTxs : List WalletTx
  walletEntries : List WalletEntry
  rechargeRequests : List RechargeRow
  giftOrders : List GiftOrder
  outboxEvents : List OutboxRow
  consumerDedupe : List DedupeRow
  fanPoints : List FanPoint
  campaignPoints : List CampaignPoint
  streamSettlements : ℕ → Option StreamSettlement
  reconciliations : ℕ → Option Reconciliation

inductive Write where
  | openAccount (user : ℕ)
  | setBalance (user : ℕ) (balance : ℤ)
  | walletTx (r : WalletTx)
  | walletEntry (r : WalletEntry)
  | rechargeRequest (r : RechargeRow)
  | giftOrder (r : GiftOrder)
  | outbox (r : OutboxRow)
  | published (eventID : ℕ) (at_ : ℕ)
  | closeSession (liveSessionID : ℕ) (at_ : ℕ)
  | dedupe (r : DedupeRow)
  | fanPoint (r : FanPoint)
  | campaignPoint (r : CampaignPoint)
  | settlement (liveSessionID : ℕ) (r : StreamSettlement)
  | reconciliation (liveSessionID : ℕ) (r : Reconciliation)
  deriving DecidableEq, Repr

def LiveSession.close (at_ : ℕ) (s : LiveSession) : LiveSession :=
  { s with status := .closed, closedAt := some at_ }

def OutboxRow.publish (id at_ : ℕ) (r : OutboxRow) : OutboxRow :=
  if r.eventID = id then { r with publishedAt := some at_ } else r

def Write.apply (d : DB) : Write → DB
  | .openAccount u => { d with walletAccounts := Function.update d.walletAccounts u (some 0) }
  | .setBalance u b => { d with walletAccounts := Function.update d.walletAccounts u (some b) }
  | .walletTx r => { d with walletTxs := d.walletTxs ++ [r] }
  | .walletEntry r => { d with walletEntries := d.walletEntries ++ [r] }
  | .rechargeRequest r => { d with rechargeRequests := d.rechargeRequests ++ [r] }
  | .giftOrder r => { d with giftOrders := d.giftOrders ++ [r] }
  | .outbox r => { d with outboxEvents := d.outboxEvents ++ [r] }
  | .published id at_ => { d with outboxEvents := d.outboxEvents.map (·.publish id at_) }
  | .closeSession id at_ =>
    { d with liveSessions :=
      Function.update d.liveSessions id ((d.liveSessions id).map (·.close at_)) }
  | .dedupe r => { d with consumerDedupe := d.consumerDedupe ++ [r] }
  | .fanPoint r => { d with fanPoints := d.fanPoints ++ [r] }
  | .campaignPoint r => { d with campaignPoints := d.campaignPoints ++ [r] }
  | .settlement id r =>
    { d with streamSettlements := Function.update d.streamSettlements id (some r) }
  | .reconciliation id r =>
    { d with reconciliations := Function.update d.reconciliations id (some r) }

theorem mem_publish_map {rs : List OutboxRow} {id at_ : ℕ} {r : OutboxRow} (h : r.eventID ≠ id) :
    r ∈ rs.map (·.publish id at_) ↔ r ∈ rs := by
  constructor
  · intro hm
    obtain ⟨x, hx, he⟩ := List.mem_map.mp hm
    unfold OutboxRow.publish at he
    split at he
    · next hid => subst he; exact absurd hid h
    · exact he ▸ hx
  · exact fun hm => List.mem_map.mpr ⟨r, hm, if_neg h⟩

/-- Row locks, named by the key of the row. A `walletTx` lock also covers the entries
of that transaction, whose foreign key points to it. -/
inductive Lock where
  | wallet (user : ℕ)
  | walletTxKey (actor : ℕ) (txType : TxType) (key : String)
  | walletTx (txID : ℕ)
  | rechargeRequest (viewer : ℕ) (key : String)
  | giftOrderKey (viewer : ℕ) (key : String)
  | giftOrder (giftOrderID : ℕ)
  | outbox (eventID : ℕ)
  | session (liveSessionID : ℕ)
  | dedupe (consumerName : String) (eventID : ℕ)
  | fanPoint (eventID : ℕ)
  | campaignPoint (eventID : ℕ)
  | settlement (liveSessionID : ℕ)
  | reconciliation (liveSessionID : ℕ)
  deriving DecidableEq, Repr

section Keys

variable [Platform]

/-- Unique key `uq_wallet_tx`. -/
def WalletTx.lock (r : WalletTx) : Lock :=
  .walletTxKey r.actorUserID r.txType (Platform.collate r.requestID)

def RechargeRow.lock (r : RechargeRow) : Lock :=
  .rechargeRequest r.viewerID (Platform.collate r.requestID)

def GiftOrder.lock (r : GiftOrder) : Lock :=
  .giftOrderKey r.viewerID (Platform.collate r.requestID)

def DedupeRow.lock (r : DedupeRow) : Lock := .dedupe r.consumerName r.eventID

def Write.locks : Write → List Lock
  | .openAccount u => [.wallet u]
  | .setBalance u _ => [.wallet u]
  | .walletTx r => [r.lock, .walletTx r.txID]
  | .walletEntry r => [.walletTx r.txID]
  | .rechargeRequest r => [r.lock]
  | .giftOrder r => [r.lock, .giftOrder r.giftOrderID]
  | .outbox r => [.outbox r.eventID]
  | .published id _ => [.outbox id]
  | .closeSession id _ => [.session id]
  | .dedupe r => [r.lock]
  | .fanPoint r => [.fanPoint r.eventID]
  | .campaignPoint r => [.campaignPoint r.eventID]
  | .settlement id _ => [.settlement id]
  | .reconciliation id _ => [.reconciliation id]

/-- The rows a lock names are the same in both databases. -/
def Lock.Agree (d d' : DB) : Lock → Prop
  | .wallet u => d'.walletAccounts u = d.walletAccounts u
  | .walletTxKey a ty k => ∀ r : WalletTx, r.lock = .walletTxKey a ty k →
      (r ∈ d'.walletTxs ↔ r ∈ d.walletTxs)
  | .walletTx id => (∀ r : WalletTx, r.txID = id → (r ∈ d'.walletTxs ↔ r ∈ d.walletTxs)) ∧
      ∀ e : WalletEntry, e.txID = id → (e ∈ d'.walletEntries ↔ e ∈ d.walletEntries)
  | .rechargeRequest v k => ∀ r : RechargeRow, r.lock = .rechargeRequest v k →
      (r ∈ d'.rechargeRequests ↔ r ∈ d.rechargeRequests)
  | .giftOrderKey v k => ∀ r : GiftOrder, r.lock = .giftOrderKey v k →
      (r ∈ d'.giftOrders ↔ r ∈ d.giftOrders)
  | .giftOrder id => ∀ r : GiftOrder, r.giftOrderID = id → (r ∈ d'.giftOrders ↔ r ∈ d.giftOrders)
  | .outbox id => ∀ r : OutboxRow, r.eventID = id → (r ∈ d'.outboxEvents ↔ r ∈ d.outboxEvents)
  | .session id => d'.liveSessions id = d.liveSessions id
  | .dedupe c id => ∀ r : DedupeRow, r.lock = .dedupe c id →
      (r ∈ d'.consumerDedupe ↔ r ∈ d.consumerDedupe)
  | .fanPoint id => ∀ r : FanPoint, r.eventID = id → (r ∈ d'.fanPoints ↔ r ∈ d.fanPoints)
  | .campaignPoint id => ∀ r : CampaignPoint, r.eventID = id →
      (r ∈ d'.campaignPoints ↔ r ∈ d.campaignPoints)
  | .settlement id => d'.streamSettlements id = d.streamSettlements id
  | .reconciliation id => d'.reconciliations id = d.reconciliations id

theorem Lock.agree_refl (l : Lock) (d : DB) : l.Agree d d := by
  cases l <;> simp [Lock.Agree]

theorem Lock.agree_trans {l : Lock} {a b c : DB} (h : l.Agree a b) (h' : l.Agree b c) :
    l.Agree a c := by
  cases l with
  | walletTx id => exact ⟨fun r hr => (h'.1 r hr).trans (h.1 r hr),
      fun e he => (h'.2 e he).trans (h.2 e he)⟩
  | wallet u => exact h'.trans h
  | session id => exact h'.trans h
  | settlement id => exact h'.trans h
  | reconciliation id => exact h'.trans h
  | _ => exact fun r hr => (h' r hr).trans (h r hr)

/-- A write leaves every row alone that its locks do not name. -/
theorem Lock.agree_apply {l : Lock} {w : Write} {d : DB} (h : l ∉ w.locks) :
    l.Agree d (w.apply d) := by
  have hsame : l.Agree d d := l.agree_refl d
  cases w with
  | published id at_ =>
    cases l with
    | outbox i =>
      intro r hr
      refine mem_publish_map fun e => h ?_
      simp [Write.locks, ← hr, e]
    | _ => exact hsame
  | openAccount u =>
    cases l with
    | wallet i => exact Function.update_of_ne (fun e => h (by simp [Write.locks, e])) _ _
    | _ => exact hsame
  | setBalance u b =>
    cases l with
    | wallet i => exact Function.update_of_ne (fun e => h (by simp [Write.locks, e])) _ _
    | _ => exact hsame
  | closeSession u b =>
    cases l with
    | session i => exact Function.update_of_ne (fun e => h (by simp [Write.locks, e])) _ _
    | _ => exact hsame
  | settlement u b =>
    cases l with
    | settlement i => exact Function.update_of_ne (fun e => h (by simp [Write.locks, e])) _ _
    | _ => exact hsame
  | reconciliation u b =>
    cases l with
    | reconciliation i => exact Function.update_of_ne (fun e => h (by simp [Write.locks, e])) _ _
    | _ => exact hsame
  | walletTx x =>
    cases l with
    | walletTxKey a ty k =>
      exact fun r hr => List.mem_concat_of_ne fun e => h (by simp [Write.locks, ← hr, e])
    | walletTx id =>
      exact ⟨fun r hr => List.mem_concat_of_ne fun e => h (by simp [Write.locks, ← hr, e]),
        fun _ _ => Iff.rfl⟩
    | _ => exact hsame
  | walletEntry x =>
    cases l with
    | walletTx id =>
      exact ⟨fun _ _ => Iff.rfl,
        fun r hr => List.mem_concat_of_ne fun e => h (by simp [Write.locks, ← hr, e])⟩
    | _ => exact hsame
  | rechargeRequest x =>
    cases l with
    | rechargeRequest v k =>
      exact fun r hr => List.mem_concat_of_ne fun e => h (by simp [Write.locks, ← hr, e])
    | _ => exact hsame
  | giftOrder x =>
    cases l with
    | giftOrderKey v k =>
      exact fun r hr => List.mem_concat_of_ne fun e => h (by simp [Write.locks, ← hr, e])
    | giftOrder id =>
      exact fun r hr => List.mem_concat_of_ne fun e => h (by simp [Write.locks, ← hr, e])
    | _ => exact hsame
  | outbox x =>
    cases l with
    | outbox id =>
      exact fun r hr => List.mem_concat_of_ne fun e => h (by simp [Write.locks, ← hr, e])
    | _ => exact hsame
  | dedupe x =>
    cases l with
    | dedupe c id =>
      exact fun r hr => List.mem_concat_of_ne fun e => h (by simp [Write.locks, ← hr, e])
    | _ => exact hsame
  | fanPoint x =>
    cases l with
    | fanPoint id =>
      exact fun r hr => List.mem_concat_of_ne fun e => h (by simp [Write.locks, ← hr, e])
    | _ => exact hsame
  | campaignPoint x =>
    cases l with
    | campaignPoint id =>
      exact fun r hr => List.mem_concat_of_ne fun e => h (by simp [Write.locks, ← hr, e])
    | _ => exact hsame

end Keys

end LiveRevenue
