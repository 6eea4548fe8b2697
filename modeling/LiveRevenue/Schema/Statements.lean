import Mathlib.Data.List.Dedup
import Mathlib.Data.List.Sort
import LiveRevenue.Schema.Layout

/-! # SQL statements

One constructor per statement of the source, its result type, and its effect on
the rows its session sees: the reply, the writes, the row locks it waits for and
the ones it keeps. Strict mode is assumed: a value that does not fit its column is
an error. Counters of `AUTO_INCREMENT` columns advance with every insert that gets
as far as its key check and never go back.
-/

namespace LiveRevenue

inductive Stmt where
  | selectRecharge (viewer : ℕ) (requestID : String)
  | upsertAccount (user : ℕ)
  | selectBalanceForUpdate (user : ℕ)
  | insertWalletTx (txType : TxType) (actor : ℕ) (requestID : String) (hash : Digest) (at_ : ℕ)
  | insertWalletEntry (txID : ℕ) (accountCode : String) (amount : ℤ)
  | updateBalance (user : ℕ) (balance : ℤ)
  | insertRechargeRequest (r : RechargeRow)
  | insertOutbox (topic eventKey : String) (payload : Payload) (at_ : ℕ)
  | selectGiftOrderForUpdate (viewer : ℕ) (requestID : String)
  | selectLiveSession (liveSessionID : ℕ)
  | selectGift (giftID : String)
  | selectUser (user : ℕ)
  | selectMatch (matchID : ℕ)
  | insertGiftOrder (o : GiftOrder)
  | closeSession (liveSessionID at_ : ℕ)
  | selectSessionStatus (liveSessionID : ℕ)
  | selectSessionExists (liveSessionID : ℕ)
  | sumAcceptedOrders (liveSessionID : ℕ)
  | upsertSettlement (liveSessionID : ℕ) (r : StreamSettlement)
  | sumGiftDebits (liveSessionID : ℕ)
  | upsertReconciliation (liveSessionID : ℕ) (r : Reconciliation)
  | selectSettlement (liveSessionID : ℕ)
  | topContributors (liveSessionID limit : ℕ)
  | selectOutboxBatch (limit : ℕ)
  | updatePublished (at_ eventID : ℕ)
  | insertDedupe (consumerName : String) (eventID at_ : ℕ)
  | insertFanPoint (r : FanPoint)
  | insertCampaignPoint (r : CampaignPoint)
  | countFanPoints (viewer liveSessionID : ℕ) (reason : PointReason)
  | selectAcceptedOrders (liveSessionID : ℕ)
  | selectCampaign (liveSessionID : ℕ)
  | sumCampaignCharges (campaignID : ℕ)

/-- What a statement returns when it succeeds: the scanned row or rows, the generated
id of an insert, the affected rows of the one update whose count is read. -/
@[reducible] def Stmt.Res : Stmt → Type
  | .selectRecharge .. => Option RechargeRow
  | .selectBalanceForUpdate .. => ℤ
  | .insertWalletTx .. => ℕ
  | .selectGiftOrderForUpdate .. => Option GiftOrder
  | .selectLiveSession .. => Option (LiveStatus × Option ℕ)
  | .selectGift .. => Option Gift
  | .selectUser .. => Option User
  | .selectMatch .. => Option LiveMatch
  | .insertGiftOrder .. => ℕ
  | .closeSession .. => ℕ
  | .selectSessionStatus .. => Option LiveStatus
  | .sumAcceptedOrders .. => ℤ × ℤ × ℤ
  | .sumGiftDebits .. => ℤ
  | .selectSettlement .. => Option (StreamSettlement × Reconciliation)
  | .topContributors .. => List (ℕ × ℤ)
  | .selectOutboxBatch .. => List OutboxRow
  | .countFanPoints .. => ℕ
  | .selectAcceptedOrders .. => List GiftOrder
  | .selectCampaign .. => Option ℕ
  | .sumCampaignCharges .. => List (ℕ × ℤ)
  | _ => Unit

/-- The next value of each `AUTO_INCREMENT` column. -/
structure Ids where
  tx : ℕ
  order : ℕ
  event : ℕ
  deriving DecidableEq, Repr

structure Effect (β : Type) where
  res : Except SqlErr β
  ids : Ids
  writes : List Write := []
  waits : List Lock := []
  takes : List Lock := []

/-- A `BIGINT UNSIGNED` column scanned into a `sql.NullInt64`. -/
def scanNullInt64 : Option ℕ → Except SqlErr (Option ℕ)
  | some v => if v < 2 ^ 63 then .ok (some v) else .error .scan
  | none => .ok none

section Queries

def DB.acceptedOrders (d : DB) (s : ℕ) : List GiftOrder :=
  d.giftOrders.filter fun o => o.liveSessionID = s ∧ o.status = .accepted

def DB.campaignOrders (d : DB) (c : ℕ) : List GiftOrder :=
  d.giftOrders.filter fun o =>
    o.status = .accepted ∧ (d.liveSessions o.liveSessionID).any (·.campaignID = some c)

def sumOf (val : GiftOrder → ℕ) (os : List GiftOrder) : ℤ := (os.map fun o => (val o : ℤ)).sum

theorem sumOf_cons (val : GiftOrder → ℕ) (o : GiftOrder) (os : List GiftOrder) :
    sumOf val (o :: os) = val o + sumOf val os :=
  List.sum_cons

theorem sumOf_nonneg (val : GiftOrder → ℕ) (os : List GiftOrder) : 0 ≤ sumOf val os := by
  induction os with
  | nil => exact le_rfl
  | cons o os ih =>
    rw [sumOf_cons]
    omega

theorem sumOf_sublist {val : GiftOrder → ℕ} {os os' : List GiftOrder} (h : List.Sublist os os') :
    sumOf val os ≤ sumOf val os' := by
  induction h with
  | slnil => exact le_rfl
  | cons o _ ih =>
    rw [sumOf_cons]
    omega
  | cons_cons o _ ih =>
    rw [sumOf_cons, sumOf_cons]
    omega

def groupBy (key : GiftOrder → ℕ) (total : List GiftOrder → ℤ) (os : List GiftOrder) :
    List (ℕ × ℤ) :=
  (os.map key).dedup.map fun k => (k, total (os.filter fun o => key o = k))

def groupSum (key val : GiftOrder → ℕ) : List GiftOrder → List (ℕ × ℤ) := groupBy key (sumOf val)

/-- `ORDER BY total DESC, viewer_id ASC LIMIT limit`. -/
def topByTotal (limit : ℕ) (rows : List (ℕ × ℤ)) : List (ℕ × ℤ) :=
  (rows.insertionSort fun a b => b.2 < a.2 ∨ (a.2 = b.2 ∧ a.1 ≤ b.1)).take limit

def isUserCoins (code : String) : Bool := "USER_COINS:".toList.isPrefixOf code.toList

/-- The rows `SKIP LOCKED` leaves of the unpublished ones, in `ORDER BY created_at` order;
`rank` decides between equal timestamps, which the statement leaves open. -/
def DB.outboxBatch (d : DB) (busy : Lock → Bool) (rank : ℕ → ℕ) (limit : ℕ) : List OutboxRow :=
  ((d.outboxEvents.filter fun r => r.publishedAt = none ∧ busy (.outbox r.eventID) = false)
    |>.insertionSort fun a b => a.createdAt < b.createdAt ∨
      (a.createdAt = b.createdAt ∧ rank a.eventID ≤ rank b.eventID)).take limit

variable [Platform]

/-- The join of ACCEPTED orders, their GIFT_DEBIT transactions and these transactions'
`USER_COINS` entries. -/
def DB.giftDebits (d : DB) (s : ℕ) : ℤ :=
  ((d.acceptedOrders s).flatMap fun o =>
    (d.walletTxs.filter fun x =>
      x.lock = .walletTxKey o.viewerID .giftDebit (Platform.collate o.requestID)).flatMap fun x =>
      (d.walletEntries.filter fun e => e.txID = x.txID ∧ isUserCoins e.accountCode).map
        fun e => -e.amount).sum

end Queries

variable [Platform]

open Platform

/-- The effect of a statement on the rows `d` its session sees. -/
def Stmt.run (d : DB) (ids : Ids) (busy : Lock → Bool) (rank : ℕ → ℕ) :
    (s : Stmt) → Effect s.Res
  | .selectRecharge v rid =>
    ⟨.ok (d.rechargeRequests.find? fun r => r.lock = .rechargeRequest v (collate rid)),
      ids, [], [], []⟩
  | .upsertAccount u => match d.walletAccounts u with
    | some _ => ⟨.ok (), ids, [], [], [.wallet u]⟩
    | none =>
      if (d.users u).isSome then ⟨.ok (), ids, [.openAccount u], [], [.wallet u]⟩
      else ⟨.error .foreignKey, ids, [], [.wallet u], []⟩
  | .selectBalanceForUpdate u => match d.walletAccounts u with
    | some b => ⟨.ok b, ids, [], [], [.wallet u]⟩
    | none => ⟨.error .noRows, ids, [], [.wallet u], []⟩
  | .insertWalletTx ty a rid h at_ =>
    let r : WalletTx := ⟨ids.tx, ty, a, Varchar.store 64 rid, h, at_⟩
    let next := { ids with tx := ids.tx + 1 }
    if Varchar.refuses 64 rid then ⟨.error .dataTooLong, ids, [], [], []⟩
    else if 2 ^ 64 ≤ ids.tx then ⟨.error .autoIncrement, ids, [], [], []⟩
    else if d.walletTxs.any (·.lock = r.lock) then ⟨.error .dupKey, next, [], [r.lock], []⟩
    else if (d.users a).isNone then ⟨.error .foreignKey, next, [], [], []⟩
    else ⟨.ok ids.tx, next, [.walletTx r], [], []⟩
  | .insertWalletEntry id code amount =>
    let r : WalletEntry := ⟨id, Varchar.store 64 code, amount⟩
    if Varchar.refuses 64 code then ⟨.error .dataTooLong, ids, [], [], []⟩
    else if d.walletEntries.any (fun e => e.txID = id ∧ e.accountCode = r.accountCode) then
      ⟨.error .dupKey, ids, [], [], []⟩
    else if d.walletTxs.all (·.txID ≠ id) then ⟨.error .foreignKey, ids, [], [], []⟩
    else ⟨.ok (), ids, [.walletEntry r], [], []⟩
  | .updateBalance u b => match d.walletAccounts u with
    | some _ => ⟨.ok (), ids, [.setBalance u b], [], []⟩
    | none => ⟨.ok (), ids, [], [], []⟩
  | .insertRechargeRequest r =>
    let row := r.stored
    if Varchar.refuses 64 r.requestID ∨ Varchar.refuses 128 r.paymentRef then
      ⟨.error .dataTooLong, ids, [], [], []⟩
    else if d.rechargeRequests.any (·.lock = row.lock) then
      ⟨.error .dupKey, ids, [], [row.lock], []⟩
    else if d.walletTxs.all (·.txID ≠ r.txID) ∨ (d.users r.viewerID).isNone then
      ⟨.error .foreignKey, ids, [], [], []⟩
    else ⟨.ok (), ids, [.rechargeRequest row], [], []⟩
  | .insertOutbox topic key payload at_ =>
    if 2 ^ 64 ≤ ids.event then ⟨.error .autoIncrement, ids, [], [], []⟩
    else ⟨.ok (), { ids with event := ids.event + 1 },
      [.outbox ⟨ids.event, topic, key, payload, none, at_⟩], [], []⟩
  | .selectGiftOrderForUpdate v rid =>
    -- READ COMMITTED takes no gap lock: without a row nothing stays locked
    match d.giftOrders.find? fun o => o.lock = .giftOrderKey v (collate rid) with
    | some o => ⟨.ok (some o), ids, [], [], [.giftOrderKey v (collate rid)]⟩
    | none => ⟨.ok none, ids, [], [.giftOrderKey v (collate rid)], []⟩
  | .selectLiveSession id => match d.liveSessions id with
    | some s => ⟨(scanNullInt64 s.campaignID).map fun c => some (s.status, c), ids, [], [], []⟩
    | none => ⟨.ok none, ids, [], [], []⟩
  | .selectGift g =>
    ⟨.ok (d.giftCatalog.find? fun x => collate x.giftID = collate g), ids, [], [], []⟩
  | .selectUser u => ⟨.ok (d.users u), ids, [], [], []⟩
  | .selectMatch m => ⟨.ok (d.liveMatches m), ids, [], [], []⟩
  | .insertGiftOrder o =>
    let row := o.stored
    let next := { ids with order := ids.order + 1 }
    if Varchar.refuses 32 o.giftID ∨ Varchar.refuses 64 o.requestID then
      ⟨.error .dataTooLong, ids, [], [], []⟩
    else if 2 ^ 32 ≤ o.chargedCoins ∨ 2 ^ 32 ≤ o.matchPointsAdded ∨ 2 ^ 32 ≤ o.diamondReward then
      ⟨.error .outOfRange, ids, [], [], []⟩
    else if 2 ^ 64 ≤ ids.order then ⟨.error .autoIncrement, ids, [], [], []⟩
    else if d.giftOrders.any (·.lock = row.lock) then ⟨.error .dupKey, next, [], [row.lock], []⟩
    else ⟨.ok ids.order, next, [.giftOrder { row with giftOrderID := ids.order }], [], []⟩
  | .closeSession id at_ => match d.liveSessions id with
    | some s =>
      if s.status = .opened then ⟨.ok 1, ids, [.closeSession id at_], [], []⟩
      else ⟨.ok 0, ids, [], [], []⟩
    | none => ⟨.ok 0, ids, [], [], []⟩
  | .selectSessionStatus id => ⟨.ok ((d.liveSessions id).map (·.status)), ids, [], [], []⟩
  | .selectSessionExists id =>
    ⟨if (d.liveSessions id).isSome then .ok () else .error .noRows, ids, [], [], []⟩
  | .sumAcceptedOrders id =>
    let os := d.acceptedOrders id
    ⟨if fitsInt64 (sumOf (·.chargedCoins) os) && fitsInt64 (sumOf (·.diamondReward) os) then
      .ok (sumOf (·.chargedCoins) os, os.length, sumOf (·.diamondReward) os)
      else .error .scan, ids, [], [], []⟩
  | .upsertSettlement id r =>
    if (d.liveSessions id).isNone then ⟨.error .foreignKey, ids, [], [.settlement id], []⟩
    else ⟨.ok (), ids, [.settlement id r], [], []⟩
  | .sumGiftDebits id =>
    ⟨if fitsInt64 (d.giftDebits id) then .ok (d.giftDebits id) else .error .scan, ids, [], [], []⟩
  | .upsertReconciliation id r =>
    if (d.liveSessions id).isNone then ⟨.error .foreignKey, ids, [], [.reconciliation id], []⟩
    else ⟨.ok (), ids, [.reconciliation id r], [], []⟩
  | .selectSettlement id =>
    ⟨.ok (match d.streamSettlements id, d.reconciliations id with
      | some s, some r => some (s, r)
      | _, _ => none), ids, [], [], []⟩
  | .topContributors id limit =>
    let rows := topByTotal limit (groupSum (·.viewerID) (·.chargedCoins) (d.acceptedOrders id))
    ⟨if rows.all (fitsInt64 ·.2) then .ok rows else .error .scan, ids, [], [], []⟩
  | .selectOutboxBatch limit =>
    let rows := d.outboxBatch busy rank limit
    ⟨.ok rows, ids, [], [], rows.map fun r => .outbox r.eventID⟩
  | .updatePublished at_ id =>
    if d.outboxEvents.any (·.eventID = id) then ⟨.ok (), ids, [.published id at_], [], []⟩
    else ⟨.ok (), ids, [], [], []⟩
  | .insertDedupe c id at_ =>
    let r : DedupeRow := ⟨c, id, at_⟩
    if d.consumerDedupe.any (·.lock = r.lock) then ⟨.error .dupKey, ids, [], [r.lock], []⟩
    else ⟨.ok (), ids, [.dedupe r], [], []⟩
  | .insertFanPoint r =>
    if 2 ^ 31 ≤ r.points then ⟨.error .outOfRange, ids, [], [], []⟩
    else if d.fanPoints.any (·.eventID = r.eventID) then
      ⟨.error .dupKey, ids, [], [.fanPoint r.eventID], []⟩
    else if (d.users r.viewerID).isNone ∨ (d.users r.creatorID).isNone ∨
        (d.liveSessions r.liveSessionID).isNone then ⟨.error .foreignKey, ids, [], [], []⟩
    else ⟨.ok (), ids, [.fanPoint r], [], []⟩
  | .insertCampaignPoint r =>
    if 2 ^ 31 ≤ r.points then ⟨.error .outOfRange, ids, [], [], []⟩
    else if d.campaignPoints.any (·.eventID = r.eventID) then
      ⟨.error .dupKey, ids, [], [.campaignPoint r.eventID], []⟩
    else if (d.users r.creatorID).isNone then ⟨.error .foreignKey, ids, [], [], []⟩
    else ⟨.ok (), ids, [.campaignPoint r], [], []⟩
  | .countFanPoints v s reason =>
    ⟨.ok (d.fanPoints.countP fun r => r.viewerID = v ∧ r.liveSessionID = s ∧ r.reason = reason),
      ids, [], [], []⟩
  | .selectAcceptedOrders id =>
    -- no ORDER BY: the rows come in any order
    ⟨.ok ((d.acceptedOrders id).insertionSort fun a b => rank a.giftOrderID ≤ rank b.giftOrderID),
      ids, [], [], []⟩
  | .selectCampaign id => match d.liveSessions id with
    | some s => ⟨scanNullInt64 s.campaignID, ids, [], [], []⟩
    | none => ⟨.error .noRows, ids, [], [], []⟩
  | .sumCampaignCharges c =>
    let rows := groupSum (·.creatorID) (·.chargedCoins) (d.campaignOrders c)
    ⟨if rows.all (fitsInt64 ·.2) then .ok rows else .error .scan, ids, [], [], []⟩

end LiveRevenue
