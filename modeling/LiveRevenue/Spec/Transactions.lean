import LiveRevenue.System

/-! # The calls as atomic transactions

What one call may commit, stated on the database it commits to: the writes as a
whole, and the facts about the tables that make them admissible. `Legal`
histories are sequences of such transactions. That the interleaved programs commit
nothing else is `reach_good`; everything proved about legal histories then holds
of every run.
-/

namespace LiveRevenue

open Transact

abbrev History := List (ℕ × List Write)

def DB.balance (d : DB) (u : ℕ) : ℤ := (d.walletAccounts u).getD 0

def DB.opening (d : DB) (u : ℕ) : List Write :=
  if (d.walletAccounts u).isNone then [.openAccount u] else []

def DB.NewEvent (d : DB) (id : ℕ) : Prop := ∀ r ∈ d.outboxEvents, r.eventID ≠ id

def DB.NewTxID (d : DB) (id : ℕ) : Prop :=
  (∀ r ∈ d.walletTxs, r.txID ≠ id) ∧ ∀ e ∈ d.walletEntries, e.txID ≠ id

/-- The id comes after those of all transactions of the user. -/
def DB.LatestTx (d : DB) (u id : ℕ) : Prop :=
  ∀ r ∈ d.walletTxs, r.actorUserID = u → r.txID < id

variable [Platform]

def dbAt (d : DB) (h : History) : DB := h.foldl (fun d e => applyAll e.2 d) d

def DB.NewTxKey (d : DB) (actor : ℕ) (ty : TxType) (requestID : String) : Prop :=
  ∀ r ∈ d.walletTxs, r.lock ≠ .walletTxKey actor ty (Platform.collate requestID)

def DB.NewOrder (d : DB) (o : GiftOrder) : Prop :=
  ∀ r ∈ d.giftOrders, r.giftOrderID ≠ o.giftOrderID ∧ r.lock ≠ o.lock

/-- A wallet transaction with its two entries and the new balance of its actor. -/
def posting (d : DB) (tx : WalletTx) (counter : String) (delta balance : ℤ) : List Write :=
  d.opening tx.actorUserID ++
  [.walletTx tx, .walletEntry ⟨tx.txID, userCoins tx.actorUserID, delta⟩,
    .walletEntry ⟨tx.txID, counter, -delta⟩, .setBalance tx.actorUserID balance]

/-- The event of a wallet transaction; it has the request id in full. -/
def walletEvent (id : ℕ) (tx : WalletTx) (requestID : String) (delta balance : ℤ) (at_ : ℕ) :
    OutboxRow :=
  ⟨id, walletTopic, toString tx.actorUserID,
    .walletPosted ⟨tx.txID, tx.txType.text, tx.actorUserID, requestID, delta, balance⟩, none, at_⟩

structure Recharged (req : RechargeRequest) (d : DB) where
  txID : ℕ
  eventID : ℕ
  txAt : ℕ
  requestAt : ℕ
  eventAt : ℕ
  coins_pos : 1 ≤ req.coins
  coins_le : req.coins ≤ 100000
  fits : Varchar.refuses 64 req.requestID = false
  newTxID : d.NewTxID txID
  latest : d.LatestTx req.viewerID txID
  newTxKey : d.NewTxKey req.viewerID .recharge (Varchar.store 64 req.requestID)
  newRequest : ∀ r ∈ d.rechargeRequests, r.lock ≠ .rechargeRequest req.viewerID
    (Platform.collate (Varchar.store 64 req.requestID))
  newEvent : d.NewEvent eventID

namespace Recharged

variable {req : RechargeRequest} {d : DB} (p : Recharged req d)

def tx : WalletTx :=
  ⟨p.txID, .recharge, req.viewerID, Varchar.store 64 req.requestID, Platform.rechargeHash req,
    p.txAt⟩

def newBalance (_ : Recharged req d) : ℤ := wrap64 (d.balance req.viewerID + req.coins)

def request : RechargeRow := RechargeRow.stored
  ⟨req.viewerID, req.requestID, Platform.rechargeHash req, req.coins, req.paymentRef, p.newBalance,
    p.txID, p.requestAt⟩

def event : OutboxRow :=
  walletEvent p.eventID p.tx req.requestID req.coins p.newBalance p.eventAt

def writes : List Write :=
  posting d p.tx "SYSTEM_TOPUP_SOURCE" req.coins p.newBalance ++
  [.rechargeRequest p.request, .outbox p.event]

def response : RechargeResponse := ⟨p.txID, req.viewerID, req.coins, p.newBalance, "created"⟩

end Recharged

def rejections : List (String × ℕ) :=
  [("LIVE_SESSION_NOT_FOUND", 404), ("LIVE_SESSION_CLOSED", 409), ("GIFT_NOT_FOUND", 404),
    ("CREATOR_NOT_ELIGIBLE", 403), ("MATCH_CLOSED", 409), ("INSUFFICIENT_BALANCE", 409)]

/-- A gift that is recorded as rejected. Only the balance check comes after the upsert
of the wallet. -/
structure Rejected (req : GiftRequest) (d : DB) where
  code : String
  httpStatus : ℕ
  orderID : ℕ
  eventID : ℕ
  orderAt : ℕ
  eventAt : ℕ
  known : (code, httpStatus) ∈ rejections
  fits : Varchar.refuses 32 req.giftID = false ∧ Varchar.refuses 64 req.requestID = false
  newEvent : d.NewEvent eventID
  newOrder : d.NewOrder { (rejectedOrder req (Platform.giftHash req) code orderAt).stored with
    giftOrderID := orderID }

namespace Rejected

variable {req : GiftRequest} {d : DB} (p : Rejected req d)

def order : GiftOrder :=
  { (rejectedOrder req (Platform.giftHash req) p.code p.orderAt).stored with
    giftOrderID := p.orderID }

def event : OutboxRow :=
  ⟨p.eventID, giftRejectedTopic, toString req.liveSessionID, .giftRejected
    ⟨giftRejectedTopic, req.viewerID, req.creatorID, req.liveSessionID, req.matchID, req.giftID,
      req.quantity, req.requestID, p.code⟩, none, p.eventAt⟩

def writes : List Write :=
  (if p.code = "INSUFFICIENT_BALANCE" then d.opening req.viewerID else []) ++
  [.giftOrder p.order, .outbox p.event]

def error : AppError := ⟨p.httpStatus, p.code, rejectMessage p.code⟩

end Rejected

/-- A gift that is accepted: what the policy read, and that the wallet covers the price. -/
structure Accepted (req : GiftRequest) (d : DB) where
  gift : Gift
  session : LiveSession
  matched : Option LiveMatch
  txID : ℕ
  orderID : ℕ
  walletEventID : ℕ
  giftEventID : ℕ
  txAt : ℕ
  orderAt : ℕ
  walletAt : ℕ
  giftAt : ℕ
  gift_eq : d.giftCatalog.find? (fun x => Platform.collate x.giftID = Platform.collate req.giftID) =
    some gift
  enabled : gift.enabled = true
  session_eq : d.liveSessions req.liveSessionID = some session
  creator : ∃ u, d.users req.creatorID = some u ∧ eligible u = true
  viewer : d.users req.viewerID ≠ none
  quantity_le : req.quantity ≤ 99
  match_eq : matched = req.matchID.bind d.liveMatches
  match_ok : ∀ id, req.matchID = some id → ∃ m, matched = some m ∧
    m.liveSessionID = req.liveSessionID ∧ m.status = .opened
  amounts : GiftAmounts
  charged_eq : amounts.charged = wrap64 (gift.coinPrice * req.quantity)
  matchPoints_eq : amounts.matchPoints = giftMatchPoints req gift matched
  diamondReward_eq : amounts.diamondReward = wrap64 (gift.diamondReward * req.quantity)
  charged_pos : 0 < amounts.charged
  charged_lt : amounts.charged < 2 ^ 32
  matchPoints_nonneg : 0 ≤ amounts.matchPoints
  diamondReward_nonneg : 0 ≤ amounts.diamondReward
  covered : amounts.charged ≤ d.balance req.viewerID
  fits : Varchar.refuses 32 req.giftID = false ∧ Varchar.refuses 64 req.requestID = false
  newTxID : d.NewTxID txID
  latest : d.LatestTx req.viewerID txID
  newTxKey : d.NewTxKey req.viewerID .giftDebit (Varchar.store 64 req.requestID)
  newOrder : d.NewOrder { (acceptedOrder req (Platform.giftHash req) amounts
    (d.balance req.viewerID - amounts.charged) orderAt).stored with giftOrderID := orderID }
  newWalletEvent : d.NewEvent walletEventID
  newGiftEvent : d.NewEvent giftEventID
  events_ne : walletEventID ≠ giftEventID

namespace Accepted

variable {req : GiftRequest} {d : DB} (p : Accepted req d)

def newBalance : ℤ := d.balance req.viewerID - p.amounts.charged

def tx : WalletTx :=
  ⟨p.txID, .giftDebit, req.viewerID, Varchar.store 64 req.requestID, Platform.giftHash req, p.txAt⟩

def order : GiftOrder :=
  { (acceptedOrder req (Platform.giftHash req) p.amounts p.newBalance p.orderAt).stored with
    giftOrderID := p.orderID }

def walletEvent : OutboxRow :=
  LiveRevenue.walletEvent p.walletEventID p.tx req.requestID (-p.amounts.charged) p.newBalance
    p.walletAt

def giftEvent : OutboxRow :=
  ⟨p.giftEventID, giftAcceptedTopic, toString req.liveSessionID, .giftAccepted
    ⟨giftAcceptedTopic, p.orderID, req.viewerID, req.creatorID, req.liveSessionID,
      p.session.campaignID, req.matchID, req.giftID, req.quantity, p.amounts.charged.toNat,
      p.amounts.matchPoints.toNat, p.amounts.diamondReward.toNat, req.requestID⟩, none, p.giftAt⟩

def writes : List Write :=
  posting d p.tx "PLATFORM_RESERVED_COINS" (-p.amounts.charged) p.newBalance ++
  [.giftOrder p.order, .outbox p.walletEvent, .outbox p.giftEvent]

def response : GiftResponse :=
  ⟨p.orderID, true, p.amounts.charged.toNat, p.amounts.matchPoints.toNat,
    p.amounts.diamondReward.toNat, p.newBalance, "created"⟩

end Accepted

structure Closed (liveSessionID : ℕ) (d : DB) where
  session : LiveSession
  closedAt : ℕ
  closedAtMs : ℕ
  eventID : ℕ
  eventAt : ℕ
  session_eq : d.liveSessions liveSessionID = some session
  session_open : session.status = .opened
  newEvent : d.NewEvent eventID

namespace Closed

variable {liveSessionID : ℕ} {d : DB} (p : Closed liveSessionID d)

def event : OutboxRow :=
  ⟨p.eventID, sessionClosedTopic, toString liveSessionID,
    .sessionClosed ⟨liveSessionID, p.closedAtMs⟩, none, p.eventAt⟩

def writes : List Write := [.closeSession liveSessionID p.closedAt, .outbox p.event]

end Closed

def DB.settlement (d : DB) (s settledAt : ℕ) : StreamSettlement :=
  ⟨sumOf (·.chargedCoins) (d.acceptedOrders s), (d.acceptedOrders s).length,
    sumOf (·.diamondReward) (d.acceptedOrders s), settledAt⟩

/-- A settlement: its totals were read after `read` transactions, the debits no earlier. -/
structure Settled (liveSessionID : ℕ) (d : DB) (h : History) where
  read : History
  reread : History
  settledAt : ℕ
  reconciledAt : ℕ
  read_le : read <+: reread
  reread_le : reread <+: h

namespace Settled

variable {liveSessionID : ℕ} {d : DB} {h : History} (p : Settled liveSessionID d h)

def row : StreamSettlement := (dbAt d p.read).settlement liveSessionID p.settledAt

def writes : List Write :=
  [.settlement liveSessionID p.row, .reconciliation liveSessionID
    (reconcile ((dbAt d p.reread).giftDebits liveSessionID) p.row.grossCoinSpend p.reconciledAt)]

end Settled

/-- Rows a relay marks: unpublished ones, each once. -/
structure Published (d : DB) where
  rows : List OutboxRow
  now : ℕ
  mem : ∀ r ∈ rows, r ∈ d.outboxEvents ∧ r.publishedAt = none
  nodup : (rows.map (·.eventID)).Nodup

def Published.writes {d : DB} (p : Published d) : List Write :=
  p.rows.map fun r => .published r.eventID p.now

def PointReason.cap : PointReason → ℕ
  | .gift => 0
  | .comment => 20
  | .watchMinute => 60

def FanPoint.alike (r r' : FanPoint) : Bool :=
  r'.viewerID = r.viewerID ∧ r'.liveSessionID = r.liveSessionID ∧ r'.reason = r.reason

def Message.cappedPoint (m : Message) : Option FanPoint :=
  if m.topic = commentTopic then m.value.unmarshalComment.map fun evt =>
    ⟨extractEventID m, evt.viewerID, evt.creatorID, evt.liveSessionID, 1, .comment⟩
  else if m.topic = watchMinuteTopic then m.value.unmarshalWatchMinute.map fun evt =>
    ⟨extractEventID m, evt.viewerID, evt.creatorID, evt.liveSessionID, 1, .watchMinute⟩
  else none

def LiveGiftAcceptedV1.fanPoint (evt : LiveGiftAcceptedV1) (eventID : ℕ) : FanPoint :=
  ⟨eventID, evt.viewerID, evt.creatorID, evt.liveSessionID, evt.chargedCoins, .gift⟩

def LiveGiftAcceptedV1.campaignPoints (evt : LiveGiftAcceptedV1) (eventID : ℕ) :
    List CampaignPoint :=
  evt.campaignID.toList.map fun c => ⟨eventID, c, evt.creatorID, evt.chargedCoins⟩

def Message.point (m : Message) : Option FanPoint :=
  if m.topic = giftAcceptedTopic then
    m.value.unmarshalGiftAccepted.map (·.fanPoint (extractEventID m))
  else m.cappedPoint

/-- The ledger takes the row: its points fit their column and the rows it refers to exist. -/
def DB.Payable (d : DB) (r : FanPoint) : Prop :=
  r.points < 2 ^ 31 ∧ d.users r.viewerID ≠ none ∧ d.users r.creatorID ≠ none ∧
    d.liveSessions r.liveSessionID ≠ none

omit [Platform] in
theorem DB.Grows.payable {d d' : DB} (hg : d.Grows d') {r : FanPoint} :
    d'.Payable r ↔ d.Payable r := by
  have hsession : d'.liveSessions r.liveSessionID = none ↔
    d.liveSessions r.liveSessionID = none := by
    have h := hg.sessionFixed r.liveSessionID
    rw [← Option.map_eq_none_iff (f := LiveSession.fixed), h, Option.map_eq_none_iff]
  simp only [DB.Payable, hg.users, ne_eq, hsession]

/-- What applying a message to the points ledgers adds besides the dedupe row. -/
inductive Points (m : Message) (eventID : ℕ) (d : DB) : List Write → Prop where
  | gift {evt : LiveGiftAcceptedV1} : m.topic = giftAcceptedTopic →
      m.value.unmarshalGiftAccepted = some evt →
      (∀ r ∈ d.fanPoints, r.eventID ≠ eventID) →
      (evt.campaignID ≠ none → ∀ r ∈ d.campaignPoints, r.eventID ≠ eventID) →
      d.Payable (evt.fanPoint eventID) →
      Points m eventID d ([.fanPoint
        ⟨eventID, evt.viewerID, evt.creatorID, evt.liveSessionID, evt.chargedCoins, .gift⟩] ++
        evt.campaignID.toList.map fun c =>
          .campaignPoint ⟨eventID, c, evt.creatorID, evt.chargedCoins⟩)
  | capped {r : FanPoint} : m.topic ≠ giftAcceptedTopic → m.cappedPoint = some r →
      r.reason.cap ≤ d.fanPoints.countP r.alike → Points m eventID d []
  | counted {r : FanPoint} : m.topic ≠ giftAcceptedTopic → m.cappedPoint = some r →
      (∀ r ∈ d.fanPoints, r.eventID ≠ eventID) → d.Payable r → Points m eventID d [.fanPoint r]

structure Enqueued (topic key : String) (payloads : List Payload) (d : DB) where
  rows : List OutboxRow
  rows_eq : rows.map (fun r => (r.topic, r.eventKey, r.payload, r.publishedAt)) =
    payloads.map fun p => (topic, key, p, none)
  newEvents : ∀ r ∈ rows, d.NewEvent r.eventID
  nodup : (rows.map (·.eventID)).Nodup

def Enqueued.writes {topic key : String} {payloads : List Payload} {d : DB}
    (p : Enqueued topic key payloads d) : List Write := p.rows.map .outbox

def InternalWatchMinutesRequest.payloads (req : InternalWatchMinutesRequest) : List Payload :=
  (List.range req.minutes.toNat).map fun i => req.payload (.ofNat (i + 1))

structure Deduped (consumer : String) (eventID : ℕ) (d : DB) where
  appliedAt : ℕ
  newRow : ∀ r ∈ d.consumerDedupe, r.lock ≠ .dedupe consumer eventID

def Deduped.row {consumer : String} {eventID : ℕ} {d : DB} (p : Deduped consumer eventID d) :
    DedupeRow := ⟨consumer, eventID, p.appliedAt⟩

/-- What a call may commit after the history `h`. -/
inductive Txn (d : DB) (h : History) : Call → List Write → Prop where
  | nothing (c : Call) : Txn d h c []
  | opened {req : GiftRequest} : (dbAt d h).walletAccounts req.viewerID = none →
      Txn d h (.sendGift req) [.openAccount req.viewerID]
  | recharged {req : RechargeRequest} (p : Recharged req (dbAt d h)) :
      Txn d h (.recharge req) p.writes
  | rejected {req : GiftRequest} (p : Rejected req (dbAt d h)) : Txn d h (.sendGift req) p.writes
  | accepted {req : GiftRequest} (p : Accepted req (dbAt d h)) : Txn d h (.sendGift req) p.writes
  | closed {id : ℕ} (p : Closed id (dbAt d h)) : Txn d h (.closeLiveSession id) p.writes
  | settled {id : ℕ} (p : Settled id d h) : Txn d h (.generateSettlement id) p.writes
  | settledBy {m : Message} {evt : LiveSessionClosedV1} (p : Settled evt.liveSessionID d h) :
      m.topic = sessionClosedTopic → m.value.unmarshalSessionClosed = some evt →
      (∃ r ∈ (dbAt d p.read).outboxEvents, r.message = some m) →
      Txn d h (.settlement m) p.writes
  | published {n : ℤ} (p : Published (dbAt d h)) : Txn d h (.runOnce n) p.writes
  | leaderboard {m : Message} {evt : LiveGiftAcceptedV1}
      (p : Deduped leaderboardConsumer (extractEventID m) (dbAt d h)) :
      extractEventID m ≠ 0 → m.value.unmarshalGiftAccepted = some evt →
      Txn d h (.leaderboard m) [.dedupe p.row]
  | points {m : Message} {ws : List Write}
      (p : Deduped pointsConsumer (extractEventID m) (dbAt d h)) :
      extractEventID m ≠ 0 → Points m (extractEventID m) (dbAt d h) ws →
      Txn d h (.points m) (.dedupe p.row :: ws)
  | commented {req : InternalCommentRequest}
      (p : Enqueued commentTopic (toString req.liveSessionID) [req.payload] (dbAt d h)) :
      Txn d h (.enqueueComment req) p.writes
  | watched {req : InternalWatchMinutesRequest}
      (p : Enqueued watchMinuteTopic (toString req.liveSessionID) req.payloads (dbAt d h)) :
      Txn d h (.enqueueWatchMinutes req) p.writes

/-- Histories in which process `t` commits what `calls t` may commit. -/
inductive Legal (calls : ℕ → Call) (d : DB) : History → Prop where
  | nil : Legal calls d []
  | snoc {h : History} {t : ℕ} {ws : List Write} :
      Legal calls d h → Txn d h (calls t) ws → Legal calls d (h ++ [(t, ws)])

end LiveRevenue
