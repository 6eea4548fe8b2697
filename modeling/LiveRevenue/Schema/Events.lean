import Mathlib.Algebra.BigOperators.Group.List.Basic
import Mathlib.Algebra.Order.Ring.Int

/-! # Event payloads and messages

The six payloads of `internal/events`, stored in `outbox_events.payload_json` and
carried as message values. A payload is kept as data in place of its JSON text;
unmarshalling one into the struct a consumer expects fills the fields the two
share and leaves the others at their zero values.
-/

namespace LiveRevenue

structure WalletTransactionPostedV1 where
  txID : ℕ
  txType : String
  actorUserID : ℕ
  requestID : String
  deltaCoins : ℤ
  balanceAfter : ℤ
  deriving DecidableEq, Repr

structure LiveGiftAcceptedV1 where
  eventType : String := ""
  giftOrderID : ℕ := 0
  viewerID : ℕ := 0
  creatorID : ℕ := 0
  liveSessionID : ℕ := 0
  campaignID : Option ℕ := none
  matchID : Option ℕ := none
  giftID : String := ""
  quantity : ℕ := 0
  chargedCoins : ℕ := 0
  matchPoints : ℕ := 0
  diamondReward : ℕ := 0
  requestID : String := ""
  deriving DecidableEq, Repr

structure LiveGiftRejectedV1 where
  eventType : String
  viewerID : ℕ
  creatorID : ℕ
  liveSessionID : ℕ
  matchID : Option ℕ
  giftID : String
  quantity : ℕ
  requestID : String
  rejectCode : String
  deriving DecidableEq, Repr

structure LiveCommentCreatedV1 where
  eventID : String := ""
  viewerID : ℕ := 0
  creatorID : ℕ := 0
  liveSessionID : ℕ := 0
  deriving DecidableEq, Repr

structure LiveWatchMinuteV1 where
  eventID : String := ""
  viewerID : ℕ := 0
  creatorID : ℕ := 0
  liveSessionID : ℕ := 0
  deriving DecidableEq, Repr

structure LiveSessionClosedV1 where
  liveSessionID : ℕ := 0
  closedAtMs : ℤ := 0
  deriving DecidableEq, Repr

/-- A message value. `malformed` stands for bytes that are no JSON object. -/
inductive Payload where
  | walletPosted (e : WalletTransactionPostedV1)
  | giftAccepted (e : LiveGiftAcceptedV1)
  | giftRejected (e : LiveGiftRejectedV1)
  | comment (e : LiveCommentCreatedV1)
  | watchMinute (e : LiveWatchMinuteV1)
  | sessionClosed (e : LiveSessionClosedV1)
  | malformed
  deriving DecidableEq, Repr

namespace Payload

def unmarshalGiftAccepted : Payload → Option LiveGiftAcceptedV1
  | .giftAccepted e => some e
  | .giftRejected e => some
      { eventType := e.eventType, viewerID := e.viewerID, creatorID := e.creatorID,
        liveSessionID := e.liveSessionID, matchID := e.matchID, giftID := e.giftID,
        quantity := e.quantity, requestID := e.requestID }
  | .comment e => some
      { viewerID := e.viewerID, creatorID := e.creatorID, liveSessionID := e.liveSessionID }
  | .watchMinute e => some
      { viewerID := e.viewerID, creatorID := e.creatorID, liveSessionID := e.liveSessionID }
  | .sessionClosed e => some { liveSessionID := e.liveSessionID }
  | .walletPosted e => some { requestID := e.requestID }
  | .malformed => none

def unmarshalComment : Payload → Option LiveCommentCreatedV1
  | .comment e => some e
  | .watchMinute e => some ⟨e.eventID, e.viewerID, e.creatorID, e.liveSessionID⟩
  | .giftAccepted e => some
      { viewerID := e.viewerID, creatorID := e.creatorID, liveSessionID := e.liveSessionID }
  | .giftRejected e => some
      { viewerID := e.viewerID, creatorID := e.creatorID, liveSessionID := e.liveSessionID }
  | .sessionClosed e => some { liveSessionID := e.liveSessionID }
  | .walletPosted _ => some {}
  | .malformed => none

/-- `json.Unmarshal` into a `LiveWatchMinuteV1`: the same fields as a comment. -/
def unmarshalWatchMinute (p : Payload) : Option LiveWatchMinuteV1 :=
  p.unmarshalComment.map fun e => ⟨e.eventID, e.viewerID, e.creatorID, e.liveSessionID⟩

def unmarshalSessionClosed : Payload → Option LiveSessionClosedV1
  | .sessionClosed e => some e
  | .giftAccepted e => some { liveSessionID := e.liveSessionID }
  | .giftRejected e => some { liveSessionID := e.liveSessionID }
  | .comment e => some { liveSessionID := e.liveSessionID }
  | .watchMinute e => some { liveSessionID := e.liveSessionID }
  | .walletPosted _ => some {}
  | .malformed => none

end Payload

def walletTopic := "wallet.transaction.posted.v1"
def giftAcceptedTopic := "live.gift.accepted.v1"
def giftRejectedTopic := "live.gift.rejected.v1"
def sessionClosedTopic := "live.session.closed.v1"
def commentTopic := "live.comment.created.v1"
def watchMinuteTopic := "live.watch.minute.v1"

structure Message where
  topic : String
  key : String
  value : Payload
  headers : List (String × String)
  deriving DecidableEq, Repr

end LiveRevenue
