import Mathlib.Data.List.Sort
import LiveRevenue.Json.Record
import LiveRevenue.Json.RoundTrip
import LiveRevenue.Api.Reads
import LiveRevenue.Service.InternalEvents

/-! # JSON texts of the program

The struct tags of `internal/events` and of the requests in `internal/service`, what
`json.Marshal` makes of these structs, what the column `payload_json` makes of such a
text, and what `json.Unmarshal` and `Decoder.Decode` read into the structs. Strings are
strings of characters here, so bytes that are no UTF-8 do not occur.
-/

namespace LiveRevenue

open Json

inductive Tag where
  | txID | txType | actorUserID | requestID | deltaCoins | balanceAfter
  | eventType | giftOrderID | viewerID | creatorID | liveSessionID | campaignID | matchID
  | giftID | quantity | chargedCoins | matchPoints | diamondReward | rejectCode
  | eventID | closedAtMs | coins | paymentRef | sentAtMS | minutes
  deriving DecidableEq, Repr

namespace Tag

def text : Tag → String
  | txID => "tx_id"
  | txType => "tx_type"
  | actorUserID => "actor_user_id"
  | requestID => "request_id"
  | deltaCoins => "delta_coins"
  | balanceAfter => "balance_after"
  | eventType => "event_type"
  | giftOrderID => "gift_order_id"
  | viewerID => "viewer_id"
  | creatorID => "creator_id"
  | liveSessionID => "live_session_id"
  | campaignID => "campaign_id"
  | matchID => "match_id"
  | giftID => "gift_id"
  | quantity => "quantity"
  | chargedCoins => "charged_coins"
  | matchPoints => "match_points_added"
  | diamondReward => "diamond_reward"
  | rejectCode => "reject_code"
  | eventID => "event_id"
  | closedAtMs => "closed_at_ms"
  | coins => "coins"
  | paymentRef => "payment_ref"
  | sentAtMS => "sent_at_ms"
  | minutes => "minutes"

def name (t : Tag) : List Char := t.text.toList

end Tag

section Encode

def uintValue (n : ℕ) : Value := .num (natural n)

def intValue (i : ℤ) : Value := .num (integer i)

def textValue (s : String) : Value := .str s.toList

def omitEmpty (t : Tag) (p : Option ℕ) : List (Tag × Value) :=
  (p.map fun n => (t, uintValue n)).toList

def ptrValue : Option ℕ → Value
  | some n => uintValue n
  | none => .null

/-- `encoding/json` with HTML escaping, as `json.Marshal` prints. -/
def goStyle : Style where
  escape := escapeWith fun c => c ∈ ['<', '>', '&', '\u2028', '\u2029']
  comma := [',']
  colon := [':']

def marshalMembers (ms : List (Tag × Value)) : List Char := record goStyle (withNames Tag.name ms)

def Payload.members : Payload → List (Tag × Value)
  | .walletPosted e =>
    [(.txID, uintValue e.txID), (.txType, textValue e.txType),
      (.actorUserID, uintValue e.actorUserID), (.requestID, textValue e.requestID),
      (.deltaCoins, intValue e.deltaCoins), (.balanceAfter, intValue e.balanceAfter)]
  | .giftAccepted e =>
    [(.eventType, textValue e.eventType), (.giftOrderID, uintValue e.giftOrderID),
      (.viewerID, uintValue e.viewerID), (.creatorID, uintValue e.creatorID),
      (.liveSessionID, uintValue e.liveSessionID)] ++
    omitEmpty .campaignID e.campaignID ++ omitEmpty .matchID e.matchID ++
    [(.giftID, textValue e.giftID), (.quantity, uintValue e.quantity),
      (.chargedCoins, uintValue e.chargedCoins), (.matchPoints, uintValue e.matchPoints),
      (.diamondReward, uintValue e.diamondReward), (.requestID, textValue e.requestID)]
  | .giftRejected e =>
    [(.eventType, textValue e.eventType), (.viewerID, uintValue e.viewerID),
      (.creatorID, uintValue e.creatorID), (.liveSessionID, uintValue e.liveSessionID)] ++
    omitEmpty .matchID e.matchID ++
    [(.giftID, textValue e.giftID), (.quantity, uintValue e.quantity),
      (.requestID, textValue e.requestID), (.rejectCode, textValue e.rejectCode)]
  | .comment e =>
    [(.eventID, textValue e.eventID), (.viewerID, uintValue e.viewerID),
      (.creatorID, uintValue e.creatorID), (.liveSessionID, uintValue e.liveSessionID)]
  | .watchMinute e =>
    [(.eventID, textValue e.eventID), (.viewerID, uintValue e.viewerID),
      (.creatorID, uintValue e.creatorID), (.liveSessionID, uintValue e.liveSessionID)]
  | .sessionClosed e =>
    [(.liveSessionID, uintValue e.liveSessionID), (.closedAtMs, intValue e.closedAtMs)]
  | .malformed => []

def Payload.marshalJSONString (p : Payload) : List Char := marshalMembers p.members

def RechargeRequest.members (req : RechargeRequest) : List (Tag × Value) :=
  [(.requestID, textValue req.requestID), (.viewerID, uintValue req.viewerID),
    (.coins, uintValue req.coins), (.paymentRef, textValue req.paymentRef)]

def GiftRequest.members (req : GiftRequest) : List (Tag × Value) :=
  [(.requestID, textValue req.requestID), (.viewerID, uintValue req.viewerID),
    (.creatorID, uintValue req.creatorID), (.liveSessionID, uintValue req.liveSessionID),
    (.matchID, ptrValue req.matchID), (.giftID, textValue req.giftID),
    (.quantity, uintValue req.quantity), (.sentAtMS, intValue req.sentAtMS)]

def RechargeRequest.marshal (req : RechargeRequest) : List Char := marshalMembers req.members

def GiftRequest.marshal (req : GiftRequest) : List Char := marshalMembers req.members

end Encode

section Types

structure WalletTransactionPostedV1.Fits (e : WalletTransactionPostedV1) : Prop where
  txID : e.txID < 2 ^ 64
  actorUserID : e.actorUserID < 2 ^ 64
  deltaCoins : fitsInt64 e.deltaCoins = true
  balanceAfter : fitsInt64 e.balanceAfter = true

structure LiveGiftAcceptedV1.Fits (e : LiveGiftAcceptedV1) : Prop where
  giftOrderID : e.giftOrderID < 2 ^ 64
  viewerID : e.viewerID < 2 ^ 64
  creatorID : e.creatorID < 2 ^ 64
  liveSessionID : e.liveSessionID < 2 ^ 64
  campaignID : ∀ n ∈ e.campaignID, n < 2 ^ 64
  matchID : ∀ n ∈ e.matchID, n < 2 ^ 64
  quantity : e.quantity < 2 ^ 16
  chargedCoins : e.chargedCoins < 2 ^ 32
  matchPoints : e.matchPoints < 2 ^ 32
  diamondReward : e.diamondReward < 2 ^ 32

structure LiveGiftRejectedV1.Fits (e : LiveGiftRejectedV1) : Prop where
  viewerID : e.viewerID < 2 ^ 64
  creatorID : e.creatorID < 2 ^ 64
  liveSessionID : e.liveSessionID < 2 ^ 64
  matchID : ∀ n ∈ e.matchID, n < 2 ^ 64
  quantity : e.quantity < 2 ^ 16

structure LiveCommentCreatedV1.Fits (e : LiveCommentCreatedV1) : Prop where
  viewerID : e.viewerID < 2 ^ 64
  creatorID : e.creatorID < 2 ^ 64
  liveSessionID : e.liveSessionID < 2 ^ 64

structure LiveWatchMinuteV1.Fits (e : LiveWatchMinuteV1) : Prop where
  viewerID : e.viewerID < 2 ^ 64
  creatorID : e.creatorID < 2 ^ 64
  liveSessionID : e.liveSessionID < 2 ^ 64

structure LiveSessionClosedV1.Fits (e : LiveSessionClosedV1) : Prop where
  liveSessionID : e.liveSessionID < 2 ^ 64
  closedAtMs : fitsInt64 e.closedAtMs = true

/-- A payload the service can build. -/
def Payload.Fits : Payload → Prop
  | .walletPosted e => e.Fits
  | .giftAccepted e => e.Fits
  | .giftRejected e => e.Fits
  | .comment e => e.Fits
  | .watchMinute e => e.Fits
  | .sessionClosed e => e.Fits
  | .malformed => False

structure RechargeRequest.Fits (req : RechargeRequest) : Prop where
  viewerID : req.viewerID < 2 ^ 64
  coins : req.coins < 2 ^ 32

structure GiftRequest.Fits (req : GiftRequest) : Prop where
  viewerID : req.viewerID < 2 ^ 64
  creatorID : req.creatorID < 2 ^ 64
  liveSessionID : req.liveSessionID < 2 ^ 64
  matchID : ∀ n ∈ req.matchID, n < 2 ^ 64
  quantity : req.quantity < 2 ^ 16
  sentAtMS : fitsInt64 req.sentAtMS = true

end Types

section Column

/-- The server's text of a JSON column. -/
def mysqlStyle : Style where
  escape := escapeWith fun _ => false
  comma := [',', ' ']
  colon := [':', ' ']

def keyOrder (x y : List ℕ) : Prop := x.length < y.length ∨ (x.length = y.length ∧ x ≤ y)

instance : DecidableRel keyOrder := fun x y =>
  inferInstanceAs (Decidable (x.length < y.length ∨ (x.length = y.length ∧ x ≤ y)))

/-- The order in which members are stored. -/
def columnOrder (a b : List Char × Value) : Prop :=
  keyOrder (bytes (String.ofList a.1)) (bytes (String.ofList b.1))

instance : DecidableRel columnOrder := fun a b =>
  inferInstanceAs (Decidable (keyOrder (bytes (String.ofList a.1)) (bytes (String.ofList b.1))))

def isColumnScalar : Value → Bool
  | .str _ => true
  | .num lit => (parseUint (String.ofList lit)).any (fun n => natural n = lit) ||
      (atoi (String.ofList lit)).any (fun i => integer i = lit)
  | _ => false

/-- `CAST(payload_json AS CHAR)` of a column that was given a text. Only objects of strings
and 64-bit integers are covered, which is what the service stores. -/
def payloadColumn (text : List Char) : Option (List Char) :=
  match parse text with
  | some (.obj fs) =>
    if fs.all (isColumnScalar ·.2) ∧ (fs.map (·.1)).Nodup then
      some (record mysqlStyle (fs.insertionSort columnOrder))
    else none
  | _ => none

end Column

section Decode

def readText : Value → String → Option String
  | .str s, _ => some (String.ofList s)
  | .null, a => some a
  | _, _ => none

def readUint (bits : ℕ) : Value → ℕ → Option ℕ
  | .num lit, _ => (parseUint (String.ofList lit)).filter (· < 2 ^ bits)
  | .null, a => some a
  | _, _ => none

def readInt : Value → ℤ → Option ℤ
  | .num lit, _ => atoi (String.ofList lit)
  | .null, a => some a
  | _, _ => none

def readPtr : Value → Option ℕ → Option (Option ℕ)
  | .num lit, _ => (parseUint (String.ofList lit)).map some
  | .null, _ => some none
  | _, _ => none

variable (fs : List (List Char × Value))

def textField (t : Tag) : Option String := field readText "" t.name fs
def uintField (bits : ℕ) (t : Tag) : Option ℕ := field (readUint bits) 0 t.name fs
def intField (t : Tag) : Option ℤ := field readInt 0 t.name fs
def ptrField (t : Tag) : Option (Option ℕ) := field readPtr none t.name fs

def decodeGiftAccepted : Option LiveGiftAcceptedV1 := do
  let eventType ← textField fs .eventType
  let giftOrderID ← uintField fs 64 .giftOrderID
  let viewerID ← uintField fs 64 .viewerID
  let creatorID ← uintField fs 64 .creatorID
  let liveSessionID ← uintField fs 64 .liveSessionID
  let campaignID ← ptrField fs .campaignID
  let matchID ← ptrField fs .matchID
  let giftID ← textField fs .giftID
  let quantity ← uintField fs 16 .quantity
  let chargedCoins ← uintField fs 32 .chargedCoins
  let matchPoints ← uintField fs 32 .matchPoints
  let diamondReward ← uintField fs 32 .diamondReward
  let requestID ← textField fs .requestID
  some { eventType, giftOrderID, viewerID, creatorID, liveSessionID, campaignID, matchID, giftID,
         quantity, chargedCoins, matchPoints, diamondReward, requestID }

def decodeComment : Option LiveCommentCreatedV1 := do
  let eventID ← textField fs .eventID
  let viewerID ← uintField fs 64 .viewerID
  let creatorID ← uintField fs 64 .creatorID
  let liveSessionID ← uintField fs 64 .liveSessionID
  some { eventID, viewerID, creatorID, liveSessionID }

def decodeWatchMinute : Option LiveWatchMinuteV1 := do
  let eventID ← textField fs .eventID
  let viewerID ← uintField fs 64 .viewerID
  let creatorID ← uintField fs 64 .creatorID
  let liveSessionID ← uintField fs 64 .liveSessionID
  some { eventID, viewerID, creatorID, liveSessionID }

def decodeSessionClosed : Option LiveSessionClosedV1 := do
  let liveSessionID ← uintField fs 64 .liveSessionID
  let closedAtMs ← intField fs .closedAtMs
  some { liveSessionID, closedAtMs }

def decodeRechargeRequest : Option RechargeRequest := do
  let requestID ← textField fs .requestID
  let viewerID ← uintField fs 64 .viewerID
  let coins ← uintField fs 32 .coins
  let paymentRef ← textField fs .paymentRef
  some { requestID, viewerID, coins, paymentRef }

def decodeGiftRequest : Option GiftRequest := do
  let requestID ← textField fs .requestID
  let viewerID ← uintField fs 64 .viewerID
  let creatorID ← uintField fs 64 .creatorID
  let liveSessionID ← uintField fs 64 .liveSessionID
  let matchID ← ptrField fs .matchID
  let giftID ← textField fs .giftID
  let quantity ← uintField fs 16 .quantity
  let sentAtMS ← intField fs .sentAtMS
  some { requestID, viewerID, creatorID, liveSessionID, matchID, giftID, quantity, sentAtMS }

def decodeCommentRequest : Option InternalCommentRequest := do
  let eventID ← textField fs .eventID
  let viewerID ← uintField fs 64 .viewerID
  let creatorID ← uintField fs 64 .creatorID
  let liveSessionID ← uintField fs 64 .liveSessionID
  some { eventID, viewerID, creatorID, liveSessionID }

def decodeWatchMinutesRequest : Option InternalWatchMinutesRequest := do
  let eventID ← textField fs .eventID
  let viewerID ← uintField fs 64 .viewerID
  let creatorID ← uintField fs 64 .creatorID
  let liveSessionID ← uintField fs 64 .liveSessionID
  let minutes ← uintField fs 16 .minutes
  some { eventID, viewerID, creatorID, liveSessionID, minutes := UInt16.ofNat minutes }

/-- `json.Unmarshal(text, &v)`: the whole text is one value. -/
def unmarshal {α : Type} (decode : List (List Char × Value) → Option α) (text : List Char) :
    Option α :=
  ((parse text).bind membersOf).bind decode

/-- `json.NewDecoder(r.Body).Decode(&v)`: what follows the first value is not read. -/
def decodeBody {α : Type} (decode : List (List Char × Value) → Option α) (body : List Char) :
    Option α :=
  ((first body).bind membersOf).bind decode

end Decode

end LiveRevenue
