import LiveRevenue.Service.Settlement

/-! # Ingest of comments and watched minutes

`internal/service/internal_events.go`: one outbox event per comment, written outside any
transaction, and one per watched minute, all in one transaction. The ids in a request
are checked to be non-zero and looked up nowhere.
-/

namespace LiveRevenue

open Transact

structure InternalCommentRequest where
  eventID : String
  viewerID : ℕ
  creatorID : ℕ
  liveSessionID : ℕ
  deriving DecidableEq, Repr

structure InternalWatchMinutesRequest where
  eventID : String
  viewerID : ℕ
  creatorID : ℕ
  liveSessionID : ℕ
  minutes : UInt16
  deriving DecidableEq, Repr

def InternalCommentRequest.payload (req : InternalCommentRequest) : Payload :=
  .comment ⟨req.eventID, req.viewerID, req.creatorID, req.liveSessionID⟩

def InternalWatchMinutesRequest.payload (req : InternalWatchMinutesRequest) (i : UInt16) :
    Payload :=
  .watchMinute ⟨req.eventID ++ "-" ++ toString i.toNat, req.viewerID, req.creatorID,
    req.liveSessionID⟩

def enqueueCommentEvent (req : InternalCommentRequest) : Go (Option AppError) :=
  if isBlank req.eventID ∨ req.viewerID = 0 ∨ req.creatorID = 0 ∨ req.liveSessionID = 0 then
    .ret (some errValidation)
  else Body.run do
    let createdAt ← timeNow
    dbDo internalError (.insertOutbox commentTopic (toString req.liveSessionID) req.payload
      createdAt)
    pure none

/-- `return 0, &AppError{500, "INTERNAL_ERROR", err.Error()}`. -/
def retInternal (e : SqlErr) : Except AppError ℕ := .error ⟨500, "INTERNAL_ERROR", e.error⟩

/-- `for i := uint16(1); i <= req.Minutes; i++`. The counter wraps. Every round uses up an
event id, so 2^64 rounds are never exceeded. -/
def watchMinutes (req : InternalWatchMinutesRequest) :
    (rounds : ℕ) → (i : UInt16) → GoBody (Except AppError ℕ) Unit
  | 0, _ => throw (retInternal .autoIncrement)
  | rounds + 1, i =>
    if i ≤ req.minutes then do
      let createdAt ← timeNow
      txDo retInternal (.insertOutbox watchMinuteTopic (toString req.liveSessionID)
        (req.payload i) createdAt)
      watchMinutes req rounds (i + 1)
    else pure ()

def enqueueWatchMinuteEvents (req : InternalWatchMinutesRequest) : Go (Except AppError ℕ) :=
  if isBlank req.eventID ∨ req.viewerID = 0 ∨ req.creatorID = 0 ∨ req.liveSessionID = 0 ∨
      req.minutes = 0 then .ret (.error errValidation)
  else withTx retInternal do
    watchMinutes req (2 ^ 64) 1
    commitTx retInternal
    pure (.ok req.minutes.toNat)

end LiveRevenue
