import LiveRevenue.Outbox.Relay
import LiveRevenue.Service.Settlement

/-! # The points projector

`internal/projector/points` and the handler of `cmd/points-projector`.
-/

namespace LiveRevenue

def pointsConsumer := "points-projector"
def pointsGroup := "points-projector-v1"

/-- `isDuplicateOrErr` and what its callers do: a duplicate commits and ends the call. -/
def unlessDuplicate (eventID : ℕ) (k : GoBody (Except Err Unit) (Except Err Unit)) :
    GoBody (Except Err Unit) (Except Err Unit) := do
  let appliedAt ← timeNow
  match ← txTry (.insertDedupe pointsConsumer eventID appliedAt) with
  | .error e =>
    if isDupKey e then do
      commitTx retFail
      pure (.ok ())
    else pure (retFail e)
  | .ok () => k

def applyGift (eventID : ℕ) (evt : LiveGiftAcceptedV1) : Go (Except Err Unit) :=
  withTx retFail <| unlessDuplicate eventID do
    txDo retFail (.insertFanPoint
      ⟨eventID, evt.viewerID, evt.creatorID, evt.liveSessionID, evt.chargedCoins, .gift⟩)
    match evt.campaignID with
    | some c => do
      txDo retFail (.insertCampaignPoint ⟨eventID, c, evt.creatorID, evt.chargedCoins⟩)
      commitTx retFail
      pure (.ok ())
    | none => do
      commitTx retFail
      pure (.ok ())

def applyCapped (eventID viewerID creatorID liveSessionID : ℕ) (reason : PointReason)
    (capCount : ℕ) : Go (Except Err Unit) :=
  withTx retFail <| unlessDuplicate eventID do
    let currentCount ← txDo retFail (.countFanPoints viewerID liveSessionID reason)
    if capCount ≤ currentCount then do
      commitTx retFail
      pure (.ok ())
    else do
      txDo retFail (.insertFanPoint ⟨eventID, viewerID, creatorID, liveSessionID, 1, reason⟩)
      commitTx retFail
      pure (.ok ())

def applyComment (eventID : ℕ) (evt : LiveCommentCreatedV1) : Go (Except Err Unit) :=
  applyCapped eventID evt.viewerID evt.creatorID evt.liveSessionID .comment 20

def applyWatchMinute (eventID : ℕ) (evt : LiveWatchMinuteV1) : Go (Except Err Unit) :=
  applyCapped eventID evt.viewerID evt.creatorID evt.liveSessionID .watchMinute 60

/-- The `switch` on the topic: the call that applies a message, `none` for a payload that
does not unmarshal. -/
def pointsApply (m : Message) (eventID : ℕ) : Option (Go (Except Err Unit)) :=
  if m.topic = giftAcceptedTopic then m.value.unmarshalGiftAccepted.map (applyGift eventID)
  else if m.topic = commentTopic then m.value.unmarshalComment.map (applyComment eventID)
  else if m.topic = watchMinuteTopic then
    m.value.unmarshalWatchMinute.map (applyWatchMinute eventID)
  else some (.ret (.ok ()))

def pointsHandle (m : Message) : Go (Except Err Unit) :=
  let eventID := extractEventID m
  if eventID = 0 then markDone pointsGroup "missing_event_id" m
  else match pointsApply m eventID with
    | none => markDone pointsGroup "bad_payload" m
    | some apply => apply.bind fun
      | .error e => .ret (.error e)
      | .ok () => markDone pointsGroup "applied" m

end LiveRevenue
