import LiveRevenue.Outbox.Relay
import LiveRevenue.Service.Settlement

/-! # The leaderboard projector

`internal/projector/leaderboard` and the handler of `cmd/leaderboard-projector`. A
single amount is a `uint32`, which a `float64` holds exactly; sums are rounded.
-/

namespace LiveRevenue

open Transact

def leaderboardConsumer := "leaderboard-projector"
def leaderboardGroup := "leaderboard-projector-v1"

def contributorKey (liveSessionID : ℕ) : String := "lb:contributors:" ++ toString liveSessionID
def campaignKey (campaignID : ℕ) : String := "lb:campaign:" ++ toString campaignID
def matchScoreKey (matchID : ℕ) : String := "match:score:" ++ toString matchID
def creatorField (creatorID : ℕ) : String := "creator_" ++ toString creatorID ++ "_points"

/-- The Redis commands of `ApplyAcceptedGift`, in order. -/
def giftIncrements (evt : LiveGiftAcceptedV1) : List RedisCmd :=
  [RedisCmd.zIncrBy (contributorKey evt.liveSessionID) evt.chargedCoins (toString evt.viewerID)] ++
  (match evt.campaignID with
    | some c => [RedisCmd.zIncrBy (campaignKey c) evt.chargedCoins (toString evt.creatorID)]
    | none => []) ++
  (match evt.matchID with
    | some m => [RedisCmd.hIncrBy (matchScoreKey m) (creatorField evt.creatorID) evt.matchPoints]
    | none => [])

def redisAll {ε : Type} (f : SqlErr → ε) : List RedisCmd → GoBody ε Unit
  | [] => pure ()
  | c :: cs => do
    redisDo f c
    redisAll f cs

/-- `Projector.ApplyAcceptedGift`: the dedupe row is committed before Redis is touched. -/
def applyAcceptedGift (eventID : ℕ) (evt : LiveGiftAcceptedV1) : Go (Except Err Unit) :=
  withTx retFail do
    let appliedAt ← timeNow
    match ← txTry (.insertDedupe leaderboardConsumer eventID appliedAt) with
    | .error e =>
      if isDupKey e then do
        commitTx retFail
        pure (.ok ())
      else pure (retFail e)
    | .ok () => do
      commitTx retFail
      redisAll retFail (giftIncrements evt)
      pure (.ok ())

/-- One round of the leaderboard consumer's `ConsumeClaim`. -/
def leaderboardHandle (m : Message) : Go (Except Err Unit) :=
  let eventID := extractEventID m
  if eventID = 0 then markDone leaderboardGroup "missing_event_id" m
  else match m.value.unmarshalGiftAccepted with
    | none => markDone leaderboardGroup "bad_payload" m
    | some evt => (applyAcceptedGift eventID evt).bind fun
      | .error e => .ret (.error e)
      | .ok () => markDone leaderboardGroup "applied" m

/-- The rows scan into the rebuild's variables: a `match_id` must fit an `int64`. -/
def scanOrders (os : List GiftOrder) : Except SqlErr Unit :=
  if os.all fun o => (o.matchID.all (· < 2 ^ 63)) then .ok () else .error .scan

/-- `contrib[viewerID] += float64(charged)`, row by row. -/
def floatCoins (os : List GiftOrder) : ℤ := Binary64.sum (os.map fun o => (o.chargedCoins : ℤ))

/-- `matchScores[mID][creatorID] += int64(matchPoints)`, row by row. -/
def int64Points (os : List GiftOrder) : ℤ :=
  os.foldl (fun n o => wrap64 (n + o.matchPointsAdded)) 0

def contrib (os : List GiftOrder) : List (String × ℤ) :=
  (groupBy (·.viewerID) floatCoins os).map fun x => (toString x.1, x.2)

def matchFields (os : List GiftOrder) (m : ℕ) : List (String × ℤ) :=
  (groupBy (·.creatorID) int64Points (os.filter fun o => o.matchID = some m)).map
    fun x => (creatorField x.1, x.2)

def campaignZ (rows : List (ℕ × ℤ)) : List (String × ℤ) :=
  rows.map fun x => (toString x.1, Binary64.round x.2)

def matchIDs (os : List GiftOrder) : List ℕ := (os.filterMap (·.matchID)).dedup

/-- Redis commands that replace the contributor set and the match scores of a session. -/
def rebuildCommands (liveSessionID : ℕ) (os : List GiftOrder) : List RedisCmd :=
  [RedisCmd.del (contributorKey liveSessionID)] ++
  (if (contrib os).length = 0 then []
    else [RedisCmd.zAdd (contributorKey liveSessionID) (contrib os)]) ++
  (matchIDs os).flatMap fun m =>
    [RedisCmd.del (matchScoreKey m)] ++
    (if (matchFields os m).length = 0 then []
      else [RedisCmd.hSet (matchScoreKey m) (matchFields os m)])

def rebuildLiveSession (liveSessionID : ℕ) : Go (Except Err Unit) := Body.run do
  let os ← dbDo retFail (.selectAcceptedOrders liveSessionID)
  orReturn retFail (scanOrders os)
  redisAll retFail (rebuildCommands liveSessionID os)
  match ← dbDo retFail (.selectCampaign liveSessionID) with
  | none => pure (.ok ())
  | some c => do
    redisDo retFail (.del (campaignKey c))
    let rows ← dbDo retFail (.sumCampaignCharges c)
    if (campaignZ rows).length = 0 then pure (.ok ())
    else do
      redisDo retFail (.zAdd (campaignKey c) (campaignZ rows))
      pure (.ok ())

end LiveRevenue
