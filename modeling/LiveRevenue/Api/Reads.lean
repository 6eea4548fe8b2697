import Mathlib.Data.List.Lex
import LiveRevenue.Spec.Redis

/-! # Reads of the API

`parseLimit`, `getLiveContributors` and `getCampaignLeaderboard` of
`internal/app/api/server.go` and their fallbacks in `internal/service/read_models.go`.
Each is one read of one server and looks at one state.
-/

namespace LiveRevenue

def atoi (s : String) : Option ℤ :=
  let (negative, digits) := match s.toList with
    | '-' :: cs => (true, cs)
    | '+' :: cs => (false, cs)
    | cs => (false, cs)
  if digits = [] ∨ digits.any (!·.isDigit) then none
  else
    let v : ℤ := (digits.foldl (fun n c => 10 * n + (c.toNat - 48)) 0 : ℕ)
    let n := if negative then -v else v
    if -2 ^ 63 ≤ n ∧ n < 2 ^ 63 then some n else none

def parseLimit (raw : String) : ℤ :=
  if isBlank raw then 20
  else match atoi raw with
    | none => 20
    | some n => if n ≤ 0 then 20 else if 100 < n then 100 else n

def bytes (s : String) : List ℕ := s.toUTF8.data.toList.map UInt8.toNat

theorem bytes_inj {s t : String} (h : bytes s = bytes t) : s = t := by
  have hinj : Function.Injective UInt8.toNat := fun _ _ => UInt8.toNat_inj.mp
  exact String.toByteArray_inj.mp (ByteArray.ext (Array.toList_inj.mp (hinj.list_map h)))

/-- A sorted set from its end: higher scores first, then members with higher bytes. -/
def zRevOrder (a b : String × ℤ) : Prop := b.2 < a.2 ∨ (a.2 = b.2 ∧ bytes b.1 ≤ bytes a.1)

instance : DecidableRel zRevOrder := fun a b =>
  inferInstanceAs (Decidable (b.2 < a.2 ∨ (a.2 = b.2 ∧ bytes b.1 ≤ bytes a.1)))

/-- `ZREVRANGE key 0 stop WITHSCORES`; a negative `stop` counts from the end. -/
def World.zRevRange (w : World) (key : String) (stop : ℤ) : List (String × ℤ) :=
  let entries := (w.entriesOf key).insertionSort zRevOrder
  entries.take ((if stop < 0 then stop + entries.length else stop) + 1).toNat

def World.ranking (w : World) (key : String) (limit : ℤ) : List (ℕ × ℤ) :=
  (w.zRevRange key (limit - 1)).filterMap fun z => (parseUint z.1).map (·, z.2)

def serviceLimit (limit : ℤ) : ℕ := if limit ≤ 0 ∨ 100 < limit then 20 else limit.toNat

def DB.query [Platform] (d : DB) (s : Stmt) : Except SqlErr s.Res :=
  (s.run d ⟨0, 0, 0⟩ (fun _ => false) id).res

namespace Service

def getLiveContributors [Platform] (d : DB) (liveSessionID : ℕ) (limit : ℤ) :
    Except SqlErr (List (ℕ × ℤ)) :=
  d.query (.topContributors liveSessionID (serviceLimit limit))

/-- `SELECT creator_id, COALESCE(SUM(points), 0) … GROUP BY creator_id`. -/
def campaignTotals (d : DB) (campaignID : ℕ) : List (ℕ × ℤ) :=
  let rows := d.campaignPoints.filter fun r => r.campaignID = campaignID
  (rows.map (·.creatorID)).dedup.map fun k =>
    (k, ((rows.filter fun r => r.creatorID = k).map fun r => (r.points : ℤ)).sum)

def getCampaignLeaderboard (d : DB) (campaignID : ℕ) (limit : ℤ) :
    Except SqlErr (List (ℕ × ℤ)) :=
  let rows := topByTotal (serviceLimit limit) (campaignTotals d campaignID)
  if rows.all (fitsInt64 ·.2) then .ok rows else .error .scan

end Service

namespace Server

/-- `Server.getLiveContributors`: from Redis if it answers. -/
def getLiveContributors [Platform] (w : World) (redisUp : Bool) (liveSessionID : ℕ) (limit : ℤ) :
    Except SqlErr (List (ℕ × ℤ)) :=
  if redisUp then .ok (w.ranking (contributorKey liveSessionID) limit)
  else Service.getLiveContributors w.db liveSessionID limit

def getCampaignLeaderboard (w : World) (redisUp : Bool) (campaignID : ℕ) (limit : ℤ) :
    Except SqlErr (List (ℕ × ℤ)) :=
  if redisUp then .ok (w.ranking (campaignKey campaignID) limit)
  else Service.getCampaignLeaderboard w.db campaignID limit

end Server

end LiveRevenue
