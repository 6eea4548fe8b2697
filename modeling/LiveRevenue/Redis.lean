import LiveRevenue.Binary64
import LiveRevenue.Schema.Contracts

/-! # Redis

The commands the projector issues and what the server makes of them. The scores of a
sorted set are doubles, the fields of a hash `int64`; all of them are integers here.
-/

namespace LiveRevenue

inductive RedisCmd where
  | zIncrBy (key : String) (increment : ℤ) (member : String)
  | hIncrBy (key field : String) (increment : ℤ)
  | del (key : String)
  | zAdd (key : String) (members : List (String × ℤ))
  | hSet (key : String) (fields : List (String × ℤ))
  deriving DecidableEq, Repr

/-- Scores by key and member. A hash is kept the same way, by field. -/
abbrev Redis := String → String → Option ℤ

namespace Redis

def empty : Redis := fun _ _ => none

def score (ρ : Redis) (key member : String) : ℤ := (ρ key member).getD 0

def put (ρ : Redis) (key member : String) (n : ℤ) : Redis :=
  fun k m => if k = key ∧ m = member then some n else ρ k m

def erase (ρ : Redis) (key : String) : Redis := fun k m => if k = key then none else ρ k m

def putAll (ρ : Redis) (key : String) (xs : List (String × ℤ)) : Redis :=
  xs.foldl (fun ρ x => ρ.put key x.1 x.2) ρ

end Redis

namespace RedisCmd

def key : RedisCmd → String
  | .zIncrBy key _ _ => key
  | .hIncrBy key _ _ => key
  | .del key => key
  | .zAdd key _ => key
  | .hSet key _ => key

def apply (ρ : Redis) : RedisCmd → Redis
  | .zIncrBy key n member => ρ.put key member (Binary64.add (ρ.score key member) n)
  | .hIncrBy key field n => ρ.put key field (ρ.score key field + n)
  | .del key => ρ.erase key
  | .zAdd key members => ρ.putAll key members
  | .hSet key fields => ρ.putAll key fields

/-- `HINCRBY` is refused where the field would leave `int64`. -/
def overflows (ρ : Redis) : RedisCmd → Bool
  | .hIncrBy key field n => !fitsInt64 (ρ.score key field + n)
  | _ => false

end RedisCmd

def Redis.replay (ρ : Redis) (cs : List RedisCmd) : Redis := cs.foldl RedisCmd.apply ρ

end LiveRevenue
