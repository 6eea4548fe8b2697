import LiveRevenue.System
import LiveRevenue.Transact.Steps

/-! # Consumer groups

The `ConsumeClaim` loops of the settlement worker and the two projectors. A claim hands
out the messages of one partition in order, starting at the committed offset, and the
body of its loop is a process of the system. A body that fails or dies ends the claim.
Offsets are committed behind the marked messages at any time. Nothing keeps a second
claim on the partition from starting while an old one still works on it.
-/

namespace LiveRevenue

open Transact

inductive Group where
  | settlement
  | leaderboard
  | points
  deriving DecidableEq, Repr

namespace Group

def topics : Group → List String
  | .settlement => [sessionClosedTopic]
  | .leaderboard => [giftAcceptedTopic]
  | .points => pointsTopics

/-- The loop body of the group's `ConsumeClaim` for a message. -/
def call (m : Message) : Group → Call
  | .settlement => .settlement m
  | .leaderboard => .leaderboard m
  | .points => .points m

end Group

structure Partition where
  topic : String
  number : ℕ
  deriving DecidableEq, Repr

/-- The messages of a partition by offset, when the producer's partitioner puts the messages
of a topic with a key where `place` says. -/
def World.partition (place : String → String → ℕ) (p : Partition) (w : World) : List Message :=
  (w.log.map (·.2)).filter fun m => m.topic = p.topic ∧ place m.topic m.key = p.number

/-- A running `ConsumeClaim`: the offset of the message it works on or waits for, and the
process that handles this message. -/
structure Claim where
  group : Group
  partition : Partition
  next : ℕ
  round : Option ℕ
  deriving DecidableEq

/-- The system with the consumer sessions and the offsets the broker keeps for them. -/
structure Cluster where
  pool : State
  claims : ℕ → Option Claim
  committed : Group → Partition → ℕ

namespace Cluster

/-- Nothing has started; without a committed offset a claim starts at the oldest message. -/
def fresh (w : World) : Cluster := ⟨Pool.fresh w, fun _ => none, fun _ _ => 0⟩

def setClaim (k : Cluster) (c : ℕ) (cl : Option Claim) : Cluster :=
  { k with claims := fun d => if d = c then cl else k.claims d }

def setOffset (k : Cluster) (cl : Claim) : Cluster :=
  { k with committed := fun g p =>
      if g = cl.group ∧ p = cl.partition then cl.next else k.committed g p }

end Cluster

inductive Op where
  | act (a : Act Choice)
  | claim (c : ℕ) (g : Group) (p : Partition)
  | deliver (c t : ℕ)
  | advance (c : ℕ)
  | leave (c : ℕ)
  | commit (c : ℕ)

def Call.consumes : Call → Bool
  | .settlement _ => true
  | .leaderboard _ => true
  | .points _ => true
  | _ => false

def admits (calls : ℕ → Call) : Act Choice → Bool
  | .start t => !(calls t).consumes
  | _ => true

/-- One step of the system or of a session. `MarkMessage` ends every successful round, so what
a claim has marked lies below the offset it is at. -/
def Cluster.step [Platform] (place : String → String → ℕ) (calls : ℕ → Call) (k : Cluster) :
    Op → Option Cluster
  | .act a =>
    if admits calls a then
      ((system calls).step k.pool a).map fun s => { k with pool := s }
    else none
  | .claim c g p =>
    if p.topic ∈ g.topics ∧ (k.claims c).isNone then
      some (k.setClaim c (some ⟨g, p, k.committed g p, none⟩))
    else none
  | .deliver c t => match k.claims c with
    | some ⟨g, p, n, none⟩ => match (k.pool.world.partition place p)[n]? with
      | some m =>
        if calls t = g.call m then
          ((system calls).step k.pool (.start t)).map fun s =>
            ({ k with pool := s }).setClaim c (some ⟨g, p, n, some t⟩)
        else none
      | none => none
    | _ => none
  -- the round returned without an error: on to the next message
  | .advance c => match k.claims c with
    | some ⟨g, p, n, some t⟩ =>
      if (k.pool.threads t).result? = some (.handled (.ok ())) then
        some (k.setClaim c (some ⟨g, p, n + 1, none⟩))
      else none
    | _ => none
  -- an error, a death or a rebalance
  | .leave c => some (k.setClaim c none)
  | .commit c => match k.claims c with
    | some cl => some (k.setOffset cl)
    | none => none

end LiveRevenue
