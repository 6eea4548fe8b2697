import LiveRevenue.Projector.Leaderboard
import LiveRevenue.Projector.Points
import LiveRevenue.Service.InternalEvents

/-! # The whole system

Any number of processes over one world: service calls, relay runs, one handler
round per delivered message, and rebuilds. A process may start at any time, its
commands interleave with all others, and it may die before any of them.
-/

namespace LiveRevenue

open Transact

/-- One call of a service function, a worker or a consumer. A redelivered message is a
further call. -/
inductive Call where
  | recharge (req : RechargeRequest)
  | sendGift (req : GiftRequest)
  | closeLiveSession (liveSessionID : ℕ)
  | generateSettlement (liveSessionID : ℕ)
  | getSettlement (liveSessionID : ℕ)
  | settlement (m : Message)
  | runOnce (batchSize : ℤ)
  | leaderboard (m : Message)
  | points (m : Message)
  | rebuild (liveSessionID : ℕ)
  | enqueueComment (req : InternalCommentRequest)
  | enqueueWatchMinutes (req : InternalWatchMinutesRequest)
  deriving DecidableEq, Repr

inductive Outcome where
  | recharged (r : Ret RechargeResponse)
  | gifted (r : Ret GiftResponse)
  | closed (r : Option AppError)
  | settled (r : Except Err SettlementResponse)
  | shown (r : Ret SettlementResponse)
  | relayed (r : Except Err ℕ)
  | handled (r : Except Err Unit)
  | commented (r : Option AppError)
  | watched (r : Except AppError ℕ)
  deriving DecidableEq

def pointsTopics : List String := [giftAcceptedTopic, commentTopic, watchMinuteTopic]

namespace Call

/-- The message log delivers only what was sent, on the topics a consumer subscribes to. -/
def ready (w : World) : Call → Bool
  | .settlement m => m.topic = sessionClosedTopic ∧ m ∈ w.log.map (·.2)
  | .leaderboard m => m.topic = giftAcceptedTopic ∧ m ∈ w.log.map (·.2)
  | .points m => m.topic ∈ pointsTopics ∧ m ∈ w.log.map (·.2)
  | _ => true

variable [Platform]

def program : Call → Go Outcome
  | .recharge req => (LiveRevenue.recharge req).bind fun r => .ret (.recharged r)
  | .sendGift req => (LiveRevenue.sendGift req).bind fun r => .ret (.gifted r)
  | .closeLiveSession id => (LiveRevenue.closeLiveSession id).bind fun r => .ret (.closed r)
  | .generateSettlement id => (LiveRevenue.generateSettlement id).bind fun r => .ret (.settled r)
  | .getSettlement id => (LiveRevenue.getSettlement id).bind fun r => .ret (.shown r)
  | .settlement m => (settlementHandle m).bind fun r => .ret (.handled r)
  | .runOnce n => (LiveRevenue.runOnce n).bind fun r => .ret (.relayed r)
  | .leaderboard m => (leaderboardHandle m).bind fun r => .ret (.handled r)
  | .points m => (pointsHandle m).bind fun r => .ret (.handled r)
  | .rebuild id => (rebuildLiveSession id).bind fun r => .ret (.handled r)
  | .enqueueComment req => (enqueueCommentEvent req).bind fun r => .ret (.commented r)
  | .enqueueWatchMinutes req => (enqueueWatchMinuteEvents req).bind fun r => .ret (.watched r)

end Call

abbrev State := Pool Cmd Cmd.Resp World Outcome

/-- The machine in which process `t` makes the call `calls t`. -/
def system [Platform] (calls : ℕ → Call) : Machine Cmd Cmd.Resp World Choice Outcome where
  exec := World.exec
  abort := World.abort
  ready t w := (calls t).ready w
  program t := (calls t).program

def Write.Below (ids : Ids) : Write → Prop
  | .walletTx r => r.txID < ids.tx
  | .walletEntry r => r.txID < ids.tx
  | .giftOrder r => r.giftOrderID < ids.order
  | .outbox r => 1 ≤ r.eventID ∧ r.eventID < ids.event ∧ r.eventID < 2 ^ 64
  | _ => True

structure DB.Below (ids : Ids) (d : DB) : Prop where
  walletTxs : ∀ r ∈ d.walletTxs, r.txID < ids.tx
  walletEntries : ∀ r ∈ d.walletEntries, r.txID < ids.tx
  giftOrders : ∀ r ∈ d.giftOrders, r.giftOrderID < ids.order
  outboxEvents : ∀ r ∈ d.outboxEvents,
    1 ≤ r.eventID ∧ r.eventID < ids.event ∧ r.eventID < 2 ^ 64

/-- A world in which nothing has happened yet: nothing open, nothing logged, generated ids
as `AUTO_INCREMENT` and the primary keys make them. The tables are arbitrary. -/
structure Start (w : World) : Prop where
  opened : ∀ t, w.store.opened t = none
  holder : ∀ l, w.store.holder l = none
  binlog : w.store.binlog = []
  log : w.log = []
  aof : w.aof = []
  marked : w.marked = []
  one_le : 1 ≤ w.ids.tx ∧ 1 ≤ w.ids.order ∧ 1 ≤ w.ids.event
  below : w.db.Below w.ids
  eventIDs : (w.db.outboxEvents.map (·.eventID)).Nodup

def World.boot (d : DB) : World where
  store := ⟨d, fun _ => none, fun _ => none, []⟩
  ids := ⟨1, 1, 1⟩
  log := []
  aof := []
  marked := []

theorem Start.boot {d : DB} (hx : d.walletTxs = []) (he : d.walletEntries = [])
    (ho : d.giftOrders = []) (hr : d.outboxEvents = []) : Start (World.boot d) where
  opened _ := rfl
  holder _ := rfl
  binlog := rfl
  log := rfl
  aof := rfl
  marked := rfl
  one_le := ⟨le_rfl, le_rfl, le_rfl⟩
  below := by constructor <;> simp [World.boot, World.db, hx, he, ho, hr]
  eventIDs := by simp [World.boot, World.db, hr]

section Schedules

/-- The next `n` commands of a process, all of them successful and at one time. -/
def resume (t n now : ℕ) : List (Act Choice) := List.replicate n (.run t (.ok now id))

def launch (t n now : ℕ) : List (Act Choice) := .start t :: resume t n now

def startAll (ts : List ℕ) : List (Act Choice) := ts.map .start

def kill (t : ℕ) : List (Act Choice) := [.crash t]

/-- The next command of a process fails, applied or not. -/
def failNext (t : ℕ) (applied : Bool) : List (Act Choice) := [.run t (.fault applied)]

end Schedules

end LiveRevenue
