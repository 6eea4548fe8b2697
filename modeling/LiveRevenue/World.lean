import LiveRevenue.Redis
import LiveRevenue.Schema.Statements
import LiveRevenue.Transact.Pool

/-! # The world the processes share

One MySQL server, one message log, one Redis and the offsets consumers have
marked. A command is one interaction with any of them, so the interleavings of
commands are the interleavings of SQL statements, Redis commands and sends.
Each entry of a log keeps the process that wrote it.
-/

namespace LiveRevenue

open Transact

structure Mark where
  group : String
  msg : Message
  metadata : String
  deriving DecidableEq, Repr

structure World where
  store : Store DB Write Lock
  ids : Ids
  log : List (ℕ × Message)
  aof : List (ℕ × RedisCmd)
  marked : List (ℕ × Mark)

namespace World

abbrev db (w : World) : DB := w.store.db

/-- What Redis holds: the replay of the commands it has applied. -/
def redis (w : World) : Redis := Redis.empty.replay (w.aof.map (·.2))

def aofBy (w : World) (t : ℕ) : List RedisCmd :=
  w.aof.filterMap fun e => if e.1 = t then some e.2 else none

def sentBy (w : World) (t : ℕ) : List Message :=
  w.log.filterMap fun e => if e.1 = t then some e.2 else none

end World

inductive Cmd where
  | begin
  | commit
  | rollback
  | sql (s : Stmt)
  | auto (s : Stmt)
  | now
  | send (m : Message)
  | redis (c : RedisCmd)
  | mark (m : Mark)

@[reducible] def Cmd.Resp : Cmd → Type
  | .begin => Except SqlErr Unit
  | .commit => Except SqlErr Unit
  | .rollback => Unit
  | .sql s => Except SqlErr s.Res
  | .auto s => Except SqlErr s.Res
  | .now => ℕ
  | .send _ => Except SqlErr Unit
  | .redis _ => Except SqlErr Unit
  | .mark _ => Unit

/-- What the environment decides about a command: it succeeds at some time, with some
order among rows the query leaves unordered, or it fails, applied or not. -/
inductive Choice where
  | ok (now : ℕ) (rank : ℕ → ℕ)
  | fault (applied : Bool)

variable [Platform]

namespace World

/-- Run a statement in the open transaction of `t`, or block on a row lock. -/
def execSql (t : ℕ) (s : Stmt) (rank : ℕ → ℕ) (w : World) :
    Option (Except SqlErr s.Res × World) :=
  match w.store.opened t with
  | none => some (.error .txDone, w)
  | some ws =>
    let e := s.run (applyAll ws w.db) w.ids (w.store.busy t) rank
    if (e.waits ++ (e.takes ++ e.writes.flatMap Write.locks)).any (w.store.busy t) then none
    else some (e.res, { w with store := w.store.record t ws e.writes e.takes, ids := e.ids })

def execAuto (t : ℕ) (s : Stmt) (rank : ℕ → ℕ) (w : World) :
    Option (Except SqlErr s.Res × World) :=
  let e := s.run w.db w.ids (w.store.busy t) rank
  if (e.waits ++ e.writes.flatMap Write.locks).any (w.store.busy t) then none
  else if e.writes = [] then some (e.res, { w with ids := e.ids })
  else some (e.res, { w with store := w.store.autocommit t e.writes, ids := e.ids })

def addLog (w : World) (t : ℕ) (m : Message) : World := { w with log := w.log ++ [(t, m)] }

def addAof (w : World) (t : ℕ) (c : RedisCmd) : World := { w with aof := w.aof ++ [(t, c)] }

def setStore (w : World) (s : Store DB Write Lock) : World := { w with store := s }

def exec (t : ℕ) : (c : Cmd) → Choice → World → Option (c.Resp × World)
  | .begin, .ok _ _, w => some (.ok (), w.setStore (w.store.begin t))
  | .begin, .fault _, w => some (.error .infra, w)
  | .commit, ch, w => match w.store.opened t, ch with
    | none, _ => some (.error .txDone, w)
    | some ws, .ok _ _ => some (.ok (), w.setStore (w.store.commit t ws))
    -- the server has committed, but the answer is lost
    | some ws, .fault true => some (.error .infra, w.setStore (w.store.commit t ws))
    | some _, .fault false => some (.error .infra, w.setStore (w.store.rollback t))
  | .rollback, _, w => some ((), w.setStore (w.store.rollback t))
  | .sql s, .ok _ rank, w => w.execSql t s rank
  | .sql _, .fault _, w => some (.error .infra, w)
  | .auto s, .ok _ rank, w => w.execAuto t s rank
  | .auto s, .fault applied, w =>
    if applied then (w.execAuto t s id).map fun x => (.error .infra, x.2)
    else some (.error .infra, w)
  | .now, .ok n _, w => some (n, w)
  | .now, .fault _, w => some (0, w)
  | .send m, .ok _ _, w => some (.ok (), w.addLog t m)
  | .send m, .fault applied, w => some (.error .infra, if applied then w.addLog t m else w)
  | .redis c, .ok _ _, w =>
    if c.overflows w.redis then some (.error .overflow, w) else some (.ok (), w.addAof t c)
  | .redis c, .fault applied, w =>
    some (.error .infra, if applied && !c.overflows w.redis then w.addAof t c else w)
  | .mark m, _, w => some ((), { w with marked := w.marked ++ [(t, m)] })

def abort (t : ℕ) (w : World) : World := w.setStore (w.store.rollback t)

end World

/-- Programs over the world's commands, and function bodies with early `return`. -/
abbrev Go (α : Type) := Prog Cmd Cmd.Resp α
abbrev GoBody (ε α : Type) := Body Cmd Cmd.Resp ε α

/-- `if err != nil { return f(err) }`. -/
def orReturn {ε α : Type} (f : SqlErr → ε) (r : Except SqlErr α) : GoBody ε α :=
  match r with
  | .ok a => pure a
  | .error e => throw (f e)

/-- `tx.ExecContext` or `tx.QueryContext`, its error returned through `f`. -/
def txDo {ε : Type} (f : SqlErr → ε) (s : Stmt) : GoBody ε s.Res := do
  orReturn f (← Body.call (.sql s))

def txTry {ε : Type} (s : Stmt) : GoBody ε (Except SqlErr s.Res) := Body.call (Cmd.sql s)

def dbDo {ε : Type} (f : SqlErr → ε) (s : Stmt) : GoBody ε s.Res := do
  orReturn f (← Body.call (.auto s))

def redisDo {ε : Type} (f : SqlErr → ε) (c : RedisCmd) : GoBody ε Unit := do
  orReturn f (← Body.call (.redis c))

def sendDo {ε : Type} (f : SqlErr → ε) (m : Message) : GoBody ε Unit := do
  orReturn f (← Body.call (.send m))

def commitTx {ε : Type} (f : SqlErr → ε) : GoBody ε Unit := do
  orReturn f (← Body.call .commit)

def timeNow {ε : Type} : GoBody ε ℕ := Body.call Cmd.now

def callFn {ε α : Type} (p : Go α) : GoBody ε α := ExceptT.lift p

def retFail {α : Type} (e : SqlErr) : Except Err α := .error (.sql e)

/-- `BeginTx` with the deferred `Rollback`, which has no effect after a commit. -/
def withTx {α : Type} (f : SqlErr → α) (body : GoBody α α) : Go α :=
  .op .begin fun
    | .error e => .ret (f e)
    | .ok () => body.run.bind fun a => .op .rollback fun _ => .ret a

end LiveRevenue
