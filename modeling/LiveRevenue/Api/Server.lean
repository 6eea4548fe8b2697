import LiveRevenue.System
import LiveRevenue.Transact.Steps
import LiveRevenue.Wire

/-! # The HTTP server

`internal/app/api/server.go`: the routes, the handlers, and `wrap`, which gives every
request an id and counts every reply. A handler answers at once, makes one call of the
service or reads a ranking. Requests are served concurrently, each as a process of the
system. Paths are taken as `ServeMux` passes them on, without its own redirects.
-/

namespace LiveRevenue

open Transact

/-- What the handlers look at. -/
structure HttpRequest where
  method : String
  path : String
  limit : String
  requestID : String
  body : List Char
  deriving DecidableEq, Repr

inductive ReplyBody where
  | status (s : String)
  | error (code message : String)
  | recharge (r : RechargeResponse)
  | gift (r : GiftResponse)
  | closed (liveSessionID : ℕ) (status : String)
  | contributors (liveSessionID : ℕ) (rows : List (ℕ × ℤ))
  | leaderboard (campaignID : ℕ) (rows : List (ℕ × ℤ))
  | settlement (r : SettlementResponse)
  | queued (n : ℕ)
  deriving DecidableEq

structure Reply where
  status : ℕ
  body : ReplyBody
  deriving DecidableEq

def writeError (status : ℕ) (code message : String) : Reply := ⟨status, .error code message⟩

def AppError.reply (e : AppError) : Reply := writeError e.httpStatus e.code e.message

def Err.error : Err → String
  | .sql e => e.error
  | .text s => s

def internalReply (message : String) : Reply := writeError 500 "INTERNAL_ERROR" message

def methodNotAllowed (message : String) : Reply := writeError 405 "METHOD_NOT_ALLOWED" message

def routeNotFound : Reply := writeError 404 "NOT_FOUND" "route not found"

inductive Route where
  | healthz
  | walletRecharge
  | giftSend
  | internalComments
  | internalWatchMinutes
  | livesPrefix
  | campaignsPrefix
  | settlementGet
  deriving DecidableEq, Repr

def mux (path : String) : Option Route :=
  if path = "/healthz" then some .healthz
  else if path = "/v1/wallets/recharges" then some .walletRecharge
  else if path = "/v1/gifts" then some .giftSend
  else if path = "/v1/internal/comments" then some .internalComments
  else if path = "/v1/internal/watch-minutes" then some .internalWatchMinutes
  else if "/v1/lives/".toList.isPrefixOf path.toList then some .livesPrefix
  else if "/v1/campaigns/".toList.isPrefixOf path.toList then some .campaignsPrefix
  else if "/v1/settlements/".toList.isPrefixOf path.toList then some .settlementGet
  else none

/-- What a handler does with a request. -/
inductive Handling where
  | reply (r : Reply)
  | call (c : Call)
  | contributors (liveSessionID : ℕ) (limit : ℤ)
  | leaderboard (campaignID : ℕ) (limit : ℤ)

section Handlers

def pathParts (path : String) : List String :=
  let trimmed := ((path.toList.dropWhile (· = '/')).reverse.dropWhile (· = '/')).reverse
  (trimmed.splitOn '/').map String.ofList

/-- The handlers of `POST` with a JSON body differ in the body and in the call. -/
def handlePost {α : Type} (decode : List (List Char × Json.Value) → Option α) (call : α → Call)
    (r : HttpRequest) : Handling :=
  if r.method ≠ "POST" then .reply (methodNotAllowed "only POST is allowed")
  else match decodeBody decode r.body with
    | none => .reply (writeError 400 "BAD_JSON" "invalid JSON body")
    | some req => .call (call req)

def handleRecharge : HttpRequest → Handling := handlePost decodeRechargeRequest .recharge

def handleGift : HttpRequest → Handling := handlePost decodeGiftRequest .sendGift

def handleInternalComments : HttpRequest → Handling :=
  handlePost decodeCommentRequest .enqueueComment

def handleInternalWatchMinutes : HttpRequest → Handling :=
  handlePost decodeWatchMinutesRequest .enqueueWatchMinutes

def handleHealth (_ : HttpRequest) : Handling := .reply ⟨200, .status "ok"⟩

def handleLivesPrefix (r : HttpRequest) : Handling :=
  match pathParts r.path with
  | [v1, lives, id, action] =>
    if v1 ≠ "v1" ∨ lives ≠ "lives" then .reply routeNotFound
    else match parseUint id with
      | none => .reply (writeError 400 "BAD_PATH" "invalid live session id")
      | some liveSessionID =>
        if r.method = "POST" ∧ action = "close" then .call (.closeLiveSession liveSessionID)
        else if r.method = "GET" ∧ action = "contributors" then
          .contributors liveSessionID (parseLimit r.limit)
        else .reply routeNotFound
  | _ => .reply routeNotFound

def handleCampaignPrefix (r : HttpRequest) : Handling :=
  if r.method ≠ "GET" then .reply (methodNotAllowed "only GET is allowed")
  else match pathParts r.path with
    | [v1, campaigns, id, leaderboard] =>
      if v1 ≠ "v1" ∨ campaigns ≠ "campaigns" ∨ leaderboard ≠ "leaderboard" then .reply routeNotFound
      else match parseUint id with
        | none => .reply (writeError 400 "BAD_PATH" "invalid campaign id")
        | some campaignID => .leaderboard campaignID (parseLimit r.limit)
    | _ => .reply routeNotFound

def handleSettlementGet (r : HttpRequest) : Handling :=
  if r.method ≠ "GET" then .reply (methodNotAllowed "only GET is allowed")
  else match pathParts r.path with
    | [v1, settlements, id] =>
      if v1 ≠ "v1" ∨ settlements ≠ "settlements" then .reply routeNotFound
      else match parseUint id with
        | none => .reply (writeError 400 "BAD_PATH" "invalid live session id")
        | some liveSessionID => .call (.getSettlement liveSessionID)
    | _ => .reply routeNotFound

def Route.handle : Route → HttpRequest → Handling
  | .healthz => handleHealth
  | .walletRecharge => handleRecharge
  | .giftSend => handleGift
  | .internalComments => handleInternalComments
  | .internalWatchMinutes => handleInternalWatchMinutes
  | .livesPrefix => handleLivesPrefix
  | .campaignsPrefix => handleCampaignPrefix
  | .settlementGet => handleSettlementGet

def retReply {α : Type} (status : ℕ) (body : α → ReplyBody) : Ret α → Reply
  | .ok a => ⟨status, body a⟩
  | .app e => e.reply
  | .err e => internalReply e.error

def Call.reply (c : Call) : Outcome → Reply
  | .recharged r => retReply 201 .recharge r
  | .gifted r => retReply 201 .gift r
  | .closed none => match c with
    | .closeLiveSession id => ⟨202, .closed id "CLOSED"⟩
    | _ => routeNotFound
  | .closed (some e) => e.reply
  | .shown r => retReply 200 .settlement r
  | .commented none => ⟨202, .queued 1⟩
  | .commented (some e) => e.reply
  | .watched (.ok n) => ⟨202, .queued n⟩
  | .watched (.error e) => e.reply
  | _ => routeNotFound

def rankingReply (body : List (ℕ × ℤ) → ReplyBody) : Except SqlErr (List (ℕ × ℤ)) → Reply
  | .ok rows => ⟨200, body rows⟩
  | .error e => internalReply e.error

end Handlers

/-- The server with the system it works on: the counter behind the generated ids, the requests
that have arrived with their ids, the replies in the order they were sent, and the two
counters of `wrap`. -/
structure Front where
  pool : State
  reqCounter : UInt64
  arrived : List (ℕ × String)
  replies : List (ℕ × Reply)
  requestsTotal : Route × String × ℕ → ℕ
  rejectsTotal : Route × ℕ → ℕ

inductive Visit where
  | act (a : Act Choice)
  | arrive (t : ℕ)
  | answer (t : ℕ) (redisUp : Bool)

namespace Front

def fresh (w : World) : Front := ⟨Pool.fresh w, 0, [], [], fun _ => 0, fun _ => 0⟩

def requestID (n : UInt64) : String := "req-" ++ toString n.toNat

/-- The first half of `wrap`: the id of the request. -/
def receive (f : Front) (t : ℕ) (r : HttpRequest) : Front :=
  let n := if r.requestID = "" then f.reqCounter + 1 else f.reqCounter
  let id := if r.requestID = "" then requestID n else r.requestID
  { f with reqCounter := n, arrived := f.arrived ++ [(t, id)] }

/-- The second half of `wrap`: the reply is out and counted. -/
def count (f : Front) (t : ℕ) (route : Route) (method : String) (rep : Reply) : Front :=
  { f with
    replies := f.replies ++ [(t, rep)]
    requestsTotal := fun k => f.requestsTotal k + if k = (route, method, rep.status) then 1 else 0
    rejectsTotal := fun k =>
      f.rejectsTotal k + if 400 ≤ rep.status ∧ k = (route, rep.status) then 1 else 0 }

/-- A process that serves a request starts with its arrival only. -/
def admits (reqs : ℕ → Option HttpRequest) : Act Choice → Bool
  | .start t => (reqs t).isNone
  | _ => true

variable [Platform]

def reply? (f : Front) (t : ℕ) (redisUp : Bool) : Handling → Option Reply
  | .reply rep => some rep
  | .call c => (f.pool.threads t).result?.map c.reply
  | .contributors id limit =>
    some (rankingReply (.contributors id)
      (Server.getLiveContributors f.pool.world redisUp id limit))
  | .leaderboard id limit =>
    some (rankingReply (.leaderboard id)
      (Server.getCampaignLeaderboard f.pool.world redisUp id limit))

/-- One step of the server or of the system. Process `t` serves the request `reqs t`, if
there is one. -/
def step (reqs : ℕ → Option HttpRequest) (calls : ℕ → Call) (f : Front) : Visit → Option Front
  | .act a =>
    if admits reqs a then ((system calls).step f.pool a).map fun s => { f with pool := s } else none
  | .arrive t => match reqs t with
    | none => none
    | some r => match mux r.path with
      | none => none
      | some route =>
        if t ∈ f.arrived.map (·.1) then none
        else match route.handle r with
          | .call c =>
            if calls t = c then
              ((system calls).step f.pool (.start t)).map fun s =>
                ({ f with pool := s }).receive t r
            else none
          | _ => some (f.receive t r)
  | .answer t redisUp => match reqs t with
    | none => none
    | some r => match mux r.path with
      | none => none
      | some route =>
        if t ∉ f.arrived.map (·.1) ∨ t ∈ f.replies.map (·.1) then none
        else (f.reply? t redisUp (route.handle r)).map (f.count t route r.method)

end Front

end LiveRevenue
