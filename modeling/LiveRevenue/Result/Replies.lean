import LiveRevenue.Proof.Server
import LiveRevenue.Result.Closing
import LiveRevenue.Result.Idempotency
import LiveRevenue.Result.WatchMinutes

/-! # What the replies of the server say

A reply of success stands for rows that are in the tables from then on, whatever else runs.
A reply of failure stands for nothing written, except where the failure is itself on record;
after an internal error the call may be there as a whole, if the answer to its commit got
lost. Every request is answered and counted once.
-/

namespace LiveRevenue

open Transact

inductive HttpRequest.Makes (r : HttpRequest) : Call → Prop where
  | recharge {req : RechargeRequest} : r.method = "POST" →
      decodeBody decodeRechargeRequest r.body = some req → r.Makes (.recharge req)
  | gift {req : GiftRequest} : r.method = "POST" →
      decodeBody decodeGiftRequest r.body = some req → r.Makes (.sendGift req)
  | comment {req : InternalCommentRequest} : r.method = "POST" →
      decodeBody decodeCommentRequest r.body = some req → r.Makes (.enqueueComment req)
  | watch {req : InternalWatchMinutesRequest} : r.method = "POST" →
      decodeBody decodeWatchMinutesRequest r.body = some req → r.Makes (.enqueueWatchMinutes req)
  | close {id : ℕ} : r.method = "POST" → r.Makes (.closeLiveSession id)
  | settlement {id : ℕ} : r.method = "GET" → r.Makes (.getSettlement id)

section Handlers

variable {r : HttpRequest} {c : Call}

theorem handlePost_call {α : Type} {decode : List (List Char × Json.Value) → Option α}
    {call : α → Call} (h : handlePost decode call r = .call c) :
    r.method = "POST" ∧ ∃ req, decodeBody decode r.body = some req ∧ c = call req := by
  unfold handlePost at h
  split at h
  · cases h
  next hm =>
  split at h
  · cases h
  next req hreq =>
  cases h
  exact ⟨not_not.mp hm, req, hreq, rfl⟩

theorem handleLivesPrefix_call (h : handleLivesPrefix r = .call c) :
    r.method = "POST" ∧ ∃ id, c = .closeLiveSession id := by
  unfold handleLivesPrefix at h
  split at h
  · split at h
    · cases h
    · split at h
      · cases h
      · split at h
        · next hm =>
          cases h
          exact ⟨hm.1, _, rfl⟩
        · split at h <;> cases h
  · cases h

theorem handleSettlementGet_call (h : handleSettlementGet r = .call c) :
    r.method = "GET" ∧ ∃ id, c = .getSettlement id := by
  unfold handleSettlementGet at h
  split at h
  · cases h
  next hm =>
  split at h
  · split at h
    · cases h
    · split at h
      · cases h
      · cases h
        exact ⟨not_not.mp hm, _, rfl⟩
  · cases h

theorem handleCampaignPrefix_ne_call : handleCampaignPrefix r ≠ .call c := by
  unfold handleCampaignPrefix
  intro h
  split at h
  · cases h
  split at h
  · split at h
    · cases h
    · split at h <;> cases h
  · cases h

theorem makes_of_handle {route : Route} (h : route.handle r = .call c) : r.Makes c := by
  cases route with
  | healthz => cases h
  | walletRecharge =>
    obtain ⟨hm, req, hreq, rfl⟩ := handlePost_call h
    exact .recharge hm hreq
  | giftSend =>
    obtain ⟨hm, req, hreq, rfl⟩ := handlePost_call h
    exact .gift hm hreq
  | internalComments =>
    obtain ⟨hm, req, hreq, rfl⟩ := handlePost_call h
    exact .comment hm hreq
  | internalWatchMinutes =>
    obtain ⟨hm, req, hreq, rfl⟩ := handlePost_call h
    exact .watch hm hreq
  | livesPrefix =>
    obtain ⟨hm, id, rfl⟩ := handleLivesPrefix_call h
    exact .close hm
  | campaignsPrefix => exact absurd h handleCampaignPrefix_ne_call
  | settlementGet =>
    obtain ⟨hm, id, rfl⟩ := handleSettlementGet_call h
    exact .settlement hm

end Handlers

section Replies

variable [Platform]

/-- A row of the request may have this key: that of the id as it was given, or of what its column
keeps of it. -/
def RechargeRequest.Marks (req : RechargeRequest) (l : Lock) : Prop :=
  l = req.key ∨ Varchar.refuses 64 req.requestID = false ∧ l = req.storedKey

@[inherit_doc RechargeRequest.Marks]
def GiftRequest.Marks (req : GiftRequest) (l : Lock) : Prop :=
  l = req.key ∨ Varchar.refuses 64 req.requestID = false ∧ l = req.storedKey

/-- Nothing is left behind but an empty wallet. -/
def LeavesNothing (cs : List (List Write)) : Prop := ∀ ws ∈ cs, ∀ x ∈ ws, ∃ u, x = .openAccount u

/-- What `idempotency` says of the row a call answers with: the call has inserted it, or it has
found it. -/
inductive Tells {α : Type} (pick : Write → Option α) (row : α) (cs : List (List Write)) :
    String → Prop where
  | created : cs.flatten.filterMap pick = [row] → Tells pick row cs "created"
  | replayed : LeavesNothing cs → Tells pick row cs "replayed"

/-- The call has put an event for each of the payloads in the outbox, and they are still there. -/
def Queues (d : DB) (cs : List (List Write)) (topic : String) (payloads : List Payload) : Prop :=
  ∃ rows : List OutboxRow, cs.flatten = rows.map .outbox ∧ rows.map (·.payload) = payloads ∧
    (rows.map (·.eventID)).Nodup ∧
    ∀ row ∈ rows, row.topic = topic ∧ ∃ row' ∈ d.outboxEvents, row'.inserted = row

/-- What a reply to a call says, given the tables `d₀` in the beginning, the history `k` since
then, the tables `d` now and the commits `cs` of the call. -/
inductive Upheld (d₀ : DB) (k : History) (d : DB) (cs : List (List Write)) :
    Call → Reply → Prop where
  | recharged {req : RechargeRequest} {row : RechargeRow} {kind : String} :
      row ∈ d.rechargeRequests → req.Marks row.lock → row.bodyHash = Platform.rechargeHash req →
      Tells Write.rechargeRequest? row cs kind →
      Upheld d₀ k d cs (.recharge req)
        ⟨201, .recharge ⟨row.txID, req.viewerID, row.coins, row.resultingBalance, kind⟩⟩
  | gifted {req : GiftRequest} {o : GiftOrder} {kind : String} :
      o ∈ d.giftOrders → req.Marks o.lock → o.bodyHash = Platform.giftHash req →
      o.status = .accepted → Tells Write.giftOrder? o cs kind →
      Upheld d₀ k d cs (.sendGift req) ⟨201, .gift { o.replay with idempotency := kind }⟩
  | declined {req : GiftRequest} {o : GiftOrder} {kind : String} {e : AppError} :
      o ∈ d.giftOrders → req.Marks o.lock → o.bodyHash = Platform.giftHash req →
      o.status ≠ .accepted → Tells Write.giftOrder? o cs kind →
      e.code = o.rejectCode.getD "REJECTED" →
      Upheld d₀ k d cs (.sendGift req) e.reply
  | closed {id : ℕ} {ws : List Write} : d.HasStatus id .closed → ws ∈ cs →
      id ∈ ws.filterMap Write.closes? →
      Upheld d₀ k d cs (.closeLiveSession id) ⟨202, .closed id "CLOSED"⟩
  | commented {req : InternalCommentRequest} : Queues d cs commentTopic [req.payload] →
      Upheld d₀ k d cs (.enqueueComment req) ⟨202, .queued 1⟩
  | watched {req : InternalWatchMinutesRequest} : Queues d cs watchMinuteTopic req.payloads →
      Upheld d₀ k d cs (.enqueueWatchMinutes req) ⟨202, .queued req.minutes.toNat⟩
  /-- Both rows were there at one time. -/
  | shown {id : ℕ} {resp : SettlementResponse} {k' : History} {row : StreamSettlement}
      {check : Reconciliation} : k' <+: k → (dbAt d₀ k').streamSettlements id = some row →
      (dbAt d₀ k').reconciliations id = some check → resp.Shows row check → LeavesNothing cs →
      Upheld d₀ k d cs (.getSettlement id) ⟨200, .settlement resp⟩
  | refused {c : Call} {status : ℕ} {code message : String} : LeavesNothing cs →
      Upheld d₀ k d cs c (writeError status code message)
  /-- An internal error leaves open whether the call was committed, but not in part. -/
  | unsure {c : Call} {status : ℕ} {message : String} : (∀ ws ∈ cs, ∃ h, Txn d₀ h c ws) →
      Upheld d₀ k d cs c (writeError status "INTERNAL_ERROR" message)

omit [Platform] in
theorem mapRejectCodeToAppError_code (code : String) :
    (mapRejectCodeToAppError code).code = code := by
  unfold mapRejectCodeToAppError
  split_ifs <;> rfl

variable {calls : ℕ → Call} {w : World} {s : State} {t : ℕ}

variable {d₀ d : DB} {k : History} {cs : List (List Write)}

theorem Upheld.of_nil (h : cs = []) {c : Call} {status : ℕ} {code message : String} :
    Upheld d₀ k d cs c (writeError status code message) := by
  subst h
  exact .refused fun _ hws => nomatch hws

theorem Upheld.of_error {c : Call} {e : AppError} (hcs : ∀ ws ∈ cs, ∃ h, Txn d₀ h c ws)
    (h : cs = [] ∨ e.code = "INTERNAL_ERROR") : Upheld d₀ k d cs c e.reply := by
  rcases h with h | h
  · exact .of_nil h
  · rw [AppError.reply, h]
    exact .unsure hcs

omit [Platform] in
theorem Idle.leavesNothing {req : GiftRequest} (h : Idle req cs) : LeavesNothing cs := by
  intro ws hws x hx
  rcases h ws hws with rfl | rfl
  · cases hx
  · exact ⟨_, List.mem_singleton.mp hx⟩

theorem RechargeDone.upheld {𝓔 : Env} {req : RechargeRequest} {r : Ret RechargeResponse}
    (hcs : ∀ ws ∈ cs, ∃ h, Txn d₀ h (.recharge req) ws) (h : RechargeDone 𝓔 t req d cs r) :
    Upheld d₀ k d cs (.recharge req) (retReply 201 .recharge r) := by
  cases h with
  | invalid _ hc => exact .of_nil hc
  | failed _ _ => exact .unsure hcs
  | mismatch _ _ _ hc => exact .of_nil hc
  | replayed hr hk hh hc =>
    refine .recharged hr (.inl hk) hh (.replayed fun ws hws x hx => ?_)
    rw [hc, List.mem_singleton] at hws
    rw [hws] at hx
    cases hx
  | created p hp hc =>
    refine Upheld.recharged hp (.inr ⟨p.fits, rfl⟩) rfl (.created ?_)
    rw [hc, List.flatten_singleton]
    exact p.picks.2.2.1

theorem GiftDone.upheld {𝓔 : Env} {req : GiftRequest} {r : Ret GiftResponse}
    (hcs : ∀ ws ∈ cs, ∃ h, Txn d₀ h (.sendGift req) ws) (h : GiftDone 𝓔 t req d cs r) :
    Upheld d₀ k d cs (.sendGift req) (retReply 201 .gift r) := by
  cases h with
  | invalid _ hc => exact .of_nil hc
  | failed _ _ => exact .unsure hcs
  | recorded hx hidle =>
    cases hx with
    | mismatch _ _ _ => exact .refused hidle.leavesNothing
    | accepted ho hk hh hs => exact .gifted ho (.inl hk) hh hs (.replayed hidle.leavesNothing)
    | rejected ho hk hh hs =>
      exact .declined ho (.inl hk) hh hs (.replayed hidle.leavesNothing)
        (mapRejectCodeToAppError_code _)
  | created p hp hc =>
    refine .gifted (o := p.order) hp (.inr ⟨p.fits.2, rfl⟩) rfl rfl (.created ?_)
    rw [hc, List.flatten_singleton]
    exact p.picks.2.2.2.1
  | rejected p hp hc =>
    refine .declined (o := p.order) hp (.inr ⟨p.fits.2, rfl⟩) rfl (fun hs => by cases hs)
      (.created ?_) rfl
    rw [hc, List.flatten_singleton]
    exact p.picks.2.2.2.1

theorem reach_queues (hs : Start w) (h : (system calls).Reach (fun _ _ _ => True) (Pool.fresh w) s)
    {topic key : String} {payloads : List Payload} {d : DB} (p : Enqueued topic key payloads d)
    (hp : s.world.store.committedBy t = [p.writes]) :
    Queues s.world.db (s.world.store.committedBy t) topic payloads := by
  refine ⟨p.rows, ?_, p.payloads_eq, p.nodup, reach_enqueued hs h p hp⟩
  rw [hp, List.flatten_singleton, Enqueued.writes]

theorem reach_upheld (hs : Start w) (h : (system calls).Reach (fun _ _ _ => True) (Pool.fresh w) s)
    {r : HttpRequest} (hr : r.Makes (calls t)) {o : Outcome} (ho : (s.threads t).result? = some o) :
    Upheld w.db s.world.store.binlog s.world.db (s.world.store.committedBy t) (calls t)
      ((calls t).reply o) := by
  have hfin := (reach_good (.any calls w) hs Env.any_allows h).result ho
  obtain ⟨hl, hd⟩ := reach_legal hs h
  have hcs : ∀ ws ∈ s.world.store.committedBy t, ∃ h, Txn w.db h (calls t) ws := by
    intro ws hws
    obtain ⟨h₁, _, -, -, htx⟩ := hl.at (Store.mem_committedBy.mp hws)
    exact ⟨h₁, htx⟩
  change Finished (.any calls w) t s.world (calls t) o at hfin
  generalize calls t = c at hfin hr hcs ⊢
  cases hfin with
  | recharged hp => exact hp.upheld hcs
  | gifted hp => exact hp.upheld hcs
  | @closed id r hp =>
    cases r with
    | none =>
      obtain ⟨ws, hm, hid⟩ := closes_of_post hp
      refine .closed ?_ (Store.mem_committedBy.mpr hm) hid
      rw [hd]
      exact hl.closed_of_mem hm hid
    | some e => exact .of_error hcs hp.1
  | @shown id r hp =>
    have hnothing : LeavesNothing (s.world.store.committedBy t) := by
      intro ws hws x hx
      obtain ⟨h₁, htx⟩ := hcs ws hws
      cases htx with
      | nothing => cases hx
    cases r with
    | ok resp =>
      obtain ⟨u, row, check, hi, hbin, hrow, hcheck, hshows⟩ := hp resp rfl
      rw [hi.db_eq] at hrow hcheck
      exact .shown hbin hrow hcheck hshows hnothing
    | app e => exact .refused hnothing
    | err e => exact .refused hnothing
  | @commented req r hp =>
    cases r with
    | none =>
      obtain ⟨d, p, hcs⟩ := hp
      exact .commented (reach_queues hs h p hcs)
    | some e => exact .of_error hcs hp
  | @watched req r hp =>
    cases r with
    | ok n =>
      obtain ⟨rfl, -, d, p, hcs⟩ := hp
      exact .watched (reach_queues hs h p hcs)
    | error e => exact .of_error hcs (hp.1.imp_right And.left)
  | _ => cases hr

theorem reply_upheld {reqs : ℕ → Option HttpRequest} (hs : Start w) {f : Front}
    (h : Steps (Front.step reqs calls) (Front.fresh w) f) {r : HttpRequest}
    {route : Route} {c : Call} (hserves : Serves reqs t r route)
    (hc : route.handle r = .call c) {rep : Reply} (hrep : (t, rep) ∈ f.replies) : calls t = c ∧
      Upheld w.db f.pool.world.store.binlog f.pool.world.db (f.pool.world.store.committedBy t) c
        rep := by
  obtain ⟨r', route', hserves', -, hcall⟩ := (Front.ok h).answered t rep hrep
  obtain ⟨rfl, rfl⟩ := hserves.unique hserves'
  obtain ⟨rfl, o, ho, rfl⟩ := hcall c hc
  exact ⟨rfl, reach_upheld hs (Front.reach_pool h) (makes_of_handle hc) ho⟩

end Replies

section Witness

open Plain

def giftPost : HttpRequest where
  method := "POST"
  path := "/v1/gifts"
  limit := ""
  requestID := ""
  body :=
    "\x7b\"quantity\": 3, \"gift_id\": \"ROSE\", \"viewer_id\": 2001, ".toList ++
    "\"creator_id\": 1001, \"Live_Session_ID\": 9001, \"request_id\": \"g1\"\x7d".toList

def rosesCall (_ : ℕ) : Call := .sendGift ⟨"g1", 2001, 1001, 9001, none, "ROSE", 3, 0⟩

end Witness

end LiveRevenue
