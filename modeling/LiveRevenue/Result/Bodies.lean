import LiveRevenue.Result.Replies

/-! # One body for each request id

The body hash is a digest of the marshalled request. Marshalling keeps different requests
apart, so with a digest that does the same for the bodies of a run, all posts under one
request id that are answered with success carry the same request, however their JSON texts
differ, and are answered with the same result. The ids must be such that no column cuts them.
-/

namespace LiveRevenue

open Transact

def Call.body? : Call → Option (List Char)
  | .recharge req => some req.marshal
  | .sendGift req => some req.marshal
  | _ => none

/-- The body hashes are the digest `H` of the bodies, and no two bodies of the run collide. -/
structure Digested [Platform] (H : List Char → Digest) (calls : ℕ → Call) : Prop where
  gift : ∀ req, Platform.giftHash req = H req.marshal
  recharge : ∀ req, Platform.rechargeHash req = H req.marshal
  apart : ∀ t u x y, (calls t).body? = some x → (calls u).body? = some y → H x = H y → x = y

/-- Posts under one request id that were answered with success. -/
structure OneBody [Platform] (reqs : ℕ → Option HttpRequest) (f : Front) : Prop where
  gift : ∀ t u r r' route route' req req' resp resp', Serves reqs t r route →
    Serves reqs u r' route' →
    route.handle r = .call (.sendGift req) → route'.handle r' = .call (.sendGift req') →
    (t, (⟨201, .gift resp⟩ : Reply)) ∈ f.replies → (u, (⟨201, .gift resp'⟩ : Reply)) ∈ f.replies →
    req.key = req'.key → req = req' ∧ resp' = { resp with idempotency := resp'.idempotency }
  recharge : ∀ t u r r' route route' req req' resp resp', Serves reqs t r route →
    Serves reqs u r' route' →
    route.handle r = .call (.recharge req) → route'.handle r' = .call (.recharge req') →
    (t, (⟨201, .recharge resp⟩ : Reply)) ∈ f.replies →
    (u, (⟨201, .recharge resp'⟩ : Reply)) ∈ f.replies →
    req.key = req'.key → req = req' ∧ resp' = { resp with idempotency := resp'.idempotency }

section General

variable [Platform] {reqs : ℕ → Option HttpRequest} {calls : ℕ → Call} {w : World} {f : Front}
  {H : List Char → Digest}

omit [Platform] in
theorem decodeBody_some {α : Type} {decode : List (List Char × Json.Value) → Option α}
    {body : List Char} {a : α} (h : decodeBody decode body = some a) :
    ∃ fs, decode fs = some a := by
  obtain ⟨fs, -, hfs⟩ := Option.bind_eq_some_iff.mp h
  exact ⟨fs, hfs⟩

omit [Platform] in
theorem fits_of_handle {r : HttpRequest} {route : Route} :
    (∀ req, route.handle r = .call (.sendGift req) → req.Fits) ∧
      ∀ req, route.handle r = .call (.recharge req) → req.Fits := by
  constructor
  · intro req h
    cases makes_of_handle h with
    | gift _ hreq =>
      obtain ⟨fs, hfs⟩ := decodeBody_some hreq
      exact decodeGiftRequest_fits hfs
  · intro req h
    cases makes_of_handle h with
    | recharge _ hreq =>
      obtain ⟨fs, hfs⟩ := decodeBody_some hreq
      exact decodeRechargeRequest_fits hfs

theorem reach_oneOrder (hs : Start w) (hu : w.db.Unused) {s : State}
    (h : (system calls).Reach (fun _ _ _ => True) (Pool.fresh w) s) {o o' : GiftOrder}
    (ho : o ∈ s.world.db.giftOrders) (ho' : o' ∈ s.world.db.giftOrders) (hk : o.lock = o'.lock) :
    o = o' := by
  obtain ⟨hl, hd⟩ := reach_legal hs h
  have hkeys := (hl.outboxComplete hu.outboxComplete).orderKeys
  rw [← hd] at hkeys
  refine List.inj_on_of_nodup_map hkeys ho ho' ?_
  simpa [GiftOrder.lock, Prod.ext_iff] using hk

theorem Upheld.order {d₀ d : DB} {k : History} {cs : List (List Write)} {req : GiftRequest}
    {resp : GiftResponse} (h : Upheld d₀ k d cs (.sendGift req) ⟨201, .gift resp⟩)
    (hexact : Varchar.Exact 64 req.requestID) : ∃ o ∈ d.giftOrders, o.lock = req.key ∧
      o.bodyHash = Platform.giftHash req ∧
      resp = { o.replay with idempotency := resp.idempotency } := by
  generalize hrep : (⟨201, .gift resp⟩ : Reply) = rep at h
  have hbody := congrArg Reply.body hrep
  cases h with
  | @gifted _ o _ ho hk hh _ _ =>
    cases hbody
    exact ⟨o, ho, hk.elim id fun hk => hk.2.trans (storedKey_eq hexact hk.1), hh, rfl⟩
  | declined => cases hbody
  | refused => cases hbody
  | unsure => cases hbody

theorem Upheld.rechargeRow {d₀ d : DB} {k : History} {cs : List (List Write)}
    {req : RechargeRequest} {resp : RechargeResponse}
    (h : Upheld d₀ k d cs (.recharge req) ⟨201, .recharge resp⟩)
    (hexact : Varchar.Exact 64 req.requestID) :
    ∃ row ∈ d.rechargeRequests, row.lock = req.key ∧ row.bodyHash = Platform.rechargeHash req ∧
      resp = ⟨row.txID, req.viewerID, row.coins, row.resultingBalance, resp.idempotency⟩ := by
  generalize hrep : (⟨201, .recharge resp⟩ : Reply) = rep at h
  have hbody := congrArg Reply.body hrep
  cases h with
  | @recharged _ row _ hrow hk hh _ =>
    cases hbody
    refine ⟨row, hrow, hk.elim id fun hk => hk.2.trans ?_, hh, rfl⟩
    rw [RechargeRequest.storedKey, hexact hk.1, RechargeRequest.key]
  | refused => cases hbody
  | unsure => cases hbody

/-- However the texts of two posts under one request id differ, if both succeed they carry one
request and get one answer. -/
theorem one_body_per_request (reqs : ℕ → Option HttpRequest) (calls : ℕ → Call) {w : World}
    (hs : Start w) (hu : w.db.Unused) {H : List Char → Digest} (hH : Digested H calls)
    (hids : ∀ t, ∀ x ∈ (calls t).texts, Varchar.Exact x.1 x.2) {f : Front}
    (h : Steps (Front.step reqs calls) (Front.fresh w) f) : OneBody reqs f := by
  have hpool := Front.reach_pool h
  constructor
  · intro t u r r' route route' req req' resp resp' hserves hserves' hc hc' hrep hrep' hk
    obtain ⟨hcall, hheld⟩ := reply_upheld hs h hserves hc hrep
    obtain ⟨hcall', hheld'⟩ := reply_upheld hs h hserves' hc' hrep'
    have hexact : ∀ v req, calls v = .sendGift req → Varchar.Exact 64 req.requestID := by
      intro v req hv
      exact hids v (64, req.requestID) (by rw [hv]; simp [Call.texts])
    obtain ⟨o, ho, hlock, hhash, hresp⟩ := hheld.order (hexact t req hcall)
    obtain ⟨o', ho', hlock', hhash', hresp'⟩ := hheld'.order (hexact u req' hcall')
    obtain rfl := reach_oneOrder hs hu hpool ho ho' (hlock.trans (hk.trans hlock'.symm))
    constructor
    · refine GiftRequest.marshal_inj (fits_of_handle.1 _ hc) (fits_of_handle.1 _ hc') ?_
      have hdigest := hhash.symm.trans hhash'
      rw [hH.gift, hH.gift] at hdigest
      exact hH.apart t u _ _ (by rw [hcall]; rfl) (by rw [hcall']; rfl) hdigest
    · rw [hresp', hresp]
  · intro t u r r' route route' req req' resp resp' hserves hserves' hc hc' hrep hrep' hk
    obtain ⟨hcall, hheld⟩ := reply_upheld hs h hserves hc hrep
    obtain ⟨hcall', hheld'⟩ := reply_upheld hs h hserves' hc' hrep'
    have hexact : ∀ v req, calls v = .recharge req → Varchar.Exact 64 req.requestID := by
      intro v req hv
      exact hids v (64, req.requestID) (by rw [hv]; simp [Call.texts])
    obtain ⟨row, hrow, hlock, hhash, hresp⟩ := hheld.rechargeRow (hexact t req hcall)
    obtain ⟨row', hrow', hlock', hhash', hresp'⟩ := hheld'.rechargeRow (hexact u req' hcall')
    obtain rfl := reach_oneRequest hs hpool hu.rechargeRequests hrow hrow'
      (hlock.trans (hk.trans hlock'.symm))
    have hreq : req = req' := by
      refine RechargeRequest.marshal_inj (fits_of_handle.2 _ hc) (fits_of_handle.2 _ hc') ?_
      have hdigest := hhash.symm.trans hhash'
      rw [hH.recharge, hH.recharge] at hdigest
      exact hH.apart t u _ _ (by rw [hcall]; rfl) (by rw [hcall']; rfl) hdigest
    refine ⟨hreq, ?_⟩
    rw [hresp', hresp, hreq]

end General

section Witness

def latin (cs : List Char) : Digest := cs.map fun c => UInt8.ofNat c.toNat

namespace Transparent

/-- Binary collation, and for a hash the body as it is. -/
scoped instance : Platform where
  giftHash req := latin req.marshal
  rechargeHash req := latin req.marshal
  simpleFold := id
  collate := id
  giftHash_covers _ h := by
    rw [id, id] at h
    rw [← h, Varchar.store_store]

end Transparent

open Transparent

def giftAgain : HttpRequest where
  method := "POST"
  path := "/v1/gifts"
  limit := ""
  requestID := ""
  body :=
    "\x7b\"request_id\":\"g\\u0031\",\"viewer_id\":2001,\"creator_id\":1001,".toList ++
    "\"live_session_id\":9001,\"match_id\":null,\"gift_id\":\"ROSE\",\"quantity\":3\x7d".toList

def postedTwice (t : ℕ) : Option HttpRequest :=
  if t = 0 then some giftPost else if t = 1 then some giftAgain else none

theorem one_body_per_request_replayed : ∃ f : Front,
    (0, (⟨201, .gift ⟨1, true, 3, 3, 3, 997, "created"⟩⟩ : Reply)) ∈ f.replies ∧
    (1, (⟨201, .gift ⟨1, true, 3, 3, 3, 997, "replayed"⟩⟩ : Reply)) ∈ f.replies ∧
    giftPost.body ≠ giftAgain.body ∧ OneBody postedTwice f := by
  obtain ⟨f, hr, hp⟩ := Steps.exists_of_runAll (f := Front.step postedTwice rosesCall)
    (s := Front.fresh (World.boot migrated))
    (p := fun f => decide (
      (0, (⟨201, .gift ⟨1, true, 3, 3, 3, 997, "created"⟩⟩ : Reply)) ∈ f.replies ∧
      (1, (⟨201, .gift ⟨1, true, 3, 3, 3, 997, "replayed"⟩⟩ : Reply)) ∈ f.replies))
    ([Visit.arrive 0, Visit.arrive 1] ++ (resume 0 20 5).map Visit.act ++ [Visit.answer 0 true] ++
      (resume 1 4 6).map Visit.act ++ [Visit.answer 1 true]) (by decide +kernel)
  obtain ⟨h0, h1⟩ := of_decide_eq_true hp
  have hdigest : Digested latin rosesCall := by
    refine ⟨fun _ => rfl, fun _ => rfl, fun t u x y hx hy _ => ?_⟩
    exact Option.some.inj (hx.symm.trans hy)
  have hids : ∀ t, ∀ x ∈ (rosesCall t).texts, Varchar.Exact x.1 x.2 := by
    intro t
    unfold rosesCall
    decide +kernel
  exact ⟨f, h0, h1, by decide +kernel, one_body_per_request postedTwice rosesCall
    (Start.boot rfl rfl rfl rfl) migrated_unused hdigest hids hr⟩

end Witness

end LiveRevenue
