import LiveRevenue.Proof.System
import LiveRevenue.Result.Chain

/-! # One outcome per request

All calls of a key answer from the one row the key has. A gift finds that row on
every path: the early lookup, the duplicate key on its debit and the one on its
order. A recharge looks for it once, before it holds any lock; of two that start
together the second fails on the unique key of its transaction.
-/

namespace LiveRevenue

open Transact

theorem rejections_agree : ∀ x ∈ rejections,
    (mapRejectCodeToAppError x.1).httpStatus = x.2 ∧ (mapRejectCodeToAppError x.1).code = x.1 := by
  decide

section Gifts

variable [Platform]

/-- What a call must answer to the order recorded for its key. -/
def GiftOrder.Answer (o : GiftOrder) (req : GiftRequest) (r : Ret GiftResponse) : Prop :=
  if o.bodyHash ≠ Platform.giftHash req then r = .app payloadMismatch
  else if o.status = .accepted then
    ∃ kind, (kind = "created" ∨ kind = "replayed") ∧ r = .ok { o.replay with idempotency := kind }
  else ∃ message,
    r = .app { mapRejectCodeToAppError (o.rejectCode.getD "REJECTED") with message := message }

def CreatesGift (calls : ℕ → Call) (key : Lock) (s : State) (t : ℕ) : Prop :=
  ∃ req r, calls t = .sendGift req ∧ req.key = key ∧
    (s.threads t).result? = some (.gifted (.ok r)) ∧ r.idempotency = "created"

/-- All gifts with one key agree with the one order of the key. -/
structure GiftAgreement (calls : ℕ → Call) (key : Lock) (s : State) : Prop where
  oneRow : (s.world.db.giftOrders.filter fun o => o.lock = key).length ≤ 1
  answers : ∀ t req r, calls t = .sendGift req → req.key = key → req.Valid →
    (s.threads t).result? = some (.gifted r) → (∀ e, r ≠ .err e) →
    ∃ o ∈ s.world.db.giftOrders, o.lock = key ∧ o.Answer req r
  createdOnce : ∀ t u, CreatesGift calls key s t → CreatesGift calls key s u → t = u
  created : ∀ o ∈ s.world.db.giftOrders, o.lock = key → o.status = .accepted →
    (∀ t req, calls t = .sendGift req → req.key = key → s.threads t ≠ .idle →
      ∃ r, (s.threads t).result? = some (.gifted r) ∧ r ≠ .err (.sql .infra)) →
    ∃ t, CreatesGift calls key s t
  noDuplicate : ∀ t req r, calls t = .sendGift req → req.key = key →
    (s.threads t).result? = some (.gifted r) → r ≠ .err (.sql .dupKey)

section Results

variable {𝓔 : Env} {t : ℕ} {req : GiftRequest} {d : DB} {cs : List (List Write)}

theorem GiftDone.answer {r : Ret GiftResponse} (h : GiftDone 𝓔 t req d cs r) (hv : req.Valid)
    (hexact : Varchar.Exact 64 req.requestID) (hne : ∀ e, r ≠ .err e) :
    ∃ o ∈ d.giftOrders, o.lock = req.key ∧ o.Answer req r := by
  cases h with
  | invalid hn => exact absurd hv hn
  | failed => exact absurd rfl (hne _)
  | recorded hx =>
    cases hx with
    | mismatch ho hk hh => exact ⟨_, ho, hk, by simp [GiftOrder.Answer, hh, recordedResult]⟩
    | @accepted o ho hk hh hs =>
      refine ⟨_, ho, hk, ?_⟩
      simp only [GiftOrder.Answer, hh, ne_eq, not_true_eq_false, if_false, if_pos hs]
      exact ⟨"replayed", .inr rfl, rfl⟩
    | rejected ho hk hh hs =>
      refine ⟨_, ho, hk, ?_⟩
      simp only [GiftOrder.Answer, hh, ne_eq, not_true_eq_false, if_false, if_neg hs]
      exact ⟨_, rfl⟩
  | created p hp =>
    refine ⟨_, hp, storedKey_eq hexact p.fits.2, ?_⟩
    have hh : p.order.bodyHash = Platform.giftHash req := rfl
    have hs : p.order.status = .accepted := rfl
    simp only [GiftOrder.Answer, hh, ne_eq, not_true_eq_false, if_false, if_pos hs]
    exact ⟨"created", .inl rfl, rfl⟩
  | rejected p hp =>
    refine ⟨_, hp, storedKey_eq hexact p.fits.2, ?_⟩
    have hh : p.order.bodyHash = Platform.giftHash req := rfl
    have hs : p.order.status ≠ .accepted := nofun
    simp only [GiftOrder.Answer, hh, ne_eq, not_true_eq_false, if_false, if_neg hs]
    obtain ⟨h1, h2⟩ := rejections_agree _ p.known
    refine ⟨rejectMessage p.code, ?_⟩
    change Ret.app (⟨p.httpStatus, p.code, _⟩ : AppError) =
      .app ⟨(mapRejectCodeToAppError p.code).httpStatus, (mapRejectCodeToAppError p.code).code, _⟩
    rw [h1, h2]

theorem GiftDone.created_writes {r : GiftResponse} (h : GiftDone 𝓔 t req d cs (.ok r))
    (hr : r.idempotency = "created") : ∃ d', ∃ p : Accepted req d', cs = [p.writes] := by
  generalize hret : Ret.ok r = ret at h
  cases h with
  | created p _ hc => exact ⟨_, p, hc⟩
  | @recorded x hx =>
    cases hx with
    | accepted =>
      cases hret
      change "replayed" = "created" at hr
      exact absurd hr (by decide)
    | _ => cases hret
  | _ => cases hret

theorem GiftDone.of_accepted {r : Ret GiftResponse} (h : GiftDone 𝓔 t req d cs r)
    (hr : r ≠ .err (.sql .infra)) {d' : DB} {req' : GiftRequest} (p : Accepted req' d')
    (hp : p.writes ∈ cs) : ∃ resp, r = .ok resp ∧ resp.idempotency = "created" := by
  have horder : p.writes.filterMap Write.giftOrder? = [p.order] := by simp
  cases h with
  | invalid _ hc => simp [hc] at hp
  | failed _ hc =>
    rcases hc with hc | ⟨rfl, -⟩
    · simp [hc] at hp
    · exact absurd rfl hr
  | recorded _ hc =>
    rcases hc _ hp with he | he <;> rw [he] at horder <;> cases horder
  | created q => exact ⟨_, rfl, rfl⟩
  | rejected q _ hc =>
    rw [hc, List.mem_singleton] at hp
    rw [hp] at horder
    have hq : q.order = p.order := by simpa using horder
    have hstatus := congrArg GiftOrder.status hq
    cases hstatus

end Results

variable {calls : ℕ → Call} {w : World} {s : State} {K : State → Act Choice → State → Prop}
  {req : GiftRequest} {t : ℕ} {key : Lock}

section Runs

variable (hs : Start w) (hexact : ∀ t req, calls t = .sendGift req →
    req.key = key ∨ req.storedKey = key → Varchar.Exact 64 req.requestID)
  (h : (system calls).Reach K (Pool.fresh w) s)
include hs h

theorem reach_gifted (hc : calls t = .sendGift req) {o : Outcome}
    (ho : (s.threads t).result? = some o) :
    ∃ r, o = .gifted r ∧ GiftPost (.any calls w) t req r s.world :=
  gifted_of_good (reach_good (.any calls w) hs Env.any_allows h) hc ho

include hexact

theorem reach_createdOnce {u : ℕ} (ht : CreatesGift calls key s t)
    (hu : CreatesGift calls key s u) : t = u := by
  -- each of the two has committed an order with the key
  have hinsert : ∀ {v}, CreatesGift calls key s v → ∃ ws, (v, ws) ∈ s.world.store.binlog ∧
      ∃ o ∈ ws.filterMap Write.giftOrder?, o.lock = key := by
    rintro v ⟨req, r, hc, hk, hr, hcr⟩
    obtain ⟨_, he, hp⟩ := reach_gifted hs h hc hr
    cases he
    obtain ⟨d', p, hcs⟩ := GiftDone.created_writes hp hcr
    exact ⟨p.writes, Store.mem_committedBy.mp (hcs ▸ List.mem_singleton_self _), p.order,
      by simp, (storedKey_eq (hexact v req hc (.inl hk)) p.fits.2).trans hk⟩
  obtain ⟨ws, hws, o, ho, hk⟩ := hinsert ht
  obtain ⟨ws', hws', o', ho', hk'⟩ := hinsert hu
  have heq := (reach_legal hs h).1.inserter_unique GiftOrder.lock
    (fun _ _ => applyAll_giftOrders) (fun htx r hr r' hr' => (htx.newOrder hr r' hr').2) hws hws'
    ho ho' (hk.trans hk'.symm)
  exact congrArg Prod.fst heq

theorem reach_creates (hu : w.db.giftOrders = []) {o : GiftOrder} (ho : o ∈ s.world.db.giftOrders)
    (hk : o.lock = key) (hacc : o.status = .accepted)
    (hret : ∀ t req, calls t = .sendGift req → req.key = key → s.threads t ≠ .idle →
      ∃ r, (s.threads t).result? = some (.gifted r) ∧ r ≠ .err (.sql .infra)) :
    ∃ t, CreatesGift calls key s t := by
  obtain ⟨hl, hd⟩ := reach_legal hs h
  rw [hd, mem_dbAt (fun _ _ => applyAll_giftOrders), hu] at ho
  rcases ho with ho | ⟨⟨t, ws⟩, he, ho⟩
  · cases ho
  obtain ⟨h₁, h₂, -, -, htx⟩ := hl.at he
  rcases htx.of_giftOrder ho with ⟨req, p, hc, rfl, rfl⟩ | ⟨req, p, hc, rfl, rfl⟩
  · have hmem := Store.mem_committedBy.mpr he
    -- the order lies under the stored key, so only an exact id is looked up under the key
    have hkey : req.key = key := (storedKey_eq (hexact t req hc (.inr hk)) p.fits.2).symm.trans hk
    obtain ⟨r, ho, hr⟩ := hret t req hc hkey (reach_not_idle hs h he)
    obtain ⟨_, he, hp⟩ := reach_gifted hs h hc ho
    cases he
    obtain ⟨resp, rfl, hcr⟩ := GiftDone.of_accepted hp hr p hmem
    exact ⟨t, req, resp, hc, hkey, ho, hcr⟩
  · cases hacc

end Runs

/-- Whatever interleaves and whatever fails: a key has at most one order, which stays as it is,
and every gift with the key answers from it. The request ids of the key, and those stored under
it, are exact: no column cuts one. -/
theorem gift_idempotency_agreement (calls : ℕ → Call) {w : World} (hs : Start w)
    (hu : w.db.Unused) (key : Lock)
    (hexact : ∀ t req, calls t = .sendGift req → req.key = key ∨ req.storedKey = key →
      Varchar.Exact 64 req.requestID) {s : State}
    (h : (system calls).Reach (fun _ _ _ => True) (Pool.fresh w) s) :
    GiftAgreement calls key s ∧ ∀ s', (system calls).Reach (fun _ _ _ => True) s s' →
      s.world.db.giftOrders <+: s'.world.db.giftOrders := by
  obtain ⟨hl, hd⟩ := reach_legal hs h
  refine ⟨⟨?_, fun t req r hc hk hv hr hne => ?_, fun t u => reach_createdOnce hs hexact h,
    fun o ho hk hacc hret => ?_, fun t req r hc hk hr => ?_⟩, fun s' h' => ?_⟩
  · refine List.length_filter_le_one ?_ key
    have hkeys := (hl.outboxComplete hu.outboxComplete).orderKeys
    rw [← hd] at hkeys
    have hlocks := hkeys.map (f := fun k => Lock.giftOrderKey k.1 k.2) fun _ _ he =>
      by simpa [Prod.ext_iff] using he
    rw [List.map_map] at hlocks
    exact hlocks
  · obtain ⟨_, he, hp⟩ := reach_gifted hs h hc hr
    cases he
    exact hk ▸ GiftDone.answer hp hv (hexact t req hc (.inl hk)) hne
  · exact reach_creates hs hexact h hu.giftOrders ho hk hacc hret
  · obtain ⟨_, he, hp⟩ := reach_gifted hs h hc hr
    cases he
    rintro rfl
    generalize hret : Ret.err (Err.sql SqlErr.dupKey) = ret at hp
    cases hp with
    | failed hf =>
      cases hret
      obtain ⟨x, hx, -⟩ := hf rfl (hexact t req hc (.inl hk))
      change x ∈ w.db.walletTxs at hx
      rw [hu.walletTxs] at hx
      cases hx
    | @recorded x _ => cases x <;> cases hret
    | _ => cases hret
  · exact (reach_grows hs h h').giftOrders

end Gifts

section GiftWitness

open Plain

def sameGifts : ℕ → Call
  | 2 => .sendGift ⟨"g1", 2001, 1001, 9001, none, "ROSE", 4, 0⟩
  | _ => .sendGift ⟨"g1", 2001, 1001, 9001, none, "ROSE", 3, 0⟩

/-- Two gifts both find no order; the second meets the first at the key of its debit. -/
theorem gift_idempotency_agreement_race : ∃ s : State,
    (s.threads 0).result? = some (.gifted (.ok ⟨1, true, 3, 3, 3, 997, "created"⟩)) ∧
    (s.threads 1).result? = some (.gifted (.ok ⟨1, true, 3, 3, 3, 997, "replayed"⟩)) ∧
    (s.threads 2).result? = some (.gifted (.app payloadMismatch)) ∧
    GiftAgreement sameGifts (.giftOrderKey 2001 "g1") s := by
  obtain ⟨s, hr, hp⟩ := Machine.exists_reach (M := system sameGifts)
    (s := Pool.fresh (World.boot migrated)) (K := fun _ _ _ => true)
    (p := fun s => decide (
      (s.threads 0).result? = some (.gifted (.ok ⟨1, true, 3, 3, 3, 997, "created"⟩)) ∧
      (s.threads 1).result? = some (.gifted (.ok ⟨1, true, 3, 3, 3, 997, "replayed"⟩)) ∧
      (s.threads 2).result? = some (.gifted (.app payloadMismatch))))
    (startAll [0, 1, 2] ++ resume 1 2 4 ++ resume 0 20 5 ++ resume 1 10 6 ++ resume 2 3 7)
    (by decide +kernel)
  obtain ⟨h0, h1, h2⟩ := of_decide_eq_true hp
  refine ⟨s, h0, h1, h2, (gift_idempotency_agreement sameGifts (Start.boot rfl rfl rfl rfl)
    migrated_unused _ (fun t req hc _ => ?_) (hr.mono fun _ _ _ _ => trivial)).1⟩
  unfold sameGifts at hc
  split at hc <;> cases hc <;> decide +kernel

end GiftWitness

def RechargeRow.body (r : RechargeRow) : RechargeRequest :=
  ⟨r.requestID, r.viewerID, r.coins, r.paymentRef⟩

/-- What a call must answer to the request recorded for its key. -/
def RechargeRow.Answer (row : RechargeRow) (req : RechargeRequest) (r : Ret RechargeResponse) :
    Prop :=
  if req = row.body then ∃ kind, (kind = "created" ∨ kind = "replayed") ∧
    r = .ok ⟨row.txID, row.viewerID, row.coins, row.resultingBalance, kind⟩
  else r = .app payloadMismatch

def Cmd.insertsRecharge : Cmd → Bool
  | .sql (.insertWalletTx .recharge _ _ _ _) => true
  | _ => false

section Recharges

variable [Platform]

def RechargeRequest.storedKey (req : RechargeRequest) : Lock :=
  .rechargeRequest req.viewerID (Platform.collate (Varchar.store 64 req.requestID))

/-- The calls with the key: what their columns hold, who their viewer is, and that different
bodies have different hashes. No longer id is cut to the key. -/
structure RechargesFit (calls : ℕ → Call) (d : DB) (key : Lock) : Prop where
  fits : ∀ t req, calls t = .recharge req → req.key = key ∨ req.storedKey = key →
    req.requestID.length ≤ 64 ∧ req.paymentRef.length ≤ 128
  viewer : ∀ t req, calls t = .recharge req → req.key = key →
    req.viewerID < 2 ^ 64 ∧ d.users req.viewerID ≠ none
  bodies : ∀ t u req req', calls t = .recharge req → calls u = .recharge req' → req.key = key →
    req'.key = key → Platform.rechargeHash req = Platform.rechargeHash req' → req = req'

/-- A recharge with the key gets no infrastructure error, finds generated ids left, and inserts
its transaction only while none is committed for the key. -/
def Unraced (calls : ℕ → Call) (key : Lock) (t : ℕ) (c : Cmd) (ch : Choice) (w : World) : Prop :=
  ∀ req, calls t = .recharge req → req.key = key → (∀ applied, ch ≠ .fault applied) ∧
    w.ids.tx < 2 ^ 63 ∧ w.ids.event < 2 ^ 64 ∧
    (c.insertsRecharge = true → w.db.NewTxKey req.viewerID .recharge req.requestID)

def RechargesApart (calls : ℕ → Call) (key : Lock) (s : State) (a : Act Choice) (_ : State) :
    Prop :=
  ∀ t ch c, a = .run t ch → (s.threads t).next? = some c → Unraced calls key t c ch s.world

def CreatesRecharge (calls : ℕ → Call) (key : Lock) (s : State) (t : ℕ) : Prop :=
  ∃ req r, calls t = .recharge req ∧ req.key = key ∧
    (s.threads t).result? = some (.recharged (.ok r)) ∧ r.idempotency = "created"

/-- All recharges with one key agree with the one request of the key. -/
structure RechargeAgreement (calls : ℕ → Call) (key : Lock) (s : State) : Prop where
  answers : ∀ t req r, calls t = .recharge req → req.key = key → req.Valid →
    (s.threads t).result? = some (.recharged r) →
    ∃ row ∈ s.world.db.rechargeRequests, row.lock = key ∧ row.Answer req r
  oneRow : ∀ row ∈ s.world.db.rechargeRequests, ∀ row' ∈ s.world.db.rechargeRequests,
    row.lock = key → row'.lock = key → row = row'
  createdOnce : ∀ t u, CreatesRecharge calls key s t → CreatesRecharge calls key s u → t = u
  created : ∀ row ∈ s.world.db.rechargeRequests, row.lock = key →
    (∀ t req, calls t = .recharge req → req.key = key → s.threads t ≠ .idle →
      (s.threads t).result?.isSome) → ∃ t, CreatesRecharge calls key s t

def Env.unraced (calls : ℕ → Call) (w : World) (key : Lock) : Env where
  calls := calls
  start := w
  permit := Unraced calls key
  crash _ _ _ := True
  bars _ _ := False

theorem Env.unraced_allows {calls : ℕ → Call} {w : World} {key : Lock} (s : State) (a : Act Choice)
    (s' : State) (h : RechargesApart calls key s a s') :
    (Env.unraced calls w key).Allows s a s' := by
  cases a with
  | start t => trivial
  | run t ch => exact ⟨fun c hc => h t ch c rfl hc, fun _ _ _ _ _ hb => hb⟩
  | crash t => exact fun _ _ => trivial

variable {calls : ℕ → Call} {w : World} {s : State} {key : Lock} {t : ℕ} {req : RechargeRequest}

/-- No recharge with the key ends in an internal error. -/
theorem not_rechargeFails (hfit : RechargesFit calls w.db key) (hc : calls t = .recharge req)
    (hk : req.key = key) {e : Err} : ¬ RechargeFails (.unraced calls w key) t req e := by
  intro hf
  cases hf with
  | fault hp => exact (hp req hc hk).1 _ rfl
  | raced hp hdup => exact hdup ((hp req hc hk).2.2.2 rfl)
  | tooLong hl =>
    obtain ⟨h1, h2⟩ := hfit.fits t req hc (.inl hk)
    have h3 := length_userCoins (hfit.viewer t req hc hk).1
    omega
  | exhausted hp hx =>
    obtain ⟨-, h1, h2, -⟩ := hp req hc hk
    omega
  | noUser hu => exact (hfit.viewer t req hc hk).2 hu

theorem RechargesFit.recorded (hfit : RechargesFit calls w.db key) (hc : calls t = .recharge req)
    (hk : req.key = key ∨ req.storedKey = key) {d : DB} (p : Recharged req d) :
    p.request.lock = key ∧ req.key = key ∧ p.request.body = req := by
  obtain ⟨hid, hpay⟩ := hfit.fits t req hc hk
  have hsame : req.storedKey = req.key := by
    rw [RechargeRequest.storedKey, Varchar.store_eq_self hid, RechargeRequest.key]
  have hkey : req.key = key := hk.elim id fun h => hsame.symm.trans h
  refine ⟨hsame.trans hkey, hkey, ?_⟩
  simp only [Recharged.request, RechargeRow.stored, RechargeRow.body, Varchar.store_eq_self hid,
    Varchar.store_eq_self hpay]

theorem RechargeDone.created_writes {𝓔 : Env} {d : DB} {cs : List (List Write)}
    {r : RechargeResponse} (h : RechargeDone 𝓔 t req d cs (.ok r))
    (hr : r.idempotency = "created") :
    ∃ d', ∃ p : Recharged req d', cs = [p.writes] := by
  generalize hret : Ret.ok r = ret at h
  cases h with
  | created p _ hc => exact ⟨_, p, hc⟩
  | replayed =>
    cases hret
    change "replayed" = "created" at hr
    exact absurd hr (by decide)
  | _ => cases hret

theorem RechargeDone.of_recharged {𝓔 : Env} {d d' : DB} {cs : List (List Write)}
    {r : Ret RechargeResponse} (h : RechargeDone 𝓔 t req d cs r)
    (hf : ∀ e, ¬ RechargeFails 𝓔 t req e) {req' : RechargeRequest} (p : Recharged req' d')
    (hp : p.writes ∈ cs) : ∃ resp, r = .ok resp ∧ resp.idempotency = "created" := by
  have hrow : p.writes.filterMap Write.rechargeRequest? = [p.request] := by simp
  cases h with
  | invalid _ hc => simp [hc] at hp
  | failed he => exact absurd he (hf _)
  | mismatch _ _ _ hc => simp [hc] at hp
  | replayed _ _ _ hc =>
    rw [hc, List.mem_singleton] at hp
    rw [hp] at hrow
    cases hrow
  | created q => exact ⟨_, rfl, rfl⟩

section Runs

variable {K : State → Act Choice → State → Prop} (hs : Start w)
  (h : (system calls).Reach K (Pool.fresh w) s)
include hs h

theorem reach_request (hu : w.db.rechargeRequests = []) {row : RechargeRow}
    (hr : row ∈ s.world.db.rechargeRequests) :
    ∃ t req d', ∃ p : Recharged req d', (t, p.writes) ∈ s.world.store.binlog ∧
      calls t = .recharge req ∧ row = p.request := by
  obtain ⟨hl, hd⟩ := reach_legal hs h
  rw [hd, mem_dbAt (fun _ _ => applyAll_rechargeRequests), hu] at hr
  rcases hr with hr | ⟨⟨t, ws⟩, he, hr⟩
  · cases hr
  obtain ⟨h₁, h₂, -, -, htx⟩ := hl.at he
  obtain ⟨req, p, hc, rfl, rfl⟩ := htx.of_rechargeRequest hr
  exact ⟨t, req, _, p, he, hc, rfl⟩

theorem reach_recharger_unique {u : ℕ} {ws ws' : List Write} (row row' : RechargeRow)
    (ht : (t, ws) ∈ s.world.store.binlog) (hu : (u, ws') ∈ s.world.store.binlog)
    (hr : row ∈ ws.filterMap Write.rechargeRequest?)
    (hr' : row' ∈ ws'.filterMap Write.rechargeRequest?) (hk : row.lock = row'.lock) :
    (t, ws) = (u, ws') := by
  refine (reach_legal hs h).1.inserter_unique RechargeRow.lock
    (fun _ _ => applyAll_rechargeRequests) (fun htx r hr r' hr' => ?_) ht hu hr hr' hk
  obtain ⟨req, p, -, -, rfl⟩ := htx.of_rechargeRequest hr
  exact p.newRequest r' hr'

theorem reach_oneRequest (hu : w.db.rechargeRequests = []) {row row' : RechargeRow}
    (hr : row ∈ s.world.db.rechargeRequests) (hr' : row' ∈ s.world.db.rechargeRequests)
    (hk : row.lock = row'.lock) : row = row' := by
  obtain ⟨t, req, _, p, ht, -, rfl⟩ := reach_request hs h hu hr
  obtain ⟨t', req', _, p', ht', -, rfl⟩ := reach_request hs h hu hr'
  have he := reach_recharger_unique hs h p.request p'.request ht ht' (by simp)
    (by simp) hk
  have hrows := congrArg (fun e => e.2.filterMap Write.rechargeRequest?) he
  simpa using hrows

end Runs

section Apart

variable (hs : Start w) (h : (system calls).Reach (RechargesApart calls key) (Pool.fresh w) s)
include hs h

theorem reach_recharged (hc : calls t = .recharge req) {o : Outcome}
    (ho : (s.threads t).result? = some o) :
    ∃ r, o = .recharged r ∧ RechargePost (.unraced calls w key) t req r s.world := by
  have hfin := (reach_good (.unraced calls w key) hs Env.unraced_allows h).result ho
  rw [show (Env.unraced calls w key).calls t = .recharge req from hc] at hfin
  cases hfin with
  | recharged hp => exact ⟨_, rfl, hp⟩

theorem reach_recharge_answer (hu : w.db.rechargeRequests = [])
    (hfit : RechargesFit calls w.db key) (hc : calls t = .recharge req) (hk : req.key = key)
    (hv : req.Valid) {r : Ret RechargeResponse}
    (hr : (s.threads t).result? = some (.recharged r)) :
    ∃ row ∈ s.world.db.rechargeRequests, row.lock = key ∧ row.Answer req r := by
  -- two bodies of the key are the same if their hashes are
  have hbody : ∀ row ∈ s.world.db.rechargeRequests, row.lock = key →
      (req = row.body ↔ row.bodyHash = Platform.rechargeHash req) := by
    intro row hrow hlock
    obtain ⟨u, req', _, p, -, hcu, rfl⟩ := reach_request hs h hu hrow
    obtain ⟨-, hk', hsame⟩ := hfit.recorded hcu (.inr hlock) p
    rw [hsame]
    exact ⟨fun he => congrArg Platform.rechargeHash he.symm,
      fun he => (hfit.bodies u t req' req hcu hc hk' hk he).symm⟩
  obtain ⟨_, he, hp⟩ := reach_recharged hs h hc hr
  cases he
  cases hp with
  | invalid hn => exact absurd hv hn
  | failed hf => exact absurd hf (not_rechargeFails hfit hc hk)
  | mismatch hrow hlock hh =>
    refine ⟨_, hrow, hlock.trans hk, ?_⟩
    rw [RechargeRow.Answer, if_neg fun he => hh ((hbody _ hrow (hlock.trans hk)).mp he)]
  | @replayed row hrow hlock hh =>
    have he := (hbody _ hrow (hlock.trans hk)).mpr hh
    refine ⟨_, hrow, hlock.trans hk, ?_⟩
    rw [RechargeRow.Answer, if_pos he]
    exact ⟨"replayed", .inr rfl, by rw [he]; rfl⟩
  | created p hrow =>
    obtain ⟨hlock, -, hsame⟩ := hfit.recorded hc (.inl hk) p
    refine ⟨_, hrow, hlock, ?_⟩
    rw [RechargeRow.Answer, if_pos hsame.symm]
    exact ⟨"created", .inl rfl, rfl⟩

omit hs h in
/-- As long as no recharge of the key inserts its transaction when one is committed already, all
of them answer from the one request of the key. -/
theorem recharge_idempotency_agreement (calls : ℕ → Call) {w : World} (hs : Start w)
    (hu : w.db.Unused) {key : Lock} (hfit : RechargesFit calls w.db key) {s : State}
    (h : (system calls).Reach (RechargesApart calls key) (Pool.fresh w) s) :
    RechargeAgreement calls key s := by
  refine ⟨fun t req r hc hk hv hr =>
      reach_recharge_answer hs h hu.rechargeRequests hfit hc hk hv hr,
    fun row hr row' hr' hk hk' =>
      reach_oneRequest hs h hu.rechargeRequests hr hr' (hk.trans hk'.symm),
    ?_, fun row hr hk hret => ?_⟩
  · rintro t u ⟨req, r, hc, hk, hr, hcr⟩ ⟨req', r', hc', hk', hr', hcr'⟩
    obtain ⟨_, he, hp⟩ := reach_recharged hs h hc hr
    cases he
    obtain ⟨_, he', hp'⟩ := reach_recharged hs h hc' hr'
    cases he'
    obtain ⟨_, p, hcs⟩ := RechargeDone.created_writes hp hcr
    obtain ⟨_, p', hcs'⟩ := RechargeDone.created_writes hp' hcr'
    have he := reach_recharger_unique hs h p.request p'.request
      (Store.mem_committedBy.mp (hcs ▸ List.mem_singleton_self _))
      (Store.mem_committedBy.mp (hcs' ▸ List.mem_singleton_self _)) (by simp) (by simp)
      ((hfit.recorded hc (.inl hk) p).1.trans (hfit.recorded hc' (.inl hk') p').1.symm)
    exact congrArg Prod.fst he
  · obtain ⟨t, req, _, p, ht, hc, rfl⟩ := reach_request hs h hu.rechargeRequests hr
    obtain ⟨-, hk, -⟩ := hfit.recorded hc (.inr hk) p
    have hmem := Store.mem_committedBy.mpr ht
    obtain ⟨o, ho⟩ := Option.isSome_iff_exists.mp (hret t req hc hk (reach_not_idle hs h ht))
    obtain ⟨r, rfl, hp⟩ := reach_recharged hs h hc ho
    obtain ⟨resp, rfl, hcr⟩ := RechargeDone.of_recharged hp
      (fun _ => not_rechargeFails hfit hc hk) p hmem
    exact ⟨t, req, resp, hc, hk, ho, hcr⟩

end Apart

end Recharges

section RechargeWitness

open Plain

def sameRecharges : ℕ → Call
  | 2 => .recharge ⟨"r1", 2001, 50, "card"⟩
  | _ => .recharge ⟨"r1", 2001, 100, "card"⟩

theorem sameRecharges_cases {t : ℕ} {req : RechargeRequest} (h : sameRecharges t = .recharge req) :
    req = ⟨"r1", 2001, 50, "card"⟩ ∨ req = ⟨"r1", 2001, 100, "card"⟩ := by
  unfold sameRecharges at h
  split at h <;> cases h
  · exact .inl rfl
  · exact .inr rfl

theorem sameRecharges_fit : RechargesFit sameRecharges migrated (.rechargeRequest 2001 "r1") where
  fits t req h _ := by
    rcases sameRecharges_cases h with rfl | rfl <;> decide
  viewer t req h _ := by
    rcases sameRecharges_cases h with rfl | rfl <;> exact ⟨by decide, nofun⟩
  bodies t u req req' h h' _ _ hh := by
    rcases sameRecharges_cases h with rfl | rfl <;> rcases sameRecharges_cases h' with rfl | rfl
    · rfl
    · exact absurd hh (by decide)
    · exact absurd hh (by decide)
    · rfl

def firstInsert (s : State) (a : Act Choice) : Bool :=
  (failing? a).isNone && decide (s.world.ids.tx < 2 ^ 63 ∧ s.world.ids.event < 2 ^ 64) &&
  match a with
  | .run t _ => (s.threads t).next?.all fun c => !c.insertsRecharge || s.world.db.walletTxs.isEmpty
  | _ => true

theorem rechargesApart_of_firstInsert {calls : ℕ → Call} {key : Lock} {s s' : State}
    {a : Act Choice} (h : firstInsert s a = true) : RechargesApart calls key s a s' := by
  rintro t ch c rfl hc req - -
  simp only [firstInsert, hc, Bool.and_eq_true, decide_eq_true_eq, Option.all_some,
    Bool.or_eq_true, Bool.not_eq_true', List.isEmpty_iff] at h
  obtain ⟨⟨hf, h1, h2⟩, hins⟩ := h
  refine ⟨?_, h1, h2, fun hc x hx => ?_⟩
  · rintro applied rfl
    cases hf
  · rw [hins.resolve_left (by simp [hc])] at hx
    cases hx

/-- Two recharges one after the other, and one with another body. -/
theorem recharge_idempotency_agreement_replay : ∃ s : State,
    (s.threads 0).result? = some (.recharged (.ok ⟨1, 2001, 100, 1100, "created"⟩)) ∧
    (s.threads 1).result? = some (.recharged (.ok ⟨1, 2001, 100, 1100, "replayed"⟩)) ∧
    (s.threads 2).result? = some (.recharged (.app payloadMismatch)) ∧
    RechargeAgreement sameRecharges (.rechargeRequest 2001 "r1") s := by
  obtain ⟨s, hr, hp⟩ := Machine.exists_reach (M := system sameRecharges)
    (s := Pool.fresh (World.boot migrated)) (K := fun s a _ => firstInsert s a)
    (p := fun s => decide (
      (s.threads 0).result? = some (.recharged (.ok ⟨1, 2001, 100, 1100, "created"⟩)) ∧
      (s.threads 1).result? = some (.recharged (.ok ⟨1, 2001, 100, 1100, "replayed"⟩)) ∧
      (s.threads 2).result? = some (.recharged (.app payloadMismatch))))
    (launch 0 15 5 ++ launch 1 4 6 ++ launch 2 3 7) (by decide +kernel)
  obtain ⟨h0, h1, h2⟩ := of_decide_eq_true hp
  exact ⟨s, h0, h1, h2, recharge_idempotency_agreement sameRecharges (Start.boot rfl rfl rfl rfl)
    migrated_unused sameRecharges_fit (hr.mono fun _ _ _ hk => rechargesApart_of_firstInsert hk)⟩

/-- Two recharges both find no request. The second meets the transaction of the first and
returns its duplicate key as an internal error. -/
theorem recharge_race_fails : RechargesFit sameRecharges migrated (.rechargeRequest 2001 "r1") ∧
    ∃ s : State, (system sameRecharges).Reach (fun _ a _ => failing? a = none)
      (Pool.fresh (World.boot migrated)) s ∧
    (s.threads 1).result? = some (.recharged (.err (.sql .dupKey))) ∧
    ¬ RechargeAgreement sameRecharges (.rechargeRequest 2001 "r1") s := by
  obtain ⟨s, hr, hp⟩ := Machine.exists_reach (M := system sameRecharges)
    (s := Pool.fresh (World.boot migrated)) (K := fun _ a _ => (failing? a).isNone)
    (p := fun s => decide ((s.threads 1).result? = some (.recharged (.err (.sql .dupKey)))))
    (startAll [0, 1] ++ resume 1 2 4 ++ resume 0 15 5 ++ resume 1 5 6) (by decide +kernel)
  have hfail := of_decide_eq_true hp
  refine ⟨sameRecharges_fit, s, hr.mono fun _ _ _ hk => Option.isNone_iff_eq_none.mp hk, hfail,
    fun hagree => ?_⟩
  obtain ⟨row, -, -, hans⟩ := hagree.answers 1 _ _ rfl rfl
    ⟨by decide, by decide⟩ hfail
  unfold RechargeRow.Answer at hans
  split at hans
  · obtain ⟨_, _, he⟩ := hans
    cases he
  · cases hans

end RechargeWitness

end LiveRevenue
