import LiveRevenue.Proof.Statements

/-! # Recharge commits legal transactions

Whatever interleaves with it, a recharge commits nothing or exactly one posting,
and its result is that posting, a recorded request, or an error for a reason that
is listed.
-/

namespace LiveRevenue

open Transact

variable [Platform] {𝓔 : Env} {t : ℕ} {req : RechargeRequest}

def RechargeRequest.key (req : RechargeRequest) : Lock :=
  .rechargeRequest req.viewerID (Platform.collate req.requestID)

inductive RechargeFails (𝓔 : Env) (t : ℕ) (req : RechargeRequest) : Err → Prop where
  | fault {e : Err} {c : Cmd} {applied : Bool} {u : World} :
      𝓔.permit t c (.fault applied) u → RechargeFails 𝓔 t req e
  | raced {n m : ℕ} {rank : ℕ → ℕ} {u : World} :
      𝓔.permit t (.sql (.insertWalletTx .recharge req.viewerID req.requestID
        (Platform.rechargeHash req) n)) (.ok m rank) u →
      ¬ u.db.NewTxKey req.viewerID .recharge req.requestID →
      RechargeFails 𝓔 t req (.sql .dupKey)
  | tooLong {e : Err} : 64 < req.requestID.length ∨ 128 < req.paymentRef.length ∨
      64 < (userCoins req.viewerID).length → RechargeFails 𝓔 t req e
  | exhausted {e : Err} {c : Cmd} {ch : Choice} {u : World} : 𝓔.permit t c ch u →
      2 ^ 63 ≤ u.ids.tx ∨ 2 ^ 64 ≤ u.ids.event → RechargeFails 𝓔 t req e
  | noUser {e : Err} : 𝓔.start.db.users req.viewerID = none → RechargeFails 𝓔 t req e

def RechargeRequest.Valid (req : RechargeRequest) : Prop :=
  ¬ (isBlank req.requestID ∨ req.viewerID = 0 ∨ isBlank req.paymentRef) ∧
  1 ≤ req.coins ∧ req.coins ≤ 100000

/-- Results of a recharge, with the rows of `d` they rest on and the commits `cs` made. -/
inductive RechargeDone (𝓔 : Env) (t : ℕ) (req : RechargeRequest) (d : DB)
    (cs : List (List Write)) : Ret RechargeResponse → Prop where
  | invalid {e : AppError} : ¬ req.Valid → cs = [] → e.code = "VALIDATION_ERROR" →
      RechargeDone 𝓔 t req d cs (.app e)
  | failed {e : Err} : RechargeFails 𝓔 t req e → (cs = [] ∨ 𝓔.Losing t) →
      RechargeDone 𝓔 t req d cs (.err e)
  | mismatch {r : RechargeRow} : r ∈ d.rechargeRequests → r.lock = req.key →
      r.bodyHash ≠ Platform.rechargeHash req → cs = [] →
      RechargeDone 𝓔 t req d cs (.app payloadMismatch)
  | replayed {r : RechargeRow} : r ∈ d.rechargeRequests → r.lock = req.key →
      r.bodyHash = Platform.rechargeHash req → cs = [[]] →
      RechargeDone 𝓔 t req d cs
        (.ok ⟨r.txID, req.viewerID, r.coins, r.resultingBalance, "replayed"⟩)
  | created {d' : DB} (p : Recharged req d') : p.request ∈ d.rechargeRequests → cs = [p.writes] →
      RechargeDone 𝓔 t req d cs (.ok p.response)

theorem RechargeDone.mono {d d' : DB} {cs : List (List Write)} {r : Ret RechargeResponse}
    (h : RechargeDone 𝓔 t req d cs r) (hg : d.Grows d') : RechargeDone 𝓔 t req d' cs r := by
  have hm : ∀ {r}, r ∈ d.rechargeRequests → r ∈ d'.rechargeRequests :=
    fun hr => hg.rechargeRequests.subset hr
  cases h with
  | invalid hv hc he => exact .invalid hv hc he
  | failed hf hc => exact .failed hf hc
  | mismatch hr hk hh hc => exact .mismatch (hm hr) hk hh hc
  | replayed hr hk hh hc => exact .replayed (hm hr) hk hh hc
  | created p hp hc => exact .created p (hm hp) hc

theorem Recharged.plain {d : DB} (p : Recharged req d) : ∀ x ∈ p.writes, x.backed = false := by
  intro x hx
  rcases List.mem_append.mp hx with hx | hx
  · exact posting_plain x hx
  · rcases List.mem_pair.mp hx with rfl | rfl <;> rfl

def RechargePost (𝓔 : Env) (t : ℕ) (req : RechargeRequest) (r : Ret RechargeResponse) (w : World) :
    Prop := RechargeDone 𝓔 t req w.db (w.store.committedBy t) r

section Body

variable {w u v : World} {ws : List Write} {pins : List (Lock × DB)} {s : Stmt} {e : SqlErr}

theorem recharge_failed (hf : Fails 𝓔 t ws s u e) (hv : At 𝓔 t ws pins u v)
    (h : ∀ n rank, 𝓔.permit t (.sql s) (.ok n rank) u → (u.effect t ws s rank).res = .error e →
      RechargeFails 𝓔 t req (.sql e)) : RechargePost 𝓔 t req (retErr e) v := by
  refine .failed ?_ (.inl hv.own.committed)
  cases hf with
  | fault ha => exact .fault ha
  | error ha he => exact h _ _ ha he

theorem Inv.recharged (hi : Inv 𝓔 u) (hc : 𝓔.calls t = .recharge req) (p : Recharged req u.db) :
    Txn 𝓔.start.db u.store.binlog (𝓔.calls t) p.writes := by
  rw [hc]
  exact hi.txn (P := Recharged req) (W := fun _ p => p.writes) .recharged p

theorem runs_rechargePost {d d' : DB} {id n : ℕ} (hc : 𝓔.calls t = .recharge req)
    (hvalid : req.Valid) (hno : ∀ r ∈ 𝓔.start.db.rechargeRequests, r.lock ≠ req.key)
    (hlast : ∀ r ∈ d.walletTxs, r.txID < id) (hfits : Varchar.refuses 64 req.requestID = false)
    (hid : d'.NewTxID id)
    (hkey : d'.NewTxKey req.viewerID .recharge (Varchar.store 64 req.requestID))
    (own : Own t (d.opening req.viewerID ++ [Write.walletTx ⟨id, .recharge, req.viewerID,
        Varchar.store 64 req.requestID, Platform.rechargeHash req, n⟩])
      [(.wallet req.viewerID, d), (.walletTxKey req.viewerID .recharge
        (Platform.collate (Varchar.store 64 req.requestID)), d'), (.walletTx id, d')] w) :
    Runs 𝓔.logic t (rechargePost req (Platform.rechargeHash req) (d.balance req.viewerID) id)
      (RechargePost 𝓔 t req) (RechargePost 𝓔 t req) w := by
  unfold rechargePost
  simp only [buildRechargeEntries, sumLedgerEntries_pair, ne_eq, not_true_eq_false, if_false]
  let tx : WalletTx := ⟨id, .recharge, req.viewerID, Varchar.store 64 req.requestID,
    Platform.rechargeHash req, n⟩
  refine runs_posting tx own (by simp [tx]) (by simp [tx]) hid (by decide) (fun _ => by decide) rfl
    (fun e v he hcv => .failed ?_ (.inl hcv)) fun v hv => ?_
  · rcases he with ⟨_, _, _, ha, -⟩ | ⟨-, hl | hl⟩
    · exact .fault ha
    · exact .tooLong (.inr (.inr hl))
    · exact absurd hl (by decide)
  refine Runs.bind (runs_now hv.own fun requestAt v hv => ?_)
  refine Runs.bind (runs_insertRechargeRequest hv.own (fun e u v hu hf hv => ?_)
    fun d₃ v hreq hv => ?_)
  · refine recharge_failed hf hv fun _ _ _ he => ?_
    rcases run_insertRechargeRequest_error he with (hl | hl) | ⟨y, hy, hk⟩ | hfk | hu'
    · exact .tooLong (.inl (Varchar.length_lt_of_refuses hl))
    · exact .tooLong (.inr (.inl (Varchar.length_lt_of_refuses hl)))
    · -- a recorded request has its transaction, whose key this call holds
      simp only [applyAll_rechargeRequests, posting_picks, List.append_nil] at hy
      have hl := hu.inv.legal.tx_of_request
      rw [← hu.inv.db_eq] at hl
      obtain ⟨h1, h2⟩ : y.viewerID = req.viewerID ∧
          Platform.collate y.requestID = Platform.collate (Varchar.store 64 req.requestID) := by
        simpa [RechargeRow.stored, RechargeRow.lock] using hk
      rcases hl y hy with hy | ⟨x, hx, hxk⟩
      · by_cases hlong : 64 < req.requestID.length
        · exact .tooLong (.inl hlong)
        · rw [Varchar.store_eq_self (not_lt.mp hlong)] at h2
          exact absurd (by rw [RechargeRow.lock, h1, h2]; rfl) (hno y hy)
      · rw [h1, h2] at hxk
        exact absurd hxk (hu.own.newTxKey (by simp) hkey x hx)
    · exact absurd rfl (hfk tx (by simp))
    · rw [applyAll_users, hu.inv.grows.users] at hu'
      exact .noUser hu'
  refine Runs.bind (runs_now hv.own fun eventAt v hv => ?_)
  refine Runs.bind (runs_insertOutbox hv.own (fun e u v hu hf hv => ?_)
    fun eid d₄ v hev _ hv => ?_)
  · exact recharge_failed hf hv fun _ _ ha he => .exhausted ha (.inr (run_insertOutbox_error he))
  refine runs_commit_return hv.own
    (fun _ _ _ _ _ hp _ _ _ hd => .failed (.fault hp) (hd.unless_lost hp)) fun x hx => ?_
  have hacc : x.db.walletAccounts req.viewerID = d.walletAccounts req.viewerID :=
    hx.own.account (by simp)
  let p : Recharged req x.db := ⟨id, eid, n, requestAt, eventAt, hvalid.2.1, hvalid.2.2, hfits,
    hx.own.newTxID (by simp) hid, hx.own.latestTx hx.inv (by simp) hlast,
    hx.own.newTxKey (by simp) hkey, hx.own.newRequest (by simp) hreq,
    hx.own.newEvent (by simp) hev⟩
  have hb : wrap64 (d.balance req.viewerID + req.coins) = p.newBalance := by
    simp only [Recharged.newBalance, DB.balance_congr hacc]
  rw [hb]
  refine ⟨p.writes, ?_, hx.inv.recharged hc p, .plain (by rw [hc]; rfl) p.plain,
    fun v _ _ hg hd => .created p (hg.rechargeRequests.subset (by simp)) hd.committed⟩
  rw [List.append_assoc, ← posting_congr hacc]
  rfl

theorem runs_rechargeNew (hc : 𝓔.calls t = .recharge req) (hvalid : req.Valid)
    (hno : ∀ r ∈ 𝓔.start.db.rechargeRequests, r.lock ≠ req.key) (own : Own t [] [] w) :
    Runs 𝓔.logic t (rechargeNew req (Platform.rechargeHash req)) (RechargePost 𝓔 t req)
      (RechargePost 𝓔 t req) w := by
  unfold rechargeNew
  refine Runs.bind (runs_upsertAccount own (fun e u v hu hf hv => ?_) fun d v hv => ?_)
  · refine recharge_failed hf hv fun _ _ _ he => .noUser ?_
    rw [← hu.inv.grows.users]
    exact run_upsertAccount_error he
  refine Runs.bind (runs_selectBalance hv.own (by simp) (fun e u v hu hf hv => ?_) fun v hv => ?_)
  · have hacc : u.db.walletAccounts req.viewerID = d.walletAccounts req.viewerID :=
      hu.own.account (by simp)
    refine recharge_failed hf hv fun _ _ _ he => ?_
    simp only [World.effect, Stmt.run, applyAll_opening hacc] at he
    cases he
  refine Runs.bind (runs_now hv.own fun n v hv => ?_)
  refine Runs.bind (runs_do_insertWalletTx hv.own (fun e u v hu hf hv => ?_)
    fun id d' v hpos hid _ hadm hlast hfits hnew hkey hv => ?_)
  · refine recharge_failed hf hv fun _ _ ha he => ?_
    rcases run_insertWalletTx_error he with ⟨-, hl | hid | hu'⟩ | ⟨rfl, -, x, hx, hk⟩
    · exact .tooLong (.inl (Varchar.length_lt_of_refuses hl))
    · exact .exhausted ha (.inl (by omega))
    · exact .noUser (by rw [← hu.inv.grows.users]; simpa using hu')
    · by_cases hlong : 64 < req.requestID.length
      · exact .tooLong (.inl hlong)
      · rw [Varchar.store_eq_self (not_lt.mp hlong)] at hk
        exact .raced ha fun hnew => hnew x (by simpa using hx) hk
  unfold rechargeChecked
  split
  · next hlt =>
    obtain ⟨ch, x, ha, rfl⟩ := hadm
    refine Runs.pure fun y hy hi =>
      .failed (.exhausted ha (.inl ?_)) (.inl (hv.rely hy hi).own.committed)
    by_contra hx
    rw [wrap64_of_bounds (by omega) (by omega)] at hlt
    omega
  · next hlt =>
    obtain ⟨-, hn⟩ := wrap64_id hid hlt
    rw [hn]
    exact runs_rechargePost hc hvalid hno (hlast _ (List.mem_singleton_self _)) hfits hnew hkey
      hv.own

theorem runs_rechargeTx (hc : 𝓔.calls t = .recharge req) (hvalid : req.Valid)
    (own : Own t [] [] w) :
    Runs 𝓔.logic t (rechargeTx req (Platform.rechargeHash req)) (RechargePost 𝓔 t req)
      (RechargePost 𝓔 t req) w := by
  unfold rechargeTx
  refine Runs.bind
    (runs_txDo own nofun (fun e u v hu hf hv => ?_) fun r _ rank u v hu _ hr hv => ?_)
  · exact recharge_failed hf hv fun _ _ _ he => by cases he
  cases hr
  have hg := hv.later.grows
  have hv := hu.read hv rfl
  split
  · next existing hfind =>
    have hmem : existing ∈ u.db.rechargeRequests := List.mem_of_find?_eq_some hfind
    have hkey : existing.lock = req.key := by
      simpa [RechargeRequest.key] using List.find?_some hfind
    split
    · next hh =>
      refine Runs.pure fun x hx hi => .mismatch ((hg.trans hx.store.grows).rechargeRequests.subset
        hmem) hkey (fun he => ?_) (hv.rely hx hi).own.committed
      rw [(bytesEqual_iff _ _).mpr he] at hh
      cases hh
    · next hh =>
      refine runs_commit_return hv.own
        (fun _ _ _ _ _ hp _ _ _ hd => .failed (.fault hp) (hd.unless_lost hp)) fun x hx =>
        ⟨[], rfl, .nothing _, .plain (by rw [hc]; rfl) (by simp), fun y _ hl _ hd => ?_⟩
      exact .replayed (((hg.trans hx.later.grows).trans hl.grows).rechargeRequests.subset hmem) hkey
        ((bytesEqual_iff _ _).mp (Bool.not_eq_false _ ▸ hh)) hd.committed
  · next hfind =>
    have hno : ∀ r ∈ 𝓔.start.db.rechargeRequests, r.lock ≠ req.key := fun r hr he =>
      List.find?_eq_none.mp hfind r (hu.inv.grows.rechargeRequests.subset hr) (decide_eq_true he)
    exact runs_rechargeNew hc hvalid hno hv.own

end Body

theorem safe_recharge {w : World} (hc : 𝓔.calls t = .recharge req)
    (hfresh : w.store.committedBy t = [] ∧ w.aofBy t = []) :
    Safe 𝓔.logic t (RechargePost 𝓔 t req) (recharge req) w := by
  have hinv : ∀ {e : AppError}, ¬ req.Valid → e.code = "VALIDATION_ERROR" →
      Safe 𝓔.logic t (RechargePost 𝓔 t req) (.ret (.app e)) w :=
    fun hn he v hv _ => .invalid hn (hv.store.committed.trans hfresh.1) he
  unfold recharge
  split
  · next hb => exact hinv (fun hv => hv.1 hb) rfl
  · next hb =>
    split
    · next hcoins =>
      refine hinv (fun hv => ?_) rfl
      obtain ⟨h1, h2⟩ := hv.2
      omega
    · next hcoins =>
      have hvalid : req.Valid := ⟨hb, by omega⟩
      refine safe_withTx hfresh (fun a u v ha _ _ hcv _ => .failed (.fault ha) (.inl hcv))
        (fun v hv => runs_rechargeTx hc hvalid hv.own) (fun r v _ _ => ?_) (by rw [hc]; nofun)
        fun r v v' _ hl hcv h => ?_
      · unfold Dead
        rw [hc]
        trivial
      · unfold RechargePost
        rw [hcv]
        exact RechargeDone.mono h hl.grows

end LiveRevenue
