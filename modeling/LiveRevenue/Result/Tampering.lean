import LiveRevenue.Proof.Solo
import LiveRevenue.Result.Outbox
import LiveRevenue.Result.Reconciliation

/-! # Settlements find what was altered

Run alone, a settlement records the totals of its session and passes, since every accepted
order has exactly its own debit. Changing or deleting the user's entry of one such debit
moves the wallet total of that order's session and no other, so the settlement of that
session fails and all others still pass. All of this is as long as the totals are within
the `int64` they are scanned into; beyond it the settlement ends with an error.
-/

namespace LiveRevenue

open Transact

/-- What is done to a ledger entry behind the service's back. -/
inductive Tampering where
  | change (δ : ℤ)
  | delete

namespace Tampering

def entries (e : WalletEntry) : Tampering → List WalletEntry
  | change δ => [{ e with amount := e.amount + δ }]
  | delete => []

def Real : Tampering → Prop
  | change δ => δ ≠ 0
  | delete => True

def shift (o : GiftOrder) : Tampering → ℤ
  | change δ => -δ
  | delete => -o.chargedCoins

theorem shift_ne_zero {τ : Tampering} (hτ : τ.Real) {o : GiftOrder} (ho : 0 < o.chargedCoins) :
    τ.shift o ≠ 0 := by
  cases τ with
  | change δ =>
    have : δ ≠ 0 := hτ
    simp only [shift]
    omega
  | delete =>
    simp only [shift]
    omega

theorem sum_entries (τ : Tampering) {o : GiftOrder} {e : WalletEntry}
    (he : e.amount = -o.chargedCoins) :
    ((τ.entries e).map fun e => -e.amount).sum = o.chargedCoins + τ.shift o := by
  cases τ with
  | change δ =>
    simp only [entries, shift, he, List.map_cons, List.map_nil, List.sum_cons, List.sum_nil]
    omega
  | delete => simp [entries, shift]

end Tampering

def DB.tamper (d : DB) (txID : ℕ) (τ : Tampering) : DB :=
  { d with walletEntries := d.walletEntries.flatMap fun e =>
      if e.txID = txID ∧ isUserCoins e.accountCode then τ.entries e else [e] }

def State.tamper (s : State) (txID : ℕ) (τ : Tampering) : State :=
  { s with world := s.world.setStore { s.world.store with db := s.world.db.tamper txID τ } }

section Totals

theorem DB.tamper_userEntries (d : DB) (txID : ℕ) (τ : Tampering) (y : ℕ) :
    (d.tamper txID τ).walletEntries.filter (fun e => e.txID = y ∧ isUserCoins e.accountCode) =
      (d.walletEntries.filter fun e => e.txID = y ∧ isUserCoins e.accountCode).flatMap
        fun e => if y = txID then τ.entries e else [e] := by
  unfold DB.tamper
  simp only
  induction d.walletEntries with
  | nil => rfl
  | cons e es ih =>
    rw [List.flatMap_cons, List.filter_append, ih, List.filter_cons]
    by_cases hy : e.txID = y ∧ isUserCoins e.accountCode = true
    · obtain ⟨rfl, huser⟩ := hy
      by_cases htx : e.txID = txID
      · cases τ <;> simp [htx, huser, Tampering.entries]
      · simp [htx, huser]
    · -- an altered entry keeps its transaction and its account
      have hnone : (if e.txID = txID ∧ isUserCoins e.accountCode then τ.entries e else [e]).filter
          (fun e => e.txID = y ∧ isUserCoins e.accountCode) = [] := by
        split
        · cases τ <;> simp [Tampering.entries, hy]
        · simp [hy]
      rw [hnone, List.nil_append, if_neg fun h => hy (of_decide_eq_true h)]

variable [Platform] {d : DB} {h : History} {calls : ℕ → Call} {o o' : GiftOrder} {x : WalletTx}
  {τ : Tampering}

theorem Legal.txIDs (hl : Legal calls d h) (hx : d.walletTxs = []) :
    ((dbAt d h).walletTxs.map (·.txID)).Nodup := by
  induction hl with
  | nil => simp [hx]
  | snoc _ ht ih =>
    rw [dbAt_snoc, applyAll_walletTxs]
    have ha : Announced Varchar.Cut _ _ := ht.announced fun _ _ _ => rfl
    exact List.nodup_map_append ih ha.txs fun x hx y hy => (ha.newTxs y hy).1 x hx

theorem PaidOnce.debit_unique (hp : PaidOnce d) (ho : o ∈ d.accepted) {y : WalletTx}
    (hx : x ∈ d.walletTxs) (hpx : x.Pays o) (hy : y ∈ d.walletTxs) (hpy : y.Pays o) : x = y := by
  obtain ⟨z, -, -, hjoin⟩ := hp.joined ho
  have hz : ∀ x ∈ d.walletTxs, x.Pays o → x = z := by
    rintro x hx ⟨htype, hactor, hreq⟩
    have hm : x ∈ d.walletTxs.filter (fun x =>
        x.lock = .walletTxKey o.viewerID .giftDebit (Platform.collate o.requestID)) :=
      List.mem_filter.mpr ⟨hx, by simp [WalletTx.lock, htype, hactor, hreq]⟩
    rw [hjoin] at hm
    exact List.mem_singleton.mp hm
  rw [hz x hx hpx, hz y hy hpy]

/-- What the join adds up for an order once the entry of another one, or its own, is altered. -/
theorem PaidOnce.tamperedAmount (hp : PaidOnce d) (htx : (d.walletTxs.map (·.txID)).Nodup)
    (ho : o ∈ d.accepted) (hx : x ∈ d.walletTxs) (hpay : x.Pays o) (ho' : o' ∈ d.accepted) :
    ((d.walletTxs.filter fun x =>
      x.lock = .walletTxKey o'.viewerID .giftDebit (Platform.collate o'.requestID)).flatMap fun y =>
      ((d.tamper x.txID τ).walletEntries.filter fun e =>
        e.txID = y.txID ∧ isUserCoins e.accountCode).map fun e => -e.amount).sum =
      if o' = o then o'.chargedCoins + τ.shift o' else (o'.chargedCoins : ℤ) := by
  obtain ⟨y, hy, he, hjoin⟩ := hp.joined ho'
  obtain ⟨hy, hpay'⟩ := WalletTx.pays_of_receipt hy he
  rw [hjoin, List.flatMap_singleton, DB.tamper_userEntries, hp.userEntries ho' hy hpay',
    List.flatMap_singleton]
  -- the orders are the same exactly if their transactions are
  by_cases hoo : o' = o
  · subst hoo
    rw [if_pos rfl, if_pos (by rw [hp.debit_unique ho' hy hpay' hx hpay])]
    exact τ.sum_entries rfl
  · have hne : y.txID ≠ x.txID := by
      intro hid
      obtain rfl : y = x := List.inj_on_of_nodup_map htx hy hx hid
      refine hoo (List.inj_on_of_nodup_map hp.keys (DB.mem_accepted ho') (DB.mem_accepted ho) ?_)
      rw [← hpay'.2.1, ← hpay'.2.2, hpay.2.1, hpay.2.2]
    rw [if_neg hoo, if_neg hne]
    simp

theorem PaidOnce.giftDebits_tamper (hp : PaidOnce d) (τ : Tampering)
    (htx : (d.walletTxs.map (·.txID)).Nodup) (ho : o ∈ d.accepted) (hx : x ∈ d.walletTxs)
    (hpay : x.Pays o) (id : ℕ) :
    (d.tamper x.txID τ).giftDebits id = sumOf (·.chargedCoins) (d.acceptedOrders id) +
      if o.liveSessionID = id then τ.shift o else 0 := by
  have hnodup : (d.acceptedOrders id).Nodup := hp.keys.of_map.filter _
  have hsum : (d.tamper x.txID τ).giftDebits id = ((d.acceptedOrders id).map fun o' =>
      if o' = o then o'.chargedCoins + τ.shift o' else (o'.chargedCoins : ℤ)).sum := by
    unfold DB.giftDebits
    rw [List.flatMap_def, List.sum_flatten, List.map_map]
    congr 1
    exact List.map_congr_left fun o' ho' =>
      hp.tamperedAmount htx ho hx hpay (DB.mem_acceptedOrders.mp ho').1
  rw [hsum, List.sum_map_ite_eq, hnodup.count, add_comm]
  by_cases hid : o.liveSessionID = id
  · rw [if_pos (DB.mem_acceptedOrders.mpr ⟨ho, hid⟩), if_pos hid]
    simp [sumOf]
  · rw [if_neg fun hm => hid (DB.mem_acceptedOrders.mp hm).2, if_neg hid]
    simp [sumOf]

end Totals

section Runs

variable [Platform] {d : DB} {id : ℕ}

/-- The session exists, and its totals are within the `int64` they are scanned into. -/
structure DB.Settleable (d : DB) (id : ℕ) : Prop where
  session : (d.liveSessions id).isSome
  gross : fitsInt64 (sumOf (·.chargedCoins) (d.acceptedOrders id))
  diamonds : fitsInt64 (sumOf (·.diamondReward) (d.acceptedOrders id))
  debits : fitsInt64 (d.giftDebits id)

instance : Decidable (d.Settleable id) :=
  decidable_of_iff ((d.liveSessions id).isSome ∧
    fitsInt64 (sumOf (·.chargedCoins) (d.acceptedOrders id)) ∧
    fitsInt64 (sumOf (·.diamondReward) (d.acceptedOrders id)) ∧ fitsInt64 (d.giftDebits id))
    ⟨fun h => ⟨h.1, h.2.1, h.2.2.1, h.2.2.2⟩, fun h => ⟨h.session, h.gross, h.diamonds, h.debits⟩⟩

def DB.reconciliation (d : DB) (id reconciledAt : ℕ) : Reconciliation :=
  reconcile (d.giftDebits id) (sumOf (·.chargedCoins) (d.acceptedOrders id)) reconciledAt

def DB.settle (d : DB) (id settledAt reconciledAt : ℕ) : DB :=
  applyAll [Write.settlement id (d.settlement id settledAt),
    Write.reconciliation id (d.reconciliation id reconciledAt)] d

theorem DB.settle_rows (d : DB) (id n m : ℕ) :
    (d.settle id n m).streamSettlements id = some (d.settlement id n) ∧
      (d.settle id n m).reconciliations id = some (d.reconciliation id m) := by
  constructor
  · exact Function.update_self _ _ _
  · exact Function.update_self _ _ _

theorem DB.Settleable.settle (h : d.Settleable id) (n m : ℕ) : (d.settle id n m).Settleable id :=
  ⟨h.session, h.gross, h.diamonds, h.debits⟩

theorem DB.Settleable.topContributors (h : d.Settleable id) (limit : ℕ) :
    (topByTotal limit (groupSum (·.viewerID) (·.chargedCoins) (d.acceptedOrders id))).all
      (fitsInt64 ·.2) = true := by
  refine List.all_eq_true.mpr fun row hrow => ?_
  have hm := (List.mem_insertionSort _).mp (List.mem_of_mem_take hrow)
  obtain ⟨viewer, -, rfl⟩ := List.mem_map.mp hm
  have hle : sumOf (·.chargedCoins) ((d.acceptedOrders id).filter fun o => o.viewerID = viewer) ≤
      sumOf (·.chargedCoins) (d.acceptedOrders id) := sumOf_sublist List.filter_sublist
  have hpos := sumOf_nonneg (·.chargedCoins)
    ((d.acceptedOrders id).filter fun o => o.viewerID = viewer)
  have hfits := h.gross
  simp only [fitsInt64, Bool.and_eq_true, decide_eq_true_eq] at hfits ⊢
  omega

variable {calls : ℕ → Call} {t : ℕ} {v : World} {ids : Ids}

theorem safe_solo_getSettlement (h : v.db.Settleable id) {row : StreamSettlement}
    {check : Reconciliation} (hrow : v.db.streamSettlements id = some row)
    (hcheck : v.db.reconciliations id = some check) :
    Safe ((system calls).solo Choice.Ok) t (fun r v' => (∃ resp, r = .ok resp) ∧ v' = v)
      (getSettlement id) v := by
  unfold getSettlement
  refine Runs.toSafe (Runs.bind (runs_solo_read ⟨.ok 0 id, trivial⟩ rfl (fun _ => rfl)
    (fun _ _ _ hf => hf.elim) (fun e rank he => ?_) fun r rank hr => ?_))
  · cases he
  simp only [Stmt.run, hrow, hcheck, Except.ok.injEq] at hr
  subst hr
  refine Runs.bind (runs_solo_read ⟨.ok 0 id, trivial⟩ rfl (fun _ => rfl)
    (fun _ _ _ hf => hf.elim) (fun e rank he => ?_) fun top rank _ => ?_)
  · simp only [Stmt.run, h.topContributors, if_true] at he
    cases he
  · exact runs_alone_pure ⟨⟨_, rfl⟩, rfl⟩

section Statements

variable {rank : ℕ → ℕ}

theorem DB.Settleable.selectSessionExists (h : d.Settleable id) :
    (Stmt.selectSessionExists id).alone d ids rank = ⟨.ok (), ids, [], [], []⟩ := by
  simp only [Stmt.alone, Stmt.run, h.session, if_true]

theorem DB.Settleable.sumAcceptedOrders (h : d.Settleable id) :
    (Stmt.sumAcceptedOrders id).alone d ids rank =
      ⟨.ok (sumOf (·.chargedCoins) (d.acceptedOrders id), (d.acceptedOrders id).length,
        sumOf (·.diamondReward) (d.acceptedOrders id)), ids, [], [], []⟩ := by
  simp only [Stmt.alone, Stmt.run, h.gross, h.diamonds, Bool.and_self, if_true]

theorem DB.Settleable.upsertSettlement (h : d.Settleable id) (r : StreamSettlement) :
    (Stmt.upsertSettlement id r).alone d ids rank = ⟨.ok (), ids, [.settlement id r], [], []⟩ := by
  simp [Stmt.alone, Stmt.run, Option.isSome_iff_ne_none.mp h.session]

theorem DB.Settleable.sumGiftDebits (h : d.Settleable id) :
    (Stmt.sumGiftDebits id).alone d ids rank = ⟨.ok (d.giftDebits id), ids, [], [], []⟩ := by
  simp only [Stmt.alone, Stmt.run, h.debits, if_true]

theorem DB.Settleable.upsertReconciliation (h : d.Settleable id) (r : Reconciliation) :
    (Stmt.upsertReconciliation id r).alone d ids rank =
      ⟨.ok (), ids, [.reconciliation id r], [], []⟩ := by
  simp [Stmt.alone, Stmt.run, Option.isSome_iff_ne_none.mp h.session]

end Statements

def DB.SettlesTo (d : DB) (id : ℕ) (r : Except Err SettlementResponse) (d' : DB) : Prop :=
  (∃ resp, r = .ok resp) ∧ ∃ n m, d' = d.settle id n m

theorem runs_alone_settlementTx (h : d.Settleable id) (hv : Working t d [] ids v) :
    Runs ((system calls).solo Choice.Ok) t (settlementTx id)
      (fun r v' => d.SettlesTo id r v'.db) (fun r v' => d.SettlesTo id r v'.db) v := by
  unfold settlementTx
  refine Runs.bind (runs_alone_effect hv (fun _ => h.selectSessionExists) fun v hv => ?_)
  refine Runs.bind (runs_alone_effect hv (fun _ => h.sumAcceptedOrders) fun v hv => ?_)
  refine Runs.bind (runs_alone_now fun n => ?_)
  refine Runs.bind (runs_alone_effect hv (fun _ => h.upsertSettlement _) fun v hv => ?_)
  -- what is read from here on is not changed by the row just written
  have h₁ : (applyAll [Write.settlement id (d.settlement id n)] d).Settleable id :=
    ⟨h.session, h.gross, h.diamonds, h.debits⟩
  refine Runs.bind (runs_alone_effect hv (fun _ => h₁.sumGiftDebits) fun v hv => ?_)
  refine Runs.bind (runs_alone_now fun m => ?_)
  refine Runs.bind (runs_alone_effect hv (fun _ => h₁.upsertReconciliation _) fun v hv => ?_)
  refine Runs.bind (runs_alone_commit hv fun v hdb _ => ?_)
  have hdb : v.db = d.settle id n m := hdb
  have hrows := d.settle_rows id n m
  rw [← hdb] at hrows
  refine Runs.seq (Runs.lift (safe_solo_getSettlement (hdb ▸ h.settle n m) hrows.1 hrows.2)) ?_
  rintro r v' - ⟨⟨resp, rfl⟩, rfl⟩
  exact runs_alone_pure ⟨⟨resp, rfl⟩, n, m, hdb⟩

theorem safe_alone_generateSettlement {w : World} (h : w.db.Settleable id) (hw : w.Unlocked t) :
    Safe ((system calls).solo Choice.Ok) t (fun o v => (∃ resp, o = .settled (.ok resp)) ∧
      (∃ n m, v.db = w.db.settle id n m) ∧ ∀ u, v.Unlocked u)
      (Call.generateSettlement id).program w := by
  have hrun : Safe ((system calls).solo Choice.Ok) t
      (fun r v => w.db.SettlesTo id r v.db ∧ ∀ u, v.Unlocked u) (generateSettlement id) w :=
    safe_alone_withTx (P := fun r d _ => w.db.SettlesTo id r d) hw fun v hv =>
      runs_alone_settlementTx h hv
  refine (hrun.mono fun r v _ hv => ?_).bind
  rintro v' hv' -
  obtain rfl : v' = v := hv'
  obtain ⟨⟨⟨resp, rfl⟩, hdb⟩, hfree⟩ := hv
  exact ⟨⟨resp, rfl⟩, hdb, hfree⟩

end Runs

section Audits

variable [Platform]

/-- Undisturbed and without failures process `t` ends, and however it ends, `P` holds. -/
def Concludes (calls : ℕ → Call) (t : ℕ) (s : State) (P : State → Outcome → Prop) : Prop :=
  (∃ s' o, (system calls).Reach (Only Choice.Ok t) s s' ∧ (s'.threads t).result? = some o) ∧
  ∀ s' o, (system calls).Reach (Only Choice.Ok t) s s' → (s'.threads t).result? = some o → P s' o

structure DB.Audit (d : DB) (id : ℕ) (orders : List GiftOrder) (status : ReconciliationStatus)
    (mismatches : ℕ) (row : StreamSettlement) (check : Reconciliation) : Prop where
  settlement : d.streamSettlements id = some row
  reconciliation : d.reconciliations id = some check
  grossCoinSpend : row.grossCoinSpend = sumOf (·.chargedCoins) orders
  acceptedGiftCount : row.acceptedGiftCount = orders.length
  diamondRewardTotal : row.diamondRewardTotal = sumOf (·.diamondReward) orders
  status : check.status = status
  mismatchCount : check.mismatchCount = mismatches

/-- Settled while nobody else writes, the session gets the rows of its accepted orders and a check
of this status; settled again, the rows change in nothing but their times. -/
def Audited (calls : ℕ → Call) (id : ℕ) (status : ReconciliationStatus) (mismatches : ℕ)
    (s : State) : Prop :=
  ∀ t, calls t = .generateSettlement id → s.threads t = .idle → s.world.Undisturbed t →
    Concludes calls t s fun s' o => (∃ resp, o = .settled (.ok resp)) ∧ ∃ row check,
      s'.world.db.Audit id (s.world.db.acceptedOrders id) status mismatches row check ∧
      ∀ t', calls t' = .generateSettlement id → s'.threads t' = .idle →
        Concludes calls t' s' fun s'' _ => ∃ n m,
          s''.world.db.streamSettlements id = some { row with generatedAt := n } ∧
          s''.world.db.reconciliations id = some { check with generatedAt := m }

variable {calls : ℕ → Call} {t id : ℕ} {s : State}

omit [Platform] in
theorem reconcile_verdict (wallet orders : ℤ) (n : ℕ) :
    ((reconcile wallet orders n).status, (reconcile wallet orders n).mismatchCount) =
      if wallet = orders then (.pass, 0) else (.fail, 1) := by
  by_cases h : wallet = orders <;> simp [reconcile, h]

omit [Platform] in
theorem reconcile_later (wallet orders : ℤ) (n m : ℕ) :
    reconcile wallet orders m = { reconcile wallet orders n with generatedAt := m } := by
  by_cases h : wallet = orders <;> simp [reconcile, h]

theorem Concludes.of_settleable {P : State → Outcome → Prop} (hc : calls t = .generateSettlement id)
    (hidle : s.threads t = .idle) (h : s.world.db.Settleable id) (hw : s.world.Unlocked t)
    (hP : ∀ s' resp n m, s'.world.db = s.world.db.settle id n m → (∀ u, s'.world.Unlocked u) →
      P s' (.settled (.ok resp))) : Concludes calls t s P := by
  have hsafe : Safe ((system calls).solo Choice.Ok) t (fun o v =>
      (∃ resp, o = .settled (.ok resp)) ∧ (∃ n m, v.db = s.world.db.settle id n m) ∧
        ∀ u, v.Unlocked u) (calls t).program s.world :=
    hc ▸ safe_alone_generateSettlement h hw
  constructor
  · obtain ⟨s', o, hr, ho, -⟩ := Machine.exists_reach_only_program (M := system calls) hidle
      (show (calls t).ready s.world = true by rw [hc]; rfl) hsafe
    exact ⟨s', o, hr, ho⟩
  · intro s' o hr ho
    obtain ⟨⟨resp, rfl⟩, ⟨n, m, hdb⟩, hfree⟩ := Machine.reach_only_program hidle hsafe hr ho
    exact hP s' resp n m hdb hfree

theorem DB.Settleable.audited (h : s.world.db.Settleable id)
    (hw : ∀ t, s.world.Undisturbed t → s.world.Unlocked t) {status : ReconciliationStatus}
    {mismatches : ℕ} (hverdict : (if s.world.db.giftDebits id = sumOf (·.chargedCoins)
      (s.world.db.acceptedOrders id) then (.pass, 0) else (.fail, 1)) = (status, mismatches)) :
    Audited calls id status mismatches s := by
  intro t hc hidle hclear
  refine Concludes.of_settleable hc hidle h (hw t hclear) fun s' resp n m hdb hfree => ?_
  have hrows := s.world.db.settle_rows id n m
  rw [← hdb] at hrows
  obtain ⟨hstatus, hcount⟩ := Prod.mk.inj ((reconcile_verdict _ _ m).trans hverdict)
  refine ⟨⟨resp, rfl⟩, _, _, ⟨hrows.1, hrows.2, rfl, rfl, rfl, hstatus, hcount⟩,
    fun t' hc' hidle' => ?_⟩
  -- the second settlement reads the same totals
  have h' : s'.world.db.Settleable id := hdb ▸ h.settle n m
  refine Concludes.of_settleable hc' hidle' h' (hfree t') fun s'' _ n' m' hdb' _ => ?_
  have hrows' := s'.world.db.settle_rows id n' m'
  rw [← hdb', hdb] at hrows'
  exact ⟨n', m', hrows'.1, hrows'.2.trans (congrArg some (reconcile_later _ _ m m'))⟩

/-- In a reachable state every session whose totals can be read is settled with the sums of its
accepted orders and passes; with an entry of one of its debits altered it fails, with an entry of
another session's debit altered it still passes. -/
theorem reconciliation_exact (calls : ℕ → Call) {w : World} (hs : Start w)
    (ho : w.db.giftOrders = []) (hx : w.db.walletTxs = []) {s : State}
    (h : (system calls).Reach (fun _ _ _ => True) (Pool.fresh w) s) (id : ℕ) :
    (s.world.db.Settleable id → Audited calls id .pass 0 s) ∧
    ∀ o ∈ s.world.db.accepted, ∀ x ∈ s.world.db.walletTxs, x.Pays o → ∀ τ : Tampering, τ.Real →
      (o.liveSessionID = id → (s.tamper x.txID τ).world.db.Settleable id →
        Audited calls id .fail 1 (s.tamper x.txID τ)) ∧
      (o.liveSessionID ≠ id → s.world.db.Settleable id →
        Audited calls id .pass 0 (s.tamper x.txID τ)) := by
  obtain ⟨hl, hdb⟩ := reach_legal hs h
  have hp : PaidOnce s.world.db := hdb ▸ hl.paidOnce ho hx
  have htx : (s.world.db.walletTxs.map (·.txID)).Nodup := hdb ▸ hl.txIDs hx
  have hfree : ∀ t, s.world.Undisturbed t → s.world.Unlocked t := fun t => reach_unlocked hs h
  constructor
  · intro hd
    exact hd.audited hfree (if_pos (hp.giftDebits id))
  intro o hacc x hxm hpay τ hτ
  have hdebits := hp.giftDebits_tamper τ htx hacc hxm hpay id
  constructor
  · intro hid hd
    refine hd.audited hfree (if_neg fun heq => ?_)
    -- the wallet total has moved, the order total has not
    have hpos : 0 < o.chargedCoins :=
      (hp.entries o hacc x (List.mem_filter.mpr ⟨hxm, by simp [hpay.1]⟩) hpay.2.1 hpay.2.2).2.1
    have hmoved : _ = sumOf (·.chargedCoins) (s.world.db.acceptedOrders id) :=
      hdebits.symm.trans heq
    rw [if_pos hid, add_eq_left] at hmoved
    exact Tampering.shift_ne_zero hτ hpos hmoved
  · intro hid hd
    rw [if_neg hid, add_zero] at hdebits
    have hd' : (s.tamper x.txID τ).world.db.Settleable id :=
      ⟨hd.session, hd.gross, hd.diamonds, by
        change fitsInt64 ((s.world.db.tamper x.txID τ).giftDebits id) = true
        rw [hdebits]
        exact hd.gross⟩
    exact hd'.audited hfree (if_pos hdebits)

end Audits

section Witness

open Plain

def giftsAndAudits : ℕ → Call
  | 0 => .sendGift ⟨"g1", 2001, 1001, 9001, none, "ROSE", 3, 0⟩
  | 1 => .sendGift ⟨"g2", 2001, 1001, 9001, none, "ROSE", 3, 0⟩
  | 4 => .generateSettlement 9002
  | _ => .generateSettlement 9001

instance (x : WalletTx) (o : GiftOrder) : Decidable (x.Pays o) :=
  inferInstanceAs (Decidable (_ ∧ _))

theorem exists_two_gifts {p : State → Bool}
    (h : ((system giftsAndAudits).run (fun _ a _ => decide (a.process < 2))
      (Pool.fresh (World.boot migrated)) (launch 0 20 5 ++ launch 1 20 6)).any (fun s =>
        decide (s.world.store.opened 0 = none ∧ s.world.store.opened 1 = none) && p s) = true) :
    ∃ s : State,
      (system giftsAndAudits).Reach (fun _ _ _ => True) (Pool.fresh (World.boot migrated)) s ∧
      (∀ u, s.world.store.opened u = none) ∧ (∀ u, 2 ≤ u → s.threads u = .idle) ∧ p s = true := by
  obtain ⟨s, hr, hp⟩ := Machine.exists_reach _ h
  obtain ⟨hopened, hp⟩ := Bool.and_eq_true_iff.mp hp
  obtain ⟨h0, h1⟩ := of_decide_eq_true hopened
  have hidle : ∀ u, 2 ≤ u → s.threads u = .idle := by
    intro u hu
    refine (hr.untouched fun _ a _ hk => ?_).trans rfl
    have : a.process < 2 := of_decide_eq_true hk
    omega
  refine ⟨s, hr.mono fun _ _ _ _ => trivial, fun u => ?_, hidle, hp⟩
  rcases u with _ | _ | u
  · exact h0
  · exact h1
  · exact reach_unopened (Start.boot rfl rfl rfl rfl) hr (hidle _ (by omega))

/-- With the entry of a gift deleted its session fails, and the other one passes. -/
theorem reconciliation_exact_deleted : ∃ (s : State) (x : WalletTx),
    Audited giftsAndAudits 9001 .pass 0 s ∧
    Audited giftsAndAudits 9001 .fail 1 (s.tamper x.txID .delete) ∧
    Audited giftsAndAudits 9002 .pass 0 (s.tamper x.txID .delete) ∧
    ∃ (s' : State) (row : StreamSettlement) (check : Reconciliation),
      (system giftsAndAudits).Reach (Only Choice.Ok 2) (s.tamper x.txID .delete) s' ∧
      s'.world.db.Audit 9001 (s.world.db.acceptedOrders 9001) .fail 1 row check := by
  obtain ⟨s, hr, hclear, hidle, hp⟩ := exists_two_gifts (p := fun s => decide (
    s.world.db.Settleable 9001 ∧ s.world.db.Settleable 9002 ∧ ∃ o ∈ s.world.db.accepted,
      ∃ x ∈ s.world.db.walletTxs, x.Pays o ∧ o.liveSessionID = 9001 ∧
        (s.tamper x.txID .delete).world.db.Settleable 9001)) (by decide +kernel)
  obtain ⟨h9001, h9002, o, ho, x, hx, hpay, hid, htampered⟩ := of_decide_eq_true hp
  have hstart : Start (World.boot migrated) := Start.boot rfl rfl rfl rfl
  obtain ⟨hpass, hfail⟩ := reconciliation_exact giftsAndAudits hstart rfl rfl hr 9001
  obtain ⟨-, hother⟩ := reconciliation_exact giftsAndAudits hstart rfl rfl hr 9002
  have hfails := (hfail o ho x hx hpay .delete trivial).1 hid htampered
  have hne : o.liveSessionID ≠ 9002 := by
    rw [hid]
    decide
  refine ⟨s, x, hpass h9001, hfails, (hother o ho x hx hpay .delete trivial).2 hne h9002, ?_⟩
  obtain ⟨⟨s', o', hr', ho'⟩, hall⟩ := hfails 2 rfl (hidle 2 le_rfl) fun u _ => hclear u
  obtain ⟨-, row, check, haudit, -⟩ := hall s' o' hr' ho'
  exact ⟨s', row, check, hr', haudit⟩

/-- With the entry of the first gift near the lower end of its column, the sum of the session leaves
`int64`: the settlement ends with an error and records nothing. -/
theorem altered_total_overflows : ∃ (s : State) (o : GiftOrder) (x : WalletTx),
    (system giftsAndAudits).Reach (fun _ _ _ => True) (Pool.fresh (World.boot migrated)) s ∧
    s.world.db.Settleable 9001 ∧ o ∈ s.world.db.accepted ∧ o.liveSessionID = 9001 ∧
    x ∈ s.world.db.walletTxs ∧ x.Pays o ∧ (Tampering.change (4 - 2 ^ 63)).Real ∧
    ⟨x.txID, userCoins 2001, -(2 ^ 63 - 1)⟩ ∈
      (s.tamper x.txID (.change (4 - 2 ^ 63))).world.db.walletEntries ∧
    s.threads 2 = .idle ∧ s.world.Undisturbed 2 ∧
    ∃ s' : State, (system giftsAndAudits).Reach (Only Choice.Ok 2)
        (s.tamper x.txID (.change (4 - 2 ^ 63))) s' ∧
      (s'.threads 2).result? = some (.settled (.error (.sql .scan))) ∧
      s'.world.db.reconciliations 9001 = none := by
  obtain ⟨s, hr, hclear, hidle, hp⟩ := exists_two_gifts (p := fun s =>
    decide (s.world.db.Settleable 9001 ∧ ∃ o ∈ s.world.db.accepted, ∃ x ∈ s.world.db.walletTxs,
      x.Pays o ∧ o.liveSessionID = 9001 ∧ x.txID = 1 ∧ ⟨1, userCoins 2001, -(2 ^ 63 - 1)⟩ ∈
        (s.tamper 1 (.change (4 - 2 ^ 63))).world.db.walletEntries) &&
    ((system giftsAndAudits).run (fun s a s' => decide (Only Choice.Ok 2 s a s'))
      (s.tamper 1 (.change (4 - 2 ^ 63))) (launch 2 7 7)).any fun s' : State =>
        decide ((s'.threads 2).result? = some (.settled (.error (.sql .scan))) ∧
          s'.world.db.reconciliations 9001 = none)) (by decide +kernel)
  obtain ⟨hp, hrun⟩ := Bool.and_eq_true_iff.mp hp
  obtain ⟨hset, o, ho, x, hx, hpay, hid, htx, hentry⟩ := of_decide_eq_true hp
  obtain ⟨s', hr', hp'⟩ := Machine.exists_reach (launch 2 7 7) hrun
  rw [← htx] at hentry hr'
  have hreal : (4 - 2 ^ 63 : ℤ) ≠ 0 := by decide
  exact ⟨s, o, x, hr, hset, ho, hid, hx, hpay, hreal, hentry, hidle 2 le_rfl,
    fun u _ => hclear u, s', hr'.mono fun _ _ _ hk => of_decide_eq_true hk, of_decide_eq_true hp'⟩

end Witness

end LiveRevenue
