import LiveRevenue.Result.Debits

/-! # Reconciliations

The order total and the wallet total of a settlement come from two reads. On any one
legal database they agree, since every accepted order has exactly its own debit. They
may differ when a gift of the session commits between the reads, and not otherwise.
-/

namespace LiveRevenue

open Transact

def Call.settles? : Call → Option ℕ
  | .generateSettlement id => some id
  | .settlement m => m.value.unmarshalSessionClosed.map (·.liveSessionID)
  | _ => none

def SellsIn (id : ℕ) (ws : List Write) : Prop :=
  ∃ o ∈ ws.filterMap Write.giftOrder?, o.liveSessionID = id ∧ o.status = .accepted

/-- A step that commits an ACCEPTED order of the session finds no settlement of it open. -/
def Undisturbed (calls : ℕ → Call) (id : ℕ) (s s' : State) : Prop :=
  ∀ e, s'.world.store.binlog = s.world.store.binlog ++ [e] → SellsIn id e.2 →
    ∀ u, (calls u).settles? = some id → s.world.store.opened u = none

def Reconciliation.Passes (r : Reconciliation) : Prop :=
  r.status = .pass ∧ r.mismatchCount = 0 ∧ r.walletGiftDebitTotal = r.giftOrderCoinTotal

instance (r : Reconciliation) : Decidable r.Passes := inferInstanceAs (Decidable (_ ∧ _))

def WalletTx.Pays (x : WalletTx) (o : GiftOrder) : Prop :=
  x.txType = .giftDebit ∧ x.actorUserID = o.viewerID ∧ x.requestID = o.requestID

theorem WalletTx.pays_of_receipt {d : DB} {x : WalletTx} {o : GiftOrder} (hx : x ∈ d.debits)
    (h : x.receipt = o.receipt) : x ∈ d.walletTxs ∧ x.Pays o := by
  simp only [WalletTx.receipt, GiftOrder.receipt, Prod.mk.injEq] at h
  obtain ⟨hm, htype⟩ := List.mem_filter.mp hx
  exact ⟨hm, of_decide_eq_true htype, h.1, h.2.1⟩

def Env.settling (calls : ℕ → Call) (w : World) (id : ℕ) : Env :=
  ⟨calls, w, fun _ _ _ _ => True, fun _ _ _ => True,
    fun t ws => (calls t).settles? = some id ∧ SellsIn id ws⟩

theorem Env.settling_allows {calls : ℕ → Call} {w : World} {id : ℕ} (s : State) (a : Act Choice)
    (s' : State) (h : Undisturbed calls id s s') : (Env.settling calls w id).Allows s a s' := by
  cases a with
  | start t => trivial
  | run t ch =>
    refine ⟨fun _ _ => trivial, fun u _ ho ws hb hbar => ho ?_⟩
    exact h (t, ws) hb hbar.2 u hbar.1
  | crash t => exact fun _ _ => trivial

theorem reconcile_passes (total : ℤ) (n : ℕ) : (reconcile total total n).Passes := by
  simp [reconcile, Reconciliation.Passes]

section General

variable [Platform] {d : DB} {h : History} {id : ℕ}

section Totals

theorem PaidOnce.receipts (hp : PaidOnce d) : (d.accepted.map (·.receipt)).Nodup := by
  have hkeys : (d.accepted.map fun o => (o.viewerID, Platform.collate o.requestID)).Nodup :=
    hp.keys.sublist (List.filter_sublist.map _)
  refine List.Nodup.of_map (fun r => (r.1, Platform.collate r.2.1)) ?_
  rwa [List.map_map]

theorem PaidOnce.joined (hp : PaidOnce d) {o : GiftOrder} (ho : o ∈ d.accepted) :
    ∃ x ∈ d.debits, x.receipt = o.receipt ∧ d.walletTxs.filter (fun x =>
      x.lock = .walletTxKey o.viewerID .giftDebit (Platform.collate o.requestID)) = [x] := by
  have hm : o.receipt ∈ d.debits.map (·.receipt) := hp.pairs ▸ List.mem_map_of_mem ho
  obtain ⟨x, hx, he⟩ := List.mem_map.mp hm
  refine ⟨x, hx, he, ?_⟩
  have hnodup : (d.debits.map (·.receipt)).Nodup := hp.pairs ▸ hp.receipts
  have hlock : ∀ y : WalletTx, y.lock = .walletTxKey o.viewerID .giftDebit
      (Platform.collate o.requestID) → y.txType = .giftDebit := by
    intro y hy
    simp only [WalletTx.lock, Lock.walletTxKey.injEq] at hy
    exact hy.2.1
  have hfilter : d.walletTxs.filter (fun x =>
      x.lock = .walletTxKey o.viewerID .giftDebit (Platform.collate o.requestID)) =
      d.debits.filter (fun x =>
        x.lock = .walletTxKey o.viewerID .giftDebit (Platform.collate o.requestID)) := by
    rw [DB.debits, List.filter_filter]
    refine List.filter_congr fun y _ => ?_
    by_cases hy : y.lock = .walletTxKey o.viewerID .giftDebit (Platform.collate o.requestID)
    · simp [hy, hlock y hy]
    · simp [hy]
  rw [hfilter]
  have hxr : x.actorUserID = o.viewerID ∧ x.requestID = o.requestID := by
    simp only [WalletTx.receipt, GiftOrder.receipt, Prod.mk.injEq] at he
    exact ⟨he.1, he.2.1⟩
  have hxty : x.txType = .giftDebit := by simpa using (List.mem_filter.mp hx).2
  refine List.eq_singleton_of_nodup (hnodup.of_map.filter _) (List.mem_filter.mpr ⟨hx, ?_⟩)
    fun y hy => ?_
  · simp [WalletTx.lock, hxr, hxty]
  · -- the order of another debit with this key would have the key of `o`
    obtain ⟨hy, hk⟩ := List.mem_filter.mp hy
    have hk := of_decide_eq_true hk
    simp only [WalletTx.lock, Lock.walletTxKey.injEq] at hk
    have hm' : y.receipt ∈ d.accepted.map (·.receipt) := hp.pairs ▸ List.mem_map_of_mem hy
    obtain ⟨o', ho', he'⟩ := List.mem_map.mp hm'
    have hkey : (o'.viewerID, Platform.collate o'.requestID) =
        (o.viewerID, Platform.collate o.requestID) := by
      simp only [WalletTx.receipt, GiftOrder.receipt, Prod.mk.injEq] at he'
      rw [he'.1, he'.2.1, hk.1, hk.2.2]
    have hoo : o' = o := List.inj_on_of_nodup_map hp.keys (DB.mem_accepted ho')
      (DB.mem_accepted ho) hkey
    refine List.inj_on_of_nodup_map hnodup hy hx ?_
    rw [← he', hoo, he]

theorem PaidOnce.userEntries (hp : PaidOnce d) {o : GiftOrder} {x : WalletTx}
    (ho : o ∈ d.accepted) (hx : x ∈ d.walletTxs) (hpay : x.Pays o) :
    d.walletEntries.filter (fun e => e.txID = x.txID ∧ isUserCoins e.accountCode) =
      [⟨x.txID, userCoins o.viewerID, -o.chargedCoins⟩] := by
  obtain ⟨htype, hactor, hreq⟩ := hpay
  have hdebit : x ∈ d.debits := List.mem_filter.mpr ⟨hx, by simp [htype]⟩
  obtain ⟨-, -, hent⟩ := hp.entries o ho x hdebit hactor hreq
  have huser : d.walletEntries.filter (fun e => e.txID = x.txID ∧ isUserCoins e.accountCode) =
      (d.entriesOf x.txID).filter fun e => isUserCoins e.accountCode := by
    rw [DB.entriesOf, List.filter_filter]
    exact List.filter_congr fun e _ => by simp [Bool.and_comm]
  rw [huser, hent]
  simp [isUserCoins_userCoins, (by decide : isUserCoins "PLATFORM_RESERVED_COINS" = false)]

theorem PaidOnce.joinedAmount (hp : PaidOnce d) {o : GiftOrder} (ho : o ∈ d.accepted) :
    ((d.walletTxs.filter fun x =>
      x.lock = .walletTxKey o.viewerID .giftDebit (Platform.collate o.requestID)).flatMap fun x =>
      (d.walletEntries.filter fun e => e.txID = x.txID ∧ isUserCoins e.accountCode).map
        fun e => -e.amount) = [(o.chargedCoins : ℤ)] := by
  obtain ⟨x, hx, he, hjoin⟩ := hp.joined ho
  obtain ⟨hm, hpay⟩ := WalletTx.pays_of_receipt hx he
  rw [hjoin, List.flatMap_singleton, hp.userEntries ho hm hpay]
  simp

/-- The two totals of a session agree on one database. -/
theorem PaidOnce.giftDebits (hp : PaidOnce d) (id : ℕ) :
    d.giftDebits id = sumOf (·.chargedCoins) (d.acceptedOrders id) := by
  unfold DB.giftDebits sumOf
  congr 1
  rw [List.map_eq_flatMap]
  exact List.flatMap_congr fun o ho => hp.joinedAmount (DB.mem_acceptedOrders.mp ho).1

end Totals

section Runs

variable {calls : ℕ → Call}

theorem Settles.settles? {c : Call} {ws : List Write} (hs : Settles d h id ws c) :
    c.settles? = some id := by
  cases hs with
  | asked => rfl
  | announced p _ _ hu hid => simp [Call.settles?, hu, hid]

theorem acceptedOrders_of_quiet {k : History} (hk : ∀ e ∈ k, ¬ SellsIn id e.2) :
    (dbAt d (h ++ k)).acceptedOrders id = (dbAt d h).acceptedOrders id := by
  induction k generalizing h with
  | nil => rw [List.append_nil]
  | cons e k ih =>
    have hnone : (e.2.filterMap Write.giftOrder?).filter
        (fun o => o.liveSessionID = id ∧ o.status = .accepted) = [] := by
      refine List.filter_eq_nil_iff.mpr fun o ho hs => hk e List.mem_cons_self ⟨o, ho, ?_⟩
      exact of_decide_eq_true hs
    rw [List.append_cons, ih fun e he => hk e (List.mem_cons_of_mem _ he), dbAt_snoc]
    simp only [DB.acceptedOrders, applyAll_giftOrders, List.filter_append, hnone, List.append_nil]

/-- In every run in which no gift of the session commits while a settlement of it is open, all
reconciliations of the session that were committed pass. -/
theorem reconciliation_passes (calls : ℕ → Call) (id : ℕ) {w : World} (hs : Start w)
    (ho : w.db.giftOrders = []) (hx : w.db.walletTxs = []) {s : State}
    (h : (system calls).Reach (fun s _ s' => Undisturbed calls id s s') (Pool.fresh w) s) :
    ∀ e ∈ s.world.store.binlog, ∀ r, .reconciliation id r ∈ e.2 → r.Passes := by
  refine reach_history (.settling calls w id)
    (I := fun h => ∀ e ∈ h, ∀ r, .reconciliation id r ∈ e.2 → r.Passes) hs Env.settling_allows
    (fun e he => by cases he) (fun {s a s' h t ws} _ hl hi ht _ _ hb hback => ?_) h
  intro e he r hr
  rcases List.mem_append.mp he with he | he
  · exact hi e he r hr
  rw [List.mem_singleton.mp he] at hr
  obtain ⟨h₁, h₂, n, rfl, ⟨k₁, rfl⟩, ⟨k₂, hk₂⟩, k, hk, hcalm⟩ := hback.settled id r hr
  -- both reads lie within the open transaction, so they see the same orders
  have hsplit : k = k₁ ++ k₂ := by
    rw [hk, List.append_assoc] at hk₂
    exact (List.append_cancel_left hk₂).symm
  have hset := ht.of_settlementRow (List.mem_filterMap.mpr ⟨_, hr, rfl⟩)
  have hquiet : ∀ e ∈ k₁, ¬ SellsIn id e.2 := fun e he hsell =>
    hcalm e (hsplit ▸ List.mem_append_left _ he) ⟨hset.settles?, hsell⟩
  have hl₂ : Legal calls w.db (h₁ ++ k₁) := by
    refine hl.earlier ⟨k₂, ?_⟩
    rw [hk₂, hb]
  have hsum := (hl₂.paidOnce ho hx).giftDebits id
  rw [acceptedOrders_of_quiet hquiet] at hsum
  change (reconcile ((dbAt w.db (h₁ ++ k₁)).giftDebits id) _ n).Passes
  rw [hsum]
  exact reconcile_passes _ n

end Runs

end General

section Witness

open Plain

def giftAndSettle : ℕ → Call
  | 1 => .generateSettlement 9001
  | _ => .sendGift ⟨"g1", 2001, 1001, 9001, none, "ROSE", 3, 0⟩

def reconciliationsOf (s : State) : List Reconciliation :=
  s.world.store.binlog.flatMap fun e => e.2.filterMap fun
    | .reconciliation 9001 r => some r
    | _ => none

theorem reconciliation_passes_after_gift : ∃ s : State, (reconciliationsOf s).length = 1 ∧
    (s.world.db.acceptedOrders 9001).length = 1 ∧
    ∀ e ∈ s.world.store.binlog, ∀ r, .reconciliation 9001 r ∈ e.2 → r.Passes := by
  obtain ⟨s, hr, hp⟩ := Machine.exists_reach (M := system giftAndSettle)
    (s := Pool.fresh (World.boot migrated))
    (K := fun s _ s' => decide (s'.world.store.binlog.length = s.world.store.binlog.length ∨
      s.world.store.opened 1 = none ∨ ∀ e ∈ s'.world.store.binlog.drop s.world.store.binlog.length,
        e.2.filterMap Write.giftOrder? = []))
    (p := fun s => decide ((reconciliationsOf s).length = 1 ∧
      (s.world.db.acceptedOrders 9001).length = 1))
    (startAll [0, 1] ++ resume 0 20 4 ++ resume 1 12 6) (by decide +kernel)
  obtain ⟨h1, h2⟩ := of_decide_eq_true hp
  refine ⟨s, h1, h2, reconciliation_passes giftAndSettle 9001 (Start.boot rfl rfl rfl rfl) rfl rfl
    (hr.mono fun s _ s' hk e he hsell u hu => ?_)⟩
  have hu1 : u = 1 := by
    unfold giftAndSettle at hu
    split at hu
    · rfl
    · cases hu
  rcases of_decide_eq_true hk with hk | hk | hk
  · simp [he] at hk
  · exact hu1 ▸ hk
  · obtain ⟨o, ho, -⟩ := hsell
    have := hk e (by simp [he])
    rw [this] at ho
    cases ho

/-- The gift commits after the order total is read and before the wallet total is. -/
theorem reconciliation_false_alarm : ∃ s : State,
    (system giftAndSettle).Reach (fun _ _ _ => True) (Pool.fresh (World.boot migrated)) s ∧
    ∃ r ∈ reconciliationsOf s, r.status = .fail ∧ r.mismatchCount = 1 := by
  obtain ⟨s, hr, hp⟩ := Machine.exists_reach (M := system giftAndSettle)
    (s := Pool.fresh (World.boot migrated)) (K := fun _ _ _ => true)
    (p := fun s => decide (∃ r ∈ reconciliationsOf s, r.status = .fail ∧ r.mismatchCount = 1))
    (startAll [0, 1] ++ resume 0 10 4 ++ resume 1 4 6 ++ resume 0 10 7 ++ resume 1 8 8)
    (by decide +kernel)
  exact ⟨s, hr.mono fun _ _ _ _ => trivial, of_decide_eq_true hp⟩

end Witness

end LiveRevenue
