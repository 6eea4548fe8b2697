import LiveRevenue.Proof.System
import LiveRevenue.Schema.Seed

/-! # The ledger and the cached balances

Every transaction of a legal history leaves the wallets alone or makes one balanced
posting whose user entry is what the cached balance moves by. The books are
therefore in order in every reachable state.
-/

namespace LiveRevenue

open Transact

def DB.entriesOf (d : DB) (txID : ℕ) : List WalletEntry :=
  d.walletEntries.filter fun e => e.txID = txID

def DB.coins (d : DB) (u : ℕ) : ℤ :=
  ((d.walletEntries.filter fun e => e.accountCode = userCoins u).map (·.amount)).sum

/-- The ledger is balanced and the cached balances follow it from the opening ones. -/
structure Books (opening d : DB) : Prop where
  two : ∀ x ∈ d.walletTxs, (d.entriesOf x.txID).length = 2
  zero : ∀ x ∈ d.walletTxs, ((d.entriesOf x.txID).map (·.amount)).sum = 0
  balance : ∀ u, d.balance u = opening.balance u + d.coins u
  nonneg : ∀ u, 0 ≤ d.balance u

@[simp] def Write.account? : Write → Option ℕ
  | .openAccount u => some u
  | .setBalance u _ => some u
  | _ => none

theorem userCoins_inj {u v : ℕ} (h : userCoins u = userCoins v) : u = v := by
  have h := congrArg String.toList h
  simp only [userCoins, String.toList_append, List.append_cancel_left_eq] at h
  exact decimal_inj.mp (String.toList_inj.mp h)

section General

variable [Platform]

section Accounts

variable {d : DB} {ws : List Write} {u : ℕ}

theorem applyAll_walletAccounts (h : ws.filterMap Write.account? = []) :
    (applyAll ws d).walletAccounts = d.walletAccounts := by
  induction ws generalizing d with
  | nil => rfl
  | cons w ws ih =>
    rw [List.filterMap_eq_nil_iff] at h
    rw [applyAll_cons, ih (List.filterMap_eq_nil_iff.mpr fun x hx =>
      h x (List.mem_cons_of_mem w hx))]
    have hw := h w List.mem_cons_self
    cases w <;> first | rfl | cases hw

theorem balance_still (h : ws.filterMap Write.account? = []) :
    (applyAll ws d).balance u = d.balance u :=
  DB.balance_congr (congrFun (applyAll_walletAccounts h) u)

theorem balance_opening {v : ℕ} : (applyAll (d.opening v) d).balance u = d.balance u := by
  unfold DB.opening
  split
  · next h =>
    simp only [DB.balance, applyAll_cons, applyAll_nil, layout_apply, Write.apply,
      Function.update_apply]
    split
    · next hu => simp [hu, Option.isNone_iff_eq_none.mp h]
    · rfl
  · rfl

theorem balance_posting {tx : WalletTx} {counter : String} {delta b : ℤ}
    (h : ws.filterMap Write.account? = []) :
    (applyAll (posting d tx counter delta b ++ ws) d).balance u =
      if u = tx.actorUserID then b else d.balance u := by
  have hopen := balance_opening (d := d) (u := u) (v := tx.actorUserID)
  rw [applyAll_append, balance_still h, posting, applyAll_append]
  simp only [applyAll_cons, applyAll_nil, layout_apply, Write.apply, DB.balance,
    Function.update_apply] at hopen ⊢
  split
  · rfl
  · exact hopen

end Accounts

inductive Booked (d : DB) (ws : List Write) : Prop where
  | still : ws.filterMap Write.walletTx? = [] → ws.filterMap Write.walletEntry? = [] →
      (∀ u, (applyAll ws d).balance u = d.balance u) → Booked d ws
  | posted (tx : WalletTx) (counter : String) (delta b : ℤ) :
      d.NewTxID tx.txID → isUserCoins counter = false →
      ws.filterMap Write.walletTx? = [tx] →
      ws.filterMap Write.walletEntry? =
        [⟨tx.txID, userCoins tx.actorUserID, delta⟩, ⟨tx.txID, counter, -delta⟩] →
      (∀ u, (applyAll ws d).balance u = if u = tx.actorUserID then b else d.balance u) →
      (b = wrap64 (d.balance tx.actorUserID + delta) ∧ 0 ≤ delta ∨
        b = d.balance tx.actorUserID + delta ∧ 0 ≤ b) → Booked d ws

section Histories

variable {calls : ℕ → Call} {d : DB} {h : History} {c : Call} {ws : List Write}

theorem Txn.booked (ht : Txn d h c ws) : Booked (dbAt d h) ws := by
  cases ht with
  | recharged p =>
    refine .posted p.tx "SYSTEM_TOPUP_SOURCE" _ p.newBalance p.newTxID (by decide) p.picks.1
      p.picks.2.1 (fun u => balance_posting (by simp)) (.inl ⟨rfl, by simp⟩)
  | accepted p =>
    refine .posted p.tx "PLATFORM_RESERVED_COINS" (-p.amounts.charged) p.newBalance p.newTxID
      (by decide) p.picks.1 ?_ (fun u => balance_posting (by simp)) (.inr ⟨?_, ?_⟩)
    · rw [p.picks.2.1, Int.neg_neg]
      rfl
    · exact Int.sub_eq_add_neg
    · exact Int.sub_nonneg.mpr p.covered
  | rejected p =>
    refine .still p.picks.1 p.picks.2.1 fun u => ?_
    unfold Rejected.writes
    rw [applyAll_append, balance_still (by simp)]
    split
    · exact balance_opening
    · rfl
  | opened hn =>
    refine .still rfl rfl fun u => ?_
    rw [← show (dbAt d h).opening _ = _ from if_pos (Option.isNone_iff_eq_none.mpr hn)]
    exact balance_opening
  | points p _ hp =>
    refine .still ?_ ?_ fun u => balance_still ?_
    · simp [List.filterMap_cons, hp.picks.1]
    · simp [List.filterMap_cons, hp.picks.2.1]
    · cases hp <;> simp
  | closed p => exact .still p.picks.1 p.picks.2.1 fun u => balance_still rfl
  | settled p => exact .still p.picks.1 p.picks.2.1 fun u => balance_still rfl
  | settledBy p => exact .still p.picks.1 p.picks.2.1 fun u => balance_still rfl
  | published p =>
    exact .still p.picks.1 p.picks.2.1 fun u => balance_still (by simp [Published.writes])
  | commented p =>
    exact .still p.picks.1 p.picks.2.1 fun u => balance_still (by simp [Enqueued.writes])
  | watched p =>
    exact .still p.picks.1 p.picks.2.1 fun u => balance_still (by simp [Enqueued.writes])
  | nothing => exact .still rfl rfl fun u => rfl
  | leaderboard p => exact .still rfl rfl fun u => balance_still rfl

theorem entriesOf_applyAll (id : ℕ) : (applyAll ws d).entriesOf id =
    d.entriesOf id ++ (ws.filterMap Write.walletEntry?).filter fun e => e.txID = id := by
  simp [DB.entriesOf]

theorem coins_applyAll (u : ℕ) : (applyAll ws d).coins u = d.coins u +
    (((ws.filterMap Write.walletEntry?).filter fun e => e.accountCode = userCoins u).map
      (·.amount)).sum := by
  simp [DB.coins]

theorem Booked.entriesOf_old (hw : Booked d ws) {x : WalletTx} (hx : x ∈ d.walletTxs) :
    (applyAll ws d).entriesOf x.txID = d.entriesOf x.txID := by
  rw [entriesOf_applyAll]
  cases hw with
  | still _ he _ => simp [he]
  | posted tx _ _ _ hnew _ _ he =>
    have hne : tx.txID ≠ x.txID := fun h => hnew.1 x hx h.symm
    simp [he, hne]

theorem entriesOf_new {id : ℕ} (hnew : d.NewTxID id) : (applyAll ws d).entriesOf id =
    (ws.filterMap Write.walletEntry?).filter fun e => e.txID = id := by
  have hnone : d.entriesOf id = [] := by
    simpa [DB.entriesOf, List.filter_eq_nil_iff] using hnew.2
  rw [entriesOf_applyAll, hnone, List.nil_append]

theorem coins_posted {tx : WalletTx} {counter : String} {delta : ℤ}
    (hc : isUserCoins counter = false) (he : ws.filterMap Write.walletEntry? =
      [⟨tx.txID, userCoins tx.actorUserID, delta⟩, ⟨tx.txID, counter, -delta⟩]) (u : ℕ) :
    (applyAll ws d).coins u = d.coins u + if u = tx.actorUserID then delta else 0 := by
  have hcounter : counter ≠ userCoins u := (userCoins_ne u hc).symm
  rw [coins_applyAll, he]
  by_cases hu : u = tx.actorUserID
  · subst hu
    simp [hcounter]
  · have hne : userCoins tx.actorUserID ≠ userCoins u := fun h => hu (userCoins_inj h).symm
    simp [hcounter, hne, hu]

/-- Each transaction keeps the books, as long as the sums it makes fit. -/
theorem Books.apply {opening : DB} (hb : Books opening d) (hw : Booked d ws)
    (hfits : ∀ u, opening.balance u + (applyAll ws d).coins u < 2 ^ 63) :
    Books opening (applyAll ws d) := by
  cases hw with
  | still hx he hbal =>
    have hcoins : ∀ u, (applyAll ws d).coins u = d.coins u := fun u => by simp [coins_applyAll, he]
    have hof : ∀ id, (applyAll ws d).entriesOf id = d.entriesOf id := fun id => by
      simp [entriesOf_applyAll, he]
    refine ⟨?_, ?_, fun u => ?_, fun u => ?_⟩
    · simpa [hx, hof] using hb.two
    · simpa [hx, hof] using hb.zero
    · rw [hbal, hcoins, hb.balance]
    · rw [hbal]
      exact hb.nonneg u
  | posted tx counter delta b hnew hc hx he hbal hb' =>
    -- entries of older transactions are as before, the new one has exactly its two
    have hold : ∀ x ∈ d.walletTxs, (applyAll ws d).entriesOf x.txID = d.entriesOf x.txID :=
      fun x hm => Booked.entriesOf_old (.posted tx counter delta b hnew hc hx he hbal hb') hm
    have hown : (applyAll ws d).entriesOf tx.txID =
        [⟨tx.txID, userCoins tx.actorUserID, delta⟩, ⟨tx.txID, counter, -delta⟩] := by
      simp [entriesOf_new hnew, he]
    have hmem : ∀ x ∈ (applyAll ws d).walletTxs, x ∈ d.walletTxs ∨ x = tx := by simp [hx]
    have hcoins := coins_posted (d := d) hc he
    have hval : b = d.balance tx.actorUserID + delta ∧ 0 ≤ b := by
      rcases hb' with ⟨rfl, hd⟩ | h
      · have h1 := hfits tx.actorUserID
        have h2 := hb.balance tx.actorUserID
        have h3 := hb.nonneg tx.actorUserID
        rw [hcoins, if_pos rfl] at h1
        rw [wrap64_of_bounds (by omega) (by omega)]
        exact ⟨rfl, by omega⟩
      · exact h
    refine ⟨fun x hm => ?_, fun x hm => ?_, fun u => ?_, fun u => ?_⟩
    · rcases hmem x hm with hm | rfl
      · rw [hold x hm]
        exact hb.two x hm
      · rw [hown]
        rfl
    · rcases hmem x hm with hm | rfl
      · rw [hold x hm]
        exact hb.zero x hm
      · rw [hown]
        simp
    · rw [hbal, hcoins]
      split
      · next hu =>
        subst hu
        rw [hval.1, hb.balance]
        omega
      · rw [hb.balance]
        omega
    · rw [hbal]
      split
      · exact hval.2
      · exact hb.nonneg u

end Histories

/-- The books are in order in every state of every run, as long as the sums fit an `int64`. -/
theorem ledger_and_balance (calls : ℕ → Call) {w : World} (hs : Start w)
    (hx : w.db.walletTxs = []) (he : w.db.walletEntries = []) (hn : ∀ u, 0 ≤ w.db.balance u)
    {s : State} (h : (system calls).Reach
      (fun _ _ s' => ∀ u, w.db.balance u + s'.world.db.coins u < 2 ^ 63) (Pool.fresh w) s) :
    Books w.db s.world.db := by
  rw [(reach_legal hs h).2]
  refine reach_history (.any calls w) (I := fun h => Books w.db (dbAt w.db h)) hs Env.any_allows
    ⟨by simp [hx], by simp [hx], by simp [DB.coins, he], hn⟩ (fun hk _ hb ht _ hd _ _ => ?_) h
  rw [dbAt_snoc]
  exact hb.apply ht.booked (hd ▸ hk)

end General

section Witness

open Plain

theorem coins_le_volume (es : List WalletEntry) (p : WalletEntry → Bool) :
    ((es.filter p).map (·.amount)).sum ≤ (es.map fun e => max e.amount 0).sum := by
  induction es with
  | nil => simp
  | cons e es ih =>
    rw [List.filter_cons, List.map_cons, List.sum_cons]
    split
    · rw [List.map_cons, List.sum_cons]
      omega
    · omega

theorem coins_fit {d : DB}
    (h : (d.walletEntries.map fun e => max e.amount 0).sum < 2 ^ 62) (u : ℕ) :
    migrated.balance u + d.coins u < 2 ^ 63 := by
  have h1 : migrated.balance u ≤ 50000 := (migrated_balance u).2
  have h2 : d.coins u ≤ _ := coins_le_volume d.walletEntries _
  omega

def rechargeAndGift : ℕ → Call
  | 0 => .recharge ⟨"r1", 2001, 100, "card"⟩
  | _ => .sendGift ⟨"g1", 2001, 1001, 9001, some 8001, "ROSE", 3, 0⟩

theorem ledger_and_balance_migrated : ∃ s : State, s.world.db.walletTxs.length = 2 ∧
    Books migrated s.world.db := by
  obtain ⟨s, hr, hp⟩ := Machine.exists_reach (M := system rechargeAndGift)
    (s := Pool.fresh (World.boot migrated))
    (K := fun _ _ s' =>
      decide ((s'.world.db.walletEntries.map fun e => max e.amount 0).sum < 2 ^ 62))
    (p := fun s => decide (s.world.db.walletTxs.length = 2))
    (startAll [0, 1] ++ resume 0 15 5 ++ resume 1 21 7) (by decide +kernel)
  refine ⟨s, of_decide_eq_true hp, ledger_and_balance rechargeAndGift
    (Start.boot rfl rfl rfl rfl) rfl rfl (fun u => (migrated_balance u).1)
    (hr.mono fun _ _ _ hk => coins_fit (of_decide_eq_true hk))⟩

end Witness

end LiveRevenue
