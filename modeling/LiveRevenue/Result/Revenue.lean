import LiveRevenue.Proof.Scores
import LiveRevenue.Result.Chain
import LiveRevenue.Result.Finality

/-! # Where the coins are

The ledger has no entries but those of recharges and accepted gifts, each booked once on
the viewer and once on its counter account. Coins reserved for the platform are
therefore the prices of the accepted gifts, coins drawn from the top-up source are the
recharged ones, and a viewer has what was recharged minus what was spent. Settlements
that agree with their sessions add up to the reserved coins.
-/

namespace LiveRevenue

open Transact

def RechargeRow.entries (r : RechargeRow) : List (String × ℤ) :=
  [(userCoins r.viewerID, (r.coins : ℤ)), ("SYSTEM_TOPUP_SOURCE", -(r.coins : ℤ))]

def GiftOrder.entries (o : GiftOrder) : List (String × ℤ) :=
  [(userCoins o.viewerID, -(o.chargedCoins : ℤ)), ("PLATFORM_RESERVED_COINS", (o.chargedCoins : ℤ))]

def DB.accountTotal (d : DB) (code : String) : ℤ :=
  ((d.walletEntries.filter fun e => e.accountCode = code).map (·.amount)).sum

def DB.recharged (d : DB) (u : ℕ) : ℤ :=
  ((d.rechargeRequests.filter fun r => r.viewerID = u).map fun r => (r.coins : ℤ)).sum

def DB.spent (d : DB) (u : ℕ) : ℤ :=
  sumOf (·.chargedCoins) (d.accepted.filter fun o => o.viewerID = u)

def DB.settledGross (d : DB) (ids : List ℕ) : ℤ :=
  (ids.map fun id => ((d.streamSettlements id).map (·.grossCoinSpend)).getD 0).sum

/-- The ledger, entry by entry, its totals by account, and the settlements against it. -/
structure RevenueConserved (opening d : DB) : Prop where
  ledger : (d.walletEntries.map fun e => (e.accountCode, e.amount)).Perm
    (d.rechargeRequests.flatMap (·.entries) ++ d.accepted.flatMap (·.entries))
  reserved : d.accountTotal "PLATFORM_RESERVED_COINS" = sumOf (·.chargedCoins) d.accepted
  source : d.accountTotal "SYSTEM_TOPUP_SOURCE" =
    -(d.rechargeRequests.map fun r => (r.coins : ℤ)).sum
  balances : ∀ u, d.balance u = opening.balance u + d.recharged u - d.spent u
  settled : ∀ ids : List ℕ, ids.Nodup → (∀ o ∈ d.accepted, o.liveSessionID ∈ ids) →
    (∀ id ∈ ids, d.Final id) → d.settledGross ids = d.accountTotal "PLATFORM_RESERVED_COINS"

section Totals

variable {code : String} {rs : List RechargeRow} {os : List GiftOrder}

def totalOn (code : String) (es : List (String × ℤ)) : ℤ :=
  ((es.filter fun e => e.1 = code).map (·.2)).sum

theorem totalOn_append (es es' : List (String × ℤ)) :
    totalOn code (es ++ es') = totalOn code es + totalOn code es' := by
  simp [totalOn]

theorem totalOn_perm {es es' : List (String × ℤ)} (h : es.Perm es') :
    totalOn code es = totalOn code es' :=
  ((h.filter _).map _).sum_eq

theorem DB.accountTotal_eq (d : DB) : d.accountTotal code =
    totalOn code (d.walletEntries.map fun e => (e.accountCode, e.amount)) := by
  simp [DB.accountTotal, totalOn, List.filter_map, Function.comp_def]

theorem totalOn_pairs {α : Type} {l : List α} {f : α → String × ℤ} {g : α → String × ℤ} :
    totalOn code (l.flatMap fun a => [f a, g a]) =
      totalOn code (l.map f) + totalOn code (l.map g) := by
  induction l with
  | nil => rfl
  | cons a l ih =>
    rw [List.flatMap_cons, totalOn_append, ih]
    simp only [List.map_cons, totalOn, List.filter_cons]
    split <;> split <;> simp <;> omega

theorem totalOn_map {α : Type} {l : List α} {code' : α → String} {val : α → ℤ} :
    totalOn code (l.map fun a => (code' a, val a)) =
      ((l.filter fun a => code' a = code).map val).sum := by
  simp [totalOn, List.filter_map, Function.comp_def]

end Totals

def BooksEntries (ws : List Write) : Prop :=
  (ws.filterMap Write.walletEntry?).map (fun e => (e.accountCode, e.amount)) =
    (ws.filterMap Write.rechargeRequest?).flatMap (·.entries) ++
    ((ws.filterMap Write.giftOrder?).filter fun o => o.status = .accepted).flatMap (·.entries)

theorem BooksEntries.nothing {ws : List Write} (he : ws.filterMap Write.walletEntry? = [])
    (hr : ws.filterMap Write.rechargeRequest? = []) (ho : ws.filterMap Write.giftOrder? = []) :
    BooksEntries ws := by
  simp [BooksEntries, he, hr, ho]

section General

variable [Platform] {calls : ℕ → Call} {d : DB} {h : History} {c : Call} {ws : List Write}

theorem Txn.booksEntries (ht : Txn d h c ws) : BooksEntries ws := by
  cases ht with
  | recharged p =>
    unfold BooksEntries
    rw [p.picks.2.1, p.picks.2.2.1, p.picks.2.2.2.1]
    rfl
  | accepted p =>
    have hcast : ((p.order.chargedCoins : ℕ) : ℤ) = p.amounts.charged :=
      Int.toNat_of_nonneg p.charged_pos.le
    have hentries : p.order.entries = [(userCoins p.order.viewerID, -p.amounts.charged),
        ("PLATFORM_RESERVED_COINS", p.amounts.charged)] := by
      rw [GiftOrder.entries, hcast]
    unfold BooksEntries
    rw [p.picks.2.1, p.picks.2.2.1, p.picks.2.2.2.1, List.filter_cons_of_pos rfl,
      List.flatMap_cons, hentries]
    rfl
  | rejected p =>
    unfold BooksEntries
    rw [p.picks.2.1, p.picks.2.2.1, p.picks.2.2.2.1]
    rfl
  | points p _ hp =>
    apply BooksEntries.nothing
    · simp [List.filterMap_cons, hp.picks.2.1]
    · simp [List.filterMap_cons, hp.picks.2.2.1]
    · simp [List.filterMap_cons, hp.picks.2.2.2.1]
  | _ => apply BooksEntries.nothing <;> simp

/-- The ledger of a legal history, from empty tables. -/
theorem Legal.ledgerEntries (hl : Legal calls d h) (hu : d.Unused) :
    ((dbAt d h).walletEntries.map fun e => (e.accountCode, e.amount)).Perm
      ((dbAt d h).rechargeRequests.flatMap (·.entries) ++
        (dbAt d h).accepted.flatMap (·.entries)) := by
  induction hl with
  | nil => simp [DB.accepted, hu.walletEntries, hu.rechargeRequests, hu.giftOrders]
  | snoc _ ht ih =>
    rw [dbAt_snoc, applyAll_walletEntries, applyAll_rechargeRequests, accepted_applyAll,
      List.map_append, ht.booksEntries, List.flatMap_append, List.flatMap_append]
    rw [List.perm_iff_count] at ih ⊢
    intro e
    have := ih e
    simp only [List.count_append] at this ⊢
    omega

end General

section Accounts

variable {d : DB} (hledger : (d.walletEntries.map fun e => (e.accountCode, e.amount)).Perm
  (d.rechargeRequests.flatMap (·.entries) ++ d.accepted.flatMap (·.entries)))
include hledger

theorem accountTotal_of_ledger (code : String) : d.accountTotal code =
    ((d.rechargeRequests.filter fun r => userCoins r.viewerID = code).map
      fun r => (r.coins : ℤ)).sum +
    ((d.rechargeRequests.filter fun _ => "SYSTEM_TOPUP_SOURCE" = code).map
      fun r => -(r.coins : ℤ)).sum +
    (((d.accepted.filter fun o => userCoins o.viewerID = code).map
      fun o => -(o.chargedCoins : ℤ)).sum +
    ((d.accepted.filter fun _ => "PLATFORM_RESERVED_COINS" = code).map
      fun o => (o.chargedCoins : ℤ)).sum) := by
  rw [DB.accountTotal_eq, totalOn_perm hledger, totalOn_append]
  unfold RechargeRow.entries GiftOrder.entries
  rw [totalOn_pairs, totalOn_pairs, totalOn_map, totalOn_map, totalOn_map, totalOn_map]

theorem reserved_of_ledger :
    d.accountTotal "PLATFORM_RESERVED_COINS" = sumOf (·.chargedCoins) d.accepted := by
  have hu : ∀ u, userCoins u ≠ "PLATFORM_RESERVED_COINS" := fun u => userCoins_ne u (by decide)
  rw [accountTotal_of_ledger hledger]
  simp [hu, sumOf]

theorem source_of_ledger : d.accountTotal "SYSTEM_TOPUP_SOURCE" =
    -(d.rechargeRequests.map fun r => (r.coins : ℤ)).sum := by
  have hu : ∀ u, userCoins u ≠ "SYSTEM_TOPUP_SOURCE" := fun u => userCoins_ne u (by decide)
  rw [accountTotal_of_ledger hledger]
  simp [hu, List.sum_neg, Function.comp_def]

theorem coins_of_ledger (u : ℕ) : d.coins u = d.recharged u - d.spent u := by
  have h1 : "SYSTEM_TOPUP_SOURCE" ≠ userCoins u := (userCoins_ne u (by decide)).symm
  have h2 : "PLATFORM_RESERVED_COINS" ≠ userCoins u := (userCoins_ne u (by decide)).symm
  have hinj : ∀ v, userCoins v = userCoins u ↔ v = u := fun v =>
    ⟨userCoins_inj, fun he => by rw [he]⟩
  change d.accountTotal (userCoins u) = _
  rw [accountTotal_of_ledger hledger]
  simp [h1, h2, hinj, DB.recharged, DB.spent, sumOf, sub_eq_add_neg, List.sum_neg,
    Function.comp_def]

theorem settledGross_of_final {ids : List ℕ} (hn : ids.Nodup)
    (hall : ∀ o ∈ d.accepted, o.liveSessionID ∈ ids) (hfinal : ∀ id ∈ ids, d.Final id) :
    d.settledGross ids = d.accountTotal "PLATFORM_RESERVED_COINS" := by
  rw [reserved_of_ledger hledger, sumOf, List.sum_map_fibers (·.liveSessionID) _ hn hall]
  unfold DB.settledGross
  congr 1
  apply List.map_congr_left
  intro id hid
  obtain ⟨row, hrow, he⟩ := Option.map_eq_some_iff.mp (hfinal id hid)
  have horders : d.acceptedOrders id = d.accepted.filter fun o => o.liveSessionID = id := by
    simp [DB.acceptedOrders, DB.accepted, List.filter_filter]
  rw [hrow, Option.map_some, Option.getD_some, (Prod.mk.inj he).1, horders]
  rfl

end Accounts

/-- In every run from unused tables whose balances stay within `int64`, the ledger consists of
the recharges and the accepted gifts, and all totals follow from them. -/
theorem revenue_conserved [Platform] (calls : ℕ → Call) {w : World} (hs : Start w)
    (hu : w.db.Unused) (hn : ∀ u, 0 ≤ w.db.balance u) {s : State}
    (h : (system calls).Reach (fun _ _ s' => ∀ u, w.db.balance u + s'.world.db.coins u < 2 ^ 63)
      (Pool.fresh w) s) : RevenueConserved w.db s.world.db := by
  obtain ⟨hl, hd⟩ := reach_legal hs h
  have hledger := hl.ledgerEntries hu
  rw [← hd] at hledger
  have hbooks : Books w.db s.world.db := by
    rw [hd]
    refine reach_history (.any calls w) (I := fun h => Books w.db (dbAt w.db h)) hs Env.any_allows
      (hu.books hn) (fun hk _ hb ht _ hd _ _ => ?_) h
    rw [dbAt_snoc]
    exact hb.apply ht.booked (hd ▸ hk)
  constructor
  · exact hledger
  · exact reserved_of_ledger hledger
  · exact source_of_ledger hledger
  · intro u
    rw [hbooks.balance, coins_of_ledger hledger]
    omega
  · intro ids hnodup hall hfinal
    exact settledGross_of_final hledger hnodup hall hfinal

section Witness

open Plain

def rechargeGiftSettle : ℕ → Call
  | 0 => .recharge ⟨"r1", 2001, 100, "card"⟩
  | 1 => .sendGift ⟨"g1", 2001, 1001, 9001, some 8001, "ROSE", 3, 0⟩
  | _ => .generateSettlement 9001

theorem revenue_conserved_settled : ∃ s : State, s.world.db.settledGross [9001] = 3 ∧
    s.world.db.balance 2001 = migrated.balance 2001 + 100 - 3 ∧
    RevenueConserved migrated s.world.db := by
  obtain ⟨s, hr, hp⟩ := Machine.exists_reach (M := system rechargeGiftSettle)
    (s := Pool.fresh (World.boot migrated))
    (K := fun _ _ s' =>
      decide ((s'.world.db.walletEntries.map fun e => max e.amount 0).sum < 2 ^ 62))
    (p := fun s => decide (s.world.db.settledGross [9001] = 3 ∧
      s.world.db.balance 2001 = migrated.balance 2001 + 100 - 3))
    (launch 0 15 5 ++ launch 1 21 7 ++ launch 2 12 8) (by decide +kernel)
  obtain ⟨h1, h2⟩ := of_decide_eq_true hp
  exact ⟨s, h1, h2,
    revenue_conserved rechargeGiftSettle (Start.boot rfl rfl rfl rfl) migrated_unused
    (fun u => (migrated_balance u).1) (hr.mono fun _ _ _ hk => coins_fit (of_decide_eq_true hk))⟩

end Witness

end LiveRevenue
