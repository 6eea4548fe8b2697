import LiveRevenue.Result.Ledger

/-! # Every accepted gift is paid once

Only one kind of transaction writes accepted orders, and only this kind writes gift
debits: one of each, with the same key and hash, under both unique keys. A replay
that commits with debit rows already in its transaction would need an order without
a debit, which no legal history has.
-/

namespace LiveRevenue

open Transact

def DB.debits (d : DB) : List WalletTx := d.walletTxs.filter fun x => x.txType = .giftDebit

def DB.accepted (d : DB) : List GiftOrder := d.giftOrders.filter fun o => o.status = .accepted

def GiftOrder.receipt (o : GiftOrder) : ℕ × String × Digest := (o.viewerID, o.requestID, o.bodyHash)

def WalletTx.receipt (x : WalletTx) : ℕ × String × Digest :=
  (x.actorUserID, x.requestID, x.bodyHash)

def Write.charges : Write → Bool
  | .walletTx _ => true
  | .walletEntry _ => true
  | .setBalance _ _ => true
  | _ => false

theorem DB.mem_debits {d : DB} {x : WalletTx} (h : x ∈ d.debits) : x ∈ d.walletTxs :=
  List.mem_of_mem_filter h

theorem DB.mem_accepted {d : DB} {o : GiftOrder} (h : o ∈ d.accepted) : o ∈ d.giftOrders :=
  List.mem_of_mem_filter h

theorem DB.mem_acceptedOrders {d : DB} {id : ℕ} {o : GiftOrder} :
    o ∈ d.acceptedOrders id ↔ o ∈ d.accepted ∧ o.liveSessionID = id := by
  simp [DB.acceptedOrders, DB.accepted, and_assoc, and_comm]

section General

variable [Platform]

/-- Accepted orders and debits pair up by viewer, request id and hash, in commit order and
with unique keys; the entries of a debit are the price of its order; rejected orders cost
nothing. -/
structure PaidOnce (d : DB) : Prop where
  pairs : d.accepted.map (·.receipt) = d.debits.map (·.receipt)
  keys : (d.giftOrders.map fun o => (o.viewerID, Platform.collate o.requestID)).Nodup
  entries : ∀ o ∈ d.accepted, ∀ x ∈ d.debits, x.actorUserID = o.viewerID →
    x.requestID = o.requestID → x.bodyHash = o.bodyHash ∧ 0 < o.chargedCoins ∧
    d.entriesOf x.txID = [⟨x.txID, userCoins o.viewerID, -o.chargedCoins⟩,
      ⟨x.txID, "PLATFORM_RESERVED_COINS", o.chargedCoins⟩]
  rejected : ∀ o ∈ d.giftOrders, o.status = .rejected →
    o.chargedCoins = 0 ∧ o.matchPointsAdded = 0 ∧ o.diamondReward = 0 ∧
    ∀ x ∈ d.debits, (x.actorUserID, Platform.collate x.requestID) ≠
      (o.viewerID, Platform.collate o.requestID)

/-- A gift that committed any part of a debit committed its own accepted order with it. -/
def OwnOrders (calls : ℕ → Call) (h : History) : Prop :=
  ∀ t ws req, (t, ws) ∈ h → calls t = .sendGift req → (∃ x ∈ ws, x.charges = true) →
    ∃ o, .giftOrder o ∈ ws ∧ o.status = .accepted ∧
      o.receipt = (req.viewerID, Varchar.store 64 req.requestID, Platform.giftHash req)

section Transactions

variable {calls : ℕ → Call} {d : DB} {h : History} {c : Call} {ws : List Write}

/-- A transaction sells a gift, refuses one, or adds neither order nor debit. -/
theorem Txn.sales (ht : Txn d h c ws) :
    (∃ req, ∃ p : Accepted req (dbAt d h), ws = p.writes) ∨
    (∃ req, ∃ p : Rejected req (dbAt d h), ws = p.writes) ∨
    ws.filterMap Write.giftOrder? = [] ∧
      (ws.filterMap Write.walletTx?).filter (fun x => x.txType = .giftDebit) = [] := by
  cases ht with
  | accepted p => exact .inl ⟨_, p, rfl⟩
  | rejected p => exact .inr (.inl ⟨_, p, rfl⟩)
  | recharged p => exact .inr (.inr ⟨p.picks.2.2.2.1, by simp [Recharged.tx]⟩)
  | points p _ hp =>
    exact .inr (.inr (by simp [List.filterMap_cons, hp.picks.1, hp.picks.2.2.2.1]))
  | _ => exact .inr (.inr (by simp))

theorem accepted_applyAll : (applyAll ws d).accepted =
    d.accepted ++ (ws.filterMap Write.giftOrder?).filter fun o => o.status = .accepted := by
  simp [DB.accepted]

theorem debits_applyAll : (applyAll ws d).debits =
    d.debits ++ (ws.filterMap Write.walletTx?).filter fun x => x.txType = .giftDebit := by
  simp [DB.debits]

theorem DB.NewOrder.key {o r : GiftOrder} (hn : d.NewOrder o) (hr : r ∈ d.giftOrders) :
    (r.viewerID, Platform.collate r.requestID) ≠ (o.viewerID, Platform.collate o.requestID) := by
  intro he
  refine (hn r hr).2 ?_
  simp only [Prod.mk.injEq] at he
  simp [GiftOrder.lock, he]

theorem PaidOnce.keys_snoc (hp : PaidOnce d) {o : GiftOrder} (hn : d.NewOrder o)
    (ho : ws.filterMap Write.giftOrder? = [o]) :
    ((applyAll ws d).giftOrders.map fun o => (o.viewerID, Platform.collate o.requestID)).Nodup := by
  rw [applyAll_giftOrders, ho, List.map_append]
  refine List.nodup_append.mpr ⟨hp.keys, List.nodup_singleton _, ?_⟩
  rintro a ha b hb rfl
  obtain ⟨r, hr, hk⟩ := List.mem_map.mp ha
  obtain rfl := List.mem_singleton.mp hb
  exact hn.key hr hk

theorem PaidOnce.order (hp : PaidOnce d) {x : WalletTx} (hx : x ∈ d.debits) :
    ∃ o ∈ d.giftOrders, (o.viewerID, Platform.collate o.requestID) =
      (x.actorUserID, Platform.collate x.requestID) := by
  have hm : x.receipt ∈ d.accepted.map (·.receipt) := hp.pairs ▸ List.mem_map_of_mem hx
  obtain ⟨o, ho, he⟩ := List.mem_map.mp hm
  simp only [GiftOrder.receipt, WalletTx.receipt, Prod.mk.injEq] at he
  exact ⟨o, DB.mem_accepted ho, by rw [he.1, he.2.1]⟩

theorem PaidOnce.still (hp : PaidOnce d) (hb : Booked d ws)
    (ho : ws.filterMap Write.giftOrder? = [])
    (hx : (ws.filterMap Write.walletTx?).filter (fun x => x.txType = .giftDebit) = []) :
    PaidOnce (applyAll ws d) := by
  have hacc : (applyAll ws d).accepted = d.accepted := by simp [accepted_applyAll, ho]
  have hdeb : (applyAll ws d).debits = d.debits := by
    simp only [debits_applyAll, hx, List.append_nil]
  have hord : (applyAll ws d).giftOrders = d.giftOrders := by simp [ho]
  refine ⟨?_, ?_, fun o hm x hm' hv hr => ?_, ?_⟩
  · rw [hacc, hdeb]
    exact hp.pairs
  · rw [hord]
    exact hp.keys
  · rw [hacc] at hm
    rw [hdeb] at hm'
    rw [hb.entriesOf_old (DB.mem_debits hm')]
    exact hp.entries o hm x hm' hv hr
  · rw [hord, hdeb]
    exact hp.rejected

theorem PaidOnce.refuse (hp : PaidOnce d) (hb : Booked d ws) {req : GiftRequest}
    (p : Rejected req d) (hw : ws = p.writes) : PaidOnce (applyAll ws d) := by
  subst hw
  have hacc : (applyAll p.writes d).accepted = d.accepted := by
    simp [accepted_applyAll, Rejected.order, GiftOrder.stored, rejectedOrder]
  have hdeb : (applyAll p.writes d).debits = d.debits := by simp [debits_applyAll]
  refine ⟨?_, hp.keys_snoc p.newOrder p.picks.2.2.2.1, fun o hm x hm' hv hr => ?_,
    fun o hm hs => ?_⟩
  · rw [hacc, hdeb]
    exact hp.pairs
  · rw [hacc] at hm
    rw [hdeb] at hm'
    rw [hb.entriesOf_old (DB.mem_debits hm')]
    exact hp.entries o hm x hm' hv hr
  · rw [hdeb]
    simp only [applyAll_giftOrders, p.picks.2.2.2.1, List.mem_append, List.mem_singleton] at hm
    rcases hm with hm | rfl
    · exact hp.rejected o hm hs
    · refine ⟨rfl, rfl, rfl, fun x hx he => ?_⟩
      obtain ⟨o, ho, hk⟩ := hp.order hx
      exact p.newOrder.key ho (hk.trans he)

theorem PaidOnce.sell (hp : PaidOnce d) (hb : Booked d ws) {req : GiftRequest}
    (p : Accepted req d) (hw : ws = p.writes) : PaidOnce (applyAll ws d) := by
  subst hw
  have hacc : (applyAll p.writes d).accepted = d.accepted ++ [p.order] := by
    simp [accepted_applyAll, Accepted.order, GiftOrder.stored, acceptedOrder]
  have hdeb : (applyAll p.writes d).debits = d.debits ++ [p.tx] := by
    simp [debits_applyAll, Accepted.tx]
  refine ⟨?_, hp.keys_snoc p.newOrder p.picks.2.2.2.1, fun o hm x hm' hv hr => ?_,
    fun o hm hs => ?_⟩
  · rw [hacc, hdeb, List.map_append, List.map_append, hp.pairs]
    rfl
  · rw [hacc, List.mem_append, List.mem_singleton] at hm
    rw [hdeb, List.mem_append, List.mem_singleton] at hm'
    rcases hm with hm | rfl <;> rcases hm' with hm' | rfl
    · rw [hb.entriesOf_old (DB.mem_debits hm')]
      exact hp.entries o hm x hm' hv hr
    · refine absurd ?_ (p.newOrder.key (DB.mem_accepted hm))
      rw [← hv, ← hr]
      rfl
    · refine absurd ?_ (p.newTxKey x (DB.mem_debits hm'))
      have hty : x.txType = .giftDebit := by simpa using (List.mem_filter.mp hm').2
      rw [WalletTx.lock, hty, hv, hr]
      rfl
    · have hpos := p.charged_pos
      have hcast : ((p.order.chargedCoins : ℕ) : ℤ) = p.amounts.charged :=
        Int.toNat_of_nonneg hpos.le
      refine ⟨rfl, by omega, ?_⟩
      rw [show p.tx.txID = p.txID from rfl, entriesOf_new p.newTxID, p.picks.2.1, hcast]
      simp [Accepted.order, GiftOrder.stored, acceptedOrder]
  · rw [hdeb]
    simp only [applyAll_giftOrders, p.picks.2.2.2.1, List.mem_append, List.mem_singleton] at hm
    rcases hm with hm | rfl
    · obtain ⟨h1, h2, h3, h4⟩ := hp.rejected o hm hs
      refine ⟨h1, h2, h3, fun x hx he => ?_⟩
      rcases List.mem_append.mp hx with hx | hx
      · exact h4 x hx he
      · rw [List.mem_singleton.mp hx] at he
        exact p.newOrder.key hm he.symm
    · cases hs

theorem Legal.paidOnce (hl : Legal calls d h) (ho : d.giftOrders = []) (hx : d.walletTxs = []) :
    PaidOnce (dbAt d h) := by
  induction hl with
  | nil => exact ⟨by simp [DB.accepted, DB.debits, ho, hx], by simp [ho],
      by simp [DB.accepted, ho], by simp [ho]⟩
  | snoc _ ht ih =>
    rw [dbAt_snoc]
    rcases ht.sales with ⟨req, p, hw⟩ | ⟨req, p, hw⟩ | ⟨ho', hx'⟩
    · exact ih.sell ht.booked p hw
    · exact ih.refuse ht.booked p hw
    · exact ih.still ht.booked ho' hx'

theorem Legal.ownOrders (hl : Legal calls d h) : OwnOrders calls h := by
  rintro t ws req hm hc ⟨x, hx, hch⟩
  obtain ⟨h₁, -, -, -, ht⟩ := hl.at hm
  simp only [hc] at ht
  cases ht with
  | nothing => cases hx
  | opened => cases List.mem_singleton.mp hx; cases hch
  | rejected p =>
    simp only [Rejected.writes, DB.opening, List.mem_append] at hx
    rcases hx with hx | hx
    · split at hx
      · split at hx
        · cases List.mem_singleton.mp hx; cases hch
        · cases hx
      · cases hx
    · rcases List.mem_pair.mp hx with rfl | rfl <;> cases hch
  | accepted p => exact ⟨p.order, by simp [Accepted.writes], rfl, rfl⟩

end Transactions

/-- From no orders and no transactions, every reachable state has each accepted gift paid
once, and no gift ever committed a debit without its own order. -/
theorem exactly_once_debit (calls : ℕ → Call) {w : World} (hs : Start w)
    (ho : w.db.giftOrders = []) (hx : w.db.walletTxs = []) {s : State}
    (h : (system calls).Reach (fun _ _ _ => True) (Pool.fresh w) s) :
    PaidOnce s.world.db ∧ OwnOrders calls s.world.store.binlog := by
  obtain ⟨hl, hd⟩ := reach_legal hs h
  rw [hd]
  exact ⟨hl.paidOnce ho hx, hl.ownOrders⟩

end General

section Witness

open Plain

def giftTwice : ℕ → Call := fun _ => .sendGift ⟨"g1", 2001, 1001, 9001, some 8001, "ROSE", 3, 0⟩

/-- The second call looks for an order before the first commits, and finds the debit taken. -/
theorem exactly_once_debit_twice : ∃ s : State,
    s.world.db.debits.length = 1 ∧ (s.threads 0).running = false ∧ (s.threads 1).running = false ∧
    PaidOnce s.world.db ∧ OwnOrders giftTwice s.world.store.binlog := by
  obtain ⟨s, hr, hp⟩ := Machine.exists_reach (M := system giftTwice)
    (s := Pool.fresh (World.boot migrated)) (K := fun _ _ _ => true)
    (p := fun s => decide (s.world.db.debits.length = 1 ∧ (s.threads 0).running = false ∧
      (s.threads 1).running = false))
    (startAll [0, 1] ++ resume 1 6 4 ++ resume 0 21 5 ++ resume 1 7 7) (by decide +kernel)
  obtain ⟨h1, h2, h3⟩ := of_decide_eq_true hp
  exact ⟨s, h1, h2, h3, exactly_once_debit giftTwice (Start.boot rfl rfl rfl rfl) rfl rfl
    (hr.mono fun _ _ _ _ => trivial)⟩

end Witness

end LiveRevenue
