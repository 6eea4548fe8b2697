import LiveRevenue.Result.Outbox

/-! # The chain of balances

A posting reads the balance and draws its transaction id under the lock of the wallet.
The transactions of a user therefore commit in the order of their ids, and each records
the balance of the one before it plus its own entry.
-/

namespace LiveRevenue

open Transact

def DB.txsOf (d : DB) (u : ℕ) : List WalletTx := d.walletTxs.filter fun x => x.actorUserID = u

def DB.delta (d : DB) (x : WalletTx) : ℤ :=
  (((d.entriesOf x.txID).filter fun e => e.accountCode = userCoins x.actorUserID).map
    (·.amount)).sum

/-- The opening balance and the first `k` transactions of a user. -/
def DB.running (opening d : DB) (u k : ℕ) : ℤ :=
  opening.balance u + (((d.txsOf u).take k).map d.delta).sum

def DB.posted (d : DB) (x : WalletTx) (requestID : String) (b : ℤ) : WalletTransactionPostedV1 :=
  ⟨x.txID, x.txType.text, x.actorUserID, requestID, d.delta x, b⟩

structure DB.Unused (d : DB) : Prop where
  walletTxs : d.walletTxs = []
  walletEntries : d.walletEntries = []
  rechargeRequests : d.rechargeRequests = []
  giftOrders : d.giftOrders = []
  outboxEvents : d.outboxEvents = []

/-- Row and event of a transaction record the balance `b`. -/
structure DB.Attests (d : DB) (x : WalletTx) (b : ℤ) : Prop where
  record : d.RecordsBalance x b
  event : ∃ requestID, Varchar.Cut 64 x.requestID requestID ∧
    .walletPosted (d.posted x requestID b) ∈ d.payloads walletTopic

/-- From balance `b` the transactions lead to another, each attested. -/
inductive Chained (d : DB) (b : ℤ) : List WalletTx → ℤ → Prop where
  | nil : Chained d b [] b
  | snoc {xs : List WalletTx} {c : ℤ} {x : WalletTx} : Chained d b xs c →
      d.Attests x (c + d.delta x) → Chained d b (xs ++ [x]) (c + d.delta x)

theorem Chained.sum {d : DB} {b c : ℤ} {xs : List WalletTx} (h : Chained d b xs c) :
    c = b + (xs.map d.delta).sum := by
  induction h with
  | nil => simp
  | snoc _ _ ih =>
    rw [List.map_append, List.sum_append, ih]
    simp [Int.add_assoc]

theorem Chained.attests {d : DB} {b c : ℤ} {xs : List WalletTx} (h : Chained d b xs c) {k : ℕ}
    {x : WalletTx} (hk : xs[k]? = some x) :
    d.Attests x (b + ((xs.take (k + 1)).map d.delta).sum) := by
  induction h with
  | nil => cases hk
  | @snoc xs c y hc ha ih =>
    rcases Nat.lt_trichotomy k xs.length with hlt | rfl | hgt
    · rw [List.getElem?_append_left hlt] at hk
      rw [List.take_append_of_le_length hlt]
      exact ih hk
    · obtain rfl : y = x := by simpa using hk
      rw [List.take_of_length_le (by simp), List.map_append, List.sum_append, ← Int.add_assoc,
        ← hc.sum]
      simpa using ha
    · rw [List.getElem?_eq_none (by simp; omega)] at hk
      cases hk

theorem Chained.keep {d d' : DB} {b c : ℤ} {xs : List WalletTx} (h : Chained d b xs c)
    (hd : ∀ x ∈ xs, d'.delta x = d.delta x)
    (ha : ∀ x ∈ xs, ∀ b, d.Attests x b → d'.Attests x b) : Chained d' b xs c := by
  induction h with
  | nil => exact .nil
  | @snoc xs c x _ hx ih =>
    have hxd := hd x (by simp)
    rw [← hxd]
    refine .snoc (ih (fun y hy => hd y (by simp [hy])) fun y hy => ha y (by simp [hy])) ?_
    rw [hxd]
    exact ha x (by simp) _ hx

theorem DB.mem_txsOf {d : DB} {u : ℕ} {x : WalletTx} :
    x ∈ d.txsOf u ↔ x ∈ d.walletTxs ∧ x.actorUserID = u := by simp [DB.txsOf]

/-- The balances recorded for a user's transactions, in the order of their ids. -/
structure BalanceChain (opening d : DB) : Prop where
  sorted : ∀ u, ((d.txsOf u).map (·.txID)).Pairwise (· < ·)
  recorded : ∀ u k x, (d.txsOf u)[k]? = some x →
    ∀ b, d.RecordsBalance x b ↔ b = opening.running d u (k + 1)
  event : ∀ u k x, (d.txsOf u)[k]? = some x →
    ∃ requestID, Varchar.Cut 64 x.requestID requestID ∧
      ∀ p, .walletPosted p ∈ d.payloads walletTopic ∧ p.txID = x.txID ↔
        p = d.posted x requestID (opening.running d u (k + 1))
  last : ∀ u, d.balance u = opening.running d u (d.txsOf u).length

theorem BalanceChain.position {opening d : DB} (hc : BalanceChain opening d) {x : WalletTx}
    (hx : x ∈ d.walletTxs) : ∃ k, (d.txsOf x.actorUserID)[k]? = some x ∧
      ∀ b, d.RecordsBalance x b → b = opening.running d x.actorUserID (k + 1) := by
  obtain ⟨k, hk⟩ := List.mem_iff_getElem?.mp (DB.mem_txsOf.mpr ⟨hx, rfl⟩)
  exact ⟨k, hk, fun b hb => (hc.recorded _ k x hk b).mp hb⟩

theorem DB.Unused.books {d : DB} (hu : d.Unused) (hn : ∀ u, 0 ≤ d.balance u) : Books d d :=
  ⟨by simp [hu.walletTxs], by simp [hu.walletTxs], by simp [DB.coins, hu.walletEntries], hn⟩

section General

variable [Platform] {d : DB} {ws : List Write}

theorem txsOf_applyAll (u : ℕ) : (applyAll ws d).txsOf u =
    d.txsOf u ++ (ws.filterMap Write.walletTx?).filter fun x => x.actorUserID = u := by
  simp [DB.txsOf]

theorem DB.Attests.keep (hb : Booked d ws) {x : WalletTx} (hx : x ∈ d.walletTxs) {b : ℤ}
    (h : d.Attests x b) : (applyAll ws d).Attests x b := by
  refine ⟨h.record.mono (grows_applyAll ws d), ?_⟩
  have hdelta : (applyAll ws d).delta x = d.delta x := by
    rw [DB.delta, hb.entriesOf_old hx, DB.delta]
  obtain ⟨requestID, hcut, hevent⟩ := h.event
  refine ⟨requestID, hcut, ?_⟩
  rw [DB.posted, hdelta, payloads_applyAll]
  exact List.mem_append_left _ hevent

structure Posts (d : DB) (ws : List Write) (x : WalletTx) (delta b : ℤ) : Prop where
  tx : ws.filterMap Write.walletTx? = [x]
  entries : ∃ counter, isUserCoins counter = false ∧ ws.filterMap Write.walletEntry? =
    [⟨x.txID, userCoins x.actorUserID, delta⟩, ⟨x.txID, counter, -delta⟩]
  newTxID : d.NewTxID x.txID
  latest : d.LatestTx x.actorUserID x.txID
  balance : ∀ u, (applyAll ws d).balance u = if u = x.actorUserID then b else d.balance u
  record : (applyAll ws d).RecordsBalance x b
  event : ∃ requestID, Varchar.Cut 64 x.requestID requestID ∧
    .walletPosted ⟨x.txID, x.txType.text, x.actorUserID, requestID, delta, b⟩ ∈
      (applyAll ws d).payloads walletTopic

theorem Recharged.posts {req : RechargeRequest} (p : Recharged req d) :
    Posts d p.writes p.tx req.coins p.newBalance where
  tx := p.picks.1
  entries := ⟨"SYSTEM_TOPUP_SOURCE", by decide, p.picks.2.1⟩
  newTxID := p.newTxID
  latest := p.latest
  balance _ := balance_posting (by simp)
  record := ⟨p.request, by simp, rfl, rfl, rfl, rfl⟩
  event := by
    refine ⟨req.requestID, rfl, ?_⟩
    rw [payloads_applyAll, p.picks.2.2.2.2.1]
    exact List.mem_append_right _ (List.mem_singleton_self _)

theorem Accepted.posts {req : GiftRequest} (p : Accepted req d) :
    Posts d p.writes p.tx (-p.amounts.charged) p.newBalance where
  tx := p.picks.1
  entries := ⟨"PLATFORM_RESERVED_COINS", by decide, by rw [p.picks.2.1, Int.neg_neg]; rfl⟩
  newTxID := p.newTxID
  latest := p.latest
  balance _ := balance_posting (by simp)
  record := ⟨p.order, by simp [accepted_applyAll, Accepted.order, GiftOrder.stored, acceptedOrder],
    rfl, rfl, rfl⟩
  event := by
    refine ⟨req.requestID, rfl, ?_⟩
    rw [payloads_applyAll, p.picks.2.2.2.2.1]
    exact List.mem_append_right _ (List.mem_singleton_self _)

theorem Txn.posts {h : History} {c : Call} (ht : Txn d h c ws) :
    (ws.filterMap Write.walletTx? = [] ∧ ∀ u, (applyAll ws (dbAt d h)).balance u =
      (dbAt d h).balance u) ∨ ∃ x delta b, Posts (dbAt d h) ws x delta b := by
  cases ht.booked with
  | still hx _ hb => exact .inl ⟨hx, hb⟩
  | posted x _ _ _ _ _ hx =>
    rcases ht.of_walletTx (x := x) (by simp [hx]) with ⟨req, p, -, rfl, -⟩ | ⟨req, p, -, rfl, -⟩
    · exact .inr ⟨_, _, _, p.posts⟩
    · exact .inr ⟨_, _, _, p.posts⟩

theorem Posts.delta {x : WalletTx} {delta b : ℤ} (p : Posts d ws x delta b) :
    (applyAll ws d).delta x = delta := by
  obtain ⟨counter, hc, he⟩ := p.entries
  have hne : counter ≠ userCoins x.actorUserID := (userCoins_ne _ hc).symm
  rw [DB.delta, entriesOf_new p.newTxID, he]
  simp [hne]

theorem Posts.adds {opening : DB} {x : WalletTx} {delta b : ℤ} (p : Posts d ws x delta b)
    (hb : Books opening d) (hb' : Books opening (applyAll ws d)) :
    b = d.balance x.actorUserID + delta := by
  obtain ⟨counter, hc, he⟩ := p.entries
  have h1 := hb.balance x.actorUserID
  have h2 := hb'.balance x.actorUserID
  rw [p.balance, if_pos rfl, coins_posted hc he, if_pos rfl] at h2
  omega

section Histories

variable {calls : ℕ → Call} {h : History}

theorem Legal.txsSorted (hl : Legal calls d h) (hx : d.walletTxs = []) (u : ℕ) :
    (((dbAt d h).txsOf u).map (·.txID)).Pairwise (· < ·) := by
  induction hl with
  | nil => simp [DB.txsOf, hx]
  | @snoc h t ws _ ht ih =>
    rw [dbAt_snoc, txsOf_applyAll]
    rcases ht.posts with ⟨hnone, -⟩ | ⟨x, delta, b, p⟩
    · simpa [hnone] using ih
    rw [p.tx]
    by_cases hu : x.actorUserID = u
    · rw [List.filter_singleton, decide_eq_true hu, cond_true, List.map_append,
        List.pairwise_append]
      refine ⟨ih, List.pairwise_singleton _ _, ?_⟩
      intro i hi j hj
      obtain ⟨y, hy, rfl⟩ := List.mem_map.mp hi
      obtain ⟨hm, hyu⟩ := DB.mem_txsOf.mp hy
      rw [List.map_singleton, List.mem_singleton] at hj
      exact hj ▸ p.latest y hm (hyu.trans hu.symm)
    · simpa [hu] using ih

structure Requested (d : DB) : Prop where
  txs : ∀ r ∈ d.rechargeRequests, ∃ x ∈ d.walletTxs, x.txType = .recharge ∧ x.txID = r.txID ∧
    x.actorUserID = r.viewerID ∧ x.requestID = r.requestID
  keys : (d.rechargeRequests.map (·.lock)).Nodup

theorem Legal.requested (hl : Legal calls d h) (hr : d.rechargeRequests = []) :
    Requested (dbAt d h) := by
  induction hl with
  | nil => exact ⟨by simp [hr], by simp [hr]⟩
  | @snoc h t ws _ ht ih =>
    rw [dbAt_snoc]
    refine ⟨fun r hm => ?_, ?_⟩
    · rw [applyAll_rechargeRequests, List.mem_append] at hm
      rcases hm with hm | hm
      · obtain ⟨x, hx, he⟩ := ih.txs r hm
        exact ⟨x, (DB.Grows.applyAll ws _).walletTxs.subset hx, he⟩
      · obtain ⟨req, p, -, rfl, rfl⟩ := ht.of_rechargeRequest hm
        exact ⟨p.tx, by simp, rfl, rfl, rfl, rfl⟩
    · rw [applyAll_rechargeRequests]
      refine List.nodup_map_append ih.keys ?_ fun r hm r' hm' => ?_
      · by_cases hnone : ws.filterMap Write.rechargeRequest? = []
        · simp [hnone]
        · obtain ⟨r, hr⟩ := List.exists_mem_of_ne_nil _ hnone
          obtain ⟨req, p, -, rfl, -⟩ := ht.of_rechargeRequest hr
          simp
      · obtain ⟨req, p, -, rfl, rfl⟩ := ht.of_rechargeRequest hm'
        exact p.newRequest r hm

/-- One more transaction extends the chain of its actor and no other. -/
theorem chained_apply {opening : DB} {c : Call} (ht : Txn d h c ws)
    (hb : Books opening (dbAt d h)) (hb' : Books opening (applyAll ws (dbAt d h))) {u : ℕ} {b : ℤ}
    (hc : Chained (dbAt d h) b ((dbAt d h).txsOf u) ((dbAt d h).balance u)) :
    Chained (applyAll ws (dbAt d h)) b ((applyAll ws (dbAt d h)).txsOf u)
      ((applyAll ws (dbAt d h)).balance u) := by
  have hkeep : Chained (applyAll ws (dbAt d h)) b ((dbAt d h).txsOf u) ((dbAt d h).balance u) := by
    refine hc.keep (fun x hx => ?_) fun x hx b ha => ha.keep ht.booked (DB.mem_txsOf.mp hx).1
    rw [DB.delta, ht.booked.entriesOf_old (DB.mem_txsOf.mp hx).1, DB.delta]
  rw [txsOf_applyAll]
  rcases ht.posts with ⟨hnone, hbal⟩ | ⟨x, delta, b', p⟩
  · rw [hnone, hbal, List.filter_nil, List.append_nil]
    exact hkeep
  rw [p.tx, p.balance]
  by_cases hu : u = x.actorUserID
  · subst hu
    have hadd := p.adds hb hb'
    rw [List.filter_singleton, decide_eq_true rfl, cond_true, if_pos rfl, hadd, ← p.delta]
    refine hkeep.snoc ⟨?_, ?_⟩
    · rw [p.delta, ← hadd]
      exact p.record
    · obtain ⟨requestID, hcut, hevent⟩ := p.event
      refine ⟨requestID, hcut, ?_⟩
      rw [DB.posted, p.delta, ← hadd]
      exact hevent
  · have hu' : ¬ x.actorUserID = u := fun h => hu h.symm
    rw [if_neg hu, List.filter_singleton, decide_eq_false hu', cond_false, List.append_nil]
    exact hkeep

end Histories

theorem DB.RecordsBalance.unique (hr : Requested d) (hc : OutboxComplete d) {x : WalletTx}
    {b b' : ℤ} (h : d.RecordsBalance x b) (h' : d.RecordsBalance x b') : b = b' := by
  cases hty : x.txType with
  | recharge =>
    simp only [DB.RecordsBalance, hty] at h h'
    obtain ⟨r, hm, -, hv, hrid, rfl⟩ := h
    obtain ⟨r', hm', -, hv', hrid', rfl⟩ := h'
    have hlock : r.lock = r'.lock := by
      rw [RechargeRow.lock, RechargeRow.lock, hv, hv', hrid, hrid']
    rw [List.inj_on_of_nodup_map hr.keys hm hm' hlock]
  | giftDebit =>
    simp only [DB.RecordsBalance, hty] at h h'
    obtain ⟨o, hm, hv, hrid, hb⟩ := h
    obtain ⟨o', hm', hv', hrid', hb'⟩ := h'
    have hkey : (o.viewerID, Platform.collate o.requestID) =
        (o'.viewerID, Platform.collate o'.requestID) := by rw [hv, hv', hrid, hrid']
    rw [List.inj_on_of_nodup_map hc.orderKeys (DB.mem_accepted hm) (DB.mem_accepted hm') hkey,
      hb'] at hb
    exact (Option.some.inj hb).symm

def Payload.txID : Payload → ℕ
  | .walletPosted e => e.txID
  | _ => 0

theorem OutboxComplete.event_unique (hc : OutboxComplete d) {p q : WalletTransactionPostedV1}
    (hp : .walletPosted p ∈ d.payloads walletTopic) (hq : .walletPosted q ∈ d.payloads walletTopic)
    (hid : p.txID = q.txID) : p = q := by
  have hids : d.walletTxs.map (·.txID) = (d.payloads walletTopic).map (·.txID) := by
    refine List.Forall₂.map_eq hc.wallet fun x e ha => ?_
    obtain ⟨_, _, _, -, rfl, -⟩ := ha
    rfl
  exact Payload.walletPosted.inj (List.inj_on_of_nodup_map (hids ▸ hc.txIDs) hp hq hid)

theorem BalanceChain.of_chained {opening : DB} (hr : Requested d) (hc : OutboxComplete d)
    (hs : ∀ u, ((d.txsOf u).map (·.txID)).Pairwise (· < ·))
    (h : ∀ u, Chained d (opening.balance u) (d.txsOf u) (d.balance u)) :
    BalanceChain opening d where
  sorted := hs
  recorded u k x hk b := by
    have ha := (h u).attests hk
    constructor
    · exact fun hb => hb.unique hr hc ha.record
    · rintro rfl
      exact ha.record
  event u k x hk := by
    obtain ⟨requestID, hcut, hevent⟩ := ((h u).attests hk).event
    refine ⟨requestID, hcut, fun p => ⟨?_, ?_⟩⟩
    · rintro ⟨hp, hid⟩
      exact hc.event_unique hp hevent hid
    · rintro rfl
      exact ⟨hevent, rfl⟩
  last u := by
    rw [DB.running, List.take_length]
    exact (h u).sum

/-- The balance in every response is the one right after the transaction it reports. -/
structure AnswersInChain (calls : ℕ → Call) (opening : DB) (s : State) : Prop where
  recharged : ∀ t req r, calls t = .recharge req →
    (s.threads t).result? = some (.recharged (.ok r)) →
    ∃ k x, (s.world.db.txsOf req.viewerID)[k]? = some x ∧ x.txID = r.txID ∧
      r.newBalance = opening.running s.world.db req.viewerID (k + 1)
  gifted : ∀ t req r, calls t = .sendGift req → (s.threads t).result? = some (.gifted (.ok r)) →
    ∃ k x, ∃ o ∈ s.world.db.accepted, o.giftOrderID = r.giftOrderID ∧
      (s.world.db.txsOf req.viewerID)[k]? = some x ∧ x.txType = .giftDebit ∧
      x.receipt = o.receipt ∧ r.newBalance = opening.running s.world.db req.viewerID (k + 1)

theorem BalanceChain.of_request {opening : DB} (hc : BalanceChain opening d) (hr : Requested d)
    {r : RechargeRow} (hm : r ∈ d.rechargeRequests) :
    ∃ k x, (d.txsOf r.viewerID)[k]? = some x ∧ x.txID = r.txID ∧
      r.resultingBalance = opening.running d r.viewerID (k + 1) := by
  obtain ⟨x, hx, hty, hid, hv, hrid⟩ := hr.txs r hm
  obtain ⟨k, hk, hrec⟩ := hc.position hx
  rw [hv] at hk hrec
  refine ⟨k, x, hk, hid, hrec _ ?_⟩
  rw [DB.RecordsBalance, hty]
  exact ⟨r, hm, hid.symm, hv.symm, hrid.symm, rfl⟩

theorem BalanceChain.of_order {opening : DB} (hc : BalanceChain opening d) (hp : PaidOnce d)
    {o : GiftOrder} (hm : o ∈ d.accepted) :
    ∃ k x, (d.txsOf o.viewerID)[k]? = some x ∧ x.txType = .giftDebit ∧ x.receipt = o.receipt ∧
      o.postBalance = some (opening.running d o.viewerID (k + 1)) := by
  have hmem : o.receipt ∈ d.debits.map (·.receipt) := hp.pairs ▸ List.mem_map_of_mem hm
  obtain ⟨x, hx, he⟩ := List.mem_map.mp hmem
  have hty : x.txType = .giftDebit := by simpa using (List.mem_filter.mp hx).2
  obtain ⟨k, hk, -⟩ := hc.position (DB.mem_debits hx)
  have hrec := (hc.recorded _ k x hk _).mpr rfl
  have he' := he
  simp only [WalletTx.receipt, GiftOrder.receipt, Prod.mk.injEq] at he'
  rw [he'.1] at hk hrec
  refine ⟨k, x, hk, hty, he, ?_⟩
  rw [DB.RecordsBalance, hty] at hrec
  obtain ⟨o', hm', hv', hrid', hb⟩ := hrec
  have hkey : (o'.viewerID, Platform.collate o'.requestID) =
      (o.viewerID, Platform.collate o.requestID) := by rw [hv', hrid', he'.1, he'.2.1]
  rwa [List.inj_on_of_nodup_map hp.keys (DB.mem_accepted hm') (DB.mem_accepted hm) hkey] at hb

theorem DB.Unused.outboxComplete (hu : d.Unused) : OutboxComplete d := by
  constructor <;> simp [DB.payloads, DB.accepted, DB.rejected, hu.walletTxs, hu.giftOrders,
    hu.outboxEvents]

theorem balanceChain_of_reach {calls : ℕ → Call} {w : World} (hs : Start w) (hu : w.db.Unused)
    (hn : ∀ u, 0 ≤ w.db.balance u) {s : State} (h : (system calls).Reach
      (fun _ _ s' => ∀ u, w.db.balance u + s'.world.db.coins u < 2 ^ 63) (Pool.fresh w) s) :
    BalanceChain w.db s.world.db := by
  obtain ⟨hl, hd⟩ := reach_legal hs h
  have hchained : Books w.db (dbAt w.db s.world.store.binlog) ∧ ∀ u,
      Chained (dbAt w.db s.world.store.binlog) (w.db.balance u)
        ((dbAt w.db s.world.store.binlog).txsOf u)
        ((dbAt w.db s.world.store.binlog).balance u) := by
    refine reach_history (.any calls w) (I := fun h => Books w.db (dbAt w.db h) ∧ ∀ u,
      Chained (dbAt w.db h) (w.db.balance u) ((dbAt w.db h).txsOf u) ((dbAt w.db h).balance u)) hs
      Env.any_allows ⟨hu.books hn, fun u => ?_⟩ (fun hk _ hb ht _ hd _ _ => ?_) h
    · change Chained w.db (w.db.balance u) (w.db.txsOf u) (w.db.balance u)
      rw [DB.txsOf, hu.walletTxs]
      exact .nil
    · rw [dbAt_snoc]
      have hb' := hb.1.apply ht.booked (hd ▸ hk)
      exact ⟨hb', fun u => chained_apply ht hb.1 hb' (hb.2 u)⟩
  refine .of_chained ?_ ?_ ?_ ?_
  · exact hd ▸ hl.requested hu.rechargeRequests
  · exact hd ▸ hl.outboxComplete hu.outboxComplete
  · exact hd ▸ hl.txsSorted hu.walletTxs
  · exact hd ▸ hchained.2

/-- In every state of every run the recorded balances form the chain, and every response is in
it, as long as the sums fit an `int64`. -/
theorem running_balance_chain (calls : ℕ → Call) {w : World} (hs : Start w) (hu : w.db.Unused)
    (hn : ∀ u, 0 ≤ w.db.balance u) {s : State} (h : (system calls).Reach
      (fun _ _ s' => ∀ u, w.db.balance u + s'.world.db.coins u < 2 ^ 63) (Pool.fresh w) s) :
    BalanceChain w.db s.world.db ∧ AnswersInChain calls w.db s := by
  have hg := reach_good (.any calls w) hs Env.any_allows h
  obtain ⟨hl, hd⟩ := reach_legal hs h
  have hreq : Requested s.world.db := hd ▸ hl.requested hu.rechargeRequests
  have hpaid : PaidOnce s.world.db := hd ▸ hl.paidOnce hu.giftOrders hu.walletTxs
  have hchain := balanceChain_of_reach hs hu hn h
  refine ⟨hchain, ?_, ?_⟩
  · intro t req r hc hr
    have hf := hg.result hr
    simp only [Env.any, hc] at hf
    cases hf with
    | recharged hp =>
      cases hp with
      | @replayed row hm hk =>
        obtain ⟨k, x, hx, hid, hb⟩ := hchain.of_request hreq hm
        simp only [RechargeRow.lock, RechargeRequest.key, Lock.rechargeRequest.injEq] at hk
        rw [hk.1] at hx hb
        exact ⟨k, x, hx, hid, hb⟩
      | created p hm => exact hchain.of_request hreq hm
  · intro t req r hc hr
    have hf := hg.result hr
    simp only [Env.any, hc] at hf
    -- recorded and new orders alike are ACCEPTED ones of the viewer
    have horder : ∀ o ∈ s.world.db.giftOrders, o.status = .accepted → o.viewerID = req.viewerID →
        o.giftOrderID = r.giftOrderID → o.postBalance.getD 0 = r.newBalance →
        ∃ k x, ∃ o ∈ s.world.db.accepted, o.giftOrderID = r.giftOrderID ∧
          (s.world.db.txsOf req.viewerID)[k]? = some x ∧ x.txType = .giftDebit ∧
          x.receipt = o.receipt ∧ r.newBalance = w.db.running s.world.db req.viewerID (k + 1) := by
      intro o hm hs hv hid hb
      have hacc : o ∈ s.world.db.accepted := List.mem_filter.mpr ⟨hm, decide_eq_true hs⟩
      obtain ⟨k, x, hx, hty, he, hpost⟩ := hchain.of_order hpaid hacc
      rw [hv] at hx hpost
      rw [hpost, Option.getD_some] at hb
      exact ⟨k, x, o, hacc, hid, hx, hty, he, hb.symm⟩
    cases hf with
    | gifted hp =>
      generalize hret : (Ret.ok r : Ret GiftResponse) = ret at hp
      cases hp with
      | invalid => cases hret
      | failed => cases hret
      | rejected => cases hret
      | created p hm =>
        obtain rfl := Ret.ok.inj hret
        exact horder _ hm rfl rfl rfl rfl
      | recorded hrec =>
        cases hrec with
        | mismatch => cases hret
        | rejected => cases hret
        | accepted hm hk _ hs =>
          obtain rfl := Ret.ok.inj hret
          simp only [GiftOrder.lock, GiftRequest.key, Lock.giftOrderKey.injEq] at hk
          exact horder _ hm hs hk.1 rfl rfl

end General

section Witness

open Plain

theorem migrated_unused : migrated.Unused := ⟨rfl, rfl, rfl, rfl, rfl⟩

theorem running_balance_chain_migrated : ∃ s : State, (s.world.db.txsOf 2001).length = 2 ∧
    BalanceChain migrated s.world.db ∧ AnswersInChain rechargeAndGift migrated s := by
  obtain ⟨s, hr, hp⟩ := Machine.exists_reach (M := system rechargeAndGift)
    (s := Pool.fresh (World.boot migrated))
    (K := fun _ _ s' =>
      decide ((s'.world.db.walletEntries.map fun e => max e.amount 0).sum < 2 ^ 62))
    (p := fun s => decide ((s.world.db.txsOf 2001).length = 2))
    (startAll [0, 1] ++ resume 0 15 5 ++ resume 1 21 7) (by decide +kernel)
  exact ⟨s, of_decide_eq_true hp, running_balance_chain rechargeAndGift
    (Start.boot rfl rfl rfl rfl) migrated_unused (fun u => (migrated_balance u).1)
    (hr.mono fun _ _ _ hk => coins_fit (of_decide_eq_true hk))⟩

def brimful : DB :=
  { migrated with
    walletAccounts := Function.update migrated.walletAccounts 2001 (some (2 ^ 63 - 1)) }

/-- One coin more wraps the balance around. -/
theorem balance_wraps : brimful.Unused ∧ ∃ s : State,
    (system fun _ => .recharge ⟨"r1", 2001, 1, "card"⟩).Reach (fun _ _ _ => True)
      (Pool.fresh (World.boot brimful)) s ∧ ¬ BalanceChain brimful s.world.db := by
  obtain ⟨s, hr, hp⟩ := Machine.exists_reach
    (M := system fun _ => .recharge ⟨"r1", 2001, 1, "card"⟩)
    (s := Pool.fresh (World.boot brimful)) (K := fun _ _ _ => true)
    (p := fun s => decide (s.world.db.balance 2001 ≠
      brimful.running s.world.db 2001 (s.world.db.txsOf 2001).length))
    (launch 0 15 5) (by decide +kernel)
  exact ⟨⟨rfl, rfl, rfl, rfl, rfl⟩, s, hr.mono fun _ _ _ _ => trivial,
    fun h => of_decide_eq_true hp (h.last 2001)⟩

end Witness

end LiveRevenue
