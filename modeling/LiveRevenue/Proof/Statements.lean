import LiveRevenue.Proof.Rules

/-! # Specifications of the statements

For each statement that writes or is refused: what its success says about the
committed rows, and the transaction it leaves. What a process pinned can be read
off again whenever it needs it, up to its commit.
-/

namespace LiveRevenue

open Transact

theorem scanNullInt64_cases (c : Option ℕ) :
    ((∀ n, c = some n → n < 2 ^ 63) ∧ scanNullInt64 c = .ok c) ∨
      (∃ n, c = some n ∧ ¬ n < 2 ^ 63) ∧ scanNullInt64 c = .error .scan := by
  cases c with
  | none => exact .inl ⟨nofun, rfl⟩
  | some n =>
    by_cases hn : n < 2 ^ 63
    · exact .inl ⟨fun k hk => by cases hk; exact hn, if_pos hn⟩
    · exact .inr ⟨⟨n, rfl, hn⟩, if_neg hn⟩

theorem scanNullInt64_error {c : Option ℕ} {e : SqlErr} (h : scanNullInt64 c = .error e) :
    e = .scan := by
  rcases scanNullInt64_cases c with ⟨-, hok⟩ | ⟨-, herr⟩
  · cases hok.symm.trans h
  · cases herr.symm.trans h
    rfl

def Stmt.inserts : Stmt → Bool
  | .insertWalletTx .. | .insertWalletEntry .. | .insertRechargeRequest .. | .insertGiftOrder ..
  | .insertDedupe .. | .insertFanPoint .. | .insertCampaignPoint .. => true
  | _ => false

def Stmt.reads : Stmt → Bool
  | .selectRecharge .. | .selectBalanceForUpdate .. | .selectGiftOrderForUpdate ..
  | .selectLiveSession .. | .selectGift .. | .selectUser .. | .selectMatch ..
  | .selectSessionStatus .. | .selectSessionExists .. | .sumAcceptedOrders .. | .sumGiftDebits ..
  | .selectSettlement .. | .topContributors .. | .countFanPoints ..
  | .selectAcceptedOrders .. | .selectCampaign .. | .sumCampaignCharges .. => true
  | _ => false

theorem Stmt.reads.not_inserts {s : Stmt} (hs : s.reads = true) : s.inserts = false := by
  cases s <;> cases hs <;> rfl

theorem Stmt.reads.not_relays {s : Stmt} (hs : s.reads = true) : s.relays = false := by
  cases s <;> cases hs <;> rfl

theorem DB.Below.newTxID {d : DB} {ids : Ids} (h : d.Below ids) : d.NewTxID ids.tx :=
  ⟨fun r hr => (h.walletTxs r hr).ne, fun e he => (h.walletEntries e he).ne⟩

theorem DB.Below.newEvent {d : DB} {ids : Ids} (h : d.Below ids) : d.NewEvent ids.event :=
  fun r hr => (h.outboxEvents r hr).2.1.ne

theorem DB.opening_congr {d d' : DB} {u : ℕ} (h : d'.walletAccounts u = d.walletAccounts u) :
    d'.opening u = d.opening u := by
  unfold DB.opening
  rw [h]

theorem DB.balance_congr {d d' : DB} {u : ℕ} (h : d'.walletAccounts u = d.walletAccounts u) :
    d'.balance u = d.balance u := by
  unfold DB.balance
  rw [h]

theorem posting_congr {d d' : DB} {tx : WalletTx} {counter : String} {delta balance : ℤ}
    (h : d'.walletAccounts tx.actorUserID = d.walletAccounts tx.actorUserID) :
    posting d' tx counter delta balance = posting d tx counter delta balance := by
  unfold posting
  rw [DB.opening_congr h]

section Checks

variable {β : Type} {c : Prop} [Decidable c] {e e' : SqlErr} {ids : Ids} {waits takes : List Lock}
  {k : Effect β} {r : β}

theorem Effect.passed (h : (if c then ⟨.error e, ids, [], waits, takes⟩ else k).res = .ok r) :
    ¬ c ∧ k.res = .ok r := by
  by_cases hc : c
  · rw [if_pos hc] at h
    cases h
  · rw [if_neg hc] at h
    exact ⟨hc, h⟩

theorem Effect.refused (h : (if c then ⟨.error e, ids, [], waits, takes⟩ else k).res = .error e') :
    c ∧ e' = e ∨ ¬ c ∧ k.res = .error e' := by
  by_cases hc : c
  · rw [if_pos hc] at h
    cases h
    exact .inl ⟨hc, rfl⟩
  · rw [if_neg hc] at h
    exact .inr ⟨hc, h⟩

end Checks

variable [Platform]

section Run

variable {d : DB} {ids : Ids} {busy : Lock → Bool} {rank : ℕ → ℕ}

theorem run_upsertAccount {u : ℕ} {r : Unit}
    (h : ((Stmt.upsertAccount u).run d ids busy rank).res = .ok r) :
    ((Stmt.upsertAccount u).run d ids busy rank).writes = d.opening u ∧
    ((Stmt.upsertAccount u).run d ids busy rank).takes = [.wallet u] := by
  revert h
  simp only [Stmt.run, DB.opening]
  (repeat' split) <;> simp_all

theorem run_upsertAccount_error {u : ℕ} {e : SqlErr}
    (h : ((Stmt.upsertAccount u).run d ids busy rank).res = .error e) : d.users u = none := by
  revert h
  simp only [Stmt.run]
  (repeat' split) <;> simp_all

theorem run_selectBalance {u : ℕ} {b : ℤ}
    (h : ((Stmt.selectBalanceForUpdate u).run d ids busy rank).res = .ok b) :
    d.walletAccounts u = some b ∧
    ((Stmt.selectBalanceForUpdate u).run d ids busy rank).writes = [] := by
  revert h
  simp only [Stmt.run]
  split <;> simp_all

theorem run_insertWalletTx {ty : TxType} {a n id : ℕ} {rid : String} {hash : Digest}
    (h : ((Stmt.insertWalletTx ty a rid hash n).run d ids busy rank).res = .ok id) :
    id = ids.tx ∧ id < 2 ^ 64 ∧ d.users a ≠ none ∧ Varchar.refuses 64 rid = false ∧
    d.NewTxKey a ty (Varchar.store 64 rid) ∧
    ((Stmt.insertWalletTx ty a rid hash n).run d ids busy rank).writes =
      [.walletTx ⟨id, ty, a, Varchar.store 64 rid, hash, n⟩] := by
  simp only [Stmt.run] at h ⊢
  obtain ⟨hlen, h⟩ := Effect.passed h
  obtain ⟨hid, h⟩ := Effect.passed h
  obtain ⟨hdup, h⟩ := Effect.passed h
  obtain ⟨huser, h⟩ := Effect.passed h
  rw [if_neg hlen, if_neg hid, if_neg hdup, if_neg huser]
  cases h
  refine ⟨rfl, by omega, by simpa using huser, Bool.eq_false_iff.mpr hlen, ?_, rfl⟩
  simpa [DB.NewTxKey, WalletTx.lock] using hdup

theorem run_insertWalletTx_error {ty : TxType} {a n : ℕ} {rid : String} {hash : Digest} {e : SqlErr}
    (h : ((Stmt.insertWalletTx ty a rid hash n).run d ids busy rank).res = .error e) :
    e ≠ .dupKey ∧ (Varchar.refuses 64 rid = true ∨ 2 ^ 64 ≤ ids.tx ∨ d.users a = none) ∨
    e = .dupKey ∧ Varchar.refuses 64 rid = false ∧ ∃ x ∈ d.walletTxs,
      x.lock = .walletTxKey a ty (Platform.collate (Varchar.store 64 rid)) := by
  simp only [Stmt.run] at h
  rcases Effect.refused h with ⟨hlen, rfl⟩ | ⟨hlen, h⟩
  · exact .inl ⟨by decide, .inl hlen⟩
  rcases Effect.refused h with ⟨hid, rfl⟩ | ⟨-, h⟩
  · exact .inl ⟨by decide, .inr (.inl hid)⟩
  rcases Effect.refused h with ⟨hdup, rfl⟩ | ⟨-, h⟩
  · exact .inr ⟨rfl, Bool.eq_false_iff.mpr hlen, by simpa [WalletTx.lock] using hdup⟩
  rcases Effect.refused h with ⟨huser, rfl⟩ | ⟨-, h⟩
  · exact .inl ⟨by decide, .inr (.inr (by simpa using huser))⟩
  · cases h

theorem run_insertWalletEntry {id : ℕ} {code : String} {amount : ℤ} {r : Unit}
    (hx : Varchar.Exact 64 code)
    (h : ((Stmt.insertWalletEntry id code amount).run d ids busy rank).res = .ok r) :
    ((Stmt.insertWalletEntry id code amount).run d ids busy rank).writes =
      [.walletEntry ⟨id, code, amount⟩] := by
  simp only [Stmt.run] at h ⊢
  obtain ⟨hlen, h⟩ := Effect.passed h
  obtain ⟨hdup, h⟩ := Effect.passed h
  obtain ⟨hfk, -⟩ := Effect.passed h
  rw [if_neg hlen, if_neg hdup, if_neg hfk, hx (Bool.eq_false_iff.mpr hlen)]

theorem run_insertWalletEntry_error {id : ℕ} {code : String} {amount : ℤ} {e : SqlErr}
    (hx : Varchar.Exact 64 code) (ht : ∃ x ∈ d.walletTxs, x.txID = id)
    (he : ∀ x ∈ d.walletEntries, x.txID = id → x.accountCode ≠ code)
    (h : ((Stmt.insertWalletEntry id code amount).run d ids busy rank).res = .error e) :
    e = .dataTooLong ∧ 64 < code.length := by
  have hdup : ¬ d.walletEntries.any (fun x => x.txID = id ∧ x.accountCode = code) = true := by
    simpa using he
  have hfk : ¬ d.walletTxs.all (·.txID ≠ id) = true := by simpa using ht
  simp only [Stmt.run] at h
  rcases Effect.refused h with ⟨hl, rfl⟩ | ⟨hl, h⟩
  · exact ⟨rfl, Varchar.length_lt_of_refuses hl⟩
  · simp only [hx (Bool.eq_false_iff.mpr hl), if_neg hdup, if_neg hfk] at h
    cases h

theorem run_updateBalance {u : ℕ} {b : ℤ} (hd : (d.walletAccounts u).isSome) :
    ((Stmt.updateBalance u b).run d ids busy rank).writes = [.setBalance u b] := by
  obtain ⟨x, hx⟩ := Option.isSome_iff_exists.mp hd
  simp only [Stmt.run, hx]

theorem run_insertRechargeRequest {x : RechargeRow} {r : Unit}
    (h : ((Stmt.insertRechargeRequest x).run d ids busy rank).res = .ok r) :
    (∀ y ∈ d.rechargeRequests, y.lock ≠ x.stored.lock) ∧
    ((Stmt.insertRechargeRequest x).run d ids busy rank).writes = [.rechargeRequest x.stored] := by
  simp only [Stmt.run] at h ⊢
  obtain ⟨hlen, h⟩ := Effect.passed h
  obtain ⟨hdup, h⟩ := Effect.passed h
  obtain ⟨hfk, -⟩ := Effect.passed h
  rw [if_neg hlen, if_neg hdup, if_neg hfk]
  exact ⟨by simpa using hdup, rfl⟩

theorem run_insertRechargeRequest_error {x : RechargeRow} {e : SqlErr}
    (h : ((Stmt.insertRechargeRequest x).run d ids busy rank).res = .error e) :
    (Varchar.refuses 64 x.requestID = true ∨ Varchar.refuses 128 x.paymentRef = true) ∨
    (∃ y ∈ d.rechargeRequests, y.lock = x.stored.lock) ∨ (∀ y ∈ d.walletTxs, y.txID ≠ x.txID) ∨
    d.users x.viewerID = none := by
  simp only [Stmt.run] at h
  rcases Effect.refused h with ⟨hlen, -⟩ | ⟨-, h⟩
  · exact .inl hlen
  rcases Effect.refused h with ⟨hdup, -⟩ | ⟨-, h⟩
  · exact .inr (.inl (by simpa using hdup))
  rcases Effect.refused h with ⟨hfk, -⟩ | ⟨-, h⟩
  · exact .inr (.inr (by simpa using hfk))
  · cases h

theorem run_insertOutbox {topic key : String} {payload : Payload} {n : ℕ} {r : Unit}
    (h : ((Stmt.insertOutbox topic key payload n).run d ids busy rank).res = .ok r) :
    ((Stmt.insertOutbox topic key payload n).run d ids busy rank).writes =
      [.outbox ⟨ids.event, topic, key, payload, none, n⟩] := by
  simp only [Stmt.run] at h ⊢
  obtain ⟨hid, -⟩ := Effect.passed h
  rw [if_neg hid]

theorem run_insertOutbox_error {topic key : String} {payload : Payload} {n : ℕ} {e : SqlErr}
    (h : ((Stmt.insertOutbox topic key payload n).run d ids busy rank).res = .error e) :
    2 ^ 64 ≤ ids.event := by
  simp only [Stmt.run] at h
  rcases Effect.refused h with ⟨hid, -⟩ | ⟨-, h⟩
  · exact hid
  · cases h

theorem run_insertGiftOrder {o : GiftOrder} {id : ℕ}
    (h : ((Stmt.insertGiftOrder o).run d ids busy rank).res = .ok id) :
    id = ids.order ∧ id < 2 ^ 64 ∧
    (Varchar.refuses 32 o.giftID = false ∧ Varchar.refuses 64 o.requestID = false) ∧
    (∀ x ∈ d.giftOrders, x.lock ≠ o.stored.lock) ∧
    ((Stmt.insertGiftOrder o).run d ids busy rank).writes =
      [.giftOrder { o.stored with giftOrderID := id }] := by
  simp only [Stmt.run] at h ⊢
  obtain ⟨hlen, h⟩ := Effect.passed h
  obtain ⟨hrange, h⟩ := Effect.passed h
  obtain ⟨hid, h⟩ := Effect.passed h
  obtain ⟨hdup, h⟩ := Effect.passed h
  rw [if_neg hlen, if_neg hrange, if_neg hid, if_neg hdup]
  cases h
  exact ⟨rfl, by omega, by simpa using hlen, by simpa using hdup, rfl⟩

theorem run_insertGiftOrder_dup {o : GiftOrder}
    (h : ((Stmt.insertGiftOrder o).run d ids busy rank).res = .error .dupKey) :
    Varchar.refuses 64 o.requestID = false ∧ ∃ x ∈ d.giftOrders, x.lock = o.stored.lock := by
  simp only [Stmt.run] at h
  rcases Effect.refused h with ⟨-, he⟩ | ⟨hlen, h⟩
  · cases he
  rcases Effect.refused h with ⟨-, he⟩ | ⟨-, h⟩
  · cases he
  rcases Effect.refused h with ⟨-, he⟩ | ⟨-, h⟩
  · cases he
  rcases Effect.refused h with ⟨hdup, -⟩ | ⟨-, h⟩
  · exact ⟨Bool.eq_false_iff.mpr fun hr => hlen (.inr hr), by simpa using hdup⟩
  · cases h

theorem run_selectLiveSession {id : ℕ} {st : LiveStatus} {c : Option ℕ}
    (h : ((Stmt.selectLiveSession id).run d ids busy rank).res = .ok (some (st, c))) :
    ∃ s, d.liveSessions id = some s ∧ s.status = st ∧ s.campaignID = c := by
  revert h
  simp only [Stmt.run]
  split
  · next s hs =>
    intro h
    refine ⟨s, hs, ?_⟩
    rcases scanNullInt64_cases s.campaignID with ⟨-, hscan⟩ | ⟨-, hscan⟩ <;>
      simp_all [Except.map]
  · simp

theorem run_closeSession {id n k : ℕ}
    (h : ((Stmt.closeSession id n).run d ids busy rank).res = .ok k) :
    (k = 0 ∧ (∀ s, d.liveSessions id = some s → s.status = .closed) ∧
      ((Stmt.closeSession id n).run d ids busy rank).writes = []) ∨
    k ≠ 0 ∧ (∃ s, d.liveSessions id = some s ∧ s.status = .opened) ∧
      ((Stmt.closeSession id n).run d ids busy rank).writes = [.closeSession id n] := by
  have hstatus : ∀ st : LiveStatus, st ≠ .opened → st = .closed := by
    intro st h
    cases st with
    | opened => exact absurd rfl h
    | closed => rfl
  revert h
  simp only [Stmt.run]
  (repeat' split) <;> rintro ⟨⟩ <;> simp_all

theorem run_sumAcceptedOrders {id : ℕ} {gross count diamonds : ℤ}
    (h : ((Stmt.sumAcceptedOrders id).run d ids busy rank).res = .ok (gross, count, diamonds)) :
    gross = sumOf (·.chargedCoins) (d.acceptedOrders id) ∧
    count = (d.acceptedOrders id).length ∧
    diamonds = sumOf (·.diamondReward) (d.acceptedOrders id) := by
  revert h
  simp only [Stmt.run]
  split <;> simp_all

theorem run_sumGiftDebits {id : ℕ} {total : ℤ}
    (h : ((Stmt.sumGiftDebits id).run d ids busy rank).res = .ok total) :
    total = d.giftDebits id := by
  revert h
  simp only [Stmt.run]
  split <;> simp_all

theorem run_upsertSettlement {id : ℕ} {x : StreamSettlement} {r : Unit}
    (h : ((Stmt.upsertSettlement id x).run d ids busy rank).res = .ok r) :
    ((Stmt.upsertSettlement id x).run d ids busy rank).writes = [.settlement id x] := by
  simp only [Stmt.run] at h ⊢
  obtain ⟨hfk, -⟩ := Effect.passed h
  rw [if_neg hfk]

theorem run_upsertReconciliation {id : ℕ} {x : Reconciliation} {r : Unit}
    (h : ((Stmt.upsertReconciliation id x).run d ids busy rank).res = .ok r) :
    ((Stmt.upsertReconciliation id x).run d ids busy rank).writes = [.reconciliation id x] := by
  simp only [Stmt.run] at h ⊢
  obtain ⟨hfk, -⟩ := Effect.passed h
  rw [if_neg hfk]

theorem run_updatePublished {id n : ℕ} (h : ∃ r ∈ d.outboxEvents, r.eventID = id) :
    ((Stmt.updatePublished n id).run d ids busy rank).writes = [.published id n] := by
  simp only [Stmt.run]
  rw [if_pos (by simpa using h)]

theorem run_insertDedupe {c : String} {id n : ℕ} {r : Unit}
    (h : ((Stmt.insertDedupe c id n).run d ids busy rank).res = .ok r) :
    (∀ x ∈ d.consumerDedupe, x.lock ≠ .dedupe c id) ∧
    ((Stmt.insertDedupe c id n).run d ids busy rank).writes = [.dedupe ⟨c, id, n⟩] := by
  simp only [Stmt.run] at h ⊢
  obtain ⟨hdup, -⟩ := Effect.passed h
  rw [if_neg hdup]
  exact ⟨by simpa [DedupeRow.lock] using hdup, rfl⟩

theorem run_insertDedupe_dup {c : String} {id n : ℕ} {e : SqlErr}
    (h : ((Stmt.insertDedupe c id n).run d ids busy rank).res = .error e) :
    ∃ x ∈ d.consumerDedupe, x.lock = .dedupe c id := by
  simp only [Stmt.run] at h
  rcases Effect.refused h with ⟨hdup, -⟩ | ⟨-, h⟩
  · simpa [DedupeRow.lock] using hdup
  · cases h

theorem run_insertDedupe_error {c : String} {id n : ℕ} {e : SqlErr}
    (h : ((Stmt.insertDedupe c id n).run d ids busy rank).res = .error e) : e = .dupKey := by
  simp only [Stmt.run] at h
  rcases Effect.refused h with ⟨-, he⟩ | ⟨-, h⟩
  · exact he
  · cases h

theorem run_insertFanPoint {x : FanPoint} {r : Unit}
    (h : ((Stmt.insertFanPoint x).run d ids busy rank).res = .ok r) :
    (∀ y ∈ d.fanPoints, y.eventID ≠ x.eventID) ∧ d.Payable x ∧
    ((Stmt.insertFanPoint x).run d ids busy rank).writes = [.fanPoint x] := by
  simp only [Stmt.run] at h ⊢
  obtain ⟨hrange, h⟩ := Effect.passed h
  obtain ⟨hdup, h⟩ := Effect.passed h
  obtain ⟨hfk, -⟩ := Effect.passed h
  rw [if_neg hrange, if_neg hdup, if_neg hfk]
  exact ⟨by simpa using hdup, ⟨by omega, by simpa using hfk⟩, rfl⟩

theorem run_insertFanPoint_error {x : FanPoint} {e : SqlErr}
    (h : ((Stmt.insertFanPoint x).run d ids busy rank).res = .error e) :
    ¬ d.Payable x ∨ ∃ y ∈ d.fanPoints, y.eventID = x.eventID := by
  simp only [Stmt.run] at h
  rcases Effect.refused h with ⟨hrange, -⟩ | ⟨-, h⟩
  · exact .inl fun hp => absurd hp.1 (by omega)
  rcases Effect.refused h with ⟨hdup, -⟩ | ⟨-, h⟩
  · exact .inr (by simpa using hdup)
  rcases Effect.refused h with ⟨hfk, -⟩ | ⟨-, h⟩
  · refine .inl fun hp => ?_
    simp only [Option.isNone_iff_eq_none] at hfk
    exact hfk.elim hp.2.1 fun hfk => hfk.elim hp.2.2.1 hp.2.2.2
  · cases h

theorem run_insertCampaignPoint {x : CampaignPoint} {r : Unit}
    (h : ((Stmt.insertCampaignPoint x).run d ids busy rank).res = .ok r) :
    (∀ y ∈ d.campaignPoints, y.eventID ≠ x.eventID) ∧
    ((Stmt.insertCampaignPoint x).run d ids busy rank).writes = [.campaignPoint x] := by
  simp only [Stmt.run] at h ⊢
  obtain ⟨hrange, h⟩ := Effect.passed h
  obtain ⟨hdup, h⟩ := Effect.passed h
  obtain ⟨hfk, -⟩ := Effect.passed h
  rw [if_neg hrange, if_neg hdup, if_neg hfk]
  exact ⟨by simpa using hdup, rfl⟩

theorem run_insertCampaignPoint_error {x : CampaignPoint} {e : SqlErr} (hp : x.points < 2 ^ 31)
    (hu : d.users x.creatorID ≠ none)
    (h : ((Stmt.insertCampaignPoint x).run d ids busy rank).res = .error e) :
    ∃ y ∈ d.campaignPoints, y.eventID = x.eventID := by
  simp only [Stmt.run] at h
  rcases Effect.refused h with ⟨hrange, -⟩ | ⟨-, h⟩
  · omega
  rcases Effect.refused h with ⟨hdup, -⟩ | ⟨-, h⟩
  · simpa using hdup
  rcases Effect.refused h with ⟨hfk, -⟩ | ⟨-, h⟩
  · exact absurd (by simpa using hfk) hu
  · cases h

theorem run_ne_dupKey {s : Stmt} (hs : s.inserts = false) :
    (s.run d ids busy rank).res ≠ .error .dupKey := by
  cases s with
  | selectLiveSession id =>
    simp only [Stmt.run]
    split
    · next s hs =>
      cases hc : scanNullInt64 s.campaignID with
      | ok c => simp [Except.map]
      | error e => simp [Except.map, scanNullInt64_error hc]
    · simp
  | selectCampaign id =>
    simp only [Stmt.run]
    split
    · next s hs => exact fun he => by cases scanNullInt64_error he
    · simp
  | _ =>
    simp only [Stmt.inserts, reduceCtorEq] at hs
    try (simp only [Stmt.run]; (repeat' split) <;> simp)

theorem run_reads {s : Stmt} (hs : s.reads = true) :
    (s.run d ids busy rank).writes = [] ∧ (s.run d ids busy rank).ids = ids := by
  cases s <;> cases hs <;> simp only [Stmt.run] <;> (repeat' split) <;> simp

end Run

section Pins

variable {t : ℕ} {ws : List Write} {pins : List (Lock × DB)} {w : World} {d : DB}

theorem Own.newTxID (own : Own t ws pins w) {id : ℕ} (hp : (Lock.walletTx id, d) ∈ pins)
    (hd : d.NewTxID id) : w.db.NewTxID id := by
  obtain ⟨-, ⟨hr, he⟩, -⟩ := own.pinned _ hp
  exact ⟨fun r hm hid => hd.1 r ((hr r hid).mp hm) hid, fun e hm hid =>
    hd.2 e ((he e hid).mp hm) hid⟩

theorem Own.newTxKey (own : Own t ws pins w) {a : ℕ} {ty : TxType} {rid : String}
    (hp : (Lock.walletTxKey a ty (Platform.collate rid), d) ∈ pins) (hd : d.NewTxKey a ty rid) :
    w.db.NewTxKey a ty rid :=
  fun r hm hk => hd r (((own.pinned _ hp).2.1 r hk).mp hm) hk

theorem Own.newOrder (own : Own t ws pins w) {o : GiftOrder} {d' : DB}
    (hk : (o.lock, d) ∈ pins) (hi : (Lock.giftOrder o.giftOrderID, d') ∈ pins)
    (hd : ∀ r ∈ d.giftOrders, r.lock ≠ o.lock)
    (hd' : ∀ r ∈ d'.giftOrders, r.giftOrderID ≠ o.giftOrderID) : w.db.NewOrder o :=
  fun r hm => ⟨fun hid => hd' r (((own.pinned _ hi).2.1 r hid).mp hm) hid,
    fun hl => hd r (((own.pinned _ hk).2.1 r hl).mp hm) hl⟩

theorem Own.newEvent (own : Own t ws pins w) {id : ℕ} (hp : (Lock.outbox id, d) ∈ pins)
    (hd : d.NewEvent id) : w.db.NewEvent id :=
  fun r hm hid => hd r (((own.pinned _ hp).2.1 r hid).mp hm) hid

theorem Own.newRequest (own : Own t ws pins w) {r : RechargeRow} (hp : (r.lock, d) ∈ pins)
    (hd : ∀ x ∈ d.rechargeRequests, x.lock ≠ r.lock) :
    ∀ x ∈ w.db.rechargeRequests, x.lock ≠ r.lock :=
  fun x hm hl => hd x (((own.pinned _ hp).2.1 x hl).mp hm) hl

theorem Own.newDedupe (own : Own t ws pins w) {c : String} {id : ℕ}
    (hp : (Lock.dedupe c id, d) ∈ pins) (hd : ∀ x ∈ d.consumerDedupe, x.lock ≠ .dedupe c id) :
    ∀ x ∈ w.db.consumerDedupe, x.lock ≠ .dedupe c id :=
  fun x hm hl => hd x (((own.pinned _ hp).2.1 x hl).mp hm) hl

theorem Own.newFanPoint (own : Own t ws pins w) {id : ℕ} (hp : (Lock.fanPoint id, d) ∈ pins)
    (hd : ∀ x ∈ d.fanPoints, x.eventID ≠ id) : ∀ x ∈ w.db.fanPoints, x.eventID ≠ id :=
  fun x hm hl => hd x (((own.pinned _ hp).2.1 x hl).mp hm) hl

theorem Own.newCampaignPoint (own : Own t ws pins w) {id : ℕ}
    (hp : (Lock.campaignPoint id, d) ∈ pins) (hd : ∀ x ∈ d.campaignPoints, x.eventID ≠ id) :
    ∀ x ∈ w.db.campaignPoints, x.eventID ≠ id :=
  fun x hm hl => hd x (((own.pinned _ hp).2.1 x hl).mp hm) hl

theorem Own.account (own : Own t ws pins w) {u : ℕ} (hp : (Lock.wallet u, d) ∈ pins) :
    w.db.walletAccounts u = d.walletAccounts u := (own.pinned _ hp).2.1

/-- While the wallet is locked, nobody else posts for its user. -/
theorem Own.latestTx {𝓔 : Env} (own : Own t ws pins w) (hi : Inv 𝓔 w) {u id : ℕ}
    (hp : (Lock.wallet u, d) ∈ pins) (hd : ∀ r ∈ d.walletTxs, r.txID < id) :
    w.db.LatestTx u id := by
  obtain ⟨k, hk, hdb, hl⟩ := own.unlocked _ hp
  intro r hr hu
  rw [hdb, mem_dbAt fun _ _ => applyAll_walletTxs] at hr
  rcases hr with hr | ⟨e, he, hr⟩
  · exact hd r hr
  · obtain ⟨h₁, h₂, -, -, ht⟩ := hi.legal.at (hk.subset he)
    exact absurd (hu ▸ ht.locks_wallet hr) (hl e he)

theorem Own.session (own : Own t ws pins w) {id : ℕ} (hp : (Lock.session id, d) ∈ pins) :
    w.db.liveSessions id = d.liveSessions id := (own.pinned _ hp).2.1

theorem isSome_applyAll_walletAccounts {ws : List Write} {u : ℕ}
    (h : (d.walletAccounts u).isSome) : ((applyAll ws d).walletAccounts u).isSome := by
  induction ws generalizing d with
  | nil => exact h
  | cons w ws ih =>
    refine ih ?_
    cases w with
    | openAccount v =>
      simp only [layout_apply, Write.apply, Function.update_apply]; split <;> simp [h]
    | setBalance v b =>
      simp only [layout_apply, Write.apply, Function.update_apply]; split <;> simp [h]
    | _ => exact h

theorem applyAll_opening {d' : DB} {u : ℕ} (h : d'.walletAccounts u = d.walletAccounts u) :
    (applyAll (d.opening u) d').walletAccounts u = some (d.balance u) := by
  unfold DB.opening DB.balance
  cases ha : d.walletAccounts u with
  | none => simp [Write.apply]
  | some b => simp [h, ha]

end Pins

section Rules

variable {𝓔 : Env} {ε : Type} {t : ℕ} {w : World} {ws : List Write} {pins : List (Lock × DB)}
  {E : ε → World → Prop} {f : SqlErr → ε}

theorem Own.weaken {vs : List Write} {pins' : List (Lock × DB)} (h : Own t ws pins w)
    (hw : ws = vs) (hp : ∀ p ∈ pins', p ∈ pins) : Own t vs pins' w :=
  ⟨hw ▸ h.opened, h.committed, h.pushed, fun p hm => h.pinned p (hp p hm),
    fun p hm => h.unlocked p (hp p hm)⟩

/-- What a statement leaves: its writes, and any of the locks it took. -/
theorem At.after {u v : World} {β : Type} {e : Effect β} {vs : List Write}
    (hu : At 𝓔 t ws pins w u) (hv : At 𝓔 t (ws ++ e.writes) (pins ++ u.pins e) u v)
    (hw : e.writes = vs) (ls : List Lock)
    (hl : ∀ l ∈ ls, l ∈ e.takes ++ e.writes.flatMap Write.locks) :
    At 𝓔 t (ws ++ vs) (pins ++ ls.map fun l => (l, u.db)) w v := by
  refine hu.trans ⟨hv.inv, hv.later, hv.calm, hv.own.weaken (by rw [hw]) fun p hp => ?_⟩
  rw [List.mem_append]
  rcases List.mem_append.mp hp with hp | hp
  · exact .inl hp
  · obtain ⟨l, hm, rfl⟩ := List.mem_map.mp hp
    exact .inr (List.mem_map.mpr ⟨l, hl l hm, rfl⟩)

theorem At.read {u v : World} {β : Type} {e : Effect β} (hu : At 𝓔 t ws pins w u)
    (hv : At 𝓔 t (ws ++ e.writes) (pins ++ u.pins e) u v) (hw : e.writes = []) :
    At 𝓔 t ws pins w v := by
  simpa using hu.after hv hw [] (by simp)

theorem runs_read {s : Stmt} {Q : s.Res → World → Prop} (hs : s.reads = true)
    (own : Own t ws pins w)
    (herr : ∀ e u v, At 𝓔 t ws pins w u → Fails 𝓔 t ws s u e → At 𝓔 t ws pins u v → E (f e) v)
    (hok : ∀ r rank u v, At 𝓔 t ws pins w u → (u.effect t ws s rank).res = .ok r →
      At 𝓔 t ws pins u v → Q r v) :
    Runs 𝓔.logic t (txDo f s) Q E w :=
  runs_txDo own (fun h => by rw [Stmt.reads.not_relays hs] at h; cases h) herr
    fun r _ rank u v hu _ hr hv =>
    hok r rank u v hu hr (At.read (hu.own.at (.refl 𝓔 t u) hu.inv) hv (run_reads hs).1)

theorem runs_insertOutbox {topic key : String} {payload : Payload} {n : ℕ}
    {Q : Unit → World → Prop} (own : Own t ws pins w)
    (herr : ∀ e u v, At 𝓔 t ws pins w u → Fails 𝓔 t ws (.insertOutbox topic key payload n) u e →
      At 𝓔 t ws pins u v → E (f e) v)
    (hok : ∀ id (d : DB) v, d.NewEvent id → (∀ r, Write.outbox r ∈ ws → r.eventID ≠ id) →
      At 𝓔 t (ws ++ [Write.outbox ⟨id, topic, key, payload, none, n⟩])
        (pins ++ [(Lock.outbox id, d)]) w v → Q () v) :
    Runs 𝓔.logic t (txDo f (.insertOutbox topic key payload n)) Q E w := by
  refine runs_txDo own nofun herr fun r _ rank u v hu _ hr hv => ?_
  have hw := run_insertOutbox hr
  refine hok u.ids.event u.db v hu.inv.engine.below.newEvent (fun x hx => ?_)
    (hu.after hv hw [.outbox u.ids.event] ?_)
  · exact (hu.inv.engine.buffered t ws hu.own.opened _ hx).2.1.ne
  · simp only [World.effect] at hw ⊢
    simp [hw, Write.locks]

theorem runs_upsertAccount {x : ℕ} {Q : Unit → World → Prop} (own : Own t [] pins w)
    (herr : ∀ e u v, At 𝓔 t [] pins w u → Fails 𝓔 t [] (.upsertAccount x) u e →
      At 𝓔 t [] pins u v → E (f e) v)
    (hok : ∀ (d : DB) v, At 𝓔 t (d.opening x) (pins ++ [(Lock.wallet x, d)]) w v → Q () v) :
    Runs 𝓔.logic t (txDo f (.upsertAccount x)) Q E w := by
  refine runs_txDo own nofun herr fun r _ rank u v hu _ hr hv => ?_
  obtain ⟨hw, ht⟩ := run_upsertAccount hr
  refine hok u.db v (hu.after hv hw [.wallet x] ?_)
  simp only [World.effect, applyAll_nil] at ht ⊢
  simp [ht]

theorem runs_selectBalance {x : ℕ} {d : DB} {Q : ℤ → World → Prop}
    (own : Own t (d.opening x) pins w) (hp : (Lock.wallet x, d) ∈ pins)
    (herr : ∀ e u v, At 𝓔 t (d.opening x) pins w u →
      Fails 𝓔 t (d.opening x) (.selectBalanceForUpdate x) u e →
      At 𝓔 t (d.opening x) pins u v → E (f e) v)
    (hok : ∀ v, At 𝓔 t (d.opening x) pins w v → Q (d.balance x) v) :
    Runs 𝓔.logic t (txDo f (.selectBalanceForUpdate x)) Q E w := by
  refine runs_txDo own nofun herr fun r _ rank u v hu _ hr hv => ?_
  obtain ⟨hb, hw⟩ := run_selectBalance hr
  rw [applyAll_opening (hu.own.account hp), Option.some.injEq] at hb
  exact hb ▸ hok v (hu.read hv hw)

theorem runs_updateBalance {x : ℕ} {b : ℤ} {d : DB} {vs : List Write} {Q : Unit → World → Prop}
    (own : Own t (d.opening x ++ vs) pins w) (hp : (Lock.wallet x, d) ∈ pins)
    (herr : ∀ e u v, At 𝓔 t (d.opening x ++ vs) pins w u →
      Fails 𝓔 t (d.opening x ++ vs) (.updateBalance x b) u e →
      At 𝓔 t (d.opening x ++ vs) pins u v → E (f e) v)
    (hok : ∀ v, At 𝓔 t (d.opening x ++ vs ++ [Write.setBalance x b]) pins w v → Q () v) :
    Runs 𝓔.logic t (txDo f (.updateBalance x b)) Q E w := by
  refine runs_txDo own nofun herr fun r _ rank u v hu _ hr hv => ?_
  have hs : ((applyAll (d.opening x ++ vs) u.db).walletAccounts x).isSome := by
    rw [applyAll_append]
    refine isSome_applyAll_walletAccounts ?_
    rw [applyAll_opening (hu.own.account hp)]
    rfl
  simpa using hok v (by simpa using hu.after hv (run_updateBalance hs) [] (by simp))

theorem runs_insertWalletTx {ty : TxType} {a n : ℕ} {rid : String} {hash : Digest}
    {Q : Except SqlErr ℕ → World → Prop} (own : Own t ws pins w)
    (herr : ∀ e u v, At 𝓔 t ws pins w u → Fails 𝓔 t ws (.insertWalletTx ty a rid hash n) u e →
      At 𝓔 t ws pins u v → Q (.error e) v)
    (hok : ∀ id (d : DB) v, 1 ≤ id → id < 2 ^ 64 → 𝓔.start.db.users a ≠ none →
      (∃ ch u, 𝓔.permit t (.sql (.insertWalletTx ty a rid hash n)) ch u ∧ u.ids.tx = id) →
      (∀ p ∈ pins, ∀ r ∈ p.2.walletTxs, r.txID < id) → Varchar.refuses 64 rid = false →
      d.NewTxID id → d.NewTxKey a ty (Varchar.store 64 rid) →
      At 𝓔 t (ws ++ [Write.walletTx ⟨id, ty, a, Varchar.store 64 rid, hash, n⟩])
        (pins ++ [(Lock.walletTxKey a ty (Platform.collate (Varchar.store 64 rid)), d),
          (Lock.walletTx id, d)]) w v → Q (.ok id) v) :
    Runs 𝓔.logic t (txTry (.insertWalletTx ty a rid hash n)) Q E w := by
  refine runs_txTry own nofun herr fun id m rank u v hu ha hr hv => ?_
  obtain ⟨rfl, hid, huser, hfits, hk, hw⟩ := run_insertWalletTx hr
  rw [applyAll_users, hu.inv.grows.users] at huser
  have hk' : u.db.NewTxKey a ty (Varchar.store 64 rid) := fun x hx => hk x (by simp [hx])
  have hlt : ∀ p ∈ pins, ∀ r ∈ p.2.walletTxs, r.txID < u.ids.tx := fun p hp r hr =>
    hu.inv.engine.below.walletTxs r ((hu.own.pinned p hp).2.2.walletTxs.subset hr)
  refine hok _ u.db v hu.inv.engine.one_le.1 hid huser ⟨_, u, ha, rfl⟩ hlt hfits
    hu.inv.engine.below.newTxID hk' (hu.after hv hw
      [.walletTxKey a ty (Platform.collate (Varchar.store 64 rid)), .walletTx u.ids.tx] ?_)
  simp only [World.effect] at hw ⊢
  simp [hw, Write.locks, WalletTx.lock]

theorem runs_do_insertWalletTx {ty : TxType} {a n : ℕ} {rid : String} {hash : Digest}
    {Q : ℕ → World → Prop} (own : Own t ws pins w)
    (herr : ∀ e u v, At 𝓔 t ws pins w u → Fails 𝓔 t ws (.insertWalletTx ty a rid hash n) u e →
      At 𝓔 t ws pins u v → E (f e) v)
    (hok : ∀ id (d : DB) v, 1 ≤ id → id < 2 ^ 64 → 𝓔.start.db.users a ≠ none →
      (∃ ch u, 𝓔.permit t (.sql (.insertWalletTx ty a rid hash n)) ch u ∧ u.ids.tx = id) →
      (∀ p ∈ pins, ∀ r ∈ p.2.walletTxs, r.txID < id) → Varchar.refuses 64 rid = false →
      d.NewTxID id → d.NewTxKey a ty (Varchar.store 64 rid) →
      At 𝓔 t (ws ++ [Write.walletTx ⟨id, ty, a, Varchar.store 64 rid, hash, n⟩])
        (pins ++ [(Lock.walletTxKey a ty (Platform.collate (Varchar.store 64 rid)), d),
          (Lock.walletTx id, d)]) w v → Q id v) :
    Runs 𝓔.logic t (txDo f (.insertWalletTx ty a rid hash n)) Q E w :=
  runs_orReturn (runs_insertWalletTx own herr hok)

theorem runs_insertWalletEntry {id : ℕ} {code : String} {amount : ℤ} {Q : Unit → World → Prop}
    (hx : Varchar.Exact 64 code) (own : Own t ws pins w)
    (herr : ∀ e u v, At 𝓔 t ws pins w u → Fails 𝓔 t ws (.insertWalletEntry id code amount) u e →
      At 𝓔 t ws pins u v → E (f e) v)
    (hok : ∀ v, At 𝓔 t (ws ++ [Write.walletEntry ⟨id, code, amount⟩]) pins w v → Q () v) :
    Runs 𝓔.logic t (txDo f (.insertWalletEntry id code amount)) Q E w := by
  refine runs_txDo own nofun herr fun r _ rank u v hu _ hr hv => ?_
  exact hok v (by simpa using hu.after hv (run_insertWalletEntry hx hr) [] (by simp))

omit [Platform] in
theorem exact_userCoins (u : ℕ) : Varchar.Exact 64 (userCoins u) := by
  refine Varchar.exact_of_no_space fun hspace => ?_
  rw [userCoins, String.toList_append, List.mem_append] at hspace
  rcases hspace with hspace | hspace
  · simp at hspace
  · have hdigit := Nat.isDigit_of_mem_toDigits (by decide) (by decide)
      ((Nat.toList_repr ▸ hspace : ' ' ∈ Nat.toDigits 10 u))
    cases hdigit

theorem runs_posting {α β : Type} {E : Ret α → World → Prop} {k : Unit → GoBody (Ret α) β}
    {Q : β → World → Prop} (tx : WalletTx) {d d' : DB} {counter : String} {delta other b : ℤ}
    (own : Own t (d.opening tx.actorUserID ++ [Write.walletTx tx]) pins w)
    (hw : (Lock.wallet tx.actorUserID, d) ∈ pins) (hp : (Lock.walletTx tx.txID, d') ∈ pins)
    (hd : d'.NewTxID tx.txID) (hc : isUserCoins counter = false)
    (hcounter : Varchar.Exact 64 counter) (ho : other = -delta)
    (herr : ∀ e v, (∃ s applied u, 𝓔.permit t (.sql s) (.fault applied) u ∧ e = .infra) ∨
      e = .dataTooLong ∧ (64 < (userCoins tx.actorUserID).length ∨ 64 < counter.length) →
      v.store.committedBy t = [] → E (retErr e) v)
    (hk : ∀ v, At 𝓔 t (posting d tx counter delta b) pins w v → Runs 𝓔.logic t (k ()) Q E v) :
    Runs 𝓔.logic t (insertEntries tx.txID [⟨userCoins tx.actorUserID, delta⟩, ⟨counter, other⟩]
      (txDo retErr (.updateBalance tx.actorUserID b) >>= k)) Q E w := by
  subst ho
  have hopen : (d.opening tx.actorUserID).filterMap Write.walletEntry? = [] := filterMap_opening rfl
  have hcode := exact_userCoins tx.actorUserID
  refine Runs.bind (runs_insertWalletEntry hcode own (fun e u v hu hf hv => ?_) fun v hv => ?_)
  · refine herr e v ?_ hv.own.committed
    cases hf with
    | fault ha => exact .inl ⟨_, _, _, ha, rfl⟩
    | error _ he =>
      obtain ⟨rfl, hl⟩ := run_insertWalletEntry_error hcode ⟨tx, by simp, rfl⟩ (fun z hz hid => by
        simp only [applyAll_walletEntries, List.filterMap_append, hopen] at hz
        exact absurd hid ((hu.own.newTxID hp hd).2 z (by simpa using hz))) he
      exact .inr ⟨rfl, .inl hl⟩
  refine Runs.bind
    (runs_insertWalletEntry hcounter hv.own (fun e u x hu hf hx => ?_) fun x hx => ?_)
  · refine herr e x ?_ hx.own.committed
    cases hf with
    | fault ha => exact .inl ⟨_, _, _, ha, rfl⟩
    | error _ he =>
      obtain ⟨rfl, hl⟩ :=
        run_insertWalletEntry_error hcounter ⟨tx, by simp, rfl⟩ (fun z hz hid => by
        simp only [applyAll_walletEntries, List.filterMap_append, hopen] at hz
        rcases List.mem_append.mp hz with hz | hz
        · exact absurd hid ((hu.own.newTxID hp hd).2 z hz)
        · simp only [List.nil_append, List.filterMap_cons, Write.walletEntry?, List.filterMap_nil,
            List.mem_singleton] at hz
          exact hz ▸ userCoins_ne _ hc) he
      exact .inr ⟨rfl, .inr hl⟩
  have hx' := hx.own
  rw [List.append_assoc, List.append_assoc] at hx'
  refine Runs.bind (runs_updateBalance hx' hw (fun e u y hu hf hy => ?_) fun y hy => ?_)
  · refine herr e y ?_ hy.own.committed
    cases hf with
    | fault ha => exact .inl ⟨_, _, _, ha, rfl⟩
    | error _ he =>
      simp only [World.effect, Stmt.run] at he
      split at he <;> cases he
  have hy' := hy.own
  rw [List.append_assoc] at hy'
  exact hk y ((hv.trans hx).trans ⟨hy.inv, hy.later, hy.calm, hy'⟩)

theorem runs_insertGiftOrder {o : GiftOrder} {Q : Except SqlErr ℕ → World → Prop}
    (own : Own t ws pins w)
    (herr : ∀ e u v, At 𝓔 t ws pins w u → Fails 𝓔 t ws (.insertGiftOrder o) u e →
      At 𝓔 t ws pins u v → Q (.error e) v)
    (hok : ∀ id (d : DB) v, id < 2 ^ 64 → (∀ r ∈ d.giftOrders, r.giftOrderID ≠ id) →
      (Varchar.refuses 32 o.giftID = false ∧ Varchar.refuses 64 o.requestID = false) →
      (∀ r ∈ d.giftOrders, r.lock ≠ o.stored.lock) →
      At 𝓔 t (ws ++ [Write.giftOrder { o.stored with giftOrderID := id }])
        (pins ++ [(o.stored.lock, d), (Lock.giftOrder id, d)]) w v → Q (.ok id) v) :
    Runs 𝓔.logic t (txTry (.insertGiftOrder o)) Q E w := by
  refine runs_txTry own nofun herr fun id _ rank u v hu _ hr hv => ?_
  obtain ⟨rfl, hid, hfits, hk, hw⟩ := run_insertGiftOrder hr
  refine hok _ u.db v hid (fun r hm => (hu.inv.engine.below.giftOrders r hm).ne) hfits
    (fun r hm => hk r (by simp [hm])) (hu.after hv hw [o.stored.lock, .giftOrder u.ids.order] ?_)
  simp only [World.effect] at hw ⊢
  simp [hw, Write.locks, GiftOrder.lock]

theorem runs_insertRechargeRequest {x : RechargeRow} {Q : Unit → World → Prop}
    (own : Own t ws pins w)
    (herr : ∀ e u v, At 𝓔 t ws pins w u → Fails 𝓔 t ws (.insertRechargeRequest x) u e →
      At 𝓔 t ws pins u v → E (f e) v)
    (hok : ∀ (d : DB) v, (∀ r ∈ d.rechargeRequests, r.lock ≠ x.stored.lock) →
      At 𝓔 t (ws ++ [Write.rechargeRequest x.stored]) (pins ++ [(x.stored.lock, d)]) w v →
      Q () v) :
    Runs 𝓔.logic t (txDo f (.insertRechargeRequest x)) Q E w := by
  refine runs_txDo own nofun herr fun r _ rank u v hu _ hr hv => ?_
  obtain ⟨hk, hw⟩ := run_insertRechargeRequest hr
  refine hok u.db v (fun y hy => hk y (by simp [hy])) (hu.after hv hw [x.stored.lock] ?_)
  simp only [World.effect] at hw ⊢
  simp [hw, Write.locks]

theorem runs_insertDedupe {c : String} {id n : ℕ} {Q : Except SqlErr Unit → World → Prop}
    (own : Own t ws pins w)
    (herr : ∀ e u v, At 𝓔 t ws pins w u → Fails 𝓔 t ws (.insertDedupe c id n) u e →
      At 𝓔 t ws pins u v → Q (.error e) v)
    (hok : ∀ (d : DB) v, (∀ r ∈ d.consumerDedupe, r.lock ≠ .dedupe c id) →
      At 𝓔 t (ws ++ [Write.dedupe ⟨c, id, n⟩]) (pins ++ [(Lock.dedupe c id, d)]) w v →
      Q (.ok ()) v) :
    Runs 𝓔.logic t (txTry (.insertDedupe c id n)) Q E w := by
  refine runs_txTry own nofun herr fun r _ rank u v hu _ hr hv => ?_
  obtain ⟨hk, hw⟩ := run_insertDedupe hr
  refine hok u.db v (fun y hy => hk y (by simp [hy])) (hu.after hv hw [.dedupe c id] ?_)
  simp only [World.effect] at hw ⊢
  simp [hw, Write.locks, DedupeRow.lock]

theorem Inv.payable {u : World} (hi : Inv 𝓔 u) {x : FanPoint} :
    (applyAll ws u.db).Payable x ↔ 𝓔.start.db.Payable x :=
  (hi.grows.trans (grows_applyAll ws u.db)).payable

theorem runs_insertFanPoint {x : FanPoint} {Q : Unit → World → Prop} (own : Own t ws pins w)
    (herr : ∀ e u v, At 𝓔 t ws pins w u → Fails 𝓔 t ws (.insertFanPoint x) u e →
      At 𝓔 t ws pins u v → E (f e) v)
    (hok : ∀ (d : DB) v, (∀ r ∈ d.fanPoints, r.eventID ≠ x.eventID) → 𝓔.start.db.Payable x →
      At 𝓔 t (ws ++ [Write.fanPoint x]) (pins ++ [(Lock.fanPoint x.eventID, d)]) w v → Q () v) :
    Runs 𝓔.logic t (txDo f (.insertFanPoint x)) Q E w := by
  refine runs_txDo own nofun herr fun r _ rank u v hu _ hr hv => ?_
  obtain ⟨hk, hpay, hw⟩ := run_insertFanPoint hr
  refine hok u.db v (fun y hy => hk y (by simp [hy])) (hu.inv.payable.mp hpay)
    (hu.after hv hw [.fanPoint x.eventID] ?_)
  simp only [World.effect] at hw ⊢
  simp [hw, Write.locks]

theorem runs_insertCampaignPoint {x : CampaignPoint} {Q : Unit → World → Prop}
    (own : Own t ws pins w)
    (herr : ∀ e u v, At 𝓔 t ws pins w u → Fails 𝓔 t ws (.insertCampaignPoint x) u e →
      At 𝓔 t ws pins u v → E (f e) v)
    (hok : ∀ (d : DB) v, (∀ r ∈ d.campaignPoints, r.eventID ≠ x.eventID) →
      At 𝓔 t (ws ++ [Write.campaignPoint x]) (pins ++ [(Lock.campaignPoint x.eventID, d)]) w v →
      Q () v) :
    Runs 𝓔.logic t (txDo f (.insertCampaignPoint x)) Q E w := by
  refine runs_txDo own nofun herr fun r _ rank u v hu _ hr hv => ?_
  obtain ⟨hk, hw⟩ := run_insertCampaignPoint hr
  refine hok u.db v (fun y hy => hk y (by simp [hy]))
    (hu.after hv hw [.campaignPoint x.eventID] ?_)
  simp only [World.effect] at hw ⊢
  simp [hw, Write.locks]

end Rules

end LiveRevenue
