import LiveRevenue.Proof.Solo
import LiveRevenue.Transact.Twin

/-! # Requests on tables that agree where they look

A gift or a recharge looks at the tables under its viewer and request id, as it is given and as
it is stored, at its own new rows and at tables nobody updates. On tables that agree there, it
may return the same.
-/

namespace LiveRevenue

open Transact

variable [Platform]

theorem applyAll_liveSessions_congr {d d' : DB} (h : d'.liveSessions = d.liveSessions)
    (ws : List Write) : (applyAll ws d').liveSessions = (applyAll ws d).liveSessions := by
  induction ws generalizing d d' with
  | nil => exact h
  | cons x ws ih =>
    refine ih ?_
    change (x.apply d').liveSessions = (x.apply d).liveSessions
    cases x <;> simp only [Write.apply, h]

theorem applyAll_account_congr {d d' : DB} {u : ℕ} (h : d'.walletAccounts u = d.walletAccounts u)
    (ws : List Write) : (applyAll ws d').walletAccounts u = (applyAll ws d).walletAccounts u := by
  induction ws generalizing d d' with
  | nil => exact h
  | cons x ws ih =>
    refine ih ?_
    change (x.apply d').walletAccounts u = (x.apply d).walletAccounts u
    cases x <;> simp only [Write.apply, Function.update_apply, h]

/-- A request id as it is looked up, or as it is stored. -/
def Names (rid x : String) : Prop := x = rid ∨ x = Varchar.store 64 rid

/-- The tables agree on the rows under the viewer's request id, and on the tables that gifts and
recharges only read. -/
structure SameKey (u : ℕ) (rid : String) (d d' : DB) : Prop where
  users : d'.users = d.users
  liveSessions : d'.liveSessions = d.liveSessions
  liveMatches : d'.liveMatches = d.liveMatches
  giftCatalog : d'.giftCatalog = d.giftCatalog
  giftOrders : ∀ x, Names rid x →
    d'.giftOrders.filter (·.lock = .giftOrderKey u (Platform.collate x)) =
      d.giftOrders.filter (·.lock = .giftOrderKey u (Platform.collate x))
  walletTxs : ∀ ty x, Names rid x →
    d'.walletTxs.filter (·.lock = .walletTxKey u ty (Platform.collate x)) =
      d.walletTxs.filter (·.lock = .walletTxKey u ty (Platform.collate x))
  rechargeRequests : ∀ x, Names rid x →
    d'.rechargeRequests.filter (·.lock = .rechargeRequest u (Platform.collate x)) =
      d.rechargeRequests.filter (·.lock = .rechargeRequest u (Platform.collate x))

/-- They also agree on the viewer's account and on all transactions from the id `n` on. -/
structure Alike (u : ℕ) (rid : String) (n : ℕ) (d d' : DB) : Prop extends SameKey u rid d d' where
  account : d'.walletAccounts u = d.walletAccounts u
  newTxs : d'.walletTxs.filter (n ≤ ·.txID) = d.walletTxs.filter (n ≤ ·.txID)
  newEntries : d'.walletEntries.filter (n ≤ ·.txID) = d.walletEntries.filter (n ≤ ·.txID)

variable {u n t : ℕ} {rid : String} {d d' : DB}

theorem SameKey.refl (u : ℕ) (rid : String) (d : DB) : SameKey u rid d d :=
  ⟨rfl, rfl, rfl, rfl, fun _ _ => rfl, fun _ _ _ => rfl, fun _ _ => rfl⟩

theorem SameKey.trans {d'' : DB} (h : SameKey u rid d d') (h' : SameKey u rid d' d'') :
    SameKey u rid d d'' where
  users := h'.users.trans h.users
  liveSessions := h'.liveSessions.trans h.liveSessions
  liveMatches := h'.liveMatches.trans h.liveMatches
  giftCatalog := h'.giftCatalog.trans h.giftCatalog
  giftOrders x hx := (h'.giftOrders x hx).trans (h.giftOrders x hx)
  walletTxs ty x hx := (h'.walletTxs ty x hx).trans (h.walletTxs ty x hx)
  rechargeRequests x hx := (h'.rechargeRequests x hx).trans (h.rechargeRequests x hx)

theorem Alike.refl (u : ℕ) (rid : String) (n : ℕ) (d : DB) : Alike u rid n d d :=
  ⟨.refl u rid d, rfl, rfl, rfl⟩

theorem Alike.applyAll (h : Alike u rid n d d') (ws : List Write) :
    Alike u rid n (applyAll ws d) (applyAll ws d') where
  users := by rw [applyAll_users, applyAll_users, h.users]
  liveSessions := applyAll_liveSessions_congr h.liveSessions ws
  liveMatches := by rw [applyAll_liveMatches, applyAll_liveMatches, h.liveMatches]
  giftCatalog := by rw [applyAll_giftCatalog, applyAll_giftCatalog, h.giftCatalog]
  giftOrders x hx := by
    rw [applyAll_giftOrders, applyAll_giftOrders, List.filter_append, List.filter_append,
      h.giftOrders x hx]
  walletTxs ty x hx := by
    rw [applyAll_walletTxs, applyAll_walletTxs, List.filter_append, List.filter_append,
      h.walletTxs ty x hx]
  rechargeRequests x hx := by
    rw [applyAll_rechargeRequests, applyAll_rechargeRequests, List.filter_append,
      List.filter_append, h.rechargeRequests x hx]
  account := applyAll_account_congr h.account ws
  newTxs := by
    rw [applyAll_walletTxs, applyAll_walletTxs, List.filter_append, List.filter_append, h.newTxs]
  newEntries := by
    rw [applyAll_walletEntries, applyAll_walletEntries, List.filter_append, List.filter_append,
      h.newEntries]

def Stmt.Touches (u : ℕ) (rid : String) (n : ℕ) : Stmt → Prop
  | .selectRecharge v r => v = u ∧ r = rid
  | .upsertAccount v => v = u
  | .selectBalanceForUpdate v => v = u
  | .insertWalletTx _ v r _ _ => v = u ∧ r = rid
  | .insertWalletEntry id _ _ => n ≤ id
  | .updateBalance v _ => v = u
  | .insertRechargeRequest r => r.viewerID = u ∧ r.requestID = rid ∧ n ≤ r.txID
  | .insertOutbox .. => True
  | .selectGiftOrderForUpdate v r => v = u ∧ r = rid
  | .selectLiveSession _ => True
  | .selectGift _ => True
  | .selectUser _ => True
  | .selectMatch _ => True
  | .insertGiftOrder o => o.viewerID = u ∧ o.requestID = rid
  | _ => False

theorem Alike.noTx (h : Alike u rid n d d') {id : ℕ} (hid : n ≤ id) :
    d'.walletTxs.all (·.txID ≠ id) = d.walletTxs.all (·.txID ≠ id) := by
  have hany := List.any_of_filter (q := fun x => decide (x.txID = id)) h.newTxs fun x hx => by
    simp only [decide_eq_true_eq] at hx ⊢
    omega
  rw [List.all_eq_not_any_not, List.all_eq_not_any_not]
  simpa using hany

/-- Such a statement does the same on both sides. -/
theorem Alike.alone (h : Alike u rid n d d') {s : Stmt} (hs : s.Touches u rid n) (ids : Ids)
    (rank : ℕ → ℕ) : s.alone d' ids rank = s.alone d ids rank := by
  cases s with
  | selectRecharge v r =>
    obtain ⟨rfl, rfl⟩ := hs
    simp only [Stmt.alone, Stmt.run, List.find?_of_filter (h.rechargeRequests r (.inl rfl))]
  | upsertAccount v =>
    obtain rfl : v = u := hs
    simp only [Stmt.alone, Stmt.run, h.account, h.users]
  | selectBalanceForUpdate v =>
    obtain rfl : v = u := hs
    simp only [Stmt.alone, Stmt.run, h.account]
  | insertWalletTx ty v r hash at_ =>
    obtain ⟨rfl, rfl⟩ := hs
    let tx : WalletTx := ⟨ids.tx, ty, v, Varchar.store 64 r, hash, at_⟩
    have hany : d'.walletTxs.any (·.lock = tx.lock) = d.walletTxs.any (·.lock = tx.lock) :=
      List.any_of_filter (h.walletTxs ty _ (.inr rfl)) fun x hx => hx
    simp only [tx] at hany
    simp only [Stmt.alone, Stmt.run, hany, h.users]
  | insertWalletEntry id code amount =>
    have hany := List.any_of_filter
      (q := fun e => decide (e.txID = id ∧ e.accountCode = Varchar.store 64 code))
      h.newEntries fun x hx => by
        simp only [decide_eq_true_eq] at hx ⊢
        exact hx.1 ▸ hs
    simp only [Stmt.alone, Stmt.run, hany, h.noTx hs]
  | updateBalance v b =>
    obtain rfl : v = u := hs
    simp only [Stmt.alone, Stmt.run, h.account]
  | insertRechargeRequest r =>
    obtain ⟨rfl, rfl, hid⟩ := hs
    have hany : d'.rechargeRequests.any (·.lock = r.stored.lock) =
        d.rechargeRequests.any (·.lock = r.stored.lock) :=
      List.any_of_filter (h.rechargeRequests _ (.inr rfl)) fun x hx => hx
    simp only [Stmt.alone, Stmt.run, hany, h.users, h.noTx hid]
  | insertOutbox => rfl
  | selectGiftOrderForUpdate v r =>
    obtain ⟨rfl, rfl⟩ := hs
    simp only [Stmt.alone, Stmt.run, List.find?_of_filter (h.giftOrders r (.inl rfl))]
  | selectLiveSession id => simp only [Stmt.alone, Stmt.run, h.liveSessions]
  | selectGift g => simp only [Stmt.alone, Stmt.run, h.giftCatalog]
  | selectUser v => simp only [Stmt.alone, Stmt.run, h.users]
  | selectMatch m => simp only [Stmt.alone, Stmt.run, h.liveMatches]
  | insertGiftOrder o =>
    obtain ⟨rfl, rfl⟩ := hs
    have hany : d'.giftOrders.any (·.lock = o.stored.lock) =
        d.giftOrders.any (·.lock = o.stored.lock) :=
      List.any_of_filter (h.giftOrders _ (.inr rfl)) fun x hx => hx
    simp only [Stmt.alone, Stmt.run, hany]
  | _ => cases hs

inductive Paired (t u : ℕ) (rid : String) (n : ℕ) : World × World → Prop where
  | intro {d d' : DB} {ws : List Write} {ids : Ids} {v v' : World} : Alike u rid n d d' →
      n ≤ ids.tx → Working t d ws ids v → Working t d' ws ids v' → Paired t u rid n (v, v')

section Bodies

variable {calls : ℕ → Call} {α β ε : Type} {v : World × World} {f : SqlErr → ε}

/-- Run on both sides, the body gets the same replies; `Q` holds where it ends. -/
abbrev Twins (calls : ℕ → Call) (t : ℕ) (m : GoBody ε α) (Q : α → World × World → Prop)
    (v : World × World) : Prop :=
  Runs ((system calls).twin Choice.Ok) t m Q (fun _ _ => True) v

theorem twins_pure {a : α} {Q : α → World × World → Prop} (h : Q a v) :
    Twins calls t (pure a : GoBody ε α) Q v := by
  refine Runs.pure fun x hx _ => ?_
  obtain rfl : x = v := hx
  exact h

theorem twins_orReturn {r : Except SqlErr α} {Q : α → World × World → Prop}
    (h : ∀ a, r = .ok a → Q a v) : Twins calls t (orReturn f r) Q v := by
  cases r with
  | error e => exact Runs.throw fun _ _ _ => trivial
  | ok a => exact twins_pure (h a rfl)

theorem twins_try {s : Stmt} {Q : Except SqlErr s.Res → World × World → Prop}
    (hv : Paired t u rid n v) (hs : s.Touches u rid n)
    (h : ∀ v' (d : DB) ids rank, Paired t u rid n v' → n ≤ ids.tx → Q (s.alone d ids rank).res v') :
    Twins calls t (txTry s : GoBody ε _) Q v := by
  obtain ⟨ha, hn, hw, hw'⟩ := hv
  refine Runs.twin_call ?_ ?_
  · rintro (⟨m, rank⟩ | a) hok
    · obtain ⟨x, hx, -⟩ := hw.execSql s rank
      obtain ⟨y, hy, -⟩ := hw'.execSql s rank
      rw [(ha.applyAll _).alone hs] at hy
      simp only [system, World.exec, hx, hy, Option.map_some]
    · cases hok
  · rintro (⟨m, rank⟩ | a) r x y hok hx hy
    · obtain ⟨x', hx', hwx⟩ := hw.execSql s rank
      obtain ⟨y', hy', hwy⟩ := hw'.execSql s rank
      obtain ⟨rfl, rfl⟩ := Prod.mk.inj (Option.some.inj (hx'.symm.trans hx))
      obtain ⟨-, rfl⟩ := Prod.mk.inj (Option.some.inj (hy'.symm.trans hy))
      rw [(ha.applyAll _).alone hs] at hwy
      exact h _ _ _ rank ⟨ha, hn.trans (run_ids s).1, hwx, hwy⟩ hn
    · cases hok

theorem twins_do {s : Stmt} {Q : s.Res → World × World → Prop} (hv : Paired t u rid n v)
    (hs : s.Touches u rid n)
    (h : ∀ a v' (d : DB) ids rank, Paired t u rid n v' → n ≤ ids.tx →
      (s.alone d ids rank).res = .ok a → Q a v') :
    Twins calls t (txDo f s) Q v :=
  Runs.bind (twins_try hv hs fun v' d ids rank hv' hn =>
    twins_orReturn fun a ha => h a v' d ids rank hv' hn ha)

theorem twins_then {s : Stmt} {k : s.Res → GoBody ε α} {Q : α → World × World → Prop}
    (hv : Paired t u rid n v) (hs : s.Touches u rid n)
    (h : ∀ a v', Paired t u rid n v' → Twins calls t (k a) Q v') :
    Twins calls t (txDo f s >>= k) Q v :=
  Runs.bind (twins_do hv hs fun a v' _ _ _ hv' _ _ => h a v' hv')

theorem twins_now {k : ℕ → GoBody ε α} {Q : α → World × World → Prop}
    (hk : ∀ m, Twins calls t (k m) Q v) : Twins calls t (timeNow >>= k) Q v := by
  refine Runs.bind (Runs.twin_call ?_ ?_)
  · rintro (⟨m, rank⟩ | a) hok
    · rfl
    · cases hok
  · rintro (⟨m, rank⟩ | a) r x y hok hx hy
    · cases hx
      cases hy
      exact hk m
    · cases hok

theorem twins_commit {a : α} (hv : Paired t u rid n v) :
    Twins calls t (commitTx f >>= fun _ => pure a : GoBody ε α) (fun _ _ => True) v := by
  have hcommit : Twins calls t (commitTx f : GoBody ε Unit) (fun _ _ => True) v := by
    obtain ⟨-, -, hw, hw'⟩ := hv
    refine Runs.bind (Runs.twin_call ?_ fun ch r x y _ _ _ => twins_orReturn fun _ _ => trivial)
    rintro (⟨m, rank⟩ | a) hok
    · simp only [system, World.exec, hw.opened, hw'.opened, Option.map_some]
    · cases hok
  exact Runs.seq hcommit fun _ _ _ _ => twins_pure trivial

theorem safe_twin_withTx {g : SqlErr → α} {body : GoBody α α} {w w' : World}
    (ha : Alike u rid n w.db w'.db) (hids : w'.ids = w.ids) (hn : n ≤ w.ids.tx)
    (hw : w.Unlocked t) (hw' : w'.Unlocked t)
    (h : ∀ v, Paired t u rid n v → Twins calls t body (fun _ _ => True) v) :
    Safe ((system calls).twin Choice.Ok) t (fun _ _ => True) (withTx g body) (w, w') := by
  rintro _ rfl -
  constructor
  · rintro (⟨m, rank⟩ | a) hok
    · rfl
    · cases hok
  · rintro r ⟨x, y⟩ ⟨⟨m, rank⟩ | a, hok, hx, hy⟩
    · cases hx
      cases hy
      have hbody := h (w.setStore (w.store.begin t), w'.setStore (w'.store.begin t))
        ⟨ha, hn, ⟨rfl, rfl, Store.setOpened_self _ _ _, hw⟩,
          ⟨rfl, hids, Store.setOpened_self _ _ _, hw'⟩⟩
      refine ⟨trivial, (Safe.mono (Runs.toSafe hbody) fun a v _ _ => ?_).bind⟩
      rintro _ rfl -
      exact ⟨fun _ _ => rfl, fun _ _ _ => ⟨trivial, fun _ _ _ => trivial⟩⟩
    · cases hok

end Bodies

section Programs

variable {calls : ℕ → Call} {v : World × World}

theorem twins_insertEntries {α β : Type} {k : GoBody (Ret α) β} {Q : β → World × World → Prop}
    {id : ℕ} {es : List LedgerEntry} (hv : Paired t u rid n v) (hid : n ≤ id)
    (hk : ∀ v, Paired t u rid n v → Twins calls t k Q v) :
    Twins calls t (insertEntries id es k) Q v := by
  induction es generalizing v with
  | nil => exact hk v hv
  | cons e es ih => exact twins_then hv hid fun _ v hv => ih hv

theorem new_txID {ty : TxType} {hash : Digest} {at_ id : ℕ} {ids : Ids} {rank : ℕ → ℕ}
    (hn : n ≤ ids.tx) (hr : ((Stmt.insertWalletTx ty u rid hash at_).alone d ids rank).res = .ok id)
    (hpos : ¬ wrap64 id < 1) : n ≤ (wrap64 id).toNat := by
  have hid : id = ids.tx ∧ ids.tx < 2 ^ 64 := by
    simp only [Stmt.alone, Stmt.run] at hr
    split at hr
    · cases hr
    split at hr
    · cases hr
    next hlt =>
    split at hr
    · cases hr
    split at hr
    · cases hr
    · exact ⟨(Except.ok.inj hr).symm, not_le.mp hlt⟩
  rw [(wrap64_id (hid.1 ▸ hid.2) hpos).2, hid.1]
  exact hn

theorem twins_rechargeTx {req : RechargeRequest} {hash : Digest}
    (hv : Paired t req.viewerID req.requestID n v) :
    Twins calls t (rechargeTx req hash) (fun _ _ => True) v := by
  unfold rechargeTx
  refine twins_then hv ⟨rfl, rfl⟩ fun r v hv => ?_
  split
  · split
    · exact twins_pure trivial
    · exact twins_commit hv
  · unfold rechargeNew
    refine twins_then hv rfl fun _ v hv => twins_then hv rfl fun b v hv => twins_now fun at_ => ?_
    refine Runs.bind (twins_do hv ⟨rfl, rfl⟩ fun id v d ids rank hv hn hid => ?_)
    unfold rechargeChecked
    split
    · exact twins_pure trivial
    next hpos =>
    have hnew := new_txID hn hid hpos
    unfold rechargePost
    dsimp only
    split
    · exact twins_pure trivial
    refine twins_insertEntries hv hnew fun v hv => twins_then hv rfl fun _ v hv => ?_
    refine twins_now fun _ => twins_then hv ⟨rfl, rfl, hnew⟩ fun _ v hv => ?_
    exact twins_now fun _ => twins_then hv trivial fun _ v hv => twins_commit hv

section Gift

variable {req : GiftRequest} {hash : Digest} {campaignID : Option ℕ} {g : Gift}
  {m : Option LiveMatch} {a : GiftAmounts} (hv : Paired t req.viewerID req.requestID n v)
include hv

theorem twins_replayGiftIfExists : Twins calls t (replayGiftIfExists req hash)
    (fun _ => Paired t req.viewerID req.requestID n) v := by
  unfold replayGiftIfExists
  refine twins_then hv ⟨rfl, rfl⟩ fun r v hv => ?_
  split
  · exact twins_pure hv
  split
  · exact twins_pure hv
  split <;> exact twins_pure hv

theorem twins_rejectGift {code : String} {status : ℕ} :
    Twins calls t (rejectGift req hash code status) (fun _ _ => True) v := by
  unfold rejectGift
  refine twins_now fun at_ => Runs.bind (twins_try hv ⟨rfl, rfl⟩ fun v d ids rank hv _ => ?_)
  split
  · split
    · refine Runs.seq (twins_replayGiftIfExists hv) fun x v _ hv => ?_
      split
      · exact twins_pure trivial
      · exact twins_commit hv
      · exact twins_pure trivial
    · exact twins_pure trivial
  · exact twins_now fun _ => twins_then hv trivial fun _ v hv => twins_commit hv

theorem twins_replayAfterDup {e : SqlErr} :
    Twins calls t (replayAfterDup req hash e) (fun _ _ => True) v := by
  unfold replayAfterDup
  refine Runs.seq (twins_replayGiftIfExists hv) fun x v _ hv => ?_
  split
  · exact twins_pure trivial
  · exact twins_commit hv
  · exact twins_pure trivial

theorem twins_giftDebit {balance : ℤ} :
    Twins calls t (giftDebit req hash campaignID a balance) (fun _ _ => True) v := by
  unfold giftDebit
  refine twins_now fun at_ => Runs.bind (twins_try hv ⟨rfl, rfl⟩ fun v d ids rank hv hn => ?_)
  split
  · split
    · exact twins_replayAfterDup hv
    · exact twins_pure trivial
  next id hid =>
  dsimp only
  split
  · exact twins_pure trivial
  next hpos =>
  split
  · exact twins_pure trivial
  refine twins_insertEntries hv (new_txID hn hid hpos) fun v hv =>
    twins_then hv rfl fun _ v hv => ?_
  refine twins_now fun _ => Runs.bind (twins_try hv ⟨rfl, rfl⟩ fun v _ _ _ hv _ => ?_)
  split
  · split
    · exact twins_replayAfterDup hv
    · exact twins_pure trivial
  split
  · exact twins_pure trivial
  unfold giftEvents
  refine twins_now fun _ => twins_then hv trivial fun _ v hv => ?_
  exact twins_now fun _ => twins_then hv trivial fun _ v hv => twins_commit hv

omit hv in
theorem twins_orText {α β : Type} {x : Except String α} {k : α → GiftBody β}
    {Q : β → World × World → Prop} (hk : ∀ a, Twins calls t (k a) Q v) :
    Twins calls t (orText x >>= k) Q v := by
  cases x with
  | error e => exact Runs.bind (Runs.throw fun _ _ _ => trivial)
  | ok a => exact Runs.bind (twins_pure (hk a))

theorem twins_giftCharge :
    Twins calls t (giftCharge req hash campaignID g m) (fun _ _ => True) v := by
  unfold giftCharge
  refine twins_then hv rfl fun _ v hv => twins_then hv rfl fun b v hv => ?_
  dsimp only
  split
  · exact twins_pure trivial
  refine twins_orText fun _ => ?_
  split
  · exact twins_rejectGift hv
  · exact twins_orText fun _ => twins_orText fun _ => twins_giftDebit hv

theorem twins_giftMatch :
    Twins calls t (giftMatch req hash campaignID g) (fun _ _ => True) v := by
  unfold giftMatch
  split
  · exact twins_giftCharge hv
  refine twins_then hv trivial fun r v hv => ?_
  split
  · exact twins_rejectGift hv
  split
  · exact twins_rejectGift hv
  · exact twins_giftCharge hv

theorem twins_giftPolicy : Twins calls t (giftPolicy req hash) (fun _ _ => True) v := by
  unfold giftPolicy
  refine twins_then hv trivial fun r v hv => ?_
  split
  · exact twins_rejectGift hv
  split
  · exact twins_rejectGift hv
  refine twins_then hv trivial fun r v hv => ?_
  split
  · exact twins_rejectGift hv
  split
  · exact twins_rejectGift hv
  have heligible : Twins calls t (isCreatorEligible req.creatorID)
      (fun _ => Paired t req.viewerID req.requestID n) v := by
    refine twins_then hv trivial fun r v hv => ?_
    split <;> exact twins_pure hv
  refine Runs.seq heligible fun b v _ hv => ?_
  split
  · exact twins_giftMatch hv
  · exact twins_rejectGift hv

theorem twins_sendGiftTx : Twins calls t (sendGiftTx req hash) (fun _ _ => True) v := by
  unfold sendGiftTx
  refine Runs.seq (twins_replayGiftIfExists hv) fun x v _ hv => ?_
  split
  · exact twins_pure trivial
  · exact twins_commit hv
  · exact twins_giftPolicy hv

end Gift

end Programs

end LiveRevenue
