import LiveRevenue.Proof.Solo
import LiveRevenue.Result.Debits

/-! # Who may send which gift, and at what price

Run alone, `SendGift` decides by the policy on session, gift, creator, match, viewer and
balance, and prices exactly. What the policy allows must in addition fit the tables it is
written to: the request id, which must also be free as it is stored, the gift id and the
generated ids.
-/

namespace LiveRevenue

open Transact

section General

variable [Platform]

structure User.MayReceive (u : User) : Prop where
  standing : u.accountStanding = .good
  live : u.canGoLive = true
  gifts : u.liveGiftsEnabled = true
  normal : u.accountType = .normal
  age : (if equalFold u.regionCode "KR" then 19 else 18) ≤ u.ageYears

/-- The match points of a gift: none in a SPECIFIC_GIFT match for another gift. -/
def DB.matchPoints (d : DB) (req : GiftRequest) (g : Gift) : ℕ :=
  match req.matchID.bind d.liveMatches with
  | some m =>
    if m.mode = .specificGift ∧ m.specificGiftID.all (equalFold · req.giftID = false) then 0
    else g.matchPoints * req.quantity
  | none => g.matchPoints * req.quantity

/-- Session, creator and match take the gift `g` of the catalog. -/
structure DB.Permits (d : DB) (req : GiftRequest) (g : Gift) : Prop where
  session : ∃ x, d.liveSessions req.liveSessionID = some x ∧ x.status = .opened
  gift : d.giftCatalog.find? (fun x => Platform.collate x.giftID = Platform.collate req.giftID) =
    some g
  enabled : g.enabled = true
  creator : ∃ u, d.users req.creatorID = some u ∧ u.MayReceive
  matched : ∀ k, req.matchID = some k → ∃ m, d.liveMatches k = some m ∧
    m.liveSessionID = req.liveSessionID ∧ m.status = .opened

/-- The policy allows the gift: the viewer can pay, and no amount exceeds an `INT UNSIGNED`. -/
structure DB.Sells (d : DB) (req : GiftRequest) (g : Gift) : Prop extends d.Permits req g where
  viewer : (d.users req.viewerID).isSome
  positive : 0 < g.coinPrice * req.quantity
  charged : g.coinPrice * req.quantity ≤ 2 ^ 32 - 1
  covered : (g.coinPrice * req.quantity : ℕ) ≤ d.balance req.viewerID
  points : d.matchPoints req g ≤ 2 ^ 32 - 1
  diamonds : g.diamondReward * req.quantity ≤ 2 ^ 32 - 1

/-- What an accepted request writes fits its columns, but for spaces at the end that are cut,
and the key that is left is free. -/
structure GiftRequest.Storable (req : GiftRequest) (d : DB) (ids : Ids) : Prop where
  requestID : Varchar.refuses 64 req.requestID = false
  giftID : Varchar.refuses 32 req.giftID = false
  key : ∀ o ∈ d.giftOrders, o.lock ≠ req.storedKey
  txID : ids.tx < 2 ^ 63
  orderID : ids.order < 2 ^ 63
  eventIDs : ids.event + 1 < 2 ^ 64

/-- The campaign id of the session can be scanned into an `int64`. -/
def DB.CampaignScans (d : DB) (id : ℕ) : Prop :=
  ∀ x, d.liveSessions id = some x → ∀ c, x.campaignID = some c → c < 2 ^ 63

/-- Response, order, ledger entries and balance carry the amounts of the catalog. -/
structure Sold (d d' : DB) (req : GiftRequest) (g : Gift) (resp : GiftResponse) : Prop where
  response : resp = ⟨resp.giftOrderID, true, g.coinPrice * req.quantity, d.matchPoints req g,
    g.diamondReward * req.quantity, d.balance req.viewerID - (g.coinPrice * req.quantity : ℕ),
    "created"⟩
  order : ∃ o, d'.giftOrders = d.giftOrders ++ [o] ∧ o.giftOrderID = resp.giftOrderID ∧
    o.lock = req.storedKey ∧ o.creatorID = req.creatorID ∧ o.liveSessionID = req.liveSessionID ∧
    o.matchID = req.matchID ∧ o.status = .accepted ∧ o.chargedCoins = g.coinPrice * req.quantity ∧
    o.matchPointsAdded = d.matchPoints req g ∧ o.diamondReward = g.diamondReward * req.quantity
  entries : ∃ id, d'.walletEntries = d.walletEntries ++
    [⟨id, userCoins req.viewerID, -(g.coinPrice * req.quantity : ℕ)⟩,
      ⟨id, "PLATFORM_RESERVED_COINS", (g.coinPrice * req.quantity : ℕ)⟩]
  balance : d'.balance req.viewerID = d.balance req.viewerID - (g.coinPrice * req.quantity : ℕ)

/-- A call ends by the policy, and a sale takes one transaction id, one order id and two event
ids. -/
def GiftEnds (d : DB) (ids : Ids) (req : GiftRequest) (r : Ret GiftResponse) (d' : DB)
    (ids' : Ids) : Prop :=
  (∀ g, d.Sells req g → req.Storable d ids → ∃ resp, r = .ok resp ∧ Sold d d' req g resp ∧
      ids' = ⟨ids.tx + 1, ids.order + 1, ids.event + 2⟩) ∧
    ((∀ g, d.Sells req g → ¬ req.Storable d ids) → ∀ resp, r ≠ .ok resp)

/-- What a call of its own key finds: no order, no debit without its order, ids ahead of those in
use, and a campaign id that it can read. -/
structure GiftRequest.Unsent (req : GiftRequest) (d : DB) (ids : Ids) : Prop where
  order : ∀ o ∈ d.giftOrders, o.lock ≠ req.key
  debit : ∀ x ∈ d.walletTxs, x.lock = req.debitKey → ∃ o ∈ d.giftOrders, o.lock = req.storedKey
  campaign : d.CampaignScans req.liveSessionID
  below : d.Below ids
  one_le : 1 ≤ ids.tx ∧ 1 ≤ ids.order
  viewerID : req.viewerID < 2 ^ 64
  quantity : req.quantity ≤ 99

section Policy

variable {d d' : DB} {ids ids' : Ids} {req : GiftRequest} {g g' : Gift} {r : Ret GiftResponse}
  {resp : GiftResponse}

theorem eligible_iff {u : User} : eligible u = true ↔ u.MayReceive := by
  unfold eligible
  constructor
  · intro h
    split at h
    · cases h
    · next h1 =>
      split at h
      · cases h
      · next h2 =>
        simp only [not_or, not_not, ne_eq] at h1 h2
        refine ⟨h1.1, h1.2.1, h1.2.2, h2, ?_⟩
        split at h <;> simp_all
  · rintro ⟨h1, h2, h3, h4, h5⟩
    rw [if_neg (by simp [h1, h2, h3]), if_neg (by simp [h4])]
    split at h5 <;> simp_all

theorem DB.Sells.gift_unique (h : d.Sells req g) (h' : d.Sells req g') : g = g' :=
  Option.some.inj (h.gift.symm.trans h'.gift)

theorem GiftEnds.declined (hn : ∀ g, d.Sells req g → ¬ req.Storable d ids)
    (hr : ∀ resp, r ≠ .ok resp) : GiftEnds d ids req r d' ids' :=
  ⟨fun g hg hs => absurd hs (hn g hg), fun _ => hr⟩

theorem GiftEnds.sold (hg : d.Sells req g) (hs : req.Storable d ids) (h : Sold d d' req g resp)
    (hids : ids' = ⟨ids.tx + 1, ids.order + 1, ids.event + 2⟩) :
    GiftEnds d ids req (.ok resp) d' ids' :=
  ⟨fun _ hg' _ => ⟨resp, rfl, hg.gift_unique hg' ▸ h, hids⟩, fun hn => absurd hs (hn g hg)⟩

theorem giftMatchPoints_eq (hq : req.quantity ≤ 99) :
    giftMatchPoints req g (req.matchID.bind d.liveMatches) = (d.matchPoints req g : ℕ) := by
  unfold giftMatchPoints DB.matchPoints
  cases req.matchID.bind d.liveMatches with
  | none => exact wrap64_product g.matchPoints_lt hq
  | some m =>
    dsimp only
    rw [wrap64_product g.matchPoints_lt hq]
    by_cases hmode : m.mode = .specificGift
    · cases hs : m.specificGiftID with
      | none => simp [hmode]
      | some x => cases hx : equalFold x req.giftID <;> simp [hmode, hx]
    · simp [hmode]

end Policy

section Run

variable {calls : ℕ → Call} {t : ℕ} {d : DB} {ids : Ids} {req : GiftRequest} {v : World} {g : Gift}
  {ws : List Write}

structure GiftOrder.Fits (o : GiftOrder) (d : DB) (ids : Ids) : Prop where
  giftID : Varchar.refuses 32 o.giftID = false
  requestID : Varchar.refuses 64 o.requestID = false
  orderID : ids.order < 2 ^ 64
  free : ∀ r ∈ d.giftOrders, r.lock ≠ o.stored.lock

theorem alone_insertGiftOrder {o : GiftOrder} (rank : ℕ → ℕ) :
    (o.Fits d ids ∧ (Stmt.insertGiftOrder o).alone d ids rank = ⟨.ok ids.order,
      { ids with order := ids.order + 1 }, [.giftOrder { o.stored with giftOrderID := ids.order }],
      [], []⟩) ∨
    ∃ e, ((Stmt.insertGiftOrder o).alone d ids rank).res = .error e ∧
      ((Stmt.insertGiftOrder o).alone d ids rank).writes = [] ∧
      (o.chargedCoins < 2 ^ 32 ∧ o.matchPointsAdded < 2 ^ 32 ∧ o.diamondReward < 2 ^ 32 →
        ¬ o.Fits d ids) := by
  simp only [Stmt.alone, Stmt.run]
  split
  · next hlong =>
    refine .inr ⟨.dataTooLong, rfl, rfl, fun _ hfit => ?_⟩
    rw [hfit.giftID, hfit.requestID] at hlong
    exact hlong.elim Bool.false_ne_true Bool.false_ne_true
  next hlong =>
  split
  · exact .inr ⟨.outOfRange, rfl, rfl, fun h _ => by omega⟩
  split
  · next hid => exact .inr ⟨.autoIncrement, rfl, rfl, fun _ hfit => absurd hid hfit.orderID.not_ge⟩
  next hid =>
  split
  · next hany =>
    refine .inr ⟨.dupKey, rfl, rfl, fun _ hfit => ?_⟩
    obtain ⟨r, hr, hk⟩ := List.any_eq_true.mp hany
    exact hfit.free r hr (of_decide_eq_true hk)
  · next hany =>
    rw [not_or, Bool.not_eq_true, Bool.not_eq_true] at hlong
    refine .inl ⟨⟨hlong.1, hlong.2, not_le.mp hid, fun r hr hk => hany ?_⟩, rfl⟩
    exact List.any_eq_true.mpr ⟨r, hr, decide_eq_true hk⟩

structure DebitFits (u : ℕ) (rid : String) (d : DB) (ids : Ids) : Prop where
  requestID : Varchar.refuses 64 rid = false
  txID : ids.tx < 2 ^ 64
  viewer : (d.users u).isSome
  free : ∀ x ∈ d.walletTxs,
    x.lock ≠ .walletTxKey u .giftDebit (Platform.collate (Varchar.store 64 rid))

theorem alone_insertWalletTx {rid : String} {u : ℕ} {h : Digest} {at_ : ℕ} (rank : ℕ → ℕ) :
    (DebitFits u rid d ids ∧ (Stmt.insertWalletTx .giftDebit u rid h at_).alone d ids rank =
      ⟨.ok ids.tx, { ids with tx := ids.tx + 1 },
        [.walletTx ⟨ids.tx, .giftDebit, u, Varchar.store 64 rid, h, at_⟩], [], []⟩) ∨
    ∃ e, ((Stmt.insertWalletTx .giftDebit u rid h at_).alone d ids rank).res = .error e ∧
      ((Stmt.insertWalletTx .giftDebit u rid h at_).alone d ids rank).writes = [] ∧
      ¬ DebitFits u rid d ids := by
  simp only [Stmt.alone, Stmt.run]
  split
  · next hlong =>
    refine .inr ⟨.dataTooLong, rfl, rfl, fun hfit => ?_⟩
    rw [hfit.requestID] at hlong
    exact Bool.false_ne_true hlong
  next hlong =>
  split
  · next hid => exact .inr ⟨.autoIncrement, rfl, rfl, fun hfit => absurd hid hfit.txID.not_ge⟩
  next hid =>
  split
  · next hany =>
    refine .inr ⟨.dupKey, rfl, rfl, fun hfit => ?_⟩
    obtain ⟨x, hx, hk⟩ := List.any_eq_true.mp hany
    exact hfit.free x hx (of_decide_eq_true hk)
  next hany =>
  split
  · next hnone =>
    refine .inr ⟨.foreignKey, rfl, rfl, fun hfit => ?_⟩
    rw [Option.isNone_iff_eq_none] at hnone
    exact absurd hnone (Option.isSome_iff_ne_none.mp hfit.viewer)
  · next hsome =>
    refine .inl ⟨⟨Bool.eq_false_iff.mpr hlong, not_le.mp hid, ?_, fun x hx hk => hany ?_⟩, rfl⟩
    · exact Option.isSome_iff_ne_none.mpr (by simpa using hsome)
    · exact List.any_eq_true.mpr ⟨x, hx, decide_eq_true hk⟩

theorem alone_updateBalance {u : ℕ} {b : ℤ} (hd : (d.walletAccounts u).isSome) (rank : ℕ → ℕ) :
    (Stmt.updateBalance u b).alone d ids rank = ⟨.ok (), ids, [.setBalance u b], [], []⟩ := by
  obtain ⟨x, hx⟩ := Option.isSome_iff_exists.mp hd
  simp only [Stmt.alone, Stmt.run, hx]

theorem alone_insertWalletEntry {id : ℕ} {code : String} {amount : ℤ} (hlen : code.length ≤ 64)
    (hfree : ∀ e ∈ d.walletEntries, e.txID = id → e.accountCode ≠ code)
    (htx : ∃ x ∈ d.walletTxs, x.txID = id) (rank : ℕ → ℕ) :
    (Stmt.insertWalletEntry id code amount).alone d ids rank =
      ⟨.ok (), ids, [.walletEntry ⟨id, code, amount⟩], [], []⟩ := by
  have hfits : ¬ Varchar.refuses 64 code = true := fun hr =>
    absurd hlen (Varchar.length_lt_of_refuses hr).not_ge
  simp only [Stmt.alone, Stmt.run, Varchar.store_eq_self hlen]
  rw [if_neg hfits, if_neg ?_, if_neg ?_]
  · obtain ⟨x, hx, he⟩ := htx
    simp only [List.all_eq_true, not_forall]
    exact ⟨x, hx, by simp [he]⟩
  · rw [List.any_eq_true]
    rintro ⟨e, he, hc⟩
    obtain ⟨hid, hcode⟩ := of_decide_eq_true hc
    exact hfree e he hid hcode

abbrev ByPolicy (calls : ℕ → Call) (t : ℕ) (d : DB) (ids : Ids) (req : GiftRequest)
    (body : GiftBody (Ret GiftResponse)) (v : World) : Prop :=
  Runs ((system calls).solo Choice.Ok) t body (fun r v' => GiftEnds d ids req r v'.db v'.ids)
    (fun r v' => GiftEnds d ids req r v'.db v'.ids) v

theorem runs_alone_unrecorded {ids' : Ids} {Q : Option (AppError ⊕ GiftResponse) → World → Prop}
    {E : Ret GiftResponse → World → Prop} (hu : req.Unsent d ids) (hv : Working t d ws ids' v)
    (hws : ws.filterMap Write.giftOrder? = []) (h : ∀ v', Working t d ws ids' v' → Q none v') :
    Runs ((system calls).solo Choice.Ok) t
    (replayGiftIfExists req (Platform.giftHash req)) Q E v := by
  have hnone : ((applyAll ws d).giftOrders.find? fun o => o.lock =
      .giftOrderKey req.viewerID (Platform.collate req.requestID)) = none := by
    rw [applyAll_giftOrders, hws, List.append_nil, List.find?_eq_none]
    intro o ho
    simpa using show o.lock ≠ .giftOrderKey _ _ from hu.order o ho
  refine Runs.bind (runs_alone_do hv fun rank v' hv' => ?_)
  simp only [Stmt.alone, Stmt.run, hnone, List.append_nil] at hv' ⊢
  exact runs_alone_pure (h v' hv')

theorem runs_alone_reject {code : String} {status : ℕ} (hu : req.Unsent d ids)
    (hv : Working t d ws ids v) (hws : ws.filterMap Write.giftOrder? = [])
    (hn : ∀ g, d.Sells req g → ¬ req.Storable d ids) :
    ByPolicy calls t d ids req (rejectGift req (Platform.giftHash req) code status) v := by
  refine Runs.bind (runs_alone_now fun n => ?_)
  refine Runs.bind (runs_alone_sql hv fun rank v' hv' => ?_)
  rcases alone_insertGiftOrder rank with ⟨-, heff⟩ | ⟨e, hres, hwrites, -⟩
  · rw [heff] at hv' ⊢
    refine Runs.bind (runs_alone_now fun n' => ?_)
    refine Runs.bind (runs_alone_do hv' fun rank v'' hv'' => ?_)
    split
    · exact Runs.bind (runs_alone_commit hv'' fun u _ _ => runs_alone_pure (.declined hn nofun))
    · exact .declined hn nofun
  · rw [hwrites, List.append_nil] at hv'
    rw [hres]
    dsimp only
    split
    · refine Runs.bind (runs_alone_unrecorded hu hv' hws fun v'' _ => ?_)
      exact runs_alone_pure (.declined hn nofun)
    · exact runs_alone_pure (.declined hn nofun)

theorem runs_alone_refused {e : SqlErr} {ids' : Ids} (hu : req.Unsent d ids)
    (hv : Working t d ws ids' v) (hws : ws.filterMap Write.giftOrder? = [])
    (hn : ∀ g, d.Sells req g → ¬ req.Storable d ids) :
    ByPolicy calls t d ids req
      (if isDupKey e then replayAfterDup req (Platform.giftHash req) e else pure (retErr e)) v := by
  split
  · refine Runs.bind (runs_alone_unrecorded hu hv hws fun v' _ => ?_)
    exact runs_alone_pure (.declined hn nofun)
  · exact runs_alone_pure (.declined hn nofun)

theorem alone_insertOutbox {topic key : String} {payload : Payload} {at_ : ℕ} (rank : ℕ → ℕ)
    (hid : ids.event < 2 ^ 64) : (Stmt.insertOutbox topic key payload at_).alone d ids rank =
      ⟨.ok (), { ids with event := ids.event + 1 },
        [.outbox ⟨ids.event, topic, key, payload, none, at_⟩], [], []⟩ := by
  simp only [Stmt.alone, Stmt.run]
  rw [if_neg (by omega)]

theorem alone_insertOutbox_error {topic key : String} {payload : Payload} {at_ : ℕ} (rank : ℕ → ℕ)
    (hid : ¬ ids.event < 2 ^ 64) :
    ((Stmt.insertOutbox topic key payload at_).alone d ids rank).res = .error .autoIncrement := by
  simp only [Stmt.alone, Stmt.run]
  rw [if_pos (by omega)]

theorem runs_alone_giftEvents {a : GiftAmounts} {c : Option ℕ} {b : ℤ} {x oid : ℕ} {ids' : Ids}
    (hv : Working t d ws ids' v) (hids : ids'.event = ids.event)
    (hsold : ids.event + 1 < 2 ^ 64 → ∀ (r r' : OutboxRow) (v' : World),
      v'.db = applyAll (ws ++ [Write.outbox r] ++ [Write.outbox r']) d →
      v'.ids = ⟨ids'.tx, ids'.order, ids'.event + 2⟩ →
      GiftEnds d ids req (.ok ⟨oid, true, a.charged.toNat, a.matchPoints.toNat,
        a.diamondReward.toNat, b, "created"⟩) v'.db v'.ids) :
    ByPolicy calls t d ids req (giftEvents req c a b x oid) v := by
  have hn : ¬ ids.event + 1 < 2 ^ 64 → ∀ g, d.Sells req g → ¬ req.Storable d ids :=
    fun h _ _ hs => h hs.eventIDs
  refine Runs.bind (runs_alone_now fun n => ?_)
  refine Runs.bind (runs_alone_do hv fun rank v' hv' => ?_)
  by_cases h1 : ids'.event < 2 ^ 64
  · rw [alone_insertOutbox rank h1] at hv' ⊢
    refine Runs.bind (runs_alone_now fun n => ?_)
    refine Runs.bind (runs_alone_do hv' fun rank v'' hv'' => ?_)
    by_cases h2 : ids'.event + 1 < 2 ^ 64
    · rw [alone_insertOutbox rank h2] at hv'' ⊢
      refine Runs.bind (runs_alone_commit hv'' fun u hdb hids' => ?_)
      exact runs_alone_pure (hsold (by omega) _ _ u hdb hids')
    · rw [alone_insertOutbox_error rank h2]
      exact .declined (hn (by omega)) nofun
  · rw [alone_insertOutbox_error rank h1]
    exact .declined (hn (by omega)) nofun

structure PricedBy (d : DB) (req : GiftRequest) (g : Gift) (a : GiftAmounts) : Prop where
  charged : a.charged = (g.coinPrice * req.quantity : ℕ)
  points : a.matchPoints = (d.matchPoints req g : ℕ)
  diamonds : a.diamondReward = (g.diamondReward * req.quantity : ℕ)

def debitWrites (d : DB) (ids : Ids) (req : GiftRequest) (a : GiftAmounts) (at_ : ℕ) : List Write :=
  d.opening req.viewerID ++ [Write.walletTx (req.debit ids.tx at_)] ++
    [Write.walletEntry ⟨ids.tx, userCoins req.viewerID, -a.charged⟩] ++
    [Write.walletEntry ⟨ids.tx, "PLATFORM_RESERVED_COINS", a.charged⟩] ++
    [Write.setBalance req.viewerID (d.balance req.viewerID - a.charged)]

theorem debitWrites_picks {a : GiftAmounts} {at_ : ℕ} :
    (debitWrites d ids req a at_).filterMap Write.giftOrder? = [] ∧
    (debitWrites d ids req a at_).filterMap Write.walletEntry? =
      [⟨ids.tx, userCoins req.viewerID, -a.charged⟩,
        ⟨ids.tx, "PLATFORM_RESERVED_COINS", a.charged⟩] := by
  constructor <;> simp [debitWrites, List.filterMap_cons]

theorem runs_alone_entries {a : GiftAmounts} {n : ℕ} {ids' : Ids} {k : GiftBody (Ret GiftResponse)}
    {Q E : Ret GiftResponse → World → Prop} (hu : req.Unsent d ids)
    (hv : Working t d (d.opening req.viewerID ++ [Write.walletTx (req.debit ids.tx n)]) ids' v)
    (hk : ∀ v', Working t d (debitWrites d ids req a n) ids' v' →
      Runs ((system calls).solo Choice.Ok) t k Q E v') :
    Runs ((system calls).solo Choice.Ok) t
      (insertEntries ids.tx [⟨userCoins req.viewerID, -a.charged⟩,
        ⟨"PLATFORM_RESERVED_COINS", a.charged⟩] do
        txDo retErr (.updateBalance req.viewerID (d.balance req.viewerID - a.charged))
        k) Q E v := by
  have hnew : ∀ e ∈ d.walletEntries, e.txID ≠ ids.tx := fun e he => (hu.below.walletEntries e he).ne
  have hne : userCoins req.viewerID ≠ "PLATFORM_RESERVED_COINS" := userCoins_ne _ (by decide)
  refine Runs.bind (runs_alone_effect hv (alone_insertWalletEntry (length_userCoins hu.viewerID)
    ?_ ?_) fun v₂ hv₂ => ?_)
  · intro e he hid
    exact absurd hid (hnew e (by simpa using he))
  · exact ⟨req.debit ids.tx n, by simp, rfl⟩
  have hlen : "PLATFORM_RESERVED_COINS".length ≤ 64 := by decide
  refine Runs.bind (runs_alone_effect hv₂ (alone_insertWalletEntry hlen ?_ ?_) fun v₃ hv₃ => ?_)
  · intro e he hid
    simp only [applyAll_walletEntries, List.filterMap_append, List.mem_append] at he
    rcases he with he | he
    · exact absurd hid (hnew e he)
    · have he : e = ⟨ids.tx, userCoins req.viewerID, -a.charged⟩ := by simpa using he
      rw [he]
      exact hne
  · exact ⟨req.debit ids.tx n, by simp, rfl⟩
  have hacc : ((applyAll (d.opening req.viewerID ++ [Write.walletTx (req.debit ids.tx n)] ++
      [Write.walletEntry ⟨ids.tx, userCoins req.viewerID, -a.charged⟩] ++
      [Write.walletEntry ⟨ids.tx, "PLATFORM_RESERVED_COINS", a.charged⟩]) d).walletAccounts
        req.viewerID).isSome := by
    rw [List.append_assoc, List.append_assoc, applyAll_append]
    refine isSome_applyAll_walletAccounts ?_
    rw [applyAll_opening rfl]
    rfl
  exact Runs.bind (runs_alone_effect hv₃ (alone_updateBalance hacc) hk)

theorem sold_debitWrites {a : GiftAmounts} {n n' : ℕ} {r r' : OutboxRow} (ha : PricedBy d req g a) :
    Sold d (applyAll (debitWrites d ids req a n ++
      [Write.giftOrder { (acceptedOrder req (Platform.giftHash req) a
        (d.balance req.viewerID - a.charged) n').stored with giftOrderID := ids.order }] ++
      [Write.outbox r] ++ [Write.outbox r']) d) req g
      ⟨ids.order, true, a.charged.toNat, a.matchPoints.toNat, a.diamondReward.toNat,
        d.balance req.viewerID - a.charged, "created"⟩ := by
  refine ⟨?_, ⟨{ (acceptedOrder req (Platform.giftHash req) a (d.balance req.viewerID - a.charged)
    n').stored with giftOrderID := ids.order }, ?_, rfl, rfl, rfl, rfl, rfl, rfl, ?_, ?_, ?_⟩,
    ⟨ids.tx, ?_⟩, ?_⟩
  · simp only [ha.charged, ha.points, ha.diamonds, Int.toNat_natCast]
  · simp [debitWrites_picks, List.filterMap_cons]
  · simp only [GiftOrder.stored, acceptedOrder, ha.charged, Int.toNat_natCast]
  · simp only [GiftOrder.stored, acceptedOrder, ha.points, Int.toNat_natCast]
  · simp only [GiftOrder.stored, acceptedOrder, ha.diamonds, Int.toNat_natCast]
  · simp [debitWrites_picks, List.filterMap_cons, ha.charged]
  · rw [debitWrites, ← ha.charged]
    simp [DB.balance, Write.apply, applyAll]

theorem runs_alone_giftDebit {a : GiftAmounts} {c : Option ℕ} (hu : req.Unsent d ids)
    (hv : Working t d (d.opening req.viewerID) ids v) (ha : PricedBy d req g a)
    (hg : (d.users req.viewerID).isSome → d.Sells req g) :
    ByPolicy calls t d ids req
      (giftDebit req (Platform.giftHash req) c a (d.balance req.viewerID)) v := by
  refine Runs.bind (runs_alone_now fun n => ?_)
  refine Runs.bind (runs_alone_sql hv fun rank v₁ hv₁ => ?_)
  rcases alone_insertWalletTx rank with ⟨hfit, heff⟩ | ⟨e, hres, hwrites, hno⟩
  · rw [heff] at hv₁ ⊢
    have husr := hfit.viewer
    rw [applyAll_users] at husr
    have hsells := hg husr
    dsimp only
    split
    · -- the generated id does not fit an `int64`
      next hlt =>
      refine runs_alone_pure (.declined (fun _ _ hs => ?_) fun _ h => by cases h)
      have htx := hs.txID
      have hone := hu.one_le.1
      rw [wrap64_of_bounds (by omega) (by omega)] at hlt
      omega
    next hlt =>
    obtain ⟨htx, hnat⟩ := wrap64_id hfit.txID hlt
    rw [hnat, sumLedgerEntries_neg, if_neg (by simp)]
    refine runs_alone_entries hu hv₁ fun v₂ hv₂ => ?_
    refine Runs.bind (runs_alone_now fun n' => ?_)
    refine Runs.bind (runs_alone_sql hv₂ fun rank v₃ hv₃ => ?_)
    have hsame : (applyAll (debitWrites d ids req a n) d).giftOrders = d.giftOrders := by
      rw [applyAll_giftOrders, debitWrites_picks.1, List.append_nil]
    rcases alone_insertGiftOrder rank with ⟨hofit, heff⟩ | ⟨e, hres, hwrites, hno⟩
    · rw [heff] at hv₃ ⊢
      have hoid : ids.order < 2 ^ 64 := hofit.orderID
      dsimp only
      split
      · next hlt =>
        refine runs_alone_pure (.declined (fun _ _ hs => ?_) fun _ h => by cases h)
        have horder := hs.orderID
        have hone := hu.one_le.2
        rw [wrap64_of_bounds (by omega) (by omega)] at hlt
        omega
      next hlt =>
      obtain ⟨horder, hnat⟩ := wrap64_id hoid hlt
      rw [hnat]
      refine runs_alone_giftEvents hv₃ rfl fun hev r r' u hdb hids => ?_
      rw [hdb]
      have hfree : ∀ o ∈ d.giftOrders, o.lock ≠ req.storedKey := hsame ▸ hofit.free
      exact .sold hsells ⟨hfit.requestID, hofit.giftID, hfree, htx, horder, hev⟩
        (sold_debitWrites ha) hids
    · rw [hwrites, List.append_nil] at hv₃
      rw [hres]
      refine runs_alone_refused hu hv₃ debitWrites_picks.1 fun _ _ hst => hno ?_ ?_
      · have h1 := hsells.charged
        have h2 := hsells.points
        have h3 := hsells.diamonds
        simp only [acceptedOrder, ha.charged, ha.points, ha.diamonds, Int.toNat_natCast]
        omega
      · exact ⟨hst.giftID, hst.requestID, lt_trans hst.orderID (by decide), hsame.symm ▸ hst.key⟩
  · rw [hwrites, List.append_nil] at hv₁
    rw [hres]
    refine runs_alone_refused hu hv₁ (by simp) fun _ hs hst => hno ?_
    refine ⟨hst.requestID, lt_trans hst.txID (by decide), ?_, fun x hx hk => ?_⟩
    · rw [applyAll_users]
      exact hs.viewer
    · obtain ⟨o, ho, hol⟩ := hu.debit x (by simpa using hx) hk
      exact hst.key o ho hol

theorem alone_upsertAccount {u : ℕ} (h : d.walletAccounts u ≠ none ∨ (d.users u).isSome)
    (rank : ℕ → ℕ) : (Stmt.upsertAccount u).alone d ids rank =
      ⟨.ok (), ids, d.opening u, [], [.wallet u]⟩ := by
  simp only [Stmt.alone, Stmt.run, DB.opening]
  cases ha : d.walletAccounts u with
  | some b => rfl
  | none => rw [if_pos (h.resolve_left fun hne => hne ha)]; rfl

theorem alone_upsertAccount_error {u : ℕ} (ha : d.walletAccounts u = none)
    (hu : ¬ (d.users u).isSome) (rank : ℕ → ℕ) :
    ((Stmt.upsertAccount u).alone d ids rank).res = .error .foreignKey := by
  simp only [Stmt.alone, Stmt.run, ha]
  rw [if_neg hu]

theorem alone_selectBalance {u : ℕ} {b : ℤ} (h : d.walletAccounts u = some b) (rank : ℕ → ℕ) :
    (Stmt.selectBalanceForUpdate u).alone d ids rank = ⟨.ok b, ids, [], [], [.wallet u]⟩ := by
  simp only [Stmt.alone, Stmt.run, h]

theorem runs_alone_uint32 {n : ℕ} {name : String} {Q : ℕ → World → Prop}
    {E : Ret GiftResponse → World → Prop} (hq : n ≤ 2 ^ 32 - 1 → Q n v)
    (he : ¬ n ≤ 2 ^ 32 - 1 → ∀ s, E (.err (.text s)) v) :
    Runs ((system calls).solo Choice.Ok) t (orText (int64ToUint32 n name)) Q E v := by
  unfold int64ToUint32
  split
  · exact runs_alone_throw (he (by omega) _)
  · exact runs_alone_pure (hq (by omega))

theorem runs_alone_giftCharge {c : Option ℕ} {m : Option LiveMatch} (hu : req.Unsent d ids)
    (hv : Working t d [] ids v) (hp : d.Permits req g) (hm : req.matchID.bind d.liveMatches = m) :
    ByPolicy calls t d ids req (giftCharge req (Platform.giftHash req) c g m) v := by
  subst hm
  have hone : ∀ {g'}, d.Sells req g' → g' = g := fun hs =>
    Option.some.inj (hs.gift.symm.trans hp.gift)
  by_cases hacc : d.walletAccounts req.viewerID ≠ none ∨ (d.users req.viewerID).isSome
  swap
  · rw [not_or, not_not] at hacc
    refine Runs.bind (runs_alone_do hv fun rank v₁ hv₁ => ?_)
    rw [applyAll_nil, alone_upsertAccount_error hacc.1 hacc.2]
    exact GiftEnds.declined (fun _ hs _ => hacc.2 hs.viewer) nofun
  refine Runs.bind (runs_alone_effect hv (alone_upsertAccount hacc) fun v₁ hv₁ => ?_)
  rw [List.nil_append] at hv₁
  refine Runs.bind (runs_alone_effect hv₁ (alone_selectBalance (applyAll_opening rfl))
    fun v₂ hv₂ => ?_)
  rw [List.append_nil, applyAll_nil] at hv₂
  rw [wrap64_product g.coinPrice_lt hu.quantity, applyAll_nil]
  dsimp only
  split
  · next hle =>
    refine runs_alone_pure (.declined (fun _ hs _ => ?_) nofun)
    have hpos := hs.positive
    rw [hone hs] at hpos
    omega
  next hpos =>
  refine Runs.bind (runs_alone_uint32 (fun hcharged => ?_) fun hlt s => ?_)
  swap
  · refine .declined (fun _ hs _ => hlt ?_) nofun
    rw [← hone hs]
    exact hs.charged
  split
  · next hlt =>
    refine runs_alone_reject hu hv₂ (by simp) fun _ hs _ => ?_
    have hcov := hs.covered
    rw [hone hs] at hcov
    exact absurd hcov (not_le_of_gt hlt)
  next hcov =>
  rw [giftMatchPoints_eq hu.quantity]
  refine Runs.bind (runs_alone_uint32 (fun hpoints => ?_) fun hlt s => ?_)
  swap
  · refine .declined (fun _ hs _ => hlt ?_) nofun
    rw [← hone hs]
    exact hs.points
  rw [wrap64_product g.diamondReward_lt hu.quantity]
  refine Runs.bind (runs_alone_uint32 (fun hdiamonds => ?_) fun hlt s => ?_)
  swap
  · refine .declined (fun _ hs _ => hlt ?_) nofun
    rw [← hone hs]
    exact hs.diamonds
  refine runs_alone_giftDebit hu hv₂ ⟨rfl, rfl, rfl⟩ fun husr => ?_
  exact ⟨hp, husr, by omega, hcharged, le_of_not_gt hcov, hpoints, hdiamonds⟩

theorem runs_alone_giftMatch {c : Option ℕ} (hu : req.Unsent d ids) (hv : Working t d [] ids v)
    (hp : (∀ id, req.matchID = some id → ∃ m, d.liveMatches id = some m ∧
      m.liveSessionID = req.liveSessionID ∧ m.status = .opened) → d.Permits req g) :
    ByPolicy calls t d ids req (giftMatch req (Platform.giftHash req) c g) v := by
  unfold giftMatch
  cases hid : req.matchID with
  | none =>
    refine runs_alone_giftCharge hu hv (hp ?_) (by rw [hid]; rfl)
    rw [hid]
    nofun
  | some id =>
    refine Runs.bind (runs_alone_read (q := .ok (d.liveMatches id)) hv (fun _ => ⟨_, _, rfl⟩)
      (fun a v₁ ha hv₁ => ?_) nofun)
    cases ha
    split
    · next hm =>
      refine runs_alone_reject hu hv₁ (by simp) fun _ hs _ => ?_
      obtain ⟨m, hm', -⟩ := hs.matched id hid
      cases hm.symm.trans hm'
    next m hm =>
    split
    · next hclosed =>
      refine runs_alone_reject hu hv₁ (by simp) fun _ hs _ => ?_
      obtain ⟨m', hm', hl, hst⟩ := hs.matched id hid
      cases hm.symm.trans hm'
      exact hclosed.elim (fun h => h hl) fun h => h hst
    · next hopen =>
      rw [not_or, not_not, not_not] at hopen
      refine runs_alone_giftCharge hu hv₁ (hp fun id' h => ?_) (by rw [hid]; exact hm)
      cases hid.symm.trans h
      exact ⟨m, hm, hopen⟩

theorem runs_alone_giftCreator {c : Option ℕ} (hu : req.Unsent d ids) (hv : Working t d [] ids v)
    (hp : (∃ u, d.users req.creatorID = some u ∧ u.MayReceive) →
      (∀ id, req.matchID = some id → ∃ m, d.liveMatches id = some m ∧
        m.liveSessionID = req.liveSessionID ∧ m.status = .opened) → d.Permits req g) :
    ByPolicy calls t d ids req
      (do if ← isCreatorEligible req.creatorID then giftMatch req (Platform.giftHash req) c g
          else rejectGift req (Platform.giftHash req) "CREATOR_NOT_ELIGIBLE" 403) v := by
  refine Runs.bind (Runs.bind (runs_alone_read (q := .ok (d.users req.creatorID)) hv
    (fun _ => ⟨_, _, rfl⟩) (fun a v₁ ha hv₁ => ?_) nofun))
  cases ha
  have hno : (∀ u, d.users req.creatorID = some u → ¬ u.MayReceive) →
      ∀ g, d.Sells req g → ¬ req.Storable d ids := fun hn g hs _ => by
    obtain ⟨u, hcreator, hmay⟩ := hs.creator
    exact hn u hcreator hmay
  split
  · next hnone =>
    refine runs_alone_pure (runs_alone_reject hu hv₁ (by simp) (hno fun u h => ?_))
    cases hnone.symm.trans h
  next u hsome =>
  refine runs_alone_pure ?_
  split
  · next hel =>
    exact runs_alone_giftMatch hu hv₁ fun hmatch => hp ⟨u, hsome, eligible_iff.mp hel⟩ hmatch
  · next hel =>
    refine runs_alone_reject hu hv₁ (by simp) (hno fun u' h hmay => hel ?_)
    cases hsome.symm.trans h
    exact eligible_iff.mpr hmay

theorem runs_alone_giftPolicy (hu : req.Unsent d ids) (hv : Working t d [] ids v) :
    ByPolicy calls t d ids req (giftPolicy req (Platform.giftHash req)) v := by
  cases hx : d.liveSessions req.liveSessionID with
  | none =>
    refine Runs.bind (runs_alone_read (q := .ok none) hv (fun _ => ?_) (fun a v₁ ha hv₁ => ?_)
      fun _ _ h => by cases h)
    · simp only [Stmt.alone, Stmt.run, hx]
      exact ⟨_, _, rfl⟩
    cases ha
    refine runs_alone_reject hu hv₁ (by simp) fun _ hs _ => ?_
    obtain ⟨x, hx', -⟩ := hs.session
    cases hx.symm.trans hx'
  | some x =>
  obtain ⟨-, hscan⟩ := (scanNullInt64_cases x.campaignID).resolve_right <| by
    rintro ⟨⟨n, hn, hbig⟩, -⟩
    exact hbig (hu.campaign x hx n hn)
  refine Runs.bind (runs_alone_read (q := .ok (some (x.status, x.campaignID))) hv (fun _ => ?_)
    (fun a v₁ ha hv₁ => ?_) fun _ _ h => by cases h)
  · simp only [Stmt.alone, Stmt.run, hx, hscan]
    exact ⟨_, _, rfl⟩
  cases ha
  dsimp only
  split
  · next hclosed =>
    refine runs_alone_reject hu hv₁ (by simp) fun _ hs _ => ?_
    obtain ⟨x', hx', hopen⟩ := hs.session
    cases hx.symm.trans hx'
    exact hclosed hopen
  next hopen =>
  refine Runs.bind (runs_alone_read (q := .ok (d.giftCatalog.find? fun y =>
    Platform.collate y.giftID = Platform.collate req.giftID)) hv₁ (fun _ => ⟨_, _, rfl⟩)
    (fun a v₂ ha hv₂ => ?_) fun _ _ h => by cases h)
  cases ha
  split
  · next hg =>
    refine runs_alone_reject hu hv₂ (by simp) fun _ hs _ => ?_
    cases hg.symm.trans hs.gift
  next g hg =>
  split
  · next hdis =>
    refine runs_alone_reject hu hv₂ (by simp) fun _ hs _ => ?_
    cases hg.symm.trans hs.gift
    exact hdis hs.enabled
  next hen =>
  refine runs_alone_giftCreator hu hv₂ fun hcreator hmatch => ?_
  exact ⟨⟨x, hx, not_not.mp hopen⟩, hg, not_not.mp hen, hcreator, hmatch⟩

theorem runs_alone_sendGiftTx (hu : req.Unsent d ids) (hv : Working t d [] ids v) :
    ByPolicy calls t d ids req (sendGiftTx req (Platform.giftHash req)) v :=
  Runs.bind (runs_alone_unrecorded hu hv rfl fun _ hv₁ => runs_alone_giftPolicy hu hv₁)

/-- A valid call that nobody disturbs ends by the policy, and leaves no lock behind. -/
theorem safe_alone_sendGift {w : World} (hu : req.Unsent w.db w.ids) (hval : req.Valid)
    (hw : w.Unlocked t) : Safe ((system calls).solo Choice.Ok) t
      (fun o w' => ∃ r, o = .gifted r ∧ GiftEnds w.db w.ids req r w'.db w'.ids ∧ ∀ u, w'.Unlocked u)
      (Call.sendGift req).program w := by
  have hsend : Safe ((system calls).solo Choice.Ok) t
      (fun r w' => GiftEnds w.db w.ids req r w'.db w'.ids ∧ ∀ u, w'.Unlocked u)
      (sendGift req) w := by
    unfold sendGift
    rw [if_neg hval.1, if_neg (by have := hval.2.1; omega), if_neg hval.2.2]
    exact safe_alone_withTx hw fun v hv => runs_alone_sendGiftTx hu hv
  refine (hsend.mono fun r v _ h => ?_).bind
  rintro v' hv' -
  obtain rfl : v' = v := hv'
  exact ⟨r, rfl, h⟩

theorem reach_unsent {w : World} {s : State} {K : State → Act Choice → State → Prop} (hs : Start w)
    (hx : w.db.walletTxs = []) (h : (system calls).Reach K (Pool.fresh w) s) (hval : req.Valid)
    (hviewer : req.viewerID < 2 ^ 64) (hcampaign : s.world.db.CampaignScans req.liveSessionID)
    (hno : ∀ o ∈ s.world.db.giftOrders, o.lock ≠ req.key) :
    req.Unsent s.world.db s.world.ids where
  order := hno
  debit x hm hk := by
    have hi := (reach_good (.any calls w) hs Env.any_allows h).1
    refine (hi.order_of_debit ⟨x, hm, hk⟩).resolve_right ?_
    rintro ⟨y, hy, -⟩
    rw [show (Env.any calls w).start.db.walletTxs = [] from hx] at hy
    cases hy
  campaign := hcampaign
  below := (reach_good (.any calls w) hs Env.any_allows h).1.engine.below
  one_le := by
    obtain ⟨h1, h2, -⟩ := (reach_good (.any calls w) hs Env.any_allows h).1.engine.one_le
    exact ⟨h1, h2⟩
  viewerID := hviewer
  quantity := hval.2.1.2

theorem exists_sold {s : State} (hc : calls t = .sendGift req) (hidle : s.threads t = .idle)
    (hfree : s.world.Unlocked t) (hu : req.Unsent s.world.db s.world.ids) (hval : req.Valid)
    (hg : s.world.db.Sells req g) (hst : req.Storable s.world.db s.world.ids) :
    ∃ s' resp, (system calls).Reach (Only Choice.Ok t) s s' ∧
      Sold s.world.db s'.world.db req g resp ∧
      s'.world.ids = ⟨s.world.ids.tx + 1, s.world.ids.order + 1, s.world.ids.event + 2⟩ ∧
      ∀ u, s'.world.Unlocked u := by
  obtain ⟨s', o, hr, -, r, -, hends, hfree'⟩ :=
    Machine.exists_reach_only_program (M := system calls) hidle
      (show (calls t).ready s.world = true by rw [hc]; rfl)
      (show Safe _ t _ (calls t).program s.world from hc ▸ safe_alone_sendGift hu hval hfree)
  obtain ⟨resp, -, hsold, hids⟩ := hends.1 g hg hst
  exact ⟨s', resp, hr, hsold, hids, hfree'⟩

end Run

/-- In a reachable state, a valid request without an order of its key, to a session whose campaign
id is below 2^63, ends when run alone; it is accepted exactly if the policy sells the gift and the
tables can store it, and then response, order and entries carry the exact amounts. -/
theorem gift_policy_exact (calls : ℕ → Call) {w : World} (hs : Start w) (hx : w.db.walletTxs = [])
    {s : State} (h : (system calls).Reach (fun _ _ _ => True) (Pool.fresh w) s) {t : ℕ}
    {req : GiftRequest} (hc : calls t = .sendGift req) (hidle : s.threads t = .idle)
    (hclear : s.world.Undisturbed t) (hval : req.Valid) (hviewer : req.viewerID < 2 ^ 64)
    (hcampaign : s.world.db.CampaignScans req.liveSessionID)
    (hno : ∀ o ∈ s.world.db.giftOrders, o.lock ≠ req.key) :
    (∃ s' r, (system calls).Reach (Only Choice.Ok t) s s' ∧
      (s'.threads t).result? = some (.gifted r)) ∧
    ∀ s' r, (system calls).Reach (Only Choice.Ok t) s s' →
      (s'.threads t).result? = some (.gifted r) →
      ((∃ resp, r = .ok resp) ↔
        (∃ g, s.world.db.Sells req g) ∧ req.Storable s.world.db s.world.ids) ∧
      ∀ resp, r = .ok resp →
        ∃ g, s.world.db.Sells req g ∧ Sold s.world.db s'.world.db req g resp := by
  have hsafe : Safe ((system calls).solo Choice.Ok) t (fun o w' => ∃ r, o = .gifted r ∧
      GiftEnds s.world.db s.world.ids req r w'.db w'.ids ∧ ∀ u, w'.Unlocked u)
      (calls t).program s.world :=
    hc ▸ safe_alone_sendGift (reach_unsent hs hx h hval hviewer hcampaign hno) hval
      (reach_unlocked hs h hclear)
  constructor
  · obtain ⟨s', o, hr, ho, r, rfl, -⟩ := Machine.exists_reach_only_program (M := system calls) hidle
      (show (calls t).ready s.world = true by rw [hc]; rfl) hsafe
    exact ⟨s', r, hr, ho⟩
  intro s' r hr hres
  obtain ⟨r', he, ⟨hsells, hdeclines⟩, -⟩ := Machine.reach_only_program hidle hsafe hr hres
  cases he
  -- a response means that the policy allows the gift
  have hallowed : ∀ resp, r = .ok resp →
      ∃ g, s.world.db.Sells req g ∧ req.Storable s.world.db s.world.ids := by
    intro resp hok
    by_contra hnot
    exact hdeclines (fun g hg hst => hnot ⟨g, hg, hst⟩) resp hok
  refine ⟨⟨?_, ?_⟩, ?_⟩
  · rintro ⟨resp, hok⟩
    obtain ⟨g, hg, hst⟩ := hallowed resp hok
    exact ⟨⟨g, hg⟩, hst⟩
  · rintro ⟨⟨g, hg⟩, hst⟩
    obtain ⟨resp, hok, -⟩ := hsells g hg hst
    exact ⟨resp, hok⟩
  · intro resp hok
    obtain ⟨g, hg, hst⟩ := hallowed resp hok
    obtain ⟨resp', hok', hsold, -⟩ := hsells g hg hst
    cases hok.symm.trans hok'
    exact ⟨g, hg, hsold⟩

end General

section Witness

open Plain

def rose : Gift := ⟨"ROSE", 1, 1, 1, true, one_lt_uint32, one_lt_uint32, one_lt_uint32⟩

def roses (requestID : String) : GiftRequest :=
  ⟨requestID, 2001, 1001, 9001, some 8001, "ROSE", 3, 0⟩

def sendRoses (requestID : String) : ℕ → Call := fun _ => .sendGift (roses requestID)

theorem sells_roses (requestID : String) : migrated.Sells (roses requestID) rose where
  session := ⟨_, rfl, rfl⟩
  gift := rfl
  enabled := rfl
  creator := ⟨_, rfl, eligible_iff.mp (by decide +kernel)⟩
  matched k hk := by
    cases hk
    exact ⟨_, rfl, rfl, rfl⟩
  viewer := rfl
  positive := Nat.succ_pos 2
  charged := show 3 ≤ 2 ^ 32 - 1 by decide
  covered := show (3 : ℤ) ≤ 1000 by decide
  points := show 3 ≤ 2 ^ 32 - 1 by decide
  diamonds := show 3 ≤ 2 ^ 32 - 1 by decide

/-- Under the id "g1" the roses are sold for three coins. -/
theorem gift_policy_exact_roses : ∃ (s : State) (resp : GiftResponse),
    (s.threads 0).result? = some (.gifted (.ok resp)) ∧
      Sold migrated s.world.db (roses "g1") rose resp := by
  have hstart : Start (World.boot migrated) := Start.boot rfl rfl rfl rfl
  have hcampaign : migrated.CampaignScans 9001 := by
    intro x hx c hc
    cases hx
    cases hc
    decide
  obtain ⟨⟨s, r, hr, hres⟩, hall⟩ := gift_policy_exact (sendRoses "g1") hstart rfl .refl
    (show sendRoses "g1" 0 = .sendGift (roses "g1") from rfl) rfl (fun _ _ => rfl)
    ⟨by decide +kernel, by decide, by decide⟩ (by decide) hcampaign (fun o ho => by cases ho)
  obtain ⟨hiff, hsold⟩ := hall s r hr hres
  obtain ⟨resp, rfl⟩ := hiff.mpr ⟨⟨_, sells_roses "g1"⟩, by decide +kernel, by decide +kernel,
    fun o ho => (by cases ho), by decide, by decide, by decide⟩
  obtain ⟨g, hg, hsold⟩ := hsold resp rfl
  cases hg.gift.symm.trans (sells_roses "g1").gift
  exact ⟨s, resp, hres, hsold⟩

/-- With a request id of 65 characters nothing is sold, although the policy allows it. -/
theorem policy_not_sufficient : ∃ (requestID : String) (s : State),
    (roses requestID).Valid ∧ migrated.Sells (roses requestID) rose ∧
    (system (sendRoses requestID)).Reach (Only Choice.Ok 0) (Pool.fresh (World.boot migrated)) s ∧
    (s.threads 0).result? = some (.gifted (.err (.sql .dataTooLong))) := by
  obtain ⟨s, hr, hp⟩ := Machine.exists_reach
    (M := system (sendRoses (String.ofList (List.replicate 65 'g'))))
    (s := Pool.fresh (World.boot migrated)) (K := fun s a s' => decide (Only Choice.Ok 0 s a s'))
    (p := fun s => decide ((s.threads 0).result? = some (.gifted (.err (.sql .dataTooLong)))))
    (launch 0 11 5) (by decide +kernel)
  exact ⟨_, s, ⟨by decide +kernel, by decide, by decide⟩, sells_roses _,
    hr.mono fun _ _ _ hk => of_decide_eq_true hk, of_decide_eq_true hp⟩

end Witness

end LiveRevenue
