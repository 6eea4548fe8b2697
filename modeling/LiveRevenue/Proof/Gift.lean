import LiveRevenue.Proof.Statements

/-! # SendGift commits legal transactions

A gift ends in one of four ways: the recorded outcome of its key, a new accepted
order, a new rejected order, or an error that leaves no trace. The duplicate-key
exits need the pairing of orders and debits that every legal history has.
-/

namespace LiveRevenue

open Transact

theorem DB.Grows.campaign {d d' : DB} (hg : d.Grows d') {id : ℕ} {c : Option ℕ} :
    (∃ s, d'.liveSessions id = some s ∧ s.campaignID = c) ↔
      ∃ s, d.liveSessions id = some s ∧ s.campaignID = c := by
  have h := hg.sessionFixed id
  cases hd : d.liveSessions id <;> cases hd' : d'.liveSessions id <;>
    simp_all [LiveSession.fixed]

section Opening

variable {req : GiftRequest} {d : DB} {ws : List Write} {pins : List (Lock × DB)}

def Idle (req : GiftRequest) (cs : List (List Write)) : Prop :=
  ∀ ws ∈ cs, ws = [] ∨ ws = [.openAccount req.viewerID]

theorem idle_opening : Idle req [d.opening req.viewerID] := by
  intro ws hws
  rw [List.mem_singleton.mp hws]
  unfold DB.opening
  split
  · exact .inr rfl
  · exact .inl rfl

def Opening (req : GiftRequest) (ws : List Write) (pins : List (Lock × DB)) : Prop :=
  ws = [] ∨ ∃ d : DB, ws = d.opening req.viewerID ∧ (Lock.wallet req.viewerID, d) ∈ pins

theorem Opening.giftOrders (h : Opening req ws pins) : ws.filterMap Write.giftOrder? = [] := by
  obtain rfl | ⟨d, rfl, -⟩ := h
  · rfl
  · exact filterMap_opening rfl

end Opening

variable [Platform] {𝓔 : Env} {t : ℕ} {req : GiftRequest}

/-- The unique key under which the order of a request is looked up. -/
def GiftRequest.key (req : GiftRequest) : Lock :=
  .giftOrderKey req.viewerID (Platform.collate req.requestID)

/-- The unique key under which it is stored. -/
def GiftRequest.storedKey (req : GiftRequest) : Lock :=
  .giftOrderKey req.viewerID (Platform.collate (Varchar.store 64 req.requestID))

theorem storedKey_eq {req : GiftRequest} (hexact : Varchar.Exact 64 req.requestID)
    (hfits : Varchar.refuses 64 req.requestID = false) : req.storedKey = req.key := by
  rw [GiftRequest.storedKey, hexact hfits, GiftRequest.key]

def GiftRequest.debitKey (req : GiftRequest) : Lock :=
  .walletTxKey req.viewerID .giftDebit (Platform.collate (Varchar.store 64 req.requestID))

def GiftRequest.Valid (req : GiftRequest) : Prop :=
  ¬ (isBlank req.requestID ∨ req.viewerID = 0 ∨ req.creatorID = 0 ∨ req.liveSessionID = 0 ∨
    isBlank req.giftID) ∧ (1 ≤ req.quantity ∧ req.quantity ≤ 99) ∧ req.viewerID ≠ req.creatorID

/-- The answer that a recorded order of the key demands. -/
inductive Recorded (req : GiftRequest) (d : DB) : AppError ⊕ GiftResponse → Prop where
  | mismatch {o : GiftOrder} : o ∈ d.giftOrders → o.lock = req.key →
      o.bodyHash ≠ Platform.giftHash req → Recorded req d (.inl payloadMismatch)
  | accepted {o : GiftOrder} : o ∈ d.giftOrders → o.lock = req.key →
      o.bodyHash = Platform.giftHash req → o.status = .accepted → Recorded req d (.inr o.replay)
  | rejected {o : GiftOrder} : o ∈ d.giftOrders → o.lock = req.key →
      o.bodyHash = Platform.giftHash req → o.status ≠ .accepted →
      Recorded req d (.inl (mapRejectCodeToAppError (o.rejectCode.getD "REJECTED")))

theorem Recorded.mono {d d' : DB} {x : AppError ⊕ GiftResponse} (h : Recorded req d x)
    (hg : d.Grows d') : Recorded req d' x := by
  cases h with
  | mismatch ho hk hh => exact .mismatch (hg.giftOrders.subset ho) hk hh
  | accepted ho hk hh hs => exact .accepted (hg.giftOrders.subset ho) hk hh hs
  | rejected ho hk hh hs => exact .rejected (hg.giftOrders.subset ho) hk hh hs

def recordedResult : AppError ⊕ GiftResponse → Ret GiftResponse
  | .inl e => .app e
  | .inr r => .ok r

/-- Results of a gift, with the rows of `d` they rest on and the commits `cs` made. -/
inductive GiftDone (𝓔 : Env) (t : ℕ) (req : GiftRequest) (d : DB) (cs : List (List Write)) :
    Ret GiftResponse → Prop where
  | invalid {e : AppError} : ¬ req.Valid → cs = [] → e.code = "VALIDATION_ERROR" →
      GiftDone 𝓔 t req d cs (.app e)
  | failed {e : Err} : (e = .sql .dupKey → Varchar.Exact 64 req.requestID →
        ∃ x ∈ 𝓔.start.db.walletTxs, x.lock = req.debitKey) →
      (cs = [] ∨ e = .sql .infra ∧ 𝓔.Losing t) → GiftDone 𝓔 t req d cs (.err e)
  | recorded {x : AppError ⊕ GiftResponse} : Recorded req d x → Idle req cs →
      GiftDone 𝓔 t req d cs (recordedResult x)
  | created {d' : DB} (p : Accepted req d') : p.order ∈ d.giftOrders → cs = [p.writes] →
      GiftDone 𝓔 t req d cs (.ok p.response)
  | rejected {d' : DB} (p : Rejected req d') : p.order ∈ d.giftOrders → cs = [p.writes] →
      GiftDone 𝓔 t req d cs (.app p.error)

theorem GiftDone.mono {d d' : DB} {cs : List (List Write)} {r : Ret GiftResponse}
    (h : GiftDone 𝓔 t req d cs r) (hg : d.Grows d') : GiftDone 𝓔 t req d' cs r := by
  cases h with
  | invalid hv hc he => exact .invalid hv hc he
  | failed hf hc => exact .failed hf hc
  | recorded hx hc => exact .recorded (hx.mono hg) hc
  | created p hp hc => exact .created p (hg.giftOrders.subset hp) hc
  | rejected p hp hc => exact .rejected p (hg.giftOrders.subset hp) hc

def GiftPost (𝓔 : Env) (t : ℕ) (req : GiftRequest) (r : Ret GiftResponse) (w : World) : Prop :=
  GiftDone 𝓔 t req w.db (w.store.committedBy t) r

theorem Accepted.plain {d : DB} (p : Accepted req d) : ∀ x ∈ p.writes, x.backed = false := by
  intro x hx
  rcases List.mem_append.mp hx with hx | hx
  · exact posting_plain x hx
  · simp only [List.mem_cons, List.not_mem_nil, or_false] at hx
    rcases hx with rfl | rfl | rfl <;> rfl

theorem Rejected.plain {d : DB} (p : Rejected req d) : ∀ x ∈ p.writes, x.backed = false := by
  intro x hx
  rcases List.mem_append.mp hx with hx | hx
  · split at hx
    · exact opening_plain x hx
    · cases hx
  · rcases List.mem_pair.mp hx with rfl | rfl <;> rfl

structure Policy (req : GiftRequest) (d : DB) (campaignID : Option ℕ) (g : Gift)
    (m : Option LiveMatch) : Prop where
  gift_eq : d.giftCatalog.find? (fun x => Platform.collate x.giftID = Platform.collate req.giftID) =
    some g
  enabled : g.enabled = true
  quantity_le : req.quantity ≤ 99
  campaign : ∃ s, d.liveSessions req.liveSessionID = some s ∧ s.campaignID = campaignID
  creator : ∃ u, d.users req.creatorID = some u ∧ eligible u = true
  match_eq : m = req.matchID.bind d.liveMatches
  match_ok : ∀ id, req.matchID = some id → ∃ x, m = some x ∧
    x.liveSessionID = req.liveSessionID ∧ x.status = .opened

theorem Policy.mono {d d' : DB} {c : Option ℕ} {g : Gift} {m : Option LiveMatch}
    (h : Policy req d c g m) (hg : d.Grows d') : Policy req d' c g m where
  gift_eq := by rw [hg.giftCatalog]; exact h.gift_eq
  enabled := h.enabled
  quantity_le := h.quantity_le
  campaign := hg.campaign.mpr h.campaign
  creator := by rw [hg.users]; exact h.creator
  match_eq := by rw [hg.liveMatches]; exact h.match_eq
  match_ok := h.match_ok

structure Priced (req : GiftRequest) (g : Gift) (m : Option LiveMatch) (balance : ℤ)
    (a : GiftAmounts) : Prop where
  charged_eq : a.charged = wrap64 (g.coinPrice * req.quantity)
  matchPoints_eq : a.matchPoints = giftMatchPoints req g m
  diamondReward_eq : a.diamondReward = wrap64 (g.diamondReward * req.quantity)
  charged_pos : 0 < a.charged
  charged_lt : a.charged < 2 ^ 32
  matchPoints_nonneg : 0 ≤ a.matchPoints
  diamondReward_nonneg : 0 ≤ a.diamondReward
  covered : a.charged ≤ balance

section Body

variable {w u v : World} {ws : List Write} {pins : List (Lock × DB)} {s : Stmt} {e : SqlErr}

theorem gift_failed (hf : Fails 𝓔 t ws s u e) (hv : At 𝓔 t ws pins u v)
    (h : s.inserts = true → e ≠ .dupKey) : GiftPost 𝓔 t req (retErr e) v := by
  refine .failed (fun he => ?_) (.inl hv.own.committed)
  have hdup : e = .dupKey := Err.sql.inj he
  subst hdup
  cases hf with
  | error _ he =>
    cases hs : s.inserts with
    | true => exact absurd rfl (h hs)
    | false => exact absurd he (run_ne_dupKey hs)

/-- After an error from `COMMIT` it is not known what was committed. -/
theorem gift_unknown {applied : Bool} (hp : 𝓔.permit t .commit (.fault applied) u)
    (hd : Done t (if applied then [ws] else []) v) : GiftPost 𝓔 t req (retErr .infra) v :=
  .failed (fun he => by cases he) ((hd.unless_lost hp).imp_right fun hl => ⟨rfl, hl⟩)

theorem gift_text {msg : String} (own : Own t ws pins w) :
    Runs 𝓔.logic t (pure (.err (.text msg)) : GiftBody (Ret GiftResponse)) (GiftPost 𝓔 t req)
      (GiftPost 𝓔 t req) w :=
  Runs.pure fun _ hv _ => .failed (fun he => by cases he) (.inl (own.rely hv).committed)

theorem Inv.accepted (hi : Inv 𝓔 u) (hc : 𝓔.calls t = .sendGift req) (p : Accepted req u.db) :
    Txn 𝓔.start.db u.store.binlog (𝓔.calls t) p.writes := by
  rw [hc]
  exact hi.txn (P := Accepted req) (W := fun _ p => p.writes) .accepted p

theorem Inv.rejected (hi : Inv 𝓔 u) (hc : 𝓔.calls t = .sendGift req) (p : Rejected req u.db) :
    Txn 𝓔.start.db u.store.binlog (𝓔.calls t) p.writes := by
  rw [hc]
  exact hi.txn (P := Rejected req) (W := fun _ p => p.writes) .rejected p

theorem Inv.opened (hi : Inv 𝓔 u) (hc : 𝓔.calls t = .sendGift req) :
    Txn 𝓔.start.db u.store.binlog (𝓔.calls t) (u.db.opening req.viewerID) := by
  unfold DB.opening
  split
  · next h =>
    rw [hc]
    exact .opened (hi.db_eq ▸ Option.isNone_iff_eq_none.mp h)
  · exact .nothing _

theorem runs_commit_recorded {x : AppError ⊕ GiftResponse} (hc : 𝓔.calls t = .sendGift req)
    (hws : Opening req ws pins) (own : Own t ws pins w) (hx : Recorded req w.db x) :
    Runs 𝓔.logic t (commitTx retErr >>= fun _ => pure (recordedResult x)) (GiftPost 𝓔 t req)
      (GiftPost 𝓔 t req) w := by
  refine runs_commit_return own
    (fun _ _ _ _ _ hp _ _ _ hd => gift_unknown hp hd) fun y hy => ?_
  obtain rfl | ⟨d, rfl, hp⟩ := hws
  · refine ⟨[], rfl, .nothing _, .plain (by rw [hc]; rfl) (by simp), fun z _ hl _ hd => ?_⟩
    refine .recorded (hx.mono (hy.later.grows.trans hl.grows)) ?_
    rw [hd.committed]
    exact fun _ h => .inl (List.mem_singleton.mp h)
  · have ho : y.db.opening req.viewerID = d.opening req.viewerID :=
      DB.opening_congr (hy.own.account hp)
    refine ⟨y.db.opening req.viewerID, ho.symm, hy.inv.opened hc,
      Backed.plain (by rw [hc]; rfl) opening_plain, fun z _ hl _ hd => ?_⟩
    refine .recorded (hx.mono (hy.later.grows.trans hl.grows)) ?_
    rw [hd.committed]
    exact idle_opening

theorem runs_replay {Q : Option (AppError ⊕ GiftResponse) → World → Prop} (own : Own t ws pins w)
    (hws : ws.filterMap Write.giftOrder? = [])
    (hnone : ∀ u v, At 𝓔 t ws pins w u → (∀ o ∈ u.db.giftOrders, o.lock ≠ req.key) →
      At 𝓔 t ws pins w v → Q none v)
    (hsome : ∀ x v, Recorded req v.db x → At 𝓔 t ws pins w v → Q (some x) v) :
    Runs 𝓔.logic t (replayGiftIfExists req (Platform.giftHash req)) Q (GiftPost 𝓔 t req) w := by
  unfold replayGiftIfExists
  refine Runs.bind
    (runs_txDo own nofun (fun e u v hu hf hv => ?_) fun r _ rank u v hu _ hr hv => ?_)
  · exact gift_failed hf hv fun h => by cases h
  have hfind : r = u.db.giftOrders.find? fun o => o.lock = req.key := by
    simp only [World.effect, Stmt.run, applyAll_giftOrders, hws, List.append_nil] at hr
    split at hr
    · next o ho => cases hr; exact ho.symm
    · next ho => cases hr; exact ho.symm
  have hw : (u.effect t ws (.selectGiftOrderForUpdate req.viewerID req.requestID) rank).writes = []
      := by
    simp only [World.effect, Stmt.run]
    split <;> rfl
  have hg := hv.later.grows
  have hv := hu.read hv hw
  cases r with
  | none =>
    exact Runs.pure fun x hx hi => hnone u x hu
      (fun o ho he => List.find?_eq_none.mp hfind.symm o ho (decide_eq_true he)) (hv.rely hx hi)
  | some o =>
    have hm : o ∈ u.db.giftOrders := List.mem_of_find?_eq_some hfind.symm
    have hk : o.lock = req.key := by simpa using List.find?_some hfind.symm
    dsimp only
    split
    · next hh =>
      refine Runs.pure fun x hx hi => hsome _ x (Recorded.mono (.mismatch hm hk fun he => ?_)
        (hg.trans hx.store.grows)) (hv.rely hx hi)
      rw [(bytesEqual_iff _ _).mpr he] at hh
      cases hh
    · next hh =>
      have hh : o.bodyHash = Platform.giftHash req :=
        (bytesEqual_iff _ _).mp (Bool.not_eq_false _ ▸ hh)
      split
      · next hs =>
        exact Runs.pure fun x hx hi => hsome _ x
          (Recorded.mono (.accepted hm hk hh hs) (hg.trans hx.store.grows)) (hv.rely hx hi)
      · next hs =>
        exact Runs.pure fun x hx hi => hsome _ x
          (Recorded.mono (.rejected hm hk hh hs) (hg.trans hx.store.grows)) (hv.rely hx hi)

theorem order_of_dup {o : GiftOrder} (hf : Fails 𝓔 t ws (.insertGiftOrder o) u e)
    (hdup : isDupKey e = true) (hws : ws.filterMap Write.giftOrder? = []) :
    Varchar.refuses 64 o.requestID = false ∧ ∃ x ∈ u.db.giftOrders, x.lock = o.stored.lock := by
  obtain rfl := eq_dupKey hdup
  cases hf with
  | error _ he =>
    obtain ⟨hfits, x, hx, hk⟩ := run_insertGiftOrder_dup he
    simp only [applyAll_giftOrders, hws, List.append_nil] at hx
    exact ⟨hfits, x, hx, hk⟩

/-- `rejectGift`, after the upsert of the wallet where the balance is too low. -/
theorem runs_rejectGift {code : String} {status : ℕ} {d : DB} (hc : 𝓔.calls t = .sendGift req)
    (hcode : (code, status) ∈ rejections)
    (hws : ws = if code = "INSUFFICIENT_BALANCE" then d.opening req.viewerID else [])
    (hp : code = "INSUFFICIENT_BALANCE" → (Lock.wallet req.viewerID, d) ∈ pins)
    (own : Own t ws pins w) :
    Runs 𝓔.logic t (rejectGift req (Platform.giftHash req) code status) (GiftPost 𝓔 t req)
      (GiftPost 𝓔 t req) w := by
  have hopen : Opening req ws pins := by
    rw [hws]
    split
    · next h => exact .inr ⟨d, rfl, hp h⟩
    · exact .inl rfl
  unfold rejectGift
  refine Runs.bind (runs_now own fun orderAt v hv => ?_)
  refine Runs.bind (runs_insertGiftOrder hv.own (fun e u v hu hf hv => ?_)
    fun id d' v _ hid hfits hkey hv => ?_)
  · -- another call has recorded the key meanwhile
    dsimp only
    split
    · next hdup =>
      obtain ⟨hfits, o, ho, hk⟩ := order_of_dup hf hdup hopen.giftOrders
      refine Runs.bind (runs_replay hv.own hopen.giftOrders (fun x y hx hno hy => ?_)
        fun x y hx hy => ?_)
      · refine Runs.pure fun z hz hi => .failed (fun _ hexact => ?_)
          (.inl (hy.rely hz hi).own.committed)
        exact absurd (hk.trans (storedKey_eq hexact hfits))
          (hno o ((hv.later.grows.trans hx.later.grows).giftOrders.subset ho))
      · cases x with
        | inl appErr => exact runs_commit_recorded hc hopen hy.own hx
        | inr replayed =>
          refine Runs.pure fun z hz _ => .recorded (hx.mono hz.store.grows) ?_
          rw [hz.store.committed, hy.own.committed]
          exact fun _ h => by cases h
    · next hdup =>
      refine Runs.pure fun x hx hi => gift_failed hf (hv.rely hx hi) fun _ he => ?_
      subst he
      exact hdup rfl
  refine Runs.bind (runs_now hv.own fun eventAt v hv => ?_)
  refine Runs.bind (runs_insertOutbox hv.own (fun e u v hu hf hv => ?_)
    fun eid d₃ v hev _ hv => ?_)
  · exact gift_failed hf hv fun h => by cases h
  refine runs_commit_return hv.own
    (fun _ _ _ _ _ hp _ _ _ hd => gift_unknown hp hd) fun x hx => ?_
  let p : Rejected req x.db := ⟨code, status, id, eid, orderAt, eventAt, hcode, hfits,
    hx.own.newEvent (by simp) hev,
    hx.own.newOrder (by simp [rejectedOrder, GiftOrder.stored, GiftOrder.lock]) (by simp) hkey hid⟩
  refine ⟨p.writes, ?_, hx.inv.rejected hc p, .plain (by rw [hc]; rfl) p.plain,
    fun v _ _ hg hd => .rejected p (hg.giftOrders.subset (by simp)) hd.committed⟩
  rw [hws, List.append_assoc]
  unfold Rejected.writes
  split
  · next h =>
    have hacc : x.db.walletAccounts req.viewerID = d.walletAccounts req.viewerID :=
      hx.own.account (by simp [hp h])
    rw [DB.opening_congr hacc]
    rfl
  · rfl

section Accept

variable {campaignID : Option ℕ} {g : Gift} {m : Option LiveMatch} {a : GiftAmounts} {d d' : DB}
  {txID txAt : ℕ}

def GiftRequest.debit (req : GiftRequest) (txID txAt : ℕ) : WalletTx :=
  ⟨txID, .giftDebit, req.viewerID, Varchar.store 64 req.requestID, Platform.giftHash req, txAt⟩

theorem runs_giftEvents {d₃ : DB} {orderID orderAt : ℕ} (hc : 𝓔.calls t = .sendGift req)
    (hviewer : 𝓔.start.db.users req.viewerID ≠ none)
    (hpol : Policy req 𝓔.start.db campaignID g m)
    (hpr : Priced req g m (d.balance req.viewerID) a) (hlast : ∀ r ∈ d.walletTxs, r.txID < txID)
    (hid : d'.NewTxID txID)
    (hkey : d'.NewTxKey req.viewerID .giftDebit (Varchar.store 64 req.requestID))
    (hfits : Varchar.refuses 32 req.giftID = false ∧ Varchar.refuses 64 req.requestID = false)
    (hoid : ∀ r ∈ d₃.giftOrders, r.giftOrderID ≠ orderID)
    (hokey : ∀ r ∈ d₃.giftOrders, r.lock ≠ req.storedKey)
    (own : Own t (posting d (req.debit txID txAt) "PLATFORM_RESERVED_COINS" (-a.charged)
        (d.balance req.viewerID - a.charged) ++
        [Write.giftOrder { (acceptedOrder req (Platform.giftHash req) a
          (d.balance req.viewerID - a.charged) orderAt).stored with giftOrderID := orderID }])
      [(.wallet req.viewerID, d), (req.debitKey, d'), (.walletTx txID, d'), (req.storedKey, d₃),
        (.giftOrder orderID, d₃)] w) :
    Runs 𝓔.logic t (giftEvents req campaignID a (d.balance req.viewerID - a.charged) txID orderID)
      (GiftPost 𝓔 t req) (GiftPost 𝓔 t req) w := by
  unfold giftEvents
  refine Runs.bind (runs_now own fun walletAt v hv => ?_)
  refine Runs.bind (runs_insertOutbox hv.own (fun e u v hu hf hv => ?_)
    fun eid d₄ v hev _ hv => ?_)
  · exact gift_failed hf hv fun h => by cases h
  refine Runs.bind (runs_now hv.own fun giftAt v hv => ?_)
  refine Runs.bind (runs_insertOutbox hv.own (fun e u v hu hf hv => ?_)
    fun gid d₅ v hgev hne hv => ?_)
  · exact gift_failed hf hv fun h => by cases h
  refine runs_commit_return hv.own
    (fun _ _ _ _ _ hp _ _ _ hd => gift_unknown hp hd) fun x hx => ?_
  have hpol := hpol.mono hx.inv.grows
  obtain ⟨session, hs, rfl⟩ := hpol.campaign
  have hacc : x.db.walletAccounts req.viewerID = d.walletAccounts req.viewerID :=
    hx.own.account (by simp)
  have hb := DB.balance_congr hacc
  rw [← hb] at hpr ⊢
  let p : Accepted req x.db :=
    { gift := g, session, matched := m, txID, orderID, walletEventID := eid, giftEventID := gid
      txAt, orderAt, walletAt, giftAt, gift_eq := hpol.gift_eq, enabled := hpol.enabled
      session_eq := hs, creator := hpol.creator, viewer := by rwa [hx.inv.grows.users]
      quantity_le := hpol.quantity_le, match_eq := hpol.match_eq
      match_ok := hpol.match_ok, amounts := a, charged_eq := hpr.charged_eq
      matchPoints_eq := hpr.matchPoints_eq, diamondReward_eq := hpr.diamondReward_eq
      charged_pos := hpr.charged_pos, charged_lt := hpr.charged_lt
      matchPoints_nonneg := hpr.matchPoints_nonneg
      diamondReward_nonneg := hpr.diamondReward_nonneg, covered := hpr.covered, fits := hfits
      newTxID := hx.own.newTxID (by simp) hid
      latest := hx.own.latestTx hx.inv (by simp) hlast
      newTxKey := hx.own.newTxKey (by simp [GiftRequest.debitKey]) hkey
      newOrder := hx.own.newOrder (d := d₃)
        (by simp [acceptedOrder, GiftOrder.stored, GiftOrder.lock, GiftRequest.storedKey])
        (by simp) hokey hoid
      newWalletEvent := hx.own.newEvent (by simp) hev
      newGiftEvent := hx.own.newEvent (by simp) hgev
      events_ne := hne _ (List.mem_append_right _ (List.mem_singleton_self _)) }
  refine ⟨p.writes, ?_, hx.inv.accepted hc p, .plain (by rw [hc]; rfl) p.plain,
    fun v _ _ hg hd => .created p (hg.giftOrders.subset (by simp)) hd.committed⟩
  rw [List.append_assoc, List.append_assoc, ← posting_congr hacc]
  rfl

theorem runs_replayAfterDup {e : SqlErr} (own : Own t ws pins w)
    (hws : ws.filterMap Write.giftOrder? = []) (hfits : Varchar.refuses 64 req.requestID = false)
    (hrec : (∃ o ∈ w.db.giftOrders, o.lock = req.storedKey) ∨
      ∃ x ∈ 𝓔.start.db.walletTxs, x.lock = req.debitKey)
    (hcommit : ∀ r y, Recorded req y.db (.inr r) → At 𝓔 t ws pins w y →
      Runs 𝓔.logic t (commitTx retErr >>= fun _ => pure (.ok r)) (GiftPost 𝓔 t req)
        (GiftPost 𝓔 t req) y) :
    Runs 𝓔.logic t (replayAfterDup req (Platform.giftHash req) e) (GiftPost 𝓔 t req)
      (GiftPost 𝓔 t req) w := by
  unfold replayAfterDup
  refine Runs.bind (runs_replay own hws (fun x y hx hno hy => ?_) fun x y hx hy => ?_)
  · refine Runs.pure fun z hz hi => .failed (fun _ hexact => ?_)
      (.inl (hy.rely hz hi).own.committed)
    refine hrec.resolve_left ?_
    rintro ⟨o, ho, hk⟩
    exact absurd (hk.trans (storedKey_eq hexact hfits))
      (hno o (hx.later.grows.giftOrders.subset ho))
  · cases x with
    | inl appErr =>
      refine Runs.pure fun z hz _ => .recorded (hx.mono hz.store.grows) ?_
      rw [hz.store.committed, hy.own.committed]
      exact fun _ h => by cases h
    | inr replayed => exact hcommit replayed y hx hy

/-- While a call holds the key of the debit and finds it unused, no accepted order is
recorded for the request. -/
theorem not_recorded_accepted {r : GiftResponse} (hi : Inv 𝓔 u)
    (hkey : u.db.NewTxKey req.viewerID .giftDebit (Varchar.store 64 req.requestID))
    (hno : ∀ o ∈ 𝓔.start.db.giftOrders, o.lock ≠ req.key) : ¬ Recorded req u.db (.inr r) := by
  intro h
  cases h with
  | @accepted o ho hk hh hs =>
    obtain ⟨hviewer, hid⟩ : o.viewerID = req.viewerID ∧
        Platform.collate o.requestID = Platform.collate req.requestID := by
      simpa [GiftOrder.lock, GiftRequest.key] using hk
    have horigin := hi.legal.request_of_order
    rw [← hi.db_eq] at horigin
    obtain ⟨req', hhash, hreq'⟩ := (horigin o ho).resolve_left fun hst => hno o hst hk
    -- the digest vouches for the id: the order is recorded under the key of the debit
    have hstored : Platform.collate (Varchar.store 64 req.requestID) =
        Platform.collate req.requestID :=
      Platform.giftHash_covers (hhash.symm.trans hh) (hreq' ▸ hid)
    have hpair := hi.legal.debit_of_accepted
    rw [← hi.db_eq] at hpair
    obtain ⟨x, hx, hxk⟩ := (hpair o ho hs).resolve_left fun hst => hno o hst hk
    rw [hviewer, hid, ← hstored] at hxk
    exact hkey x hx hxk

theorem Inv.order_of_debit (hi : Inv 𝓔 u) (h : ∃ x ∈ u.db.walletTxs, x.lock = req.debitKey) :
    (∃ o ∈ u.db.giftOrders, o.lock = req.storedKey) ∨
      ∃ x ∈ 𝓔.start.db.walletTxs, x.lock = req.debitKey := by
  obtain ⟨x, hx, hk⟩ := h
  have hpair := hi.legal.order_of_debit
  rw [← hi.db_eq] at hpair
  obtain ⟨h1, h2, h3⟩ : x.actorUserID = req.viewerID ∧ x.txType = .giftDebit ∧
      Platform.collate x.requestID = Platform.collate (Varchar.store 64 req.requestID) := by
    simpa [WalletTx.lock, GiftRequest.debitKey] using hk
  rcases hpair x hx h2 with hst | ⟨o, ho, -, hol⟩
  · exact .inr ⟨x, hst, hk⟩
  · rw [h1, h3] at hol
    exact .inl ⟨o, ho, hol⟩

theorem runs_giftDebit (hc : 𝓔.calls t = .sendGift req)
    (hno : ∀ o ∈ 𝓔.start.db.giftOrders, o.lock ≠ req.key)
    (hpol : Policy req 𝓔.start.db campaignID g m)
    (hpr : Priced req g m (d.balance req.viewerID) a)
    (own : Own t (d.opening req.viewerID) [(.wallet req.viewerID, d)] w) :
    Runs 𝓔.logic t (giftDebit req (Platform.giftHash req) campaignID a (d.balance req.viewerID))
      (GiftPost 𝓔 t req) (GiftPost 𝓔 t req) w := by
  have hopen : Opening req (d.opening req.viewerID) [(.wallet req.viewerID, d)] :=
    .inr ⟨d, rfl, by simp⟩
  unfold giftDebit
  refine Runs.bind (runs_now own fun txAt v hv => ?_)
  refine Runs.bind (runs_insertWalletTx hv.own (fun e u v hu hf hv => ?_)
    fun id d' v _ hid hviewer _ hlast _ hnew hkey hv => ?_)
  · dsimp only
    split
    · next hdup =>
      obtain ⟨hfits, hrec⟩ : Varchar.refuses 64 req.requestID = false ∧
          ∃ x ∈ u.db.walletTxs, x.lock = req.debitKey := by
        obtain rfl := eq_dupKey hdup
        cases hf with
        | error _ he =>
          rcases run_insertWalletTx_error he with ⟨hne, -⟩ | ⟨-, hfits, x, hx, hk⟩
          · exact absurd rfl hne
          · exact ⟨hfits, x, by simpa using hx, hk⟩
      refine runs_replayAfterDup hv.own hopen.giftOrders hfits ?_ fun r y hr hy =>
        runs_commit_recorded hc hopen hy.own hr
      rcases hu.inv.order_of_debit hrec with ⟨o, ho, hk⟩ | hstart
      · exact .inl ⟨o, hv.later.grows.giftOrders.subset ho, hk⟩
      · exact .inr hstart
    · next hdup =>
      refine Runs.pure fun x hx hi => gift_failed hf (hv.rely hx hi) fun _ he => ?_
      subst he
      exact hdup rfl
  dsimp only
  split
  · exact gift_text hv.own
  next hlt =>
  obtain ⟨-, hn⟩ := wrap64_id hid hlt
  rw [hn, sumLedgerEntries_neg, if_neg (by simp)]
  refine runs_posting (req.debit id txAt) hv.own (by simp [GiftRequest.debit])
    (by simp [GiftRequest.debit]) hnew (by decide) (fun _ => by decide) (Int.neg_neg _).symm
    (fun e v he hcv => .failed ?_ (.inl hcv)) fun v hv => ?_
  · rintro ⟨⟩
    rcases he with ⟨_, _, _, _, he⟩ | ⟨he, -⟩ <;> cases he
  refine Runs.bind (runs_now hv.own fun orderAt v hv => ?_)
  refine Runs.bind (runs_insertGiftOrder hv.own (fun e u v hu hf hv => ?_)
    fun oid d₃ v hoid hnid hfits hokey hv => ?_)
  · have hpost : (posting d (req.debit id txAt) "PLATFORM_RESERVED_COINS" (-a.charged)
        (d.balance req.viewerID - a.charged)).filterMap Write.giftOrder? = [] :=
      posting_picks.2.2.2.1
    dsimp only
    split
    · next hdup =>
      obtain ⟨hfits, o, ho, hk⟩ := order_of_dup hf hdup hpost
      refine runs_replayAfterDup hv.own hpost hfits
        (.inl ⟨o, hv.later.grows.giftOrders.subset ho, hk⟩) fun r y hr hy => ?_
      exact absurd hr (not_recorded_accepted hy.inv (hy.own.newTxKey (by simp) hkey) hno)
    · next hdup =>
      refine Runs.pure fun x hx hi => gift_failed hf (hv.rely hx hi) fun _ he => ?_
      subst he
      exact hdup rfl
  dsimp only
  split
  · exact gift_text hv.own
  next hlt =>
  obtain ⟨-, hn⟩ := wrap64_id hoid hlt
  rw [hn]
  exact runs_giftEvents hc hviewer hpol hpr (hlast _ (List.mem_singleton_self _)) hnew hkey hfits
    hnid hokey hv.own

theorem runs_orText {x : ℤ} {name : String} {Q : ℕ → World → Prop} (own : Own t ws pins w)
    (h : ∀ v, At 𝓔 t ws pins w v → 0 ≤ x → x < 2 ^ 32 → Q x.toNat v) :
    Runs 𝓔.logic t (orText (int64ToUint32 x name)) Q (GiftPost 𝓔 t req) w := by
  unfold int64ToUint32
  split
  · exact Runs.throw fun v hv _ => .failed (fun he => by cases he) (.inl (own.rely hv).committed)
  · next hx =>
    exact Runs.pure fun v hv hi => h v (own.at hv hi) (by omega) (by omega)

theorem runs_giftCharge (hc : 𝓔.calls t = .sendGift req)
    (hno : ∀ o ∈ 𝓔.start.db.giftOrders, o.lock ≠ req.key)
    (hpol : Policy req 𝓔.start.db campaignID g m) (own : Own t [] [] w) :
    Runs 𝓔.logic t (giftCharge req (Platform.giftHash req) campaignID g m) (GiftPost 𝓔 t req)
      (GiftPost 𝓔 t req) w := by
  unfold giftCharge
  refine Runs.bind (runs_upsertAccount own (fun e u v hu hf hv => ?_) fun d v hv => ?_)
  · exact gift_failed hf hv fun h => by cases h
  refine Runs.bind (runs_selectBalance hv.own (by simp) (fun e u v hu hf hv => ?_) fun v hv => ?_)
  · exact gift_failed hf hv fun h => by cases h
  dsimp only
  split
  · exact gift_text hv.own
  next hpos =>
  refine Runs.bind (runs_orText hv.own fun v hv _ hlt => ?_)
  split
  · exact runs_rejectGift hc (by decide) rfl (fun _ => by simp) hv.own
  next hcov =>
  refine Runs.bind (runs_orText hv.own fun v hv hmp _ => ?_)
  refine Runs.bind (runs_orText hv.own fun v hv hdr _ => ?_)
  exact runs_giftDebit hc hno hpol
    ⟨rfl, rfl, rfl, not_le.mp hpos, hlt, hmp, hdr, not_lt.mp hcov⟩ hv.own

end Accept

theorem runs_reject {code : String} {status : ℕ} (hc : 𝓔.calls t = .sendGift req)
    (hcode : (code, status) ∈ rejections) (hne : code ≠ "INSUFFICIENT_BALANCE")
    (own : Own t [] [] w) :
    Runs 𝓔.logic t (rejectGift req (Platform.giftHash req) code status) (GiftPost 𝓔 t req)
      (GiftPost 𝓔 t req) w :=
  runs_rejectGift (d := w.db) hc hcode (if_neg hne).symm (fun h => absurd h hne) own

theorem runs_gift_read {Q : s.Res → World → Prop} (hs : s.reads = true) (own : Own t [] [] w)
    (hok : ∀ r rank u v, At 𝓔 t [] [] w u → (u.effect t [] s rank).res = .ok r →
      At 𝓔 t [] [] u v → Q r v) : Runs 𝓔.logic t (txDo retErr s) Q (GiftPost 𝓔 t req) w :=
  runs_read hs own (fun _ _ _ _ hf hv => gift_failed hf hv fun h => by
    rw [Stmt.reads.not_inserts hs] at h
    cases h) hok

theorem runs_giftMatch {campaignID : Option ℕ} {g : Gift} (hc : 𝓔.calls t = .sendGift req)
    (hno : ∀ o ∈ 𝓔.start.db.giftOrders, o.lock ≠ req.key)
    (hpol : ∀ m, m = req.matchID.bind 𝓔.start.db.liveMatches →
      (∀ id, req.matchID = some id → ∃ x, m = some x ∧ x.liveSessionID = req.liveSessionID ∧
        x.status = .opened) → Policy req 𝓔.start.db campaignID g m) (own : Own t [] [] w) :
    Runs 𝓔.logic t (giftMatch req (Platform.giftHash req) campaignID g) (GiftPost 𝓔 t req)
      (GiftPost 𝓔 t req) w := by
  unfold giftMatch
  split
  · next hm => exact runs_giftCharge hc hno (hpol none (by simp [hm]) (by simp [hm])) own
  · next id hm =>
    refine Runs.bind (runs_gift_read rfl own fun r rank u v hu hr hv => ?_)
    simp only [World.effect, Stmt.run, applyAll_nil, hu.inv.grows.liveMatches,
      Except.ok.injEq] at hr
    subst hr
    split
    · exact runs_reject hc (by decide) (by decide) hv.own
    · next m heq =>
      split
      · exact runs_reject hc (by decide) (by decide) hv.own
      · next hok =>
        simp only [not_or, not_not] at hok
        refine runs_giftCharge hc hno (hpol (some m) (by simp [hm, heq]) fun i hi => ?_) hv.own
        exact ⟨m, rfl, hok⟩

theorem runs_giftPolicy (hc : 𝓔.calls t = .sendGift req) (hq : req.quantity ≤ 99)
    (hno : ∀ o ∈ 𝓔.start.db.giftOrders, o.lock ≠ req.key) (own : Own t [] [] w) :
    Runs 𝓔.logic t (giftPolicy req (Platform.giftHash req)) (GiftPost 𝓔 t req)
      (GiftPost 𝓔 t req) w := by
  unfold giftPolicy
  refine Runs.bind (runs_gift_read rfl own fun r rank u v hu hr hv => ?_)
  cases r with
  | none => exact runs_reject hc (by decide) (by decide) hv.own
  | some x =>
  obtain ⟨status, campaignID⟩ := x
  obtain ⟨session, hs, -, hcamp⟩ := run_selectLiveSession hr
  have hcamp := hu.inv.grows.campaign.mp ⟨session, hs, hcamp⟩
  dsimp only
  split
  · exact runs_reject hc (by decide) (by decide) hv.own
  refine Runs.bind (runs_gift_read rfl hv.own fun r rank u v hu hr hv => ?_)
  simp only [World.effect, Stmt.run, applyAll_nil, hu.inv.grows.giftCatalog,
    Except.ok.injEq] at hr
  subst hr
  split
  · exact runs_reject hc (by decide) (by decide) hv.own
  next g hg =>
  split
  · exact runs_reject hc (by decide) (by decide) hv.own
  next hen =>
  refine Runs.bind (Runs.bind (runs_gift_read rfl hv.own fun r rank u v hu hr hv => ?_))
  simp only [World.effect, Stmt.run, applyAll_nil, hu.inv.grows.users, Except.ok.injEq] at hr
  subst hr
  split
  · refine Runs.pure fun x hx hi => ?_
    exact runs_reject hc (by decide) (by decide) (hv.rely hx hi).own
  next user huser =>
  refine Runs.pure fun x hx hi => ?_
  split
  · next hel =>
    exact runs_giftMatch hc hno (fun m hm hok => ⟨hg, by simpa using hen, hq, hcamp,
      ⟨user, huser, hel⟩, hm, hok⟩) (hv.rely hx hi).own
  · exact runs_reject hc (by decide) (by decide) (hv.rely hx hi).own

theorem runs_sendGiftTx (hc : 𝓔.calls t = .sendGift req) (hq : req.quantity ≤ 99)
    (own : Own t [] [] w) :
    Runs 𝓔.logic t (sendGiftTx req (Platform.giftHash req)) (GiftPost 𝓔 t req)
      (GiftPost 𝓔 t req) w := by
  unfold sendGiftTx
  refine Runs.bind (runs_replay own rfl (fun u v hu hno hv => ?_) fun x v hx hv => ?_)
  · exact runs_giftPolicy hc hq (fun o ho => hno o (hu.inv.grows.giftOrders.subset ho)) hv.own
  · cases x with
    | inl appErr =>
      refine Runs.pure fun z hz _ => .recorded (hx.mono hz.store.grows) ?_
      rw [hz.store.committed, hv.own.committed]
      exact fun _ h => by cases h
    | inr replayed => exact runs_commit_recorded hc (.inl rfl) hv.own hx

end Body

theorem safe_sendGift {w : World} (hc : 𝓔.calls t = .sendGift req)
    (hfresh : w.store.committedBy t = [] ∧ w.aofBy t = []) :
    Safe 𝓔.logic t (GiftPost 𝓔 t req) (sendGift req) w := by
  have hinv : ∀ {e : AppError}, ¬ req.Valid → e.code = "VALIDATION_ERROR" →
      Safe 𝓔.logic t (GiftPost 𝓔 t req) (.ret (.app e)) w :=
    fun hn he v hv _ => .invalid hn (hv.store.committed.trans hfresh.1) he
  unfold sendGift
  split
  · next hb => exact hinv (fun hv => hv.1 hb) rfl
  split
  · next hq =>
    refine hinv (fun hv => ?_) rfl
    obtain ⟨h1, h2⟩ := hv.2.1
    omega
  next hq =>
  split
  · next he => exact hinv (fun hv => hv.2.2 he) rfl
  refine safe_withTx hfresh (fun a u v ha _ _ hcv _ => .failed (fun he => by cases he) (.inl hcv))
    (fun v hv => runs_sendGiftTx hc (by omega) hv.own) (fun r v _ _ => ?_) (by rw [hc]; nofun)
    fun r v v' _ hl hcv h => ?_
  · unfold Dead
    rw [hc]
    trivial
  · unfold GiftPost
    rw [hcv]
    exact GiftDone.mono h hl.grows

end LiveRevenue
