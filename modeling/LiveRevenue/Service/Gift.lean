import LiveRevenue.Service.Recharge

/-! # Sending gifts

`internal/service/gift.go`: a gift is replayed, rejected with a recorded code, or
accepted with a debit, an order and two events in one transaction.
-/

namespace LiveRevenue

def mapRejectCodeToAppError (code : String) : AppError :=
  if code = "CREATOR_NOT_ELIGIBLE" then ⟨403, code, "creator is not eligible"⟩
  else if code = "LIVE_SESSION_NOT_FOUND" then ⟨404, code, "live session not found"⟩
  else if code = "GIFT_NOT_FOUND" then ⟨404, code, "gift not found"⟩
  else if code = "LIVE_SESSION_CLOSED" then ⟨409, code, "live session closed"⟩
  else if code = "MATCH_CLOSED" then ⟨409, code, "match closed"⟩
  else if code = "INSUFFICIENT_BALANCE" then ⟨409, code, "insufficient balance"⟩
  else ⟨409, code, "gift rejected"⟩

def int64ToUint32 (v : ℤ) (name : String) : Except String ℕ :=
  if v < 0 ∨ 2 ^ 32 - 1 < v then .error s!"{name} overflow uint32: {v}" else .ok v.toNat

def rejectMessage (code : String) : String :=
  code.map fun c => if c = '_' then ' ' else c.toLower

abbrev GiftBody := GoBody (Ret GiftResponse)

/-- `return GiftResponse{}, nil, convErr`. -/
def orText {α : Type} (r : Except String α) : GiftBody α :=
  match r with
  | .ok a => pure a
  | .error s => throw (.err (.text s))

def GiftOrder.replay (o : GiftOrder) : GiftResponse :=
  ⟨o.giftOrderID, true, o.chargedCoins, o.matchPointsAdded, o.diamondReward,
    o.postBalance.getD 0, "replayed"⟩

variable [Platform]

/-- `replayGiftIfExists`: nothing recorded, a user-visible error, or a response. -/
def replayGiftIfExists (req : GiftRequest) (bodyHash : Digest) :
    GiftBody (Option (AppError ⊕ GiftResponse)) := do
  match ← txDo retErr (.selectGiftOrderForUpdate req.viewerID req.requestID) with
  | none => pure none
  | some o =>
    if bytesEqual o.bodyHash bodyHash = false then pure (some (.inl payloadMismatch))
    else if o.status = .accepted then pure (some (.inr o.replay))
    else pure (some (.inl (mapRejectCodeToAppError (o.rejectCode.getD "REJECTED"))))

def rejectedOrder (req : GiftRequest) (bodyHash : Digest) (rejectCode : String)
    (createdAt : ℕ) : GiftOrder :=
  ⟨0, req.viewerID, req.creatorID, req.liveSessionID, req.matchID, req.giftID, req.quantity,
    0, 0, 0, none, .rejected, some rejectCode, req.requestID, bodyHash, createdAt⟩

def rejectGift (req : GiftRequest) (bodyHash : Digest) (rejectCode : String) (httpStatus : ℕ) :
    GiftBody (Ret GiftResponse) := do
  let createdAt ← timeNow
  match ← txTry (.insertGiftOrder (rejectedOrder req bodyHash rejectCode createdAt)) with
  | .error e =>
    if isDupKey e then do
      match ← replayGiftIfExists req bodyHash with
      | some (.inr replayed) => pure (.ok replayed)
      | some (.inl appErr) => do
        commitTx retErr
        pure (.app appErr)
      | none => pure (retErr e)
    else pure (retErr e)
  | .ok _ => do
    let eventAt ← timeNow
    txDo retErr (.insertOutbox giftRejectedTopic (toString req.liveSessionID) (.giftRejected
      ⟨giftRejectedTopic, req.viewerID, req.creatorID, req.liveSessionID, req.matchID, req.giftID,
        req.quantity, req.requestID, rejectCode⟩) eventAt)
    commitTx retErr
    pure (.app ⟨httpStatus, rejectCode, rejectMessage rejectCode⟩)

/-- The checks `isCreatorEligible` makes on the row it reads. -/
def eligible (u : User) : Bool :=
  if u.accountStanding ≠ .good ∨ ¬ u.canGoLive ∨ ¬ u.liveGiftsEnabled then false
  else if u.accountType ≠ .normal then false
  else if equalFold u.regionCode "KR" then 19 ≤ u.ageYears
  else 18 ≤ u.ageYears

def isCreatorEligible (creatorID : ℕ) : GiftBody Bool := do
  match ← txDo retErr (.selectUser creatorID) with
  | none => pure false
  | some u => pure (eligible u)

/-- What a duplicate key leads to: the recorded outcome, committing a replay. -/
def replayAfterDup (req : GiftRequest) (bodyHash : Digest) (e : SqlErr) :
    GiftBody (Ret GiftResponse) := do
  match ← replayGiftIfExists req bodyHash with
  | some (.inl appErr) => pure (.app appErr)
  | some (.inr replayed) => do
    commitTx retErr
    pure (.ok replayed)
  | none => pure (retErr e)

structure GiftAmounts where
  charged : ℤ
  matchPoints : ℤ
  diamondReward : ℤ
  deriving DecidableEq, Repr

def acceptedOrder (req : GiftRequest) (bodyHash : Digest) (a : GiftAmounts) (newBalance : ℤ)
    (createdAt : ℕ) : GiftOrder :=
  ⟨0, req.viewerID, req.creatorID, req.liveSessionID, req.matchID, req.giftID, req.quantity,
    a.charged.toNat, a.matchPoints.toNat, a.diamondReward.toNat, some newBalance, .accepted, none,
    req.requestID, bodyHash, createdAt⟩

/-- The last part of `SendGift`: both events and the commit. A scanned campaign id is never
negative, so its conversion to `uint64` cannot fail. -/
def giftEvents (req : GiftRequest) (campaignID : Option ℕ) (a : GiftAmounts) (newBalance : ℤ)
    (walletTxID giftOrderID : ℕ) : GiftBody (Ret GiftResponse) := do
  let walletAt ← timeNow
  txDo retErr (.insertOutbox walletTopic (toString req.viewerID) (.walletPosted
    ⟨walletTxID, TxType.text .giftDebit, req.viewerID, req.requestID, -a.charged, newBalance⟩)
    walletAt)
  let acceptedAt ← timeNow
  txDo retErr (.insertOutbox giftAcceptedTopic (toString req.liveSessionID) (.giftAccepted
    ⟨giftAcceptedTopic, giftOrderID, req.viewerID, req.creatorID, req.liveSessionID, campaignID,
      req.matchID, req.giftID, req.quantity, a.charged.toNat, a.matchPoints.toNat,
      a.diamondReward.toNat, req.requestID⟩) acceptedAt)
  commitTx retErr
  pure (.ok ⟨giftOrderID, true, a.charged.toNat, a.matchPoints.toNat, a.diamondReward.toNat,
    newBalance, "created"⟩)

/-- The debit of `SendGift`: transaction, entries, balance and order. -/
def giftDebit (req : GiftRequest) (bodyHash : Digest) (campaignID : Option ℕ) (a : GiftAmounts)
    (balance : ℤ) : GiftBody (Ret GiftResponse) := do
  let txAt ← timeNow
  match ← txTry (.insertWalletTx .giftDebit req.viewerID req.requestID bodyHash txAt) with
  | .error e => if isDupKey e then replayAfterDup req bodyHash e else pure (retErr e)
  | .ok id =>
    let walletTxID64 := wrap64 id
    if walletTxID64 < 1 then pure (.err (.text s!"invalid wallet tx id: {walletTxID64}"))
    else
      let walletTxID := walletTxID64.toNat
      let entries : List LedgerEntry :=
        [⟨userCoins req.viewerID, -a.charged⟩, ⟨"PLATFORM_RESERVED_COINS", a.charged⟩]
      if sumLedgerEntries entries ≠ 0 then pure (.err (.text "ledger imbalance for gift"))
      else insertEntries walletTxID entries do
        let newBalance := balance - a.charged
        txDo retErr (.updateBalance req.viewerID newBalance)
        let orderAt ← timeNow
        match ← txTry (.insertGiftOrder (acceptedOrder req bodyHash a newBalance orderAt)) with
        | .error e => if isDupKey e then replayAfterDup req bodyHash e else pure (retErr e)
        | .ok oid =>
          let giftOrderID64 := wrap64 oid
          if giftOrderID64 < 1 then
            pure (.err (.text s!"invalid gift order id: {giftOrderID64}"))
          else giftEvents req campaignID a newBalance walletTxID giftOrderID64.toNat

def giftMatchPoints (req : GiftRequest) (g : Gift) (m : Option LiveMatch) : ℤ :=
  let points := wrap64 (g.matchPoints * req.quantity)
  match m with
  | some m =>
    if m.mode = .specificGift then
      match m.specificGiftID with
      | some s => if equalFold s req.giftID then points else 0
      | none => 0
    else points
  | none => points

/-- The part of `SendGift` after the policy checks: lock the wallet, price the gift. -/
def giftCharge (req : GiftRequest) (bodyHash : Digest) (campaignID : Option ℕ) (g : Gift)
    (m : Option LiveMatch) : GiftBody (Ret GiftResponse) := do
  txDo retErr (.upsertAccount req.viewerID)
  let balance ← txDo retErr (.selectBalanceForUpdate req.viewerID)
  let charged := wrap64 (g.coinPrice * req.quantity)
  if charged ≤ 0 then
    pure (.err (.text s!"invalid charged coins: {charged}"))
  else do
    let _ ← orText (int64ToUint32 charged "charged coins")
    if balance < charged then
      rejectGift req bodyHash "INSUFFICIENT_BALANCE" 409
    else do
      let matchPoints := giftMatchPoints req g m
      let _ ← orText (int64ToUint32 matchPoints "match points")
      let diamondReward := wrap64 (g.diamondReward * req.quantity)
      let _ ← orText (int64ToUint32 diamondReward "diamond reward")
      giftDebit req bodyHash campaignID ⟨charged, matchPoints, diamondReward⟩ balance

/-- The match check of `SendGift`, when the request names a match. -/
def giftMatch (req : GiftRequest) (bodyHash : Digest) (campaignID : Option ℕ) (g : Gift) :
    GiftBody (Ret GiftResponse) :=
  match req.matchID with
  | none => giftCharge req bodyHash campaignID g none
  | some matchID => do
    match ← txDo retErr (.selectMatch matchID) with
    | none => rejectGift req bodyHash "MATCH_CLOSED" 409
    | some m =>
      if m.liveSessionID ≠ req.liveSessionID ∨ m.status ≠ .opened then
        rejectGift req bodyHash "MATCH_CLOSED" 409
      else giftCharge req bodyHash campaignID g (some m)

/-- The policy checks of `SendGift` on session, gift and creator. -/
def giftPolicy (req : GiftRequest) (bodyHash : Digest) : GiftBody (Ret GiftResponse) := do
  match ← txDo retErr (.selectLiveSession req.liveSessionID) with
  | none => rejectGift req bodyHash "LIVE_SESSION_NOT_FOUND" 404
  | some (liveStatus, campaignID) =>
    if liveStatus ≠ .opened then rejectGift req bodyHash "LIVE_SESSION_CLOSED" 409
    else do
      match ← txDo retErr (.selectGift req.giftID) with
      | none => rejectGift req bodyHash "GIFT_NOT_FOUND" 404
      | some g =>
        if ¬ g.enabled then rejectGift req bodyHash "GIFT_NOT_FOUND" 404
        else do
          if ← isCreatorEligible req.creatorID then giftMatch req bodyHash campaignID g
          else rejectGift req bodyHash "CREATOR_NOT_ELIGIBLE" 403

def sendGiftTx (req : GiftRequest) (bodyHash : Digest) : GiftBody (Ret GiftResponse) := do
  match ← replayGiftIfExists req bodyHash with
  | some (.inl appErr) => pure (.app appErr)
  | some (.inr replayed) => do
    commitTx retErr
    pure (.ok replayed)
  | none => giftPolicy req bodyHash

def sendGift (req : GiftRequest) : Go (Ret GiftResponse) :=
  if isBlank req.requestID ∨ req.viewerID = 0 ∨ req.creatorID = 0 ∨ req.liveSessionID = 0 ∨
      isBlank req.giftID then .ret (.app errValidation)
  else if req.quantity < 1 ∨ 99 < req.quantity then
    .ret (.app ⟨400, "VALIDATION_ERROR", "quantity must be in [1,99]"⟩)
  else if req.viewerID = req.creatorID then
    .ret (.app ⟨400, "VALIDATION_ERROR", "viewer and creator cannot be the same"⟩)
  else withTx retErr (sendGiftTx req (Platform.giftHash req))

end LiveRevenue
