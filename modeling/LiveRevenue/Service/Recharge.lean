import LiveRevenue.World

/-! # Recharge

`internal/service/service.go`: a recharge posts a balanced wallet transaction, raises
the cached balance and records the request with its body hash, all in one
transaction.
-/

namespace LiveRevenue

/-- `return ..., nil, err` for an error of the driver. -/
def retErr {α : Type} (e : SqlErr) : Ret α := .err (.sql e)

structure LedgerEntry where
  accountCode : String
  amount : ℤ
  deriving DecidableEq, Repr

def userCoins (viewerID : ℕ) : String := "USER_COINS:" ++ toString viewerID

def buildRechargeEntries (viewerID coins : ℕ) : List LedgerEntry :=
  [⟨userCoins viewerID, coins⟩, ⟨"SYSTEM_TOPUP_SOURCE", -coins⟩]

def sumLedgerEntries (entries : List LedgerEntry) : ℤ :=
  entries.foldl (fun sum e => wrap64 (sum + e.amount)) 0

theorem isUserCoins_userCoins (u : ℕ) : isUserCoins (userCoins u) = true := by
  simp [isUserCoins, userCoins, String.toList_append]

theorem userCoins_ne (u : ℕ) {code : String} (h : isUserCoins code = false) :
    userCoins u ≠ code := by
  rintro rfl
  rw [isUserCoins_userCoins] at h
  cases h

theorem length_userCoins {u : ℕ} (hu : u < 2 ^ 64) : (userCoins u).length ≤ 64 := by
  have hlen : u.repr.length ≤ 20 := (Nat.length_repr_le_iff (by decide)).mpr (hu.trans (by decide))
  rw [userCoins, String.length_append]
  change 11 + u.repr.length ≤ 64
  omega

theorem sumLedgerEntries_pair (a b : String) (x : ℤ) : sumLedgerEntries [⟨a, x⟩, ⟨b, -x⟩] = 0 := by
  simp [sumLedgerEntries, wrap64, Int.bmod_add_bmod]

theorem sumLedgerEntries_neg (a b : String) (x : ℤ) : sumLedgerEntries [⟨a, -x⟩, ⟨b, x⟩] = 0 := by
  have h := sumLedgerEntries_pair a b (-x)
  rwa [Int.neg_neg] at h

/-- The loop that posts ledger entries under a transaction id. -/
def insertEntries {α β : Type} (txID : ℕ) : List LedgerEntry → GoBody (Ret α) β → GoBody (Ret α) β
  | [], k => k
  | e :: es, k => do
    txDo retErr (.insertWalletEntry txID e.accountCode e.amount)
    insertEntries txID es k

variable [Platform]

/-- The part of `Recharge` after the transaction id is known: entries, balance, request, event. -/
def rechargePost (req : RechargeRequest) (bodyHash : Digest) (currentBalance : ℤ) (txID : ℕ) :
    GoBody (Ret RechargeResponse) (Ret RechargeResponse) :=
  let entries := buildRechargeEntries req.viewerID req.coins
  if sumLedgerEntries entries ≠ 0 then
    pure (.err (.text "ledger imbalance: recharge entries do not sum to zero"))
  else insertEntries txID entries do
    let newBalance := wrap64 (currentBalance + req.coins)
    txDo retErr (.updateBalance req.viewerID newBalance)
    let createdAt ← timeNow
    txDo retErr (.insertRechargeRequest ⟨req.viewerID, req.requestID, bodyHash, req.coins,
      req.paymentRef, newBalance, txID, createdAt⟩)
    let eventAt ← timeNow
    txDo retErr (.insertOutbox walletTopic (toString req.viewerID) (.walletPosted
      ⟨txID, TxType.text .recharge, req.viewerID, req.requestID, req.coins, newBalance⟩) eventAt)
    commitTx retErr
    pure (.ok ⟨txID, req.viewerID, req.coins, newBalance, "created"⟩)

/-- `LastInsertId` as an `int64`, which must be positive. -/
def rechargeChecked (req : RechargeRequest) (bodyHash : Digest) (currentBalance txID64 : ℤ) :
    GoBody (Ret RechargeResponse) (Ret RechargeResponse) :=
  if txID64 < 1 then pure (.err (.text s!"invalid tx id generated: {txID64}"))
  else rechargePost req bodyHash currentBalance txID64.toNat

/-- The part of `Recharge` for a request not recorded yet. -/
def rechargeNew (req : RechargeRequest) (bodyHash : Digest) :
    GoBody (Ret RechargeResponse) (Ret RechargeResponse) := do
  txDo retErr (.upsertAccount req.viewerID)
  let currentBalance ← txDo retErr (.selectBalanceForUpdate req.viewerID)
  let createdAt ← timeNow
  -- a duplicate key is not told from any other error here
  let id ← txDo retErr (.insertWalletTx .recharge req.viewerID req.requestID bodyHash createdAt)
  rechargeChecked req bodyHash currentBalance (wrap64 id)

def rechargeTx (req : RechargeRequest) (bodyHash : Digest) :
    GoBody (Ret RechargeResponse) (Ret RechargeResponse) := do
  match ← txDo retErr (.selectRecharge req.viewerID req.requestID) with
  | some existing =>
    if bytesEqual existing.bodyHash bodyHash = false then
      pure (.app payloadMismatch)
    else do
      commitTx retErr
      pure (.ok ⟨existing.txID, req.viewerID, existing.coins, existing.resultingBalance,
        "replayed"⟩)
  | none => rechargeNew req bodyHash

def recharge (req : RechargeRequest) : Go (Ret RechargeResponse) :=
  if isBlank req.requestID ∨ req.viewerID = 0 ∨ isBlank req.paymentRef then
    .ret (.app errValidation)
  else if req.coins < 1 ∨ 100000 < req.coins then
    .ret (.app ⟨400, "VALIDATION_ERROR", "coins must be in [1,100000]"⟩)
  else withTx retErr (rechargeTx req (Platform.rechargeHash req))

end LiveRevenue
