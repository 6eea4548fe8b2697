import LiveRevenue.Service.Gift

/-! # Closing and settling sessions

`internal/service/settlement.go` and the handler of `cmd/settlement-worker`.
-/

namespace LiveRevenue

open Transact

structure SettlementResponse where
  liveSessionID : ℕ
  grossCoinSpend : ℤ
  acceptedGiftCount : ℤ
  diamondRewardTotal : ℤ
  topContributors : List (ℕ × ℤ)
  reconciliationStatus : ReconciliationStatus
  walletGiftDebitTotal : ℤ
  giftOrderCoinTotal : ℤ
  mismatchCount : ℕ
  reconciliationDetails : ReconciliationDetails
  deriving DecidableEq, Repr

/-- `&AppError{500, "INTERNAL_ERROR", err.Error()}`. -/
def internalError (e : SqlErr) : Option AppError := some ⟨500, "INTERNAL_ERROR", e.error⟩

def closeTx (liveSessionID closedAtMs : ℕ) : GoBody (Option AppError) (Option AppError) := do
  let closedAt ← timeNow
  let affected ← txDo internalError (.closeSession liveSessionID closedAt)
  if affected = 0 then do
    match ← txDo internalError (.selectSessionStatus liveSessionID) with
    | none => pure (some ⟨404, "LIVE_SESSION_NOT_FOUND", "live session not found"⟩)
    | some status =>
      if status = .closed then
        pure (some ⟨409, "LIVE_SESSION_CLOSED", "live session already closed"⟩)
      else pure (some ⟨409, "LIVE_SESSION_STATE_INVALID", "session state invalid"⟩)
  else do
    let eventAt ← timeNow
    txDo internalError (.insertOutbox sessionClosedTopic (toString liveSessionID)
      (.sessionClosed ⟨liveSessionID, closedAtMs⟩) eventAt)
    commitTx internalError
    pure none

def closeLiveSession (liveSessionID : ℕ) : Go (Option AppError) :=
  if liveSessionID = 0 then .ret (some errValidation)
  else .op .now fun closedAtMs => withTx internalError (closeTx liveSessionID closedAtMs)

/-- The reconciliation row `GenerateSettlement` derives from its two totals. -/
def reconcile (walletDebitTotal giftOrderTotal : ℤ) (generatedAt : ℕ) : Reconciliation :=
  let details : ReconciliationDetails := ⟨walletDebitTotal, giftOrderTotal⟩
  if walletDebitTotal ≠ giftOrderTotal then
    ⟨.fail, walletDebitTotal, giftOrderTotal, 1, details, generatedAt⟩
  else ⟨.pass, walletDebitTotal, giftOrderTotal, 0, details, generatedAt⟩

/-- `Service.GetSettlement`: two reads outside any transaction. -/
def getSettlement (liveSessionID : ℕ) : Go (Ret SettlementResponse) := Body.run do
  match ← dbDo retErr (.selectSettlement liveSessionID) with
  | none => pure (.app ⟨404, "SETTLEMENT_NOT_FOUND", "settlement not found"⟩)
  | some (s, r) => do
    let top ← dbDo retErr (.topContributors liveSessionID 20)
    pure (.ok ⟨liveSessionID, s.grossCoinSpend, s.acceptedGiftCount, s.diamondRewardTotal, top,
      r.status, r.walletGiftDebitTotal, r.giftOrderCoinTotal, r.mismatchCount, r.details⟩)

/-- What `GenerateSettlement` makes of the result of `GetSettlement`. -/
def settlementResult : Ret SettlementResponse → Except Err SettlementResponse
  | .ok r => .ok r
  | .app e => .error (.text ("get settlement app error: " ++ e.code))
  | .err e => .error e

def settlementTx (liveSessionID : ℕ) :
    GoBody (Except Err SettlementResponse) (Except Err SettlementResponse) := do
  txDo retFail (.selectSessionExists liveSessionID)
  let (grossSpend, giftCount, diamondTotal) ← txDo retFail (.sumAcceptedOrders liveSessionID)
  let settledAt ← timeNow
  txDo retFail (.upsertSettlement liveSessionID ⟨grossSpend, giftCount, diamondTotal, settledAt⟩)
  let walletDebitTotal ← txDo retFail (.sumGiftDebits liveSessionID)
  let reconciledAt ← timeNow
  txDo retFail (.upsertReconciliation liveSessionID
    (reconcile walletDebitTotal grossSpend reconciledAt))
  commitTx retFail
  let res ← callFn (getSettlement liveSessionID)
  pure (settlementResult res)

def generateSettlement (liveSessionID : ℕ) : Go (Except Err SettlementResponse) :=
  withTx retFail (settlementTx liveSessionID)

def markDone (group metadata : String) (m : Message) : Go (Except Err Unit) :=
  .op (.mark ⟨group, m, metadata⟩) fun _ => .ret (.ok ())

def settlementGroup := "settlement-worker-v1"

/-- One round of the settlement worker's `ConsumeClaim`. -/
def settlementHandle (m : Message) : Go (Except Err Unit) :=
  match m.value.unmarshalSessionClosed with
  | none => markDone settlementGroup "bad_payload" m
  | some evt => (generateSettlement evt.liveSessionID).bind fun
    | .error e => .ret (.error e)
    | .ok _ => markDone settlementGroup "settled" m

end LiveRevenue
