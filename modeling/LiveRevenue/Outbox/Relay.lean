import LiveRevenue.World

/-! # The outbox relay

`internal/outbox/relay.go`: lock a batch of unpublished rows, send and mark them one
by one, commit. The consumers' `extractEventID` reads back the header it writes.
-/

namespace LiveRevenue

open Transact

/-- `New` replaces a non-positive batch size. -/
def relayBatch (batchSize : ℤ) : ℕ := if batchSize ≤ 0 then 100 else batchSize.toNat

/-- The loop of `formatUint`: `i` bytes of the buffer are still free, `buf` holds the digits
written so far; `none` where the index would leave the buffer. -/
def formatDigits : (i v : ℕ) → (buf : List Char) → Option (List Char)
  | _, 0, buf => some buf
  | 0, _ + 1, _ => none
  | i + 1, v + 1, buf => formatDigits i ((v + 1) / 10) (Char.ofNat (48 + (v + 1) % 10) :: buf)

def formatUint (v : ℕ) : Option String :=
  if v = 0 then some "0" else (formatDigits 20 v []).map String.ofList

def parseUint (s : String) : Option ℕ :=
  if s.toList = [] ∨ s.toList.any (!·.isDigit) then none
  else
    let v := s.toList.foldl (fun n c => 10 * n + (c.toNat - 48)) 0
    if v < 2 ^ 64 then some v else none

/-- `extractEventID`: 0 for a missing or malformed header. -/
def extractEventID (m : Message) : ℕ :=
  match m.headers.find? (·.1 = "event_id") with
  | some h => (parseUint h.2).getD 0
  | none => 0

def OutboxRow.message (r : OutboxRow) : Option Message :=
  (formatUint r.eventID).map fun v => ⟨r.topic, r.eventKey, r.payload, [("event_id", v)]⟩

section Digits

theorem digitChar_eq {d : ℕ} (h : d < 10) : Char.ofNat (48 + d) = d.digitChar := by
  revert d
  decide

theorem formatDigits_eq {i v : ℕ} {buf : List Char} (h0 : 0 < v) (hv : v < 10 ^ i) :
    formatDigits i v buf = some (Nat.toDigits 10 v ++ buf) := by
  induction i generalizing v buf with
  | zero =>
    rw [Nat.pow_zero] at hv
    omega
  | succ i ih =>
    obtain ⟨v, rfl⟩ : ∃ u, v = u + 1 := ⟨v - 1, by omega⟩
    rw [formatDigits, digitChar_eq (Nat.mod_lt _ (by decide)), Nat.toDigits_eq_if (by decide)]
    by_cases hlt : v + 1 < 10
    · -- the last round
      rw [if_pos hlt, Nat.div_eq_of_lt hlt, Nat.mod_eq_of_lt hlt]
      cases i <;> rfl
    · have hdiv : (v + 1) / 10 < 10 ^ i := by
        rw [Nat.pow_succ] at hv
        omega
      rw [if_neg hlt, ih (by omega) hdiv, List.append_assoc]
      rfl

theorem formatUint_eq {v : ℕ} (h : v < 2 ^ 64) : formatUint v = some (toString v) := by
  unfold formatUint
  split
  · next h0 =>
    rw [h0]
    rfl
  · next h0 =>
    rw [formatDigits_eq (by omega) (h.trans (by decide)), List.append_nil]
    rfl

theorem parseUint_toString {v : ℕ} (h : v < 2 ^ 64) : parseUint (toString v) = some v := by
  have hdigits : (toString v).toList = Nat.toDigits 10 v := Nat.toList_repr
  have hread : (Nat.toDigits 10 v).foldl (fun n c => 10 * n + (c.toNat - 48)) 0 = v :=
    Nat.ofDigitChars_ten_toDigits
  have hall : (Nat.toDigits 10 v).any (fun c => !c.isDigit) = false := by
    refine List.any_eq_false.mpr fun c hc => ?_
    simp [Nat.isDigit_of_mem_toDigits (by decide) (by decide) hc]
  simp only [parseUint, hdigits]
  rw [if_neg (by simp [Nat.toDigits_ne_nil, hall]), hread, if_pos h]

theorem OutboxRow.message_eq {r : OutboxRow} (h : r.eventID < 2 ^ 64) : r.message =
    some ⟨r.topic, r.eventKey, r.payload, [("event_id", toString r.eventID)]⟩ := by
  rw [OutboxRow.message, formatUint_eq h]
  rfl

/-- The consumers read back the id the relay writes. -/
theorem eventID_of_message {r : OutboxRow} {m : Message} (h : r.eventID < 2 ^ 64)
    (hm : r.message = some m) : extractEventID m = r.eventID := by
  rw [r.message_eq h] at hm
  cases hm
  change (parseUint (toString r.eventID)).getD 0 = r.eventID
  rw [parseUint_toString h, Option.getD_some]

end Digits

theorem message_topic {r : OutboxRow} {m : Message} (hm : r.message = some m) :
    m.topic = r.topic := by
  obtain ⟨v, -, rfl⟩ := Option.map_eq_some_iff.mp hm
  rfl

theorem message_value {r : OutboxRow} {m : Message} (hm : r.message = some m) :
    m.value = r.payload := by
  obtain ⟨v, -, rfl⟩ := Option.map_eq_some_iff.mp hm
  rfl

theorem message_congr {r r' : OutboxRow} (h : r'.inserted = r.inserted) :
    r'.message = r.message := by
  change r'.inserted.message = r.inserted.message
  rw [h]

theorem DB.Grows.message {d d' : DB} (hg : d.Grows d') {m : Message}
    (h : ∃ r ∈ d.outboxEvents, r.message = some m) : ∃ r ∈ d'.outboxEvents, r.message = some m := by
  obtain ⟨r, hr, hm⟩ := h
  obtain ⟨r', hr', he, -⟩ := hg.outboxEvents r hr
  exact ⟨r', hr', (message_congr he).trans hm⟩

/-- The batch loop of `RunOnce`. A message that cannot be built is a panic. -/
def publishRows (now : ℕ) : List OutboxRow → GoBody (Except Err ℕ) Unit
  | [] => pure ()
  | e :: es =>
    match e.message with
    | none => throw (.error (.text "runtime error: index out of range"))
    | some m => do
      sendDo retFail m
      txDo retFail (.updatePublished now e.eventID)
      publishRows now es

def relayTx (batchSize : ℤ) : GoBody (Except Err ℕ) (Except Err ℕ) := do
  let batch ← txDo retFail (.selectOutboxBatch (relayBatch batchSize))
  if batch.length = 0 then do
    commitTx retFail
    pure (.ok 0)
  else do
    let now ← timeNow
    publishRows now batch
    commitTx retFail
    pure (.ok batch.length)

def runOnce (batchSize : ℤ) : Go (Except Err ℕ) := withTx retFail (relayTx batchSize)

end LiveRevenue
