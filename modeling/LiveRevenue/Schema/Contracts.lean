import Mathlib.Tactic.Common
import LiveRevenue.Schema.Events

/-! # Requests, responses and errors

The external contracts of the service layer and what the program takes from the
libraries and the server it runs on.
-/

namespace LiveRevenue

abbrev Digest := List UInt8

structure RechargeRequest where
  requestID : String
  viewerID : ℕ
  coins : ℕ
  paymentRef : String
  deriving DecidableEq, Repr

structure RechargeResponse where
  txID : ℕ
  viewerID : ℕ
  coinsAdded : ℕ
  newBalance : ℤ
  idempotency : String
  deriving DecidableEq, Repr

structure GiftRequest where
  requestID : String
  viewerID : ℕ
  creatorID : ℕ
  liveSessionID : ℕ
  matchID : Option ℕ
  giftID : String
  quantity : ℕ
  sentAtMS : ℤ
  deriving DecidableEq, Repr

structure GiftResponse where
  giftOrderID : ℕ
  accepted : Bool
  chargedCoins : ℕ
  matchPointsAdded : ℕ
  diamondReward : ℕ
  newBalance : ℤ
  idempotency : String
  deriving DecidableEq, Repr

structure AppError where
  httpStatus : ℕ
  code : String
  message : String
  deriving DecidableEq, Repr

/-- What a statement can fail with. `infra` is any failure of the connection or the
server: a lost connection, a deadlock victim, a timeout. -/
inductive SqlErr where
  | dupKey
  | foreignKey
  | dataTooLong
  | outOfRange
  | autoIncrement
  | noRows
  | scan
  | txDone
  | overflow
  | infra
  deriving DecidableEq, Repr

def SqlErr.error : SqlErr → String
  | .dupKey => "Error 1062 (23000): Duplicate entry"
  | .foreignKey => "Error 1452 (23000): Cannot add or update a child row"
  | .dataTooLong => "Error 1406 (22001): Data too long for column"
  | .outOfRange => "Error 1264 (22003): Out of range value for column"
  | .autoIncrement => "Error 1467 (HY000): Failed to read auto-increment value"
  | .noRows => "sql: no rows in result set"
  | .scan => "sql: Scan error"
  | .txDone => "sql: transaction has already been committed or rolled back"
  | .overflow => "ERR increment or decrement would overflow"
  | .infra => "connection failure"

inductive Err where
  | sql (e : SqlErr)
  | text (s : String)
  deriving DecidableEq, Repr

/-- The three-way result `(response, *AppError, error)`. -/
inductive Ret (α : Type) where
  | ok (a : α)
  | app (e : AppError)
  | err (e : Err)
  deriving DecidableEq, Repr

def isDupKey : SqlErr → Bool
  | .dupKey => true
  | _ => false

theorem eq_dupKey {e : SqlErr} (h : isDupKey e = true) : e = .dupKey := by
  cases e <;> first | rfl | cases h

def errValidation : AppError := ⟨400, "VALIDATION_ERROR", "invalid request payload"⟩

def payloadMismatch : AppError :=
  ⟨409, "IDEMPOTENCY_PAYLOAD_MISMATCH", "same request_id with different payload"⟩

namespace Varchar

/-- A `VARCHAR(n)` column refuses a value of which more than spaces is beyond its length. -/
def refuses (n : ℕ) (s : String) : Bool := (s.toList.drop n).any (· ≠ ' ')

/-- What the column has of a value: spaces beyond its length are cut, in every SQL mode. -/
def store (n : ℕ) (s : String) : String := String.ofList (s.toList.take n)

def Cut (n : ℕ) (stored value : String) : Prop := stored = store n value

/-- The column has the value as it is, or refuses it. -/
def Exact (n : ℕ) (s : String) : Prop := refuses n s = false → store n s = s

instance (n : ℕ) (s : String) : Decidable (Exact n s) :=
  inferInstanceAs (Decidable (refuses n s = false → store n s = s))

variable {n : ℕ} {s : String}

theorem store_eq_self (h : s.length ≤ n) : store n s = s := by
  rw [store, List.take_of_length_le (by rwa [String.length_toList]), String.ofList_toList]

theorem store_store (n : ℕ) (s : String) : store n (store n s) = store n s := by
  rw [store, store, String.toList_ofList, List.take_take, min_self]

theorem length_store_le (n : ℕ) (s : String) : (store n s).length ≤ n := by
  rw [store, String.length_ofList]
  exact List.length_take_le n _

theorem length_lt_of_refuses (h : refuses n s = true) : n < s.length := by
  by_contra hle
  rw [refuses, List.drop_of_length_le (by rw [String.length_toList]; omega)] at h
  cases h

theorem exact_of_no_space (h : ' ' ∉ s.toList) : Exact n s := by
  intro hr
  refine store_eq_self ?_
  by_contra hlong
  obtain ⟨c, hc⟩ := List.exists_mem_of_ne_nil (s.toList.drop n) (by
    rw [Ne, List.drop_eq_nil_iff, String.length_toList]
    omega)
  have hspace := List.any_eq_false.mp hr c hc
  simp only [ne_eq, decide_not, Bool.not_eq_true', decide_eq_false_iff_not, not_not] at hspace
  exact h (hspace ▸ List.mem_of_mem_drop hc)

end Varchar

/-- What the program takes from its libraries and its server: the body hashes
(`BodyHashHex`: SHA-256 of the JSON body), the representative of a rune's simple
case-folding orbit (`strings.EqualFold`) and the weight string of the server's
collation, which every `VARCHAR` comparison and unique key goes through. All that is used of
SHA-256 being free of collisions is `giftHash_covers`: if the digest of a gift is on record under
an id that the collation equates with its own, then so is its own id as it is stored. -/
class Platform where
  giftHash : GiftRequest → Digest
  rechargeHash : RechargeRequest → Digest
  simpleFold : Char → Char
  collate : String → String
  giftHash_covers : ∀ {req req' : GiftRequest}, giftHash req' = giftHash req →
    collate (Varchar.store 64 req'.requestID) = collate req.requestID →
    collate (Varchar.store 64 req.requestID) = collate req.requestID

def isSpace (c : Char) : Bool :=
  c.toNat ∈ [0x09, 0x0A, 0x0B, 0x0C, 0x0D, 0x20, 0x85, 0xA0, 0x1680, 0x2028, 0x2029, 0x202F,
    0x205F, 0x3000] || (0x2000 ≤ c.toNat && c.toNat ≤ 0x200A)

def isBlank (s : String) : Bool := s.toList.all isSpace

def equalFold [Platform] (a b : String) : Bool :=
  a.toList.map Platform.simpleFold == b.toList.map Platform.simpleFold

def bytesEqual : Digest → Digest → Bool
  | [], [] => true
  | a :: as, b :: bs => a == b && bytesEqual as bs
  | _, _ => false

@[simp] theorem bytesEqual_iff (a b : Digest) : bytesEqual a b = true ↔ a = b := by
  induction a generalizing b with
  | nil => cases b <;> simp [bytesEqual]
  | cons x xs ih => cases b <;> simp [bytesEqual, ih]

-- `Nat.repr_inj` of `Std.Data.String.ToNat`, a module that only the whole of Mathlib imports.
@[simp] theorem decimal_inj {m n : ℕ} : m.repr = n.repr ↔ m = n := by
  refine ⟨fun h => ?_, congrArg Nat.repr⟩
  have hd : (Nat.repr m).toList = (Nat.repr n).toList := congrArg String.toList h
  simp only [Nat.toList_repr] at hd
  rw [← Nat.ofDigitChars_ten_toDigits (n := m), hd, Nat.ofDigitChars_ten_toDigits]

def fitsInt64 (x : ℤ) : Bool := -2 ^ 63 ≤ x && x < 2 ^ 63

/-- The value a 64-bit signed integer has after an operation whose exact result is `x`. -/
@[irreducible] def wrap64 (x : ℤ) : ℤ := Int.bmod x (2 ^ 64)

theorem wrap64_of_bounds {x : ℤ} (h : -2 ^ 63 ≤ x) (h' : x < 2 ^ 63) : wrap64 x = x := by
  unfold wrap64
  rw [Int.bmod_eq_of_le] <;> omega

theorem wrap64_product {n q : ℕ} (hn : n < 2 ^ 32) (hq : q ≤ 99) :
    wrap64 ((n : ℤ) * q) = (n * q : ℕ) := by
  have hle : n * q ≤ n * 99 := Nat.mul_le_mul_left n hq
  have hcast : (n : ℤ) * q = (n * q : ℕ) := (Int.natCast_mul n q).symm
  rw [hcast]
  exact wrap64_of_bounds (by omega) (by omega)

theorem wrap64_id {n : ℕ} (hn : n < 2 ^ 64) (h : ¬ wrap64 n < 1) :
    n < 2 ^ 63 ∧ (wrap64 n).toNat = n := by
  unfold wrap64 Int.bmod at *
  dsimp only at h ⊢
  split at h <;> omega

end LiveRevenue
