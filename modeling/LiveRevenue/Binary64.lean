import Mathlib.Algebra.BigOperators.Group.List.Basic
import Mathlib.Algebra.Order.BigOperators.Group.List
import Mathlib.Algebra.Ring.Parity
import Mathlib.Algebra.Ring.Int.Parity

/-! # Integers as doubles

What binary64 addition makes of integers: the exact sum, rounded to a significand of 53
bits, to the nearest and in a tie to the even one. The exponent is left unbounded. Below
2^53 nothing is lost; from there on every result is even.
-/

namespace Binary64

/-- The nearest number with 53 significant bits. -/
def roundNat (n : ℕ) : ℕ :=
  if n < 2 ^ 53 then n
  else
    let unit := 2 ^ (n.log2 - 52)
    let q := n / unit
    let r := n % unit
    if 2 * r < unit ∨ 2 * r = unit ∧ q % 2 = 0 then q * unit else (q + 1) * unit

def round : ℤ → ℤ
  | .ofNat n => roundNat n
  | .negSucc n => -roundNat (n + 1)

def add (a b : ℤ) : ℤ := round (a + b)

/-- A sum in the order of the list, rounded at every step. -/
def sum (xs : List ℤ) : ℤ := xs.foldl add 0

variable {x : ℤ} {xs : List ℤ}

theorem round_of_lt (h0 : 0 ≤ x) (h : x < 2 ^ 53) : round x = x := by
  obtain ⟨n, rfl⟩ := Int.eq_ofNat_of_zero_le h0
  have hn : n < 2 ^ 53 := by exact_mod_cast h
  exact congrArg Int.ofNat (if_pos hn)

theorem even_roundNat {n : ℕ} (h : 2 ^ 53 ≤ n) : Even (roundNat n) := by
  have hn : n ≠ 0 := by omega
  have hlog : 53 ≤ n.log2 := (Nat.le_log2 hn).mpr h
  have hunit : Even (2 ^ (n.log2 - 52)) := even_two.pow_of_ne_zero (by omega)
  rw [roundNat, if_neg (by omega)]
  dsimp only
  split
  · exact hunit.mul_left _
  · exact hunit.mul_left _

theorem round_ne_of_odd {a y : ℤ} (ha : 0 ≤ a) (hy : 2 ^ 53 ≤ y) (hodd : Odd y) : round a ≠ y := by
  rintro rfl
  by_cases hlt : a < 2 ^ 53
  · rw [round_of_lt ha hlt] at hy
    omega
  · obtain ⟨n, rfl⟩ := Int.eq_ofNat_of_zero_le ha
    have hn : 2 ^ 53 ≤ n := by
      have := not_lt.mp hlt
      exact_mod_cast this
    have heven : Even (round (n : ℤ)) := (even_roundNat hn).natCast
    exact (Int.not_even_iff_odd.mpr hodd) heven

theorem round_nonneg (h : 0 ≤ x) : 0 ≤ round x := by
  obtain ⟨n, rfl⟩ := Int.eq_ofNat_of_zero_le h
  exact Int.natCast_nonneg _

theorem add_of_lt {a b : ℤ} (ha : 0 ≤ a) (hb : 0 ≤ b) (h : a + b < 2 ^ 53) : add a b = a + b :=
  round_of_lt (by omega) h

theorem foldl_add {a : ℤ} (ha : 0 ≤ a) (hpos : ∀ x ∈ xs, 0 ≤ x) (h : a + xs.sum < 2 ^ 53) :
    xs.foldl add a = a + xs.sum := by
  induction xs generalizing a with
  | nil => simp
  | cons x xs ih =>
    have hx : 0 ≤ x := hpos x List.mem_cons_self
    have hxs : 0 ≤ xs.sum := List.sum_nonneg fun y hy => hpos y (List.mem_cons_of_mem x hy)
    rw [List.sum_cons] at h ⊢
    rw [List.foldl_cons, add_of_lt ha hx (by omega),
      ih (by omega) (fun y hy => hpos y (List.mem_cons_of_mem x hy)) (by omega), add_assoc]

theorem sum_eq (hpos : ∀ x ∈ xs, 0 ≤ x) (h : xs.sum < 2 ^ 53) : sum xs = xs.sum := by
  rw [sum, foldl_add le_rfl hpos (by omega), zero_add]

theorem foldl_add_nonneg {a : ℤ} (ha : 0 ≤ a) (hpos : ∀ x ∈ xs, 0 ≤ x) : 0 ≤ xs.foldl add a := by
  induction xs generalizing a with
  | nil => exact ha
  | cons x xs ih =>
    have hx : 0 ≤ x := hpos x List.mem_cons_self
    exact ih (round_nonneg (by omega)) fun y hy => hpos y (List.mem_cons_of_mem x hy)

/-- A sum that is odd and too large comes out wrong in every order. -/
theorem sum_ne_of_odd (hpos : ∀ x ∈ xs, 0 ≤ x) {y : ℤ} (hy : 2 ^ 53 ≤ y) (hodd : Odd y) :
    sum xs ≠ y := by
  rcases List.eq_nil_or_concat' xs with rfl | ⟨ys, x, rfl⟩
  · rintro rfl
    change (2 : ℤ) ^ 53 ≤ 0 at hy
    omega
  · rw [List.forall_mem_append, List.forall_mem_singleton] at hpos
    have h0 := foldl_add_nonneg le_rfl hpos.1
    rw [sum, List.foldl_append]
    exact round_ne_of_odd (by omega) hy hodd

example : sum [2 ^ 53, 1, 1] = 2 ^ 53 ∧ sum [1, 1, 2 ^ 53] = 2 ^ 53 + 2 := by decide

end Binary64
