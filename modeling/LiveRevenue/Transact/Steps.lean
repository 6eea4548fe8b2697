import Mathlib.Data.Nat.Notation

/-! # Runs of a partial step function

A transition system given by a function that returns the next state of an enabled
action. `Steps` collects the states of all its runs.
-/

namespace Transact

variable {σ α : Type}

/-- The states of all runs from `s₀`. -/
inductive Steps (step : σ → α → Option σ) (s₀ : σ) : σ → Prop where
  | refl : Steps step s₀ s₀
  | tail {s s' : σ} {a : α} : Steps step s₀ s → step s a = some s' → Steps step s₀ s'

namespace Steps

variable {f : σ → α → Option σ} {s₀ s s' : σ}

theorem trans (h : Steps f s₀ s) (h' : Steps f s s') : Steps f s₀ s' := by
  induction h' with
  | refl => exact h
  | tail _ hs ih => exact .tail ih hs

theorem induct {P : σ → Prop} (h : Steps f s₀ s) (h₀ : P s₀)
    (hs : ∀ s a s', Steps f s₀ s → P s → f s a = some s' → P s') : P s := by
  induction h with
  | refl => exact h₀
  | tail hr hstep ih => exact hs _ _ _ hr ih hstep

def runAll (f : σ → α → Option σ) (s : σ) : List α → Option σ
  | [] => some s
  | a :: as => match f s a with
    | some s' => runAll f s' as
    | none => none

theorem of_runAll {as : List α} (h : runAll f s as = some s') : Steps f s s' := by
  induction as generalizing s with
  | nil =>
    cases h
    exact .refl
  | cons a as ih =>
    simp only [runAll] at h
    split at h
    · next s₁ hs => exact (Steps.tail .refl hs).trans (ih h)
    · cases h

theorem exists_of_runAll (as : List α) {p : σ → Bool} (h : (runAll f s as).any p = true) :
    ∃ s', Steps f s s' ∧ p s' = true := by
  cases hs : runAll f s as with
  | none =>
    rw [hs] at h
    cases h
  | some s' =>
    rw [hs] at h
    exact ⟨s', of_runAll hs, h⟩

end Steps

end Transact
