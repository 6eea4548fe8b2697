import LiveRevenue.Transact.Pool
import Mathlib.Data.Nat.Find
import Mathlib.Order.Lattice

/-! # Fair behaviours

An infinite run of a pool, in which a moment may also pass without a step. Programs are
finite trees, so a process that is never hindered ends in every behaviour that is fair
to it.
-/

namespace Transact

variable {C : Type} {R : C → Type} {Ω Ch α : Type}

/-- A run that goes on forever. -/
structure Behaviour (M : Machine C R Ω Ch α) (s₀ : Pool C R Ω α) where
  state : ℕ → Pool C R Ω α
  act : ℕ → Option (Act Ch)
  state_zero : state 0 = s₀
  next : ∀ n, match act n with
    | some a => M.step (state n) a = some (state (n + 1))
    | none => state (n + 1) = state n

namespace Behaviour

variable {M : Machine C R Ω Ch α} {s₀ : Pool C R Ω α} {b : Behaviour M s₀} {t n : ℕ}

theorem next_some {a : Act Ch} (h : b.act n = some a) :
    M.step (b.state n) a = some (b.state (n + 1)) := by
  have := b.next n
  rwa [h] at this

theorem next_none (h : b.act n = none) : b.state (n + 1) = b.state n := by
  have := b.next n
  rwa [h] at this

theorem reach (b : Behaviour M s₀) (n : ℕ) : M.Reach (fun _ _ _ => True) s₀ (b.state n) := by
  induction n with
  | zero =>
    rw [b.state_zero]
    exact .refl
  | succ n ih =>
    cases ha : b.act n with
    | none =>
      rw [next_none ha]
      exact ih
    | some a => exact ih.tail (next_some ha) trivial

/-- Weak fairness: whoever can execute its next command from some moment on acts again. -/
def Fair (b : Behaviour M s₀) (t : ℕ) : Prop :=
  ∀ n, (∀ m, n ≤ m → ∃ ch, (M.step (b.state m) (.run t ch)).isSome = true) →
    ∃ m a, n ≤ m ∧ b.act m = some a ∧ a.process = t

theorem threads_eq {m : ℕ} (hm : n ≤ m)
    (h : ∀ i a, n ≤ i → i < m → b.act i = some a → a.process ≠ t) :
    (b.state m).threads t = (b.state n).threads t := by
  induction m, hm using Nat.le_induction with
  | base => rfl
  | succ m hm ih =>
    have hprev := ih fun i a hi hlt => h i a hi (by omega)
    cases ha : b.act m with
    | none => rw [next_none ha, hprev]
    | some a =>
      have hreach : M.Reach (fun _ a _ => t ≠ a.process) (b.state m) (b.state (m + 1)) :=
        .tail .refl (next_some ha) (h m a hm (by omega) ha).symm
      rw [hreach.untouched fun _ _ _ hk => hk, hprev]

theorem exists_first (h : ∃ m a, n ≤ m ∧ b.act m = some a ∧ a.process = t) :
    ∃ m a, n ≤ m ∧ b.act m = some a ∧ a.process = t ∧
      (b.state m).threads t = (b.state n).threads t := by
  classical
  let p : ℕ → Prop := fun m => ∃ a, n ≤ m ∧ b.act m = some a ∧ a.process = t
  obtain ⟨a, hle, ha, hp⟩ := Nat.find_spec (p := p) h
  refine ⟨Nat.find (p := p) h, a, hle, ha, hp, threads_eq hle ?_⟩
  intro i x hi hlt hx hxt
  exact Nat.find_min (p := p) h hlt ⟨x, hi, hx, hxt⟩

/-- A process that can always execute its next command returns or dies. -/
theorem ends (hf : b.Fair t)
    (he : ∀ m, ((b.state m).threads t).running = true →
      ∃ ch, (M.step (b.state m) (.run t ch)).isSome = true)
    {p : Prog C R α} (hp : (b.state n).threads t = .live p) :
    ∃ m, n ≤ m ∧ ((∃ a, ((b.state m).threads t).result? = some a) ∨
      (b.state m).threads t = .dead) := by
  induction p generalizing n with
  | ret a => exact ⟨n, le_rfl, .inl ⟨a, by rw [hp]; rfl⟩⟩
  | op c k ih =>
    have hacts : ∃ m a, n ≤ m ∧ b.act m = some a ∧ a.process = t := by
      by_contra hnot
      refine hnot (hf n fun m hm => he m ?_)
      rw [threads_eq hm fun i a hi _ ha hp => hnot ⟨i, a, hi, ha, hp⟩, hp]
      rfl
    obtain ⟨m, a, hm, ha, hproc, hsame⟩ := exists_first hacts
    rw [hp] at hsame
    have hstep := next_some ha
    cases a with
    | start u =>
      obtain rfl : u = t := hproc
      obtain ⟨hidle, -, -⟩ := Machine.step_start hstep
      rw [hsame] at hidle
      cases hidle
    | run u ch =>
      obtain rfl : u = t := hproc
      obtain ⟨c', k', r, w, hlive, -, hnext⟩ := Machine.step_run hstep
      rw [hsame] at hlive
      cases hlive
      obtain ⟨m', hm', hend⟩ := ih r (n := m + 1) (by rw [hnext, Pool.setThread_self])
      exact ⟨m', by omega, hend⟩
    | crash u =>
      obtain rfl : u = t := hproc
      obtain ⟨c', k', -, hnext⟩ := Machine.step_crash hstep
      exact ⟨m + 1, by omega, .inr (by rw [hnext, Pool.setThread_self])⟩

section Schedule

variable (M)

variable {M} {as : List (Act Ch)}

end Schedule

end Behaviour

end Transact
