import Mathlib.Data.Nat.Notation
import Mathlib.Logic.Function.Basic

/-! # Programs as trees of commands

A program either returns or issues one command and continues with the reply.
Interpreting the commands one at a time, in any order among several programs,
gives the interleavings of those programs at command granularity.
-/

namespace Transact

variable {C : Type} {R : C → Type} {α β γ ε : Type}

/-- A terminating program over commands `c : C` with replies in `R c`. -/
inductive Prog (C : Type) (R : C → Type) (α : Type) where
  | ret (a : α)
  | op (c : C) (k : R c → Prog C R α)

namespace Prog

def bind : Prog C R α → (α → Prog C R β) → Prog C R β
  | .ret a, f => f a
  | .op c k, f => .op c (fun r => (k r).bind f)

instance : Monad (Prog C R) where
  pure := .ret
  bind := bind

@[simp] theorem pure_eq (a : α) : (pure a : Prog C R α) = .ret a := rfl
@[simp] theorem bind_eq (p : Prog C R α) (f : α → Prog C R β) : p >>= f = p.bind f := rfl
@[simp] theorem ret_bind (a : α) (f : α → Prog C R β) : (Prog.ret a).bind f = f a := rfl
@[simp] theorem op_bind (c : C) (k : R c → Prog C R α) (f : α → Prog C R β) :
    (Prog.op c k).bind f = .op c (fun r => (k r).bind f) := rfl

theorem bind_bind (p : Prog C R α) (f : α → Prog C R β) (g : β → Prog C R γ) :
    (p.bind f).bind g = p.bind fun a => (f a).bind g := by
  induction p with
  | ret a => rfl
  | op c k ih => exact congrArg (Prog.op c) (funext ih)

def call (c : C) : Prog C R (R c) := .op c .ret

def next? : Prog C R α → Option C
  | .ret _ => none
  | .op c _ => some c

def result? : Prog C R α → Option α
  | .ret a => some a
  | .op _ _ => none

/-- No path through the program issues more than `n` commands. -/
def Within : Prog C R α → (n : ℕ) → Prop
  | .ret _, _ => True
  | .op _ _, 0 => False
  | .op _ k, n + 1 => ∀ r, (k r).Within n

theorem Within.mono {p : Prog C R α} {m n : ℕ} (h : p.Within m) (hle : m ≤ n) : p.Within n := by
  induction p generalizing m n with
  | ret a => trivial
  | op c k ih =>
    cases m with
    | zero => cases h
    | succ m =>
      obtain ⟨n, rfl⟩ := Nat.exists_eq_add_of_le' (Nat.lt_of_lt_of_le (Nat.succ_pos m) hle)
      exact fun r => ih r (h r) (Nat.le_of_succ_le_succ hle)

theorem Within.bind {p : Prog C R α} {f : α → Prog C R β} {m n : ℕ} (hp : p.Within m)
    (hf : ∀ a, (f a).Within n) : (p.bind f).Within (m + n) := by
  induction p generalizing m with
  | ret a => exact (hf a).mono (Nat.le_add_left n m)
  | op c k ih =>
    cases m with
    | zero => cases hp
    | succ m =>
      rw [Nat.succ_add]
      exact fun r => ih r (hp r)

theorem Within.of_bind {p : Prog C R α} {f : α → Prog C R β} {n : ℕ} (h : (p.bind f).Within n) :
    p.Within n := by
  induction p generalizing n with
  | ret a => trivial
  | op c k ih =>
    cases n with
    | zero => cases h
    | succ n => exact fun r => ih r (h r)

/-- Every command of the program, together with what follows it, satisfies `φ`. -/
def All (φ : (c : C) → (R c → Prog C R α) → Prop) : Prog C R α → Prop
  | .ret _ => True
  | .op c k => φ c k ∧ ∀ r, (k r).All φ

/-- A result in `A` is returned only after a command in `P`. -/
def After (P : C → Prop) (A : α → Prop) : Prog C R α → Prop
  | .ret a => ¬ A a
  | .op c k => P c ∨ ∀ r, (k r).After P A

theorem After.bind {P : C → Prop} {A : β → Prop} {f : α → Prog C R β} (p : Prog C R α)
    (hf : ∀ a, (f a).After P A) : (p.bind f).After P A := by
  induction p with
  | ret a => exact hf a
  | op c k ih => exact .inr ih

end Prog

/-- Programs with an early exit: a function body whose `return` may stand anywhere. -/
abbrev Body (C : Type) (R : C → Type) (ε α : Type) := ExceptT ε (Prog C R) α

namespace Body

def run (m : Body C R α α) : Prog C R α :=
  Prog.bind (ExceptT.run m) fun
    | .ok a => .ret a
    | .error a => .ret a

def call (c : C) : Body C R ε (R c) := ExceptT.lift (Prog.call c)

end Body

end Transact
