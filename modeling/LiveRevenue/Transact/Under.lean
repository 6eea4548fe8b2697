import LiveRevenue.Transact.Pool

/-! # Programs under assumptions on their replies

What a program does next depends on the replies it gets, and a state may determine the
replies from some moment on. `Under A G` says that as long as every reply meets `A`, every
command meets `G`. It is checked on the program alone, and a process whose replies meet
`A` keeps it.
-/

namespace Transact

variable {C : Type} {R : C → Type} {Ω Ch α β ε : Type} {A : (c : C) → R c → Prop} {G : C → Prop}

namespace Prog

/-- While the replies meet `A`, the commands meet `G`, and so does a result `Q`. -/
def Under (A : (c : C) → R c → Prop) (G : C → Prop) (Q : α → Prop) : Prog C R α → Prop
  | .ret a => Q a
  | .op c k => G c ∧ ∀ r, A c r → (k r).Under A G Q

theorem Under.bind {p : Prog C R α} {f : α → Prog C R β} {Q : α → Prop} {S : β → Prop}
    (h : p.Under A G Q) (hf : ∀ a, Q a → (f a).Under A G S) : (p.bind f).Under A G S := by
  induction p with
  | ret a => exact hf a h
  | op c k ih => exact ⟨h.1, fun r hr => ih r (h.2 r hr)⟩

end Prog

namespace Body

/-- The same for a body; nothing is asked of its early exits. -/
def Under (A : (c : C) → R c → Prop) (G : C → Prop) (Q : α → Prop) (m : Body C R ε α) : Prop :=
  Prog.Under A G (fun r => ∀ a, r = .ok a → Q a) (ExceptT.run m)

namespace Under

variable {Q : α → Prop} {S : β → Prop} {m : Body C R ε α}

theorem pure {a : α} (h : Q a) : Under A G Q (Pure.pure a : Body C R ε α) := by
  rintro _ ⟨⟩
  exact h

theorem throw {e : ε} : Under A G Q (MonadExcept.throw e : Body C R ε α) := by
  rintro _ ⟨⟩

theorem bind {f : α → Body C R ε β} (h : Under A G Q m) (hf : ∀ a, Q a → Under A G S (f a)) :
    Under A G S (m >>= f) := by
  refine Prog.Under.bind h ?_
  rintro (e | a) hq
  · rintro _ ⟨⟩
  · exact hf a (hq a rfl)

theorem call {c : C} {S : R c → Prop} (hc : G c) (h : ∀ r, A c r → S r) :
    Under A G S (Body.call c : Body C R ε (R c)) := by
  refine ⟨hc, fun r hr => ?_⟩
  rintro _ ⟨⟩
  exact h r hr

theorem lift {p : Prog C R α} (h : p.Under A G Q) :
    Under A G Q (ExceptT.lift p : Body C R ε α) := by
  refine Prog.Under.bind h fun a hq => ?_
  rintro _ ⟨⟩
  exact hq

theorem run {m : Body C R α α} {Q : α → Prop} (h : Under A G Q m) :
    Prog.Under A G (fun _ => True) (Body.run m) := by
  refine Prog.Under.bind h ?_
  rintro (e | a) - <;> trivial

end Under

end Body

def Thread.Under (A : (c : C) → R c → Prop) (G : C → Prop) : Thread C R α → Prop
  | .live p => p.Under A G fun _ => True
  | _ => True

namespace Machine

variable {M : Machine C R Ω Ch α} {s s' : Pool C R Ω α} {t : ℕ} {a : Act Ch}

/-- A step of the pool keeps it, if the reply that the process gets meets the assumption. -/
theorem step_under (hstep : M.step s a = some s') (hp : (M.program t).Under A G fun _ => True)
    (hreply : ∀ {c k ch r w}, s.threads t = .live (.op c k) →
      M.exec t c ch s.world = some (r, w) → A c r)
    (h : (s.threads t).Under A G) : (s'.threads t).Under A G := by
  cases a with
  | start u =>
    obtain ⟨-, -, rfl⟩ := step_start hstep
    by_cases hu : t = u
    · subst hu
      rw [Pool.setThread_self]
      exact hp
    · rwa [Pool.setThread_of_ne hu]
  | run u ch =>
    obtain ⟨c, k, r, w, hk, hex, rfl⟩ := step_run hstep
    by_cases hu : t = u
    · subst hu
      rw [Pool.setThread_self]
      rw [hk] at h
      exact h.2 r (hreply hk hex)
    · rwa [Pool.setThread_of_ne hu]
  | crash u =>
    obtain ⟨c, k, -, rfl⟩ := step_crash hstep
    by_cases hu : t = u
    · subst hu
      rw [Pool.setThread_self]
      trivial
    · rwa [Pool.setThread_of_ne hu]

end Machine

end Transact
