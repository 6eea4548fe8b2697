import LiveRevenue.Transact.Program

/-! # Interference-aware assertions on programs

Several programs run over one shared state. `Safe` says of one of them that,
whatever the others do within `rely`, each of its own commands stays within
`guar` and its result meets the postcondition. The rules below follow the
shape of the program; `Machine.Sound.reach` turns them into a statement about
every state that any interleaving reaches.
-/

namespace Transact

variable {C : Type} {R : C → Type} {Ω α β ε : Type}

/-- Semantics of the commands together with what a process may assume of the
others, what it promises them, and what must hold wherever it may die. -/
structure Logic (C : Type) (R : C → Type) (Ω : Type) where
  sem : ℕ → (c : C) → Ω → R c → Ω → Prop
  inv : Ω → Prop
  rely : ℕ → Ω → Ω → Prop
  guar : ℕ → Ω → Ω → Prop
  dies : ℕ → C → Ω → Prop
  rely_refl : ∀ t w, rely t w w
  rely_trans : ∀ {t a b c}, rely t a b → rely t b c → rely t a c

/-- Process `t`, suspended at the given program, keeps its promises from here on. -/
def Safe (𝓛 : Logic C R Ω) (t : ℕ) (Q : α → Ω → Prop) : Prog C R α → Ω → Prop
  | .ret a, w => ∀ w', 𝓛.rely t w w' → 𝓛.inv w' → Q a w'
  | .op c k, w => ∀ w', 𝓛.rely t w w' → 𝓛.inv w' →
      𝓛.dies t c w' ∧ ∀ r w'', 𝓛.sem t c w' r w'' →
        𝓛.guar t w' w'' ∧ Safe 𝓛 t Q (k r) w''

namespace Safe

variable {𝓛 : Logic C R Ω} {t : ℕ} {Q Q' : α → Ω → Prop} {p : Prog C R α} {w w' : Ω}

theorem rely (h : Safe 𝓛 t Q p w) (hr : 𝓛.rely t w w') : Safe 𝓛 t Q p w' := by
  cases p with
  | ret a => exact fun v hv hi => h v (𝓛.rely_trans hr hv) hi
  | op c k => exact fun v hv hi => h v (𝓛.rely_trans hr hv) hi

theorem intro (h : ∀ v, 𝓛.rely t w v → 𝓛.inv v → Safe 𝓛 t Q p v) : Safe 𝓛 t Q p w := by
  cases p with
  | ret a => exact fun v hv hi => h v hv hi v (𝓛.rely_refl _ _) hi
  | op c k => exact fun v hv hi => h v hv hi v (𝓛.rely_refl _ _) hi

theorem mono (h : Safe 𝓛 t Q p w) (hq : ∀ a v, 𝓛.inv v → Q a v → Q' a v) :
    Safe 𝓛 t Q' p w := by
  induction p generalizing w with
  | ret a => exact fun v hv hi => hq a v hi (h v hv hi)
  | op c k ih =>
    intro v hv hi
    obtain ⟨hd, hs⟩ := h v hv hi
    exact ⟨hd, fun r v' hr => ⟨(hs r v' hr).1, ih r (hs r v' hr).2⟩⟩

theorem and (h : Safe 𝓛 t Q p w) (h' : Safe 𝓛 t Q' p w) :
    Safe 𝓛 t (fun a v => Q a v ∧ Q' a v) p w := by
  induction p generalizing w with
  | ret a => exact fun v hv hi => ⟨h v hv hi, h' v hv hi⟩
  | op c k ih =>
    intro v hv hi
    obtain ⟨hd, hs⟩ := h v hv hi
    have hs' := (h' v hv hi).2
    exact ⟨hd, fun r v' hr => ⟨(hs r v' hr).1, ih r (hs r v' hr).2 (hs' r v' hr).2⟩⟩

theorem keep (h : Safe 𝓛 t Q p w) :
    Safe 𝓛 t (fun a v => ∀ u, 𝓛.rely t v u → 𝓛.inv u → Q a u) p w := by
  induction p generalizing w with
  | ret a => exact fun v hv _ u hu hi => h u (𝓛.rely_trans hv hu) hi
  | op c k ih =>
    intro v hv hi
    obtain ⟨hd, hs⟩ := h v hv hi
    exact ⟨hd, fun r v' hr => ⟨(hs r v' hr).1, ih r (hs r v' hr).2⟩⟩

theorem bind {f : α → Prog C R β} {S : β → Ω → Prop}
    (h : Safe 𝓛 t (fun a v => Safe 𝓛 t S (f a) v) p w) : Safe 𝓛 t S (p.bind f) w := by
  induction p generalizing w with
  | ret a => exact intro h
  | op c k ih =>
    intro v hv hi
    obtain ⟨hd, hs⟩ := h v hv hi
    exact ⟨hd, fun r v' hr => ⟨(hs r v' hr).1, ih r (hs r v' hr).2⟩⟩

theorem call {c : C} {S : R c → Ω → Prop}
    (hS : ∀ r v v', 𝓛.rely t v v' → 𝓛.inv v' → S r v → S r v')
    (h : ∀ v, 𝓛.rely t w v → 𝓛.inv v → 𝓛.dies t c v ∧
      ∀ r v', 𝓛.sem t c v r v' → 𝓛.guar t v v' ∧ S r v') :
    Safe 𝓛 t S (Prog.call c) w := by
  intro v hv hi
  obtain ⟨hd, hs⟩ := h v hv hi
  exact ⟨hd, fun r v' hr => ⟨(hs r v' hr).1, fun u hu hiu => hS r v' u hu hiu (hs r v' hr).2⟩⟩

end Safe

/-- `Safe` for a body: one postcondition for its end, one for its early exits. -/
def Runs (𝓛 : Logic C R Ω) (t : ℕ) (m : Body C R ε α) (Q : α → Ω → Prop)
    (E : ε → Ω → Prop) (w : Ω) : Prop :=
  Safe 𝓛 t (fun r v => match r with
    | .ok a => Q a v
    | .error e => E e v) (ExceptT.run m) w

namespace Runs

variable {𝓛 : Logic C R Ω} {t : ℕ} {m : Body C R ε α} {Q Q' : α → Ω → Prop}
  {E E' : ε → Ω → Prop} {w w' : Ω}

theorem rely (h : Runs 𝓛 t m Q E w) (hr : 𝓛.rely t w w') : Runs 𝓛 t m Q E w' :=
  Safe.rely h hr

theorem mono (h : Runs 𝓛 t m Q E w) (hq : ∀ a v, 𝓛.inv v → Q a v → Q' a v)
    (he : ∀ e v, 𝓛.inv v → E e v → E' e v) : Runs 𝓛 t m Q' E' w := by
  refine Safe.mono h ?_
  rintro (e | a) v hi hv
  · exact he e v hi hv
  · exact hq a v hi hv

theorem keep (h : Runs 𝓛 t m Q E w) :
    Runs 𝓛 t m (fun a v => ∀ u, 𝓛.rely t v u → 𝓛.inv u → Q a u)
      (fun e v => ∀ u, 𝓛.rely t v u → 𝓛.inv u → E e u) w := by
  refine Safe.mono (Safe.keep h) ?_
  rintro (e | a) v _ hv
  · exact hv
  · exact hv

theorem pure {a : α} (h : ∀ v, 𝓛.rely t w v → 𝓛.inv v → Q a v) :
    Runs 𝓛 t (Pure.pure a : Body C R ε α) Q E w := h

theorem throw {e : ε} (h : ∀ v, 𝓛.rely t w v → 𝓛.inv v → E e v) :
    Runs 𝓛 t (throw e : Body C R ε α) Q E w := h

theorem bind {f : α → Body C R ε β} {S : β → Ω → Prop}
    (h : Runs 𝓛 t m (fun a v => Runs 𝓛 t (f a) S E v) E w) : Runs 𝓛 t (m >>= f) S E w := by
  refine Safe.bind (Safe.mono (Safe.keep h) ?_)
  rintro (e | a) v hi hv
  · exact hv
  · exact hv v (𝓛.rely_refl _ _) hi

theorem seq {f : α → Body C R ε β} {S : β → Ω → Prop} (h : Runs 𝓛 t m Q E w)
    (hf : ∀ a v, 𝓛.inv v → Q a v → Runs 𝓛 t (f a) S E v) : Runs 𝓛 t (m >>= f) S E w :=
  bind (mono h hf fun _ _ _ he => he)

theorem call {c : C} {S : R c → Ω → Prop}
    (hS : ∀ r v v', 𝓛.rely t v v' → 𝓛.inv v' → S r v → S r v')
    (h : ∀ v, 𝓛.rely t w v → 𝓛.inv v → 𝓛.dies t c v ∧
      ∀ r v', 𝓛.sem t c v r v' → 𝓛.guar t v v' ∧ S r v') :
    Runs 𝓛 t (Body.call c : Body C R ε (R c)) S E w :=
  Safe.call hS h

theorem lift {p : Prog C R α} (h : Safe 𝓛 t Q p w) :
    Runs 𝓛 t (ExceptT.lift p : Body C R ε α) Q E w :=
  Safe.bind (Safe.mono (Safe.keep h) fun _ _ _ hv => hv)

/-- A whole function: its early exits and its end produce the same kind of result. -/
theorem toSafe {m : Body C R α α} {Q : α → Ω → Prop} (h : Runs 𝓛 t m Q Q w) :
    Safe 𝓛 t Q (Body.run m) w := by
  refine Safe.bind (Safe.mono (Safe.keep h) ?_)
  rintro (e | a) v hi hv
  · exact hv
  · exact hv

end Runs

end Transact
