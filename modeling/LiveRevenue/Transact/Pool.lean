import LiveRevenue.Transact.Logic

/-! # Pools of processes

A pool holds the shared state and any number of processes, each idle, suspended
in its program, or dead. One action starts a process, runs its next command or
kills it. `Reach` collects the states of all runs whose actions meet a given
condition, and `Sound.reach` carries the assertions of `Logic` to all of them.
-/

namespace Transact

variable {C : Type} {R : C → Type} {Ω Ch α : Type}

inductive Thread (C : Type) (R : C → Type) (α : Type) where
  | idle
  | live (p : Prog C R α)
  | dead

namespace Thread

def next? : Thread C R α → Option C
  | .live p => p.next?
  | _ => none

def result? : Thread C R α → Option α
  | .live p => p.result?
  | _ => none

theorem live_of_result {th : Thread C R α} {a : α} (h : th.result? = some a) :
    th = .live (.ret a) := by
  cases th with
  | live p =>
    cases p with
    | ret b =>
      cases h
      rfl
    | op c k => cases h
  | idle => cases h
  | dead => cases h

theorem live_of_next {th : Thread C R α} {c : C} (h : th.next? = some c) :
    ∃ k, th = .live (.op c k) := by
  cases th with
  | live p =>
    cases p with
    | ret b => cases h
    | op c' k =>
      cases h
      exact ⟨k, rfl⟩
  | idle => cases h
  | dead => cases h

def running (th : Thread C R α) : Bool := th.next?.isSome

end Thread

structure Pool (C : Type) (R : C → Type) (Ω α : Type) where
  world : Ω
  threads : ℕ → Thread C R α

namespace Pool

def fresh (w : Ω) : Pool C R Ω α := ⟨w, fun _ => .idle⟩

def setThread (s : Pool C R Ω α) (t : ℕ) (th : Thread C R α) (w : Ω) : Pool C R Ω α :=
  ⟨w, fun u => if u = t then th else s.threads u⟩

variable {s : Pool C R Ω α} {t u : ℕ} {th : Thread C R α} {w : Ω}

@[simp] theorem setThread_world : (s.setThread t th w).world = w := rfl
@[simp] theorem setThread_self : (s.setThread t th w).threads t = th := if_pos rfl
theorem setThread_of_ne (h : u ≠ t) : (s.setThread t th w).threads u = s.threads u := if_neg h

theorem setThread_ne_idle (hth : th ≠ .idle) (h : s.threads u ≠ .idle) :
    (s.setThread t th w).threads u ≠ .idle := by
  by_cases hut : u = t
  · rwa [hut, setThread_self]
  · rwa [setThread_of_ne hut]

theorem ne_idle_of_setThread (ht : s.threads t ≠ .idle)
    (h : (s.setThread t th w).threads u ≠ .idle) :
    s.threads u ≠ .idle := by
  by_cases hut : u = t
  · rwa [hut]
  · rwa [setThread_of_ne hut] at h

end Pool

/-- One scheduling decision; `ch` settles what the environment decides about a command. -/
inductive Act (Ch : Type) where
  | start (t : ℕ)
  | run (t : ℕ) (ch : Ch)
  | crash (t : ℕ)

def Act.process {Ch : Type} : Act Ch → ℕ
  | .start t => t
  | .run t _ => t
  | .crash t => t

/-- How commands execute, what dies with a process, and what each process runs. -/
structure Machine (C : Type) (R : C → Type) (Ω Ch α : Type) where
  exec : ℕ → (c : C) → Ch → Ω → Option (R c × Ω)
  abort : ℕ → Ω → Ω
  ready : ℕ → Ω → Bool
  program : ℕ → Prog C R α

namespace Machine

variable (M : Machine C R Ω Ch α)

def step (s : Pool C R Ω α) : Act Ch → Option (Pool C R Ω α)
  | .start t => match s.threads t with
    | .idle =>
    if M.ready t s.world then some (s.setThread t (.live (M.program t)) s.world) else none
    | _ => none
  | .run t ch => match s.threads t with
    | .live (.op c k) =>
      match M.exec t c ch s.world with
      | some (r, w) => some (s.setThread t (.live (k r)) w)
      | none => none
    | _ => none
  | .crash t => match s.threads t with
    | .live (.op _ _) => some (s.setThread t .dead (M.abort t s.world))
    | _ => none

/-- Run a schedule; `none` when some action of it is not enabled or its step fails the check. -/
def run (K : Pool C R Ω α → Act Ch → Pool C R Ω α → Bool) (s : Pool C R Ω α) :
    List (Act Ch) → Option (Pool C R Ω α)
  | [] => some s
  | a :: as => match M.step s a with
    | some s' => if K s a s' then run K s' as else none
    | none => none

/-- The states of all runs from `s₀` whose steps meet `K`. -/
inductive Reach (K : Pool C R Ω α → Act Ch → Pool C R Ω α → Prop) (s₀ : Pool C R Ω α) :
    Pool C R Ω α → Prop where
  | refl : Reach K s₀ s₀
  | tail {s s' : Pool C R Ω α} {a : Act Ch} :
      Reach K s₀ s → M.step s a = some s' → K s a s' → Reach K s₀ s'

variable {M} {K K' : Pool C R Ω α → Act Ch → Pool C R Ω α → Prop} {s₀ s s' : Pool C R Ω α}
  {t : ℕ} {a : Act Ch} {ch : Ch}

theorem step_start (h : M.step s (.start t) = some s') :
    s.threads t = .idle ∧ M.ready t s.world = true ∧
      s' = s.setThread t (.live (M.program t)) s.world := by
  simp only [step] at h
  split at h
  · split at h
    · exact ⟨‹_›, ‹_›, (Option.some.inj h).symm⟩
    · cases h
  · cases h

theorem step_run (h : M.step s (.run t ch) = some s') :
    ∃ c k r w, s.threads t = .live (.op c k) ∧ M.exec t c ch s.world = some (r, w) ∧
      s' = s.setThread t (.live (k r)) w := by
  simp only [step] at h
  split at h
  · split at h
    · exact ⟨_, _, _, _, ‹_›, ‹_›, (Option.some.inj h).symm⟩
    · cases h
  · cases h

theorem step_crash (h : M.step s (.crash t) = some s') :
    ∃ c k, s.threads t = .live (.op c k) ∧ s' = s.setThread t .dead (M.abort t s.world) := by
  simp only [step] at h
  split at h
  · exact ⟨_, _, ‹_›, (Option.some.inj h).symm⟩
  · cases h

theorem step_result {o : α} (h : M.step s a = some s') (ho : (s.threads t).result? = some o) :
    (s'.threads t).result? = some o := by
  have hret := Thread.live_of_result ho
  have hne : ∀ u, s.threads u ≠ s.threads t → t ≠ u := by
    rintro u hu rfl
    exact hu rfl
  rw [← ho]
  refine congrArg Thread.result? ?_
  cases a with
  | start u =>
    obtain ⟨hu, -, rfl⟩ := step_start h
    exact Pool.setThread_of_ne (hne u (by simp [hu, hret]))
  | run u ch =>
    obtain ⟨c, k, r, w, hu, -, rfl⟩ := step_run h
    exact Pool.setThread_of_ne (hne u (by simp [hu, hret]))
  | crash u =>
    obtain ⟨c, k, hu, rfl⟩ := step_crash h
    exact Pool.setThread_of_ne (hne u (by simp [hu, hret]))

theorem step_wakes (h : M.step s a = some s') (hi : s'.threads t ≠ .idle) :
    s.threads t ≠ .idle ∨ a = .start t := by
  cases a with
  | start u =>
    obtain ⟨-, -, rfl⟩ := step_start h
    by_cases hu : t = u
    · subst hu
      exact .inr rfl
    · rw [Pool.setThread_of_ne hu] at hi
      exact .inl hi
  | run u ch =>
    obtain ⟨c, k, r, w, hu, -, rfl⟩ := step_run h
    exact .inl (Pool.ne_idle_of_setThread (by simp [hu]) hi)
  | crash u =>
    obtain ⟨c, k, hu, rfl⟩ := step_crash h
    exact .inl (Pool.ne_idle_of_setThread (by simp [hu]) hi)

theorem Reach.mono (h : M.Reach K s₀ s) (hK : ∀ s a s', K s a s' → K' s a s') :
    M.Reach K' s₀ s := by
  induction h with
  | refl => exact .refl
  | tail _ hs hk ih => exact .tail ih hs (hK _ _ _ hk)

theorem Reach.induct {P : Pool C R Ω α → Prop} (h : M.Reach K s₀ s) (h₀ : P s₀)
    (hs : ∀ s a s', M.Reach K s₀ s → P s → M.step s a = some s' → K s a s' → P s') : P s := by
  induction h with
  | refl => exact h₀
  | tail hr hstep hk ih => exact hs _ _ _ hr ih hstep hk

theorem Reach.trans {s₁ : Pool C R Ω α} (h : M.Reach K s₀ s₁) (h' : M.Reach K s₁ s) :
    M.Reach K s₀ s := by
  induction h' with
  | refl => exact h
  | tail _ hs hk ih => exact .tail ih hs hk

theorem Reach.strengthen (h : M.Reach K s₀ s)
    (hK : ∀ x a x', M.Reach K s₀ x → M.step x a = some x' → K x a x' → M.Reach K x' s → K' x a x') :
    M.Reach K' s₀ s := by
  induction h with
  | refl => exact .refl
  | tail hr hs hk ih =>
    refine .tail (ih fun x a x' hx hstep hk' hrest => ?_) hs (hK _ _ _ hr hs hk .refl)
    exact hK x a x' hx hstep hk' (hrest.tail hs hk)

theorem Reach.untouched (h : M.Reach K s₀ s) {u : ℕ} (hK : ∀ s a s', K s a s' → u ≠ a.process) :
    s.threads u = s₀.threads u := by
  refine h.induct (P := fun s => s.threads u = s₀.threads u) rfl ?_
  rintro s (t | ⟨t, ch⟩ | t) s' - ih hstep hk
  · obtain ⟨-, -, rfl⟩ := step_start hstep
    exact (Pool.setThread_of_ne (hK _ _ _ hk)).trans ih
  · obtain ⟨c, k, r, w', -, -, rfl⟩ := step_run hstep
    exact (Pool.setThread_of_ne (hK _ _ _ hk)).trans ih
  · obtain ⟨c, k, -, rfl⟩ := step_crash hstep
    exact (Pool.setThread_of_ne (hK _ _ _ hk)).trans ih

/-- What passes from a program to its continuations holds of the suspended program of a process
in every later state. -/
theorem Reach.suspended {I : Prog C R α → Prop} (h : M.Reach K s₀ s)
    (hI : ∀ c k r, I (.op c k) → I (k r)) (h₀ : ∀ p, s₀.threads t = .live p → I p)
    (hp : s₀.threads t = .idle → I (M.program t)) : ∀ p, s.threads t = .live p → I p := by
  suffices h : (s.threads t = .idle → s₀.threads t = .idle) ∧ ∀ p, s.threads t = .live p → I p from
    h.2
  refine h.induct (P := fun s => (s.threads t = .idle → s₀.threads t = .idle) ∧
    ∀ p, s.threads t = .live p → I p) ⟨fun h => h, h₀⟩ ?_
  -- only the steps of the process itself matter
  have hother : ∀ {s : Pool C R Ω α} {u th w}, u ≠ t →
    ((s.threads t = .idle → s₀.threads t = .idle) ∧
      ∀ p, s.threads t = .live p → I p) → ((s.setThread u th w).threads t = .idle →
      s₀.threads t = .idle) ∧ ∀ p, (s.setThread u th w).threads t = .live p → I p :=
    fun hu h => by rwa [Pool.setThread_of_ne (Ne.symm hu)]
  rintro s (u | ⟨u, ch⟩ | u) s' - ih hstep -
  · obtain ⟨hidle, -, rfl⟩ := step_start hstep
    by_cases hu : u = t
    · subst hu
      rw [Pool.setThread_self]
      refine ⟨nofun, fun p hlive => ?_⟩
      cases hlive
      exact hp (ih.1 hidle)
    · exact hother hu ih
  · obtain ⟨c, k, r, w, hk, -, rfl⟩ := step_run hstep
    by_cases hu : u = t
    · subst hu
      rw [Pool.setThread_self]
      refine ⟨nofun, fun p hlive => ?_⟩
      cases hlive
      exact hI c k r (ih.2 _ hk)
    · exact hother hu ih
  · obtain ⟨c, k, hk, rfl⟩ := step_crash hstep
    by_cases hu : u = t
    · subst hu
      rw [Pool.setThread_self]
      exact ⟨nofun, nofun⟩
    · exact hother hu ih

theorem Reach.after {P : C → Prop} {A : α → Prop} {D : Ω → Prop} {w₀ : Ω}
    (h : M.Reach K (Pool.fresh w₀) s) (hp : (M.program t).After P A)
    (hleave : ∀ {c ch w r w'}, P c → M.exec t c ch w = some (r, w') → D w')
    (hkeep : ∀ {u c ch w r w'}, M.exec u c ch w = some (r, w') → D w → D w')
    (habort : ∀ {u w}, D w → D (M.abort u w)) {o : α} (ho : (s.threads t).result? = some o)
    (hA : A o) : D s.world := by
  suffices hs : ∀ p, s.threads t = .live p → D s.world ∨ p.After P A from
    (hs _ (Thread.live_of_result ho)).resolve_right fun hn => hn hA
  refine h.induct (P := fun s => ∀ p, s.threads t = .live p → D s.world ∨ p.After P A) nofun ?_
  rintro s (u | ⟨u, ch⟩ | u) s' - ih hstep - p hlive
  · obtain ⟨-, -, rfl⟩ := step_start hstep
    by_cases hu : t = u
    · subst hu
      rw [Pool.setThread_self] at hlive
      cases hlive
      exact .inr hp
    · rw [Pool.setThread_of_ne hu] at hlive
      exact ih p hlive
  · obtain ⟨c, k, r, w, hk, hex, rfl⟩ := step_run hstep
    by_cases hu : t = u
    · subst hu
      rw [Pool.setThread_self] at hlive
      cases hlive
      rcases ih _ hk with hd | hc | hafter
      · exact .inl (hkeep hex hd)
      · exact .inl (hleave hc hex)
      · exact .inr (hafter r)
    · rw [Pool.setThread_of_ne hu] at hlive
      exact (ih p hlive).imp_left fun hd => hkeep hex hd
  · obtain ⟨c, k, -, rfl⟩ := step_crash hstep
    by_cases hu : t = u
    · subst hu
      rw [Pool.setThread_self] at hlive
      cases hlive
    · rw [Pool.setThread_of_ne hu] at hlive
      exact (ih p hlive).imp_left fun hd => habort hd

theorem reach_of_run {K : Pool C R Ω α → Act Ch → Pool C R Ω α → Bool} {as : List (Act Ch)}
    (h : M.run K s as = some s') : M.Reach (fun s a s' => K s a s' = true) s s' := by
  induction as generalizing s with
  | nil => cases h; exact .refl
  | cons a as ih =>
    simp only [run] at h
    split at h
    · split at h
      · exact (Reach.tail .refl ‹_› ‹_›).trans (ih h)
      · cases h
    · cases h

theorem exists_reach {K : Pool C R Ω α → Act Ch → Pool C R Ω α → Bool} (as : List (Act Ch))
    {p : Pool C R Ω α → Bool} (h : (M.run K s as).any p = true) :
    ∃ s', M.Reach (fun s a s' => K s a s' = true) s s' ∧ p s' = true := by
  cases hs : M.run K s as with
  | none => rw [hs] at h; cases h
  | some s' => exact ⟨s', reach_of_run hs, by rwa [hs] at h⟩

/-- What a logic must satisfy for its assertions to hold in a pool: admissible steps
are steps of the logic, they keep its invariant, and they are interference to others. -/
structure Sound (M : Machine C R Ω Ch α) (K : Pool C R Ω α → Act Ch → Pool C R Ω α → Prop)
    (𝓛 : Logic C R Ω) (Fresh Dead : ℕ → Ω → Prop) (Post : ℕ → α → Ω → Prop) : Prop where
  sem : ∀ {s t ch c k r w}, K s (.run t ch) (s.setThread t (.live (k r)) w) →
    s.threads t = .live (.op c k) → M.exec t c ch s.world = some (r, w) → 𝓛.sem t c s.world r w
  inv : ∀ {t c w r w'}, 𝓛.inv w → 𝓛.sem t c w r w' → 𝓛.guar t w w' → 𝓛.inv w'
  rely : ∀ {t u c w r w'}, u ≠ t → 𝓛.inv w → 𝓛.sem t c w r w' → 𝓛.guar t w w' → 𝓛.rely u w w'
  abort_inv : ∀ {t w}, 𝓛.inv w → 𝓛.inv (M.abort t w)
  abort_rely : ∀ {t u w}, u ≠ t → 𝓛.inv w → 𝓛.rely u w (M.abort t w)
  dies : ∀ {s t s' c k}, K s (.crash t) s' → s.threads t = .live (.op c k) → 𝓛.inv s.world →
    𝓛.dies t c s.world → Dead t (M.abort t s.world)
  dead : ∀ {t w w'}, 𝓛.rely t w w' → Dead t w → Dead t w'
  fresh : ∀ {t w w'}, 𝓛.rely t w w' → Fresh t w → Fresh t w'
  start : ∀ {s t s' w}, K s (.start t) s' → w = s.world → 𝓛.inv w → Fresh t w →
    M.ready t w = true → Safe 𝓛 t (Post t) (M.program t) w

def Holds (𝓛 : Logic C R Ω) (Fresh Dead : ℕ → Ω → Prop) (Post : ℕ → α → Ω → Prop) (t : ℕ)
    (w : Ω) : Thread C R α → Prop
  | .idle => Fresh t w
  | .live p => Safe 𝓛 t (Post t) p w
  | .dead => Dead t w

variable {𝓛 : Logic C R Ω} {Fresh Dead : ℕ → Ω → Prop} {Post : ℕ → α → Ω → Prop}

theorem Sound.of_post {Q : ℕ → α → Ω → Prop} (S : Sound M K 𝓛 Fresh Dead Post)
    (h : ∀ {t w}, 𝓛.inv w → Fresh t w → M.ready t w = true → Safe 𝓛 t (Post t) (M.program t) w →
      Safe 𝓛 t (Q t) (M.program t) w) : Sound M K 𝓛 Fresh Dead Q :=
  { S with start := fun hk hw hi hf hr => h hi hf hr (S.start hk hw hi hf hr) }

theorem Sound.holds_rely (S : Sound M K 𝓛 Fresh Dead Post) {w w' : Ω} {th : Thread C R α}
    (hr : 𝓛.rely t w w') (h : Holds 𝓛 Fresh Dead Post t w th) :
    Holds 𝓛 Fresh Dead Post t w' th := by
  cases th with
  | idle => exact S.fresh hr h
  | live p => exact Safe.rely h hr
  | dead => exact S.dead hr h

/-- The invariant and the assertion of every thread hold together. -/
def Good (𝓛 : Logic C R Ω) (Fresh Dead : ℕ → Ω → Prop) (Post : ℕ → α → Ω → Prop)
    (s : Pool C R Ω α) : Prop :=
  𝓛.inv s.world ∧ ∀ t, Holds 𝓛 Fresh Dead Post t s.world (s.threads t)

theorem Good.setThread (S : Sound M K 𝓛 Fresh Dead Post) {w : Ω} {th : Thread C R α}
    (h : Good 𝓛 Fresh Dead Post s) (hi : 𝓛.inv w) (hr : ∀ u, u ≠ t → 𝓛.rely u s.world w)
    (ht : Holds 𝓛 Fresh Dead Post t w th) : Good 𝓛 Fresh Dead Post (s.setThread t th w) := by
  refine ⟨hi, fun u => ?_⟩
  by_cases hu : u = t
  · subst hu
    rw [Pool.setThread_self]
    exact ht
  · rw [Pool.setThread_of_ne hu]
    exact S.holds_rely (hr u hu) (h.2 u)

theorem Sound.step_good (S : Sound M K 𝓛 Fresh Dead Post) (h : Good 𝓛 Fresh Dead Post s)
    (hs : M.step s a = some s') (hk : K s a s') : Good 𝓛 Fresh Dead Post s' := by
  cases a with
  | start t =>
    obtain ⟨ht, hready, rfl⟩ := step_start hs
    have hf := h.2 t
    rw [ht] at hf
    exact h.setThread S h.1 (fun u _ => 𝓛.rely_refl _ _) (S.start hk rfl h.1 hf hready)
  | run t ch =>
    obtain ⟨c, k, r, w, ht, he, rfl⟩ := step_run hs
    have hp := h.2 t
    rw [ht] at hp
    have hsem := S.sem hk ht he
    obtain ⟨hg, hsafe⟩ := (hp s.world (𝓛.rely_refl _ _) h.1).2 r w hsem
    exact h.setThread S (S.inv h.1 hsem hg) (fun u hu => S.rely hu h.1 hsem hg) hsafe
  | crash t =>
    obtain ⟨c, k, ht, rfl⟩ := step_crash hs
    have hp := h.2 t
    rw [ht] at hp
    have hd := (hp s.world (𝓛.rely_refl _ _) h.1).1
    exact h.setThread S (S.abort_inv h.1) (fun u hu => S.abort_rely hu h.1) (S.dies hk ht h.1 hd)

/-- Every state of every admissible run is good. -/
theorem Sound.reach (S : Sound M K 𝓛 Fresh Dead Post) {w₀ : Ω} (hi : 𝓛.inv w₀)
    (hf : ∀ t, Fresh t w₀) (h : M.Reach K (Pool.fresh w₀) s) : Good 𝓛 Fresh Dead Post s :=
  h.induct ⟨hi, hf⟩ fun _ _ _ _ hg hs hk => S.step_good hg hs hk

/-- Induction over the runs of a sound system: every step comes with the assertions of the
state before it and with the promise its command keeps. -/
theorem Sound.reach_induct (S : Sound M K 𝓛 Fresh Dead Post) {P : Pool C R Ω α → Prop} {w₀ : Ω}
    (hi : 𝓛.inv w₀) (hf : ∀ t, Fresh t w₀) (h₀ : P (Pool.fresh w₀))
    (hstart : ∀ {s t}, Good 𝓛 Fresh Dead Post s → P s → s.threads t = .idle →
      M.ready t s.world = true → K s (.start t) (s.setThread t (.live (M.program t)) s.world) →
      P (s.setThread t (.live (M.program t)) s.world))
    (hrun : ∀ {s t ch c k r w}, Good 𝓛 Fresh Dead Post s → P s → s.threads t = .live (.op c k) →
      M.exec t c ch s.world = some (r, w) → K s (.run t ch) (s.setThread t (.live (k r)) w) →
      𝓛.guar t s.world w → P (s.setThread t (.live (k r)) w))
    (hcrash : ∀ {s t c k}, Good 𝓛 Fresh Dead Post s → P s → s.threads t = .live (.op c k) →
      K s (.crash t) (s.setThread t .dead (M.abort t s.world)) →
      P (s.setThread t .dead (M.abort t s.world)))
    (h : M.Reach K (Pool.fresh w₀) s) : P s := by
  refine h.induct h₀ fun s a s' hr hp hs hk => ?_
  have hg := S.reach hi hf hr
  cases a with
  | start t =>
    obtain ⟨ht, hready, rfl⟩ := step_start hs
    exact hstart hg hp ht hready hk
  | run t ch =>
    obtain ⟨c, k, r, w, ht, he, rfl⟩ := step_run hs
    have hsafe := hg.2 t
    rw [ht] at hsafe
    exact hrun hg hp ht he hk ((hsafe s.world (𝓛.rely_refl _ _) hg.1).2 r w (S.sem hk ht he)).1
  | crash t =>
    obtain ⟨c, k, ht, rfl⟩ := step_crash hs
    exact hcrash hg hp ht hk

theorem Sound.reach_keeps (S : Sound M K 𝓛 Fresh Dead Post) {P : Ω → Prop} {w₀ : Ω}
    (hi : 𝓛.inv w₀) (hf : ∀ t, Fresh t w₀) (h₀ : P w₀)
    (hstep : ∀ {t w w'}, 𝓛.inv w → P w → 𝓛.guar t w w' → P w')
    (habort : ∀ {t w}, P w → P (M.abort t w)) (h : M.Reach K (Pool.fresh w₀) s) : P s.world :=
  S.reach_induct (P := fun s => P s.world) hi hf h₀ (fun _ hp _ _ _ => hp)
    (fun hg hp _ _ _ hgu => hstep hg.1 hp hgu) (fun _ hp _ _ => habort hp) h

theorem Good.result (h : Good 𝓛 Fresh Dead Post s) {o : α}
    (ho : (s.threads t).result? = some o) : Post t o s.world := by
  have ht := h.2 t
  cases hth : s.threads t with
  | idle => rw [hth] at ho; cases ho
  | dead => rw [hth] at ho; cases ho
  | live p =>
    rw [hth] at ho ht
    cases p with
    | op c k => cases ho
    | ret a =>
      cases ho
      exact ht s.world (𝓛.rely_refl _ _) h.1

end Machine

end Transact
