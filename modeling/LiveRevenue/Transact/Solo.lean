import LiveRevenue.Transact.Pool

/-! # A process that runs undisturbed

When only one process of a pool acts and nothing fails, its program runs like a
sequential one. `Safe` without interference, with the obligation that the next
command can be executed, is then total correctness: the program ends, and every
way it may end meets the postcondition.
-/

namespace Transact

variable {C : Type} {R : C → Type} {Ω Ch α β : Type}

/-- Process `t` alone acts, its commands settled as `ok` allows. -/
def Only (ok : Ch → Prop) (t : ℕ) (_ : Pool C R Ω α) (a : Act Ch) (_ : Pool C R Ω α) : Prop :=
  match a with
  | .start u => u = t
  | .run u ch => u = t ∧ ok ch
  | .crash _ => False

instance {ok : Ch → Prop} [DecidablePred ok] {t : ℕ} {s s' : Pool C R Ω α} {a : Act Ch} :
    Decidable (Only ok t s a s') :=
  match a with
  | .start u => inferInstanceAs (Decidable (u = t))
  | .run u ch => inferInstanceAs (Decidable (u = t ∧ ok ch))
  | .crash _ => inferInstanceAs (Decidable False)

namespace Machine

variable (M : Machine C R Ω Ch α) (ok : Ch → Prop)

/-- The logic of a process that nobody disturbs: each command must be executable. -/
def solo : Logic C R Ω where
  sem t c w r w' := ∃ ch, ok ch ∧ M.exec t c ch w = some (r, w')
  inv _ := True
  rely _ w w' := w' = w
  guar _ _ _ := True
  dies t c w := ∃ ch, ok ch ∧ (M.exec t c ch w).isSome
  rely_refl _ _ := rfl
  rely_trans h h' := h'.trans h

variable {M ok} {t : ℕ} {s : Pool C R Ω α}

theorem safe_solo_op {Q : β → Ω → Prop} {c : C} {k : R c → Prog C R β} {w : Ω}
    (he : ∃ ch, ok ch ∧ (M.exec t c ch w).isSome)
    (h : ∀ ch r w', ok ch → M.exec t c ch w = some (r, w') → Safe (M.solo ok) t Q (k r) w') :
    Safe (M.solo ok) t Q (.op c k) w := by
  rintro _ rfl -
  refine ⟨he, ?_⟩
  rintro r w' ⟨ch, hch, hex⟩
  exact ⟨trivial, h ch r w' hch hex⟩

theorem safe_solo_of_enabled {I : Ω → Prop} (p : Prog C R β) {w : Ω} (hw : I w)
    (he : ∀ c w, I w → ∃ ch, ok ch ∧ (M.exec t c ch w).isSome)
    (hI : ∀ {c ch w r w'}, I w → M.exec t c ch w = some (r, w') → I w') :
    Safe (M.solo ok) t (fun _ => I) p w := by
  induction p generalizing w with
  | ret a =>
    rintro _ rfl -
    exact hw
  | op c k ih => exact safe_solo_op (he c w hw) fun ch r w' _ hex => ih r (hI hw hex)

theorem exists_reach_only {Q : α → Ω → Prop} {p : Prog C R α} (hs : s.threads t = .live p)
    (h : Safe (M.solo ok) t Q p s.world) :
    ∃ s' a, M.Reach (Only ok t) s s' ∧ (s'.threads t).result? = some a := by
  induction p generalizing s with
  | ret a => exact ⟨s, a, .refl, by rw [hs]; rfl⟩
  | op c k ih =>
    obtain ⟨⟨ch, hch, hex⟩, hk⟩ := h s.world rfl trivial
    obtain ⟨⟨r, w'⟩, hex⟩ := Option.isSome_iff_exists.mp hex
    have hstep : M.step s (.run t ch) = some (s.setThread t (.live (k r)) w') := by
      simp only [step, hs, hex]
    obtain ⟨s', a, hr, ha⟩ := ih r Pool.setThread_self (hk r w' ⟨ch, hch, hex⟩).2
    exact ⟨s', a, (Reach.tail .refl hstep ⟨rfl, hch⟩).trans hr, ha⟩

theorem reach_only_result {Q : α → Ω → Prop} {p : Prog C R α} (hs : s.threads t = .live p)
    (h : Safe (M.solo ok) t Q p s.world) {s' : Pool C R Ω α} (hr : M.Reach (Only ok t) s s')
    {a : α} (ha : (s'.threads t).result? = some a) : Q a s'.world := by
  -- the process stays suspended in a safe program
  have hsafe : ∃ p, s'.threads t = .live p ∧ Safe (M.solo ok) t Q p s'.world := by
    refine hr.induct (P := fun s => ∃ p, s.threads t = .live p ∧ Safe (M.solo ok) t Q p s.world)
      ⟨p, hs, h⟩ ?_
    rintro x (u | ⟨u, ch⟩ | u) x' - ⟨q, hq, hsafe⟩ hstep hk
    · obtain rfl : u = t := hk
      obtain ⟨hidle, -, -⟩ := step_start hstep
      rw [hq] at hidle
      cases hidle
    · obtain ⟨rfl, hch⟩ : u = t ∧ ok ch := hk
      obtain ⟨c, k, r, w', hc, hex, rfl⟩ := step_run hstep
      obtain rfl := Thread.live.inj (hq.symm.trans hc)
      exact ⟨k r, Pool.setThread_self, ((hsafe x.world rfl trivial).2 r w' ⟨ch, hch, hex⟩).2⟩
    · cases hk
  obtain ⟨q, hq, hsafe⟩ := hsafe
  rw [hq] at ha
  cases q with
  | op c k => cases ha
  | ret b =>
    cases ha
    exact hsafe _ rfl trivial

theorem reach_only_threads {s' : Pool C R Ω α} (hr : M.Reach (Only ok t) s s') {u : ℕ}
    (hu : u ≠ t) :
    s'.threads u = s.threads u := by
  refine hr.untouched ?_
  rintro x (v | ⟨v, ch⟩ | v) x' hk
  · obtain rfl : v = t := hk
    exact hu
  · obtain ⟨rfl, -⟩ : v = t ∧ ok ch := hk
    exact hu
  · cases hk

theorem reach_only_started (hs : s.threads t = .idle) {s' : Pool C R Ω α}
    (hr : M.Reach (Only ok t) s s') (hne : s'.threads t ≠ .idle) :
    M.Reach (Only ok t) (s.setThread t (.live (M.program t)) s.world) s' := by
  have hcases : s' = s ∨ M.Reach (Only ok t) (s.setThread t (.live (M.program t)) s.world) s' := by
    refine hr.induct (P := fun x => x = s ∨
      M.Reach (Only ok t) (s.setThread t (.live (M.program t)) s.world) x) (.inl rfl) ?_
    rintro x a x' - (rfl | hx) hstep hk
    · -- nothing but its start can happen
      rcases a with u | ⟨u, ch⟩ | u
      · obtain rfl : u = t := hk
        obtain ⟨-, -, rfl⟩ := step_start hstep
        exact .inr .refl
      · obtain ⟨rfl, -⟩ : u = t ∧ ok ch := hk
        obtain ⟨c, k, r, w', hc, -⟩ := step_run hstep
        rw [hs] at hc
        cases hc
      · cases hk
    · exact .inr (.tail hx hstep hk)
  rcases hcases with rfl | h
  · exact absurd hs hne
  · exact h

theorem reach_only_program {Q : α → Ω → Prop} (hs : s.threads t = .idle)
    (h : Safe (M.solo ok) t Q (M.program t) s.world) {s' : Pool C R Ω α}
    (hr : M.Reach (Only ok t) s s') {a : α} (ha : (s'.threads t).result? = some a) :
    Q a s'.world := by
  refine reach_only_result Pool.setThread_self h (reach_only_started hs hr fun hidle => ?_) ha
  rw [hidle] at ha
  cases ha

/-- A program that may start and runs undisturbed ends, with its postcondition. -/
theorem exists_reach_only_program {Q : α → Ω → Prop} (hs : s.threads t = .idle)
    (hready : M.ready t s.world = true) (h : Safe (M.solo ok) t Q (M.program t) s.world) :
    ∃ s' a, M.Reach (Only ok t) s s' ∧ (s'.threads t).result? = some a ∧ Q a s'.world := by
  have hstep : M.step s (.start t) = some (s.setThread t (.live (M.program t)) s.world) := by
    simp only [step, hs]
    exact if_pos hready
  obtain ⟨s', a, hr, ha⟩ := exists_reach_only Pool.setThread_self h
  exact ⟨s', a, (Reach.tail .refl hstep rfl).trans hr, ha,
    reach_only_result Pool.setThread_self h hr ha⟩

end Machine

theorem Runs.solo_call {ε : Type} {M : Machine C R Ω Ch α} {ok : Ch → Prop} {t : ℕ} {c : C} {w : Ω}
    {Q : R c → Ω → Prop} {E : ε → Ω → Prop} (he : ∃ ch, ok ch ∧ (M.exec t c ch w).isSome)
    (h : ∀ ch r w', ok ch → M.exec t c ch w = some (r, w') → Q r w') :
    Runs (M.solo ok) t (Body.call c : Body C R ε (R c)) Q E w := by
  refine Runs.call (fun r v v' hv _ hq => ?_) fun v hv _ => ?_
  · obtain rfl : v' = v := hv
    exact hq
  · obtain rfl : v = w := hv
    exact ⟨he, fun r w' ⟨ch, hch, hex⟩ => ⟨trivial, h ch r w' hch hex⟩⟩

end Transact
