import LiveRevenue.Transact.Solo

/-! # One program on two states

The same undisturbed program on two states, its commands settled by the same choices.
As long as each command gets one reply on both sides, whatever the program may return
on one of them it may return on the other.
-/

namespace Transact

variable {C : Type} {R : C → Type} {Ω Ch α β ε : Type}

namespace Machine

variable (M : Machine C R Ω Ch α) (ok : Ch → Prop)

/-- The logic of a program that runs on two states: every choice must get one reply. -/
def twin : Logic C R (Ω × Ω) where
  sem t c w r w' := ∃ ch, ok ch ∧ M.exec t c ch w.1 = some (r, w'.1) ∧
    M.exec t c ch w.2 = some (r, w'.2)
  inv _ := True
  rely _ w w' := w' = w
  guar _ _ _ := True
  dies t c w := ∀ ch, ok ch → (M.exec t c ch w.1).map Prod.fst = (M.exec t c ch w.2).map Prod.fst
  rely_refl _ _ := rfl
  rely_trans h h' := h'.trans h

variable {M ok} {t : ℕ} {s u : Pool C R Ω α} {a : α}

theorem safe_twin_swap {Q : β → Ω × Ω → Prop} {p : Prog C R β} {w : Ω × Ω}
    (h : Safe (M.twin ok) t Q p w) :
    Safe (M.twin ok) t (fun a v => Q a v.swap) p w.swap := by
  induction p generalizing w with
  | ret a =>
    rintro _ rfl -
    exact h w rfl trivial
  | op c k ih =>
    rintro _ rfl -
    obtain ⟨hd, hk⟩ := h w rfl trivial
    refine ⟨fun ch hch => (hd ch hch).symm, ?_⟩
    rintro r v ⟨ch, hch, h₁, h₂⟩
    exact ⟨trivial, ih r (hk r v.swap ⟨ch, hch, h₂, h₁⟩).2⟩

/-- What the program returns on the first state, it may return on the second. -/
theorem reach_twin {Q : α → Ω × Ω → Prop} {p : Prog C R α} (hs : s.threads t = .live p)
    (hu : u.threads t = .live p) (h : Safe (M.twin ok) t Q p (s.world, u.world))
    {s' : Pool C R Ω α} (hr : M.Reach (Only ok t) s s') (ha : (s'.threads t).result? = some a) :
    ∃ u', M.Reach (Only ok t) u u' ∧ (u'.threads t).result? = some a := by
  -- the second run keeps up with the first, suspended in the same program
  have hrun : ∃ u' q, M.Reach (Only ok t) u u' ∧ s'.threads t = .live q ∧ u'.threads t = .live q ∧
      Safe (M.twin ok) t Q q (s'.world, u'.world) := by
    refine hr.induct (P := fun x => ∃ u' q, M.Reach (Only ok t) u u' ∧ x.threads t = .live q ∧
      u'.threads t = .live q ∧ Safe (M.twin ok) t Q q (x.world, u'.world))
        ⟨u, p, .refl, hs, hu, h⟩ ?_
    rintro x (v | ⟨v, ch⟩ | v) x' - ⟨u', q, hru, hq, hq', hsafe⟩ hstep hk
    · obtain rfl : v = t := hk
      obtain ⟨hidle, -, -⟩ := step_start hstep
      rw [hq] at hidle
      cases hidle
    · obtain ⟨rfl, hch⟩ : v = t ∧ ok ch := hk
      obtain ⟨c, k, r, w', hc, hex, rfl⟩ := step_run hstep
      obtain rfl := Thread.live.inj (hq.symm.trans hc)
      obtain ⟨hd, hk⟩ := hsafe _ rfl trivial
      have hsame : some r = (M.exec v c ch u'.world).map Prod.fst := by
        have := hd ch hch
        rwa [hex, Option.map_some] at this
      obtain ⟨⟨r', v'⟩, hex', rfl⟩ := Option.map_eq_some_iff.mp hsame.symm
      have hstep' : M.step u' (.run v ch) = some (u'.setThread v (.live (k r')) v') := by
        simp only [step, hq', hex']
      exact ⟨_, k r', .tail hru hstep' ⟨rfl, hch⟩, Pool.setThread_self, Pool.setThread_self,
        (hk r' (w', v') ⟨ch, hch, hex, hex'⟩).2⟩
    · cases hk
  obtain ⟨u', q, hru, hq, hq', -⟩ := hrun
  refine ⟨u', hru, ?_⟩
  rw [hq']
  rw [hq] at ha
  exact ha

theorem exists_reach_twin_iff {Q : α → Ω × Ω → Prop} (hs : s.threads t = .idle)
    (hu : u.threads t = .idle) (hready : M.ready t s.world = true)
    (hready' : M.ready t u.world = true)
    (h : Safe (M.twin ok) t Q (M.program t) (s.world, u.world)) :
    (∃ s', M.Reach (Only ok t) s s' ∧ (s'.threads t).result? = some a) ↔
      ∃ u', M.Reach (Only ok t) u u' ∧ (u'.threads t).result? = some a := by
  -- one direction for any two sides
  have hdir : ∀ {x y : Pool C R Ω α} {Q : α → Ω × Ω → Prop}, x.threads t = .idle →
      y.threads t = .idle → M.ready t y.world = true →
      Safe (M.twin ok) t Q (M.program t) (x.world, y.world) →
      (∃ x', M.Reach (Only ok t) x x' ∧ (x'.threads t).result? = some a) →
      ∃ y', M.Reach (Only ok t) y y' ∧ (y'.threads t).result? = some a := by
    rintro x y Q hx hy hready h ⟨x', hr, ha⟩
    have hstart : M.step y (.start t) = some (y.setThread t (.live (M.program t)) y.world) := by
      simp only [step, hy]
      exact if_pos hready
    obtain ⟨y', hr', ha'⟩ := reach_twin Pool.setThread_self Pool.setThread_self h
      (reach_only_started hx hr fun hidle => by rw [hidle] at ha; cases ha) ha
    exact ⟨y', (Reach.tail .refl hstart rfl).trans hr', ha'⟩
  exact ⟨hdir hs hu hready' h, hdir hu hs hready (safe_twin_swap h)⟩

end Machine

theorem Runs.twin_call {M : Machine C R Ω Ch α} {ok : Ch → Prop} {t : ℕ} {c : C} {w : Ω × Ω}
    {Q : R c → Ω × Ω → Prop} {E : ε → Ω × Ω → Prop}
    (hd : ∀ ch, ok ch → (M.exec t c ch w.1).map Prod.fst = (M.exec t c ch w.2).map Prod.fst)
    (h : ∀ ch r v v', ok ch → M.exec t c ch w.1 = some (r, v) → M.exec t c ch w.2 = some (r, v') →
      Q r (v, v')) :
    Runs (M.twin ok) t (Body.call c : Body C R ε (R c)) Q E w := by
  refine Runs.call (fun r v v' hv _ hq => ?_) fun v hv _ => ?_
  · obtain rfl : v' = v := hv
    exact hq
  · obtain rfl : v = w := hv
    exact ⟨hd, fun r w' ⟨ch, hch, h₁, h₂⟩ => ⟨trivial, h ch r w'.1 w'.2 hch h₁ h₂⟩⟩

end Transact
