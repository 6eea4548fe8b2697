import Mathlib.Data.List.Sort

/-! # The first places of a ranking

The same entries can be ranked by two orders. The first `n` places agree exactly when
nobody there is overtaken under the other order; an entry has one of the first `n` places
exactly when fewer than `n` others come before it. The orders meant here put higher scores
first and break ties by a key.
-/

namespace Ranking

section Scores

variable {α β : Type} [LinearOrder β] {key : α → β}

/-- Higher scores first, then smaller keys. -/
def byScore (key : α → β) (a b : α × ℤ) : Prop := b.2 < a.2 ∨ (a.2 = b.2 ∧ key a.1 ≤ key b.1)

instance : DecidableRel (byScore key) := fun a b =>
  inferInstanceAs (Decidable (b.2 < a.2 ∨ (a.2 = b.2 ∧ key a.1 ≤ key b.1)))

instance : Std.Total (byScore key) where
  total a b := by
    rcases lt_trichotomy a.2 b.2 with h | h | h
    · exact .inr (.inl h)
    · exact (le_total (key a.1) (key b.1)).imp (fun hk => .inr ⟨h, hk⟩) fun hk => .inr ⟨h.symm, hk⟩
    · exact .inl (.inl h)

instance : IsTrans (α × ℤ) (byScore key) where
  trans a b c := by
    rintro (hab | ⟨hab, hk⟩) (hbc | ⟨hbc, hk'⟩)
    · exact .inl (hbc.trans hab)
    · exact .inl (hbc ▸ hab)
    · exact .inl (hab ▸ hbc)
    · exact .inr ⟨hab.trans hbc, hk.trans hk'⟩

theorem byScore_antisymm (hkey : Function.Injective key) (a b : α × ℤ) (h : byScore key a b)
    (h' : byScore key b a) : a = b := by
  rcases h with h | ⟨h, hk⟩
  · rcases h' with h' | ⟨h', -⟩
    · exact absurd h (lt_asymm h')
    · exact absurd h' h.ne
  · rcases h' with h' | ⟨-, hk'⟩
    · exact absurd h h'.ne
    · exact Prod.ext (hkey (le_antisymm hk hk')) h

theorem insertionSort_eq_of_perm (hkey : Function.Injective key) {l l' : List (α × ℤ)}
    (h : l.Perm l') : l.insertionSort (byScore key) = l'.insertionSort (byScore key) := by
  have : Std.Antisymm (byScore key) := ⟨byScore_antisymm hkey⟩
  exact List.Perm.eq_of_pairwise' (List.pairwise_insertionSort _ l)
    (List.pairwise_insertionSort _ l')
    (((List.perm_insertionSort _ l).trans h).trans (List.perm_insertionSort _ l').symm)

end Scores

variable {α : Type} {r r' : α → α → Prop} {l l' : List α} {n : ℕ} {x : α}

theorem mem_take_iff [DecidableEq α] [DecidableRel r] (hr : ∀ a b, r a b → r b a → a = b)
    (h : l.Pairwise r) (hn : l.Nodup) (hx : x ∈ l) :
    x ∈ l.take n ↔ (l.countP fun y => y ≠ x ∧ r y x) < n := by
  induction l generalizing n with
  | nil => cases hx
  | cons a l ih =>
    rw [List.pairwise_cons] at h
    rw [List.nodup_cons] at hn
    cases n with
    | zero => simp
    | succ n =>
      rw [List.take_succ_cons, List.mem_cons, List.countP_cons]
      by_cases hxa : x = a
      · -- nobody comes before the first
        subst hxa
        have hnone : (l.countP fun y => y ≠ x ∧ r y x) = 0 := by
          refine List.countP_eq_zero.mpr fun y hy hlt => ?_
          obtain ⟨hne, hyx⟩ := of_decide_eq_true hlt
          exact hne (hr y x hyx (h.1 y hy))
        rw [hnone, if_neg (by simp)]
        simp
      · have hmem : x ∈ l := (List.mem_cons.mp hx).resolve_left hxa
        rw [if_pos (decide_eq_true ⟨Ne.symm hxa, h.1 x hmem⟩), Nat.add_lt_add_iff_right,
          ← ih h.2 hn.2 hmem]
        exact ⟨fun hx => hx.resolve_left hxa, .inr⟩

theorem rel_of_mem_take {y : α} (h : l.Pairwise r) (hx : x ∈ l.take n) (hy : y ∈ l)
    (hn : y ∉ l.take n) : r x y := by
  rw [← List.take_append_drop n l] at h hy
  exact (List.pairwise_append.mp h).2.2 x hx y ((List.mem_append.mp hy).resolve_left hn)

/-- Two rankings of the same entries agree on the first `n` places if and only if nobody there
comes, under the other order, behind an entry that is behind here. -/
theorem take_eq_take_iff (hr : ∀ a b, r a b → r b a → a = b)
    (hr' : ∀ a b, r' a b → r' b a → a = b) (h : l.Pairwise r) (h' : l'.Pairwise r') (hn : l.Nodup)
    (hp : l.Perm l') :
    l.take n = l'.take n ↔ ∀ a ∈ l.take n, ∀ b ∈ l, a ≠ b → r a b → r' a b := by
  induction n generalizing l l' with
  | zero => simp
  | succ n ih =>
    cases l with
    | nil =>
      rw [← hp.nil_eq]
      simp
    | cons a l =>
      cases l' with
      | nil => cases hp.eq_nil
      | cons a' l' =>
        rw [List.pairwise_cons] at h h'
        rw [List.nodup_cons] at hn
        rw [List.take_succ_cons, List.take_succ_cons]
        constructor
        · intro he
          obtain ⟨rfl, hrest⟩ := List.cons.inj he
          have hperm := hp.cons_inv
          have htail := (ih h.2 h'.2 hn.2 hperm).mp hrest
          intro x hx y hy hne hxy
          rcases List.mem_cons.mp hx with rfl | hx'
          · exact h'.1 y (hperm.subset ((List.mem_cons.mp hy).resolve_left (Ne.symm hne)))
          · rcases List.mem_cons.mp hy with rfl | hy
            · exact absurd (hr x y hxy (h.1 x (List.mem_of_mem_take hx'))) hne
            · exact htail x hx' y hy hne hxy
        · intro hall
          -- nobody overtakes the first, so it is first in both
          have hfirst : a = a' := by
            by_contra hne
            have hmem : a' ∈ l :=
              (List.mem_cons.mp (hp.symm.subset List.mem_cons_self)).resolve_left (Ne.symm hne)
            have hmem' : a ∈ l' :=
              (List.mem_cons.mp (hp.subset List.mem_cons_self)).resolve_left hne
            have hlt := hall a List.mem_cons_self a' (List.mem_cons_of_mem a hmem) hne (h.1 a' hmem)
            exact hne (hr' a a' hlt (h'.1 a hmem'))
          subst hfirst
          rw [(ih h.2 h'.2 hn.2 hp.cons_inv).mpr fun x hx y hy => ?_]
          exact hall x (List.mem_cons_of_mem a hx) y (List.mem_cons_of_mem a hy)

end Ranking
