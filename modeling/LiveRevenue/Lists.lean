import Mathlib.Algebra.BigOperators.Group.List.Basic
import Mathlib.Data.List.Forall2
import Mathlib.Data.List.Nodup
import Mathlib.Data.List.Perm.Subperm

/-! # Lists of rows

Tables that only grow and logs are lists. These are the facts about lists that the proofs
share: keys without repetitions, correspondences row by row, prefixes of a log, and sums
taken class by class.
-/

namespace List

variable {α β γ κ : Type}

section Keys

variable {f : α → β} {l l' : List α}

theorem nodup_map_of_length_le_one (f : α → β) (h : l.length ≤ 1) : (l.map f).Nodup := by
  rcases l with _ | ⟨a, _ | ⟨b, l⟩⟩
  · exact nodup_nil
  · exact nodup_singleton _
  · simp at h

theorem nodup_map_append (h : (l.map f).Nodup) (h' : (l'.map f).Nodup)
    (hne : ∀ a ∈ l, ∀ b ∈ l', f a ≠ f b) : ((l ++ l').map f).Nodup := by
  rw [map_append, nodup_append]
  refine ⟨h, h', ?_⟩
  intro x hx y hy
  obtain ⟨a, ha, rfl⟩ := mem_map.mp hx
  obtain ⟨b, hb, rfl⟩ := mem_map.mp hy
  exact hne a ha b hb

theorem length_filter_le_one [DecidableEq β] (h : (l.map f).Nodup) (b : β) :
    (l.filter fun a => f a = b).length ≤ 1 := by
  have hrep : (l.filter fun a => f a = b).map f =
      replicate (l.filter fun a => f a = b).length b := by
    refine eq_replicate_iff.mpr ⟨length_map _, fun x hx => ?_⟩
    obtain ⟨a, ha, rfl⟩ := mem_map.mp hx
    exact of_decide_eq_true (mem_filter.mp ha).2
  rw [← nodup_replicate (a := b), ← hrep]
  exact (filter_sublist.map f).nodup h

theorem eq_singleton_of_nodup {x : α} (hn : l.Nodup) (hx : x ∈ l) (h : ∀ y ∈ l, y = x) :
    l = [x] := by
  rcases l with _ | ⟨a, _ | ⟨b, l⟩⟩
  · cases hx
  · rw [h a mem_cons_self]
  · have hab : a = b := (h a (by simp)).trans (h b (by simp)).symm
    simp [hab] at hn

theorem flatMap_sublist_map {f : α → List β} {key : β → κ} {id : α → κ}
    (h : ∀ a ∈ l, ((f a).map key).Sublist [id a]) :
    ((l.flatMap f).map key).Sublist (l.map id) := by
  induction l with
  | nil => exact .slnil
  | cons a as ih =>
    rw [flatMap_cons, map_append, map_cons]
    exact (h a mem_cons_self).append (ih fun a' ha' => h a' (mem_cons_of_mem a ha'))

end Keys

section Correspondences

variable {R S : α → β → Prop} {as as' : List α} {bs bs' : List β}

/-- A correspondence survives a change that keeps its pairs and adds further ones. -/
theorem Forall₂.append_of_imp (h : Forall₂ R as bs) (hold : ∀ a ∈ as, ∀ b, R a b → S a b)
    (hnew : Forall₂ S as' bs') : Forall₂ S (as ++ as') (bs ++ bs') := by
  induction h with
  | nil => exact hnew
  | cons hr _ ih =>
    refine .cons (hold _ mem_cons_self _ hr) (ih fun a ha => ?_)
    exact hold a (mem_cons_of_mem _ ha)

theorem Forall₂.exists_of_mem_right (h : Forall₂ R as bs) {b : β} (hb : b ∈ bs) :
    ∃ a ∈ as, R a b := by
  induction h with
  | nil => cases hb
  | cons hr _ ih =>
    rcases mem_cons.mp hb with rfl | hb
    · exact ⟨_, mem_cons_self, hr⟩
    · obtain ⟨a, ha, h⟩ := ih hb
      exact ⟨a, mem_cons_of_mem _ ha, h⟩

theorem Forall₂.map_eq {f : α → γ} {g : β → γ} (h : Forall₂ R as bs)
    (hR : ∀ a b, R a b → f a = g b) : as.map f = bs.map g := by
  induction h with
  | nil => rfl
  | cons hab _ ih => rw [map_cons, map_cons, hR _ _ hab, ih]

theorem Forall₂.filter_map_eq {p : α → Bool} {q : β → Bool} {f : α → γ} {g : β → γ}
    (h : Forall₂ R as bs) (hR : ∀ a b, R a b → p a = q b ∧ f a = g b) :
    (as.filter p).map f = (bs.filter q).map g := by
  induction h with
  | nil => rfl
  | cons hab _ ih =>
    obtain ⟨hp, hf⟩ := hR _ _ hab
    rw [filter_cons, filter_cons, hp]
    split
    · rw [map_cons, map_cons, hf, ih]
    · exact ih

end Correspondences

section Filters

variable {l l' : List α} {p q : α → Bool}

theorem filter_append_of_forall_not (h : ∀ x ∈ l', ¬ p x = true) :
    (l ++ l').filter p = l.filter p := by
  rw [filter_append, filter_eq_nil_iff.mpr h, append_nil]

theorem mem_concat_of_ne {a x : α} (h : a ≠ x) : a ∈ l ++ [x] ↔ a ∈ l := by
  simp [h]

theorem find?_of_filter (h : l'.filter p = l.filter p) : l'.find? p = l.find? p := by
  rw [← head?_filter, ← head?_filter, h]

theorem any_of_filter (h : l'.filter p = l.filter p) (hq : ∀ x, q x = true → p x = true) :
    l'.any q = l.any q := by
  have hany : ∀ l : List α, l.any q = (l.filter p).any q := fun l => by
    rw [any_filter]
    congr 1
    funext x
    cases hx : q x with
    | false => simp
    | true => simp [hq x hx]
  rw [hany l', hany l, h]

end Filters

section Logs

variable {xs pre post : List α} {m : α}

theorem eq_of_prefix_cons (h : xs <+: pre ++ m :: post) (hm : m ∉ xs) (hpre : pre ⊆ xs)
    (hn : pre.Nodup) : xs = pre := by
  rcases prefix_or_prefix_of_prefix h (prefix_append pre (m :: post)) with hx | hx
  · exact hx.eq_of_length_le (subperm_of_subset hn hpre).length_le
  · obtain ⟨k, rfl⟩ := hx
    rw [prefix_append_right_inj, prefix_cons_iff] at h
    rcases h with rfl | ⟨k', rfl, -⟩
    · exact append_nil _
    · exact absurd (by simp) hm

theorem subset_of_prefix_cons (h : xs <+: pre ++ m :: post) (hm : m ∈ xs)
    (hn : (pre ++ m :: post).Nodup) : pre ⊆ xs := by
  rcases prefix_or_prefix_of_prefix h (prefix_append pre (m :: post)) with hx | hx
  · exact absurd rfl ((nodup_append.mp hn).2.2 m (hx.subset hm) m mem_cons_self)
  · exact hx.subset

theorem eraseDups_snoc [DecidableEq α] (l : List α) (m : α) :
    (l ++ [m]).eraseDups = l.eraseDups ++ if m ∈ l then [] else [m] := by
  rw [eraseDups_append]
  by_cases h : m ∈ l
  · simp [removeAll, h]
  · simp [removeAll, h, eraseDups_cons]

end Logs

section Sums

variable [DecidableEq κ] {as : List α} {ks : List κ} {M : Type} [AddCommMonoid M]

theorem sum_map_ite_zero (p : α → Prop) [DecidablePred p] (f : α → M) (as : List α) :
    (as.map fun a => if p a then f a else 0).sum = ((as.filter fun a => p a).map f).sum := by
  simp [sum_map_ite]

/-- A list, taken one class of elements after the other. -/
theorem perm_fibers (g : α → κ) (hks : ks.Nodup) (h : ∀ a ∈ as, g a ∈ ks) :
    as.Perm (ks.flatMap fun k => as.filter fun a => g a = k) := by
  induction ks generalizing as with
  | nil =>
    rw [eq_nil_iff_forall_not_mem.mpr fun a ha => not_mem_nil (h a ha)]
    exact .refl _
  | cons k ks ih =>
    rw [nodup_cons] at hks
    have hrest : (as.filter fun a => ¬ g a = k).Perm _ := ih hks.2 fun a ha => by
      obtain ⟨ha, hne⟩ := mem_filter.mp ha
      exact (mem_cons.mp (h a ha)).resolve_left (of_decide_eq_true hne)
    have hsame : (ks.flatMap fun k' => (as.filter fun a => ¬ g a = k).filter fun a => g a = k') =
        ks.flatMap fun k' => as.filter fun a => g a = k' := by
      refine flatMap_congr fun k' hk' => ?_
      rw [filter_filter]
      refine filter_congr fun a _ => ?_
      by_cases ha : g a = k'
      · simp [ha, show k' ≠ k from fun he => hks.1 (he ▸ hk')]
      · simp [ha]
    rw [hsame] at hrest
    have hsplit := filter_append_perm (fun a => decide (g a = k)) as
    simp only [← decide_not] at hsplit
    exact hsplit.symm.trans (hrest.append_left _)

theorem sum_map_fibers (g : α → κ) (f : α → M) (hks : ks.Nodup) (h : ∀ a ∈ as, g a ∈ ks) :
    (as.map f).sum = (ks.map fun k => ((as.filter fun a => g a = k).map f).sum).sum := by
  rw [((perm_fibers g hks h).map f).sum_eq, map_flatMap, flatMap_def, sum_flatten, map_map]
  rfl

end Sums

end List
