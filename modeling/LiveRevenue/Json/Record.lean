import Mathlib.Data.List.Nodup
import Mathlib.Data.List.Perm.Basic
import LiveRevenue.Json.Text

/-! # Objects as records

A record type reads each of its fields from the members of an object that carry the
field's name up to case. Where no two names are the same up to case, the order of the
members does not matter.
-/

namespace Json

/-- The least rune with the same case folding, as far as an ASCII name can tell. -/
def foldRune (c : Char) : Char :=
  if 'a' ≤ c ∧ c ≤ 'z' then Char.ofNat (c.toNat - 32)
  else if c = '\u017F' then 'S'
  else if c = '\u212A' then 'K'
  else c

def foldName (k : List Char) : List Char := k.map foldRune

def named (k : List Char) (fs : List (List Char × Value)) : List Value :=
  (fs.filter fun f => foldName f.1 = foldName k).map (·.2)

/-- A field of a record: each value given under its name is read into it in turn. -/
def field {α : Type} (read : Value → α → Option α) (zero : α) (k : List Char)
    (fs : List (List Char × Value)) : Option α :=
  (named k fs).foldlM (fun a v => read v a) zero

theorem field_invariant {α : Type} {P : α → Prop} {read : Value → α → Option α} {zero a : α}
    {k : List Char} {fs : List (List Char × Value)}
    (h : field read zero k fs = some a) (h₀ : P zero)
    (hread : ∀ v a b, read v a = some b → P a → P b) : P a := by
  rw [field] at h
  generalize named k fs = vs at h
  induction vs generalizing zero with
  | nil =>
    cases h
    exact h₀
  | cons v vs ih =>
    rw [List.foldlM_cons] at h
    obtain ⟨b, hb, hrest⟩ := Option.bind_eq_some_iff.mp h
    exact ih (hread v zero b hb h₀) hrest

def membersOf : Value → Option (List (List Char × Value))
  | .obj fs => some fs
  | .null => some []
  | _ => none

variable {τ α : Type} [DecidableEq τ] {name : τ → List Char}

def tagged (t : τ) (ms : List (τ × Value)) : List Value :=
  (ms.filter fun m => m.1 = t).map (·.2)

@[simp] theorem tagged_nil (t : τ) : tagged t [] = [] := rfl

@[simp] theorem tagged_cons (t : τ) (m : τ × Value) (ms : List (τ × Value)) :
    tagged t (m :: ms) = if m.1 = t then m.2 :: tagged t ms else tagged t ms := by
  by_cases h : m.1 = t <;> simp [tagged, h]

@[simp] theorem tagged_append (t : τ) (ms ms' : List (τ × Value)) :
    tagged t (ms ++ ms') = tagged t ms ++ tagged t ms' := by
  simp [tagged]

def withNames (name : τ → List Char) (ms : List (τ × Value)) : List (List Char × Value) :=
  ms.map fun m => (name m.1, m.2)

theorem named_withNames (hname : Function.Injective fun t => foldName (name t)) (t : τ)
    (ms : List (τ × Value)) : named (name t) (withNames name ms) = tagged t ms := by
  induction ms with
  | nil => rfl
  | cons m ms ih =>
    have hm : (foldName (name m.1) = foldName (name t)) ↔ m.1 = t := hname.eq_iff
    simp only [named, withNames, tagged, List.map_cons, List.filter_cons, hm] at ih ⊢
    split
    · simp only [List.map_cons, ih]
    · exact ih

theorem length_tagged_le {ms : List (τ × Value)} (h : (ms.map (·.1)).Nodup) (t : τ) :
    (tagged t ms).length ≤ 1 := by
  have hcount := List.nodup_iff_count_le_one.mp h t
  rw [List.count, List.countP_map, List.countP_eq_length_filter] at hcount
  simpa [tagged, Function.comp_def, beq_eq_decide] using hcount

theorem named_perm {k : List Char} {fs fs' : List (List Char × Value)} (h : fs.Perm fs')
    (hk : (named k fs).length ≤ 1) : named k fs' = named k fs := by
  have hp : (named k fs).Perm (named k fs') := (h.filter _).map _
  cases hn : named k fs with
  | nil =>
    rw [hn] at hp
    exact List.nil_perm.mp hp
  | cons v vs =>
    rw [hn] at hp hk
    have hvs : vs = [] := List.length_eq_zero_iff.mp (by simpa using hk)
    rw [hvs] at hp ⊢
    exact (List.singleton_perm.mp hp).symm

/-- A field of a record whose members were printed under their tags and then rearranged. -/
theorem field_of_perm (hname : Function.Injective fun t => foldName (name t))
    {ms : List (τ × Value)} {fs : List (List Char × Value)} (h : (withNames name ms).Perm fs)
    (hnd : (ms.map (·.1)).Nodup) (read : Value → α → Option α) (zero : α) (t : τ) :
    field read zero (name t) fs = (tagged t ms).foldlM (fun a v => read v a) zero := by
  have hn := named_withNames hname t ms
  rw [field, named_perm h, hn]
  rw [hn]
  exact length_tagged_le hnd t

end Json
