import LiveRevenue.Transact.Program

/-! # A transactional store with row locks

Sessions buffer their writes until they commit. Every write is covered by row
locks that the session keeps to its end, so what a session holds locked cannot
change under it, and what it reads is the last committed data with its own
writes on top (READ COMMITTED). Commits are recorded in order in the binary log.
-/

namespace Transact

/-- Data, the writes on it, and the row locks that cover them. `Agree l` says that two
states coincide on what `l` protects; `Grows` collects what no write ever takes back. -/
class Layout (D W : Type) (L : outParam Type) where
  apply : W → D → D
  locks : W → List L
  Agree : L → D → D → Prop
  Grows : D → D → Prop
  agree_refl : ∀ l d, Agree l d d
  agree_trans : ∀ {l a b c}, Agree l a b → Agree l b c → Agree l a c
  agree_apply : ∀ {l w d}, l ∉ locks w → Agree l d (apply w d)
  grows_refl : ∀ d, Grows d d
  grows_trans : ∀ {a b c}, Grows a b → Grows b c → Grows a c
  grows_apply : ∀ w d, Grows d (apply w d)

structure Store (D W L : Type) where
  db : D
  opened : ℕ → Option (List W)
  holder : L → Option ℕ
  binlog : List (ℕ × List W)

variable {D W L : Type}

open Layout

section Writes

variable [Layout D W L]

def applyAll (ws : List W) (d : D) : D := ws.foldl (fun d w => apply w d) d

@[simp] theorem applyAll_nil (d : D) : applyAll ([] : List W) d = d := rfl
@[simp] theorem applyAll_cons (w : W) (ws : List W) (d : D) :
    applyAll (w :: ws) d = applyAll ws (apply w d) := rfl
theorem applyAll_append (ws vs : List W) (d : D) :
    applyAll (ws ++ vs) d = applyAll vs (applyAll ws d) := by
  simp [applyAll]

theorem agree_applyAll {l : L} {ws : List W} {d : D} (h : ∀ w ∈ ws, l ∉ locks D w) :
    Agree W l d (applyAll ws d) := by
  induction ws generalizing d with
  | nil => exact agree_refl l d
  | cons w ws ih =>
    exact agree_trans (agree_apply (h w List.mem_cons_self))
      (ih fun v hv => h v (List.mem_cons_of_mem w hv))

theorem grows_applyAll (ws : List W) (d : D) : Grows W d (applyAll ws d) := by
  induction ws generalizing d with
  | nil => exact grows_refl d
  | cons w ws ih => exact grows_trans (grows_apply w d) (ih _)

end Writes

namespace Store

variable {s s' s'' : Store D W L} {t u : ℕ} {ws : List W} {ls : List L} {l : L}

def busy (s : Store D W L) (t : ℕ) (l : L) : Bool :=
  match s.holder l with
  | some u => u != t
  | none => false

def setOpened (s : Store D W L) (t : ℕ) (o : Option (List W)) : ℕ → Option (List W) :=
  fun u => if u = t then o else s.opened u

def release (s : Store D W L) (t : ℕ) : L → Option ℕ :=
  fun l => if s.holder l = some t then none else s.holder l

def begin (s : Store D W L) (t : ℕ) : Store D W L :=
  { s with opened := s.setOpened t (some []) }

def rollback (s : Store D W L) (t : ℕ) : Store D W L :=
  { s with opened := s.setOpened t none, holder := s.release t }

def committedBy (s : Store D W L) (t : ℕ) : List (List W) :=
  s.binlog.filterMap fun e => if e.1 = t then some e.2 else none

@[simp] theorem setOpened_self (s : Store D W L) (t : ℕ) (o : Option (List W)) :
    s.setOpened t o t = o := if_pos rfl
theorem setOpened_of_ne (h : u ≠ t) (o : Option (List W)) : s.setOpened t o u = s.opened u :=
  if_neg h

theorem release_eq_some (h : u ≠ t) : s.release t l = some u ↔ s.holder l = some u := by
  unfold release
  split
  · next hl => simp only [reduceCtorEq, hl, Option.some.injEq, false_iff]; exact fun e => h e.symm
  · rfl

theorem committedBy_append (s : Store D W L) (h : u ≠ t) (ws : List W) :
    (s.binlog ++ [(t, ws)]).filterMap (fun e => if e.1 = u then some e.2 else none) =
      s.committedBy u := by
  simp [committedBy, List.filterMap_append, Ne.symm h]

theorem committedBy_append_self (s : Store D W L) (t : ℕ) (ws : List W) :
    (s.binlog ++ [(t, ws)]).filterMap (fun e => if e.1 = t then some e.2 else none) =
      s.committedBy t ++ [ws] := by
  simp [committedBy, List.filterMap_append]

theorem mem_committedBy : ws ∈ s.committedBy t ↔ (t, ws) ∈ s.binlog := by
  unfold committedBy
  constructor
  · intro h
    obtain ⟨⟨u, vs⟩, he, hs⟩ := List.mem_filterMap.mp h
    split at hs
    · next hu => cases hs; cases hu; exact he
    · cases hs
  · exact fun h => List.mem_filterMap.mpr ⟨_, h, if_pos rfl⟩

theorem ne_of_committedBy {h₁ h₂ : List (ℕ × List W)} (hb : s.binlog = h₁ ++ (t, ws) :: h₂)
    (hc : s.committedBy t = [ws]) : ∀ e ∈ h₁ ++ h₂, e.1 ≠ t := by
  rintro e he rfl
  have hlen := congrArg List.length hc
  rw [committedBy, hb, List.filterMap_append, List.filterMap_cons, if_pos rfl] at hlen
  have hmem : e.2 ∈ (h₁ ++ h₂).filterMap fun x => if x.1 = e.1 then some x.2 else none :=
    List.mem_filterMap.mpr ⟨e, he, if_pos rfl⟩
  have hpos := List.length_pos_of_mem hmem
  rw [List.filterMap_append] at hpos
  simp only [List.length_append, List.length_cons, List.length_nil] at hlen hpos
  omega

theorem not_busy_iff : s.busy t l = false ↔ ∀ u, s.holder l = some u → u = t := by
  unfold busy
  split <;> simp_all

theorem not_mem_of_held (h : u ≠ t) (hb : ∀ l ∈ ls, s.busy t l = false)
    (hl : s.holder l = some u) : l ∉ ls :=
  fun hm => h (not_busy_iff.mp (hb l hm) u hl)

def Owned (s : Store D W L) : Prop := ∀ l t, s.holder l = some t → s.opened t ≠ none

theorem begin_owned (ho : s.Owned) : (s.begin t).Owned := by
  intro l u hl
  by_cases h : u = t
  · subst h
    simp [begin]
  · simp only [begin, setOpened_of_ne h]
    exact ho l u hl

theorem release_ne (s : Store D W L) (t : ℕ) (l : L) : s.release t l ≠ some t := by
  unfold release
  split
  · simp
  · assumption

theorem finish_owned (ho : s.Owned) (hl : s.release t l = some u) :
    s.setOpened t none u ≠ none := by
  have h : u ≠ t := by
    rintro rfl
    exact release_ne s u l hl
  rw [setOpened_of_ne h]
  exact ho l u ((release_eq_some h).mp hl)

theorem rollback_owned (ho : s.Owned) : (s.rollback t).Owned := fun _ _ hl => finish_owned ho hl

variable [Layout D W L]

/-- Extend the open transaction of `t` by writes, taking their locks and `ls`. -/
def record [DecidableEq L] (s : Store D W L) (t : ℕ) (ws vs : List W) (ls : List L) :
    Store D W L :=
  { s with
    opened := s.setOpened t (some (ws ++ vs))
    holder := fun l => if l ∈ ls ++ vs.flatMap (locks D) then some t else s.holder l }

def commit (s : Store D W L) (t : ℕ) (ws : List W) : Store D W L where
  db := applyAll ws s.db
  opened := s.setOpened t none
  holder := s.release t
  binlog := s.binlog ++ [(t, ws)]

def autocommit (s : Store D W L) (t : ℕ) (ws : List W) : Store D W L :=
  { s with db := applyAll ws s.db, binlog := s.binlog ++ [(t, ws)] }

/-- Buffered writes are covered by locks their session holds. -/
def Covered (s : Store D W L) : Prop :=
  ∀ t ws, s.opened t = some ws → ∀ w ∈ ws, ∀ l ∈ locks D w, s.holder l = some t

def replay (d : D) (k : List (ℕ × List W)) : D := k.foldl (fun d e => applyAll e.2 d) d

/-- Between two states others have committed the transactions `k`, none of which needed a
lock that session `t` holds. -/
structure Foreign (t : ℕ) (s s' : Store D W L) (k : List (ℕ × List W)) : Prop where
  binlog : s'.binlog = s.binlog ++ k
  db : s'.db = replay s.db k
  locks : ∀ e ∈ k, ∀ w ∈ e.2, ∀ l ∈ locks D w, s.holder l ≠ some t

theorem Foreign.nil (hb : s'.binlog = s.binlog) (hd : s'.db = s.db) : Foreign t s s' [] :=
  ⟨by simp [hb], hd, fun _ h => by cases h⟩

/-- What other sessions leave alone of session `t`. -/
structure Quiet (t : ℕ) (s s' : Store D W L) : Prop where
  opened : s'.opened t = s.opened t
  holder : ∀ l, s'.holder l = some t ↔ s.holder l = some t
  agree : ∀ l, s.holder l = some t → Agree W l s.db s'.db
  grows : Grows W s.db s'.db
  committed : s'.committedBy t = s.committedBy t
  foreign : ∃ k, Foreign t s s' k

theorem Quiet.refl (t : ℕ) (s : Store D W L) : Quiet t s s :=
  ⟨rfl, fun _ => Iff.rfl, fun l _ => agree_refl l _, grows_refl _, rfl, [], .nil rfl rfl⟩

theorem Quiet.trans (h : Quiet t s s') (h' : Quiet t s' s'') : Quiet t s s'' where
  opened := h'.opened.trans h.opened
  holder l := (h'.holder l).trans (h.holder l)
  agree l hl := agree_trans (h.agree l hl) (h'.agree l ((h.holder l).mpr hl))
  grows := grows_trans h.grows h'.grows
  committed := h'.committed.trans h.committed
  foreign := by
    obtain ⟨k, hk⟩ := h.foreign
    obtain ⟨k', hk'⟩ := h'.foreign
    refine ⟨k ++ k', ?_, ?_, fun e he w hw l hl hh => ?_⟩
    · rw [hk'.binlog, hk.binlog, List.append_assoc]
    · rw [hk'.db, hk.db, replay, replay, replay, List.foldl_append]
    · rcases List.mem_append.mp he with he | he
      · exact hk.locks e he w hw l hl hh
      · exact hk'.locks e he w hw l hl ((h.holder l).mpr hh)

theorem begin_quiet (h : u ≠ t) : Quiet u s (s.begin t) :=
  ⟨setOpened_of_ne h _, fun _ => Iff.rfl, fun l _ => agree_refl l _, grows_refl _, rfl, [],
    .nil rfl rfl⟩

theorem record_quiet [DecidableEq L] {vs : List W} (h : u ≠ t)
    (hb : ∀ l ∈ ls ++ vs.flatMap (locks D), s.busy t l = false) :
    Quiet u s (s.record t ws vs ls) where
  opened := setOpened_of_ne h _
  holder l := by
    simp only [record]
    split
    · next hm =>
      constructor
      · intro e; exact absurd (Option.some.inj e).symm h
      · intro e; exact absurd hm (not_mem_of_held h hb e)
    · rfl
  agree l _ := agree_refl l _
  grows := grows_refl _
  committed := rfl
  foreign := ⟨[], .nil rfl rfl⟩

theorem commit_quiet (hc : s.Covered) (h : u ≠ t) (ho : s.opened t = some ws) :
    Quiet u s (s.commit t ws) where
  opened := setOpened_of_ne h _
  holder l := release_eq_some h
  agree l hl := by
    refine agree_applyAll fun w hw hm => ?_
    have := hc t ws ho w hw l hm
    exact h (Option.some.inj (hl.symm.trans this))
  grows := grows_applyAll ws _
  committed := committedBy_append s h ws
  foreign := by
    refine ⟨[(t, ws)], rfl, rfl, fun e he w hw l hl hh => ?_⟩
    rw [List.mem_singleton.mp he] at hw
    exact h (Option.some.inj (hh.symm.trans (hc t ws ho w hw l hl)))

theorem rollback_quiet (h : u ≠ t) : Quiet u s (s.rollback t) :=
  ⟨setOpened_of_ne h _, fun _ => release_eq_some h, fun l _ => agree_refl l _, grows_refl _, rfl,
    [], .nil rfl rfl⟩

theorem autocommit_quiet (h : u ≠ t)
    (hb : ∀ l ∈ ws.flatMap (locks D), s.busy t l = false) : Quiet u s (s.autocommit t ws) where
  opened := rfl
  holder _ := Iff.rfl
  agree l hl := by
    refine agree_applyAll fun w hw hm => ?_
    exact not_mem_of_held h hb hl (List.mem_flatMap.mpr ⟨w, hw, hm⟩)
  grows := grows_applyAll ws _
  committed := committedBy_append s h ws
  foreign := by
    refine ⟨[(t, ws)], rfl, rfl, fun e he w hw l hl hh => ?_⟩
    rw [List.mem_singleton.mp he] at hw
    exact not_mem_of_held h hb hh (List.mem_flatMap.mpr ⟨w, hw, hl⟩)

theorem begin_covered (hc : s.Covered) : (s.begin t).Covered := by
  intro u ws hu w hw l hl
  by_cases h : u = t
  · subst h
    simp only [begin, setOpened_self, Option.some.injEq] at hu
    subst hu
    exact absurd hw List.not_mem_nil
  · simp only [begin, setOpened_of_ne h] at hu
    exact hc u ws hu w hw l hl

theorem record_covered [DecidableEq L] {vs : List W} (hc : s.Covered) (ho : s.opened t = some ws)
    (hb : ∀ l ∈ ls ++ vs.flatMap (locks D), s.busy t l = false) :
    (s.record t ws vs ls).Covered := by
  intro u xs hu w hw l hl
  simp only [record]
  by_cases h : u = t
  · subst h
    simp only [record, setOpened_self, Option.some.injEq] at hu
    subst hu
    split
    · rfl
    · next hm =>
      rcases List.mem_append.mp hw with hw | hw
      · exact hc u ws ho w hw l hl
      · exact absurd (List.mem_append_right ls (List.mem_flatMap.mpr ⟨w, hw, hl⟩)) hm
  · simp only [record, setOpened_of_ne h] at hu
    have hh := hc u xs hu w hw l hl
    rw [if_neg (not_mem_of_held h hb hh)]
    exact hh

theorem finish_covered (hc : s.Covered) (hu : s.setOpened t none u = some ws) {w : W}
    (hw : w ∈ ws) (hl : l ∈ locks D w) : s.release t l = some u := by
  by_cases h : u = t
  · subst h
    rw [setOpened_self] at hu
    cases hu
  · rw [setOpened_of_ne h] at hu
    exact (release_eq_some h).mpr (hc u ws hu w hw l hl)

theorem commit_covered (hc : s.Covered) : (s.commit t ws).Covered :=
  fun _ _ hu _ hw _ hl => finish_covered hc hu hw hl

theorem rollback_covered (hc : s.Covered) : (s.rollback t).Covered :=
  fun _ _ hu _ hw _ hl => finish_covered hc hu hw hl

theorem record_owned [DecidableEq L] {vs : List W} (ho : s.Owned) :
    (s.record t ws vs ls).Owned := by
  intro l u hl
  by_cases h : u = t
  · subst h
    simp [record]
  · simp only [record, setOpened_of_ne h] at hl ⊢
    split at hl
    · exact absurd (Option.some.inj hl).symm h
    · exact ho l u hl

theorem commit_owned (ho : s.Owned) : (s.commit t ws).Owned := fun _ _ hl => finish_owned ho hl

end Store

end Transact
