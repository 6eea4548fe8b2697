import Mathlib.Data.List.Basic
import Mathlib.Data.List.TakeWhile
import LiveRevenue.Json.Text

/-! # Printed objects are read back

For every style whose characters the reader reads back, the reader makes of a printed
flat object the object itself.
-/

namespace Json

/-- A style that the reader undoes. -/
structure Style.Reads (σ : Style) : Prop where
  escape : ∀ c r, char (σ.escape c ++ r) = some (c, r)
  comma : ∃ sp, σ.comma = ',' :: sp ∧ sp.all isSpace = true
  colon : ∃ sp, σ.colon = ':' :: sp ∧ sp.all isSpace = true

def Value.isFlat : Value → Bool
  | .num lit => isNumber lit && lit.all isNumChar
  | .str _ => true
  | .null => true
  | _ => false

section Blanks

theorem skip_cons {c : Char} (h : isSpace c = false) (cs : List Char) :
    skip (c :: cs) = c :: cs := by
  simp [skip, h]

theorem skip_blanks {sp : List Char} (h : sp.all isSpace = true) (cs : List Char) :
    skip (sp ++ cs) = skip cs := by
  induction sp with
  | nil => rfl
  | cons c sp ih =>
    rw [List.all_cons, Bool.and_eq_true] at h
    simpa [skip, h.1] using ih h.2

theorem value_skip {cs cs' : List Char} (h : skip cs = skip cs') (n : ℕ) :
    value n cs = value n cs' := by
  cases n with
  | zero => simp only [value]
  | succ n => simp only [value, h]

theorem members_skip {cs cs' : List Char} (h : skip cs = skip cs') (n : ℕ) :
    members n cs = members n cs' := by
  cases n with
  | zero => simp only [members]
  | succ n => simp only [members, h]

end Blanks

section Strings

variable {σ : Style} (hσ : σ.Reads)

theorem string_char {n : ℕ} {cs r : List Char} {c : Char} (h : char cs = some (c, r)) :
    string (n + 1) cs = (string n r).map fun x => (c :: x.1, x.2) := by
  rw [string.eq_def]
  simp only
  split
  · -- a quote is no character of a string
    simp [char] at h
  · rw [h]

include hσ in
theorem string_escaped (s r : List Char) {n : ℕ} (hn : s.length < n) :
    string n (s.flatMap σ.escape ++ '"' :: r) = some (s, r) := by
  induction s generalizing n with
  | nil =>
    obtain ⟨n, rfl⟩ := Nat.exists_eq_succ_of_ne_zero (Nat.ne_of_gt hn)
    rfl
  | cons c s ih =>
    obtain ⟨n, rfl⟩ := Nat.exists_eq_succ_of_ne_zero (Nat.ne_of_gt (Nat.zero_lt_of_lt hn))
    have hc := hσ.escape c (s.flatMap σ.escape ++ '"' :: r)
    rw [List.flatMap_cons, List.append_assoc, string_char hc,
      ih (Nat.lt_of_succ_lt_succ (by simpa using hn))]
    rfl

include hσ in
theorem escape_ne_nil (c : Char) : σ.escape c ≠ [] := by
  intro h
  have hc := hσ.escape c []
  rw [h] at hc
  simp [char] at hc

include hσ in
theorem length_le_escaped (s : List Char) : s.length ≤ (s.flatMap σ.escape).length := by
  induction s with
  | nil => simp
  | cons c s ih =>
    have hc := List.length_pos_iff.mpr (escape_ne_nil hσ c)
    simp only [List.flatMap_cons, List.length_append, List.length_cons]
    omega

include hσ in
/-- The reader's bound on a string is met, whatever follows the closing quote. -/
theorem string_quoted (s r : List Char) :
    string ((s.flatMap σ.escape ++ '"' :: r).length + 1) (s.flatMap σ.escape ++ '"' :: r) =
      some (s, r) := by
  apply string_escaped hσ
  have hs := length_le_escaped hσ s
  simp only [List.length_append, List.length_cons]
  omega

end Strings

section Escapes

theorem letterEscape_shortEscape {c d : Char} (h : shortEscape c = some d) :
    d ≠ 'u' ∧ letterEscape d = some c := by
  unfold shortEscape at h
  split at h <;> cases h <;> decide

theorem hexDigit?_digitChar : ∀ d < 16, hexDigit? (Nat.digitChar d) = some d := by decide

theorem hex4_hexDigits {u : ℕ} (hu : u < 65536) (r : List Char) :
    hex4 (hexDigits u ++ r) = some (u, r) := by
  have hd : ∀ x, hexDigit? (Nat.digitChar (x % 16)) = some (x % 16) := fun x =>
    hexDigit?_digitChar _ (Nat.mod_lt x (by decide))
  have hsum : u / 4096 % 16 * 4096 + u / 256 % 16 * 256 + u / 16 % 16 * 16 + u % 16 = u := by omega
  simp [hexDigits, hex4, hd, hsum]

/-- No character is a surrogate, so `\uXXXX` stands for itself. -/
theorem unicode_hexDigits {c : Char} (hc : c.toNat < 65536) (r : List Char) :
    unicode (hexDigits c.toNat ++ r) = some (c, r) := by
  have hvalid : c.toNat < 0xD800 ∨ (0xDFFF < c.toNat ∧ c.toNat < 0x110000) := c.valid
  rw [unicode, hex4_hexDigits hc]
  simp only
  rw [if_neg (by omega), Char.ofNat_toNat]

theorem char_escapeWith {hex : Char → Bool} (hhex : ∀ c, hex c = true → c.toNat < 65536) (c : Char)
    (r : List Char) : char (escapeWith hex c ++ r) = some (c, r) := by
  unfold escapeWith
  split
  · next d hd =>
    obtain ⟨hu, hc⟩ := letterEscape_shortEscape hd
    simp [char, hc]
  · next hnone =>
    split
    · next h =>
      have hc : c.toNat < 65536 := by
        rcases Bool.or_eq_true_iff.mp h with h | h
        · exact (of_decide_eq_true h).trans (by decide)
        · exact hhex c h
      exact unicode_hexDigits hc r
    · next h =>
      have hquote : c ≠ '"' := by
        rintro rfl
        cases hnone
      have hslash : c ≠ '\\' := by
        rintro rfl
        cases hnone
      simp only [Bool.or_eq_true, decide_eq_true_eq, not_or] at h
      simp [char, hquote, hslash, h.1]

end Escapes

section Scalars

variable {σ : Style} (hσ : σ.Reads)

def Ends (r : List Char) : Prop := ∃ c r', r = c :: r' ∧ (c = ',' ∨ c = '}')

theorem number_append {lit r : List Char} (h : isNumber lit = true)
    (hall : lit.all isNumChar = true) (hr : Ends r) : number (lit ++ r) = some (.num lit, r) := by
  have hlit : ∀ c ∈ lit, isNumChar c = true := List.all_eq_true.mp hall
  obtain ⟨c, r, rfl, hc⟩ := hr
  have hn : isNumChar c = false := by
    obtain rfl | rfl := hc <;> decide
  simp [number, List.takeWhile_append_of_pos hlit, List.dropWhile_append_of_pos hlit, hn, h]

theorem isNumber_head {c : Char} {cs : List Char} (h : isNumber (c :: cs) = true) :
    c = '-' ∨ c.isDigit = true := by
  unfold isNumber at h
  split at h
  · next heq => exact .inl (List.cons.inj heq).1
  · right
    unfold isUnsigned at h
    split at h
    · next heq =>
      rw [(List.cons.inj heq).1]
      decide
    · next heq =>
      rw [(List.cons.inj heq).1]
      exact (Bool.and_eq_true_iff.mp h).1
    · next heq => cases heq

include hσ in
theorem value_scalar {v : Value} (hv : v.isFlat = true) {r : List Char} (hr : Ends r) (n : ℕ) :
    value (n + 1) (scalar σ v ++ r) = some (v, r) := by
  cases v with
  | num lit =>
    rw [Value.isFlat, Bool.and_eq_true] at hv
    cases lit with
    | nil => simp [isNumber, isUnsigned] at hv
    | cons c cs =>
      have hnum := number_append hv.1 hv.2 hr
      have hc := isNumber_head hv.1
      -- the first character of a number starts nothing else
      have hne : ∀ d ∈ ['{', '[', '"', 't', 'f', 'n', ' ', '\t', '\n', '\r'], c ≠ d := by
        rintro d hd rfl
        obtain rfl | hdig := hc
        · revert hd
          decide
        · revert hdig
          simp only [List.mem_cons, List.not_mem_nil, or_false] at hd
          obtain rfl | rfl | rfl | rfl | rfl | rfl | rfl | rfl | rfl | rfl := hd <;> decide
      have hsp : isSpace c = false := by
        simp [isSpace, hne]
      simp only [scalar, List.cons_append] at hnum ⊢
      rw [value, skip_cons hsp]
      simp [hne, hnum]
  | str s =>
    have hs := string_quoted hσ s r
    simp only [scalar, quote, List.cons_append, List.append_assoc, List.nil_append]
    rw [value, skip_cons (by decide)]
    simp [hs, -List.length_append]
  | null => simp [scalar, value, skip, isSpace, word, List.isPrefixOf]
  | bool b => cases hv
  | arr vs => cases hv
  | obj fs => cases hv

end Scalars

section Objects

variable {σ : Style} (hσ : σ.Reads)

include hσ in
theorem value_member {v : Value} (hv : v.isFlat = true) {r : List Char} (hr : Ends r)
    {sp : List Char} (hsp : sp.all isSpace = true) (n : ℕ) :
    value (n + 1) (sp ++ (scalar σ v ++ r)) = some (v, r) := by
  rw [value_skip (skip_blanks hsp _), value_scalar hσ hv hr]

theorem memberList_cons (f : List Char × Value) {fs : List (List Char × Value)} (h : fs ≠ []) :
    memberList σ (f :: fs) = member σ f ++ σ.comma ++ memberList σ fs := by
  cases fs with
  | nil => cases h rfl
  | cons => rfl

include hσ in
theorem members_last {f : List Char × Value} (hf : f.2.isFlat = true) (r : List Char) (n : ℕ) :
    members (n + 2) (member σ f ++ '}' :: r) = some ([f], r) := by
  obtain ⟨sp, hcolon, hsp⟩ := hσ.colon
  have hk := string_quoted hσ f.1 (':' :: (sp ++ (scalar σ f.2 ++ '}' :: r)))
  have hv := value_member hσ hf ⟨'}', r, rfl, .inr rfl⟩ hsp n
  simp only [member, quote, hcolon, List.cons_append, List.append_assoc, List.nil_append]
  rw [members, skip_cons (by decide)]
  simp only [hk, skip_cons (c := ':') (by decide), hv, skip_cons (c := '}') (by decide)]

include hσ in
theorem members_more {f : List Char × Value} (hf : f.2.isFlat = true) (r : List Char) (n : ℕ) :
    members (n + 2) (member σ f ++ ',' :: r) =
      (members (n + 1) r).map fun x => (f :: x.1, x.2) := by
  obtain ⟨sp, hcolon, hsp⟩ := hσ.colon
  have hk := string_quoted hσ f.1 (':' :: (sp ++ (scalar σ f.2 ++ ',' :: r)))
  have hv := value_member hσ hf ⟨',', r, rfl, .inl rfl⟩ hsp n
  simp only [member, quote, hcolon, List.cons_append, List.append_assoc, List.nil_append]
  rw [members, skip_cons (by decide)]
  simp only [hk, skip_cons (c := ':') (by decide), hv, skip_cons (c := ',') (by decide)]

include hσ in
theorem members_memberList (fs : List (List Char × Value)) (hne : fs ≠ [])
    (hfs : ∀ f ∈ fs, f.2.isFlat = true) (r : List Char) {n : ℕ} (hn : fs.length < n) :
    members n (memberList σ fs ++ '}' :: r) = some (fs, r) := by
  induction fs generalizing n with
  | nil => cases hne rfl
  | cons f fs ih =>
    obtain ⟨n, rfl⟩ : ∃ m, n = m + 2 := ⟨n - 2, by simp at hn; omega⟩
    have hf := hfs f (List.mem_cons_self ..)
    cases fs with
    | nil => exact members_last hσ hf r n
    | cons g fs =>
      obtain ⟨sp, hcomma, hsp⟩ := hσ.comma
      have hrest := ih (by simp) (fun x hx => hfs x (List.mem_cons_of_mem _ hx)) (n := n + 1)
        (by simpa using hn)
      rw [memberList_cons f (by simp), List.append_assoc, List.append_assoc, hcomma,
        List.cons_append, members_more hσ hf, members_skip (skip_blanks hsp _), hrest]
      rfl

theorem memberList_head (f : List Char × Value) (fs : List (List Char × Value)) (r : List Char) :
    ∃ r', memberList σ (f :: fs) ++ r = '"' :: r' := by
  cases fs with
  | nil => exact ⟨_, rfl⟩
  | cons => exact ⟨_, rfl⟩

include hσ in
theorem value_record {fs : List (List Char × Value)} (hfs : ∀ f ∈ fs, f.2.isFlat = true)
    (r : List Char) {n : ℕ} (hn : fs.length < n) :
    value (n + 1) (record σ fs ++ r) = some (.obj fs, r) := by
  simp only [record, List.cons_append, List.append_assoc, List.nil_append]
  rw [value, skip_cons (by decide)]
  cases fs with
  | nil => simp [memberList, skip, isSpace]
  | cons f fs =>
    have hm := members_memberList hσ (f :: fs) (by simp) hfs r hn
    obtain ⟨r', hr'⟩ := memberList_head (σ := σ) f fs ('}' :: r)
    rw [hr'] at hm ⊢
    simp [skip_cons (c := '"') (by decide), hm]

theorem length_le_memberList (fs : List (List Char × Value)) :
    fs.length ≤ (memberList σ fs).length := by
  induction fs with
  | nil => simp
  | cons f fs ih =>
    cases fs with
    | nil => simp [memberList, member, quote]
    | cons g fs =>
      rw [memberList_cons f (by simp)]
      simp only [List.length_append, member, quote, List.length_cons] at ih ⊢
      omega

include hσ in
/-- A printed object is read back, by a reader of whole texts and by one of streams. -/
theorem parse_record {fs : List (List Char × Value)} (hfs : ∀ f ∈ fs, f.2.isFlat = true) :
    parse (record σ fs) = some (.obj fs) := by
  have hlen : fs.length < (record σ fs).length := by
    have h := length_le_memberList (σ := σ) fs
    simp only [record, List.length_cons, List.length_append]
    omega
  have h := value_record hσ hfs [] hlen
  rw [List.append_nil] at h
  simp [parse, h, skip]

end Objects

section Numbers

theorem head_toDigits {v : ℕ} (h : v ≠ 0) : (Nat.toDigits 10 v).head? ≠ some '0' := by
  induction v using Nat.strong_induction_on with
  | _ v ih =>
    rw [Nat.toDigits_eq_if (by decide)]
    split
    · next hlt =>
      have hdigit : ∀ d < 10, d ≠ 0 → d.digitChar ≠ '0' := by decide
      exact fun he => hdigit v hlt h (Option.some.inj he)
    · rw [List.head?_append_of_ne_nil _ Nat.toDigits_ne_nil]
      exact ih (v / 10) (by omega) (by omega)

theorem isDigit_of_mem_natural {n : ℕ} {c : Char} (hc : c ∈ natural n) : c.isDigit = true :=
  Nat.isDigit_of_mem_toDigits (by decide) (by decide) hc

theorem isUnsigned_natural (n : ℕ) : isUnsigned (natural n) = true := by
  by_cases h0 : n = 0
  · rw [h0]
    decide
  have hhead := head_toDigits h0
  have hdigits := fun c (hc : c ∈ natural n) => isDigit_of_mem_natural hc
  change (natural n).head? ≠ some '0' at hhead
  cases hn : natural n with
  | nil => exact absurd hn Nat.toDigits_ne_nil
  | cons c cs =>
    rw [hn] at hhead hdigits
    have hrest : cs.dropWhile Char.isDigit = [] :=
      List.dropWhile_eq_nil_iff.mpr fun d hd => hdigits d (List.mem_cons_of_mem _ hd)
    unfold isUnsigned
    split
    · next heq => exact absurd (congrArg List.head? heq) hhead
    · next heq =>
      rw [← (List.cons.inj heq).1, ← (List.cons.inj heq).2, hrest,
        hdigits c (List.mem_cons_self ..)]
      rfl
    · next heq => cases heq

theorem isNumChar_of_isDigit {c : Char} (h : c.isDigit = true) : isNumChar c = true := by
  simp [isNumChar, h]

theorem isFlat_natural (n : ℕ) : (Value.num (natural n)).isFlat = true := by
  rw [Value.isFlat, Bool.and_eq_true, List.all_eq_true]
  constructor
  · unfold isNumber
    split
    · next r heq =>
      have hminus := isDigit_of_mem_natural (n := n) (c := '-') (by simp [heq])
      cases hminus
    · exact isUnsigned_natural n
  · intro c hc
    exact isNumChar_of_isDigit (isDigit_of_mem_natural hc)

theorem isFlat_integer (i : ℤ) : (Value.num (integer i)).isFlat = true := by
  unfold integer
  split
  · exact isFlat_natural _
  · rw [Value.isFlat, Bool.and_eq_true, List.all_eq_true]
    constructor
    · exact isUnsigned_natural _
    · rintro c (_ | ⟨_, hc⟩)
      · decide
      · exact isNumChar_of_isDigit (isDigit_of_mem_natural hc)

end Numbers

end Json
