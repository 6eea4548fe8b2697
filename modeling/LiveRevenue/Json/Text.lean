import Mathlib.Data.Nat.Digits.Defs

/-! # JSON texts

Values, a reader for all of JSON, and a printer for flat objects. A number is kept as it
is written, because what it stands for is up to the type it is read into. How strings are
escaped and where blanks stand is up to a `Style`; the reader undoes every style that
escapes each character to something it reads back.
-/

namespace Json

inductive Value where
  | null
  | bool (b : Bool)
  | num (lit : List Char)
  | str (s : List Char)
  | arr (vs : List Value)
  | obj (fields : List (List Char × Value))

section Reader

def isSpace (c : Char) : Bool := c = ' ' || c = '\t' || c = '\n' || c = '\r'

def skip (cs : List Char) : List Char := cs.dropWhile isSpace

def hexDigit? (c : Char) : Option ℕ :=
  if '0' ≤ c ∧ c ≤ '9' then some (c.toNat - 48)
  else if 'a' ≤ c ∧ c ≤ 'f' then some (c.toNat - 87)
  else if 'A' ≤ c ∧ c ≤ 'F' then some (c.toNat - 55)
  else none

def hex4 : List Char → Option (ℕ × List Char)
  | a :: b :: c :: d :: r => do
    let a ← hexDigit? a
    let b ← hexDigit? b
    let c ← hexDigit? c
    let d ← hexDigit? d
    some (a * 4096 + b * 256 + c * 16 + d, r)
  | _ => none

def replacement : Char := '\uFFFD'

/-- What follows `\u`. A surrogate that is not the first half of a pair stands for the
replacement character. -/
def unicode (cs : List Char) : Option (Char × List Char) :=
  match hex4 cs with
  | none => none
  | some (u, r) =>
    if 0xD800 ≤ u ∧ u < 0xE000 then
      match r with
      | '\\' :: 'u' :: r' => match hex4 r' with
        | some (v, r'') =>
          if u < 0xDC00 ∧ 0xDC00 ≤ v ∧ v < 0xE000 then
            some (Char.ofNat (0x10000 + (u - 0xD800) * 1024 + (v - 0xDC00)), r'')
          else some (replacement, r)
        | none => some (replacement, r)
      | _ => some (replacement, r)
    else some (Char.ofNat u, r)

def letterEscape : Char → Option Char
  | '"' => some '"'
  | '\\' => some '\\'
  | '/' => some '/'
  | 'b' => some '\x08'
  | 'f' => some '\x0C'
  | 'n' => some '\n'
  | 'r' => some '\r'
  | 't' => some '\t'
  | _ => none

def char : List Char → Option (Char × List Char)
  | '\\' :: 'u' :: r => unicode r
  | '\\' :: c :: r => (letterEscape c).map fun d => (d, r)
  | '\\' :: [] => none
  | c :: r => if c.toNat < 0x20 ∨ c = '"' then none else some (c, r)
  | [] => none

def string : ℕ → List Char → Option (List Char × List Char)
  | 0, _ => none
  | n + 1, cs => match cs with
    | '"' :: r => some ([], r)
    | _ => match char cs with
      | some (c, r) => (string n r).map fun x => (c :: x.1, x.2)
      | none => none

def isNumChar (c : Char) : Bool :=
  c.isDigit || c = '-' || c = '+' || c = '.' || c = 'e' || c = 'E'

def digits (cs : List Char) : Option (List Char) :=
  if (cs.takeWhile Char.isDigit).isEmpty then none else some (cs.dropWhile Char.isDigit)

def exponent : List Char → Bool
  | [] => true
  | c :: r =>
    (c = 'e' || c = 'E') && match r with
      | '+' :: r => digits r = some []
      | '-' :: r => digits r = some []
      | r => digits r = some []

def fraction : List Char → Bool
  | '.' :: r => match digits r with
    | some r => exponent r
    | none => false
  | r => exponent r

def isUnsigned : List Char → Bool
  | '0' :: r => fraction r
  | c :: r => c.isDigit && fraction (r.dropWhile Char.isDigit)
  | [] => false

def isNumber : List Char → Bool
  | '-' :: r => isUnsigned r
  | r => isUnsigned r

def number (cs : List Char) : Option (Value × List Char) :=
  if isNumber (cs.takeWhile isNumChar) then
    some (.num (cs.takeWhile isNumChar), cs.dropWhile isNumChar)
  else none

def word (w : List Char) (v : Value) (cs : List Char) : Option (Value × List Char) :=
  if w.isPrefixOf cs then some (v, cs.drop w.length) else none

mutual

/-- A value at the start of a text, with what follows it; `n` bounds the work. -/
def value : ℕ → List Char → Option (Value × List Char)
  | 0, _ => none
  | n + 1, cs => match skip cs with
    | [] => none
    | c :: r =>
      if c = '{' then
        if (skip r).head? = some '}' then some (.obj [], (skip r).tail)
        else (members n r).map fun x => (.obj x.1, x.2)
      else if c = '[' then
        if (skip r).head? = some ']' then some (.arr [], (skip r).tail)
        else (elements n r).map fun x => (.arr x.1, x.2)
      else if c = '"' then (string (r.length + 1) r).map fun x => (.str x.1, x.2)
      else if c = 't' then word ['t', 'r', 'u', 'e'] (.bool true) (c :: r)
      else if c = 'f' then word ['f', 'a', 'l', 's', 'e'] (.bool false) (c :: r)
      else if c = 'n' then word ['n', 'u', 'l', 'l'] .null (c :: r)
      else number (c :: r)

def members : ℕ → List Char → Option (List (List Char × Value) × List Char)
  | 0, _ => none
  | n + 1, cs => match skip cs with
    | '"' :: r => match string (r.length + 1) r with
      | some (k, r) => match skip r with
        | ':' :: r => match value n r with
          | some (v, r) => match skip r with
            | ',' :: r => (members n r).map fun x => ((k, v) :: x.1, x.2)
            | '}' :: r => some ([(k, v)], r)
            | _ => none
          | none => none
        | _ => none
      | none => none
    | _ => none

def elements : ℕ → List Char → Option (List Value × List Char)
  | 0, _ => none
  | n + 1, cs => match value n cs with
    | some (v, r) => match skip r with
      | ',' :: r => (elements n r).map fun x => (v :: x.1, x.2)
      | ']' :: r => some ([v], r)
      | _ => none
    | none => none

end

/-- The first value of a text, as a stream decoder reads it. -/
def first (cs : List Char) : Option Value := (value (cs.length + 1) cs).map (·.1)

def parse (cs : List Char) : Option Value :=
  match value (cs.length + 1) cs with
  | some (v, r) => if skip r = [] then some v else none
  | none => none

end Reader

section Printer

/-- How a printer escapes characters and separates what it prints. -/
structure Style where
  escape : Char → List Char
  comma : List Char
  colon : List Char

def quote (σ : Style) (s : List Char) : List Char := '"' :: (s.flatMap σ.escape ++ ['"'])

def shortEscape : Char → Option Char
  | '"' => some '"'
  | '\\' => some '\\'
  | '\x08' => some 'b'
  | '\x0C' => some 'f'
  | '\n' => some 'n'
  | '\r' => some 'r'
  | '\t' => some 't'
  | _ => none

def hexDigits (u : ℕ) : List Char :=
  [u / 4096 % 16, u / 256 % 16, u / 16 % 16, u % 16].map Nat.digitChar

/-- Short escapes where there are any, `\uXXXX` for the other control characters and for
those of `hex`. -/
def escapeWith (hex : Char → Bool) (c : Char) : List Char :=
  match shortEscape c with
  | some d => ['\\', d]
  | none => if c.toNat < 0x20 || hex c then '\\' :: 'u' :: hexDigits c.toNat else [c]

def scalar (σ : Style) : Value → List Char
  | .num lit => lit
  | .str s => quote σ s
  | _ => ['n', 'u', 'l', 'l']

def member (σ : Style) (f : List Char × Value) : List Char := quote σ f.1 ++ σ.colon ++ scalar σ f.2

def memberList (σ : Style) : List (List Char × Value) → List Char
  | [] => []
  | [f] => member σ f
  | f :: fs => member σ f ++ σ.comma ++ memberList σ fs

def record (σ : Style) (fs : List (List Char × Value)) : List Char :=
  '{' :: (memberList σ fs ++ ['}'])

def natural (n : ℕ) : List Char := Nat.toDigits 10 n

def integer (i : ℤ) : List Char :=
  if 0 ≤ i then natural i.toNat else '-' :: natural (-i).toNat

end Printer

end Json
