import Mathlib.Data.List.Basic

/-!
# Strings of Python

The methods of `str`, `re.split` and `int` on lists of characters. What they do to ASCII is spelt out; what
the interpreter's Unicode tables say about the other characters is a `Python`, and nothing is assumed of it.
-/

namespace TdmaSoc

abbrev Str := List Char

instance lawfulStr : LawfulBEq Str := inferInstance

structure Python where
  isSpace : Char → Bool
  isIdStart : Char → Bool
  isIdContinue : Char → Bool
  isDigit : Char → Bool
  /-- The value of a decimal digit, as `int` takes it. -/
  decimal : Char → Option (Fin 10)
  upper : Char → Str
  /-- The most digits `int` takes in base 10, where there is such a limit. -/
  maxStrDigits : Option Nat
  strDigitsCheckThreshold : ∀ m ∈ maxStrDigits, 640 ≤ m

/-- `re.split` at every longest run of characters that satisfy `p`. -/
def reSplit (p : Char → Bool) : Str → List Str
  | [] => [[]]
  | c :: cs =>
    if p c then
      match cs with
      | [] => [[], []]
      | d :: _ => if p d then reSplit p cs else [] :: reSplit p cs
    else (reSplit p cs).modifyHead (c :: ·)

def digit (b : Nat) (c : Char) : Option Nat :=
  let v :=
    if '0' ≤ c ∧ c ≤ '9' then some (c.toNat - '0'.toNat)
    else if 'a' ≤ c ∧ c ≤ 'z' then some (c.toNat - 'a'.toNat + 10)
    else if 'A' ≤ c ∧ c ≤ 'Z' then some (c.toNat - 'A'.toNat + 10)
    else none
  v.filter (· < b)

/-- The digits after the first, an underscore allowed before each. -/
def digitsFrom (b acc : Nat) : Str → Option Nat
  | [] => some acc
  | '_' :: [] => none
  | '_' :: c :: cs => (digit b c).bind fun d => digitsFrom b (acc * b + d) cs
  | c :: cs => (digit b c).bind fun d => digitsFrom b (acc * b + d) cs

def digits (b : Nat) : Str → Option Nat
  | [] => none
  | c :: cs => (digit b c).bind fun d => digitsFrom b d cs

/-- What satisfies `p` at either end is taken off. -/
def stripBy (p : Char → Bool) (s : Str) : Str := ((s.dropWhile p).reverse.dropWhile p).reverse

/-- `Py_ISSPACE`, the blanks of C: `int` does not skip the separators 28 to 31, which are blanks to `str.strip`. -/
def pyIsspace (c : Char) : Bool := decide (9 ≤ c.toNat ∧ c.toNat ≤ 13 ∨ c.toNat = 32)

namespace Python
variable (py : Python)

def isspace (c : Char) : Bool :=
  if c.toNat < 128 then decide (9 ≤ c.toNat ∧ c.toNat ≤ 13 ∨ 28 ≤ c.toNat ∧ c.toNat ≤ 32) else py.isSpace c

def strip (s : Str) : Str := stripBy py.isspace s

def split (s : Str) : List Str := (reSplit py.isspace s).filter (· ≠ [])

def strUpper (s : Str) : Str := s.flatMap fun c => if c.toNat < 128 then [c.toUpper] else py.upper c

def isidentifier : Str → Bool
  | [] => false
  | c :: cs =>
    let start (c : Char) := if c.toNat < 128 then c.isAlpha || c == '_' else py.isIdStart c
    let continues (c : Char) := if c.toNat < 128 then c.isAlphanum || c == '_' else py.isIdContinue c
    start c && cs.all continues

def isdigit (s : Str) : Bool :=
  s ≠ [] && s.all fun c => if c.toNat < 128 then c.isDigit else py.isDigit c

/-- The ASCII character that `int` reads for `c`. -/
def toAscii (c : Char) : Char :=
  if c.toNat < 128 then c
  else if py.isSpace c then ' '
  else match py.decimal c with
    | some d => Char.ofNat ('0'.toNat + d)
    | none => '?'

/-- A number in base 10, within the limit on its digits. -/
def decimalDigits (s : Str) : Option Nat :=
  match py.maxStrDigits with
  | some m => if m < (s.filter (· ≠ '_')).length then none else digits 10 s
  | none => digits 10 s

/-- The number after the sign for base 0: the base is in the number. -/
def unsigned0 : Str → Option Nat
  | '0' :: c :: cs =>
    let b := if c = 'x' ∨ c = 'X' then some 16 else if c = 'o' ∨ c = 'O' then some 8
      else if c = 'b' ∨ c = 'B' then some 2 else none
    match b with
    | some b => digits b (match cs with | '_' :: ds => ds | _ => cs)
    -- no leading zeros, but for the number 0
    | none => (py.decimalDigits ('0' :: c :: cs)).filter (· = 0)
  | s => py.decimalDigits s

def signed (unsigned : Str → Option Nat) : Str → Option Int
  | '+' :: s => (unsigned s).map Int.ofNat
  | '-' :: s => (unsigned s).map fun n => -(n : Int)
  | s => (unsigned s).map Int.ofNat

/-- `int(s)`; `none` is `ValueError`. -/
def int (s : Str) : Option Int := signed py.decimalDigits (stripBy pyIsspace (s.map py.toAscii))

/-- `int(s, 0)` -/
def int0 (s : Str) : Option Int := signed py.unsigned0 (stripBy pyIsspace (s.map py.toAscii))

/-- The interpreter without characters outside ASCII. -/
def ascii : Python where
  isSpace _ := false
  isIdStart _ := false
  isIdContinue _ := false
  isDigit _ := false
  decimal _ := none
  upper c := [c]
  maxStrDigits := none
  strDigitsCheckThreshold := by simp

variable {py}

theorem isDigit_bounds {c : Char} (h : c.isDigit = true) : 48 ≤ c.toNat ∧ c.toNat ≤ 57 := by
  simp only [Char.isDigit, Bool.and_eq_true, decide_eq_true_eq, ge_iff_le, UInt32.le_iff_toNat_le] at h
  exact h

theorem stripBy_of_digits {s : Str} (hs : ∀ c ∈ s, c.isDigit = true) : stripBy pyIsspace s = s := by
  have hfirst {t : Str} (ht : ∀ c ∈ t, c.isDigit = true) : t.dropWhile pyIsspace = t := by
    cases t with
    | nil => rfl
    | cons c cs =>
      obtain ⟨h1, h2⟩ := isDigit_bounds (ht c List.mem_cons_self)
      rw [List.dropWhile_cons_of_neg]
      rw [pyIsspace, decide_eq_true_eq]
      omega
  rw [stripBy, hfirst hs, hfirst fun c hc => hs c (List.mem_reverse.1 hc), List.reverse_reverse]

/-- A short run of ASCII digits is read as it stands. -/
theorem int_of_digits {s : Str} (hs : ∀ c ∈ s, c.isDigit = true) (hl : s.length ≤ 640) :
    py.int s = (digits 10 s).map Int.ofNat := by
  have hmap : s.map py.toAscii = s := by
    refine (List.map_congr_left fun c hc => ?_).trans (List.map_id s)
    rw [toAscii, if_pos (by have := isDigit_bounds (hs c hc); omega)]; rfl
  have hdec : py.decimalDigits s = digits 10 s := by
    rw [decimalDigits]
    cases hm : py.maxStrDigits with
    | none => rfl
    | some m =>
      have := py.strDigitsCheckThreshold m hm
      have := List.length_filter_le (fun c => decide (c ≠ '_')) s
      exact if_neg (by omega)
  rw [int, hmap, stripBy_of_digits hs, signed.eq_def]
  split
  · exact absurd (hs '+' List.mem_cons_self) (by decide)
  · exact absurd (hs '-' List.mem_cons_self) (by decide)
  · rw [hdec]

end Python
end TdmaSoc
