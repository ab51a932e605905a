import QuadBot.Lib.Rounding
import Mathlib.Data.Rat.Defs
import Mathlib.Algebra.Order.Ring.Rat
import Mathlib.Data.List.TakeWhile

/-! The C library functions that the firmware calls on strings, in the C locale and with the 32-bit
`int` and `long` of the Teensy 4.0. A string is the list of its characters up to the terminating
NUL. Floats are exact rationals with the infinities and NaN that `atof` can return. -/

namespace QuadBot.Libc

def isSpace (c : Char) : Bool :=
  c = ' ' || c = '\t' || c = '\n' || c = '\x0b' || c = '\x0c' || c = '\r'

/-- The value of a digit, with the letters as the digits from 10 on. -/
def digitValue (c : Char) : Option Nat :=
  if '0' ≤ c ∧ c ≤ '9' then some (c.toNat - '0'.toNat)
  else if 'a' ≤ c ∧ c ≤ 'z' then some (c.toNat - 'a'.toNat + 10)
  else if 'A' ≤ c ∧ c ≤ 'Z' then some (c.toNat - 'A'.toNat + 10)
  else none

def isDigit (base : Nat) (c : Char) : Bool :=
  match digitValue c with
  | some d => d < base
  | none => false

/-- The number that a string of digits denotes. -/
def digitsValue (base : Nat) (digits : List Char) : Nat :=
  digits.foldl (fun n c => n * base + (digitValue c).getD 0) 0

/-- Whether the string starts with a minus sign, and the string after an optional sign. -/
def stripSign : List Char → Bool × List Char
  | '-' :: cs => (true, cs)
  | '+' :: cs => (false, cs)
  | cs => (false, cs)

def longMin : Int := -2 ^ 31
def longMax : Int := 2 ^ 31 - 1

/-- `strtol(s, nullptr, base)` for the bases 2 and 10: blanks, an optional sign and the longest run
of digits, saturated to a 32-bit `long`, and 0 where there is no digit. -/
def strtol (base : Nat) (s : List Char) : Int :=
  let (negative, cs) := stripSign (s.dropWhile isSpace)
  let n : Int := digitsValue base (cs.takeWhile (isDigit base))
  max longMin (min longMax (if negative then -n else n))

/-- `strcasecmp(s, t) == 0`. -/
def equalNoCase (s t : String) : Bool :=
  s.toList.map Char.toLower = t.toList.map Char.toLower

/-! ### Scanning -/

/-- `%s`: blanks and then the longest run of other characters, which must not be empty. -/
def scanWord (s : List Char) : Option (List Char × List Char) :=
  match s.dropWhile isSpace with
  | [] => none
  | c :: cs => some ((c :: cs).takeWhile (! isSpace ·), (c :: cs).dropWhile (! isSpace ·))

/-- `%d`: blanks, an optional sign and at least one digit. -/
def scanInt (s : List Char) : Option (Int × List Char) :=
  let cs := (stripSign (s.dropWhile isSpace)).2
  if cs.takeWhile (isDigit 10) = [] then none
  else some (strtol 10 s, cs.dropWhile (isDigit 10))

/-- The integers that up to `n` conversions `%d` in a row store. -/
def scanInts : Nat → List Char → List Int
  | 0, _ => []
  | n + 1, s =>
    match scanInt s with
    | none => []
    | some (v, rest) => v :: scanInts n rest

/-- `sscanf(s, "%s %d ... %d", ...)` with `n` integers: the word and the integers stored, or nothing
where the input ends before a word. The call returns one more than the number of integers. -/
def sscanf (n : Nat) (s : List Char) : Option (List Char × List Int) :=
  (scanWord s).map fun (word, rest) => (word, scanInts n rest)

/-! ### Floats -/

/-- A float in exact arithmetic. -/
inductive Flt
  | num (q : ℚ)
  | posInf
  | negInf
  | nan
  deriving DecidableEq

namespace Flt

def lt : Flt → ℚ → Bool
  | num x, q => x < q
  | negInf, _ => true
  | posInf, _ | nan, _ => false

def gt : Flt → ℚ → Bool
  | num x, q => q < x
  | posInf, _ => true
  | negInf, _ | nan, _ => false

def isNan : Flt → Bool
  | nan => true
  | _ => false

def value : Flt → ℚ
  | num q => q
  | posInf | negInf | nan => 0

end Flt

def roundf (x : ℚ) : Int := Rounding.halfAway x

def startsNoCase (t : String) (s : List Char) : Bool :=
  (s.take t.length).map Char.toLower = t.toList

/-- The exponent after its letter, 0 where the letter is not followed by a digit. -/
def exponent (letter : Char) : List Char → Int
  | c :: cs =>
    if c.toLower = letter then
      let (negative, ds) := stripSign cs
      let n : Int := digitsValue 10 (ds.takeWhile (isDigit 10))
      if negative then -n else n
    else 0
  | [] => 0

/-- The unsigned float at the head of a string: digits with an optional point and an optional
exponent of `radix`, and 0 where there is no digit. -/
def unsignedFloat (base radix : Nat) (letter : Char) (s : List Char) : ℚ :=
  let whole := s.takeWhile (isDigit base)
  let (fraction, rest) :=
    match s.dropWhile (isDigit base) with
    | '.' :: cs => (cs.takeWhile (isDigit base), cs.dropWhile (isDigit base))
    | cs => ([], cs)
  if whole = [] ∧ fraction = [] then 0
  else digitsValue base (whole ++ fraction) / base ^ fraction.length *
    radix ^ exponent letter rest

/-- `atof`, which also takes hexadecimal floats. -/
def atof (s : List Char) : Flt :=
  let (negative, cs) := stripSign (s.dropWhile isSpace)
  if startsNoCase "inf" cs then if negative then .negInf else .posInf
  else if startsNoCase "nan" cs then .nan
  else
    let x := if startsNoCase "0x" cs then unsignedFloat 16 2 'p' (cs.drop 2)
      else unsignedFloat 10 10 'e' cs
    .num (if negative then -x else x)

example : atof " -12.50e1x".toList = .num (-125) := by decide +kernel

example : atof "0X1.8p-1".toList = .num (3 / 4) := by decide +kernel

/-! ### Digit strings -/

theorem isDigit_of_isSpace {c : Char} (h : isSpace c = true) (base : Nat) :
    isDigit base c = false := by
  simp only [isSpace, Bool.or_eq_true, decide_eq_true_eq, or_assoc] at h
  rcases h with rfl | rfl | rfl | rfl | rfl | rfl <;> rfl

theorem stripSign_of_isDigit {base : Nat} {c : Char} (h : isDigit base c = true) (cs : List Char) :
    stripSign (c :: cs) = (false, c :: cs) := by
  have hminus : c ≠ '-' := by
    rintro rfl
    cases h
  have hplus : c ≠ '+' := by
    rintro rfl
    cases h
  simp [stripSign, hminus, hplus]

/-- A string of digits is parsed as the number that it denotes, saturated. -/
theorem strtol_of_digits {base : Nat} {digits : List Char}
    (h : ∀ c ∈ digits, isDigit base c = true) :
    strtol base digits = min longMax (digitsValue base digits) := by
  have hscan : stripSign (digits.dropWhile isSpace) = (false, digits) := by
    cases digits with
    | nil => rfl
    | cons c cs =>
      have hc : isDigit base c = true := h c (List.mem_cons_self ..)
      have hspace : isSpace c ≠ true := by
        intro hspace
        rw [isDigit_of_isSpace hspace] at hc
        cases hc
      rw [List.dropWhile_cons_of_neg hspace, stripSign_of_isDigit hc]
  have htake : digits.takeWhile (isDigit base) = digits := by
    rw [List.takeWhile_eq_self_iff]
    exact h
  unfold strtol
  rw [hscan]
  dsimp only
  rw [htake, longMin, longMax]
  simp only [Bool.false_eq_true, if_false]
  omega

theorem digitsValue_append (base : Nat) (as bs : List Char) :
    digitsValue base (as ++ bs) =
      digitsValue base as * base ^ bs.length + digitsValue base bs := by
  have hfold : ∀ n : Nat, bs.foldl (fun n c => n * base + (digitValue c).getD 0) n =
      n * base ^ bs.length + digitsValue base bs := by
    unfold digitsValue
    induction bs with
    | nil => simp
    | cons b bs ih =>
      intro n
      rw [List.foldl_cons, ih, List.foldl_cons, ih (0 * base + _), List.length_cons, pow_succ]
      ring
  rw [digitsValue, List.foldl_append, hfold]
  rfl

theorem digitsValue_cons (base : Nat) (c : Char) (digits : List Char) :
    digitsValue base (c :: digits) =
      (digitValue c).getD 0 * base ^ digits.length + digitsValue base digits := by
  rw [← List.singleton_append, digitsValue_append]
  simp [digitsValue]

theorem eq_zero_of_digitValue {c : Char} (h : isDigit 10 c = true)
    (hzero : (digitValue c).getD 0 = 0) : c = '0' := by
  unfold isDigit at h
  cases hd : digitValue c with
  | none =>
    rw [hd] at h
    cases h
  | some d =>
    rw [hd] at hzero
    obtain rfl : d = 0 := hzero
    unfold digitValue at hd
    split at hd
    · rename_i hrange
      have hle : c.toNat ≤ '0'.toNat := Nat.sub_eq_zero_iff_le.mp (Option.some.inj hd)
      exact Char.toNat_inj.mp (Nat.le_antisymm hle hrange.1)
    · split at hd
      · have habove := Option.some.inj hd
        omega
      · split at hd
        · have habove := Option.some.inj hd
          omega
        · cases hd

theorem digitsValue_eq_zero_iff {digits : List Char}
    (h : ∀ c ∈ digits, isDigit 10 c = true) :
    digitsValue 10 digits = 0 ↔ ∀ c ∈ digits, c = '0' := by
  induction digits with
  | nil => simp [digitsValue]
  | cons c digits ih =>
    have hpos := Nat.pow_pos (n := digits.length) (show 0 < 10 by decide)
    have hrest := ih fun d hd => h d (List.mem_cons_of_mem c hd)
    rw [digitsValue_cons, Nat.add_eq_zero_iff, Nat.mul_eq_zero, hrest, List.forall_mem_cons]
    have hdigit : (digitValue c).getD 0 = 0 ↔ c = '0' := by
      constructor
      · exact eq_zero_of_digitValue (h c List.mem_cons_self)
      · rintro rfl
        rfl
    rw [hdigit, or_iff_left hpos.ne']

end QuadBot.Libc
