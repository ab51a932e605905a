import QuadBot.Lib.Rounding
import Mathlib.Algebra.Ring.Int.Parity
import Mathlib.Data.Int.Log
import Mathlib.Tactic.FieldSimp
import Mathlib.Tactic.LinearCombination

/-! Binary floating point: the numbers of a format, rounding to the nearest of them with ties to
even, and values with signed zeros, infinities and NaN. The arithmetic rounds the exact result of
each operation. -/

namespace Binary

/-! ### The nearest integer -/

/-- The nearest integer, the even one where there are two. -/
def roundEven (x : ℚ) : ℤ :=
  if Int.fract x < 1 / 2 ∨ Int.fract x = 1 / 2 ∧ Even ⌊x⌋ then ⌊x⌋ else ⌊x⌋ + 1

theorem abs_roundEven_sub_le (x : ℚ) : |roundEven x - x| ≤ 1 / 2 := by
  have hfloor := Int.floor_add_fract x
  have hnonneg := Int.fract_nonneg x
  have hlt := Int.fract_lt_one x
  unfold roundEven
  split
  · rename_i h
    have hle : Int.fract x ≤ 1 / 2 := by
      rcases h with h | ⟨h, -⟩
      · exact h.le
      · exact h.le
    rw [abs_le]
    constructor <;> linarith
  · rename_i h
    have hle : 1 / 2 ≤ Int.fract x := not_lt.mp fun hx => h (Or.inl hx)
    push_cast
    rw [abs_le]
    constructor <;> linarith

@[simp] theorem roundEven_intCast (m : ℤ) : roundEven m = m := by
  simp [roundEven]

@[simp] theorem roundEven_zero : roundEven 0 = 0 := by
  simpa using roundEven_intCast 0

theorem abs_roundEven_le {x : ℚ} {m : ℤ} (h : |x| ≤ m) : |roundEven x| ≤ m := by
  have herror := abs_le.mp (abs_roundEven_sub_le x)
  have hx := abs_le.mp h
  have hupper : (roundEven x : ℚ) < m + 1 := by linarith
  have hlower : (-m - 1 : ℚ) < roundEven x := by linarith
  have hupper' : roundEven x < m + 1 := by exact_mod_cast hupper
  have hlower' : -m - 1 < roundEven x := by exact_mod_cast hlower
  rw [abs_le]
  omega

/-! ### Formats -/

/-- A format has numbers of `prec` binary digits, a least exponent of the last place, and an
exponent that bounds its numbers. -/
structure Format where
  prec : ℕ
  minExp : ℤ
  maxExp : ℤ
  prec_pos : 0 < prec

/-- Single precision. -/
def binary32 : Format where
  prec := 24
  minExp := -149
  maxExp := 128
  prec_pos := by decide

namespace Format

variable (φ : Format)

/-- The exponent of the last place of a number of the size of `x`. -/
def exponent (x : ℚ) : ℤ := max (Int.log 2 |x| + 1 - φ.prec) φ.minExp

/-- The nearest number of the format, were there no bound above. -/
def nearest (x : ℚ) : ℚ := roundEven (x / 2 ^ φ.exponent x) * 2 ^ φ.exponent x

/-- Numbers that the digits of the format can write. -/
def Representable (x : ℚ) : Prop := ∃ m e : ℤ, |m| < 2 ^ φ.prec ∧ φ.minExp ≤ e ∧ x = m * 2 ^ e

/-- The number that `x` is rounded to, where it does not overflow. -/
def rounded (x : ℚ) : Option ℚ :=
  if |φ.nearest x| < 2 ^ φ.maxExp then some (φ.nearest x) else none

variable {φ} {x : ℚ}

theorem two_zpow_pos (k : ℤ) : (0 : ℚ) < 2 ^ k := zpow_pos two_pos k

theorem two_zpow_le {j k : ℤ} (h : j ≤ k) : (2 : ℚ) ^ j ≤ 2 ^ k :=
  zpow_le_zpow_right₀ one_le_two h

@[simp] theorem nearest_zero : φ.nearest 0 = 0 := by
  simp [nearest]

theorem representable_zero : φ.Representable 0 :=
  ⟨0, φ.minExp, by simp, le_rfl, by simp⟩

theorem log_lt {k : ℤ} (hx : x ≠ 0) (h : |x| < 2 ^ k) : Int.log 2 |x| < k := by
  rw [← Int.lt_zpow_iff_log_lt one_lt_two (abs_pos.mpr hx)]
  simpa using h

theorem le_log {k : ℤ} (h : 2 ^ k ≤ |x|) : k ≤ Int.log 2 |x| := by
  have hpos : 0 < |x| := (two_zpow_pos k).trans_le h
  rw [← Int.zpow_le_iff_le_log one_lt_two hpos]
  simpa using h

theorem two_zpow_log_le (hx : x ≠ 0) : (2 : ℚ) ^ Int.log 2 |x| ≤ |x| := by
  simpa using Int.zpow_log_le_self one_lt_two (abs_pos.mpr hx)

theorem lt_two_zpow_log (x : ℚ) : |x| < (2 : ℚ) ^ (Int.log 2 |x| + 1) := by
  simpa using Int.lt_zpow_succ_log_self one_lt_two |x|

/-- One rounding is off by at most half a unit in the last place. -/
theorem abs_nearest_sub_le (x : ℚ) : |φ.nearest x - x| ≤ 2 ^ φ.exponent x / 2 := by
  have hunit := two_zpow_pos (φ.exponent x)
  have hscale : φ.nearest x - x =
      (roundEven (x / 2 ^ φ.exponent x) - x / 2 ^ φ.exponent x) * 2 ^ φ.exponent x := by
    rw [sub_mul, div_mul_cancel₀ _ hunit.ne']
    rfl
  calc |φ.nearest x - x|
      = |roundEven (x / 2 ^ φ.exponent x) - x / 2 ^ φ.exponent x| * 2 ^ φ.exponent x := by
        rw [hscale, abs_mul, abs_of_pos hunit]
    _ ≤ 1 / 2 * 2 ^ φ.exponent x :=
        mul_le_mul_of_nonneg_right (abs_roundEven_sub_le _) hunit.le
    _ = 2 ^ φ.exponent x / 2 := by ring

/-- The error of rounding a number below `2 ^ k`. -/
theorem abs_nearest_sub_le_of_lt {k : ℤ} (h : |x| < 2 ^ k) (hk : φ.minExp ≤ k - φ.prec) :
    |φ.nearest x - x| ≤ 2 ^ (k - φ.prec) / 2 := by
  by_cases hx : x = 0
  · subst hx
    rw [nearest_zero, sub_zero, abs_zero]
    exact (half_pos (two_zpow_pos _)).le
  · have hlog := log_lt hx h
    have hexp : φ.exponent x ≤ k - φ.prec := max_le (by omega) hk
    exact (abs_nearest_sub_le x).trans (by linarith [two_zpow_le hexp])

/-- The error of rounding a number that is not too small, in proportion to the number. -/
theorem abs_nearest_sub_le_mul (h : 2 ^ (φ.minExp + φ.prec) ≤ |x|) :
    |φ.nearest x - x| ≤ |x| / 2 ^ φ.prec := by
  have hx : x ≠ 0 := abs_pos.mp ((two_zpow_pos _).trans_le h)
  have hlog := le_log h
  have hexp : φ.exponent x = Int.log 2 |x| + 1 - φ.prec := max_eq_left (by omega)
  have hunit : (2 : ℚ) ^ φ.exponent x / 2 = 2 ^ Int.log 2 |x| / 2 ^ φ.prec := by
    rw [hexp, zpow_sub₀ two_ne_zero, zpow_add₀ two_ne_zero, zpow_one, zpow_natCast]
    ring
  calc |φ.nearest x - x| ≤ 2 ^ Int.log 2 |x| / 2 ^ φ.prec := hunit ▸ abs_nearest_sub_le x
    _ ≤ |x| / 2 ^ φ.prec := by
        have hle := two_zpow_log_le hx
        gcongr

theorem nearest_representable (x : ℚ) : φ.Representable (φ.nearest x) := by
  have hunit := two_zpow_pos (φ.exponent x)
  have hexp : φ.minExp ≤ φ.exponent x := le_max_right _ _
  have hpos := φ.prec_pos
  -- The digits are at most `2 ^ prec`, and where they are that many, a shift makes them fewer.
  have hdigits : |roundEven (x / 2 ^ φ.exponent x)| ≤ 2 ^ φ.prec := by
    have hlog : Int.log 2 |x| + 1 ≤ φ.exponent x + φ.prec := by
      have hmax : Int.log 2 |x| + 1 - φ.prec ≤ φ.exponent x := le_max_left _ _
      omega
    have hlt : |x| < 2 ^ φ.prec * 2 ^ φ.exponent x := by
      calc |x| < 2 ^ (Int.log 2 |x| + 1) := lt_two_zpow_log x
        _ ≤ 2 ^ (φ.exponent x + φ.prec) := two_zpow_le hlog
        _ = 2 ^ φ.prec * 2 ^ φ.exponent x := by
            rw [zpow_add₀ two_ne_zero, zpow_natCast, mul_comm]
    apply abs_roundEven_le
    rw [abs_div, abs_of_pos hunit, div_le_iff₀ hunit]
    push_cast
    exact hlt.le
  rcases hdigits.lt_or_eq with hlt | heq
  · exact ⟨_, _, hlt, hexp, rfl⟩
  · have hsplit : (2 : ℤ) ^ φ.prec = 2 ^ (φ.prec - 1) * 2 := by
      rw [← pow_succ, Nat.sub_add_cancel hpos]
    have hone : (1 : ℤ) ≤ 2 ^ (φ.prec - 1) := one_le_pow₀ one_le_two
    have hshift : ∀ m : ℤ, |m| = 2 ^ φ.prec → ∃ l : ℤ, |l| < 2 ^ φ.prec ∧ m = l * 2 := by
      intro m hm
      rcases eq_or_eq_neg_of_abs_eq hm with rfl | rfl
      · exact ⟨2 ^ (φ.prec - 1), by rw [abs_of_pos (by omega)]; omega, hsplit⟩
      · exact ⟨-2 ^ (φ.prec - 1), by rw [abs_neg, abs_of_pos (by omega)]; omega, by
          rw [hsplit, neg_mul]⟩
    obtain ⟨l, hl, hm⟩ := hshift _ heq
    refine ⟨l, φ.exponent x + 1, hl, by omega, ?_⟩
    rw [nearest, hm, zpow_add₀ two_ne_zero, zpow_one]
    push_cast
    ring

/-- The numbers of the format are not rounded. -/
theorem nearest_of_representable (h : φ.Representable x) : φ.nearest x = x := by
  obtain ⟨m, e, hm, he, rfl⟩ := h
  by_cases hzero : (m * 2 ^ e : ℚ) = 0
  · rw [hzero, nearest_zero]
  have habs : |(m * 2 ^ e : ℚ)| < 2 ^ (φ.prec + e) := by
    have hcast : (|m| : ℚ) < 2 ^ φ.prec := by exact_mod_cast hm
    rw [abs_mul, abs_of_pos (two_zpow_pos e), zpow_add₀ two_ne_zero, zpow_natCast]
    exact mul_lt_mul_of_pos_right hcast (two_zpow_pos e)
  have hexp : φ.exponent (m * 2 ^ e) ≤ e := by
    have hlog := log_lt hzero habs
    exact max_le (by omega) he
  obtain ⟨k, hk⟩ := Int.le.dest hexp
  have hdigits : (m * 2 ^ e : ℚ) / 2 ^ φ.exponent (m * 2 ^ e) = (m * 2 ^ k : ℤ) := by
    rw [div_eq_iff (two_zpow_pos _).ne']
    push_cast
    rw [mul_assoc, ← zpow_natCast, ← zpow_add₀ two_ne_zero, add_comm, hk]
  rw [nearest, hdigits, roundEven_intCast, ← hdigits, div_mul_cancel₀ _ (two_zpow_pos _).ne']

/-- Whole numbers of few digits are numbers of the format. -/
theorem representable_intCast (hexp : φ.minExp ≤ 0) {m : ℤ} (hm : |m| < 2 ^ φ.prec) :
    φ.Representable m :=
  ⟨m, 0, hm, hexp, by simp⟩

/-- A number of the format is whole, or its nearest whole number has few digits. -/
theorem halfAway_eq_or_lt (h : φ.Representable x) :
    Rounding.halfAway x = x ∨ |Rounding.halfAway x| < 2 ^ φ.prec := by
  obtain ⟨m, e, hm, he, rfl⟩ := h
  by_cases hneg : 0 ≤ e
  · obtain ⟨k, rfl⟩ := Int.eq_ofNat_of_zero_le hneg
    have hwhole : (m * 2 ^ (k : ℤ) : ℚ) = (m * 2 ^ k : ℤ) := by push_cast; rfl
    left
    rw [hwhole, Rounding.halfAway_intCast]
  · have hhalf : |(m * 2 ^ e : ℚ)| ≤ |m| / 2 := by
      have hle : (2 : ℚ) ^ e ≤ 2 ^ (-1 : ℤ) := two_zpow_le (by omega)
      rw [zpow_neg_one] at hle
      rw [abs_mul, abs_of_pos (two_zpow_pos e), div_eq_mul_inv]
      push_cast
      exact mul_le_mul_of_nonneg_left hle (abs_nonneg _)
    have hround := abs_le.mp (Rounding.abs_halfAway_sub_le (m * 2 ^ e : ℚ))
    have hx := abs_le.mp hhalf
    have hdigits : (|m| : ℚ) < 2 ^ φ.prec := by exact_mod_cast hm
    have hone : (1 : ℚ) ≤ 2 ^ φ.prec := one_le_pow₀ one_le_two
    right
    have hlt : |(Rounding.halfAway (m * 2 ^ e : ℚ) : ℚ)| < 2 ^ φ.prec := by
      push_cast at hx
      rw [abs_lt]
      constructor <;> linarith
    exact_mod_cast hlt

/-- Rounding does not pass a power of two. -/
theorem abs_nearest_le {k : ℤ} (h : |x| ≤ 2 ^ k) (hk : φ.minExp ≤ k) : |φ.nearest x| ≤ 2 ^ k := by
  by_cases hx : x = 0
  · rw [hx, nearest_zero, abs_zero]
    exact (two_zpow_pos k).le
  have hunit := two_zpow_pos (φ.exponent x)
  have hexp : φ.exponent x ≤ k := by
    have hlt : (2 : ℚ) ^ k < 2 ^ (k + 1) := zpow_lt_zpow_right₀ one_lt_two (by omega)
    have hlog := log_lt hx (h.trans_lt hlt)
    have hpos := φ.prec_pos
    exact max_le (by omega) hk
  obtain ⟨j, hj⟩ := Int.le.dest hexp
  have hpow : (2 : ℚ) ^ k = (2 ^ j : ℤ) * 2 ^ φ.exponent x := by
    rw [← hj, zpow_add₀ two_ne_zero, zpow_natCast]
    push_cast
    ring
  have hdigits : |roundEven (x / 2 ^ φ.exponent x)| ≤ 2 ^ j := by
    apply abs_roundEven_le
    rw [abs_div, abs_of_pos hunit, div_le_iff₀ hunit, ← hpow]
    exact h
  have hcast : |(roundEven (x / 2 ^ φ.exponent x) : ℚ)| ≤ (2 ^ j : ℤ) := by exact_mod_cast hdigits
  rw [nearest, abs_mul, abs_of_pos hunit, hpow]
  exact mul_le_mul_of_nonneg_right hcast hunit.le

theorem nearest_of_rounded {y : ℚ} (h : φ.rounded x = some y) : φ.nearest x = y := by
  unfold rounded at h
  split at h
  · exact Option.some.inj h
  · cases h

theorem abs_mul_le {y : ℚ} {j k : ℤ} (hx : |x| ≤ 2 ^ j) (hy : |y| ≤ 2 ^ k) :
    |x * y| ≤ 2 ^ (j + k) := by
  rw [abs_mul, zpow_add₀ two_ne_zero]
  exact mul_le_mul hx hy (abs_nonneg y) (two_zpow_pos j).le

/-- A number up to a power of two that the format reaches does not overflow. -/
theorem rounded_of_le {k : ℤ} (h : |x| ≤ 2 ^ k) (hmin : φ.minExp ≤ k) (hmax : k < φ.maxExp) :
    φ.rounded x = some (φ.nearest x) :=
  if_pos ((abs_nearest_le h hmin).trans_lt (zpow_lt_zpow_right₀ one_lt_two hmax))

/-- Rounding a number of the format to a whole number is exact. -/
theorem rounded_halfAway (hmin : φ.minExp ≤ 0) (hmax : φ.prec ≤ φ.maxExp)
    (h : φ.Representable x) (hx : |x| < 2 ^ φ.maxExp) :
    φ.rounded (Rounding.halfAway x) = some (Rounding.halfAway x : ℚ) := by
  suffices hsuffices : φ.Representable (Rounding.halfAway x) ∧
      |(Rounding.halfAway x : ℚ)| < 2 ^ φ.maxExp by
    have hexact := nearest_of_representable hsuffices.1
    rw [rounded, if_pos (by rw [hexact]; exact hsuffices.2), hexact]
  rcases halfAway_eq_or_lt h with heq | hlt
  · rw [heq]
    exact ⟨h, hx⟩
  · refine ⟨representable_intCast hmin hlt, ?_⟩
    have hcast : |(Rounding.halfAway x : ℚ)| < 2 ^ φ.prec := by exact_mod_cast hlt
    rw [← zpow_natCast] at hcast
    exact hcast.trans_le (two_zpow_le hmax)

end Format

/-! ### Values -/

/-- A floating-point value. The positive zero is a number, the negative one is apart. -/
inductive Value (φ : Format)
  | num (x : ℚ) (representable : φ.Representable x) (bounded : |x| < 2 ^ φ.maxExp)
  | negZero
  | inf (negative : Bool)
  | nan
  deriving DecidableEq

namespace Value

variable {φ : Format}

/-- The number that a value is, where it is one. -/
def number : Value φ → Option ℚ
  | num x _ _ => some x
  | negZero => some 0
  | inf _ | nan => none

def negative : Value φ → Bool
  | num x _ _ => decide (x < 0)
  | negZero => true
  | inf negative => negative
  | nan => false

@[simp] theorem number_inf (negative : Bool) : (inf negative : Value φ).number = none := rfl

@[simp] theorem number_nan : (nan : Value φ).number = none := rfl

@[simp] theorem negative_inf (negative : Bool) : (inf negative : Value φ).negative = negative := rfl

/-- The value of an exact result. The sign is that of a result that comes out as zero. -/
def round (negative : Bool) (x : ℚ) : Value φ :=
  if negative ∧ φ.nearest x = 0 then negZero
  else if h : |φ.nearest x| < 2 ^ φ.maxExp then
    num (φ.nearest x) (Format.nearest_representable x) h
  else inf (decide (x < 0))

def ofRat (x : ℚ) : Value φ := round (decide (x < 0)) x

def add (x y : Value φ) : Value φ :=
  match x.number, y.number with
  | some a, some b => round (x.negative && y.negative) (a + b)
  | some _, none => y
  | none, some _ => x
  | none, none => if x = y then x else nan

def mul (x y : Value φ) : Value φ :=
  match x.number, y.number with
  | some a, some b => round (x.negative ^^ y.negative) (a * b)
  | a, b =>
    if x = nan ∨ y = nan ∨ a = some 0 ∨ b = some 0 then nan else inf (x.negative ^^ y.negative)

def div (x y : Value φ) : Value φ :=
  match x.number, y.number with
  | some a, some b =>
    if b ≠ 0 then round (x.negative ^^ y.negative) (a / b)
    else if a ≠ 0 then inf (x.negative ^^ y.negative) else nan
  | some _, none => if y = nan then nan else round (x.negative ^^ y.negative) 0
  | none, some _ => if x = nan then nan else inf (x.negative ^^ y.negative)
  | none, none => nan

instance : RatCast (Value φ) := ⟨ofRat⟩

instance : Add (Value φ) := ⟨add⟩

instance : Mul (Value φ) := ⟨mul⟩

instance : Div (Value φ) := ⟨div⟩

/-- The nearest whole number, away from 0 at a tie. -/
def roundAway (x : Value φ) : Value φ :=
  match x.number with
  | some a => round x.negative (Rounding.halfAway a)
  | none => x

/-! ### The number of a result -/

theorem number_bounded {x : Value φ} {a : ℚ} (h : x.number = some a) :
    φ.Representable a ∧ |a| < 2 ^ φ.maxExp := by
  cases x with
  | num b hrepr hlt =>
    obtain rfl := Option.some.inj h
    exact ⟨hrepr, hlt⟩
  | negZero =>
    obtain rfl := Option.some.inj h
    exact ⟨Format.representable_zero, by simpa using Format.two_zpow_pos φ.maxExp⟩
  | inf | nan => cases h

@[simp] theorem number_round (negative : Bool) (x : ℚ) :
    (round negative x : Value φ).number = φ.rounded x := by
  unfold round Format.rounded
  split_ifs with hzero hlt hlt
  · rw [hzero.2]
    rfl
  · rw [hzero.2, abs_zero] at hlt
    exact absurd (Format.two_zpow_pos _) hlt
  · rfl
  · rfl

theorem number_ratCast (a : ℚ) : (a : Value φ).number = φ.rounded a := number_round _ a

section

variable {x y : Value φ} {a b : ℚ}

theorem number_add (hx : x.number = some a) (hy : y.number = some b) :
    (x + y).number = φ.rounded (a + b) := by
  show (add x y).number = _
  simp only [add, hx, hy, number_round]

theorem number_mul (hx : x.number = some a) (hy : y.number = some b) :
    (x * y).number = φ.rounded (a * b) := by
  show (mul x y).number = _
  simp only [mul, hx, hy, number_round]

theorem number_div (hx : x.number = some a) (hy : y.number = some b) (hb : b ≠ 0) :
    (x / y).number = φ.rounded (a / b) := by
  show (div x y).number = _
  simp only [div, hx, hy, if_pos hb, number_round]

theorem number_roundAway (hx : x.number = some a) :
    (roundAway x).number = φ.rounded (Rounding.halfAway a) := by
  simp only [roundAway, hx, number_round]

theorem roundAway_of_none (hx : x.number = none) : roundAway x = x := by
  simp only [roundAway, hx]

/-- An infinity and NaN stay what they are when a number is added. -/
theorem add_of_none (hx : x.number = none) (hy : y.number = some b) : x + y = x := by
  show add x y = x
  simp only [add, hx, hy]

theorem ne_nan (hy : y.number = some b) : y ≠ nan := by
  rintro rfl
  cases hy

theorem mul_of_none (hx : x.number = none) (hy : y.number = some b) (hb : b ≠ 0)
    (hsign : y.negative = false) : x * y = x := by
  show mul x y = x
  have hnan := ne_nan hy
  cases x with
  | num | negZero => cases hx
  | inf negative => simp [mul, hy, hnan, hb, hsign]
  | nan => simp [mul]

theorem div_of_none (hx : x.number = none) (hy : y.number = some b)
    (hsign : y.negative = false) : x / y = x := by
  show div x y = x
  cases x with
  | num | negZero => cases hx
  | inf negative => simp [div, hy, hsign]
  | nan => simp [div, hy]

end

/-- Two values that compare equal, or are both NaN: the zeros are not told apart. -/
def Same (x y : Value φ) : Prop := x = y ∨ ∃ a, x.number = some a ∧ y.number = some a

theorem same_iff {x y : Value φ} {a : ℚ} (hy : y.number = some a) :
    Same x y ↔ x.number = some a := by
  constructor
  · rintro (rfl | ⟨b, hx, hb⟩)
    · exact hy
    · rw [hx, ← hb, hy]
  · intro hx
    exact Or.inr ⟨a, hx, hy⟩

end Value

/-! ### Accumulated errors -/

/-- `y` differs from `x` by at most the share `ε` of `x`. -/
def Close (ε x y : ℚ) : Prop := |y - x| ≤ ε * |x|

namespace Close

variable {ε x y : ℚ}

theorem refl (x : ℚ) : Close 0 x x := by
  simp [Close]

theorem mul (h : Close ε x y) (c : ℚ) : Close ε (x * c) (y * c) := by
  rw [Close, ← sub_mul, abs_mul, abs_mul, ← mul_assoc]
  exact mul_le_mul_of_nonneg_right h (abs_nonneg c)

theorem div (h : Close ε x y) (c : ℚ) : Close ε (x / c) (y / c) := by
  simpa only [div_eq_mul_inv] using h.mul c⁻¹

theorem mono {ε' : ℚ} (h : Close ε x y) (hε : ε ≤ ε') : Close ε' x y :=
  h.trans (mul_le_mul_of_nonneg_right hε (abs_nonneg x))

/-- One more rounding, of numbers that are not too small. -/
theorem nearest {φ : Format} (h : Close ε x y) (hε : ε ≤ 1 / 2)
    (hx : 2 ^ (φ.minExp + φ.prec + 1) ≤ |x|) :
    Close (ε + 2 / 2 ^ φ.prec) x (φ.nearest y) := by
  have hpow : (0 : ℚ) < 2 ^ φ.prec := by positivity
  have hnonneg := abs_nonneg x
  have hupper : |y| ≤ (1 + ε) * |x| := by
    calc |y| = |(y - x) + x| := by rw [sub_add_cancel]
      _ ≤ |y - x| + |x| := abs_add_le _ _
      _ ≤ ε * |x| + |x| := add_le_add_left h _
      _ = (1 + ε) * |x| := by ring
  have hlower : |x| / 2 ≤ |y| := by
    have htriangle : |x| ≤ |y - x| + |y| := by
      calc |x| = |y - (y - x)| := by rw [sub_sub_cancel]
        _ ≤ |y| + |y - x| := abs_sub _ _
        _ = |y - x| + |y| := add_comm _ _
    have hhalf : |y - x| ≤ 1 / 2 * |x| := h.trans (mul_le_mul_of_nonneg_right hε hnonneg)
    linarith
  have hnormal : (2 : ℚ) ^ (φ.minExp + φ.prec) ≤ |y| := by
    rw [zpow_add_one₀ two_ne_zero] at hx
    linarith
  calc |φ.nearest y - x| = |(φ.nearest y - y) + (y - x)| := by rw [sub_add_sub_cancel]
    _ ≤ |φ.nearest y - y| + |y - x| := abs_add_le _ _
    _ ≤ |y| / 2 ^ φ.prec + ε * |x| := add_le_add (Format.abs_nearest_sub_le_mul hnormal) h
    _ ≤ 2 * |x| / 2 ^ φ.prec + ε * |x| := by
        have hdouble : (1 + ε) * |x| ≤ 2 * |x| := by gcongr; linarith
        have hle : |y| ≤ 2 * |x| := hupper.trans hdouble
        gcongr
    _ = (ε + 2 / 2 ^ φ.prec) * |x| := by ring

end Close

end Binary
