import Mathlib.Algebra.Order.Round
import Mathlib.Algebra.Order.Archimedean.Basic
import Mathlib.Tactic.Linarith
import Mathlib.Tactic.Ring

/-! Quantizers: a value is coded as its nearest multiple of a step, with a highest code at which
larger values saturate, and a code is read back through a gain of its own. -/

namespace Quantizer

variable {K : Type*} [Field K] [LinearOrder K] [IsStrictOrderedRing K] [FloorRing K]

def code (step : K) (maxCode : ℤ) (x : K) : ℤ := min (round (x / step)) maxCode

variable {step x : K} {maxCode : ℤ}

theorem code_nonneg (hstep : 0 < step) (hmax : 0 ≤ maxCode) (hx : 0 ≤ x) :
    0 ≤ code step maxCode x := by
  have hdiv : 0 ≤ x / step := div_nonneg hx hstep.le
  have hround : 0 ≤ round (x / step) := by
    rw [round_eq, Int.floor_nonneg]
    linarith
  exact le_min hround hmax

/-- The code is off by half a step, or by what lies above the highest code. -/
theorem abs_step_mul_code_sub_le (hstep : 0 < step) {hi : K} (hx : x ≤ hi) :
    |step * code step maxCode x - x| ≤ max (step / 2) (hi - step * maxCode) := by
  have hscale : x = step * (x / step) := by
    rw [mul_div_cancel₀]
    exact hstep.ne'
  have hround := abs_sub_round (x / step)
  rcases le_or_gt (round (x / step)) maxCode with hle | hgt
  · apply le_max_of_le_left
    rw [code, min_eq_left hle]
    calc |step * round (x / step) - x|
        = |step * (round (x / step) - x / step)| := by rw [mul_sub, ← hscale]
      _ = step * |x / step - round (x / step)| := by rw [abs_mul, abs_of_pos hstep, abs_sub_comm]
      _ ≤ step * (1 / 2) := mul_le_mul_of_nonneg_left hround hstep.le
      _ = step / 2 := by ring
  · apply le_max_of_le_right
    rw [code, min_eq_right hgt.le]
    have hnext : (maxCode : K) + 1 ≤ round (x / step) := by exact_mod_cast hgt
    have hdiv : (maxCode : K) ≤ x / step := by
      have habove := (abs_le.mp hround).1
      linarith
    have hbelow : step * maxCode ≤ x := by
      calc step * maxCode ≤ step * (x / step) := mul_le_mul_of_nonneg_left hdiv hstep.le
        _ = x := hscale.symm
    rw [abs_sub_comm, abs_of_nonneg (sub_nonneg.mpr hbelow)]
    linarith

/-- A gain other than the step adds an error that grows with the code. -/
theorem abs_gain_mul_code_sub_le (hstep : 0 < step) (hmax : 0 ≤ maxCode) (gain : K) {hi : K}
    (hpos : 0 ≤ x) (hx : x ≤ hi) :
    |gain * code step maxCode x - x| ≤
      |gain - step| * maxCode + max (step / 2) (hi - step * maxCode) := by
  have hcode : (0 : K) ≤ code step maxCode x := Int.cast_nonneg (code_nonneg hstep hmax hpos)
  have hle : (code step maxCode x : K) ≤ maxCode := Int.cast_le.mpr (min_le_right _ _)
  have hgain : |(gain - step) * code step maxCode x| ≤ |gain - step| * maxCode := by
    rw [abs_mul, abs_of_nonneg hcode]
    exact mul_le_mul_of_nonneg_left hle (abs_nonneg _)
  calc |gain * code step maxCode x - x|
      = |(gain - step) * code step maxCode x + (step * code step maxCode x - x)| := by
        congr 1
        ring
    _ ≤ |(gain - step) * code step maxCode x| + |step * code step maxCode x - x| := abs_add_le _ _
    _ ≤ _ := add_le_add hgain (abs_step_mul_code_sub_le hstep hx)

/-! ### Nearest codes -/

/-- Of the codes from 0 on, this one has the value nearest to `x`, and is the larger one where two
are as near. -/
structure Nearest (decode : ℤ → K) (maxCode : ℤ) (x : K) (c : ℤ) : Prop where
  nonneg : 0 ≤ c
  le_maxCode : c ≤ maxCode
  closest : ∀ n, 0 ≤ n → n ≤ maxCode →
    |decode c - x| < |decode n - x| ∨ |decode c - x| = |decode n - x| ∧ n ≤ c

/-- The nearest integer, between 0 and the highest code. -/
def saturate (maxCode : ℤ) (x : K) : ℤ := max 0 (min (round x) maxCode)

theorem round_le_round {x y : K} (h : x ≤ y) : round x ≤ round y := by
  rw [round_eq, round_eq]
  apply Int.floor_le_floor
  linarith

theorem saturate_le_saturate (maxCode : ℤ) {x y : K} (h : x ≤ y) :
    saturate maxCode x ≤ saturate maxCode y := by
  have hround := round_le_round h
  unfold saturate
  omega

/-- To saturate a value and then to code it is to code it. -/
theorem saturate_clamp (hmax : 0 ≤ maxCode) (x : K) :
    saturate maxCode (max 0 (min x maxCode)) = saturate maxCode x := by
  have hclamp : round (max 0 (min x (maxCode : K))) = max 0 (min (round x) maxCode) := by
    have hmono : Monotone (round : K → ℤ) := fun _ _ => round_le_round
    rw [hmono.map_max, hmono.map_min, round_zero, round_intCast]
  unfold saturate
  rw [hclamp]
  omega

/-- A smaller code is no nearer: the value is at least the one chosen less a half. -/
theorem abs_saturate_sub_le {n : ℤ} (x : K) (hpos : 0 ≤ n) (hn : n ≤ saturate maxCode x) :
    |(saturate maxCode x : K) - x| ≤ |(n : K) - x| := by
  rcases hn.eq_or_lt with rfl | hlt
  · exact le_rfl
  · have hround : saturate maxCode x ≤ ⌊x + 1 / 2⌋ := by
      rw [← round_eq]
      unfold saturate at hlt ⊢
      omega
    have hvalue : (saturate maxCode x : K) ≤ x + 1 / 2 := Int.le_floor.mp hround
    have hnext : (n : K) + 1 ≤ saturate maxCode x := by exact_mod_cast hlt
    rw [abs_sub_comm (n : K), abs_of_nonneg (by linarith : (0 : K) ≤ x - n), abs_le]
    constructor <;> linarith

/-- A larger code is farther: the value is below the one chosen and a half. -/
theorem abs_saturate_sub_lt {n : ℤ} (x : K) (hmax : n ≤ maxCode) (hn : saturate maxCode x < n) :
    |(saturate maxCode x : K) - x| < |(n : K) - x| := by
  have hround : ⌊x + 1 / 2⌋ < saturate maxCode x + 1 := by
    rw [← round_eq]
    unfold saturate at hn ⊢
    omega
  have hvalue : x + 1 / 2 < saturate maxCode x + 1 := by exact_mod_cast Int.floor_lt.mp hround
  have hnext : (saturate maxCode x : K) + 1 ≤ n := by exact_mod_cast hn
  rw [abs_of_pos (by linarith : (0 : K) < n - x), abs_lt]
  constructor <;> linarith

theorem nearest_saturate (hmax : 0 ≤ maxCode) (x : K) :
    Nearest (fun n => (n : K)) maxCode x (saturate maxCode x) where
  nonneg := le_max_left _ _
  le_maxCode := max_le hmax (min_le_right _ _)
  closest n hpos hle := by
    rcases le_or_gt n (saturate maxCode x) with hn | hn
    · rcases (abs_saturate_sub_le x hpos hn).lt_or_eq with h | h
      · exact Or.inl h
      · exact Or.inr ⟨h, hn⟩
    · exact Or.inl (abs_saturate_sub_lt x hle hn)

omit [FloorRing K] in
/-- The nearest code does not depend on the unit and the zero of the values. -/
theorem Nearest.affine {c : ℤ} (h : Nearest (fun n => (n : K)) maxCode x c) (hstep : 0 < step)
    (offset : K) :
    Nearest (fun n => offset + step * (n : K)) maxCode (offset + step * x) c where
  nonneg := h.nonneg
  le_maxCode := h.le_maxCode
  closest n hpos hle := by
    have hscale : ∀ k : ℤ,
        |offset + step * (k : K) - (offset + step * x)| = step * |(k : K) - x| := by
      intro k
      rw [add_sub_add_left_eq_sub, ← mul_sub, abs_mul, abs_of_pos hstep]
    rw [hscale, hscale]
    rcases h.closest n hpos hle with hlt | ⟨heq, hn⟩
    · exact Or.inl (mul_lt_mul_of_pos_left hlt hstep)
    · exact Or.inr ⟨congrArg (step * ·) heq, hn⟩

end Quantizer
