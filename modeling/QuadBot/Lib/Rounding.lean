import Mathlib.Algebra.Order.Round
import Mathlib.Data.Rat.Floor

/-! Rounding to the nearest integer, away from 0 at a tie. Away from ties it is `round`, and so
commutes with the addition of an integer. -/

namespace Rounding

variable {K : Type*} [Field K] [LinearOrder K] [IsStrictOrderedRing K] [FloorRing K]

/-- The nearest integer, the one farther from 0 where there are two. -/
def halfAway (x : K) : ℤ := if 0 ≤ x then ⌊x + 1 / 2⌋ else ⌈x - 1 / 2⌉

theorem abs_halfAway_sub_le (x : K) : |halfAway x - x| ≤ 1 / 2 := by
  rw [halfAway, abs_le]
  split
  · have hle := Int.floor_le (x + 1 / 2)
    have hlt := Int.lt_floor_add_one (x + 1 / 2)
    constructor <;> linarith
  · have hle := Int.le_ceil (x - 1 / 2)
    have hlt := Int.ceil_lt_add_one (x - 1 / 2)
    constructor <;> linarith

theorem halfAway_eq_of_abs_lt {x : K} {m : ℤ} (h : |x - m| < 1 / 2) : halfAway x = m := by
  have herror := abs_le.mp (abs_halfAway_sub_le x)
  have hx := abs_lt.mp h
  have hupper : (halfAway x : K) < m + 1 := by linarith
  have hlower : (m - 1 : K) < halfAway x := by linarith
  have hupper' : halfAway x < m + 1 := by exact_mod_cast hupper
  have hlower' : m - 1 < halfAway x := by exact_mod_cast hlower
  omega

@[simp] theorem halfAway_intCast (m : ℤ) : halfAway (m : K) = m :=
  halfAway_eq_of_abs_lt (by simp)

/-- Half way between two integers. -/
def Tie (x : K) : Prop := ∃ m : ℤ, x = m + 1 / 2

theorem halfAway_eq_round {x : K} (h : ¬ Tie x) : halfAway x = round x := by
  rw [round_eq, halfAway]
  split
  · rfl
  · have hle := Int.floor_le (x + 1 / 2)
    have hlt := Int.lt_floor_add_one (x + 1 / 2)
    have hne : x + 1 / 2 ≠ ⌊x + 1 / 2⌋ := by
      intro heq
      refine h ⟨⌊x + 1 / 2⌋ - 1, ?_⟩
      push_cast
      linarith
    have hlt' : (⌊x + 1 / 2⌋ : K) < x + 1 / 2 := lt_of_le_of_ne hle hne.symm
    rw [Int.ceil_eq_iff]
    constructor <;> linarith

theorem tie_intCast_add {m : ℤ} {x : K} : Tie (m + x) ↔ Tie x := by
  constructor
  · rintro ⟨k, hk⟩
    refine ⟨k - m, ?_⟩
    push_cast
    linarith
  · rintro ⟨k, rfl⟩
    refine ⟨m + k, ?_⟩
    push_cast
    ring

theorem halfAway_intCast_add (m : ℤ) {x : K} (h : ¬ Tie x) :
    halfAway (m + x) = m + halfAway x := by
  rw [halfAway_eq_round h, halfAway_eq_round (mt tie_intCast_add.mp h), add_comm (m : K),
    round_add_intCast, add_comm]

end Rounding
