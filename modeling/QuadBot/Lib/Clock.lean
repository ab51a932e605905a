import Mathlib.Algebra.Order.Ring.Nat

/-! Comparing a wrapping clock with a wrapping deadline. A clock modulo `M` read `a` when a window
of length `W` opened and reads `(a + e) % M` after a time `e`. -/

namespace Clock

variable {M a e W : Nat}

theorem wrap_of_lt (h : a + e < M) : (a + e) % M = a + e := Nat.mod_eq_of_lt h

theorem wrap_of_ge (ha : a < M) (he : e < M) (h : M ≤ a + e) : (a + e) % M = a + e - M := by
  rw [Nat.mod_eq_sub_mod h, Nat.mod_eq_of_lt (by omega)]

/-- The comparison of the reading with the deadline tells whether the window is open exactly when
the reading and the deadline have both passed the boundary `M` or neither has. -/
theorem reading_lt_deadline_iff (ha : a < M) (he : e < M) (hW : W < M) :
    ((a + e) % M < (a + W) % M ↔ e < W) ↔ (a + e < M ↔ a + W < M) := by
  by_cases h1 : a + e < M <;> by_cases h2 : a + W < M
  · rw [wrap_of_lt h1, wrap_of_lt h2]
    omega
  · rw [wrap_of_lt h1, wrap_of_ge ha hW (by omega)]
    omega
  · rw [wrap_of_ge ha he (by omega), wrap_of_lt h2]
    omega
  · rw [wrap_of_ge ha he (by omega), wrap_of_ge ha hW (by omega)]
    omega

end Clock
