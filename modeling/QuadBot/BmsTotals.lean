import QuadBot.BmsCoulomb
import Mathlib.Algebra.BigOperators.Field
import Mathlib.Tactic.FieldSimp

/-! The running totals of the Coulomb counter, with the constants of the source. The total is
rounded at every call; as no increment is a tie, this adds up the rounded increments. -/

namespace QuadBot

open Finset Libc

/-- The increment of an accumulator, in hundredths of a coulomb. -/
def hundredths (acc : Int) : ℚ := 3168 * acc / 819175

/-- What rounding an increment adds to it, in hundredths of a coulomb. -/
def roundingError (acc : Int) : ℚ := roundf (hundredths acc) - hundredths acc

theorem coulombsOf_settings (acc : Int) : coulombsOf settings acc = hundredths acc / 100 := by
  have hfilter : settings.currentFilterInt.toNat = 33792 := by decide
  have hsense : settings.senseResistor = 0.008 := rfl
  simp only [coulombsOf, hundredths, hfilter, hsense, voltageLimitRangeExt]
  norm_num
  ring

theorem not_tie_hundredths (acc : Int) : ¬ Rounding.Tie (hundredths acc) := by
  rintro ⟨m, hm⟩
  have hint : 2 * 3168 * acc = 819175 * (2 * m + 1) := by
    have hrat : (2 * 3168 * acc : ℚ) = 819175 * (2 * m + 1) := by
      unfold hundredths at hm
      field_simp at hm
      linarith
    exact_mod_cast hrat
  omega

section

variable {σ : Type} (bus : Bus σ) (s : Bms σ)

def coulombResult (s : Bms σ) : CoulombCountResult := (readCoulombCounter bus settings s).1

/-- The state after `k` calls. -/
def afterCalls (k : Nat) : Bms σ := (fun s => (readCoulombCounter bus settings s).2)^[k] s

/-- The accumulator that the call after the first `k` reads. -/
def accRead (k : Nat) : Int :=
  signedAcc (readCoulombWords bus (afterCalls bus s k)).1
    (readCoulombWords bus (afterCalls bus s k)).2.1

theorem afterCalls_succ (k : Nat) : afterCalls bus s (k + 1) =
    (readCoulombCounter bus settings (afterCalls bus s k)).2 :=
  Function.iterate_succ_apply' _ k s

theorem coulombResult_coulombs (k : Nat) : (coulombResult bus (afterCalls bus s k)).coulombs =
    hundredths (accRead bus s k) / 100 :=
  coulombsOf_settings _

variable {s}

/-- The total after `k` calls is the sum of the rounded increments. -/
theorem totalCoulombs_eq (h0 : s.totalCoulombs = 0) (k : Nat) :
    (afterCalls bus s k).totalCoulombs =
      (∑ i ∈ range k, roundf (hundredths (accRead bus s i)) : Int) / 100 := by
  induction k with
  | zero => simpa [afterCalls] using h0
  | succ k ih =>
    have htotal : (afterCalls bus s (k + 1)).totalCoulombs =
        roundf (((afterCalls bus s k).totalCoulombs +
          coulombsOf settings (accRead bus s k)) * 100.0) / 100.0 := by
      rw [afterCalls_succ, (readCoulombCounter_totals bus settings (afterCalls bus s k)).1]
      rfl
    have hsum : ((afterCalls bus s k).totalCoulombs + coulombsOf settings (accRead bus s k)) *
        100.0 = (∑ i ∈ range k, roundf (hundredths (accRead bus s i)) : Int) +
          hundredths (accRead bus s k) := by
      rw [ih, coulombsOf_settings]
      norm_num
      ring
    rw [htotal, hsum, roundf, Rounding.halfAway_intCast_add _ (not_tie_hundredths _),
      Finset.sum_range_succ]
    norm_num [roundf]

theorem total_error (h0 : s.totalCoulombs = 0) (k : Nat) :
    (afterCalls bus s k).totalCoulombs -
        ∑ i ∈ range k, (coulombResult bus (afterCalls bus s i)).coulombs =
      (∑ i ∈ range k, roundingError (accRead bus s i)) / 100 := by
  simp only [coulombResult_coulombs, totalCoulombs_eq bus h0, roundingError,
    Finset.sum_sub_distrib, ← Finset.sum_div]
  push_cast
  ring

theorem total_within_iff (h0 : s.totalCoulombs = 0) (k : Nat) :
    |(afterCalls bus s k).totalCoulombs -
        ∑ i ∈ range k, (coulombResult bus (afterCalls bus s i)).coulombs| ≤ 0.005 ↔
      |∑ i ∈ range k, roundingError (accRead bus s i)| ≤ 1 / 2 := by
  rw [total_error bus h0, abs_div]
  norm_num
  constructor <;> intro h <;> linarith

theorem totalSampleCount_eq (h0 : s.totalSampleCount = 0) (k : Nat) :
    (afterCalls bus s k).totalSampleCount.toNat =
      (∑ i ∈ range k, (coulombResult bus (afterCalls bus s i)).sampleCount.toNat) % 2 ^ 32 := by
  induction k with
  | zero => simp [afterCalls, h0]
  | succ k ih =>
    have hcount : (afterCalls bus s (k + 1)).totalSampleCount =
        (afterCalls bus s k).totalSampleCount +
          (coulombResult bus (afterCalls bus s k)).sampleCount.toUInt32 := by
      rw [afterCalls_succ, (readCoulombCounter_totals bus settings (afterCalls bus s k)).2]
      rfl
    rw [hcount, UInt32.toNat_add, ih, Finset.sum_range_succ, UInt8.toNat_toUInt32]
    omega

/-- Over any number of calls and any register contents, from totals of 0: the total stays within
0.005 of the exact sum exactly when the errors of rounding the single increments never add up to
more than half a hundredth, and the sample count is the sum of the counts modulo `2^32`. -/
theorem totals_iff (h0 : s.totalCoulombs = 0) (hcount : s.totalSampleCount = 0) (n : Nat) :
    ((∀ k ≤ n, |(afterCalls bus s k).totalCoulombs -
        ∑ i ∈ range k, (coulombResult bus (afterCalls bus s i)).coulombs| ≤ 0.005) ↔
      ∀ k ≤ n, |∑ i ∈ range k, roundingError (accRead bus s i)| ≤ 1 / 2) ∧
    ∀ k ≤ n, (afterCalls bus s k).totalSampleCount.toNat =
      (∑ i ∈ range k, (coulombResult bus (afterCalls bus s i)).sampleCount.toNat) % 2 ^ 32 :=
  ⟨forall_congr' fun k => imp_congr_right fun _ => total_within_iff bus h0 k,
    fun k _ => totalSampleCount_eq bus hcount k⟩

end

/-- Three calls that each read an accumulator of 300: what each rounding takes away, 0.0016 C,
adds up to less than half a hundredth. -/
theorem totals_iff_three_calls :
    (∀ k ≤ 3, |(afterCalls coulombBus
          (bootBms (bootCoulomb fun k => if k % 5 = 1 then [300] else [])) k).totalCoulombs -
        ∑ i ∈ range k, (coulombResult coulombBus (afterCalls coulombBus
          (bootBms (bootCoulomb fun k => if k % 5 = 1 then [300] else [])) i)).coulombs| ≤
      0.005) ∧
    roundingError (accRead coulombBus
      (bootBms (bootCoulomb fun k => if k % 5 = 1 then [300] else [])) 0) < -0.16 := by
  have hacc : ∀ i < 3, accRead coulombBus
      (bootBms (bootCoulomb fun k => if k % 5 = 1 then [300] else [])) i = 300 := by
    decide +kernel
  have hround : roundf (hundredths 300) = 1 := by decide +kernel
  have herror : roundingError 300 = -131225 / 819175 := by
    rw [roundingError, hround, hundredths]
    norm_num
  constructor
  · refine (totals_iff coulombBus rfl rfl 3).1.mpr ?_
    intro k hk
    have hsum : ∑ i ∈ range k, roundingError (accRead coulombBus
        (bootBms (bootCoulomb fun k => if k % 5 = 1 then [300] else [])) i) =
          k * (-131225 / 819175) := by
      rw [Finset.sum_congr rfl fun i hi => by
        rw [hacc i ((Finset.mem_range.mp hi).trans_le hk), herror]]
      rw [Finset.sum_const, Finset.card_range, nsmul_eq_mul]
    have hle : (k : ℚ) ≤ 3 := by exact_mod_cast hk
    have hnonneg : (0 : ℚ) ≤ k := Nat.cast_nonneg k
    rw [hsum, abs_le]
    constructor <;> linarith
  · rw [hacc 0 (by decide), herror]
    norm_num

/-- Two calls that each read an accumulator of 100, 0.0039 coulombs: both increments are rounded
off, and the total misses 0.0077 coulombs. -/
theorem small_increments_vanish :
    ¬ ∀ k ≤ 2, |(afterCalls coulombBus
          (bootBms (bootCoulomb fun k => if k % 5 = 1 then [100] else [])) k).totalCoulombs -
        ∑ i ∈ range k, (coulombResult coulombBus (afterCalls coulombBus
          (bootBms (bootCoulomb fun k => if k % 5 = 1 then [100] else [])) i)).coulombs| ≤
      0.005 := by
  intro h
  have herror := (total_within_iff coulombBus rfl 2).mp (h 2 le_rfl)
  have hfirst : accRead coulombBus
      (bootBms (bootCoulomb fun k => if k % 5 = 1 then [100] else [])) 0 = 100 := by decide
  have hsecond : accRead coulombBus
      (bootBms (bootCoulomb fun k => if k % 5 = 1 then [100] else [])) 1 = 100 := by decide
  have hround : roundf (hundredths 100) = 0 := by decide +kernel
  rw [Finset.sum_range_succ, Finset.sum_range_one, hfirst, hsecond, roundingError, hround] at herror
  norm_num [hundredths, abs_le] at herror

end QuadBot
