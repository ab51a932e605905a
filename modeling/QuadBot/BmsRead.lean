import QuadBot.BmsCore
import QuadBot.Libc
import Mathlib.Data.Nat.Bitwise

/-! The Coulomb counter of `BMS_ReadCommands.cpp`, over any arithmetic. The numbers of the source
are cast to the type of the arithmetic, which rounds them where its numbers are not exact. -/

namespace QuadBot

open Libc

/-- `roundf` of an arithmetic, whose result is a number of it. -/
class Roundf (F : Type) where
  roundf : F → F

instance : Roundf ℚ := ⟨fun x => roundf x⟩

structure CoulombCountResult (F : Type := ℚ) where
  coulombs : F
  sampleCount : UInt8
  totalCoulombs : F
  totalSampleCount : UInt32

/-- The accumulator that two register words hold: 24 bits in two's complement. -/
def signedAcc (msb lsbAndCount : UInt16) : Int :=
  let acc24 : UInt32 := (msb.toUInt32 <<< 8) ||| (lsbAndCount >>> 8).toUInt32
  let acc24 := if acc24 &&& 0x800000 ≠ 0 then acc24 ||| 0xFF000000 else acc24
  acc24.toInt32.toInt

def sampleCount (lsbAndCount : UInt16) : UInt8 := (lsbAndCount &&& 0xFF).toUInt8

variable {σ F : Type} (bus : Bus σ) (cfg : Settings)

/-- The bus transactions of `readCoulombCounter`: the reset and the two words read. -/
def readCoulombWords (s : Bms σ F) : UInt16 × UInt16 × Bms σ F :=
  let s := writeBMSData bus 0x49 0x2D 0xFFFF s
  let (msb, wire1) := readBMSData bus 0x49 0x2D s.wire1
  let (lsbAndCount, wire1) := readBMSData bus 0x49 0x2E wire1
  (msb, lsbAndCount, { s with wire1 })

variable [RatCast F] [Add F] [Mul F] [Div F] [Roundf F]

/-- The charge that an accumulator stands for. -/
def coulombsOf (acc : Int) : F :=
  let measuredVoltage : F := (acc : ℚ) * (voltageLimitRangeExt / (32767.0 : ℚ))
  (measuredVoltage / cfg.senseResistor) * (cfg.currentFilterInt.toNat : ℚ) / (1000000.0 : ℚ)

def readCoulombCounter (s : Bms σ F) : CoulombCountResult F × Bms σ F :=
  let (msb, lsbAndCount, s) := readCoulombWords bus s
  let coulombs : F := coulombsOf cfg (signedAcc msb lsbAndCount)
  let sampleCount := sampleCount lsbAndCount
  let totalCoulombs := s.totalCoulombs + coulombs
  let totalCoulombs := Roundf.roundf (totalCoulombs * (100.0 : ℚ)) / (100.0 : ℚ)
  let totalSampleCount := s.totalSampleCount + sampleCount.toUInt32
  ({ coulombs, sampleCount, totalCoulombs, totalSampleCount },
    { s with totalCoulombs, totalSampleCount })

omit [RatCast F] [Add F] [Mul F] [Div F] [Roundf F] in
theorem readCoulombWords_totals (s : Bms σ F) :
    (readCoulombWords bus s).2.2.totalCoulombs = s.totalCoulombs ∧
      (readCoulombWords bus s).2.2.totalSampleCount = s.totalSampleCount := by
  simp only [readCoulombWords, writeBMSData]
  split <;> exact ⟨rfl, rfl⟩

/-- What a call does to the totals. -/
theorem readCoulombCounter_totals (s : Bms σ F) :
    (readCoulombCounter bus cfg s).2.totalCoulombs =
      Roundf.roundf ((s.totalCoulombs + coulombsOf cfg
        (signedAcc (readCoulombWords bus s).1 (readCoulombWords bus s).2.1)) * (100.0 : ℚ)) /
          (100.0 : ℚ) ∧
    (readCoulombCounter bus cfg s).2.totalSampleCount = s.totalSampleCount +
      (sampleCount (readCoulombWords bus s).2.1).toUInt32 := by
  obtain ⟨htotal, hcount⟩ := readCoulombWords_totals bus s
  rw [← htotal, ← hcount]
  exact ⟨rfl, rfl⟩

theorem coulombsOf_exact (acc : Int) : coulombsOf cfg acc =
    ((acc : ℚ) * (voltageLimitRangeExt / 32767.0)) / cfg.senseResistor *
      cfg.currentFilterInt.toNat / 1000000.0 := rfl

/-! ### The words of a call -/

theorem acc24_toNat (msb lsbAndCount : UInt16) :
    ((msb.toUInt32 <<< 8) ||| (lsbAndCount >>> 8).toUInt32).toNat =
      256 * msb.toNat + lsbAndCount.toNat / 256 := by
  have hm := msb.toNat_lt
  have hl := lsbAndCount.toNat_lt
  have hlow : lsbAndCount.toNat / 256 < 2 ^ 8 := by omega
  have hshift : msb.toNat <<< 8 < 2 ^ 32 := by rw [Nat.shiftLeft_eq]; omega
  simp only [UInt32.toNat_or, UInt32.toNat_shiftLeft, UInt16.toNat_toUInt32,
    UInt16.toNat_shiftRight]
  rw [show UInt32.toNat 8 % 32 = 8 from rfl, show UInt16.toNat 8 % 16 = 8 from rfl,
    Nat.mod_eq_of_lt hshift, Nat.shiftRight_eq_div_pow, ← Nat.shiftLeft_add_eq_or_of_lt hlow,
    Nat.shiftLeft_eq]
  omega

theorem toInt_toInt32 (x : UInt32) : x.toInt32.toInt = (x.toNat : Int).bmod (2 ^ 32) := by
  rw [Int32.toInt, UInt32.toBitVec_toInt32, BitVec.toInt_eq_toNat_bmod, UInt32.toNat_toBitVec]

theorem signBit_iff {x : UInt32} (h : x.toNat < 2 ^ 24) :
    x &&& 0x800000 ≠ 0 ↔ 2 ^ 23 ≤ x.toNat := by
  have hand : (x &&& 0x800000).toNat = (x.toNat.testBit 23).toNat * 2 ^ 23 := by
    rw [UInt32.toNat_and]
    exact Nat.and_two_pow x.toNat 23
  rw [ne_eq, ← UInt32.toNat_inj, hand, Nat.testBit_eq_decide_div_mod_eq]
  by_cases hbit : x.toNat / 2 ^ 23 % 2 = 1
  · simp only [hbit, decide_true]
    exact iff_of_true (by decide) (by omega)
  · simp only [hbit, decide_false]
    exact iff_of_false (by simp) (by omega)

theorem signExtend_toNat {x : UInt32} (h : x.toNat < 2 ^ 24) :
    (x ||| 0xFF000000).toNat = x.toNat + 0xFF000000 := by
  rw [UInt32.toNat_or, Nat.or_comm]
  show 255 <<< 24 ||| x.toNat = _
  rw [← Nat.shiftLeft_add_eq_or_of_lt h, Nat.shiftLeft_eq]
  omega

/-- The words hold the accumulator in 24-bit two's complement. -/
theorem signedAcc_eq (msb lsbAndCount : UInt16) : signedAcc msb lsbAndCount =
    (256 * msb.toNat + lsbAndCount.toNat / 256 : Int).bmod (2 ^ 24) := by
  have hm := msb.toNat_lt
  have hl := lsbAndCount.toNat_lt
  have hacc := acc24_toNat msb lsbAndCount
  unfold signedAcc
  generalize (msb.toUInt32 <<< 8) ||| (lsbAndCount >>> 8).toUInt32 = acc24 at hacc
  have hlt : acc24.toNat < 2 ^ 24 := by omega
  have hcast : (256 * msb.toNat + lsbAndCount.toNat / 256 : Int) = acc24.toNat := by
    rw [hacc]
    push_cast
    rfl
  rw [hcast]
  by_cases hsign : acc24 &&& 0x800000 ≠ 0
  · have hge := (signBit_iff hlt).mp hsign
    simp only [hsign, ne_eq, not_false_eq_true, if_true, toInt_toInt32, signExtend_toNat hlt]
    rw [Int.bmod_def, Int.bmod_def]
    omega
  · have hle := mt (signBit_iff hlt).mpr hsign
    simp only [hsign, if_false, toInt_toInt32]
    rw [Int.bmod_def, Int.bmod_def]
    omega

theorem sampleCount_toNat (lsbAndCount : UInt16) :
    (sampleCount lsbAndCount).toNat = lsbAndCount.toNat % 256 := lowByte_toNat lsbAndCount

example : signedAcc 0xFFFF 0x9C05 = -100 := by decide

end QuadBot
