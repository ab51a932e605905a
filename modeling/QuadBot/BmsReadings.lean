import QuadBot.BmsFields
import QuadBot.Lib.Quantizer

/-! The voltages that `BMS_ReadCommands.cpp` reads, and how they compare with the thresholds that
the numerical commands set: one path scales with the resolution of the register, the other with the
range over 4095. -/

namespace QuadBot

open Libc

section

variable {σ : Type} (bus : Bus σ)

/-- The bits of a register under a mask, scaled to a range. -/
def readVoltage (registerAddress : UInt8) (mask : UInt16) (range : ℚ) (wire1 : σ) : ℚ × σ :=
  let (raw, wire1) := readBMSData bus 0x49 registerAddress wire1
  let bits := raw &&& mask
  ((bits.toNat / 4095.0) * range, wire1)

def readVCell1 (wire1 : σ) : ℚ × σ := readVoltage bus 0x21 0x0FFF 5.0 wire1

def readVCell2 (wire1 : σ) : ℚ × σ := readVoltage bus 0x22 0x0FFF 5.0 wire1

def readVCell3 (wire1 : σ) : ℚ × σ := readVoltage bus 0x23 0x0FFF 5.0 wire1

def readVCell4 (wire1 : σ) : ℚ × σ := readVoltage bus 0x24 0x0FFF 5.0 wire1

def readVCell5 (wire1 : σ) : ℚ × σ := readVoltage bus 0x25 0x0FFF 5.0 wire1

def readVB (wire1 : σ) : ℚ × σ := readVoltage bus 0x27 0x0FFF 25.0 wire1

def readNTC_GPIO (wire1 : σ) : ℚ × σ := readVoltage bus 0x28 0x0FFF 3.3 wire1

end

/-! ### Thresholds -/

/-- What a threshold is compared with. -/
inductive Quantity where
  | cell
  | vb
  | ntc
deriving DecidableEq, Repr

namespace Quantity

def step : Quantity → ℚ
  | cell => 16 * VCELL_RES
  | vb => 16 * VB_RES
  | ntc => VNTC_RES

/-- The ADC counts in a step. -/
def counts : Quantity → Nat
  | cell => 16
  | vb => 16
  | ntc => 1

def width : Quantity → Nat
  | cell => 8
  | vb => 8
  | ntc => 12

def maxCode (q : Quantity) : Int := 2 ^ q.width - 1

def range : Quantity → ℚ
  | cell => 5.0
  | vb => 25.0
  | ntc => 3.3

def code (q : Quantity) (v : ℚ) : Int := roundCode q.maxCode (v / q.step)

/-- The ADC counts at which the threshold for a voltage lies. -/
def raw (q : Quantity) (v : ℚ) : UInt16 := .ofInt (q.counts * q.code v)

/-- The registers of a quantity with the functions that read them. -/
def readings {σ : Type} (bus : Bus σ) : Quantity → List (UInt8 × (σ → ℚ × σ))
  | cell => [(0x21, readVCell1 bus), (0x22, readVCell2 bus), (0x23, readVCell3 bus),
      (0x24, readVCell4 bus), (0x25, readVCell5 bus)]
  | vb => [(0x27, readVB bus)]
  | ntc => [(0x28, readNTC_GPIO bus)]

end Quantity

/-- The declarations of a branch that sets a threshold. -/
structure Threshold where
  quantity : Quantity
  minVal : ℚ
  maxVal : ℚ
  defaultVal : ℚ

def thresholdOf (command : String) : Option Threshold :=
  if command = "VCELL_OV_TH" then some ⟨.cell, 0, 5.0, 4.3⟩
  else if command = "VCELL_UV_TH" then some ⟨.cell, 0, 5.0, 2.2⟩
  else if command = "VB_OV_TH" then some ⟨.vb, 0.0, 25.0, 23.0⟩
  else if command = "VB_UV_TH" then some ⟨.vb, 0.0, 25.0, 10.93⟩
  else if command = "VNTC_OT_TH" then some ⟨.ntc, 0.2, 3.3, 2.5⟩
  else if command = "VNTC_UT_TH" then some ⟨.ntc, 0.0, 3.3, 0.5⟩
  else none

/-- The six commands that set a threshold. -/
theorem thresholdOf_mem {command : String} {t : Threshold} (ht : thresholdOf command = some t) :
    command ∈ ["VCELL_OV_TH", "VCELL_UV_TH", "VB_OV_TH", "VB_UV_TH", "VNTC_OT_TH",
      "VNTC_UT_TH"] := by
  by_contra hnot
  simp only [List.mem_cons, List.not_mem_nil, or_false, not_or] at hnot
  simp only [thresholdOf, hnot, if_false, reduceCtorEq] at ht

theorem thresholdOf_numerical {command : String} {t : Threshold}
    (ht : thresholdOf command = some t) : command ∈ numericalNames := by
  have hmem := thresholdOf_mem ht
  simp only [List.mem_cons, List.not_mem_nil, or_false] at hmem
  rcases hmem with rfl | rfl | rfl | rfl | rfl | rfl <;> decide

/-- The low field of a threshold's word holds the code of the voltage that was asked for. -/
theorem threshold_code {cfg : Settings} {command : String} {t : Threshold} {low high : Field}
    (ht : thresholdOf command = some t) (h : numericalFields cfg command = some (low, high)) :
    low.width = t.quantity.width ∧
      ∀ {arg v}, floatField t.minVal t.maxVal t.defaultVal arg = .num v →
        low.code arg = t.quantity.code v := by
  have hmem := thresholdOf_mem ht
  have hcode : ∀ {minVal maxVal defaultVal step v : ℚ} {maxCode : Int} {arg : Option String},
      floatField minVal maxVal defaultVal arg = .num v →
        voltageCode minVal maxVal defaultVal step maxCode arg = roundCode maxCode (v / step) := by
    intro minVal maxVal defaultVal step v maxCode arg harg
    rw [voltageCode, harg]
    rfl
  simp only [List.mem_cons, List.not_mem_nil, or_false] at hmem
  rcases hmem with rfl | rfl | rfl | rfl | rfl | rfl <;> cases ht <;> cases h <;> exact ⟨rfl, hcode⟩

theorem threshold_range {command : String} {t : Threshold} (ht : thresholdOf command = some t) :
    0 ≤ t.minVal ∧ t.maxVal = t.quantity.range := by
  have hmem := thresholdOf_mem ht
  simp only [List.mem_cons, List.not_mem_nil, or_false] at hmem
  rcases hmem with rfl | rfl | rfl | rfl | rfl | rfl <;> cases ht <;> norm_num [Quantity.range]

/-! ### Codes and counts -/

theorem truncate_of_nonneg {x : ℚ} (h : 0 ≤ x) : truncate x = ⌊x⌋ := by
  rw [truncate, Int.tdiv_eq_ediv_of_nonneg (Rat.num_nonneg.mpr h)]
  exact Rat.floor_def'.symm

theorem roundCode_eq {maxCode : Int} {x : ℚ} (h : 0 ≤ x) :
    roundCode maxCode x = min (round x) maxCode := by
  have hround : truncate (x + 0.5) = round x := by
    rw [truncate_of_nonneg (by linarith), round_eq]
    norm_num
  have hpos : 0 ≤ round x := by
    rw [round_eq, Int.floor_nonneg]
    linarith
  unfold roundCode
  rw [hround]
  dsimp only
  split <;> split <;> omega

namespace Quantity

variable (q : Quantity)

theorem step_pos : 0 < q.step := by
  cases q <;> norm_num [step, VCELL_RES, VB_RES, VNTC_RES]

theorem maxCode_nonneg : 0 ≤ q.maxCode := by
  cases q <;> decide

theorem code_eq {v : ℚ} (h : 0 ≤ v) : q.code v = Quantizer.code q.step q.maxCode v :=
  roundCode_eq (div_nonneg h q.step_pos.le)

theorem code_mem (v : ℚ) : 0 ≤ q.code v ∧ q.code v ≤ q.maxCode :=
  ⟨roundCode_nonneg q.maxCode_nonneg _, roundCode_le q.maxCode_nonneg _⟩

/-- The counts of a code fit the 12 bits of a reading. -/
theorem raw_toNat (v : ℚ) :
    ((q.raw v).toNat : Int) = q.counts * q.code v ∧ (q.raw v).toNat < 2 ^ 12 := by
  obtain ⟨hnonneg, hle⟩ := q.code_mem v
  have hword := ofInt_toNat (q.counts * q.code v)
  cases q <;> simp only [counts, maxCode, width] at * <;> unfold raw <;>
    simp only [counts] <;> omega

/-- The gain of the read path, in volts for a code. -/
def gain : ℚ := q.counts * (q.range / 4095.0)

/-- The worst case over the range: the gains differ at the highest code, where a voltage may also
saturate. -/
theorem margin : |q.gain - q.step| * q.maxCode + max (q.step / 2) (q.range - q.step * q.maxCode) <
    1.5 * q.step := by
  cases q <;> simp only [gain, step, counts, range, maxCode, width, VCELL_RES, VB_RES, VNTC_RES]
  · norm_num [abs_of_pos, max_def]
  · norm_num [abs_of_pos, max_def]
  · norm_num [abs_of_neg, max_def]

theorem abs_gain_mul_code_sub_lt {v : ℚ} (hpos : 0 ≤ v) (hle : v ≤ q.range) :
    |q.gain * q.code v - v| < 1.5 * q.step := by
  rw [q.code_eq hpos]
  calc |q.gain * Quantizer.code q.step q.maxCode v - v| ≤ _ :=
        Quantizer.abs_gain_mul_code_sub_le q.step_pos q.maxCode_nonneg q.gain hpos hle
    _ < 1.5 * q.step := q.margin

end Quantity

theorem readVoltage_eq {σ : Type} {bus : Bus σ} {registerAddress : UInt8} {raw : UInt16} {wire1 : σ}
    (hread : (readBMSData bus 0x49 registerAddress wire1).1 = raw) (hraw : raw.toNat < 2 ^ 12)
    (range : ℚ) :
    (readVoltage bus registerAddress 0x0FFF range wire1).1 = raw.toNat * (range / 4095.0) := by
  have hbits : (raw &&& 0x0FFF).toNat = raw.toNat := by
    rw [UInt16.toNat_and]
    exact (Nat.and_two_pow_sub_one_eq_mod raw.toNat 12).trans (Nat.mod_eq_of_lt hraw)
  show ((readBMSData bus 0x49 registerAddress wire1).1 &&& 0x0FFF).toNat / 4095.0 * range = _
  rw [hread, hbits, div_mul_eq_mul_div, mul_div_assoc]

/-- Every reading of a quantity scales the same bits of its register. -/
theorem readings_eq {σ : Type} {bus : Bus σ} {q : Quantity} {registerAddress : UInt8}
    {read : σ → ℚ × σ} (h : (registerAddress, read) ∈ q.readings bus) :
    read = readVoltage bus registerAddress 0x0FFF q.range := by
  cases q with
  | cell =>
    simp only [Quantity.readings, List.mem_cons, Prod.mk.injEq, List.not_mem_nil, or_false] at h
    rcases h with ⟨rfl, rfl⟩ | ⟨rfl, rfl⟩ | ⟨rfl, rfl⟩ | ⟨rfl, rfl⟩ | ⟨rfl, rfl⟩ <;> rfl
  | vb =>
    cases List.mem_singleton.mp h
    rfl
  | ntc =>
    cases List.mem_singleton.mp h
    rfl

/-- A chip whose registers all hold the counts at which the threshold of 4.3 V lies. -/
def chipAtThreshold : Bus Unit where
  endTransmission _ _ _ := (true, ())
  requestFrom _ _ _ := ([0x0D, 0xC0], ())

end QuadBot
