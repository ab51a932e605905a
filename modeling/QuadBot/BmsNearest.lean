import QuadBot.BmsArguments
import QuadBot.BmsReadings

/-! The codes of the voltage and current fields: whatever is asked for, the code chosen is the one
whose voltage or current is nearest to it within the range of the field. -/

namespace QuadBot

open Libc

theorem roundCode_eq_saturate {maxCode : Int} {x : ℚ} (hmax : 0 ≤ maxCode) (h : 0 ≤ x) :
    roundCode maxCode x = Quantizer.saturate maxCode x := by
  have hround : 0 ≤ round x := by
    rw [round_eq, Int.floor_nonneg]
    linarith
  rw [roundCode_eq h, Quantizer.saturate]
  omega

/-- A field whose code is the nearest integer on a scale of its own. -/
structure Analog.Scaled (a : Analog) (offset step : ℚ) : Prop where
  step_pos : 0 < step
  maxCode_nonneg : 0 ≤ a.maxCode
  decode_eq : ∀ c, a.decode c = offset + step * c
  code_eq : ∀ v, 0 ≤ v → a.code v = Quantizer.saturate a.maxCode ((v - offset) / step)

namespace Analog.Scaled

variable {a : Analog} {offset step v w : ℚ}

theorem nearest (h : a.Scaled offset step) (hv : 0 ≤ v) :
    Quantizer.Nearest a.decode a.maxCode v (a.code v) := by
  have hdecode : a.decode = fun c : Int => offset + step * (c : ℚ) := funext h.decode_eq
  have hscale : offset + step * ((v - offset) / step) = v := by
    rw [mul_div_cancel₀ _ h.step_pos.ne', add_sub_cancel]
  have hnearest := (Quantizer.nearest_saturate h.maxCode_nonneg ((v - offset) / step)).affine
    h.step_pos offset
  rw [hscale, ← hdecode, ← h.code_eq v hv] at hnearest
  exact hnearest

theorem code_le_code (h : a.Scaled offset step) (hv : 0 ≤ v) (hle : v ≤ w) :
    a.code v ≤ a.code w := by
  rw [h.code_eq v hv, h.code_eq w (hv.trans hle)]
  apply Quantizer.saturate_le_saturate
  exact div_le_div_of_nonneg_right (sub_le_sub_right hle offset) h.step_pos.le

/-- The scale of a field without an offset. -/
theorem of_roundCode (hstep : 0 < step) (hmax : 0 ≤ a.maxCode)
    (hdecode : ∀ c, a.decode c = step * c)
    (hcode : ∀ v, a.code v = roundCode a.maxCode (v / step)) : a.Scaled 0 step where
  step_pos := hstep
  maxCode_nonneg := hmax
  decode_eq c := by rw [hdecode, zero_add]
  code_eq v hv := by
    rw [hcode, sub_zero]
    exact roundCode_eq_saturate hmax (div_nonneg hv hstep.le)

end Analog.Scaled

/-! ### The fields -/

/-- The current at which the voltage on the sense resistor is `t` steps above that of the code 0. -/
theorem currentToCode_eq {cfg : Settings} (hsense : 0 < cfg.senseResistor) (t : ℚ) :
    currentToCode cfg ((0.04914 + 0.01404 * t) / cfg.senseResistor) =
      roundCode 15 (max 0 (min t 15)) := by
  have hlow : (0.04914 + 0.01404 * t) / cfg.senseResistor < 0.04914 / cfg.senseResistor ↔
      t < 0 := by
    rw [div_lt_div_iff_of_pos_right hsense]
    constructor <;> intro h <;> linarith
  have hhigh : (0.04914 + 0.01404 * 15.0) / cfg.senseResistor <
      (0.04914 + 0.01404 * t) / cfg.senseResistor ↔ 15 < t := by
    rw [div_lt_div_iff_of_pos_right hsense]
    constructor <;> intro h <;> linarith
  have hrange : ¬ (0.04914 + 0.01404 * 15.0) / cfg.senseResistor < 0.04914 / cfg.senseResistor := by
    rw [div_lt_div_iff_of_pos_right hsense]
    norm_num
  have hcancel : ∀ voltage : ℚ, voltage / cfg.senseResistor * cfg.senseResistor = voltage :=
    fun voltage => div_mul_cancel₀ voltage hsense.ne'
  unfold currentToCode
  dsimp only
  simp only [gt_iff_lt]
  congr 1
  by_cases h0 : t < 0
  · rw [if_pos (hlow.mpr h0), if_neg hrange, hcancel, sub_self, zero_div, max_eq_left]
    exact (min_le_left t 15).trans h0.le
  · rw [if_neg (fun h => h0 (hlow.mp h))]
    rw [not_lt] at h0
    by_cases h15 : 15 < t
    · rw [if_pos (hhigh.mpr h15), hcancel, min_eq_right h15.le]
      norm_num
    · rw [if_neg (fun h => h15 (hhigh.mp h)), hcancel, min_eq_left (not_lt.mp h15), max_eq_right h0,
        add_sub_cancel_left, mul_div_cancel_left₀]
      norm_num

theorem scaled_shortCircuit {cfg : Settings} (hsense : 0 < cfg.senseResistor) :
    (Analog.shortCircuit cfg).Scaled (0.04914 / cfg.senseResistor)
      (0.01404 / cfg.senseResistor) where
  step_pos := div_pos (by norm_num) hsense
  maxCode_nonneg := (by decide : (0 : Int) ≤ 15)
  decode_eq c := by
    show (0.04914 + 0.01404 * (c : ℚ)) / cfg.senseResistor = _
    rw [add_div, mul_div_right_comm]
  code_eq v _ := by
    have hstep : (0.01404 : ℚ) / cfg.senseResistor ≠ 0 :=
      div_ne_zero (by norm_num) hsense.ne'
    have hv : v = (0.04914 + 0.01404 * ((v - 0.04914 / cfg.senseResistor) /
        (0.01404 / cfg.senseResistor))) / cfg.senseResistor := by
      rw [add_div, mul_div_right_comm, mul_div_cancel₀ _ hstep, add_sub_cancel]
    show currentToCode cfg v = Quantizer.saturate 15 _
    generalize (v - 0.04914 / cfg.senseResistor) / (0.01404 / cfg.senseResistor) = t at hv ⊢
    rw [hv, currentToCode_eq hsense, roundCode_eq_saturate (by decide) (le_max_left _ _)]
    exact Quantizer.saturate_clamp (by decide) t

theorem scaled_overcurrent {cfg : Settings} (himax : 0 < cfg.imax) :
    (Analog.overcurrent cfg).Scaled 0 (cfg.imax / 255) := by
  apply Analog.Scaled.of_roundCode
  · exact div_pos himax (by norm_num)
  · exact (by decide : (0 : Int) ≤ 0xFF)
  · exact fun c => rfl
  · intro v
    show roundCode 0xFF (v / cfg.imax * 255.0) = roundCode 0xFF (v / (cfg.imax / 255))
    rw [div_div_eq_mul_div, div_mul_eq_mul_div]
    norm_num

theorem Argument.Declared.scaled {a : Analog} (h : (Argument.analog a).Declared settings) :
    ∃ offset step, a.Scaled offset step := by
  cases h with
  | cell d =>
    refine ⟨0, 16 * VCELL_RES, .of_roundCode ?_ ?_ (fun c => rfl) (fun v => rfl)⟩
    · norm_num [VCELL_RES]
    · exact (by decide : (0 : Int) ≤ 0xFF)
  | vb d =>
    refine ⟨0, 16 * VB_RES, .of_roundCode ?_ ?_ (fun c => rfl) (fun v => rfl)⟩
    · norm_num [VB_RES]
    · exact (by decide : (0 : Int) ≤ 0xFF)
  | ntc d =>
    refine ⟨0, VNTC_RES, .of_roundCode ?_ ?_ (fun c => rfl) (fun v => rfl)⟩
    · norm_num [VNTC_RES]
    · exact (by decide : (0 : Int) ≤ 0xFFF)
  | overcurrent => exact ⟨_, _, scaled_overcurrent imax_settings_pos⟩
  | shortCircuit => exact ⟨_, _, scaled_shortCircuit (by norm_num [settings])⟩

/-- Whatever number is asked for, a voltage or current field holds the code that is nearest to it
within the range, the larger one of two, and a larger number gives no smaller code. -/
theorem analog_code_nearest (command : String) (first second : Argument)
    (h : numericalArguments settings command = some (first, second)) :
    (∃ width registerAddress, ∀ arg1 arg2, ∃ data,
      numericalWord settings arg1 arg2 command = some (registerAddress, data) ∧
      ((data.toNat % 2 ^ width : Nat) : Int) = first.code arg1 ∧
      ((data.toNat / 2 ^ width : Nat) : Int) = second.code arg2) ∧
    ∀ a, first = .analog a ∨ second = .analog a →
      (∀ v, Quantizer.Nearest a.decode a.maxCode (a.clamp v) (a.code (a.clamp v))) ∧
      (∀ v w, v ≤ w → a.code (a.clamp v) ≤ a.code (a.clamp w)) ∧
      ∀ arg v, ¬ IsWord arg → atof arg.toList = .num v →
        (Argument.analog a).code (some arg) = a.code (a.clamp v) := by
  refine ⟨numericalWord_arguments h, ?_⟩
  intro a ha
  obtain ⟨hfirst, hsecond⟩ := numericalArguments_declared h
  have hdeclared : (Argument.analog a).Declared settings := by
    rcases ha with rfl | rfl <;> assumption
  obtain ⟨offset, step, hscaled⟩ := hdeclared.scaled
  obtain ⟨hpos, hrange⟩ := hdeclared.analog_range
  have hclamp : ∀ v, 0 ≤ a.clamp v := fun v => hpos.trans (Analog.clamp_mem hrange v).1
  refine ⟨fun v => hscaled.nearest (hclamp v), ?_, ?_⟩
  · intro v w hle
    apply hscaled.code_le_code (hclamp v)
    exact max_le_max_left _ (min_le_min_right _ hle)
  · intro arg v hword hv
    have hvalue : a.value (some arg) = .num (a.clamp v) :=
      value_of_clamped hword hrange (by rw [hv]; rfl)
    rw [Argument.code, hvalue, Flt.value]

theorem analog_code_nearest_cell :
    numericalWord settings (some "4.3") (some "max") "VCELL_OV_TH" = some (0x06, 0x0FDC) ∧
      (∃ width, (((0x0FDC : UInt16).toNat % 2 ^ width : Nat) : Int) = 220) ∧
      Quantizer.Nearest (Analog.cell 4.3).decode 0xFF 4.3 220 := by
  obtain ⟨⟨width, registerAddress, hwords⟩, hanalog⟩ :=
    analog_code_nearest "VCELL_OV_TH" (.analog (.cell 4.3)) (.int 1 15 15) rfl
  obtain ⟨hnearest, -, hasked⟩ := hanalog (.cell 4.3) (Or.inl rfl)
  have hclamp : (Analog.cell 4.3).clamp 4.3 = 4.3 := by decide +kernel
  have hcode : (Analog.cell 4.3).code 4.3 = 220 := by decide +kernel
  have hsent : numericalWord settings (some "4.3") (some "max") "VCELL_OV_TH" =
      some (0x06, 0x0FDC) := by decide +kernel
  refine ⟨hsent, ?_, ?_⟩
  · obtain ⟨data, hword, hlow, -⟩ := hwords (some "4.3") (some "max")
    cases hsent.symm.trans hword
    have hnumber : ¬ IsWord "4.3" := by
      rw [IsWord]
      decide
    rw [hasked "4.3" 4.3 hnumber (by decide +kernel), hclamp, hcode] at hlow
    exact ⟨width, hlow⟩
  · have hcell := hnearest 4.3
    rw [hclamp, hcode] at hcell
    exact hcell

end QuadBot
