import QuadBot.BmsNumerical
import QuadBot.BmsConversion

/-! `SetUpBMS.cpp`, and what the numerical commands send: nothing, so that the numerical registers
are not written by the setup either. -/

namespace QuadBot

def setUpBMS {σ : Type} (bus : Bus σ) (cfg : Settings) (s : Bms σ) : Bms σ :=
  let s := [("CFG2_ENABLES", "default"), ("TO_PRDV_BAL_MSK", "default"),
      ("TO_FUSE_RST_MSK", "default"), ("TO_FAULTN_MSK", "default"), ("CURR_MSK", "default"),
      ("DIAG_OV_OT_UT", "default"), ("DIAG_UV", "default"), ("DIAG_CURR", "default")].foldl
    (fun s (command, valueStr) => sendBMSConfigCommand bus cfg command valueStr s) s
  let s := [("MANUFACTURE_NAME_MSB", 0x1234), ("MANUFACTURE_NAME_LSB", 0x5678),
      ("MANUFACTURING_DATE", 0x2025), ("FIRST_USAGE_DATE", 0x2025), ("SERIAL_NUMBER_MSB", 0xABCD),
      ("SERIAL_NUMBER_LSB", 0xEF01), ("DEVICE_NAME_MSB", 0x1357), ("DEVICE_NAME_LSB", 0x2468)].foldl
    (fun s (command, data) => sendBMSIdentityCommand bus cfg command data s) s
  [("CSA_GAIN_FACTOR", some "default", none), ("VCELL_OV_TH", some "max", some "max"),
      ("VCELL_UV_TH", some "min", some "max"), ("VCELL_SEVERE_DELTA_THRS", some "max", some "min"),
      ("VCELL_BAL_UV_DELTA_TH", some "min", some "max"), ("VB_OV_TH", some "max", some "max"),
      ("VB_UV_TH", some "min", some "max"), ("VB_SUM_MAX_DIFF_TH", some "max", none),
      ("VNTC_OT_TH", some "max", some "max"), ("VNTC_UT_TH", some "min", some "max"),
      ("VNTC_SEVERE_OT_DELTA_TH", some "max", none), ("OVC_THRESHOLDS", some "max", some "max"),
      ("PERSISTENT_OVC_THRESHOLDS", some "max", none),
      ("SC_THRESHOLD", some "max", some "max")].foldl
    (fun s (command, arg1, arg2) => sendBMSNumericalCommand cfg arg1 arg2 command s) s

/-- What `sendBMSNumericalCommand` would do: a recognised command sends its word once, after
turning conversion off where it is active, and any other changes no state. -/
def NumericalContract (cfg : Settings) (command : String) (arg1 arg2 : Option String)
    (s : Bms BmsChip) : Prop :=
  match numericalWord cfg arg1 arg2 command with
  | some (r, d) =>
    (∃ c, (sendBMSNumericalCommand cfg arg1 arg2 command s).wire1.log =
      s.wire1.log ++ (offWrite s ++ [⟨0x49, r, d, c⟩])) ∧
    (s.bmsConversionActive = 1 →
      (sendBMSNumericalCommand cfg arg1 arg2 command s).bmsConversionActive = 0)
  | none => ∃ errors, sendBMSNumericalCommand cfg arg1 arg2 command s = { s with errors }

theorem numericalContract_iff (cfg : Settings) (command : String) (arg1 arg2 : Option String)
    (s : Bms BmsChip) :
    NumericalContract cfg command arg1 arg2 s ↔ command ∉ numericalNames := by
  rw [← numericalWord_eq_none_iff cfg command arg1 arg2]
  unfold NumericalContract sendBMSNumericalCommand
  cases h : numericalWord cfg arg1 arg2 command with
  | none => exact iff_of_true ⟨_, rfl⟩ rfl
  | some w =>
    refine iff_of_false ?_ (by simp)
    rintro ⟨⟨c, hlog⟩, -⟩
    have hlength := congrArg List.length hlog
    simp only [List.length_append, List.length_singleton] at hlength
    omega

def ChipWrite.NotNumerical (w : ChipWrite) : Prop := ¬ (0x05 ≤ w.register ∧ w.register ≤ 0x12)

theorem exec_notNumerical (cfg : Settings) (call : BmsCall) (s : Bms BmsChip) :
    WritesOnly ChipWrite.NotNumerical s.wire1 (call.exec bmsBus cfg s).wire1 := by
  apply (exec_writes cfg call s).mono
  intro w hw
  rcases hw with hw | hw
  · rw [ChipWrite.NotNumerical, hw]
    decide
  · exact (register_range hw).2

theorem numerical_wire1 (cfg : Settings) (command : String) (arg1 arg2 : Option String)
    (s : Bms BmsChip) : (sendBMSNumericalCommand cfg arg1 arg2 command s).wire1 = s.wire1 := by
  unfold sendBMSNumericalCommand
  split <;> rfl

theorem setUpBMS_notNumerical (cfg : Settings) (s : Bms BmsChip) :
    WritesOnly ChipWrite.NotNumerical s.wire1 (setUpBMS bmsBus cfg s).wire1 := by
  unfold setUpBMS
  refine (WritesOnly.foldl _ ?_ _).trans ((WritesOnly.foldl _ ?_ _).trans
    (WritesOnly.foldl _ ?_ _))
  · intro s a _
    exact exec_notNumerical cfg (.config a.1 a.2) s
  · intro s a _
    exact exec_notNumerical cfg (.identity a.1 a.2) s
  · intro s a _
    exact .of_log_eq (by rw [numerical_wire1])

/-- `sendBMSNumericalCommand` does what it would do exactly for the commands that it does not
recognise, whatever the arguments and the state, and `SetUpBMS` writes no numerical register. -/
theorem numerical_commands_send_nothing (cfg : Settings) (command : String)
    (arg1 arg2 : Option String) (s : Bms BmsChip) :
    (NumericalContract cfg command arg1 arg2 s ↔ command ∉ numericalNames) ∧
      WritesOnly ChipWrite.NotNumerical s.wire1 (setUpBMS bmsBus cfg s).wire1 :=
  ⟨numericalContract_iff cfg command arg1 arg2 s, setUpBMS_notNumerical cfg s⟩

theorem undervoltage_threshold_not_sent : ¬ NumericalContract settings "VB_UV_TH" (some "min")
    (some "max") (bootBms (bootChip acked)) := by
  rw [numericalContract_iff]
  decide

end QuadBot
