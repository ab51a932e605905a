import QuadBot.BmsCore
import QuadBot.Libc

/-! The numerical commands of `BMS_NumericalCommands.cpp`: the register and the word that each
branch computes from its two arguments, and what the function does with them. Null arguments are
`none`. -/

namespace QuadBot

open Libc

def INT_MIN : Int := -2 ^ 31

def parseIntArg (arg : Option String) (minVal maxVal : Int) : Int :=
  match arg with
  | none => minVal
  | some arg =>
    if equalNoCase arg "max" then maxVal
    else if equalNoCase arg "min" then minVal
    else if equalNoCase arg "default" then INT_MIN
    else
      let val := strtol 10 arg.toList
      if val < minVal then minVal
      else if val > maxVal then maxVal
      else val

def parseFloatArg (arg : Option String) (minVal maxVal : ℚ) : Flt :=
  match arg with
  | none => .num minVal
  | some arg =>
    if equalNoCase arg "max" then .num maxVal
    else if equalNoCase arg "min" then .num minVal
    else if equalNoCase arg "default" then .nan
    else
      let val := atof arg.toList
      if val.lt minVal then .num minVal
      else if val.gt maxVal then .num maxVal
      else val

/-- An integer argument, the default where `parseIntArg` returns its sentinel. -/
def intField (minVal maxVal defaultVal : Int) (arg : Option String) : Int :=
  let val := parseIntArg arg minVal maxVal
  if val = INT_MIN then defaultVal else val

/-- A float argument, the default where `parseFloatArg` returns its sentinel. -/
def floatField (minVal maxVal defaultVal : ℚ) (arg : Option String) : Flt :=
  let val := parseFloatArg arg minVal maxVal
  if val.isNan then .num defaultVal else val

/-- The conversion of a float to `int`. -/
def truncate (x : ℚ) : Int := x.num.tdiv x.den

/-- `(int)(x + 0.5f)`, between 0 and `maxCode`. -/
def roundCode (maxCode : Int) (x : ℚ) : Int :=
  let code := truncate (x + 0.5)
  let code := if code < 0 then 0 else code
  if code > maxCode then maxCode else code

def voltageCode (minVal maxVal defaultVal step : ℚ) (maxCode : Int) (arg : Option String) : Int :=
  roundCode maxCode ((floatField minVal maxVal defaultVal arg).value / step)

def cellCode (defaultVal : ℚ) (arg : Option String) : Int :=
  voltageCode 0 5.0 defaultVal (16 * VCELL_RES) 0xFF arg

def vbCode (defaultVal : ℚ) (arg : Option String) : Int :=
  voltageCode 0.0 25.0 defaultVal (16 * VB_RES) 0xFF arg

def ntcCode (minVal defaultVal : ℚ) (arg : Option String) : Int :=
  voltageCode minVal 3.3 defaultVal VNTC_RES 0xFFF arg

def countField (arg : Option String) : Int := intField 1 15 15 arg

/-- `(high << width) | low`, in the low 16 bits. -/
def pack (width high low : UInt16) : UInt16 := (high <<< width) ||| low

section

variable (cfg : Settings)

def overcurrentCode (arg : Option String) : Int :=
  roundCode 0xFF ((floatField 0.0 cfg.imax cfg.imax arg).value / cfg.imax * 255.0)

/-- The local function of the `SC_THRESHOLD` branch. -/
def currentToCode (current : ℚ) : Int :=
  let minVoltage : ℚ := 0.04914
  let maxVoltage : ℚ := 0.04914 + 0.01404 * 15.0
  let minCurrent := minVoltage / cfg.senseResistor
  let maxCurrent := maxVoltage / cfg.senseResistor
  let current := if current < minCurrent then minCurrent else current
  let current := if current > maxCurrent then maxCurrent else current
  let voltage := current * cfg.senseResistor
  roundCode 15 ((voltage - 0.04914) / 0.01404)

def shortCircuitCode (arg : Option String) : Int :=
  currentToCode cfg (floatField 0.0 1000.0 100.0 arg).value

/-! ### The branches -/

variable (arg1 arg2 : Option String)

def csaGainFactor : UInt16 := .ofInt (intField 0x0000 0xFFFF 0x8000 arg1)

/-- `VCELL_OV_TH`, `VCELL_UV_TH` and `VCELL_BAL_UV_DELTA_TH`, by their default. -/
def cellThreshold (defaultVal : ℚ) : UInt16 :=
  pack 8 (.ofInt (countField arg2) &&& 0xF) (.ofInt (cellCode defaultVal arg1) &&& 0xFF)

def vcellSevereDeltaThrs : UInt16 :=
  pack 8 (.ofInt (cellCode 0.2 arg2) &&& 0xFF) (.ofInt (cellCode 0.2 arg1) &&& 0xFF)

/-- `VB_OV_TH` and `VB_UV_TH`, by their default. -/
def vbThreshold (defaultVal : ℚ) : UInt16 :=
  pack 8 (.ofInt (countField arg2) &&& 0xF) (.ofInt (vbCode defaultVal arg1) &&& 0xFF)

def vbSumMaxDiffTh : UInt16 := .ofInt (vbCode 2.0 arg1) &&& 0xFF

/-- `VNTC_OT_TH` and `VNTC_UT_TH`, by their minimum and default. -/
def ntcThreshold (minVal defaultVal : ℚ) : UInt16 :=
  pack 12 (.ofInt (countField arg2) &&& 0xF) (.ofInt (ntcCode minVal defaultVal arg1) &&& 0xFFF)

def vntcSevereOtDeltaTh : UInt16 := .ofInt (ntcCode 0.0 0.5 arg1) &&& 0xFFF

def ovcThresholds : UInt16 :=
  pack 8 (.ofInt (overcurrentCode cfg arg2) &&& 0xFF) (.ofInt (overcurrentCode cfg arg1) &&& 0xFF)

def persistentOvcThresholds : UInt16 := .ofInt (overcurrentCode cfg arg1) &&& 0xFF

def scThreshold : UInt16 :=
  pack 4 (.ofInt (shortCircuitCode cfg arg2) &&& 0xF) (.ofInt (shortCircuitCode cfg arg1) &&& 0xF)

/-- The register and the word that the branch of a command computes. -/
def numericalWord (command : String) : Option (UInt8 × UInt16) :=
  if command = "CSA_GAIN_FACTOR" then some (0x05, csaGainFactor arg1)
  else if command = "VCELL_OV_TH" then some (0x06, cellThreshold arg1 arg2 4.3)
  else if command = "VCELL_UV_TH" then some (0x07, cellThreshold arg1 arg2 2.2)
  else if command = "VCELL_SEVERE_DELTA_THRS" then some (0x08, vcellSevereDeltaThrs arg1 arg2)
  else if command = "VCELL_BAL_UV_DELTA_TH" then some (0x09, cellThreshold arg1 arg2 0.2)
  else if command = "VB_OV_TH" then some (0x0A, vbThreshold arg1 arg2 23.0)
  else if command = "VB_UV_TH" then some (0x0B, vbThreshold arg1 arg2 10.93)
  else if command = "VB_SUM_MAX_DIFF_TH" then some (0x0C, vbSumMaxDiffTh arg1)
  else if command = "VNTC_OT_TH" then some (0x0D, ntcThreshold arg1 arg2 0.2 2.5)
  else if command = "VNTC_UT_TH" then some (0x0E, ntcThreshold arg1 arg2 0.0 0.5)
  else if command = "VNTC_SEVERE_OT_DELTA_TH" then some (0x0F, vntcSevereOtDeltaTh arg1)
  else if command = "OVC_THRESHOLDS" then some (0x10, ovcThresholds cfg arg1 arg2)
  else if command = "PERSISTENT_OVC_THRESHOLDS" then
    some (0x11, persistentOvcThresholds cfg arg1)
  else if command = "SC_THRESHOLD" then some (0x12, scThreshold cfg arg1 arg2)
  else none

/-- The test for conversion and the write stand in the last `else`, after its `return`, and no
branch before it does anything with the word that it has computed. -/
def sendBMSNumericalCommand {σ : Type} (command : String) (s : Bms σ) : Bms σ :=
  match numericalWord cfg arg1 arg2 command with
  | some (_registerAddress, _data) => s
  | none => s.fail ("Numerical Command not recognized: " ++ command)

end

def numericalNames : List String :=
  ["CSA_GAIN_FACTOR", "VCELL_OV_TH", "VCELL_UV_TH", "VCELL_SEVERE_DELTA_THRS",
    "VCELL_BAL_UV_DELTA_TH", "VB_OV_TH", "VB_UV_TH", "VB_SUM_MAX_DIFF_TH", "VNTC_OT_TH",
    "VNTC_UT_TH", "VNTC_SEVERE_OT_DELTA_TH", "OVC_THRESHOLDS", "PERSISTENT_OVC_THRESHOLDS",
    "SC_THRESHOLD"]

theorem numericalWord_eq_none_iff (cfg : Settings) (command : String) (arg1 arg2 : Option String) :
    numericalWord cfg arg1 arg2 command = none ↔ command ∉ numericalNames := by
  unfold numericalWord
  simp [numericalNames, ite_eq_iff]

example : numericalWord settings (some "4.3") (some "MAX") "VCELL_OV_TH" = some (0x06, 0x0FDC) := by
  decide +kernel

end QuadBot
