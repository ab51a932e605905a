import QuadBot.I2c
import Mathlib.Algebra.Order.Ring.Rat

/-! The core of the battery management code, `Bms_CoreCommands.cpp`: its configuration variables,
the register accesses on the second I2C bus, the conversion state and the RDY interrupt. Floats are
exact rationals, with the constants as their decimal literals; the running total of the Coulomb
counter is of any type of numbers. -/

namespace QuadBot

/-- The configuration variables, which no function changes. -/
structure Settings where
  cellStackSize : Int
  currentFilter : UInt8
  cellFilter : UInt8
  shortcircuitFilter : UInt8
  measureCycle : UInt8
  senseResistor : ℚ

/-- The values that the source gives them. -/
def settings : Settings where
  cellStackSize := 5
  currentFilter := 3
  cellFilter := 3
  shortcircuitFilter := 7
  measureCycle := 31
  senseResistor := 0.008

def voltageLimitRangeExt : ℚ := 0.300
def VCELL_RES : ℚ := 0.00122
def VB_RES : ℚ := 0.0061
def VNTC_RES : ℚ := 0.000806

namespace Settings

variable (cfg : Settings)

def cellFilterInt : UInt32 :=
  if cfg.cellFilter = 0 then 800
  else if cfg.cellFilter = 1 then 1310
  else if cfg.cellFilter = 2 then 4380
  else if cfg.cellFilter = 3 then 16670
  else 800

def currentFilterInt : UInt32 := .ofInt (528 * 2 ^ (3 + cfg.currentFilter.toNat))

def measureCycleInt : UInt32 := .ofInt (10000 * cfg.measureCycle.toNat)

/-- In `uint32_t` arithmetic, as the `int` factor is converted. -/
def validWindow : UInt32 :=
  cfg.measureCycleInt - UInt32.ofInt (cfg.cellStackSize + 1) * cfg.cellFilterInt + 1600

def imax : ℚ := voltageLimitRangeExt / cfg.senseResistor

/-- The word that `setBMSConversionState` writes to turn conversion on. -/
def conversionOnValue : UInt16 :=
  ((cfg.measureCycle.toUInt16 &&& 0x1F) <<< 7) |||
  ((cfg.currentFilter.toUInt16 &&& 0x03) <<< 5) |||
  ((cfg.shortcircuitFilter.toUInt16 &&& 0x07) <<< 2) |||
  ((cfg.cellFilter.toUInt16 &&& 0x03) <<< 0)

end Settings

/-- The global variables of the battery management code, the bus, and the error messages printed
so far. -/
structure Bms (σ : Type) (F : Type := ℚ) where
  bmsConversionActive : Int
  bmsDataReady : Bool
  bmsDataTimestamp : UInt32
  totalCoulombs : F
  totalSampleCount : UInt32
  wire1 : σ
  errors : List String

/-- The variables at power-on. -/
def bootBms {σ : Type} (wire1 : σ) : Bms σ where
  bmsConversionActive := 0
  bmsDataReady := false
  bmsDataTimestamp := 0
  totalCoulombs := 0
  totalSampleCount := 0
  wire1
  errors := []

variable {σ F : Type} (bus : Bus σ)

/-- An interrupt on RDY while `micros()` reads `micros`. -/
def onBMSReadyRise (micros : UInt32) (s : Bms σ) : Bms σ :=
  { s with bmsDataReady := true, bmsDataTimestamp := micros }

def isBMSDataValid (cfg : Settings) (micros : UInt32) (s : Bms σ) : Bool :=
  micros < s.bmsDataTimestamp + cfg.validWindow

/-- The bytes of a word as they go over the bus, and the word that two bytes make. -/
def highByte (data : UInt16) : UInt8 := ((data >>> 8) &&& 0xFF).toUInt8

def lowByte (data : UInt16) : UInt8 := (data &&& 0xFF).toUInt8

def wordOf (highByte lowByte : UInt8) : UInt16 := (highByte.toUInt16 <<< 8) ||| lowByte.toUInt16

/-- The word is 0 where fewer than two bytes were received. -/
def readBMSData (chipAddress registerAddress : UInt8) (wire1 : σ) : UInt16 × σ :=
  let (_, wire1) := bus.endTransmission wire1 chipAddress [registerAddress]
  let (received, wire1) := bus.requestFrom wire1 chipAddress 2
  match received with
  | highByte :: lowByte :: _ => (wordOf highByte lowByte, wire1)
  | _ => (0, wire1)

def Bms.fail (message : String) (s : Bms σ F) : Bms σ F :=
  { s with errors := s.errors ++ [message] }

def writeBMSData (chipAddress registerAddress : UInt8) (data : UInt16) (s : Bms σ F) : Bms σ F :=
  let (ack, wire1) :=
    bus.endTransmission s.wire1 chipAddress [registerAddress, highByte data, lowByte data]
  let s := { s with wire1 }
  if ack then s else s.fail "Error: Failed to write data to BMS."

def setBMSConversionState (cfg : Settings) (state : String) (s : Bms σ) : Bms σ :=
  if state = "CONVERSION_OFF" then
    { writeBMSData bus 0x49 0x02 0x0000 s with bmsConversionActive := 0 }
  else if state = "CONVERSION_ON" then
    { writeBMSData bus 0x49 0x02 cfg.conversionOnValue s with bmsConversionActive := 1 }
  else s.fail "Unknown conversion state command."

/-- The test and the write that the command functions repeat: turn conversion off where it is
active, and write the word. -/
def Bms.sendWord (cfg : Settings) (registerAddress : UInt8) (data : UInt16) (s : Bms σ) : Bms σ :=
  let s := if s.bmsConversionActive = 1 then setBMSConversionState bus cfg "CONVERSION_OFF" s else s
  writeBMSData bus 0x49 registerAddress data s

/-! ### Words and bytes -/

theorem wordOf_toNat (high low : UInt8) :
    (wordOf high low).toNat = 256 * high.toNat + low.toNat := by
  have hh := high.toNat_lt
  have hl := low.toNat_lt
  have hshift : high.toNat <<< 8 < 2 ^ 16 := by rw [Nat.shiftLeft_eq]; omega
  simp only [wordOf, UInt16.toNat_or, UInt16.toNat_shiftLeft, UInt8.toNat_toUInt16]
  rw [show UInt16.toNat 8 % 16 = 8 from rfl, Nat.mod_eq_of_lt hshift,
    ← Nat.shiftLeft_add_eq_or_of_lt hl, Nat.shiftLeft_eq]
  omega

theorem highByte_toNat (data : UInt16) : (highByte data).toNat = data.toNat / 256 := by
  have hd := data.toNat_lt
  have hmask := Nat.and_two_pow_sub_one_eq_mod (data.toNat / 256) 8
  simp only [highByte, UInt16.toNat_toUInt8, UInt16.toNat_and, UInt16.toNat_shiftRight]
  rw [show UInt16.toNat 8 % 16 = 8 from rfl, Nat.shiftRight_eq_div_pow]
  show (data.toNat / 256 &&& 2 ^ 8 - 1) % 2 ^ 8 = _
  omega

theorem lowByte_toNat (data : UInt16) : (lowByte data).toNat = data.toNat % 256 := by
  have hmask := Nat.and_two_pow_sub_one_eq_mod data.toNat 8
  simp only [lowByte, UInt16.toNat_toUInt8, UInt16.toNat_and]
  show (data.toNat &&& 2 ^ 8 - 1) % 2 ^ 8 = _
  omega

theorem ofInt_toNat (x : Int) : ((UInt16.ofInt x).toNat : Int) = x % 2 ^ 16 := by
  rw [UInt16.ofInt, UInt16.toNat_ofNat']
  omega

@[simp] theorem wordOf_bytes (data : UInt16) : wordOf (highByte data) (lowByte data) = data := by
  rw [← UInt16.toNat_inj, wordOf_toNat, highByte_toNat, lowByte_toNat]
  omega

example : settings.validWindow = 211580 := by decide

end QuadBot
