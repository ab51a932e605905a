import QuadBot.BmsCore
import QuadBot.Libc

/-! The configuration, identity, NVM and real-time commands of `BMS_SetupCommands.cpp`. -/

namespace QuadBot

open Libc

/-- What `sendBMSConfigCommand` knows of a register. -/
structure ConfigRegister where
  registerAddress : UInt8
  defaultData : UInt16
  maxData : UInt16

def configRegister (command : String) : Option ConfigRegister :=
  if command = "CFG2_ENABLES" then some ⟨0x04, 0b0001100111111111, 0b0011111111111111⟩
  else if command = "TO_PRDV_BAL_MSK" then some ⟨0x13, 0b0111111111111111, 0b0111111111111111⟩
  else if command = "TO_FUSE_RST_MSK" then some ⟨0x14, 0b0000000001111111, 0b0000000001111111⟩
  else if command = "TO_FAULTN_MSK" then some ⟨0x15, 0b0000111111111111, 0b0000111111111111⟩
  else if command = "CURR_MSK" then some ⟨0x16, 0b0000111111111111, 0b0000111111111111⟩
  else if command = "DIAG_OV_OT_UT" then some ⟨0x2A, 0b0000000000000000, 0b1111111111111111⟩
  else if command = "DIAG_UV" then some ⟨0x2B, 0b0000000000000000, 0b1111111111111111⟩
  else if command = "DIAG_CURR" then some ⟨0x2F, 0b0000000000000000, 0b1111111111111111⟩
  else none

/-- The 16 bits of a word, printed from the highest on. -/
def binaryText (word : UInt16) : String :=
  .ofList ((List.range 16).reverse.map fun i => if word.toNat.testBit i then '1' else '0')

def nvmWord (command : String) : Option (UInt8 × UInt16) :=
  if command = "NVM_2_DL" then some (0x20, 0xAAAA)
  else if command = "NVM_2_UL" then some (0x20, 0x5555)
  else none

def identityRegister (command : String) : Option UInt8 :=
  if command = "MANUFACTURE_NAME_MSB" then some 0x17
  else if command = "MANUFACTURE_NAME_LSB" then some 0x18
  else if command = "MANUFACTURING_DATE" then some 0x19
  else if command = "FIRST_USAGE_DATE" then some 0x1A
  else if command = "SERIAL_NUMBER_MSB" then some 0x1B
  else if command = "SERIAL_NUMBER_LSB" then some 0x1C
  else if command = "DEVICE_NAME_MSB" then some 0x1D
  else if command = "DEVICE_NAME_LSB" then some 0x1E
  else none

def realTimeWord (command : String) : Option (UInt8 × UInt16) :=
  if command = "BAL_ENABLE" then some (0x01, 0x001F)
  else if command = "BAL_DISABLE" then some (0x01, 0x0000)
  else if command = "GO2SHIP" then some (0x21, 0x2000)
  else if command = "GO2STBY" then some (0x22, 0x2000)
  else if command = "FUSE_TRIG_DISARM" then some (0x23, 0x1000)
  else if command = "FUSE_TRIG_ARM" then some (0x23, 0x2000)
  else if command = "FUSE_TRIG_FIRE_INTERRUPT" then some (0x24, 0x1000)
  else if command = "FUSE_TRIG_FIRE" then some (0x24, 0x2000)
  else none

section

variable {σ : Type} (bus : Bus σ) (cfg : Settings)

def sendBMSConfigCommand (command valueStr : String) (s : Bms σ) : Bms σ :=
  match configRegister command with
  | none => s.fail "Unknown Config command."
  | some r =>
    if valueStr = "default" then s.sendWord bus cfg r.registerAddress r.defaultData
    else if "0b".toList <+: valueStr.toList then
      let data := UInt16.ofInt (strtol 2 (valueStr.toList.drop 2))
      if data > r.maxData then
        let warning := "Warning: Value " ++ valueStr ++ " exceeds max allowed for " ++ command ++
          ". Capping to 0b" ++ binaryText r.maxData
        (s.fail warning).sendWord bus cfg r.registerAddress r.maxData
      else s.sendWord bus cfg r.registerAddress data
    else s.fail "Error: Value must be \"default\" or a binary string like \"0b101010\"."

def rwBMSNVM (command : String) (s : Bms σ) : Bms σ :=
  match nvmWord command with
  | none => s.fail "Unknown NVM command."
  | some (registerAddress, data) => s.sendWord bus cfg registerAddress data

def sendBMSIdentityCommand (command : String) (data : UInt16) (s : Bms σ) : Bms σ :=
  if data = 0x0000 then s.fail ("Error: Identity value for " ++ command ++ " cannot be 0x0000.")
  else
    match identityRegister command with
    | none => s.fail "Unknown identity command."
    | some registerAddress => s.sendWord bus cfg registerAddress data

def sendBMSRealTimeCommand (command : String) (s : Bms σ) : Bms σ :=
  match realTimeWord command with
  | none => s.fail "Unknown Real Time command."
  | some (registerAddress, data) => s.sendWord bus cfg registerAddress data

end

/-! ### The calls as one type -/

inductive BmsCall
  | config (command valueStr : String)
  | nvm (command : String)
  | identity (command : String) (data : UInt16)
  | realTime (command : String)
  | conversionState (state : String)
  deriving DecidableEq

namespace BmsCall

section

variable {σ : Type} (bus : Bus σ) (cfg : Settings)

def exec : BmsCall → Bms σ → Bms σ
  | config command valueStr => sendBMSConfigCommand bus cfg command valueStr
  | nvm command => rwBMSNVM bus cfg command
  | identity command data => sendBMSIdentityCommand bus cfg command data
  | realTime command => sendBMSRealTimeCommand bus cfg command
  | conversionState state => setBMSConversionState bus cfg state

end

/-- The register that the call's name stands for. -/
def register : BmsCall → Option UInt8
  | config command _ => (configRegister command).map ConfigRegister.registerAddress
  | nvm command => (nvmWord command).map Prod.fst
  | identity command _ => identityRegister command
  | realTime command => (realTimeWord command).map Prod.fst
  | conversionState state =>
    if state = "CONVERSION_OFF" ∨ state = "CONVERSION_ON" then some 0x02 else none

/-- An unknown name, a zero identity, or a config value of neither form. -/
def Rejected : BmsCall → Prop
  | config command valueStr =>
    configRegister command = none ∨ (valueStr ≠ "default" ∧ ¬ "0b".toList <+: valueStr.toList)
  | nvm command => nvmWord command = none
  | identity command data => data = 0 ∨ identityRegister command = none
  | realTime command => realTimeWord command = none
  | conversionState state => state ≠ "CONVERSION_OFF" ∧ state ≠ "CONVERSION_ON"

end BmsCall

end QuadBot
