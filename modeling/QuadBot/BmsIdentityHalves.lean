import QuadBot.BmsIdentity

/-! The 32-bit items of the identity, which take two commands to write. Each command refuses the
data 0, so a half that is 0 stays as it was in the chip. -/

namespace QuadBot

def upperHalf (value : UInt32) : UInt16 := (value >>> 16).toUInt16

def lowerHalf (value : UInt32) : UInt16 := value.toUInt16

/-- An item of the identity that is held in two registers. -/
inductive IdentityItem
  | manufacturerName
  | serialNumber
  | deviceName
  deriving DecidableEq

namespace IdentityItem

def msbCommand : IdentityItem → String
  | manufacturerName => "MANUFACTURE_NAME_MSB"
  | serialNumber => "SERIAL_NUMBER_MSB"
  | deviceName => "DEVICE_NAME_MSB"

def lsbCommand : IdentityItem → String
  | manufacturerName => "MANUFACTURE_NAME_LSB"
  | serialNumber => "SERIAL_NUMBER_LSB"
  | deviceName => "DEVICE_NAME_LSB"

def msbAddress : IdentityItem → UInt8
  | manufacturerName => 0x17
  | serialNumber => 0x1B
  | deviceName => 0x1D

def lsbAddress : IdentityItem → UInt8
  | manufacturerName => 0x18
  | serialNumber => 0x1C
  | deviceName => 0x1E

/-- The item as the firmware reads it. -/
def read (item : IdentityItem) (s : Bms BmsChip) : UInt32 :=
  match item with
  | manufacturerName => (readManufacturerName bmsBus s.wire1).1
  | serialNumber => (readSerialNumber bmsBus s.wire1).1
  | deviceName => (readDeviceName bmsBus s.wire1).1

/-- The MSB command with the upper half, and the LSB command with the lower half. -/
def send (cfg : Settings) (item : IdentityItem) (value : UInt32) (s : Bms BmsChip) :
    Bms BmsChip :=
  let s := sendBMSIdentityCommand bmsBus cfg item.msbCommand (upperHalf value) s
  sendBMSIdentityCommand bmsBus cfg item.lsbCommand (lowerHalf value) s

theorem read_eq (item : IdentityItem) (s : Bms BmsChip) :
    item.read s = (readDoubleWord bmsBus item.msbAddress item.lsbAddress s.wire1).1 := by
  cases item <;> rfl

theorem msb_register (item : IdentityItem) :
    identityRegister item.msbCommand = some item.msbAddress := by
  cases item <;> rfl

theorem lsb_register (item : IdentityItem) :
    identityRegister item.lsbCommand = some item.lsbAddress := by
  cases item <;> rfl

theorem lsbCommand_ne (item : IdentityItem) : item.lsbCommand ≠ item.msbCommand := by
  cases item <;> decide

end IdentityItem

/-- One half of the old value and one of the new, and neither value. -/
structure Mixed (old new value : UInt32) : Prop where
  ne_old : value ≠ old
  ne_new : value ≠ new
  halves : upperHalf value = upperHalf new ∧ lowerHalf value = lowerHalf old ∨
    upperHalf value = upperHalf old ∧ lowerHalf value = lowerHalf new

/-! ### Halves -/

theorem upperHalf_toNat (value : UInt32) : (upperHalf value).toNat = value.toNat / 2 ^ 16 := by
  have hlt := value.toNat_lt
  rw [upperHalf, UInt32.toNat_toUInt16, UInt32.toNat_shiftRight]
  show value.toNat >>> 16 % 2 ^ 16 = _
  rw [Nat.shiftRight_eq_div_pow]
  omega

theorem lowerHalf_toNat (value : UInt32) : (lowerHalf value).toNat = value.toNat % 2 ^ 16 :=
  UInt32.toNat_toUInt16 value

theorem eq_iff_halves (a b : UInt32) :
    a = b ↔ upperHalf a = upperHalf b ∧ lowerHalf a = lowerHalf b := by
  rw [← UInt32.toNat_inj, ← UInt16.toNat_inj, ← UInt16.toNat_inj, upperHalf_toNat,
    upperHalf_toNat, lowerHalf_toNat, lowerHalf_toNat]
  omega

section

variable {s : Bms BmsChip}

theorem read_halves (hs : s.wire1.acks = acked) (item : IdentityItem) :
    upperHalf (item.read s) = s.wire1.reg item.msbAddress ∧
      lowerHalf (item.read s) = s.wire1.reg item.lsbAddress := by
  have hread := readDoubleWord_toNat hs item.msbAddress item.lsbAddress
  have hlsb := (s.wire1.reg item.lsbAddress).toNat_lt
  rw [item.read_eq, ← UInt16.toNat_inj, ← UInt16.toNat_inj, upperHalf_toNat, lowerHalf_toNat,
    hread]
  omega

/-- What an identity command leaves in the register of its name, and of another. -/
theorem identity_reg (cfg : Settings) (hs : s.wire1.acks = acked) {name command : String}
    {k : UInt8} (hk : identityRegister name = some k) (data : UInt16) :
    (sendBMSIdentityCommand bmsBus cfg command data s).wire1.reg k =
      if command = name ∧ data ≠ 0 then data else s.wire1.reg k := by
  rw [(identity_acked cfg hs hk command data).2, BmsOp.accepted]
  split <;> rfl

/-- Each half is the new one, unless that is 0. -/
theorem send_halves (cfg : Settings) (hs : s.wire1.acks = acked) (item : IdentityItem)
    (value : UInt32) :
    upperHalf (item.read (item.send cfg value s)) =
        (if upperHalf value = 0 then upperHalf (item.read s) else upperHalf value) ∧
      lowerHalf (item.read (item.send cfg value s)) =
        if lowerHalf value = 0 then lowerHalf (item.read s) else lowerHalf value := by
  have hmsb := (identity_acked cfg hs item.msb_register item.msbCommand (upperHalf value)).1
  have hlsb := (identity_acked cfg hmsb item.lsb_register item.lsbCommand (lowerHalf value)).1
  obtain ⟨hupper, hlower⟩ := read_halves hs item
  obtain ⟨hupper', hlower'⟩ := read_halves (s := item.send cfg value s) hlsb item
  rw [hupper', hlower', hupper, hlower, IdentityItem.send]
  rw [identity_reg cfg hmsb item.msb_register, identity_reg cfg hs item.msb_register,
    identity_reg cfg hmsb item.lsb_register, identity_reg cfg hs item.lsb_register]
  simp [item.lsbCommand_ne, item.lsbCommand_ne.symm]

/-- Sending the halves of a value and reading it back: each half is the new one, or the old one
where the new one is 0, so that the value comes back exactly where no half of the old one shows
through. -/
theorem identity_halves (cfg : Settings) (hs : s.wire1.acks = acked) (item : IdentityItem)
    (value : UInt32) :
    upperHalf (item.read (item.send cfg value s)) =
        (if upperHalf value = 0 then upperHalf (item.read s) else upperHalf value) ∧
      lowerHalf (item.read (item.send cfg value s)) =
        (if lowerHalf value = 0 then lowerHalf (item.read s) else lowerHalf value) ∧
      (item.read (item.send cfg value s) = value ∧
          ¬ Mixed (item.read s) value (item.read (item.send cfg value s)) ↔
        (upperHalf value = 0 → upperHalf (item.read s) = 0) ∧
          (lowerHalf value = 0 → lowerHalf (item.read s) = 0)) := by
  obtain ⟨hupper, hlower⟩ := send_halves cfg hs item value
  refine ⟨hupper, hlower, ?_⟩
  have hwhole : item.read (item.send cfg value s) = value ↔
      (upperHalf value = 0 → upperHalf (item.read s) = 0) ∧
        (lowerHalf value = 0 → lowerHalf (item.read s) = 0) := by
    rw [eq_iff_halves, hupper, hlower]
    by_cases hu : upperHalf value = 0 <;> by_cases hl : lowerHalf value = 0 <;> simp [hu, hl]
  rw [← hwhole]
  constructor
  · exact fun h => h.1
  · intro h
    exact ⟨h, fun hmixed => hmixed.ne_new h⟩

end

theorem identity_halves_serial_number :
    upperHalf (IdentityItem.serialNumber.read (IdentityItem.serialNumber.send settings 0x12345678
      (bootBms (bootChip acked)))) = 0x1234 :=
  (identity_halves settings (s := bootBms (bootChip acked)) rfl .serialNumber 0x12345678).1

/-- A chip that holds the serial number 0xAAAA5678. -/
def numberedChip : Bms BmsChip :=
  IdentityItem.serialNumber.send settings 0xAAAA5678 (bootBms (bootChip acked))

/-- The zero half of 0x12340000 is refused, and the number reads 0x12345678. -/
theorem zero_half_stays :
    ¬ (IdentityItem.serialNumber.read
        (IdentityItem.serialNumber.send settings 0x12340000 numberedChip) = 0x12340000 ∧
      ¬ Mixed (IdentityItem.serialNumber.read numberedChip) 0x12340000
        (IdentityItem.serialNumber.read
          (IdentityItem.serialNumber.send settings 0x12340000 numberedChip))) := by
  have hread : IdentityItem.serialNumber.read
      (IdentityItem.serialNumber.send settings 0x12340000 numberedChip) = 0x12345678 := by decide
  rw [hread]
  rintro ⟨hvalue, -⟩
  exact absurd hvalue (by decide)

end QuadBot
