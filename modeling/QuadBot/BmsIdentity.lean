import QuadBot.BmsConversion
import QuadBot.BmsNumerical
import QuadBot.BmsRead
import QuadBot.Lib.Latest

/-! The identity of the battery, which `BMS_SetupCommands.cpp` writes and `BMS_ReadCommands.cpp`
reads. Over any run of commands the reads return what was written last, as no other command comes
near the identity registers. -/

namespace QuadBot

open Latest

section

variable {σ : Type} (bus : Bus σ)

/-- Two registers as the halves of a 32-bit value. -/
def readDoubleWord (msbAddress lsbAddress : UInt8) (wire1 : σ) : UInt32 × σ :=
  let (msb, wire1) := readBMSData bus 0x49 msbAddress wire1
  let (lsb, wire1) := readBMSData bus 0x49 lsbAddress wire1
  ((msb.toUInt32 <<< 16) ||| lsb.toUInt32, wire1)

def readManufacturerName (wire1 : σ) : UInt32 × σ := readDoubleWord bus 0x17 0x18 wire1

def readManufacturerDate (wire1 : σ) : UInt16 × σ := readBMSData bus 0x49 0x19 wire1

def readFirstUsageDate (wire1 : σ) : UInt16 × σ := readBMSData bus 0x49 0x1A wire1

def readSerialNumber (wire1 : σ) : UInt32 × σ := readDoubleWord bus 0x1B 0x1C wire1

def readDeviceName (wire1 : σ) : UInt32 × σ := readDoubleWord bus 0x1D 0x1E wire1

end

/-! ### Calls -/

/-- A call of a function that uses the battery chip. `RWBMSNVM` is not among them: it can load the
registers from elsewhere. -/
inductive BmsOp
  | config (command valueStr : String)
  | identity (command : String) (data : UInt16)
  | realTime (command : String)
  | numerical (command : String) (arg1 arg2 : Option String)
  | conversionState (state : String)
  | coulomb
  | read (registerAddress : UInt8)

namespace BmsOp

def exec (cfg : Settings) (op : BmsOp) (s : Bms BmsChip) : Bms BmsChip :=
  match op with
  | config command valueStr => sendBMSConfigCommand bmsBus cfg command valueStr s
  | identity command data => sendBMSIdentityCommand bmsBus cfg command data s
  | realTime command => sendBMSRealTimeCommand bmsBus cfg command s
  | numerical command arg1 arg2 => sendBMSNumericalCommand cfg arg1 arg2 command s
  | conversionState state => setBMSConversionState bmsBus cfg state s
  | coulomb => (readCoulombCounter bmsBus cfg s).2
  | read registerAddress => { s with wire1 := (readBMSData bmsBus 0x49 registerAddress s.wire1).2 }

/-- The data of an identity command of this name, where it is accepted. -/
def accepted (name : String) : BmsOp → Option UInt16
  | identity command data => if command = name ∧ data ≠ 0 then some data else none
  | _ => none

end BmsOp

def runOps (cfg : Settings) (ops : List BmsOp) (s : Bms BmsChip) : Bms BmsChip :=
  ops.foldl (fun s op => op.exec cfg s) s

/-- The data of the last accepted identity command of this name. -/
def lastAccepted (name : String) (ops : List BmsOp) (init : UInt16) : UInt16 :=
  latest (BmsOp.accepted name) ops init

/-! ### What a call does to a register -/

section

variable {s : Bms BmsChip} {k : UInt8}

theorem write_acked (hs : s.wire1.acks = acked) (r : UInt8) (d : UInt16) :
    (writeBMSData bmsBus 0x49 r d s).wire1.acks = acked := by
  rw [write_acks, hs, acked_tail]

/-- A sent word changes its own register, and no other but the conversion register. -/
theorem sendWord_acked (cfg : Settings) (hs : s.wire1.acks = acked) (r : UInt8) (d : UInt16) :
    (s.sendWord bmsBus cfg r d).wire1.acks = acked ∧
      (k ≠ 0x02 → (s.sendWord bmsBus cfg r d).wire1.reg k =
        if k = r then d else s.wire1.reg k) := by
  unfold Bms.sendWord
  by_cases h1 : s.bmsConversionActive = 1
  · rw [if_pos h1]
    have hoff : (setBMSConversionState bmsBus cfg "CONVERSION_OFF" s).wire1 =
        (writeBMSData bmsBus 0x49 0x02 0x0000 s).wire1 := rfl
    have hacks : (setBMSConversionState bmsBus cfg "CONVERSION_OFF" s).wire1.acks = acked := by
      rw [hoff]
      exact write_acked hs 0x02 0x0000
    refine ⟨write_acked hacks r d, ?_⟩
    intro hk
    rw [write_reg _ r d hacks, hoff, write_reg s 0x02 0x0000 hs, if_neg hk]
  · rw [if_neg h1]
    exact ⟨write_acked hs r d, fun _ => write_reg s r d hs k⟩

theorem conversionState_acked (cfg : Settings) (hs : s.wire1.acks = acked) (state : String) :
    (setBMSConversionState bmsBus cfg state s).wire1.acks = acked ∧
      (k ≠ 0x02 → (setBMSConversionState bmsBus cfg state s).wire1.reg k = s.wire1.reg k) := by
  unfold setBMSConversionState
  split
  · exact ⟨write_acked hs 0x02 0x0000, fun hk => by rw [write_reg s _ _ hs, if_neg hk]⟩
  · split
    · exact ⟨write_acked hs 0x02 _, fun hk => by rw [write_reg s _ _ hs, if_neg hk]⟩
    · exact ⟨hs, fun _ => rfl⟩

/-- A read only moves the chip's pointer. -/
theorem read_acked {b : BmsChip} (hb : b.acks = acked) (r : UInt8) :
    (readBMSData bmsBus 0x49 r b).1 = b.reg r ∧
      (readBMSData bmsBus 0x49 r b).2.acks = acked ∧
      (readBMSData bmsBus 0x49 r b).2.reg = b.reg := by
  simp [readBMSData, bmsBus, BmsChip.record, BmsChip.deliver, hb, acked_head, acked_tail]

theorem coulomb_acked (cfg : Settings) (hs : s.wire1.acks = acked) :
    (readCoulombCounter bmsBus cfg s).2.wire1.acks = acked ∧
      (k ≠ 0x2D → (readCoulombCounter bmsBus cfg s).2.wire1.reg k = s.wire1.reg k) := by
  have hreset := write_acked hs 0x2D 0xFFFF
  obtain ⟨-, hacks, hreg⟩ := read_acked hreset 0x2D
  obtain ⟨-, hacks', hreg'⟩ := read_acked hacks 0x2E
  refine ⟨hacks', ?_⟩
  intro hk
  show (readBMSData bmsBus 0x49 0x2E (readBMSData bmsBus 0x49 0x2D
    (writeBMSData bmsBus 0x49 0x2D 0xFFFF s).wire1).2).2.reg k = _
  rw [hreg', hreg, write_reg s 0x2D 0xFFFF hs, if_neg hk]

end

/-! ### The identity registers -/

/-- The name whose data a register holds. -/
def identityName (registerAddress : UInt8) : String :=
  if registerAddress = 0x17 then "MANUFACTURE_NAME_MSB"
  else if registerAddress = 0x18 then "MANUFACTURE_NAME_LSB"
  else if registerAddress = 0x19 then "MANUFACTURING_DATE"
  else if registerAddress = 0x1A then "FIRST_USAGE_DATE"
  else if registerAddress = 0x1B then "SERIAL_NUMBER_MSB"
  else if registerAddress = 0x1C then "SERIAL_NUMBER_LSB"
  else if registerAddress = 0x1D then "DEVICE_NAME_MSB"
  else "DEVICE_NAME_LSB"

theorem identityRegister_spec {name : String} {k : UInt8} (h : identityRegister name = some k) :
    0x17 ≤ k ∧ k ≤ 0x1E ∧ name = identityName k := by
  unfold identityRegister at h
  repeat' split at h
  all_goals
    cases h
    try exact ⟨by decide, by decide, by assumption⟩

theorem identityRegister_ne {name : String} {k r : UInt8} (h : identityRegister name = some k)
    (hr : ¬ (0x17 ≤ r ∧ r ≤ 0x1E)) : k ≠ r := by
  rintro rfl
  obtain ⟨hlow, hhigh, -⟩ := identityRegister_spec h
  exact hr ⟨hlow, hhigh⟩

theorem identityRegister_injective {a b : String} {k : UInt8} (ha : identityRegister a = some k)
    (hb : identityRegister b = some k) : a = b :=
  (identityRegister_spec ha).2.2.trans (identityRegister_spec hb).2.2.symm

/-- No call but an identity command has an identity register as its own. -/
theorem exists_identity_of_register {call : BmsCall} {r : UInt8} (h : call.register = some r)
    (hr : 0x17 ≤ r ∧ r ≤ 0x1E) : ∃ command data, call = .identity command data := by
  cases call with
  | identity command data => exact ⟨command, data, rfl⟩
  | config | nvm | realTime | conversionState =>
    exact absurd hr (register_all (fun r => ¬ (0x17 ≤ r ∧ r ≤ 0x1E)) h rfl)

section

variable {s : Bms BmsChip} {name : String} {k : UInt8}

/-- A call changes its own register, and no other but the conversion register. -/
theorem call_acked (cfg : Settings) (hs : s.wire1.acks = acked) (call : BmsCall) :
    (call.exec bmsBus cfg s).wire1.acks = acked ∧ (k ≠ 0x02 → call.register ≠ some k →
      (call.exec bmsBus cfg s).wire1.reg k = s.wire1.reg k) := by
  by_cases hc : call.Rejected
  · obtain ⟨message, hexec⟩ := exec_rejected cfg hc s
    rw [hexec]
    exact ⟨hs, fun _ _ => rfl⟩
  · by_cases hstate : ∃ state, call = .conversionState state
    · obtain ⟨state, rfl⟩ := hstate
      obtain ⟨hacks, hreg⟩ := conversionState_acked (k := k) cfg hs state
      exact ⟨hacks, fun hk _ => hreg hk⟩
    · obtain ⟨s', r, d, hwire, -, hr, hexec⟩ :=
        exec_accepted cfg hc (fun state hs => hstate ⟨state, hs⟩) s
      rw [← hwire] at hs
      obtain ⟨hacks, hreg⟩ := sendWord_acked (k := k) cfg hs r d
      rw [hexec]
      refine ⟨hacks, ?_⟩
      intro hk hne
      have hkr : k ≠ r := by
        rintro rfl
        exact hne hr
      rw [hreg hk, if_neg hkr, hwire]

theorem call_frame (cfg : Settings) (hs : s.wire1.acks = acked)
    (hk : identityRegister name = some k) (call : BmsCall)
    (hcall : ∀ command data, call ≠ .identity command data) :
    (call.exec bmsBus cfg s).wire1.acks = acked ∧
      (call.exec bmsBus cfg s).wire1.reg k = s.wire1.reg k := by
  obtain ⟨hacks, hreg⟩ := call_acked (k := k) cfg hs call
  refine ⟨hacks, hreg (identityRegister_ne hk (by decide)) ?_⟩
  intro hr
  obtain ⟨hlow, hhigh, -⟩ := identityRegister_spec hk
  obtain ⟨command, data, h⟩ := exists_identity_of_register hr ⟨hlow, hhigh⟩
  exact hcall command data h

/-- An identity command puts its data in the register of its name, where it is accepted. -/
theorem identity_acked (cfg : Settings) (hs : s.wire1.acks = acked)
    (hk : identityRegister name = some k) (command : String) (data : UInt16) :
    (sendBMSIdentityCommand bmsBus cfg command data s).wire1.acks = acked ∧
      (sendBMSIdentityCommand bmsBus cfg command data s).wire1.reg k =
        ((BmsOp.identity command data).accepted name).getD (s.wire1.reg k) := by
  unfold sendBMSIdentityCommand BmsOp.accepted
  by_cases hzero : data = 0
  · simp [hzero, Bms.fail, hs]
  · rw [if_neg hzero]
    cases hr : identityRegister command with
    | none =>
      have hne : command ≠ name := by
        rintro rfl
        rw [hk] at hr
        cases hr
      simp [hne, Bms.fail, hs]
    | some r =>
      obtain ⟨hacks, hreg⟩ := sendWord_acked (k := k) cfg hs r data
      refine ⟨hacks, (hreg (identityRegister_ne hk (by decide))).trans ?_⟩
      by_cases hname : command = name
      · subst hname
        obtain rfl : k = r := Option.some.inj (hk.symm.trans hr)
        simp [hzero]
      · have hne : k ≠ r := by
          rintro rfl
          exact hname (identityRegister_injective hr hk)
        simp [hname, hne]

/-- One call. -/
theorem op_acked (cfg : Settings) (hs : s.wire1.acks = acked)
    (hk : identityRegister name = some k) (op : BmsOp) :
    (op.exec cfg s).wire1.acks = acked ∧
      (op.exec cfg s).wire1.reg k = (op.accepted name).getD (s.wire1.reg k) := by
  cases op with
  | config command valueStr =>
    exact call_frame cfg hs hk (.config command valueStr) (by simp)
  | realTime command => exact call_frame cfg hs hk (.realTime command) (by simp)
  | conversionState state => exact call_frame cfg hs hk (.conversionState state) (by simp)
  | identity command data => exact identity_acked cfg hs hk command data
  | numerical command arg1 arg2 =>
    have hwire : (sendBMSNumericalCommand cfg arg1 arg2 command s).wire1 = s.wire1 := by
      unfold sendBMSNumericalCommand
      split <;> rfl
    show (sendBMSNumericalCommand cfg arg1 arg2 command s).wire1.acks = acked ∧
      (sendBMSNumericalCommand cfg arg1 arg2 command s).wire1.reg k = s.wire1.reg k
    rw [hwire]
    exact ⟨hs, rfl⟩
  | coulomb =>
    obtain ⟨hacks, hreg⟩ := coulomb_acked (k := k) cfg hs
    exact ⟨hacks, hreg (identityRegister_ne hk (by decide))⟩
  | read registerAddress =>
    obtain ⟨-, hacks, hreg⟩ := read_acked hs registerAddress
    exact ⟨hacks, congrFun hreg k⟩

/-- Over a run an identity register holds what was accepted for it last. -/
theorem runOps_reg (cfg : Settings) (hs : s.wire1.acks = acked)
    (hk : identityRegister name = some k) (ops : List BmsOp) :
    (runOps cfg ops s).wire1.acks = acked ∧
      (runOps cfg ops s).wire1.reg k = lastAccepted name ops (s.wire1.reg k) :=
  view_foldl (fun s : Bms BmsChip => s.wire1.acks = acked) (fun s => s.wire1.reg k)
    (fun _ op hs => op_acked cfg hs hk op) ops hs

end

/-! ### Reads -/

/-- A chip that acknowledges everything sends the words that it stores. -/
theorem readDoubleWord_toNat {b : BmsChip} (hb : b.acks = acked) (msbAddress lsbAddress : UInt8) :
    (readDoubleWord bmsBus msbAddress lsbAddress b).1.toNat =
      2 ^ 16 * (b.reg msbAddress).toNat + (b.reg lsbAddress).toNat := by
  obtain ⟨hmsb, hacks, hreg⟩ := read_acked hb msbAddress
  obtain ⟨hlsb, -⟩ := read_acked hacks lsbAddress
  have hm := (b.reg msbAddress).toNat_lt
  have hl := (b.reg lsbAddress).toNat_lt
  have hshift : (b.reg msbAddress).toNat <<< 16 < 2 ^ 32 := by
    rw [Nat.shiftLeft_eq]
    omega
  show (((readBMSData bmsBus 0x49 msbAddress b).1.toUInt32 <<< 16) |||
    (readBMSData bmsBus 0x49 lsbAddress (readBMSData bmsBus 0x49 msbAddress b).2).1.toUInt32).toNat
      = _
  rw [hlsb, hmsb, hreg, UInt32.toNat_or, UInt32.toNat_shiftLeft, UInt16.toNat_toUInt32,
    UInt16.toNat_toUInt32, show UInt32.toNat 16 % 32 = 16 from rfl, Nat.mod_eq_of_lt hshift,
    ← Nat.shiftLeft_add_eq_or_of_lt hl, Nat.shiftLeft_eq]
  omega

theorem readDoubleWord_congr {a b : BmsChip} (ha : a.acks = acked) (hb : b.acks = acked)
    {msbAddress lsbAddress : UInt8} (hmsb : a.reg msbAddress = b.reg msbAddress)
    (hlsb : a.reg lsbAddress = b.reg lsbAddress) :
    (readDoubleWord bmsBus msbAddress lsbAddress a).1 =
      (readDoubleWord bmsBus msbAddress lsbAddress b).1 := by
  rw [← UInt32.toNat_inj, readDoubleWord_toNat ha, readDoubleWord_toNat hb, hmsb, hlsb]

/-- The five reads of the identity return the same from both chips. -/
structure SameIdentity (a b : BmsChip) : Prop where
  manufacturerName : (readManufacturerName bmsBus a).1 = (readManufacturerName bmsBus b).1
  manufacturerDate : (readManufacturerDate bmsBus a).1 = (readManufacturerDate bmsBus b).1
  firstUsageDate : (readFirstUsageDate bmsBus a).1 = (readFirstUsageDate bmsBus b).1
  serialNumber : (readSerialNumber bmsBus a).1 = (readSerialNumber bmsBus b).1
  deviceName : (readDeviceName bmsBus a).1 = (readDeviceName bmsBus b).1

/-- A call that is not an accepted identity command changes nothing of the identity. -/
theorem op_sameIdentity (cfg : Settings) {s : Bms BmsChip} (hs : s.wire1.acks = acked)
    {op : BmsOp} (hop : ∀ name, op.accepted name = none) :
    SameIdentity (op.exec cfg s).wire1 s.wire1 := by
  have hreg : ∀ {name k}, identityRegister name = some k →
      (op.exec cfg s).wire1.acks = acked ∧ (op.exec cfg s).wire1.reg k = s.wire1.reg k := by
    intro name k hk
    obtain ⟨hacks, hreg⟩ := op_acked cfg hs hk op
    rw [hop, Option.getD_none] at hreg
    exact ⟨hacks, hreg⟩
  obtain ⟨hacks, hdate⟩ := @hreg "MANUFACTURING_DATE" 0x19 rfl
  constructor
  · exact readDoubleWord_congr hacks hs (@hreg "MANUFACTURE_NAME_MSB" _ rfl).2
      (@hreg "MANUFACTURE_NAME_LSB" _ rfl).2
  · exact (read_acked hacks 0x19).1.trans (hdate.trans (read_acked hs 0x19).1.symm)
  · exact (read_acked hacks 0x1A).1.trans
      ((@hreg "FIRST_USAGE_DATE" _ rfl).2.trans (read_acked hs 0x1A).1.symm)
  · exact readDoubleWord_congr hacks hs (@hreg "SERIAL_NUMBER_MSB" _ rfl).2
      (@hreg "SERIAL_NUMBER_LSB" _ rfl).2
  · exact readDoubleWord_congr hacks hs (@hreg "DEVICE_NAME_MSB" _ rfl).2
      (@hreg "DEVICE_NAME_LSB" _ rfl).2

/-- After every run of calls, every transaction acknowledged, the identity reads back as the data
accepted last, and whatever comes next but an accepted identity command leaves it so. -/
theorem identity_reads (cfg : Settings) {s : Bms BmsChip} (hs : s.wire1.acks = acked)
    (ops : List BmsOp) {t : Bms BmsChip} (ht : t = runOps cfg ops s) :
    (readManufacturerName bmsBus t.wire1).1.toNat =
      2 ^ 16 * (lastAccepted "MANUFACTURE_NAME_MSB" ops (s.wire1.reg 0x17)).toNat +
        (lastAccepted "MANUFACTURE_NAME_LSB" ops (s.wire1.reg 0x18)).toNat ∧
    (readManufacturerDate bmsBus t.wire1).1 =
      lastAccepted "MANUFACTURING_DATE" ops (s.wire1.reg 0x19) ∧
    (readFirstUsageDate bmsBus t.wire1).1 =
      lastAccepted "FIRST_USAGE_DATE" ops (s.wire1.reg 0x1A) ∧
    (readSerialNumber bmsBus t.wire1).1.toNat =
      2 ^ 16 * (lastAccepted "SERIAL_NUMBER_MSB" ops (s.wire1.reg 0x1B)).toNat +
        (lastAccepted "SERIAL_NUMBER_LSB" ops (s.wire1.reg 0x1C)).toNat ∧
    (readDeviceName bmsBus t.wire1).1.toNat =
      2 ^ 16 * (lastAccepted "DEVICE_NAME_MSB" ops (s.wire1.reg 0x1D)).toNat +
        (lastAccepted "DEVICE_NAME_LSB" ops (s.wire1.reg 0x1E)).toNat ∧
    ∀ op : BmsOp, (∀ name, op.accepted name = none) →
      SameIdentity (op.exec cfg t).wire1 t.wire1 := by
  subst ht
  have hacks : (runOps cfg ops s).wire1.acks = acked :=
    (@runOps_reg s "MANUFACTURING_DATE" _ cfg hs rfl ops).1
  have hreg : ∀ {name k}, identityRegister name = some k →
      (runOps cfg ops s).wire1.reg k = lastAccepted name ops (s.wire1.reg k) :=
    fun hk => (runOps_reg cfg hs hk ops).2
  refine ⟨?_, ?_, ?_, ?_, ?_, ?_⟩
  · rw [readManufacturerName, readDoubleWord_toNat hacks, @hreg "MANUFACTURE_NAME_MSB" 0x17 rfl,
      @hreg "MANUFACTURE_NAME_LSB" 0x18 rfl]
  · exact (read_acked hacks 0x19).1.trans (hreg rfl)
  · exact (read_acked hacks 0x1A).1.trans (hreg rfl)
  · rw [readSerialNumber, readDoubleWord_toNat hacks, @hreg "SERIAL_NUMBER_MSB" 0x1B rfl,
      @hreg "SERIAL_NUMBER_LSB" 0x1C rfl]
  · rw [readDeviceName, readDoubleWord_toNat hacks, @hreg "DEVICE_NAME_MSB" 0x1D rfl,
      @hreg "DEVICE_NAME_LSB" 0x1E rfl]
  · intro op hop
    exact op_sameIdentity cfg hacks hop

theorem identity_reads_serial_number :
    (readSerialNumber bmsBus (runOps settings [.identity "SERIAL_NUMBER_MSB" 0x1234,
      .identity "SERIAL_NUMBER_LSB" 0x5678, .identity "SERIAL_NUMBER_MSB" 0x0000, .coulomb]
      (bootBms (bootChip acked))).wire1).1.toNat = 0x12345678 :=
  (identity_reads settings (s := bootBms (bootChip acked)) rfl
    [.identity "SERIAL_NUMBER_MSB" 0x1234, .identity "SERIAL_NUMBER_LSB" 0x5678,
      .identity "SERIAL_NUMBER_MSB" 0x0000, .coulomb] rfl).2.2.2.1

end QuadBot
