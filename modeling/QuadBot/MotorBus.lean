import QuadBot.MotorDriver
import QuadBot.Lib.Selector
import Mathlib.Data.Fin.VecNotation

/-! The devices on the first I2C bus: the PCA9548A and the motor drivers behind its eight channels.
The control register of the PCA9548A takes the last data byte of any write to its address, and a
transaction with another address reaches the device at that address behind every channel whose
control bit is set. Whether each transaction is acknowledged comes from a stream of outcomes, and a
transaction that is not acknowledged changes no device. -/

namespace QuadBot

inductive Transfer
  | write (bytes : List UInt8)
  | read (count : Nat)

/-- A transaction put on the bus, with the control register of the mux when it was. -/
structure Put where
  control : UInt8
  address : UInt8
  transfer : Transfer

structure MotorBus where
  control : UInt8
  /-- The register files: channel, driver address, register. -/
  reg : Fin 8 → UInt8 → UInt8 → UInt8
  /-- The register that a driver reads from next. -/
  pointer : Fin 8 → UInt8 → UInt8
  /-- Whether the transactions from here on are acknowledged. -/
  acks : Stream' Bool
  log : List Put

def isOpen (control : UInt8) (c : Fin 8) : Bool := control.toNat.testBit c

def controlByte (c : Fin 8) : UInt8 := 1 <<< UInt8.ofNat c.val

namespace MotorBus

/-- An acknowledged write transaction. A driver takes the first byte as the register and the rest
as data for it. -/
def deliver (address : UInt8) (bytes : List UInt8) (b : MotorBus) : MotorBus :=
  if address = I2C_MUX_ADDRESS then { b with control := bytes.getLast?.getD b.control }
  else
    match bytes with
    | [] => b
    | register :: data =>
      { b with
        pointer := fun c a =>
          if isOpen b.control c ∧ a = address then register else b.pointer c a
        reg := fun c a r =>
          if isOpen b.control c ∧ a = address ∧ r = register then
            data.getLast?.getD (b.reg c a r)
          else b.reg c a r }

/-- The byte on the data line while the devices at `address` behind all open channels send: it is
low where one of them pulls it low. -/
def sent (address : UInt8) (b : MotorBus) : UInt8 :=
  (List.finRange 8).foldl
    (fun byte c => if isOpen b.control c then byte &&& b.reg c address (b.pointer c address)
      else byte) 0xFF

def record (address : UInt8) (transfer : Transfer) (b : MotorBus) : MotorBus :=
  { b with acks := b.acks.tail, log := b.log ++ [⟨b.control, address, transfer⟩] }

end MotorBus

def motorBus : Bus MotorBus where
  endTransmission b address bytes :=
    let ack := b.acks.head
    let b := b.record address (.write bytes)
    (ack, if ack then b.deliver address bytes else b)
  requestFrom b address count :=
    let ack := b.acks.head
    let b := b.record address (.read count)
    (if ack then List.replicate count (b.sent address) else [], b)

def bootMotor (acks : Stream' Bool) : Motor MotorBus where
  currentChannel := -1
  wire := { control := 0, reg := fun _ _ _ => 0, pointer := fun _ _ => 0, acks, log := [] }
  errors := []

/-- The transaction is put on the bus while the driver `a` behind channel `c` is reached by it. -/
def Put.Reaches (p : Put) (c : Fin 8) (a : UInt8) : Prop :=
  p.address ≠ I2C_MUX_ADDRESS ∧ p.address = a ∧ isOpen p.control c = true

theorem isOpen_controlByte : ∀ c d : Fin 8, isOpen (controlByte c) d = decide (d = c) := by decide

theorem controlByte_ne_zero : ∀ c : Fin 8, controlByte c ≠ 0 := by decide

theorem controlByte_injective : ∀ c d : Fin 8, controlByte c = controlByte d → c = d := by decide

theorem isOpen_zero : ∀ c : Fin 8, isOpen 0 c = false := by decide

theorem exists_channel {m : UInt8} (h : ¬ 7 < m) : ∃ c : Fin 8, m = UInt8.ofNat c.val := by
  refine ⟨⟨m.toNat, ?_⟩, by simp⟩
  have := UInt8.le_iff_toNat_le.mp (UInt8.not_lt.mp h)
  simpa using Nat.lt_succ_of_le this

theorem channel_not_gt : ∀ c : Fin 8, ¬ 7 < UInt8.ofNat c.val := by decide

theorem channel_toNat : ∀ c : Fin 8, (UInt8.ofNat c.val).toNat = c.val := by decide

theorem channel_ofInt : ∀ c : Fin 8, UInt8.ofInt c.val = UInt8.ofNat c.val := by decide

/-! ### One byte to the mux -/

section WrByte

variable (d : UInt8) (w : MotorBus)

theorem wrByte_acks : (i2cWrByte motorBus I2C_MUX_ADDRESS d w).acks = w.acks.tail := by
  simp only [i2cWrByte, motorBus, MotorBus.deliver, MotorBus.record, if_true]
  split <;> rfl

theorem wrByte_log : (i2cWrByte motorBus I2C_MUX_ADDRESS d w).log =
    w.log ++ [⟨w.control, I2C_MUX_ADDRESS, .write [d]⟩] := by
  simp only [i2cWrByte, motorBus, MotorBus.deliver, MotorBus.record, if_true]
  split <;> rfl

theorem wrByte_reg : (i2cWrByte motorBus I2C_MUX_ADDRESS d w).reg = w.reg := by
  simp only [i2cWrByte, motorBus, MotorBus.deliver, MotorBus.record, if_true]
  split <;> rfl

theorem wrByte_control : (i2cWrByte motorBus I2C_MUX_ADDRESS d w).control =
    if w.acks.head then d else w.control := by
  simp only [i2cWrByte, motorBus, MotorBus.deliver, MotorBus.record, if_true]
  split <;> rfl

end WrByte

/-! ### One register write -/

section Write

variable (s : Motor MotorBus) (a r d : UInt8)

@[simp] theorem wr_currentChannel :
    (s.wr motorBus a r d).currentChannel = s.currentChannel := rfl

@[simp] theorem wr_acks : (s.wr motorBus a r d).wire.acks = s.wire.acks.tail := by
  simp only [Motor.wr, i2cWr, motorBus, MotorBus.deliver, MotorBus.record]
  repeat' split
  all_goals rfl

@[simp] theorem wr_log : (s.wr motorBus a r d).wire.log =
    s.wire.log ++ [⟨s.wire.control, a, .write [r, d]⟩] := by
  simp only [Motor.wr, i2cWr, motorBus, MotorBus.deliver, MotorBus.record]
  repeat' split
  all_goals rfl

theorem wr_control_driver (ha : a ≠ I2C_MUX_ADDRESS) :
    (s.wr motorBus a r d).wire.control = s.wire.control := by
  simp only [Motor.wr, i2cWr, motorBus, MotorBus.deliver, MotorBus.record, ha, if_false]
  split <;> rfl

theorem wr_control_mux (hs : s.wire.acks = acked) :
    (s.wr motorBus I2C_MUX_ADDRESS r d).wire.control = d := by
  simp [Motor.wr, i2cWr, motorBus, MotorBus.deliver, MotorBus.record, hs, acked_head]

theorem wr_reg_mux : (s.wr motorBus I2C_MUX_ADDRESS r d).wire.reg = s.wire.reg := by
  simp only [Motor.wr, i2cWr, motorBus, MotorBus.deliver, MotorBus.record, if_true]
  split <;> rfl

theorem wr_reg_driver (hs : s.wire.acks = acked) (ha : a ≠ I2C_MUX_ADDRESS) :
    (s.wr motorBus a r d).wire.reg = fun c b k =>
      if isOpen s.wire.control c ∧ b = a ∧ k = r then d else s.wire.reg c b k := by
  simp only [Motor.wr, i2cWr, motorBus, MotorBus.deliver, hs, acked_head, ha, if_true, if_false]
  rfl

end Write

/-! ### One register read -/

section Read

variable (w : MotorBus) (a r : UInt8)

theorem requested_received (hw : w.acks = acked) :
    ∃ byte, (requested motorBus a r w).1 = [byte] := by
  simp [requested, motorBus, MotorBus.deliver, MotorBus.record, hw, acked_head, acked_tail,
    apply_ite MotorBus.acks]

theorem requested_log (ha : a ≠ I2C_MUX_ADDRESS) : (requested motorBus a r w).2.log =
    w.log ++ [⟨w.control, a, .write [r]⟩, ⟨w.control, a, .read 1⟩] := by
  simp only [requested, motorBus, MotorBus.deliver, MotorBus.record, ha, if_false]
  split <;> simp

theorem requested_control (ha : a ≠ I2C_MUX_ADDRESS) :
    (requested motorBus a r w).2.control = w.control := by
  simp only [requested, motorBus, MotorBus.deliver, MotorBus.record, ha, if_false]
  split <;> rfl

theorem requested_reg : (requested motorBus a r w).2.reg = w.reg := by
  funext c b k
  simp only [requested, motorBus, MotorBus.deliver, MotorBus.record]
  repeat' split
  all_goals first
    | rfl
    | exact ite_self _

theorem requested_acks : (requested motorBus a r w).2.acks = w.acks.tail.tail := by
  simp only [requested, motorBus, MotorBus.deliver, MotorBus.record]
  repeat' split
  all_goals rfl

end Read

end QuadBot
