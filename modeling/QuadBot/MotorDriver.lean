import QuadBot.I2c
import Mathlib.Algebra.Order.Ring.Rat

/-! The motor driver commands of `MotorDriver_LP3943.cpp`, and what each of them puts on the bus:
a channel selection followed by register writes to one driver, or by one register read. -/

namespace QuadBot

variable {σ : Type} (bus : Bus σ)

def Motor.wr (i2cAddr registerAddress dataByte : UInt8) (s : Motor σ) : Motor σ :=
  { s with wire := i2cWr bus i2cAddr registerAddress dataByte s.wire }

def motorDriverInit (muxChannel i2cAddr : UInt8) (s : Motor σ) : Motor σ :=
  let s := i2cSelectChannel bus I2C_MUX_ADDRESS muxChannel s
  let registers : List UInt8 := [0x02, 0x03, 0x04, 0x07]
  let values : List UInt8 := [0x00, 0x80, 0x00, 0x55]
  (registers.zip values).foldl (fun s (register, value) => s.wr bus i2cAddr register value) s

def motorDriverRegControl (muxChannel i2cAddr : UInt8) (enable : Bool) (s : Motor σ) : Motor σ :=
  let s := i2cSelectChannel bus I2C_MUX_ADDRESS muxChannel s
  if enable then (s.wr bus i2cAddr 0x08 0x15).wr bus i2cAddr 0x08 0x05
  else s.wr bus i2cAddr 0x08 0x00

def variableMotionControl (muxChannel i2cAddr speed : UInt8) (direction : Bool) (s : Motor σ) :
    Motor σ :=
  let s := i2cSelectChannel bus I2C_MUX_ADDRESS muxChannel s
  let s := s.wr bus i2cAddr 0x05 (255 - speed)
  if direction then s.wr bus i2cAddr 0x07 0xC4 else s.wr bus i2cAddr 0x07 0xD1

def setMotionControl (muxChannel i2cAddr speedOne speedTwo : UInt8) (s : Motor σ) : Motor σ :=
  let s := i2cSelectChannel bus I2C_MUX_ADDRESS muxChannel s
  (s.wr bus i2cAddr 0x03 (255 - speedOne)).wr bus i2cAddr 0x05 (255 - speedTwo)

def defaultMotionValue (speedLevel : UInt8) (direction : Bool) : UInt8 :=
  let speedBits : UInt8 :=
    if speedLevel = 3 then 0b00000000
    else if speedLevel = 2 then 0b11000000
    else if speedLevel = 1 then 0b10000000
    else 0b01000000
  let directionCode : UInt8 := if direction then 0x04 else 0x11
  speedBits ||| (directionCode &&& 0x3F)

def defaultMotionControl (muxChannel i2cAddr speedLevel : UInt8) (direction : Bool)
    (s : Motor σ) : Motor σ :=
  let s := i2cSelectChannel bus I2C_MUX_ADDRESS muxChannel s
  s.wr bus i2cAddr 0x07 (defaultMotionValue speedLevel direction)

def motorDriverStop (muxChannel i2cAddr : UInt8) (s : Motor σ) : Motor σ :=
  let s := i2cSelectChannel bus I2C_MUX_ADDRESS muxChannel s
  s.wr bus i2cAddr 0x07 0x55

def readLimitTriggers (fuel : Nat) (muxChannel i2cAddr : UInt8) (s : Motor σ) :
    Except Stuck (UInt8 × Motor σ) := do
  let s := i2cSelectChannel bus I2C_MUX_ADDRESS muxChannel s
  let (byte, wire) ← i2cRd bus fuel i2cAddr 0x00 s.wire
  let limitTriggers := 0b00001111 &&& byte
  return (limitTriggers, { s with wire })

def readCurrentEstimate (fuel : Nat) (muxChannel i2cAddr : UInt8) (s : Motor σ) :
    Except Stuck (ℚ × Motor σ) := do
  let s := i2cSelectChannel bus I2C_MUX_ADDRESS muxChannel s
  let (byte, wire) ← i2cRd bus fuel i2cAddr 0x01 s.wire
  let raw := (byte &&& 0b11111000) >>> 3
  let current : ℚ := raw.toNat / 31 * 6.1467
  return (current, { s with wire })

/-! ### The operations as one type -/

/-- A call of a motor driver command, or of `I2C_DisableAllChannels` for the mux. -/
inductive MotorOp
  | init (muxChannel i2cAddr : UInt8)
  | regControl (muxChannel i2cAddr : UInt8) (enable : Bool)
  | variableMotion (muxChannel i2cAddr speed : UInt8) (direction : Bool)
  | setMotion (muxChannel i2cAddr speedOne speedTwo : UInt8)
  | defaultMotion (muxChannel i2cAddr speedLevel : UInt8) (direction : Bool)
  | stop (muxChannel i2cAddr : UInt8)
  | limitTriggers (muxChannel i2cAddr : UInt8)
  | currentEstimate (muxChannel i2cAddr : UInt8)
  | disableAll
  deriving DecidableEq

namespace MotorOp

/-- The state after the call. The values that the two reading commands return are dropped. -/
def exec (fuel : Nat) : MotorOp → Motor σ → Except Stuck (Motor σ)
  | init m a, s => .ok (motorDriverInit bus m a s)
  | regControl m a enable, s => .ok (motorDriverRegControl bus m a enable s)
  | variableMotion m a speed direction, s => .ok (variableMotionControl bus m a speed direction s)
  | setMotion m a one two, s => .ok (setMotionControl bus m a one two s)
  | defaultMotion m a level direction, s => .ok (defaultMotionControl bus m a level direction s)
  | stop m a, s => .ok (motorDriverStop bus m a s)
  | limitTriggers m a, s => (readLimitTriggers bus fuel m a s).map Prod.snd
  | currentEstimate m a, s => (readCurrentEstimate bus fuel m a s).map Prod.snd
  | disableAll, s => .ok (i2cDisableAllChannels bus I2C_MUX_ADDRESS s)

def target : MotorOp → Option (UInt8 × UInt8)
  | init m a | regControl m a _ | variableMotion m a _ _ | setMotion m a _ _ |
    defaultMotion m a _ _ | stop m a | limitTriggers m a | currentEstimate m a => some (m, a)
  | disableAll => none

def writes : MotorOp → List (UInt8 × UInt8)
  | init _ _ => [(0x02, 0x00), (0x03, 0x80), (0x04, 0x00), (0x07, 0x55)]
  | regControl _ _ true => [(0x08, 0x15), (0x08, 0x05)]
  | regControl _ _ false => [(0x08, 0x00)]
  | variableMotion _ _ speed direction =>
    [(0x05, 255 - speed), (0x07, if direction then 0xC4 else 0xD1)]
  | setMotion _ _ one two => [(0x03, 255 - one), (0x05, 255 - two)]
  | defaultMotion _ _ level direction => [(0x07, defaultMotionValue level direction)]
  | stop _ _ => [(0x07, 0x55)]
  | limitTriggers _ _ | currentEstimate _ _ | disableAll => []

def reads : MotorOp → Option UInt8
  | limitTriggers _ _ => some 0x00
  | currentEstimate _ _ => some 0x01
  | _ => none

end MotorOp

def Motor.send (i2cAddr : UInt8) (writes : List (UInt8 × UInt8)) (s : Motor σ) : Motor σ :=
  writes.foldl (fun s (register, value) => s.wr bus i2cAddr register value) s

/-- What a call does after its channel selection. -/
def MotorOp.access (fuel : Nat) (op : MotorOp) (i2cAddr : UInt8) (s : Motor σ) :
    Except Stuck (Motor σ) :=
  match op.reads with
  | none => .ok (s.send bus i2cAddr op.writes)
  | some register => (i2cRd bus fuel i2cAddr register s.wire).map fun r => { s with wire := r.2 }

/-- Every call that names a driver selects its channel and then only accesses its registers. -/
theorem MotorOp.exec_eq (fuel : Nat) {op : MotorOp} {m a : UInt8} (ht : op.target = some (m, a))
    (s : Motor σ) :
    op.exec bus fuel s = op.access bus fuel a (i2cSelectChannel bus I2C_MUX_ADDRESS m s) := by
  cases op with
  | disableAll => cases ht
  | limitTriggers =>
    cases ht
    simp only [exec, access, reads, readLimitTriggers]
    cases i2cRd bus fuel a 0x00 (i2cSelectChannel bus I2C_MUX_ADDRESS m s).wire <;> rfl
  | currentEstimate =>
    cases ht
    simp only [exec, access, reads, readCurrentEstimate]
    cases i2cRd bus fuel a 0x01 (i2cSelectChannel bus I2C_MUX_ADDRESS m s).wire <;> rfl
  | regControl _ _ enable => cases ht; cases enable <;> rfl
  | variableMotion _ _ _ direction => cases ht; cases direction <;> rfl
  | init | setMotion | defaultMotion | stop => cases ht; rfl

/-- The driver sends a byte when its register `register` is read after the channel selection. -/
def Answers (muxChannel i2cAddr register : UInt8) (s : Motor σ) : Prop :=
  (requested bus i2cAddr register (i2cSelectChannel bus I2C_MUX_ADDRESS muxChannel s).wire).1 ≠ []

theorem MotorOp.target_eq_none {op : MotorOp} : op.target = none ↔ op = disableAll := by
  cases op <;> simp [target]

/-- A call gets stuck exactly when it reads a register that the driver does not send. -/
theorem MotorOp.exec_error_iff (fuel : Nat) (op : MotorOp) (s : Motor σ) (e : Stuck) :
    op.exec bus fuel s = .error e ↔ e = .waiting ∧ ∃ m a r,
      op.target = some (m, a) ∧ op.reads = some r ∧ ¬ Answers bus m a r s := by
  cases ht : op.target with
  | none =>
    obtain rfl := MotorOp.target_eq_none.mp ht
    simp [exec]
  | some target =>
    obtain ⟨m, a⟩ := target
    rw [MotorOp.exec_eq bus fuel ht, access]
    cases hr : op.reads with
    | none => simp
    | some r =>
      have hanswer : (∃ m' a' r', some (m, a) = some (m', a') ∧ some r = some r' ∧
          ¬ Answers bus m' a' r' s) ↔ ¬ Answers bus m a r s := by
        constructor
        · rintro ⟨m', a', r', ht', hr', hn⟩
          cases ht'
          cases hr'
          exact hn
        · intro hn
          exact ⟨m, a, r, rfl, rfl, hn⟩
      rw [hanswer, Answers]
      dsimp only
      rw [i2cRd_eq]
      cases (requested bus a r (i2cSelectChannel bus I2C_MUX_ADDRESS m s).wire).1 with
      | nil =>
        show Except.error Stuck.waiting = Except.error e ↔ _
        simp [eq_comm]
      | cons byte rest =>
        show Except.ok _ = Except.error e ↔ _
        simp

/-- Some number of turns of the polling loop is enough exactly when the driver answers. -/
theorem MotorOp.exec_returns_iff (op : MotorOp) (s : Motor σ) :
    (∃ fuel t, op.exec bus fuel s = .ok t) ↔
      ∀ m a r, op.target = some (m, a) → op.reads = some r → Answers bus m a r s := by
  constructor
  · rintro ⟨fuel, t, hexec⟩ m a r ht hr
    by_contra hn
    have hstuck : op.exec bus fuel s = .error .waiting :=
      (exec_error_iff bus fuel op s .waiting).mpr ⟨rfl, m, a, r, ht, hr, hn⟩
    rw [hexec] at hstuck
    cases hstuck
  · intro h
    cases hexec : op.exec bus 0 s with
    | ok t => exact ⟨0, t, hexec⟩
    | error e =>
      obtain ⟨-, m, a, r, ht, hr, hn⟩ := (exec_error_iff bus 0 op s e).mp hexec
      exact absurd (h m a r ht hr) hn

end QuadBot
