import QuadBot.MotorRuns

/-! What the registers of a driver mean: a motor that is stopped, or set to a direction at one of
the chip's two speeds, at full or off. The commands do to the registers what they are named for. -/

namespace QuadBot

open Lts

/-- What drives the active half bridge. -/
inductive Drive
  | full
  | pwm1
  | pwm0
  | off
  deriving DecidableEq, Repr

inductive Mode
  | stopped
  | set (drive : Drive) (forward : Bool)
  deriving DecidableEq, Repr

/-- A motor as its commands describe it. -/
structure MotorView where
  mode : Mode
  pwm0 : UInt8
  pwm1 : UInt8

/-! ### Codes -/

def Drive.bits : Drive → UInt8
  | full => 0x00
  | pwm1 => 0xC0
  | pwm0 => 0x80
  | off => 0x40

def stopCode : UInt8 := 0x15

def forwardCode : UInt8 := 0x04

def reverseCode : UInt8 := 0x11

/-- The register 0x07 in a mode. A stopped motor is off as well. -/
def Mode.code : Mode → UInt8
  | stopped => Drive.off.bits ||| stopCode
  | set drive forward => drive.bits ||| if forward then forwardCode else reverseCode

example : Mode.stopped.code = 0x55 := rfl

/-- The registers of a driver hold what the view says. -/
structure MotorView.Shows (m : MotorView) (registers : UInt8 → UInt8) : Prop where
  mode : registers 0x07 = m.mode.code
  pwm0 : registers 0x03 = 255 - m.pwm0
  pwm1 : registers 0x05 = 255 - m.pwm1

/-- The drive of a level of `defaultMotionControl`. -/
def levelDrive (speedLevel : UInt8) : Drive :=
  if speedLevel = 3 then .full
  else if speedLevel = 2 then .pwm1
  else if speedLevel = 1 then .pwm0
  else .off

namespace MotorView

def step (m : MotorView) : MotorOp → MotorView
  | .init _ _ => { m with mode := .stopped, pwm0 := 127 }
  | .stop _ _ => { m with mode := .stopped }
  | .variableMotion _ _ speed direction => { m with mode := .set .pwm1 direction, pwm1 := speed }
  | .defaultMotion _ _ level direction => { m with mode := .set (levelDrive level) direction }
  | .setMotion _ _ speedOne speedTwo => { m with pwm0 := speedOne, pwm1 := speedTwo }
  | .regControl _ _ _ | .limitTriggers _ _ | .currentEstimate _ _ | .disableAll => m

/-- The view right after `motorDriverInit`, which leaves the register 0x05 alone. -/
def started (registers : UInt8 → UInt8) : MotorView where
  mode := .stopped
  pwm0 := 127
  pwm1 := 255 - registers 0x05

theorem defaultMotionValue_eq (speedLevel : UInt8) (direction : Bool) :
    defaultMotionValue speedLevel direction =
      (Mode.set (levelDrive speedLevel) direction).code := by
  unfold defaultMotionValue levelDrive
  by_cases h3 : speedLevel = 3
  · subst h3
    cases direction <;> rfl
  · by_cases h2 : speedLevel = 2
    · subst h2
      cases direction <;> rfl
    · by_cases h1 : speedLevel = 1
      · subst h1
        cases direction <;> rfl
      · simp only [h3, h2, h1, if_false]
        cases direction <;> rfl

/-- Never both half bridges of a motor are driven. -/
theorem code_low_bits (mode : Mode) :
    mode.code &&& 0x3F = stopCode ∨ mode.code &&& 0x3F = forwardCode ∨
      mode.code &&& 0x3F = reverseCode := by
  cases mode with
  | stopped => exact Or.inl rfl
  | set drive forward =>
    right
    cases forward
    · right
      cases drive <;> rfl
    · left
      cases drive <;> rfl

end MotorView

/-! ### Commands on the registers -/

/-- The writes of a command on the registers of its driver. -/
def applyWrites (ws : List (UInt8 × UInt8)) (registers : UInt8 → UInt8) : UInt8 → UInt8 :=
  ws.foldl (fun registers w r => if r = w.1 then w.2 else registers r) registers

theorem foldl_write_self (c : Fin 8) (a : UInt8) (ws : List (UInt8 × UInt8)) (R : Bank) :
    ws.foldl (Bank.write c a) R c a = applyWrites ws (R c a) := by
  induction ws generalizing R with
  | nil => rfl
  | cons w ws ih =>
    rw [List.foldl_cons, ih]
    apply congrArg
    funext r
    simp [Bank.write]

theorem exec_self {op : MotorOp} {c : Fin 8} {a : UInt8}
    (ht : op.target = some (UInt8.ofNat c.val, a)) (R : Bank) :
    Bank.exec op R c a = applyWrites op.writes (R c a) := by
  rw [Bank.exec_channel ht, foldl_write_self]

namespace MotorView

variable {m : MotorView} {registers : UInt8 → UInt8}

theorem init_pwm0 : (0x80 : UInt8) = 255 - 127 := by decide

/-- Whatever the registers held, a motor is stopped after `motorDriverInit`. -/
theorem started_shows (muxChannel i2cAddr : UInt8) (registers : UInt8 → UInt8) :
    (started registers).Shows
      (applyWrites (MotorOp.init muxChannel i2cAddr).writes registers) := by
  constructor
  · rfl
  · exact init_pwm0
  · show registers 0x05 = 255 - (255 - registers 0x05)
    simp

theorem shows_step (h : m.Shows registers) (op : MotorOp) :
    (m.step op).Shows (applyWrites op.writes registers) := by
  cases op with
  | init => exact ⟨rfl, init_pwm0, h.pwm1⟩
  | stop => exact ⟨rfl, h.pwm0, h.pwm1⟩
  | variableMotion _ _ speed direction =>
    cases direction
    · exact ⟨rfl, h.pwm0, rfl⟩
    · exact ⟨rfl, h.pwm0, rfl⟩
  | defaultMotion _ _ level direction =>
    exact ⟨defaultMotionValue_eq level direction, h.pwm0, h.pwm1⟩
  | setMotion => exact ⟨h.mode, rfl, rfl⟩
  | regControl _ _ enable =>
    cases enable
    · exact ⟨h.mode, h.pwm0, h.pwm1⟩
    · exact ⟨h.mode, h.pwm0, h.pwm1⟩
  | limitTriggers | currentEstimate | disableAll => exact ⟨h.mode, h.pwm0, h.pwm1⟩

theorem Shows.low_bits (h : m.Shows registers) :
    registers 0x07 &&& 0x3F = stopCode ∨ registers 0x07 &&& 0x3F = forwardCode ∨
      registers 0x07 &&& 0x3F = reverseCode := by
  rw [h.mode]
  exact code_low_bits m.mode

end MotorView

/-! ### Runs -/

section

variable {c : Fin 8} {a : UInt8}

/-- On directly addressed drivers the commands of a driver act on its view. -/
theorem bank_shows {m : MotorView} {R : Bank} (h : m.Shows (R c a)) {ops : List MotorOp}
    (hops : ∀ op ∈ ops, op.target = some (UInt8.ofNat c.val, a)) :
    (ops.foldl MotorView.step m).Shows (ops.foldl (fun R op => Bank.exec op R) R c a) := by
  induction ops generalizing m R with
  | nil => exact h
  | cons op ops ih =>
    apply ih
    · show (m.step op).Shows (Bank.exec op R c a)
      rw [exec_self (hops op List.mem_cons_self)]
      exact MotorView.shows_step h op
    · intro op' hmem
      exact hops op' (List.mem_cons_of_mem op hmem)

/-- The first command of a run finds a cache that is coherent, and settles it. -/
theorem coherent_step_acked (fuel : Nat) {s : Motor MotorBus} {op : MotorOp}
    (hacks : s.wire.acks = acked) (hs : Coherent s)
    (ht : op.target = some (UInt8.ofNat c.val, a)) (ha : a ≠ I2C_MUX_ADDRESS) :
    ∃ t, motorStep fuel s op t ∧ Settled t ∧ t.wire.reg = Bank.exec op s.wire.reg := by
  obtain ⟨hcur, hiff⟩ := coherent_select hs c
  have hcontrol := hiff.mpr (Or.inr (Or.inl (by rw [hacks]; rfl)))
  obtain ⟨t, hacc, htacks, hreg⟩ := access_acked fuel op (select_acked hacks) hcontrol ha
  obtain ⟨hcur', hcontrol', -⟩ := access_spec ha hacc
  refine ⟨t, (MotorOp.exec_eq motorBus fuel ht s).trans hacc, ⟨htacks, Or.inr ⟨c, ?_, ?_⟩⟩, ?_⟩
  · rw [hcur', hcur]
  · rw [hcontrol', hcontrol]
  · rw [hreg, select_reg, Bank.exec_channel ht]

/-- Every run of commands on one driver that starts with `motorDriverInit`, everything acknowledged:
the registers of the driver show the motor that the commands describe. -/
theorem motor_shows_commands (fuel : Nat) {s : Motor MotorBus} (hacks : s.wire.acks = acked)
    (hs : Coherent s) (ha : a ≠ I2C_MUX_ADDRESS) {ops : List MotorOp}
    (hops : ∀ op ∈ ops, op.target = some (UInt8.ofNat c.val, a)) :
    ∃ t, Run (motorStep fuel) s (.init (UInt8.ofNat c.val) a :: ops) t ∧
      (ops.foldl MotorView.step (.started (s.wire.reg c a))).Shows (t.wire.reg c a) ∧
      (t.wire.reg c a 0x07 &&& 0x3F = stopCode ∨ t.wire.reg c a 0x07 &&& 0x3F = forwardCode ∨
        t.wire.reg c a 0x07 &&& 0x3F = reverseCode) := by
  have hinit : (MotorOp.init (UInt8.ofNat c.val) a).target = some (UInt8.ofNat c.val, a) := rfl
  obtain ⟨u, hstep, hu, hreg⟩ := coherent_step_acked fuel hacks hs hinit ha
  have hvalid : ∀ op ∈ ops, op.Valid := by
    intro op hop m b ht
    rw [hops op hop] at ht
    obtain ⟨rfl, rfl⟩ := Prod.mk.inj (Option.some.inj ht)
    exact ⟨channel_not_gt c, ha⟩
  obtain ⟨t, hrun, -, hbank⟩ := exists_run_refining Settled (·.wire.reg)
    (fun R op => Bank.exec op R) (fun _ _ hs hv => settled_step_bank fuel hs hv) hvalid hu
  have hstart : (MotorView.started (s.wire.reg c a)).Shows (u.wire.reg c a) := by
    rw [hreg, exec_self hinit]
    exact MotorView.started_shows _ _ _
  have hshows := bank_shows hstart hops
  rw [← hbank] at hshows
  exact ⟨t, .cons hstep hrun, hshows, hshows.low_bits⟩

end

/-- After a move, a level and new speeds, PWM1 runs the motor in reverse at the last speed. -/
theorem motor_shows_commands_reverse : ∃ t,
    Run (motorStep 0) (bootMotor acked) [.init 3 0x60, .variableMotion 3 0x60 10 true,
      .defaultMotion 3 0x60 2 false, .setMotion 3 0x60 20 200] t ∧
      t.wire.reg 3 0x60 0x07 = 0xD1 ∧ t.wire.reg 3 0x60 0x05 = 55 := by
  have hops : ∀ op ∈ [MotorOp.variableMotion 3 0x60 10 true, .defaultMotion 3 0x60 2 false,
      .setMotion 3 0x60 20 200], op.target = some (UInt8.ofNat (3 : Fin 8).val, 0x60) := by
    simp [MotorOp.target]
  obtain ⟨t, hrun, hshows, -⟩ := motor_shows_commands 0 (s := bootMotor acked) rfl (Or.inl rfl)
    (by decide) hops
  exact ⟨t, hrun, hshows.mode, hshows.pwm1⟩

end QuadBot
