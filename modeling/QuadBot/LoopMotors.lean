import QuadBot.LoopOps
import QuadBot.MotorInterleaved
import QuadBot.StopLine

/-! What the serial input does to the robot. `setup` leaves a stopped motor behind every channel,
and from then on the text on Serial acts on these motors as its lines say, through the interpreter,
the channel cache, the mux and the registers of the drivers. -/

namespace QuadBot

open Lts Routed

/-- The motors of the robot: channel, driver address. -/
abbrev Robot := Fin 8 → UInt8 → MotorView

namespace Robot

/-- A command changes the motor that it names. -/
def step (r : Robot) (op : MotorOp) : Robot := fun c a =>
  if op.driver = some (c, a) then (r c a).step op else r c a

def run (ops : List MotorOp) (r : Robot) : Robot := ops.foldl step r

/-- The motors after `motorDriverInit`, on drivers that hold `R` before it. -/
def started (R : Bank) : Robot := fun c a => .started (R c a)

theorem routes : Routes (fun r op => Function.uncurry (step (Function.curry r) op))
    MotorOp.driver MotorView.step where
  named := by
    rintro r op ⟨c, a⟩ h
    exact if_pos h
  frame := by
    rintro r op ⟨c, a⟩ h
    exact if_neg h

theorem run_apply (ops : List MotorOp) (r : Robot) (c : Fin 8) (a : UInt8) :
    r.run ops c a = (ownCommands c a ops).foldl MotorView.step (r c a) := by
  have hhom : Function.uncurry (r.run ops) =
      ops.foldl (fun r op => Function.uncurry (step (Function.curry r) op)) (Function.uncurry r) :=
    (List.foldl_hom Function.uncurry fun _ _ => rfl).symm
  have h := congrFun hhom (c, a)
  rw [routes.foldl_apply] at h
  exact h

end Robot

/-- The command sets a motor to a direction. -/
def MotorOp.Moves : MotorOp → Prop
  | variableMotion _ _ _ _ | defaultMotion _ _ _ _ => True
  | _ => False

theorem MotorView.stopped_foldl {ops : List MotorOp} (hops : ∀ op ∈ ops, ¬ op.Moves)
    {m : MotorView} (hm : m.mode = .stopped) : (ops.foldl step m).mode = .stopped := by
  induction ops generalizing m with
  | nil => exact hm
  | cons op ops ih =>
    apply ih
    · exact fun o ho => hops o (List.mem_cons_of_mem op ho)
    · have hop := hops op List.mem_cons_self
      cases op with
      | variableMotion | defaultMotion => exact absurd trivial hop
      | init | stop => rfl
      | setMotion | regControl | limitTriggers | currentEstimate | disableAll => exact hm

/-! ### The motors after `setup` -/

/-- The commands of `setup` for the motors. -/
def setupCommands : List MotorOp :=
  .disableAll :: ([0, 1, 2, 3, 4, 5, 6, 7].map fun m => .init m MOTOR_DRIVER_DEFAULT_ADDRESS)

theorem setupMotors_run (fuel : Nat) (s : Motor MotorBus) :
    Run (motorStep fuel) s setupCommands (setupMotors motorBus s) :=
  run_iff_foldlM.mpr rfl

theorem setupCommands_target : ∀ op ∈ setupCommands, ∀ m a, op.target = some (m, a) →
    ¬ 7 < m ∧ a = MOTOR_DRIVER_DEFAULT_ADDRESS := by
  intro op hop m a ht
  simp only [setupCommands, List.map_cons, List.map_nil, List.mem_cons, List.not_mem_nil,
    or_false] at hop
  rcases hop with rfl | rfl | rfl | rfl | rfl | rfl | rfl | rfl | rfl <;> cases ht <;>
    exact ⟨by decide, rfl⟩

theorem setupCommands_valid : ∀ op ∈ setupCommands, op.Valid := by
  intro op hop m a ht
  obtain ⟨hm, rfl⟩ := setupCommands_target op hop m a ht
  exact ⟨hm, by decide⟩

/-- Each driver at the default address gets its initialisation, and no other driver anything. -/
theorem own_setupCommands (c : Fin 8) (a : UInt8) : ownCommands c a setupCommands =
    if a = MOTOR_DRIVER_DEFAULT_ADDRESS then [.init (UInt8.ofNat c.val) a] else [] := by
  by_cases ha : a = MOTOR_DRIVER_DEFAULT_ADDRESS
  · subst ha
    rw [if_pos rfl]
    revert c
    decide
  · rw [if_neg ha, List.eq_nil_iff_forall_not_mem]
    intro op hop
    obtain ⟨hmem, hdriver⟩ := mem_own.mp hop
    exact ha (setupCommands_target op hmem _ a (MotorOp.driver_eq_some.mp hdriver)).2

/-- The registers after `setup`. -/
theorem setupMotors_reg {s : Motor MotorBus} (hs : s.wire.acks = acked) (c : Fin 8) (a : UInt8) :
    (setupMotors motorBus s).wire.reg c a =
      (ownCommands c a setupCommands).foldl MotorOp.apply (s.wire.reg c a) := by
  have hclosed := settled_disableAll hs
  have hvalid : ∀ op ∈ setupCommands.tail, op.Valid := fun op hop =>
    setupCommands_valid op (List.mem_of_mem_tail hop)
  obtain ⟨t, hrun, -, hbank⟩ := settled_run 0 hclosed hvalid
  obtain rfl : setupMotors motorBus s = t := Except.ok.inj (run_iff_foldlM.mp hrun)
  rw [hbank, bank_own]
  exact congrArg (List.foldl MotorOp.apply · _) (congrFun (congrFun (wrByte_reg 0x00 s.wire) c) a)

/-- After `setup` every driver at the default address shows a stopped motor, and no other driver has
changed. -/
theorem setupMotors_shows {s : Motor MotorBus} (hs : s.wire.acks = acked) (c : Fin 8) :
    (Robot.started s.wire.reg c MOTOR_DRIVER_DEFAULT_ADDRESS).Shows
        ((setupMotors motorBus s).wire.reg c MOTOR_DRIVER_DEFAULT_ADDRESS) ∧
      ∀ a, a ≠ MOTOR_DRIVER_DEFAULT_ADDRESS →
        (setupMotors motorBus s).wire.reg c a = s.wire.reg c a := by
  constructor
  · rw [setupMotors_reg hs, own_setupCommands, if_pos rfl]
    exact MotorView.started_shows (UInt8.ofNat c.val) MOTOR_DRIVER_DEFAULT_ADDRESS _
  · intro a ha
    rw [setupMotors_reg hs, own_setupCommands, if_neg ha]
    rfl

/-! ### Lines -/

/-- The lines do what their operations do. -/
theorem runLines_eq {σ : Type} (bus : Bus σ) (fuel : Nat) {lines : List (List Char)}
    (hwords : ∀ line ∈ lines, (firstWord (bufferedLine line)).length < 16) (motor : Motor σ) :
    runLines bus fuel lines motor =
      execAll bus fuel (lines.filterMap fun line => lineOp (bufferedLine line)) motor := by
  induction lines generalizing motor with
  | nil => rfl
  | cons line lines ih =>
    have hrest := fun motor => ih (fun l hl => hwords l (List.mem_cons_of_mem line hl)) motor
    have hsplit : (line :: lines).filterMap (fun line => lineOp (bufferedLine line)) =
        (lineOp (bufferedLine line)).toList ++
          lines.filterMap fun line => lineOp (bufferedLine line) := by
      rw [List.filterMap_cons]
      cases lineOp (bufferedLine line) <;> rfl
    rw [hsplit, execAll, List.foldlM_append, ← execAll,
      ← runLine_eq bus fuel motor (hwords line List.mem_cons_self)]
    exact bind_congr hrest

/-- Lines that `loop` gets through have first words that fit. -/
theorem words_fit {σ : Type} {bus : Bus σ} {fuel : Nat} {lines : List (List Char)}
    {motor motor' : Motor σ} (h : runLines bus fuel lines motor = .ok motor') :
    ∀ line ∈ lines, (firstWord (bufferedLine line)).length < 16 := by
  induction lines generalizing motor with
  | nil => simp
  | cons line lines ih =>
    rw [runLines, List.foldlM_cons] at h
    have hfit : (firstWord (bufferedLine line)).length < 16 := by
      by_contra hlong
      rw [runLine, interpret_eq, if_neg hlong] at h
      cases h
    cases hline : runLine bus fuel motor line with
    | error e => rw [hline] at h; cases h
    | ok m =>
      rw [hline] at h
      exact List.forall_mem_cons.mpr ⟨hfit, ih h⟩

/-- A stream that `loop` gets through does what its operations do. -/
theorem execAll_of_loop {σ : Type} {bus : Bus σ} {fuel : Nat} {chunks : List (List Char)}
    {motor : Motor σ} {s : Loop σ}
    (h : chunks.foldlM (fun s available => loop bus fuel available s) (startLoop motor) = .ok s) :
    execAll bus fuel (lineOps chunks.flatten) motor = .ok s.motor := by
  have hlines : Except.map _ _ = runLines bus fuel _ motor := startLoop_lines chunks motor
  rw [h] at hlines
  exact (runLines_eq bus fuel (words_fit hlines.symm) motor).symm.trans hlines.symm

/-- Operations on valid channels, once the cache is settled. -/
theorem execAll_settled (fuel : Nat) {s : Motor MotorBus} (hs : Settled s) {ops : List MotorOp}
    (hops : ∀ op ∈ ops, op.Valid) : ∃ t, execAll motorBus fuel ops s = .ok t ∧ Settled t ∧
      ∀ c a, t.wire.reg c a = (ownCommands c a ops).foldl MotorOp.apply (s.wire.reg c a) := by
  obtain ⟨t, hrun, ht, hbank⟩ := settled_run fuel hs hops
  refine ⟨t, run_iff_foldlM.mp hrun, ht, ?_⟩
  intro c a
  rw [hbank, bank_own]

/-- What the registers of the drivers show of the robot `r`, on drivers that held `R` before it was
started: its motors at the default address, and elsewhere what the commands have written. -/
structure Robot.ShownBy (r : Robot) (ops : List MotorOp) (R registers : Bank) : Prop where
  shows : ∀ c, (r c MOTOR_DRIVER_DEFAULT_ADDRESS).Shows (registers c MOTOR_DRIVER_DEFAULT_ADDRESS)
  others : ∀ c a, a ≠ MOTOR_DRIVER_DEFAULT_ADDRESS →
    registers c a = (ownCommands c a ops).foldl MotorOp.apply (R c a)

/-- From `setup` on the registers show the robot that the operations describe. -/
theorem robot_shown {motor : Motor MotorBus} (hacks : motor.wire.acks = acked)
    {ops : List MotorOp} {registers : Bank}
    (hreg : ∀ c a, registers c a =
      (ownCommands c a ops).foldl MotorOp.apply ((setupMotors motorBus motor).wire.reg c a)) :
    ((Robot.started motor.wire.reg).run ops).ShownBy ops motor.wire.reg registers := by
  constructor
  · intro c
    rw [hreg, Robot.run_apply]
    exact (setupMotors_shows hacks c).1.foldl _
  · intro c a ha
    rw [hreg, (setupMotors_shows hacks c).2 a ha]

/-- A motor that no command has moved since `setup` is off. -/
theorem Robot.ShownBy.off {R registers : Bank} {ops : List MotorOp}
    (h : ((Robot.started R).run ops).ShownBy ops R registers) {c : Fin 8}
    (hops : ∀ op ∈ ownCommands c MOTOR_DRIVER_DEFAULT_ADDRESS ops, ¬ op.Moves) :
    registers c MOTOR_DRIVER_DEFAULT_ADDRESS 0x07 = 0x55 := by
  have hmode := (h.shows c).mode
  rw [Robot.run_apply, MotorView.stopped_foldl hops rfl] at hmode
  exact hmode

/-- Over every byte stream after `setup`, cut into chunks in any way, everything acknowledged: where
the first words of its lines fit and its commands name channels of the mux and drivers other than
the mux, `loop` takes it all, and the registers of the drivers show the robot that the lines
describe. -/
theorem loop_shows_robot (fuel : Nat) {motor : Motor MotorBus} (hacks : motor.wire.acks = acked)
    {chunks : List (List Char)}
    (hwords : ∀ line ∈ completeLines chunks.flatten, (firstWord (bufferedLine line)).length < 16)
    (hvalid : ∀ op ∈ lineOps chunks.flatten, op.Valid) :
    ∃ s, chunks.foldlM (fun s available => loop motorBus fuel available s)
        (startLoop (setupMotors motorBus motor)) = .ok s ∧
      ((Robot.started motor.wire.reg).run (lineOps chunks.flatten)).ShownBy
        (lineOps chunks.flatten) motor.wire.reg s.motor.wire.reg := by
  obtain ⟨t, hexec, -, hreg⟩ := execAll_settled fuel (openAt_setupMotors hacks).settled hvalid
  have hlines := (runLines_eq motorBus fuel hwords (setupMotors motorBus motor)).trans hexec
  obtain ⟨s, hloop, rfl⟩ := exists_startLoop hlines
  exact ⟨s, hloop, robot_shown hacks hreg⟩

end QuadBot
