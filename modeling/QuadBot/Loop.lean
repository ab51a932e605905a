import QuadBot.Libc
import QuadBot.MotorDriver

/-! The command interpreter of `main.cpp`: the line buffer that `loop` fills from Serial, and the
command that a complete line is. The progress messages printed on Serial are left out. -/

namespace QuadBot

open Libc

def MOTOR_DRIVER_DEFAULT_ADDRESS : UInt8 := 0x60

/-- What a line makes `loop` do, with the integers as `sscanf` stores them. -/
inductive Command
  | move (muxChannel chipAddress speed directionInt : Int)
  | stop (muxChannel chipAddress : Int)
  | defaultMove (muxChannel chipAddress speedLevel directionInt : Int)
  | setSpeeds (muxChannel chipAddress speedOne speedTwo : Int)
  | testA
  | testB
  | testC
  | testD
  | nothing
  deriving DecidableEq

/-- The integers stored, where `sscanf` with `n` integers returns `n + 1` and the word is `name`. -/
def scanned (name : String) (n : Nat) (line : List Char) : Option (List Int) :=
  match sscanf n line with
  | some (cmd, ints) => if ints.length = n ∧ cmd = name.toList then some ints else none
  | none => none

def commandOf (line : List Char) : Command :=
  match scanned "move" 4 line with
  | some [muxChannel, chipAddress, speed, directionInt] =>
    .move muxChannel chipAddress speed directionInt
  | _ =>
  match scanned "stop" 2 line with
  | some [muxChannel, chipAddress] => .stop muxChannel chipAddress
  | _ =>
  match scanned "defaultmove" 4 line with
  | some [muxChannel, chipAddress, speedLevel, directionInt] =>
    .defaultMove muxChannel chipAddress speedLevel directionInt
  | _ =>
  match scanned "setspeeds" 4 line with
  | some [muxChannel, chipAddress, speedOne, speedTwo] =>
    .setSpeeds muxChannel chipAddress speedOne speedTwo
  | _ =>
  if line = "abc".toList then .nothing
  else if line = "a".toList then .testA
  else if line = "b".toList then .testB
  else if line = "c".toList then .testC
  else if line = "d".toList then .testD
  else .nothing

/-- The bytes that `%s` stores in `cmd`, the terminating NUL included. Every `sscanf` of the chain
stores the same word. -/
def cmdBytes (line : List Char) : Nat :=
  match scanWord line with
  | some (word, _) => word.length + 1
  | none => 0

/-- The command of a line, where its first word fits in `char cmd[16]`. -/
def interpret (line : List Char) : Except Stuck Command :=
  if cmdBytes line ≤ 16 then .ok (commandOf line) else .error .cmd

/-- The motor operation of a command. The `int` arguments become `uint8_t` at the call. -/
def Command.op : Command → Option MotorOp
  | move muxChannel chipAddress speed directionInt =>
    some (.variableMotion (.ofInt muxChannel) (.ofInt chipAddress) (.ofInt speed)
      (directionInt ≠ 0))
  | stop muxChannel chipAddress => some (.stop (.ofInt muxChannel) (.ofInt chipAddress))
  | defaultMove muxChannel chipAddress speedLevel directionInt =>
    some (.defaultMotion (.ofInt muxChannel) (.ofInt chipAddress) (.ofInt speedLevel)
      (directionInt ≠ 0))
  | setSpeeds muxChannel chipAddress speedOne speedTwo =>
    some (.setMotion (.ofInt muxChannel) (.ofInt chipAddress) (.ofInt speedOne) (.ofInt speedTwo))
  | testA => some (.regControl 7 MOTOR_DRIVER_DEFAULT_ADDRESS false)
  | testB => some (.regControl 7 MOTOR_DRIVER_DEFAULT_ADDRESS true)
  | testC => some (.currentEstimate 7 MOTOR_DRIVER_DEFAULT_ADDRESS)
  | testD => some (.limitTriggers 7 MOTOR_DRIVER_DEFAULT_ADDRESS)
  | nothing => none

/-- The interpreter's state: `inputBuffer`, `inputPos` and the motors. -/
structure Loop (σ : Type) where
  inputBuffer : Vector Char 32
  inputPos : Nat
  motor : Motor σ

/-- The C string at the start of the buffer. -/
def cString (buffer : Vector Char 32) : List Char :=
  buffer.toList.takeWhile (· ≠ '\x00')

def store (buffer : Vector Char 32) (i : Nat) (c : Char) : Except Stuck (Vector Char 32) :=
  if h : i < 32 then .ok (buffer.set i c) else .error .inputBuffer

def isEol (c : Char) : Bool := c = '\n' || c = '\r'

section

variable {σ : Type} (bus : Bus σ) (fuel : Nat)

def Command.run (command : Command) (s : Motor σ) : Except Stuck (Motor σ) :=
  match command.op with
  | some op => op.exec bus fuel s
  | none => .ok s

def loopChar (s : Loop σ) (inChar : Char) : Except Stuck (Loop σ) :=
  if isEol inChar then do
    let inputBuffer ← store s.inputBuffer s.inputPos '\x00'
    let command ← interpret (cString inputBuffer)
    let motor ← command.run bus fuel s.motor
    let inputBuffer ← store inputBuffer 0 '\x00'
    return { inputBuffer, inputPos := 0, motor }
  else if s.inputPos < 32 - 1 then do
    let inputBuffer ← store s.inputBuffer s.inputPos inChar
    return { s with inputBuffer, inputPos := s.inputPos + 1 }
  else return s

/-- `loop`, with the characters available when it is called and while it runs. -/
def loop (available : List Char) (s : Loop σ) : Except Stuck (Loop σ) :=
  available.foldlM (loopChar bus fuel) s

end

def startLoop {σ : Type} (motor : Motor σ) : Loop σ where
  inputBuffer := Vector.replicate 32 '\x00'
  inputPos := 0
  motor

/-- The part of `setup` that concerns the motors. -/
def setupMotors {σ : Type} (bus : Bus σ) (s : Motor σ) : Motor σ :=
  let s := i2cDisableAllChannels bus I2C_MUX_ADDRESS s
  let channels : List UInt8 := [0, 1, 2, 3, 4, 5, 6, 7]
  channels.foldl (fun s m => motorDriverInit bus m MOTOR_DRIVER_DEFAULT_ADDRESS s) s

/-- What a line must be for `loop` to take it as the command. -/
def Command.SpelledBy (line : List Char) : Command → Prop
  | move muxChannel chipAddress speed directionInt =>
    scanned "move" 4 line = some [muxChannel, chipAddress, speed, directionInt]
  | stop muxChannel chipAddress => scanned "stop" 2 line = some [muxChannel, chipAddress]
  | defaultMove muxChannel chipAddress speedLevel directionInt =>
    scanned "defaultmove" 4 line = some [muxChannel, chipAddress, speedLevel, directionInt]
  | setSpeeds muxChannel chipAddress speedOne speedTwo =>
    scanned "setspeeds" 4 line = some [muxChannel, chipAddress, speedOne, speedTwo]
  | testA => line = "a".toList
  | testB => line = "b".toList
  | testC => line = "c".toList
  | testD => line = "d".toList
  | nothing => True

theorem spelledBy_of_commandOf {line : List Char} {command : Command}
    (h : commandOf line = command) : command.SpelledBy line := by
  subst h
  unfold commandOf
  repeat' split
  all_goals first
    | assumption
    | trivial

theorem commandOf_eq_testC (line : List Char) : commandOf line = .testC ↔ line = "c".toList := by
  constructor
  · exact spelledBy_of_commandOf
  · rintro rfl
    decide

theorem commandOf_eq_testD (line : List Char) : commandOf line = .testD ↔ line = "d".toList := by
  constructor
  · exact spelledBy_of_commandOf
  · rintro rfl
    decide

example : commandOf "  defaultmove 3 +96 2 -1 x".toList = .defaultMove 3 96 2 (-1) := by decide

end QuadBot
