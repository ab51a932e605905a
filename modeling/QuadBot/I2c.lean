import Mathlib.Data.Stream.Init
import Mathlib.Data.UInt

/-! The firmware's use of the first I2C bus: the register accesses of `I2C_FCT.cpp` and the channel
selection of `I2C_MUX.cpp`. The Wire library and the devices are a parameter, a `Bus`. Of the text
printed on Serial the error messages are kept. -/

namespace QuadBot

/-- Why the firmware does not get past a point: it waits in a loop that nothing ends, or it writes
past one of its arrays. -/
inductive Stuck
  | waiting
  | inputBuffer
  | cmd
  deriving DecidableEq

/-- An I2C bus as the Wire library shows it, with the devices on it in the state `σ`. -/
structure Bus (σ : Type) where
  /-- `endTransmission` with the bytes written since `beginTransmission`: whether the address and
  the bytes were acknowledged (the library's return value 0), and the devices afterwards. -/
  endTransmission : σ → UInt8 → List UInt8 → Bool × σ
  /-- `requestFrom`: the bytes left in the receive buffer, none where the address was not
  acknowledged, and the devices afterwards. -/
  requestFrom : σ → UInt8 → Nat → List UInt8 × σ

/-- The outcomes of transactions that are all acknowledged. -/
def acked : Stream' Bool := Stream'.const true

theorem acked_head : acked.head = true := rfl

theorem acked_tail : acked.tail = acked := rfl

variable {σ : Type} (bus : Bus σ)

/-! ### I2C_FCT.cpp -/

def i2cWrByte (chipAddress dataByte : UInt8) (wire : σ) : σ :=
  (bus.endTransmission wire chipAddress [dataByte]).2

def i2cWr (chipAddress registerAddress dataByte : UInt8) (wire : σ) : σ :=
  (bus.endTransmission wire chipAddress [registerAddress, dataByte]).2

/-- `while (!Wire.available()) {}` and `Wire.read()`. Nothing adds to the receive buffer while the
loop turns, so each unit of fuel is one more turn in the same state. -/
def waitRead : Nat → List UInt8 → Except Stuck UInt8
  | _, byte :: _ => .ok byte
  | 0, [] => .error .waiting
  | fuel + 1, [] => waitRead fuel []

def i2cRd (fuel : Nat) (chipAddress registerAddress : UInt8) (wire : σ) :
    Except Stuck (UInt8 × σ) := do
  let (_, wire) := bus.endTransmission wire chipAddress [registerAddress]
  let (received, wire) := bus.requestFrom wire chipAddress 1
  let byte ← waitRead fuel received
  return (byte, wire)

theorem waitRead_nil (fuel : Nat) : waitRead fuel [] = .error .waiting := by
  induction fuel with
  | zero => rfl
  | succ fuel ih => exact ih

@[simp] theorem waitRead_cons (fuel : Nat) (byte : UInt8) (rest : List UInt8) :
    waitRead fuel (byte :: rest) = .ok byte := by
  cases fuel <;> rfl

/-- What the receive buffer holds when `i2cRd` starts to wait, and the devices then. -/
def requested (chipAddress registerAddress : UInt8) (wire : σ) : List UInt8 × σ :=
  bus.requestFrom (bus.endTransmission wire chipAddress [registerAddress]).2 chipAddress 1

/-- `i2cRd` returns the first byte received, and waits for ever where there is none. -/
theorem i2cRd_eq (fuel : Nat) (chipAddress registerAddress : UInt8) (wire : σ) :
    i2cRd bus fuel chipAddress registerAddress wire =
      match (requested bus chipAddress registerAddress wire).1 with
      | [] => .error .waiting
      | byte :: _ => .ok (byte, (requested bus chipAddress registerAddress wire).2) := by
  unfold i2cRd requested
  dsimp only
  split
  · rename_i h
    rw [h, waitRead_nil]
    rfl
  · rename_i h
    rw [h, waitRead_cons]
    rfl

/-! ### I2C_MUX.cpp -/

def I2C_MUX_ADDRESS : UInt8 := 0x70

/-- The firmware's state for the motors: the channel that it takes to be open, -1 for none, the
bus, and the error messages printed so far. -/
structure Motor (σ : Type) where
  currentChannel : Int
  wire : σ
  errors : List String

/-- The message for a channel that the mux does not have. -/
def invalidChannel : String := "\nError: Invalid channel requested! Must be between 0 and 7."

def i2cSelectChannel (muxAddress channel : UInt8) (s : Motor σ) : Motor σ :=
  if 7 < channel then { s with errors := s.errors ++ [invalidChannel] }
  else if s.currentChannel = channel.toNat then s
  else
    let controlByte : UInt8 := 1 <<< channel
    -- The result of the write is not checked: the cache takes the channel in any case.
    { s with
      wire := i2cWrByte bus muxAddress controlByte s.wire
      currentChannel := channel.toNat }

def i2cDisableAllChannels (muxAddress : UInt8) (s : Motor σ) : Motor σ :=
  { s with
    wire := i2cWrByte bus muxAddress 0x00 s.wire
    currentChannel := -1 }

end QuadBot
