import Mathlib.Data.UInt

/-! The firmware's use of the SPI bus and of the multiplexer in front of it, `SPI_MUX.cpp`. The
pins, the SPI library and the devices are a parameter, an `SpiBus`. The delays and the settings of
the SPI transactions are left out. -/

namespace QuadBot

/-- The output pins to the multiplexer. -/
inductive Pin
  | STROBE
  | CS_1
  | CS_2
  | CS_3
  | CS_4
  | INHIBIT
  deriving DecidableEq, Repr

/-- The pins and the SPI bus, with all that is wired to them in the state `σ`. -/
structure SpiBus (σ : Type) where
  /-- `digitalWrite`, `true` for HIGH. -/
  digitalWrite : σ → Pin → Bool → σ
  /-- `SPI.transfer`: the byte received for a byte sent. -/
  transfer : σ → UInt8 → UInt8 × σ

/-- The firmware's state for the encoders: `MUX_channel`, `offsets`, the bus, and the error messages
printed so far. -/
structure Encoders (σ : Type) where
  muxChannel : UInt8
  offsets : Vector UInt16 16
  spi : σ
  errors : List String

variable {σ : Type} (bus : SpiBus σ)

namespace Encoders

def digitalWrite (pin : Pin) (level : Bool) (s : Encoders σ) : Encoders σ :=
  { s with spi := bus.digitalWrite s.spi pin level }

def transfer (byte : UInt8) (s : Encoders σ) : UInt8 × Encoders σ :=
  let (received, spi) := bus.transfer s.spi byte
  (received, { s with spi })

end Encoders

def spiCsMux (newChannel : UInt8) (s : Encoders σ) : Encoders σ :=
  if newChannel > 15 then
    { s with errors := s.errors ++
        ["Error: Invalid channel requested! Must be between 0 and 15"] }
  else
    let s := { s with muxChannel := newChannel }
    let s := s.digitalWrite bus .CS_1 (s.muxChannel &&& 0x01 ≠ 0)
    let s := s.digitalWrite bus .CS_2 ((s.muxChannel >>> 1) &&& 0x01 ≠ 0)
    let s := s.digitalWrite bus .CS_3 ((s.muxChannel >>> 2) &&& 0x01 ≠ 0)
    s.digitalWrite bus .CS_4 ((s.muxChannel >>> 3) &&& 0x01 ≠ 0)

/-- A rejected channel number does not keep the multiplexer from being strobed and enabled. -/
def activateMux (spiChannel : UInt8) (s : Encoders σ) : Encoders σ :=
  let s := spiCsMux bus spiChannel s
  let s := s.digitalWrite bus .STROBE true
  let s := s.digitalWrite bus .STROBE false
  s.digitalWrite bus .INHIBIT false

def deactivateMux (s : Encoders σ) : Encoders σ := s.digitalWrite bus .INHIBIT true

/-- The variables at power-on. -/
def bootEncoders (spi : σ) : Encoders σ where
  muxChannel := 0
  offsets := Vector.replicate 16 0
  spi
  errors := []

/-! ### The multiplexer touches no offset -/

theorem spiCsMux_offsets (newChannel : UInt8) (s : Encoders σ) :
    (spiCsMux bus newChannel s).offsets = s.offsets := by
  unfold spiCsMux
  split <;> rfl

theorem activateMux_offsets (spiChannel : UInt8) (s : Encoders σ) :
    (activateMux bus spiChannel s).offsets = s.offsets :=
  spiCsMux_offsets bus spiChannel s

/-! ### Channel numbers -/

theorem not_rejected {channel : UInt8} (h : channel.toNat < 16) : ¬ channel > 15 := by
  intro hgt
  have hnat : 15 < channel.toNat := UInt8.lt_iff_toNat_lt.mp hgt
  omega

theorem lt_of_not_rejected {channel : UInt8} (h : ¬ channel > 15) : channel.toNat < 16 := by
  have hle : channel.toNat ≤ (15 : UInt8).toNat := UInt8.le_iff_toNat_le.mp (UInt8.not_lt.mp h)
  exact Nat.lt_succ_of_le hle

end QuadBot
