import QuadBot.Encoder
import QuadBot.Lib.Appended

/-! The pins to the multiplexer of the encoders over runs of calls. The multiplexer holds a channel
in a latch, which follows the chip-select pins while STROBE is HIGH, and drives the output of that
channel while INHIBIT is LOW. -/

namespace QuadBot

/-- The inputs of the multiplexer, `true` for HIGH, and the channel in its latch. -/
structure SpiMux where
  strobe : Bool
  cs1 : Bool
  cs2 : Bool
  cs3 : Bool
  cs4 : Bool
  inhibit : Bool
  latch : Nat

namespace SpiMux

/-- The channel on the chip-select pins. -/
def address (m : SpiMux) : Nat :=
  m.cs1.toNat + 2 * m.cs2.toNat + 4 * m.cs3.toNat + 8 * m.cs4.toNat

def setPin (pin : Pin) (level : Bool) (m : SpiMux) : SpiMux :=
  match pin with
  | .STROBE => { m with strobe := level }
  | .CS_1 => { m with cs1 := level }
  | .CS_2 => { m with cs2 := level }
  | .CS_3 => { m with cs3 := level }
  | .CS_4 => { m with cs4 := level }
  | .INHIBIT => { m with inhibit := level }

def follow (m : SpiMux) : SpiMux := if m.strobe then { m with latch := m.address } else m

@[simp] theorem follow_inhibit (m : SpiMux) : m.follow.inhibit = m.inhibit := by
  unfold follow
  split <;> rfl

theorem follow_of_low {m : SpiMux} (h : m.strobe = false) : m.follow = m := by
  rw [follow, h]
  rfl

end SpiMux

/-- What happens on the pins: a level is written, or a byte is transferred. -/
inductive PinEvent
  | write (before after : SpiMux)
  | transfer (mux : SpiMux)

/-- A call on the channel may do this: transfer with the channel latched and its output enabled,
and change the selection only while all outputs are off. -/
def PinEvent.Allowed (channel : Nat) : PinEvent → Prop
  | write before after =>
    before.address = after.address ∧ before.latch = after.latch ∨
      before.inhibit = true ∧ after.inhibit = true
  | transfer mux => mux.inhibit = false ∧ mux.strobe = false ∧ mux.latch = channel

/-- The multiplexer, the bytes that the encoders will return, and what has happened so far. -/
structure MuxBus where
  mux : SpiMux
  bytes : Stream' UInt8
  log : List PinEvent

def muxBus : SpiBus MuxBus where
  digitalWrite b pin level :=
    let mux := (b.mux.setPin pin level).follow
    { b with mux, log := b.log ++ [.write b.mux mux] }
  transfer b _ :=
    (b.bytes.head, { b with bytes := b.bytes.tail, log := b.log ++ [.transfer b.mux] })

/-- The levels that `setup` writes to the pins of the multiplexer. -/
def setupPins {σ : Type} (bus : SpiBus σ) (s : Encoders σ) : Encoders σ :=
  let s := s.digitalWrite bus .STROBE false
  let s := s.digitalWrite bus .CS_1 false
  let s := s.digitalWrite bus .CS_2 false
  let s := s.digitalWrite bus .CS_3 false
  let s := s.digitalWrite bus .CS_4 false
  s.digitalWrite bus .INHIBIT true

/-- Between calls all outputs are off and the latch holds. -/
structure Idle (s : Encoders MuxBus) : Prop where
  inhibit : s.spi.mux.inhibit = true
  strobe : s.spi.mux.strobe = false

/-- The output of a channel is enabled and stays selected. -/
structure Selected (channel : Nat) (s : Encoders MuxBus) : Prop where
  inhibit : s.spi.mux.inhibit = false
  strobe : s.spi.mux.strobe = false
  latch : s.spi.mux.latch = channel

/-! ### Single writes and transfers -/

section

variable {c : Nat} {s : Encoders MuxBus}

/-- While all outputs are off the selection may change. -/
theorem write_inhibited (hs : s.spi.mux.inhibit = true) {pin : Pin} (hpin : pin ≠ .INHIBIT)
    (level : Bool) : (s.digitalWrite muxBus pin level).spi.mux.inhibit = true ∧
      Appended (PinEvent.Allowed c) s.spi.log (s.digitalWrite muxBus pin level).spi.log := by
  have hafter : (s.digitalWrite muxBus pin level).spi.mux.inhibit = true := by
    show (s.spi.mux.setPin pin level).follow.inhibit = true
    rw [SpiMux.follow_inhibit]
    cases pin with
    | INHIBIT => exact absurd rfl hpin
    | STROBE | CS_1 | CS_2 | CS_3 | CS_4 => exact hs
  have hallowed : PinEvent.Allowed c
      (.write s.spi.mux (s.digitalWrite muxBus pin level).spi.mux) := Or.inr ⟨hs, hafter⟩
  exact ⟨hafter, .single hallowed s.spi.log⟩

/-- Between calls a chip-select pin only changes itself. -/
theorem write_cs (hs : Idle s) (pin : Pin) (hstrobe : pin ≠ .STROBE) (hinhibit : pin ≠ .INHIBIT)
    (level : Bool) : Idle (s.digitalWrite muxBus pin level) ∧
      (s.digitalWrite muxBus pin level).spi.mux = s.spi.mux.setPin pin level ∧
      Appended (PinEvent.Allowed c) s.spi.log (s.digitalWrite muxBus pin level).spi.log := by
  have hlow : (s.spi.mux.setPin pin level).strobe = false := by
    cases pin with
    | STROBE => exact absurd rfl hstrobe
    | CS_1 | CS_2 | CS_3 | CS_4 | INHIBIT => exact hs.strobe
  have hmux : (s.digitalWrite muxBus pin level).spi.mux = s.spi.mux.setPin pin level :=
    SpiMux.follow_of_low hlow
  obtain ⟨hafter, hlog⟩ := write_inhibited hs.inhibit hinhibit level
  refine ⟨⟨hafter, ?_⟩, hmux, hlog⟩
  rw [hmux, hlow]

/-- INHIBIT leaves the selection alone while the latch holds. -/
theorem write_inhibit (hs : s.spi.mux.strobe = false) (level : Bool) :
    (s.digitalWrite muxBus .INHIBIT level).spi.mux = { s.spi.mux with inhibit := level } ∧
      Appended (PinEvent.Allowed c) s.spi.log
        (s.digitalWrite muxBus .INHIBIT level).spi.log := by
  have hmux : (s.digitalWrite muxBus .INHIBIT level).spi.mux =
      { s.spi.mux with inhibit := level } := SpiMux.follow_of_low hs
  have hallowed : PinEvent.Allowed c
      (.write s.spi.mux (s.digitalWrite muxBus .INHIBIT level).spi.mux) := by
    left
    rw [hmux]
    exact ⟨rfl, rfl⟩
  exact ⟨hmux, .single hallowed s.spi.log⟩

theorem transfer_selected (hs : Selected c s) (byte : UInt8) :
    Selected c (s.transfer muxBus byte).2 ∧
      Appended (PinEvent.Allowed c) s.spi.log (s.transfer muxBus byte).2.spi.log :=
  ⟨⟨hs.inhibit, hs.strobe, hs.latch⟩, .single ⟨hs.inhibit, hs.strobe, hs.latch⟩ s.spi.log⟩

end

/-! ### Activation -/

theorem channel_bits : ∀ c : Fin 16,
    (decide (UInt8.ofNat c.val &&& 0x01 ≠ 0)).toNat +
      2 * (decide ((UInt8.ofNat c.val >>> 1) &&& 0x01 ≠ 0)).toNat +
      4 * (decide ((UInt8.ofNat c.val >>> 2) &&& 0x01 ≠ 0)).toNat +
      8 * (decide ((UInt8.ofNat c.val >>> 3) &&& 0x01 ≠ 0)).toNat = c.val := by
  decide

section

variable {channel : UInt8} {s : Encoders MuxBus}

theorem spiCsMux_idle (h : channel.toNat < 16) (hs : Idle s) (c : Nat) :
    Idle (spiCsMux muxBus channel s) ∧
      (spiCsMux muxBus channel s).spi.mux.address = channel.toNat ∧
      Appended (PinEvent.Allowed c) s.spi.log (spiCsMux muxBus channel s).spi.log := by
  have hbits := channel_bits ⟨channel.toNat, h⟩
  simp only [UInt8.ofNat_toNat] at hbits
  unfold spiCsMux
  rw [if_neg (not_rejected h)]
  have hidle : Idle { s with muxChannel := channel } := ⟨hs.inhibit, hs.strobe⟩
  obtain ⟨hidle₁, hmux₁, hlog₁⟩ := write_cs (c := c) hidle .CS_1 (by decide) (by decide)
    (channel &&& 0x01 ≠ 0)
  obtain ⟨hidle₂, hmux₂, hlog₂⟩ := write_cs (c := c) hidle₁ .CS_2 (by decide) (by decide)
    ((channel >>> 1) &&& 0x01 ≠ 0)
  obtain ⟨hidle₃, hmux₃, hlog₃⟩ := write_cs (c := c) hidle₂ .CS_3 (by decide) (by decide)
    ((channel >>> 2) &&& 0x01 ≠ 0)
  obtain ⟨hidle₄, hmux₄, hlog₄⟩ := write_cs (c := c) hidle₃ .CS_4 (by decide) (by decide)
    ((channel >>> 3) &&& 0x01 ≠ 0)
  refine ⟨hidle₄, ?_, hlog₁.trans (hlog₂.trans (hlog₃.trans hlog₄))⟩
  refine Eq.trans (congrArg SpiMux.address hmux₄) ?_
  rw [hmux₃, hmux₂, hmux₁]
  exact hbits

/-- The channel is on the pins before STROBE goes HIGH, so the latch takes it. -/
theorem activateMux_selects (h : channel.toNat < 16) (hs : Idle s) :
    Selected channel.toNat (activateMux muxBus channel s) ∧
      Appended (PinEvent.Allowed channel.toNat) s.spi.log
        (activateMux muxBus channel s).spi.log := by
  obtain ⟨hidle, haddress, hlog⟩ := spiCsMux_idle h hs channel.toNat
  obtain ⟨hhigh, hlog₁⟩ := write_inhibited (c := channel.toNat) hidle.inhibit
    (by decide : Pin.STROBE ≠ .INHIBIT) true
  obtain ⟨hlow, hlog₂⟩ := write_inhibited (c := channel.toNat) hhigh
    (by decide : Pin.STROBE ≠ .INHIBIT) false
  obtain ⟨hmux, hlog₃⟩ := write_inhibit (c := channel.toNat)
    (s := ((spiCsMux muxBus channel s).digitalWrite muxBus .STROBE true).digitalWrite muxBus
      .STROBE false) rfl false
  refine ⟨⟨congrArg SpiMux.inhibit hmux, congrArg SpiMux.strobe hmux, ?_⟩,
    hlog.trans (hlog₁.trans (hlog₂.trans hlog₃))⟩
  exact (congrArg SpiMux.latch hmux).trans haddress

theorem deactivateMux_idle {c : Nat} (hs : Selected c s) : Idle (deactivateMux muxBus s) ∧
    Appended (PinEvent.Allowed c) s.spi.log (deactivateMux muxBus s).spi.log := by
  obtain ⟨hmux, hlog⟩ := write_inhibit (c := c) hs.strobe true
  exact ⟨⟨congrArg SpiMux.inhibit hmux, (congrArg SpiMux.strobe hmux).trans hs.strobe⟩, hlog⟩

/-! ### Calls -/

theorem transferAll_selected {c : Nat} (hs : Selected c s) (bytes : List UInt8) :
    Selected c (transferAll muxBus bytes s) ∧
      Appended (PinEvent.Allowed c) s.spi.log (transferAll muxBus bytes s).spi.log := by
  induction bytes generalizing s with
  | nil => exact ⟨hs, .refl s.spi.log⟩
  | cons byte bytes ih =>
    obtain ⟨hselected, hlog⟩ := transfer_selected hs byte
    obtain ⟨hselected', hlog'⟩ := ih hselected
    exact ⟨hselected', hlog.trans hlog'⟩

theorem exchangeBytes_pins (h : channel.toNat < 16) (hs : Idle s) (bytes : List UInt8) :
    Idle (exchangeBytes muxBus channel bytes s) ∧
      Appended (PinEvent.Allowed channel.toNat) s.spi.log
        (exchangeBytes muxBus channel bytes s).spi.log := by
  obtain ⟨hselected, hlog⟩ := activateMux_selects h hs
  obtain ⟨hselected', hlog'⟩ := transferAll_selected hselected bytes
  obtain ⟨hidle, hlog''⟩ := deactivateMux_idle hselected'
  exact ⟨hidle, hlog.trans (hlog'.trans hlog'')⟩

end

/-- One call: from an idle state to an idle state, with nothing but allowed events between. -/
theorem exec_pins {op : EncoderOp} (hop : op.channel.toNat < 16) {s : Encoders MuxBus}
    (hs : Idle s) : Idle (op.exec muxBus s) ∧
      Appended (PinEvent.Allowed op.channel.toNat) s.spi.log (op.exec muxBus s).spi.log := by
  cases op with
  | position channel =>
    have hexec : (EncoderOp.position channel).exec muxBus s =
        (readRawPosition muxBus channel s).2 := (readEncoderPosition_eq muxBus hop s).2
    rw [hexec, readRawPosition_state]
    exact exchangeBytes_pins hop hs _
  | turns channel =>
    rw [EncoderOp.exec, readTurns_state]
    exact exchangeBytes_pins hop hs _
  | reset channel =>
    have h : channel.toNat < 16 := hop
    obtain ⟨hidle, hlog⟩ := exchangeBytes_pins h hs [0x00, 0x60]
    have hcleared : Idle (clearedOffset muxBus h s) := ⟨hidle.inhibit, hidle.strobe⟩
    obtain ⟨hidle', hlog'⟩ := exchangeBytes_pins h hcleared [0x00, 0x00]
    rw [EncoderOp.exec, resetEncoder_accepted muxBus h]
    exact ⟨⟨hidle'.inhibit, hidle'.strobe⟩, hlog.trans hlog'⟩

theorem run_idle {ops : List EncoderOp} (hops : ∀ op ∈ ops, op.channel.toNat < 16)
    {s : Encoders MuxBus} (hs : Idle s) : Idle (runEncoders muxBus ops s) := by
  induction ops generalizing s with
  | nil => exact hs
  | cons op ops ih =>
    apply ih
    · intro op' hmem
      exact hops op' (List.mem_cons_of_mem op hmem)
    · exact (exec_pins (hops op List.mem_cons_self) hs).1

theorem setupPins_idle (s : Encoders MuxBus) : Idle (setupPins muxBus s) := ⟨rfl, rfl⟩

/-- Over every run of calls after `setup`, whatever the latch held at power-on: between calls all
outputs are off, and a call transfers only with its own channel latched and enabled, and changes the
selection only while all outputs are off. -/
theorem encoder_pins (b : MuxBus) (ops : List EncoderOp)
    (hops : ∀ op ∈ ops, op.channel.toNat < 16) {s : Encoders MuxBus}
    (hs : s = runEncoders muxBus ops (setupPins muxBus (bootEncoders b))) :
    s.spi.mux.inhibit = true ∧ ∀ op : EncoderOp, op.channel.toNat < 16 →
      ∃ new, (op.exec muxBus s).spi.log = s.spi.log ++ new ∧
        ∀ e ∈ new, e.Allowed op.channel.toNat := by
  have hidle : Idle s := by
    rw [hs]
    exact run_idle hops (setupPins_idle _)
  refine ⟨hidle.inhibit, ?_⟩
  intro op hop
  exact (exec_pins hop hidle).2

theorem encoder_pins_turns_after_reset : ∃ new,
    ((EncoderOp.turns 5).exec muxBus (runEncoders muxBus [.reset 3, .position 12]
      (setupPins muxBus (bootEncoders
        ⟨⟨true, false, true, true, false, false, 7⟩, Stream'.const 0xA7, []⟩)))).spi.log =
      (runEncoders muxBus [.reset 3, .position 12] (setupPins muxBus (bootEncoders
        ⟨⟨true, false, true, true, false, false, 7⟩, Stream'.const 0xA7, []⟩))).spi.log ++ new ∧
    ∀ e ∈ new, e.Allowed 5 := by
  have hops : ∀ op ∈ [EncoderOp.reset 3, .position 12], op.channel.toNat < 16 := by decide
  exact (encoder_pins ⟨⟨true, false, true, true, false, false, 7⟩, Stream'.const 0xA7, []⟩
    [.reset 3, .position 12] hops rfl).2 (.turns 5) (by decide)

end QuadBot
