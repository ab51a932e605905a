import QuadBot.BmsCore
import QuadBot.EncoderPins
import QuadBot.Lib.Odometer

/-! The sixteen encoders behind the multiplexer, on shafts that turn between the calls. An encoder
sends the 12 bits of its position, or of its turn count, as the middle ones of 16, and sets the turn
count to 0 when it is rebooted. -/

namespace QuadBot

/-- How an encoder fills the 16 bits that it sends: the value in the middle, the bits around it its
own. -/
structure WordFormat where
  word : BitVec 12 → UInt16
  middle : ∀ value, ((word value >>> 2) &&& 0x0FFF).toNat = value.toNat

/-- An encoder, and the bytes that it has received since its output was enabled. -/
structure AbsoluteEncoder extends Odometer 12 12 where
  frame : List UInt8

namespace AbsoluteEncoder

/-- The next byte that it sends. -/
def reply (format : WordFormat) (e : AbsoluteEncoder) : UInt8 :=
  match e.frame with
  | [] => highByte (format.word e.raw)
  | [_] => lowByte (format.word e.raw)
  | [0x00, 0xA0] => highByte (format.word e.turns)
  | [0x00, 0xA0, _] => lowByte (format.word e.turns)
  | _ => 0x00

def enable (e : AbsoluteEncoder) : AbsoluteEncoder := { e with frame := [] }

/-- The bytes 0x00 and 0x60 are the reboot command. -/
def receive (e : AbsoluteEncoder) (byte : UInt8) : AbsoluteEncoder :=
  let frame := e.frame ++ [byte]
  if frame = [0x00, 0x60] then { e with frame, turns := 0 } else { e with frame }

/-- The encoder after its output has been enabled and the bytes sent to it. -/
def exchange (e : AbsoluteEncoder) (frame : List UInt8) : AbsoluteEncoder :=
  frame.foldl receive e.enable

theorem exchange_append (e : AbsoluteEncoder) (frame : List UInt8) (byte : UInt8) :
    e.exchange (frame ++ [byte]) = (e.exchange frame).receive byte := by
  rw [exchange, List.foldl_append]
  rfl

end AbsoluteEncoder

/-- Two bytes that an encoder sends, put together as the firmware does. -/
theorem WordFormat.middle_bytes (format : WordFormat) (value : BitVec 12) :
    ((((highByte (format.word value)).toUInt16 <<< 8 |||
      (lowByte (format.word value)).toUInt16) >>> 2) &&& 0x0FFF).toNat = value.toNat := by
  show ((wordOf (highByte (format.word value)) (lowByte (format.word value)) >>> 2) &&&
    0x0FFF).toNat = _
  rw [wordOf_bytes, format.middle]

/-- A number of 12 bits has no sign. -/
theorem toInt16_toInt {value : UInt16} (h : value.toNat < 4096) :
    value.toInt16.toInt = value.toNat := by
  show value.toBitVec.toInt = value.toBitVec.toNat
  have hlt : value.toBitVec.toNat < 4096 := h
  exact BitVec.toInt_eq_toNat_of_lt (by omega)

namespace SpiMux

/-- The encoder whose output is enabled. -/
def selected (m : SpiMux) : Option (Fin 16) :=
  if m.inhibit then none else some (Fin.ofNat 16 m.latch)

end SpiMux

/-- The multiplexer, the encoders, and the bytes that have reached an encoder so far. -/
structure EncoderBank where
  mux : SpiMux
  encoders : Fin 16 → AbsoluteEncoder
  received : List (Fin 16 × UInt8)

def encoderBus (format : WordFormat) : SpiBus EncoderBank where
  digitalWrite b pin level :=
    let mux := (b.mux.setPin pin level).follow
    { b with
      mux
      encoders := fun c =>
        if mux.selected = some c ∧ b.mux.selected ≠ some c then (b.encoders c).enable
        else b.encoders c }
  transfer b byte :=
    match b.mux.selected with
    | none => (0x00, b)
    | some c =>
      ((b.encoders c).reply format,
        { b with
          encoders := Function.update b.encoders c ((b.encoders c).receive byte)
          received := b.received ++ [(c, byte)] })

/-- The bits around the value all 0. -/
def plainFormat : WordFormat where
  word value := UInt16.ofNat (4 * value.toNat)
  middle value := by
    have hlt := value.isLt
    have hsize : 4 * value.toNat < UInt16.size := by
      rw [UInt16.size]
      omega
    have hmask := Nat.and_two_pow_sub_one_eq_mod ((4 * value.toNat) >>> 2) 12
    rw [UInt16.toNat_and, UInt16.toNat_shiftRight, UInt16.toNat_ofNat_of_lt' hsize]
    refine hmask.trans ?_
    rw [Nat.shiftRight_eq_div_pow]
    omega

/-- Encoders that all stand at 100 in turn 7, and a multiplexer as it may be at power-on. -/
def bootBank : EncoderBank where
  mux := ⟨true, false, true, true, false, false, 7⟩
  encoders _ := ⟨⟨100, 7⟩, []⟩
  received := []

/-- The number of the encoder at a channel. -/
def encoderAt (channel : UInt8) : Fin 16 := Fin.ofNat 16 channel.toNat

/-! ### Runs -/

/-- What happens to the encoders: a shaft moves, or the firmware calls one of its functions. -/
inductive EncoderEvent
  | move (encoder : Fin 16) (m : ShaftMove)
  | call (op : EncoderOp)
  deriving DecidableEq

namespace EncoderEvent

def exec (format : WordFormat) (event : EncoderEvent) (s : Encoders EncoderBank) :
    Encoders EncoderBank :=
  match event with
  | move c m =>
    let e := s.spi.encoders c
    { s with spi := { s.spi with
        encoders := Function.update s.spi.encoders c { e with toOdometer := e.move m } } }
  | call op => op.exec (encoderBus format) s

end EncoderEvent

def runEvents (format : WordFormat) (events : List EncoderEvent) (s : Encoders EncoderBank) :
    Encoders EncoderBank :=
  events.foldl (fun s event => event.exec format s) s

/-! ### Exchanges -/

/-- Between calls all outputs are off, the latch holds, and the chip-select pins carry
`MUX_channel`. -/
structure Ready (s : Encoders EncoderBank) : Prop where
  inhibit : s.spi.mux.inhibit = true
  strobe : s.spi.mux.strobe = false
  address : s.spi.mux.address = s.muxChannel.toNat

/-- From `s` to `t` the encoder at the channel has been enabled once, and the bytes `frame` have
reached it. -/
structure Reached (channel : UInt8) (frame : List UInt8) (s t : Encoders EncoderBank) : Prop where
  muxChannel : t.muxChannel = channel
  encoders : t.spi.encoders = Function.update s.spi.encoders (encoderAt channel)
    ((s.spi.encoders (encoderAt channel)).exchange frame)
  received : t.spi.received = s.spi.received ++ frame.map (Prod.mk (encoderAt channel))
  offsets : t.offsets = s.offsets

/-- The encoder is still enabled. -/
structure Exchange (channel : UInt8) (frame : List UInt8) (s t : Encoders EncoderBank) : Prop
    extends Reached channel frame s t where
  inhibit : t.spi.mux.inhibit = false
  strobe : t.spi.mux.strobe = false
  latch : t.spi.mux.latch = channel.toNat
  address : t.spi.mux.address = channel.toNat

/-- The exchange is over. -/
structure Exchanged (channel : UInt8) (frame : List UInt8) (s t : Encoders EncoderBank) : Prop
    extends Reached channel frame s t, Ready t

/-- The channel that the multiplexer is set to: a rejected number leaves the one before. -/
def chosen (spiChannel : UInt8) (s : Encoders EncoderBank) : UInt8 :=
  if spiChannel > 15 then s.muxChannel else spiChannel

section

variable {σ : Type} (bus : SpiBus σ)

theorem spiCsMux_accepted {newChannel : UInt8} (h : ¬ newChannel > 15) (s : Encoders σ) :
    spiCsMux bus newChannel s =
      ((({ s with muxChannel := newChannel }.digitalWrite bus .CS_1
        (newChannel &&& 0x01 ≠ 0)).digitalWrite bus .CS_2
        ((newChannel >>> 1) &&& 0x01 ≠ 0)).digitalWrite bus .CS_3
        ((newChannel >>> 2) &&& 0x01 ≠ 0)).digitalWrite bus .CS_4
        ((newChannel >>> 3) &&& 0x01 ≠ 0) := by
  rw [spiCsMux, if_neg h]
  rfl

theorem activateMux_eq (spiChannel : UInt8) (s : Encoders σ) :
    activateMux bus spiChannel s =
      (((spiCsMux bus spiChannel s).digitalWrite bus .STROBE true).digitalWrite bus .STROBE
        false).digitalWrite bus .INHIBIT false := rfl

end

section

variable (format : WordFormat) {s t : Encoders EncoderBank} {channel : UInt8}
  {frame : List UInt8}

/-- A write after which all outputs are off moves pins only. -/
theorem digitalWrite_off (pin : Pin) (level : Bool)
    (h : (s.spi.mux.setPin pin level).follow.inhibit = true) :
    s.digitalWrite (encoderBus format) pin level =
      { s with spi := { s.spi with mux := (s.spi.mux.setPin pin level).follow } } := by
  have hnone : (s.spi.mux.setPin pin level).follow.selected = none := by
    rw [SpiMux.selected, h]
    rfl
  simp only [Encoders.digitalWrite, encoderBus, hnone, reduceCtorEq, false_and, if_false]

/-- A write that enables an output begins an exchange with the encoder behind it. -/
theorem digitalWrite_on (pin : Pin) (level : Bool) (hs : s.spi.mux.inhibit = true)
    (h : (s.spi.mux.setPin pin level).follow.inhibit = false) :
    (s.digitalWrite (encoderBus format) pin level).spi.encoders =
      Function.update s.spi.encoders (Fin.ofNat 16 (s.spi.mux.setPin pin level).follow.latch)
        (s.spi.encoders (Fin.ofNat 16 (s.spi.mux.setPin pin level).follow.latch)).enable := by
  have hnone : s.spi.mux.selected = none := by
    rw [SpiMux.selected, hs]
    rfl
  have hsome : (s.spi.mux.setPin pin level).follow.selected =
      some (Fin.ofNat 16 (s.spi.mux.setPin pin level).follow.latch) := by
    rw [SpiMux.selected, h]
    rfl
  funext c
  simp only [Encoders.digitalWrite, encoderBus, hnone, hsome, Function.update_apply, ne_eq,
    reduceCtorEq, not_false_eq_true, and_true, Option.some.injEq]
  by_cases hc : c = Fin.ofNat 16 (s.spi.mux.setPin pin level).follow.latch
  · rw [if_pos hc, if_pos hc.symm, hc]
  · rw [if_neg hc, if_neg (Ne.symm hc)]

theorem spiCsMux_ready (channel : UInt8) (hs : Ready s) :
    Ready (spiCsMux (encoderBus format) channel s) ∧
      (spiCsMux (encoderBus format) channel s).muxChannel = chosen channel s ∧
      (spiCsMux (encoderBus format) channel s).spi.encoders = s.spi.encoders ∧
      (spiCsMux (encoderBus format) channel s).spi.received = s.spi.received := by
  obtain ⟨hinhibit, hstrobe, haddress⟩ := hs
  unfold chosen
  by_cases hreject : channel > 15
  · rw [if_pos hreject, spiCsMux, if_pos hreject]
    exact ⟨⟨hinhibit, hstrobe, haddress⟩, rfl, rfl, rfl⟩
  · obtain ⟨muxChannel, offsets, ⟨⟨strobe, cs1, cs2, cs3, cs4, inhibit, latch⟩, encoders,
      received⟩, errors⟩ := s
    obtain rfl : inhibit = true := hinhibit
    obtain rfl : strobe = false := hstrobe
    have hbits := channel_bits ⟨channel.toNat, lt_of_not_rejected hreject⟩
    simp only [UInt8.ofNat_toNat] at hbits
    rw [if_neg hreject, spiCsMux_accepted _ hreject, digitalWrite_off format .CS_1 _ rfl,
      digitalWrite_off format .CS_2 _ rfl, digitalWrite_off format .CS_3 _ rfl,
      digitalWrite_off format .CS_4 _ rfl]
    exact ⟨⟨rfl, rfl, hbits⟩, rfl, rfl, rfl⟩

/-- The channel on the chip-select pins is latched, and its encoder enabled. -/
theorem activateMux_exchange (channel : UInt8) (hs : Ready s) :
    Exchange (chosen channel s) [] s (activateMux (encoderBus format) channel s) := by
  have hoffsets := activateMux_offsets (encoderBus format) channel s
  obtain ⟨⟨hinhibit, hstrobe, haddress⟩, hchannel, hencoders, hreceived⟩ :=
    spiCsMux_ready format channel hs
  rw [activateMux_eq] at hoffsets ⊢
  generalize spiCsMux (encoderBus format) channel s = u at *
  obtain ⟨muxChannel, offsets, ⟨⟨strobe, cs1, cs2, cs3, cs4, inhibit, latch⟩, encoders,
    received⟩, errors⟩ := u
  obtain rfl : inhibit = true := hinhibit
  obtain rfl : strobe = false := hstrobe
  rw [← hchannel, digitalWrite_off format .STROBE true rfl,
    digitalWrite_off format .STROBE false rfl]
  refine ⟨⟨rfl, ?_, ?_, hoffsets⟩, rfl, rfl, haddress, haddress⟩
  · rw [digitalWrite_on format .INHIBIT false rfl rfl, ← hencoders, encoderAt]
    exact haddress ▸ rfl
  · exact hreceived.trans (List.append_nil _).symm

theorem Exchange.selected (h : Exchange channel frame s t) :
    t.spi.mux.selected = some (encoderAt channel) := by
  rw [SpiMux.selected, h.inhibit, h.latch]
  rfl

theorem Exchange.transfer (h : Exchange channel frame s t) (byte : UInt8) :
    (t.transfer (encoderBus format) byte).1 =
        ((s.spi.encoders (encoderAt channel)).exchange frame).reply format ∧
      Exchange channel (frame ++ [byte]) s (t.transfer (encoderBus format) byte).2 := by
  have hencoder : t.spi.encoders (encoderAt channel) =
      (s.spi.encoders (encoderAt channel)).exchange frame := by
    rw [h.encoders, Function.update_self]
  simp only [Encoders.transfer, encoderBus, h.selected, hencoder]
  refine ⟨trivial, ⟨h.muxChannel, ?_, ?_, h.offsets⟩, h.inhibit, h.strobe, h.latch, h.address⟩
  · rw [h.encoders, Function.update_idem, AbsoluteEncoder.exchange_append]
  · rw [h.received, List.map_append, List.append_assoc]
    rfl

theorem Exchange.deactivate (h : Exchange channel frame s t) :
    Exchanged channel frame s (deactivateMux (encoderBus format) t) := by
  have hfollow : (t.spi.mux.setPin .INHIBIT true).follow = { t.spi.mux with inhibit := true } :=
    SpiMux.follow_of_low h.strobe
  have hoff : (t.spi.mux.setPin .INHIBIT true).follow.inhibit = true :=
    congrArg SpiMux.inhibit hfollow
  rw [deactivateMux, digitalWrite_off format .INHIBIT true hoff, hfollow]
  refine ⟨⟨h.muxChannel, h.encoders, h.received, h.offsets⟩, rfl, h.strobe, ?_⟩
  exact h.address.trans (congrArg UInt8.toNat h.muxChannel.symm)

/-! ### Calls -/

theorem Exchange.transferAll (h : Exchange channel frame s t) (bytes : List UInt8) :
    Exchange channel (frame ++ bytes) s (transferAll (encoderBus format) bytes t) := by
  induction bytes generalizing frame t with
  | nil => rwa [List.append_nil]
  | cons byte bytes ih =>
    have hrest := ih (h.transfer format byte).2
    rwa [List.append_assoc] at hrest

/-- A call's exchange from end to end. -/
theorem exchangeBytes_exchanged (channel : UInt8) (bytes : List UInt8) (hs : Ready s) :
    Exchanged (chosen channel s) bytes s (exchangeBytes (encoderBus format) channel bytes s) :=
  ((activateMux_exchange format channel hs).transferAll format bytes).deactivate format

theorem readRawPosition_exchanged (channel : UInt8) (hs : Ready s) :
    (readRawPosition (encoderBus format) channel s).1.toNat =
        (s.spi.encoders (encoderAt (chosen channel s))).raw.toNat ∧
      Exchanged (chosen channel s) [0x00, 0x00] s
        (readRawPosition (encoderBus format) channel s).2 := by
  have h₀ := activateMux_exchange format channel hs
  obtain ⟨hhigh, h₁⟩ := h₀.transfer format 0x00
  obtain ⟨hlow, -⟩ := h₁.transfer format 0x00
  refine ⟨?_, exchangeBytes_exchanged format channel _ hs⟩
  unfold readRawPosition
  dsimp only
  rw [hhigh, hlow]
  exact format.middle_bytes (s.spi.encoders (encoderAt (chosen channel s))).raw

theorem readTurns_exchanged (channel : UInt8) (hs : Ready s) :
    (readTurns (encoderBus format) channel s).1.toInt =
        (s.spi.encoders (encoderAt (chosen channel s))).turns.toNat ∧
      Exchanged (chosen channel s) [0x00, 0xA0, 0x00, 0x00] s
        (readTurns (encoderBus format) channel s).2 := by
  have h₀ := activateMux_exchange format channel hs
  obtain ⟨-, h₁⟩ := h₀.transfer format 0x00
  obtain ⟨-, h₂⟩ := h₁.transfer format 0xA0
  obtain ⟨hhigh, h₃⟩ := h₂.transfer format 0x00
  obtain ⟨hlow, -⟩ := h₃.transfer format 0x00
  refine ⟨?_, exchangeBytes_exchanged format channel _ hs⟩
  unfold readTurns
  dsimp only
  rw [hhigh, hlow, toInt16_toInt (masked_lt _)]
  exact congrArg _ (format.middle_bytes (s.spi.encoders (encoderAt (chosen channel s))).turns)

theorem rebootEncoder_exchanged (channel : UInt8) (hs : Ready s) :
    Exchanged (chosen channel s) [0x00, 0x60] s
      (rebootEncoder (encoderBus format) channel s) :=
  exchangeBytes_exchanged format channel _ hs

theorem Ready.of_eq (hs : Ready s) (hspi : t.spi = s.spi) (hchannel : t.muxChannel = s.muxChannel) :
    Ready t := by
  obtain ⟨hinhibit, hstrobe, haddress⟩ := hs
  rw [← hspi] at hinhibit hstrobe haddress
  rw [← hchannel] at haddress
  exact ⟨hinhibit, hstrobe, haddress⟩

theorem chosen_valid (h : channel.toNat < 16) : chosen channel s = channel :=
  if_neg (not_rejected h)

theorem clearedOffset_ready (h : channel.toNat < 16) (hs : Ready s) :
    Ready (clearedOffset (encoderBus format) h s) :=
  (rebootEncoder_exchanged format channel hs).toReady.of_eq rfl rfl

theorem exec_ready (op : EncoderOp) (hs : Ready s) : Ready (op.exec (encoderBus format) s) := by
  cases op with
  | position channel =>
    have hread := (readRawPosition_exchanged format channel hs).2.toReady
    show Ready (readEncoderPosition (encoderBus format) channel s).2
    by_cases h : channel.toNat < 16
    · rwa [(readEncoderPosition_eq (encoderBus format) h s).2]
    · rwa [readEncoderPosition_rejected _ h]
  | turns channel => exact (readTurns_exchanged format channel hs).2.toReady
  | reset channel =>
    show Ready (resetEncoder (encoderBus format) channel s).2
    by_cases h : channel.toNat < 16
    · have hcleared := clearedOffset_ready format h hs
      rw [resetEncoder_accepted _ h]
      exact (readRawPosition_exchanged format channel hcleared).2.toReady.of_eq rfl rfl
    · rw [resetEncoder_rejected _ h]
      exact (rebootEncoder_exchanged format channel hs).toReady

theorem event_ready (event : EncoderEvent) (hs : Ready s) : Ready (event.exec format s) := by
  cases event with
  | move c m => exact ⟨hs.inhibit, hs.strobe, hs.address⟩
  | call op => exact exec_ready format op hs

theorem runEvents_ready (events : List EncoderEvent) (hs : Ready s) :
    Ready (runEvents format events s) := by
  induction events generalizing s with
  | nil => exact hs
  | cons event events ih => exact ih (event_ready format event hs)

theorem setupPins_ready (b : EncoderBank) :
    Ready (setupPins (encoderBus format) (bootEncoders b)) := ⟨rfl, rfl, rfl⟩

/-! ### Odometers -/

theorem Reached.odometer (h : Reached channel frame s t) (k : Fin 16) :
    (t.spi.encoders k).toOdometer =
      if k = encoderAt channel then ((s.spi.encoders k).exchange frame).toOdometer
      else (s.spi.encoders k).toOdometer := by
  rw [h.encoders, Function.update_apply]
  split
  · rename_i hk
    rw [hk]
  · rfl

/-- Reads leave an odometer as it is. -/
theorem Reached.odometer_read (h : Reached channel frame s t)
    (hframe : frame = [0x00, 0x00] ∨ frame = [0x00, 0xA0, 0x00, 0x00]) (k : Fin 16) :
    (t.spi.encoders k).toOdometer = (s.spi.encoders k).toOdometer := by
  rw [h.odometer]
  split
  · rcases hframe with rfl | rfl <;> rfl
  · rfl

theorem resetRaw_toNat (h : channel.toNat < 16) (hs : Ready s) :
    (resetRaw (encoderBus format) channel s).toNat =
      (s.spi.encoders (encoderAt channel)).raw.toNat := by
  have hreboot := rebootEncoder_exchanged format channel hs
  have hread := (readRawPosition_exchanged format channel hreboot.toReady).1
  have hodometer := hreboot.odometer (encoderAt channel)
  rw [chosen_valid h] at hread hodometer
  rw [if_pos rfl] at hodometer
  rw [resetRaw, hread]
  exact congrArg (fun x => x.raw.toNat) hodometer

/-- A call leaves the odometers of the other encoders alone, and only a reset changes its own, whose
turn count it sets to 0. -/
theorem exec_odometer (op : EncoderOp) (hop : op.channel.toNat < 16) (hs : Ready s) (k : Fin 16) :
    ((op.exec (encoderBus format) s).spi.encoders k).toOdometer =
      if op = .reset op.channel ∧ k = encoderAt op.channel then
        { (s.spi.encoders k).toOdometer with turns := 0 }
      else (s.spi.encoders k).toOdometer := by
  cases op with
  | position channel =>
    have hread := (readRawPosition_exchanged format channel hs).2.odometer_read (.inl rfl) k
    have hexec : (EncoderOp.position channel).exec (encoderBus format) s =
        (readRawPosition (encoderBus format) channel s).2 :=
      (readEncoderPosition_eq (encoderBus format) hop s).2
    simp [hexec, hread]
  | turns channel =>
    have hread := (readTurns_exchanged format channel hs).2.odometer_read (.inr rfl) k
    simpa [EncoderOp.exec] using hread
  | reset channel =>
    have h : channel.toNat < 16 := hop
    have hreboot := (rebootEncoder_exchanged format channel hs).odometer k
    have hcleared := clearedOffset_ready format h hs
    have hread := (readRawPosition_exchanged format channel hcleared).2.odometer_read (.inl rfl) k
    rw [chosen_valid h] at hreboot
    rw [EncoderOp.exec, resetEncoder_accepted _ h]
    refine hread.trans (hreboot.trans ?_)
    simp only [EncoderOp.channel, true_and]
    rfl

end

end QuadBot
