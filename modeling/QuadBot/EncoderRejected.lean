import QuadBot.EncoderBank
import QuadBot.Lib.Latest

/-! Encoder calls with a channel number above 15. `SPI_CS_MUX` rejects it, but reports nothing to
its caller, which enables the encoder that was selected last and talks to that one. -/

namespace QuadBot

open Latest

namespace EncoderOp

/-- The access of `offsets` that is out of bounds, where the call makes one. -/
def outOfBounds {σ : Type} (bus : SpiBus σ) (op : EncoderOp) (s : Encoders σ) :
    Option OutOfOffsets :=
  match op with
  | position channel =>
    match (readEncoderPosition bus channel s).1 with
    | .error e => some e
    | .ok _ => none
  | turns _ => none
  | reset channel =>
    match (resetEncoder bus channel s).1 with
    | .error e => some e
    | .ok () => none

/-- The bytes that the call sends up to the first access of `offsets`. -/
def bytes : EncoderOp → List UInt8
  | position _ => [0x00, 0x00]
  | turns _ => [0x00, 0xA0, 0x00, 0x00]
  | reset _ => [0x00, 0x60]

theorem bytes_ne_nil (op : EncoderOp) : op.bytes ≠ [] := by
  cases op <;> simp [bytes]

end EncoderOp

/-- A call sends nothing to an encoder, and leaves the offsets alone without an access out of
bounds. -/
structure Refused (format : WordFormat) (op : EncoderOp) (s : Encoders EncoderBank) : Prop where
  received : (op.exec (encoderBus format) s).spi.received = s.spi.received
  offsets : (op.exec (encoderBus format) s).offsets = s.offsets
  inBounds : op.outOfBounds (encoderBus format) s = none

section

variable (format : WordFormat) {s : Encoders EncoderBank} {op : EncoderOp}

theorem chosen_rejected {channel : UInt8} (h : channel > 15) : chosen channel s = s.muxChannel :=
  if_pos h

theorem not_lt_of_rejected {channel : UInt8} (h : channel > 15) : ¬ channel.toNat < 16 :=
  fun hlt => not_rejected hlt h

/-- The call goes as far as the end of its first exchange. -/
theorem exec_of_rejected {σ : Type} (bus : SpiBus σ) (hop : op.channel > 15) (s : Encoders σ) :
    op.exec bus s = exchangeBytes bus op.channel op.bytes s := by
  cases op with
  | position channel =>
    have h : ¬ channel.toNat < 16 := not_lt_of_rejected hop
    rw [EncoderOp.exec, readEncoderPosition_rejected bus h]
    rfl
  | turns channel => rfl
  | reset channel =>
    have h : ¬ channel.toNat < 16 := not_lt_of_rejected hop
    rw [EncoderOp.exec, resetEncoder_rejected bus h]
    rfl

/-- The whole exchange takes place with the encoder of `MUX_channel`. -/
theorem rejected_exchanged (hs : Ready s) (hop : op.channel > 15) :
    Exchanged s.muxChannel op.bytes s (op.exec (encoderBus format) s) := by
  have hexchanged := exchangeBytes_exchanged format op.channel op.bytes hs
  rwa [chosen_rejected hop, ← exec_of_rejected (encoderBus format) hop] at hexchanged

/-- Only `readTurns` stays within the bounds, as it does not look at the offsets. -/
theorem rejected_outOfBounds (hop : op.channel > 15) :
    op.outOfBounds (encoderBus format) s = none ↔ ∃ channel, op = .turns channel := by
  cases op with
  | position channel =>
    have h : ¬ channel.toNat < 16 := not_lt_of_rejected hop
    simp [EncoderOp.outOfBounds, readEncoderPosition_rejected _ h]
  | turns channel => simp [EncoderOp.outOfBounds]
  | reset channel =>
    have h : ¬ channel.toNat < 16 := not_lt_of_rejected hop
    simp [EncoderOp.outOfBounds, resetEncoder_rejected _ h]

/-! ### Runs -/

/-- The channel that an event selects. -/
def EncoderEvent.selects : EncoderEvent → Option UInt8
  | .move _ _ => none
  | .call op => if op.channel > 15 then none else some op.channel

theorem exec_muxChannel (op : EncoderOp) (hs : Ready s) :
    (op.exec (encoderBus format) s).muxChannel = chosen op.channel s := by
  by_cases hop : op.channel > 15
  · rw [chosen_rejected hop]
    exact (rejected_exchanged format hs hop).muxChannel
  · have h := lt_of_not_rejected hop
    cases op with
    | position channel =>
      exact (congrArg Encoders.muxChannel (readEncoderPosition_eq _ h s).2).trans
        (readRawPosition_exchanged format channel hs).2.muxChannel
    | turns channel => exact (readTurns_exchanged format channel hs).2.muxChannel
    | reset channel =>
      have hlt : channel.toNat < 16 := h
      have hread := readRawPosition_exchanged format channel (clearedOffset_ready format hlt hs)
      rw [chosen_valid hlt] at hread
      rw [chosen_valid h, EncoderOp.exec, resetEncoder_accepted _ hlt]
      exact hread.2.muxChannel

/-- Over a run `MUX_channel` holds the last channel that was not rejected. -/
theorem muxChannel_run (events : List EncoderEvent) (hs : Ready s) :
    (runEvents format events s).muxChannel =
      latest EncoderEvent.selects events s.muxChannel := by
  refine (view_foldl Ready Encoders.muxChannel ?_ events hs).2
  intro s event hs
  refine ⟨event_ready format event hs, ?_⟩
  cases event with
  | move c m => rfl
  | call op =>
    refine (exec_muxChannel format op hs).trans ?_
    by_cases hop : op.channel > 15
    · simp [chosen, EncoderEvent.selects, hop]
    · simp [chosen, EncoderEvent.selects, hop]

/-- After every run a call on a rejected channel sends its bytes to the encoder that was selected
last. -/
theorem rejected_run (b : EncoderBank) (events : List EncoderEvent)
    (hs : s = runEvents format events (setupPins (encoderBus format) (bootEncoders b)))
    (hop : op.channel > 15) :
    (op.exec (encoderBus format) s).spi.received =
      s.spi.received ++
        op.bytes.map (Prod.mk (encoderAt (latest EncoderEvent.selects events 0))) := by
  have hstart := setupPins_ready format b
  have hready : Ready s := by
    rw [hs]
    exact runEvents_ready format events hstart
  have hchannel : s.muxChannel = latest EncoderEvent.selects events 0 := by
    rw [hs]
    exact muxChannel_run format events hstart
  rw [← hchannel]
  exact (rejected_exchanged format hready hop).received

/-- No call on a rejected channel is refused, whatever has happened before. -/
theorem rejected_not_refused (b : EncoderBank) (events : List EncoderEvent)
    (hs : s = runEvents format events (setupPins (encoderBus format) (bootEncoders b)))
    (hop : op.channel > 15) : ¬ Refused format op s := by
  intro h
  have hreceived := rejected_run format b events hs hop
  rw [h.received, List.self_eq_append_right, List.map_eq_nil_iff] at hreceived
  exact op.bytes_ne_nil hreceived

end

theorem rejected_not_refused_position :
    ¬ Refused plainFormat (.position 200) (runEvents plainFormat
      [.call (.reset 3), .move 3 .forward, .call (.turns 77)]
      (setupPins (encoderBus plainFormat) (bootEncoders bootBank))) :=
  rejected_not_refused plainFormat bootBank [.call (.reset 3), .move 3 .forward, .call (.turns 77)]
    rfl (by decide)

/-- A reset of the channel that does not exist reboots the encoder that was read last. -/
theorem rejected_reset_reboots :
    ¬ Refused plainFormat (.reset 16) (runEvents plainFormat [.call (.turns 5)]
      (setupPins (encoderBus plainFormat) (bootEncoders bootBank))) ∧
    ((runEvents plainFormat [.call (.turns 5), .call (.reset 16)]
      (setupPins (encoderBus plainFormat) (bootEncoders bootBank))).spi.encoders 5).turns = 0 := by
  constructor
  · intro h
    have hreceived := h.received
    revert hreceived
    decide
  · decide

end QuadBot
