import QuadBot.EncoderBank

/-! Turns and position of one shaft. `readTurns` counts the turns from the raw zero, and without a
sign, `readEncoderPosition` the position from the raw position at the reset: put together they
follow the shaft as long as it stays between the two. -/

namespace QuadBot

open Odometer

/-- `4096 * readTurns` and the position count behind `readEncoderPosition`. -/
def turnsAndPosition {σ : Type} (bus : SpiBus σ) (channel : UInt8) (s : Encoders σ) :
    Except OutOfOffsets ℚ :=
  let (turns, s) := readTurns bus channel s
  let (degrees, _) := readEncoderPosition bus channel s
  degrees.map fun degrees => 4096 * (turns.toInt : ℚ) + degrees * 4096 / 360

namespace EncoderEvent

/-- The counts by which the event moves the shaft of an encoder. -/
def count (encoder : Fin 16) : EncoderEvent → Int
  | move c m => if c = encoder then m.count else 0
  | call _ => 0

/-- A call, on a channel that exists, that does not reset this one. -/
def Keeps (channel : UInt8) : EncoderEvent → Prop
  | move _ _ => True
  | call op => op.channel.toNat < 16 ∧ op ≠ .reset channel

instance (channel : UInt8) : DecidablePred (Keeps channel)
  | move _ _ => inferInstanceAs (Decidable True)
  | call op => inferInstanceAs (Decidable (op.channel.toNat < 16 ∧ op ≠ .reset channel))

theorem count_mem (encoder : Fin 16) (event : EncoderEvent) :
    -1 ≤ event.count encoder ∧ event.count encoder ≤ 1 := by
  cases event with
  | move c m =>
    rw [count]
    split
    · cases m <;> simp [ShaftMove.count]
    · omega
  | call op => simp [count]

end EncoderEvent

/-- The net number of counts by which the events move the shaft of an encoder. -/
def moved (encoder : Fin 16) (events : List EncoderEvent) : Int :=
  (events.map (EncoderEvent.count encoder)).sum

/-- Between any two instants of the events turns and position change by what the shaft moves. -/
def FollowsShaft (format : WordFormat) (channel : UInt8) (events : List EncoderEvent)
    (s : Encoders EncoderBank) : Prop :=
  ∀ earlier later, earlier <+: events → later <+: events → ∃ total : ℚ,
    turnsAndPosition (encoderBus format) channel (runEvents format earlier s) = .ok total ∧
    turnsAndPosition (encoderBus format) channel (runEvents format later s) =
      .ok (total + (moved (encoderAt channel) later - moved (encoderAt channel) earlier : Int))

theorem count_of_degrees (n : ℚ) : n * 360.0 / 4096.0 * 4096 / 360 = n := by
  have hdegrees : n * 360.0 / 4096.0 = n * 360 / 4096 := by norm_num
  rw [hdegrees]
  ring

theorem encoderAt_injective {a b : UInt8} (ha : a.toNat < 16) (hb : b.toNat < 16)
    (h : encoderAt a = encoderAt b) : a = b := by
  have hval : a.toNat % 16 = b.toNat % 16 := congrArg Fin.val h
  rw [Nat.mod_eq_of_lt ha, Nat.mod_eq_of_lt hb] at hval
  exact UInt8.toNat_inj.mp hval

/-- The shaft of the channel stands `d` counts from where it was reset at the raw position `o`. -/
structure Tracking (channel : UInt8) (h : channel.toNat < 16) (o d : Int)
    (s : Encoders EncoderBank) : Prop where
  ready : Ready s
  odometer : (s.spi.encoders (encoderAt channel)).toOdometer = ofAngle 12 12 (o + d)
  offset : (s.offsets[channel.toNat].toNat : Int) = o

section

variable (format : WordFormat) {s : Encoders EncoderBank} {channel : UInt8}
  {h : channel.toNat < 16} {o d : Int}

/-- A reset begins a turn at the raw position. -/
theorem tracking_reset (h : channel.toNat < 16) (hs : Ready s) :
    Tracking channel h (s.spi.encoders (encoderAt channel)).raw.toNat 0
      (resetEncoder (encoderBus format) channel s).2 := by
  have hodometer := exec_odometer format (.reset channel) h hs (encoderAt channel)
  have hoffset := (resetEncoder_eq (encoderBus format) h s).2
  rw [if_pos ⟨rfl, rfl⟩] at hodometer
  refine ⟨exec_ready format (.reset channel) hs, ?_, ?_⟩
  · rw [Int.add_zero]
    exact hodometer.trans (eq_ofAngle rfl)
  · simp only [hoffset, Vector.getElem_set_self]
    exact_mod_cast resetRaw_toNat format h hs

/-- A move of any shaft. -/
theorem odometer_move (c k : Fin 16) (m : ShaftMove) :
    (((EncoderEvent.move c m).exec format s).spi.encoders k).toOdometer =
      if c = k then (s.spi.encoders k).toOdometer.move m else (s.spi.encoders k).toOdometer := by
  show (Function.update s.spi.encoders c
    { s.spi.encoders c with toOdometer := (s.spi.encoders c).move m } k).toOdometer = _
  by_cases hc : c = k
  · subst hc
    rw [Function.update_self, if_pos rfl]
  · rw [Function.update_of_ne (Ne.symm hc), if_neg hc]

/-- One event. -/
theorem tracking_event {event : EncoderEvent} (hevent : event.Keeps channel)
    (hs : Tracking channel h o d s) :
    Tracking channel h o (d + event.count (encoderAt channel)) (event.exec format s) := by
  have hready := event_ready format event hs.ready
  cases event with
  | move c m =>
    refine ⟨hready, ?_, hs.offset⟩
    rw [odometer_move, EncoderEvent.count]
    split
    · rw [hs.odometer, move_ofAngle, Int.add_assoc]
    · rw [hs.odometer, Int.add_zero]
  | call op =>
    obtain ⟨hop, hreset⟩ := hevent
    have hother : ¬ (op = .reset op.channel ∧ op.channel = channel) := by
      rintro ⟨hop', hchannel⟩
      rw [hchannel] at hop'
      exact hreset hop'
    have hodometer := exec_odometer format op hop hs.ready (encoderAt channel)
    have hoffset := exec_offset (encoderBus format) op hop s h
    rw [if_neg fun hc => hother ⟨hc.1, (encoderAt_injective h hop hc.2).symm⟩] at hodometer
    rw [if_neg fun hc => hother ⟨hc.1, UInt8.toNat_inj.mp hc.2⟩] at hoffset
    rw [EncoderEvent.count, Int.add_zero]
    refine ⟨hready, hodometer.trans hs.odometer, ?_⟩
    exact (congrArg (fun offset : UInt16 => (offset.toNat : Int)) hoffset).trans hs.offset

/-- A run of events. -/
theorem tracking_run {events : List EncoderEvent}
    (hevents : ∀ event ∈ events, event.Keeps channel) (hs : Tracking channel h o d s) :
    Tracking channel h o (d + moved (encoderAt channel) events)
      (runEvents format events s) := by
  induction events generalizing s d with
  | nil =>
    rw [moved, List.map_nil, List.sum_nil, Int.add_zero]
    exact hs
  | cons event events ih =>
    have hfirst := tracking_event format (hevents event List.mem_cons_self) hs
    have hrest := ih (fun e he => hevents e (List.mem_cons_of_mem event he)) hfirst
    rw [moved, List.map_cons, List.sum_cons, ← Int.add_assoc]
    exact hrest

/-- The raw position less the offset is the displacement, within a turn. -/
theorem tracking_position (ho : o < 4096) (hs : Tracking channel h o d s) :
    ((relativePosition (readRawPosition (encoderBus format) channel s).1
      s.offsets[channel.toNat]).toNat : Int) = d % 4096 := by
  have hraw := (readRawPosition_exchanged format channel hs.ready).1
  have hangle := ofAngle_raw_toNat (w := 12) (v := 12) (o + d)
  have hlt := readRawPosition_lt (encoderBus format) channel s
  have hoffset := hs.offset
  rw [chosen_valid h, hs.odometer] at hraw
  rw [relativePosition_eq hlt (by omega), hraw, hoffset, hangle]
  omega

theorem tracking_turns (hs : Tracking channel h o d s) :
    (readTurns (encoderBus format) channel s).1.toInt = (o + d) / 4096 % 4096 := by
  have hturns := (readTurns_exchanged format channel hs.ready).1
  rw [chosen_valid h, hs.odometer, ofAngle_turns_toNat] at hturns
  exact hturns

/-- Turns and position together are the reading of the odometer. -/
theorem tracking_reading (ho : o < 4096) (hs : Tracking channel h o d s) :
    turnsAndPosition (encoderBus format) channel s = .ok (reading 12 12 o d : ℚ) := by
  have hturns := tracking_turns format hs
  have hafter : Tracking channel h o d (readTurns (encoderBus format) channel s).2 := by
    have hkeeps : (EncoderEvent.call (.turns channel)).Keeps channel := ⟨h, by simp⟩
    have hstep := tracking_event format hkeeps hs
    rwa [EncoderEvent.count, Int.add_zero] at hstep
  have hposition := tracking_position format ho hafter
  have hread := (readEncoderPosition_eq (encoderBus format) h
    (readTurns (encoderBus format) channel s).2).1
  unfold turnsAndPosition
  dsimp only
  rw [hread, hturns, reading]
  show Except.ok _ = Except.ok _
  have hcount : ((relativePosition (readRawPosition (encoderBus format) channel
      (readTurns (encoderBus format) channel s).2).1
      (readTurns (encoderBus format) channel s).2.offsets[channel.toNat]).toNat : ℚ) =
      (d % 4096 : Int) := by
    exact_mod_cast congrArg (Int.cast : Int → ℚ) hposition
  rw [hcount]
  dsimp only
  rw [count_of_degrees]
  push_cast
  norm_num

/-- At every instant of a run. -/
theorem tracking_run_reading (ho : o < 4096) {events done : List EncoderEvent}
    (hevents : ∀ event ∈ events, event.Keeps channel) (hdone : done <+: events)
    (hs : Tracking channel h o 0 s) :
    turnsAndPosition (encoderBus format) channel (runEvents format done s) =
      .ok (reading 12 12 o (moved (encoderAt channel) done) : ℚ) := by
  have hrun := tracking_run format (fun e he => hevents e (hdone.subset he)) hs
  rw [Int.zero_add] at hrun
  exact tracking_reading format ho hrun

/-- In the integers the condition is one on the readings. -/
theorem followsShaft_iff (ho : o < 4096) {events : List EncoderEvent}
    (hevents : ∀ event ∈ events, event.Keeps channel) (hs : Tracking channel h o 0 s) :
    FollowsShaft format channel events s ↔
      ∀ earlier later, earlier <+: events → later <+: events →
        reading 12 12 o (moved (encoderAt channel) later) -
            reading 12 12 o (moved (encoderAt channel) earlier) =
          moved (encoderAt channel) later - moved (encoderAt channel) earlier := by
  constructor
  · intro hfollows earlier later hearlier hlater
    obtain ⟨total, htotal, hlast⟩ := hfollows earlier later hearlier hlater
    rw [tracking_run_reading format ho hevents hearlier hs] at htotal
    rw [tracking_run_reading format ho hevents hlater hs] at hlast
    obtain rfl := Except.ok.inj htotal
    have hsum := Except.ok.inj hlast
    rw [Int.sub_eq_iff_eq_add']
    exact_mod_cast hsum
  · intro hreadings earlier later hearlier hlater
    have hsum := Int.sub_eq_iff_eq_add'.mp (hreadings earlier later hearlier hlater)
    refine ⟨_, tracking_run_reading format ho hevents hearlier hs, ?_⟩
    rw [tracking_run_reading format ho hevents hlater hs, Except.ok.injEq]
    exact_mod_cast hsum

/-- Turns and position follow the shaft exactly where it never turns back behind the angle of the
reset, nor, unless that is the raw zero, forward past the next raw zero. -/
theorem turns_and_position_iff (b : EncoderBank) (before : List EncoderEvent)
    (hs : s = runEvents format before (setupPins (encoderBus format) (bootEncoders b)))
    (h : channel.toNat < 16) (ho : o = (s.spi.encoders (encoderAt channel)).raw.toNat)
    {events : List EncoderEvent} (hevents : ∀ event ∈ events, event.Keeps channel)
    (hrange : ∀ done, done <+: events → |moved (encoderAt channel) done| ≤ 2000 * 4096) :
    FollowsShaft format channel events (resetEncoder (encoderBus format) channel s).2 ↔
      ∀ done, done <+: events → 0 ≤ moved (encoderAt channel) done ∧
        (o = 0 ∨ moved (encoderAt channel) done < 4096 - o) := by
  have hready : Ready s := by
    rw [hs]
    exact runEvents_ready format before (setupPins_ready format b)
  have hlow : 0 ≤ o := by
    rw [ho]
    exact Int.natCast_nonneg _
  have hhigh : o < 4096 := by
    rw [ho]
    exact_mod_cast (s.spi.encoders (encoderAt channel)).raw.isLt
  have hstart := tracking_reset format h hready
  rw [← ho] at hstart
  have hturns : ∀ done, done <+: events →
      -2 ^ 12 ≤ (o + moved (encoderAt channel) done) / 2 ^ 12 ∧
        (o + moved (encoderAt channel) done) / 2 ^ 12 < 2 ^ 12 := by
    intro done hdone
    have hbound := abs_le.mp (hrange done hdone)
    omega
  have hcount : ∀ event ∈ events, -1 ≤ event.count (encoderAt channel) ∧
      event.count (encoderAt channel) ≤ 1 :=
    fun event _ => event.count_mem (encoderAt channel)
  rw [followsShaft_iff format hhigh hevents hstart]
  exact readings_iff (w := 12) (v := 12) (by decide) hcount hlow hhigh hturns

end

theorem turns_and_position_iff_forward :
    FollowsShaft plainFormat 3 [.move 3 .forward, .call (.turns 3), .move 7 .backward]
      (resetEncoder (encoderBus plainFormat) 3 (runEvents plainFormat
        [.call (.reset 5), .move 3 .forward]
        (setupPins (encoderBus plainFormat) (bootEncoders bootBank)))).2 := by
  have hprefix : ∀ done, done <+: [EncoderEvent.move 3 .forward, .call (.turns 3),
      .move 7 .backward] → 0 ≤ moved (encoderAt 3) done ∧ moved (encoderAt 3) done ≤ 1 := by
    intro done hdone
    rw [← List.mem_inits] at hdone
    revert done
    decide
  refine (turns_and_position_iff plainFormat bootBank [.call (.reset 5), .move 3 .forward] rfl
    (by decide) (o := 101) (by decide) (by decide) ?_).mpr ?_
  · intro done hdone
    obtain ⟨hlow, hhigh⟩ := hprefix done hdone
    rw [abs_of_nonneg hlow]
    omega
  · intro done hdone
    obtain ⟨hlow, hhigh⟩ := hprefix done hdone
    exact ⟨hlow, Or.inr (by omega)⟩

/-- One count back from the angle of the reset, 100, adds 4095. -/
theorem backward_from_reset : ¬ FollowsShaft plainFormat 3 [.move 3 .backward]
    (resetEncoder (encoderBus plainFormat) 3
      (setupPins (encoderBus plainFormat) (bootEncoders bootBank))).2 := by
  intro h
  obtain ⟨total, htotal, hlast⟩ := h [] [.move 3 .backward] List.nil_prefix List.prefix_rfl
  have hstart := tracking_reset plainFormat (show (3 : UInt8).toNat < 16 by decide)
    (setupPins_ready plainFormat bootBank)
  have hraw : (((setupPins (encoderBus plainFormat) (bootEncoders bootBank)).spi.encoders
    (encoderAt 3)).raw.toNat : Int) = 100 := by decide
  rw [hraw] at hstart
  have hback := tracking_event plainFormat
    (show EncoderEvent.Keeps 3 (.move 3 .backward) from trivial) hstart
  have hfirst := (tracking_reading plainFormat (by decide) hstart).symm.trans htotal
  have hsecond := (tracking_reading plainFormat (by decide) hback).symm.trans hlast
  have hzero : reading 12 12 100 0 = 0 := by decide
  have hturn : reading 12 12 100 (0 + EncoderEvent.count (encoderAt 3) (.move 3 .backward)) =
      4095 := by decide
  have hmoved : moved (encoderAt 3) [.move 3 .backward] - moved (encoderAt 3) [] = -1 := by decide
  rw [hzero, Except.ok.injEq] at hfirst
  rw [hturn, hmoved, Except.ok.injEq, ← hfirst] at hsecond
  norm_num at hsecond

end QuadBot
