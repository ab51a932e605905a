import QuadBot.EncoderTurns
import QuadBot.Lib.Routed

/-! What the sixteen encoders measure over any run of shaft moves and calls, resets among them: each
channel is a gauge of its own, which counts from the place of its last reset, and nothing that
happens at another channel changes its readings. -/

namespace QuadBot

open Odometer Routed

/-- A shaft that stands `count` from its last reset, which was at the raw position `origin`. -/
structure Gauge where
  origin : Int
  count : Int

namespace Gauge

/-- At power-on the offset is 0, and all that the encoder shows counts. -/
def start (e : AbsoluteEncoder) : Gauge := ⟨0, 4096 * e.turns.toNat + e.raw.toNat⟩

/-- A reset makes the raw position of the shaft the origin. -/
def act (g : Gauge) : EncoderEvent → Gauge
  | .move _ m => { g with count := g.count + m.count }
  | .call (.reset _) => ⟨(g.origin + g.count) % 4096, 0⟩
  | .call _ => g

/-- The position that is read, in degrees. -/
def degrees (g : Gauge) : ℚ := (g.count % 4096 : Int) * 360.0 / 4096.0

/-- The turns that are read: those past the raw zero, in 12 bits without a sign. -/
def turns (g : Gauge) : Int := (g.origin + g.count) / 4096 % 4096

end Gauge

namespace EncoderEvent

/-- The encoder whose gauge changes. -/
def target : EncoderEvent → Option (Fin 16)
  | move c _ => some c
  | call (.reset channel) => some (encoderAt channel)
  | call _ => none

/-- A call is on a channel that exists. -/
def Valid : EncoderEvent → Prop
  | move _ _ => True
  | call op => op.channel.toNat < 16

instance : DecidablePred Valid
  | move _ _ => inferInstanceAs (Decidable True)
  | call op => inferInstanceAs (Decidable (op.channel.toNat < 16))

end EncoderEvent

/-- The gauges after an event. -/
def gaugesStep (g : Fin 16 → Gauge) (event : EncoderEvent) : Fin 16 → Gauge :=
  fun c => if event.target = some c then (g c).act event else g c

theorem gauges_routes : Routes gaugesStep EncoderEvent.target Gauge.act where
  named h := if_pos h
  frame h := if_neg h

/-- Every channel tracks its gauge. -/
structure Gauged (g : Fin 16 → Gauge) (s : Encoders EncoderBank) : Prop where
  tracking : ∀ channel (h : channel.toNat < 16),
    Tracking channel h (g (encoderAt channel)).origin (g (encoderAt channel)).count s
  origin : ∀ c, 0 ≤ (g c).origin ∧ (g c).origin < 4096

section

variable (format : WordFormat) {s : Encoders EncoderBank} {g : Fin 16 → Gauge}

theorem digitalWrite_odometer (pin : Pin) (level : Bool) (s : Encoders EncoderBank) (c : Fin 16) :
    ((s.digitalWrite (encoderBus format) pin level).spi.encoders c).toOdometer =
      (s.spi.encoders c).toOdometer := by
  simp only [Encoders.digitalWrite, encoderBus]
  split <;> rfl

/-- The setup only writes to pins. -/
theorem setupPins_odometer (b : EncoderBank) (c : Fin 16) :
    ((setupPins (encoderBus format) (bootEncoders b)).spi.encoders c).toOdometer =
      (b.encoders c).toOdometer := by
  simp only [setupPins, digitalWrite_odometer]
  rfl

theorem gauged_start (b : EncoderBank) :
    Gauged (fun c => Gauge.start (b.encoders c))
      (setupPins (encoderBus format) (bootEncoders b)) := by
  refine ⟨?_, fun c => ⟨le_rfl, Int.emod_lt_of_pos 0 (show (0 : Int) < 4096 by decide)⟩⟩
  intro channel h
  refine ⟨setupPins_ready format b, ?_, ?_⟩
  · rw [setupPins_odometer]
    exact (eq_ofAngle_registers _).trans (congrArg _ (Int.zero_add _).symm)
  · show ((Vector.replicate 16 (0 : UInt16))[channel.toNat].toNat : Int) = 0
    rw [Vector.getElem_replicate]
    rfl

/-- An event that does not reset the channel moves its gauge as it moves its shaft. -/
theorem gaugesStep_kept {channel : UInt8} (h : channel.toNat < 16) {event : EncoderEvent}
    (hevent : event.Keeps channel) (g : Fin 16 → Gauge) :
    gaugesStep g event (encoderAt channel) = { g (encoderAt channel) with
      count := (g (encoderAt channel)).count + event.count (encoderAt channel) } := by
  unfold gaugesStep
  cases event with
  | move c m =>
    by_cases hc : c = encoderAt channel
    · simp [EncoderEvent.target, EncoderEvent.count, Gauge.act, hc]
    · simp [EncoderEvent.target, EncoderEvent.count, hc]
  | call op =>
    cases op with
    | position | turns => simp [EncoderEvent.target, EncoderEvent.count]
    | reset other =>
      obtain ⟨hother, hne⟩ := hevent
      have hc : encoderAt other ≠ encoderAt channel := by
        intro heq
        exact hne (congrArg _ (encoderAt_injective hother h heq))
      simp [EncoderEvent.target, EncoderEvent.count, hc]

/-- One event. -/
theorem gauged_event {event : EncoderEvent} (hevent : event.Valid) (hs : Gauged g s) :
    Gauged (gaugesStep g event) (event.exec format s) := by
  constructor
  · intro channel h
    by_cases hreset : event = .call (.reset channel)
    · subst hreset
      have htracking := hs.tracking channel h
      have hraw : ((s.spi.encoders (encoderAt channel)).raw.toNat : Int) =
          ((g (encoderAt channel)).origin + (g (encoderAt channel)).count) % 4096 := by
        rw [htracking.odometer, ofAngle_raw_toNat]
        rfl
      have hstart := tracking_reset format h htracking.ready
      rw [hraw] at hstart
      have htarget : (EncoderEvent.call (.reset channel)).target = some (encoderAt channel) := rfl
      rw [gauges_routes.named htarget]
      exact hstart
    · have hkeeps : event.Keeps channel := by
        cases event with
        | move c m => trivial
        | call op => exact ⟨hevent, fun heq => hreset (congrArg _ heq)⟩
      rw [gaugesStep_kept h hkeeps]
      exact tracking_event format hkeeps (hs.tracking channel h)
  · intro c
    unfold gaugesStep
    split
    · cases event with
      | move => exact hs.origin c
      | call op =>
        cases op with
        | position | turns => exact hs.origin c
        | reset channel => exact ⟨Int.emod_nonneg _ (by decide), Int.emod_lt_of_pos _ (by decide)⟩
    · exact hs.origin c

/-- A run of events. -/
theorem gauged_run {events : List EncoderEvent} (hevents : ∀ event ∈ events, event.Valid)
    (hs : Gauged g s) : Gauged (events.foldl gaugesStep g) (runEvents format events s) := by
  induction events generalizing s g with
  | nil => exact hs
  | cons event events ih =>
    apply ih (fun e he => hevents e (List.mem_cons_of_mem event he))
    exact gauged_event format (hevents event List.mem_cons_self) hs

/-- What the calls read from a channel is what its gauge shows. -/
theorem gauged_reads (hs : Gauged g s) {channel : UInt8} (h : channel.toNat < 16) :
    (readEncoderPosition (encoderBus format) channel s).1 =
        .ok (g (encoderAt channel)).degrees ∧
      (readTurns (encoderBus format) channel s).1.toInt = (g (encoderAt channel)).turns := by
  have htracking := hs.tracking channel h
  have hposition := tracking_position format (hs.origin (encoderAt channel)).2 htracking
  refine ⟨?_, tracking_turns format htracking⟩
  rw [(readEncoderPosition_eq (encoderBus format) h s).1, Gauge.degrees, ← hposition]
  rfl

/-- Over every run of shaft moves and calls on channels that exist, from every position of the
shafts at power-on: the reads of a channel show its own gauge, on which nothing acts but the moves
of its shaft and its resets. -/
theorem encoders_show_gauges (b : EncoderBank) {events : List EncoderEvent}
    (hevents : ∀ event ∈ events, event.Valid)
    (hs : s = runEvents format events (setupPins (encoderBus format) (bootEncoders b)))
    {channel : UInt8} (h : channel.toNat < 16) {shown : Gauge}
    (hshown : shown = (own EncoderEvent.target (encoderAt channel) events).foldl Gauge.act
      (Gauge.start (b.encoders (encoderAt channel)))) :
    (readEncoderPosition (encoderBus format) channel s).1 = .ok shown.degrees ∧
      (readTurns (encoderBus format) channel s).1.toInt = shown.turns := by
  subst hs hshown
  have hrun := gauged_run format hevents (gauged_start format b)
  have hreads := gauged_reads format hrun h
  rwa [gauges_routes.foldl_apply] at hreads

end

theorem encoders_show_gauges_two_shafts :
    (readEncoderPosition (encoderBus plainFormat) 3 (runEvents plainFormat
      [.call (.reset 3), .move 3 .backward, .move 4 .forward, .call (.reset 4), .call (.turns 3)]
      (setupPins (encoderBus plainFormat) (bootEncoders bootBank)))).1 =
        .ok (Gauge.mk 100 (-1)).degrees :=
  (encoders_show_gauges plainFormat bootBank
    (show ∀ event ∈ [EncoderEvent.call (.reset 3), .move 3 .backward, .move 4 .forward,
      .call (.reset 4), .call (.turns 3)], event.Valid by decide) rfl (by decide) rfl).1

end QuadBot
