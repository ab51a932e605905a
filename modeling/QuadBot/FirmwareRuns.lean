import QuadBot.BmsReady
import QuadBot.Firmware

/-! The firmware as it runs. After `setup` the calls of `loop`, the interrupts of the pin RDY and
the moves of the shafts come in any order. Each part of the firmware sees its own events alone: the
motors the text on Serial, the battery chip nothing that is sent after `setup`, the encoders their
shafts, and the power path nothing. An interrupt while `setup` or `loop` runs does what one after it
does, as neither reads what `onBMSReadyRise` sets. -/

namespace QuadBot

open Latest Lossy Lts Odometer

inductive FirmwareEvent
  /-- A call of `loop`, with the characters that it finds. -/
  | serial (available : List Char)
  /-- A rising edge of the pin RDY at an instant, in microseconds. -/
  | ready (instant : Nat)
  | move (encoder : Fin 16) (m : ShaftMove)

namespace FirmwareEvent

def available : FirmwareEvent → Option (List Char)
  | serial available => some available
  | _ => none

def reading : FirmwareEvent → Option UInt32
  | ready instant => some (micros instant)
  | _ => none

def shaft : FirmwareEvent → Option EncoderEvent
  | move encoder m => some (.move encoder m)
  | _ => none

end FirmwareEvent

/-- What the calls of `loop` find. -/
def serialChunks (events : List FirmwareEvent) : List (List Char) :=
  events.filterMap FirmwareEvent.available

/-- What the interrupts read from `micros()`. -/
def readyReadings (events : List FirmwareEvent) : List UInt32 :=
  events.filterMap FirmwareEvent.reading

/-- The moves of the shafts. -/
def shaftEvents (events : List FirmwareEvent) : List EncoderEvent :=
  events.filterMap FirmwareEvent.shaft

namespace Firmware

variable (format : WordFormat) (fuel : Nat)

/-- The interrupt runs `onBMSReadyRise` where it is attached. -/
def event (f : Firmware) : FirmwareEvent → Except Stuck Firmware
  | .serial available => do
    let loop ← QuadBot.loop motorBus fuel available f.loop
    return { f with loop }
  | .ready instant =>
    return if f.rdyAttached then { f with bms := onBMSReadyRise (micros instant) f.bms } else f
  | .move encoder m =>
    return { f with encoders := (EncoderEvent.move encoder m).exec format f.encoders }

/-- `setup`, and then the events. -/
def runFrom (cfg : Settings) (events : List FirmwareEvent) (f : Firmware) :
    Except Stuck Firmware :=
  events.foldlM (event format fuel) (f.setup format cfg)

end Firmware

/-! ### The parts of a run -/

section

variable {format : WordFormat} {fuel : Nat} {f t : Firmware}

/-- The interrupts set the timestamp, and do nothing to the chip. -/
theorem bms_events (events : List FirmwareEvent) (s : Bms BmsChip) :
    ((readyReadings events).foldl (fun s now => onBMSReadyRise now s) s).wire1 =
        s.wire1 ∧
      ((readyReadings events).foldl (fun s now => onBMSReadyRise now s)
        s).bmsDataTimestamp = latest FirmwareEvent.reading events s.bmsDataTimestamp := by
  rw [readyReadings, List.foldl_filterMap]
  refine view_foldl (fun t : Bms BmsChip => t.wire1 = s.wire1) Bms.bmsDataTimestamp ?_ events rfl
  intro t event ht
  cases event <;> exact ⟨ht, rfl⟩

/-- What a run that gets through leaves of each part. -/
structure Ran (format : WordFormat) (fuel : Nat) (f : Firmware) (events : List FirmwareEvent)
    (t : Firmware) : Prop where
  loop : (serialChunks events).foldlM
    (fun s available => loop motorBus fuel available s) f.loop = .ok t.loop
  bms : t.bms =
    (readyReadings events).foldl (fun s now => onBMSReadyRise now s) f.bms
  encoders : t.encoders = runEvents format (shaftEvents events) f.encoders
  power : t.power = f.power
  levels : t.enPin = f.enPin ∧ t.nreset = f.nreset ∧ t.servoRegEnable = f.servoRegEnable ∧
    t.rdyAttached = true

/-- The events of a run act on each part in their order, whatever comes between them. -/
theorem foldlM_event (hf : f.rdyAttached = true) (events : List FirmwareEvent) :
    events.foldlM (Firmware.event format fuel) f =
      ((serialChunks events).foldlM
        (fun s available => loop motorBus fuel available s) f.loop).map fun loop =>
          { f with
            loop
            bms :=
              (readyReadings events).foldl (fun s now => onBMSReadyRise now s) f.bms
            encoders := runEvents format (shaftEvents events) f.encoders } := by
  induction events generalizing f with
  | nil => rfl
  | cons event events ih =>
    rw [List.foldlM_cons]
    cases event with
    | serial available =>
      have hchunks : serialChunks (.serial available :: events) =
          available :: serialChunks events := rfl
      rw [hchunks, List.foldlM_cons, Firmware.event]
      cases loop motorBus fuel available f.loop with
      | error e => rfl
      | ok s => exact ih (f := { f with loop := s }) hf
    | ready instant =>
      rw [Firmware.event, if_pos hf]
      exact ih (f := { f with bms := onBMSReadyRise (micros instant) f.bms }) hf
    | move encoder m =>
      rw [Firmware.event]
      exact ih (f := { f with encoders := (EncoderEvent.move encoder m).exec format f.encoders }) hf

theorem ran_of_foldlM (hf : f.rdyAttached = true) {events : List FirmwareEvent}
    (h : events.foldlM (Firmware.event format fuel) f = .ok t) : Ran format fuel f events t := by
  rw [foldlM_event hf] at h
  cases hloop : (serialChunks events).foldlM
      (fun s available => loop motorBus fuel available s) f.loop with
  | error e => rw [hloop] at h; cases h
  | ok s =>
    rw [hloop] at h
    cases h
    exact ⟨hloop, rfl, rfl, rfl, rfl, rfl, rfl, hf⟩

/-- Where `loop` gets through, so does the run. -/
theorem exists_ran (format : WordFormat) (hf : f.rdyAttached = true)
    {events : List FirmwareEvent} {s : Loop MotorBus}
    (h : (serialChunks events).foldlM (fun s available => loop motorBus fuel available s) f.loop =
      .ok s) :
    ∃ t, events.foldlM (Firmware.event format fuel) f = .ok t ∧ Ran format fuel f events t ∧
      t.loop = s := by
  have hrun : events.foldlM (Firmware.event format fuel) f = _ := foldlM_event hf events
  rw [h] at hrun
  exact ⟨_, hrun, ran_of_foldlM hf hrun, rfl⟩

/-- Without resets the count of a gauge goes with its shaft. -/
theorem gauges_moved {channel : UInt8} (h : channel.toNat < 16) {events : List EncoderEvent}
    (hevents : ∀ event ∈ events, event.Keeps channel) (g : Fin 16 → Gauge) :
    events.foldl gaugesStep g (encoderAt channel) = ⟨(g (encoderAt channel)).origin,
      (g (encoderAt channel)).count + moved (encoderAt channel) events⟩ := by
  induction events generalizing g with
  | nil => simp [moved]
  | cons event events ih =>
    have hfirst := gaugesStep_kept h (hevents event List.mem_cons_self) g
    rw [List.foldl_cons, ih (fun e he => hevents e (List.mem_cons_of_mem event he)), hfirst]
    simp only [moved, List.map_cons, List.sum_cons, Int.add_assoc]

theorem shaftEvents_move {events : List FirmwareEvent} {event : EncoderEvent}
    (h : event ∈ shaftEvents events) : ∃ encoder m, event = .move encoder m := by
  obtain ⟨e, -, he⟩ := List.mem_filterMap.mp h
  cases e with
  | serial | ready => cases he
  | move encoder m => exact ⟨encoder, m, (Option.some.inj he).symm⟩

end

/-! ### Whole runs -/

section

variable (format : WordFormat) (fuel : Nat) (cfg : Settings) (wire : MotorBus) (wire1 : BmsChip)
  (bank : EncoderBank) (bench : PowerBench) (enPin nreset servoRegEnable : Bool)

/-- The encoders at the end of a run. -/
theorem ran_encoders {events : List FirmwareEvent} {f t : Firmware}
    (hf : Booted cfg wire wire1 bank bench f) (ht : Ran format fuel f events t) {channel : UInt8}
    (h : channel.toNat < 16) {shown : Gauge}
    (hshown : shown = ⟨(bank.encoders (encoderAt channel)).raw.toNat,
      moved (encoderAt channel) (shaftEvents events)⟩) :
    (readEncoderPosition (encoderBus format) channel t.encoders).1 = .ok shown.degrees ∧
      (readTurns (encoderBus format) channel t.encoders).1.toInt = shown.turns := by
  have hvalid : ∀ event ∈ shaftEvents events, event.Valid := by
    intro event hevent
    obtain ⟨encoder, m, rfl⟩ := shaftEvents_move hevent
    trivial
  have hkeeps : ∀ event ∈ shaftEvents events, event.Keeps channel := by
    intro event hevent
    obtain ⟨encoder, m, rfl⟩ := shaftEvents_move hevent
    trivial
  have hreads := gauged_reads format (gauged_run format hvalid hf.gauged) h
  rw [← ht.encoders, gauges_moved h hkeeps] at hreads
  simp only [Int.zero_add, ← hshown] at hreads
  exact hreads

/-- The motors at the end of a run. -/
theorem ran_motors {events : List FirmwareEvent} {f t : Firmware}
    (hf : Booted cfg wire wire1 bank bench f) (ht : Ran format fuel f events t) :
    Run (motorStep fuel)
      (setupMotors motorBus
        { currentChannel := -1, wire := { wire with control := 0 }, errors := [] })
      (lineOps (serialChunks events).flatten) t.loop.motor := by
  have hloop := ht.loop
  rw [hf.loop] at hloop
  exact run_iff_foldlM.mpr (execAll_of_loop hloop)

/-- What holds of the firmware after a run, of devices that were in the given states before
`setup`. -/
structure KeptSafe (format : WordFormat) (cfg : Settings) (wire : MotorBus) (wire1 : BmsChip)
    (bank : EncoderBank) (bench : PowerBench) (events : List FirmwareEvent) (t : Firmware) :
    Prop where
  mux : AtMostOneOpen t.loop.motor.wire.control
  /-- Only the drivers at the default address and those that a line names have been written. -/
  drivers : ∀ a, a ≠ MOTOR_DRIVER_DEFAULT_ADDRESS →
    (∀ op ∈ lineOps (serialChunks events).flatten, ∀ m, op.target ≠ some (m, a)) →
    ∀ c, t.loop.motor.wire.reg c a = wire.reg c a
  /-- The words of `setup` are all that has been sent to the battery chip, each of them under the
  conversion register that it had before. -/
  log : t.bms.wire1.log = wire1.log ++ bootWrites cfg (wire1.reg 0x02)
  registers : ∀ i w, (bootWords cfg)[i]? = some w →
    t.bms.wire1.reg w.1 = if wire1.acks.get i then w.2 else wire1.reg w.1
  others : ∀ k, k ∉ (bootWords cfg).map Prod.fst → t.bms.wire1.reg k = wire1.reg k
  /-- The timestamp is that of the last interrupt. -/
  timestamp : t.bms.bmsDataTimestamp = latest FirmwareEvent.reading events 0
  /-- An encoder reads what its shaft has moved since `setup`. -/
  encoders : ∀ channel, channel.toNat < 16 → ∀ shown : Gauge,
    shown = ⟨(bank.encoders (encoderAt channel)).raw.toNat,
      moved (encoderAt channel) (shaftEvents events)⟩ →
    (readEncoderPosition (encoderBus format) channel t.encoders).1 = .ok shown.degrees ∧
      (readTurns (encoderBus format) channel t.encoders).1.toInt = shown.turns
  /-- Of the power path the discharge FETs alone are on, where the pack read high enough. -/
  power : t.power.board.preDsgEn = false ∧ t.power.board.chgEn = false ∧
    (t.power.board.dsgEn = true ↔ enoughCounts ≤ bench.readings.head)

/-- The chip at the end of a run is as `setup` leaves it. -/
theorem ran_chip {events : List FirmwareEvent} {f t : Firmware}
    (hf : Booted cfg wire wire1 bank bench f) (ht : Ran format fuel f events t) :
    t.bms.wire1.acks = wire1.acks.drop (bootWords cfg).length ∧
    t.bms.wire1.log = wire1.log ++ bootWrites cfg (wire1.reg 0x02) ∧
    (∀ i w, (bootWords cfg)[i]? = some w →
      t.bms.wire1.reg w.1 = if wire1.acks.get i then w.2 else wire1.reg w.1) ∧
    ∀ k, k ∉ (bootWords cfg).map Prod.fst → t.bms.wire1.reg k = wire1.reg k := by
  obtain ⟨hchip, -⟩ := bms_events events f.bms
  rw [← ht.bms] at hchip
  rw [hchip, hf.served.acks, hf.served.log, recorded_boot, List.length_map]
  refine ⟨rfl, rfl, ?_, ?_⟩
  · intro i w hi
    rw [hf.served.reg]
    exact latest_stores (bootWords_nodup cfg) hi _ _
  · intro k hk
    rw [hf.served.reg]
    exact latest_stores_other hk _ _

/-- Every run of the firmware that gets through is safe: from any state of the devices, with any
outcomes of the transactions on both buses, for any text on Serial that leaves the address of the
mux alone, and for any order of the calls of `loop`, the interrupts and the moves of the shafts. -/
theorem firmware_runs_safe {events : List FirmwareEvent} {t : Firmware}
    (hspares : ∀ op ∈ lineOps (serialChunks events).flatten, op.SparesMux)
    (hrun : Firmware.runFrom format fuel cfg events
      (.powerOn wire wire1 bank bench enPin nreset servoRegEnable) = .ok t) :
    KeptSafe format cfg wire wire1 bank bench events t := by
  have hbooted : Booted cfg wire wire1 bank bench _ :=
    setup_booted format cfg wire wire1 bank bench enPin nreset servoRegEnable
  have hran := ran_of_foldlM hbooted.levels.2.2.2 hrun
  have hmotors := ran_motors format fuel cfg wire wire1 bank bench hbooted hran
  obtain ⟨-, hlog, hregisters, hothers⟩ :=
    ran_chip format fuel cfg wire wire1 bank bench hbooted hran
  obtain ⟨-, htimestamp⟩ := bms_events events
    ((Firmware.powerOn wire wire1 bank bench enPin nreset servoRegEnable).setup format cfg).bms
  rw [← hran.bms] at htimestamp
  constructor
  · exact run_atMostOneOpen (setupMotors_atMostOneOpen (Or.inl rfl)) hspares hmotors
  · intro a ha hnamed c
    rw [run_reg_frame hspares hnamed hmotors]
    exact setupMotors_reg_frame _ c ha
  · exact hlog
  · exact hregisters
  · exact hothers
  · rw [htimestamp, hbooted.served.timestamp]
    rfl
  · intro channel h shown hshown
    exact ran_encoders format fuel cfg wire wire1 bank bench hbooted hran h hshown
  · rw [hran.power]
    exact ⟨hbooted.resistor, hbooted.charger, by rw [hbooted.fets, decide_eq_true_iff]⟩

/-- The selection of channel 0 is lost on the way, and an interrupt and a move of a shaft come after
the line. -/
theorem firmware_runs_safe_lost_selection : ∃ t,
    Firmware.runFrom plainFormat 0 settings
        [.serial "stop 0 96\n".toList, .ready 5000000, .move 3 .forward]
        (.powerOn (bootMotor fun n => n != 41).wire (bootChip acked) bootBank
          (bootPower (Stream'.const 300)).board false false false) = .ok t ∧
      AtMostOneOpen t.loop.motor.wire.control ∧ t.bms.bmsDataTimestamp = 5000000 ∧
      (readEncoderPosition (encoderBus plainFormat) 3 t.encoders).1 =
        .ok (Gauge.mk (bootBank.encoders 3).raw.toNat 1).degrees := by
  have hops : lineOps "stop 0 96\n".toList = [.stop 0 0x60] := by decide
  have hrun : Firmware.runFrom plainFormat 0 settings
      [.serial "stop 0 96\n".toList, .ready 5000000, .move 3 .forward]
      (.powerOn (bootMotor fun n => n != 41).wire (bootChip acked) bootBank
        (bootPower (Stream'.const 300)).board false false false) = .ok _ := rfl
  have hsafe := firmware_runs_safe plainFormat 0 settings _ _ _ _ _ _ _ (by
    show ∀ op ∈ lineOps "stop 0 96\n".toList, op.SparesMux
    rw [hops]
    simp [MotorOp.SparesMux, MotorOp.target, I2C_MUX_ADDRESS]) hrun
  exact ⟨_, hrun, hsafe.mux, hsafe.timestamp, (hsafe.encoders 3 (by decide) _ rfl).1⟩

/-- With everything acknowledged on both buses, and lines whose first words fit and whose commands
name channels of the mux and drivers other than the mux, every order of the events gets through. The
registers of the drivers show the robot that the lines describe, a motor that no line has moved is
off, and the battery chip holds every word of `setup`. -/
theorem firmware_refines_robot (hacks : wire.acks = acked) (hacks1 : wire1.acks = acked)
    {events : List FirmwareEvent}
    (hwords : ∀ line ∈ completeLines (serialChunks events).flatten,
      (firstWord (bufferedLine line)).length < 16)
    (hvalid : ∀ op ∈ lineOps (serialChunks events).flatten, op.Valid) :
    ∃ t, Firmware.runFrom format fuel cfg events
        (.powerOn wire wire1 bank bench enPin nreset servoRegEnable) = .ok t ∧
      ((Robot.started wire.reg).run (lineOps (serialChunks events).flatten)).ShownBy
        (lineOps (serialChunks events).flatten) wire.reg t.loop.motor.wire.reg ∧
      (∀ c, (∀ op ∈ ownCommands c MOTOR_DRIVER_DEFAULT_ADDRESS
          (lineOps (serialChunks events).flatten), ¬ op.Moves) →
        t.loop.motor.wire.reg c MOTOR_DRIVER_DEFAULT_ADDRESS 0x07 = 0x55) ∧
      ∀ w ∈ bootWords cfg, t.bms.wire1.reg w.1 = w.2 := by
  have hbooted : Booted cfg wire wire1 bank bench _ :=
    setup_booted format cfg wire wire1 bank bench enPin nreset servoRegEnable
  let motor : Motor MotorBus :=
    { currentChannel := -1, wire := { wire with control := 0 }, errors := [] }
  have hstart : motor.wire.acks = acked := hacks
  obtain ⟨s, hloop, hshown⟩ := loop_shows_robot fuel hstart hwords hvalid
  rw [← hbooted.loop] at hloop
  obtain ⟨t, hrun, hran, rfl⟩ := exists_ran format hbooted.levels.2.2.2 hloop
  refine ⟨t, hrun, hshown, fun c => hshown.off, ?_⟩
  intro w hw
  obtain ⟨i, hi⟩ := List.mem_iff_getElem?.mp hw
  obtain ⟨-, -, hregisters, -⟩ := ran_chip format fuel cfg wire wire1 bank bench hbooted hran
  rw [hregisters i w hi, hacks1]
  rfl

/-- Two lines and an interrupt between them: one motor runs forward at 10, and the motor behind
channel 5 is off. -/
theorem firmware_refines_robot_one_motor : ∃ t,
    Firmware.runFrom plainFormat 0 settings
        [.serial "move 3 96 10 1\nsto".toList, .ready 5000000, .serial "p 5 96\n".toList]
        (.powerOn (bootMotor acked).wire (bootChip acked) bootBank
          (bootPower (Stream'.const 300)).board false false false) = .ok t ∧
      t.loop.motor.wire.reg 3 0x60 0x07 = 0xC4 ∧ t.loop.motor.wire.reg 5 0x60 0x07 = 0x55 ∧
      t.bms.wire1.reg 0x02 = settings.conversionOnValue := by
  have hops : lineOps (serialChunks [.serial "move 3 96 10 1\nsto".toList, .ready 5000000,
      .serial "p 5 96\n".toList]).flatten =
        [.variableMotion 3 0x60 10 true, .stop 5 0x60] := by decide
  have hwords : ∀ line ∈ completeLines (serialChunks [.serial "move 3 96 10 1\nsto".toList,
      .ready 5000000, .serial "p 5 96\n".toList]).flatten,
        (firstWord (bufferedLine line)).length < 16 := by decide
  obtain ⟨t, hrun, hshown, hoff, hwords⟩ := firmware_refines_robot plainFormat 0 settings
    (bootMotor acked).wire (bootChip acked) bootBank (bootPower (Stream'.const 300)).board
    false false false rfl rfl hwords
    (by rw [hops]; simp [MotorOp.Valid, MotorOp.target, I2C_MUX_ADDRESS])
  rw [hops] at hshown hoff
  refine ⟨t, hrun, (hshown.shows 3).mode, hoff 5 ?_, hwords (0x02, _) ?_⟩
  · have hown : ownCommands 5 MOTOR_DRIVER_DEFAULT_ADDRESS
        [.variableMotion 3 0x60 10 true, .stop 5 0x60] = [.stop 5 0x60] := rfl
    simp [hown, MotorOp.Moves]
  · exact List.mem_append_right _ (List.mem_singleton_self _)

end

/-! ### Resets of the microcontroller -/

/-- A reset loses the variables and leaves the devices as they are. -/
def Firmware.reset (f : Firmware) : Firmware :=
  .powerOn f.loop.motor.wire f.bms.wire1 f.encoders.spi f.power.board f.enPin f.nreset
    f.servoRegEnable

/-- Runs of the firmware, each after a reset. -/
def Firmware.sessions (format : WordFormat) (fuel : Nat) (cfg : Settings)
    (runs : List (List FirmwareEvent)) (f : Firmware) : Except Stuck Firmware :=
  runs.foldlM (fun f events => runFrom format fuel cfg events f.reset) f

/-- The chip over one session. -/
theorem session_chip {format : WordFormat} {fuel : Nat} {cfg : Settings} {f t : Firmware}
    {events : List FirmwareEvent} (hacks : f.bms.wire1.acks = acked)
    (hrun : Firmware.runFrom format fuel cfg events f.reset = .ok t) :
    t.bms.wire1.acks = acked ∧ t.bms.wire1.reg 0x02 = cfg.conversionOnValue ∧
      t.bms.wire1.log = f.bms.wire1.log ++ bootWrites cfg (f.bms.wire1.reg 0x02) := by
  have hbooted : Booted cfg f.loop.motor.wire f.bms.wire1 f.encoders.spi f.power.board
      (f.reset.setup format cfg) := setup_booted ..
  have hran := ran_of_foldlM hbooted.levels.2.2.2 hrun
  obtain ⟨hacks', hlog, hregisters, -⟩ := ran_chip _ _ _ _ _ _ _ hbooted hran
  have hlast : (bootWords cfg)[16]? = some (0x02, cfg.conversionOnValue) := rfl
  refine ⟨?_, ?_, hlog⟩
  · rw [hacks', hacks]
    exact Stream'.drop_const _ _
  · rw [hregisters 16 _ hlast, hacks]
    rfl

/-- The firmware takes conversion to be off when it starts. Over any number of resets, whatever
happens between them, with every write to the battery chip acknowledged: each `setup` writes all its
words again, and from the second on it writes them while the chip converts. -/
theorem resets_write_while_converting {format : WordFormat} {fuel : Nat} {cfg : Settings}
    {f t : Firmware} {runs : List (List FirmwareEvent)} (hacks : f.bms.wire1.acks = acked)
    (hrun : f.sessions format fuel cfg runs = .ok t) :
    t.bms.wire1.log = f.bms.wire1.log ++
      ((f.bms.wire1.reg 0x02 :: List.replicate runs.length cfg.conversionOnValue).take
        runs.length).flatMap (bootWrites cfg) := by
  induction runs generalizing f with
  | nil =>
    obtain rfl : f = t := Except.ok.inj hrun
    simp
  | cons events runs ih =>
    rw [Firmware.sessions, List.foldlM_cons] at hrun
    cases hfirst : Firmware.runFrom format fuel cfg events f.reset with
    | error e => rw [hfirst] at hrun; cases hrun
    | ok m =>
      rw [hfirst] at hrun
      obtain ⟨hacks', hreg, hlog⟩ := session_chip hacks hfirst
      rw [ih hacks' hrun, hlog, hreg, List.length_cons, List.take_succ_cons, List.flatMap_cons,
        List.append_assoc, List.replicate_succ]

/-- A reset while the chip converts, and all the words of the second `setup` reach it then. -/
theorem resets_write_while_converting_twice : ∃ t,
    Firmware.sessions plainFormat 0 settings [[.ready 5000000], [.move 3 .forward]]
        (.powerOn (bootMotor acked).wire (bootChip acked) bootBank
          (bootPower (Stream'.const 300)).board false false false) = .ok t ∧
      t.bms.wire1.log =
        bootWrites settings 0 ++ bootWrites settings settings.conversionOnValue := by
  have hrun : Firmware.sessions plainFormat 0 settings [[.ready 5000000], [.move 3 .forward]]
      (.powerOn (bootMotor acked).wire (bootChip acked) bootBank
        (bootPower (Stream'.const 300)).board false false false) = .ok _ := rfl
  refine ⟨_, hrun, (resets_write_while_converting rfl hrun).trans ?_⟩
  rfl

end QuadBot
