import QuadBot.BmsLost
import QuadBot.EncoderGauges
import QuadBot.LoopMotors
import QuadBot.MotorLost
import QuadBot.PowerRuns

/-! The firmware as a whole: `setup` of `main.cpp`, which starts the motors, the encoders, the
battery chip and the power path, and what it leaves them in. The pin directions, the delays and the
progress messages are left out. -/

namespace QuadBot

open Latest Lossy Lts Odometer Routed

/-- The state of the firmware with all its devices. -/
structure Firmware where
  enPin : Bool
  nreset : Bool
  servoRegEnable : Bool
  /-- `onBMSReadyRise` is attached to the pin RDY. -/
  rdyAttached : Bool
  loop : Loop MotorBus
  bms : Bms BmsChip
  encoders : Encoders EncoderBank
  power : Power PowerBench

namespace Firmware

/-- The variables at power-on, the pins at any levels and the devices in any state; those that
EN_PIN turns on are in the state in which they come up. -/
def powerOn (wire : MotorBus) (wire1 : BmsChip) (bank : EncoderBank) (bench : PowerBench)
    (enPin nreset servoRegEnable : Bool) : Firmware where
  enPin
  nreset
  servoRegEnable
  rdyAttached := false
  loop := startLoop { currentChannel := -1, wire, errors := [] }
  bms := bootBms wire1
  encoders := bootEncoders bank
  power := { board := bench, warnings := [] }

/-- The level of the pin NRESET, which is the reset of the mux: while it is LOW no channel is
open. -/
def writeNreset (level : Bool) (f : Firmware) : Firmware :=
  if level then { f with nreset := true }
  else
    let motor := f.loop.motor
    { f with
      nreset := false
      loop := { f.loop with motor := { motor with wire := { motor.wire with control := 0 } } } }

/-- The levels that `setup` writes first. -/
def setupLevels (format : WordFormat) (f : Firmware) : Firmware :=
  let power := f.power.write powerBench .PRE_DSG_EN false
  let power := power.write powerBench .DSG_EN false
  let power := power.write powerBench .CHG_EN false
  let encoders := setupPins (encoderBus format) f.encoders
  let f := { f with power, encoders, enPin := false }
  let f := f.writeNreset false
  { f with servoRegEnable := false }

/-- `resetEncoder` for the channels 0 to 15. -/
def resetEncoders (format : WordFormat) (s : Encoders EncoderBank) : Encoders EncoderBank :=
  (List.range 16).foldl
    (fun s channel => (resetEncoder (encoderBus format) (UInt8.ofNat channel) s).2) s

def setup (format : WordFormat) (cfg : Settings) (f : Firmware) : Firmware :=
  let f := f.setupLevels format
  let f := { f with enPin := true }
  let f := f.writeNreset false
  let f := f.writeNreset true
  let f := { f with loop := { f.loop with motor := setupMotors motorBus f.loop.motor } }
  let f := { f with encoders := resetEncoders format f.encoders }
  let f := { f with bms := setUpBMS bmsBus cfg f.bms }
  let f := { f with rdyAttached := true }
  let f := { f with bms := setBMSConversionState bmsBus cfg "CONVERSION_ON" f.bms }
  { f with power := precharge powerBench 1 f.power }

end Firmware

/-! ### The motors -/

theorem setupCommands_sparesMux : ∀ op ∈ setupCommands, op.SparesMux := fun op hop =>
  (setupCommands_valid op hop).sparesMux

theorem setupMotors_atMostOneOpen {s : Motor MotorBus} (hs : AtMostOneOpen s.wire.control) :
    AtMostOneOpen (setupMotors motorBus s).wire.control :=
  run_atMostOneOpen hs setupCommands_sparesMux (setupMotors_run 0 s)

/-- `setup` writes to no driver outside the default address. -/
theorem setupMotors_reg_frame (s : Motor MotorBus) (c : Fin 8) {a : UInt8}
    (ha : a ≠ MOTOR_DRIVER_DEFAULT_ADDRESS) :
    (setupMotors motorBus s).wire.reg c a = s.wire.reg c a :=
  run_reg_frame setupCommands_sparesMux
    (fun op hop m ht => absurd (setupCommands_target op hop m a ht).2 ha) (setupMotors_run 0 s) c

/-! ### The battery chip -/

/-- The words of `setup` for the battery chip. -/
def bootWords (cfg : Settings) : List (UInt8 × UInt16) :=
  setupWords ++ [(0x02, cfg.conversionOnValue)]

/-- Their writes, under the given conversion register. -/
def bootWrites (cfg : Settings) (conversion : UInt16) : List ChipWrite :=
  (bootWords cfg).map fun w => ⟨0x49, w.1, w.2, conversion⟩

def bootOps : List BmsOp := setupOps ++ [.conversionState "CONVERSION_ON"]

theorem bootWords_nodup (cfg : Settings) : ((bootWords cfg).map Prod.fst).Nodup := by
  show (setupWords.map Prod.fst ++ [0x02]).Nodup
  decide

/-- The words go out under the conversion register as it is before them. -/
theorem recorded_boot (cfg : Settings) (oks : Stream' Bool) (conversion : UInt16) :
    recorded (outcomes ((bootWords cfg).map storeOf) oks) conversion =
      bootWrites cfg conversion := by
  have hwords : ∀ (words : List (UInt8 × UInt16)) (oks : Stream' Bool),
      (∀ w ∈ words, w.1 ≠ 0x02) → recorded (outcomes (words.map storeOf) oks) conversion =
        words.map fun w => ⟨0x49, w.1, w.2, conversion⟩ := by
    intro words
    induction words with
    | nil => exact fun _ _ => rfl
    | cons w words ih =>
      intro oks hne
      have hdata : Transaction.dataFor 0x02 (storeOf w) = none :=
        if_neg (hne w List.mem_cons_self).symm
      rw [List.map_cons, outcomes, recorded, arrived_mk, hdata, ite_self, Option.getD_none,
        ih _ fun v hv => hne v (List.mem_cons_of_mem w hv)]
      rfl
  have hkept : ∀ a ∈ setupWords.map storeOf, Transaction.dataFor 0x02 a = none := by
    intro a ha
    obtain ⟨w, hw, rfl⟩ := List.mem_map.mp ha
    exact if_neg (setupWords_ne hw).symm
  rw [bootWrites, bootWords, List.map_append, outcomes_append, recorded_append,
    latest_arrived_of_none hkept, hwords _ _ fun w hw => setupWords_ne hw, List.map_append]
  rfl

theorem boot_bms (cfg : Settings) (s : Bms BmsChip) :
    setBMSConversionState bmsBus cfg "CONVERSION_ON" (setUpBMS bmsBus cfg s) =
      runOps cfg bootOps s := by
  rw [setUpBMS_eq_runOps, runOps, runOps, bootOps, List.foldl_append]
  rfl

/-! ### The encoders -/

/-- The reset of every channel. -/
def resetEvents : List EncoderEvent :=
  (List.range 16).map fun channel => .call (.reset (UInt8.ofNat channel))

theorem resetEncoders_eq (format : WordFormat) (s : Encoders EncoderBank) :
    Firmware.resetEncoders format s = runEvents format resetEvents s := by
  rw [runEvents, resetEvents, List.foldl_map]
  rfl

theorem resetEvents_valid : ∀ event ∈ resetEvents, event.Valid := by decide

theorem own_resetEvents (c : Fin 16) :
    own EncoderEvent.target c resetEvents = [.call (.reset (UInt8.ofNat c.val))] := by
  revert c
  decide

/-- After the resets every gauge starts from the raw position of its shaft. -/
theorem gauged_resets (format : WordFormat) (b : EncoderBank) :
    Gauged (fun c => ⟨(b.encoders c).raw.toNat, 0⟩)
      (Firmware.resetEncoders format (setupPins (encoderBus format) (bootEncoders b))) := by
  have hrun := gauged_run format resetEvents_valid (gauged_start format b)
  rw [← resetEncoders_eq] at hrun
  have hgauges : resetEvents.foldl gaugesStep (fun c => Gauge.start (b.encoders c)) =
      fun c => ⟨(b.encoders c).raw.toNat, 0⟩ := by
    funext c
    have hraw : ((b.encoders c).raw.toNat : Int) < 4096 := by
      exact_mod_cast (b.encoders c).raw.isLt
    rw [gauges_routes.foldl_apply, own_resetEvents]
    show Gauge.mk
      ((0 + (4096 * (b.encoders c).turns.toNat + (b.encoders c).raw.toNat)) % 4096) 0 = _
    congr 1
    omega
  rwa [hgauges] at hrun

/-! ### After `setup` -/

/-- What `setup` leaves, whatever is acknowledged, of devices that were in the given states. -/
structure Booted (cfg : Settings) (wire : MotorBus) (wire1 : BmsChip) (bank : EncoderBank)
    (bench : PowerBench) (f : Firmware) : Prop where
  levels : f.enPin = true ∧ f.nreset = true ∧ f.servoRegEnable = false ∧ f.rdyAttached = true
  loop : f.loop = startLoop (setupMotors motorBus
    { currentChannel := -1, wire := { wire with control := 0 }, errors := [] })
  served : Served (bootBms wire1) ((bootWords cfg).map storeOf) f.bms
  converts : f.bms.converts = true
  gauged : Gauged (fun c => ⟨(bank.encoders c).raw.toNat, 0⟩) f.encoders
  resistor : f.power.board.preDsgEn = false
  fets : f.power.board.dsgEn = decide (enoughCounts ≤ bench.readings.head)
  charger : f.power.board.chgEn = false

section

variable (format : WordFormat) (cfg : Settings) (wire : MotorBus) (wire1 : BmsChip)
  (bank : EncoderBank) (bench : PowerBench) (enPin nreset servoRegEnable : Bool)

theorem setup_bms (f : Firmware) : (f.setup format cfg).bms =
    setBMSConversionState bmsBus cfg "CONVERSION_ON" (setUpBMS bmsBus cfg f.bms) := by
  simp only [Firmware.setup, Firmware.writeNreset, Firmware.setupLevels, Bool.false_eq_true,
    if_false, if_true]

theorem setup_encoders (f : Firmware) : (f.setup format cfg).encoders =
    Firmware.resetEncoders format (setupPins (encoderBus format) f.encoders) := by
  simp only [Firmware.setup, Firmware.writeNreset, Firmware.setupLevels, Bool.false_eq_true,
    if_false, if_true]

theorem setup_power (f : Firmware) : (f.setup format cfg).power =
    (PowerOp.precharge 1).exec (f.setupLevels format).power := rfl

theorem setup_booted : Booted cfg wire wire1 bank bench
    ((Firmware.powerOn wire wire1 bank bench enPin nreset servoRegEnable).setup format cfg) := by
  have hbms := served_run cfg (bootBms wire1) bootOps
  rw [← boot_bms] at hbms
  have hfits : (PowerOp.precharge 1).Fits := by simp [PowerOp.Fits]
  have hprecharge := PowerOp.exec_leaves hfits
    (Firmware.setupLevels format
      (Firmware.powerOn wire wire1 bank bench enPin nreset servoRegEnable)).power
  constructor
  · exact ⟨rfl, rfl, rfl, rfl⟩
  · rfl
  · rw [setup_bms]
    exact hbms.1
  · rw [setup_bms]
    exact hbms.2
  · rw [setup_encoders]
    exact gauged_resets format bank
  · rw [setup_power]
    exact hprecharge.resistor rfl
  · rw [setup_power]
    refine hprecharge.fets.trans ?_
    show (if enoughCounts ≤ bench.readings.head then some true else none).getD false = _
    split <;> simp [*]
  · rw [setup_power]
    exact hprecharge.charger

end

end QuadBot
