import QuadBot.Lib.Lts
import Mathlib.Data.Stream.Init
import Mathlib.Data.UInt
import Mathlib.Algebra.Order.Ring.Rat

/-! The power path of `PWR_MNGMT_FCT.cpp`: the precharge resistor and the discharge FETs. The
resistor is on only inside `precharge`, and `precharge` turns the FETs on only at a charged pack;
but it does not turn them off. -/

namespace QuadBot

open Lts

/-- The output pins of the power path. -/
inductive PowerPin
  | PRE_DSG_EN
  | DSG_EN
  | CHG_EN
  deriving DecidableEq, Repr

/-- The pins and the clock, with all that is wired to them in the state `σ`. -/
structure PowerBoard (σ : Type) where
  /-- `digitalWrite`, `true` for HIGH. -/
  digitalWrite : σ → PowerPin → Bool → σ
  /-- `analogRead` of the pin PACK_SNS. -/
  analogRead : σ → Int × σ
  /-- `delay`, in milliseconds. -/
  delay : σ → UInt32 → σ

/-- The board and the warnings printed so far. -/
structure Power (σ : Type) where
  board : σ
  warnings : List String

section

variable {σ : Type} (board : PowerBoard σ)

/-- The pack voltage for a reading of the ADC. -/
def packVoltage (rawValue : Int) : ℚ :=
  let voltageAtPin : ℚ := (rawValue / 1023.0) * 3.3
  let dividerRatio : ℚ := 20.15 / 1.683
  voltageAtPin * dividerRatio

def readPackSense (s : Power σ) : ℚ × Power σ :=
  let (rawValue, b) := board.analogRead s.board
  (packVoltage rawValue, { s with board := b })

def Power.write (pin : PowerPin) (level : Bool) (s : Power σ) : Power σ :=
  { s with board := board.digitalWrite s.board pin level }

def Power.wait (ms : Int) (s : Power σ) : Power σ :=
  { s with board := board.delay s.board (.ofInt ms) }

def setDSG (state : Bool) (s : Power σ) : Power σ := s.write board .DSG_EN state

def setCHG (state : Bool) (s : Power σ) : Power σ := s.write board .CHG_EN state

def minVoltageThreshold : ℚ := 10.0

def precharge (numCapacitors : Int) (s : Power σ) : Power σ :=
  let baseTimeMs := 100
  let prechargeDuration := numCapacitors * baseTimeMs + 100
  let s := s.write board .PRE_DSG_EN true
  let s := s.wait board prechargeDuration
  let (packVoltage, s) := readPackSense board s
  if packVoltage ≥ minVoltageThreshold then
    let s := s.write board .DSG_EN true
    let s := s.wait board 100
    s.write board .PRE_DSG_EN false
  else
    let s := s.write board .PRE_DSG_EN false
    { s with warnings := s.warnings ++
        ["\n Warning: Pack voltage too low. Discharge FETs not enabled."] }

end

/-! ### The board over time -/

/-- What happens at the pins, with the milliseconds since the start. -/
inductive PowerEvent
  | write (pin : PowerPin) (level : Bool) (time : Nat)
  | sense (rawValue : Int) (time : Nat)
  deriving DecidableEq

/-- The levels of the pins, the clock, the readings of the ADC to come, and what has happened. -/
structure PowerBench where
  preDsgEn : Bool
  dsgEn : Bool
  chgEn : Bool
  now : Nat
  readings : Stream' Int
  log : List PowerEvent

def PowerBench.setPin (pin : PowerPin) (level : Bool) (b : PowerBench) : PowerBench :=
  match pin with
  | .PRE_DSG_EN => { b with preDsgEn := level }
  | .DSG_EN => { b with dsgEn := level }
  | .CHG_EN => { b with chgEn := level }

def powerBench : PowerBoard PowerBench where
  digitalWrite b pin level := { b.setPin pin level with log := b.log ++ [.write pin level b.now] }
  analogRead b := (b.readings.head,
    { b with readings := b.readings.tail, log := b.log ++ [.sense b.readings.head b.now] })
  delay b ms := { b with now := b.now + ms.toNat }

/-- A call of one of the functions that set the pins. -/
inductive PowerOp
  | precharge (numCapacitors : Int)
  | setDSG (state : Bool)
  | setCHG (state : Bool)
  deriving DecidableEq

namespace PowerOp

def exec (op : PowerOp) (s : Power PowerBench) : Power PowerBench :=
  match op with
  | precharge numCapacitors => QuadBot.precharge powerBench numCapacitors s
  | setDSG state => QuadBot.setDSG powerBench state s
  | setCHG state => QuadBot.setCHG powerBench state s

/-- The duration of the call is not negative and fits in an `int`. -/
def Fits : PowerOp → Prop
  | precharge numCapacitors => 0 ≤ numCapacitors ∧ numCapacitors * 100 + 100 < 2 ^ 31
  | setDSG _ | setCHG _ => True

def step (s : Power PowerBench) (op : PowerOp) (t : Power PowerBench) : Prop := op.exec s = t

end PowerOp

/-- The precharge resistor was turned on at `start` and not turned off since. -/
def HighSince (start : Nat) (events : List PowerEvent) : Prop :=
  ∃ before after, events = before ++ .write .PRE_DSG_EN true start :: after ∧
    ∀ time, .write .PRE_DSG_EN false time ∉ after

/-- The resistor has been on for `ms` when the pack is measured, at the threshold or above. -/
def Charged (ms : Int) (events : List PowerEvent) : Prop :=
  ∃ (start time : Nat) (rawValue : Int), HighSince start events ∧ start + ms ≤ time ∧
    .sense rawValue time ∈ events ∧ minVoltageThreshold ≤ packVoltage rawValue

/-- The events of a call may be these: only `precharge` touches the resistor, and it turns the
FETs on only at a charged pack. -/
def PowerOp.Allows (op : PowerOp) (events : List PowerEvent) : Prop :=
  match op with
  | precharge numCapacitors => ∀ before time after,
      events = before ++ .write .DSG_EN true time :: after →
        Charged ((numCapacitors + 1) * 100) before
  | setDSG _ | setCHG _ => ∀ level time, .write .PRE_DSG_EN level time ∉ events

/-- The resistor is off after the call, and was on only as the call allows. -/
structure ResistorKept (s : Power PowerBench) (op : PowerOp) : Prop where
  low : (op.exec s).board.preDsgEn = false
  events : ∃ new, (op.exec s).board.log = s.board.log ++ new ∧ op.Allows new

/-- The voltage that a `precharge` measures next. -/
def Power.measured (s : Power PowerBench) : ℚ := packVoltage s.board.readings.head

/-- After a `precharge` the FETs are on exactly where the voltage that it measured is enough. -/
def FetsFollow (s : Power PowerBench) (op : PowerOp) : Prop :=
  ∀ n, op = .precharge n → ((op.exec s).board.dsgEn = true ↔ minVoltageThreshold ≤ s.measured)

/-- A `precharge` that will measure too little finds the FETs off. -/
def FetsOff (s : Power PowerBench) (op : PowerOp) : Prop :=
  ∀ n, op = .precharge n → s.measured < minVoltageThreshold → s.board.dsgEn = false

/-! ### One call -/

section

variable {s : Power PowerBench} {n : Int}

theorem duration_toNat (h : (PowerOp.precharge n).Fits) :
    ((UInt32.ofInt (n * 100 + 100)).toNat : Int) = (n + 1) * 100 := by
  obtain ⟨hpos, hlt⟩ := h
  rw [UInt32.ofInt, UInt32.toNat_ofNat']
  omega

/-- The board after a `precharge` of a charged pack. -/
theorem precharge_enough (h : minVoltageThreshold ≤ s.measured) :
    (precharge powerBench n s).board.preDsgEn = false ∧
    (precharge powerBench n s).board.dsgEn = true ∧
    (precharge powerBench n s).board.log = s.board.log ++
      [.write .PRE_DSG_EN true s.board.now,
        .sense s.board.readings.head (s.board.now + (UInt32.ofInt (n * 100 + 100)).toNat),
        .write .DSG_EN true (s.board.now + (UInt32.ofInt (n * 100 + 100)).toNat),
        .write .PRE_DSG_EN false
          (s.board.now + (UInt32.ofInt (n * 100 + 100)).toNat + 100)] := by
  have hif : packVoltage s.board.readings.head ≥ minVoltageThreshold := h
  have hwait : (UInt32.ofInt 100).toNat = 100 := by decide
  simp [precharge, readPackSense, Power.write, Power.wait, powerBench, PowerBench.setPin, hif,
    hwait]

/-- The board after a `precharge` of any other pack. -/
theorem precharge_tooLow (h : s.measured < minVoltageThreshold) :
    (precharge powerBench n s).board.preDsgEn = false ∧
    (precharge powerBench n s).board.dsgEn = s.board.dsgEn ∧
    (precharge powerBench n s).board.log = s.board.log ++
      [.write .PRE_DSG_EN true s.board.now,
        .sense s.board.readings.head (s.board.now + (UInt32.ofInt (n * 100 + 100)).toNat),
        .write .PRE_DSG_EN false
          (s.board.now + (UInt32.ofInt (n * 100 + 100)).toNat)] := by
  have hif : ¬ packVoltage s.board.readings.head ≥ minVoltageThreshold := not_le.mpr h
  simp [precharge, readPackSense, Power.write, Power.wait, powerBench, PowerBench.setPin, hif]

theorem events_before_raise {start sensed raised lowered time : Nat} {rawValue : Int}
    {before after : List PowerEvent}
    (h : [.write .PRE_DSG_EN true start, .sense rawValue sensed, .write .DSG_EN true raised,
      .write .PRE_DSG_EN false lowered] = before ++ .write .DSG_EN true time :: after) :
    before = [.write .PRE_DSG_EN true start, .sense rawValue sensed] := by
  rcases before with _ | ⟨a, _ | ⟨b, _ | ⟨c, _ | ⟨d, rest⟩⟩⟩⟩ <;> simp at h
  obtain ⟨rfl, rfl, -⟩ := h
  rfl

theorem charged_before {start time : Nat} {rawValue : Int} {ms : Int} (hms : start + ms ≤ time)
    (hcharged : minVoltageThreshold ≤ packVoltage rawValue) :
    Charged ms [.write .PRE_DSG_EN true start, .sense rawValue time] := by
  refine ⟨start, time, rawValue, ⟨[], [.sense rawValue time], rfl, ?_⟩, hms, by simp, hcharged⟩
  simp

theorem precharge_allows (hfits : (PowerOp.precharge n).Fits) : ∃ new,
    (precharge powerBench n s).board.log = s.board.log ++ new ∧
      (PowerOp.precharge n).Allows new := by
  have hms := duration_toNat hfits
  rcases le_or_gt minVoltageThreshold s.measured with h | h
  · refine ⟨_, (precharge_enough h).2.2, ?_⟩
    intro before time after heq
    rw [events_before_raise heq]
    apply charged_before
    · push_cast
      omega
    · exact h
  · refine ⟨_, (precharge_tooLow h).2.2, ?_⟩
    intro before time after heq
    have hmem : PowerEvent.write .DSG_EN true time ∈
        before ++ .write .DSG_EN true time :: after := by simp
    rw [← heq] at hmem
    simp at hmem

theorem resistorKept (hs : s.board.preDsgEn = false) {op : PowerOp} (hop : op.Fits) :
    ResistorKept s op := by
  cases op with
  | precharge n =>
    constructor
    · rcases le_or_gt minVoltageThreshold s.measured with h | h
      · exact (precharge_enough h).1
      · exact (precharge_tooLow h).1
    · exact precharge_allows hop
  | setDSG state =>
    refine ⟨hs, _, rfl, ?_⟩
    intro level time
    simp
  | setCHG state =>
    refine ⟨hs, _, rfl, ?_⟩
    intro level time
    simp

theorem fetsFollow_iff (op : PowerOp) : FetsFollow s op ↔ FetsOff s op := by
  refine forall_congr' fun n => imp_congr_right ?_
  rintro rfl
  rcases le_or_gt minVoltageThreshold s.measured with h | h
  · exact iff_of_true (iff_of_true (precharge_enough h).2.1 h) fun hlt => absurd h (not_le.mpr hlt)
  · have hsame : ((PowerOp.precharge n).exec s).board.dsgEn = s.board.dsgEn :=
      (precharge_tooLow h).2.1
    rw [hsame]
    simp [h, not_le.mpr h]

end

/-- Over every run of calls from a state with the resistor off, whatever the ADC reads: the resistor
is on only inside `precharge`, which turns the FETs on only at a pack that it has charged; and after
every `precharge` the FETs are on exactly where it measured enough, if and only if every `precharge`
that measures too little finds them off. -/
theorem precharge_run_iff {s : Power PowerBench} (hs : s.board.preDsgEn = false)
    {ops : List PowerOp} (hops : ∀ op ∈ ops, op.Fits) :
    Guarded PowerOp.step ResistorKept s ops ∧
      (Guarded PowerOp.step (fun s op => ResistorKept s op ∧ FetsFollow s op) s ops ↔
        Guarded PowerOp.step FetsOff s ops) := by
  constructor
  · apply guarded_of_invariant (fun s : Power PowerBench => s.board.preDsgEn = false)
    · exact fun s op hs hop => resistorKept hs hop
    · rintro s op t hs hop rfl
      exact (resistorKept hs hop).low
    · exact hops
    · exact hs
  · apply guarded_iff (fun s : Power PowerBench => s.board.preDsgEn = false)
    · intro s op hs hop
      rw [fetsFollow_iff]
      exact and_iff_right (resistorKept hs hop)
    · rintro s op t - - ⟨hkept, -⟩ rfl
      exact hkept.low
    · exact hops
    · exact hs

/-- The board when `setup` has set its pins, before the readings `readings`. -/
def bootPower (readings : Stream' Int) : Power PowerBench where
  board := { preDsgEn := false, dsgEn := false, chgEn := false, now := 0, readings, log := [] }
  warnings := []

/-- The pack reads too low, then high enough, and too low again after the FETs were turned off. -/
theorem precharge_run_iff_low_high_low : Guarded PowerOp.step
    (fun s op => ResistorKept s op ∧ FetsFollow s op)
    (bootPower fun k => if k = 1 then 600 else 100)
    [.precharge 0, .precharge 1, .setDSG false, .precharge 0] := by
  refine (precharge_run_iff rfl (by simp [PowerOp.Fits])).2.mpr ⟨fun _ _ _ => rfl, ?_⟩
  rintro s rfl
  refine ⟨fun _ _ _ => by decide +kernel, ?_⟩
  rintro s rfl
  refine ⟨nofun, ?_⟩
  rintro s rfl
  exact ⟨fun _ _ _ => by decide +kernel, fun _ _ => trivial⟩

/-- The pack reads high enough once and then too low: the second call reports that the FETs are not
enabled, and leaves them on. -/
theorem low_pack_stays_connected : ¬ Guarded PowerOp.step
    (fun s op => ResistorKept s op ∧ FetsFollow s op)
    (bootPower fun k => if k = 0 then 600 else 100) [.precharge 1, .precharge 1] := by
  rintro ⟨-, h⟩
  have hfollow := ((h _ rfl).1.2 1 rfl).mp (by decide +kernel)
  exact absurd hfollow (by decide +kernel)

end QuadBot
