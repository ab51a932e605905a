import QuadBot.Lib.Latest
import QuadBot.PowerManagement
import Mathlib.Tactic.Linarith
import Mathlib.Tactic.NormNum
import Mathlib.Tactic.Ring

/-! Where a run of calls leaves the power path: each `precharge` takes the next reading of the ADC,
and the pins, the time that has passed and the warnings follow from the calls and these readings. -/

namespace QuadBot

open Latest

/-! ### The threshold in counts -/

/-- The least reading at which the pack has the voltage that `precharge` asks for. -/
def enoughCounts : Int := 259

theorem packVoltage_eq (rawValue : Int) : packVoltage rawValue = rawValue * (65 / 1683) := by
  unfold packVoltage
  norm_num
  ring

theorem enough_iff (rawValue : Int) :
    minVoltageThreshold ≤ packVoltage rawValue ↔ enoughCounts ≤ rawValue := by
  have hscaled : minVoltageThreshold ≤ packVoltage rawValue ↔ (3366 : ℚ) ≤ 13 * rawValue := by
    rw [packVoltage_eq, minVoltageThreshold]
    constructor <;> intro h <;> linarith
  have hint : (3366 : ℚ) ≤ 13 * rawValue ↔ 3366 ≤ 13 * rawValue := by exact_mod_cast Iff.rfl
  rw [hscaled, hint, enoughCounts]
  omega

/-! ### Calls with their readings -/

namespace PowerOp

/-- The readings that are left after the call. -/
def rest : PowerOp → Stream' Int → Stream' Int
  | precharge _, readings => readings.tail
  | setDSG _, readings | setCHG _, readings => readings

/-- Each call with the reading that a `precharge` takes there. -/
def withReadings : List PowerOp → Stream' Int → List (PowerOp × Int)
  | [], _ => []
  | op :: ops, readings => (op, readings.head) :: withReadings ops (op.rest readings)

/-- The level that the call gives the discharge FETs. -/
def fets : PowerOp × Int → Option Bool
  | (precharge _, rawValue) => if enoughCounts ≤ rawValue then some true else none
  | (setDSG state, _) => some state
  | (setCHG _, _) => none

/-- The level that the call gives the charger. -/
def charger : PowerOp × Int → Option Bool
  | (setCHG state, _) => some state
  | _ => none

/-- The milliseconds that the call takes. -/
def duration : PowerOp × Int → Nat
  | (precharge numCapacitors, rawValue) =>
    ((numCapacitors + 1) * 100).toNat + if enoughCounts ≤ rawValue then 100 else 0
  | _ => 0

def warning : PowerOp × Int → List String
  | (precharge _, rawValue) =>
    if enoughCounts ≤ rawValue then []
    else ["\n Warning: Pack voltage too low. Discharge FETs not enabled."]
  | _ => []

/-- What a call that takes the reading `rawValue` leaves of the state `s`. -/
structure Leaves (op : PowerOp) (rawValue : Int) (s t : Power PowerBench) : Prop where
  resistor : s.board.preDsgEn = false → t.board.preDsgEn = false
  fets : t.board.dsgEn = (fets (op, rawValue)).getD s.board.dsgEn
  charger : t.board.chgEn = (charger (op, rawValue)).getD s.board.chgEn
  now : t.board.now = s.board.now + duration (op, rawValue)
  readings : t.board.readings = op.rest s.board.readings
  warnings : t.warnings = s.warnings ++ warning (op, rawValue)

theorem exec_leaves {op : PowerOp} (hop : op.Fits) (s : Power PowerBench) :
    op.Leaves s.board.readings.head s (op.exec s) := by
  cases op with
  | setDSG state =>
    exact ⟨id, rfl, rfl, rfl, rfl, (List.append_nil _).symm⟩
  | setCHG state =>
    exact ⟨id, rfl, rfl, rfl, rfl, (List.append_nil _).symm⟩
  | precharge n =>
    have hms := duration_toNat hop
    have hwait : (UInt32.ofInt (n * 100 + 100)).toNat = ((n + 1) * 100).toNat := by omega
    have hstable : (UInt32.ofInt 100).toNat = 100 := by decide
    by_cases h : enoughCounts ≤ s.board.readings.head
    · have hvoltage := (enough_iff _).mpr h
      constructor <;> simp [exec, QuadBot.precharge, readPackSense, Power.write, Power.wait,
        powerBench, PowerBench.setPin, fets, charger, duration, rest, warning, hvoltage, h, hwait,
        hstable, Nat.add_assoc, -UInt32.ofInt_add]
    · have hvoltage := mt (enough_iff _).mp h
      constructor <;> simp [exec, QuadBot.precharge, readPackSense, Power.write, Power.wait,
        powerBench, PowerBench.setPin, fets, charger, duration, rest, warning, hvoltage, h, hwait,
        -UInt32.ofInt_add]

/-- The calls in order. -/
def run (ops : List PowerOp) (s : Power PowerBench) : Power PowerBench :=
  ops.foldl (fun s op => op.exec s) s

/-- Over every run of calls, from any levels of the pins and with any readings: the discharge FETs
are as the last call left them that is a `setDSG` or a `precharge` with a reading of at least 259
counts, the charger as the last `setCHG` did, and a resistor that is off ends off; the time that
passes is the sum of what the calls take, and each `precharge` with a lower reading warns. -/
theorem run_leaves {ops : List PowerOp} (hops : ∀ op ∈ ops, op.Fits) (s : Power PowerBench) :
    (s.board.preDsgEn = false → (run ops s).board.preDsgEn = false) ∧
    (run ops s).board.dsgEn = latest fets (withReadings ops s.board.readings) s.board.dsgEn ∧
    (run ops s).board.chgEn = latest charger (withReadings ops s.board.readings) s.board.chgEn ∧
    (run ops s).board.now =
      s.board.now + ((withReadings ops s.board.readings).map duration).sum ∧
    (run ops s).warnings = s.warnings ++ (withReadings ops s.board.readings).flatMap warning := by
  induction ops generalizing s with
  | nil => exact ⟨id, rfl, rfl, rfl, (List.append_nil _).symm⟩
  | cons op ops ih =>
    have hop := exec_leaves (hops op List.mem_cons_self) s
    obtain ⟨hresistor, hfets, hcharger, hnow, hwarnings⟩ :=
      ih (fun o ho => hops o (List.mem_cons_of_mem op ho)) (op.exec s)
    rw [hop.readings] at hfets hcharger hnow hwarnings
    refine ⟨fun hs => hresistor (hop.resistor hs), ?_, ?_, ?_, ?_⟩
    · rw [withReadings, latest_cons, ← hop.fets]
      exact hfets
    · rw [withReadings, latest_cons, ← hop.charger]
      exact hcharger
    · rw [withReadings, List.map_cons, List.sum_cons, ← Nat.add_assoc, ← hop.now]
      exact hnow
    · rw [withReadings, List.flatMap_cons, ← List.append_assoc, ← hop.warnings]
      exact hwarnings

theorem run_leaves_connected :
    (run [.precharge 1, .setCHG true, .precharge 0, .setDSG false, .precharge 2]
      (bootPower fun k => if k = 1 then 258 else 259)).board.dsgEn = true :=
  (run_leaves (by simp [Fits]) (bootPower fun k => if k = 1 then 258 else 259)).2.1

end PowerOp

end QuadBot
