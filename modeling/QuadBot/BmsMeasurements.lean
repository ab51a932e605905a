import QuadBot.BmsCurrent
import QuadBot.BmsLost
import QuadBot.BmsReadings

/-! The measurements of `BMS_ReadCommands.cpp` between commands. Four of the cell voltages share
their registers with real-time commands, which erase them; no command touches the others. -/

namespace QuadBot

open Latest Lossy

section

variable {σ : Type} (bus : Bus σ)

def readVCellSum (wire1 : σ) : ℚ × σ := readVoltage bus 0x26 0x7FFF 5.0 wire1

def readDieTemp (wire1 : σ) : ℚ × σ :=
  let (raw, wire1) := readBMSData bus 0x49 0x29 wire1
  let dieBits := raw &&& 0x0FFF
  (343.165 - 0.196 * dieBits.toNat, wire1)

/-- The cell voltages whose registers take real-time commands as well. -/
def sharedReadings : List (UInt8 × (σ → ℚ × σ)) :=
  [(0x21, readVCell1 bus), (0x22, readVCell2 bus), (0x23, readVCell3 bus), (0x24, readVCell4 bus)]

/-- The measurements whose registers take none. -/
def unsharedReadings (cfg : Settings) : List (UInt8 × (σ → ℚ × σ)) :=
  [(0x25, readVCell5 bus), (0x26, readVCellSum bus), (0x27, readVB bus), (0x28, readNTC_GPIO bus),
    (0x29, readDieTemp bus), (0x2C, readCurrent bus cfg)]

end

/-! ### The registers over a run -/

/-- The word that a call has for a register. -/
def BmsOp.dataFor (k : UInt8) : BmsOp → Option UInt16
  | .coulomb => if k = 0x2D then some 0xFFFF else none
  | op => op.word.bind fun w => if k = w.1 then some w.2 else none

section

variable {k : UInt8}

theorem latest_word (hk : k ≠ 0x02) (converts : Bool) (w : Option (UInt8 × UInt16))
    (init : UInt16) :
    latest (Transaction.dataFor k) (wordTransactions converts w) init =
      (w.bind fun w => if k = w.1 then some w.2 else none).getD init := by
  cases w with
  | none => rfl
  | some w =>
    cases converts <;> by_cases hw : k = w.1 <;>
      simp [wordTransactions, latest, Transaction.dataFor, hk, hw]

/-- Over the transactions of a call, the last word for a register is the one that the call has. -/
theorem latest_transactions (hk : k ≠ 0x02) (cfg : Settings) (converts : Bool) (op : BmsOp)
    (init : UInt16) : latest (Transaction.dataFor k) (op.transactions cfg converts) init =
      (op.dataFor k).getD init := by
  cases op with
  | config | identity | realTime => exact latest_word hk converts _ init
  | numerical | read => rfl
  | coulomb =>
    rw [BmsOp.transactions, latest_cons, latest_of_forall_none (by simp [Transaction.dataFor])]
    rfl
  | conversionState state =>
    have hdata : ∀ d, Transaction.dataFor k (.store 0x02 d) = none := fun d => if_neg hk
    simp only [BmsOp.transactions]
    split
    · simp [latest, hdata, BmsOp.dataFor, BmsOp.word]
    · split <;> simp [latest, hdata, BmsOp.dataFor, BmsOp.word]

/-- While everything is acknowledged, every register but the conversion register holds the last word
that a call had for it. -/
theorem runOps_reg_latest (hk : k ≠ 0x02) (cfg : Settings) {s : Bms BmsChip}
    (hs : s.wire1.acks = acked) (ops : List BmsOp) :
    (runOps cfg ops s).wire1.acks = acked ∧
      (runOps cfg ops s).wire1.reg k = latest (BmsOp.dataFor k) ops (s.wire1.reg k) := by
  apply view_foldl (fun s : Bms BmsChip => s.wire1.acks = acked) (fun s => s.wire1.reg k)
  · intro s op hs
    obtain ⟨hacks, hreg⟩ := op_reg_acked cfg hs op k
    exact ⟨hacks, hreg.trans (latest_transactions hk cfg s.converts op _)⟩
  · exact hs

/-- Only commands write registers outside the conversion register and the counter. -/
theorem dataFor_eq_some {op : BmsOp} {d : UInt16} (hk : k ≠ 0x2D) (h : op.dataFor k = some d) :
    op.word = some (k, d) := by
  cases op with
  | coulomb =>
    rw [BmsOp.dataFor, if_neg hk] at h
    cases h
  | numerical | conversionState | read => cases h
  | config | identity | realTime =>
    obtain ⟨w, hw, hif⟩ := Option.bind_eq_some_iff.mp h
    split at hif
    · rename_i heq
      rw [hw, heq, ← Option.some.inj hif]
    · cases hif

theorem dataFor_eq_none (hk : k ∉ commandRegisters) (hcounter : k ≠ 0x2D) (op : BmsOp) :
    op.dataFor k = none := by
  by_contra hne
  obtain ⟨d, hd⟩ := Option.ne_none_iff_exists'.mp hne
  exact hk (BmsOp.word_mem (dataFor_eq_some hcounter hd))

/-- The words of the real-time commands in the measuring registers have no bit in the 12 that the
measurements use. -/
theorem realTimeWord_masked {command : String} {d : UInt16} (hk : 0x21 ≤ k ∧ k ≤ 0x24)
    (h : realTimeWord command = some (k, d)) : d &&& 0x0FFF = 0 := by
  unfold realTimeWord at h
  repeat' split at h
  all_goals
    cases h
    try first | decide | exact absurd hk (by decide)

/-- No other command than a real-time one writes a measuring register. -/
theorem word_measuring {op : BmsOp} {d : UInt16} (hk : 0x21 ≤ k ∧ k ≤ 0x24)
    (h : op.word = some (k, d)) :
    ∃ command, op = .realTime command ∧ realTimeWord command = some (k, d) := by
  obtain ⟨call, hcall, hr⟩ := BmsOp.word_register h
  cases op with
  | realTime command => exact ⟨command, rfl, h⟩
  | config | identity =>
    cases hcall
    exact absurd hk (register_all (fun r => ¬ (0x21 ≤ r ∧ r ≤ 0x24)) hr rfl)
  | numerical | conversionState | coulomb | read => cases h

end

/-! ### The measurements over a run -/

theorem readVoltage_acked {b : BmsChip} (hb : b.acks = acked) (r : UInt8) (mask : UInt16)
    (range : ℚ) : (readVoltage bmsBus r mask range b).1 =
      ((b.reg r &&& mask).toNat / 4095.0) * range := by
  show ((readBMSData bmsBus 0x49 r b).1 &&& mask).toNat / 4095.0 * range = _
  rw [(read_acked hb r).1]

/-- A measurement is made of its own register. -/
theorem unshared_congr {cfg : Settings} {a b : BmsChip} (ha : a.acks = acked) (hb : b.acks = acked)
    {p : UInt8 × (BmsChip → ℚ × BmsChip)} (hp : p ∈ unsharedReadings bmsBus cfg)
    (hreg : a.reg p.1 = b.reg p.1) : (p.2 a).1 = (p.2 b).1 := by
  have hread : (readBMSData bmsBus 0x49 p.1 a).1 = (readBMSData bmsBus 0x49 p.1 b).1 := by
    rw [(read_acked ha p.1).1, (read_acked hb p.1).1, hreg]
  simp only [unsharedReadings, List.mem_cons, List.not_mem_nil, or_false] at hp
  rcases hp with rfl | rfl | rfl | rfl | rfl | rfl
  all_goals
    simp only [readVCell5, readVCellSum, readVB, readNTC_GPIO, readVoltage, readDieTemp,
      readCurrent] at hread ⊢
    rw [hread]

theorem unshared_register {cfg : Settings} {p : UInt8 × (BmsChip → ℚ × BmsChip)}
    (hp : p ∈ unsharedReadings bmsBus cfg) :
    p.1 ≠ 0x02 ∧ p.1 ≠ 0x2D ∧ p.1 ∉ commandRegisters := by
  have hmem := List.mem_map_of_mem (f := Prod.fst) hp
  simp only [unsharedReadings, List.map_cons, List.map_nil, List.mem_cons, List.not_mem_nil,
    or_false] at hmem
  rcases hmem with h | h | h | h | h | h <;> rw [h] <;> decide

theorem shared_eq {p : UInt8 × (BmsChip → ℚ × BmsChip)} (hp : p ∈ sharedReadings bmsBus) :
    (0x21 ≤ p.1 ∧ p.1 ≤ 0x24) ∧ p.2 = readVoltage bmsBus p.1 0x0FFF 5.0 := by
  simp only [sharedReadings, List.mem_cons, List.not_mem_nil, or_false] at hp
  rcases hp with rfl | rfl | rfl | rfl <;> exact ⟨by decide, rfl⟩

/-- A real-time command of the register is among the calls. -/
def Erases (k : UInt8) (ops : List BmsOp) : Prop :=
  ∃ command d, .realTime command ∈ ops ∧ realTimeWord command = some (k, d)

theorem erases_iff {k : UInt8} (hk : 0x21 ≤ k ∧ k ≤ 0x24) (ops : List BmsOp) :
    Erases k ops ↔ ∃ op ∈ ops, op.dataFor k ≠ none := by
  have hcounter : k ≠ 0x2D := by
    rintro rfl
    exact absurd hk (by decide)
  constructor
  · rintro ⟨command, d, hmem, hword⟩
    refine ⟨_, hmem, ?_⟩
    simp [BmsOp.dataFor, BmsOp.word, hword]
  · rintro ⟨op, hop, hne⟩
    obtain ⟨d, hd⟩ := Option.ne_none_iff_exists'.mp hne
    obtain ⟨command, rfl, hword⟩ := word_measuring hk (dataFor_eq_some hcounter hd)
    exact ⟨command, d, hop, hword⟩

/-- Over any run of calls, everything acknowledged: the measurements of unshared registers stay as
they are, and a cell voltage whose register takes real-time commands stays as it is until one of
them is sent, and reads 0 V from then on. -/
theorem measurements_after_commands (cfg : Settings) {s t : Bms BmsChip}
    (hs : s.wire1.acks = acked) (ops : List BmsOp) (ht : t = runOps cfg ops s) :
    (∀ p ∈ unsharedReadings bmsBus cfg, (p.2 t.wire1).1 = (p.2 s.wire1).1) ∧
    ∀ p ∈ sharedReadings bmsBus, (¬ Erases p.1 ops → (p.2 t.wire1).1 = (p.2 s.wire1).1) ∧
      (Erases p.1 ops → (p.2 t.wire1).1 = 0) := by
  subst ht
  constructor
  · intro p hp
    obtain ⟨hstate, hcounter, hcommand⟩ := unshared_register hp
    obtain ⟨hacks, hreg⟩ := runOps_reg_latest hstate cfg hs ops
    rw [latest_of_forall_none fun op _ => dataFor_eq_none hcommand hcounter op] at hreg
    exact unshared_congr hacks hs hp hreg
  · intro p hp
    obtain ⟨hrange, hread⟩ := shared_eq hp
    have hstate : p.1 ≠ 0x02 := by
      intro h
      rw [h] at hrange
      exact absurd hrange (by decide)
    have hcounter : p.1 ≠ 0x2D := by
      intro h
      rw [h] at hrange
      exact absurd hrange (by decide)
    obtain ⟨hacks, hreg⟩ := runOps_reg_latest hstate cfg hs ops
    rw [hread, readVoltage_acked hacks, readVoltage_acked hs, hreg, erases_iff hrange]
    constructor
    · intro hnone
      rw [latest_of_forall_none]
      intro op hop
      by_contra hne
      exact hnone ⟨op, hop, hne⟩
    · intro hsome
      have hmasked : latest (BmsOp.dataFor p.1) ops (s.wire1.reg p.1) &&& 0x0FFF = 0 := by
        apply latest_of_exists (fun d => d &&& 0x0FFF = 0) ?_ hsome
        intro op hop d hd
        obtain ⟨command, rfl, hword⟩ := word_measuring hrange (dataFor_eq_some hcounter hd)
        exact realTimeWord_masked hrange hword
      rw [hmasked]
      norm_num

/-- A chip that has measured. -/
def measuredChip : BmsChip := { bootChip acked with reg := fun _ => 0x0ABC }

theorem measurements_after_commands_ship : (readVCell1 bmsBus (runOps settings
    [.conversionState "CONVERSION_ON", .realTime "GO2SHIP", .config "DIAG_UV" "default"]
    (bootBms measuredChip)).wire1).1 = 0 := by
  have hmeasured := (measurements_after_commands settings (s := bootBms measuredChip) rfl
    [.conversionState "CONVERSION_ON", .realTime "GO2SHIP", .config "DIAG_UV" "default"] rfl).2
    (0x21, readVCell1 bmsBus) (by simp [sharedReadings])
  exact hmeasured.2 ⟨"GO2SHIP", 0x2000, by simp, rfl⟩

end QuadBot
