import QuadBot.BmsTransactions
import QuadBot.SetUpBMS

/-! What the battery management code leaves behind where writes are lost: the registers of
`SetUpBMS`, and a conversion flag that no longer says what the chip does. -/

namespace QuadBot

open Latest Lossy

/-! ### The setup -/

/-- The calls of `SetUpBMS`. -/
def setupOps : List BmsOp :=
  [("CFG2_ENABLES", "default"), ("TO_PRDV_BAL_MSK", "default"), ("TO_FUSE_RST_MSK", "default"),
    ("TO_FAULTN_MSK", "default"), ("CURR_MSK", "default"), ("DIAG_OV_OT_UT", "default"),
    ("DIAG_UV", "default"), ("DIAG_CURR", "default")].map (fun a => .config a.1 a.2) ++
  ([("MANUFACTURE_NAME_MSB", 0x1234), ("MANUFACTURE_NAME_LSB", 0x5678),
    ("MANUFACTURING_DATE", 0x2025), ("FIRST_USAGE_DATE", 0x2025), ("SERIAL_NUMBER_MSB", 0xABCD),
    ("SERIAL_NUMBER_LSB", 0xEF01), ("DEVICE_NAME_MSB", 0x1357), ("DEVICE_NAME_LSB", 0x2468)].map
      (fun a => .identity a.1 a.2) ++
  [("CSA_GAIN_FACTOR", some "default", none), ("VCELL_OV_TH", some "max", some "max"),
    ("VCELL_UV_TH", some "min", some "max"), ("VCELL_SEVERE_DELTA_THRS", some "max", some "min"),
    ("VCELL_BAL_UV_DELTA_TH", some "min", some "max"), ("VB_OV_TH", some "max", some "max"),
    ("VB_UV_TH", some "min", some "max"), ("VB_SUM_MAX_DIFF_TH", some "max", none),
    ("VNTC_OT_TH", some "max", some "max"), ("VNTC_UT_TH", some "min", some "max"),
    ("VNTC_SEVERE_OT_DELTA_TH", some "max", none), ("OVC_THRESHOLDS", some "max", some "max"),
    ("PERSISTENT_OVC_THRESHOLDS", some "max", none),
    ("SC_THRESHOLD", some "max", some "max")].map fun a => .numerical a.1 a.2.1 a.2.2)

/-- The registers that `SetUpBMS` sets, with their words. -/
def setupWords : List (UInt8 × UInt16) :=
  [(0x04, 0x19FF), (0x13, 0x7FFF), (0x14, 0x007F), (0x15, 0x0FFF), (0x16, 0x0FFF), (0x2A, 0x0000),
    (0x2B, 0x0000), (0x2F, 0x0000), (0x17, 0x1234), (0x18, 0x5678), (0x19, 0x2025),
    (0x1A, 0x2025), (0x1B, 0xABCD), (0x1C, 0xEF01), (0x1D, 0x1357), (0x1E, 0x2468)]

def storeOf (w : UInt8 × UInt16) : Transaction := .store w.1 w.2

theorem setUpBMS_eq_runOps (cfg : Settings) (s : Bms BmsChip) :
    setUpBMS bmsBus cfg s = runOps cfg setupOps s := by
  simp only [runOps, setupOps, List.foldl_append, List.foldl_map]
  rfl

theorem setup_transactions (cfg : Settings) (converts : Bool) :
    runTransactions cfg converts setupOps =
      (if converts then [.store 0x02 0x0000] else []) ++ setupWords.map storeOf := by
  cases converts <;> rfl

theorem setup_converts (converts : Bool) : setupOps.foldl BmsOp.converts converts = false := by
  cases converts <;> rfl

theorem setupWords_nodup : (setupWords.map Prod.fst).Nodup := by decide

theorem setupWords_ne {w : UInt8 × UInt16} (hw : w ∈ setupWords) : w.1 ≠ 0x02 := by
  have hregisters : 0x02 ∉ setupWords.map Prod.fst := by decide
  intro h
  exact hregisters (h ▸ List.mem_map_of_mem hw)

section

variable {k : UInt8}

/-- The outcomes that are left for the words of the setup. -/
def setupAcks (s : Bms BmsChip) : Stream' Bool := s.wire1.acks.drop (if s.converts then 1 else 0)

theorem setup_reg (cfg : Settings) (s : Bms BmsChip) (hk : k ≠ 0x02) :
    (setUpBMS bmsBus cfg s).wire1.reg k = latest (arrived (Transaction.dataFor k))
      (outcomes (setupWords.map storeOf) (setupAcks s)) (s.wire1.reg k) := by
  obtain ⟨hserved, -⟩ := served_run cfg s setupOps
  rw [setUpBMS_eq_runOps, hserved.reg, setup_transactions, outcomes_append, latest_append]
  have hoff : ∀ a ∈ (if s.converts then [Transaction.store 0x02 0x0000] else []),
      Transaction.dataFor k a = none := by
    intro a ha
    split at ha
    · rw [List.mem_singleton.mp ha, Transaction.dataFor, if_neg hk]
    · cases ha
  rw [latest_arrived_of_none hoff, setupAcks]
  cases s.converts <;> rfl

/-- Of words for different registers, each is in its register where the write was acknowledged. -/
theorem latest_stores {ws : List (UInt8 × UInt16)} (hnodup : (ws.map Prod.fst).Nodup) {i : Nat}
    {w : UInt8 × UInt16} (hi : ws[i]? = some w) (oks : Stream' Bool) (init : UInt16) :
    latest (arrived (Transaction.dataFor w.1)) (outcomes (ws.map storeOf) oks) init =
      if oks.get i then w.2 else init := by
  apply latest_arrived_of_unique (a := storeOf w)
  · rw [List.getElem?_map, hi, Option.map_some]
  · rw [storeOf, Transaction.dataFor, if_pos rfl]
  · intro j a hj hne
    rw [List.getElem?_map] at hj
    obtain ⟨v, hv, rfl⟩ := Option.map_eq_some_iff.mp hj
    rw [storeOf, Transaction.dataFor, if_neg]
    intro heq
    have hlt : j < (ws.map Prod.fst).length := by
      rw [List.length_map]
      exact (List.getElem?_eq_some_iff.mp hv).1
    apply hne
    apply (List.getElem?_inj hlt hnodup).mp
    rw [List.getElem?_map, List.getElem?_map, hi, hv, Option.map_some, Option.map_some, heq]

theorem latest_stores_other {ws : List (UInt8 × UInt16)} (hk : k ∉ ws.map Prod.fst)
    (oks : Stream' Bool) (init : UInt16) :
    latest (arrived (Transaction.dataFor k)) (outcomes (ws.map storeOf) oks) init = init := by
  apply latest_arrived_of_none
  intro a ha
  obtain ⟨w, hw, rfl⟩ := List.mem_map.mp ha
  rw [storeOf, Transaction.dataFor, if_neg]
  rintro rfl
  exact hk (List.mem_map_of_mem hw)

/-- As many writes are lost as there are outcomes that say so. -/
theorem countP_lost_stores (ws : List (UInt8 × UInt16)) (oks : Stream' Bool) :
    (outcomes (ws.map storeOf) oks).countP Transaction.Lost =
      (List.range ws.length).countP fun i => !oks.get i := by
  induction ws generalizing oks with
  | nil => rfl
  | cons w ws ih =>
    have hhead : Transaction.Lost (storeOf w, oks.head) = !oks.head := by
      cases oks.head <;> rfl
    rw [List.map_cons, outcomes, List.countP_cons, ih, List.length_cons, List.range_succ_eq_map,
      List.countP_cons, List.countP_map, hhead]
    rfl

end

/-- `SetUpBMS` in any state, whatever is acknowledged: the words go out in their order, each
register ends with its word exactly where that write was acknowledged, no other register but the
conversion register changes, and each lost write is reported. -/
theorem setUpBMS_outcomes (cfg : Settings) (s : Bms BmsChip) :
    (setUpBMS bmsBus cfg s).wire1.log.map ChipWrite.sent = s.wire1.log.map ChipWrite.sent ++
      ((if s.converts then [(0x49, 0x02, 0x0000)] else []) ++
        setupWords.map fun w => (0x49, w.1, w.2)) ∧
    (∀ i w, setupWords[i]? = some w → (setUpBMS bmsBus cfg s).wire1.reg w.1 =
      if (setupAcks s).get i then w.2 else s.wire1.reg w.1) ∧
    (∀ k, k ≠ 0x02 → k ∉ setupWords.map Prod.fst →
      (setUpBMS bmsBus cfg s).wire1.reg k = s.wire1.reg k) ∧
    (setUpBMS bmsBus cfg s).converts = false ∧
    (setUpBMS bmsBus cfg s).errors.count writeFailure = s.errors.count writeFailure +
      (List.range (if s.converts then 17 else 16)).countP fun i => !s.wire1.acks.get i := by
  obtain ⟨hserved, hconverts⟩ := served_run cfg s setupOps
  rw [← setUpBMS_eq_runOps] at hserved hconverts
  rw [setup_transactions] at hserved
  refine ⟨?_, ?_, ?_, ?_, ?_⟩
  · rw [hserved.sent]
    cases s.converts <;> rfl
  · intro i w hi
    rw [setup_reg cfg s (setupWords_ne (List.mem_of_getElem? hi))]
    exact latest_stores setupWords_nodup hi _ _
  · intro k hk hother
    rw [setup_reg cfg s hk]
    exact latest_stores_other hother _ _
  · rw [hconverts, setup_converts]
  · rw [hserved.failures]
    cases s.converts
    · exact congrArg _ (countP_lost_stores setupWords s.wire1.acks)
    · exact congrArg _ (countP_lost_stores ((0x02, 0x0000) :: setupWords) s.wire1.acks)

/-! ### A flag that does not agree -/

/-- The conversion register holds what the flag says. -/
def FlagAgrees (cfg : Settings) (s : Bms BmsChip) : Prop :=
  s.wire1.reg 0x02 = if s.converts then cfg.conversionOnValue else 0x0000

/-- A call that writes the conversion register: one for a known conversion state, or, while the
flag is set, one that sends a word. -/
def BmsOp.SetsConversion (converts : Bool) : BmsOp → Prop
  | .conversionState state => state = "CONVERSION_OFF" ∨ state = "CONVERSION_ON"
  | op => converts = true ∧ op.word ≠ none

section

variable (cfg : Settings) {s : Bms BmsChip}

theorem op_reg_acked (hs : s.wire1.acks = acked) (op : BmsOp) (k : UInt8) :
    (op.exec cfg s).wire1.acks = acked ∧ (op.exec cfg s).wire1.reg k =
      latest (Transaction.dataFor k) (op.transactions cfg s.converts) (s.wire1.reg k) := by
  obtain ⟨hserved, -⟩ := served_op cfg s op
  rw [hserved.acks, hserved.reg, hs]
  exact ⟨Stream'.drop_const _ _, latest_arrived _ _ _⟩

/-- Sending a word writes 0 in the conversion register where the flag is set, and nothing where it
is not. -/
theorem latest_wordTransactions {w : Option (UInt8 × UInt16)}
    (hw : ∀ r d, w = some (r, d) → r ≠ 0x02) (converts : Bool) (init : UInt16) :
    latest (Transaction.dataFor 0x02) (wordTransactions converts w) init =
      if converts = true ∧ w ≠ none then 0x0000 else init := by
  cases w with
  | none => simp [wordTransactions, latest]
  | some w =>
    obtain ⟨r, d⟩ := w
    have hr : (0x02 : UInt8) ≠ r := (hw r d rfl).symm
    cases converts <;> simp [wordTransactions, latest, Transaction.dataFor, hr]

theorem word_flag {t : Bms BmsChip} {w : Option (UInt8 × UInt16)}
    (hw : ∀ r d, w = some (r, d) → r ≠ 0x02) (hflag : t.converts = wordConverts s.converts w)
    (hreg : t.wire1.reg 0x02 = latest (Transaction.dataFor 0x02)
      (wordTransactions s.converts w) (s.wire1.reg 0x02)) :
    (s.converts = true ∧ w ≠ none → FlagAgrees cfg t) ∧
    (¬ (s.converts = true ∧ w ≠ none) →
      t.converts = s.converts ∧ t.wire1.reg 0x02 = s.wire1.reg 0x02) := by
  rw [latest_wordTransactions hw] at hreg
  constructor
  · rintro ⟨hon, hsome⟩
    obtain ⟨v, rfl⟩ := Option.ne_none_iff_exists'.mp hsome
    rw [if_pos ⟨hon, hsome⟩] at hreg
    rw [FlagAgrees, hreg, hflag]
    rfl
  · intro hnot
    rw [if_neg hnot] at hreg
    refine ⟨?_, hreg⟩
    rw [hflag]
    cases w with
    | none => rfl
    | some v =>
      have hoff : s.converts = false := by simpa using hnot
      rw [hoff]
      rfl

/-- One call: the flag agrees after a call that writes the conversion register, and any other call
leaves both as they are. -/
theorem op_flag (hs : s.wire1.acks = acked) (op : BmsOp) :
    (op.SetsConversion s.converts → FlagAgrees cfg (op.exec cfg s)) ∧
    (¬ op.SetsConversion s.converts → (op.exec cfg s).converts = s.converts ∧
      (op.exec cfg s).wire1.reg 0x02 = s.wire1.reg 0x02) := by
  obtain ⟨-, hflag⟩ := served_op cfg s op
  obtain ⟨-, hreg⟩ := op_reg_acked cfg hs op 0x02
  cases op with
  | config | identity | realTime | numerical =>
    exact word_flag cfg (fun r d => BmsOp.word_ne) hflag hreg
  | coulomb | read =>
    exact ⟨fun h => absurd rfl h.2, fun _ => ⟨hflag, hreg⟩⟩
  | conversionState state =>
    rw [BmsOp.SetsConversion, FlagAgrees, hflag, hreg]
    by_cases hoff : state = "CONVERSION_OFF"
    · simp [BmsOp.converts, BmsOp.transactions, hoff, latest, Transaction.dataFor]
    · by_cases hon : state = "CONVERSION_ON"
      · simp [BmsOp.converts, BmsOp.transactions, hon, latest, Transaction.dataFor]
      · simp [BmsOp.converts, BmsOp.transactions, hoff, hon, latest]

/-- Once writes are no longer lost, the flag agrees with the conversion register after a run of
calls exactly where it did before, or some call of the run writes that register. While the flag is
clear, that is none but a call for a conversion state: the chip may go on converting under any run
of commands. -/
theorem conversion_heals_iff (hs : s.wire1.acks = acked) (ops : List BmsOp) :
    FlagAgrees cfg (runOps cfg ops s) ↔
      FlagAgrees cfg s ∨ ∃ op ∈ ops, op.SetsConversion s.converts := by
  induction ops generalizing s with
  | nil => simp [runOps]
  | cons op ops ih =>
    obtain ⟨hacks, -⟩ := op_reg_acked cfg hs op 0x02
    obtain ⟨hset, hkeep⟩ := op_flag cfg hs op
    show FlagAgrees cfg (runOps cfg ops (op.exec cfg s)) ↔ _
    rw [ih hacks]
    by_cases hop : op.SetsConversion s.converts
    · exact iff_of_true (Or.inl (hset hop)) (Or.inr ⟨op, List.mem_cons_self, hop⟩)
    · obtain ⟨hconverts, hreg⟩ := hkeep hop
      rw [FlagAgrees, hconverts, hreg, ← FlagAgrees]
      simp [hop]

/-- The write that turns conversion off is lost before a config word, and enabling the balancing
does not repeat it. -/
theorem conversion_heals_iff_balancing :
    ¬ FlagAgrees settings (runOps settings [.realTime "BAL_ENABLE"]
      (runOps settings [.conversionState "CONVERSION_ON", .config "DIAG_UV" "default"]
        (bootBms (bootChip (Stream'.cons true (Stream'.cons false acked)))))) := by
  rw [conversion_heals_iff settings rfl, not_or]
  constructor
  · rw [FlagAgrees]
    decide
  · rintro ⟨op, hop, hset⟩
    rw [List.mem_singleton.mp hop] at hset
    exact absurd hset.1 (by decide)

end

end QuadBot
