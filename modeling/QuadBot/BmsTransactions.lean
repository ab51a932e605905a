import QuadBot.BmsConfigWords
import QuadBot.BmsIdentity
import QuadBot.BmsMonitoring
import QuadBot.Lib.Lossy

/-! What the battery management code puts on its bus, transaction by transaction. The transactions
depend on the calls and on the conversion flag alone, never on what was acknowledged, so that a
register holds the last of its words that was. -/

namespace QuadBot

open Latest Lossy

/-- A transaction with the chip at 0x49. -/
inductive Transaction
  /-- A word for a register. -/
  | store (registerAddress : UInt8) (data : UInt16)
  /-- The register that is to be sent. -/
  | point (registerAddress : UInt8)
  /-- The two bytes of that register. -/
  | request

namespace Transaction

/-- What a write puts on the bus: address, register and word. -/
def sent : Transaction → Option (UInt8 × UInt8 × UInt16)
  | store registerAddress data => some (0x49, registerAddress, data)
  | _ => none

def dataFor (k : UInt8) : Transaction → Option UInt16
  | store registerAddress data => if k = registerAddress then some data else none
  | _ => none

/-- The record of a write that is sent while the chip has the given conversion register. -/
def put (conversion : UInt16) : Transaction → Option ChipWrite
  | store registerAddress data => some ⟨0x49, registerAddress, data, conversion⟩
  | _ => none

/-- A write that is not acknowledged. -/
def Lost : Transaction × Bool → Bool
  | (store _ _, false) => true
  | _ => false

end Transaction

def ChipWrite.sent (w : ChipWrite) : UInt8 × UInt8 × UInt16 := (w.address, w.register, w.data)

/-- The message of `writeBMSData` for a lost write. -/
def writeFailure : String := "Error: Failed to write data to BMS."

/-- The code takes conversion to be active. -/
def Bms.converts {σ : Type} (s : Bms σ) : Bool := s.bmsConversionActive = 1

/-! ### The transactions of a call -/

/-- A word goes out after the one that turns conversion off where it is active. -/
def wordTransactions (converts : Bool) : Option (UInt8 × UInt16) → List Transaction
  | none => []
  | some (registerAddress, data) =>
    if converts then [.store 0x02 0x0000, .store registerAddress data]
    else [.store registerAddress data]

/-- Whether conversion counts as active after the call. -/
def wordConverts (converts : Bool) : Option (UInt8 × UInt16) → Bool
  | none => converts
  | some _ => false

namespace BmsOp

/-- The register and the word of a command that is accepted. -/
def word : BmsOp → Option (UInt8 × UInt16)
  | config command valueStr => (configRegister command).bind fun r =>
    if valueStr = "default" then some (r.registerAddress, r.defaultData)
    else if "0b".toList <+: valueStr.toList then
      some (r.registerAddress, binaryWord r (valueStr.toList.drop 2))
    else none
  | identity command data =>
    if data = 0 then none else (identityRegister command).map fun r => (r, data)
  | realTime command => realTimeWord command
  | _ => none

def transactions (cfg : Settings) (converts : Bool) : BmsOp → List Transaction
  | conversionState state =>
    if state = "CONVERSION_OFF" then [.store 0x02 0x0000]
    else if state = "CONVERSION_ON" then [.store 0x02 cfg.conversionOnValue]
    else []
  | coulomb => [.store 0x2D 0xFFFF, .point 0x2D, .request, .point 0x2E, .request]
  | read registerAddress => [.point registerAddress, .request]
  | op => wordTransactions converts op.word

def converts (active : Bool) : BmsOp → Bool
  | conversionState state =>
    if state = "CONVERSION_OFF" then false
    else if state = "CONVERSION_ON" then true
    else active
  | op => wordConverts active op.word

end BmsOp

/-- A command as a call. -/
def BmsOp.command : BmsOp → Option BmsCall
  | config command valueStr => some (.config command valueStr)
  | identity command data => some (.identity command data)
  | realTime command => some (.realTime command)
  | _ => none

/-- A word goes to the register of the command's name. -/
theorem BmsOp.word_register {op : BmsOp} {r : UInt8} {d : UInt16} (h : op.word = some (r, d)) :
    ∃ call, op.command = some call ∧ call.register = some r := by
  cases op with
  | config command valueStr =>
    obtain ⟨c, hc, hword⟩ := Option.bind_eq_some_iff.mp h
    have hr : c.registerAddress = r := by
      split at hword
      · exact congrArg Prod.fst (Option.some.inj hword)
      · split at hword
        · exact congrArg Prod.fst (Option.some.inj hword)
        · cases hword
    exact ⟨_, rfl, by rw [BmsCall.register, hc, Option.map_some, hr]⟩
  | identity command data =>
    rw [BmsOp.word] at h
    split at h
    · cases h
    · obtain ⟨r', hr, hword⟩ := Option.map_eq_some_iff.mp h
      cases hword
      exact ⟨_, rfl, hr⟩
  | realTime command =>
    exact ⟨_, rfl, by rw [BmsCall.register, show realTimeWord command = some (r, d) from h]; rfl⟩
  | numerical | conversionState | coulomb | read => cases h

/-- The registers that the accepted commands write. -/
def commandRegisters : List UInt8 :=
  [0x04, 0x13, 0x14, 0x15, 0x16, 0x2A, 0x2B, 0x2F, 0x17, 0x18, 0x19, 0x1A, 0x1B, 0x1C, 0x1D, 0x1E,
    0x01, 0x21, 0x22, 0x23, 0x24]

theorem BmsOp.word_mem {op : BmsOp} {r : UInt8} {d : UInt16} (h : op.word = some (r, d)) :
    r ∈ commandRegisters := by
  obtain ⟨call, hcall, hr⟩ := BmsOp.word_register h
  cases op with
  | config | identity | realTime =>
    cases hcall
    exact register_all (fun r => r ∈ commandRegisters) hr rfl
  | numerical | conversionState | coulomb | read => cases h

/-- No command has the conversion register as its own. -/
theorem BmsOp.word_ne {op : BmsOp} {r : UInt8} {d : UInt16} (h : op.word = some (r, d)) :
    r ≠ 0x02 := by
  rintro rfl
  exact absurd (BmsOp.word_mem h) (by decide)

/-- The transactions of a run of calls. -/
def runTransactions (cfg : Settings) : Bool → List BmsOp → List Transaction
  | _, [] => []
  | converts, op :: ops =>
    op.transactions cfg converts ++ runTransactions cfg (op.converts converts) ops

/-! ### Serving transactions -/

/-- The record of the writes, from the given conversion register on. -/
def recorded : List (Transaction × Bool) → UInt16 → List ChipWrite
  | [], _ => []
  | p :: ps, conversion => (p.1.put conversion).toList ++
    recorded ps ((arrived (Transaction.dataFor 0x02) p).getD conversion)

theorem recorded_append (ps qs : List (Transaction × Bool)) (conversion : UInt16) :
    recorded (ps ++ qs) conversion = recorded ps conversion ++
      recorded qs (latest (arrived (Transaction.dataFor 0x02)) ps conversion) := by
  induction ps generalizing conversion with
  | nil => rfl
  | cons p ps ih => rw [List.cons_append, recorded, recorded, ih, latest_cons, List.append_assoc]

theorem map_sent_recorded (ts : List Transaction) (oks : Stream' Bool) (conversion : UInt16) :
    (recorded (outcomes ts oks) conversion).map ChipWrite.sent = ts.filterMap Transaction.sent := by
  induction ts generalizing oks conversion with
  | nil => rfl
  | cons a ts ih =>
    rw [outcomes, recorded, List.map_append, ih]
    cases a <;> rfl

/-- The transactions go out in order, and with the outcomes that the chip has for them: each word
is stored where its transaction is acknowledged, and reported where it is not. -/
structure Served (s : Bms BmsChip) (ts : List Transaction) (t : Bms BmsChip) : Prop where
  acks : t.wire1.acks = s.wire1.acks.drop ts.length
  log : t.wire1.log =
    s.wire1.log ++ recorded (outcomes ts s.wire1.acks) (s.wire1.reg 0x02)
  reg : ∀ k, t.wire1.reg k =
    latest (arrived (Transaction.dataFor k)) (outcomes ts s.wire1.acks) (s.wire1.reg k)
  failures : t.errors.count writeFailure =
    s.errors.count writeFailure + (outcomes ts s.wire1.acks).countP Transaction.Lost
  timestamp : t.bmsDataTimestamp = s.bmsDataTimestamp

/-- A read moves the pointer of the chip, where the register arrives, and changes nothing else. -/
theorem read_moves_pointer (r : UInt8) (b : BmsChip) : (readBMSData bmsBus 0x49 r b).2 =
    { b with acks := b.acks.tail.tail, pointer := if b.acks.head then r else b.pointer } := by
  cases hfirst : b.acks.head <;> cases hsecond : b.acks.get 1 <;>
    simp [readBMSData, bmsBus, BmsChip.record, BmsChip.deliver, hfirst, hsecond]

namespace Served

variable {s m t : Bms BmsChip} {ts us : List Transaction}

theorem refl (s : Bms BmsChip) : Served s [] s where
  acks := rfl
  log := by simp [outcomes, recorded]
  reg := fun _ => rfl
  failures := rfl
  timestamp := rfl

theorem append (h : Served s ts m) (h' : Served m us t) : Served s (ts ++ us) t := by
  have houtcomes : outcomes (ts ++ us) s.wire1.acks =
      outcomes ts s.wire1.acks ++ outcomes us m.wire1.acks := by
    rw [outcomes_append, h.acks]
  constructor
  · rw [h'.acks, h.acks, Stream'.drop_drop, List.length_append]
  · rw [h'.log, h.log, h.reg, houtcomes, recorded_append, List.append_assoc]
  · intro k
    rw [h'.reg, h.reg, houtcomes, latest_append]
  · rw [h'.failures, h.failures, houtcomes, List.countP_append, Nat.add_assoc]
  · rw [h'.timestamp, h.timestamp]

theorem fail {message : String} (hne : message ≠ writeFailure) (s : Bms BmsChip) :
    Served s [] (s.fail message) where
  acks := rfl
  log := by simp [Bms.fail, outcomes, recorded]
  reg := fun _ => rfl
  failures := by simp [Bms.fail, outcomes, List.count_append, hne]
  timestamp := rfl

theorem write (s : Bms BmsChip) (r : UInt8) (d : UInt16) :
    Served s [.store r d] (writeBMSData bmsBus 0x49 r d s) := by
  have hreg : ∀ k, (writeBMSData bmsBus 0x49 r d s).wire1.reg k =
      latest (arrived (Transaction.dataFor k)) (outcomes [.store r d] s.wire1.acks)
        (s.wire1.reg k) := by
    intro k
    cases hack : s.wire1.acks.head <;>
      simp [writeBMSData, bmsBus, BmsChip.record, BmsChip.deliver, Bms.fail, latest, outcomes,
        arrived, Transaction.dataFor, hack]
    split <;> rfl
  have hfailures : (writeBMSData bmsBus 0x49 r d s).errors.count writeFailure =
      s.errors.count writeFailure +
        (outcomes [.store r d] s.wire1.acks).countP Transaction.Lost := by
    cases hack : s.wire1.acks.head <;>
      simp [writeBMSData, bmsBus, Bms.fail, outcomes, Transaction.Lost, writeFailure, hack,
        List.count_append, List.countP_cons]
  refine ⟨write_acks s r d, ?_, hreg, hfailures, ?_⟩
  · rw [write_log]
    rfl
  · cases hack : s.wire1.acks.head <;> simp [writeBMSData, bmsBus, Bms.fail, hack]

theorem read (s : Bms BmsChip) (r : UInt8) :
    Served s [.point r, .request]
      { s with wire1 := (readBMSData bmsBus 0x49 r s.wire1).2 } := by
  have hchip := read_moves_pointer r s.wire1
  constructor
  · show (readBMSData bmsBus 0x49 r s.wire1).2.acks = _
    rw [hchip]
    rfl
  · show (readBMSData bmsBus 0x49 r s.wire1).2.log = _
    rw [hchip]
    simp [outcomes, recorded, Transaction.put]
  · intro k
    show (readBMSData bmsBus 0x49 r s.wire1).2.reg k = _
    rw [hchip]
    rw [latest_arrived_of_none (by simp [Transaction.dataFor])]
  · cases hfirst : s.wire1.acks.head <;> cases hsecond : s.wire1.acks.tail.head <;>
      simp [outcomes, Transaction.Lost]
  · rfl

/-- What is sent does not depend on what is acknowledged. -/
theorem sent (h : Served s ts t) : t.wire1.log.map ChipWrite.sent =
    s.wire1.log.map ChipWrite.sent ++ ts.filterMap Transaction.sent := by
  rw [h.log, List.map_append, map_sent_recorded]

end Served

/-! ### Calls -/

theorem append_ne_writeFailure {start : String}
    (h : ¬ start.toList <+: writeFailure.toList) (rest : String) :
    start ++ rest ≠ writeFailure := by
  intro heq
  apply h
  rw [← heq, String.toList_append]
  exact List.prefix_append _ _

section

variable (cfg : Settings) (s : Bms BmsChip)

theorem served_sendWord (w : UInt8 × UInt16) :
    Served s (wordTransactions s.converts (some w)) (s.sendWord bmsBus cfg w.1 w.2) ∧
      (s.sendWord bmsBus cfg w.1 w.2).converts = false := by
  obtain ⟨r, d⟩ := w
  by_cases h1 : s.bmsConversionActive = 1
  · have hoff := Served.write s 0x02 0x0000
    have hword := Served.write (setBMSConversionState bmsBus cfg "CONVERSION_OFF" s) r d
    have hflag : (s.sendWord bmsBus cfg r d).bmsConversionActive = 0 :=
      sendWord_active cfg s d h1
    rw [wordTransactions, Bms.converts, if_pos (decide_eq_true h1)]
    refine ⟨?_, by rw [Bms.converts, hflag]; rfl⟩
    rw [Bms.sendWord, if_pos h1]
    exact Served.append (m := setBMSConversionState bmsBus cfg "CONVERSION_OFF" s)
      ⟨hoff.acks, hoff.log, hoff.reg, hoff.failures, hoff.timestamp⟩ hword
  · rw [wordTransactions, Bms.converts, if_neg (by simpa using h1), Bms.sendWord, if_neg h1]
    exact ⟨Served.write s r d, by rw [Bms.converts, write_active]; exact decide_eq_false h1⟩

theorem served_rejected {message : String} (hne : message ≠ writeFailure) :
    Served s (wordTransactions s.converts none) (s.fail message) ∧
      (s.fail message).converts = wordConverts s.converts none :=
  ⟨Served.fail hne s, rfl⟩

theorem served_config (command valueStr : String) :
    Served s (wordTransactions s.converts (BmsOp.config command valueStr).word)
        (sendBMSConfigCommand bmsBus cfg command valueStr s) ∧
      (sendBMSConfigCommand bmsBus cfg command valueStr s).converts =
        wordConverts s.converts (BmsOp.config command valueStr).word := by
  simp only [BmsOp.word, sendBMSConfigCommand]
  cases configRegister command with
  | none => exact served_rejected s (by decide)
  | some r =>
    rw [Option.bind_some]
    dsimp only
    by_cases hdefault : valueStr = "default"
    · rw [if_pos hdefault, if_pos hdefault]
      exact served_sendWord cfg s (r.registerAddress, r.defaultData)
    · rw [if_neg hdefault, if_neg hdefault]
      by_cases hbinary : "0b".toList <+: valueStr.toList
      · rw [if_pos hbinary, if_pos hbinary, binaryWord]
        split
        · have hwarning : ∀ rest, "Warning: Value " ++ rest ≠ writeFailure :=
            append_ne_writeFailure (by decide)
          simp only [String.append_assoc]
          obtain ⟨hsend, hflag⟩ := served_sendWord cfg (s.fail ("Warning: Value " ++ (valueStr ++
            (" exceeds max allowed for " ++ (command ++ (". Capping to 0b" ++
              binaryText r.maxData)))))) (r.registerAddress, r.maxData)
          exact ⟨(Served.fail (hwarning _) s).append hsend, hflag⟩
        · exact served_sendWord cfg s (r.registerAddress, _)
      · rw [if_neg hbinary, if_neg hbinary]
        exact served_rejected s (by decide)

theorem served_identity (command : String) (data : UInt16) :
    Served s (wordTransactions s.converts (BmsOp.identity command data).word)
        (sendBMSIdentityCommand bmsBus cfg command data s) ∧
      (sendBMSIdentityCommand bmsBus cfg command data s).converts =
        wordConverts s.converts (BmsOp.identity command data).word := by
  simp only [BmsOp.word, sendBMSIdentityCommand]
  by_cases hzero : data = 0
  · rw [if_pos hzero, if_pos hzero, String.append_assoc]
    exact served_rejected s (append_ne_writeFailure (by decide) _)
  · rw [if_neg hzero, if_neg hzero]
    cases identityRegister command with
    | none => exact served_rejected s (by decide)
    | some r => exact served_sendWord cfg s (r, data)

theorem served_realTime (command : String) :
    Served s (wordTransactions s.converts (BmsOp.realTime command).word)
        (sendBMSRealTimeCommand bmsBus cfg command s) ∧
      (sendBMSRealTimeCommand bmsBus cfg command s).converts =
        wordConverts s.converts (BmsOp.realTime command).word := by
  simp only [BmsOp.word, sendBMSRealTimeCommand]
  cases realTimeWord command with
  | none => exact served_rejected s (by decide)
  | some w => exact served_sendWord cfg s w

theorem served_numerical (command : String) (arg1 arg2 : Option String) :
    Served s [] (sendBMSNumericalCommand cfg arg1 arg2 command s) ∧
      (sendBMSNumericalCommand cfg arg1 arg2 command s).converts = s.converts := by
  unfold sendBMSNumericalCommand
  split
  · exact ⟨Served.refl s, rfl⟩
  · exact ⟨Served.fail (append_ne_writeFailure (by decide) _) s, rfl⟩

theorem served_conversionState (state : String) :
    Served s ((BmsOp.conversionState state).transactions cfg s.converts)
        (setBMSConversionState bmsBus cfg state s) ∧
      (setBMSConversionState bmsBus cfg state s).converts =
        (BmsOp.conversionState state).converts s.converts := by
  simp only [BmsOp.transactions, BmsOp.converts, setBMSConversionState]
  by_cases hoff : state = "CONVERSION_OFF"
  · have hwrite := Served.write s 0x02 0x0000
    simp only [hoff, if_true]
    exact ⟨⟨hwrite.acks, hwrite.log, hwrite.reg, hwrite.failures, hwrite.timestamp⟩, rfl⟩
  · by_cases hon : state = "CONVERSION_ON"
    · have hwrite := Served.write s 0x02 cfg.conversionOnValue
      simp only [hon, if_true]
      exact ⟨⟨hwrite.acks, hwrite.log, hwrite.reg, hwrite.failures, hwrite.timestamp⟩, rfl⟩
    · simp only [hoff, hon, if_false]
      exact ⟨Served.fail (by decide) s, rfl⟩

theorem served_coulomb :
    Served s [.store 0x2D 0xFFFF, .point 0x2D, .request, .point 0x2E, .request]
        (readCoulombCounter bmsBus cfg s).2 ∧
      (readCoulombCounter bmsBus cfg s).2.converts = s.converts := by
  have hreset := Served.write s 0x2D 0xFFFF
  have hmsb := Served.read (writeBMSData bmsBus 0x49 0x2D 0xFFFF s) 0x2D
  have hlsb := Served.read { writeBMSData bmsBus 0x49 0x2D 0xFFFF s with
    wire1 := (readBMSData bmsBus 0x49 0x2D (writeBMSData bmsBus 0x49 0x2D 0xFFFF s).wire1).2 } 0x2E
  obtain ⟨hacks, hlog, hreg, hfailures, htimestamp⟩ := (hreset.append hmsb).append hlsb
  refine ⟨⟨hacks, hlog, hreg, hfailures, htimestamp⟩, ?_⟩
  show (writeBMSData bmsBus 0x49 0x2D 0xFFFF s).converts = s.converts
  rw [Bms.converts, write_active, Bms.converts]

/-- One call. -/
theorem served_op (op : BmsOp) : Served s (op.transactions cfg s.converts) (op.exec cfg s) ∧
    (op.exec cfg s).converts = op.converts s.converts := by
  cases op with
  | config command valueStr => exact served_config cfg s command valueStr
  | identity command data => exact served_identity cfg s command data
  | realTime command => exact served_realTime cfg s command
  | numerical command arg1 arg2 => exact served_numerical cfg s command arg1 arg2
  | conversionState state => exact served_conversionState cfg s state
  | coulomb => exact served_coulomb cfg s
  | read registerAddress => exact ⟨Served.read s registerAddress, rfl⟩

/-- A run of calls. -/
theorem served_run (ops : List BmsOp) :
    Served s (runTransactions cfg s.converts ops) (runOps cfg ops s) ∧
      (runOps cfg ops s).converts = ops.foldl BmsOp.converts s.converts := by
  induction ops generalizing s with
  | nil => exact ⟨Served.refl s, rfl⟩
  | cons op ops ih =>
    obtain ⟨hop, hflag⟩ := served_op cfg s op
    obtain ⟨hrun, hconverts⟩ := ih (op.exec cfg s)
    rw [hflag] at hrun hconverts
    exact ⟨hop.append hrun, hconverts⟩

/-- Over any run of calls, whatever is acknowledged: the words that go out depend on the calls and
the conversion flag alone, every register holds the last of its words that was acknowledged, and
every lost write is reported, each once. -/
theorem registers_hold_last_acknowledged (ops : List BmsOp) :
    (runOps cfg ops s).wire1.log.map ChipWrite.sent = s.wire1.log.map ChipWrite.sent ++
      (runTransactions cfg s.converts ops).filterMap Transaction.sent ∧
    (∀ k, (runOps cfg ops s).wire1.reg k = latest (arrived (Transaction.dataFor k))
      (outcomes (runTransactions cfg s.converts ops) s.wire1.acks) (s.wire1.reg k)) ∧
    (runOps cfg ops s).errors.count writeFailure = s.errors.count writeFailure +
      (outcomes (runTransactions cfg s.converts ops) s.wire1.acks).countP Transaction.Lost := by
  obtain ⟨hserved, -⟩ := served_run cfg s ops
  exact ⟨hserved.sent, hserved.reg, hserved.failures⟩

end

end QuadBot
