import QuadBot.BmsSetup
import QuadBot.BmsChip

/-! The conversion state over runs of the setup commands. While every write is acknowledged,
`bmsConversionActive` says what the conversion register of the chip holds, and no other register is
written while the chip converts. -/

namespace QuadBot

/-- Everything is acknowledged, and the conversion register holds what `bmsConversionActive`
says. -/
structure InSync (cfg : Settings) (s : Bms BmsChip) : Prop where
  acks : s.wire1.acks = acked
  active : s.bmsConversionActive = 0 ∧ s.wire1.reg 0x02 = 0 ∨
    s.bmsConversionActive = 1 ∧ s.wire1.reg 0x02 = cfg.conversionOnValue

/-- The write that turns conversion off where it is active. -/
def offWrite (s : Bms BmsChip) : List ChipWrite :=
  if s.bmsConversionActive = 1 then [⟨0x49, 0x02, 0x0000, s.wire1.reg 0x02⟩] else []

namespace InSync

variable {cfg : Settings} {s : Bms BmsChip}

theorem fail (h : InSync cfg s) (message : String) : InSync cfg (s.fail message) :=
  ⟨h.acks, h.active⟩

theorem active_eq_one_iff (h : InSync cfg s) (hon : cfg.conversionOnValue ≠ 0) :
    s.bmsConversionActive = 1 ↔ s.wire1.reg 0x02 = cfg.conversionOnValue := by
  rcases h.active with ⟨h0, hreg⟩ | ⟨h1, hreg⟩
  · rw [h0, hreg]
    exact iff_of_false (by decide) hon.symm
  · exact iff_of_true h1 hreg

theorem active_eq_zero_iff (h : InSync cfg s) (hon : cfg.conversionOnValue ≠ 0) :
    s.bmsConversionActive = 0 ↔ s.wire1.reg 0x02 = 0 := by
  rcases h.active with ⟨h0, hreg⟩ | ⟨h1, hreg⟩
  · exact iff_of_true h0 hreg
  · rw [h1, hreg]
    exact iff_of_false (by decide) hon

theorem written {d : UInt16} {active : Int} (hs : s.wire1.acks = acked)
    (hd : active = 0 ∧ d = 0 ∨ active = 1 ∧ d = cfg.conversionOnValue) :
    InSync cfg { writeBMSData bmsBus 0x49 0x02 d s with bmsConversionActive := active } := by
  constructor
  · show (writeBMSData bmsBus 0x49 0x02 d s).wire1.acks = acked
    rw [write_acks, hs, acked_tail]
  · show active = 0 ∧ (writeBMSData bmsBus 0x49 0x02 d s).wire1.reg 0x02 = 0 ∨
      active = 1 ∧ (writeBMSData bmsBus 0x49 0x02 d s).wire1.reg 0x02 = cfg.conversionOnValue
    rw [write_reg _ _ _ hs, if_pos rfl]
    exact hd

theorem off (h : InSync cfg s) :
    InSync cfg (setBMSConversionState bmsBus cfg "CONVERSION_OFF" s) ∧
      (setBMSConversionState bmsBus cfg "CONVERSION_OFF" s).bmsConversionActive = 0 ∧
      (setBMSConversionState bmsBus cfg "CONVERSION_OFF" s).wire1.log =
        s.wire1.log ++ [⟨0x49, 0x02, 0x0000, s.wire1.reg 0x02⟩] := by
  unfold setBMSConversionState
  rw [if_pos rfl]
  exact ⟨written h.acks (Or.inl ⟨rfl, rfl⟩), rfl, write_log s 0x02 0x0000⟩

theorem on (h : InSync cfg s) :
    InSync cfg (setBMSConversionState bmsBus cfg "CONVERSION_ON" s) := by
  unfold setBMSConversionState
  rw [if_neg (by decide), if_pos rfl]
  exact written h.acks (Or.inr ⟨rfl, rfl⟩)

theorem write (h : InSync cfg s) (h0 : s.bmsConversionActive = 0) {r : UInt8} (hr : r ≠ 0x02)
    (d : UInt16) : InSync cfg (writeBMSData bmsBus 0x49 r d s) ∧
      (writeBMSData bmsBus 0x49 r d s).wire1.log = s.wire1.log ++ [⟨0x49, r, d, 0⟩] := by
  have hreg : s.wire1.reg 0x02 = 0 := by
    rcases h.active with ⟨-, hreg⟩ | ⟨h1, -⟩
    · exact hreg
    · omega
  refine ⟨⟨by rw [write_acks, h.acks, acked_tail], Or.inl ⟨?_, ?_⟩⟩, ?_⟩
  · rw [write_active, h0]
  · rw [write_reg _ _ _ h.acks, if_neg (Ne.symm hr), hreg]
  · rw [write_log, hreg]

/-- The common send path turns conversion off where it is active, and then writes once. -/
theorem sendWord (h : InSync cfg s) {r : UInt8} (hr : r ≠ 0x02) (d : UInt16) :
    InSync cfg (s.sendWord bmsBus cfg r d) ∧
      (s.sendWord bmsBus cfg r d).wire1.log =
        s.wire1.log ++ (offWrite s ++ [⟨0x49, r, d, 0⟩]) := by
  unfold Bms.sendWord offWrite
  by_cases h1 : s.bmsConversionActive = 1
  · rw [if_pos h1, if_pos h1]
    obtain ⟨hoff, hzero, hlog⟩ := h.off
    obtain ⟨hsync, hlog'⟩ := hoff.write hzero hr d
    exact ⟨hsync, by rw [hlog', hlog, List.append_assoc]⟩
  · rw [if_neg h1, if_neg h1]
    have h0 : s.bmsConversionActive = 0 := by
      rcases h.active with ⟨h0, -⟩ | ⟨h1', -⟩
      · exact h0
      · exact absurd h1' h1
    exact h.write h0 hr d

end InSync

/-! ### Calls -/

/-- The registers that the names of a kind of call stand for. -/
def BmsCall.registers : BmsCall → List UInt8
  | config _ _ => [0x04, 0x13, 0x14, 0x15, 0x16, 0x2A, 0x2B, 0x2F]
  | nvm _ => [0x20]
  | identity _ _ => [0x17, 0x18, 0x19, 0x1A, 0x1B, 0x1C, 0x1D, 0x1E]
  | realTime _ => [0x01, 0x21, 0x22, 0x23, 0x24]
  | conversionState _ => [0x02]

theorem register_mem {call : BmsCall} {r : UInt8} (h : call.register = some r) :
    r ∈ call.registers := by
  cases call with
  | config | nvm | identity | realTime | conversionState =>
    simp only [BmsCall.register, configRegister, nvmWord, identityRegister, realTimeWord] at h
    repeat' split at h
    all_goals
      cases h
      try exact List.elem_iff.mp rfl

/-- What is true of the registers of the kind is true of the call's own. -/
theorem register_all (P : UInt8 → Prop) [DecidablePred P] {call : BmsCall} {r : UInt8}
    (h : call.register = some r) (hall : call.registers.all fun r => P r) : P r :=
  of_decide_eq_true (List.all_eq_true.mp hall r (register_mem h))

/-- Only `setBMSConversionState` writes the conversion register, and no call's own register is a
numerical one. -/
theorem register_range {call : BmsCall} {r : UInt8} (h : call.register = some r) :
    (r = 0x02 → ∃ state, call = .conversionState state) ∧ ¬ (0x05 ≤ r ∧ r ≤ 0x12) := by
  cases call with
  | conversionState state =>
    obtain rfl := List.mem_singleton.mp (register_mem h)
    exact ⟨fun _ => ⟨state, rfl⟩, by decide⟩
  | config command | nvm command | identity command | realTime command =>
    obtain ⟨hne, hrange⟩ := register_all (fun r => r ≠ 0x02 ∧ ¬ (0x05 ≤ r ∧ r ≤ 0x12)) h rfl
    exact ⟨fun h => absurd h hne, hrange⟩

theorem exec_rejected (cfg : Settings) {call : BmsCall} (h : call.Rejected) (s : Bms BmsChip) :
    ∃ message, call.exec bmsBus cfg s = s.fail message := by
  cases call with
  | config command valueStr =>
    simp only [BmsCall.exec, sendBMSConfigCommand]
    cases hr : configRegister command with
    | none => exact ⟨_, rfl⟩
    | some r =>
      obtain ⟨hdefault, hbinary⟩ := h.resolve_left (by simp [hr])
      dsimp only
      exact ⟨_, by rw [if_neg hdefault, if_neg hbinary]⟩
  | nvm command =>
    rw [BmsCall.Rejected] at h
    exact ⟨_, by rw [BmsCall.exec, rwBMSNVM, h]⟩
  | identity command data =>
    simp only [BmsCall.exec, sendBMSIdentityCommand]
    by_cases hzero : data = 0
    · exact ⟨_, by rw [if_pos hzero]⟩
    · have hname : identityRegister command = none := h.resolve_left hzero
      exact ⟨_, by rw [if_neg hzero, hname]⟩
  | realTime command =>
    rw [BmsCall.Rejected] at h
    exact ⟨_, by rw [BmsCall.exec, sendBMSRealTimeCommand, h]⟩
  | conversionState state =>
    exact ⟨_, by rw [BmsCall.exec, setBMSConversionState, if_neg h.1, if_neg h.2]⟩

/-- A call of a command function that is not rejected takes the common send path. -/
theorem exec_accepted (cfg : Settings) {call : BmsCall} (h : ¬ call.Rejected)
    (hstate : ∀ state, call ≠ .conversionState state) (s : Bms BmsChip) :
    ∃ (s' : Bms BmsChip) (r : UInt8) (d : UInt16),
      s'.wire1 = s.wire1 ∧ s'.bmsConversionActive = s.bmsConversionActive ∧
      call.register = some r ∧ call.exec bmsBus cfg s = s'.sendWord bmsBus cfg r d := by
  cases call with
  | config command valueStr =>
    simp only [BmsCall.exec, sendBMSConfigCommand, BmsCall.register]
    cases hr : configRegister command with
    | none => exact absurd (Or.inl hr) h
    | some r =>
      dsimp only
      by_cases hdefault : valueStr = "default"
      · exact ⟨s, _, _, rfl, rfl, rfl, by rw [if_pos hdefault]⟩
      · have hbinary : "0b".toList <+: valueStr.toList := by
          by_contra hbinary
          exact h (Or.inr ⟨hdefault, hbinary⟩)
        rw [if_neg hdefault, if_pos hbinary]
        split
        · exact ⟨s.fail _, _, _, rfl, rfl, rfl, rfl⟩
        · exact ⟨s, _, _, rfl, rfl, rfl, rfl⟩
  | nvm command =>
    simp only [BmsCall.exec, rwBMSNVM, BmsCall.register]
    cases hr : nvmWord command with
    | none => exact absurd hr h
    | some w => exact ⟨s, _, _, rfl, rfl, rfl, rfl⟩
  | identity command data =>
    simp only [BmsCall.exec, sendBMSIdentityCommand, BmsCall.register]
    have hzero : data ≠ 0 := fun hzero => h (Or.inl hzero)
    rw [if_neg hzero]
    cases hr : identityRegister command with
    | none => exact absurd (Or.inr hr) h
    | some r => exact ⟨s, _, _, rfl, rfl, rfl, rfl⟩
  | realTime command =>
    simp only [BmsCall.exec, sendBMSRealTimeCommand, BmsCall.register]
    cases hr : realTimeWord command with
    | none => exact absurd hr h
    | some w => exact ⟨s, _, _, rfl, rfl, rfl, rfl⟩
  | conversionState state => exact absurd rfl (hstate state)

theorem exec_state_log (cfg : Settings) {state : String}
    (hc : ¬ (BmsCall.conversionState state).Rejected) (s : Bms BmsChip) :
    ∃ d, ((BmsCall.conversionState state).exec bmsBus cfg s).wire1.log =
      s.wire1.log ++ [⟨0x49, 0x02, d, s.wire1.reg 0x02⟩] := by
  simp only [BmsCall.exec, setBMSConversionState]
  by_cases hoff : state = "CONVERSION_OFF"
  · exact ⟨_, by rw [if_pos hoff]; exact write_log s 0x02 0x0000⟩
  · have hon : state = "CONVERSION_ON" := by
      by_contra hon
      exact hc ⟨hoff, hon⟩
    exact ⟨_, by rw [if_neg hoff, if_pos hon]; exact write_log s 0x02 cfg.conversionOnValue⟩

theorem mem_offWrite {s : Bms BmsChip} {w : ChipWrite} (h : w ∈ offWrite s) :
    w.register = 0x02 := by
  unfold offWrite at h
  split at h
  · rw [List.mem_singleton.mp h]
  · cases h

/-- Whatever is acknowledged, the common send path puts the same writes on the bus. -/
theorem sendWord_log (cfg : Settings) (s : Bms BmsChip) (r : UInt8) (d : UInt16) :
    ∃ conversion, (s.sendWord bmsBus cfg r d).wire1.log =
      s.wire1.log ++ (offWrite s ++ [⟨0x49, r, d, conversion⟩]) := by
  unfold Bms.sendWord offWrite
  by_cases h : s.bmsConversionActive = 1
  · rw [if_pos h, if_pos h]
    have hoff : (setBMSConversionState bmsBus cfg "CONVERSION_OFF" s).wire1.log =
        s.wire1.log ++ [⟨0x49, 0x02, 0x0000, s.wire1.reg 0x02⟩] := write_log s 0x02 0x0000
    exact ⟨_, by rw [write_log, hoff, List.append_assoc]⟩
  · rw [if_neg h, if_neg h]
    exact ⟨_, write_log s r d⟩

theorem sendWord_writes (cfg : Settings) (r : UInt8) (d : UInt16) (s : Bms BmsChip) :
    WritesOnly (fun w => w.register = 0x02 ∨ r = w.register) s.wire1
      (s.sendWord bmsBus cfg r d).wire1 := by
  obtain ⟨conversion, hlog⟩ := sendWord_log cfg s r d
  refine ⟨_, hlog, ?_⟩
  intro w hw
  rcases List.mem_append.mp hw with hw | hw
  · exact Or.inl (mem_offWrite hw)
  · rw [List.mem_singleton.mp hw]
    exact Or.inr rfl

/-- Whatever is acknowledged, a call writes no register but the conversion register and its own. -/
theorem exec_writes (cfg : Settings) (call : BmsCall) (s : Bms BmsChip) :
    WritesOnly (fun w => w.register = 0x02 ∨ call.register = some w.register) s.wire1
      (call.exec bmsBus cfg s).wire1 := by
  by_cases hc : call.Rejected
  · obtain ⟨message, hexec⟩ := exec_rejected cfg hc s
    rw [hexec]
    exact .of_log_eq rfl
  · by_cases hstate : ∃ state, call = .conversionState state
    · obtain ⟨state, rfl⟩ := hstate
      obtain ⟨d, hlog⟩ := exec_state_log cfg hc s
      exact ⟨_, hlog, by simp⟩
    · obtain ⟨s', r, d, hwire, -, hr, hexec⟩ :=
        exec_accepted cfg hc (fun state hs => hstate ⟨state, hs⟩) s
      rw [hexec, hr, ← hwire]
      exact (sendWord_writes cfg r d s').mono fun w hw => hw.imp_right (congrArg some)

theorem InSync.exec_command {cfg : Settings} {s : Bms BmsChip} (h : InSync cfg s) {call : BmsCall}
    (hc : ¬ call.Rejected) (hstate : ∀ state, call ≠ .conversionState state) :
    InSync cfg (call.exec bmsBus cfg s) ∧ ∃ r d, call.register = some r ∧
      (call.exec bmsBus cfg s).wire1.log = s.wire1.log ++ (offWrite s ++ [⟨0x49, r, d, 0⟩]) := by
  obtain ⟨s', r, d, hwire, hactive, hr, hexec⟩ := exec_accepted cfg hc hstate s
  have hne : r ≠ 0x02 := by
    intro h2
    obtain ⟨state, rfl⟩ := (register_range hr).1 h2
    exact hstate state rfl
  have hsync : InSync cfg s' := by
    constructor
    · rw [hwire]
      exact h.acks
    · rw [hwire, hactive]
      exact h.active
  have hoff : offWrite s' = offWrite s := by
    rw [offWrite, offWrite, hwire, hactive]
  obtain ⟨hsend, hlog⟩ := hsync.sendWord hne d
  rw [hexec]
  exact ⟨hsend, r, d, hr, by rw [hlog, hwire, hoff]⟩

theorem InSync.exec_state {cfg : Settings} {s : Bms BmsChip} (h : InSync cfg s) {state : String}
    (hc : ¬ (BmsCall.conversionState state).Rejected) :
    InSync cfg ((BmsCall.conversionState state).exec bmsBus cfg s) := by
  by_cases hoff : state = "CONVERSION_OFF"
  · subst hoff
    exact h.off.1
  · have hon : state = "CONVERSION_ON" := by
      by_contra hon
      exact hc ⟨hoff, hon⟩
    subst hon
    exact h.on

/-- No register but the conversion register is written while the chip converts. -/
def ChipWrite.Safe (w : ChipWrite) : Prop := w.register ≠ 0x02 → w.conversion = 0

theorem InSync.exec {cfg : Settings} {s : Bms BmsChip} (h : InSync cfg s) (call : BmsCall) :
    InSync cfg (call.exec bmsBus cfg s) ∧
      WritesOnly ChipWrite.Safe s.wire1 (call.exec bmsBus cfg s).wire1 := by
  by_cases hc : call.Rejected
  · obtain ⟨message, hexec⟩ := exec_rejected cfg hc s
    rw [hexec]
    exact ⟨h.fail message, .of_log_eq rfl⟩
  · by_cases hstate : ∃ state, call = .conversionState state
    · obtain ⟨state, rfl⟩ := hstate
      obtain ⟨d, hlog⟩ := exec_state_log cfg hc s
      exact ⟨h.exec_state hc, _, hlog, by simp [ChipWrite.Safe]⟩
    · obtain ⟨hsync, r, d, -, hlog⟩ := h.exec_command hc fun state hs => hstate ⟨state, hs⟩
      refine ⟨hsync, _, hlog, ?_⟩
      intro w hw hne
      rcases List.mem_append.mp hw with hw | hw
      · exact absurd (mem_offWrite hw) hne
      · rw [List.mem_singleton.mp hw]

def runCalls (cfg : Settings) (calls : List BmsCall) (s : Bms BmsChip) : Bms BmsChip :=
  calls.foldl (fun s call => call.exec bmsBus cfg s) s

theorem InSync.run {cfg : Settings} {s : Bms BmsChip} (h : InSync cfg s) (calls : List BmsCall) :
    InSync cfg (runCalls cfg calls s) ∧
      WritesOnly ChipWrite.Safe s.wire1 (runCalls cfg calls s).wire1 := by
  induction calls generalizing s with
  | nil => exact ⟨h, .of_log_eq rfl⟩
  | cons call calls ih =>
    obtain ⟨hsync, hnew⟩ := h.exec call
    obtain ⟨hrun, hrest⟩ := ih hsync
    exact ⟨hrun, hnew.trans hrest⟩

theorem settings_conversionOnValue_ne : settings.conversionOnValue ≠ 0 := by decide

/-- Runs of the setup commands from a state with conversion off, every write acknowledged:
`bmsConversionActive` says what the conversion register holds, every other register is written
while that register is 0, and whatever call comes next is rejected without effect or issues its own
write, after the one that turns conversion off where it is active. -/
theorem conversion_run {s : Bms BmsChip} (hs : s.wire1.acks = acked)
    (hactive : s.bmsConversionActive = 0) (hreg : s.wire1.reg 0x02 = 0) (calls : List BmsCall) :
    ((runCalls settings calls s).bmsConversionActive = 1 ↔
      (runCalls settings calls s).wire1.reg 0x02 = settings.conversionOnValue) ∧
    ((runCalls settings calls s).bmsConversionActive = 0 ↔
      (runCalls settings calls s).wire1.reg 0x02 = 0) ∧
    WritesOnly ChipWrite.Safe s.wire1 (runCalls settings calls s).wire1 ∧
    ∀ (call : BmsCall) t, t = runCalls settings calls s →
      (call.Rejected → (call.exec bmsBus settings t).wire1 = t.wire1 ∧
        (call.exec bmsBus settings t).bmsConversionActive = t.bmsConversionActive) ∧
      (¬ call.Rejected → (∀ state, call ≠ .conversionState state) →
        ∃ r d, call.register = some r ∧ (call.exec bmsBus settings t).wire1.log =
          t.wire1.log ++ (offWrite t ++ [⟨0x49, r, d, 0⟩])) ∧
      (¬ call.Rejected → ∀ state, call = .conversionState state →
        ∃ d, (call.exec bmsBus settings t).wire1.log =
          t.wire1.log ++ [⟨0x49, 0x02, d, t.wire1.reg 0x02⟩]) := by
  have hstart : InSync settings s := ⟨hs, Or.inl ⟨hactive, hreg⟩⟩
  obtain ⟨hsync, hlog⟩ := hstart.run calls
  refine ⟨hsync.active_eq_one_iff settings_conversionOnValue_ne,
    hsync.active_eq_zero_iff settings_conversionOnValue_ne, hlog, ?_⟩
  rintro call t rfl
  refine ⟨?_, ?_, ?_⟩
  · intro hc
    obtain ⟨message, hexec⟩ := exec_rejected settings hc (runCalls settings calls s)
    rw [hexec]
    exact ⟨rfl, rfl⟩
  · intro hc hstate
    exact (hsync.exec_command hc hstate).2
  · rintro hc state rfl
    exact exec_state_log settings hc _

theorem conversion_run_on_and_config :
    (runCalls settings [.conversionState "CONVERSION_ON", .config "DIAG_UV" "0b11"]
      (bootBms (bootChip acked))).bmsConversionActive = 0 ↔
    (runCalls settings [.conversionState "CONVERSION_ON", .config "DIAG_UV" "0b11"]
      (bootBms (bootChip acked))).wire1.reg 0x02 = 0 :=
  (conversion_run (s := bootBms (bootChip acked)) rfl rfl rfl
    [.conversionState "CONVERSION_ON", .config "DIAG_UV" "0b11"]).2.1

end QuadBot
