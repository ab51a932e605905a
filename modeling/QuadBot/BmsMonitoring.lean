import QuadBot.BmsConversion
import QuadBot.Lib.Lts

/-! What the command functions do to a conversion that is running. They turn it off first, but do
not look whether that write was acknowledged; and none of them turns conversion on again. -/

namespace QuadBot

open Lts

/-- A call of a function that writes a word of its own, after turning conversion off. -/
def BmsCall.IsCommand (call : BmsCall) : Prop := ∀ state, call ≠ .conversionState state

def BmsStep (cfg : Settings) (s : Bms BmsChip) (call : BmsCall) (t : Bms BmsChip) : Prop :=
  call.exec bmsBus cfg s = t

/-! ### Lost writes -/

/-- Where the write that turns conversion off fails, the flag stays and the call's own word is not
sent; and no word is sent while the chip converts. -/
structure OffGuarded (cfg : Settings) (s : Bms BmsChip) (call : BmsCall) : Prop where
  failed : ¬ call.Rejected → s.bmsConversionActive = 1 → s.wire1.acks.head = false →
    (call.exec bmsBus cfg s).bmsConversionActive = 1 ∧
      WritesOnly (fun w => w.register = 0x02) s.wire1 (call.exec bmsBus cfg s).wire1
  safe : WritesOnly ChipWrite.Safe s.wire1 (call.exec bmsBus cfg s).wire1

/-- The write that turns conversion off, where the call makes it, is acknowledged. -/
def OffTaken (s : Bms BmsChip) (call : BmsCall) : Prop :=
  ¬ call.Rejected → s.bmsConversionActive = 1 → s.wire1.acks.head = true

/-- The flag is 1 wherever the chip may be converting. -/
def FlagCovers (s : Bms BmsChip) : Prop := s.bmsConversionActive = 1 ∨ s.wire1.reg 0x02 = 0

section Write

variable (s : Bms BmsChip) (r : UInt8) (d : UInt16)

/-- Acknowledged or not, a write changes no other register. -/
theorem write_reg_of_ne {k : UInt8} (h : k ≠ r) :
    (writeBMSData bmsBus 0x49 r d s).wire1.reg k = s.wire1.reg k := by
  simp only [writeBMSData, bmsBus, BmsChip.record, BmsChip.deliver, wordOf_bytes, if_true]
  split <;> simp [Bms.fail, h]

theorem write_reg_self (hack : s.wire1.acks.head = true) :
    (writeBMSData bmsBus 0x49 r d s).wire1.reg r = d := by
  simp [writeBMSData, bmsBus, BmsChip.record, BmsChip.deliver, hack]

end Write

section

variable (cfg : Settings) (s : Bms BmsChip) {r : UInt8} (d : UInt16)

/-- A sent word leaves the flag at 0 where conversion was active, acknowledged or not. -/
theorem sendWord_active (h1 : s.bmsConversionActive = 1) :
    (s.sendWord bmsBus cfg r d).bmsConversionActive = 0 := by
  unfold Bms.sendWord
  rw [if_pos h1, write_active]
  rfl

theorem sendWord_safe (hr : r ≠ 0x02)
    (hoff : s.bmsConversionActive = 1 → s.wire1.acks.head = true) (hs : FlagCovers s) :
    FlagCovers (s.sendWord bmsBus cfg r d) ∧
      WritesOnly ChipWrite.Safe s.wire1 (s.sendWord bmsBus cfg r d).wire1 := by
  have hwrite : ∀ m : Bms BmsChip, m.wire1.reg 0x02 = 0 →
      FlagCovers (writeBMSData bmsBus 0x49 r d m) ∧
        WritesOnly ChipWrite.Safe m.wire1 (writeBMSData bmsBus 0x49 r d m).wire1 := by
    intro m hm
    constructor
    · right
      rw [write_reg_of_ne m r d (Ne.symm hr), hm]
    · refine ⟨_, write_log m r d, ?_⟩
      intro w hw _
      rw [List.mem_singleton.mp hw]
      exact hm
  unfold Bms.sendWord
  by_cases h1 : s.bmsConversionActive = 1
  · rw [if_pos h1]
    have hzero : (setBMSConversionState bmsBus cfg "CONVERSION_OFF" s).wire1.reg 0x02 = 0 :=
      write_reg_self s 0x02 0x0000 (hoff h1)
    have hsafe : WritesOnly ChipWrite.Safe s.wire1
        (setBMSConversionState bmsBus cfg "CONVERSION_OFF" s).wire1 :=
      ⟨_, write_log s 0x02 0x0000, by simp [ChipWrite.Safe]⟩
    obtain ⟨hcovers, hrest⟩ := hwrite _ hzero
    exact ⟨hcovers, hsafe.trans hrest⟩
  · rw [if_neg h1]
    exact hwrite s (hs.resolve_left h1)

end

/-- A command call is rejected without effect, or it is one `sendWord`. -/
theorem command_exec (cfg : Settings) {call : BmsCall} (hcall : call.IsCommand) (s : Bms BmsChip) :
    (call.Rejected ∧ ∃ message, call.exec bmsBus cfg s = s.fail message) ∨
      ¬ call.Rejected ∧ ∃ (s' : Bms BmsChip) (r : UInt8) (d : UInt16),
        r ≠ 0x02 ∧ s'.wire1 = s.wire1 ∧
        s'.bmsConversionActive = s.bmsConversionActive ∧
        call.exec bmsBus cfg s = s'.sendWord bmsBus cfg r d := by
  by_cases hc : call.Rejected
  · exact Or.inl ⟨hc, exec_rejected cfg hc s⟩
  · obtain ⟨s', r, d, hwire, hactive, hr, hexec⟩ := exec_accepted cfg hc hcall s
    refine Or.inr ⟨hc, s', r, d, ?_, hwire, hactive, hexec⟩
    intro h2
    obtain ⟨state, hstate⟩ := (register_range hr).1 h2
    exact hcall state hstate

/-- One call. -/
theorem command_guarded {cfg : Settings} {s : Bms BmsChip} {call : BmsCall}
    (hcall : call.IsCommand) (hs : FlagCovers s) (hoff : OffTaken s call) :
    OffGuarded cfg s call ∧ FlagCovers (call.exec bmsBus cfg s) := by
  rcases command_exec cfg hcall s with
    ⟨hc, message, hexec⟩ | ⟨hc, s', r, d, hr, hwire, hactive, hexec⟩
  · refine ⟨⟨fun h => absurd hc h, ?_⟩, ?_⟩
    · rw [hexec]
      exact .of_log_eq rfl
    · rw [hexec]
      exact hs
  · obtain ⟨hcovers, hsafe⟩ := sendWord_safe cfg s' d hr
      (by rw [hwire, hactive]; exact hoff hc) (by rw [FlagCovers, hwire, hactive]; exact hs)
    rw [hwire, ← hexec] at hsafe
    rw [← hexec] at hcovers
    refine ⟨⟨?_, hsafe⟩, hcovers⟩
    intro _ h1 hlost
    rw [hoff hc h1] at hlost
    cases hlost

theorem offTaken_of_offGuarded {cfg : Settings} {s : Bms BmsChip} {call : BmsCall}
    (hcall : call.IsCommand) (h : OffGuarded cfg s call) : OffTaken s call := by
  intro hc h1
  by_contra hlost
  obtain ⟨hactive, -⟩ := h.failed hc h1 (Bool.eq_false_iff.mpr hlost)
  rcases command_exec cfg hcall s with ⟨hc', -⟩ | ⟨-, s', r, d, -, -, hsame, hexec⟩
  · exact hc hc'
  · rw [hexec, sendWord_active cfg s' d (hsame.trans h1)] at hactive
    exact absurd hactive (by decide)

/-- Over runs of the command functions with any outcomes of the writes, from a state whose flag is 1
wherever the chip converts: every call is guarded exactly when no call loses the write that turns
conversion off. -/
theorem off_guarded_iff (cfg : Settings) {s : Bms BmsChip} (hs : FlagCovers s)
    {calls : List BmsCall} (hcalls : ∀ call ∈ calls, call.IsCommand) :
    Guarded (BmsStep cfg) (OffGuarded cfg) s calls ↔ Guarded (BmsStep cfg) OffTaken s calls := by
  apply guarded_iff FlagCovers
  · intro s call hs hcall
    exact ⟨offTaken_of_offGuarded hcall, fun hoff => (command_guarded hcall hs hoff).1⟩
  · rintro s call t hs hcall hok rfl
    exact (command_guarded hcall hs (offTaken_of_offGuarded hcall hok)).2
  · exact hcalls
  · exact hs

/-- The chip converts; the write that turns conversion off is acknowledged, and the command's own
write is lost. The call after it is made with the flag at 0. -/
theorem off_guarded_own_write_lost : ∃ s : Bms BmsChip,
    s = setBMSConversionState bmsBus settings "CONVERSION_ON"
      (bootBms (bootChip fun n => n != 2)) ∧
    s.bmsConversionActive = 1 ∧ s.wire1.reg 0x02 = settings.conversionOnValue ∧
    Guarded (BmsStep settings) (OffGuarded settings) s
      [.config "DIAG_UV" "default", .realTime "BAL_ENABLE"] := by
  refine ⟨_, rfl, rfl, rfl, ?_⟩
  refine (off_guarded_iff settings (Or.inl rfl) (by simp [BmsCall.IsCommand])).mpr ⟨?_, ?_⟩
  · intro _ _
    rfl
  · rintro t rfl
    refine ⟨fun _ h1 => ?_, fun _ _ => trivial⟩
    exact absurd h1 (by decide)

/-- The write that turns conversion off is lost, and the flag goes to 0 all the same. -/
theorem lost_off_write : ¬ Guarded (BmsStep settings) (OffGuarded settings)
    (setBMSConversionState bmsBus settings "CONVERSION_ON"
      (bootBms (bootChip (Stream'.cons true (Stream'.cons false acked)))))
    [.config "DIAG_UV" "default"] := by
  rintro ⟨h, -⟩
  have haccepted : ¬ (BmsCall.config "DIAG_UV" "default").Rejected := by
    rintro (hname | ⟨hvalue, -⟩)
    · exact absurd hname (by simp [configRegister])
    · exact hvalue rfl
  have hactive := (h.failed haccepted rfl rfl).1
  exact absurd hactive (by decide)

/-! ### Monitoring -/

theorem reg_zero_of_inactive {cfg : Settings} {s : Bms BmsChip} (h : InSync cfg s)
    (h0 : s.bmsConversionActive = 0) : s.wire1.reg 0x02 = 0 := by
  rcases h.active with ⟨-, hreg⟩ | ⟨h1, -⟩
  · exact hreg
  · omega

/-- Only `CONVERSION_ON` makes conversion active. -/
theorem exec_inactive {cfg : Settings} {s : Bms BmsChip} (h0 : s.bmsConversionActive = 0)
    {call : BmsCall} (hon : call ≠ .conversionState "CONVERSION_ON") :
    (call.exec bmsBus cfg s).bmsConversionActive = 0 := by
  by_cases hcall : call.IsCommand
  · rcases command_exec cfg hcall s with
      ⟨-, message, hexec⟩ | ⟨-, s', r, d, -, -, hactive, hexec⟩
    · rw [hexec]
      exact h0
    · have h0' : s'.bmsConversionActive = 0 := hactive.trans h0
      rw [hexec, Bms.sendWord, if_neg (by omega), write_active, h0']
  · simp only [BmsCall.IsCommand, not_forall, not_not] at hcall
    obtain ⟨state, rfl⟩ := hcall
    by_cases hoff : state = "CONVERSION_OFF"
    · subst hoff
      rfl
    · have hother : state ≠ "CONVERSION_ON" := fun h => hon (by rw [h])
      rw [BmsCall.exec, setBMSConversionState, if_neg hoff, if_neg hother]
      exact h0

theorem runCalls_inactive {cfg : Settings} {s : Bms BmsChip} (h : InSync cfg s)
    (h0 : s.bmsConversionActive = 0) {calls : List BmsCall}
    (hon : ∀ call ∈ calls, call ≠ .conversionState "CONVERSION_ON") :
    (runCalls cfg calls s).bmsConversionActive = 0 ∧
      (runCalls cfg calls s).wire1.reg 0x02 = 0 := by
  have hactive : (runCalls cfg calls s).bmsConversionActive = 0 := by
    clear h
    induction calls generalizing s with
    | nil => exact h0
    | cons call calls ih =>
      apply ih
      · exact exec_inactive h0 (hon call List.mem_cons_self)
      · intro c hc
        exact hon c (List.mem_cons_of_mem call hc)
  exact ⟨hactive, reg_zero_of_inactive (h.run calls).1 hactive⟩

/-- In every state that the setup commands reach, every write acknowledged: a command that is
rejected or comes while conversion is off leaves the conversion state alone, and any other leaves
conversion off until `CONVERSION_ON` is sent. -/
theorem conversion_after_command (cfg : Settings) {s : Bms BmsChip} (hs : InSync cfg s)
    (history : List BmsCall) {call : BmsCall} (hcall : call.IsCommand) {t : Bms BmsChip}
    (ht : t = runCalls cfg history s) :
    (call.Rejected ∨ t.bmsConversionActive = 0 →
      (call.exec bmsBus cfg t).wire1.reg 0x02 = t.wire1.reg 0x02 ∧
        (call.exec bmsBus cfg t).bmsConversionActive = t.bmsConversionActive) ∧
    (¬ call.Rejected → t.bmsConversionActive = 1 → ∀ calls : List BmsCall,
      (∀ c ∈ calls, c ≠ .conversionState "CONVERSION_ON") →
        (runCalls cfg calls (call.exec bmsBus cfg t)).bmsConversionActive = 0 ∧
          (runCalls cfg calls (call.exec bmsBus cfg t)).wire1.reg 0x02 = 0) := by
  subst ht
  have hsync := (hs.run history).1
  have hnext := (hsync.exec call).1
  constructor
  · rintro (hc | h0)
    · obtain ⟨message, hexec⟩ := exec_rejected cfg hc (runCalls cfg history s)
      rw [hexec]
      exact ⟨rfl, rfl⟩
    · have hnext0 : (call.exec bmsBus cfg (runCalls cfg history s)).bmsConversionActive = 0 :=
        exec_inactive h0 (hcall "CONVERSION_ON")
      rw [reg_zero_of_inactive hnext hnext0, reg_zero_of_inactive hsync h0, hnext0, h0]
      exact ⟨rfl, rfl⟩
  · intro hc h1 calls hon
    have hnext0 : (call.exec bmsBus cfg (runCalls cfg history s)).bmsConversionActive = 0 := by
      rcases command_exec cfg hcall (runCalls cfg history s) with
        ⟨hc', -⟩ | ⟨-, s', r, d, -, -, hactive, hexec⟩
      · exact absurd hc' hc
      · rw [hexec]
        apply sendWord_active
        exact hactive.trans h1
    exact runCalls_inactive hnext hnext0 hon

theorem conversion_after_command_identity :
    (runCalls settings [.realTime "BAL_ENABLE"]
      ((BmsCall.identity "MANUFACTURING_DATE" 0x2025).exec bmsBus settings
        (runCalls settings [.conversionState "CONVERSION_ON"]
          (bootBms (bootChip acked))))).wire1.reg 0x02 = 0 := by
  have haccepted : ¬ (BmsCall.identity "MANUFACTURING_DATE" 0x2025).Rejected := by
    simp [BmsCall.Rejected, identityRegister]
  have hafter := conversion_after_command settings (s := bootBms (bootChip acked))
    ⟨rfl, Or.inl ⟨rfl, rfl⟩⟩ [.conversionState "CONVERSION_ON"]
    (fun _ => by simp : (BmsCall.identity "MANUFACTURING_DATE" 0x2025).IsCommand) rfl
  exact (hafter.2 haccepted rfl [.realTime "BAL_ENABLE"] (by simp)).2

/-- An identity word turns the running conversion off, and nothing turns it on again. -/
theorem identity_stops_conversion :
    ¬ (((BmsCall.identity "MANUFACTURING_DATE" 0x2025).exec bmsBus settings
          (runCalls settings [.conversionState "CONVERSION_ON"]
            (bootBms (bootChip acked)))).wire1.reg 0x02 =
        (runCalls settings [.conversionState "CONVERSION_ON"]
          (bootBms (bootChip acked))).wire1.reg 0x02 ∧
      ((BmsCall.identity "MANUFACTURING_DATE" 0x2025).exec bmsBus settings
          (runCalls settings [.conversionState "CONVERSION_ON"]
            (bootBms (bootChip acked)))).bmsConversionActive =
        (runCalls settings [.conversionState "CONVERSION_ON"]
          (bootBms (bootChip acked))).bmsConversionActive) := by
  rintro ⟨-, hactive⟩
  exact absurd hactive (by decide)

end QuadBot
