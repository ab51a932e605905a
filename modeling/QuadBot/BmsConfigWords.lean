import QuadBot.BmsConversion

/-! The values of `sendBMSConfigCommand`: the strings that it accepts, and the word that it makes of
a binary string. -/

namespace QuadBot

open Libc

/-- The command writes the word to the register, once conversion is off. -/
def Sends (cfg : Settings) (command valueStr : String) (s : Bms BmsChip) (registerAddress : UInt8)
    (data : UInt16) : Prop :=
  ∃ conversion, (sendBMSConfigCommand bmsBus cfg command valueStr s).wire1.log =
    s.wire1.log ++ (offWrite s ++ [⟨0x49, registerAddress, data, conversion⟩])

def IsBinary (digits : List Char) : Prop := ∀ c ∈ digits, c = '0' ∨ c = '1'

instance : DecidablePred IsBinary := List.decidableBAll fun c => c = '0' ∨ c = '1'

/-- What the error message asks for. -/
def InGrammar (valueStr : String) : Prop :=
  valueStr = "default" ∨
    ∃ digits, digits ≠ [] ∧ IsBinary digits ∧ valueStr.toList = "0b".toList ++ digits

/-- The word that is made of the characters after `0b`. -/
def binaryWord (r : ConfigRegister) (digits : List Char) : UInt16 :=
  let data := UInt16.ofInt (strtol 2 digits)
  if data > r.maxData then r.maxData else data

/-! ### What a command sends -/

section

variable {cfg : Settings} {command valueStr : String} {s : Bms BmsChip} {r : ConfigRegister}

theorem Sends.data_eq {registerAddress registerAddress' : UInt8} {data data' : UInt16}
    (h : Sends cfg command valueStr s registerAddress data)
    (h' : Sends cfg command valueStr s registerAddress' data') : data = data' := by
  obtain ⟨conversion, hlog⟩ := h
  obtain ⟨conversion', hlog'⟩ := h'
  rw [hlog'] at hlog
  have hwrite := List.append_cancel_left (List.append_cancel_left hlog)
  simp only [List.cons.injEq, ChipWrite.mk.injEq] at hwrite
  exact hwrite.1.2.2.1.symm

theorem Sends.log_ne {registerAddress : UInt8} {data : UInt16}
    (h : Sends cfg command valueStr s registerAddress data) :
    (sendBMSConfigCommand bmsBus cfg command valueStr s).wire1.log ≠ s.wire1.log := by
  obtain ⟨conversion, hlog⟩ := h
  rw [hlog]
  intro hsame
  have hlength := congrArg List.length hsame
  simp only [List.length_append, List.length_singleton] at hlength
  omega

theorem sends_default (hr : configRegister command = some r) :
    Sends cfg command "default" s r.registerAddress r.defaultData := by
  unfold Sends sendBMSConfigCommand
  rw [hr]
  exact sendWord_log cfg s r.registerAddress r.defaultData

theorem sends_binary (hr : configRegister command = some r) {digits : List Char}
    (hvalue : valueStr.toList = "0b".toList ++ digits) :
    Sends cfg command valueStr s r.registerAddress (binaryWord r digits) := by
  have hdefault : valueStr ≠ "default" := by
    rintro rfl
    cases hvalue
  have hbinary : "0b".toList <+: valueStr.toList := ⟨digits, hvalue.symm⟩
  have hdrop : valueStr.toList.drop 2 = digits := by
    rw [hvalue]
    rfl
  unfold Sends sendBMSConfigCommand binaryWord
  rw [hr]
  dsimp only
  rw [if_neg hdefault, if_pos hbinary, hdrop]
  split
  · exact sendWord_log cfg (s.fail _) r.registerAddress r.maxData
  · exact sendWord_log cfg s r.registerAddress _

/-- Any other string is refused. -/
theorem config_refused (hr : configRegister command = some r) (hdefault : valueStr ≠ "default")
    (hbinary : ¬ "0b".toList <+: valueStr.toList) :
    (sendBMSConfigCommand bmsBus cfg command valueStr s).wire1.log = s.wire1.log ∧
      (sendBMSConfigCommand bmsBus cfg command valueStr s).bmsConversionActive =
        s.bmsConversionActive := by
  unfold sendBMSConfigCommand
  rw [hr]
  dsimp only
  rw [if_neg hdefault, if_neg hbinary]
  exact ⟨rfl, rfl⟩

end

/-! ### The words -/

theorem strtol_binary {digits : List Char} (h : IsBinary digits) :
    strtol 2 digits = min longMax (digitsValue 2 digits) := by
  apply strtol_of_digits
  intro c hc
  rcases h c hc with rfl | rfl <;> rfl

theorem binaryWord_toNat (r : ConfigRegister) {digits : List Char} (h : IsBinary digits) :
    (binaryWord r digits).toNat =
      min (min (digitsValue 2 digits) (2 ^ 31 - 1) % 2 ^ 16) r.maxData.toNat := by
  have hword := ofInt_toNat (strtol 2 digits)
  rw [strtol_binary h, longMax] at hword
  unfold binaryWord
  dsimp only
  rw [strtol_binary h, longMax]
  split
  · rename_i hgt
    rw [gt_iff_lt, UInt16.lt_iff_toNat_lt] at hgt
    omega
  · rename_i hle
    rw [gt_iff_lt, UInt16.lt_iff_toNat_lt] at hle
    omega

theorem binaryWord_le (r : ConfigRegister) (digits : List Char) :
    binaryWord r digits ≤ r.maxData := by
  unfold binaryWord
  dsimp only
  split
  · exact UInt16.le_refl _
  · rename_i hle
    exact UInt16.not_lt.mp hle

/-- Every maximum is a mask of low bits, and every default is below it. -/
theorem configRegister_mask {command : String} {r : ConfigRegister}
    (hr : configRegister command = some r) :
    r.defaultData ≤ r.maxData ∧ ∃ k, r.maxData.toNat = 2 ^ k - 1 := by
  unfold configRegister at hr
  repeat' split at hr
  all_goals cases hr
  · exact ⟨by decide, 14, rfl⟩
  · exact ⟨by decide, 15, rfl⟩
  · exact ⟨by decide, 7, rfl⟩
  · exact ⟨by decide, 12, rfl⟩
  · exact ⟨by decide, 12, rfl⟩
  · exact ⟨by decide, 16, rfl⟩
  · exact ⟨by decide, 16, rfl⟩
  · exact ⟨by decide, 16, rfl⟩

theorem masked_of_le {command : String} {r : ConfigRegister}
    (hr : configRegister command = some r) {data : UInt16} (hle : data ≤ r.maxData) :
    data &&& r.maxData = data := by
  obtain ⟨-, k, hk⟩ := configRegister_mask hr
  have hpos := Nat.two_pow_pos k
  rw [UInt16.le_iff_toNat_le] at hle
  rw [← UInt16.toNat_inj, UInt16.toNat_and, hk, Nat.and_two_pow_sub_one_eq_mod]
  exact Nat.mod_eq_of_lt (by omega)

/-- Whatever a command sends is in the register's mask. -/
theorem Sends.masked {cfg : Settings} {command valueStr : String} {s : Bms BmsChip}
    {r : ConfigRegister} (hr : configRegister command = some r) {data : UInt16}
    (h : Sends cfg command valueStr s r.registerAddress data) : data &&& r.maxData = data := by
  apply masked_of_le hr
  by_cases hdefault : valueStr = "default"
  · subst hdefault
    rw [h.data_eq (sends_default hr)]
    exact (configRegister_mask hr).1
  · by_cases hbinary : "0b".toList <+: valueStr.toList
    · obtain ⟨digits, hvalue⟩ := hbinary
      rw [h.data_eq (sends_binary hr hvalue.symm)]
      exact binaryWord_le r digits
    · exact absurd (config_refused hr hdefault hbinary).1 h.log_ne

/-- A binary string is sent as its number, capped at the register's maximum, exactly where the
narrowing to 16 bits comes to nothing: the number fits, or what is left of it is capped too. -/
theorem config_word_iff (cfg : Settings) (command : String) (r : ConfigRegister)
    (hr : configRegister command = some r) (digits : List Char) (hdigits : IsBinary digits)
    (valueStr : String) (hvalue : valueStr.toList = "0b".toList ++ digits) (s : Bms BmsChip) :
    (Sends cfg command valueStr s r.registerAddress
        (.ofNat (min (digitsValue 2 digits) r.maxData.toNat)) ↔
      digitsValue 2 digits < 2 ^ 16 ∨
        r.maxData.toNat ≤ min (digitsValue 2 digits) (2 ^ 31 - 1) % 2 ^ 16) ∧
    Sends cfg command "default" s r.registerAddress r.defaultData ∧
    ∀ valueStr data, Sends cfg command valueStr s r.registerAddress data →
      data &&& r.maxData = data := by
  refine ⟨?_, sends_default hr, fun _ _ h => h.masked hr⟩
  have hsends : Sends cfg command valueStr s r.registerAddress (binaryWord r digits) :=
    sends_binary hr hvalue
  have hword := binaryWord_toNat r hdigits
  have hmax := r.maxData.toNat_lt
  have hcap : (UInt16.ofNat (min (digitsValue 2 digits) r.maxData.toNat)).toNat =
      min (digitsValue 2 digits) r.maxData.toNat := by
    rw [UInt16.toNat_ofNat']
    omega
  constructor
  · intro h
    have hdata := congrArg UInt16.toNat (h.data_eq hsends)
    omega
  · intro h
    have hdata : UInt16.ofNat (min (digitsValue 2 digits) r.maxData.toNat) =
        binaryWord r digits := by
      apply UInt16.toNat_inj.mp
      omega
    rw [hdata]
    exact hsends

theorem config_word_iff_capped :
    Sends settings "DIAG_UV" "0b11111111111111111" (bootBms (bootChip acked)) 0x2B
      (.ofNat (min (digitsValue 2 "11111111111111111".toList) 0xFFFF)) :=
  (config_word_iff settings "DIAG_UV" ⟨0x2B, 0x0000, 0xFFFF⟩ rfl "11111111111111111".toList
    (by decide) _ rfl (bootBms (bootChip acked))).1.mpr (Or.inr (by decide))

/-- The number 2^16 is sent as 0, not as the maximum. -/
theorem config_word_wraps :
    ¬ Sends settings "CFG2_ENABLES" "0b10000000000000000" (bootBms (bootChip acked)) 0x04
      (.ofNat (min (digitsValue 2 "10000000000000000".toList) 0x3FFF)) := by
  intro h
  have hword : UInt16.ofNat (min (digitsValue 2 "10000000000000000".toList) 0x3FFF) =
      binaryWord ⟨0x04, 0x19FF, 0x3FFF⟩ "10000000000000000".toList :=
    h.data_eq (sends_binary (r := ⟨0x04, 0x19FF, 0x3FFF⟩) rfl rfl)
  exact absurd hword (by decide)

/-! ### The grammar -/

/-- The command accepts the strings that its error message asks for, and refuses every other string
without a write, exactly where what follows a `0b` is one or more binary digits. -/
theorem config_accepts_iff (cfg : Settings) (command : String) (r : ConfigRegister)
    (hr : configRegister command = some r) (valueStr : String) (s : Bms BmsChip) :
    ((InGrammar valueStr → ∃ data, Sends cfg command valueStr s r.registerAddress data) ∧
      (¬ InGrammar valueStr →
        (sendBMSConfigCommand bmsBus cfg command valueStr s).wire1.log = s.wire1.log ∧
        (sendBMSConfigCommand bmsBus cfg command valueStr s).bmsConversionActive =
          s.bmsConversionActive)) ↔
    ∀ digits, valueStr.toList = "0b".toList ++ digits → digits ≠ [] ∧ IsBinary digits := by
  constructor
  · rintro ⟨-, hrefused⟩ digits hvalue
    have hsends : Sends cfg command valueStr s r.registerAddress (binaryWord r digits) :=
      sends_binary hr hvalue
    have hgrammar : InGrammar valueStr := by
      by_contra hnot
      exact hsends.log_ne (hrefused hnot).1
    rcases hgrammar with rfl | ⟨digits', hne, hbinary, hvalue'⟩
    · cases hvalue
    · rw [hvalue] at hvalue'
      obtain rfl := List.append_cancel_left hvalue'
      exact ⟨hne, hbinary⟩
  · intro htail
    constructor
    · rintro (rfl | ⟨digits, -, -, hvalue⟩)
      · exact ⟨_, sends_default hr⟩
      · exact ⟨_, sends_binary hr hvalue⟩
    · intro hnot
      apply config_refused hr
      · rintro rfl
        exact hnot (Or.inl rfl)
      · rintro ⟨digits, hvalue⟩
        obtain ⟨hne, hbinary⟩ := htail digits hvalue.symm
        exact hnot (Or.inr ⟨digits, hne, hbinary, hvalue.symm⟩)

theorem config_accepts_iff_digits :
    ∃ data, Sends settings "CURR_MSK" "0b101" (bootBms (bootChip acked)) 0x16 data := by
  have htail : ∀ digits, "0b101".toList = "0b".toList ++ digits →
      digits ≠ [] ∧ IsBinary digits := by
    intro digits hvalue
    have hsplit : "0b".toList ++ ['1', '0', '1'] = "0b".toList ++ digits := hvalue
    obtain rfl := List.append_cancel_left hsplit
    decide
  exact ((config_accepts_iff settings "CURR_MSK" ⟨0x16, 0x0FFF, 0x0FFF⟩ rfl "0b101"
    (bootBms (bootChip acked))).mpr htail).1 (Or.inr ⟨['1', '0', '1'], by decide⟩)

/-- No digits at all are accepted, as the number 0. -/
theorem config_accepts_no_digits : ¬ InGrammar "0b" ∧
    (sendBMSConfigCommand bmsBus settings "CFG2_ENABLES" "0b"
        (bootBms (bootChip acked))).wire1.log ≠
      (bootBms (bootChip acked)).wire1.log := by
  constructor
  · rintro (hdefault | ⟨digits, hne, -, hvalue⟩)
    · exact absurd hdefault (by decide)
    · have hsplit : "0b".toList ++ [] = "0b".toList ++ digits := hvalue
      exact hne (List.append_cancel_left hsplit).symm
  · have hsends : Sends settings "CFG2_ENABLES" "0b" (bootBms (bootChip acked)) 0x04
        (binaryWord ⟨0x04, 0x19FF, 0x3FFF⟩ []) := sends_binary (r := ⟨0x04, 0x19FF, 0x3FFF⟩) rfl rfl
    exact hsends.log_ne

end QuadBot
