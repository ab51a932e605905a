import QuadBot.BmsNumerical

/-! The layout of the words of the numerical commands. A word holds the code of the first argument
in its low bits and, for most commands, a code or a count of the second argument above it. -/

namespace QuadBot

open Libc

/-- A field of a word: the code of an argument, within a range that its bits can hold. -/
structure Field where
  width : Nat
  mask : UInt16
  minCode : Int
  maxCode : Int
  code : Option String → Int
  mask_toNat : mask.toNat = 2 ^ width - 1
  minCode_nonneg : 0 ≤ minCode
  maxCode_lt : maxCode < 2 ^ width
  minCode_le : ∀ arg, minCode ≤ code arg
  le_maxCode : ∀ arg, code arg ≤ maxCode

/-! ### The codes -/

theorem roundCode_nonneg {maxCode : Int} (h : 0 ≤ maxCode) (x : ℚ) : 0 ≤ roundCode maxCode x := by
  unfold roundCode
  dsimp only
  split <;> split <;> omega

theorem roundCode_le {maxCode : Int} (h : 0 ≤ maxCode) (x : ℚ) :
    roundCode maxCode x ≤ maxCode := by
  unfold roundCode
  dsimp only
  split <;> split <;> omega

theorem parseIntArg_mem {minVal maxVal : Int} (h : minVal ≤ maxVal) (arg : Option String) :
    parseIntArg arg minVal maxVal = INT_MIN ∨
      minVal ≤ parseIntArg arg minVal maxVal ∧ parseIntArg arg minVal maxVal ≤ maxVal := by
  unfold parseIntArg
  cases arg with
  | none => exact Or.inr ⟨le_rfl, h⟩
  | some arg =>
    dsimp only
    split
    · exact Or.inr ⟨h, le_rfl⟩
    · split
      · exact Or.inr ⟨le_rfl, h⟩
      · split
        · exact Or.inl rfl
        · right
          split
          · omega
          · split <;> omega

/-- An integer argument is in the range of its field, whatever the string. -/
theorem intField_mem {minVal maxVal defaultVal : Int} (hmin : minVal ≤ defaultVal)
    (hmax : defaultVal ≤ maxVal) (arg : Option String) :
    minVal ≤ intField minVal maxVal defaultVal arg ∧
      intField minVal maxVal defaultVal arg ≤ maxVal := by
  unfold intField
  rcases parseIntArg_mem (hmin.trans hmax) arg with h | h
  · rw [h]
    exact ⟨hmin, hmax⟩
  · dsimp only
    split
    · exact ⟨hmin, hmax⟩
    · exact h

namespace Field

/-- The field of a command that ignores its second argument. -/
def absent : Field where
  width := 0
  mask := 0
  minCode := 0
  maxCode := 0
  code _ := 0
  mask_toNat := rfl
  minCode_nonneg := le_rfl
  maxCode_lt := by decide
  minCode_le _ := le_rfl
  le_maxCode _ := le_rfl

def gain : Field where
  width := 16
  mask := 0xFFFF
  minCode := 0x0000
  maxCode := 0xFFFF
  code := intField 0x0000 0xFFFF 0x8000
  mask_toNat := rfl
  minCode_nonneg := le_rfl
  maxCode_lt := by decide
  minCode_le arg := (intField_mem (by decide) (by decide) arg).1
  le_maxCode arg := (intField_mem (by decide) (by decide) arg).2

/-- A repetition count. -/
def count : Field where
  width := 4
  mask := 0xF
  minCode := 1
  maxCode := 15
  code := countField
  mask_toNat := rfl
  minCode_nonneg := by decide
  maxCode_lt := by decide
  minCode_le arg := (intField_mem (by decide) (by decide) arg).1
  le_maxCode arg := (intField_mem (by decide) (by decide) arg).2

/-- A field whose code `roundCode` limits to what its mask lets through. -/
def rounded (width : Nat) (mask : UInt16) (code : Option String → Int)
    (hmask : mask.toNat = 2 ^ width - 1)
    (hcode : ∀ arg, ∃ x, code arg = roundCode mask.toNat x) : Field where
  width := width
  mask := mask
  minCode := 0
  maxCode := mask.toNat
  code := code
  mask_toNat := hmask
  minCode_nonneg := le_rfl
  maxCode_lt := by
    have hpos := Nat.two_pow_pos width
    have hlt : mask.toNat < 2 ^ width := by omega
    exact_mod_cast hlt
  minCode_le arg := by
    obtain ⟨x, hx⟩ := hcode arg
    rw [hx]
    exact roundCode_nonneg (by omega) x
  le_maxCode arg := by
    obtain ⟨x, hx⟩ := hcode arg
    rw [hx]
    exact roundCode_le (by omega) x

def cell (defaultVal : ℚ) : Field := rounded 8 0xFF (cellCode defaultVal) rfl fun _ => ⟨_, rfl⟩

def vb (defaultVal : ℚ) : Field := rounded 8 0xFF (vbCode defaultVal) rfl fun _ => ⟨_, rfl⟩

def ntc (minVal defaultVal : ℚ) : Field :=
  rounded 12 0xFFF (ntcCode minVal defaultVal) rfl fun _ => ⟨_, rfl⟩

def overcurrent (cfg : Settings) : Field :=
  rounded 8 0xFF (overcurrentCode cfg) rfl fun _ => ⟨_, rfl⟩

def shortCircuit (cfg : Settings) : Field :=
  rounded 4 0xF (shortCircuitCode cfg) rfl fun _ => ⟨_, rfl⟩

@[simp] theorem absent_width : absent.width = 0 := rfl

@[simp] theorem gain_width : gain.width = 16 := rfl

@[simp] theorem count_width : count.width = 4 := rfl

@[simp] theorem cell_width (defaultVal : ℚ) : (cell defaultVal).width = 8 := rfl

@[simp] theorem vb_width (defaultVal : ℚ) : (vb defaultVal).width = 8 := rfl

@[simp] theorem ntc_width (minVal defaultVal : ℚ) : (ntc minVal defaultVal).width = 12 := rfl

@[simp] theorem overcurrent_width (cfg : Settings) : (overcurrent cfg).width = 8 := rfl

@[simp] theorem shortCircuit_width (cfg : Settings) : (shortCircuit cfg).width = 4 := rfl

/-- The code of an argument as it goes into a word. -/
def bits (f : Field) (arg : Option String) : UInt16 := .ofInt (f.code arg) &&& f.mask

theorem code_nonneg (f : Field) (arg : Option String) : 0 ≤ f.code arg :=
  f.minCode_nonneg.trans (f.minCode_le arg)

theorem code_lt (f : Field) (arg : Option String) : f.code arg < 2 ^ f.width :=
  (f.le_maxCode arg).trans_lt f.maxCode_lt

theorem bits_toNat (f : Field) (arg : Option String) : ((f.bits arg).toNat : Int) = f.code arg := by
  have hnonneg := f.code_nonneg arg
  have hlt := f.code_lt arg
  have hmask := f.mask_toNat
  have hsize := f.mask.toNat_lt
  have hpos : 0 < 2 ^ f.width := Nat.two_pow_pos f.width
  have hle : 2 ^ f.width ≤ 2 ^ 16 := by omega
  have hcast : ((2 ^ f.width : Nat) : Int) = 2 ^ f.width := by
    push_cast
    rfl
  have hword := ofInt_toNat (f.code arg)
  rw [Int.emod_eq_of_lt hnonneg (by omega)] at hword
  have hsmall : (UInt16.ofInt (f.code arg)).toNat < 2 ^ f.width := by omega
  rw [bits, UInt16.toNat_and, hmask, Nat.and_two_pow_sub_one_eq_mod, Nat.mod_eq_of_lt hsmall, hword]

theorem bits_lt (f : Field) (arg : Option String) : (f.bits arg).toNat < 2 ^ f.width := by
  have hlt := f.code_lt arg
  rw [← f.bits_toNat arg] at hlt
  exact_mod_cast hlt

end Field

theorem pack_toNat {width high low : UInt16} {w k : Nat} (hw : width.toNat = w) (hsum : w + k ≤ 16)
    (hw16 : w < 16) (hlow : low.toNat < 2 ^ w) (hhigh : high.toNat < 2 ^ k) :
    (pack width high low).toNat = 2 ^ w * high.toNat + low.toNat := by
  have hmul : high.toNat * 2 ^ w < 2 ^ 16 := by
    calc high.toNat * 2 ^ w < 2 ^ k * 2 ^ w := Nat.mul_lt_mul_of_pos_right hhigh (Nat.two_pow_pos w)
      _ = 2 ^ (w + k) := by rw [Nat.mul_comm, pow_add]
      _ ≤ 2 ^ 16 := Nat.pow_le_pow_right (by decide) hsum
  unfold pack
  rw [UInt16.toNat_or, UInt16.toNat_shiftLeft, hw, Nat.mod_eq_of_lt hw16, Nat.shiftLeft_eq,
    Nat.mod_eq_of_lt hmul, ← Nat.shiftLeft_eq, ← Nat.shiftLeft_add_eq_or_of_lt hlow,
    Nat.shiftLeft_eq, Nat.mul_comm]

/-! ### The words -/

/-- The word holds the codes of the two arguments side by side, and nothing else. -/
structure HoldsFields (low high : Field) (arg1 arg2 : Option String) (data : UInt16) : Prop where
  fits : low.width + high.width ≤ 16
  value : (data.toNat : Int) = 2 ^ low.width * high.code arg2 + low.code arg1

namespace HoldsFields

variable {low high : Field} {arg1 arg2 : Option String}

theorem of_pack {width : UInt16} (hwidth : width.toNat = low.width)
    (hfits : low.width + high.width ≤ 16) (hlt : low.width < 16) :
    HoldsFields low high arg1 arg2 (pack width (high.bits arg2) (low.bits arg1)) := by
  constructor
  · exact hfits
  · rw [pack_toNat hwidth hfits hlt (low.bits_lt arg1) (high.bits_lt arg2)]
    push_cast
    rw [low.bits_toNat, high.bits_toNat]

theorem of_bits (hfits : low.width ≤ 16) :
    HoldsFields low .absent arg1 arg2 (low.bits arg1) := by
  constructor
  · exact hfits
  · rw [low.bits_toNat]
    show low.code arg1 = 2 ^ low.width * 0 + low.code arg1
    omega

theorem low_eq {data : UInt16} (h : HoldsFields low high arg1 arg2 data) :
    ((data.toNat % 2 ^ low.width : Nat) : Int) = low.code arg1 := by
  push_cast
  rw [h.value, Int.mul_add_emod_self_left]
  exact Int.emod_eq_of_lt (low.code_nonneg arg1) (low.code_lt arg1)

theorem high_eq {data : UInt16} (h : HoldsFields low high arg1 arg2 data) :
    ((data.toNat / 2 ^ low.width : Nat) : Int) = high.code arg2 := by
  have hpos : (2 : Int) ^ low.width ≠ 0 := by positivity
  push_cast
  rw [h.value, Int.mul_add_ediv_left _ _ hpos,
    Int.ediv_eq_zero_of_lt (low.code_nonneg arg1) (low.code_lt arg1), Int.add_zero]

end HoldsFields

/-! ### The branches -/

/-- The fields of a command's word, the low one of its first argument and the high one of its
second. -/
def numericalFields (cfg : Settings) (command : String) : Option (Field × Field) :=
  if command = "CSA_GAIN_FACTOR" then some (.gain, .absent)
  else if command = "VCELL_OV_TH" then some (.cell 4.3, .count)
  else if command = "VCELL_UV_TH" then some (.cell 2.2, .count)
  else if command = "VCELL_SEVERE_DELTA_THRS" then some (.cell 0.2, .cell 0.2)
  else if command = "VCELL_BAL_UV_DELTA_TH" then some (.cell 0.2, .count)
  else if command = "VB_OV_TH" then some (.vb 23.0, .count)
  else if command = "VB_UV_TH" then some (.vb 10.93, .count)
  else if command = "VB_SUM_MAX_DIFF_TH" then some (.vb 2.0, .absent)
  else if command = "VNTC_OT_TH" then some (.ntc 0.2 2.5, .count)
  else if command = "VNTC_UT_TH" then some (.ntc 0.0 0.5, .count)
  else if command = "VNTC_SEVERE_OT_DELTA_TH" then some (.ntc 0.0 0.5, .absent)
  else if command = "OVC_THRESHOLDS" then some (.overcurrent cfg, .overcurrent cfg)
  else if command = "PERSISTENT_OVC_THRESHOLDS" then some (.overcurrent cfg, .absent)
  else if command = "SC_THRESHOLD" then some (.shortCircuit cfg, .shortCircuit cfg)
  else none

/-- The commands with a repetition count as their second argument. -/
def countCommands : List String :=
  ["VCELL_OV_TH", "VCELL_UV_TH", "VCELL_BAL_UV_DELTA_TH", "VB_OV_TH", "VB_UV_TH", "VNTC_OT_TH",
    "VNTC_UT_TH"]

/-- The commands that ignore their second argument. -/
def singleArgumentCommands : List String :=
  ["CSA_GAIN_FACTOR", "VB_SUM_MAX_DIFF_TH", "VNTC_SEVERE_OT_DELTA_TH", "PERSISTENT_OVC_THRESHOLDS"]

section

variable (cfg : Settings) (arg1 arg2 : Option String)

/-- The only branch without a mask, as its field fills the word. -/
theorem csaGainFactor_eq : csaGainFactor arg1 = Field.gain.bits arg1 := by
  have hnonneg := Field.gain.code_nonneg arg1
  have hlt : Field.gain.code arg1 < 2 ^ 16 := Field.gain.code_lt arg1
  have hbits := Field.gain.bits_toNat arg1
  have hword := ofInt_toNat (Field.gain.code arg1)
  rw [Int.emod_eq_of_lt hnonneg hlt] at hword
  apply UInt16.toNat_inj.mp
  show (UInt16.ofInt (Field.gain.code arg1)).toNat = (Field.gain.bits arg1).toNat
  omega

theorem cellThreshold_holds (defaultVal : ℚ) : HoldsFields (.cell defaultVal) .count arg1 arg2
    (cellThreshold arg1 arg2 defaultVal) :=
  .of_pack rfl (by simp) (by simp)

theorem vbThreshold_holds (defaultVal : ℚ) : HoldsFields (.vb defaultVal) .count arg1 arg2
    (vbThreshold arg1 arg2 defaultVal) :=
  .of_pack rfl (by simp) (by simp)

theorem ntcThreshold_holds (minVal defaultVal : ℚ) :
    HoldsFields (.ntc minVal defaultVal) .count arg1 arg2
      (ntcThreshold arg1 arg2 minVal defaultVal) :=
  .of_pack rfl (by simp) (by simp)

/-- Each branch builds the word of its register from the fields of its command. -/
theorem numericalWord_holds {command : String} (hmem : command ∈ numericalNames) :
    ∃ registerAddress low high, numericalFields cfg command = some (low, high) ∧
      ∀ arg1 arg2, ∃ data, numericalWord cfg arg1 arg2 command = some (registerAddress, data) ∧
        HoldsFields low high arg1 arg2 data := by
  simp only [numericalNames, List.mem_cons, List.not_mem_nil, or_false] at hmem
  rcases hmem with rfl | rfl | rfl | rfl | rfl | rfl | rfl | rfl | rfl | rfl | rfl | rfl | rfl | rfl
  · refine ⟨0x05, .gain, .absent, rfl, fun arg1 arg2 => ⟨csaGainFactor arg1, rfl, ?_⟩⟩
    rw [csaGainFactor_eq]
    exact .of_bits (by simp)
  · exact ⟨0x06, .cell 4.3, .count, rfl, fun arg1 arg2 => ⟨_, rfl, cellThreshold_holds _ _ _⟩⟩
  · exact ⟨0x07, .cell 2.2, .count, rfl, fun arg1 arg2 => ⟨_, rfl, cellThreshold_holds _ _ _⟩⟩
  · refine ⟨0x08, .cell 0.2, .cell 0.2, rfl, fun arg1 arg2 => ⟨_, rfl, ?_⟩⟩
    exact .of_pack rfl (by simp) (by simp)
  · exact ⟨0x09, .cell 0.2, .count, rfl, fun arg1 arg2 => ⟨_, rfl, cellThreshold_holds _ _ _⟩⟩
  · exact ⟨0x0A, .vb 23.0, .count, rfl, fun arg1 arg2 => ⟨_, rfl, vbThreshold_holds _ _ _⟩⟩
  · exact ⟨0x0B, .vb 10.93, .count, rfl, fun arg1 arg2 => ⟨_, rfl, vbThreshold_holds _ _ _⟩⟩
  · exact ⟨0x0C, .vb 2.0, .absent, rfl, fun arg1 arg2 => ⟨_, rfl, .of_bits (by simp)⟩⟩
  · exact ⟨0x0D, .ntc 0.2 2.5, .count, rfl, fun arg1 arg2 => ⟨_, rfl, ntcThreshold_holds _ _ _ _⟩⟩
  · exact ⟨0x0E, .ntc 0.0 0.5, .count, rfl, fun arg1 arg2 => ⟨_, rfl, ntcThreshold_holds _ _ _ _⟩⟩
  · exact ⟨0x0F, .ntc 0.0 0.5, .absent, rfl, fun arg1 arg2 => ⟨_, rfl, .of_bits (by simp)⟩⟩
  · refine ⟨0x10, .overcurrent cfg, .overcurrent cfg, rfl, fun arg1 arg2 => ⟨_, rfl, ?_⟩⟩
    exact .of_pack rfl (by simp) (by simp)
  · exact ⟨0x11, .overcurrent cfg, .absent, rfl, fun arg1 arg2 => ⟨_, rfl, .of_bits (by simp)⟩⟩
  · refine ⟨0x12, .shortCircuit cfg, .shortCircuit cfg, rfl, fun arg1 arg2 => ⟨_, rfl, ?_⟩⟩
    exact .of_pack rfl (by simp) (by simp)

end

theorem numericalFields_count {cfg : Settings} {command : String} {low high : Field}
    (hmem : command ∈ countCommands) (h : numericalFields cfg command = some (low, high)) :
    high = .count := by
  simp only [countCommands, List.mem_cons, List.not_mem_nil, or_false] at hmem
  rcases hmem with rfl | rfl | rfl | rfl | rfl | rfl | rfl <;> cases h <;> rfl

theorem numericalFields_single {cfg : Settings} {command : String} {low high : Field}
    (hmem : command ∈ singleArgumentCommands) (h : numericalFields cfg command = some (low, high)) :
    high = .absent := by
  simp only [singleArgumentCommands, List.mem_cons, List.not_mem_nil, or_false] at hmem
  rcases hmem with rfl | rfl | rfl | rfl <;> cases h <;> rfl

/-- A recognised numerical command has one register, and a word for it whatever its arguments; the
word decodes into the codes of the two arguments, whose fields depend on the command alone. -/
theorem numericalWord_decodes (cfg : Settings) (command : String)
    (hmem : command ∈ numericalNames) :
    ∃ registerAddress low high, numericalFields cfg command = some (low, high) ∧
      low.width + high.width ≤ 16 ∧ ∀ arg1 arg2, ∃ data,
        numericalWord cfg arg1 arg2 command = some (registerAddress, data) ∧
        data.toNat < 2 ^ (low.width + high.width) ∧
        ((data.toNat % 2 ^ low.width : Nat) : Int) = low.code arg1 ∧
        ((data.toNat / 2 ^ low.width : Nat) : Int) = high.code arg2 ∧
        (command ∈ countCommands →
          1 ≤ data.toNat / 2 ^ low.width ∧ data.toNat / 2 ^ low.width ≤ 15) ∧
        (command ∈ singleArgumentCommands →
          data.toNat / 2 ^ low.width = 0 ∧ (command = "CSA_GAIN_FACTOR" → low.width = 16)) := by
  obtain ⟨registerAddress, low, high, hfields, hwords⟩ := numericalWord_holds cfg hmem
  obtain ⟨_, -, hnone⟩ := hwords none none
  refine ⟨registerAddress, low, high, hfields, hnone.fits, ?_⟩
  intro arg1 arg2
  obtain ⟨data, hword, hholds⟩ := hwords arg1 arg2
  have hlow := hholds.low_eq
  have hhigh := hholds.high_eq
  refine ⟨data, hword, ?_, hlow, hhigh, ?_, ?_⟩
  · have hlt := high.code_lt arg2
    rw [← hhigh] at hlt
    have hdiv : data.toNat / 2 ^ low.width < 2 ^ high.width := by exact_mod_cast hlt
    rw [pow_add]
    exact (Nat.div_lt_iff_lt_mul (Nat.two_pow_pos low.width)).mp hdiv |>.trans_eq (Nat.mul_comm _ _)
  · intro hcount
    obtain rfl := numericalFields_count hcount hfields
    have hmin : 1 ≤ Field.count.code arg2 := Field.count.minCode_le arg2
    have hmax : Field.count.code arg2 ≤ 15 := Field.count.le_maxCode arg2
    omega
  · intro hsingle
    obtain rfl := numericalFields_single hsingle hfields
    constructor
    · have hzero : Field.absent.code arg2 = 0 := rfl
      omega
    · rintro rfl
      cases hfields
      rfl

theorem numericalWord_decodes_cell :
    numericalWord settings (some "4.3") (some "MAX") "VCELL_OV_TH" = some (0x06, 0x0FDC) ∧
    ∃ low high, numericalFields settings "VCELL_OV_TH" = some (low, high) ∧
      low.width + high.width ≤ 16 ∧ (0x0FDC : UInt16).toNat < 2 ^ (low.width + high.width) ∧
      (((0x0FDC : UInt16).toNat % 2 ^ low.width : Nat) : Int) = low.code (some "4.3") ∧
      (((0x0FDC : UInt16).toNat / 2 ^ low.width : Nat) : Int) = high.code (some "MAX") ∧
      ("VCELL_OV_TH" ∈ countCommands → 1 ≤ (0x0FDC : UInt16).toNat / 2 ^ low.width ∧
        (0x0FDC : UInt16).toNat / 2 ^ low.width ≤ 15) ∧
      ("VCELL_OV_TH" ∈ singleArgumentCommands → (0x0FDC : UInt16).toNat / 2 ^ low.width = 0 ∧
        ("VCELL_OV_TH" = "CSA_GAIN_FACTOR" → low.width = 16)) := by
  obtain ⟨registerAddress, low, high, hfields, hfits, hwords⟩ :=
    numericalWord_decodes settings "VCELL_OV_TH" (by decide)
  obtain ⟨data, hword, hdecodes⟩ := hwords (some "4.3") (some "MAX")
  have hsent : numericalWord settings (some "4.3") (some "MAX") "VCELL_OV_TH" =
      some (0x06, 0x0FDC) := by decide +kernel
  cases hsent.symm.trans hword
  exact ⟨hsent, low, high, hfields, hfits, hdecodes⟩

end QuadBot
