import QuadBot.BmsFields

/-! The arguments of the numerical commands: the range and the default that a branch declares for
each, the parser that it calls, and the code that it makes of the number. A sentinel of the parser
stands for the default, so that the number must never be one. -/

namespace QuadBot

open Libc

/-- A voltage or current field: the range and default of its argument, its highest code, the code
of a number in the range, and the voltage or current that a code stands for. -/
structure Analog where
  minVal : ℚ
  maxVal : ℚ
  defaultVal : ℚ
  maxCode : Int
  code : ℚ → Int
  decode : Int → ℚ

namespace Analog

def cell (defaultVal : ℚ) : Analog where
  minVal := 0
  maxVal := 5.0
  defaultVal
  maxCode := 0xFF
  code v := roundCode 0xFF (v / (16 * VCELL_RES))
  decode c := 16 * VCELL_RES * c

def vb (defaultVal : ℚ) : Analog where
  minVal := 0.0
  maxVal := 25.0
  defaultVal
  maxCode := 0xFF
  code v := roundCode 0xFF (v / (16 * VB_RES))
  decode c := 16 * VB_RES * c

def ntc (minVal defaultVal : ℚ) : Analog where
  minVal
  maxVal := 3.3
  defaultVal
  maxCode := 0xFFF
  code v := roundCode 0xFFF (v / VNTC_RES)
  decode c := VNTC_RES * c

def overcurrent (cfg : Settings) : Analog where
  minVal := 0.0
  maxVal := cfg.imax
  defaultVal := cfg.imax
  maxCode := 0xFF
  code v := roundCode 0xFF (v / cfg.imax * 255.0)
  decode c := cfg.imax / 255 * c

def shortCircuit (cfg : Settings) : Analog where
  minVal := 0.0
  maxVal := 1000.0
  defaultVal := 100.0
  maxCode := 15
  code := currentToCode cfg
  decode c := (0.04914 + 0.01404 * c) / cfg.senseResistor

/-- The number of an argument. -/
def value (a : Analog) (arg : Option String) : Flt := floatField a.minVal a.maxVal a.defaultVal arg

def clamp (a : Analog) (v : ℚ) : ℚ := max a.minVal (min v a.maxVal)

/-- A float limited to the range, which no limit brings a NaN into. -/
def clamped (a : Analog) : Flt → Option ℚ
  | .num v => some (a.clamp v)
  | .posInf => some a.maxVal
  | .negInf => some a.minVal
  | .nan => none

end Analog

/-- What a branch does with an argument. -/
inductive Argument
  | absent
  | int (minVal maxVal defaultVal : Int)
  | analog (a : Analog)

def Argument.code : Argument → Option String → Int
  | absent, _ => 0
  | int minVal maxVal defaultVal, arg => intField minVal maxVal defaultVal arg
  | analog a, arg => a.code (a.value arg).value

def numericalArguments (cfg : Settings) (command : String) : Option (Argument × Argument) :=
  if command = "CSA_GAIN_FACTOR" then some (.int 0x0000 0xFFFF 0x8000, .absent)
  else if command = "VCELL_OV_TH" then some (.analog (.cell 4.3), .int 1 15 15)
  else if command = "VCELL_UV_TH" then some (.analog (.cell 2.2), .int 1 15 15)
  else if command = "VCELL_SEVERE_DELTA_THRS" then
    some (.analog (.cell 0.2), .analog (.cell 0.2))
  else if command = "VCELL_BAL_UV_DELTA_TH" then some (.analog (.cell 0.2), .int 1 15 15)
  else if command = "VB_OV_TH" then some (.analog (.vb 23.0), .int 1 15 15)
  else if command = "VB_UV_TH" then some (.analog (.vb 10.93), .int 1 15 15)
  else if command = "VB_SUM_MAX_DIFF_TH" then some (.analog (.vb 2.0), .absent)
  else if command = "VNTC_OT_TH" then some (.analog (.ntc 0.2 2.5), .int 1 15 15)
  else if command = "VNTC_UT_TH" then some (.analog (.ntc 0.0 0.5), .int 1 15 15)
  else if command = "VNTC_SEVERE_OT_DELTA_TH" then some (.analog (.ntc 0.0 0.5), .absent)
  else if command = "OVC_THRESHOLDS" then
    some (.analog (.overcurrent cfg), .analog (.overcurrent cfg))
  else if command = "PERSISTENT_OVC_THRESHOLDS" then some (.analog (.overcurrent cfg), .absent)
  else if command = "SC_THRESHOLD" then
    some (.analog (.shortCircuit cfg), .analog (.shortCircuit cfg))
  else none

theorem numericalArguments_mem {cfg : Settings} {command : String} {first second : Argument}
    (h : numericalArguments cfg command = some (first, second)) : command ∈ numericalNames := by
  by_contra hnot
  simp only [numericalNames, List.mem_cons, List.not_mem_nil, or_false, not_or] at hnot
  simp only [numericalArguments, hnot, if_false, reduceCtorEq] at h

/-- The fields of a command are those of its arguments. -/
theorem numericalFields_arguments {cfg : Settings} {command : String} {first second : Argument}
    (h : numericalArguments cfg command = some (first, second)) :
    ∃ low high, numericalFields cfg command = some (low, high) ∧
      low.code = first.code ∧ high.code = second.code := by
  have hmem := numericalArguments_mem h
  simp only [numericalNames, List.mem_cons, List.not_mem_nil, or_false] at hmem
  rcases hmem with rfl | rfl | rfl | rfl | rfl | rfl | rfl | rfl | rfl | rfl | rfl | rfl | rfl | rfl
  all_goals
    cases h
    exact ⟨_, _, rfl, rfl, rfl⟩

/-- The word of a command holds the codes of its arguments side by side. -/
theorem numericalWord_arguments {cfg : Settings} {command : String} {first second : Argument}
    (h : numericalArguments cfg command = some (first, second)) :
    ∃ width registerAddress, ∀ arg1 arg2, ∃ data,
      numericalWord cfg arg1 arg2 command = some (registerAddress, data) ∧
      ((data.toNat % 2 ^ width : Nat) : Int) = first.code arg1 ∧
      ((data.toNat / 2 ^ width : Nat) : Int) = second.code arg2 := by
  obtain ⟨low, high, hfields, hlow, hhigh⟩ := numericalFields_arguments h
  obtain ⟨registerAddress, low', high', hfields', hwords⟩ :=
    numericalWord_holds cfg (numericalArguments_mem h)
  obtain ⟨rfl, rfl⟩ : low = low' ∧ high = high' := by simpa using hfields.symm.trans hfields'
  refine ⟨low.width, registerAddress, ?_⟩
  intro arg1 arg2
  obtain ⟨data, hword, hholds⟩ := hwords arg1 arg2
  rw [← hlow, ← hhigh]
  exact ⟨data, hword, hholds.low_eq, hholds.high_eq⟩

/-- The kinds of arguments that the branches declare. -/
inductive Argument.Declared (cfg : Settings) : Argument → Prop
  | absent : Declared cfg .absent
  | gain : Declared cfg (.int 0x0000 0xFFFF 0x8000)
  | count : Declared cfg (.int 1 15 15)
  | cell (defaultVal : ℚ) : Declared cfg (.analog (.cell defaultVal))
  | vb (defaultVal : ℚ) : Declared cfg (.analog (.vb defaultVal))
  | ntc {minVal : ℚ} (defaultVal : ℚ) (hlow : 0 ≤ minVal) (hhigh : minVal ≤ 3.3) :
      Declared cfg (.analog (.ntc minVal defaultVal))
  | overcurrent : Declared cfg (.analog (.overcurrent cfg))
  | shortCircuit : Declared cfg (.analog (.shortCircuit cfg))

theorem numericalArguments_declared {cfg : Settings} {command : String} {first second : Argument}
    (h : numericalArguments cfg command = some (first, second)) :
    first.Declared cfg ∧ second.Declared cfg := by
  have hmem := numericalArguments_mem h
  simp only [numericalNames, List.mem_cons, List.not_mem_nil, or_false] at hmem
  have hnonneg : (0 : ℚ) ≤ 0.0 := by norm_num
  have hzero : (0.0 : ℚ) ≤ 3.3 := by norm_num
  rcases hmem with rfl | rfl | rfl | rfl | rfl | rfl | rfl | rfl | rfl | rfl | rfl | rfl | rfl | rfl
  · cases h
    exact ⟨.gain, .absent⟩
  · cases h
    exact ⟨.cell 4.3, .count⟩
  · cases h
    exact ⟨.cell 2.2, .count⟩
  · cases h
    exact ⟨.cell 0.2, .cell 0.2⟩
  · cases h
    exact ⟨.cell 0.2, .count⟩
  · cases h
    exact ⟨.vb 23.0, .count⟩
  · cases h
    exact ⟨.vb 10.93, .count⟩
  · cases h
    exact ⟨.vb 2.0, .absent⟩
  · cases h
    exact ⟨.ntc 2.5 (by norm_num) (by norm_num), .count⟩
  · cases h
    exact ⟨.ntc 0.5 hnonneg hzero, .count⟩
  · cases h
    exact ⟨.ntc 0.5 hnonneg hzero, .absent⟩
  · cases h
    exact ⟨.overcurrent, .overcurrent⟩
  · cases h
    exact ⟨.overcurrent, .absent⟩
  · cases h
    exact ⟨.shortCircuit, .shortCircuit⟩

/-! ### Sentinels -/

/-- The words that every argument takes, in any case. -/
def IsWord (arg : String) : Prop :=
  equalNoCase arg "max" ∨ equalNoCase arg "min" ∨ equalNoCase arg "default"

namespace Argument

/-- The parser returns the sentinel that stands for the default. -/
def Sentinel : Argument → String → Prop
  | absent, _ => False
  | int minVal maxVal _, arg => parseIntArg (some arg) minVal maxVal = INT_MIN
  | analog a, arg => (parseFloatArg (some arg) a.minVal a.maxVal).isNan

/-- The number that is coded is in the range, and is what the library reads from the string, limited
to the range. -/
def Reads : Argument → String → Prop
  | absent, _ => True
  | int minVal maxVal defaultVal, arg =>
    (minVal ≤ intField minVal maxVal defaultVal (some arg) ∧
      intField minVal maxVal defaultVal (some arg) ≤ maxVal) ∧
    intField minVal maxVal defaultVal (some arg) = max minVal (min (strtol 10 arg.toList) maxVal)
  | analog a, arg =>
    ∃ v, a.value (some arg) = .num v ∧ (a.minVal ≤ v ∧ v ≤ a.maxVal) ∧
      a.clamped (atof arg.toList) = some v

/-- Only the word `default` stands for the default, and any string but the three words for the
number that it spells. -/
def Contract (x : Argument) (arg : String) : Prop :=
  (x.Sentinel arg → equalNoCase arg "default") ∧ (¬ IsWord arg → x.Reads arg)

end Argument

/-- The string is read as a NaN: `nan` in any case stands after blanks and an optional sign. -/
def SpellsNan (arg : String) : Prop :=
  startsNoCase "nan" (stripSign (arg.toList.dropWhile isSpace)).2

theorem atof_eq_nan_iff (arg : String) : atof arg.toList = .nan ↔ SpellsNan arg := by
  unfold SpellsNan atof
  generalize stripSign (arg.toList.dropWhile isSpace) = p
  obtain ⟨negative, cs⟩ := p
  dsimp only
  split
  · rename_i hinf
    apply iff_of_false
    · split <;> simp
    · intro hnan
      have hlength : "inf".length = "nan".length := by decide
      rw [startsNoCase, decide_eq_true_eq, hlength] at hinf
      rw [startsNoCase, decide_eq_true_eq, hinf] at hnan
      exact absurd hnan (by decide)
  · split
    · rename_i hnan
      exact iff_of_true rfl hnan
    · rename_i hnan
      exact iff_of_false (by simp) hnan

section

variable {arg : String}

theorem parseIntArg_of_not_word (h : ¬ IsWord arg) {minVal maxVal : Int}
    (hrange : minVal ≤ maxVal) :
    parseIntArg (some arg) minVal maxVal = max minVal (min (strtol 10 arg.toList) maxVal) := by
  simp only [IsWord, not_or] at h
  unfold parseIntArg
  dsimp only
  rw [if_neg h.1, if_neg h.2.1, if_neg h.2.2]
  split
  · omega
  · split <;> omega

theorem int_contract {minVal maxVal : Int} (hmin : INT_MIN < minVal) (hrange : minVal ≤ maxVal)
    (defaultVal : Int) (arg : String) : (Argument.int minVal maxVal defaultVal).Contract arg := by
  constructor
  · intro h
    simp only [Argument.Sentinel, parseIntArg] at h
    split at h
    · omega
    · split at h
      · omega
      · split at h
        · assumption
        · split at h
          · omega
          · split at h <;> omega
  · intro h
    have hparse := parseIntArg_of_not_word h hrange
    have hfield : intField minVal maxVal defaultVal (some arg) =
        max minVal (min (strtol 10 arg.toList) maxVal) := by
      unfold intField
      dsimp only
      rw [hparse, if_neg (by omega)]
    unfold Argument.Reads
    dsimp only
    rw [hfield]
    omega

theorem parseFloatArg_of_not_word (h : ¬ IsWord arg) {a : Analog} (hrange : a.minVal ≤ a.maxVal) :
    parseFloatArg (some arg) a.minVal a.maxVal =
      ((a.clamped (atof arg.toList)).map Flt.num).getD .nan := by
  simp only [IsWord, not_or] at h
  unfold parseFloatArg
  dsimp only
  rw [if_neg h.1, if_neg h.2.1, if_neg h.2.2]
  cases atof arg.toList with
  | posInf | negInf | nan => rfl
  | num v =>
    simp only [Flt.lt, Flt.gt, decide_eq_true_eq, Analog.clamped, Option.map_some,
      Option.getD_some, Analog.clamp]
    split
    · rename_i hlow
      rw [min_eq_left (hlow.le.trans hrange), max_eq_left hlow.le]
    · rename_i hlow
      rw [not_lt] at hlow
      split
      · rename_i hhigh
        rw [min_eq_right hhigh.le, max_eq_right hrange]
      · rename_i hhigh
        rw [min_eq_left (not_lt.mp hhigh), max_eq_right hlow]

theorem value_of_clamped (h : ¬ IsWord arg) {a : Analog} (hrange : a.minVal ≤ a.maxVal) {v : ℚ}
    (hv : a.clamped (atof arg.toList) = some v) : a.value (some arg) = .num v := by
  unfold Analog.value floatField
  rw [parseFloatArg_of_not_word h hrange, hv]
  rfl

theorem Analog.clamp_mem {a : Analog} (hrange : a.minVal ≤ a.maxVal) (v : ℚ) :
    a.minVal ≤ a.clamp v ∧ a.clamp v ≤ a.maxVal :=
  ⟨le_max_left _ _, max_le hrange (min_le_right _ _)⟩

theorem Analog.clamped_mem {a : Analog} (hrange : a.minVal ≤ a.maxVal) {x : Flt} {v : ℚ}
    (h : a.clamped x = some v) : a.minVal ≤ v ∧ v ≤ a.maxVal := by
  cases x with
  | num q =>
    cases h
    exact Analog.clamp_mem hrange q
  | posInf =>
    cases h
    exact ⟨hrange, le_rfl⟩
  | negInf =>
    cases h
    exact ⟨le_rfl, hrange⟩
  | nan => cases h

theorem Analog.eq_nan_of_clamped {a : Analog} {x : Flt} (h : a.clamped x = none) : x = .nan := by
  cases x with
  | nan => rfl
  | num | posInf | negInf => cases h

theorem analog_contract_iff {a : Analog} (hrange : a.minVal ≤ a.maxVal) (arg : String) :
    (Argument.analog a).Contract arg ↔ (SpellsNan arg → IsWord arg) := by
  rw [← atof_eq_nan_iff]
  constructor
  · rintro ⟨-, hreads⟩ hnan
    by_contra hword
    obtain ⟨v, -, -, hv⟩ := hreads hword
    rw [hnan] at hv
    cases hv
  · intro hnan
    have hsome : ¬ IsWord arg → ∃ v, a.clamped (atof arg.toList) = some v := by
      intro hword
      apply Option.ne_none_iff_exists'.mp
      intro hnone
      exact hword (hnan (Analog.eq_nan_of_clamped hnone))
    constructor
    · intro h
      by_cases hword : IsWord arg
      · simp only [Argument.Sentinel, parseFloatArg] at h
        split at h
        · cases h
        · rename_i hmax
          split at h
          · cases h
          · rename_i hmin
            exact (hword.resolve_left hmax).resolve_left hmin
      · obtain ⟨v, hv⟩ := hsome hword
        rw [Argument.Sentinel, parseFloatArg_of_not_word hword hrange, hv] at h
        cases h
    · intro hword
      obtain ⟨v, hv⟩ := hsome hword
      exact ⟨v, value_of_clamped hword hrange hv, Analog.clamped_mem hrange hv, hv⟩

end

theorem imax_settings_pos : 0 < settings.imax := by decide +kernel

theorem Argument.Declared.analog_range {a : Analog} (h : (Argument.analog a).Declared settings) :
    0 ≤ a.minVal ∧ a.minVal ≤ a.maxVal := by
  cases h with
  | cell | vb | shortCircuit =>
    constructor <;> norm_num [Analog.cell, Analog.vb, Analog.shortCircuit]
  | ntc _ hlow hhigh => exact ⟨hlow, hhigh⟩
  | overcurrent =>
    have hpos := imax_settings_pos
    constructor <;> norm_num [Analog.overcurrent]
    exact hpos.le

/-- Every argument of every command keeps to its contract on exactly the strings that are no
spelling of a NaN, and an integer argument on every string. -/
theorem argument_contract_iff (command : String) (first second : Argument)
    (h : numericalArguments settings command = some (first, second)) :
    (∃ width registerAddress, ∀ arg1 arg2, ∃ data,
      numericalWord settings arg1 arg2 command = some (registerAddress, data) ∧
      ((data.toNat % 2 ^ width : Nat) : Int) = first.code arg1 ∧
      ((data.toNat / 2 ^ width : Nat) : Int) = second.code arg2) ∧
    ∀ x, x = first ∨ x = second → ∀ arg,
      x.Contract arg ↔ ∀ a, x = .analog a → SpellsNan arg → IsWord arg := by
  refine ⟨numericalWord_arguments h, ?_⟩
  intro x hx arg
  obtain ⟨hfirst, hsecond⟩ := numericalArguments_declared h
  have hdeclared : x.Declared settings := by
    rcases hx with rfl | rfl <;> assumption
  cases x with
  | absent => exact iff_of_true ⟨False.elim, fun _ => trivial⟩ (fun a h => by cases h)
  | int minVal maxVal defaultVal =>
    apply iff_of_true
    · cases hdeclared <;> exact int_contract (by decide) (by decide) _ arg
    · intro a ha
      cases ha
  | analog a =>
    rw [analog_contract_iff hdeclared.analog_range.2]
    constructor
    · rintro hnan _ ⟨⟩
      exact hnan
    · intro hnan
      exact hnan a rfl

theorem argument_contract_iff_number :
    numericalWord settings (some "4.1") (some "max") "VCELL_OV_TH" = some (0x06, 0x0FD2) ∧
    (∃ width, (((0x0FD2 : UInt16).toNat % 2 ^ width : Nat) : Int) =
      (Argument.analog (.cell 4.3)).code (some "4.1")) ∧
    (Argument.analog (.cell 4.3)).Contract "4.1" := by
  obtain ⟨⟨width, registerAddress, hwords⟩, hcontract⟩ :=
    argument_contract_iff "VCELL_OV_TH" (.analog (.cell 4.3)) (.int 1 15 15) rfl
  have hsent : numericalWord settings (some "4.1") (some "max") "VCELL_OV_TH" =
      some (0x06, 0x0FD2) := by decide +kernel
  refine ⟨hsent, ?_, ?_⟩
  · obtain ⟨data, hword, hlow, -⟩ := hwords (some "4.1") (some "max")
    cases hsent.symm.trans hword
    exact ⟨width, hlow⟩
  · apply (hcontract _ (Or.inl rfl) "4.1").mpr
    intro a _ hnan
    rw [SpellsNan] at hnan
    exact absurd hnan (by decide)

/-- A NaN is not limited to the range: it is taken for the default. -/
theorem nan_sets_default : ¬ (Argument.analog (.cell 4.3)).Contract "nan" ∧
    (Analog.cell 4.3).value (some "nan") = .num 4.3 := by
  constructor
  · intro h
    have hsentinel : (parseFloatArg (some "nan") 0 5.0).isNan = true := by decide +kernel
    exact absurd (h.1 hsentinel) (by decide)
  · decide +kernel

end QuadBot
