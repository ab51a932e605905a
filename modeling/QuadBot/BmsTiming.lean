import QuadBot.BmsChip
import Mathlib.Tactic.IntervalCases

/-! The settings of the conversion as the chip gets them and as the timing formulas use them. The
word for the chip masks each setting to its field; the formulas do not mask, and subtract without a
look at the sign. -/

namespace QuadBot

/-! ### The CONVERSION_ON word -/

def measureCycleField (word : UInt16) : Nat := word.toNat / 2 ^ 7 % 2 ^ 5

def currentFilterField (word : UInt16) : Nat := word.toNat / 2 ^ 5 % 2 ^ 2

def shortcircuitFilterField (word : UInt16) : Nat := word.toNat / 2 ^ 2 % 2 ^ 3

def cellFilterField (word : UInt16) : Nat := word.toNat % 2 ^ 2

theorem or_eq_add {x y i : Nat} (hx : 2 ^ i ∣ x) (hy : y < 2 ^ i) : x ||| y = x + y := by
  obtain ⟨a, rfl⟩ := hx
  exact (Nat.two_pow_add_eq_or_of_lt hy a).symm

/-- A masked setting, shifted to its field. -/
theorem field_toNat (setting : UInt8) {mask shift : UInt16} (w k : Nat)
    (hmask : mask.toNat = 2 ^ w - 1) (hshift : shift.toNat = k) (hk : k < 16) (hfit : w + k ≤ 16) :
    ((setting.toUInt16 &&& mask) <<< shift).toNat = 2 ^ k * (setting.toNat % 2 ^ w) := by
  have hlt : setting.toNat % 2 ^ w < 2 ^ w := Nat.mod_lt _ (Nat.two_pow_pos w)
  have hword : setting.toNat % 2 ^ w * 2 ^ k < 2 ^ 16 := by
    calc setting.toNat % 2 ^ w * 2 ^ k < 2 ^ w * 2 ^ k :=
          Nat.mul_lt_mul_of_pos_right hlt (Nat.two_pow_pos k)
      _ = 2 ^ (w + k) := (pow_add 2 w k).symm
      _ ≤ 2 ^ 16 := Nat.pow_le_pow_right (by decide) hfit
  rw [UInt16.toNat_shiftLeft, hshift, Nat.mod_eq_of_lt hk, UInt16.toNat_and, hmask,
    UInt8.toNat_toUInt16, Nat.and_two_pow_sub_one_eq_mod, Nat.shiftLeft_eq, Nat.mod_eq_of_lt hword,
    Nat.mul_comm]

namespace Settings

variable (cfg : Settings)

theorem conversionOnValue_toNat : cfg.conversionOnValue.toNat =
    2 ^ 7 * (cfg.measureCycle.toNat % 2 ^ 5) + 2 ^ 5 * (cfg.currentFilter.toNat % 2 ^ 2) +
      2 ^ 2 * (cfg.shortcircuitFilter.toNat % 2 ^ 3) + 2 ^ 0 * (cfg.cellFilter.toNat % 2 ^ 2) := by
  have hmeasure : ((cfg.measureCycle.toUInt16 &&& 0x1F) <<< 7).toNat =
      2 ^ 7 * (cfg.measureCycle.toNat % 2 ^ 5) := field_toNat _ 5 7 rfl rfl (by decide) (by decide)
  have hcurrent : ((cfg.currentFilter.toUInt16 &&& 0x03) <<< 5).toNat =
      2 ^ 5 * (cfg.currentFilter.toNat % 2 ^ 2) := field_toNat _ 2 5 rfl rfl (by decide) (by decide)
  have hshort : ((cfg.shortcircuitFilter.toUInt16 &&& 0x07) <<< 2).toNat =
      2 ^ 2 * (cfg.shortcircuitFilter.toNat % 2 ^ 3) :=
    field_toNat _ 3 2 rfl rfl (by decide) (by decide)
  have hcell : ((cfg.cellFilter.toUInt16 &&& 0x03) <<< 0).toNat =
      2 ^ 0 * (cfg.cellFilter.toNat % 2 ^ 2) := field_toNat _ 2 0 rfl rfl (by decide) (by decide)
  have hc : cfg.currentFilter.toNat % 2 ^ 2 < 2 ^ 2 := Nat.mod_lt _ (by decide)
  have hs : cfg.shortcircuitFilter.toNat % 2 ^ 3 < 2 ^ 3 := Nat.mod_lt _ (by decide)
  have hf : cfg.cellFilter.toNat % 2 ^ 2 < 2 ^ 2 := Nat.mod_lt _ (by decide)
  rw [conversionOnValue, UInt16.toNat_or, UInt16.toNat_or, UInt16.toNat_or, hmeasure, hcurrent,
    hshort, hcell]
  generalize cfg.measureCycle.toNat % 2 ^ 5 = m
  generalize cfg.currentFilter.toNat % 2 ^ 2 = c at hc
  generalize cfg.shortcircuitFilter.toNat % 2 ^ 3 = s at hs
  generalize cfg.cellFilter.toNat % 2 ^ 2 = f at hf
  have hupper : 2 ^ 7 * m ||| 2 ^ 5 * c = 2 ^ 7 * m + 2 ^ 5 * c :=
    or_eq_add (Nat.dvd_mul_right _ m) (by omega)
  have hmiddle : 2 ^ 7 * m + 2 ^ 5 * c ||| 2 ^ 2 * s = 2 ^ 7 * m + 2 ^ 5 * c + 2 ^ 2 * s :=
    or_eq_add (i := 5) (by omega) (by omega)
  rw [hupper, hmiddle]
  exact or_eq_add (i := 2) (by omega) (by omega)

/-- The word carries the settings modulo the sizes of their fields. -/
theorem conversionOnValue_fields :
    measureCycleField cfg.conversionOnValue = cfg.measureCycle.toNat % 32 ∧
    currentFilterField cfg.conversionOnValue = cfg.currentFilter.toNat % 4 ∧
    shortcircuitFilterField cfg.conversionOnValue = cfg.shortcircuitFilter.toNat % 8 ∧
    cellFilterField cfg.conversionOnValue = cfg.cellFilter.toNat % 4 := by
  have hword := cfg.conversionOnValue_toNat
  unfold measureCycleField currentFilterField shortcircuitFilterField cellFilterField
  omega

end Settings

/-! ### The times -/

/-- The time that a cell takes with each setting of the cell filter, in microseconds. -/
def cellMicros : Nat → Nat
  | 1 => 1310
  | 2 => 4380
  | 3 => 16670
  | _ => 800

namespace Settings

variable (cfg : Settings)

theorem cellFilterInt_toNat : cfg.cellFilterInt.toNat = cellMicros cfg.cellFilter.toNat := by
  have hfilter : ∀ k : UInt8, cfg.cellFilter = k ↔ cfg.cellFilter.toNat = k.toNat := fun k =>
    UInt8.toNat_inj.symm
  simp only [cellFilterInt, hfilter]
  generalize cfg.cellFilter.toNat = f
  match f with
  | 0 | 1 | 2 | 3 => rfl
  | n + 4 => rfl

theorem measureCycleInt_toNat : cfg.measureCycleInt.toNat = 10000 * cfg.measureCycle.toNat := by
  have hcycle := cfg.measureCycle.toNat_lt
  rw [measureCycleInt, UInt32.ofInt, UInt32.toNat_ofNat']
  omega

theorem currentFilterInt_toNat (h : cfg.currentFilter.toNat ≤ 3) :
    cfg.currentFilterInt.toNat = 528 * 2 ^ (3 + cfg.currentFilter.toNat) := by
  rw [currentFilterInt]
  generalize cfg.currentFilter.toNat = c at h
  interval_cases c <;> rfl

/-! ### The window -/

/-- The ranges that the comments on the variables give. -/
structure InRange : Prop where
  cells : 3 ≤ cfg.cellStackSize ∧ cfg.cellStackSize ≤ 5
  currentFilter : cfg.currentFilter ≤ 3
  cellFilter : cfg.cellFilter ≤ 3
  measureCycle : 1 ≤ cfg.measureCycle ∧ cfg.measureCycle ≤ 31

/-- The time that the cells take in a measuring cycle, in microseconds. -/
def cellTime : Int := (cfg.cellStackSize + 1) * cfg.cellFilterInt.toNat

/-- The subtraction and the sum of the window do not wrap, and the window ends within the cycle. -/
structure WindowExact : Prop where
  difference :
    ((cfg.measureCycleInt - UInt32.ofInt (cfg.cellStackSize + 1) * cfg.cellFilterInt).toNat : Int) =
      cfg.measureCycleInt.toNat - cfg.cellTime
  window : (cfg.validWindow.toNat : Int) = cfg.measureCycleInt.toNat - cfg.cellTime + 1600
  le : cfg.validWindow ≤ cfg.measureCycleInt

theorem cellFilterInt_mem : 800 ≤ cfg.cellFilterInt.toNat ∧ cfg.cellFilterInt.toNat ≤ 16670 := by
  unfold cellFilterInt
  split_ifs <;> decide

theorem cellTime_mem (h : 3 ≤ cfg.cellStackSize ∧ cfg.cellStackSize ≤ 5) :
    3200 ≤ cfg.cellTime ∧ cfg.cellTime ≤ 100020 := by
  obtain ⟨hmin, hmax⟩ := cfg.cellFilterInt_mem
  unfold cellTime
  constructor
  · calc (3200 : Int) = 4 * 800 := rfl
      _ ≤ (cfg.cellStackSize + 1) * cfg.cellFilterInt.toNat :=
        Int.mul_le_mul (by omega) (by omega) (by omega) (by omega)
  · calc (cfg.cellStackSize + 1) * cfg.cellFilterInt.toNat ≤ 6 * 16670 :=
        Int.mul_le_mul (by omega) (by omega) (by omega) (by omega)
      _ = 100020 := rfl

theorem cellTime_toNat (h : 3 ≤ cfg.cellStackSize ∧ cfg.cellStackSize ≤ 5) :
    ((UInt32.ofInt (cfg.cellStackSize + 1) * cfg.cellFilterInt).toNat : Int) = cfg.cellTime := by
  obtain ⟨-, hmax⟩ := cfg.cellTime_mem h
  have hcells : ((UInt32.ofInt (cfg.cellStackSize + 1)).toNat : Int) = cfg.cellStackSize + 1 := by
    rw [UInt32.ofInt, UInt32.toNat_ofNat']
    omega
  have hprod : ((UInt32.ofInt (cfg.cellStackSize + 1)).toNat * cfg.cellFilterInt.toNat : Int) =
      cfg.cellTime := by
    rw [hcells, cellTime]
  rw [UInt32.toNat_mul]
  push_cast
  rw [hprod]
  have hmin := (cfg.cellTime_mem h).1
  omega

/-- Within the ranges the window is exact where the cells do not take longer than the cycle. -/
theorem windowExact_iff (h : cfg.InRange) :
    cfg.WindowExact ↔ cfg.cellTime ≤ cfg.measureCycleInt.toNat := by
  obtain ⟨hmin, hmax⟩ := cfg.cellTime_mem h.cells
  have hproduct := cfg.cellTime_toNat h.cells
  have hcycle := cfg.measureCycleInt.toNat_lt
  constructor
  · intro hexact
    have hdiff := hexact.difference
    omega
  · intro hle
    have hdiff : ((cfg.measureCycleInt -
        UInt32.ofInt (cfg.cellStackSize + 1) * cfg.cellFilterInt).toNat : Int) =
        cfg.measureCycleInt.toNat - cfg.cellTime := by
      rw [UInt32.toNat_sub_of_le _ _ (UInt32.le_iff_toNat_le.mpr (by omega))]
      omega
    have hwindow : (cfg.validWindow.toNat : Int) =
        cfg.measureCycleInt.toNat - cfg.cellTime + 1600 := by
      have hsum : ((1600 : UInt32).toNat : Int) = 1600 := rfl
      rw [validWindow, UInt32.toNat_add]
      omega
    refine ⟨hdiff, hwindow, UInt32.le_iff_toNat_le.mpr ?_⟩
    omega

end Settings

/-! ### Both paths -/

/-- A word for the chip agrees with the timing formulas: its fields are the settings, and the times
in microseconds are those of the fields. -/
structure WordAgrees (cfg : Settings) (word : UInt16) : Prop where
  measureCycle : measureCycleField word = cfg.measureCycle.toNat
  currentFilter : currentFilterField word = cfg.currentFilter.toNat
  cellFilter : cellFilterField word = cfg.cellFilter.toNat
  measureCycleInt : cfg.measureCycleInt.toNat = 10000 * measureCycleField word
  currentFilterInt : cfg.currentFilterInt.toNat = 528 * 2 ^ (3 + currentFilterField word)
  cellFilterInt : cfg.cellFilterInt.toNat = cellMicros (cellFilterField word)

/-- The word that `CONVERSION_ON` puts on the bus agrees with the timing formulas, and within the
documented ranges the window is exact. -/
structure TimingAgrees (cfg : Settings) : Prop where
  word : ∀ s : Bms BmsChip, ∃ data,
    (setBMSConversionState bmsBus cfg "CONVERSION_ON" s).wire1.log =
      s.wire1.log ++ [⟨0x49, 0x02, data, s.wire1.reg 0x02⟩] ∧ WordAgrees cfg data
  window : cfg.InRange → cfg.WindowExact

theorem conversionOn_log (cfg : Settings) (s : Bms BmsChip) :
    (setBMSConversionState bmsBus cfg "CONVERSION_ON" s).wire1.log =
      s.wire1.log ++ [⟨0x49, 0x02, cfg.conversionOnValue, s.wire1.reg 0x02⟩] := by
  rw [setBMSConversionState, if_neg (by decide), if_pos rfl]
  exact write_log s 0x02 cfg.conversionOnValue

/-- The word that is sent agrees exactly where each setting fits its field. -/
theorem wordAgrees_iff (cfg : Settings) : WordAgrees cfg cfg.conversionOnValue ↔
    cfg.measureCycle.toNat ≤ 31 ∧ cfg.currentFilter.toNat ≤ 3 ∧ cfg.cellFilter.toNat ≤ 3 := by
  obtain ⟨hmeasure, hcurrent, -, hcell⟩ := cfg.conversionOnValue_fields
  constructor
  · intro h
    have hm := h.measureCycle
    have hc := h.currentFilter
    have hf := h.cellFilter
    omega
  · rintro ⟨hm, hc, hf⟩
    rw [Nat.mod_eq_of_lt (by omega)] at hmeasure hcurrent hcell
    refine ⟨hmeasure, hcurrent, hcell, ?_, ?_, ?_⟩
    · rw [hmeasure, cfg.measureCycleInt_toNat]
    · rw [hcurrent, cfg.currentFilterInt_toNat hc]
    · rw [hcell, cfg.cellFilterInt_toNat]

theorem word_carries_iff (cfg : Settings) (s : Bms BmsChip) :
    (∃ data, (setBMSConversionState bmsBus cfg "CONVERSION_ON" s).wire1.log =
        s.wire1.log ++ [⟨0x49, 0x02, data, s.wire1.reg 0x02⟩] ∧ WordAgrees cfg data) ↔
    cfg.measureCycle.toNat ≤ 31 ∧ cfg.currentFilter.toNat ≤ 3 ∧ cfg.cellFilter.toNat ≤ 3 := by
  have hlog := conversionOn_log cfg s
  rw [← wordAgrees_iff]
  constructor
  · rintro ⟨data, hdata, hagrees⟩
    rw [hlog] at hdata
    have hlast := List.append_cancel_left hdata
    cases hlast
    exact hagrees
  · intro hagrees
    exact ⟨cfg.conversionOnValue, hlog, hagrees⟩

/-- For every value of the settings: both paths agree exactly where each setting fits its field and,
within the documented ranges, the cells do not take longer than the cycle. -/
theorem timingAgrees_iff (cfg : Settings) : TimingAgrees cfg ↔
    (cfg.measureCycle.toNat ≤ 31 ∧ cfg.currentFilter.toNat ≤ 3 ∧ cfg.cellFilter.toNat ≤ 3) ∧
      (cfg.InRange → (cfg.cellStackSize + 1) * cellMicros cfg.cellFilter.toNat ≤
        10000 * cfg.measureCycle.toNat) := by
  have hwindow : cfg.InRange → (cfg.WindowExact ↔
      (cfg.cellStackSize + 1) * cellMicros cfg.cellFilter.toNat ≤
        10000 * cfg.measureCycle.toNat) := by
    intro hrange
    rw [cfg.windowExact_iff hrange, Settings.cellTime, cfg.cellFilterInt_toNat,
      cfg.measureCycleInt_toNat]
    push_cast
    rfl
  constructor
  · intro h
    constructor
    · exact (word_carries_iff cfg (bootBms (bootChip acked))).mp (h.word _)
    · intro hrange
      exact (hwindow hrange).mp (h.window hrange)
  · rintro ⟨hfit, hcycle⟩
    constructor
    · intro s
      exact (word_carries_iff cfg s).mpr hfit
    · intro hrange
      exact (hwindow hrange).mpr (hcycle hrange)

/-- A cycle of 32 goes to the chip as 0, and with a cycle of 9 the window wraps. -/
theorem unclamped_settings : ¬ TimingAgrees { settings with measureCycle := 32 } ∧
    ¬ TimingAgrees { settings with measureCycle := 9 } := by
  constructor
  · intro h
    have hfit := (word_carries_iff _ (bootBms (bootChip acked))).mp (h.word _)
    exact absurd hfit.1 (by decide)
  · intro h
    have hrange : Settings.InRange { settings with measureCycle := 9 } :=
      ⟨by decide, by decide, by decide, by decide⟩
    exact absurd (h.window hrange).le (by decide)

end QuadBot
