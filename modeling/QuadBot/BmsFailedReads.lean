import QuadBot.BmsTotals
import QuadBot.Lib.Binary

/-! Failed reads of the Coulomb counter, the totals in single precision as in the source. A failed
read hands over the word 0. The total does not show it exactly where it is the float of a whole
number of hundredths and the increment is too small to move it. -/

namespace QuadBot

open Binary

abbrev Single := Value binary32

instance : Roundf Single := ⟨Value.roundAway⟩

/-! ### Increments in single precision -/

/-- The factor from an accumulator to a voltage. -/
def voltageScale : ℚ := binary32.nearest (binary32.nearest voltageLimitRangeExt / 32767.0)

def singleResistor : ℚ := binary32.nearest settings.senseResistor

/-- The charge of an accumulator, with the roundings of single precision. -/
def increment (acc : Int) : ℚ :=
  binary32.nearest (binary32.nearest (binary32.nearest (binary32.nearest (acc * voltageScale) /
    singleResistor) * 33792) / 1000000)

section

variable {acc : Int}

/-- The charge is a number, and less than 2048. -/
theorem number_coulombsOf (h : |acc| ≤ 2 ^ 23) :
    (coulombsOf settings acc : Single).number = some (increment acc) ∧
      |increment acc| ≤ 2 ^ (11 : ℤ) := by
  have hacc : |(acc : ℚ)| ≤ 2 ^ (23 : ℤ) := by exact_mod_cast h
  have hexact : binary32.nearest acc = acc :=
    Format.nearest_of_representable (Format.representable_intCast (by decide)
      (h.trans_lt (by decide)))
  have hrounded : binary32.rounded acc = some (acc : ℚ) := by
    rw [Format.rounded_of_le hacc (by decide) (by decide), hexact]
  -- The constants and the bounds they give to the exact results.
  have hscale : ((voltageLimitRangeExt : Single) / (32767.0 : ℚ)).number = some voltageScale := by
    decide +kernel
  have hresistor : (settings.senseResistor : Single).number = some singleResistor := by
    decide +kernel
  have hfilter : ((settings.currentFilterInt.toNat : ℚ) : Single).number = some 33792 := by
    decide +kernel
  have hmicros : ((1000000.0 : ℚ) : Single).number = some 1000000 := by decide +kernel
  have hscale_le : |voltageScale| ≤ 2 ^ (-16 : ℤ) := by decide +kernel
  have hresistor_le : |singleResistor⁻¹| ≤ 2 ^ (7 : ℤ) := by decide +kernel
  have hfilter_le : |(33792 : ℚ)| ≤ 2 ^ (16 : ℤ) := by decide +kernel
  have hmicros_le : |(1000000 : ℚ)⁻¹| ≤ 2 ^ (-19 : ℤ) := by decide +kernel
  -- Each operation is rounded and stays far from overflow.
  have h1 : |acc * voltageScale| ≤ 2 ^ (7 : ℤ) := Format.abs_mul_le hacc hscale_le
  have h1' := Format.abs_nearest_le (φ := binary32) h1 (by decide)
  have h2 : |binary32.nearest (acc * voltageScale) / singleResistor| ≤ 2 ^ (14 : ℤ) :=
    Format.abs_mul_le h1' hresistor_le
  have h2' := Format.abs_nearest_le (φ := binary32) h2 (by decide)
  have h3 := Format.abs_mul_le h2' hfilter_le
  have h3' := Format.abs_nearest_le (φ := binary32) h3 (by decide)
  have h4 : |binary32.nearest (binary32.nearest (binary32.nearest (acc * voltageScale) /
      singleResistor) * 33792) / 1000000| ≤ 2 ^ (11 : ℤ) :=
    Format.abs_mul_le h3' hmicros_le
  refine ⟨?_, Format.abs_nearest_le h4 (by decide)⟩
  have hnumber := (Value.number_ratCast (φ := binary32) acc).trans hrounded
  have hvoltage := (Value.number_mul hnumber hscale).trans
    (Format.rounded_of_le h1 (by decide) (by decide))
  have hcurrent := (Value.number_div hvoltage hresistor (by decide +kernel)).trans
    (Format.rounded_of_le h2 (by decide) (by decide))
  have htime := (Value.number_mul hcurrent hfilter).trans
    (Format.rounded_of_le h3 (by decide) (by decide))
  exact (Value.number_div htime hmicros (by decide)).trans
    (Format.rounded_of_le h4 (by decide) (by decide))

@[simp] theorem increment_zero : increment 0 = 0 := by
  simp [increment]

/-- The increment in single precision is close to the exact one, here in hundredths. -/
theorem increment_error (acc : Int) : |100 * increment acc - hundredths acc| ≤ |acc| / 10 ^ 8 := by
  by_cases hacc : acc = 0
  · simp [hacc, hundredths]
  have hone : (1 : ℚ) ≤ |(acc : ℚ)| := by exact_mod_cast Int.one_le_abs hacc
  have hstep : ∀ {c d ε y : ℚ}, Close ε (acc * c) y → ε ≤ 1 / 2 → 2 ^ (-124 : ℤ) ≤ c * d →
      Close (ε + 2 / 2 ^ 24) (acc * (c * d)) (binary32.nearest (y * d)) := by
    intro c d ε y h hε hcd
    have hpos : 0 ≤ c * d := (Format.two_zpow_pos _).le.trans hcd
    have hmul := h.mul d
    rw [mul_assoc] at hmul
    apply hmul.nearest hε
    rw [abs_mul, abs_of_nonneg hpos]
    exact hcd.trans (le_mul_of_one_le_left hpos hone)
  have hstart := Close.refl (acc * 1 : ℚ)
  have h1 := hstep (hstart.mono le_rfl) (by norm_num) (d := voltageScale) (by decide +kernel)
  have h2 := hstep h1 (by norm_num) (d := singleResistor⁻¹) (by decide +kernel)
  have h3 := hstep h2 (by norm_num) (d := 33792) (by decide +kernel)
  have h4 := hstep h3 (by norm_num) (d := 1000000⁻¹) (by decide +kernel)
  rw [mul_one] at h4
  generalize hfactor : 1 * voltageScale * singleResistor⁻¹ * 33792 * (1000000 : ℚ)⁻¹ = factor at h4
  have hpos : 0 ≤ factor := by subst hfactor; decide +kernel
  have hsmall : factor ≤ 4 / 10 ^ 5 := by subst hfactor; decide +kernel
  have hexact : |100 * factor - 3168 / 819175| ≤ 1 / 10 ^ 9 := by subst hfactor; decide +kernel
  have hclose : |increment acc - acc * factor| ≤ 8 / 2 ^ 24 * (|(acc : ℚ)| * factor) := by
    have hsum : (0 + 2 / 2 ^ 24 + 2 / 2 ^ 24 + 2 / 2 ^ 24 + 2 / 2 ^ 24 : ℚ) = 8 / 2 ^ 24 := by
      norm_num
    rw [hsum, Close, abs_mul, abs_of_nonneg hpos] at h4
    exact h4
  calc |100 * increment acc - hundredths acc|
      = |100 * (increment acc - acc * factor) + acc * (100 * factor - 3168 / 819175)| := by
        rw [hundredths]
        ring_nf
    _ ≤ 100 * |increment acc - acc * factor| + |(acc : ℚ)| * |100 * factor - 3168 / 819175| := by
        refine (abs_add_le _ _).trans ?_
        rw [abs_mul, abs_mul, abs_of_pos (by norm_num : (0 : ℚ) < 100)]
    _ ≤ 100 * (8 / 2 ^ 24 * (|(acc : ℚ)| * (4 / 10 ^ 5))) + |(acc : ℚ)| * (1 / 10 ^ 9) := by
        have hle : |(acc : ℚ)| * factor ≤ |(acc : ℚ)| * (4 / 10 ^ 5) := by gcongr
        gcongr
        exact hclose.trans (by gcongr)
    _ ≤ |acc| / 10 ^ 8 := by
        push_cast
        linarith

end

/-! ### The total -/

/-- The total that a call leaves when it adds the charge of an accumulator. -/
def addCharge (total : Single) (acc : Int) : Single :=
  Roundf.roundf ((total + coulombsOf settings acc) * (100.0 : ℚ)) / (100.0 : ℚ)

/-- A total can lose a hundredth when nothing is added, and be too large for a charge to be seen. -/
example : (addCharge ((200000.25 : ℚ) : Single) 0).number = some 200000.234375 ∧
    (addCharge ((131072 : ℚ) : Single) 200).number = some 131072 := by decide +kernel

/-- The total does not show the charge: it is infinite or NaN, or the float of a whole number `n` of
hundredths, and `n` is the whole number nearest to the hundredths of the sum, each of the two
operations rounded. -/
def Absorbs (total : Single) (acc : Int) : Prop :=
  ∀ t, total.number = some t → ∃ n : ℤ, binary32.rounded (n / 100) = some t ∧
    ∃ sum, binary32.rounded (t + increment acc) = some sum ∧
      ∃ scaled, binary32.rounded (sum * 100) = some scaled ∧ Rounding.halfAway scaled = n

section

variable {total : Single} {acc : Int}

theorem number_hundred : ((100.0 : ℚ) : Single).number = some 100 := by decide +kernel

theorem addCharge_of_none (htotal : total.number = none) (hacc : |acc| ≤ 2 ^ 23) :
    addCharge total acc = total := by
  have hsum := Value.add_of_none htotal (number_coulombsOf hacc).1
  have hscaled : total * ((100.0 : ℚ) : Single) = total :=
    Value.mul_of_none htotal number_hundred (by norm_num) (by decide +kernel)
  show Value.roundAway ((total + coulombsOf settings acc) * ((100.0 : ℚ) : Single)) /
    ((100.0 : ℚ) : Single) = total
  rw [hsum, hscaled, Value.roundAway_of_none htotal]
  exact Value.div_of_none htotal number_hundred (by decide +kernel)

/-- Where an intermediate result overflows, the total is infinite. -/
theorem number_addCharge {t : ℚ} (htotal : total.number = some t) (hacc : |acc| ≤ 2 ^ 23) :
    (addCharge total acc).number =
      (binary32.rounded (t + increment acc)).bind fun sum =>
        (binary32.rounded (sum * 100)).bind fun scaled =>
          binary32.rounded (Rounding.halfAway scaled / 100) := by
  have hsum := Value.number_add htotal (number_coulombsOf hacc).1
  have hdiv : ∀ {x : Single}, x.number = none → (x / ((100.0 : ℚ) : Single)).number = none := by
    intro x hx
    rw [Value.div_of_none hx number_hundred (by decide +kernel), hx]
  show (Value.roundAway ((total + coulombsOf settings acc) * ((100.0 : ℚ) : Single)) /
    ((100.0 : ℚ) : Single)).number = _
  generalize total + coulombsOf settings acc = x at hsum
  cases hx : binary32.rounded (t + increment acc) with
  | none =>
    rw [hx] at hsum
    have hscaled : x * ((100.0 : ℚ) : Single) = x :=
      Value.mul_of_none hsum number_hundred (by norm_num) (by decide +kernel)
    rw [hscaled, Value.roundAway_of_none hsum]
    exact hdiv hsum
  | some sum =>
    rw [hx] at hsum
    have hscaled := Value.number_mul hsum number_hundred
    generalize x * ((100.0 : ℚ) : Single) = y at hscaled
    show _ = (binary32.rounded (sum * 100)).bind _
    cases hy : binary32.rounded (sum * 100) with
    | none =>
      rw [hy] at hscaled
      rw [Value.roundAway_of_none hscaled]
      exact hdiv hscaled
    | some scaled =>
      rw [hy] at hscaled
      obtain ⟨hrepr, hlt⟩ := Value.number_bounded hscaled
      have hwhole := (Value.number_roundAway hscaled).trans
        (Format.rounded_halfAway (by decide) (by decide) hrepr hlt)
      exact Value.number_div hwhole number_hundred (by norm_num)

theorem addCharge_same_iff (hacc : |acc| ≤ 2 ^ 23) :
    (addCharge total acc).Same total ↔ Absorbs total acc := by
  cases htotal : total.number with
  | none =>
    rw [addCharge_of_none htotal hacc]
    refine iff_of_true (Or.inl rfl) ?_
    intro t ht
    rw [htotal] at ht
    cases ht
  | some t =>
    rw [Value.same_iff htotal, number_addCharge htotal hacc]
    simp only [Option.bind_eq_some_iff, Absorbs, htotal]
    constructor
    · rintro ⟨sum, hsum, scaled, hscaled, ht⟩ t' ht'
      obtain rfl := Option.some.inj ht'
      exact ⟨_, ht, sum, hsum, scaled, hscaled, rfl⟩
    · intro h
      obtain ⟨n, ht, sum, hsum, scaled, hscaled, rfl⟩ := h t rfl
      exact ⟨sum, hsum, scaled, hscaled, ht⟩

end

/-! ### Totals in range -/

/-- The float of `n` hundredths and a charge are added and scaled to hundredths, each time with one
rounding. -/
def scaledSum (n : ℤ) (charge : ℚ) : ℚ :=
  binary32.nearest (binary32.nearest (binary32.nearest (n / 100) + charge) * 100)

section

variable {n : ℤ} {charge : ℚ}

theorem nearest_error {x : ℚ} {k : ℤ} (h : |x| < 2 ^ k) (hk : -125 ≤ k) :
    |binary32.nearest x - x| ≤ 2 ^ (k - 24) / 2 :=
  Format.abs_nearest_sub_le_of_lt h (by show (-149 : ℤ) ≤ k - 24; omega)

/-- Two roundings below `2 ^ k` and one below `2 ^ j`. -/
theorem scaledSum_error {k j : ℤ} {m c : ℚ} (hk : -125 ≤ k) (hj : -125 ≤ j)
    (hn : |(n / 100 : ℚ)| ≤ m) (hcharge : |charge| ≤ c) (hsum : m + c + 2 ^ (k - 24) < 2 ^ k)
    (hscaled : (m + c + 2 ^ (k - 24)) * 100 < 2 ^ j) :
    |scaledSum n charge - (n + 100 * charge)| ≤ 100 * 2 ^ (k - 24) + 2 ^ (j - 24) / 2 := by
  have hunit : (0 : ℚ) < 2 ^ (k - 24) := Format.two_zpow_pos _
  have hnonneg := (abs_nonneg charge).trans hcharge
  have hn' := abs_le.mp hn
  have hcharge' := abs_le.mp hcharge
  have h1 := abs_le.mp (nearest_error (hn.trans_lt (by linarith)) hk)
  have hlt : |binary32.nearest (n / 100) + charge| < 2 ^ k := by
    rw [abs_lt]
    constructor <;> linarith
  have h2 := abs_le.mp (nearest_error hlt hk)
  have hlt' : |binary32.nearest (binary32.nearest (n / 100) + charge) * 100| < 2 ^ j := by
    rw [abs_lt]
    constructor <;> linarith
  have h3 := abs_le.mp (nearest_error hlt' hj)
  rw [scaledSum, abs_le]
  constructor <;> linarith

theorem abs_hundredth_le {m : ℤ} (h : |n| ≤ m) : |(n / 100 : ℚ)| ≤ m / 100 := by
  have hcast : |(n : ℚ)| ≤ m := by exact_mod_cast h
  rw [abs_div, abs_of_pos (by norm_num : (0 : ℚ) < 100)]
  gcongr

/-- Up to 80 coulombs the roundings move the sum by about a thousandth of a hundredth. -/
theorem scaledSum_small (hn : |n| ≤ 8000) (hcharge : |charge| ≤ 1 / 100) :
    |scaledSum n charge - (n + 100 * charge)| ≤ 102 / 100000 :=
  (scaledSum_error (k := 7) (j := 13) (by decide) (by decide) (abs_hundredth_le hn) hcharge
    (by norm_num) (by norm_num)).trans (by norm_num)

theorem scaledSum_large (hn : |n| ≤ 2 ^ 21) (hcharge : |charge| ≤ 2 ^ (11 : ℤ)) :
    |scaledSum n charge - (n + 100 * charge)| ≤ 33 / 100 :=
  (scaledSum_error (k := 15) (j := 22) (by decide) (by decide) (abs_hundredth_le hn) hcharge
    (by norm_num) (by norm_num)).trans (by norm_num)

/-- In range, a total of `n` hundredths does not show a charge exactly where the sum is rounded to
`n` again. -/
theorem absorbs_iff {total : Single} {acc : Int} (hn : |n| ≤ 2 ^ 21)
    (htotal : total.number = some (binary32.nearest (n / 100)))
    (hcharge : |increment acc| ≤ 2 ^ (11 : ℤ)) :
    Absorbs total acc ↔ Rounding.halfAway (scaledSum n (increment acc)) = n := by
  have herror := abs_le.mp (scaledSum_large hn hcharge)
  have hcharge' := abs_le.mp hcharge
  have hround := abs_le.mp (Rounding.abs_halfAway_sub_le (scaledSum n (increment acc)))
  have hn' := abs_le.mp (abs_hundredth_le hn)
  have hlt : |(n / 100 : ℚ)| < 2 ^ (15 : ℤ) := (abs_hundredth_le hn).trans_lt (by norm_num)
  have h1 := abs_le.mp (nearest_error hlt (by decide))
  norm_num at hcharge' hn' h1
  constructor
  · intro h
    obtain ⟨m, hm, sum, hsum, scaled, hscaled, rfl⟩ := h _ htotal
    have hscaledSum : scaledSum n (increment acc) = scaled := by
      rw [scaledSum, Format.nearest_of_rounded hsum, Format.nearest_of_rounded hscaled]
    rw [hscaledSum] at herror hround ⊢
    -- Both `n` and the new number of hundredths give the total, so they are less than 1 apart.
    have hlt' : |(Rounding.halfAway scaled / 100 : ℚ)| < 2 ^ (15 : ℤ) := by
      rw [abs_lt]
      norm_num
      constructor <;> linarith
    have h2 := abs_le.mp (nearest_error hlt' (by decide))
    rw [Format.nearest_of_rounded hm] at h2
    norm_num at h2
    have hupper : (Rounding.halfAway scaled : ℚ) < n + 1 := by linarith
    have hlower : (n : ℚ) < Rounding.halfAway scaled + 1 := by linarith
    have hupper' : Rounding.halfAway scaled < n + 1 := by exact_mod_cast hupper
    have hlower' : n < Rounding.halfAway scaled + 1 := by exact_mod_cast hlower
    omega
  · intro h t ht
    obtain rfl := Option.some.inj (htotal.symm.trans ht)
    have hsum : |binary32.nearest (n / 100) + increment acc| ≤ 2 ^ (15 : ℤ) := by
      rw [abs_le]
      norm_num
      constructor <;> linarith
    have hsum' := Format.abs_nearest_le (φ := binary32) hsum (by decide)
    have hscaled := Format.abs_mul_le hsum' (by norm_num : |(100 : ℚ)| ≤ 2 ^ (7 : ℤ))
    exact ⟨n, Format.rounded_of_le hlt.le (by decide) (by decide), _,
      Format.rounded_of_le hsum (by decide) (by decide), _,
      Format.rounded_of_le hscaled (by decide) (by decide), h⟩

/-- Up to 80 coulombs, what is seen of a charge of at most 255 begins at 130. -/
theorem absorbs_upper {total : Single} {acc : Int} (hn : |n| ≤ 8000)
    (htotal : total.number = some (binary32.nearest (n / 100))) (h0 : 0 ≤ acc) (h255 : acc ≤ 255) :
    Absorbs total acc ↔ acc ≤ 129 := by
  have hnonneg : (0 : ℚ) ≤ acc := by exact_mod_cast h0
  have hle : (acc : ℚ) ≤ 255 := by exact_mod_cast h255
  have hcharge := abs_le.mp (increment_error acc)
  rw [hundredths, abs_of_nonneg h0] at hcharge
  have hsmall : |increment acc| ≤ 1 / 100 := by
    rw [abs_le]
    constructor <;> linarith
  have herror := abs_le.mp (scaledSum_small hn hsmall)
  have hlarge : |increment acc| ≤ 2 ^ (11 : ℤ) := hsmall.trans (by norm_num)
  rw [absorbs_iff (hn.trans (by norm_num)) htotal hlarge]
  constructor
  · intro hsame
    have hround := abs_le.mp (Rounding.abs_halfAway_sub_le (scaledSum n (increment acc)))
    rw [hsame] at hround
    by_contra hgt
    have hge : (130 : ℚ) ≤ acc := by exact_mod_cast not_le.mp hgt
    linarith
  · intro h129
    have hle' : (acc : ℚ) ≤ 129 := by exact_mod_cast h129
    apply Rounding.halfAway_eq_of_abs_lt
    rw [abs_lt]
    constructor <;> linarith

/-- Up to 20971 coulombs every charge of at least 256 is seen. -/
theorem absorbs_lower {total : Single} {acc : Int} (hn : |n| ≤ 2 ^ 21)
    (htotal : total.number = some (binary32.nearest (n / 100))) (hacc : |acc| ≤ 2 ^ 23)
    (h256 : acc ≠ 0 → 256 ≤ |acc|) : Absorbs total acc ↔ acc = 0 := by
  have hlarge := (number_coulombsOf hacc).2
  have herror := abs_le.mp (scaledSum_large hn hlarge)
  rw [absorbs_iff hn htotal hlarge]
  constructor
  · intro hsame
    have hround := abs_le.mp (Rounding.abs_halfAway_sub_le (scaledSum n (increment acc)))
    rw [hsame] at hround
    have hcharge := abs_le.mp (increment_error acc)
    rw [hundredths] at hcharge
    by_contra hne
    have hge : (256 : ℚ) ≤ |acc| := by exact_mod_cast h256 hne
    rcases le_or_gt 0 acc with hpos | hneg
    · rw [abs_of_nonneg hpos] at hge hcharge
      linarith
    · rw [abs_of_neg hneg] at hge hcharge
      push_cast at hge hcharge
      linarith
  · rintro rfl
    rw [increment_zero] at herror ⊢
    apply Rounding.halfAway_eq_of_abs_lt
    rw [abs_lt]
    constructor <;> linarith

end

/-! ### Failed reads -/

section

variable {σ : Type} (bus : Bus σ)

/-- Fewer than two bytes arrive from the register. -/
def ReadFails (registerAddress : UInt8) (wire1 : σ) : Prop :=
  (bus.requestFrom (bus.endTransmission wire1 0x49 [registerAddress]).2 0x49 2).1.length < 2

theorem readBMSData_of_fails {registerAddress : UInt8} {wire1 : σ}
    (h : ReadFails bus registerAddress wire1) :
    (readBMSData bus 0x49 registerAddress wire1).1 = 0 := by
  unfold ReadFails at h
  simp only [readBMSData]
  split
  · rename_i heq
    rw [heq, List.length_cons, List.length_cons] at h
    omega
  · rfl

variable (s : Bms σ Single)

/-- The read of 0x2D in a call fails. -/
def UpperFails : Prop := ReadFails bus 0x2D (writeBMSData bus 0x49 0x2D 0xFFFF s).wire1

/-- The read of 0x2E in a call fails. -/
def LowerFails : Prop :=
  ReadFails bus 0x2E (readBMSData bus 0x49 0x2D (writeBMSData bus 0x49 0x2D 0xFFFF s).wire1).2

/-- A call leaves both totals as they are. -/
def TotalsKept : Prop :=
  (readCoulombCounter bus settings s).2.totalCoulombs.Same s.totalCoulombs ∧
    (readCoulombCounter bus settings s).2.totalSampleCount = s.totalSampleCount

variable {bus s}

theorem upper_eq_zero (h : UpperFails bus s) : (readCoulombWords bus s).1 = 0 :=
  readBMSData_of_fails bus h

theorem lower_eq_zero (h : LowerFails bus s) : (readCoulombWords bus s).2.1 = 0 :=
  readBMSData_of_fails bus h

theorem abs_signedAcc_le (msb lsbAndCount : UInt16) : |signedAcc msb lsbAndCount| ≤ 2 ^ 23 := by
  rw [signedAcc_eq, Int.bmod_def, abs_le]
  omega

theorem totalsKept_iff : TotalsKept bus s ↔ (readCoulombWords bus s).2.1.toNat % 256 = 0 ∧
    Absorbs s.totalCoulombs
      (signedAcc (readCoulombWords bus s).1 (readCoulombWords bus s).2.1) := by
  obtain ⟨htotal, hcount⟩ := readCoulombCounter_totals bus settings s
  have hsample := sampleCount_toNat (readCoulombWords bus s).2.1
  have hlt := (sampleCount (readCoulombWords bus s).2.1).toNat_lt
  have htotal_lt := s.totalSampleCount.toNat_lt
  rw [TotalsKept, htotal, hcount, ← hsample, ← UInt32.toNat_inj, UInt32.toNat_add,
    UInt8.toNat_toUInt32, and_comm, ← addCharge_same_iff (abs_signedAcc_le _ _)]
  apply and_congr _ Iff.rfl
  omega

theorem signedAcc_zero_upper (lsbAndCount : UInt16) :
    signedAcc 0 lsbAndCount = (lsbAndCount.toNat / 256 : Nat) := by
  have hlt := lsbAndCount.toNat_lt
  have hzero : (0 : UInt16).toNat = 0 := rfl
  rw [signedAcc_eq, Int.bmod_def, hzero]
  omega

theorem signedAcc_zero_lower (msb : UInt16) :
    (signedAcc msb 0 = 0 ↔ msb = 0) ∧ (signedAcc msb 0 ≠ 0 → 256 ≤ |signedAcc msb 0|) := by
  have hlt := msb.toNat_lt
  have hzero : (0 : UInt16).toNat = 0 := rfl
  rw [signedAcc_eq, Int.bmod_def, hzero, ← UInt16.toNat_inj, hzero, le_abs]
  omega

section

variable {n : ℤ} (htotal : s.totalCoulombs.number = some (binary32.nearest (n / 100)))

include htotal

theorem totalsKept_upper (hn : |n| ≤ 8000) (h : UpperFails bus s) : TotalsKept bus s ↔
    (readCoulombWords bus s).2.1.toNat / 256 ≤ 129 ∧
      (readCoulombWords bus s).2.1.toNat % 256 = 0 := by
  have hlt := (readCoulombWords bus s).2.1.toNat_lt
  rw [totalsKept_iff, upper_eq_zero h, signedAcc_zero_upper,
    absorbs_upper hn htotal (by omega) (by omega)]
  omega

theorem totalsKept_lower (hn : |n| ≤ 2 ^ 21) (h : LowerFails bus s) :
    TotalsKept bus s ↔ (readCoulombWords bus s).1 = 0 := by
  obtain ⟨hzero, hlarge⟩ := signedAcc_zero_lower (readCoulombWords bus s).1
  rw [totalsKept_iff, lower_eq_zero h, absorbs_lower hn htotal (abs_signedAcc_le _ _) hlarge, hzero]
  exact and_iff_right rfl

end

/-- A call with a failed read leaves the totals alone exactly where no sample is counted and the
total does not show the charge. Of totals up to 80 coulombs, that is where the word of the other
register adds less than half a hundredth, and up to 20971 coulombs, without the low word, where the
other word is 0. -/
theorem failed_read_keeps_totals_iff (bus : Bus σ) (s : Bms σ Single) :
    ((UpperFails bus s ∨ LowerFails bus s → TotalsKept bus s) ↔
      ¬ UpperFails bus s ∧ ¬ LowerFails bus s ∨
        (readCoulombWords bus s).2.1.toNat % 256 = 0 ∧ Absorbs s.totalCoulombs
          (signedAcc (readCoulombWords bus s).1 (readCoulombWords bus s).2.1)) ∧
    (∀ n : ℤ, |n| ≤ 8000 → s.totalCoulombs.number = some (binary32.nearest (n / 100)) →
      ((UpperFails bus s ∨ LowerFails bus s → TotalsKept bus s) ↔
        (UpperFails bus s → (readCoulombWords bus s).2.1.toNat / 256 ≤ 129 ∧
          (readCoulombWords bus s).2.1.toNat % 256 = 0) ∧
        (LowerFails bus s → (readCoulombWords bus s).1 = 0))) ∧
    ∀ n : ℤ, |n| ≤ 2 ^ 21 → s.totalCoulombs.number = some (binary32.nearest (n / 100)) →
      LowerFails bus s → (TotalsKept bus s ↔ (readCoulombWords bus s).1 = 0) := by
  refine ⟨?_, ?_, ?_⟩
  · rw [← totalsKept_iff]
    tauto
  · intro n hn htotal
    have hlarge : |n| ≤ 2 ^ 21 := hn.trans (by norm_num)
    constructor
    · intro h
      exact ⟨fun hu => (totalsKept_upper htotal hn hu).mp (h (Or.inl hu)),
        fun hl => (totalsKept_lower htotal hlarge hl).mp (h (Or.inr hl))⟩
    · rintro ⟨hu', hl'⟩ (hu | hl)
      · exact (totalsKept_upper htotal hn hu).mpr (hu' hu)
      · exact (totalsKept_lower htotal hlarge hl).mpr (hl' hl)
  · intro n hn htotal hl
    exact totalsKept_lower htotal hn hl

end

/-- A bus that acknowledges everything and has an answer ready for each request. -/
def answersBus : Bus (List (List UInt8)) where
  endTransmission answers _ _ := (true, answers)
  requestFrom answers _ _ := (answers.headD [], answers.tail)

/-- The state at power-on, but for a total that was counted before. -/
def bootTotal {σ : Type} (total : ℚ) (wire1 : σ) : Bms σ Single :=
  { bootBms wire1 with totalCoulombs := (total : Single) }

/-- The read of 0x2D fails with the total at 79.99. The accumulator of 129 that the word of 0x2E
stands for then is rounded off. -/
theorem failed_read_keeps_totals_rounded_off :
    UpperFails answersBus (bootTotal 79.99 [[], [0x81, 0x00]]) ∧
      TotalsKept answersBus (bootTotal 79.99 [[], [0x81, 0x00]]) := by
  have hfails : UpperFails answersBus (bootTotal 79.99 [[], [0x81, 0x00]]) := by
    show 0 < 2
    decide
  refine ⟨hfails, ?_⟩
  have hiff := (failed_read_keeps_totals_iff answersBus (bootTotal 79.99 [[], [0x81, 0x00]])).2.1
    7999 (by decide) (by decide +kernel)
  refine hiff.mpr ⟨fun _ => by decide, fun hl => ?_⟩ (Or.inl hfails)
  exact absurd hl (by show ¬ 2 < 2; decide)

/-- The read of 0x2D fails, and the five samples of 0x2E are counted. -/
theorem half_read_counts : ¬ (UpperFails answersBus (bootTotal 0 [[], [0x00, 0x05]]) ∨
    LowerFails answersBus (bootTotal 0 [[], [0x00, 0x05]]) →
      TotalsKept answersBus (bootTotal 0 [[], [0x00, 0x05]])) := by
  intro h
  have hfails : UpperFails answersBus (bootTotal 0 [[], [0x00, 0x05]]) := by
    show 0 < 2
    decide
  obtain ⟨-, hcount⟩ := h (Or.inl hfails)
  exact absurd hcount (by decide)

end QuadBot
