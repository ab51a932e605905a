import QuadBot.BmsFailedReads

/-! The current of `BMS_ReadCommands.cpp` and the charge of its Coulomb counter: a charge is the sum
of the currents that its samples stand for, each over the time of a sample. -/

namespace QuadBot

/-- The current that the raw word of a sample stands for. -/
def currentOf (cfg : Settings) (raw : UInt16) : ℚ :=
  let signedRaw : Int := raw.toInt16.toInt
  let measuredVoltage := signedRaw * (voltageLimitRangeExt / 32767.0)
  measuredVoltage / cfg.senseResistor

def readCurrent {σ : Type} (bus : Bus σ) (cfg : Settings) (wire1 : σ) : ℚ × σ :=
  let (raw, wire1) := readBMSData bus 0x49 0x2C wire1
  (currentOf cfg raw, wire1)

/-- The sum of the samples of these raw words. -/
def sampleSum (raws : List UInt16) : Int := (raws.map fun raw => raw.toInt16.toInt).sum

theorem sampleSum_cons (raw : UInt16) (raws : List UInt16) :
    sampleSum (raw :: raws) = raw.toInt16.toInt + sampleSum raws := List.sum_cons

theorem sampleSum_bounds (raws : List UInt16) :
    -2 ^ 15 * raws.length ≤ sampleSum raws ∧ sampleSum raws ≤ 2 ^ 15 * raws.length := by
  induction raws with
  | nil => decide
  | cons raw raws ih =>
    have hlow := raw.toInt16.le_toInt
    have hhigh := raw.toInt16.toInt_lt
    rw [sampleSum_cons, List.length_cons]
    push_cast
    omega

/-- As many samples as the counter can count do not overflow its 24 bits. -/
theorem sampleSum_fits {raws : List UInt16} (h : raws.length ≤ 255) :
    -2 ^ 23 ≤ sampleSum raws ∧ sampleSum raws < 2 ^ 23 := by
  have hbounds := sampleSum_bounds raws
  omega

section

variable (cfg : Settings)

theorem coulombsOf_sample (raw : UInt16) : coulombsOf cfg raw.toInt16.toInt =
    currentOf cfg raw * (cfg.currentFilterInt.toNat / 1000000.0) :=
  mul_div_assoc _ _ _

theorem coulombsOf_add (a b : Int) :
    (coulombsOf cfg (a + b) : ℚ) = coulombsOf cfg a + coulombsOf cfg b := by
  simp only [coulombsOf_exact]
  rw [Int.cast_add, add_mul, add_div, add_mul, add_div]

theorem coulombsOf_sampleSum (raws : List UInt16) : coulombsOf cfg (sampleSum raws) =
    (raws.map fun raw => currentOf cfg raw * (cfg.currentFilterInt.toNat / 1000000.0)).sum := by
  induction raws with
  | nil => simp [sampleSum, coulombsOf]
  | cons raw raws ih =>
    rw [sampleSum_cons, coulombsOf_add, coulombsOf_sample, ih, List.map_cons, List.sum_cons]

/-- Where the registers hold the sum of the samples and their number when they are read, the
counter returns that number and the charge of the currents that the same samples stand for. -/
theorem coulombs_eq_sum_currents {σ : Type} (bus : Bus σ) (s : Bms σ) (raws : List UInt16)
    (hlen : raws.length ≤ 255)
    (hmsb : (readCoulombWords bus s).1 = .ofInt (sampleSum raws / 256))
    (hlsb : (readCoulombWords bus s).2.1 =
      .ofInt (256 * (sampleSum raws % 256) + raws.length)) :
    (-2 ^ 23 ≤ sampleSum raws ∧ sampleSum raws < 2 ^ 23) ∧
    (readCoulombCounter bus cfg s).1.sampleCount.toNat = raws.length ∧
    (readCoulombCounter bus cfg s).1.coulombs =
      (raws.map fun raw => currentOf cfg raw * (cfg.currentFilterInt.toNat / 1000000.0)).sum ∧
    ∀ wire1, (readCurrent bus cfg wire1).1 = currentOf cfg (readBMSData bus 0x49 0x2C wire1).1 := by
  have hfits := sampleSum_fits hlen
  have hcount : (raws.length : Int) = raws.length % 256 := by omega
  rw [hcount] at hlsb
  refine ⟨hfits, ?_, ?_, fun _ => rfl⟩
  · show (sampleCount (readCoulombWords bus s).2.1).toNat = raws.length
    rw [hlsb, sampleCount_words _ _ (by omega)]
  · show coulombsOf cfg (signedAcc (readCoulombWords bus s).1 (readCoulombWords bus s).2.1) = _
    rw [hmsb, hlsb, signedAcc_words _ hfits.1 hfits.2, ← coulombsOf_sampleSum]
    congr 1
    omega

end

/-- The samples 100 and -200. -/
theorem coulombs_eq_sum_currents_negative :
    (readCoulombCounter answersBus settings (bootBms [[0xFF, 0xFF], [0x9C, 0x02]])).1.coulombs =
      ([0x0064, 0xFF38].map fun raw => currentOf settings raw *
        (settings.currentFilterInt.toNat / 1000000.0)).sum :=
  (coulombs_eq_sum_currents settings answersBus (bootBms [[0xFF, 0xFF], [0x9C, 0x02]])
    [0x0064, 0xFF38] (by decide) (by decide) (by decide)).2.2.1

end QuadBot
