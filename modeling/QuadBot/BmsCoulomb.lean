import QuadBot.BmsRead
import QuadBot.Lib.Lts

/-! The Coulomb counter against a chip whose accumulator keeps moving: samples arrive between any
two bus transactions, a write to 0x2D resets accumulator and count, and reads of 0x2D and 0x2E
return what they hold at that moment. -/

namespace QuadBot

open Lts

/-- The accumulator and the count since the last reset, all that was ever added, the register that
is sent next, and the samples still to come: one batch before each bus transaction. -/
structure CoulombChip where
  acc : Int
  count : Nat
  added : Int
  addedCount : Nat
  pointer : UInt8
  arrivals : Stream' (List Int)

namespace CoulombChip

variable (b : CoulombChip)

/-- The samples that come before the next transaction. -/
def absorb : CoulombChip :=
  { b with
    acc := b.acc + b.arrivals.head.sum
    count := b.count + b.arrivals.head.length
    added := b.added + b.arrivals.head.sum
    addedCount := b.addedCount + b.arrivals.head.length
    arrivals := b.arrivals.tail }

/-- The word at the register that is sent next: bits 23 to 8 of the accumulator, or its low 8 bits
and the count. -/
def word : UInt16 :=
  if b.pointer = 0x2D then .ofInt (b.acc / 256)
  else if b.pointer = 0x2E then .ofInt (256 * (b.acc % 256) + b.count % 256)
  else 0

/-- A write transaction to the chip. -/
def deliver (bytes : List UInt8) : CoulombChip :=
  match bytes with
  | [register] => { b with pointer := register }
  | [register, _, _] => if register = 0x2D then { b with acc := 0, count := 0 } else b
  | _ => b

end CoulombChip

def coulombBus : Bus CoulombChip where
  endTransmission b address bytes :=
    (true, if address = 0x49 then b.absorb.deliver bytes else b.absorb)
  requestFrom b address count :=
    (if address = 0x49 then [highByte b.absorb.word, lowByte b.absorb.word].take count else [],
      b.absorb)

/-- The chip when it starts to count. -/
def bootCoulomb (arrivals : Stream' (List Int)) : CoulombChip where
  acc := 0
  count := 0
  added := 0
  addedCount := 0
  pointer := 0
  arrivals

/-! ### One call -/

namespace CoulombChip

variable (b : CoulombChip)

/-- What accumulator and count hold when a call resets them. -/
def held : Int := b.acc + (b.arrivals.get 0).sum

def heldCount : Nat := b.count + (b.arrivals.get 0).length

/-- What the accumulator holds when a call reads its upper bits. -/
def atUpper : Int := (b.arrivals.get 1).sum + (b.arrivals.get 2).sum

/-- What accumulator and count hold when a call reads the low bits and the count. -/
def atLower : Int := b.atUpper + (b.arrivals.get 3).sum + (b.arrivals.get 4).sum

def atLowerCount : Nat :=
  (b.arrivals.get 1).length + (b.arrivals.get 2).length + (b.arrivals.get 3).length +
    (b.arrivals.get 4).length

/-- The accumulator does not overflow during a call. -/
structure Fits : Prop where
  held : -2 ^ 23 ≤ b.held ∧ b.held < 2 ^ 23
  upper : -2 ^ 23 ≤ b.atUpper ∧ b.atUpper < 2 ^ 23
  lower : -2 ^ 23 ≤ b.atLower ∧ b.atLower < 2 ^ 23

/-- The count does not overflow during a call. -/
structure CountFits : Prop where
  held : b.heldCount < 256
  lower : b.atLowerCount < 256

/-- A call reads the charge that the counter held when it reset it: the bits of two readings put
together make up the accumulator. -/
def ReadsHeld : Prop := 256 * (b.atUpper / 256) + b.atLower % 256 = b.held

/-- As many samples come between the reset of a call and its last read as the reset discards. -/
def CountsHeld : Prop := b.atLowerCount = b.heldCount

end CoulombChip

theorem write_chip (r : UInt8) (d : UInt16) (s : Bms CoulombChip) :
    (writeBMSData coulombBus 0x49 r d s).wire1 =
      s.wire1.absorb.deliver [r, highByte d, lowByte d] := by
  simp [writeBMSData, coulombBus]

theorem read_chip (r : UInt8) (b : CoulombChip) : readBMSData coulombBus 0x49 r b =
    ((b.absorb.deliver [r]).absorb.word, (b.absorb.deliver [r]).absorb) := by
  simp [readBMSData, coulombBus]

/-- The words that a call reads, and the chip after it. -/
theorem readCoulombWords_chip (s : Bms CoulombChip) :
    (readCoulombWords coulombBus s).1 = .ofInt (s.wire1.atUpper / 256) ∧
    (readCoulombWords coulombBus s).2.1 =
      .ofInt (256 * (s.wire1.atLower % 256) + s.wire1.atLowerCount % 256) ∧
    (readCoulombWords coulombBus s).2.2.wire1 =
      { acc := s.wire1.atLower
        count := s.wire1.atLowerCount
        added := s.wire1.added + (s.wire1.arrivals.get 0).sum + s.wire1.atLower
        addedCount := s.wire1.addedCount + (s.wire1.arrivals.get 0).length + s.wire1.atLowerCount
        pointer := 0x2E
        arrivals := s.wire1.arrivals.drop 5 } := by
  simp only [readCoulombWords, write_chip, read_chip, CoulombChip.absorb, CoulombChip.deliver,
    CoulombChip.word, CoulombChip.atUpper, CoulombChip.atLower, CoulombChip.atLowerCount]
  have hhead : s.wire1.arrivals.head = s.wire1.arrivals.get 0 := rfl
  simp [hhead]
  refine ⟨by omega, by omega, rfl⟩

/-- The accumulator that a call decodes from two readings. -/
theorem signedAcc_words {upper lower : Int} (count : Nat) (hlo : -2 ^ 23 ≤ upper)
    (hhi : upper < 2 ^ 23) :
    signedAcc (.ofInt (upper / 256)) (.ofInt (256 * (lower % 256) + (count : Int) % 256)) =
      256 * (upper / 256) + lower % 256 := by
  rw [signedAcc_eq, ofInt_toNat, ofInt_toNat, Int.bmod_def]
  omega

theorem sampleCount_words (lower : Int) (count : Nat) (h : count < 256) :
    (sampleCount (.ofInt (256 * (lower % 256) + (count : Int) % 256))).toNat = count := by
  have hword := ofInt_toNat (256 * (lower % 256) + (count : Int) % 256)
  rw [sampleCount_toNat]
  omega

/-! ### Runs -/

/-- The firmware and the chip, with the sums of what the calls so far have decoded. -/
structure CoulombRun where
  bms : Bms CoulombChip
  decoded : Int
  decodedCount : Nat

def startRun (arrivals : Stream' (List Int)) : CoulombRun where
  bms := bootBms (bootCoulomb arrivals)
  decoded := 0
  decodedCount := 0

def coulombCall (cfg : Settings) (r : CoulombRun) : CoulombRun :=
  let (msb, lsbAndCount, _) := readCoulombWords coulombBus r.bms
  let (result, bms) := readCoulombCounter coulombBus cfg r.bms
  { bms
    decoded := r.decoded + signedAcc msb lsbAndCount
    decodedCount := r.decodedCount + result.sampleCount.toNat }

/-- No charge is lost or counted twice. -/
def ChargeConserved (r : CoulombRun) : Prop :=
  r.decoded + r.bms.wire1.acc = r.bms.wire1.added

/-- No sample is lost or counted twice. -/
def CountConserved (r : CoulombRun) : Prop :=
  r.decodedCount + r.bms.wire1.count = r.bms.wire1.addedCount

section

variable (cfg : Settings) {r : CoulombRun}

theorem chargeConserved_start (arrivals : Stream' (List Int)) :
    ChargeConserved (startRun arrivals) := (rfl : (0 : Int) + 0 = 0)

theorem countConserved_start (arrivals : Stream' (List Int)) :
    CountConserved (startRun arrivals) := (rfl : 0 + 0 = 0)

theorem coulombCall_wire1 (r : CoulombRun) :
    (coulombCall cfg r).bms.wire1 = (readCoulombWords coulombBus r.bms).2.2.wire1 := rfl

theorem charge_call_iff (hr : ChargeConserved r) (hf : r.bms.wire1.Fits) :
    ChargeConserved (coulombCall cfg r) ↔ r.bms.wire1.ReadsHeld := by
  obtain ⟨hmsb, hlsb, hchip⟩ := readCoulombWords_chip r.bms
  have hdecoded : (coulombCall cfg r).decoded = r.decoded +
      (256 * (r.bms.wire1.atUpper / 256) + r.bms.wire1.atLower % 256) := by
    show r.decoded + signedAcc (readCoulombWords coulombBus r.bms).1
      (readCoulombWords coulombBus r.bms).2.1 = _
    rw [hmsb, hlsb, signedAcc_words _ hf.upper.1 hf.upper.2]
  unfold ChargeConserved CoulombChip.ReadsHeld CoulombChip.held at *
  rw [coulombCall_wire1, hchip, hdecoded]
  dsimp only
  omega

theorem count_call_iff (hr : CountConserved r) (hf : r.bms.wire1.CountFits) :
    CountConserved (coulombCall cfg r) ↔ r.bms.wire1.CountsHeld := by
  obtain ⟨-, hlsb, hchip⟩ := readCoulombWords_chip r.bms
  have hdecoded : (coulombCall cfg r).decodedCount =
      r.decodedCount + r.bms.wire1.atLowerCount := by
    show r.decodedCount + (sampleCount (readCoulombWords coulombBus r.bms).2.1).toNat = _
    rw [hlsb, sampleCount_words _ _ hf.lower]
  unfold CountConserved CoulombChip.CountsHeld CoulombChip.heldCount at *
  rw [coulombCall_wire1, hchip, hdecoded]
  dsimp only
  omega

end

/-- Over any number of calls and any arrival of samples between the transactions, the accumulator
never overflowing: after every call the charge decoded and the charge held make up all that was
added, exactly when every call reads what the counter held when the call reset it. Where the counts
do not overflow either, the same holds of them. -/
theorem charge_conserved_iff (cfg : Settings) (arrivals : Stream' (List Int)) {n : Nat}
    (hf : ∀ k < n, ((coulombCall cfg)^[k] (startRun arrivals)).bms.wire1.Fits) :
    ((∀ k ≤ n, ChargeConserved ((coulombCall cfg)^[k] (startRun arrivals))) ↔
      ∀ k < n, ((coulombCall cfg)^[k] (startRun arrivals)).bms.wire1.ReadsHeld) ∧
    ((∀ k < n, ((coulombCall cfg)^[k] (startRun arrivals)).bms.wire1.CountFits) →
      ((∀ k ≤ n, CountConserved ((coulombCall cfg)^[k] (startRun arrivals))) ↔
        ∀ k < n, ((coulombCall cfg)^[k] (startRun arrivals)).bms.wire1.CountsHeld)) := by
  constructor
  · exact forall_iterate_iff ChargeConserved (fun _ => charge_call_iff cfg)
      (chargeConserved_start arrivals) hf
  · intro hcount
    exact forall_iterate_iff CountConserved (fun _ => count_call_iff cfg)
      (countConserved_start arrivals) hcount

/-- What comes before the reset of the first call comes again before its reads, in other batches and
with a carry in the low bits; before the second call the accumulator turns negative. Then 300
samples in one batch, more than the count can hold. -/
def matchedArrivals : Stream' (List Int) := fun k =>
  match k with
  | 0 => [300, -44]
  | 1 => [200]
  | 2 => [56]
  | 5 => [-1000]
  | 6 => [-700, -40]
  | 7 => [-4]
  | 11 => List.replicate 300 1 ++ [-1044]
  | _ => []

theorem charge_conserved_matched :
    (∀ k ≤ 3, ChargeConserved ((coulombCall settings)^[k] (startRun matchedArrivals))) ∧
    ∀ k ≤ 2, CountConserved ((coulombCall settings)^[k] (startRun matchedArrivals)) := by
  have hfits : ∀ k < 3, ((coulombCall settings)^[k] (startRun matchedArrivals)).bms.wire1.Fits
    | 0, _ => ⟨by decide +kernel, by decide +kernel, by decide +kernel⟩
    | 1, _ => ⟨by decide +kernel, by decide +kernel, by decide +kernel⟩
    | 2, _ => ⟨by decide +kernel, by decide +kernel, by decide +kernel⟩
  have hcounts : ∀ k < 2,
      ((coulombCall settings)^[k] (startRun matchedArrivals)).bms.wire1.CountFits
    | 0, _ => ⟨by decide +kernel, by decide +kernel⟩
    | 1, _ => ⟨by decide +kernel, by decide +kernel⟩
  constructor
  · refine (charge_conserved_iff settings matchedArrivals hfits).1.mpr ?_
    unfold CoulombChip.ReadsHeld
    decide +kernel
  · refine ((charge_conserved_iff settings matchedArrivals
      fun k hk => hfits k (by omega)).2 hcounts).mpr ?_
    unfold CoulombChip.CountsHeld
    decide +kernel

/-- One sample comes before the call, whose reset discards it. -/
theorem reset_loses_charge :
    ¬ ChargeConserved (coulombCall settings (startRun fun k => if k = 0 then [5] else [])) := by
  intro h
  have hheld := (charge_call_iff settings (chargeConserved_start _)
    ⟨by decide, by decide, by decide⟩).mp h
  unfold CoulombChip.ReadsHeld at hheld
  exact absurd hheld (by decide)

end QuadBot
