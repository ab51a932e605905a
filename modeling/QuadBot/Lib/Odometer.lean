import Mathlib.Data.Int.Basic
import Mathlib.Data.List.Induction
import Mathlib.Tactic.Linarith
import Mathlib.Tactic.Ring

/-! Odometers: a register that counts the steps within a turn of a shaft, and a register that counts
the turns. They are the residues of one integer, the angle of the shaft in steps. A position that is
taken from another zero than the turns does not carry with them, and unsigned turns do not borrow:
`reading_eq` says by how much a reading put together of the two is off. -/

/-- A step of a shaft. -/
inductive ShaftMove
  | forward
  | backward
  deriving DecidableEq, Repr

def ShaftMove.count : ShaftMove → Int
  | forward => 1
  | backward => -1

/-- A position of `w` bits and a turn count of `v` bits. -/
structure Odometer (w v : Nat) where
  raw : BitVec w
  turns : BitVec v
  deriving DecidableEq

namespace Odometer

variable {w v : Nat}

/-- The turn count goes up as the position goes from its last value to 0, and down as it goes
back. -/
def move (m : ShaftMove) (x : Odometer w v) : Odometer w v :=
  match m with
  | .forward =>
    { raw := x.raw + 1, turns := if x.raw = BitVec.allOnes w then x.turns + 1 else x.turns }
  | .backward => { raw := x.raw - 1, turns := if x.raw = 0 then x.turns - 1 else x.turns }

/-- The registers at an angle, in steps from the zero of turn 0. -/
def ofAngle (w v : Nat) (a : Int) : Odometer w v where
  raw := BitVec.ofInt w a
  turns := BitVec.ofInt v (a / 2 ^ w)

/-! ### Moves -/

theorem ofAngle_raw_toNat (a : Int) : ((ofAngle w v a).raw.toNat : Int) = a % 2 ^ w := by
  have hpos : (0 : Int) < 2 ^ w := by positivity
  rw [ofAngle, BitVec.toNat_ofInt, Int.toNat_of_nonneg]
  · push_cast
    rfl
  · exact_mod_cast Int.emod_nonneg a hpos.ne'

theorem ofAngle_turns_toNat (a : Int) :
    ((ofAngle w v a).turns.toNat : Int) = a / 2 ^ w % 2 ^ v := by
  have hpos : (0 : Int) < 2 ^ v := by positivity
  rw [ofAngle, BitVec.toNat_ofInt, Int.toNat_of_nonneg]
  · push_cast
    rfl
  · exact_mod_cast Int.emod_nonneg _ hpos.ne'

/-- Quotient of the next integer. -/
theorem succ_ediv {m : Int} (hm : 0 < m) (a : Int) :
    (a + 1) / m = if a % m = m - 1 then a / m + 1 else a / m := by
  have hdiv := Int.mul_ediv_add_emod a m
  have hlow := Int.emod_nonneg a hm.ne'
  have hhigh := Int.emod_lt_of_pos a hm
  split
  · rw [show a + 1 = (a / m + 1) * m by linarith, Int.mul_ediv_cancel _ hm.ne']
  · rw [show a + 1 = a % m + 1 + m * (a / m) by linarith, Int.add_mul_ediv_left _ _ hm.ne',
      Int.ediv_eq_zero_of_lt (by omega) (by omega), Int.zero_add]

/-- Quotient of the integer before. -/
theorem pred_ediv {m : Int} (hm : 0 < m) (a : Int) :
    (a - 1) / m = if a % m = 0 then a / m - 1 else a / m := by
  have hdiv := Int.mul_ediv_add_emod a m
  have hlow := Int.emod_nonneg a hm.ne'
  have hhigh := Int.emod_lt_of_pos a hm
  split
  · rw [show a - 1 = m - 1 + m * (a / m - 1) by linarith, Int.add_mul_ediv_left _ _ hm.ne',
      Int.ediv_eq_zero_of_lt (by omega) (by omega), Int.zero_add]
  · rw [show a - 1 = a % m - 1 + m * (a / m) by linarith, Int.add_mul_ediv_left _ _ hm.ne',
      Int.ediv_eq_zero_of_lt (by omega) (by omega), Int.zero_add]

theorem raw_eq_allOnes_iff (a : Int) :
    (ofAngle w v a).raw = BitVec.allOnes w ↔ a % 2 ^ w = 2 ^ w - 1 := by
  have hraw := ofAngle_raw_toNat (w := w) (v := v) a
  have hpos : 0 < 2 ^ w := by positivity
  rw [← BitVec.toNat_inj, BitVec.toNat_allOnes, ← hraw]
  zify [hpos]

theorem raw_eq_zero_iff (a : Int) : (ofAngle w v a).raw = 0 ↔ a % 2 ^ w = 0 := by
  have hraw := ofAngle_raw_toNat (w := w) (v := v) a
  rw [← BitVec.toNat_inj, ← hraw]
  simp

theorem ofInt_pred (a : Int) : BitVec.ofInt w (a - 1) = BitVec.ofInt w a - 1 := by
  rw [Int.sub_eq_add_neg, BitVec.ofInt_add, BitVec.ofInt_neg, ← BitVec.sub_eq_add_neg]
  rfl

/-- A move changes the angle by its count. -/
theorem move_ofAngle (m : ShaftMove) (a : Int) :
    (ofAngle w v a).move m = ofAngle w v (a + m.count) := by
  have hpos : (0 : Int) < 2 ^ w := by positivity
  cases m with
  | forward =>
    simp only [move, raw_eq_allOnes_iff, ShaftMove.count]
    simp only [ofAngle, succ_ediv hpos, BitVec.ofInt_add]
    split
    · rw [BitVec.ofInt_add]
      rfl
    · rfl
  | backward =>
    simp only [move, raw_eq_zero_iff, ShaftMove.count, ← Int.sub_eq_add_neg]
    simp only [ofAngle, pred_ediv hpos, ofInt_pred]
    split
    · rw [ofInt_pred]
    · rfl

/-- A position whose turns are 0. -/
theorem eq_ofAngle {x : Odometer w v} (h : x.turns = 0) : x = ofAngle w v x.raw.toNat := by
  obtain ⟨raw, turns⟩ := x
  obtain rfl : turns = 0 := h
  have hdiv : (raw.toNat : Int) / 2 ^ w = 0 :=
    Int.ediv_eq_zero_of_lt (Int.natCast_nonneg _) (by exact_mod_cast raw.isLt)
  simp [ofAngle, hdiv]

/-- The registers are those of the angle that they show. -/
theorem eq_ofAngle_registers (x : Odometer w v) :
    x = ofAngle w v (2 ^ w * x.turns.toNat + x.raw.toNat) := by
  have hpos : (0 : Int) < 2 ^ w := by positivity
  have hraw_lt : (x.raw.toNat : Int) < 2 ^ w := by exact_mod_cast x.raw.isLt
  have hturns_lt : (x.turns.toNat : Int) < 2 ^ v := by exact_mod_cast x.turns.isLt
  have hraw := ofAngle_raw_toNat (w := w) (v := v) (2 ^ w * x.turns.toNat + x.raw.toNat)
  have hturns := ofAngle_turns_toNat (w := w) (v := v) (2 ^ w * x.turns.toNat + x.raw.toNat)
  rw [Int.mul_add_emod_self_left, Int.emod_eq_of_lt (Int.natCast_nonneg _) hraw_lt] at hraw
  rw [Int.mul_add_ediv_left _ _ hpos.ne', Int.ediv_eq_zero_of_lt (Int.natCast_nonneg _) hraw_lt,
    Int.add_zero, Int.emod_eq_of_lt (Int.natCast_nonneg _) hturns_lt] at hturns
  generalize ofAngle w v (2 ^ w * x.turns.toNat + x.raw.toNat) = y at hraw hturns
  obtain ⟨raw, turns⟩ := x
  obtain ⟨raw', turns'⟩ := y
  obtain rfl : raw' = raw := BitVec.eq_of_toNat_eq (Int.natCast_inj.mp hraw)
  obtain rfl : turns' = turns := BitVec.eq_of_toNat_eq (Int.natCast_inj.mp hturns)
  rfl

/-! ### Readings -/

/-- The count put together of the turns as an unsigned number and the position from the zero `o`,
`d` steps after the odometer stood at `o` in turn 0. -/
def reading (w v : Nat) (o d : Int) : Int := 2 ^ w * ((o + d) / 2 ^ w % 2 ^ v) + d % 2 ^ w

/-- The turns have gone up and the position has not yet come round: it is short of `o`. -/
def Carried (w : Nat) (o d : Int) : Prop := (o + d) % 2 ^ w < o

instance (w : Nat) (o d : Int) : Decidable (Carried w o d) := by
  unfold Carried
  infer_instance

/-- The position from another zero: a turn longer than it should be where it has not come round. -/
theorem position_eq {m o d : Int} (hm : 0 < m) (ho : 0 ≤ o) (ho' : o < m) :
    d % m = d - m * ((o + d) / m) + m * (if (o + d) % m < o then 1 else 0) := by
  have hdiv := Int.mul_ediv_add_emod (o + d) m
  have hlow := Int.emod_nonneg (o + d) hm.ne'
  have hhigh := Int.emod_lt_of_pos (o + d) hm
  split
  · rw [show d % m = ((o + d) % m - o + m + m * ((o + d) / m - 1)) % m by congr 1; linarith,
      Int.add_mul_emod_self_left, Int.emod_eq_of_lt (by omega) (by omega)]
    linarith
  · rw [show d % m = ((o + d) % m - o + m * ((o + d) / m)) % m by congr 1; linarith,
      Int.add_mul_emod_self_left, Int.emod_eq_of_lt (by omega) (by omega)]
    linarith

/-- An unsigned count is a whole round too long where it is negative. -/
theorem unsigned_eq {n t : Int} (hlow : -n ≤ t) (hhigh : t < n) :
    t % n = t + n * (if t < 0 then 1 else 0) := by
  split
  · rw [← Int.add_emod_right, Int.emod_eq_of_lt (by omega) (by omega)]
    linarith
  · rw [Int.emod_eq_of_lt (by omega) hhigh]
    linarith

theorem reading_eq {o d : Int} (ho : 0 ≤ o) (ho' : o < 2 ^ w)
    (hlow : -2 ^ v ≤ (o + d) / 2 ^ w) (hhigh : (o + d) / 2 ^ w < 2 ^ v) :
    reading w v o d = d + 2 ^ w * ((if Carried w o d then 1 else 0) +
      2 ^ v * (if o + d < 0 then 1 else 0)) := by
  have hpos : (0 : Int) < 2 ^ w := by positivity
  have hneg : (o + d) / 2 ^ w < 0 ↔ o + d < 0 := by
    rw [← Int.not_le, ← Int.not_le, Int.ediv_nonneg_iff_of_pos hpos]
  rw [reading, position_eq hpos ho ho', unsigned_eq hlow hhigh]
  simp only [hneg, Carried]
  ring

theorem digit_eq_iff (p p' : Prop) [Decidable p] [Decidable p'] :
    (if p then (1 : Int) else 0) = (if p' then 1 else 0) ↔ (p ↔ p') := by
  by_cases hp : p <;> by_cases hp' : p' <;> simp [hp, hp']

/-- Two digits, both 0 or 1. -/
theorem digits_eq_iff {n : Int} (hn : 2 ≤ n) (p q p' q' : Prop) [Decidable p] [Decidable q]
    [Decidable p'] [Decidable q'] :
    (if p then 1 else 0) + n * (if q then 1 else 0) =
      (if p' then 1 else 0) + n * (if q' then 1 else 0) ↔ (p ↔ p') ∧ (q ↔ q') := by
  rw [← digit_eq_iff p p', ← digit_eq_iff q q']
  split_ifs <;> omega

/-- Two readings differ by the steps between them exactly where neither register has carried or
borrowed between them. -/
theorem reading_sub_iff (hv : 0 < v) {o d d' : Int} (ho : 0 ≤ o) (ho' : o < 2 ^ w)
    (hd : -2 ^ v ≤ (o + d) / 2 ^ w ∧ (o + d) / 2 ^ w < 2 ^ v)
    (hd' : -2 ^ v ≤ (o + d') / 2 ^ w ∧ (o + d') / 2 ^ w < 2 ^ v) :
    reading w v o d' - reading w v o d = d' - d ↔
      (Carried w o d ↔ Carried w o d') ∧ (o + d < 0 ↔ o + d' < 0) := by
  have hw : (0 : Int) < 2 ^ w := by positivity
  have hround : (2 : Int) ≤ 2 ^ v := by
    exact_mod_cast Nat.le_self_pow hv.ne' 2
  rw [reading_eq ho ho' hd.1 hd.2, reading_eq ho ho' hd'.1 hd'.2]
  have hcancel : ∀ e e' : Int, d' + 2 ^ w * e' - (d + 2 ^ w * e) = d' - d ↔ e = e' := by
    intro e e'
    constructor
    · intro h
      exact Int.eq_of_mul_eq_mul_left hw.ne' (by linarith)
    · rintro rfl
      ring
  rw [hcancel]
  exact digits_eq_iff hround _ _ _ _

/-! ### Runs -/

/-- Where no register has carried or borrowed since the odometer stood at `o`: the shaft is not
behind, and it has not gone on past the next zero, unless `o` is one. -/
def OnTurn (w : Nat) (o d : Int) : Prop := 0 ≤ d ∧ (o = 0 ∨ d < 2 ^ w - o)

theorem OnTurn.not_carried {o d : Int} (h : OnTurn w o d) (ho : 0 ≤ o) :
    ¬ Carried w o d ∧ ¬ o + d < 0 := by
  have hw : (0 : Int) < 2 ^ w := by positivity
  obtain ⟨hd, ho₀ | hlt⟩ := h
  · have hlow := Int.emod_nonneg (o + d) hw.ne'
    exact ⟨by unfold Carried; omega, by omega⟩
  · have hmod : (o + d) % 2 ^ w = o + d := Int.emod_eq_of_lt (by omega) (by omega)
    exact ⟨by unfold Carried; omega, by omega⟩

/-- A single step that carries and borrows nothing. -/
theorem OnTurn.step {o d d' : Int} (h : OnTurn w o d) (ho : 0 ≤ o)
    (hstep : d - 1 ≤ d' ∧ d' ≤ d + 1) (hc : ¬ Carried w o d') (hb : ¬ o + d' < 0) :
    OnTurn w o d' := by
  obtain ⟨hd, ho₀ | hlt⟩ := h
  · exact ⟨by omega, Or.inl ho₀⟩
  · unfold Carried at hc
    by_cases hend : o + d' = 2 ^ w
    · rw [hend, Int.emod_self] at hc
      exact ⟨by omega, Or.inl (by omega)⟩
    · rw [Int.emod_eq_of_lt (by omega) (by omega)] at hc
      exact ⟨by omega, Or.inr (by omega)⟩

section

variable {α : Type*} {count : α → Int} {as : List α} {o : Int}

/-- Over a run of single steps. -/
theorem onTurn_iff (hcount : ∀ a ∈ as, -1 ≤ count a ∧ count a ≤ 1) (ho : 0 ≤ o)
    (ho' : o < 2 ^ w) : (∀ done, done <+: as → OnTurn w o (done.map count).sum) ↔
      ∀ done, done <+: as → ¬ Carried w o (done.map count).sum ∧
        ¬ o + (done.map count).sum < 0 := by
  constructor
  · intro h done hdone
    exact (h done hdone).not_carried ho
  · intro h done
    induction done using List.reverseRecOn with
    | nil =>
      intro _
      exact ⟨Int.le_refl 0, Or.inr (by simpa using ho')⟩
    | append_singleton done a ih =>
      intro hdone
      have hbefore := ih ((List.prefix_append done [a]).trans hdone)
      have ha := hcount a (hdone.subset (by simp))
      obtain ⟨hc, hb⟩ := h _ hdone
      apply hbefore.step ho _ hc hb
      rw [List.map_append, List.sum_append, List.map_singleton, List.sum_singleton]
      omega

/-- The readings of a run differ by the steps taken, between any two points of it, exactly where
the shaft stays on the turn that it started on. -/
theorem readings_iff (hv : 0 < v) (hcount : ∀ a ∈ as, -1 ≤ count a ∧ count a ≤ 1) (ho : 0 ≤ o)
    (ho' : o < 2 ^ w) (hrange : ∀ done, done <+: as →
      -2 ^ v ≤ (o + (done.map count).sum) / 2 ^ w ∧ (o + (done.map count).sum) / 2 ^ w < 2 ^ v) :
    (∀ earlier later, earlier <+: as → later <+: as →
      reading w v o (later.map count).sum - reading w v o (earlier.map count).sum =
        (later.map count).sum - (earlier.map count).sum) ↔
      ∀ done, done <+: as → OnTurn w o (done.map count).sum := by
  have hsub : ∀ earlier later, earlier <+: as → later <+: as → _ :=
    fun earlier later he hl =>
      reading_sub_iff (w := w) hv ho ho' (hrange earlier he) (hrange later hl)
  rw [onTurn_iff hcount ho ho']
  constructor
  · intro h done hdone
    have hstart : ¬ Carried w o 0 ∧ ¬ o + 0 < 0 := by
      have hmod : o % 2 ^ w = o := Int.emod_eq_of_lt ho ho'
      simp [Carried, hmod, ho]
    obtain ⟨hc, hb⟩ := (hsub [] done List.nil_prefix hdone).mp (h [] done List.nil_prefix hdone)
    exact ⟨fun h => hstart.1 (hc.mpr h), fun h => hstart.2 (hb.mpr h)⟩
  · intro h earlier later he hl
    obtain ⟨hc, hb⟩ := h earlier he
    obtain ⟨hc', hb'⟩ := h later hl
    exact (hsub earlier later he hl).mpr ⟨iff_of_false hc hc', iff_of_false hb hb'⟩

end

end Odometer
