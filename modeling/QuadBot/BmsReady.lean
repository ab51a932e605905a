import QuadBot.BmsCore
import QuadBot.Lib.Clock
import Mathlib.Data.List.Pairwise

/-! The validity window after an RDY interrupt, over runs on a microsecond clock that `micros()`
reads modulo `2^32`. -/

namespace QuadBot

inductive BmsEvent
  | ready
  | check
  deriving DecidableEq

/-- The reading of the clock at an instant. -/
def micros (instant : Nat) : UInt32 := .ofNat instant

/-- What happens at an instant: an interrupt, or a call of `isBMSDataValid`, which changes
nothing. -/
def Bms.event {σ : Type} (s : Bms σ) : Nat × BmsEvent → Bms σ
  | (instant, .ready) => onBMSReadyRise (micros instant) s
  | (_, .check) => s

/-- The instant of the most recent interrupt. -/
def lastReady (events : List (Nat × BmsEvent)) : Option Nat :=
  (events.filter (·.2 = .ready)).getLast?.map Prod.fst

/-- Since the last interrupt the reading has passed a wrap of the clock exactly when the deadline
has; before the first, the reading is past the window. -/
def SameSideOfWrap (window now : Nat) : Option Nat → Prop
  | none => window ≤ now % 2 ^ 32
  | some r => r % 2 ^ 32 + (now - r) < 2 ^ 32 ↔ r % 2 ^ 32 + window < 2 ^ 32

instance (window now : Nat) : DecidablePred (SameSideOfWrap window now)
  | none => inferInstanceAs (Decidable (_ ≤ _))
  | some _ => inferInstanceAs (Decidable (_ ↔ _))

theorem lastReady_append (events : List (Nat × BmsEvent)) (event : Nat × BmsEvent) :
    lastReady (events ++ [event]) =
      if event.2 = .ready then some event.1 else lastReady events := by
  unfold lastReady
  rw [List.filter_append]
  by_cases h : event.2 = .ready <;> simp [h]

variable {σ : Type}

theorem timestamp_run (s : Bms σ) (hs : s.bmsDataTimestamp = 0) (events : List (Nat × BmsEvent)) :
    (events.foldl Bms.event s).bmsDataTimestamp = micros ((lastReady events).getD 0) := by
  induction events using List.reverseRecOn with
  | nil => exact hs
  | append_singleton events event ih =>
    rw [List.foldl_append, lastReady_append]
    obtain ⟨instant, kind⟩ := event
    cases kind with
    | ready => rfl
    | check => exact ih

theorem lastReady_le {events : List (Nat × BmsEvent)} {now r : Nat}
    (h : (events.map Prod.fst ++ [now]).Pairwise (· ≤ ·)) (hr : lastReady events = some r) :
    r ≤ now := by
  obtain ⟨event, hlast, rfl⟩ := Option.map_eq_some_iff.mp hr
  have hmem := (List.mem_filter.mp (List.mem_of_getLast? hlast)).1
  exact (List.pairwise_append.mp h).2.2 _ (List.mem_map_of_mem hmem) now (by simp)

/-- Comparing a reading with a deadline compares the two instants modulo `2^32`. -/
theorem isBMSDataValid_micros (cfg : Settings) (now r : Nat) (s : Bms σ)
    (hs : s.bmsDataTimestamp = micros r) : isBMSDataValid cfg (micros now) s = true ↔
      now % 2 ^ 32 < (r % 2 ^ 32 + cfg.validWindow.toNat) % 2 ^ 32 := by
  unfold isBMSDataValid
  rw [hs, decide_eq_true_iff, UInt32.lt_iff_toNat_lt, UInt32.toNat_add]
  simp [micros]

/-- In every run from power-on, and at every instant less than `2^32` after the last interrupt,
`isBMSDataValid` tells whether an interrupt has occurred and its window is open exactly when the
reading and the deadline are on the same side of the wrap. -/
theorem isBMSDataValid_iff (cfg : Settings) (wire1 : σ) {events : List (Nat × BmsEvent)}
    {now : Nat} (hsorted : (events.map Prod.fst ++ [now]).Pairwise (· ≤ ·))
    (helapsed : ∀ r, lastReady events = some r → now - r < 2 ^ 32) :
    ((isBMSDataValid cfg (micros now) (events.foldl Bms.event (bootBms wire1)) = true ↔
        ∃ r, lastReady events = some r ∧ now - r < cfg.validWindow.toNat) ↔
      SameSideOfWrap cfg.validWindow.toNat now (lastReady events)) := by
  have hW : cfg.validWindow.toNat < 2 ^ 32 := cfg.validWindow.toNat_lt
  rw [isBMSDataValid_micros cfg now _ _ (timestamp_run (bootBms wire1) rfl events)]
  cases hlast : lastReady events with
  | none =>
    simp only [Option.getD_none, SameSideOfWrap, reduceCtorEq, false_and, exists_false, iff_false]
    rw [Nat.zero_mod, Nat.zero_add, Nat.mod_eq_of_lt hW, not_lt]
  | some r =>
    have hle := lastReady_le hsorted hlast
    have hnow : now % 2 ^ 32 = (r % 2 ^ 32 + (now - r)) % 2 ^ 32 := by omega
    have hr : r % 2 ^ 32 < 2 ^ 32 := Nat.mod_lt _ (by decide)
    have hclock := Clock.reading_lt_deadline_iff hr (helapsed r hlast) hW
    simp only [Option.getD_some, SameSideOfWrap, Option.some.injEq, exists_eq_left']
    rw [hnow]
    exact hclock

theorem isBMSDataValid_after_second :
    (isBMSDataValid settings (micros 1500000)
        ([(1000000, .ready), (1200000, .check)].foldl Bms.event (bootBms ())) = true ↔
      ∃ r, lastReady [(1000000, .ready), (1200000, .check)] = some r ∧
        1500000 - r < settings.validWindow.toNat) := by
  have hsorted : ([(1000000, BmsEvent.ready), (1200000, .check)].map Prod.fst ++
      [1500000]).Pairwise (· ≤ ·) := by simp
  refine (isBMSDataValid_iff settings () hsorted ?_).mpr (by decide)
  intro r hr
  cases hr
  decide

/-- The interrupt comes 100 ms before the wrap, and the deadline has wrapped while the reading has
not: 1 ms after the interrupt the data count as expired. -/
theorem wrapped_deadline_expires :
    ¬ (isBMSDataValid settings (micros (2 ^ 32 - 99000))
        ([(2 ^ 32 - 100000, .ready)].foldl Bms.event (bootBms ())) = true ↔
      ∃ r, lastReady [(2 ^ 32 - 100000, .ready)] = some r ∧
        2 ^ 32 - 99000 - r < settings.validWindow.toNat) := by
  intro h
  have hvalid := h.mpr ⟨2 ^ 32 - 100000, rfl, by decide⟩
  revert hvalid
  decide

end QuadBot
