import Mathlib.Data.Stream.Init
import QuadBot.Lib.Latest

/-! A link that loses some of what is sent over it: a stream of outcomes tells which. The receiver
shows the last value that arrived. -/

namespace Lossy

open Latest

variable {α β : Type*}

/-- What is sent, each with whether it arrives. -/
def outcomes : List α → Stream' Bool → List (α × Bool)
  | [], _ => []
  | a :: as, oks => (a, oks.head) :: outcomes as oks.tail

theorem outcomes_append (as bs : List α) (oks : Stream' Bool) :
    outcomes (as ++ bs) oks = outcomes as oks ++ outcomes bs (oks.drop as.length) := by
  induction as generalizing oks with
  | nil => rfl
  | cons a as ih =>
    rw [List.cons_append, outcomes, ih]
    rfl

theorem outcomes_const (as : List α) :
    outcomes as (Stream'.const true) = as.map fun a => (a, true) := by
  induction as with
  | nil => rfl
  | cons a as ih =>
    rw [List.map_cons, ← ih]
    rfl

/-- The value that a message sets, where it arrives. -/
def arrived (write : α → Option β) : α × Bool → Option β
  | (a, true) => write a
  | (_, false) => none

@[simp] theorem arrived_mk (write : α → Option β) (a : α) (ok : Bool) :
    arrived write (a, ok) = if ok then write a else none := by
  cases ok <;> rfl

/-- What sets no value leaves the value as it is, arrived or not. -/
theorem latest_arrived_of_none {write : α → Option β} {as : List α} (h : ∀ a ∈ as, write a = none)
    (oks : Stream' Bool) (init : β) : latest (arrived write) (outcomes as oks) init = init := by
  induction as generalizing oks init with
  | nil => rfl
  | cons a as ih =>
    rw [outcomes, latest_cons, arrived_mk, h a List.mem_cons_self, ite_self, Option.getD_none]
    exact ih (fun b hb => h b (List.mem_cons_of_mem a hb)) oks.tail init

/-- A value that a single message sets is set where that message arrives. -/
theorem latest_arrived_of_unique {write : α → Option β} {as : List α} {i : Nat} {a : α} {b : β}
    (hi : as[i]? = some a) (ha : write a = some b)
    (hother : ∀ j c, as[j]? = some c → j ≠ i → write c = none) (oks : Stream' Bool) (init : β) :
    latest (arrived write) (outcomes as oks) init = if oks.get i then b else init := by
  induction as generalizing i oks init with
  | nil => cases hi
  | cons c as ih =>
    rw [outcomes, latest_cons, arrived_mk]
    cases i with
    | zero =>
      obtain rfl : c = a := Option.some.inj hi
      have hrest : ∀ d ∈ as, write d = none := by
        intro d hd
        obtain ⟨j, hj⟩ := List.mem_iff_getElem?.mp hd
        exact hother (j + 1) d hj (Nat.succ_ne_zero j)
      rw [latest_arrived_of_none hrest, ha]
      show Option.getD (if oks.head = true then some b else none) init =
        if oks.head = true then b else init
      split <;> rfl
    | succ i =>
      rw [hother 0 c rfl (Nat.succ_ne_zero i).symm, ite_self, Option.getD_none]
      apply ih hi
      intro j d hj hne
      exact hother (j + 1) d hj fun h => hne (Nat.succ_injective h)

/-- Where everything arrives, the last value that arrived is the last that was sent. -/
theorem latest_arrived (write : α → Option β) (as : List α) (init : β) :
    latest (arrived write) (outcomes as (Stream'.const true)) init = latest write as init := by
  rw [outcomes_const, latest, List.filterMap_map]
  rfl

end Lossy
