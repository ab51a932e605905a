import Mathlib.Data.List.Induction

/-! The value that a sequence of operations wrote last, and the states that keep it. -/

namespace Latest

variable {σ α β : Type*}

/-- The last of the values that `as` write, `init` where there is none. -/
def latest (write : α → Option β) (as : List α) (init : β) : β :=
  (as.filterMap write).getLastD init

theorem latest_cons (write : α → Option β) (a : α) (as : List α) (init : β) :
    latest write (a :: as) init = latest write as ((write a).getD init) := by
  unfold latest
  cases h : write a with
  | none => rw [List.filterMap_cons_none h, Option.getD_none]
  | some b => rw [List.filterMap_cons_some h, List.getLastD_cons, Option.getD_some]

theorem latest_append (write : α → Option β) (as bs : List α) (init : β) :
    latest write (as ++ bs) init = latest write bs (latest write as init) := by
  induction as generalizing init with
  | nil => rfl
  | cons a as ih => rw [List.cons_append, latest_cons, ih, latest_cons]

/-- Where nothing writes, the value stays. -/
theorem latest_of_forall_none {write : α → Option β} {as : List α} (h : ∀ a ∈ as, write a = none)
    (init : β) : latest write as init = init := by
  induction as generalizing init with
  | nil => rfl
  | cons a as ih =>
    rw [latest_cons, h a List.mem_cons_self, Option.getD_none]
    exact ih (fun b hb => h b (List.mem_cons_of_mem a hb)) init

/-- Where something writes, the latest value has what every written value has. -/
theorem latest_of_exists (P : β → Prop) {write : α → Option β} {as : List α}
    (h : ∀ a ∈ as, ∀ b, write a = some b → P b) (hex : ∃ a ∈ as, write a ≠ none) (init : β) :
    P (latest write as init) := by
  induction as using List.reverseRecOn with
  | nil => simp at hex
  | append_singleton as a ih =>
    rw [latest_append, latest_cons]
    cases ha : write a with
    | some b => exact h a (by simp) b ha
    | none =>
      apply ih
      · exact fun c hc => h c (List.mem_append_left _ hc)
      · obtain ⟨c, hc, hne⟩ := hex
        rcases List.mem_append.mp hc with hc | hc
        · exact ⟨c, hc, hne⟩
        · rw [List.mem_singleton.mp hc] at hne
          exact absurd ha hne

/-- A view that every step sets to what it writes, and otherwise leaves alone, shows the latest. -/
theorem view_foldl {f : σ → α → σ} (Inv : σ → Prop) (view : σ → β) {write : α → Option β}
    (hstep : ∀ s a, Inv s → Inv (f s a) ∧ view (f s a) = (write a).getD (view s)) (as : List α)
    {s : σ} (hs : Inv s) :
    Inv (as.foldl f s) ∧ view (as.foldl f s) = latest write as (view s) := by
  induction as generalizing s with
  | nil => exact ⟨hs, rfl⟩
  | cons a as ih =>
    obtain ⟨hinv, hview⟩ := hstep s a hs
    rw [latest_cons, ← hview]
    exact ih hinv

end Latest
