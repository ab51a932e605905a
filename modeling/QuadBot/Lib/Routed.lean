import Mathlib.Data.List.Basic

/-! Operations on a family of components, each of which acts on the one component that it names. A
component sees its own operations alone, in their order, and the rest of a run is nothing to it. -/

namespace Routed

variable {ι σ α : Type*} [DecidableEq ι]

/-- An operation acts on the component that `target` names, as `act` does, and on no other. -/
structure Routes (step : (ι → σ) → α → ι → σ) (target : α → Option ι) (act : σ → α → σ) : Prop where
  named : ∀ {s a i}, target a = some i → step s a i = act (s i) a
  frame : ∀ {s a i}, target a ≠ some i → step s a i = s i

/-- The operations that name a component. -/
def own (target : α → Option ι) (i : ι) (as : List α) : List α :=
  as.filter fun a => target a = some i

variable {step : (ι → σ) → α → ι → σ} {target : α → Option ι} {act : σ → α → σ}

theorem own_cons (i : ι) (a : α) (as : List α) : own target i (a :: as) =
    if target a = some i then a :: own target i as else own target i as := by
  simp [own, List.filter_cons]

theorem mem_own {i : ι} {a : α} {as : List α} :
    a ∈ own target i as ↔ a ∈ as ∧ target a = some i := by
  simp [own]

/-- After a run a component is as its own operations leave it. -/
theorem Routes.foldl_apply (h : Routes step target act) (as : List α) (s : ι → σ) (i : ι) :
    as.foldl step s i = (own target i as).foldl act (s i) := by
  induction as generalizing s with
  | nil => rfl
  | cons a as ih =>
    rw [List.foldl_cons, ih, own_cons]
    by_cases ha : target a = some i
    · rw [h.named ha, if_pos ha, List.foldl_cons]
    · rw [h.frame ha, if_neg ha]

end Routed
