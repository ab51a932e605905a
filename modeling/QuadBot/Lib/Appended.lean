import Mathlib.Init

/-! Records that only grow: what stands in one and not yet in the other meets a condition. -/

/-- `ys` is `xs` with more at its end, all of it `P`. -/
def Appended {α : Type*} (P : α → Prop) (xs ys : List α) : Prop :=
  ∃ new, ys = xs ++ new ∧ ∀ x ∈ new, P x

namespace Appended

variable {α : Type*} {P Q : α → Prop} {xs ys zs : List α}

theorem refl (xs : List α) : Appended P xs xs := ⟨[], by simp, by simp⟩

theorem single {x : α} (h : P x) (xs : List α) : Appended P xs (xs ++ [x]) := by
  refine ⟨[x], rfl, ?_⟩
  intro y hy
  rwa [List.mem_singleton.mp hy]

theorem trans (hxy : Appended P xs ys) (hyz : Appended P ys zs) : Appended P xs zs := by
  obtain ⟨new, rfl, hnew⟩ := hxy
  obtain ⟨rest, rfl, hrest⟩ := hyz
  refine ⟨new ++ rest, List.append_assoc xs new rest, ?_⟩
  intro x hx
  rcases List.mem_append.mp hx with hx | hx
  · exact hnew x hx
  · exact hrest x hx

theorem mono (h : Appended P xs ys) (hPQ : ∀ x, P x → Q x) : Appended Q xs ys := by
  obtain ⟨new, rfl, hnew⟩ := h
  exact ⟨new, rfl, fun x hx => hPQ x (hnew x hx)⟩

end Appended
