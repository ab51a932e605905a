import Mathlib.Data.Option.Basic

/-! A selection register behind a software cache. The controller writes the register only when the
cached choice differs from the requested one, and a write may be lost. The cache is coherent when a
cached choice is the one the register holds. -/

namespace Selector

variable {κ ρ : Type*} [DecidableEq κ]

/-- The cached choice, if there is one, and the content of the register. -/
structure State (κ ρ : Type*) where
  cached : Option κ
  register : ρ

/-- Select `k`: nothing when `k` is cached, and otherwise a write of `encode k` that reaches the
register when `ok` holds. The cache takes `k` whether or not it does. -/
def select (encode : κ → ρ) (ok : Bool) (k : κ) (s : State κ ρ) : State κ ρ :=
  if s.cached = some k then s
  else { cached := some k, register := if ok then encode k else s.register }

/-- The cached choice is the one the register holds. -/
def Coherent (encode : κ → ρ) (s : State κ ρ) : Prop :=
  ∀ k, s.cached = some k → s.register = encode k

variable {encode : κ → ρ} {ok : Bool} {k : κ} {s : State κ ρ}

theorem select_cached : (select encode ok k s).cached = some k := by
  unfold select
  split
  · assumption
  · rfl

/-- From a coherent state, selecting `k` leaves a coherent state exactly when `k` was cached, the
write reached the register, or the register held the code of `k` already. -/
theorem coherent_select_iff (hs : Coherent encode s) :
    Coherent encode (select encode ok k s) ↔
      s.cached = some k ∨ ok = true ∨ s.register = encode k := by
  unfold select
  split
  · rename_i h
    exact ⟨fun _ => Or.inl h, fun _ => hs⟩
  · rename_i h
    cases ok
    · simp [Coherent, h]
    · simp [Coherent]

theorem select_register (h : Coherent encode (select encode ok k s)) :
    (select encode ok k s).register = encode k :=
  h k select_cached

/-- While no write is lost, selecting through a coherent cache leaves the register as a write on
every call would. -/
theorem select_register_ok (hs : Coherent encode s) :
    (select encode true k s).register = encode k :=
  select_register ((coherent_select_iff hs).mpr (Or.inr (Or.inl rfl)))

/-! ### Requests -/

/-- Serve a request: select a choice, or with `none` write `idle` and forget the cached choice. -/
def request (encode : κ → ρ) (idle : ρ) (ok : Bool) (s : State κ ρ) : Option κ → State κ ρ
  | some k => select encode ok k s
  | none => { cached := none, register := if ok then idle else s.register }

variable {idle : ρ} {r : Option κ}

/-- The controller writes the register only for a request that is not the cached choice. -/
def Writes (s : State κ ρ) (r : Option κ) : Prop := r = none ∨ r ≠ s.cached

instance (s : State κ ρ) (r : Option κ) : Decidable (Writes s r) :=
  inferInstanceAs (Decidable (_ ∨ _))

theorem request_of_not_writes (h : ¬ Writes s r) : request encode idle ok s r = s := by
  obtain ⟨hnone, hcached⟩ := not_or.mp h
  cases r with
  | none => exact absurd rfl hnone
  | some k => rw [request, select, if_pos (not_not.mp hcached).symm]

/-- A write that is not lost leaves a coherent state, whatever the state before. -/
theorem coherent_request (h : Writes s r) : Coherent encode (request encode idle true s r) := by
  cases r with
  | none =>
    intro k hk
    cases hk
  | some k =>
    have hne : s.cached ≠ some k := fun hc => h.elim nofun fun hne => hne hc.symm
    rw [request, select, if_neg hne]
    intro d hd
    obtain rfl : k = d := Option.some.inj hd
    rfl

/-- Once no write is lost any more, a run of requests ends in a coherent state exactly where it
starts in one or some request is not for the choice cached at its start. -/
theorem coherent_foldl_iff {rs : List (Option κ)} :
    Coherent encode (rs.foldl (request encode idle true) s) ↔
      Coherent encode s ∨ ∃ r ∈ rs, Writes s r := by
  induction rs generalizing s with
  | nil => simp
  | cons r rs ih =>
    rw [List.foldl_cons, ih]
    by_cases h : Writes s r
    · exact iff_of_true (Or.inl (coherent_request h)) (Or.inr ⟨r, List.mem_cons_self, h⟩)
    · rw [request_of_not_writes h]
      simp [h]

end Selector
