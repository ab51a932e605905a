import Mathlib.Logic.Function.Iterate

/-! Runs of a labelled transition relation: how they split, what holds of every run whose steps all
meet a guard, when a property of every state reached is equivalent to a guard on every step, and
refinement of a fold. -/

namespace Lts

variable {σ α : Type*}

/-- `Run step s as t`: taking the labels `as` in order leads from `s` to `t`. -/
inductive Run (step : σ → α → σ → Prop) : σ → List α → σ → Prop
  | nil (s : σ) : Run step s [] s
  | cons {s m t : σ} {a : α} {as : List α} :
      step s a m → Run step m as t → Run step s (a :: as) t

/-- Every step that a run over `as` from `s` can take meets the guard `ok` in the state where it
is taken. -/
def Guarded (step : σ → α → σ → Prop) (ok : σ → α → Prop) : σ → List α → Prop
  | _, [] => True
  | s, a :: as => ok s a ∧ ∀ m, step s a m → Guarded step ok m as

variable {step : σ → α → σ → Prop} {ok : σ → α → Prop}

@[simp] theorem run_nil {s t : σ} : Run step s [] t ↔ s = t :=
  ⟨fun h => by cases h; rfl, fun h => h ▸ Run.nil s⟩

@[simp] theorem run_cons {s t : σ} {a : α} {as : List α} :
    Run step s (a :: as) t ↔ ∃ m, step s a m ∧ Run step m as t :=
  ⟨fun h => by cases h with | cons hs hr => exact ⟨_, hs, hr⟩, fun ⟨_, hs, hr⟩ => .cons hs hr⟩

theorem run_append {s t : σ} {as bs : List α} :
    Run step s (as ++ bs) t ↔ ∃ m, Run step s as m ∧ Run step m bs t := by
  induction as generalizing s with
  | nil => simp
  | cons a as ih =>
    simp only [List.cons_append, run_cons, ih]
    constructor
    · rintro ⟨m, hs, n, h1, h2⟩
      exact ⟨n, ⟨m, hs, h1⟩, h2⟩
    · rintro ⟨n, ⟨m, hs, h1⟩, h2⟩
      exact ⟨m, hs, n, h1, h2⟩

theorem Guarded.append {s m : σ} {as bs : List α} (hg : Guarded step ok s (as ++ bs))
    (hr : Run step s as m) : Guarded step ok m bs := by
  induction hr with
  | nil s => exact hg
  | cons hs _ ih => exact ih (hg.2 _ hs)

theorem Guarded.of_append {s : σ} {as bs : List α} (hg : Guarded step ok s (as ++ bs)) :
    Guarded step ok s as := by
  induction as generalizing s with
  | nil => trivial
  | cons a as ih => exact ⟨hg.1, fun m hs => ih (hg.2 m hs)⟩

theorem Guarded.and_forall {good : α → Prop} {s : σ} {as : List α} (hg : Guarded step ok s as)
    (h : ∀ a ∈ as, good a) : Guarded step (fun s a => ok s a ∧ good a) s as := by
  induction as generalizing s with
  | nil => trivial
  | cons a as ih =>
    exact ⟨⟨hg.1, h a (by simp)⟩, fun m hm =>
      ih (hg.2 m hm) fun b hb => h b (List.mem_cons_of_mem a hb)⟩

theorem Guarded.and {ok' : σ → α → Prop} {s : σ} {as : List α} (hg : Guarded step ok s as)
    (hg' : Guarded step ok' s as) : Guarded step (fun s a => ok s a ∧ ok' s a) s as := by
  induction as generalizing s with
  | nil => trivial
  | cons a as ih => exact ⟨⟨hg.1, hg'.1⟩, fun m hm => ih (hg.2 m hm) (hg'.2 m hm)⟩

/-- A guard that follows from a property which steps preserve is met by every run. -/
theorem guarded_of_invariant (Inv : σ → Prop) {good : α → Prop}
    (hok : ∀ s a, Inv s → good a → ok s a)
    (hstep : ∀ s a t, Inv s → good a → step s a t → Inv t) {s : σ} {as : List α}
    (has : ∀ a ∈ as, good a) (hs : Inv s) : Guarded step ok s as := by
  induction as generalizing s with
  | nil => trivial
  | cons a as ih =>
    have hgood := has a List.mem_cons_self
    refine ⟨hok s a hs hgood, ?_⟩
    intro m hm
    apply ih
    · exact fun b hb => has b (List.mem_cons_of_mem a hb)
    · exact hstep s a m hs hgood hm

/-- Two guards that agree wherever a property holds have the same guarded runs, where steps that
meet the first guard preserve the property. -/
theorem guarded_iff (Inv : σ → Prop) {ok' : σ → α → Prop} {good : α → Prop}
    (hiff : ∀ s a, Inv s → good a → (ok s a ↔ ok' s a))
    (hstep : ∀ s a t, Inv s → good a → ok s a → step s a t → Inv t) {s : σ} {as : List α}
    (has : ∀ a ∈ as, good a) (hs : Inv s) :
    Guarded step ok s as ↔ Guarded step ok' s as := by
  induction as generalizing s with
  | nil => exact Iff.rfl
  | cons a as ih =>
    have hgood := has a List.mem_cons_self
    have hrest : ∀ b ∈ as, good b := fun b hb => has b (List.mem_cons_of_mem a hb)
    constructor
    · rintro ⟨hok, hnext⟩
      refine ⟨(hiff s a hs hgood).mp hok, ?_⟩
      intro m hm
      exact (ih hrest (hstep s a m hs hgood hok hm)).mp (hnext m hm)
    · rintro ⟨hok, hnext⟩
      have hok' := (hiff s a hs hgood).mpr hok
      refine ⟨hok', ?_⟩
      intro m hm
      exact (ih hrest (hstep s a m hs hgood hok' hm)).mpr (hnext m hm)

/-- The runs of a step function that can fail are its monadic folds. -/
theorem run_iff_foldlM {ε : Type*} {f : σ → α → Except ε σ} {s t : σ} {as : List α} :
    Run (fun s a t => f s a = .ok t) s as t ↔ as.foldlM f s = .ok t := by
  induction as generalizing s with
  | nil => simp [pure, Except.pure]
  | cons a as ih =>
    rw [run_cons, List.foldlM_cons]
    cases h : f s a with
    | error e => simp [bind, Except.bind]
    | ok m => simp [bind, Except.bind, ih]

/-- A property that guarded steps preserve holds at the end of every guarded run. -/
theorem Run.invariant (Inv : σ → Prop) (hstep : ∀ s a t, Inv s → ok s a → step s a t → Inv t)
    {s t : σ} {as : List α} (hr : Run step s as t) (hg : Guarded step ok s as) (hs : Inv s) :
    Inv t := by
  induction hr with
  | nil s => exact hs
  | cons h _ ih => exact ih (hg.2 _ h) (hstep _ _ _ hs hg.1 h)

/-- Where a guarded step can always be taken and preserves a property, a guarded run exists and
ends in a state with the property. -/
theorem exists_run (Inv : σ → Prop) (hstep : ∀ s a, Inv s → ok s a → ∃ t, step s a t ∧ Inv t)
    {s : σ} {as : List α} (hg : Guarded step ok s as) (hs : Inv s) :
    ∃ t, Run step s as t ∧ Inv t := by
  induction as generalizing s with
  | nil => exact ⟨s, .nil s, hs⟩
  | cons a as ih =>
    obtain ⟨m, hm, hi⟩ := hstep s a hs hg.1
    obtain ⟨t, hr, ht⟩ := ih (hg.2 m hm) hi
    exact ⟨t, .cons hm hr, ht⟩

/-- Where a step of a function preserves a property exactly when it meets the guard `ok`, the first
`n` steps keep the property exactly when all of them meet `ok`. The steps considered meet `fits`. -/
theorem forall_iterate_iff {f : σ → σ} (Inv : σ → Prop) {fits ok : σ → Prop}
    (hstep : ∀ s, Inv s → fits s → (Inv (f s) ↔ ok s)) {s : σ} (hs : Inv s) {n : Nat}
    (hf : ∀ k < n, fits (f^[k] s)) :
    (∀ k ≤ n, Inv (f^[k] s)) ↔ ∀ k < n, ok (f^[k] s) := by
  constructor
  · intro h k hk
    have hnext := h (k + 1) hk
    rw [Function.iterate_succ_apply'] at hnext
    exact (hstep _ (h k (Nat.le_of_lt hk)) (hf k hk)).mp hnext
  · intro h k hk
    induction k with
    | zero => exact hs
    | succ k ih =>
      rw [Function.iterate_succ_apply']
      exact (hstep _ (ih (Nat.le_of_lt hk)) (hf k hk)).mpr (h k hk)

/-- Where every step can be taken, preserves a property and acts on a view of the state as the
function `f` does, a run exists and acts on the view as the fold of `f`. -/
theorem exists_run_refining {β : Type*} (Inv : σ → Prop) (view : σ → β) (f : β → α → β)
    {good : α → Prop}
    (hstep : ∀ s a, Inv s → good a → ∃ t, step s a t ∧ Inv t ∧ view t = f (view s) a) {s : σ}
    {as : List α} (has : ∀ a ∈ as, good a) (hs : Inv s) :
    ∃ t, Run step s as t ∧ Inv t ∧ view t = as.foldl f (view s) := by
  induction as generalizing s with
  | nil => exact ⟨s, .nil s, hs, rfl⟩
  | cons a as ih =>
    obtain ⟨m, hm, hi, hv⟩ := hstep s a hs (has a (by simp))
    obtain ⟨t, hr, ht, hvt⟩ := ih (fun b hb => has b (List.mem_cons_of_mem a hb)) hi
    exact ⟨t, .cons hm hr, ht, by rw [hvt, hv, List.foldl_cons]⟩

end Lts
