import QuadBot.Libc

/-! The conversions of `sscanf` on a string and on a longer one: a word or a number that ends before
the end of the string is stored alike, and a number that ends with it goes on with the digits that
follow. -/

namespace QuadBot.Libc

theorem dropWhile_append_of_ne_nil {p : Char → Bool} {s t : List Char} (h : s.dropWhile p ≠ []) :
    (s ++ t).dropWhile p = s.dropWhile p ++ t := by
  rw [List.dropWhile_append]
  simp [h]

theorem takeWhile_append_of_ne_nil {p : Char → Bool} {s t : List Char} (h : s.dropWhile p ≠ []) :
    (s ++ t).takeWhile p = s.takeWhile p := by
  rw [List.takeWhile_append, if_neg]
  intro hlen
  have hself : s.takeWhile p = s := (List.takeWhile_prefix p).eq_of_length hlen
  have happ := List.takeWhile_append_dropWhile (p := p) (l := s)
  rw [hself] at happ
  exact h (by simpa using happ)

theorem stripSign_append {s t : List Char} (h : s ≠ []) :
    stripSign (s ++ t) = ((stripSign s).1, (stripSign s).2 ++ t) := by
  obtain ⟨c, cs, rfl⟩ := List.exists_cons_of_ne_nil h
  by_cases hm : c = '-'
  · subst hm; rfl
  · by_cases hp : c = '+'
    · subst hp; rfl
    · simp [stripSign, hm, hp]

/-! ### One number -/

/-- The `long` of a numeral: its number, saturated. -/
def longOf (negative : Bool) (n : Nat) : Int :=
  max longMin (min longMax (if negative then -n else n))

/-- No digit stands at the head of the string. -/
def NoDigit (s : List Char) : Prop := ∀ c ∈ s.head?, isDigit 10 c = false

theorem NoDigit.append {s : List Char} (h : NoDigit s) (hne : s ≠ []) (t : List Char) :
    NoDigit (s ++ t) := by
  intro c hc
  rw [List.head?_append_of_ne_nil s hne] at hc
  exact h c hc

theorem noDigit_dropWhile (s : List Char) : NoDigit (s.dropWhile (isDigit 10)) := by
  intro c hc
  have hhead := List.head?_dropWhile_not (isDigit 10) s
  rw [Option.mem_def.mp hc] at hhead
  exact hhead

/-- After blanks the string is a numeral and then `rest`. -/
structure Scans (s : List Char) (negative : Bool) (digits rest : List Char) : Prop where
  strip : stripSign (s.dropWhile isSpace) = (negative, digits ++ rest)
  ne_nil : digits ≠ []
  digit : ∀ c ∈ digits, isDigit 10 c = true
  noDigit : NoDigit rest

theorem takeWhile_digits {digits rest : List Char} (h : ∀ c ∈ digits, isDigit 10 c = true)
    (hrest : NoDigit rest) : (digits ++ rest).takeWhile (isDigit 10) = digits ∧
      (digits ++ rest).dropWhile (isDigit 10) = rest := by
  rw [List.takeWhile_append_of_pos h, List.dropWhile_append_of_pos h]
  cases rest with
  | nil => simp
  | cons c rest =>
    have hc : ¬ isDigit 10 c = true := Bool.eq_false_iff.mp (hrest c rfl)
    rw [List.takeWhile_cons_of_neg hc, List.dropWhile_cons_of_neg hc, List.append_nil]
    exact ⟨rfl, rfl⟩

theorem Scans.scanInt {s digits rest : List Char} {negative : Bool}
    (h : Scans s negative digits rest) :
    scanInt s = some (longOf negative (digitsValue 10 digits), rest) := by
  obtain ⟨htake, hdrop⟩ := takeWhile_digits h.digit h.noDigit
  unfold Libc.scanInt strtol
  rw [h.strip]
  dsimp only
  rw [htake, hdrop, if_neg h.ne_nil]
  rfl

theorem exists_scans {s rest : List Char} {v : Int} (h : scanInt s = some (v, rest)) :
    ∃ negative digits, Scans s negative digits rest ∧
      v = longOf negative (digitsValue 10 digits) := by
  unfold scanInt at h
  dsimp only at h
  split at h
  · cases h
  · rename_i hdigits
    obtain ⟨rfl, rfl⟩ := Prod.mk.inj (Option.some.inj h)
    refine ⟨(stripSign (s.dropWhile isSpace)).1, _, ⟨?_, hdigits, ?_, noDigit_dropWhile _⟩, rfl⟩
    · rw [List.takeWhile_append_dropWhile]
    · intro c hc
      exact List.mem_takeWhile_imp hc

/-- The scan of a numeral goes on over the digits that follow it. -/
theorem Scans.append {s digits rest : List Char} {negative : Bool}
    (h : Scans s negative digits rest) (t : List Char) :
    (rest ≠ [] → Scans (s ++ t) negative digits (rest ++ t)) ∧
    (rest = [] → Scans (s ++ t) negative (digits ++ t.takeWhile (isDigit 10))
      (t.dropWhile (isDigit 10))) := by
  have hblank : s.dropWhile isSpace ≠ [] := by
    intro hnil
    have hstrip := h.strip
    rw [hnil] at hstrip
    exact h.ne_nil (List.append_eq_nil_iff.mp (Prod.mk.inj hstrip).2.symm).1
  have hstrip : stripSign ((s ++ t).dropWhile isSpace) = (negative, digits ++ rest ++ t) := by
    rw [dropWhile_append_of_ne_nil hblank, stripSign_append hblank, h.strip]
  constructor
  · intro hrest
    exact ⟨by rw [hstrip, List.append_assoc], h.ne_nil, h.digit, h.noDigit.append hrest t⟩
  · rintro rfl
    refine ⟨?_, ?_, ?_, noDigit_dropWhile t⟩
    · rw [hstrip, List.append_nil, List.append_assoc, List.takeWhile_append_dropWhile]
    · exact List.append_ne_nil_of_left_ne_nil h.ne_nil _
    · intro c hc
      rcases List.mem_append.mp hc with hc | hc
      · exact h.digit c hc
      · exact List.mem_takeWhile_imp hc

theorem scanInt_append {s rest : List Char} {v : Int} (h : scanInt s = some (v, rest))
    (hrest : rest ≠ []) (t : List Char) : scanInt (s ++ t) = some (v, rest ++ t) := by
  obtain ⟨negative, digits, hscans, rfl⟩ := exists_scans h
  exact ((hscans.append t).1 hrest).scanInt

/-! ### Numbers in a row -/

/-- What is left of the string after up to `n` conversions `%d`. -/
def scanRest : Nat → List Char → List Char
  | 0, s => s
  | n + 1, s =>
    match scanInt s with
    | none => s
    | some (_, rest) => scanRest n rest

theorem scanInts_succ {s rest : List Char} {v : Int} (h : scanInt s = some (v, rest)) (n : Nat) :
    scanInts (n + 1) s = v :: scanInts n rest ∧ scanRest (n + 1) s = scanRest n rest := by
  rw [scanInts, scanRest, h]
  exact ⟨rfl, rfl⟩

/-- Where `n + 1` conversions succeed, the first one does. -/
theorem exists_scanInt {n : Nat} {s : List Char} (h : (scanInts (n + 1) s).length = n + 1) :
    ∃ v rest, scanInt s = some (v, rest) ∧ (scanInts n rest).length = n := by
  cases hs : scanInt s with
  | none =>
    rw [scanInts, hs] at h
    cases h
  | some r =>
    obtain ⟨v, rest⟩ := r
    rw [(scanInts_succ hs n).1, List.length_cons] at h
    exact ⟨v, rest, rfl, Nat.succ.inj h⟩

theorem scanRest_nil (n : Nat) : scanRest n [] = [] := by
  cases n <;> rfl

theorem scanInts_take (k n : Nat) (s : List Char) :
    (scanInts (k + n) s).take k = scanInts k s := by
  induction k generalizing s with
  | zero => rfl
  | succ k ih =>
    rw [Nat.succ_add, scanInts, scanInts]
    cases scanInt s with
    | none => rfl
    | some r =>
      show r.1 :: (scanInts (k + n) r.2).take k = _
      rw [ih]

theorem scanInts_add {k : Nat} {s : List Char} (h : (scanInts k s).length = k) (n : Nat) :
    scanInts (k + n) s = scanInts k s ++ scanInts n (scanRest k s) := by
  induction k generalizing s with
  | zero => rw [Nat.zero_add]; rfl
  | succ k ih =>
    obtain ⟨v, rest, hs, hlen⟩ := exists_scanInt h
    rw [Nat.succ_add, (scanInts_succ hs (k + n)).1, (scanInts_succ hs k).1,
      (scanInts_succ hs k).2, ih hlen, List.cons_append]

/-- Numbers that end before the end of the string are scanned alike from a longer string. -/
theorem scanInts_append {k : Nat} {s : List Char} (h : (scanInts k s).length = k)
    (hrest : scanRest k s ≠ []) (t : List Char) :
    scanInts k (s ++ t) = scanInts k s ∧ scanRest k (s ++ t) = scanRest k s ++ t := by
  induction k generalizing s with
  | zero => exact ⟨rfl, rfl⟩
  | succ k ih =>
    obtain ⟨v, rest, hs, hlen⟩ := exists_scanInt h
    rw [(scanInts_succ hs k).2] at hrest
    have hne : rest ≠ [] := by
      rintro rfl
      exact hrest (scanRest_nil k)
    obtain ⟨hints, hscan⟩ := ih hlen hrest
    have hs' := scanInt_append hs hne t
    rw [(scanInts_succ hs' k).1, (scanInts_succ hs' k).2, (scanInts_succ hs k).1,
      (scanInts_succ hs k).2, hints, hscan]
    exact ⟨rfl, rfl⟩

theorem length_scanInts_append {k : Nat} {s : List Char} (h : (scanInts k s).length = k)
    (t : List Char) : (scanInts k (s ++ t)).length = k := by
  induction k generalizing s with
  | zero => rfl
  | succ k ih =>
    obtain ⟨v, rest, hs, hlen⟩ := exists_scanInt h
    by_cases hrest : rest = []
    · subst hrest
      obtain ⟨negative, digits, hscans, -⟩ := exists_scans hs
      have hlonger := ((hscans.append t).2 rfl).scanInt
      have hzero : k = 0 := by
        cases k with
        | zero => rfl
        | succ k => cases hlen
      subst hzero
      rw [(scanInts_succ hlonger 0).1]
      rfl
    · rw [(scanInts_succ (scanInt_append hs hrest t) k).1, List.length_cons, ih hlen]

/-! ### A number that ends with the string -/

/-- More digits leave a number alone where it is saturated, or is 0 and they are zeros. -/
theorem longOf_append_iff {negative : Bool} {digits more : List Char}
    (hmore : ∀ c ∈ more, isDigit 10 c = true) (hne : more ≠ []) {v : Int}
    (hv : v = longOf negative (digitsValue 10 digits)) :
    longOf negative (digitsValue 10 (digits ++ more)) = v ↔
      v = longMax ∨ v = longMin ∨ v = 0 ∧ ∀ c ∈ more, c = '0' := by
  have hpow : 10 ≤ 10 ^ more.length := Nat.le_self_pow (List.length_pos_iff.mpr hne).ne' 10
  have hmul := Nat.mul_le_mul_left (digitsValue 10 digits) hpow
  have hzero : digitsValue 10 digits = 0 →
      digitsValue 10 digits * 10 ^ more.length = 0 := by
    intro h
    rw [h, Nat.zero_mul]
  rw [digitsValue_append, ← digitsValue_eq_zero_iff hmore, hv]
  generalize digitsValue 10 digits * 10 ^ more.length = shifted at *
  unfold longOf longMax longMin
  cases negative <;> simp only [Bool.false_eq_true, if_true, if_false] <;> omega

/-- The digits at the head of `more` change the number. -/
def Cut (v : Int) (more : List Char) : Prop :=
  more.takeWhile (isDigit 10) ≠ [] ∧ v ≠ longMax ∧ v ≠ longMin ∧
    (v = 0 → ∃ c ∈ more.takeWhile (isDigit 10), c ≠ '0')

theorem scanRest_add {k : Nat} {s : List Char} (h : (scanInts k s).length = k) (n : Nat) :
    scanRest (k + n) s = scanRest n (scanRest k s) := by
  induction k generalizing s with
  | zero => rw [Nat.zero_add]; rfl
  | succ k ih =>
    obtain ⟨v, rest, hs, hlen⟩ := exists_scanInt h
    rw [Nat.succ_add, (scanInts_succ hs (k + n)).2, (scanInts_succ hs k).2, ih hlen]

/-- The last of the numbers, and where its scan starts. -/
theorem exists_last {k : Nat} {s : List Char} (h : (scanInts (k + 1) s).length = k + 1) :
    (scanInts k s).length = k ∧ ∃ v, scanInts (k + 1) s = scanInts k s ++ [v] ∧
      scanInt (scanRest k s) = some (v, scanRest (k + 1) s) := by
  have hlen : (scanInts k s).length = k := by
    rw [← scanInts_take k 1, List.length_take, h]
    omega
  have hadd := scanInts_add hlen 1
  have hone : (scanInts 1 (scanRest k s)).length = 1 := by
    rw [hadd, List.length_append] at h
    omega
  obtain ⟨v, rest, hs, -⟩ := exists_scanInt hone
  refine ⟨hlen, v, ?_, ?_⟩
  · rw [hadd, (scanInts_succ hs 0).1]
    rfl
  · rw [scanRest_add hlen 1, (scanInts_succ hs 0).2, hs]
    rfl

/-- Numbers are scanned alike from a longer string, unless the last one ends with the string and
goes on as another number. -/
theorem scanInts_append_iff {k : Nat} {s : List Char} (h : (scanInts (k + 1) s).length = k + 1)
    (t : List Char) : scanInts (k + 1) (s ++ t) = scanInts (k + 1) s ↔
      ¬ (scanRest (k + 1) s = [] ∧ ∀ v ∈ (scanInts (k + 1) s).getLast?, Cut v t) := by
  by_cases hrest : scanRest (k + 1) s = []
  · obtain ⟨hlen, v, hints, hlast⟩ := exists_last h
    rw [hrest] at hlast
    obtain ⟨negative, digits, hscans, hv⟩ := exists_scans hlast
    have hne : scanRest k s ≠ [] := by
      intro hnil
      rw [hnil] at hlast
      cases hlast
    obtain ⟨hints', hrest'⟩ := scanInts_append hlen hne t
    have hlonger := ((hscans.append t).2 rfl).scanInt
    rw [← hrest'] at hlonger
    have hadd : scanInts (k + 1) (s ++ t) = scanInts k s ++
        [longOf negative (digitsValue 10 (digits ++ t.takeWhile (isDigit 10)))] := by
      rw [scanInts_add (by rw [hints', hlen]) 1, (scanInts_succ hlonger 0).1, hints']
      rfl
    have hmore : ∀ c ∈ t.takeWhile (isDigit 10), isDigit 10 c = true :=
      fun c hc => List.mem_takeWhile_imp hc
    rw [hadd, hints, List.append_cancel_left_eq, List.singleton_inj, and_iff_right hrest,
      List.getLast?_concat]
    simp only [Option.mem_def, Option.some.injEq, forall_eq']
    by_cases hnone : t.takeWhile (isDigit 10) = []
    · rw [hnone, List.append_nil, ← hv]
      exact iff_of_true rfl fun hcut => hcut.1 hnone
    · rw [longOf_append_iff hmore hnone hv]
      rw [Cut, and_iff_right hnone, not_and_or, not_and_or, not_not, not_not, Classical.not_imp]
      simp only [ne_eq, not_exists, not_and, not_not]
  · rw [(scanInts_append h hrest t).1]
    exact iff_of_true rfl fun hcut => hrest hcut.1

/-! ### The word -/

/-- A word that ends before the end of a string is scanned alike from a longer string. -/
theorem scanWord_append {s word rest t : List Char} (h : scanWord s = some (word, rest))
    (hrest : rest ≠ []) : scanWord (s ++ t) = some (word, rest ++ t) := by
  unfold scanWord at h
  split at h
  · cases h
  · rename_i c cs hs
    simp only [Option.some.injEq, Prod.mk.injEq] at h
    obtain ⟨rfl, rfl⟩ := h
    have hblank : s.dropWhile isSpace ≠ [] := by simp [hs]
    unfold scanWord
    rw [dropWhile_append_of_ne_nil hblank, hs, List.cons_append]
    simp only
    rw [← List.cons_append, takeWhile_append_of_ne_nil hrest, dropWhile_append_of_ne_nil hrest]

end QuadBot.Libc
