import QuadBot.Loop
import Mathlib.Data.List.TakeWhile

/-! The interpreter by lines. Over any stream of characters `loop` does to the motors what the
stream's complete lines do one after the other, each cut at 31 characters and at its first NUL. -/

namespace QuadBot

open Libc

/-- What `loop` keeps of a line. -/
def bufferedLine (text : List Char) : List Char :=
  (text.take 31).takeWhile (· ≠ '\x00')

/-- The lines of a stream that a line end closes. -/
def completeLines (stream : List Char) : List (List Char) :=
  (stream.splitOnP isEol).dropLast

/-- The buffer holds `text`, the characters since the last line end. -/
structure Holds {σ : Type} (s : Loop σ) (text : List Char) : Prop where
  pos : s.inputPos = min text.length 31
  chars : s.inputBuffer.toList.take s.inputPos = text.take 31

/-- The leading word of a string. -/
def firstWord (s : List Char) : List Char := (s.dropWhile isSpace).takeWhile (! isSpace ·)

theorem firstWord_of_scanWord {line word rest : List Char}
    (h : scanWord line = some (word, rest)) : firstWord line = word := by
  unfold scanWord at h
  unfold firstWord
  split at h
  · cases h
  · rename_i c cs hs
    rw [hs]
    exact (Prod.mk.inj (Option.some.inj h)).1

theorem firstWord_of_none {line : List Char} (h : scanWord line = none) : firstWord line = [] := by
  unfold scanWord at h
  unfold firstWord
  split at h
  · rename_i hs
    rw [hs]
    rfl
  · cases h

theorem cmdBytes_le_iff (line : List Char) :
    cmdBytes line ≤ 16 ↔ (firstWord line).length < 16 := by
  unfold cmdBytes
  split
  · rename_i word rest h
    rw [firstWord_of_scanWord h]
    omega
  · rename_i h
    rw [firstWord_of_none h, List.length_nil]
    omega

theorem interpret_eq (line : List Char) : interpret line =
    if (firstWord line).length < 16 then .ok (commandOf line) else .error .cmd := by
  unfold interpret
  simp only [cmdBytes_le_iff]

theorem completeLines_append_cons {text : List Char} {eol : Char}
    (ht : ∀ c ∈ text, isEol c = false) (he : isEol eol = true) (rest : List Char) :
    completeLines (text ++ eol :: rest) = text :: completeLines rest := by
  unfold completeLines
  rw [List.splitOnP_append_cons_of_forall_mem ht eol he,
    List.dropLast_cons_of_ne_nil (List.splitOnP_ne_nil isEol rest)]

theorem completeLines_text {text : List Char} (ht : ∀ c ∈ text, isEol c = false) :
    completeLines text = [] := by
  rw [completeLines, List.splitOnP_eq_singleton ht]
  rfl

theorem noEol_append {text : List Char} {c : Char} (ht : ∀ d ∈ text, isEol d = false)
    (hc : isEol c = false) : ∀ d ∈ text ++ [c], isEol d = false := by
  intro d hd
  rcases List.mem_append.mp hd with hd | hd
  · exact ht d hd
  · rwa [List.mem_singleton.mp hd]

theorem holds_of_inputPos {σ : Type} {s : Loop σ} (h : s.inputPos = 0) : Holds s [] :=
  ⟨h, by simp [h]⟩

/-! ### One character -/

theorem store_ok {i : Nat} (h : i < 32) (buffer : Vector Char 32) (c : Char) :
    store buffer i c = .ok (buffer.set i c) := by
  simp [store, h]

theorem take_succ_set {i : Nat} (h : i < 32) (buffer : Vector Char 32) (c : Char) :
    (buffer.set i c).toList.take (i + 1) = buffer.toList.take i ++ [c] := by
  have hlen : buffer.toList.length = 32 := by simp
  rw [Vector.toList_set h, List.set_eq_take_append_cons_drop, if_pos (by omega)]
  simp [List.take_append, hlen, Nat.min_eq_left (Nat.le_of_lt h)]

/-- The C string in the buffer after the NUL is stored at `i`. -/
theorem cString_set {i : Nat} (h : i < 32) (buffer : Vector Char 32) :
    cString (buffer.set i '\x00') = (buffer.toList.take i).takeWhile (· ≠ '\x00') := by
  have hsplit := List.take_append_drop (i + 1) (buffer.set i '\x00').toList
  rw [take_succ_set h] at hsplit
  rw [cString, ← hsplit, List.append_assoc, List.takeWhile_append]
  split
  · rename_i hlen
    have hself := (List.takeWhile_prefix _).eq_of_length hlen
    rw [hself]
    simp
  · rfl

section

variable {σ : Type} (bus : Bus σ) (fuel : Nat)

/-- The effect of a complete line on the motors. -/
def runLine (motor : Motor σ) (text : List Char) : Except Stuck (Motor σ) := do
  let command ← interpret (bufferedLine text)
  command.run bus fuel motor

def runLines (lines : List (List Char)) (motor : Motor σ) : Except Stuck (Motor σ) :=
  lines.foldlM (runLine bus fuel) motor

variable {s : Loop σ} {text : List Char} {c : Char}

theorem loopChar_text (h : Holds s text) (hc : isEol c = false) :
    ∃ t, loopChar bus fuel s c = .ok t ∧ Holds t (text ++ [c]) ∧ t.motor = s.motor := by
  have hpos := h.pos
  unfold loopChar
  rw [if_neg (by simp [hc])]
  by_cases hlt : s.inputPos < 32 - 1
  · rw [if_pos hlt, store_ok (by omega)]
    refine ⟨_, rfl, ⟨?_, ?_⟩, rfl⟩
    · simp only [List.length_append, List.length_singleton]
      omega
    · have hlen : text.length < 31 := by omega
      show ((s.inputBuffer.set s.inputPos c).toList.take (s.inputPos + 1)) = _
      rw [take_succ_set (by omega), h.chars, List.take_of_length_le (by omega),
        List.take_of_length_le (by simp; omega)]
  · rw [if_neg hlt]
    refine ⟨s, rfl, ⟨?_, ?_⟩, rfl⟩
    · simp only [List.length_append, List.length_singleton]
      omega
    · rw [h.chars, List.take_append_of_le_length (by omega)]

/-- A line end runs the line and leaves the buffer empty. -/
theorem loopChar_eol (h : Holds s text) (hc : isEol c = true) : ∃ buffer,
    loopChar bus fuel s c =
      (runLine bus fuel s.motor text).map fun motor => ⟨buffer, 0, motor⟩ := by
  have hlt : s.inputPos < 32 := by
    have := h.pos
    omega
  refine ⟨(s.inputBuffer.set s.inputPos '\x00').set 0 '\x00', ?_⟩
  unfold loopChar runLine
  rw [if_pos hc, store_ok hlt]
  have hline : cString (s.inputBuffer.set s.inputPos '\x00') = bufferedLine text := by
    rw [cString_set hlt, h.chars]
    rfl
  show (interpret (cString (s.inputBuffer.set s.inputPos '\x00')) >>= _) = _
  rw [hline]
  cases interpret (bufferedLine text) with
  | error e => rfl
  | ok command =>
    show (command.run bus fuel s.motor >>= _) = (command.run bus fuel s.motor).map _
    cases command.run bus fuel s.motor with
    | error e => rfl
    | ok motor => rfl

/-! ### Lines and streams -/

theorem loop_append (stream rest : List Char) (s : Loop σ) :
    loop bus fuel (stream ++ rest) s = loop bus fuel stream s >>= loop bus fuel rest :=
  List.foldlM_append

theorem loop_cons (c : Char) (rest : List Char) (s : Loop σ) :
    loop bus fuel (c :: rest) s = loopChar bus fuel s c >>= loop bus fuel rest :=
  List.foldlM_cons

theorem loop_text {more : List Char} (h : Holds s text) (hm : ∀ c ∈ more, isEol c = false) :
    ∃ t, loop bus fuel more s = .ok t ∧ Holds t (text ++ more) ∧ t.motor = s.motor := by
  induction more generalizing s text with
  | nil => exact ⟨s, rfl, by rwa [List.append_nil], rfl⟩
  | cons c more ih =>
    obtain ⟨m, hstep, hm', hmotor⟩ :=
      loopChar_text bus fuel h (hm c List.mem_cons_self)
    obtain ⟨t, hrest, ht, hmotor'⟩ := ih hm' fun d hd => hm d (List.mem_cons_of_mem c hd)
    refine ⟨t, ?_, by simpa using ht, hmotor'.trans hmotor⟩
    rw [loop_cons, hstep]
    exact hrest

theorem loop_line {eol : Char} (h : s.inputPos = 0) (ht : ∀ c ∈ text, isEol c = false)
    (he : isEol eol = true) : ∃ buffer, loop bus fuel (text ++ [eol]) s =
      (runLine bus fuel s.motor text).map fun motor => ⟨buffer, 0, motor⟩ := by
  obtain ⟨t, hloop, hholds, hmotor⟩ := loop_text bus fuel (holds_of_inputPos h) ht
  obtain ⟨buffer, hstep⟩ := loopChar_eol bus fuel hholds he
  refine ⟨buffer, ?_⟩
  rw [loop_append, hloop, ← hmotor]
  show loop bus fuel [eol] t = _
  rw [loop_cons, hstep]
  simp only [List.nil_append]
  cases runLine bus fuel t.motor text <;> rfl

variable {bus fuel}

/-- Over any stream `loop` does to the motors what the complete lines do. -/
theorem loop_lines (stream : List Char) (h : Holds s text) (ht : ∀ c ∈ text, isEol c = false) :
    (loop bus fuel stream s).map (·.motor) =
      runLines bus fuel (completeLines (text ++ stream)) s.motor := by
  induction stream generalizing s text with
  | nil =>
    rw [List.append_nil, completeLines_text ht]
    rfl
  | cons c rest ih =>
    rw [loop_cons]
    cases hc : isEol c with
    | false =>
      obtain ⟨t, hstep, hholds, hmotor⟩ := loopChar_text bus fuel h hc
      have hrest := ih hholds (noEol_append ht hc)
      rw [hmotor, List.append_assoc] at hrest
      rw [hstep]
      exact hrest
    | true =>
      obtain ⟨buffer, hstep⟩ := loopChar_eol bus fuel h hc
      rw [hstep, completeLines_append_cons ht hc, runLines, List.foldlM_cons]
      cases runLine bus fuel s.motor text with
      | error e => rfl
      | ok motor => exact ih (s := ⟨buffer, 0, motor⟩) (holds_of_inputPos rfl) (by simp)

/-- The calls of `loop` together see the stream, however it is cut into chunks. -/
theorem loop_flatten (chunks : List (List Char)) (s : Loop σ) :
    chunks.foldlM (fun s available => loop bus fuel available s) s =
      loop bus fuel chunks.flatten s := by
  induction chunks generalizing s with
  | nil => rfl
  | cons chunk chunks ih =>
    rw [List.foldlM_cons, List.flatten_cons, loop_append]
    exact bind_congr ih

theorem startLoop_lines (chunks : List (List Char)) (motor : Motor σ) :
    (chunks.foldlM (fun s available => loop bus fuel available s) (startLoop motor)).map
      (·.motor) = runLines bus fuel (completeLines chunks.flatten) motor := by
  rw [loop_flatten, loop_lines _ (holds_of_inputPos rfl) (by simp)]
  rfl

theorem exists_startLoop {chunks : List (List Char)} {motor motor' : Motor σ}
    (h : runLines bus fuel (completeLines chunks.flatten) motor = .ok motor') :
    ∃ s, chunks.foldlM (fun s available => loop bus fuel available s) (startLoop motor) = .ok s ∧
      s.motor = motor' := by
  rw [← startLoop_lines] at h
  cases hloop : chunks.foldlM (fun s available => loop bus fuel available s)
      (startLoop motor) with
  | error e => rw [hloop] at h; cases h
  | ok s =>
    rw [hloop] at h
    exact ⟨s, rfl, Except.ok.inj h⟩

end

end QuadBot
