import QuadBot.LoopNumbers

/-! Lines that the input buffer does not hold: what is left of one is carried out as the line it
is, which is another command where the cut goes through the last number. -/

namespace QuadBot

open Libc

/-- The C string that a line is. -/
def wholeLine (text : List Char) : List Char := text.takeWhile (· ≠ '\x00')

/-- What the buffer drops of it. -/
def lostPart (text : List Char) : List Char := (wholeLine text).drop 31

/-- The buffered line is a motor command to its last character, and what is lost goes on with digits
that change its last number. -/
def CutsNumber (line lost : List Char) : Prop :=
  ∃ (w : MotorWord) (rest : List Char), scanWord line = some (w.name.toList, rest) ∧
    (scanInts w.count rest).length = w.count ∧ scanRest w.count rest = [] ∧
    ∀ v ∈ (scanInts w.count rest).getLast?, Cut v lost

theorem bufferedLine_eq_take (text : List Char) :
    bufferedLine text = (wholeLine text).take 31 := List.take_takeWhile.symm

theorem wholeLine_eq (text : List Char) : wholeLine text = bufferedLine text ++ lostPart text := by
  rw [bufferedLine_eq_take, lostPart, List.take_append_drop]

theorem length_bufferedLine {text : List Char} (h : lostPart text ≠ []) :
    (bufferedLine text).length = 31 := by
  have hlen : 31 < (wholeLine text).length := by
    rw [lostPart, ne_eq, List.drop_eq_nil_iff] at h
    omega
  rw [bufferedLine_eq_take, List.length_take]
  omega

namespace MotorWord

theorem name_inj {w w' : MotorWord} (h : w.name.toList = w'.name.toList) : w = w' := by
  cases w <;> cases w' <;> first | rfl | exact absurd h (by decide)

theorem command_inj {w : MotorWord} {ints ints' : List Int} (h : ints.length = w.count)
    (h' : ints'.length = w.count) : w.command ints = w.command ints' ↔ ints = ints' := by
  cases w with
  | stop =>
    obtain ⟨a, b, rfl⟩ := List.length_eq_two.mp h
    obtain ⟨a', b', rfl⟩ := List.length_eq_two.mp h'
    simp [command]
  | move | defaultMove | setSpeeds =>
    obtain ⟨a, b, c, d, rfl⟩ := eq_four_of_length h
    obtain ⟨a', b', c', d', rfl⟩ := eq_four_of_length h'
    simp [command]

theorem exists_count (w : MotorWord) : ∃ k, w.count = k + 1 := by
  cases w <;> exact ⟨_, rfl⟩

end MotorWord

/-- A line with no motor word names an operation only if it is a single letter. -/
theorem op_of_no_motorWord {line word rest : List Char}
    (hword : scanWord line = some (word, rest)) (hne : ∀ w : MotorWord, word ≠ w.name.toList)
    (hlen : line.length ≠ 1) : (commandOf line).op = none := by
  have ha : line ≠ "a".toList := fun h => hlen (by rw [h]; rfl)
  have hb : line ≠ "b".toList := fun h => hlen (by rw [h]; rfl)
  have hc : line ≠ "c".toList := fun h => hlen (by rw [h]; rfl)
  have hd : line ≠ "d".toList := fun h => hlen (by rw [h]; rfl)
  rw [commandOf_other_word hword hne, letterCommand_op, if_neg ha, if_neg hb, if_neg hc, if_neg hd]

/-- A line that goes on is the same command, or none, unless a number is cut. -/
theorem commandOf_append_iff {line lost : List Char} (hlen : lost ≠ [] → line.length ≠ 1) :
    ((commandOf line).op = none ∨ commandOf line = commandOf (line ++ lost)) ↔
      ¬ CutsNumber line lost := by
  cases hword : scanWord line with
  | none =>
    apply iff_of_true
    · left
      rw [commandOf_op, lineOp, hword]
    · rintro ⟨w, rest, hscan, -⟩
      rw [hword] at hscan
      cases hscan
  | some r =>
    obtain ⟨word, rest⟩ := r
    by_cases hw : ∃ w : MotorWord, word = w.name.toList
    · obtain ⟨w, rfl⟩ := hw
      have hcuts : CutsNumber line lost ↔ (scanInts w.count rest).length = w.count ∧
          scanRest w.count rest = [] ∧ ∀ v ∈ (scanInts w.count rest).getLast?, Cut v lost := by
        constructor
        · rintro ⟨w', rest', hscan, hcut⟩
          obtain ⟨hname, rfl⟩ := Prod.mk.inj (Option.some.inj (hword.symm.trans hscan))
          obtain rfl := MotorWord.name_inj hname
          exact hcut
        · intro hcut
          exact ⟨w, rest, hword, hcut⟩
      rw [hcuts]
      by_cases hcount : (scanInts w.count rest).length = w.count
      · obtain ⟨k, hk⟩ := w.exists_count
        obtain ⟨op, hop, -⟩ := MotorWord.command_op_bytes hcount
        have hsome : (w.command (scanInts w.count rest)).op ≠ none := by
          rw [hop]
          exact Option.some_ne_none op
        have hrest : rest ≠ [] := by
          rintro rfl
          rw [hk] at hcount
          cases hcount
        have hlonger := length_scanInts_append hcount lost
        rw [commandOf_word hword, commandOf_word (scanWord_append hword hrest), or_iff_right hsome,
          MotorWord.command_inj hcount hlonger, and_iff_right hcount, eq_comm]
        rw [hk] at hcount ⊢
        exact scanInts_append_iff hcount lost
      · rw [commandOf_word hword, MotorWord.command_of_length_ne hcount]
        exact iff_of_true (Or.inl rfl) fun hcut => hcount hcut.1
    · have hne : ∀ w : MotorWord, word ≠ w.name.toList := fun w h => hw ⟨w, h⟩
      apply iff_of_true
      · by_cases hlost : lost = []
        · right
          rw [hlost, List.append_nil]
        · left
          exact op_of_no_motorWord hword hne (hlen hlost)
      · rintro ⟨w, rest', hscan, -⟩
        exact hne w (Prod.mk.inj (Option.some.inj (hword.symm.trans hscan))).1

/-- A line is carried out as the whole of it, or not at all, exactly where its first word fits in
`cmd` and the end of the buffer does not cut the last number of a command into another number. -/
theorem cut_line_iff (text : List Char) :
    ((∀ c ∈ text, isEol c = false) → ∀ (σ : Type) (bus : Bus σ) (fuel : Nat) (s : Loop σ)
      (eol : Char), s.inputPos = 0 → isEol eol = true →
      ∃ buffer, loop bus fuel (text ++ [eol]) s =
        (interpret (bufferedLine text) >>= fun command => command.run bus fuel s.motor).map
          fun motor => ⟨buffer, 0, motor⟩) ∧
    ((∃ command, interpret (bufferedLine text) = .ok command ∧
        (command.op = none ∨ command = commandOf (wholeLine text))) ↔
      (firstWord (bufferedLine text)).length < 16 ∧
        ¬ CutsNumber (bufferedLine text) (lostPart text)) := by
  constructor
  · intro htext σ bus fuel s eol hs heol
    exact loop_line bus fuel hs htext heol
  · have hlen : lostPart text ≠ [] → (bufferedLine text).length ≠ 1 := by
      intro hlost
      rw [length_bufferedLine hlost]
      decide
    rw [← commandOf_append_iff hlen, ← wholeLine_eq, interpret_eq]
    by_cases hfit : (firstWord (bufferedLine text)).length < 16
    · simp [hfit]
    · simp [hfit]

/-- The buffer loses the last digit of the address, and the stop goes to the address 9. -/
theorem cut_stop_other_address :
    ¬ ∃ command, interpret (bufferedLine "stop                        3 96".toList) = .ok command ∧
      (command.op = none ∨
        command = commandOf (wholeLine "stop                        3 96".toList)) := by
  have hcommand : interpret (bufferedLine "stop                        3 96".toList) =
      .ok (.stop 3 9) := rfl
  rintro ⟨command, hok, hsame⟩
  rw [hcommand] at hok
  cases hok
  rcases hsame with hnone | hsame
  · cases hnone
  · exact absurd hsame (by decide)

end QuadBot
