import QuadBot.LoopOutcomes

/-! The motor operations that `loop` executes over a stream are those that its lines name, whatever
the chunks: each line stands for itself, and a CR before the LF adds nothing. -/

namespace QuadBot

open Libc

/-- The operation that a line names: its first word decides, and for some words the number of
integers that follow. -/
def lineOp (line : List Char) : Option MotorOp :=
  match scanWord line with
  | none => none
  | some (word, rest) =>
    if word = "move".toList then
      match scanInts 4 rest with
      | [muxChannel, chipAddress, speed, directionInt] =>
        some (.variableMotion (.ofInt muxChannel) (.ofInt chipAddress) (.ofInt speed)
          (directionInt ≠ 0))
      | _ => none
    else if word = "stop".toList then
      match scanInts 2 rest with
      | [muxChannel, chipAddress] => some (.stop (.ofInt muxChannel) (.ofInt chipAddress))
      | _ => none
    else if word = "defaultmove".toList then
      match scanInts 4 rest with
      | [muxChannel, chipAddress, speedLevel, directionInt] =>
        some (.defaultMotion (.ofInt muxChannel) (.ofInt chipAddress) (.ofInt speedLevel)
          (directionInt ≠ 0))
      | _ => none
    else if word = "setspeeds".toList then
      match scanInts 4 rest with
      | [muxChannel, chipAddress, speedOne, speedTwo] =>
        some (.setMotion (.ofInt muxChannel) (.ofInt chipAddress) (.ofInt speedOne)
          (.ofInt speedTwo))
      | _ => none
    else if line = "a".toList then some (.regControl 7 MOTOR_DRIVER_DEFAULT_ADDRESS false)
    else if line = "b".toList then some (.regControl 7 MOTOR_DRIVER_DEFAULT_ADDRESS true)
    else if line = "c".toList then some (.currentEstimate 7 MOTOR_DRIVER_DEFAULT_ADDRESS)
    else if line = "d".toList then some (.limitTriggers 7 MOTOR_DRIVER_DEFAULT_ADDRESS)
    else none

/-- The operations that the complete lines of a stream name, as far as the lines are buffered. -/
def lineOps (stream : List Char) : List MotorOp :=
  (completeLines stream).filterMap fun line => lineOp (bufferedLine line)

/-- The stream with CR LF in the place of each LF. -/
def crlf (stream : List Char) : List Char :=
  stream.flatMap fun c => if c = '\n' then ['\r', '\n'] else [c]

/-! ### The chain of scans -/

theorem scanned_none {line : List Char} (hword : scanWord line = none) (name : String) (n : Nat) :
    scanned name n line = none := by
  simp [scanned, sscanf, hword]

theorem scanned_of_ne {line word rest : List Char} (hword : scanWord line = some (word, rest))
    (name : String) (n : Nat) (hne : word ≠ name.toList) : scanned name n line = none := by
  simp [scanned, sscanf, hword, hne]

theorem scanned_self {name : String} {n : Nat} {line rest : List Char}
    (hword : scanWord line = some (name.toList, rest)) (hlen : (scanInts n rest).length = n) :
    scanned name n line = some (scanInts n rest) := by
  simp [scanned, sscanf, hword, hlen]

theorem scanned_short {name : String} {n : Nat} {line rest : List Char}
    (hword : scanWord line = some (name.toList, rest)) (hlen : (scanInts n rest).length ≠ n) :
    scanned name n line = none := by
  simp [scanned, sscanf, hword, hlen]

/-- The commands of one letter, which no scan takes. -/
def letterCommand (line : List Char) : Command :=
  if line = "abc".toList then .nothing
  else if line = "a".toList then .testA
  else if line = "b".toList then .testB
  else if line = "c".toList then .testC
  else if line = "d".toList then .testD
  else .nothing

theorem letterCommand_of_word {line word rest : List Char}
    (hword : scanWord line = some (word, rest)) (hlen : 1 < word.length) :
    letterCommand line = .nothing := by
  have hne : ∀ c : Char, scanWord [c] = some ([c], []) → line ≠ [c] := by
    rintro c hc rfl
    rw [hc] at hword
    cases hword
    simp at hlen
  have ha : line ≠ "a".toList := hne 'a' (by decide)
  have hb : line ≠ "b".toList := hne 'b' (by decide)
  have hc : line ≠ "c".toList := hne 'c' (by decide)
  have hd : line ≠ "d".toList := hne 'd' (by decide)
  unfold letterCommand
  simp only [ha, hb, hc, hd, if_false, ite_self]

theorem letterCommand_op (line : List Char) : (letterCommand line).op =
    if line = "a".toList then some (.regControl 7 MOTOR_DRIVER_DEFAULT_ADDRESS false)
    else if line = "b".toList then some (.regControl 7 MOTOR_DRIVER_DEFAULT_ADDRESS true)
    else if line = "c".toList then some (.currentEstimate 7 MOTOR_DRIVER_DEFAULT_ADDRESS)
    else if line = "d".toList then some (.limitTriggers 7 MOTOR_DRIVER_DEFAULT_ADDRESS)
    else none := by
  unfold letterCommand
  split
  · subst line
    decide
  · split_ifs <;> rfl

theorem commandOf_eq_letterCommand {line : List Char} (hmove : scanned "move" 4 line = none)
    (hstop : scanned "stop" 2 line = none) (hdefault : scanned "defaultmove" 4 line = none)
    (hspeeds : scanned "setspeeds" 4 line = none) : commandOf line = letterCommand line := by
  simp only [commandOf, hmove, hstop, hdefault, hspeeds]
  rfl

/-- The words that the scans look for. -/
inductive MotorWord
  | move
  | stop
  | defaultMove
  | setSpeeds
  deriving DecidableEq

namespace MotorWord

def name : MotorWord → String
  | move => "move"
  | stop => "stop"
  | defaultMove => "defaultmove"
  | setSpeeds => "setspeeds"

/-- How many integers must follow the word. -/
def count : MotorWord → Nat
  | stop => 2
  | move | defaultMove | setSpeeds => 4

def command : MotorWord → List Int → Command
  | move, [muxChannel, chipAddress, speed, directionInt] =>
    .move muxChannel chipAddress speed directionInt
  | stop, [muxChannel, chipAddress] => .stop muxChannel chipAddress
  | defaultMove, [muxChannel, chipAddress, speedLevel, directionInt] =>
    .defaultMove muxChannel chipAddress speedLevel directionInt
  | setSpeeds, [muxChannel, chipAddress, speedOne, speedTwo] =>
    .setSpeeds muxChannel chipAddress speedOne speedTwo
  | _, _ => .nothing

theorem command_of_length_ne {w : MotorWord} {ints : List Int} (h : ints.length ≠ w.count) :
    w.command ints = .nothing := by
  unfold command
  split
  · exact absurd rfl h
  · exact absurd rfl h
  · exact absurd rfl h
  · exact absurd rfl h
  · rfl

end MotorWord

theorem eq_four_of_length {α : Type} {l : List α} (h : l.length = 4) :
    ∃ a b c d, l = [a, b, c, d] := by
  match l, h with
  | [a, b, c, d], _ => exact ⟨a, b, c, d, rfl⟩

/-- On a line with the word `w`, a scan succeeds only for `w`, and only with all the integers. -/
theorem scanned_word {w : MotorWord} {line rest : List Char}
    (hword : scanWord line = some (w.name.toList, rest)) (v : MotorWord) :
    scanned v.name v.count line =
      if v = w ∧ (scanInts w.count rest).length = w.count then some (scanInts w.count rest)
      else none := by
  by_cases hv : v = w
  · subst hv
    by_cases hlen : (scanInts v.count rest).length = v.count
    · rw [if_pos ⟨rfl, hlen⟩, scanned_self hword hlen]
    · rw [if_neg (fun h => hlen h.2), scanned_short hword hlen]
  · rw [if_neg (fun h => hv h.1)]
    apply scanned_of_ne hword
    cases v <;> cases w <;> first | exact absurd rfl hv | decide

/-- A line with one of the words is that word's command. -/
theorem commandOf_word {w : MotorWord} {line rest : List Char}
    (hword : scanWord line = some (w.name.toList, rest)) :
    commandOf line = w.command (scanInts w.count rest) := by
  have hmove : scanned "move" 4 line = _ := scanned_word hword .move
  have hstop : scanned "stop" 2 line = _ := scanned_word hword .stop
  have hdefault : scanned "defaultmove" 4 line = _ := scanned_word hword .defaultMove
  have hspeeds : scanned "setspeeds" 4 line = _ := scanned_word hword .setSpeeds
  by_cases hlen : (scanInts w.count rest).length = w.count
  · simp only [hlen, and_true] at hmove hstop hdefault hspeeds
    cases w with
    | move =>
      obtain ⟨a, b, c, d, hints⟩ := eq_four_of_length hlen
      rw [commandOf, hmove, if_pos rfl, hints]
      rfl
    | stop =>
      obtain ⟨a, b, hints⟩ := List.length_eq_two.mp hlen
      rw [commandOf, hmove, hstop, if_neg (by decide), if_pos rfl, hints]
      rfl
    | defaultMove =>
      obtain ⟨a, b, c, d, hints⟩ := eq_four_of_length hlen
      rw [commandOf, hmove, hstop, hdefault, if_neg (by decide), if_neg (by decide), if_pos rfl,
        hints]
      rfl
    | setSpeeds =>
      obtain ⟨a, b, c, d, hints⟩ := eq_four_of_length hlen
      rw [commandOf, hmove, hstop, hdefault, hspeeds, if_neg (by decide), if_neg (by decide),
        if_neg (by decide), if_pos rfl, hints]
      rfl
  · simp only [hlen, and_false, if_false] at hmove hstop hdefault hspeeds
    have hlong : 1 < w.name.toList.length := by cases w <;> decide
    rw [commandOf_eq_letterCommand hmove hstop hdefault hspeeds, letterCommand_of_word hword hlong,
      MotorWord.command_of_length_ne hlen]

theorem commandOf_no_word {line : List Char} (hword : scanWord line = none) :
    commandOf line = letterCommand line :=
  commandOf_eq_letterCommand (scanned_none hword _ _) (scanned_none hword _ _)
    (scanned_none hword _ _) (scanned_none hword _ _)

theorem commandOf_other_word {line word rest : List Char}
    (hword : scanWord line = some (word, rest)) (hne : ∀ w : MotorWord, word ≠ w.name.toList) :
    commandOf line = letterCommand line :=
  commandOf_eq_letterCommand (scanned_of_ne hword _ _ (hne .move))
    (scanned_of_ne hword _ _ (hne .stop)) (scanned_of_ne hword _ _ (hne .defaultMove))
    (scanned_of_ne hword _ _ (hne .setSpeeds))

/-- The cases of the integers are those that `MotorWord.command` distinguishes. -/
theorem lineOp_word {w : MotorWord} {line rest : List Char}
    (hword : scanWord line = some (w.name.toList, rest)) :
    lineOp line = (w.command (scanInts w.count rest)).op := by
  unfold lineOp
  rw [hword]
  dsimp only
  cases w with
  | move =>
    rw [if_pos (by rfl), MotorWord.count]
    rcases scanInts 4 rest with _ | ⟨a, _ | ⟨b, _ | ⟨c, _ | ⟨d, _ | ⟨e, ints⟩⟩⟩⟩⟩ <;> rfl
  | stop =>
    rw [if_neg (by decide), if_pos (by rfl), MotorWord.count]
    rcases scanInts 2 rest with _ | ⟨a, _ | ⟨b, _ | ⟨c, ints⟩⟩⟩ <;> rfl
  | defaultMove =>
    rw [if_neg (by decide), if_neg (by decide), if_pos (by rfl), MotorWord.count]
    rcases scanInts 4 rest with _ | ⟨a, _ | ⟨b, _ | ⟨c, _ | ⟨d, _ | ⟨e, ints⟩⟩⟩⟩⟩ <;> rfl
  | setSpeeds =>
    rw [if_neg (by decide), if_neg (by decide), if_neg (by decide), if_pos (by rfl),
      MotorWord.count]
    rcases scanInts 4 rest with _ | ⟨a, _ | ⟨b, _ | ⟨c, _ | ⟨d, _ | ⟨e, ints⟩⟩⟩⟩⟩ <;> rfl

/-- The chain of scans finds the operation that the first word decides. -/
theorem commandOf_op (line : List Char) : (commandOf line).op = lineOp line := by
  cases hword : scanWord line with
  | none =>
    have hletter : letterCommand line = .nothing := by
      unfold letterCommand
      split_ifs with h1 h2 h3 h4 h5
      all_goals first
        | rfl
        | (subst line; exact absurd hword (by decide))
    rw [commandOf_no_word hword, hletter, lineOp, hword]
    rfl
  | some r =>
    obtain ⟨word, rest⟩ := r
    by_cases hw : ∃ w : MotorWord, word = w.name.toList
    · obtain ⟨w, rfl⟩ := hw
      rw [commandOf_word hword, lineOp_word hword]
    · have hne : ∀ w : MotorWord, word ≠ w.name.toList := fun w h => hw ⟨w, h⟩
      rw [commandOf_other_word hword hne, letterCommand_op, lineOp, hword]
      dsimp only
      have hmove : word ≠ "move".toList := hne .move
      have hstop : word ≠ "stop".toList := hne .stop
      have hdefault : word ≠ "defaultmove".toList := hne .defaultMove
      have hspeeds : word ≠ "setspeeds".toList := hne .setSpeeds
      rw [if_neg hmove, if_neg hstop, if_neg hdefault, if_neg hspeeds]

/-! ### The operations executed -/

/-- The operation that `loop` executes as it takes a character. -/
def Loop.executed {σ : Type} (s : Loop σ) (inChar : Char) : Option MotorOp :=
  if isEol inChar then
    match store s.inputBuffer s.inputPos '\x00' with
    | .ok inputBuffer => (commandOf (cString inputBuffer)).op
    | .error _ => none
  else none

/-- The interpreter with the operations that it has executed so far. -/
structure Recorded (σ : Type) where
  loop : Loop σ
  ops : List MotorOp

section

variable {σ : Type} (bus : Bus σ) (fuel : Nat)

def recordChar (r : Recorded σ) (inChar : Char) : Except Stuck (Recorded σ) := do
  let s ← loopChar bus fuel r.loop inChar
  return { loop := s, ops := r.ops ++ (r.loop.executed inChar).toList }

def recordLoop (available : List Char) (r : Recorded σ) : Except Stuck (Recorded σ) :=
  available.foldlM (recordChar bus fuel) r

/-- The record changes nothing of what `loop` does. -/
theorem recordLoop_loop (available : List Char) (r : Recorded σ) :
    (recordLoop bus fuel available r).map (·.loop) = loop bus fuel available r.loop := by
  induction available generalizing r with
  | nil => rfl
  | cons c rest ih =>
    rw [recordLoop, List.foldlM_cons, loop_cons]
    unfold recordChar
    cases loopChar bus fuel r.loop c with
    | error e => rfl
    | ok s => exact ih ⟨s, r.ops ++ (r.loop.executed c).toList⟩

def execAll (ops : List MotorOp) (s : Motor σ) : Except Stuck (Motor σ) :=
  ops.foldlM (fun s op => op.exec bus fuel s) s

/-- Every read among the operations is answered when its turn comes. -/
def ReadsAnswered : List MotorOp → Motor σ → Prop
  | [], _ => True
  | op :: ops, s =>
    (∀ m a r, op.target = some (m, a) → op.reads = some r → Answers bus m a r s) ∧
      ∀ t, op.exec bus fuel s = .ok t → ReadsAnswered ops t

theorem execAll_returns {ops : List MotorOp} {s : Motor σ} (h : ReadsAnswered bus fuel ops s) :
    ∃ t, execAll bus fuel ops s = .ok t := by
  induction ops generalizing s with
  | nil => exact ⟨s, rfl⟩
  | cons op ops ih =>
    obtain ⟨hreads, hrest⟩ := h
    rw [execAll, List.foldlM_cons]
    cases hexec : op.exec bus fuel s with
    | error e =>
      obtain ⟨-, m, a, r, htarget, hread, hn⟩ := (MotorOp.exec_error_iff ..).mp hexec
      exact absurd (hreads m a r htarget hread) hn
    | ok t => exact ih (hrest t hexec)

theorem executed_eol {s : Loop σ} {text : List Char} {c : Char} (h : Holds s text)
    (hc : isEol c = true) : s.executed c = lineOp (bufferedLine text) := by
  have hlt : s.inputPos < 32 := by
    have := h.pos
    omega
  have hline : cString (s.inputBuffer.set s.inputPos '\x00') = bufferedLine text := by
    rw [cString_set hlt, h.chars]
    rfl
  rw [Loop.executed, if_pos hc, store_ok hlt]
  show (commandOf (cString (s.inputBuffer.set s.inputPos '\x00'))).op = _
  rw [hline, commandOf_op]

theorem lineOps_append_cons {text : List Char} {eol : Char} (ht : ∀ c ∈ text, isEol c = false)
    (he : isEol eol = true) (rest : List Char) :
    lineOps (text ++ eol :: rest) = (lineOp (bufferedLine text)).toList ++ lineOps rest := by
  rw [lineOps, completeLines_append_cons ht he, List.filterMap_cons]
  cases lineOp (bufferedLine text) <;> rfl

/-- A line is its operation, if there is one. -/
theorem runLine_eq (motor : Motor σ) {text : List Char}
    (hfit : (firstWord (bufferedLine text)).length < 16) :
    runLine bus fuel motor text =
      execAll bus fuel (lineOp (bufferedLine text)).toList motor := by
  rw [runLine, interpret_eq, if_pos hfit]
  show Command.run bus fuel (commandOf (bufferedLine text)) motor = _
  rw [Command.run, commandOf_op]
  cases lineOp (bufferedLine text) with
  | none => rfl
  | some op =>
    show op.exec bus fuel motor = op.exec bus fuel motor >>= pure
    rw [bind_pure]

/-- A line end executes the operation of its line, if there is one. -/
theorem recordChar_eol {r : Recorded σ} {text : List Char} {c : Char} (h : Holds r.loop text)
    (hc : isEol c = true) (hfit : (firstWord (bufferedLine text)).length < 16) :
    ∃ buffer, recordChar bus fuel r c =
      (execAll bus fuel (lineOp (bufferedLine text)).toList r.loop.motor).map fun motor =>
        ⟨⟨buffer, 0, motor⟩, r.ops ++ (lineOp (bufferedLine text)).toList⟩ := by
  obtain ⟨buffer, hstep⟩ := loopChar_eol bus fuel h hc
  refine ⟨buffer, ?_⟩
  have hline := runLine_eq bus fuel r.loop.motor hfit
  rw [recordChar, hstep, executed_eol h hc, hline]
  cases execAll bus fuel (lineOp (bufferedLine text)).toList r.loop.motor <;> rfl

theorem recordChar_text {r : Recorded σ} {text : List Char} {c : Char} (h : Holds r.loop text)
    (hc : isEol c = false) : ∃ s, recordChar bus fuel r c = .ok ⟨s, r.ops⟩ ∧
      Holds s (text ++ [c]) ∧ s.motor = r.loop.motor := by
  obtain ⟨s, hstep, hholds, hmotor⟩ := loopChar_text bus fuel h hc
  refine ⟨s, ?_, hholds, hmotor⟩
  rw [recordChar, hstep, Loop.executed, if_neg (by simp [hc])]
  show Except.ok (⟨s, r.ops ++ []⟩ : Recorded σ) = _
  rw [List.append_nil]

/-- Over any stream the operations recorded are those of the complete lines, and the motors are as
these operations leave them. -/
theorem recordLoop_lines {r : Recorded σ} {text : List Char} (stream : List Char)
    (h : Holds r.loop text) (ht : ∀ c ∈ text, isEol c = false)
    (hwords : ∀ line ∈ completeLines (text ++ stream),
      (firstWord (bufferedLine line)).length < 16) :
    (recordLoop bus fuel stream r).map (fun r => (r.ops, r.loop.motor)) =
      (execAll bus fuel (lineOps (text ++ stream)) r.loop.motor).map fun motor =>
        (r.ops ++ lineOps (text ++ stream), motor) := by
  induction stream generalizing r text with
  | nil =>
    rw [List.append_nil, lineOps, completeLines_text ht, List.filterMap_nil, List.append_nil]
    rfl
  | cons c rest ih =>
    rw [recordLoop, List.foldlM_cons]
    cases hc : isEol c with
    | false =>
      obtain ⟨s, hstep, hholds, hmotor⟩ := recordChar_text bus fuel h hc
      have hsplit : text ++ c :: rest = text ++ [c] ++ rest := List.append_cons ..
      rw [hsplit] at hwords
      rw [hstep, hsplit, ← hmotor]
      exact ih hholds (noEol_append ht hc) hwords
    | true =>
      rw [completeLines_append_cons ht hc] at hwords
      obtain ⟨buffer, hstep⟩ := recordChar_eol bus fuel h hc (hwords text List.mem_cons_self)
      rw [hstep, lineOps_append_cons ht hc, execAll, execAll, List.foldlM_append]
      cases (lineOp (bufferedLine text)).toList.foldlM (fun s op => op.exec bus fuel s)
          r.loop.motor with
      | error e => rfl
      | ok motor =>
        rw [← List.append_assoc]
        apply ih (r := ⟨⟨buffer, 0, motor⟩, r.ops ++ (lineOp (bufferedLine text)).toList⟩)
          (holds_of_inputPos rfl) (by simp)
        intro line hline
        exact hwords line (List.mem_cons_of_mem text hline)

/-- The calls of `loop` on the chunks, with the operations that they execute. -/
def recordChunks (chunks : List (List Char)) (motor : Motor σ) : Except Stuck (Recorded σ) :=
  chunks.foldlM (fun r available => recordLoop bus fuel available r) ⟨startLoop motor, []⟩

theorem recordChunks_eq (chunks : List (List Char)) (motor : Motor σ) :
    recordChunks bus fuel chunks motor =
      recordLoop bus fuel chunks.flatten ⟨startLoop motor, []⟩ := by
  unfold recordChunks
  generalize (⟨startLoop motor, []⟩ : Recorded σ) = r
  induction chunks generalizing r with
  | nil => rfl
  | cons chunk chunks ih =>
    rw [List.foldlM_cons, List.flatten_cons, recordLoop, recordLoop, List.foldlM_append]
    exact bind_congr ih

end

/-! ### Line ends -/

theorem isEol_cr : isEol '\r' = true := rfl

theorem isEol_lf : isEol '\n' = true := rfl

theorem crlf_cons (c : Char) (rest : List Char) :
    crlf (c :: rest) = (if c = '\n' then ['\r', '\n'] else [c]) ++ crlf rest := List.flatMap_cons

theorem completeLines_cons {eol : Char} (he : isEol eol = true) (rest : List Char) :
    completeLines (eol :: rest) = [] :: completeLines rest :=
  @completeLines_append_cons [] eol (by simp) he rest

/-- CR LF only adds an empty line for each LF. -/
theorem crlf_lines {text : List Char} (ht : ∀ c ∈ text, isEol c = false) (stream : List Char) :
    (completeLines (text ++ crlf stream)).filter (· ≠ []) =
      (completeLines (text ++ stream)).filter (· ≠ []) := by
  induction stream generalizing text with
  | nil => rfl
  | cons c rest ih =>
    have hnil : (completeLines (crlf rest)).filter (· ≠ []) =
        (completeLines rest).filter (· ≠ []) := @ih [] (by simp)
    rw [crlf_cons]
    by_cases hlf : c = '\n'
    · subst hlf
      rw [if_pos rfl, completeLines_append_cons ht isEol_lf]
      show (completeLines (text ++ '\r' :: '\n' :: crlf rest)).filter _ = _
      rw [completeLines_append_cons ht isEol_cr, completeLines_cons isEol_lf, List.filter_cons,
        List.filter_cons, List.filter_cons, hnil]
      simp
    · rw [if_neg hlf, List.singleton_append]
      cases hc : isEol c with
      | true =>
        rw [completeLines_append_cons ht hc, completeLines_append_cons ht hc, List.filter_cons,
          List.filter_cons, hnil]
      | false =>
        rw [List.append_cons text c (crlf rest), List.append_cons text c rest]
        exact ih (noEol_append ht hc)

theorem lineOps_eq_of_filter {stream stream' : List Char}
    (h : (completeLines stream').filter (· ≠ []) = (completeLines stream).filter (· ≠ [])) :
    lineOps stream' = lineOps stream := by
  have hskip : ∀ lines : List (List Char),
      lines.filterMap (fun line => lineOp (bufferedLine line)) =
        (lines.filter (· ≠ [])).filterMap fun line => lineOp (bufferedLine line) := by
    intro lines
    rw [List.filterMap_filter]
    apply List.filterMap_congr
    intro line _
    cases line with
    | nil => rfl
    | cons c cs => rfl
  rw [lineOps, lineOps, hskip, h, ← hskip]

/-- What a run of `loop` executes is what its lines name, in their order, and nothing else, for
every way to cut the stream into chunks. With CR LF for LF it is the same. -/
theorem loop_executes_lines {σ : Type} (bus : Bus σ) (fuel : Nat) (motor : Motor σ)
    (chunks : List (List Char))
    (hwords : ∀ line ∈ completeLines chunks.flatten, (firstWord (bufferedLine line)).length < 16) :
    (recordChunks bus fuel chunks motor).map (·.loop) =
      chunks.foldlM (fun s available => loop bus fuel available s) (startLoop motor) ∧
    (recordChunks bus fuel chunks motor).map (fun r => (r.ops, r.loop.motor)) =
      (execAll bus fuel (lineOps chunks.flatten) motor).map
        (fun motor' => (lineOps chunks.flatten, motor')) ∧
    (ReadsAnswered bus fuel (lineOps chunks.flatten) motor →
      ∃ r, recordChunks bus fuel chunks motor = .ok r ∧ r.ops = lineOps chunks.flatten ∧
        execAll bus fuel (lineOps chunks.flatten) motor = .ok r.loop.motor) ∧
    ∀ chunks' : List (List Char), chunks'.flatten = crlf chunks.flatten →
      (recordChunks bus fuel chunks' motor).map (fun r => (r.ops, r.loop.motor)) =
        (recordChunks bus fuel chunks motor).map (fun r => (r.ops, r.loop.motor)) := by
  have hlines : ∀ chunks : List (List Char),
      (∀ line ∈ completeLines chunks.flatten, (firstWord (bufferedLine line)).length < 16) →
      (recordChunks bus fuel chunks motor).map (fun r => (r.ops, r.loop.motor)) =
        (execAll bus fuel (lineOps chunks.flatten) motor).map
          (fun motor' => (lineOps chunks.flatten, motor')) := by
    intro chunks hwords
    rw [recordChunks_eq]
    exact recordLoop_lines bus fuel (r := ⟨startLoop motor, []⟩) chunks.flatten
      (holds_of_inputPos rfl) (by simp) hwords
  refine ⟨?_, hlines chunks hwords, ?_, ?_⟩
  · rw [recordChunks_eq, loop_flatten]
    exact recordLoop_loop bus fuel chunks.flatten ⟨startLoop motor, []⟩
  · intro hreads
    obtain ⟨motor', hexec⟩ := execAll_returns bus fuel hreads
    have hrun := hlines chunks hwords
    rw [hexec] at hrun ⊢
    cases hr : recordChunks bus fuel chunks motor with
    | error e => rw [hr] at hrun; cases hrun
    | ok r =>
      rw [hr] at hrun
      obtain ⟨hops, hmotor⟩ := Prod.mk.inj (Except.ok.inj hrun)
      exact ⟨r, rfl, hops, by rw [hmotor]⟩
  · intro chunks' hcrlf
    have hfilter : (completeLines chunks'.flatten).filter (· ≠ []) =
        (completeLines chunks.flatten).filter (· ≠ []) := by
      rw [hcrlf]
      exact @crlf_lines [] (by simp) chunks.flatten
    have hwords' : ∀ line ∈ completeLines chunks'.flatten,
        (firstWord (bufferedLine line)).length < 16 := by
      intro line hline
      by_cases hnil : line = []
      · rw [hnil]
        decide
      · have hmem : line ∈ (completeLines chunks'.flatten).filter (· ≠ []) := by
          simp [hline, hnil]
        rw [hfilter] at hmem
        exact hwords line (List.mem_of_mem_filter hmem)
    rw [hlines chunks' hwords', hlines chunks hwords, lineOps_eq_of_filter hfilter]

theorem readyBus_answered (ops : List MotorOp) (motor : Motor Unit) :
    ReadsAnswered readyBus 0 ops motor := by
  induction ops generalizing motor with
  | nil => trivial
  | cons op ops ih =>
    constructor
    · intro m a r _ _
      simp [Answers, requested, readyBus]
    · intro t _
      exact ih t

theorem loop_executes_lines_split :
    ∃ r, recordChunks readyBus 0 ["st".toList, "op 3 96 x\nc\r\n".toList] ⟨-1, (), []⟩ = .ok r ∧
      r.ops = [.stop 3 96, .currentEstimate 7 0x60] := by
  obtain ⟨-, -, hrun, -⟩ := loop_executes_lines readyBus 0 ⟨-1, (), []⟩
    ["st".toList, "op 3 96 x\nc\r\n".toList] (by decide)
  obtain ⟨r, hr, hops, -⟩ := hrun (readyBus_answered _ _)
  refine ⟨r, hr, ?_⟩
  rw [hops]
  decide

end QuadBot
