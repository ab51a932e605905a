import QuadBot.LoopLines
import QuadBot.MotorBus

/-! How the interpreter can go wrong: when it stays within its arrays, and when it finishes a line
and goes on to the next. -/

namespace QuadBot

open Libc

/-! ### The array bounds -/

section

variable {σ : Type} {bus : Bus σ} {fuel : Nat}

theorem run_error_iff {command : Command} {motor : Motor σ} {e : Stuck} :
    command.run bus fuel motor = .error e ↔ e = .waiting ∧ ∃ op m a r, command.op = some op ∧
      op.target = some (m, a) ∧ op.reads = some r ∧ ¬ Answers bus m a r motor := by
  unfold Command.run
  cases command.op with
  | none => simp
  | some op => simp [MotorOp.exec_error_iff]

theorem runLines_error {lines : List (List Char)} {motor : Motor σ} {e : Stuck}
    (h : runLines bus fuel lines motor = .error e) :
    e = .waiting ∨ e = .cmd ∧ ∃ line ∈ lines, 16 ≤ (firstWord (bufferedLine line)).length := by
  induction lines generalizing motor with
  | nil => cases h
  | cons line lines ih =>
    rw [runLines, List.foldlM_cons, runLine, interpret_eq] at h
    by_cases hfit : (firstWord (bufferedLine line)).length < 16
    · rw [if_pos hfit] at h
      change (Command.run bus fuel _ motor >>= runLines bus fuel lines) = _ at h
      cases hrun : Command.run bus fuel (commandOf (bufferedLine line)) motor with
      | error e' =>
        rw [hrun] at h
        cases h
        exact Or.inl (run_error_iff.mp hrun).1
      | ok motor' =>
        rw [hrun] at h
        rcases ih h with hw | ⟨hcmd, line', hmem, hlong⟩
        · exact Or.inl hw
        · exact Or.inr ⟨hcmd, line', List.mem_cons_of_mem line hmem, hlong⟩
    · rw [if_neg hfit] at h
      cases h
      exact Or.inr ⟨rfl, line, List.mem_cons_self, not_lt.mp hfit⟩

end

/-- A bus on which every transaction is acknowledged and every byte received is 0. -/
def readyBus : Bus Unit where
  endTransmission _ _ _ := (true, ())
  requestFrom _ _ count := (List.replicate count 0, ())

theorem readyBus_run (command : Command) (motor : Motor Unit) :
    ∃ motor', command.run readyBus 0 motor = .ok motor' := by
  cases h : command.run readyBus 0 motor with
  | ok motor' => exact ⟨motor', rfl⟩
  | error e =>
    obtain ⟨-, op, m, a, r, -, -, -, hn⟩ := run_error_iff.mp h
    exact absurd (by simp [Answers, requested, readyBus]) hn

/-- Where every command returns, a line with a long first word is reached. -/
theorem readyBus_runLines {lines : List (List Char)} (motor : Motor Unit)
    (h : ∃ line ∈ lines, 16 ≤ (firstWord (bufferedLine line)).length) :
    runLines readyBus 0 lines motor = .error .cmd := by
  induction lines generalizing motor with
  | nil => simp at h
  | cons line lines ih =>
    rw [runLines, List.foldlM_cons, runLine, interpret_eq]
    by_cases hfit : (firstWord (bufferedLine line)).length < 16
    · rw [if_pos hfit]
      obtain ⟨motor', hrun⟩ := readyBus_run (commandOf (bufferedLine line)) motor
      change (Command.run readyBus 0 _ motor >>= runLines readyBus 0 lines) = _
      rw [hrun]
      apply ih motor'
      obtain ⟨line', hmem, hlong⟩ := h
      rcases List.mem_cons.mp hmem with rfl | hmem
      · omega
      · exact ⟨line', hmem, hlong⟩
    · rw [if_neg hfit]
      rfl

/-- The calls of `loop` on the chunks write past the end of neither array, on any bus and from any
state of the motors. -/
def InBounds (chunks : List (List Char)) : Prop :=
  ∀ (σ : Type) (bus : Bus σ) (fuel : Nat) (motor : Motor σ),
    chunks.foldlM (fun s available => loop bus fuel available s) (startLoop motor) ≠
        .error .inputBuffer ∧
      chunks.foldlM (fun s available => loop bus fuel available s) (startLoop motor) ≠ .error .cmd

theorem map_error_iff {α β : Type} (f : α → β) (x : Except Stuck α) (e : Stuck) :
    x.map f = .error e ↔ x = .error e := by
  cases x <;> simp [Except.map]

/-- `loop` stays within `inputBuffer` on every stream, and within `cmd` exactly on the streams
whose complete lines, as far as they are buffered, start with a word of at most 15 characters. -/
theorem loop_inBounds_iff (chunks : List (List Char)) :
    (∀ (σ : Type) (bus : Bus σ) (fuel : Nat) (motor : Motor σ),
      chunks.foldlM (fun s available => loop bus fuel available s) (startLoop motor) ≠
        .error .inputBuffer) ∧
    (InBounds chunks ↔ ∀ line ∈ completeLines chunks.flatten,
      (firstWord (bufferedLine line)).length < 16) := by
  have hbuffer : ∀ (σ : Type) (bus : Bus σ) (fuel : Nat) (motor : Motor σ),
      chunks.foldlM (fun s available => loop bus fuel available s) (startLoop motor) ≠
        .error .inputBuffer := by
    intro σ bus fuel motor h
    rw [← map_error_iff (·.motor), startLoop_lines] at h
    rcases runLines_error h with hw | ⟨hc, -⟩
    · cases hw
    · cases hc
  refine ⟨hbuffer, ?_, ?_⟩
  · intro h line hline
    by_contra hlong
    have hcmd := (h Unit readyBus 0 ⟨-1, (), []⟩).2
    rw [ne_eq, ← map_error_iff (·.motor), startLoop_lines] at hcmd
    exact hcmd (readyBus_runLines _ ⟨line, hline, not_lt.mp hlong⟩)
  · intro h σ bus fuel motor
    refine ⟨hbuffer σ bus fuel motor, ?_⟩
    intro hcmd
    rw [← map_error_iff (·.motor), startLoop_lines] at hcmd
    rcases runLines_error hcmd with hw | ⟨-, line, hline, hlong⟩
    · cases hw
    · have := h line hline
      omega

theorem sixteen_chars_overflow_cmd : ¬ InBounds ["xxxxxxxxxxxxxxxx\n".toList] := by
  intro h
  have hcmd := (h Unit readyBus 0 ⟨-1, (), []⟩).2
  rw [ne_eq, ← map_error_iff (·.motor), startLoop_lines] at hcmd
  exact hcmd (readyBus_runLines _ ⟨"xxxxxxxxxxxxxxxx".toList, by decide, by decide⟩)

/-! ### Finishing a line -/

section

variable {σ : Type} (bus : Bus σ)

theorem run_returns_iff (command : Command) (motor : Motor σ) :
    (∃ fuel motor', command.run bus fuel motor = .ok motor') ↔
      (command = .testC → Answers bus 7 MOTOR_DRIVER_DEFAULT_ADDRESS 0x01 motor) ∧
      (command = .testD → Answers bus 7 MOTOR_DRIVER_DEFAULT_ADDRESS 0x00 motor) := by
  cases command <;>
    simp [Command.run, Command.op, MotorOp.exec_returns_iff, MotorOp.target, MotorOp.reads]

theorem exists_map_ok_iff {α β : Type} (f : α → β) (x : Except Stuck α) :
    (∃ y, x.map f = .ok y) ↔ ∃ y, x = .ok y := by
  cases x <;> simp [Except.map]

theorem readLimitTriggers_returns_iff (m a : UInt8) (motor : Motor σ) :
    (∃ fuel r, readLimitTriggers bus fuel m a motor = .ok r) ↔ Answers bus m a 0x00 motor := by
  have h := MotorOp.exec_returns_iff bus (.limitTriggers m a) motor
  simp only [MotorOp.exec, exists_map_ok_iff] at h
  rw [h]
  simp [MotorOp.target, MotorOp.reads]

theorem readCurrentEstimate_returns_iff (m a : UInt8) (motor : Motor σ) :
    (∃ fuel r, readCurrentEstimate bus fuel m a motor = .ok r) ↔ Answers bus m a 0x01 motor := by
  have h := MotorOp.exec_returns_iff bus (.currentEstimate m a) motor
  simp only [MotorOp.exec, exists_map_ok_iff] at h
  rw [h]
  simp [MotorOp.target, MotorOp.reads]

/-- From an empty buffer, whatever the bus does, `loop` finishes a line and is ready for the next
exactly when the line is neither a test C nor a test D that the driver does not answer, and its
first word fits in `cmd`. The two reading commands return exactly when the driver answers. -/
theorem loop_finishes_iff {s : Loop σ} (hs : s.inputPos = 0) {line : List Char} {eol : Char}
    (hline : ∀ c ∈ line, isEol c = false) (heol : isEol eol = true) :
    ((∃ fuel t, loop bus fuel (line ++ [eol]) s = .ok t ∧ t.inputPos = 0) ↔
      (firstWord (bufferedLine line)).length < 16 ∧
      (bufferedLine line = "c".toList →
        Answers bus 7 MOTOR_DRIVER_DEFAULT_ADDRESS 0x01 s.motor) ∧
      (bufferedLine line = "d".toList →
        Answers bus 7 MOTOR_DRIVER_DEFAULT_ADDRESS 0x00 s.motor)) ∧
    ∀ m a motor,
      ((∃ fuel r, readLimitTriggers bus fuel m a motor = .ok r) ↔ Answers bus m a 0x00 motor) ∧
      ((∃ fuel r, readCurrentEstimate bus fuel m a motor = .ok r) ↔
        Answers bus m a 0x01 motor) := by
  refine ⟨?_, fun m a motor => ⟨readLimitTriggers_returns_iff bus m a motor,
    readCurrentEstimate_returns_iff bus m a motor⟩⟩
  have hrun : (∃ fuel t, loop bus fuel (line ++ [eol]) s = .ok t ∧ t.inputPos = 0) ↔
      ∃ fuel motor, runLine bus fuel s.motor line = .ok motor := by
    apply exists_congr
    intro fuel
    obtain ⟨buffer, hloop⟩ := loop_line bus fuel hs hline heol
    rw [hloop]
    cases runLine bus fuel s.motor line <;> simp [Except.map]
  rw [hrun, ← commandOf_eq_testC, ← commandOf_eq_testD, ← run_returns_iff]
  simp only [runLine, interpret_eq]
  by_cases hfit : (firstWord (bufferedLine line)).length < 16
  · simp only [hfit, if_true, true_and]
    rfl
  · simp only [hfit, if_false, false_and, iff_false]
    rintro ⟨fuel, motor, h⟩
    cases h

theorem isEol_eq_false {text : List Char} (h : text.any isEol = false) :
    ∀ c ∈ text, isEol c = false := by
  intro c hc
  exact Bool.eq_false_iff.mpr (List.any_eq_false.mp h c hc)

theorem loop_finishes_stop : ∃ fuel t,
    loop motorBus fuel "stop 3 96\n".toList (startLoop (bootMotor (Stream'.const false))) = .ok t ∧
      t.inputPos = 0 := by
  have hline : ∀ c ∈ "stop 3 96".toList, isEol c = false := isEol_eq_false (by decide)
  have heol : isEol '\n' = true := by decide
  exact (loop_finishes_iff motorBus (s := startLoop (bootMotor (Stream'.const false))) rfl hline
    heol).1.mpr ⟨by decide, fun h => absurd h (by decide), fun h => absurd h (by decide)⟩

/-- Nothing is acknowledged, and test C waits for ever. -/
theorem unanswered_test_hangs : ¬ ∃ fuel t,
    loop motorBus fuel "c\n".toList (startLoop (bootMotor (Stream'.const false))) = .ok t := by
  rintro ⟨fuel, t, h⟩
  have htext : ∀ c ∈ ['c'], isEol c = false := isEol_eq_false (by decide)
  have heol : isEol '\n' = true := by decide
  obtain ⟨buffer, hloop⟩ := loop_line motorBus fuel
    (s := startLoop (bootMotor (Stream'.const false))) rfl htext heol
  have hwait : runLine motorBus fuel (startLoop (bootMotor (Stream'.const false))).motor ['c'] =
      .error .waiting := by
    show Command.run motorBus fuel .testC _ = _
    refine run_error_iff.mpr ⟨rfl, _, 7, MOTOR_DRIVER_DEFAULT_ADDRESS, 0x01, rfl, rfl, rfl, ?_⟩
    simp [Answers, requested, motorBus, MotorBus.record, startLoop, bootMotor, i2cSelectChannel,
      i2cWrByte]
  have hline : "c\n".toList = ['c'] ++ ['\n'] := by decide
  rw [hline, hloop, hwait] at h
  cases h

end

end QuadBot
