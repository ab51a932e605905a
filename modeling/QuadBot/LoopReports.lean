import QuadBot.LoopTransfers

/-! What `loop` prints on Serial, with the lines of the channel selection in every motor command.
While everything is acknowledged it is a function of the text that is sent, of the channel cached
before and of what the one driver that is read has sensed, whatever the motors do and however the
text is cut into chunks. -/

namespace QuadBot

open Lts

/-- A message on Serial, with the values in it. -/
inductive Report
  /-- "\nI2C Multiplexer: Channel ", " selected." -/
  | channelSelected (channel : UInt8)
  /-- "\nI2C Multiplexer: Channel ", " is already active. No action taken." -/
  | channelActive (channel : UInt8)
  /-- "\nError: Invalid channel requested! Must be between 0 and 7." -/
  | channelInvalid
  /-- "Received command: " -/
  | received (inputBuffer : List Char)
  /-- "Moving motor on mux channel ", ", chip address ", ", speed ", ", direction " -/
  | moving (muxChannel chipAddress speed : Int) (direction : Bool)
  /-- "Stopped motor on mux channel ", ", chip address " -/
  | stopped (muxChannel chipAddress : Int)
  /-- "Default move on mux channel ", ", chip address ", ", speed level ", ", direction " -/
  | defaultMove (muxChannel chipAddress speedLevel : Int) (direction : Bool)
  /-- "Set speeds on mux channel ", ", chip address ", ", speedOne ", ", speedTwo " -/
  | setSpeeds (muxChannel chipAddress speedOne speedTwo : Int)
  /-- "Running test for 'abc'!" -/
  | runningAbc
  /-- "Running test A..." and so on -/
  | runningTest (letter : Char)
  /-- "Current estimate: ", " A" -/
  | currentEstimate (current : ℚ)
  /-- "Limit triggers: 0b" -/
  | limitTriggers (limits : UInt8)
  /-- "Unknown command." -/
  | unknownCommand
  deriving DecidableEq

/-- What `i2cSelectChannel` prints. -/
def selectReport (currentChannel : Int) (channel : UInt8) : Report :=
  if 7 < channel then .channelInvalid
  else if currentChannel = channel.toNat then .channelActive channel
  else .channelSelected channel

/-- The line that is printed is that of the branch which the selection takes. -/
theorem selectReport_branch {σ : Type} (bus : Bus σ) (m : UInt8) (s : Motor σ) :
    i2cSelectChannel bus I2C_MUX_ADDRESS m s =
      match selectReport s.currentChannel m with
      | .channelSelected channel => { s with
          wire := i2cWrByte bus I2C_MUX_ADDRESS (1 <<< channel) s.wire
          currentChannel := channel.toNat }
      | .channelActive _ => s
      | _ => { s with errors := s.errors ++ [invalidChannel] } := by
  unfold i2cSelectChannel selectReport
  by_cases hm : 7 < m
  · rw [if_pos hm, if_pos hm]
  · rw [if_neg hm, if_neg hm]
    by_cases hcached : s.currentChannel = m.toNat
    · rw [if_pos hcached, if_pos hcached]
    · rw [if_neg hcached, if_neg hcached]

/-- What a command prints, but for what it reads. A command prints after it has selected its channel
and written, a test before. -/
def Command.message (line : List Char) (currentChannel : Int) : Command → List Report
  | move muxChannel chipAddress speed directionInt =>
    [selectReport currentChannel (.ofInt muxChannel),
      .moving muxChannel chipAddress speed (directionInt ≠ 0)]
  | stop muxChannel chipAddress =>
    [selectReport currentChannel (.ofInt muxChannel), .stopped muxChannel chipAddress]
  | defaultMove muxChannel chipAddress speedLevel directionInt =>
    [selectReport currentChannel (.ofInt muxChannel),
      .defaultMove muxChannel chipAddress speedLevel (directionInt ≠ 0)]
  | setSpeeds muxChannel chipAddress speedOne speedTwo =>
    [selectReport currentChannel (.ofInt muxChannel),
      .setSpeeds muxChannel chipAddress speedOne speedTwo]
  | testA => [.runningTest 'A', selectReport currentChannel 7]
  | testB => [.runningTest 'B', selectReport currentChannel 7]
  | testC => [.runningTest 'C', selectReport currentChannel 7]
  | testD => [.runningTest 'D', selectReport currentChannel 7]
  | nothing => if line = "abc".toList then [.runningAbc] else []

/-- `loop` and what it has printed. -/
structure Reporting (σ : Type) where
  loop : Loop σ
  reports : List Report

section

variable {σ : Type} (bus : Bus σ) (fuel : Nat)

/-- A command with what it prints. The message for an unknown command is in the branch of the last
test. -/
def Command.report (line : List Char) (command : Command) (s : Motor σ) :
    Except Stuck (List Report × Motor σ) :=
  match command with
  | testC => do
    let (current, t) ← readCurrentEstimate bus fuel 7 MOTOR_DRIVER_DEFAULT_ADDRESS s
    return (testC.message line s.currentChannel ++ [.currentEstimate current], t)
  | testD => do
    let (limits, t) ← readLimitTriggers bus fuel 7 MOTOR_DRIVER_DEFAULT_ADDRESS s
    return (testD.message line s.currentChannel ++ [.limitTriggers limits, .unknownCommand], t)
  | command => do
    let t ← command.run bus fuel s
    return (command.message line s.currentChannel, t)

/-- `loopChar`, with what is printed. -/
def reportChar (r : Reporting σ) (inChar : Char) : Except Stuck (Reporting σ) :=
  let s := r.loop
  if isEol inChar then do
    let inputBuffer ← store s.inputBuffer s.inputPos '\x00'
    let line := cString inputBuffer
    let command ← interpret line
    let (reports, motor) ← command.report bus fuel line s.motor
    let inputBuffer ← store inputBuffer 0 '\x00'
    return ⟨{ inputBuffer, inputPos := 0, motor }, r.reports ++ .received line :: reports⟩
  else if s.inputPos < 32 - 1 then do
    let inputBuffer ← store s.inputBuffer s.inputPos inChar
    return { r with loop := { s with inputBuffer, inputPos := s.inputPos + 1 } }
  else return r

def reportLoop (available : List Char) (r : Reporting σ) : Except Stuck (Reporting σ) :=
  available.foldlM (reportChar bus fuel) r

/-! ### The printing changes nothing -/

theorem report_run (line : List Char) (command : Command) (s : Motor σ) :
    (command.report bus fuel line s).map Prod.snd = command.run bus fuel s := by
  cases command with
  | testC =>
    simp only [Command.report, Command.run, Command.op, MotorOp.exec]
    cases readCurrentEstimate bus fuel 7 MOTOR_DRIVER_DEFAULT_ADDRESS s <;> rfl
  | testD =>
    simp only [Command.report, Command.run, Command.op, MotorOp.exec]
    cases readLimitTriggers bus fuel 7 MOTOR_DRIVER_DEFAULT_ADDRESS s <;> rfl
  | move | stop | defaultMove | setSpeeds | testA | testB | nothing => rfl

theorem reportChar_loop (r : Reporting σ) (c : Char) :
    (reportChar bus fuel r c).map (·.loop) = loopChar bus fuel r.loop c := by
  unfold reportChar loopChar
  dsimp only
  split
  · cases store r.loop.inputBuffer r.loop.inputPos '\x00' with
    | error e => rfl
    | ok inputBuffer =>
      simp only [bind, Except.bind, ← report_run bus fuel (cString inputBuffer)]
      cases interpret (cString inputBuffer) with
      | error e => rfl
      | ok command =>
        dsimp only
        cases command.report bus fuel (cString inputBuffer) r.loop.motor with
        | error e => rfl
        | ok p => cases store inputBuffer 0 '\x00' <;> rfl
  · split
    · cases store r.loop.inputBuffer r.loop.inputPos c <;> rfl
    · rfl

theorem reportLoop_loop (available : List Char) (r : Reporting σ) :
    (reportLoop bus fuel available r).map (·.loop) = loop bus fuel available r.loop := by
  induction available generalizing r with
  | nil => rfl
  | cons c rest ih =>
    rw [reportLoop, List.foldlM_cons, loop_cons, ← reportChar_loop]
    cases reportChar bus fuel r c with
    | error e => rfl
    | ok m => exact ih m

/-! ### Lines -/

/-- A complete line. -/
def reportLine (motor : Motor σ) (text : List Char) : Except Stuck (List Report × Motor σ) := do
  let command ← interpret (bufferedLine text)
  let (reports, motor) ← command.report bus fuel (bufferedLine text) motor
  return (.received (bufferedLine text) :: reports, motor)

def reportLines (lines : List (List Char)) (p : List Report × Motor σ) :
    Except Stuck (List Report × Motor σ) :=
  lines.foldlM (fun p line => (reportLine bus fuel p.2 line).map fun q => (p.1 ++ q.1, q.2)) p

variable {r : Reporting σ} {text : List Char} {c : Char}

theorem reportChar_text (hc : isEol c = false) : reportChar bus fuel r c =
    (loopChar bus fuel r.loop c).map fun s => ⟨s, r.reports⟩ := by
  have hneg : ¬ isEol c = true := by simp [hc]
  simp only [reportChar, loopChar, if_neg hneg]
  split
  · cases store r.loop.inputBuffer r.loop.inputPos c <;> rfl
  · rfl

/-- A line end reports the line and leaves the buffer empty. -/
theorem reportChar_eol (h : Holds r.loop text) (hc : isEol c = true) : ∃ buffer,
    reportChar bus fuel r c = (reportLine bus fuel r.loop.motor text).map fun p =>
      ⟨⟨buffer, 0, p.2⟩, r.reports ++ p.1⟩ := by
  have hlt : r.loop.inputPos < 32 := by
    have := h.pos
    omega
  have hline : cString (r.loop.inputBuffer.set r.loop.inputPos '\x00') = bufferedLine text := by
    rw [cString_set hlt, h.chars]
    rfl
  refine ⟨(r.loop.inputBuffer.set r.loop.inputPos '\x00').set 0 '\x00', ?_⟩
  unfold reportChar reportLine
  dsimp only
  rw [if_pos hc, store_ok hlt]
  show (interpret (cString (r.loop.inputBuffer.set r.loop.inputPos '\x00')) >>= _) = _
  rw [hline]
  cases interpret (bufferedLine text) with
  | error e => rfl
  | ok command =>
    show (command.report bus fuel (bufferedLine text) r.loop.motor >>= _) =
      Except.map _ (command.report bus fuel (bufferedLine text) r.loop.motor >>= _)
    cases command.report bus fuel (bufferedLine text) r.loop.motor with
    | error e => rfl
    | ok p => rfl

/-- Over any stream the reports are those of the complete lines. -/
theorem reportLoop_lines (stream : List Char) (h : Holds r.loop text)
    (ht : ∀ c ∈ text, isEol c = false) :
    (reportLoop bus fuel stream r).map (fun r => (r.reports, r.loop.motor)) =
      reportLines bus fuel (completeLines (text ++ stream)) (r.reports, r.loop.motor) := by
  induction stream generalizing r text with
  | nil =>
    rw [List.append_nil, completeLines_text ht]
    rfl
  | cons c rest ih =>
    rw [reportLoop, List.foldlM_cons]
    cases hc : isEol c with
    | false =>
      obtain ⟨s, hstep, hholds, hmotor⟩ := loopChar_text bus fuel h hc
      rw [reportChar_text bus fuel hc, hstep, List.append_cons, ← hmotor]
      exact ih (r := ⟨s, r.reports⟩) hholds (noEol_append ht hc)
    | true =>
      obtain ⟨buffer, hstep⟩ := reportChar_eol bus fuel h hc
      rw [hstep, completeLines_append_cons ht hc, reportLines, List.foldlM_cons]
      cases reportLine bus fuel r.loop.motor text with
      | error e => rfl
      | ok p =>
        exact ih (r := ⟨⟨buffer, 0, p.2⟩, r.reports ++ p.1⟩) (holds_of_inputPos rfl) (by simp)

/-- The calls of `loop` together print what one call on the stream prints. -/
theorem reportLoop_flatten (chunks : List (List Char)) (r : Reporting σ) :
    chunks.foldlM (fun r available => reportLoop bus fuel available r) r =
      reportLoop bus fuel chunks.flatten r := by
  induction chunks generalizing r with
  | nil => rfl
  | cons chunk chunks ih =>
    rw [List.foldlM_cons, List.flatten_cons, reportLoop, reportLoop, List.foldlM_append]
    exact bind_congr ih

end

/-! ### Answers -/

/-- What a command reads for an answer, from the driver with the given registers. -/
def Command.answer (registers : UInt8 → UInt8) : Command → List Report
  | testC => [.currentEstimate (estimateOf (registers 0x01))]
  | testD => [.limitTriggers (0x0F &&& registers 0x00), .unknownCommand]
  | _ => []

/-- All that a line prints. -/
def lineReports (registers : UInt8 → UInt8) (currentChannel : Int) (line : List Char) :
    List Report :=
  let command := commandOf (bufferedLine line)
  .received (bufferedLine line) ::
    (command.message (bufferedLine line) currentChannel ++ command.answer registers)

/-- The cached channel after a line. -/
def lineCached (currentChannel : Int) (line : List Char) : Int :=
  (lineOp (bufferedLine line)).elim currentChannel (MotorOp.cached currentChannel)

/-- All that a run of lines prints. -/
def linesReports (registers : UInt8 → UInt8) : Int → List (List Char) → List Report
  | _, [] => []
  | currentChannel, line :: lines => lineReports registers currentChannel line ++
      linesReports registers (lineCached currentChannel line) lines

theorem lineReports_congr {R R' : UInt8 → UInt8} (h : ∀ r, MotorOp.Sensed r → R r = R' r)
    (currentChannel : Int) (line : List Char) :
    lineReports R currentChannel line = lineReports R' currentChannel line := by
  have hanswer : ∀ command : Command, command.answer R = command.answer R' := by
    intro command
    cases command with
    | testC => simp only [Command.answer, h 0x01 (Or.inr rfl)]
    | testD => simp only [Command.answer, h 0x00 (Or.inl rfl)]
    | move | stop | defaultMove | setSpeeds | testA | testB | nothing => rfl
  simp only [lineReports, hanswer]

theorem linesReports_congr {R R' : UInt8 → UInt8} (h : ∀ r, MotorOp.Sensed r → R r = R' r)
    (currentChannel : Int) (lines : List (List Char)) :
    linesReports R currentChannel lines = linesReports R' currentChannel lines := by
  induction lines generalizing currentChannel with
  | nil => rfl
  | cons line lines ih => rw [linesReports, linesReports, lineReports_congr h, ih]

/-- The cached channel is that of the lines, on every bus. -/
theorem reportLine_cached {σ : Type} {bus : Bus σ} {fuel : Nat} {s : Motor σ} {line : List Char}
    {p : List Report × Motor σ} (h : reportLine bus fuel s line = .ok p) :
    p.2.currentChannel = lineCached s.currentChannel line := by
  rw [reportLine, interpret_eq] at h
  split at h
  · change ((commandOf (bufferedLine line)).report bus fuel (bufferedLine line) s >>= _) = _ at h
    have hrun := report_run bus fuel (bufferedLine line) (commandOf (bufferedLine line)) s
    cases hreport : (commandOf (bufferedLine line)).report bus fuel (bufferedLine line) s with
    | error e => rw [hreport] at h; cases h
    | ok q =>
      rw [hreport] at h hrun
      obtain rfl := Except.ok.inj h
      rw [lineCached, ← commandOf_op]
      unfold Command.run at hrun
      cases hop : (commandOf (bufferedLine line)).op with
      | none =>
        rw [hop] at hrun
        exact congrArg Motor.currentChannel (Except.ok.inj hrun)
      | some op =>
        rw [hop] at hrun
        exact congrArg Motor.currentChannel (exec_served hrun.symm)
  · cases h

section

variable {s : Motor MotorBus}

/-- One command. -/
theorem report_settled (fuel : Nat) (hs : Settled s) {command : Command}
    (hop : ∀ op, command.op = some op → op.Valid) (line : List Char) :
    ∃ t, command.report motorBus fuel line s = .ok (command.message line s.currentChannel ++
        command.answer (s.wire.reg 7 MOTOR_DRIVER_DEFAULT_ADDRESS), t) ∧ Settled t ∧
      ∀ c a r, MotorOp.Sensed r → t.wire.reg c a r = s.wire.reg c a r := by
  have hrun : ∃ t, command.run motorBus fuel s = .ok t ∧ Settled t ∧
      ∀ c a r, MotorOp.Sensed r → t.wire.reg c a r = s.wire.reg c a r := by
    rw [Command.run]
    cases hcommand : command.op with
    | none => exact ⟨s, rfl, hs, fun _ _ _ _ => rfl⟩
    | some op =>
      have hvalid : ∀ o ∈ [op], o.Valid := by simpa using hop op hcommand
      obtain ⟨t, hexec, ht, hbank⟩ := settled_run fuel hs hvalid
      refine ⟨t, ?_, ht, ?_⟩
      · obtain ⟨m, hstep, hnil⟩ := run_cons.mp hexec
        obtain rfl := run_nil.mp hnil
        exact hstep
      · intro c a r hr
        rw [hbank, bank_own, foldl_apply_sensed hr]
  obtain ⟨t, hrun, ht, hsensed⟩ := hrun
  refine ⟨t, ?_, ht, hsensed⟩
  rw [← report_run motorBus fuel line] at hrun
  have hdriver : MOTOR_DRIVER_DEFAULT_ADDRESS ≠ I2C_MUX_ADDRESS := by decide
  cases command with
  | testC =>
    obtain ⟨t', hread, -⟩ := readCurrentEstimate_settled fuel hs hdriver (c := 7)
    have hreport : Command.testC.report motorBus fuel line s =
        .ok (Command.testC.message line s.currentChannel ++
          Command.testC.answer (s.wire.reg 7 MOTOR_DRIVER_DEFAULT_ADDRESS), t') := by
      change (readCurrentEstimate motorBus fuel (UInt8.ofNat (7 : Fin 8).val)
        MOTOR_DRIVER_DEFAULT_ADDRESS s >>= _) = _
      rw [hread]
      rfl
    rw [hreport] at hrun ⊢
    obtain rfl : t' = t := Except.ok.inj hrun
    rfl
  | testD =>
    obtain ⟨t', hread, -⟩ := readLimitTriggers_settled fuel hs hdriver (c := 7)
    have hreport : Command.testD.report motorBus fuel line s =
        .ok (Command.testD.message line s.currentChannel ++
          Command.testD.answer (s.wire.reg 7 MOTOR_DRIVER_DEFAULT_ADDRESS), t') := by
      change (readLimitTriggers motorBus fuel (UInt8.ofNat (7 : Fin 8).val)
        MOTOR_DRIVER_DEFAULT_ADDRESS s >>= _) = _
      rw [hread]
      rfl
    rw [hreport] at hrun ⊢
    obtain rfl : t' = t := Except.ok.inj hrun
    rfl
  | move | stop | defaultMove | setSpeeds | testA | testB | nothing =>
    obtain rfl := Except.ok.inj hrun
    simp only [Command.answer, List.append_nil]
    rfl

/-- One line. -/
theorem reportLine_settled (fuel : Nat) (hs : Settled s) {line : List Char}
    (hfit : (firstWord (bufferedLine line)).length < 16)
    (hop : ∀ op, lineOp (bufferedLine line) = some op → op.Valid) :
    ∃ t, reportLine motorBus fuel s line =
        .ok (lineReports (s.wire.reg 7 MOTOR_DRIVER_DEFAULT_ADDRESS) s.currentChannel line, t) ∧
      Settled t ∧ ∀ c a r, MotorOp.Sensed r → t.wire.reg c a r = s.wire.reg c a r := by
  rw [← commandOf_op] at hop
  obtain ⟨t, hreport, ht⟩ := report_settled fuel hs hop (bufferedLine line)
  refine ⟨t, ?_, ht⟩
  rw [reportLine, interpret_eq, if_pos hfit]
  show ((commandOf (bufferedLine line)).report motorBus fuel (bufferedLine line) s >>= _) = _
  rw [hreport]
  rfl

/-- A run of lines. -/
theorem reportLines_settled (fuel : Nat) (hs : Settled s) {lines : List (List Char)}
    (hwords : ∀ line ∈ lines, (firstWord (bufferedLine line)).length < 16)
    (hvalid : ∀ op ∈ lines.filterMap (fun line => lineOp (bufferedLine line)), op.Valid)
    (reports : List Report) : ∃ t, reportLines motorBus fuel lines (reports, s) = .ok (reports ++
      linesReports (s.wire.reg 7 MOTOR_DRIVER_DEFAULT_ADDRESS) s.currentChannel lines, t) := by
  induction lines generalizing s reports with
  | nil => exact ⟨s, by rw [linesReports, List.append_nil]; rfl⟩
  | cons line lines ih =>
    obtain ⟨m, hline, hm, hsensed⟩ := reportLine_settled fuel hs (hwords line List.mem_cons_self)
      fun op hop => hvalid op (List.mem_filterMap.mpr ⟨line, List.mem_cons_self, hop⟩)
    obtain ⟨t, hrest⟩ := ih hm (fun l hl => hwords l (List.mem_cons_of_mem line hl))
      (fun op hop => hvalid op (List.mem_filterMap.mpr (by
        obtain ⟨l, hl, hlop⟩ := List.mem_filterMap.mp hop
        exact ⟨l, List.mem_cons_of_mem line hl, hlop⟩)))
      (reports ++ lineReports (s.wire.reg 7 MOTOR_DRIVER_DEFAULT_ADDRESS) s.currentChannel line)
    refine ⟨t, ?_⟩
    rw [reportLines, List.foldlM_cons, hline]
    have hcached : m.currentChannel = lineCached s.currentChannel line := reportLine_cached hline
    rw [linesReports_congr (hsensed 7 MOTOR_DRIVER_DEFAULT_ADDRESS), hcached,
      List.append_assoc] at hrest
    exact hrest

end

namespace Report

/-- The report without the value that was read for it. -/
def blank : Report → Report
  | currentEstimate _ => .currentEstimate 0
  | limitTriggers _ => .limitTriggers 0
  | report => report

/-- The line that the report repeats. -/
def echo : Report → Option (List Char)
  | received inputBuffer => some inputBuffer
  | _ => none

theorem blank_eq_unknown (report : Report) :
    report.blank = .unknownCommand ↔ report = .unknownCommand := by
  cases report <;> simp [blank]

theorem echo_blank (report : Report) : report.blank.echo = report.echo := by
  cases report <;> rfl

end Report

section

variable {σ : Type} {bus : Bus σ} {fuel : Nat}

/-- But for the values a command prints the same on every bus. -/
theorem report_blank {command : Command} {line : List Char} {s : Motor σ}
    {p : List Report × Motor σ} (h : command.report bus fuel line s = .ok p)
    (registers : UInt8 → UInt8) :
    p.1.map Report.blank =
      (command.message line s.currentChannel ++ command.answer registers).map Report.blank := by
  cases command with
  | testC =>
    rw [Command.report] at h
    cases hread : readCurrentEstimate bus fuel 7 MOTOR_DRIVER_DEFAULT_ADDRESS s with
    | error e => rw [hread] at h; cases h
    | ok q =>
      rw [hread] at h
      obtain rfl := Except.ok.inj h
      rfl
  | testD =>
    rw [Command.report] at h
    cases hread : readLimitTriggers bus fuel 7 MOTOR_DRIVER_DEFAULT_ADDRESS s with
    | error e => rw [hread] at h; cases h
    | ok q =>
      rw [hread] at h
      obtain rfl := Except.ok.inj h
      rfl
  | move | stop | defaultMove | setSpeeds | testA | testB | nothing =>
    obtain rfl := Except.ok.inj h
    simp only [Command.answer, List.append_nil]

theorem reportLine_blank {line : List Char} {s : Motor σ} {p : List Report × Motor σ}
    (h : reportLine bus fuel s line = .ok p) (registers : UInt8 → UInt8) :
    p.1.map Report.blank = (lineReports registers s.currentChannel line).map Report.blank := by
  rw [reportLine, interpret_eq] at h
  split at h
  · change ((commandOf (bufferedLine line)).report bus fuel (bufferedLine line) s >>= _) = _ at h
    cases hreport : (commandOf (bufferedLine line)).report bus fuel (bufferedLine line) s with
    | error e => rw [hreport] at h; cases h
    | ok q =>
      rw [hreport] at h
      obtain rfl := Except.ok.inj h
      exact congrArg (Report.blank (.received (bufferedLine line)) :: ·)
        (report_blank hreport registers)
  · cases h

theorem reportLines_blank {lines : List (List Char)} {p q : List Report × Motor σ}
    (h : reportLines bus fuel lines p = .ok q) (registers : UInt8 → UInt8) :
    q.1.map Report.blank =
      (p.1 ++ linesReports registers p.2.currentChannel lines).map Report.blank := by
  induction lines generalizing p with
  | nil =>
    obtain rfl : p = q := Except.ok.inj h
    rw [linesReports, List.append_nil]
  | cons line lines ih =>
    rw [reportLines, List.foldlM_cons] at h
    cases hline : reportLine bus fuel p.2 line with
    | error e => rw [hline] at h; cases h
    | ok m =>
      rw [hline] at h
      rw [ih h, linesReports, List.map_append, List.map_append, List.map_append,
        List.map_append, reportLine_blank hline registers, reportLine_cached hline,
        List.append_assoc]

end

theorem selectReport_ne_unknown (currentChannel : Int) (channel : UInt8) :
    selectReport currentChannel channel ≠ .unknownCommand := by
  unfold selectReport
  split_ifs <;> nofun

/-- A line prints the message for an unknown command exactly when it is the last test. -/
theorem count_unknown (registers : UInt8 → UInt8) (currentChannel : Int) (line : List Char) :
    (lineReports registers currentChannel line).count .unknownCommand =
      if bufferedLine line = "d".toList then 1 else 0 := by
  have hselect := selectReport_ne_unknown currentChannel
  by_cases hd : bufferedLine line = "d".toList
  · have hcommand : commandOf (bufferedLine line) = .testD := (commandOf_eq_testD _).mpr hd
    rw [if_pos hd]
    simp only [lineReports, hcommand]
    simp [Command.message, Command.answer, hselect]
  · rw [if_neg hd, List.count_eq_zero]
    have hcommand := (commandOf_eq_testD (bufferedLine line)).not.mpr hd
    cases h : commandOf (bufferedLine line) with
    | testD => exact absurd h hcommand
    | nothing =>
      simp only [lineReports, h, Command.message, Command.answer]
      split <;> simp
    | move | stop | defaultMove | setSpeeds | testA | testB | testC =>
      simp [lineReports, h, Command.message, Command.answer, (hselect _).symm]

theorem count_unknown_lines (registers : UInt8 → UInt8) (currentChannel : Int)
    (lines : List (List Char)) :
    (linesReports registers currentChannel lines).count .unknownCommand =
      (lines.map bufferedLine).count "d".toList := by
  induction lines generalizing currentChannel with
  | nil => rfl
  | cons line lines ih =>
    rw [linesReports, List.count_append, ih, count_unknown, List.map_cons, List.count_cons,
      Nat.add_comm]
    simp only [beq_iff_eq]

theorem count_unknown_congr {l l' : List Report}
    (h : l.map Report.blank = l'.map Report.blank) :
    l.count .unknownCommand = l'.count .unknownCommand := by
  have hcount : ∀ l : List Report,
      l.count .unknownCommand = (l.map Report.blank).count .unknownCommand := by
    intro l
    rw [List.count_eq_countP, List.count_eq_countP, List.countP_map]
    apply List.countP_congr
    intro report _
    simp [Report.blank_eq_unknown]
  rw [hcount, h, ← hcount]

theorem filterMap_echo_congr {l l' : List Report}
    (h : l.map Report.blank = l'.map Report.blank) :
    l.filterMap Report.echo = l'.filterMap Report.echo := by
  have hecho : ∀ l : List Report,
      l.filterMap Report.echo = (l.map Report.blank).filterMap Report.echo := by
    intro l
    rw [List.filterMap_map]
    exact List.filterMap_congr fun report _ => (report.echo_blank).symm
  rw [hecho, h, ← hecho]

/-- A line is repeated once. -/
theorem filterMap_echo_lines (registers : UInt8 → UInt8) (currentChannel : Int)
    (lines : List (List Char)) :
    (linesReports registers currentChannel lines).filterMap Report.echo =
      lines.map bufferedLine := by
  induction lines generalizing currentChannel with
  | nil => rfl
  | cons line lines ih =>
    have hline : (lineReports registers currentChannel line).filterMap Report.echo =
        [bufferedLine line] := by
      simp only [lineReports]
      cases h : commandOf (bufferedLine line) with
      | nothing =>
        simp only [Command.message, Command.answer]
        split <;> rfl
      | move | stop | defaultMove | setSpeeds | testA | testB | testC | testD =>
        simp only [Command.message, Command.answer, selectReport]
        split_ifs <;> rfl
    rw [linesReports, List.filterMap_append, ih, hline]
    rfl

section

variable {σ : Type} {bus : Bus σ} {fuel : Nat} {motor : Motor σ} {chunks : List (List Char)}
  {r : Reporting σ}

/-- But for the values a run prints what its lines come to. -/
theorem reportLoop_blank
    (h : chunks.foldlM (fun r available => reportLoop bus fuel available r) ⟨startLoop motor, []⟩ =
      .ok r) (registers : UInt8 → UInt8) :
    r.reports.map Report.blank =
      (linesReports registers motor.currentChannel (completeLines chunks.flatten)).map
        Report.blank := by
  have hstart : Holds (startLoop motor) [] := holds_of_inputPos rfl
  have hrun := reportLoop_lines bus fuel (r := ⟨startLoop motor, []⟩) chunks.flatten hstart
    (by simp)
  rw [reportLoop_flatten] at h
  rw [h, List.nil_append] at hrun
  have hblank := reportLines_blank hrun.symm registers
  rwa [List.nil_append] at hblank

/-- It repeats each line as far as it was buffered. -/
theorem reportLoop_echo
    (h : chunks.foldlM (fun r available => reportLoop bus fuel available r) ⟨startLoop motor, []⟩ =
      .ok r) :
    r.reports.filterMap Report.echo = (completeLines chunks.flatten).map bufferedLine := by
  rw [filterMap_echo_congr (reportLoop_blank h fun _ => 0), filterMap_echo_lines]

end

/-- On every bus, with any outcomes of the transactions, a run of `loop` that gets through prints
the reports that the lines and the channel cached before them decide, but for the two values that
are read. So nothing that is printed tells whether a selection or a motor command has arrived; the
operations of the run can be read back from the lines that are repeated; and that a command is
unknown is printed for each line "d" and never for another. -/
theorem reports_blind {σ : Type} {bus : Bus σ} {fuel : Nat} {motor : Motor σ}
    {chunks : List (List Char)} {r : Reporting σ}
    (h : chunks.foldlM (fun r available => reportLoop bus fuel available r) ⟨startLoop motor, []⟩ =
      .ok r) (registers : UInt8 → UInt8) :
    r.reports.map Report.blank =
        (linesReports registers motor.currentChannel (completeLines chunks.flatten)).map
          Report.blank ∧
      (r.reports.filterMap Report.echo).filterMap lineOp = lineOps chunks.flatten ∧
      r.reports.count .unknownCommand =
        ((completeLines chunks.flatten).map bufferedLine).count "d".toList := by
  refine ⟨reportLoop_blank h registers, ?_, ?_⟩
  · rw [reportLoop_echo h, List.filterMap_map]
    rfl
  · rw [count_unknown_congr (reportLoop_blank h registers), count_unknown_lines]

/-- The stop is lost with everything else, the selection too, and both are reported all the
same. -/
theorem reports_blind_lost_stop : ∃ r : Reporting MotorBus,
    ["stop 3 96\nd".toList].foldlM (fun r available => reportLoop motorBus 0 available r)
        ⟨startLoop (bootMotor (Stream'.const false)), []⟩ = .ok r ∧
      r.reports = [.received "stop 3 96".toList, .channelSelected 3, .stopped 3 96] ∧
      (r.reports.filterMap Report.echo).filterMap lineOp = [.stop 3 0x60] := by
  have hrun : ["stop 3 96\nd".toList].foldlM
      (fun r available => reportLoop motorBus 0 available r)
      ⟨startLoop (bootMotor (Stream'.const false)), []⟩ = .ok _ := rfl
  refine ⟨_, hrun, rfl, ?_⟩
  rw [(reports_blind hrun fun _ => 0).2.1]
  decide

end QuadBot
