import QuadBot.LoopLines
import QuadBot.MotorRuns
import QuadBot.Scanning

/-! What a stop line is worth. While no line writes past the selected channel or moves a motor that
it does not name, a `stop` reaches its driver and the outputs stay off until a line names the driver
in a `move` or `defaultmove`. -/

namespace QuadBot

open Libc Lts

/-- The line, read in full, is a `move` or a `defaultmove` of the driver 96 on channel `m`. -/
def NamesMotor (m : Fin 8) (line : List Char) : Prop :=
  ∃ word rest, scanWord line = some (word, rest) ∧
    (word = "move".toList ∨ word = "defaultmove".toList) ∧ scanInts 2 rest = [(m.val : Int), 96]

theorem bufferedLine_append (line : List Char) : ∃ rest, line = bufferedLine line ++ rest := by
  obtain ⟨rest, h⟩ := (List.takeWhile_prefix _).trans (List.take_prefix 31 line)
  exact ⟨rest, h.symm⟩

/-- Four integers of the buffered line: the first two stand in the line itself. -/
theorem scanned_four {name : String} {line : List Char} {a b c d : Int}
    (h : scanned name 4 (bufferedLine line) = some [a, b, c, d]) :
    ∃ rest, scanWord line = some (name.toList, rest) ∧ scanInts 2 rest = [a, b] := by
  obtain ⟨cut, hline⟩ := bufferedLine_append line
  unfold scanned sscanf at h
  cases hword : scanWord (bufferedLine line) with
  | none => simp [hword] at h
  | some r =>
    obtain ⟨word, rest⟩ := r
    simp only [hword, Option.map_some] at h
    split at h
    · rename_i hc
      have hints : scanInts 4 rest = [a, b, c, d] := Option.some.inj h
      have htwo : scanInts 2 rest = [a, b] := by
        rw [← scanInts_take 2 2, hints]
        rfl
      have hlen : (scanInts 2 rest).length = 2 := by rw [htwo]; rfl
      have hne : scanRest 2 rest ≠ [] := by
        intro hnil
        have hadd := scanInts_add hlen 2
        rw [hints, htwo, hnil] at hadd
        cases hadd
      have hne' : rest ≠ [] := by
        rintro rfl
        cases hints
      refine ⟨rest ++ cut, ?_, ?_⟩
      · rw [hline, scanWord_append hword hne', hc.2]
      · rw [(scanInts_append hlen hne cut).1, htwo]
    · cases h

def Command.moved : Command → Option (Int × Int)
  | move muxChannel chipAddress _ _ | defaultMove muxChannel chipAddress _ _ =>
    some (muxChannel, chipAddress)
  | _ => none

theorem namesMotor_of_moved {m : Fin 8} {line : List Char}
    (h : (commandOf (bufferedLine line)).moved = some ((m.val : Int), 96)) : NamesMotor m line := by
  cases hc : commandOf (bufferedLine line) with
  | move a b speed direction =>
    rw [hc] at h
    cases h
    obtain ⟨rest, hword, hints⟩ := scanned_four (spelledBy_of_commandOf hc)
    exact ⟨_, rest, hword, Or.inl rfl, hints⟩
  | defaultMove a b level direction =>
    rw [hc] at h
    cases h
    obtain ⟨rest, hword, hints⟩ := scanned_four (spelledBy_of_commandOf hc)
    exact ⟨_, rest, hword, Or.inr rfl, hints⟩
  | stop | setSpeeds | testA | testB | testC | testD | nothing =>
    rw [hc] at h
    cases h

/-! ### The open channel -/

/-- Everything is acknowledged, and `c` is cached and open alone. -/
structure OpenAt (c : Fin 8) (s : Motor MotorBus) : Prop where
  acks : s.wire.acks = acked
  cached : s.currentChannel = c.val
  control : s.wire.control = controlByte c

theorem OpenAt.settled {c : Fin 8} {s : Motor MotorBus} (h : OpenAt c s) : Settled s :=
  ⟨h.acks, Or.inr ⟨c, h.cached, h.control⟩⟩

/-- The channel that a selection leaves cached: a number above 7 is rejected. -/
def selected {σ : Type} (s : Motor σ) (muxChannel : UInt8) : Int :=
  if 7 < muxChannel then s.currentChannel else muxChannel.toNat

theorem openAt_select {s : Motor MotorBus} (h : Settled s) (c : Fin 8) :
    OpenAt c (i2cSelectChannel motorBus I2C_MUX_ADDRESS (UInt8.ofNat c.val) s) :=
  ⟨select_acked h.acks, (settled_select h c).1, (settled_select h c).2⟩

theorem OpenAt.select {c : Fin 8} {s : Motor MotorBus} (h : OpenAt c s) (ch : UInt8) :
    ∃ d, OpenAt d (i2cSelectChannel motorBus I2C_MUX_ADDRESS ch s) ∧ selected s ch = d.val := by
  unfold selected
  by_cases hgt : 7 < ch
  · obtain ⟨hcur, hwire⟩ := select_rejected hgt s
    refine ⟨c, ⟨by rw [hwire, h.acks], by rw [hcur, h.cached], by rw [hwire, h.control]⟩, ?_⟩
    rw [if_pos hgt, h.cached]
  · obtain ⟨d, rfl⟩ := exists_channel hgt
    refine ⟨d, openAt_select h.settled d, ?_⟩
    rw [if_neg hgt, channel_toNat]

theorem OpenAt.access {d : Fin 8} {s : Motor MotorBus} {a : UInt8} (h : OpenAt d s) (fuel : Nat)
    (op : MotorOp) (ha : a ≠ I2C_MUX_ADDRESS) : ∃ t, op.access motorBus fuel a s = .ok t ∧
      OpenAt d t ∧ t.wire.reg = op.writes.foldl (Bank.write d a) s.wire.reg := by
  obtain ⟨t, hacc, hacks, hreg⟩ := access_acked fuel op h.acks h.control ha
  obtain ⟨hcur, hcontrol, -⟩ := access_spec ha hacc
  exact ⟨t, hacc, ⟨hacks, hcur.trans h.cached, hcontrol.trans h.control⟩, hreg⟩

/-- Writes to the mux address go to the control register, which keeps the last byte. -/
theorem OpenAt.send_mux {d : Fin 8} {s : Motor MotorBus} (h : OpenAt d s)
    (ws : List (UInt8 × UInt8)) (hlast : ∀ w ∈ ws.getLast?, w.2 = controlByte d) :
    OpenAt d (s.send motorBus I2C_MUX_ADDRESS ws) ∧
      (s.send motorBus I2C_MUX_ADDRESS ws).wire.reg = s.wire.reg := by
  have hacks := send_acked (a := I2C_MUX_ADDRESS) h.acks ws
  have hcur := send_currentChannel (a := I2C_MUX_ADDRESS) (s := s) ws
  suffices hrest : (s.send motorBus I2C_MUX_ADDRESS ws).wire.control =
      (ws.getLast?.map Prod.snd).getD s.wire.control ∧
      (s.send motorBus I2C_MUX_ADDRESS ws).wire.reg = s.wire.reg by
    refine ⟨⟨hacks, hcur.trans h.cached, hrest.1.trans ?_⟩, hrest.2⟩
    cases hw : ws.getLast? with
    | none => exact h.control
    | some w => exact hlast w hw
  have hs := h.acks
  clear hlast hacks hcur h
  induction ws generalizing s with
  | nil => exact ⟨rfl, rfl⟩
  | cons w ws ih =>
    obtain ⟨hcontrol, hreg⟩ := ih (s := s.wr motorBus I2C_MUX_ADDRESS w.1 w.2)
      (by rw [wr_acks, hs, acked_tail])
    refine ⟨?_, by rw [send_cons, hreg, wr_reg_mux]⟩
    rw [send_cons, hcontrol, wr_control_mux _ _ _ hs]
    cases ws with
    | nil => rfl
    | cons v vs => simp [List.getLast?_cons]

theorem openAt_init {s : Motor MotorBus} (h : Settled s) (c : Fin 8) :
    OpenAt c (motorDriverInit motorBus (UInt8.ofNat c.val) MOTOR_DRIVER_DEFAULT_ADDRESS s) := by
  obtain ⟨t, hacc, ht, -⟩ := (openAt_select h c).access 0
    (.init (UInt8.ofNat c.val) MOTOR_DRIVER_DEFAULT_ADDRESS) (a := MOTOR_DRIVER_DEFAULT_ADDRESS)
    (by decide)
  have hexec := (MotorOp.exec_eq motorBus 0 rfl s).trans hacc
  rw [← Except.ok.inj hexec] at ht
  exact ht

/-- After `setup` channel 7 is open. -/
theorem openAt_setupMotors {s : Motor MotorBus} (hs : s.wire.acks = acked) :
    OpenAt 7 (setupMotors motorBus s) := by
  have h0 := openAt_init (settled_disableAll hs) 0
  have h1 := openAt_init h0.settled 1
  have h2 := openAt_init h1.settled 2
  have h3 := openAt_init h2.settled 3
  have h4 := openAt_init h3.settled 4
  have h5 := openAt_init h4.settled 5
  have h6 := openAt_init h5.settled 6
  exact openAt_init h6.settled 7

/-! ### Lines -/

def lineStep (fuel : Nat) (s : Motor MotorBus) (line : List Char) (t : Motor MotorBus) : Prop :=
  runLine motorBus fuel s line = .ok t

/-- Where the line's writes go to the mux address, the last byte is the control byte of the
channel that the line selects. -/
def KeepsMux (s : Motor MotorBus) (line : List Char) : Prop :=
  ∀ op ch, (commandOf (bufferedLine line)).op = some op →
    op.target = some (ch, I2C_MUX_ADDRESS) →
    ∀ w ∈ op.writes.getLast?, ∀ d : Fin 8, selected s ch = d.val → w.2 = controlByte d

/-- Where the line moves the motor 0x60 behind channel `m`, the integers in it are `m` and 96. -/
def MovesNamed (m : Fin 8) (s : Motor MotorBus) (line : List Char) : Prop :=
  ∀ ch a, (commandOf (bufferedLine line)).moved = some (ch, a) →
    UInt8.ofInt a = MOTOR_DRIVER_DEFAULT_ADDRESS → selected s (.ofInt ch) = m.val →
    ch = m.val ∧ a = 96

theorem Command.exists_target {command : Command} {op : MotorOp} (h : command.op = some op) :
    ∃ ch a, op.target = some (ch, a) ∧ (a = I2C_MUX_ADDRESS → op.reads = none) := by
  cases command <;> cases h <;> exact ⟨_, _, rfl, fun ha => by first | rfl | cases ha⟩

theorem Command.moved_target {command : Command} {ch a : Int} (h : command.moved = some (ch, a)) :
    ∃ op, command.op = some op ∧ op.target = some (.ofInt ch, .ofInt a) := by
  cases command <;> cases h <;> exact ⟨_, rfl, rfl⟩

/-- What a command does to the drivers while channel `d` is selected for it. -/
def Command.effect (d : Fin 8) (command : Command) (R : Bank) : Bank :=
  match command.op with
  | none => R
  | some op =>
    match op.target with
    | some (_, a) => if a = I2C_MUX_ADDRESS then R else op.writes.foldl (Bank.write d a) R
    | none => R

/-- One line that keeps the mux: it finishes, and its writes go to the selected channel. -/
theorem keepsMux_step (fuel : Nat) {c : Fin 8} {s : Motor MotorBus} {line : List Char}
    (h : OpenAt c s) (hfit : (firstWord (bufferedLine line)).length < 16) (hk : KeepsMux s line) :
    ∃ t d, lineStep fuel s line t ∧ OpenAt d t ∧
      t.wire.reg = (commandOf (bufferedLine line)).effect d s.wire.reg ∧
      ∀ op ch a, (commandOf (bufferedLine line)).op = some op → op.target = some (ch, a) →
        selected s ch = d.val := by
  unfold KeepsMux at hk
  simp only [lineStep, runLine, interpret_eq, if_pos hfit, Command.effect]
  generalize commandOf (bufferedLine line) = command at hk ⊢
  show ∃ t d, command.run motorBus fuel s = .ok t ∧ _
  unfold Command.run
  cases hop : command.op with
  | none => exact ⟨s, c, rfl, h, rfl, by simp⟩
  | some op =>
    obtain ⟨ch, a, ht, hreads⟩ := Command.exists_target hop
    obtain ⟨d, hd, hsel⟩ := h.select ch
    have hselected : ∀ op' ch' a', some op = some op' → op'.target = some (ch', a') →
        selected s ch' = d.val := by
      intro op' ch' a' hop' ht'
      cases hop'
      rw [ht] at ht'
      cases ht'
      exact hsel
    dsimp only
    rw [MotorOp.exec_eq motorBus fuel ht, ht]
    dsimp only
    by_cases ha : a = I2C_MUX_ADDRESS
    · subst ha
      obtain ⟨hopen, hreg⟩ := hd.send_mux op.writes fun w hw => hk op ch hop ht w hw d hsel
      refine ⟨_, d, by rw [MotorOp.access, hreads rfl], hopen, ?_, hselected⟩
      rw [if_pos rfl, hreg, select_reg]
    · obtain ⟨t, hacc, hopen, hreg⟩ := hd.access fuel op ha
      refine ⟨t, d, hacc, hopen, ?_, hselected⟩
      rw [if_neg ha, hreg, select_reg]

theorem effect_stop {m d : Fin 8} (hd : d = m) (R : Bank) :
    (Command.stop m.val 96).effect d R m 0x60 0x07 = 0x55 := by
  subst hd
  have haddress : UInt8.ofInt 96 = 0x60 := by decide
  simp [Command.effect, Command.op, MotorOp.target, MotorOp.writes, haddress, Bank.write,
    I2C_MUX_ADDRESS]

/-- A command leaves the outputs of a driver as they are or turns them off, unless it moves the
driver. -/
theorem effect_outputs {m d : Fin 8} {command : Command} (R : Bank)
    (h : ∀ ch a, command.moved = some (ch, a) → UInt8.ofInt a = 0x60 → d ≠ m) :
    command.effect d R m 0x60 0x07 = R m 0x60 0x07 ∨ command.effect d R m 0x60 0x07 = 0x55 := by
  unfold Command.effect
  cases hop : command.op with
  | none => exact Or.inl rfl
  | some op =>
    obtain ⟨ch, a, ht, -⟩ := Command.exists_target hop
    simp only [ht]
    split
    · exact Or.inl rfl
    · by_cases hne : (m, (0x60 : UInt8)) ≠ (d, a)
      · exact Or.inl (congrFun (Bank.foldl_write_of_ne hne _ R) 0x07)
      · obtain ⟨rfl, rfl⟩ := Prod.mk.inj (not_not.mp hne)
        cases command with
        | move ch' a' | defaultMove ch' a' =>
          cases hop
          obtain ⟨-, haddress⟩ := Prod.mk.inj (Option.some.inj ht)
          exact absurd rfl (h ch' a' rfl haddress)
        | stop | setSpeeds | testA | testB | testC | testD =>
          cases hop
          simp [MotorOp.writes, Bank.write]
        | nothing => cases hop

/-! ### Runs -/

/-- The motors after some lines: one channel is open, and after the stop the outputs of the
stopped driver are off. -/
theorem stop_run (fuel : Nat) {m c : Fin 8} {s : Motor MotorBus} {post : List (List Char)}
    (hs : OpenAt c s) (hoff : s.wire.reg m 0x60 0x07 = 0x55)
    (hwords : ∀ line ∈ post, (firstWord (bufferedLine line)).length < 16)
    (hpost : ∀ line ∈ post, ¬ NamesMotor m line)
    (hk : Guarded (lineStep fuel) KeepsMux s post)
    (hn : Guarded (lineStep fuel) (MovesNamed m) s post) :
    ∃ t, Run (lineStep fuel) s post t ∧ t.wire.reg m 0x60 0x07 = 0x55 := by
  have hstep : ∀ s line, ((∃ c, OpenAt c s) ∧ s.wire.reg m 0x60 0x07 = 0x55) →
      ((KeepsMux s line ∧ MovesNamed m s line) ∧
        (firstWord (bufferedLine line)).length < 16) ∧ ¬ NamesMotor m line →
      ∃ t, lineStep fuel s line t ∧ (∃ c, OpenAt c t) ∧ t.wire.reg m 0x60 0x07 = 0x55 := by
    rintro s line ⟨⟨c, hs⟩, hoff⟩ ⟨⟨⟨hk, hn⟩, hfit⟩, hname⟩
    obtain ⟨t, d, hline, ht, hreg, hsel⟩ := keepsMux_step fuel hs hfit hk
    have hmoved : ∀ ch a, (commandOf (bufferedLine line)).moved = some (ch, a) →
        UInt8.ofInt a = 0x60 → d ≠ m := by
      rintro ch a hmoved haddress rfl
      obtain ⟨op, hop, htarget⟩ := Command.moved_target hmoved
      obtain ⟨rfl, rfl⟩ := hn ch a hmoved haddress (hsel op _ _ hop htarget)
      exact hname (namesMotor_of_moved hmoved)
    refine ⟨t, hline, ⟨d, ht⟩, ?_⟩
    rw [hreg]
    rcases effect_outputs s.wire.reg hmoved with h | h
    · rw [h, hoff]
    · exact h
  obtain ⟨t, hrun, -, ht⟩ := exists_run _ hstep
    (((hk.and hn).and_forall hwords).and_forall hpost) ⟨⟨c, hs⟩, hoff⟩
  exact ⟨t, hrun, ht⟩

/-- Over any stream of lines after `setup`, everything acknowledged: where every line keeps the mux
and the lines after a `stop m 96` move the motor of channel `m` only by its own name, that motor
is off from the stop on until a line names it. -/
theorem stop_line_holds (fuel : Nat) (m : Fin 8) {motor : Motor MotorBus}
    (hacks : motor.wire.acks = acked) {chunks pre post : List (List Char)} {stop : List Char}
    (hlines : completeLines chunks.flatten = pre ++ stop :: post)
    (hwords : ∀ line ∈ pre ++ stop :: post, (firstWord (bufferedLine line)).length < 16)
    (hstop : commandOf (bufferedLine stop) = .stop m.val 96)
    (hpost : ∀ line ∈ post, ¬ NamesMotor m line)
    (hk : Guarded (lineStep fuel) KeepsMux (setupMotors motorBus motor) (pre ++ stop :: post))
    (hn : ∀ s, Run (lineStep fuel) (setupMotors motorBus motor) (pre ++ [stop]) s →
      Guarded (lineStep fuel) (MovesNamed m) s post) :
    ∃ s, chunks.foldlM (fun s available => loop motorBus fuel available s)
        (startLoop (setupMotors motorBus motor)) = .ok s ∧
      s.motor.wire.reg m 0x60 0x07 = 0x55 := by
  have hkeeps : ∀ s line, (∃ c, OpenAt c s) →
      KeepsMux s line ∧ (firstWord (bufferedLine line)).length < 16 →
      ∃ t, lineStep fuel s line t ∧ ∃ c, OpenAt c t := by
    rintro s line ⟨c, hs⟩ ⟨hk, hfit⟩
    obtain ⟨t, d, hline, ht, -⟩ := keepsMux_step fuel hs hfit hk
    exact ⟨t, hline, d, ht⟩
  obtain ⟨s, hpre, c, hs⟩ := exists_run _ hkeeps (hk.and_forall hwords).of_append
    ⟨7, openAt_setupMotors hacks⟩
  have hks := hk.append hpre
  obtain ⟨t, d, hline, ht, hreg, hsel⟩ :=
    keepsMux_step fuel hs (hwords stop (by simp)) hks.1
  rw [hstop] at hreg hsel
  have hd : d = m := by
    have hm := hsel _ _ _ rfl rfl
    rw [channel_ofInt, selected, if_neg (channel_not_gt m), channel_toNat] at hm
    exact Fin.ext (by omega)
  have hoff : t.wire.reg m 0x60 0x07 = 0x55 := by rw [hreg, effect_stop hd]
  have hprefix : Run (lineStep fuel) (setupMotors motorBus motor) (pre ++ [stop]) t :=
    run_append.mpr ⟨s, hpre, .cons hline (.nil t)⟩
  obtain ⟨u, hrun, hu⟩ := stop_run fuel ht hoff
    (fun line hl => hwords line (by simp [hl])) hpost (hks.2 t hline) (hn t hprefix)
  have hall : runLines motorBus fuel (completeLines chunks.flatten)
      (setupMotors motorBus motor) = .ok u := by
    rw [hlines]
    exact run_iff_foldlM.mp (run_append.mpr ⟨s, hpre, .cons hline hrun⟩)
  obtain ⟨v, hloop, hv⟩ := exists_startLoop hall
  exact ⟨v, hloop, by rw [hv, hu]⟩

/-- The motor runs before the stop; the second line writes to the mux, but the byte of the channel
that is open anyway. Later lines move other motors. -/
theorem stop_line_holds_among_others : ∃ s u,
    runLines motorBus 0 ["move 3 96 10 1".toList, "setspeeds 3 112 0 247".toList,
        "move 5 97 7 0".toList] (setupMotors motorBus (bootMotor acked)) = .ok u ∧
    u.wire.reg 3 0x60 0x07 = 0xC4 ∧
    ["move 3 96 10 1\nsetspeeds 3 1".toList, "12 0 247\nmove 5 97 7 0\nstop 3 96\ndefault".toList,
        "move 2 96 1 0\nstop 5 97\n".toList].foldlM (fun s available => loop motorBus 0 available s)
      (startLoop (setupMotors motorBus (bootMotor acked))) = .ok s ∧
    s.motor.wire.reg 3 0x60 0x07 = 0x55 := by
  have hacks : (bootMotor acked).wire.acks = acked := rfl
  have hlines : completeLines ["move 3 96 10 1\nsetspeeds 3 1".toList,
      "12 0 247\nmove 5 97 7 0\nstop 3 96\ndefault".toList,
      "move 2 96 1 0\nstop 5 97\n".toList].flatten =
      ["move 3 96 10 1".toList, "setspeeds 3 112 0 247".toList, "move 5 97 7 0".toList] ++
        "stop 3 96".toList :: ["defaultmove 2 96 1 0".toList, "stop 5 97".toList] := by decide
  have hkeeps : ∀ line ∈ ["move 3 96 10 1".toList, "setspeeds 3 112 0 247".toList,
      "move 5 97 7 0".toList] ++ "stop 3 96".toList ::
        ["defaultmove 2 96 1 0".toList, "stop 5 97".toList], ∀ s, KeepsMux s line := by
    simp only [List.cons_append, List.nil_append, List.forall_mem_cons, List.not_mem_nil,
      false_implies, implies_true, and_true]
    refine ⟨?_, ?_, ?_, ?_, ?_, ?_⟩ <;> intro s op ch hop ht w hw d hd
    · cases (show some (MotorOp.variableMotion 3 96 10 true) = some op from hop)
      cases ht
    · cases (show some (MotorOp.setMotion 3 112 0 247) = some op from hop)
      cases ht
      cases hw
      have hthree : (3 : Int) = d.val := hd
      obtain rfl : (3 : Fin 8) = d := Fin.ext (by omega)
      rfl
    · cases (show some (MotorOp.variableMotion 5 97 7 false) = some op from hop)
      cases ht
    · cases (show some (MotorOp.stop 3 96) = some op from hop)
      cases ht
    · cases (show some (MotorOp.defaultMotion 2 96 1 false) = some op from hop)
      cases ht
    · cases (show some (MotorOp.stop 5 97) = some op from hop)
      cases ht
  have hnamed : ∀ line ∈ ["defaultmove 2 96 1 0".toList, "stop 5 97".toList],
      ∀ s, MovesNamed 3 s line := by
    simp only [List.forall_mem_cons, List.not_mem_nil, false_implies, implies_true, and_true]
    refine ⟨?_, ?_⟩ <;> intro s ch a hmoved _ hsel
    · cases (show some ((2 : Int), (96 : Int)) = some (ch, a) from hmoved)
      cases hsel
    · cases (show none = some (ch, a) from hmoved)
  have hpost : ∀ line ∈ ["defaultmove 2 96 1 0".toList, "stop 5 97".toList],
      ¬ NamesMotor 3 line := by
    simp only [List.forall_mem_cons, List.not_mem_nil, false_implies, implies_true, and_true]
    refine ⟨?_, ?_⟩ <;> rintro ⟨word, rest, hword, -, hints⟩ <;> cases hword <;> cases hints
  obtain ⟨s, hloop, hoff⟩ := stop_line_holds 0 3 hacks hlines (by decide) (by decide) hpost
    (guarded_of_invariant (fun _ => True) (fun s line _ h => h s) (fun _ _ _ _ _ _ => trivial)
      hkeeps trivial)
    (fun s _ => guarded_of_invariant (fun _ => True) (fun s line _ h => h s)
      (fun _ _ _ _ _ _ => trivial) hnamed trivial)
  exact ⟨s, _, rfl, by decide +kernel, hloop, hoff⟩

/-- The second line writes 0xC4 to the control register of the mux, with channel 0 still cached.
The stop then finds channel 0 cached and goes to the drivers behind channels 2, 6 and 7. -/
theorem stop_misdirected : ∃ s,
    ["move 0 96 10 1\n".toList, "move 0 112 0 1\n".toList, "stop 0 96\n".toList].foldlM
        (fun s available => loop motorBus 0 available s)
        (startLoop (setupMotors motorBus (bootMotor acked))) = .ok s ∧
      s.motor.wire.reg 0 0x60 0x07 = 0xC4 := by
  have hlines : completeLines ["move 0 96 10 1\n".toList, "move 0 112 0 1\n".toList,
      "stop 0 96\n".toList].flatten =
      ["move 0 96 10 1".toList, "move 0 112 0 1".toList, "stop 0 96".toList] := by decide
  have h1 : ∀ s, runLine motorBus 0 s "move 0 96 10 1".toList =
      .ok (variableMotionControl motorBus 0 0x60 10 true s) := fun _ => rfl
  have h2 : ∀ s, runLine motorBus 0 s "move 0 112 0 1".toList =
      .ok (variableMotionControl motorBus 0 0x70 0 true s) := fun _ => rfl
  have h3 : ∀ s, runLine motorBus 0 s "stop 0 96".toList =
      .ok (motorDriverStop motorBus 0 0x60 s) := fun _ => rfl
  have hrun : runLines motorBus 0 ["move 0 96 10 1".toList, "move 0 112 0 1".toList,
      "stop 0 96".toList] (setupMotors motorBus (bootMotor acked)) = .ok (motorDriverStop motorBus
        0 0x60 (variableMotionControl motorBus 0 0x70 0 true (variableMotionControl motorBus 0 0x60
          10 true (setupMotors motorBus (bootMotor acked))))) :=
    run_iff_foldlM.mp (.cons (h1 _) (.cons (h2 _) (.cons (h3 _) (.nil _))))
  rw [← hlines] at hrun
  obtain ⟨v, hloop, hv⟩ := exists_startLoop hrun
  refine ⟨v, hloop, ?_⟩
  rw [hv]
  decide +kernel

end QuadBot
