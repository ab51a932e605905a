import QuadBot.LoopReports
import QuadBot.LoopNumbers

/-! The other end of the serial line. A host that spells its commands with decimal numbers is
understood: `loop` executes the commands that were spelled, and no text at all makes it execute
anything else. -/

namespace QuadBot

open Libc

/-! ### Decimal numerals -/

theorem digitValue_of_isDigit {c : Char} (h : c.isDigit = true) :
    digitValue c = some (c.toNat - '0'.toNat) := by
  have hrange : '0' ≤ c ∧ c ≤ '9' := by
    rw [Char.isDigit, Bool.and_eq_true, decide_eq_true_eq, decide_eq_true_eq] at h
    exact h
  rw [digitValue, if_pos hrange]

theorem isDigit_ten {c : Char} (h : c.isDigit = true) : isDigit 10 c = true := by
  rw [isDigit, digitValue_of_isDigit h]
  rw [Char.isDigit, Bool.and_eq_true, decide_eq_true_eq, decide_eq_true_eq] at h
  have hle : c.toNat ≤ 57 := h.2
  exact decide_eq_true (show c.toNat - 48 < 10 by omega)

theorem digitsValue_of_isDigit {digits : List Char} (h : ∀ c ∈ digits, c.isDigit = true) :
    digitsValue 10 digits = Nat.ofDigitChars 10 digits 0 := by
  have hfold : ∀ n : Nat, digits.foldl (fun n c => n * 10 + (digitValue c).getD 0) n =
      Nat.ofDigitChars 10 digits n := by
    induction digits with
    | nil => simp
    | cons c digits ih =>
      intro n
      rw [List.forall_mem_cons] at h
      rw [List.foldl_cons, ih h.2, Nat.ofDigitChars_cons, digitValue_of_isDigit h.1, Nat.mul_comm]
      rfl
  exact hfold 0

theorem isDigit_of_mem_toDigits {n : Nat} {c : Char} (h : c ∈ Nat.toDigits 10 n) :
    c.isDigit = true :=
  Nat.isDigit_of_mem_toDigits (by decide) (by decide) h

/-- A number in decimal, without a sign. -/
def Numeral.ofNat (n : Nat) : Numeral where
  sign := .none
  digits := Nat.toDigits 10 n
  ne_nil := Nat.toDigits_ne_nil
  digit _ hc := isDigit_ten (isDigit_of_mem_toDigits hc)

theorem stored_ofNat {n : Nat} (h : n < 256) : (Numeral.ofNat n).stored = n := by
  have hvalue : digitsValue 10 (Nat.toDigits 10 n) = n :=
    (digitsValue_of_isDigit fun _ hc => isDigit_of_mem_toDigits hc).trans
      Nat.ofDigitChars_ten_toDigits
  show longOf false (digitsValue 10 (Nat.toDigits 10 n)) = n
  rw [hvalue, longOf, longMin, longMax]
  simp only [Bool.false_eq_true, if_false]
  omega

theorem length_numeralsText {ns : List Nat} (h : ∀ n ∈ ns, n < 256) :
    (numeralsText (ns.map .ofNat)).length ≤ 4 * ns.length := by
  induction ns with
  | nil => exact Nat.le_refl 0
  | cons n ns ih =>
    rw [List.forall_mem_cons] at h
    have hdigits : (Nat.toDigits 10 n).length ≤ 3 :=
      (Nat.length_toDigits_le_iff (by decide) (by decide)).mpr (by omega)
    have hrest := ih h.2
    have htext : (Numeral.ofNat n).text = Nat.toDigits 10 n := rfl
    rw [List.map_cons, numeralsText_cons, htext, List.length_cons, List.length_append,
      List.length_cons]
    omega

/-! ### Lines -/

namespace MotorWord

/-- The word and the numbers after it. -/
def spell (w : MotorWord) (ns : List Nat) : List Char :=
  w.name.toList ++ numeralsText (ns.map .ofNat)

variable {w : MotorWord} {ns : List Nat}

theorem spell_plain : ∀ c ∈ w.spell ns, c ≠ '\x00' ∧ isEol c = false := by
  intro c hc
  rcases List.mem_append.mp hc with hc | hc
  · exact (w.name_plain c hc).2
  · exact numeralsText_plain _ c hc

/-- The longest line is "defaultmove 255 255 255 255", so that none is cut. -/
theorem bufferedLine_spell (hlen : ns.length = w.count) (hbyte : ∀ n ∈ ns, n < 256) :
    bufferedLine (w.spell ns) = w.spell ns := by
  have hname := w.name_length_le
  have hnumerals := length_numeralsText hbyte
  have hcount : w.count ≤ 4 := by cases w <;> decide
  have hfits : (w.spell ns).length ≤ 31 := by
    rw [spell, List.length_append]
    omega
  rw [bufferedLine_of_no_nul fun c hc => (spell_plain c hc).1, List.take_of_length_le hfits]

theorem scanWord_spell (hlen : ns.length = w.count) :
    scanWord (w.spell ns) = some (w.name.toList, numeralsText (ns.map .ofNat)) := by
  have hne : ns.map Numeral.ofNat ≠ [] := by
    rintro hnil
    rw [List.map_eq_nil_iff] at hnil
    subst hnil
    cases w <;> cases hlen
  obtain ⟨body, hbody⟩ := numeralsText_eq_cons hne
  rw [spell, hbody]
  exact scanWord_blank w.name_ne_nil (fun c hc => (w.name_plain c hc).1) body

theorem lineOp_spell (hlen : ns.length = w.count) (hbyte : ∀ n ∈ ns, n < 256) :
    lineOp (bufferedLine (w.spell ns)) = (w.command (ns.map Int.ofNat)).op := by
  have hstored : (ns.map Numeral.ofNat).map Numeral.stored = ns.map Int.ofNat := by
    rw [List.map_map]
    exact List.map_congr_left fun n hn => stored_ofNat (hbyte n hn)
  have hscan := scanInts_numerals (ns.map .ofNat) 0 noDigit_nil
  rw [List.append_nil, scanInts, List.append_nil, List.length_map, hlen, Nat.add_zero, hstored]
    at hscan
  rw [bufferedLine_spell hlen hbyte, ← commandOf_op, commandOf_word (scanWord_spell hlen), hscan]

theorem firstWord_spell (hlen : ns.length = w.count) (hbyte : ∀ n ∈ ns, n < 256) :
    (firstWord (bufferedLine (w.spell ns))).length < 16 := by
  have hname := w.name_length_le
  rw [bufferedLine_spell hlen hbyte, firstWord_of_scanWord (scanWord_spell hlen)]
  omega

end MotorWord

/-! ### The host -/

/-- A command of the host. -/
inductive HostCommand
  | move (muxChannel chipAddress speed : UInt8) (direction : Bool)
  | stop (muxChannel chipAddress : UInt8)
  | defaultMove (muxChannel chipAddress speedLevel : UInt8) (direction : Bool)
  | setSpeeds (muxChannel chipAddress speedOne speedTwo : UInt8)
  | testA
  | testB
  | testC
  | testD
  deriving DecidableEq

namespace HostCommand

def op : HostCommand → MotorOp
  | move m a speed direction => .variableMotion m a speed direction
  | stop m a => .stop m a
  | defaultMove m a level direction => .defaultMotion m a level direction
  | setSpeeds m a one two => .setMotion m a one two
  | testA => .regControl 7 MOTOR_DRIVER_DEFAULT_ADDRESS false
  | testB => .regControl 7 MOTOR_DRIVER_DEFAULT_ADDRESS true
  | testC => .currentEstimate 7 MOTOR_DRIVER_DEFAULT_ADDRESS
  | testD => .limitTriggers 7 MOTOR_DRIVER_DEFAULT_ADDRESS

/-- The line that the host sends. -/
def line : HostCommand → List Char
  | move m a speed direction =>
    MotorWord.move.spell [m.toNat, a.toNat, speed.toNat, direction.toNat]
  | stop m a => MotorWord.stop.spell [m.toNat, a.toNat]
  | defaultMove m a level direction =>
    MotorWord.defaultMove.spell [m.toNat, a.toNat, level.toNat, direction.toNat]
  | setSpeeds m a one two => MotorWord.setSpeeds.spell [m.toNat, a.toNat, one.toNat, two.toNat]
  | testA => ['a']
  | testB => ['b']
  | testC => ['c']
  | testD => ['d']

example : (setSpeeds 3 0x60 255 0).line = "setspeeds 3 96 255 0".toList := by decide

/-- What `loop` makes of a line that it buffers whole. -/
structure Understood (c : HostCommand) : Prop where
  plain : ∀ d ∈ c.line, isEol d = false
  buffered : bufferedLine c.line = c.line
  op : lineOp (bufferedLine c.line) = some c.op
  fits : (firstWord (bufferedLine c.line)).length < 16

theorem ofInt_toNat (b : UInt8) : UInt8.ofInt (b.toNat : Int) = b := by
  have hb := b.toNat_lt
  have hbyte := Numeral.byte_toNat b.toNat
  apply UInt8.toNat_inj.mp
  omega

theorem understood_spell {c : HostCommand} {w : MotorWord} {ns : List Nat}
    (hline : c.line = w.spell ns) (hlen : ns.length = w.count) (hbyte : ∀ n ∈ ns, n < 256)
    (hop : (w.command (ns.map Int.ofNat)).op = some c.op) : c.Understood where
  plain d hd := (MotorWord.spell_plain d (hline ▸ hd)).2
  buffered := hline ▸ MotorWord.bufferedLine_spell hlen hbyte
  op := by rw [hline, MotorWord.lineOp_spell hlen hbyte, hop]
  fits := hline ▸ MotorWord.firstWord_spell hlen hbyte

theorem understood (c : HostCommand) : c.Understood := by
  have hbyte (b : UInt8) : b.toNat < 256 := b.toNat_lt
  have hbool (direction : Bool) : direction.toNat < 256 := by cases direction <;> decide
  cases c with
  | move m a speed direction =>
    apply understood_spell rfl rfl (by simp [hbyte, hbool])
    simp [MotorWord.command, Command.op, op, ofInt_toNat]
  | stop m a =>
    apply understood_spell rfl rfl (by simp [hbyte])
    simp [MotorWord.command, Command.op, op, ofInt_toNat]
  | defaultMove m a level direction =>
    apply understood_spell rfl rfl (by simp [hbyte, hbool])
    simp [MotorWord.command, Command.op, op, ofInt_toNat]
  | setSpeeds m a one two =>
    apply understood_spell rfl rfl (by simp [hbyte])
    simp [MotorWord.command, Command.op, op, ofInt_toNat]
  | testA | testB | testC | testD =>
    exact ⟨List.forall_mem_singleton.mpr rfl, by decide, by decide, by decide⟩

/-- `loop` executes nothing that a host could not ask for. -/
theorem exists_of_lineOp {text : List Char} {o : MotorOp} (h : lineOp text = some o) :
    ∃ c : HostCommand, c.op = o := by
  unfold lineOp at h
  repeat' split at h
  all_goals cases h
  · exact ⟨.move .., rfl⟩
  · exact ⟨.stop .., rfl⟩
  · exact ⟨.defaultMove .., rfl⟩
  · exact ⟨.setSpeeds .., rfl⟩
  · exact ⟨.testA, rfl⟩
  · exact ⟨.testB, rfl⟩
  · exact ⟨.testC, rfl⟩
  · exact ⟨.testD, rfl⟩

end HostCommand

/-! ### Streams -/

/-- The lines of the commands. -/
def hostText (cs : List HostCommand) : List Char := cs.flatMap fun c => c.line ++ ['\n']

theorem completeLines_hostText (cs : List HostCommand) :
    completeLines (hostText cs) = cs.map HostCommand.line := by
  induction cs with
  | nil => rfl
  | cons c cs ih =>
    have hsplit : hostText (c :: cs) = c.line ++ '\n' :: hostText cs := by
      simp [hostText]
    rw [hsplit, completeLines_append_cons c.understood.plain rfl, ih, List.map_cons]

theorem filterMap_line (cs : List HostCommand) :
    (cs.map HostCommand.line).filterMap (fun line => lineOp (bufferedLine line)) =
      cs.map HostCommand.op := by
  rw [List.filterMap_map, ← List.filterMap_eq_map]
  exact List.filterMap_congr fun c _ => c.understood.op

theorem runLines_hostText {σ : Type} (bus : Bus σ) (fuel : Nat) (cs : List HostCommand)
    (motor : Motor σ) : runLines bus fuel (completeLines (hostText cs)) motor =
      execAll bus fuel (cs.map HostCommand.op) motor := by
  have hfits : ∀ line ∈ cs.map HostCommand.line, (firstWord (bufferedLine line)).length < 16 := by
    intro line hline
    obtain ⟨c, -, rfl⟩ := List.mem_map.mp hline
    exact c.understood.fits
  rw [completeLines_hostText, runLines_eq bus fuel hfits, filterMap_line]

/-- The operations of any text are those of some commands. -/
theorem exists_host (stream : List Char) :
    ∃ cs : List HostCommand, cs.map HostCommand.op = lineOps stream := by
  suffices h : lineOps stream ∈ Set.range (List.map HostCommand.op) from h
  rw [Set.range_list_map]
  intro o ho
  obtain ⟨line, -, hop⟩ := List.mem_filterMap.mp ho
  exact HostCommand.exists_of_lineOp hop

/-- A host is understood: on every bus, and from every state of the motors, `loop` executes exactly
the commands whose lines it is sent, in whatever chunks they come, gets stuck only where one of them
does, and repeats each line as it was sent. -/
theorem host_understood {cs : List HostCommand} {chunks : List (List Char)}
    (h : chunks.flatten = hostText cs) {σ : Type} (bus : Bus σ) (fuel : Nat) (motor : Motor σ) :
    (chunks.foldlM (fun s available => loop bus fuel available s) (startLoop motor)).map
        (·.motor) = execAll bus fuel (cs.map HostCommand.op) motor ∧
      ∀ r, chunks.foldlM (fun r available => reportLoop bus fuel available r)
          ⟨startLoop motor, []⟩ = .ok r →
        r.reports.filterMap Report.echo = cs.map HostCommand.line := by
  constructor
  · rw [startLoop_lines, h, runLines_hostText]
  · intro r hr
    rw [reportLoop_echo hr, h, completeLines_hostText, List.map_map]
    exact List.map_congr_left fun c _ => c.understood.buffered

/-- Two commands in three pieces, on a bus that acknowledges nothing. -/
theorem host_understood_two_lines :
    (["setspeeds 3 9".toList, "6 255 0\nstop".toList, " 3 96\n".toList].foldlM
      (fun s available => loop motorBus 0 available s)
      (startLoop (bootMotor (Stream'.const false)))).map (·.motor) =
        execAll motorBus 0 [.setMotion 3 0x60 255 0, .stop 3 0x60]
          (bootMotor (Stream'.const false)) := by
  have htext : ["setspeeds 3 9".toList, "6 255 0\nstop".toList, " 3 96\n".toList].flatten =
      hostText [.setSpeeds 3 0x60 255 0, .stop 3 0x60] := by decide
  exact (host_understood htext motorBus 0 (bootMotor (Stream'.const false))).1

/-- On every bus, the states that `loop` can bring the motors into, over all texts and all chunks,
are those that runs of the host's commands lead to: no text does what no host can ask for, such as
the initialisation of a driver or a write to a register that the commands do not write. -/
theorem loop_reaches_iff {σ : Type} (bus : Bus σ) (fuel : Nat) (motor motor' : Motor σ) :
    (∃ (chunks : List (List Char)) (s : Loop σ), chunks.foldlM
        (fun s available => loop bus fuel available s) (startLoop motor) = .ok s ∧
          s.motor = motor') ↔
      ∃ cs : List HostCommand, execAll bus fuel (cs.map HostCommand.op) motor = .ok motor' := by
  constructor
  · rintro ⟨chunks, s, hrun, rfl⟩
    obtain ⟨cs, hcs⟩ := exists_host chunks.flatten
    exact ⟨cs, hcs ▸ execAll_of_loop hrun⟩
  · rintro ⟨cs, hexec⟩
    have hlines : runLines bus fuel (completeLines [hostText cs].flatten) motor = .ok motor' := by
      rw [List.flatten_singleton, runLines_hostText, hexec]
    obtain ⟨s, hs⟩ := exists_startLoop hlines
    exact ⟨_, s, hs⟩

end QuadBot
