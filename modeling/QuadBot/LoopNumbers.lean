import QuadBot.LoopOps
import QuadBot.Scanning

/-! The numbers of a motor line, and what the operation of the line receives of them: the integers
become bytes at the call, and the end of a long line is lost. -/

namespace QuadBot

open Libc

/-! ### Numerals -/

inductive Sign
  | none
  | plus
  | minus
  deriving DecidableEq

def Sign.text : Sign → List Char
  | none => []
  | plus => ['+']
  | minus => ['-']

/-- An integer as a line spells it. -/
structure Numeral where
  sign : Sign
  digits : List Char
  ne_nil : digits ≠ []
  digit : ∀ c ∈ digits, isDigit 10 c = true

namespace Numeral

def negative (n : Numeral) : Bool := n.sign = .minus

def text (n : Numeral) : List Char := n.sign.text ++ n.digits

def value (n : Numeral) : Int :=
  if n.negative then -(digitsValue 10 n.digits : Int) else digitsValue 10 n.digits

/-- The integer that `%d` stores. -/
def stored (n : Numeral) : Int := longOf n.negative (digitsValue 10 n.digits)

/-- The numeral of the first digits. -/
def cut (n : Numeral) (i : Nat) (hi : 0 < i) : Numeral where
  sign := n.sign
  digits := n.digits.take i
  ne_nil := by
    rw [ne_eq, List.take_eq_nil_iff, not_or]
    exact ⟨hi.ne', n.ne_nil⟩
  digit c hc := n.digit c (List.mem_of_mem_take hc)

theorem scans (n : Numeral) {rest : List Char} (hrest : NoDigit rest) :
    Scans (' ' :: (n.text ++ rest)) n.negative n.digits rest where
  strip := by
    obtain ⟨c, cs, hcs⟩ := List.exists_cons_of_ne_nil n.ne_nil
    have hc : isDigit 10 c = true := n.digit c (by simp [hcs])
    have hspace : ¬ isSpace c = true := by
      intro hspace
      rw [isDigit_of_isSpace hspace] at hc
      cases hc
    rw [List.dropWhile_cons_of_pos (by decide), text, negative, List.append_assoc, hcs]
    cases n.sign with
    | none =>
      show stripSign ((c :: (cs ++ rest)).dropWhile isSpace) = _
      rw [List.dropWhile_cons_of_neg hspace, stripSign_of_isDigit hc]
      rfl
    | plus => rfl
    | minus => rfl
  ne_nil := n.ne_nil
  digit := n.digit
  noDigit := hrest

theorem byte_toNat (x : Int) : ((UInt8.ofInt x).toNat : Int) = x % 2 ^ 8 := by
  rw [UInt8.ofInt, UInt8.toNat_ofNat']
  omega

/-- A number arrives as a byte where it is one. -/
theorem stored_byte_iff (n : Numeral) :
    ((UInt8.ofInt n.stored).toNat : Int) = n.value ↔ 0 ≤ n.value ∧ n.value ≤ 255 := by
  rw [byte_toNat, stored, longOf, value, longMin, longMax]
  split <;> omega

/-- A number that is cut arrives as the byte that it is where it is 0. -/
theorem cut_byte_iff (n : Numeral) {i : Nat} (hi : 0 < i) :
    ((UInt8.ofInt (n.cut i hi).stored).toNat : Int) = n.value ↔
      (0 ≤ n.value ∧ n.value ≤ 255) ∧ (n.digits.length ≤ i ∨ n.value = 0) := by
  have hsplit : digitsValue 10 n.digits = digitsValue 10 (n.digits.take i) *
      10 ^ (n.digits.drop i).length + digitsValue 10 (n.digits.drop i) := by
    rw [← digitsValue_append, List.take_append_drop]
  by_cases hlen : n.digits.length ≤ i
  · have hcut : (n.cut i hi).stored = n.stored := by
      show longOf n.negative (digitsValue 10 (n.digits.take i)) = _
      rw [List.take_of_length_le hlen]
      rfl
    rw [hcut, stored_byte_iff, and_iff_left (Or.inl hlen)]
  · have hpow : 10 ≤ 10 ^ (n.digits.drop i).length := by
      apply Nat.le_self_pow
      rw [List.length_drop]
      omega
    have hmul := Nat.mul_le_mul_left (digitsValue 10 (n.digits.take i)) hpow
    have hzero : digitsValue 10 (n.digits.take i) = 0 →
        digitsValue 10 (n.digits.take i) * 10 ^ (n.digits.drop i).length = 0 := by
      intro h
      rw [h, Nat.zero_mul]
    show ((UInt8.ofInt (longOf n.negative (digitsValue 10 (n.digits.take i)))).toNat : Int) = _ ↔ _
    rw [byte_toNat, longOf, value, longMin, longMax]
    generalize digitsValue 10 (n.digits.take i) * 10 ^ (n.digits.drop i).length = shifted at *
    split <;> omega

end Numeral

/-- Each number after a blank. -/
def numeralsText (ns : List Numeral) : List Char := ns.flatMap fun n => ' ' :: n.text

theorem numeralsText_cons (n : Numeral) (ns : List Numeral) :
    numeralsText (n :: ns) = ' ' :: (n.text ++ numeralsText ns) := by
  rw [numeralsText, List.flatMap_cons, List.cons_append]
  rfl

theorem noDigit_blank (s : List Char) : NoDigit (' ' :: s) := by
  intro c hc
  cases hc
  decide

theorem noDigit_nil : NoDigit [] := by
  intro c hc
  cases hc

theorem noDigit_numerals (ns : List Numeral) {rest : List Char} (hrest : NoDigit rest) :
    NoDigit (numeralsText ns ++ rest) := by
  cases ns with
  | nil => exact hrest
  | cons n ns =>
    rw [numeralsText_cons]
    exact noDigit_blank _

theorem scanInts_numerals (ns : List Numeral) (k : Nat) {rest : List Char} (hrest : NoDigit rest) :
    scanInts (ns.length + k) (numeralsText ns ++ rest) =
      ns.map Numeral.stored ++ scanInts k rest := by
  induction ns with
  | nil => rw [List.length_nil, Nat.zero_add]; rfl
  | cons n ns ih =>
    have hscan := (n.scans (noDigit_numerals ns hrest)).scanInt
    rw [numeralsText_cons, List.length_cons, Nat.succ_add, List.cons_append, List.append_assoc,
      (scanInts_succ hscan _).1, ih, List.map_cons]
    rfl

/-! ### Motor lines -/

namespace MotorOp

/-- The word that makes `loop` execute the operation. -/
def word : MotorOp → Option MotorWord
  | variableMotion .. => some .move
  | stop .. => some .stop
  | defaultMotion .. => some .defaultMove
  | setMotion .. => some .setSpeeds
  | init .. | regControl .. | limitTriggers .. | currentEstimate .. | disableAll => none

/-- The channel, the address and the speeds that the operation receives. -/
def bytes : MotorOp → List UInt8
  | variableMotion m a speed _ => [m, a, speed]
  | setMotion m a one two => [m, a, one, two]
  | defaultMotion m a level _ => [m, a, level]
  | stop m a | init m a | regControl m a _ | limitTriggers m a | currentEstimate m a => [m, a]
  | disableAll => []

end MotorOp

namespace MotorWord

/-- How many of the integers are the channel, the address and the speeds. They come first. -/
def named : MotorWord → Nat
  | stop => 2
  | move | defaultMove => 3
  | setSpeeds => 4

theorem named_cases (w : MotorWord) : w.named = w.count ∨ w.named + 1 = w.count := by
  cases w <;> decide

theorem command_op_bytes {w : MotorWord} {ints : List Int} (h : ints.length = w.count) :
    ∃ op, (w.command ints).op = some op ∧ op.word = some w ∧
      op.bytes = (ints.take w.named).map UInt8.ofInt := by
  cases w with
  | stop =>
    obtain ⟨a, b, rfl⟩ := List.length_eq_two.mp h
    exact ⟨_, rfl, rfl, rfl⟩
  | move | defaultMove | setSpeeds =>
    obtain ⟨a, b, c, d, rfl⟩ := eq_four_of_length h
    exact ⟨_, rfl, rfl, rfl⟩

theorem name_length_le (w : MotorWord) : w.name.toList.length ≤ 11 := by
  cases w <;> decide

theorem name_plain (w : MotorWord) :
    ∀ c ∈ w.name.toList, (! isSpace c) = true ∧ c ≠ '\x00' ∧ isEol c = false := by
  have hall : w.name.toList.all (fun c => ! isSpace c && c != '\x00' && ! isEol c) = true := by
    cases w <;> rfl
  intro c hc
  have hplain := List.all_eq_true.mp hall c hc
  simp only [Bool.and_eq_true, bne_iff_ne, Bool.not_eq_true'] at hplain
  exact ⟨by rw [hplain.1.1]; rfl, hplain.1.2, hplain.2⟩

theorem name_ne_nil (w : MotorWord) : w.name.toList ≠ [] := by
  cases w <;> decide

end MotorWord

/-- A line of one of the four forms. -/
structure MotorLine where
  word : MotorWord
  init : List Numeral
  last : Numeral
  length_eq : init.length + 1 = word.count

namespace MotorLine

def numerals (l : MotorLine) : List Numeral := l.init ++ [l.last]

/-- The line up to the digits of its last number. -/
def head (l : MotorLine) : List Char :=
  l.word.name.toList ++ (numeralsText l.init ++ ' ' :: l.last.sign.text)

def text (l : MotorLine) : List Char := l.word.name.toList ++ numeralsText l.numerals

/-- The operation that the line makes `loop` execute. -/
def operation (l : MotorLine) : Option MotorOp := (commandOf (bufferedLine l.text)).op

/-- The operation is the one of the line's word, on the channel, address and speeds of the line. -/
def Carried (l : MotorLine) (op : MotorOp) : Prop :=
  op.word = some l.word ∧
    op.bytes.map (fun byte => (byte.toNat : Int)) =
      (l.numerals.take l.word.named).map Numeral.value

theorem text_eq (l : MotorLine) : l.text = l.head ++ l.last.digits := by
  rw [text, head, numerals, numeralsText, List.flatMap_append, List.flatMap_singleton, numeralsText,
    Numeral.text]
  simp only [List.append_assoc, List.cons_append]

end MotorLine

theorem map_concat_eq_iff {α β : Type} {f g : α → β} {as : List α} {a b : α} :
    as.map f ++ [a].map f = as.map g ++ [b].map g ↔ (∀ x ∈ as, f x = g x) ∧ f a = g b := by
  constructor
  · intro h
    obtain ⟨hinit, hlast⟩ := List.append_inj' h rfl
    exact ⟨List.map_inj_left.mp hinit, List.singleton_inj.mp hlast⟩
  · rintro ⟨hinit, hlast⟩
    rw [List.map_congr_left hinit, List.map_singleton, List.map_singleton, hlast]

/-! ### Scanning a line -/

/-- A word before a blank is scanned as it is. -/
theorem scanWord_blank {word : List Char} (hne : word ≠ [])
    (hword : ∀ c ∈ word, (! isSpace c) = true) (rest : List Char) :
    scanWord (word ++ ' ' :: rest) = some (word, ' ' :: rest) := by
  obtain ⟨c, cs, rfl⟩ := List.exists_cons_of_ne_nil hne
  have hc : ¬ isSpace c = true := by simpa using hword c List.mem_cons_self
  unfold scanWord
  rw [List.cons_append, List.dropWhile_cons_of_neg hc]
  dsimp only
  rw [← List.cons_append, List.takeWhile_append_of_pos hword, List.dropWhile_append_of_pos hword]
  show some (c :: cs ++ [], ' ' :: rest) = _
  rw [List.append_nil]

theorem numeralsText_eq_cons {ns : List Numeral} (h : ns ≠ []) :
    ∃ body, numeralsText ns = ' ' :: body := by
  obtain ⟨n, ns, rfl⟩ := List.exists_cons_of_ne_nil h
  exact ⟨_, numeralsText_cons n ns⟩

theorem numeralsText_plain (ns : List Numeral) :
    ∀ c ∈ numeralsText ns, c ≠ '\x00' ∧ isEol c = false := by
  intro c hc
  obtain ⟨n, -, hc⟩ := List.mem_flatMap.mp hc
  rcases List.mem_cons.mp hc with rfl | hc
  · decide
  · rcases List.mem_append.mp hc with hc | hc
    · cases hs : n.sign with
      | none =>
        rw [hs] at hc
        cases hc
      | plus | minus =>
        rw [hs] at hc
        rw [List.mem_singleton.mp hc]
        decide
    · have hdigit := n.digit c hc
      constructor
      · rintro rfl
        cases hdigit
      · rw [isEol, Bool.or_eq_false_iff, decide_eq_false_iff_not, decide_eq_false_iff_not]
        constructor <;> rintro rfl <;> cases hdigit

theorem bufferedLine_of_no_nul {text : List Char} (h : ∀ c ∈ text, c ≠ '\x00') :
    bufferedLine text = text.take 31 := by
  apply List.takeWhile_eq_self_iff.mpr
  intro c hc
  exact decide_eq_true (h c (List.mem_of_mem_take hc))

namespace MotorLine

variable (l : MotorLine)

theorem text_plain : ∀ c ∈ l.text, c ≠ '\x00' ∧ isEol c = false := by
  intro c hc
  rcases List.mem_append.mp hc with hc | hc
  · exact (l.word.name_plain c hc).2
  · exact numeralsText_plain l.numerals c hc

theorem bufferedLine_text : bufferedLine l.text =
    l.head.take 31 ++ l.last.digits.take (31 - l.head.length) := by
  rw [bufferedLine_of_no_nul fun c hc => (l.text_plain c hc).1, text_eq, List.take_append]

theorem scanWord_name (body : List Char) : scanWord (l.word.name.toList ++ ' ' :: body) =
    some (l.word.name.toList, ' ' :: body) :=
  scanWord_blank l.word.name_ne_nil (fun c hc => (l.word.name_plain c hc).1) body

theorem firstWord_short : (firstWord (bufferedLine l.text)).length < 16 := by
  have hname := l.word.name_length_le
  have hne : l.numerals ≠ [] := by simp [numerals]
  obtain ⟨body, hbody⟩ := numeralsText_eq_cons hne
  obtain ⟨k, hk⟩ : ∃ k, 31 - l.word.name.toList.length = k + 1 :=
    ⟨30 - l.word.name.toList.length, by omega⟩
  rw [bufferedLine_of_no_nul fun c hc => (l.text_plain c hc).1, text, hbody, List.take_append,
    List.take_of_length_le (by omega), hk, List.take_succ_cons,
    firstWord_of_scanWord (l.scanWord_name _)]
  omega

variable {l}

theorem operation_of_body {body : List Char}
    (h : bufferedLine l.text = l.word.name.toList ++ ' ' :: body) :
    l.operation = (l.word.command (scanInts l.word.count (' ' :: body))).op := by
  rw [operation, h, commandOf_word (l.scanWord_name body)]

/-- Where the buffer holds `i` digits of the last number, these are the number that is stored. -/
theorem operation_of_kept {i : Nat} (hi : 0 < i) (h : l.head.length + i = 31) :
    l.operation =
      (l.word.command ((l.init ++ [l.last.cut i hi]).map Numeral.stored)).op := by
  have hne : l.init ++ [l.last.cut i hi] ≠ [] := by simp
  obtain ⟨body, hbody⟩ := numeralsText_eq_cons hne
  have hcut : 31 - l.head.length = i := by omega
  have hline : bufferedLine l.text = l.word.name.toList ++ ' ' :: body := by
    rw [bufferedLine_text, List.take_of_length_le (by omega), hcut, ← hbody, head, numeralsText,
      numeralsText, List.flatMap_append, List.flatMap_singleton, Numeral.text]
    simp only [List.append_assoc, List.cons_append]
    rfl
  have hints : scanInts l.word.count (' ' :: body) =
      (l.init ++ [l.last.cut i hi]).map Numeral.stored := by
    have hscan := scanInts_numerals (l.init ++ [l.last.cut i hi]) 0 noDigit_nil
    rw [List.append_nil, scanInts, List.append_nil, hbody, List.length_append,
      List.length_singleton, Nat.add_zero, l.length_eq] at hscan
    exact hscan
  rw [operation_of_body hline, hints]

/-- Where it holds none, the line is rejected: too few numbers are left. -/
theorem operation_of_lost (h : 31 ≤ l.head.length) : l.operation = none := by
  have hname := l.word.name_length_le
  obtain ⟨body, hbody⟩ : ∃ body, numeralsText l.init ++ ' ' :: l.last.sign.text = ' ' :: body := by
    cases hinit : l.init with
    | nil => exact ⟨_, rfl⟩
    | cons n ns =>
      rw [numeralsText_cons]
      exact ⟨_, rfl⟩
  obtain ⟨k, hk⟩ : ∃ k, 31 - l.word.name.toList.length = k + 1 :=
    ⟨30 - l.word.name.toList.length, by omega⟩
  have hline : bufferedLine l.text = l.word.name.toList ++ ' ' :: body.take k := by
    rw [bufferedLine_text, Nat.sub_eq_zero_of_le h, List.take_zero, List.append_nil, head, hbody,
      List.take_append, List.take_of_length_le (by omega), hk, List.take_succ_cons]
  have hscan : scanInts (l.init.length + 1) (' ' :: body) = l.init.map Numeral.stored := by
    have hnone : scanInts 1 (' ' :: l.last.sign.text) = [] := by
      cases l.last.sign <;> decide
    rw [← hbody, scanInts_numerals l.init 1 (noDigit_blank _), hnone, List.append_nil]
  have hlen : (scanInts l.word.count (' ' :: body.take k)).length ≠ l.word.count := by
    intro hlen
    have hlonger := length_scanInts_append hlen (body.drop k)
    rw [List.cons_append, List.take_append_drop, ← l.length_eq, hscan, List.length_map] at hlonger
    omega
  rw [operation_of_body hline, MotorWord.command_of_length_ne hlen]
  rfl

/-- The numbers that the operation receives, where the last one is `n`. -/
theorem carried_iff {n : Numeral} {op : MotorOp}
    (hop : (l.word.command ((l.init ++ [n]).map Numeral.stored)).op = some op) :
    l.Carried op ↔
      (∀ m ∈ l.init, ((UInt8.ofInt m.stored).toNat : Int) = m.value) ∧
      (l.word.named = l.word.count → ((UInt8.ofInt n.stored).toNat : Int) = l.last.value) := by
  have hlen : ((l.init ++ [n]).map Numeral.stored).length = l.word.count := by
    rw [List.length_map, List.length_append, List.length_singleton, l.length_eq]
  obtain ⟨op', hop', hword, hbytes⟩ := MotorWord.command_op_bytes hlen
  obtain rfl : op' = op := Option.some.inj (hop'.symm.trans hop)
  have hlast := l.length_eq
  rw [Carried, hbytes, numerals, and_iff_right hword, ← List.map_take, List.map_map, List.map_map]
  rcases l.word.named_cases with hnamed | hnamed
  · rw [List.take_of_length_le (by simp; omega), List.take_of_length_le (by simp; omega),
      List.map_append, List.map_append, forall_prop_of_true hnamed]
    exact map_concat_eq_iff
  · have hinit : l.init.length = l.word.named := by omega
    have hne : l.word.named ≠ l.word.count := by omega
    rw [List.take_left' hinit, List.take_left' hinit, and_iff_left (fun h => absurd h hne)]
    exact List.map_inj_left

/-- The numbers of the line as they are written, the ones that the operation receives. -/
theorem mem_named_iff (P : Numeral → Prop) : (∀ n ∈ l.numerals.take l.word.named, P n) ↔
    (∀ n ∈ l.init, P n) ∧ (l.word.named = l.word.count → P l.last) := by
  have hlast := l.length_eq
  rw [numerals]
  rcases l.word.named_cases with hnamed | hnamed
  · rw [List.take_of_length_le (by simp; omega), List.forall_mem_append, List.forall_mem_singleton,
      forall_prop_of_true hnamed]
  · have hinit : l.init.length = l.word.named := by omega
    have hne : l.word.named ≠ l.word.count := by omega
    rw [List.take_left' hinit, and_iff_left (fun h => absurd h hne)]

end MotorLine

/-- A motor line of four forms is carried out as it is written, or not at all, exactly where the
buffer holds no digit of its last number, or where the numbers of its channel, address and speeds
are bytes and the buffer cuts none of them, but for a 0. -/
theorem line_numbers_iff (l : MotorLine) :
    (∀ (σ : Type) (bus : Bus σ) (fuel : Nat) (s : Loop σ) (eol : Char), s.inputPos = 0 →
      isEol eol = true → ∃ buffer, loop bus fuel (l.text ++ [eol]) s =
        (execAll bus fuel l.operation.toList s.motor).map fun motor => ⟨buffer, 0, motor⟩) ∧
    ((∀ op, l.operation = some op → l.Carried op) ↔
      31 + l.last.digits.length ≤ l.text.length ∨
      (∀ n ∈ l.numerals.take l.word.named, 0 ≤ n.value ∧ n.value ≤ 255) ∧
        (l.word.named = l.word.count → l.text.length ≤ 31 ∨ l.last.value = 0)) := by
  have hlength : l.text.length = l.head.length + l.last.digits.length := by
    rw [l.text_eq, List.length_append]
  constructor
  · intro σ bus fuel s eol hs heol
    obtain ⟨buffer, hloop⟩ := loop_line bus fuel hs (fun c hc => (l.text_plain c hc).2) heol
    refine ⟨buffer, ?_⟩
    rw [hloop, runLine_eq bus fuel s.motor l.firstWord_short, ← commandOf_op]
    rfl
  · rcases Nat.lt_or_ge l.head.length 31 with hkept | hlost
    · have hi : 0 < 31 - l.head.length := by omega
      have hop : l.operation = _ := MotorLine.operation_of_kept hi (by omega)
      have hints : ((l.init ++ [l.last.cut _ hi]).map Numeral.stored).length = l.word.count := by
        rw [List.length_map, List.length_append, List.length_singleton, l.length_eq]
      obtain ⟨op, hcommand, -⟩ := MotorWord.command_op_bytes hints
      rw [hop, hcommand]
      simp only [Option.some.injEq, forall_eq']
      rw [MotorLine.carried_iff hcommand, MotorLine.mem_named_iff, Numeral.cut_byte_iff]
      simp only [Numeral.stored_byte_iff]
      have hkeeps : ¬ 31 + l.last.digits.length ≤ l.text.length := by omega
      have hwhole : l.last.digits.length ≤ 31 - l.head.length ↔ l.text.length ≤ 31 := by omega
      rw [hwhole, or_iff_right hkeeps, imp_and, and_assoc]
    · rw [MotorLine.operation_of_lost hlost]
      apply iff_of_true
      · intro op hop
        cases hop
      · left
        omega

/-- The channel 256 becomes the channel 0 at the call. -/
theorem stop_256_stops_channel_0 : ∃ l : MotorLine, l.text = "stop 256 96".toList ∧
    l.operation = some (.stop 0 96) ∧ ¬ l.Carried (.stop 0 96) := by
  refine ⟨⟨.stop, [⟨.none, "256".toList, by decide, List.all_eq_true.mp rfl⟩],
    ⟨.none, "96".toList, by decide, List.all_eq_true.mp rfl⟩, rfl⟩, by decide, by decide, ?_⟩
  intro h
  exact absurd h.2 (by decide)

end QuadBot
