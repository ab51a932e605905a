import QuadBot.BmsCore
import QuadBot.Lib.Appended

/-! The chip on the second I2C bus, at the address 0x49: it stores each word written at its register
and sends the words it stores, and a record is kept of the writes. Whether each transaction is
acknowledged comes from a stream of outcomes. -/

namespace QuadBot

/-- A register write put on the bus, with the conversion register of the chip when it was. -/
structure ChipWrite where
  address : UInt8
  register : UInt8
  data : UInt16
  conversion : UInt16
  deriving DecidableEq

structure BmsChip where
  reg : UInt8 → UInt16
  /-- The register that the chip sends next. -/
  pointer : UInt8
  /-- Whether the transactions from here on are acknowledged. -/
  acks : Stream' Bool
  log : List ChipWrite

namespace BmsChip

/-- A write transaction of three bytes, on record. -/
def record (address : UInt8) (bytes : List UInt8) (b : BmsChip) : BmsChip :=
  match bytes with
  | [register, highByte, lowByte] =>
    { b with
      acks := b.acks.tail
      log := b.log ++ [⟨address, register, wordOf highByte lowByte, b.reg 0x02⟩] }
  | _ => { b with acks := b.acks.tail }

/-- An acknowledged write transaction. The chip at 0x49 takes a register alone as the one to send
next, and a register and two bytes as a word to store. -/
def deliver (address : UInt8) (bytes : List UInt8) (b : BmsChip) : BmsChip :=
  if address = 0x49 then
    match bytes with
    | [register] => { b with pointer := register }
    | [register, highByte, lowByte] =>
      { b with reg := fun r => if r = register then wordOf highByte lowByte else b.reg r }
    | _ => b
  else b

end BmsChip

def bmsBus : Bus BmsChip where
  endTransmission b address bytes :=
    let ack := b.acks.head
    let b := b.record address bytes
    (ack, if ack then b.deliver address bytes else b)
  requestFrom b address count :=
    let ack := b.acks.head
    let word := b.reg b.pointer
    let b := { b with acks := b.acks.tail }
    (if ack ∧ address = 0x49 then [highByte word, lowByte word].take count else [], b)

/-- The chip at power-on, with all registers 0. -/
def bootChip (acks : Stream' Bool) : BmsChip where
  reg _ := 0
  pointer := 0
  acks
  log := []

/-- What was written between the two states, all of it `P`. -/
def WritesOnly (P : ChipWrite → Prop) (b b' : BmsChip) : Prop :=
  ∃ new, b'.log = b.log ++ new ∧ ∀ w ∈ new, P w

namespace WritesOnly

variable {P : ChipWrite → Prop} {a b c : BmsChip}

theorem iff_appended : WritesOnly P a b ↔ Appended P a.log b.log := Iff.rfl

theorem of_log_eq (h : b.log = a.log) : WritesOnly P a b := by
  rw [iff_appended, h]
  exact .refl a.log

theorem trans (hab : WritesOnly P a b) (hbc : WritesOnly P b c) : WritesOnly P a c :=
  Appended.trans (iff_appended.mp hab) (iff_appended.mp hbc)

theorem mono {Q : ChipWrite → Prop} (h : WritesOnly P a b) (hPQ : ∀ w, P w → Q w) :
    WritesOnly Q a b :=
  Appended.mono (iff_appended.mp h) hPQ

theorem foldl {α : Type} (f : Bms BmsChip → α → Bms BmsChip) {as : List α}
    (h : ∀ s, ∀ a ∈ as, WritesOnly P s.wire1 (f s a).wire1) (s : Bms BmsChip) :
    WritesOnly P s.wire1 (as.foldl f s).wire1 := by
  induction as generalizing s with
  | nil => exact of_log_eq rfl
  | cons a as ih =>
    exact (h s a (by simp)).trans (ih (fun s b hb => h s b (List.mem_cons_of_mem a hb)) (f s a))

end WritesOnly

section Write

variable (s : Bms BmsChip) (r : UInt8) (d : UInt16)

theorem write_log : (writeBMSData bmsBus 0x49 r d s).wire1.log =
    s.wire1.log ++ [⟨0x49, r, d, s.wire1.reg 0x02⟩] := by
  simp only [writeBMSData, bmsBus, BmsChip.record, BmsChip.deliver, wordOf_bytes, if_true]
  split <;> rfl

theorem write_acks : (writeBMSData bmsBus 0x49 r d s).wire1.acks = s.wire1.acks.tail := by
  simp only [writeBMSData, bmsBus, BmsChip.record, BmsChip.deliver, if_true]
  split <;> rfl

theorem write_active :
    (writeBMSData bmsBus 0x49 r d s).bmsConversionActive = s.bmsConversionActive := by
  simp only [writeBMSData]
  split <;> rfl

theorem write_reg (hs : s.wire1.acks = acked) (k : UInt8) :
    (writeBMSData bmsBus 0x49 r d s).wire1.reg k = if k = r then d else s.wire1.reg k := by
  simp only [writeBMSData, bmsBus, BmsChip.record, BmsChip.deliver, wordOf_bytes, hs, acked_head,
    if_true]

end Write

end QuadBot
