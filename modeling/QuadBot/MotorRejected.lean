import QuadBot.MotorRuns

/-! Motor commands with a channel number above 7. The selection rejects it, but reports nothing to
its caller, whose register writes go to whatever channel is open, or to the mux itself. -/

namespace QuadBot

open Lts

/-- The writes that are acknowledged, each taking its outcome from the stream. -/
def ackedWrites : Stream' Bool → List (UInt8 × UInt8) → List (UInt8 × UInt8)
  | _, [] => []
  | acks, w :: ws =>
    if acks.head then w :: ackedWrites acks.tail ws else ackedWrites acks.tail ws

/-- A write of the value `w.2` to the register `w.1` of the drivers at `a` behind the open
channels. -/
def Bank.writeOpen (control a : UInt8) (R : Bank) (w : UInt8 × UInt8) : Bank := fun c b r =>
  if isOpen control c ∧ b = a ∧ r = w.1 then w.2 else R c b r

theorem eq_zero_of_closed {control : UInt8} (h : ∀ c, isOpen control c = false) : control = 0 := by
  apply UInt8.toNat_inj.mp
  apply Nat.eq_of_testBit_eq
  intro i
  rw [UInt8.toNat_zero, Nat.zero_testBit]
  by_cases hi : i < 8
  · exact h ⟨i, hi⟩
  · have hlt : control.toNat < 2 ^ i := by
      calc control.toNat < 2 ^ 8 := control.toNat_lt
        _ ≤ 2 ^ i := Nat.pow_le_pow_right (by decide) (by omega)
    exact Nat.testBit_lt_two_pow hlt

/-! ### Writes with any outcomes -/

section

variable {s : Motor MotorBus} {a : UInt8}

theorem wr_reg_outcome (ha : a ≠ I2C_MUX_ADDRESS) (w : UInt8 × UInt8) :
    (s.wr motorBus a w.1 w.2).wire.reg =
      if s.wire.acks.head then Bank.writeOpen s.wire.control a s.wire.reg w else s.wire.reg := by
  simp only [Motor.wr, i2cWr, motorBus, MotorBus.deliver, MotorBus.record, ha, if_false]
  split <;> rfl

theorem wr_control_outcome (w : UInt8 × UInt8) :
    (s.wr motorBus I2C_MUX_ADDRESS w.1 w.2).wire.control =
      if s.wire.acks.head then w.2 else s.wire.control := by
  simp only [Motor.wr, i2cWr, motorBus, MotorBus.deliver, MotorBus.record, if_true]
  split <;> simp

theorem send_reg_outcome (ha : a ≠ I2C_MUX_ADDRESS) (ws : List (UInt8 × UInt8)) :
    (s.send motorBus a ws).wire.reg =
      (ackedWrites s.wire.acks ws).foldl (Bank.writeOpen s.wire.control a) s.wire.reg := by
  induction ws generalizing s with
  | nil => rfl
  | cons w ws ih =>
    rw [send_cons, ih, wr_control_driver _ _ _ _ ha, wr_acks, wr_reg_outcome ha, ackedWrites]
    split <;> rfl

theorem send_mux_reg (ws : List (UInt8 × UInt8)) :
    (s.send motorBus I2C_MUX_ADDRESS ws).wire.reg = s.wire.reg := by
  induction ws generalizing s with
  | nil => rfl
  | cons w ws ih => rw [send_cons, ih, wr_reg_mux]

theorem send_mux_control (ws : List (UInt8 × UInt8)) :
    (s.send motorBus I2C_MUX_ADDRESS ws).wire.control =
      ((ackedWrites s.wire.acks ws).map Prod.snd).getLastD s.wire.control := by
  induction ws generalizing s with
  | nil => rfl
  | cons w ws ih =>
    rw [send_cons, ih, wr_acks, wr_control_outcome, ackedWrites]
    split
    · rw [List.map_cons, List.getLastD_cons]
    · rfl

/-- Writes change no driver, whatever the drivers hold, exactly where no channel is open or no
write arrives. -/
theorem foldl_writeOpen_iff {control : UInt8} (ws : List (UInt8 × UInt8)) :
    (∀ R : Bank, ws.foldl (Bank.writeOpen control a) R = R) ↔ control = 0 ∨ ws = [] := by
  constructor
  · intro h
    by_contra hnot
    obtain ⟨hcontrol, hws⟩ := not_or.mp hnot
    obtain ⟨c, hopen⟩ : ∃ c, isOpen control c = true := by
      by_contra hclosed
      simp only [not_exists, Bool.not_eq_true] at hclosed
      exact hcontrol (eq_zero_of_closed hclosed)
    obtain ⟨front, last, rfl⟩ : ∃ front last, ws = front ++ [last] :=
      ⟨_, _, (List.dropLast_append_getLast hws).symm⟩
    -- Registers that all differ from what the last write stores.
    have hkept := congrFun (congrFun (congrFun (h fun _ _ _ => last.2 + 1) c) a) last.1
    rw [List.foldl_append] at hkept
    simp [Bank.writeOpen, hopen] at hkept
  · rintro (rfl | rfl) R
    · induction ws generalizing R with
      | nil => rfl
      | cons w ws ih =>
        rw [List.foldl_cons, ih]
        funext c b r
        simp [Bank.writeOpen, isOpen_zero]
    · rfl

end

/-! ### Rejected calls -/

/-- A call of a writing command with a rejected channel number returns with the selection as it was,
in the mux and in the cache, and whatever the drivers hold, they hold it afterwards. -/
def RejectedSpares (fuel : Nat) (s : Motor MotorBus) (op : MotorOp) : Prop :=
  ∀ m a, op.target = some (m, a) → 7 < m → op.reads = none → ∀ R : Bank,
    ∃ t, op.exec motorBus fuel { s with wire := { s.wire with reg := R } } = .ok t ∧
      t.wire.reg = R ∧ t.wire.control = s.wire.control ∧ t.currentChannel = s.currentChannel

/-- What such a call writes goes nowhere: no write is acknowledged, or no channel is open, or, at
the address of the mux, the last byte that arrives is what its control register holds. -/
def RejectedLost (s : Motor MotorBus) (op : MotorOp) : Prop :=
  ∀ m a, op.target = some (m, a) → 7 < m → op.reads = none →
    if a = I2C_MUX_ADDRESS then
      ((ackedWrites s.wire.acks op.writes).map Prod.snd).getLastD s.wire.control = s.wire.control
    else s.wire.control = 0 ∨ ackedWrites s.wire.acks op.writes = []

/-- After a rejected selection a writing command goes on with its writes. -/
theorem exec_rejected_channel (fuel : Nat) {op : MotorOp} {m a : UInt8}
    (ht : op.target = some (m, a)) (hm : 7 < m) (hr : op.reads = none) (s : Motor MotorBus) :
    ∃ u : Motor MotorBus, op.exec motorBus fuel s = .ok (u.send motorBus a op.writes) ∧
      u.wire = s.wire ∧ u.currentChannel = s.currentChannel := by
  obtain ⟨hcur, hwire⟩ := select_rejected hm s
  refine ⟨i2cSelectChannel motorBus I2C_MUX_ADDRESS m s, ?_, hwire, hcur⟩
  rw [MotorOp.exec_eq motorBus fuel ht s, MotorOp.access, hr]

theorem rejectedSpares_iff (fuel : Nat) (s : Motor MotorBus) (op : MotorOp) :
    RejectedSpares fuel s op ↔ RejectedLost s op := by
  refine forall₂_congr fun m a => forall₃_congr fun ht hm hr => ?_
  have hspared : ∀ R : Bank, (∃ t,
      op.exec motorBus fuel { s with wire := { s.wire with reg := R } } = .ok t ∧
        t.wire.reg = R ∧ t.wire.control = s.wire.control ∧
          t.currentChannel = s.currentChannel) ↔
      if a = I2C_MUX_ADDRESS then
        ((ackedWrites s.wire.acks op.writes).map Prod.snd).getLastD s.wire.control =
          s.wire.control
      else (ackedWrites s.wire.acks op.writes).foldl (Bank.writeOpen s.wire.control a) R = R := by
    intro R
    obtain ⟨u, hexec, hwire, hcur⟩ :=
      exec_rejected_channel fuel ht hm hr { s with wire := { s.wire with reg := R } }
    rw [hexec]
    simp only [Except.ok.injEq, exists_eq_left', send_currentChannel, hcur, and_true]
    split
    · rename_i hmux
      rw [hmux, send_mux_reg, send_mux_control, hwire]
      exact and_iff_right rfl
    · rename_i hdriver
      rw [send_reg_outcome hdriver, send_control hdriver, hwire]
      exact and_iff_left rfl
  rw [forall_congr' hspared]
  split
  · exact forall_const Bank
  · exact foldl_writeOpen_iff _

/-- Over every run of commands from any state, whatever is acknowledged: the calls with a rejected
channel number write no register and leave the selection alone exactly where what they write goes
nowhere. -/
theorem rejected_spares_iff (fuel : Nat) (s : Motor MotorBus) (ops : List MotorOp) :
    Guarded (motorStep fuel) (RejectedSpares fuel) s ops ↔
      Guarded (motorStep fuel) RejectedLost s ops := by
  apply guarded_iff (fun _ => True)
  · exact fun s op _ _ => rejectedSpares_iff fuel s op
  · exact fun _ _ _ _ _ _ _ => trivial
  · exact fun op _ => (trivial : True)
  · trivial

/-- While channel 0 is open, a stop of channel 9 stops the motor on channel 0. -/
theorem rejected_stop_writes : ¬ Guarded (motorStep 0) (RejectedSpares 0) (bootMotor acked)
    [.init 0 0x60, .stop 9 0x60] := by
  rintro ⟨-, h⟩
  have hlost := (rejectedSpares_iff 0 _ _).mp (h _ rfl).1 9 0x60 rfl (by decide) rfl
  rw [if_neg (by decide)] at hlost
  revert hlost
  decide

end QuadBot
