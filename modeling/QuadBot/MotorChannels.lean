import QuadBot.MotorBus
import QuadBot.Lib.Lts

/-! Runs of the motor commands through the channel cache. The cached channel and the control
register of the mux are a `Selector`; while it is coherent, every command reaches the driver that it
names and no other, and the register files change as if each driver were addressed directly. -/

namespace QuadBot

/-- The register files of the drivers behind the eight channels. -/
abbrev Bank := Fin 8 → UInt8 → UInt8 → UInt8

namespace Bank

/-- A write of the value `w.2` to the register `w.1` of the driver `a` behind channel `c`. -/
def write (c : Fin 8) (a : UInt8) (R : Bank) (w : UInt8 × UInt8) : Bank := fun c' a' r =>
  if c' = c ∧ a' = a ∧ r = w.1 then w.2 else R c' a' r

/-- A command on a bank whose drivers are wired to the controller one by one: no mux is in the way,
and a channel number above 7 names no driver. -/
def exec (op : MotorOp) (R : Bank) : Bank :=
  match op.target with
  | some (m, a) => if h : m.toNat < 8 then op.writes.foldl (write ⟨m.toNat, h⟩ a) R else R
  | none => R

theorem foldl_write_of_ne {c c' : Fin 8} {a a' : UInt8} (h : (c', a') ≠ (c, a))
    (ws : List (UInt8 × UInt8)) (R : Bank) : ws.foldl (write c a) R c' a' = R c' a' := by
  induction ws generalizing R with
  | nil => rfl
  | cons w ws ih =>
    rw [List.foldl_cons, ih]
    funext r
    have hne : ¬ (c' = c ∧ a' = a ∧ r = w.1) := fun hc => h (by rw [hc.1, hc.2.1])
    simp [write, hne]

theorem exec_channel {op : MotorOp} {c : Fin 8} {a : UInt8}
    (ht : op.target = some (UInt8.ofNat c.val, a)) (R : Bank) :
    exec op R = op.writes.foldl (write c a) R := by
  simp only [exec, ht, channel_toNat, c.isLt, dite_true]

theorem exec_frame {op : MotorOp} {c : Fin 8} {a : UInt8}
    (h : op.target ≠ some (UInt8.ofNat c.val, a)) (R : Bank) : exec op R c a = R c a := by
  unfold exec
  cases ht : op.target with
  | none => rfl
  | some target =>
    obtain ⟨m, b⟩ := target
    dsimp only
    split
    · apply foldl_write_of_ne
      intro heq
      obtain ⟨rfl, rfl⟩ := Prod.mk.inj heq
      exact h (by rw [ht, UInt8.ofNat_toNat])
    · rfl

end Bank

/-! ### The selection -/

/-- The channel cache and the control register of the mux. -/
def Motor.selector (s : Motor MotorBus) : Selector.State (Fin 8) UInt8 where
  cached :=
    if h : 0 ≤ s.currentChannel ∧ s.currentChannel < 8 then
      some ⟨s.currentChannel.toNat, by omega⟩
    else none
  register := s.wire.control

theorem cached_eq_some {s : Motor MotorBus} {c : Fin 8} :
    s.selector.cached = some c ↔ s.currentChannel = c.val := by
  have hc := c.isLt
  simp only [Motor.selector]
  split
  · simp only [Option.some.injEq, Fin.ext_iff]
    omega
  · simp only [reduceCtorEq, false_iff]
    omega

theorem selector_ext {S T : Selector.State (Fin 8) UInt8} (hc : ∀ c, S.cached = some c ↔
    T.cached = some c) (hr : S.register = T.register) : S = T := by
  obtain ⟨cached, register⟩ := S
  obtain ⟨cached', register'⟩ := T
  obtain rfl : cached = cached' := Option.ext hc
  obtain rfl : register = register' := hr
  rfl

/-- The firmware's channel selection is a `Selector.select` whose write arrives when it is
acknowledged. -/
theorem selector_select (c : Fin 8) (s : Motor MotorBus) :
    (i2cSelectChannel motorBus I2C_MUX_ADDRESS (UInt8.ofNat c.val) s).selector =
      Selector.select controlByte s.wire.acks.head c s.selector := by
  have hc : s.selector.cached = some c ↔ s.currentChannel = (UInt8.ofNat c.val).toNat := by
    rw [channel_toNat]; exact cached_eq_some
  unfold i2cSelectChannel Selector.select
  rw [if_neg (channel_not_gt c)]
  by_cases h : s.selector.cached = some c
  · rw [if_pos h, if_pos (hc.mp h)]
  · rw [if_neg h, if_neg (fun h' => h (hc.mpr h'))]
    apply selector_ext
    · intro d
      rw [cached_eq_some]
      simp only [channel_toNat, Option.some.injEq, Fin.ext_iff]
      omega
    · exact wrByte_control (controlByte c) s.wire

theorem select_reg (m : UInt8) (s : Motor MotorBus) :
    (i2cSelectChannel motorBus I2C_MUX_ADDRESS m s).wire.reg = s.wire.reg := by
  unfold i2cSelectChannel
  split
  · rfl
  · split
    · rfl
    · exact wrByte_reg (1 <<< m) s.wire

theorem select_log (m : UInt8) (s : Motor MotorBus) : ∃ new,
    (i2cSelectChannel motorBus I2C_MUX_ADDRESS m s).wire.log = s.wire.log ++ new ∧
      ∀ p ∈ new, p.address = I2C_MUX_ADDRESS := by
  unfold i2cSelectChannel
  split
  · exact ⟨[], by simp, by simp⟩
  · split
    · exact ⟨[], by simp, by simp⟩
    · exact ⟨_, wrByte_log (1 <<< m) s.wire, by simp⟩

theorem select_acked {m : UInt8} {s : Motor MotorBus} (hs : s.wire.acks = acked) :
    (i2cSelectChannel motorBus I2C_MUX_ADDRESS m s).wire.acks = acked := by
  unfold i2cSelectChannel
  split
  · exact hs
  · split
    · exact hs
    · exact (wrByte_acks (1 <<< m) s.wire).trans (congrArg Stream'.tail hs)

/-! ### Register accesses to one driver -/

section Access

variable {a : UInt8} {s : Motor MotorBus}

@[simp] theorem send_cons (r d : UInt8) (ws : List (UInt8 × UInt8)) :
    s.send motorBus a ((r, d) :: ws) = (s.wr motorBus a r d).send motorBus a ws := rfl

@[simp] theorem send_currentChannel (ws : List (UInt8 × UInt8)) :
    (s.send motorBus a ws).currentChannel = s.currentChannel := by
  induction ws generalizing s with
  | nil => rfl
  | cons w ws ih => rw [send_cons, ih, wr_currentChannel]

theorem send_acked (hs : s.wire.acks = acked) (ws : List (UInt8 × UInt8)) :
    (s.send motorBus a ws).wire.acks = acked := by
  induction ws generalizing s with
  | nil => exact hs
  | cons w ws ih => exact ih (by rw [wr_acks, hs, acked_tail])

theorem send_control (ha : a ≠ I2C_MUX_ADDRESS) (ws : List (UInt8 × UInt8)) :
    (s.send motorBus a ws).wire.control = s.wire.control := by
  induction ws generalizing s with
  | nil => rfl
  | cons w ws ih => rw [send_cons, ih, wr_control_driver _ _ _ _ ha]

theorem send_log (ha : a ≠ I2C_MUX_ADDRESS) (ws : List (UInt8 × UInt8)) : ∃ new,
    (s.send motorBus a ws).wire.log = s.wire.log ++ new ∧
      ∀ p ∈ new, p.control = s.wire.control ∧ p.address = a := by
  induction ws generalizing s with
  | nil => exact ⟨[], (List.append_nil _).symm, by simp⟩
  | cons w ws ih =>
    obtain ⟨new, hnew, hp⟩ := ih (s := s.wr motorBus a w.1 w.2)
    rw [wr_control_driver _ _ _ _ ha] at hp
    refine ⟨⟨s.wire.control, a, .write [w.1, w.2]⟩ :: new, ?_, ?_⟩
    · rw [send_cons, hnew, wr_log, List.append_assoc, List.singleton_append]
    · intro p hmem
      rcases List.mem_cons.mp hmem with rfl | hmem
      · exact ⟨rfl, rfl⟩
      · exact hp p hmem

theorem send_reg {c : Fin 8} (hs : s.wire.acks = acked) (hc : s.wire.control = controlByte c)
    (ha : a ≠ I2C_MUX_ADDRESS) (ws : List (UInt8 × UInt8)) :
    (s.send motorBus a ws).wire.reg = ws.foldl (Bank.write c a) s.wire.reg := by
  induction ws generalizing s with
  | nil => rfl
  | cons w ws ih =>
    have hstep : (s.wr motorBus a w.1 w.2).wire.reg = Bank.write c a s.wire.reg w := by
      rw [wr_reg_driver _ _ _ _ hs ha]
      funext c' a' r
      simp [Bank.write, hc, isOpen_controlByte]
    rw [send_cons, ih (by rw [wr_acks, hs, acked_tail]) (by rw [wr_control_driver _ _ _ _ ha, hc]),
      hstep, List.foldl_cons]

theorem MotorOp.writes_of_reads {op : MotorOp} {r : UInt8} (h : op.reads = some r) :
    op.writes = [] := by
  cases op <;> simp_all [MotorOp.reads, MotorOp.writes]

variable {fuel : Nat} {op : MotorOp} {t : Motor MotorBus}

/-- What a command that returns has done after its selection, whatever was acknowledged. -/
theorem access_spec (ha : a ≠ I2C_MUX_ADDRESS) (h : op.access motorBus fuel a s = .ok t) :
    t.currentChannel = s.currentChannel ∧ t.wire.control = s.wire.control ∧
      ∃ new, t.wire.log = s.wire.log ++ new ∧
        ∀ p ∈ new, p.control = s.wire.control ∧ p.address = a := by
  unfold MotorOp.access at h
  split at h
  · cases h
    exact ⟨send_currentChannel _, send_control ha _, send_log ha _⟩
  · rename_i r _
    rw [i2cRd_eq] at h
    split at h
    · cases h
    · cases h
      refine ⟨rfl, requested_control _ _ _ ha, _, requested_log _ _ _ ha, ?_⟩
      simp

/-- While one channel is open and everything is acknowledged, a command returns and has changed the
driver behind that channel as it would change a driver addressed directly. -/
theorem access_acked (fuel : Nat) (op : MotorOp) {c : Fin 8} (hs : s.wire.acks = acked)
    (hc : s.wire.control = controlByte c) (ha : a ≠ I2C_MUX_ADDRESS) :
    ∃ t, op.access motorBus fuel a s = .ok t ∧
      t.wire.acks = acked ∧ t.wire.reg = op.writes.foldl (Bank.write c a) s.wire.reg := by
  unfold MotorOp.access
  split
  · exact ⟨_, rfl, send_acked hs _, send_reg hs hc ha _⟩
  · rename_i r hr
    obtain ⟨byte, hbyte⟩ := requested_received s.wire a r hs
    rw [i2cRd_eq, hbyte, MotorOp.writes_of_reads hr]
    refine ⟨_, rfl, ?_, requested_reg _ _ _⟩
    rw [requested_acks, hs, acked_tail, acked_tail]

end Access

end QuadBot
