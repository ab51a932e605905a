import QuadBot.MotorState
import QuadBot.Lib.Routed
import Mathlib.Tactic.Linarith
import Mathlib.Tactic.NormNum

/-! Runs in which the commands of many drivers are mixed. A driver sees its own commands alone, so
that its registers show the motor that these describe, whatever is sent to the others in between;
and what the two reading commands return is what the driver they name senses. -/

namespace QuadBot

open Lts Routed

/-- The driver that a command reaches behind the mux. -/
def MotorOp.driver (op : MotorOp) : Option (Fin 8 × UInt8) :=
  match op.target with
  | some (m, a) => if h : m.toNat < 8 then some (⟨m.toNat, h⟩, a) else none
  | none => none

/-- The commands of a run that reach the driver at `a` behind channel `c`. -/
abbrev ownCommands (c : Fin 8) (a : UInt8) (ops : List MotorOp) : List MotorOp :=
  own MotorOp.driver (c, a) ops

theorem MotorOp.driver_eq_some {op : MotorOp} {c : Fin 8} {a : UInt8} :
    op.driver = some (c, a) ↔ op.target = some (UInt8.ofNat c.val, a) := by
  unfold driver
  cases op.target with
  | none => simp
  | some target =>
    obtain ⟨m, b⟩ := target
    dsimp only
    by_cases hm : m.toNat < 8
    · have hchannel : (⟨m.toNat, hm⟩ : Fin 8) = c ↔ m = UInt8.ofNat c.val := by
        rw [Fin.ext_iff, ← UInt8.toNat_inj, channel_toNat]
      rw [dif_pos hm, Option.some.injEq, Option.some.injEq, Prod.mk.injEq, Prod.mk.injEq, hchannel]
    · rw [dif_neg hm]
      refine iff_of_false (by simp) ?_
      intro h
      obtain ⟨rfl, -⟩ := Prod.mk.inj (Option.some.inj h)
      rw [channel_toNat] at hm
      exact hm c.isLt

/-! ### Registers -/

/-- The writes of a command, on the registers of its own driver. -/
def MotorOp.apply (registers : UInt8 → UInt8) (op : MotorOp) : UInt8 → UInt8 :=
  applyWrites op.writes registers

/-- Directly addressed drivers are components that commands are routed to. -/
theorem bank_routes : Routes (fun R op => Function.uncurry (Bank.exec op (Function.curry R)))
    MotorOp.driver MotorOp.apply where
  named := by
    rintro R op ⟨c, a⟩ h
    exact exec_self (MotorOp.driver_eq_some.mp h) (Function.curry R)
  frame := by
    rintro R op ⟨c, a⟩ h
    exact Bank.exec_frame (fun ht => h (MotorOp.driver_eq_some.mpr ht)) (Function.curry R)

theorem foldl_uncurry (ops : List MotorOp) (R : Bank) :
    Function.uncurry (ops.foldl (fun R op => Bank.exec op R) R) =
      ops.foldl (fun R op => Function.uncurry (Bank.exec op (Function.curry R)))
        (Function.uncurry R) :=
  (List.foldl_hom Function.uncurry fun _ _ => rfl).symm

theorem bank_own (ops : List MotorOp) (R : Bank) (c : Fin 8) (a : UInt8) :
    ops.foldl (fun R op => Bank.exec op R) R c a =
      (ownCommands c a ops).foldl MotorOp.apply (R c a) := by
  have h := congrFun (foldl_uncurry ops R) (c, a)
  rw [bank_routes.foldl_apply] at h
  exact h

theorem bank_congr {ops ops' : List MotorOp}
    (h : ∀ c a, ownCommands c a ops = ownCommands c a ops') (R : Bank) :
    ops.foldl (fun R op => Bank.exec op R) R = ops'.foldl (fun R op => Bank.exec op R) R := by
  funext c a
  rw [bank_own, bank_own, h]

namespace MotorView

/-- A motor that is shown goes on being shown, as its commands change it. -/
theorem Shows.foldl {m : MotorView} {registers : UInt8 → UInt8} (h : m.Shows registers)
    (ops : List MotorOp) : (ops.foldl step m).Shows (ops.foldl MotorOp.apply registers) := by
  induction ops generalizing m registers with
  | nil => exact h
  | cons op ops ih => exact ih (shows_step h op)

/-- From its initialisation on a motor is shown. -/
theorem shows_init {before after ops : List MotorOp} {m a : UInt8}
    (h : ops = before ++ .init m a :: after) (registers : UInt8 → UInt8) :
    (after.foldl step (started (before.foldl MotorOp.apply registers))).Shows
      (ops.foldl MotorOp.apply registers) := by
  rw [h, List.foldl_append, List.foldl_cons]
  exact Shows.foldl (started_shows m a _) after

end MotorView

/-! ### Runs -/

/-- A run of valid commands changes the register files as on directly addressed drivers. -/
theorem settled_run (fuel : Nat) {s : Motor MotorBus} (hs : Settled s) {ops : List MotorOp}
    (hops : ∀ op ∈ ops, op.Valid) : ∃ t, Run (motorStep fuel) s ops t ∧ Settled t ∧
      t.wire.reg = ops.foldl (fun R op => Bank.exec op R) s.wire.reg :=
  exists_run_refining Settled (·.wire.reg) (fun R op => Bank.exec op R)
    (fun _ _ hs hv => settled_step_bank fuel hs hv) hops hs

/-- Over every run of valid commands, on any drivers in any order, everything acknowledged: the
registers of a driver are as its own commands leave them and, once it is initialised, show the motor
that these describe. A run with the same commands for each driver, mixed in another way, ends with
the same registers. -/
theorem drivers_independent (fuel : Nat) {s : Motor MotorBus} (hs : Settled s)
    {ops : List MotorOp} (hops : ∀ op ∈ ops, op.Valid) :
    ∃ t, Run (motorStep fuel) s ops t ∧
      (∀ c a, t.wire.reg c a = (ownCommands c a ops).foldl MotorOp.apply (s.wire.reg c a)) ∧
      (∀ c a before m after, ownCommands c a ops = before ++ .init m a :: after →
        (after.foldl MotorView.step
          (.started (before.foldl MotorOp.apply (s.wire.reg c a)))).Shows (t.wire.reg c a)) ∧
      ∀ ops', (∀ op ∈ ops', op.Valid) →
        (∀ c a, ownCommands c a ops' = ownCommands c a ops) →
        ∃ t', Run (motorStep fuel) s ops' t' ∧ t'.wire.reg = t.wire.reg := by
  obtain ⟨t, hrun, -, hbank⟩ := settled_run fuel hs hops
  have hreg : ∀ c a, t.wire.reg c a =
      (ownCommands c a ops).foldl MotorOp.apply (s.wire.reg c a) := by
    intro c a
    rw [hbank, bank_own]
  refine ⟨t, hrun, hreg, ?_, ?_⟩
  · intro c a before m after hown
    rw [hreg]
    exact MotorView.shows_init hown (s.wire.reg c a)
  · intro ops' hops' hown
    obtain ⟨t', hrun', -, hbank'⟩ := settled_run fuel hs hops'
    exact ⟨t', hrun', by rw [hbank', hbank, bank_congr hown]⟩

/-- Two motors are started in turns: each of them runs as its own commands say. -/
theorem drivers_independent_two_motors : ∃ t, Run (motorStep 0) (bootMotor acked)
    [.init 3 0x60, .init 5 0x60, .variableMotion 3 0x60 10 true, .stop 5 0x60,
      .defaultMotion 5 0x60 3 false] t ∧
    t.wire.reg 3 0x60 0x07 = 0xC4 ∧ t.wire.reg 5 0x60 0x07 = 0x11 := by
  have hboot : Settled (bootMotor acked) := ⟨rfl, Or.inl ⟨rfl, rfl⟩⟩
  have hvalid : ∀ op ∈ [MotorOp.init 3 0x60, .init 5 0x60, .variableMotion 3 0x60 10 true,
      .stop 5 0x60, .defaultMotion 5 0x60 3 false], op.Valid := by
    simp [MotorOp.Valid, MotorOp.target, I2C_MUX_ADDRESS]
  obtain ⟨t, hrun, -, hshows, -⟩ := drivers_independent 0 hboot hvalid
  refine ⟨t, hrun, ?_, ?_⟩
  · exact (hshows 3 0x60 [] 3 [.variableMotion 3 0x60 10 true] rfl).mode
  · exact (hshows 5 0x60 [] 5 [.stop 5 0x60, .defaultMotion 5 0x60 3 false] rfl).mode

/-! ### What the reading commands return -/

/-- The registers that the drivers fill with what they sense. -/
def MotorOp.Sensed (r : UInt8) : Prop := r = 0x00 ∨ r = 0x01

theorem apply_sensed {r : UInt8} (hr : MotorOp.Sensed r) (registers : UInt8 → UInt8)
    (op : MotorOp) : op.apply registers r = registers r := by
  have hkept : ∀ ws : List (UInt8 × UInt8), (∀ w ∈ ws, w.1 ≠ r) →
      applyWrites ws registers r = registers r := by
    intro ws
    induction ws using List.reverseRecOn with
    | nil => exact fun _ => rfl
    | append_singleton ws w ih =>
      intro hws
      have hne : r ≠ w.1 := Ne.symm (hws w (by simp))
      rw [applyWrites, List.foldl_append]
      show (if r = w.1 then w.2 else applyWrites ws registers r) = registers r
      rw [if_neg hne]
      exact ih fun v hv => hws v (by simp [hv])
  apply hkept
  rcases hr with rfl | rfl <;> cases op with
  | regControl _ _ enable => cases enable <;> simp [MotorOp.writes]
  | init | variableMotion | setMotion | defaultMotion | stop | limitTriggers | currentEstimate |
    disableAll => simp [MotorOp.writes]

theorem foldl_apply_sensed {r : UInt8} (hr : MotorOp.Sensed r) (ops : List MotorOp)
    (registers : UInt8 → UInt8) : ops.foldl MotorOp.apply registers r = registers r := by
  induction ops generalizing registers with
  | nil => rfl
  | cons op ops ih => rw [List.foldl_cons, ih, apply_sensed hr]

/-- Only the driver behind the one open channel puts its bits on the data line. -/
theorem sent_open {w : MotorBus} {c : Fin 8} (hc : w.control = controlByte c) (a : UInt8) :
    w.sent a = w.reg c a (w.pointer c a) := by
  have hfold : ∀ (cs : List (Fin 8)) (byte : UInt8), cs.Nodup →
      cs.foldl (fun byte d => if isOpen w.control d then byte &&& w.reg d a (w.pointer d a)
        else byte) byte = if c ∈ cs then byte &&& w.reg c a (w.pointer c a) else byte := by
    intro cs
    induction cs with
    | nil => exact fun _ _ => rfl
    | cons d cs ih =>
      intro byte hnodup
      obtain ⟨hd, hcs⟩ := List.nodup_cons.mp hnodup
      rw [List.foldl_cons, ih _ hcs, hc, isOpen_controlByte]
      by_cases hdc : d = c
      · subst hdc
        simp [hd]
      · simp [hdc, Ne.symm hdc]
  rw [MotorBus.sent, hfold _ _ (List.nodup_finRange 8), if_pos (List.mem_finRange c)]
  exact UInt8.neg_one_and

/-- A register read from the driver behind the open channel. -/
theorem requested_open {w : MotorBus} {c : Fin 8} {a : UInt8} (hw : w.acks = acked)
    (hc : w.control = controlByte c) (ha : a ≠ I2C_MUX_ADDRESS) (r : UInt8) :
    (requested motorBus a r w).1 = [w.reg c a r] := by
  generalize hb : (motorBus.endTransmission w a [r]).2 = b
  have hopen : isOpen (controlByte c) c = true := by simp [isOpen_controlByte]
  have hb' : b.acks = acked ∧ b.control = controlByte c ∧ b.pointer c a = r ∧
      b.reg c a r = w.reg c a r := by
    subst hb
    simp [motorBus, MotorBus.deliver, MotorBus.record, hw, acked_head, acked_tail, ha, hc, hopen]
  obtain ⟨hacks, hcontrol, hpointer, hreg⟩ := hb'
  have hsent : (b.record a (.read 1)).sent a = w.reg c a r := by
    have hrecord : (b.record a (.read 1)).control = controlByte c := hcontrol
    rw [sent_open hrecord, ← hreg]
    exact congrArg (b.reg c a) hpointer
  rw [requested, hb]
  simp [motorBus, hacks, acked_head, hsent]

section Reads

variable {s : Motor MotorBus} {c : Fin 8} {a : UInt8}

theorem i2cRd_settled (fuel : Nat) (hs : Settled s) (ha : a ≠ I2C_MUX_ADDRESS) (r : UInt8) :
    ∃ w, i2cRd motorBus fuel a r
        (i2cSelectChannel motorBus I2C_MUX_ADDRESS (UInt8.ofNat c.val) s).wire =
          .ok (s.wire.reg c a r, w) ∧ w.reg = s.wire.reg := by
  have hreceived := requested_open (select_acked (m := UInt8.ofNat c.val) hs.acks)
    (settled_select hs c).2 ha r
  rw [select_reg] at hreceived
  rw [i2cRd_eq, hreceived]
  exact ⟨_, rfl, (requested_reg _ a r).trans (select_reg _ s)⟩

theorem readLimitTriggers_settled (fuel : Nat) (hs : Settled s) (ha : a ≠ I2C_MUX_ADDRESS) :
    ∃ t, readLimitTriggers motorBus fuel (UInt8.ofNat c.val) a s =
        .ok (0x0F &&& s.wire.reg c a 0x00, t) ∧ t.wire.reg = s.wire.reg := by
  obtain ⟨w, hread, hreg⟩ := i2cRd_settled fuel hs ha 0x00 (c := c)
  refine ⟨{ i2cSelectChannel motorBus I2C_MUX_ADDRESS (UInt8.ofNat c.val) s with wire := w }, ?_,
    hreg⟩
  simp only [readLimitTriggers, hread]
  rfl

/-- The upper five bits, as a part of the full scale. -/
def estimateOf (register : UInt8) : ℚ := ((register &&& 0b11111000) >>> 3).toNat / 31 * 6.1467

theorem readCurrentEstimate_settled (fuel : Nat) (hs : Settled s) (ha : a ≠ I2C_MUX_ADDRESS) :
    ∃ t, readCurrentEstimate motorBus fuel (UInt8.ofNat c.val) a s =
        .ok (estimateOf (s.wire.reg c a 0x01), t) ∧ t.wire.reg = s.wire.reg := by
  obtain ⟨w, hread, hreg⟩ := i2cRd_settled fuel hs ha 0x01 (c := c)
  refine ⟨{ i2cSelectChannel motorBus I2C_MUX_ADDRESS (UInt8.ofNat c.val) s with wire := w }, ?_,
    hreg⟩
  simp only [readCurrentEstimate, hread]
  rfl

end Reads

theorem limits_lt (register : UInt8) : (0x0F &&& register).toNat < 16 := by
  rw [UInt8.toNat_and, Nat.and_comm]
  exact (Nat.and_two_pow_sub_one_eq_mod register.toNat 4).trans_lt (Nat.mod_lt _ (by decide))

theorem estimateOf_mem (register : UInt8) :
    0 ≤ estimateOf register ∧ estimateOf register ≤ 6.1467 := by
  have hr := register.toNat_lt
  have hbits : ((register &&& 0b11111000) >>> 3).toNat ≤ 31 := by
    have hand : (register &&& 0b11111000).toNat ≤ register.toNat := by
      rw [UInt8.toNat_and]
      exact Nat.and_le_left
    rw [UInt8.toNat_shiftRight, show UInt8.toNat 3 % 8 = 3 from rfl, Nat.shiftRight_eq_div_pow]
    omega
  have hq : (((register &&& 0b11111000) >>> 3).toNat : ℚ) ≤ 31 := by exact_mod_cast hbits
  have hq0 : (0 : ℚ) ≤ ((register &&& 0b11111000) >>> 3).toNat := Nat.cast_nonneg _
  unfold estimateOf
  constructor <;> linarith

/-- After every run of valid commands, everything acknowledged, the two reading commands return
what the driver that they name has sensed: no command has changed it, none changes by the reading,
and it is in the range of the sensor. -/
theorem reads_sense_driver (fuel : Nat) {s : Motor MotorBus} (hs : Settled s)
    {ops : List MotorOp} (hops : ∀ op ∈ ops, op.Valid) :
    ∃ t, Run (motorStep fuel) s ops t ∧ ∀ (c : Fin 8) (a : UInt8), a ≠ I2C_MUX_ADDRESS →
      (∃ limits t', readLimitTriggers motorBus fuel (UInt8.ofNat c.val) a t = .ok (limits, t') ∧
        limits = 0x0F &&& s.wire.reg c a 0x00 ∧ limits.toNat < 16 ∧
        t'.wire.reg = t.wire.reg) ∧
      ∃ current t', readCurrentEstimate motorBus fuel (UInt8.ofNat c.val) a t = .ok (current, t') ∧
        current = estimateOf (s.wire.reg c a 0x01) ∧ 0 ≤ current ∧ current ≤ 6.1467 ∧
        t'.wire.reg = t.wire.reg := by
  obtain ⟨t, hrun, ht, hbank⟩ := settled_run fuel hs hops
  refine ⟨t, hrun, ?_⟩
  intro c a ha
  have hsensed : ∀ r, MotorOp.Sensed r → t.wire.reg c a r = s.wire.reg c a r := by
    intro r hr
    rw [hbank, bank_own, foldl_apply_sensed hr]
  constructor
  · obtain ⟨t', hread, hreg⟩ := readLimitTriggers_settled fuel ht ha (c := c)
    rw [hsensed 0x00 (Or.inl rfl)] at hread
    exact ⟨_, t', hread, rfl, limits_lt _, hreg⟩
  · obtain ⟨t', hread, hreg⟩ := readCurrentEstimate_settled fuel ht ha (c := c)
    rw [hsensed 0x01 (Or.inr rfl)] at hread
    exact ⟨_, t', hread, rfl, (estimateOf_mem _).1, (estimateOf_mem _).2, hreg⟩

theorem reads_sense_driver_after_move : ∃ t, Run (motorStep 0) (bootMotor acked)
    [.init 3 0x60, .variableMotion 3 0x60 10 true] t ∧
    ∃ limits t', readLimitTriggers motorBus 0 3 0x60 t = .ok (limits, t') ∧ limits.toNat < 16 := by
  have hboot : Settled (bootMotor acked) := ⟨rfl, Or.inl ⟨rfl, rfl⟩⟩
  have hvalid : ∀ op ∈ [MotorOp.init 3 0x60, .variableMotion 3 0x60 10 true], op.Valid := by
    simp [MotorOp.Valid, MotorOp.target, I2C_MUX_ADDRESS]
  obtain ⟨t, hrun, hreads⟩ := reads_sense_driver 0 hboot hvalid
  obtain ⟨⟨limits, t', hread, -, hlt, -⟩, -⟩ := hreads 3 0x60 (by decide)
  exact ⟨t, hrun, limits, t', hread, hlt⟩

end QuadBot
