import QuadBot.MotorChannels

/-! Runs of the motor commands. While every transaction is acknowledged, a run through the channel
cache refines the same run on directly addressed drivers, and so does one that writes the control
byte on every call. Where writes may be lost, the cache stays coherent as long as no selection is
lost. -/

namespace QuadBot

open Lts

/-- The call names a channel that the mux has and a driver that is not the mux. -/
def MotorOp.Valid (op : MotorOp) : Prop :=
  ∀ m a, op.target = some (m, a) → ¬ 7 < m ∧ a ≠ I2C_MUX_ADDRESS

def motorStep (fuel : Nat) (s : Motor MotorBus) (op : MotorOp) (t : Motor MotorBus) : Prop :=
  op.exec motorBus fuel s = .ok t

/-! ### Acknowledged runs -/

/-- Everything is acknowledged, and the control register is 0 or has the bit of the cached channel
alone, as the cache says. -/
structure Settled (s : Motor MotorBus) : Prop where
  acks : s.wire.acks = acked
  cache : s.currentChannel = -1 ∧ s.wire.control = 0 ∨
    ∃ c : Fin 8, s.currentChannel = c.val ∧ s.wire.control = controlByte c

namespace Settled

variable {s : Motor MotorBus}

theorem coherent (h : Settled s) : Selector.Coherent controlByte s.selector := by
  intro c hc
  rw [cached_eq_some] at hc
  rcases h.cache with ⟨hn, -⟩ | ⟨d, hd, hcontrol⟩
  · omega
  · obtain rfl : c = d := Fin.ext (by omega)
    exact hcontrol

theorem eq_neg_one_iff (h : Settled s) : s.currentChannel = -1 ↔ s.wire.control = 0 := by
  rcases h.cache with ⟨hn, h0⟩ | ⟨c, hc, hcontrol⟩
  · simp [hn, h0]
  · rw [hc, hcontrol]
    exact iff_of_false (by omega) (controlByte_ne_zero c)

theorem eq_channel_iff (h : Settled s) (c : Fin 8) :
    s.currentChannel = c.val ↔ s.wire.control = controlByte c := by
  rcases h.cache with ⟨hn, h0⟩ | ⟨d, hd, hcontrol⟩
  · rw [hn, h0]
    exact iff_of_false (by omega) fun h => controlByte_ne_zero c h.symm
  · rw [hd, hcontrol]
    constructor
    · intro h
      have hval : d.val = c.val := by omega
      rw [Fin.ext hval]
    · intro h
      rw [controlByte_injective d c h]

theorem open_unique (h : Settled s) (c d : Fin 8) (hc : isOpen s.wire.control c = true)
    (hd : isOpen s.wire.control d = true) : c = d := by
  rcases h.cache with ⟨-, h0⟩ | ⟨e, -, hcontrol⟩
  · rw [h0, isOpen_zero] at hc
    cases hc
  · rw [hcontrol, isOpen_controlByte, decide_eq_true_iff] at hc hd
    rw [hc, hd]

end Settled

theorem settled_disableAll {s : Motor MotorBus} (hs : s.wire.acks = acked) :
    Settled (i2cDisableAllChannels motorBus I2C_MUX_ADDRESS s) := by
  have hcontrol := wrByte_control 0x00 s.wire
  rw [hs, acked_head, if_pos rfl] at hcontrol
  exact ⟨(wrByte_acks 0x00 s.wire).trans (congrArg Stream'.tail hs), Or.inl ⟨rfl, hcontrol⟩⟩

theorem settled_select {s : Motor MotorBus} (h : Settled s) (c : Fin 8) :
    (i2cSelectChannel motorBus I2C_MUX_ADDRESS (UInt8.ofNat c.val) s).currentChannel = c.val ∧
      (i2cSelectChannel motorBus I2C_MUX_ADDRESS (UInt8.ofNat c.val) s).wire.control =
        controlByte c := by
  have hsel := selector_select c s
  rw [h.acks, acked_head] at hsel
  refine ⟨cached_eq_some.mp ?_, ?_⟩
  · rw [hsel, Selector.select_cached]
  · have := Selector.select_register_ok (k := c) h.coherent
    rw [← hsel] at this
    exact this

/-- One command: it returns, keeps the cache settled, does to the register files what it does to
directly addressed drivers, and puts nothing on the bus that reaches another driver. -/
theorem settled_step (fuel : Nat) {s : Motor MotorBus} {op : MotorOp} (h : Settled s)
    (hv : op.Valid) : ∃ t, motorStep fuel s op t ∧ Settled t ∧
      t.wire.reg = Bank.exec op s.wire.reg ∧ ∃ new, t.wire.log = s.wire.log ++ new ∧
        ∀ p ∈ new, ∀ c a, p.Reaches c a → op.target = some (UInt8.ofNat c.val, a) := by
  cases ht : op.target with
  | none =>
    obtain rfl := MotorOp.target_eq_none.mp ht
    refine ⟨_, rfl, settled_disableAll h.acks, wrByte_reg 0x00 s.wire, _,
      wrByte_log 0x00 s.wire, ?_⟩
    intro p hp c a hr
    rw [List.mem_singleton.mp hp] at hr
    exact absurd rfl hr.1
  | some target =>
    obtain ⟨m, a⟩ := target
    obtain ⟨hm, ha⟩ := hv m a ht
    obtain ⟨c, rfl⟩ := exists_channel hm
    obtain ⟨hcur, hcontrol⟩ := settled_select h c
    obtain ⟨t, hacc, hacks, hreg⟩ :=
      access_acked fuel op (select_acked h.acks) hcontrol ha
    obtain ⟨hcur', hcontrol', new, hlog, hnew⟩ := access_spec ha hacc
    obtain ⟨new₀, hlog₀, hnew₀⟩ := select_log (UInt8.ofNat c.val) s
    refine ⟨t, (MotorOp.exec_eq motorBus fuel ht s).trans hacc, ⟨hacks, Or.inr ⟨c, ?_, ?_⟩⟩, ?_,
      new₀ ++ new, ?_, ?_⟩
    · rw [hcur', hcur]
    · rw [hcontrol', hcontrol]
    · rw [hreg, select_reg, Bank.exec_channel ht]
    · rw [hlog, hlog₀, List.append_assoc]
    · intro p hp d b hr
      rcases List.mem_append.mp hp with hp | hp
      · exact absurd (hnew₀ p hp) hr.1
      · obtain ⟨hpc, hpa⟩ := hnew p hp
        have hopen := hr.2.2
        rw [hpc, hcontrol, isOpen_controlByte, decide_eq_true_iff] at hopen
        rw [hopen, ← hr.2.1, hpa]

theorem settled_step_bank (fuel : Nat) {s : Motor MotorBus} {op : MotorOp} (h : Settled s)
    (hv : op.Valid) : ∃ t, motorStep fuel s op t ∧ Settled t ∧
      t.wire.reg = Bank.exec op s.wire.reg := by
  obtain ⟨t, hstep, ht, hreg, -⟩ := settled_step fuel h hv
  exact ⟨t, hstep, ht, hreg⟩

/-! ### The variant without the cache -/

section Rewriting

variable {σ : Type} (bus : Bus σ)

/-- `i2cSelectChannel` without the test for the cached channel. -/
def i2cRewriteChannel (muxAddress channel : UInt8) (s : Motor σ) : Motor σ :=
  if 7 < channel then { s with errors := s.errors ++ [invalidChannel] }
  else
    { s with
      wire := i2cWrByte bus muxAddress (1 <<< channel) s.wire
      currentChannel := channel.toNat }

/-- A command that writes the control byte of its channel on every call. -/
def MotorOp.execRewriting (fuel : Nat) (op : MotorOp) (s : Motor σ) : Except Stuck (Motor σ) :=
  match op.target with
  | some (m, a) => op.access bus fuel a (i2cRewriteChannel bus I2C_MUX_ADDRESS m s)
  | none => .ok (i2cDisableAllChannels bus I2C_MUX_ADDRESS s)

end Rewriting

def rewritingStep (fuel : Nat) (s : Motor MotorBus) (op : MotorOp) (t : Motor MotorBus) : Prop :=
  op.execRewriting motorBus fuel s = .ok t

theorem rewriting_step (fuel : Nat) {s : Motor MotorBus} {op : MotorOp} (hs : s.wire.acks = acked)
    (hv : op.Valid) : ∃ t, rewritingStep fuel s op t ∧ t.wire.acks = acked ∧
      t.wire.reg = Bank.exec op s.wire.reg := by
  unfold rewritingStep MotorOp.execRewriting
  cases ht : op.target with
  | none =>
    obtain rfl := MotorOp.target_eq_none.mp ht
    exact ⟨_, rfl, (settled_disableAll hs).acks, wrByte_reg 0x00 s.wire⟩
  | some target =>
    obtain ⟨m, a⟩ := target
    obtain ⟨hm, ha⟩ := hv m a ht
    obtain ⟨c, rfl⟩ := exists_channel hm
    have hsel : (i2cRewriteChannel motorBus I2C_MUX_ADDRESS (UInt8.ofNat c.val) s).wire =
        i2cWrByte motorBus I2C_MUX_ADDRESS (controlByte c) s.wire := by
      rw [i2cRewriteChannel, if_neg hm]
      rfl
    obtain ⟨t, hacc, hacks, hreg⟩ := access_acked fuel op (c := c)
      (s := i2cRewriteChannel motorBus I2C_MUX_ADDRESS (UInt8.ofNat c.val) s)
      (by rw [hsel, wrByte_acks, hs, acked_tail])
      (by rw [hsel, wrByte_control, hs, acked_head, if_pos rfl]) ha
    refine ⟨t, hacc, hacks, ?_⟩
    rw [hreg, hsel, wrByte_reg, Bank.exec_channel ht]

/-- Runs of valid commands from the state after `i2cDisableAllChannels`, everything acknowledged:
the cache is -1 or a channel and says what the control register holds, at most one channel is open,
the register files end as in the run that writes the control byte on every call, and whichever
command comes next, it reaches and changes the driver it names and no other. -/
theorem motor_run_correct (fuel : Nat) (s : Motor MotorBus) (hs : s.wire.acks = acked)
    (ops : List MotorOp) (hops : ∀ op ∈ ops, op.Valid) :
    ∃ t u, Run (motorStep fuel) (i2cDisableAllChannels motorBus I2C_MUX_ADDRESS s) ops t ∧
      Run (rewritingStep fuel) (i2cDisableAllChannels motorBus I2C_MUX_ADDRESS s) ops u ∧
      (t.currentChannel = -1 ∨ ∃ c : Fin 8, t.currentChannel = c.val) ∧
      (t.currentChannel = -1 ↔ t.wire.control = 0) ∧
      (∀ c : Fin 8, t.currentChannel = c.val ↔ t.wire.control = controlByte c) ∧
      (∀ c d, isOpen t.wire.control c = true → isOpen t.wire.control d = true → c = d) ∧
      t.wire.reg = u.wire.reg ∧
      ∀ op, op.Valid → ∃ t', motorStep fuel t op t' ∧
        (∃ new, t'.wire.log = t.wire.log ++ new ∧
          ∀ p ∈ new, ∀ c a, p.Reaches c a → op.target = some (UInt8.ofNat c.val, a)) ∧
        ∀ c a, op.target ≠ some (UInt8.ofNat c.val, a) → t'.wire.reg c a = t.wire.reg c a := by
  have hset := settled_disableAll hs
  obtain ⟨t, hrun, ht, hreg⟩ := exists_run_refining Settled (·.wire.reg)
    (fun R op => Bank.exec op R) (fun _ _ hs hv => settled_step_bank fuel hs hv) hops hset
  obtain ⟨u, hrun', -, hreg'⟩ := exists_run_refining
    (fun s : Motor MotorBus => s.wire.acks = acked) (·.wire.reg) (fun R op => Bank.exec op R)
    (fun _ _ hs hv => rewriting_step fuel hs hv) hops hset.acks
  have hcache : t.currentChannel = -1 ∨ ∃ c : Fin 8, t.currentChannel = c.val := by
    rcases ht.cache with ⟨hn, -⟩ | ⟨c, hc, -⟩
    · exact Or.inl hn
    · exact Or.inr ⟨c, hc⟩
  refine ⟨t, u, hrun, hrun', hcache, ht.eq_neg_one_iff, ht.eq_channel_iff, ht.open_unique,
    hreg.trans hreg'.symm, ?_⟩
  intro op hv
  obtain ⟨t', hstep, -, hbank, hlog⟩ := settled_step fuel ht hv
  refine ⟨t', hstep, hlog, ?_⟩
  intro c a hne
  rw [hbank]
  exact Bank.exec_frame hne _

theorem motor_run_correct_two_drivers :
    ∃ t, Run (motorStep 0) (i2cDisableAllChannels motorBus I2C_MUX_ADDRESS (bootMotor acked))
      [.init 3 0x60, .variableMotion 5 0x61 100 true, .limitTriggers 3 0x60] t ∧
      (t.currentChannel = -1 ↔ t.wire.control = 0) := by
  obtain ⟨t, _, hrun, _, _, hcache, _⟩ := motor_run_correct 0 (bootMotor acked) rfl
    [.init 3 0x60, .variableMotion 5 0x61 100 true, .limitTriggers 3 0x60]
    (by simp [MotorOp.Valid, MotorOp.target, I2C_MUX_ADDRESS])
  exact ⟨t, hrun, hcache⟩

/-! ### Runs with lost writes -/

/-- No channel is cached, or the control register has the bit of the cached channel alone. -/
def Coherent (s : Motor MotorBus) : Prop :=
  s.currentChannel = -1 ∨ ∃ c : Fin 8, s.currentChannel = c.val ∧ s.wire.control = controlByte c

/-- The call leaves the mux address alone, and its selection is not lost: the channel is the cached
one, or its write, the first of the call, is acknowledged. A call with a rejected channel number
finds all channels closed. -/
def Reliable (s : Motor MotorBus) (op : MotorOp) : Prop :=
  ∀ m a, op.target = some (m, a) → a ≠ I2C_MUX_ADDRESS ∧
    if 7 < m then s.wire.control = 0
    else s.currentChannel = m.toNat ∨ s.wire.acks.head = true

/-- A selection that is recorded has arrived: where the cache takes another channel in a call, the
call has begun with the write of the byte of that channel to the mux, and the write is
acknowledged. -/
def SelectionArrives (s t : Motor MotorBus) : Prop :=
  ∀ c : Fin 8, t.currentChannel = c.val → s.currentChannel ≠ c.val → s.wire.acks.head = true ∧
    ∃ new, t.wire.log =
      s.wire.log ++ ⟨s.wire.control, I2C_MUX_ADDRESS, .write [controlByte c]⟩ :: new

theorem select_rejected {m : UInt8} (h : 7 < m) (s : Motor MotorBus) :
    (i2cSelectChannel motorBus I2C_MUX_ADDRESS m s).currentChannel = s.currentChannel ∧
      (i2cSelectChannel motorBus I2C_MUX_ADDRESS m s).wire = s.wire := by
  simp [i2cSelectChannel, h]

theorem coherent_select {s : Motor MotorBus} (hs : Coherent s) (c : Fin 8) :
    (i2cSelectChannel motorBus I2C_MUX_ADDRESS (UInt8.ofNat c.val) s).currentChannel = c.val ∧
      ((i2cSelectChannel motorBus I2C_MUX_ADDRESS (UInt8.ofNat c.val) s).wire.control =
          controlByte c ↔
        s.currentChannel = c.val ∨ s.wire.acks.head = true ∨ s.wire.control = controlByte c) := by
  have hsel := selector_select c s
  have hcoh : Selector.Coherent controlByte s.selector := by
    intro d hd
    rw [cached_eq_some] at hd
    rcases hs with hn | ⟨e, he, hcontrol⟩
    · omega
    · obtain rfl : d = e := Fin.ext (by omega)
      exact hcontrol
  have hcached := cached_eq_some.mp (hsel ▸ Selector.select_cached)
  refine ⟨hcached, ?_⟩
  rw [← cached_eq_some]
  refine Iff.trans ?_ (Selector.coherent_select_iff hcoh)
  rw [← hsel]
  constructor
  · intro h d hd
    have hval := cached_eq_some.mp hd
    obtain rfl : d = c := Fin.ext (by omega)
    exact h
  · intro h
    exact h c (cached_eq_some.mpr hcached)

theorem select_log_write {s : Motor MotorBus} {c : Fin 8} (hc : s.currentChannel ≠ c.val) :
    (i2cSelectChannel motorBus I2C_MUX_ADDRESS (UInt8.ofNat c.val) s).wire.log =
      s.wire.log ++ [⟨s.wire.control, I2C_MUX_ADDRESS, .write [controlByte c]⟩] := by
  rw [← channel_toNat] at hc
  rw [i2cSelectChannel, if_neg (channel_not_gt c), if_neg hc]
  exact wrByte_log (controlByte c) s.wire

/-- Of a call that selects the channel `c`, a recorded selection has arrived exactly where `c` was
cached or the first write of the call is acknowledged. -/
theorem selectionArrives_iff {fuel : Nat} {s t : Motor MotorBus} {op : MotorOp} {c : Fin 8}
    {a : UInt8} (ht : op.target = some (UInt8.ofNat c.val, a)) (ha : a ≠ I2C_MUX_ADDRESS)
    (hcached : (i2cSelectChannel motorBus I2C_MUX_ADDRESS (UInt8.ofNat c.val) s).currentChannel =
      c.val) (h : motorStep fuel s op t) :
    SelectionArrives s t ↔ s.currentChannel = c.val ∨ s.wire.acks.head = true := by
  have hacc := (MotorOp.exec_eq motorBus fuel ht s).symm.trans h
  obtain ⟨hcur, -, new, hlog, -⟩ := access_spec ha hacc
  have htc : t.currentChannel = c.val := hcur.trans hcached
  constructor
  · intro harrives
    by_cases hc : s.currentChannel = c.val
    · exact Or.inl hc
    · exact Or.inr (harrives c htc hc).1
  · intro hor d hd hne
    obtain rfl : c = d := Fin.ext (by omega)
    refine ⟨hor.resolve_left hne, new, ?_⟩
    rw [hlog, select_log_write hne, List.append_assoc, List.singleton_append]

/-- One command from a coherent state, its selection not lost: the state after it is coherent, a
selection that it records has arrived, and every transaction with a driver is put on the bus while
no channel but the named one is open. -/
theorem reliable_step {fuel : Nat} {s t : Motor MotorBus} {op : MotorOp} (hs : Coherent s)
    (hr : Reliable s op) (h : motorStep fuel s op t) : Coherent t ∧ SelectionArrives s t ∧
      ∃ new, t.wire.log = s.wire.log ++ new ∧ ∀ p ∈ new, p.address ≠ I2C_MUX_ADDRESS →
        ∀ m a, op.target = some (m, a) → ∀ d, isOpen p.control d = true → d.val = m.toNat := by
  cases ht : op.target with
  | none =>
    obtain rfl := MotorOp.target_eq_none.mp ht
    cases h
    refine ⟨Or.inl rfl, ?_, _, wrByte_log 0x00 s.wire, ?_⟩
    · intro c hc
      have hclosed : (-1 : Int) = c.val := hc
      omega
    · intro p hp hne
      exact absurd (by rw [List.mem_singleton.mp hp]) hne
  | some target =>
    obtain ⟨m, a⟩ := target
    obtain ⟨ha, hm⟩ := hr m a ht
    have hacc := (MotorOp.exec_eq motorBus fuel ht s).symm.trans h
    obtain ⟨hcur, hcontrol, new, hlog, hnew⟩ := access_spec ha hacc
    obtain ⟨new₀, hlog₀, hnew₀⟩ := select_log m s
    suffices hopen : (Coherent t ∧ SelectionArrives s t) ∧ ∀ d,
        isOpen (i2cSelectChannel motorBus I2C_MUX_ADDRESS m s).wire.control d = true →
          d.val = m.toNat by
      refine ⟨hopen.1.1, hopen.1.2, new₀ ++ new, by rw [hlog, hlog₀, List.append_assoc], ?_⟩
      intro p hp hne m' a' htarget d hd
      obtain ⟨rfl, rfl⟩ := Prod.mk.inj (Option.some.inj htarget)
      rcases List.mem_append.mp hp with hp | hp
      · exact absurd (hnew₀ p hp) hne
      · rw [(hnew p hp).1] at hd
        exact hopen.2 d hd
    unfold Coherent
    by_cases hgt : 7 < m
    · rw [if_pos hgt] at hm
      obtain ⟨hkept, hwire⟩ := select_rejected hgt s
      rw [hkept] at hcur
      rw [hwire, hm] at hcontrol ⊢
      refine ⟨⟨?_, ?_⟩, ?_⟩
      · rw [hcur]
        left
        rcases hs with hn | ⟨c, -, hc⟩
        · exact hn
        · exact absurd (hc.symm.trans hm) (controlByte_ne_zero c)
      · intro c hc hne
        exact absurd (hcur.symm.trans hc) hne
      · intro d hd
        rw [isOpen_zero] at hd
        cases hd
    · rw [if_neg hgt] at hm
      obtain ⟨c, rfl⟩ := exists_channel hgt
      obtain ⟨hcached, hiff⟩ := coherent_select hs c
      rw [channel_toNat] at hm ⊢
      have hbyte := hiff.mpr (hm.imp_right Or.inl)
      rw [hcur, hcontrol]
      refine ⟨⟨Or.inr ⟨c, hcached, hbyte⟩, (selectionArrives_iff ht ha hcached h).mpr hm⟩, ?_⟩
      intro d hd
      rw [hbyte, isOpen_controlByte, decide_eq_true_iff] at hd
      rw [hd]

/-- For a valid call the guard is necessary: it records a selection that is lost otherwise. -/
theorem reliable_iff {fuel : Nat} {s t : Motor MotorBus} {op : MotorOp} (hs : Coherent s)
    (hv : op.Valid) (h : motorStep fuel s op t) :
    Coherent t ∧ SelectionArrives s t ↔ Reliable s op := by
  constructor
  · rintro ⟨-, harrives⟩ m a ht
    obtain ⟨hm, ha⟩ := hv m a ht
    obtain ⟨c, rfl⟩ := exists_channel hm
    refine ⟨ha, ?_⟩
    rw [if_neg hm, channel_toNat]
    exact (selectionArrives_iff ht ha (coherent_select hs c).1 h).mp harrives
  · intro hr
    obtain ⟨hc, harrives, -⟩ := reliable_step hs hr h
    exact ⟨hc, harrives⟩

/-- In a run whose commands all meet the guard: in every state reached the control register has the
bit of the cached channel alone, a lost write to the mux is never recorded as a selection, and the
register accesses of a command are put on the bus while no channel but the one it names is open. -/
theorem motor_run_coherent (fuel : Nat) {s t : Motor MotorBus} (hs : s.currentChannel = -1)
    {ops : List MotorOp} (hr : Run (motorStep fuel) s ops t)
    (hg : Guarded (motorStep fuel) Reliable s ops) :
    (0 ≤ t.currentChannel →
      ∃ c : Fin 8, t.currentChannel = c.val ∧ t.wire.control = controlByte c) ∧
    (∀ op t', Reliable t op → motorStep fuel t op t' → SelectionArrives t t' ∧
      ∃ new, t'.wire.log = t.wire.log ++ new ∧ ∀ p ∈ new, p.address ≠ I2C_MUX_ADDRESS →
        ∀ m a, op.target = some (m, a) → ∀ d, isOpen p.control d = true → d.val = m.toNat) ∧
    ∀ op t', op.Valid → motorStep fuel t op t' →
      (Coherent t' ∧ SelectionArrives t t' ↔ Reliable t op) := by
  have hc : Coherent t :=
    hr.invariant Coherent (fun _ _ _ hi hok hstep => (reliable_step hi hok hstep).1) hg (Or.inl hs)
  refine ⟨?_, ?_, ?_⟩
  · intro h0
    exact hc.resolve_left (by omega)
  · intro op t' hok hstep
    exact (reliable_step hc hok hstep).2
  · intro op t' hv hstep
    exact reliable_iff hc hv hstep

/-- The writes of both stops to their drivers are lost, and so is the one that closes the channels.
The selections arrive, the last one while channel 1 is still open. -/
theorem motor_run_coherent_lost_writes : ∃ t,
    Run (motorStep 0) (bootMotor fun n => n == 0 || n == 3)
      [.stop 1 0x60, .disableAll, .stop 0 0x60] t ∧
    t.currentChannel = 0 ∧
      ∃ c : Fin 8, t.currentChannel = c.val ∧ t.wire.control = controlByte c := by
  obtain ⟨t, hrun, hcached⟩ : ∃ t, Run (motorStep 0) (bootMotor fun n => n == 0 || n == 3)
      [.stop 1 0x60, .disableAll, .stop 0 0x60] t ∧ t.currentChannel = 0 :=
    ⟨_, .cons rfl (.cons rfl (.cons rfl (.nil _))), rfl⟩
  have hreliable : Guarded (motorStep 0) Reliable (bootMotor fun n => n == 0 || n == 3)
      [.stop 1 0x60, .disableAll, .stop 0 0x60] := by
    refine ⟨fun m a h => ?_, fun t ht => ⟨nofun, fun u hu => ⟨fun m a h => ?_, fun _ _ => trivial⟩⟩⟩
    · cases h
      decide
    · cases h
      cases ht
      cases hu
      decide
  exact ⟨t, hrun, hcached,
    (motor_run_coherent 0 rfl hrun hreliable).1 (le_of_eq hcached.symm)⟩

/-- The third transaction, the selection of channel 0, is lost. The cache says 0 while the mux has
channel 1 open, and the stop meant for channel 0 goes to the driver behind channel 1. -/
theorem lost_selection_misdirects : ∃ t, Run (motorStep 0) (bootMotor fun n => n != 2)
    [.stop 1 0x60, .stop 0 0x60] t ∧ t.currentChannel = 0 ∧
      (¬ ∃ c : Fin 8, t.currentChannel = c.val ∧ t.wire.control = controlByte c) ∧
      ∃ p, t.wire.log.getLast? = some p ∧ p.Reaches 1 0x60 ∧ ¬ p.Reaches 0 0x60 := by
  refine ⟨_, .cons rfl (.cons rfl (.nil _)), rfl, ?_, _, rfl, ⟨by decide, rfl, rfl⟩, ?_⟩
  · rintro ⟨c, hc, hcontrol⟩
    have hzero : (0 : Int) = c.val := hc
    obtain rfl : c = 0 := Fin.ext (by simpa using hzero.symm)
    revert hcontrol
    decide
  · rintro ⟨-, -, hopen⟩
    revert hopen
    decide

end QuadBot
