import QuadBot.MotorInterleaved
import QuadBot.MotorRejected

/-! Runs with lost transactions. Whatever is lost, the mux never has two channels open, so that no
write spreads to a second driver; and once nothing is lost any more, the channel cache is coherent
again as soon as a command names another channel than the cached one. -/

namespace QuadBot

open Lts

/-- At most one channel is open. -/
def AtMostOneOpen (control : UInt8) : Prop := control = 0 ∨ ∃ c, control = controlByte c

theorem AtMostOneOpen.unique {control : UInt8} (h : AtMostOneOpen control) {c d : Fin 8}
    (hc : isOpen control c = true) (hd : isOpen control d = true) : c = d := by
  rcases h with rfl | ⟨e, rfl⟩
  · rw [isOpen_zero] at hc
    cases hc
  · rw [isOpen_controlByte, decide_eq_true_iff] at hc hd
    rw [hc, hd]

/-- The command leaves the address of the mux to the channel selection. -/
def MotorOp.SparesMux (op : MotorOp) : Prop := ∀ m a, op.target = some (m, a) → a ≠ I2C_MUX_ADDRESS

theorem MotorOp.Valid.sparesMux {op : MotorOp} (h : op.Valid) : op.SparesMux :=
  fun m a ht => (h m a ht).2

/-! ### What a call can reach -/

/-- What a call of a command leaves the mux and the drivers with: the control register as it was,
0, or the byte of the named channel; and changes only at drivers that this opens. -/
structure Confined (s : Motor MotorBus) (op : MotorOp) (t : Motor MotorBus) : Prop where
  control : t.wire.control = s.wire.control ∨ t.wire.control = 0 ∨
    ∃ c a, op.target = some (UInt8.ofNat c.val, a) ∧ t.wire.control = controlByte c
  log : ∃ new, t.wire.log = s.wire.log ++ new ∧
    ∀ p ∈ new, p.address ≠ I2C_MUX_ADDRESS → p.control = t.wire.control ∧
      ∃ m, op.target = some (m, p.address)
  reg : ∀ c a, t.wire.reg c a ≠ s.wire.reg c a → isOpen t.wire.control c = true ∧
    ∃ m, op.target = some (m, a)

section

variable {s t : Motor MotorBus} {fuel : Nat} {op : MotorOp}

theorem select_control (m : UInt8) (s : Motor MotorBus) :
    (i2cSelectChannel motorBus I2C_MUX_ADDRESS m s).wire.control = s.wire.control ∨
      ∃ c : Fin 8, m = UInt8.ofNat c.val ∧
        (i2cSelectChannel motorBus I2C_MUX_ADDRESS m s).wire.control = controlByte c := by
  by_cases hm : 7 < m
  · exact Or.inl (congrArg MotorBus.control (select_rejected hm s).2)
  · obtain ⟨c, rfl⟩ := exists_channel hm
    have hsel := congrArg Selector.State.register (selector_select c s)
    rw [Selector.select] at hsel
    split at hsel
    · exact Or.inl hsel
    · cases hack : s.wire.acks.head with
      | false => exact Or.inl (hsel.trans (by rw [hack]; rfl))
      | true => exact Or.inr ⟨c, rfl, hsel.trans (by rw [hack]; rfl)⟩

/-- Writes change only the drivers at their address behind open channels. -/
theorem send_reg_ne {a b : UInt8} (ha : a ≠ I2C_MUX_ADDRESS) (ws : List (UInt8 × UInt8))
    {c : Fin 8} (h : (s.send motorBus a ws).wire.reg c b ≠ s.wire.reg c b) :
    isOpen s.wire.control c = true ∧ b = a := by
  induction ws generalizing s with
  | nil => exact absurd rfl h
  | cons w ws ih =>
    by_cases hstep : (s.wr motorBus a w.1 w.2).wire.reg c b = s.wire.reg c b
    · rw [send_cons, ← hstep] at h
      have hrest := ih h
      rwa [wr_control_driver _ _ _ _ ha] at hrest
    · by_contra hnot
      apply hstep
      rw [wr_reg_outcome ha]
      split
      · funext r
        rw [Bank.writeOpen, if_neg fun hc => hnot ⟨hc.1, hc.2.1⟩]
      · rfl

theorem access_reg_ne {a b : UInt8} (ha : a ≠ I2C_MUX_ADDRESS)
    (hacc : op.access motorBus fuel a s = .ok t) {c : Fin 8}
    (h : t.wire.reg c b ≠ s.wire.reg c b) : isOpen s.wire.control c = true ∧ b = a := by
  unfold MotorOp.access at hacc
  split at hacc
  · cases hacc
    exact send_reg_ne ha _ h
  · rename_i r _
    rw [i2cRd_eq] at hacc
    split at hacc
    · cases hacc
    · cases hacc
      exact absurd (congrFun (congrFun (requested_reg s.wire a r) c) b) h

/-- One call, with any outcomes of its transactions. -/
theorem confined_step (hop : op.SparesMux) (h : motorStep fuel s op t) : Confined s op t := by
  cases ht : op.target with
  | none =>
    obtain rfl := MotorOp.target_eq_none.mp ht
    cases h
    have hcontrol := wrByte_control 0x00 s.wire
    refine ⟨?_, ⟨_, wrByte_log 0x00 s.wire, ?_⟩, ?_⟩
    · cases hack : s.wire.acks.head with
      | false => exact Or.inl (hcontrol.trans (by rw [hack]; rfl))
      | true => exact Or.inr (Or.inl (hcontrol.trans (by rw [hack]; rfl)))
    · intro p hp hne
      exact absurd (by rw [List.mem_singleton.mp hp]) hne
    · intro c a hne
      exact absurd (congrFun (congrFun (wrByte_reg 0x00 s.wire) c) a) hne
  | some target =>
    obtain ⟨m, a⟩ := target
    have ha := hop m a ht
    have hacc := (MotorOp.exec_eq motorBus fuel ht s).symm.trans h
    obtain ⟨-, hcontrol, new, hlog, hnew⟩ := access_spec ha hacc
    obtain ⟨new₀, hlog₀, hnew₀⟩ := select_log m s
    refine ⟨?_, ⟨new₀ ++ new, by rw [hlog, hlog₀, List.append_assoc], ?_⟩, ?_⟩
    · rw [hcontrol]
      rcases select_control m s with hsame | ⟨c, hm, hbyte⟩
      · exact Or.inl hsame
      · exact Or.inr (Or.inr ⟨c, a, by rw [hm] at ht; exact ht, hbyte⟩)
    · intro p hp hne
      rcases List.mem_append.mp hp with hp | hp
      · exact absurd (hnew₀ p hp) hne
      · obtain ⟨hpc, rfl⟩ := hnew p hp
        exact ⟨hpc.trans hcontrol.symm, m, ht⟩
    · intro c b hne
      rw [← select_reg m s] at hne
      obtain ⟨hopen, rfl⟩ := access_reg_ne ha hacc hne
      exact ⟨by rw [hcontrol]; exact hopen, m, ht⟩

theorem Confined.atMostOneOpen (h : Confined s op t) (hs : AtMostOneOpen s.wire.control) :
    AtMostOneOpen t.wire.control := by
  rcases h.control with hsame | hzero | ⟨c, a, -, hbyte⟩
  · rw [hsame]
    exact hs
  · exact Or.inl hzero
  · exact Or.inr ⟨c, hbyte⟩

/-- A channel that is open after the call was open before it, or the call names it. -/
theorem Confined.open_of_open (h : Confined s op t) {c : Fin 8}
    (hopen : isOpen t.wire.control c = true) : isOpen s.wire.control c = true ∨
      ∃ a, op.target = some (UInt8.ofNat c.val, a) := by
  rcases h.control with hsame | hzero | ⟨d, a, ht, hbyte⟩
  · exact Or.inl (hsame ▸ hopen)
  · rw [hzero, isOpen_zero] at hopen
    cases hopen
  · rw [hbyte, isOpen_controlByte, decide_eq_true_iff] at hopen
    exact Or.inr ⟨a, hopen ▸ ht⟩

end

theorem run_atMostOneOpen {fuel : Nat} {s t : Motor MotorBus} {ops : List MotorOp}
    (hs : AtMostOneOpen s.wire.control) (hops : ∀ op ∈ ops, op.SparesMux)
    (hrun : Run (motorStep fuel) s ops t) : AtMostOneOpen t.wire.control := by
  induction hrun with
  | nil s => exact hs
  | cons hstep _ ih =>
    have hfirst := confined_step (hops _ List.mem_cons_self) hstep
    exact ih (hfirst.atMostOneOpen hs) fun o ho => hops o (List.mem_cons_of_mem _ ho)

/-- A driver whose address no command names keeps its registers. -/
theorem run_reg_frame {fuel : Nat} {s t : Motor MotorBus} {ops : List MotorOp} {a : UInt8}
    (hops : ∀ op ∈ ops, op.SparesMux) (ha : ∀ op ∈ ops, ∀ m, op.target ≠ some (m, a))
    (hrun : Run (motorStep fuel) s ops t) (c : Fin 8) : t.wire.reg c a = s.wire.reg c a := by
  induction hrun with
  | nil s => rfl
  | @cons s m t op ops hstep _ ih =>
    have hfirst : m.wire.reg c a = s.wire.reg c a := by
      by_contra hne
      obtain ⟨-, k, ht⟩ := (confined_step (hops op List.mem_cons_self) hstep).reg c a hne
      exact ha op List.mem_cons_self k ht
    rw [← hfirst]
    exact ih (fun o ho => hops o (List.mem_cons_of_mem op ho))
      fun o ho => ha o (List.mem_cons_of_mem op ho)

/-- Over every run of commands, with any outcomes of the transactions and any channel numbers, from
a state with at most one channel open: at most one channel is open, every register access put on the
bus reaches at most one driver, and a driver whose registers have changed is at an address that some
command names, behind a channel that was open at the start or that some command names. -/
theorem lost_writes_confined (fuel : Nat) {s t : Motor MotorBus} {ops : List MotorOp}
    (hs : AtMostOneOpen s.wire.control) (hops : ∀ op ∈ ops, op.SparesMux)
    (hrun : Run (motorStep fuel) s ops t) :
    AtMostOneOpen t.wire.control ∧
      (∃ new, t.wire.log = s.wire.log ++ new ∧
        ∀ p ∈ new, ∀ c a d b, p.Reaches c a → p.Reaches d b → c = d ∧ a = b) ∧
      ∀ c a, t.wire.reg c a ≠ s.wire.reg c a →
        (∃ op ∈ ops, ∃ m, op.target = some (m, a)) ∧
        (isOpen s.wire.control c = true ∨
          ∃ op ∈ ops, ∃ b, op.target = some (UInt8.ofNat c.val, b)) := by
  induction hrun with
  | nil s => exact ⟨hs, ⟨[], by simp, by simp⟩, fun c a h => absurd rfl h⟩
  | @cons s m t op ops hstep _ ih =>
    have hfirst := confined_step (hops op List.mem_cons_self) hstep
    have hm := hfirst.atMostOneOpen hs
    obtain ⟨ht, ⟨new', hlog', hnew'⟩, hreg'⟩ :=
      ih hm fun o ho => hops o (List.mem_cons_of_mem op ho)
    obtain ⟨new, hlog, hnew⟩ := hfirst.log
    refine ⟨ht, ⟨new ++ new', by rw [hlog', hlog, List.append_assoc], ?_⟩, ?_⟩
    · intro p hp c a d b hc hd
      rcases List.mem_append.mp hp with hp | hp
      · obtain ⟨hcontrol, -⟩ := hnew p hp hc.1
        have hone : AtMostOneOpen p.control := hcontrol ▸ hm
        exact ⟨hone.unique hc.2.2 hd.2.2, hc.2.1.symm.trans hd.2.1⟩
      · exact hnew' p hp c a d b hc hd
    · intro c a hne
      have hopened : isOpen m.wire.control c = true → isOpen s.wire.control c = true ∨
          ∃ o ∈ op :: ops, ∃ b, o.target = some (UInt8.ofNat c.val, b) := by
        intro hopen
        exact (hfirst.open_of_open hopen).imp_right fun ⟨b, hb⟩ => ⟨op, List.mem_cons_self, b, hb⟩
      by_cases hfirst_ne : m.wire.reg c a = s.wire.reg c a
      · rw [← hfirst_ne] at hne
        obtain ⟨⟨o, ho, haddress⟩, hchannel⟩ := hreg' c a hne
        refine ⟨⟨o, List.mem_cons_of_mem op ho, haddress⟩, ?_⟩
        rcases hchannel with hopen | ⟨o, ho, b, hb⟩
        · exact hopened hopen
        · exact Or.inr ⟨o, List.mem_cons_of_mem op ho, b, hb⟩
      · obtain ⟨hopen, haddress⟩ := hfirst.reg c a hfirst_ne
        exact ⟨⟨op, List.mem_cons_self, haddress⟩, hopened hopen⟩

/-- The selection of channel 0 is lost, as in `lost_selection_misdirects`, and the stop goes to
channel 1 alone. -/
theorem lost_writes_confined_two_channels : ∃ t, Run (motorStep 0) (bootMotor fun n => n != 2)
    [.stop 1 0x60, .stop 0 0x60] t ∧ AtMostOneOpen t.wire.control := by
  have hrun : Run (motorStep 0) (bootMotor fun n => n != 2) [.stop 1 0x60, .stop 0 0x60] _ :=
    .cons rfl (.cons rfl (.nil _))
  have hops : ∀ op ∈ [MotorOp.stop 1 0x60, .stop 0 0x60], op.SparesMux := by
    simp [MotorOp.SparesMux, MotorOp.target, I2C_MUX_ADDRESS]
  exact ⟨_, hrun, (lost_writes_confined 0 (Or.inl rfl) hops hrun).1⟩

/-! ### When the bus is well again -/

/-- What a command asks of the selection: a channel, or none for `I2C_DisableAllChannels`. -/
def MotorOp.request (op : MotorOp) : Option (Fin 8) := op.driver.map Prod.fst

theorem request_channel {op : MotorOp} {c : Fin 8} {a : UInt8}
    (ht : op.target = some (UInt8.ofNat c.val, a)) : op.request = some c := by
  rw [MotorOp.request, MotorOp.driver_eq_some.mpr ht]
  rfl

theorem request_ne_iff {op : MotorOp} {c : Fin 8} :
    op.request ≠ some c ↔ ∀ a, op.target ≠ some (UInt8.ofNat c.val, a) := by
  constructor
  · intro h a ht
    exact h (request_channel ht)
  · intro h hreq
    obtain ⟨⟨d, a⟩, hdriver, hd⟩ := Option.map_eq_some_iff.mp hreq
    obtain rfl : d = c := hd
    exact h a (MotorOp.driver_eq_some.mp hdriver)

section

variable {s t : Motor MotorBus} {fuel : Nat} {op : MotorOp}

/-- On the cache and the control register a valid command acts as its request, whose write arrives
when it is acknowledged. -/
theorem selector_step (hop : op.Valid) (h : motorStep fuel s op t) : t.selector =
    Selector.request controlByte 0 s.wire.acks.head s.selector op.request := by
  cases ht : op.target with
  | none =>
    obtain rfl := MotorOp.target_eq_none.mp ht
    cases h
    exact congrArg (Selector.State.mk none) (wrByte_control 0x00 s.wire)
  | some target =>
    obtain ⟨m, a⟩ := target
    obtain ⟨hm, ha⟩ := hop m a ht
    obtain ⟨c, rfl⟩ := exists_channel hm
    have hacc := (MotorOp.exec_eq motorBus fuel ht s).symm.trans h
    obtain ⟨hcur, hcontrol, -⟩ := access_spec ha hacc
    rw [request_channel ht, Selector.request, ← selector_select]
    apply selector_ext
    · intro d
      rw [cached_eq_some, cached_eq_some, hcur]
    · exact hcontrol

theorem access_returns (fuel : Nat) (op : MotorOp) {a : UInt8} (hs : s.wire.acks = acked) :
    ∃ t, op.access motorBus fuel a s = .ok t ∧ t.wire.acks = acked := by
  unfold MotorOp.access
  split
  · exact ⟨_, rfl, send_acked hs _⟩
  · rename_i r _
    obtain ⟨byte, hbyte⟩ := requested_received s.wire a r hs
    rw [i2cRd_eq, hbyte]
    exact ⟨_, rfl, by rw [requested_acks, hs, acked_tail, acked_tail]⟩

/-- While everything is acknowledged every call returns, whatever is cached. -/
theorem acked_step (fuel : Nat) (hs : s.wire.acks = acked) (op : MotorOp) :
    ∃ t, motorStep fuel s op t ∧ t.wire.acks = acked := by
  cases ht : op.target with
  | none =>
    obtain rfl := MotorOp.target_eq_none.mp ht
    exact ⟨_, rfl, (wrByte_acks 0x00 s.wire).trans (by rw [hs, acked_tail])⟩
  | some target =>
    obtain ⟨m, a⟩ := target
    obtain ⟨t, hacc, hacks⟩ := access_returns fuel op (select_acked (m := m) hs) (a := a)
    exact ⟨t, (MotorOp.exec_eq motorBus fuel ht s).trans hacc, hacks⟩

/-- A run of valid commands with everything acknowledged serves their requests. -/
theorem selector_run (fuel : Nat) (hs : s.wire.acks = acked) {ops : List MotorOp}
    (hops : ∀ op ∈ ops, op.Valid) : ∃ t, Run (motorStep fuel) s ops t ∧ t.wire.acks = acked ∧
      t.selector =
        (ops.map MotorOp.request).foldl (Selector.request controlByte 0 true) s.selector := by
  rw [List.foldl_map]
  apply exists_run_refining (fun s : Motor MotorBus => s.wire.acks = acked) Motor.selector
    (fun S op => Selector.request controlByte 0 true S op.request) ?_ hops hs
  intro s op hs hop
  obtain ⟨t, hstep, hacks⟩ := acked_step fuel hs op
  have hsel := selector_step hop hstep
  rw [hs, acked_head] at hsel
  exact ⟨t, hstep, hacks, hsel⟩

/-- A call on the cached channel goes on the bus under the control register that it finds. -/
theorem cached_step_log {c : Fin 8} {a : UInt8} (hs : s.currentChannel = c.val)
    (ht : op.target = some (UInt8.ofNat c.val, a)) (ha : a ≠ I2C_MUX_ADDRESS)
    (h : motorStep fuel s op t) : t.currentChannel = c.val ∧ t.wire.control = s.wire.control ∧
      ∃ new, t.wire.log = s.wire.log ++ new ∧ ∀ p ∈ new, p.control = s.wire.control := by
  have hselect : i2cSelectChannel motorBus I2C_MUX_ADDRESS (UInt8.ofNat c.val) s = s := by
    rw [i2cSelectChannel, if_neg (channel_not_gt c), channel_toNat, if_pos hs]
  have hacc := (MotorOp.exec_eq motorBus fuel ht s).symm.trans h
  rw [hselect] at hacc
  obtain ⟨hcur, hcontrol, new, hlog, hnew⟩ := access_spec ha hacc
  exact ⟨hcur.trans hs, hcontrol, new, hlog, fun p hp => (hnew p hp).1⟩

end

/-- The cached channel is the open one, alone. -/
def TellsOpen (s : Motor MotorBus) : Prop :=
  ∀ c : Fin 8, s.currentChannel = c.val → s.wire.control = controlByte c

theorem tellsOpen_iff (s : Motor MotorBus) :
    TellsOpen s ↔ Selector.Coherent controlByte s.selector := by
  unfold TellsOpen Selector.Coherent
  simp only [cached_eq_some]
  rfl

/-- From any state in which channel `c` is cached, while everything is acknowledged: a run of valid
commands ends with a cache that tells the open channel exactly where it started with one or some
command is not for `c`. Until then the commands for `c` go wherever the control register sends
them. -/
theorem heals_iff (fuel : Nat) {s : Motor MotorBus} (hacks : s.wire.acks = acked) {c : Fin 8}
    (hc : s.currentChannel = c.val) {ops : List MotorOp} (hops : ∀ op ∈ ops, op.Valid) :
    ∃ t, Run (motorStep fuel) s ops t ∧
      (TellsOpen t ↔ s.wire.control = controlByte c ∨
        ∃ op ∈ ops, ∀ a, op.target ≠ some (UInt8.ofNat c.val, a)) ∧
      ((∀ op ∈ ops, ∃ a, op.target = some (UInt8.ofNat c.val, a)) →
        t.wire.control = s.wire.control ∧
        ∃ new, t.wire.log = s.wire.log ++ new ∧ ∀ p ∈ new, p.control = s.wire.control) := by
  obtain ⟨t, hrun, -, hsel⟩ := selector_run fuel hacks hops
  have hcached : s.selector.cached = some c := cached_eq_some.mpr hc
  have hstart : Selector.Coherent controlByte s.selector ↔ s.wire.control = controlByte c := by
    constructor
    · exact fun h => h c hcached
    · intro h d hd
      obtain rfl : c = d := Option.some.inj (hcached.symm.trans hd)
      exact h
  have hwrites : ∀ op : MotorOp, Selector.Writes s.selector op.request ↔
      ∀ a, op.target ≠ some (UInt8.ofNat c.val, a) := by
    intro op
    rw [← request_ne_iff, Selector.Writes, hcached, or_iff_right_of_imp]
    intro hnone
    simp [hnone]
  refine ⟨t, hrun, ?_, ?_⟩
  · rw [tellsOpen_iff, hsel, Selector.coherent_foldl_iff, hstart]
    simp only [List.mem_map, exists_exists_and_eq_and, hwrites]
  · intro hall
    clear hsel hstart hwrites hcached hacks
    induction hrun with
    | nil s => exact ⟨rfl, [], by simp, by simp⟩
    | @cons s m t op ops hstep _ ih =>
      obtain ⟨a, ht⟩ := hall op List.mem_cons_self
      obtain ⟨hcur, hcontrol, new, hlog, hnew⟩ :=
        cached_step_log hc ht (hops op List.mem_cons_self _ a ht).2 hstep
      obtain ⟨hcontrol', new', hlog', hnew'⟩ := ih hcur
        (fun o ho => hops o (List.mem_cons_of_mem op ho))
        (fun o ho => hall o (List.mem_cons_of_mem op ho))
      refine ⟨hcontrol'.trans hcontrol, new ++ new', by rw [hlog', hlog, List.append_assoc], ?_⟩
      intro p hp
      rcases List.mem_append.mp hp with hp | hp
      · exact hnew p hp
      · exact (hnew' p hp).trans hcontrol

/-- Channel 0 is cached with channel 1 open: a stop of channel 0 does not heal, one of channel 2
does. -/
theorem heals_iff_other_channel : ∃ t, Run (motorStep 0)
    { bootMotor acked with
      currentChannel := 0, wire := { (bootMotor acked).wire with control := controlByte 1 } }
    [.stop 0 0x60, .stop 2 0x60] t ∧ TellsOpen t := by
  have hops : ∀ op ∈ [MotorOp.stop 0 0x60, .stop 2 0x60], op.Valid := by
    simp [MotorOp.Valid, MotorOp.target, I2C_MUX_ADDRESS]
  obtain ⟨t, hrun, hiff, -⟩ := heals_iff 0 (c := 0) (s := { bootMotor acked with
    currentChannel := 0, wire := { (bootMotor acked).wire with control := controlByte 1 } })
    rfl rfl hops
  refine ⟨t, hrun, hiff.mpr (Or.inr ⟨.stop 2 0x60, by simp, ?_⟩)⟩
  intro a h
  cases h

/-! ### How often the mux is written -/

/-- The channel that is cached after a command for channel `m`. A rejected number changes
nothing. -/
def cachedAfter (currentChannel : Int) (m : UInt8) : Int :=
  if 7 < m then currentChannel else m.toNat

/-- How many commands the mux is written for: those that close it, and those that change the cached
channel. -/
def selections (currentChannel : Int) : List MotorOp → Nat
  | [] => 0
  | op :: ops =>
    match op.target with
    | none => 1 + selections (-1) ops
    | some (m, _) =>
      (if cachedAfter currentChannel m = currentChannel then 0 else 1) +
        selections (cachedAfter currentChannel m) ops

def toMux (puts : List Put) : Nat := puts.countP (·.address = I2C_MUX_ADDRESS)

theorem toMux_append (puts puts' : List Put) : toMux (puts ++ puts') = toMux puts + toMux puts' :=
  List.countP_append

theorem select_toMux (m : UInt8) (s : Motor MotorBus) :
    (i2cSelectChannel motorBus I2C_MUX_ADDRESS m s).currentChannel =
        cachedAfter s.currentChannel m ∧
      ∃ new, (i2cSelectChannel motorBus I2C_MUX_ADDRESS m s).wire.log = s.wire.log ++ new ∧
        toMux new = if cachedAfter s.currentChannel m = s.currentChannel then 0 else 1 := by
  unfold i2cSelectChannel cachedAfter
  by_cases hm : 7 < m
  · simp only [hm, if_true]
    exact ⟨trivial, [], by simp, rfl⟩
  · simp only [hm, if_false]
    by_cases hcached : s.currentChannel = m.toNat
    · rw [if_pos hcached, if_pos hcached.symm]
      exact ⟨hcached, [], by simp, rfl⟩
    · rw [if_neg hcached, if_neg (Ne.symm hcached)]
      exact ⟨rfl, _, wrByte_log (1 <<< m) s.wire, rfl⟩

theorem toMux_step {fuel : Nat} {s t : Motor MotorBus} {op : MotorOp} (hop : op.SparesMux)
    (h : motorStep fuel s op t) : ∃ new, t.wire.log = s.wire.log ++ new ∧
      ∀ ops, selections s.currentChannel (op :: ops) =
        toMux new + selections t.currentChannel ops := by
  cases ht : op.target with
  | none =>
    obtain rfl := MotorOp.target_eq_none.mp ht
    cases h
    exact ⟨_, wrByte_log 0x00 s.wire, fun _ => rfl⟩
  | some target =>
    obtain ⟨m, a⟩ := target
    have ha := hop m a ht
    have hacc := (MotorOp.exec_eq motorBus fuel ht s).symm.trans h
    obtain ⟨hcur, -, new, hlog, hnew⟩ := access_spec ha hacc
    obtain ⟨hcur₀, new₀, hlog₀, hcount⟩ := select_toMux m s
    have hnone : toMux new = 0 := by
      rw [toMux, List.countP_eq_zero]
      intro p hp
      simp [(hnew p hp).2, ha]
    refine ⟨new₀ ++ new, by rw [hlog, hlog₀, List.append_assoc], ?_⟩
    intro ops
    rw [toMux_append, hnone, hcount, hcur, hcur₀]
    simp only [selections, ht, Nat.add_zero]

/-- In every run that leaves the address of the mux alone, whatever is lost and whatever the channel
numbers, the mux is written exactly once for each command that needs another selection than the
cached one. -/
theorem mux_written_on_change (fuel : Nat) {s t : Motor MotorBus} {ops : List MotorOp}
    (hops : ∀ op ∈ ops, op.SparesMux) (hrun : Run (motorStep fuel) s ops t) :
    ∃ new, t.wire.log = s.wire.log ++ new ∧ toMux new = selections s.currentChannel ops := by
  induction hrun with
  | nil s => exact ⟨[], by simp, rfl⟩
  | @cons s m t op ops hstep _ ih =>
    obtain ⟨new, hlog, hcount⟩ := toMux_step (hops op List.mem_cons_self) hstep
    obtain ⟨new', hlog', hcount'⟩ := ih fun o ho => hops o (List.mem_cons_of_mem op ho)
    refine ⟨new ++ new', by rw [hlog', hlog, List.append_assoc], ?_⟩
    rw [hcount ops, ← hcount', toMux_append]

/-- Three commands on channel 3 and one on channel 5 take two selections. -/
theorem mux_written_on_change_twice : ∃ t, Run (motorStep 0) (bootMotor acked)
    [.stop 3 0x60, .stop 3 0x61, .stop 3 0x60, .stop 5 0x60] t ∧
    ∃ new, t.wire.log = new ∧ toMux new = 2 := by
  have hrun : Run (motorStep 0) (bootMotor acked)
      [.stop 3 0x60, .stop 3 0x61, .stop 3 0x60, .stop 5 0x60] _ :=
    .cons rfl (.cons rfl (.cons rfl (.cons rfl (.nil _))))
  have hops : ∀ op ∈ [MotorOp.stop 3 0x60, .stop 3 0x61, .stop 3 0x60, .stop 5 0x60],
      op.SparesMux := by
    simp [MotorOp.SparesMux, MotorOp.target, I2C_MUX_ADDRESS]
  obtain ⟨new, hlog, hcount⟩ := mux_written_on_change 0 hops hrun
  exact ⟨_, hrun, new, by rw [hlog]; rfl, hcount⟩

end QuadBot
