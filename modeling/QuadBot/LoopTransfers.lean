import QuadBot.LoopMotors
import QuadBot.MotorLost

/-! The text on Serial as a program for the first I2C bus. The transactions that it comes to, the
cached channel and the error messages are a function of the text and of the channel cached before:
nothing that comes back over the bus has a part in them. -/

namespace QuadBot

/-- A transaction with the devices of a bus, whose outcome nobody looks at. -/
def serve {σ : Type} (bus : Bus σ) (wire : σ) : UInt8 × Transfer → σ
  | (address, .write bytes) => (bus.endTransmission wire address bytes).2
  | (address, .read count) => (bus.requestFrom wire address count).2

/-! ### What a command comes to -/

/-- The selection of a channel, where it is not the cached one. -/
def selectionTransfers (currentChannel : Int) (m : UInt8) : List (UInt8 × Transfer) :=
  if cachedAfter currentChannel m = currentChannel then [] else
    [(I2C_MUX_ADDRESS, .write [1 <<< m])]

/-- The message for a channel that does not exist. -/
def channelErrors (m : UInt8) : List String :=
  if 7 < m then [invalidChannel] else []

namespace MotorOp

/-- The accesses to the driver that is named. -/
def accesses (op : MotorOp) (a : UInt8) : List (UInt8 × Transfer) :=
  match op.reads with
  | none => op.writes.map fun w => (a, .write [w.1, w.2])
  | some r => [(a, .write [r]), (a, .read 1)]

def transfers (op : MotorOp) (currentChannel : Int) : List (UInt8 × Transfer) :=
  match op.target with
  | none => [(I2C_MUX_ADDRESS, .write [0x00])]
  | some (m, a) => selectionTransfers currentChannel m ++ op.accesses a

/-- The cached channel after the command. -/
def cached (currentChannel : Int) (op : MotorOp) : Int :=
  match op.target with
  | none => -1
  | some (m, _) => cachedAfter currentChannel m

def messages (op : MotorOp) : List String :=
  match op.target with
  | none => []
  | some (m, _) => channelErrors m

end MotorOp

/-- The transactions of a run of commands. -/
def commandTransfers : Int → List MotorOp → List (UInt8 × Transfer)
  | _, [] => []
  | currentChannel, op :: ops =>
    op.transfers currentChannel ++ commandTransfers (op.cached currentChannel) ops

/-! ### Commands are their transactions -/

section

variable {σ : Type} {bus : Bus σ} {fuel : Nat} {s t : Motor σ}

/-- The state after the given transactions. -/
def Motor.served (bus : Bus σ) (ts : List (UInt8 × Transfer)) (currentChannel : Int)
    (messages : List String) (s : Motor σ) : Motor σ where
  currentChannel
  wire := ts.foldl (serve bus) s.wire
  errors := s.errors ++ messages

theorem select_served (m : UInt8) (s : Motor σ) :
    i2cSelectChannel bus I2C_MUX_ADDRESS m s = s.served bus (selectionTransfers s.currentChannel m)
      (cachedAfter s.currentChannel m) (channelErrors m) := by
  unfold i2cSelectChannel Motor.served selectionTransfers channelErrors cachedAfter
  by_cases hm : 7 < m
  · simp [hm]
  · by_cases hcached : s.currentChannel = m.toNat
    · simp only [hm, hcached, if_true, if_false, List.foldl_nil, List.append_nil]
      rw [← hcached]
    · simp [hm, hcached, Ne.symm hcached, serve, i2cWrByte]

theorem send_served (a : UInt8) (ws : List (UInt8 × UInt8)) (s : Motor σ) :
    s.send bus a ws =
      s.served bus (ws.map fun w => (a, .write [w.1, w.2])) s.currentChannel [] := by
  induction ws generalizing s with
  | nil => simp [Motor.send, Motor.served]
  | cons w ws ih =>
    rw [Motor.send, List.foldl_cons, ← Motor.send, ih]
    simp [Motor.served, Motor.wr, i2cWr, serve]

theorem access_served {op : MotorOp} {a : UInt8} (h : op.access bus fuel a s = .ok t) :
    t = s.served bus (op.accesses a) s.currentChannel [] := by
  unfold MotorOp.access at h
  unfold MotorOp.accesses
  cases hr : op.reads with
  | none =>
    rw [hr] at h
    exact (Except.ok.inj h).symm.trans (send_served a op.writes s)
  | some r =>
    rw [hr] at h
    dsimp only at h
    rw [i2cRd_eq] at h
    cases hreceived : (requested bus a r s.wire).1 with
    | nil => rw [hreceived] at h; cases h
    | cons byte rest =>
      rw [hreceived] at h
      obtain rfl := Except.ok.inj h
      simp [Motor.served, serve, requested]

/-- One command. -/
theorem exec_served {op : MotorOp} (h : op.exec bus fuel s = .ok t) :
    t = s.served bus (op.transfers s.currentChannel) (op.cached s.currentChannel) op.messages := by
  unfold MotorOp.transfers MotorOp.cached MotorOp.messages
  cases ht : op.target with
  | none =>
    obtain rfl := MotorOp.target_eq_none.mp ht
    obtain rfl := Except.ok.inj h
    simp [i2cDisableAllChannels, Motor.served, serve, i2cWrByte]
  | some target =>
    obtain ⟨m, a⟩ := target
    rw [MotorOp.exec_eq bus fuel ht] at h
    rw [access_served h, select_served]
    simp [Motor.served]

/-- A run of commands. -/
theorem execAll_served {ops : List MotorOp} (h : execAll bus fuel ops s = .ok t) :
    t = s.served bus (commandTransfers s.currentChannel ops)
      (ops.foldl MotorOp.cached s.currentChannel) (ops.flatMap MotorOp.messages) := by
  induction ops generalizing s with
  | nil =>
    obtain rfl := Except.ok.inj h
    simp [Motor.served, commandTransfers]
  | cons op ops ih =>
    rw [execAll, List.foldlM_cons] at h
    cases hfirst : op.exec bus fuel s with
    | error e => rw [hfirst] at h; cases h
    | ok m =>
      rw [hfirst] at h
      rw [ih h, exec_served hfirst]
      simp [Motor.served, commandTransfers]

end

/-- On every bus, with any outcomes of the transactions, where `loop` gets through a byte stream
that comes in any chunks: it has done to the devices what the transactions do that the lines come
to, one after the other and nothing else, and the cached channel and the error messages are those of
the lines. -/
theorem loop_compiles_text {σ : Type} {bus : Bus σ} {fuel : Nat} {chunks : List (List Char)}
    {motor : Motor σ} {s : Loop σ}
    (h : chunks.foldlM (fun s available => loop bus fuel available s) (startLoop motor) = .ok s) :
    s.motor.wire = (commandTransfers motor.currentChannel (lineOps chunks.flatten)).foldl
        (serve bus) motor.wire ∧
      s.motor.currentChannel =
        (lineOps chunks.flatten).foldl MotorOp.cached motor.currentChannel ∧
      s.motor.errors = motor.errors ++ (lineOps chunks.flatten).flatMap MotorOp.messages := by
  have hserved := execAll_served (execAll_of_loop h)
  exact ⟨congrArg Motor.wire hserved, congrArg Motor.currentChannel hserved,
    congrArg Motor.errors hserved⟩

/-- A line for a channel that does not exist, after one that is lost. -/
theorem loop_compiles_text_no_channel : ∃ s : Loop MotorBus,
    ["stop 3 96\nst".toList, "op 9 96\n".toList].foldlM
        (fun s available => loop motorBus 0 available s)
        (startLoop (bootMotor (Stream'.const false))) = .ok s ∧
      s.motor.wire = [(I2C_MUX_ADDRESS, Transfer.write [8]), (0x60, .write [0x07, 0x55]),
        (0x60, .write [0x07, 0x55])].foldl (serve motorBus)
          (bootMotor (Stream'.const false)).wire ∧
      s.motor.currentChannel = 3 := by
  have hops : lineOps ["stop 3 96\nst".toList, "op 9 96\n".toList].flatten =
      [.stop 3 0x60, .stop 9 0x60] := by decide
  have htransfers : commandTransfers (bootMotor (Stream'.const false)).currentChannel
      [.stop 3 0x60, .stop 9 0x60] = [(I2C_MUX_ADDRESS, .write [8]), (0x60, .write [0x07, 0x55]),
        (0x60, .write [0x07, 0x55])] := rfl
  obtain ⟨s, hrun⟩ : ∃ s, ["stop 3 96\nst".toList, "op 9 96\n".toList].foldlM
      (fun s available => loop motorBus 0 available s)
      (startLoop (bootMotor (Stream'.const false))) = .ok s := ⟨_, rfl⟩
  obtain ⟨hwire, hcached, -⟩ := loop_compiles_text hrun
  rw [hops, htransfers] at hwire
  rw [hops] at hcached
  exact ⟨s, hrun, hwire, hcached.trans (by decide)⟩

end QuadBot
