import QuadBot.SpiMux
import QuadBot.BmsCore
import Mathlib.Data.Stream.Init
import Mathlib.Algebra.Order.Ring.Rat
import Mathlib.Tactic.Linarith
import Mathlib.Tactic.NormNum

/-! The encoders of `SPI_NCDR_FCT.cpp`. A position is a raw position less the offset of its channel,
and over every run of calls the offset is the raw position that the last reset read. -/

namespace QuadBot

/-- An index at which `offsets` has no element. -/
structure OutOfOffsets where
  index : UInt8
  deriving DecidableEq

variable {σ : Type} (bus : SpiBus σ)

/-- The exchange that reads a raw position, which two of the functions make: the 12 bits between the
first and the last two of the bits received. -/
def readRawPosition (channel : UInt8) (s : Encoders σ) : UInt16 × Encoders σ :=
  let s := activateMux bus channel s
  let (high, s) := s.transfer bus 0x00
  let (low, s) := s.transfer bus 0x00
  let s := deactivateMux bus s
  let position := (high.toUInt16 <<< 8) ||| low.toUInt16
  ((position >>> 2) &&& 0x0FFF, s)

def relativePosition (position offset : UInt16) : UInt16 :=
  if position ≥ offset then position - offset else (4096 + position) - offset

def readEncoderPosition (channel : UInt8) (s : Encoders σ) :
    Except OutOfOffsets ℚ × Encoders σ :=
  let (position, s) := readRawPosition bus channel s
  if h : channel.toNat < 16 then
    let position := relativePosition position s.offsets[channel.toNat]
    let degrees : ℚ := (position.toNat * 360.0) / 4096.0
    (.ok degrees, s)
  else (.error ⟨channel⟩, s)

def readTurns (channel : UInt8) (s : Encoders σ) : Int16 × Encoders σ :=
  let s := activateMux bus channel s
  let (_, s) := s.transfer bus 0x00
  let (_, s) := s.transfer bus 0xA0
  let (highByte, s) := s.transfer bus 0x00
  let (lowByte, s) := s.transfer bus 0x00
  let s := deactivateMux bus s
  let rawTurns := (highByte.toUInt16 <<< 8) ||| lowByte.toUInt16
  (((rawTurns >>> 2) &&& 0x0FFF).toInt16, s)

/-- The first exchange of `resetEncoder`. -/
def rebootEncoder (channel : UInt8) (s : Encoders σ) : Encoders σ :=
  let s := activateMux bus channel s
  let (_, s) := s.transfer bus 0x00
  let (_, s) := s.transfer bus 0x60
  deactivateMux bus s

def setOffset (channel : UInt8) (offset : UInt16) (s : Encoders σ) :
    Except OutOfOffsets (Encoders σ) :=
  if h : channel.toNat < 16 then .ok { s with offsets := s.offsets.set channel.toNat offset }
  else .error ⟨channel⟩

def resetEncoder (channel : UInt8) (s : Encoders σ) : Except OutOfOffsets Unit × Encoders σ :=
  let s := rebootEncoder bus channel s
  match setOffset channel 0 s with
  | .error e => (.error e, s)
  | .ok s =>
    let (rawPosition, s) := readRawPosition bus channel s
    match setOffset channel rawPosition s with
    | .error e => (.error e, s)
    | .ok s => (.ok (), s)

/-! ### The calls as one type -/

inductive EncoderOp
  | position (channel : UInt8)
  | turns (channel : UInt8)
  | reset (channel : UInt8)
  deriving DecidableEq

namespace EncoderOp

def channel : EncoderOp → UInt8
  | position channel | turns channel | reset channel => channel

/-- The state after the call, or at the access that is out of bounds. -/
def exec : EncoderOp → Encoders σ → Encoders σ
  | position channel, s => (readEncoderPosition bus channel s).2
  | turns channel, s => (readTurns bus channel s).2
  | reset channel, s => (resetEncoder bus channel s).2

end EncoderOp

def runEncoders (ops : List EncoderOp) (s : Encoders σ) : Encoders σ :=
  ops.foldl (fun s op => op.exec bus s) s

/-! ### Exchanges -/

def transferAll (bytes : List UInt8) (s : Encoders σ) : Encoders σ :=
  bytes.foldl (fun s byte => (s.transfer bus byte).2) s

/-- What the functions do on the bus: they select a channel, send some bytes and turn all outputs
off. -/
def exchangeBytes (channel : UInt8) (bytes : List UInt8) (s : Encoders σ) : Encoders σ :=
  deactivateMux bus (transferAll bus bytes (activateMux bus channel s))

theorem readRawPosition_state (channel : UInt8) (s : Encoders σ) :
    (readRawPosition bus channel s).2 = exchangeBytes bus channel [0x00, 0x00] s := rfl

theorem readTurns_state (channel : UInt8) (s : Encoders σ) :
    (readTurns bus channel s).2 = exchangeBytes bus channel [0x00, 0xA0, 0x00, 0x00] s := rfl

theorem rebootEncoder_state (channel : UInt8) (s : Encoders σ) :
    rebootEncoder bus channel s = exchangeBytes bus channel [0x00, 0x60] s := rfl

theorem transferAll_offsets (bytes : List UInt8) (s : Encoders σ) :
    (transferAll bus bytes s).offsets = s.offsets := by
  induction bytes generalizing s with
  | nil => rfl
  | cons byte bytes ih => exact ih (s.transfer bus byte).2

theorem exchangeBytes_offsets (channel : UInt8) (bytes : List UInt8) (s : Encoders σ) :
    (exchangeBytes bus channel bytes s).offsets = s.offsets :=
  (transferAll_offsets bus bytes _).trans (activateMux_offsets bus channel s)

/-! ### Positions -/

/-- A position in the 12 bits of the encoder. -/
theorem masked_lt (word : UInt16) : (word &&& 0x0FFF).toNat < 4096 := by
  rw [UInt16.toNat_and]
  exact (Nat.and_two_pow_sub_one_eq_mod word.toNat 12).trans_lt (Nat.mod_lt _ (by decide))

/-- The two bytes that the bus returns when a position is read. -/
def positionBytes (channel : UInt8) (s : Encoders σ) : UInt8 × UInt8 :=
  let (high, s) := (activateMux bus channel s).transfer bus 0x00
  (high, (s.transfer bus 0x00).1)

/-- The raw position is what is left of the two bytes without their last two bits, modulo 4096. -/
theorem readRawPosition_toNat (channel : UInt8) (s : Encoders σ) :
    (readRawPosition bus channel s).1.toNat =
      (256 * (positionBytes bus channel s).1.toNat + (positionBytes bus channel s).2.toNat) / 4 %
        4096 := by
  have hmask : ∀ word : UInt16, ((word >>> 2) &&& 0x0FFF).toNat = word.toNat / 4 % 4096 := by
    intro word
    rw [UInt16.toNat_and, UInt16.toNat_shiftRight, show UInt16.toNat 2 % 16 = 2 from rfl,
      Nat.shiftRight_eq_div_pow]
    exact Nat.and_two_pow_sub_one_eq_mod _ 12
  rw [← wordOf_toNat, ← hmask]
  rfl

theorem readRawPosition_lt (channel : UInt8) (s : Encoders σ) :
    (readRawPosition bus channel s).1.toNat < 4096 :=
  masked_lt _

/-- No step of the difference leaves the 16 bits. -/
theorem relativePosition_exact {position offset : UInt16} (hp : position.toNat < 4096)
    (ho : offset.toNat < 4096) :
    (offset ≤ position → (position - offset).toNat = position.toNat - offset.toNat) ∧
      (¬ offset ≤ position → (4096 + position).toNat = 4096 + position.toNat ∧
        ((4096 + position) - offset).toNat = 4096 + position.toNat - offset.toNat) := by
  constructor
  · intro hle
    exact UInt16.toNat_sub_of_le position offset hle
  · intro hlt
    have hsum : (4096 + position).toNat = 4096 + position.toNat := by
      rw [UInt16.toNat_add]
      show (4096 + position.toNat) % 2 ^ 16 = _
      omega
    refine ⟨hsum, ?_⟩
    rw [UInt16.toNat_sub_of_le _ _ (UInt16.le_iff_toNat_le.mpr (by omega)), hsum]

theorem relativePosition_eq {position offset : UInt16} (hp : position.toNat < 4096)
    (ho : offset.toNat < 4096) :
    ((relativePosition position offset).toNat : Int) =
      ((position.toNat : Int) - offset.toNat) % 4096 := by
  obtain ⟨hge, hlt⟩ := relativePosition_exact hp ho
  unfold relativePosition
  by_cases hle : offset ≤ position
  · have hnat := UInt16.le_iff_toNat_le.mp hle
    rw [if_pos hle, hge hle]
    omega
  · have hnat := mt UInt16.le_iff_toNat_le.mpr hle
    rw [if_neg hle, (hlt hle).2]
    omega

/-! ### Offsets -/

/-- The raw position that `resetEncoder` reads after the reboot. -/
def resetRaw (channel : UInt8) (s : Encoders σ) : UInt16 :=
  (readRawPosition bus channel (rebootEncoder bus channel s)).1

theorem readRawPosition_offsets (channel : UInt8) (s : Encoders σ) :
    (readRawPosition bus channel s).2.offsets = s.offsets := by
  rw [readRawPosition_state, exchangeBytes_offsets]

theorem rebootEncoder_offsets (channel : UInt8) (s : Encoders σ) :
    (rebootEncoder bus channel s).offsets = s.offsets := by
  rw [rebootEncoder_state, exchangeBytes_offsets]

theorem readTurns_offsets (channel : UInt8) (s : Encoders σ) :
    (readTurns bus channel s).2.offsets = s.offsets := by
  rw [readTurns_state, exchangeBytes_offsets]

/-- What is read depends on the bus alone. -/
theorem readRawPosition_congr {channel : UInt8} (h : channel.toNat < 16) {s t : Encoders σ}
    (hspi : s.spi = t.spi) :
    (readRawPosition bus channel s).1 = (readRawPosition bus channel t).1 := by
  obtain ⟨muxChannel, offsets, spi, errors⟩ := s
  obtain ⟨muxChannel', offsets', spi', errors'⟩ := t
  obtain rfl : spi = spi' := hspi
  unfold readRawPosition activateMux spiCsMux
  rw [if_neg (not_rejected h), if_neg (not_rejected h)]
  rfl

theorem readEncoderPosition_eq {channel : UInt8} (h : channel.toNat < 16) (s : Encoders σ) :
    (readEncoderPosition bus channel s).1 =
        .ok ((relativePosition (readRawPosition bus channel s).1 s.offsets[channel.toNat]).toNat *
          360.0 / 4096.0) ∧
      (readEncoderPosition bus channel s).2 = (readRawPosition bus channel s).2 := by
  have hoffsets := readRawPosition_offsets bus channel s
  unfold readEncoderPosition
  simp only [h, dite_true, hoffsets]
  exact ⟨trivial, trivial⟩

/-- The state between the two exchanges of a reset. -/
def clearedOffset {channel : UInt8} (h : channel.toNat < 16) (s : Encoders σ) : Encoders σ :=
  { rebootEncoder bus channel s with
    offsets := (rebootEncoder bus channel s).offsets.set channel.toNat 0 }

/-- The second exchange reads the raw position that becomes the offset. -/
theorem resetEncoder_accepted {channel : UInt8} (h : channel.toNat < 16) (s : Encoders σ) :
    resetEncoder bus channel s =
      let (rawPosition, t) := readRawPosition bus channel (clearedOffset bus h s)
      (.ok (), { t with offsets := t.offsets.set channel.toNat rawPosition }) := by
  unfold resetEncoder setOffset
  simp only [h, dite_true]
  rfl

theorem resetEncoder_eq {channel : UInt8} (h : channel.toNat < 16) (s : Encoders σ) :
    (resetEncoder bus channel s).1 = .ok () ∧ (resetEncoder bus channel s).2.offsets =
      s.offsets.set channel.toNat (resetRaw bus channel s) := by
  have hraw : (readRawPosition bus channel (clearedOffset bus h s)).1 = resetRaw bus channel s :=
    readRawPosition_congr bus h rfl
  have hcleared : (clearedOffset bus h s).offsets = s.offsets.set channel.toNat 0 := by
    simp only [clearedOffset, rebootEncoder_offsets]
  rw [resetEncoder_accepted bus h]
  refine ⟨rfl, ?_⟩
  simp only [hraw, readRawPosition_offsets, hcleared, Vector.set_set]

/-- A rejected channel number is out of bounds where the offset is looked up. -/
theorem readEncoderPosition_rejected {channel : UInt8} (h : ¬ channel.toNat < 16)
    (s : Encoders σ) : readEncoderPosition bus channel s =
      (.error ⟨channel⟩, (readRawPosition bus channel s).2) := by
  unfold readEncoderPosition
  simp only [h, dite_false]

theorem resetEncoder_rejected {channel : UInt8} (h : ¬ channel.toNat < 16) (s : Encoders σ) :
    resetEncoder bus channel s = (.error ⟨channel⟩, rebootEncoder bus channel s) := by
  unfold resetEncoder setOffset
  simp only [h, dite_false]

/-- A call leaves the offsets of the other channels alone, and stores in its own what a reset has
read. -/
theorem exec_offset (op : EncoderOp) (hop : op.channel.toNat < 16) (s : Encoders σ) {c : Nat}
    (hc : c < 16) : (op.exec bus s).offsets[c] =
      if op = .reset op.channel ∧ op.channel.toNat = c then resetRaw bus op.channel s
      else s.offsets[c] := by
  cases op with
  | position channel =>
    have hoffsets : ((EncoderOp.position channel).exec bus s).offsets = s.offsets :=
      (congrArg Encoders.offsets (readEncoderPosition_eq bus hop s).2).trans
        (readRawPosition_offsets bus channel s)
    simp [hoffsets]
  | turns channel =>
    have hoffsets : ((EncoderOp.turns channel).exec bus s).offsets = s.offsets :=
      readTurns_offsets bus channel s
    simp [hoffsets]
  | reset channel =>
    have hoffsets : ((EncoderOp.reset channel).exec bus s).offsets =
        s.offsets.set channel.toNat (resetRaw bus channel s) := (resetEncoder_eq bus hop s).2
    simp only [hoffsets, EncoderOp.channel, true_and]
    exact Vector.getElem_set hop hc

/-! ### Runs -/

/-- The resets of a run, with the raw positions that they read. -/
def resets : List EncoderOp → Encoders σ → List (UInt8 × UInt16)
  | [], _ => []
  | op :: ops, s =>
    (if op = .reset op.channel then [(op.channel, resetRaw bus op.channel s)] else []) ++
      resets ops (op.exec bus s)

/-- What the last reset of a channel has read, 0 where there was none. -/
def lastReset (channel : UInt8) (resets : List (UInt8 × UInt16)) : UInt16 :=
  ((resets.filter (·.1 = channel)).getLast?.map Prod.snd).getD 0

theorem resets_lt (ops : List EncoderOp) (s : Encoders σ) :
    ∀ reset ∈ resets bus ops s, reset.2.toNat < 4096 := by
  induction ops generalizing s with
  | nil => simp [resets]
  | cons op ops ih =>
    intro reset hmem
    rcases List.mem_append.mp hmem with hmem | hmem
    · split at hmem
      · rw [List.mem_singleton.mp hmem]
        exact readRawPosition_lt bus op.channel _
      · cases hmem
    · exact ih _ reset hmem

theorem offset_run (ops : List EncoderOp) (hops : ∀ op ∈ ops, op.channel.toNat < 16)
    (s : Encoders σ) {channel : UInt8} (h : channel.toNat < 16) :
    (runEncoders bus ops s).offsets[channel.toNat] =
      (((resets bus ops s).filter (·.1 = channel)).getLast?.map Prod.snd).getD
        s.offsets[channel.toNat] := by
  induction ops generalizing s with
  | nil => rfl
  | cons op ops ih =>
    have hop := hops op List.mem_cons_self
    have hstep := exec_offset bus op hop s h
    have hrun := ih (fun o ho => hops o (List.mem_cons_of_mem op ho)) (op.exec bus s)
    rw [hstep] at hrun
    show (runEncoders bus ops (op.exec bus s)).offsets[channel.toNat] = _
    rw [hrun, resets, List.filter_append, List.getLast?_append]
    cases ((resets bus ops (op.exec bus s)).filter (·.1 = channel)).getLast? with
    | some reset => rfl
    | none =>
      by_cases hreset : op = .reset op.channel
      · by_cases hsame : op.channel = channel
        · rw [if_pos ⟨hreset, by rw [hsame]⟩, if_pos hreset, List.filter_singleton]
          simp [hsame]
        · have hne : op.channel.toNat ≠ channel.toNat := mt UInt8.toNat_inj.mp hsame
          rw [if_neg (fun hc => hne hc.2), if_pos hreset, List.filter_singleton]
          simp [hsame]
      · rw [if_neg (fun hc => hreset hc.1), if_neg hreset]
        rfl

/-- The offset of a channel is what its last reset has read. -/
theorem offset_boot (spi : σ) (ops : List EncoderOp) (hops : ∀ op ∈ ops, op.channel.toNat < 16)
    {channel : UInt8} (h : channel.toNat < 16) :
    (runEncoders bus ops (bootEncoders spi)).offsets[channel.toNat] =
      lastReset channel (resets bus ops (bootEncoders spi)) := by
  rw [offset_run bus ops hops (bootEncoders spi) h, lastReset]
  simp [bootEncoders]

theorem lastReset_lt (ops : List EncoderOp) (s : Encoders σ) (channel : UInt8) :
    (lastReset channel (resets bus ops s)).toNat < 4096 := by
  unfold lastReset
  cases hlast : ((resets bus ops s).filter (·.1 = channel)).getLast? with
  | none => decide
  | some reset =>
    have hmem := List.mem_of_mem_filter (List.mem_of_getLast? hlast)
    exact resets_lt bus ops s reset hmem

theorem degrees_eq {position offset : UInt16} (hp : position.toNat < 4096)
    (ho : offset.toNat < 4096) :
    ((relativePosition position offset).toNat * 360.0 / 4096.0 : ℚ) =
      (((position.toNat : Int) - offset.toNat) % 4096 : Int) * 360 / 4096 := by
  rw [← relativePosition_eq hp ho]
  norm_num

theorem degrees_mem (n : Int) : (0 : ℚ) ≤ (n % 4096 : Int) * 360 / 4096 ∧
    ((n % 4096 : Int) * 360 / 4096 : ℚ) < 360 := by
  have hnonneg : (0 : ℚ) ≤ (n % 4096 : Int) := Int.cast_nonneg (by omega)
  have hlt : ((n % 4096 : Int) : ℚ) < 4096 := by
    have hmod : n % 4096 < 4096 := by omega
    exact_mod_cast hmod
  constructor
  · linarith
  · linarith

/-- A call on another channel changes nothing of what a position reads as. -/
theorem position_frame {op : EncoderOp} (hop : op.channel.toNat < 16) {channel : UInt8}
    (h : channel.toNat < 16) (hne : op.channel ≠ channel) (s : Encoders σ) (spi' : σ) :
    (readEncoderPosition bus channel { op.exec bus s with spi := spi' }).1 =
      (readEncoderPosition bus channel { s with spi := spi' }).1 := by
  have hoffset := exec_offset bus op hop s h
  rw [if_neg (fun hc => hne (UInt8.toNat_inj.mp hc.2))] at hoffset
  have hraw : (readRawPosition bus channel { op.exec bus s with spi := spi' }).1 =
      (readRawPosition bus channel { s with spi := spi' }).1 := readRawPosition_congr bus h rfl
  rw [(readEncoderPosition_eq bus h _).1, (readEncoderPosition_eq bus h _).1, hraw]
  simp only [hoffset]

/-- Over every run of calls from power-on and whatever the bus returns: the offsets are below 4096,
and reading a position gives the raw position of the two bytes received less what the last reset of
its channel has read, in the turn's 4096 counts, without a wrap of the 16 bits. No other channel's
call changes it. -/
theorem encoder_positions (spi : σ) (ops : List EncoderOp)
    (hops : ∀ op ∈ ops, op.channel.toNat < 16) {s : Encoders σ}
    (hs : s = runEncoders bus ops (bootEncoders spi)) :
    (∀ (c : Nat) (hc : c < 16), s.offsets[c].toNat < 4096) ∧
    ∀ channel : UInt8, channel.toNat < 16 → ∀ r o : UInt16,
      r = (readRawPosition bus channel s).1 →
      o = lastReset channel (resets bus ops (bootEncoders spi)) →
      r.toNat = (256 * (positionBytes bus channel s).1.toNat +
        (positionBytes bus channel s).2.toNat) / 4 % 4096 ∧
      (∃ degrees : ℚ, (readEncoderPosition bus channel s).1 = .ok degrees ∧
        degrees = (((r.toNat : Int) - o.toNat) % 4096 : Int) * 360 / 4096 ∧
        0 ≤ degrees ∧ degrees < 360) ∧
      (o ≤ r → (r - o).toNat = r.toNat - o.toNat) ∧
      (¬ o ≤ r → (4096 + r).toNat = 4096 + r.toNat ∧
        ((4096 + r) - o).toNat = 4096 + r.toNat - o.toNat) ∧
      ∀ op : EncoderOp, op.channel.toNat < 16 → op.channel ≠ channel → ∀ spi' : σ,
        (readEncoderPosition bus channel { op.exec bus s with spi := spi' }).1 =
          (readEncoderPosition bus channel { s with spi := spi' }).1 := by
  subst hs
  constructor
  · intro c hc
    have hchannel : (UInt8.ofNat c).toNat = c := by
      rw [UInt8.toNat_ofNat']
      omega
    have hvalid : (UInt8.ofNat c).toNat < 16 := by omega
    have hoffset := offset_boot bus spi ops hops hvalid
    simp only [hchannel] at hoffset
    rw [hoffset]
    exact lastReset_lt bus ops _ _
  · rintro channel h r o hr ho
    have hr_lt : r.toNat < 4096 := by
      rw [hr]
      exact readRawPosition_lt bus channel _
    have ho_lt : o.toNat < 4096 := by
      rw [ho]
      exact lastReset_lt bus ops _ channel
    obtain ⟨hge, hlt⟩ := relativePosition_exact hr_lt ho_lt
    refine ⟨hr ▸ readRawPosition_toNat bus channel _, ⟨_, ?_, rfl, degrees_mem _⟩, hge, hlt, ?_⟩
    · rw [(readEncoderPosition_eq bus h _).1, offset_boot bus spi ops hops h, ← hr, ← ho,
        degrees_eq hr_lt ho_lt]
    · intro op hop hne spi'
      exact position_frame bus hop h hne _ spi'

/-- Pins that do nothing, and a bus that returns the bytes of a stream. -/
def bytesBus : SpiBus (Stream' UInt8) where
  digitalWrite bytes _ _ := bytes
  transfer bytes _ := (bytes.head, bytes.tail)

theorem encoder_positions_after_reset : ∃ degrees : ℚ,
    (readEncoderPosition bytesBus 3
      (runEncoders bytesBus [.reset 3, .turns 5, .reset 9]
        (bootEncoders (Stream'.const 0xA7)))).1 = .ok degrees ∧ 0 ≤ degrees ∧ degrees < 360 := by
  have hops : ∀ op ∈ [EncoderOp.reset 3, .turns 5, .reset 9], op.channel.toNat < 16 := by decide
  obtain ⟨-, hreads⟩ := encoder_positions bytesBus (Stream'.const 0xA7) _ hops rfl
  obtain ⟨-, ⟨degrees, hok, -, hrange⟩, -⟩ := hreads 3 (by decide) _ _ rfl rfl
  exact ⟨degrees, hok, hrange⟩

end QuadBot
