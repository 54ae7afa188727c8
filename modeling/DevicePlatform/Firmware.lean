/-
# The MCU firmware: registers, sample FIFO and frame handling

Model of `v1-spi-slave-handshake/v1.3` (`Core/Src/main.c`): the register file,
the 32-entry sample FIFO with its peek/pop latch, the DATA_READY pin, and the
handler that runs once per received 5-byte SPI frame.

The SPI2 interrupt has priority 1 and TIM2 priority 3, so a frame handler is
never interrupted by the timer callback or by the main loop: `handleFrame` and
`errorCallback` are functions on the whole state.  The timer callback, which a
frame handler may interrupt between any two of its loads and stores, is in
`TimerCallback.lean`.

Registers and bytes are bit vectors of their C width.  The FIFO indices
(`uint16_t`) are naturals; the code keeps them below `fifoDepth` with an
explicit `%`.
-/
import Mathlib.Data.List.Basic
import Mathlib.Logic.Function.Basic
import Mathlib.Tactic.SplitIfs
import Mathlib.Tactic.Push

/-! ## Protocol constants and the register map -/

/-- `FIFO_DEPTH`. -/
def fifoDepth : ℕ := 32

/-- `DEVICE_ID`. -/
def deviceId : BitVec 32 := 0xAC00ACC0#32

/-- `FW_VERSION` (v1.4: v1.3 and device authentication). -/
def fwVersion : BitVec 32 := 0x00010400#32

/-- `CMD_WRITE_FLAG`, set in the command byte of a write. -/
def cmdWriteFlag : BitVec 8 := 0x80#8

/-- `CMD_ADDR_MASK`, the address bits of a command byte. -/
def cmdAddrMask : BitVec 8 := 0x7F#8

/-- `REG_NOP`: the command of the frame that only collects a reply. -/
def cmdNop : BitVec 8 := 0x7F#8

/-- `ST_RUNNING`, and below the other bits of the status register. -/
def stRunning : BitVec 32 := 1#32 <<< 0
/-- `ST_CMD_ERR`. -/
def stCmdErr : BitVec 32 := 1#32 <<< 1
/-- `ST_RANGE_ERR`. -/
def stRangeErr : BitVec 32 := 1#32 <<< 2
/-- `ST_SPI_RESYNC`. -/
def stSpiResync : BitVec 32 := 1#32 <<< 3
/-- `ST_AUTH_BUSY`. -/
def stAuthBusy : BitVec 32 := 1#32 <<< 4
/-- `ST_AUTH_DONE`. -/
def stAuthDone : BitVec 32 := 1#32 <<< 5
/-- `ST_AUTH_NOKEY`. -/
def stAuthNokey : BitVec 32 := 1#32 <<< 6

/-- The registers the two `switch` statements of the firmware tell apart. -/
inductive Reg where
  | deviceId
  | fwVersion
  | status
  | control
  | sampleRate
  | fifoLevel
  | dataSeq
  | dataVal
  | overflowCount
  | spiRearmFail
  | spiErrorCount
  | authNonce (i : Fin 4)
  | authCtrl
  | authMac (i : Fin 4)
  | authCycles
  | nop
  /-- An address that no `case` names. -/
  | undefined
  deriving DecidableEq, Repr

/-- The register behind a 7-bit address (the `REG_*` constants). -/
def Reg.ofAddr (addr : BitVec 8) : Reg :=
  match addr.toNat with
  | 0x00 => .deviceId
  | 0x01 => .fwVersion
  | 0x02 => .status
  | 0x03 => .control
  | 0x04 => .sampleRate
  | 0x05 => .fifoLevel
  | 0x06 => .dataSeq
  | 0x07 => .dataVal
  | 0x08 => .overflowCount
  | 0x09 => .spiRearmFail
  | 0x0A => .spiErrorCount
  | 0x10 => .authNonce 0
  | 0x11 => .authNonce 1
  | 0x12 => .authNonce 2
  | 0x13 => .authNonce 3
  | 0x14 => .authCtrl
  | 0x15 => .authMac 0
  | 0x16 => .authMac 1
  | 0x17 => .authMac 2
  | 0x18 => .authMac 3
  | 0x19 => .authCycles
  | 0x7F => .nop
  | _ => .undefined

/-! ## Frames -/

/-- One 5-byte SPI frame: a command (or echo) byte and a big-endian word. -/
structure Frame where
  cmd : BitVec 8
  b0 : BitVec 8
  b1 : BitVec 8
  b2 : BitVec 8
  b3 : BitVec 8
  deriving DecidableEq, Repr

/-- `pack_u32` behind a command byte. -/
def Frame.pack (cmd : BitVec 8) (v : BitVec 32) : Frame where
  cmd := cmd
  b0 := (v >>> 24).setWidth 8
  b1 := (v >>> 16).setWidth 8
  b2 := (v >>> 8).setWidth 8
  b3 := v.setWidth 8

/-- `unpack_u32` of the four data bytes. -/
def Frame.word (f : Frame) : BitVec 32 :=
  (f.b0.setWidth 32 <<< 24) ||| (f.b1.setWidth 32 <<< 16) |||
    (f.b2.setWidth 32 <<< 8) ||| f.b3.setWidth 32

@[simp] theorem Frame.pack_cmd (cmd : BitVec 8) (v : BitVec 32) :
    (Frame.pack cmd v).cmd = cmd := rfl

/-- `unpack_u32` undoes `pack_u32`. -/
@[simp] theorem Frame.word_pack (cmd : BitVec 8) (v : BitVec 32) :
    (Frame.pack cmd v).word = v := by
  apply BitVec.eq_of_getLsbD_eq
  intro i hi
  simp only [Frame.word, Frame.pack, BitVec.getLsbD_or, BitVec.getLsbD_shiftLeft,
    BitVec.getLsbD_setWidth, BitVec.getLsbD_ushiftRight]
  -- each bit comes from exactly one of the four bytes
  rcases (by omega : i < 8 ∨ (8 ≤ i ∧ i < 16) ∨ (16 ≤ i ∧ i < 24) ∨ 24 ≤ i) with
    h | ⟨h, h'⟩ | ⟨h, h'⟩ | h
  · have h1 : i < 16 := by omega
    have h2 : i < 24 := by omega
    simp [h, h1, h2, hi]
  · have h1 : ¬ i < 8 := by omega
    have h2 : i < 24 := by omega
    have h3 : i - 8 < 8 := by omega
    have h4 : 8 + (i - 8) = i := by omega
    have h5 : i - 8 < 32 := by omega
    simp [h1, h2, h3, h4, h5, h', hi]
  · have h1 : ¬ i < 8 := by omega
    have h2 : ¬ i < 16 := by omega
    have h3 : i - 16 < 8 := by omega
    have h4 : 16 + (i - 16) = i := by omega
    have h5 : ¬ i - 8 < 8 := by omega
    have h6 : i - 16 < 32 := by omega
    simp [h1, h2, h3, h4, h5, h6, h', hi]
  · have h1 : ¬ i < 8 := by omega
    have h2 : ¬ i < 16 := by omega
    have h3 : ¬ i < 24 := by omega
    have h4 : i - 24 < 8 := by omega
    have h5 : 24 + (i - 24) = i := by omega
    have h6 : ¬ i - 8 < 8 := by omega
    have h7 : ¬ i - 16 < 8 := by omega
    have h8 : i - 24 < 32 := by omega
    simp [h1, h2, h3, h4, h5, h6, h7, h8, hi]

/-- The register a frame addresses: `cmd & CMD_ADDR_MASK`. -/
def Frame.reg (f : Frame) : Reg := Reg.ofAddr (f.cmd &&& cmdAddrMask)

/-- The frame writes: `cmd & CMD_WRITE_FLAG`. -/
def Frame.isWrite (f : Frame) : Bool := f.cmd &&& cmdWriteFlag != 0

/-- A write to `REG_CONTROL`. -/
def Frame.isControl (f : Frame) : Bool := f.isWrite && f.reg == .control

/-- A START: a control write with bit 0 set. -/
def Frame.isStart (f : Frame) : Bool := f.isControl && f.word &&& 0x01#32 != 0

/-- A read of `REG_DATA_VAL`, which pops an item. -/
def Frame.isPop (f : Frame) : Bool := !f.isWrite && f.reg == .dataVal

/-- A read of `REG_DATA_SEQ`, which latches the oldest item. -/
def Frame.isPeek (f : Frame) : Bool := !f.isWrite && f.reg == .dataSeq

/-- A read is not a START. -/
theorem Frame.not_isStart_of_isPop {f : Frame} (h : f.isPop) : ¬ f.isStart := by
  simp only [Frame.isPop, Bool.and_eq_true, Bool.not_eq_true'] at h
  simp [Frame.isStart, Frame.isControl, h.1]

/-- A read is no control write. -/
theorem Frame.not_isControl_of_isPop {f : Frame} (h : f.isPop) : ¬f.isControl := by
  simp only [Frame.isPop, Bool.and_eq_true, Bool.not_eq_true'] at h
  simp [Frame.isControl, h.1]

/-- A SEQ read is neither a START nor a pop. -/
theorem Frame.not_isStart_of_isPeek {f : Frame} (h : f.isPeek) : f.isStart = false := by
  simp only [Frame.isPeek, Bool.and_eq_true, Bool.not_eq_true'] at h
  simp [Frame.isStart, Frame.isControl, h.1]

theorem Frame.not_isPop_of_isPeek {f : Frame} (h : f.isPeek) : f.isPop = false := by
  simp only [Frame.isPeek, Bool.and_eq_true, beq_iff_eq] at h
  simp [Frame.isPop, h.2]

/-! ## The sample FIFO -/

/-- `FifoItem`. -/
structure FifoItem where
  sequence : BitVec 32
  value : BitVec 32
  deriving DecidableEq, Repr, Inhabited

/-- The FIFO's static variables and the peek/pop intermediate state. -/
structure Fifo where
  /-- `fifo_buf`. -/
  buf : ℕ → FifoItem
  /-- `fifo_head`, the next write slot. -/
  head : ℕ
  /-- `fifo_tail`, the next read slot. -/
  tail : ℕ
  /-- `fifo_overflow`, the cumulative drop count. -/
  overflow : BitVec 32
  seqCounter : BitVec 32
  lastSeq : BitVec 32
  lastVal : BitVec 32
  itemPeeked : Bool

namespace Fifo

/-- The FIFO at power-on. -/
def init : Fifo where
  buf := fun _ => default
  head := 0
  tail := 0
  overflow := 0
  seqCounter := 0
  lastSeq := 0
  lastVal := 0
  itemPeeked := false

/-- The condition `fifo_head != fifo_tail` the firmware tests for "not empty". -/
def nonempty (q : Fifo) : Bool := decide (q.head ≠ q.tail)

/-- `fifo_level`. -/
def level (q : Fifo) : ℕ :=
  if q.head ≥ q.tail then q.head - q.tail else fifoDepth - q.tail + q.head

/-- `fifo_peek(&last_seq, &last_val)`: whether there is an item, and the FIFO with
its words in the latch. -/
def peek (q : Fifo) : Bool × Fifo :=
  if q.head = q.tail then (false, q)
  else (true, { q with lastSeq := (q.buf q.tail).sequence, lastVal := (q.buf q.tail).value })

/-- `fifo_pop`. -/
def pop (q : Fifo) : Fifo :=
  if q.head = q.tail then q else { q with tail := (q.tail + 1) % fifoDepth }

/-- The FIFO part of a START: the soft reset. -/
def reset (q : Fifo) : Fifo :=
  { q with seqCounter := 0, head := 0, tail := 0, overflow := 0, itemPeeked := false }

end Fifo

/-! ## State -/

/-- The firmware's static variables, its two pins and the sample timer. -/
structure Mcu where
  regStatus : BitVec 32
  regControl : BitVec 32
  regSampleRate : BitVec 32
  authNonce : Fin 4 → BitVec 32
  authMac : Fin 4 → BitVec 32
  authCycles : BitVec 32
  authRequest : Bool
  fifo : Fifo
  spiRearmFail : BitVec 32
  spiErrorCount : BitVec 32
  txBuf : Frame
  rxBuf : Frame
  /-- GPIO PA8. -/
  dataReady : Bool
  /-- GPIO PA9, toggled once per sample. -/
  sampleMark : Bool
  /-- TIM2's auto-reload register. -/
  timAutoreload : ℕ
  /-- TIM2's counter. -/
  timCounter : ℕ
  /-- Whether TIM2 and its interrupt are started. -/
  timRunning : Bool

namespace Mcu

/-- The state `main` has set up when it arms the first SPI transfer. -/
def powerOn : Mcu where
  regStatus := 0
  regControl := 0
  regSampleRate := 1000
  authNonce := fun _ => 0
  authMac := fun _ => 0
  authCycles := 0
  authRequest := false
  fifo := Fifo.init
  spiRearmFail := 0
  spiErrorCount := 0
  txBuf := Frame.pack cmdNop 0
  rxBuf := Frame.pack 0 0
  dataReady := false
  sampleMark := false
  timAutoreload := 0
  timCounter := 0
  timRunning := false

/-- `update_data_ready_gpio`, run without interruption. -/
def updateDataReadyGpio (m : Mcu) : Mcu := { m with dataReady := m.fifo.nonempty }

/-- `update_timer_rate`. -/
def updateTimerRate (rateHz : BitVec 32) (m : Mcu) : Mcu :=
  let period := 10000 / rateHz.toNat
  let period := if period < 1 then 1 else period
  { m with timAutoreload := period - 1, timCounter := 0 }

/-! ## Register access -/

/-- `reg_read`: the value and the state after the read's side effects. -/
def regRead (r : Reg) (m : Mcu) : BitVec 32 × Mcu :=
  match r with
  | .deviceId => (deviceId, m)
  | .fwVersion => (fwVersion, m)
  | .status => (m.regStatus, m)
  | .control => (m.regControl, m)
  | .sampleRate => (m.regSampleRate, m)
  | .nop => (0, m)
  | .fifoLevel => (BitVec.ofNat 32 m.fifo.level, m)
  | .dataSeq =>
      let (found, q) := m.fifo.peek
      if found then (q.lastSeq, { m with fifo := { q with itemPeeked := true } })
      else (0, m)
  | .dataVal =>
      if m.fifo.itemPeeked then
        let q := { m.fifo with itemPeeked := false }.pop
        (q.lastVal, { m with fifo := q }.updateDataReadyGpio)
      else
        let (found, q) := m.fifo.peek
        if found then (q.lastVal, { m with fifo := q.pop }.updateDataReadyGpio)
        else (0, m)
  | .overflowCount => (m.fifo.overflow, m)
  | .spiRearmFail => (m.spiRearmFail, m)
  | .authNonce i => (m.authNonce i, m)
  | .authMac i => (m.authMac i, m)
  | .authCycles => (m.authCycles, m)
  | .spiErrorCount => (m.spiErrorCount, m)
  | .authCtrl => (0, { m with regStatus := m.regStatus ||| stCmdErr })
  | .undefined => (0, { m with regStatus := m.regStatus ||| stCmdErr })

/-- The START branch of a `REG_CONTROL` write: a soft reset of the FIFO and the
sequence counter, then the timer. -/
def start (m : Mcu) : Mcu :=
  let m := { m with regStatus := m.regStatus ||| stRunning, fifo := m.fifo.reset }
  { m.updateDataReadyGpio.updateTimerRate m.regSampleRate with timRunning := true }

/-- The STOP branch of a `REG_CONTROL` write. -/
def stop (m : Mcu) : Mcu :=
  { m with
    regStatus := m.regStatus &&& ~~~stRunning
    timRunning := false }.updateDataReadyGpio

/-- The `CLEAR_FLAGS` bit of a `REG_CONTROL` write. -/
def clearFlags (val : BitVec 32) (m : Mcu) : Mcu :=
  if val &&& 0x02#32 ≠ 0 then
    { m with regStatus := m.regStatus &&& ~~~(stCmdErr ||| stRangeErr ||| stSpiResync) }
  else m

/-- `reg_write`. -/
def regWrite (r : Reg) (val : BitVec 32) (m : Mcu) : Mcu :=
  match r with
  | .authNonce i => { m with authNonce := Function.update m.authNonce i val }
  | .authCtrl =>
      if val &&& 0x01#32 ≠ 0 then
        { m with
          regStatus := m.regStatus &&& ~~~(stAuthDone ||| stAuthNokey) ||| stAuthBusy
          authRequest := true }
      else m
  | .control =>
      let m := { m.clearFlags val with regControl := val &&& 0x01#32 }
      if m.regControl &&& 0x01#32 ≠ 0 then m.start else m.stop
  | .sampleRate =>
      if 1#32 ≤ val ∧ val ≤ 10000#32 then
        let m := { m with regSampleRate := val }
        if m.regControl &&& 0x01#32 ≠ 0 then m.updateTimerRate val else m
      else
        { m with regStatus := m.regStatus ||| stRangeErr }
  | _ => { m with regStatus := m.regStatus ||| stCmdErr }

/-! ## Frame handling -/

/-- The branch of `handle_frame` that reads or writes the addressed register: the
reply word and the new state. -/
def respond (f : Frame) (m : Mcu) : BitVec 32 × Mcu :=
  if f.isWrite then (0, m.regWrite f.reg f.word) else m.regRead f.reg

/-- `handle_frame` on the frame `f` that the hardware has put into `rx_buf`: the
echo and the reply word go to `tx_buf`, for the next frame to collect. -/
def handleFrame (f : Frame) (m : Mcu) : Mcu :=
  { (m.respond f).2 with rxBuf := f, txBuf := Frame.pack f.cmd (m.respond f).1 }

/-- `HAL_SPI_ErrorCallback`: count, resynchronise, re-arm with `tx_buf` as it is. -/
def errorCallback (m : Mcu) : Mcu :=
  { m with
    spiErrorCount := m.spiErrorCount + 1
    regStatus := m.regStatus ||| stSpiResync }

end Mcu

/-! ## What a frame does to the FIFO and to the pin

Every result about preemption uses the three equations below and never unfolds
`handleFrame` again. -/

/-- The FIFO after a read of `REG_DATA_SEQ`. -/
def Fifo.afterSeq (q : Fifo) : Fifo :=
  if q.nonempty then { q.peek.2 with itemPeeked := true } else q

/-- The FIFO after a read of `REG_DATA_VAL`. -/
def Fifo.afterVal (q : Fifo) : Fifo :=
  if q.itemPeeked then { q with itemPeeked := false }.pop else q.peek.2.pop

/-- The FIFO after the frame `f`. -/
def Fifo.afterFrame (f : Frame) (q : Fifo) : Fifo :=
  if f.isStart then q.reset
  else if f.isPop then q.afterVal
  else if f.isPeek then q.afterSeq
  else q

namespace Fifo

/-- Both indices are slots of `fifo_buf`. -/
def InRange (q : Fifo) : Prop := q.head < fifoDepth ∧ q.tail < fifoDepth

theorem afterVal_head (q : Fifo) : q.afterVal.head = q.head := by
  unfold afterVal pop peek; split_ifs <;> rfl

/-- A read of `REG_DATA_VAL` takes the oldest item, if there is one. -/
theorem afterVal_tail (q : Fifo) :
    q.afterVal.tail = if q.head = q.tail then q.tail else (q.tail + 1) % fifoDepth := by
  unfold afterVal pop peek; split_ifs <;> simp_all

theorem afterVal_buf (q : Fifo) : q.afterVal.buf = q.buf := by
  unfold afterVal pop peek; split_ifs <;> rfl

/-- A read of `REG_DATA_VAL` uses the latch up. -/
theorem afterVal_itemPeeked (q : Fifo) : q.afterVal.itemPeeked = false := by
  unfold afterVal peek pop
  split_ifs <;> simp_all

theorem afterSeq_buf (q : Fifo) : q.afterSeq.buf = q.buf := by
  unfold afterSeq peek; split_ifs <;> rfl

theorem afterSeq_head (q : Fifo) : q.afterSeq.head = q.head := by
  unfold afterSeq peek; split_ifs <;> rfl

theorem afterSeq_tail (q : Fifo) : q.afterSeq.tail = q.tail := by
  unfold afterSeq peek; split_ifs <;> rfl

/-- No frame moves the head, except that a START resets it. -/
theorem afterFrame_head (f : Frame) (q : Fifo) :
    (q.afterFrame f).head = if f.isStart then 0 else q.head := by
  unfold afterFrame
  split_ifs
  · rfl
  · exact q.afterVal_head
  · exact q.afterSeq_head
  · rfl

/-- The tail after a frame. -/
theorem afterFrame_tail (f : Frame) (q : Fifo) :
    (q.afterFrame f).tail =
      if f.isStart then 0
      else if f.isPop ∧ q.head ≠ q.tail then (q.tail + 1) % fifoDepth else q.tail := by
  unfold afterFrame
  by_cases hs : f.isStart
  · simp [hs, reset]
  · by_cases hp : f.isPop
    · simp only [hs, hp, Bool.false_eq_true, if_false, if_true, true_and, afterVal_tail, ne_eq]
      by_cases h : q.head = q.tail <;> simp [h]
    · simp only [hs, hp, Bool.false_eq_true, if_false, false_and]
      split_ifs
      · exact q.afterSeq_tail
      · rfl

/-- A frame leaves the indices in range. -/
theorem InRange.afterFrame {q : Fifo} (h : q.InRange) (f : Frame) :
    (q.afterFrame f).InRange := by
  obtain ⟨hh, ht⟩ := h
  refine ⟨?_, ?_⟩
  · rw [afterFrame_head]
    split_ifs
    · decide
    · exact hh
  · rw [afterFrame_tail]
    split_ifs
    · decide
    · exact Nat.mod_lt _ (by decide)
    · exact ht

/-- A frame that neither starts nor pops keeps the FIFO empty or nonempty. -/
theorem nonempty_afterFrame_of_keep {f : Frame} {q : Fifo} (hs : ¬ f.isStart)
    (hp : ¬ (f.isPop ∧ q.head ≠ q.tail)) : (q.afterFrame f).nonempty = q.nonempty := by
  unfold nonempty
  rw [afterFrame_head, afterFrame_tail, if_neg hs, if_neg hs, if_neg hp]

/-- An empty FIFO stays empty under every frame. -/
theorem nonempty_afterFrame_of_empty {f : Frame} {q : Fifo} (h : q.nonempty = false) :
    (q.afterFrame f).nonempty = false := by
  have heq : q.head = q.tail := by simpa [nonempty] using h
  by_cases hs : f.isStart
  · simp [nonempty, afterFrame_head, afterFrame_tail, hs]
  · rw [nonempty_afterFrame_of_keep hs (fun hp => hp.2 heq), h]

/-- A START leaves the FIFO empty. -/
theorem nonempty_afterFrame_of_start {f : Frame} {q : Fifo} (h : f.isStart) :
    (q.afterFrame f).nonempty = false := by
  simp [nonempty, afterFrame_head, afterFrame_tail, h]

/-- A pop from a nonempty FIFO empties it just when the level was 1. -/
theorem nonempty_afterFrame_of_pop {f : Frame} {q : Fifo} (hq : q.InRange)
    (hs : ¬ f.isStart) (hp : f.isPop) (hne : q.nonempty) :
    (q.afterFrame f).nonempty = decide (q.level ≠ 1) := by
  have hneq : q.head ≠ q.tail := by simpa [nonempty] using hne
  obtain ⟨hh, ht⟩ := hq
  unfold nonempty level
  rw [afterFrame_head, afterFrame_tail, if_neg hs, if_neg hs, if_pos ⟨hp, hneq⟩]
  simp only [fifoDepth] at *
  congr 1
  simp only [eq_iff_iff, ne_eq]
  split_ifs <;> omega

/-- The level is the distance from the tail to the head around the ring. -/
theorem level_eq_mod {q : Fifo} (hq : q.InRange) : q.level = (q.head + 32 - q.tail) % 32 := by
  obtain ⟨hh, ht⟩ := hq
  unfold level
  simp only [fifoDepth] at *
  split_ifs <;> omega

/-- The level is 0 just when the FIFO is empty. -/
theorem level_eq_zero_iff {q : Fifo} (hq : q.InRange) : q.level = 0 ↔ q.head = q.tail := by
  rw [level_eq_mod hq]
  obtain ⟨hh, ht⟩ := hq
  simp only [fifoDepth] at hh ht
  omega

/-- A FIFO is not empty just when its level is positive. -/
theorem nonempty_iff_level {q : Fifo} (hq : q.InRange) : q.nonempty = true ↔ 1 ≤ q.level := by
  rw [nonempty, decide_eq_true_iff, ne_eq, ← level_eq_zero_iff hq]
  omega

/-- One slot always stays free. -/
theorem level_lt {q : Fifo} (hq : q.InRange) : q.level < fifoDepth := by
  rw [level_eq_mod hq]
  exact Nat.mod_lt _ (by decide)

/-- A frame that neither starts nor pops keeps the level. -/
theorem level_afterFrame_of_keep {f : Frame} {q : Fifo} (hs : ¬ f.isStart) (hp : ¬ f.isPop) :
    (q.afterFrame f).level = q.level := by
  have hhead : (q.afterFrame f).head = q.head := by rw [afterFrame_head, if_neg hs]
  have htail : (q.afterFrame f).tail = q.tail := by
    rw [afterFrame_tail, if_neg hs, if_neg (fun hc => hp hc.1)]
  unfold level
  rw [hhead, htail]

/-- A pop from a nonempty FIFO lowers the level by one. -/
theorem level_afterFrame_of_pop {f : Frame} {q : Fifo} (hq : q.InRange) (hs : ¬ f.isStart)
    (hp : f.isPop) (hl : 1 ≤ q.level) : (q.afterFrame f).level + 1 = q.level := by
  have hne : q.head ≠ q.tail := by
    intro heq
    rw [(level_eq_zero_iff hq).mpr heq] at hl
    omega
  have hhead : (q.afterFrame f).head = q.head := by rw [afterFrame_head, if_neg hs]
  have htail : (q.afterFrame f).tail = (q.tail + 1) % fifoDepth := by
    rw [afterFrame_tail, if_neg hs, if_pos ⟨hp, hne⟩]
  rw [level_eq_mod (hq.afterFrame f), level_eq_mod hq, hhead, htail]
  obtain ⟨hh, ht⟩ := hq
  simp only [fifoDepth] at *
  omega

/-- `fifo_push` finds the FIFO full just at the largest level. -/
theorem next_eq_tail_iff {q : Fifo} (hq : q.InRange) :
    (q.head + 1) % fifoDepth = q.tail ↔ q.level + 1 = fifoDepth := by
  rw [level_eq_mod hq]
  obtain ⟨hh, ht⟩ := hq
  simp only [fifoDepth] at *
  omega

/-- Publishing the next head raises the level by one, if the FIFO is not full. -/
theorem level_storeHead {q : Fifo} (hq : q.InRange) (hl : q.level + 1 < fifoDepth) :
    ({ q with head := (q.head + 1) % fifoDepth } : Fifo).level = q.level + 1 := by
  have hq' : ({ q with head := (q.head + 1) % fifoDepth } : Fifo).InRange :=
    ⟨Nat.mod_lt _ (by decide), hq.2⟩
  rw [level_eq_mod hq', level_eq_mod hq] at *
  obtain ⟨hh, ht⟩ := hq
  simp only [fifoDepth] at *
  omega

end Fifo

namespace Mcu

@[simp] theorem clearFlags_fifo (val : BitVec 32) (m : Mcu) :
    (m.clearFlags val).fifo = m.fifo := by
  unfold clearFlags; split_ifs <;> rfl

@[simp] theorem clearFlags_dataReady (val : BitVec 32) (m : Mcu) :
    (m.clearFlags val).dataReady = m.dataReady := by
  unfold clearFlags; split_ifs <;> rfl

/-- A value masked to bit 0 has bit 0 set just when the value has. -/
theorem and_one_and_one (val : BitVec 32) :
    val &&& 0x01#32 &&& 0x01#32 = val &&& 0x01#32 := by
  rw [BitVec.and_assoc, BitVec.and_self]

/-- A register write touches the FIFO only if it is a START. -/
theorem regWrite_fifo (r : Reg) (val : BitVec 32) (m : Mcu) :
    (m.regWrite r val).fifo =
      if r = .control ∧ val &&& 0x01#32 ≠ 0 then m.fifo.reset else m.fifo := by
  cases r <;> simp only [regWrite, reduceCtorEq, false_and, if_false, true_and]
  case control =>
    rw [and_one_and_one]
    split_ifs
    · simp [start, updateTimerRate, updateDataReadyGpio]
    · simp [stop, updateDataReadyGpio]
  case authCtrl => split_ifs <;> rfl
  case sampleRate => split_ifs <;> rfl

/-- A register write touches the pin only if it is a control write. -/
theorem regWrite_dataReady (r : Reg) (val : BitVec 32) (m : Mcu) :
    (m.regWrite r val).dataReady =
      if r = .control then (m.regWrite r val).fifo.nonempty else m.dataReady := by
  cases r <;> simp only [regWrite, reduceCtorEq, if_false, if_true]
  case control =>
    split_ifs
    · rfl
    · rfl
  case authCtrl => split_ifs <;> rfl
  case sampleRate => split_ifs <;> rfl

/-- A register read touches the FIFO only at `REG_DATA_SEQ` and `REG_DATA_VAL`. -/
theorem regRead_fifo (r : Reg) (m : Mcu) :
    (m.regRead r).2.fifo =
      if r = .dataVal then m.fifo.afterVal
      else if r = .dataSeq then m.fifo.afterSeq else m.fifo := by
  cases r <;> simp only [regRead, reduceCtorEq, if_false, if_true]
  case dataSeq =>
    by_cases h : m.fifo.head = m.fifo.tail
    · simp [Fifo.peek, Fifo.afterSeq, Fifo.nonempty, h]
    · simp [Fifo.peek, Fifo.afterSeq, Fifo.nonempty, h]
  case dataVal =>
    unfold Fifo.afterVal
    by_cases hp : m.fifo.itemPeeked
    · simp [hp, updateDataReadyGpio]
    · by_cases h : m.fifo.head = m.fifo.tail
      · simp [Fifo.peek, Fifo.pop, hp, h]
      · simp [Fifo.peek, hp, h, updateDataReadyGpio]

/-- A register read touches the pin only when it pops. -/
theorem regRead_dataReady (r : Reg) (m : Mcu) :
    (m.regRead r).2.dataReady =
      if r = .dataVal ∧ (m.fifo.itemPeeked ∨ m.fifo.nonempty) then m.fifo.afterVal.nonempty
      else m.dataReady := by
  cases r <;> simp only [regRead, reduceCtorEq, false_and, true_and, if_false]
  case dataSeq => split_ifs <;> rfl
  case dataVal =>
    unfold Fifo.afterVal
    by_cases hp : m.fifo.itemPeeked
    · simp [hp, updateDataReadyGpio]
    · by_cases h : m.fifo.head = m.fifo.tail
      · simp [Fifo.peek, Fifo.nonempty, hp, h]
      · simp [Fifo.peek, Fifo.nonempty, hp, h, updateDataReadyGpio]

/-- **The FIFO after a frame.** -/
theorem handleFrame_fifo (f : Frame) (m : Mcu) :
    (m.handleFrame f).fifo = m.fifo.afterFrame f := by
  simp only [handleFrame, respond, Fifo.afterFrame, Frame.isStart, Frame.isControl,
    Frame.isPop, Frame.isPeek]
  by_cases hw : f.isWrite
  · simp [hw, regWrite_fifo]
  · simp [hw, regRead_fifo]

/-- **The DATA_READY pin after a frame.**  Control writes and pops set it from the
FIFO as they leave it; no other frame writes it. -/
theorem handleFrame_dataReady (f : Frame) (m : Mcu) :
    (m.handleFrame f).dataReady =
      if f.isControl ∨ (f.isPop ∧ (m.fifo.itemPeeked ∨ m.fifo.nonempty)) then
        (m.fifo.afterFrame f).nonempty
      else m.dataReady := by
  rw [← handleFrame_fifo]
  simp only [handleFrame, respond, Frame.isControl, Frame.isPop]
  by_cases hw : f.isWrite
  · simp [hw, regWrite_dataReady]
  · by_cases hr : f.reg = .dataVal <;> simp [hw, hr, regRead_dataReady, regRead_fifo]

/-- **The control register after a frame.** -/
theorem handleFrame_regControl (f : Frame) (m : Mcu) :
    (m.handleFrame f).regControl = if f.isControl then f.word &&& 0x01#32 else m.regControl := by
  simp only [handleFrame, respond, Frame.isControl]
  by_cases hw : f.isWrite
  · simp only [hw, if_true, Bool.true_and, beq_iff_eq]
    cases hr : f.reg <;> simp only [regWrite, reduceCtorEq, if_false, if_true]
    case control =>
      split_ifs
      · rfl
      · rfl
    case authCtrl => split_ifs <;> rfl
    case sampleRate => split_ifs <;> rfl
  · simp only [hw, Bool.false_eq_true, if_false, Bool.false_and]
    cases f.reg <;> simp only [regRead]
    case dataSeq => split_ifs <;> rfl
    case dataVal => split_ifs <;> rfl

/-- **A frame handler keeps the pin right.** -/
theorem handleFrame_pin (f : Frame) {m : Mcu} (h : m.dataReady = m.fifo.nonempty) :
    (m.handleFrame f).dataReady = (m.handleFrame f).fifo.nonempty := by
  rw [handleFrame_dataReady, handleFrame_fifo]
  split_ifs with hc
  · rfl
  · push Not at hc
    obtain ⟨hctl, hpop⟩ := hc
    have hs : ¬ f.isStart := by simp [Frame.isStart, hctl]
    rw [h, Fifo.nonempty_afterFrame_of_keep hs]
    rintro ⟨hp, hne⟩
    have := (hpop hp).2
    simp [Fifo.nonempty, hne] at this

/-- **The reply a frame leaves behind**: its own command byte, and the word the
firmware computed while it handled the frame. -/
theorem handleFrame_txBuf (f : Frame) (m : Mcu) :
    (m.handleFrame f).txBuf = Frame.pack f.cmd (m.respond f).1 := rfl

/-- An SPI error changes neither the FIFO, nor the pin, nor the armed reply. -/
@[simp] theorem errorCallback_fifo (m : Mcu) : m.errorCallback.fifo = m.fifo := rfl
@[simp] theorem errorCallback_dataReady (m : Mcu) :
    m.errorCallback.dataReady = m.dataReady := rfl
@[simp] theorem errorCallback_txBuf (m : Mcu) : m.errorCallback.txBuf = m.txBuf := rfl

end Mcu
