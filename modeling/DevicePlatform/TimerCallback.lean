/-
# The timer callback, one load or store at a time

`HAL_TIM_PeriodElapsedCallback` (`Core/Src/main.c`) runs at a lower priority
than the SPI2 handler, so a frame handler may run between any two of its memory
accesses.  `TimPc` is the point the callback has reached, with the values it has
already read; `timStep` performs the next access.  `fifo_push` and
`update_data_ready_gpio` are inlined, as they are called only here and (without
interruption) from the frame handler.

`Board` is the MCU with its callback in progress; its steps are a timer
interrupt, one access of the callback, a received frame and an SPI error.
-/
import DevicePlatform.Firmware
import DevicePlatform.Transition

/-! ## The callback -/

/-- The point the TIM2 callback has reached.  Constructors carry the callback's
locals: the sample value, the `next` index of `fifo_push`, the index operand of
a store, and the values `update_data_ready_gpio` has read. -/
inductive TimPc where
  /-- No callback is in progress. -/
  | idle
  /-- `if (reg_control & 0x01u)`. -/
  | loadControl
  /-- `sample_value = seq_counter & 0xFFFFu`. -/
  | loadValue
  /-- `next = (fifo_head + 1) % FIFO_DEPTH`. -/
  | pushLoadHead (value : BitVec 32)
  /-- `if (next == fifo_tail)`. -/
  | pushLoadTail (value : BitVec 32) (next : ℕ)
  /-- `fifo_overflow++`: its load. -/
  | overflowLoad
  /-- `fifo_overflow++`: its store. -/
  | overflowStore (count : BitVec 32)
  /-- `fifo_buf[fifo_head].sequence = seq_counter++`: the index. -/
  | seqLoadHead (value : BitVec 32) (next : ℕ)
  /-- `seq_counter++`: its load. -/
  | seqLoad (value : BitVec 32) (next slot : ℕ)
  /-- `seq_counter++`: its store. -/
  | seqStore (value : BitVec 32) (next slot : ℕ) (seq : BitVec 32)
  /-- The store to `.sequence`. -/
  | itemSequence (value : BitVec 32) (next slot : ℕ) (seq : BitVec 32)
  /-- `fifo_buf[fifo_head].value = value`: the index. -/
  | valueLoadHead (value : BitVec 32) (next : ℕ)
  /-- The store to `.value`. -/
  | itemValue (value : BitVec 32) (next slot : ℕ)
  /-- `fifo_head = next`. -/
  | storeHead (next : ℕ)
  /-- `update_data_ready_gpio`: the load of `fifo_head`. -/
  | readyLoadHead
  /-- `update_data_ready_gpio`: the load of `fifo_tail`. -/
  | readyLoadTail (head : ℕ)
  /-- `HAL_GPIO_WritePin(GPIOA, GPIO_PIN_8, …)`. -/
  | readyWrite (level : Bool)
  /-- `HAL_GPIO_TogglePin(GPIOA, GPIO_PIN_9)`. -/
  | toggleMark
  deriving DecidableEq, Repr

/-- The next memory access of the callback. -/
def Mcu.timStep (pc : TimPc) (m : Mcu) : TimPc × Mcu :=
  let q := m.fifo
  match pc with
  | .idle => (.idle, m)
  | .loadControl => (if m.regControl &&& 0x01#32 ≠ 0 then .loadValue else .idle, m)
  | .loadValue => (.pushLoadHead (q.seqCounter &&& 0xFFFF#32), m)
  | .pushLoadHead value => (.pushLoadTail value ((q.head + 1) % fifoDepth), m)
  | .pushLoadTail value next =>
      (if next = q.tail then .overflowLoad else .seqLoadHead value next, m)
  | .overflowLoad => (.overflowStore q.overflow, m)
  | .overflowStore count => (.readyLoadHead, { m with fifo := { q with overflow := count + 1 } })
  | .seqLoadHead value next => (.seqLoad value next q.head, m)
  | .seqLoad value next slot => (.seqStore value next slot q.seqCounter, m)
  | .seqStore value next slot seq =>
      (.itemSequence value next slot seq, { m with fifo := { q with seqCounter := seq + 1 } })
  | .itemSequence value next slot seq =>
      (.valueLoadHead value next,
        { m with fifo := { q with
            buf := Function.update q.buf slot { q.buf slot with sequence := seq } } })
  | .valueLoadHead value next => (.itemValue value next q.head, m)
  | .itemValue value next slot =>
      (.storeHead next,
        { m with fifo := { q with
            buf := Function.update q.buf slot { q.buf slot with value := value } } })
  | .storeHead next => (.readyLoadHead, { m with fifo := { q with head := next } })
  | .readyLoadHead => (.readyLoadTail q.head, m)
  | .readyLoadTail head => (.readyWrite (decide (head ≠ q.tail)), m)
  | .readyWrite level => (.toggleMark, { m with dataReady := level })
  | .toggleMark => (.idle, { m with sampleMark := !m.sampleMark })

/-- The `next` index that `fifo_push` is about to publish is a slot. -/
def TimPc.NextLt : TimPc → Prop
  | .pushLoadTail _ next => next < fifoDepth
  | .seqLoadHead _ next => next < fifoDepth
  | .seqLoad _ next _ => next < fifoDepth
  | .seqStore _ next _ _ => next < fifoDepth
  | .itemSequence _ next _ _ => next < fifoDepth
  | .valueLoadHead _ next => next < fifoDepth
  | .itemValue _ next _ => next < fifoDepth
  | .storeHead next => next < fifoDepth
  | _ => True

/-! ## The board -/

/-- The MCU and the point its timer callback has reached. -/
structure Board where
  mcu : Mcu
  tim : TimPc

/-- What can happen on the MCU. -/
inductive BoardEvent where
  /-- The TIM2 interrupt starts the callback. -/
  | tick
  /-- The callback performs its next access. -/
  | tim
  /-- A frame is received and handled, possibly inside the callback. -/
  | frame (f : Frame)
  /-- A frame is lost and `HAL_SPI_ErrorCallback` runs. -/
  | spiError
  deriving DecidableEq, Repr

namespace Board

/-- The board at power-on. -/
def powerOn : Board := ⟨Mcu.powerOn, .idle⟩

/-- One event.  TIM2 cannot interrupt its own callback; a frame handler can. -/
def next (b : Board) : BoardEvent → Option Board
  | .tick => if b.tim = .idle then some { b with tim := .loadControl } else none
  | .tim =>
      if b.tim = .idle then none
      else some ⟨(b.mcu.timStep b.tim).2, (b.mcu.timStep b.tim).1⟩
  | .frame f => some { b with mcu := b.mcu.handleFrame f }
  | .spiError => some { b with mcu := b.mcu.errorCallback }

/-- The board as a machine. -/
def machine : Machine Board BoardEvent where
  init b := b = powerOn
  next := next

/-- All FIFO indices, those in the callback's locals included, are slots. -/
def WellIndexed (b : Board) : Prop := b.mcu.fifo.InRange ∧ b.tim.NextLt

theorem wellIndexed_powerOn : powerOn.WellIndexed := ⟨⟨by decide, by decide⟩, trivial⟩

/-- One access of the callback keeps the indices in range. -/
theorem WellIndexed.timStep {b : Board} (h : b.WellIndexed) :
    WellIndexed ⟨(b.mcu.timStep b.tim).2, (b.mcu.timStep b.tim).1⟩ := by
  obtain ⟨m, pc⟩ := b
  obtain ⟨⟨hh, ht⟩, hn⟩ := h
  cases pc <;> simp only [TimPc.NextLt] at hn <;>
    simp only [WellIndexed, Mcu.timStep, Fifo.InRange, TimPc.NextLt, and_true]
  case loadControl => split_ifs <;> exact ⟨⟨hh, ht⟩, trivial⟩
  case pushLoadHead => exact ⟨⟨hh, ht⟩, Nat.mod_lt _ (by decide)⟩
  case pushLoadTail =>
    split_ifs
    · exact ⟨⟨hh, ht⟩, trivial⟩
    · exact ⟨⟨hh, ht⟩, hn⟩
  case storeHead => exact ⟨hn, ht⟩
  all_goals first
    | exact ⟨hh, ht⟩
    | exact ⟨⟨hh, ht⟩, hn⟩

/-- Every event keeps the indices in range. -/
theorem WellIndexed.next {b b' : Board} {e : BoardEvent} (h : b.WellIndexed)
    (hn : b.next e = some b') : b'.WellIndexed := by
  cases e <;> simp only [Board.next] at hn
  case tick =>
    split_ifs at hn
    cases hn
    exact ⟨h.1, trivial⟩
  case tim =>
    split_ifs at hn
    cases hn
    exact h.timStep
  case frame f =>
    cases hn
    refine ⟨?_, h.2⟩
    rw [Mcu.handleFrame_fifo]
    exact h.1.afterFrame f
  case spiError =>
    cases hn
    exact h

/-- The frame that starts acquisition: `REG_CONTROL := 1`. -/
def startFrame : Frame := Frame.pack 0x83#8 1

/-- The frame that reads `REG_DATA_VAL`. -/
def dataValFrame : Frame := Frame.pack 0x07#8 0

end Board
