/-
# The MCU FIFO is a bounded queue

With every timer tick and every frame handled as a whole, the sample FIFO is a queue of at most
31 samples.  `SampleQueue` is that queue, in its own terms: the samples taken and the samples
stored since the last START, the ticks that were counted and those that found the queue full.
It knows nothing of slots, indices, latches and counters that wrap around.

`Represents` relates a state of the firmware to a queue.  Every tick and every frame keeps it
(`Represents.step`), and a queue that is represented answers every read of the FIFO registers
(`Represents.reply`); `fifo_refines_queue` puts the two together for a whole run.

`Mcu.tick` is the timer callback as a function.  `Board.run_tick` shows that it is what the
accesses of `TimerCallback.lean` come to when nothing preempts them.
-/
import DevicePlatform.McuFifo

/-! ## The timer callback as a whole -/

/-- `fifo_push`. -/
def Fifo.push (value : BitVec 32) (q : Fifo) : Fifo :=
  let next := (q.head + 1) % fifoDepth
  if next = q.tail then { q with overflow := q.overflow + 1 }
  else
    { q with
      buf := Function.update q.buf q.head ⟨q.seqCounter, value⟩
      seqCounter := q.seqCounter + 1
      head := next }

/-- A push does not touch the latch. -/
theorem Fifo.push_latch (q : Fifo) (value : BitVec 32) :
    (q.push value).itemPeeked = q.itemPeeked ∧ (q.push value).lastVal = q.lastVal := by
  unfold Fifo.push
  dsimp only
  split <;> exact ⟨rfl, rfl⟩

/-- Only a START resets the count of lost samples. -/
theorem Fifo.afterFrame_overflow {q : Fifo} {f : Frame} (hs : f.isStart = false) :
    (q.afterFrame f).overflow = q.overflow := by
  unfold Fifo.afterFrame
  rw [if_neg (by simp [hs])]
  split_ifs
  · unfold Fifo.afterVal Fifo.peek Fifo.pop
    split_ifs <;> rfl
  · unfold Fifo.afterSeq Fifo.peek
    split_ifs <;> rfl
  · rfl

/-- `HAL_TIM_PeriodElapsedCallback`. -/
def Mcu.tick (m : Mcu) : Mcu :=
  if m.regControl &&& 0x01#32 ≠ 0 then
    let sampleValue := m.fifo.seqCounter &&& 0xFFFF#32
    let m := { m with fifo := m.fifo.push sampleValue }.updateDataReadyGpio
    { m with sampleMark := !m.sampleMark }
  else m

namespace Board

/-- The callback performs its next access. -/
theorem run_tim {m : Mcu} {pc : TimPc} {n : ℕ} {b : Board} (hpc : pc ≠ .idle)
    (h : machine.Run Machine.Always ⟨(m.timStep pc).2, (m.timStep pc).1⟩
      (List.replicate n .tim) b) :
    machine.Run Machine.Always ⟨m, pc⟩ (List.replicate (n + 1) .tim) b := by
  rw [List.replicate_succ]
  exact h.cons trivial (if_neg hpc)

/-- `update_data_ready_gpio` and the marker. -/
theorem run_ready (m : Mcu) :
    machine.Run Machine.Always ⟨m, .readyLoadHead⟩ (List.replicate 4 .tim)
      ⟨{ m.updateDataReadyGpio with sampleMark := !m.sampleMark }, .idle⟩ :=
  Machine.run_of_exec rfl

/-- `fifo_push` from its test on, in a FIFO with room. -/
theorem run_store (m : Mcu) (value : BitVec 32) (next : ℕ) :
    let q := { m.fifo with
      buf := Function.update m.fifo.buf m.fifo.head ⟨m.fifo.seqCounter, value⟩
      seqCounter := m.fifo.seqCounter + 1
      head := next }
    machine.Run Machine.Always ⟨m, .seqLoadHead value next⟩ (List.replicate 11 .tim)
      ⟨{ { m with fifo := q }.updateDataReadyGpio with sampleMark := !m.sampleMark }, .idle⟩ := by
  iterate 7
    refine run_tim nofun ?_
    dsimp only [Mcu.timStep]
  -- the two stores to the slot make one item
  rw [Function.update_self, Function.update_idem]
  exact run_ready _

/-- The callback without preemption computes `Mcu.tick`. -/
theorem run_tick (m : Mcu) :
    ∃ n, machine.Run Machine.Always ⟨m, .idle⟩ (.tick :: List.replicate n .tim)
      ⟨m.tick, .idle⟩ := by
  suffices h : ∃ n, machine.Run Machine.Always ⟨m, .loadControl⟩ (List.replicate n .tim)
      ⟨m.tick, .idle⟩ by
    obtain ⟨n, hn⟩ := h
    exact ⟨n, hn.cons trivial rfl⟩
  unfold Mcu.tick
  split
  · next hrun =>
    unfold Fifo.push
    dsimp only
    split
    · next hfull =>
      -- the push counts the overflow and stores nothing: ten accesses, the pin included
      refine ⟨10, run_tim nofun ?_⟩
      dsimp only [Mcu.timStep]
      rw [if_pos hrun]
      refine run_tim nofun (run_tim nofun (run_tim nofun ?_))
      dsimp only [Mcu.timStep]
      rw [if_pos hfull]
      exact run_tim nofun (run_tim nofun (run_ready _))
    · next hroom =>
      refine ⟨15, run_tim nofun ?_⟩
      dsimp only [Mcu.timStep]
      rw [if_pos hrun]
      refine run_tim nofun (run_tim nofun (run_tim nofun ?_))
      dsimp only [Mcu.timStep]
      rw [if_neg hroom]
      exact run_store m _ _
  · next hstop =>
    refine ⟨1, run_tim nofun ?_⟩
    dsimp only [Mcu.timStep]
    rw [if_neg hstop]
    exact .nil _

end Board

/-- What happens to the MCU, each as a whole. -/
inductive McuEvent where
  | tick
  | frame (f : Frame)
  deriving DecidableEq, Repr

namespace Mcu

/-- One event. -/
def step (m : Mcu) : McuEvent → Mcu
  | .tick => m.tick
  | .frame f => m.handleFrame f

/-- A sequence of events. -/
def run (m : Mcu) (es : List McuEvent) : Mcu := es.foldl step m

end Mcu

/-! ## The queue -/

/-- The sample with the number `k`. -/
def sampleItem (k : ℕ) : FifoItem := ⟨BitVec.ofNat 32 k, BitVec.ofNat 32 (k % 2 ^ 16)⟩

/-- A queue of samples since the last START. -/
structure SampleQueue where
  running : Bool
  /-- The ticks while running. -/
  ticks : ℕ
  /-- The samples taken, in order. -/
  popped : List FifoItem
  /-- The samples stored, oldest first. -/
  stored : List FifoItem
  /-- The ticks that found the queue full. -/
  overflow : ℕ

namespace SampleQueue

/-- The queue after a START. -/
def started : SampleQueue := ⟨true, 0, [], [], 0⟩

/-- A tick stores the next sample, if there is room for it. -/
def tick (a : SampleQueue) : SampleQueue :=
  if a.running then
    if a.stored.length < 31 then
      { a with
        ticks := a.ticks + 1
        stored := a.stored ++ [sampleItem (a.popped.length + a.stored.length)] }
    else { a with ticks := a.ticks + 1, overflow := a.overflow + 1 }
  else a

/-- The oldest sample is taken. -/
def pop (a : SampleQueue) : SampleQueue :=
  match a.stored with
  | [] => a
  | x :: rest => { a with popped := a.popped ++ [x], stored := rest }

/-- One event. -/
def step (a : SampleQueue) : McuEvent → SampleQueue
  | .tick => a.tick
  | .frame f =>
      if f.isStart then started
      else if f.isControl then { a with running := false }
      else if f.isPop then a.pop
      else a

/-- A sequence of events. -/
def run (a : SampleQueue) (es : List McuEvent) : SampleQueue := es.foldl step a

/-- What a read of a FIFO register answers. -/
def reply (a : SampleQueue) : Reg → Option (BitVec 32)
  | .fifoLevel => some (BitVec.ofNat 32 a.stored.length)
  | .dataSeq => some ((a.stored.head?.map FifoItem.sequence).getD 0)
  | .dataVal => some ((a.stored.head?.map FifoItem.value).getD 0)
  | .overflowCount => some (BitVec.ofNat 32 a.overflow)
  | _ => none

end SampleQueue

/-! ## The firmware represents the queue -/

namespace QueueInv

variable {q : Fifo} {items : List FifoItem} {lo : ℕ}

/-- The level is the length of the window. -/
theorem level {pc : TimPc} (h : QueueInv q pc items lo) : q.level = items.length - lo := by
  have hrange : q.InRange := by
    refine ⟨?_, ?_⟩
    · rw [h.head]
      exact Nat.mod_lt _ (by decide)
    · rw [h.tail]
      exact Nat.mod_lt _ (by decide)
  have hle := h.le
  have hwindow := h.window
  rw [Fifo.level_eq_mod hrange, h.head, h.tail]
  simp only [fifoDepth] at hwindow ⊢
  omega

/-- A push that finds room extends the log. -/
theorem push_room (h : QueueInv q .idle items lo) (value : BitVec 32)
    (hroom : items.length - lo < 31) :
    QueueInv (q.push value) .idle (items ++ [⟨BitVec.ofNat 32 items.length, value⟩]) lo ∧
      (q.push value).overflow = q.overflow := by
  have hcount : q.seqCounter = BitVec.ofNat 32 items.length := h.push
  have hle := h.le
  have hnext : (q.head + 1) % fifoDepth = (items.length + 1) % fifoDepth := by
    rw [h.head, Nat.mod_add_mod]
  have hfree : (q.head + 1) % fifoDepth ≠ q.tail := by
    rw [hnext, h.tail]
    exact (mod_ne_of_window (by omega) (by simp only [fifoDepth]; omega)).symm
  unfold Fifo.push
  dsimp only
  rw [if_neg hfree, h.head, hcount]
  refine ⟨?_, rfl⟩
  -- the store of the item, and then the store of the head
  have hslot : QueueInv
      { q with
        buf := Function.update q.buf (items.length % fifoDepth)
          ⟨BitVec.ofNat 32 items.length, value⟩
        seqCounter := BitVec.ofNat 32 items.length + 1 }
      (.storeHead ((items.length + 1) % fifoDepth)) items lo := by
    refine ⟨h.ring.write h.window _, h.head, h.tail, h.le, h.window, h.numbered, ⟨rfl, ?_⟩, ?_, ?_⟩
    · simp only [fifoDepth]
      omega
    · dsimp only
      rw [Function.update_self]
    · exact (BitVec.ofNat_add items.length 1).symm
  have hstored := hslot.storeHead
  dsimp only at hstored
  rw [h.head, Function.update_self] at hstored
  rw [Nat.mod_add_mod]
  exact hstored.move rfl rfl rfl hstored.push

/-- A push that finds the FIFO full changes nothing but the count. -/
theorem push_full (h : QueueInv q .idle items lo) (value : BitVec 32)
    (hfull : ¬items.length - lo < 31) :
    q.push value = { q with overflow := q.overflow + 1 } := by
  have hle := h.le
  have hwindow := h.window
  have hnext : (q.head + 1) % fifoDepth = q.tail := by
    rw [h.head, h.tail, Nat.mod_add_mod]
    simp only [fifoDepth] at hwindow ⊢
    omega
  unfold Fifo.push
  dsimp only
  rw [if_pos hnext]

end QueueInv

/-- The firmware's state represents a queue. -/
structure Represents (m : Mcu) (a : SampleQueue) : Prop where
  running : m.regControl &&& 0x01#32 ≠ 0 ↔ a.running = true
  queue : QueueInv m.fifo .idle (a.popped ++ a.stored) a.popped.length
  items : a.popped ++ a.stored = (List.range (a.popped.length + a.stored.length)).map sampleItem
  overflow : m.fifo.overflow = BitVec.ofNat 32 a.overflow
  ticks : a.ticks = a.popped.length + a.stored.length + a.overflow
  latch : m.fifo.itemPeeked = true → ∃ x, a.stored.head? = some x ∧ m.fifo.lastVal = x.value

namespace Represents

variable {m : Mcu} {a : SampleQueue}

theorem level (h : Represents m a) : m.fifo.level = a.stored.length := by
  rw [h.queue.level, List.length_append]
  omega

theorem length_le (h : Represents m a) : a.stored.length ≤ 31 := by
  have hwindow := h.queue.window
  rw [List.length_append] at hwindow
  simp only [fifoDepth] at hwindow
  omega

/-- The oldest sample is in the slot of the tail. -/
theorem head (h : Represents m a) (hne : m.fifo.head ≠ m.fifo.tail) :
    a.stored.head? = some (m.fifo.buf m.fifo.tail) := by
  have hlt := h.queue.lt_of_nonempty hne
  have hold := h.queue.oldest hlt
  rw [List.getElem?_append_right (Nat.le_refl _), Nat.sub_self] at hold
  rw [List.head?_eq_getElem?]
  exact hold

/-- An empty FIFO represents an empty queue. -/
theorem stored_nil (h : Represents m a) (heq : m.fifo.head = m.fifo.tail) : a.stored = [] := by
  rcases hstored : a.stored with _ | ⟨x, rest⟩
  · rfl
  · have hlt : a.popped.length < (a.popped ++ a.stored).length := by
      rw [hstored]
      simp
    exact absurd heq (h.queue.nonempty_of_lt hlt)

/-- The low 16 bits of a number. -/
theorem ofNat_and_mask (n : ℕ) :
    BitVec.ofNat 32 n &&& 0xFFFF#32 = BitVec.ofNat 32 (n % 2 ^ 16) := by
  apply BitVec.eq_of_toNat_eq
  rw [BitVec.toNat_and, BitVec.toNat_ofNat, BitVec.toNat_ofNat]
  show n % 2 ^ 32 &&& (2 ^ 16 - 1) = _
  rw [Nat.and_two_pow_sub_one_eq_mod, BitVec.toNat_ofNat]
  omega

/-- A tick. -/
theorem tick (h : Represents m a) : Represents m.tick a.tick := by
  unfold Mcu.tick SampleQueue.tick
  by_cases hrun : m.regControl &&& 0x01#32 ≠ 0
  · rw [if_pos hrun, if_pos (h.running.mp hrun)]
    have hcount : m.fifo.seqCounter = BitVec.ofNat 32 (a.popped ++ a.stored).length := h.queue.push
    have hlen : (a.popped ++ a.stored).length - a.popped.length = a.stored.length := by
      rw [List.length_append]
      omega
    split
    · next hroom =>
      have hvalue : m.fifo.seqCounter &&& 0xFFFF#32 =
          (sampleItem (a.popped.length + a.stored.length)).value := by
        rw [hcount, List.length_append]
        exact ofNat_and_mask _
      obtain ⟨hqueue, hover⟩ := h.queue.push_room (m.fifo.seqCounter &&& 0xFFFF#32) (hlen ▸ hroom)
      rw [hvalue, List.length_append, List.append_assoc] at hqueue
      refine ⟨h.running, ?_, ?_, hover.trans h.overflow, ?_, ?_⟩
      · show QueueInv (m.fifo.push (m.fifo.seqCounter &&& 0xFFFF#32)) _ _ _
        rw [hvalue]
        exact hqueue
      · dsimp only
        rw [← List.append_assoc, h.items, List.length_append, List.length_singleton,
          ← Nat.add_assoc, List.range_succ, List.map_append, List.map_singleton]
      · dsimp only
        rw [h.ticks, List.length_append, List.length_singleton]
        omega
      · -- a push appends behind the oldest sample, so a latch stays right
        intro hpeek
        obtain ⟨hsame, hlast⟩ := m.fifo.push_latch (m.fifo.seqCounter &&& 0xFFFF#32)
        obtain ⟨x, hx, hval⟩ := h.latch (hsame ▸ hpeek)
        refine ⟨x, ?_, hlast.trans hval⟩
        dsimp only
        rw [List.head?_append, hx]
        rfl
    · next hfull =>
      have hpush := h.queue.push_full (m.fifo.seqCounter &&& 0xFFFF#32) (hlen ▸ hfull)
      dsimp only
      rw [hpush]
      refine ⟨h.running, h.queue.move rfl rfl rfl h.queue.push, h.items, ?_, ?_, h.latch⟩
      · show m.fifo.overflow + 1 = _
        rw [h.overflow]
        exact (BitVec.ofNat_add a.overflow 1).symm
      · dsimp only
        rw [h.ticks, Nat.add_assoc]
  · rw [if_neg hrun, if_neg (mt h.running.mpr hrun)]
    exact h

/-- A START, in any state. -/
theorem start {f : Frame} (m : Mcu) (hs : f.isStart) :
    Represents (m.handleFrame f) SampleQueue.started := by
  have hfifo : (m.handleFrame f).fifo = m.fifo.reset := by
    rw [Mcu.handleFrame_fifo, Fifo.afterFrame, if_pos hs]
  obtain ⟨hctl, hbit⟩ := Bool.and_eq_true_iff.mp hs
  refine ⟨?_, ?_, rfl, ?_, rfl, ?_⟩
  · rw [Mcu.handleFrame_regControl, if_pos hctl, Mcu.and_one_and_one]
    exact iff_of_true (bne_iff_ne.mp hbit) rfl
  · rw [hfifo]
    exact QueueInv.reset rfl
  · rw [hfifo]
    rfl
  · rw [hfifo]
    rintro ⟨⟩

/-- A frame that neither starts nor pops.  It may latch the oldest sample, and it may stop. -/
theorem keep {f : Frame} {running : Bool} (h : Represents m a) (hs : f.isStart = false)
    (hp : f.isPop = false)
    (hrun : (m.handleFrame f).regControl &&& 0x01#32 ≠ 0 ↔ running = true) :
    Represents (m.handleFrame f) { a with running := running } := by
  refine ⟨hrun, ?_, h.items, ?_, h.ticks, ?_⟩
  · rw [Mcu.handleFrame_fifo]
    exact h.queue.frame_keep hs hp
  · rw [Mcu.handleFrame_fifo, Fifo.afterFrame_overflow hs]
    exact h.overflow
  · rw [Mcu.handleFrame_fifo]
    unfold Fifo.afterFrame
    rw [if_neg (Bool.not_eq_true _ ▸ hs), if_neg (Bool.not_eq_true _ ▸ hp)]
    split
    · unfold Fifo.afterSeq Fifo.peek Fifo.nonempty
      by_cases hempty : m.fifo.head = m.fifo.tail
      · rw [if_neg (by simp [hempty])]
        exact h.latch
      · rw [if_pos (decide_eq_true hempty), if_neg hempty]
        exact fun _ => ⟨_, h.head hempty, rfl⟩
    · exact h.latch

/-- The VAL frame takes the oldest sample. -/
theorem take {f : Frame} (h : Represents m a) (hp : f.isPop = true) :
    Represents (m.handleFrame f) a.pop := by
  have hs : f.isStart = false := Bool.eq_false_iff.mpr (Frame.not_isStart_of_isPop hp)
  have hrun : (m.handleFrame f).regControl = m.regControl := by
    rw [Mcu.handleFrame_regControl, if_neg (Frame.not_isControl_of_isPop hp)]
  have hover : (m.handleFrame f).fifo.overflow = BitVec.ofNat 32 a.overflow := by
    rw [Mcu.handleFrame_fifo, Fifo.afterFrame_overflow hs]
    exact h.overflow
  have hpeeked : (m.handleFrame f).fifo.itemPeeked = false := by
    rw [Mcu.handleFrame_fifo]
    unfold Fifo.afterFrame
    rw [if_neg (Bool.not_eq_true _ ▸ hs), if_pos hp]
    exact m.fifo.afterVal_itemPeeked
  have hqueue := h.queue
  have hitems := h.items
  have hticks := h.ticks
  have hrunning := hrun ▸ h.running
  unfold SampleQueue.pop
  cases hstored : a.stored with
  | nil =>
      -- `fifo_pop` leaves an empty FIFO alone
      refine ⟨hrunning, ?_, hitems, hover, hticks, fun hpeek => nomatch hpeeked ▸ hpeek⟩
      rw [Mcu.handleFrame_fifo]
      exact hqueue.frame_empty hs (by rw [hstored]; simp)
  | cons x rest =>
      rw [hstored] at hqueue hitems hticks
      refine ⟨hrunning, ?_, ?_, hover, ?_, fun hpeek => nomatch hpeeked ▸ hpeek⟩
      · rw [Mcu.handleFrame_fifo]
        dsimp only
        rw [List.append_assoc, List.length_append]
        exact hqueue.frame_pop hs hp (by simp)
      · dsimp only
        rw [List.append_assoc, List.singleton_append, hitems]
        simp only [List.length_append, List.length_cons, List.length_nil]
        rw [Nat.zero_add, Nat.add_assoc, Nat.add_comm 1]
      · dsimp only
        rw [hticks, List.length_append, List.length_cons, List.length_singleton]
        omega

/-- **Every event.** -/
theorem step (h : Represents m a) (e : McuEvent) : Represents (m.step e) (a.step e) := by
  cases e with
  | tick => exact h.tick
  | frame f =>
      unfold Mcu.step SampleQueue.step
      dsimp only
      split_ifs with hs hctl hp
      · exact start m hs
      · refine h.keep (Bool.eq_false_iff.mpr hs) ?_ ?_
        · exact Bool.eq_false_iff.mpr fun hp => Frame.not_isControl_of_isPop hp hctl
        · -- a control write that is no START has bit 0 clear
          rw [Mcu.handleFrame_regControl, if_pos hctl, Mcu.and_one_and_one]
          simpa [Frame.isStart, hctl] using hs
      · exact h.take hp
      · refine h.keep (Bool.eq_false_iff.mpr hs) (Bool.eq_false_iff.mpr hp) ?_
        rw [Mcu.handleFrame_regControl, if_neg hctl]
        exact h.running

/-- **Every sequence of events.** -/
theorem run (h : Represents m a) (es : List McuEvent) : Represents (m.run es) (a.run es) := by
  induction es generalizing m a with
  | nil => exact h
  | cons e es ih => exact ih (h.step e)

/-- **Reads of the FIFO registers answer for the queue.** -/
theorem reply {f : Frame} {w : BitVec 32} (h : Represents m a) (hr : f.isWrite = false)
    (hw : a.reply f.reg = some w) : (m.respond f).1 = w := by
  unfold Mcu.respond
  rw [if_neg (Bool.not_eq_true _ ▸ hr)]
  cases hreg : f.reg <;> rw [hreg] at hw <;>
    simp only [SampleQueue.reply, reduceCtorEq, Option.some.injEq] at hw <;> subst hw
  case fifoLevel =>
    show BitVec.ofNat 32 m.fifo.level = _
    rw [h.level]
  case overflowCount => exact h.overflow
  case dataSeq =>
    unfold Mcu.regRead Fifo.peek
    by_cases hempty : m.fifo.head = m.fifo.tail
    · rw [h.stored_nil hempty]
      simp [hempty]
    · rw [h.head hempty]
      simp [hempty]
  case dataVal =>
    unfold Mcu.regRead Fifo.peek Fifo.pop
    by_cases hpeek : m.fifo.itemPeeked = true
    · -- the latch still holds the oldest sample
      obtain ⟨x, hx, hval⟩ := h.latch hpeek
      rw [hx]
      simp only [hpeek, if_true]
      split_ifs <;> exact hval
    · by_cases hempty : m.fifo.head = m.fifo.tail
      · rw [h.stored_nil hempty]
        simp [hpeek, hempty]
      · rw [h.head hempty]
        simp [hpeek, hempty]

/-- A positive level is a FIFO that is not empty. -/
theorem nonempty (h : Represents m a) (hne : m.fifo.level ≠ 0) : m.fifo.head ≠ m.fifo.tail := by
  intro heq
  rw [h.level, h.stored_nil heq] at hne
  exact hne rfl

/-- A VAL read of a queue that is not empty. -/
theorem reply_val {f : Frame} {x : FifoItem} (h : Represents m a) (hp : f.isPop)
    (hx : a.stored.head? = some x) : (m.respond f).1 = x.value := by
  simp only [Frame.isPop, Bool.and_eq_true, Bool.not_eq_true', beq_iff_eq] at hp
  refine h.reply hp.1 ?_
  rw [hp.2]
  show some ((a.stored.head?.map FifoItem.value).getD 0) = _
  rw [hx]
  rfl

/-- A SEQ read of a queue that is not empty. -/
theorem reply_seq {f : Frame} {x : FifoItem} (h : Represents m a) (hp : f.isPeek)
    (hx : a.stored.head? = some x) : (m.respond f).1 = x.sequence := by
  simp only [Frame.isPeek, Bool.and_eq_true, Bool.not_eq_true', beq_iff_eq] at hp
  refine h.reply hp.1 ?_
  rw [hp.2]
  show some ((a.stored.head?.map FifoItem.sequence).getD 0) = _
  rw [hx]
  rfl

end Represents

/-! ## Whole runs -/

/-- A firmware state with what has happened since the last START. -/
structure McuLog where
  mcu : Mcu
  /-- The ticks that found `reg_control` bit 0 set. -/
  ticks : ℕ
  /-- The items the reads of `REG_DATA_VAL` have removed, in order. -/
  taken : List FifoItem

namespace McuLog

/-- One event, and what it adds to the log. -/
def step (l : McuLog) (e : McuEvent) : McuLog where
  mcu := l.mcu.step e
  ticks :=
    match e with
    | .tick => if l.mcu.regControl &&& 0x01#32 ≠ 0 then l.ticks + 1 else l.ticks
    | .frame f => if f.isStart then 0 else l.ticks
  taken :=
    match e with
    | .tick => l.taken
    | .frame f =>
        if f.isStart then []
        else if f.isPop ∧ l.mcu.fifo.head ≠ l.mcu.fifo.tail then
          l.taken ++ [l.mcu.fifo.buf l.mcu.fifo.tail]
        else l.taken

/-- A sequence of events. -/
def run (l : McuLog) (es : List McuEvent) : McuLog := es.foldl step l

/-- A START in any state, with an empty log. -/
def started (m : Mcu) (start : Frame) : McuLog := ⟨m.handleFrame start, 0, []⟩

end McuLog

/-- The log's counts are those of the queue. -/
structure Logs (l : McuLog) (a : SampleQueue) : Prop where
  represents : Represents l.mcu a
  ticks : l.ticks = a.ticks
  taken : l.taken = a.popped

namespace Logs

variable {l : McuLog} {a : SampleQueue}

/-- One event. -/
theorem step (h : Logs l a) (e : McuEvent) : Logs (l.step e) (a.step e) := by
  refine ⟨h.represents.step e, ?_, ?_⟩
  · cases e with
    | tick =>
        simp only [McuLog.step, SampleQueue.step, SampleQueue.tick]
        rw [h.ticks]
        simp only [h.represents.running]
        split_ifs <;> rfl
    | frame f =>
        simp only [McuLog.step, SampleQueue.step, SampleQueue.pop]
        split_ifs
        · rfl
        · exact h.ticks
        · split <;> exact h.ticks
        · exact h.ticks
  · cases e with
    | tick =>
        simp only [McuLog.step, SampleQueue.step, SampleQueue.tick]
        split_ifs <;> exact h.taken
    | frame f =>
        simp only [McuLog.step, SampleQueue.step]
        by_cases hs : f.isStart
        · rw [if_pos hs, if_pos hs]
          rfl
        rw [if_neg hs, if_neg hs]
        by_cases hp : f.isPop
        · -- the item that the firmware pops is the head of the abstract queue
          rw [if_neg (Frame.not_isControl_of_isPop hp), if_pos hp]
          unfold SampleQueue.pop
          by_cases hempty : l.mcu.fifo.head = l.mcu.fifo.tail
          · rw [if_neg (fun hc => hc.2 hempty), h.represents.stored_nil hempty]
            exact h.taken
          · have hhead := h.represents.head hempty
            rw [if_pos ⟨hp, hempty⟩]
            cases hstored : a.stored with
            | nil => rw [hstored] at hhead; cases hhead
            | cons x rest =>
                rw [hstored, List.head?_cons, Option.some.injEq] at hhead
                rw [← hhead, h.taken]
        · rw [if_neg (fun hc => hp hc.1), if_neg hp]
          split_ifs <;> exact h.taken

/-- A whole run. -/
theorem run (h : Logs l a) (es : List McuEvent) : Logs (l.run es) (a.run es) := by
  induction es generalizing l a with
  | nil => exact h
  | cons e es ih => exact ih (h.step e)

end Logs

/-- An event that may remove the oldest sample. -/
def McuEvent.removes : McuEvent → Bool
  | .tick => false
  | .frame f => f.isPop || f.isStart

namespace SampleQueue

/-- The oldest sample stays the oldest until it is removed. -/
theorem run_head {a : SampleQueue} {x : FifoItem} {es : List McuEvent}
    (hx : a.stored.head? = some x) (hes : ∀ e ∈ es, e.removes = false) :
    (a.run es).stored.head? = some x := by
  induction es generalizing a with
  | nil => exact hx
  | cons e es ih =>
      refine ih ?_ fun e' he' => hes e' (List.mem_cons_of_mem e he')
      have he := hes e List.mem_cons_self
      cases e with
      | tick =>
          simp only [step, tick]
          split_ifs
          · rw [List.head?_append, hx]
            rfl
          · exact hx
          · exact hx
      | frame f =>
          simp only [McuEvent.removes, Bool.or_eq_false_iff] at he
          simp only [step, he.1, he.2, Bool.false_eq_true, if_false]
          split_ifs <;> exact hx

end SampleQueue

/-- **The MCU FIFO refines a bounded queue.**  After a START in any state, and any sequence of
ticks and frames: the level is the number of stored samples, at most 31; the samples taken and
the samples stored are the samples 0, 1, 2, … in order; the counted ticks are the pops, the
level and the overflow count; every read of a FIFO register answers for the queue; a VAL read
answers the value of the sample it takes; and SEQ reads with no pop between answer the same. -/
theorem fifo_refines_queue (m : Mcu) (start : Frame) (hstart : start.isStart)
    (es : List McuEvent) :
    let l := (McuLog.started m start).run es
    let a := SampleQueue.started.run es
    l.mcu.fifo.level = a.stored.length ∧ a.stored.length ≤ 31 ∧ l.taken = a.popped ∧
      a.popped ++ a.stored =
        (List.range (a.popped.length + a.stored.length)).map sampleItem ∧
      BitVec.ofNat 32 l.ticks =
        BitVec.ofNat 32 (l.taken.length + l.mcu.fifo.level) + l.mcu.fifo.overflow ∧
      (∀ (f : Frame) (w : BitVec 32), f.isWrite = false → a.reply f.reg = some w →
        (l.mcu.respond f).1 = w) ∧
      (∀ (f : Frame), f.isPop → l.mcu.fifo.level ≠ 0 → ∃ x,
        (l.step (.frame f)).taken = l.taken ++ [x] ∧ (l.mcu.respond f).1 = x.value) ∧
      ∀ (f f' : Frame) (es' : List McuEvent), f.isPeek → f'.isPeek → l.mcu.fifo.level ≠ 0 →
        (∀ e ∈ es', e.removes = false) →
        ((l.mcu.run es').respond f').1 = (l.mcu.respond f).1 := by
  have hlogs : Logs ((McuLog.started m start).run es) (SampleQueue.started.run es) :=
    Logs.run ⟨.start m hstart, rfl, rfl⟩ es
  dsimp only
  -- all that is used of the run is that it ends in related states
  generalize (McuLog.started m start).run es = l at hlogs ⊢
  generalize SampleQueue.started.run es = a at hlogs ⊢
  have h := hlogs.represents
  have hlevel := h.level
  refine ⟨hlevel, h.length_le, hlogs.taken, h.items, ?_, ?_, ?_, ?_⟩
  · rw [hlogs.ticks, h.ticks, hlogs.taken, hlevel, h.overflow]
    exact BitVec.ofNat_add _ _
  · exact fun f w hr hw => h.reply hr hw
  · intro f hp hne
    have hfull := h.nonempty hne
    refine ⟨l.mcu.fifo.buf l.mcu.fifo.tail, ?_, h.reply_val hp (h.head hfull)⟩
    show (if f.isStart then [] else _) = _
    rw [if_neg (Frame.not_isStart_of_isPop hp), if_pos ⟨hp, hfull⟩]
  · intro f f' es' hf hf' hne hes'
    have hx := h.head (h.nonempty hne)
    rw [h.reply_seq hf hx, (h.run es').reply_seq hf' (SampleQueue.run_head hx hes')]

/-- Three ticks and a read of the first sample, after a START. -/
theorem fifo_refines_queue_three_ticks :
    let start := Frame.pack 0x83#8 1#32
    let es := [.tick, .tick, .tick, .frame (Frame.pack 0x07#8 0)]
    let l := (McuLog.started Mcu.powerOn start).run es
    start.isStart = true ∧ l.ticks = 3 ∧ l.taken = [⟨0, 0⟩] ∧ l.mcu.fifo.level = 2 ∧
      l.mcu.fifo.level = (SampleQueue.started.run es).stored.length := by
  have hstart : (Frame.pack 0x83#8 1#32).isStart = true := by decide
  exact ⟨hstart, by decide, by decide, by decide,
    (fifo_refines_queue Mcu.powerOn (Frame.pack 0x83#8 1#32) hstart
      [.tick, .tick, .tick, .frame (Frame.pack 0x07#8 0)]).1⟩
