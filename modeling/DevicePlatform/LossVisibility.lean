/-
# What the sequence numbers say about lost samples

Userspace detects loss by gaps in the sequence numbers.  A number is assigned in
`fifo_push`, after the test for a full FIFO, so a tick whose push is refused takes no
number: the samples around it are numbered consecutively and the loss leaves no gap
(`tick_lost_without_gap`).

`LossRun` follows every tick from the timer callback to `AcquisitionWorker`: it adds to
`DrainSys` the timer ticks, the tick of each pushed item, the ticks that were refused,
and the samples that userspace received.

* **The MCU FIFO** (`QueueInv`, in `McuFifo.lean`).  The FIFO is a window of the log of
  pushed items, and the `k`-th item has the number `k`.
* **The pipeline** (`Inv.flow`).  While no driver counter moves, the samples received,
  those in the kfifo and the one in the pass's hands are the popped part of the log.
* **The ticks** (`TickLog`).  Every decided tick was pushed or refused, and not both.

So with the driver's counters at rest the tracker never counts a gap, and the samples
received are one per tick exactly when no tick among them was refused
(`one_per_tick_iff`).
-/
import DevicePlatform.Handshake
import DevicePlatform.SampleIntegrity
import DevicePlatform.McuFifo
import Mathlib.Data.List.Induction
import Mathlib.Data.List.Nodup

/-! ## Ticks -/

namespace TimPc

/-- The callback has not yet pushed its sample or refused it. -/
def undecided : TimPc → Bool
  | .loadControl | .loadValue | .pushLoadHead _ | .pushLoadTail _ _ | .seqLoadHead _ _
  | .seqLoad _ _ _ | .seqStore _ _ _ _ | .itemSequence _ _ _ _ | .valueLoadHead _ _
  | .itemValue _ _ _ | .storeHead _ => true
  | _ => false

/-- `fifo_push` refuses the sample with its next access. -/
def refusal (q : Fifo) : TimPc → Bool
  | .pushLoadTail _ next => next == q.tail
  | _ => false

end TimPc

/-- The ticks decided so far: each was pushed or refused, and not both.  The callback in
progress belongs to the last tick. -/
structure TickLog (pc : TimPc) (ticks : ℕ) (pushed refused : List ℕ) : Prop where
  order : pushed.Pairwise (· < ·)
  cover : ∀ t, t ∈ pushed ∨ t ∈ refused ↔ t + pc.undecided.toNat < ticks
  disjoint : ∀ t ∈ pushed, t ∉ refused
  running : pc.undecided = true → 0 < ticks

namespace TickLog

variable {pc pc' : TimPc} {ticks : ℕ} {pushed refused : List ℕ}

/-- The callback moves on without deciding. -/
theorem move (h : TickLog pc ticks pushed refused) (hpc : pc'.undecided = pc.undecided) :
    TickLog pc' ticks pushed refused := by
  refine ⟨h.order, ?_, h.disjoint, ?_⟩
  · rw [hpc]
    exact h.cover
  · rw [hpc]
    exact h.running

/-- A timer interrupt begins an undecided tick. -/
theorem tick (h : TickLog .idle ticks pushed refused) :
    TickLog .loadControl (ticks + 1) pushed refused := by
  refine ⟨h.order, ?_, h.disjoint, fun _ => Nat.succ_pos ticks⟩
  intro t
  rw [h.cover t]
  simp only [TimPc.undecided, Bool.toNat_true, Bool.toNat_false]
  omega

/-- The tick in progress is later than all that were decided. -/
theorem lt_last (h : TickLog pc ticks pushed refused) (hpc : pc.undecided = true) {t : ℕ}
    (ht : t ∈ pushed ∨ t ∈ refused) : t < ticks - 1 := by
  have := (h.cover t).mp ht
  rw [hpc, Bool.toNat_true] at this
  omega

/-- The tick in progress is decided by a push. -/
theorem push (h : TickLog pc ticks pushed refused) (hpc : pc.undecided = true)
    (hpc' : pc'.undecided = false) : TickLog pc' ticks (pushed ++ [ticks - 1]) refused := by
  have hpos := h.running hpc
  refine ⟨?_, ?_, ?_, ?_⟩
  · rw [List.pairwise_append]
    refine ⟨h.order, List.pairwise_singleton _ _, ?_⟩
    intro t ht u hu
    rw [List.mem_singleton.mp hu]
    exact h.lt_last hpc (Or.inl ht)
  · intro t
    have := h.cover t
    rw [hpc, Bool.toNat_true] at this
    rw [List.mem_append, List.mem_singleton, hpc', Bool.toNat_false, or_right_comm, this]
    omega
  · intro t ht hr
    rcases List.mem_append.mp ht with hold | hnew
    · exact h.disjoint t hold hr
    · have := h.lt_last hpc (Or.inr hr)
      rw [List.mem_singleton.mp hnew] at this
      exact Nat.lt_irrefl _ this
  · rw [hpc']
    rintro ⟨⟩

/-- The tick in progress is decided by a refusal. -/
theorem refuse (h : TickLog pc ticks pushed refused) (hpc : pc.undecided = true)
    (hpc' : pc'.undecided = false) : TickLog pc' ticks pushed (refused ++ [ticks - 1]) := by
  have hpos := h.running hpc
  refine ⟨h.order, ?_, ?_, ?_⟩
  · intro t
    have := h.cover t
    rw [hpc, Bool.toNat_true] at this
    rw [List.mem_append, List.mem_singleton, hpc', Bool.toNat_false, ← or_assoc, this]
    omega
  · intro t ht hr
    rcases List.mem_append.mp hr with hold | hnew
    · exact h.disjoint t ht hold
    · have := h.lt_last hpc (Or.inl ht)
      rw [List.mem_singleton.mp hnew] at this
      exact Nat.lt_irrefl _ this
  · rw [hpc']
    rintro ⟨⟩

/-- The callback's accesses decide its tick, by a push or by a refusal. -/
theorem timStep {m : Mcu} (h : TickLog pc ticks pushed refused)
    (hctl : m.regControl &&& 0x01#32 ≠ 0) :
    TickLog (m.timStep pc).1 ticks (pushed ++ (pc.publishing m.fifo).map fun _ => ticks - 1)
      (refused ++ if pc.refusal m.fifo then [ticks - 1] else []) := by
  cases pc
  case storeHead =>
    simp only [TimPc.refusal, Bool.false_eq_true, if_false, List.append_nil]
    exact h.push rfl rfl
  all_goals simp only [TimPc.publishing, List.map_nil, List.append_nil]
  case pushLoadTail value next =>
    simp only [Mcu.timStep, TimPc.refusal, beq_iff_eq]
    split_ifs
    · exact h.refuse rfl rfl
    · rw [List.append_nil]
      exact h.move rfl
  all_goals simp only [TimPc.refusal, Bool.false_eq_true, if_false, List.append_nil]
  case loadControl =>
    simp only [Mcu.timStep, if_pos hctl]
    exact h.move rfl
  all_goals exact h.move rfl

end TickLog

/-! ## The sequence tracker -/

/-- `SequenceTracker`. -/
structure SequenceTracker where
  lastSeq : Option (BitVec 32)
  gapCount : BitVec 64
  deriving DecidableEq, Repr

namespace SequenceTracker

/-- A tracker that has seen no sample. -/
def fresh : SequenceTracker := ⟨none, 0⟩

/-- `observe`: whether the number is a gap, and the tracker after it. -/
def observe (seq : BitVec 32) (t : SequenceTracker) : Bool × SequenceTracker :=
  let isGap := t.lastSeq.any fun last => seq != last + 1
  (isGap, { lastSeq := some seq, gapCount := if isGap then t.gapCount + 1 else t.gapCount })

/-- The tracker after the samples `l`, in order. -/
def observeAll (l : List Sample) (t : SequenceTracker) : SequenceTracker :=
  l.foldl (fun t x => (t.observe x.seq).2) t

/-- Samples numbered from 0 on show no gap. -/
theorem observeAll_numbered {l : List Sample}
    (h : ∀ k x, l[k]? = some x → x.seq = BitVec.ofNat 32 k) :
    (fresh.observeAll l).gapCount = 0 ∧
      ∀ last, (fresh.observeAll l).lastSeq = some last → last + 1 = BitVec.ofNat 32 l.length := by
  induction l using List.reverseRecOn with
  | nil =>
      refine ⟨rfl, ?_⟩
      rintro last ⟨⟩
  | append_singleton l x ih =>
      have hl : ∀ k y, l[k]? = some y → y.seq = BitVec.ofNat 32 k := by
        intro k y hy
        refine h k y ?_
        obtain ⟨hk, -⟩ := List.getElem?_eq_some_iff.mp hy
        rw [List.getElem?_append_left hk]
        exact hy
      have hx : x.seq = BitVec.ofNat 32 l.length := h l.length x List.getElem?_concat_length
      obtain ⟨hgap, hlast⟩ := ih hl
      have hstep : fresh.observeAll (l ++ [x]) = ((fresh.observeAll l).observe x.seq).2 := by
        unfold observeAll
        rw [List.foldl_append, List.foldl_cons, List.foldl_nil]
      -- the number before `x` is the one below it, so `x` is no gap
      have hnone : ((fresh.observeAll l).lastSeq.any fun last => x.seq != last + 1) = false := by
        rw [Option.any_eq_false_iff_get]
        intro hs
        rw [hlast _ (Option.some_get hs).symm, hx, bne_self_eq_false]
      rw [hstep]
      refine ⟨?_, ?_⟩
      · simp only [observe, hnone]
        exact hgap
      · rintro last ⟨⟩
        rw [hx, List.length_append, List.length_singleton]
        exact (BitVec.ofNat_add l.length 1).symm

end SequenceTracker

/-! ## The run -/

/-- The system with the history of its ticks and of its samples. -/
structure LossRun where
  sys : DrainSys
  /-- Timer interrupts since the START. -/
  ticks : ℕ
  /-- The items `fifo_push` has published, each with its tick. -/
  pushed : List (FifoItem × ℕ)
  /-- The ticks whose sample `fifo_push` refused. -/
  refused : List ℕ
  /-- The samples `AcquisitionWorker` has read. -/
  received : List Sample
  tracker : SequenceTracker
  /-- `kfifo_overflow` or `policy_dropped` has moved. -/
  moved : Bool

namespace LossRun

/-- The MCU's side. -/
abbrev board (s : LossRun) : Board := s.sys.bus.board

/-- The pushed items. -/
abbrev items (s : LossRun) : List FifoItem := s.pushed.map Prod.fst

/-- The event publishes an item: the item and its tick. -/
def publishes (s : LossRun) : DrainEvent → List (FifoItem × ℕ)
  | .tim => (s.board.tim.publishing s.board.mcu.fifo).map fun x => (x, s.ticks - 1)
  | _ => []

/-- The event refuses a sample: its tick. -/
def refuses (s : LossRun) : DrainEvent → List ℕ
  | .tim => if s.board.tim.refusal s.board.mcu.fifo then [s.ticks - 1] else []
  | _ => []

/-- The samples that `AcquisitionWorker` reads with the event. -/
def reads (s : LossRun) : DrainEvent → List Sample
  | .take n => s.sys.drv.samples.take n
  | _ => []

/-- The event is a timer interrupt. -/
def isTick : DrainEvent → Bool
  | .tick => true
  | _ => false

/-- The history after a step of the system to `sys`. -/
def after (s : LossRun) (e : DrainEvent) (sys : DrainSys) : LossRun where
  sys := sys
  ticks := s.ticks + (isTick e).toNat
  pushed := s.pushed ++ s.publishes e
  refused := s.refused ++ s.refuses e
  received := s.received ++ s.reads e
  tracker := s.tracker.observeAll (s.reads e)
  moved := s.moved || (sys.drv.kfifoOverflow != s.sys.drv.kfifoOverflow ||
    sys.drv.policyDropped != s.sys.drv.policyDropped)

/-- One event. -/
def next (s : LossRun) (e : DrainEvent) : Option LossRun := (s.sys.next e).map (s.after e)

/-- The states right after a START outside a timer callback: the MCU's state before it is
arbitrary, the driver is idle with an empty kfifo, the policy newest and no fault
injection, and nothing has been received. -/
def Started (s : LossRun) : Prop :=
  ∃ (m : Mcu) (d : Driver) (t : ℕ), m.fifo.InRange ∧ d.pass = none ∧ d.samples = [] ∧
    d.params.getDropPolicy = .newest ∧ d.params.faultDropEvery = 0 ∧
    s = { sys :=
            { bus :=
                { board := ⟨m.handleFrame Board.startFrame, .idle⟩
                  lock := some ⟨t + 1, .write 0x03#8 1, true, 1, some 0⟩
                  lastLost := false
                  calls := [] }
              drv := d }
          ticks := 0
          pushed := []
          refused := []
          received := []
          tracker := SequenceTracker.fresh
          moved := false }

/-- The run, from a START on. -/
def machine : Machine LossRun DrainEvent where
  init := Started
  next := next

/-- Timer ticks, drain passes and reads only: no register operation of another thread, no
injected fault, no change of the parameters. -/
def Plain (_ : LossRun) : DrainEvent → Prop
  | .other _ _ => False
  | .injectFault => False
  | .setParams _ => False
  | _ => True

instance : ∀ (s : LossRun) (e : DrainEvent), Decidable (s.Plain e)
  | _, .other _ _ => isFalse id
  | _, .injectFault => isFalse id
  | _, .setParams _ => isFalse id
  | _, .irq _ => isTrue trivial
  | _, .call => isTrue trivial
  | _, .xfer => isTrue trivial
  | _, .tick => isTrue trivial
  | _, .tim => isTrue trivial
  | _, .pass => isTrue trivial
  | _, .take _ => isTrue trivial

/-- The ticks of the samples received: the `k`-th sample received is the `k`-th item
pushed. -/
def receivedTicks (s : LossRun) : List ℕ := (s.pushed.take s.received.length).map Prod.snd

/-- Exactly one sample was received for every tick from the first received to the last. -/
def OnePerTick (s : LossRun) : Prop :=
  ∀ a ∈ s.receivedTicks, ∀ b ∈ s.receivedTicks, ∀ t, a ≤ t → t ≤ b → s.receivedTicks.count t = 1

/-- No tick from the first received to the last was refused by a full FIFO. -/
def NoneRefused (s : LossRun) : Prop :=
  ∀ a ∈ s.receivedTicks, ∀ b ∈ s.receivedTicks, ∀ t ∈ s.refused, ¬ (a ≤ t ∧ t ≤ b)

end LossRun

/-! ## The invariant -/

/-- REG_DATA_SEQ has latched entry `lo` of the log, whose number is `seq`. -/
structure LatchedEntry (q : Fifo) (items : List FifoItem) (lo : ℕ) (seq : BitVec 32) : Prop where
  peeked : q.itemPeeked = true
  entry : ∃ x, items[lo]? = some x ∧ x.sequence = seq ∧ x.value = q.lastVal

namespace LossRun

/-- The invariant; `lo` entries of the log have been popped. -/
structure Inv (s : LossRun) (lo : ℕ) : Prop where
  armed : s.sys.Armed
  alone : ∀ h, s.sys.bus.lock = some h → h.addrSent = false → h.thread = DrainSys.irqThread
  policy : s.sys.drv.params.getDropPolicy = .newest
  noFault : s.sys.drv.params.faultDropEvery = 0
  control : s.board.mcu.regControl &&& 0x01#32 ≠ 0
  queue : QueueInv s.board.mcu.fifo s.board.tim s.items lo
  credit : s.sys.credit = true → lo < s.items.length
  latch : ∀ seq, s.sys.pinned = some seq → LatchedEntry s.board.mcu.fifo s.items lo seq
  flow : s.moved = false →
    s.received.map Sample.item ++ s.sys.drv.samples.map Sample.item ++ s.sys.paired.toList =
      s.items.take lo
  tickLog : TickLog s.board.tim s.ticks (s.pushed.map Prod.snd) s.refused
  tracking : s.tracker = SequenceTracker.fresh.observeAll s.received

variable {s : LossRun} {lo : ℕ} {sys : DrainSys} {b : Bool}

/-- A step that is neither a timer step nor a read changes the system and `moved` alone. -/
theorem after_eq {e : DrainEvent} (ht : e ≠ .tick) (hm : e ≠ .tim) (hr : ∀ n, e ≠ .take n) :
    s.after e sys = { s with
      sys := sys
      moved := s.moved || (sys.drv.kfifoOverflow != s.sys.drv.kfifoOverflow ||
        sys.drv.policyDropped != s.sys.drv.policyDropped) } := by
  cases e
  case tick => exact absurd rfl ht
  case tim => exact absurd rfl hm
  case take n => exact absurd rfl (hr n)
  all_goals simp [after, publishes, refuses, reads, isTick, SequenceTracker.observeAll]

/-- A step of the driver that leaves the board alone. -/
theorem Inv.driver (h : s.Inv lo) (harmed : sys.Armed)
    (halone : ∀ k, sys.bus.lock = some k → k.addrSent = false → k.thread = DrainSys.irqThread)
    (hparams : sys.drv.params = s.sys.drv.params) (hboard : sys.bus.board = s.board)
    (hcredit : sys.credit = true → s.sys.credit = true)
    (hpinned : ∀ seq, sys.pinned = some seq → s.sys.pinned = some seq)
    (hflow : b = false → s.received.map Sample.item ++ sys.drv.samples.map Sample.item ++
      sys.paired.toList = s.items.take lo) : Inv { s with sys := sys, moved := b } lo := by
  refine ⟨harmed, halone, ?_, ?_, ?_, ?_, ?_, ?_, hflow, ?_, h.tracking⟩
  · show sys.drv.params.getDropPolicy = _
    rw [hparams]
    exact h.policy
  · show sys.drv.params.faultDropEvery = _
    rw [hparams]
    exact h.noFault
  · show sys.bus.board.mcu.regControl &&& _ ≠ _
    rw [hboard]
    exact h.control
  · show QueueInv sys.bus.board.mcu.fifo sys.bus.board.tim _ _
    rw [hboard]
    exact h.queue
  · intro hc
    exact h.credit (hcredit hc)
  · intro seq hp
    show LatchedEntry sys.bus.board.mcu.fifo _ _ _
    rw [hboard]
    exact h.latch seq (hpinned seq hp)
  · show TickLog sys.bus.board.tim _ _ _
    rw [hboard]
    exact h.tickLog

/-- A read frame of the driver: what remains to be shown is about the FIFO, the latch and
the pass. -/
theorem Inv.frame {f : Frame} {lo' : ℕ} (h : s.Inv lo) (harmed : sys.Armed)
    (halone : ∀ k, sys.bus.lock = some k → k.addrSent = false → k.thread = DrainSys.irqThread)
    (hparams : sys.drv.params = s.sys.drv.params)
    (hboard : sys.bus.board = ⟨s.board.mcu.handleFrame f, s.board.tim⟩)
    (hw : f.isWrite = false)
    (hqueue : QueueInv (s.board.mcu.fifo.afterFrame f) s.board.tim s.items lo')
    (hcredit : sys.credit = true → lo' < s.items.length)
    (hlatch : ∀ seq, sys.pinned = some seq →
      LatchedEntry (s.board.mcu.fifo.afterFrame f) s.items lo' seq)
    (hflow : b = false → s.received.map Sample.item ++ sys.drv.samples.map Sample.item ++
      sys.paired.toList = s.items.take lo') : Inv { s with sys := sys, moved := b } lo' := by
  refine ⟨harmed, halone, ?_, ?_, ?_, ?_, hcredit, ?_, hflow, ?_, h.tracking⟩
  · show sys.drv.params.getDropPolicy = _
    rw [hparams]
    exact h.policy
  · show sys.drv.params.faultDropEvery = _
    rw [hparams]
    exact h.noFault
  · show sys.bus.board.mcu.regControl &&& _ ≠ _
    rw [hboard]
    dsimp only
    rw [Mcu.handleFrame_regControl, if_neg (by simp [Frame.isControl, hw])]
    exact h.control
  · show QueueInv sys.bus.board.mcu.fifo sys.bus.board.tim _ _
    rw [hboard]
    dsimp only
    rw [Mcu.handleFrame_fifo]
    exact hqueue
  · intro seq hp
    show LatchedEntry sys.bus.board.mcu.fifo _ _ _
    rw [hboard]
    dsimp only
    rw [Mcu.handleFrame_fifo]
    exact hlatch seq hp
  · show TickLog sys.bus.board.tim _ _ _
    rw [hboard]
    exact h.tickLog

/-- The address frame of the pass's LEVEL read: a positive level is credit. -/
theorem Inv.levelAddr {k : Holder} {errors : ℕ} {drained : BitVec 32} (h : s.Inv lo)
    (hb : b = false → s.moved = false) (hl : s.sys.bus.lock = some k)
    (hsent : k.addrSent = false) (ht : k.thread = DrainSys.irqThread)
    (hop : k.op = .read regFifoLevel) (hp : s.sys.drv.pass = some ⟨.level, errors, drained⟩) :
    Inv { s with sys := { s.sys with bus := s.sys.bus.sendAddr k false }, moved := b } lo := by
  have harmed : DrainSys.Armed { s.sys with bus := s.sys.bus.sendAddr k false } :=
    h.armed.step (.addr hl hsent)
  have hawaits : DrainSys.awaits { s.sys with bus := s.sys.bus.sendAddr k false } =
      some (BitVec.ofNat 32 s.board.mcu.fifo.level) := by
    simp only [DrainSys.awaits, SpiBus.sendAddr, Bool.false_eq_true, if_false, ht, true_and,
      if_true]
    rw [hop]
    rfl
  have hs : k.op.frame.isStart = false := by rw [hop]; rfl
  have hpop : k.op.frame.isPop = false := by rw [hop]; rfl
  refine h.frame harmed ?_ rfl rfl (by rw [hop]; rfl) (h.queue.frame_keep hs hpop) ?_ ?_ ?_
  · rintro k' ⟨⟩ ⟨⟩
  · intro hc
    refine h.queue.lt_of_nonempty ?_
    intro heq
    have hzero : s.board.mcu.fifo.level = 0 := by simp [Fifo.level, heq]
    simp [DrainSys.credit, hp, hawaits, hzero] at hc
  · intro seq hs
    simp [DrainSys.pinned, hp] at hs
  · intro hf
    have := h.flow (hb hf)
    simpa [DrainSys.paired, hp] using this

/-- The address frame of the pass's SEQ read latches the next entry. -/
theorem Inv.seqAddr {k : Holder} {errors : ℕ} {drained : BitVec 32} (h : s.Inv lo)
    (hb : b = false → s.moved = false) (hl : s.sys.bus.lock = some k)
    (hsent : k.addrSent = false) (ht : k.thread = DrainSys.irqThread)
    (hop : k.op = .read regDataSeq) (hp : s.sys.drv.pass = some ⟨.seq, errors, drained⟩) :
    Inv { s with sys := { s.sys with bus := s.sys.bus.sendAddr k false }, moved := b } lo := by
  have harmed : DrainSys.Armed { s.sys with bus := s.sys.bus.sendAddr k false } :=
    h.armed.step (.addr hl hsent)
  have hlt : lo < s.items.length := h.credit (by simp [DrainSys.credit, hp])
  have hne := h.queue.nonempty_of_lt hlt
  have hawaits : DrainSys.awaits { s.sys with bus := s.sys.bus.sendAddr k false } =
      some (s.board.mcu.fifo.buf s.board.mcu.fifo.tail).sequence := by
    simp only [DrainSys.awaits, SpiBus.sendAddr, Bool.false_eq_true, if_false, ht, true_and,
      if_true]
    rw [hop, Mcu.respond_dataSeq hne]
  have hs : k.op.frame.isStart = false := by rw [hop]; rfl
  have hpop : k.op.frame.isPop = false := by rw [hop]; rfl
  have hpeek : s.board.mcu.fifo.afterFrame k.op.frame = s.board.mcu.fifo.afterSeq := by
    rw [hop]
    rfl
  refine h.frame harmed ?_ rfl rfl (by rw [hop]; rfl) (h.queue.frame_keep hs hpop) ?_ ?_ ?_
  · rintro k' ⟨⟩ ⟨⟩
  · intro _
    exact hlt
  · intro seq hpin
    simp only [DrainSys.pinned, hp, hawaits, Option.some.injEq] at hpin
    have hlatched := Latched.afterSeq hne
    rw [hpeek]
    refine ⟨hlatched.peeked, _, h.queue.oldest hlt, hpin, ?_⟩
    rw [hlatched.value, Fifo.afterSeq_buf, Fifo.afterSeq_tail]
  · intro hf
    have := h.flow (hb hf)
    simpa [DrainSys.paired, hp] using this

/-- The address frame of the pass's VAL read pops the latched entry into the pass's
hands. -/
theorem Inv.valAddr {k : Holder} {q : BitVec 32} {errors : ℕ} {drained : BitVec 32}
    (h : s.Inv lo) (hb : b = false → s.moved = false) (hl : s.sys.bus.lock = some k)
    (hsent : k.addrSent = false) (ht : k.thread = DrainSys.irqThread)
    (hop : k.op = .read regDataVal) (hp : s.sys.drv.pass = some ⟨.val q, errors, drained⟩) :
    Inv { s with sys := { s.sys with bus := s.sys.bus.sendAddr k false }, moved := b }
      (lo + 1) := by
  have harmed : DrainSys.Armed { s.sys with bus := s.sys.bus.sendAddr k false } :=
    h.armed.step (.addr hl hsent)
  have hunsent : s.sys.awaits = none := DrainSys.awaits_of_unsent hl hsent
  have hlt : lo < s.items.length := h.credit (by simp [DrainSys.credit, hp, hunsent])
  obtain ⟨hpeeked, x, hx, hseq, hvalue⟩ := h.latch q (by simp [DrainSys.pinned, hp, hunsent])
  have hawaits : DrainSys.awaits { s.sys with bus := s.sys.bus.sendAddr k false } =
      some x.value := by
    simp only [DrainSys.awaits, SpiBus.sendAddr, Bool.false_eq_true, if_false, ht, true_and,
      if_true]
    rw [hop, Mcu.respond_dataVal hpeeked, hvalue]
  have hs : k.op.frame.isStart = false := by rw [hop]; rfl
  have hpop : k.op.frame.isPop = true := by rw [hop]; rfl
  refine h.frame harmed ?_ rfl rfl (by rw [hop]; rfl) (h.queue.frame_pop hs hpop hlt) ?_ ?_ ?_
  · rintro k' ⟨⟩ ⟨⟩
  · intro hc
    simp [DrainSys.credit, hp, hawaits] at hc
  · intro seq hpin
    simp [DrainSys.pinned, hp, hawaits] at hpin
  · intro hf
    have hflow := h.flow (hb hf)
    have hbefore : s.sys.paired = none := by simp [DrainSys.paired, hp, hunsent]
    have hafter : DrainSys.paired { s.sys with bus := s.sys.bus.sendAddr k false } = some x := by
      simp [DrainSys.paired, hp, hawaits, ← hseq]
    rw [hbefore, Option.toList_none, List.append_nil] at hflow
    rw [hafter, Option.toList_some, List.take_add_one, ← hflow, hx, Option.toList_some]

/-- The NOP frame of the pass's own read, and the pass's next point. -/
theorem Inv.reply {k : Holder} {v : BitVec 32} {p p' : Pass} (h : s.Inv lo)
    (hb : b = false → s.moved = false)
    (hl : s.sys.bus.lock = some k) (hsent : k.addrSent = true) (hv : k.computed = some v)
    (ht : k.thread = DrainSys.irqThread) (hp : s.sys.drv.pass = some p)
    (hop : p.pc.op = some k.op) (hr : p.reply s.sys.drv.irqTsNs (.ok v) = some p') :
    Inv { s with
      sys := ⟨(s.sys.bus.clock nopFrame false).ret k (.ok v), { s.sys.drv with pass := some p' }⟩
      moved := b } lo := by
  have harmed := h.armed.step (.reply hl hsent hv ht hp hop hr)
  have hawaits : s.sys.awaits = some v := (DrainSys.awaits_of_sent hl hsent ht).trans hv
  have hnone : DrainSys.awaits ⟨(s.sys.bus.clock nopFrame false).ret k (.ok v),
      { s.sys.drv with pass := some p' }⟩ = none := rfl
  have halone : ∀ k', ((s.sys.bus.clock nopFrame false).ret k (.ok v)).lock = some k' →
      k'.addrSent = false → k'.thread = DrainSys.irqThread := by
    rintro k' ⟨⟩
  have hqueue : QueueInv (s.board.mcu.fifo.afterFrame nopFrame) s.board.tim s.items lo := h.queue
  obtain ⟨pc, errors, drained⟩ := p
  cases pc <;> simp only [Pass.reply, Option.some.injEq, reduceCtorEq] at hr <;> subst hr
  case level =>
    refine h.frame harmed halone rfl rfl rfl hqueue ?_ ?_ ?_
    · intro hc
      refine h.credit ?_
      by_cases hzero : v = 0#32
      · simp [DrainSys.credit, hzero] at hc
      · simp [DrainSys.credit, hp, hawaits, hzero]
    · intro seq hpin
      by_cases hzero : v = 0
      · simp [DrainSys.pinned, hzero] at hpin
      · simp only [DrainSys.pinned, if_neg hzero] at hpin hnone
        rw [hnone] at hpin
        cases hpin
    · intro hf
      have := h.flow (hb hf)
      by_cases hzero : v = 0#32 <;> simpa [DrainSys.paired, hp, hzero] using this
  case seq =>
    refine h.frame harmed halone rfl rfl rfl hqueue ?_ ?_ ?_
    · intro _
      exact h.credit (by simp [DrainSys.credit, hp])
    · intro seq hpin
      simp only [DrainSys.pinned] at hpin hnone
      rw [hnone, if_pos rfl, Option.some.injEq] at hpin
      exact h.latch seq (by simp [DrainSys.pinned, hp, hawaits, hpin])
    · intro hf
      have := h.flow (hb hf)
      simp only [DrainSys.paired] at hnone ⊢
      rw [hnone]
      simpa [DrainSys.paired, hp] using this
  case val q =>
    refine h.frame harmed halone rfl rfl rfl hqueue ?_ ?_ ?_
    · intro hc
      simp [DrainSys.credit] at hc
    · intro seq hpin
      simp [DrainSys.pinned] at hpin
    · intro hf
      have := h.flow (hb hf)
      simpa [DrainSys.paired, hp, hawaits, Sample.item] using this

/-- The NOP frame of the START's own call. -/
theorem Inv.done {k : Holder} {r : Except Errno (BitVec 32)} (h : s.Inv lo)
    (hb : b = false → s.moved = false) (hl : s.sys.bus.lock = some k)
    (hsent : k.addrSent = true) (ht : k.thread ≠ DrainSys.irqThread) :
    Inv { s with
      sys := { s.sys with bus := (s.sys.bus.clock nopFrame false).ret k r }
      moved := b } lo := by
  have harmed := h.armed.step (.done (r := r) hl hsent ht)
  have hsame : DrainSys.awaits { s.sys with bus := (s.sys.bus.clock nopFrame false).ret k r } =
      s.sys.awaits := (DrainSys.awaits_of_other hl ht).symm
  obtain ⟨hpin, hpair⟩ := DrainSys.pinned_congr hsame rfl
  have hcredit := DrainSys.credit_congr hsame rfl
  refine h.frame harmed ?_ rfl rfl rfl h.queue ?_ ?_ ?_
  · rintro k' ⟨⟩
  · intro hc
    exact h.credit (hcredit ▸ hc)
  · intro seq hs
    exact h.latch seq (hpin ▸ hs)
  · intro hf
    rw [hpair]
    exact h.flow (hb hf)

/-- With the policy newest a sample is lost only by a refused `kfifo_put`, which moves
`kfifo_overflow`. -/
theorem store_newest {d : Driver} {x : Sample} (hpol : d.params.getDropPolicy = .newest) :
    (d.store x).params = d.params ∧
      ((d.store x).kfifoOverflow = d.kfifoOverflow → (d.store x).samples = d.samples ++ [x]) := by
  cases hfull : d.kfifoIsFull with
  | false =>
      rw [Driver.store_of_room x hfull]
      exact ⟨rfl, fun _ => rfl⟩
  | true =>
      rw [Driver.store_of_refused x hfull (by simp [hpol])]
      refine ⟨rfl, ?_⟩
      intro heq
      simp at heq

/-- A step of the pass that reads no register neither earns credit nor reads a number. -/
theorem passStep_idle {d : Driver} {p : Pass} (ha : sys.Armed) (hp : sys.drv.pass = some p)
    (hd : sys.drv.passStep p = some d) :
    DrainSys.credit { sys with drv := d } = false ∧
      DrainSys.pinned { sys with drv := d } = none := by
  have hnone : sys.awaits = none := by
    refine ha.awaits_eq_none ?_
    intro p' hp'
    rw [hp, Option.some.injEq] at hp'
    subst hp'
    by_contra hop
    obtain ⟨op, hop⟩ := Option.ne_none_iff_exists'.mp hop
    rw [Driver.passStep_of_op hop] at hd
    cases hd
  have hnone' : DrainSys.awaits { sys with drv := d } = none := hnone
  rcases Driver.passStep_pass hd with ⟨-, hend⟩ | ⟨⟨qc, qe, qd⟩, hq, hpc⟩
  · simp [DrainSys.credit, DrainSys.pinned, hend]
  · rcases hpc with rfl | ⟨x, rfl | rfl⟩ <;>
      simp [DrainSys.credit, DrainSys.pinned, hq, hnone']

/-- A step of the pass that reads no register. -/
theorem Inv.pass {p : Pass} {d : Driver} (h : s.Inv lo)
    (hb : b = false → s.moved = false ∧ d.kfifoOverflow = s.sys.drv.kfifoOverflow)
    (hp : s.sys.drv.pass = some p) (hd : s.sys.drv.passStep p = some d) :
    Inv { s with sys := { s.sys with drv := d }, moved := b } lo := by
  have harmed : DrainSys.Armed { s.sys with drv := d } := h.armed.step (.pass hp hd)
  obtain ⟨hcredit, hpinned⟩ := passStep_idle h.armed hp hd
  have hcredit' : DrainSys.credit { s.sys with drv := d } = true → s.sys.credit = true := by
    rw [hcredit]
    rintro ⟨⟩
  have hpinned' : ∀ seq, DrainSys.pinned { s.sys with drv := d } = some seq →
      s.sys.pinned = some seq := by
    rw [hpinned]
    rintro seq ⟨⟩
  obtain ⟨pc, errors, drained⟩ := p
  cases pc <;> simp only [Driver.passStep, Option.some.injEq, reduceCtorEq] at hd
  case inject x =>
    rw [if_neg (by simp [h.noFault])] at hd
    cases hd
    refine h.driver harmed h.alone rfl rfl hcredit' hpinned' ?_
    intro hf
    have := h.flow (hb hf).1
    simpa [DrainSys.paired, hp] using this
  case downsample x =>
    rw [if_neg (by simp [h.policy])] at hd
    cases hd
    refine h.driver harmed h.alone rfl rfl hcredit' hpinned' ?_
    intro hf
    have := h.flow (hb hf).1
    simpa [DrainSys.paired, hp] using this
  case store x =>
    obtain ⟨hparams, hsamples⟩ := store_newest (x := x) h.policy
    subst hd
    refine h.driver harmed h.alone hparams rfl hcredit' hpinned' ?_
    intro hf
    obtain ⟨hmoved, hsame⟩ := hb hf
    have := h.flow hmoved
    simpa [DrainSys.paired, Pass.again, hp, hsamples hsame] using this
  case finish =>
    subst hd
    refine h.driver harmed h.alone rfl rfl hcredit' hpinned' ?_
    intro hf
    have := h.flow (hb hf).1
    simpa [DrainSys.paired, hp] using this

/-- `AcquisitionWorker` reads samples. -/
theorem Inv.take (h : s.Inv lo) (n : ℕ) :
    Inv (s.after (.take n)
      { s.sys with drv := { s.sys.drv with samples := s.sys.drv.samples.drop n } }) lo := by
  have harmed := h.armed.step (.take n)
  have hpair : DrainSys.paired { s.sys with
      drv := { s.sys.drv with samples := s.sys.drv.samples.drop n } } = s.sys.paired :=
    (DrainSys.pinned_congr rfl rfl).2
  simp only [after, publishes, refuses, reads, isTick, List.append_nil, Bool.toNat_false,
    Nat.add_zero]
  refine ⟨harmed, h.alone, h.policy, h.noFault, h.control, h.queue, h.credit, h.latch, ?_,
    h.tickLog, ?_⟩
  · intro hf
    have := h.flow (Bool.or_eq_false_iff.mp hf).1
    dsimp only
    rw [hpair, List.map_append, List.append_assoc (s.received.map Sample.item), ← List.map_append,
      List.take_append_drop]
    exact this
  · rw [h.tracking]
    exact List.foldl_append.symm

/-- The timer interrupt. -/
theorem Inv.tick {c : Board} (h : s.Inv lo) (hc : s.board.next .tick = some c) :
    Inv (s.after .tick { s.sys with bus := { s.sys.bus with board := c } }) lo := by
  have harmed : DrainSys.Armed { s.sys with bus := { s.sys.bus with board := c } } :=
    h.armed.step (.tick hc)
  simp only [Board.next] at hc
  split_ifs at hc with hidle
  cases hc
  simp only [after, publishes, refuses, reads, isTick, List.append_nil, Bool.toNat_true]
  have hqueue := h.queue
  have hticks := h.tickLog
  rw [hidle] at hqueue hticks
  refine ⟨harmed, h.alone, h.policy, h.noFault, h.control, ?_, h.credit, h.latch, ?_,
    hticks.tick, h.tracking⟩
  · exact hqueue.move rfl rfl rfl hqueue.push
  · intro hf
    exact h.flow (Bool.or_eq_false_iff.mp hf).1

/-- An access of the timer callback. -/
theorem Inv.tim {c : Board} (h : s.Inv lo) (hc : s.board.next .tim = some c) :
    Inv (s.after .tim { s.sys with bus := { s.sys.bus with board := c } }) lo := by
  have harmed : DrainSys.Armed { s.sys with bus := { s.sys.bus with board := c } } :=
    h.armed.step (.tim hc)
  simp only [Board.next] at hc
  split_ifs at hc
  cases hc
  obtain ⟨hpeeked, -, hval, hctl⟩ := s.board.mcu.timStep_latch s.board.tim
  have hitems : (s.pushed ++ s.publishes .tim).map Prod.fst =
      s.items ++ s.board.tim.publishing s.board.mcu.fifo := by
    simp [publishes, Function.comp_def]
  have hticks : (s.pushed ++ s.publishes .tim).map Prod.snd = s.pushed.map Prod.snd ++
      (s.board.tim.publishing s.board.mcu.fifo).map fun _ => s.ticks - 1 := by
    simp [publishes, Function.comp_def]
  have hgrow : ∀ (k : ℕ) (x : FifoItem), s.items[k]? = some x →
      (s.items ++ s.board.tim.publishing s.board.mcu.fifo)[k]? = some x := by
    intro k x hx
    obtain ⟨hk, -⟩ := List.getElem?_eq_some_iff.mp hx
    rw [List.getElem?_append_left hk]
    exact hx
  refine ⟨harmed, h.alone, h.policy, h.noFault, ?_, ?_, ?_, ?_, ?_, ?_, ?_⟩
  · show (s.board.mcu.timStep s.board.tim).2.regControl &&& _ ≠ _
    rw [hctl]
    exact h.control
  · show QueueInv _ _ ((s.pushed ++ s.publishes .tim).map Prod.fst) _
    rw [hitems]
    exact h.queue.timStep
  · intro hcr
    have := h.credit hcr
    show lo < ((s.pushed ++ s.publishes .tim).map Prod.fst).length
    rw [hitems, List.length_append]
    omega
  · intro seq hs
    obtain ⟨hp, x, hx, hseq, hv⟩ := h.latch seq hs
    refine ⟨hpeeked.trans hp, x, ?_, hseq, hv.trans hval.symm⟩
    show ((s.pushed ++ s.publishes .tim).map Prod.fst)[lo]? = some x
    rw [hitems]
    exact hgrow lo x hx
  · intro hf
    have := h.flow (Bool.or_eq_false_iff.mp hf).1
    show (s.received ++ []).map Sample.item ++ _ ++ _ =
      ((s.pushed ++ s.publishes .tim).map Prod.fst).take lo
    rw [hitems, List.take_append_of_le_length h.queue.le, List.append_nil]
    exact this
  · show TickLog _ s.ticks ((s.pushed ++ s.publishes .tim).map Prod.snd) _
    rw [hticks]
    exact h.tickLog.timStep h.control
  · show s.tracker = SequenceTracker.fresh.observeAll (s.received ++ [])
    rw [List.append_nil]
    exact h.tracking

/-- **Step lemma.**  Every step of a plain run keeps the invariant. -/
theorem Inv.next {s' : LossRun} {e : DrainEvent} (h : s.Inv lo) (hok : s.Plain e)
    (hn : s.next e = some s') : ∃ lo', s'.Inv lo' := by
  obtain ⟨sys, hsys, rfl⟩ := Option.map_eq_some_iff.mp hn
  have hstep := DrainSys.step_of_next h.armed hsys
  have harmed := h.armed.step hstep
  have hb : ∀ c : Bool, (s.moved || c) = false → s.moved = false :=
    fun c hf => (Bool.or_eq_false_iff.mp hf).1
  cases hstep with
  | irq ts hp =>
      refine ⟨lo, ?_⟩
      rw [after_eq (by rintro ⟨⟩) (by rintro ⟨⟩) (by rintro n ⟨⟩)]
      have hnone : s.sys.awaits = none := by
        refine h.armed.awaits_eq_none ?_
        intro p hp'
        rw [hp] at hp'
        cases hp'
      have hnone' : DrainSys.awaits { s.sys with drv := { s.sys.drv with
          irqTsNs := ts, pass := some Pass.begin } } = none := hnone
      refine h.driver harmed h.alone rfl rfl ?_ ?_ ?_
      · intro hc
        simp only [DrainSys.credit, Pass.begin] at hc hnone'
        rw [hnone'] at hc
        cases hc
      · simp [DrainSys.pinned, Pass.begin]
      · intro hf
        have := h.flow (hb _ hf)
        simpa [DrainSys.paired, Pass.begin, hp] using this
  | @call p op hp hop hl =>
      refine ⟨lo, ?_⟩
      rw [after_eq (by rintro ⟨⟩) (by rintro ⟨⟩) (by rintro n ⟨⟩)]
      have hsame : DrainSys.awaits { s.sys with bus := { s.sys.bus with
          lock := some ⟨DrainSys.irqThread, op, false, 0, none⟩ } } = s.sys.awaits :=
        (DrainSys.awaits_of_unsent rfl rfl).trans (DrainSys.awaits_of_free hl).symm
      obtain ⟨hpin, hpair⟩ := DrainSys.pinned_congr hsame rfl
      refine h.driver harmed ?_ rfl rfl ?_ ?_ ?_
      · rintro k ⟨⟩ -
        rfl
      · rw [DrainSys.credit_congr hsame rfl]
        exact id
      · intro seq hs
        exact hpin ▸ hs
      · intro hf
        rw [hpair]
        exact h.flow (hb _ hf)
  | other => exact hok.elim
  | faultPass => exact hok.elim
  | faultOther => exact hok.elim
  | @addr k hl hsent =>
      rw [after_eq (by rintro ⟨⟩) (by rintro ⟨⟩) (by rintro n ⟨⟩)]
      have ht := h.alone k hl hsent
      obtain ⟨⟨pc, errors, drained⟩, hp, hop⟩ := h.armed.holder k hl ht
      cases pc <;> simp only [PassPc.op, Option.some.injEq, reduceCtorEq] at hop
      · exact ⟨lo, h.levelAddr (hb _) hl hsent ht hop.symm hp⟩
      · exact ⟨lo, h.seqAddr (hb _) hl hsent ht hop.symm hp⟩
      · exact ⟨lo + 1, h.valAddr (hb _) hl hsent ht hop.symm hp⟩
  | reply hl hsent hv ht hp hop hr =>
      rw [after_eq (by rintro ⟨⟩) (by rintro ⟨⟩) (by rintro n ⟨⟩)]
      exact ⟨lo, h.reply (hb _) hl hsent hv ht hp hop hr⟩
  | done hl hsent ht =>
      rw [after_eq (by rintro ⟨⟩) (by rintro ⟨⟩) (by rintro n ⟨⟩)]
      exact ⟨lo, h.done (hb _) hl hsent ht⟩
  | tick hc => exact ⟨lo, h.tick hc⟩
  | tim hc => exact ⟨lo, h.tim hc⟩
  | pass hp hd =>
      rw [after_eq (by rintro ⟨⟩) (by rintro ⟨⟩) (by rintro n ⟨⟩)]
      refine ⟨lo, h.pass ?_ hp hd⟩
      intro hf
      obtain ⟨hmoved, hcount⟩ := Bool.or_eq_false_iff.mp hf
      exact ⟨hmoved, bne_eq_false_iff_eq.mp (Bool.or_eq_false_iff.mp hcount).1⟩
  | setParams => exact hok.elim
  | take n => exact ⟨lo, h.take n⟩

/-- The invariant holds right after a START. -/
theorem inv_of_started (h : s.Started) : s.Inv 0 := by
  obtain ⟨m, d, t, hq, hd, hsamples, hpol, hfault, rfl⟩ := h
  have hfifo : (m.handleFrame Board.startFrame).fifo = m.fifo.reset := by
    rw [Mcu.handleFrame_fifo]
    rfl
  refine ⟨⟨?_, ?_⟩, ?_, hpol, hfault, ?_, ?_, ?_, ?_, ?_, ⟨?_, ?_, ?_, ?_⟩, rfl⟩
  · rintro k ⟨⟩ -
    exact ⟨0, rfl, rfl⟩
  · rintro k ⟨⟩ ht
    cases ht
  · rintro k ⟨⟩ ⟨⟩
  · show (m.handleFrame Board.startFrame).regControl &&& 0x01#32 ≠ 0
    rw [Mcu.handleFrame_regControl, if_pos (by decide)]
    decide
  · show QueueInv (m.handleFrame Board.startFrame).fifo .idle [] 0
    rw [hfifo]
    exact QueueInv.reset rfl
  · intro hc
    simp [DrainSys.credit, hd] at hc
  · intro seq hs
    simp [DrainSys.pinned, hd] at hs
  · intro _
    simp [DrainSys.paired, hd, hsamples, items]
  · exact List.Pairwise.nil
  · intro t
    simp
  · rintro t ⟨⟩
  · rintro ⟨⟩

/-! ## Loss and gaps -/

/-- The samples received are the first entries of the log, so their numbers show no gap. -/
theorem Inv.received_eq (h : s.Inv lo) (hmoved : s.moved = false) :
    s.received.map Sample.item = (s.pushed.take s.received.length).map Prod.fst := by
  have hpre : s.received.map Sample.item <+: s.items := by
    refine List.IsPrefix.trans ?_ (List.take_prefix lo s.items)
    rw [← h.flow hmoved, List.append_assoc]
    exact List.prefix_append _ _
  rw [List.map_take, List.prefix_iff_eq_take.mp hpre, List.length_map]

theorem Inv.gapCount_eq_zero (h : s.Inv lo) (hmoved : s.moved = false) :
    s.tracker.gapCount = 0 := by
  rw [h.tracking]
  refine (SequenceTracker.observeAll_numbered ?_).1
  intro k x hx
  refine h.queue.numbered k x.item ?_
  have hitem : (s.received.map Sample.item)[k]? = some x.item := by
    rw [List.getElem?_map, hx]
    rfl
  obtain ⟨hk, -⟩ := List.getElem?_eq_some_iff.mp hx
  rw [h.received_eq hmoved, List.map_take, List.getElem?_take_of_lt hk] at hitem
  exact hitem

/-- The received ticks are the first of the pushed ones, in order. -/
theorem receivedTicks_append (s : LossRun) :
    s.pushed.map Prod.snd =
      s.receivedTicks ++ (s.pushed.drop s.received.length).map Prod.snd := by
  unfold receivedTicks
  rw [← List.map_append, List.take_append_drop]

/-- The samples received are one per tick just when no tick among them was refused. -/
theorem Inv.onePerTick_iff (h : s.Inv lo) : s.OnePerTick ↔ s.NoneRefused := by
  have hlog := h.tickLog
  rw [receivedTicks_append s] at hlog
  obtain ⟨hsorted, -, hlater⟩ := List.pairwise_append.mp hlog.order
  constructor
  · intro hone a ha b hb t ht hab
    have hcount := hone a ha b hb t hab.1 hab.2
    have hmem : t ∈ s.receivedTicks := List.count_pos_iff.mp (by omega)
    exact hlog.disjoint t (List.mem_append_left _ hmem) ht
  · intro hnone a ha b hb t hat htb
    have hbound := (hlog.cover b).mp (Or.inl (List.mem_append_left _ hb))
    rcases (hlog.cover t).mpr (by omega) with hpushed | hrefused
    · rcases List.mem_append.mp hpushed with hmem | hrest
      · refine List.count_eq_one_of_mem ?_ hmem
        exact hsorted.imp Nat.ne_of_lt
      · -- a tick that has not been received yet is later than `b`
        have := hlater b hb t hrest
        omega
    · exact absurd ⟨hat, htb⟩ (hnone a ha b hb t hrefused)

/-- **What the sequence numbers say.**  In every run of ticks, passes and reads in which no
driver counter moves, the samples received are the first items pushed, in order, the
tracker counts no gap, and they are exactly one per tick just when no tick among them was
refused by a full MCU FIFO. -/
theorem one_per_tick_iff {s : LossRun} (h : machine.Reach Plain s) (hmoved : s.moved = false) :
    s.received.map Sample.item = (s.pushed.take s.received.length).map Prod.fst ∧
      s.tracker.gapCount = 0 ∧ (s.OnePerTick ↔ s.NoneRefused) := by
  have hinv : ∃ lo, s.Inv lo := by
    refine h.invariant (P := fun s => ∃ lo, s.Inv lo) ?_ ?_
    · intro s hs
      exact ⟨0, inv_of_started hs⟩
    · rintro s e s' ⟨lo, hs⟩ hok hn
      exact hs.next hok hn
  obtain ⟨lo, hinv⟩ := hinv
  exact ⟨hinv.received_eq hmoved, hinv.gapCount_eq_zero hmoved, hinv.onePerTick_iff⟩

/-- The events of a timer interrupt and its whole callback when its sample is refused; when it is
pushed, they are `Traced.sampleTick`. -/
def refuseTick : List DrainEvent := .tick :: List.replicate 10 .tim

/-- The events of one iteration of the drain loop. -/
def drainOne : List DrainEvent :=
  [.call, .xfer, .xfer, .call, .xfer, .xfer, .call, .xfer, .xfer, .pass, .pass, .pass]

/-- Right after the first START, with the driver's default parameters. -/
def start : LossRun where
  sys :=
    { bus :=
        { board := ⟨Mcu.powerOn.handleFrame Board.startFrame, .idle⟩
          lock := some ⟨1, .write 0x03#8 1, true, 1, some 0⟩
          lastLost := false
          calls := [] }
      drv := Driver.probe Params.default }
  ticks := 0
  pushed := []
  refused := []
  received := []
  tracker := SequenceTracker.fresh
  moved := false

theorem started_start : Started start :=
  ⟨Mcu.powerOn, Driver.probe Params.default, 0, ⟨by decide, by decide⟩, rfl, rfl, by decide, rfl,
    rfl⟩

/-- Two ticks are pushed, drained and received: one sample per tick. -/
theorem one_per_tick_iff_two_ticks :
    ∃ s : LossRun, s.moved = false ∧ s.receivedTicks = [0, 1] ∧
      s.received.map Sample.item = (s.pushed.take s.received.length).map Prod.fst ∧
        s.tracker.gapCount = 0 ∧ (s.OnePerTick ↔ s.NoneRefused) := by
  have h : machine.exec Plain start
      (List.flatten [[.xfer], Traced.sampleTick, Traced.sampleTick, [.irq 0], drainOne, [.take 1],
        drainOne, [.take 1]]) = some _ := rfl
  exact ⟨_, rfl, rfl, one_per_tick_iff (Machine.reach_of_exec started_start h) rfl⟩

/-- **A tick is lost without a gap.**  31 ticks fill the FIFO, the next one is refused; the
FIFO is drained, one more tick is pushed and drained.  The tracker sees the numbers 0 to
31 without a gap and no driver counter has moved, but tick 31 has no sample. -/
theorem tick_lost_without_gap :
    ¬ ∀ s : LossRun, machine.Reach Plain s → s.moved = false → s.tracker.gapCount = 0 →
      s.OnePerTick := by
  intro hall
  have h : (machine.exec Plain start
      (List.flatten [[.xfer], (List.replicate 31 Traced.sampleTick).flatten, refuseTick, [.irq 0],
        (List.replicate 31 drainOne).flatten, Traced.sampleTick, drainOne, [.take 32]])).map
      (fun s => (s.moved, s.tracker.gapCount, s.receivedTicks)) =
        some (false, 0, List.range 31 ++ [32]) := by
    decide +kernel
  obtain ⟨s, hs, hsum⟩ := Option.map_eq_some_iff.mp h
  simp only [Prod.mk.injEq] at hsum
  obtain ⟨hmoved, hgap, hticks⟩ := hsum
  have hone := hall s (Machine.reach_of_exec started_start hs) hmoved hgap
  rw [OnePerTick, hticks] at hone
  have hcount := hone 30 (by decide) 32 (by decide) 31 (by omega) (by omega)
  exact absurd hcount (by decide)

end LossRun
