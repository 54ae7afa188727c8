/-
# Sample integrity across SPI

A sample crosses the bus as two register reads: REG_DATA_SEQ latches the oldest
item and returns its sequence number, REG_DATA_VAL returns the latched value and
pops the item.  `spi_lock` covers one register at a time, so another thread's
operation can fall between the two, and the latch does not survive a START or
somebody else's REG_DATA_VAL (`torn_sample_by_data_val`).

`Traced` adds to `DrainSys` the list of pairs that `fifo_push` has stored.
`divides` names the frames after which a pair may be torn:

* a START or a REG_DATA_VAL of another thread while the pass holds a sequence
  number without its value;
* the pass's own REG_DATA_SEQ on an empty FIFO;
* a START inside `fifo_push`, between the two loads of `fifo_head` that its new head
  and its slot come from.

`samples_stored` proves that in every run without them each sample in the kfifo is a
pair that one `fifo_push` stored.  The invariant has three layers: every slot the
reader can reach holds a stored pair (`Stored`), the latch holds the item that the
pass has read the sequence number of (`Latched`), and so the pass's sample is a
stored pair (`Inv`).
-/
import DevicePlatform.DrainLoop

/-! ## Stored pairs in the FIFO -/

/-- The pair that the callback stores with its next access to `.sequence`. -/
def TimPc.storing : TimPc → List FifoItem
  | .itemSequence value _ _ seq => [⟨seq, value⟩]
  | _ => []

/-- `next` is the head that a push into a FIFO with room publishes. -/
def Fifo.Room (q : Fifo) (next : ℕ) : Prop :=
  next = (q.head + 1) % fifoDepth ∧ next ≠ q.tail

/-- The callback is writing `slot` and will publish `next`: the slot is the head's, or the
FIFO has been reset since and nothing in it can be read. -/
def Fifo.Publishes (q : Fifo) (next slot : ℕ) : Prop :=
  slot < fifoDepth ∧ next = (slot + 1) % fifoDepth ∧
    (slot = q.head ∧ next ≠ q.tail ∨ q.head = 0 ∧ q.tail = 0)

/-- What a push in progress has stored so far. -/
def TimPc.Pushing (q : Fifo) (pushed : List FifoItem) : TimPc → Prop
  | .pushLoadTail _ next => next = (q.head + 1) % fifoDepth
  | .seqLoadHead _ next => q.Room next
  | .seqLoad _ next slot => q.Room next ∧ slot = q.head
  | .seqStore _ next slot _ => q.Room next ∧ slot = q.head
  | .itemSequence _ next slot _ => q.Room next ∧ slot = q.head
  | .valueLoadHead value next => q.Room next ∧ ⟨(q.buf q.head).sequence, value⟩ ∈ pushed
  | .itemValue value next slot =>
      q.Publishes next slot ∧ (∀ k < slot, q.buf k ∈ pushed) ∧
        ⟨(q.buf slot).sequence, value⟩ ∈ pushed
  | .storeHead next => ∃ slot, q.Publishes next slot ∧ ∀ k ≤ slot, q.buf k ∈ pushed
  | _ => True

/-- Every slot that can be read holds a stored pair. -/
structure Stored (q : Fifo) (pc : TimPc) (pushed : List FifoItem) : Prop where
  range : q.InRange
  low : ∀ k < q.head, q.buf k ∈ pushed
  high : q.head < q.tail → ∀ k, q.tail ≤ k → k < fifoDepth → q.buf k ∈ pushed
  push : pc.Pushing q pushed

namespace Stored

variable {q : Fifo} {pc : TimPc} {pushed : List FifoItem}

/-- The oldest item is a stored pair. -/
theorem oldest (h : Stored q pc pushed) (hne : q.head ≠ q.tail) : q.buf q.tail ∈ pushed := by
  rcases Nat.lt_or_gt_of_ne hne with hlt | hgt
  · exact h.high hlt q.tail (Nat.le_refl _) h.range.2
  · exact h.low q.tail hgt

/-- A step of the callback that writes neither an index nor a slot. -/
theorem move {q' : Fifo} {pc' : TimPc} (h : Stored q pc pushed) (hbuf : q'.buf = q.buf)
    (hhead : q'.head = q.head) (htail : q'.tail = q.tail) (hpush : pc'.Pushing q pushed) :
    Stored q' pc' pushed := by
  refine ⟨?_, ?_, ?_, ?_⟩
  · unfold Fifo.InRange
    rw [hhead, htail]
    exact h.range
  · rw [hbuf, hhead]
    exact h.low
  · rw [hbuf, hhead, htail]
    exact h.high
  · cases pc' <;>
      simp only [TimPc.Pushing, Fifo.Room, Fifo.Publishes, hbuf, hhead, htail] at hpush ⊢ <;>
      exact hpush

/-- The store to `.sequence`: the pair is recorded, and its slot cannot be read yet. -/
theorem itemSequence {value seq : BitVec 32} {next slot : ℕ}
    (h : Stored q (.itemSequence value next slot seq) pushed) :
    Stored { q with buf := Function.update q.buf slot { q.buf slot with sequence := seq } }
      (.valueLoadHead value next) (pushed ++ [⟨seq, value⟩]) := by
  obtain ⟨hroom, rfl⟩ := h.push
  refine ⟨h.range, ?_, ?_, ?_⟩
  · intro k hk
    dsimp only at hk ⊢
    rw [Function.update_of_ne (by omega)]
    exact List.mem_append_left _ (h.low k hk)
  · intro hlt k hk hd
    dsimp only at hlt hk ⊢
    rw [Function.update_of_ne (by omega)]
    exact List.mem_append_left _ (h.high hlt k hk hd)
  · refine ⟨hroom, ?_⟩
    dsimp only
    rw [Function.update_self]
    exact List.mem_append_right _ (List.mem_singleton.mpr rfl)

/-- The store to `.value` completes the pair. -/
theorem itemValue {value : BitVec 32} {next slot : ℕ}
    (h : Stored q (.itemValue value next slot) pushed) :
    Stored { q with buf := Function.update q.buf slot { q.buf slot with value := value } }
      (.storeHead next) pushed := by
  obtain ⟨hpub, hlow, hpair⟩ := h.push
  -- the slot is the head's, or nothing can be read at all
  have hfree : ∀ k, (k < q.head ∨ q.head < q.tail ∧ q.tail ≤ k) → k ≠ slot := by
    rintro k hk rfl
    obtain ⟨-, -, ⟨hslot, -⟩ | ⟨hh, ht⟩⟩ := hpub <;> omega
  refine ⟨h.range, ?_, ?_, slot, hpub, ?_⟩
  · intro k hk
    dsimp only at hk ⊢
    rw [Function.update_of_ne (hfree k (Or.inl hk))]
    exact h.low k hk
  · intro hlt k hk hd
    dsimp only at hlt hk ⊢
    rw [Function.update_of_ne (hfree k (Or.inr ⟨hlt, hk⟩))]
    exact h.high hlt k hk hd
  · intro k hk
    dsimp only
    rcases Nat.lt_or_eq_of_le hk with hlt | rfl
    · rw [Function.update_of_ne (by omega)]
      exact hlow k hlt
    · rw [Function.update_self]
      exact hpair

/-- `fifo_head = next` makes the pair readable. -/
theorem storeHead {next : ℕ} (h : Stored q (.storeHead next) pushed) :
    Stored { q with head := next } .readyLoadHead pushed := by
  obtain ⟨slot, ⟨hslot, rfl, hpub⟩, hall⟩ := h.push
  have hhigh := h.high
  obtain ⟨hh, ht⟩ := h.range
  simp only [fifoDepth] at *
  refine ⟨⟨by simp only [fifoDepth]; omega, ht⟩, ?_, ?_, trivial⟩
  · intro k hk
    dsimp only at hk
    exact hall k (by omega)
  · intro hlt k hk hd
    dsimp only at hlt hk ⊢
    simp only [fifoDepth] at hd
    by_cases hk' : k ≤ slot
    · exact hall k hk'
    · exact hhigh (by omega) k hk hd

/-- The callback's accesses keep every readable slot a stored pair. -/
theorem timStep {m : Mcu} (h : Stored m.fifo pc pushed) :
    Stored (m.timStep pc).2.fifo (m.timStep pc).1 (pushed ++ pc.storing) := by
  cases pc
  case itemSequence => exact h.itemSequence
  all_goals simp only [TimPc.storing, List.append_nil]
  case itemValue => exact h.itemValue
  case storeHead => exact h.storeHead
  case loadControl =>
    refine h.move rfl rfl rfl ?_
    simp only [Mcu.timStep]
    split_ifs <;> trivial
  case pushLoadTail value next =>
    refine h.move rfl rfl rfl ?_
    simp only [Mcu.timStep]
    split_ifs with heq
    · trivial
    · exact ⟨h.push, heq⟩
  case seqLoadHead => exact h.move rfl rfl rfl ⟨h.push, rfl⟩
  case valueLoadHead value next =>
    obtain ⟨⟨hnext, hroom⟩, hpair⟩ := h.push
    exact h.move rfl rfl rfl ⟨⟨h.range.1, hnext, Or.inl ⟨rfl, hroom⟩⟩, h.low, hpair⟩
  case seqLoad => exact h.move rfl rfl rfl h.push
  case seqStore => exact h.move rfl rfl rfl h.push
  case pushLoadHead => exact h.move rfl rfl rfl rfl
  all_goals
    refine h.move rfl rfl rfl ?_
    trivial

/-- The points of `fifo_push` at which a START tears the push: between the loads of
`fifo_head` that the new head and the slot come from. -/
def insidePush : TimPc → Bool
  | .pushLoadTail _ _ | .seqLoadHead _ _ | .seqLoad _ _ _ | .seqStore _ _ _ _
  | .itemSequence _ _ _ _ | .valueLoadHead _ _ => true
  | _ => false

/-- A START outside these points resets the FIFO; a push in progress goes on with a slot
that nobody can read. -/
theorem reset (h : Stored q pc pushed) (hpc : insidePush pc = false) :
    Stored q.reset pc pushed := by
  have hzero : 0 < fifoDepth := by decide
  refine ⟨⟨hzero, hzero⟩, ?_, ?_, ?_⟩
  · intro k hk
    exact absurd hk (Nat.not_lt_zero k)
  · intro hlt
    exact absurd hlt (Nat.not_lt_zero _)
  · have hp := h.push
    cases pc
    case itemValue value next slot =>
      obtain ⟨⟨hslot, hnext, -⟩, hrest⟩ := hp
      exact ⟨⟨hslot, hnext, Or.inr ⟨rfl, rfl⟩⟩, hrest⟩
    case storeHead next =>
      obtain ⟨slot, ⟨hslot, hnext, -⟩, hrest⟩ := hp
      exact ⟨slot, ⟨hslot, hnext, Or.inr ⟨rfl, rfl⟩⟩, hrest⟩
    all_goals trivial

/-- Moving the tail past the oldest item leaves the rest readable. -/
theorem pop {q' : Fifo} (h : Stored q pc pushed) (hbuf : q'.buf = q.buf)
    (hhead : q'.head = q.head) (hne : q.head ≠ q.tail)
    (htail : q'.tail = (q.tail + 1) % fifoDepth) : Stored q' pc pushed := by
  obtain ⟨hh, ht⟩ := h.range
  have hhigh := h.high
  refine ⟨⟨hhead ▸ hh, by rw [htail]; exact Nat.mod_lt _ (by decide)⟩, ?_, ?_, ?_⟩
  · rw [hbuf, hhead]
    exact h.low
  · rw [hbuf, hhead, htail]
    intro hlt k hk hd
    simp only [fifoDepth] at *
    exact hhigh (by omega) k (by omega) hd
  · have hp := h.push
    -- a push with room keeps its room, and a reset FIFO has nothing to pop
    have hroom : ∀ next, q.Room next → q'.Room next := by
      rintro next ⟨hnext, hr⟩
      refine ⟨by rw [hhead]; exact hnext, ?_⟩
      rw [htail, hnext]
      simp only [fifoDepth] at *
      omega
    have hpub : ∀ next slot, q.Publishes next slot → q'.Publishes next slot := by
      rintro next slot ⟨hslot, hnext, ⟨rfl, hr⟩ | ⟨h0, h0'⟩⟩
      · exact ⟨hslot, hnext, Or.inl ⟨hhead.symm, (hroom next ⟨hnext, hr⟩).2⟩⟩
      · omega
    cases pc <;> simp only [TimPc.Pushing, hbuf, hhead] at hp ⊢
    case pushLoadTail => exact hp
    case seqLoadHead => exact hroom _ hp
    case seqLoad => exact ⟨hroom _ hp.1, hp.2⟩
    case seqStore => exact ⟨hroom _ hp.1, hp.2⟩
    case itemSequence => exact ⟨hroom _ hp.1, hp.2⟩
    case valueLoadHead => exact ⟨hroom _ hp.1, hp.2⟩
    case itemValue => exact ⟨hpub _ _ hp.1, hp.2⟩
    case storeHead =>
      obtain ⟨slot, hp, hall⟩ := hp
      exact ⟨slot, hpub _ _ hp, hall⟩

/-- A frame keeps every readable slot a stored pair, unless it is a START that tears a
push. -/
theorem frame {f : Frame} (h : Stored q pc pushed)
    (hs : f.isStart = true → insidePush pc = false) : Stored (q.afterFrame f) pc pushed := by
  unfold Fifo.afterFrame
  split_ifs with hstart hpop hpeek
  · exact h.reset (hs hstart)
  · by_cases hne : q.head = q.tail
    · refine h.move q.afterVal_buf q.afterVal_head ?_ h.push
      rw [Fifo.afterVal_tail, if_pos hne]
    · refine h.pop q.afterVal_buf q.afterVal_head hne ?_
      rw [Fifo.afterVal_tail, if_neg hne]
  · exact h.move q.afterSeq_buf q.afterSeq_head q.afterSeq_tail h.push
  · exact h

end Stored

/-! ## The latch -/

/-- The latch holds the oldest item, whose sequence number is `seq`. -/
structure Latched (q : Fifo) (seq : BitVec 32) : Prop where
  peeked : q.itemPeeked = true
  nonempty : q.head ≠ q.tail
  sequence : (q.buf q.tail).sequence = seq
  value : q.lastVal = (q.buf q.tail).value

namespace Latched

variable {q : Fifo} {seq : BitVec 32}

/-- REG_DATA_SEQ on a nonempty FIFO latches the oldest item. -/
theorem afterSeq (hne : q.head ≠ q.tail) : Latched q.afterSeq (q.buf q.tail).sequence := by
  have hq : q.afterSeq = { q with
      lastSeq := (q.buf q.tail).sequence
      lastVal := (q.buf q.tail).value
      itemPeeked := true } := by
    simp [Fifo.afterSeq, Fifo.peek, Fifo.nonempty, hne]
  rw [hq]
  exact ⟨rfl, hne, rfl, rfl⟩

/-- A frame that neither starts nor pops leaves the latch as it is. -/
theorem frame {f : Frame} (h : Latched q seq) (hs : f.isStart = false) (hp : f.isPop = false) :
    Latched (q.afterFrame f) seq := by
  unfold Fifo.afterFrame
  rw [if_neg (by simp [hs]), if_neg (by simp [hp])]
  split_ifs
  · rw [← h.sequence]
    exact afterSeq h.nonempty
  · exact h

/-- The callback writes no slot that can be read. -/
theorem timStep {m : Mcu} {pc : TimPc} {pushed : List FifoItem} (h : Latched m.fifo seq)
    (hst : Stored m.fifo pc pushed) : Latched (m.timStep pc).2.fifo seq := by
  obtain ⟨hpk, hne, hseq, hval⟩ := h
  have hpush := hst.push
  cases pc
  case itemSequence value next slot s =>
    obtain ⟨-, rfl⟩ := hpush
    refine ⟨hpk, hne, ?_, ?_⟩
    · simp only [Mcu.timStep]
      rw [Function.update_of_ne hne.symm]
      exact hseq
    · simp only [Mcu.timStep]
      rw [Function.update_of_ne hne.symm]
      exact hval
  case itemValue value next slot =>
    obtain ⟨⟨-, -, ⟨rfl, -⟩ | ⟨h0, h0'⟩⟩, -⟩ := hpush
    · refine ⟨hpk, hne, ?_, ?_⟩
      · simp only [Mcu.timStep]
        rw [Function.update_of_ne hne.symm]
        exact hseq
      · simp only [Mcu.timStep]
        rw [Function.update_of_ne hne.symm]
        exact hval
    · exact absurd (h0.trans h0'.symm) hne
  case storeHead next =>
    obtain ⟨slot, ⟨-, -, ⟨-, hroom⟩ | ⟨h0, h0'⟩⟩, -⟩ := hpush
    · exact ⟨hpk, hroom, hseq, hval⟩
    · exact absurd (h0.trans h0'.symm) hne
  all_goals exact ⟨hpk, hne, hseq, hval⟩

end Latched

/-- The reply to REG_DATA_SEQ on a nonempty FIFO. -/
theorem Mcu.respond_dataSeq {m : Mcu} (hne : m.fifo.head ≠ m.fifo.tail) :
    (m.respond (RegOp.read regDataSeq).frame).1 = (m.fifo.buf m.fifo.tail).sequence := by
  show (m.regRead .dataSeq).1 = _
  simp [Mcu.regRead, Fifo.peek, hne]

/-- The reply to REG_DATA_VAL after a REG_DATA_SEQ. -/
theorem Mcu.respond_dataVal {m : Mcu} (hp : m.fifo.itemPeeked = true) :
    (m.respond (RegOp.read regDataVal).frame).1 = m.fifo.lastVal := by
  show (m.regRead .dataVal).1 = _
  simp only [Mcu.regRead, hp, if_true, Fifo.pop]
  split_ifs <;> rfl

/-! ## The system with its stored pairs -/

/-- The pair of a sample. -/
def Sample.item (x : Sample) : FifoItem := ⟨x.seq, x.value⟩

/-- The system and the pairs that `fifo_push` has stored. -/
structure Traced where
  sys : DrainSys
  pushed : List FifoItem

namespace DrainSys

/-- The sequence number the pass has read and not yet paired with a value. -/
def pinned (s : DrainSys) : Option (BitVec 32) :=
  match s.drv.pass with
  | some ⟨.seq, _, _⟩ => s.awaits
  | some ⟨.val seq, _, _⟩ => if s.awaits = none then some seq else none
  | _ => none

/-- The pair the pass has read and not yet stored or dropped. -/
def paired (s : DrainSys) : Option FifoItem :=
  match s.drv.pass with
  | some ⟨.val seq, _, _⟩ => s.awaits.map fun value => ⟨seq, value⟩
  | some ⟨.inject x, _, _⟩ => some x.item
  | some ⟨.downsample x, _, _⟩ => some x.item
  | some ⟨.store x, _, _⟩ => some x.item
  | _ => none

/-- The next frame may tear a pair. -/
def divides (s : DrainSys) : Bool :=
  match s.bus.lock with
  | some h =>
      !h.addrSent &&
        (if h.thread = irqThread then
          h.op == .read regDataSeq && !s.bus.board.mcu.fifo.nonempty
        else
          (h.op.frame.isStart || h.op.frame.isPop) && s.pinned.isSome ||
            h.op.frame.isStart && Stored.insidePush s.bus.board.tim)
  | none => false

/-- What is pinned and paired depends on the pass and on what it awaits. -/
theorem pinned_congr {s s' : DrainSys} (ha : s'.awaits = s.awaits)
    (hp : s'.drv.pass = s.drv.pass) : s'.pinned = s.pinned ∧ s'.paired = s.paired := by
  unfold pinned paired
  rw [hp, ha]
  exact ⟨rfl, rfl⟩

end DrainSys

namespace Traced

/-- One event, and the pair it stores. -/
def next (s : Traced) (e : DrainEvent) : Option Traced :=
  (s.sys.next e).map fun sys =>
    { sys := sys
      pushed :=
        match e with
        | .tim => s.pushed ++ s.sys.bus.board.tim.storing
        | _ => s.pushed }

/-- The system from power-on of the board, with any parameters of the driver. -/
def machine : Machine Traced DrainEvent where
  init s := ∃ params,
    s = ⟨⟨⟨Board.powerOn, none, false, []⟩, Driver.probe params⟩, []⟩
  next := next

/-- The condition on a step: it is no frame that may tear a pair. -/
def Whole (s : Traced) (e : DrainEvent) : Prop := e = .xfer → s.sys.divides = false

instance : ∀ (s : Traced) (e : DrainEvent), Decidable (s.Whole e) :=
  fun s e => inferInstanceAs (Decidable (e = .xfer → s.sys.divides = false))

/-! ## The invariant -/

/-- The invariant: readable slots hold stored pairs, the latch holds the item whose
sequence number the pass has read, and the pair in the pass's hands and those in the
kfifo are stored ones. -/
structure Inv (s : Traced) : Prop where
  armed : s.sys.Armed
  stored : Stored s.sys.bus.board.mcu.fifo s.sys.bus.board.tim s.pushed
  latch : ∀ seq, s.sys.pinned = some seq → Latched s.sys.bus.board.mcu.fifo seq
  pair : ∀ x, s.sys.paired = some x → x ∈ s.pushed
  kfifo : ∀ x ∈ s.sys.drv.samples, x.item ∈ s.pushed

end Traced

/-- Storing a sample adds at most that sample to the kfifo. -/
theorem Driver.mem_store {d : Driver} {s x : Sample} (h : x ∈ (d.store s).samples) :
    x ∈ d.samples ∨ x = s := by
  cases hfull : d.kfifoIsFull with
  | false =>
      rw [Driver.store_of_room s hfull] at h
      simpa using h
  | true =>
      by_cases hpolicy : d.params.getDropPolicy = .oldest
      · rw [Driver.store_of_evicted s hfull hpolicy] at h
        rcases List.mem_append.mp h with hx | hx
        · exact Or.inl (List.mem_of_mem_tail hx)
        · exact Or.inr (List.mem_singleton.mp hx)
      · rw [Driver.store_of_refused s hfull hpolicy] at h
        exact Or.inl h

namespace Traced

variable {s : Traced}

/-- A step that touches neither the board nor the kfifo. -/
theorem Inv.driver {sys : DrainSys} (h : s.Inv) (harmed : sys.Armed)
    (hboard : sys.bus.board = s.sys.bus.board)
    (hpinned : ∀ seq, sys.pinned = some seq → s.sys.pinned = some seq)
    (hpaired : ∀ x, sys.paired = some x → s.sys.paired = some x)
    (hkfifo : ∀ x ∈ sys.drv.samples, x.item ∈ s.pushed) : Inv ⟨sys, s.pushed⟩ := by
  refine ⟨harmed, ?_, ?_, ?_, hkfifo⟩
  · rw [hboard]
    exact h.stored
  · intro seq hp
    rw [hboard]
    exact h.latch seq (hpinned seq hp)
  · intro x hx
    exact h.pair x (hpaired x hx)

/-- A step after which the pass, the awaited word and the kfifo are the same. -/
theorem Inv.same {sys : DrainSys} (h : s.Inv) (harmed : sys.Armed)
    (hboard : sys.bus.board = s.sys.bus.board) (hpass : sys.drv.pass = s.sys.drv.pass)
    (hawaits : sys.awaits = s.sys.awaits)
    (hkfifo : ∀ x ∈ sys.drv.samples, x ∈ s.sys.drv.samples) : Inv ⟨sys, s.pushed⟩ := by
  obtain ⟨hpin, hpair⟩ := DrainSys.pinned_congr hawaits hpass
  refine h.driver harmed hboard ?_ ?_ (fun x hx => h.kfifo x (hkfifo x hx))
  · intro seq hs
    exact hpin ▸ hs
  · intro x hx
    exact hpair ▸ hx

/-- A frame: what remains to be shown is about the latch and the pass. -/
theorem Inv.frame {sys : DrainSys} {f : Frame} (h : s.Inv) (harmed : sys.Armed)
    (hboard : sys.bus.board =
      ⟨s.sys.bus.board.mcu.handleFrame f, s.sys.bus.board.tim⟩)
    (hstart : f.isStart = true → Stored.insidePush s.sys.bus.board.tim = false)
    (hlatch : ∀ seq, sys.pinned = some seq →
      Latched (s.sys.bus.board.mcu.fifo.afterFrame f) seq)
    (hpair : ∀ x, sys.paired = some x → x ∈ s.pushed)
    (hsamples : sys.drv.samples = s.sys.drv.samples) : Inv ⟨sys, s.pushed⟩ := by
  refine ⟨harmed, ?_, ?_, hpair, ?_⟩
  · rw [hboard]
    show Stored (s.sys.bus.board.mcu.handleFrame f).fifo _ _
    rw [Mcu.handleFrame_fifo]
    exact h.stored.frame hstart
  · intro seq hp
    rw [hboard]
    show Latched (s.sys.bus.board.mcu.handleFrame f).fifo _
    rw [Mcu.handleFrame_fifo]
    exact hlatch seq hp
  · rw [hsamples]
    exact h.kfifo

/-- The address frame of another thread's operation. -/
theorem Inv.otherAddr {k : Holder} (h : s.Inv) (hok : s.sys.divides = false)
    (hl : s.sys.bus.lock = some k) (hsent : k.addrSent = false)
    (ht : k.thread ≠ DrainSys.irqThread) :
    Inv ⟨{ s.sys with bus := s.sys.bus.sendAddr k false }, s.pushed⟩ := by
  have harmed : DrainSys.Armed { s.sys with bus := s.sys.bus.sendAddr k false } :=
    h.armed.step (.addr hl hsent)
  have hsame : DrainSys.awaits { s.sys with bus := s.sys.bus.sendAddr k false } =
      s.sys.awaits := by
    rw [DrainSys.awaits_of_unsent hl hsent]
    apply DrainSys.awaits_eq_none
    rintro k' ⟨⟩ -
    exact ht
  obtain ⟨hpin, hpair⟩ := DrainSys.pinned_congr hsame rfl
  simp only [DrainSys.divides, hl, hsent, Bool.not_false, Bool.true_and, if_neg ht,
    Bool.or_eq_false_iff, Bool.and_eq_false_imp, Bool.or_eq_true] at hok
  refine h.frame harmed rfl hok.2 ?_ ?_ rfl
  · intro seq hs
    rw [hpin] at hs
    have hnot : k.op.frame.isStart = false ∧ k.op.frame.isPop = false := by
      have := hok.1
      rw [hs] at this
      simpa using this
    exact (h.latch seq hs).frame hnot.1 hnot.2
  · intro x hx
    exact h.pair x (hpair ▸ hx)

/-- The address frame of the pass's own read. -/
theorem Inv.passAddr {k : Holder} (h : s.Inv) (hok : s.sys.divides = false)
    (hl : s.sys.bus.lock = some k) (hsent : k.addrSent = false)
    (ht : k.thread = DrainSys.irqThread) :
    Inv ⟨{ s.sys with bus := s.sys.bus.sendAddr k false }, s.pushed⟩ := by
  have harmed : DrainSys.Armed { s.sys with bus := s.sys.bus.sendAddr k false } :=
    h.armed.step (.addr hl hsent)
  have hunsent := DrainSys.awaits_of_unsent hl hsent
  have hawaits : DrainSys.awaits { s.sys with bus := s.sys.bus.sendAddr k false } =
      some (s.sys.bus.board.mcu.respond k.op.frame).1 := by
    simp [DrainSys.awaits, SpiBus.sendAddr, ht]
  simp only [DrainSys.divides, hl, hsent, Bool.not_false, Bool.true_and, if_pos ht,
    Bool.and_eq_false_imp, beq_iff_eq] at hok
  obtain ⟨⟨pc, errors, drained⟩, hp, hop⟩ := h.armed.holder k hl ht
  cases pc <;> simp only [PassPc.op, Option.some.injEq, reduceCtorEq] at hop
  case level =>
    refine h.frame harmed rfl (by rw [← hop]; rintro ⟨⟩) ?_ ?_ rfl
    · intro seq hs
      simp [DrainSys.pinned, hp] at hs
    · intro x hx
      simp [DrainSys.paired, hp] at hx
  case seq =>
    -- the FIFO is not empty, so the oldest item is latched and its number returned
    have hne : s.sys.bus.board.mcu.fifo.head ≠ s.sys.bus.board.mcu.fifo.tail := by
      have := hok hop.symm
      simpa [Fifo.nonempty] using this
    refine h.frame harmed rfl (by rw [← hop]; rintro ⟨⟩) ?_ ?_ rfl
    · intro seq hs
      simp only [DrainSys.pinned, hp, hawaits, Option.some.injEq] at hs
      rw [← hs, ← hop, Mcu.respond_dataSeq hne]
      exact Latched.afterSeq hne
    · intro x hx
      simp [DrainSys.paired, hp] at hx
  case val seq =>
    -- the latched value belongs to the sequence number that was read
    have hlatch := h.latch seq (by simp [DrainSys.pinned, hp, hunsent])
    refine h.frame harmed rfl (by rw [← hop]; rintro ⟨⟩) ?_ ?_ rfl
    · intro seq' hs
      simp [DrainSys.pinned, hp, hawaits] at hs
    · intro x hx
      simp only [DrainSys.paired, hp, hawaits, Option.map_some, Option.some.injEq] at hx
      rw [← hx, ← hop, Mcu.respond_dataVal hlatch.peeked, hlatch.value, ← hlatch.sequence]
      exact h.stored.oldest hlatch.nonempty

/-- The NOP frame of the pass's own read, and the pass's next point. -/
theorem Inv.reply {k : Holder} {v : BitVec 32} {p p' : Pass} (h : s.Inv)
    (hl : s.sys.bus.lock = some k) (hsent : k.addrSent = true) (hv : k.computed = some v)
    (ht : k.thread = DrainSys.irqThread) (hp : s.sys.drv.pass = some p)
    (hop : p.pc.op = some k.op) (hr : p.reply s.sys.drv.irqTsNs (.ok v) = some p') :
    Inv ⟨⟨(s.sys.bus.clock nopFrame false).ret k (.ok v), { s.sys.drv with pass := some p' }⟩,
      s.pushed⟩ := by
  have harmed := h.armed.step (.reply hl hsent hv ht hp hop hr)
  have hawaits : s.sys.awaits = some v := (DrainSys.awaits_of_sent hl hsent ht).trans hv
  have hnone : DrainSys.awaits ⟨(s.sys.bus.clock nopFrame false).ret k (.ok v),
      { s.sys.drv with pass := some p' }⟩ = none := rfl
  obtain ⟨pc, errors, drained⟩ := p
  cases pc <;> simp only [Pass.reply, Option.some.injEq, reduceCtorEq] at hr <;> subst hr
  case level =>
    refine h.frame harmed rfl (by rintro ⟨⟩) ?_ ?_ rfl
    · intro seq hs
      by_cases hzero : v = 0
      · simp [DrainSys.pinned, hzero] at hs
      · simp only [DrainSys.pinned, if_neg hzero] at hs hnone
        rw [hnone] at hs
        cases hs
    · intro x hx
      by_cases hzero : v = 0#32 <;> simp [DrainSys.paired, hzero] at hx
  case seq =>
    -- the number that was awaited is the one the pass goes on with
    refine h.frame harmed rfl (by rintro ⟨⟩) ?_ ?_ rfl
    · intro seq hs
      simp only [DrainSys.pinned] at hs hnone
      rw [hnone, if_pos rfl, Option.some.injEq] at hs
      subst hs
      exact (h.latch v (by simp [DrainSys.pinned, hp, hawaits])).frame rfl rfl
    · intro x hx
      simp only [DrainSys.paired] at hx hnone
      rw [hnone] at hx
      cases hx
  case val seq =>
    refine h.frame harmed rfl (by rintro ⟨⟩) ?_ ?_ rfl
    · intro seq hs
      simp [DrainSys.pinned] at hs
    · intro x hx
      simp only [DrainSys.paired, Sample.item, Option.some.injEq] at hx
      refine h.pair x ?_
      simp [DrainSys.paired, hp, hawaits, hx]

/-- The NOP frame of another thread's operation. -/
theorem Inv.done {k : Holder} {r : Except Errno (BitVec 32)} (h : s.Inv)
    (hl : s.sys.bus.lock = some k) (hsent : k.addrSent = true)
    (ht : k.thread ≠ DrainSys.irqThread) :
    Inv ⟨{ s.sys with bus := (s.sys.bus.clock nopFrame false).ret k r }, s.pushed⟩ := by
  have harmed := h.armed.step (.done (r := r) hl hsent ht)
  have hsame : DrainSys.awaits { s.sys with bus := (s.sys.bus.clock nopFrame false).ret k r } =
      s.sys.awaits := (DrainSys.awaits_of_other hl ht).symm
  obtain ⟨hpin, hpair⟩ := DrainSys.pinned_congr hsame rfl
  refine h.frame harmed rfl (by rintro ⟨⟩) ?_ ?_ rfl
  · intro seq hs
    exact (h.latch seq (hpin ▸ hs)).frame rfl rfl
  · intro x hx
    exact h.pair x (hpair ▸ hx)

/-- A step of the pass that reads no register. -/
theorem Inv.pass {p : Pass} {d : Driver} (h : s.Inv) (hp : s.sys.drv.pass = some p)
    (hd : s.sys.drv.passStep p = some d) : Inv ⟨{ s.sys with drv := d }, s.pushed⟩ := by
  have harmed : DrainSys.Armed { s.sys with drv := d } := h.armed.step (.pass hp hd)
  obtain ⟨pc, errors, drained⟩ := p
  cases pc <;> simp only [Driver.passStep, Option.some.injEq, reduceCtorEq] at hd
  case inject x =>
    split_ifs at hd <;> cases hd
    · refine h.driver harmed rfl ?_ ?_ h.kfifo
      · simp [DrainSys.pinned, Pass.again]
      · simp [DrainSys.paired, Pass.again]
    · refine h.driver harmed rfl ?_ ?_ h.kfifo
      · simp [DrainSys.pinned]
      · simp [DrainSys.paired, hp]
  case downsample x =>
    split_ifs at hd <;> cases hd
    · refine h.driver harmed rfl ?_ ?_ h.kfifo
      · simp [DrainSys.pinned, Pass.again]
      · simp [DrainSys.paired, Pass.again]
    · refine h.driver harmed rfl ?_ ?_ h.kfifo
      · simp [DrainSys.pinned]
      · simp [DrainSys.paired, hp]
    · refine h.driver harmed rfl ?_ ?_ h.kfifo
      · simp [DrainSys.pinned]
      · simp [DrainSys.paired, hp]
  case store x =>
    subst hd
    refine h.driver harmed rfl ?_ ?_ ?_
    · simp [DrainSys.pinned, Pass.again]
    · simp [DrainSys.paired, Pass.again]
    · intro y hy
      rcases Driver.mem_store hy with hold | rfl
      · exact h.kfifo y hold
      · exact h.pair y.item (by simp [DrainSys.paired, hp])
  case finish =>
    subst hd
    refine h.driver harmed rfl ?_ ?_ h.kfifo
    · simp [DrainSys.pinned]
    · simp [DrainSys.paired]

/-- An access of the timer callback. -/
theorem Inv.tim {b : Board} (h : s.Inv) (hb : s.sys.bus.board.next .tim = some b) :
    Inv ⟨{ s.sys with bus := { s.sys.bus with board := b } },
      s.pushed ++ s.sys.bus.board.tim.storing⟩ := by
  have harmed : DrainSys.Armed { s.sys with bus := { s.sys.bus with board := b } } :=
    h.armed.step (.tim hb)
  simp only [Board.next] at hb
  split_ifs at hb
  cases hb
  refine ⟨harmed, h.stored.timStep, ?_, ?_, ?_⟩
  · intro seq hs
    exact (h.latch seq hs).timStep h.stored
  · intro x hx
    exact List.mem_append_left _ (h.pair x hx)
  · intro x hx
    exact List.mem_append_left _ (h.kfifo x hx)

/-- The timer interrupt. -/
theorem Inv.tick {b : Board} (h : s.Inv) (hb : s.sys.bus.board.next .tick = some b) :
    Inv ⟨{ s.sys with bus := { s.sys.bus with board := b } }, s.pushed⟩ := by
  have harmed : DrainSys.Armed { s.sys with bus := { s.sys.bus with board := b } } :=
    h.armed.step (.tick hb)
  simp only [Board.next] at hb
  split_ifs at hb
  cases hb
  exact ⟨harmed, h.stored.move rfl rfl rfl trivial, h.latch, h.pair, h.kfifo⟩

/-- **Step lemma.**  Every step that tears no pair keeps the invariant. -/
theorem Inv.next {s' : Traced} {e : DrainEvent} (h : s.Inv) (hok : s.Whole e)
    (hn : s.next e = some s') : s'.Inv := by
  obtain ⟨sys, hsys, rfl⟩ := Option.map_eq_some_iff.mp hn
  have hstep := DrainSys.step_of_next h.armed hsys
  have harmed := h.armed.step hstep
  cases hstep with
  | irq ts hp =>
      refine h.driver harmed rfl ?_ ?_ h.kfifo
      · simp [DrainSys.pinned, Pass.begin]
      · simp [DrainSys.paired, Pass.begin]
  | call hp hop hl =>
      refine h.same harmed rfl rfl ?_ (fun _ hx => hx)
      exact (DrainSys.awaits_of_unsent rfl rfl).trans (DrainSys.awaits_of_free hl).symm
  | other t op hl =>
      refine h.same harmed rfl rfl ?_ (fun _ hx => hx)
      exact (DrainSys.awaits_of_unsent rfl rfl).trans (DrainSys.awaits_of_free hl).symm
  | @faultPass k p hl hsent ht hp hop =>
      refine h.driver harmed rfl ?_ ?_ h.kfifo
      · intro seq hs
        simp only [DrainSys.pinned, Pass.fail] at hs
        split_ifs at hs
      · intro x hx
        simp only [DrainSys.paired, Pass.fail] at hx
        split_ifs at hx
  | faultOther hl hsent ht =>
      refine h.same harmed rfl rfl ?_ (fun _ hx => hx)
      exact (DrainSys.awaits_of_free rfl).trans (DrainSys.awaits_of_unsent hl hsent).symm
  | @addr k hl hsent =>
      by_cases ht : k.thread = DrainSys.irqThread
      · exact h.passAddr (hok rfl) hl hsent ht
      · exact h.otherAddr (hok rfl) hl hsent ht
  | reply hl hsent hv ht hp hop hr => exact h.reply hl hsent hv ht hp hop hr
  | done hl hsent ht => exact h.done hl hsent ht
  | tick hb => exact h.tick hb
  | tim hb => exact h.tim hb
  | pass hp hd => exact h.pass hp hd
  | setParams q => exact h.same harmed rfl rfl rfl (fun _ hx => hx)
  | take n => exact h.same harmed rfl rfl rfl (fun _ hx => List.mem_of_mem_drop hx)

/-- **Sample integrity.**  In every run in which no frame may tear a pair, every sample in
the kfifo is a pair that one `fifo_push` stored. -/
theorem samples_stored {s : Traced} (h : machine.Reach Whole s) :
    ∀ x ∈ s.sys.drv.samples, (⟨x.seq, x.value⟩ : FifoItem) ∈ s.pushed := by
  have hinv : s.Inv := by
    refine h.invariant ?_ ?_
    · rintro s ⟨params, rfl⟩
      refine ⟨DrainSys.armed_of_free rfl,
        ⟨Board.wellIndexed_powerOn.1, ?_, ?_, trivial⟩, ?_, ?_, ?_⟩
      · intro k hk
        exact absurd hk (Nat.not_lt_zero k)
      · intro hlt
        exact absurd hlt (Nat.not_lt_zero _)
      · intro seq hs
        cases hs
      · intro x hx
        cases hx
      · intro x hx
        cases hx
    · intro s e s' hs hok hn
      exact hs.next hok hn
  exact hinv.kfifo

/-- The events of a register operation of another thread. -/
def otherOp (op : RegOp) : List DrainEvent := [.other 0 op, .xfer, .xfer]

/-- The events of a register read of the pass. -/
def passOp : List DrainEvent := [.call, .xfer, .xfer]

/-- The events of a timer interrupt and its whole callback. -/
def sampleTick : List DrainEvent := .tick :: List.replicate 15 .tim

/-- The system from power-on, with the driver's default parameters. -/
def powerOn : Traced :=
  ⟨⟨⟨Board.powerOn, none, false, []⟩, Driver.probe Params.default⟩, []⟩

/-- After a START and two ticks, a pass reads the first sample while another thread reads
the FIFO level between the two registers. -/
theorem samples_stored_undisturbed :
    ∃ s : Traced, s.sys.drv.samples = [⟨0, 0, 7⟩] ∧
      ∀ x ∈ s.sys.drv.samples, (⟨x.seq, x.value⟩ : FifoItem) ∈ s.pushed := by
  have h : machine.exec Whole powerOn
      (List.flatten [otherOp (.write 0x03#8 1), sampleTick, sampleTick, [.irq 7], passOp, passOp,
        otherOp (.read regFifoLevel), passOp, [.pass, .pass, .pass]]) = some _ := rfl
  exact ⟨_, rfl, samples_stored (Machine.reach_of_exec ⟨_, rfl⟩ h)⟩

/-- **A sample can be torn.**  Between the two reads of the pass another thread reads
REG_DATA_VAL (the `data_val` attribute): it takes the first item, and the pass pairs the
first sequence number with the second item's value. -/
theorem torn_sample_by_data_val :
    ¬ ∀ s : Traced, machine.Reach Machine.Always s →
      ∀ x ∈ s.sys.drv.samples, (⟨x.seq, x.value⟩ : FifoItem) ∈ s.pushed := by
  intro hall
  have h : machine.exec Machine.Always powerOn
      (List.flatten [otherOp (.write 0x03#8 1), sampleTick, sampleTick, [.irq 7], passOp, passOp,
        otherOp (.read regDataVal), passOp, [.pass, .pass, .pass]]) = some _ := rfl
  have hx := hall _ (Machine.reach_of_exec ⟨_, rfl⟩ h) ⟨0, 1, 7⟩ (List.mem_singleton.mpr rfl)
  exact absurd hx (by decide)

end Traced
