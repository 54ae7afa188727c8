/-
# The soft reset

A START clears the FIFO and the sequence counter, also while the acquisition runs.  The frame
handler that does so may preempt the timer callback anywhere, and the callback keeps its locals.

`SoftReset` runs the board with a record of where the samples come from.  `starts` counts the
STARTs; each word of a slot carries the number of STARTs that had been handled when the tick that
stored it occurred; and `reads` lists the items read through REG_DATA_SEQ and REG_DATA_VAL since
the last START.

* `clean_after_start`: in every run in which no START is handled between a tick and its callback's
  store to `fifo_head`, the reads since the last START are of samples of ticks after it, with the
  sequence numbers 0, 1, 2, … in order.
* `old_samples_resurrected`: a START handled just before the callback stores `fifo_head` brings
  the samples from before the START back.
-/
import DevicePlatform.McuFifo

/-! ## The record -/

/-- For each word of an item, the STARTs handled before the tick that stored it. -/
structure Stamp where
  sequence : ℕ
  value : ℕ
  deriving DecidableEq, Repr

/-- An item read by a frame. -/
structure ItemRead where
  item : FifoItem
  stamp : Stamp
  /-- The frame read REG_DATA_VAL and so removed the item. -/
  pop : Bool
  deriving DecidableEq, Repr

/-- The board with the record. -/
structure SoftReset where
  board : Board
  /-- The STARTs handled. -/
  starts : ℕ
  /-- The STARTs handled when the last tick occurred. -/
  tickStart : ℕ
  /-- Where the words of `fifo_buf` come from. -/
  stamps : ℕ → Stamp
  /-- Where `last_seq` and `last_val` come from. -/
  latch : Stamp
  /-- The items read since the last START. -/
  reads : List ItemRead

/-- The stamps after the callback's next access. -/
def TimPc.stamp (tickStart : ℕ) (stamps : ℕ → Stamp) : TimPc → ℕ → Stamp
  | .itemSequence _ _ slot _ =>
      Function.update stamps slot { stamps slot with sequence := tickStart }
  | .itemValue _ _ slot => Function.update stamps slot { stamps slot with value := tickStart }
  | _ => stamps

namespace SoftReset

/-- A frame that is no START.  A SEQ frame latches the oldest item, if there is one, and so does a
VAL frame that finds no item latched; what is latched then is what the frame reads. -/
def readFrame (f : Frame) (s : SoftReset) : SoftReset :=
  let q := s.board.mcu.fifo
  let board := { s.board with mcu := s.board.mcu.handleFrame f }
  if f.isPop ∧ q.itemPeeked = true then
    { s with
      board := board
      reads := s.reads ++ [⟨⟨q.lastSeq, q.lastVal⟩, s.latch, true⟩] }
  else if (f.isPop ∨ f.isPeek) ∧ q.head ≠ q.tail then
    { s with
      board := board
      latch := s.stamps q.tail
      reads := s.reads ++ [⟨q.buf q.tail, s.stamps q.tail, f.isPop⟩] }
  else { s with board := board }

/-- One event of the board. -/
def next (s : SoftReset) (e : BoardEvent) : Option SoftReset :=
  (s.board.next e).map fun board =>
    match e with
    | .tick => { s with board := board, tickStart := s.starts }
    | .tim => { s with board := board, stamps := s.board.tim.stamp s.tickStart s.stamps }
    | .frame f =>
        if f.isStart then { s with board := board, starts := s.starts + 1, reads := [] }
        else s.readFrame f
    | .spiError => { s with board := board }

/-- Power-on, with nothing recorded. -/
def powerOn : SoftReset := ⟨Board.powerOn, 0, 0, fun _ => ⟨0, 0⟩, ⟨0, 0⟩, []⟩

/-- The recorded board as a machine. -/
def machine : Machine SoftReset BoardEvent where
  init s := s = powerOn
  next := next

/-- The sequence numbers of the reads are `n`, `n + 1`, … in order, one more after each pop. -/
def InOrder : ℕ → List ItemRead → Prop
  | _, [] => True
  | n, r :: rest =>
      r.item.sequence = BitVec.ofNat 32 n ∧ InOrder (if r.pop then n + 1 else n) rest

/-- Every item read since the last START is from a tick after it, and they come in order. -/
def Clean (s : SoftReset) : Prop :=
  (∀ r ∈ s.reads, r.stamp = ⟨s.starts, s.starts⟩) ∧ InOrder 0 s.reads

instance InOrder.decidable : ∀ (n : ℕ) (l : List ItemRead), Decidable (InOrder n l)
  | _, [] => isTrue trivial
  | n, r :: rest =>
      have := InOrder.decidable (if r.pop then n + 1 else n) rest
      inferInstanceAs (Decidable (_ ∧ _))

instance (s : SoftReset) : Decidable s.Clean := inferInstanceAs (Decidable (_ ∧ _))

/-- One more read. -/
theorem InOrder.concat {r : ItemRead} : ∀ {n : ℕ} {l : List ItemRead}, InOrder n l →
    r.item.sequence = BitVec.ofNat 32 (n + l.countP ItemRead.pop) → InOrder n (l ++ [r])
  | n, [], _, hr => ⟨hr, trivial⟩
  | n, r' :: rest, h, hr => by
      refine ⟨h.1, InOrder.concat h.2 ?_⟩
      rw [hr, List.countP_cons]
      cases r'.pop
      · rfl
      · simp only [if_true]
        rw [Nat.add_assoc, Nat.add_comm 1]

/-! ## The invariant -/

end SoftReset

namespace TimPc

/-- No push is in progress: the callback will not store `fifo_head` any more. -/
def quiet : TimPc → Bool
  | .idle => true
  | .overflowLoad => true
  | .overflowStore _ => true
  | .readyLoadHead => true
  | .readyLoadTail _ => true
  | .readyWrite _ => true
  | .toggleMark => true
  | _ => false

/-- Such a callback agrees with a FIFO that has just been reset. -/
theorem Producing.of_quiet {q : Fifo} {pc : TimPc} (h : pc.quiet = true) :
    pc.Producing q.reset 0 0 := by
  cases pc <;> first
    | exact rfl
    | cases h

/-- What a push in progress has stored of entry `n`, and where it comes from. -/
def Stamping (stamps : ℕ → Stamp) (tickStart starts n : ℕ) : TimPc → Prop
  | .valueLoadHead _ _ =>
      tickStart = starts ∧ (stamps (n % fifoDepth)).sequence = starts
  | .itemValue _ _ _ =>
      tickStart = starts ∧ (stamps (n % fifoDepth)).sequence = starts
  | .storeHead _ => stamps (n % fifoDepth) = ⟨starts, starts⟩
  | pc => pc.quiet = false → tickStart = starts

/-- Nothing is to be said about a callback that pushes no more. -/
theorem Stamping.of_quiet {stamps : ℕ → Stamp} {tickStart starts n : ℕ} {pc : TimPc}
    (h : pc.quiet = true) : pc.Stamping stamps tickStart starts n := by
  cases pc
  case valueLoadHead => cases h
  case itemValue => cases h
  case storeHead => cases h
  all_goals
    intro hq
    rw [h] at hq
    cases hq

end TimPc

/-- The entries of the window come from ticks after the last START, and so does a push in
progress. -/
structure Stamped (stamps : ℕ → Stamp) (tickStart starts : ℕ) (pc : TimPc) (n lo : ℕ) :
    Prop where
  window : ∀ k, lo ≤ k → k < n → stamps (k % fifoDepth) = ⟨starts, starts⟩
  push : pc.Stamping stamps tickStart starts n

namespace Stamped

variable {stamps : ℕ → Stamp} {tickStart starts n lo : ℕ} {pc : TimPc}

/-- An access that stores no word. -/
theorem move {pc' : TimPc} (h : Stamped stamps tickStart starts pc n lo)
    (hpush : pc'.Stamping stamps tickStart starts n) : Stamped stamps tickStart starts pc' n lo :=
  ⟨h.window, hpush⟩

/-- A store to the slot of the next entry. -/
theorem write {x : Stamp} {pc' : TimPc} (h : Stamped stamps tickStart starts pc n lo)
    (hroom : n - lo < fifoDepth)
    (hpush : pc'.Stamping (Function.update stamps (n % fifoDepth) x) tickStart starts n) :
    Stamped (Function.update stamps (n % fifoDepth) x) tickStart starts pc' n lo := by
  refine ⟨?_, hpush⟩
  intro k hlo hk
  rw [Function.update_of_ne (mod_ne_of_window hk (by omega))]
  exact h.window k hlo hk

/-- The callback's accesses. -/
theorem timStep {m : Mcu} {items : List FifoItem} (hq : QueueInv m.fifo pc items lo)
    (h : Stamped stamps tickStart starts pc items.length lo) :
    Stamped (pc.stamp tickStart stamps) tickStart starts (m.timStep pc).1
      (items ++ pc.publishing m.fifo).length lo := by
  have hpush := h.push
  -- three accesses matter: the two stores to the slot, and the one that publishes it
  cases pc
  case storeHead next =>
    refine ⟨?_, .of_quiet rfl⟩
    intro k hlo hk
    simp only [TimPc.publishing, List.length_append, List.length_singleton] at hk
    rcases Nat.lt_or_eq_of_le (Nat.le_of_lt_succ hk) with hlt | rfl
    · exact h.window k hlo hlt
    · exact hpush
  all_goals simp only [TimPc.publishing, List.append_nil]
  case itemSequence value next slot seq =>
    -- the slot is the one behind the window, since no START has moved the head
    obtain ⟨-, rfl, -⟩ := hq.push
    refine h.write hq.window ⟨hpush rfl, ?_⟩
    rw [Function.update_self]
    exact hpush rfl
  case itemValue value next slot =>
    obtain ⟨-, rfl, -⟩ := hq.push
    refine h.write hq.window ?_
    show Function.update _ _ _ _ = _
    rw [Function.update_self]
    dsimp only
    rw [hpush.1, hpush.2]
  case valueLoadHead => exact h.move hpush
  case loadControl =>
    refine h.move ?_
    simp only [Mcu.timStep]
    split_ifs
    · exact fun _ => hpush rfl
    · exact .of_quiet rfl
  case pushLoadTail =>
    refine h.move ?_
    simp only [Mcu.timStep]
    split_ifs
    · exact .of_quiet rfl
    · exact fun _ => hpush rfl
  all_goals first
    | exact h.move (.of_quiet rfl)
    | exact h.move fun _ => hpush rfl

end Stamped

namespace SoftReset

variable {s s' : SoftReset} {items : List FifoItem}

/-- The items removed since the last START. -/
def popped (s : SoftReset) : ℕ := s.reads.countP ItemRead.pop

/-- The FIFO holds a window of the log of the items pushed since the last START, all of them
from ticks after it. -/
structure Inv (s : SoftReset) (items : List FifoItem) : Prop where
  queue : QueueInv s.board.mcu.fifo s.board.tim items s.popped
  stamped : Stamped s.stamps s.tickStart s.starts s.board.tim items.length s.popped
  latch : s.board.mcu.fifo.itemPeeked = true →
    items[s.popped]? = some ⟨s.board.mcu.fifo.lastSeq, s.board.mcu.fifo.lastVal⟩ ∧
      s.latch = ⟨s.starts, s.starts⟩
  clean : s.Clean

namespace Inv

/-- The callback's next access. -/
theorem tim (h : s.Inv items) :
    ∃ items', Inv { s with
      board := ⟨(s.board.mcu.timStep s.board.tim).2, (s.board.mcu.timStep s.board.tim).1⟩
      stamps := s.board.tim.stamp s.tickStart s.stamps } items' := by
  obtain ⟨⟨m, pc⟩, starts, tickStart, stamps, latch, reads⟩ := s
  refine ⟨items ++ pc.publishing m.fifo, h.queue.timStep, h.stamped.timStep h.queue, ?_, h.clean⟩
  · intro hpeek
    obtain ⟨hsame, hseq, hval, -⟩ := m.timStep_latch pc
    dsimp only at hpeek ⊢
    rw [hsame] at hpeek
    rw [hseq, hval]
    obtain ⟨hitem, hlatch⟩ := h.latch hpeek
    refine ⟨?_, hlatch⟩
    rw [List.getElem?_append_left]
    · exact hitem
    · exact (List.getElem?_eq_some_iff.mp hitem).1

/-- A START with no push in progress. -/
theorem start {f : Frame} (hs : f.isStart) (hquiet : s.board.tim.quiet = true) :
    Inv { s with
      board := { s.board with mcu := s.board.mcu.handleFrame f }
      starts := s.starts + 1
      reads := [] } [] := by
  have hfifo : (s.board.mcu.handleFrame f).fifo = s.board.mcu.fifo.reset := by
    rw [Mcu.handleFrame_fifo, Fifo.afterFrame, if_pos hs]
  refine ⟨?_, ⟨?_, .of_quiet hquiet⟩, ?_, ?_, trivial⟩
  · dsimp only
    rw [hfifo]
    exact QueueInv.reset (.of_quiet hquiet)
  · intro k _ hk
    exact absurd hk (Nat.not_lt_zero k)
  · dsimp only
    rw [hfifo]
    rintro ⟨⟩
  · rintro r ⟨⟩

/-- A read of the next entry. -/
theorem clean_read {item : FifoItem} {pop : Bool} (h : s.Inv items)
    (hitem : items[s.popped]? = some item) :
    Clean { s with reads := s.reads ++ [⟨item, ⟨s.starts, s.starts⟩, pop⟩] } := by
  refine ⟨?_, h.clean.2.concat ?_⟩
  · intro r hr
    rcases List.mem_append.mp hr with hr | hr
    · exact h.clean.1 r hr
    · rw [List.mem_singleton.mp hr]
  · rw [Nat.zero_add]
    exact h.queue.numbered _ _ hitem

/-- The oldest item is from after the last START. -/
theorem oldest (h : s.Inv items) (hne : s.board.mcu.fifo.head ≠ s.board.mcu.fifo.tail) :
    items[s.popped]? = some (s.board.mcu.fifo.buf s.board.mcu.fifo.tail) ∧
      s.stamps s.board.mcu.fifo.tail = ⟨s.starts, s.starts⟩ := by
  have hlt := h.queue.lt_of_nonempty hne
  refine ⟨h.queue.oldest hlt, ?_⟩
  rw [h.queue.tail]
  exact h.stamped.window _ (Nat.le_refl _) hlt

/-- A VAL frame that finds an item. -/
theorem pop {f : Frame} {item : FifoItem} {latch : Stamp} (h : s.Inv items)
    (hp : f.isPop = true) (hitem : items[s.popped]? = some item) :
    Inv { s with
      board := { s.board with mcu := s.board.mcu.handleFrame f }
      latch := latch
      reads := s.reads ++ [⟨item, ⟨s.starts, s.starts⟩, true⟩] } items := by
  have hs : f.isStart = false := Bool.eq_false_iff.mpr (Frame.not_isStart_of_isPop hp)
  have hlt := (List.getElem?_eq_some_iff.mp hitem).1
  have hpopped : popped { s with
      board := { s.board with mcu := s.board.mcu.handleFrame f }
      latch := latch
      reads := s.reads ++ [⟨item, ⟨s.starts, s.starts⟩, true⟩] } = s.popped + 1 := by
    simp [popped, List.countP_append]
  refine ⟨?_, ?_, ?_, h.clean_read hitem⟩
  · rw [hpopped]
    dsimp only
    rw [Mcu.handleFrame_fifo]
    exact h.queue.frame_pop hs hp hlt
  · -- the window shrinks by the item that was read
    rw [hpopped]
    refine ⟨?_, h.stamped.push⟩
    intro k hlo hk
    exact h.stamped.window k (Nat.le_of_succ_le hlo) hk
  · -- the read uses the latch up
    dsimp only
    rw [Mcu.handleFrame_fifo, Fifo.afterFrame, if_neg (Bool.not_eq_true _ ▸ hs), if_pos hp,
      Fifo.afterVal_itemPeeked]
    rintro ⟨⟩

/-- A SEQ frame that finds an item. -/
theorem peek {f : Frame} (h : s.Inv items) (hp : f.isPeek = true)
    (hne : s.board.mcu.fifo.head ≠ s.board.mcu.fifo.tail) :
    Inv { s with
      board := { s.board with mcu := s.board.mcu.handleFrame f }
      latch := ⟨s.starts, s.starts⟩
      reads := s.reads ++ [⟨s.board.mcu.fifo.buf s.board.mcu.fifo.tail, ⟨s.starts, s.starts⟩,
        false⟩] } items := by
  obtain ⟨hitem, -⟩ := h.oldest hne
  have hs : f.isStart = false := Frame.not_isStart_of_isPeek hp
  have hpop : f.isPop = false := Frame.not_isPop_of_isPeek hp
  have hfifo : (s.board.mcu.handleFrame f).fifo = s.board.mcu.fifo.afterSeq := by
    rw [Mcu.handleFrame_fifo, Fifo.afterFrame, if_neg (Bool.not_eq_true _ ▸ hs),
      if_neg (Bool.not_eq_true _ ▸ hpop), if_pos hp]
  have hpopped : popped { s with
      board := { s.board with mcu := s.board.mcu.handleFrame f }
      latch := ⟨s.starts, s.starts⟩
      reads := s.reads ++ [⟨s.board.mcu.fifo.buf s.board.mcu.fifo.tail, ⟨s.starts, s.starts⟩,
        false⟩] } = s.popped := by
    simp [popped, List.countP_append]
  refine ⟨?_, ?_, ?_, h.clean_read hitem⟩
  · rw [hpopped]
    dsimp only
    rw [Mcu.handleFrame_fifo]
    exact h.queue.frame_keep hs hpop
  · rw [hpopped]
    exact h.stamped
  · intro _
    rw [hpopped]
    dsimp only
    have hfull : s.board.mcu.fifo.nonempty = true := decide_eq_true hne
    rw [hfifo, Fifo.afterSeq, if_pos hfull, Fifo.peek, if_neg hne]
    exact ⟨hitem, rfl⟩

/-- A frame that reads no item. -/
theorem keep {f : Frame} (h : s.Inv items) (hs : f.isStart = false)
    (hpop : f.isPop = true → s.board.mcu.fifo.itemPeeked = false)
    (hread : f.isPop = true ∨ f.isPeek = true → s.board.mcu.fifo.head = s.board.mcu.fifo.tail) :
    Inv { s with board := { s.board with mcu := s.board.mcu.handleFrame f } } items := by
  have hfifo : (s.board.mcu.handleFrame f).fifo = s.board.mcu.fifo := by
    rw [Mcu.handleFrame_fifo, Fifo.afterFrame, if_neg (Bool.not_eq_true _ ▸ hs)]
    split_ifs with hp hp
    · have hempty := hread (.inl hp)
      rw [Fifo.afterVal, if_neg (Bool.not_eq_true _ ▸ hpop hp), Fifo.peek, if_pos hempty, Fifo.pop,
        if_pos hempty]
    · rw [Fifo.afterSeq, if_neg]
      simp [Fifo.nonempty, hread (.inr hp)]
    · rfl
  refine ⟨?_, h.stamped, ?_, h.clean⟩
  · dsimp only
    rw [hfifo]
    exact h.queue
  · dsimp only
    rw [hfifo]
    exact h.latch

/-- A frame that is no START. -/
theorem readFrame {f : Frame} (h : s.Inv items) (hs : f.isStart = false) :
    (s.readFrame f).Inv items := by
  unfold SoftReset.readFrame
  dsimp only
  split_ifs with hlatched hfound
  · obtain ⟨hitem, hlatch⟩ := h.latch hlatched.2
    rw [hlatch]
    exact h.pop hlatched.1 hitem
  · obtain ⟨hitem, hstamp⟩ := h.oldest hfound.2
    rw [hstamp]
    by_cases hp : f.isPop = true
    · rw [hp]
      exact h.pop hp hitem
    · rw [Bool.eq_false_iff.mpr hp]
      exact h.peek (hfound.1.resolve_left hp) hfound.2
  · refine h.keep hs ?_ ?_
    · exact fun hp => Bool.eq_false_iff.mpr fun hpeek => hlatched ⟨hp, hpeek⟩
    · intro hr
      by_contra hne
      exact hfound ⟨hr, hne⟩

end Inv

/-- The condition: no START while a push is in progress. -/
def StartsQuietly (s : SoftReset) : BoardEvent → Prop
  | .frame f => f.isStart = true → s.board.tim.quiet = true
  | _ => True

instance (s : SoftReset) : (e : BoardEvent) → Decidable (s.StartsQuietly e)
  | .frame _ => inferInstanceAs (Decidable (_ → _))
  | .tick => isTrue trivial
  | .tim => isTrue trivial
  | .spiError => isTrue trivial

/-- Every event that meets the condition keeps the invariant. -/
theorem Inv.next {e : BoardEvent} (h : s.Inv items) (hok : s.StartsQuietly e)
    (hn : s.next e = some s') : ∃ items', s'.Inv items' := by
  obtain ⟨board, hb, rfl⟩ := Option.map_eq_some_iff.mp hn
  cases e <;> simp only [Board.next] at hb
  case tick =>
    -- the tick of this callback occurs now, so its stamp is the number of STARTs so far
    split_ifs at hb with hidle
    cases hb
    refine ⟨items, h.queue.move rfl rfl rfl ?_, ⟨h.stamped.window, fun _ => rfl⟩,
      h.latch, h.clean⟩
    have hpush := h.queue.push
    rw [hidle] at hpush
    exact hpush
  case tim =>
    split_ifs at hb
    cases hb
    exact h.tim
  case frame f =>
    cases hb
    dsimp only
    split_ifs with hs
    · exact ⟨[], .start hs (hok hs)⟩
    · exact ⟨items, h.readFrame (Bool.eq_false_iff.mpr hs)⟩
  case spiError =>
    cases hb
    exact ⟨items, h.queue, h.stamped, h.latch, h.clean⟩

/-- **A START leaves a clean FIFO**, in every run in which no START is handled while a push is in
progress. -/
theorem clean_after_start {s : SoftReset} (h : machine.Reach StartsQuietly s) : s.Clean := by
  have hinv : ∃ items, s.Inv items := by
    refine h.invariant (P := fun s => ∃ items, s.Inv items) ?_ ?_
    · rintro s rfl
      refine ⟨[], QueueInv.reset (q := Fifo.init) rfl, ⟨?_, .of_quiet rfl⟩, nofun, nofun, trivial⟩
      intro k _ hk
      exact absurd hk (Nat.not_lt_zero k)
    · rintro s e s' ⟨items, hs⟩ hok hn
      exact hs.next hok hn
  obtain ⟨items, hs⟩ := hinv
  exact hs.clean

/-- A tick and the whole of its callback, in a FIFO with room. -/
def sample : List BoardEvent := .tick :: List.replicate 15 .tim

/-- A read of an item through REG_DATA_SEQ and REG_DATA_VAL. -/
def readItem : List BoardEvent :=
  [.frame (Frame.pack 0x06#8 0), .frame (Frame.pack 0x07#8 0)]

/-- Two samples, a second START, one more sample and its read. -/
theorem clean_after_start_again :
    ∃ s, machine.Reach StartsQuietly s ∧ s.starts = 2 ∧ s.reads.length = 2 ∧ s.Clean := by
  have hrun : ∃ s, machine.Reach StartsQuietly s ∧ (s.starts = 2 ∧ s.reads.length = 2) :=
    Machine.exists_reach_of_exec
      (.frame Board.startFrame :: sample ++ sample ++ .frame Board.startFrame :: sample ++ readItem)
      rfl (by decide +kernel)
  obtain ⟨s, hs, hstarts, hreads⟩ := hrun
  exact ⟨s, hs, hstarts, hreads, clean_after_start hs⟩

/-- A START while the callback is about to store `fifo_head`: the FIFO is not empty afterwards,
and the first items read are those from before the START.  The sample of the next tick has the
sequence number 0 again, behind them. -/
theorem old_samples_resurrected :
    ∃ s, machine.Reach Machine.Always s ∧ s.starts = 2 ∧
      s.reads.map (fun r => (r.item.sequence, r.stamp.sequence)) =
        [(0, 1), (0, 1), (1, 1), (1, 1), (0, 2), (0, 2)] ∧ ¬s.Clean :=
  Machine.exists_reach_of_exec
    (.frame Board.startFrame :: sample ++ .tick :: List.replicate 10 .tim ++
      .frame Board.startFrame :: List.replicate 5 .tim ++ sample ++
      readItem ++ readItem ++ readItem)
    rfl (by decide +kernel)

end SoftReset
