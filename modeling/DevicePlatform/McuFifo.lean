/-
# The MCU FIFO as a window of the log of pushed items

While no START resets it under a push in progress, the sample FIFO is a window of the log of
the items pushed since the last START (`RingLog`): item `k` of the log has the sequence number
`k`, the items from the `lo`-th on are in the buffer, and `fifo_head` and `fifo_tail` are the
lengths of the log and of its popped part modulo `FIFO_DEPTH`.

`QueueInv` says so at every access of the timer callback; a frame handler may run between any
two of them.
-/
import DevicePlatform.TimerCallback
import DevicePlatform.RingLog

/-! ## A push in progress -/

namespace TimPc

/-- A push of entry `n` has found room: it will publish the head after it. -/
def HasRoom (n lo next : ℕ) : Prop := next = (n + 1) % fifoDepth ∧ n + 1 - lo < fifoDepth

/-- How far the push of entry `n` has come. -/
def Producing (q : Fifo) (n lo : ℕ) : TimPc → Prop
  | .pushLoadTail _ next => next = (n + 1) % fifoDepth ∧ q.seqCounter = BitVec.ofNat 32 n
  | .seqLoadHead _ next => HasRoom n lo next ∧ q.seqCounter = BitVec.ofNat 32 n
  | .seqLoad _ next slot =>
      HasRoom n lo next ∧ slot = n % fifoDepth ∧ q.seqCounter = BitVec.ofNat 32 n
  | .seqStore _ next slot seq =>
      HasRoom n lo next ∧ slot = n % fifoDepth ∧ seq = BitVec.ofNat 32 n
  | .itemSequence _ next slot seq =>
      HasRoom n lo next ∧ slot = n % fifoDepth ∧ seq = BitVec.ofNat 32 n ∧
        q.seqCounter = BitVec.ofNat 32 (n + 1)
  | .valueLoadHead _ next =>
      HasRoom n lo next ∧ (q.buf (n % fifoDepth)).sequence = BitVec.ofNat 32 n ∧
        q.seqCounter = BitVec.ofNat 32 (n + 1)
  | .itemValue _ next slot =>
      HasRoom n lo next ∧ slot = n % fifoDepth ∧ (q.buf slot).sequence = BitVec.ofNat 32 n ∧
        q.seqCounter = BitVec.ofNat 32 (n + 1)
  | .storeHead next =>
      HasRoom n lo next ∧ (q.buf (n % fifoDepth)).sequence = BitVec.ofNat 32 n ∧
        q.seqCounter = BitVec.ofNat 32 (n + 1)
  | _ => q.seqCounter = BitVec.ofNat 32 n

/-- A pop leaves more room. -/
theorem HasRoom.advance {n lo lo' next : ℕ} (h : HasRoom n lo next) (hle : lo ≤ lo') :
    HasRoom n lo' next := by
  refine ⟨h.1, ?_⟩
  have := h.2
  omega

/-- A push in progress depends on the buffer and the counter alone, and on pops only
through its room. -/
theorem Producing.advance {q q' : Fifo} {n lo lo' : ℕ} {pc : TimPc} (h : pc.Producing q n lo)
    (hbuf : q'.buf = q.buf) (hseq : q'.seqCounter = q.seqCounter) (hle : lo ≤ lo') :
    pc.Producing q' n lo' := by
  cases pc <;> simp only [Producing, hbuf, hseq] at h ⊢
  case seqLoadHead => exact ⟨h.1.advance hle, h.2⟩
  case seqLoad => exact ⟨h.1.advance hle, h.2⟩
  case seqStore => exact ⟨h.1.advance hle, h.2⟩
  case itemSequence => exact ⟨h.1.advance hle, h.2⟩
  case valueLoadHead => exact ⟨h.1.advance hle, h.2⟩
  case itemValue => exact ⟨h.1.advance hle, h.2⟩
  case storeHead => exact ⟨h.1.advance hle, h.2⟩
  all_goals exact h

end TimPc

/-- A frame that is no START leaves the producer's side of the FIFO alone. -/
theorem Fifo.afterFrame_producer {q : Fifo} {f : Frame} (hs : f.isStart = false) :
    (q.afterFrame f).buf = q.buf ∧ (q.afterFrame f).head = q.head ∧
      (q.afterFrame f).seqCounter = q.seqCounter := by
  unfold Fifo.afterFrame
  rw [if_neg (by simp [hs])]
  split_ifs
  · refine ⟨q.afterVal_buf, q.afterVal_head, ?_⟩
    unfold Fifo.afterVal Fifo.peek Fifo.pop
    split_ifs <;> rfl
  · refine ⟨q.afterSeq_buf, q.afterSeq_head, ?_⟩
    unfold Fifo.afterSeq Fifo.peek
    split_ifs <;> rfl
  · exact ⟨rfl, rfl, rfl⟩

/-- The item that the callback publishes with its next access. -/
def TimPc.publishing (q : Fifo) : TimPc → List FifoItem
  | .storeHead _ => [q.buf q.head]
  | _ => []

/-! ## The invariant -/

/-- The FIFO holds the entries of `items` from `lo` on, and entry `k` has the number `k`. -/
structure QueueInv (q : Fifo) (pc : TimPc) (items : List FifoItem) (lo : ℕ) : Prop where
  ring : RingLog fifoDepth q.buf items lo
  head : q.head = items.length % fifoDepth
  tail : q.tail = lo % fifoDepth
  le : lo ≤ items.length
  window : items.length - lo < fifoDepth
  numbered : ∀ k x, items[k]? = some x → x.sequence = BitVec.ofNat 32 k
  push : pc.Producing q items.length lo

namespace QueueInv

variable {q : Fifo} {pc : TimPc} {items : List FifoItem} {lo : ℕ}

/-- A START with no push in progress begins an empty log. -/
theorem reset (hpush : pc.Producing q.reset 0 0) : QueueInv q.reset pc [] 0 := by
  refine ⟨RingLog.of_length_le (Nat.le_refl 0), rfl, rfl, Nat.le_refl 0, (by decide), ?_, hpush⟩
  rintro k x ⟨⟩

/-- The FIFO is empty just when the whole log has been popped. -/
theorem lt_of_nonempty (h : QueueInv q pc items lo) (hne : q.head ≠ q.tail) :
    lo < items.length := by
  rcases Nat.lt_or_eq_of_le h.le with hlt | heq
  · exact hlt
  · rw [h.head, h.tail, heq] at hne
    exact absurd rfl hne

/-- Conversely, an entry that has not been popped is in the FIFO. -/
theorem nonempty_of_lt (h : QueueInv q pc items lo) (hlt : lo < items.length) :
    q.head ≠ q.tail := by
  rw [h.head, h.tail]
  exact (mod_ne_of_window hlt h.window).symm

/-- The oldest item of the FIFO is the next entry of the log. -/
theorem oldest (h : QueueInv q pc items lo) (hlt : lo < items.length) :
    items[lo]? = some (q.buf q.tail) := by
  rw [List.getElem?_eq_getElem hlt, h.tail, h.ring.read hlt]

/-- An access of the callback that writes neither an index nor a slot. -/
theorem move {q' : Fifo} {pc' : TimPc} (h : QueueInv q pc items lo) (hbuf : q'.buf = q.buf)
    (hhead : q'.head = q.head) (htail : q'.tail = q.tail)
    (hpush : pc'.Producing q' items.length lo) : QueueInv q' pc' items lo := by
  refine ⟨?_, hhead.trans h.head, htail.trans h.tail, h.le, h.window, h.numbered, hpush⟩
  rw [hbuf]
  exact h.ring

/-- A frame that is no START moves at most the tail. -/
theorem consume {q' : Fifo} {lo' : ℕ} (h : QueueInv q pc items lo) (hbuf : q'.buf = q.buf)
    (hhead : q'.head = q.head) (hseq : q'.seqCounter = q.seqCounter)
    (htail : q'.tail = lo' % fifoDepth) (hle : lo ≤ lo') (hle' : lo' ≤ items.length) :
    QueueInv q' pc items lo' := by
  refine ⟨?_, hhead.trans h.head, htail, hle', ?_, h.numbered, h.push.advance hbuf hseq hle⟩
  · rw [hbuf]
    exact h.ring.advance hle
  · have := h.window
    omega

/-- A store to the slot of the next entry. -/
theorem writeSlot {x : FifoItem} {pc' : TimPc} (h : QueueInv q pc items lo)
    (hpush : pc'.Producing { q with buf := Function.update q.buf (items.length % fifoDepth) x }
      items.length lo) :
    QueueInv { q with buf := Function.update q.buf (items.length % fifoDepth) x } pc' items lo :=
  ⟨h.ring.write h.window x, h.head, h.tail, h.le, h.window, h.numbered, hpush⟩

/-- `fifo_head = next` publishes the entry. -/
theorem storeHead {next : ℕ} (h : QueueInv q (.storeHead next) items lo) :
    QueueInv { q with head := next } .readyLoadHead (items ++ [q.buf q.head]) lo := by
  obtain ⟨⟨hnext, hroom⟩, hitem, hcount⟩ := h.push
  have hlen : (items ++ [q.buf q.head]).length = items.length + 1 := List.length_append
  have hslot : q.buf (items.length % fifoDepth) = q.buf q.head := by rw [h.head]
  refine ⟨h.ring.publish hslot, ?_, h.tail, ?_, ?_, ?_, ?_⟩
  · rw [hlen]
    exact hnext
  · rw [hlen]
    exact Nat.le_succ_of_le h.le
  · rw [hlen]
    exact hroom
  · intro k x hx
    rcases Nat.lt_trichotomy k items.length with hlt | rfl | hgt
    · rw [List.getElem?_append_left hlt] at hx
      exact h.numbered k x hx
    · rw [List.getElem?_concat_length, Option.some.injEq] at hx
      rw [← hx, ← hslot]
      exact hitem
    · rw [List.getElem?_eq_none (by omega)] at hx
      cases hx
  · show q.seqCounter = _
    rw [hlen]
    exact hcount

/-- The callback's accesses keep the window, and `fifo_head = next` extends the log. -/
theorem timStep {m : Mcu} (h : QueueInv m.fifo pc items lo) :
    QueueInv (m.timStep pc).2.fifo (m.timStep pc).1 (items ++ pc.publishing m.fifo) lo := by
  have hpush := h.push
  cases pc
  case storeHead => exact h.storeHead
  all_goals simp only [TimPc.publishing, List.append_nil]
  case loadControl =>
    refine h.move rfl rfl rfl ?_
    simp only [Mcu.timStep]
    split_ifs <;> exact hpush
  case pushLoadHead =>
    refine h.move rfl rfl rfl ⟨?_, hpush⟩
    rw [h.head, Nat.mod_add_mod]
  case pushLoadTail value next =>
    obtain ⟨hnext, hcount⟩ := hpush
    refine h.move rfl rfl rfl ?_
    simp only [Mcu.timStep]
    split_ifs with hfull
    · exact hcount
    · refine ⟨⟨hnext, ?_⟩, hcount⟩
      -- were the window full, the next head would be the tail's slot
      rw [hnext, h.tail] at hfull
      by_contra hge
      refine hfull ?_
      have hlen : items.length + 1 = lo + fifoDepth := by
        have := h.window
        have := h.le
        omega
      rw [hlen, Nat.add_mod_right]
  case seqLoadHead => exact h.move rfl rfl rfl ⟨hpush.1, h.head, hpush.2⟩
  case seqLoad => exact h.move rfl rfl rfl ⟨hpush.1, hpush.2.1, hpush.2.2⟩
  case seqStore value next slot seq =>
    obtain ⟨hroom, hslot, rfl⟩ := hpush
    refine h.move rfl rfl rfl ⟨hroom, hslot, rfl, ?_⟩
    exact (BitVec.ofNat_add items.length 1).symm
  case itemSequence value next slot seq =>
    obtain ⟨hroom, rfl, rfl, hcount⟩ := hpush
    refine h.writeSlot ⟨hroom, ?_, hcount⟩
    dsimp only
    rw [Function.update_self]
  case valueLoadHead =>
    refine h.move rfl rfl rfl ⟨hpush.1, h.head, ?_, hpush.2.2⟩
    rw [h.head]
    exact hpush.2.1
  case itemValue value next slot =>
    obtain ⟨hroom, rfl, hitem, hcount⟩ := hpush
    refine h.writeSlot ⟨hroom, ?_, hcount⟩
    dsimp only
    rw [Function.update_self]
    exact hitem
  all_goals exact h.move rfl rfl rfl hpush

/-- A frame that neither starts nor pops. -/
theorem frame_keep {f : Frame} (h : QueueInv q pc items lo) (hs : f.isStart = false)
    (hp : f.isPop = false) : QueueInv (q.afterFrame f) pc items lo := by
  obtain ⟨hbuf, hhead, hseq⟩ := Fifo.afterFrame_producer (q := q) hs
  refine h.consume hbuf hhead hseq ?_ (Nat.le_refl _) h.le
  rw [Fifo.afterFrame_tail, if_neg (by simp [hs]), if_neg (by simp [hp])]
  exact h.tail

/-- The VAL frame pops the next entry. -/
theorem frame_pop {f : Frame} (h : QueueInv q pc items lo) (hs : f.isStart = false)
    (hp : f.isPop = true) (hlt : lo < items.length) :
    QueueInv (q.afterFrame f) pc items (lo + 1) := by
  obtain ⟨hbuf, hhead, hseq⟩ := Fifo.afterFrame_producer (q := q) hs
  refine h.consume hbuf hhead hseq ?_ (Nat.le_succ _) hlt
  have hne := h.nonempty_of_lt hlt
  rw [Fifo.afterFrame_tail, if_neg (by simp [hs]), if_pos ⟨hp, hne⟩, h.tail, Nat.mod_add_mod]

/-- An empty FIFO pops nothing. -/
theorem frame_empty {f : Frame} (h : QueueInv q pc items lo)
    (hs : f.isStart = false) (hge : items.length ≤ lo) :
    QueueInv (q.afterFrame f) pc items lo := by
  obtain ⟨hbuf, hhead, hseq⟩ := Fifo.afterFrame_producer (q := q) hs
  refine h.consume hbuf hhead hseq ?_ (Nat.le_refl _) h.le
  have hempty : q.head = q.tail := by
    by_contra hne
    exact Nat.not_lt.mpr hge (h.lt_of_nonempty hne)
  rw [Fifo.afterFrame_tail, if_neg (by simp [hs]), if_neg (fun hc => hc.2 hempty)]
  exact h.tail

end QueueInv

/-- The callback touches neither the latch nor REG_CONTROL. -/
theorem Mcu.timStep_latch (m : Mcu) (pc : TimPc) :
    (m.timStep pc).2.fifo.itemPeeked = m.fifo.itemPeeked ∧
      (m.timStep pc).2.fifo.lastSeq = m.fifo.lastSeq ∧
      (m.timStep pc).2.fifo.lastVal = m.fifo.lastVal ∧
      (m.timStep pc).2.regControl = m.regControl := by
  cases pc <;> exact ⟨rfl, rfl, rfl, rfl⟩
