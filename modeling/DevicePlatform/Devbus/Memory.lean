/-
# The addresses that the publisher computes

The publisher once more, now down to the addresses.  Every subscriber maps the control
segment read-write, the header included, so here nothing that the publisher loads from it is
trusted:

* a word of a slot or of a ring is any value, at every load (`Prog.choose`);
* a word of the `SegmentHeader` is what was last written to it, and a subscriber may
  overwrite it at any time (`MemoryEvent.writeHeader`).

The members of `PublisherCore` are in its own memory.  `Memory.fault` records that an access
was not inside the segment or the vector it was meant for.  The programs follow those of
`Devbus.Publisher`, which differ in what a load gives: both change the chunks and references by the
same steps, `Book.Moves`, here on vectors (`vectors_hold_book`), there on functions (`loan_own`, …).

Slots, rings and payloads are found through the header: `slots_offset`, `slot_stride`,
`queue_capacity`, `completion_capacity`, `payloads_offset` and `chunk_stride` are loaded again
at each use, and `max_subscribers` and `chunk_count` bound the indices into the vectors.  As
long as nobody writes to the header every access is in bounds, whatever the slots and rings
hold (`addresses_in_bounds`).  A subscriber that does write to it sends the publisher wherever
it likes (`slot_outside_segment`).
-/
import DevicePlatform.Devbus.Publisher
import DevicePlatform.Transition

namespace Devbus

/-! ## The state -/

/-- The words of `SegmentHeader` that the publisher loads. -/
structure SegmentHeader where
  maxSubscribers : BitVec 32
  queueCapacity : BitVec 32
  completionCapacity : BitVec 32
  maxLoans : BitVec 32
  chunkCount : BitVec 32
  chunkStride : BitVec 64
  slotStride : BitVec 64
  slotsOffset : BitVec 64
  payloadsOffset : BitVec 64
  deriving DecidableEq, Repr

/-- The header, the extent of the segments, and the members of `PublisherCore`. -/
structure Memory where
  hdr : SegmentHeader
  /-- The sizes of the segments and of the payload type. -/
  controlSize : ℕ
  dataSize : ℕ
  typeSize : ℕ
  free : List (BitVec 32)
  refcount : List ℕ
  /-- `outstanding_`, indexed by `s * chunk_count + c`. -/
  outstanding : List ℕ
  active : List Bool
  /-- `pidfds_`; whether there is one. -/
  pidfds : List Bool
  activeList : List (BitVec 32)
  claimedSince : List ℕ
  loansOut : BitVec 32
  nextSeq : ℕ
  livenessEvery : ℕ
  sendsSinceLiveness : ℕ
  /-- The chunks on loan to the application. -/
  loans : List (BitVec 32)
  /-- An access was out of bounds. -/
  fault : Bool
  deriving DecidableEq, Repr

/-- The words of a `SubscriberSlot`. -/
inductive SlotWord where
  | state
  | pid
  | overflow
  | blockTimeoutUs
  | dataHead
  | dataTail
  | doneHead
  | doneTail
  | futexWord
  | sleeping
  | spaceFutex
  | publisherWaiting
  | delivered
  | droppedOldest
  | droppedNewest
  | blockTimeouts
  | blockedNs
  deriving DecidableEq, Repr

/-- Their offsets in the slot, with each index on a cache line of its own. -/
def SlotWord.offset : SlotWord → ℕ
  | .state => 0
  | .pid => 4
  | .overflow => 8
  | .blockTimeoutUs => 12
  | .dataHead => 64
  | .dataTail => 128
  | .doneHead => 192
  | .doneTail => 256
  | .futexWord => 320
  | .sleeping => 324
  | .spaceFutex => 384
  | .publisherWaiting => 388
  | .delivered => 448
  | .droppedOldest => 456
  | .droppedNewest => 464
  | .blockTimeouts => 472
  | .blockedNs => 480

/-- Their sizes. -/
def SlotWord.size : SlotWord → ℕ
  | .state | .pid | .overflow | .blockTimeoutUs => 4
  | .futexWord | .sleeping | .spaceFutex | .publisherWaiting => 4
  | .dataHead | .dataTail | .doneHead | .doneTail => 8
  | .delivered | .droppedOldest | .droppedNewest | .blockTimeouts | .blockedNs => 8

theorem SlotWord.le_slotSize (w : SlotWord) : w.offset + w.size ≤ 512 := by
  cases w <;> decide

/-- The values of the enumerations. -/
def SlotState.ofWord (v : ℕ) : SlotState :=
  match v with
  | 0 => .free
  | 1 => .claimed
  | 2 => .active
  | 3 => .closing
  | v => .other v

def Overflow.ofWord (v : ℕ) : Overflow :=
  match v with
  | 0 => .dropOldest
  | 1 => .dropNewest
  | 2 => .block
  | v => .other v

namespace Memory

/-! ## Accesses -/

/-- An access that is in bounds if `ok`. -/
def access (ok : Bool) (m : Memory) : Memory := { m with fault := m.fault || !ok }

/-- `size` bytes of the control segment, of the data segment. -/
def touchControl (offset : BitVec 64) (size : ℕ) : Prog Memory Unit :=
  Prog.write fun m => m.access (offset.toNat + size ≤ m.controlSize)

def touchData (offset : BitVec 64) (size : ℕ) : Prog Memory Unit :=
  Prog.write fun m => m.access (offset.toNat + size ≤ m.dataSize)

/-- `slot`: the offset of a slot. -/
def slot (i : BitVec 32) : Prog Memory (BitVec 64) := do
  let offset ← Prog.read fun m => m.hdr.slotsOffset
  let stride ← Prog.read fun m => m.hdr.slotStride
  return offset + i.setWidth 64 * stride

/-- A store to a word of a slot, or an atomic operation on it. -/
def touch (sl : BitVec 64) (w : SlotWord) : Prog Memory Unit :=
  touchControl (sl + BitVec.ofNat 64 w.offset) w.size

/-- A load of a word of a slot: any value. -/
def load (sl : BitVec 64) (w : SlotWord) : Prog Memory (BitVec 64) := do
  touch sl w
  let n ← Prog.choose
  return BitVec.ofNat 64 (n % 256 ^ w.size)

/-- `data_ring` and `done_ring`: the offset of a ring. -/
def dataRing (sl : BitVec 64) : BitVec 64 := sl + 512

def doneRing (sl : BitVec 64) (queueCapacity : BitVec 32) : BitVec 64 :=
  dataRing sl + 4 * queueCapacity.setWidth 64

/-- The entry `i` of a ring. -/
def touchRing (ring i : BitVec 64) : Prog Memory Unit := touchControl (ring + 4 * i) 4

def loadRing (ring i : BitVec 64) : Prog Memory (BitVec 32) := do
  touchRing ring i
  let n ← Prog.choose
  return BitVec.ofNat 32 n

/-- `if (c) …`. -/
def whenever (c : Bool) (p : Prog Memory Unit) : Prog Memory Unit := if c then p else return ()

/-- `payload`, and the access of the application to what it points to. -/
def payload (c : BitVec 32) : Prog Memory Unit := do
  let offset ← Prog.read fun m => m.hdr.payloadsOffset
  let stride ← Prog.read fun m => m.hdr.chunkStride
  Prog.write fun m =>
    m.access ((offset + c.setWidth 64 * stride).toNat + m.typeSize ≤ m.dataSize)
  return ()

/-- `active_[s]`, `claimed_since_[s]` and `pidfds_[s]`. -/
def isActive (s : BitVec 32) : Prog Memory Bool :=
  Prog.update fun m => (m.active.getD s.toNat false, m.access (s.toNat < m.active.length))

def setActive (s : BitVec 32) (v : Bool) : Prog Memory Unit :=
  Prog.write fun m => { m with active := m.active.set s.toNat v }.access (s.toNat < m.active.length)

def getClaimedSince (s : BitVec 32) : Prog Memory ℕ :=
  Prog.update fun m =>
    (m.claimedSince.getD s.toNat 0, m.access (s.toNat < m.claimedSince.length))

def setClaimedSince (s : BitVec 32) (v : ℕ) : Prog Memory Unit :=
  Prog.write fun m => { m with claimedSince := m.claimedSince.set s.toNat v }.access
    (s.toNat < m.claimedSince.length)

def getPidfd (s : BitVec 32) : Prog Memory Bool :=
  Prog.update fun m => (m.pidfds.getD s.toNat false, m.access (s.toNat < m.pidfds.length))

def setPidfd (s : BitVec 32) (v : Bool) : Prog Memory Unit :=
  Prog.write fun m => { m with pidfds := m.pidfds.set s.toNat v }.access (s.toNat < m.pidfds.length)

/-! ## Chunks and references -/

/-- `free_chunk`. -/
def freeChunk (c : BitVec 32) (m : Memory) : Memory := { m with free := c :: m.free }

/-- `if (refcount_[c] == 0) free_chunk(c)`. -/
def freeIfUnused (c : BitVec 32) (m : Memory) : Memory :=
  let m := m.access (c.toNat < m.refcount.length)
  if m.refcount.getD c.toNat 0 = 0 then m.freeChunk c else m

/-- `release_ref` after its check; `i` is the index into `outstanding_`. -/
def dropRef (i : ℕ) (c : BitVec 32) (m : Memory) : Memory :=
  let out := m.outstanding.getD i 0
  let m := m.access (i < m.outstanding.length)
  if out = 0 then m
  else
    freeIfUnused c
      { m with
        outstanding := m.outstanding.set i (dec16 out)
        refcount := m.refcount.set c.toNat (dec16 (m.refcount.getD c.toNat 0)) }

/-- `release_ref`: `chunk_count` is loaded for the check and again for the index. -/
def releaseRef (s c : BitVec 32) : Prog Memory Unit := do
  let n ← Prog.read fun m => m.hdr.chunkCount
  if c ≥ n then return ()
  else do
    let n ← Prog.read fun m => m.hdr.chunkCount
    Prog.write fun m => m.dropRef (s.toNat * n.toNat + c.toNat) c
    return ()

/-- One round of the loop of `reclaim_slot`. -/
def reclaimChunk (s n : BitVec 32) (m : Memory) (c : ℕ) : Memory :=
  let i := s.toNat * n.toNat + c
  let out := m.outstanding.getD i 0
  let m := m.access (i < m.outstanding.length)
  if out = 0 then m
  else
    freeIfUnused (BitVec.ofNat 32 c)
      { m with
        refcount := m.refcount.set c ((m.refcount.getD c 0 + 2 ^ 16 - out) % 2 ^ 16)
        outstanding := m.outstanding.set i 0 }

/-- `++refcount_[c]` and `++outstanding_[i]`. -/
def addRef (i : ℕ) (c : BitVec 32) (m : Memory) : Memory :=
  let m := { m with
    refcount := m.refcount.set c.toNat (inc16 (m.refcount.getD c.toNat 0)) }.access
      (c.toNat < m.refcount.length)
  { m with outstanding := m.outstanding.set i (inc16 (m.outstanding.getD i 0)) }.access
    (i < m.outstanding.length)

/-! ## Taking chunks and slots back -/

/-- `drain_done`. -/
def drainDone (s : BitVec 32) : Prog Memory Unit := do
  let sl ← slot s
  let queue ← Prog.read fun m => m.hdr.queueCapacity
  let completion ← Prog.read fun m => m.hdr.completionCapacity
  let mask := (completion - 1).setWidth 64
  let tail ← load sl .doneTail
  let head ← load sl .doneHead
  if tail = head then return ()
  else do
    Prog.repeatUntil tail fun tail =>
      if tail = head then return .inr ()
      else do
        let c ← loadRing (doneRing sl queue) (tail &&& mask)
        releaseRef s c
        return .inl (tail + 1)
    touch sl .doneTail

/-- The words that `reclaim_slot` stores 0 to, in the order of the stores. -/
def resetWords : List SlotWord :=
  [.dataHead, .dataTail, .doneHead, .doneTail, .sleeping, .delivered, .droppedOldest,
    .droppedNewest, .blockTimeouts, .blockedNs, .pid]

/-- `reclaim_slot`. -/
def reclaimSlot (s : BitVec 32) : Prog Memory Unit := do
  drainDone s
  let n ← Prog.read fun m => m.hdr.chunkCount
  Prog.write fun m => (List.range n.toNat).foldl (reclaimChunk s n) m
  let sl ← slot s
  Prog.forEach resetWords fun w => touch sl w
  let fd ← getPidfd s
  whenever fd (setPidfd s false)
  setActive s false
  setClaimedSince s 0
  touch sl .state

/-! ## Slots -/

/-- `for (uint32_t s = 0; s < header_->max_subscribers; ++s)`: the bound is loaded again in
each round. -/
def forSlots {α : Type} (a : α) (body : α → BitVec 32 → Prog Memory α) : Prog Memory α :=
  Prog.repeatUntil (a, (0 : BitVec 32)) fun x => do
    let n ← Prog.read fun m => m.hdr.maxSubscribers
    if x.2 < n then do
      let a ← body x.1 x.2
      return .inl (a, x.2 + 1)
    else return .inr x.1

/-- One round of a pass of `rebuild_active_list`. -/
def listSlot (pass : Bool) (s : BitVec 32) : Prog Memory Unit := do
  let onboarded ← isActive s
  if onboarded then do
    let sl ← slot s
    let overflow ← load sl .overflow
    if decide (Overflow.ofWord overflow.toNat = .block) = pass then
      Prog.write fun m => { m with activeList := m.activeList ++ [s] }
    else return ()
  else return ()

/-- `rebuild_active_list`. -/
def rebuildActiveList : Prog Memory Unit := do
  Prog.write fun m => { m with activeList := [] }
  Prog.forEach [false, true] fun pass => forSlots () fun _ s => listSlot pass s

/-- `st == SlotState::Active && !active_[s]`. -/
def joined (s : BitVec 32) (st : SlotState) : Prog Memory Bool :=
  if st = .active then do
    let onboarded ← isActive s
    return !onboarded
  else return false

/-- One round of `scan_slots`; the result is `changed`. -/
def scanSlot (changed : Bool) (s : BitVec 32) : Prog Memory Bool := do
  let sl ← slot s
  let word ← load sl .state
  let st := SlotState.ofWord word.toNat
  let joining ← joined s st
  if joining then do
    let _ ← load sl .pid
    let opened ← Prog.choose
    setPidfd s (opened != 0)
    let fd ← getPidfd s
    if fd then do
      setActive s true
      return true
    else do
      reclaimSlot s
      return true
  else if st = .closing then do
    reclaimSlot s
    return true
  else return changed

/-- `scan_slots`. -/
def scanSlots : Prog Memory Unit := do
  let changed ← forSlots false scanSlot
  if changed then rebuildActiveList else return ()

/-- The grace test of `check_liveness`. -/
def graceTest (s : BitVec 32) : Prog Memory Bool := do
  let now ← Prog.choose
  let since ← getClaimedSince s
  whenever (since == 0) (setClaimedSince s now)
  let since ← getClaimedSince s
  return decide (now - since > Publisher.claimGraceNs)

/-- Whether `check_liveness` finds the subscriber of a slot dead. -/
def slotDead (s : BitVec 32) (st : SlotState) (pid : BitVec 64) : Prog Memory Bool := do
  let onboarded ← isActive s
  if onboarded then do
    let _ ← getPidfd s
    let alive ← Prog.choose
    return alive == 0
  else if st = .claimed ∧ pid = 0 then graceTest s
  else if st = .claimed ∨ st = .active then do
    let alive ← Prog.choose
    return alive == 0
  else return false

/-- One round of `check_liveness`; the result is `reaped`. -/
def checkSlot (reaped : ℕ) (s : BitVec 32) : Prog Memory ℕ := do
  let sl ← slot s
  let word ← load sl .state
  let st := SlotState.ofWord word.toNat
  let pid ← load sl .pid
  let dead ← slotDead s st pid
  whenever (st != .claimed || pid != 0) (setClaimedSince s 0)
  if dead then do
    reclaimSlot s
    return reaped + 1
  else return reaped

/-- `check_liveness`. -/
def checkLiveness : Prog Memory ℕ := do
  scanSlots
  let reaped ← forSlots 0 checkSlot
  if reaped ≠ 0 then do
    rebuildActiveList
    return reaped
  else return reaped

/-! ## Loans -/

/-- The end of `loan`: the top of `free_`. -/
def popFree : Prog Memory (Except LoanError (BitVec 32)) :=
  Prog.update fun m =>
    match m.free with
    | [] => (.error .outOfChunks, m)
    | c :: rest =>
        (.ok c, { m with free := rest, loansOut := m.loansOut + 1, loans := c :: m.loans })

/-- `loan`. -/
def loan : Prog Memory (Except LoanError (BitVec 32)) := do
  let limit ← Prog.read fun m => decide (m.loansOut ≥ m.hdr.maxLoans)
  if limit then return .error .loanLimit
  else do
    let slots ← Prog.read fun m => m.activeList
    Prog.forEach slots drainDone
    let none ← Prog.read fun m => m.free.isEmpty
    if none then do
      scanSlots
      popFree
    else popFree

/-- `release_loan`. -/
def releaseLoan (c : BitVec 32) : Prog Memory Unit := do
  Prog.write fun m =>
    { m with free := c :: m.free, loansOut := m.loansOut - 1, loans := m.loans.erase c }
  return ()

/-! ## Delivery -/

/-- `c || sl->state != SlotState::Active`. -/
def orLeft (sl : BitVec 64) (c : Bool) : Prog Memory Bool :=
  if c then return true
  else do
    let word ← load sl .state
    return SlotState.ofWord word.toNat != .active

/-- A round of `deliver` on a full queue under `Overflow::Block`. -/
def blockRound (sl head cap : BitVec 64) (blockStart : ℕ) (report : SendReport) :
    Prog Memory ((ℕ × SendReport) ⊕ Publisher.Admission) := do
  let now ← Prog.choose
  let blockStart := if blockStart = 0 then now else blockStart
  let us ← load sl .blockTimeoutUs
  let gone ← orLeft sl (now - blockStart > us.toNat * 1000)
  if gone then do
    touch sl .blockTimeouts
    touch sl .blockedNs
    return .inr (.refused { report with blockTimeouts := report.blockTimeouts + 1 })
  else if now - blockStart < Publisher.blockSpinNs then return .inl (blockStart, report)
  else do
    touch sl .spaceFutex
    touch sl .publisherWaiting
    let tail ← load sl .dataTail
    let ready ← orLeft sl (head - tail < cap)
    if ready then do
      touch sl .publisherWaiting
      return .inl (blockStart, report)
    else do
      let _ ← load sl .blockTimeoutUs
      -- `futex_wait`
      touch sl .spaceFutex
      touch sl .publisherWaiting
      return .inl (blockStart, report)

/-- A round of `deliver` on a full queue under `Overflow::DropOldest`. -/
def evictRound (s : BitVec 32) (sl tail cap : BitVec 64) (blockStart : ℕ) (report : SendReport) :
    Prog Memory ((ℕ × SendReport) ⊕ Publisher.Admission) := do
  let victim ← loadRing (dataRing sl) (tail &&& (cap - 1))
  touch sl .dataTail
  let won ← Prog.choose
  if won = 0 then return .inl (blockStart, report)
  else do
    releaseRef s victim
    touch sl .droppedOldest
    return .inl (blockStart, { report with evicted := report.evicted + 1 })

/-- A round of the loop of `deliver`. -/
def admitRound (s : BitVec 32) (sl head cap : BitVec 64) (policy : Overflow) (blockStart : ℕ)
    (report : SendReport) : Prog Memory ((ℕ × SendReport) ⊕ Publisher.Admission) := do
  let tail ← load sl .dataTail
  if head - tail < cap then return .inr (.room blockStart report)
  else match policy with
    | .dropNewest => do
        touch sl .droppedNewest
        return .inr (.refused { report with rejected := report.rejected + 1 })
    | .dropOldest => evictRound s sl tail cap blockStart report
    | .block => blockRound sl head cap blockStart report
    | .other _ => return .inl (blockStart, report)

/-- `deliver` once there is room. -/
def enqueue (s c : BitVec 32) (sl head cap : BitVec 64) (blockStart : ℕ) (report : SendReport) :
    Prog Memory SendReport := do
  whenever (blockStart != 0) (touch sl .blockedNs)
  touchRing (dataRing sl) (head &&& (cap - 1))
  touch sl .dataHead
  let n ← Prog.read fun m => m.hdr.chunkCount
  Prog.write fun m => m.addRef (s.toNat * n.toNat + c.toNat) c
  touch sl .delivered
  let sleeping ← load sl .sleeping
  whenever (sleeping != 0) (touch sl .futexWord)
  return { report with delivered := report.delivered + 1 }

/-- `deliver`; the result is the report so far. -/
def deliver (c : BitVec 32) (report : SendReport) (s : BitVec 32) : Prog Memory SendReport := do
  let sl ← slot s
  let cap32 ← Prog.read fun m => m.hdr.queueCapacity
  let cap := cap32.setWidth 64
  let head ← load sl .dataHead
  let policy ← load sl .overflow
  let r ← Prog.repeatUntil (0, report) fun x =>
    admitRound s sl head cap (Overflow.ofWord policy.toNat) x.1 x.2
  match r with
  | .refused report => return report
  | .room blockStart report => enqueue s c sl head cap blockStart report

/-- `send`. -/
def send (c : BitVec 32) : Prog Memory SendReport := do
  let seq ← Prog.update fun m => (m.nextSeq,
    { m with loansOut := m.loansOut - 1, loans := m.loans.erase c, nextSeq := m.nextSeq + 1 })
  -- `chunk_headers_[c].seq` and `.publish_ns`
  touchData (16 * c.setWidth 64) 8
  touchData (16 * c.setWidth 64 + 8) 8
  scanSlots
  let slots ← Prog.read fun m => m.activeList
  let report ← Prog.fold slots ⟨seq, 0, 0, 0, 0⟩ (deliver c)
  Prog.write fun m => m.freeIfUnused c
  let check ← Prog.update fun m =>
    if m.livenessEvery ≠ 0 then
      let n := m.sendsSinceLiveness + 1
      if n ≥ m.livenessEvery then (true, { m with sendsSinceLiveness := 0 })
      else (false, { m with sendsSinceLiveness := n })
    else (false, m)
  if check then do
    let _ ← checkLiveness
    return report
  else return report

/-! ## In bounds -/

/-- What the constructor leaves room for. -/
structure Extent (h : SegmentHeader) (controlSize dataSize typeSize : ℕ) : Prop where
  queue_pos : 0 < h.queueCapacity.toNat
  completion_pos : 0 < h.completionCapacity.toNat
  slot : 512 + 4 * (h.queueCapacity.toNat + h.completionCapacity.toNat) ≤ h.slotStride.toNat
  control : h.slotsOffset.toNat + h.slotStride.toNat * h.maxSubscribers.toNat ≤ controlSize
  control_lt : controlSize < 2 ^ 64
  headers : 16 * h.chunkCount.toNat ≤ dataSize
  chunk : typeSize ≤ h.chunkStride.toNat
  data : h.payloadsOffset.toNat + h.chunkStride.toNat * h.chunkCount.toNat ≤ dataSize
  data_lt : dataSize < 2 ^ 64

/-- The header is `h`, every index that the publisher keeps is in bounds, and so was every
access. -/
structure Bounded (h : SegmentHeader) (m : Memory) : Prop where
  hdr : m.hdr = h
  extent : Extent h m.controlSize m.dataSize m.typeSize
  free : ∀ c ∈ m.free, c < h.chunkCount
  loans : ∀ c ∈ m.loans, c < h.chunkCount
  listed : ∀ s ∈ m.activeList, s < h.maxSubscribers
  refcount : m.refcount.length = h.chunkCount.toNat
  outstanding : m.outstanding.length = h.maxSubscribers.toNat * h.chunkCount.toNat
  active : m.active.length = h.maxSubscribers.toNat
  pidfds : m.pidfds.length = h.maxSubscribers.toNat
  claimedSince : m.claimedSince.length = h.maxSubscribers.toNat
  sound : m.fault = false

/-- The vectors hold what the book says of the slots and chunks of the header. -/
def Tracks (h : SegmentHeader) (k : Book) (m : Memory) : Prop :=
  m.free.map BitVec.toNat = k.free ∧
  (∀ c < h.chunkCount.toNat, m.refcount[c]? = some (k.refcount c)) ∧
  ∀ s < h.maxSubscribers.toNat, ∀ c < h.chunkCount.toNat,
    m.outstanding[s * h.chunkCount.toNat + c]? = some (k.outstanding s c)

/-- The vectors hold a book that the steps of the publisher lead to. -/
def Booked (h : SegmentHeader) (m : Memory) : Prop :=
  ∃ (hd : Header) (k : Book), hd.chunkCount = h.chunkCount.toNat ∧ k.Reached hd ∧ Tracks h k m

/-- What the publisher keeps. -/
structure Intact (h : SegmentHeader) (m : Memory) : Prop extends Bounded h m where
  booked : Booked h m

/-- `sl` is the offset of a slot. -/
def IsSlot (h : SegmentHeader) (sl : BitVec 64) : Prop :=
  ∃ i < h.maxSubscribers.toNat, sl.toNat = h.slotsOffset.toNat + h.slotStride.toNat * i

section Bounds

open Prog

variable {h : SegmentHeader} {m m' : Memory} {k : Book} {s c : BitVec 32} {sl : BitVec 64}
  {ok : Bool}

@[simp] theorem access_true : m.access true = m := by
  unfold access
  rw [Bool.not_true, Bool.or_false]

/-- An access in bounds. -/
theorem Intact.access (hm : Intact h m) (hok : ok = true) : Intact h (m.access ok) := by
  rwa [hok, access_true]

theorem IsSlot.room (hsl : IsSlot h sl) (hm : Intact h m) :
    sl.toNat + h.slotStride.toNat ≤ m.controlSize := by
  obtain ⟨i, hi, hoff⟩ := hsl
  have hle : h.slotStride.toNat * (i + 1) ≤ h.slotStride.toNat * h.maxSubscribers.toNat :=
    Nat.mul_le_mul_left _ hi
  have := hm.extent.control
  rw [Nat.mul_add, Nat.mul_one] at hle
  omega

/-- The index of a chunk of a slot in `outstanding_`. -/
theorem Bounded.outstanding_lt (hm : Bounded h m) (hs : s < h.maxSubscribers) {c : ℕ}
    (hc : c < h.chunkCount.toNat) :
    s.toNat * h.chunkCount.toNat + c < m.outstanding.length := by
  have hle : (s.toNat + 1) * h.chunkCount.toNat ≤
      h.maxSubscribers.toNat * h.chunkCount.toNat := Nat.mul_le_mul_right _ hs
  rw [Nat.add_mul, Nat.one_mul] at hle
  rw [hm.outstanding]
  omega

/-! ### Accesses -/

theorem slot_keeps (hs : s < h.maxSubscribers) : (slot s).Keeps (Intact h) (IsSlot h) := by
  refine keeps_seq (keeps_read (P := fun o => o = h.slotsOffset) ?_) ?_
  · intro m hm
    rw [hm.hdr]
  rintro _ rfl
  refine keeps_seq (R := fun r => r = h.slotStride ∧ ∃ size, h.slotsOffset.toNat +
    h.slotStride.toNat * h.maxSubscribers.toNat ≤ size ∧ size < 2 ^ 64) (keeps_read ?_) ?_
  · intro m hm
    exact ⟨congrArg _ hm.hdr, m.controlSize, hm.extent.control, hm.extent.control_lt⟩
  rintro _ ⟨rfl, size, hle, hlt⟩
  refine keeps_ret ⟨s.toNat, hs, ?_⟩
  have hmul : h.slotStride.toNat * s.toNat ≤ h.slotStride.toNat * h.maxSubscribers.toNat :=
    Nat.mul_le_mul_left _ (Nat.le_of_lt hs)
  rw [BitVec.toNat_add, BitVec.toNat_mul, BitVec.toNat_setWidth,
    Nat.mod_eq_of_lt (a := s.toNat) (by omega), Nat.mul_comm s.toNat,
    Nat.mod_eq_of_lt (a := h.slotStride.toNat * s.toNat) (by omega)]
  exact Nat.mod_eq_of_lt (by omega)

/-- Bytes of a slot or of its rings. -/
theorem touchControl_keeps (hsl : IsSlot h sl) {d : BitVec 64} {size : ℕ}
    (hd : ∀ m, Intact h m → d.toNat + size ≤ h.slotStride.toNat) :
    (touchControl (sl + d) size).Keeps (Intact h) fun _ => True := by
  refine keeps_write fun m hm => hm.access (decide_eq_true ?_)
  have hroom := hsl.room hm
  have hlt := hm.extent.control_lt
  have hle := hd m hm
  rw [BitVec.toNat_add, Nat.mod_eq_of_lt (by omega)]
  omega

theorem touch_keeps (hsl : IsSlot h sl) (w : SlotWord) :
    (touch sl w).Keeps (Intact h) fun _ => True := by
  refine touchControl_keeps hsl fun m hm => ?_
  have hle := w.le_slotSize
  have hslot := hm.extent.slot
  rw [BitVec.toNat_ofNat, Nat.mod_eq_of_lt (by omega)]
  omega

theorem load_keeps (hsl : IsSlot h sl) (w : SlotWord) :
    (load sl w).Keeps (Intact h) fun _ => True :=
  keeps_seq (touch_keeps hsl w) fun _ _ => keeps_choose fun _ => keeps_ret trivial

/-- An entry of a ring of `n` words that starts `first` words behind the slot. -/
theorem ring_keeps (hsl : IsSlot h sl) {first i : BitVec 64}
    (hfit : ∀ m, Intact h m →
      first.toNat + i.toNat < h.queueCapacity.toNat + h.completionCapacity.toNat) :
    (touchRing (dataRing sl + 4 * first) i).Keeps (Intact h) fun _ => True := by
  unfold touchRing dataRing
  rw [BitVec.add_assoc, BitVec.add_assoc]
  refine touchControl_keeps hsl fun m hm => ?_
  have hlt := hfit m hm
  have hslot := hm.extent.slot
  have hstride := h.slotStride.isLt
  have hsum : (512 + (4 * first + 4 * i) : BitVec 64).toNat =
      512 + (4 * first.toNat + 4 * i.toNat) := by
    rw [BitVec.toNat_add, BitVec.toNat_add, BitVec.toNat_mul, BitVec.toNat_mul]
    show (512 + (4 * first.toNat % 2 ^ 64 + 4 * i.toNat % 2 ^ 64) % 2 ^ 64) % 2 ^ 64 = _
    omega
  rw [hsum]
  omega

/-- An index that is masked stays below the capacity. -/
theorem masked_lt {cap : BitVec 32} (hcap : 0 < cap.toNat) (i : BitVec 64) :
    (i &&& (cap.setWidth 64 - 1)).toNat < cap.toNat ∧
      (i &&& (cap - 1).setWidth 64).toNat < cap.toNat := by
  have hlt := cap.isLt
  have h64 : (cap.setWidth 64 - 1).toNat = cap.toNat - 1 := by
    rw [BitVec.toNat_sub, BitVec.toNat_setWidth]
    show (2 ^ 64 - 1 + cap.toNat % 2 ^ 64) % 2 ^ 64 = _
    omega
  have h32 : ((cap - 1).setWidth 64).toNat = cap.toNat - 1 := by
    rw [BitVec.toNat_setWidth, BitVec.toNat_sub]
    show (2 ^ 32 - 1 + cap.toNat) % 2 ^ 32 % 2 ^ 64 = _
    omega
  rw [BitVec.toNat_and, BitVec.toNat_and, h64, h32]
  have hle := Nat.and_le_right (n := i.toNat) (m := cap.toNat - 1)
  omega

theorem dataEntry_keeps (hsl : IsSlot h sl) (i : BitVec 64) :
    (touchRing (dataRing sl) (i &&& (h.queueCapacity.setWidth 64 - 1))).Keeps (Intact h)
      fun _ => True := by
  have hkeeps : (touchRing (dataRing sl + 4 * 0#64)
      (i &&& (h.queueCapacity.setWidth 64 - 1))).Keeps (Intact h) fun _ => True := by
    refine ring_keeps hsl fun m hm => ?_
    have := (masked_lt hm.extent.queue_pos i).1
    rw [BitVec.toNat_ofNat, Nat.zero_mod]
    omega
  rwa [BitVec.mul_zero, BitVec.add_zero] at hkeeps

theorem doneEntry_keeps (hsl : IsSlot h sl) (i : BitVec 64) :
    (touchRing (doneRing sl h.queueCapacity) (i &&& (h.completionCapacity - 1).setWidth 64)).Keeps
      (Intact h) fun _ => True := by
  refine ring_keeps hsl fun m hm => ?_
  have hlt := (masked_lt hm.extent.completion_pos i).2
  have hq := h.queueCapacity.isLt
  rw [BitVec.toNat_setWidth, Nat.mod_eq_of_lt (by omega)]
  omega

/-- An access to a vector with an entry for each slot. -/
theorem isActive_keeps (hs : s < h.maxSubscribers) :
    (isActive s).Keeps (Intact h) fun _ => True :=
  keeps_update fun _ hm => ⟨hm.access (decide_eq_true (hm.active.symm ▸ hs)), trivial⟩

theorem getPidfd_keeps (hs : s < h.maxSubscribers) :
    (getPidfd s).Keeps (Intact h) fun _ => True :=
  keeps_update fun _ hm => ⟨hm.access (decide_eq_true (hm.pidfds.symm ▸ hs)), trivial⟩

theorem getClaimedSince_keeps (hs : s < h.maxSubscribers) :
    (getClaimedSince s).Keeps (Intact h) fun _ => True :=
  keeps_update fun _ hm => ⟨hm.access (decide_eq_true (hm.claimedSince.symm ▸ hs)), trivial⟩

theorem setActive_keeps (hs : s < h.maxSubscribers) (v : Bool) :
    (setActive s v).Keeps (Intact h) fun _ => True := by
  refine keeps_write fun m hm => Intact.access ?_ (decide_eq_true (hm.active.symm ▸ hs))
  exact { hm with active := (List.length_set ..).trans hm.active }

theorem setPidfd_keeps (hs : s < h.maxSubscribers) (v : Bool) :
    (setPidfd s v).Keeps (Intact h) fun _ => True := by
  refine keeps_write fun m hm => Intact.access ?_ (decide_eq_true (hm.pidfds.symm ▸ hs))
  exact { hm with pidfds := (List.length_set ..).trans hm.pidfds }

theorem setClaimedSince_keeps (hs : s < h.maxSubscribers) (v : ℕ) :
    (setClaimedSince s v).Keeps (Intact h) fun _ => True := by
  refine keeps_write fun m hm =>
    Intact.access ?_ (decide_eq_true (hm.claimedSince.symm ▸ hs))
  exact { hm with claimedSince := (List.length_set ..).trans hm.claimedSince }

theorem whenever_keeps {p : Prog Memory Unit} (hp : p.Keeps (Intact h) fun _ => True) (b : Bool) :
    (whenever b p).Keeps (Intact h) fun _ => True := by
  unfold whenever
  split
  · exact hp
  · exact keeps_ret trivial

/-- A word of the header. -/
theorem hdr_keeps {α : Type} (g : SegmentHeader → α) :
    (Prog.read fun m : Memory => g m.hdr).Keeps (Intact h) fun a => a = g h :=
  keeps_read fun _ hm => congrArg g hm.hdr

theorem payload_keeps (hc : c < h.chunkCount) :
    (payload c).Keeps (Intact h) fun _ => True := by
  refine keeps_seq (hdr_keeps (·.payloadsOffset)) ?_
  rintro _ rfl
  refine keeps_seq (hdr_keeps (·.chunkStride)) ?_
  rintro _ rfl
  refine keeps_seq (keeps_write fun m hm => hm.access (decide_eq_true ?_)) fun _ _ =>
    keeps_ret trivial
  have hle : h.chunkStride.toNat * (c.toNat + 1) ≤ h.chunkStride.toNat * h.chunkCount.toNat :=
    Nat.mul_le_mul_left _ hc
  have hdata := hm.extent.data
  have hlt := hm.extent.data_lt
  have hchunk := hm.extent.chunk
  rw [Nat.mul_add, Nat.mul_one] at hle
  rw [BitVec.toNat_add, BitVec.toNat_mul, BitVec.toNat_setWidth,
    Nat.mod_eq_of_lt (a := c.toNat) (by omega), Nat.mul_comm c.toNat,
    Nat.mod_eq_of_lt (a := h.chunkStride.toNat * c.toNat) (by omega), Nat.mod_eq_of_lt (by omega)]
  omega

/-! ### Chunks and references -/

theorem Bounded.freeChunk (hm : Bounded h m) (hc : c < h.chunkCount) :
    Bounded h (m.freeChunk c) := by
  refine { hm with free := ?_ }
  rintro c' (_ | ⟨_, hc'⟩)
  · exact hc
  · exact hm.free c' hc'

theorem Bounded.freeIfUnused (hm : Bounded h m) (hc : c < h.chunkCount) :
    Bounded h (m.freeIfUnused c) := by
  unfold Memory.freeIfUnused
  rw [decide_eq_true (hm.refcount.symm ▸ hc : c.toNat < m.refcount.length), access_true]
  dsimp only
  split
  · exact hm.freeChunk hc
  · exact hm

/-- New values in `refcount_` and `outstanding_`. -/
theorem Bounded.counts (hm : Bounded h m) (i j v w : ℕ) :
    Bounded h { m with outstanding := m.outstanding.set i v, refcount := m.refcount.set j w } :=
  { hm with
    outstanding := (List.length_set ..).trans hm.outstanding
    refcount := (List.length_set ..).trans hm.refcount }

theorem Bounded.dropRef (hm : Bounded h m) (hs : s < h.maxSubscribers) (hc : c < h.chunkCount) :
    Bounded h (m.dropRef (s.toNat * h.chunkCount.toNat + c.toNat) c) := by
  unfold Memory.dropRef
  rw [decide_eq_true (hm.outstanding_lt hs hc), access_true]
  dsimp only
  split
  · exact hm
  · exact (hm.counts ..).freeIfUnused hc

theorem Bounded.reclaimChunk (hm : Bounded h m) (hs : s < h.maxSubscribers) {c : ℕ}
    (hc : c < h.chunkCount.toNat) : Bounded h (m.reclaimChunk s h.chunkCount c) := by
  unfold Memory.reclaimChunk
  dsimp only
  rw [decide_eq_true (hm.outstanding_lt hs hc), access_true]
  split
  · exact hm
  · refine (hm.counts ..).freeIfUnused ?_
    have := h.chunkCount.isLt
    rw [BitVec.lt_def, BitVec.toNat_ofNat, Nat.mod_eq_of_lt (by omega)]
    exact hc

theorem Bounded.addRef (hm : Bounded h m) (hs : s < h.maxSubscribers) (hc : c < h.chunkCount) :
    Bounded h (m.addRef (s.toNat * h.chunkCount.toNat + c.toNat) c) := by
  unfold Memory.addRef
  rw [decide_eq_true (hm.refcount.symm ▸ hc : c.toNat < m.refcount.length), access_true]
  dsimp only
  rw [decide_eq_true (hm.outstanding_lt hs hc), access_true]
  exact hm.counts ..

/-! ### The book -/

theorem Booked.moves (hm : Booked h m) (hmove : ∀ hd k, hd.chunkCount = h.chunkCount.toNat →
    Tracks h k m → ∃ k', k.Moves hd k' ∧ Tracks h k' m') : Booked h m' := by
  obtain ⟨hd, k, hcount, hk, ht⟩ := hm
  obtain ⟨k', hkk', ht'⟩ := hmove hd k hcount ht
  exact ⟨hd, k', hcount, hk.moves hkk', ht'⟩

theorem Tracks.refcount_getD (ht : Tracks h k m) {c : ℕ} (hc : c < h.chunkCount.toNat) :
    m.refcount.getD c 0 = k.refcount c := by
  rw [List.getD_eq_getElem?_getD, ht.2.1 c hc, Option.getD_some]

theorem Tracks.outstanding_getD (ht : Tracks h k m) (hs : s < h.maxSubscribers) {c : ℕ}
    (hc : c < h.chunkCount.toNat) :
    m.outstanding.getD (s.toNat * h.chunkCount.toNat + c) 0 = k.outstanding s.toNat c := by
  rw [List.getD_eq_getElem?_getD, ht.2.2 s.toNat hs c hc, Option.getD_some]

theorem Tracks.counts (ht : Tracks h k m) (hs : s < h.maxSubscribers) {c : ℕ}
    (hc : c < h.chunkCount.toNat) (v w : ℕ) :
    Tracks h ((k.setOutstanding s.toNat c v).setRefcount c w)
      { m with
        outstanding := m.outstanding.set (s.toNat * h.chunkCount.toNat + c) v
        refcount := m.refcount.set c w } := by
  obtain ⟨hfree, href, hout⟩ := ht
  refine ⟨hfree, fun c' hc' => ?_, fun s' hs' c' hc' => ?_⟩
  · have hlt := (List.getElem?_eq_some_iff.mp (href c hc)).1
    simp only [Book.setRefcount, Book.setOutstanding, List.getElem?_set, Function.update_apply,
      hlt, if_true, href c' hc', eq_comm (a := c)]
    split <;> rfl
  · have hlt := (List.getElem?_eq_some_iff.mp (hout s.toNat hs c hc)).1
    have hidx : s.toNat * h.chunkCount.toNat + c = s' * h.chunkCount.toNat + c' ↔
        s' = s.toNat ∧ c' = c := by
      constructor
      · intro heq
        have hdiv := congrArg (· / h.chunkCount.toNat) heq
        have hpos : 0 < h.chunkCount.toNat := by omega
        simp only [Nat.mul_comm _ h.chunkCount.toNat, Nat.mul_add_div hpos, Nat.div_eq_of_lt hc,
          Nat.div_eq_of_lt hc', Nat.add_zero] at hdiv
        subst hdiv
        exact ⟨rfl, by omega⟩
      · rintro ⟨rfl, rfl⟩
        rfl
    simp only [Book.setRefcount, Book.setOutstanding, List.getElem?_set, Function.update_apply,
      hlt, if_true, hidx, hout s' hs' c' hc']
    by_cases hs₁ : s' = s.toNat
    · subst hs₁
      by_cases hc₁ : c' = c <;> simp [hc₁]
    · simp [hs₁]

theorem Tracks.freeIfUnused (ht : Tracks h k m) (hc : c < h.chunkCount) :
    Tracks h (k.freeIfUnused c.toNat) (m.freeIfUnused c) := by
  unfold Memory.freeIfUnused Book.freeIfUnused
  dsimp only [Memory.access]
  rw [ht.refcount_getD hc]
  split
  · exact ⟨congrArg (c.toNat :: ·) ht.1, ht.2⟩
  · exact ht

theorem Tracks.reclaimChunk (ht : Tracks h k m) (hm : Bounded h m) (hs : s < h.maxSubscribers)
    {c : ℕ} (hc : c < h.chunkCount.toNat) :
    Tracks h (k.reclaimChunk s.toNat c) (m.reclaimChunk s h.chunkCount c) := by
  have hlt := h.chunkCount.isLt
  have hcount : (BitVec.ofNat 32 c).toNat = c := Nat.mod_eq_of_lt (by omega)
  unfold Memory.reclaimChunk Book.reclaimChunk
  dsimp only
  rw [decide_eq_true (hm.outstanding_lt hs hc), access_true, ht.refcount_getD hc,
    ht.outstanding_getD hs hc]
  split
  · exact ht
  · have hfree := (ht.counts hs hc 0 ((k.refcount c + 2 ^ 16 - k.outstanding s.toNat c) %
      2 ^ 16)).freeIfUnused (c := BitVec.ofNat 32 c) (by rw [BitVec.lt_def, hcount]; exact hc)
    rw [hcount] at hfree
    exact hfree

theorem Intact.freeIfUnused (hm : Intact h m) (hc : c < h.chunkCount) :
    Intact h (m.freeIfUnused c) :=
  ⟨hm.toBounded.freeIfUnused hc,
    hm.booked.moves fun _ _ _ ht => ⟨_, .freeIfUnused c.toNat, ht.freeIfUnused hc⟩⟩

theorem Intact.dropRef (hm : Intact h m) (hs : s < h.maxSubscribers) (hc : c < h.chunkCount) :
    Intact h (m.dropRef (s.toNat * h.chunkCount.toNat + c.toNat) c) := by
  refine ⟨hm.toBounded.dropRef hs hc,
    hm.booked.moves fun hd k hcount ht => ⟨_, .releaseRef s.toNat c.toNat, ?_⟩⟩
  unfold Memory.dropRef Book.releaseRef
  dsimp only
  rw [decide_eq_true (hm.outstanding_lt hs hc), access_true, hcount, if_neg (Nat.not_le.mpr hc),
    ht.refcount_getD hc, ht.outstanding_getD hs hc]
  split
  · exact ht
  · exact (ht.counts hs hc _ _).freeIfUnused hc

theorem Intact.addRef (hm : Intact h m) (hs : s < h.maxSubscribers) (hc : c < h.chunkCount) :
    Intact h (m.addRef (s.toNat * h.chunkCount.toNat + c.toNat) c) := by
  refine ⟨hm.toBounded.addRef hs hc,
    hm.booked.moves fun hd k hcount ht => ⟨_, .addRef s.toNat c.toNat, ?_⟩⟩
  unfold Memory.addRef Book.addRef
  dsimp only [Memory.access]
  rw [ht.refcount_getD hc, ht.outstanding_getD hs hc]
  exact ht.counts hs hc _ _

theorem releaseRef_keeps (hs : s < h.maxSubscribers) (c : BitVec 32) :
    (releaseRef s c).Keeps (Intact h) fun _ => True := by
  refine keeps_seq (hdr_keeps (·.chunkCount)) ?_
  rintro _ rfl
  split
  · exact keeps_ret trivial
  · next hc =>
    refine keeps_seq (hdr_keeps (·.chunkCount)) ?_
    rintro _ rfl
    refine keeps_seq (keeps_write fun m hm => hm.dropRef hs ?_) fun _ _ =>
      keeps_ret trivial
    rw [ge_iff_le, BitVec.le_def] at hc
    rw [BitVec.lt_def]
    omega

theorem loadRing_keeps {ring i : BitVec 64}
    (hring : (touchRing ring i).Keeps (Intact h) fun _ => True) :
    (loadRing ring i).Keeps (Intact h) fun _ => True :=
  keeps_seq hring fun _ _ => keeps_choose fun _ => keeps_ret trivial

theorem drainDone_keeps (hs : s < h.maxSubscribers) :
    (drainDone s).Keeps (Intact h) fun _ => True := by
  refine keeps_seq (slot_keeps hs) fun sl hsl => ?_
  refine keeps_seq (hdr_keeps (·.queueCapacity)) ?_
  rintro _ rfl
  refine keeps_seq (hdr_keeps (·.completionCapacity)) ?_
  rintro _ rfl
  refine keeps_seq (load_keeps hsl _) fun tail _ => ?_
  refine keeps_seq (load_keeps hsl _) fun head _ => ?_
  split
  · exact keeps_ret trivial
  · refine keeps_seq (R := fun _ => True) (keeps_loop (fun _ => True) trivial
      fun tail _ => ?_) fun _ _ => touch_keeps hsl _
    split
    · exact keeps_ret trivial
    · refine keeps_seq (loadRing_keeps (doneEntry_keeps hsl tail)) fun c _ => ?_
      exact keeps_seq (releaseRef_keeps hs c) fun _ _ => keeps_ret trivial

theorem Intact.reclaimChunks (hm : Intact h m) (hs : s < h.maxSubscribers) :
    Intact h ((List.range h.chunkCount.toNat).foldl (Memory.reclaimChunk s h.chunkCount) m) := by
  have hfold : ∀ (l : List ℕ) (k : Book) (m : Memory), (∀ c ∈ l, c < h.chunkCount.toNat) →
      Bounded h m → Tracks h k m → Bounded h (l.foldl (Memory.reclaimChunk s h.chunkCount) m) ∧
        Tracks h (l.foldl (fun k c => k.reclaimChunk s.toNat c) k)
          (l.foldl (Memory.reclaimChunk s h.chunkCount) m) := by
    intro l
    induction l with
    | nil => exact fun k m _ hb ht => ⟨hb, ht⟩
    | cons c l ih =>
        intro k m hl hb ht
        have hc := hl c (List.mem_cons_self ..)
        exact ih _ _ (fun c' hc' => hl c' (List.mem_cons_of_mem _ hc')) (hb.reclaimChunk hs hc)
          (ht.reclaimChunk hb hs hc)
  obtain ⟨hd, k, hcount, hk, ht⟩ := hm.booked
  obtain ⟨hb, ht'⟩ := hfold (List.range h.chunkCount.toNat) k m (fun _ => List.mem_range.mp)
    hm.toBounded ht
  refine ⟨hb, hd, _, hcount, hk.moves (.reclaimChunks s.toNat), ?_⟩
  rw [Book.reclaimChunks, hcount]
  exact ht'

theorem reclaimSlot_keeps (hs : s < h.maxSubscribers) :
    (reclaimSlot s).Keeps (Intact h) fun _ => True := by
  refine keeps_seq (drainDone_keeps hs) fun _ _ => ?_
  refine keeps_seq (hdr_keeps (·.chunkCount)) ?_
  rintro _ rfl
  refine keeps_seq (keeps_write fun m hm => hm.reclaimChunks hs) fun _ _ => ?_
  refine keeps_seq (slot_keeps hs) fun sl hsl => ?_
  refine keeps_seq (keeps_fold fun _ w _ => touch_keeps hsl w) fun _ _ => ?_
  refine keeps_seq (getPidfd_keeps hs) fun fd _ => ?_
  refine keeps_seq (whenever_keeps (setPidfd_keeps hs false) fd) fun _ _ => ?_
  refine keeps_seq (setActive_keeps hs false) fun _ _ => ?_
  exact keeps_seq (setClaimedSince_keeps hs 0) fun _ _ => touch_keeps hsl _

/-! ### Slots -/

theorem forSlots_keeps {α : Type} {a : α} {body : α → BitVec 32 → Prog Memory α}
    (hbody : ∀ a s, s < h.maxSubscribers → (body a s).Keeps (Intact h) fun _ => True) :
    (forSlots a body).Keeps (Intact h) fun _ => True := by
  refine keeps_loop (fun _ => True) trivial fun x _ => ?_
  refine keeps_seq (hdr_keeps (·.maxSubscribers)) ?_
  rintro _ rfl
  split
  · next hs => exact keeps_seq (hbody _ _ hs) fun _ _ => keeps_ret trivial
  · exact keeps_ret trivial

theorem listSlot_keeps (hs : s < h.maxSubscribers) (pass : Bool) :
    (listSlot pass s).Keeps (Intact h) fun _ => True := by
  refine keeps_seq (isActive_keeps hs) fun onboarded _ => ?_
  split
  · refine keeps_seq (slot_keeps hs) fun sl hsl => ?_
    refine keeps_seq (load_keeps hsl _) fun overflow _ => ?_
    split
    · refine keeps_write fun m hm => { hm with listed := ?_ }
      intro s' hs'
      rcases List.mem_append.mp hs' with hs' | hs'
      · exact hm.listed s' hs'
      · rwa [List.mem_singleton.mp hs']
    · exact keeps_ret trivial
  · exact keeps_ret trivial

theorem rebuildActiveList_keeps : rebuildActiveList.Keeps (Intact h) fun _ => True := by
  refine keeps_seq (keeps_write fun m hm => { hm with listed := ?_ }) fun _ _ => ?_
  · intro s hs
    cases hs
  · exact keeps_fold fun _ pass _ => forSlots_keeps fun _ s hs => listSlot_keeps hs pass

theorem joined_keeps (hs : s < h.maxSubscribers) (st : SlotState) :
    (joined s st).Keeps (Intact h) fun _ => True := by
  unfold joined
  split
  · exact keeps_seq (isActive_keeps hs) fun _ _ => keeps_ret trivial
  · exact keeps_ret trivial

theorem scanSlot_keeps (changed : Bool) (hs : s < h.maxSubscribers) :
    (scanSlot changed s).Keeps (Intact h) fun _ => True := by
  refine keeps_seq (slot_keeps hs) fun sl hsl => ?_
  refine keeps_seq (load_keeps hsl _) fun word _ => ?_
  refine keeps_seq (joined_keeps hs _) fun joining _ => ?_
  have hreclaim : ∀ b : Bool, (do reclaimSlot s; return b : Prog Memory Bool).Keeps (Intact h)
      fun _ => True := fun b =>
    keeps_seq (reclaimSlot_keeps hs) fun _ _ => keeps_ret trivial
  split
  · refine keeps_seq (load_keeps hsl _) fun _ _ => keeps_choose fun opened => ?_
    refine keeps_seq (setPidfd_keeps hs _) fun _ _ => ?_
    refine keeps_seq (getPidfd_keeps hs) fun fd _ => ?_
    split
    · exact keeps_seq (setActive_keeps hs true) fun _ _ => keeps_ret trivial
    · exact hreclaim true
  · split
    · exact hreclaim true
    · exact keeps_ret trivial

theorem scanSlots_keeps : scanSlots.Keeps (Intact h) fun _ => True := by
  refine keeps_seq (forSlots_keeps fun changed s hs => scanSlot_keeps changed hs) fun c _ => ?_
  split
  · exact rebuildActiveList_keeps
  · exact keeps_ret trivial

theorem slotDead_keeps (hs : s < h.maxSubscribers) (st : SlotState) (pid : BitVec 64) :
    (slotDead s st pid).Keeps (Intact h) fun _ => True := by
  refine keeps_seq (isActive_keeps hs) fun onboarded _ => ?_
  split
  · refine keeps_seq (getPidfd_keeps hs) fun _ _ => ?_
    exact keeps_choose fun _ => keeps_ret trivial
  split
  · refine keeps_choose fun now => ?_
    refine keeps_seq (getClaimedSince_keeps hs) fun since _ => ?_
    refine keeps_seq (whenever_keeps (setClaimedSince_keeps hs now) _) fun _ _ => ?_
    exact keeps_seq (getClaimedSince_keeps hs) fun _ _ => keeps_ret trivial
  split
  · exact keeps_choose fun _ => keeps_ret trivial
  · exact keeps_ret trivial

theorem checkSlot_keeps (reaped : ℕ) (hs : s < h.maxSubscribers) :
    (checkSlot reaped s).Keeps (Intact h) fun _ => True := by
  refine keeps_seq (slot_keeps hs) fun sl hsl => ?_
  refine keeps_seq (load_keeps hsl _) fun word _ => ?_
  refine keeps_seq (load_keeps hsl _) fun pid _ => ?_
  refine keeps_seq (slotDead_keeps hs _ pid) fun dead _ => ?_
  refine keeps_seq (whenever_keeps (setClaimedSince_keeps hs 0) _) fun _ _ => ?_
  split
  · exact keeps_seq (reclaimSlot_keeps hs) fun _ _ => keeps_ret trivial
  · exact keeps_ret trivial

theorem checkLiveness_keeps : checkLiveness.Keeps (Intact h) fun _ => True := by
  refine keeps_seq scanSlots_keeps fun _ _ => ?_
  refine keeps_seq (forSlots_keeps fun reaped s hs => checkSlot_keeps reaped hs)
    fun reaped _ => ?_
  split
  · exact keeps_seq rebuildActiveList_keeps fun _ _ => keeps_ret trivial
  · exact keeps_ret trivial

/-! ### Calls -/

/-- The onboarded slots. -/
theorem activeList_keeps : (Prog.read fun m : Memory => m.activeList).Keeps (Intact h)
    fun l => ∀ s ∈ l, s < h.maxSubscribers :=
  keeps_read fun _ hm => hm.listed

theorem popFree_keeps : popFree.Keeps (Intact h) fun _ => True := by
  refine keeps_update fun m hm => ⟨?_, trivial⟩
  cases hf : m.free with
  | nil => exact hm
  | cons c rest =>
      have hc : ∀ c' ∈ c :: rest, c' < h.chunkCount := hf ▸ hm.free
      refine { hm with
        free := fun c' hc' => hc c' (List.mem_cons_of_mem _ hc')
        loans := ?_
        booked := hm.booked.moves fun hd k _ ht => ?_ }
      · rintro c' (_ | ⟨_, hc'⟩)
        · exact hc c (List.mem_cons_self ..)
        · exact hm.loans c' hc'
      · have hfree := ht.1
        rw [hf, List.map_cons] at hfree
        exact ⟨_, .pop hfree.symm, rfl, ht.2⟩

theorem loan_keeps : loan.Keeps (Intact h) fun _ => True := by
  refine keeps_seq (keeps_read (P := fun _ => True) fun _ _ => trivial) fun limit _ => ?_
  split
  · exact keeps_ret trivial
  refine keeps_seq activeList_keeps fun slots hslots => ?_
  refine keeps_seq (keeps_fold fun _ s hs => drainDone_keeps (hslots s hs)) fun _ _ => ?_
  refine keeps_seq (keeps_read (P := fun _ => True) fun _ _ => trivial) fun none _ => ?_
  split
  · exact keeps_seq scanSlots_keeps fun _ _ => popFree_keeps
  · exact popFree_keeps

theorem releaseLoan_keeps (hc : c < h.chunkCount) :
    (releaseLoan c).Keeps (Intact h) fun _ => True := by
  refine keeps_seq (keeps_write fun m hm => ?_) fun _ _ => keeps_ret trivial
  refine { hm with
    free := (hm.toBounded.freeChunk hc).free
    loans := fun c' hc' => hm.loans c' (List.mem_of_mem_erase hc')
    booked := hm.booked.moves fun _ _ _ ht =>
      ⟨_, .freeChunk c.toNat, congrArg (c.toNat :: ·) ht.1, ht.2⟩ }

theorem orLeft_keeps (hsl : IsSlot h sl) (b : Bool) :
    (orLeft sl b).Keeps (Intact h) fun _ => True := by
  unfold orLeft
  split
  · exact keeps_ret trivial
  · exact keeps_seq (load_keeps hsl _) fun _ _ => keeps_ret trivial

theorem blockRound_keeps (hsl : IsSlot h sl) (head cap : BitVec 64) (blockStart : ℕ)
    (report : SendReport) :
    (blockRound sl head cap blockStart report).Keeps (Intact h) fun _ => True := by
  refine keeps_choose fun now => ?_
  dsimp only
  generalize (if blockStart = 0 then now else blockStart) = start
  refine keeps_seq (load_keeps hsl _) fun us _ => ?_
  refine keeps_seq (orLeft_keeps hsl _) fun gone _ => ?_
  split
  · refine keeps_seq (touch_keeps hsl _) fun _ _ => ?_
    exact keeps_seq (touch_keeps hsl _) fun _ _ => keeps_ret trivial
  split
  · exact keeps_ret trivial
  refine keeps_seq (touch_keeps hsl _) fun _ _ => ?_
  refine keeps_seq (touch_keeps hsl _) fun _ _ => ?_
  refine keeps_seq (load_keeps hsl _) fun tail _ => ?_
  refine keeps_seq (orLeft_keeps hsl _) fun ready _ => ?_
  split
  · exact keeps_seq (touch_keeps hsl _) fun _ _ => keeps_ret trivial
  · refine keeps_seq (load_keeps hsl _) fun _ _ => ?_
    refine keeps_seq (touch_keeps hsl _) fun _ _ => ?_
    exact keeps_seq (touch_keeps hsl _) fun _ _ => keeps_ret trivial

theorem evictRound_keeps (hs : s < h.maxSubscribers) (hsl : IsSlot h sl) (tail : BitVec 64)
    (blockStart : ℕ) (report : SendReport) :
    (evictRound s sl tail (h.queueCapacity.setWidth 64) blockStart report).Keeps (Intact h)
      fun _ => True := by
  refine keeps_seq (loadRing_keeps (dataEntry_keeps hsl tail)) fun victim _ => ?_
  refine keeps_seq (touch_keeps hsl _) fun _ _ => keeps_choose fun won => ?_
  split
  · exact keeps_ret trivial
  · refine keeps_seq (releaseRef_keeps hs victim) fun _ _ => ?_
    exact keeps_seq (touch_keeps hsl _) fun _ _ => keeps_ret trivial

theorem admitRound_keeps (hs : s < h.maxSubscribers) (hsl : IsSlot h sl) (head : BitVec 64)
    (policy : Overflow) (blockStart : ℕ) (report : SendReport) :
    (admitRound s sl head (h.queueCapacity.setWidth 64) policy blockStart report).Keeps (Intact h)
      fun _ => True := by
  refine keeps_seq (load_keeps hsl _) fun tail _ => ?_
  split
  · exact keeps_ret trivial
  cases policy with
  | dropNewest => exact keeps_seq (touch_keeps hsl _) fun _ _ => keeps_ret trivial
  | dropOldest => exact evictRound_keeps hs hsl tail blockStart report
  | block => exact blockRound_keeps hsl head _ blockStart report
  | other v => exact keeps_ret trivial

theorem enqueue_keeps (hs : s < h.maxSubscribers) (hc : c < h.chunkCount) (hsl : IsSlot h sl)
    (head : BitVec 64) (blockStart : ℕ) (report : SendReport) :
    (enqueue s c sl head (h.queueCapacity.setWidth 64) blockStart report).Keeps (Intact h)
      fun _ => True := by
  refine keeps_seq (whenever_keeps (touch_keeps hsl _) _) fun _ _ => ?_
  refine keeps_seq (dataEntry_keeps hsl head) fun _ _ => ?_
  refine keeps_seq (touch_keeps hsl _) fun _ _ => ?_
  refine keeps_seq (hdr_keeps (·.chunkCount)) ?_
  rintro _ rfl
  refine keeps_seq (keeps_write fun m hm => hm.addRef hs hc) fun _ _ => ?_
  refine keeps_seq (touch_keeps hsl _) fun _ _ => ?_
  refine keeps_seq (load_keeps hsl _) fun sleeping _ => ?_
  exact keeps_seq (whenever_keeps (touch_keeps hsl _) _) fun _ _ => keeps_ret trivial

theorem deliver_keeps (hc : c < h.chunkCount) (report : SendReport) (hs : s < h.maxSubscribers) :
    (deliver c report s).Keeps (Intact h) fun _ => True := by
  refine keeps_seq (slot_keeps hs) fun sl hsl => ?_
  refine keeps_seq (hdr_keeps (·.queueCapacity)) ?_
  rintro _ rfl
  refine keeps_seq (load_keeps hsl _) fun head _ => ?_
  refine keeps_seq (load_keeps hsl _) fun policy _ => ?_
  refine keeps_seq (R := fun _ => True) (keeps_loop (fun _ => True) trivial fun x _ => ?_)
    fun r _ => ?_
  · refine (admitRound_keeps hs hsl head _ x.1 x.2).mono ?_
    rintro (y | r) -
    · trivial
    · trivial
  · cases r with
    | refused report => exact keeps_ret trivial
    | room blockStart report => exact enqueue_keeps hs hc hsl head blockStart report

theorem send_keeps (hc : c < h.chunkCount) : (send c).Keeps (Intact h) fun _ => True := by
  have htouch : ∀ {d : BitVec 64}, d.toNat + 8 ≤ 16 * h.chunkCount.toNat →
      (touchData d 8).Keeps (Intact h) fun _ => True := fun hd =>
    keeps_write fun m hm => hm.access (decide_eq_true (hd.trans hm.extent.headers))
  have hlt := h.chunkCount.isLt
  have hc' : c.toNat < h.chunkCount.toNat := hc
  have hoff : (16 * c.setWidth 64).toNat = 16 * c.toNat := by
    rw [BitVec.toNat_mul, BitVec.toNat_setWidth]
    show 16 * (c.toNat % 2 ^ 64) % 2 ^ 64 = _
    omega
  have hoff' : (16 * c.setWidth 64 + 8).toNat = 16 * c.toNat + 8 := by
    rw [BitVec.toNat_add, hoff]
    show (16 * c.toNat + 8) % 2 ^ 64 = _
    omega
  refine keeps_seq (R := fun _ => True) (keeps_update fun m hm => ⟨?_, trivial⟩)
    fun seq _ => ?_
  · exact { hm with loans := fun c' hc' => hm.loans c' (List.mem_of_mem_erase hc') }
  refine keeps_seq (htouch (by omega)) fun _ _ => ?_
  refine keeps_seq (htouch (by omega)) fun _ _ => ?_
  refine keeps_seq scanSlots_keeps fun _ _ => ?_
  refine keeps_seq activeList_keeps fun slots hslots => ?_
  refine keeps_seq (keeps_fold fun report s hs => deliver_keeps hc report (hslots s hs))
    fun report _ => ?_
  refine keeps_seq (keeps_write fun m hm => hm.freeIfUnused hc) fun _ _ => ?_
  refine keeps_seq (R := fun _ => True) (keeps_update fun m hm => ⟨?_, trivial⟩)
    fun check _ => ?_
  · dsimp only
    split
    · split
      · exact { hm with }
      · exact { hm with }
    · exact hm
  split
  · exact keeps_seq checkLiveness_keeps fun _ _ => keeps_ret trivial
  · exact keeps_ret trivial

end Bounds

end Memory

/-! ## The machine -/

/-- The memory, and what is left to do of the publisher's call. -/
structure Exposed where
  mem : Memory
  pub : Prog Memory Unit

inductive MemoryEvent where
  | loan
  | releaseLoan (c : BitVec 32)
  | send (c : BitVec 32)
  | payload (c : BitVec 32)
  | checkLiveness
  /-- A step of the publisher; `n` is what it loads from a slot or a ring. -/
  | publisher (n : ℕ)
  /-- A subscriber writes to the header. -/
  | writeHeader (h : SegmentHeader)

namespace Exposed

/-- The publisher is called. -/
def call (x : Exposed) (p : Prog Memory Unit) : Option Exposed :=
  if x.pub.returned then some { x with pub := p } else none

/-- The next state. -/
def next (x : Exposed) : MemoryEvent → Option Exposed
  | .loan => x.call (do let _ ← Memory.loan; return ())
  | .releaseLoan c => if c ∈ x.mem.loans then x.call (Memory.releaseLoan c) else none
  | .send c =>
      if c ∈ x.mem.loans then x.call (do let _ ← Memory.send c; return ()) else none
  | .payload c => if c ∈ x.mem.loans then x.call (Memory.payload c) else none
  | .checkLiveness => x.call (do let _ ← Memory.checkLiveness; return ())
  | .publisher n => (x.pub.step n x.mem).map fun (p, m) => ⟨m, p⟩
  | .writeHeader h => some { x with mem := { x.mem with hdr := h } }

/-- What the constructor leaves. -/
def create (cfg : ServiceConfig) (typeSize : BitVec 64) (l : Layout) : Exposed where
  mem :=
    { hdr := {
        maxSubscribers := cfg.maxSubscribers
        queueCapacity := l.queueCapacity
        completionCapacity := l.completionCapacity
        maxLoans := cfg.maxLoans
        chunkCount := l.chunkCount
        chunkStride := l.chunkStride
        slotStride := l.slotStride
        slotsOffset := l.slotsOffset
        payloadsOffset := l.payloadsOffset }
      controlSize := l.totalSize.toNat
      dataSize := l.dataSize.toNat
      typeSize := typeSize.toNat
      free := (List.range l.chunkCount.toNat).map (BitVec.ofNat 32)
      refcount := List.replicate l.chunkCount.toNat 0
      outstanding := List.replicate (cfg.maxSubscribers.toNat * l.chunkCount.toNat) 0
      active := List.replicate cfg.maxSubscribers.toNat false
      pidfds := List.replicate cfg.maxSubscribers.toNat false
      activeList := []
      claimedSince := List.replicate cfg.maxSubscribers.toNat 0
      loansOut := 0
      nextSeq := 1
      livenessEvery := cfg.livenessCheckEvery.toNat
      sendsSinceLiveness := 0
      loans := []
      fault := false }
  pub := .ret ()

end Exposed

/-- The publisher and whoever maps the control segment.  The constructor accepts at most `65535`
chunks, and the sizes of the segments do not wrap. -/
def exposed : Machine Exposed MemoryEvent where
  init x := ∃ (cfg : ServiceConfig) (typeSize typeAlign : BitVec 64) (l : Layout),
    cfg.maxSubscribers ≠ 0 ∧ Layout.computeLayout cfg typeSize typeAlign = some l ∧
      l.chunkCount.toNat ≤ 65535 ∧ Layout.Fits cfg typeSize typeAlign l ∧
      x = Exposed.create cfg typeSize l
  next := Exposed.next

/-- Nobody changes the header. -/
def HeaderKept (x : Exposed) : MemoryEvent → Prop
  | .writeHeader h => h = x.mem.hdr
  | _ => True

instance (x : Exposed) : (e : MemoryEvent) → Decidable (HeaderKept x e)
  | .writeHeader h => inferInstanceAs (Decidable (h = x.mem.hdr))
  | .loan | .releaseLoan _ | .send _ | .payload _ | .checkLiveness | .publisher _ => isTrue trivial

namespace Exposed

/-- Every access was, and every access of the call in progress will be, in bounds. -/
structure Inv (h : SegmentHeader) (x : Exposed) : Prop where
  intact : Memory.Intact h x.mem
  pub : x.pub.wp (.keeping (Memory.Intact h)) (fun _ _ => True) x.mem

theorem Inv.init {x : Exposed} (hx : exposed.init x) : Inv x.mem.hdr x := by
  obtain ⟨cfg, typeSize, typeAlign, l, -, hl, hcount, hfits, rfl⟩ := hx
  have hroomy := Layout.computeLayout_roomy hl hcount hfits
  refine ⟨⟨⟨rfl, ?_, ?_, ?_, ?_, List.length_replicate, List.length_replicate,
    List.length_replicate, List.length_replicate, List.length_replicate, rfl⟩,
    -- the constructor leaves the book of a new publisher
    (Bus.create cfg l 0 0).hdr, (Bus.create cfg l 0 0).book, rfl,
    ⟨_, ⟨rfl, fun _ => rfl, fun _ _ => rfl⟩, .refl⟩, ?_, fun c hc => ?_, fun s hs c hc => ?_⟩,
    trivial⟩
  · have hheaders := hroomy.headers
    have hdata := hroomy.data
    exact ⟨hroomy.queue_pos, hroomy.completion_pos, hroomy.slot, hroomy.control,
      l.totalSize.isLt, by
        show 16 * l.chunkCount.toNat ≤ l.dataSize.toNat
        omega, hroomy.chunk, hroomy.data, l.dataSize.isLt⟩
  · intro c hc
    obtain ⟨n, hn, rfl⟩ := List.mem_map.mp hc
    have hlt := List.mem_range.mp hn
    show (BitVec.ofNat 32 n).toNat < l.chunkCount.toNat
    rw [BitVec.toNat_ofNat, Nat.mod_eq_of_lt (by omega)]
    exact hlt
  · intro c hc
    cases hc
  · intro s hs
    cases hs
  · show ((List.range _).map _).map _ = List.range _
    rw [List.map_map]
    refine (List.map_congr_left fun n hn => ?_).trans (List.map_id _)
    have hlt := List.mem_range.mp hn
    exact Nat.mod_eq_of_lt (by omega)
  · exact (List.getElem?_replicate ..).trans (if_pos hc)
  · refine (List.getElem?_replicate ..).trans (if_pos ?_)
    calc s * l.chunkCount.toNat + c < (s + 1) * l.chunkCount.toNat := by
          rw [Nat.add_mul, Nat.one_mul]
          exact Nat.add_lt_add_left hc _
      _ ≤ cfg.maxSubscribers.toNat * l.chunkCount.toNat := Nat.mul_le_mul_right _ hs

theorem Inv.call {h : SegmentHeader} {x y : Exposed} {p : Prog Memory Unit} (inv : Inv h x)
    (hp : p.Keeps (Memory.Intact h) fun _ => True) (hn : x.call p = some y) : Inv h y := by
  unfold Exposed.call at hn
  split at hn
  · cases hn
    exact ⟨inv.intact, hp x.mem⟩
  · cases hn

/-- A call on a chunk that is on loan. -/
theorem Inv.callOn {h : SegmentHeader} {x y : Exposed} {c : BitVec 32} {p : Prog Memory Unit}
    (inv : Inv h x) (hp : c < h.chunkCount → p.Keeps (Memory.Intact h) fun _ => True)
    (hn : (if c ∈ x.mem.loans then x.call p else none) = some y) : Inv h y := by
  split at hn
  · next hc => exact inv.call (hp (inv.intact.loans c hc)) hn
  · cases hn

theorem Inv.next {h : SegmentHeader} {x y : Exposed} {e : MemoryEvent} (inv : Inv h x)
    (hok : HeaderKept x e) (hn : x.next e = some y) : Inv h y := by
  have hunit : ∀ {α : Type} {p : Prog Memory α}, p.Keeps (Memory.Intact h) (fun _ => True) →
      (do let _ ← p; return () : Prog Memory Unit).Keeps (Memory.Intact h) fun _ => True :=
    fun hp => Prog.keeps_seq hp fun _ _ => Prog.keeps_ret trivial
  cases e with
  | loan => exact inv.call (hunit Memory.loan_keeps) hn
  | releaseLoan c => exact inv.callOn Memory.releaseLoan_keeps hn
  | send c => exact inv.callOn (fun hc => hunit (Memory.send_keeps hc)) hn
  | payload c => exact inv.callOn Memory.payload_keeps hn
  | checkLiveness => exact inv.call (hunit Memory.checkLiveness_keeps) hn
  | publisher n =>
      obtain ⟨⟨p, m⟩, hs, rfl⟩ := Option.map_eq_some_iff.mp hn
      obtain ⟨hm, -, hp⟩ := Prog.wp_step inv.pub inv.intact hs trivial
      exact ⟨hm, hp⟩
  | writeHeader h' =>
      cases hn
      rw [show h' = x.mem.hdr from hok]
      exact inv

theorem Inv.of_reach {x : Exposed} (h : exposed.Reach HeaderKept x) : ∃ hdr, Inv hdr x :=
  h.invariant (P := fun x => ∃ hdr, Inv hdr x) (fun x hx => ⟨x.mem.hdr, .init hx⟩)
    fun _ _ _ ⟨hdr, inv⟩ hok hn => ⟨hdr, inv.next hok hn⟩

/-- The chunks and references are those of a book that the steps of the publisher on the bus lead
to, whatever is loaded. -/
theorem vectors_hold_book {x : Exposed} (h : exposed.Reach HeaderKept x) :
    Memory.Booked x.mem.hdr x.mem := by
  obtain ⟨hdr, inv⟩ := Inv.of_reach h
  rw [inv.intact.hdr]
  exact inv.intact.booked

end Exposed

/-- **Every access is in bounds**, whatever the slots and rings hold, as long as nobody writes to
the header. -/
theorem addresses_in_bounds {x : Exposed} (h : exposed.Reach HeaderKept x) :
    x.mem.fault = false := by
  obtain ⟨hdr, inv⟩ := Exposed.Inv.of_reach h
  exact inv.intact.sound

/-! ### A header that is overwritten -/

/-- One subscriber, a queue of one entry, one borrowed sample, one loan, payloads of 8 bytes. -/
def small : Exposed :=
  let cfg : ServiceConfig := ⟨1, 1, 1, 1, 0⟩
  match Layout.computeLayout cfg 8 8 with
  | some l => Exposed.create cfg 8 l
  | none => Exposed.create cfg 8 ⟨0, 0, 0, 0, 0, 0, 0, 0, 0, 0⟩

theorem small_init : exposed.init small :=
  ⟨⟨1, 1, 1, 1, 0⟩, 8, 8, _, by decide, rfl, by decide, by decide, rfl⟩

/-- A chunk is loaned, and the application gets its payload. -/
theorem addresses_in_bounds_loaned : ∃ x, exposed.Reach HeaderKept x ∧
    (x.pub.returned = true ∧ x.mem.loans = [0]) ∧ x.mem.fault = false := by
  have hrun : ∃ x, exposed.Reach HeaderKept x ∧ x.pub.returned = true ∧ x.mem.loans = [0] :=
    Machine.exists_reach_of_exec (List.flatten [[.loan], List.replicate 4 (.publisher 0),
      [.payload 0], List.replicate 3 (.publisher 0)]) small_init (by decide +kernel)
  obtain ⟨x, hx, hp⟩ := hrun
  exact ⟨x, hx, hp, addresses_in_bounds hx⟩

/-- A subscriber overwrites `slots_offset`, and `check_liveness` loads from outside the segment. -/
theorem slot_outside_segment : ∃ x, exposed.Reach Machine.Always x ∧ x.mem.fault = true :=
  Machine.exists_reach_of_exec
    ([.writeHeader { small.mem.hdr with slotsOffset := 2 ^ 40 }, .checkLiveness] ++
      List.replicate 5 (.publisher 0)) small_init (by decide +kernel)

end Devbus
