/-
# The publisher, one atomic step at a time

Model of `PublisherCore::loan`, `release_loan`, `send`, `check_liveness` and the destructor
and of the functions they call (`userspace/devbus/src/core.cpp`).  Each access to the shared
segments is one atomic step of the program; what the publisher does to its private
members between two accesses belongs to the step before or after.

What the kernel reports about a process is `gone` only for a dead one; for a dead one it
may report either (`Prog.choose`).
-/
import DevicePlatform.Devbus.State
import DevicePlatform.Program

namespace Devbus

/-! ## Chunks and references -/

namespace Book

/-- `free_chunk`. -/
def freeChunk (c : ℕ) (k : Book) : Book := { k with free := c :: k.free }

/-- `outstanding_[s][c] = v`. -/
def setOutstanding (s c v : ℕ) (k : Book) : Book :=
  { k with
    outstanding := Function.update k.outstanding s (Function.update (k.outstanding s) c v) }

/-- `refcount_[c] = v`. -/
def setRefcount (c v : ℕ) (k : Book) : Book :=
  { k with refcount := Function.update k.refcount c v }

/-- Frees `c` if its reference count is 0. -/
def freeIfUnused (c : ℕ) (k : Book) : Book := if k.refcount c = 0 then k.freeChunk c else k

/-- `release_ref`. -/
def releaseRef (h : Header) (s c : ℕ) (k : Book) : Book :=
  if c ≥ h.chunkCount then k
  else if k.outstanding s c = 0 then k
  else
    ((k.setOutstanding s c (dec16 (k.outstanding s c))).setRefcount c
      (dec16 (k.refcount c))).freeIfUnused c

/-- One round of the loop of `reclaim_slot`. -/
def reclaimChunk (s c : ℕ) (k : Book) : Book :=
  if k.outstanding s c = 0 then k
  else
    ((k.setRefcount c ((k.refcount c + 2 ^ 16 - k.outstanding s c) % 2 ^ 16)).setOutstanding s c
      0).freeIfUnused c

/-- The loop of `reclaim_slot`. -/
def reclaimChunks (h : Header) (s : ℕ) (k : Book) : Book :=
  (List.range h.chunkCount).foldl (fun k c => k.reclaimChunk s c) k

/-- `++refcount_[c]` and `++outstanding_[s][c]`. -/
def addRef (s c : ℕ) (k : Book) : Book :=
  (k.setRefcount c (inc16 (k.refcount c))).setOutstanding s c (inc16 (k.outstanding s c))

/-- What a step of the publisher does to the free chunks and the references. -/
inductive Moves (h : Header) (k : Book) : Book → Prop
  /-- The other members may change. -/
  | others {k' : Book} (hsame : (k'.free, k'.refcount, k'.outstanding) =
      (k.free, k.refcount, k.outstanding)) : Moves h k k'
  | pop {c : ℕ} {rest : List ℕ} (hfree : k.free = c :: rest) : Moves h k { k with free := rest }
  | freeChunk (c : ℕ) : Moves h k (k.freeChunk c)
  | freeIfUnused (c : ℕ) : Moves h k (k.freeIfUnused c)
  | releaseRef (s c : ℕ) : Moves h k (k.releaseRef h s c)
  | reclaimChunks (s : ℕ) : Moves h k (k.reclaimChunks h s)
  | addRef (s c : ℕ) : Moves h k (k.addRef s c)

/-- Such steps lead to the book from one with all chunks free and without references. -/
def Reached (h : Header) (k : Book) : Prop :=
  ∃ k₀ : Book, (k₀.free = List.range h.chunkCount ∧ (∀ c, k₀.refcount c = 0) ∧
    ∀ s c, k₀.outstanding s c = 0) ∧ Relation.ReflTransGen (Moves h) k₀ k

theorem Reached.moves {h : Header} {k k' : Book} (hk : k.Reached h) (hm : k.Moves h k') :
    k'.Reached h := by
  obtain ⟨k₀, hfresh, hsteps⟩ := hk
  exact ⟨k₀, hfresh, hsteps.tail hm⟩

end Book

/-! ## The kernel -/

namespace Os

/-- `pidfd_open`. -/
def pidfdOpen (pid : ℕ) : Prog Bus (Option ℕ) := do
  let n ← Prog.choose
  let fd ← Prog.read fun b => if b.alive pid then some pid else if n = 0 then none else some pid
  return fd

/-- `pidfd_alive`. -/
def pidfdAlive (fd : Option ℕ) : Prog Bus Bool :=
  match fd with
  | none => return false
  | some pid => do
      let n ← Prog.choose
      let alive ← Prog.read fun b => b.alive pid || n != 0
      return alive

/-- `process_alive`. -/
def processAlive (pid : ℕ) : Prog Bus Bool :=
  if pid = 0 then return false
  else do
    let n ← Prog.choose
    let alive ← Prog.read fun b => b.alive pid || n != 0
    return alive

/-- `monotonic_ns`. -/
def monotonicNs : Prog Bus ℕ := do
  let now ← Prog.read fun b => b.clock
  return now

end Os

namespace Publisher

/-! ## Taking chunks and slots back -/

/-- `drain_done`. -/
def drainDone (s : ℕ) : Prog Bus Unit := do
  let mask ← Prog.read fun b => b.hdr.completionCapacity - 1
  let tail ← Prog.read fun b => (b.slot s).doneTail
  let head ← Prog.read fun b => (b.slot s).doneHead
  -- `tail == head`, as 64-bit words
  if u64Sub head tail = 0 then return ()
  else do
    let tail ← Prog.repeatUntil tail fun tail =>
      if u64Sub head tail = 0 then return .inr tail
      else do
        -- the load of the entry, and `release_ref`
        Prog.write fun b =>
          (b.setBook fun k => k.releaseRef b.hdr s ((b.slot s).doneRing (tail &&& mask))).setLed s
            fun l => { l with doneRead := l.doneRead + 1 }
        return .inl (tail + 1)
    Prog.write fun b => b.setSlot s fun w => { w with doneTail := tail }
    return ()

/-- The words that `reclaim_slot` stores 0 to. -/
inductive ResetWord where
  | dataHead
  | dataTail
  | doneHead
  | doneTail
  | sleeping
  | delivered
  | droppedOldest
  | droppedNewest
  | blockTimeouts
  | blockedNs
  | pid
  deriving DecidableEq, Repr

/-- These words, in the order of the stores. -/
def resetWords : List ResetWord :=
  [.dataHead, .dataTail, .doneHead, .doneTail, .sleeping, .delivered, .droppedOldest,
    .droppedNewest, .blockTimeouts, .blockedNs, .pid]

/-- A store of 0. -/
def zeroWord (s : ℕ) (b : Bus) : ResetWord → Bus
  | .dataHead => b.setSlot s fun w => { w with dataHead := 0 }
  | .dataTail => b.setSlot s fun w => { w with dataTail := 0 }
  | .doneHead => b.setSlot s fun w => { w with doneHead := 0 }
  | .doneTail => b.setSlot s fun w => { w with doneTail := 0 }
  | .sleeping => b.setFutex s fun f => { f with sleeping := 0 }
  | .delivered => b.setStats s fun c => { c with delivered := 0 }
  | .droppedOldest => b.setStats s fun c => { c with droppedOldest := 0 }
  | .droppedNewest => b.setStats s fun c => { c with droppedNewest := 0 }
  | .blockTimeouts => b.setStats s fun c => { c with blockTimeouts := 0 }
  | .blockedNs => b.setStats s fun c => { c with blockedNs := 0 }
  | .pid => b.setSlot s fun w => { w with pid := 0 }

/-- `reclaim_slot`. -/
def reclaimSlot (s : ℕ) : Prog Bus Unit := do
  drainDone s
  Prog.write fun b =>
    (b.setBook fun k => k.reclaimChunks b.hdr s).setLed s fun _ => Ledger.fresh .reset
  Prog.forEach resetWords fun w => Prog.write fun b => zeroWord s b w
  Prog.write fun b =>
    ((b.setBook fun k =>
        { k with
          pidfds := Function.update k.pidfds s none
          active := Function.update k.active s false
          claimedSince := Function.update k.claimedSince s 0
          ripe := Function.update k.ripe s false }).setSlot s
      fun w => { w with state := .free }).setLed s fun _ => Ledger.fresh .free
  return ()

/-! ## Slots -/

/-- `rebuild_active_list`. -/
def rebuildActiveList : Prog Bus Unit := do
  let n ← Prog.read fun b => b.hdr.maxSubscribers
  Prog.write fun b => b.setBook fun k => { k with activeList := [] }
  Prog.forEach [false, true] fun pass => Prog.forEach (List.range n) fun s => do
    let block ← Prog.read fun b => decide ((b.slot s).overflow = .block)
    Prog.write fun b => b.setBook fun k =>
      if k.active s ∧ block = pass then { k with activeList := k.activeList ++ [s] } else k
    return ()

/-- One round of `scan_slots`; the result is `changed`. -/
def scanSlot (changed : Bool) (s : ℕ) : Prog Bus Bool := do
  let st ← Prog.read fun b => (b.slot s).state
  let onboarded ← Prog.read fun b => b.book.active s
  if st = .active ∧ onboarded = false then do
    let pid ← Prog.read fun b => (b.slot s).pid
    let fd ← Os.pidfdOpen pid
    match fd with
    | none => do
        reclaimSlot s
        return true
    | some p => do
        Prog.write fun b =>
          (b.setBook fun k =>
              { k with
                pidfds := Function.update k.pidfds s (some p)
                active := Function.update k.active s true }).setLed s
            fun l => { l with
              onboardSeq := if b.calls.sending.isSome then b.calls.nextSeq - 1
                else b.calls.nextSeq }
        return true
  else if st = .closing then do
    reclaimSlot s
    return true
  else return changed

/-- The slots that are `Active` now. -/
def activeNow (b : Bus) (s : ℕ) : Bool :=
  match (b.led s).stage with
  | .active _ => true
  | _ => false

/-- `scan_slots`. -/
def scanSlots : Prog Bus Unit := do
  let n ← Prog.update fun b => (b.hdr.maxSubscribers, (b.setBook fun k =>
      { k with ripe := fun s => k.ripe s || activeNow b s }).setCalls fun a =>
    { a with overlooked := a.overlooked || (List.range b.hdr.maxSubscribers).any fun s =>
      b.book.ripe s && !b.book.active s })
  let changed ← Prog.fold (List.range n) false scanSlot
  if changed then rebuildActiveList else return ()

/-- The claim grace period. -/
def claimGraceNs : ℕ := 1000000000

/-- The grace test of `check_liveness` for a slot that is claimed without a pid. -/
def graceTest (s : ℕ) : Prog Bus Bool := do
  let dead ← Prog.update fun b =>
    let since := if b.book.claimedSince s = 0 then b.clock else b.book.claimedSince s
    let dead := decide (b.clock - since > claimGraceNs)
    let claimerAlive :=
      match (b.led s).stage with
      | .claimed _ | .active _ => b.alive (b.led s).ownerPid
      | _ => false
    (dead, { b.setBook fun k => { k with
        claimedSince := Function.update k.claimedSince s since } with
      timedOut := b.timedOut || (dead && claimerAlive) })
  return dead

/-- Whether `check_liveness` finds the subscriber of a slot dead. -/
def slotDead (s : ℕ) (st : SlotState) (pid : ℕ) : Prog Bus Bool := do
  let onboarded ← Prog.read fun b => b.book.active s
  if onboarded then do
    let fd ← Prog.read fun b => b.book.pidfds s
    let alive ← Os.pidfdAlive fd
    return !alive
  else if st = .claimed ∧ pid = 0 then graceTest s
  else if st = .claimed ∨ st = .active then do
    let alive ← Os.processAlive pid
    return !alive
  else return false

/-- One round of `check_liveness`; the result is `reaped`. -/
def checkSlot (reaped : ℕ) (s : ℕ) : Prog Bus ℕ := do
  let st ← Prog.read fun b => (b.slot s).state
  let pid ← Prog.read fun b => (b.slot s).pid
  let dead ← slotDead s st pid
  Prog.write fun b => b.setBook fun k =>
    if st ≠ .claimed ∨ pid ≠ 0 then
      { k with claimedSince := Function.update k.claimedSince s 0 }
    else k
  if dead then do
    reclaimSlot s
    return reaped + 1
  else return reaped

/-- `check_liveness`. -/
def checkLiveness : Prog Bus ℕ := do
  scanSlots
  let n ← Prog.read fun b => b.hdr.maxSubscribers
  let reaped ← Prog.fold (List.range n) 0 checkSlot
  if reaped ≠ 0 then do
    rebuildActiveList
    return reaped
  else return reaped

/-! ## Loans -/

/-- The end of `loan`: the top of `free_`. -/
def popFree : Prog Bus (Except LoanError ℕ) := do
  let r ← Prog.update fun b =>
    match b.book.free with
    | [] => (.error .outOfChunks, b)
    | c :: rest =>
        (.ok c, (b.setBook fun k => { k with free := rest }).setCalls fun a =>
          { a with loansOut := a.loansOut + 1, loans := c :: a.loans })
  return r

/-- `loan`. -/
def loan : Prog Bus (Except LoanError ℕ) := do
  let limit ← Prog.read fun b => decide (b.calls.loansOut ≥ b.hdr.maxLoans)
  if limit then return .error .loanLimit
  else do
    let slots ← Prog.read fun b => b.book.activeList
    Prog.forEach slots drainDone
    let none ← Prog.read fun b => b.book.free.isEmpty
    if none then do
      scanSlots
      let none ← Prog.read fun b => b.book.free.isEmpty
      if none then do
        Prog.write fun b => { b with loanFailures := b.loanFailures + 1 }
        return .error .outOfChunks
      else popFree
    else popFree

/-- `release_loan`. -/
def releaseLoan (c : ℕ) : Prog Bus Unit := do
  Prog.write fun b => (b.setBook fun k => k.freeChunk c).setCalls fun a =>
    { a with loansOut := a.loansOut - 1, loans := a.loans.erase c }
  return ()

/-! ## Delivery -/

/-- `kBlockSpinNs`. -/
def blockSpinNs : ℕ := 20000

/-- How the loop of `deliver` ends: there is room, or the sample is refused. -/
inductive Admission where
  | room (blockStart : ℕ) (report : SendReport)
  | refused (report : SendReport)

/-- `futex_wait(&sl->space_futex, word, …)`: the kernel queues the publisher if the word
is still the same; a wake-up, the timeout or a signal takes it off the queue. -/
def futexWaitSpace (s word : ℕ) : Prog Bus Unit := do
  Prog.write fun b => b.setFutex s fun f =>
    if f.spaceFutex % 2 ^ 32 = word % 2 ^ 32 then { f with publisherQueued := true } else f
  Prog.await fun b => !(b.futex s).publisherQueued
  return ()

/-- The test `left the queue full for too long, or left altogether` of a blocked round. -/
def blockedTooLong (s waited : ℕ) : Prog Bus Bool := do
  let us ← Prog.read fun b => (b.slot s).blockTimeoutUs
  if waited > us * 1000 then return true
  else do
    let st ← Prog.read fun b => (b.slot s).state
    return decide (st ≠ .active)

/-- The test `room now, or left` before the publisher sleeps. -/
def roomOrGone (s head cap : ℕ) : Prog Bus Bool := do
  let tail ← Prog.read fun b => (b.slot s).dataTail
  if u64Sub head tail < cap then return true
  else do
    let st ← Prog.read fun b => (b.slot s).state
    return decide (st ≠ .active)

/-- A round of `deliver` on a full queue under `Overflow::Block`. -/
def blockRound (s head cap : ℕ) (blockStart : ℕ) (report : SendReport) :
    Prog Bus ((ℕ × SendReport) ⊕ Admission) := do
  let now ← Os.monotonicNs
  let blockStart := if blockStart = 0 then now else blockStart
  let gone ← blockedTooLong s (now - blockStart)
  if gone then do
    Prog.write fun b =>
      (b.setStats s fun c => { c with blockTimeouts := c.blockTimeouts + 1 }).setLed s
        fun l => { l with
          refused := l.refused ++ [(b.calls.nextSeq - 1, .blockTimeout)]
          fullAt := l.fullAt ++ [l.seen] }
    Prog.write fun b => b.setStats s fun c =>
      { c with blockedNs := c.blockedNs + (now - blockStart) }
    return .inr (.refused { report with blockTimeouts := report.blockTimeouts + 1 })
  else if now - blockStart < blockSpinNs then return .inl (blockStart, report)
  else do
    let word ← Prog.read fun b => (b.futex s).spaceFutex
    Prog.write fun b => b.setFutex s fun f => { f with publisherWaiting := 1 }
    let ready ← roomOrGone s head cap
    if ready then do
      Prog.write fun b => b.setFutex s fun f => { f with publisherWaiting := 0 }
      return .inl (blockStart, report)
    else do
      futexWaitSpace s word
      Prog.write fun b => b.setFutex s fun f => { f with publisherWaiting := 0 }
      return .inl (blockStart, report)

/-- A round of `deliver` on a full queue under `Overflow::DropOldest`: the publisher races
the subscriber for the oldest entry. -/
def evictRound (s tail cap : ℕ) (blockStart : ℕ) (report : SendReport) :
    Prog Bus ((ℕ × SendReport) ⊕ Admission) := do
  let victim ← Prog.read fun b => (b.slot s).dataRing (tail &&& (cap - 1))
  let won ← Prog.update fun b =>
    if (b.slot s).dataTail = tail then
      (true, ((b.setBook fun k => k.releaseRef b.hdr s victim).setSlot s
          fun w => { w with dataTail := tail + 1 }).setLed s
        fun l => { l with
          evicted := l.evicted ++ (l.pushed[tail]?).toList
          fullAt := l.fullAt ++ [(b.slot s).dataHead - (b.slot s).dataTail] })
    else (false, b)
  if won then do
    Prog.write fun b => b.setStats s fun c => { c with droppedOldest := c.droppedOldest + 1 }
    return .inl (blockStart, { report with evicted := report.evicted + 1 })
  else return .inl (blockStart, report)

/-- A round of the loop of `deliver`. -/
def admitRound (s head cap : ℕ) (policy : Overflow) (blockStart : ℕ) (report : SendReport) :
    Prog Bus ((ℕ × SendReport) ⊕ Admission) := do
  let tail ← Prog.update fun b => ((b.slot s).dataTail, b.setLed s fun l =>
    { l with seen := (b.slot s).dataHead - (b.slot s).dataTail })
  if u64Sub head tail < cap then return .inr (.room blockStart report)
  else match policy with
    | .dropNewest => do
        Prog.write fun b =>
          (b.setStats s fun c => { c with droppedNewest := c.droppedNewest + 1 }).setLed s
            fun l => { l with
              refused := l.refused ++ [(b.calls.nextSeq - 1, .droppedNewest)]
              fullAt := l.fullAt ++ [l.seen] }
        return .inr (.refused { report with rejected := report.rejected + 1 })
    | .dropOldest => evictRound s tail cap blockStart report
    | .block => blockRound s head cap blockStart report
    | .other _ => return .inl (blockStart, report)

/-- The time spent blocked, if any. -/
def chargeBlocked (s blockStart : ℕ) : Prog Bus Unit :=
  if blockStart ≠ 0 then do
    let now ← Os.monotonicNs
    Prog.write fun b => b.setStats s fun c =>
      { c with blockedNs := c.blockedNs + (now - blockStart) }
    return ()
  else return ()

/-- `futex_word.fetch_add(1)` and `futex_wake_all(&futex_word)`. -/
def wakeData (s : ℕ) : Prog Bus Unit := do
  Prog.write fun b => b.setFutex s fun f =>
    { f with futexWord := f.futexWord + 1, dataDue := .wake }
  Prog.write fun b => b.setFutex s fun f =>
    { f with subscriberQueued := false, dataDue := .nothing }
  return ()

/-- The wake-up of a subscriber that is, or is about to be, asleep. -/
def wakeSubscriber (s : ℕ) : Prog Bus Unit := do
  let sleeping ← Prog.update fun b => ((b.futex s).sleeping, b.setFutex s fun f =>
    if f.sleeping = 0 then { f with dataDue := .nothing } else f)
  if sleeping ≠ 0 then wakeData s else return ()

/-- `deliver` once there is room. -/
def enqueue (s chunk head cap : ℕ) (blockStart : ℕ) (report : SendReport) :
    Prog Bus SendReport := do
  chargeBlocked s blockStart
  Prog.write fun b => b.setSlot s fun w =>
    { w with dataRing := Function.update w.dataRing (head &&& (cap - 1)) chunk }
  Prog.write fun b =>
    ((((b.setBook fun k => k.addRef s chunk).setSlot s
        fun w => { w with dataHead := head + 1 }).setLed s
      fun l => { l with
        pushed := l.pushed ++ [⟨b.chunkSeq chunk, b.payload chunk, chunk⟩] }).setCalls
      fun a => { a with sentTo := s :: a.sentTo }).setFutex s
        fun f => { f with dataDue := .bump }
  Prog.write fun b => b.setStats s fun c => { c with delivered := c.delivered + 1 }
  wakeSubscriber s
  return { report with delivered := report.delivered + 1 }

/-- `deliver`; the result is the report so far. -/
def deliver (chunk : ℕ) (report : SendReport) (s : ℕ) : Prog Bus SendReport := do
  let cap ← Prog.read fun b => b.hdr.queueCapacity
  let head ← Prog.read fun b => (b.slot s).dataHead
  let policy ← Prog.read fun b => (b.slot s).overflow
  let r ← Prog.repeatUntil (0, report) fun x => admitRound s head cap policy x.1 x.2
  match r with
  | .refused report => return report
  | .room blockStart report => enqueue s chunk head cap blockStart report

/-- `send`. -/
def send (chunk : ℕ) : Prog Bus SendReport := do
  let seq ← Prog.update fun b => (b.calls.nextSeq, b.setCalls fun a =>
    { a with
      loansOut := a.loansOut - 1
      loans := a.loans.erase chunk
      sending := some chunk
      sentTo := []
      nextSeq := a.nextSeq + 1 })
  Prog.write fun b => { b with chunkSeq := Function.update b.chunkSeq chunk seq }
  Prog.write fun b => { b with publishNs := Function.update b.publishNs chunk b.clock }
  scanSlots
  let slots ← Prog.read fun b => b.book.activeList
  let report ← Prog.fold slots ⟨seq, 0, 0, 0, 0⟩ (deliver chunk)
  Prog.write fun b => (b.setBook fun k => k.freeIfUnused chunk).setCalls fun a =>
    { a with sending := none, sentTo := [], reports := a.reports ++ [(report, slots.length)] }
  Prog.write fun b => { b with published := b.published + 1 }
  let check ← Prog.update fun b =>
    if b.calls.livenessEvery ≠ 0 then
      let n := b.calls.sendsSinceLiveness + 1
      if n ≥ b.calls.livenessEvery then
        (true, b.setCalls fun a => { a with sendsSinceLiveness := 0 })
      else (false, b.setCalls fun a => { a with sendsSinceLiveness := n })
    else (false, b)
  if check then do
    let _ ← checkLiveness
    return report
  else return report

/-! ## The end of the publisher -/

/-- The destructor. -/
def shutdown : Prog Bus Unit := do
  Prog.write fun b =>
    { b with publisherPid := 0, futex := fun s => { b.futex s with dataDue := .bump } }
  let n ← Prog.read fun b => b.hdr.maxSubscribers
  Prog.forEach (List.range n) wakeData

end Publisher

end Devbus
