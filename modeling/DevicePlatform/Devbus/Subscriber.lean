/-
# Subscribers, one atomic step at a time

Model of `SubscriberCore`'s constructor, destructor, `try_receive`, `release` and `wait`
(`userspace/devbus/src/core.cpp`), and of `Recorder::poll` on top of them
(`userspace/devbus/src/record.cpp`).  The private members of subscriber `i` change with the
access to the shared segments before or after.

The constructor is modelled from the check of `publisher_pid` on: opening the segments
and comparing type and layout version touch nothing that is written afterwards.
-/
import DevicePlatform.Devbus.State
import DevicePlatform.Program

namespace Devbus

/-- The end of a successful `try_receive`: the sequence number is read and the members are
updated. -/
def Sub.receive (e : Entry) (u : Sub) : Sub :=
  { u with
    observedGaps :=
      if u.lastSeq ≠ 0 ∧ e.seq > u.lastSeq + 1 then u.observedGaps + (e.seq - u.lastSeq - 1)
      else u.observedGaps
    lastSeq := e.seq
    borrowed := u.borrowed + 1
    received := u.received + 1
    samples := u.samples ++ [e]
    log := u.log ++ [e]
    status := some (.ok e) }

namespace Subscriber

/-! ## Construction and destruction -/

/-- The loop of the constructor over the slots: the first free one is claimed. -/
def claimSlot (i : ℕ) : List ℕ → Prog Bus (Option ℕ)
  | [] => return none
  | s :: rest => do
      let won ← Prog.update fun b =>
        if (b.slot s).state = .free then
          (true, ((b.setSlot s fun w => { w with state := .claimed }).setLed s
              fun l => { l with stage := .claimed i, ownerPid := (b.subs i).pid }).setSub i
            fun u => { u with slot := some s, claimedAt := some b.clock })
        else (false, b)
      if won then return some s else claimSlot i rest

/-- What the constructor stores into the slot it has claimed. -/
def initSlot (i s : ℕ) : Prog Bus Unit := do
  Prog.write fun b => (b.setSlot s fun w => { w with pid := (b.subs i).pid }).setSub i
    fun u => { u with claimedAt := none }
  Prog.write fun b => b.setSlot s fun w => { w with overflow := (b.subs i).overflow }
  Prog.write fun b => b.setSlot s fun w => { w with blockTimeoutUs := (b.subs i).blockTimeoutUs }
  let head ← Prog.read fun b => (b.slot s).dataHead
  Prog.write fun b => b.setSlot s fun w => { w with dataTail := head }
  let tail ← Prog.read fun b => (b.slot s).doneTail
  Prog.write fun b => b.setSlot s fun w => { w with doneHead := tail }
  Prog.write fun b => ((b.setSlot s fun w => { w with state := .active }).setLed s
      fun l => { l with stage := .active i }).setSub i fun u => { u with phase := .live }
  return ()

/-- The constructor. -/
def construct (i : ℕ) : Prog Bus Unit := do
  let pub ← Prog.read fun b => b.publisherPid
  if pub = 0 then do
    Prog.write fun b => b.setSub i fun u => { u with phase := .failed }
    return ()
  else do
    let n ← Prog.read fun b => b.hdr.maxSubscribers
    let s ← claimSlot i (List.range n)
    match s with
    | none => do
        Prog.write fun b => b.setSub i fun u => { u with phase := .failed }
        return ()
    | some s => initSlot i s

/-- `space_futex.fetch_add(1)` and `futex_wake_all(&space_futex)`. -/
def wakeSpace (s : ℕ) : Prog Bus Unit := do
  Prog.write fun b => b.setFutex s fun f =>
    { f with spaceFutex := f.spaceFutex + 1, spaceDue := .wake }
  Prog.write fun b => b.setFutex s fun f =>
    { f with publisherQueued := false, spaceDue := .nothing }
  return ()

/-- The destructor. -/
def destroy (i s : ℕ) : Prog Bus Unit := do
  Prog.write fun b => (((b.setSlot s fun w => { w with state := .closing }).setLed s
      fun l => { l with stage := .closing i }).setSub i
    fun u => { u with phase := .closed }).setFutex s fun f => { f with spaceDue := .bump }
  wakeSpace s

/-! ## Samples -/

/-- The wake-up of a publisher that waits for room. -/
def wakePublisher (s : ℕ) : Prog Bus Unit := do
  let waiting ← Prog.update fun b => ((b.futex s).publisherWaiting, b.setFutex s fun f =>
    if f.publisherWaiting = 0 then { f with spaceDue := .nothing } else f)
  if waiting ≠ 0 then wakeSpace s else return ()

/-- A round of the loop of `try_receive`. -/
def receiveRound (i s : ℕ) : Prog Bus (Unit ⊕ Unit) := do
  let mask ← Prog.read fun b => b.hdr.queueCapacity - 1
  let tail ← Prog.read fun b => (b.slot s).dataTail
  let head ← Prog.update fun b => ((b.slot s).dataHead, b.setSub i fun u =>
    { u with sawEmpty := decide (tail = (b.slot s).dataHead) })
  if tail = head then do
    Prog.write fun b => b.setSub i fun u => { u with
      status := some (if b.publisherPid = 0 then .publisherGone else .empty)
      sawEmpty := false }
    return .inr ()
  else do
    let c ← Prog.read fun b => (b.slot s).dataRing (tail &&& mask)
    let won ← Prog.update fun b =>
      if (b.slot s).dataTail = tail then
        (true, ((b.setSlot s fun w => { w with dataTail := tail + 1 }).setLed s
          fun l => { l with
            taken := l.taken ++ (l.pushed[tail]?).toList
            hand := l.hand ++ (l.pushed[tail]?).toList }).setFutex s
          fun f => { f with spaceDue := .bump })
      else (false, b)
    if won then do
      wakePublisher s
      let done ← Prog.update fun b =>
        if c ≥ b.hdr.chunkCount then (false, b)
        else (true, b.setSub i (Sub.receive ⟨b.chunkSeq c, b.payload c, c⟩))
      if done then return .inr () else return .inl ()
    else return .inl ()

/-- `try_receive`. -/
def tryReceive (i s : ℕ) : Prog Bus Unit := do
  let limit ← Prog.read fun b => decide ((b.subs i).borrowed ≥ b.hdr.maxBorrowed)
  if limit then do
    Prog.write fun b => b.setSub i fun u => { u with status := some .borrowLimit }
    return ()
  else do
    let _ ← Prog.repeatUntil () fun _ => receiveRound i s
    return ()

/-- `release`, of the sample `e`. -/
def release (i s : ℕ) (e : Entry) : Prog Bus Unit := do
  let mask ← Prog.read fun b => b.hdr.completionCapacity - 1
  let head ← Prog.read fun b => (b.slot s).doneHead
  Prog.write fun b => b.setSlot s fun w =>
    { w with doneRing := Function.update w.doneRing (head &&& mask) e.chunk }
  Prog.write fun b => ((b.setSlot s fun w => { w with doneHead := head + 1 }).setLed s
      fun l => { l with released := l.released ++ [e.chunk], hand := l.hand.erase e }).setSub i
    fun u => { u with borrowed := u.borrowed - 1, samples := u.samples.erase e }
  return ()

/-! ## Waiting -/

/-- `WaitMode`. -/
inductive WaitMode where
  | busySpin
  | yield
  | futex
  deriving DecidableEq, Repr

/-- `has_data`. -/
def hasData (s : ℕ) : Prog Bus Bool := do
  let tail ← Prog.read fun b => (b.slot s).dataTail
  let head ← Prog.read fun b => (b.slot s).dataHead
  return decide (tail ≠ head)

/-- `publisher_gone`. -/
def publisherGone : Prog Bus Bool := do
  let pid ← Prog.read fun b => b.publisherPid
  return decide (pid = 0)

/-- Whether the deadline of a `wait` has passed; `none` is a wait for ever. -/
def expired (deadline : Option ℕ) : Prog Bus Bool :=
  match deadline with
  | none => return false
  | some d => do
      let now ← Prog.read fun b => b.clock
      return decide (now ≥ d)

/-- The test `!has_data() && !publisher_gone()`, negated. -/
def dataOrGone (s : ℕ) : Prog Bus Bool := do
  let data ← hasData s
  if data then return true else publisherGone

/-- The test `publisher_gone() || expired`. -/
def goneOrExpired (deadline : Option ℕ) : Prog Bus Bool := do
  let gone ← publisherGone
  if gone then return true else expired deadline

/-- `futex_wait(&slot_->futex_word, word, …)`: the kernel queues the subscriber if the word is
still the same; a wake-up, the timeout or a signal takes it off the queue. -/
def futexWaitData (s word : ℕ) : Prog Bus Unit := do
  Prog.write fun b =>
    if (b.futex s).futexWord % 2 ^ 32 = word % 2 ^ 32 then
      { b.setFutex s fun f => { f with subscriberQueued := true } with
        lapped := b.lapped || decide ((b.futex s).futexWord ≠ word) }
    else b
  Prog.await fun b => !(b.futex s).subscriberQueued
  return ()

/-- A round of `wait` in the modes that spin. -/
def spinRound (s : ℕ) (deadline : Option ℕ) (n : ℕ) : Prog Bus (ℕ ⊕ Bool) := do
  let data ← hasData s
  if data then return .inr true
  else if n % 64 = 0 then do
    let late ← goneOrExpired deadline
    if late then do
      let data ← hasData s
      return .inr data
    else return .inl (n + 1)
  else return .inl (n + 1)

/-- A round of `wait` in the futex mode. -/
def waitRound (s : ℕ) (deadline : Option ℕ) : Prog Bus (Unit ⊕ Bool) := do
  let word ← Prog.read fun b => (b.futex s).futexWord
  Prog.write fun b => b.setFutex s fun f => { f with sleeping := 1 }
  let ready ← dataOrGone s
  if ready then do
    Prog.write fun b => b.setFutex s fun f => { f with sleeping := 0 }
    let data ← hasData s
    return .inr data
  else do
    let late ← expired deadline
    if late then do
      Prog.write fun b => b.setFutex s fun f => { f with sleeping := 0 }
      return .inr false
    else do
      futexWaitData s word
      Prog.write fun b => b.setFutex s fun f => { f with sleeping := 0 }
      let data ← hasData s
      if data then return .inr true else return .inl ()

/-- `wait`. -/
def wait (s : ℕ) (mode : WaitMode) (timeout : Option ℕ) : Prog Bus Bool := do
  let data ← hasData s
  if data then return true
  else do
    let now ← Prog.read fun b => b.clock
    let deadline := timeout.map (now + ·)
    match mode with
    | .futex => Prog.repeatUntil () fun _ => waitRound s deadline
    | _ => Prog.repeatUntil 0 fun n => spinRound s deadline n

/-! ## Recording -/

/-- What `Recorder::poll` does with a sample: it is appended to the file and released. -/
def recordSample (i s : ℕ) (e : Entry) : Prog Bus Unit := do
  Prog.write fun b => b.setSub i fun u =>
    { u with file := u.file ++ [⟨b.chunkSeq e.chunk, b.publishNs e.chunk, b.payload e.chunk⟩] }
  release i s e

/-- `Recorder::poll`, on a file that takes what is written to it. -/
def poll (i s : ℕ) (timeout : Option ℕ) : Prog Bus Unit := do
  let _ ← wait s .futex timeout
  Prog.repeatUntil () fun _ => do
    tryReceive i s
    let status ← Prog.read fun b => (b.subs i).status
    match status with
    | some (.ok e) => do
        recordSample i s e
        return .inl ()
    | _ => return .inr ()

end Subscriber

end Devbus
