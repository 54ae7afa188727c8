/-
# The state of a devbus service

What `PublisherCore` and `SubscriberCore` (`userspace/devbus/src/core.cpp`) share and
keep to themselves:

* the **control segment**: per subscriber slot the state word, the two rings of chunk
  indices with their free-running indices (`SlotWords`), the futex words (`FutexWords`)
  and the publisher's counters (`SlotStats`);
* the **data segment**: sequence number, time stamp and payload of every chunk;
* the publisher's **private bookkeeping** (`Book`, `Calls`) and every subscriber object
  (`Sub`);
* the **outside**: which processes are alive, and the clock.

The 64-bit indices and counters are natural numbers: at one step per nanosecond they
would wrap after five centuries.  A difference of two indices is still taken modulo
`2^64` (`u64Sub`), as the code takes it before it compares.

History variables stand beside the words they follow.  A slot's `Ledger` records its
tenure: who owns it (`Stage`), every entry pushed, evicted and taken, the entries in the
owner's hands, and the chunks it has released.
-/
import DevicePlatform.Devbus.Layout
import DevicePlatform.Futex
import Mathlib.Logic.Function.Basic

namespace Devbus

/-! ## Words -/

/-- `a - b` on 64-bit words. -/
def u64Sub (a b : ℕ) : ℕ := (((a : ℤ) - b) % 2 ^ 64).toNat

/-- A difference that does not wrap. -/
theorem u64Sub_eq {a b : ℕ} (hle : b ≤ a) (hlt : a - b < 2 ^ 64) : u64Sub a b = a - b := by
  unfold u64Sub
  omega

/-- Two indices that are less than `2^64` apart are the same word only if they are equal. -/
theorem u64Sub_eq_zero {a b : ℕ} (hle : b ≤ a) (hlt : a - b < 2 ^ 64) : u64Sub a b = 0 ↔ b = a := by
  rw [u64Sub_eq hle hlt]
  omega

/-- `++` and `--` on a `uint16_t`. -/
def inc16 (n : ℕ) : ℕ := (n + 1) % 2 ^ 16
def dec16 (n : ℕ) : ℕ := (n + (2 ^ 16 - 1)) % 2 ^ 16

/-- The fields of `SegmentHeader` that are read after the constructor. -/
structure Header where
  maxSubscribers : ℕ
  queueCapacity : ℕ
  completionCapacity : ℕ
  maxBorrowed : ℕ
  maxLoans : ℕ
  chunkCount : ℕ
  deriving DecidableEq, Repr

/-- `SlotState`; a word that is none of its values is `other`. -/
inductive SlotState where
  | free
  | claimed
  | active
  | closing
  | other (v : ℕ)
  deriving DecidableEq, Repr

/-- `Overflow`; a word that is none of its values is `other`. -/
inductive Overflow where
  | dropOldest
  | dropNewest
  | block
  | other (v : ℕ)
  deriving DecidableEq, Repr

/-- The words of a `SubscriberSlot` that carry the protocol. -/
structure SlotWords where
  state : SlotState
  pid : ℕ
  overflow : Overflow
  blockTimeoutUs : ℕ
  dataHead : ℕ
  dataTail : ℕ
  doneHead : ℕ
  doneTail : ℕ
  dataRing : ℕ → ℕ
  doneRing : ℕ → ℕ

/-- The futex words of a `SubscriberSlot`, and who is queued on them in the kernel.
`futexWord` and `spaceFutex` count the increments; the 32-bit words are their values modulo
`2^32`. -/
structure FutexWords where
  futexWord : ℕ
  sleeping : ℕ
  spaceFutex : ℕ
  publisherWaiting : ℕ
  subscriberQueued : Bool
  publisherQueued : Bool
  /-- What the publisher owes the subscriber since it pushed an entry or shut down. -/
  dataDue : Due
  /-- What the subscriber owes the publisher since it took an entry or left. -/
  spaceDue : Due
  deriving DecidableEq, Repr

/-- The counters of a `SubscriberSlot`. -/
structure SlotStats where
  delivered : ℕ
  droppedOldest : ℕ
  droppedNewest : ℕ
  blockTimeouts : ℕ
  blockedNs : ℕ
  deriving DecidableEq, Repr

/-- A slot as the constructor leaves it. -/
def SlotWords.zero : SlotWords := ⟨.free, 0, .dropOldest, 0, 0, 0, 0, 0, fun _ => 0, fun _ => 0⟩
def FutexWords.zero : FutexWords := ⟨0, 0, 0, 0, false, false, .nothing, .nothing⟩
def SlotStats.zero : SlotStats := ⟨0, 0, 0, 0, 0⟩

/-! ## History of a slot -/

/-- A sample as it was pushed: its number, its payload and its chunk. -/
structure Entry where
  seq : ℕ
  payload : ℕ
  chunk : ℕ
  deriving DecidableEq, Repr

/-- Whose a slot is.  `reset` is a slot that the publisher is taking back. -/
inductive Stage where
  | free
  | claimed (i : ℕ)
  | active (i : ℕ)
  | closing (i : ℕ)
  | reset
  deriving DecidableEq, Repr

/-- How `deliver` refuses a sample. -/
inductive Refusal where
  | droppedNewest
  | blockTimeout
  deriving DecidableEq, Repr

/-- The history of one tenure of a slot. -/
structure Ledger where
  stage : Stage
  /-- The process of the owner. -/
  ownerPid : ℕ
  /-- What `deliver` has pushed. -/
  pushed : List Entry
  /-- What `deliver` has evicted. -/
  evicted : List Entry
  /-- The sequence numbers that `deliver` has refused. -/
  refused : List (ℕ × Refusal)
  /-- What `try_receive` has taken. -/
  taken : List Entry
  /-- What the owner has taken and not released. -/
  hand : List Entry
  /-- The chunks the owner has released. -/
  released : List ℕ
  /-- How many of these the publisher has taken back. -/
  doneRead : ℕ
  /-- The sequence number of the first `send` after onboarding. -/
  onboardSeq : ℕ
  /-- How full the data ring was at `deliver`'s last load of `data_tail`. -/
  seen : ℕ
  /-- How full it was at each eviction, and at the load that led to each rejection and
  timeout. -/
  fullAt : List ℕ
  deriving DecidableEq, Repr

/-- The history of a slot that nobody has used. -/
def Ledger.fresh (stage : Stage) : Ledger := ⟨stage, 0, [], [], [], [], [], [], 0, 0, 0, []⟩

/-! ## The publisher -/

/-- The bookkeeping of slots and chunks in `PublisherCore`. -/
structure Book where
  /-- `free_`, the top of the stack first. -/
  free : List ℕ
  refcount : ℕ → ℕ
  /-- `outstanding_`, by slot and chunk. -/
  outstanding : ℕ → ℕ → ℕ
  active : ℕ → Bool
  /-- `pidfds_`: the process behind an open descriptor. -/
  pidfds : ℕ → Option ℕ
  activeList : List ℕ
  claimedSince : ℕ → ℕ
  /-- The slots that were `Active` at the beginning of some `scan_slots` of their tenure. -/
  ripe : ℕ → Bool

/-- `SendReport`. -/
structure SendReport where
  seq : ℕ
  delivered : ℕ
  evicted : ℕ
  rejected : ℕ
  blockTimeouts : ℕ
  deriving DecidableEq, Repr

/-- `LoanError`. -/
inductive LoanError where
  | loanLimit
  | outOfChunks
  deriving DecidableEq, Repr

/-- The rest of `PublisherCore`'s members, and the history of its calls. -/
structure Calls where
  loansOut : ℕ
  nextSeq : ℕ
  livenessEvery : ℕ
  sendsSinceLiveness : ℕ
  /-- The chunks on loan. -/
  loans : List ℕ
  /-- The chunk that `send` is delivering, and the slots that have been given it. -/
  sending : Option ℕ
  sentTo : List ℕ
  /-- What the calls of `loan` and of `send` have returned, the latter with
  `|active_list_|`. -/
  loaned : List (Except LoanError ℕ)
  reports : List (SendReport × ℕ)
  /-- Some `scan_slots` has begun when a slot that was `Active` at the beginning of an earlier
  one was not onboarded. -/
  overlooked : Bool

/-! ## Subscribers -/

/-- The life of a `SubscriberCore` object. -/
inductive Phase where
  | absent
  | building
  | live
  /-- The constructor has thrown. -/
  | failed
  | closed
  deriving DecidableEq, Repr

/-- `ReceiveStatus`. -/
inductive ReceiveStatus where
  | ok (e : Entry)
  | empty
  | borrowLimit
  | publisherGone
  deriving DecidableEq, Repr

/-- A record of a recording. -/
structure Record where
  seq : ℕ
  publishNs : ℕ
  payload : ℕ
  deriving DecidableEq, Repr

/-- A `SubscriberCore` object. -/
structure Sub where
  phase : Phase
  /-- `getpid()`. -/
  pid : ℕ
  overflow : Overflow
  blockTimeoutUs : ℕ
  /-- `slot_index_`, once a slot is claimed. -/
  slot : Option ℕ
  borrowed : ℕ
  received : ℕ
  observedGaps : ℕ
  lastSeq : ℕ
  /-- The samples the application holds, as they were when it received them. -/
  samples : List Entry
  /-- Every sample it has received. -/
  log : List Entry
  status : Option ReceiveStatus
  /-- `try_receive` has found the queue empty and is about to look at `publisher_pid`. -/
  sawEmpty : Bool
  /-- What a `Recorder` has written to its file. -/
  file : List Record
  /-- When the slot was claimed, while the pid is still to be stored. -/
  claimedAt : Option ℕ
  deriving DecidableEq, Repr

/-- A subscriber that has not been constructed. -/
def Sub.absent : Sub :=
  ⟨.absent, 0, .dropOldest, 0, none, 0, 0, 0, 0, [], [], none, false, [], none⟩

/-! ## The state -/

/-- What the protocol is about: words, bookkeeping, chunks, subscribers, history. -/
structure Core where
  hdr : Header
  slot : ℕ → SlotWords
  led : ℕ → Ledger
  stats : ℕ → SlotStats
  book : Book
  calls : Calls
  chunkSeq : ℕ → ℕ
  payload : ℕ → ℕ
  subs : ℕ → Sub
  alive : ℕ → Bool

/-- The state of a service. -/
structure Bus extends Core where
  futex : ℕ → FutexWords
  publishNs : ℕ → ℕ
  published : ℕ
  loanFailures : ℕ
  publisherPid : ℕ
  clock : ℕ
  /-- `check_liveness` has given up a slot whose claimer is alive. -/
  timedOut : Bool
  /-- A subscriber has gone to sleep on a futex word that had come round to the value it had
  loaded. -/
  lapped : Bool

namespace Bus

/-- Changes of one slot, one ledger and so on. -/
def setSlot (s : ℕ) (f : SlotWords → SlotWords) (b : Bus) : Bus :=
  { b with slot := Function.update b.slot s (f (b.slot s)) }
def setLed (s : ℕ) (f : Ledger → Ledger) (b : Bus) : Bus :=
  { b with led := Function.update b.led s (f (b.led s)) }
theorem setSlot_self {s : ℕ} {f : SlotWords → SlotWords} {b : Bus} :
    (b.setSlot s f).slot s = f (b.slot s) :=
  Function.update_self ..

/-- Only the ledger that is there matters. -/
theorem setLed_congr {s : ℕ} {f g : Ledger → Ledger} {b : Bus} (h : f (b.led s) = g (b.led s)) :
    b.setLed s f = b.setLed s g := by
  unfold setLed
  rw [h]

def setFutex (s : ℕ) (f : FutexWords → FutexWords) (b : Bus) : Bus :=
  { b with futex := Function.update b.futex s (f (b.futex s)) }
def setStats (s : ℕ) (f : SlotStats → SlotStats) (b : Bus) : Bus :=
  { b with stats := Function.update b.stats s (f (b.stats s)) }
def setSub (i : ℕ) (f : Sub → Sub) (b : Bus) : Bus :=
  { b with subs := Function.update b.subs i (f (b.subs i)) }
theorem setSub_self {i : ℕ} {f : Sub → Sub} {b : Bus} : (b.setSub i f).subs i = f (b.subs i) :=
  Function.update_self ..

def setBook (f : Book → Book) (b : Bus) : Bus := { b with book := f b.book }
def setCalls (f : Calls → Calls) (b : Bus) : Bus := { b with calls := f b.calls }

/-- The service as `PublisherCore`'s constructor leaves it, run by the process `pid` at the
time `now`. -/
def create (cfg : ServiceConfig) (l : Layout) (pid now : ℕ) : Bus where
  hdr :=
    { maxSubscribers := cfg.maxSubscribers.toNat
      queueCapacity := l.queueCapacity.toNat
      completionCapacity := l.completionCapacity.toNat
      maxBorrowed := cfg.maxBorrowed.toNat
      maxLoans := cfg.maxLoans.toNat
      chunkCount := l.chunkCount.toNat }
  slot := fun _ => SlotWords.zero
  led := fun _ => Ledger.fresh .free
  stats := fun _ => SlotStats.zero
  book :=
    { free := List.range l.chunkCount.toNat
      refcount := fun _ => 0
      outstanding := fun _ _ => 0
      active := fun _ => false
      pidfds := fun _ => none
      activeList := []
      claimedSince := fun _ => 0
      ripe := fun _ => false }
  calls := ⟨0, 1, cfg.livenessCheckEvery.toNat, 0, [], none, [], [], [], false⟩
  chunkSeq := fun _ => 0
  payload := fun _ => 0
  subs := fun _ => Sub.absent
  alive := fun _ => true
  futex := fun _ => FutexWords.zero
  publishNs := fun _ => 0
  published := 0
  loanFailures := 0
  publisherPid := pid
  clock := now
  timedOut := false
  lapped := false

end Bus

end Devbus
