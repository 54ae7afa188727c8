/-
# The segments of all services

Model of the names under which publishers keep their segments in `/dev/shm`: `shm_name` and
`shm_data_name` (`userspace/devbus/src/os.cpp`), the calls of `PublisherCore`'s constructor and
destructor that open, create and unlink them (`core.cpp`), and `list_services`
(`introspect.cpp`).  Any number of publishers of any services are constructed and destroyed at the
same time; every call may fail, and processes die.  The directory records every call with the name
it was made for.

Names are strings of bytes: what belongs to one service may be found under a name of another.
-/
import DevicePlatform.Devbus.State
import DevicePlatform.Texts
import DevicePlatform.Program
import DevicePlatform.Transition
import Mathlib.Data.List.Infix
import Mathlib.Data.List.AList

namespace Devbus

namespace Registry

/-! ## Names -/

/-- A `std::string`. -/
abbrev Bytes := List UInt8

/-- What the loop of `shm_name` makes of the name of a service. -/
def dotted (service : Bytes) : Bytes := service.map fun c => if c = 0x2f then 0x2e else c

/-- `shm_name`. -/
def shmName (service : Bytes) : Bytes := "/devbus.".octets ++ dotted service

/-- `shm_data_name`. -/
def shmDataName (service : Bytes) : Bytes := shmName service ++ ".data".octets

/-- The names of the two segments of a service. -/
def segmentNames (service : Bytes) : List Bytes := [shmName service, shmDataName service]

/-- The file in `/dev/shm` that `shm_open` and `shm_unlink` use for a name: a C string, without
the slash it begins with. -/
def fileOf (name : Bytes) : Bytes := (name.takeWhile (· ≠ 0)).tail

/-- `std::strerror`. -/
def strerror : ℕ → Bytes
  | 1 => "Operation not permitted".octets
  | 2 => "No such file or directory".octets
  | 12 => "Cannot allocate memory".octets
  | 13 => "Permission denied".octets
  | 17 => "File exists".octets
  | 22 => "Invalid argument".octets
  | 23 => "Too many open files in system".octets
  | 24 => "Too many open files".octets
  | 28 => "No space left on device".octets
  | 36 => "File name too long".octets
  | _ => "Unknown error".octets

/-- The text of the exception `throw_errno` throws. -/
def throwErrno (what : Bytes) (errno : ℕ) : Bytes := what ++ ": ".octets ++ strerror errno

/-- The test of the constructor's handler. -/
def namesLivePublisher (what : Bytes) : Bool := decide ("live publisher".octets <:+: what)

/-! ## Segments -/

/-- A slot as far as it is listed. -/
structure Slot where
  words : SlotWords
  stats : SlotStats

/-- What stands at the places of the header and of the slots: what the constructor has written, or
whatever a segment of another kind holds there. -/
structure Control where
  magic : ℕ
  typeSize : ℕ
  maxSubscribers : ℕ
  queueCapacity : ℕ
  chunkCount : ℕ
  totalSize : ℕ
  publisherPid : ℤ
  ready : ℕ
  published : ℕ
  loanFailures : ℕ
  slots : ℕ → Slot

/-- A new segment is zero. -/
def Control.zero : Control :=
  ⟨0, 0, 0, 0, 0, 0, 0, 0, 0, 0, fun _ => ⟨.zero, .zero⟩⟩

/-- `kMagic`. -/
def magicNumber : ℕ := 0x3153554256454431

/-- `sizeof(SegmentHeader)`. -/
def headerSize : ℕ := Layout.segmentHeaderSize.toNat

/-- A segment, with the publisher that has created it. -/
structure Segment where
  creator : ℕ
  size : ℕ
  control : Control

/-- What a call is for. -/
inductive Access where
  | opened
  | created
  | unlinked
  deriving DecidableEq, Repr

/-- `/dev/shm`, the segments that have been created, and the processes. -/
structure Shm where
  dir : AList fun _ : Bytes => ℕ
  segs : List Segment
  alive : ℕ → Bool
  /-- The calls with the files they were made for, the last one first. -/
  calls : List (Access × Bytes)

namespace Shm

/-- What a name refers to. -/
def lookup (x : Shm) (name : Bytes) : Option ℕ := x.dir.lookup (fileOf name)

/-- A call for a name. -/
def called (x : Shm) (a : Access) (name : Bytes) : Shm :=
  { x with calls := (a, fileOf name) :: x.calls }

/-- The segment `id` becomes another. -/
def modify (x : Shm) (id : ℕ) (f : Segment → Segment) : Shm :=
  { x with segs := x.segs.modify id f }

/-- What the segment `id` holds. -/
def control (x : Shm) (id : ℕ) : Control := (x.segs[id]?.map Segment.control).getD .zero

end Shm

/-! ## Calls -/

/-- `shm_open` of a segment that exists. -/
def shmOpen (name : Bytes) : Prog Shm (Except ℕ ℕ) := do
  let errno ← Prog.choose
  Prog.update fun x =>
    (match x.lookup name with
      | none => .error 2
      | some id => if errno = 0 then .ok id else .error errno,
    x.called .opened name)

/-- `shm_open` with `O_CREAT | O_EXCL`. -/
def shmCreate (i : ℕ) (name : Bytes) : Prog Shm (Except ℕ ℕ) := do
  let errno ← Prog.choose
  Prog.update fun x =>
    if x.lookup name ≠ none then (.error 17, x.called .created name)
    else if errno ≠ 0 then (.error errno, x.called .created name)
    else (.ok x.segs.length, { x.called .created name with
      dir := x.dir.insert (fileOf name) x.segs.length
      segs := x.segs ++ [⟨i, 0, .zero⟩] })

/-- `ShmSegment::unlink`, which does not look whether `shm_unlink` has failed. -/
def unlink (name : Bytes) : Prog Shm Unit := do
  let errno ← Prog.choose
  Prog.write fun x =>
    if errno = 0 then { x.called .unlinked name with dir := x.dir.erase (fileOf name) }
    else x.called .unlinked name

/-- An exception after the name has been unlinked. -/
def undo (name what : Bytes) (errno : ℕ) : Prog Shm (Except Bytes ℕ) := do
  unlink name
  return .error (throwErrno (what ++ name) errno)

/-- `ShmSegment::create`. -/
def create (i : ℕ) (name : Bytes) (size : ℕ) : Prog Shm (Except Bytes ℕ) := do
  match ← shmCreate i name with
  | .error errno => return .error (throwErrno ("shm_open(create) ".octets ++ name) errno)
  | .ok id =>
      let fchmod ← Prog.choose
      if fchmod ≠ 0 then undo name "fchmod ".octets fchmod
      else
        let ftruncate ← Prog.choose
        if ftruncate ≠ 0 then undo name "ftruncate ".octets ftruncate
        else
          Prog.write fun x => x.modify id fun seg => { seg with size := size }
          let mmap ← Prog.choose
          if mmap ≠ 0 then undo name "mmap ".octets mmap
          else return .ok id

/-- `ShmSegment::open`: the segment and its size. -/
def openSegment (name : Bytes) : Prog Shm (Except Bytes (ℕ × ℕ)) := do
  match ← shmOpen name with
  | .error errno => return .error (throwErrno ("shm_open(open) ".octets ++ name) errno)
  | .ok id =>
      let fstat ← Prog.choose
      if fstat ≠ 0 then return .error (throwErrno ("fstat ".octets ++ name) fstat)
      else
        let size ← Prog.read fun x => (x.segs[id]?.map Segment.size).getD 0
        let mmap ← Prog.choose
        -- a mapping of size 0 is refused
        if size = 0 then return .error (throwErrno ("mmap ".octets ++ name) 22)
        else if mmap ≠ 0 then return .error (throwErrno ("mmap ".octets ++ name) mmap)
        else return .ok (id, size)

/-- `process_alive`: a process that is there is never reported as gone. -/
def processAlive (pid : ℤ) : Prog Shm Bool := do
  if pid ≤ 0 then return false
  else
    let answer ← Prog.choose
    Prog.read fun x => x.alive pid.toNat || answer != 0

/-! ## A publisher -/

/-- `getpid` in the process of publisher `i`. -/
def pidOf (i : ℕ) : ℕ := i + 1

/-- The test whether the publisher of a segment that is there is running. -/
def hasLivePublisher (id size : ℕ) : Prog Shm Bool := do
  if size < headerSize then return false
  else
    let pid ← Prog.read fun x => (x.control id).publisherPid
    processAlive pid

/-- The block of the constructor that looks for a segment that is there. -/
def existing (service : Bytes) : Prog Shm (Except Bytes Unit) := do
  match ← openSegment (shmName service) with
  | .error what => return .error what
  | .ok (id, size) =>
      let alive ← hasLivePublisher id size
      if alive then
        return .error ("devbus: service '".octets ++ service ++
          "' already has a live publisher".octets)
      else
        unlink (shmName service)
        unlink (shmDataName service)
        return .ok ()

/-- The members `seg_` and `data_seg_`. -/
structure Handles where
  seg : ℕ
  dataSeg : ℕ
  deriving DecidableEq, Repr

/-- The header and the slots that the constructor writes. -/
def initialControl (cfg : ServiceConfig) (typeSize : BitVec 64) (l : Layout) : Control :=
  { Control.zero with
    magic := magicNumber
    typeSize := (typeSize.setWidth 32).toNat
    maxSubscribers := cfg.maxSubscribers.toNat
    queueCapacity := l.queueCapacity.toNat
    chunkCount := l.chunkCount.toNat
    totalSize := l.totalSize.toNat }

/-- The constructor, from the creation of the data segment on. -/
def createSegments (i : ℕ) (service : Bytes) (cfg : ServiceConfig) (typeSize : BitVec 64)
    (l : Layout) : Prog Shm (Except Bytes Handles) := do
  unlink (shmDataName service)
  match ← create i (shmDataName service) l.dataSize.toNat with
  | .error what => return .error what
  | .ok dataSeg =>
      match ← create i (shmName service) l.totalSize.toNat with
      | .error what =>
          unlink (shmDataName service)
          return .error what
      | .ok seg =>
          Prog.write fun x => x.modify seg fun s =>
            { s with control := initialControl cfg typeSize l }
          -- the vectors of the publisher
          let memory ← Prog.choose
          if memory ≠ 0 then return .error "std::bad_alloc".octets
          else
            Prog.write fun x => x.modify seg fun s =>
              { s with control := { s.control with publisherPid := pidOf i } }
            Prog.write fun x => x.modify seg fun s =>
              { s with control := { s.control with ready := 1 } }
            return .ok ⟨seg, dataSeg⟩

/-- The constructor of `PublisherCore`. -/
def construct (i : ℕ) (service : Bytes) (cfg : ServiceConfig) (typeSize typeAlign : BitVec 64) :
    Prog Shm (Except Bytes Handles) := do
  if cfg.maxSubscribers = 0 then
    return .error "devbus: max_subscribers must be at least 1".octets
  else
    let l ← Prog.attempt fun x =>
      (Layout.computeLayout cfg typeSize typeAlign).map fun l => (l, x)
    if l.chunkCount > 65535 then
      return .error ("devbus: too many chunks for 16-bit refcounts; ".octets ++
        "lower queue_capacity or max_subscribers".octets)
    else
      match ← existing service with
      | .ok () => createSegments i service cfg typeSize l
      | .error what =>
          if namesLivePublisher what then return .error what
          else createSegments i service cfg typeSize l

/-- The destructor. -/
def destruct (service : Bytes) (h : Handles) : Prog Shm Unit := do
  Prog.write fun x => x.modify h.seg fun s =>
    { s with control := { s.control with publisherPid := 0 } }
  unlink (shmName service)
  unlink (shmDataName service)

/-! ## Publishers of any services -/

/-- How far a publisher has come; `gone` if it has been destroyed, its constructor has thrown or
its process has died. -/
inductive Publisher where
  | absent
  | constructing (p : Prog Shm (Except Bytes Handles))
  | running (h : Handles)
  | destroying (p : Prog Shm Unit)
  | gone

/-- All publishers, with their services. -/
structure System where
  shm : Shm
  service : ℕ → Bytes
  publisher : ℕ → Publisher

/-- What can happen. -/
inductive Happening where
  | construct (i : ℕ) (service : Bytes) (cfg : ServiceConfig) (typeSize typeAlign : BitVec 64)
  /-- A step of a constructor or of a destructor; `n` is the outcome of a call. -/
  | step (i : ℕ) (n : ℕ)
  | destroy (i : ℕ)
  | crash (i : ℕ)
  /-- Samples are published: the counters and the slots change, and so does what stands in the
  data segment where a control segment has its header. -/
  | traffic (i : ℕ) (published loanFailures : ℕ) (slots : ℕ → Slot) (payload : Control)

/-- The publisher that something happens to. -/
def Happening.publisher : Happening → ℕ
  | .construct i .. | .step i _ | .destroy i | .crash i | .traffic i .. => i

/-- The result of a program that has returned. -/
def result {α : Type} : Prog Shm α → Option α
  | .ret a => some a
  | _ => none

namespace System

/-- Publisher `i` comes to `p`. -/
def goto (x : System) (i : ℕ) (p : Publisher) (shm : Shm) : System :=
  { x with publisher := Function.update x.publisher i p, shm := shm }

/-- A publisher whose constructor has come to `p`. -/
def afterConstruct (p : Prog Shm (Except Bytes Handles)) : Publisher :=
  match result p with
  | some (.ok h) => .running h
  | some (.error _) => .gone
  | none => .constructing p

/-- A publisher whose destructor has come to `p`. -/
def afterDestruct (p : Prog Shm Unit) : Publisher :=
  match result p with
  | some () => .gone
  | none => .destroying p

def next (x : System) : Happening → Option System
  | .construct i service cfg typeSize typeAlign =>
      match x.publisher i with
      | .absent => some
          { x.goto i (.constructing (Registry.construct i service cfg typeSize typeAlign))
              { x.shm with alive := Function.update x.shm.alive (pidOf i) true } with
            service := Function.update x.service i service }
      | _ => none
  | .step i n =>
      match x.publisher i with
      | .constructing p => (p.step n x.shm).map fun (p, shm) => x.goto i (afterConstruct p) shm
      | .destroying p => (p.step n x.shm).map fun (p, shm) => x.goto i (afterDestruct p) shm
      | _ => none
  | .destroy i =>
      match x.publisher i with
      | .running h => some (x.goto i (.destroying (destruct (x.service i) h)) x.shm)
      | _ => none
  | .crash i =>
      match x.publisher i with
      | .absent | .gone => none
      | _ => some (x.goto i .gone
          { x.shm with alive := Function.update x.shm.alive (pidOf i) false })
  | .traffic i published loanFailures slots payload =>
      match x.publisher i with
      | .running h => some (x.goto i (.running h)
          ((x.shm.modify h.seg fun s => { s with control := { s.control with
              published := published, loanFailures := loanFailures, slots := slots } }).modify
            h.dataSeg fun s => { s with control := payload }))
      | _ => none

end System

/-- The publishers of a board, from before the first one. -/
def registry : Machine System Happening where
  init x := x = ⟨⟨∅, [], fun _ => false, []⟩, fun _ => [], fun _ => .absent⟩
  next := System.next

/-- What can happen to publisher `i` of a service. -/
inductive Publisher.Moves (i : ℕ) :
    Bytes → Publisher → Shm → Bytes → Publisher → Shm → Prop where
  | construct (s service : Bytes) (x : Shm) (cfg : ServiceConfig) (typeSize typeAlign : BitVec 64) :
      Moves i s .absent x service
        (.constructing (Registry.construct i service cfg typeSize typeAlign))
        { x with alive := Function.update x.alive (pidOf i) true }
  | constructing {s : Bytes} {p p' : Prog Shm (Except Bytes Handles)} {x y : Shm} {n : ℕ} :
      p.step n x = some (p', y) → Moves i s (.constructing p) x s (System.afterConstruct p') y
  | destroy (s : Bytes) (h : Handles) (x : Shm) :
      Moves i s (.running h) x s (.destroying (destruct s h)) x
  | destroying {s : Bytes} {p p' : Prog Shm Unit} {x y : Shm} {n : ℕ} :
      p.step n x = some (p', y) → Moves i s (.destroying p) x s (System.afterDestruct p') y
  | crash (s : Bytes) (p : Publisher) (x : Shm) :
      Moves i s p x s .gone { x with alive := Function.update x.alive (pidOf i) false }
  | traffic (s : Bytes) (h : Handles) (x : Shm) (published loanFailures : ℕ) (slots : ℕ → Slot)
      (payload : Control) :
      Moves i s (.running h) x s (.running h)
        ((x.modify h.seg fun s => { s with control := { s.control with
            published := published, loanFailures := loanFailures, slots := slots } }).modify
          h.dataSeg fun s => { s with control := payload })

/-- **What happens, happens to one publisher.** -/
theorem System.moves_of_next {x y : System} {e : Happening} (h : x.next e = some y) :
    Publisher.Moves e.publisher (x.service e.publisher) (x.publisher e.publisher) x.shm
      (y.service e.publisher) (y.publisher e.publisher) y.shm ∧
    ∀ k, k ≠ e.publisher → y.publisher k = x.publisher k ∧ y.service k = x.service k := by
  have hgoto : ∀ i p shm, (x.goto i p shm).publisher i = p := fun _ _ _ => Function.update_self ..
  cases e with
  | construct i service cfg typeSize typeAlign =>
    cases hp : x.publisher i <;> simp only [System.next, hp, reduceCtorEq] at h
    cases h
    simp only [Happening.publisher, hp, hgoto, Function.update_self]
    exact ⟨.construct .., fun k hk => ⟨Function.update_of_ne hk .., Function.update_of_ne hk ..⟩⟩
  | step i n =>
    cases hp : x.publisher i <;> simp only [System.next, hp, reduceCtorEq] at h
    case constructing p =>
      obtain ⟨⟨p', shm⟩, hs, rfl⟩ := Option.map_eq_some_iff.mp h
      simp only [Happening.publisher, hp, hgoto]
      exact ⟨.constructing hs, fun k hk => ⟨Function.update_of_ne hk .., rfl⟩⟩
    case destroying p =>
      obtain ⟨⟨p', shm⟩, hs, rfl⟩ := Option.map_eq_some_iff.mp h
      simp only [Happening.publisher, hp, hgoto]
      exact ⟨.destroying hs, fun k hk => ⟨Function.update_of_ne hk .., rfl⟩⟩
  | destroy i =>
    cases hp : x.publisher i <;> simp only [System.next, hp, reduceCtorEq] at h
    cases h
    simp only [Happening.publisher, hp, hgoto]
    exact ⟨.destroy .., fun k hk => ⟨Function.update_of_ne hk .., rfl⟩⟩
  | crash i =>
    cases hp : x.publisher i <;> simp only [System.next, hp, reduceCtorEq] at h <;> cases h <;>
      simp only [Happening.publisher, hgoto] <;>
      exact ⟨.crash .., fun k hk => ⟨Function.update_of_ne hk .., rfl⟩⟩
  | traffic i published loanFailures slots payload =>
    cases hp : x.publisher i <;> simp only [System.next, hp, reduceCtorEq] at h
    cases h
    simp only [Happening.publisher, hp, hgoto]
    exact ⟨.traffic .., fun k hk => ⟨Function.update_of_ne hk .., rfl⟩⟩

/-- **Step lemma.**  What holds of each publisher is kept by what happens to it, and by what
happens to another. -/
theorem System.forall_next {P : ℕ → Bytes → Publisher → Shm → Prop} {x y : System} {e : Happening}
    (h : x.next e = some y) (hx : ∀ k, P k (x.service k) (x.publisher k) x.shm)
    (hself : ∀ {s p s' p'}, P e.publisher s p x.shm →
      Publisher.Moves e.publisher s p x.shm s' p' y.shm → P e.publisher s' p' y.shm)
    (hother : ∀ k, k ≠ e.publisher → P k (x.service k) (x.publisher k) y.shm) (k : ℕ) :
    P k (y.service k) (y.publisher k) y.shm := by
  obtain ⟨hmoves, hothers⟩ := System.moves_of_next h
  by_cases hk : k = e.publisher
  · rw [hk]
    exact hself (hx _) hmoves
  · rw [(hothers k hk).1, (hothers k hk).2]
    exact hother k hk

/-! ## Listing -/

/-- `state_name`. -/
def stateName : SlotState → String
  | .claimed => "claimed"
  | .active => "active"
  | .closing => "closing"
  | .free | .other _ => "free"

/-- `overflow_name`. -/
def overflowName : Overflow → String
  | .dropOldest => "drop-oldest"
  | .dropNewest => "drop-newest"
  | .block => "block"
  | .other _ => "?"

/-- `SubscriberInfo`. -/
structure SubscriberInfo where
  slot : ℕ
  pid : ℕ
  state : String
  overflow : String
  queued : ℕ
  delivered : ℕ
  droppedOldest : ℕ
  droppedNewest : ℕ
  blockTimeouts : ℕ
  blockedNs : ℕ

/-- `ServiceInfo`. -/
structure ServiceInfo where
  shmName : Bytes
  publisherPid : ℤ
  publisherAlive : Bool
  typeSize : ℕ
  queueCapacity : ℕ
  chunkCount : ℕ
  segmentBytes : ℕ
  published : ℕ
  loanFailures : ℕ
  subscribers : List SubscriberInfo

/-- What is said about a slot, unless it is free. -/
def subscriberInfo (c : Control) (i : ℕ) : Option SubscriberInfo :=
  let w := (c.slots i).words
  let stats := (c.slots i).stats
  if w.state = .free then none
  else some
    { slot := i
      pid := w.pid
      state := stateName w.state
      overflow := overflowName w.overflow
      queued := u64Sub w.dataHead w.dataTail
      delivered := stats.delivered
      droppedOldest := stats.droppedOldest
      droppedNewest := stats.droppedNewest
      blockTimeouts := stats.blockTimeouts
      blockedNs := stats.blockedNs }

/-- The files that are taken for data segments. -/
def isDataFile (file : Bytes) : Bool :=
  decide (5 < file.length ∧ file.drop (file.length - 5) = ".data".octets)

/-- What is said about a file; `opens` says for which names `ShmSegment::open` does not throw. -/
def serviceInfo (opens : Bytes → Bool) (x : Shm) (file : Bytes) : Option ServiceInfo := do
  if !"devbus.".octets.isPrefixOf file then none
  else if isDataFile file then none
  else
    let id ← if opens (0x2f :: file) then x.lookup (0x2f :: file) else none
    let seg ← x.segs[id]?
    let c := seg.control
    if seg.size < headerSize then none
    else if c.magic ≠ magicNumber ∨ c.ready ≠ 1 ∨ seg.size < c.totalSize then none
    else return {
        shmName := 0x2f :: file
        publisherPid := c.publisherPid
        publisherAlive := decide (0 < c.publisherPid) && x.alive c.publisherPid.toNat
        typeSize := c.typeSize
        queueCapacity := c.queueCapacity
        chunkCount := c.chunkCount
        segmentBytes := c.totalSize
        published := c.published
        loanFailures := c.loanFailures
        subscribers := (List.range c.maxSubscribers).filterMap (subscriberInfo c) }

/-- `list_services`. -/
def listServices (opens : Bytes → Bool) (x : Shm) : List ServiceInfo :=
  x.dir.keys.filterMap (serviceInfo opens x)

end Registry

end Devbus
