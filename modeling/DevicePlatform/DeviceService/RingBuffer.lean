/-
# The ring buffer between the worker and its consumer

Model of `RingBuffer` (`userspace/device-service/include/ring_buffer.hpp`), with one thread that
pushes, one that pops, and any number of calls of `stop` by others.  A critical section is one
step.  A thread whose condition does not hold goes to sleep with the mutex released; it is woken by
a notification, or for no reason, and then looks at the condition again.

`FifoRun` is the bounded queue the buffer is for, in its own terms: a list, a capacity and a flag.
`ring_buffer_refines_fifo` proves that what the critical sections have done is a history of that
queue in every state of every run, with the slots of the ring for its contents, and draws from it
that nothing is lost, duplicated or reordered, before `stop` or after it.  `no_lost_wakeup` proves
that a thread that sleeps has nothing to do, or is about to be woken.
-/
import DevicePlatform.RingLog
import DevicePlatform.Transition

namespace DeviceService

/-! ## A bounded queue -/

/-- What a critical section has done. -/
inductive BufferCall (α : Type) where
  /-- `push` has stored its item, or has returned without storing it. -/
  | stored (item : α)
  | refused (item : α)
  /-- `pop` has returned an item, or `false`. -/
  | popped (item : α)
  | ended
  /-- `stop` has set the flag. -/
  | stopped
  deriving DecidableEq, Repr

variable {α : Type}

/-- The items accepted by `push`. -/
def accepted (h : List (BufferCall α)) : List α :=
  h.filterMap fun | .stored item => some item | _ => none

/-- The items returned by `pop`. -/
def popped (h : List (BufferCall α)) : List α :=
  h.filterMap fun | .popped item => some item | _ => none

/-- The steps of a queue of at most `cap` items that can be stopped. -/
inductive FifoStep (cap : ℕ) : List α × Bool → BufferCall α → List α × Bool → Prop
  | stored {q : List α} (item : α) (h : q.length < cap) :
      FifoStep cap (q, false) (.stored item) (q ++ [item], false)
  | refused {q : List α} (item : α) : FifoStep cap (q, true) (.refused item) (q, true)
  | popped {q : List α} {b : Bool} (item : α) : FifoStep cap (item :: q, b) (.popped item) (q, b)
  | ended : FifoStep cap ([], true) .ended ([], true)
  | stopped {q : List α} {b : Bool} : FifoStep cap (q, b) .stopped (q, true)

/-- The histories of the queue, with the state they lead to. -/
inductive FifoRun (cap : ℕ) : List (BufferCall α) → List α × Bool → Prop
  | nil : FifoRun cap [] ([], false)
  | snoc {h : List (BufferCall α)} {q q' : List α × Bool} {c : BufferCall α} :
      FifoRun cap h q → FifoStep cap q c q' → FifoRun cap (h ++ [c]) q'

namespace FifoRun

variable {cap : ℕ} {h h₁ h₂ : List (BufferCall α)} {q : List α × Bool} {c : BufferCall α}

/-- **Nothing is lost, duplicated or reordered**: what was accepted is what was popped, followed by
what is in the queue. -/
theorem accepted_eq (hrun : FifoRun cap h q) : accepted h = popped h ++ q.1 := by
  induction hrun with
  | nil => rfl
  | snoc _ hstep ih =>
      rw [accepted, popped, List.filterMap_append, List.filterMap_append]
      rw [accepted, popped] at ih
      cases hstep <;> simp_all

theorem length_le (hrun : FifoRun cap h q) : q.1.length ≤ cap := by
  induction hrun with
  | nil => exact Nat.zero_le cap
  | snoc _ hstep ih =>
      cases hstep with
      | stored item hroom =>
          rw [List.length_append, List.length_singleton]
          exact hroom
      | popped item => exact (Nat.le_succ _).trans ih
      | refused | ended | stopped => exact ih

/-- The flag shows that there was a `stop`. -/
theorem stopped_iff (hrun : FifoRun cap h q) : q.2 = true ↔ BufferCall.stopped ∈ h := by
  induction hrun with
  | nil => simp
  | snoc _ hstep ih => cases hstep <;> simp_all

/-- The state before a call. -/
theorem before (hrun : FifoRun cap h q) (heq : h = h₁ ++ c :: h₂) :
    ∃ q₁ q₂, FifoRun cap h₁ q₁ ∧ FifoStep cap q₁ c q₂ := by
  induction hrun generalizing h₂ with
  | nil => simp at heq
  | @snoc h q₁ q₂ c' hrun hstep ih =>
      rcases List.eq_nil_or_concat h₂ with rfl | ⟨h₂, d, rfl⟩
      · obtain ⟨rfl, hc⟩ := List.append_inj' heq rfl
        cases hc
        exact ⟨q₁, q₂, hrun, hstep⟩
      · have hfirst : h = h₁ ++ c :: h₂ := by
          rw [List.concat_eq_append, ← List.cons_append, ← List.append_assoc] at heq
          exact (List.append_inj' heq rfl).1
        exact ih hfirst

end FifoRun

/-! ## The code -/

/-- `RingBuffer`. -/
structure RingBuffer (α : Type) where
  buf : ℕ → α
  readPos : ℕ := 0
  writePos : ℕ := 0
  count : ℕ := 0
  stopped : Bool := false

namespace RingBuffer

/-- The critical section of `push`; `none` while its condition does not hold. -/
def push (cap : ℕ) (b : RingBuffer α) (item : α) : Option (RingBuffer α × BufferCall α) :=
  if b.count < cap ∨ b.stopped then
    if b.stopped then some (b, .refused item)
    else some ({ b with
      buf := Function.update b.buf b.writePos item
      writePos := (b.writePos + 1) % cap
      count := b.count + 1 }, .stored item)
  else none

/-- The critical section of `pop`. -/
def pop (cap : ℕ) (b : RingBuffer α) : Option (RingBuffer α × BufferCall α) :=
  if b.count > 0 ∨ b.stopped then
    if b.count = 0 ∧ b.stopped then some (b, .ended)
    else some ({ b with
      readPos := (b.readPos + 1) % cap
      count := b.count - 1 }, .popped (b.buf b.readPos))
  else none

/-- `size`. -/
def size (b : RingBuffer α) : ℕ := b.count

/-- The critical section of `stop`. -/
def stop (b : RingBuffer α) : RingBuffer α := { b with stopped := true }

/-- The items in the ring, the oldest first. -/
def contents (cap : ℕ) (b : RingBuffer α) : List α :=
  (List.range b.count).map fun i => b.buf ((b.readPos + i) % cap)

end RingBuffer

/-- Where the thread that pushes is: outside `push`, before the critical section, asleep in `wait`,
or before `notify_one`. -/
inductive ProducerPc (α : Type) where
  | idle
  | locking (item : α)
  | asleep (item : α)
  | notifying
  deriving DecidableEq, Repr

/-- Where the thread that pops is. -/
inductive ConsumerPc where
  | idle
  | locking
  | asleep
  | notifying
  deriving DecidableEq, Repr

/-- The buffer, its threads, and what has been done.  The calls of `stop` are counted by the
notification they make next. -/
structure Buffering (α : Type) where
  ring : RingBuffer α
  producer : ProducerPc α := .idle
  consumer : ConsumerPc := .idle
  stopsAtNotEmpty : ℕ := 0
  stopsAtNotFull : ℕ := 0
  history : List (BufferCall α) := []

/-- A thread takes a step, or is woken for no reason. -/
inductive BufferEvent (α : Type) where
  | push (item : α)
  | pushLock
  | pushNotify
  | pushWake
  | pop
  | popLock
  | popNotify
  | popWake
  | stop
  | stopNotifyNotEmpty
  | stopNotifyNotFull
  deriving DecidableEq, Repr

namespace ProducerPc

/-- The thread is notified. -/
def wake : ProducerPc α → ProducerPc α
  | .asleep item => .locking item
  | pc => pc

@[grind .]
theorem wake_ne_asleep (pc : ProducerPc α) (item : α) : pc.wake ≠ .asleep item := by
  cases pc <;> nofun

@[grind =]
theorem wake_eq_notifying_iff (pc : ProducerPc α) : pc.wake = .notifying ↔ pc = .notifying := by
  cases pc <;> simp [wake]

theorem wake_eq_idle_iff (pc : ProducerPc α) : pc.wake = .idle ↔ pc = .idle := by
  cases pc <;> simp [wake]

end ProducerPc

namespace ConsumerPc

/-- The thread is notified. -/
def wake : ConsumerPc → ConsumerPc
  | .asleep => .locking
  | pc => pc

@[grind .]
theorem wake_ne_asleep (pc : ConsumerPc) : pc.wake ≠ .asleep := by
  cases pc <;> nofun

@[grind =]
theorem wake_eq_notifying_iff (pc : ConsumerPc) : pc.wake = .notifying ↔ pc = .notifying := by
  cases pc <;> simp [wake]

theorem wake_eq_idle_iff (pc : ConsumerPc) : pc.wake = .idle ↔ pc = .idle := by
  cases pc <;> simp [wake]

end ConsumerPc

namespace Buffering

/-- `push` has taken the mutex. -/
def pushLock (cap : ℕ) (s : Buffering α) (item : α) : Buffering α :=
  match s.ring.push cap item with
  | none => { s with producer := .asleep item }
  | some (ring, .stored item) =>
      { s with ring := ring, producer := .notifying, history := s.history ++ [.stored item] }
  | some (ring, c) => { s with ring := ring, producer := .idle, history := s.history ++ [c] }

/-- `pop` has taken the mutex. -/
def popLock (cap : ℕ) (s : Buffering α) : Buffering α :=
  match s.ring.pop cap with
  | none => { s with consumer := .asleep }
  | some (ring, .popped item) =>
      { s with ring := ring, consumer := .notifying, history := s.history ++ [.popped item] }
  | some (ring, c) => { s with ring := ring, consumer := .idle, history := s.history ++ [c] }

/-- One step. -/
def next (cap : ℕ) (s : Buffering α) : BufferEvent α → Option (Buffering α)
  | .push item =>
      match s.producer with
      | .idle => some { s with producer := .locking item }
      | _ => none
  | .pushLock =>
      match s.producer with
      | .locking item => some (s.pushLock cap item)
      | _ => none
  | .pushNotify =>
      match s.producer with
      | .notifying => some { s with producer := .idle, consumer := s.consumer.wake }
      | _ => none
  | .pushWake => some { s with producer := s.producer.wake }
  | .pop =>
      match s.consumer with
      | .idle => some { s with consumer := .locking }
      | _ => none
  | .popLock =>
      match s.consumer with
      | .locking => some (s.popLock cap)
      | _ => none
  | .popNotify =>
      match s.consumer with
      | .notifying => some { s with consumer := .idle, producer := s.producer.wake }
      | _ => none
  | .popWake => some { s with consumer := s.consumer.wake }
  | .stop =>
      some { s with
        ring := s.ring.stop
        stopsAtNotEmpty := s.stopsAtNotEmpty + 1
        history := s.history ++ [.stopped] }
  | .stopNotifyNotEmpty =>
      if s.stopsAtNotEmpty = 0 then none
      else some { s with
        consumer := s.consumer.wake
        stopsAtNotEmpty := s.stopsAtNotEmpty - 1
        stopsAtNotFull := s.stopsAtNotFull + 1 }
  | .stopNotifyNotFull =>
      if s.stopsAtNotFull = 0 then none
      else some { s with
        producer := s.producer.wake
        stopsAtNotFull := s.stopsAtNotFull - 1 }

/-- The buffer with the threads that use it, from its construction on. -/
def machine (α : Type) [Inhabited α] (cap : ℕ) : Machine (Buffering α) (BufferEvent α) where
  init s := s = { ring := { buf := fun _ => default } }
  next := next cap

/-! ## What a step does -/

variable {cap : ℕ} {s t : Buffering α} {e : BufferEvent α}

/-- The critical section of a call leads from one ring to another. -/
def Section (cap : ℕ) (b : RingBuffer α) (c : BufferCall α) (b' : RingBuffer α) : Prop :=
  (∃ item, b.push cap item = some (b', c)) ∨ b.pop cap = some (b', c) ∨
    (c = .stopped ∧ b' = b.stop)

/-- A step is a critical section, or it changes neither the ring nor the history. -/
theorem step_cases (h : next cap s e = some t) :
    (t.ring = s.ring ∧ t.history = s.history) ∨
      ∃ c, Section cap s.ring c t.ring ∧ t.history = s.history ++ [c] := by
  cases e with
  | pushLock =>
      simp only [next] at h
      split at h
      · obtain rfl := Option.some.inj h
        unfold pushLock
        split
        · exact .inl ⟨rfl, rfl⟩
        · next heq => exact .inr ⟨_, .inl ⟨_, heq⟩, rfl⟩
        · next heq => exact .inr ⟨_, .inl ⟨_, heq⟩, rfl⟩
      · cases h
  | popLock =>
      simp only [next] at h
      split at h
      · obtain rfl := Option.some.inj h
        unfold popLock
        split
        · exact .inl ⟨rfl, rfl⟩
        · next heq => exact .inr ⟨_, .inr (.inl heq), rfl⟩
        · next heq => exact .inr ⟨_, .inr (.inl heq), rfl⟩
      · cases h
  | stop =>
      obtain rfl := Option.some.inj h
      exact .inr ⟨.stopped, .inr (.inr ⟨rfl, rfl⟩), rfl⟩
  | pushWake | popWake =>
      cases h
      exact .inl ⟨rfl, rfl⟩
  | push | pushNotify | pop | popNotify | stopNotifyNotEmpty | stopNotifyNotFull =>
      simp only [next] at h
      split at h <;> cases h
      exact .inl ⟨rfl, rfl⟩

/-! ## Refinement -/

/-- The ring holds the items accepted and not yet popped, and the history is one of the queue. -/
structure Refines (cap : ℕ) (b : RingBuffer α) (h : List (BufferCall α)) : Prop where
  run : FifoRun cap h ((accepted h).drop (popped h).length, b.stopped)
  ring : RingLog cap b.buf (accepted h) (popped h).length
  readPos : b.readPos = (popped h).length % cap
  writePos : b.writePos = (accepted h).length % cap
  count : b.count + (popped h).length = (accepted h).length

namespace Refines

variable {b b' : RingBuffer α} {h : List (BufferCall α)} {c : BufferCall α}

/-- The slots of the ring hold what the queue does. -/
theorem contents (hr : Refines cap b h) :
    b.contents cap = (accepted h).drop (popped h).length := by
  have hcount := hr.count
  apply List.ext_getElem
  · rw [RingBuffer.contents, List.length_map, List.length_range, List.length_drop]
    omega
  · intro i hi hi'
    rw [List.length_drop] at hi'
    have hslot := hr.ring ((popped h).length + i) (by omega) (by omega)
    rw [List.getElem_drop, ← hslot]
    simp only [RingBuffer.contents, List.getElem_map, List.getElem_range, hr.readPos,
      Nat.mod_add_mod]

/-- `push`. -/
theorem push {item : α} (hr : Refines cap b h) (hpush : b.push cap item = some (b', c)) :
    Refines cap b' (h ++ [c]) := by
  have hcount := hr.count
  unfold RingBuffer.push at hpush
  split at hpush
  · next hcond =>
    split at hpush
    · -- the buffer is stopped, and nothing is stored
      next hstopped =>
      cases hpush
      have hrun := hr.run
      rw [hstopped] at hrun
      have hsame : accepted (h ++ [.refused item]) = accepted h ∧
          popped (h ++ [.refused item]) = popped h := by
        simp [accepted, popped]
      refine ⟨?_, ?_, ?_, ?_, ?_⟩ <;> simp only [hsame.1, hsame.2]
      · rw [hstopped]
        exact hrun.snoc (.refused item)
      · exact hr.ring
      · exact hr.readPos
      · exact hr.writePos
      · exact hr.count
    · -- the next slot is outside the window
      next hstopped =>
      cases hpush
      have hroom : b.count < cap := hcond.resolve_right hstopped
      have hrun := hr.run
      rw [Bool.not_eq_true] at hstopped
      rw [hstopped] at hrun
      have haccepted : accepted (h ++ [.stored item]) = accepted h ++ [item] := by
        simp [accepted]
      have hpopped : popped (h ++ [.stored item]) = popped h := by simp [popped]
      have hring := (hr.ring.write (by omega) item).publish
        (show Function.update b.buf ((accepted h).length % cap) item _ = item from
          Function.update_self _ _ _)
      refine ⟨?_, ?_, ?_, ?_, ?_⟩ <;> simp only [haccepted, hpopped]
      · rw [List.drop_append_of_le_length (by omega), hstopped]
        refine hrun.snoc (.stored item ?_)
        rw [List.length_drop]
        omega
      · rwa [hr.writePos]
      · exact hr.readPos
      · rw [hr.writePos, List.length_append, List.length_singleton, Nat.mod_add_mod]
      · rw [List.length_append, List.length_singleton]
        omega
  · cases hpush

/-- `pop`. -/
theorem pop (hr : Refines cap b h) (hpop : b.pop cap = some (b', c)) :
    Refines cap b' (h ++ [c]) := by
  have hcount := hr.count
  unfold RingBuffer.pop at hpop
  split at hpop
  · next hcond =>
    split at hpop
    · -- the buffer is stopped and empty
      next hend =>
      cases hpop
      have hrun := hr.run
      have hempty : (accepted h).drop (popped h).length = [] :=
        List.drop_eq_nil_of_le (by omega)
      rw [hend.2, hempty] at hrun
      have hsame : accepted (h ++ [.ended]) = accepted h ∧ popped (h ++ [.ended]) = popped h := by
        simp [accepted, popped]
      refine ⟨?_, ?_, ?_, ?_, ?_⟩ <;> simp only [hsame.1, hsame.2]
      · rw [hend.2, hempty]
        exact hrun.snoc .ended
      · exact hr.ring
      · exact hr.readPos
      · exact hr.writePos
      · exact hr.count
    · next hmore =>
      cases hpop
      have hpos : 0 < b.count := by
        rcases hcond with hpos | hstopped
        · exact hpos
        · exact Nat.pos_of_ne_zero fun hzero => hmore ⟨hzero, hstopped⟩
      have hlt : (popped h).length < (accepted h).length := by omega
      have hitem : b.buf b.readPos = (accepted h)[(popped h).length] := by
        rw [hr.readPos]
        exact hr.ring.read hlt
      have hrun := hr.run
      rw [List.drop_eq_getElem_cons hlt, ← hitem] at hrun
      have haccepted : accepted (h ++ [.popped (b.buf b.readPos)]) = accepted h := by
        simp [accepted]
      have hpopped : popped (h ++ [.popped (b.buf b.readPos)]) =
          popped h ++ [b.buf b.readPos] := by
        simp [popped]
      refine ⟨?_, ?_, ?_, ?_, ?_⟩ <;>
        simp only [haccepted, hpopped, List.length_append, List.length_singleton]
      · exact hrun.snoc (.popped _)
      · exact hr.ring.advance (Nat.le_succ _)
      · rw [hr.readPos, Nat.mod_add_mod]
      · exact hr.writePos
      · omega
  · cases hpop

/-- `stop`. -/
theorem stop (hr : Refines cap b h) : Refines cap b.stop (h ++ [.stopped]) := by
  have hsame : accepted (h ++ [.stopped]) = accepted h ∧ popped (h ++ [.stopped]) = popped h := by
    simp [accepted, popped]
  refine ⟨?_, ?_, ?_, ?_, ?_⟩ <;> simp only [hsame.1, hsame.2]
  · exact hr.run.snoc .stopped
  · exact hr.ring
  · exact hr.readPos
  · exact hr.writePos
  · exact hr.count

/-- **One step** keeps the refinement. -/
theorem next (hr : Refines cap s.ring s.history) (hn : Buffering.next cap s e = some t) :
    Refines cap t.ring t.history := by
  rcases step_cases hn with ⟨hring, hhistory⟩ | ⟨c, hsection, hhistory⟩
  · rwa [hring, hhistory]
  · rw [hhistory]
    rcases hsection with ⟨item, hpush⟩ | hpop | ⟨rfl, hstop⟩
    · exact hr.push hpush
    · exact hr.pop hpop
    · rw [hstop]
      exact hr.stop

/-- **Every run** does. -/
theorem of_reach [Inhabited α] (hs : (machine α cap).Reach Machine.Always s) :
    Refines cap s.ring s.history := by
  apply hs.invariant
  · rintro _ rfl
    exact ⟨.nil, RingLog.of_length_le (le_refl _), (Nat.zero_mod cap).symm,
      (Nat.zero_mod cap).symm, rfl⟩
  · intro s e t hr _ hn
    exact hr.next hn

end Refines

/-- **The ring buffer refines a bounded FIFO.**  For every capacity and in every state of every
run, what the critical sections have done is a history of the bounded queue that ends with the
contents of the ring.  So the items popped are a prefix of the items accepted, `size` is the
difference and at most the capacity, a push returned without storing its item only after `stop`,
and a pop returned `false` only after `stop`, when everything accepted had been popped. -/
theorem ring_buffer_refines_fifo [Inhabited α] (cap : ℕ) (s : Buffering α)
    (hs : (machine α cap).Reach Machine.Always s) :
    FifoRun cap s.history (s.ring.contents cap, s.ring.stopped) ∧
    popped s.history <+: accepted s.history ∧
    s.ring.size = (accepted s.history).length - (popped s.history).length ∧
    s.ring.size ≤ cap ∧
    (∀ h₁ h₂ item, s.history = h₁ ++ .refused item :: h₂ → .stopped ∈ h₁) ∧
    (∀ h₁ h₂, s.history = h₁ ++ .ended :: h₂ → .stopped ∈ h₁ ∧ popped h₁ = accepted h₁) := by
  have hr := Refines.of_reach hs
  have hcount := hr.count
  have hlength : (s.ring.contents cap).length = s.ring.count := by
    rw [RingBuffer.contents, List.length_map, List.length_range]
  have hrun : FifoRun cap s.history (s.ring.contents cap, s.ring.stopped) := by
    rw [hr.contents]
    exact hr.run
  refine ⟨hrun, ⟨_, hrun.accepted_eq.symm⟩, ?_, ?_, fun h₁ h₂ item heq => ?_, fun h₁ h₂ heq => ?_⟩
  · rw [RingBuffer.size]
    omega
  · rw [RingBuffer.size, ← hlength]
    exact hrun.length_le
  · obtain ⟨q₁, q₂, hbefore, hstep⟩ := hrun.before heq
    cases hstep
    exact hbefore.stopped_iff.mp rfl
  · obtain ⟨q₁, q₂, hbefore, hstep⟩ := hrun.before heq
    cases hstep
    have hall := hbefore.accepted_eq
    rw [List.append_nil] at hall
    exact ⟨hbefore.stopped_iff.mp rfl, hall.symm⟩

/-- A buffer of one item: the second push waits, is refused after `stop`, and the consumer drains
the buffer and learns of the end. -/
theorem ring_buffer_refines_fifo_shutdown : ∃ s : Buffering ℕ,
    (machine ℕ 1).Reach Machine.Always s ∧
      s.history = [.stored 7, .stopped, .refused 8, .popped 7, .ended] ∧
      popped s.history <+: accepted s.history ∧ s.ring.size ≤ 1 := by
  obtain ⟨s, hs, hhistory⟩ : ∃ s : Buffering ℕ, (machine ℕ 1).Reach Machine.Always s ∧
      s.history = [.stored 7, .stopped, .refused 8, .popped 7, .ended] :=
    Machine.exists_reach_of_exec
      [.push 7, .pushLock, .pushNotify, .push 8, .pushLock, .stop, .stopNotifyNotEmpty,
        .stopNotifyNotFull, .pushLock, .pop, .popLock, .popNotify, .pop, .popLock]
      rfl (by decide +kernel)
  have h := ring_buffer_refines_fifo 1 s hs
  exact ⟨s, hs, hhistory, h.2.1, h.2.2.2.1⟩

/-! ## Wake-ups -/

/-- A thread sleeps while it has nothing to do, or before the notification that wakes it. -/
structure Wakeful (cap : ℕ) (s : Buffering α) : Prop where
  consumer : s.consumer = .asleep →
    (s.ring.count = 0 ∧ s.ring.stopped = false) ∨ s.producer = .notifying ∨ 0 < s.stopsAtNotEmpty
  producer : ∀ item, s.producer = .asleep item →
    (cap ≤ s.ring.count ∧ s.ring.stopped = false) ∨ s.consumer = .notifying ∨
      0 < s.stopsAtNotEmpty + s.stopsAtNotFull

/-- **One step** keeps it. -/
theorem Wakeful.next (hw : Wakeful cap s) (hn : Buffering.next cap s e = some t) :
    Wakeful cap t := by
  obtain ⟨hconsumer, hproducer⟩ := hw
  cases e with
  | pushLock =>
      simp only [Buffering.next] at hn
      split at hn <;> cases hn
      unfold pushLock RingBuffer.push
      constructor <;> grind
  | popLock =>
      simp only [Buffering.next] at hn
      split at hn <;> cases hn
      unfold popLock RingBuffer.pop
      constructor <;> grind
  | stop =>
      cases hn
      exact ⟨fun _ => .inr (.inr (Nat.succ_pos _)), fun _ _ => .inr (.inr (by dsimp only; omega))⟩
  | pushWake | popWake =>
      cases hn
      constructor <;> grind
  | push | pushNotify | pop | popNotify | stopNotifyNotEmpty | stopNotifyNotFull =>
      simp only [Buffering.next] at hn
      split at hn <;> cases hn
      constructor <;> grind

/-- **No wake-up is lost.**  In every state of every run a sleeping consumer has an empty buffer
that is not stopped before it, or a notification ahead; the same holds for a sleeping producer and
a full buffer.  With room for an item, the two never sleep with no notification ahead. -/
theorem no_lost_wakeup [Inhabited α] (hs : (machine α cap).Reach Machine.Always s) :
    Wakeful cap s ∧ (0 < cap → s.consumer = .asleep → ∀ item, s.producer = .asleep item →
      0 < s.stopsAtNotEmpty + s.stopsAtNotFull) := by
  have hw : Wakeful cap s := by
    apply hs.invariant
    · rintro _ rfl
      exact ⟨nofun, nofun⟩
    · intro s e t hw _ hn
      exact hw.next hn
  refine ⟨hw, fun hcap hconsumer item hproducer => ?_⟩
  rcases hw.consumer hconsumer with ⟨hempty, -⟩ | hnotifying | hstop
  · rcases hw.producer item hproducer with ⟨hfull, -⟩ | hnotifying | hstop
    · omega
    · rw [hconsumer] at hnotifying
      cases hnotifying
    · exact hstop
  · rw [hproducer] at hnotifying
    cases hnotifying
  · omega

end Buffering

end DeviceService
