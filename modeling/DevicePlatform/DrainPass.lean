/-
# The driver's drain pass, its kfifo and its readers

Model of `custom_acq_irq_thread`, `custom_acq_read` and `custom_acq_poll`
(`driver/custom-acq/custom_acq.c`).

* A **pass** of the IRQ thread reads the FIFO level, the sequence number and the
  value over SPI, absorbs failed reads (`DRAIN_MAX_ERRORS`), applies fault
  injection and the drop policy, and stores the sample into the kfifo; `PassPc` is
  the point it has reached, with its locals.
* A **reader** checks the kfifo, sleeps on `data_wq` and copies samples out;
  `ReaderPc` follows `wait_event_interruptible`, whose test of the condition and
  whose `schedule()` are separate steps.
* `AcqDev` is the device with any number of readers.  The module parameters can be
  written at any moment, so they are read at the step that reads them in the code.

What the register reads return is a label here; `DrainLoop.lean` connects a pass
to the MCU.  Tracepoints, the delays of fault injection and the optional marker
GPIO are left out: they touch no state that the code reads back.
-/
import DevicePlatform.RegisterProtocol
import Mathlib.Data.Int.Notation

/-! ## Samples, parameters and drop policies -/

/-- `SAMPLE_KFIFO_SIZE`. -/
def sampleKfifoSize : ℕ := 128

/-- `DRAIN_MAX_ERRORS`. -/
def drainMaxErrors : ℕ := 3

/-- `struct custom_acq_sample`. -/
structure Sample where
  seq : BitVec 32
  value : BitVec 32
  irqTsNs : ℤ
  deriving DecidableEq, Repr

/-- `sizeof(struct custom_acq_sample)`. -/
def sampleBytes : ℕ := 16

/-- `enum custom_acq_drop_policy`. -/
inductive DropPolicy where
  | newest
  | oldest
  | downsample
  deriving DecidableEq, Repr

/-- `sysfs_streq`: equal up to one trailing newline on either side. -/
def sysfsStreq (s t : String) : Bool := s == t || s ++ "\n" == t || s == t ++ "\n"

/-- The module parameters a pass reads. -/
structure Params where
  dropPolicy : String
  downsampleN : BitVec 32
  faultDropEvery : BitVec 32
  deriving DecidableEq, Repr

namespace Params

/-- The parameters as loaded. -/
def default : Params := ⟨"newest", 2, 0⟩

/-- `custom_acq_get_drop_policy`. -/
def getDropPolicy (p : Params) : DropPolicy :=
  if sysfsStreq p.dropPolicy "oldest" then .oldest
  else if sysfsStreq p.dropPolicy "downsample" then .downsample
  else .newest

end Params

/-! ## The pass -/

/-- The point a pass has reached. -/
inductive PassPc where
  /-- About to read `REG_FIFO_LEVEL`. -/
  | level
  /-- `custom_acq_read_sample`: about to read `REG_DATA_SEQ`. -/
  | seq
  /-- `custom_acq_read_sample`: about to read `REG_DATA_VAL`. -/
  | val (seq : BitVec 32)
  /-- A sample was read; about to test `fault_drop_every`. -/
  | inject (s : Sample)
  /-- About to test for the policy `downsample`. -/
  | downsample (s : Sample)
  /-- About to run the section under `fifo_lock`. -/
  | store (s : Sample)
  /-- The loop has ended; about to wake the readers. -/
  | finish
  deriving DecidableEq, Repr

/-- A pass in progress: its point, the failed reads in a row, and `drained`. -/
structure Pass where
  pc : PassPc
  errors : ℕ
  drained : BitVec 32
  deriving DecidableEq, Repr

namespace Pass

/-- A pass that has just begun. -/
def begin : Pass := ⟨.level, 0, 0⟩

/-- A failed register read: `if (++errors < DRAIN_MAX_ERRORS) continue; … break;`. -/
def fail (p : Pass) : Pass :=
  { p with
    pc := if p.errors + 1 < drainMaxErrors then .level else .finish
    errors := p.errors + 1 }

/-- `drained++` and the next iteration. -/
def again (p : Pass) : Pass := { p with pc := .level, drained := p.drained + 1 }

/-- The result `r` of the register read the pass is waiting for. -/
def reply (irqTsNs : ℤ) (r : Except Errno (BitVec 32)) (p : Pass) : Option Pass :=
  match p.pc, r with
  | .level, .ok lvl => some { p with pc := if lvl = 0 then .finish else .seq }
  | .seq, .ok seq => some { p with pc := .val seq }
  | .val seq, .ok value => some { p with pc := .inject ⟨seq, value, irqTsNs⟩, errors := 0 }
  | .level, .error _ => some p.fail
  | .seq, .error _ => some p.fail
  | .val _, .error _ => some p.fail
  | _, _ => none

end Pass

/-! ## The device -/

/-- The part of `struct custom_acq` the pass and the readers share. -/
structure Driver where
  params : Params
  /-- The kfifo, oldest sample first. -/
  samples : List Sample
  kfifoOverflow : BitVec 32
  policyDropped : BitVec 32
  downsampleCounter : BitVec 32
  irqTsNs : ℤ
  /-- The IRQ thread's pass, if one is in progress. -/
  pass : Option Pass
  deriving DecidableEq, Repr

namespace Driver

/-- The device after probe. -/
def probe (params : Params) : Driver := ⟨params, [], 0, 0, 0, 0, none⟩

/-- `kfifo_is_full`. -/
def kfifoIsFull (d : Driver) : Bool := d.samples.length == sampleKfifoSize

/-- `kfifo_put`, counting a refusal. -/
def kfifoPut (s : Sample) (d : Driver) : Driver :=
  if d.kfifoIsFull then { d with kfifoOverflow := d.kfifoOverflow + 1 }
  else { d with samples := d.samples ++ [s] }

/-- The eviction of the policy `oldest`. -/
def evict (d : Driver) : Driver :=
  { d with samples := d.samples.tail, policyDropped := d.policyDropped + 1 }

/-- The section under `fifo_lock`. -/
def store (s : Sample) (d : Driver) : Driver :=
  if d.params.getDropPolicy = .oldest ∧ d.kfifoIsFull then d.evict.kfifoPut s
  else d.kfifoPut s

/-- With room in the kfifo the sample is queued. -/
theorem store_of_room {d : Driver} (s : Sample) (h : d.kfifoIsFull = false) :
    d.store s = { d with samples := d.samples ++ [s] } := by
  unfold store kfifoPut
  rw [if_neg (by simp [h]), if_neg (by simp [h])]

/-- A full kfifo refuses the sample, unless the policy is `oldest`. -/
theorem store_of_refused {d : Driver} (s : Sample) (h : d.kfifoIsFull = true)
    (hpolicy : d.params.getDropPolicy ≠ .oldest) :
    d.store s = { d with kfifoOverflow := d.kfifoOverflow + 1 } := by
  unfold store kfifoPut
  rw [if_neg (fun hc => hpolicy hc.1), if_pos h]

/-- Under the policy `oldest` a full kfifo gives its oldest sample up. -/
theorem store_of_evicted {d : Driver} (s : Sample) (h : d.kfifoIsFull = true)
    (hpolicy : d.params.getDropPolicy = .oldest) :
    d.store s =
      { d with samples := d.samples.tail ++ [s], policyDropped := d.policyDropped + 1 } := by
  have hlen : d.samples.length = sampleKfifoSize := by simpa [kfifoIsFull] using h
  have hroom : d.evict.kfifoIsFull = false := by
    simp [evict, kfifoIsFull, List.length_tail, hlen, sampleKfifoSize]
  unfold store kfifoPut
  rw [if_pos ⟨hpolicy, h⟩, if_neg (by simp [hroom])]
  rfl

/-- A step of the pass that reads no register.  `downsample_n = 0` is a division by
zero: the thread does not survive it. -/
def passStep (p : Pass) (d : Driver) : Option Driver :=
  match p.pc with
  | .inject s =>
      if d.params.faultDropEvery ≠ 0 ∧ s.seq % d.params.faultDropEvery = 0 then
        some { d with pass := some p.again }
      else some { d with pass := some { p with pc := .downsample s } }
  | .downsample s =>
      if d.params.getDropPolicy = .downsample then
        if d.params.downsampleN = 0 then none
        else if (d.downsampleCounter + 1) % d.params.downsampleN ≠ 0 then
          some { d with
            downsampleCounter := d.downsampleCounter + 1
            policyDropped := d.policyDropped + 1
            pass := some p.again }
        else
          some { d with
            downsampleCounter := d.downsampleCounter + 1
            pass := some { p with pc := .store s } }
      else some { d with pass := some { p with pc := .store s } }
  | .store s => some { d.store s with pass := some p.again }
  | .finish => some { d with pass := none }
  | .level | .seq | .val _ => none

end Driver

/-! ## Readers -/

/-- What a sleeper on `data_wq` is waiting in. -/
inductive Wait where
  /-- `custom_acq_read`, for at most `count` bytes. -/
  | read (count : ℕ)
  /-- `custom_acq_poll`. -/
  | poll
  deriving DecidableEq, Repr

/-- The point a reading process has reached. -/
inductive ReaderPc where
  /-- Not in a call. -/
  | user
  /-- `custom_acq_read`: about to test whether the kfifo is empty. -/
  | check (nonblock : Bool) (count : ℕ)
  /-- Queued on `data_wq`, about to test the condition. -/
  | waitCheck (w : Wait)
  /-- The condition was false; about to call `schedule()`. -/
  | waitSleep (w : Wait)
  /-- Asleep on `data_wq`. -/
  | asleep (w : Wait)
  /-- `custom_acq_read`: about to take `fifo_lock` and copy. -/
  | copy (count : ℕ)
  /-- `custom_acq_read` has returned an error or the copied samples. -/
  | readDone (r : Except Errno (List Sample))
  /-- `custom_acq_poll` has returned, readable. -/
  | pollDone
  deriving DecidableEq

namespace ReaderPc

/-- In a call. -/
def busy : ReaderPc → Bool
  | .user | .readDone _ | .pollDone => false
  | _ => true

/-- Asleep on `data_wq`. -/
def isAsleep : ReaderPc → Bool
  | .asleep _ => true
  | _ => false

/-- `wake_up_interruptible(&data_wq)`: every process on the queue becomes runnable and
tests its condition again. -/
def wake : ReaderPc → ReaderPc
  | .waitSleep w => .waitCheck w
  | .asleep w => .waitCheck w
  | pc => pc

/-- `custom_acq_read` up to its first test. -/
def read (nonblock : Bool) (bytes : ℕ) : ReaderPc :=
  let count := bytes - bytes % sampleBytes
  if count = 0 then .readDone (.error .einval) else .check nonblock count

/-- The reader's next step, with the kfifo before it: its point and the kfifo after. -/
def step (samples : List Sample) : ReaderPc → Option (ReaderPc × List Sample)
  | .check nonblock count =>
      if samples = [] then
        if nonblock then some (.readDone (.error .eagain), samples)
        else some (.waitCheck (.read count), samples)
      else some (.copy count, samples)
  | .waitCheck w =>
      if samples = [] then some (.waitSleep w, samples)
      else match w with
        | .read count => some (.copy count, samples)
        | .poll => some (.pollDone, samples)
  | .waitSleep w => some (.asleep w, samples)
  | .copy count =>
      let n := count / sampleBytes
      some (.readDone (.ok (samples.take n)), samples.drop n)
  | _ => none

/-- The number of samples that the reader's next step takes. -/
def taken : ReaderPc → ℕ
  | .copy count => count / sampleBytes
  | _ => 0

/-- A reader's step takes samples from the front of the kfifo. -/
theorem step_samples {r r' : ReaderPc} {samples samples' : List Sample}
    (h : r.step samples = some (r', samples')) : samples' = samples.drop r.taken := by
  cases r <;> simp only [step, reduceCtorEq] at h
  case check => split_ifs at h <;> cases h <;> rfl
  case waitCheck w =>
    split_ifs at h
    · cases h
      rfl
    · cases w <;> cases h <;> rfl
  case waitSleep =>
    cases h
    rfl
  case copy count =>
    cases h
    rfl

/-- A signal ends an interruptible wait; a poll is cut short by its caller. -/
def signal : ReaderPc → Option ReaderPc
  | .waitCheck (.read _) | .waitSleep (.read _) | .asleep (.read _) =>
      some (.readDone (.error .erestartsys))
  | .waitCheck .poll | .waitSleep .poll | .asleep .poll => some .user
  | _ => none

end ReaderPc

/-! ## The device with its readers -/

/-- The device and the processes that have it open. -/
structure AcqDev where
  drv : Driver
  readers : List ReaderPc
  deriving DecidableEq

/-- What can happen at the device. -/
inductive AcqEvent where
  /-- DATA_READY rises: the hard IRQ stamps the time and wakes the thread. -/
  | irq (ts : ℤ)
  /-- The pass's register read returns. -/
  | reply (r : Except Errno (BitVec 32))
  /-- The pass takes its next step. -/
  | pass
  /-- The module parameters are written. -/
  | setParams (p : Params)
  /-- Another process opens the device. -/
  | openDev
  | read (i : ℕ) (nonblock : Bool) (bytes : ℕ)
  | poll (i : ℕ)
  /-- Reader `i` takes its next step. -/
  | reader (i : ℕ)
  | signal (i : ℕ)
  deriving DecidableEq

namespace AcqDev

/-- The device after probe, not yet opened. -/
def probe (params : Params) : AcqDev := ⟨Driver.probe params, []⟩

/-- The wake-up at the end of a pass: `if (drained) wake_up_interruptible(&data_wq)`. -/
def wakes (p : Pass) : Bool := p.pc == .finish && p.drained != 0

/-- A process that is not in a call makes one. -/
def enter (a : AcqDev) (i : ℕ) (pc : ReaderPc) : Option AcqDev :=
  match a.readers[i]? with
  | some r => if r.busy then none else some { a with readers := a.readers.set i pc }
  | none => none

/-- A reader that enters a call leaves the driver alone. -/
theorem enter_drv {a a' : AcqDev} {i : ℕ} {pc : ReaderPc} (h : a.enter i pc = some a') :
    a'.drv = a.drv := by
  rw [enter] at h
  split at h
  · split at h
    · cases h
    · cases h
      rfl
  · cases h

/-- One event. -/
def next (a : AcqDev) : AcqEvent → Option AcqDev
  | .irq ts =>
      match a.drv.pass with
      | none => some { a with drv := { a.drv with irqTsNs := ts, pass := some Pass.begin } }
      | some _ => none
  | .reply r =>
      match a.drv.pass with
      | none => none
      | some p =>
          (p.reply a.drv.irqTsNs r).map fun p' => { a with drv := { a.drv with pass := some p' } }
  | .pass =>
      match a.drv.pass with
      | none => none
      | some p => (a.drv.passStep p).map fun d =>
          ⟨d, if wakes p then a.readers.map ReaderPc.wake else a.readers⟩
  | .setParams p => some { a with drv := { a.drv with params := p } }
  | .openDev => some { a with readers := a.readers ++ [.user] }
  | .read i nonblock bytes => a.enter i (ReaderPc.read nonblock bytes)
  | .poll i => a.enter i (.waitCheck .poll)
  | .reader i =>
      match a.readers[i]? with
      | some r => (r.step a.drv.samples).map fun (r', samples') =>
          ⟨{ a.drv with samples := samples' }, a.readers.set i r'⟩
      | none => none
  | .signal i =>
      match a.readers[i]? with
      | some r => r.signal.map fun r' => { a with readers := a.readers.set i r' }
      | none => none

/-- The number of samples that the next step of reader `i` takes from the kfifo. -/
def taken (a : AcqDev) (i : ℕ) : ℕ := (a.readers[i]?.map ReaderPc.taken).getD 0

/-- What an event does to the driver: `d` is the driver after it. -/
def Drives (a : AcqDev) (d : Driver) : AcqEvent → Prop
  | .irq ts => a.drv.pass = none ∧ d = { a.drv with irqTsNs := ts, pass := some Pass.begin }
  | .reply r => ∃ p p', a.drv.pass = some p ∧ p.reply a.drv.irqTsNs r = some p' ∧
      d = { a.drv with pass := some p' }
  | .pass => ∃ p, a.drv.pass = some p ∧ a.drv.passStep p = some d
  | .setParams p => d = { a.drv with params := p }
  | .reader i => d = { a.drv with samples := a.drv.samples.drop (a.taken i) }
  | _ => d = a.drv

/-- **What an event does to the driver.** -/
theorem drives_of_next {a a' : AcqDev} {e : AcqEvent} (h : a.next e = some a') :
    a.Drives a'.drv e := by
  cases e with
  | irq ts =>
      cases hp : a.drv.pass with
      | none =>
          simp only [next, hp, Option.some.injEq] at h
          exact ⟨hp, h ▸ rfl⟩
      | some p => simp [next, hp] at h
  | reply r =>
      cases hp : a.drv.pass with
      | none => simp [next, hp] at h
      | some p =>
          simp only [next, hp] at h
          obtain ⟨p', hp', rfl⟩ := Option.map_eq_some_iff.mp h
          exact ⟨p, p', hp, hp', rfl⟩
  | pass =>
      cases hp : a.drv.pass with
      | none => simp [next, hp] at h
      | some p =>
          simp only [next, hp] at h
          obtain ⟨d, hd, rfl⟩ := Option.map_eq_some_iff.mp h
          exact ⟨p, hp, hd⟩
  | setParams p =>
      cases h
      rfl
  | openDev =>
      cases h
      rfl
  | read i nonblock bytes => exact enter_drv h
  | poll i => exact enter_drv h
  | reader i =>
      simp only [next] at h
      split at h
      · next r hr =>
        obtain ⟨⟨r', samples'⟩, hstep, rfl⟩ := Option.map_eq_some_iff.mp h
        rw [Drives, taken, hr, ReaderPc.step_samples hstep]
        rfl
      · cases h
  | signal i =>
      simp only [next] at h
      split at h
      · obtain ⟨_, -, rfl⟩ := Option.map_eq_some_iff.mp h
        rfl
      · cases h

/-- Some process is asleep on `data_wq`. -/
def someoneAsleep (a : AcqDev) : Bool := a.readers.any ReaderPc.isAsleep

end AcqDev
