/-
# Blocking reads and `read_exact`

`custom_acq_read` tests whether the kfifo is empty before it takes `fifo_lock`, and copies what it
finds after.  Between the two another reader may take the last sample; the copy then is of no
samples, and the call returns 0 though it was to block.  `read_exact`
(`userspace/device-service/src/read_exact.cpp`) takes that for the end of the file and throws.

`AcqThread` is the device with any number of readers, of which process 0 is the acquisition thread
in the loop of `read_exact`.

* `blocking_read_never_eof`: in every run in which no reader takes the last samples while another
  one is between its test and its copy, every read returns an error or a positive number of
  samples, and `read_exact` never meets the end of the file.
* `eof_on_last_sample`: two readers and one sample.
-/
import DevicePlatform.WakeUp

/-! ## Readers -/

/-- A wait on behalf of `custom_acq_read` is for at least one sample. -/
def Wait.Whole : Wait → Prop
  | .read count => sampleBytes ≤ count
  | .poll => True

namespace ReaderPc

/-- The reader is between its test and its copy. -/
def copying : ReaderPc → Bool
  | .copy _ => true
  | _ => false

/-- What a reader may rely on: it asks for at least one sample, a reader that is about to copy
finds one, and a read that has succeeded has got one. -/
def Sound (samples : List Sample) : ReaderPc → Prop
  | .check _ count => sampleBytes ≤ count
  | .waitCheck w => w.Whole
  | .waitSleep w => w.Whole
  | .asleep w => w.Whole
  | .copy count => sampleBytes ≤ count ∧ samples ≠ []
  | .readDone (.ok l) => l ≠ []
  | .readDone (.error _) => True
  | .user => True
  | .pollDone => True

variable {samples samples' : List Sample} {r r' : ReaderPc}

/-- Only a reader that copies cares about the kfifo. -/
theorem Sound.mono (h : r.Sound samples) (hne : r.copying = true → samples' ≠ []) :
    r.Sound samples' := by
  cases r
  case copy count => exact ⟨h.1, hne rfl⟩
  case readDone result => cases result <;> exact h
  all_goals exact h

/-- A wake-up. -/
theorem Sound.wake (h : r.Sound samples) : r.wake.Sound samples := by
  cases r <;> exact h

/-- A call of `custom_acq_read`. -/
theorem sound_read (nonblock : Bool) (bytes : ℕ) : (read nonblock bytes).Sound samples := by
  unfold read
  dsimp only
  split_ifs with hzero
  · trivial
  · simp only [sampleBytes] at hzero
    show sampleBytes ≤ bytes - bytes % sampleBytes
    simp only [sampleBytes]
    omega

/-- The reader's next step. -/
theorem Sound.step (h : r.Sound samples) (hstep : r.step samples = some (r', samples')) :
    r'.Sound samples' := by
  cases r <;> simp only [ReaderPc.step, reduceCtorEq] at hstep
  case check nonblock count =>
    split_ifs at hstep with hempty
    · cases hstep
      trivial
    · cases hstep
      exact h
    · cases hstep
      exact ⟨h, hempty⟩
  case waitCheck w =>
    split_ifs at hstep with hempty
    · cases hstep
      exact h
    · cases w <;> cases hstep
      · exact ⟨h, hempty⟩
      · trivial
  case waitSleep w =>
    cases hstep
    exact h
  case copy count =>
    -- `kfifo_to_user` copies nothing only if the kfifo is empty or the buffer too short
    cases hstep
    obtain ⟨hcount, hne⟩ := h
    show samples.take (count / sampleBytes) ≠ []
    have hpos : 0 < count / sampleBytes := Nat.div_pos hcount (by decide)
    rw [ne_eq, List.take_eq_nil_iff, not_or]
    exact ⟨by omega, hne⟩

/-- A signal. -/
theorem sound_signal (h : r.signal = some r') : r'.Sound samples := by
  cases r
  case waitCheck w => cases w <;> cases h <;> trivial
  case waitSleep w => cases w <;> cases h <;> trivial
  case asleep w => cases w <;> cases h <;> trivial
  all_goals cases h

end ReaderPc

/-! ## The device -/

namespace AcqDev

variable {a a' : AcqDev} {e : AcqEvent}

/-- All readers may rely on what they rely on. -/
def Sound (a : AcqDev) : Prop :=
  ∀ (i : ℕ) (r : ReaderPc), a.readers[i]? = some r → r.Sound a.drv.samples

/-- The condition on a step: no reader takes the last samples while another one is between its test
and its copy. -/
def Exclusive (a : AcqDev) : AcqEvent → Prop
  | .reader j => 0 < a.taken j → a.drv.samples.length ≤ a.taken j →
      ∀ i < a.readers.length, i ≠ j → a.readers[i]?.any ReaderPc.copying = false
  | _ => True

instance (a : AcqDev) (e : AcqEvent) : Decidable (a.Exclusive e) := by
  unfold Exclusive
  split <;> infer_instance

/-- One reader moves, and the others still rely on what they rely on. -/
theorem sound_set {j : ℕ} {r' : ReaderPc} {readers : List ReaderPc} {d : Driver}
    (hr : r'.Sound d.samples)
    (h : ∀ (i : ℕ) (r : ReaderPc), i ≠ j → readers[i]? = some r → r.Sound d.samples) :
    Sound ⟨d, readers.set j r'⟩ := by
  intro i r hi
  dsimp only at hi ⊢
  rw [List.getElem?_set] at hi
  split_ifs at hi with hij
  · cases hi
    exact hr
  · exact h i r (Ne.symm hij) hi

/-- A process makes a call. -/
theorem Sound.enter {i : ℕ} {pc : ReaderPc} (h : a.Sound) (hpc : pc.Sound a.drv.samples)
    (hn : a.enter i pc = some a') : a'.Sound := by
  unfold AcqDev.enter at hn
  split at hn
  · split at hn
    · cases hn
    · cases hn
      exact sound_set hpc fun i r _ hi => h i r hi
  · cases hn

/-- A step of the pass leaves a kfifo that is not empty not empty. -/
theorem Sound.pass {p : Pass} {d : Driver} {readers : List ReaderPc} (h : a.Sound)
    (hstep : a.drv.passStep p = some d)
    (hreaders : readers = a.readers ∨ readers = a.readers.map ReaderPc.wake) :
    Sound ⟨d, readers⟩ := by
  have hne : a.drv.samples ≠ [] → d.samples ≠ [] := by
    rcases Driver.passStep_cases hstep with ⟨s, -, rfl⟩ | ⟨-, rfl⟩ | ⟨-, -, hsame, -⟩
    · exact fun _ => Driver.store_ne_nil s a.drv
    · exact id
    · rw [hsame]
      exact id
  have hmono : ∀ r : ReaderPc, r.Sound a.drv.samples → r.Sound d.samples := by
    intro r hr
    refine hr.mono fun hcopy => ?_
    cases r <;> cases hcopy
    exact hne hr.2
  rcases hreaders with rfl | rfl
  · exact fun i r hi => hmono r (h i r hi)
  · intro i r hi
    rw [List.getElem?_map, Option.map_eq_some_iff] at hi
    obtain ⟨r₀, hr₀, rfl⟩ := hi
    exact hmono _ (h i r₀ hr₀).wake

/-- A reader's step. -/
theorem Sound.reader {j : ℕ} {r r' : ReaderPc} {samples' : List Sample} (h : a.Sound)
    (hok : a.Exclusive (.reader j)) (hr : a.readers[j]? = some r)
    (hstep : r.step a.drv.samples = some (r', samples')) :
    Sound ⟨{ a.drv with samples := samples' }, a.readers.set j r'⟩ := by
  have htaken : a.taken j = r.taken := by
    rw [taken, hr]
    rfl
  refine sound_set ((h j r hr).step hstep) ?_
  intro i q hij hq
  refine (h i q hq).mono fun hcopy => ?_
  show samples' ≠ []
  rw [ReaderPc.step_samples hstep, ne_eq, List.drop_eq_nil_iff]
  intro hlast
  -- another reader is about to copy, so that this one takes nothing
  have hzero : r.taken = 0 := by
    by_contra hpos
    have hother := hok (by omega) (by omega) i (List.getElem?_eq_some_iff.mp hq).1 hij
    rw [hq, Option.any_some, hcopy] at hother
    cases hother
  rw [hzero, Nat.le_zero, List.length_eq_zero_iff] at hlast
  cases q <;> cases hcopy
  exact (h i _ hq).2 hlast

/-- Every event that meets the condition keeps the readers sound. -/
theorem Sound.next (h : a.Sound) (hok : a.Exclusive e) (hn : a.next e = some a') : a'.Sound := by
  cases e with
  | irq ts =>
      simp only [AcqDev.next] at hn
      split at hn
      · cases hn
        exact fun i r hi => h i r hi
      · cases hn
  | reply r =>
      simp only [AcqDev.next] at hn
      split at hn
      · cases hn
      · obtain ⟨p', -, rfl⟩ := Option.map_eq_some_iff.mp hn
        exact fun i r hi => h i r hi
  | pass =>
      simp only [AcqDev.next] at hn
      split at hn
      · cases hn
      · next p hp =>
        obtain ⟨d, hd, rfl⟩ := Option.map_eq_some_iff.mp hn
        -- an eviction is followed by a put under the same lock, so the pass empties nothing
        refine h.pass hd ?_
        split
        · exact .inr rfl
        · exact .inl rfl
  | setParams p =>
      cases hn
      exact fun i r hi => h i r hi
  | openDev =>
      cases hn
      intro i r hi
      dsimp only at hi
      rcases Nat.lt_or_ge i a.readers.length with hlt | hge
      · rw [List.getElem?_append_left hlt] at hi
        exact h i r hi
      · rw [List.getElem?_append_right hge, List.getElem?_singleton] at hi
        split_ifs at hi
        cases hi
        trivial
  | read i nonblock bytes => exact h.enter (ReaderPc.sound_read nonblock bytes) hn
  | poll i => exact h.enter (show (ReaderPc.waitCheck .poll).Sound a.drv.samples from trivial) hn
  | reader j =>
      simp only [AcqDev.next] at hn
      split at hn
      · next r hr =>
        obtain ⟨⟨r', samples'⟩, hstep, rfl⟩ := Option.map_eq_some_iff.mp hn
        exact h.reader hok hr hstep
      · cases hn
  | signal i =>
      simp only [AcqDev.next] at hn
      split at hn
      · obtain ⟨r', hr', rfl⟩ := Option.map_eq_some_iff.mp hn
        exact sound_set (ReaderPc.sound_signal hr') fun i r _ hi => h i r hi
      · cases hn

end AcqDev

/-! ## The acquisition thread -/

/-- How `read_exact` ends. -/
inductive ReadExactEnd where
  /-- The buffer is full. -/
  | filled
  /-- "read returned EOF unexpectedly". -/
  | eof
  /-- "read from … failed". -/
  | failed (err : Errno)
  deriving DecidableEq, Repr

/-- The device, and the acquisition thread in `read_exact`: process 0. -/
structure AcqThread where
  dev : AcqDev
  /-- `len`, the size of the buffer. -/
  len : ℕ
  /-- `total`, the bytes read so far. -/
  total : ℕ
  /-- `::read` has been called, and its result not yet looked at. -/
  waiting : Bool
  /-- How the call of `read_exact` has ended, if it has. -/
  ended : Option ReadExactEnd

inductive AcqThreadEvent where
  /-- An event of the device; the thread itself makes no call by it. -/
  | dev (e : AcqEvent)
  /-- `read_exact` is called for a buffer of `len` bytes. -/
  | begin (len : ℕ)
  /-- `::read(fd, p + total, len - total)`. -/
  | call
  /-- The result of the call is looked at. -/
  | result

namespace AcqThread

/-- A call of process 0. -/
def ownCall : AcqEvent → Bool
  | .read i _ _ => i == 0
  | .poll i => i == 0
  | _ => false

/-- The loop of `read_exact` looks at the result of a read.  An interrupted wait shows as `EINTR`,
and the loop goes on. -/
def look (t : AcqThread) : Except Errno (List Sample) → AcqThread
  | .error .erestartsys => { t with waiting := false }
  | .error err => { t with waiting := false, ended := some (.failed err) }
  | .ok l =>
      let n := l.length * sampleBytes
      if n = 0 then { t with waiting := false, ended := some .eof }
      else
        { t with
          waiting := false
          total := t.total + n
          ended := if t.total + n < t.len then none else some .filled }

/-- One event. -/
def next (t : AcqThread) : AcqThreadEvent → Option AcqThread
  | .dev e => if ownCall e then none else (t.dev.next e).map fun dev => { t with dev := dev }
  | .begin len =>
      if t.ended = some .filled then
        some { t with len := len, total := 0, ended := if 0 < len then none else some .filled }
      else none
  | .call =>
      if t.ended = none ∧ t.waiting = false then
        (t.dev.next (.read 0 false (t.len - t.total))).map fun dev =>
          { t with dev := dev, waiting := true }
      else none
  | .result =>
      if t.waiting then
        match t.dev.readers[0]? with
        | some (ReaderPc.readDone r) => some (t.look r)
        | _ => none
      else none

/-- The thread has opened the device, and no call of `read_exact` is in progress. -/
def opened (params : Params) : AcqThread :=
  ⟨{ AcqDev.probe params with readers := [.user] }, 0, 0, false, some .filled⟩

/-- The device and the thread, with any parameters. -/
def machine : Machine AcqThread AcqThreadEvent where
  init t := ∃ params, t = opened params
  next := next

/-- The condition on a step. -/
def Exclusive (t : AcqThread) : AcqThreadEvent → Prop
  | .dev e => t.dev.Exclusive e
  | _ => True

instance (t : AcqThread) (e : AcqThreadEvent) : Decidable (t.Exclusive e) := by
  unfold Exclusive
  split <;> infer_instance

/-- The readers are sound, and `read_exact` has not met the end of the file. -/
def Inv (t : AcqThread) : Prop := t.dev.Sound ∧ t.ended ≠ some .eof

/-- The result of a read that has copied a sample is not the end of the file. -/
theorem Inv.look {t : AcqThread} {r : Except Errno (List Sample)} (h : t.Inv)
    (hr : (ReaderPc.readDone r).Sound t.dev.drv.samples) : (t.look r).Inv := by
  cases r with
  | error err => cases err <;> first | exact ⟨h.1, h.2⟩ | exact ⟨h.1, nofun⟩
  | ok l =>
      have hpos : l.length * sampleBytes ≠ 0 := by
        have hlen := List.length_pos_iff.mpr (show l ≠ [] from hr)
        simp only [sampleBytes]
        omega
      simp only [AcqThread.look, if_neg hpos]
      refine ⟨h.1, ?_⟩
      dsimp only
      split <;> exact nofun

/-- Every event that meets the condition keeps the invariant. -/
theorem Inv.next {t t' : AcqThread} {e : AcqThreadEvent} (h : t.Inv) (hok : t.Exclusive e)
    (hn : t.next e = some t') : t'.Inv := by
  cases e with
  | dev e =>
      simp only [AcqThread.next] at hn
      split at hn
      · cases hn
      · obtain ⟨dev, hdev, rfl⟩ := Option.map_eq_some_iff.mp hn
        exact ⟨h.1.next hok hdev, h.2⟩
  | begin len =>
      simp only [AcqThread.next] at hn
      split at hn
      · cases hn
        refine ⟨h.1, ?_⟩
        dsimp only
        split <;> exact nofun
      · cases hn
  | call =>
      simp only [AcqThread.next] at hn
      split at hn
      · obtain ⟨dev, hdev, rfl⟩ := Option.map_eq_some_iff.mp hn
        exact ⟨h.1.next (e := .read 0 false (t.len - t.total)) trivial hdev, h.2⟩
      · cases hn
  | result =>
      -- the only event at which `read_exact` can throw
      simp only [AcqThread.next] at hn
      split at hn
      · split at hn
        · next r hr =>
          cases hn
          exact h.look (h.1 0 _ hr)
        · cases hn
      · cases hn

/-- **A blocking read never reports the end of the file**, in every run in which no reader takes
the last samples while another one is between its test and its copy: a read that has returned has
failed or copied a positive number of samples, and `read_exact` does not throw its EOF error. -/
theorem blocking_read_never_eof {t : AcqThread} (h : machine.Reach Exclusive t) :
    (∀ (i : ℕ) (r : Except Errno (List Sample)), t.dev.readers[i]? = some (.readDone r) →
      (∃ err, r = .error err) ∨ ∃ l, r = .ok l ∧ 0 < l.length * sampleBytes) ∧
      t.ended ≠ some .eof := by
  have hinv : t.Inv := by
    refine h.invariant ?_ fun _ _ _ ht hok hn => ht.next hok hn
    rintro _ ⟨params, rfl⟩
    refine ⟨?_, nofun⟩
    intro i r hi
    rw [opened, List.getElem?_singleton] at hi
    split_ifs at hi
    cases hi
    trivial
  refine ⟨?_, hinv.2⟩
  intro i r hi
  cases r with
  | error err => exact .inl ⟨err, rfl⟩
  | ok l =>
      refine .inr ⟨l, rfl, Nat.mul_pos (List.length_pos_iff.mpr ?_) (by decide)⟩
      exact hinv.1 i _ hi

/-- One sample is stored while the thread sleeps in `read_exact`. -/
def oneSample : List AcqThreadEvent :=
  [.begin 16, .call, .dev (.reader 0), .dev (.reader 0), .dev (.reader 0),
    .dev (.irq 7), .dev (.reply (.ok 1)), .dev (.reply (.ok 0)), .dev (.reply (.ok 0)),
    .dev .pass, .dev .pass, .dev .pass, .dev (.reply (.ok 0)), .dev .pass]

/-- The thread reads the sample. -/
theorem blocking_read_never_eof_one : ∃ t, machine.Reach Exclusive t ∧
    t.ended = some .filled ∧ t.total = 16 ∧ t.ended ≠ some .eof := by
  have hrun : ∃ t, machine.Reach Exclusive t ∧ t.ended = some .filled ∧ t.total = 16 :=
    Machine.exists_reach_of_exec (s := opened Params.default)
      (List.flatten [oneSample, [.dev (.reader 0), .dev (.reader 0), .result]]) ⟨_, rfl⟩
      (by decide +kernel)
  obtain ⟨t, ht, hended, htotal⟩ := hrun
  exact ⟨t, ht, hended, htotal, (blocking_read_never_eof ht).2⟩

/-- A second process takes the sample between the thread's test and its copy: the thread's blocking
read returns 0, and `read_exact` throws. -/
theorem eof_on_last_sample : ∃ t, machine.Reach Machine.Always t ∧
    t.dev.readers[0]? = some (.readDone (.ok [])) ∧ t.ended = some .eof :=
  Machine.exists_reach_of_exec (s := opened Params.default)
    (List.flatten [[.dev .openDev], oneSample,
      [.dev (.reader 0), .dev (.read 1 false 16), .dev (.reader 1), .dev (.reader 1),
        .dev (.reader 0), .result]]) ⟨_, rfl⟩ (by decide +kernel)

end AcqThread
