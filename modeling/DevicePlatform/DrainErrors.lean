/-
# When a drain pass gives up

A pass is meant to absorb transient errors: `DRAIN_MAX_ERRORS` is documented as the number of
*consecutive* failed register reads that end it.  The counter is shared by the reads of
`REG_FIFO_LEVEL`, `REG_DATA_SEQ` and `REG_DATA_VAL`, and only a whole sample resets it, so that a
successful read of the level between two failures does not (`gives_up_on_isolated_failures`).

`ReadLog` adds to the device the register reads of its current pass.  `pass_ends` proves that a
pass ends for one of the two documented reasons if the reads of a sample fail only while the
counter is zero; failed reads of the level are counted as they should.
-/
import DevicePlatform.DrainPass
import DevicePlatform.Transition

/-! ## What an event does to the pass -/

/-- What an event can do to the pass: begin it, answer its register read, take its next step, or
leave it alone. -/
inductive AcqDev.PassEvent (a a' : AcqDev) : AcqEvent → Prop
  | begins {ts : ℤ} (after : a'.drv.pass = some Pass.begin) : PassEvent a a' (.irq ts)
  | replies {r : Except Errno (BitVec 32)} {p p' : Pass} (before : a.drv.pass = some p)
      (reply : p.reply a.drv.irqTsNs r = some p') (after : a'.drv.pass = some p') :
      PassEvent a a' (.reply r)
  | steps {p : Pass} (before : a.drv.pass = some p) (step : a.drv.passStep p = some a'.drv) :
      PassEvent a a' .pass
  | rests {e : AcqEvent} (hirq : ∀ ts, e ≠ .irq ts) (hreply : ∀ r, e ≠ .reply r)
      (same : a'.drv.pass = a.drv.pass) : PassEvent a a' e

/-- Every event is one of these. -/
theorem AcqDev.passEvent_of_next {a a' : AcqDev} {e : AcqEvent} (h : a.next e = some a') :
    PassEvent a a' e := by
  have hdrv := drives_of_next h
  cases e with
  | irq ts =>
      obtain ⟨-, hafter⟩ := hdrv
      exact .begins (congrArg Driver.pass hafter)
  | reply r =>
      obtain ⟨p, p', hp, hreply, hafter⟩ := hdrv
      exact .replies hp hreply (congrArg Driver.pass hafter)
  | pass =>
      obtain ⟨p, hp, hstep⟩ := hdrv
      exact .steps hp hstep
  | setParams | openDev | read | poll | reader | signal =>
      refine .rests (by simp) (by simp) ?_
      rw [show a'.drv = _ from hdrv]

/-! ## The device with the reads of its pass -/

/-- A register read of a pass: the point that made it, and its result. -/
structure RegisterRead where
  pc : PassPc
  result : Except Errno (BitVec 32)
  deriving DecidableEq

/-- The read failed. -/
def RegisterRead.failed (r : RegisterRead) : Bool := !r.result.isOk

/-- The last `n` reads have all failed; the latest read is the first of the list. -/
def LastFailed (n : ℕ) (reads : List RegisterRead) : Prop :=
  n ≤ reads.length ∧ ∀ r ∈ reads.take n, r.failed = true

instance (n : ℕ) (reads : List RegisterRead) : Decidable (LastFailed n reads) :=
  inferInstanceAs (Decidable (_ ∧ _))

theorem lastFailed_zero (reads : List RegisterRead) : LastFailed 0 reads :=
  ⟨Nat.zero_le _, fun _ hr => by cases hr⟩

theorem LastFailed.cons {n : ℕ} {reads : List RegisterRead} {r : RegisterRead}
    (h : LastFailed n reads) (hr : r.failed = true) : LastFailed (n + 1) (r :: reads) := by
  refine ⟨Nat.succ_le_succ h.1, fun q hq => ?_⟩
  rw [List.take_succ_cons, List.mem_cons] at hq
  rcases hq with rfl | hq
  · exact hr
  · exact h.2 q hq

theorem LastFailed.mono {m n : ℕ} {reads : List RegisterRead} (h : LastFailed n reads)
    (hmn : m ≤ n) : LastFailed m reads :=
  ⟨Nat.le_trans hmn h.1, fun r hr => h.2 r ((List.take_prefix_take_left hmn).subset hr)⟩

/-- The device and the register reads of the current or last pass, the latest first. -/
structure ReadLog where
  dev : AcqDev
  reads : List RegisterRead

namespace ReadLog

/-- The reads after an event. -/
def record (l : ReadLog) : AcqEvent → List RegisterRead
  | .irq _ => []
  | .reply r =>
      match l.dev.drv.pass with
      | some p => ⟨p.pc, r⟩ :: l.reads
      | none => l.reads
  | _ => l.reads

/-- One event, and its record. -/
def next (l : ReadLog) (e : AcqEvent) : Option ReadLog :=
  (l.dev.next e).map fun dev => ⟨dev, l.record e⟩

/-- The device from probe, with any parameters. -/
def machine : Machine ReadLog AcqEvent where
  init l := ∃ params, l = ⟨AcqDev.probe params, []⟩
  next := next

/-- The loop of a pass has ended only because the MCU reported level 0, or because the last
`DRAIN_MAX_ERRORS` reads of the pass have all failed. -/
def EndsRightly (l : ReadLog) : Prop :=
  match l.dev.drv.pass with
  | some ⟨.finish, _, _⟩ =>
      l.reads.head? = some ⟨.level, .ok 0⟩ ∨ LastFailed drainMaxErrors l.reads
  | _ => True

instance (l : ReadLog) : Decidable l.EndsRightly := by
  unfold EndsRightly
  split <;> infer_instance

/-- The condition on a step: a read of `REG_DATA_SEQ` or `REG_DATA_VAL` fails only if no read has
failed since the pass last read a whole sample. -/
def Spared (l : ReadLog) (e : AcqEvent) : Prop :=
  match e, l.dev.drv.pass with
  | .reply (.error _), some p => p.pc = .level ∨ p.errors = 0
  | _, _ => True

instance (l : ReadLog) (e : AcqEvent) : Decidable (l.Spared e) := by
  unfold Spared
  split <;> infer_instance

/-- What the reads of a pass say about its counter, at each of its points. -/
def Counts (reads : List RegisterRead) (p : Pass) : Prop :=
  match p.pc with
  | .level => LastFailed p.errors reads
  | .seq | .val _ => True
  | .inject _ | .downsample _ | .store _ => p.errors = 0
  | .finish => reads.head? = some ⟨.level, .ok 0⟩ ∨ LastFailed drainMaxErrors reads

/-- A failed read that is the last of a row of failures. -/
theorem Counts.fail {reads : List RegisterRead} {p : Pass} {r : RegisterRead}
    (h : LastFailed p.errors reads) (hr : r.failed = true) : Counts (r :: reads) p.fail := by
  have hrow := h.cons hr
  by_cases hlt : p.errors + 1 < drainMaxErrors
  · simp only [Counts, Pass.fail, if_pos hlt]
    exact hrow
  · simp only [Counts, Pass.fail, if_neg hlt]
    exact .inr (hrow.mono (Nat.le_of_not_lt hlt))

/-- The answer to a register read. -/
theorem Counts.reply {reads : List RegisterRead} {p p' : Pass} {ts : ℤ}
    {r : Except Errno (BitVec 32)} (h : Counts reads p) (hreply : p.reply ts r = some p')
    (hspared : ∀ e, r = .error e → p.pc = .level ∨ p.errors = 0) :
    Counts (⟨p.pc, r⟩ :: reads) p' := by
  obtain ⟨pc, errors, drained⟩ := p
  cases r with
  | error e =>
      -- the counter is the length of the row of failures that this one continues
      have hrow : LastFailed errors reads := by
        rcases hspared e rfl with hpc | hzero
        · cases hpc
          exact h
        · cases hzero
          exact lastFailed_zero reads
      cases pc <;> cases hreply <;> exact Counts.fail hrow rfl
  | ok v =>
      cases pc with
      | level =>
          cases hreply
          by_cases hv : v = 0
          · simp only [Counts, if_pos hv]
            exact .inl (hv ▸ rfl)
          · simp only [Counts, if_neg hv]
      | seq =>
          cases hreply
          trivial
      | val =>
          cases hreply
          rfl
      | inject | downsample | store | finish => cases hreply

/-- A step of the pass that reads no register. -/
theorem Counts.passStep {reads : List RegisterRead} {p p' : Pass} {d d' : Driver}
    (h : Counts reads p) (hstep : d.passStep p = some d') (hp : d'.pass = some p') :
    Counts reads p' := by
  obtain ⟨pc, errors, drained⟩ := p
  -- a sample has been read, so the counter is zero here and at the next point
  have hzero : errors = 0 → (∀ s, Counts reads ⟨.downsample s, errors, drained⟩) ∧
      (∀ s, Counts reads ⟨.store s, errors, drained⟩) ∧
      Counts reads (Pass.again ⟨pc, errors, drained⟩) := by
    rintro rfl
    exact ⟨fun _ => rfl, fun _ => rfl, lastFailed_zero reads⟩
  cases pc with
  | inject s =>
      obtain ⟨hdown, -, hagain⟩ := hzero h
      rw [Driver.passStep] at hstep
      dsimp only at hstep
      split_ifs at hstep <;> cases hstep <;> cases hp
      · exact hagain
      · exact hdown s
  | downsample s =>
      obtain ⟨-, hstore, hagain⟩ := hzero h
      rw [Driver.passStep] at hstep
      dsimp only at hstep
      split_ifs at hstep <;> cases hstep <;> cases hp
      · exact hagain
      · exact hstore s
      · exact hstore s
  | store s =>
      cases hstep
      cases hp
      exact (hzero h).2.2
  | finish =>
      cases hstep
      cases hp
  | level | seq | val => cases hstep

/-- The reads account for the counter of the pass. -/
def Inv (l : ReadLog) : Prop := ∀ p, l.dev.drv.pass = some p → Counts l.reads p

/-- Every event keeps the invariant. -/
theorem Inv.next {l l' : ReadLog} {e : AcqEvent} (h : l.Inv) (hok : l.Spared e)
    (hn : l.next e = some l') : l'.Inv := by
  obtain ⟨dev, hdev, rfl⟩ := Option.map_eq_some_iff.mp hn
  intro p hp
  dsimp only at hp ⊢
  cases AcqDev.passEvent_of_next hdev with
  | begins after =>
      obtain rfl := Option.some.inj (after.symm.trans hp)
      exact lastFailed_zero _
  | replies before reply after =>
      obtain rfl := Option.some.inj (after.symm.trans hp)
      simp only [Spared, before] at hok
      simp only [record, before]
      refine (h _ before).reply reply fun e he => ?_
      subst he
      exact hok
  | steps before step => exact (h _ before).passStep step hp
  | rests hirq hreply same =>
      have hrecord : l.record e = l.reads := by
        cases e <;> first | rfl | exact absurd rfl (hirq _) | exact absurd rfl (hreply _)
      rw [hrecord]
      exact h p (same ▸ hp)

/-- **A pass ends at level 0 or on a dead link.**  In every run in which a read of a sample fails
only as the first failure since the pass last read a whole sample, the loop of a pass ends only
when the MCU reported level 0, or when the last `DRAIN_MAX_ERRORS` reads have all failed. -/
theorem pass_ends {l : ReadLog} (h : machine.Reach Spared l) : l.EndsRightly := by
  have hinv : l.Inv := by
    refine h.invariant ?_ ?_
    · rintro _ ⟨params, rfl⟩ p hp
      cases hp
    · intro l e l' hl hok hn
      exact hl.next hok hn
  unfold EndsRightly
  split
  · next hp => exact hinv _ hp
  · trivial

/-- A sample whose value cannot be read, and then two levels that cannot be read: the pass gives
up after three failures in a row. -/
theorem pass_ends_dead_link :
    ∃ l, (machine.Reach Spared l ∧ l.dev.drv.pass = some ⟨.finish, 3, 0⟩) ∧ l.EndsRightly := by
  have hrun : ∃ l, machine.Reach Spared l ∧ l.dev.drv.pass = some ⟨.finish, 3, 0⟩ :=
    Machine.exists_reach_of_exec
      [.irq 0, .reply (.ok 2), .reply (.ok 7), .reply (.error .eio), .reply (.error .eio),
        .reply (.error .eio)] ⟨Params.default, rfl⟩ (by decide +kernel)
  obtain ⟨l, hreach, hpass⟩ := hrun
  exact ⟨l, ⟨hreach, hpass⟩, pass_ends hreach⟩

/-- Three failed reads of `REG_DATA_SEQ`, each after a read that reported 5 waiting samples, end
the pass. -/
theorem gives_up_on_isolated_failures :
    ∃ l, machine.Reach Machine.Always l ∧ ¬l.EndsRightly ∧
      l.reads = [⟨.seq, .error .eio⟩, ⟨.level, .ok 5⟩, ⟨.seq, .error .eio⟩, ⟨.level, .ok 5⟩,
        ⟨.seq, .error .eio⟩, ⟨.level, .ok 5⟩] :=
  Machine.exists_reach_of_exec
    [.irq 0, .reply (.ok 5), .reply (.error .eio), .reply (.ok 5), .reply (.error .eio),
      .reply (.ok 5), .reply (.error .eio)] ⟨Params.default, rfl⟩ (by decide +kernel)

end ReadLog
