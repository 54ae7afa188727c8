/-
# Wake-ups and loss in the driver

`data_wq` is documented as woken whenever the IRQ thread adds samples.  The code
wakes it once, after the drain loop, so a pass that finds the kfifo empty and
drains more samples than it holds discards the rest while its readers sleep
(`silent_loss_in_long_pass`).

`WakeLog` adds to the device what has to be remembered to say so: whether a
wake-up has been issued since the kfifo last became non-empty, whether the kfifo
has been empty at some moment of the current pass, and whether the pass has
stored anything.  `no_silent_loss` proves that two situations are the only ones in
which a sample is lost behind a sleeping reader's back:

* the pass stores into a full kfifo that was empty earlier in the same pass;
* a pass ends with its 32-bit `drained` count wrapped around to 0, and wakes nobody.
-/
import DevicePlatform.DrainPass

/-! ## What a step does to the kfifo and to the pass -/

namespace Driver

/-- After a sample was stored or refused the kfifo is not empty. -/
theorem kfifoPut_ne_nil (s : Sample) (d : Driver) : (d.kfifoPut s).samples ≠ [] := by
  unfold kfifoPut
  split_ifs with h
  · intro hnil
    have hlen : d.samples.length = sampleKfifoSize := by simpa [kfifoIsFull] using h
    rw [show d.samples = [] from hnil] at hlen
    cases hlen
  · simp

/-- The section under `fifo_lock` leaves a non-empty kfifo. -/
theorem store_ne_nil (s : Sample) (d : Driver) : (d.store s).samples ≠ [] := by
  unfold store
  split_ifs
  · exact kfifoPut_ne_nil s _
  · exact kfifoPut_ne_nil s _

/-- **What a step of the pass can do**: store and go on, end the pass, or move on
with the kfifo as it is. -/
theorem passStep_cases {p : Pass} {d d' : Driver} (h : d.passStep p = some d') :
    (∃ s, p.pc = .store s ∧ d' = { d.store s with pass := some p.again }) ∨
    (p.pc = .finish ∧ d' = { d with pass := none }) ∨
    ((∀ s, p.pc ≠ .store s) ∧ p.pc ≠ .finish ∧ d'.samples = d.samples ∧ d'.pass.isSome) := by
  obtain ⟨pc, errors, drained⟩ := p
  cases pc <;> simp only [passStep, Option.some.injEq, reduceCtorEq] at h
  case inject s =>
    refine Or.inr (Or.inr ?_)
    split_ifs at h <;> cases h <;> simp
  case downsample s =>
    refine Or.inr (Or.inr ?_)
    split_ifs at h <;> cases h <;> simp
  case store s => exact Or.inl ⟨s, rfl, h.symm⟩
  case finish => exact Or.inr (Or.inl ⟨rfl, h.symm⟩)

end Driver

namespace AcqDev

/-- The event begins a pass. -/
def begins : AcqEvent → Bool
  | .irq _ => true
  | _ => false

/-- The event runs the section of the pass that stores a sample. -/
def stores (a : AcqDev) (e : AcqEvent) : Bool :=
  match e, a.drv.pass with
  | .pass, some ⟨.store _, _, _⟩ => true
  | _, _ => false

/-- The event discards a sample for lack of space: the new one, or under the policy
`oldest` a queued one. -/
def discards (a : AcqDev) (e : AcqEvent) : Bool := a.stores e && a.drv.kfifoIsFull

/-- **A discarded sample moves `kfifo_overflow` if and only if the policy is not `oldest`.** -/
theorem overflow_of_discards {a a' : AcqDev} {e : AcqEvent} (hn : a.next e = some a')
    (h : a.discards e = true) :
    a'.drv.kfifoOverflow = a.drv.kfifoOverflow + 1 ↔ a.drv.params.getDropPolicy ≠ .oldest := by
  obtain ⟨hstores, hfull⟩ := Bool.and_eq_true_iff.mp h
  have hdrv := drives_of_next hn
  unfold stores at hstores
  split at hstores
  · next s errors drained hp =>
    obtain ⟨p, hp', hstep⟩ := hdrv
    cases hp.symm.trans hp'
    rw [← Option.some.inj hstep]
    by_cases hpolicy : a.drv.params.getDropPolicy = .oldest
    · rw [Driver.store_of_evicted s hfull hpolicy]
      refine iff_of_false ?_ (fun hne => hne hpolicy)
      show ¬a.drv.kfifoOverflow = a.drv.kfifoOverflow + 1
      bv_omega
    · rw [Driver.store_of_refused s hfull hpolicy]
      exact iff_of_true rfl hpolicy
  · cases hstores

/-- No other event moves it. -/
theorem overflow_of_kept {a a' : AcqDev} {e : AcqEvent} (hn : a.next e = some a')
    (h : a.discards e = false) : a'.drv.kfifoOverflow = a.drv.kfifoOverflow := by
  have hdrv := drives_of_next hn
  cases e with
  | pass =>
      obtain ⟨p, hp, hstep⟩ := hdrv
      obtain ⟨pc, errors, drained⟩ := p
      cases pc <;> simp only [Driver.passStep, reduceCtorEq] at hstep
      case store s =>
        have hroom : a.drv.kfifoIsFull = false := by simpa [discards, stores, hp] using h
        rw [← Option.some.inj hstep, Driver.store_of_room s hroom]
      case finish => rw [← Option.some.inj hstep]
      all_goals
        split_ifs at hstep
        all_goals rw [← Option.some.inj hstep]
  | irq ts =>
      obtain ⟨-, hafter⟩ := hdrv
      rw [hafter]
  | reply r =>
      obtain ⟨_, _, -, -, hafter⟩ := hdrv
      rw [hafter]
  | setParams | openDev | read | poll | reader | signal => rw [show a'.drv = _ from hdrv]

/-- The event issues the wake-up. -/
def wakeUp (a : AcqDev) (e : AcqEvent) : Bool :=
  match e, a.drv.pass with
  | .pass, some p => wakes p
  | _, _ => false

/-- **What an event can do to the kfifo and to the pass**: begin a pass, take a step
of it, or leave the pass in place and only take samples from the kfifo. -/
theorem next_cases {a a' : AcqDev} {e : AcqEvent} (h : a.next e = some a') :
    (∃ ts, e = .irq ts ∧ a.drv.pass = none ∧ a'.drv.samples = a.drv.samples ∧
      a'.drv.pass.isSome) ∨
    (∃ p, e = .pass ∧ a.drv.pass = some p ∧ a.drv.passStep p = some a'.drv) ∨
    ((∀ ts, e ≠ .irq ts) ∧ e ≠ .pass ∧ a'.drv.pass.isSome = a.drv.pass.isSome ∧
      ∃ n, a'.drv.samples = a.drv.samples.drop n) := by
  have hdrv := drives_of_next h
  cases e with
  | irq ts =>
      obtain ⟨hnone, hafter⟩ := hdrv
      rw [hafter]
      exact Or.inl ⟨ts, rfl, hnone, rfl, rfl⟩
  | pass =>
      obtain ⟨p, hp, hstep⟩ := hdrv
      exact Or.inr (Or.inl ⟨p, rfl, hp, hstep⟩)
  | reply r =>
      obtain ⟨p, p', hp, -, hafter⟩ := hdrv
      rw [hafter, hp]
      exact Or.inr (Or.inr ⟨by simp, by simp, rfl, 0, rfl⟩)
  | reader i =>
      rw [show a'.drv = _ from hdrv]
      exact Or.inr (Or.inr ⟨by simp, by simp, rfl, a.taken i, rfl⟩)
  | setParams | openDev | read | poll | signal =>
      rw [show a'.drv = _ from hdrv]
      exact Or.inr (Or.inr ⟨by simp, by simp, rfl, 0, rfl⟩)

end AcqDev

/-! ## The device with its history -/

/-- The device and what has to be remembered about its run. -/
structure WakeLog where
  dev : AcqDev
  /-- A wake-up has been issued since the kfifo last became non-empty. -/
  wokenSince : Bool
  /-- The kfifo has been empty at some moment of the current pass. -/
  emptied : Bool
  /-- The current pass has reached the section that stores a sample. -/
  stored : Bool
  /-- A sample was discarded while a reader slept and no wake-up had been issued since
  the kfifo last became non-empty. -/
  silentLoss : Bool

namespace WakeLog

/-- One event, and its record. -/
def next (w : WakeLog) (e : AcqEvent) : Option WakeLog :=
  (w.dev.next e).map fun dev =>
    { dev := dev
      wokenSince :=
        if w.dev.drv.samples = [] ∧ dev.drv.samples ≠ [] then false
        else w.wokenSince || w.dev.wakeUp e
      emptied := (!AcqDev.begins e && w.emptied) || dev.drv.samples.isEmpty
      stored := !AcqDev.begins e && (w.stored || w.dev.stores e)
      silentLoss :=
        w.silentLoss || (w.dev.discards e && w.dev.someoneAsleep && !w.wokenSince) }

/-- The device from probe, with any parameters. -/
def machine : Machine WakeLog AcqEvent where
  init w := ∃ params, w = ⟨AcqDev.probe params, true, true, false, false⟩
  next := next

/-- The pass is about to lose a sample behind a sleeping reader's back, or to end
without the wake-up it owes. -/
def overruns (w : WakeLog) : Bool :=
  match w.dev.drv.pass with
  | some ⟨.store _, _, _⟩ => w.dev.drv.kfifoIsFull && w.dev.someoneAsleep && w.emptied
  | some ⟨.finish, _, drained⟩ => w.stored && drained == 0
  | _ => false

/-- The condition on a step: the pass takes no step from an overrun. -/
def Prompt (w : WakeLog) (e : AcqEvent) : Prop := e = .pass → w.overruns = false

instance : ∀ (w : WakeLog) (e : AcqEvent), Decidable (w.Prompt e) :=
  fun w e => inferInstanceAs (Decidable (e = .pass → w.overruns = false))

/-- The invariant: a kfifo that was not empty in the current pass has been announced
by a wake-up, one that was empty and is not any more was filled by this pass, and no
sample was lost silently. -/
structure Inv (w : WakeLog) : Prop where
  empty : w.dev.drv.samples = [] → w.emptied = true
  woken : w.dev.drv.samples ≠ [] → (w.dev.drv.pass.isSome → w.emptied = false) →
    w.wokenSince = true
  filled : w.dev.drv.samples ≠ [] → w.dev.drv.pass.isSome → w.emptied = true →
    w.stored = true
  noLoss : w.silentLoss = false

/-- A step that stores nothing keeps the invariant, if what it leaves in the kfifo was
there before and has been announced or will be. -/
theorem Inv.keep {w w' : WakeLog} {e : AcqEvent} (h : w.Inv)
    (hne : w'.dev.drv.samples ≠ [] → w.dev.drv.samples ≠ [])
    (hstores : w.dev.stores e = false)
    (hsome : w'.dev.drv.pass.isSome → AcqDev.begins e = false → w.dev.drv.pass.isSome)
    (hend : w.dev.drv.pass.isSome → w'.dev.drv.pass = none → w.stored = true →
      w.dev.wakeUp e = true)
    (hbegin : AcqDev.begins e = true → w.dev.drv.pass = none)
    (hn : w.next e = some w') : w'.Inv := by
  obtain ⟨dev, -, rfl⟩ := Option.map_eq_some_iff.mp hn
  dsimp only at hne hsome hend
  refine ⟨?_, ?_, ?_, ?_⟩
  · intro hnil
    simp [show dev.drv.samples = [] from hnil]
  · intro hne' hem
    have hcond : ¬ (w.dev.drv.samples = [] ∧ dev.drv.samples ≠ []) := fun hc => hne hne' hc.1
    rw [if_neg hcond, Bool.or_eq_true]
    by_cases hw : w.dev.drv.pass.isSome → w.emptied = false
    · exact Or.inl (h.woken (hne hne') hw)
    · -- the pass that emptied the kfifo has also filled it, and now ends
      push Not at hw
      obtain ⟨hs, hemp⟩ := hw
      have hemp' : w.emptied = true := by simpa using hemp
      have hb : AcqDev.begins e = false := by
        by_contra hb
        simp [hbegin (by simpa using hb)] at hs
      have hnone : dev.drv.pass = none := by
        by_contra hcon
        have := hem (Option.isSome_iff_ne_none.mpr hcon)
        simp [hb, hemp'] at this
      exact Or.inr (hend hs hnone (h.filled (hne hne') hs hemp'))
  · intro hne' hs hem
    dsimp only at hem ⊢
    have hnil : dev.drv.samples.isEmpty = false := by simpa using hne'
    rw [hnil, Bool.or_false, Bool.and_eq_true] at hem
    obtain ⟨hb, hemp⟩ := hem
    rw [hb, Bool.true_and, h.filled (hne hne') (hsome hs (by simpa using hb)) hemp,
      Bool.true_or]
  · simp [h.noLoss, AcqDev.discards, hstores]

/-- Storing a sample keeps the invariant, unless it is an overrun. -/
theorem Inv.store {w w' : WakeLog} {s : Sample} {p : Pass} (h : w.Inv)
    (hok : w.overruns = false) (hp : w.dev.drv.pass = some p) (hpc : p.pc = .store s)
    (hd : w'.dev.drv = { w.dev.drv.store s with pass := some p.again })
    (hn : w.next .pass = some w') : w'.Inv := by
  obtain ⟨pc, errors, drained⟩ := p
  dsimp only at hpc
  subst hpc
  obtain ⟨dev, -, rfl⟩ := Option.map_eq_some_iff.mp hn
  dsimp only at hd
  have hne : dev.drv.samples ≠ [] := by
    rw [hd]
    exact Driver.store_ne_nil s _
  have hold : w.emptied = false → w.dev.drv.samples ≠ [] := by
    intro hemp hnil
    rw [h.empty hnil] at hemp
    cases hemp
  refine ⟨fun hnil => absurd hnil hne, ?_, ?_, ?_⟩
  · intro _ hem
    have hemp : w.emptied = false := by
      have := hem (by rw [hd]; rfl)
      simpa [AcqDev.begins, hne] using this
    rw [if_neg (fun hc => hold hemp hc.1), h.woken (hold hemp) (fun _ => hemp), Bool.true_or]
  · intro _ _ _
    simp [AcqDev.begins, AcqDev.stores, hp]
  · rw [h.noLoss, Bool.false_or]
    by_contra hloss
    simp only [AcqDev.discards, AcqDev.stores, hp, Bool.true_and, Bool.not_eq_false,
      Bool.and_eq_true, Bool.not_eq_true'] at hloss
    obtain ⟨⟨hfull, hasleep⟩, hwoken⟩ := hloss
    have hemp : w.emptied = false := by
      simpa [overruns, hp, hfull, hasleep] using hok
    rw [h.woken (hold hemp) (fun _ => hemp)] at hwoken
    cases hwoken

/-- **Step lemma.**  Every step that meets the condition keeps the invariant. -/
theorem Inv.next {w w' : WakeLog} {e : AcqEvent} (h : w.Inv) (hok : w.Prompt e)
    (hn : w.next e = some w') : w'.Inv := by
  have hn' : w.dev.next e = some w'.dev := by
    obtain ⟨dev, hdev, rfl⟩ := Option.map_eq_some_iff.mp hn
    exact hdev
  rcases AcqDev.next_cases hn' with ⟨ts, rfl, hnone, hsame, -⟩ | ⟨p, rfl, hp, hstep⟩ |
    ⟨hirq, hpass, hsome, n, hdrop⟩
  · -- a pass begins
    refine h.keep (fun hne => hsame ▸ hne) rfl (fun _ hb => by cases hb) ?_ (fun _ => hnone) hn
    intro hs
    simp [hnone] at hs
  · have hok' := hok rfl
    rcases Driver.passStep_cases hstep with ⟨s, hpc, hd⟩ | ⟨hpc, hd⟩ | ⟨hns, hnf, hsame, hsome⟩
    · exact h.store hok' hp hpc hd hn
    · -- the pass ends: what it stored is announced now
      obtain ⟨pc, errors, drained⟩ := p
      dsimp only at hpc
      subst hpc
      refine h.keep (by rw [hd]; exact id) (by simp [AcqDev.stores, hp])
        (fun _ _ => by simp [hp]) ?_ (fun hb => by cases hb) hn
      intro _ _ hstored
      simpa [overruns, hp, hstored, AcqDev.wakeUp, AcqDev.wakes] using hok'
    · -- the pass moves on
      obtain ⟨pc, errors, drained⟩ := p
      refine h.keep (fun hne => hsame ▸ hne) ?_ (fun _ _ => by simp [hp]) ?_
        (fun hb => by cases hb) hn
      · cases pc <;> simp_all [AcqDev.stores]
      · intro _ hnone
        simp [hnone] at hsome
  · -- the pass stays where it is
    refine h.keep ?_ ?_ (fun hs _ => hsome ▸ hs) ?_ ?_ hn
    · intro hne hnil
      rw [hdrop, hnil, List.drop_nil] at hne
      exact hne rfl
    · cases e <;> first | rfl | exact absurd rfl hpass
    · intro hs hnone
      rw [← hsome, hnone] at hs
      cases hs
    · intro hb
      cases e <;> first | exact absurd rfl (hirq _) | cases hb

/-- **No silent loss.**  In every run without overruns, no sample is discarded for
lack of kfifo space while a reader is asleep on `data_wq` and no wake-up has been
issued since the kfifo last became non-empty. -/
theorem no_silent_loss {w : WakeLog} (h : machine.Reach Prompt w) : w.silentLoss = false := by
  have hinv : w.Inv := by
    refine h.invariant ?_ ?_
    · rintro _ ⟨params, rfl⟩
      exact ⟨fun _ => rfl, fun hne => absurd rfl hne, fun hne => absurd rfl hne, rfl⟩
    · intro w e w' hw hok hn
      exact hw.next hok hn
  exact hinv.noLoss

/-- In every run, a kfifo that was empty in the current pass and is not any more has
not been announced. -/
def Unannounced (w : WakeLog) : Prop :=
  w.dev.drv.pass.isSome → w.emptied = true → w.dev.drv.samples ≠ [] → w.wokenSince = false

/-- Every event keeps a filling kfifo unannounced until its pass ends. -/
theorem Unannounced.next {w w' : WakeLog} {e : AcqEvent} (h : w.Unannounced)
    (hn : w.next e = some w') : w'.Unannounced := by
  obtain ⟨dev, hdev, rfl⟩ := Option.map_eq_some_iff.mp hn
  intro hs hem hne
  dsimp only at hs hem hne ⊢
  have hnil : dev.drv.samples.isEmpty = false := by simpa using hne
  rw [hnil, Bool.or_false, Bool.and_eq_true] at hem
  obtain ⟨hb, hemp⟩ := hem
  split_ifs with hfill
  · rfl
  · have hold : w.dev.drv.samples ≠ [] := fun hc => hfill ⟨hc, hne⟩
    -- only the end of a pass announces anything, and then no pass is running
    have hquiet : w.dev.drv.pass.isSome ∧ w.dev.wakeUp e = false := by
      rcases AcqDev.next_cases hdev with ⟨ts, rfl, -⟩ | ⟨p, rfl, hp, hstep⟩ |
        ⟨-, hpass, hsome, -⟩
      · cases hb
      · refine ⟨by simp [hp], ?_⟩
        simp only [AcqDev.wakeUp, hp, AcqDev.wakes]
        rcases Driver.passStep_cases hstep with ⟨s, hpc, -⟩ | ⟨-, hd⟩ | ⟨-, hnf, -⟩
        · simp [hpc]
        · rw [hd] at hs
          cases hs
        · simp [hnf]
      · refine ⟨hsome ▸ hs, ?_⟩
        cases e <;> first | rfl | exact absurd rfl hpass
    rw [h hquiet.1 hemp hold, hquiet.2]
    rfl

/-- **The condition is exact**: storing into a full kfifo that was empty earlier in the
pass, while a reader sleeps, is a silent loss. -/
theorem silentLoss_of_overrun {w w' : WakeLog} {s : Sample} {errors : ℕ} {drained : BitVec 32}
    (h : machine.Reach Machine.Always w) (hp : w.dev.drv.pass = some ⟨.store s, errors, drained⟩)
    (hover : w.overruns = true) (hn : w.next .pass = some w') : w'.silentLoss = true := by
  have hinv : w.Unannounced := by
    refine h.invariant ?_ ?_
    · rintro _ ⟨params, rfl⟩ hs
      cases hs
    · intro w e w' hw _ hn
      exact hw.next hn
  obtain ⟨dev, -, rfl⟩ := Option.map_eq_some_iff.mp hn
  simp only [overruns, hp, Bool.and_eq_true] at hover
  obtain ⟨⟨hfull, hasleep⟩, hemp⟩ := hover
  have hne : w.dev.drv.samples ≠ [] := by
    intro hnil
    simp [Driver.kfifoIsFull, hnil, sampleKfifoSize] at hfull
  have hwoken := hinv (by simp [hp]) hemp hne
  simp [AcqDev.discards, AcqDev.stores, hp, hfull, hasleep, hwoken]

/-- The events of one iteration of the loop that stores the sample `(k, k)`. -/
def iteration (k : ℕ) : List AcqEvent :=
  [.reply (.ok 1), .reply (.ok (BitVec.ofNat 32 k)), .reply (.ok (BitVec.ofNat 32 k)),
    .pass, .pass, .pass]

/-- The events of a reader that goes to sleep and of a pass that then stores `n`
samples. -/
def sleepThenPass (n : ℕ) : List AcqEvent :=
  [.openDev, .read 0 false sampleBytes, .reader 0, .reader 0, .reader 0, .irq 0] ++
    (List.range n).flatMap iteration

/-- The device after `probe`, before anything has happened. -/
def start : WakeLog := ⟨AcqDev.probe Params.default, true, true, false, false⟩

/-- A reader sleeps through a pass of one sample, is woken and reads it. -/
theorem no_silent_loss_short_pass :
    ∃ w : WakeLog, w.dev.readers = [.readDone (.ok [⟨0, 0, 0⟩])] ∧ w.silentLoss = false := by
  have h : machine.exec Prompt start
      (sleepThenPass 1 ++ [.reply (.ok 0), .pass, .reader 0, .reader 0]) = some _ := rfl
  exact ⟨_, rfl, no_silent_loss (Machine.reach_of_exec ⟨_, rfl⟩ h)⟩

/-- **A long pass loses samples behind a sleeping reader.**  The reader sleeps on an
empty kfifo; the pass drains 129 samples; the last one is refused, and the reader has
not been woken once. -/
theorem silent_loss_in_long_pass :
    ¬ ∀ w : WakeLog, machine.Reach Machine.Always w → w.silentLoss = false := by
  intro hall
  have h : (machine.exec Machine.Always start (sleepThenPass 129)).map silentLoss = some true := by
    decide +kernel
  obtain ⟨w, hw, hloss⟩ := Option.map_eq_some_iff.mp h
  rw [hall w (Machine.reach_of_exec ⟨_, rfl⟩ hw)] at hloss
  cases hloss

end WakeLog
