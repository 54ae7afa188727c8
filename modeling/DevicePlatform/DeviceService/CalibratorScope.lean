/-
# The calibrator is attached for a calibration only

`run_calibration` sets the pointer `calibrator_` of the acquisition thread, starts the acquisition,
waits, and clears the pointer.  If `start_acquisition` throws, the exception leaves the function
before the pointer is cleared.  The supervisor goes to `Fault`, and after a `Reset` to `Running`,
where every sample is fed to the calibrator (`calibrator_left_attached`).

`calibrator_scoped` proves that this is the only way: in every run in which no `start_acquisition`
of a calibration throws, the pointer is null in every state but `Calibrating`, whatever else
fails.  The acquisition thread may still have a sample in hand that it read before the pointer was
set; in the runs without this race every sample fed was read during a calibration.
-/
import DevicePlatform.DeviceService.Agreement

namespace DeviceService

open Prog Supervisor

/-! ## The protocol -/

/-- The pointer is null. -/
def Detached (s : Service) : Prop := s.worker.calibrator = false

/-- A calibration is in progress. -/
def InCalibration (s : Service) : Prop := s.state = .calibrating

/-- The pointer is not null in `Calibrating` only. -/
def Scope (s : Service) : Prop := s.state ≠ .calibrating → Detached s

/-- What the supervisor leaves to the acquisition thread: it feeds nothing, and it takes a sample
from the thread only when it starts the thread again. -/
structure Leaves (s t : Service) : Prop where
  acquiredIn : t.worker.acquiredIn = s.worker.acquiredIn
  pc : t.worker.pc = s.worker.pc ∨ t.worker.pc = .waiting
  fed : t.fed = s.fed

/-- The protocol of the supervisor in runs in which every calibration starts. -/
def attaching : Protocol Service where
  inv := Scope
  rely s t := t.state = s.state ∧ t.worker.calibrator = s.worker.calibrator
  guar := Leaves
  assumed s := s.failedStarts = 0
  total := False
  rely_refl _ := ⟨rfl, rfl⟩
  rely_trans h₁ h₂ := ⟨h₂.1.trans h₁.1, h₂.2.trans h₁.2⟩
  guar_refl _ := ⟨rfl, .inl rfl, rfl⟩

section Procedures

variable {s t : Service} {α : Type} {p : Prog Service α}

theorem Works.leaves (h : Works s t) : Leaves s t := ⟨h.acquiredIn, h.pc, h.fed⟩

theorem Detached.rely (h : Detached s) (hr : attaching.rely s t) : Detached t := hr.2.trans h

/-- A procedure that leaves the pointer null. -/
theorem detached_of_works (h : p.Within Works) (hs : Detached s) :
    p.wp attaching (fun _ => Detached) s := by
  refine wp_of_within Detached id h ?_ (fun t u ht hr _ => ht.rely hr) hs
  intro s t hs _ hw
  have ht : Detached t := hw.calibrator.trans hs
  exact ⟨ht, fun _ => ht, hw.leaves⟩

/-- A procedure that runs in `Calibrating`. -/
theorem inCalibration_of_works (h : p.Within Works) (hs : InCalibration s) :
    p.wp attaching (fun _ => InCalibration) s := by
  refine wp_of_within InCalibration id h ?_ (fun t u ht hr _ => hr.1.trans ht) hs
  intro s t hs _ hw
  have ht : InCalibration t := hw.state.trans hs
  exact ⟨ht, fun hne => absurd ht hne, hw.leaves⟩

/-- **A calibration that starts** clears the pointer. -/
theorem runCalibration_detached (hs : InCalibration s) (hd : Detached s) :
    runCalibration.wp attaching (fun _ => Detached) s := by
  refine wp_choose fun n => ?_
  split
  · exact hd
  refine wp_write fun t₁ hr₁ _ _ => ?_
  have h₁ : InCalibration t₁ := hr₁.1.trans hs
  refine ⟨fun hne => absurd h₁ hne, ⟨rfl, .inl rfl, rfl⟩, wp_choose fun n => ?_⟩
  refine wp_update fun t₂ hr₂ _ hstarted => ?_
  have h₂ : InCalibration t₂ := hr₂.1.trans h₁
  by_cases hn : n = 0
  · simp only [if_pos hn]
    refine ⟨fun hne => absurd h₂ hne, ⟨rfl, .inl rfl, rfl⟩, wp_read fun t₃ hr₃ _ => ?_⟩
    have h₃ : InCalibration t₃ := hr₃.1.trans h₂
    refine wp_seq (inCalibration_of_works (awaitCalibration_works _ _) h₃) ?_
    intro interrupted t₄ h₄
    refine wp_write fun t₅ hr₅ _ _ => ⟨fun _ => rfl, ⟨rfl, .inl rfl, rfl⟩, ?_⟩
    refine wp_seq (detached_of_works (writeControl_works _) rfl) ?_
    intro stopped t₆ h₆
    split
    · refine wp_read fun t₇ hr₇ _ => ?_
      have h₇ := h₆.rely hr₇
      split
      · exact h₇
      · split <;> exact h₇
    · exact h₆
  · -- the assumption excludes the exception
    simp only [if_neg hn] at hstarted
    exact absurd hstarted (Nat.succ_ne_zero _)

/-- **Applying an event** begins and ends with the pointer null. -/
theorem apply_detached (e : Event) (hs : Detached s) :
    (apply e).wp attaching (fun _ => Detached) s := by
  refine wp_last (wp_loop (fun _ => Detached) id (fun _ t u ht hr _ => ht.rely hr) hs ?_)
  intro e t ht
  refine wp_read fun t₁ hr₁ _ => ?_
  have h₁ := ht.rely hr₁
  cases transition t₁.state e with
  | none => exact h₁
  | some target =>
      refine wp_seq (detached_of_works (prepare_works _ _) h₁) ?_
      intro prepared t₂ h₂
      split
      · refine wp_write fun t₃ hr₃ _ _ => ?_
        have h₃ : Detached t₃ := h₂.rely hr₃
        refine ⟨fun _ => h₃, ⟨rfl, .inl rfl, rfl⟩, wp_seq (R := fun _ => Detached) ?_ ?_⟩
        · cases target with
          | calibrating => exact runCalibration_detached rfl h₃
          | recovering => exact detached_of_works runRecovery_works h₃
          | fault =>
              exact wp_seq (detached_of_works enterFault_works h₃) fun _ _ h => h
          | init | ready | running | paused | stopped => exact h₃
        · intro next t₄ h₄
          cases next <;> exact h₄
      · exact h₂

end Procedures

/-! ## Runs -/

/-- The step is not a `start_acquisition` of a calibration that throws. -/
def Started (x : Running) (e : Happening) : Prop :=
  ∀ y ∈ x.next e, y.svc.failedStarts = x.svc.failedStarts

/-- The thread has read a sample and not looked at `calibrator_` yet. -/
def WorkerPc.busy : WorkerPc → Bool
  | .holding _ | .counted => true
  | .waiting | .observing _ | .gone => false

/-- The pointer is not set while the acquisition thread has a sample in hand. -/
def Settled (x : Running) (e : Happening) : Prop :=
  ∀ y ∈ x.next e, x.svc.worker.pc.busy = true → y.svc.worker.calibrator = true →
    x.svc.worker.calibrator = true

instance (x : Running) (e : Happening) : Decidable (Started x e) := by
  unfold Started
  infer_instance

instance (x : Running) (e : Happening) : Decidable (Settled x e) := by
  unfold Settled
  infer_instance

/-- The pointer is null outside `Calibrating`, and was not null for the samples that were fed only
there. -/
structure Scoped (x : Running) : Prop where
  scope : Scope x.svc
  thread : x.thread.wp attaching (fun _ => Detached) x.svc
  started : x.svc.failedStarts = 0
  observing : ∀ l, x.svc.worker.pc = .observing l → l = .calibrating
  fed : ∀ f ∈ x.svc.fed, f.loaded = .calibrating

/-- The samples that the calibrator gets were read in `Calibrating`. -/
structure ReadInScope (s : Service) : Prop where
  busy : s.worker.calibrator = true → s.worker.pc.busy = true → s.worker.acquiredIn = .calibrating
  observing : ∀ l, s.worker.pc = .observing l → s.worker.acquiredIn = .calibrating
  fed : ∀ f ∈ s.fed, f.acquired = .calibrating

section Steps

variable {x y : Running} {e : Happening} {s t : Service}

/-- The other threads touch neither the state nor the pointer. -/
theorem plant_rely (h : Running.plant s e = some t) :
    attaching.rely s t ∧ t.failedStarts = s.failedStarts := by
  unfold Running.plant at h
  cases e with
  | supervisor | dequeue | idle => cases h
  | post | tick | lose =>
      cases h
      exact ⟨⟨rfl, rfl⟩, rfl⟩
  | sample | fetch | store | workerRead | workerCount | workerLoad | workerObserve | workerDie =>
      dsimp only at h
      split at h <;> cases h
      exact ⟨⟨rfl, rfl⟩, rfl⟩

/-- What the acquisition thread feeds, if the pointer is null outside `Calibrating`. -/
theorem plant_fed (hscope : Scope s)
    (hobserving : ∀ l, s.worker.pc = .observing l → l = .calibrating)
    (hfed : ∀ f ∈ s.fed, f.loaded = .calibrating) (h : Running.plant s e = some t) :
    (∀ l, t.worker.pc = .observing l → l = .calibrating) ∧
      ∀ f ∈ t.fed, f.loaded = .calibrating := by
  unfold Running.plant at h
  cases e with
  | supervisor | dequeue | idle => cases h
  | post | tick | lose =>
      cases h
      exact ⟨hobserving, hfed⟩
  | sample | fetch | store =>
      dsimp only at h
      split at h <;> cases h
      exact ⟨hobserving, hfed⟩
  | workerRead | workerCount | workerDie =>
      dsimp only at h
      split at h <;> cases h
      exact ⟨nofun, hfed⟩
  | workerLoad =>
      dsimp only at h
      split at h <;> cases h
      refine ⟨fun l hl => ?_, hfed⟩
      dsimp only at hl
      split at hl
      · next hattached =>
        cases hl
        by_contra hne
        exact absurd hattached (by rw [hscope hne]; decide)
      · cases hl
  | workerObserve =>
      dsimp only at h
      split at h <;> cases h
      next loaded hpc =>
      refine ⟨nofun, fun f hf => ?_⟩
      rcases List.mem_append.mp hf with hf | hf
      · exact hfed f hf
      · obtain rfl := List.mem_singleton.mp hf
        exact hobserving loaded hpc

/-- What the acquisition thread feeds was read during a calibration. -/
theorem ReadInScope.plant (hread : ReadInScope s) (hscope : Scope s)
    (h : Running.plant s e = some t) : ReadInScope t := by
  unfold Running.plant at h
  cases e with
  | supervisor | dequeue | idle => cases h
  | post | tick | lose =>
      cases h
      exact ⟨hread.busy, hread.observing, hread.fed⟩
  | sample | fetch | store =>
      dsimp only at h
      split at h <;> cases h
      exact ⟨hread.busy, hread.observing, hread.fed⟩
  | workerDie =>
      dsimp only at h
      split at h <;> cases h
      exact ⟨nofun, nofun, hread.fed⟩
  | workerRead =>
      dsimp only at h
      split at h <;> cases h
      refine ⟨fun hattached _ => ?_, nofun, hread.fed⟩
      by_contra hne
      exact absurd hattached (by rw [hscope hne]; decide)
  | workerCount =>
      dsimp only at h
      split at h <;> cases h
      next sample hpc =>
      exact ⟨fun hattached _ => hread.busy hattached (by rw [hpc]; rfl), nofun, hread.fed⟩
  | workerLoad =>
      dsimp only at h
      split at h <;> cases h
      next hpc =>
      refine ⟨fun hattached hbusy => ?_, fun l hl => ?_, hread.fed⟩
      · dsimp only at hattached hbusy
        rw [if_pos hattached] at hbusy
        cases hbusy
      · dsimp only at hl
        split at hl
        · next hattached => exact hread.busy hattached (by rw [hpc]; rfl)
        · cases hl
  | workerObserve =>
      dsimp only at h
      split at h <;> cases h
      next loaded hpc =>
      refine ⟨nofun, nofun, fun f hf => ?_⟩
      rcases List.mem_append.mp hf with hf | hf
      · exact hread.fed f hf
      · obtain rfl := List.mem_singleton.mp hf
        exact hread.observing loaded hpc

/-- `run` begins to apply an event. -/
theorem next_begin (hbegin : e = .dequeue ∨ e = .idle) (h : x.next e = some y) :
    x.thread.returned = true ∧ (∃ event, y.thread = apply event) ∧ y.svc.state = x.svc.state ∧
      y.svc.worker = x.svc.worker ∧ y.svc.fed = x.svc.fed ∧
      y.svc.failedStarts = x.svc.failedStarts := by
  rcases hbegin with rfl | rfl
  · dsimp only [Running.next] at h
    split at h
    · next hret =>
      split at h <;> cases h
      exact ⟨hret.1, ⟨_, rfl⟩, rfl, rfl, rfl, rfl⟩
    · cases h
  · dsimp only [Running.next] at h
    split at h
    · next hret =>
      cases h
      exact ⟨hret.1, ⟨_, rfl⟩, rfl, rfl, rfl, rfl⟩
    · cases h

/-- **One step** keeps the scope of the pointer. -/
theorem Scoped.next (hx : Scoped x) (hok : Started x e) (h : x.next e = some y) :
    Scoped y ∧ (∀ n, e = .supervisor n → Leaves x.svc y.svc) := by
  have hstarted : y.svc.failedStarts = 0 := (hok y h).trans hx.started
  by_cases hsup : ∃ n, e = .supervisor n
  · obtain ⟨n, rfl⟩ := hsup
    obtain ⟨⟨p, s⟩, hs, rfl⟩ := Option.map_eq_some_iff.mp h
    obtain ⟨hscope, hleaves, hthread⟩ := wp_step hx.thread hx.scope hs hstarted
    refine ⟨⟨hscope, hthread, hstarted, fun l hl => ?_, ?_⟩, fun _ _ => hleaves⟩
    · rcases hleaves.pc with hpc | hpc
      · exact hx.observing l (hpc.symm.trans hl)
      · cases hpc.symm.trans hl
    · rw [hleaves.fed]
      exact hx.fed
  · push Not at hsup
    refine ⟨?_, fun n hn => absurd hn (hsup n)⟩
    by_cases hbegin : e = .dequeue ∨ e = .idle
    · obtain ⟨hret, ⟨event, hthread⟩, hstate, hworker, hfed, -⟩ := next_begin hbegin h
      have hdetached : Detached y.svc := by
        rw [Detached, hworker]
        exact wp_returned hx.thread hret
      refine ⟨fun _ => hdetached, ?_, hstarted, ?_, ?_⟩
      · rw [hthread]
        exact apply_detached event hdetached
      · rw [hworker]
        exact hx.observing
      · rw [hfed]
        exact hx.fed
    · push Not at hbegin
      obtain ⟨hplant, hthread⟩ := next_aside ⟨hsup, hbegin.1, hbegin.2⟩ h
      obtain ⟨hrely, -⟩ := plant_rely hplant
      have hscope : Scope y.svc := fun hne => hrely.2.trans (hx.scope (hrely.1 ▸ hne))
      obtain ⟨hobserving, hfed⟩ := plant_fed hx.scope hx.observing hx.fed hplant
      refine ⟨hscope, ?_, hstarted, hobserving, hfed⟩
      rw [hthread]
      exact wp_rely (fun _ _ _ ha hr _ => ha.rely hr) hx.thread hrely hscope

/-- **Every run** does. -/
theorem Scoped.of_reach (h : deviceService.Reach Started x) : Scoped x := by
  apply h.invariant
  · rintro _ ⟨cfg, p, clock, -, rfl⟩
    exact ⟨fun _ => rfl, rfl, rfl, nofun, fun f hf => nomatch hf⟩
  · intro x e y hx hok hn
    exact (hx.next hok hn).1

/-- Without the race, what is fed was read during a calibration. -/
theorem ReadInScope.of_reach (h : deviceService.Reach (fun x e => Started x e ∧ Settled x e) x) :
    ReadInScope x.svc := by
  suffices hboth : Scoped x ∧ ReadInScope x.svc from hboth.2
  apply h.invariant
  · rintro _ ⟨cfg, p, clock, -, rfl⟩
    exact ⟨⟨fun _ => rfl, rfl, rfl, nofun, fun f hf => nomatch hf⟩,
      ⟨nofun, nofun, fun f hf => nomatch hf⟩⟩
  · rintro x e y ⟨hx, hread⟩ ⟨hok, hsettled⟩ hn
    obtain ⟨hy, hleaves⟩ := hx.next hok hn
    refine ⟨hy, ?_⟩
    by_cases hsup : ∃ n, e = .supervisor n
    · obtain ⟨n, rfl⟩ := hsup
      obtain ⟨hacquired, hpc, hfed⟩ := hleaves n rfl
      refine ⟨fun hattached hbusy => ?_, fun l hl => ?_, ?_⟩
      · rcases hpc with hpc | hpc
        · rw [hpc] at hbusy
          rw [hacquired]
          exact hread.busy (hsettled y hn hbusy hattached) hbusy
        · rw [hpc] at hbusy
          cases hbusy
      · rcases hpc with hpc | hpc
        · rw [hacquired]
          exact hread.observing l (hpc.symm.trans hl)
        · cases hpc.symm.trans hl
      · rw [hfed]
        exact hread.fed
    · push Not at hsup
      by_cases hbegin : e = .dequeue ∨ e = .idle
      · obtain ⟨-, -, -, hworker, hfed, -⟩ := next_begin hbegin hn
        exact ⟨by rw [hworker]; exact hread.busy, by rw [hworker]; exact hread.observing,
          by rw [hfed]; exact hread.fed⟩
      · push Not at hbegin
        exact hread.plant hx.scope (next_aside ⟨hsup, hbegin.1, hbegin.2⟩ hn).1

end Steps

/-- **The calibrator is attached for a calibration only.**  In every run in which no
`start_acquisition` of a calibration throws, the pointer is null in every state but `Calibrating`,
and every sample fed to the calibrator was fed because the pointer was set in `Calibrating`.  If
also the pointer is never set while the acquisition thread has a sample in hand, every sample fed
was read in `Calibrating`, and none in `Running`. -/
theorem calibrator_scoped {x : Running} (h : deviceService.Reach Started x) :
    (x.svc.state ≠ .calibrating → x.svc.worker.calibrator = false) ∧
    (∀ f ∈ x.svc.fed, f.loaded = .calibrating) ∧
    (deviceService.Reach (fun x e => Started x e ∧ Settled x e) x →
      ∀ f ∈ x.svc.fed, f.acquired = .calibrating) := by
  have hx := Scoped.of_reach h
  exact ⟨hx.scope, hx.fed, fun hboth => (ReadInScope.of_reach hboth).fed⟩

/-- A calibration with one sample, from beginning to end. -/
theorem calibrator_scoped_ready : ∃ x, deviceService.Reach Started x ∧
    (x.svc.state = .ready ∧ x.svc.fed ≠ []) ∧ x.svc.worker.calibrator = false ∧
    ∀ f ∈ x.svc.fed, f.acquired = .calibrating := by
  have hrun : ∃ x, deviceService.Reach (fun x e => Started x e ∧ Settled x e) x ∧
      x.svc.state = .ready ∧ x.svc.fed ≠ [] :=
    Machine.exists_reach_of_exec
      (List.flatten [[.post .initOk, .post .calibrate, .dequeue], steps 3, [.dequeue], steps 3,
        [.supervisor 1], steps 3, [.sample, .fetch, .store, .workerRead, .workerCount, .workerLoad,
        .workerObserve], steps 9]) (leftover_init 0) (by decide +kernel)
  obtain ⟨x, hx, hready, hfed⟩ := hrun
  have hstarted := hx.mono fun _ _ hok => hok.1
  have h := calibrator_scoped hstarted
  exact ⟨x, hstarted, ⟨hready, hfed⟩, h.1 (by rw [hready]; decide), h.2.2 hx⟩

/-- `start_acquisition` throws in a calibration.  After a reset the service is in `Running` with
the pointer set, and a sample that is read there is fed to the calibrator. -/
theorem calibrator_left_attached : ∃ x, deviceService.Reach Machine.Always x ∧
    x.thread.returned = true ∧ x.svc.state = .running ∧ x.svc.worker.calibrator = true ∧
    ⟨.running, .running⟩ ∈ x.svc.fed :=
  Machine.exists_reach_of_exec
    (List.flatten [[.post .initOk, .post .calibrate, .post .reset, .dequeue], steps 3, [.dequeue],
      steps 3, List.replicate 3 (.supervisor 1), steps 7, [.dequeue],
      List.replicate 8 (.supervisor 1), steps 7,
      [.sample, .fetch, .store, .workerRead, .workerCount], steps 8,
      [.workerLoad, .workerObserve, .sample, .fetch, .store, .workerRead, .workerCount, .workerLoad,
        .workerObserve]]) (leftover_init 0) (by decide +kernel)

/-- The race: the acquisition thread reads a sample in `Running` and comes to look at the pointer
in the calibration that follows a pause. -/
theorem running_sample_calibrated : ∃ x, deviceService.Reach Started x ∧
    ⟨.running, .calibrating⟩ ∈ x.svc.fed :=
  Machine.exists_reach_of_exec
    (List.flatten [[.post .initOk, .post .start, .post .pause, .post .calibrate, .dequeue], steps 3,
      [.dequeue], steps 5, [.sample, .fetch, .store, .workerRead, .dequeue], steps 5, [.dequeue],
      steps 3, [.supervisor 1], steps 1, [.workerCount, .workerLoad, .workerObserve]])
    (leftover_init 0) (by decide +kernel)

end DeviceService
