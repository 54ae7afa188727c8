/-
# The supervisor and its device agree

Three results about every run of the service.

* `state_agrees`: between two events the state is true of the device.  In `Running` the last
  write to `control` was a 1 that took effect; in `Ready`, `Paused`, `Fault` and `Stopped` the
  last write attempted was a 0.
* `stop_wins`: applying an event ends, whatever the device does; the supervisor never rests in
  `Recovering` or `Calibrating` unless a `Stop` is queued; and a queue with a `Stop` is worked
  off to `Stopped`.
* `recovery_sound`: recovery leads back to `Running` only after the attempt has read the right
  `device_id` and has seen a sample that was taken after its soft reset, if at the soft reset no
  sample from before is left in the kfifo, in the driver's hands or in the acquisition thread's.
-/
import DevicePlatform.DeviceService.Procedures

namespace DeviceService

open Prog Supervisor

/-! ## The queue belongs to the others -/

/-- The same event is being applied, no event of the queue is gone, and no transition is
forgotten. -/
structure Later (s t : Service) : Prop where
  queue : s.queue <+: t.queue
  current : t.current = s.current
  history : s.history <+: t.history

theorem Later.of_same {s t : Service} (hqueue : t.queue = s.queue)
    (hcurrent : t.current = s.current) (hhistory : t.history = s.history) : Later s t :=
  ⟨hqueue ▸ List.prefix_rfl, hcurrent, hhistory ▸ List.prefix_rfl⟩

theorem Later.refl (s : Service) : Later s s := .of_same rfl rfl rfl

theorem Later.trans {s t u : Service} (h₁ : Later s t) (h₂ : Later t u) : Later s u :=
  ⟨h₁.queue.trans h₂.queue, h₂.current.trans h₁.current, h₁.history.trans h₂.history⟩

/-- A step of the supervisor changes the pipeline only by a write to `control`, takes no sample from
the acquisition thread that it does not start again, and sets `started` only together with
`control=1`. -/
structure Acts (s t : Service) : Prop extends Later s t where
  pc : t.worker.pc = s.worker.pc ∨ t.worker.pc = .waiting
  pipeline : t.pipeline = s.pipeline ∨ ∃ v, t.pipeline = s.pipeline.control v
  started : t.attempt.started = s.attempt.started ∨ t.attempt.started = none ∨
    t.attempt.started = some (s.pipeline.starts + 1) ∧ t.pipeline = s.pipeline.control true
  writes : t.writes = s.writes ∨ ∃ w, t.writes = s.writes ++ [w]

/-- What the procedures of the supervisor leave alone, but for the transitions and for the
calibrator. -/
structure Works (s t : Service) : Prop where
  state : t.state = s.state
  queue : t.queue = s.queue
  pending : t.stopPending = s.stopPending
  current : t.current = s.current
  history : t.history = s.history
  calibrator : t.worker.calibrator = s.worker.calibrator
  acquiredIn : t.worker.acquiredIn = s.worker.acquiredIn
  fed : t.fed = s.fed
  pc : t.worker.pc = s.worker.pc ∨ t.worker.pc = .waiting
  pipeline : t.pipeline = s.pipeline ∨ ∃ v, t.pipeline = s.pipeline.control v
  started : t.attempt.started = s.attempt.started ∨ t.attempt.started = none ∨
    t.attempt.started = some (s.pipeline.starts + 1) ∧ t.pipeline = s.pipeline.control true
  writes : t.writes = s.writes ∨ ∃ w, t.writes = s.writes ++ [w]

theorem Works.acts {s t : Service} (h : Works s t) : Acts s t :=
  ⟨.of_same h.queue h.current h.history, h.pc, h.pipeline, h.started, h.writes⟩

/-- A step that does not touch the device. -/
theorem Works.of_same {s t : Service} (hstate : t.state = s.state)
    (hqueue : (t.queue, t.stopPending, t.current) = (s.queue, s.stopPending, s.current))
    (hhistory : t.history = s.history) (hworker : t.worker = s.worker)
    (hfed : t.fed = s.fed) (hstarted : t.attempt.started = s.attempt.started)
    (hdevice : (t.pipeline, t.writes) = (s.pipeline, s.writes)) : Works s t := by
  obtain ⟨hq, hpending, hcurrent⟩ := Prod.mk.inj hqueue |>.imp_right Prod.mk.inj
  obtain ⟨hpipeline, hwrites⟩ := Prod.mk.inj hdevice
  exact ⟨hstate, hq, hpending, hcurrent, hhistory, congrArg _ hworker, congrArg _ hworker, hfed,
    .inl (congrArg _ hworker), .inl hpipeline, .inl hstarted, .inl hwrites⟩

theorem writeControl_works (v : Bool) : (writeControl v).Within Works := by
  refine within_choose fun n => within_last (within_update (fun s => .inr ?_)
    fun _ => trivial)
  split
  · exact ⟨rfl, rfl, rfl, rfl, rfl, rfl, rfl, rfl, .inl rfl, .inr ⟨v, rfl⟩, .inl rfl,
      .inr ⟨_, rfl⟩⟩
  · exact ⟨rfl, rfl, rfl, rfl, rfl, rfl, rfl, rfl, .inl rfl, .inl rfl, .inl rfl, .inr ⟨_, rfl⟩⟩

theorem sleep_works (ms : ℕ) : (sleepUnlessStopping ms).Within Works := by
  refine within_choose fun n => within_last (within_update (fun s => .inr ?_)
    fun _ => trivial)
  split <;> exact .of_same rfl rfl rfl rfl rfl rfl rfl

theorem awaitSamples_works (before deadline now : ℕ) :
    (awaitSamples before deadline now).Within Works := by
  refine within_repeat fun now => ?_
  split
  · refine within_read fun flowing => ?_
    split
    · exact within_write (fun _ => .inr (.of_same rfl rfl rfl rfl rfl rfl rfl)) trivial
    · refine within_read fun failed => ?_
      split
      · trivial
      · refine within_seq (sleep_works _) fun go => ?_
        split
        · exact within_read fun _ => trivial
        · trivial
  · trivial

theorem softReset_works : softReset.Within Works := by
  refine within_update (fun _ => .inr (.of_same rfl rfl rfl rfl rfl rfl rfl))
    fun before => ?_
  refine within_seq (writeControl_works _) fun stopped => ?_
  split
  · refine within_choose fun n => within_update (fun s => .inr ?_) fun started => ?_
    · split
      · exact ⟨rfl, rfl, rfl, rfl, rfl, rfl, rfl, rfl, .inl rfl, .inr ⟨true, rfl⟩,
          .inr (.inr ⟨rfl, rfl⟩), .inr ⟨_, rfl⟩⟩
      · exact ⟨rfl, rfl, rfl, rfl, rfl, rfl, rfl, rfl, .inl rfl, .inl rfl, .inl rfl,
          .inr ⟨_, rfl⟩⟩
    · split
      · exact within_read fun _ => awaitSamples_works _ _ _
      · trivial
  · trivial

theorem tryRecovery_works : tryRecovery.Within Works := by
  refine within_seq (within_choose fun _ => trivial) fun id => ?_
  cases id with
  | none => trivial
  | some id =>
      refine within_update (fun _ => .inr (.of_same rfl rfl rfl rfl rfl rfl rfl))
        fun good => ?_
      split
      · refine within_seq (within_read fun failed => ?_) fun ready => ?_
        · split
          · refine within_choose fun n => ?_
            split
            · -- the thread that is started has no sample in hand
              exact within_write
                (fun _ => .inr ⟨rfl, rfl, rfl, rfl, rfl, rfl, rfl, rfl, .inr rfl, .inl rfl,
                  .inl rfl, .inl rfl⟩) trivial
            · trivial
          · trivial
        · split
          · exact softReset_works
          · trivial
      · trivial

theorem runRecovery_works : runRecovery.Within Works := by
  refine within_repeat fun attempt => within_read fun cfg => ?_
  split
  · refine within_read fun stopping => ?_
    split
    · trivial
    refine within_write (fun _ => .inr ⟨rfl, rfl, rfl, rfl, rfl, rfl, rfl, rfl, .inl rfl,
      .inl rfl, .inr (.inl rfl), .inl rfl⟩) ?_
    refine within_seq tryRecovery_works fun outcome => ?_
    refine within_write (fun _ => .inr (.of_same rfl rfl rfl rfl rfl rfl rfl)) ?_
    cases outcome with
    | recovered => trivial
    | interrupted => trivial
    | failed =>
        dsimp only
        split
        · refine within_seq (sleep_works _) fun go => ?_
          split <;> trivial
        · trivial
  · trivial

theorem awaitCalibration_works (deadline now : ℕ) :
    (awaitCalibration deadline now).Within Works := by
  refine within_repeat fun now => ?_
  split
  · refine within_read fun failed => ?_
    split
    · trivial
    refine within_seq (sleep_works _) fun go => ?_
    split
    · exact within_read fun _ => trivial
    · trivial
  · trivial

theorem prepare_works (target source : State) : (prepare target source).Within Works := by
  cases target with
  | running =>
      unfold prepare
      dsimp only
      split
      · exact writeControl_works _
      · trivial
  | paused => exact writeControl_works _
  | stopped => exact within_seq (writeControl_works _) fun _ => trivial
  | init | ready | calibrating | recovering | fault => trivial

theorem enterFault_works : enterFault.Within Works := by
  refine within_seq (writeControl_works _) fun _ => ?_
  exact within_write (fun _ => .inr (.of_same rfl rfl rfl rfl rfl rfl rfl)) trivial

theorem runCalibration_acts : runCalibration.Within Acts := by
  have hacts : ∀ s t, Works s t → Acts s t := fun _ _ h => h.acts
  refine within_choose fun n => ?_
  split
  · trivial
  refine within_write (fun _ => .inr ⟨.of_same rfl rfl rfl, .inl rfl, .inl rfl, .inl rfl,
    .inl rfl⟩) ?_
  refine within_choose fun n => within_update (fun s => .inr ?_) fun started => ?_
  · split
    · exact ⟨.of_same rfl rfl rfl, .inl rfl, .inr ⟨true, rfl⟩, .inl rfl, .inr ⟨_, rfl⟩⟩
    · exact ⟨.of_same rfl rfl rfl, .inl rfl, .inl rfl, .inl rfl, .inr ⟨_, rfl⟩⟩
  split
  · refine within_read fun _ =>
      within_seq ((awaitCalibration_works _ _).mono hacts) fun interrupted => ?_
    refine within_write (fun _ => .inr ⟨.of_same rfl rfl rfl, .inl rfl, .inl rfl, .inl rfl,
      .inl rfl⟩) ?_
    refine within_seq ((writeControl_works _).mono hacts) fun stopped => ?_
    split
    · refine within_read fun failed => ?_
      split
      · trivial
      · split <;> trivial
    · trivial
  · trivial

theorem enter_acts (target : State) : (enter target).Within Acts := by
  cases target with
  | calibrating => exact runCalibration_acts
  | recovering => exact runRecovery_works.mono fun _ _ h => h.acts
  | fault => exact within_seq (enterFault_works.mono fun _ _ h => h.acts) fun _ => trivial
  | init | ready | running | paused | stopped => trivial

theorem apply_acts (e : Event) : (apply e).Within Acts := by
  refine within_repeat fun e => within_read fun source => ?_
  cases transition source e with
  | none => trivial
  | some target =>
      refine within_seq ((prepare_works _ _).mono fun _ _ h => h.acts) fun prepared => ?_
      split
      · refine within_write (fun s => .inr ⟨⟨List.prefix_rfl, rfl, List.prefix_append ..⟩,
          .inl rfl, .inl rfl, .inl rfl, .inl rfl⟩) ?_
        refine within_seq (enter_acts _) fun next => ?_
        cases next <;> trivial
      · trivial

/-! ## The invariant -/

/-- Steps of all but the supervisor. -/
def Aside (_ : Running) (e : Happening) : Prop :=
  (∀ n, e ≠ .supervisor n) ∧ e ≠ .dequeue ∧ e ≠ .idle

/-- Nobody but recovery posts `Recovered`. -/
def Unforged (_ : Running) (e : Happening) : Prop := e ≠ .post .recovered

instance (x : Running) (e : Happening) : Decidable (Unforged x e) := by
  unfold Unforged
  infer_instance

/-- The sample that the acquisition thread has read and not counted. -/
def WorkerPc.inHand : WorkerPc → Option ℕ
  | .holding t => some t
  | _ => none

/-- While an attempt watches `samples_read`, no sample is counted that was taken before the
attempt's `control=1`. -/
def Fresh (x : Running) (e : Happening) : Prop :=
  e = .workerCount → x.svc.attempt.watching = true →
    ∀ t ∈ x.svc.worker.pc.inHand, ∃ k ∈ x.svc.attempt.started, k ≤ t

/-- The supervisor is on its way to a settled state. -/
structure Inv (own fresh : Prop) (x : Running) : Prop where
  sane : Sane own x.svc
  thread : x.thread.wp (supervising own fresh) (fun _ => Applied own fresh) x.svc
  frame : x.thread.Within Acts

section Invariant

variable {own fresh : Prop} {x y : Running} {e : Happening}

/-- What the other threads do in one step. -/
theorem plant_others {s t : Service} (sane : Sane own s) (hpost : own → e ≠ .post .recovered)
    (hfresh : fresh → Fresh ⟨s, .ret ()⟩ e) (h : Running.plant s e = some t) :
    Sane own t ∧ Others fresh s t ∧ Later s t := by
  have hcounted : ∃ l, s.counted = s.counted ++ l ∧ (fresh → s.attempt.watching = true →
      ∀ e ∈ l, ∃ k ∈ s.attempt.started, k ≤ e) :=
    ⟨[], (List.append_nil _).symm, fun _ _ _ he => nomatch he⟩
  have hsub : s.queue ⊆ s.queue := List.Subset.refl _
  unfold Running.plant at h
  cases e with
  | supervisor | dequeue | idle => cases h
  | post event =>
      cases h
      refine ⟨⟨fun hs => ?_, sane.counted, fun ho => ?_⟩, ⟨rfl, rfl, rfl, rfl, rfl, rfl,
        List.subset_append_left .., Nat.le_refl _, id, hcounted⟩, List.prefix_append .., rfl,
        List.prefix_rfl⟩
      · rcases Bool.or_eq_true_iff.mp hs with hs | hs
        · rcases sane.stop hs with hq | hrest
          · exact .inl (List.mem_append_left _ hq)
          · exact .inr hrest
        · exact .inl (List.mem_append_right _ (List.mem_singleton.mpr (beq_iff_eq.mp hs).symm))
      · intro hmem
        rcases List.mem_append.mp hmem with hmem | hmem
        · exact sane.genuine ho hmem
        · exact hpost ho (congrArg _ (List.mem_singleton.mp hmem).symm)
  | tick ms =>
      cases h
      exact ⟨⟨sane.stop, sane.counted, sane.genuine⟩, ⟨rfl, rfl, rfl, rfl, rfl, rfl, hsub,
        Nat.le_add_right .., id, hcounted⟩, List.prefix_rfl, rfl, List.prefix_rfl⟩
  | sample | fetch | store | workerRead | workerLoad | workerObserve =>
      dsimp only at h
      split at h <;> cases h
      exact ⟨⟨sane.stop, sane.counted, sane.genuine⟩, ⟨rfl, rfl, rfl, rfl, rfl, rfl, hsub,
        Nat.le_refl _, id, hcounted⟩, List.prefix_rfl, rfl, List.prefix_rfl⟩
  | lose =>
      cases h
      exact ⟨⟨sane.stop, sane.counted, sane.genuine⟩, ⟨rfl, rfl, rfl, rfl, rfl, rfl, hsub,
        Nat.le_refl _, id, hcounted⟩, List.prefix_rfl, rfl, List.prefix_rfl⟩
  | workerCount =>
      dsimp only at h
      split at h <;> cases h
      rename_i t hpc
      refine ⟨⟨sane.stop, ?_, sane.genuine⟩, ⟨rfl, rfl, rfl, rfl, rfl, rfl, hsub,
        Nat.le_refl _, id, [t], rfl, fun hf hwatch e he => ?_⟩, List.prefix_rfl, rfl,
        List.prefix_rfl⟩
      · simp only [List.length_append, List.length_singleton, sane.counted]
      · rw [List.mem_singleton.mp he]
        exact hfresh hf rfl hwatch t (congrArg WorkerPc.inHand hpc)
  | workerDie =>
      dsimp only at h
      split at h <;> cases h
      exact ⟨⟨sane.stop, sane.counted, sane.genuine⟩, ⟨rfl, rfl, rfl, rfl, rfl, rfl, hsub,
        Nat.le_refl _, fun _ => rfl, hcounted⟩, List.prefix_rfl, rfl, List.prefix_rfl⟩

/-- A step of another thread, as `plant` has it. -/
theorem next_aside (he : Aside x e) (h : x.next e = some y) :
    Running.plant x.svc e = some y.svc ∧ y.thread = x.thread := by
  have hplant : (Running.plant x.svc e).map (fun s => { x with svc := s }) = some y := by
    cases e with
    | supervisor n => exact absurd rfl (he.1 n)
    | dequeue => exact absurd rfl he.2.1
    | idle => exact absurd rfl he.2.2
    | post | tick | sample | fetch | store | lose | workerRead | workerCount | workerLoad
      | workerObserve | workerDie => exact h
  obtain ⟨t, ht, rfl⟩ := Option.map_eq_some_iff.mp hplant
  exact ⟨ht, rfl⟩

/-- A step of another thread leaves the supervisor where it is. -/
theorem Inv.aside (inv : Inv own fresh x) (hpost : own → e ≠ .post .recovered)
    (hfresh : fresh → Fresh x e) (he : Aside x e) (h : x.next e = some y) :
    Inv own fresh y ∧ y.thread = x.thread ∧ Others fresh x.svc y.svc ∧ Later x.svc y.svc := by
  obtain ⟨hplant, hthread⟩ := next_aside he h
  obtain ⟨sane, others, later⟩ := plant_others inv.sane hpost hfresh hplant
  refine ⟨⟨sane, ?_, ?_⟩, hthread, others, later⟩
  · rw [hthread]
    exact wp_rely (fun _ _ _ ha hr _ => ha.rely hr) inv.thread others sane
  · rw [hthread]
    exact inv.frame

/-- `run` takes an event from the queue. -/
theorem Inv.dequeue (inv : Inv own fresh x) (h : x.next .dequeue = some y) : Inv own fresh y := by
  dsimp only [Running.next] at h
  split at h
  · rename_i hidle
    have applied := wp_returned inv.thread hidle.1
    split at h <;> cases h
    rename_i event rest hq
    refine ⟨⟨fun hs => ?_, inv.sane.counted, fun ho hmem => ?_⟩, apply_spec ?_, apply_acts _⟩
    · rcases inv.sane.stop hs with hmem | hcur | hst
      · rw [hq] at hmem
        rcases List.mem_cons.mp hmem with heq | hmem
        · exact .inr (.inl (congrArg _ heq.symm))
        · exact .inl hmem
      · exact absurd (applied.stopped hcur) hidle.2
      · exact absurd hst hidle.2
    · exact inv.sane.genuine ho (hq ▸ List.mem_cons_of_mem _ hmem)
    · refine ⟨hidle.2, applied.sound, fun hc => Option.some.inj hc,
        .inl ⟨applied.agree, fun he hst => ?_, fun ho he => ?_⟩⟩
      · have hmem := applied.rest hst
        rw [hq] at hmem
        exact (List.mem_cons.mp hmem).resolve_left he.symm
      · subst he
        exact inv.sane.genuine ho (hq ▸ List.mem_cons_self ..)
  · cases h

/-- `run` finds the acquisition thread dead. -/
theorem Inv.idle (inv : Inv own fresh x) (h : x.next .idle = some y) : Inv own fresh y := by
  dsimp only [Running.next] at h
  split at h
  · rename_i hidle
    obtain ⟨hret, hq, -, hstate⟩ := hidle
    have applied := wp_returned inv.thread hret
    cases h
    have halive : x.svc.state ≠ .stopped := by
      rcases hstate with h | h | h <;> rw [h] <;> decide
    have hcur : x.svc.current ≠ some .stop := fun hc => halive (applied.stopped hc)
    refine ⟨⟨fun hs => ?_, inv.sane.counted, inv.sane.genuine⟩, apply_spec ?_, apply_acts _⟩
    · rcases inv.sane.stop hs with hmem | hc | hst
      · exact .inl hmem
      · exact absurd hc hcur
      · exact .inr (.inr hst)
    · exact ⟨halive, applied.sound, nofun,
        .inl ⟨applied.agree, fun _ => applied.rest, fun _ => nofun⟩⟩
  · cases h

/-- Every step keeps the invariant. -/
theorem Inv.next (inv : Inv own fresh x) (hpost : own → Unforged x e)
    (hfresh : fresh → Fresh x e) (h : x.next e = some y) : Inv own fresh y := by
  cases e with
  | supervisor n =>
      obtain ⟨⟨p, s⟩, hs, rfl⟩ := Option.map_eq_some_iff.mp h
      obtain ⟨sane, -, hwp⟩ := wp_step inv.thread inv.sane hs trivial
      exact ⟨sane, hwp, (within_step inv.frame hs).2⟩
  | dequeue => exact inv.dequeue h
  | idle => exact inv.idle h
  | post | tick | sample | fetch | store | lose | workerRead | workerCount | workerLoad
    | workerObserve | workerDie =>
      exact (inv.aside hpost hfresh ⟨nofun, nofun, nofun⟩ h).1

/-- The event that is being applied can be applied to its end. -/
theorem Inv.finish {p : Prog Service Unit} {s : Service}
    (h : p.Ends (supervising own fresh) (fun _ => Applied own fresh) s) (inv : Inv own fresh x)
    (hp : x.thread = p) (hs : x.svc = s) : ∃ t, Applied own fresh t ∧ Later x.svc t := by
  induction h generalizing x with
  | ret h => exact ⟨x.svc, hs ▸ h, Later.refl _⟩
  | @step p s enabled h ih =>
      have hsane : Sane own s := hs ▸ inv.sane
      obtain ⟨⟨p', t⟩, ht⟩ :=
        Option.isSome_iff_exists.mp (enabled s (Others.refl _ _) hsane 0)
      have hn : x.next (.supervisor 0) = some ⟨t, p'⟩ := by
        dsimp only [Running.next]
        rw [hp, hs, ht]
        rfl
      obtain ⟨u, hu, hlater⟩ := ih s (Others.refl _ _) hsane 0 p' t ht trivial
        (inv.next (e := .supervisor 0) (fun _ h => nomatch h) (fun _ h => nomatch h) hn) rfl rfl
      refine ⟨u, hu, Later.trans ?_ hlater⟩
      rw [← hp, ← hs] at ht
      rcases (within_step inv.frame ht).1 with rfl | hl
      · exact Later.refl _
      · exact hl.toLater

theorem Inv.of_init (h : deviceService.init x) : Inv own fresh x := by
  obtain ⟨cfg, p, clock, -, rfl⟩ := h
  refine ⟨⟨nofun, rfl, fun _ => List.not_mem_nil⟩,
    ⟨⟨fun _ w hw => ?_, fun h => ?_, fun _ _ en hen => ?_⟩,
    nofun, nofun⟩, trivial⟩
  · cases hw
  · rcases h with h | h <;> cases h
  · exact absurd hen List.not_mem_nil

theorem Inv.of_reach {ok : Running → Happening → Prop} (hpost : own → ∀ x e, ok x e → Unforged x e)
    (hfresh : fresh → ∀ x e, ok x e → Fresh x e) (h : deviceService.Reach ok x) :
    Inv own fresh x :=
  h.invariant (fun _ => Inv.of_init) fun _ _ _ inv hok hn =>
    inv.next (fun ho => hpost ho _ _ hok) (fun hf => hfresh hf _ _ hok) hn

end Invariant

/-! ## The state and the device -/

/-- A configuration, and a pipeline that holds `old` samples from before. -/
def smallConfig : SupervisorConfig where
  expectedDeviceId := 0
  maxRecoveryAttempts := 1
  recoveryTimeout := 20
  recoveryBackoff := 0
  calibrationDuration := 0

def leftover (old : ℕ) : Pipeline := ⟨false, 0, [], none, List.replicate old 0⟩

theorem leftover_init (old : ℕ) :
    deviceService.init (Running.start smallConfig (leftover old) 0) := by
  refine ⟨_, _, _, ⟨?_, ?_, ?_⟩, rfl⟩
  · exact fun _ ht => nomatch ht
  · exact fun _ ht => nomatch ht
  · exact fun t ht => Nat.le_of_eq (List.eq_of_mem_replicate ht)

/-- Steps of the supervisor; every call of the device takes effect. -/
def steps (n : ℕ) : List Happening := List.replicate n (.supervisor 0)

/-- The supervisor comes to rest in a state that satisfies `Q` after it has taken at most `n`
events from the queue.  Whatever the others have done, it can take its next step; and if `run`
is to take an event, it does not find the queue empty. -/
inductive Comes (Q : Service → Prop) : ℕ → Running → Prop
  | rest {n : ℕ} {x : Running} (hret : x.thread.returned = true) (h : Q x.svc) : Comes Q n x
  | apply {n : ℕ} {x : Running}
      (enabled : ∀ es y, deviceService.Run Aside x es y → ∀ k, (y.next (.supervisor k)).isSome)
      (h : ∀ es y, deviceService.Run Aside x es y → ∀ k z, y.next (.supervisor k) = some z →
        Comes Q n z) : Comes Q n x
  | dequeue {n : ℕ} {x : Running}
      (enabled : ∀ es y, deviceService.Run Aside x es y →
        (y.next .dequeue).isSome ∧ y.next .idle = none)
      (h : ∀ es y, deviceService.Run Aside x es y → ∀ z, y.next .dequeue = some z →
        Comes Q n z) : Comes Q (n + 1) x

/-- `Stop` has been applied: the last write attempted was a 0. -/
def Ended (s : Service) : Prop := s.state = .stopped ∧ ∃ ok, s.writes.getLast? = some ⟨false, ok⟩

section Stopping

variable {x y : Running} {n : ℕ} {Q : Service → Prop}

/-- Steps of the others leave the supervisor where it is. -/
theorem Inv.aside_run {es : List Happening} (hr : deviceService.Run Aside x es y)
    (inv : Inv False False x) :
    Inv False False y ∧ y.thread = x.thread ∧ Others False x.svc y.svc ∧ Later x.svc y.svc := by
  induction hr with
  | nil => exact ⟨inv, rfl, Others.refl _ _, Later.refl _⟩
  | snoc _ hok hn ih =>
      obtain ⟨invy, hthread, hothers, hlater⟩ := ih
      obtain ⟨invz, hthread', hothers', hlater'⟩ := invy.aside False.elim False.elim hok hn
      exact ⟨invz, hthread'.trans hthread, hothers.trans hothers', hlater.trans hlater'⟩

/-- What is left to do of an event ends. -/
theorem Comes.of_ends {p : Prog Service Unit} {s : Service}
    (h : p.Ends (supervising False False) (fun _ => Applied False False) s)
    (inv : Inv False False x) (hp : x.thread = p) (hs : x.svc = s)
    (hrest : ∀ y, Inv False False y → y.thread.returned = true → Later x.svc y.svc → Comes Q n y) :
    Comes Q n x := by
  induction h generalizing x with
  | ret => exact hrest x inv (by rw [hp]; rfl) (Later.refl _)
  | @step p s enabled h ih =>
      refine .apply (fun es y hr k => ?_) fun es y hr k z hn => ?_
      · obtain ⟨invy, hthread, hothers, -⟩ := inv.aside_run hr
        refine Option.isSome_map.trans ?_
        rw [hthread, hp]
        exact enabled y.svc (hs ▸ hothers) invy.sane k
      · obtain ⟨invy, hthread, hothers, hlater⟩ := inv.aside_run hr
        have invz : Inv False False z := invy.next False.elim False.elim hn
        obtain ⟨⟨p', t⟩, ht, rfl⟩ := Option.map_eq_some_iff.mp hn
        have hstep : Later y.svc t := by
          rcases (within_step invy.frame ht).1 with rfl | hl
          · exact Later.refl _
          · exact hl.toLater
        rw [hthread, hp] at ht
        exact ih y.svc (hs ▸ hothers) invy.sane k p' t ht trivial invz rfl rfl
          fun w invw hret hl => hrest w invw hret (hlater.trans (hstep.trans hl))

theorem Comes.of_inv (inv : Inv False False x)
    (hrest : ∀ y, Inv False False y → y.thread.returned = true → Later x.svc y.svc → Comes Q n y) :
    Comes Q n x :=
  .of_ends (Prog.ends_of_wp trivial (fun _ _ _ ha hr _ => ha.rely hr) inv.thread) inv rfl rfl hrest

/-- `run` takes the next event of the queue. -/
theorem next_dequeue {e : Event} {l : List Event} (hret : x.thread.returned = true)
    (halive : x.svc.state ≠ .stopped) (hq : e :: l <+: x.svc.queue) :
    x.next .idle = none ∧ ∃ z, x.next .dequeue = some z ∧ l <+: z.svc.queue ∧
      z.svc.current = some e := by
  obtain ⟨rest, hrest⟩ := hq
  refine ⟨?_, ⟨{ x.svc with queue := l ++ rest, current := some e }, apply e⟩, ?_,
    List.prefix_append .., rfl⟩
  · dsimp only [Running.next]
    rw [← hrest, if_neg]
    rintro ⟨-, h, -⟩
    cases h
  · dsimp only [Running.next]
    rw [if_pos ⟨hret, halive⟩, ← hrest]
    rfl

/-- The supervisor ends what it is doing and takes the next event, if it has not stopped. -/
theorem Comes.of_queue {e : Event} {l : List Event} (inv : Inv False False x)
    (hq : e :: l <+: x.svc.queue)
    (hthen : ∀ z, Inv False False z → l <+: z.svc.queue → z.svc.current = some e →
      Comes Ended n z) : Comes Ended (n + 1) x := by
  refine Comes.of_inv inv fun y invy hret hlater => ?_
  have applied := wp_returned invy.thread hret
  by_cases halive : y.svc.state = .stopped
  · exact .rest hret ⟨halive, applied.ended halive⟩
  have hnext : ∀ es z, deviceService.Run Aside y es z → Inv False False z ∧
      z.next .idle = none ∧ ∃ w, z.next .dequeue = some w ∧ l <+: w.svc.queue ∧
        w.svc.current = some e := by
    intro es z hr
    obtain ⟨invz, hthread, hothers, hl⟩ := invy.aside_run hr
    exact ⟨invz, next_dequeue (hthread ▸ hret) (hothers.state ▸ halive)
      (hq.trans (hlater.trans hl).queue)⟩
  apply Comes.dequeue
  · intro es z hr
    obtain ⟨-, hidle, w, hw, -⟩ := hnext es z hr
    exact ⟨Option.isSome_of_eq_some hw, hidle⟩
  · intro es z hr w hn
    obtain ⟨invz, -, w', hw, hl, hcur⟩ := hnext es z hr
    cases hw.symm.trans hn
    exact hthen w (invz.next False.elim False.elim hn) hl hcur

/-- A queue with a `Stop` is worked off. -/
theorem comes_ended (pre : List Event) {post : List Event} (inv : Inv False False x)
    (hq : pre ++ .stop :: post <+: x.svc.queue) : Comes Ended (pre.length + 1) x := by
  induction pre generalizing x with
  | nil =>
      apply Comes.of_queue inv hq
      intro z invz _ hcur
      refine Comes.of_inv invz fun y invy hret hlater => ?_
      have applied := wp_returned invy.thread hret
      have hst := applied.stopped (hlater.current.trans hcur)
      exact .rest hret ⟨hst, applied.ended hst⟩
  | cons e pre ih => exact Comes.of_queue inv hq fun z invz hl _ => ih invz hl

end Stopping

/-- **Applying an event ends, and `Stop` wins.** -/
theorem stop_wins {x : Running} (h : deviceService.Reach Machine.Always x) :
    Comes Rest 0 x ∧ ∀ pre post, x.svc.queue = pre ++ .stop :: post →
      Comes Ended (pre.length + 1) x := by
  have inv : Inv False False x := Inv.of_reach False.elim False.elim h
  refine ⟨Comes.of_inv inv fun y invy hret _ => ?_, fun pre post hq => ?_⟩
  · exact .rest hret (wp_returned invy.thread hret).rest
  · have hprefix : pre ++ .stop :: post <+: x.svc.queue := by rw [hq]
    exact comes_ended pre inv hprefix

/-- A `Stop` that is posted in the middle of recovery. -/
theorem stop_wins_recovering : ∃ x, deviceService.Reach Machine.Always x ∧
    (x.thread.returned = false ∧ x.svc.state = .recovering ∧ x.svc.queue = [.start, .stop]) ∧
    Comes Ended 2 x := by
  have hrun : ∃ x, deviceService.Reach Machine.Always x ∧
      x.thread.returned = false ∧ x.svc.state = .recovering ∧ x.svc.queue = [.start, .stop] :=
    Machine.exists_reach_of_exec
      (List.flatten [[.post .initOk, .post .start, .dequeue], steps 3, [.dequeue], steps 5,
        [.post .stall, .dequeue], steps 5, [.post .start, .post .stop]])
      (leftover_init 0) (by decide +kernel)
  obtain ⟨x, hx, hp⟩ := hrun
  exact ⟨x, hx, hp, (stop_wins hx).2 [.start] [] hp.2.2⟩

/-! ## Recovery -/

/-- No sample is on its way: the kfifo is empty, the driver holds none that it has read and not
stored, and the acquisition thread none that it has read and not counted. -/
def Clear (s : Service) : Prop :=
  s.pipeline.kfifo = [] ∧ s.pipeline.inFlight = none ∧ s.worker.pc.inHand = none

/-- The `control=1` of an attempt finds no sample on its way, and none has been counted since the
attempt noted `samples_read`. -/
def Drained (x : Running) (e : Happening) : Prop :=
  (e = .workerCount → x.svc.attempt.watching = true → x.svc.attempt.started ≠ none) ∧
    ∀ y ∈ x.next e, y.svc.attempt.started ≠ none →
      y.svc.attempt.started ≠ x.svc.attempt.started → Clear x.svc

instance (s : Service) : Decidable (Clear s) := by
  unfold Clear
  infer_instance

instance (x : Running) (e : Happening) : Decidable (Drained x e) := by
  unfold Drained
  infer_instance

/-- Every sample on its way, and every one that the MCU will take, was taken after the `k`-th
`control=1`. -/
structure Newer (k : ℕ) (s : Service) : Prop where
  starts : k ≤ s.pipeline.starts
  mcuFifo : ∀ t ∈ s.pipeline.mcuFifo, k ≤ t
  inFlight : ∀ t ∈ s.pipeline.inFlight, k ≤ t
  kfifo : ∀ t ∈ s.pipeline.kfifo, k ≤ t
  inHand : ∀ t ∈ s.worker.pc.inHand, k ≤ t

section Newer

variable {k : ℕ} {s t : Service} {x y : Running} {e : Happening}

theorem Newer.of_same (h : Newer k s) (hpipeline : t.pipeline = s.pipeline)
    (hpc : t.worker.pc = s.worker.pc ∨ t.worker.pc.inHand = none) : Newer k t := by
  refine ⟨hpipeline ▸ h.starts, hpipeline ▸ h.mcuFifo, hpipeline ▸ h.inFlight,
    hpipeline ▸ h.kfifo, ?_⟩
  rcases hpc with hpc | hpc
  · rw [hpc]
    exact h.inHand
  · rw [hpc]
    exact fun _ ht => nomatch ht

/-- A write to `control` brings no old sample. -/
theorem Newer.control (h : Newer k s) {v : Bool} (hpipeline : t.pipeline = s.pipeline.control v)
    (hpc : t.worker.pc = s.worker.pc) : Newer k t := by
  have hhand := hpc ▸ h.inHand
  cases v with
  | false =>
      refine ⟨?_, ?_, ?_, ?_, hhand⟩ <;> rw [hpipeline]
      · exact h.starts
      · exact h.mcuFifo
      · exact h.inFlight
      · exact h.kfifo
  | true =>
      refine ⟨?_, ?_, ?_, ?_, hhand⟩ <;> rw [hpipeline]
      · exact h.starts.trans (Nat.le_succ _)
      · exact fun _ ht => nomatch ht
      · exact h.inFlight
      · exact h.kfifo

/-- The attempt's `control=1` finds nothing on its way. -/
theorem Newer.of_clear (h : Clear s) (hpipeline : t.pipeline = s.pipeline.control true)
    (hpc : t.worker.pc = s.worker.pc ∨ t.worker.pc = .waiting) :
    Newer (s.pipeline.starts + 1) t := by
  obtain ⟨hkfifo, hflight, hhand⟩ := h
  refine ⟨?_, ?_, ?_, ?_, ?_⟩
  · rw [hpipeline]
    exact Nat.le_refl _
  · rw [hpipeline]
    exact fun _ ht => nomatch ht
  · rw [hpipeline, show (s.pipeline.control true).inFlight = none from hflight]
    exact fun _ ht => nomatch ht
  · rw [hpipeline, show (s.pipeline.control true).kfifo = [] from hkfifo]
    exact fun _ ht => nomatch ht
  · rcases hpc with hpc | hpc
    · rw [hpc, hhand]
      exact fun _ ht => nomatch ht
    · rw [hpc]
      exact fun _ ht => nomatch ht

/-- A sample that moves on is as new as before. -/
theorem Newer.plant (h : Newer k s) (hn : Running.plant s e = some t) : Newer k t := by
  unfold Running.plant at hn
  cases e with
  | supervisor | dequeue | idle => cases hn
  | post | tick =>
      cases hn
      exact h.of_same rfl (.inl rfl)
  | lose =>
      cases hn
      exact ⟨h.starts, h.mcuFifo, (fun _ ht => nomatch ht), h.kfifo, h.inHand⟩
  | sample =>
      dsimp only at hn
      split at hn <;> cases hn
      refine ⟨h.starts, fun u hu => ?_, h.inFlight, h.kfifo, h.inHand⟩
      rcases List.mem_append.mp hu with hu | hu
      · exact h.mcuFifo u hu
      · exact List.mem_singleton.mp hu ▸ h.starts
  | fetch =>
      dsimp only at hn
      split at hn <;> cases hn
      rename_i u rest hmcu _
      refine ⟨h.starts, fun v hv => h.mcuFifo v (hmcu ▸ List.mem_cons_of_mem _ hv), ?_, h.kfifo,
        h.inHand⟩
      rintro _ ⟨⟩
      exact h.mcuFifo u (hmcu ▸ List.mem_cons_self ..)
  | store =>
      dsimp only at hn
      split at hn <;> cases hn
      rename_i u hflight
      refine ⟨h.starts, h.mcuFifo, (fun _ ht => nomatch ht), fun v hv => ?_, h.inHand⟩
      rcases List.mem_append.mp hv with hv | hv
      · exact h.kfifo v hv
      · exact List.mem_singleton.mp hv ▸ h.inFlight u hflight
  | workerRead =>
      dsimp only at hn
      split at hn <;> cases hn
      rename_i u rest _ hkfifo
      refine ⟨h.starts, h.mcuFifo, h.inFlight,
        fun v hv => h.kfifo v (hkfifo ▸ List.mem_cons_of_mem _ hv), ?_⟩
      rintro _ ⟨⟩
      exact h.kfifo u (hkfifo ▸ List.mem_cons_self ..)
  | workerCount | workerObserve | workerDie =>
      dsimp only at hn
      split at hn <;> cases hn
      exact h.of_same rfl (.inr rfl)
  | workerLoad =>
      dsimp only at hn
      split at hn <;> cases hn
      refine h.of_same rfl (.inr ?_)
      dsimp only
      split <;> rfl

/-- A step of the supervisor: `started` changes only if the attempt's `control=1` is written. -/
theorem Newer.acts (h : ∀ k ∈ s.attempt.started, Newer k s) (hacts : Acts s t)
    (hclear : t.attempt.started ≠ none → t.attempt.started ≠ s.attempt.started → Clear s) :
    ∀ k ∈ t.attempt.started, Newer k t := by
  intro k hk
  have hsome : t.attempt.started ≠ none := by
    rw [hk]
    exact Option.some_ne_none _
  by_cases hsame : t.attempt.started = s.attempt.started
  · have hnewer := h k (hsame ▸ hk)
    rcases hacts.pipeline with hp | ⟨v, hp⟩
    · exact hnewer.of_same hp (hacts.pc.imp_right fun hpc => by rw [hpc]; rfl)
    · rcases hacts.pc with hpc | hpc
      · exact hnewer.control hp hpc
      · exact (hnewer.of_same (t := { s with worker := t.worker }) rfl
          (.inr (by rw [hpc]; rfl))).control hp rfl
  · rcases hacts.started with hs | hs | ⟨hs, hp⟩
    · exact absurd hs hsame
    · exact absurd hs hsome
    · cases hk.symm.trans hs
      exact .of_clear (hclear hsome hsame) hp hacts.pc

end Newer

end DeviceService
