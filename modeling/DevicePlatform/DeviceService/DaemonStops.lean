/-
# The threads of the service stop

In a fair run in which the signal has come, the supervisor returns, the signal thread goes on, and
the acquisition thread ends, one after the other.  Each stage is one variant that the thread's own
steps lower and that the others leave alone (`RunMove`).
-/
import DevicePlatform.DeviceService.DaemonInvariant
import DevicePlatform.LeadsTo

namespace DeviceService

open Supervisor

namespace Daemon

variable {cap : ℕ} {x y : Daemon}

/-! ## What the others leave alone -/

section Steps

variable {l : DaemonStep}

/-- What a step does to the supervisor, and to what it looks at. -/
inductive RunMove (x y : Daemon) : DaemonStep → Prop
  | same {l : DaemonStep} (h : y.run = x.run) : RunMove x y l
  | supervisor {n : ℕ} (hret : ¬ x.run.Returned) (h : SupervisorMove x y) :
      RunMove x y (.supervisor n)
  | aside {l : DaemonStep} {e : Happening} (he : Aside x.run e)
      (h : x.run.next e = some y.run) : RunMove x y l
  | exit {n : ℕ} (hstop : x.stopRequested = true) (hthread : y.run.thread = x.run.thread)
      (hstate : y.run.svc.state = x.run.svc.state) : RunMove x y (.worker n)

/-- The signal thread comes to its next stage.  Of the others' state it changes the queue of the
supervisor, or makes a call of the buffer. -/
theorem signalNext_moves (hn : x.signalNext cap = some y) :
    y.signal.stage = x.signal.stage + 1 ∧
      (y.run = x.run ∨ x.run.next (.post .stop) = some y.run) ∧ Calls cap x.ring y.ring := by
  unfold signalNext at hn
  cases hs : x.signal with
  | waiting | done =>
      rw [hs] at hn
      cases hn
  | received =>
      simp only [hs] at hn
      split at hn
      · obtain ⟨r, hr, rfl⟩ := Option.map_eq_some_iff.mp hn
        exact ⟨rfl, .inr hr, .inl rfl⟩
      · cases hn
        exact ⟨rfl, .inl rfl, .inl rfl⟩
  | joiningSupervisor | joiningWorker =>
      simp only [hs] at hn
      split at hn <;> cases hn
      exact ⟨rfl, .inl rfl, .inl rfl⟩
  | stopping | notifyingEmpty | notifyingFull =>
      simp only [hs] at hn
      obtain ⟨b, hb, rfl⟩ := Option.map_eq_some_iff.mp hn
      exact ⟨rfl, .inl rfl, .inr ⟨_, hb⟩⟩
  | requesting =>
      simp only [hs] at hn
      cases hn
      exact ⟨rfl, .inl rfl, .inl rfl⟩

/-- Its last step is to join the acquisition thread. -/
theorem signalNext_last (h7 : 7 ≤ x.signal.stage) (hn : x.signalNext cap = some y) :
    y = { x with signal := .done } := by
  cases hs : x.signal with
  | joiningWorker =>
      simp only [signalNext, hs] at hn
      split at hn <;> cases hn
      rfl
  | done =>
      simp only [signalNext, hs] at hn
      cases hn
  | waiting | received | joiningSupervisor | stopping | notifyingEmpty | notifyingFull
    | requesting =>
      rw [hs] at h7
      exact absurd h7 (by decide)

theorem runMove_of_next (hn : x.next cap l = some y) : RunMove x y l := by
  have haside : ∀ {e : Happening}, e = .workerDie ∨ e = .workerRead ∨ e = .post .stop →
      Aside x.run e := by
    rintro e (rfl | rfl | rfl) <;> exact ⟨nofun, nofun, nofun⟩
  cases l with
  | supervisor n =>
      obtain ⟨hret, hmove⟩ := supervisorMove_of_next hn
      exact .supervisor hret hmove
  | worker n =>
      cases workerMove_of_next hn with
      | handle he hr => exact .aside (aside_of_handling he) hr
      | exit hstop hloop => exact .exit hstop rfl rfl
      | die hloop hr => exact .aside (haside (.inl rfl)) hr
      | read hloop hr => exact .aside (haside (.inr (.inl rfl))) hr
      | poll | push | pushed => exact .same rfl
  | signal =>
      rcases (signalNext_moves hn).2.1 with hr | hr
      · exact .same hr
      · exact .aside (haside (.inr (.inr rfl))) hr
  | main =>
      obtain ⟨b, main, -, -, rfl⟩ := mainNext_eq hn
      exact .same rfl
  | sigterm =>
      obtain ⟨-, rfl⟩ := sigterm_of_next hn
      exact .same rfl
  | world e =>
      obtain ⟨he, r, hr, rfl⟩ := world_of_next hn
      exact .aside (aside_of_world he) hr
  | wakeWorker | wakeMain =>
      dsimp only [Daemon.next] at hn
      obtain ⟨b, -, rfl⟩ := Option.map_eq_some_iff.mp hn
      exact .same rfl

/-- What the others do to the supervisor before the acquisition thread is asked to stop. -/
theorem aside_next (h : x.RunOk) (hl : ∀ n, l ≠ .supervisor n) (hstage : x.signal.stage < 7)
    (hn : x.next cap l = some y) :
    y.run = x.run ∨ ∃ e, Aside x.run e ∧ x.run.next e = some y.run := by
  cases runMove_of_next hn with
  | same hr => exact .inl hr
  | supervisor hret hmove => exact absurd rfl (hl _)
  | aside he hr => exact .inr ⟨_, he, hr⟩
  | exit hstop => exact absurd (h.requested.mp hstop) (Nat.not_le.mpr hstage)

/-- A supervisor that has returned stays so. -/
theorem returned_next (h : x.RunOk) (hret : x.run.Returned) (hn : x.next cap l = some y) :
    y.run.Returned := by
  cases runMove_of_next hn with
  | same hr => rwa [hr]
  | supervisor hnot hmove => exact absurd hret hnot
  | aside he hr => exact (h.supervised.aside he hr).2 hret
  | exit hstop hthread hstate => exact ⟨hthread ▸ hret.1, hstate.trans hret.2⟩

/-- Nobody else moves the signal thread; the signal starts it. -/
theorem signal_moves (hl : l ≠ .signal) (hn : x.next cap l = some y) :
    y.signal = x.signal ∨ x.signal = .waiting ∧ y.signal = .received := by
  cases l with
  | supervisor n =>
      obtain ⟨-, hmove⟩ := supervisorMove_of_next hn
      cases hmove <;> exact .inl rfl
  | worker n => cases workerMove_of_next hn <;> exact .inl rfl
  | signal => exact absurd rfl hl
  | main =>
      obtain ⟨b, main, -, -, rfl⟩ := mainNext_eq hn
      exact .inl rfl
  | sigterm =>
      obtain ⟨hsignal, rfl⟩ := sigterm_of_next hn
      exact .inr ⟨hsignal, rfl⟩
  | world e =>
      obtain ⟨-, r, -, rfl⟩ := world_of_next hn
      exact .inl rfl
  | wakeWorker | wakeMain =>
      dsimp only [Daemon.next] at hn
      obtain ⟨b, -, rfl⟩ := Option.map_eq_some_iff.mp hn
      exact .inl rfl

theorem signal_next (hsignal : x.signal ≠ .waiting) (hl : l ≠ .signal)
    (hn : x.next cap l = some y) : y.signal = x.signal :=
  (signal_moves hl hn).resolve_right fun h => hsignal h.1

/-- Whatever a thread does to the buffer is a step of one of its calls. -/
theorem calls_of_next (hn : x.next cap l = some y) : Calls cap x.ring y.ring := by
  cases l with
  | supervisor n =>
      obtain ⟨-, hmove⟩ := supervisorMove_of_next hn
      cases hmove <;> exact .inl rfl
  | worker n =>
      cases workerMove_of_next hn with
      | push he hpc hb => exact .inr ⟨_, hb⟩
      | handle | exit | die | poll | read | pushed => exact .inl rfl
  | signal => exact (signalNext_moves hn).2.2
  | main =>
      obtain ⟨b, main, -, hcalls, rfl⟩ := mainNext_eq hn
      exact hcalls
  | sigterm =>
      obtain ⟨-, rfl⟩ := sigterm_of_next hn
      exact .inl rfl
  | world e =>
      obtain ⟨-, r, -, rfl⟩ := world_of_next hn
      exact .inl rfl
  | wakeWorker | wakeMain =>
      dsimp only [Daemon.next] at hn
      obtain ⟨b, hb, rfl⟩ := Option.map_eq_some_iff.mp hn
      exact .inr ⟨_, hb⟩

/-- The buffer is in a state of one of its own runs. -/
theorem ring_of_reach (h : (daemon cap).Reach Machine.Always x) :
    (Buffering.machine ℕ cap).Reach Machine.Always x.ring := by
  refine h.invariant (P := fun x => (Buffering.machine ℕ cap).Reach Machine.Always x.ring)
    (fun x hx => .start hx.2.1) fun x l y hr _ hn => ?_
  rcases calls_of_next hn with heq | ⟨e, he⟩
  · rwa [heq]
  · exact hr.step trivial he

end Steps

/-! ## The supervisor returns -/

section Fair

open Machine

variable {x : ℕ → Daemon} {a : ℕ → DaemonStep}

theorem supervisor_of_thread {l : DaemonStep} (h : l.thread = some .supervisor) :
    ∃ n, l = .supervisor n := by
  cases l with
  | supervisor n => exact ⟨n, rfl⟩
  | worker | signal | main | sigterm | world | wakeWorker | wakeMain => cases h

theorem signal_of_thread {l : DaemonStep} (h : l.thread = some .signal) : l = .signal := by
  cases l with
  | signal => rfl
  | supervisor | worker | main | sigterm | world | wakeWorker | wakeMain => cases h

/-- The signal thread posts `Stop`, and the supervisor will come to it. -/
theorem leads_posted (h : (daemon cap).FairRun DaemonStep.thread x a) :
    Leads x (fun s => s.signal = .received)
      (fun s => s.signal = .joiningSupervisor ∧ ∃ k, Comes Ended k s.run) := by
  have hposted : ∀ s t, (daemon cap).Reach Always s → s.signal = .received →
      s.signalNext cap = some t → t.signal = .joiningSupervisor ∧ ∃ k, Comes Ended k t.run := by
    intro s t hs hsignal hn
    obtain ⟨hrun, hring⟩ := ok_of_reach hs
    obtain ⟨hpost, hsig, hok, -⟩ := received hrun hring hsignal hn
    have hqueue : s.run.svc.queue ++ [.stop] <+: t.run.svc.queue := by
      rw [← Option.some.inj hpost]
      exact List.prefix_rfl
    exact ⟨hsig, _, comes_ended s.run.svc.queue hok.supervised.sup hqueue⟩
  refine h.ensures .signal (fun s l t hs hsignal hn => ?_) fun s l hs hsignal hl => ?_
  · by_cases hl : l = .signal
    · subst hl
      exact .inl (hposted s t hs hsignal hn)
    · exact .inr ((signal_next (by rw [hsignal]; decide) hl hn).trans hsignal)
  · obtain rfl := signal_of_thread hl
    obtain ⟨t, ht⟩ : ∃ t, s.signalNext cap = some t := by
      unfold signalNext
      simp only [hsignal]
      split <;> exact ⟨_, rfl⟩
    exact ⟨t, ht, hposted s t hs hsignal ht⟩

/-- The supervisor takes its next step from `r`, whatever the others do before. -/
theorem supervisor_steps (h : (daemon cap).FairRun DaemonStep.thread x a) {r : Running}
    {N : Running → Prop}
    (hnext : ∀ es y, deviceService.Run Aside r es y → ¬ y.Returned ∧ ∀ n, ∃ z,
      (y.next (.supervisor n) <|> y.next .dequeue <|> y.next .idle) = some z ∧ N z) {n : ℕ}
    (hr : (x n).run = r) (hsignal : (x n).signal = .joiningSupervisor) :
    ∃ m, n ≤ m ∧ (x m).signal = .joiningSupervisor ∧ N (x m).run := by
  have hact : ∀ (s : Daemon) es n, s.signal = .joiningSupervisor →
      deviceService.Run Aside r es s.run →
      ∃ t, s.next cap (.supervisor n) = some t ∧ t.signal = .joiningSupervisor ∧ N t.run := by
    intro s es n hsignal hr
    obtain ⟨hret, hz⟩ := hnext es _ hr
    obtain ⟨z, hz, hN⟩ := hz n
    refine ⟨{ s with run := z }, ?_, hsignal, hN⟩
    show s.superviseNext n = _
    rw [superviseNext, if_neg hret, hz]
    rfl
  have hleads : Leads x
      (fun s => s.signal = .joiningSupervisor ∧ ∃ es, deviceService.Run Aside r es s.run)
      (fun s => s.signal = .joiningSupervisor ∧ N s.run) := by
    refine h.ensures .supervisor ?_ ?_
    · rintro s l t hs ⟨hsignal, es, hr⟩ hn
      by_cases hl : ∃ n, l = .supervisor n
      · obtain ⟨n, rfl⟩ := hl
        obtain ⟨t', ht', hq⟩ := hact s es n hsignal hr
        obtain rfl : t' = t := Option.some.inj (ht'.symm.trans hn)
        exact .inl hq
      refine .inr ⟨?_, ?_⟩
      · by_cases hsig : l = .signal
        · subst hsig
          -- the signal thread waits
          change s.signalNext cap = some t at hn
          simp only [signalNext, hsignal, if_neg (hnext es _ hr).1] at hn
          cases hn
        · exact (signal_next (by rw [hsignal]; decide) hsig hn).trans hsignal
      · have hstage : s.signal.stage < 7 := by rw [hsignal]; decide
        have hl : ∀ n, l ≠ .supervisor n := fun n hn => hl ⟨n, hn⟩
        rcases aside_next (ok_of_reach hs).1 hl hstage hn with heq | ⟨e, he, hr'⟩
        · exact ⟨es, heq ▸ hr⟩
        · exact ⟨es ++ [e], .snoc hr he hr'⟩
    · rintro s l hs ⟨hsignal, es, hr⟩ hl
      obtain ⟨n, rfl⟩ := supervisor_of_thread hl
      exact hact s es n hsignal hr
  have hstart : deviceService.Run Aside r [] (x n).run := by
    rw [hr]
    exact .nil _
  exact hleads n ⟨hsignal, [], hstart⟩

/-- The supervisor returns. -/
theorem supervisor_returns (h : (daemon cap).FairRun DaemonStep.thread x a) {k : ℕ} {r : Running}
    (hc : Comes Ended k r) : ∀ n, (x n).run = r → (x n).signal = .joiningSupervisor →
      ∃ m, n ≤ m ∧ (x m).signal = .joiningSupervisor ∧ (x m).run.Returned := by
  induction hc with
  | rest hret hq =>
      intro n hr hsignal
      exact ⟨n, Nat.le_refl n, hsignal, by rw [hr]; exact ⟨hret, hq.1⟩⟩
  | @apply k r enabled _ ih =>
      intro n hr hsignal
      have hnext : ∀ es y, deviceService.Run Aside r es y → ¬ y.Returned ∧ ∀ i, ∃ z,
          (y.next (.supervisor i) <|> y.next .dequeue <|> y.next .idle) = some z ∧
          ∃ es y i, deviceService.Run Aside r es y ∧ y.next (.supervisor i) = some z := by
        intro es y hy
        refine ⟨fun hret => ?_, fun i => ?_⟩
        · -- a program that has returned takes no step
          have hen := enabled es y hy 0
          dsimp only [Running.next] at hen
          rw [Prog.eq_ret_of_returned hret.1] at hen
          cases hen
        · obtain ⟨z, hz⟩ := Option.isSome_iff_exists.mp (enabled es y hy i)
          exact ⟨z, by rw [hz]; rfl, es, y, i, hy, hz⟩
      obtain ⟨m, hm, hsig, es, y, i, hy, hz⟩ := supervisor_steps h hnext hr hsignal
      obtain ⟨m', hm', hdone⟩ := ih es y hy i _ hz m rfl hsig
      exact ⟨m', hm.trans hm', hdone⟩
  | @dequeue k r enabled _ ih =>
      intro n hr hsignal
      have hnext : ∀ es y, deviceService.Run Aside r es y → ¬ y.Returned ∧ ∀ i, ∃ z,
          (y.next (.supervisor i) <|> y.next .dequeue <|> y.next .idle) = some z ∧
          ∃ es y, deviceService.Run Aside r es y ∧ y.next .dequeue = some z := by
        intro es y hy
        obtain ⟨z, hz⟩ := Option.isSome_iff_exists.mp (enabled es y hy).1
        have hidle : y.thread.returned = true ∧ y.svc.state ≠ .stopped := by
          dsimp only [Running.next] at hz
          split at hz
          · assumption
          · cases hz
        refine ⟨fun hret => hidle.2 hret.2, fun i => ⟨z, ?_, es, y, hy, hz⟩⟩
        have hstep : y.next (.supervisor i) = none := by
          dsimp only [Running.next]
          rw [Prog.eq_ret_of_returned hidle.1]
          rfl
        rw [hstep, hz]
        rfl
      obtain ⟨m, hm, hsig, es, y, hy, hz⟩ := supervisor_steps h hnext hr hsignal
      obtain ⟨m', hm', hdone⟩ := ih es y hy _ hz m rfl hsig
      exact ⟨m', hm.trans hm', hdone⟩

/-! ## The signal thread goes on -/

theorem stage_le {x y : Daemon} {l : DaemonStep} (h1 : 1 ≤ x.signal.stage)
    (hn : x.next cap l = some y) : x.signal.stage ≤ y.signal.stage := by
  by_cases hl : l = .signal
  · subst hl
    exact Nat.le_of_lt (Nat.lt_of_lt_of_eq (Nat.lt_succ_self _) (signalNext_moves hn).1.symm)
  · have hsignal : x.signal ≠ .waiting := by
      intro hs
      rw [hs] at h1
      exact absurd h1 (by decide)
    rw [signal_next hsignal hl hn]

/-- Between the supervisor's end and the request to the acquisition thread nothing keeps the signal
thread from its next step. -/
theorem signal_enabled (cap : ℕ) {x : Daemon} (hr : x.RingOk) (hret : x.run.Returned)
    (h2 : 2 ≤ x.signal.stage) (h7 : x.signal.stage < 7) : ∃ y, x.signalNext cap = some y := by
  unfold signalNext
  cases hs : x.signal with
  | waiting | received =>
      rw [hs] at h2
      exact absurd h2 (by decide)
  | joiningSupervisor => exact ⟨_, if_pos hret⟩
  | stopping | requesting => exact ⟨_, rfl⟩
  | notifyingEmpty =>
      dsimp only [Buffering.next]
      rw [if_neg (hr.empty hs)]
      exact ⟨_, rfl⟩
  | notifyingFull =>
      dsimp only [Buffering.next]
      rw [if_neg (hr.full hs)]
      exact ⟨_, rfl⟩
  | joiningWorker | done =>
      rw [hs] at h7
      exact absurd h7 (by decide)

theorem leads_requested (h : (daemon cap).FairRun DaemonStep.thread x a) :
    Leads x (fun s => s.signal = .joiningSupervisor ∧ s.run.Returned)
      (fun s => 7 ≤ s.signal.stage) := by
  have hleads : Leads x (fun s => s.run.Returned ∧ 2 ≤ s.signal.stage ∧ s.signal.stage < 7)
      (fun s => 7 ≤ s.signal.stage) := by
    refine h.variant .signal (fun s => 7 - s.signal.stage) ?_ ?_
    · rintro s l t hs ⟨hret, h2, h7⟩ hn
      have hret' := returned_next (ok_of_reach hs).1 hret hn
      have hle := stage_le (by omega) hn
      by_cases ht : 7 ≤ t.signal.stage
      · exact .inl ht
      · exact .inr ⟨⟨hret', by omega, by omega⟩, by omega⟩
    · rintro s l hs ⟨hret, h2, h7⟩ hl
      obtain rfl := signal_of_thread hl
      obtain ⟨hrun, hring⟩ := ok_of_reach hs
      obtain ⟨t, ht⟩ := signal_enabled cap hring hret h2 h7
      have hret' := returned_next hrun hret (l := .signal) ht
      have hstage := (signalNext_moves ht).1
      refine ⟨t, ht, ?_⟩
      by_cases h6 : 7 ≤ t.signal.stage
      · exact .inl h6
      · exact .inr ⟨⟨hret', by omega, by omega⟩, by omega⟩
  rintro n ⟨hsignal, hret⟩
  exact hleads n ⟨hret, by rw [hsignal]; decide, by rw [hsignal]; decide⟩

/-! ## The acquisition thread ends -/

/-- How far the acquisition thread is from the test of `stop_requested_`. -/
def workerRank (x : Daemon) : ℕ :=
  match x.run.svc.worker.pc with
  | .gone => 0
  | .holding _ => 8
  | .counted => 7
  | .observing _ => 6
  | .waiting =>
      match x.loop with
      | .looping => 1
      | .ready => 9
      | .pushing _ => 5
      | .inPush =>
          match x.ring.producer with
          | .idle => 2
          | .notifying => 3
          | .locking _ | .asleep _ => 4

theorem producer_wake {p : ProducerPc ℕ} (h : ∀ item, p ≠ .asleep item) : p.wake = p := by
  cases p with
  | asleep item => exact absurd rfl (h item)
  | idle | locking | notifying => rfl

theorem consumer_wake {c : ConsumerPc} (h : c ≠ .asleep) : c.wake = c := by
  cases c with
  | asleep => exact absurd rfl h
  | idle | locking | notifying => rfl

/-- The others leave the acquisition thread where it is. -/
theorem worker_next {x y : Daemon} {l : DaemonStep} (h : x.RunOk) (hr : x.RingOk)
    (h7 : 7 ≤ x.signal.stage) (hl : ∀ n, l ≠ .worker n) (hn : x.next cap l = some y) :
    y.run.svc.worker = x.run.svc.worker ∧ y.loop = x.loop ∧
      y.ring.producer = x.ring.producer := by
  have hawake := producer_wake (hr.producer (Nat.le_trans (by decide) h7))
  cases l with
  | supervisor n =>
      exact absurd (h.joined (Nat.le_trans (by decide) h7)) (supervisorMove_of_next hn).1
  | worker n => exact absurd rfl (hl n)
  | signal =>
      obtain rfl := signalNext_last h7 hn
      exact ⟨rfl, rfl, rfl⟩
  | main =>
      obtain ⟨b, main, hside, -, rfl⟩ := mainNext_eq hn
      rcases hside.producer with hp | hp
      · exact ⟨rfl, rfl, hp⟩
      · exact ⟨rfl, rfl, hp.trans hawake⟩
  | sigterm =>
      obtain ⟨-, rfl⟩ := sigterm_of_next hn
      exact ⟨rfl, rfl, rfl⟩
  | world e =>
      obtain ⟨he, r, hrun, rfl⟩ := world_of_next hn
      obtain ⟨hplant, -⟩ := next_aside (aside_of_world he) hrun
      exact ⟨(plant_world he hplant).2.1, rfl, rfl⟩
  | wakeWorker =>
      cases hn
      exact ⟨rfl, rfl, hawake⟩
  | wakeMain =>
      cases hn
      exact ⟨rfl, rfl, rfl⟩

/-- In the loop of `AcquisitionWorker::run`. -/
theorem loop_acts (cap : ℕ) {x : Daemon} (h : x.RunOk) (hr : x.RingOk) (h7 : 7 ≤ x.signal.stage)
    (hpc : x.run.svc.worker.pc = .waiting) (n : ℕ) : ∃ y, x.loopNext cap n = some y ∧
      (y.run.svc.worker.pc = .gone ∨ y.workerRank < x.workerRank) := by
  have hstop : x.stopRequested = true := h.requested.mpr h7
  have hstopped : x.ring.ring.stopped = true := hr.stopped.mpr (Nat.le_trans (by decide) h7)
  have hawake := hr.producer (Nat.le_trans (by decide) h7)
  cases hloop : x.loop with
  | looping =>
      simp only [loopNext, hloop, hstop, if_true]
      exact ⟨_, rfl, .inl rfl⟩
  | ready =>
      by_cases hn : n = 0
      · -- there is a sample to read
        obtain ⟨t, rest, hk⟩ := List.exists_cons_of_ne_nil (h.ready hloop)
        simp only [loopNext, hloop, hn, ne_eq, not_true, if_false, hk, Running.next,
          Running.plant, hpc]
        refine ⟨_, rfl, .inr ?_⟩
        simp only [workerRank, hpc, hloop]
        decide
      · simp only [loopNext, hloop, ne_eq, hn, not_false_eq_true, if_true, Running.next,
          Running.plant, hpc]
        exact ⟨_, rfl, .inl rfl⟩
  | pushing t =>
      have hidle : x.ring.producer = .idle := hr.pushing.resolve_left (by rw [hloop]; exact nofun)
      simp only [loopNext, hloop, Buffering.next, hidle]
      refine ⟨_, rfl, .inr ?_⟩
      simp only [workerRank, hpc, hloop]
      decide
  | inPush =>
      cases hp : x.ring.producer with
      | asleep item => exact absurd hp (hawake item)
      | idle =>
          simp only [loopNext, hloop, hp]
          refine ⟨_, rfl, .inr ?_⟩
          simp only [workerRank, hpc, hloop, hp]
          decide
      | locking item =>
          -- a stopped buffer refuses the sample
          simp only [loopNext, hloop, hp, Buffering.next, Buffering.pushLock,
            push_stopped hstopped]
          refine ⟨_, rfl, .inr ?_⟩
          simp only [workerRank, hpc, hloop, hp]
          decide
      | notifying =>
          simp only [loopNext, hloop, hp, Buffering.next]
          refine ⟨_, rfl, .inr ?_⟩
          simp only [workerRank, hpc, hloop, hp]
          decide

/-- The acquisition thread is asked to stop, and nothing keeps it from doing so. -/
theorem worker_acts (cap : ℕ) {x : Daemon} (h : x.RunOk) (hr : x.RingOk) (h7 : 7 ≤ x.signal.stage)
    (hpc : x.run.svc.worker.pc ≠ .gone) (n : ℕ) : ∃ y, x.workerNext cap n = some y ∧
      (y.run.svc.worker.pc = .gone ∨ y.workerRank < x.workerRank) := by
  have hpushing : x.run.svc.worker.pc ≠ .waiting → ∃ t, x.loop = .pushing t :=
    fun hw => (h.handling.resolve_left hw).resolve_left hpc
  unfold workerNext
  cases hw : x.run.svc.worker.pc with
  | gone => exact absurd hw hpc
  | waiting => exact loop_acts cap h hr h7 hw n
  | holding t =>
      simp only [Running.next, Running.plant, hw]
      refine ⟨_, rfl, .inr ?_⟩
      simp only [workerRank, hw]
      decide
  | counted =>
      obtain ⟨t, hloop⟩ := hpushing (by rw [hw]; exact nofun)
      simp only [Running.next, Running.plant, hw]
      refine ⟨_, rfl, .inr ?_⟩
      by_cases hcal : x.run.svc.worker.calibrator = true
      · simp only [workerRank, hw, hcal, if_true]
        decide
      · rw [if_neg hcal]
        simp only [workerRank, hw, hloop]
        decide
  | observing st =>
      obtain ⟨t, hloop⟩ := hpushing (by rw [hw]; exact nofun)
      simp only [Running.next, Running.plant, hw]
      refine ⟨_, rfl, .inr ?_⟩
      simp only [workerRank, hw, hloop]
      decide

theorem worker_of_thread {l : DaemonStep} (h : l.thread = some .worker) :
    ∃ n, l = .worker n := by
  cases l with
  | worker n => exact ⟨n, rfl⟩
  | supervisor | signal | main | sigterm | world | wakeWorker | wakeMain => cases h

theorem main_of_thread {l : DaemonStep} (h : l.thread = some .main) : l = .main := by
  cases l with
  | main => rfl
  | supervisor | worker | signal | sigterm | world | wakeWorker | wakeMain => cases h

theorem leads_gone (h : (daemon cap).FairRun DaemonStep.thread x a) :
    Leads x (fun s => 7 ≤ s.signal.stage)
      (fun s => 7 ≤ s.signal.stage ∧ s.run.svc.worker.pc = .gone) := by
  have hact : ∀ s n, (daemon cap).Reach Always s → 7 ≤ s.signal.stage →
      s.run.svc.worker.pc ≠ .gone → ∃ t, s.next cap (.worker n) = some t ∧
        7 ≤ t.signal.stage ∧ (t.run.svc.worker.pc = .gone ∨ t.workerRank < s.workerRank) := by
    intro s n hs h7 hpc
    obtain ⟨hrun, hring⟩ := ok_of_reach hs
    obtain ⟨t, ht, hrank⟩ := worker_acts cap hrun hring h7 hpc n
    exact ⟨t, ht, h7.trans (stage_le (Nat.le_trans (by decide) h7) (l := .worker n) ht), hrank⟩
  have hleads : Leads x (fun s => 7 ≤ s.signal.stage ∧ s.run.svc.worker.pc ≠ .gone)
      (fun s => 7 ≤ s.signal.stage ∧ s.run.svc.worker.pc = .gone) := by
    refine h.variant .worker workerRank ?_ ?_
    · rintro s l t hs ⟨h7, hpc⟩ hn
      by_cases hl : ∃ n, l = .worker n
      · obtain ⟨n, rfl⟩ := hl
        obtain ⟨t', ht', h7', hrank⟩ := hact s n hs h7 hpc
        obtain rfl : t' = t := Option.some.inj (ht'.symm.trans hn)
        by_cases hgone : t'.run.svc.worker.pc = .gone
        · exact .inl ⟨h7', hgone⟩
        · exact .inr ⟨⟨h7', hgone⟩, Nat.le_of_lt (hrank.resolve_left hgone)⟩
      · obtain ⟨hrun, hring⟩ := ok_of_reach hs
        obtain ⟨hworker, hloop, hproducer⟩ :=
          worker_next hrun hring h7 (fun n hn => hl ⟨n, hn⟩) hn
        refine .inr ⟨⟨h7.trans (stage_le (Nat.le_trans (by decide) h7) hn), ?_⟩, Nat.le_of_eq ?_⟩
        · rwa [hworker]
        · unfold workerRank
          rw [hworker, hloop, hproducer]
    · rintro s l hs ⟨h7, hpc⟩ hl
      obtain ⟨n, rfl⟩ := worker_of_thread hl
      obtain ⟨t, ht, h7', hrank⟩ := hact s n hs h7 hpc
      refine ⟨t, ht, ?_⟩
      by_cases hgone : t.run.svc.worker.pc = .gone
      · exact .inl ⟨h7', hgone⟩
      · exact .inr ⟨⟨h7', hgone⟩, hrank.resolve_left hgone⟩
  intro n h7
  by_cases hgone : (x n).run.svc.worker.pc = .gone
  · exact ⟨n, Nat.le_refl n, h7, hgone⟩
  · exact hleads n ⟨h7, hgone⟩

/-- The signal thread joins it. -/
theorem leads_joined (h : (daemon cap).FairRun DaemonStep.thread x a) :
    Leads x (fun s => 7 ≤ s.signal.stage ∧ s.run.svc.worker.pc = .gone)
      (fun s => s.signal = .done) := by
  have hact : ∀ s : Daemon, s.signal = .joiningWorker → s.run.svc.worker.pc = .gone →
      s.signalNext cap = some { s with signal := .done } := by
    intro s hsignal hgone
    simp only [signalNext, hsignal, hgone, if_true]
  have hleads : Leads x (fun s => s.signal = .joiningWorker ∧ s.run.svc.worker.pc = .gone)
      (fun s => s.signal = .done) := by
    refine h.ensures .signal ?_ ?_
    · rintro s l t hs ⟨hsignal, hgone⟩ hn
      by_cases hl : l = .signal
      · subst hl
        cases (hact s hsignal hgone).symm.trans hn
        exact .inl rfl
      refine .inr ⟨(signal_next (by rw [hsignal]; decide) hl hn).trans hsignal, ?_⟩
      by_cases hw : ∃ n, l = .worker n
      · -- it takes no step any more
        obtain ⟨n, rfl⟩ := hw
        change s.workerNext cap n = some t at hn
        simp only [workerNext, hgone] at hn
        cases hn
      · obtain ⟨hrun, hring⟩ := ok_of_reach hs
        have h7 : 7 ≤ s.signal.stage := by rw [hsignal]; decide
        rw [(worker_next hrun hring h7 (fun n hn => hw ⟨n, hn⟩) hn).1]
        exact hgone
    · rintro s l hs ⟨hsignal, hgone⟩ hl
      obtain rfl := signal_of_thread hl
      exact ⟨_, hact s hsignal hgone, rfl⟩
  rintro n ⟨h7, hgone⟩
  cases hsignal : (x n).signal with
  | joiningWorker => exact hleads n ⟨hsignal, hgone⟩
  | done => exact ⟨n, Nat.le_refl n, hsignal⟩
  | waiting | received | joiningSupervisor | stopping | notifyingEmpty | notifyingFull
    | requesting =>
      rw [hsignal] at h7
      exact absurd h7 (by decide)

end Fair

end Daemon

end DeviceService
