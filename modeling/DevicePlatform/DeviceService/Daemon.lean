/-
# The threads of the service at its end

Model of the end of `main` (`userspace/device-service/src/main.cpp`): the signal thread, which stops
the supervisor, unblocks the ring buffer and stops the acquisition thread, and the main thread,
which pops samples until the buffer is stopped and then joins the signal thread.  The supervisor
(`Running`) and the ring buffer (`Buffering`) are those of the other modules; the loop of
`AcquisitionWorker::run` is here with its test of `stop_requested_`, its `poll`, its `read` and its
`push`.

`SupervisorMove` and `WorkerMove` say what a step of the supervisor and of the acquisition thread
can be.
-/
import DevicePlatform.DeviceService.Agreement
import DevicePlatform.DeviceService.RingBuffer
import Mathlib.Data.Option.Basic

namespace DeviceService

open Supervisor

/-! ## The threads -/

/-- Where `AcquisitionWorker::run` is when the acquisition thread has no sample that it has yet to
count. -/
inductive WorkerLoop where
  /-- At the test of `stop_requested_`. -/
  | looping
  /-- `wait_readable` has returned true. -/
  | ready
  /-- The sample is to be pushed. -/
  | pushing (sample : ℕ)
  | inPush
  deriving DecidableEq, Repr

/-- The signal thread. -/
inductive SignalThread where
  | waiting
  | received
  | joiningSupervisor
  /-- The three steps of `buffer.stop()`. -/
  | stopping
  | notifyingEmpty
  | notifyingFull
  /-- The two steps of `worker.stop()`. -/
  | requesting
  | joiningWorker
  | done
  deriving DecidableEq, Repr

/-- The end of `main`. -/
inductive MainThread where
  | looping
  | inPop
  | joining
  | done
  deriving DecidableEq, Repr

/-- The process. -/
structure Daemon where
  run : Running
  ring : Buffering ℕ
  loop : WorkerLoop
  stopRequested : Bool
  signal : SignalThread
  main : MainThread

inductive Thread where
  | supervisor
  | worker
  | signal
  | main
  deriving DecidableEq, Repr

inductive DaemonStep where
  | supervisor (n : ℕ)
  /-- `n` is 0 if the call of the device is successful. -/
  | worker (n : ℕ)
  | signal
  | main
  /-- The signal comes. -/
  | sigterm
  /-- The other threads post events, time passes, and samples come from the MCU. -/
  | world (e : Happening)
  /-- A wait ends for no reason. -/
  | wakeWorker
  | wakeMain
  deriving DecidableEq, Repr

/-- Whose step it is. -/
def DaemonStep.thread : DaemonStep → Option Thread
  | .supervisor _ => some .supervisor
  | .worker _ => some .worker
  | .signal => some .signal
  | .main => some .main
  | _ => none

/-- What happens outside the four threads.  Nobody but `Supervisor::stop` posts `Stop`. -/
def Happening.isWorld : Happening → Bool
  | .post e => e != .stop
  | .tick _ | .sample | .fetch | .store | .lose => true
  | _ => false

/-- `Supervisor::run` has returned. -/
def Running.Returned (r : Running) : Prop := r.thread.returned = true ∧ r.svc.state = .stopped

instance (r : Running) : Decidable r.Returned := inferInstanceAs (Decidable (_ ∧ _))

namespace Daemon

/-- A step of the supervisor. -/
def superviseNext (x : Daemon) (n : ℕ) : Option Daemon :=
  if x.run.Returned then none
  else (x.run.next (.supervisor n) <|> x.run.next .dequeue <|> x.run.next .idle).map
    fun r => { x with run := r }

/-- `AcquisitionWorker::run` when there is no sample in hand. -/
def loopNext (cap : ℕ) (x : Daemon) (n : ℕ) : Option Daemon :=
  match x.loop with
  | .looping =>
      if x.stopRequested then
        some { x with run := { x.run with svc := { x.run.svc with
          worker := { x.run.svc.worker with pc := .gone } } } }
      else if n ≠ 0 then (x.run.next .workerDie).map fun r => { x with run := r }
      -- `poll` has timed out
      else if x.run.svc.pipeline.kfifo = [] then none
      else some { x with loop := .ready }
  | .ready =>
      if n ≠ 0 then (x.run.next .workerDie).map fun r => { x with run := r, loop := .looping }
      else
        match x.run.svc.pipeline.kfifo with
        | t :: _ => (x.run.next .workerRead).map fun r => { x with run := r, loop := .pushing t }
        -- `read` blocks
        | [] => none
  | .pushing t =>
      (x.ring.next cap (.push t)).map fun b => { x with ring := b, loop := .inPush }
  | .inPush =>
      match x.ring.producer with
      | .idle => some { x with loop := .looping }
      | .locking _ => (x.ring.next cap .pushLock).map fun b => { x with ring := b }
      | .asleep _ => none
      | .notifying => (x.ring.next cap .pushNotify).map fun b => { x with ring := b }

/-- A step of the acquisition thread. -/
def workerNext (cap : ℕ) (x : Daemon) (n : ℕ) : Option Daemon :=
  match x.run.svc.worker.pc with
  | .waiting => x.loopNext cap n
  | .holding _ => (x.run.next .workerCount).map fun r => { x with run := r }
  | .counted => (x.run.next .workerLoad).map fun r => { x with run := r }
  | .observing _ => (x.run.next .workerObserve).map fun r => { x with run := r }
  | .gone => none

/-- A step of the signal thread. -/
def signalNext (cap : ℕ) (x : Daemon) : Option Daemon :=
  match x.signal with
  | .waiting => none
  | .received =>
      -- `supervisor.stop()`
      if x.run.svc.state ≠ .stopped then
        (x.run.next (.post .stop)).map fun r =>
          { x with run := r, signal := .joiningSupervisor }
      else some { x with signal := .joiningSupervisor }
  | .joiningSupervisor =>
      if x.run.Returned then some { x with signal := .stopping } else none
  | .stopping =>
      (x.ring.next cap .stop).map fun b => { x with ring := b, signal := .notifyingEmpty }
  | .notifyingEmpty => (x.ring.next cap .stopNotifyNotEmpty).map fun b =>
      { x with ring := b, signal := .notifyingFull }
  | .notifyingFull => (x.ring.next cap .stopNotifyNotFull).map fun b =>
      { x with ring := b, signal := .requesting }
  | .requesting => some { x with stopRequested := true, signal := .joiningWorker }
  | .joiningWorker =>
      if x.run.svc.worker.pc = .gone then some { x with signal := .done } else none
  | .done => none

/-- A step of the main thread. -/
def mainNext (cap : ℕ) (x : Daemon) : Option Daemon :=
  match x.main with
  | .looping => (x.ring.next cap .pop).map fun b => { x with ring := b, main := .inPop }
  | .inPop =>
      match x.ring.consumer with
      | .locking => (x.ring.next cap .popLock).map fun b =>
          -- `pop` returns false without a notification
          { x with ring := b, main := if b.consumer = .idle then .joining else .inPop }
      | .notifying => (x.ring.next cap .popNotify).map fun b =>
          { x with ring := b, main := .looping }
      | _ => none
  | .joining => if x.signal = .done then some { x with main := .done } else none
  | .done => none

/-- The next state. -/
def next (cap : ℕ) (x : Daemon) : DaemonStep → Option Daemon
  | .supervisor n => x.superviseNext n
  | .worker n => x.workerNext cap n
  | .signal => x.signalNext cap
  | .main => x.mainNext cap
  | .sigterm =>
      match x.signal with
      | .waiting => some { x with signal := .received }
      | _ => none
  | .world e =>
      if e.isWorld then (x.run.next e).map fun r => { x with run := r } else none
  | .wakeWorker => (x.ring.next cap .pushWake).map fun b => { x with ring := b }
  | .wakeMain => (x.ring.next cap .popWake).map fun b => { x with ring := b }

end Daemon

/-- The process, from the time on when its threads have been started. -/
def daemon (cap : ℕ) : Machine Daemon DaemonStep where
  init x := deviceService.init x.run ∧ (Buffering.machine ℕ cap).init x.ring ∧ x.loop = .looping ∧
    x.stopRequested = false ∧ x.signal = .waiting ∧ x.main = .looping
  next := Daemon.next cap

/-! ## What the supervisor leaves alone -/

/-- A step of the supervisor takes no sample and posts no event; it may start the acquisition thread
again. -/
structure Spares (s t : Service) : Prop where
  pending : t.stopPending = s.stopPending
  queue : t.queue = s.queue
  kfifo : t.pipeline.kfifo = s.pipeline.kfifo
  pc : t.worker.pc = s.worker.pc ∨ t.worker.pc = .waiting

/-- `Stopped` comes from a `Stop`. -/
def marking : Protocol Service where
  inv s := s.state = .stopped → s.stopPending = true
  rely s t := t.state = s.state ∧ (s.stopPending = true → t.stopPending = true)
  guar := Spares
  assumed _ := True
  total := False
  rely_refl _ := ⟨rfl, id⟩
  rely_trans h h' := ⟨h'.1.trans h.1, fun hs => h'.2 (h.2 hs)⟩
  guar_refl _ := ⟨rfl, rfl, rfl, .inl rfl⟩

section Marking

open Prog

variable {s : Service} {α : Type}

theorem kfifo_control (p : Pipeline) (v : Bool) : (p.control v).kfifo = p.kfifo := by
  cases v <;> rfl

theorem Works.spares {t : Service} (h : Works s t) : Spares s t := by
  refine ⟨h.pending, h.queue, ?_, h.pc⟩
  rcases h.pipeline with hp | ⟨v, hp⟩
  · rw [hp]
  · rw [hp, kfifo_control]

theorem Works.marked {t : Service} (h : Works s t) (hs : marking.inv s) : marking.inv t := by
  intro ht
  rw [h.pending]
  exact hs (h.state.symm.trans ht)

/-- A procedure that makes no transition. -/
theorem wp_works {p : Prog Service α} (h : p.Within Works) : p.wp marking (fun _ _ => True) s := by
  have hpartial : ¬ marking.total := id
  refine wp_of_within (fun _ => True) hpartial h ?_ (fun _ _ _ _ _ => trivial) trivial
  exact fun t u _ hi ht => ⟨trivial, ht.marked hi, ht.spares⟩

/-! ### No procedure is followed up by `Stop` -/

theorem runRecovery_marks : runRecovery.wp marking (fun next _ => next ≠ some .stop) s := by
  have hpartial : ¬ marking.total := id
  refine wp_last (wp_loop (fun _ _ => True) hpartial (fun _ _ _ _ _ _ => trivial) trivial
    fun n t _ => ?_)
  refine wp_read fun u _ _ => ?_
  split
  · refine wp_read fun v _ _ => ?_
    split
    · exact nofun
    refine wp_write fun w _ hi _ => ⟨hi, ⟨rfl, rfl, rfl, .inl rfl⟩, ?_⟩
    refine wp_seq (wp_works tryRecovery_works) fun o y _ => ?_
    refine wp_write fun z _ hi _ => ⟨hi, ⟨rfl, rfl, rfl, .inl rfl⟩, ?_⟩
    cases o with
    | recovered => exact nofun
    | interrupted => exact nofun
    | failed =>
        dsimp only
        split
        · refine wp_seq (wp_works (sleep_works _)) fun go _ _ => ?_
          split
          · trivial
          · exact nofun
        · trivial
  · exact nofun

theorem runCalibration_marks : runCalibration.wp marking (fun next _ => next ≠ some .stop) s := by
  refine wp_choose fun n => ?_
  split
  · exact nofun
  refine wp_write fun t _ hi _ => ⟨hi, ⟨rfl, rfl, rfl, .inl rfl⟩, wp_choose fun n => ?_⟩
  refine wp_update fun u _ hi _ => ?_
  split
  · refine ⟨hi, ⟨rfl, rfl, kfifo_control _ true, .inl rfl⟩, wp_read fun v _ _ => ?_⟩
    refine wp_seq (wp_works (awaitCalibration_works _ _)) fun interrupted w _ => ?_
    refine wp_write fun y _ hi _ => ⟨hi, ⟨rfl, rfl, rfl, .inl rfl⟩, ?_⟩
    refine wp_seq (wp_works (writeControl_works _)) fun stopped z _ => ?_
    split
    · refine wp_read fun _ _ _ => ?_
      split
      · exact nofun
      · split <;> exact nofun
    · exact nofun
  · exact ⟨hi, ⟨rfl, rfl, rfl, .inl rfl⟩, nofun⟩

theorem enter_marks (target : State) :
    (enter target).wp marking (fun next _ => next ≠ some .stop) s := by
  cases target with
  | calibrating => exact runCalibration_marks
  | recovering => exact runRecovery_marks
  | fault =>
      exact wp_seq (wp_works enterFault_works) fun _ _ _ => nofun
  | init | ready | running | paused | stopped => exact nofun

/-- An event is applied; if it is `Stop`, it was posted. -/
theorem apply_marks {e : Event} (he : e = .stop → s.stopPending = true) :
    (apply e).wp marking (fun _ _ => True) s := by
  have hpartial : ¬ marking.total := id
  refine wp_last (wp_loop (fun e t => e = .stop → t.stopPending = true) hpartial
    (fun _ _ _ h hr _ he => hr.2 (h he)) he fun e t he => ?_)
  refine wp_read fun u hr hi => ?_
  have hu : e = .stop → u.stopPending = true := fun h => hr.2 (he h)
  cases ht : transition u.state e with
  | none => trivial
  | some target =>
      -- only `Stop` leads to `Stopped`
      have hstop : target = .stopped → e = .stop := by
        have harrow := arrow_of_transition ht
        generalize u.state = source at harrow
        rintro rfl
        cases harrow
        rfl
      refine wp_seq (R := fun _ v => e = .stop → v.stopPending = true) ?_ fun prepared v hv => ?_
      · refine wp_of_within _ hpartial (prepare_works target _) ?_ ?_ hu
        · intro v w hv hi hvw
          exact ⟨fun h => by rw [hvw.pending]; exact hv h, hvw.marked hi, hvw.spares⟩
        · exact fun v w hv hr _ h => hr.2 (hv h)
      split
      · refine wp_write fun w hr _ _ =>
          ⟨fun h => hr.2 (hv (hstop h)), ⟨rfl, rfl, rfl, .inl rfl⟩, ?_⟩
        refine wp_seq (enter_marks target) fun next y hnext => ?_
        cases next with
        | none => trivial
        | some e' => exact fun h => absurd (congrArg some h) hnext
      · exact nofun

end Marking

/-! ## What the threads can do -/

/-- How far the signal thread has come. -/
def SignalThread.stage : SignalThread → ℕ
  | .waiting => 0
  | .received => 1
  | .joiningSupervisor => 2
  | .stopping => 3
  | .notifyingEmpty => 4
  | .notifyingFull => 5
  | .requesting => 6
  | .joiningWorker => 7
  | .done => 8

/-- The acquisition thread is done with a sample that it has counted, or is on its way. -/
def Happening.isHandling : Happening → Bool
  | .workerCount | .workerLoad | .workerObserve => true
  | _ => false

/-- The steps of `push`, and of `pop`, with a waking for no reason. -/
def BufferEvent.isPush : BufferEvent ℕ → Bool
  | .push _ | .pushLock | .pushNotify | .pushWake => true
  | _ => false

def BufferEvent.isPop : BufferEvent ℕ → Bool
  | .pop | .popLock | .popNotify | .popWake => true
  | _ => false

namespace Daemon

variable {cap : ℕ} {x y : Daemon}

/-- The steps of the supervisor. -/
inductive SupervisorMove (x : Daemon) : Daemon → Prop
  | step {n : ℕ} {r : Running} (h : x.run.next (.supervisor n) = some r) :
      SupervisorMove x { x with run := r }
  | dequeue {r : Running} (h : x.run.next .dequeue = some r) : SupervisorMove x { x with run := r }
  | idle {r : Running} (h : x.run.next .idle = some r) : SupervisorMove x { x with run := r }

/-- The steps of the acquisition thread. -/
inductive WorkerMove (cap : ℕ) (x : Daemon) : Daemon → Prop
  | handle {e : Happening} {r : Running} (he : e.isHandling = true) (h : x.run.next e = some r) :
      WorkerMove cap x { x with run := r }
  | exit (hstop : x.stopRequested = true) (hloop : x.loop = .looping) :
      WorkerMove cap x { x with run := { x.run with svc := { x.run.svc with
        worker := { x.run.svc.worker with pc := .gone } } } }
  | die {r : Running} (hloop : x.loop = .looping ∨ x.loop = .ready)
      (h : x.run.next .workerDie = some r) : WorkerMove cap x { x with run := r, loop := .looping }
  | poll (hloop : x.loop = .looping) (hk : x.run.svc.pipeline.kfifo ≠ []) :
      WorkerMove cap x { x with loop := .ready }
  | read {t : ℕ} {r : Running} (hloop : x.loop = .ready) (h : x.run.next .workerRead = some r) :
      WorkerMove cap x { x with run := r, loop := .pushing t }
  | push {e : BufferEvent ℕ} {b : Buffering ℕ} (he : e.isPush = true)
      (hpc : x.run.svc.worker.pc = .waiting) (h : x.ring.next cap e = some b) :
      WorkerMove cap x { x with ring := b, loop := .inPush }
  | pushed (hpc : x.run.svc.worker.pc = .waiting) (hloop : x.loop = .inPush)
      (hidle : x.ring.producer = .idle) : WorkerMove cap x { x with loop := .looping }

theorem supervisorMove_of_next {n : ℕ} (h : x.superviseNext n = some y) :
    ¬ x.run.Returned ∧ SupervisorMove x y := by
  unfold superviseNext at h
  split at h
  · cases h
  · next hret =>
    obtain ⟨r, hr, rfl⟩ := Option.map_eq_some_iff.mp h
    refine ⟨hret, ?_⟩
    rcases (Option.orElse_eq_some _ _ _).mp hr with hr | ⟨-, hr⟩
    · exact .step hr
    rcases (Option.orElse_eq_some _ _ _).mp hr with hr | ⟨-, hr⟩
    · exact .dequeue hr
    · exact .idle hr

theorem sigterm_of_next (h : x.next cap .sigterm = some y) :
    x.signal = .waiting ∧ y = { x with signal := .received } := by
  dsimp only [Daemon.next] at h
  split at h <;> cases h
  rename_i hsignal
  exact ⟨hsignal, rfl⟩

theorem world_of_next {e : Happening} (h : x.next cap (.world e) = some y) :
    e.isWorld = true ∧ ∃ r, x.run.next e = some r ∧ y = { x with run := r } := by
  dsimp only [Daemon.next] at h
  split at h
  · next he =>
    obtain ⟨r, hr, rfl⟩ := Option.map_eq_some_iff.mp h
    exact ⟨he, r, hr, rfl⟩
  · cases h

theorem workerMove_of_next {n : ℕ} (h : x.workerNext cap n = some y) : WorkerMove cap x y := by
  unfold workerNext at h
  split at h
  case h_2 | h_3 | h_4 =>
    obtain ⟨r, hr, rfl⟩ := Option.map_eq_some_iff.mp h
    exact .handle rfl hr
  case h_5 => cases h
  next hpc =>
  unfold loopNext at h
  split at h
  · next hloop =>
    split_ifs at h with hstop hn hk
    · cases h
      exact .exit hstop hloop
    · obtain ⟨r, hr, rfl⟩ := Option.map_eq_some_iff.mp h
      have hmove : WorkerMove cap x { x with run := r, loop := .looping } := .die (.inl hloop) hr
      rwa [← hloop] at hmove
    · cases h
      exact .poll hloop hk
  · next hloop =>
    split_ifs at h with hn
    · obtain ⟨r, hr, rfl⟩ := Option.map_eq_some_iff.mp h
      exact .die (.inr hloop) hr
    · split at h
      · obtain ⟨r, hr, rfl⟩ := Option.map_eq_some_iff.mp h
        exact .read hloop hr
      · cases h
  · obtain ⟨b, hb, rfl⟩ := Option.map_eq_some_iff.mp h
    exact .push rfl hpc hb
  · next hloop =>
    have hin : ∀ b, { x with ring := b } = { x with ring := b, loop := .inPush } := by
      intro b
      rw [← hloop]
    split at h
    · next hidle =>
      cases h
      exact .pushed hpc hloop hidle
    · obtain ⟨b, hb, rfl⟩ := Option.map_eq_some_iff.mp h
      rw [hin]
      exact .push rfl hpc hb
    · cases h
    · obtain ⟨b, hb, rfl⟩ := Option.map_eq_some_iff.mp h
      rw [hin]
      exact .push rfl hpc hb

end Daemon

end DeviceService
