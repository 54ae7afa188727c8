/-
# The supervisor of the device service

Model of `Supervisor` (`userspace/device-service/src/supervisor.cpp`), of the transition table
(`device_state.cpp`), and of as much of its surroundings as it looks at: the acquisition thread
(`acquisition_worker.cpp`), the driver's kfifo and the MCU.

The supervisor is one thread that takes events from a queue and applies them.  It is a
program (`apply`); the other threads post events, the acquisition thread reads samples or
dies, and time passes, between any two of its steps.  A call of `Device` takes effect or
throws.

A sample is represented by the number of `control=1` writes that the MCU had seen when it took
the sample, so that an old sample can be told from one taken after a soft reset.

`Service.writes` records the writes to `control`, `Service.history` the transitions, and
`Service.fed` the samples that the acquisition thread has fed to the calibrator.
-/
import DevicePlatform.Program
import DevicePlatform.Transition
import Mathlib.Data.BitVec

namespace DeviceService

/-! ## The transition table -/

/-- `State`. -/
inductive State where
  | init
  | ready
  | running
  | paused
  | calibrating
  | recovering
  | fault
  | stopped
  deriving DecidableEq, Repr

/-- `Event`. -/
inductive Event where
  | initOk
  | start
  | pause
  | resume
  | calibrate
  | calibrationDone
  | stall
  | deviceError
  | recovered
  | recoveryFailed
  | reset
  | stop
  deriving DecidableEq, Repr

/-- `transition`. -/
def transition (s : State) (event : Event) : Option State :=
  if event = .stop then if s = .stopped then none else some .stopped
  else
    match s, event with
    | .init, .initOk => some .ready
    | .ready, .start => some .running
    | .ready, .calibrate => some .calibrating
    | .ready, .deviceError => some .fault
    | .running, .pause => some .paused
    | .running, .stall => some .recovering
    | .running, .deviceError => some .fault
    | .paused, .resume => some .running
    | .paused, .calibrate => some .calibrating
    | .paused, .deviceError => some .fault
    | .calibrating, .calibrationDone => some .ready
    | .calibrating, .deviceError => some .fault
    | .recovering, .recovered => some .running
    | .recovering, .recoveryFailed => some .fault
    | .fault, .reset => some .recovering
    | _, _ => none

/-- `Stop` is accepted everywhere. -/
theorem transition_stop {s : State} (h : s ≠ .stopped) : transition s .stop = some .stopped := by
  cases s with
  | stopped => exact absurd rfl h
  | init | ready | running | paused | calibrating | recovering | fault => rfl

/-! ## The state -/

/-- `SupervisorConfig`; times are in milliseconds. -/
structure SupervisorConfig where
  expectedDeviceId : BitVec 32
  maxRecoveryAttempts : ℕ
  recoveryTimeout : ℕ
  recoveryBackoff : ℕ
  calibrationDuration : ℕ
  deriving DecidableEq, Repr

/-- Where the acquisition thread is. -/
inductive WorkerPc where
  /-- Waiting for a sample, or done with the last one. -/
  | waiting
  /-- `read_sample` has returned a sample that `samples_read_` does not count yet. -/
  | holding (sample : ℕ)
  /-- The sample is counted, and `calibrator_` has not been looked at yet. -/
  | counted
  /-- The sample is on its way to the calibrator; `calibrator_` was not null in the state
  `loaded`. -/
  | observing (loaded : State)
  /-- The thread has ended. -/
  | gone
  deriving DecidableEq, Repr

/-- `AcquisitionWorker`. -/
structure Worker where
  pc : WorkerPc
  failed : Bool
  samplesRead : ℕ
  /-- `calibrator_` is not null. -/
  calibrator : Bool
  /-- The state of the supervisor when `read_sample` last returned. -/
  acquiredIn : State
  deriving DecidableEq, Repr

/-- A sample that was fed to the calibrator: the states of the supervisor when it was read, and
when `calibrator_` was looked at. -/
structure Feed where
  acquired : State
  loaded : State
  deriving DecidableEq, Repr

/-- The samples between the MCU and the acquisition thread. -/
structure Pipeline where
  /-- The MCU's `control` bit, and how often it has been written 1. -/
  acquiring : Bool
  starts : ℕ
  mcuFifo : List ℕ
  /-- The sample that the driver has read from the MCU and not stored yet. -/
  inFlight : Option ℕ
  kfifo : List ℕ
  deriving DecidableEq, Repr

/-- A write to `control`, and whether it took effect. -/
structure ControlWrite where
  value : Bool
  ok : Bool
  deriving DecidableEq, Repr

/-- What the attempt in progress has shown. -/
structure Attempt where
  /-- `device_id` was as expected. -/
  idOk : Bool
  /-- The number of the attempt's own `control=1` write. -/
  started : Option ℕ
  /-- The attempt has noted `samples_read` and watches for more. -/
  watching : Bool
  deriving DecidableEq, Repr

/-- A transition.  `proved` says that the attempt before it had read the right `device_id`, and
that a sample had been counted that was taken after the attempt's `control=1`. -/
structure Entry where
  source : State
  target : State
  event : Event
  proved : Bool
  deriving DecidableEq, Repr

/-- The service. -/
structure Service where
  cfg : SupervisorConfig
  state : State
  queue : List Event
  stopPending : Bool
  recoveryAttempts : ℕ
  recoveries : ℕ
  faults : ℕ
  worker : Worker
  pipeline : Pipeline
  clock : ℕ
  /-- The event that `run` is applying. -/
  current : Option Event
  writes : List ControlWrite
  attempt : Attempt
  /-- The samples that `samples_read_` counts. -/
  counted : List ℕ
  history : List Entry
  /-- The samples that were fed to the calibrator, and the calibrations whose
  `start_acquisition` threw. -/
  fed : List Feed
  failedStarts : ℕ
  deriving DecidableEq, Repr

/-- No sample is from the future. -/
structure Pipeline.Past (p : Pipeline) : Prop where
  mcuFifo : ∀ t ∈ p.mcuFifo, t ≤ p.starts
  inFlight : ∀ t ∈ p.inFlight, t ≤ p.starts
  kfifo : ∀ t ∈ p.kfifo, t ≤ p.starts

/-- The MCU on a write to `control`: 1 is a soft reset. -/
def Pipeline.control (p : Pipeline) (v : Bool) : Pipeline :=
  if v then { p with acquiring := true, starts := p.starts + 1, mcuFifo := [] }
  else { p with acquiring := false }

namespace Supervisor

/-! ## Calls of the device -/

/-- `start_acquisition` and `stop_acquisition`; `false` if the call throws. -/
def writeControl (v : Bool) : Prog Service Bool := do
  let n ← Prog.choose
  let ok ← Prog.update fun s =>
    if n = 0 then (true, { s with
      writes := s.writes ++ [⟨v, true⟩]
      pipeline := s.pipeline.control v })
    else (false, { s with writes := s.writes ++ [⟨v, false⟩] })
  return ok

/-- `read_device_id`; `none` if the call throws. -/
def readDeviceId : Prog Service (Option (BitVec 32)) := do
  let n ← Prog.choose
  return if n = 0 then none else some (BitVec.ofNat 32 (n - 1))

/-- `sleep_unless_stopping`. -/
def sleepUnlessStopping (ms : ℕ) : Prog Service Bool := do
  let late ← Prog.choose
  let go ← Prog.update fun s =>
    if s.stopPending then (false, s) else (true, { s with clock := s.clock + ms + late })
  return go

/-! ## Transitions -/

/-- `prepare`; `false` if it throws. -/
def prepare (target source : State) : Prog Service Bool :=
  match target with
  | .running => if source = .ready ∨ source = .paused then writeControl true else return true
  | .paused => writeControl false
  | .stopped => do
      let _ ← writeControl false
      return true
  | _ => return true

/-- `enter_fault`. -/
def enterFault : Prog Service Unit := do
  let _ ← writeControl false
  Prog.write fun s => { s with faults := s.faults + 1 }
  return ()

/-! ## Recovery -/

/-- How an attempt ends. -/
inductive Outcome where
  | recovered
  | interrupted
  | failed
  deriving DecidableEq, Repr

/-- `kPollStep`. -/
def pollStep : ℕ := 20

/-- The loop that waits for samples; `now` is the time at its test. -/
def awaitSamples (before deadline now : ℕ) : Prog Service Outcome :=
  Prog.repeatUntil now fun now =>
    if now < deadline then do
      let flowing ← Prog.read fun s => decide (s.worker.samplesRead > before)
      if flowing then do
        Prog.write fun s => { s with recoveries := s.recoveries + 1 }
        return .inr .recovered
      else do
        let failed ← Prog.read fun s => s.worker.failed
        if failed then return .inr .failed
        else do
          let go ← sleepUnlessStopping pollStep
          if go then do
            let now ← Prog.read fun s => s.clock
            return .inl now
          else return .inr .interrupted
    else return .inr .failed

/-- The soft reset, and waiting for samples. -/
def softReset : Prog Service Outcome := do
  let before ← Prog.update fun s => (s.worker.samplesRead, { s with
    attempt := { s.attempt with watching := true } })
  let stopped ← writeControl false
  if stopped then do
    let n ← Prog.choose
    let started ← Prog.update fun s =>
      if n = 0 then (true, { s with
        writes := s.writes ++ [⟨true, true⟩]
        pipeline := s.pipeline.control true
        attempt := { s.attempt with started := some (s.pipeline.starts + 1) } })
      else (false, { s with writes := s.writes ++ [⟨true, false⟩] })
    if started then do
      let (timeout, now) ← Prog.read fun s => (s.cfg.recoveryTimeout, s.clock)
      awaitSamples before (now + timeout) now
    else return .failed
  else return .failed

/-- The acquisition thread is started again if it has died; `false` if `reopen` throws. -/
def restartWorker : Prog Service Bool := do
  let failed ← Prog.read fun s => s.worker.failed
  if failed then do
    let n ← Prog.choose
    if n = 0 then do
      Prog.write fun s => { s with worker := { s.worker with pc := .waiting, failed := false } }
      return true
    else return false
  else return true

/-- The `try` block of an attempt. -/
def tryRecovery : Prog Service Outcome := do
  let id ← readDeviceId
  match id with
  | none => return .failed
  | some id => do
      let good ← Prog.update fun s =>
        let good := decide (s.cfg.expectedDeviceId = 0 ∨ id = s.cfg.expectedDeviceId)
        (good, { s with attempt := { s.attempt with idOk := good } })
      if good then do
        let ready ← restartWorker
        if ready then softReset else return .failed
      else return .failed

/-- `run_recovery`: the loop over the attempts. -/
def runRecovery : Prog Service (Option Event) :=
  Prog.repeatUntil 1 fun attempt => do
    let cfg ← Prog.read fun s => s.cfg
    if attempt ≤ cfg.maxRecoveryAttempts then do
      let stopping ← Prog.read fun s => s.stopPending
      if stopping then return .inr none
      else do
        Prog.write fun s => { s with
          recoveryAttempts := s.recoveryAttempts + 1
          attempt := ⟨false, none, false⟩ }
        let outcome ← tryRecovery
        Prog.write fun s => { s with attempt := { s.attempt with watching := false } }
        match outcome with
        | .recovered => return .inr (some .recovered)
        | .interrupted => return .inr none
        | .failed =>
            if attempt < cfg.maxRecoveryAttempts then do
              let go ← sleepUnlessStopping (cfg.recoveryBackoff * 2 ^ (attempt - 1))
              if go then return .inl (attempt + 1) else return .inr none
            else return .inl (attempt + 1)
    else return .inr (some .recoveryFailed)

/-! ## Calibration -/

/-- The loop of `run_calibration`; the result is `interrupted`. -/
def awaitCalibration (deadline now : ℕ) : Prog Service Bool :=
  Prog.repeatUntil now fun now =>
    if now < deadline then do
      let failed ← Prog.read fun s => s.worker.failed
      if failed then return .inr true
      else do
        let go ← sleepUnlessStopping (pollStep * 5)
        if go then do
          let now ← Prog.read fun s => s.clock
          return .inl now
        else return .inr true
    else return .inr false

/-- `run_calibration`; an exception becomes `DeviceError` in `apply`. -/
def runCalibration : Prog Service (Option Event) := do
  -- `read_sample_rate`
  let n ← Prog.choose
  if n = 0 then return some .deviceError
  else do
    -- `set_calibrator(&calibrator_)`
    Prog.write fun s => { s with worker := { s.worker with calibrator := true } }
    let n ← Prog.choose
    let started ← Prog.update fun s =>
      if n = 0 then (true, { s with
        writes := s.writes ++ [⟨true, true⟩]
        pipeline := s.pipeline.control true })
      else (false, { s with
        writes := s.writes ++ [⟨true, false⟩]
        failedStarts := s.failedStarts + 1 })
    if started then do
      let (duration, now) ← Prog.read fun s => (s.cfg.calibrationDuration, s.clock)
      let interrupted ← awaitCalibration (now + duration) now
      -- `set_calibrator(nullptr)`
      Prog.write fun s => { s with worker := { s.worker with calibrator := false } }
      let stopped ← writeControl false
      if stopped then do
        let failed ← Prog.read fun s => s.worker.failed
        if failed then return some .deviceError
        else if interrupted then return none
        else return some .calibrationDone
      else return some .deviceError
    else return some .deviceError

/-! ## Applying an event -/

/-- `enter`. -/
def enter (target : State) : Prog Service (Option Event) :=
  match target with
  | .calibrating => runCalibration
  | .recovering => runRecovery
  | .fault => do
      enterFault
      return none
  | _ => return none

/-- The attempt has shown that the device works. -/
def proved (s : Service) : Bool :=
  s.attempt.idOk && s.attempt.started.any fun k => s.counted.any (k ≤ ·)

/-- One round of the loop of `apply`. -/
def applyRound (event : Event) : Prog Service (Event ⊕ Unit) := do
  let source ← Prog.read fun s => s.state
  match transition source event with
  | none => return .inr ()
  | some target => do
      let prepared ← prepare target source
      if prepared then do
        Prog.write fun s => { s with
          state := target
          history := s.history ++ [⟨source, target, event, proved s⟩] }
        let next ← enter target
        match next with
        | none => return .inr ()
        | some event => return .inl event
      else return .inl .deviceError

/-- `apply`. -/
def apply (event : Event) : Prog Service Unit := Prog.repeatUntil event applyRound

end Supervisor

/-! ## The machine -/

/-- The service, and what is left to do of the event being applied. -/
structure Running where
  svc : Service
  thread : Prog Service Unit

inductive Happening where
  /-- A step of the supervisor; `n` is the answer of the device if it calls it. -/
  | supervisor (n : ℕ)
  /-- `run` takes an event from the queue. -/
  | dequeue
  /-- `run` finds the queue empty and the acquisition thread dead. -/
  | idle
  /-- Some thread posts an event. -/
  | post (event : Event)
  /-- Time passes. -/
  | tick (ms : ℕ)
  /-- The MCU takes a sample; the driver reads it, stores it, or loses it. -/
  | sample
  | fetch
  | store
  | lose
  /-- The acquisition thread reads a sample, counts it, looks at `calibrator_`, feeds the sample
  to the calibrator, or dies. -/
  | workerRead
  | workerCount
  | workerLoad
  | workerObserve
  | workerDie
  deriving DecidableEq, Repr

namespace Running

/-- `post`. -/
def post (s : Service) (event : Event) : Service :=
  { s with queue := s.queue ++ [event], stopPending := s.stopPending || event == .stop }

/-- The next state of the pipeline and of the acquisition thread. -/
def plant (s : Service) : Happening → Option Service
  | .sample =>
      if s.pipeline.acquiring then
        some { s with pipeline := { s.pipeline with
          mcuFifo := s.pipeline.mcuFifo ++ [s.pipeline.starts] } }
      else none
  | .fetch =>
      match s.pipeline.mcuFifo, s.pipeline.inFlight with
      | t :: rest, none =>
          some { s with pipeline := { s.pipeline with mcuFifo := rest, inFlight := some t } }
      | _, _ => none
  | .store =>
      match s.pipeline.inFlight with
      | some t =>
          some { s with pipeline := { s.pipeline with
            inFlight := none, kfifo := s.pipeline.kfifo ++ [t] } }
      | none => none
  | .lose => some { s with pipeline := { s.pipeline with inFlight := none } }
  | .workerRead =>
      match s.worker.pc, s.pipeline.kfifo with
      | .waiting, t :: rest =>
          some { s with
            pipeline := { s.pipeline with kfifo := rest }
            worker := { s.worker with pc := .holding t, acquiredIn := s.state } }
      | _, _ => none
  | .workerCount =>
      match s.worker.pc with
      | .holding t =>
          some { s with
            worker := { s.worker with pc := .counted, samplesRead := s.worker.samplesRead + 1 }
            counted := s.counted ++ [t] }
      | _ => none
  | .workerLoad =>
      match s.worker.pc with
      | .counted =>
          some { s with worker := { s.worker with
            pc := if s.worker.calibrator then .observing s.state else .waiting } }
      | _ => none
  | .workerObserve =>
      match s.worker.pc with
      | .observing loaded =>
          some { s with
            worker := { s.worker with pc := .waiting }
            fed := s.fed ++ [⟨s.worker.acquiredIn, loaded⟩] }
      | _ => none
  | .workerDie =>
      if s.worker.pc = .waiting then
        some { s with worker := { s.worker with pc := .gone, failed := true } }
      else none
  | .tick ms => some { s with clock := s.clock + ms }
  | .post event => some (post s event)
  | .supervisor _ | .dequeue | .idle => none

/-- The next state. -/
def next (x : Running) : Happening → Option Running
  | .supervisor n => (x.thread.step n x.svc).map fun (p, s) => ⟨s, p⟩
  | .dequeue =>
      if x.thread.returned ∧ x.svc.state ≠ .stopped then
        match x.svc.queue with
        | [] => none
        | event :: rest =>
            some ⟨{ x.svc with queue := rest, current := some event }, Supervisor.apply event⟩
      else none
  | .idle =>
      if x.thread.returned ∧ x.svc.queue = [] ∧ x.svc.worker.failed ∧
          (x.svc.state = .ready ∨ x.svc.state = .running ∨ x.svc.state = .paused) then
        some ⟨{ x.svc with current := some .deviceError }, Supervisor.apply .deviceError⟩
      else none
  | e => (plant x.svc e).map fun s => { x with svc := s }

/-- The service when the supervisor starts: the acquisition thread runs, and the pipeline may
hold samples from before. -/
def start (cfg : SupervisorConfig) (p : Pipeline) (clock : ℕ) : Running where
  svc :=
    { cfg
      state := .init
      queue := []
      stopPending := false
      recoveryAttempts := 0
      recoveries := 0
      faults := 0
      worker := ⟨.waiting, false, 0, false, .init⟩
      pipeline := p
      clock
      current := none
      writes := []
      attempt := ⟨false, none, false⟩
      counted := []
      history := []
      fed := []
      failedStarts := 0 }
  thread := .ret ()

end Running

/-- The device service. -/
def deviceService : Machine Running Happening where
  init x := ∃ (cfg : SupervisorConfig) (p : Pipeline) (clock : ℕ), p.Past ∧
    x = Running.start cfg p clock
  next := Running.next

end DeviceService
