/-
# The control socket

Model of `ControlServer` and of the commands (`userspace/device-service/src/control_server.cpp`,
`commands.cpp`), with `Supervisor::request` and `Supervisor::status`.  The control thread is a
second program beside the supervisor: it accepts a connection, reads a command, handles it and
writes the reply, while the service goes on (`controlled`).

The thread has no exception handler, and the process has none for `SIGPIPE`.  An unknown command
is quoted in the reply, and the JSON library refuses a string that is not UTF-8: so one byte from
a peer that may only read ends the service (`terminated_by_stray_byte`).  `read_only_harmless`
proves that there is no other way: connections by read-only peers with well-formed commands are
all answered, and the service runs as if they had not happened.
-/
import DevicePlatform.Texts
import DevicePlatform.DeviceService.Supervisor

namespace DeviceService

/-! ## Names and documents -/

/-- `to_string(State)`. -/
def State.name : State → String
  | .init => "Init"
  | .ready => "Ready"
  | .running => "Running"
  | .paused => "Paused"
  | .calibrating => "Calibrating"
  | .recovering => "Recovering"
  | .fault => "Fault"
  | .stopped => "Stopped"

/-- `to_string(Event)`. -/
def Event.name : Event → String
  | .initOk => "InitOk"
  | .start => "Start"
  | .pause => "Pause"
  | .resume => "Resume"
  | .calibrate => "Calibrate"
  | .calibrationDone => "CalibrationDone"
  | .stall => "Stall"
  | .deviceError => "DeviceError"
  | .recovered => "Recovered"
  | .recoveryFailed => "RecoveryFailed"
  | .reset => "Reset"
  | .stop => "Stop"

/-- `CalibrationResult`, with its numbers as they are printed. -/
structure CalibrationReport where
  ok : Bool
  reason : List UInt8
  samples : List UInt8
  nominalHz : List UInt8
  measuredHz : List UInt8
  driftPpm : List UInt8
  durationS : List UInt8
  gaps : List UInt8
  repeatedTimestamps : List UInt8

/-- `HistoryEntry`. -/
structure HistoryEntry where
  time : List UInt8
  source : State
  target : State
  event : Event
  reason : List UInt8

/-- What `status` reads beside the state of the service. -/
structure Report where
  inStateS : List UInt8
  gaps : List UInt8
  sampleAgeEwmaUs : List UInt8
  lastFaultReason : List UInt8
  lastEvidencePath : List UInt8
  lastCalibration : Option CalibrationReport
  history : List HistoryEntry

/-- A counter, as it is printed. -/
def counter (n : ℕ) : Json := .num (toString n).octets

/-- `calibration_json`.  The objects of the library keep their keys in order. -/
def calibrationJson (r : CalibrationReport) : Json :=
  if r.ok then
    .obj [("drift_ppm", .num r.driftPpm), ("duration_s", .num r.durationS), ("gaps", .num r.gaps),
      ("measured_hz", .num r.measuredHz), ("nominal_hz", .num r.nominalHz), ("ok", .bool r.ok),
      ("repeated_timestamps", .num r.repeatedTimestamps), ("samples", .num r.samples)]
  else
    .obj [("duration_s", .num r.durationS), ("gaps", .num r.gaps),
      ("nominal_hz", .num r.nominalHz), ("ok", .bool r.ok), ("reason", .str r.reason),
      ("repeated_timestamps", .num r.repeatedTimestamps), ("samples", .num r.samples)]

/-- `history_json`. -/
def historyJson (history : List HistoryEntry) : Json :=
  .arr (history.map fun e => .obj [("at", .str e.time), ("event", .str e.event.name.octets),
    ("from", .str e.source.name.octets), ("reason", .str e.reason),
    ("to", .str e.target.name.octets)])

/-- The reply to `status`. -/
def status (s : Service) (r : Report) : Json :=
  .obj ([("faults", counter s.faults), ("gaps", .num r.gaps), ("history", historyJson r.history),
      ("in_state_s", .num r.inStateS)] ++
    r.lastCalibration.toList.map (fun c => ("last_calibration", calibrationJson c)) ++
    (if r.lastFaultReason = [] then [] else
      [("last_fault", .obj [("evidence", .str r.lastEvidencePath),
        ("reason", .str r.lastFaultReason)])]) ++
    [("ok", .bool true), ("recoveries", counter s.recoveries),
      ("recovery_attempts", counter s.recoveryAttempts),
      ("sample_age_ewma_us", .num r.sampleAgeEwmaUs),
      ("samples_read", counter s.worker.samplesRead), ("state", .str s.state.name.octets)])

/-- A refusal. -/
def refusal (error : List UInt8) : Json := .obj [("error", .str error), ("ok", .bool false)]

/-! ## Commands -/

/-- `parse_command`. -/
def parseCommand (cmd : List UInt8) : Option Event :=
  if cmd = "start".octets then some .start
  else if cmd = "pause".octets then some .pause
  else if cmd = "resume".octets then some .resume
  else if cmd = "calibrate".octets then some .calibrate
  else if cmd = "reset".octets then some .reset
  else none

/-- `ucred`. -/
structure Ucred where
  pid : ℕ
  uid : ℕ
  deriving DecidableEq, Repr

/-- `Supervisor::request`. -/
def request (e : Event) : Prog Service (Bool × List UInt8) := do
  let now ← Prog.read fun s => s.state
  if transition now e = none then
    return (false, (e.name ++ " not allowed in state " ++ now.name).octets)
  else do
    Prog.write fun s => Running.post s e
    return (true, (e.name ++ " accepted in state " ++ now.name).octets)

/-- The process: its effective uid, whether it ignores `SIGPIPE` (a service manager may have seen
to that, the program does not), and the JSON library it is linked to. -/
structure Process where
  euid : ℕ
  ignoresSigpipe : Bool
  json : JsonLibrary

/-- `handle_command`; `none` if it throws. -/
def handleCommand (p : Process) (r : Report) (cmd : List UInt8) (peer : Ucred) :
    Prog Service (Option (List UInt8)) :=
  if cmd = "status".octets then do
    let s ← Prog.read id
    return p.json.dump none (status s r)
  else
    match parseCommand cmd with
    | none =>
        return p.json.dump none (refusal ("unknown command '".octets ++ cmd ++ "'".octets))
    | some e =>
        if peer.uid ≠ 0 ∧ peer.uid ≠ p.euid then
          return p.json.dump none
            (refusal ("permission denied: '".octets ++ cmd ++ "' changes state".octets))
        else do
          let (ok, message) ← request e
          return p.json.dump none (.obj [("message", .str message), ("ok", .bool ok)])

/-! ## Connections -/

/-- What one `read` returns: at most `sizeof(buf)` bytes. -/
structure Chunk where
  bytes : List UInt8
  nonempty : bytes ≠ []
  fits : bytes.length ≤ 64
  deriving DecidableEq

/-- A connection. -/
structure Client where
  /-- `SO_PEERCRED`, if it can be had. -/
  cred : Option Ucred
  /-- What the reads return, up to the end, an error or a timeout. -/
  reads : List Chunk
  /-- How many bytes each write takes before one fails. -/
  takes : List ℕ
  /-- The write fails because the peer has closed the connection. -/
  hangsUp : Bool
  deriving DecidableEq

/-- `kMaxCommand`. -/
def maxCommand : ℕ := 256

/-- The loop that reads the command. -/
def readCommand (command : List UInt8) : List Chunk → List UInt8
  | [] => command
  | c :: rest =>
      if command.length < maxCommand ∧ 0x0a ∉ command then readCommand (command ++ c.bytes) rest
      else command

/-- The command of a connection. -/
def Client.command (c : Client) : List UInt8 :=
  (readCommand [] c.reads).takeWhile fun b => b ≠ 0x0d ∧ b ≠ 0x0a

/-- What becomes of a connection. -/
inductive Served where
  /-- The peer has been sent these bytes of the reply. -/
  | answered (sent : List UInt8)
  | dropped
  /-- An exception or a signal has ended the process. -/
  | killed
  deriving DecidableEq, Repr

/-- The loop that writes the reply. -/
def writeReply (p : Process) (c : Client) (sent rest : List UInt8) : List ℕ → Served
  | [] =>
      if rest ≠ [] ∧ c.hangsUp ∧ ¬ p.ignoresSigpipe then .killed else .answered sent
  | n :: takes =>
      if rest = [] ∨ n = 0 then .answered sent
      else writeReply p c (sent ++ rest.take n) (rest.drop n) takes

/-- `ControlServer::serve`. -/
def serve (p : Process) (r : Report) (c : Client) : Prog Service Served :=
  match c.cred with
  | none => return .dropped
  | some peer => do
      let reply ← handleCommand p r c.command peer
      match reply with
      | none => return .killed
      | some reply => return writeReply p c [] (reply ++ [0x0a]) c.takes

/-! ## The machine -/

/-- The service with its control thread. -/
structure Platform where
  process : Process
  service : Running
  /-- The connection that is being served. -/
  control : Option (Prog Service Served)
  alive : Bool
  served : List Served

inductive Step where
  /-- A step of the service. -/
  | service (e : Happening)
  /-- A connection is accepted; `r` is what `status` would read. -/
  | connect (c : Client) (r : Report)
  /-- A step of the control thread. -/
  | control (n : ℕ)
  /-- The connection is closed. -/
  | close

namespace Platform

/-- What the control thread has come to. -/
def result : Prog Service Served → Option Served
  | .ret o => some o
  | _ => none

/-- The next state. -/
def next (x : Platform) (l : Step) : Option Platform :=
  if x.alive then
    match l with
    | .service e => (x.service.next e).map fun s => { x with service := s }
    | .connect c r =>
        match x.control with
        | none => some { x with control := some (serve x.process r c) }
        | some _ => none
    | .control n =>
        x.control.bind fun p => (p.step n x.service.svc).map fun (p', s) =>
          { x with service := { x.service with svc := s }, control := some p' }
    | .close =>
        (x.control.bind result).map fun o =>
          { x with control := none, alive := o != .killed, served := x.served ++ [o] }
  else none

end Platform

/-- The service and its control socket. -/
def controlled : Machine Platform Step where
  init x := deviceService.init x.service ∧ x.control = none ∧ x.alive = true ∧ x.served = []
  next := Platform.next

/-! ## Read-only peers -/

/-- All texts of the report are UTF-8. -/
def Report.valid (r : Report) : Bool :=
  r.history.all (fun e => Utf8.valid e.time && Utf8.valid e.reason) &&
  r.lastCalibration.all (fun c => c.ok || Utf8.valid c.reason) &&
  (r.lastFaultReason.isEmpty || Utf8.valid r.lastEvidencePath && Utf8.valid r.lastFaultReason)

/-- The peer may only read. -/
def ReadOnly (p : Process) (c : Client) : Prop :=
  ∀ peer ∈ c.cred, peer.uid ≠ 0 ∧ peer.uid ≠ p.euid

instance (p : Process) (c : Client) : Decidable (ReadOnly p c) := by
  unfold ReadOnly
  infer_instance

/-- Connections are by read-only peers, with a command that is UTF-8; the texts that `status`
prints are UTF-8; and a peer does not hang up before it has its reply, unless `SIGPIPE` is
ignored. -/
def Harmless (x : Platform) : Step → Prop
  | .connect c r => ReadOnly x.process c ∧ Utf8.valid c.command = true ∧
      (c.command = "status".octets → r.valid = true) ∧
      (c.hangsUp = true → x.process.ignoresSigpipe = true)
  | _ => True

instance (x : Platform) (l : Step) : Decidable (Harmless x l) := by
  cases l <;> unfold Harmless <;> infer_instance

/-- What is left of a connection ends by itself, after at most one step, and does not touch the
service. -/
def Answers (p : Prog Service Served) : Prop :=
  (∃ o, p = .ret o ∧ o ≠ .killed) ∨ ∀ n s, ∃ o, p.step n s = some (.ret o, s) ∧ o ≠ .killed

/-- The steps of the service in a run. -/
def Step.happening : Step → Option Happening
  | .service e => some e
  | _ => none

def Step.connects : Step → Bool
  | .connect .. => true
  | _ => false

section Replies

theorem calibrationJson_valid (c : CalibrationReport) :
    (calibrationJson c).valid = (c.ok || Utf8.valid c.reason) := by
  unfold calibrationJson
  cases c.ok with
  | true => rfl
  | false => simp [Json.valid, Json.validFields]

theorem historyJson_valid (l : List HistoryEntry) :
    (historyJson l).valid = l.all fun e => Utf8.valid e.time && Utf8.valid e.reason := by
  rw [historyJson, Json.valid, Json.validItems_eq_all, List.all_map]
  congr 1
  funext e
  simp [Json.valid, Json.validFields]

/-- `status` is written if the texts of the report are UTF-8. -/
theorem status_valid (s : Service) (r : Report) : (status s r).valid = r.valid := by
  have hcal : (r.lastCalibration.toList.map fun c => ("last_calibration", calibrationJson c)).all
      (fun f => f.2.valid) = r.lastCalibration.all fun c => c.ok || Utf8.valid c.reason := by
    cases r.lastCalibration with
    | none => rfl
    | some c => simp [calibrationJson_valid]
  rw [status, Report.valid, Json.valid, Json.validFields_eq_all]
  simp only [List.all_append, hcal, List.all_cons, List.all_nil, counter, Json.valid,
    historyJson_valid, Utf8.valid_octets, Bool.true_and, Bool.and_true]
  cases r.lastFaultReason with
  | nil => simp
  | cons b l => simp [Json.valid, Json.validFields]

/-- A refusal that quotes the command is written if the command is UTF-8. -/
theorem refusal_valid {cmd : List UInt8} (before after : String) (h : Utf8.valid cmd = true) :
    (refusal (before.octets ++ cmd ++ after.octets)).valid = true := by
  rw [refusal, Json.valid, Json.validFields, Json.valid, List.append_assoc,
    Utf8.valid_append (Utf8.valid_octets _), Utf8.valid_append h, Utf8.valid_octets]
  rfl

theorem writeReply_ne_killed {p : Process} {c : Client}
    (h : c.hangsUp = true → p.ignoresSigpipe = true) (takes : List ℕ) (sent rest : List UInt8) :
    writeReply p c sent rest takes ≠ .killed := by
  induction takes generalizing sent rest with
  | nil =>
      unfold writeReply
      rw [if_neg]
      · exact Served.noConfusion
      · rintro ⟨-, hup, hsig⟩
        exact hsig (h hup)
  | cons n takes ih =>
      unfold writeReply
      split
      · exact Served.noConfusion
      · exact ih _ _

/-- A connection that is harmless is answered. -/
theorem serve_answers {x : Platform} {c : Client} {r : Report} (h : Harmless x (.connect c r)) :
    Answers (serve x.process r c) := by
  obtain ⟨hread, hcmd, hstatus, hpipe⟩ := h
  have hwritten : ∀ j : Json, j.valid = true →
      ∃ reply, x.process.json.dump none j = some reply := fun j hj =>
    Option.isSome_iff_exists.mp ((x.process.json.dump_isSome none j).trans hj)
  unfold serve
  cases hcred : c.cred with
  | none => exact .inl ⟨_, rfl, Served.noConfusion⟩
  | some peer =>
      dsimp only
      unfold handleCommand
      split
      · rename_i hs
        refine .inr fun n s => ?_
        obtain ⟨reply, hreply⟩ := hwritten (status s r) ((status_valid s r).trans (hstatus hs))
        refine ⟨writeReply x.process c [] (reply ++ [0x0a]) c.takes, ?_,
          writeReply_ne_killed hpipe _ _ _⟩
        show some (match x.process.json.dump none (status s r) with
          | none => Prog.ret Served.killed
          | some reply => .ret (writeReply x.process c [] (reply ++ [0x0a]) c.takes), s) = _
        rw [hreply]
      · -- the replies to all other commands do not read the state
        split
        · obtain ⟨reply, hreply⟩ := hwritten _ (refusal_valid "unknown command '" "'" hcmd)
          rw [hreply]
          exact .inl ⟨_, rfl, writeReply_ne_killed hpipe _ _ _⟩
        · rw [if_pos (hread peer (by rw [hcred]; rfl))]
          obtain ⟨reply, hreply⟩ :=
            hwritten _ (refusal_valid "permission denied: '" "' changes state" hcmd)
          rw [hreply]
          exact .inl ⟨_, rfl, writeReply_ne_killed hpipe _ _ _⟩


end Replies

/-- The connections since `x` have been answered, and have left no trace. -/
structure Untouched (x : Platform) (ls : List Step) (y : Platform) : Prop where
  alive : y.alive = true
  answers : ∀ p ∈ y.control, Answers p
  service : deviceService.Run Machine.Always x.service (ls.filterMap Step.happening) y.service
  served : ∃ replies, y.served = x.served ++ replies ∧ (∀ o ∈ replies, o ≠ .killed) ∧
    replies.length + y.control.toList.length = ls.countP Step.connects

/-- One step. -/
theorem Untouched.step {x y z : Platform} {ls : List Step} {l : Step} (h : Untouched x ls y)
    (hok : Harmless y l) (hn : y.next l = some z) : Untouched x (ls ++ [l]) z := by
  have hnone : l.happening = none →
      (ls ++ [l]).filterMap Step.happening = ls.filterMap Step.happening := by
    intro hl
    rw [List.filterMap_append, List.filterMap_cons_none hl, List.filterMap_nil, List.append_nil]
  obtain ⟨replies, hserved, hne, hcount⟩ := h.served
  unfold Platform.next at hn
  rw [if_pos h.alive] at hn
  cases l with
  | service e =>
      obtain ⟨s, hs, rfl⟩ := Option.map_eq_some_iff.mp hn
      refine ⟨h.alive, h.answers, ?_, replies, hserved, hne, ?_⟩
      · rw [List.filterMap_append]
        exact .snoc h.service trivial hs
      · rw [List.countP_append]
        exact hcount
  | connect c r =>
      dsimp only at hn
      split at hn
      · rename_i hidle
        cases hn
        refine ⟨h.alive, ?_, hnone rfl ▸ h.service, replies, hserved, hne, ?_⟩
        · rintro p ⟨⟩
          exact serve_answers hok
        · rw [hidle] at hcount
          rw [List.countP_append]
          exact congrArg (· + 1) hcount
      · cases hn
  | control n =>
      obtain ⟨p, hp, hn⟩ := Option.bind_eq_some_iff.mp hn
      obtain ⟨⟨p', s⟩, hs, rfl⟩ := Option.map_eq_some_iff.mp hn
      -- a step of the control thread is its last, and changes nothing
      obtain ⟨o, rfl, -⟩ | hstep := h.answers p hp
      · cases hs
      obtain ⟨o, ho, hok⟩ := hstep n y.service.svc
      cases hs.symm.trans ho
      refine ⟨h.alive, ?_, hnone rfl ▸ h.service, replies, hserved, hne, ?_⟩
      · rintro p ⟨⟩
        exact .inl ⟨o, rfl, hok⟩
      · rw [hp] at hcount
        rw [List.countP_append]
        exact hcount
  | close =>
      obtain ⟨o, ho, rfl⟩ := Option.map_eq_some_iff.mp hn
      obtain ⟨p, hp, ho⟩ := Option.bind_eq_some_iff.mp ho
      have hok : o ≠ .killed := by
        obtain ⟨o', rfl, hne⟩ | hstep := h.answers p hp
        · cases ho
          exact hne
        · cases p with
          | ret o' =>
              obtain ⟨_, h, -⟩ := hstep 0 y.service.svc
              cases h
          | act f k => cases ho
          | pick k => cases ho
          | loop body x k => cases ho
      refine ⟨bne_iff_ne.mpr hok, (fun _ hp => nomatch hp), hnone rfl ▸ h.service, replies ++ [o],
        ?_, ?_, ?_⟩
      · rw [hserved, List.append_assoc]
      · intro o' ho'
        rcases List.mem_append.mp ho' with hmem | hmem
        · exact hne o' hmem
        · rw [List.mem_singleton.mp hmem]
          exact hok
      · rw [hp] at hcount
        rw [List.countP_append, List.length_append]
        exact hcount

/-- **Read-only peers do no harm.** -/
theorem read_only_harmless {x y : Platform} {ls : List Step} (halive : x.alive = true)
    (hidle : x.control = none) (hr : controlled.Run Harmless x ls y) :
    y.alive = true ∧
    deviceService.Run Machine.Always x.service (ls.filterMap Step.happening) y.service ∧
    (∀ e, (controlled.next y (.service e)).map Platform.service = deviceService.next y.service e) ∧
    (∀ p ∈ y.control, Answers p) ∧
    ∃ replies, y.served = x.served ++ replies ∧ (∀ o ∈ replies, o ≠ .killed) ∧
      replies.length + y.control.toList.length = ls.countP Step.connects := by
  have h : Untouched x ls y := by
    induction hr with
    | nil =>
        refine ⟨halive, ?_, .nil _, [], (List.append_nil _).symm, (fun _ ho => nomatch ho), ?_⟩
        · rw [hidle]
          exact fun p hp => nomatch hp
        · rw [hidle]
          rfl
    | snoc _ hok hn ih => exact ih.step hok hn
  refine ⟨h.alive, h.service, fun e => ?_, h.answers, h.served⟩
  show (Platform.next y (.service e)).map _ = _
  unfold Platform.next
  rw [if_pos h.alive, Option.map_map]
  exact Option.map_id'

/-- A service at its start; the process is not looked after by a service manager. -/
def smallPlatform : Platform where
  process := ⟨990, false, default⟩
  service := Running.start ⟨0, 1, 20, 0, 0⟩ ⟨false, 0, [], none, []⟩ 0
  control := none
  alive := true
  served := []

def smallReport : Report := ⟨[0x30], [0x30], [0x30], [], [], none, []⟩

/-- A peer with uid 1000 that sends `bytes` in one piece. -/
def stranger (bytes : List UInt8) (nonempty : bytes ≠ []) (fits : bytes.length ≤ 64) : Client where
  cred := some ⟨4242, 1000⟩
  reads := [⟨bytes, nonempty, fits⟩]
  takes := [300]
  hangsUp := false

/-- A read-only peer sends `rm`, while the service is initialised. -/
theorem read_only_harmless_unknown : ∃ y, controlled.Run Harmless smallPlatform
    [.connect (stranger [0x72, 0x6d] (by decide) (by decide)) smallReport,
      .service (.post .initOk), .close] y ∧
    (y.alive = true ∧ y.served.length = 1) ∧
    deviceService.Run Machine.Always smallPlatform.service [.post .initOk] y.service := by
  have hrun : ∃ y, controlled.Run Harmless smallPlatform
      [.connect (stranger [0x72, 0x6d] (by decide) (by decide)) smallReport,
        .service (.post .initOk), .close] y ∧ y.alive = true ∧ y.served.length = 1 :=
    Machine.exists_run_of_exec _ (by decide +kernel)
  obtain ⟨y, hy, hp⟩ := hrun
  exact ⟨y, hy, hp, (read_only_harmless rfl rfl hy).2.1⟩

/-- The byte 0xff, from a peer that may only read, ends the service. -/
theorem terminated_by_stray_byte : ∃ y, controlled.Run Machine.Always smallPlatform
    [.connect (stranger [0xff] (by decide) (by decide)) smallReport, .close] y ∧
    ReadOnly smallPlatform.process (stranger [0xff] (by decide) (by decide)) ∧ y.alive = false := by
  have hrun : ∃ y, controlled.Run Machine.Always smallPlatform
      [.connect (stranger [0xff] (by decide) (by decide)) smallReport, .close] y ∧
      y.alive = false :=
    Machine.exists_run_of_exec _ (by decide +kernel)
  obtain ⟨y, hy, hp⟩ := hrun
  exact ⟨y, hy, by decide, hp⟩

end DeviceService
