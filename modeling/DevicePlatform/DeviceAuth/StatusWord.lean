/-
# The status word

`reg_status` is one word with two writers.  The SPI handlers set and clear its flags; the main
loop's `devauth_service` sets the AUTH bits, by a load and a later store of the whole word.  A
handler may run between the two.

`Mcu.handleFrame_regStatus` says which bits a frame clears and which it sets.

* `flags_persist`: in every run in which no handler changes a flag between the main loop's load
  and its store, a flag keeps its value until a handler changes it, and `ST_RUNNING` is bit 0 of
  `reg_control`.
* `start_lost`: a START between the two leaves `ST_RUNNING` cleared while the acquisition runs.
-/
import DevicePlatform.DeviceAuth.Challenge

/-! ## What the handlers do to the status -/

/-- The bits of the status that a frame clears. -/
def Frame.clears (f : Frame) : BitVec 32 :=
  if f.isWrite then
    match f.reg with
    | .control =>
        (if f.word &&& 0x02#32 ≠ 0 then stCmdErr ||| stRangeErr ||| stSpiResync else 0#32) |||
          if f.word &&& 0x01#32 ≠ 0 then 0#32 else stRunning
    | .authCtrl => if f.word &&& 0x01#32 ≠ 0 then stAuthDone ||| stAuthNokey else 0#32
    | _ => 0#32
  else 0#32

/-- The bits of the status that a frame sets. -/
def Frame.sets (f : Frame) : BitVec 32 :=
  if f.isWrite then
    match f.reg with
    | .control => if f.word &&& 0x01#32 ≠ 0 then stRunning else 0#32
    | .authCtrl => if f.word &&& 0x01#32 ≠ 0 then stAuthBusy else 0#32
    | .authNonce _ => 0#32
    | .sampleRate => if 1#32 ≤ f.word ∧ f.word ≤ 10000#32 then 0#32 else stRangeErr
    | _ => stCmdErr
  else
    match f.reg with
    | .authCtrl => stCmdErr
    | .undefined => stCmdErr
    | _ => 0#32

/-- The status after a frame. -/
def Frame.statusAfter (f : Frame) (status : BitVec 32) : BitVec 32 :=
  status &&& ~~~f.clears ||| f.sets

/-- The control register after an event of the board. -/
def BoardEvent.controlAfter (control : BitVec 32) : BoardEvent → BitVec 32
  | .frame f => if f.isControl then f.word &&& 0x01#32 else control
  | .spiError => control
  | .tick => control
  | .tim => control

/-- The status after an event of the board. -/
def BoardEvent.statusAfter (status : BitVec 32) : BoardEvent → BitVec 32
  | .frame f => f.statusAfter status
  | .spiError => status ||| stSpiResync
  | .tick => status
  | .tim => status

namespace Frame

/-- A control write sets or clears `ST_RUNNING`. -/
theorem control_running {f : Frame} (h : f.isControl = true) :
    f.clears.getLsbD 0 = !f.word.getLsbD 0 ∧ f.sets.getLsbD 0 = f.word.getLsbD 0 := by
  simp only [isControl, Bool.and_eq_true, beq_iff_eq] at h
  have hbit : f.word &&& 0x01#32 = 0 ↔ f.word.getLsbD 0 = false :=
    DeviceAuth.and_bit_eq_zero f.word (i := 0) (by decide)
  simp only [clears, sets, h.1, h.2, if_true, ne_eq, hbit]
  cases f.word.getLsbD 0
  · simp only [not_true, if_false]
    split_ifs <;> exact ⟨rfl, rfl⟩
  · simp only [Bool.true_eq_false, not_false_eq_true, if_true]
    split_ifs <;> exact ⟨rfl, rfl⟩

/-- No other frame touches it. -/
theorem keeps_running {f : Frame} (h : ¬f.isControl = true) :
    f.clears.getLsbD 0 = false ∧ f.sets.getLsbD 0 = false := by
  unfold clears sets
  cases hw : f.isWrite
  · simp only [Bool.false_eq_true, if_false]
    cases f.reg <;> dsimp only <;> decide
  · simp only [if_true]
    cases hr : f.reg
    case control => simp [isControl, hw, hr] at h
    all_goals
      dsimp only
      try split_ifs
      all_goals decide

end Frame

/-- Nothing is cleared and nothing is set. -/
theorem and_not_zero_or_zero (s : BitVec 32) : s &&& ~~~0#32 ||| 0#32 = s := by
  rw [BitVec.or_zero]
  exact BitVec.and_allOnes

/-- Bits are only set. -/
theorem and_not_zero_or (s mask : BitVec 32) : s &&& ~~~0#32 ||| mask = s ||| mask := by
  rw [show s &&& ~~~0#32 = s from BitVec.and_allOnes]

namespace Mcu

/-- A read of a register that cannot be read sets `ST_CMD_ERR`. -/
theorem regRead_regStatus (r : Reg) (m : Mcu) :
    (m.regRead r).2.regStatus =
      match r with
      | .authCtrl => m.regStatus ||| stCmdErr
      | .undefined => m.regStatus ||| stCmdErr
      | _ => m.regStatus := by
  cases r <;> simp only [regRead]
  case dataSeq => split_ifs <;> rfl
  case dataVal => split_ifs <;> rfl

/-- A control write clears the error flags if asked to, and sets or clears `ST_RUNNING`. -/
theorem regWrite_control_regStatus (val : BitVec 32) (m : Mcu) :
    (m.regWrite .control val).regStatus =
      let cleared := if val &&& 0x02#32 ≠ 0 then
        m.regStatus &&& ~~~(stCmdErr ||| stRangeErr ||| stSpiResync) else m.regStatus
      if val &&& 0x01#32 ≠ 0 then cleared ||| stRunning else cleared &&& ~~~stRunning := by
  simp only [regWrite]
  rw [and_one_and_one]
  unfold clearFlags
  split_ifs <;> rfl

/-- **The status after a frame.** -/
theorem handleFrame_regStatus (f : Frame) (m : Mcu) :
    (m.handleFrame f).regStatus = f.statusAfter m.regStatus := by
  have hmove : (m.handleFrame f).regStatus = (m.respond f).2.regStatus := rfl
  rw [hmove, respond, Frame.statusAfter, Frame.clears, Frame.sets]
  cases hw : f.isWrite with
  | false =>
      simp only [Bool.false_eq_true, if_false]
      rw [regRead_regStatus, and_not_zero_or]
      cases f.reg
      -- reading AUTH_CTRL or an undefined register is a command error
      case authCtrl => rfl
      case undefined => rfl
      all_goals exact BitVec.or_zero.symm
  | true =>
      simp only [if_true]
      cases hr : f.reg
      case control =>
        rw [regWrite_control_regStatus]
        dsimp only
        -- bit 1 of the value clears the error flags, bit 0 is START or STOP
        split_ifs
        · rw [BitVec.or_zero]
        · rw [BitVec.or_zero, and_not_zero_or]
        · rw [BitVec.or_zero, BitVec.and_assoc, ← BitVec.not_or]
        · rw [BitVec.or_zero, BitVec.zero_or]
      case authCtrl =>
        simp only [regWrite]
        split_ifs
        · rfl
        · exact (and_not_zero_or_zero _).symm
      case sampleRate =>
        simp only [regWrite]
        split_ifs
        · exact (and_not_zero_or_zero _).symm
        · exact (and_not_zero_or_zero _).symm
        · exact (and_not_zero_or _ _).symm
      case authNonce => exact (and_not_zero_or_zero _).symm
      all_goals exact (and_not_zero_or _ _).symm

end Mcu

/-- **The status after an interrupt** or an access of the timer callback. -/
theorem Board.regStatus_next {b b' : Board} {e : BoardEvent} (h : b.next e = some b') :
    b'.mcu.regStatus = e.statusAfter b.mcu.regStatus := by
  cases e with
  | frame f =>
      cases h
      exact Mcu.handleFrame_regStatus f b.mcu
  | spiError =>
      cases h
      rfl
  | tick =>
      dsimp only [Board.next] at h
      split at h <;> cases h
      rfl
  | tim =>
      dsimp only [Board.next] at h
      split at h <;> cases h
      cases b.tim <;> rfl

/-- **The control register after an interrupt** or an access of the timer callback. -/
theorem Board.regControl_next {b b' : Board} {e : BoardEvent} (h : b.next e = some b') :
    b'.mcu.regControl = e.controlAfter b.mcu.regControl := by
  cases e with
  | frame f =>
      cases h
      exact Mcu.handleFrame_regControl f b.mcu
  | spiError =>
      cases h
      rfl
  | tick =>
      dsimp only [Board.next] at h
      split at h <;> cases h
      rfl
  | tim =>
      dsimp only [Board.next] at h
      split at h <;> cases h
      cases b.tim <;> rfl

namespace DeviceAuth

/-! ## The flags -/

/-- The bits of the main loop. -/
def authBits : BitVec 32 := stAuthBusy ||| stAuthDone ||| stAuthNokey

/-- The bits of the handlers. -/
def flags (status : BitVec 32) : BitVec 32 := status &&& ~~~authBits

/-- The word the main loop has loaded and not stored yet. -/
def MainPc.loaded : MainPc → Option (BitVec 32)
  | .nokeyStore status => some status
  | .doneStore status => some status
  | _ => none

/-- No handler changes a flag between the main loop's load of the status and its store. -/
def AtomicUpdate (x : AuthBoard) : AuthEvent → Prop
  | .board e => x.main.loaded ≠ none →
      flags (e.statusAfter x.board.mcu.regStatus) = flags x.board.mcu.regStatus
  | .main _ => True

/-- No handler changes bit `i`. -/
def KeepsBit (i : ℕ) (x : AuthBoard) : AuthEvent → Prop
  | .board e =>
      (e.statusAfter x.board.mcu.regStatus).getLsbD i = x.board.mcu.regStatus.getLsbD i
  | .main _ => True

/-- The word that the main loop has loaded has the flags of the status, and `ST_RUNNING` is bit 0
of the control register. -/
structure FlagsInv (x : AuthBoard) : Prop where
  loaded : ∀ status ∈ x.main.loaded, flags status = flags x.board.mcu.regStatus
  running : x.board.mcu.regStatus.getLsbD 0 = x.board.mcu.regControl.getLsbD 0

/-- The service's stores write AUTH bits only. -/
theorem flags_and_or {s clear set : BitVec 32} (hclear : clear &&& authBits = clear)
    (hset : set &&& authBits = set) : flags (s &&& ~~~clear ||| set) = flags s := by
  apply BitVec.eq_of_getLsbD_eq
  intro i hi
  have hc := congrArg (fun w : BitVec 32 => w.getLsbD i) hclear
  have hs := congrArg (fun w : BitVec 32 => w.getLsbD i) hset
  simp only [flags, BitVec.getLsbD_and, BitVec.getLsbD_or, BitVec.getLsbD_not] at hc hs ⊢
  cases hbit : authBits.getLsbD i <;> simp_all

/-- The main loop changes no flag, if what it has loaded still has the flags of the status. -/
theorem mainStep_flags {key : Key} {cycles : BitVec 32} {pc : MainPc} {m : Mcu}
    (h : ∀ status ∈ pc.loaded, flags status = flags m.regStatus) :
    flags (mainStep key cycles pc m).2.regStatus = flags m.regStatus := by
  cases pc with
  | nokeyStore status =>
      rw [← h status rfl]
      simp only [mainStep]
      rw [BitVec.or_assoc]
      exact flags_and_or (by decide) (by decide)
  | doneStore status =>
      rw [← h status rfl]
      exact flags_and_or (by decide) (by decide)
  | poll | clear | loadNonce | compute | clearMac | nokeyLoad | storeCycles | storeMac | doneLoad =>
      rfl

/-- A word the main loop has loaded is the status, or was there before. -/
theorem mainStep_loaded {key : Key} {cycles : BitVec 32} {pc : MainPc} {m : Mcu}
    {status : BitVec 32} (h : status ∈ (mainStep key cycles pc m).1.loaded) :
    status = m.regStatus ∧ (mainStep key cycles pc m).2.regStatus = m.regStatus := by
  cases pc with
  | nokeyLoad =>
      cases h
      exact ⟨rfl, rfl⟩
  | doneLoad =>
      cases h
      exact ⟨rfl, rfl⟩
  | poll | clear | loadNonce | compute | clearMac | nokeyStore | storeCycles | storeMac
  | doneStore =>
      simp only [mainStep] at h
      try split at h
      all_goals cases h

theorem mainStep_regControl {key : Key} {cycles : BitVec 32} {pc : MainPc} {m : Mcu} :
    (mainStep key cycles pc m).2.regControl = m.regControl := by
  cases pc <;> rfl

/-- A bit other than the AUTH bits is a flag. -/
theorem getLsbD_of_flags {a b : BitVec 32} {i : ℕ} (h : flags a = flags b)
    (hi : i ≠ 4 ∧ i ≠ 5 ∧ i ≠ 6) : a.getLsbD i = b.getLsbD i := by
  by_cases hlt : i < 32
  · have hbit : authBits.getLsbD i = false :=
      (by decide : ∀ j < 32, j ≠ 4 ∧ j ≠ 5 ∧ j ≠ 6 → authBits.getLsbD j = false) i hlt hi
    have hflags := congrArg (fun w : BitVec 32 => w.getLsbD i) h
    simpa only [flags, BitVec.getLsbD_and, BitVec.getLsbD_not, hbit, hlt, Bool.not_false,
      decide_true, Bool.and_true] using hflags
  · rw [BitVec.getLsbD_of_ge _ _ (by omega), BitVec.getLsbD_of_ge _ _ (by omega)]

/-- The handlers keep `ST_RUNNING` the same as bit 0 of the control register. -/
theorem running_statusAfter {e : BoardEvent} {status control : BitVec 32}
    (h : status.getLsbD 0 = control.getLsbD 0) :
    (e.statusAfter status).getLsbD 0 = (e.controlAfter control).getLsbD 0 := by
  cases e with
  | tick => exact h
  | tim => exact h
  | spiError =>
      show (status ||| stSpiResync).getLsbD 0 = _
      rw [BitVec.getLsbD_or, h]
      exact Bool.or_false _
  | frame f =>
      have hafter : (f.statusAfter status).getLsbD 0 =
          (status.getLsbD 0 && !f.clears.getLsbD 0 || f.sets.getLsbD 0) := by
        simp [Frame.statusAfter]
      show (f.statusAfter status).getLsbD 0 = (if f.isControl then _ else control).getLsbD 0
      rw [hafter]
      split
      · next hctl =>
        obtain ⟨hclears, hsets⟩ := Frame.control_running hctl
        rw [hclears, hsets, BitVec.getLsbD_and]
        cases f.word.getLsbD 0 <;> cases status.getLsbD 0 <;> rfl
      · next hctl =>
        obtain ⟨hclears, hsets⟩ := Frame.keeps_running hctl
        rw [hclears, hsets, h]
        simp

section Runs

variable {key : Key} {x y : AuthBoard} {e : AuthEvent}

/-- Every step that meets the condition keeps the invariant. -/
theorem FlagsInv.next (h : FlagsInv x) (hok : AtomicUpdate x e) (hn : x.next key e = some y) :
    FlagsInv y := by
  cases e with
  | main cycles =>
      dsimp only [AuthBoard.next] at hn
      split at hn
      · cases hn
        refine ⟨?_, ?_⟩
        · intro status hs
          obtain ⟨rfl, hsame⟩ := mainStep_loaded hs
          dsimp only
          rw [hsame]
        · dsimp only
          rw [getLsbD_of_flags (mainStep_flags h.loaded) (by decide), mainStep_regControl]
          exact h.running
      · cases hn
  | board e =>
      obtain ⟨b, hb, rfl⟩ := Option.map_eq_some_iff.mp hn
      have hstatus := Board.regStatus_next hb
      refine ⟨?_, ?_⟩
      · -- the word that the main loop has loaded is still the status: this is the condition
        intro status hs
        dsimp only
        rw [hstatus, hok (fun hnone => by rw [hnone] at hs; cases hs)]
        exact h.loaded status hs
      · dsimp only
        rw [hstatus, Board.regControl_next hb]
        exact running_statusAfter h.running

/-- A step keeps a flag that no handler changes. -/
theorem FlagsInv.keeps {i : ℕ} (h : FlagsInv x) (hi : i ≠ 4 ∧ i ≠ 5 ∧ i ≠ 6)
    (hok : KeepsBit i x e) (hn : x.next key e = some y) :
    y.board.mcu.regStatus.getLsbD i = x.board.mcu.regStatus.getLsbD i := by
  cases e with
  | main cycles =>
      dsimp only [AuthBoard.next] at hn
      split at hn
      · cases hn
        exact getLsbD_of_flags (mainStep_flags h.loaded) hi
      · cases hn
  | board e =>
      obtain ⟨b, hb, rfl⟩ := Option.map_eq_some_iff.mp hn
      dsimp only
      rw [Board.regStatus_next hb]
      exact hok

end Runs

/-- **A flag keeps its value until a handler changes it**, and `ST_RUNNING` is bit 0 of the control
register, in every run in which no handler changes a flag between the main loop's load of the
status and its store. -/
theorem flags_persist {key : Key} {x y : AuthBoard} {es : List AuthEvent} {i : ℕ}
    (h : (authMachine key).Reach AtomicUpdate x)
    (hr : (authMachine key).Run (fun x e => AtomicUpdate x e ∧ KeepsBit i x e) x es y)
    (hi : i ≠ 4 ∧ i ≠ 5 ∧ i ≠ 6) :
    y.board.mcu.regStatus.getLsbD i = x.board.mcu.regStatus.getLsbD i ∧
      x.board.mcu.regStatus.getLsbD 0 = x.board.mcu.regControl.getLsbD 0 := by
  have hinv : FlagsInv x := by
    refine h.invariant ?_ fun _ _ _ inv hok hn => inv.next hok hn
    rintro _ rfl
    exact ⟨nofun, rfl⟩
  have hkept : FlagsInv y ∧ y.board.mcu.regStatus.getLsbD i = x.board.mcu.regStatus.getLsbD i := by
    refine hr.preserves (P := fun y => FlagsInv y ∧
      y.board.mcu.regStatus.getLsbD i = x.board.mcu.regStatus.getLsbD i) ?_ ⟨hinv, rfl⟩
    rintro y e z ⟨hy, hsame⟩ ⟨hok, hkeeps⟩ hn
    exact ⟨hy.next hok hn, (hy.keeps hi hkeeps hn).trans hsame⟩
  exact ⟨hkept.2, hinv.running⟩

instance (x : AuthBoard) (e : AuthEvent) : Decidable (AtomicUpdate x e) := by
  unfold AtomicUpdate
  split <;> infer_instance

instance (i : ℕ) (x : AuthBoard) (e : AuthEvent) : Decidable (KeepsBit i x e) := by
  unfold KeepsBit
  split <;> infer_instance

/-- The state after a START. -/
def startedBoard : AuthBoard :=
  ⟨{ Board.powerOn with mcu := Mcu.powerOn.handleFrame Board.startFrame }, .poll, none⟩

/-- `ST_RUNNING` outlives a challenge and its answer. -/
theorem flags_persist_challenge : (authMachine zeroKey).Reach AtomicUpdate startedBoard ∧
    ∃ y : AuthBoard, y.board.mcu.regStatus.getLsbD 5 = true ∧
      y.board.mcu.regStatus.getLsbD 0 = true := by
  have hstart : (authMachine zeroKey).Reach AtomicUpdate startedBoard :=
    Machine.Reach.step (.start rfl) (l := .board (.frame Board.startFrame)) nofun rfl
  have hrun : ∃ y, (authMachine zeroKey).Run (fun x e => AtomicUpdate x e ∧ KeepsBit 0 x e)
      startedBoard (writeFrame 0x14 1 :: List.replicate 14 (.main 0)) y ∧
      y.board.mcu.regStatus.getLsbD 5 = true :=
    Machine.exists_run_of_exec _ (by decide +kernel)
  obtain ⟨y, hy, hdone⟩ := hrun
  refine ⟨hstart, y, hdone, ?_⟩
  rw [(flags_persist hstart hy (by decide)).1]
  decide

/-- A START between the main loop's load of the status and its store: the acquisition runs, and
`ST_RUNNING` is clear. -/
theorem start_lost : ∃ x, (authMachine zeroKey).Reach Machine.Always x ∧
    x.main = .poll ∧ x.board.tim = .idle ∧ x.board.mcu.regControl.getLsbD 0 = true ∧
      x.board.mcu.regStatus.getLsbD 0 = false :=
  Machine.exists_reach_of_exec
    (List.flatten [[writeFrame 0x14 1], List.replicate 13 (.main 0),
      [writeFrame 0x03 1, .main 0]]) rfl (by decide +kernel)

end DeviceAuth
