/-
# A challenge and its answer in the MCU

Model of `devauth_service` and of the main loop (`v1-spi-slave-handshake/v1.3`,
`Core/Src/main.c`), one load or store at a time: the SPI handler and the timer callback may run
between any two of them (`authMachine`).

`devauth_service` does not notice a challenge that arrives while it works.  It completes the old
one, and its `ST_AUTH_DONE` then stands for the new one (`stale_answer`).  `answer_fresh` proves
that this is all that can go wrong: if no challenge is written while the service is between its
first load of the nonce and its last store, then what is read behind `ST_AUTH_DONE` is the MAC of
the latest nonce.
-/
import DevicePlatform.TimerCallback
import DevicePlatform.DeviceAuth.Devauth

/-! ## Frames that concern a challenge -/

/-- The frame writes a nonce word. -/
def Frame.isNonce (f : Frame) : Bool :=
  f.isWrite && match f.reg with
    | .authNonce _ => true
    | _ => false

/-- A write to `REG_AUTH_CTRL` with bit 0 set: a challenge. -/
def Frame.isChallenge (f : Frame) : Bool :=
  f.isWrite && f.reg == .authCtrl && f.word &&& 0x01#32 != 0

namespace DeviceAuth

/-- The registers of the exchange: `ST_AUTH_DONE` and `ST_AUTH_NOKEY` are bits of the status. -/
structure Auth where
  nonce : Fin 4 → BitVec 32
  mac : Fin 4 → BitVec 32
  request : Bool
  done : Bool
  nokey : Bool

/-- The registers of the exchange after a frame. -/
def Auth.afterFrame (f : Frame) (a : Auth) : Auth :=
  if f.isChallenge then { a with request := true, done := false, nokey := false }
  else if f.isWrite then
    match f.reg with
    | .authNonce i => { a with nonce := Function.update a.nonce i f.word }
    | _ => a
  else a

end DeviceAuth

/-- The registers of the exchange. -/
def Mcu.auth (m : Mcu) : DeviceAuth.Auth where
  nonce := m.authNonce
  mac := m.authMac
  request := m.authRequest
  done := m.regStatus.getLsbD 5
  nokey := m.regStatus.getLsbD 6

namespace Mcu

theorem auth_regRead (r : Reg) (m : Mcu) : (m.regRead r).2.auth = m.auth := by
  cases r <;> simp only [regRead]
  case dataSeq => split <;> rfl
  case dataVal => split_ifs <;> rfl
  all_goals simp [auth, stCmdErr]

theorem auth_regWrite (r : Reg) (val : BitVec 32) (m : Mcu) :
    (m.regWrite r val).auth =
      match r with
      | .authNonce i => { m.auth with nonce := Function.update m.authNonce i val }
      | .authCtrl => if val &&& 0x01#32 ≠ 0 then
          { m.auth with request := true, done := false, nokey := false } else m.auth
      | _ => m.auth := by
  cases r <;> simp only [regWrite]
  case authNonce => rfl
  case authCtrl =>
    split_ifs
    · simp [auth, stAuthDone, stAuthNokey, stAuthBusy]
    · rfl
  case control =>
    unfold clearFlags start stop updateDataReadyGpio updateTimerRate
    split_ifs <;> simp [auth, stCmdErr, stRangeErr, stSpiResync, stRunning]
  case sampleRate => split_ifs <;> simp [auth, stRangeErr, updateTimerRate]
  all_goals simp [auth, stCmdErr]

/-- **What a frame does to the registers of the exchange.** -/
theorem auth_handleFrame (f : Frame) (m : Mcu) :
    (m.handleFrame f).auth = m.auth.afterFrame f := by
  have hmove : (m.handleFrame f).auth = (m.respond f).2.auth := rfl
  rw [hmove, respond, DeviceAuth.Auth.afterFrame, Frame.isChallenge]
  cases hw : f.isWrite with
  | false => simp [auth_regRead]
  | true =>
      simp only [if_true, auth_regWrite, Bool.true_and]
      cases hr : f.reg <;> simp
      rfl

theorem auth_timStep (pc : TimPc) (m : Mcu) : (m.timStep pc).2.auth = m.auth := by
  cases pc <;> rfl

theorem auth_errorCallback (m : Mcu) : m.errorCallback.auth = m.auth := by
  simp [errorCallback, auth, stSpiResync]

end Mcu

/-- What an interrupt does to the registers of the exchange. -/
theorem Board.auth_next {b b' : Board} {e : BoardEvent} (h : b.next e = some b') :
    b'.mcu.auth = match e with
      | .frame f => b.mcu.auth.afterFrame f
      | _ => b.mcu.auth := by
  cases e with
  | frame f =>
      cases h
      exact Mcu.auth_handleFrame f b.mcu
  | spiError =>
      cases h
      exact Mcu.auth_errorCallback b.mcu
  | tick =>
      dsimp only [Board.next] at h
      split at h <;> cases h
      rfl
  | tim =>
      dsimp only [Board.next] at h
      split at h <;> cases h
      exact Mcu.auth_timStep b.tim b.mcu

namespace DeviceAuth

/-! ## The main loop -/

/-- `unpack_u32(&mac[4 * i])`. -/
def wordAt (l : List Byte) (i : Fin 4) : BitVec 32 :=
  ofBe32 (l.getD (4 * i) 0) (l.getD (4 * i + 1) 0) (l.getD (4 * i + 2) 0) (l.getD (4 * i + 3) 0)

/-- The bytes of the four nonce words. -/
def nonceBytes (nonce : Fin 4 → BitVec 32) : List Byte :=
  (List.finRange 4).flatMap fun i => be32 (nonce i)

/-- The answer of a device with `key` to a nonce. -/
def answer (key : Key) (nonce : Fin 4 → BitVec 32) : List Byte :=
  devauthCompute key deviceId fwVersion (nonceBytes nonce)

/-- For the numerals of `Fin 4`. -/
local instance words_neZero : NeZero 4 := ⟨by decide⟩

/-- The point the main loop has reached, with the locals of `devauth_service`. -/
inductive MainPc where
  /-- `if (auth_request)`. -/
  | poll
  /-- `auth_request = 0`. -/
  | clear
  /-- `pack_u32(&nonce[4 * i], auth_nonce[i])`. -/
  | loadNonce (i : Fin 4) (nonce : List Byte)
  /-- `devauth_key_present` and `devauth_compute`, which touch no register. -/
  | compute (nonce : List Byte)
  /-- `auth_mac[i] = 0`. -/
  | clearMac (i : Fin 4)
  /-- `reg_status = (reg_status & ~ST_AUTH_BUSY) | ST_AUTH_NOKEY | ST_AUTH_DONE`: its load. -/
  | nokeyLoad
  /-- Its store. -/
  | nokeyStore (status : BitVec 32)
  /-- `auth_cycles = DWT->CYCCNT - t0`. -/
  | storeCycles (mac : List Byte)
  /-- `auth_mac[i] = unpack_u32(&mac[4 * i])`. -/
  | storeMac (i : Fin 4) (mac : List Byte)
  /-- `reg_status = (reg_status & ~ST_AUTH_BUSY) | ST_AUTH_DONE`: its load. -/
  | doneLoad
  /-- Its store. -/
  | doneStore (status : BitVec 32)
  deriving DecidableEq, Repr

/-- The next access of the main loop; `cycles` is what the cycle counter shows. -/
def mainStep (key : Key) (cycles : BitVec 32) (pc : MainPc) (m : Mcu) : MainPc × Mcu :=
  match pc with
  | .poll => (if m.authRequest then .clear else .poll, m)
  | .clear => (.loadNonce 0 [], { m with authRequest := false })
  | .loadNonce i nonce =>
      let nonce := nonce ++ be32 (m.authNonce i)
      (if i = 3 then .compute nonce else .loadNonce (i + 1) nonce, m)
  | .compute nonce =>
      (if devauthKeyPresent key then .storeCycles (devauthCompute key deviceId fwVersion nonce)
        else .clearMac 0, m)
  | .clearMac i =>
      (if i = 3 then .nokeyLoad else .clearMac (i + 1),
        { m with authMac := Function.update m.authMac i 0 })
  | .nokeyLoad => (.nokeyStore m.regStatus, m)
  | .nokeyStore status =>
      (.poll, { m with regStatus := status &&& ~~~stAuthBusy ||| stAuthNokey ||| stAuthDone })
  | .storeCycles mac => (.storeMac 0 mac, { m with authCycles := cycles })
  | .storeMac i mac =>
      (if i = 3 then .doneLoad else .storeMac (i + 1) mac,
        { m with authMac := Function.update m.authMac i (wordAt mac i) })
  | .doneLoad => (.doneStore m.regStatus, m)
  | .doneStore status =>
      (.poll, { m with regStatus := status &&& ~~~stAuthBusy ||| stAuthDone })

/-! ## The machine -/

/-- The MCU with its main loop.  `armed` is history: the nonce of the latest challenge, if no
nonce word has been written since. -/
structure AuthBoard where
  board : Board
  main : MainPc
  armed : Option (Fin 4 → BitVec 32)

inductive AuthEvent where
  /-- An interrupt, or an access of the timer callback. -/
  | board (e : BoardEvent)
  /-- An access of the main loop. -/
  | main (cycles : BitVec 32)
  deriving DecidableEq, Repr

/-- The latest challenge, after a frame. -/
def armedAfter (f : Frame) (m : Mcu) (armed : Option (Fin 4 → BitVec 32)) :
    Option (Fin 4 → BitVec 32) :=
  if f.isChallenge then some m.authNonce else if f.isNonce then none else armed

/-- The next state.  The main loop runs when no interrupt is in progress. -/
def AuthBoard.next (key : Key) (x : AuthBoard) : AuthEvent → Option AuthBoard
  | .board e =>
      (x.board.next e).map fun b => { x with
        board := b
        armed := match e with
          | .frame f => armedAfter f x.board.mcu x.armed
          | _ => x.armed }
  | .main cycles =>
      if x.board.tim = .idle then
        let (pc, m) := mainStep key cycles x.main x.board.mcu
        some { x with board := { x.board with mcu := m }, main := pc }
      else none

/-- A device with `key`. -/
def authMachine (key : Key) : Machine AuthBoard AuthEvent where
  init x := x = ⟨Board.powerOn, .poll, none⟩
  next := AuthBoard.next key

/-- The service is between its first load of the nonce and its last store. -/
def MainPc.working : MainPc → Bool
  | .poll => false
  | .clear => false
  | .loadNonce i _ => i ≠ 0
  | _ => true

/-- No challenge and no nonce word arrives while the service works. -/
def Quiet (x : AuthBoard) : AuthEvent → Prop
  | .board (.frame f) => f.isNonce ∨ f.isChallenge → x.main.working = false
  | _ => True

instance (x : AuthBoard) (e : AuthEvent) : Decidable (Quiet x e) := by
  unfold Quiet
  split <;> infer_instance

/-- No challenge and no nonce word arrives at all. -/
def Undisturbed (_ : AuthBoard) : AuthEvent → Prop
  | .board (.frame f) => f.isNonce = false ∧ f.isChallenge = false
  | _ => True

/-! ## The invariant -/

/-- The MAC registers hold the answer to the nonce registers. -/
def Auth.Right (key : Key) (a : Auth) : Prop := ∀ i, a.mac i = wordAt (answer key a.nonce) i

/-- What the service knows at each point. -/
def Progress (key : Key) (a : Auth) : MainPc → Prop
  | .poll => True
  | .clear => True
  | .loadNonce i nonce => nonce = ((List.finRange 4).take i).flatMap fun j => be32 (a.nonce j)
  | .compute nonce => nonce = nonceBytes a.nonce
  | .clearMac _ => devauthKeyPresent key = false
  | .nokeyLoad => devauthKeyPresent key = false
  | .nokeyStore _ => devauthKeyPresent key = false
  | .storeCycles mac => devauthKeyPresent key = true ∧ mac = answer key a.nonce
  | .storeMac i mac => devauthKeyPresent key = true ∧ mac = answer key a.nonce ∧
      ∀ j < i, a.mac j = wordAt mac j
  | .doneLoad => devauthKeyPresent key = true ∧ a.Right key
  | .doneStore status => devauthKeyPresent key = true ∧ a.Right key ∧ status.getLsbD 6 = false

/-- The registers of the exchange and the service. -/
structure AuthInv (key : Key) (a : Auth) (pc : MainPc) (armed : Option (Fin 4 → BitVec 32)) :
    Prop where
  latest : ∀ nonce ∈ armed, a.nonce = nonce
  keyed : devauthKeyPresent key = true → a.nokey = false
  keyless : devauthKeyPresent key = false → a.done = true → a.nokey = true
  right : a.done = true → a.nokey = false → armed ≠ none → a.Right key
  progress : Progress key a pc

section Steps

variable {key : Key} {a : Auth} {pc : MainPc} {armed : Option (Fin 4 → BitVec 32)} {m : Mcu}

/-- A service that does not work yet knows nothing about the nonce. -/
theorem Progress.of_not_working (h : Progress key a pc) (hw : pc.working = false) (b : Auth) :
    Progress key b pc := by
  cases pc with
  | poll => trivial
  | clear => trivial
  | loadNonce i nonce =>
      have hi : i = 0 := by simpa [MainPc.working] using hw
      subst hi
      exact h
  | compute | clearMac | nokeyLoad | nokeyStore | storeCycles | storeMac | doneLoad | doneStore =>
      cases hw

/-- A frame that is neither a nonce word nor a challenge. -/
theorem Auth.afterFrame_of_other {f : Frame} (hn : f.isNonce = false) (hc : f.isChallenge = false) :
    a.afterFrame f = a := by
  unfold Auth.afterFrame
  rw [hc, if_neg Bool.false_ne_true]
  split
  · next hw =>
    rw [Frame.isNonce, hw, Bool.true_and] at hn
    split
    · next hr =>
      rw [hr] at hn
      cases hn
    · rfl
  · rfl

/-- A frame. -/
theorem AuthInv.frame {f : Frame} (h : AuthInv key m.auth pc armed)
    (hquiet : f.isNonce ∨ f.isChallenge → pc.working = false) :
    AuthInv key (m.handleFrame f).auth pc (armedAfter f m armed) := by
  rw [Mcu.auth_handleFrame, armedAfter]
  by_cases hc : f.isChallenge = true
  · -- a challenge is about the nonce as it is, and withdraws the last answer
    rw [Auth.afterFrame, if_pos hc, if_pos hc]
    refine ⟨?_, fun _ => rfl, fun _ hd => Bool.noConfusion hd, fun hd => Bool.noConfusion hd,
      h.progress.of_not_working (hquiet (.inr hc)) _⟩
    rintro nonce ⟨⟩
    rfl
  rw [if_neg hc]
  by_cases hn : f.isNonce = true
  · rw [if_pos hn]
    have hsame : (m.auth.afterFrame f).nokey = m.auth.nokey ∧
        (m.auth.afterFrame f).done = m.auth.done := by
      unfold Auth.afterFrame
      rw [if_neg hc]
      split
      · split <;> exact ⟨rfl, rfl⟩
      · exact ⟨rfl, rfl⟩
    refine ⟨(fun _ hnone => nomatch hnone), ?_, ?_, fun _ _ hne => absurd rfl hne,
      h.progress.of_not_working (hquiet (.inl hn)) _⟩
    · rw [hsame.1]
      exact h.keyed
    · rw [hsame.1, hsame.2]
      exact h.keyless
  · rw [if_neg hn, Auth.afterFrame_of_other (Bool.eq_false_iff.mpr hn) (Bool.eq_false_iff.mpr hc)]
    exact h

/-- The service copies word after word. -/
theorem nonceBytes_take (nonce : Fin 4 → BitVec 32) (i : Fin 4) :
    ((List.finRange 4).take i).flatMap (fun j => be32 (nonce j)) ++ be32 (nonce i) =
      ((List.finRange 4).take (i + 1)).flatMap fun j => be32 (nonce j) := by
  rw [List.take_add_one, List.flatMap_append]
  simp

/-- An access of the main loop. -/
theorem AuthInv.main (cycles : BitVec 32) (h : AuthInv key m.auth pc armed) :
    AuthInv key (mainStep key cycles pc m).2.auth (mainStep key cycles pc m).1 armed := by
  have hp := h.progress
  cases pc with
  | poll =>
      refine ⟨h.latest, h.keyed, h.keyless, h.right, ?_⟩
      unfold mainStep
      dsimp only
      split <;> trivial
  | clear => exact ⟨h.latest, h.keyed, h.keyless, h.right, rfl⟩
  | loadNonce i nonce =>
      refine ⟨h.latest, h.keyed, h.keyless, h.right, ?_⟩
      have hmore := nonceBytes_take m.authNonce i
      unfold mainStep
      dsimp only
      rw [show nonce = _ from hp]
      split
      · next hi =>
        subst hi
        exact hmore
      · next hi =>
        rw [Progress, Fin.val_add_one_of_lt (Fin.lt_last_iff_ne_last.mpr hi)]
        exact hmore
  | compute nonce =>
      refine ⟨h.latest, h.keyed, h.keyless, h.right, ?_⟩
      unfold mainStep
      dsimp only
      split
      · next hkey => exact ⟨hkey, congrArg _ hp⟩
      · next hkey => exact Bool.eq_false_iff.mpr hkey
  | clearMac i =>
      refine ⟨h.latest, h.keyed, h.keyless, fun hd hk => ?_, ?_⟩
      · exact absurd (h.keyless hp hd) (Bool.eq_false_iff.mp hk)
      · unfold mainStep
        dsimp only
        split <;> exact hp
  | nokeyLoad => exact ⟨h.latest, h.keyed, h.keyless, h.right, hp⟩
  | nokeyStore status =>
      have hbit : (mainStep key cycles (.nokeyStore status) m).2.auth.nokey = true := by
        simp [mainStep, Mcu.auth, stAuthNokey]
      refine ⟨h.latest, fun hk => ?_, fun _ _ => hbit, fun _ hk => ?_, trivial⟩
      · cases hk.symm.trans hp
      · cases hk.symm.trans hbit
  | storeCycles mac =>
      exact ⟨h.latest, h.keyed, h.keyless, h.right, hp.1, hp.2,
        fun j hj => absurd hj (Fin.not_lt_zero j)⟩
  | storeMac i mac =>
      obtain ⟨hkey, hmac, hbelow⟩ := hp
      refine ⟨h.latest, h.keyed, h.keyless, fun hd hk ha j => ?_, ?_⟩
      · -- the answer is what it is already
        by_cases hj : j = i
        · subst hj
          exact (Function.update_self ..).trans (congrArg (wordAt · j) hmac)
        · exact (Function.update_of_ne hj ..).trans (h.right hd hk ha j)
      · have hupto : ∀ j ≤ i, Function.update m.authMac i (wordAt mac i) j = wordAt mac j := by
          intro j hj
          rcases hj.lt_or_eq with hlt | rfl
          · exact (Function.update_of_ne hlt.ne ..).trans (hbelow j hlt)
          · exact Function.update_self ..
        unfold mainStep
        dsimp only
        split
        · next hi =>
          refine ⟨hkey, fun j => (hupto j ?_).trans (congrArg (wordAt · j) hmac)⟩
          rw [hi]
          exact Fin.le_last j
        · next hi =>
          refine ⟨hkey, hmac, fun j hj => hupto j ?_⟩
          rw [Fin.lt_def, Fin.val_add_one_of_lt (Fin.lt_last_iff_ne_last.mpr hi)] at hj
          exact Nat.lt_succ_iff.mp hj
  | doneLoad => exact ⟨h.latest, h.keyed, h.keyless, h.right, hp.1, hp.2, h.keyed hp.1⟩
  | doneStore status =>
      obtain ⟨hkey, hright, hst⟩ := hp
      refine ⟨h.latest, fun _ => ?_, fun hk => ?_, fun _ _ _ => hright, trivial⟩
      · simpa [mainStep, Mcu.auth, stAuthBusy, stAuthDone] using hst
      · cases hk.symm.trans hkey

/-- The main loop never withdraws an answer. -/
theorem mainStep_done (cycles : BitVec 32) (h : m.auth.done = true) :
    (mainStep key cycles pc m).2.auth.done = true := by
  cases pc with
  | nokeyStore status => simp [mainStep, Mcu.auth, stAuthDone]
  | doneStore status => simp [mainStep, Mcu.auth, stAuthDone]
  | poll | clear | loadNonce | compute | clearMac | nokeyLoad | storeCycles | storeMac | doneLoad =>
      exact h

end Steps

/-! ## The answer is fresh -/

section Runs

variable {key : Key} {x y : AuthBoard} {e : AuthEvent}

/-- What holds at all times. -/
def AuthBoard.Inv (key : Key) (x : AuthBoard) : Prop :=
  AuthInv key x.board.mcu.auth x.main x.armed

theorem AuthBoard.Inv.next (h : x.Inv key) (hok : Quiet x e) (hn : x.next key e = some y) :
    y.Inv key := by
  cases e with
  | main cycles =>
      dsimp only [AuthBoard.next] at hn
      split at hn
      · cases hn
        exact AuthInv.main cycles h
      · cases hn
  | board e =>
      obtain ⟨b, hb, rfl⟩ := Option.map_eq_some_iff.mp hn
      have hauth := Board.auth_next hb
      cases e with
      | frame f =>
          cases hb
          exact AuthInv.frame h hok
      | spiError | tick | tim =>
          unfold AuthBoard.Inv
          rw [hauth]
          exact h

theorem AuthBoard.Inv.of_reach (h : (authMachine key).Reach Quiet x) : x.Inv key := by
  refine h.invariant ?_ fun _ _ _ inv hok hn => inv.next hok hn
  rintro _ rfl
  refine ⟨(fun _ hnone => nomatch hnone), fun _ => rfl, fun _ hd => ?_, fun _ _ hne => ?_, trivial⟩
  · cases hd
  · exact absurd rfl hne

theorem quiet_of_undisturbed (h : Undisturbed x e) : Quiet x e := by
  unfold Undisturbed at h
  unfold Quiet
  split
  · next f =>
    rintro (hn | hc)
    · cases hn.symm.trans h.1
    · cases hc.symm.trans h.2
  · trivial

/-- The latest challenge has been answered. -/
structure Answered (key : Key) (nonce : Fin 4 → BitVec 32) (x : AuthBoard) : Prop where
  inv : x.Inv key
  done : x.board.mcu.auth.done = true
  nokey : x.board.mcu.auth.nokey = false
  armed : x.armed = some nonce

/-- It stays so until the next challenge. -/
theorem Answered.next {nonce : Fin 4 → BitVec 32} (h : Answered key nonce x)
    (hok : Undisturbed x e) (hn : x.next key e = some y) : Answered key nonce y := by
  have hinv := h.inv.next (quiet_of_undisturbed hok) hn
  have hkey : devauthKeyPresent key = true := by
    by_contra hk
    cases (h.inv.keyless (Bool.eq_false_iff.mpr hk) h.done).symm.trans h.nokey
  refine ⟨hinv, ?_, hinv.keyed hkey, ?_⟩
  · cases e with
    | main cycles =>
        dsimp only [AuthBoard.next] at hn
        split at hn
        · cases hn
          exact mainStep_done cycles h.done
        · cases hn
    | board e =>
        obtain ⟨b, hb, rfl⟩ := Option.map_eq_some_iff.mp hn
        rw [Board.auth_next hb]
        cases e with
        | frame f =>
            dsimp only
            rw [Auth.afterFrame_of_other hok.1 hok.2]
            exact h.done
        | spiError | tick | tim => exact h.done
  · cases e with
    | main cycles =>
        dsimp only [AuthBoard.next] at hn
        split at hn <;> cases hn
        exact h.armed
    | board e =>
        obtain ⟨b, hb, rfl⟩ := Option.map_eq_some_iff.mp hn
        cases e with
        | frame f =>
            dsimp only
            rw [armedAfter, hok.1, hok.2, if_neg Bool.false_ne_true, if_neg Bool.false_ne_true]
            exact h.armed
        | spiError | tick | tim => exact h.armed

end Runs

/-- A bit of a word that has been read. -/
theorem and_bit_eq_zero (v : BitVec 32) {i : ℕ} (hi : i < 32) :
    v &&& (1#32 <<< i) = 0 ↔ v.getLsbD i = false := by
  rw [← BitVec.twoPow_eq, BitVec.and_twoPow]
  cases hb : v.getLsbD i with
  | false => simp
  | true =>
      refine iff_of_false (fun h => ?_) Bool.noConfusion
      have hbit := congrArg (fun w : BitVec 32 => w.getLsbD i) h
      simp [hi] at hbit

/-- The MAC of a nonce, as the standards define it: the first 16 bytes of the HMAC. -/
def truncatedHmac (key : Key) (nonce : Fin 4 → BitVec 32) : List Byte :=
  (Sha256.hmac key.bytes
    (devauthDomain ++ be32 deviceId ++ be32 fwVersion ++ nonceBytes nonce)).take 16

theorem answer_eq (key : Key) (nonce : Fin 4 → BitVec 32) :
    answer key nonce = truncatedHmac key nonce := by
  rw [answer, devauthCompute, hmacSha256_eq, truncatedHmac]

/-- **The answer is fresh.**  The status is read in `x`, after the latest challenge; the words of
the MAC are read in states `y` before the next one. -/
theorem answer_fresh {key : Key} {x y : AuthBoard} {nonce : Fin 4 → BitVec 32}
    {es : List AuthEvent} (h : (authMachine key).Reach Quiet x) (hlatest : x.armed = some nonce)
    (hdone : (x.board.mcu.regRead .status).1 &&& stAuthDone ≠ 0)
    (hnokey : (x.board.mcu.regRead .status).1 &&& stAuthNokey = 0)
    (hr : (authMachine key).Run Undisturbed x es y) (i : Fin 4) :
    (y.board.mcu.regRead (.authMac i)).1 = wordAt (truncatedHmac key nonce) i := by
  have hx : Answered key nonce x := by
    refine ⟨.of_reach h, ?_, (and_bit_eq_zero _ (by decide)).mp hnokey, hlatest⟩
    exact Bool.of_not_eq_false fun hb => hdone ((and_bit_eq_zero _ (by decide)).mpr hb)
  have hy : Answered key nonce y := hr.preserves (fun _ _ _ hs hok hn => hs.next hok hn) hx
  have hright := hy.inv.right hy.done hy.nokey (by rw [hy.armed]; exact Option.some_ne_none _) i
  rw [hy.inv.latest nonce hy.armed, answer_eq] at hright
  exact hright

def zeroKey : Key := ⟨List.replicate 32 0, rfl⟩

/-- A write to a register. -/
def writeFrame (addr : BitVec 8) (val : BitVec 32) : AuthEvent :=
  .board (.frame (Frame.pack (addr ||| cmdWriteFlag) val))

/-- A challenge is answered. -/
theorem answer_fresh_first : ∃ x, (authMachine zeroKey).Reach Quiet x ∧
    (x.armed = some (fun _ => 0) ∧ (x.board.mcu.regRead .status).1 &&& stAuthDone ≠ 0 ∧
      (x.board.mcu.regRead .status).1 &&& stAuthNokey = 0) ∧
    ∀ i, (x.board.mcu.regRead (.authMac i)).1 = wordAt (truncatedHmac zeroKey fun _ => 0) i := by
  have hrun : ∃ x, (authMachine zeroKey).Reach Quiet x ∧
      x.armed = some (fun _ => 0) ∧ (x.board.mcu.regRead .status).1 &&& stAuthDone ≠ 0 ∧
      (x.board.mcu.regRead .status).1 &&& stAuthNokey = 0 :=
    Machine.exists_reach_of_exec (writeFrame 0x14 1 :: List.replicate 14 (.main 0)) rfl
      (by decide +kernel)
  obtain ⟨x, hx, hp⟩ := hrun
  exact ⟨x, hx, hp, fun i => answer_fresh hx hp.1 hp.2.1 hp.2.2 (.nil x) i⟩

/-- A second challenge, with another nonce, while the MAC of the first is being computed: the
status says that it is done, and the MAC is that of the first. -/
theorem stale_answer : ∃ x, (authMachine zeroKey).Reach Machine.Always x ∧
    ∃ nonce ∈ x.armed, (x.board.mcu.regRead .status).1 &&& stAuthDone ≠ 0 ∧
      (x.board.mcu.regRead .status).1 &&& stAuthNokey = 0 ∧
      (x.board.mcu.regRead (.authMac 0)).1 ≠ wordAt (truncatedHmac zeroKey nonce) 0 :=
  Machine.exists_reach_of_exec
    (List.flatten [[writeFrame 0x14 1], List.replicate 6 (.main 0),
      [writeFrame 0x10 1, writeFrame 0x14 1], List.replicate 8 (.main 0)]) rfl (by decide +kernel)

end DeviceAuth
