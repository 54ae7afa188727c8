/-
# Authentication, from the challenge to the verifier

Model of `auth_challenge_store` and `auth_response_show` (`driver/custom-acq/custom_acq.c`) over
the register protocol and the main loop of the MCU, and of `expected`, by which
`security/device-auth/mcu-auth-check.py` verifies the answer.

A caller writes a challenge and reads the response.  Its register operations take turns with
those of other threads; the main loop and the timer of the MCU run all the time; frames are lost,
though never two in a row (`authSystem`).  An exchange is troubled if the address frame of one of
its operations was lost, or a fault was injected; it is too early for each status it reads before
the MCU is done.

`round_trip` says what an exchange that does not overlap an earlier one comes to otherwise: the
text that the verifier expects, or `ENOKEY` if the MCU has no key.
-/
import DevicePlatform.Program
import DevicePlatform.RegisterProtocol
import DevicePlatform.DeviceAuth.Challenge

namespace DeviceAuth

/-! ## Texts -/

/-- `hex_to_bin`. -/
def hexToBin (c : Char) : Option ℕ :=
  if '0' ≤ c ∧ c ≤ '9' then some (c.toNat - '0'.toNat)
  else if 'a' ≤ c ∧ c ≤ 'f' then some (c.toNat - 'a'.toNat + 10)
  else if 'A' ≤ c ∧ c ≤ 'F' then some (c.toNat - 'A'.toNat + 10)
  else none

/-- `hex2bin`: `n` bytes. -/
def hex2bin : ℕ → List Char → Option (List Byte)
  | 0, _ => some []
  | n + 1, hi :: lo :: rest => do
      let hi ← hexToBin hi
      let lo ← hexToBin lo
      let more ← hex2bin n rest
      return BitVec.ofNat 8 (16 * hi + lo) :: more
  | _ + 1, _ => none

/-- A digit, as `%x` prints it. -/
def hexChar (n : ℕ) : Char := Char.ofNat (if n < 10 then '0'.toNat + n else 'a'.toNat + (n - 10))

/-- The two digits of each byte, as `%phN` prints them. -/
def hexText (l : List Byte) : List Char :=
  l.flatMap fun b => [hexChar (b.toNat / 16), hexChar (b.toNat % 16)]

/-- The text of the attributes `device_id` and `fw_version`: `0x%08x\n`. -/
def attributeText (v : BitVec 32) : List Char := ['0', 'x'] ++ hexText (be32 v) ++ ['\n']

/-! ## The verifier -/

/-- `int(x, 16)`, of a text that the shell has cut at the line's end. -/
def int16 (text : List Char) : Option ℕ :=
  match text with
  | '0' :: 'x' :: digits =>
      (digits.takeWhile (· ≠ '\n')).foldlM (fun n c => (hexToBin c).map (16 * n + ·)) 0
  | _ => none

/-- `expected`; `dev.to_bytes(4, "big")` is `be32`. -/
def expected (key : List Byte) (dev fw : ℕ) (nonce : List Byte) : List Char :=
  let msg := devauthDomain ++ be32 (BitVec.ofNat 32 dev) ++ be32 (BitVec.ofNat 32 fw) ++ nonce
  hexText ((Sha256.hmac key msg).take 16)

/-! ## The system -/

/-- The bus and the main loop.  `trouble` and `early` are about the exchange in progress: whether
one of its operations was disturbed, and how often it has read the status too early. -/
structure AuthSys where
  bus : SpiBus
  main : MainPc
  trouble : Bool
  early : ℕ

/-- The registers of the exchange. -/
def AuthSys.auth (s : AuthSys) : Auth := s.bus.board.mcu.auth

/-- What the driver returns. -/
inductive AuthError where
  | reg (e : Errno)
  | einval
  | etimedout
  | enokey
  deriving DecidableEq, Repr

/-- The thread that runs the exchange. -/
def caller : ℕ := 0

/-- Whether a frame is lost; `n` is the choice of the link. -/
def lossy (n : ℕ) (s : AuthSys) : Bool := n != 0 && !s.bus.lastLost

/-- `custom_acq_reg_read` and `custom_acq_reg_write`. -/
def regOp (op : RegOp) : Prog AuthSys (Except Errno (BitVec 32)) := do
  -- `mutex_lock(&priv->spi_lock)`
  Prog.attempt fun s => (s.bus.next (.call caller op)).map fun b => ((), { s with bus := b })
  let fault ← Prog.choose
  if fault ≠ 0 ∧ op = .read op.addr then
    Prog.attempt fun s => (s.bus.next .injectFault).map fun b =>
      (.error .eio, { s with bus := b, trouble := true })
  else do
    let n ← Prog.choose
    Prog.attempt fun s => (s.bus.next (.xfer (lossy n s))).map fun b =>
      ((), { s with bus := b, trouble := s.trouble || lossy n s })
    let n ← Prog.choose
    Prog.attempt fun s => (s.bus.next (.xfer (lossy n s))).map fun b =>
      (((b.calls.getLast?).map CallRecord.result).getD (.error .eio), { s with bus := b })

/-- `auth_challenge_store`. -/
def authChallengeStore (buf : List Char) : Prog AuthSys (Except AuthError ℕ) :=
  if buf.length < 32 then return .error .einval
  else
    match hex2bin 16 buf with
    | none => return .error .einval
    | some nonce => do
        let ret ← Prog.fold (List.finRange 4) (Except.ok 0)
          fun (ret : Except Errno (BitVec 32)) i =>
            match ret with
            | .error e => return .error e
            | .ok _ => regOp (.write (0x10#8 + BitVec.ofNat 8 i) (wordAt nonce i))
        match ret with
        | .error e => return .error (.reg e)
        | .ok _ => do
            let ret ← regOp (.write 0x14 1)
            match ret with
            | .error e => return .error (.reg e)
            | .ok _ => return .ok buf.length

/-- The loop that polls the status. -/
def pollStatus : Prog AuthSys (Except AuthError (BitVec 32)) :=
  Prog.repeatUntil 0 fun tries =>
    if tries < 100 then do
      let ret ← regOp (.read 0x02)
      match ret with
      | .error e => return .inr (.error (.reg e))
      | .ok status =>
          if status &&& stAuthDone ≠ 0 then return .inr (.ok status)
          else do
            Prog.write fun s => { s with early := s.early + 1 }
            return .inl (tries + 1)
    else return .inr (.error .etimedout)

/-- `auth_response_show`. -/
def authResponseShow : Prog AuthSys (Except AuthError (List Char)) := do
  let ret ← pollStatus
  match ret with
  | .error e => return .error e
  | .ok status =>
      if status &&& stAuthNokey ≠ 0 then return .error .enokey
      else do
        let ret ← Prog.fold (List.finRange 4) (Except.ok [])
          fun (ret : Except Errno (List Byte)) i =>
            match ret with
            | .error e => return .error e
            | .ok mac => do
                let word ← regOp (.read (0x15#8 + BitVec.ofNat 8 i))
                match word with
                | .error e => return .error e
                | .ok word => return .ok (mac ++ be32 word)
        match ret with
        | .error e => return .error (.reg e)
        | .ok mac => return .ok (hexText mac ++ ['\n'])

/-- A challenge, and its response. -/
def exchange (buf : List Char) : Prog AuthSys (Except AuthError (List Char)) := do
  let ret ← authChallengeStore buf
  match ret with
  | .error e => return .error e
  | .ok _ => authResponseShow

/-! ## The machine -/

/-- What else happens. -/
inductive Meanwhile where
  /-- On the bus: other threads' operations, and the timer. -/
  | bus (e : BusEvent)
  /-- The main loop. -/
  | main (cycles : BitVec 32)

/-- What happens meanwhile. -/
def AuthSys.meanwhile (key : Key) (s : AuthSys) : Meanwhile → Option AuthSys
  | .bus e => (s.bus.next e).map fun b => { s with bus := b }
  | .main cycles =>
      if s.bus.board.tim = .idle then
        let (pc, m) := mainStep key cycles s.main s.bus.board.mcu
        some { s with
          bus := { s.bus with board := { s.bus.board with mcu := m } }
          main := pc }
      else none

/-- A call that is over. -/
structure Finished (ρ β : Type) where
  request : ρ
  outcome : β
  trouble : Bool
  early : ℕ

/-- The system, with the call in progress and those that are over. -/
structure Session (ρ β : Type) where
  sys : AuthSys
  call : Option (ρ × Prog AuthSys β)
  finished : List (Finished ρ β)

inductive SessionStep (ρ : Type) where
  /-- The caller starts. -/
  | start (request : ρ)
  /-- The caller takes a step. -/
  | call (n : ℕ)
  /-- The caller has its result. -/
  | finish
  | meanwhile (e : Meanwhile)

/-- What a program has come to. -/
def outcome {α : Type} : Prog AuthSys α → Option α
  | .ret a => some a
  | _ => none

/-- The next state, if a caller runs `program`. -/
def Session.next {ρ β : Type} (key : Key) (program : ρ → Prog AuthSys β) (x : Session ρ β) :
    SessionStep ρ → Option (Session ρ β)
  | .start request =>
      match x.call with
      | none => some { x with
          sys := { x.sys with trouble := false, early := 0 }
          call := some (request, program request) }
      | some _ => none
  | .call n =>
      match x.call with
      | none => none
      | some (request, p) => (p.step n x.sys).map fun (p', s) =>
          { x with sys := s, call := some (request, p') }
  | .finish =>
      match x.call with
      | none => none
      | some (request, p) => (outcome p).map fun o => { x with
          call := none
          finished := x.finished ++ [⟨request, o, x.sys.trouble, x.sys.early⟩] }
  | .meanwhile e => (x.sys.meanwhile key e).map fun s => { x with sys := s }

/-- Calls of `program` to a device with `key`, from power-on. -/
def session {ρ β : Type} (key : Key) (program : ρ → Prog AuthSys β) :
    Machine (Session ρ β) (SessionStep ρ) where
  init x := x = ⟨⟨⟨Board.powerOn, none, false, []⟩, .poll, false, 0⟩, none, []⟩
  next := Session.next key program

/-- Authentication of a device with `key`. -/
def authSystem (key : Key) := session key exchange

/-- The register operations of the other threads are not about authentication, and the link loses
no two frames in a row. -/
def Traffic (s : AuthSys) : Meanwhile → Prop
  | .bus (.call t op) => t ≠ caller ∧ op.addr ≠ cmdNop ∧
      op.frame.isNonce = false ∧ op.frame.isChallenge = false
  | .bus .injectFault => ∀ h ∈ s.bus.lock, h.thread ≠ caller
  | .bus (.xfer lost) => (∀ h ∈ s.bus.lock, h.thread ≠ caller) ∧
      (lost = true → s.bus.lastLost = false)
  | _ => True

instance (s : AuthSys) (e : Meanwhile) : Decidable (Traffic s e) := by
  unfold Traffic
  split <;> infer_instance

/-- No call starts before the MCU is done with the last challenge. -/
def Separate {ρ β : Type} (x : Session ρ β) : SessionStep ρ → Prop
  | .start _ => x.sys.main = .poll ∧ x.sys.auth.request = false
  | .meanwhile e => Traffic x.sys e
  | _ => True

instance {ρ β : Type} (x : Session ρ β) (e : SessionStep ρ) : Decidable (Separate x e) := by
  unfold Separate
  split <;> infer_instance

/-! ## What the caller relies on -/

/-- The main loop keeps `A`. -/
def Stable (key : Key) (A : Auth → MainPc → Prop) : Prop :=
  ∀ cycles m pc, A m.auth pc →
    A (mainStep key cycles pc m).2.auth (mainStep key cycles pc m).1

/-- The bus is in order, and what the other threads do is not about authentication. -/
structure SysInv (s : AuthSys) : Prop where
  bus : s.bus.Inv
  others : ∀ h ∈ s.bus.lock, h.thread ≠ caller →
    h.op.frame.isNonce = false ∧ h.op.frame.isChallenge = false

/-- What happens between two steps of the caller. -/
structure Moves (key : Key) (s t : AuthSys) : Prop where
  held : ∀ h, s.bus.lock = some h → h.thread = caller → t.bus.lock = some h
  trouble : t.trouble = s.trouble
  early : t.early = s.early
  auth : ∀ A, Stable key A → A s.auth s.main → A t.auth t.main

/-- The protocol of the caller. -/
def calling (key : Key) : Protocol AuthSys where
  inv := SysInv
  rely := Moves key
  guar _ _ := True
  assumed _ := True
  total := False
  rely_refl _ := ⟨fun _ h _ => h, rfl, rfl, fun _ _ h => h⟩
  rely_trans h₁ h₂ := ⟨fun h hl hc => h₂.held h (h₁.held h hl hc) hc,
    h₂.trouble.trans h₁.trouble, h₂.early.trans h₁.early,
    fun A hA h => h₂.auth A hA (h₁.auth A hA h)⟩
  guar_refl _ := trivial

/-- A NOP frame is not about authentication. -/
theorem auth_nopFrame (m : Mcu) : (m.handleFrame nopFrame).auth = m.auth := by
  rw [Mcu.auth_handleFrame]
  exact Auth.afterFrame_of_other rfl rfl

section Bus

variable {key : Key} {s t : AuthSys} {b : SpiBus} {lost : Bool}

theorem mainStep_txBuf (cycles : BitVec 32) (pc : MainPc) (m : Mcu) :
    (mainStep key cycles pc m).2.txBuf = m.txBuf := by
  cases pc <;> rfl

/-- The frame of the holder of the lock. -/
theorem bus_xfer {h : Holder} (hl : s.bus.lock = some h) (hn : s.bus.next (.xfer lost) = some b) :
    if h.addrSent then
      b.lock = none ∧ b.board.mcu.auth = s.auth ∧
        b.calls.getLast?.map CallRecord.result = some (h.op.finish s.bus.board.mcu.txBuf)
    else
      if lost then b.lock = some { h with addrSent := true } ∧ b.board.mcu.auth = s.auth
      else b.lock = some { h with
            addrSent := true
            executed := h.executed + 1
            computed := some (s.bus.board.mcu.respond h.op.frame).1 } ∧
          b.board.mcu.auth = s.auth.afterFrame h.op.frame := by
  simp only [SpiBus.next, hl] at hn
  split at hn
  · next hsent =>
    cases hn
    rw [if_pos hsent]
    refine ⟨rfl, ?_, ?_⟩
    · cases lost with
      | true => exact Mcu.auth_errorCallback _
      | false => exact auth_nopFrame _
    · simp only [SpiBus.ret, List.getLast?_concat, Option.map_some]
  · next hsent =>
    cases hn
    rw [if_neg hsent]
    cases lost with
    | true => exact ⟨rfl, Mcu.auth_errorCallback _⟩
    | false => exact ⟨rfl, Mcu.auth_handleFrame _ _⟩

/-- **What happens meanwhile** is what the caller relies on. -/
theorem Moves.of_meanwhile {e : Meanwhile} (hs : SysInv s) (hok : Traffic s e)
    (hn : s.meanwhile key e = some t) : Moves key s t ∧ SysInv t := by
  cases e with
  | main cycles =>
      dsimp only [AuthSys.meanwhile] at hn
      split at hn
      · cases hn
        exact ⟨⟨fun _ h _ => h, rfl, rfl, fun A hA h => hA cycles _ _ h⟩,
          hs.bus.timer (mainStep_txBuf cycles _ _), hs.others⟩
      · cases hn
  | bus e =>
      obtain ⟨b, hb, rfl⟩ := Option.map_eq_some_iff.mp hn
      have hspaced : s.bus.Spaced e := by
        cases e with
        | call t op => exact hok.2.1
        | xfer lost => exact hok.2
        | injectFault | tick | tim => trivial
      have hbus := hs.bus.next hspaced hb
      have hauth : ∀ {a : Auth}, a = s.auth →
          ∀ A : Auth → MainPc → Prop, Stable key A → A s.auth s.main → A a s.main := by
        rintro a rfl A - h
        exact h
      cases e with
      | call t op =>
          cases hl : s.bus.lock with
          | some h => simp only [SpiBus.next, hl, reduceCtorEq] at hb
          | none =>
              simp only [SpiBus.next, hl, Option.some.injEq] at hb
              subst hb
              refine ⟨⟨fun h hh => ?_, rfl, rfl, hauth rfl⟩, hbus, ?_⟩
              · cases hl.symm.trans hh
              · rintro _ ⟨⟩ -
                exact hok.2.2
      | injectFault =>
          have hfree : b.lock = none ∧ b.board = s.bus.board := by
            simp only [SpiBus.next] at hb
            split at hb
            · split at hb
              · split at hb <;> cases hb
                exact ⟨rfl, rfl⟩
              · cases hb
            · cases hb
          refine ⟨⟨fun h hh hc => absurd hc (hok h hh), rfl, rfl, hauth ?_⟩, hbus, ?_⟩
          · exact congrArg (fun b : Board => b.mcu.auth) hfree.2
          · rintro h hh
            cases hfree.1.symm.trans hh
      | xfer lost =>
          cases hl : s.bus.lock with
          | none => simp only [SpiBus.next, hl, reduceCtorEq] at hb
          | some h =>
              have hne := hok.1 h hl
              have hother := hs.others h hl hne
              -- a frame of another thread
              have hmove := bus_xfer hl hb
              have hsame : b.board.mcu.auth = s.auth ∧ ∀ h' ∈ b.lock, h'.op = h.op := by
                split at hmove
                · refine ⟨hmove.2.1, fun h' hh => ?_⟩
                  cases hmove.1.symm.trans hh
                · split at hmove
                  · refine ⟨hmove.2, fun h' hh => ?_⟩
                    cases hmove.1.symm.trans hh
                    rfl
                  · refine ⟨?_, fun h' hh => ?_⟩
                    · rw [hmove.2, Auth.afterFrame_of_other hother.1 hother.2]
                    · cases hmove.1.symm.trans hh
                      rfl
              refine ⟨⟨fun h' hh hc => ?_, rfl, rfl, hauth hsame.1⟩, hbus, fun h' hh _ => ?_⟩
              · cases hl.symm.trans hh
                exact absurd hc hne
              · rw [hsame.2 h' hh]
                exact hother
      | tick =>
          obtain ⟨b', hb', rfl⟩ := Option.map_eq_some_iff.mp hb
          exact ⟨⟨fun _ h _ => h, rfl, rfl, hauth (Board.auth_next hb')⟩, hbus, hs.others⟩
      | tim =>
          obtain ⟨b', hb', rfl⟩ := Option.map_eq_some_iff.mp hb
          exact ⟨⟨fun _ h _ => h, rfl, rfl, hauth (Board.auth_next hb')⟩, hbus, hs.others⟩

end Bus

/-! ## A register operation -/

/-- The value that a successful operation returns, if the MCU handles it in the state `m`. -/
def opValue (op : RegOp) (m : Mcu) : BitVec 32 :=
  match op with
  | .read _ => (m.respond op.frame).1
  | .write _ _ => 0

section Operation

variable {key : Key} {s : AuthSys} {op : RegOp} {A : Auth → MainPc → Prop}
  {B : BitVec 32 → Auth → MainPc → Prop}

/-- What a register operation leaves behind. -/
def AfterOp (A : Auth → MainPc → Prop) (B : BitVec 32 → Auth → MainPc → Prop) (s : AuthSys)
    (r : Except Errno (BitVec 32)) (t : AuthSys) : Prop :=
  t.early = s.early ∧
    match r with
    | .ok v => t.trouble = s.trouble ∧ B v t.auth t.main
    | .error _ => t.trouble = true ∧ A t.auth t.main

/-- Between the two frames: the operation has taken effect, or its address frame was lost. -/
def Between (op : RegOp) (A : Auth → MainPc → Prop) (B : BitVec 32 → Auth → MainPc → Prop)
    (s t : AuthSys) : Prop :=
  ∃ h, t.bus.lock = some h ∧ h.thread = caller ∧ h.op = op ∧ h.addrSent = true ∧
    t.early = s.early ∧
    (h.executed = 0 ∧ t.trouble = true ∧ A t.auth t.main ∨
      h.executed = 1 ∧ t.trouble = s.trouble ∧ ∃ v, h.computed = some v ∧
        B (match op with
          | .read _ => v
          | .write _ _ => 0) t.auth t.main)

/-- The NOP frame that collects the reply. -/
theorem collect_spec {t : AuthSys} (hA : Stable key A) (hB : ∀ v, Stable key (B v))
    (ht : Between op A B s t) (n : ℕ) :
    (Prog.attempt fun s => (s.bus.next (.xfer (lossy n s))).map fun b =>
      (((b.calls.getLast?).map CallRecord.result).getD (.error .eio), { s with bus := b })).wp
        (calling key) (AfterOp A B s) t := by
  refine Prog.wp_last (Prog.wp_attempt id fun t' hr ht' _ u hu => ?_)
  obtain ⟨b, hb, hu⟩ := Option.map_eq_some_iff.mp hu
  cases hu
  obtain ⟨h, hl, hc, hop, hsent, hearly, hcase⟩ := ht
  have hl' := hr.held h hl hc
  have hlost : lossy n t' = true → t'.bus.lastLost = false := by
    intro hlossy
    simpa [lossy] using (Bool.and_eq_true_iff.mp hlossy).2
  have hmove := bus_xfer hl' hb
  rw [if_pos hsent] at hmove
  obtain ⟨hlock, hauth, hresult⟩ := hmove
  refine ⟨⟨ht'.bus.next (e := .xfer _) hlost hb, ?_⟩, trivial, hr.early.trans hearly, ?_⟩
  · intro h' hh
    cases hlock.symm.trans hh
  · -- what `tx_buf` holds
    have hholder := ht'.bus.1
    rw [hl'] at hholder
    have htx := hholder.2
    rw [if_pos hsent] at htx
    rw [hresult, Option.getD_some]
    rcases hcase with ⟨hexec, htrouble, ha⟩ | ⟨hexec, htrouble, v, hv, hb⟩
    · obtain ⟨-, -, hnop⟩ := htx.resolve_left fun hx => by
        rw [hexec] at hx
        exact absurd hx.1 (by decide)
      have hne : t'.bus.board.mcu.txBuf.cmd ≠ h.op.cmd := by
        rw [hnop]
        exact (RegOp.cmd_ne_cmdNop hholder.1).symm
      unfold RegOp.finish
      rw [if_pos hne]
      refine ⟨hr.trouble.trans htrouble, ?_⟩
      show A b.board.mcu.auth _
      rw [hauth]
      exact hr.auth A hA ha
    · obtain ⟨-, w, hw, htx⟩ := htx.resolve_right fun hx => by
        rw [hexec] at hx
        exact absurd hx.1 (by decide)
      cases hv.symm.trans hw
      have heq : ¬ t'.bus.board.mcu.txBuf.cmd ≠ h.op.cmd := by rw [htx]; simp
      have hBt := hr.auth _ (hB _) hb
      unfold RegOp.finish
      rw [if_neg heq, hop]
      cases op with
      | read addr =>
          refine ⟨hr.trouble.trans htrouble, ?_⟩
          show B _ b.board.mcu.auth _
          rw [hauth, htx, Frame.word_pack]
          exact hBt
      | write addr val =>
          refine ⟨hr.trouble.trans htrouble, ?_⟩
          show B _ b.board.mcu.auth _
          rw [hauth]
          exact hBt

/-- **A register operation** takes effect once, or not at all. -/
theorem regOp_spec (op : RegOp) (haddr : op.addr ≠ cmdNop) (hA : Stable key A)
    (hB : ∀ v, Stable key (B v))
    (heffect : ∀ m pc, A m.auth pc → B (opValue op m) (m.auth.afterFrame op.frame) pc)
    (ha : A s.auth s.main) :
    (regOp op).wp (calling key) (AfterOp A B s) s := by
  refine Prog.wp_attempt id fun t₁ hr₁ ht₁ _ u₁ hu₁ => ?_
  obtain ⟨b₁, hb₁, hu₁⟩ := Option.map_eq_some_iff.mp hu₁
  cases hu₁
  have hbus₁ := ht₁.bus.next (e := .call caller op) haddr hb₁
  have hnone : t₁.bus.lock = none := by
    cases hl₁ : t₁.bus.lock with
    | none => rfl
    | some h => simp only [SpiBus.next, hl₁, reduceCtorEq] at hb₁
  simp only [SpiBus.next, hnone, Option.some.injEq] at hb₁
  subst hb₁
  refine ⟨⟨hbus₁, ?_⟩, trivial, Prog.wp_choose fun fault => ?_⟩
  · rintro _ ⟨⟩ hne
    exact absurd rfl hne
  split
  · -- the operation fails before it has sent anything
    refine Prog.wp_last (Prog.wp_attempt id fun t₂ hr₂ ht₂ _ u₂ hu₂ => ?_)
    obtain ⟨b₂, hb₂, hu₂⟩ := Option.map_eq_some_iff.mp hu₂
    cases hu₂
    have hbus₂ := ht₂.bus.next (e := .injectFault) trivial hb₂
    have hl₂ := hr₂.held _ rfl rfl
    have hfree : b₂.lock = none ∧ b₂.board = t₂.bus.board := by
      simp only [SpiBus.next, hl₂] at hb₂
      split at hb₂
      · cases hb₂
        exact ⟨rfl, rfl⟩
      · cases hb₂
    refine ⟨⟨hbus₂, ?_⟩, trivial, hr₂.early.trans hr₁.early, rfl, ?_⟩
    · intro h hh
      cases hfree.1.symm.trans hh
    · show A b₂.board.mcu.auth _
      rw [hfree.2]
      exact hr₂.auth A hA (hr₁.auth A hA ha)
  · refine Prog.wp_choose fun n => Prog.wp_attempt id fun t₂ hr₂ ht₂ _ u₂ hu₂ => ?_
    obtain ⟨b₂, hb₂, hu₂⟩ := Option.map_eq_some_iff.mp hu₂
    cases hu₂
    have hlost : lossy n t₂ = true → t₂.bus.lastLost = false := by
      intro hlossy
      simpa [lossy] using (Bool.and_eq_true_iff.mp hlossy).2
    have hl₂ := hr₂.held _ rfl rfl
    have hA₂ := hr₂.auth A hA (hr₁.auth A hA ha)
    have hmove := bus_xfer hl₂ hb₂
    rw [if_neg Bool.false_ne_true] at hmove
    have hbus₂ := ht₂.bus.next (e := .xfer _) hlost hb₂
    have hbetween :
        Between op A B s { t₂ with bus := b₂, trouble := t₂.trouble || lossy n t₂ } := by
      split at hmove
      · next hlossy =>
        refine ⟨_, hmove.1, rfl, rfl, rfl, hr₂.early.trans hr₁.early, .inl ⟨rfl, ?_, ?_⟩⟩
        · show (t₂.trouble || lossy n t₂) = true
          rw [hlossy, Bool.or_true]
        · show A b₂.board.mcu.auth _
          rw [hmove.2]
          exact hA₂
      · next hlossy =>
        refine ⟨_, hmove.1, rfl, rfl, rfl, hr₂.early.trans hr₁.early, .inr ⟨rfl, ?_, _, rfl, ?_⟩⟩
        · show (t₂.trouble || lossy n t₂) = _
          rw [Bool.eq_false_iff.mpr hlossy, Bool.or_false]
          exact hr₂.trouble.trans hr₁.trouble
        · show B _ b₂.board.mcu.auth _
          rw [hmove.2]
          have := heffect _ _ hA₂
          cases op <;> exact this
    refine ⟨⟨hbus₂, ?_⟩, trivial, Prog.wp_choose fun n' => collect_spec hA hB hbetween n'⟩
    obtain ⟨h, hh, hc, -⟩ := hbetween
    intro h' hh' hne
    cases hh.symm.trans hh'
    exact absurd hc hne

end Operation

/-! ## The bytes -/

/-- The bytes of the four words of 16 bytes. -/
theorem flatMap_be32_wordAt {l : List Byte} (h : l.length = 16) :
    (List.finRange 4).flatMap (fun i => be32 (wordAt l i)) = l := by
  match l, h with
  | [_, _, _, _, _, _, _, _, _, _, _, _, _, _, _, _], _ =>
      show be32 (wordAt _ 0) ++ (be32 (wordAt _ 1) ++ (be32 (wordAt _ 2) ++
        (be32 (wordAt _ 3) ++ []))) = _
      simp only [wordAt, be32_ofBe32]
      rfl

theorem length_hex2bin {n : ℕ} {buf : List Char} {bytes : List Byte}
    (h : hex2bin n buf = some bytes) : bytes.length = n ∧ 2 * n ≤ buf.length := by
  induction n, buf using hex2bin.induct generalizing bytes with
  | case1 buf =>
      cases h
      exact ⟨rfl, Nat.zero_le _⟩
  | case2 n hi lo rest ih =>
      simp only [hex2bin, Option.bind_eq_bind, Option.bind_eq_some_iff, Option.pure_def,
        Option.some.injEq] at h
      obtain ⟨_, -, _, -, more, hmore, rfl⟩ := h
      obtain ⟨hlen, hle⟩ := ih hmore
      simp only [List.length_cons]
      omega
  | case3 n buf hshort =>
      rw [hex2bin] at h
      · cases h
      · exact hshort

theorem length_answer (key : Key) (nonce : Fin 4 → BitVec 32) : (answer key nonce).length = 16 := by
  rw [answer_eq, truncatedHmac, List.length_take]
  rfl

theorem hexToBin_hexChar : ∀ n < 16, hexToBin (hexChar n) = some n := by decide

theorem hexChar_ne : ∀ n < 16, hexChar n ≠ '\n' := by decide

/-- The number that a text of digits stands for. -/
theorem foldlM_hexText (l : List Byte) (n : ℕ) :
    (hexText l).foldlM (fun n c => (hexToBin c).map (16 * n + ·)) n =
      some (l.foldl (fun n b => 256 * n + b.toNat) n) := by
  induction l generalizing n with
  | nil => rfl
  | cons b l ih =>
      have hb := b.isLt
      have hstep : 16 * (16 * n + b.toNat / 16) + b.toNat % 16 = 256 * n + b.toNat := by omega
      show (hexChar _ :: hexChar _ :: hexText l).foldlM _ n = _
      rw [List.foldlM_cons, hexToBin_hexChar _ (by omega), Option.map_some, Option.bind_eq_bind,
        Option.bind_some, List.foldlM_cons, hexToBin_hexChar _ (by omega), Option.map_some,
        Option.bind_eq_bind, Option.bind_some, hstep, ih, List.foldl_cons]

/-- The verifier reads the attributes as the numbers that they are. -/
theorem int16_attributeText (v : BitVec 32) : int16 (attributeText v) = some v.toNat := by
  have hline : (hexText (be32 v) ++ ['\n']).takeWhile (· ≠ '\n') = hexText (be32 v) := by
    rw [List.takeWhile_append_of_pos, List.takeWhile_cons_of_neg (by decide), List.append_nil]
    intro c hc
    obtain ⟨b, -, hc⟩ := List.mem_flatMap.mp hc
    have hb := b.isLt
    rw [decide_eq_true_eq]
    rcases List.mem_cons.mp hc with rfl | hc
    · exact hexChar_ne _ (by omega)
    · cases List.mem_singleton.mp hc
      exact hexChar_ne _ (by omega)
  show ((hexText (be32 v) ++ ['\n']).takeWhile _).foldlM _ 0 = _
  rw [hline, foldlM_hexText]
  have hv := v.isLt
  simp only [be32, List.foldl_cons, List.foldl_nil, BitVec.toNat_setWidth,
    BitVec.toNat_ushiftRight, Nat.shiftRight_eq_div_pow, Option.some.injEq]
  omega

/-! ## The exchange -/

section Exchange

variable {key : Key} {s : AuthSys} {nonce : List Byte}

/-- The service waits, and no challenge is pending. -/
structure Idle (key : Key) (a : Auth) (pc : MainPc) : Prop where
  poll : pc = .poll
  request : a.request = false
  inv : AuthInv key a pc none

/-- The nonce has been written, except for the words in `l`. -/
def Written (key : Key) (nonce : List Byte) (l : List (Fin 4)) (a : Auth) (pc : MainPc) : Prop :=
  Idle key a pc ∧ ∀ j ∉ l, a.nonce j = wordAt nonce j

/-- The challenge has been made. -/
def Challenged (key : Key) (nonce : List Byte) (a : Auth) (pc : MainPc) : Prop :=
  AuthInv key a pc (some (wordAt nonce))

/-- The challenge has been answered. -/
def Done (key : Key) (nonce : List Byte) (a : Auth) (pc : MainPc) : Prop :=
  Challenged key nonce a pc ∧ a.done = true

theorem stable_written (l : List (Fin 4)) : Stable key (Written key nonce l) := by
  rintro cycles m pc ⟨hidle, hwritten⟩
  have hstay : mainStep key cycles pc m = (.poll, m) := by
    have hrequest : m.authRequest = false := hidle.request
    rw [hidle.poll, mainStep, hrequest, if_neg Bool.false_ne_true]
  rw [hstay]
  refine ⟨⟨rfl, hidle.request, ?_⟩, hwritten⟩
  rw [← hidle.poll]
  exact hidle.inv

theorem stable_challenged : Stable key (Challenged key nonce) := fun cycles _ _ h => h.main cycles

theorem stable_done : Stable key (Done key nonce) :=
  fun cycles _ _ h => ⟨h.1.main cycles, mainStep_done cycles h.2⟩

theorem stable_service : Stable key fun a pc => ∃ armed, AuthInv key a pc armed :=
  fun cycles _ _ ⟨armed, h⟩ => ⟨armed, h.main cycles⟩

/-- Writing a word of the nonce. -/
theorem Written.write {i : Fin 4} {l : List (Fin 4)} {m : Mcu} {pc : MainPc}
    (h : Written key nonce (i :: l) m.auth pc) :
    Written key nonce l
      (m.auth.afterFrame (RegOp.write (0x10#8 + BitVec.ofNat 8 i) (wordAt nonce i)).frame) pc := by
  generalize hf : (RegOp.write (0x10#8 + BitVec.ofNat 8 i) (wordAt nonce i)).frame = f
  have hcmd : ∀ i : Fin 4, let f := Frame.pack ((0x10#8 + BitVec.ofNat 8 i) ||| cmdWriteFlag) 0
      f.isWrite = true ∧ f.reg = .authNonce i := by decide
  have hwrite : f.isWrite = true := hf ▸ (hcmd i).1
  have hreg : f.reg = .authNonce i := hf ▸ (hcmd i).2
  have hnot : f.isChallenge = false := by
    rw [Frame.isChallenge, hreg]
    simp
  have hword : f.word = wordAt nonce i := by
    rw [← hf]
    exact Frame.word_pack _ _
  have hauth : m.auth.afterFrame f =
      { m.auth with nonce := Function.update m.auth.nonce i (wordAt nonce i) } := by
    rw [Auth.afterFrame, hnot, if_neg Bool.false_ne_true, if_pos hwrite, hreg, hword]
  have hinv := h.1.inv.frame (f := f) fun _ => by rw [h.1.poll]; rfl
  rw [Mcu.auth_handleFrame, armedAfter, hnot, if_neg Bool.false_ne_true, ite_self] at hinv
  refine ⟨⟨h.1.poll, ?_, hinv⟩, fun j hj => ?_⟩
  · rw [hauth]
    exact h.1.request
  · rw [hauth]
    by_cases hij : j = i
    · subst hij
      exact Function.update_self ..
    · exact (Function.update_of_ne hij ..).trans
        (h.2 j fun hmem => (List.mem_cons.mp hmem).elim hij hj)

/-- The challenge. -/
theorem Written.challenge {m : Mcu} {pc : MainPc} (h : Written key nonce [] m.auth pc) :
    Challenged key nonce (m.auth.afterFrame (RegOp.write 0x14 1).frame) pc := by
  have hinv := h.1.inv.frame (f := (RegOp.write 0x14 1).frame) fun _ => by rw [h.1.poll]; rfl
  have hnonce : m.authNonce = wordAt nonce := funext fun j => h.2 j List.not_mem_nil
  rw [Mcu.auth_handleFrame, armedAfter, if_pos (by decide), hnonce] at hinv
  exact hinv

/-- `auth_challenge_store`, of 32 digits. -/
theorem authChallengeStore_spec {buf : List Char} (hbuf : hex2bin 16 buf = some nonce)
    (hidle : Idle key s.auth s.main) :
    (authChallengeStore buf).wp (calling key) (fun r t => t.early = s.early ∧
      match r with
      | .ok _ => Challenged key nonce t.auth t.main
      | .error e => (t.trouble = true ∧ ∃ e', e = .reg e') ∧
          ∃ armed, AuthInv key t.auth t.main armed) s := by
  have hlen := (length_hex2bin hbuf).2
  unfold authChallengeStore
  rw [if_neg (by omega), hbuf]
  refine Prog.wp_seq (Prog.wp_fold (fun l (r : Except Errno (BitVec 32)) t => t.early = s.early ∧
    match r with
    | .ok _ => Written key nonce l t.auth t.main
    | .error _ => t.trouble = true ∧ ∃ armed, AuthInv key t.auth t.main armed) ?_ ?_) ?_
  · exact ⟨rfl, hidle, fun j hj => absurd (List.mem_finRange j) hj⟩
  · rintro i l (e | v) t ⟨hearly, ht⟩
    · exact ⟨hearly, ht⟩
    · have haddr : ∀ i : Fin 4, 0x10#8 + BitVec.ofNat 8 i ≠ cmdNop := by decide
      refine Prog.wp_mono (regOp_spec (.write _ _) (haddr i) (stable_written (i :: l))
        (fun _ => stable_written l) (fun m pc h => h.write) ht) ?_
      rintro (e | v) u ⟨hearly', hu⟩
      · exact ⟨hearly'.trans hearly, hu.1, _, hu.2.1.inv⟩
      · exact ⟨hearly'.trans hearly, hu.2⟩
  · rintro (e | v) t ⟨hearly, ht⟩
    · exact ⟨hearly, ⟨ht.1, e, rfl⟩, ht.2⟩
    · refine Prog.wp_seq (regOp_spec (.write _ _) (by decide) (stable_written [])
        (fun _ => stable_challenged) (fun m pc h => h.challenge) ht) ?_
      rintro (e | v) u ⟨hearly', hu⟩
      · exact ⟨hearly'.trans hearly, ⟨hu.1, e, rfl⟩, _, hu.2.1.inv⟩
      · exact ⟨hearly'.trans hearly, hu.2⟩

/-- What the status says. -/
theorem Challenged.status {m : Mcu} {pc : MainPc} (h : Challenged key nonce m.auth pc)
    (hdone : m.regStatus &&& stAuthDone ≠ 0) :
    m.auth.done = true ∧ (m.regStatus &&& stAuthNokey = 0 ↔ devauthKeyPresent key = true) := by
  have hd : m.auth.done = true :=
    Bool.of_not_eq_false fun hb => hdone ((and_bit_eq_zero _ (by decide)).mpr hb)
  refine ⟨hd, (and_bit_eq_zero _ (by decide)).trans ⟨fun hk => ?_, fun hk => h.keyed hk⟩⟩
  by_contra hkey
  cases (h.keyless (Bool.eq_false_iff.mpr hkey) hd).symm.trans hk

/-- The loop that polls the status. -/
theorem pollStatus_spec (hearly : s.early = 0) (h : Challenged key nonce s.auth s.main) :
    pollStatus.wp (calling key) (fun r t =>
      match r with
      | .ok v => Done key nonce t.auth t.main ∧
          (v &&& stAuthNokey = 0 ↔ devauthKeyPresent key = true)
      | .error e => (t.trouble = true ∧ (∃ e', e = .reg e') ∨ t.early = 100 ∧ e = .etimedout) ∧
          Challenged key nonce t.auth t.main) s := by
  refine Prog.wp_last (Prog.wp_loop (fun (tries : ℕ) t => tries ≤ 100 ∧ t.early = tries ∧
    Challenged key nonce t.auth t.main) id ?_ ⟨Nat.zero_le _, hearly, h⟩ ?_)
  · rintro tries t u ⟨hle, ht, hc⟩ hr -
    exact ⟨hle, hr.early.trans ht, hr.auth _ stable_challenged hc⟩
  · rintro tries t ⟨hle, ht, hc⟩
    split
    · next hlt =>
      refine Prog.wp_seq (regOp_spec (.read _) (A := Challenged key nonce)
        (B := fun v a pc => Challenged key nonce a pc ∧ (v &&& stAuthDone ≠ 0 → a.done = true ∧
          (v &&& stAuthNokey = 0 ↔ devauthKeyPresent key = true)))
        (by decide) stable_challenged ?_ ?_ hc) ?_
      · exact fun v cycles m pc hB => ⟨hB.1.main cycles, fun hv =>
          ⟨mainStep_done cycles (hB.2 hv).1, (hB.2 hv).2⟩⟩
      · intro m pc hA
        rw [Auth.afterFrame_of_other (by decide) (by decide)]
        exact ⟨hA, fun hdone => hA.status hdone⟩
      rintro (e | v) u ⟨hearly', hu⟩
      · exact ⟨.inl ⟨hu.1, e, rfl⟩, hu.2⟩
      · dsimp only
        split
        · next hv => exact ⟨⟨hu.2.1, (hu.2.2 hv).1⟩, (hu.2.2 hv).2⟩
        · refine Prog.wp_write fun w hr hw _ => ⟨⟨hw.bus, hw.others⟩, trivial, hlt, ?_, ?_⟩
          · show w.early + 1 = tries + 1
            rw [hr.early, hearly', ht]
          · exact hr.auth _ stable_challenged hu.2.1
    · next hge => exact ⟨.inr ⟨by omega, rfl⟩, hc⟩

/-- A word of the MAC. -/
theorem Done.mac {m : Mcu} {pc : MainPc} (h : Done key nonce m.auth pc)
    (hkey : devauthKeyPresent key = true) (i : Fin 4) :
    opValue (.read (0x15#8 + BitVec.ofNat 8 i)) m = wordAt (answer key (wordAt nonce)) i := by
  have hread : opValue (.read (0x15#8 + BitVec.ofNat 8 i)) m = m.auth.mac i := by
    match i with
    | 0 | 1 | 2 | 3 => rfl
  rw [hread, h.1.right h.2 (h.1.keyed hkey) (Option.some_ne_none _) i, h.1.latest _ rfl]

/-- What the exchange has come to, in the words of the verifier. -/
def verdict (key : Key) (dev fw : ℕ) (nonce : List Byte) : Except AuthError (List Char) :=
  if devauthKeyPresent key then .ok (expected key.bytes dev fw nonce ++ ['\n'])
  else .error .enokey

theorem verdict_eq (hlen : nonce.length = 16) :
    verdict key deviceId.toNat fwVersion.toNat nonce =
      if devauthKeyPresent key then .ok (hexText (answer key (wordAt nonce)) ++ ['\n'])
      else .error .enokey := by
  unfold verdict expected
  rw [answer_eq, truncatedHmac, nonceBytes, flatMap_be32_wordAt hlen]
  rfl

/-- What an exchange may come to. -/
def Outcome (key : Key) (dev fw : ℕ) (nonce : List Byte) (o : Except AuthError (List Char))
    (trouble : Bool) (early : ℕ) : Prop :=
  o = verdict key dev fw nonce ∨ trouble = true ∧ (∃ e, o = .error (.reg e)) ∨
    early = 100 ∧ o = .error .etimedout

/-- `auth_response_show`, after a challenge. -/
theorem authResponseShow_spec (hlen : nonce.length = 16) (hearly : s.early = 0)
    (h : Challenged key nonce s.auth s.main) :
    authResponseShow.wp (calling key) (fun o t =>
      Outcome key deviceId.toNat fwVersion.toNat nonce o t.trouble t.early ∧
        ∃ armed, AuthInv key t.auth t.main armed) s := by
  refine Prog.wp_seq (pollStatus_spec hearly h) ?_
  rintro (e | v) t ht
  · refine ⟨?_, _, ht.2⟩
    rcases ht.1 with ⟨htrouble, e', rfl⟩ | ⟨hlate, rfl⟩
    · exact .inr (.inl ⟨htrouble, e', rfl⟩)
    · exact .inr (.inr ⟨hlate, rfl⟩)
  obtain ⟨hdone, hkey⟩ := ht
  unfold Outcome
  rw [verdict_eq hlen]
  dsimp only
  split
  · next hv =>
    rw [if_neg fun hk => hv (hkey.mpr hk)]
    exact ⟨.inl rfl, _, hdone.1⟩
  · next hv =>
    have hk := hkey.mp (not_not.mp hv)
    rw [if_pos hk]
    refine Prog.wp_seq (Prog.wp_fold (fun l (r : Except Errno (List Byte)) t =>
      match r with
      | .ok mac => Done key nonce t.auth t.main ∧
          mac ++ l.flatMap (fun i => be32 (wordAt (answer key (wordAt nonce)) i)) =
            answer key (wordAt nonce)
      | .error _ => t.trouble = true ∧ Challenged key nonce t.auth t.main) ?_ ?_) ?_
    · refine ⟨hdone, ?_⟩
      rw [List.nil_append]
      exact flatMap_be32_wordAt (length_answer key _)
    · rintro i l (e | mac) u hu
      · exact hu
      · have haddr : ∀ i : Fin 4, 0x15#8 + BitVec.ofNat 8 i ≠ cmdNop := by decide
        have hother : ∀ i : Fin 4,
            let f := (RegOp.read (0x15#8 + BitVec.ofNat 8 i)).frame
            f.isNonce = false ∧ f.isChallenge = false := by decide
        refine Prog.wp_seq (regOp_spec (.read _) (B := fun v a pc => Done key nonce a pc ∧
          v = wordAt (answer key (wordAt nonce)) i) (haddr i) stable_done
          (fun v cycles m pc hB => ⟨stable_done cycles m pc hB.1, hB.2⟩) ?_ hu.1) ?_
        · intro m pc hA
          rw [Auth.afterFrame_of_other (hother i).1 (hother i).2]
          exact ⟨hA, hA.mac hk i⟩
        · rintro (e | v) w ⟨-, hw⟩
          · exact ⟨hw.1, hw.2.1⟩
          · refine ⟨hw.2.1, ?_⟩
            rw [hw.2.2, List.append_assoc]
            exact hu.2
    · rintro (e | mac) u hu
      · exact ⟨.inr (.inl ⟨hu.1, e, rfl⟩), _, hu.2⟩
      · obtain ⟨hd, hmac⟩ := hu
        rw [List.flatMap_nil, List.append_nil] at hmac
        rw [hmac]
        exact ⟨.inl rfl, _, hd.1⟩

/-- What a call leaves behind: a result of which `After` holds, and a service in order. -/
def Leaves {ρ β : Type} (key : Key) (After : ρ → β → Bool → ℕ → Prop) (request : ρ) (o : β)
    (t : AuthSys) : Prop :=
  After request o t.trouble t.early ∧ ∃ armed, AuthInv key t.auth t.main armed

/-- What an exchange comes to. -/
def AfterExchange (key : Key) (buf : List Char) (o : Except AuthError (List Char))
    (trouble : Bool) (early : ℕ) : Prop :=
  ∀ nonce, hex2bin 16 buf = some nonce →
    Outcome key deviceId.toNat fwVersion.toNat nonce o trouble early

/-- **The exchange**, from an idle service. -/
theorem exchange_spec (buf : List Char) (s : AuthSys) (hearly : s.early = 0)
    (hidle : Idle key s.auth s.main) :
    (exchange buf).wp (calling key) (Leaves key (AfterExchange key) buf) s := by
  cases hbuf : hex2bin 16 buf with
  | none =>
      have hret : exchange buf = .ret (.error .einval) := by
        unfold exchange authChallengeStore
        rw [hbuf]
        split <;> rfl
      rw [hret]
      refine ⟨fun nonce hnonce => ?_, _, hidle.inv⟩
      cases hbuf.symm.trans hnonce
  | some nonce =>
      have hpost : ∀ o (t : AuthSys),
          Outcome key deviceId.toNat fwVersion.toNat nonce o t.trouble t.early ∧
            (∃ armed, AuthInv key t.auth t.main armed) →
          Leaves key (AfterExchange key) buf o t := by
        rintro o t ⟨ho, ht⟩
        refine ⟨fun nonce' hnonce => ?_, ht⟩
        cases hbuf.symm.trans hnonce
        exact ho
      refine Prog.wp_seq (authChallengeStore_spec hbuf hidle) ?_
      rintro (e | n) t ⟨hearly', ht⟩
      · obtain ⟨⟨htrouble, e', rfl⟩, hinv⟩ := ht
        exact hpost _ _ ⟨.inr (.inl ⟨htrouble, e', rfl⟩), hinv⟩
      · exact Prog.wp_mono (authResponseShow_spec (length_hex2bin hbuf).1
          (hearly'.trans hearly) ht) hpost

end Exchange

/-! ## Runs -/

section Runs

variable {ρ β : Type} {key : Key} {program : ρ → Prog AuthSys β} {After : ρ → β → Bool → ℕ → Prop}
  {x y : Session ρ β} {e : SessionStep ρ}

/-- What holds at all times, if calls come to `After`. -/
structure Session.Inv (key : Key) (After : ρ → β → Bool → ℕ → Prop) (x : Session ρ β) : Prop where
  sys : SysInv x.sys
  service : x.call = none → ∃ armed, AuthInv key x.sys.auth x.sys.main armed
  call : ∀ request p, x.call = some (request, p) →
    p.wp (calling key) (Leaves key After request) x.sys
  finished : ∀ f ∈ x.finished, After f.request f.outcome f.trouble f.early

/-- What happens after the call does not change what it has come to. -/
theorem Leaves.moves {request : ρ} {o : β} {s t : AuthSys} (h : Leaves key After request o s)
    (hm : Moves key s t) : Leaves key After request o t := by
  refine ⟨?_, hm.auth _ stable_service h.2⟩
  rw [hm.trouble, hm.early]
  exact h.1

theorem Session.Inv.next (hspec : ∀ request s, s.early = 0 → Idle key s.auth s.main →
      (program request).wp (calling key) (Leaves key After request) s)
    (inv : x.Inv key After) (hok : Separate x e) (hn : x.next key program e = some y) :
    y.Inv key After := by
  cases e with
  | meanwhile e =>
      obtain ⟨s, hs, rfl⟩ := Option.map_eq_some_iff.mp hn
      obtain ⟨hmoves, hsys⟩ := Moves.of_meanwhile inv.sys hok hs
      refine ⟨hsys, fun hnone => hmoves.auth _ stable_service (inv.service hnone), ?_,
        inv.finished⟩
      intro request p hp
      exact Prog.wp_rely (fun _ _ _ hQ hr _ => hQ.moves hr) (inv.call request p hp) hmoves hsys
  | start request =>
      cases hd : x.call with
      | some d => simp only [Session.next, hd, reduceCtorEq] at hn
      | none =>
          simp only [Session.next, hd, Option.some.injEq] at hn
          subst hn
          refine ⟨⟨inv.sys.bus, inv.sys.others⟩, (fun hnone => nomatch hnone), ?_, inv.finished⟩
          rintro _ _ ⟨⟩
          obtain ⟨armed, hinv⟩ := inv.service hd
          have hnone : AuthInv key x.sys.auth x.sys.main none :=
            ⟨(fun _ h => nomatch h), hinv.keyed, hinv.keyless, fun _ _ hne => absurd rfl hne,
              hinv.progress⟩
          exact hspec request _ rfl ⟨hok.1, hok.2, hnone⟩
  | call n =>
      cases hd : x.call with
      | none => simp only [Session.next, hd, reduceCtorEq] at hn
      | some d =>
          obtain ⟨request, p⟩ := d
          simp only [Session.next, hd] at hn
          obtain ⟨⟨p', s⟩, hs, rfl⟩ := Option.map_eq_some_iff.mp hn
          obtain ⟨hsys, -, hp⟩ := Prog.wp_step (inv.call request p hd) inv.sys hs trivial
          refine ⟨hsys, (fun hnone => nomatch hnone), ?_, inv.finished⟩
          rintro _ _ ⟨⟩
          exact hp
  | finish =>
      cases hd : x.call with
      | none => simp only [Session.next, hd, reduceCtorEq] at hn
      | some d =>
          obtain ⟨request, p⟩ := d
          simp only [Session.next, hd] at hn
          obtain ⟨o, ho, rfl⟩ := Option.map_eq_some_iff.mp hn
          have hp := inv.call request p hd
          cases p <;> cases ho
          refine ⟨inv.sys, fun _ => hp.2, (fun _ _ hnone => nomatch hnone), ?_⟩
          intro f hf
          rcases List.mem_append.mp hf with hf | hf
          · exact inv.finished f hf
          · cases List.mem_singleton.mp hf
            exact hp.1

/-- **Every call that is over has come to `After`**, if one from an idle service does. -/
theorem session_finished (hspec : ∀ request s, s.early = 0 → Idle key s.auth s.main →
      (program request).wp (calling key) (Leaves key After request) s)
    (h : (session key program).Reach Separate x) {f : Finished ρ β} (hf : f ∈ x.finished) :
    After f.request f.outcome f.trouble f.early := by
  suffices inv : x.Inv key After from inv.finished f hf
  refine h.invariant ?_ fun _ _ _ inv hok hn => inv.next hspec hok hn
  rintro _ rfl
  refine ⟨⟨?_, (fun _ hnone => nomatch hnone)⟩, fun _ => ⟨none, ?_⟩,
    (fun _ _ hnone => nomatch hnone), fun _ hf => absurd hf List.not_mem_nil⟩
  · exact ⟨fun _ => rfl, fun _ hc => absurd hc List.not_mem_nil⟩
  · show AuthInv key Board.powerOn.mcu.auth .poll none
    refine ⟨(fun _ hnone => nomatch hnone), fun _ => rfl, fun _ hd => ?_, fun _ _ hne => ?_,
      trivial⟩
    · cases hd
    · exact absurd rfl hne

end Runs

/-- **Authentication, from the challenge to the verifier.**  An exchange with a nonce that is
given as 32 digits yields what the verifier expects for the attributes `device_id` and
`fw_version` (or `ENOKEY`, without a key); it fails otherwise only if one of its register
operations does, or if it has read the status 100 times too early. -/
theorem round_trip {key : Key} {x : Session (List Char) (Except AuthError (List Char))}
    (h : (authSystem key).Reach Separate x)
    {f : Finished (List Char) (Except AuthError (List Char))} (hf : f ∈ x.finished)
    {nonce : List Byte} (hnonce : hex2bin 16 f.request = some nonce) :
    ∃ dev fw,
      int16 (attributeText (x.sys.bus.board.mcu.regRead .deviceId).1) = some dev ∧
      int16 (attributeText (x.sys.bus.board.mcu.regRead .fwVersion).1) = some fw ∧
      Outcome key dev fw nonce f.outcome f.trouble f.early :=
  ⟨_, _, int16_attributeText _, int16_attributeText _,
    session_finished exchange_spec h hf nonce hnonce⟩

/-- An exchange with the nonce 0, and with another thread that reads the status meanwhile. -/
theorem round_trip_zero : ∃ x, (authSystem zeroKey).Reach Separate x ∧ ∃ f ∈ x.finished,
    (hex2bin 16 f.request = some (List.replicate 16 0) ∧ f.trouble = false ∧ f.early = 1) ∧
    ∃ dev fw,
      int16 (attributeText (x.sys.bus.board.mcu.regRead .deviceId).1) = some dev ∧
      int16 (attributeText (x.sys.bus.board.mcu.regRead .fwVersion).1) = some fw ∧
      Outcome zeroKey dev fw (List.replicate 16 0) f.outcome f.trouble f.early := by
  have hrun : ∃ x, (authSystem zeroKey).Reach Separate x ∧ ∃ f ∈ x.finished,
      hex2bin 16 f.request = some (List.replicate 16 0) ∧ f.trouble = false ∧ f.early = 1 :=
    Machine.exists_reach_of_exec
      (List.flatten [[.start (List.replicate 32 '0')], List.replicate 30 (.call 0),
        [.meanwhile (.bus (.call 1 (.read 0x02))), .meanwhile (.bus (.xfer false)),
          .meanwhile (.bus (.xfer false))],
        List.replicate 8 (.call 0), List.replicate 14 (.meanwhile (.main 0)),
        List.replicate 31 (.call 0), [.finish]]) rfl (by decide +kernel)
  obtain ⟨x, hx, f, hf, hp⟩ := hrun
  exact ⟨x, hx, f, hf, hp, round_trip hx hf hp.1⟩

end DeviceAuth
