/-
# The two-frame register protocol

Model of `custom_acq_xfer`, `custom_acq_reg_read` and `custom_acq_reg_write`
(`driver/custom-acq/custom_acq.c`) over the firmware's frame handler.  A register
operation is two frames under `spi_lock`: the address frame, whose reply the MCU
arms for the next frame, and a NOP frame that collects it.  The driver accepts
the reply when its first byte echoes the command.

A frame may be lost at the MCU: the error callback re-arms with `tx_buf` as it
is, and the master clocks that `tx_buf` in.  `SpiBus.machine` interleaves the
calls of any number of threads with lost frames and with the MCU's own activity.

The danger is a stale `tx_buf` that carries a matching echo.
`calls_fresh` rules it out as long as no two consecutive frames are lost: the
frame before an address frame is either a handled NOP frame, whose echo no call
expects, or a lost one, and then the address frame itself is handled.
-/
import DevicePlatform.TimerCallback

/-! ## Register operations -/

/-- The error codes the driver's functions return. -/
inductive Errno where
  | eio
  | einval
  | eagain
  | erestartsys
  deriving DecidableEq, Repr

/-- A call of `custom_acq_reg_read` or `custom_acq_reg_write`. -/
inductive RegOp where
  | read (addr : BitVec 8)
  | write (addr : BitVec 8) (val : BitVec 32)
  deriving DecidableEq, Repr

namespace RegOp

/-- The address a call is made with. -/
def addr : RegOp → BitVec 8
  | .read addr => addr
  | .write addr _ => addr

/-- The command byte of the call's address frame. -/
def cmd : RegOp → BitVec 8
  | .read addr => addr
  | .write addr _ => addr ||| cmdWriteFlag

/-- The address frame, as `custom_acq_xfer` packs it. -/
def frame : RegOp → Frame
  | .read addr => Frame.pack addr 0
  | .write addr val => Frame.pack (addr ||| cmdWriteFlag) val

@[simp] theorem frame_cmd (op : RegOp) : op.frame.cmd = op.cmd := by cases op <;> rfl

/-- The echo check on the reply `rx` collected by the NOP frame, and the value the
call hands back (a write has none). -/
def finish (op : RegOp) (rx : Frame) : Except Errno (BitVec 32) :=
  if rx.cmd ≠ op.cmd then .error .eio
  else match op with
    | .read _ => .ok rx.word
    | .write _ _ => .ok 0

/-- No call to an address other than `CMD_NOP` expects the echo of a NOP frame. -/
theorem cmd_ne_cmdNop {op : RegOp} (h : op.addr ≠ cmdNop) : op.cmd ≠ cmdNop := by
  cases op with
  | read addr => exact h
  | write addr val =>
      intro hc
      have hbit := congrArg (fun c : BitVec 8 => c.getLsbD 7) hc
      simp [cmd, cmdWriteFlag, cmdNop] at hbit

end RegOp

/-- The frame that collects a reply. -/
def nopFrame : Frame := Frame.pack cmdNop 0

/-! ## The bus -/

/-- The call in progress: the holder of `spi_lock`.  `executed` and `computed` are
history: how often the MCU has handled this call's address frame, and the word it
computed while doing so. -/
structure Holder where
  thread : ℕ
  op : RegOp
  addrSent : Bool
  executed : ℕ
  computed : Option (BitVec 32)

/-- A finished call. -/
structure CallRecord where
  thread : ℕ
  op : RegOp
  result : Except Errno (BitVec 32)
  executed : ℕ
  computed : Option (BitVec 32)

/-- The board, the driver's lock, whether the previous frame was lost, and the calls
that have returned. -/
structure SpiBus where
  board : Board
  lock : Option Holder
  lastLost : Bool
  calls : List CallRecord

/-- What can happen on the bus. -/
inductive BusEvent where
  /-- A thread takes `spi_lock` for a register operation. -/
  | call (thread : ℕ) (op : RegOp)
  /-- `fault_spi_error_every` fails a read before it sends anything. -/
  | injectFault
  /-- The holder transfers its next frame, which the MCU handles or loses. -/
  | xfer (lost : Bool)
  /-- The MCU's timer interrupt, or an access of its callback. -/
  | tick
  | tim
  deriving Repr

namespace SpiBus

/-- The MCU's side of one frame. -/
def clock (s : SpiBus) (f : Frame) (lost : Bool) : SpiBus :=
  { s with
    board := { s.board with
      mcu := if lost then s.board.mcu.errorCallback else s.board.mcu.handleFrame f }
    lastLost := lost }

/-- The address frame. -/
def sendAddr (s : SpiBus) (h : Holder) (lost : Bool) : SpiBus :=
  { s.clock h.op.frame lost with
    lock := some
      (if lost then { h with addrSent := true }
       else { h with
          addrSent := true
          executed := h.executed + 1
          computed := some (s.board.mcu.respond h.op.frame).1 }) }

/-- Returning from a call: the lock is released and the result recorded. -/
def ret (s : SpiBus) (h : Holder) (result : Except Errno (BitVec 32)) : SpiBus :=
  { s with
    lock := none
    calls := s.calls ++ [⟨h.thread, h.op, result, h.executed, h.computed⟩] }

/-- One event. -/
def next (s : SpiBus) : BusEvent → Option SpiBus
  | .call t op =>
      match s.lock with
      | none => some { s with lock := some ⟨t, op, false, 0, none⟩ }
      | some _ => none
  | .injectFault =>
      match s.lock with
      | some h =>
          match h.op with
          | .read _ => if h.addrSent then none else some (s.ret h (.error .eio))
          | .write _ _ => none
      | none => none
  | .xfer lost =>
      match s.lock with
      | some h =>
          if h.addrSent then
            -- the master receives the `tx_buf` armed before this frame
            some ((s.clock nopFrame lost).ret h (h.op.finish s.board.mcu.txBuf))
          else some (s.sendAddr h lost)
      | none => none
  | .tick => (s.board.next .tick).map fun b => { s with board := b }
  | .tim => (s.board.next .tim).map fun b => { s with board := b }

/-- The bus, from power-on of the board. -/
def machine : Machine SpiBus BusEvent where
  init s := s = ⟨Board.powerOn, none, false, []⟩
  next := next

/-- The condition of the protocol: calls go to addresses other than `CMD_NOP`, and
no two consecutive frames are lost. -/
def Spaced (s : SpiBus) : BusEvent → Prop
  | .call _ op => op.addr ≠ cmdNop
  | .xfer lost => lost = true → s.lastLost = false
  | _ => True

instance : ∀ (s : SpiBus) (e : BusEvent), Decidable (s.Spaced e)
  | _, .call _ op => inferInstanceAs (Decidable (op.addr ≠ cmdNop))
  | s, .xfer lost => inferInstanceAs (Decidable (lost = true → s.lastLost = false))
  | _, .injectFault => isTrue trivial
  | _, .tick => isTrue trivial
  | _, .tim => isTrue trivial

/-! ## What every call gets -/

/-- What a finished call promises: an accepted reply is the word the MCU computed
for this very call, an accepted call was executed once, and a failed one at most
once. -/
def Fresh (c : CallRecord) : Prop :=
  match c.op, c.result with
  | .read _, .ok v => c.computed = some v ∧ c.executed = 1
  | .write _ _, .ok _ => c.executed = 1
  | _, .error _ => c.executed ≤ 1

/-- What `tx_buf` holds while the holder `h` is between its two frames: the echo and
the word of its own handled address frame, or, if that frame was lost, the echo of
an earlier NOP frame. -/
def HolderInv (s : SpiBus) (h : Holder) : Prop :=
  h.op.addr ≠ cmdNop ∧
  if h.addrSent then
    (h.executed = 1 ∧ ∃ v, h.computed = some v ∧ s.board.mcu.txBuf = Frame.pack h.op.cmd v) ∨
      (h.executed = 0 ∧ h.computed = none ∧ s.board.mcu.txBuf.cmd = cmdNop)
  else
    h.executed = 0 ∧ h.computed = none ∧
      (s.lastLost = false → s.board.mcu.txBuf.cmd = cmdNop)

/-- The invariant: between calls `tx_buf` carries a NOP echo unless the last frame
was lost, the call in progress satisfies `HolderInv`, and every finished call was
answered as promised. -/
def Inv (s : SpiBus) : Prop :=
  (match s.lock with
    | none => s.lastLost = false → s.board.mcu.txBuf.cmd = cmdNop
    | some h => s.HolderInv h) ∧
  ∀ c ∈ s.calls, Fresh c

/-- The timer callback does not touch the armed reply. -/
theorem timStep_txBuf (m : Mcu) (pc : TimPc) : (m.timStep pc).2.txBuf = m.txBuf := by
  cases pc <;> rfl

/-- An event of the timer leaves `tx_buf` alone. -/
theorem board_next_txBuf {b b' : Board} {e : BoardEvent} (he : e = .tick ∨ e = .tim)
    (hn : b.next e = some b') : b'.mcu.txBuf = b.mcu.txBuf := by
  rcases he with rfl | rfl
  · simp only [Board.next] at hn
    split_ifs at hn
    cases hn
    rfl
  · simp only [Board.next] at hn
    split_ifs at hn
    cases hn
    exact timStep_txBuf b.mcu b.tim

/-- Events of the timer keep the invariant. -/
theorem Inv.timer {s : SpiBus} {b' : Board} (h : s.Inv)
    (htx : b'.mcu.txBuf = s.board.mcu.txBuf) : Inv { s with board := b' } := by
  refine ⟨?_, h.2⟩
  have hl := h.1
  cases hlock : s.lock with
  | none =>
      rw [hlock] at hl
      simpa [hlock, htx] using hl
  | some k =>
      rw [hlock] at hl
      simpa only [hlock, HolderInv, htx] using hl

/-- The address frame takes the holder to the second half of `HolderInv`. -/
theorem HolderInv.sendAddr {s : SpiBus} {h : Holder} {lost : Bool} (hh : s.HolderInv h)
    (hsent : h.addrSent = false) (hok : lost = true → s.lastLost = false) :
    ∃ h', (s.sendAddr h lost).lock = some h' ∧ (s.sendAddr h lost).HolderInv h' := by
  obtain ⟨haddr, hrest⟩ := hh
  simp only [hsent, Bool.false_eq_true, if_false] at hrest
  obtain ⟨hexec, hcomp, hnop⟩ := hrest
  refine ⟨_, rfl, ?_⟩
  cases lost with
  | true =>
      -- the frame before was not lost, so `tx_buf` still carries its NOP echo
      refine ⟨haddr, Or.inr ⟨hexec, hcomp, ?_⟩⟩
      exact hnop (hok rfl)
  | false =>
      refine ⟨haddr, Or.inl ⟨by simp [hexec], (s.board.mcu.respond h.op.frame).1, rfl, ?_⟩⟩
      exact (Mcu.handleFrame_txBuf _ _).trans (by rw [RegOp.frame_cmd]; rfl)

/-- The call that the NOP frame ends is answered as promised. -/
theorem HolderInv.fresh {s : SpiBus} {h : Holder} (hh : s.HolderInv h)
    (hsent : h.addrSent = true) :
    Fresh ⟨h.thread, h.op, h.op.finish s.board.mcu.txBuf, h.executed, h.computed⟩ := by
  obtain ⟨haddr, hrest⟩ := hh
  simp only [hsent, if_true] at hrest
  rcases hrest with ⟨hexec, v, hcomp, htx⟩ | ⟨hexec, hcomp, htx⟩
  · -- the reply is the one armed for this call
    have hecho : ¬ s.board.mcu.txBuf.cmd ≠ h.op.cmd := by simp [htx]
    cases hop : h.op with
    | read addr =>
        rw [hop] at hecho htx
        simp only [RegOp.finish, if_neg hecho, Fresh]
        exact ⟨by rw [hcomp, htx, Frame.word_pack], hexec⟩
    | write addr val =>
        rw [hop] at hecho
        simp only [RegOp.finish, if_neg hecho, Fresh]
        exact hexec
  · -- the address frame was lost: the NOP echo fails the check
    have hecho : s.board.mcu.txBuf.cmd ≠ h.op.cmd := by
      rw [htx]
      exact (RegOp.cmd_ne_cmdNop haddr).symm
    simp only [RegOp.finish, if_pos hecho, Fresh]
    cases h.op <;> simp [hexec]

/-- Returning from a call keeps the invariant, given what holds of its record. -/
theorem inv_ret {s : SpiBus} {h : Holder} {result : Except Errno (BitVec 32)}
    (hcalls : ∀ c ∈ s.calls, Fresh c)
    (hnew : Fresh ⟨h.thread, h.op, result, h.executed, h.computed⟩)
    (hidle : s.lastLost = false → s.board.mcu.txBuf.cmd = cmdNop) :
    Inv (s.ret h result) := by
  refine ⟨hidle, ?_⟩
  intro c hc
  simp only [ret, List.mem_append, List.mem_singleton] at hc
  rcases hc with hc | rfl
  · exact hcalls c hc
  · exact hnew

/-- **Step lemma.**  Every event that meets the protocol's condition keeps the
invariant. -/
theorem Inv.next {s s' : SpiBus} {e : BusEvent} (h : s.Inv) (hok : s.Spaced e)
    (hn : s.next e = some s') : s'.Inv := by
  have hlock := h.1
  cases e with
  | call t op =>
      cases hl : s.lock with
      | some k => simp [SpiBus.next, hl] at hn
      | none =>
          simp only [SpiBus.next, hl, Option.some.injEq] at hn
          subst hn
          rw [hl] at hlock
          exact ⟨⟨hok, rfl, rfl, hlock⟩, h.2⟩
  | injectFault =>
      cases hl : s.lock with
      | none => simp [SpiBus.next, hl] at hn
      | some k =>
          rw [hl] at hlock
          cases hop : k.op with
          | write addr val => simp [SpiBus.next, hl, hop] at hn
          | read addr =>
              cases hsent : k.addrSent with
              | true => simp [SpiBus.next, hl, hop, hsent] at hn
              | false =>
                  simp only [SpiBus.next, hl, hop, hsent, Bool.false_eq_true, if_false,
                    Option.some.injEq] at hn
                  subst hn
                  have hrest := hlock.2
                  simp only [hsent, Bool.false_eq_true, if_false] at hrest
                  exact inv_ret h.2 (by simp [Fresh, hop, hrest.1]) hrest.2.2
  | xfer lost =>
      cases hl : s.lock with
      | none => simp [SpiBus.next, hl] at hn
      | some k =>
          rw [hl] at hlock
          cases hsent : k.addrSent with
          | false =>
              simp only [SpiBus.next, hl, hsent, Bool.false_eq_true, if_false,
                Option.some.injEq] at hn
              subst hn
              obtain ⟨k', hk', hinv⟩ := hlock.sendAddr hsent hok
              refine ⟨?_, h.2⟩
              rw [hk']
              exact hinv
          | true =>
              simp only [SpiBus.next, hl, hsent, if_true, Option.some.injEq] at hn
              subst hn
              refine inv_ret h.2 (hlock.fresh hsent) ?_
              intro hnot
              cases lost with
              | true => cases hnot
              | false => rfl
  | tick =>
      simp only [SpiBus.next, Option.map_eq_some_iff] at hn
      obtain ⟨b', hb, rfl⟩ := hn
      exact h.timer (board_next_txBuf (Or.inl rfl) hb)
  | tim =>
      simp only [SpiBus.next, Option.map_eq_some_iff] at hn
      obtain ⟨b', hb, rfl⟩ := hn
      exact h.timer (board_next_txBuf (Or.inr rfl) hb)

/-- **Freshness of the two-frame protocol.**  In every run in which no two
consecutive frames are lost, every call that returns success to a read hands back
the word the MCU computed for that call's own address frame, every accepted write
was executed exactly once, and every failed call at most once. -/
theorem calls_fresh {s : SpiBus} (h : machine.Reach Spaced s) :
    ∀ c ∈ s.calls, Fresh c := by
  have hinv : s.Inv := by
    refine h.invariant ?_ ?_
    · rintro s rfl
      exact ⟨fun _ => rfl, by simp⟩
    · intro s e t hs hok hn
      exact hs.next hok hn
  exact hinv.2

/-- A read whose address frame is lost fails; the same read, repeated by another
thread, gets the device id. -/
theorem calls_fresh_after_lost_frame :
    ∃ s : SpiBus, s.calls.map (fun c => c.result.toOption) = [none, some deviceId] ∧
      ∀ c ∈ s.calls, Fresh c := by
  have h : machine.exec Spaced ⟨Board.powerOn, none, false, []⟩
      [.call 0 (.read 0), .xfer true, .xfer false,
        .call 1 (.read 0), .xfer false, .xfer false] = some _ := rfl
  exact ⟨_, rfl, calls_fresh (Machine.reach_of_exec rfl h)⟩

end SpiBus
