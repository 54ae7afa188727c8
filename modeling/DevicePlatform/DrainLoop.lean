/-
# The drain loop over the SPI bus

`DrainPass.lean` leaves open what a register read returns; here the pass is a
thread on the bus of `RegisterProtocol.lean` and its reads are two-frame
operations answered by the MCU of `TimerCallback.lean`.  `DrainSys` is the whole
path from the timer callback to the kfifo:

* the **IRQ thread** takes `spi_lock` for the register its pass has reached,
  transfers the two frames and goes on with the reply;
* **other threads** (sysfs) take `spi_lock` for register operations of their own;
* the **timer callback** runs between any two frames, and a frame handler may run
  between any two of the callback's accesses.

All frames are error-free here.  `DrainSys.Armed` is what that gives: the reply a
NOP frame collects is the one the MCU computed for the address frame before it.
-/
import DevicePlatform.DrainPass

/-- `REG_FIFO_LEVEL`. -/
def regFifoLevel : BitVec 8 := 0x05#8
/-- `REG_DATA_SEQ`. -/
def regDataSeq : BitVec 8 := 0x06#8
/-- `REG_DATA_VAL`. -/
def regDataVal : BitVec 8 := 0x07#8

/-- The register operation a pass is about to make. -/
def PassPc.op : PassPc → Option RegOp
  | .level => some (.read regFifoLevel)
  | .seq => some (.read regDataSeq)
  | .val _ => some (.read regDataVal)
  | _ => none

/-- A failed read is counted at each of the three points that read a register. -/
theorem Pass.reply_error {ts : ℤ} {p : Pass} {op : RegOp} (h : p.pc.op = some op) :
    p.reply ts (.error .eio) = some p.fail := by
  obtain ⟨pc, errors, drained⟩ := p
  cases pc <;> first | rfl | cases h

/-- The registers a pass reads are read, not written. -/
theorem PassPc.op_finish {pc : PassPc} {op : RegOp} {v : BitVec 32} (h : pc.op = some op) :
    op.finish (Frame.pack op.cmd v) = .ok v := by
  cases pc <;> cases h <;> simp [RegOp.finish, RegOp.cmd]

/-- A pass that waits for a register takes no other step. -/
theorem Driver.passStep_of_op {d : Driver} {p : Pass} {op : RegOp} (h : p.pc.op = some op) :
    d.passStep p = none := by
  obtain ⟨pc, errors, drained⟩ := p
  cases pc <;> first | rfl | cases h

/-- Where a step of the pass that reads no register leads. -/
theorem Driver.passStep_pass {d d' : Driver} {p : Pass} (h : d.passStep p = some d') :
    (p.pc = .finish ∧ d'.pass = none) ∨
      ∃ q, d'.pass = some q ∧ (q.pc = .level ∨ ∃ s, q.pc = .downsample s ∨ q.pc = .store s) := by
  obtain ⟨pc, errors, drained⟩ := p
  cases pc <;> simp only [passStep, Option.some.injEq, reduceCtorEq] at h
  case inject s => split_ifs at h <;> cases h <;> simp [Pass.again]
  case downsample s => split_ifs at h <;> cases h <;> simp [Pass.again]
  case store s =>
    subst h
    exact Or.inr ⟨_, rfl, Or.inl rfl⟩
  case finish =>
    subst h
    exact Or.inl ⟨rfl, rfl⟩

/-- An injected fault is a read that returns before its address frame. -/
theorem SpiBus.injectFault_eq {b b' : SpiBus} {h : Holder} (hl : b.lock = some h)
    (hn : b.next .injectFault = some b') :
    b' = b.ret h (.error .eio) ∧ h.addrSent = false := by
  simp only [SpiBus.next, hl] at hn
  split at hn
  · split_ifs at hn with hsent
    cases hn
    exact ⟨rfl, by simpa using hsent⟩
  · cases hn

/-- The bus with the board behind it, and the driver. -/
structure DrainSys where
  bus : SpiBus
  drv : Driver

/-- What can happen in the system. -/
inductive DrainEvent where
  /-- The IRQ thread begins a pass, for a hard IRQ at time `ts`. -/
  | irq (ts : ℤ)
  /-- The pass takes `spi_lock` for its register read. -/
  | call
  /-- Another thread takes `spi_lock` for a register operation. -/
  | other (t : ℕ) (op : RegOp)
  /-- `fault_spi_error_every` fails the holder's read before it sends anything. -/
  | injectFault
  /-- The holder of `spi_lock` transfers its next frame. -/
  | xfer
  /-- The timer interrupt, and an access of its callback. -/
  | tick
  | tim
  /-- The pass takes a step that reads no register. -/
  | pass
  | setParams (p : Params)
  /-- A reader takes up to `n` samples from the kfifo. -/
  | take (n : ℕ)
  deriving DecidableEq

namespace DrainSys

/-- The IRQ thread, among the threads on the bus. -/
def irqThread : ℕ := 0

/-- A register operation of `h` returns `r`; the IRQ thread's pass goes on with it. -/
def answer (d : Driver) (h : Holder) (r : Except Errno (BitVec 32)) : Option Driver :=
  if h.thread = irqThread then
    match d.pass with
    | some p => (p.reply d.irqTsNs r).map fun p' => { d with pass := some p' }
    | none => none
  else some d

/-- One event. -/
def next (s : DrainSys) : DrainEvent → Option DrainSys
  | .irq ts =>
      match s.drv.pass with
      | none => some { s with drv := { s.drv with irqTsNs := ts, pass := some Pass.begin } }
      | some _ => none
  | .call =>
      match s.drv.pass.bind (PassPc.op ∘ Pass.pc) with
      | some op => (s.bus.next (.call irqThread op)).map fun bus => { s with bus := bus }
      | none => none
  | .other t op => (s.bus.next (.call (t + 1) op)).map fun bus => { s with bus := bus }
  | .injectFault =>
      match s.bus.lock with
      | some h => (s.bus.next .injectFault).bind fun bus =>
          (answer s.drv h (.error .eio)).map fun drv => ⟨bus, drv⟩
      | none => none
  | .xfer =>
      match s.bus.lock with
      | some h => (s.bus.next (.xfer false)).bind fun bus =>
          if h.addrSent then
            (answer s.drv h (h.op.finish s.bus.board.mcu.txBuf)).map fun drv => ⟨bus, drv⟩
          else some { s with bus := bus }
      | none => none
  | .tick => (s.bus.next .tick).map fun bus => { s with bus := bus }
  | .tim => (s.bus.next .tim).map fun bus => { s with bus := bus }
  | .pass =>
      match s.drv.pass with
      | some p => (s.drv.passStep p).map fun drv => { s with drv := drv }
      | none => none
  | .setParams p => some { s with drv := { s.drv with params := p } }
  | .take n => some { s with drv := { s.drv with samples := s.drv.samples.drop n } }

/-! ## What a step does -/

/-- The reply armed for the next frame is the one computed for the holder's address
frame, and the IRQ thread holds the lock only for the register its pass has reached. -/
structure Armed (s : DrainSys) : Prop where
  reply : ∀ h, s.bus.lock = some h → h.addrSent = true →
    ∃ v, h.computed = some v ∧ s.bus.board.mcu.txBuf = Frame.pack h.op.cmd v
  holder : ∀ h, s.bus.lock = some h → h.thread = irqThread →
    ∃ p, s.drv.pass = some p ∧ p.pc.op = some h.op

/-- The steps of the system, with the reply of an operation spelled out. -/
inductive Step (s : DrainSys) : DrainEvent → DrainSys → Prop
  | irq (ts : ℤ) : s.drv.pass = none →
      Step s (.irq ts) { s with drv := { s.drv with irqTsNs := ts, pass := some Pass.begin } }
  | call {p : Pass} {op : RegOp} : s.drv.pass = some p → p.pc.op = some op →
      s.bus.lock = none →
      Step s .call { s with bus := { s.bus with lock := some ⟨irqThread, op, false, 0, none⟩ } }
  | other (t : ℕ) (op : RegOp) : s.bus.lock = none →
      Step s (.other t op) { s with bus := { s.bus with lock := some ⟨t + 1, op, false, 0, none⟩ } }
  | faultPass {h : Holder} {p : Pass} : s.bus.lock = some h → h.addrSent = false →
      h.thread = irqThread → s.drv.pass = some p → p.pc.op = some h.op →
      Step s .injectFault ⟨s.bus.ret h (.error .eio), { s.drv with pass := some p.fail }⟩
  | faultOther {h : Holder} : s.bus.lock = some h → h.addrSent = false →
      h.thread ≠ irqThread → Step s .injectFault { s with bus := s.bus.ret h (.error .eio) }
  | addr {h : Holder} : s.bus.lock = some h → h.addrSent = false →
      Step s .xfer { s with bus := s.bus.sendAddr h false }
  | reply {h : Holder} {v : BitVec 32} {p p' : Pass} : s.bus.lock = some h →
      h.addrSent = true → h.computed = some v → h.thread = irqThread →
      s.drv.pass = some p → p.pc.op = some h.op → p.reply s.drv.irqTsNs (.ok v) = some p' →
      Step s .xfer
        ⟨(s.bus.clock nopFrame false).ret h (.ok v), { s.drv with pass := some p' }⟩
  | done {h : Holder} {r : Except Errno (BitVec 32)} : s.bus.lock = some h →
      h.addrSent = true → h.thread ≠ irqThread →
      Step s .xfer { s with bus := (s.bus.clock nopFrame false).ret h r }
  | tick {b : Board} : s.bus.board.next .tick = some b →
      Step s .tick { s with bus := { s.bus with board := b } }
  | tim {b : Board} : s.bus.board.next .tim = some b →
      Step s .tim { s with bus := { s.bus with board := b } }
  | pass {p : Pass} {d : Driver} : s.drv.pass = some p → s.drv.passStep p = some d →
      Step s .pass { s with drv := d }
  | setParams (p : Params) : Step s (.setParams p) { s with drv := { s.drv with params := p } }
  | take (n : ℕ) :
      Step s (.take n) { s with drv := { s.drv with samples := s.drv.samples.drop n } }

/-- **Inversion.**  Every event is one of these steps. -/
theorem step_of_next {s s' : DrainSys} {e : DrainEvent} (ha : s.Armed)
    (h : s.next e = some s') : s.Step e s' := by
  cases e with
  | irq ts =>
      simp only [next] at h
      split at h
      · rename_i hp
        cases h
        exact .irq ts hp
      · cases h
  | call =>
      simp only [next] at h
      split at h
      · rename_i op hop
        obtain ⟨p, hp, hop⟩ := Option.bind_eq_some_iff.mp hop
        obtain ⟨bus, hbus, rfl⟩ := Option.map_eq_some_iff.mp h
        simp only [SpiBus.next] at hbus
        split at hbus
        · rename_i hl
          cases hbus
          exact .call hp hop hl
        · cases hbus
      · cases h
  | other t op =>
      obtain ⟨bus, hbus, rfl⟩ := Option.map_eq_some_iff.mp h
      simp only [SpiBus.next] at hbus
      split at hbus
      · rename_i hl
        cases hbus
        exact .other t op hl
      · cases hbus
  | injectFault =>
      simp only [next] at h
      split at h
      · rename_i k hl
        obtain ⟨bus, hbus, hans⟩ := Option.bind_eq_some_iff.mp h
        obtain ⟨d, hd, rfl⟩ := Option.map_eq_some_iff.mp hans
        obtain ⟨rfl, hsent⟩ := SpiBus.injectFault_eq hl hbus
        by_cases ht : k.thread = irqThread
        · obtain ⟨p, hp, hop⟩ := ha.holder k hl ht
          simp only [answer, if_pos ht, hp, Pass.reply_error hop, Option.map_some,
            Option.some.injEq] at hd
          subst hd
          exact .faultPass hl hsent ht hp hop
        · simp only [answer, if_neg ht, Option.some.injEq] at hd
          subst hd
          exact .faultOther hl hsent ht
      · cases h
  | xfer =>
      simp only [next] at h
      split at h
      · rename_i k hl
        obtain ⟨bus, hbus, h⟩ := Option.bind_eq_some_iff.mp h
        simp only [SpiBus.next, hl] at hbus
        by_cases hsent : k.addrSent = true
        · simp only [hsent, if_true, Option.some.injEq] at h hbus
          subst hbus
          obtain ⟨d, hd, rfl⟩ := Option.map_eq_some_iff.mp h
          obtain ⟨v, hv, htx⟩ := ha.reply k hl hsent
          by_cases ht : k.thread = irqThread
          · obtain ⟨p, hp, hop⟩ := ha.holder k hl ht
            rw [htx, PassPc.op_finish hop] at hd ⊢
            simp only [answer, if_pos ht, hp] at hd
            obtain ⟨p', hp', rfl⟩ := Option.map_eq_some_iff.mp hd
            exact .reply hl hsent hv ht hp hop hp'
          · simp only [answer, if_neg ht, Option.some.injEq] at hd
            subst hd
            exact .done hl hsent ht
        · have hsent' : k.addrSent = false := by simpa using hsent
          simp only [hsent', Bool.false_eq_true, if_false, Option.some.injEq] at h hbus
          subst hbus h
          exact .addr hl hsent'
      · cases h
  | tick =>
      obtain ⟨bus, hbus, rfl⟩ := Option.map_eq_some_iff.mp h
      obtain ⟨b, hb, rfl⟩ := Option.map_eq_some_iff.mp hbus
      exact .tick hb
  | tim =>
      obtain ⟨bus, hbus, rfl⟩ := Option.map_eq_some_iff.mp h
      obtain ⟨b, hb, rfl⟩ := Option.map_eq_some_iff.mp hbus
      exact .tim hb
  | pass =>
      simp only [next] at h
      split at h
      · rename_i p hp
        obtain ⟨d, hd, rfl⟩ := Option.map_eq_some_iff.mp h
        exact .pass hp hd
      · cases h
  | setParams p =>
      cases h
      exact .setParams p
  | take n =>
      cases h
      exact .take n

/-- Nothing is owed while nobody holds the lock. -/
theorem armed_of_free {s : DrainSys} (h : s.bus.lock = none) : s.Armed := by
  refine ⟨?_, ?_⟩
  · intro k hk
    rw [h] at hk
    cases hk
  · intro k hk
    rw [h] at hk
    cases hk

/-- Every step keeps the reply armed. -/
theorem Armed.step {s s' : DrainSys} {e : DrainEvent} (ha : s.Armed) (h : s.Step e s') :
    s'.Armed := by
  cases h with
  | irq ts hp =>
      refine ⟨ha.reply, ?_⟩
      intro k hk ht
      obtain ⟨p, hp', -⟩ := ha.holder k hk ht
      rw [hp] at hp'
      cases hp'
  | call hp hop hl =>
      refine ⟨?_, ?_⟩
      · rintro k ⟨⟩ hsent
        cases hsent
      · rintro k ⟨⟩ -
        exact ⟨_, hp, hop⟩
  | other t op hl =>
      refine ⟨?_, ?_⟩
      · rintro k ⟨⟩ hsent
        cases hsent
      · rintro k ⟨⟩ ht
        cases ht
  | faultPass => exact armed_of_free rfl
  | faultOther => exact armed_of_free rfl
  | @addr k hl hsent =>
      refine ⟨?_, ?_⟩
      · rintro k' ⟨⟩ -
        refine ⟨_, rfl, ?_⟩
        exact (Mcu.handleFrame_txBuf _ _).trans (by rw [RegOp.frame_cmd]; rfl)
      · rintro k' ⟨⟩ ht
        exact ha.holder k hl ht
  | reply => exact armed_of_free rfl
  | done => exact armed_of_free rfl
  | tick hb =>
      refine ⟨?_, ha.holder⟩
      intro k hk hsent
      obtain ⟨v, hv, htx⟩ := ha.reply k hk hsent
      exact ⟨v, hv, (SpiBus.board_next_txBuf (Or.inl rfl) hb).trans htx⟩
  | tim hb =>
      refine ⟨?_, ha.holder⟩
      intro k hk hsent
      obtain ⟨v, hv, htx⟩ := ha.reply k hk hsent
      exact ⟨v, hv, (SpiBus.board_next_txBuf (Or.inr rfl) hb).trans htx⟩
  | pass hp hd =>
      refine ⟨ha.reply, ?_⟩
      intro k hk ht
      obtain ⟨p, hp', hop⟩ := ha.holder k hk ht
      rw [hp, Option.some.injEq] at hp'
      subst hp'
      rw [Driver.passStep_of_op hop] at hd
      cases hd
  | setParams q => exact ⟨ha.reply, ha.holder⟩
  | take n => exact ⟨ha.reply, ha.holder⟩

/-! ## What the IRQ thread awaits -/

/-- The word computed for the IRQ thread's register read, once its address frame has
been handled. -/
def awaits (s : DrainSys) : Option (BitVec 32) :=
  match s.bus.lock with
  | some h => if h.thread = irqThread ∧ h.addrSent = true then h.computed else none
  | none => none

/-- The IRQ thread awaits nothing while it does not hold the lock with a frame sent. -/
theorem awaits_eq_none {s : DrainSys} (h : ∀ k, s.bus.lock = some k → k.addrSent = true →
    k.thread ≠ irqThread) : s.awaits = none := by
  unfold awaits
  split
  · rename_i k hk
    rw [if_neg]
    rintro ⟨ht, hsent⟩
    exact h k hk hsent ht
  · rfl

/-- The IRQ thread awaits nothing while nobody holds the lock. -/
theorem awaits_of_free {s : DrainSys} (hl : s.bus.lock = none) : s.awaits = none := by
  simp [awaits, hl]

/-- The IRQ thread awaits nothing while the holder has sent nothing. -/
theorem awaits_of_unsent {s : DrainSys} {k : Holder} (hl : s.bus.lock = some k)
    (hsent : k.addrSent = false) : s.awaits = none := by
  apply awaits_eq_none
  intro k' hk' hsent'
  rw [hl, Option.some.injEq] at hk'
  rw [← hk', hsent] at hsent'
  cases hsent'

/-- The IRQ thread awaits nothing while another thread holds the lock. -/
theorem awaits_of_other {s : DrainSys} {k : Holder} (hl : s.bus.lock = some k)
    (ht : k.thread ≠ irqThread) : s.awaits = none := by
  apply awaits_eq_none
  intro k' hk' _
  rw [hl, Option.some.injEq] at hk'
  exact hk' ▸ ht

/-- The IRQ thread awaits the word computed for its frame. -/
theorem awaits_of_sent {s : DrainSys} {k : Holder} (hl : s.bus.lock = some k)
    (hsent : k.addrSent = true) (ht : k.thread = irqThread) : s.awaits = k.computed := by
  simp [awaits, hl, hsent, ht]

/-- A pass that waits for no register does not hold the lock. -/
theorem Armed.awaits_eq_none {s : DrainSys} (ha : s.Armed)
    (h : ∀ p, s.drv.pass = some p → p.pc.op = none) : s.awaits = none := by
  apply DrainSys.awaits_eq_none
  intro k hk _ ht
  obtain ⟨p, hp, hop⟩ := ha.holder k hk ht
  rw [h p hp] at hop
  cases hop

end DrainSys
