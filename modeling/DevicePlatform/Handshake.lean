/-
# The DATA_READY handshake

DATA_READY follows the FIFO as a level; the driver sees only its rising edges,
through a oneshot IRQ whose edges are latched while it is masked and replayed when
the thread ends.  A pass ends on a FIFO level that the MCU computed two frames
earlier, so the question is whether a sample can be pushed in between and never be
announced.

`Handshake` is `DrainSys` with the IRQ line: `pending` is a woken thread whose pass
has not begun, `latched` an edge seen while masked.  `preempted` remembers that a
frame handler has run inside the current timer callback.

The argument has three parts.

* **Credit** (`DrainSys.credit`).  From the LEVEL frame that answered a positive
  level until the VAL frame, the item it counted is still in the FIFO, since only
  this pass pops.  Inside a callback that has pushed another item the level is then
  at least 2, so the one frame that may preempt it cannot empty the FIFO.
* **The pin** (`PinGuard`).  Hence the callback writes `high` and the pin is right
  outside `update_data_ready_gpio`.
* **The edge** (`Inv.quiet`).  When a pass has been answered level 0 the pin is low,
  and a later push raises it: the edge wakes the thread or is latched.
-/
import DevicePlatform.DrainLoop

/-! ## Credit -/

namespace DrainSys

/-- The pass knows of an item in the FIFO that it has not popped yet. -/
def credit (s : DrainSys) : Bool :=
  match s.drv.pass with
  | some ⟨.level, _, _⟩ => s.awaits.any (· != 0)
  | some ⟨.seq, _, _⟩ => true
  | some ⟨.val _, _, _⟩ => s.awaits.isNone
  | _ => false

/-- No pass is running, or the running one has been told that the FIFO is empty. -/
def exhausted (s : DrainSys) : Bool :=
  match s.drv.pass with
  | none => true
  | some ⟨.level, _, _⟩ => s.awaits == some 0
  | some ⟨.finish, _, _⟩ => true
  | _ => false

/-- Credit depends on the pass and on what it awaits. -/
theorem credit_congr {s s' : DrainSys} (ha : s'.awaits = s.awaits)
    (hp : s'.drv.pass = s.drv.pass) : s'.credit = s.credit := by
  unfold credit
  rw [hp, ha]

/-- So does exhaustion. -/
theorem exhausted_congr {s s' : DrainSys} (ha : s'.awaits = s.awaits)
    (hp : s'.drv.pass = s.drv.pass) : s'.exhausted = s.exhausted := by
  unfold exhausted
  rw [hp, ha]

end DrainSys

/-! ## The pin -/

namespace TimPc

/-- The callback is inside `update_data_ready_gpio`. -/
def updating : TimPc → Bool
  | .readyLoadHead | .readyLoadTail _ | .readyWrite _ => true
  | _ => false

/-- The head that `fifo_push` is going to publish, once it has found the FIFO not full. -/
def pushNext : TimPc → Option ℕ
  | .seqLoadHead _ next | .seqLoad _ next _ | .seqStore _ next _ _
  | .itemSequence _ next _ _ | .valueLoadHead _ next | .itemValue _ next _
  | .storeHead next => some next
  | _ => none

/-- `fifo_push` has found the FIFO full. -/
def refusing : TimPc → Bool
  | .overflowLoad | .overflowStore _ => true
  | _ => false

/-- What the callback has read from a FIFO that has not been reset since. -/
def Reads (q : Fifo) : TimPc → Prop
  | .pushLoadTail _ next => next = (q.head + 1) % fifoDepth
  | .readyLoadTail head => head = q.head
  | .readyWrite level => level = true
  | _ => True

end TimPc

/-- What the callback and the pin say about the FIFO: the pin is right outside the update,
a pushing callback publishes the next head of a FIFO that is not full, and inside the
update the FIFO is not empty, with an item to spare for the one frame that may still
come. -/
structure PinGuard (b : Board) (credit preempted : Bool) : Prop where
  idx : b.WellIndexed
  item : credit = true → 1 ≤ b.mcu.fifo.level
  pin : b.tim.updating = false → b.mcu.dataReady = b.mcu.fifo.nonempty
  push : ∀ next, b.tim.pushNext = some next →
    next = (b.mcu.fifo.head + 1) % fifoDepth ∧ b.mcu.fifo.level + 1 < fifoDepth
  full : b.tim.refusing = true →
    2 ≤ b.mcu.fifo.level ∧ (preempted = false → 3 ≤ b.mcu.fifo.level)
  update : b.tim.updating = true →
    1 ≤ b.mcu.fifo.level ∧ (preempted = false → credit = true → 2 ≤ b.mcu.fifo.level)
  reads : b.tim.Reads b.mcu.fifo

namespace PinGuard

variable {m m' : Mcu} {pc pc' : TimPc} {c p : Bool}

/-- The callback moves on and leaves the indices and the pin alone. -/
theorem move (h : PinGuard ⟨m, pc⟩ c p) (hidx : Board.WellIndexed ⟨m', pc'⟩)
    (hhead : m'.fifo.head = m.fifo.head) (htail : m'.fifo.tail = m.fifo.tail)
    (hready : m'.dataReady = m.dataReady) (hupd : pc'.updating = pc.updating)
    (hpush : ∀ next, pc'.pushNext = some next → pc.pushNext = some next)
    (hfull : pc'.refusing = true → pc.refusing = true) (hreads : pc'.Reads m.fifo) :
    PinGuard ⟨m', pc'⟩ c p := by
  have hlev : m'.fifo.level = m.fifo.level := by
    unfold Fifo.level
    rw [hhead, htail]
  have hne : m'.fifo.nonempty = m.fifo.nonempty := by
    unfold Fifo.nonempty
    rw [hhead, htail]
  refine ⟨hidx, ?_, ?_, ?_, ?_, ?_, ?_⟩
  · intro hc
    rw [hlev]
    exact h.item hc
  · intro hu
    rw [hready, hne]
    exact h.pin (hupd ▸ hu)
  · intro next hn
    rw [hhead, hlev]
    exact h.push next (hpush next hn)
  · intro hr
    rw [hlev]
    exact h.full (hfull hr)
  · intro hu
    rw [hlev]
    exact h.update (hupd ▸ hu)
  · cases pc' <;> simp only [TimPc.Reads, hhead] at hreads ⊢ <;> exact hreads

/-- `fifo_push` compares the next head with the tail. -/
theorem pushLoadTail {value : BitVec 32} {next : ℕ}
    (h : PinGuard ⟨m, .pushLoadTail value next⟩ c p) :
    PinGuard ⟨m, if next = m.fifo.tail then .overflowLoad else .seqLoadHead value next⟩ c p := by
  have hq : m.fifo.InRange := h.idx.1
  have hnext : next = (m.fifo.head + 1) % fifoDepth := h.reads
  have hfulliff := Fifo.next_eq_tail_iff hq
  have hlt := Fifo.level_lt hq
  split_ifs with heq
  · rw [hnext, hfulliff] at heq
    simp only [fifoDepth] at heq
    refine ⟨⟨hq, trivial⟩, h.item, fun _ => h.pin rfl, ?_, ?_, ?_, trivial⟩
    · rintro n ⟨⟩
    · intro _
      dsimp only
      omega
    · rintro ⟨⟩
  · rw [hnext, hfulliff] at heq
    refine ⟨⟨hq, h.idx.2⟩, h.item, fun _ => h.pin rfl, ?_, ?_, ?_, trivial⟩
    · rintro n ⟨⟩
      refine ⟨hnext, ?_⟩
      dsimp only
      omega
    · rintro ⟨⟩
    · rintro ⟨⟩

/-- `fifo_head = next` adds an item, besides the one the pass may know of. -/
theorem storeHead {next : ℕ} (h : PinGuard ⟨m, .storeHead next⟩ c p) :
    PinGuard ⟨{ m with fifo := { m.fifo with head := next } }, .readyLoadHead⟩ c p := by
  have hq : m.fifo.InRange := h.idx.1
  obtain ⟨hnext, hl⟩ := h.push next rfl
  have hlev : ({ m.fifo with head := next } : Fifo).level = m.fifo.level + 1 := by
    rw [hnext]
    exact Fifo.level_storeHead hq hl
  refine ⟨⟨⟨h.idx.2, hq.2⟩, trivial⟩, ?_, ?_, ?_, ?_, ?_, trivial⟩
  · intro _
    rw [hlev]
    omega
  · rintro ⟨⟩
  · rintro n ⟨⟩
  · rintro ⟨⟩
  · intro _
    rw [hlev]
    refine ⟨by omega, ?_⟩
    intro _ hc
    have := h.item hc
    dsimp only at this
    omega

/-- The callback's accesses keep the guard. -/
theorem timStep (h : PinGuard ⟨m, pc⟩ c p) :
    PinGuard ⟨(m.timStep pc).2, (m.timStep pc).1⟩ c p := by
  have hidx : Board.WellIndexed ⟨(m.timStep pc).2, (m.timStep pc).1⟩ := h.idx.timStep
  cases pc
  case pushLoadTail => exact h.pushLoadTail
  case storeHead => exact h.storeHead
  case loadControl =>
    refine h.move hidx rfl rfl rfl ?_ ?_ ?_ ?_ <;> simp only [Mcu.timStep] <;> split_ifs <;>
      simp [TimPc.updating, TimPc.pushNext, TimPc.refusing, TimPc.Reads]
  case overflowStore count =>
    have h2 : 2 ≤ m.fifo.level := (h.full rfl).1
    refine ⟨hidx, h.item, ?_, ?_, ?_, ?_, trivial⟩
    · rintro ⟨⟩
    · rintro n ⟨⟩
    · rintro ⟨⟩
    · intro _
      show 1 ≤ m.fifo.level ∧ (p = false → c = true → 2 ≤ m.fifo.level)
      exact ⟨by omega, fun _ _ => h2⟩
  case readyLoadTail head =>
    -- the FIFO has not been empty since the head was read
    refine h.move hidx rfl rfl rfl rfl (fun _ hn => hn) (fun hr => hr) ?_
    have hhead : head = m.fifo.head := h.reads
    have hne := (Fifo.nonempty_iff_level h.idx.1).mpr (h.update rfl).1
    show decide (head ≠ m.fifo.tail) = true
    rw [hhead]
    exact hne
  case readyWrite level =>
    have hlevel : level = true := h.reads
    have hne := (Fifo.nonempty_iff_level h.idx.1).mpr (h.update rfl).1
    refine ⟨hidx, h.item, ?_, ?_, ?_, ?_, trivial⟩
    · intro _
      exact hlevel.trans hne.symm
    · rintro n ⟨⟩
    · rintro ⟨⟩
    · rintro ⟨⟩
  all_goals
    first
      | exact h.move hidx rfl rfl rfl rfl (fun _ hn => hn) (fun hr => hr) trivial
      | exact h.move hidx rfl rfl rfl rfl (fun _ hn => hn) (fun hr => hr) rfl

/-- Less credit is less to guard. -/
theorem weaken {b : Board} {c' : Bool} (h : PinGuard b c p) (hc : c' = true → c = true) :
    PinGuard b c' p :=
  ⟨h.idx, fun hc' => h.item (hc hc'), h.pin, h.push, h.full,
    fun hu => ⟨(h.update hu).1, fun hp hc' => (h.update hu).2 hp (hc hc')⟩, h.reads⟩

/-- What a frame that is no START does to the indices. -/
theorem frame_head {f : Frame} (hs : f.isStart = false) :
    (m.handleFrame f).fifo.head = m.fifo.head := by
  rw [Mcu.handleFrame_fifo, Fifo.afterFrame_head, if_neg (by simp [hs])]

/-- A callback in progress reads the same after a frame that is no START. -/
theorem reads_frame {f : Frame} (hs : f.isStart = false) (h : pc.Reads m.fifo) :
    pc.Reads (m.handleFrame f).fifo := by
  cases pc <;> simp only [TimPc.Reads, frame_head hs] at h ⊢ <;> exact h

/-- The pin stays right under every frame outside the update. -/
theorem pin_frame {f : Frame} (h : PinGuard ⟨m, pc⟩ c p) (hu : pc.updating = false) :
    (m.handleFrame f).dataReady = (m.handleFrame f).fifo.nonempty :=
  Mcu.handleFrame_pin f (h.pin hu)

/-- A frame that leaves the items alone keeps the guard, also when the callback counts as
preempted from then on. -/
theorem keep {f : Frame} (h : PinGuard ⟨m, pc⟩ c p) (hs : f.isStart = false)
    (hp : f.isPop = false) {c' p' : Bool} (hc : c' = true → 1 ≤ m.fifo.level)
    (hpc : p' = false → p = false ∧ (pc.updating = true → c' = true → c = true)) :
    PinGuard ⟨m.handleFrame f, pc⟩ c' p' := by
  have hlev : (m.handleFrame f).fifo.level = m.fifo.level := by
    rw [Mcu.handleFrame_fifo]
    exact Fifo.level_afterFrame_of_keep (by simp [hs]) (by simp [hp])
  refine ⟨?_, ?_, h.pin_frame, ?_, ?_, ?_, reads_frame hs h.reads⟩
  · exact h.idx.next (e := .frame f) rfl
  · intro hc'
    rw [hlev]
    exact hc hc'
  · intro next hn
    rw [frame_head hs, hlev]
    exact h.push next hn
  · intro hr
    rw [hlev]
    exact ⟨(h.full hr).1, fun hp' => (h.full hr).2 (hpc hp').1⟩
  · intro hu
    rw [hlev]
    exact ⟨(h.update hu).1, fun hp' hc' => (h.update hu).2 (hpc hp').1 ((hpc hp').2 hu hc')⟩

/-- The VAL frame of a pass takes the item the pass knew of. -/
theorem pop {f : Frame} (h : PinGuard ⟨m, pc⟩ true p) (hs : f.isStart = false)
    (hp : f.isPop = true) (hpre : pc = .idle ∨ p = false) {p' : Bool}
    (hpc : pc ≠ .idle → p' = true) : PinGuard ⟨m.handleFrame f, pc⟩ false p' := by
  have hq : m.fifo.InRange := h.idx.1
  have hlev : (m.handleFrame f).fifo.level + 1 = m.fifo.level := by
    rw [Mcu.handleFrame_fifo]
    exact Fifo.level_afterFrame_of_pop hq (by simp [hs]) hp (h.item rfl)
  refine ⟨?_, ?_, h.pin_frame, ?_, ?_, ?_, reads_frame hs h.reads⟩
  · exact h.idx.next (e := .frame f) rfl
  · rintro ⟨⟩
  · intro next hn
    rw [frame_head hs]
    obtain ⟨hnext, hl⟩ := h.push next hn
    dsimp only at hl ⊢
    exact ⟨hnext, by omega⟩
  · intro hr
    have hne : pc ≠ .idle := by rintro rfl; cases hr
    obtain ⟨-, h3⟩ := h.full hr
    have := h3 (hpre.resolve_left hne)
    dsimp only at this ⊢
    rw [hpc hne]
    exact ⟨by omega, by simp⟩
  · intro hu
    have hne : pc ≠ .idle := by rintro rfl; cases hu
    obtain ⟨-, h2⟩ := h.update hu
    have := h2 (hpre.resolve_left hne) rfl
    dsimp only at this ⊢
    exact ⟨by omega, by simp⟩

end PinGuard

/-! ## The IRQ line -/

/-- The system with its IRQ line. -/
structure Handshake where
  sys : DrainSys
  /-- The thread has been woken and its pass has not begun. -/
  pending : Bool
  /-- A rising edge came while the line was masked. -/
  latched : Bool
  /-- A frame handler has run inside the current timer callback. -/
  preempted : Bool

namespace Handshake

/-- The MCU's side. -/
abbrev board (s : Handshake) : Board := s.sys.bus.board

/-- The line is masked from the hard IRQ to the end of the thread. -/
def masked (s : Handshake) : Bool := s.pending || s.sys.drv.pass.isSome

/-- The state after a step of the system to `sys`: a rising edge wakes the thread, or is
latched while the line is masked, and the end of a pass replays a latched edge. -/
def after (s : Handshake) (e : DrainEvent) (sys : DrainSys) : Handshake :=
  let rise := !s.board.mcu.dataReady && sys.bus.board.mcu.dataReady
  let ended := s.sys.drv.pass.isSome && !sys.drv.pass.isSome
  let begun := !s.sys.drv.pass.isSome && sys.drv.pass.isSome
  { sys := sys
    pending := if ended then s.latched || rise else !begun && (s.pending || (rise && !s.masked))
    latched := !ended && (s.latched || (rise && s.masked))
    preempted :=
      match e with
      | .tick => false
      | .xfer => s.preempted || s.board.tim != .idle
      | _ => s.preempted }

/-- One event.  A pass begins only when the thread has been woken. -/
def next (s : Handshake) (e : DrainEvent) : Option Handshake :=
  match e with
  | .irq ts => if s.pending then (s.sys.next (.irq ts)).map (s.after e) else none
  | _ => (s.sys.next e).map (s.after e)

/-- The states right after a START: its address frame has just been handled, whatever the
MCU's state was, no callback is in progress, the driver is idle, and the frame that
collects the reply is still to come. -/
def Started (s : Handshake) : Prop :=
  ∃ (m : Mcu) (d : Driver) (t : ℕ), m.fifo.InRange ∧ d.pass = none ∧
    s = { sys :=
            { bus :=
                { board := ⟨m.handleFrame Board.startFrame, .idle⟩
                  lock := some ⟨t + 1, .write 0x03#8 1, true, 1, some 0⟩
                  lastLost := false
                  calls := [] }
              drv := d }
          pending := false
          latched := false
          preempted := false }

/-- The handshake, from a START on. -/
def machine : Machine Handshake DrainEvent where
  init := Started
  next := next

/-- An operation that leaves the FIFO's items alone: no START and no pop. -/
def Neutral (op : RegOp) : Prop := op.frame.isStart = false ∧ op.frame.isPop = false

instance : DecidablePred Neutral :=
  fun op => inferInstanceAs (Decidable (op.frame.isStart = false ∧ op.frame.isPop = false))

/-- Steady running: other threads' operations are neutral, reads do not fail, and at most
one frame handler runs inside any one timer callback. -/
def Steady (s : Handshake) : DrainEvent → Prop
  | .other _ op => Neutral op
  | .injectFault => False
  | .xfer => s.board.tim = .idle ∨ s.preempted = false
  | _ => True

instance : ∀ (s : Handshake) (e : DrainEvent), Decidable (s.Steady e)
  | _, .other _ op => inferInstanceAs (Decidable (Neutral op))
  | _, .injectFault => isFalse id
  | s, .xfer => inferInstanceAs (Decidable (s.board.tim = .idle ∨ s.preempted = false))
  | _, .irq _ => isTrue trivial
  | _, .call => isTrue trivial
  | _, .tick => isTrue trivial
  | _, .tim => isTrue trivial
  | _, .pass => isTrue trivial
  | _, .setParams _ => isTrue trivial
  | _, .take _ => isTrue trivial

/-! ## The invariant -/

/-- The invariant of the handshake.  `quiet` is its point: when no pass will look at the
FIFO again, the pin is low. -/
structure Inv (s : Handshake) : Prop where
  armed : s.sys.Armed
  guard : PinGuard s.board s.sys.credit s.preempted
  quiet : s.pending = false → s.latched = false → s.sys.exhausted = true →
    s.board.mcu.dataReady = false
  neutral : ∀ h, s.sys.bus.lock = some h → h.addrSent = false →
    h.thread ≠ DrainSys.irqThread → Neutral h.op
  waiting : s.pending = true → s.sys.drv.pass = none
  held : s.latched = true → s.masked = true

section Line

variable {s : Handshake} {e : DrainEvent} {sys : DrainSys}

/-- A wake-up, a latched edge or a new one is not lost: the thread is woken, or the edge is
latched, unless a pass begins. -/
theorem due_after (hwait : s.pending = true → s.sys.drv.pass = none)
    (hbegun : s.sys.drv.pass = none → sys.drv.pass = none)
    (hdue : s.pending = true ∨ s.latched = true ∨
      s.board.mcu.dataReady = false ∧ sys.bus.board.mcu.dataReady = true) :
    (s.after e sys).pending = true ∨ (s.after e sys).latched = true := by
  cases hs : s.sys.drv.pass with
  | none =>
      have hs' := hbegun hs
      rcases hdue with hpend | hlatch | ⟨hlow, hhigh⟩
      · exact .inl (by simp [Handshake.after, hs, hs', hpend])
      · exact .inr (by simp [Handshake.after, hs, hlatch])
      · -- the line is masked only if the thread has been woken
        cases hpend : s.pending with
        | true => exact .inl (by simp [Handshake.after, hs, hs', hpend])
        | false => exact .inl (by simp [Handshake.after, masked, hs, hs', hpend, hlow, hhigh])
  | some p =>
      have hpend : s.pending ≠ true := fun hp => Option.some_ne_none p (hs.symm.trans (hwait hp))
      cases hs' : sys.drv.pass with
      | none =>
          -- the pass ends, and replays the edge
          rcases hdue with hp | hlatch | ⟨hlow, hhigh⟩
          · exact absurd hp hpend
          · exact .inl (by simp [Handshake.after, hs, hs', hlatch])
          · exact .inl (by simp [Handshake.after, hs, hs', hlow, hhigh])
      | some p' =>
          rcases hdue with hp | hlatch | ⟨hlow, hhigh⟩
          · exact absurd hp hpend
          · exact .inr (by simp [Handshake.after, hs', hlatch])
          · exact .inr (by simp [Handshake.after, masked, hs, hs', hlow, hhigh])

/-- A thread that is waiting to begin has no pass. -/
theorem waiting_after (hwait : s.pending = true → s.sys.drv.pass = none)
    (hpend : (s.after e sys).pending = true) : sys.drv.pass = none := by
  by_contra hne
  obtain ⟨p', hs'⟩ := Option.ne_none_iff_exists'.mp hne
  cases hs : s.sys.drv.pass with
  | none => simp [Handshake.after, hs, hs'] at hpend
  | some p =>
      have hp : s.pending = true := by simpa [Handshake.after, masked, hs, hs'] using hpend
      exact Option.some_ne_none p (hs.symm.trans (hwait hp))

/-- An edge is latched only while the line is masked. -/
theorem held_after (hheld : s.latched = true → s.masked = true)
    (hlatch : (s.after e sys).latched = true) : (s.after e sys).masked = true := by
  cases hs' : sys.drv.pass with
  | some p' => simp [Handshake.after, masked, hs']
  | none =>
      cases hs : s.sys.drv.pass with
      | some p => simp [Handshake.after, hs, hs'] at hlatch
      | none =>
          have hmasked : s.masked = true := by
            simp only [Handshake.after, hs, Option.isSome_none, Bool.false_and, Bool.not_false,
              Bool.true_and, Bool.or_eq_true, Bool.and_eq_true] at hlatch
            exact hlatch.elim hheld And.right
          have hpend : s.pending = true := by simpa [masked, hs] using hmasked
          simp [Handshake.after, masked, hs, hs', hpend]

/-- The IRQ line's part of every step: an edge is never lost. -/
theorem Inv.after (h : s.Inv)
    (harmed : sys.Armed) (hguard : PinGuard sys.bus.board sys.credit (s.after e sys).preempted)
    (hneutral : ∀ k, sys.bus.lock = some k → k.addrSent = false →
      k.thread ≠ DrainSys.irqThread → Neutral k.op)
    (hex : sys.exhausted = true → sys.bus.board.mcu.dataReady = false ∨
      s.sys.exhausted = true ∧ (s.sys.drv.pass = none → sys.drv.pass = none)) :
    (s.after e sys).Inv := by
  refine ⟨harmed, hguard, ?_, hneutral, waiting_after h.waiting, held_after h.held⟩
  intro hpend hlatch hexh
  rcases hex hexh with hlow | ⟨hexh', hbegun⟩
  · exact hlow
  have hdue : ¬ ((s.after e sys).pending = true ∨ (s.after e sys).latched = true) := by
    rw [hpend, hlatch]
    decide
  have hnew := mt (due_after h.waiting hbegun) hdue
  -- nothing was due before either, so the pin was low, and there is no new edge
  simp only [not_or, Bool.not_eq_true] at hnew
  obtain ⟨hpend₀, hlatch₀, hrise⟩ := hnew
  have hlow := h.quiet hpend₀ hlatch₀ hexh'
  exact eq_false_of_ne_true fun hhigh => hrise ⟨hlow, hhigh⟩

end Line

/-- A step that touches neither the board, nor the credit, nor what a pass was told. -/
theorem Inv.driver {s : Handshake} {e : DrainEvent} {sys : DrainSys} (h : s.Inv)
    (harmed : sys.Armed) (hboard : sys.bus.board = s.board)
    (hpre : (s.after e sys).preempted = s.preempted)
    (hlock : ∀ k, sys.bus.lock = some k → k.addrSent = false →
      k.thread ≠ DrainSys.irqThread → Neutral k.op)
    (hcredit : sys.credit = true → s.sys.credit = true)
    (hex : sys.exhausted = true →
      s.sys.exhausted = true ∧ (s.sys.drv.pass = none → sys.drv.pass = none)) :
    (s.after e sys).Inv := by
  refine h.after harmed ?_ hlock (fun hx => Or.inr (hex hx))
  rw [hboard, hpre]
  exact h.guard.weaken hcredit

/-- A step of the driver after which the pass and the awaited word are the same. -/
theorem Inv.same {s : Handshake} {e : DrainEvent} {sys : DrainSys} (h : s.Inv)
    (harmed : sys.Armed) (hboard : sys.bus.board = s.board)
    (hpre : (s.after e sys).preempted = s.preempted)
    (hlock : ∀ k, sys.bus.lock = some k → k.addrSent = false →
      k.thread ≠ DrainSys.irqThread → Neutral k.op)
    (hpass : sys.drv.pass = s.sys.drv.pass) (hawaits : sys.awaits = s.sys.awaits) :
    (s.after e sys).Inv := by
  refine h.driver harmed hboard hpre hlock ?_ ?_
  · rw [DrainSys.credit_congr hawaits hpass]
    exact id
  · rw [DrainSys.exhausted_congr hawaits hpass, hpass]
    exact fun hx => ⟨hx, id⟩

/-- An access of the timer callback. -/
theorem Inv.tim {s : Handshake} {b : Board} (h : s.Inv)
    (hb : s.board.next .tim = some b) :
    (s.after .tim { s.sys with bus := { s.sys.bus with board := b } }).Inv := by
  have harmed : DrainSys.Armed { s.sys with bus := { s.sys.bus with board := b } } :=
    h.armed.step (.tim hb)
  refine h.after harmed ?_ h.neutral (fun hx => Or.inr ⟨hx, id⟩)
  simp only [Board.next] at hb
  split_ifs at hb
  cases hb
  exact h.guard.timStep

/-- The timer interrupt. -/
theorem Inv.tick {s : Handshake} {b : Board} (h : s.Inv)
    (hb : s.board.next .tick = some b) :
    (s.after .tick { s.sys with bus := { s.sys.bus with board := b } }).Inv := by
  have harmed : DrainSys.Armed { s.sys with bus := { s.sys.bus with board := b } } :=
    h.armed.step (.tick hb)
  refine h.after harmed ?_ h.neutral (fun hx => Or.inr ⟨hx, id⟩)
  simp only [Board.next] at hb
  split_ifs at hb with hidle
  cases hb
  have hg := h.guard
  have hpin := hg.pin (by rw [hidle]; rfl)
  refine ⟨⟨hg.idx.1, trivial⟩, hg.item, fun _ => hpin, ?_, ?_, ?_, trivial⟩
  · rintro next ⟨⟩
  · rintro ⟨⟩
  · rintro ⟨⟩

/-- A step of the pass that reads no register. -/
theorem Inv.pass {s : Handshake} {p : Pass} {d : Driver} (h : s.Inv)
    (hp : s.sys.drv.pass = some p) (hd : s.sys.drv.passStep p = some d) :
    (s.after .pass { s.sys with drv := d }).Inv := by
  have harmed : DrainSys.Armed { s.sys with drv := d } := h.armed.step (.pass hp hd)
  have hop : p.pc.op = none := by
    cases hop : p.pc.op with
    | none => rfl
    | some op =>
        rw [Driver.passStep_of_op hop] at hd
        cases hd
  have hawaits : s.sys.awaits = none := by
    refine h.armed.awaits_eq_none fun q hq => ?_
    rw [hp, Option.some.injEq] at hq
    rw [← hq, hop]
  have hawaits' : DrainSys.awaits { s.sys with drv := d } = none := hawaits
  refine h.driver harmed rfl rfl h.neutral ?_ ?_
  · intro hc
    rcases Driver.passStep_pass hd with ⟨-, hnone⟩ | ⟨⟨qc, qe, qd⟩, hq, hpc⟩
    · simp [DrainSys.credit, hnone] at hc
    · rcases hpc with rfl | ⟨x, rfl | rfl⟩ <;> simp [DrainSys.credit, hq, hawaits'] at hc
  · intro hx
    rcases Driver.passStep_pass hd with ⟨hfin, hnone⟩ | ⟨⟨qc, qe, qd⟩, hq, hpc⟩
    · refine ⟨?_, fun _ => hnone⟩
      obtain ⟨pc, pe, pd⟩ := p
      dsimp only at hfin
      subst hfin
      simp [DrainSys.exhausted, hp]
    · rcases hpc with rfl | ⟨x, rfl | rfl⟩ <;> simp [DrainSys.exhausted, hq, hawaits'] at hx

/-- A frame that leaves the items alone, whoever sends it. -/
theorem Inv.keepFrame {s : Handshake} {sys : DrainSys} {f : Frame} (h : s.Inv)
    (harmed : sys.Armed)
    (hboard : sys.bus.board = ⟨s.board.mcu.handleFrame f, s.board.tim⟩)
    (hs : f.isStart = false) (hpop : f.isPop = false)
    (hlock : ∀ k, sys.bus.lock = some k → k.addrSent = false →
      k.thread ≠ DrainSys.irqThread → Neutral k.op)
    (hcredit : sys.credit = true → 1 ≤ s.board.mcu.fifo.level)
    (hex : sys.exhausted = true → sys.bus.board.mcu.dataReady = false ∨
      s.sys.exhausted = true ∧ (s.sys.drv.pass = none → sys.drv.pass = none)) :
    (s.after .xfer sys).Inv := by
  refine h.after harmed ?_ hlock hex
  rw [hboard]
  refine h.guard.keep hs hpop hcredit ?_
  intro hpre
  simp only [Handshake.after, Bool.or_eq_false_iff, bne_eq_false_iff_eq] at hpre
  refine ⟨hpre.1, fun hu => ?_⟩
  rw [hpre.2] at hu
  cases hu

/-- The address frame of another thread's operation. -/
theorem Inv.otherAddr {s : Handshake} {k : Holder} (h : s.Inv) (hl : s.sys.bus.lock = some k)
    (hsent : k.addrSent = false) (ht : k.thread ≠ DrainSys.irqThread) :
    (s.after .xfer { s.sys with bus := s.sys.bus.sendAddr k false }).Inv := by
  have harmed : DrainSys.Armed { s.sys with bus := s.sys.bus.sendAddr k false } :=
    h.armed.step (.addr hl hsent)
  obtain ⟨hs, hpop⟩ := h.neutral k hl hsent ht
  have hawaits : s.sys.awaits = none := DrainSys.awaits_of_unsent hl hsent
  have hawaits' : DrainSys.awaits { s.sys with bus := s.sys.bus.sendAddr k false } = none := by
    apply DrainSys.awaits_eq_none
    rintro k' ⟨⟩ -
    exact ht
  have hsame := hawaits'.trans hawaits.symm
  have hcredit := DrainSys.credit_congr hsame rfl
  have hexh := DrainSys.exhausted_congr hsame rfl
  refine h.keepFrame harmed rfl hs hpop ?_ ?_ ?_
  · rintro k' ⟨⟩ ⟨⟩
  · intro hc
    exact h.guard.item (hcredit ▸ hc)
  · intro hx
    exact Or.inr ⟨hexh ▸ hx, id⟩

/-- The address frame of the pass's LEVEL read: it brings credit, or the news that the
FIFO is empty, and then the pin is low. -/
theorem Inv.levelAddr {s : Handshake} {k : Holder} {errors : ℕ} {drained : BitVec 32} (h : s.Inv)
    (hl : s.sys.bus.lock = some k) (hsent : k.addrSent = false)
    (ht : k.thread = DrainSys.irqThread) (hop : k.op = .read regFifoLevel)
    (hp : s.sys.drv.pass = some ⟨.level, errors, drained⟩) :
    (s.after .xfer { s.sys with bus := s.sys.bus.sendAddr k false }).Inv := by
  have harmed : DrainSys.Armed { s.sys with bus := s.sys.bus.sendAddr k false } :=
    h.armed.step (.addr hl hsent)
  have hlt := Fifo.level_lt h.guard.idx.1
  have hawaits' : DrainSys.awaits { s.sys with bus := s.sys.bus.sendAddr k false } =
      some (BitVec.ofNat 32 s.board.mcu.fifo.level) := by
    simp only [DrainSys.awaits, SpiBus.sendAddr, Bool.false_eq_true, if_false, ht, true_and,
      if_true]
    rw [hop]
    rfl
  have hzero : BitVec.ofNat 32 s.board.mcu.fifo.level = 0 ↔ s.board.mcu.fifo.level = 0 := by
    simp only [fifoDepth] at hlt
    rw [← BitVec.toNat_inj, BitVec.toNat_ofNat, Nat.mod_eq_of_lt (by omega)]
    rfl
  have hs : k.op.frame.isStart = false := by rw [hop]; rfl
  have hpop : k.op.frame.isPop = false := by rw [hop]; rfl
  refine h.keepFrame harmed rfl hs hpop ?_ ?_ ?_
  · rintro k' ⟨⟩ ⟨⟩
  · intro hc
    simp only [DrainSys.credit, hp, hawaits', Option.any_some, bne_iff_ne, ne_eq, hzero] at hc
    omega
  · intro hx
    simp only [DrainSys.exhausted, hp, hawaits', beq_iff_eq, Option.some.injEq, hzero] at hx
    refine Or.inl ?_
    have hupd : s.board.tim.updating = false := by
      by_contra hu
      have := (h.guard.update (by simpa using hu)).1
      omega
    have hempty : s.board.mcu.fifo.nonempty = false := by
      by_contra hne
      have := (Fifo.nonempty_iff_level h.guard.idx.1).mp (by simpa using hne)
      omega
    show (s.board.mcu.handleFrame k.op.frame).dataReady = false
    rw [h.guard.pin_frame hupd, Mcu.handleFrame_fifo]
    exact Fifo.nonempty_afterFrame_of_empty hempty

/-- The address frame of the pass's SEQ read. -/
theorem Inv.seqAddr {s : Handshake} {k : Holder} {errors : ℕ} {drained : BitVec 32} (h : s.Inv)
    (hl : s.sys.bus.lock = some k) (hsent : k.addrSent = false) (hop : k.op = .read regDataSeq)
    (hp : s.sys.drv.pass = some ⟨.seq, errors, drained⟩) :
    (s.after .xfer { s.sys with bus := s.sys.bus.sendAddr k false }).Inv := by
  have harmed : DrainSys.Armed { s.sys with bus := s.sys.bus.sendAddr k false } :=
    h.armed.step (.addr hl hsent)
  have hs : k.op.frame.isStart = false := by rw [hop]; rfl
  have hpop : k.op.frame.isPop = false := by rw [hop]; rfl
  refine h.keepFrame harmed rfl hs hpop ?_ ?_ ?_
  · rintro k' ⟨⟩ ⟨⟩
  · intro _
    exact h.guard.item (by simp [DrainSys.credit, hp])
  · intro hx
    simp [DrainSys.exhausted, hp] at hx

/-- The address frame of the pass's VAL read spends its credit. -/
theorem Inv.valAddr {s : Handshake} {k : Holder} {q : BitVec 32} {errors : ℕ}
    {drained : BitVec 32} (h : s.Inv) (hpre : s.board.tim = .idle ∨ s.preempted = false)
    (hl : s.sys.bus.lock = some k) (hsent : k.addrSent = false)
    (ht : k.thread = DrainSys.irqThread) (hop : k.op = .read regDataVal)
    (hp : s.sys.drv.pass = some ⟨.val q, errors, drained⟩) :
    (s.after .xfer { s.sys with bus := s.sys.bus.sendAddr k false }).Inv := by
  have harmed : DrainSys.Armed { s.sys with bus := s.sys.bus.sendAddr k false } :=
    h.armed.step (.addr hl hsent)
  have hawaits : s.sys.awaits = none := DrainSys.awaits_of_unsent hl hsent
  have hawaits' : DrainSys.awaits { s.sys with bus := s.sys.bus.sendAddr k false } =
      some (s.board.mcu.respond k.op.frame).1 := by
    simp [DrainSys.awaits, SpiBus.sendAddr, ht]
  have hs : k.op.frame.isStart = false := by rw [hop]; rfl
  have hpop : k.op.frame.isPop = true := by rw [hop]; rfl
  have hcredit : s.sys.credit = true := by simp [DrainSys.credit, hp, hawaits]
  have hcredit' : DrainSys.credit { s.sys with bus := s.sys.bus.sendAddr k false } = false := by
    simp [DrainSys.credit, hp, hawaits']
  refine h.after harmed ?_ ?_ ?_
  · have hg := h.guard
    rw [hcredit] at hg
    rw [hcredit']
    refine hg.pop hs hpop hpre ?_
    intro hne
    simp [Handshake.after, hne]
  · rintro k' ⟨⟩ ⟨⟩
  · intro hx
    simp [DrainSys.exhausted, hp] at hx

/-- The NOP frame of the pass's own operation, and the pass's next point. -/
theorem Inv.reply {s : Handshake} {k : Holder} {v : BitVec 32} {p p' : Pass} (h : s.Inv)
    (hl : s.sys.bus.lock = some k) (hsent : k.addrSent = true) (hv : k.computed = some v)
    (ht : k.thread = DrainSys.irqThread) (hp : s.sys.drv.pass = some p)
    (hop : p.pc.op = some k.op) (hr : p.reply s.sys.drv.irqTsNs (.ok v) = some p') :
    (s.after .xfer ⟨(s.sys.bus.clock nopFrame false).ret k (.ok v),
      { s.sys.drv with pass := some p' }⟩).Inv := by
  have harmed := h.armed.step (.reply hl hsent hv ht hp hop hr)
  have hawaits : s.sys.awaits = some v := (DrainSys.awaits_of_sent hl hsent ht).trans hv
  have hawaits' : DrainSys.awaits ⟨(s.sys.bus.clock nopFrame false).ret k (.ok v),
      { s.sys.drv with pass := some p' }⟩ = none := rfl
  obtain ⟨pc, errors, drained⟩ := p
  refine h.keepFrame harmed rfl rfl rfl ?_ ?_ ?_
  · rintro k' ⟨⟩
  · intro hc
    refine h.guard.item ?_
    cases pc <;> simp only [Pass.reply, Option.some.injEq, reduceCtorEq] at hr <;> subst hr
    case level =>
      by_cases hzero : v = 0#32
      · simp [DrainSys.credit, hzero] at hc
      · simp [DrainSys.credit, hp, hawaits, hzero]
    case seq => simp [DrainSys.credit, hp]
    case val => simp [DrainSys.credit] at hc
  · intro hx
    refine Or.inr ?_
    cases pc <;> simp only [Pass.reply, Option.some.injEq, reduceCtorEq] at hr <;> subst hr
    case level =>
      by_cases hzero : v = 0#32
      · simp [DrainSys.exhausted, hp, hawaits, hzero]
      · simp [DrainSys.exhausted, hzero] at hx
    case seq => simp [DrainSys.exhausted] at hx
    case val => simp [DrainSys.exhausted] at hx

/-- The NOP frame of another thread's operation. -/
theorem Inv.done {s : Handshake} {k : Holder} {r : Except Errno (BitVec 32)} (h : s.Inv)
    (hl : s.sys.bus.lock = some k) (hsent : k.addrSent = true)
    (ht : k.thread ≠ DrainSys.irqThread) :
    (s.after .xfer { s.sys with bus := (s.sys.bus.clock nopFrame false).ret k r }).Inv := by
  have harmed := h.armed.step (.done (r := r) hl hsent ht)
  have hsame : DrainSys.awaits { s.sys with bus := (s.sys.bus.clock nopFrame false).ret k r } =
      s.sys.awaits := (DrainSys.awaits_of_other hl ht).symm
  have hcredit := DrainSys.credit_congr hsame rfl
  have hexh := DrainSys.exhausted_congr hsame rfl
  refine h.keepFrame harmed rfl rfl rfl ?_ ?_ ?_
  · rintro k' ⟨⟩
  · intro hc
    exact h.guard.item (hcredit ▸ hc)
  · intro hx
    exact Or.inr ⟨hexh ▸ hx, id⟩

/-- A step of the system under steady running keeps the invariant. -/
theorem Inv.step {s : Handshake} {e : DrainEvent} {sys : DrainSys} (h : s.Inv)
    (hok : s.Steady e) (hs : s.sys.Step e sys) : (s.after e sys).Inv := by
  have harmed := h.armed.step hs
  cases hs with
  | irq ts hp =>
      have hnone : s.sys.awaits = none := by
        refine h.armed.awaits_eq_none fun q hq => ?_
        rw [hp] at hq
        cases hq
      have hnone' : DrainSys.awaits { s.sys with drv := { s.sys.drv with
          irqTsNs := ts, pass := some Pass.begin } } = none := hnone
      refine h.driver harmed rfl rfl h.neutral ?_ ?_
      · intro hc
        simp only [DrainSys.credit, Pass.begin] at hc hnone'
        rw [hnone'] at hc
        cases hc
      · intro hx
        simp only [DrainSys.exhausted, Pass.begin] at hx hnone'
        rw [hnone'] at hx
        cases hx
  | call hp hop hl =>
      refine h.same harmed rfl rfl ?_ rfl ?_
      · rintro k ⟨⟩ - ht
        exact absurd rfl ht
      · exact (DrainSys.awaits_of_unsent rfl rfl).trans (DrainSys.awaits_of_free hl).symm
  | other t op hl =>
      refine h.same harmed rfl rfl ?_ rfl ?_
      · rintro k ⟨⟩ - -
        exact hok
      · exact (DrainSys.awaits_of_unsent rfl rfl).trans (DrainSys.awaits_of_free hl).symm
  | faultPass => exact hok.elim
  | faultOther => exact hok.elim
  | @addr k hl hsent =>
      by_cases ht : k.thread = DrainSys.irqThread
      · obtain ⟨⟨pc, errors, drained⟩, hp, hop⟩ := h.armed.holder k hl ht
        cases pc <;> simp only [PassPc.op, Option.some.injEq, reduceCtorEq] at hop
        · exact h.levelAddr hl hsent ht hop.symm hp
        · exact h.seqAddr hl hsent hop.symm hp
        · exact h.valAddr hok hl hsent ht hop.symm hp
      · exact h.otherAddr hl hsent ht
  | reply hl hsent hv ht hp hop hr => exact h.reply hl hsent hv ht hp hop hr
  | done hl hsent ht => exact h.done hl hsent ht
  | tick hb => exact h.tick hb
  | tim hb => exact h.tim hb
  | pass hp hd => exact h.pass hp hd
  | setParams q => exact h.same harmed rfl rfl h.neutral rfl rfl
  | take n => exact h.same harmed rfl rfl h.neutral rfl rfl

/-- **Step lemma.**  Every steady event keeps the invariant. -/
theorem Inv.next {s s' : Handshake} {e : DrainEvent} (h : s.Inv) (hok : s.Steady e)
    (hn : s.next e = some s') : s'.Inv := by
  have hsys : ∃ sys, s.sys.next e = some sys ∧ s.after e sys = s' := by
    cases e <;> simp only [Handshake.next] at hn
    case irq =>
      split_ifs at hn
      exact Option.map_eq_some_iff.mp hn
    all_goals exact Option.map_eq_some_iff.mp hn
  obtain ⟨sys, hsys, rfl⟩ := hsys
  exact h.step hok (DrainSys.step_of_next h.armed hsys)

/-- The invariant holds right after a START. -/
theorem inv_of_started {s : Handshake} (h : s.Started) : s.Inv := by
  obtain ⟨m, d, t, hq, hd, rfl⟩ := h
  have hempty : (m.handleFrame Board.startFrame).fifo.nonempty = false := by
    rw [Mcu.handleFrame_fifo]
    exact Fifo.nonempty_afterFrame_of_start rfl
  have hpin : (m.handleFrame Board.startFrame).dataReady = false := by
    have hctl : Board.startFrame.isControl = true := rfl
    rw [Mcu.handleFrame_dataReady, if_pos (Or.inl hctl)]
    exact Fifo.nonempty_afterFrame_of_start rfl
  refine ⟨⟨?_, ?_⟩, ⟨⟨?_, trivial⟩, ?_, ?_, ?_, ?_, ?_, trivial⟩, ?_, ?_, ?_, ?_⟩
  · rintro k ⟨⟩ -
    exact ⟨0, rfl, rfl⟩
  · rintro k ⟨⟩ ht
    cases ht
  · rw [Mcu.handleFrame_fifo]
    exact hq.afterFrame _
  · intro hc
    simp [DrainSys.credit, hd] at hc
  · intro _
    exact hpin.trans hempty.symm
  · rintro next ⟨⟩
  · rintro ⟨⟩
  · rintro ⟨⟩
  · intro _ _ _
    exact hpin
  · rintro k ⟨⟩ ⟨⟩
  · rintro ⟨⟩
  · rintro ⟨⟩

/-! ## No stranded sample -/

/-- **The handshake never strands a sample.**  In steady running after a START, whenever
no pass is running or pending and no timer callback is in progress, the FIFO is empty. -/
theorem never_stranded {s : Handshake} (h : machine.Reach Steady s)
    (hpend : s.pending = false) (hpass : s.sys.drv.pass = none) (hidle : s.board.tim = .idle) :
    s.board.mcu.fifo.head = s.board.mcu.fifo.tail := by
  have hinv : s.Inv := by
    refine h.invariant ?_ ?_
    · intro s hs
      exact inv_of_started hs
    · intro s e s' hs hok hn
      exact hs.next hok hn
  have hlatch : s.latched = false := by
    by_contra hl
    have := hinv.held (by simpa using hl)
    simp [masked, hpend, hpass] at this
  have hlow := hinv.quiet hpend hlatch (by simp [DrainSys.exhausted, hpass])
  have hpin := hinv.guard.pin (by rw [hidle]; rfl)
  rw [hlow] at hpin
  simpa [Fifo.nonempty] using hpin.symm

/-- The events of one register read of the pass. -/
def passRead : List DrainEvent := [.call, .xfer, .xfer]

/-- A write of START whose frame the MCU has just handled. -/
def justStarted : Handshake where
  sys :=
    { bus :=
        { board := ⟨Mcu.powerOn.handleFrame Board.startFrame, .idle⟩
          lock := some ⟨1, .write 0x03#8 1, true, 1, some 0⟩
          lastLost := false
          calls := [] }
      drv := Driver.probe Params.default }
  pending := false
  latched := false
  preempted := false

/-- A pass drains the first sample; the LEVEL frame that starts it preempts the next
callback, which pushes a second sample that the same pass drains too. -/
def twoSamplesDrained : List DrainEvent :=
  List.flatten [[.xfer, .tick], List.replicate 15 .tim, [.irq 0, .tick], List.replicate 4 .tim,
    [.call, .xfer], List.replicate 11 .tim, [.xfer], passRead, passRead, [.pass, .pass, .pass],
    passRead, passRead, passRead, [.pass, .pass, .pass], passRead, [.pass]]

/-- That run ends with both samples drained, no pass, no edge pending and the FIFO empty. -/
theorem never_stranded_two_samples :
    ∃ s : Handshake, s.sys.drv.samples.map Sample.seq = [0, 1] ∧ s.pending = false ∧
      s.sys.drv.pass = none ∧ s.board.tim = .idle ∧
      s.board.mcu.fifo.head = s.board.mcu.fifo.tail := by
  have hinit : machine.init justStarted :=
    ⟨Mcu.powerOn, Driver.probe Params.default, 0, ⟨by decide, by decide⟩, rfl, rfl⟩
  obtain ⟨s, hs, hseq, hpend, hpass, htim⟩ : ∃ s : Handshake, machine.Reach Steady s ∧
      s.sys.drv.samples.map Sample.seq = [0, 1] ∧ s.pending = false ∧ s.sys.drv.pass = none ∧
      s.board.tim = .idle :=
    Machine.exists_reach_of_exec twoSamplesDrained hinit (by decide +kernel)
  exact ⟨s, hseq, hpend, hpass, htim, never_stranded hs hpend hpass htim⟩

end Handshake
