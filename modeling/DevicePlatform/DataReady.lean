/-
# The DATA_READY pin

DATA_READY is meant to be a level signal: high exactly while the FIFO holds an
item.  Frame handlers keep it so, since they update the pin before they return.
The timer callback does not: `update_data_ready_gpio` reads the two indices and
writes the pin in separate accesses, and a frame handled in between can change
the answer (`pin_high_on_empty_fifo`).

`disturbs` lists the frames that do so, by the access the callback has reached:

* after both loads, with "not empty" as the answer: a START, or a read of
  `REG_DATA_VAL` that takes the last item;
* between the two loads: a START, unless the head it read is the index 0 that
  START resets the tail to.

`pin_level` proves that these are the only ones: in every run without them the
pin is right whenever the callback is not running.
-/
import DevicePlatform.TimerCallback

namespace Board

/-- Handling `f` at this point makes the callback write a wrong pin level. -/
def disturbs (b : Board) (f : Frame) : Bool :=
  match b.tim with
  | .readyLoadTail head => f.isStart && head != 0
  | .readyWrite true => f.isStart || (f.isPop && b.mcu.fifo.level == 1)
  | _ => false

/-- The condition on a step: it does not handle a disturbing frame. -/
def Undisturbed (b : Board) : BoardEvent → Prop
  | .frame f => b.disturbs f = false
  | _ => True

instance : ∀ (b : Board) (e : BoardEvent), Decidable (b.Undisturbed e)
  | b, .frame f => inferInstanceAs (Decidable (b.disturbs f = false))
  | _, .tick => isTrue trivial
  | _, .tim => isTrue trivial
  | _, .spiError => isTrue trivial

/-! ## The invariant -/

/-- What the pin and the callback's locals say about the FIFO at each point: the
head that was read is still the head, the level about to be written is the right
one, and outside the update the pin itself is right. -/
def PinInv (b : Board) : Prop :=
  b.WellIndexed ∧
  match b.tim with
  | .idle | .loadControl | .toggleMark => b.mcu.dataReady = b.mcu.fifo.nonempty
  | .readyLoadTail head => head = b.mcu.fifo.head
  | .readyWrite level => level = b.mcu.fifo.nonempty
  | _ => True

theorem pinInv_powerOn : powerOn.PinInv := ⟨wellIndexed_powerOn, rfl⟩

/-- The callback's own accesses keep the invariant. -/
theorem PinInv.timStep {b : Board} (h : b.PinInv) :
    PinInv ⟨(b.mcu.timStep b.tim).2, (b.mcu.timStep b.tim).1⟩ := by
  refine ⟨h.1.timStep, ?_⟩
  obtain ⟨m, pc⟩ := b
  obtain ⟨-, hpin⟩ := h
  cases pc <;> simp only [Mcu.timStep] at hpin ⊢
  case idle => exact hpin
  case loadControl =>
    split_ifs
    · trivial
    · exact hpin
  case pushLoadTail => split_ifs <;> trivial
  case readyLoadTail => subst hpin; rfl
  case readyWrite => exact hpin
  case toggleMark => exact hpin

/-- A frame that does not disturb the callback keeps the invariant. -/
theorem PinInv.frame {b : Board} {f : Frame} (h : b.PinInv) (hd : b.disturbs f = false) :
    PinInv { b with mcu := b.mcu.handleFrame f } := by
  have hw : WellIndexed { b with mcu := b.mcu.handleFrame f } :=
    h.1.next (e := .frame f) rfl
  refine ⟨hw, ?_⟩
  obtain ⟨m, pc⟩ := b
  obtain ⟨⟨hrange, -⟩, hpin⟩ := h
  cases pc <;> simp only [disturbs] at hpin hd ⊢
  case idle => exact Mcu.handleFrame_pin f hpin
  case loadControl => exact Mcu.handleFrame_pin f hpin
  case toggleMark => exact Mcu.handleFrame_pin f hpin
  case readyLoadTail head =>
    rw [Mcu.handleFrame_fifo, Fifo.afterFrame_head]
    split_ifs with hs
    · simpa [hs] using hd
    · exact hpin
  case readyWrite level =>
    rw [Mcu.handleFrame_fifo]
    cases level
    · exact (Fifo.nonempty_afterFrame_of_empty hpin.symm).symm
    · simp only [Bool.or_eq_false_iff, Bool.and_eq_false_imp] at hd
      obtain ⟨hstart, hpop⟩ := hd
      have hs : ¬ f.isStart := by simp [hstart]
      by_cases hp : f.isPop
      · rw [Fifo.nonempty_afterFrame_of_pop hrange hs hp hpin.symm]
        simpa using hpop hp
      · rw [Fifo.nonempty_afterFrame_of_keep hs (fun hc => hp hc.1)]
        exact hpin

/-- Every undisturbed step keeps the invariant. -/
theorem PinInv.next {b b' : Board} {e : BoardEvent} (h : b.PinInv) (hu : b.Undisturbed e)
    (hn : b.next e = some b') : b'.PinInv := by
  cases e with
  | tick =>
      have hw := h.1.next hn
      simp only [Board.next] at hn
      split_ifs at hn with hidle
      cases hn
      have hpin := h.2
      rw [hidle] at hpin
      exact ⟨hw, hpin⟩
  | tim =>
      simp only [Board.next] at hn
      split_ifs at hn
      cases hn
      exact h.timStep
  | frame f =>
      simp only [Board.next] at hn
      cases hn
      exact h.frame hu
  | spiError =>
      simp only [Board.next] at hn
      cases hn
      exact h

/-! ## The level results -/

/-- **The pin is a level signal in every undisturbed run**: whenever no handler is
in progress, DATA_READY is high exactly when the FIFO is not empty. -/
theorem pin_level {b : Board} (h : machine.Reach Undisturbed b) (hidle : b.tim = .idle) :
    b.mcu.dataReady = true ↔ b.mcu.fifo.head ≠ b.mcu.fifo.tail := by
  have hinv : b.PinInv := by
    refine h.invariant ?_ ?_
    · rintro s rfl
      exact pinInv_powerOn
    · intro s e t hs hu hn
      exact hs.next hu hn
  have hpin := hinv.2
  rw [hidle] at hpin
  rw [hpin]
  simp [Fifo.nonempty]

/-- **The condition is exact**: if a disturbing frame is handled and the callback
then runs to its end, the pin is wrong. -/
theorem pin_wrong_of_disturbs {b : Board} {f : Frame} (h : b.PinInv) (hd : b.disturbs f) :
    ∃ n b', machine.Run Machine.Always b (.frame f :: List.replicate n .tim) b' ∧
      b'.tim = .idle ∧ b'.mcu.dataReady ≠ b'.mcu.fifo.nonempty := by
  obtain ⟨m, pc⟩ := b
  obtain ⟨⟨hrange, -⟩, hpin⟩ := h
  cases pc <;> simp only [disturbs, Bool.false_eq_true] at hd hpin
  case readyLoadTail head =>
    -- the stale head is compared with the tail that START has reset
    simp only [Bool.and_eq_true, bne_iff_ne, ne_eq] at hd
    obtain ⟨hs, hne⟩ := hd
    refine ⟨3, _, Machine.run_of_exec rfl, rfl, ?_⟩
    show decide (head ≠ (m.handleFrame f).fifo.tail) ≠ (m.handleFrame f).fifo.nonempty
    rw [Mcu.handleFrame_fifo, Fifo.nonempty_afterFrame_of_start hs, Fifo.afterFrame_tail,
      if_pos hs]
    simp [hne]
  case readyWrite level =>
    cases level <;> simp only [Bool.false_eq_true] at hd
    refine ⟨2, _, Machine.run_of_exec rfl, rfl, ?_⟩
    show true ≠ (m.handleFrame f).fifo.nonempty
    rw [Mcu.handleFrame_fifo]
    simp only [Bool.or_eq_true, Bool.and_eq_true, beq_iff_eq] at hd
    rcases hd with hs | ⟨hp, hl⟩
    · rw [Fifo.nonempty_afterFrame_of_start hs]
      decide
    · rw [Fifo.nonempty_afterFrame_of_pop hrange (Frame.not_isStart_of_isPop hp) hp hpin.symm,
        hl]
      decide

/-- The hypotheses of `pin_level` are met after a START and one whole callback. -/
theorem pin_level_after_first_sample :
    ∃ b : Board, b.tim = .idle ∧ b.mcu.fifo.level = 1 ∧
      (b.mcu.dataReady = true ↔ b.mcu.fifo.head ≠ b.mcu.fifo.tail) := by
  have h : machine.exec Undisturbed powerOn
      (.frame startFrame :: .tick :: List.replicate 15 .tim) = some _ := rfl
  exact ⟨_, rfl, rfl, pin_level (Machine.reach_of_exec rfl h) rfl⟩

/-- **The pin can stay high on an empty FIFO.**  The callback of the first sample
reads "not empty"; before it writes the pin, a read of `REG_DATA_VAL` takes the
sample and lowers the pin; the callback then raises it again. -/
theorem pin_high_on_empty_fifo :
    ¬ ∀ b : Board, machine.Reach Machine.Always b → b.tim = .idle →
      (b.mcu.dataReady = true ↔ b.mcu.fifo.head ≠ b.mcu.fifo.tail) := by
  intro hall
  have h : machine.exec Machine.Always powerOn
      (.frame startFrame :: .tick :: List.replicate 13 .tim ++
        [.frame dataValFrame, .tim, .tim]) = some _ := rfl
  have hpin := hall _ (Machine.reach_of_exec rfl h) rfl
  exact hpin.mp rfl rfl

end Board
