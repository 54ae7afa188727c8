/-
# The rate controller

Model of `BackpressureController` (`userspace/device-service/src/backpressure_controller.cpp`): in
every check interval, a *window*, it compares `kfifo_overflow` with its previous value and moves
the sample rate down or up.  A window is what one call of `check_once` meets: what the two
attributes read, whether the early warning is on, and what a write of `sample_rate` finds.

Decided here is whether a movement of `kfifo_overflow` is acted upon.
-/
import DevicePlatform.DeviceService.Device

namespace DeviceService

/-! ## The controller -/

/-- `Congestion`. -/
inductive Congestion where
  | none
  | warning
  | loss
  deriving DecidableEq, Repr

/-- The parameters of the controller (`Config`). -/
structure BackpressureConfig where
  minHz : BitVec 32 := 200
  targetHz : BitVec 32 := 1000
  backoffDivisor : BitVec 32 := 2
  recoveryStepHz : BitVec 32 := 100
  deriving DecidableEq, Repr

/-- `std::max` on `uint32_t`. -/
def maxU (a b : BitVec 32) : BitVec 32 := if a < b then b else a

/-- `std::min` on `uint32_t`. -/
def minU (a b : BitVec 32) : BitVec 32 := if b < a then b else a

/-- `next_backpressure_rate`. -/
def nextBackpressureRate (cfg : BackpressureConfig) (currentHz : BitVec 32) :
    Congestion → BitVec 32
  | .loss => maxU cfg.minHz (currentHz / maxU 1 cfg.backoffDivisor)
  | .warning =>
      maxU cfg.minHz
        (if currentHz > cfg.recoveryStepHz then currentHz - cfg.recoveryStepHz else cfg.minHz)
  | .none => minU cfg.targetHz (currentHz + cfg.recoveryStepHz)

/-- What one call of `check_once` meets. -/
structure Window where
  /-- `read_kfifo_overflow`, unless it throws. -/
  overflow : Option (BitVec 32)
  /-- `early_warning_ && early_warning_()`. -/
  warning : Bool
  /-- `read_sample_rate`, unless it throws. -/
  sampleRate : Option (BitVec 32)
  kernel : Kernel

/-- The fields of `BackpressureController` that `check_once` keeps. -/
structure Controller where
  lastOverflow : BitVec 32
  haveBaseline : Bool

/-- How a call of `check_once` ends. -/
inductive Outcome where
  /-- `kfifo_overflow` could not be read. -/
  | overflowUnread
  /-- The first reading. -/
  | baseline
  /-- `sample_rate` could not be read. -/
  | rateUnread
  /-- The rate stays as it is. -/
  | kept (congestion : Congestion) (currentHz : BitVec 32)
  /-- The rate was written, and the change logged. -/
  | changed (congestion : Congestion) (currentHz nextHz : BitVec 32)
  /-- The write threw. -/
  | writeFailed (congestion : Congestion)
  deriving DecidableEq, Repr

namespace Controller

/-- A new controller. -/
def initial : Controller := ⟨0, false⟩

/-- The second half of `check_once`: the rate for a congestion is written unless it is set. -/
def adjust (cfg : BackpressureConfig) (w : Window) (congestion : Congestion) : Outcome :=
  match w.sampleRate with
  | none => .rateUnread
  | some currentHz =>
      let nextHz := nextBackpressureRate cfg currentHz congestion
      if nextHz = currentHz then .kept congestion currentHz
      else if (Device.writeSampleRate w.kernel nextHz).returned then
        .changed congestion currentHz nextHz
      else .writeFailed congestion

/-- `BackpressureController::check_once`. -/
def checkOnce (cfg : BackpressureConfig) (c : Controller) (w : Window) : Controller × Outcome :=
  match w.overflow with
  | none => (c, .overflowUnread)
  | some overflowNow =>
      if c.haveBaseline = false then (⟨overflowNow, true⟩, .baseline)
      else
        let congestion : Congestion :=
          if overflowNow ≠ c.lastOverflow then .loss
          else if w.warning then .warning
          else .none
        -- the new value is remembered even if the operations of `adjust` fail
        ({ c with lastOverflow := overflowNow }, adjust cfg w congestion)

/-- The controller after a sequence of windows. -/
def after (cfg : BackpressureConfig) (ws : List Window) : Controller :=
  ws.foldl (fun c w => (c.checkOnce cfg w).1) initial

/-- The outcome of window `i` of a sequence. -/
def outcome (cfg : BackpressureConfig) (ws : List Window) (i : ℕ) : Option Outcome :=
  ws[i]?.map fun w => ((after cfg (ws.take i)).checkOnce cfg w).2

/-- The value that the next reading is compared with. -/
def reading (c : Controller) : Option (BitVec 32) :=
  if c.haveBaseline then some c.lastOverflow else none

end Controller

/-! ## Rates that are logged -/

section Refusals

variable {k : Kernel}

/-- `adjust` reports a change of rate only if `write_sample_rate` returned. -/
theorem returned_of_adjust {cfg : BackpressureConfig} {w : Window} {c congestion : Congestion}
    {currentHz nextHz : BitVec 32}
    (h : Controller.adjust cfg w c = .changed congestion currentHz nextHz) :
    (Device.writeSampleRate w.kernel nextHz).returned = true := by
  dsimp only [Controller.adjust] at h
  split at h
  · cases h
  · split at h
    · cases h
    · split at h
      · next hret =>
        cases h
        exact hret
      · cases h

/-- A change of rate is logged only if `write_sample_rate` returned. -/
theorem returned_of_changed {cfg : BackpressureConfig} {c : Controller} {w : Window}
    {congestion : Congestion} {currentHz nextHz : BitVec 32}
    (h : (c.checkOnce cfg w).2 = .changed congestion currentHz nextHz) :
    (Device.writeSampleRate w.kernel nextHz).returned = true := by
  unfold Controller.checkOnce at h
  split at h
  · cases h
  · split at h
    · cases h
    · exact returned_of_adjust h

/-- Every rate whose write returns is logged in some window. -/
theorem changed_of_returned {hz : BitVec 32}
    (h : (Device.writeSampleRate k hz).returned = true) :
    (Controller.checkOnce ⟨hz, 0, 2, BitVec.allOnes 32⟩ ⟨0, true⟩
      ⟨some 0, true, some (hz + 1), k⟩).2 = .changed .warning (hz + 1) hz := by
  have hnext : nextBackpressureRate ⟨hz, 0, 2, BitVec.allOnes 32⟩ (hz + 1) .warning = hz := by
    dsimp only [nextBackpressureRate]
    rw [if_neg BitVec.not_allOnes_lt, maxU, if_neg (BitVec.lt_irrefl _)]
  have hne : hz ≠ hz + 1 := by bv_omega
  dsimp only [Controller.checkOnce, Controller.adjust]
  rw [if_neg Bool.noConfusion, if_neg (not_not.mpr rfl), if_pos rfl, hnext, if_neg hne, if_pos h]

end Refusals

/-! ## Movements of `kfifo_overflow` -/

/-- The last value of `kfifo_overflow` that a sequence of windows has read. -/
def lastReading (ws : List Window) : Option (BitVec 32) := (ws.filterMap Window.overflow).getLast?

/-- Window `i` reads another value of `kfifo_overflow` than the last window that read one. -/
def Moved (ws : List Window) (i : ℕ) : Prop :=
  ∃ w now last, ws[i]? = some w ∧ w.overflow = some now ∧
    lastReading (ws.take i) = some last ∧ now ≠ last

namespace Outcome

/-- All the operations that the window needed have succeeded. -/
def Complete : Outcome → Prop
  | .kept _ _ | .changed _ _ _ => True
  | _ => False

/-- The window was classified as `Loss`, and the rate was lowered, or it was at its floor. -/
def LossDecision (cfg : BackpressureConfig) : Outcome → Prop
  | .kept .loss currentHz => currentHz ≤ cfg.minHz
  | .changed .loss currentHz nextHz => nextHz < currentHz
  | _ => False

end Outcome

/-- Every movement leads to a `Loss` decision in the first window from then on in which all needed
operations succeed. -/
def Answered (cfg : BackpressureConfig) (ws : List Window) : Prop :=
  ∀ i j o, i ≤ j → Moved ws i → Controller.outcome cfg ws j = some o → o.Complete →
    (∀ m o', i ≤ m → m < j → Controller.outcome cfg ws m = some o' → ¬o'.Complete) →
    o.LossDecision cfg

namespace Controller

variable {cfg : BackpressureConfig}

/-- One call of `check_once` remembers the value it has read. -/
theorem reading_checkOnce (c : Controller) (w : Window) :
    (c.checkOnce cfg w).1.reading = w.overflow.or c.reading := by
  unfold checkOnce
  split
  · next h => rw [h, Option.none_or]
  · next h =>
    rw [h, Option.some_or]
    split
    · rfl
    · next hb => rw [reading, if_pos (Bool.eq_true_of_not_eq_false hb)]

/-- The controller remembers the last value that was read, whatever has failed since. -/
theorem reading_after (ws : List Window) : (after cfg ws).reading = lastReading ws := by
  induction ws using List.reverseRecOn with
  | nil => rfl
  | append_singleton ws w ih =>
      rw [after, List.foldl_append, List.foldl_cons, List.foldl_nil, reading_checkOnce]
      rw [show (ws.foldl (fun c w => (c.checkOnce cfg w).1) initial).reading = lastReading ws
        from ih, lastReading, lastReading, List.filterMap_append]
      cases h : w.overflow with
      | none => simp [h]
      | some now => simp [h]

/-- A window that sees a movement is classified as `Loss`. -/
theorem checkOnce_of_ne {c : Controller} {w : Window} {now last : BitVec 32}
    (hc : c.reading = some last) (hw : w.overflow = some now) (hne : now ≠ last) :
    (c.checkOnce cfg w).2 = adjust cfg w .loss := by
  have hbase : c.haveBaseline = true ∧ c.lastOverflow = last := by
    rw [reading] at hc
    split at hc
    · next hb => exact ⟨hb, Option.some.inj hc⟩
    · cases hc
  unfold checkOnce
  rw [hw]
  dsimp only
  rw [if_neg (by rw [hbase.1]; exact Bool.noConfusion), if_pos (by rw [hbase.2]; exact hne)]

/-- Dividing by a divisor above 1 lowers a rate above the floor. -/
theorem udiv_lt {floor currentHz divisor : BitVec 32} (hpos : floor < currentHz)
    (hdiv : 1 < divisor) : currentHz / maxU 1 divisor < currentHz := by
  rw [maxU, if_pos hdiv]
  exact Nat.div_lt_self (Nat.zero_lt_of_lt hpos) hdiv

/-- With a divisor above 1, the rate for `Loss` is below a rate that is not below the floor, unless
that is at the floor. -/
theorem nextBackpressureRate_loss {cfg : BackpressureConfig} {currentHz : BitVec 32}
    (hdiv : 1 < cfg.backoffDivisor) (hfloor : cfg.minHz ≤ currentHz) :
    let nextHz := nextBackpressureRate cfg currentHz .loss
    (nextHz = currentHz → currentHz ≤ cfg.minHz) ∧ (nextHz ≠ currentHz → nextHz < currentHz) := by
  dsimp only [nextBackpressureRate]
  rw [maxU]
  split
  · constructor
    · intro heq
      by_contra hnot
      have hlt := udiv_lt (BitVec.not_le.mp hnot) hdiv
      rw [heq] at hlt
      exact BitVec.lt_irrefl _ hlt
    · intro hne
      have hle : currentHz / maxU 1 cfg.backoffDivisor ≤ currentHz := Nat.div_le_self _ _
      exact BitVec.lt_of_le_ne hle hne
  · exact ⟨fun heq => heq ▸ BitVec.le_refl _, BitVec.lt_of_le_ne hfloor⟩

/-- With a rate that can be read and is not below the floor, and an attribute that opens, `adjust`
decides for `Loss`. -/
theorem adjust_loss {w : Window} {currentHz : BitVec 32} (hdiv : 1 < cfg.backoffDivisor)
    (hrate : w.sampleRate = some currentHz) (hfloor : cfg.minHz ≤ currentHz)
    (hopens : w.kernel.opens = true) :
    (adjust cfg w .loss).Complete ∧ (adjust cfg w .loss).LossDecision cfg := by
  obtain ⟨hkept, hchanged⟩ := nextBackpressureRate_loss hdiv hfloor
  unfold adjust
  rw [hrate]
  dsimp only
  split
  · next heq => exact ⟨trivial, hkept heq⟩
  · next hne =>
    rw [if_pos (Device.writeSampleRate_returned hopens _)]
    exact ⟨trivial, hchanged hne⟩

end Controller

/-- **No movement is swallowed while `sample_rate` works.**  If the divisor is above 1, and in
every window that sees `kfifo_overflow` move `sample_rate` reads as a rate not below the floor and
can be opened for writing, then every movement leads to a `Loss` decision in the first window in
which all needed operations succeed. -/
theorem movements_answered (cfg : BackpressureConfig) (ws : List Window)
    (hdiv : 1 < cfg.backoffDivisor)
    (h : ∀ i w, Moved ws i → ws[i]? = some w →
      (∃ currentHz, w.sampleRate = some currentHz ∧ cfg.minHz ≤ currentHz) ∧
        w.kernel.opens = true) :
    Answered cfg ws := by
  intro i j o hij hmoved hj _ hfirst
  obtain ⟨w, now, last, hw, hnow, hlast, hne⟩ := id hmoved
  obtain ⟨⟨currentHz, hrate, hfloor⟩, hopens⟩ := h i w hmoved hw
  have hi : Controller.outcome cfg ws i = some (Controller.adjust cfg w .loss) := by
    rw [Controller.outcome, hw, Option.map_some,
      Controller.checkOnce_of_ne ((Controller.reading_after _).trans hlast) hnow hne]
  obtain ⟨hcomplete, hloss⟩ := Controller.adjust_loss hdiv hrate hfloor hopens
  -- the window of the movement is itself the first complete one
  rcases Nat.lt_or_eq_of_le hij with hlt | rfl
  · exact absurd hcomplete (hfirst i _ (le_refl i) hlt hi)
  · rw [hi] at hj
    cases hj
    exact hloss

/-- A driver that accepts every write. -/
def accepting : Kernel := ⟨true, fun _ _ => .ok ()⟩

/-- A baseline, a movement that halves the rate, and a clean window that raises it again. -/
theorem movements_answered_once :
    Answered {} [⟨some 5, false, none, accepting⟩, ⟨some 6, false, some 1000, accepting⟩,
      ⟨some 6, false, some 500, accepting⟩] := by
  refine movements_answered _ _ (by decide) fun i w hmoved hw => ?_
  match i with
  | 0 =>
      obtain ⟨_, _, _, _, _, hlast, _⟩ := hmoved
      cases hlast
  | 1 | 2 =>
      cases hw
      exact ⟨⟨_, rfl, by decide⟩, rfl⟩
  | _ + 3 => cases hw

/-- `kfifo_overflow` moves in a window in which `sample_rate` cannot be read.  The next window
finds the value it remembers, takes the window for a clean one, and raises the rate. -/
theorem movement_swallowed :
    ¬Answered {} [⟨some 5, false, some 500, accepting⟩, ⟨some 6, false, none, accepting⟩,
      ⟨some 6, false, some 500, accepting⟩] := by
  intro h
  refine h 1 2 (.changed .none 500 600) (by decide) ⟨_, 6, 5, rfl, rfl, rfl, by decide⟩
    (by decide +kernel) trivial ?_
  intro m o hlo hhi ho
  obtain rfl : m = 1 := by omega
  cases ho
  exact id

end DeviceService
