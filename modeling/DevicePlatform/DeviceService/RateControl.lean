/-
# How the rate moves

`next_backpressure_rate` (`userspace/device-service/src/backpressure_controller.cpp`) divides on
loss, subtracts on a warning and adds in a clean window, each with a clamp of its own, on unsigned
numbers.  Two questions about it:

* Is a warning always gentler than a loss, and firmer than a clean window?  The tests call this
  the property that the whole idea rests on.  It holds for the default configuration, and the
  configuration is not validated: `severity_ordered_iff` says for which parameters it holds, and
  `loss_gentler_than_warning` gives a configuration for which it does not.
* Where does a sequence of windows lead?  `rate_trajectories` answers for every sequence: the rate
  stays between its bounds, enough clean windows reach the one and enough losses the other, and
  warnings that alternate with clean windows lead into a cycle of two rates.
-/
import DevicePlatform.DeviceService.Backpressure
import Mathlib.Algebra.Order.Floor.Div

namespace DeviceService

variable {cfg : BackpressureConfig} {hz : BitVec 32}

/-! ## The decision in numbers -/

theorem toNat_maxU (a b : BitVec 32) : (maxU a b).toNat = max a.toNat b.toNat := by
  unfold maxU
  split
  · next h =>
    rw [BitVec.lt_def] at h
    omega
  · next h =>
    rw [BitVec.lt_def] at h
    omega

theorem toNat_minU (a b : BitVec 32) : (minU a b).toNat = min a.toNat b.toNat := by
  unfold minU
  split
  · next h =>
    rw [BitVec.lt_def] at h
    omega
  · next h =>
    rw [BitVec.lt_def] at h
    omega

/-- The rate after a loss. -/
theorem toNat_next_loss : (nextBackpressureRate cfg hz .loss).toNat =
    max cfg.minHz.toNat (hz.toNat / max 1 cfg.backoffDivisor.toNat) := by
  show (maxU cfg.minHz (hz / maxU 1 cfg.backoffDivisor)).toNat = _
  rw [toNat_maxU, BitVec.toNat_udiv, toNat_maxU]
  rfl

/-- The rate after a warning. -/
theorem toNat_next_warning : (nextBackpressureRate cfg hz .warning).toNat =
    max cfg.minHz.toNat (if cfg.recoveryStepHz.toNat < hz.toNat then
      hz.toNat - cfg.recoveryStepHz.toNat else cfg.minHz.toNat) := by
  show (maxU cfg.minHz (if hz > cfg.recoveryStepHz then hz - cfg.recoveryStepHz
    else cfg.minHz)).toNat = _
  rw [toNat_maxU]
  by_cases h : cfg.recoveryStepHz.toNat < hz.toNat
  · rw [if_pos h, if_pos (BitVec.lt_def.mpr h), BitVec.toNat_sub_of_le (BitVec.le_def.mpr h.le)]
  · rw [if_neg h, if_neg (fun hlt => h (BitVec.lt_def.mp hlt))]

/-- The rate after a clean window; the sum wraps. -/
theorem toNat_next_none : (nextBackpressureRate cfg hz .none).toNat =
    min cfg.targetHz.toNat ((hz.toNat + cfg.recoveryStepHz.toNat) % 2 ^ 32) := by
  show (minU cfg.targetHz (hz + cfg.recoveryStepHz)).toNat = _
  rw [toNat_minU, BitVec.toNat_add]

/-! ## Severity -/

/-- A warning is no firmer than a loss, and a clean window no firmer than a warning. -/
def SeverityOrdered (cfg : BackpressureConfig) (hz : BitVec 32) : Prop :=
  nextBackpressureRate cfg hz .loss ≤ nextBackpressureRate cfg hz .warning ∧
    nextBackpressureRate cfg hz .warning ≤ nextBackpressureRate cfg hz .none

instance (cfg : BackpressureConfig) (hz : BitVec 32) : Decidable (SeverityOrdered cfg hz) := by
  unfold SeverityOrdered
  infer_instance

/-- A loss takes off at least what a warning does, unless both are stopped by the floor. -/
theorem loss_le_warning_iff :
    nextBackpressureRate cfg hz .loss ≤ nextBackpressureRate cfg hz .warning ↔
      hz.toNat / max 1 cfg.backoffDivisor.toNat ≤ cfg.minHz.toNat ∨
        hz.toNat / max 1 cfg.backoffDivisor.toNat + cfg.recoveryStepHz.toNat ≤ hz.toNat := by
  rw [BitVec.le_def, toNat_next_loss, toNat_next_warning]
  -- only that the quotient is at most the rate matters of the division
  have hdiv : hz.toNat / max 1 cfg.backoffDivisor.toNat ≤ hz.toNat := Nat.div_le_self _ _
  generalize hz.toNat / max 1 cfg.backoffDivisor.toNat = q at hdiv ⊢
  split
  · omega
  · omega

/-- A warning takes off no more than a clean window leaves, unless the sum wraps. -/
theorem warning_le_none_iff (hmin : cfg.minHz ≤ hz) (hmax : hz ≤ cfg.targetHz) :
    nextBackpressureRate cfg hz .warning ≤ nextBackpressureRate cfg hz .none ↔
      hz.toNat + cfg.recoveryStepHz.toNat < 2 ^ 32 ∨
        cfg.minHz.toNat + 2 ^ 32 ≤ hz.toNat + cfg.recoveryStepHz.toNat ∧
          2 ^ 31 ≤ cfg.recoveryStepHz.toNat := by
  rw [BitVec.le_def] at hmin hmax
  rw [BitVec.le_def, toNat_next_warning, toNat_next_none]
  have hstep := cfg.recoveryStepHz.isLt
  have hhz := hz.isLt
  rcases Nat.lt_or_ge (hz.toNat + cfg.recoveryStepHz.toNat) (2 ^ 32) with hlt | hge
  · rw [Nat.mod_eq_of_lt hlt]
    split <;> omega
  · have hwrap : (hz.toNat + cfg.recoveryStepHz.toNat) % 2 ^ 32 =
        hz.toNat + cfg.recoveryStepHz.toNat - 2 ^ 32 := by
      rw [Nat.mod_eq_sub_mod hge, Nat.mod_eq_of_lt (by omega)]
    rw [hwrap]
    split <;> omega

/-- **When severity is ordered.**  For a rate between the floor and the target, a loss lowers it at
least as far as a warning if and only if the quotient is at most the floor or takes off at least
one recovery step; and a warning leaves at most what a clean window does if and only if the ramp
does not wrap around, or wraps to no less than a warning leaves. -/
theorem severity_ordered_iff (cfg : BackpressureConfig) (hz : BitVec 32) (hmin : cfg.minHz ≤ hz)
    (hmax : hz ≤ cfg.targetHz) :
    SeverityOrdered cfg hz ↔
      (hz.toNat / max 1 cfg.backoffDivisor.toNat ≤ cfg.minHz.toNat ∨
        hz.toNat / max 1 cfg.backoffDivisor.toNat + cfg.recoveryStepHz.toNat ≤ hz.toNat) ∧
      (hz.toNat + cfg.recoveryStepHz.toNat < 2 ^ 32 ∨
        cfg.minHz.toNat + 2 ^ 32 ≤ hz.toNat + cfg.recoveryStepHz.toNat ∧
          2 ^ 31 ≤ cfg.recoveryStepHz.toNat) :=
  and_congr loss_le_warning_iff (warning_le_none_iff hmin hmax)

/-- The default configuration, at 1000 Hz. -/
theorem severity_ordered_iff_default : SeverityOrdered {} 1000 :=
  (severity_ordered_iff {} 1000 (by decide) (by decide)).mpr (by decide)

/-- With a recovery step of 600 Hz a warning lowers 1000 Hz to 400 Hz, and a loss only to 500 Hz.
With a step of `2^32 - 900` Hz a clean window lowers the rate to 100 Hz, below the floor at which
a warning stops. -/
theorem loss_gentler_than_warning :
    (nextBackpressureRate ⟨200, 1000, 2, 600⟩ 1000 .loss = 500 ∧
      nextBackpressureRate ⟨200, 1000, 2, 600⟩ 1000 .warning = 400 ∧
      ¬SeverityOrdered ⟨200, 1000, 2, 600⟩ 1000) ∧
    (nextBackpressureRate ⟨200, 1000, 2, 4294966396⟩ 1000 .none = 100 ∧
      nextBackpressureRate ⟨200, 1000, 2, 4294966396⟩ 1000 .warning = 200 ∧
      ¬SeverityOrdered ⟨200, 1000, 2, 4294966396⟩ 1000) := by
  decide

/-! ## Trajectories -/

/-- The parameters make sense: the ramp does not wrap, and a loss lowers the rate. -/
structure BackpressureConfig.Sound (cfg : BackpressureConfig) : Prop where
  bounds : cfg.minHz.toNat ≤ cfg.targetHz.toNat
  step : 1 ≤ cfg.recoveryStepHz.toNat
  ramp : cfg.targetHz.toNat + cfg.recoveryStepHz.toNat < 2 ^ 32
  divisor : 2 ≤ cfg.backoffDivisor.toNat

/-- The rate is between the floor and the target. -/
structure InRange (cfg : BackpressureConfig) (hz : BitVec 32) : Prop where
  floor : cfg.minHz.toNat ≤ hz.toNat
  target : hz.toNat ≤ cfg.targetHz.toNat

/-- The rate after a sequence of windows. -/
def rateAfter (cfg : BackpressureConfig) (hz : BitVec 32) (cs : List Congestion) : BitVec 32 :=
  cs.foldl (nextBackpressureRate cfg) hz

theorem rateAfter_append (cs ds : List Congestion) :
    rateAfter cfg hz (cs ++ ds) = rateAfter cfg (rateAfter cfg hz cs) ds :=
  List.foldl_append

section Steps

variable (hs : cfg.Sound) (hr : InRange cfg hz)
include hs hr

/-- The sum of a clean window does not wrap. -/
theorem toNat_ramp : (nextBackpressureRate cfg hz .none).toNat =
    min cfg.targetHz.toNat (hz.toNat + cfg.recoveryStepHz.toNat) := by
  have hramp := hs.ramp
  have htarget := hr.target
  rw [toNat_next_none, Nat.mod_eq_of_lt (by omega)]

/-- A clean window does not lower the rate, the others do not raise it. -/
theorem next_direction : hz.toNat ≤ (nextBackpressureRate cfg hz .none).toNat ∧
    (nextBackpressureRate cfg hz .warning).toNat ≤ hz.toNat ∧
    (nextBackpressureRate cfg hz .loss).toNat ≤ hz.toNat := by
  have hfloor := hr.floor
  have htarget := hr.target
  refine ⟨?_, ?_, ?_⟩
  · rw [toNat_ramp hs hr]
    omega
  · rw [toNat_next_warning]
    split <;> omega
  · have hdiv : hz.toNat / max 1 cfg.backoffDivisor.toNat ≤ hz.toNat := Nat.div_le_self _ _
    rw [toNat_next_loss]
    omega

/-- **One window** keeps the rate between its bounds. -/
theorem InRange.next (c : Congestion) : InRange cfg (nextBackpressureRate cfg hz c) := by
  obtain ⟨hup, hdown, hback⟩ := next_direction hs hr
  have hfloor := hr.floor
  have htarget := hr.target
  cases c with
  | none =>
      rw [toNat_ramp hs hr] at hup
      constructor <;> rw [toNat_ramp hs hr] <;> omega
  | warning =>
      refine ⟨?_, hdown.trans htarget⟩
      rw [toNat_next_warning]
      exact Nat.le_max_left _ _
  | loss =>
      refine ⟨?_, hback.trans htarget⟩
      rw [toNat_next_loss]
      exact Nat.le_max_left _ _

/-- **Any sequence of windows** does. -/
theorem InRange.after (cs : List Congestion) : InRange cfg (rateAfter cfg hz cs) := by
  induction cs generalizing hz with
  | nil => exact hr
  | cons c cs ih => exact ih (hr.next hs c)

/-- Clean windows climb by a step each, up to the target. -/
theorem rateAfter_clean (n : ℕ) : (rateAfter cfg hz (List.replicate n .none)).toNat =
    min cfg.targetHz.toNat (hz.toNat + n * cfg.recoveryStepHz.toNat) := by
  have htarget := hr.target
  induction n with
  | zero =>
      show hz.toNat = _
      omega
  | succ n ih =>
      rw [List.replicate_succ', rateAfter_append]
      show (nextBackpressureRate cfg (rateAfter cfg hz (List.replicate n .none)) .none).toNat = _
      rw [toNat_ramp hs (hr.after hs _), ih, Nat.succ_mul]
      omega

omit hr in
/-- Losses divide, down to the floor. -/
theorem rateAfter_losses (n : ℕ) : (rateAfter cfg hz (List.replicate n .loss)).toNat ≤
    max cfg.minHz.toNat (hz.toNat / 2 ^ n) := by
  induction n with
  | zero =>
      show hz.toNat ≤ _
      rw [Nat.pow_zero, Nat.div_one]
      exact Nat.le_max_right _ _
  | succ n ih =>
      rw [List.replicate_succ', rateAfter_append]
      show (nextBackpressureRate cfg (rateAfter cfg hz (List.replicate n .loss)) .loss).toNat ≤ _
      generalize rateAfter cfg hz (List.replicate n .loss) = r at ih
      have hdivisor := hs.divisor
      have hhalf : r.toNat / max 1 cfg.backoffDivisor.toNat ≤ r.toNat / 2 :=
        Nat.div_le_div_left (by omega) (by decide)
      have hpow : hz.toNat / 2 ^ (n + 1) = hz.toNat / 2 ^ n / 2 := by
        rw [Nat.pow_succ, Nat.div_div_eq_div_mul]
      rw [toNat_next_loss, hpow]
      omega

/-- One warning from a rate that is a step above the floor, and the clean window after it. -/
theorem next_warning_none (hroom : cfg.minHz.toNat + cfg.recoveryStepHz.toNat ≤ hz.toNat) :
    (nextBackpressureRate cfg hz .warning).toNat = hz.toNat - cfg.recoveryStepHz.toNat ∧
      nextBackpressureRate cfg (nextBackpressureRate cfg hz .warning) .none = hz := by
  have htarget := hr.target
  have hdown : (nextBackpressureRate cfg hz .warning).toNat =
      hz.toNat - cfg.recoveryStepHz.toNat := by
    rw [toNat_next_warning]
    split <;> omega
  refine ⟨hdown, ?_⟩
  apply BitVec.eq_of_toNat_eq
  rw [toNat_ramp hs (hr.next hs .warning), hdown]
  omega

/-- Warnings that alternate with clean windows. -/
theorem rateAfter_alternation (hroom : cfg.minHz.toNat + cfg.recoveryStepHz.toNat ≤ hz.toNat)
    (k : ℕ) : rateAfter cfg hz (List.replicate k [.warning, .none]).flatten = hz := by
  induction k with
  | zero => rfl
  | succ k ih =>
      rw [List.replicate_succ, List.flatten_cons, rateAfter_append]
      show rateAfter cfg (nextBackpressureRate cfg (nextBackpressureRate cfg hz .warning) .none)
        _ = hz
      rw [(next_warning_none hs hr hroom).2]
      exact ih

end Steps

/-- From `hz` on, warnings and clean windows alternate between `hz` and another rate. -/
def TwoRateCycle (cfg : BackpressureConfig) (hz : BitVec 32) : Prop :=
  ∃ low, low ≠ hz ∧ ∀ k,
    rateAfter cfg hz (List.replicate k [.warning, .none]).flatten = hz ∧
      rateAfter cfg hz ((List.replicate k [.warning, .none]).flatten ++ [.warning]) = low

/-- A rate a step above the floor is on such a cycle. -/
theorem twoRateCycle_of_room (hs : cfg.Sound) (hr : InRange cfg hz)
    (hroom : cfg.minHz.toNat + cfg.recoveryStepHz.toNat ≤ hz.toNat) : TwoRateCycle cfg hz := by
  have hstep := hs.step
  refine ⟨nextBackpressureRate cfg hz .warning, ?_, fun k => ⟨?_, ?_⟩⟩
  · intro heq
    have hdown := (next_warning_none hs hr hroom).1
    rw [heq] at hdown
    omega
  · exact rateAfter_alternation hs hr hroom k
  · rw [rateAfter_append, rateAfter_alternation hs hr hroom k]
    rfl

/-- **Rate trajectories.**  From a rate between the bounds, under any sequence of windows: the rate
stays between them, clean windows never lower it, losses and warnings never raise it;
`⌈(target - rate) / step⌉` clean windows in a row reach the target, enough losses the floor; the
target is a fixed point of clean windows, the floor one of losses and warnings.  Warnings that
alternate with clean windows, whichever comes first, lead into a cycle of two rates from every
rate a step above the floor. -/
theorem rate_trajectories (cfg : BackpressureConfig) (hs : cfg.Sound) (hz : BitVec 32)
    (hr : InRange cfg hz) :
    (∀ cs, InRange cfg (rateAfter cfg hz cs) ∧
      rateAfter cfg hz cs ≤ rateAfter cfg hz (cs ++ [.none]) ∧
      rateAfter cfg hz (cs ++ [.loss]) ≤ rateAfter cfg hz cs ∧
      rateAfter cfg hz (cs ++ [.warning]) ≤ rateAfter cfg hz cs) ∧
    (∀ n, (cfg.targetHz.toNat - hz.toNat) ⌈/⌉ cfg.recoveryStepHz.toNat ≤ n →
      rateAfter cfg hz (List.replicate n .none) = cfg.targetHz) ∧
    (∃ n, ∀ k, n ≤ k → rateAfter cfg hz (List.replicate k .loss) = cfg.minHz) ∧
    nextBackpressureRate cfg cfg.targetHz .none = cfg.targetHz ∧
    nextBackpressureRate cfg cfg.minHz .loss = cfg.minHz ∧
    nextBackpressureRate cfg cfg.minHz .warning = cfg.minHz ∧
    (cfg.minHz.toNat + cfg.recoveryStepHz.toNat ≤ hz.toNat →
      TwoRateCycle cfg hz ∧ TwoRateCycle cfg (nextBackpressureRate cfg hz .none)) := by
  have hbounds := hs.bounds
  have htarget : InRange cfg cfg.targetHz := ⟨hbounds, le_refl _⟩
  have hfloor : InRange cfg cfg.minHz := ⟨le_refl _, hbounds⟩
  refine ⟨fun cs => ?_, fun n hn => ?_, ⟨32, fun k hk => ?_⟩, ?_, ?_, ?_, fun hroom => ?_⟩
  · have hafter := hr.after hs cs
    obtain ⟨hup, hdown, hback⟩ := next_direction hs hafter
    simp only [rateAfter_append]
    exact ⟨hafter, BitVec.le_def.mpr hup, BitVec.le_def.mpr hback, BitVec.le_def.mpr hdown⟩
  · apply BitVec.eq_of_toNat_eq
    rw [rateAfter_clean hs hr]
    have hreach : cfg.targetHz.toNat - hz.toNat ≤ n * cfg.recoveryStepHz.toNat := by
      rw [Nat.mul_comm]
      exact (ceilDiv_le_iff_le_mul hs.step).mp hn
    omega
  · -- a 32-bit number is 0 after 32 halvings
    apply BitVec.eq_of_toNat_eq
    have hle : (rateAfter cfg hz (List.replicate k .loss)).toNat ≤
        max cfg.minHz.toNat (hz.toNat / 2 ^ k) := rateAfter_losses hs k
    have hge := (hr.after hs (List.replicate k .loss)).floor
    have hzero : hz.toNat / 2 ^ k = 0 := by
      apply Nat.div_eq_of_lt
      exact hz.isLt.trans_le (Nat.pow_le_pow_right (by decide) hk)
    rw [hzero] at hle
    omega
  · apply BitVec.eq_of_toNat_eq
    rw [toNat_ramp hs htarget]
    omega
  · apply BitVec.eq_of_toNat_eq
    have hle := (next_direction hs hfloor).2.2
    have hge := (hfloor.next hs .loss).floor
    omega
  · apply BitVec.eq_of_toNat_eq
    have hle := (next_direction hs hfloor).2.1
    have hge := (hfloor.next hs .warning).floor
    omega
  · have hup := (next_direction hs hr).1
    exact ⟨twoRateCycle_of_room hs hr hroom,
      twoRateCycle_of_room hs (hr.next hs .none) (hroom.trans hup)⟩

/-- The default configuration, from 500 Hz. -/
theorem rate_trajectories_default : BackpressureConfig.Sound {} ∧ InRange {} 500 ∧
    rateAfter {} 500 (List.replicate 5 .none) = 1000 ∧ TwoRateCycle {} 500 := by
  have hs : BackpressureConfig.Sound {} := ⟨by decide, by decide, by decide, by decide⟩
  have hr : InRange {} 500 := ⟨by decide, by decide⟩
  have h := rate_trajectories {} hs 500 hr
  exact ⟨hs, hr, h.2.1 5 (by decide), (h.2.2.2.2.2.2 (by decide)).1⟩

end DeviceService
