/-
# Running means and co-moments

A least-squares line through points that arrive one by one, in the form that keeps means and
sums of products of deviations from them (`Welford.push`), over an arbitrary field.

* `OnLine.push`: if all points are on a line, the fitted slope `cxy / cxx` is its slope.
* `Ascending.push`: if the abscissas increase, `cxx` is positive from the second point on.
* `Rising.push`, `Rising.push_pos`: if the ordinates do not decrease, `cxy` does not decrease
  either, and it is positive once they have increased.
* `moments_ofPoints`: the one-pass sums are the sums of products of deviations from the means.
* `residual_eq`: the slope `cxy / cxx` is the one of the least-squares line.
-/
import Mathlib.Algebra.BigOperators.Ring.Finset
import Mathlib.Algebra.Order.Field.Basic
import Mathlib.Tactic.FieldSimp
import Mathlib.Tactic.LinearCombination
import Mathlib.Tactic.Positivity
import Mathlib.Tactic.Ring

/-- The number of points, the means of their coordinates, and the sums of squared and of mixed
deviations from the means. -/
structure Welford (K : Type) where
  n : ℕ
  meanX : K
  meanY : K
  cxx : K
  cxy : K

namespace Welford

variable {K : Type}

section Field

variable [Field K]

/-- No point. -/
def empty : Welford K := ⟨0, 0, 0, 0, 0⟩

/-- One more point. -/
def push (w : Welford K) (x y : K) : Welford K :=
  let n := w.n + 1
  let dx := x - w.meanX
  let meanX := w.meanX + dx / (n : ℕ)
  let meanY := w.meanY + (y - w.meanY) / (n : ℕ)
  { n := n
    meanX := meanX
    meanY := meanY
    cxx := w.cxx + dx * (x - meanX)
    cxy := w.cxy + dx * (y - meanY) }

/-- The points are on the line with slope `a` through the origin. -/
structure OnLine (a : K) (w : Welford K) : Prop where
  mean : w.meanY = a * w.meanX
  moment : w.cxy = a * w.cxx

theorem onLine_empty (a : K) : OnLine a empty := ⟨(mul_zero a).symm, (mul_zero a).symm⟩

theorem OnLine.push {a : K} {w : Welford K} (h : OnLine a w) (x : K) :
    OnLine a (w.push x (a * x)) := by
  have hmean : (w.push x (a * x)).meanY = a * (w.push x (a * x)).meanX := by
    unfold Welford.push
    dsimp only
    rw [h.mean, ← mul_sub, mul_add, mul_div_assoc]
  refine ⟨hmean, ?_⟩
  show w.cxy + (x - w.meanX) * (a * x - (w.push x (a * x)).meanY) =
    a * (w.cxx + (x - w.meanX) * (x - (w.push x (a * x)).meanX))
  rw [hmean, h.moment]
  ring

end Field

section Order

variable [Field K] [LinearOrder K]

/-- The abscissas increase up to `x`. -/
structure Ascending (w : Welford K) (x : K) : Prop where
  some : 0 < w.n
  mean : w.meanX ≤ x
  nonneg : 0 ≤ w.cxx
  pos : 2 ≤ w.n → 0 < w.cxx

theorem ascending_first (y : K) (x : K) : (empty.push x y).Ascending x := by
  refine ⟨Nat.one_pos, ?_, ?_, fun h => absurd h (Nat.not_succ_le_self 1)⟩ <;> simp [push, empty]

theorem Ascending.push [IsStrictOrderedRing K] {w : Welford K} {x x' : K} (h : w.Ascending x)
    (hlt : x < x') (y : K) : (w.push x' y).Ascending x' := by
  have hdx : 0 < x' - w.meanX := sub_pos.mpr (h.mean.trans_lt hlt)
  have hn : (0 : K) < (w.n : ℕ) := Nat.cast_pos.mpr h.some
  -- the new deviation is a part of the old one
  have hrest : x' - (w.push x' y).meanX = (x' - w.meanX) * (w.n / (w.n + 1)) := by
    unfold Welford.push
    push_cast
    field_simp
    ring
  have hpos : 0 < x' - (w.push x' y).meanX := by
    rw [hrest]
    positivity
  have hcxx : 0 < (w.push x' y).cxx := add_pos_of_nonneg_of_pos h.nonneg (mul_pos hdx hpos)
  exact ⟨Nat.succ_pos _, (sub_pos.mp hpos).le, hcxx.le, fun _ => hcxx⟩

/-- The abscissas increase up to `x`, and the ordinates do not decrease up to `y`. -/
structure Rising (w : Welford K) (x y : K) : Prop where
  ascending : w.Ascending x
  mean : w.meanY ≤ y
  nonneg : 0 ≤ w.cxy

theorem rising_first (x y : K) : (empty.push x y).Rising x y := by
  refine ⟨ascending_first y x, ?_, ?_⟩ <;> simp [push, empty]

section Rising

variable [IsStrictOrderedRing K] {w : Welford K} {x x' y y' : K}

/-- The new deviation is a part of the old one. -/
theorem sub_meanY_push :
    y' - (w.push x' y').meanY = (y' - w.meanY) * (w.n / (w.n + 1)) := by
  have hn : (0 : K) < w.n + 1 := by positivity
  unfold Welford.push
  push_cast
  field_simp
  ring

theorem Rising.push (h : w.Rising x y) (hx : x < x') (hy : y ≤ y') :
    (w.push x' y').Rising x' y' := by
  have hdx : 0 ≤ x' - w.meanX := sub_nonneg.mpr (h.ascending.mean.trans hx.le)
  have hdy : 0 ≤ y' - (w.push x' y').meanY := by
    rw [sub_meanY_push]
    exact mul_nonneg (sub_nonneg.mpr (h.mean.trans hy)) (by positivity)
  exact ⟨h.ascending.push hx y', sub_nonneg.mp hdy, add_nonneg h.nonneg (mul_nonneg hdx hdy)⟩

/-- A higher point makes the mixed sum positive, -/
theorem Rising.push_pos (h : w.Rising x y) (hx : x < x') (hy : y < y') :
    0 < (w.push x' y').cxy := by
  have hdx : 0 < x' - w.meanX := sub_pos.mpr (h.ascending.mean.trans_lt hx)
  have hn : (0 : K) < (w.n : ℕ) := Nat.cast_pos.mpr h.ascending.some
  have hdy : 0 < y' - (w.push x' y').meanY := by
    rw [sub_meanY_push]
    exact mul_pos (sub_pos.mpr (h.mean.trans_lt hy)) (by positivity)
  exact add_pos_of_nonneg_of_pos h.nonneg (mul_pos hdx hdy)

/-- and no later point lowers it. -/
theorem Rising.cxy_le_push (h : w.Rising x y) (hx : x < x') (hy : y ≤ y') :
    w.cxy ≤ (w.push x' y').cxy := by
  have hdx : 0 ≤ x' - w.meanX := sub_nonneg.mpr (h.ascending.mean.trans hx.le)
  have hdy : 0 ≤ y' - (w.push x' y').meanY := sub_nonneg.mpr (h.push hx hy).mean
  exact le_add_of_nonneg_right (mul_nonneg hdx hdy)

end Rising

end Order

/-! ## Sums over all points -/

section Points

variable [Field K] (x y : ℕ → K)

/-- The first `n` points of a sequence. -/
def ofPoints : ℕ → Welford K
  | 0 => empty
  | n + 1 => (ofPoints n).push (x n) (y n)

/-- The mean of the first `n` values of a sequence. -/
def mean (n : ℕ) : K := (∑ i ∈ Finset.range n, x i) / n

/-- The sum of the products of the deviations from the means. -/
def coMoment (n : ℕ) : K := ∑ i ∈ Finset.range n, (x i - mean x n) * (y i - mean y n)

/-- The sum of the squares of the distances from the line `a * x + b`. -/
def residual (n : ℕ) (a b : K) : K := ∑ i ∈ Finset.range n, (y i - (a * x i + b)) ^ 2

theorem n_ofPoints (n : ℕ) : (ofPoints x y n).n = n := by
  induction n with
  | zero => rfl
  | succ n ih => exact congrArg (· + 1) ih

/-- Points on a line. -/
theorem onLine_ofPoints {x y : ℕ → K} {a : K} {n : ℕ} (h : ∀ i < n, y i = a * x i) :
    (ofPoints x y n).OnLine a := by
  induction n with
  | zero => exact onLine_empty a
  | succ n ih =>
      rw [ofPoints, h n (by omega)]
      exact (ih fun i hi => h i (by omega)).push (x n)

section Rising

variable [LinearOrder K] [IsStrictOrderedRing K] {x y : ℕ → K} {n : ℕ}

/-- Points from left to right, none lower than the one before. -/
theorem rising_ofPoints (hx : ∀ i < n, x i < x (i + 1)) (hy : ∀ i < n, y i ≤ y (i + 1)) :
    (ofPoints x y (n + 1)).Rising (x n) (y n) := by
  induction n with
  | zero => exact rising_first (x 0) (y 0)
  | succ n ih =>
      have hfirst := ih (fun i hi => hx i (by omega)) (fun i hi => hy i (by omega))
      exact hfirst.push (hx n (by omega)) (hy n (by omega))

/-- The abscissas alone. -/
theorem ascending_ofPoints (hx : ∀ i < n, x i < x (i + 1)) :
    (ofPoints x y (n + 1)).Ascending (x n) := by
  induction n with
  | zero => exact ascending_first (y 0) (x 0)
  | succ n ih => exact (ih fun i hi => hx i (by omega)).push (hx n (by omega)) (y (n + 1))

/-- One of the points is higher than the one before. -/
theorem cxy_pos_ofPoints (hx : ∀ i < n, x i < x (i + 1)) (hy : ∀ i < n, y i ≤ y (i + 1))
    (hhigher : ∃ i < n, y i < y (i + 1)) : 0 < (ofPoints x y (n + 1)).cxy := by
  induction n with
  | zero => simp at hhigher
  | succ n ih =>
      have hx' : ∀ i < n, x i < x (i + 1) := fun i hi => hx i (by omega)
      have hy' : ∀ i < n, y i ≤ y (i + 1) := fun i hi => hy i (by omega)
      have hrising := rising_ofPoints hx' hy'
      obtain ⟨i, hi, hlt⟩ := hhigher
      rcases Nat.lt_succ_iff_lt_or_eq.mp hi with hi | rfl
      · exact (ih hx' hy' ⟨i, hi, hlt⟩).trans_le
          (hrising.cxy_le_push (hx n (by omega)) (hy n (by omega)))
      · exact hrising.push_pos (hx i (by omega)) hlt

end Rising

section CharZero

variable [CharZero K]

/-- A mean times the number of values is their sum. -/
theorem mul_mean (n : ℕ) : n * mean x n = ∑ i ∈ Finset.range n, x i := by
  cases n with
  | zero => simp
  | succ n => exact mul_div_cancel₀ _ (Nat.cast_ne_zero.mpr (Nat.succ_ne_zero n))

/-- One more value moves the mean. -/
theorem mean_succ (n : ℕ) : mean x (n + 1) = mean x n + (x n - mean x n) / (n + 1 : ℕ) := by
  have hn : ((n + 1 : ℕ) : K) ≠ 0 := Nat.cast_ne_zero.mpr (Nat.succ_ne_zero n)
  have hsum := mul_mean x n
  have hnext := mul_mean x (n + 1)
  rw [Finset.sum_range_succ, ← hsum] at hnext
  field_simp
  push_cast at hnext ⊢
  linear_combination hnext

/-- The products of deviations from any two values. -/
theorem sum_deviations (n : ℕ) (a b : K) :
    ∑ i ∈ Finset.range n, (x i - a) * (y i - b) =
      (∑ i ∈ Finset.range n, x i * y i) - n * mean x n * b - a * (n * mean y n) + n * a * b := by
  rw [mul_mean, mul_mean]
  induction n with
  | zero => simp
  | succ n ih =>
      simp only [Finset.sum_range_succ, ih]
      push_cast
      ring

/-- The sum of the products less that of the means. -/
theorem coMoment_eq (n : ℕ) :
    coMoment x y n = (∑ i ∈ Finset.range n, x i * y i) - n * mean x n * mean y n := by
  rw [coMoment, sum_deviations]
  ring

/-- One more point. -/
theorem coMoment_succ (n : ℕ) : coMoment x y (n + 1) =
    coMoment x y n + (x n - mean x n) * (y n - mean y (n + 1)) := by
  have hx := mul_mean x (n + 1)
  have hy := mul_mean y (n + 1)
  rw [Finset.sum_range_succ, ← mul_mean] at hx hy
  rw [coMoment_eq, coMoment_eq, Finset.sum_range_succ]
  push_cast at hx hy ⊢
  linear_combination (-mean y (n + 1)) * hx - mean x n * hy

/-- **The one-pass sums** are the means and the sums of products of deviations from them. -/
theorem moments_ofPoints (n : ℕ) :
    (ofPoints x y n).meanX = mean x n ∧ (ofPoints x y n).meanY = mean y n ∧
      (ofPoints x y n).cxx = coMoment x x n ∧ (ofPoints x y n).cxy = coMoment x y n := by
  induction n with
  | zero => simp [ofPoints, empty, mean, coMoment]
  | succ n ih =>
      obtain ⟨hmx, hmy, hxx, hxy⟩ := ih
      have hx : (ofPoints x y (n + 1)).meanX = mean x (n + 1) := by
        show (ofPoints x y n).meanX + (x n - (ofPoints x y n).meanX) /
          ((ofPoints x y n).n + 1 : ℕ) = _
        rw [mean_succ, hmx, n_ofPoints]
      have hy : (ofPoints x y (n + 1)).meanY = mean y (n + 1) := by
        show (ofPoints x y n).meanY + (y n - (ofPoints x y n).meanY) /
          ((ofPoints x y n).n + 1 : ℕ) = _
        rw [mean_succ, hmy, n_ofPoints]
      refine ⟨hx, hy, ?_, ?_⟩
      · rw [coMoment_succ, ← hx, ← hmx, ← hxx]
        rfl
      · rw [coMoment_succ, ← hy, ← hmx, ← hxy]
        rfl

/-- **The least-squares line.**  What another line adds to the squared distances of the line with
slope `cxy / cxx` through the means. -/
theorem residual_eq (n : ℕ) (hcxx : coMoment x x n ≠ 0) (a b : K) :
    residual x y n a b =
      residual x y n (coMoment x y n / coMoment x x n)
          (mean y n - coMoment x y n / coMoment x x n * mean x n) +
        coMoment x x n * (a - coMoment x y n / coMoment x x n) ^ 2 +
        n * (b - (mean y n - a * mean x n)) ^ 2 := by
  -- the squared distances of any line, in the sums of deviations
  have hline : ∀ c d : K, residual x y n c d =
      coMoment y y n - 2 * c * coMoment x y n + c ^ 2 * coMoment x x n +
        n * (d - (mean y n - c * mean x n)) ^ 2 := by
    intro c d
    have hterm : ∀ i, (y i - (c * x i + d)) ^ 2 =
        (y i - d) * (y i - d) - 2 * c * ((x i - 0) * (y i - d)) +
          c ^ 2 * ((x i - 0) * (x i - 0)) := fun i => by ring
    simp only [residual, hterm, Finset.sum_add_distrib, Finset.sum_sub_distrib, ← Finset.mul_sum,
      sum_deviations, coMoment_eq]
    ring
  rw [hline, hline]
  field_simp
  ring

end CharZero

end Points

end Welford
