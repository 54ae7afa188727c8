/-
# Averages that are moved by a fraction of the difference

An exponential average over integers: `step k e a` moves the average `e` by the `k`-th part of the
distance to the new value `a`, and the division truncates.  So the average stays where it is when
it is less than `k` away.

* `step_between`: the average stays between its last value and the new one.
* `below_step`, `above_step`: what it lacks of a bound that the values keep, beyond the `k - 1` that
  the division does not see, shrinks by the factor `(k - 1) / k`.
* `geometric`: what shrinks with every element of a list shrinks geometrically along it.
-/
import Mathlib.Algebra.Order.Ring.Int
import Mathlib.Tactic.Linarith
import Mathlib.Tactic.Ring

namespace Smoothing

/-- The average `e` after the value `a`. -/
def step (k e a : ℤ) : ℤ := e + (a - e).tdiv k

variable {k e a : ℤ}

/-- The division keeps the sign, and what is left of the distance is less than `k`. -/
theorem tdiv_bounds (hk : 0 < k) {d : ℤ} (hd : 0 ≤ d) :
    0 ≤ d.tdiv k ∧ d.tdiv k ≤ d ∧ k * d.tdiv k ≤ d ∧ d ≤ k * d.tdiv k + (k - 1) := by
  rw [Int.tdiv_eq_ediv_of_nonneg hd]
  have h₁ := Int.mul_ediv_add_emod d k
  have h₂ := Int.emod_nonneg d hk.ne'
  have h₃ := Int.emod_lt_of_pos d hk
  exact ⟨Int.ediv_nonneg hd hk.le, Int.ediv_le_self k hd, by omega, by omega⟩

/-- The average of the negated values. -/
theorem step_neg (k e a : ℤ) : step k (-e) (-a) = -step k e a := by
  unfold step
  rw [show -a - -e = -(a - e) by ring, Int.neg_tdiv]
  ring

theorem step_between (hk : 0 < k) (h : e ≤ a) : e ≤ step k e a ∧ step k e a ≤ a := by
  obtain ⟨h₁, h₂, -, -⟩ := tdiv_bounds hk (show 0 ≤ a - e by omega)
  unfold step
  constructor <;> omega

theorem step_between' (hk : 0 < k) (h : a ≤ e) : a ≤ step k e a ∧ step k e a ≤ e := by
  have h' := step_between hk (show -e ≤ -a by omega)
  rw [step_neg] at h'
  constructor <;> omega

/-- **Values that stay above `lo`** pull the average up to it. -/
theorem below_step (hk : 0 < k) {lo : ℤ} (h : lo ≤ a) :
    k * max (lo - step k e a - (k - 1)) 0 ≤ (k - 1) * max (lo - e - (k - 1)) 0 := by
  have hright : 0 ≤ (k - 1) * max (lo - e - (k - 1)) 0 :=
    mul_nonneg (by omega) (le_max_right _ _)
  rcases le_or_gt (lo - step k e a - (k - 1)) 0 with hle | hlt
  · rw [max_eq_right hle, mul_zero]
    exact hright
  rw [max_eq_left hlt.le]
  -- the average is still below `lo`, so it was before
  have hea : e ≤ a := by
    by_contra hcon
    have := (step_between' hk (show a ≤ e by omega)).1
    omega
  obtain ⟨hpos, -, -, hrest⟩ := tdiv_bounds hk (show 0 ≤ a - e by omega)
  unfold step at hlt ⊢
  have hbefore : 0 ≤ lo - e - (k - 1) := by omega
  rw [max_eq_left hbefore]
  nlinarith

/-- Values that stay below `hi` pull the average down to it. -/
theorem above_step (hk : 0 < k) {hi : ℤ} (h : a ≤ hi) :
    k * max (step k e a - hi - (k - 1)) 0 ≤ (k - 1) * max (e - hi - (k - 1)) 0 := by
  have h' := below_step (e := -e) hk (show -hi ≤ -a by omega)
  rw [step_neg, show -hi - -step k e a = step k e a - hi by ring,
    show -hi - -e = e - hi by ring] at h'
  exact h'

/-- **Along a list.**  If every element shrinks `P` by the factor `(k - 1) / k`, it shrinks
geometrically. -/
theorem geometric {σ α : Type*} {f : σ → α → σ} {P : σ → ℤ} (hk : 0 < k) (l : List α) (s : σ)
    (hstep : ∀ s, ∀ a ∈ l, k * P (f s a) ≤ (k - 1) * P s) :
    k ^ l.length * P (l.foldl f s) ≤ (k - 1) ^ l.length * P s := by
  induction l generalizing s with
  | nil => simp
  | cons a l ih =>
      have hhead := hstep s a List.mem_cons_self
      have htail := ih (f s a) fun s b hb => hstep s b (List.mem_cons_of_mem a hb)
      rw [List.length_cons, List.foldl_cons]
      calc k ^ (l.length + 1) * P (l.foldl f (f s a))
          = k * (k ^ l.length * P (l.foldl f (f s a))) := by ring
        _ ≤ k * ((k - 1) ^ l.length * P (f s a)) := by gcongr
        _ = (k - 1) ^ l.length * (k * P (f s a)) := by ring
        _ ≤ (k - 1) ^ l.length * ((k - 1) * P s) :=
            mul_le_mul_of_nonneg_left hhead (pow_nonneg (by omega) _)
        _ = (k - 1) ^ (l.length + 1) * P s := by ring

end Smoothing
