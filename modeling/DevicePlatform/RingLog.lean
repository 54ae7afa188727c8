/-
# A ring buffer as a window of a log

A bounded ring with free-running indices stores entry `k` of an endless log in slot
`k % cap`.  `RingLog cap ring log lo` says that the entries of `log` from `lo` on are
in the ring; the entries below `lo` have been consumed and may be overwritten.

The producer writes the slot of the next entry (`write`) and publishes the entry
(`publish`); the consumer moves `lo` (`advance`).  The slot of the next entry is
outside the window as long as the window is not full (`mod_ne_of_window`).
-/
import Mathlib.Data.Nat.ModEq
import Mathlib.Logic.Function.Basic

/-- Two indices less than `cap` apart have different slots. -/
theorem mod_ne_of_window {cap k n : ℕ} (hk : k < n) (hn : n - k < cap) : k % cap ≠ n % cap := by
  intro h
  have hdvd : cap ∣ n - k := (Nat.modEq_iff_dvd' (Nat.le_of_lt hk)).mp h
  have hle := Nat.le_of_dvd (by omega) hdvd
  omega

/-- The entries of `log` from `lo` on are in the ring. -/
def RingLog {α : Type*} (cap : ℕ) (ring : ℕ → α) (log : List α) (lo : ℕ) : Prop :=
  ∀ k (h : k < log.length), lo ≤ k → ring (k % cap) = log[k]

namespace RingLog

variable {α : Type*} {cap : ℕ} {ring : ℕ → α} {log : List α} {lo : ℕ}

/-- Nothing has to be in the ring when everything has been consumed. -/
theorem of_length_le (h : log.length ≤ lo) : RingLog cap ring log lo := by
  intro k hk hlo
  omega

/-- The oldest entry of the window. -/
theorem read (h : RingLog cap ring log lo) (hlo : lo < log.length) :
    ring (lo % cap) = log[lo] :=
  h lo hlo (Nat.le_refl lo)

/-- The slot of the next entry can be written while the window is not full. -/
theorem write (h : RingLog cap ring log lo) (hroom : log.length - lo < cap) (x : α) :
    RingLog cap (Function.update ring (log.length % cap) x) log lo := by
  intro k hk hlo
  rw [Function.update_of_ne (mod_ne_of_window hk (by omega))]
  exact h k hk hlo

/-- The entry whose slot has been written is published. -/
theorem publish {x : α} (h : RingLog cap ring log lo) (hx : ring (log.length % cap) = x) :
    RingLog cap ring (log ++ [x]) lo := by
  intro k hk hlo
  rw [List.length_append, List.length_singleton] at hk
  rcases Nat.lt_or_eq_of_le (Nat.le_of_lt_succ hk) with hlt | rfl
  · rw [List.getElem_append_left hlt]
    exact h k hlt hlo
  · rw [List.getElem_concat_length rfl]
    exact hx

/-- The consumer moves on. -/
theorem advance {lo' : ℕ} (h : RingLog cap ring log lo) (hle : lo ≤ lo') :
    RingLog cap ring log lo' := by
  intro k hk hlo
  exact h k hk (Nat.le_trans hle hlo)

end RingLog
