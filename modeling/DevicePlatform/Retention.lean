/-
# Keeping the newest

Of a set of names, in an order in which later names are newer, the `keep` newest are to stay.
`oldest keep names` are the others: the first ones of the sorted list, as many as are too many.

* `mem_oldest_iff`: a name is among them if, and only if, at least `keep` names are newer.
* `length_filter_le_iff`: if they are removed, except for some that cannot be, at most `keep`
  names remain if, and only if, there is no such exception.
-/
import Mathlib.Data.List.Sort

namespace Retention

variable {α : Type*} [LinearOrder α] {keep : ℕ} {names : List α} {x : α}

/-- The names that are too many. -/
def oldest (keep : ℕ) (names : List α) : List α :=
  (names.insertionSort (· ≤ ·)).take (names.length - keep)

/-- The names that stay. -/
def newest (keep : ℕ) (names : List α) : List α :=
  (names.insertionSort (· ≤ ·)).drop (names.length - keep)

theorem oldest_append_newest : (oldest keep names ++ newest keep names).Perm names := by
  rw [oldest, newest, List.take_append_drop]
  exact List.perm_insertionSort _ names

theorem length_newest : (newest keep names).length = min keep names.length := by
  rw [newest, List.length_drop, List.length_insertionSort]
  omega

/-- The names that stay are newer. -/
theorem oldest_lt_newest (hnodup : names.Nodup) {y : α} (hx : x ∈ oldest keep names)
    (hy : y ∈ newest keep names) : x < y := by
  have hsorted := List.pairwise_insertionSort (· ≤ ·) names
  have hdistinct := (List.perm_insertionSort (· ≤ ·) names).nodup_iff.mpr hnodup
  rw [← List.take_append_drop (names.length - keep) (names.insertionSort (· ≤ ·))]
    at hsorted hdistinct
  apply lt_of_le_of_ne
  · exact (List.pairwise_append.mp hsorted).2.2 x hx y hy
  · rintro rfl
    exact (List.nodup_append.mp hdistinct).2.2 x hx x hy rfl

/-- A name is not newer than itself. -/
theorem countP_newer_lt {l : List α} (hx : x ∈ l) : l.countP (x < ·) < l.length := by
  apply lt_of_le_of_ne List.countP_le_length
  intro hall
  exact lt_irrefl x (of_decide_eq_true (List.countP_eq_length.mp hall x hx))

/-- **A name is too many** if at least `keep` names are newer, and only then. -/
theorem mem_oldest_iff (hnodup : names.Nodup) (hx : x ∈ names) :
    x ∈ oldest keep names ↔ keep ≤ names.countP (x < ·) := by
  have hperm : (oldest keep names ++ newest keep names).Perm names := oldest_append_newest
  have hlength : (newest keep names).length = min keep names.length := length_newest
  rw [← hperm.countP_eq, List.countP_append]
  constructor
  · intro hold
    -- all that stay are newer than `x`
    have hall : (newest keep names).countP (x < ·) = (newest keep names).length := by
      apply List.countP_eq_length.mpr
      intro y hy
      exact decide_eq_true (oldest_lt_newest hnodup hold hy)
    have htotal := hperm.length_eq
    rw [List.length_append] at htotal
    have hsome := List.length_pos_of_mem hold
    omega
  · intro hkeep
    by_contra hold
    have hnew : x ∈ newest keep names :=
      (List.mem_append.mp (hperm.mem_iff.mpr hx)).resolve_left hold
    -- none of the others is newer
    have hnone : (oldest keep names).countP (x < ·) = 0 := by
      apply List.countP_eq_zero.mpr
      intro y hy
      simpa using (oldest_lt_newest hnodup hy hnew).le
    have hless := countP_newer_lt hnew
    omega

/-- **How many names remain**, if the names that stay all do. -/
theorem length_filter_le_iff {p : α → Bool} (hstay : ∀ x ∈ newest keep names, p x = true) :
    (names.filter p).length ≤ keep ↔ ∀ x ∈ oldest keep names, p x = false := by
  have hperm : (oldest keep names ++ newest keep names).Perm names := oldest_append_newest
  have hlength : (newest keep names).length = min keep names.length := length_newest
  rw [← (hperm.filter _).length_eq, List.filter_append, List.filter_eq_self.mpr hstay,
    List.length_append]
  constructor
  · intro hle x hx
    by_contra hp
    have hpos : 0 < ((oldest keep names).filter p).length := by
      apply List.length_pos_of_mem
      exact List.mem_filter.mpr ⟨hx, by simpa using hp⟩
    -- something is too many, so `keep` names stay
    have hsome := List.length_pos_of_mem hx
    have hbound : (oldest keep names).length = names.length - keep := by
      rw [oldest, List.length_take, List.length_insertionSort]
      omega
    omega
  · intro hall
    have hnil : (oldest keep names).filter p = [] := by
      apply List.filter_eq_nil_iff.mpr
      intro x hx
      simp [hall x hx]
    rw [hnil, List.length_nil]
    omega

end Retention
