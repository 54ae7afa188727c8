/-
# The smoothed age of the samples

Model of what the acquisition thread does with the age of a sample
(`userspace/device-service/src/acquisition_worker.cpp`), and of the early warning (`main.cpp`),
which tests the average and the pressure of a queue.  The average is kept in an `int64_t` and moved
by a 64th of the difference; zero stands for an average that has not begun.

* `age_warning_sound`: as long as no sample is older than the limit, the age brings no warning.
* `age_warning_follows`: samples that are older than the limit bring the warning, and samples that
  are younger leave only the pressure to bring it, after a number of samples that grows with the
  logarithm of the distance.  The limit counts up to the 64 ns that the division does not see.
-/
import DevicePlatform.Smoothing
import Mathlib.Algebra.Order.Field.Rat
import Mathlib.Data.List.Basic

namespace DeviceService.SampleAge

/-! ## The average -/

/-- `sample_age_ns_` and `age_ewma_ns_`. -/
structure Ages where
  sampleAgeNs : Int64
  ageEwmaNs : Int64
  deriving DecidableEq

/-- When a sample was taken and when it was read: `irq_ts_ns`, which is 0 if the driver could not
stamp it, and `recv_ts_ns`. -/
structure Stamps where
  irqTsNs : Int64
  recvTsNs : Int64
  deriving DecidableEq

/-- What `run` does with the age of a sample. -/
def Ages.observe (x : Ages) (s : Stamps) : Ages :=
  if 0 < s.irqTsNs then
    let age := s.recvTsNs - s.irqTsNs
    let prev := x.ageEwmaNs
    ⟨age, if prev = 0 then age else prev + (age - prev) / 64⟩
  else x

/-- The averages after the samples. -/
def ages (l : List Stamps) : Ages := l.foldl Ages.observe ⟨0, 0⟩

/-- `worker.sample_age_ewma() > max_age`, if there is a limit. -/
def ageAbove (maxAgeUs : ℕ) (ageEwmaNs : Int64) : Bool :=
  0 < maxAgeUs && (maxAgeUs : ℤ) * 1000 < ageEwmaNs.toInt

/-- `pub->pressure() > max_pressure`, if there is a publisher and a limit. -/
def pressureAbove (maxPressure : ℚ) (pressure : Option ℚ) : Bool :=
  0 < maxPressure && pressure.any (maxPressure < ·)

/-- `early_warning`. -/
def earlyWarning (maxAgeUs : ℕ) (ageEwmaNs : Int64) (maxPressure : ℚ) (pressure : Option ℚ) :
    Bool :=
  ageAbove maxAgeUs ageEwmaNs || pressureAbove maxPressure pressure

/-! ## In the integers -/

section Integers

variable {x : Ages} {s : Stamps}

/-- The clock does not go back. -/
def Stamps.Ordered (s : Stamps) : Prop := 0 < s.irqTsNs → s.irqTsNs ≤ s.recvTsNs

instance (s : Stamps) : Decidable s.Ordered :=
  inferInstanceAs (Decidable (0 < s.irqTsNs → s.irqTsNs ≤ s.recvTsNs))

/-- The age of a sample that the driver has stamped. -/
def Stamps.age (s : Stamps) : ℤ := s.recvTsNs.toInt - s.irqTsNs.toInt

/-- The average after a value, in the integers. -/
def smoothed (e a : ℤ) : ℤ := if e = 0 then a else Smoothing.step 64 e a

theorem smoothed_between {e a : ℤ} (he : 0 ≤ e) (ha : 0 ≤ a) :
    0 ≤ smoothed e a ∧ smoothed e a ≤ max e a := by
  unfold smoothed
  split
  · exact ⟨ha, le_max_right _ _⟩
  rcases le_total e a with h | h
  · obtain ⟨h₁, h₂⟩ := Smoothing.step_between (k := 64) (by decide) h
    exact ⟨he.trans h₁, h₂.trans (le_max_right _ _)⟩
  · obtain ⟨h₁, h₂⟩ := Smoothing.step_between' (k := 64) (by decide) h
    exact ⟨ha.trans h₁, h₂.trans (le_max_left _ _)⟩

theorem toInt_age (h : s.Ordered) (hirq : 0 < s.irqTsNs) :
    (s.recvTsNs - s.irqTsNs).toInt = s.age ∧ 0 ≤ s.age := by
  have h₁ := Int64.lt_iff_toInt_lt.mp hirq
  have h₂ := Int64.le_iff_toInt_le.mp (h hirq)
  have h₃ := Int64.toInt_lt s.recvTsNs
  rw [Int64.toInt_zero] at h₁
  unfold Stamps.age
  refine ⟨?_, by omega⟩
  rw [Int64.toInt_sub, Int.bmod_eq_of_le (by norm_num; omega) (by norm_num; omega)]

/-- **No overflow.**  From an average that is not negative, the `int64_t` computes the average of
the integers. -/
theorem toInt_observe (hx : 0 ≤ x.ageEwmaNs.toInt) (h : s.Ordered) (hirq : 0 < s.irqTsNs) :
    (x.observe s).ageEwmaNs.toInt = smoothed x.ageEwmaNs.toInt s.age := by
  obtain ⟨hage, hpos⟩ := toInt_age h hirq
  have hbetween := smoothed_between hx hpos
  have hlt := Int64.toInt_lt (s.recvTsNs - s.irqTsNs)
  have hlt' := Int64.toInt_lt x.ageEwmaNs
  have hzero : x.ageEwmaNs = 0 ↔ x.ageEwmaNs.toInt = 0 := by
    rw [← Int64.toInt_inj, Int64.toInt_zero]
  rw [hage] at hlt
  unfold Ages.observe smoothed at *
  rw [if_pos hirq]
  dsimp only
  by_cases h0 : x.ageEwmaNs = 0
  · rw [if_pos h0, if_pos (hzero.mp h0), hage]
  rw [if_neg (hzero.not.mp h0)] at hbetween ⊢
  rw [if_neg h0]
  have hsub : ((s.recvTsNs - s.irqTsNs) - x.ageEwmaNs).toInt = s.age - x.ageEwmaNs.toInt := by
    rw [Int64.toInt_sub, hage, Int.bmod_eq_of_le (by norm_num; omega) (by norm_num; omega)]
  have hne : (s.recvTsNs - s.irqTsNs) - x.ageEwmaNs ≠ Int64.minValue := by
    intro hmin
    rw [hmin] at hsub
    have hmin' : Int64.minValue.toInt = -2 ^ 63 := by decide
    omega
  have hmax : max x.ageEwmaNs.toInt s.age < 2 ^ 63 := max_lt hlt' hlt
  unfold Smoothing.step at hbetween ⊢
  have h64 : (64 : Int64).toInt = 64 := by decide
  rw [Int64.toInt_add, Int64.toInt_div_of_ne_left _ _ hne, hsub, h64]
  exact Int.bmod_eq_of_le (by norm_num; omega) (by norm_num; omega)

/-- The ages of the samples that the driver has stamped. -/
def agesOf (l : List Stamps) : List ℤ := (l.filter fun s => 0 < s.irqTsNs).map Stamps.age

theorem agesOf_nonneg {l : List Stamps} (hl : ∀ s ∈ l, s.Ordered) : ∀ a ∈ agesOf l, 0 ≤ a := by
  intro a ha
  obtain ⟨s, hs, rfl⟩ := List.mem_map.mp ha
  obtain ⟨hmem, hirq⟩ := List.mem_filter.mp hs
  exact (toInt_age (hl s hmem) (of_decide_eq_true hirq)).2

/-- The average over whole runs. -/
theorem toInt_foldl {l : List Stamps} (hl : ∀ s ∈ l, s.Ordered) (hx : 0 ≤ x.ageEwmaNs.toInt) :
    (l.foldl Ages.observe x).ageEwmaNs.toInt =
      (agesOf l).foldl smoothed x.ageEwmaNs.toInt := by
  induction l generalizing x with
  | nil => rfl
  | cons s l ih =>
      have hs := hl s List.mem_cons_self
      have hl' : ∀ t ∈ l, t.Ordered := fun t ht => hl t (List.mem_cons_of_mem s ht)
      rw [List.foldl_cons, agesOf]
      by_cases hirq : 0 < s.irqTsNs
      · have hobserve := toInt_observe hx hs hirq
        have hpos := (smoothed_between hx (toInt_age hs hirq).2).1
        rw [ih hl' (hobserve ▸ hpos), List.filter_cons_of_pos (by simpa using hirq), List.map_cons,
          List.foldl_cons, hobserve, agesOf]
      · rw [show x.observe s = x by rw [Ages.observe, if_neg hirq], ih hl' hx,
          List.filter_cons_of_neg (by simpa using hirq), agesOf]

theorem toInt_ages {l : List Stamps} (hl : ∀ s ∈ l, s.Ordered) :
    (ages l).ageEwmaNs.toInt = (agesOf l).foldl smoothed 0 :=
  toInt_foldl hl (by decide)

/-- An average of values up to `hi` is not above it. -/
theorem foldl_smoothed_le {hi e : ℤ} {as : List ℤ} (has : ∀ a ∈ as, 0 ≤ a ∧ a ≤ hi) (he : 0 ≤ e)
    (hle : e ≤ hi) : as.foldl smoothed e ≤ hi := by
  induction as generalizing e with
  | nil => exact hle
  | cons a as ih =>
      obtain ⟨ha, ha'⟩ := has a List.mem_cons_self
      obtain ⟨h₁, h₂⟩ := smoothed_between he ha
      exact ih (fun b hb => has b (List.mem_cons_of_mem a hb)) h₁ (h₂.trans (max_le hle ha'))

/-- Values from `lo` on pull the average up; a new average is up at once. -/
theorem below_smoothed {lo e a : ℤ} (h : lo ≤ a) :
    64 * max (lo - smoothed e a - 63) 0 ≤ (64 - 1) * max (lo - e - 63) 0 := by
  unfold smoothed
  split
  · rw [max_eq_right (show lo - a - 63 ≤ 0 by omega)]
    positivity
  · exact Smoothing.below_step (k := 64) (by decide) h

theorem above_smoothed {hi e a : ℤ} (h : a ≤ hi) :
    64 * max (smoothed e a - hi - 63) 0 ≤ (64 - 1) * max (e - hi - 63) 0 := by
  unfold smoothed
  split
  · rw [max_eq_right (show a - hi - 63 ≤ 0 by omega)]
    positivity
  · exact Smoothing.above_step (k := 64) (by decide) h

end Integers

/-! ## The warning -/

section Warning

variable {maxAgeUs : ℕ} {maxPressure : ℚ} {pressure : Option ℚ} {l l' : List Stamps}

theorem ageAbove_eq_false {ageEwmaNs : Int64} (h : ageEwmaNs.toInt ≤ maxAgeUs * 1000) :
    ageAbove maxAgeUs ageEwmaNs = false := by
  simp only [ageAbove, Bool.and_eq_false_iff, decide_eq_false_iff_not, not_lt]
  exact .inr h

/-- **No warning without a cause.**  As long as no sample is older than the limit, there is none
but for the queue pressure. -/
theorem age_warning_sound (hl : ∀ s ∈ l, s.Ordered)
    (hage : ∀ s ∈ l, 0 < s.irqTsNs → s.age ≤ maxAgeUs * 1000) :
    earlyWarning maxAgeUs (ages l).ageEwmaNs maxPressure pressure =
      pressureAbove maxPressure pressure := by
  have hle : (ages l).ageEwmaNs.toInt ≤ maxAgeUs * 1000 := by
    rw [toInt_ages hl]
    refine foldl_smoothed_le (fun a ha => ⟨agesOf_nonneg hl a ha, ?_⟩) le_rfl (by positivity)
    obtain ⟨s, hs, rfl⟩ := List.mem_map.mp ha
    obtain ⟨hmem, hirq⟩ := List.mem_filter.mp hs
    exact hage s hmem (of_decide_eq_true hirq)
  rw [earlyWarning, ageAbove_eq_false hle, Bool.false_or]

/-- A sample that is a microsecond old, with a limit of a microsecond and without a publisher. -/
theorem age_warning_sound_limit :
    ((∀ s ∈ [Stamps.mk 1 1001], s.Ordered) ∧
      ∀ s ∈ [Stamps.mk 1 1001], 0 < s.irqTsNs → s.age ≤ (1 : ℕ) * 1000) ∧
    earlyWarning 1 (ages [Stamps.mk 1 1001]).ageEwmaNs 0 none = false := by
  have hl : ∀ s ∈ [Stamps.mk 1 1001], s.Ordered := by decide
  have hage : ∀ s ∈ [Stamps.mk 1 1001], 0 < s.irqTsNs → s.age ≤ (1 : ℕ) * 1000 := by decide
  exact ⟨⟨hl, hage⟩, age_warning_sound hl hage⟩

/-- What shrinks geometrically from `d` is gone after enough steps. -/
theorem gone {n : ℕ} {d p : ℤ} (hp : 0 ≤ p) (h : 64 ^ n * p ≤ (64 - 1) ^ n * max d 0)
    (hd : 63 ^ n * d < 64 ^ n) : p = 0 := by
  by_contra hne
  have hpos : 1 ≤ p := by omega
  have h64 : (64 : ℤ) ^ n ≤ 64 ^ n * p := le_mul_of_one_le_right (by positivity) hpos
  rcases le_total d 0 with hle | hle
  · rw [max_eq_right hle, mul_zero] at h
    have : (0 : ℤ) < 64 ^ n := by positivity
    omega
  · rw [max_eq_left hle] at h
    norm_num at h
    omega

/-- **The warning follows the ages.**  After any samples, `n` samples that are all older than the
limit by 64 ns bring the warning, if the average is less than `(64 / 63) ^ n` below the first value
above the limit; and `n` samples that are all younger by 63 ns end it, but for the queue pressure,
if the average is less than `(64 / 63) ^ n` above the limit. -/
theorem age_warning_follows (hl : ∀ s ∈ l ++ l', s.Ordered) (hstamped : ∀ s ∈ l', 0 < s.irqTsNs)
    (hlimit : 0 < maxAgeUs) :
    ((∀ s ∈ l', maxAgeUs * 1000 + 64 ≤ s.age) →
      63 ^ l'.length * (maxAgeUs * 1000 + 1 - (ages l).ageEwmaNs.toInt) < 64 ^ l'.length →
      earlyWarning maxAgeUs (ages (l ++ l')).ageEwmaNs maxPressure pressure = true) ∧
    ((∀ s ∈ l', s.age + 63 ≤ maxAgeUs * 1000) →
      63 ^ l'.length * ((ages l).ageEwmaNs.toInt - maxAgeUs * 1000) < 64 ^ l'.length →
      earlyWarning maxAgeUs (ages (l ++ l')).ageEwmaNs maxPressure pressure =
        pressureAbove maxPressure pressure) := by
  have hlength : (agesOf l').length = l'.length := by
    rw [agesOf, List.length_map, List.filter_eq_self.mpr fun s hs => by simpa using hstamped s hs]
  have hmem : ∀ {p : ℤ → Prop}, (∀ s ∈ l', p s.age) → ∀ a ∈ agesOf l', p a := by
    intro p hp a ha
    obtain ⟨s, hs, rfl⟩ := List.mem_map.mp ha
    exact hp s (List.mem_filter.mp hs).1
  have hfold : (ages (l ++ l')).ageEwmaNs.toInt =
      (agesOf l').foldl smoothed (ages l).ageEwmaNs.toInt := by
    rw [toInt_ages hl, toInt_ages fun s hs => hl s (List.mem_append_left l' hs), agesOf,
      List.filter_append, List.map_append, List.foldl_append, agesOf, agesOf]
  constructor
  · intro hold hn
    have hgeo := Smoothing.geometric (f := smoothed)
      (P := fun e => max ((maxAgeUs * 1000 + 64 : ℤ) - e - 63) 0) (k := 64) (by decide)
      (agesOf l') (ages l).ageEwmaNs.toInt
      fun e a ha => below_smoothed (hmem hold a ha)
    rw [hlength] at hgeo
    have hzero := gone (le_max_right _ _) hgeo
      (by rw [show (maxAgeUs * 1000 + 64 : ℤ) - (ages l).ageEwmaNs.toInt - 63 =
            maxAgeUs * 1000 + 1 - (ages l).ageEwmaNs.toInt by ring]
          exact hn)
    have hle := max_eq_right_iff.mp hzero
    have habove : ageAbove maxAgeUs (ages (l ++ l')).ageEwmaNs = true := by
      simp only [ageAbove, Bool.and_eq_true, decide_eq_true_eq]
      refine ⟨hlimit, ?_⟩
      rw [hfold]
      omega
    rw [earlyWarning, habove, Bool.true_or]
  · intro hyoung hn
    have hgeo := Smoothing.geometric (f := smoothed)
      (P := fun e => max (e - (maxAgeUs * 1000 - 63 : ℤ) - 63) 0) (k := 64) (by decide)
      (agesOf l') (ages l).ageEwmaNs.toInt
      fun e a ha => above_smoothed
        (hmem (p := fun a => a ≤ maxAgeUs * 1000 - 63) (fun s hs => by have := hyoung s hs; omega)
          a ha)
    rw [hlength] at hgeo
    have hzero := gone (le_max_right _ _) hgeo
      (by rw [show (ages l).ageEwmaNs.toInt - (maxAgeUs * 1000 - 63 : ℤ) - 63 =
            (ages l).ageEwmaNs.toInt - maxAgeUs * 1000 by ring]
          exact hn)
    have hle := max_eq_right_iff.mp hzero
    have hbelow : (ages (l ++ l')).ageEwmaNs.toInt ≤ maxAgeUs * 1000 := by
      rw [hfold]
      omega
    rw [earlyWarning, ageAbove_eq_false hbelow, Bool.false_or]

/-- With an average at the limit, one sample that is older by 64 ns is enough. -/
theorem age_warning_follows_raised :
    (∀ s ∈ [Stamps.mk 1 1001] ++ [Stamps.mk 1 1065], s.Ordered) ∧
    earlyWarning 1 (ages [Stamps.mk 1 1001]).ageEwmaNs 0 none = false ∧
    earlyWarning 1 (ages ([Stamps.mk 1 1001] ++ [Stamps.mk 1 1065])).ageEwmaNs 0 none = true := by
  have hl : ∀ s ∈ [Stamps.mk 1 1001] ++ [Stamps.mk 1 1065], s.Ordered := by decide
  exact ⟨hl, by decide, (age_warning_follows hl (by decide) (by decide)).1 (by decide) (by decide)⟩

end Warning

end DeviceService.SampleAge
