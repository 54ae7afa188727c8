/-
# What the calibrator measures

The fit of `ClockCalibrator` (`userspace/device-service/src/clock_calibrator.cpp`), with its
arithmetic exact, for any samples.

* `online_fit_eq_least_squares`: as long as the sequence number advances by 1 to 1000, the
  one-pass sums are those of the textbook over the unwrapped sequence numbers and the times since
  the first sample, the spacing is the slope of the least-squares line, and samples with a fixed
  spacing give this spacing, whichever of them were lost.
* `calibration_well_defined`: a result that is `ok` has a positive rate.  The code checks `cxx`
  only; that `cxy` is positive follows from the order of the timestamps and from the bound on
  repeated ones.
-/
import DevicePlatform.DeviceService.Calibration

namespace DeviceService

variable {nominal : BitVec 32} {seq : ℕ → BitVec 32} {ts : ℕ → ℤ} {n k : ℕ}

/-! ## Least squares -/

/-- The time since the first sample. -/
def elapsed (ts : ℕ → ℤ) (i : ℕ) : ℚ := ((ts i - ts 0 : ℤ) : ℚ)

/-- The abscissa of a sample. -/
def abscissa (seq : ℕ → BitVec 32) (i : ℕ) : ℚ := (position seq i : ℚ)

/-- The line of slope `a` has the least sum of squared distances from the first `n` samples, and
every other line with as small a sum has the same slope. -/
def IsLeastSquaresSlope (seq : ℕ → BitVec 32) (ts : ℕ → ℤ) (n : ℕ) (a : ℚ) : Prop :=
  ∃ b, ∀ c d,
    Welford.residual (abscissa seq) (elapsed ts) n a b ≤
      Welford.residual (abscissa seq) (elapsed ts) n c d ∧
    (Welford.residual (abscissa seq) (elapsed ts) n c d =
      Welford.residual (abscissa seq) (elapsed ts) n a b → c = a)

/-- The quotient of the sums is such a slope. -/
theorem isLeastSquaresSlope_of_pos
    (hcxx : 0 < Welford.coMoment (abscissa seq) (abscissa seq) n) :
    IsLeastSquaresSlope seq ts n (Welford.coMoment (abscissa seq) (elapsed ts) n /
      Welford.coMoment (abscissa seq) (abscissa seq) n) := by
  -- the line goes through the means
  refine ⟨Welford.mean (elapsed ts) n - Welford.coMoment (abscissa seq) (elapsed ts) n /
    Welford.coMoment (abscissa seq) (abscissa seq) n * Welford.mean (abscissa seq) n,
    fun c d => ?_⟩
  rw [Welford.residual_eq (abscissa seq) (elapsed ts) n hcxx.ne' c d]
  have hslope := mul_nonneg hcxx.le (sq_nonneg (c - Welford.coMoment (abscissa seq) (elapsed ts) n /
    Welford.coMoment (abscissa seq) (abscissa seq) n))
  have hshift := mul_nonneg (Nat.cast_nonneg (α := ℚ) n) (sq_nonneg (d -
    (Welford.mean (elapsed ts) n - c * Welford.mean (abscissa seq) n)))
  constructor
  · linarith
  · intro heq
    have hzero := (mul_eq_zero.mp (le_antisymm (by linarith) hslope)).resolve_left hcxx.ne'
    exact sub_eq_zero.mp (pow_eq_zero_iff two_ne_zero |>.mp hzero)

/-- What a fit of the first `n` samples is to be.  The abscissas are the steps added up, the
ordinates the times since the first sample. -/
structure IsLeastSquaresFit (nominal : BitVec 32) (seq : ℕ → BitVec 32) (ts : ℕ → ℤ) (n : ℕ)
    (f : Fit) : Prop where
  broken : f.broken = false
  count : f.moments.n = n
  cxx : f.moments.cxx = ∑ i ∈ Finset.range n,
    (abscissa seq i - (∑ i ∈ Finset.range n, abscissa seq i) / n) ^ 2
  cxy : f.moments.cxy = ∑ i ∈ Finset.range n,
    (abscissa seq i - (∑ i ∈ Finset.range n, abscissa seq i) / n) *
      (elapsed ts i - (∑ i ∈ Finset.range n, elapsed ts i) / n)
  /-- From the second sample on there is a line. -/
  slope : 2 ≤ n → 0 < f.moments.cxx ∧
    IsLeastSquaresSlope seq ts n (f.moments.cxy / f.moments.cxx)
  /-- Timestamps at `t₀ + p * x` give `p`; with enough samples and a nominal rate this is the
  spacing reported. -/
  spacing : ∀ t₀ p : ℚ, 0 < p → (∀ i < n, (ts i : ℚ) = t₀ + p * abscissa seq i) → 2 ≤ n →
    f.moments.cxy / f.moments.cxx = p ∧
    (nominal ≠ 0 → ∀ minSamples ≤ n, (f.result minSamples).ok = true ∧
      (f.result minSamples).measuredHz = 10 ^ 9 / p)
  gaps : f.gaps = Nat.count (fun i => (seq (i + 1) - seq i).toNat ≠ 1) (n - 1)

section Fits

variable {f : Fit} (h : Tracks nominal seq ts k f) (hin : ∀ i < k, InStep seq i)
include h

theorem Tracks.count : f.moments.n = k + 1 := by
  rw [h.moments, Welford.n_ofPoints]

include hin in
theorem Tracks.cxx_pos (hk : 2 ≤ k + 1) : 0 < f.moments.cxx := by
  apply (h.ascending hin).pos
  rwa [h.count]

/-- Samples on a line have its slope. -/
theorem Tracks.onLine {t₀ p : ℚ} (hline : ∀ i < k + 1, (ts i : ℚ) = t₀ + p * abscissa seq i) :
    f.moments.OnLine p := by
  rw [h.moments]
  apply Welford.onLine_ofPoints
  intro i hi
  show ((ts i - ts 0 : ℤ) : ℚ) = p * abscissa seq i
  have hzero : abscissa seq 0 = 0 := rfl
  rw [Int.cast_sub, hline i hi, hline 0 (by omega), hzero]
  ring

include hin in
/-- Samples with a fixed spacing are at different times, since their abscissas differ. -/
theorem Tracks.repeatedTs_eq_zero {t₀ p : ℚ} (hp : 0 < p)
    (hline : ∀ i < k + 1, (ts i : ℚ) = t₀ + p * abscissa seq i) : f.repeatedTs = 0 := by
  rw [h.repeatedTs]
  apply Nat.count_of_forall_not
  intro i hi heq
  have hlt : abscissa seq i < abscissa seq (i + 1) := position_lt hin i hi
  have htime := hline (i + 1) (by omega)
  rw [heq, hline i (by omega)] at htime
  have hmul := mul_lt_mul_of_pos_left hlt hp
  linarith

include hin in
/-- They give a result. -/
theorem Tracks.result_ok {t₀ p : ℚ} {minSamples : ℕ} (hp : 0 < p)
    (hline : ∀ i < k + 1, (ts i : ℚ) = t₀ + p * abscissa seq i) (hk : 2 ≤ k + 1)
    (hnominal : nominal ≠ 0) (hmin : minSamples ≤ k + 1) :
    (f.result minSamples).ok = true := by
  rw [Fit.result_ok_iff, h.repeatedTs_eq_zero hin hp hline, h.nominalHz]
  refine ⟨h.broken, hnominal, h.count ▸ hmin, h.count ▸ hk, h.cxx_pos hin hk, ?_⟩
  rw [Nat.cast_zero, maxRepeatedFraction]
  positivity

end Fits

/-- **The online fit is least squares**, after any number of samples with positive timestamps and
steps between 1 and 1000: its sums are those of the textbook, samples with a fixed spacing give
this spacing, whichever of them were lost, and the gaps are the steps other than 1. -/
theorem online_fit_eq_least_squares (nominal : BitVec 32) (seq : ℕ → BitVec 32) (ts : ℕ → ℤ)
    (n : ℕ) (hpos : ∀ i < n, 0 < ts i)
    (hsteps : ∀ i, i + 1 < n → 1 ≤ (seq (i + 1) - seq i).toNat ∧
      (seq (i + 1) - seq i).toNat ≤ 1000) :
    IsLeastSquaresFit nominal seq ts n (calibrate nominal (observed seq ts n)) := by
  cases n with
  | zero =>
      refine ⟨rfl, rfl, rfl, rfl, fun h => ?_, fun _ _ _ _ h => ?_, rfl⟩ <;> omega
  | succ k =>
      have hin : ∀ i < k, InStep seq i := fun i hi => hsteps i (by omega)
      have h := tracks_observed nominal (fun i hi => hpos i (by omega)) hin
      generalize calibrate nominal (observed seq ts (k + 1)) = f at h
      obtain ⟨-, -, hxx, hxy⟩ := Welford.moments_ofPoints (abscissa seq) (elapsed ts) (k + 1)
      have hmoments : f.moments = Welford.ofPoints (abscissa seq) (elapsed ts) (k + 1) := h.moments
      constructor
      · exact h.broken
      · exact h.count
      · rw [hmoments, hxx]
        exact Finset.sum_congr rfl fun i _ => (sq _).symm
      · rw [hmoments, hxy]
        rfl
      · intro hk
        have hcxx := h.cxx_pos hin hk
        refine ⟨hcxx, ?_⟩
        rw [hmoments, hxx] at hcxx
        rw [hmoments, hxx, hxy]
        exact isLeastSquaresSlope_of_pos hcxx
      · intro t₀ p hp hline hk
        have hspacing : f.moments.cxy / f.moments.cxx = p := by
          rw [(h.onLine hline).moment, mul_div_assoc, div_self (h.cxx_pos hin hk).ne', mul_one]
        refine ⟨hspacing, ?_⟩
        intro hnominal minSamples hmin
        have hok := h.result_ok hin hp hline hk hnominal hmin
        refine ⟨hok, ?_⟩
        rw [(Fit.result_of_ok hok).1, hspacing]
      · exact h.gaps

/-- Four samples around the wrap of the counter, the third of five lost, at intervals of 1 ms. -/
theorem online_fit_eq_least_squares_wrap :
    let seq : ℕ → BitVec 32 := fun i => #[4294967294, 4294967295, 1, 2].getD i 0
    let ts : ℕ → ℤ := fun i => #[1000000, 2000000, 4000000, 5000000].getD i 0
    let f := calibrate 1000 (observed seq ts 4)
    f.gaps = 1 ∧ f.moments.cxy / f.moments.cxx = 1000000 ∧ (f.result 4).measuredHz = 1000 := by
  intro seq ts
  have hline : ∀ i < 4, (ts i : ℚ) = 1000000 + 1000000 * abscissa seq i := by decide +kernel
  have hsteps : ∀ i < 3, 1 ≤ (seq (i + 1) - seq i).toNat ∧ (seq (i + 1) - seq i).toNat ≤ 1000 := by
    decide
  have h := online_fit_eq_least_squares 1000 seq ts 4 (by decide)
    (fun i hi => hsteps i (by omega))
  obtain ⟨hspacing, hresult⟩ := h.spacing 1000000 1000000 (by norm_num) hline (by decide)
  have hcount : Nat.count (fun i => (seq (i + 1) - seq i).toNat ≠ 1) 3 = 1 := by decide
  refine ⟨h.gaps.trans hcount, hspacing, ?_⟩
  rw [(hresult (by decide) 4 (le_refl 4)).2]
  norm_num

/-! ## Well-defined results -/

/-- The samples with a timestamp. -/
def stamped (samples : List (BitVec 32 × ℤ)) : List (BitVec 32 × ℤ) :=
  samples.filter fun s => 0 < s.2

/-- The others are not observed. -/
theorem calibrate_stamped (nominal : BitVec 32) (samples : List (BitVec 32 × ℤ)) :
    calibrate nominal samples = calibrate nominal (stamped samples) := by
  have hskip : (fun (f : Fit) (s : BitVec 32 × ℤ) => f.observe s.1 s.2) =
      fun f s => if decide (0 < s.2) = true then f.observe s.1 s.2 else f := by
    funext f s
    by_cases hpos : 0 < s.2
    · rw [if_pos (decide_eq_true hpos)]
    · rw [if_neg (by simpa using hpos), Fit.observe, if_pos (not_lt.mp hpos)]
  unfold calibrate stamped
  rw [List.foldl_filter, ← hskip]

/-- A broken fit stays as it is. -/
theorem Fit.observe_of_broken {f : Fit} (h : f.broken = true) (s : BitVec 32) (t : ℤ) :
    f.observe s t = f := by
  unfold Fit.observe
  rw [h, if_pos rfl, ite_self]

/-- A step outside 1 to 1000 breaks the fit. -/
theorem Tracks.breaks {f : Fit} (h : Tracks nominal seq ts k f) (hpos : 0 < ts (k + 1))
    (hstep : ¬InStep seq k) : (f.observe (seq (k + 1)) (ts (k + 1))).broken = true := by
  unfold Fit.observe
  rw [if_neg (not_le.mpr hpos), h.broken, if_neg Bool.false_ne_true, h.haveFirst, Bool.not_true,
    if_neg Bool.false_ne_true, h.lastSeq]
  dsimp only
  rw [if_pos ((restarted_iff k).mpr hstep)]

/-- It does so wherever it is. -/
theorem broken_observed (nominal : BitVec 32) (hpos : ∀ i ≤ k, 0 < ts i)
    (hstep : ∃ i < k, ¬InStep seq i) :
    (calibrate nominal (observed seq ts (k + 1))).broken = true := by
  induction k with
  | zero => simp at hstep
  | succ k ih =>
      have hpos' : ∀ i ≤ k, 0 < ts i := fun i hi => hpos i (by omega)
      rw [calibrate_observed_succ]
      by_cases hbefore : ∃ i < k, ¬InStep seq i
      · have hbroken := ih hpos' hbefore
        rwa [Fit.observe_of_broken hbroken]
      · push Not at hbefore
        obtain ⟨i, hi, hbad⟩ := hstep
        obtain rfl : i = k := by
          by_contra hne
          exact hbad (hbefore i (by omega))
        exact (tracks_observed nominal hpos' hbefore).breaks (hpos (i + 1) (le_refl _)) hbad

/-- If all timestamps were the same, too many would be repeated. -/
theorem exists_later (hmono : ∀ i < k, ts i ≤ ts (i + 1)) (hk : 1 ≤ k)
    (hrepeated : (Nat.count (fun i => ts (i + 1) = ts i) k : ℚ) ≤
      maxRepeatedFraction * (k + 1 : ℕ)) :
    ∃ i < k, ts i < ts (i + 1) := by
  by_contra hnone
  push Not at hnone
  have hall : Nat.count (fun i => ts (i + 1) = ts i) k = k :=
    Nat.count_iff_forall.mpr fun i hi => le_antisymm (hnone i hi) (hmono i hi)
  have hk' : (1 : ℚ) ≤ k := by exact_mod_cast hk
  rw [hall, maxRepeatedFraction] at hrepeated
  push_cast at hrepeated
  linarith

section WellDefined

variable {f : Fit} {minSamples : ℕ} (h : Tracks nominal seq ts k f)
include h

/-- With timestamps that do not decrease, few of them repeated, the samples rise. -/
theorem Tracks.cxy_pos (hin : ∀ i < k, InStep seq i) (hmono : ∀ i < k, ts i ≤ ts (i + 1))
    (hok : (f.result minSamples).ok = true) : 0 < f.moments.cxy := by
  obtain ⟨-, -, -, htwo, -, hrepeated⟩ := (f.result_ok_iff minSamples).mp hok
  rw [h.count] at htwo
  rw [h.repeatedTs, h.count] at hrepeated
  obtain ⟨i, hi, hlt⟩ := exists_later hmono (by omega) hrepeated
  rw [h.moments]
  apply Welford.cxy_pos_ofPoints (position_lt hin)
  · exact fun i hi => Int.cast_le.mpr (sub_le_sub_right (hmono i hi) _)
  · exact ⟨i, hi, Int.cast_lt.mpr (sub_lt_sub_right hlt _)⟩

/-- Too few samples, or too many repeated timestamps. -/
theorem Tracks.not_ok (hbad : k + 1 < max 2 minSamples ∨
    ((k + 1 : ℕ) : ℚ) / 100 < Nat.count (fun i => ts (i + 1) = ts i) k) :
    (f.result minSamples).ok = false := by
  rw [Bool.eq_false_iff, ne_eq, Fit.result_ok_iff]
  rintro ⟨-, -, hmin, htwo, -, hrepeated⟩
  rw [h.count] at hmin htwo
  rw [h.repeatedTs, h.count, maxRepeatedFraction] at hrepeated
  rcases hbad with hfew | hbatched
  · omega
  · linarith

end WellDefined

/-- **Calibrations reported ok are well defined.**  For any samples, of which those with a
timestamp are `seq i`, `ts i` for `i < n`: if the timestamps do not decrease and the result is
`ok`, both sums and the nominal rate are positive, so that nothing is divided by zero, and the
measured rate is positive.  A step of 0 or more than 1000, fewer than `max 2 minSamples` samples
with a timestamp, or more than 1 % of repeated timestamps give no such result. -/
theorem calibration_well_defined (nominal : BitVec 32) (samples : List (BitVec 32 × ℤ))
    (minSamples : ℕ) (seq : ℕ → BitVec 32) (ts : ℕ → ℤ) (n : ℕ)
    (hsamples : stamped samples = observed seq ts n) :
    let f := calibrate nominal samples
    ((∀ i, i + 1 < n → ts i ≤ ts (i + 1)) → (f.result minSamples).ok = true →
      0 < f.moments.cxx ∧ 0 < f.moments.cxy ∧ 0 < f.nominalHz.toNat ∧
      0 < (f.result minSamples).measuredHz) ∧
    ((∃ i, i + 1 < n ∧ ((seq (i + 1) - seq i).toNat = 0 ∨ 1000 < (seq (i + 1) - seq i).toNat)) ∨
      n < max 2 minSamples ∨
      (n : ℚ) / 100 < Nat.count (fun i => ts (i + 1) = ts i) (n - 1) →
      (f.result minSamples).ok = false) := by
  intro f
  have hf : f = calibrate nominal (observed seq ts n) := by rw [← hsamples, ← calibrate_stamped]
  have hpos : ∀ i < n, 0 < ts i := fun i hi => by
    have hmem : (seq i, ts i) ∈ stamped samples := by
      rw [hsamples]
      exact List.mem_map.mpr ⟨i, List.mem_range.mpr hi, rfl⟩
    simpa using (List.mem_filter.mp hmem).2
  rw [hf]
  cases n with
  | zero =>
      have hnot : ((calibrate nominal (observed seq ts 0)).result minSamples).ok = false := by
        rw [Bool.eq_false_iff, ne_eq, Fit.result_ok_iff]
        rintro ⟨-, -, -, htwo, -⟩
        exact absurd htwo (Nat.not_succ_le_zero 1)
      exact ⟨fun _ hok => absurd hok (by rw [hnot]; decide), fun _ => hnot⟩
  | succ k =>
      have hpos' : ∀ i ≤ k, 0 < ts i := fun i hi => hpos i (by omega)
      by_cases hin : ∀ i < k, InStep seq i
      · -- all samples are part of the fit
        have h := tracks_observed nominal hpos' hin
        generalize calibrate nominal (observed seq ts (k + 1)) = g at h
        constructor
        · intro hmono hok
          obtain ⟨-, hnominal, -, -, hcxx, -⟩ := (g.result_ok_iff minSamples).mp hok
          have hcxy := h.cxy_pos hin (fun i hi => hmono i (by omega)) hok
          refine ⟨hcxx, hcxy, ?_, ?_⟩
          · exact Nat.pos_of_ne_zero fun hzero => hnominal (BitVec.eq_of_toNat_eq hzero)
          · rw [(Fit.result_of_ok hok).1]
            positivity
        · rintro (⟨i, hi, hstep⟩ | hbad)
          · have hgood := hin i (by omega)
            unfold InStep seqStep at hgood
            omega
          · exact h.not_ok hbad
      · push Not at hin
        have hbroken := broken_observed nominal hpos' hin
        have hnot : ((calibrate nominal (observed seq ts (k + 1))).result minSamples).ok =
            false := by
          rw [Bool.eq_false_iff, ne_eq, Fit.result_ok_iff, hbroken]
          exact fun hok => absurd hok.1 (by decide)
        exact ⟨fun _ hok => absurd hok (by rw [hnot]; decide), fun _ => hnot⟩

/-- Two samples with a timestamp and one without. -/
theorem calibration_well_defined_two :
    ((calibrate 1000 [(7, 1000000), (8, 0), (9, 3000000)]).result 2).ok = true ∧
      0 < ((calibrate 1000 [(7, 1000000), (8, 0), (9, 3000000)]).result 2).measuredHz := by
  have h := calibration_well_defined 1000 [(7, 1000000), (8, 0), (9, 3000000)] 2
    (fun i => #[7, 9].getD i 0) (fun i => #[1000000, 3000000].getD i 0) 2 (by decide)
  have hmono : ∀ i, i + 1 < 2 → #[(1000000 : ℤ), 3000000].getD i 0 ≤
      #[(1000000 : ℤ), 3000000].getD (i + 1) 0 := fun i hi => by
    obtain rfl : i = 0 := by omega
    decide
  have hok : ((calibrate 1000 [(7, 1000000), (8, 0), (9, 3000000)]).result 2).ok = true := by
    decide +kernel
  exact ⟨hok, (h.1 hmono hok).2.2.2⟩

end DeviceService
