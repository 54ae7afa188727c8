/-
# Calibration against the timer of the MCU

Model of `ClockCalibrator` (`userspace/device-service/src/clock_calibrator.cpp`), with its
arithmetic exact, on the samples of an MCU whose clock is exact.

The calibrator takes the content of `REG_SAMPLE_RATE` for the rate of the samples.  The firmware
divides it into a period in units of 100 µs and drops the remainder, so the samples come at
another rate unless the division is exact, and the calibrator reports the difference as drift
(`drift_of_exact_clock`).  `drift_eq_zero_iff` proves that it does so for all other rates and
for no rate that divides 10000.
-/
import DevicePlatform.Firmware
import DevicePlatform.Welford
import Mathlib.Data.Nat.Count
import Mathlib.Data.Rat.Cast.Order
import Mathlib.Tactic.Linarith
import Mathlib.Tactic.NormNum

namespace DeviceService

/-! ## The calibrator -/

/-- `CalibrationResult`. -/
structure CalibrationResult where
  ok : Bool := false
  reason : String := ""
  samples : ℕ := 0
  nominalHz : ℕ := 0
  measuredHz : ℚ := 0
  driftPpm : ℚ := 0
  durationS : ℚ := 0
  gaps : ℕ := 0
  repeatedTimestamps : ℕ := 0
  deriving DecidableEq

/-- `ClockCalibrator::Fit`. -/
structure Fit where
  nominalHz : BitVec 32
  haveFirst : Bool := false
  broken : Bool := false
  brokenReason : String := ""
  lastSeq : BitVec 32 := 0
  lastTs : ℤ := 0
  firstTs : ℤ := 0
  x : ℚ := 0
  moments : Welford ℚ := Welford.empty
  gaps : ℕ := 0
  repeatedTs : ℕ := 0

/-- `kMaxSeqJump`. -/
def maxSeqJump : BitVec 32 := 1000

/-- `kMaxRepeatedFraction`. -/
def maxRepeatedFraction : ℚ := 1 / 100

namespace Fit

/-- `reset`. -/
def reset (nominalHz : BitVec 32) : Fit := { nominalHz := nominalHz }

/-- The end of `observe`: the sample is part of the fit. -/
def add (f : Fit) (seq : BitVec 32) (irqTsNs : ℤ) : Fit :=
  { f with
    lastSeq := seq
    lastTs := irqTsNs
    moments := f.moments.push f.x ((irqTsNs - f.firstTs : ℤ) : ℚ) }

/-- `observe`. -/
def observe (f : Fit) (seq : BitVec 32) (irqTsNs : ℤ) : Fit :=
  if irqTsNs ≤ 0 then f
  else if f.broken then f
  else if !f.haveFirst then
    { f with haveFirst := true, firstTs := irqTsNs, x := 0 }.add seq irqTsNs
  else
    let step := seq - f.lastSeq
    if step = 0 ∨ step > maxSeqJump then
      { f with
        broken := true
        brokenReason :=
          "sequence restarted during calibration (step " ++ toString step.toNat ++ ")" }
    else
      { f with
        gaps := if step ≠ 1 then f.gaps + 1 else f.gaps
        repeatedTs := if irqTsNs = f.lastTs then f.repeatedTs + 1 else f.repeatedTs
        x := f.x + step.toNat }.add seq irqTsNs

/-- `result`. -/
def result (f : Fit) (minSamples : ℕ) : CalibrationResult :=
  let r : CalibrationResult :=
    { samples := f.moments.n
      nominalHz := f.nominalHz.toNat
      gaps := f.gaps
      repeatedTimestamps := f.repeatedTs
      durationS := if f.moments.n ≠ 0 then ((f.lastTs - f.firstTs : ℤ) : ℚ) / 10 ^ 9 else 0 }
  if f.broken then { r with reason := f.brokenReason }
  else if f.nominalHz = 0 then { r with reason := "nominal sample rate unknown" }
  else if f.moments.n < minSamples ∨ f.moments.n < 2 ∨ f.moments.cxx ≤ 0 then
    { r with reason := "too few samples (" ++ toString f.moments.n ++ " < " ++
        toString minSamples ++ ")" }
  else if (f.repeatedTs : ℚ) > maxRepeatedFraction * f.moments.n then
    { r with reason := "timestamps are batched, not per-sample (" ++ toString f.repeatedTs ++
        " repeats) - link congested, see case-07" }
  else
    let spacingNs := f.moments.cxy / f.moments.cxx
    let measuredHz := 10 ^ 9 / spacingNs
    { r with
      measuredHz := measuredHz
      driftPpm := (measuredHz / f.nominalHz.toNat - 1) * 10 ^ 6
      ok := true }

end Fit

/-! ## The MCU -/

/-- The clock of TIM2, and its prescaler. -/
def timClockHz : ℕ := 72000000
def timPrescaler : ℕ := 7199

/-- The time between two interrupts of TIM2, if its clock is exact. -/
def tickNs (m : Mcu) : ℕ := (timPrescaler + 1) * (m.timAutoreload + 1) * 10 ^ 9 / timClockHz

/-- Consecutive samples, one for each interrupt, stamped with its time. -/
def tickSamples (m : Mcu) (seq : BitVec 32) (start : ℤ) (n : ℕ) : List (BitVec 32 × ℤ) :=
  (List.range n).map fun k => (seq + BitVec.ofNat 32 k, start + k * tickNs m)

/-- The calibrator observes samples. -/
def calibrate (nominalHz : BitVec 32) (samples : List (BitVec 32 × ℤ)) : Fit :=
  samples.foldl (fun f s => f.observe s.1 s.2) (Fit.reset nominalHz)

/-- `run_calibration` on `n` samples, with the MCU at `rate`: the nominal rate is read back, then
the acquisition is started. -/
def calibrateAt (m : Mcu) (rate : BitVec 32) (seq : BitVec 32) (start : ℤ) (n : ℕ) : Fit :=
  let m := m.regWrite .sampleRate rate
  calibrate (m.regRead .sampleRate).1 (tickSamples (m.regWrite .control 1) seq start n)

/-! ## The fit -/

/-- The samples with the numbers 0 to `n - 1`. -/
def observed (seq : ℕ → BitVec 32) (ts : ℕ → ℤ) (n : ℕ) : List (BitVec 32 × ℤ) :=
  (List.range n).map fun i => (seq i, ts i)

/-- The difference of the sequence numbers of two consecutive samples, as the calibrator forms
it. -/
def seqStep (seq : ℕ → BitVec 32) (i : ℕ) : ℕ := (seq (i + 1) - seq i).toNat

/-- All steps from the first sample on. -/
def position (seq : ℕ → BitVec 32) (i : ℕ) : ℕ := ∑ j ∈ Finset.range i, seqStep seq j

/-- The step is between 1 and 1000. -/
def InStep (seq : ℕ → BitVec 32) (i : ℕ) : Prop := 1 ≤ seqStep seq i ∧ seqStep seq i ≤ 1000

section Tracks

variable {f : Fit} {nominal : BitVec 32} {seq : ℕ → BitVec 32} {ts : ℕ → ℤ} {k : ℕ}

/-- The fit after the samples with the numbers 0 to `k`. -/
structure Tracks (nominal : BitVec 32) (seq : ℕ → BitVec 32) (ts : ℕ → ℤ) (k : ℕ) (f : Fit) :
    Prop where
  nominalHz : f.nominalHz = nominal
  haveFirst : f.haveFirst = true
  broken : f.broken = false
  lastSeq : f.lastSeq = seq k
  lastTs : f.lastTs = ts k
  firstTs : f.firstTs = ts 0
  x : f.x = position seq k
  moments : f.moments = Welford.ofPoints (fun i => (position seq i : ℚ))
    (fun i => ((ts i - ts 0 : ℤ) : ℚ)) (k + 1)
  gaps : f.gaps = Nat.count (fun i => seqStep seq i ≠ 1) k
  repeatedTs : f.repeatedTs = Nat.count (fun i => ts (i + 1) = ts i) k

/-- One more observation. -/
theorem calibrate_observed_succ (n : ℕ) : calibrate nominal (observed seq ts (n + 1)) =
    (calibrate nominal (observed seq ts n)).observe (seq n) (ts n) := by
  unfold calibrate observed
  rw [List.range_succ, List.map_append, List.foldl_append]
  rfl

/-- The test of the code for a step that is no loss of a few samples. -/
theorem restarted_iff (i : ℕ) : (seq (i + 1) - seq i = 0 ∨ seq (i + 1) - seq i > maxSeqJump) ↔
    ¬InStep seq i := by
  have hzero : seq (i + 1) - seq i = 0 ↔ seqStep seq i = 0 := BitVec.toNat_inj.symm
  have hjump : seq (i + 1) - seq i > maxSeqJump ↔ 1000 < seqStep seq i := BitVec.lt_def
  rw [hzero, hjump, InStep]
  omega

/-- The first sample. -/
theorem tracks_first (hpos : 0 < ts 0) :
    Tracks nominal seq ts 0 ((Fit.reset nominal).observe (seq 0) (ts 0)) := by
  rw [Fit.observe, if_neg (not_le.mpr hpos)]
  exact ⟨rfl, rfl, rfl, rfl, rfl, rfl, rfl, rfl, rfl, rfl⟩

/-- **The next sample**, after a step between 1 and 1000. -/
theorem Tracks.next (h : Tracks nominal seq ts k f) (hpos : 0 < ts (k + 1))
    (hstep : InStep seq k) :
    Tracks nominal seq ts (k + 1) (f.observe (seq (k + 1)) (ts (k + 1))) := by
  have hx : f.x + ((seq (k + 1) - seq k).toNat : ℚ) = (position seq (k + 1) : ℚ) := by
    rw [h.x, position, position, Finset.sum_range_succ, Nat.cast_add]
    rfl
  have hone : seq (k + 1) - seq k ≠ 1 ↔ seqStep seq k ≠ 1 := not_congr BitVec.toNat_inj.symm
  unfold Fit.observe
  rw [if_neg (not_le.mpr hpos), h.broken, if_neg Bool.false_ne_true, h.haveFirst, Bool.not_true,
    if_neg Bool.false_ne_true]
  dsimp only
  rw [h.lastSeq, h.lastTs, if_neg ((restarted_iff k).not.mpr (not_not.mpr hstep)), hx]
  refine ⟨h.nominalHz, rfl, rfl, rfl, rfl, h.firstTs, rfl, ?_, ?_, ?_⟩
  · show f.moments.push (position seq (k + 1) : ℚ) ((ts (k + 1) - f.firstTs : ℤ) : ℚ) = _
    rw [h.moments, h.firstTs]
    rfl
  · show (if seq (k + 1) - seq k ≠ 1 then f.gaps + 1 else f.gaps) = _
    rw [Nat.count_succ, if_congr hone rfl rfl, h.gaps]
    split <;> rfl
  · show (if ts (k + 1) = ts k then f.repeatedTs + 1 else f.repeatedTs) = _
    rw [Nat.count_succ, h.repeatedTs]
    split <;> rfl

/-- **Any number of samples** with steps between 1 and 1000. -/
theorem tracks_observed (nominal : BitVec 32) (hpos : ∀ i ≤ k, 0 < ts i)
    (hsteps : ∀ i < k, InStep seq i) :
    Tracks nominal seq ts k (calibrate nominal (observed seq ts (k + 1))) := by
  induction k with
  | zero => exact tracks_first (hpos 0 (le_refl 0))
  | succ k ih =>
      rw [calibrate_observed_succ]
      have hfirst := ih (fun i hi => hpos i (by omega)) (fun i hi => hsteps i (by omega))
      exact hfirst.next (hpos (k + 1) (le_refl _)) (hsteps k (by omega))

/-- The abscissas increase. -/
theorem position_lt (hsteps : ∀ i < k, InStep seq i) :
    ∀ i < k, (position seq i : ℚ) < (position seq (i + 1) : ℚ) := by
  intro i hi
  have hone := (hsteps i hi).1
  rw [position, position, Finset.sum_range_succ]
  exact_mod_cast Nat.lt_add_of_pos_right hone

theorem Tracks.ascending (h : Tracks nominal seq ts k f) (hsteps : ∀ i < k, InStep seq i) :
    f.moments.Ascending (position seq k : ℚ) := by
  rw [h.moments]
  exact Welford.ascending_ofPoints (position_lt hsteps)

end Tracks

/-- What a result that is `ok` says, and when there is one. -/
theorem Fit.result_ok_iff (f : Fit) (minSamples : ℕ) : (f.result minSamples).ok = true ↔
    f.broken = false ∧ f.nominalHz ≠ 0 ∧ minSamples ≤ f.moments.n ∧ 2 ≤ f.moments.n ∧
      0 < f.moments.cxx ∧ (f.repeatedTs : ℚ) ≤ maxRepeatedFraction * f.moments.n := by
  unfold Fit.result
  generalize (if f.moments.n ≠ 0 then ((f.lastTs - f.firstTs : ℤ) : ℚ) / 10 ^ 9 else 0) = duration
  split_ifs with hbroken hnominal hfew hbatched
  · simp [hbroken]
  · simp [hnominal]
  · refine iff_of_false (by simp) ?_
    rintro ⟨-, -, hmin, htwo, hcxx, -⟩
    rcases hfew with hlt | hlt | hle
    · omega
    · omega
    · exact absurd hcxx (not_lt.mpr hle)
  · exact iff_of_false (by simp) fun h => absurd h.2.2.2.2.2 (not_le.mpr hbatched)
  · push Not at hfew
    exact iff_of_true rfl ⟨by simpa using hbroken, hnominal, hfew.1, hfew.2.1, hfew.2.2,
      not_lt.mp hbatched⟩

/-- The rate and the drift of a result that is `ok`. -/
theorem Fit.result_of_ok {f : Fit} {minSamples : ℕ} (hok : (f.result minSamples).ok = true) :
    (f.result minSamples).measuredHz = 10 ^ 9 / (f.moments.cxy / f.moments.cxx) ∧
      (f.result minSamples).driftPpm =
        (10 ^ 9 / (f.moments.cxy / f.moments.cxx) / f.nominalHz.toNat - 1) * 10 ^ 6 := by
  obtain ⟨hbroken, hnominal, hmin, htwo, hcxx, hrepeated⟩ := (f.result_ok_iff minSamples).mp hok
  have hfew : ¬ (f.moments.n < minSamples ∨ f.moments.n < 2 ∨ f.moments.cxx ≤ 0) := by
    push Not
    exact ⟨hmin, htwo, hcxx⟩
  unfold Fit.result
  rw [hbroken, if_neg Bool.false_ne_true, if_neg hnominal, if_neg hfew,
    if_neg (not_lt.mpr hrepeated)]
  exact ⟨rfl, rfl⟩

section Fitted

variable {f : Fit} {nominal seq : BitVec 32} {start : ℤ} {d k : ℕ}

/-- The fit after the samples with the numbers 0 to `k`, at intervals of `d` ns. -/
structure Fitted (nominal seq : BitVec 32) (start : ℤ) (d k : ℕ) (f : Fit) : Prop where
  nominalHz : f.nominalHz = nominal
  haveFirst : f.haveFirst = true
  broken : f.broken = false
  lastSeq : f.lastSeq = seq + BitVec.ofNat 32 k
  lastTs : f.lastTs = start + k * d
  firstTs : f.firstTs = start
  x : f.x = k
  count : f.moments.n = k + 1
  line : f.moments.OnLine (d : ℚ)
  ascending : f.moments.Ascending (k : ℚ)
  repeatedTs : f.repeatedTs = 0

/-- The fit after all samples. -/
theorem fitted_tickSamples {m : Mcu} (nominal seq : BitVec 32) (hstart : 0 < start)
    (htick : 0 < tickNs m) (k : ℕ) :
    Fitted nominal seq start (tickNs m) k
      (calibrate nominal (tickSamples m seq start (k + 1))) := by
  have hstep : ∀ i, seqStep (fun k => seq + BitVec.ofNat 32 k) i = 1 := fun i => by
    have hone : seq + BitVec.ofNat 32 (i + 1) - (seq + BitVec.ofNat 32 i) = 1#32 := by bv_omega
    exact congrArg BitVec.toNat hone
  have hin : ∀ i, InStep (fun k => seq + BitVec.ofNat 32 k) i := fun i => by
    rw [InStep, hstep]
    decide
  have hposition : ∀ i, position (fun k => seq + BitVec.ofNat 32 k) i = i := fun i => by
    simp [position, hstep]
  have hlater : ∀ i : ℕ, start + ((i + 1 : ℕ) : ℤ) * tickNs m ≠ start + (i : ℤ) * tickNs m :=
    fun i => by
      rw [Nat.cast_succ, add_one_mul, ← add_assoc]
      exact (lt_add_of_pos_right _ (Nat.cast_pos.mpr htick)).ne'
  have htracks : Tracks nominal (fun k => seq + BitVec.ofNat 32 k)
      (fun k => start + k * tickNs m) k (calibrate nominal (tickSamples m seq start (k + 1))) :=
    tracks_observed nominal (fun i _ => by positivity) (fun i _ => hin i)
  have hmoments := htracks.moments
  refine ⟨htracks.nominalHz, htracks.haveFirst, htracks.broken, htracks.lastSeq, htracks.lastTs,
    ?_, ?_, ?_, ?_, ?_, ?_⟩
  · rw [htracks.firstTs]
    simp
  · rw [htracks.x, hposition]
  · rw [hmoments, Welford.n_ofPoints]
  · rw [hmoments]
    apply Welford.onLine_ofPoints
    intro i _
    rw [hposition]
    push_cast
    ring
  · have hascending := htracks.ascending fun i _ => hin i
    rwa [hposition] at hascending
  · rw [htracks.repeatedTs]
    exact Nat.count_of_forall_not fun i _ => hlater i

/-- **The result of a fit to exact intervals.** -/
theorem Fitted.result (h : Fitted nominal seq start d k f) (hnominal : nominal ≠ 0)
    (hk : 1 ≤ k) {minSamples : ℕ} (hmin : minSamples ≤ k + 1) :
    (f.result minSamples).ok = true ∧
      (f.result minSamples).driftPpm = (10 ^ 9 / (d : ℚ) / nominal.toNat - 1) * 10 ^ 6 := by
  have htwo : 2 ≤ f.moments.n := by
    rw [h.count]
    omega
  have hcxx : 0 < f.moments.cxx := h.ascending.pos htwo
  have hspacing : f.moments.cxy / f.moments.cxx = d := by
    rw [h.line.moment, mul_div_assoc, div_self hcxx.ne', mul_one]
  have hdistinct : (f.repeatedTs : ℚ) ≤ maxRepeatedFraction * f.moments.n := by
    rw [h.repeatedTs, Nat.cast_zero, maxRepeatedFraction]
    positivity
  have hok : (f.result minSamples).ok = true :=
    (f.result_ok_iff minSamples).mpr ⟨h.broken, h.nominalHz ▸ hnominal, h.count ▸ hmin, htwo, hcxx,
      hdistinct⟩
  refine ⟨hok, ?_⟩
  rw [(Fit.result_of_ok hok).2, hspacing, h.nominalHz]

end Fitted

/-! ## Drift -/

section Drift

variable {m : Mcu} {rate : BitVec 32}

/-- The rate is taken over, and the timer is programmed with it at the start. -/
theorem regWrite_sampleRate (hrate : 1 ≤ rate.toNat ∧ rate.toNat ≤ 10000) :
    (m.regWrite .sampleRate rate).regSampleRate = rate ∧
      ((m.regWrite .sampleRate rate).regWrite .control 1).timAutoreload =
        10000 / rate.toNat - 1 := by
  have hvalid : 1#32 ≤ rate ∧ rate ≤ 10000#32 :=
    ⟨BitVec.le_def.mpr hrate.1, BitVec.le_def.mpr hrate.2⟩
  have hperiod : 1 ≤ 10000 / rate.toNat := (Nat.one_le_div_iff hrate.1).mpr hrate.2
  have hreg : (m.regWrite .sampleRate rate).regSampleRate = rate := by
    unfold Mcu.regWrite
    dsimp only
    rw [if_pos hvalid]
    split <;> rfl
  have hstart : ∀ m : Mcu, (m.regWrite .control 1).timAutoreload =
      (m.updateTimerRate m.regSampleRate).timAutoreload := fun m => by
    simp [Mcu.regWrite, Mcu.clearFlags, Mcu.start, Mcu.updateTimerRate, Mcu.updateDataReadyGpio]
  refine ⟨hreg, ?_⟩
  rw [hstart, hreg, Mcu.updateTimerRate]
  dsimp only
  rw [if_neg (Nat.not_lt.mpr hperiod)]

/-- The time between two samples. -/
theorem tickNs_start (hrate : 1 ≤ rate.toNat ∧ rate.toNat ≤ 10000) :
    tickNs ((m.regWrite .sampleRate rate).regWrite .control 1) =
      10000 / rate.toNat * 100000 := by
  have hperiod : 1 ≤ 10000 / rate.toNat := (Nat.one_le_div_iff hrate.1).mpr hrate.2
  rw [tickNs, (regWrite_sampleRate hrate).2, Nat.sub_add_cancel hperiod, timPrescaler, timClockHz]
  omega

end Drift

/-- The ratio of the rate of the samples to the nominal one. -/
theorem ratio_eq_one_iff {r : ℕ} (hr : 1 ≤ r ∧ r ≤ 10000) :
    (10 ^ 9 : ℚ) / ((10000 / r * 100000 : ℕ) : ℚ) / r = 1 ↔ r ∣ 10000 := by
  have hperiod : 1 ≤ 10000 / r := (Nat.one_le_div_iff hr.1).mpr hr.2
  have hr0 : (r : ℚ) ≠ 0 := by exact_mod_cast Nat.ne_of_gt hr.1
  have hp0 : ((10000 / r : ℕ) : ℚ) ≠ 0 := by exact_mod_cast Nat.ne_of_gt hperiod
  have hcross : (10 ^ 9 : ℚ) / ((10000 / r * 100000 : ℕ) : ℚ) / r = 1 ↔
      ((10000 / r : ℕ) : ℚ) * r = 10000 := by
    push_cast
    field_simp
    constructor <;> intro h <;> linarith
  rw [hcross, Nat.dvd_iff_div_mul_eq]
  exact_mod_cast Iff.rfl

/-- **Which rates calibrate to zero.**  With the clock of the MCU exact, the calibrator reports no
drift if, and only if, the sample rate divides 10000. -/
theorem drift_eq_zero_iff (m : Mcu) {rate : BitVec 32}
    (hrate : 1 ≤ rate.toNat ∧ rate.toNat ≤ 10000) (seq : BitVec 32) {start : ℤ}
    (hstart : 0 < start) {n minSamples : ℕ} (hn : 2 ≤ n) (hmin : minSamples ≤ n) :
    ((calibrateAt m rate seq start n).result minSamples).ok = true ∧
      (((calibrateAt m rate seq start n).result minSamples).driftPpm = 0 ↔
        rate.toNat ∣ 10000) := by
  obtain ⟨k, rfl⟩ : ∃ k, n = k + 1 := ⟨n - 1, by omega⟩
  have hperiod : 1 ≤ 10000 / rate.toNat := (Nat.one_le_div_iff hrate.1).mpr hrate.2
  have htick := tickNs_start (m := m) hrate
  have hfit := fitted_tickSamples rate seq hstart (k := k)
    (show 0 < tickNs ((m.regWrite .sampleRate rate).regWrite .control 1) by rw [htick]; omega)
  rw [htick] at hfit
  have hcal : calibrateAt m rate seq start (k + 1) = calibrate rate
      (tickSamples ((m.regWrite .sampleRate rate).regWrite .control 1) seq start (k + 1)) := by
    show calibrate (m.regWrite .sampleRate rate).regSampleRate _ = _
    rw [(regWrite_sampleRate hrate).1]
  have hzero : rate ≠ 0 := by
    rintro rfl
    exact absurd hrate.1 (by decide)
  rw [hcal]
  obtain ⟨hok, hdrift⟩ := hfit.result hzero (by omega) hmin
  refine ⟨hok, ?_⟩
  rw [hdrift, mul_eq_zero, or_iff_left (by norm_num), sub_eq_zero, ratio_eq_one_iff hrate]

/-- A rate of 1000 Hz. -/
theorem drift_eq_zero_iff_1000 : (1 ≤ (1000#32).toNat ∧ (1000#32).toNat ≤ 10000) ∧
    ((calibrateAt Mcu.powerOn 1000 0 1 2).result 2).ok = true ∧
      (((calibrateAt Mcu.powerOn 1000 0 1 2).result 2).driftPpm = 0 ↔ (1000#32).toNat ∣ 10000) :=
  ⟨by decide, drift_eq_zero_iff Mcu.powerOn (by decide) 0 Int.one_pos (le_refl 2) (le_refl 2)⟩

/-- At 600 Hz, which the MCU accepts, the samples come at 625 Hz; an exact clock is reported to
run 41667 ppm fast. -/
theorem drift_of_exact_clock :
    ((calibrateAt Mcu.powerOn 600 0 1 10).result 10).ok = true ∧
      ((calibrateAt Mcu.powerOn 600 0 1 10).result 10).driftPpm = 125000 / 3 := by
  decide +kernel

end DeviceService
