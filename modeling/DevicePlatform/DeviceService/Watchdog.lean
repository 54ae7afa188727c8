/-
# The watchdog

Model of `Watchdog` (`userspace/device-service/src/watchdog.cpp`) beside the threads whose clock
it reads: the acquisition thread and `rearm`, which store the time of the last sample in
milliseconds (`acquisition_worker.cpp`), and the supervisor, which arms it by being in `Running`.
Time is in nanoseconds and passes between any two steps of the threads, also between the reading of
the clock and what is done with it.

* `stall_reports_sound`: a stall is reported only if nothing has been stored for the time of the
  timeout, up to the millisecond that the stored time is cut to and the delay of the store itself;
  and two reports are at least a timeout apart.
* `stall_detected`: a silence while the device is running is reported after the timeout and one
  interval between two checks.
-/
import DevicePlatform.Transition
import Mathlib.Data.Int.Notation

namespace DeviceService.Watchdog

/-! ## The threads -/

/-- A call of `on_stall`: the time of the check, the silence in milliseconds, and when
`last_sample_ms_` had last been stored. -/
structure Report where
  time : ℕ
  silent : ℤ
  heard : ℕ
  deriving DecidableEq, Repr

/-- Where `check_once` is. -/
inductive CheckPc where
  /-- In `wait_for`. -/
  | waiting
  /-- `armed_` has returned true. -/
  | armed (began : ℕ)
  /-- `now` has been read. -/
  | clocked (began now : ℕ)
  /-- `last_sample_ms_` has been read, which was stored at the time `heard`. -/
  | loaded (began now lastSampleMs heard : ℕ)
  deriving DecidableEq, Repr

structure Watch where
  /-- `steady_clock`. -/
  clock : ℕ
  lastSampleMs : ℕ
  /-- The time that the acquisition thread has read and not stored yet, and `rearm`. -/
  sampling : Option ℕ
  rearming : Option ℕ
  /-- The state of the supervisor is `Running`. -/
  running : Bool
  check : CheckPc
  lastReport : ℕ
  /-- When `last_sample_ms_` was stored last, and when the state last became `Running`. -/
  heard : ℕ
  runningSince : ℕ
  /-- When the last check began that has ended. -/
  lastCheck : ℕ
  reports : List Report
  deriving DecidableEq, Repr

/-- Nanoseconds in a millisecond. -/
def msNs : ℕ := 1000000

/-- `check_interval`, in milliseconds. -/
def checkInterval (timeout : ℕ) : ℕ := if timeout / 2 < 200 then 200 else timeout / 2

inductive Happening where
  | tick (d : ℕ)
  /-- The acquisition thread has a sample and reads the clock. -/
  | sample
  | storeSample
  /-- The supervisor calls `rearm`. -/
  | rearm
  | storeRearm
  /-- The state becomes `Running`, or something else. -/
  | enter
  | leave
  /-- `wait_for` times out, and `check_once` asks whether it is armed. -/
  | wake
  | readClock
  | load
  | decide
  deriving DecidableEq, Repr

/-- `last_sample_ms_ = now_ms()`, with the clock read at `t`. -/
def Watch.store (x : Watch) (t : ℕ) : Watch :=
  { x with lastSampleMs := t / msNs, heard := x.clock }

/-- The end of `check_once`. -/
def Watch.decide (timeout : ℕ) (x : Watch) (began now lastSampleMs heard : ℕ) : Watch :=
  let sinceLastSample : ℤ := now - lastSampleMs * msNs
  if sinceLastSample < timeout * msNs ∨ (now : ℤ) - x.lastReport < timeout * msNs then
    { x with check := .waiting, lastCheck := began }
  else
    { x with
      check := .waiting, lastCheck := began, lastReport := now,
      reports := ⟨now, sinceLastSample / msNs, heard⟩ :: x.reports }

/-- The next state; `timeout` is in milliseconds. -/
def Watch.next (timeout : ℕ) (x : Watch) : Happening → Option Watch
  | .tick d => some { x with clock := x.clock + d }
  | .sample => if x.sampling = none then some { x with sampling := some x.clock } else none
  | .storeSample => x.sampling.map fun t => { x.store t with sampling := none }
  | .rearm => if x.rearming = none then some { x with rearming := some x.clock } else none
  | .storeRearm => x.rearming.map fun t => { x.store t with rearming := none }
  | .enter => if x.running then none else some { x with running := true, runningSince := x.clock }
  | .leave => some { x with running := false }
  | .wake =>
      match x.check with
      | .waiting =>
          if x.running then some { x with check := .armed x.clock }
          else some { x with lastCheck := x.clock }
      | _ => none
  | .readClock =>
      match x.check with
      | .armed began => some { x with check := .clocked began x.clock }
      | _ => none
  | .load =>
      match x.check with
      | .clocked began now => some { x with check := .loaded began now x.lastSampleMs x.heard }
      | _ => none
  | .decide =>
      match x.check with
      | .loaded began now lastSampleMs heard => some (x.decide timeout began now lastSampleMs heard)
      | _ => none

/-- The watchdog is started; `AcquisitionWorker::start` has stored the time. -/
def watchdog (timeout : ℕ) : Machine Watch Happening where
  init x := x.lastSampleMs = x.clock / msNs ∧ x.heard = x.clock ∧ x.sampling = none ∧
    x.rearming = none ∧ x.running = false ∧ x.check = .waiting ∧ x.lastReport = 0 ∧
    x.lastCheck = x.clock ∧ x.reports = []
  next := Watch.next timeout

/-- A time is stored at most `delay` after it was read, and from the beginning of a check to the
end of the next one it takes at most the interval and `late` more. -/
def Punctual (timeout delay late : ℕ) (x : Watch) : Happening → Prop
  | .tick d => (∀ t ∈ x.sampling, x.clock + d ≤ t + delay) ∧
      (∀ t ∈ x.rearming, x.clock + d ≤ t + delay) ∧
      x.clock + d ≤ x.lastCheck + checkInterval timeout * msNs + late
  | _ => True

instance (timeout delay late : ℕ) (x : Watch) (e : Happening) :
    Decidable (Punctual timeout delay late x e) := by
  cases e <;> unfold Punctual <;> infer_instance

/-! ## The invariant -/

section Invariant

variable {timeout delay late : ℕ} {x₀ x y : Watch} {e : Happening}

/-- `ms` was stored at the time `heard`, of a clock that had been read at most `delay` before. -/
def Stored (delay ms heard : ℕ) : Prop := ms * msNs ≤ heard ∧ heard < ms * msNs + msNs + delay

/-- A clock that has been read and not stored yet. -/
def Pending (delay : ℕ) (x : Watch) (t : Option ℕ) : Prop :=
  ∀ t' ∈ t, t' ≤ x.clock ∧ x.clock ≤ t' + delay

/-- What a check that is going on knows. -/
def Checking (delay : ℕ) (x : Watch) : CheckPc → Prop
  | .waiting => True
  | .armed began => x.lastCheck ≤ began ∧ began ≤ x.clock
  | .clocked began now => x.lastCheck ≤ began ∧ began ≤ now ∧ now ≤ x.clock
  | .loaded began now ms heard => x.lastCheck ≤ began ∧ began ≤ now ∧ now ≤ x.clock ∧
      Stored delay ms heard ∧ heard ≤ x.heard ∧ (heard = x.heard ∨ now ≤ x.heard)

/-- What holds at all times. -/
structure Watch.Inv (timeout delay late : ℕ) (x : Watch) : Prop where
  stored : Stored delay x.lastSampleMs x.heard
  heard : x.heard ≤ x.clock
  sampling : Pending delay x x.sampling
  rearming : Pending delay x x.rearming
  since : x.running = true → x.runningSince ≤ x.clock
  checking : Checking delay x x.check
  punctual : x.clock ≤ x.lastCheck + checkInterval timeout * msNs + late
  checked : x.lastCheck ≤ x.clock
  /-- The last report, if there is one, is the first of the list. -/
  last : (x.reports = [] ∧ x.lastReport = 0) ∨
    ∃ r rest, x.reports = r :: rest ∧ r.time = x.lastReport
  /-- A report is about the present silence, or was made before it. -/
  about : ∀ r ∈ x.reports, r.time ≤ x.clock ∧ (r.heard = x.heard ∨ r.time ≤ x.heard)
  sound : ∀ r ∈ x.reports, r.heard + timeout * msNs < r.time + msNs + delay ∧ timeout ≤ r.silent
  apart : x.reports.Pairwise fun r r' => r'.time + timeout * msNs ≤ r.time
  /-- A check that began in a silence that was long enough has left a report. -/
  detected : 0 < timeout → x.running = true → x.runningSince < x.lastCheck →
    x.heard + timeout * msNs ≤ x.lastCheck → ∃ r ∈ x.reports, r.heard = x.heard

/-- A time is stored. -/
theorem Watch.Inv.store (inv : x.Inv timeout delay late) {t : ℕ}
    (ht : t ≤ x.clock ∧ x.clock ≤ t + delay) : (x.store t).Inv timeout delay late := by
  have hdiv := Nat.div_add_mod t msNs
  have hmod := Nat.mod_lt t (show 0 < msNs by decide)
  have hcomm := Nat.mul_comm msNs (t / msNs)
  refine { inv with
    stored := ⟨?_, ?_⟩, heard := Nat.le_refl _, checking := ?_, about := ?_, detected := ?_ }
  · show t / msNs * msNs ≤ x.clock
    omega
  · show x.clock < t / msNs * msNs + msNs + delay
    omega
  · have hchecking := inv.checking
    show Checking delay (x.store t) x.check
    cases hpc : x.check with
    | waiting => trivial
    | armed began =>
        rw [hpc] at hchecking
        exact hchecking
    | clocked began now =>
        rw [hpc] at hchecking
        exact hchecking
    | loaded began now ms heard =>
        rw [hpc] at hchecking
        obtain ⟨h₁, h₂, h₃, h₄, h₅, -⟩ := hchecking
        exact ⟨h₁, h₂, h₃, h₄, Nat.le_trans h₅ inv.heard, .inr h₃⟩
  · intro r hr
    exact ⟨(inv.about r hr).1, .inr (inv.about r hr).1⟩
  · intro hT _ _ hlong
    have hlong' : x.clock + timeout * msNs ≤ x.lastCheck := hlong
    have hchecked := inv.checked
    have hpos : 0 < timeout * msNs := Nat.mul_pos hT (by decide)
    omega

/-- Time passes. -/
theorem Watch.Inv.tick (inv : x.Inv timeout delay late) {d : ℕ}
    (hok : Punctual timeout delay late x (.tick d)) :
    Watch.Inv timeout delay late { x with clock := x.clock + d } := by
  obtain ⟨hsampling, hrearming, hpunctual⟩ := hok
  refine { inv with
    heard := Nat.le_add_right_of_le inv.heard, sampling := ?_, rearming := ?_, since := ?_,
    checking := ?_, punctual := hpunctual, checked := Nat.le_add_right_of_le inv.checked,
    about := ?_ }
  · exact fun t ht => ⟨Nat.le_add_right_of_le (inv.sampling t ht).1, hsampling t ht⟩
  · exact fun t ht => ⟨Nat.le_add_right_of_le (inv.rearming t ht).1, hrearming t ht⟩
  · exact fun hrun => Nat.le_add_right_of_le (inv.since hrun)
  · have hchecking := inv.checking
    show Checking delay { x with clock := x.clock + d } x.check
    cases hpc : x.check with
    | waiting => trivial
    | armed began =>
        rw [hpc] at hchecking
        exact ⟨hchecking.1, Nat.le_add_right_of_le hchecking.2⟩
    | clocked began now =>
        rw [hpc] at hchecking
        exact ⟨hchecking.1, hchecking.2.1, Nat.le_add_right_of_le hchecking.2.2⟩
    | loaded began now ms heard =>
        rw [hpc] at hchecking
        exact ⟨hchecking.1, hchecking.2.1, Nat.le_add_right_of_le hchecking.2.2.1,
          hchecking.2.2.2⟩
  · exact fun r hr => ⟨Nat.le_add_right_of_le (inv.about r hr).1, (inv.about r hr).2⟩

/-- All reports were made by the time of the last one. -/
theorem Watch.Inv.time_le (inv : x.Inv timeout delay late) :
    ∀ r ∈ x.reports, r.time ≤ x.lastReport := by
  rcases inv.last with ⟨hnil, -⟩ | ⟨r₀, rest, hreports, hr₀⟩
  · simp [hnil]
  · have hapart := inv.apart
    rw [hreports, List.pairwise_cons] at hapart
    rw [hreports, ← hr₀]
    intro r hr
    rcases List.mem_cons.mp hr with rfl | hr
    · exact Nat.le_refl _
    · exact Nat.le_trans (Nat.le_add_right _ _) (hapart.1 r hr)

/-- The end of a check. -/
theorem Watch.Inv.decide (inv : x.Inv timeout delay late)
    {began now ms heard : ℕ} (hpc : x.check = .loaded began now ms heard) :
    (x.decide timeout began now ms heard).Inv timeout delay late := by
  have hchecking := inv.checking
  rw [hpc] at hchecking
  obtain ⟨hlast, hbegan, hnow, ⟨hstored, hstored'⟩, -, habout⟩ := hchecking
  have hpunctual := inv.punctual
  -- in a silence that is long enough, the value that was read is the present one
  have hsame : 0 < timeout → x.heard + timeout * msNs ≤ began → heard = x.heard := by
    intro hT hlong
    have hpos : 0 < timeout * msNs := Nat.mul_pos hT (by decide)
    refine habout.resolve_right ?_
    omega
  unfold Watch.decide
  dsimp only
  split
  · next hquiet =>
    refine { inv with checking := trivial, punctual := ?_, checked := ?_, detected := ?_ }
    · show x.clock ≤ began + _ + late
      omega
    · exact Nat.le_trans hbegan hnow
    · intro hT _ _ hlong
      have hlong' : x.heard + timeout * msNs ≤ began := hlong
      have hheard := hsame hT hlong'
      have hpos : 0 < timeout * msNs := Nat.mul_pos hT (by decide)
      -- the silence has been reported, at the last report
      rcases inv.last with ⟨-, hzero⟩ | ⟨r, rest, hreports, hr⟩
      · exfalso
        omega
      · have hmem : r ∈ x.reports := by simp [hreports]
        refine ⟨r, hmem, (inv.about r hmem).2.resolve_right ?_⟩
        omega
  · next hstall =>
    obtain ⟨hsilent, hapart⟩ := not_or.mp hstall
    refine { inv with
      checking := trivial, punctual := ?_, checked := ?_, last := ?_, about := ?_, sound := ?_,
      apart := ?_, detected := ?_ }
    · show x.clock ≤ began + _ + late
      omega
    · exact Nat.le_trans hbegan hnow
    · exact .inr ⟨_, _, rfl, rfl⟩
    · intro r hr
      rcases List.mem_cons.mp hr with rfl | hr
      · exact ⟨hnow, habout⟩
      · exact inv.about r hr
    · intro r hr
      rcases List.mem_cons.mp hr with rfl | hr
      · constructor
        · show heard + timeout * msNs < now + msNs + delay
          omega
        · show (timeout : Int) ≤ _ / _
          rw [Int.le_ediv_iff_mul_le (by decide)]
          exact Int.not_lt.mp hsilent
      · exact inv.sound r hr
    · refine List.pairwise_cons.mpr ⟨fun r hr => ?_, inv.apart⟩
      have hle := inv.time_le r hr
      show r.time + timeout * msNs ≤ now
      omega
    · intro hT _ _ hlong
      exact ⟨_, List.mem_cons_self, hsame hT hlong⟩

theorem Watch.Inv.next (inv : x.Inv timeout delay late)
    (hok : Punctual timeout delay late x e) (hn : x.next timeout e = some y) :
    y.Inv timeout delay late := by
  cases e with
  | tick d =>
      cases hn
      exact inv.tick hok
  | sample =>
      dsimp only [Watch.next] at hn
      split at hn <;> cases hn
      refine { inv with sampling := ?_ }
      rintro t ⟨⟩
      exact ⟨Nat.le_refl _, Nat.le_add_right _ _⟩
  | storeSample =>
      obtain ⟨t, ht, rfl⟩ := Option.map_eq_some_iff.mp hn
      have h := inv.store (inv.sampling t ht)
      exact { h with sampling := by simp [Pending] }
  | rearm =>
      dsimp only [Watch.next] at hn
      split at hn <;> cases hn
      refine { inv with rearming := ?_ }
      rintro t ⟨⟩
      exact ⟨Nat.le_refl _, Nat.le_add_right _ _⟩
  | storeRearm =>
      obtain ⟨t, ht, rfl⟩ := Option.map_eq_some_iff.mp hn
      have h := inv.store (inv.rearming t ht)
      exact { h with rearming := by simp [Pending] }
  | enter =>
      dsimp only [Watch.next] at hn
      split at hn <;> cases hn
      refine { inv with since := fun _ => Nat.le_refl _, detected := ?_ }
      intro _ _ hsince
      exact absurd inv.checked (Nat.not_le.mpr hsince)
  | leave =>
      cases hn
      exact { inv with since := by simp, detected := by simp }
  | wake =>
      dsimp only [Watch.next] at hn
      split at hn
      · next hpc =>
        split at hn <;> cases hn
        · exact { inv with checking := ⟨inv.checked, Nat.le_refl _⟩ }
        · next hrun =>
          refine { inv with
            checking := ?_, punctual := ?_, checked := Nat.le_refl _,
            detected := fun _ h => absurd h hrun }
          · show Checking delay _ x.check
            rw [hpc]
            trivial
          · show x.clock ≤ x.clock + _ + late
            omega
      · cases hn
  | readClock =>
      dsimp only [Watch.next] at hn
      split at hn <;> cases hn
      next began hpc =>
      have hchecking := inv.checking
      rw [hpc] at hchecking
      exact { inv with checking := ⟨hchecking.1, hchecking.2, Nat.le_refl _⟩ }
  | load =>
      dsimp only [Watch.next] at hn
      split at hn <;> cases hn
      next began now hpc =>
      have hchecking := inv.checking
      rw [hpc] at hchecking
      exact { inv with checking := ⟨hchecking.1, hchecking.2.1, hchecking.2.2, inv.stored,
        Nat.le_refl _, .inl rfl⟩ }
  | decide =>
      dsimp only [Watch.next] at hn
      split at hn <;> cases hn
      next hpc => exact inv.decide hpc

theorem Watch.Inv.of_run {es : List Happening} (h₀ : (watchdog timeout).init x₀)
    (hr : (watchdog timeout).Run (Punctual timeout delay late) x₀ es x) :
    x.Inv timeout delay late := by
  refine hr.preserves (fun _ _ _ inv hok hn => inv.next hok hn) ?_
  obtain ⟨hms, hheard, hsampling, hrearming, hrun, hcheck, hlast, hchecked, hreports⟩ := h₀
  have hdiv := Nat.div_add_mod x₀.clock msNs
  have hmod := Nat.mod_lt x₀.clock (show 0 < msNs by decide)
  have hcomm := Nat.mul_comm msNs (x₀.clock / msNs)
  refine ⟨?_, by omega, by simp [Pending, hsampling], by simp [Pending, hrearming], by simp [hrun],
    by simp [hcheck, Checking], by omega, by omega, .inl ⟨hreports, hlast⟩, by simp [hreports],
    by simp [hreports], by simp [hreports], by simp [hrun]⟩
  rw [hms, hheard]
  exact ⟨by omega, by omega⟩

end Invariant

/-! ## Results -/

section Results

variable {timeout delay late : ℕ} {x₀ x : Watch} {es : List Happening}

/-- **No false alarm.**  When a stall is reported, no sample has been stored, and `rearm` has not
been called, for the time of the timeout, up to the millisecond that the stored time is cut to and
the delay of the store; and no two reports are less than a timeout apart. -/
theorem stall_reports_sound (h₀ : (watchdog timeout).init x₀)
    (hr : (watchdog timeout).Run (Punctual timeout delay late) x₀ es x) :
    (∀ r ∈ x.reports, r.time ≤ x.clock ∧
      r.heard + timeout * msNs < r.time + msNs + delay ∧ timeout ≤ r.silent) ∧
    x.reports.Pairwise fun r r' => r'.time + timeout * msNs ≤ r.time := by
  have inv := Watch.Inv.of_run h₀ hr
  exact ⟨fun r hr => ⟨(inv.about r hr).1, inv.sound r hr⟩, inv.apart⟩

/-- The service is started ten seconds after the clock. -/
def started : Watch :=
  ⟨10000000000, 10000, none, none, false, .waiting, 0, 10000000000, 0, 10000000000, []⟩

/-- With a timeout of one second: the device runs and stays silent for three intervals. -/
def silence : List Happening :=
  List.flatten [[.enter], List.flatten (List.replicate 2
    [.tick 500000000, .wake, .readClock, .load, .decide]), [.tick 500000000]]

theorem stall_reports_sound_silence : ∃ x : Watch,
    ((watchdog 1000).Run (Punctual 1000 0 0) started silence x ∧ x.reports ≠ []) ∧
    (∀ r ∈ x.reports, r.time ≤ x.clock ∧
      r.heard + 1000 * msNs < r.time + msNs + 0 ∧ (1000 : ℕ) ≤ r.silent) ∧
    x.reports.Pairwise fun r r' => r'.time + 1000 * msNs ≤ r.time := by
  have hrun : ∃ x, (watchdog 1000).Run (Punctual 1000 0 0) started silence x ∧ x.reports ≠ [] :=
    Machine.exists_run_of_exec _ (by decide +kernel)
  obtain ⟨x, hr, hne⟩ := hrun
  exact ⟨x, ⟨hr, hne⟩, stall_reports_sound
    ⟨rfl, rfl, rfl, rfl, rfl, rfl, rfl, rfl, rfl⟩ hr⟩

/-- **Every stall is found.**  If nothing has been stored for the timeout, the interval of the
checks and their lateness, and the device has been running for that interval, then the present
silence has been reported. -/
theorem stall_detected (hT : 0 < timeout) (h₀ : (watchdog timeout).init x₀)
    (hr : (watchdog timeout).Run (Punctual timeout delay late) x₀ es x) (hrun : x.running = true)
    (hsince : x.runningSince + (checkInterval timeout * msNs + late) < x.clock)
    (hsilent : x.heard + timeout * msNs + (checkInterval timeout * msNs + late) ≤ x.clock) :
    ∃ r ∈ x.reports, r.heard = x.heard := by
  have inv := Watch.Inv.of_run h₀ hr
  have hpunctual := inv.punctual
  exact inv.detected hT hrun (by omega) (by omega)

theorem stall_detected_silence : ∃ x : Watch,
    ((watchdog 1000).Run (Punctual 1000 0 0) started silence x ∧ x.running = true ∧
      x.runningSince + (checkInterval 1000 * msNs + 0) < x.clock ∧
      x.heard + 1000 * msNs + (checkInterval 1000 * msNs + 0) ≤ x.clock) ∧
    ∃ r ∈ x.reports, r.heard = x.heard := by
  have hrun : ∃ x, (watchdog 1000).Run (Punctual 1000 0 0) started silence x ∧ x.running = true ∧
      x.runningSince + (checkInterval 1000 * msNs + 0) < x.clock ∧
      x.heard + 1000 * msNs + (checkInterval 1000 * msNs + 0) ≤ x.clock :=
    Machine.exists_run_of_exec _ (by decide +kernel)
  obtain ⟨x, hr, hrun, hsince, hsilent⟩ := hrun
  exact ⟨x, ⟨hr, hrun, hsince, hsilent⟩, stall_detected (by decide)
    ⟨rfl, rfl, rfl, rfl, rfl, rfl, rfl, rfl, rfl⟩ hr hrun hsince hsilent⟩

end Results

end DeviceService.Watchdog
