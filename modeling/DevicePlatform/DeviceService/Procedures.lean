/-
# What the supervisor's procedures do

The specifications of the programs of the supervisor: what holds when `prepare`, recovery,
calibration and at last `apply` return, whatever the device answers and whatever the other
threads do meanwhile.  The protocol is total, so that each specification includes that the
procedure ends: time passes while it sleeps, and an event has at most one follow-up.

The other threads post events, read samples and let the acquisition thread die, but they do not
touch the state or the device (`Others`).  In the runs in which recovery is sound they keep to one
more rule, which is the parameter `fresh`: while an attempt watches `samples_read`, no sample is
counted that was taken before the attempt's `control=1`.  The parameter `own` is for runs in which
nobody but recovery itself posts `Recovered`.  The supervisor's side of the protocol is that it
publishes `Running` only after a `control=1` that has not thrown (`Publishes`).
-/
import DevicePlatform.DeviceService.Supervisor

namespace DeviceService

open Prog

/-! ## The other threads -/

/-- What the other threads do between two steps of the supervisor. -/
structure Others (fresh : Prop) (s t : Service) : Prop where
  cfg : t.cfg = s.cfg
  state : t.state = s.state
  writes : t.writes = s.writes
  history : t.history = s.history
  attempt : t.attempt = s.attempt
  current : t.current = s.current
  queue : s.queue ⊆ t.queue
  clock : s.clock ≤ t.clock
  failed : s.worker.failed = true → t.worker.failed = true
  counted : ∃ l, t.counted = s.counted ++ l ∧
    (fresh → s.attempt.watching = true → ∀ e ∈ l, ∃ k ∈ s.attempt.started, k ≤ e)

theorem Others.refl (fresh : Prop) (s : Service) : Others fresh s s :=
  ⟨rfl, rfl, rfl, rfl, rfl, rfl, List.Subset.refl _, Nat.le_refl _, id, [],
    (List.append_nil _).symm, fun _ _ _ he => nomatch he⟩

theorem Others.trans {fresh : Prop} {s t u : Service} (h₁ : Others fresh s t)
    (h₂ : Others fresh t u) : Others fresh s u := by
  obtain ⟨l₁, hl₁, hf₁⟩ := h₁.counted
  obtain ⟨l₂, hl₂, hf₂⟩ := h₂.counted
  refine ⟨h₂.cfg.trans h₁.cfg, h₂.state.trans h₁.state, h₂.writes.trans h₁.writes,
    h₂.history.trans h₁.history,
    h₂.attempt.trans h₁.attempt, h₂.current.trans h₁.current, fun _ h => h₂.queue (h₁.queue h),
    h₁.clock.trans h₂.clock, fun h => h₂.failed (h₁.failed h), l₁ ++ l₂, ?_, ?_⟩
  · rw [hl₂, hl₁, List.append_assoc]
  · intro hfresh hwatch e he
    rcases List.mem_append.mp he with he | he
    · exact hf₁ hfresh hwatch e he
    · rw [h₁.attempt] at hf₂
      exact hf₂ hfresh hwatch e he

theorem Others.counted_subset {fresh : Prop} {s t : Service} (hr : Others fresh s t) :
    s.counted ⊆ t.counted := by
  obtain ⟨l, hl, -⟩ := hr.counted
  rw [hl]
  exact List.subset_append_left ..

/-- `Stop` is in the queue, or is the event that is being applied, or has been applied. -/
def Stopping (s : Service) : Prop :=
  .stop ∈ s.queue ∨ s.current = some .stop ∨ s.state = .stopped

theorem Stopping.rely {fresh : Prop} {s t : Service} (h : Stopping s) (hr : Others fresh s t) :
    Stopping t := by
  rcases h with h | h | h
  · exact .inl (hr.queue h)
  · exact .inr (.inl (hr.current.trans h))
  · exact .inr (.inr (hr.state.trans h))

/-- A pending `Stop` is on its way, every sample that is counted is on record, and nobody has
posted `Recovered` if nobody but recovery may. -/
structure Sane (own : Prop) (s : Service) : Prop where
  stop : s.stopPending = true → Stopping s
  counted : s.worker.samplesRead = s.counted.length
  genuine : own → .recovered ∉ s.queue

/-- If nobody but recovery posts `Recovered`, a step that publishes `Running` finds `control=1` as
the last write, and that write has not thrown. -/
def Publishes (own : Prop) (s t : Service) : Prop :=
  own → s.state ≠ .running → t.state = .running → t.writes.getLast? = some ⟨true, true⟩

/-- A step that is not a transition publishes nothing. -/
theorem Publishes.of_same {own : Prop} {s t : Service} (h : t.state = s.state) :
    Publishes own s t :=
  fun _ hne ht => absurd (h.symm.trans ht) hne

/-- The protocol of the supervisor thread. -/
def supervising (own fresh : Prop) : Protocol Service where
  inv := Sane own
  rely := Others fresh
  guar := Publishes own
  assumed _ := True
  total := True
  rely_refl := Others.refl fresh
  rely_trans := Others.trans
  guar_refl _ := .of_same rfl

namespace Supervisor

section Steps

variable {own fresh : Prop} {s : Service} {α β : Type} {Q : α → Service → Prop}

theorem sup_read {g : Service → β} {k : β → Prog Service α}
    (h : ∀ t, Others fresh s t → Sane own t → (k (g t)).wp (supervising own fresh) Q t) :
    (Prog.read g >>= k).wp (supervising own fresh) Q s :=
  wp_read h

theorem sup_update {g : Service → β × Service} {k : β → Prog Service α}
    (h : ∀ t, Others fresh s t → Sane own t → Sane own (g t).2 ∧ (g t).2.state = t.state ∧
      (k (g t).1).wp (supervising own fresh) Q (g t).2) :
    (Prog.update g >>= k).wp (supervising own fresh) Q s :=
  wp_update fun t hr hi _ =>
    have ⟨hsane, hstate, hk⟩ := h t hr hi
    ⟨hsane, .of_same hstate, hk⟩

theorem sup_write {g : Service → Service} {k : Unit → Prog Service α}
    (h : ∀ t, Others fresh s t → Sane own t → Sane own (g t) ∧ (g t).state = t.state ∧
      (k ()).wp (supervising own fresh) Q (g t)) :
    (Prog.write g >>= k).wp (supervising own fresh) Q s :=
  wp_write fun t hr hi _ =>
    have ⟨hsane, hstate, hk⟩ := h t hr hi
    ⟨hsane, .of_same hstate, hk⟩

end Steps

/-! ## Calls of the device -/

/-- Facts that the other threads keep. -/
def Kept (fresh : Prop) (P : Service → Prop) : Prop := ∀ s t, P s → Others fresh s t → P t

section Calls

variable {own fresh : Prop} {s : Service} {P : Service → Prop}

/-- A write to `control`. -/
theorem writeControl_spec {v : Bool} (hP : Kept fresh P)
    (hw : ∀ s w p, P s → P { s with writes := w, pipeline := p }) (h : P s) :
    (writeControl v).wp (supervising own fresh)
      (fun ok t => P t ∧ t.writes.getLast? = some ⟨v, ok⟩) s := by
  refine wp_choose fun n => wp_last (sup_update fun t hr ht => ?_)
  have hPt := hP s t h hr
  by_cases hn : n = 0
  · simp only [if_pos hn]
    exact ⟨⟨ht.stop, ht.counted, ht.genuine⟩, trivial, hw t _ _ hPt, List.getLast?_concat ..⟩
  · simp only [if_neg hn]
    exact ⟨⟨ht.stop, ht.counted, ht.genuine⟩, trivial, hw t _ t.pipeline hPt,
      List.getLast?_concat ..⟩

/-- `sleep_unless_stopping`. -/
theorem sleep_spec {ms : ℕ} (hP : Kept fresh P) (hc : ∀ s n, P s → P { s with clock := n })
    (h : P s) :
    (sleepUnlessStopping ms).wp (supervising own fresh) (fun go t => P t ∧
      (go = false → Stopping t) ∧ (go = true → s.clock + ms ≤ t.clock)) s := by
  refine wp_choose fun late => wp_last (sup_update fun t hr ht => ?_)
  have hPt := hP s t h hr
  have hclock := hr.clock
  by_cases hstop : t.stopPending = true
  · simp only [if_pos hstop]
    exact ⟨ht, trivial, hPt, fun _ => ht.stop hstop, Bool.noConfusion⟩
  · simp only [if_neg hstop]
    refine ⟨⟨ht.stop, ht.counted, ht.genuine⟩, trivial, hc t _ hPt, Bool.noConfusion, fun _ => ?_⟩
    show s.clock + ms ≤ t.clock + ms + late
    omega

end Calls

/-! ## Recovery -/

/-- The supervisor still applies the same event, in the state it had in `a`. -/
structure At (a s : Service) : Prop where
  cfg : s.cfg = a.cfg
  state : s.state = a.state
  current : s.current = a.current
  history : s.history = a.history

/-- Only samples taken after the attempt's `control=1` have been counted since. -/
structure Watching (fresh : Prop) (before : ℕ) (started : Option ℕ) (s : Service) : Prop where
  attempt : s.attempt = ⟨true, started, true⟩
  le : before ≤ s.counted.length
  newer : fresh → ∀ e ∈ s.counted.drop before, ∃ k ∈ started, k ≤ e

section Recovery

variable {own fresh : Prop} {a s t : Service}

theorem At.rely (h : At a s) (hr : Others fresh s t) : At a t :=
  ⟨hr.cfg.trans h.cfg, hr.state.trans h.state, hr.current.trans h.current,
    hr.history.trans h.history⟩

theorem Watching.rely {before : ℕ} {started : Option ℕ} (h : Watching fresh before started s)
    (hr : Others fresh s t) : Watching fresh before started t := by
  obtain ⟨l, hl, hf⟩ := hr.counted
  refine ⟨hr.attempt.trans h.attempt, ?_, fun hfresh e he => ?_⟩
  · rw [hl, List.length_append]
    exact h.le.trans (Nat.le_add_right ..)
  · rw [hl, List.drop_append_of_le_length h.le] at he
    rcases List.mem_append.mp he with he | he
    · exact h.newer hfresh e he
    · rw [h.attempt] at hf
      exact hf hfresh rfl e he

/-- What an attempt has shown stays shown. -/
theorem proved_mono (hid : t.attempt.idOk = s.attempt.idOk)
    (hstarted : t.attempt.started = s.attempt.started) (hcounted : s.counted ⊆ t.counted)
    (h : proved s = true) : proved t = true := by
  simp only [proved, Bool.and_eq_true, Option.any_eq_true, List.any_eq_true] at h ⊢
  obtain ⟨hok, k, hk, e, he, hle⟩ := h
  exact ⟨hid.trans hok, k, hstarted.trans hk, e, hcounted he, hle⟩

/-- What is known when an attempt has ended. -/
def AfterAttempt (fresh : Prop) (a : Service) (o : Outcome) (s : Service) : Prop :=
  At a s ∧ match o with
    | .recovered => s.writes.getLast? = some ⟨true, true⟩ ∧ (fresh → proved s = true)
    | .interrupted => Stopping s
    | .failed => True

/-- The loop that waits for samples ends, and sees samples only if they are fresh. -/
theorem awaitSamples_spec {before k timeout now : ℕ} (h : At a s)
    (hw : Watching fresh before (some k) s) (hlast : s.writes.getLast? = some ⟨true, true⟩)
    (hnow : now ≤ s.clock) :
    (awaitSamples before (now + timeout) now).wp (supervising own fresh)
      (AfterAttempt fresh a) s := by
  let P : Service → Prop := fun t => At a t ∧ Watching fresh before (some k) t ∧
    t.writes.getLast? = some ⟨true, true⟩
  have hP : Kept fresh P := by
    rintro s t ⟨h, hw, hl⟩ hr
    exact ⟨h.rely hr, hw.rely hr, (congrArg _ hr.writes).trans hl⟩
  refine wp_last (wp_loop_variant (fun now t => P t ∧ now ≤ t.clock)
    (fun y => now + timeout - y) ?_ ⟨⟨h, hw, hlast⟩, hnow⟩ ?_)
  · rintro y t u ⟨hp, hy⟩ hr -
    exact ⟨hP t u hp hr, hy.trans hr.clock⟩
  rintro y t ⟨hp, hy⟩
  split
  · next hlt =>
    refine sup_read fun t₁ hr₁ ht₁ => ?_
    have hp₁ := hP t t₁ hp hr₁
    split
    · next hflow =>
      -- there are more samples than before, and the new ones are fresh
      refine sup_write fun t₂ hr₂ ht₂ => ⟨⟨ht₂.stop, ht₂.counted, ht₂.genuine⟩, rfl, ?_⟩
      obtain ⟨hat, hw₂, hl⟩ := hP t₁ t₂ hp₁ hr₂
      refine ⟨⟨hat.cfg, hat.state, hat.current, hat.history⟩, hl, fun hfresh => ?_⟩
      have hmore : before < t₁.counted.length := by
        rw [← ht₁.counted]
        exact of_decide_eq_true hflow
      obtain ⟨l, hl₂, -⟩ := hr₂.counted
      have hlen : before < t₂.counted.length := by
        rw [hl₂, List.length_append]
        omega
      have hmem : t₂.counted[before] ∈ t₂.counted.drop before := by
        rw [List.drop_eq_getElem_cons hlen]
        exact List.mem_cons_self ..
      obtain ⟨k', hk', hle⟩ := hw₂.newer hfresh _ hmem
      show (t₂.attempt.idOk && t₂.attempt.started.any fun k => t₂.counted.any (k ≤ ·)) = true
      rw [hw₂.attempt, Option.mem_some.mp hk']
      simp only [Bool.true_and, Option.any_some, List.any_eq_true, decide_eq_true_eq]
      exact ⟨_, List.mem_of_mem_drop hmem, hle⟩
    · refine sup_read fun t₂ hr₂ ht₂ => ?_
      have hp₂ := hP t₁ t₂ hp₁ hr₂
      split
      · exact ⟨hp₂.1, trivial⟩
      · refine wp_seq (sleep_spec hP (fun s n h => ?_) hp₂) ?_
        · exact ⟨⟨h.1.cfg, h.1.state, h.1.current, h.1.history⟩,
            ⟨h.2.1.attempt, h.2.1.le, h.2.1.newer⟩, h.2.2⟩
        rintro go t₃ ⟨hp₃, hstop, hgo⟩
        split
        · next hg =>
          refine sup_read fun t₄ hr₄ ht₄ => ?_
          have hc := hgo hg
          have h₁ := hr₁.clock
          have h₂ := hr₂.clock
          have h₄ := hr₄.clock
          have hstep : 0 < pollStep := by decide
          exact ⟨⟨hP t₃ t₄ hp₃ hr₄, Nat.le_refl _⟩, by omega⟩
        · next hg => exact ⟨hp₃.1, hstop (Bool.eq_false_iff.mpr hg)⟩
  · exact ⟨hp.1, trivial⟩

/-- The soft reset. -/
theorem softReset_spec (h : At a s) (ha : s.attempt = ⟨true, none, false⟩) :
    softReset.wp (supervising own fresh) (AfterAttempt fresh a) s := by
  refine sup_update fun t₁ hr₁ ht₁ => ⟨⟨ht₁.stop, ht₁.counted, ht₁.genuine⟩, rfl, ?_⟩
  have h₁ := h.rely hr₁
  let P : Service → Prop := fun t => At a t ∧
    Watching fresh t₁.worker.samplesRead none t
  have hP : Kept fresh P := fun s t hp hr => ⟨hp.1.rely hr, hp.2.rely hr⟩
  refine wp_seq (writeControl_spec hP ?_ ?_) ?_
  · rintro s w p ⟨hat, hw⟩
    exact ⟨⟨hat.cfg, hat.state, hat.current, hat.history⟩, ⟨hw.attempt, hw.le, hw.newer⟩⟩
  · refine ⟨⟨h₁.cfg, h₁.state, h₁.current, h₁.history⟩, ?_, Nat.le_of_eq ht₁.counted,
      fun _ e he => ?_⟩
    · show { t₁.attempt with watching := true } = _
      rw [hr₁.attempt, ha]
    · rw [ht₁.counted] at he
      simp only [List.drop_length, List.not_mem_nil] at he
  rintro stopped t₂ ⟨hp₂, -⟩
  split
  · refine wp_choose fun n => sup_update fun t₃ hr₃ ht₃ => ?_
    obtain ⟨hat, hw⟩ := hP t₂ t₃ hp₂ hr₃
    by_cases hn : n = 0
    · simp only [if_pos hn]
      refine ⟨⟨ht₃.stop, ht₃.counted, ht₃.genuine⟩, trivial, sup_read fun t₄ hr₄ ht₄ => ?_⟩
      have hwatch : Watching fresh t₁.worker.samplesRead (some (t₃.pipeline.starts + 1))
          { t₃ with
            writes := t₃.writes ++ [⟨true, true⟩]
            pipeline := t₃.pipeline.control true
            attempt := { t₃.attempt with started := some (t₃.pipeline.starts + 1) } } := by
        refine ⟨?_, hw.le, fun hfresh e he => ?_⟩
        · show { t₃.attempt with started := some (t₃.pipeline.starts + 1) } = _
          rw [hw.attempt]
        · obtain ⟨k, hk, -⟩ := hw.newer hfresh e he
          cases hk
      have h₄ : At a t₄ := ⟨hr₄.cfg.trans hat.cfg, hr₄.state.trans hat.state,
        hr₄.current.trans hat.current, hr₄.history.trans hat.history⟩
      refine awaitSamples_spec h₄ (hwatch.rely hr₄) ?_ (Nat.le_refl _)
      rw [hr₄.writes]
      exact List.getLast?_concat ..
    · simp only [if_neg hn]
      exact ⟨⟨ht₃.stop, ht₃.counted, ht₃.genuine⟩, trivial,
        ⟨hat.cfg, hat.state, hat.current, hat.history⟩, trivial⟩
  · exact ⟨hp₂.1, trivial⟩

/-- The acquisition thread is started again. -/
theorem restartWorker_spec {P : Service → Prop} (hP : Kept fresh P)
    (hw : ∀ s w, P s → P { s with worker := w }) (h : P s) :
    restartWorker.wp (supervising own fresh) (fun _ t => P t) s := by
  refine sup_read fun t₁ hr₁ _ => ?_
  have h₁ := hP s t₁ h hr₁
  split
  · refine wp_choose fun n => ?_
    split
    · refine sup_write fun t₂ hr₂ ht₂ => ⟨⟨ht₂.stop, ht₂.counted, ht₂.genuine⟩, rfl, ?_⟩
      exact hw t₂ _ (hP t₁ t₂ h₁ hr₂)
    · exact h₁
  · exact h₁

/-- An attempt. -/
theorem tryRecovery_spec (h : At a s) (ha : s.attempt = ⟨false, none, false⟩) :
    tryRecovery.wp (supervising own fresh) (AfterAttempt fresh a) s := by
  refine wp_seq (R := fun _ t => At a t ∧ t.attempt = ⟨false, none, false⟩)
    (wp_choose fun n => ⟨h, ha⟩) ?_
  rintro (_ | id) t ⟨h, ha⟩
  · exact ⟨h, trivial⟩
  refine sup_update fun t₁ hr₁ ht₁ => ⟨⟨ht₁.stop, ht₁.counted, ht₁.genuine⟩, rfl, ?_⟩
  have h₁ := h.rely hr₁
  have ha₁ := hr₁.attempt.trans ha
  dsimp only
  split
  · next hgood =>
    let P : Service → Prop := fun t => At a t ∧ t.attempt = ⟨true, none, false⟩
    have hP : Kept fresh P := fun s t hp hr => ⟨hp.1.rely hr, hr.attempt.trans hp.2⟩
    refine wp_seq (restartWorker_spec hP ?_ ?_) ?_
    · rintro s w ⟨hat, hs⟩
      exact ⟨⟨hat.cfg, hat.state, hat.current, hat.history⟩, hs⟩
    · refine ⟨⟨h₁.cfg, h₁.state, h₁.current, h₁.history⟩, ?_⟩
      rw [hgood, ha₁]
    · rintro ready t₂ ⟨h₂, ha₂⟩
      split
      · exact softReset_spec h₂ ha₂
      · exact ⟨h₂, trivial⟩
  · exact ⟨⟨h₁.cfg, h₁.state, h₁.current, h₁.history⟩, trivial⟩

/-- What is known when a procedure has ended: `Stop` interrupted it, or it has a follow-up. -/
def AfterRecovery (fresh : Prop) (a : Service) (next : Option Event) (s : Service) : Prop :=
  At a s ∧ match next with
    | none => Stopping s
    | some e => e = .recovered ∧ s.writes.getLast? = some ⟨true, true⟩ ∧
        (fresh → proved s = true) ∨ e = .recoveryFailed

/-- **Recovery** ends. -/
theorem runRecovery_spec (h : At a s) :
    runRecovery.wp (supervising own fresh) (AfterRecovery fresh a) s := by
  refine wp_last (wp_loop_variant (fun _ t => At a t)
    (fun n => a.cfg.maxRecoveryAttempts + 1 - n) ?_ h ?_)
  · intro _ t u h hr _
    exact h.rely hr
  intro n t h
  refine sup_read fun t₁ hr₁ _ => ?_
  have h₁ := h.rely hr₁
  rw [h₁.cfg]
  split
  · next hn =>
    refine sup_read fun t₂ hr₂ ht₂ => ?_
    have h₂ := h₁.rely hr₂
    split
    · next hstop => exact ⟨h₂, ht₂.stop hstop⟩
    refine sup_write fun t₃ hr₃ ht₃ => ⟨⟨ht₃.stop, ht₃.counted, ht₃.genuine⟩, rfl, ?_⟩
    have h₃ := h₂.rely hr₃
    refine wp_seq (tryRecovery_spec (a := a) ⟨h₃.cfg, h₃.state, h₃.current, h₃.history⟩ rfl) ?_
    rintro o t₄ ⟨h₄, ho⟩
    refine sup_write fun t₅ hr₅ ht₅ => ⟨⟨ht₅.stop, ht₅.counted, ht₅.genuine⟩, rfl, ?_⟩
    have h₅ : At a { t₅ with attempt := { t₅.attempt with watching := false } } := by
      have h := h₄.rely hr₅
      exact ⟨h.cfg, h.state, h.current, h.history⟩
    cases o with
    | recovered =>
        have hid : t₅.attempt.idOk = t₄.attempt.idOk := by rw [hr₅.attempt]
        have hstarted : t₅.attempt.started = t₄.attempt.started := by rw [hr₅.attempt]
        refine ⟨h₅, .inl ⟨rfl, (congrArg _ hr₅.writes).trans ho.1, fun hf => ?_⟩⟩
        exact proved_mono hid hstarted hr₅.counted_subset (ho.2 hf)
    | interrupted =>
        have hstop : Stopping t₅ := Stopping.rely ho hr₅
        exact ⟨h₅, hstop⟩
    | failed =>
        dsimp only
        split
        · refine wp_seq (sleep_spec (P := At a) (fun _ _ h hr => h.rely hr)
            (fun _ _ h => ⟨h.cfg, h.state, h.current, h.history⟩) h₅) ?_
          rintro go t₆ ⟨h₆, hstop, -⟩
          split
          · exact ⟨h₆, by omega⟩
          · next hg => exact ⟨h₆, hstop (Bool.eq_false_iff.mpr hg)⟩
        · exact ⟨h₅, by omega⟩
  · exact ⟨h₁, .inr rfl⟩

end Recovery

/-! ## Calibration -/

section Calibration

variable {own fresh : Prop} {a s : Service}

/-- The loop of a calibration ends, and is interrupted only by `Stop` or by the death of the
acquisition thread, which does not come back by itself. -/
theorem awaitCalibration_spec {duration now : ℕ} (h : At a s) (hnow : now ≤ s.clock) :
    (awaitCalibration (now + duration) now).wp (supervising own fresh)
      (fun interrupted t => At a t ∧
      (interrupted = true → Stopping t ∨ t.worker.failed = true)) s := by
  have hP : Kept fresh (At a) := fun _ _ h hr => h.rely hr
  refine wp_last (wp_loop_variant (fun y t => At a t ∧ y ≤ t.clock)
    (fun y => now + duration - y) ?_ ⟨h, hnow⟩ ?_)
  · rintro y t u ⟨h, hy⟩ hr -
    exact ⟨h.rely hr, hy.trans hr.clock⟩
  rintro y t ⟨h, hy⟩
  split
  · next hlt =>
    refine sup_read fun t₁ hr₁ _ => ?_
    have h₁ := h.rely hr₁
    split
    · next hfailed => exact ⟨h₁, fun _ => .inr hfailed⟩
    refine wp_seq (sleep_spec hP (fun _ _ h => ⟨h.cfg, h.state, h.current, h.history⟩) h₁) ?_
    rintro go t₂ ⟨h₂, hstop, hgo⟩
    split
    · next hg =>
      refine sup_read fun t₃ hr₃ _ => ?_
      have hc := hgo hg
      have hc₁ := hr₁.clock
      have hc₃ := hr₃.clock
      have hstep : 0 < pollStep * 5 := by decide
      exact ⟨⟨h₂.rely hr₃, Nat.le_refl _⟩, by omega⟩
    · next hg => exact ⟨h₂, fun _ => .inl (hstop (Bool.eq_false_iff.mpr hg))⟩
  · exact ⟨h, Bool.noConfusion⟩

/-- What is known when a calibration has ended. -/
def AfterCalibration (a : Service) (next : Option Event) (s : Service) : Prop :=
  At a s ∧ match next with
    | none => Stopping s ∧ s.writes.getLast? = some ⟨false, true⟩
    | some e => e = .calibrationDone ∧ s.writes.getLast? = some ⟨false, true⟩ ∨ e = .deviceError

/-- **A calibration** ends. -/
theorem runCalibration_spec (h : At a s) :
    runCalibration.wp (supervising own fresh) (AfterCalibration a) s := by
  have hP : Kept fresh (At a) := fun _ _ h hr => h.rely hr
  have hw : ∀ s w p, At a s → At a { s with writes := w, pipeline := p } :=
    fun _ _ _ h => ⟨h.cfg, h.state, h.current, h.history⟩
  refine wp_choose fun n => ?_
  split
  · exact ⟨h, .inr rfl⟩
  refine sup_write fun t hr ht => ⟨⟨ht.stop, ht.counted, ht.genuine⟩, rfl,
    wp_choose fun n => ?_⟩
  have h₀ : At a { t with worker := { t.worker with calibrator := true } } :=
    let hat := h.rely hr
    ⟨hat.cfg, hat.state, hat.current, hat.history⟩
  refine sup_update fun t₁ hr₁ ht₁ => ?_
  have h₁ := h₀.rely hr₁
  by_cases hn : n = 0
  · simp only [if_pos hn]
    refine ⟨⟨ht₁.stop, ht₁.counted, ht₁.genuine⟩, trivial, sup_read fun t₂ hr₂ _ => ?_⟩
    refine wp_seq (awaitCalibration_spec ((hw t₁ _ _ h₁).rely hr₂) (Nat.le_refl _)) ?_
    rintro interrupted t₃' ⟨h₃', hint'⟩
    refine sup_write fun t₃ hr₃ ht₃ => ⟨⟨ht₃.stop, ht₃.counted, ht₃.genuine⟩, rfl, ?_⟩
    have h₃ := h₃'.rely hr₃
    have hint := fun hi => (hint' hi).imp (·.rely hr₃) hr₃.failed
    -- whatever interrupted it holds until the end
    let P : Service → Prop := fun t => At a t ∧
      (interrupted = true → Stopping t ∨ t.worker.failed = true)
    have hP' : Kept fresh P := fun s t hp hr =>
      ⟨hp.1.rely hr, fun hi => (hp.2 hi).imp (·.rely hr) hr.failed⟩
    refine wp_seq (writeControl_spec hP' (fun s w p hp => ⟨hw s w p hp.1, hp.2⟩)
      ⟨⟨h₃.cfg, h₃.state, h₃.current, h₃.history⟩, hint⟩) ?_
    rintro stopped t₄ ⟨hp₄, hlast⟩
    split
    · next hstopped =>
      refine sup_read fun t₅ hr₅ _ => ?_
      obtain ⟨h₅, hint₅⟩ := hP' t₄ t₅ hp₄ hr₅
      rw [← hr₅.writes, hstopped] at hlast
      split
      · exact ⟨h₅, .inr rfl⟩
      · next hfailed =>
        split
        · next hi => exact ⟨h₅, (hint₅ hi).resolve_right hfailed, hlast⟩
        · exact ⟨h₅, .inl ⟨rfl, hlast⟩⟩
    · exact ⟨hp₄.1, .inr rfl⟩
  · simp only [if_neg hn]
    exact ⟨⟨ht₁.stop, ht₁.counted, ht₁.genuine⟩, trivial,
      ⟨h₁.cfg, h₁.state, h₁.current, h₁.history⟩, .inr rfl⟩

end Calibration

/-! ## Applying an event -/

/-- The arrows of the transition table, by their target. -/
inductive Arrow : State → Event → State → Prop
  | ready : Arrow .init .initOk .ready
  | calibrated : Arrow .calibrating .calibrationDone .ready
  | running {s : State} {e : Event} (h : s = .ready ∧ e = .start ∨ s = .paused ∧ e = .resume) :
      Arrow s e .running
  | recovered : Arrow .recovering .recovered .running
  | paused : Arrow .running .pause .paused
  | calibrating {s : State} : Arrow s .calibrate .calibrating
  | recovering {s : State} {e : Event} (h : e = .stall ∨ e = .reset) : Arrow s e .recovering
  | fault {s : State} {e : Event} (h : e = .deviceError ∨ e = .recoveryFailed) : Arrow s e .fault
  | stopped {s : State} : Arrow s .stop .stopped

theorem arrow_of_transition {s t : State} {e : Event} (h : transition s e = some t) :
    Arrow s e t := by
  cases s <;> cases e <;> cases h
  case recovering.recovered => exact .recovered
  case ready.start => exact .running (.inl ⟨rfl, rfl⟩)
  case paused.resume => exact .running (.inr ⟨rfl, rfl⟩)
  case running.stall => exact .recovering (.inl rfl)
  case fault.reset => exact .recovering (.inr rfl)
  case ready.deviceError => exact .fault (.inl rfl)
  case running.deviceError => exact .fault (.inl rfl)
  case paused.deviceError => exact .fault (.inl rfl)
  case calibrating.deviceError => exact .fault (.inl rfl)
  case recovering.recoveryFailed => exact .fault (.inr rfl)
  all_goals constructor

/-- The last write to `control` is what the state says.  Recovery writes both values. -/
def Agree (s : Service) : Prop :=
  match s.state with
  | .running => s.writes.getLast? = some ⟨true, true⟩
  | .recovering => True
  | _ => ∀ w ∈ s.writes.getLast?, w.value = false

/-- A procedure that has not ended by itself has been interrupted by `Stop`. -/
def Rest (s : Service) : Prop :=
  s.state = .recovering ∨ s.state = .calibrating → .stop ∈ s.queue

/-- Recovery has ended in `Running` only after it had shown that the device works. -/
def Sound (s : Service) : Prop :=
  ∀ e ∈ s.history, e.source = .recovering → e.target = .running → e.proved = true

/-- The follow-up events, and what is known when `apply` goes on with one. -/
inductive Follow (fresh : Prop) : Event → Service → Prop
  | deviceError {s : Service} (h : transition s.state .deviceError = some .fault) :
      Follow fresh .deviceError s
  | recovered {s : Service} (state : s.state = .recovering)
      (last : s.writes.getLast? = some ⟨true, true⟩) (shown : fresh → proved s = true) :
      Follow fresh .recovered s
  | recoveryFailed {s : Service} (state : s.state = .recovering) : Follow fresh .recoveryFailed s
  | calibrationDone {s : Service} (state : s.state = .calibrating)
      (last : s.writes.getLast? = some ⟨false, true⟩) : Follow fresh .calibrationDone s

/-- No procedure is in progress.  The agreement with the device and the soundness of recovery
depend on `own`: nobody but recovery posts `Recovered`. -/
structure Settled (own fresh : Prop) (s : Service) : Prop where
  agree : own → Agree s
  rest : Rest s
  sound : own → fresh → Sound s

/-- The supervisor is between two events. -/
structure Applied (own fresh : Prop) (s : Service) : Prop extends Settled own fresh s where
  stopped : s.current = some .stop → s.state = .stopped
  ended : s.state = .stopped → ∃ ok, s.writes.getLast? = some ⟨false, ok⟩

section Apply

variable {own fresh : Prop} {s t : Service} {e : Event}

theorem Agree.rely (h : Agree s) (hr : Others fresh s t) : Agree t := by
  unfold Agree at *
  rwa [hr.state, hr.writes]

theorem Rest.rely (h : Rest s) (hr : Others fresh s t) : Rest t := by
  intro hst
  rw [hr.state] at hst
  exact hr.queue (h hst)

theorem Settled.rely (h : Settled own fresh s) (hr : Others fresh s t) :
    Settled own fresh t := by
  refine ⟨fun ha => (h.agree ha).rely hr, h.rest.rely hr, fun ha hf => ?_⟩
  unfold Sound
  rw [hr.history]
  exact h.sound ha hf

theorem Follow.rely (h : Follow fresh e s) (hr : Others fresh s t) : Follow fresh e t := by
  cases h with
  | deviceError h => exact .deviceError (hr.state.symm ▸ h)
  | recovered state last shown =>
      refine .recovered (hr.state.trans state) ((congrArg _ hr.writes).trans last) fun hf => ?_
      exact proved_mono (congrArg _ hr.attempt) (congrArg _ hr.attempt) hr.counted_subset (shown hf)
  | recoveryFailed state => exact .recoveryFailed (hr.state.trans state)
  | calibrationDone state last =>
      exact .calibrationDone (hr.state.trans state) ((congrArg _ hr.writes).trans last)

theorem Applied.rely (h : Applied own fresh s) (hr : Others fresh s t) : Applied own fresh t := by
  refine ⟨h.toSettled.rely hr, fun hc => ?_, fun hs => ?_⟩
  · rw [hr.current] at hc
    exact hr.state.trans (h.stopped hc)
  · rw [hr.state] at hs
    rw [hr.writes]
    exact h.ended hs

/-- What is known when `enter` has ended. -/
def Entered (own fresh : Prop) (target : State) (next : Option Event) (s : Service) : Prop :=
  match next with
  | none => Applied own fresh s
  | some e => Follow fresh e s ∧ (own → fresh → Sound s) ∧ s.current ≠ some .stop ∧
      (target = .recovering ∨ target = .calibrating)

/-- The end of a procedure that has been interrupted. -/
theorem Applied.of_stopping (hstate : s.state ≠ .stopped) (hcurrent : s.current ≠ some .stop)
    (hstop : Stopping s) (hagree : own → Agree s) (hsound : own → fresh → Sound s) :
    Applied own fresh s := by
  refine ⟨⟨hagree, fun _ => ?_, hsound⟩, fun hc => absurd hc hcurrent, fun hs => absurd hs hstate⟩
  rcases hstop with hq | hc | hs
  · exact hq
  · exact absurd hc hcurrent
  · exact absurd hs hstate

/-- `enter`, once the state has been published. -/
theorem enter_spec {target : State} (hstate : s.state = target)
    (hagree : own → target = .fault ∨ target = .calibrating ∨ Agree s)
    (hsound : own → fresh → Sound s)
    (hcurrent : s.current = some .stop → target = .stopped)
    (hended : target = .stopped → ∃ ok, s.writes.getLast? = some ⟨false, ok⟩) :
    (enter target).wp (supervising own fresh) (Entered own fresh target) s := by
  have hkeep : ∀ {u : Service}, At s u → own → fresh → Sound u := fun h ha hf => by
    unfold Sound
    rw [h.history]
    exact hsound ha hf
  have hself : At s s := ⟨rfl, rfl, rfl, rfl⟩
  -- the states with nothing left to do
  have hdone : target ≠ .fault → target ≠ .calibrating → target ≠ .recovering →
      Entered own fresh target none s := by
    intro hf hc hr
    refine ⟨⟨fun ha => ((hagree ha).resolve_left hf).resolve_left hc, ?_, hsound⟩,
      fun hcur => hstate.trans (hcurrent hcur), fun hs => hended (hstate.symm.trans hs)⟩
    rw [Rest, hstate]
    rintro (h | h)
    · exact absurd h hr
    · exact absurd h hc
  cases target with
  | recovering =>
      refine wp_mono (runRecovery_spec hself) ?_
      rintro (_ | e) u ⟨hu, hnext⟩
      · have hust : u.state = .recovering := hu.state.trans hstate
        refine Applied.of_stopping (by rw [hust]; decide) ?_ hnext (fun _ => ?_) (hkeep hu)
        · rw [hu.current]
          exact fun h => nomatch hcurrent h
        · unfold Agree
          rw [hust]
          trivial
      · have hcur : u.current ≠ some .stop := by
          rw [hu.current]
          exact fun h => nomatch hcurrent h
        rcases hnext with ⟨rfl, hlast, hproved⟩ | rfl
        · exact ⟨.recovered (hu.state.trans hstate) hlast hproved, hkeep hu, hcur, .inl rfl⟩
        · exact ⟨.recoveryFailed (hu.state.trans hstate), hkeep hu, hcur, .inl rfl⟩
  | calibrating =>
      refine wp_mono (runCalibration_spec hself) ?_
      rintro (_ | e) u ⟨hu, hnext⟩
      · have hust : u.state = .calibrating := hu.state.trans hstate
        refine Applied.of_stopping (by rw [hust]; decide) ?_ hnext.1 (fun _ => ?_) (hkeep hu)
        · rw [hu.current]
          exact fun h => nomatch hcurrent h
        · unfold Agree
          rw [hust]
          intro w hw
          rw [hnext.2] at hw
          cases hw
          rfl
      · have hcur : u.current ≠ some .stop := by
          rw [hu.current]
          exact fun h => nomatch hcurrent h
        have hust : u.state = .calibrating := hu.state.trans hstate
        rcases hnext with ⟨rfl, hlast⟩ | rfl
        · exact ⟨.calibrationDone hust hlast, hkeep hu, hcur, .inr rfl⟩
        · exact ⟨.deviceError (by rw [hust]; rfl), hkeep hu, hcur, .inr rfl⟩
  | fault =>
      have hP : Kept fresh (At s) := fun _ _ h hr => h.rely hr
      have hw : ∀ t w p, At s t → At s { t with writes := w, pipeline := p } :=
        fun _ _ _ h => ⟨h.cfg, h.state, h.current, h.history⟩
      refine wp_seq (wp_seq (writeControl_spec hP hw hself) ?_) fun _ _ h => h
      rintro ok t₁ ⟨h₁, hlast⟩
      refine sup_write fun t₂ hr₂ ht₂ => ⟨⟨ht₂.stop, ht₂.counted, ht₂.genuine⟩, rfl, ?_⟩
      have h₂ := h₁.rely hr₂
      have hst₂ : t₂.state = .fault := h₂.state.trans hstate
      refine ⟨⟨fun _ => ?_, ?_, hkeep (u := t₂) h₂⟩, fun hc => ?_, fun hs => ?_⟩
      · show Agree t₂
        unfold Agree
        rw [hst₂, hr₂.writes, hlast]
        intro w hw
        cases hw
        rfl
      · show Rest t₂
        rw [Rest, hst₂]
        rintro (h | h)
        · cases h
        · cases h
      · exact nomatch hcurrent (h₂.current.symm.trans hc)
      · exact nomatch hst₂.symm.trans hs
  | init => exact hdone (by decide) (by decide) (by decide)
  | ready => exact hdone (by decide) (by decide) (by decide)
  | running => exact hdone (by decide) (by decide) (by decide)
  | paused => exact hdone (by decide) (by decide) (by decide)
  | stopped => exact hdone (by decide) (by decide) (by decide)

/-- The state and what an attempt has shown are as in `a`. -/
structure Still (a s : Service) : Prop where
  at_ : At a s
  attempt : s.attempt = a.attempt
  counted : a.counted ⊆ s.counted

theorem Still.rely {a : Service} (h : Still a s) (hr : Others fresh s t) : Still a t :=
  ⟨h.at_.rely hr, hr.attempt.trans h.attempt, fun _ he => hr.counted_subset (h.counted he)⟩

/-- What `prepare` leaves in `control`, if it does not throw. -/
def Prepared (a : Service) (target source : State) (writes : List ControlWrite) : Prop :=
  match target with
  | .running =>
      if source = .ready ∨ source = .paused then writes.getLast? = some ⟨true, true⟩
      else writes = a.writes
  | .paused => writes.getLast? = some ⟨false, true⟩
  | .stopped => ∃ ok, writes.getLast? = some ⟨false, ok⟩
  | _ => writes = a.writes

/-- `prepare` throws only on the way to `Running` or `Paused`. -/
theorem prepare_spec {target source : State} :
    (prepare target source).wp (supervising own fresh) (fun ok t => Still s t ∧
      (ok = true → Prepared s target source t.writes) ∧ (ok = false → target = .paused ∨
        target = .running ∧ (source = .ready ∨ source = .paused))) s := by
  have hself : Still s s := ⟨⟨rfl, rfl, rfl, rfl⟩, rfl, List.Subset.refl _⟩
  have hP : Kept fresh (Still s) := fun _ _ h hr => h.rely hr
  have hw : ∀ t w p, Still s t → Still s { t with writes := w, pipeline := p } :=
    fun _ _ _ h => ⟨⟨h.at_.cfg, h.at_.state, h.at_.current, h.at_.history⟩, h.attempt, h.counted⟩
  cases target with
  | running =>
      show Prog.wp _ (if source = .ready ∨ source = .paused then writeControl true
        else return true) _ _
      split
      · next hsource =>
        refine wp_mono (writeControl_spec hP hw hself) ?_
        rintro ok t ⟨ht, hlast⟩
        refine ⟨ht, fun hok => ?_, fun _ => .inr ⟨rfl, hsource⟩⟩
        rw [Prepared, if_pos hsource, hlast, hok]
      · next hsource =>
        refine ⟨hself, fun _ => ?_, Bool.noConfusion⟩
        rw [Prepared, if_neg hsource]
  | paused =>
      refine wp_mono (writeControl_spec hP hw hself) ?_
      rintro ok t ⟨ht, hlast⟩
      refine ⟨ht, fun hok => ?_, fun _ => .inl rfl⟩
      rw [Prepared, hlast, hok]
  | stopped =>
      refine wp_seq (writeControl_spec hP hw hself) ?_
      rintro ok t ⟨ht, hlast⟩
      exact ⟨ht, fun _ => ⟨ok, hlast⟩, Bool.noConfusion⟩
  | init => exact ⟨hself, fun _ => rfl, Bool.noConfusion⟩
  | ready => exact ⟨hself, fun _ => rfl, Bool.noConfusion⟩
  | calibrating => exact ⟨hself, fun _ => rfl, Bool.noConfusion⟩
  | recovering => exact ⟨hself, fun _ => rfl, Bool.noConfusion⟩
  | fault => exact ⟨hself, fun _ => rfl, Bool.noConfusion⟩

/-- `run` has taken `e` from the queue. -/
structure Queued (own : Prop) (e : Event) (s : Service) : Prop where
  agree : own → Agree s
  rest : e ≠ .stop → Rest s
  genuine : own → e ≠ .recovered

/-- `apply` is about to apply `e`: the event of the queue, or a follow-up. -/
structure Pending (own fresh : Prop) (e : Event) (s : Service) : Prop where
  alive : s.state ≠ .stopped
  sound : own → fresh → Sound s
  current : s.current = some .stop → e = .stop
  cause : Queued own e s ∨ Follow fresh e s

theorem Pending.rely (h : Pending own fresh e s) (hr : Others fresh s t) :
    Pending own fresh e t := by
  refine ⟨hr.state.symm ▸ h.alive, fun ho hf => ?_,
    fun hc => h.current (hr.current.symm.trans hc), ?_⟩
  · unfold Sound
    rw [hr.history]
    exact h.sound ho hf
  · exact h.cause.imp (fun hq => ⟨fun ho => (hq.agree ho).rely hr, fun he => (hq.rest he).rely hr,
      hq.genuine⟩) fun hf => hf.rely hr

/-- A follow-up event is never dropped. -/
theorem Follow.transition_ne (h : Follow fresh e s) : transition s.state e ≠ none := by
  cases h with
  | deviceError h =>
      rw [h]
      exact Option.some_ne_none _
  | recovered state =>
      rw [state]
      decide
  | recoveryFailed state =>
      rw [state]
      decide
  | calibrationDone state =>
      rw [state]
      decide

theorem Follow.alive (h : Follow fresh e s) : s.state ≠ .stopped := by
  intro hs
  cases h with
  | deviceError h =>
      rw [hs] at h
      cases h
  | recovered state => exact nomatch hs.symm.trans state
  | recoveryFailed state => exact nomatch hs.symm.trans state
  | calibrationDone state => exact nomatch hs.symm.trans state

/-- An event of the queue may have one follow-up, a follow-up has none. -/
def followUps : Event → ℕ
  | .deviceError | .recovered | .recoveryFailed | .calibrationDone => 0
  | _ => 1

theorem Follow.followUps_eq (h : Follow fresh e s) : followUps e = 0 := by
  cases h <;> rfl

/-- The events that start a procedure. -/
theorem Arrow.procedure {source target : State} (h : Arrow source e target)
    (htarget : target = .recovering ∨ target = .calibrating) : followUps e = 1 := by
  cases h with
  | calibrating => decide
  | recovering h => rcases h with rfl | rfl <;> decide
  | ready => rcases htarget with h | h <;> cases h
  | calibrated => rcases htarget with h | h <;> cases h
  | running => rcases htarget with h | h <;> cases h
  | recovered => rcases htarget with h | h <;> cases h
  | paused => rcases htarget with h | h <;> cases h
  | fault => rcases htarget with h | h <;> cases h
  | stopped => rcases htarget with h | h <;> cases h

/-- `Stop` leads to `Stopped`. -/
theorem Arrow.of_stop {source target : State} (h : Arrow source e target) (he : e = .stop) :
    target = .stopped := by
  subst he
  cases h with
  | stopped => rfl
  | running h => rcases h with ⟨-, h⟩ | ⟨-, h⟩ <;> cases h
  | recovering h => rcases h with h | h <;> cases h
  | fault h => rcases h with h | h <;> cases h

/-- The events on which `prepare` may throw. -/
theorem Arrow.refusable {source target : State} (h : Arrow source e target)
    (htarget : target = .paused ∨ target = .running ∧ (source = .ready ∨ source = .paused)) :
    transition source .deviceError = some .fault ∧ followUps e = 1 ∧ e ≠ .stop := by
  rcases htarget with rfl | ⟨rfl, hsource⟩
  · cases h with
    | paused => decide
  · cases h with
    | running h => rcases h with ⟨rfl, rfl⟩ | ⟨rfl, rfl⟩ <;> decide
    | recovered => rcases hsource with h | h <;> cases h

/-- The device agrees with the state that `prepare` has prepared. -/
theorem Pending.agree {target : State} (h : Pending own fresh e s) (ho : own)
    (harrow : Arrow s.state e target) (hp : Prepared s target s.state t.writes)
    (ht : t.state = target) : target = .fault ∨ target = .calibrating ∨ Agree t := by
  -- what `Queued` or `Follow` says about the last write when `prepare` writes nothing
  have hqueued : (∀ s', ¬ Follow fresh e s') → Agree s := fun hno =>
    (h.cause.resolve_right (hno s)).agree ho
  generalize hs : s.state = source at harrow hp
  cases harrow with
  | ready =>
      refine .inr (.inr ?_)
      have hagree := hqueued fun s' hf => nomatch hf
      rw [Agree, hs] at hagree
      rw [Agree, ht, show t.writes = s.writes from hp]
      exact hagree
  | calibrated =>
      refine .inr (.inr ?_)
      rw [Agree, ht, show t.writes = s.writes from hp]
      rcases h.cause with hq | hf
      · have hagree := hq.agree ho
        rwa [Agree, hs] at hagree
      · cases hf with
        | calibrationDone _ last =>
            rw [last]
            intro w hw
            cases hw
            rfl
  | running hsource =>
      refine .inr (.inr ?_)
      have hor : source = .ready ∨ source = .paused := hsource.imp And.left And.left
      rw [Prepared, if_pos hor] at hp
      rw [Agree, ht]
      exact hp
  | recovered =>
      refine .inr (.inr ?_)
      rw [Agree, ht, show t.writes = s.writes from hp]
      rcases h.cause with hq | hf
      · exact absurd rfl (hq.genuine ho)
      · cases hf with
        | recovered _ last => exact last
  | paused =>
      refine .inr (.inr ?_)
      rw [Agree, ht]
      intro w hw
      rw [show t.writes.getLast? = _ from hp] at hw
      cases hw
      rfl
  | calibrating => exact .inr (.inl rfl)
  | recovering =>
      refine .inr (.inr ?_)
      rw [Agree, ht]
      trivial
  | fault => exact .inl rfl
  | stopped =>
      refine .inr (.inr ?_)
      obtain ⟨ok, hlast⟩ := hp
      rw [Agree, ht]
      intro w hw
      rw [hlast] at hw
      cases hw
      rfl

/-- `Running` is published only after a `control=1` that has not thrown. -/
theorem Pending.published {target : State} (h : Pending own fresh e s) (ho : own)
    (harrow : Arrow s.state e target) (hp : Prepared s target s.state t.writes)
    (htarget : target = .running) : t.writes.getLast? = some ⟨true, true⟩ := by
  subst htarget
  have hagree := h.agree (t := { t with state := .running }) ho harrow hp rfl
  exact (hagree.resolve_left State.noConfusion).resolve_left State.noConfusion

/-- The transition that is added to the history is sound. -/
theorem Pending.sound_concat {target : State} {a : Service} (h : Pending own fresh e a) (ho : own)
    (hf : fresh) (harrow : Arrow a.state e target) (hstill : Still a s) :
    ∀ en ∈ s.history ++ [⟨a.state, target, e, proved s⟩], en.source = .recovering →
      en.target = .running → en.proved = true := by
  intro en hen hsource htarget
  rcases List.mem_append.mp hen with hen | hen
  · rw [hstill.at_.history] at hen
    exact h.sound ho hf en hen hsource htarget
  · rw [List.mem_singleton.mp hen] at hsource htarget ⊢
    dsimp only at hsource htarget
    rw [hsource, htarget] at harrow
    have hrec : e = .recovered := by
      cases harrow with
      | running hs =>
          rcases hs with ⟨hs, -⟩ | ⟨hs, -⟩
          · cases hs
          · cases hs
      | recovered => rfl
    subst hrec
    rcases h.cause with hq | hfollow
    · exact absurd rfl (hq.genuine ho)
    · cases hfollow with
      | recovered _ _ shown =>
          exact proved_mono (congrArg _ hstill.attempt) (congrArg _ hstill.attempt)
            hstill.counted (shown hf)

/-- One round of `apply`. -/
theorem applyRound_spec (h : Pending own fresh e s) :
    (applyRound e).wp (supervising own fresh) (fun r t => match r with
      | .inl e' => Pending own fresh e' t ∧ followUps e' < followUps e
      | .inr () => Applied own fresh t) s := by
  refine sup_read fun t₁ hr₁ _ => ?_
  have h₁ := h.rely hr₁
  cases htr : transition t₁.state e with
  | none =>
      have hq := h₁.cause.resolve_right fun hf => hf.transition_ne htr
      have hne : e ≠ .stop := by
        rintro rfl
        exact absurd ((transition_stop h₁.alive).symm.trans htr) (Option.some_ne_none _)
      exact ⟨⟨hq.agree, hq.rest hne, h₁.sound⟩, fun hc => absurd (h₁.current hc) hne,
        fun hs => absurd hs h₁.alive⟩
  | some target =>
      have harrow := arrow_of_transition htr
      refine wp_seq prepare_spec ?_
      rintro ok t₂ ⟨h₂, hok, hthrown⟩
      split
      · next hprepared =>
        refine wp_write fun t₃ hr₃ ht₃ _ => ?_
        have h₃ := h₂.rely hr₃
        have hp := hok hprepared
        rw [← hr₃.writes] at hp
        refine ⟨⟨fun hstop => ?_, ht₃.counted, ht₃.genuine⟩, fun ho _ htarget => ?_, ?_⟩
        · rcases ht₃.stop hstop with hq | hc | hst
          · exact .inl hq
          · exact .inr (.inl hc)
          · rw [hr₃.state, h₂.at_.state] at hst
            rw [hst] at htr
            cases e <;> cases htr
        · exact h₁.published ho harrow hp htarget
        refine wp_seq (enter_spec rfl (fun ho => h₁.agree ho harrow hp rfl)
          (fun ho hf => h₁.sound_concat ho hf harrow h₃) (fun hc => ?_) fun htarget => ?_) ?_
        · have he := h₁.current (h₃.at_.current.symm.trans hc)
          exact harrow.of_stop he
        · subst htarget
          exact hp
        · rintro (_ | e') t₄ h₄
          · exact h₄
          · obtain ⟨hfollow, hsound, hcur, htarget⟩ := h₄
            refine ⟨⟨hfollow.alive, hsound, fun hc => absurd hc hcur, .inr hfollow⟩, ?_⟩
            rw [hfollow.followUps_eq, harrow.procedure htarget]
            decide
      · next hfailed =>
        -- the device has refused: `DeviceError`, in the state before
        have hsound : own → fresh → Sound t₂ := by
          intro ho hf
          unfold Sound
          rw [h₂.at_.history]
          exact h₁.sound ho hf
        have hcause := harrow.refusable (hthrown (Bool.eq_false_iff.mpr hfailed))
        refine ⟨⟨h₂.at_.state.symm ▸ h₁.alive, hsound, fun hc => ?_, .inr (.deviceError ?_)⟩, ?_⟩
        · exact absurd (h₁.current (h₂.at_.current.symm.trans hc)) hcause.2.2
        · rw [h₂.at_.state]
          exact hcause.1
        · rw [hcause.2.1]
          decide

/-- **`apply` ends**, and leaves the supervisor settled. -/
theorem apply_spec (h : Pending own fresh e s) :
    (apply e).wp (supervising own fresh) (fun _ t => Applied own fresh t) s := by
  refine wp_last (wp_loop_variant (fun e t => Pending own fresh e t) followUps
    (fun e t u h hr _ => h.rely hr) h fun e t h => ?_)
  refine wp_mono (applyRound_spec h) ?_
  rintro (e' | ⟨⟩) u hu
  · exact hu
  · exact hu

end Apply

end Supervisor

end DeviceService
