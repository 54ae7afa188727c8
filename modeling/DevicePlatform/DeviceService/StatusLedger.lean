/-
# What the status says has happened

`status` reports the state, the last transitions, and how often the supervisor has recovered, has
tried to, and has found a fault (`supervisor.cpp`).  All of it is kept by the thread of the
supervisor and read by the control thread under the mutex, at any moment.

* `history_linked`: at every moment the transitions that are reported lead one into the next, each
  of them is one of the table, and the last one leads to the state that is reported.
* `counters_agree`: between two events the counters are what the transitions say.  Every `Fault` is
  counted once, every recovery is counted once, and a recovery takes at least one attempt and at
  most `max_recovery_attempts` of them.

The second needs that nobody but recovery posts `Recovered`.
-/
import DevicePlatform.DeviceService.Agreement

namespace DeviceService

open Prog Supervisor

/-! ## The history -/

/-- `kHistoryLen`. -/
def historyLen : ℕ := 32

/-- What `apply` does with `history_`. -/
def pushHistory (history : List Entry) (e : Entry) : List Entry :=
  if (history ++ [e]).length > historyLen then (history ++ [e]).tail else history ++ [e]

/-- `history_` after the transitions `l`. -/
def reported (l : List Entry) : List Entry := l.foldl pushHistory []

/-- The transitions `l` are in the table, and lead from `q` to `r`. -/
def Linked (q : State) : List Entry → State → Prop
  | [], r => r = q
  | e :: l, r => e.source = q ∧ transition e.source e.event = some e.target ∧ Linked e.target l r

section History

variable {q r t : State} {l : List Entry} {e : Event}

/-- The last transitions are reported. -/
theorem reported_eq_drop (l : List Entry) : reported l = l.drop (l.length - historyLen) := by
  induction l using List.reverseRecOn with
  | nil => rfl
  | append_singleton l e ih =>
      rw [reported, List.foldl_append, List.foldl_cons, List.foldl_nil]
      change pushHistory (reported l) e = _
      rw [ih, pushHistory, List.length_append, List.length_append, List.length_drop,
        List.length_singleton]
      unfold historyLen
      split
      · rw [← List.drop_one, List.drop_append_of_le_length (by rw [List.length_drop]; omega),
          List.drop_drop, List.drop_append_of_le_length (by omega)]
        congr 2
        omega
      · rw [List.drop_append_of_le_length (by omega)]
        congr 2
        omega

theorem Linked.concat {p : Bool} (h : Linked q l r) (he : transition r e = some t) :
    Linked q (l ++ [⟨r, t, e, p⟩]) t := by
  induction l generalizing q with
  | nil =>
      obtain rfl : r = q := h
      exact ⟨rfl, he, rfl⟩
  | cons e' l ih => exact ⟨h.1, h.2.1, ih h.2.2⟩

theorem Linked.drop (h : Linked q l r) (n : ℕ) :
    ∃ q', Linked q' (l.drop n) r ∧ (n = 0 → q' = q) := by
  induction n generalizing q l with
  | zero => exact ⟨q, h, fun _ => rfl⟩
  | succ n ih =>
      cases l with
      | nil => exact ⟨q, h, nofun⟩
      | cons e l =>
          obtain ⟨q', hq', -⟩ := ih h.2.2
          exact ⟨q', hq', nofun⟩

end History

/-! ## The book -/

/-- What only the thread of the supervisor changes. -/
structure Book where
  state : State
  history : List Entry
  faults : ℕ
  recoveries : ℕ
  recoveryAttempts : ℕ
  /-- `max_recovery_attempts`. -/
  limit : ℕ

def Service.book (s : Service) : Book :=
  ⟨s.state, s.history, s.faults, s.recoveries, s.recoveryAttempts, s.cfg.maxRecoveryAttempts⟩

/-- The counters are what the history says, but for `owed` recoveries that are not in it yet. -/
structure Balanced (b : Book) (owed : ℕ) : Prop where
  faults : b.faults = b.history.countP (·.target = .fault)
  recoveries : b.recoveries = b.history.countP (·.event = .recovered) + owed
  tried : b.recoveries ≤ b.recoveryAttempts
  bounded : b.recoveryAttempts ≤ b.limit * b.history.countP (·.target = .recovering)

/-- The history is linked.  If `own`, nobody has posted `Recovered`. -/
structure Kempt (own : Prop) (s : Service) : Prop where
  linked : Linked .init s.book.history s.book.state
  genuine : own → .recovered ∉ s.queue

/-- The others leave the book alone. -/
def bookkeeping (own : Prop) : Protocol Service where
  inv := Kempt own
  rely s t := t.book = s.book
  guar _ _ := True
  assumed _ := True
  total := False
  rely_refl _ := rfl
  rely_trans h h' := h'.trans h
  guar_refl _ := trivial

/-- A step that leaves the book alone. -/
structure Quiet (s t : Service) : Prop where
  book : t.book = s.book
  queue : t.queue = s.queue

section Procedures

variable {own : Prop} {s : Service} {b : Book} {α : Type}

theorem wp_quiet {p : Prog Service α} (h : p.Within Quiet) (hs : s.book = b) :
    p.wp (bookkeeping own) (fun _ t => t.book = b) s := by
  have hpartial : ¬ (bookkeeping own).total := id
  refine wp_of_within (fun t => t.book = b) hpartial h ?_ ?_ hs
  · intro t u ht hi hq
    refine ⟨hq.book.trans ht, ⟨?_, ?_⟩, trivial⟩
    · rw [hq.book]
      exact hi.linked
    · rw [hq.queue]
      exact hi.genuine
  · intro t u ht hr _
    exact hr.trans ht

theorem writeControl_quiet (v : Bool) : (writeControl v).Within Quiet := by
  refine within_choose fun n => within_last (within_update (fun s => .inr ?_)
    fun _ => trivial)
  split <;> exact ⟨rfl, rfl⟩

theorem sleep_quiet (ms : ℕ) : (sleepUnlessStopping ms).Within Quiet := by
  refine within_choose fun n => within_last (within_update (fun s => .inr ?_)
    fun _ => trivial)
  split <;> exact ⟨rfl, rfl⟩

theorem awaitCalibration_quiet (deadline now : ℕ) :
    (awaitCalibration deadline now).Within Quiet := by
  refine within_repeat fun now => ?_
  split
  · refine within_read fun failed => ?_
    split
    · trivial
    refine within_seq (sleep_quiet _) fun go => ?_
    split
    · exact within_read fun _ => trivial
    · trivial
  · trivial

theorem restartWorker_quiet : restartWorker.Within Quiet := by
  refine within_read fun failed => ?_
  split
  · refine within_choose fun n => ?_
    split
    · exact within_write (fun _ => .inr ⟨rfl, rfl⟩) trivial
    · trivial
  · trivial

theorem prepare_quiet (target source : State) : (prepare target source).Within Quiet := by
  cases target with
  | running =>
      unfold prepare
      dsimp only
      split
      · exact writeControl_quiet _
      · trivial
  | paused => exact writeControl_quiet _
  | stopped => exact within_seq (writeControl_quiet _) fun _ => trivial
  | init | ready | calibrating | recovering | fault => trivial

/-! ### Recovery -/

/-- The book after an attempt. -/
def Book.attempted (b : Book) (o : Supervisor.Outcome) : Book :=
  if o = .recovered then { b with recoveries := b.recoveries + 1 } else b

theorem awaitSamples_book {before deadline now : ℕ} (hs : s.book = b) :
    (awaitSamples before deadline now).wp (bookkeeping own)
      (fun o t => t.book = b.attempted o) s := by
  refine wp_last (wp_loop (fun _ t => t.book = b) id (fun _ _ _ h hr _ => hr.trans h) hs
    fun now t ht => ?_)
  split
  · refine wp_read fun u hr hi => ?_
    have hu : u.book = b := hr.trans ht
    split
    · refine wp_write fun v hr hi _ => ⟨⟨hi.linked, hi.genuine⟩, trivial, ?_⟩
      rw [← hu, ← show v.book = u.book from hr]
      rfl
    · refine wp_read fun v hr hi => ?_
      have hv : v.book = b := hr.trans hu
      split
      · exact hv
      · refine wp_seq (wp_quiet (sleep_quiet _) hv) fun go w hw => ?_
        split
        · exact wp_read fun _ hr _ => hr.trans hw
        · exact hw
  · exact ht

theorem softReset_book (hs : s.book = b) :
    softReset.wp (bookkeeping own) (fun o t => t.book = b.attempted o) s := by
  refine wp_update fun t hr hi _ => ⟨⟨hi.linked, hi.genuine⟩, trivial, ?_⟩
  have ht : t.book = b := hr.trans hs
  refine wp_seq (wp_quiet (writeControl_quiet _)
    (show Service.book { t with attempt := _ } = b from ht)) fun stopped u hu => ?_
  split
  · refine wp_choose fun n => wp_update fun v hr hi _ => ?_
    have hv : v.book = b := hr.trans hu
    split
    · refine ⟨⟨hi.linked, hi.genuine⟩, trivial, ?_⟩
      exact wp_read fun w hr _ => awaitSamples_book (hr.trans hv)
    · exact ⟨⟨hi.linked, hi.genuine⟩, trivial, hv⟩
  · exact hu

theorem tryRecovery_book (hs : s.book = b) :
    tryRecovery.wp (bookkeeping own) (fun o t => t.book = b.attempted o) s := by
  refine wp_seq (R := fun _ t => t.book = b) (wp_choose fun _ => hs) fun id t ht => ?_
  cases id with
  | none => exact ht
  | some id =>
      refine wp_update fun u hr hi _ => ⟨⟨hi.linked, hi.genuine⟩, trivial, ?_⟩
      have hu : u.book = b := hr.trans ht
      split
      · refine wp_seq (wp_quiet restartWorker_quiet hu) fun ready v hv => ?_
        split
        · exact softReset_book hv
        · exact hv
      · exact hu

/-- The book after `run_recovery`, with `k` attempts. -/
structure AfterAttempts (b : Book) (k : ℕ) (next : Option Event) (s : Service) : Prop where
  book : s.book = { b with
    recoveryAttempts := b.recoveryAttempts + k
    recoveries := b.recoveries + if next = some .recovered then 1 else 0 }
  bound : k ≤ b.limit
  tried : next = some .recovered → 1 ≤ k

theorem runRecovery_book (hs : s.book = b) :
    runRecovery.wp (bookkeeping own) (fun next t => ∃ k, AfterAttempts b k next t) s := by
  -- before attempt `n`, `n - 1` attempts have been made
  refine wp_last (wp_loop (fun n t => 1 ≤ n ∧ n - 1 ≤ b.limit ∧
    t.book = { b with recoveryAttempts := b.recoveryAttempts + (n - 1) }) id
    (fun _ _ _ h hr _ => ⟨h.1, h.2.1, hr.trans h.2.2⟩) ⟨Nat.le_refl _, Nat.zero_le _, hs⟩
    fun n t ht => ?_)
  obtain ⟨hn, hle, ht⟩ := ht
  refine wp_read fun u hr hi => ?_
  have hu := hr.trans ht
  have hlimit : u.cfg.maxRecoveryAttempts = b.limit := congrArg Book.limit hu
  rw [hlimit]
  split
  · rename_i hmore
    refine wp_read fun v hr hi => ?_
    have hv := hr.trans hu
    split
    · exact ⟨n - 1, hv, hle, nofun⟩
    refine wp_write fun w hr hi _ => ⟨⟨hi.linked, hi.genuine⟩, trivial, ?_⟩
    have hw := hr.trans hv
    have hstart : Service.book { w with
        recoveryAttempts := w.recoveryAttempts + 1
        attempt := ⟨false, none, false⟩ } =
        { b with recoveryAttempts := b.recoveryAttempts + n } := by
      have hcount : w.recoveryAttempts = b.recoveryAttempts + (n - 1) :=
        congrArg Book.recoveryAttempts hw
      change { w.book with recoveryAttempts := w.recoveryAttempts + 1 } = _
      rw [hw, hcount, Nat.add_assoc, Nat.sub_add_cancel hn]
    refine wp_seq (tryRecovery_book hstart) fun o x hx => ?_
    refine wp_write fun y hr hi _ => ⟨⟨hi.linked, hi.genuine⟩, trivial, ?_⟩
    have hy := hr.trans hx
    cases o with
    | recovered => exact ⟨n, hy, hmore, fun _ => hn⟩
    | interrupted => exact ⟨n, hy, hmore, nofun⟩
    | failed =>
        dsimp only
        split
        · refine wp_seq (wp_quiet (sleep_quiet _) hy) fun go z hz => ?_
          split
          · exact ⟨Nat.le_add_left .., hmore, hz⟩
          · exact ⟨n, hz, hmore, nofun⟩
        · exact ⟨Nat.le_add_left .., hmore, hy⟩
  · exact ⟨n - 1, hu, hle, nofun⟩

/-! ### Calibration -/

theorem runCalibration_book (hs : s.book = b) :
    runCalibration.wp (bookkeeping own) (fun next t => t.book = b ∧ next ≠ some .recovered) s := by
  refine wp_choose fun n => ?_
  split
  · exact ⟨hs, nofun⟩
  refine wp_write fun t hr hi _ => ⟨⟨hi.linked, hi.genuine⟩, trivial, ?_⟩
  have ht : t.book = b := hr.trans hs
  refine wp_choose fun n => wp_update fun u hr hi _ => ?_
  have hu : u.book = b := hr.trans ht
  split
  · refine ⟨⟨hi.linked, hi.genuine⟩, trivial, wp_read fun v hr _ => ?_⟩
    have hv : v.book = b := hr.trans hu
    refine wp_seq (wp_quiet (awaitCalibration_quiet _ _) hv) fun interrupted w hw => ?_
    refine wp_write fun x hr hi _ => ⟨⟨hi.linked, hi.genuine⟩, trivial, ?_⟩
    have hx : x.book = b := hr.trans hw
    refine wp_seq (wp_quiet (writeControl_quiet _) (show Service.book
      { x with worker := { x.worker with calibrator := false } } = b from hx))
      fun stopped y hy => ?_
    split
    · refine wp_read fun z hr _ => ?_
      have hz : z.book = b := hr.trans hy
      split
      · exact ⟨hz, nofun⟩
      · split <;> exact ⟨hz, nofun⟩
    · exact ⟨hy, nofun⟩
  · exact ⟨⟨hi.linked, hi.genuine⟩, trivial, hu, nofun⟩

/-! ### Applying an event -/

/-- The event `e` is to be applied.  If it is `Recovered`, the recovery is not in the history
yet. -/
structure Due (own : Prop) (e : Event) (b : Book) : Prop where
  balanced : own → Balanced b (if e = .recovered then 1 else 0)
  recovering : own → e = .recovered → b.state = .recovering

/-- What `enter` leaves to be done. -/
def Left (own : Prop) (b : Book) : Option Event → Prop
  | none => own → Balanced b 0
  | some e => Due own e b

/-- The book after a transition. -/
def Book.moved (b : Book) (en : Entry) : Book :=
  { b with state := en.target, history := b.history ++ [en] }

theorem Due.of_ne {e : Event} (he : e ≠ .recovered) (h : own → Balanced b 0) : Due own e b :=
  ⟨fun ho => by rw [if_neg he]; exact h ho, fun _ h => absurd h he⟩

theorem left_of_ne {next : Option Event} (hnext : next ≠ some .recovered)
    (h : own → Balanced b 0) : Left own b next := by
  cases next with
  | none => exact h
  | some e => exact .of_ne (fun he => hnext (congrArg some he)) h

/-- A transition has been made; what `enter` counts is not counted yet. -/
structure Entering (b : Book) : Prop where
  faults : b.faults + (if b.state = .fault then 1 else 0) = b.history.countP (·.target = .fault)
  recoveries : b.recoveries = b.history.countP (·.event = .recovered)
  tried : b.recoveries ≤ b.recoveryAttempts
  bounded : b.recoveryAttempts + (if b.state = .recovering then b.limit else 0) ≤
    b.limit * b.history.countP (·.target = .recovering)

theorem Due.entering {en : Entry} (h : Due own en.event b) (ho : own) :
    Entering (b.moved en) := by
  have hb := h.balanced ho
  refine ⟨?_, ?_, hb.tried, ?_⟩
  · show b.faults + _ = (b.history ++ [en]).countP _
    rw [List.countP_append, List.countP_singleton, hb.faults]
    by_cases htarget : en.target = .fault <;> simp [Book.moved, htarget]
  · show b.recoveries = (b.history ++ [en]).countP _
    rw [List.countP_append, List.countP_singleton, hb.recoveries]
    simp only [decide_eq_true_eq]
  · show b.recoveryAttempts + _ ≤ b.limit * (b.history ++ [en]).countP _
    rw [List.countP_append, List.countP_singleton, Nat.mul_add]
    refine Nat.add_le_add hb.bounded (Nat.le_of_eq ?_)
    by_cases htarget : en.target = .recovering <;> simp [Book.moved, htarget]

theorem Entering.balanced (h : Entering b) (hfault : b.state ≠ .fault)
    (hrec : b.state ≠ .recovering) : Balanced b 0 := by
  obtain ⟨hf, hr, ht, hb⟩ := h
  rw [if_neg hfault] at hf
  rw [if_neg hrec] at hb
  exact ⟨hf, hr, ht, hb⟩

theorem Entering.recovery {k : ℕ} {next : Option Event} {t : Service} (h : Entering b)
    (hrec : b.state = .recovering) (ht : AfterAttempts b k next t) :
    Balanced t.book (if next = some .recovered then 1 else 0) := by
  obtain ⟨hf, hr, htried, hb⟩ := h
  rw [hrec] at hf hb
  rw [ht.book]
  refine ⟨hf, ?_, ?_, ?_⟩
  · show b.recoveries + _ = b.history.countP _ + _
    rw [hr]
  · show b.recoveries + _ ≤ b.recoveryAttempts + k
    split
    · rename_i hnext
      exact Nat.add_le_add htried (ht.tried hnext)
    · omega
  · show b.recoveryAttempts + k ≤ b.limit * b.history.countP _
    exact Nat.le_trans (Nat.add_le_add_left ht.bound _) hb

theorem enter_book {target : State} (hs : s.book = b) (hstate : b.state = target)
    (h : own → Entering b) :
    (enter target).wp (bookkeeping own) (fun next t => Left own t.book next) s := by
  cases target with
  | calibrating =>
      refine wp_mono (runCalibration_book hs) ?_
      rintro next t ⟨ht, hnext⟩
      refine left_of_ne hnext fun ho => ?_
      rw [ht]
      exact (h ho).balanced (hstate ▸ nofun) (hstate ▸ nofun)
  | recovering =>
      refine wp_mono (runRecovery_book hs) ?_
      rintro next t ⟨k, ht⟩
      cases next with
      | none => exact fun ho => (h ho).recovery hstate ht
      | some e =>
          refine ⟨fun ho => ?_, fun _ _ => ?_⟩
          · have hbal := (h ho).recovery hstate ht
            simpa only [Option.some.injEq] using hbal
          · rw [ht.book]
            exact hstate
  | fault =>
      refine wp_seq (wp_seq (wp_quiet (writeControl_quiet _) hs) fun _ t ht =>
        wp_write fun u hr hi _ => ⟨⟨hi.linked, hi.genuine⟩, trivial, ?_⟩) fun _ _ h => h
      have hu : u.book = b := hr.trans ht
      intro ho
      obtain ⟨hf, hr, htried, hb⟩ := h ho
      rw [hstate] at hf hb
      rw [← hu] at hf hr htried hb
      exact ⟨hf, hr, htried, hb⟩
  | init | ready | running | paused | stopped =>
      intro ho
      rw [hs]
      exact (h ho).balanced (hstate ▸ nofun) (hstate ▸ nofun)

theorem applyRound_book {e : Event} (h : Due own e s.book) :
    (applyRound e).wp (bookkeeping own) (fun r t => match r with
      | .inl e' => Due own e' t.book
      | .inr () => own → Balanced t.book 0) s := by
  refine wp_read fun t hr hi => ?_
  have ht : Due own e t.book := by rwa [show t.book = s.book from hr]
  cases htr : transition t.state e with
  | none =>
      -- `Recovered` is not refused
      intro ho
      have hne : e ≠ .recovered := by
        rintro rfl
        have hstate : t.state = .recovering := ht.recovering ho rfl
        rw [hstate] at htr
        cases htr
      have hbal := ht.balanced ho
      rwa [if_neg hne] at hbal
  | some target =>
      have hprep : (prepare target t.state).wp (bookkeeping own)
          (fun ok u => u.book = t.book ∧ (e = .recovered → own → ok = true)) t := by
        by_cases hrec : e = .recovered ∧ own
        · obtain ⟨rfl, ho⟩ := hrec
          have hstate : t.state = .recovering := ht.recovering ho rfl
          rw [hstate] at htr ⊢
          cases htr
          exact ⟨rfl, fun _ _ => rfl⟩
        · exact wp_mono (wp_quiet (prepare_quiet _ _) rfl) fun _ u hu =>
            ⟨hu, fun he ho => absurd ⟨he, ho⟩ hrec⟩
      refine wp_seq hprep ?_
      rintro ok u ⟨hu, hok⟩
      split
      · refine wp_write fun v hr hi _ => ?_
        have hv : v.book = t.book := hr.trans hu
        have hmoved : Service.book { v with
            state := target
            history := v.history ++ [⟨t.state, target, e, proved v⟩] } =
            t.book.moved ⟨t.state, target, e, proved v⟩ := by
          rw [← hv]
          rfl
        refine ⟨⟨?_, hi.genuine⟩, trivial, ?_⟩
        · have hstate : v.book.state = t.state := congrArg Book.state hv
          exact (hstate ▸ hi.linked).concat htr
        · refine wp_seq (enter_book hmoved rfl fun ho => Due.entering ht ho)
            fun next w hw => ?_
          cases next with
          | none => exact hw
          | some e' => exact hw
      · rename_i hfail
        refine Due.of_ne nofun fun ho => ?_
        have hne : e ≠ .recovered := fun he => hfail (hok he ho)
        have hbal := ht.balanced ho
        rw [if_neg hne] at hbal
        rwa [hu]

theorem apply_book {e : Event} (h : Due own e s.book) :
    (apply e).wp (bookkeeping own) (fun _ t => own → Balanced t.book 0) s := by
  refine wp_last (wp_loop (fun e t => Due own e t.book) id ?_ h fun e t ht => ?_)
  · intro e t u ht hr _
    rwa [show u.book = t.book from hr]
  · refine wp_mono (applyRound_book ht) ?_
    rintro (e' | ⟨⟩) u hu
    · exact hu
    · exact hu

end Procedures

/-! ## The service -/

/-- The supervisor keeps its book. -/
structure Books (own : Prop) (x : Running) : Prop where
  kempt : Kempt own x.svc
  thread : x.thread.wp (bookkeeping own) (fun _ t => own → Balanced t.book 0) x.svc

section Service

variable {own : Prop} {x y : Running} {e : Happening}

/-- The others write nothing in the book. -/
theorem plant_book {s t : Service} (h : Running.plant s e = some t) :
    t.book = s.book ∧ (t.queue = s.queue ∨ ∃ event, e = .post event ∧
      t.queue = s.queue ++ [event]) := by
  unfold Running.plant at h
  cases e with
  | supervisor | dequeue | idle => cases h
  | post event =>
      cases h
      exact ⟨rfl, .inr ⟨event, rfl, rfl⟩⟩
  | tick | lose =>
      cases h
      exact ⟨rfl, .inl rfl⟩
  | sample | fetch | store | workerRead | workerCount | workerLoad | workerObserve | workerDie =>
      dsimp only at h
      split at h <;> cases h
      exact ⟨rfl, .inl rfl⟩

theorem Books.aside (h : Books own x) (hpost : own → Unforged x e) (hn : x.next e = some y)
    (he : Aside x e) : Books own y := by
  obtain ⟨hplant, hthread⟩ := next_aside he hn
  obtain ⟨hbook, hqueue⟩ := plant_book hplant
  have hkempt : Kempt own y.svc := by
    refine ⟨?_, fun ho hmem => ?_⟩
    · rw [hbook]
      exact h.kempt.linked
    · rcases hqueue with hq | ⟨event, rfl, hq⟩
      · exact h.kempt.genuine ho (hq ▸ hmem)
      · rw [hq] at hmem
        rcases List.mem_append.mp hmem with hmem | hmem
        · exact h.kempt.genuine ho hmem
        · exact hpost ho (congrArg _ (List.mem_singleton.mp hmem).symm)
  refine ⟨hkempt, ?_⟩
  rw [hthread]
  refine wp_rely (fun _ t u ht hr _ ho => ?_) h.thread hbook hkempt
  rw [show u.book = t.book from hr]
  exact ht ho

theorem Books.next (h : Books own x) (hpost : own → Unforged x e) (hn : x.next e = some y) :
    Books own y := by
  cases e with
  | supervisor n =>
      obtain ⟨⟨p, s⟩, hs, rfl⟩ := Option.map_eq_some_iff.mp hn
      obtain ⟨kempt, -, hwp⟩ := wp_step h.thread h.kempt hs trivial
      exact ⟨kempt, hwp⟩
  | dequeue =>
      dsimp only [Running.next] at hn
      split at hn
      · rename_i hidle
        have hbal := wp_returned h.thread hidle.1
        split at hn <;> cases hn
        rename_i event rest hq
        have hne : own → event ≠ .recovered := by
          rintro ho rfl
          exact h.kempt.genuine ho (hq ▸ List.mem_cons_self ..)
        refine ⟨⟨h.kempt.linked, fun ho hmem => ?_⟩, apply_book ⟨fun ho => ?_, fun ho he => ?_⟩⟩
        · exact h.kempt.genuine ho (hq ▸ List.mem_cons_of_mem _ hmem)
        · rw [if_neg (hne ho)]
          exact hbal ho
        · exact absurd he (hne ho)
      · cases hn
  | idle =>
      dsimp only [Running.next] at hn
      split at hn
      · rename_i hidle
        cases hn
        exact ⟨⟨h.kempt.linked, h.kempt.genuine⟩,
          apply_book (.of_ne nofun (wp_returned h.thread hidle.1))⟩
      · cases hn
  | post | tick | sample | fetch | store | lose | workerRead | workerCount | workerLoad
    | workerObserve | workerDie => exact h.aside hpost hn ⟨nofun, nofun, nofun⟩

theorem Books.of_reach {ok : Running → Happening → Prop}
    (hpost : own → ∀ x e, ok x e → Unforged x e) (h : deviceService.Reach ok x) :
    Books own x := by
  refine h.invariant ?_ fun _ _ _ hx hok hn => hx.next (fun ho => hpost ho _ _ hok) hn
  rintro _ ⟨cfg, p, clock, -, rfl⟩
  exact ⟨⟨rfl, fun _ => List.not_mem_nil⟩, fun _ => ⟨rfl, rfl, Nat.le_refl _, Nat.zero_le _⟩⟩

end Service

/-- **The history that is reported leads to the state that is reported.** -/
theorem history_linked {x : Running} (h : deviceService.Reach Machine.Always x) :
    (reported x.svc.history).length ≤ historyLen ∧
    ∃ q, Linked q (reported x.svc.history) x.svc.state ∧
      (x.svc.history.length ≤ historyLen → q = .init) := by
  have books : Books False x := .of_reach False.elim h
  obtain ⟨q, hq, hall⟩ := books.kempt.linked.drop (x.svc.history.length - historyLen)
  rw [reported_eq_drop]
  refine ⟨?_, q, hq, fun hle => hall (Nat.sub_eq_zero_of_le hle)⟩
  rw [List.length_drop]
  omega

/-- The service is started, and paused and resumed sixteen times: the first transitions are no
longer reported. -/
theorem history_linked_long : ∃ x, deviceService.Reach Machine.Always x ∧
    (x.svc.history.length = 34 ∧ (reported x.svc.history).length = 32) ∧
    ∃ q, Linked q (reported x.svc.history) x.svc.state := by
  have hrun : ∃ x, deviceService.Reach Machine.Always x ∧
      x.svc.history.length = 34 ∧ (reported x.svc.history).length = 32 :=
    Machine.exists_reach_of_exec
      (List.flatten ([[.post .initOk, .post .start, .dequeue], steps 3, [.dequeue], steps 5] ++
        List.replicate 16 (List.flatten [[.post .pause, .post .resume, .dequeue], steps 5,
          [.dequeue], steps 5])))
      (leftover_init 0) (by decide +kernel)
  obtain ⟨x, hx, hp⟩ := hrun
  obtain ⟨q, hq, -⟩ := (history_linked hx).2
  exact ⟨x, hx, hp, q, hq⟩

/-- **The counters are what the transitions say.** -/
theorem counters_agree {x : Running} (h : deviceService.Reach Unforged x)
    (hret : x.thread.returned = true) :
    x.svc.faults = x.svc.history.countP (·.target = .fault) ∧
    x.svc.recoveries = x.svc.history.countP (·.event = .recovered) ∧
    x.svc.recoveries ≤ x.svc.recoveryAttempts ∧
    x.svc.recoveryAttempts ≤
      x.svc.cfg.maxRecoveryAttempts * x.svc.history.countP (·.target = .recovering) := by
  have books : Books True x := .of_reach (fun _ _ _ hok => hok) h
  obtain ⟨hfaults, hrecoveries, htried, hbounded⟩ := wp_returned books.thread hret trivial
  exact ⟨hfaults, hrecoveries, htried, hbounded⟩

/-- The service recovers from a stall. -/
theorem counters_agree_stall : ∃ x, deviceService.Reach Unforged x ∧
    (x.thread.returned = true ∧ x.svc.recoveries = 1) ∧
    x.svc.history.countP (·.event = .recovered) = 1 := by
  have hrun : ∃ x, deviceService.Reach Unforged x ∧
      x.thread.returned = true ∧ x.svc.recoveries = 1 :=
    Machine.exists_reach_of_exec
      (List.flatten [[.post .initOk, .post .start, .dequeue], steps 3, [.dequeue], steps 5,
        [.post .stall, .dequeue], List.replicate 8 (.supervisor 1), steps 7,
        [.sample, .fetch, .store, .workerRead, .workerCount], steps 8])
      (leftover_init 0) (by decide +kernel)
  obtain ⟨x, hx, hp⟩ := hrun
  refine ⟨x, hx, hp, ?_⟩
  rw [← (counters_agree hx hp.1).2.1]
  exact hp.2

/-- A `Recovered` that is posted while `Stop` interrupts recovery is in the history, and is not
counted. -/
theorem recovered_not_counted : ∃ x, deviceService.Reach Machine.Always x ∧
    x.thread.returned = true ∧ x.svc.recoveries = 0 ∧
    x.svc.history.countP (·.event = .recovered) = 1 :=
  Machine.exists_reach_of_exec
    (List.flatten [[.post .initOk, .workerDie, .dequeue], steps 3, [.idle], steps 6,
      [.post .reset, .post .recovered, .post .stop, .dequeue], steps 6, [.dequeue], steps 3])
    (leftover_init 0) (by decide +kernel)

end DeviceService
