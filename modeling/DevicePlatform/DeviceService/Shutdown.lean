/-
# Shutting the service down

`shutdown_completes` says that the order of the signal thread is right: wherever the threads are
when the signal comes, and whatever the device does, every fair run comes to its end, with the
supervisor in `Stopped`, every sample that the buffer took popped, and no thread left.  The main
thread is the last to end.
-/
import DevicePlatform.DeviceService.DaemonStops

namespace DeviceService

namespace Daemon

variable {cap : ℕ}

section Fair

open Machine

variable {x : ℕ → Daemon} {a : ℕ → DaemonStep}

/-! ## The main thread ends -/

/-- How far the main thread is from the end of its loop, if no sample is pushed any more. -/
def mainRank (x : Daemon) : ℕ :=
  match x.main with
  | .looping => 3 * x.ring.ring.count + 3
  | .inPop =>
      match x.ring.consumer with
      | .notifying => 3 * x.ring.ring.count + 4
      | .idle | .locking | .asleep => 3 * x.ring.ring.count + 2
  | .joining | .done => 0

/-- The others leave the main thread where it is. -/
theorem main_next {x y : Daemon} {l : DaemonStep} (h : x.RunOk) (hr : x.RingOk)
    (h7 : 7 ≤ x.signal.stage) (hl : l ≠ .main) (hn : x.next cap l = some y) :
    y.main = x.main ∧ y.ring.ring = x.ring.ring ∧ y.ring.consumer = x.ring.consumer := by
  have hawake := consumer_wake (hr.consumer (Nat.le_trans (by decide) h7))
  have hstopped : x.ring.ring.stopped = true := hr.stopped.mpr (Nat.le_trans (by decide) h7)
  cases l with
  | supervisor n =>
      exact absurd (h.joined (Nat.le_trans (by decide) h7)) (supervisorMove_of_next hn).1
  | worker n =>
      cases workerMove_of_next hn with
      | push he hpc hb =>
          have hside := pushSide_of_next he hb
          refine ⟨rfl, hside.ring hstopped, ?_⟩
          rcases hside.consumer with hc | hc
          · exact hc
          · exact hc.trans hawake
      | handle | exit | die | poll | read | pushed => exact ⟨rfl, rfl, rfl⟩
  | signal =>
      obtain rfl := signalNext_last h7 hn
      exact ⟨rfl, rfl, rfl⟩
  | main => exact absurd rfl hl
  | sigterm =>
      obtain ⟨-, rfl⟩ := sigterm_of_next hn
      exact ⟨rfl, rfl, rfl⟩
  | world e =>
      obtain ⟨-, r, -, rfl⟩ := world_of_next hn
      exact ⟨rfl, rfl, rfl⟩
  | wakeWorker =>
      cases hn
      exact ⟨rfl, rfl, rfl⟩
  | wakeMain =>
      cases hn
      exact ⟨rfl, rfl, hawake⟩

/-- The critical section of `pop`, once the buffer is stopped. -/
theorem popLock_stopped (cap : ℕ) {s : Buffering ℕ} (h : s.ring.stopped = true) :
    (s.popLock cap).consumer = .idle ∨ (s.popLock cap).consumer = .notifying ∧
      (s.popLock cap).ring.count + 1 = s.ring.count := by
  unfold Buffering.popLock RingBuffer.pop
  rw [if_pos (.inr h)]
  by_cases hempty : s.ring.count = 0
  · rw [if_pos ⟨hempty, h⟩]
    exact .inl rfl
  · rw [if_neg fun he => hempty he.1]
    exact .inr ⟨rfl, Nat.succ_pred hempty⟩

/-- The main thread gets on with its loop. -/
theorem main_acts (cap : ℕ) {x : Daemon} (hr : x.RingOk) (h7 : 7 ≤ x.signal.stage)
    (hmain : x.main = .looping ∨ x.main = .inPop) : ∃ y, x.mainNext cap = some y ∧
      y.signal = x.signal ∧ (y.main = .joining ∨
        (y.main = .looping ∨ y.main = .inPop) ∧ y.mainRank < x.mainRank) := by
  have hstopped : x.ring.ring.stopped = true := hr.stopped.mpr (Nat.le_trans (by decide) h7)
  rcases hmain with hm | hm
  · simp only [mainNext, hm, Buffering.next, hr.looping hm]
    refine ⟨_, rfl, rfl, .inr ⟨.inr rfl, ?_⟩⟩
    simp only [mainRank, hm]
    exact Nat.lt_succ_self _
  · cases hc : x.ring.consumer with
    | idle => exact absurd hc (hr.popping hm)
    | asleep => exact absurd hc (hr.consumer (Nat.le_trans (by decide) h7))
    | locking =>
        simp only [mainNext, hm, hc, Buffering.next]
        refine ⟨_, rfl, rfl, ?_⟩
        rcases popLock_stopped cap hstopped with hidle | ⟨hnotifying, hcount⟩
        · exact .inl (if_pos hidle)
        · have hbusy : (x.ring.popLock cap).consumer ≠ .idle := by
            rw [hnotifying]
            decide
          dsimp only
          rw [if_neg hbusy]
          refine .inr ⟨.inr rfl, ?_⟩
          simp only [mainRank, hm, hc, hnotifying]
          omega
    | notifying =>
        simp only [mainNext, hm, hc, Buffering.next]
        refine ⟨_, rfl, rfl, .inr ⟨.inl rfl, ?_⟩⟩
        simp only [mainRank, hm, hc]
        exact Nat.lt_succ_self _

/-- What is left in the buffer is popped. -/
theorem leads_joining (h : (daemon cap).FairRun DaemonStep.thread x a) :
    Leads x (fun s => 7 ≤ s.signal.stage) (fun s => s.main = .joining ∨ s.main = .done) := by
  have hleads : Leads x
      (fun s => 7 ≤ s.signal.stage ∧ (s.main = .looping ∨ s.main = .inPop))
      (fun s => s.main = .joining ∨ s.main = .done) := by
    refine h.variant .main mainRank ?_ ?_
    · rintro s l t hs ⟨h7, hmain⟩ hn
      obtain ⟨hrun, hring⟩ := ok_of_reach hs
      by_cases hl : l = .main
      · subst hl
        obtain ⟨t', ht', hsignal, hrank⟩ := main_acts cap hring h7 hmain
        obtain rfl : t' = t := Option.some.inj (ht'.symm.trans hn)
        rcases hrank with hj | ⟨hmain', hlt⟩
        · exact .inl (.inl hj)
        · exact .inr ⟨⟨hsignal ▸ h7, hmain'⟩, Nat.le_of_lt hlt⟩
      · obtain ⟨hm, hcount, hconsumer⟩ := main_next hrun hring h7 hl hn
        refine .inr ⟨⟨h7.trans (stage_le (Nat.le_trans (by decide) h7) hn), ?_⟩, Nat.le_of_eq ?_⟩
        · rwa [hm]
        · unfold mainRank
          rw [hm, hcount, hconsumer]
    · rintro s l hs ⟨h7, hmain⟩ hl
      obtain rfl := main_of_thread hl
      obtain ⟨t, ht, hsignal, hrank⟩ := main_acts cap (ok_of_reach hs).2 h7 hmain
      refine ⟨t, ht, ?_⟩
      rcases hrank with hj | ⟨hmain', hlt⟩
      · exact .inl (.inl hj)
      · exact .inr ⟨⟨hsignal ▸ h7, hmain'⟩, hlt⟩
  intro n h7
  cases hm : (x n).main with
  | looping => exact hleads n ⟨h7, .inl hm⟩
  | inPop => exact hleads n ⟨h7, .inr hm⟩
  | joining => exact ⟨n, Nat.le_refl n, .inl hm⟩
  | done => exact ⟨n, Nat.le_refl n, .inr hm⟩

/-- The signal thread stays where it has ended. -/
theorem done_next {x y : Daemon} {l : DaemonStep} (hsignal : x.signal = .done)
    (hn : x.next cap l = some y) : y.signal = .done := by
  by_cases hl : l = .signal
  · subst hl
    change x.signalNext cap = some y at hn
    simp only [signalNext, hsignal] at hn
    cases hn
  · exact (signal_next (by rw [hsignal]; decide) hl hn).trans hsignal

theorem leads_done (h : (daemon cap).FairRun DaemonStep.thread x a) :
    Leads x (fun s => s.signal = .done) (fun s => s.main = .done) := by
  have hact : ∀ s : Daemon, s.signal = .done → s.main = .joining →
      s.mainNext cap = some { s with main := .done } := by
    intro s hsignal hmain
    simp only [mainNext, hmain, hsignal, if_true]
  have hlast : Leads x (fun s => s.signal = .done ∧ s.main = .joining)
      (fun s => s.main = .done) := by
    refine h.ensures .main ?_ ?_
    · rintro s l t hs ⟨hsignal, hmain⟩ hn
      by_cases hl : l = .main
      · subst hl
        cases (hact s hsignal hmain).symm.trans hn
        exact .inl rfl
      · obtain ⟨hrun, hring⟩ := ok_of_reach hs
        have h7 : 7 ≤ s.signal.stage := by rw [hsignal]; decide
        exact .inr ⟨done_next hsignal hn, (main_next hrun hring h7 hl hn).1.trans hmain⟩
    · rintro s l hs ⟨hsignal, hmain⟩ hl
      obtain rfl := main_of_thread hl
      exact ⟨_, hact s hsignal hmain, rfl⟩
  intro n hsignal
  have h7 : 7 ≤ (x n).signal.stage := by rw [hsignal]; decide
  obtain ⟨m, hm, hmain⟩ := leads_joining h n h7
  have hdone : (x m).signal = .done :=
    h.keeps (P := fun s => s.signal = .done) (fun _ _ _ _ hs hn => done_next hs hn) hm hsignal
  rcases hmain with hj | hd
  · obtain ⟨k, hk, hend⟩ := hlast m ⟨hdone, hj⟩
    exact ⟨k, hm.trans hk, hend⟩
  · exact ⟨m, hm, hd⟩

end Fair

/-! ## The process ends -/

/-- The process has ended in order. -/
structure Down (cap : ℕ) (x : Daemon) : Prop where
  main : x.main = .done
  signal : x.signal = .done
  supervisor : x.run.thread.returned = true ∧ Ended x.run.svc
  worker : x.run.svc.worker.pc = .gone
  /-- Nothing that the buffer took is left in it. -/
  drained : x.ring.ring.contents cap = [] ∧ popped x.ring.history = accepted x.ring.history

/-- The main thread is the last to end. -/
theorem Down.of_done {x : Daemon} (hx : (daemon cap).Reach Machine.Always x)
    (hdone : x.main = .done) : x.Down cap := by
  obtain ⟨hrun, hring⟩ := ok_of_reach hx
  have hsignal := hring.finished hdone
  obtain ⟨hret, hstate⟩ := hrun.joined (by rw [hsignal]; decide)
  have applied := Prog.wp_returned hrun.supervised.sup.thread hret
  have hrefines := Buffering.Refines.of_reach (ring_of_reach hx)
  have hempty : x.ring.ring.contents cap = [] := by
    rw [RingBuffer.contents, (hring.ended (.inr hdone)).2]
    rfl
  refine ⟨hdone, hsignal, ⟨hret, hstate, applied.ended hstate⟩, hrun.gone hsignal, hempty, ?_⟩
  have haccepted := hrefines.run.accepted_eq
  rw [← hrefines.contents, hempty, List.append_nil] at haccepted
  exact haccepted.symm

section Fair

variable {x : ℕ → Daemon} {a : ℕ → DaemonStep}

/-- There was a time when the signal came. -/
theorem exists_received (h : (daemon cap).FairRun DaemonStep.thread x a) {n : ℕ}
    (hn : (x n).signal ≠ .waiting) : ∃ m, (x m).signal = .received := by
  induction n with
  | zero => exact absurd h.init.2.2.2.2.1 hn
  | succ n ih =>
      by_cases hwait : (x n).signal = .waiting
      · rcases h.next_or n with heq | hnext
        · rw [heq] at hn
          exact absurd hwait hn
        · by_cases hl : a n = .signal
          · -- `sigwait` has not returned
            rw [hl] at hnext
            change (x n).signalNext cap = _ at hnext
            simp only [signalNext, hwait] at hnext
            cases hnext
          · rcases signal_moves hl hnext with heq | ⟨-, hreceived⟩
            · rw [heq] at hn
              exact absurd hwait hn
            · exact ⟨n + 1, hreceived⟩
      · exact ih hwait

/-- A main thread that has ended stays so. -/
theorem main_stays {x y : Daemon} {l : DaemonStep} (hx : (daemon cap).Reach Machine.Always x)
    (hdone : x.main = .done) (hn : x.next cap l = some y) : y.main = .done := by
  by_cases hl : l = .main
  · subst hl
    change x.mainNext cap = some y at hn
    simp only [mainNext, hdone] at hn
    cases hn
  · obtain ⟨hrun, hring⟩ := ok_of_reach hx
    have h7 : 7 ≤ x.signal.stage := by rw [hring.finished hdone]; decide
    exact (main_next hrun hring h7 hl hn).1.trans hdone

/-- **The shutdown completes.**  In every fair run, once the signal has come, there is a time from
which on the process has ended in order: the supervisor has gone to `Stopped` and the last thing it
wrote to the control register was a 0, the acquisition thread, the signal thread and the main thread
have ended, and every sample that the buffer took has been popped. -/
theorem shutdown_completes (h : (daemon cap).FairRun DaemonStep.thread x a) {n : ℕ}
    (hsignal : (x n).signal ≠ .waiting) : ∃ m, ∀ k, m ≤ k → (x k).Down cap := by
  obtain ⟨n₁, hreceived⟩ := exists_received h hsignal
  obtain ⟨n₂, -, hposted, k, hcomes⟩ := leads_posted h n₁ hreceived
  obtain ⟨n₃, -, hjoining, hret⟩ := supervisor_returns h hcomes n₂ rfl hposted
  obtain ⟨n₄, -, hrequested⟩ := leads_requested h n₃ ⟨hjoining, hret⟩
  obtain ⟨m, -, hdone⟩ := ((leads_gone h).trans (leads_joined h)).trans (leads_done h) n₄ hrequested
  refine ⟨m, fun k hk => .of_done (h.reach k) ?_⟩
  exact h.keeps (P := fun s => s.main = .done) (fun _ _ _ hs hd hn => main_stays hs hd hn) hk hdone

end Fair

/-- The four threads take turns. -/
def turns (n : ℕ) : DaemonStep :=
  match n % 4 with
  | 0 => .supervisor 0
  | 1 => .worker 0
  | 2 => .signal
  | _ => .main

theorem turns_fair (i : Thread) (n : ℕ) : ∃ m, n ≤ m ∧ (turns m).thread = some i := by
  have hturn : ∀ k, k < 4 → (4 * n + k) % 4 = k := by
    intro k hk
    omega
  cases i with
  | supervisor => exact ⟨4 * n + 0, by omega, by rw [turns, hturn 0 (by decide)]; rfl⟩
  | worker => exact ⟨4 * n + 1, by omega, by rw [turns, hturn 1 (by decide)]; rfl⟩
  | signal => exact ⟨4 * n + 2, by omega, by rw [turns, hturn 2 (by decide)]; rfl⟩
  | main => exact ⟨4 * n + 3, by omega, by rw [turns, hturn 3 (by decide)]; rfl⟩

/-- The signal comes while the service is running, one sample is in a buffer of one and the
acquisition thread sleeps in `push` with the next. -/
theorem shutdown_completes_full : ∃ x a n, (daemon 1).FairRun DaemonStep.thread x a ∧
    ((x n).run.svc.state = .running ∧ (x n).ring.producer = .asleep 1 ∧
      (x n).signal = .received) ∧
    ∃ m, ∀ k, m ≤ k → (x k).Down 1 := by
  let start : Daemon := ⟨Running.start smallConfig (leftover 0) 0,
    { ring := { buf := fun _ => default } }, .looping, false, .waiting, .looping⟩
  have hinit : (daemon 1).init start := ⟨leftover_init 0, rfl, rfl, rfl, rfl, rfl⟩
  have hrun : ∃ t, (daemon 1).Run Machine.Always start
      (List.flatten [[.world (.post .initOk), .world (.post .start)],
        List.replicate 10 (.supervisor 0), [.world .sample, .world .fetch, .world .store],
        List.replicate 8 (.worker 0), [.world .sample, .world .fetch, .world .store],
        List.replicate 6 (.worker 0), [.sigterm]]) t ∧
      t.run.svc.state = .running ∧ t.ring.producer = .asleep 1 ∧ t.signal = .received :=
    Machine.exists_run_of_exec _ (by decide +kernel)
  obtain ⟨t, hr, ht⟩ := hrun
  obtain ⟨x, a, hfair, hx⟩ := Machine.exists_fairRun hinit hr turns turns_fair
  rw [← hx] at ht
  exact ⟨x, a, _, hfair, ht, shutdown_completes hfair (by rw [ht.2.2]; exact nofun)⟩

end Daemon

end DeviceService
