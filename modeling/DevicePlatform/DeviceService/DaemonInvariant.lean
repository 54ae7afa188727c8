/-
# The invariant of the service's threads

What the signal thread has done by each of its stages, and what follows for the other threads
(`RunOk`, `RingOk`): once the buffer is stopped and both sides are notified nobody sleeps on it, and
the supervisor has returned before the acquisition thread is told to stop.  Every step keeps this
(`ok_next`), so it holds in every run (`ok_of_reach`).
-/
import DevicePlatform.DeviceService.Daemon

namespace DeviceService

open Supervisor

/-! ## The buffer -/

section Buffer

variable {cap : ℕ} {s t : Buffering ℕ} {e : BufferEvent ℕ}

/-- What a step of `push` leaves alone; a stopped buffer takes nothing and lets nobody sleep. -/
structure PushSide (s t : Buffering ℕ) : Prop where
  stopped : t.ring.stopped = s.ring.stopped
  empty : t.stopsAtNotEmpty = s.stopsAtNotEmpty
  full : t.stopsAtNotFull = s.stopsAtNotFull
  consumer : t.consumer = s.consumer ∨ t.consumer = s.consumer.wake
  ring : s.ring.stopped = true → t.ring = s.ring
  producer : s.ring.stopped = true → (∀ item, s.producer ≠ .asleep item) →
    ∀ item, t.producer ≠ .asleep item

/-- The same for `pop`. -/
structure PopSide (s t : Buffering ℕ) : Prop where
  stopped : t.ring.stopped = s.ring.stopped
  empty : t.stopsAtNotEmpty = s.stopsAtNotEmpty
  full : t.stopsAtNotFull = s.stopsAtNotFull
  producer : t.producer = s.producer ∨ t.producer = s.producer.wake
  consumer : s.ring.stopped = true → s.consumer ≠ .asleep → t.consumer ≠ .asleep

theorem push_stopped {b : RingBuffer ℕ} {item : ℕ} (h : b.stopped = true) :
    b.push cap item = some (b, .refused item) := by
  unfold RingBuffer.push
  rw [if_pos (.inr h), if_pos h]

theorem stopped_push {b b' : RingBuffer ℕ} {item : ℕ} {c : BufferCall ℕ}
    (h : b.push cap item = some (b', c)) : b'.stopped = b.stopped := by
  unfold RingBuffer.push at h
  split_ifs at h <;> cases h <;> rfl

theorem stopped_pop {b b' : RingBuffer ℕ} {c : BufferCall ℕ} (h : b.pop cap = some (b', c)) :
    b'.stopped = b.stopped := by
  unfold RingBuffer.pop at h
  split_ifs at h <;> cases h <;> rfl

theorem pushSide_pushLock (item : ℕ) : PushSide s (s.pushLock cap item) := by
  unfold Buffering.pushLock
  by_cases hstop : s.ring.stopped = true
  · rw [push_stopped hstop]
    exact ⟨rfl, rfl, rfl, .inl rfl, fun _ => rfl, fun _ _ _ => nofun⟩
  · cases hpush : s.ring.push cap item with
    | none => exact ⟨rfl, rfl, rfl, .inl rfl, fun h => absurd h hstop, fun h => absurd h hstop⟩
    | some r =>
        obtain ⟨b, c⟩ := r
        have hb := stopped_push hpush
        cases c <;> exact ⟨hb, rfl, rfl, .inl rfl, fun h => absurd h hstop,
          fun h => absurd h hstop⟩

theorem pushSide_of_next (he : e.isPush = true) (h : s.next cap e = some t) : PushSide s t := by
  cases e with
  | push item =>
      dsimp only [Buffering.next] at h
      split at h <;> cases h
      exact ⟨rfl, rfl, rfl, .inl rfl, fun _ => rfl, fun _ _ _ => nofun⟩
  | pushLock =>
      dsimp only [Buffering.next] at h
      split at h <;> cases h
      exact pushSide_pushLock _
  | pushNotify =>
      dsimp only [Buffering.next] at h
      split at h <;> cases h
      exact ⟨rfl, rfl, rfl, .inr rfl, fun _ => rfl, fun _ _ _ => nofun⟩
  | pushWake =>
      cases h
      exact ⟨rfl, rfl, rfl, .inl rfl, fun _ => rfl, fun _ _ => ProducerPc.wake_ne_asleep _⟩
  | pop | popLock | popNotify | popWake | stop | stopNotifyNotEmpty | stopNotifyNotFull => cases he

theorem popSide_popLock : PopSide s (s.popLock cap) := by
  unfold Buffering.popLock
  cases hpop : s.ring.pop cap with
  | none =>
      refine ⟨rfl, rfl, rfl, .inl rfl, fun hstop => ?_⟩
      unfold RingBuffer.pop at hpop
      rw [if_pos (.inr hstop)] at hpop
      split_ifs at hpop
  | some r =>
      obtain ⟨b, c⟩ := r
      have hb := stopped_pop hpop
      cases c <;> exact ⟨hb, rfl, rfl, .inl rfl, fun _ _ => nofun⟩

theorem popSide_of_next (he : e.isPop = true) (h : s.next cap e = some t) : PopSide s t := by
  cases e with
  | pop =>
      dsimp only [Buffering.next] at h
      split at h <;> cases h
      exact ⟨rfl, rfl, rfl, .inl rfl, fun _ _ => nofun⟩
  | popLock =>
      dsimp only [Buffering.next] at h
      split at h <;> cases h
      exact popSide_popLock
  | popNotify =>
      dsimp only [Buffering.next] at h
      split at h <;> cases h
      exact ⟨rfl, rfl, rfl, .inr rfl, fun _ _ => nofun⟩
  | popWake =>
      cases h
      exact ⟨rfl, rfl, rfl, .inl rfl, fun _ _ => ConsumerPc.wake_ne_asleep _⟩
  | push | pushLock | pushNotify | pushWake | stop | stopNotifyNotEmpty | stopNotifyNotFull =>
      cases he

/-- `pop` returns false from a stopped and empty buffer. -/
theorem popLock_idle (h : (s.popLock cap).consumer = .idle) :
    s.ring.stopped = true ∧ (s.popLock cap).ring.count = 0 := by
  unfold Buffering.popLock at h ⊢
  cases hpop : s.ring.pop cap with
  | none =>
      rw [hpop] at h
      cases h
  | some r =>
      obtain ⟨b, c⟩ := r
      rw [hpop] at h
      unfold RingBuffer.pop at hpop
      split_ifs at hpop with hwait hempty
      · cases hpop
        exact ⟨hempty.2, hempty.1⟩
      · cases hpop
        cases h

end Buffer

/-! ## The supervisor -/

/-- What holds of the supervisor in every state. -/
structure Supervised (r : Running) : Prop where
  sup : Inv False False r
  thread : r.thread.wp marking (fun _ _ => True) r.svc
  marked : marking.inv r.svc
  queued : .stop ∈ r.svc.queue → r.svc.stopPending = true

section Supervisor

variable {r r' : Running} {e : Happening}

/-- `stop_pending_` is set with every `Stop` that is posted, and only then. -/
theorem plant_pending {e : Happening} {s t : Service} (h : Running.plant s e = some t) :
    t.stopPending = (s.stopPending || decide (e = .post .stop)) ∧
      (.stop ∈ t.queue → .stop ∈ s.queue ∨ e = .post .stop) := by
  have hother : e ≠ .post .stop → t.stopPending = s.stopPending → t.queue = s.queue →
      t.stopPending = (s.stopPending || decide (e = .post .stop)) ∧
        (.stop ∈ t.queue → .stop ∈ s.queue ∨ e = .post .stop) := by
    intro he ht hq
    rw [ht, hq, decide_eq_false he, Bool.or_false]
    exact ⟨rfl, .inl⟩
  unfold Running.plant at h
  cases e with
  | supervisor | dequeue | idle => cases h
  | post event =>
      cases h
      constructor
      · show (s.stopPending || event == .stop) = _
        by_cases he : event = .stop
        · rw [he]
          rfl
        · rw [decide_eq_false fun h => he (Happening.post.inj h), beq_eq_false_iff_ne.mpr he]
      · intro hmem
        exact (List.mem_append.mp hmem).imp_right fun h =>
          congrArg _ (List.mem_singleton.mp h).symm
  | tick | lose =>
      cases h
      exact hother nofun rfl rfl
  | sample | fetch | store | workerRead | workerCount | workerLoad | workerObserve | workerDie =>
      dsimp only at h
      split at h <;> cases h
      exact hother nofun rfl rfl

/-- The supervisor does not see the others. -/
theorem Supervised.of_others (inv : Supervised r) (hsup : Inv False False r')
    (hthread : r'.thread = r.thread) (hstate : r'.svc.state = r.svc.state)
    (hpending : r.svc.stopPending = true → r'.svc.stopPending = true)
    (hqueued : .stop ∈ r'.svc.queue → r'.svc.stopPending = true) : Supervised r' := by
  have hmarked : marking.inv r'.svc := fun hst => hpending (inv.marked (hstate ▸ hst))
  refine ⟨hsup, ?_, hmarked, hqueued⟩
  rw [hthread]
  exact Prog.wp_rely (fun _ _ _ _ _ _ => trivial) inv.thread ⟨hstate, hpending⟩ hmarked

theorem Supervised.aside (inv : Supervised r) (he : Aside r e) (h : r.next e = some r') :
    Supervised r' ∧ (r.Returned → r'.Returned) := by
  obtain ⟨hsup, hthread, hothers, -⟩ := inv.sup.aside False.elim False.elim he h
  obtain ⟨hpending, hqueue⟩ := plant_pending (next_aside he h).1
  refine ⟨inv.of_others hsup hthread hothers.state (fun hs => ?_) fun hmem => ?_,
    fun hret => ⟨hthread ▸ hret.1, hothers.state.trans hret.2⟩⟩
  · rw [hpending, hs, Bool.true_or]
  · rw [hpending, Bool.or_eq_true_iff, decide_eq_true_iff]
    exact (hqueue hmem).imp_left inv.queued

theorem Supervised.step {n : ℕ} (inv : Supervised r) (h : r.next (.supervisor n) = some r') :
    Supervised r' ∧ Spares r.svc r'.svc := by
  have hsup := inv.sup.next False.elim False.elim h
  obtain ⟨⟨p, s⟩, hs, rfl⟩ := Option.map_eq_some_iff.mp h
  obtain ⟨hmarked, hspares, hwp⟩ := Prog.wp_step inv.thread inv.marked hs trivial
  refine ⟨⟨hsup, hwp, hmarked, fun hmem => ?_⟩, hspares⟩
  have hmem : .stop ∈ r.svc.queue := hspares.queue ▸ hmem
  exact hspares.pending.trans (inv.queued hmem)

theorem Supervised.dequeue (inv : Supervised r) (h : r.next .dequeue = some r') :
    Supervised r' ∧ r'.svc.stopPending = r.svc.stopPending ∧
      r'.svc.pipeline = r.svc.pipeline ∧ r'.svc.worker = r.svc.worker := by
  have hsup := inv.sup.next False.elim False.elim h
  dsimp only [Running.next] at h
  split at h
  · split at h <;> cases h
    rename_i event rest hq
    have hqueued : ∀ e ∈ event :: rest, e = .stop → r.svc.stopPending = true := by
      rintro e hmem rfl
      exact inv.queued (hq ▸ hmem)
    exact ⟨⟨hsup, apply_marks (hqueued _ (List.mem_cons_self ..)), inv.marked,
      fun hmem => hqueued _ (List.mem_cons_of_mem _ hmem) rfl⟩, rfl, rfl, rfl⟩
  · cases h

theorem Supervised.idle (inv : Supervised r) (h : r.next .idle = some r') :
    Supervised r' ∧ r'.svc.stopPending = r.svc.stopPending ∧
      r'.svc.pipeline = r.svc.pipeline ∧ r'.svc.worker = r.svc.worker := by
  have hsup := inv.sup.next False.elim False.elim h
  dsimp only [Running.next] at h
  split at h <;> cases h
  exact ⟨⟨hsup, apply_marks nofun, inv.marked, inv.queued⟩, rfl, rfl, rfl⟩

/-- The acquisition thread ends. -/
theorem Supervised.exit (inv : Supervised r) : Supervised { r with
    svc := { r.svc with worker := { r.svc.worker with pc := .gone } } } := by
  have hsane := inv.sup.sane
  have hothers : Others False r.svc
      { r.svc with worker := { r.svc.worker with pc := .gone } } :=
    ⟨rfl, rfl, rfl, rfl, rfl, rfl, List.Subset.refl _, Nat.le_refl _, id, [],
      (List.append_nil _).symm, fun _ _ _ he => nomatch he⟩
  refine inv.of_others ⟨⟨hsane.stop, hsane.counted, hsane.genuine⟩, ?_, inv.sup.frame⟩ rfl rfl id
    inv.queued
  exact Prog.wp_rely (fun _ _ _ ha hr _ => ha.rely hr) inv.sup.thread hothers
    ⟨hsane.stop, hsane.counted, hsane.genuine⟩

/-- What comes from outside takes no sample. -/
theorem plant_world {s t : Service} (he : e.isWorld = true) (h : Running.plant s e = some t) :
    e ≠ .post .stop ∧ t.worker = s.worker ∧
      (s.pipeline.kfifo ≠ [] → t.pipeline.kfifo ≠ []) := by
  unfold Running.plant at h
  cases e with
  | post event =>
      cases h
      refine ⟨fun hstop => ?_, rfl, id⟩
      cases hstop
      cases he
  | tick | lose =>
      cases h
      exact ⟨nofun, rfl, id⟩
  | sample | fetch =>
      dsimp only at h
      split at h <;> cases h
      exact ⟨nofun, rfl, id⟩
  | store =>
      dsimp only at h
      split at h <;> cases h
      exact ⟨nofun, rfl, fun _ => List.append_ne_nil_of_right_ne_nil _ (List.cons_ne_nil _ _)⟩
  | supervisor | dequeue | idle | workerRead | workerCount | workerLoad | workerObserve
    | workerDie => cases he

/-- The acquisition thread has a sample in hand. -/
theorem plant_handling {s t : Service} (he : e.isHandling = true)
    (h : Running.plant s e = some t) :
    t.pipeline = s.pipeline ∧ s.worker.pc ≠ .waiting ∧ s.worker.pc ≠ .gone := by
  unfold Running.plant at h
  cases e with
  | workerCount | workerLoad | workerObserve =>
      dsimp only at h
      split at h <;> cases h
      rename_i hpc
      exact ⟨rfl, hpc ▸ nofun, hpc ▸ nofun⟩
  | supervisor | dequeue | idle | post | tick | sample | fetch | store | lose | workerRead
    | workerDie => cases he

theorem aside_of_world (he : e.isWorld = true) : Aside r e := by
  refine ⟨fun n hn => ?_, fun hn => ?_, fun hn => ?_⟩ <;> rw [hn] at he <;> cases he

theorem aside_of_handling (he : e.isHandling = true) : Aside r e := by
  refine ⟨fun n hn => ?_, fun hn => ?_, fun hn => ?_⟩ <;> rw [hn] at he <;> cases he

end Supervisor

/-! ## The invariant -/

namespace Daemon

/-- The supervisor and the acquisition thread. -/
structure RunOk (x : Daemon) : Prop where
  supervised : Supervised x.run
  /-- Nobody asks the supervisor to stop before the signal thread does. -/
  pending : x.signal.stage ≤ 1 → x.run.svc.stopPending = false
  joined : 3 ≤ x.signal.stage → x.run.Returned
  requested : x.stopRequested = true ↔ 7 ≤ x.signal.stage
  /-- A `read` after `wait_readable` does not block. -/
  ready : x.loop = .ready → x.run.svc.pipeline.kfifo ≠ []
  handling : x.run.svc.worker.pc = .waiting ∨ x.run.svc.worker.pc = .gone ∨
    ∃ t, x.loop = .pushing t
  gone : x.signal = .done → x.run.svc.worker.pc = .gone

/-- The buffer and the main thread. -/
structure RingOk (x : Daemon) : Prop where
  stopped : x.ring.ring.stopped = true ↔ 4 ≤ x.signal.stage
  empty : x.signal = .notifyingEmpty → x.ring.stopsAtNotEmpty ≠ 0
  full : x.signal = .notifyingFull → x.ring.stopsAtNotFull ≠ 0
  /-- Once they are notified, nobody sleeps on a stopped buffer. -/
  consumer : 5 ≤ x.signal.stage → x.ring.consumer ≠ .asleep
  producer : 6 ≤ x.signal.stage → ∀ item, x.ring.producer ≠ .asleep item
  pushing : x.loop = .inPush ∨ x.ring.producer = .idle
  looping : x.main = .looping → x.ring.consumer = .idle
  popping : x.main = .inPop → x.ring.consumer ≠ .idle
  ended : x.main = .joining ∨ x.main = .done → 4 ≤ x.signal.stage ∧ x.ring.ring.count = 0
  finished : x.main = .done → x.signal = .done

variable {cap : ℕ} {x y : Daemon}

/-! ### The supervisor and the acquisition thread -/

namespace RunOk

theorem supervisor (h : x.RunOk) (hret : ¬ x.run.Returned) (hmove : SupervisorMove x y) :
    y.RunOk := by
  have hstage : x.signal.stage < 3 := Nat.not_le.mp fun hs => hret (h.joined hs)
  have hjoined : ∀ r : Running, 3 ≤ x.signal.stage → r.Returned :=
    fun _ hs => absurd (h.joined hs) hret
  have hgone : ∀ r : Running, x.signal = .done → r.svc.worker.pc = .gone := by
    intro _ hs
    rw [hs] at hstage
    exact absurd hstage (by decide)
  -- `run` takes an event, or finds the acquisition thread dead
  have htaken : ∀ r : Running, Supervised r → r.svc.stopPending = x.run.svc.stopPending →
      r.svc.pipeline = x.run.svc.pipeline → r.svc.worker = x.run.svc.worker →
      RunOk { x with run := r } := by
    intro r hsup hpending hpipeline hworker
    refine ⟨hsup, fun hs => hpending.trans (h.pending hs), hjoined r, h.requested, fun hl => ?_,
      ?_, hgone r⟩
    · rw [hpipeline]
      exact h.ready hl
    · rw [hworker]
      exact h.handling
  cases hmove with
  | step hn =>
      obtain ⟨hsup, hspares⟩ := h.supervised.step hn
      refine ⟨hsup, fun hs => hspares.pending.trans (h.pending hs), hjoined _, h.requested,
        fun hl => ?_, ?_, hgone _⟩
      · rw [hspares.kfifo]
        exact h.ready hl
      · rcases hspares.pc with hpc | hpc
        · rw [hpc]
          exact h.handling
        · exact .inl hpc
  | dequeue hn =>
      obtain ⟨hsup, hpending, hpipeline, hworker⟩ := h.supervised.dequeue hn
      exact htaken _ hsup hpending hpipeline hworker
  | idle hn =>
      obtain ⟨hsup, hpending, hpipeline, hworker⟩ := h.supervised.idle hn
      exact htaken _ hsup hpending hpipeline hworker

/-- Something that the supervisor does not see. -/
theorem aside {e : Happening} {r : Running} {w : WorkerLoop} (h : x.RunOk)
    (he : Aside x.run e) (hpost : e ≠ .post .stop) (hn : x.run.next e = some r)
    (hready : w = .ready → r.svc.pipeline.kfifo ≠ [])
    (hhandling : r.svc.worker.pc = .waiting ∨ r.svc.worker.pc = .gone ∨ ∃ t, w = .pushing t)
    (hgone : x.run.svc.worker.pc = .gone → r.svc.worker.pc = .gone) :
    RunOk { x with run := r, loop := w } := by
  obtain ⟨hsup, hret⟩ := h.supervised.aside he hn
  refine ⟨hsup, fun hs => ?_, fun hs => hret (h.joined hs), h.requested, hready, hhandling,
    fun hs => hgone (h.gone hs)⟩
  dsimp only
  rw [(plant_pending (next_aside he hn).1).1, h.pending hs, decide_eq_false hpost]
  rfl

theorem world {e : Happening} {r : Running} (h : x.RunOk) (he : e.isWorld = true)
    (hn : x.run.next e = some r) : RunOk { x with run := r } := by
  have haside := aside_of_world (r := x.run) he
  obtain ⟨hpost, hworker, hkfifo⟩ := plant_world he (next_aside haside hn).1
  refine h.aside (w := x.loop) haside hpost hn (fun hl => hkfifo (h.ready hl)) ?_ fun hg => ?_
  · rw [hworker]
    exact h.handling
  · rw [hworker]
    exact hg

theorem worker (h : x.RunOk) (hmove : WorkerMove cap x y) : y.RunOk := by
  cases hmove with
  | @handle e r he hn =>
      have haside : Aside x.run e := aside_of_handling he
      have hpost : e ≠ .post .stop := by
        rintro rfl
        cases he
      obtain ⟨hpipeline, hwaiting, hgone⟩ := plant_handling he (next_aside haside hn).1
      refine h.aside (w := x.loop) haside hpost hn (fun hl => ?_) ?_ fun hg => absurd hg hgone
      · rw [hpipeline]
        exact h.ready hl
      · exact .inr (.inr ((h.handling.resolve_left hwaiting).resolve_left hgone))
  | exit hstop hloop =>
      have hret := h.joined (Nat.le_trans (by decide) (h.requested.mp hstop))
      refine ⟨h.supervised.exit, h.pending, fun _ => hret, h.requested, fun hl => ?_,
        .inr (.inl rfl), fun _ => rfl⟩
      cases hloop.symm.trans hl
  | die hloop hn =>
      have haside : Aside x.run .workerDie := ⟨nofun, nofun, nofun⟩
      have hgone := hn
      dsimp only [Running.next, Running.plant] at hgone
      split at hgone <;> cases hgone
      exact h.aside haside nofun hn nofun (.inr (.inl rfl)) fun _ => rfl
  | poll hloop hk =>
      refine ⟨h.supervised, h.pending, h.joined, h.requested, fun _ => hk, ?_, h.gone⟩
      rcases h.handling with hpc | hpc | ⟨t, ht⟩
      · exact .inl hpc
      · exact .inr (.inl hpc)
      · cases hloop.symm.trans ht
  | @read t r hloop hn =>
      have haside : Aside x.run .workerRead := ⟨nofun, nofun, nofun⟩
      refine h.aside haside nofun hn nofun (.inr (.inr ⟨t, rfl⟩)) fun hg => ?_
      have hread := (next_aside haside hn).1
      dsimp only [Running.plant] at hread
      rw [hg] at hread
      cases hread
  | push he hpc hn =>
      exact ⟨h.supervised, h.pending, h.joined, h.requested, nofun, .inl hpc, h.gone⟩
  | pushed hpc hloop hidle =>
      exact ⟨h.supervised, h.pending, h.joined, h.requested, nofun, .inl hpc, h.gone⟩

end RunOk

/-! ### The buffer and the main thread -/

namespace RingOk

theorem of_run (h : x.RingOk) {r : Running} {w : WorkerLoop}
    (hpushing : w = .inPush ∨ x.ring.producer = .idle) :
    RingOk { x with run := r, loop := w } :=
  ⟨h.stopped, h.empty, h.full, h.consumer, h.producer, hpushing, h.looping, h.popping, h.ended,
    h.finished⟩

theorem push {b : Buffering ℕ} {w : WorkerLoop} (h : x.RingOk) (hs : PushSide x.ring b)
    (hpushing : w = .inPush ∨ b.producer = .idle) :
    RingOk { x with ring := b, loop := w } := by
  have hidle : b.consumer = .idle ↔ x.ring.consumer = .idle := by
    rcases hs.consumer with hc | hc <;> rw [hc]
    exact ConsumerPc.wake_eq_idle_iff _
  have hstopped : 4 ≤ x.signal.stage → x.ring.ring.stopped = true := h.stopped.mpr
  refine ⟨by rw [hs.stopped]; exact h.stopped, fun he => hs.empty ▸ h.empty he,
    fun hf => hs.full ▸ h.full hf, fun h5 => ?_, fun h6 => ?_, hpushing,
    fun hl => hidle.mpr (h.looping hl), fun hp hi => h.popping hp (hidle.mp hi), fun he => ?_,
    h.finished⟩
  · rcases hs.consumer with hc | hc
    · rw [hc]
      exact h.consumer h5
    · rw [hc]
      exact ConsumerPc.wake_ne_asleep _
  · exact hs.producer (hstopped (Nat.le_trans (by decide) h6)) (h.producer h6)
  · obtain ⟨h4, hcount⟩ := h.ended he
    exact ⟨h4, by rw [hs.ring (hstopped h4)]; exact hcount⟩

theorem pop {b : Buffering ℕ} {m : MainThread} (h : x.RingOk) (hs : PopSide x.ring b)
    (hlooping : m = .looping → b.consumer = .idle)
    (hpopping : m = .inPop → b.consumer ≠ .idle)
    (hended : m = .joining ∨ m = .done → 4 ≤ x.signal.stage ∧ b.ring.count = 0)
    (hfinished : m = .done → x.signal = .done) : RingOk { x with ring := b, main := m } := by
  have hstopped : 4 ≤ x.signal.stage → x.ring.ring.stopped = true := h.stopped.mpr
  refine ⟨by rw [hs.stopped]; exact h.stopped, fun he => hs.empty ▸ h.empty he,
    fun hf => hs.full ▸ h.full hf, fun h5 => ?_, fun h6 => ?_, h.pushing.imp_right fun hi => ?_,
    hlooping, hpopping, hended, hfinished⟩
  · exact hs.consumer (hstopped (Nat.le_trans (by decide) h5)) (h.consumer h5)
  · rcases hs.producer with hp | hp
    · rw [hp]
      exact h.producer h6
    · rw [hp]
      exact ProducerPc.wake_ne_asleep _
  · rcases hs.producer with hp | hp <;> rw [hp]
    · exact hi
    · exact (ProducerPc.wake_eq_idle_iff _).mpr hi

theorem worker (h : x.RingOk) (hmove : WorkerMove cap x y) : y.RingOk := by
  have hidle : ∀ {loop : WorkerLoop}, x.loop = loop → loop ≠ .inPush → x.ring.producer = .idle :=
    fun hl hne => h.pushing.resolve_left (hl ▸ hne)
  cases hmove with
  | handle he hn => exact h.of_run h.pushing
  | exit hstop hloop => exact h.of_run h.pushing
  | die hloop hn =>
      refine h.of_run (.inr ?_)
      rcases hloop with hl | hl <;> exact hidle hl nofun
  | poll hloop hk => exact h.of_run (r := x.run) (.inr (hidle hloop nofun))
  | read hloop hn => exact h.of_run (.inr (hidle hloop nofun))
  | push he hpc hn => exact h.push (pushSide_of_next he hn) (.inl rfl)
  | pushed hpc hloop hi => exact h.of_run (r := x.run) (.inr hi)

theorem main (h : x.RingOk) (hn : x.mainNext cap = some y) : y.RingOk := by
  unfold mainNext at hn
  split at hn
  · obtain ⟨b, hb, rfl⟩ := Option.map_eq_some_iff.mp hn
    refine h.pop (popSide_of_next rfl hb) nofun (fun _ => ?_) nofun nofun
    dsimp only [Buffering.next] at hb
    split at hb <;> cases hb
    exact nofun
  · split at hn
    · obtain ⟨b, hb, rfl⟩ := Option.map_eq_some_iff.mp hn
      have hside := popSide_of_next rfl hb
      by_cases hidle : b.consumer = .idle
      · rw [if_pos hidle]
        refine h.pop hside nofun nofun (fun _ => ?_) nofun
        -- `pop` has returned false
        dsimp only [Buffering.next] at hb
        split at hb <;> cases hb
        obtain ⟨hstopped, hcount⟩ := popLock_idle hidle
        exact ⟨h.stopped.mp hstopped, hcount⟩
      · rw [if_neg hidle]
        exact h.pop hside nofun (fun _ => hidle) nofun nofun
    · obtain ⟨b, hb, rfl⟩ := Option.map_eq_some_iff.mp hn
      refine h.pop (popSide_of_next rfl hb) (fun _ => ?_) nofun nofun nofun
      dsimp only [Buffering.next] at hb
      split at hb <;> cases hb
      rfl
    · cases hn
  · next hmain =>
    split at hn <;> cases hn
    rename_i hsignal
    exact ⟨h.stopped, h.empty, h.full, h.consumer, h.producer, h.pushing, nofun, nofun,
      fun _ => h.ended (.inl hmain), fun _ => hsignal⟩
  · cases hn

end RingOk

/-! ### The signal thread -/

/-- The signal thread has gone on. -/
theorem RunOk.advance (h : x.RunOk) {b : Buffering ℕ} {signal : SignalThread} {stop : Bool}
    (hstage : x.signal.stage ≤ signal.stage) (hjoined : 3 ≤ signal.stage → x.run.Returned)
    (hrequested : stop = true ↔ 7 ≤ signal.stage)
    (hgone : signal = .done → x.run.svc.worker.pc = .gone) :
    RunOk { x with ring := b, signal := signal, stopRequested := stop } :=
  ⟨h.supervised, fun hs => h.pending (hstage.trans hs), hjoined, hrequested, h.ready, h.handling,
    hgone⟩

theorem RingOk.advance (h : x.RingOk) {r : Running} {signal : SignalThread} {stop : Bool}
    (h4 : 4 ≤ signal.stage ↔ 4 ≤ x.signal.stage) (h5 : 5 ≤ signal.stage → 5 ≤ x.signal.stage)
    (h6 : 6 ≤ signal.stage → 6 ≤ x.signal.stage) (hempty : signal ≠ .notifyingEmpty)
    (hfull : signal ≠ .notifyingFull) (hdone : x.signal ≠ .done) :
    RingOk { x with run := r, signal := signal, stopRequested := stop } :=
  ⟨h.stopped.trans h4.symm, fun he => absurd he hempty, fun hf => absurd hf hfull,
    fun hs => h.consumer (h5 hs), fun hs => h.producer (h6 hs), h.pushing, h.looping, h.popping,
    fun he => ⟨h4.mpr (h.ended he).1, (h.ended he).2⟩, fun hm => absurd (h.finished hm) hdone⟩

/-- The signal thread asks the supervisor to stop, and is the first to do so. -/
theorem received (h : x.RunOk) (hr : x.RingOk) (hsignal : x.signal = .received)
    (hn : x.signalNext cap = some y) :
    x.run.next (.post .stop) = some y.run ∧ y.signal = .joiningSupervisor ∧ y.RunOk ∧ y.RingOk := by
  have hstage : x.signal.stage = 1 := by rw [hsignal]; rfl
  have hpending := h.pending (Nat.le_of_eq hstage)
  have hstate : x.run.svc.state ≠ .stopped := fun hst => by
    rw [h.supervised.marked hst] at hpending
    cases hpending
  have hstop : x.stopRequested = false := Bool.eq_false_iff.mpr fun hs => by
    have := h.requested.mp hs
    omega
  unfold signalNext at hn
  simp only [hsignal, if_pos hstate] at hn
  obtain ⟨r, hrun, rfl⟩ := Option.map_eq_some_iff.mp hn
  obtain ⟨hsup, -⟩ := h.supervised.aside (e := .post .stop) ⟨nofun, nofun, nofun⟩ hrun
  refine ⟨hrun, rfl, ?_, ?_⟩
  · cases hrun
    refine ⟨hsup, nofun, nofun, ?_, h.ready, h.handling, nofun⟩
    rw [hstop]
    exact ⟨nofun, nofun⟩
  · refine hr.advance ?_ nofun nofun nofun nofun ?_
    · rw [hstage]
      exact ⟨nofun, nofun⟩
    · rw [hsignal]
      exact nofun

/-- The supervisor has returned, and the acquisition thread has not been asked to stop. -/
theorem RunOk.between (h : x.RunOk) {b : Buffering ℕ} {signal : SignalThread}
    (hret : x.run.Returned) (hstage : x.signal.stage ≤ signal.stage) (h6 : signal.stage ≤ 6) :
    RunOk { x with ring := b, signal := signal } := by
  refine h.advance hstage (fun _ => hret) ⟨fun hs => ?_, fun hs => ?_⟩ fun hs => ?_
  · exact (h.requested.mp hs).trans hstage
  · omega
  · rw [hs] at h6
    exact absurd h6 (by decide)

theorem ok_signal (h : x.RunOk) (hr : x.RingOk) (hn : x.signalNext cap = some y) :
    y.RunOk ∧ y.RingOk := by
  cases hsignal : x.signal with
  | waiting | done =>
      unfold signalNext at hn
      rw [hsignal] at hn
      cases hn
  | received => exact (received h hr hsignal hn).2.2
  | joiningSupervisor =>
      simp only [signalNext, hsignal] at hn
      split at hn <;> cases hn
      rename_i hret
      refine ⟨h.between (b := x.ring) hret (by rw [hsignal]; decide) (by decide),
        hr.advance (r := x.run) ?_ nofun nofun nofun nofun ?_⟩ <;> rw [hsignal] <;> decide
  | stopping =>
      simp only [signalNext, hsignal] at hn
      cases hn
      have hret := h.joined (by rw [hsignal]; decide)
      refine ⟨h.between hret (by rw [hsignal]; decide) (by decide),
        ⟨⟨fun _ => Nat.le_refl 4, fun _ => rfl⟩, fun _ => Nat.succ_ne_zero _, nofun, nofun, nofun,
          hr.pushing, hr.looping, hr.popping, fun he => ⟨Nat.le_refl 4, (hr.ended he).2⟩,
          fun hm => ?_⟩⟩
      cases hsignal.symm.trans (hr.finished hm)
  | notifyingEmpty =>
      simp only [signalNext, hsignal, Buffering.next, if_neg (hr.empty hsignal)] at hn
      cases hn
      have hret := h.joined (by rw [hsignal]; decide)
      have hstopped := hr.stopped.mpr (by rw [hsignal]; decide)
      have hidle := ConsumerPc.wake_eq_idle_iff x.ring.consumer
      refine ⟨h.between hret (by rw [hsignal]; decide) (by decide),
        ⟨⟨fun _ => Nat.le_succ 4, fun _ => hstopped⟩, fun h => SignalThread.noConfusion h,
          fun _ => Nat.succ_ne_zero _, fun _ => ConsumerPc.wake_ne_asleep _,
          fun h => absurd h (Nat.not_succ_le_self 5), hr.pushing,
          fun hm => hidle.mpr (hr.looping hm), fun hm hi => hr.popping hm (hidle.mp hi),
          fun he => ⟨Nat.le_succ 4, (hr.ended he).2⟩, fun hm => ?_⟩⟩
      cases hsignal.symm.trans (hr.finished hm)
  | notifyingFull =>
      simp only [signalNext, hsignal, Buffering.next, if_neg (hr.full hsignal)] at hn
      cases hn
      have hret := h.joined (by rw [hsignal]; decide)
      have hstopped := hr.stopped.mpr (by rw [hsignal]; decide)
      have hconsumer := hr.consumer (by rw [hsignal]; decide)
      refine ⟨h.between hret (by rw [hsignal]; decide) (by decide),
        ⟨⟨fun _ => Nat.le_add_right 4 2, fun _ => hstopped⟩, fun h => SignalThread.noConfusion h,
          fun h => SignalThread.noConfusion h, fun _ => hconsumer,
          fun _ => ProducerPc.wake_ne_asleep _,
          hr.pushing.imp_right (ProducerPc.wake_eq_idle_iff _).mpr, hr.looping, hr.popping,
          fun he => ⟨Nat.le_add_right 4 2, (hr.ended he).2⟩, fun hm => ?_⟩⟩
      cases hsignal.symm.trans (hr.finished hm)
  | requesting =>
      simp only [signalNext, hsignal] at hn
      cases hn
      have hret := h.joined (by rw [hsignal]; decide)
      refine ⟨h.advance (b := x.ring) ?_ (fun _ => hret) ⟨fun _ => by decide, fun _ => rfl⟩
        fun h => SignalThread.noConfusion h,
        hr.advance (r := x.run) ?_ ?_ ?_ (by decide) (by decide) ?_⟩ <;> rw [hsignal] <;> decide
  | joiningWorker =>
      simp only [signalNext, hsignal] at hn
      split at hn <;> cases hn
      rename_i hgone
      have hret := h.joined (by rw [hsignal]; decide)
      have hrequested := h.requested
      rw [hsignal] at hrequested
      refine ⟨h.advance (b := x.ring) ?_ (fun _ => hret) (hrequested.trans (by decide))
        fun _ => hgone, hr.advance (r := x.run) ?_ ?_ ?_ (by decide) (by decide) ?_⟩ <;>
        rw [hsignal] <;> decide

/-! ### Runs -/

/-- A call of the buffer takes a step, or nothing happens to it. -/
def Calls (cap : ℕ) (s t : Buffering ℕ) : Prop := t = s ∨ ∃ e, s.next cap e = some t

/-- The main thread touches nothing but the buffer. -/
theorem mainNext_eq (hn : x.mainNext cap = some y) :
    ∃ b main, PopSide x.ring b ∧ Calls cap x.ring b ∧ y = { x with ring := b, main := main } := by
  have hpop : ∀ {e : BufferEvent ℕ} {b : Buffering ℕ}, e.isPop = true →
      x.ring.next cap e = some b → PopSide x.ring b ∧ Calls cap x.ring b :=
    fun he hb => ⟨popSide_of_next he hb, .inr ⟨_, hb⟩⟩
  unfold mainNext at hn
  split at hn
  · obtain ⟨b, hb, rfl⟩ := Option.map_eq_some_iff.mp hn
    exact ⟨b, _, (hpop rfl hb).1, (hpop rfl hb).2, rfl⟩
  · split at hn
    · obtain ⟨b, hb, rfl⟩ := Option.map_eq_some_iff.mp hn
      exact ⟨b, _, (hpop rfl hb).1, (hpop rfl hb).2, rfl⟩
    · obtain ⟨b, hb, rfl⟩ := Option.map_eq_some_iff.mp hn
      exact ⟨b, _, (hpop rfl hb).1, (hpop rfl hb).2, rfl⟩
    · cases hn
  · split at hn <;> cases hn
    exact ⟨x.ring, _, ⟨rfl, rfl, rfl, .inl rfl, fun _ h => h⟩, .inl rfl, rfl⟩
  · cases hn

/-- **One step of the process.** -/
theorem ok_next {l : DaemonStep} (h : x.RunOk) (hr : x.RingOk) (hn : x.next cap l = some y) :
    y.RunOk ∧ y.RingOk := by
  cases l with
  | supervisor n =>
      obtain ⟨hret, hmove⟩ := supervisorMove_of_next hn
      refine ⟨h.supervisor hret hmove, ?_⟩
      cases hmove <;> exact hr.of_run hr.pushing
  | worker n =>
      have hmove := workerMove_of_next hn
      exact ⟨h.worker hmove, hr.worker hmove⟩
  | signal => exact ok_signal h hr hn
  | main =>
      refine ⟨?_, hr.main hn⟩
      obtain ⟨b, main, -, -, rfl⟩ := mainNext_eq hn
      exact ⟨h.supervised, h.pending, h.joined, h.requested, h.ready, h.handling, h.gone⟩
  | sigterm =>
      obtain ⟨hsignal, rfl⟩ := sigterm_of_next hn
      have hrequested := h.requested
      rw [hsignal] at hrequested
      refine ⟨⟨h.supervised, fun _ => h.pending (by rw [hsignal]; decide), nofun,
        hrequested.trans ⟨nofun, nofun⟩, h.ready, h.handling, nofun⟩,
        hr.advance (r := x.run) ?_ nofun nofun nofun nofun ?_⟩ <;> rw [hsignal] <;> decide
  | world e =>
      obtain ⟨he, r, hrun, rfl⟩ := world_of_next hn
      exact ⟨h.world he hrun, hr.of_run hr.pushing⟩
  | wakeWorker =>
      dsimp only [Daemon.next] at hn
      obtain ⟨b, hb, rfl⟩ := Option.map_eq_some_iff.mp hn
      refine ⟨⟨h.supervised, h.pending, h.joined, h.requested, h.ready, h.handling, h.gone⟩,
        hr.push (w := x.loop) (pushSide_of_next rfl hb) (hr.pushing.imp_right fun hi => ?_)⟩
      cases hb
      exact (ProducerPc.wake_eq_idle_iff _).mpr hi
  | wakeMain =>
      dsimp only [Daemon.next] at hn
      obtain ⟨b, hb, rfl⟩ := Option.map_eq_some_iff.mp hn
      have hidle : b.consumer = .idle ↔ x.ring.consumer = .idle := by
        cases hb
        exact ConsumerPc.wake_eq_idle_iff _
      have hside := popSide_of_next rfl hb
      have hcount : b.ring = x.ring.ring := by
        cases hb
        rfl
      refine ⟨⟨h.supervised, h.pending, h.joined, h.requested, h.ready, h.handling, h.gone⟩,
        hr.pop (m := x.main) hside (fun hm => hidle.mpr (hr.looping hm))
          (fun hm hi => hr.popping hm (hidle.mp hi)) (fun he => ?_) hr.finished⟩
      rw [hcount]
      exact hr.ended he

theorem ok_of_reach (h : (daemon cap).Reach Machine.Always x) : x.RunOk ∧ x.RingOk := by
  refine h.invariant (P := fun x => x.RunOk ∧ x.RingOk) (fun x hx => ?_)
    fun _ _ _ inv _ hn => ok_next inv.1 inv.2 hn
  obtain ⟨run, ring, loop, stop, signal, main⟩ := x
  obtain ⟨hrun, hring, hloop, hstop, hsignal, hmain⟩ := hx
  dsimp only at hrun hring hloop hstop hsignal hmain
  have hsup : DeviceService.Inv False False run := .of_init hrun
  obtain ⟨cfg, p, clock, -, rfl⟩ := hrun
  cases hring
  subst hloop hstop hsignal hmain
  refine ⟨⟨⟨hsup, trivial, nofun, nofun⟩, fun _ => rfl, nofun, ⟨nofun, nofun⟩, nofun, .inl rfl,
    nofun⟩, ⟨⟨nofun, nofun⟩, nofun, nofun, nofun, nofun, .inr rfl, fun _ => rfl, nofun, ?_, nofun⟩⟩
  rintro (h | h) <;> cases h

end Daemon

end DeviceService
