/-
# The end of a publisher

The destructor of the publisher stores 0 to `publisher_pid` and wakes everybody; after that
it touches no queue (`Life`).  `try_receive` reports that the publisher is gone when it finds
the queue empty first and the pid 0 afterwards.

Between these two loads the publisher may still send a sample and end.  The sample is then in
the queue when `try_receive` reports the end (`gone_with_sample_queued`).  If the publisher does
not end in such a window (`Unhurried`), a subscriber that is told of the end has received all
that was delivered to it and not evicted (`drained_when_gone`).
-/
import DevicePlatform.Devbus.Delivery

namespace Devbus

/-! ## The life of a publisher -/

/-- What the publisher may still do, and what subscribers know about it. -/
structure Life (s : Sys) : Prop where
  running : s.bus.publisherPid ≠ 0 → s.pub = Publisher.shutdown ∨ s.pub.Within Bus.OwnStep
  ended : s.bus.publisherPid = 0 → s.pub.Within Bus.SameCore
  gone : ∀ i, (s.bus.subs i).status = some .publisherGone → s.bus.publisherPid = 0

section Life

variable {calm : Prop} {R : ℕ → Prop} {s s' : Sys} {e : Event} {i sl : ℕ}

/-- A step of the publisher is within its protocol. -/
theorem SysInv.pubMove {n : ℕ} {p : Prog Bus Unit} {b : Bus} (inv : SysInv calm R s)
    (hpatient : calm ∨ Patient s (.publisher n)) (hs : s.pub.step n s.bus = some (p, b)) :
    PubMove s.bus.toCore b.toCore := by
  have ha : calm ∨ b.timedOut = false :=
    hpatient.imp_right fun hp => hp _ (congrArg (Option.map _) hs)
  exact (Prog.wp_step inv.pub ⟨inv.good, inv.noClaim⟩ hs ha).2.1

/-- A step of a subscriber is within its protocol. -/
theorem SysInv.subGuar {n : ℕ} {p : Prog Bus Unit} {b : Bus} (inv : SysInv calm R s)
    (halive : s.bus.alive (s.bus.subs i).pid = true)
    (hs : (s.sub i).step n s.bus = some (p, b)) : SubGuar calm i s.bus b :=
  (Prog.wp_step (inv.sub i halive) ⟨inv.good, halive⟩ hs trivial).2.1

/-- The kinds of steps of a publisher. -/
theorem Life.publisher {n : ℕ} {p : Prog Bus Unit} {b : Bus} (l : Life s)
    (hs : s.pub.step n s.bus = some (p, b)) :
    (s.bus.publisherPid = 0 ∧ b.toCore = s.bus.toCore ∧ b.publisherPid = 0 ∧
        p.Within Bus.SameCore) ∨
      (s.bus.publisherPid ≠ 0 ∧ s.pub = Publisher.shutdown ∧ b.toCore = s.bus.toCore ∧
        b.publisherPid = 0 ∧ p.Within Bus.SameCore) ∨
      (s.bus.publisherPid ≠ 0 ∧ b.publisherPid = s.bus.publisherPid ∧ p.Within Bus.OwnStep) := by
  by_cases hpid : s.bus.publisherPid = 0
  · obtain ⟨hsame, hp⟩ := Prog.within_step (l.ended hpid) hs
    rcases hsame with rfl | ⟨hcore, hp'⟩
    · exact .inl ⟨hpid, rfl, hpid, hp⟩
    · exact .inl ⟨hpid, hcore, hp'.trans hpid, hp⟩
  · rcases l.running hpid with hshut | hw
    · rw [hshut] at hs
      cases hs
      exact .inr (.inl ⟨hpid, hshut, rfl, rfl, wakeAll_core⟩)
    · obtain ⟨hsame, hp⟩ := Prog.within_step hw hs
      rcases hsame with rfl | hown
      · exact .inr (.inr ⟨hpid, rfl, hp⟩)
      · exact .inr (.inr ⟨hpid, hown.pid, hp⟩)

/-- **The publisher ends once.** -/
theorem Life.next (l : Life s) (inv : SysInv calm R s) (hpatient : calm ∨ Patient s e)
    (h : s.next e = some s') : Life s' := by
  cases Sys.step_of_next h with
  | publisher hs =>
      have hsubs := (inv.pubMove hpatient hs).subs
      rcases l.publisher hs with ⟨h0, -, hb, hp⟩ | ⟨h0, -, -, hb, hp⟩ | ⟨h0, hb, hp⟩
      · exact ⟨fun hne => absurd hb hne, fun _ => hp, fun i hi => hb⟩
      · exact ⟨fun hne => absurd hb hne, fun _ => hp, fun i hi => hb⟩
      · refine ⟨fun _ => .inr hp, fun h => absurd (hb.symm.trans h) h0, fun i hi => ?_⟩
        dsimp only at hi ⊢
        rw [hsubs] at hi
        exact hb.trans (l.gone i hi)
  | @subscriber i n p b halive hs =>
      have guar := inv.subGuar halive hs
      have hpid := guar.watch.publisherPid
      refine ⟨?_, ?_, fun j hj => ?_⟩ <;> dsimp only at *
      · rw [hpid]
        exact l.running
      · rw [hpid]
        exact l.ended
      · rw [hpid]
        by_cases hij : j = i
        · subst hij
          exact (guar.watch.gone hj).elim (l.gone j) fun h => h.2
        · rw [guar.move.subs j hij] at hj
          exact l.gone j hj
  | call hret hpid hp =>
      exact ⟨fun _ => hp.imp_left fun h => h.2, fun h => absurd h hpid, l.gone⟩
  | callSub => exact ⟨l.running, l.ended, l.gone⟩
  | @join i pid overflow timeout u habsent hu =>
      refine ⟨l.running, l.ended, fun j hj => ?_⟩
      by_cases hij : j = i
      · subst hij
        dsimp only at hj
        rw [Bus.setSub_self, hu.2] at hj
        cases hj
      · exact l.gone j (by
          dsimp only [Bus.setSub] at hj
          rwa [Function.update_of_ne hij] at hj)
  | outside ho =>
      refine ⟨?_, ?_, ?_⟩ <;> dsimp only <;> rw [ho.publisherPid]
      · exact l.running
      · exact l.ended
      · rw [ho.subs]
        exact l.gone

/-- It holds in patient runs. -/
theorem Life.of_reach (h : service.Reach (fun s e => Patient s e ∧ Recording R s e) s) :
    Life s := by
  refine And.right (h.invariant (P := fun s => SysInv False R s ∧ Life s) ?_ ?_)
  · intro s hs
    refine ⟨SysInv.init R hs, ?_⟩
    obtain ⟨cfg, typeSize, typeAlign, l, pid, now, -, -, -, -, rfl⟩ := hs
    exact ⟨fun _ => .inr trivial, fun _ => trivial, fun i hi => nomatch hi⟩
  · rintro s e t ⟨inv, l⟩ hok hn
    exact ⟨inv.next False.elim (.inr hok.1) hok.2 hn, l.next inv (.inr hok.1) hn⟩

/-! ## The slot of a live subscriber -/

/-- A live subscriber was alive, in its slot, before any step of a subscriber. -/
theorem SubGuar.live_before {b d : Bus} {j : ℕ} (guar : SubGuar True j b d) (g : Good b.toCore)
    (g' : Good d.toCore) (h : d.LiveIn i sl) : b.LiveIn i sl := by
  have hst' := g'.stage_of_live h
  have hst : (b.led sl).stage = .active i := by
    rw [← guar.settled trivial sl (by rw [hst']; exact Nat.le_refl 2)]
    exact hst'
  obtain ⟨hslot, -, hphase, -⟩ := (g.owner sl i).active hst
  refine ⟨?_, hphase, hslot⟩
  have hpid : (d.subs i).pid = (b.subs i).pid := by
    by_cases hij : i = j
    · subst hij
      exact guar.move.pid
    · rw [guar.move.subs i hij]
  rw [← hpid, ← guar.move.alive]
  exact h.1

/-- So it was before any step without a join. -/
theorem SysInv.live_before (inv : SysInv True R s) (inv' : SysInv True R s') (hj : NoJoin s e)
    (h : s.next e = some s') (hl : s'.bus.LiveIn i sl) : s.bus.LiveIn i sl := by
  cases Sys.step_of_next h with
  | publisher hs =>
      have hmove := inv.pubMove (.inl trivial) hs
      unfold Bus.LiveIn at *
      dsimp only at hl
      rwa [hmove.subs, hmove.alive] at hl
  | subscriber halive hs => exact (inv.subGuar halive hs).live_before inv.good inv'.good hl
  | call | callSub => exact hl
  | join => exact hj.elim
  | outside ho =>
      unfold Bus.LiveIn at *
      dsimp only at hl
      rw [ho.subs] at hl
      exact ⟨ho.alive _ hl.1, hl.2⟩

/-- What subscribers do leaves an empty queue empty. -/
theorem SubsMove.empty {c d : Core} (m : SubsMove c d) (g' : Good d)
    (hst : (d.led sl).stage = .active i) (h : (c.slot sl).dataTail = (c.slot sl).dataHead) :
    (d.slot sl).dataTail = (d.slot sl).dataHead := by
  have hm := m.slot sl
  have hl := (g'.slot sl).ledger (by rw [hst]; exact Stage.noConfusion)
  have h1 := hm.tail
  have h2 := hm.dataHead
  have h3 := hl.tail_le
  have h4 := hl.head
  omega

end Life

/-! ## The window of `try_receive` -/

/-- A subscriber has found the queue of slot `s` empty, is about to look at `publisher_pid`, and
has got a sample meanwhile. -/
def Bus.Overtaken (b : Bus) (s : ℕ) : Bool :=
  match (b.led s).stage with
  | .active i => (b.subs i).sawEmpty && decide ((b.slot s).dataTail ≠ (b.slot s).dataHead)
  | _ => false

/-- The publisher does not end when a subscriber is overtaken. -/
def Unhurried (s : Sys) (e : Event) : Prop :=
  ∀ s', s.next e = some s' → s.bus.publisherPid ≠ 0 → s'.bus.publisherPid = 0 →
    ∀ sl < s.bus.hdr.maxSubscribers, s.bus.Overtaken sl = false

instance (s : Sys) (e : Event) : Decidable (Unhurried s e) :=
  decidable_of_iff ((s.next e).all (fun s' => decide (s.bus.publisherPid ≠ 0 →
      s'.bus.publisherPid = 0 → ∀ sl < s.bus.hdr.maxSubscribers, s.bus.Overtaken sl = false)) =
    true) <| by
    simp only [Option.all_eq_true, decide_eq_true_eq, Unhurried]

/-- Who knows of the end, or is about to, has an empty queue. -/
structure Drained (b : Bus) : Prop where
  saw : b.publisherPid = 0 → ∀ i sl, b.LiveIn i sl → (b.subs i).sawEmpty = true →
    (b.slot sl).dataTail = (b.slot sl).dataHead
  gone : ∀ i sl, b.LiveIn i sl → (b.subs i).status = some .publisherGone →
    (b.slot sl).dataTail = (b.slot sl).dataHead

section Drained

variable {R : ℕ → Prop} {s s' : Sys} {e : Event} {i sl : ℕ}

theorem Drained.of_running {b : Bus} (hpid : b.publisherPid ≠ 0)
    (hgone : ∀ i, (b.subs i).status = some .publisherGone → b.publisherPid = 0) : Drained b :=
  ⟨fun h => absurd h hpid, fun i _ _ h => absurd (hgone i h) hpid⟩

/-- A slot of a live subscriber that is not overtaken. -/
theorem Good.empty_of_saw {b : Bus} (g : Good b.toCore)
    (h : ∀ sl < b.hdr.maxSubscribers, b.Overtaken sl = false) (hl : b.LiveIn i sl)
    (hsaw : (b.subs i).sawEmpty = true) : (b.slot sl).dataTail = (b.slot sl).dataHead := by
  have hst := g.stage_of_live hl
  have hlt := g.lt_of_stage (s := sl) (by rw [hst]; exact Stage.noConfusion)
  have hover := h sl hlt
  unfold Bus.Overtaken at hover
  rw [hst] at hover
  simpa only [hsaw, Bool.true_and, decide_eq_false_iff_not, not_not] using hover

theorem Drained.next (d : Drained s.bus) (l : Life s) (inv : SysInv True R s)
    (inv' : SysInv True R s') (hj : NoJoin s e) (hu : Unhurried s e) (h : s.next e = some s') :
    Drained s'.bus := by
  have l' := l.next inv (.inl trivial) h
  have hback : ∀ i sl, s'.bus.LiveIn i sl → s.bus.LiveIn i sl :=
    fun i sl => inv.live_before inv' hj h
  cases Sys.step_of_next h with
  | @publisher n p b hs =>
      rcases l.publisher hs with ⟨h0, hcore, hb, -⟩ | ⟨h0, -, hcore, hb, -⟩ | ⟨h0, hb, -⟩
      · have hslot : b.slot = s.bus.slot := congrArg Core.slot hcore
        have hsubs : b.subs = s.bus.subs := congrArg Core.subs hcore
        constructor <;> dsimp only <;> rw [hslot, hsubs]
        · exact fun _ i sl hl => d.saw h0 i sl (hback i sl hl)
        · exact fun i sl hl => d.gone i sl (hback i sl hl)
      · have hslot : b.slot = s.bus.slot := congrArg Core.slot hcore
        have hsubs : b.subs = s.bus.subs := congrArg Core.subs hcore
        constructor <;> dsimp only <;> rw [hslot, hsubs]
        · exact fun _ i sl hl => inv.good.empty_of_saw (hu _ h h0 hb) (hback i sl hl)
        · exact fun i sl _ hi => absurd (l.gone i hi) h0
      · exact .of_running (fun hb' => h0 (hb.symm.trans hb')) l'.gone
  | @subscriber j n p b halive hs =>
      have guar := inv.subGuar halive hs
      have hmove := guar.move.move inv.good halive
      have hempty : ∀ {i sl}, b.LiveIn i sl →
          (s.bus.slot sl).dataTail = (s.bus.slot sl).dataHead →
          (b.slot sl).dataTail = (b.slot sl).dataHead :=
        fun hl => hmove.empty inv'.good (inv'.good.stage_of_live hl)
      constructor <;> dsimp only
      · intro hpid i sl hl hsaw
        have hpid' := guar.watch.publisherPid.symm.trans hpid
        by_cases hij : i = j
        · subst hij
          rcases guar.watch.sawEmpty hsaw with hold | hnew
          · exact hempty hl (d.saw hpid' i sl (hback i sl hl) hold)
          · exact hnew sl hl.2.2
        · rw [guar.move.subs i hij] at hsaw
          exact hempty hl (d.saw hpid' i sl (hback i sl hl) hsaw)
      · intro i sl hl hgone
        by_cases hij : i = j
        · subst hij
          rcases guar.watch.gone hgone with hold | ⟨hsaw, hpid⟩
          · exact hempty hl (d.gone i sl (hback i sl hl) hold)
          · exact hempty hl (d.saw hpid i sl (hback i sl hl) hsaw)
        · rw [guar.move.subs i hij] at hgone
          exact hempty hl (d.gone i sl (hback i sl hl) hgone)
  | call | callSub => exact d
  | join => exact hj.elim
  | outside ho =>
      constructor <;> dsimp only at * <;> rw [ho.slot, ho.subs]
      · rw [ho.publisherPid]
        exact fun h0 i sl hl => d.saw h0 i sl (hback i sl hl)
      · exact fun i sl hl => d.gone i sl (hback i sl hl)

/-- **No sample is hidden by the end of the publisher.** -/
theorem drained_when_gone {s₀ : Sys} {es : List Event} (h₀ : service.Reach Patient s₀)
    (hq : Quiet s₀) (hpid : s₀.bus.publisherPid ≠ 0)
    (hr : service.Run (fun s e => NoJoin s e ∧ Unhurried s e) s₀ es s) (hl : s.bus.LiveIn i sl)
    (hgone : (s.bus.subs i).status = some .publisherGone) :
    (s.bus.slot sl).dataTail = (s.bus.slot sl).dataHead ∧ ((s.sub i).returned = true →
      ((s.bus.subs i).log ++ (s.bus.led sl).evicted).Perm (s.bus.led sl).pushed) := by
  have h₀' : service.Reach (fun s e => Patient s e ∧ Recording (fun _ => False) s e) s₀ :=
    h₀.mono fun _ _ hok => ⟨hok, recording_none⟩
  have l₀ := Life.of_reach h₀'
  obtain ⟨inv, -, d⟩ := hr.preserves
    (P := fun s => SysInv True (fun _ => False) s ∧ Life s ∧ Drained s.bus)
    (fun s e t ⟨inv, l, d⟩ hok hn => by
      have inv' := inv.next (fun _ => hok.1) (.inl trivial) recording_none hn
      exact ⟨inv', l.next inv (.inl trivial) hn, d.next l inv inv' hok.1 hok.2 hn⟩)
    ⟨(SysInv.of_reach h₀').of_quiet hq, l₀, .of_running hpid l₀.gone⟩
  have hempty := d.gone i sl hl hgone
  refine ⟨hempty, fun hsub => ?_⟩
  obtain ⟨sl', ht⟩ := (inv.subReady hsub hl.1).idle hl.2.1
  obtain rfl : sl' = sl := Option.some.inj (ht.slot.symm.trans hl.2.2)
  have m := inv.good.ledger_of_live hl
  have hparts := m.parts
  rw [hempty, m.head, List.drop_length, List.append_nil, ht.taken, List.append_nil] at hparts
  exact hparts

end Drained

/-- One sample is sent, received and released; the publisher ends. -/
theorem drained_when_gone_received : ∃ s₀ s es, service.Reach Patient s₀ ∧ Quiet s₀ ∧
    service.Run (fun s e => NoJoin s e ∧ Unhurried s e) s₀ es s ∧
    (s.bus.subs 0).status = some .publisherGone ∧ (s.bus.subs 0).log.map Entry.seq = [1] ∧
    (s.bus.slot 0).dataTail = (s.bus.slot 0).dataHead := by
  have hrun : ∃ s₀ s, service.Reach Patient s₀ ∧ Quiet s₀ ∧
      service.Run (fun s e => NoJoin s e ∧ Unhurried s e) s₀
        (List.flatten [[.loan], publisherSteps 5, [.send 0], publisherSteps 29, [.shutdown],
          publisherSteps 4, [.tryReceive 0], subscriberSteps 0 9, [.release 0 ⟨1, 0, 0⟩],
          subscriberSteps 0 4, [.tryReceive 0], subscriberSteps 0 6]) s ∧
      s₀.bus.publisherPid ≠ 0 ∧ s.bus.LiveIn 0 0 ∧
        (s.bus.subs 0).status = some .publisherGone ∧ (s.bus.subs 0).log.map Entry.seq = [1] :=
    exists_run_of_still (joining .dropOldest 0) _ (fun _ _ => id) (by decide) (by decide +kernel)
  obtain ⟨s₀, s, h₀, hq, hr, hpid, hl, hgone, hlog⟩ := hrun
  exact ⟨s₀, s, _, h₀, hq, hr, hgone, hlog, (drained_when_gone h₀ hq hpid hr hl hgone).1⟩

/-- The publisher sends a sample and ends after `try_receive` has found the queue empty and
before it looks at `publisher_pid`. -/
theorem gone_with_sample_queued : ∃ s₀ s, service.Reach Patient s₀ ∧ Quiet s₀ ∧
    service.Run NoJoin s₀ ([.loan] ++ publisherSteps 5 ++ [.tryReceive 0] ++ subscriberSteps 0 5 ++
      [.send 0] ++ publisherSteps 29 ++ [.shutdown] ++ publisherSteps 1 ++ subscriberSteps 0 1) s ∧
    s₀.bus.publisherPid ≠ 0 ∧ s.bus.LiveIn 0 0 ∧ (s.sub 0).returned = true ∧
    (s.bus.subs 0).status = some .publisherGone ∧
    (s.bus.slot 0).dataTail ≠ (s.bus.slot 0).dataHead :=
  exists_run_of_still (joining .dropOldest 0) _ (fun _ _ => id) (by decide) (by decide +kernel)

end Devbus
