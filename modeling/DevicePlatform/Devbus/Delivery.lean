/-
# Every sample is delivered once or accounted for

A sample that `deliver` has pushed is popped once, evicted once, or still queued; a sample
that it has refused is on record with the reason.  `delivered_once` says so for every
subscriber, in every run without joins from a state in which nobody is in a call: then
`check_liveness` has no slot to be impatient with, so there is no condition on time.  Between
the calls the counters balance.

`losses_reconciled` compares the two sides of a loss.  The subscriber counts the sequence
numbers it does not see, the publisher the samples it drops.  In runs in which
`check_liveness` gives up no slot whose claimer is alive, each number that the subscriber
counts is one that the publisher has counted, and the totals agree once the first and the last
sample have been received.  Without the condition they need not
(`gap_without_drop`): two subscribers in one slot take samples from each other.
-/
import DevicePlatform.Devbus.Isolation

namespace Devbus

/-! ## Runs without joins -/

/-- Nobody is in a call, and no slot is claimed. -/
structure Quiet (s : Sys) : Prop where
  pub : s.pub.returned = true
  sub : ∀ i, (s.sub i).returned = true
  unclaimed : ∀ sl, (s.bus.slot sl).state ≠ .claimed

section Calm

variable {calm : Prop} {R : ℕ → Prop} {s t : Sys} {i : ℕ}

/-- What a subscriber has established when it is between two calls. -/
theorem SysInv.subReady (inv : SysInv calm R s) (hret : (s.sub i).returned = true)
    (ha : s.bus.alive (s.bus.subs i).pid = true) : SubReady R i s.bus :=
  Prog.wp_returned (inv.sub i ha) hret

/-- From a quiet state on, the protocols of runs without joins are kept. -/
theorem SysInv.of_quiet (inv : SysInv False R s) (hq : Quiet s) : SysInv True R s := by
  refine ⟨inv.good, fun _ sl j hst => ?_, ?_, fun j hj => ?_⟩
  · exact hq.unclaimed sl ((inv.good.slot sl).word _ (by rw [hst]; rfl))
  · rw [Prog.eq_ret_of_returned hq.pub]
    exact inv.pubIdle hq.pub
  · rw [Prog.eq_ret_of_returned (hq.sub j)]
    exact inv.subReady (hq.sub j) hj

/-- **The invariant of runs without joins.** -/
theorem SysInv.of_run {es : List Event} (inv : SysInv False R s) (hq : Quiet s)
    (hr : service.Run (fun s e => NoJoin s e ∧ Recording R s e) s es t) : SysInv True R t :=
  hr.preserves (fun _ _ _ inv hok hn => inv.next (fun _ => hok.1) (.inl trivial) hok.2 hn)
    (inv.of_quiet hq)

end Calm

/-! ### Evaluating such runs -/

section Evaluate

variable {s s' t : Sys} {e : Event} {i : ℕ}

/-- The other programs stay what they are. -/
theorem Sys.next_sub (h : s.next e = some s') (he : e.subject ≠ some i) : s'.sub i = s.sub i := by
  cases Sys.step_of_next h with
  | publisher | call | outside => rfl
  | subscriber | join => exact Function.update_of_ne (fun hij => he (congrArg some hij.symm)) ..
  | callSub p hj =>
      exact Function.update_of_ne (fun hij => he (hj.trans (congrArg some hij.symm))) ..

theorem run_sub {ok : Sys → Event → Prop} {es : List Event} (hr : service.Run ok s es t)
    (hes : ∀ e ∈ es, e.subject ≠ some i) : t.sub i = s.sub i := by
  induction hr with
  | nil => rfl
  | snoc _ _ hn ih =>
      rw [Sys.next_sub hn (hes _ (List.mem_append_right _ List.mem_cons_self))]
      exact ih fun e he => hes e (List.mem_append_left _ he)

/-- What has to be looked at to see that the small service is quiet, if only its first
subscriber has been at work. -/
def Sys.Still (s : Sys) : Bool :=
  s.pub.returned && (s.sub 0).returned && decide (s.bus.hdr.maxSubscribers = 1) &&
    decide ((s.bus.slot 0).state ≠ .claimed)

theorem Quiet.of_still {es : List Event} (hr : service.Run Patient tiny es s)
    (hes : ∀ e ∈ es, e.subject = none ∨ e.subject = some 0) (h : s.Still = true) : Quiet s := by
  have g := (SysInv.of_patient ⟨tiny, es, tiny_init, hr⟩).good
  simp only [Sys.Still, Bool.and_eq_true, decide_eq_true_eq] at h
  obtain ⟨⟨⟨hpub, hsub⟩, hone⟩, hslot⟩ := h
  refine ⟨hpub, fun i => ?_, fun sl => ?_⟩
  · by_cases hi : i = 0
    · rw [hi]
      exact hsub
    · rw [run_sub (i := i) hr]
      · rfl
      · rintro e he hs
        rcases hes e he with h0 | h0 <;> rw [h0] at hs
        · cases hs
        · exact hi (Option.some.inj hs).symm
  · by_cases hsl : sl = 0
    · rw [hsl]
      exact hslot
    · have hfree := g.beyond sl (by omega)
      rw [(g.slot sl).word .free (by rw [hfree]; rfl)]
      exact SlotState.noConfusion

/-- Evaluating a run of the small service that becomes quiet and goes on under another
condition. -/
theorem exists_run_of_still {ok₀ ok : Sys → Event → Prop} [∀ s e, Decidable (ok₀ s e)]
    [∀ s e, Decidable (ok s e)] {P : Sys → Sys → Prop} [∀ s₀ s, Decidable (P s₀ s)]
    (es es' : List Event) (hok : ∀ s e, ok₀ s e → Patient s e)
    (hes : ∀ e ∈ es, e.subject = none ∨ e.subject = some 0)
    (h : (service.exec ok₀ tiny es).any (fun s₀ => s₀.Still &&
      (service.exec ok s₀ es').any fun s => decide (P s₀ s)) = true) :
    ∃ s₀ s, service.Reach ok₀ s₀ ∧ Quiet s₀ ∧ service.Run ok s₀ es' s ∧ P s₀ s := by
  obtain ⟨s₀, h₀, hstill⟩ := (Option.any_eq_true _ _).mp h
  obtain ⟨hstill, hrest⟩ := Bool.and_eq_true_iff.mp hstill
  obtain ⟨s, hs, hp⟩ := (Option.any_eq_true _ _).mp hrest
  have hr := Machine.run_of_exec h₀
  exact ⟨s₀, s, ⟨tiny, es, tiny_init, hr⟩, .of_still (hr.mono hok) hes hstill,
    Machine.run_of_exec hs, of_decide_eq_true hp⟩

end Evaluate

instance (s : Sys) : (e : Event) → Decidable (NoJoin s e)
  | .join _ _ _ _ => isFalse id
  | .loan | .releaseLoan _ | .fill _ _ | .send _ | .checkLiveness | .shutdown | .publisher _
  | .tick _ | .tryReceive _ | .release _ _ | .wait _ _ _ | .poll _ _ | .destroy _
  | .subscriber _ _ | .crash _ | .wakeSubscriber _ | .wakePublisher _ => isTrue trivial

/-! ## The fate of a sample -/

/-- What has become of the samples for slot `s` of subscriber `i`. -/
structure Delivered (b : Bus) (i s : ℕ) : Prop where
  /-- Popped, evicted or still queued. -/
  fate : ((b.led s).taken ++ (b.led s).evicted ++ (b.led s).pushed.drop (b.slot s).dataTail).Perm
    (b.led s).pushed
  distinct : ((b.led s).pushed.map Entry.seq).Nodup
  /-- The queue is the window of the ring. -/
  head : (b.slot s).dataHead = (b.led s).pushed.length
  ring : ∀ k (h : k < (b.led s).pushed.length), (b.slot s).dataTail ≤ k →
    (b.slot s).dataRing (k &&& (b.hdr.queueCapacity - 1)) = (b.led s).pushed[k].chunk
  /-- What is handed out has been popped, in order. -/
  received : (b.subs i).log <+: (b.led s).taken
  increasing : ((b.subs i).log.map Entry.seq).Pairwise (· < ·)
  /-- Each eviction and each refusal has found the ring full: an eviction when it moved
  `data_tail`, a refusal when it last loaded it. -/
  full : (b.led s).fullAt.length = (b.led s).evicted.length + (b.led s).refused.length ∧
    ∀ x ∈ (b.led s).fullAt, x = b.hdr.queueCapacity

/-- The counters between two calls. -/
structure Balanced (b : Bus) (i s : ℕ) : Prop where
  received : (b.subs i).log = (b.led s).taken
  delivered : (b.stats s).delivered =
    (b.subs i).received + (b.stats s).droppedOldest + ((b.slot s).dataHead - (b.slot s).dataTail)
  /-- The sends since onboarding. -/
  sends : b.book.active s = true → (b.led s).onboardSeq + (b.stats s).delivered +
    (b.stats s).droppedNewest + (b.stats s).blockTimeouts = b.calls.nextSeq
  reports : ∀ r ∈ b.calls.reports, r.1.delivered + r.1.rejected + r.1.blockTimeouts = r.2

section Ledger

variable {h : Header} {w : SlotWords} {l : Ledger} {out : ℕ → ℕ} {next : ℕ}

theorem Matches.parts (m : Matches h w l out) :
    (l.taken ++ l.evicted ++ l.pushed.drop w.dataTail).Perm l.pushed := by
  have hp := m.fate.append_right (l.pushed.drop w.dataTail)
  rwa [List.take_append_drop] at hp

theorem Matches.seqs_lt (m : Matches h w l out) : (l.pushed.map Entry.seq).Pairwise (· < ·) :=
  (List.pairwise_cons.mp m.order).2

/-- The refusals are of the two kinds. -/
theorem Ledger.refused_length (l : Ledger) :
    l.refused.length = l.refusals .droppedNewest + l.refusals .blockTimeout := by
  unfold Ledger.refusals
  induction l.refused with
  | nil => rfl
  | cons x xs ih =>
      rw [List.length_cons, ih, List.countP_cons, List.countP_cons]
      obtain ⟨n, r⟩ := x
      cases r <;> simp only [decide_true, decide_false, reduceCtorEq, if_true, if_false,
        Bool.false_eq_true] <;> omega

/-- The numbers since onboarding are counted. -/
theorem Ledger.Covers.length_eq (c : l.Covers 0 next) :
    l.onboardSeq + l.pushed.length + l.refused.length = next := by
  obtain ⟨hle, hp⟩ := c
  have hlen := hp.length_eq
  rw [List.length_append, List.length_map, List.length_map, List.length_range'] at hlen
  omega

/-- A number that was pushed is one since onboarding. -/
theorem Ledger.Covers.bounds (c : l.Covers 0 next) {e : Entry} (he : e ∈ l.pushed) :
    l.onboardSeq ≤ e.seq ∧ e.seq < next := by
  have hmem := c.2.subset (List.mem_append_left _ (List.mem_map_of_mem he))
  rw [List.mem_range'_1] at hmem
  omega

/-- The queued samples are later than those that have left the queue. -/
theorem Matches.lt_queued (m : Matches h w l out) {e x : Entry} (he : e ∈ l.taken)
    (hx : x ∈ l.pushed.drop w.dataTail) : e.seq < x.seq := by
  have hlt := m.seqs_lt
  rw [← List.take_append_drop w.dataTail l.pushed, List.map_append, List.pairwise_append] at hlt
  exact hlt.2.2 _ (List.mem_map_of_mem (m.kept.subset he)) _ (List.mem_map_of_mem hx)

/-- Samples are taken in order. -/
theorem Matches.lt_taken (m : Matches h w l out) {xs ys : List Entry} (hxs : xs ++ ys = l.taken)
    {e x : Entry} (he : e ∈ xs) (hx : x ∈ ys) : e.seq < x.seq := by
  have hlt := (List.pairwise_cons.mp m.taken_order).2
  rw [← hxs, List.map_append, List.pairwise_append] at hlt
  exact hlt.2.2 _ (List.mem_map_of_mem he) _ (List.mem_map_of_mem hx)

/-- **A gap is a drop.**  A number between two that were taken, and not taken itself, was
evicted or refused, once. -/
theorem Matches.gap_counted (m : Matches h w l out) (c : l.Covers 0 next) {f e : Entry}
    (hf : f ∈ l.taken) (he : e ∈ l.taken) {n : ℕ} (hfn : f.seq < n) (hne : n < e.seq)
    (hn : n ∉ l.taken.map Entry.seq) :
    (l.evicted.map Entry.seq ++ l.refused.map Prod.fst).count n = 1 := by
  have hpushed : ∀ x ∈ l.taken, x ∈ l.pushed := fun x hx => List.mem_of_mem_take (m.kept.subset hx)
  -- it was sent after onboarding, so it was pushed or refused
  have hall : (l.pushed.map Entry.seq ++ l.refused.map Prod.fst).count n = 1 := by
    rw [c.2.count_eq]
    refine List.count_eq_one_of_mem (List.nodup_range' 1) (List.mem_range'_1.mpr ?_)
    have h1 := c.bounds (hpushed f hf)
    have h2 := c.bounds (hpushed e he)
    omega
  -- it is not queued, since a later one has been taken
  have hqueue : ((l.pushed.drop w.dataTail).map Entry.seq).count n = 0 := by
    refine List.count_eq_zero.mpr fun hmem => ?_
    obtain ⟨x, hx, rfl⟩ := List.mem_map.mp hmem
    exact Nat.lt_asymm hne (m.lt_queued he hx)
  have hparts := (m.parts.map Entry.seq).count_eq n
  rw [List.map_append, List.map_append, List.count_append, List.count_append, hqueue,
    List.count_eq_zero.mpr hn] at hparts
  rw [List.count_append] at hall ⊢
  omega

end Ledger

section Counters

variable {calm : Prop} {R : ℕ → Prop} {s : Sys} {b : Bus} {i sl : ℕ}

/-- The ledger of a live subscriber. -/
theorem Good.ledger_of_live (g : Good b.toCore) (h : b.LiveIn i sl) :
    Matches b.hdr (b.slot sl) (b.led sl) (b.book.outstanding sl) :=
  (g.slot sl).ledger fun hr => Stage.noConfusion (hr.symm.trans (g.stage_of_live h))

theorem Good.delivered (g : Good b.toCore) (h : b.LiveIn i sl) : Delivered b i sl := by
  have m := g.ledger_of_live h
  have hlog := ((g.owner sl i).active (g.stage_of_live h)).2.2.2.2
  refine ⟨m.parts, m.seqs_lt.imp Nat.ne_of_lt, m.head, ?_, hlog, ?_, m.counted, m.full⟩
  · intro k hk hle
    rw [land_mask g.exact.queue_pow, m.ring k (by rw [List.length_map]; exact hk) hle,
      List.getElem_map]
  · exact (List.pairwise_cons.mp m.taken_order).2.sublist (hlog.sublist.map _)

theorem SysInv.balanced (inv : SysInv calm R s) (h : s.bus.LiveIn i sl)
    (hpub : s.pub.returned = true) (hsub : (s.sub i).returned = true) : Balanced s.bus i sl := by
  have m := inv.good.ledger_of_live h
  have hidle := inv.pubIdle hpub
  have tally := hidle.steady.tally sl
  obtain ⟨sl', ht⟩ := (inv.subReady hsub h.1).idle h.2.1
  obtain rfl : sl' = sl := Option.some.inj (ht.slot.symm.trans h.2.2)
  have hlog : (s.bus.subs i).log = (s.bus.led sl').taken := by rw [ht.taken, List.append_nil]
  have hlen := m.fate.length_eq
  have htail := m.tail_le
  rw [List.length_append, List.length_take, ← hlog] at hlen
  refine ⟨hlog, ?_, fun hact => ?_, hidle.idle.reports⟩
  · rw [tally.delivered, tally.droppedOldest, (inv.good.tallied i).received, m.head]
    omega
  · have hcov := (tally.covered hact).length_eq
    rw [Ledger.refused_length] at hcov
    rw [tally.delivered, tally.droppedNewest, tally.blockTimeouts]
    exact (Nat.add_assoc _ _ _).trans hcov

end Counters

/-- **Exactly-once, ordered delivery.** -/
theorem delivered_once {s₀ s : Sys} {es : List Event} (h₀ : service.Reach Patient s₀)
    (hq : Quiet s₀) (hr : service.Run NoJoin s₀ es s) {i sl : ℕ} (h : s.bus.LiveIn i sl) :
    Delivered s.bus i sl ∧
      (s.pub.returned = true → (s.sub i).returned = true → Balanced s.bus i sl) := by
  have inv := (SysInv.of_patient h₀).of_run hq (hr.mono fun _ _ hok => ⟨hok, recording_none⟩)
  exact ⟨inv.good.delivered h, inv.balanced h⟩

/-- The second of two samples evicts the first and is received. -/
theorem delivered_once_second : ∃ s₀ s, service.Reach Patient s₀ ∧ Quiet s₀ ∧
    (∃ es, service.Run NoJoin s₀ es s) ∧
    ((s.bus.subs 0).log.map Entry.seq = [2] ∧ (s.bus.led 0).evicted.map Entry.seq = [1]) ∧
    Delivered s.bus 0 0 ∧ Balanced s.bus 0 0 := by
  have hrun : ∃ s₀ s, service.Reach Patient s₀ ∧ Quiet s₀ ∧ service.Run NoJoin s₀
        (List.flatten [[.loan], publisherSteps 5, [.send 0], publisherSteps 29, [.loan],
          publisherSteps 8, [.send 1], publisherSteps 24, [.tryReceive 0],
          subscriberSteps 0 9]) s ∧
      s.bus.LiveIn 0 0 ∧ s.pub.returned = true ∧ (s.sub 0).returned = true ∧
        (s.bus.subs 0).log.map Entry.seq = [2] ∧ (s.bus.led 0).evicted.map Entry.seq = [1] :=
    exists_run_of_still (joining .dropOldest 0) _ (fun _ _ => id) (by decide) (by decide +kernel)
  obtain ⟨s₀, s, h₀, hq, hr, hlive, hpub, hsub, hdata⟩ := hrun
  obtain ⟨hd, hb⟩ := delivered_once h₀ hq hr hlive
  exact ⟨s₀, s, h₀, hq, ⟨_, hr⟩, hdata, hd, hb hpub hsub⟩

/-! ## Losses -/

/-- What subscriber `i` has missed and what the publisher has dropped in its slot `s`. -/
structure Reconciled (b : Bus) (i s : ℕ) : Prop where
  /-- A number that the subscriber has missed was counted once. -/
  gaps : ∀ f ∈ (b.subs i).log.head?, ∀ n, f.seq < n → n < (b.subs i).lastSeq →
    n ∉ (b.subs i).log.map Entry.seq →
    ((b.led s).evicted.map Entry.seq ++ (b.led s).refused.map Prod.fst).count n = 1
  counters : (b.stats s).droppedOldest = (b.led s).evicted.length ∧
    (b.stats s).droppedNewest = (b.led s).refusals .droppedNewest ∧
    (b.stats s).blockTimeouts = (b.led s).refusals .blockTimeout
  total : (b.led s).onboardSeq ∈ (b.subs i).log.map Entry.seq →
    b.calls.nextSeq - 1 ∈ (b.subs i).log.map Entry.seq →
    (b.subs i).observedGaps =
      (b.stats s).droppedOldest + (b.stats s).droppedNewest + (b.stats s).blockTimeouts

section Losses

variable {calm : Prop} {R : ℕ → Prop} {s : Sys} {i sl : ℕ} {b : Bus}

/-- The last sample of a subscriber that has received one. -/
theorem Sub.Tallied.last_mem {u : Sub} (t : u.Tallied) (h : u.log ≠ []) :
    ∃ e ∈ u.log, e.seq = u.lastSeq := by
  refine ⟨u.log.getLast h, List.getLast_mem h, ?_⟩
  rw [t.last, List.getLastD_eq_getLast?, List.getLast?_map, List.getLast?_eq_some_getLast h]
  rfl

/-- The last sample is the latest, the first one the earliest. -/
theorem Sub.Tallied.le_last {u : Sub} (t : u.Tallied)
    (hlt : (u.log.map Entry.seq).Pairwise (· < ·)) {e : Entry} (he : e ∈ u.log) :
    e.seq ≤ u.lastSeq := by
  have hmem : e.seq ∈ u.log.map Entry.seq := List.mem_map_of_mem he
  rw [t.last, List.getLastD_eq_getLast?, List.getLast?_eq_some_getLast (List.ne_nil_of_mem hmem)]
  exact (hlt.imp Nat.le_of_lt).rel_getLast hmem

theorem first_le {log : List Entry} (hlt : (log.map Entry.seq).Pairwise (· < ·)) {f e : Entry}
    (hf : f ∈ log.head?) (he : e ∈ log) : f.seq ≤ e.seq := by
  cases log with
  | nil => cases he
  | cons a l =>
      cases hf
      rcases List.mem_cons.mp he with rfl | he
      · exact Nat.le_refl _
      · exact Nat.le_of_lt ((List.pairwise_cons.mp hlt).1 _ (List.mem_map_of_mem he))

theorem SysInv.reconciled (inv : SysInv calm R s) (h : s.bus.LiveIn i sl)
    (hpub : s.pub.returned = true) : Reconciled s.bus i sl := by
  have m := inv.good.ledger_of_live h
  have tally := (inv.pubIdle hpub).steady.tally sl
  have t := inv.good.tallied i
  obtain ⟨rest, hrest⟩ := ((inv.good.owner sl i).active (inv.good.stage_of_live h)).2.2.2.2
  have htaken : ∀ e ∈ (s.bus.subs i).log, e ∈ (s.bus.led sl).taken := by
    intro e he
    rw [← hrest]
    exact List.mem_append_left _ he
  have hpushed : ∀ e ∈ (s.bus.led sl).taken, e ∈ (s.bus.led sl).pushed :=
    fun e he => List.mem_of_mem_take (m.kept.subset he)
  -- a slot that has been given a sample is onboarded
  have hcov : (s.bus.subs i).log ≠ [] → (s.bus.led sl).Covers 0 s.bus.calls.nextSeq := by
    intro hne
    obtain ⟨e, he⟩ := List.exists_mem_of_ne_nil _ hne
    refine tally.covered (Bool.eq_true_of_not_eq_false fun hact => ?_)
    have := hpushed e (htaken e he)
    rw [(inv.good.slot sl).fresh hact] at this
    cases this
  refine ⟨?_, ⟨tally.droppedOldest, tally.droppedNewest, tally.blockTimeouts⟩, ?_⟩
  · intro f hf n hfn hlast hn
    have hmem := List.mem_of_mem_head? hf
    have hne := List.ne_nil_of_mem hmem
    obtain ⟨e, he, hseq⟩ := t.last_mem hne
    refine m.gap_counted (hcov hne) (htaken f hmem) (htaken e he) hfn (by omega) fun hn' => ?_
    rw [← hrest, List.map_append, List.mem_append] at hn'
    refine hn'.elim hn fun hr => ?_
    obtain ⟨x, hx, rfl⟩ := List.mem_map.mp hr
    exact Nat.lt_asymm (m.lt_taken hrest he hx) (by omega)
  · intro hfirst hlast
    obtain ⟨e₁, he₁, hseq₁⟩ := List.mem_map.mp hfirst
    obtain ⟨e₂, he₂, hseq₂⟩ := List.mem_map.mp hlast
    have c := hcov (List.ne_nil_of_mem he₁)
    have hmax : ∀ x ∈ (s.bus.led sl).pushed, x.seq ≤ e₂.seq := by
      intro x hx
      have := (c.bounds hx).2
      omega
    -- nothing is queued or on its way, since the last sample has been received
    have hrest' : rest = [] := by
      refine List.eq_nil_iff_forall_not_mem.mpr fun x hx => ?_
      have hx' : x ∈ (s.bus.led sl).taken := by
        rw [← hrest]
        exact List.mem_append_right _ hx
      exact Nat.not_le.mpr (m.lt_taken hrest he₂ hx) (hmax x (hpushed x hx'))
    have hqueue : (s.bus.led sl).pushed.drop (s.bus.slot sl).dataTail = [] := by
      refine List.eq_nil_iff_forall_not_mem.mpr fun x hx => ?_
      exact Nat.not_le.mpr (m.lt_queued (htaken e₂ he₂) hx) (hmax x (List.mem_of_mem_drop hx))
    have hparts := m.parts.length_eq
    rw [hqueue, ← hrest, hrest', List.append_nil, List.append_nil, List.length_append] at hparts
    -- so the numbers from the first to the last are those received, evicted and refused
    have hlt : ((s.bus.subs i).log.map Entry.seq).Pairwise (· < ·) :=
      (inv.good.delivered h).increasing
    obtain ⟨f, hf⟩ := Option.isSome_iff_exists.mp
      (List.isSome_head?.mpr (List.ne_nil_of_mem he₁))
    obtain ⟨e, he, hseq⟩ := t.last_mem (List.ne_nil_of_mem he₁)
    have h1 := first_le hlt hf he₁
    have h2 := (c.bounds (hpushed f (htaken f (List.mem_of_mem_head? hf)))).1
    have h3 := t.le_last hlt he₂
    have h4 := hmax e (hpushed e (htaken e he))
    have h5 := t.sum f hf
    have h6 := c.length_eq
    have h7 := c.bounds (hpushed e₂ (htaken e₂ he₂))
    rw [Ledger.refused_length] at h6
    rw [tally.droppedOldest, tally.droppedNewest, tally.blockTimeouts]
    omega

end Losses

/-- **Loss reconciliation.** -/
theorem losses_reconciled {s : Sys} (h : service.Reach Patient s) :
    (∀ i, (∀ f ∈ (s.bus.subs i).log.head?, (s.bus.subs i).received +
        (s.bus.subs i).observedGaps + f.seq = (s.bus.subs i).lastSeq + 1) ∧
      ∀ e ∈ (s.bus.subs i).log.getLast?, (s.bus.subs i).lastSeq = e.seq) ∧
    (s.pub.returned = true → ∀ i sl, s.bus.LiveIn i sl → Reconciled s.bus i sl) := by
  have inv := SysInv.of_patient h
  refine ⟨fun i => ⟨fun f hf => ?_, fun e he => ?_⟩,
    fun hpub i sl hlive => inv.reconciled hlive hpub⟩
  · rw [(inv.good.tallied i).received]
    exact (inv.good.tallied i).sum f hf
  · rw [(inv.good.tallied i).last, List.getLastD_eq_getLast?, List.getLast?_map, he]
    rfl

/-- Of three samples the second is evicted; the subscriber sees one gap, the publisher counts one
drop. -/
theorem losses_reconciled_evicted : ∃ s, service.Reach Patient s ∧
    ((s.bus.subs 0).log.map Entry.seq = [1, 3] ∧ (s.bus.subs 0).observedGaps = 1) ∧
    Reconciled s.bus 0 0 := by
  have hrun : ∃ s, service.Reach Patient s ∧ s.bus.LiveIn 0 0 ∧ s.pub.returned = true ∧
      (s.bus.subs 0).log.map Entry.seq = [1, 3] ∧ (s.bus.subs 0).observedGaps = 1 :=
    Machine.exists_reach_of_exec
      (List.flatten [joining .dropOldest 0, [.loan], publisherSteps 5, [.send 0],
        publisherSteps 29, [.tryReceive 0], subscriberSteps 0 9, [.release 0 ⟨1, 0, 0⟩],
        subscriberSteps 0 4, [.loan], publisherSteps 12, [.send 0], publisherSteps 19, [.loan],
        publisherSteps 8, [.send 1], publisherSteps 24, [.tryReceive 0], subscriberSteps 0 9])
      tiny_init (by decide +kernel)
  obtain ⟨s, hs, hlive, hpub, hdata⟩ := hrun
  exact ⟨s, hs, hdata, (losses_reconciled hs).2 hpub 0 0 hlive⟩

/-- Two subscribers share a slot; the second of three samples goes to the other one.  The first
sees a gap, and the publisher has dropped nothing. -/
theorem gap_without_drop : ∃ s, service.Reach Punctual s ∧ s.bus.LiveIn 0 0 ∧
    s.pub.returned = true ∧ (s.bus.subs 0).log.map Entry.seq = [1, 3] ∧
    (s.bus.subs 0).observedGaps = 1 ∧ (s.bus.stats 0).droppedOldest = 0 ∧
    (s.bus.stats 0).droppedNewest = 0 ∧ (s.bus.stats 0).blockTimeouts = 0 :=
  Machine.exists_reach_of_exec
    (List.flatten [sharing, [.loan], publisherSteps 5, [.send 0], publisherSteps 29,
      [.tryReceive 0], subscriberSteps 0 9, [.release 0 ⟨1, 0, 0⟩], subscriberSteps 0 4, [.loan],
      publisherSteps 12, [.send 0], publisherSteps 19, [.tryReceive 1], subscriberSteps 1 9,
      [.loan], publisherSteps 8, [.send 1], publisherSteps 19, [.tryReceive 0],
      subscriberSteps 0 9])
    tiny_init (by decide +kernel)

end Devbus
