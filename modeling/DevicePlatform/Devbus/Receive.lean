/-
# The subscribers' calls

`SubscriberCore`'s `try_receive`, `release`, `wait` and destructor and `Recorder::poll` keep
to the subscriber's protocol.

A live subscriber is `Attached` to its slot: the samples that the application holds are the
entries in its hands, what it has received is what it has taken from the ring, and its
counters say what is missing between.  Inside `try_receive` it is one sample behind.

The race of `try_receive` with an eviction is decided by the compare-and-swap on
`data_tail`: an index that was loaded before is used only if the tail has not moved since.

The protocol also says when a subscriber may find its queue empty, and when it may report
that the publisher is gone (`Watch`).
-/
import DevicePlatform.Devbus.Footprint
import DevicePlatform.Devbus.Steps

namespace Devbus

open Prog

/-! ## The protocol -/

/-- What a step of subscriber `i` has to do with the end of the publisher. -/
structure Watch (i : ℕ) (b d : Bus) : Prop where
  publisherPid : d.publisherPid = b.publisherPid
  sawEmpty : (d.subs i).sawEmpty = true → (b.subs i).sawEmpty = true ∨
    ∀ s, (d.subs i).slot = some s → (d.slot s).dataTail = (d.slot s).dataHead
  gone : (d.subs i).status = some .publisherGone → (b.subs i).status = some .publisherGone ∨
    ((b.subs i).sawEmpty = true ∧ b.publisherPid = 0)

/-- Most steps have nothing to do with it. -/
theorem Watch.of_same {i : ℕ} {b d : Bus} (hpid : d.publisherPid = b.publisherPid)
    (hsaw : (d.subs i).sawEmpty = (b.subs i).sawEmpty)
    (hstatus : (d.subs i).status = some .publisherGone →
      (b.subs i).status = some .publisherGone) : Watch i b d :=
  ⟨hpid, fun h => .inl (hsaw ▸ h), fun h => .inl (hstatus h)⟩

theorem Watch.setSub {i : ℕ} {b : Bus} {f : Sub → Sub}
    (hsaw : (f (b.subs i)).sawEmpty = (b.subs i).sawEmpty)
    (hstatus : (f (b.subs i)).status = some .publisherGone →
      (b.subs i).status = some .publisherGone) : Watch i b (b.setSub i f) :=
  Watch.of_same rfl (by rw [Bus.setSub_self]; exact hsaw) (by rw [Bus.setSub_self]; exact hstatus)

/-- What subscriber `i` guarantees.  In a calm service it claims no slot and makes none
`Active`. -/
structure SubGuar (calm : Prop) (i : ℕ) (b d : Bus) : Prop where
  move : SubMove i b.toCore d.toCore
  settled : calm → ∀ s, (d.led s).stage.rank ≤ 2 → (d.led s).stage = (b.led s).stage
  watch : Watch i b d

/-- A step of a subscriber. -/
structure SubAct (calm : Prop) (i : ℕ) (b d : Bus) : Prop where
  good : Good d.toCore
  guar : SubGuar calm i b d

/-- The protocol of subscriber `i`. -/
def sub (calm : Prop) (i : ℕ) : Protocol Bus where
  inv b := Good b.toCore ∧ b.alive (b.subs i).pid = true
  rely b d := SubView i b.toCore d.toCore
  guar := SubGuar calm i
  assumed _ := True
  total := False
  rely_refl _ := SubView.refl i _
  rely_trans h h' := h.trans h'
  guar_refl _ := ⟨⟨rfl, rfl, rfl, rfl, rfl, rfl, fun _ _ => rfl, rfl, fun _ => .inl ⟨rfl, rfl⟩⟩,
    fun _ _ _ => rfl, Watch.of_same rfl rfl id⟩

section Rules

variable {calm : Prop} {i : ℕ} {α β : Type} {Q : α → Bus → Prop} {b d : Bus}

/-- The state in which subscriber `i` takes its next step. -/
structure SubNow (i : ℕ) (b t : Bus) : Prop where
  view : SubView i b.toCore t.toCore
  good : Good t.toCore
  alive : t.alive (t.subs i).pid = true

/-- The others leave its object alone. -/
theorem SubNow.subs (h : SubNow i b d) : d.subs i = b.subs i :=
  h.view.subs (by rw [← h.view.pid]; exact h.alive)

/-- They keep its slot. -/
theorem SubNow.keeps (h : SubNow i b d) {s : ℕ}
    (hst : (b.led s).stage = .claimed i ∨ (b.led s).stage = .active i) :
    Keeps (b.slot s) (b.led s) (d.slot s) (d.led s) :=
  h.view.slot (by rw [← h.view.pid]; exact h.alive) s hst

theorem sub_read {g : Bus → β} {k : β → Prog Bus α}
    (h : ∀ t, SubNow i b t → (k (g t)).wp (sub calm i) Q t) :
    (Prog.read g >>= k).wp (sub calm i) Q b :=
  wp_read fun t hr hi => h t ⟨hr, hi.1, hi.2⟩

theorem SubAct.inv (h : SubAct calm i b d) (ha : b.alive (b.subs i).pid = true) :
    Good d.toCore ∧ d.alive (d.subs i).pid = true :=
  ⟨h.good, by rw [h.guar.move.alive, h.guar.move.pid]; exact ha⟩

theorem sub_update {g : Bus → β × Bus} {k : β → Prog Bus α}
    (h : ∀ t, SubNow i b t → SubAct calm i t (g t).2 ∧ (k (g t).1).wp (sub calm i) Q (g t).2) :
    (Prog.update g >>= k).wp (sub calm i) Q b := by
  refine wp_update fun t hr hi _ => ?_
  obtain ⟨hact, hk⟩ := h t ⟨hr, hi.1, hi.2⟩
  exact ⟨hact.inv hi.2, hact.guar, hk⟩

theorem sub_write {g : Bus → Bus} {k : Unit → Prog Bus α}
    (h : ∀ t, SubNow i b t → SubAct calm i t (g t) ∧ (k ()).wp (sub calm i) Q (g t)) :
    (Prog.write g >>= k).wp (sub calm i) Q b := by
  refine wp_write fun t hr hi _ => ?_
  obtain ⟨hact, hk⟩ := h t ⟨hr, hi.1, hi.2⟩
  exact ⟨hact.inv hi.2, hact.guar, hk⟩

/-- A step that keeps the invariant and claims nothing. -/
theorem SubStep.act (h : SubStep i b.toCore d.toCore)
    (hstage : ∀ s, (d.led s).stage.rank ≤ 2 → (d.led s).stage = (b.led s).stage)
    (hwatch : Watch i b d) : SubAct calm i b d :=
  ⟨h.good, ⟨h.move, fun _ => hstage, hwatch⟩⟩

/-- A store to what the protocol is not about. -/
theorem SubAct.refl (g : Good b.toCore) (hcore : d.toCore = b.toCore)
    (hpid : d.publisherPid = b.publisherPid) : SubAct calm i b d := by
  have hsubs : d.subs = b.subs := congrArg Core.subs hcore
  refine ⟨by rw [hcore]; exact g, ⟨?_, ?_, ?_⟩⟩
  · rw [hcore]
    exact ⟨rfl, rfl, rfl, rfl, rfl, rfl, fun _ _ => rfl, rfl, fun _ => .inl ⟨rfl, rfl⟩⟩
  · intro _ s _
    rw [hcore]
  · exact Watch.of_same hpid (by rw [hsubs]) (by rw [hsubs]; exact id)

end Rules

/-! ## A subscriber between its calls -/

/-- The gap before a sample is counted when it is received. -/
theorem Sub.Tallied.receive {u : Sub} {e : Entry} (t : u.Tallied)
    (horder : (0 :: (u.log ++ [e]).map Entry.seq).Pairwise (· < ·)) :
    (u.receive e).Tallied := by
  rw [List.map_append, ← List.cons_append, List.pairwise_append] at horder
  obtain ⟨hlog, -, hlast⟩ := horder
  have hlt : u.lastSeq < e.seq := by
    rw [t.last]
    exact hlast _ List.getLastD_mem_cons _ List.mem_cons_self
  refine ⟨?_, ?_,
    fun h => absurd h (List.append_ne_nil_of_right_ne_nil _ (List.cons_ne_nil _ _)), ?_⟩
  · show u.received + 1 = (u.log ++ [e]).length
    rw [List.length_append, List.length_singleton, t.received]
  · show e.seq = ((u.log ++ [e]).map Entry.seq).getLastD 0
    rw [List.map_append, List.map_singleton, List.getLastD_concat]
  · intro f hf
    have hseq : (u.receive e).lastSeq = e.seq := rfl
    have hgaps : (u.receive e).observedGaps =
        if u.lastSeq ≠ 0 ∧ e.seq > u.lastSeq + 1 then u.observedGaps + (e.seq - u.lastSeq - 1)
        else u.observedGaps := rfl
    have hlen : (u.receive e).log.length = u.log.length + 1 := List.length_append
    rw [hseq, hgaps, hlen]
    change f ∈ (u.log ++ [e]).head? at hf
    cases hl : u.log with
    | nil =>
        rw [hl] at hf
        cases hf
        have h0 := t.none hl
        have h1 := t.last
        rw [hl] at h1
        rw [if_neg (fun h => h.1 h1), h0, List.length_nil]
        omega
    | cons a l =>
        rw [hl] at hf
        cases hf
        have hsum := t.sum f (by rw [hl]; rfl)
        rw [hl] at hsum
        have hpos : 0 < u.lastSeq := by
          rw [t.last, hl, List.map_cons, List.getLastD_cons]
          rw [hl, List.map_cons] at hlog
          exact (List.pairwise_cons.mp hlog).1 _ List.getLastD_mem_cons
        split_ifs with h
        · omega
        · omega

/-- Subscriber `i` owns slot `s`; the entries `won` it has taken and not yet handed out. -/
structure Attached (i s : ℕ) (won : List Entry) (b : Bus) : Prop where
  slot : (b.subs i).slot = some s
  stage : (b.led s).stage = .active i
  hand : (b.led s).hand = (b.subs i).samples ++ won
  taken : (b.led s).taken = (b.subs i).log ++ won
  borrowed : (b.subs i).borrowed = (b.subs i).samples.length

/-- Subscriber `i` between two calls. -/
def SubIdle (i : ℕ) (b : Bus) : Prop := (b.subs i).phase = .live → ∃ s, Attached i s [] b

section Calls

variable {calm : Prop} {i s : ℕ} {won : List Entry} {b d : Bus}

theorem Attached.now (t : Attached i s won b) (h : SubNow i b d) : Attached i s won d := by
  have k := h.keeps (.inr t.stage)
  refine ⟨?_, k.stage.trans t.stage, ?_, ?_, ?_⟩
  · rw [h.subs]
    exact t.slot
  · rw [k.hand, h.subs]
    exact t.hand
  · rw [k.taken, h.subs]
    exact t.taken
  · rw [h.subs]
    exact t.borrowed

/-- Futex words are not part of it. -/
theorem Attached.setFutex (t : Attached i s won b) (s' : ℕ) (f : FutexWords → FutexWords) :
    Attached i s won (b.setFutex s' f) :=
  ⟨t.slot, t.stage, t.hand, t.taken, t.borrowed⟩

/-- The ledger of the slot is in step with its words. -/
theorem Attached.ledger (t : Attached i s won b) (g : Good b.toCore) :
    Matches b.hdr (b.slot s) (b.led s) (b.book.outstanding s) := by
  refine (g.slot s).ledger ?_
  rw [t.stage]
  exact Stage.noConfusion

/-- The subscriber has no other slot. -/
theorem Good.only {c : Core} (g : Good c) (hslot : (c.subs i).slot = some s) (s' : ℕ)
    (hne : s' ≠ s) : (c.led s').stage ≠ .claimed i ∧ (c.led s').stage ≠ .active i ∧
      (c.led s').stage ≠ .closing i := by
  refine ⟨?_, ?_, ?_⟩
  · intro hst
    have h := ((g.owner s' i).claimed hst).1
    rw [hslot] at h
    exact hne (Option.some.inj h).symm
  · intro hst
    have h := ((g.owner s' i).active hst).1
    rw [hslot] at h
    exact hne (Option.some.inj h).symm
  · intro hst
    have h := ((g.owner s' i).closing hst).1
    rw [hslot] at h
    exact hne (Option.some.inj h).symm

/-- A slot in use is one of the service's. -/
theorem Good.lt_of_stage {c : Core} (g : Good c) (hst : (c.led s).stage ≠ .free) :
    s < c.hdr.maxSubscribers := by
  by_contra hge
  exact hst (g.beyond s (by omega))

/-- The subscriber changes its object and nothing that ties it to its slot. -/
theorem Attached.setSub (t : Attached i s won b) (g : Good b.toCore) {f : Sub → Sub}
    (hphase : (f (b.subs i)).phase = (b.subs i).phase) (hpid : (f (b.subs i)).pid = (b.subs i).pid)
    (hslot : (f (b.subs i)).slot = some s) (hsamples : (f (b.subs i)).samples ⊆ (b.led s).hand)
    (hlog : (f (b.subs i)).log <+: (b.led s).taken) (htally : (f (b.subs i)).Tallied)
    (hwatch : Watch i b (b.setSub i f)) :
    SubAct calm i b (b.setSub i f) := by
  have o := (g.owner s i).active t.stage
  have hlive : (f (b.subs i)).phase = .live := hphase.trans o.2.2.1
  refine (g.setSub ?_ ?_ hpid htally).act (fun _ _ => rfl) hwatch
  · intro s'
    by_cases hne : s' = s
    · subst hne
      refine ⟨fun hst => ?_, fun _ => ⟨hslot, hpid.trans o.2.1, hlive, hsamples, hlog⟩,
        fun hst => ?_⟩ <;> cases t.stage.symm.trans hst
    · obtain ⟨h1, h2, h3⟩ := g.only t.slot s' hne
      exact ⟨fun h => absurd h h1, fun h => absurd h h2, fun h => absurd h h3⟩
  · intro _
    refine ⟨fun hb => ?_, fun _ => ⟨s, hslot, t.stage⟩⟩
    rw [hlive] at hb
    cases hb

/-- The subscriber changes its active slot. -/
theorem Good.subActive {c : Core} (g : Good c) (hst : (c.led s).stage = .active i)
    {w : SlotWords} {l : Ledger} {u : Sub} (hmove : SlotMove (c.slot s) (c.led s) w l)
    (hstage : l.stage = .active i) (hstate : w.state = (c.slot s).state)
    (hpid : w.pid = (c.slot s).pid) (m : Matches c.hdr w l (c.book.outstanding s))
    (hstored : ∀ e ∈ l.hand, c.chunkSeq e.chunk = e.seq ∧ c.payload e.chunk = e.payload)
    (huslot : u.slot = (c.subs i).slot) (hupid : u.pid = (c.subs i).pid)
    (huphase : u.phase = (c.subs i).phase) (hsamples : u.samples ⊆ l.hand)
    (hlog : u.log <+: l.taken) (htally : u.Tallied) :
    SubStep i c { c with
      slot := Function.update c.slot s w
      led := Function.update c.led s l
      subs := Function.update c.subs i u } := by
  have o := (g.owner s i).active hst
  have hheld : (c.led s).stage.Held := by
    rw [hst]
    trivial
  have hne : (c.led s).stage ≠ .free := by
    rw [hst]
    exact Stage.noConfusion
  have hown := hmove.ownerPid hne
  have hlive : u.phase = .live := huphase.trans o.2.2.1
  refine g.subSlot (g.lt_of_stage hne) (.inr (.inr hst)) (g.only o.1) hmove ?_ ?_
    (.inr (.inl hstage)) ⟨?_, ?_, ?_⟩ (huslot.trans o.1) ?_ (fun _ => hstage) hupid htally
  · refine (g.slot s).keep hheld (hstage.trans hst.symm) hown hstate hpid m ?_ ?_
    · intro ha
      exact ((g.slot s).onboarded ha (Stage.held_iff.mp hheld).2).2
    · rw [hmove.pushed]
      exact (g.slot s).fresh
  · rintro e (he | he)
    · rw [hmove.pushed] at he
      exact g.stored s e (.inl (List.drop_subset_drop_left _ hmove.tail he))
    · exact hstored e he
  · intro h
    rw [hstage] at h
    cases h
  · intro _
    refine ⟨huslot.trans o.1, ?_, hlive, hsamples, hlog⟩
    rw [hupid, hown]
    exact o.2.1
  · intro h
    rw [hstage] at h
    cases h
  · intro hb
    rw [hlive] at hb
    cases hb

/-- The stages after a step on one slot. -/
theorem stage_of_update {led : ℕ → Ledger} {l : Ledger}
    (hstage : l.stage.rank ≤ 2 → l.stage = (led s).stage) (s' : ℕ)
    (hr : (Function.update led s l s').stage.rank ≤ 2) :
    (Function.update led s l s').stage = (led s').stage := by
  by_cases hs : s' = s
  · subst hs
    rw [Function.update_self] at hr ⊢
    exact hstage hr
  · rw [Function.update_of_ne hs]

/-! ## `try_receive` -/

/-- The compare-and-swap on `data_tail` succeeds. -/
theorem Attached.take (calm : Prop) (t : Attached i s [] b) (g : Good b.toCore) {e : Entry}
    (he : (b.led s).pushed[(b.slot s).dataTail]? = some e)
    (hlt : (b.subs i).borrowed < b.hdr.maxBorrowed) (f : FutexWords → FutexWords) :
    let b' := ((b.setSlot s fun w => { w with dataTail := (b.slot s).dataTail + 1 }).setLed s
      fun l => { l with taken := l.taken ++ [e], hand := l.hand ++ [e] }).setFutex s f
    SubAct calm i b b' ∧ Attached i s [e] b' := by
  obtain ⟨hidx, rfl⟩ := List.getElem?_eq_some_iff.mp he
  have m := t.ledger g
  have o := (g.owner s i).active t.stage
  have hhand : (b.led s).hand.length < b.hdr.maxBorrowed := by
    rw [t.hand, List.append_nil, ← t.borrowed]
    exact hlt
  intro b'
  have hled : b'.led s = { b.led s with
      taken := (b.led s).taken ++ [(b.led s).pushed[(b.slot s).dataTail]]
      hand := (b.led s).hand ++ [(b.led s).pushed[(b.slot s).dataTail]] } :=
    Function.update_self ..
  have step := g.subActive t.stage
    (w := { b.slot s with dataTail := (b.slot s).dataTail + 1 })
    (l := { b.led s with
      taken := (b.led s).taken ++ [(b.led s).pushed[(b.slot s).dataTail]]
      hand := (b.led s).hand ++ [(b.led s).pushed[(b.slot s).dataTail]] })
    (u := b.subs i)
    ⟨rfl, rfl, rfl, rfl, rfl, rfl, rfl, rfl, rfl, Nat.le_succ _, Nat.le_refl _,
      by simp only [List.length_append, List.length_singleton]; omega, Nat.le_refl _, id,
      fun _ => rfl, fun _ => rfl⟩
    t.stage rfl rfl (m.take hidx hhand) ?_ rfl rfl rfl
    (List.subset_append_of_subset_left _ o.2.2.2.1) (o.2.2.2.2.trans (List.prefix_append _ _))
    (g.tallied i)
  · rw [Function.update_eq_self] at step
    refine ⟨step.act (stage_of_update fun _ => rfl) (Watch.of_same rfl rfl id), ?_⟩
    · refine ⟨t.slot, by rw [hled]; exact t.stage, ?_, ?_, t.borrowed⟩
      · have h := t.hand
        rw [List.append_nil] at h
        rw [hled]
        exact congrArg (· ++ _) h
      · have h := t.taken
        rw [List.append_nil] at h
        rw [hled]
        exact congrArg (· ++ _) h
  · intro e he
    rcases List.mem_append.mp he with hold | hnew
    · exact g.stored s e (.inr hold)
    · rw [List.mem_singleton.mp hnew]
      refine g.stored s _ (.inl ?_)
      rw [List.mem_iff_getElem]
      refine ⟨0, by rw [List.length_drop]; omega, ?_⟩
      rw [List.getElem_drop]
      rfl

/-- What a subscriber has taken has increasing sequence numbers. -/
theorem Matches.taken_order {h : Header} {w : SlotWords} {l : Ledger} {out : ℕ → ℕ}
    (m : Matches h w l out) : (0 :: l.taken.map Entry.seq).Pairwise (· < ·) :=
  m.order.sublist (((m.kept.trans (List.take_sublist _ _)).map _).cons_cons _)

/-- The sample is handed out: it is the one that was sent. -/
theorem Attached.receive {e : Entry} (calm : Prop) (t : Attached i s [e] b) (g : Good b.toCore) :
    e.chunk < b.hdr.chunkCount ∧
      (⟨b.chunkSeq e.chunk, b.payload e.chunk, e.chunk⟩ : Entry) = e ∧
      SubAct calm i b (b.setSub i (Sub.receive e)) ∧
      Attached i s [] (b.setSub i (Sub.receive e)) := by
  have hmem : e ∈ (b.led s).hand := by
    rw [t.hand]
    exact List.mem_append_right _ List.mem_cons_self
  obtain ⟨hseq, hpay⟩ := g.stored s e (.inr hmem)
  have hout := g.outstanding_of_entry (s := s) (.inr hmem)
  have horder := (t.ledger g).taken_order
  rw [t.taken] at horder
  have hsub := Bus.setSub_self (i := i) (f := Sub.receive e) (b := b)
  refine ⟨(g.pool.lt_of_outstanding (s := s) (by omega)).2, by rw [hseq, hpay],
    t.setSub g rfl rfl t.slot ?_ ?_ ((g.tallied i).receive horder) ?_, ?_⟩
  · rw [t.hand]
    exact List.Subset.refl _
  · rw [t.taken]
    exact List.prefix_rfl
  · refine Watch.setSub rfl ?_
    rintro ⟨⟩
  · refine ⟨?_, t.stage, ?_, ?_, ?_⟩
    · rw [hsub]
      exact t.slot
    · rw [hsub, List.append_nil]
      exact t.hand
    · rw [hsub, List.append_nil]
      exact t.taken
    · rw [hsub]
      show (b.subs i).borrowed + 1 = ((b.subs i).samples ++ [e]).length
      rw [List.length_append, List.length_singleton, t.borrowed]

/-- Status, flag and file are the subscriber's own. -/
theorem Attached.setOwn (calm : Prop) (t : Attached i s [] b) (g : Good b.toCore)
    (r : Option ReceiveStatus)
    (saw : Bool) (file : List Record)
    (hwatch : Watch i b
      (b.setSub i fun u => { u with status := r, sawEmpty := saw, file := file })) :
    let b' := b.setSub i fun u => { u with status := r, sawEmpty := saw, file := file }
    SubAct calm i b b' ∧ Attached i s [] b' ∧
      b'.subs i = { b.subs i with status := r, sawEmpty := saw, file := file } := by
  have o := (g.owner s i).active t.stage
  intro b'
  have hsub : b'.subs i = { b.subs i with status := r, sawEmpty := saw, file := file } :=
    Bus.setSub_self
  refine ⟨t.setSub g rfl rfl t.slot o.2.2.2.1 o.2.2.2.2 ((g.tallied i).keep rfl rfl rfl rfl)
    hwatch, ?_, hsub⟩
  exact ⟨by rw [hsub]; exact t.slot, t.stage, by rw [hsub]; exact t.hand,
    by rw [hsub]; exact t.taken, by rw [hsub]; exact t.borrowed⟩

/-- The wake-up of the publisher touches futex words only. -/
theorem wakeSpace_spec (t : Attached i s won b) :
    (Subscriber.wakeSpace s).wp (sub calm i)
      (fun _ b' => Attached i s won b' ∧ b'.subs i = b.subs i) b := by
  unfold Subscriber.wakeSpace
  refine sub_write fun b₁ h₁ => ⟨SubAct.refl h₁.good rfl rfl, ?_⟩
  have t₁ := (t.now h₁).setFutex s fun f =>
    { f with spaceFutex := f.spaceFutex + 1, spaceDue := .wake }
  refine sub_write fun b₂ h₂ => ⟨SubAct.refl h₂.good rfl rfl, ?_⟩
  exact ⟨(t₁.now h₂).setFutex s _, h₂.subs.trans h₁.subs⟩

theorem wakePublisher_spec (t : Attached i s won b) :
    (Subscriber.wakePublisher s).wp (sub calm i)
      (fun _ b' => Attached i s won b' ∧ b'.subs i = b.subs i) b := by
  unfold Subscriber.wakePublisher
  refine sub_update fun b₁ h₁ => ⟨SubAct.refl h₁.good rfl rfl, ?_⟩
  have t₁ := (t.now h₁).setFutex s fun f =>
    if f.publisherWaiting = 0 then { f with spaceDue := .nothing } else f
  dsimp only
  split
  · refine wp_mono (wakeSpace_spec t₁) ?_
    rintro - b₂ ⟨t₂, hsub⟩
    exact ⟨t₂, hsub.trans h₁.subs⟩
  · exact ⟨t₁, h₁.subs⟩

/-- What a call of `try_receive` has done to the object `u`. -/
structure Sub.Received (u u' : Sub) : Prop where
  file : u'.file = u.file
  log : (∃ e, u'.status = some (.ok e) ∧ e ∈ u'.samples ∧ u'.log = u.log ++ [e]) ∨
    (∀ e, u'.status ≠ some (.ok e)) ∧ u'.log = u.log

/-- A round of `try_receive` that has to be repeated leaves the object `u` as it was. -/
structure Retry (i s : ℕ) (u : Sub) (b : Bus) : Prop where
  attached : Attached i s [] b
  limit : (b.subs i).borrowed < b.hdr.maxBorrowed
  file : (b.subs i).file = u.file
  log : (b.subs i).log = u.log

theorem Retry.now {u : Sub} (t : Retry i s u b) (h : SubNow i b d) : Retry i s u d :=
  ⟨t.attached.now h, by rw [h.subs, h.view.hdr]; exact t.limit, by rw [h.subs]; exact t.file,
    by rw [h.subs]; exact t.log⟩

/-- The load of `data_head`: the queue is empty if the tail loaded before is the head. -/
theorem Retry.look {u : Sub} {tail : ℕ} (calm : Prop) (t : Retry i s u b) (g : Good b.toCore)
    (htail : tail ≤ (b.slot s).dataTail) :
    let b' := b.setSub i fun v => { v with sawEmpty := decide (tail = (b.slot s).dataHead) }
    SubAct calm i b b' ∧ Retry i s u b' ∧
      (b'.subs i).sawEmpty = decide (tail = (b.slot s).dataHead) := by
  have m := t.attached.ledger g
  have hwatch : Watch i b (b.setSub i fun v =>
      { v with sawEmpty := decide (tail = (b.slot s).dataHead) }) := by
    refine ⟨rfl, fun h => .inr ?_, fun h => .inl (by rwa [Bus.setSub_self] at h)⟩
    rw [Bus.setSub_self] at h ⊢
    intro s' hs'
    have hs : s' = s := Option.some.inj (hs'.symm.trans t.attached.slot)
    have h1 := m.tail_le
    have h2 := m.head
    have h3 := of_decide_eq_true h
    rw [hs]
    show (b.slot s).dataTail = (b.slot s).dataHead
    omega
  obtain ⟨act, t', hsub⟩ := t.attached.setOwn calm g (b.subs i).status
    (decide (tail = (b.slot s).dataHead)) (b.subs i).file hwatch
  refine ⟨act, ⟨t', ?_, ?_, ?_⟩, ?_⟩
  · exact (congrArg Sub.borrowed hsub).trans_lt t.limit
  · exact (congrArg Sub.file hsub).trans t.file
  · exact (congrArg Sub.log hsub).trans t.log
  · exact congrArg Sub.sawEmpty hsub

/-- The queue is empty: the status tells whether the publisher is gone. -/
theorem Retry.report {u : Sub} (t : Retry i s u b) (g : Good b.toCore)
    (hsaw : (b.subs i).sawEmpty = true) :
    let b' := b.setSub i fun v => { v with
      status := some (if b.publisherPid = 0 then .publisherGone else .empty)
      sawEmpty := false }
    SubAct calm i b b' ∧ Attached i s [] b' ∧ u.Received (b'.subs i) := by
  have hwatch : Watch i b (b.setSub i fun v => { v with
      status := some (if b.publisherPid = 0 then .publisherGone else .empty)
      sawEmpty := false }) := by
    refine ⟨rfl, fun h => ?_, fun h => .inr ⟨hsaw, ?_⟩⟩
    · rw [Bus.setSub_self] at h
      cases h
    · rw [Bus.setSub_self] at h
      by_contra hne
      rw [if_neg hne] at h
      cases h
  obtain ⟨act, t', hsub⟩ := t.attached.setOwn calm g
    (some (if b.publisherPid = 0 then .publisherGone else .empty)) false (b.subs i).file hwatch
  refine ⟨act, t', (congrArg Sub.file hsub).trans t.file, .inr ⟨fun e h => ?_, ?_⟩⟩
  · have hstatus := (congrArg Sub.status hsub).symm.trans h
    dsimp only at hstatus
    split at hstatus <;> cases hstatus
  · exact (congrArg Sub.log hsub).trans t.log

/-- **A round of `try_receive`**. -/
theorem receiveRound_spec {u : Sub} (t : Retry i s u b) :
    (Subscriber.receiveRound i s).wp (sub calm i)
      (fun r b' => match r with
        | .inl _ => Retry i s u b'
        | .inr _ => Attached i s [] b' ∧ u.Received (b'.subs i)) b := by
  unfold Subscriber.receiveRound
  refine sub_read fun b₁ h₁ => ?_
  have t₁ := t.now h₁
  refine sub_read fun b₂ h₂ => ?_
  have t₂ := t₁.now h₂
  refine sub_update fun b₃ h₃ => ?_
  have k₃ := h₃.keeps (.inr t₂.attached.stage)
  obtain ⟨act, t₃, hsaw⟩ := (t₂.now h₃).look calm h₃.good k₃.tail
  refine ⟨act, ?_⟩
  have hhead := ((t₂.now h₃).attached.ledger h₃.good).head
  have htail := (t₂.attached.ledger h₂.good).tail_le
  dsimp only
  split
  · -- nothing is queued
    next heq =>
    refine sub_write fun b₄ h₄ => ?_
    refine (t₃.now h₄).report h₄.good ?_
    rw [h₄.subs]
    exact hsaw.trans (decide_eq_true heq)
  · next hne =>
    refine sub_read fun b₄ h₄ => ?_
    have t₄ := t₃.now h₄
    have k₄ := h₄.keeps (.inr t₃.attached.stage)
    refine sub_update fun b₅ h₅ => ?_
    have t₅ := t₄.now h₅
    have k₅ := h₅.keeps (.inr t₄.attached.stage)
    by_cases hcas : (b₅.slot s).dataTail = (b₂.slot s).dataTail
    · -- the tail has not moved, so the entry that was loaded is the oldest one
      have h43 : (b₃.slot s).dataTail ≤ (b₄.slot s).dataTail := k₄.tail
      have h54 := k₅.tail
      have hlen : (b₂.slot s).dataTail < (b₄.led s).pushed.length := by
        have h1 := k₃.pushed.length_le
        have h2 : (b₃.led s).pushed.length ≤ (b₄.led s).pushed.length := k₄.pushed.length_le
        omega
      have hcap : b₁.hdr.queueCapacity = b₄.hdr.queueCapacity := by
        rw [h₄.view.hdr]
        show _ = b₃.hdr.queueCapacity
        rw [h₃.view.hdr, h₂.view.hdr]
      have hloaded : (b₄.slot s).dataRing
          ((b₂.slot s).dataTail &&& (b₁.hdr.queueCapacity - 1)) =
          ((b₄.led s).pushed[(b₂.slot s).dataTail]).chunk := by
        have hring := (t₄.attached.ledger h₄.good).ring (b₂.slot s).dataTail
          (by rw [List.length_map]; exact hlen)
        rw [hcap, land_mask h₄.good.exact.queue_pow, hring (by have := k₃.tail; omega),
          List.getElem_map]
      have he : (b₅.led s).pushed[(b₅.slot s).dataTail]? =
          some (b₄.led s).pushed[(b₂.slot s).dataTail] := by
        rw [hcas]
        exact List.getElem?_eq_some_iff.mpr
          ⟨Nat.lt_of_lt_of_le hlen k₅.pushed.length_le, (k₅.pushed.getElem hlen).symm⟩
      rw [if_pos hcas, hloaded]
      generalize (b₄.led s).pushed[(b₂.slot s).dataTail] = e at he
      obtain ⟨act, t₆⟩ := t₅.attached.take calm h₅.good he t₅.limit
        fun f => { f with spaceDue := .bump }
      rw [hcas] at he act t₆
      rw [Bus.setLed_congr (s := s)
        (g := fun l => { l with taken := l.taken ++ [e], hand := l.hand ++ [e] }) (by
          show Ledger.mk _ _ _ _ _ ((b₅.led s).taken ++ ((b₅.led s).pushed[_]?).toList)
            ((b₅.led s).hand ++ ((b₅.led s).pushed[_]?).toList) _ _ _ _ _ = _
          rw [he]
          rfl)]
      refine ⟨act, ?_⟩
      dsimp only
      rw [if_pos rfl]
      refine wp_seq (wakePublisher_spec t₆) ?_
      rintro - b₆ ⟨t₆, hsub₆⟩
      refine sub_update fun b₇ h₇ => ?_
      obtain ⟨hlt, hentry, act, t₇⟩ := (t₆.now h₇).receive calm h₇.good
      rw [if_neg (Nat.not_le.mpr hlt), hentry]
      refine ⟨act, ?_⟩
      dsimp only
      rw [if_pos rfl]
      have hu : b₇.subs i = b₅.subs i := h₇.subs.trans hsub₆
      refine ⟨t₇, ?_⟩
      rw [Bus.setSub_self, hu]
      refine ⟨t₅.file, .inl ⟨e, rfl, List.mem_append_right _ List.mem_cons_self, ?_⟩⟩
      exact congrArg (· ++ [e]) t₅.log
    · rw [if_neg hcas]
      refine ⟨SubAct.refl h₅.good rfl rfl, ?_⟩
      dsimp only
      rw [if_neg Bool.false_ne_true]
      exact t₅

/-- **`try_receive`**. -/
theorem tryReceive_spec (t : Attached i s [] b) :
    (Subscriber.tryReceive i s).wp (sub calm i)
      (fun _ b' => Attached i s [] b' ∧ (b.subs i).Received (b'.subs i)) b := by
  unfold Subscriber.tryReceive
  refine sub_read fun b₁ h₁ => ?_
  have t₁ := t.now h₁
  split
  · refine sub_write fun b₂ h₂ => ?_
    have t₂ := t₁.now h₂
    have hu : b₂.subs i = b.subs i := h₂.subs.trans h₁.subs
    obtain ⟨act, t₃, -⟩ := t₂.setOwn calm h₂.good (some .borrowLimit)
      (b₂.subs i).sawEmpty (b₂.subs i).file (Watch.setSub rfl (by rintro ⟨⟩))
    refine ⟨act, t₃, ?_⟩
    rw [Bus.setSub_self, hu]
    exact ⟨rfl, .inr ⟨by rintro e ⟨⟩, rfl⟩⟩
  · next hlimit =>
    rw [decide_eq_true_iff, not_le] at hlimit
    refine wp_loop (fun _ d => Retry i s (b.subs i) d) id ?_
      ⟨t₁, hlimit, by rw [h₁.subs], by rw [h₁.subs]⟩ ?_
    · intro _ d d' j hr hi
      exact j.now ⟨hr, hi.1, hi.2⟩
    · intro _ d j
      refine wp_mono (receiveRound_spec j) ?_
      rintro (_ | _) d' hround
      · exact hround
      · exact hround

/-! ## `release` -/

/-- The chunk's index is in the done ring, and is published. -/
theorem Attached.release {e : Entry} (calm : Prop) (t : Attached i s [] b) (g : Good b.toCore)
    (he : e ∈ (b.subs i).samples)
    (hring : (b.slot s).doneRing ((b.led s).released.length % b.hdr.completionCapacity) = e.chunk) :
    let b' := ((b.setSlot s fun w => { w with doneHead := (b.led s).released.length + 1 }).setLed s
        fun l => { l with released := l.released ++ [e.chunk], hand := l.hand.erase e }).setSub i
      fun u => { u with borrowed := u.borrowed - 1, samples := u.samples.erase e }
    SubAct calm i b b' ∧ Attached i s [] b' ∧ (b'.subs i).file = (b.subs i).file ∧
      (b'.subs i).log = (b.subs i).log := by
  have hhand : (b.led s).hand = (b.subs i).samples := by
    rw [t.hand, List.append_nil]
  have hmem : e ∈ (b.led s).hand := by
    rw [hhand]
    exact he
  have o := (g.owner s i).active t.stage
  intro b'
  have hled : b'.led s = { b.led s with
      released := (b.led s).released ++ [e.chunk]
      hand := (b.led s).hand.erase e } := Function.update_self ..
  have hsub : b'.subs i = { b.subs i with
      borrowed := (b.subs i).borrowed - 1
      samples := (b.subs i).samples.erase e } := Bus.setSub_self
  have step := g.subActive t.stage
    (w := { b.slot s with doneHead := (b.led s).released.length + 1 })
    (l := { b.led s with
      released := (b.led s).released ++ [e.chunk]
      hand := (b.led s).hand.erase e })
    (u := { b.subs i with
      borrowed := (b.subs i).borrowed - 1
      samples := (b.subs i).samples.erase e })
    ⟨rfl, rfl, rfl, rfl, rfl, rfl, rfl, rfl, rfl, Nat.le_refl _,
      List.length_append ▸ Nat.le_add_right _ _, ?_, Nat.le_refl _, id, fun _ => rfl, fun _ => rfl⟩
    t.stage rfl rfl ((t.ledger g).release hmem hring)
    (fun x hx => g.stored s x (.inr (List.mem_of_mem_erase hx))) rfl rfl rfl
    (by rw [hhand]; exact List.Subset.refl _) o.2.2.2.2
    ((g.tallied i).keep rfl rfl rfl rfl)
  · refine ⟨step.act (stage_of_update fun _ => rfl)
      (Watch.of_same rfl (by rw [hsub]) (by rw [hsub]; exact id)), ?_, by rw [hsub], by rw [hsub]⟩
    · refine ⟨by rw [hsub]; exact t.slot, by rw [hled]; exact t.stage, ?_, by
        rw [hled, hsub]; exact t.taken, ?_⟩
      · rw [hled, hsub, List.append_nil]
        exact congrArg (List.erase · e) hhand
      · rw [hsub]
        show (b.subs i).borrowed - 1 = ((b.subs i).samples.erase e).length
        rw [t.borrowed, List.length_erase_of_mem he]
  · have h1 := List.length_erase_of_mem hmem
    have h2 := List.length_pos_of_mem hmem
    simp only [List.length_append, List.length_singleton]
    omega

/-- **`release`**. -/
theorem release_spec {e : Entry} (t : Attached i s [] b) (he : e ∈ (b.subs i).samples) :
    (Subscriber.release i s e).wp (sub calm i)
      (fun _ b' => Attached i s [] b' ∧ (b'.subs i).file = (b.subs i).file ∧
        (b'.subs i).log = (b.subs i).log) b := by
  unfold Subscriber.release
  refine sub_read fun b₁ h₁ => ?_
  have t₁ := t.now h₁
  refine sub_read fun b₂ h₂ => ?_
  have t₂ := t₁.now h₂
  have hhead := (t₂.ledger h₂.good).doneHead
  refine sub_write fun b₃ h₃ => ?_
  have t₃ := t₂.now h₃
  have k₃ := h₃.keeps (.inr t₂.stage)
  have hu₃ : b₃.subs i = b.subs i := h₃.subs.trans (h₂.subs.trans h₁.subs)
  have m₃ := t₃.ledger h₃.good
  have o₃ := (h₃.good.owner s i).active t₃.stage
  have hmem : e ∈ (b₃.led s).hand := by
    rw [t₃.hand, List.append_nil, hu₃]
    exact he
  -- the slot of the done ring is the one after the newest entry
  have hindex : (b₂.slot s).doneHead &&& (b₁.hdr.completionCapacity - 1) =
      (b₃.led s).released.length % b₃.hdr.completionCapacity := by
    rw [hhead, k₃.released, h₃.view.hdr, h₂.view.hdr]
    exact land_mask h₁.good.exact.done_pow
  have hnum : (b₂.slot s).doneHead = (b₃.led s).released.length := by rw [hhead, k₃.released]
  rw [hindex]
  have step := h₃.good.subActive t₃.stage
    (w := { b₃.slot s with
      doneRing := Function.update (b₃.slot s).doneRing
        ((b₃.led s).released.length % b₃.hdr.completionCapacity) e.chunk })
    (l := b₃.led s) (u := b₃.subs i)
    ⟨rfl, rfl, rfl, rfl, rfl, rfl, rfl, rfl, rfl, Nat.le_refl _, Nat.le_refl _, rfl, Nat.le_refl _,
      id, fun _ => rfl, fun _ => rfl⟩
    t₃.stage rfl rfl
    (m₃.writeDone e.chunk (m₃.doneRoom h₃.good.exact.count_le hmem))
    (fun x hx => h₃.good.stored s x (.inr hx)) rfl rfl rfl o₃.2.2.2.1 o₃.2.2.2.2
    (h₃.good.tallied i)
  rw [Function.update_eq_self, Function.update_eq_self] at step
  refine ⟨step.act (fun _ _ => rfl) (Watch.of_same rfl rfl id), ?_⟩
  refine sub_write fun b₄ h₄ => ?_
  have t₃' : Attached i s [] (b₃.setSlot s fun w => { w with
      doneRing := Function.update w.doneRing
        ((b₃.led s).released.length % b₃.hdr.completionCapacity) e.chunk }) :=
    ⟨t₃.slot, t₃.stage, t₃.hand, t₃.taken, t₃.borrowed⟩
  have k₄ := h₄.keeps (.inr t₃'.stage)
  have hreleased : (b₄.led s).released = (b₃.led s).released := k₄.released
  have hu₄ : b₄.subs i = b.subs i := h₄.subs.trans hu₃
  rw [hnum, ← hreleased]
  obtain ⟨act, t₄, hfile, hlog⟩ := (t₃'.now h₄).release calm (e := e) h₄.good
    (by rw [hu₄]; exact he) (by
      rw [k₄.doneRing, hreleased, h₄.view.hdr, Bus.setSlot_self]
      exact Function.update_self ..)
  exact ⟨act, t₄, by rw [hfile, hu₄], by rw [hlog, hu₄]⟩

/-! ## `wait` -/

/-- **`wait`** leaves the subscriber as it is. -/
theorem wait_spec (t : Attached i s [] b) (s' : ℕ) (mode : Subscriber.WaitMode)
    (timeout : Option ℕ) :
    (Subscriber.wait s' mode timeout).wp (sub calm i)
      (fun _ b' => Attached i s [] b' ∧ b'.subs i = b.subs i) b := by
  refine wp_of_within (fun d => Attached i s [] d ∧ d.subs i = b.subs i) id wait_core ?_ ?_
    ⟨t, rfl⟩
  · rintro d d' ⟨td, hsub⟩ hi ⟨hcore, hpid⟩
    have act : SubAct calm i d d' := SubAct.refl hi.1 hcore hpid
    have hsubs : d'.subs = d.subs := congrArg Core.subs hcore
    have hled : d'.led = d.led := congrArg Core.led hcore
    refine ⟨⟨⟨?_, ?_, ?_, ?_, ?_⟩, by rw [hsubs]; exact hsub⟩, act.inv hi.2, act.guar⟩
    · rw [hsubs]
      exact td.slot
    · rw [hled]
      exact td.stage
    · rw [hled, hsubs]
      exact td.hand
    · rw [hled, hsubs]
      exact td.taken
    · rw [hsubs]
      exact td.borrowed
  · rintro d d' ⟨td, hsub⟩ hr hi
    have hnow : SubNow i d d' := ⟨hr, hi.1, hi.2⟩
    exact ⟨td.now hnow, hnow.subs.trans hsub⟩

/-! ## Recording -/

/-- What a record keeps of a sample. -/
def Record.sample (r : Record) : ℕ × ℕ := (r.seq, r.payload)
def Entry.sample (e : Entry) : ℕ × ℕ := (e.seq, e.payload)

/-- The file holds the samples that were received. -/
def Sub.Filed (u : Sub) : Prop := u.file.map Record.sample = u.log.map Entry.sample

/-- A sample in hand is written to the file as it was sent. -/
theorem recordSample_spec {e : Entry} {u : Sub} (t : Attached i s [] b)
    (he : e ∈ (b.subs i).samples) (hlog : (b.subs i).log = u.log ++ [e])
    (hfile : (b.subs i).file = u.file) :
    (Subscriber.recordSample i s e).wp (sub calm i)
      (fun _ b' => Attached i s [] b' ∧ u.file <+: (b'.subs i).file ∧
        (u.Filed → (b'.subs i).Filed)) b := by
  unfold Subscriber.recordSample
  refine sub_write fun b₁ h₁ => ?_
  have t₁ := t.now h₁
  have hmem : e ∈ (b₁.led s).hand := by
    rw [t₁.hand, List.append_nil, h₁.subs]
    exact he
  obtain ⟨hseq, hpay⟩ := h₁.good.stored s e (.inr hmem)
  obtain ⟨act, t₂, -⟩ := t₁.setOwn calm h₁.good (b₁.subs i).status (b₁.subs i).sawEmpty
    ((b₁.subs i).file ++ [⟨b₁.chunkSeq e.chunk, b₁.publishNs e.chunk, b₁.payload e.chunk⟩])
    (Watch.setSub rfl id)
  refine ⟨act, wp_mono (release_spec t₂ ?_) ?_⟩
  · rw [Bus.setSub_self, h₁.subs]
    exact he
  · rintro - b₂ ⟨t₃, hfile₃, hlog₃⟩
    unfold Sub.Filed
    rw [hfile₃, hlog₃, Bus.setSub_self, h₁.subs]
    dsimp only
    rw [hfile]
    refine ⟨t₃, List.prefix_append .., fun hfiled => ?_⟩
    rw [hlog, List.map_append, List.map_append, hfiled, hseq, hpay]
    rfl

/-- **`Recorder::poll`** writes every sample that it receives. -/
theorem poll_spec (t : Attached i s [] b) (timeout : Option ℕ) :
    (Subscriber.poll i s timeout).wp (sub calm i)
      (fun _ b' => Attached i s [] b' ∧ (b.subs i).file <+: (b'.subs i).file ∧
        ((b.subs i).Filed → (b'.subs i).Filed)) b := by
  unfold Subscriber.poll
  refine wp_seq (wait_spec t s .futex timeout) ?_
  rintro - b₁ ⟨t₁, hsub⟩
  refine wp_last (wp_loop
    (fun _ d => Attached i s [] d ∧ (b.subs i).file <+: (d.subs i).file ∧
      ((b.subs i).Filed → (d.subs i).Filed)) id ?_
    ⟨t₁, by rw [hsub]; exact ⟨List.prefix_rfl, id⟩⟩ ?_)
  · rintro - d d' ⟨td, hf⟩ hr hi
    have hnow : SubNow i d d' := ⟨hr, hi.1, hi.2⟩
    exact ⟨td.now hnow, by rw [hnow.subs]; exact hf⟩
  · rintro - d ⟨td, hfile, hf⟩
    refine wp_seq (tryReceive_spec td) ?_
    rintro - d₁ ⟨td₁, hrec⟩
    refine sub_read fun d₂ h₂ => ?_
    have td₂ := td₁.now h₂
    rcases hrec.log with ⟨e, hstatus, hmem, hlog⟩ | ⟨hstatus, hlog⟩
    · rw [h₂.subs, hstatus]
      refine wp_seq (recordSample_spec (u := d.subs i) td₂ (by rw [h₂.subs]; exact hmem)
        (by rw [h₂.subs]; exact hlog) (by rw [h₂.subs]; exact hrec.file)) ?_
      rintro - d₃ ⟨td₃, hfile₃, hf₃⟩
      exact ⟨td₃, hfile.trans hfile₃, fun h => hf₃ (hf h)⟩
    · have hfiled₂ : (b.subs i).Filed → (d₂.subs i).Filed := by
        intro h
        unfold Sub.Filed
        rw [h₂.subs, hrec.file, hlog]
        exact hf h
      rw [h₂.subs]
      split
      · next e he => exact absurd he (hstatus e)
      · exact ⟨td₂, by rw [h₂.subs, hrec.file]; exact hfile, hfiled₂⟩

/-! ## The destructor -/

/-- The subscriber leaves its slot. -/
theorem Attached.close (t : Attached i s [] b) (g : Good b.toCore) (f : FutexWords → FutexWords) :
    let b' := (((b.setSlot s fun w => { w with state := .closing }).setLed s
        fun l => { l with stage := .closing i }).setSub i
      fun u => { u with phase := .closed }).setFutex s f
    SubAct calm i b b' := by
  have hheld : (b.led s).stage.Held := by
    rw [t.stage]
    trivial
  have hfree : (b.led s).stage ≠ .free := by
    rw [t.stage]
    exact Stage.noConfusion
  have hreset := (Stage.held_iff.mp hheld).2
  have o := g.slot s
  have hlog : (b.subs i).log = (b.led s).taken := by
    rw [t.taken, List.append_nil]
  intro b'
  have step := g.subSlot (g.lt_of_stage hfree) (.inr (.inr t.stage)) (g.only t.slot)
    (w := { b.slot s with state := .closing }) (l := { b.led s with stage := .closing i })
    (u := { b.subs i with phase := .closed })
    ⟨rfl, rfl, rfl, rfl, rfl, rfl, rfl, rfl, rfl, Nat.le_refl _, Nat.le_refl _, rfl,
      by rw [t.stage]; exact Nat.le_succ 2, fun h => Stage.noConfusion h, fun _ => rfl,
      fun _ => rfl⟩
    ⟨by rintro v ⟨⟩; rfl, fun _ => (t.ledger g).relabel _ _, fun hh => absurd trivial hh,
      fun h => Stage.noConfusion h, fun _ _ => o.owned hfree hreset, fun _ h => Stage.noConfusion h,
      fun _ => o.pid hheld, fun h => Stage.noConfusion h,
      fun ha _ => ⟨trivial, (o.onboarded ha hreset).2⟩, o.fresh⟩
    (g.stored s) (.inr (.inr rfl))
    ⟨fun h => Stage.noConfusion h, fun h => Stage.noConfusion h, fun _ => ⟨t.slot, rfl, hlog⟩⟩
    t.slot (fun h => Phase.noConfusion h) (fun h => Phase.noConfusion h) rfl
    ((g.tallied i).keep rfl rfl rfl rfl)
  refine step.act (stage_of_update fun h => absurd h (Nat.not_succ_le_self 2)) ?_
  have hsub : b'.subs i = { b.subs i with phase := .closed } := Function.update_self ..
  exact Watch.of_same rfl (by rw [hsub]) (by rw [hsub]; exact id)

/-- **The destructor** leaves the file as it is. -/
theorem destroy_spec (t : Attached i s [] b) :
    (Subscriber.destroy i s).wp (sub calm i)
      (fun _ b' => b'.subs i = { b.subs i with phase := .closed }) b := by
  unfold Subscriber.destroy
  refine sub_write fun b₁ h₁ => ⟨(t.now h₁).close h₁.good _, ?_⟩
  refine wp_of_within (R := Bus.SameCore)
    (fun d => d.subs i = { b.subs i with phase := .closed }) id
    (within_write (fun _ => .inr ⟨rfl, rfl⟩)
      (within_write (fun _ => .inr ⟨rfl, rfl⟩) (by trivial))) ?_ ?_ ?_
  · rintro d d' hp hi ⟨hcore, hpid⟩
    have act : SubAct calm i d d' := SubAct.refl hi.1 hcore hpid
    exact ⟨by rw [show d'.subs = d.subs from congrArg Core.subs hcore]; exact hp, act.inv hi.2,
      act.guar⟩
  · rintro d d' hp hr hi
    have hnow : SubNow i d d' := ⟨hr, hi.1, hi.2⟩
    rw [hnow.subs]
    exact hp
  · show Function.update b₁.subs i { b₁.subs i with phase := .closed } i = _
    rw [Function.update_self, h₁.subs]

end Calls

end Devbus
