/-
# The constructor of a subscriber

`SubscriberCore`'s constructor claims a free slot and initialises it before it stores
`Active`.  While the slot is claimed the publisher leaves it alone (`Keeps.unused`), so the
words the constructor has loaded and stored are still there at its next step.

A constructor claims a slot, so it does not belong to a calm service.
-/
import DevicePlatform.Devbus.Receive

namespace Devbus

/-- An object as its constructor begins with it. -/
def Sub.Fresh (u : Sub) : Prop :=
  u = { Sub.absent with
    phase := u.phase
    pid := u.pid
    overflow := u.overflow
    blockTimeoutUs := u.blockTimeoutUs
    slot := u.slot
    claimedAt := u.claimedAt }

/-- Subscriber `i` looks for a slot. -/
structure Seeking (i : ℕ) (b : Bus) : Prop where
  phase : (b.subs i).phase = .building
  slot : (b.subs i).slot = none
  pid : (b.subs i).pid ≠ 0
  fresh : (b.subs i).Fresh

/-- Subscriber `i` has claimed slot `s`. -/
structure Claiming (i s : ℕ) (b : Bus) : Prop where
  phase : (b.subs i).phase = .building
  slot : (b.subs i).slot = some s
  stage : (b.led s).stage = .claimed i
  fresh : (b.subs i).Fresh

section Construct

variable {i s : ℕ} {b d : Bus}

theorem Seeking.now (t : Seeking i b) (h : SubNow i b d) : Seeking i d := by
  refine ⟨?_, ?_, ?_, ?_⟩ <;> rw [h.subs]
  · exact t.phase
  · exact t.slot
  · exact t.pid
  · exact t.fresh

/-- The publisher leaves a claimed slot alone. -/
theorem Claiming.same (t : Claiming i s b) (h : SubNow i b d) :
    d.slot s = b.slot s ∧ d.led s = b.led s := by
  refine (h.keeps (.inl t.stage)).unused ?_
  rw [t.stage]
  exact id

theorem Claiming.now (t : Claiming i s b) (h : SubNow i b d) : Claiming i s d := by
  refine ⟨?_, ?_, ?_, ?_⟩
  · rw [h.subs]
    exact t.phase
  · rw [h.subs]
    exact t.slot
  · rw [(t.same h).2]
    exact t.stage
  · rw [h.subs]
    exact t.fresh

/-- The words of a slot that is claimed. -/
theorem Claiming.words (t : Claiming i s b) (g : Good b.toCore) :
    (b.slot s).dataHead = 0 ∧ (b.slot s).dataTail = 0 ∧ (b.slot s).doneHead = 0 ∧
      (b.slot s).doneTail = 0 := by
  refine (g.slot s).blank_words ?_ ?_
  · rw [t.stage]
    exact id
  · rw [t.stage]
    exact Stage.noConfusion

/-- Before that it has none. -/
theorem Seeking.none (t : Seeking i b) (g : Good b.toCore) (s : ℕ) :
    (b.led s).stage ≠ .claimed i ∧ (b.led s).stage ≠ .active i ∧
      (b.led s).stage ≠ .closing i := by
  refine ⟨?_, ?_, ?_⟩ <;> intro hst
  · cases t.slot.symm.trans ((g.owner s i).claimed hst).1
  · cases t.slot.symm.trans ((g.owner s i).active hst).1
  · cases t.slot.symm.trans ((g.owner s i).closing hst).1

/-- The constructor has not found a slot. -/
theorem Seeking.fail (t : Seeking i b) (g : Good b.toCore) :
    SubAct False i b (b.setSub i fun u => { u with phase := .failed }) := by
  have step := g.setSub (i := i) (u := { b.subs i with phase := .failed })
    (fun s' => ⟨fun hst => absurd hst (t.none g s').1, fun hst => absurd hst (t.none g s').2.1,
      fun hst => absurd hst (t.none g s').2.2⟩)
    (fun _ => ⟨fun h => Phase.noConfusion h, fun h => Phase.noConfusion h⟩) rfl
    ((g.tallied i).keep rfl rfl rfl rfl)
  exact step.act (fun _ _ => rfl) (Watch.setSub rfl id)

/-- The compare-and-swap on the state word succeeds. -/
theorem Seeking.claim (t : Seeking i b) (g : Good b.toCore) (hs : s < b.hdr.maxSubscribers)
    (hfree : (b.slot s).state = .free) :
    let b' := ((b.setSlot s fun w => { w with state := .claimed }).setLed s
        fun l => { l with stage := .claimed i, ownerPid := (b.subs i).pid }).setSub i
      fun u => { u with slot := some s, claimedAt := some b.clock }
    SubAct False i b b' ∧ Claiming i s b' := by
  have o := g.slot s
  have hreset : (b.led s).stage ≠ .reset := fun h => (o.reset h).1 hfree
  have hstage : (b.led s).stage = .free := by
    have hword := o.stage_of_word hreset
    rw [hfree] at hword
    cases hst : (b.led s).stage <;> rw [hst] at hword <;> cases hword
  have hheld : ¬ (b.led s).stage.Held := by
    rw [hstage]
    exact id
  have hblank := o.blank hheld
  intro b'
  have hsub : b'.subs i = { b.subs i with slot := some s, claimedAt := some b.clock } :=
    Bus.setSub_self
  have hled : b'.led s = { b.led s with stage := .claimed i, ownerPid := (b.subs i).pid } :=
    Function.update_self ..
  have step := g.subSlot hs (.inl hstage) (fun s' _ => t.none g s')
    (w := { b.slot s with state := .claimed })
    (l := { b.led s with stage := .claimed i, ownerPid := (b.subs i).pid })
    (u := { b.subs i with slot := some s, claimedAt := some b.clock })
    ⟨rfl, rfl, rfl, rfl, rfl, rfl, rfl, rfl, rfl, Nat.le_refl _, Nat.le_refl _, rfl,
      by rw [hstage]; exact Nat.zero_le _, fun h => Stage.noConfusion h,
      fun h => absurd hstage h, fun h => absurd h hheld⟩
    ⟨by rintro v ⟨⟩; rfl, fun _ => Matches.fresh (o.blank_words hheld hreset) hblank ?_, ?_,
      fun h => Stage.noConfusion h, fun _ _ => t.pid, fun _ _ => .inl (o.free hstage),
      fun hh => hh.elim, fun h => Stage.noConfusion h,
      fun ha _ => absurd (o.onboarded ha hreset).1 hheld, fun _ => hblank.1⟩
    (g.stored s) (.inl rfl) ⟨fun _ => ⟨rfl, rfl, t.phase⟩, fun h => Stage.noConfusion h,
      fun h => Stage.noConfusion h⟩ rfl (fun _ => rfl) ?_ rfl
    ((g.tallied i).keep rfl rfl rfl rfl)
  · refine ⟨⟨step.good, ⟨step.move, False.elim, ?_⟩⟩, ?_, ?_, ?_, ?_⟩
    · exact Watch.of_same rfl (by rw [hsub]) (by rw [hsub]; exact id)
    · rw [hsub]
      exact t.phase
    · rw [hsub]
    · rw [hled]
    · have hfresh := t.fresh
      rw [hsub]
      unfold Sub.Fresh at *
      rw [hfresh]
  · intro c
    have m := o.ledger hreset
    obtain ⟨hp, -, -, hha, hre, -⟩ := hblank
    rw [m.out c]
    simp only [queued, handed, hp, hha, hre, List.map_nil, List.drop_nil, List.count_nil,
      Nat.add_zero]
  · intro _
    have hl := o.unused hheld
    rw [hl]
    rfl
  · intro h
    rw [t.phase] at h
    cases h

/-- A store into the claimed slot. -/
theorem Claiming.step (t : Claiming i s b) (g : Good b.toCore) {w : SlotWords} {u : Sub}
    (hhead : w.dataHead = 0) (htail : w.dataTail = 0) (hdoneHead : w.doneHead = 0)
    (hdoneTail : w.doneTail = 0) (hring : w.dataRing = (b.slot s).dataRing)
    (hstate : w.state = (b.slot s).state) (hpid : w.pid = 0 ∨ w.pid = (b.led s).ownerPid)
    (huphase : u.phase = .building) (huslot : u.slot = some s) (hupid : u.pid = (b.subs i).pid)
    (htally : u.Tallied) :
    SubStep i b.toCore { b.toCore with
      slot := Function.update b.slot s w
      subs := Function.update b.subs i u } := by
  have o := g.slot s
  have hreset : (b.led s).stage ≠ .reset := by
    rw [t.stage]
    exact Stage.noConfusion
  have hfree : (b.led s).stage ≠ .free := by
    rw [t.stage]
    exact Stage.noConfusion
  have hheld : ¬ (b.led s).stage.Held := by
    rw [t.stage]
    exact id
  obtain ⟨hw1, hw2, hw3, hw4⟩ := t.words g
  have hblank := o.blank hheld
  have m := o.ledger hreset
  have step := g.subSlot (g.lt_of_stage hfree) (.inr (.inl t.stage)) (g.only t.slot) (w := w)
    (l := b.led s) (u := u)
    ⟨hhead.trans hw1.symm, hdoneTail.trans hw4.symm, hring, rfl, rfl, rfl, rfl, rfl, rfl,
      by omega, Nat.le_refl _, by rw [htail]; exact congrArg _ hw2, Nat.le_refl _, id,
      fun _ => rfl, fun h => absurd h hheld⟩
    ⟨fun v hv => hstate.trans (o.word v hv), fun _ => Matches.fresh ⟨hhead, htail, hdoneHead,
      hdoneTail⟩ hblank ?_, o.unused, fun h => absurd h hreset, o.owned, fun _ _ => hpid,
      fun h => absurd h hheld, fun h => absurd h hfree, o.onboarded, o.fresh⟩
    ?_ (.inl t.stage) ⟨?_, ?_, ?_⟩ huslot (fun _ => t.stage) ?_ hupid htally
  · rw [Function.update_eq_self] at step
    exact step
  · intro c
    obtain ⟨hp, -, -, hha, hre, -⟩ := hblank
    rw [m.out c]
    simp only [queued, handed, hp, hha, hre, List.map_nil, List.drop_nil, List.count_nil,
      Nat.add_zero]
  · intro e he
    rw [hblank.1, hblank.2.2.2.1, List.drop_nil] at he
    exact absurd he (by simp only [List.not_mem_nil, or_self, not_false_eq_true])
  · intro _
    exact ⟨huslot, hupid.trans ((g.owner s i).claimed t.stage).2.1, huphase⟩
  · intro h
    rw [t.stage] at h
    cases h
  · intro h
    rw [t.stage] at h
    cases h
  · intro h
    rw [huphase] at h
    cases h

/-- The pid has been stored. -/
structure Stamped (i s : ℕ) (b : Bus) : Prop where
  claiming : Claiming i s b
  pid : (b.slot s).pid = (b.subs i).pid

theorem Stamped.now (t : Stamped i s b) (h : SubNow i b d) : Stamped i s d :=
  ⟨t.claiming.now h, by rw [(t.claiming.same h).1, h.subs]; exact t.pid⟩

theorem Claiming.stamp (t : Claiming i s b) (g : Good b.toCore) :
    let b' := (b.setSlot s fun w => { w with pid := (b.subs i).pid }).setSub i
      fun u => { u with claimedAt := none }
    SubAct False i b b' ∧ Stamped i s b' := by
  obtain ⟨hhead, htail, hdoneHead, hdoneTail⟩ := t.words g
  intro b'
  have hsub : b'.subs i = { b.subs i with claimedAt := none } := Bus.setSub_self
  have hslot : b'.slot s = { b.slot s with pid := (b.subs i).pid } := Function.update_self ..
  have step := t.step g (w := { b.slot s with pid := (b.subs i).pid })
    (u := { b.subs i with claimedAt := none }) hhead htail hdoneHead hdoneTail rfl rfl
    (.inr ((g.owner s i).claimed t.stage).2.1) t.phase t.slot rfl
    ((g.tallied i).keep rfl rfl rfl rfl)
  refine ⟨step.act (fun _ _ => rfl) (Watch.of_same rfl (by rw [hsub]) (by rw [hsub]; exact id)),
    ⟨by rw [hsub]; exact t.phase, by rw [hsub]; exact t.slot, t.stage, ?_⟩, by rw [hslot, hsub]⟩
  have hfresh := t.fresh
  rw [hsub]
  unfold Sub.Fresh at *
  rw [hfresh]

/-- A store that leaves the object alone. -/
theorem Stamped.store (t : Stamped i s b) (g : Good b.toCore) {f : SlotWords → SlotWords}
    (hhead : (f (b.slot s)).dataHead = 0) (htail : (f (b.slot s)).dataTail = 0)
    (hdoneHead : (f (b.slot s)).doneHead = 0) (hdoneTail : (f (b.slot s)).doneTail = 0)
    (hring : (f (b.slot s)).dataRing = (b.slot s).dataRing)
    (hstate : (f (b.slot s)).state = (b.slot s).state)
    (hpid : (f (b.slot s)).pid = (b.slot s).pid) :
    SubAct False i b (b.setSlot s f) ∧ Stamped i s (b.setSlot s f) := by
  have l := t.claiming
  have step := l.step g hhead htail hdoneHead hdoneTail hring hstate
    (by rw [hpid]; exact (g.slot s).claimed i l.stage) l.phase l.slot rfl (g.tallied i)
  rw [Function.update_eq_self] at step
  exact ⟨step.act (fun _ _ => rfl) (Watch.of_same rfl rfl id),
    ⟨l.phase, l.slot, l.stage, l.fresh⟩, by rw [Bus.setSlot_self, hpid]; exact t.pid⟩

/-- The slot becomes active. -/
theorem Stamped.activate (t' : Stamped i s b) (g : Good b.toCore) :
    let b' := ((b.setSlot s fun w => { w with state := .active }).setLed s
      fun l => { l with stage := .active i }).setSub i fun u => { u with phase := .live }
    SubAct False i b b' ∧ Attached i s [] b' ∧ (b'.subs i).Filed := by
  obtain ⟨t, hpid⟩ := t'
  have o := g.slot s
  have hown := (g.owner s i).claimed t.stage
  have hreset : (b.led s).stage ≠ .reset := by
    rw [t.stage]
    exact Stage.noConfusion
  have hfree : (b.led s).stage ≠ .free := by
    rw [t.stage]
    exact Stage.noConfusion
  have hheld : ¬ (b.led s).stage.Held := by
    rw [t.stage]
    exact id
  obtain ⟨hp, -, htk, hha, -⟩ := o.blank hheld
  have hfresh := t.fresh
  unfold Sub.Fresh at hfresh
  have hsamples : (b.subs i).samples = [] := by rw [hfresh]; rfl
  have hlog : (b.subs i).log = [] := by rw [hfresh]; rfl
  intro b'
  have hsub : b'.subs i = { b.subs i with phase := .live } := Bus.setSub_self
  have hled : b'.led s = { b.led s with stage := .active i } := Function.update_self ..
  have step := g.subSlot (g.lt_of_stage hfree) (.inr (.inl t.stage)) (g.only t.slot)
    (w := { b.slot s with state := .active }) (l := { b.led s with stage := .active i })
    (u := { b.subs i with phase := .live })
    ⟨rfl, rfl, rfl, rfl, rfl, rfl, rfl, rfl, rfl, Nat.le_refl _, Nat.le_refl _, rfl,
      by rw [t.stage]; exact Nat.le_succ 1, fun h => Stage.noConfusion h, fun _ => rfl,
      fun _ => rfl⟩
    ⟨by rintro v ⟨⟩; rfl, fun _ => (o.ledger hreset).relabel _ _, fun hh => absurd trivial hh,
      fun h => Stage.noConfusion h, fun _ _ => o.owned hfree hreset, fun _ h => Stage.noConfusion h,
      fun _ => hpid.trans hown.2.1, fun h => Stage.noConfusion h,
      fun ha _ => absurd (o.onboarded ha hreset).1 hheld, o.fresh⟩
    (g.stored s) (.inr (.inl rfl))
    ⟨fun h => Stage.noConfusion h, fun _ => ⟨t.slot, hown.2.1, rfl, ?_, ?_⟩,
      fun h => Stage.noConfusion h⟩
    t.slot (fun h => Phase.noConfusion h) (fun _ => rfl) rfl
    ((g.tallied i).keep rfl rfl rfl rfl)
  · refine ⟨⟨step.good, ⟨step.move, False.elim, ?_⟩⟩, ?_⟩
    · exact Watch.of_same rfl (by rw [hsub]) (by rw [hsub]; exact id)
    · refine ⟨⟨by rw [hsub]; exact t.slot, by rw [hled], ?_, ?_, ?_⟩, ?_⟩
      · rw [hled, hsub, List.append_nil]
        exact hha.trans hsamples.symm
      · rw [hled, hsub, List.append_nil]
        exact htk.trans hlog.symm
      · rw [hsub, hfresh]
        rfl
      · rw [hsub, hfresh]
        rfl
  · rw [show ({ b.subs i with phase := .live } : Sub).samples = [] from hsamples]
    exact List.nil_subset _
  · rw [show ({ b.subs i with phase := .live } : Sub).log = [] from hlog]
    exact List.nil_prefix

/-- What the constructor stores into the slot. -/
theorem initSlot_spec (t : Claiming i s b) :
    (Subscriber.initSlot i s).wp (sub False i)
      (fun _ b' => Attached i s [] b' ∧ (b'.subs i).Filed) b := by
  unfold Subscriber.initSlot
  refine sub_write fun b₁ h₁ => ?_
  obtain ⟨act, t₁⟩ := (t.now h₁).stamp h₁.good
  refine ⟨act, sub_write fun b₂ h₂ => ?_⟩
  have n₂ := t₁.now h₂
  obtain ⟨w1, w2, w3, w4⟩ := n₂.claiming.words h₂.good
  obtain ⟨act, t₂⟩ := n₂.store h₂.good (f := fun w => { w with overflow := (b₂.subs i).overflow })
    w1 w2 w3 w4 rfl rfl rfl
  refine ⟨act, sub_write fun b₃ h₃ => ?_⟩
  have n₃ := t₂.now h₃
  obtain ⟨w1, w2, w3, w4⟩ := n₃.claiming.words h₃.good
  obtain ⟨act, t₃⟩ := n₃.store h₃.good
    (f := fun w => { w with blockTimeoutUs := (b₃.subs i).blockTimeoutUs }) w1 w2 w3 w4 rfl rfl rfl
  -- the indices that the constructor loads are 0
  refine ⟨act, sub_read fun b₄ h₄ => ?_⟩
  have n₄ := t₃.now h₄
  rw [(n₄.claiming.words h₄.good).1]
  refine sub_write fun b₅ h₅ => ?_
  have n₅ := n₄.now h₅
  obtain ⟨w1, w2, w3, w4⟩ := n₅.claiming.words h₅.good
  obtain ⟨act, t₅⟩ := n₅.store h₅.good (f := fun w => { w with dataTail := 0 }) w1 rfl w3 w4 rfl rfl
    rfl
  refine ⟨act, sub_read fun b₆ h₆ => ?_⟩
  have n₆ := t₅.now h₆
  rw [(n₆.claiming.words h₆.good).2.2.2]
  refine sub_write fun b₇ h₇ => ?_
  have n₇ := n₆.now h₇
  obtain ⟨w1, w2, w3, w4⟩ := n₇.claiming.words h₇.good
  obtain ⟨act, t₇⟩ := n₇.store h₇.good (f := fun w => { w with doneHead := 0 }) w1 w2 rfl w4 rfl rfl
    rfl
  refine ⟨act, sub_write fun b₈ h₈ => ?_⟩
  exact (t₇.now h₈).activate h₈.good

/-- The loop of the constructor over the slots. -/
theorem claimSlot_spec {l : List ℕ} (t : Seeking i b) (hl : ∀ s ∈ l, s < b.hdr.maxSubscribers) :
    (Subscriber.claimSlot i l).wp (sub False i)
      (fun r b' => match r with
        | none => Seeking i b'
        | some s => Claiming i s b') b := by
  induction l generalizing b with
  | nil => exact t
  | cons s rest ih =>
      refine sub_update fun b₁ h₁ => ?_
      have t₁ := t.now h₁
      have hl₁ : ∀ s' ∈ s :: rest, s' < b₁.hdr.maxSubscribers := by
        rw [h₁.view.hdr]
        exact hl
      by_cases hfree : (b₁.slot s).state = .free
      · rw [if_pos hfree]
        obtain ⟨act, t₂⟩ := t₁.claim h₁.good (hl₁ s List.mem_cons_self) hfree
        refine ⟨act, ?_⟩
        dsimp only
        rw [if_pos rfl]
        exact t₂
      · rw [if_neg hfree]
        refine ⟨SubAct.refl h₁.good rfl rfl, ?_⟩
        dsimp only
        rw [if_neg Bool.false_ne_true]
        exact ih t₁ fun s' hs' => hl₁ s' (List.mem_cons_of_mem _ hs')

/-- **The constructor** either fails or leaves a live subscriber. -/
theorem construct_spec (t : Seeking i b) :
    (Subscriber.construct i).wp (sub False i)
      (fun _ b' => (b'.subs i).Filed ∧
        ((b'.subs i).phase = .failed ∨ ∃ s, Attached i s [] b')) b := by
  have hfail : ∀ {d : Bus}, Seeking i d → (do
      Prog.write fun b => b.setSub i fun u => { u with phase := .failed }
      return () : Prog Bus Unit).wp (sub False i)
      (fun _ b' => (b'.subs i).Filed ∧
        ((b'.subs i).phase = .failed ∨ ∃ s, Attached i s [] b')) d := by
    intro d td
    refine sub_write fun d₁ h₁ => ⟨(td.now h₁).fail h₁.good, ?_⟩
    have hfresh := (td.now h₁).fresh
    unfold Sub.Fresh at hfresh
    show Sub.Filed _ ∧ _
    rw [Bus.setSub_self, hfresh]
    exact ⟨rfl, .inl rfl⟩
  unfold Subscriber.construct
  refine sub_read fun b₁ h₁ => ?_
  have t₁ := t.now h₁
  split
  · exact hfail t₁
  · refine sub_read fun b₂ h₂ => ?_
    refine Prog.wp_seq (claimSlot_spec (t₁.now h₂) fun s hs => List.mem_range.mp hs) ?_
    rintro (_ | s) b₃ t₃
    · exact hfail t₃
    · exact Prog.wp_mono (initSlot_spec t₃) fun _ b' h => ⟨h.2, .inr ⟨s, h.1⟩⟩

end Construct

end Devbus
