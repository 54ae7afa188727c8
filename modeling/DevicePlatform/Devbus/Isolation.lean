/-
# Slots, chunks and the loan budget

What the invariant of the system says about its parties, in every run in which
`check_liveness` gives up no slot whose claimer is alive:

* `chunks_isolated`: a chunk that the publisher may write to is in no queue and in no
  hands, so a received sample does not change until it is released;
* `slots_owned`: a slot has one owner, keeps it until the owner leaves or dies, and is blank
  when it is free; a slot that `scan_slots` finds `Active` is onboarded by it;
* `loan_returns_chunk`: `loan` returns, and with a chunk unless the loans are used up.

The condition is needed.  `check_liveness` loads the pid of a claimed slot before it reads
the clock, so a subscriber that stores its pid in time, in between, loses its slot to the next
one all the same.  Both then work on one pair of rings (`slot_with_two_owners`).
-/
import DevicePlatform.Devbus.System

namespace Devbus

/-! ## Conditions on runs -/

instance (s : Sys) (e : Event) : Decidable (Patient s e) :=
  decidable_of_iff ((s.next e).all (fun t => !t.bus.timedOut) = true) <| by
    simp only [Option.all_eq_true, Bool.not_eq_true', Patient]

/-- The claimer of slot `s`, if it is alive, has stored its pid before `ns` have passed or is
still within the grace period then. -/
def Bus.InTime (b : Bus) (ns s : ℕ) : Bool :=
  match (b.led s).stage with
  | .claimed i => !b.alive (b.subs i).pid ||
      (b.subs i).claimedAt.all fun t => b.clock + ns ≤ t + Publisher.claimGraceNs
  | _ => true

/-- A subscriber stores its pid within the grace period. -/
def Punctual (s : Sys) : Event → Prop
  | .tick ns => ∀ sl < s.bus.hdr.maxSubscribers, s.bus.InTime ns sl = true
  | _ => True

instance (s : Sys) : (e : Event) → Decidable (Punctual s e)
  | .tick _ => inferInstanceAs (Decidable (∀ sl < s.bus.hdr.maxSubscribers, _))
  | .loan | .releaseLoan _ | .fill _ _ | .send _ | .checkLiveness | .shutdown | .publisher _
  | .join _ _ _ _ | .tryReceive _ | .release _ _ | .wait _ _ _ | .poll _ _ | .destroy _
  | .subscriber _ _ | .crash _ | .wakeSubscriber _ | .wakePublisher _ => isTrue trivial

/-! ## A small service -/

/-- One subscriber, a queue of one entry, one borrowed sample, one loan. -/
def tinyConfig : ServiceConfig := ⟨1, 1, 1, 1, 0⟩

/-- Its publisher is process 5; the time is 1. -/
def tiny : Sys :=
  match Layout.computeLayout tinyConfig 8 8 with
  | some l => Sys.create tinyConfig l 5 1
  | none => Sys.create tinyConfig ⟨0, 0, 0, 0, 0, 0, 0, 0, 0, 0⟩ 5 1

theorem tiny_init : service.init tiny := by
  refine ⟨tinyConfig, 8, 8, _, 5, 1, by decide, by decide, rfl, by decide, ?_⟩
  rfl

/-- `n` steps of the publisher, of a subscriber. -/
def publisherSteps (n : ℕ) : List Event := List.replicate n (.publisher 0)
def subscriberSteps (i n : ℕ) : List Event := List.replicate n (.subscriber i 0)

/-- The first subscriber claims the slot and `check_liveness` sees it; a second later, when
`check_liveness` has just loaded the pid again, it stores its pid.  Its slot is taken back, a
second subscriber joins, and both go on to be `Active`. -/
def sharing : List Event :=
  [.join 0 7 .dropOldest 0] ++ subscriberSteps 0 3 ++ [.checkLiveness] ++ publisherSteps 9 ++
    [.tick 1000000000, .checkLiveness] ++ publisherSteps 6 ++ subscriberSteps 0 1 ++ [.tick 1] ++
    publisherSteps 25 ++ [.join 1 8 .dropOldest 0] ++ subscriberSteps 1 11 ++ subscriberSteps 0 7

/-- One subscriber joins. -/
def joining (overflow : Overflow) (timeout : ℕ) : List Event :=
  [.join 0 7 overflow timeout] ++ subscriberSteps 0 11

/-! ## Chunks -/

namespace Bus

variable (b : Bus) (i s c : ℕ)

/-- The publisher, or its application, may write to chunk `c`. -/
def Writable : Prop := c ∈ b.book.free ∨ c ∈ b.calls.loans

/-- Subscriber `i` is alive, and its slot is `s`. -/
def LiveIn : Prop :=
  b.alive (b.subs i).pid = true ∧ (b.subs i).phase = .live ∧ (b.subs i).slot = some s

instance : Decidable (b.LiveIn i s) := inferInstanceAs (Decidable (_ ∧ _ ∧ _))

/-- Chunk `c` is in the window `[data_tail, data_head)` of the data ring of slot `s`. -/
def InWindow : Prop := ∃ k, (b.slot s).dataTail ≤ k ∧ k < (b.slot s).dataHead ∧
  (b.slot s).dataRing (k &&& (b.hdr.queueCapacity - 1)) = c

end Bus

/-- What the publisher may write to is out of the subscribers' reach. -/
structure Isolated (b : Bus) : Prop where
  window : ∀ c, b.Writable c → ∀ i s, b.LiveIn i s → ¬ b.InWindow s c
  /-- Neither a sample that the application holds nor an entry that `try_receive` has just
  popped is in such a chunk. -/
  borrowed : ∀ c, b.Writable c → ∀ i s, b.LiveIn i s →
    ∀ e, e ∈ (b.subs i).samples ∨ e ∈ (b.led s).hand → e.chunk ≠ c
  /-- A sample is still what it was when it was received. -/
  unchanged : ∀ i s, b.LiveIn i s → ∀ e ∈ (b.subs i).samples,
    b.chunkSeq e.chunk = e.seq ∧ b.payload e.chunk = e.payload

section Good

variable {b : Bus} {i s c : ℕ}

/-- The slot of a live subscriber. -/
theorem Good.stage_of_live (g : Good b.toCore) (h : b.LiveIn i s) :
    (b.led s).stage = .active i := by
  obtain ⟨halive, hlive, hslot⟩ := h
  obtain ⟨s', hs', hst⟩ := (g.live i halive).live hlive
  obtain rfl : s' = s := Option.some.inj (hs'.symm.trans hslot)
  exact hst

/-- A chunk that a slot accounts for is not the publisher's to write. -/
theorem Good.not_writable (g : Good b.toCore) (hout : b.book.outstanding s c = 1) :
    ¬ b.Writable c := by
  obtain ⟨hfree, hloan⟩ := g.pool.not_mem_of_outstanding (s := s)
    (by rw [hout]; exact Nat.one_ne_zero)
  rintro (h | h)
  · exact hfree h
  · exact hloan h

/-- The entry of the ring at an index of the window. -/
theorem Good.entry_of_window (g : Good b.toCore) (hheld : (b.led s).stage.Held)
    (hc : b.InWindow s c) : ∃ e ∈ (b.led s).pushed.drop (b.slot s).dataTail, e.chunk = c := by
  obtain ⟨k, hle, hlt, hring⟩ := hc
  have m := (g.slot s).ledger (Stage.held_iff.mp hheld).2
  rw [m.head] at hlt
  have hentry := m.ring k (by rw [List.length_map]; exact hlt) hle
  rw [land_mask g.exact.queue_pow, hentry, List.getElem_map] at hring
  refine ⟨_, ?_, hring⟩
  rw [List.mem_iff_getElem]
  exact ⟨k - (b.slot s).dataTail, by rw [List.length_drop]; omega, by
    rw [List.getElem_drop]; congr 1; omega⟩

/-- **Isolation** in a good state. -/
theorem Good.isolated (g : Good b.toCore) : Isolated b := by
  have hheld : ∀ {i s}, b.LiveIn i s → (b.led s).stage.Held := by
    intro i s h
    rw [g.stage_of_live h]
    trivial
  have hhand : ∀ {i s}, b.LiveIn i s → ∀ e ∈ (b.subs i).samples, e ∈ (b.led s).hand :=
    fun h e he => ((g.owner _ _).active (g.stage_of_live h)).2.2.2.1 he
  refine ⟨?_, ?_, ?_⟩
  · intro c hc i s h hw
    obtain ⟨e, he, rfl⟩ := g.entry_of_window (hheld h) hw
    exact g.not_writable (g.outstanding_of_entry (.inl he)) hc
  · rintro c hc i s h e he rfl
    have hmem : e ∈ (b.led s).hand := he.elim (hhand h e) id
    exact g.not_writable (g.outstanding_of_entry (.inr hmem)) hc
  · intro i s h e he
    exact g.stored s e (.inr (hhand h e he))

end Good

/-- **Zero-copy isolation.** -/
theorem chunks_isolated {s : Sys} (h : service.Reach Patient s) : Isolated s.bus :=
  (SysInv.of_patient h).good.isolated

/-- A run in which a subscriber holds a sample and the publisher a loan. -/
theorem chunks_isolated_received : ∃ s, service.Reach Patient s ∧
    (s.bus.LiveIn 0 0 ∧ (s.bus.subs 0).samples = [⟨1, 42, 0⟩] ∧ s.bus.calls.loans = [1]) ∧
    Isolated s.bus := by
  have hrun : ∃ s, service.Reach Patient s ∧ s.bus.LiveIn 0 0 ∧
      (s.bus.subs 0).samples = [⟨1, 42, 0⟩] ∧ s.bus.calls.loans = [1] :=
    Machine.exists_reach_of_exec
      (List.flatten [joining .dropOldest 0, [.loan], publisherSteps 5, [.fill 0 42, .send 0],
        publisherSteps 29, [.tryReceive 0], subscriberSteps 0 9, [.loan], publisherSteps 8])
      tiny_init (by decide +kernel)
  obtain ⟨s, hs, hp⟩ := hrun
  exact ⟨s, hs, hp, chunks_isolated hs⟩

/-- Two subscribers share a slot.  One receives a sample, the other leaves; the chunk of the
sample is taken back with the slot, loaned again and written to. -/
theorem chunk_on_loan_while_borrowed : ∃ s, service.Reach Punctual s ∧ s.bus.LiveIn 1 0 ∧
    ∃ e ∈ (s.bus.subs 1).samples, e.chunk ∈ s.bus.calls.loans ∧
      s.bus.payload e.chunk ≠ e.payload :=
  Machine.exists_reach_of_exec
    (List.flatten [sharing, [.loan], publisherSteps 5, [.fill 0 42, .send 0], publisherSteps 29,
      [.tryReceive 1], subscriberSteps 1 9, [.destroy 0], subscriberSteps 0 3, [.checkLiveness],
      publisherSteps 30, [.loan], publisherSteps 5, [.fill 0 99]])
    tiny_init (by decide +kernel)

/-! ## Slots -/

/-- Subscriber `i` is alive, has claimed slot `s` and has not begun to leave. -/
def Bus.Owner (b : Bus) (i s : ℕ) : Prop :=
  b.alive (b.subs i).pid = true ∧ ((b.subs i).phase = .building ∨ (b.subs i).phase = .live) ∧
    (b.subs i).slot = some s

/-- A slot that nobody has: nothing outstanding, indices, counters and pid 0. -/
structure Bus.Blank (b : Bus) (s : ℕ) : Prop where
  outstanding : ∀ c, b.book.outstanding s c = 0
  indices : (b.slot s).dataHead = 0 ∧ (b.slot s).dataTail = 0 ∧ (b.slot s).doneHead = 0 ∧
    (b.slot s).doneTail = 0
  counters : b.stats s = SlotStats.zero
  pid : (b.slot s).pid = 0
  inactive : b.book.active s = false

/-- Slots have one owner and keep it. -/
structure SlotsOwned (b : Bus) : Prop where
  unique : ∀ i j s, b.Owner i s → b.Owner j s → i = j
  /-- `reclaim_slot` has not begun to reset the slot, and its state word is the owner's. -/
  kept : ∀ i s, b.Owner i s →
    ((b.subs i).phase = .building → (b.led s).stage = .claimed i ∧ (b.slot s).state = .claimed) ∧
    ((b.subs i).phase = .live → (b.led s).stage = .active i ∧ (b.slot s).state = .active)
  blank : ∀ s, (b.slot s).state = .free → b.Blank s

/-- Every slot that was `Active` at the beginning of a `scan_slots` is onboarded. -/
structure SlotsOnboarded (b : Bus) : Prop where
  active : ∀ s, b.book.ripe s = true → b.book.active s = true ∧ s ∈ b.book.activeList
  overlooked : b.calls.overlooked = false

section Good

variable {b : Bus} {i s : ℕ}

/-- The slot of an owner. -/
theorem Good.stage_of_owner (g : Good b.toCore) (h : b.Owner i s) :
    ((b.subs i).phase = .building ∧ (b.led s).stage = .claimed i) ∨
      ((b.subs i).phase = .live ∧ (b.led s).stage = .active i) := by
  obtain ⟨halive, hphase, hslot⟩ := h
  rcases hphase with hb | hl
  · exact .inl ⟨hb, (g.live i halive).building hb s hslot⟩
  · exact .inr ⟨hl, g.stage_of_live ⟨halive, hl, hslot⟩⟩

/-- **Ownership** in a good state. -/
theorem Good.slotsOwned (g : Good b.toCore) : SlotsOwned b := by
  refine ⟨?_, ?_, ?_⟩
  · intro i j s hi hj
    rcases g.stage_of_owner hi with ⟨-, h⟩ | ⟨-, h⟩ <;>
      rcases g.stage_of_owner hj with ⟨-, h'⟩ | ⟨-, h'⟩ <;> cases h.symm.trans h' <;> rfl
  · intro i s h
    rcases g.stage_of_owner h with ⟨hp, hst⟩ | ⟨hp, hst⟩
    · refine ⟨fun _ => ⟨hst, (g.slot s).word _ (by rw [hst]; rfl)⟩, fun hl => ?_⟩
      cases hp.symm.trans hl
    · refine ⟨fun hb => ?_, fun _ => ⟨hst, (g.slot s).word _ (by rw [hst]; rfl)⟩⟩
      cases hp.symm.trans hb
  · intro s hfree
    have k := g.slot s
    have hr : (b.led s).stage ≠ .reset := fun hr => (k.reset hr).1 hfree
    have hst : (b.led s).stage = .free := by
      have hword := k.stage_of_word hr
      rw [hfree] at hword
      cases hst : (b.led s).stage <;> rw [hst] at hword <;> first | rfl | cases hword
    have hheld : ¬ (b.led s).stage.Held := by
      rw [hst]
      exact id
    have hinactive : b.book.active s = false := by
      refine Bool.eq_false_of_not_eq_true fun hact => ?_
      exact hheld (k.onboarded hact hr).1
    refine ⟨fun c => ?_, k.blank_words hheld hr, g.counters s hheld hr, k.free hst, hinactive⟩
    obtain ⟨hp, -, -, hha, hre, -⟩ := k.blank hheld
    rw [(k.ledger hr).out c]
    unfold queued handed
    rw [hp, hha, hre]
    simp only [List.map_nil, List.drop_nil, List.count_nil]

end Good

/-- What the publisher has established when it is between two calls. -/
theorem SysInv.pubIdle {calm : Prop} {R : ℕ → Prop} {s : Sys} (inv : SysInv calm R s)
    (hret : s.pub.returned = true) : PubIdle s.bus :=
  Prog.wp_returned inv.pub hret

/-- **Slot ownership and onboarding.** -/
theorem slots_owned {s : Sys} (h : service.Reach Patient s) :
    SlotsOwned s.bus ∧ (s.pub.returned = true → SlotsOnboarded s.bus) := by
  have inv := SysInv.of_patient h
  refine ⟨inv.good.slotsOwned, fun hret => ?_⟩
  have hidle := (inv.pubIdle hret).idle
  exact ⟨fun s hs => ⟨hidle.ripened s hs, (hidle.listed.mem_iff s).mpr (hidle.ripened s hs)⟩,
    hidle.overlooked⟩

/-- A subscriber that has joined and been onboarded. -/
theorem slots_owned_after_join : ∃ s, service.Reach Patient s ∧
    (s.bus.LiveIn 0 0 ∧ s.pub.returned = true ∧ s.bus.book.ripe 0 = true) ∧
    SlotsOwned s.bus ∧ SlotsOnboarded s.bus := by
  have hrun : ∃ s, service.Reach Patient s ∧ s.bus.LiveIn 0 0 ∧ s.pub.returned = true ∧
      s.bus.book.ripe 0 = true :=
    Machine.exists_reach_of_exec
      (List.flatten [joining .dropOldest 0, [.loan], publisherSteps 5, [.send 0],
        publisherSteps 29])
      tiny_init (by decide +kernel)
  obtain ⟨s, hs, hp⟩ := hrun
  obtain ⟨howned, honboarded⟩ := slots_owned hs
  exact ⟨s, hs, hp, howned, honboarded hp.2.1⟩

/-- Two live subscribers in one slot, although the first stored its pid in time. -/
theorem slot_with_two_owners :
    ∃ s, service.Reach Punctual s ∧ s.bus.LiveIn 0 0 ∧ s.bus.LiveIn 1 0 :=
  Machine.exists_reach_of_exec (sharing) tiny_init (by decide +kernel)

/-! ## Loans -/

/-- Steps of all but the publisher. -/
def Others (s : Sys) (e : Event) : Prop := Patient s e ∧ ∀ n, e ≠ .publisher n

/-- The call of the publisher that is in progress returns: whatever the others have done, the
publisher can take its next step, and after finitely many of these the call has ended in a
state that satisfies `Q`. -/
inductive Returns (Q : Bus → Prop) : Sys → Prop
  | done {s : Sys} (hret : s.pub.returned = true) (h : Q s.bus) : Returns Q s
  | step {s : Sys}
      (enabled : ∀ es t, service.Run Others s es t → ∀ n, (t.next (.publisher n)).isSome)
      (h : ∀ es t, service.Run Others s es t → ∀ n u, Patient t (.publisher n) →
        t.next (.publisher n) = some u → Returns Q u) : Returns Q s

section Loan

variable {R : ℕ → Prop} {s s' t : Sys} {e : Event}

/-- What the others do while the publisher is in a call. -/
theorem SysInv.others {calm : Prop} (inv : SysInv calm R s) (hbusy : s.pub.returned = false)
    (he : ∀ n, e ≠ .publisher n) (h : s.next e = some s') :
    s'.pub = s.pub ∧ SubsMove s.bus.toCore s'.bus.toCore := by
  cases Sys.step_of_next h with
  | publisher => exact absurd rfl (he _)
  | call hret => cases hbusy.symm.trans hret
  | callSub => exact ⟨rfl, SubsMove.refl _⟩
  | join =>
      exact ⟨rfl, rfl, rfl, rfl, rfl, rfl, fun _ h => h, fun _ => SlotMove.refl _ _,
        fun _ _ => ⟨rfl, rfl⟩⟩
  | outside ho => exact ⟨rfl, ho.move⟩
  | subscriber halive hs =>
      obtain ⟨-, guar, -⟩ := Prog.wp_step (inv.sub _ halive) ⟨inv.good, halive⟩ hs trivial
      exact ⟨rfl, guar.move.move inv.good halive⟩

/-- Steps of the others keep the publisher's program, and are within what it relies on. -/
theorem SysInv.others_run {es : List Event} (hr : service.Run Others s es t)
    (inv : SysInv False R s) (hR : ∀ s e, Recording R s e) (hbusy : s.pub.returned = false) :
    SysInv False R t ∧ t.pub = s.pub ∧ PubRely s.bus t.bus := by
  induction hr with
  | nil => exact ⟨inv, rfl, ⟨SubsMove.refl _⟩⟩
  | snoc hrun hok hn ih =>
      obtain ⟨invt, hpub, hrely⟩ := ih
      obtain ⟨hpub', hmove⟩ := invt.others (by rw [hpub]; exact hbusy) hok.2 hn
      exact ⟨invt.next False.elim (.inr hok.1) (hR _ _) hn, hpub'.trans hpub,
        ⟨hrely.move.trans hmove⟩⟩

/-- A program that ends by itself ends in the system. -/
theorem Returns.of_ends {Q : Bus → Prop} {p : Prog Bus Unit} {b : Bus}
    (h : p.Ends (pub False True) (fun _ => Q) b)
    (inv : SysInv False (fun _ => False) s) (hp : s.pub = p) (hb : s.bus = b) : Returns Q s := by
  induction h generalizing s with
  | ret h => exact .done (by rw [hp]; rfl) (by rw [hb]; exact h)
  | @step p b enabled h ih =>
      by_cases hret : s.pub.returned = true
      · -- a program that has returned takes no step
        have := enabled b ⟨SubsMove.refl _⟩ ⟨by rw [← hb]; exact inv.good, False.elim⟩ 0
        rw [← hp, Prog.eq_ret_of_returned hret] at this
        cases this
      have hbusy : s.pub.returned = false := Bool.eq_false_of_not_eq_true hret
      refine .step (fun es t hr n => ?_) fun es t hr n u hpat hn => ?_
      · obtain ⟨invt, hpub, hrely⟩ := SysInv.others_run hr inv (fun _ _ => recording_none) hbusy
        refine Option.isSome_map.trans ?_
        rw [hpub, hp]
        exact enabled t.bus (by rw [← hb]; exact hrely) ⟨invt.good, False.elim⟩ n
      · obtain ⟨invt, hpub, hrely⟩ := SysInv.others_run hr inv (fun _ _ => recording_none) hbusy
        have invu := invt.next False.elim (.inr hpat) recording_none hn
        have htime := hpat u hn
        obtain ⟨⟨p', b'⟩, hs, rfl⟩ := Option.map_eq_some_iff.mp hn
        rw [hpub, hp] at hs
        exact ih t.bus (by rw [← hb]; exact hrely) ⟨invt.good, False.elim⟩ n p' b' hs
          (.inr htime) invu rfl rfl

/-- The call of `loan` is not a step of `check_liveness`. -/
theorem patient_loan (h : service.Reach Patient s) : Patient s .loan := by
  have htime : s.bus.timedOut = false := by
    refine h.invariant (P := fun s => s.bus.timedOut = false) ?_ fun _ _ t _ hok hn => hok t hn
    rintro _ ⟨cfg, _, _, l, pid, now, _, _, _, _, rfl⟩
    rfl
  intro s' hn
  dsimp only [Sys.next, Sys.call] at hn
  split at hn
  · cases hn
    exact htime
  · cases hn

end Loan

/-- **The loan budget.** -/
theorem loan_returns_chunk {s : Sys} (h : service.Reach Patient s) :
    (s.pub.returned = true → ∀ r ∈ s.bus.calls.loaned, r ≠ .error .outOfChunks) ∧
    (∀ sl, (s.bus.slot sl).doneHead ≤ (s.bus.slot sl).doneTail + s.bus.hdr.completionCapacity) ∧
    (s.bus.calls.loansOut < s.bus.hdr.maxLoans → ∀ s', s.next .loan = some s' →
      Returns (fun b => ∃ c, b.calls.loaned = s.bus.calls.loaned ++ [.ok c]) s') := by
  have inv := SysInv.of_patient h
  refine ⟨fun hret => (inv.pubIdle hret).idle.loaned, fun sl => ?_, fun hlt s' hn => ?_⟩
  · exact (inv.good.slot sl).done_le inv.good.exact.count_le
  · have invs' := inv.next False.elim (.inr (patient_loan h)) recording_none hn
    dsimp only [Sys.next, Sys.call] at hn
    split at hn
    · next hret =>
      cases hn
      have hends := Prog.ends_of_wp (π := pub False True) trivial ?_
        (Prog.wp_mono (callLoan_spec (inv.pubIdle hret.1)) fun _ _ h => h.2 hlt)
      · exact Returns.of_ends hends invs' rfl rfl
      · intro _ b d hq hr _
        rwa [hr.move.calls]
    · cases hn

/-- The first loan of a service. -/
theorem loan_returns_chunk_first : ∃ s', tiny.next .loan = some s' ∧
    Returns (fun b => ∃ c, b.calls.loaned = [.ok c]) s' :=
  ⟨_, rfl, (loan_returns_chunk (.start tiny_init)).2.2 (by decide) _ rfl⟩

/-- Two subscribers that share a slot use the chunks of two: the publisher, without a loan, is
refused one. -/
theorem loan_out_of_chunks : ∃ s, service.Reach Punctual s ∧ s.pub.returned = true ∧
    s.bus.calls.loansOut < s.bus.hdr.maxLoans ∧
    s.bus.calls.loaned.getLast? = some (.error .outOfChunks) :=
  Machine.exists_reach_of_exec
    (List.flatten [sharing, [.loan], publisherSteps 5, [.send 0], publisherSteps 29,
      [.tryReceive 1], subscriberSteps 1 9, [.loan], publisherSteps 8, [.send 1],
      publisherSteps 19, [.tryReceive 0], subscriberSteps 0 9, [.loan], publisherSteps 8,
      [.send 2], publisherSteps 19, [.loan], publisherSteps 12])
    tiny_init (by decide +kernel)

end Devbus
