/-
# The publisher and its slots

The publisher's protocol, and the proofs that `drain_done`, `reclaim_slot`, `scan_slots`
and `check_liveness` keep to it.

Between two calls of these functions every slot is *steady* (`SlotTally`): it is not under
reset, and its counters count what its ledger records.  `owed` is the number of sends that
are still to be counted for the slot: 1 inside `send` until `deliver` is through with it,
otherwise 0.  A slot is given to `reclaim_slot` only when its owner is `Gone`.

The protocol has two variants.  The service as it is may have subscribers that are still
being constructed; then the runs are those in which `check_liveness` does not give up the
slot of a live one (`timedOut`).  In a `calm` service nobody is being constructed, and
nothing is assumed.
-/
import DevicePlatform.Devbus.Steps

namespace Devbus

/-! ## The protocol -/

/-- What the publisher may rely on between two of its steps. -/
structure PubRely (b d : Bus) : Prop where
  move : SubsMove b.toCore d.toCore

/-- No slot is claimed by a subscriber under construction. -/
def Core.NoClaim (c : Core) : Prop := ∀ s i, (c.led s).stage ≠ .claimed i

/-- The publisher's protocol. -/
def pub (calm total : Prop) : Protocol Bus where
  inv b := Good b.toCore ∧ (calm → b.NoClaim)
  rely := PubRely
  guar b d := PubMove b.toCore d.toCore
  assumed b := calm ∨ b.timedOut = false
  total := total
  rely_refl _ := ⟨SubsMove.refl _⟩
  rely_trans h h' := ⟨h.move.trans h'.move⟩
  guar_refl _ := PubMove.of_same rfl rfl rfl rfl rfl

section Rules

variable {calm total : Prop} {α β : Type} {Q : α → Bus → Prop} {b : Bus}

/-- An atomic load of the publisher. -/
theorem pub_read {g : Bus → β} {k : β → Prog Bus α}
    (h : ∀ t, PubRely b t → Good t.toCore → (k (g t)).wp (pub calm total) Q t) :
    (Prog.read g >>= k).wp (pub calm total) Q b :=
  Prog.wp_read fun t hr hi => h t hr hi.1

/-- A step of the publisher creates no claim. -/
theorem PubStep.inv {c d : Core} (h : PubStep c d) (hc : calm → c.NoClaim) :
    Good d ∧ (calm → d.NoClaim) :=
  ⟨h.good, fun hcalm s i hst => hc hcalm s i (h.move.claimed s i hst)⟩

/-- An atomic step of the publisher that loads and stores. -/
theorem pub_update {g : Bus → β × Bus} {k : β → Prog Bus α}
    (h : ∀ t, PubRely b t → Good t.toCore → (calm ∨ (g t).2.timedOut = false) →
      PubStep t.toCore (g t).2.toCore ∧ (k (g t).1).wp (pub calm total) Q (g t).2) :
    (Prog.update g >>= k).wp (pub calm total) Q b := by
  refine Prog.wp_update fun t hr hi ha => ?_
  obtain ⟨hstep, hk⟩ := h t hr hi.1 ha
  exact ⟨hstep.inv hi.2, hstep.move, hk⟩

/-- An atomic store of the publisher. -/
theorem pub_write {g : Bus → Bus} {k : Unit → Prog Bus α}
    (h : ∀ t, PubRely b t → Good t.toCore →
      PubStep t.toCore (g t).toCore ∧ (k ()).wp (pub calm total) Q (g t)) :
    (Prog.write g >>= k).wp (pub calm total) Q b := by
  refine Prog.wp_write fun t hr hi _ => ?_
  obtain ⟨hstep, hk⟩ := h t hr hi.1
  exact ⟨hstep.inv hi.2, hstep.move, hk⟩

/-- A store to what the protocol is not about. -/
theorem PubStep.refl {c : Core} (g : Good c) : PubStep c c :=
  ⟨g, PubMove.of_same rfl rfl rfl rfl rfl⟩

end Rules

/-! ## Steady slots -/

/-- The publisher's members that change only at known places. -/
structure Pin where
  hdr : Header
  calls : Calls
  chunkSeq : ℕ → ℕ
  active : ℕ → Bool
  activeList : List ℕ
  ripe : ℕ → Bool

def Bus.pin (b : Bus) : Pin :=
  ⟨b.hdr, b.calls, b.chunkSeq, b.book.active, b.book.activeList, b.book.ripe⟩

/-- How often `deliver` has refused a sample in the way `r`. -/
def Ledger.refusals (l : Ledger) (r : Refusal) : ℕ := l.refused.countP (·.2 = r)

/-- The sequence numbers from the first `send` after onboarding on, `owed` of them still to
come, are those that were pushed and those that were refused. -/
def Ledger.Covers (l : Ledger) (owed nextSeq : ℕ) : Prop :=
  l.onboardSeq + owed ≤ nextSeq ∧
    (l.pushed.map Entry.seq ++ l.refused.map Prod.fst).Perm
      (List.range' l.onboardSeq (nextSeq - owed - l.onboardSeq))

/-- The counters of slot `s` count what its ledger records. -/
structure SlotTally (owed : ℕ) (b : Bus) (s : ℕ) : Prop where
  clean : (b.led s).stage ≠ .reset
  delivered : (b.stats s).delivered = (b.led s).pushed.length
  droppedOldest : (b.stats s).droppedOldest = (b.led s).evicted.length
  droppedNewest : (b.stats s).droppedNewest = (b.led s).refusals .droppedNewest
  blockTimeouts : (b.stats s).blockTimeouts = (b.led s).refusals .blockTimeout
  fresh : b.book.active s = false → (b.led s).refused = []
  covered : b.book.active s = true → (b.led s).Covers owed b.calls.nextSeq

/-- Everything that was released and read has been acknowledged in `done_tail`. -/
def Bus.Settled (b : Bus) (s : ℕ) : Prop := (b.slot s).doneTail = (b.led s).doneRead

/-- All slots are steady. -/
structure Steady (k : Pin) (owed : ℕ → ℕ) (b : Bus) : Prop where
  good : Good b.toCore
  pin : b.pin = k
  tally : ∀ s, SlotTally (owed s) b s
  settled : ∀ s, b.Settled s

section Stable

variable {b d : Bus} {s n : ℕ} {k : Pin} {owed : ℕ → ℕ}

theorem PubRely.stats (h : PubRely b d) : d.stats = b.stats := h.move.stats

theorem PubRely.pin (h : PubRely b d) : d.pin = b.pin := by
  unfold Bus.pin
  rw [h.move.hdr, h.move.calls, h.move.chunkSeq, h.move.book]

theorem SlotTally.rely (t : SlotTally n b s) (h : PubRely b d) : SlotTally n d s := by
  have m := h.move.slot s
  refine ⟨fun hr => t.clean (m.reset hr), ?_, ?_, ?_, ?_, ?_, ?_⟩
  · rw [h.stats, m.pushed]
    exact t.delivered
  · rw [h.stats, m.evicted]
    exact t.droppedOldest
  · unfold Ledger.refusals
    rw [h.stats, m.refused]
    exact t.droppedNewest
  · unfold Ledger.refusals
    rw [h.stats, m.refused]
    exact t.blockTimeouts
  · rw [h.move.book, m.refused]
    exact t.fresh
  · unfold Ledger.Covers
    rw [h.move.book, h.move.calls, m.onboardSeq, m.pushed, m.refused]
    exact t.covered

theorem Bus.Settled.rely (t : b.Settled s) (h : PubRely b d) : d.Settled s := by
  unfold Bus.Settled at *
  rw [(h.move.slot s).doneTail, (h.move.slot s).doneRead, t]

theorem Steady.rely (t : Steady k owed b) (h : PubRely b d) (g : Good d.toCore) :
    Steady k owed d :=
  ⟨g, h.pin.trans t.pin, fun s => (t.tally s).rely h, fun s => (t.settled s).rely h⟩

/-- The tally of a slot that a step has not touched. -/
theorem SlotTally.of_same (t : SlotTally n b s) (hled : d.led s = b.led s)
    (hstats : d.stats s = b.stats s) (hact : d.book.active s = b.book.active s)
    (hnext : d.calls.nextSeq = b.calls.nextSeq) : SlotTally n d s := by
  refine ⟨by rw [hled]; exact t.clean, by rw [hled, hstats]; exact t.delivered,
    by rw [hled, hstats]; exact t.droppedOldest, by rw [hled, hstats]; exact t.droppedNewest,
    by rw [hled, hstats]; exact t.blockTimeouts, by rw [hled, hact]; exact t.fresh, ?_⟩
  rw [hled, hact, hnext]
  exact t.covered

/-- A step of the publisher on slot `s` leaves the other slots alone. -/
structure Touches (s : ℕ) (b d : Bus) : Prop where
  hdr : d.hdr = b.hdr
  nextSeq : d.calls.nextSeq = b.calls.nextSeq
  slot : ∀ s', s' ≠ s → d.slot s' = b.slot s'
  led : ∀ s', s' ≠ s → d.led s' = b.led s'
  stats : ∀ s', s' ≠ s → d.stats s' = b.stats s'
  active : ∀ s', s' ≠ s → d.book.active s' = b.book.active s'

theorem Touches.tally (h : Touches s b d) (t : ∀ s', s' ≠ s → SlotTally (owed s') b s')
    (ts : SlotTally (owed s) d s) (s' : ℕ) : SlotTally (owed s') d s' := by
  by_cases hs : s' = s
  · subst hs
    exact ts
  exact (t s' hs).of_same (h.led s' hs) (h.stats s' hs) (h.active s' hs) h.nextSeq

theorem Touches.settled (h : Touches s b d) {s' : ℕ} (hs : s' ≠ s) (t : b.Settled s') :
    d.Settled s' := by
  unfold Bus.Settled at *
  rw [h.slot s' hs, h.led s' hs, t]

end Stable

/-! ## `drain_done` -/

/-- The owner of slot `s` has at most as many chunks as its share of the budget. -/
def Trim (b : Bus) (s : ℕ) : Prop :=
  (b.led s).pushed.length - (b.slot s).dataTail + (b.led s).hand.length +
    ((b.led s).released.length - (b.led s).doneRead) ≤ b.hdr.queueCapacity + b.hdr.maxBorrowed

/-- A subscriber only moves chunks from the queue to its hands and to the done ring. -/
theorem SlotMove.total {w w' : SlotWords} {l l' : Ledger} (m : SlotMove w l w' l')
    (htail : w'.dataTail ≤ l.pushed.length) {n : ℕ} (hn : n ≤ l.released.length) :
    l'.pushed.length - w'.dataTail + l'.hand.length + (l'.released.length - n) =
      l.pushed.length - w.dataTail + l.hand.length + (l.released.length - n) := by
  have h1 := m.moved
  have h2 := m.tail
  have h3 := m.released
  rw [m.pushed]
  omega

section DrainDone

variable {calm total : Prop} {b d : Bus} {s : ℕ} {k : Pin} {owed : ℕ → ℕ}

theorem Trim.rely (t : Trim b s) (hr : (b.led s).stage ≠ .reset) (h : PubRely b d)
    (gb : Good b.toCore) (g : Good d.toCore) : Trim d s := by
  have m := h.move.slot s
  have htail := ((g.slot s).ledger fun hst => hr (m.reset hst)).tail_le
  rw [m.pushed] at htail
  unfold Trim at *
  rw [m.doneRead, h.move.hdr, m.total htail ((gb.slot s).ledger hr).doneRead_le]
  exact t

/-- What holds on the side while slot `s` is drained: its owner is still gone if it was,
and the slots in `T` are still trimmed. -/
structure Aside (G : Prop) (T : ℕ → Prop) (s : ℕ) (b : Bus) : Prop where
  gone : G → Gone b.toCore s
  trim : ∀ s', T s' → Trim b s'

/-- The loop of `drain_done`, which has read `head` and has come to `tail`. -/
structure Draining (k : Pin) (owed : ℕ → ℕ) (s head tail : ℕ) (b : Bus) : Prop where
  good : Good b.toCore
  pin : b.pin = k
  tally : ∀ s', SlotTally (owed s') b s'
  settled : ∀ s', s' ≠ s → b.Settled s'
  doneRead : (b.led s).doneRead = tail
  tail_le : tail ≤ head
  head_le : head ≤ (b.led s).released.length
  share : (b.led s).pushed.length - (b.slot s).dataTail + (b.led s).hand.length +
    ((b.led s).released.length - head) ≤ k.hdr.queueCapacity + k.hdr.maxBorrowed

theorem Aside.rely {G : Prop} {T : ℕ → Prop} (t : Aside G T s b)
    (hc : ∀ s, (b.led s).stage ≠ .reset) (h : PubRely b d) (gb : Good b.toCore)
    (g : Good d.toCore) : Aside G T s d :=
  ⟨fun hG => h.move.still_gone (t.gone hG), fun s' hs => (t.trim s' hs).rely (hc s') h gb g⟩

theorem Draining.rely {head tail : ℕ} (t : Draining k owed s head tail b) (h : PubRely b d)
    (g : Good d.toCore) : Draining k owed s head tail d := by
  have m := h.move.slot s
  have htail := ((g.slot s).ledger fun hst => (t.tally s).clean (m.reset hst)).tail_le
  rw [m.pushed] at htail
  refine ⟨g, h.pin.trans t.pin, fun s' => (t.tally s').rely h,
    fun s' hs => (t.settled s' hs).rely h, m.doneRead.trans t.doneRead, t.tail_le,
    Nat.le_trans t.head_le m.released, ?_⟩
  rw [m.total htail t.head_le]
  exact t.share

/-- One round of the loop. -/
theorem Draining.step {head tail : ℕ} (t : Draining k owed s head tail b) (hlt : tail < head)
    (hsent : s ∉ k.calls.sentTo) :
    let b' := (b.setBook fun book => book.releaseRef b.hdr s
      ((b.slot s).doneRing (tail &&& (k.hdr.completionCapacity - 1)))).setLed s
        fun l => { l with doneRead := l.doneRead + 1 }
    PubStep b.toCore b'.toCore ∧ Draining k owed s head (tail + 1) b' ∧ Touches s b b' ∧
      (b'.led s).stage = (b.led s).stage ∧ (b'.led s).ownerPid = (b.led s).ownerPid := by
  have hhdr : b.hdr = k.hdr := congrArg Pin.hdr t.pin
  have hcalls : b.calls = k.calls := congrArg Pin.calls t.pin
  have m := (t.good.slot s).ledger (t.tally s).clean
  have hread : (b.led s).doneRead < (b.led s).released.length := by
    have := t.head_le
    rw [t.doneRead]
    omega
  have hheld : (b.led s).stage.Held := by
    by_contra hh
    obtain ⟨-, -, -, -, hre, -⟩ := (t.good.slot s).blank hh
    rw [hre] at hread
    exact Nat.not_lt_zero _ hread
  -- the entry that is read is the oldest one not yet read
  have hentry : (b.slot s).doneRing (tail &&& (k.hdr.completionCapacity - 1)) =
      (b.led s).released[(b.led s).doneRead] := by
    rw [← hhdr, land_mask t.good.exact.done_pow, ← t.doneRead]
    exact m.doneRing _ hread m.doneTail_le
  rw [hentry]
  intro b'
  have step : PubStep b.toCore b'.toCore :=
    t.good.drainOne hheld (by rw [hcalls]; exact hsent) hread
  have hslots := Book.releaseRef_slots (h := b.hdr) (s := s)
    (c := (b.led s).released[(b.led s).doneRead]) (k := b.book)
  have hact : b'.book.active = b.book.active := congrArg Prod.fst hslots
  have hlist : b'.book.activeList = b.book.activeList := congrArg (fun t => t.2.2.1) hslots
  have hripe : b'.book.ripe = b.book.ripe := congrArg (fun t => t.2.2.2.2) hslots
  have hled : b'.led s = { b.led s with doneRead := (b.led s).doneRead + 1 } :=
    Function.update_self ..
  have htouch : Touches s b b' :=
    ⟨rfl, rfl, fun _ _ => rfl, fun _ hs => Function.update_of_ne hs .., fun _ _ => rfl,
      fun _ _ => by rw [hact]⟩
  refine ⟨step, ⟨step.good, ?_, ?_, fun s' hs => htouch.settled hs (t.settled s' hs), ?_, hlt,
    ?_, ?_⟩, htouch, by rw [hled], by rw [hled]⟩
  · rw [← t.pin]
    unfold Bus.pin
    rw [hact, hlist, hripe]
    rfl
  · refine htouch.tally (fun s' _ => t.tally s') ?_
    have ts := t.tally s
    refine ⟨by rw [hled]; exact ts.clean, by rw [hled]; exact ts.delivered,
      by rw [hled]; exact ts.droppedOldest, by rw [hled]; exact ts.droppedNewest,
      by rw [hled]; exact ts.blockTimeouts, by rw [hled, hact]; exact ts.fresh, ?_⟩
    rw [hled, hact]
    exact ts.covered
  · rw [hled]
    exact congrArg (· + 1) t.doneRead
  · rw [hled]
    exact t.head_le
  · rw [hled]
    exact t.share

theorem Aside.touch {G : Prop} {T : ℕ → Prop} (t : Aside G T s b) (hT : ¬ T s)
    (h : Touches s b d) (hstage : (d.led s).stage = (b.led s).stage)
    (howner : (d.led s).ownerPid = (b.led s).ownerPid) (halive : d.alive = b.alive) :
    Aside G T s d := by
  constructor
  · intro hG
    have hg := t.gone hG
    unfold Gone at *
    rw [hstage, howner, halive]
    exact hg
  · intro s' hs
    have hne : s' ≠ s := by
      rintro rfl
      exact hT hs
    have ht := t.trim s' hs
    unfold Trim at *
    rw [h.led s' hne, h.slot s' hne, h.hdr]
    exact ht

/-- **`drain_done`** takes back what the owner of the slot has released. -/
theorem drainDone_spec {G : Prop} {T : ℕ → Prop} (t : Steady k owed b)
    (hsent : s ∉ k.calls.sentTo) (hT : ¬ T s) (aside : Aside G T s b) :
    (Publisher.drainDone s).wp (pub calm total)
      (fun _ b' => Steady k owed b' ∧ Aside G (fun s' => T s' ∨ s' = s) s b') b := by
  unfold Publisher.drainDone
  refine pub_read fun b₁ h₁ g₁ => ?_
  have t₁ := t.rely h₁ g₁
  have a₁ := aside.rely (fun s => (t.tally s).clean) h₁ t.good g₁
  refine pub_read fun b₂ h₂ g₂ => ?_
  have t₂ := t₁.rely h₂ g₂
  have a₂ := a₁.rely (fun s => (t₁.tally s).clean) h₂ t₁.good g₂
  refine pub_read fun b₃ h₃ g₃ => ?_
  have t₃ := t₂.rely h₃ g₃
  have a₃ := a₂.rely (fun s => (t₂.tally s).clean) h₃ t₂.good g₃
  have hhdr : ∀ {d : Bus}, d.pin = k → d.hdr = k.hdr := fun h => congrArg Pin.hdr h
  have m := (g₃.slot s).ledger (t₃.tally s).clean
  have htail : (b₂.slot s).doneTail = (b₃.led s).doneRead := by
    rw [t₂.settled s, (h₃.move.slot s).doneRead]
  have hstart : Draining k owed s (b₃.slot s).doneHead (b₂.slot s).doneTail b₃ := by
    refine ⟨g₃, t₃.pin, t₃.tally, fun s' _ => t₃.settled s', htail.symm, ?_, ?_, ?_⟩
    · rw [htail, m.doneHead]
      exact m.doneRead_le
    · rw [m.doneHead]
    · have h1 := m.queue_le
      have h2 := m.hand_le
      rw [m.doneHead, ← hhdr t₃.pin]
      omega
  -- when everything has been read the slot is within its share
  have hdone : ∀ {d : Bus} {head : ℕ}, Draining k owed s head head d → Trim d s := by
    intro d head j
    have := j.share
    unfold Trim
    rw [hhdr j.pin, j.doneRead]
    exact this
  -- the done ring holds fewer than `2^64` entries
  have hspan : ∀ {tail : ℕ}, (b₂.slot s).doneTail ≤ tail → tail ≤ (b₃.slot s).doneHead →
      (u64Sub (b₃.slot s).doneHead tail = 0 ↔ tail = (b₃.slot s).doneHead) := by
    intro tail hle hle'
    have h1 := (g₃.slot s).done_le g₃.exact.count_le
    have h2 := g₃.exact.done_lt
    rw [(h₃.move.slot s).doneTail] at h1
    exact u64Sub_eq_zero hle' (by omega)
  split
  · next heq =>
    rw [(hspan (Nat.le_refl _) hstart.tail_le).mp heq] at hstart
    refine ⟨t₃, a₃.gone, ?_⟩
    rintro s' (hs | rfl)
    · exact a₃.trim s' hs
    · exact hdone hstart
  · next hne =>
    rw [hspan (Nat.le_refl _) hstart.tail_le] at hne
    refine Prog.wp_loop_variant
      (fun tail d => Draining k owed s (b₃.slot s).doneHead tail d ∧ Aside G T s d ∧
        (b₂.slot s).doneTail ≤ tail)
      (fun tail => (b₃.slot s).doneHead - tail) ?_ ⟨hstart, a₃, Nat.le_refl _⟩ ?_
    · rintro tail d d' ⟨j, a, hle⟩ hr hi
      exact ⟨j.rely hr hi.1, a.rely (fun s => (j.tally s).clean) hr j.good hi.1, hle⟩
    · rintro tail d ⟨j, a, hle⟩
      split
      · next heq =>
        -- the store of `done_tail`
        obtain rfl := (hspan hle j.tail_le).mp heq
        refine pub_write fun d₁ hr₁ gd₁ => ?_
        have j₁ := j.rely hr₁ gd₁
        have a₁ := a.rely (fun s => (j.tally s).clean) hr₁ j.good gd₁
        have hheld : (d₁.led s).stage.Held := by
          by_contra hh
          have h1 := hstart.tail_le
          have h2 := j₁.head_le
          obtain ⟨-, -, -, -, hre, -⟩ := (gd₁.slot s).blank hh
          rw [hre, List.length_nil] at h2
          omega
        have step := gd₁.drainEnd hheld
        rw [j₁.doneRead] at step
        have hslot : (d₁.setSlot s fun w => { w with doneTail := (b₃.slot s).doneHead }).slot s =
            { d₁.slot s with doneTail := (b₃.slot s).doneHead } := Function.update_self ..
        have htouch : Touches s d₁
            (d₁.setSlot s fun w => { w with doneTail := (b₃.slot s).doneHead }) :=
          ⟨rfl, rfl, fun _ hs => Function.update_of_ne hs .., fun _ _ => rfl, fun _ _ => rfl,
            fun _ _ => rfl⟩
        have a₂ := a₁.touch hT htouch rfl rfl rfl
        refine ⟨step, ⟨step.good, j₁.pin, fun s' => ?_, ?_⟩, a₂.gone, ?_⟩
        · exact (j₁.tally s').of_same rfl rfl rfl rfl
        · intro s'
          by_cases hs : s' = s
          · subst hs
            unfold Bus.Settled
            rw [hslot]
            exact j₁.doneRead.symm
          · exact htouch.settled hs (j₁.settled s' hs)
        · rintro s' (hs | rfl)
          · exact a₂.trim s' hs
          · have := hdone j₁
            unfold Trim at *
            rw [hslot]
            exact this
      · next hne =>
        refine pub_write fun d₁ hr₁ gd₁ => ?_
        have j₁ := j.rely hr₁ gd₁
        have a₁ := a.rely (fun s => (j.tally s).clean) hr₁ j.good gd₁
        have hlt : tail < (b₃.slot s).doneHead :=
          Nat.lt_of_le_of_ne j.tail_le fun h => hne ((hspan hle j.tail_le).mpr h)
        have hmask : b₁.hdr.completionCapacity = k.hdr.completionCapacity := by
          rw [hhdr t₁.pin]
        rw [hmask]
        obtain ⟨step, j₂, htouch, hstage, howner⟩ := j₁.step hlt hsent
        exact ⟨step, ⟨j₂, a₁.touch hT htouch hstage howner rfl, by omega⟩, by omega⟩

end DrainDone

/-! ## `reclaim_slot` -/

open Publisher (ResetWord resetWords zeroWord)

/-- The words of slot `s` that have to be 0 when the slot becomes free. -/
def Zeroed (s : ℕ) (b : Bus) : ResetWord → Prop
  | .dataHead => (b.slot s).dataHead = 0
  | .dataTail => (b.slot s).dataTail = 0
  | .doneHead => (b.slot s).doneHead = 0
  | .doneTail => (b.slot s).doneTail = 0
  | .delivered => (b.stats s).delivered = 0
  | .droppedOldest => (b.stats s).droppedOldest = 0
  | .droppedNewest => (b.stats s).droppedNewest = 0
  | .blockTimeouts => (b.stats s).blockTimeouts = 0
  | .blockedNs => (b.stats s).blockedNs = 0
  | .pid => (b.slot s).pid = 0
  | .sleeping => True

section ReclaimSlot

variable {calm total : Prop} {b d : Bus} {s : ℕ} {k : Pin} {owed : ℕ → ℕ} {rest : List ResetWord}

/-- Slot `s` is under reset; the words in `rest` are still to be stored. -/
structure Resetting (k : Pin) (owed : ℕ → ℕ) (s : ℕ) (rest : List ResetWord) (b : Bus) : Prop where
  good : Good b.toCore
  pin : b.pin = k
  tally : ∀ s', s' ≠ s → SlotTally (owed s') b s'
  settled : ∀ s', s' ≠ s → b.Settled s'
  stage : (b.led s).stage = .reset
  suffix : rest <:+ resetWords
  zeroed : ∀ x ∈ resetWords, x ∉ rest → Zeroed s b x

theorem Resetting.rely (t : Resetting k owed s rest b) (h : PubRely b d) (g : Good d.toCore) :
    Resetting k owed s rest d := by
  have hgone : Gone b.toCore s := by
    unfold Gone
    rw [t.stage]
    trivial
  obtain ⟨hw, hl⟩ := h.move.gone s hgone
  refine ⟨g, h.pin.trans t.pin, fun s' hs => (t.tally s' hs).rely h,
    fun s' hs => (t.settled s' hs).rely h, by rw [hl, t.stage], t.suffix, ?_⟩
  intro x hx hnot
  have hz := t.zeroed x hx hnot
  cases x <;> unfold Zeroed at * <;>
    first | trivial | (rw [hw]; exact hz) | (rw [h.stats]; exact hz)

theorem zeroWord_pin (x : ResetWord) : (zeroWord s b x).pin = b.pin := by
  cases x <;> rfl

theorem zeroWord_led (x : ResetWord) : (zeroWord s b x).led = b.led := by
  cases x <;> rfl

theorem zeroWord_touches (x : ResetWord) : Touches s b (zeroWord s b x) := by
  cases x <;>
    exact ⟨rfl, rfl, fun _ hs => by first | rfl | exact Function.update_of_ne hs ..,
      fun _ _ => rfl, fun _ hs => by first | rfl | exact Function.update_of_ne hs ..,
      fun _ _ => rfl⟩

/-- A store of 0 clears its word and no other. -/
theorem zeroWord_zeroed {x y : ResetWord} (h : y ≠ x → Zeroed s b y) :
    Zeroed s (zeroWord s b x) y := by
  have hslot : ∀ f : SlotWords → SlotWords, (b.setSlot s f).slot s = f (b.slot s) :=
    fun f => Function.update_self ..
  have hstats : ∀ f : SlotStats → SlotStats, (b.setStats s f).stats s = f (b.stats s) :=
    fun f => Function.update_self ..
  cases x <;> cases y <;> unfold zeroWord Zeroed <;>
    first | exact trivial | (rw [hslot]; first | done | exact h ResetWord.noConfusion) |
      (rw [hstats]; first | done | exact h ResetWord.noConfusion) | exact h ResetWord.noConfusion

/-- `done_head` is cleared before `done_tail`. -/
theorem doneHead_first (h : (ResetWord.doneTail :: rest) <:+ resetWords) :
    ResetWord.doneHead ∉ ResetWord.doneTail :: rest := by
  have hall : ∀ l ∈ resetWords.tails, l.head? = some ResetWord.doneTail →
      ResetWord.doneHead ∉ l := by
    decide
  exact hall _ ((List.mem_tails _ _).mpr h) rfl

/-- One store of the reset. -/
theorem Resetting.step {x : ResetWord} (t : Resetting k owed s (x :: rest) b) :
    PubStep b.toCore (zeroWord s b x).toCore ∧ Resetting k owed s rest (zeroWord s b x) := by
  have hdone := ((t.good.slot s).reset t.stage).2.2
  have step : PubStep b.toCore (zeroWord s b x).toCore := by
    cases x with
    | dataHead => exact t.good.zero t.stage rfl hdone
    | dataTail => exact t.good.zero t.stage rfl hdone
    | doneHead => exact t.good.zero t.stage rfl (Nat.zero_le _)
    | doneTail =>
        have hzero : (b.slot s).doneHead = 0 :=
          t.zeroed .doneHead (by decide) (doneHead_first t.suffix)
        exact t.good.zero t.stage rfl (by dsimp only; omega)
    | pid => exact t.good.zero t.stage rfl hdone
    | delivered | droppedOldest | droppedNewest | blockTimeouts | blockedNs =>
        exact t.good.setStats (.inr t.stage) _
    | sleeping => exact PubStep.refl t.good
  have htouch := zeroWord_touches (s := s) (b := b) x
  refine ⟨step, ⟨step.good, (zeroWord_pin x).trans t.pin, ?_, ?_, ?_, ?_, ?_⟩⟩
  · intro s' hs
    exact (t.tally s' hs).of_same (htouch.led s' hs) (htouch.stats s' hs) (htouch.active s' hs)
      htouch.nextSeq
  · exact fun s' hs => htouch.settled hs (t.settled s' hs)
  · rw [zeroWord_led]
    exact t.stage
  · exact (List.suffix_cons x rest).trans t.suffix
  · intro y hy hnot
    refine zeroWord_zeroed fun hne => t.zeroed y hy ?_
    rw [List.mem_cons, not_or]
    exact ⟨hne, hnot⟩

/-- **`reclaim_slot`** frees the slot of an owner that is gone. -/
theorem reclaimSlot_spec (t : Steady k owed b) (hsent : s ∉ k.calls.sentTo)
    (hgone : Gone b.toCore s) :
    (Publisher.reclaimSlot s).wp (pub calm total)
      (fun _ b' => Steady { k with
        active := Function.update k.active s false
        ripe := Function.update k.ripe s false } owed b') b := by
  unfold Publisher.reclaimSlot
  refine Prog.wp_seq (drainDone_spec (G := True) (T := fun _ => False) t hsent id
    ⟨fun _ => hgone, fun _ h => h.elim⟩) ?_
  rintro - b₁ ⟨t₁, a₁⟩
  refine pub_write fun b₂ h₂ g₂ => ?_
  have t₂ := t₁.rely h₂ g₂
  have hcalls : b₂.calls = k.calls := congrArg Pin.calls t₂.pin
  have step := g₂.beginReset (h₂.move.still_gone (a₁.gone trivial)) (by rw [hcalls]; exact hsent)
  have hslots := (g₂.pool.reclaimChunks (s := s) g₂.exact.subs_lt fun x hx =>
    g₂.unsent x hx s (by rw [hcalls]; exact hsent)).2.1
  have hact : (b₂.book.reclaimChunks b₂.hdr s).active = b₂.book.active := congrArg Prod.fst hslots
  have hlist : (b₂.book.reclaimChunks b₂.hdr s).activeList = b₂.book.activeList :=
    congrArg (fun t => t.2.2.1) hslots
  have hripe : (b₂.book.reclaimChunks b₂.hdr s).ripe = b₂.book.ripe :=
    congrArg (fun t => t.2.2.2.2) hslots
  refine ⟨step, ?_⟩
  have hstart : Resetting k owed s resetWords
      ((b₂.setBook fun book => book.reclaimChunks b₂.hdr s).setLed s fun _ =>
        Ledger.fresh .reset) := by
    refine ⟨step.good, ?_, ?_, ?_, ?_, List.suffix_rfl, fun x hx hnot => absurd hx hnot⟩
    · rw [← t₂.pin]
      show Pin.mk _ _ _ _ _ _ = Pin.mk _ _ _ _ _ _
      congr 1
    · intro s' hs
      exact (t₂.tally s').of_same (Function.update_of_ne hs ..) rfl (congrFun hact s') rfl
    · intro s' hs
      have := t₂.settled s'
      unfold Bus.Settled at *
      rw [show ((b₂.setBook fun book => book.reclaimChunks b₂.hdr s).setLed s fun _ =>
        Ledger.fresh .reset).led s' = b₂.led s' from Function.update_of_ne hs ..]
      exact this
    · show (Function.update b₂.led s (Ledger.fresh .reset) s).stage = .reset
      rw [Function.update_self]
      rfl
  refine Prog.wp_seq (Prog.wp_fold (fun rest _ d => Resetting k owed s rest d) hstart ?_) ?_
  · intro x rest _ d j
    refine Prog.wp_last (pub_write fun d₁ hr₁ gd₁ => ?_)
    obtain ⟨step, j'⟩ := (j.rely hr₁ gd₁).step
    exact ⟨step, j'⟩
  · rintro - b₃ j
    refine pub_write fun b₄ h₄ g₄ => ?_
    have j₄ := j.rely h₄ g₄
    have hz : ∀ x, Zeroed s b₄ x := by
      intro x
      exact j₄.zeroed x (by cases x <;> decide) List.not_mem_nil
    have hstats : b₄.stats s = SlotStats.zero := by
      have h1 := hz .delivered
      have h2 := hz .droppedOldest
      have h3 := hz .droppedNewest
      have h4 := hz .blockTimeouts
      have h5 := hz .blockedNs
      unfold Zeroed at h1 h2 h3 h4 h5
      show SlotStats.mk _ _ _ _ _ = SlotStats.mk _ _ _ _ _
      rw [h1, h2, h3, h4, h5]
    have step := g₄.endReset j₄.stage ⟨hz .dataHead, hz .dataTail, hz .doneHead, hz .doneTail⟩
      (hz .pid) hstats
    refine ⟨step, step.good, ?_, ?_, ?_⟩
    · rw [← j₄.pin]
      rfl
    · intro s'
      by_cases hs : s' = s
      · subst hs
        have hled : Function.update b₄.led s' (Ledger.fresh .free) s' = Ledger.fresh .free :=
          Function.update_self ..
        refine ⟨?_, ?_, ?_, ?_, ?_, ?_, ?_⟩
        · show (Function.update b₄.led s' (Ledger.fresh .free) s').stage ≠ .reset
          rw [hled]
          exact Stage.noConfusion
        · show _ = (Function.update b₄.led s' (Ledger.fresh .free) s').pushed.length
          rw [hled]
          exact hz .delivered
        · show _ = (Function.update b₄.led s' (Ledger.fresh .free) s').evicted.length
          rw [hled]
          exact hz .droppedOldest
        · show _ = (Function.update b₄.led s' (Ledger.fresh .free) s').refusals .droppedNewest
          rw [hled]
          exact hz .droppedNewest
        · show _ = (Function.update b₄.led s' (Ledger.fresh .free) s').refusals .blockTimeout
          rw [hled]
          exact hz .blockTimeouts
        · show _ → (Function.update b₄.led s' (Ledger.fresh .free) s').refused = []
          rw [hled]
          exact fun _ => rfl
        · show Function.update b₄.book.active s' false s' = true → _
          rw [Function.update_self]
          exact fun h => nomatch h
      · exact (j₄.tally s' hs).of_same (Function.update_of_ne hs ..) rfl
          (Function.update_of_ne hs ..) rfl
    · intro s'
      by_cases hs : s' = s
      · subst hs
        show (Function.update b₄.slot s' _ s').doneTail =
          (Function.update b₄.led s' (Ledger.fresh .free) s').doneRead
        rw [Function.update_self, Function.update_self]
        exact hz .doneTail
      · have := j₄.settled s' hs
        show (Function.update b₄.slot s _ s').doneTail = (Function.update b₄.led s _ s').doneRead
        rw [Function.update_of_ne hs, Function.update_of_ne hs]
        exact this

end ReclaimSlot

end Devbus
