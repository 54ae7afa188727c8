/-
# The invariant of a service, and what its parties may do

`Good` ties the shared words, the publisher's bookkeeping and the subscriber objects
together:

* every slot's words match its ledger, and its state word the stage of its tenure
  (`SlotOk`);
* every chunk is in one place (`PoolOk`);
* an entry that a subscriber can still reach is the sample that was sent (`stored`);
* a slot in use belongs to the one subscriber that claimed it (`Owns`, `Placed`);
* the counters of a slot that is not in use are 0 (`counters`), and those of a subscriber
  tell its gaps (`tallied`).

The parties keep to two relations.  `SubsMove` is what the subscribers, crashes included,
may do between two steps of the publisher; `SubView i` is what the publisher and the other
subscribers may do between two steps of subscriber `i`.  The publisher takes a slot back
only when its owner is `Gone`.
-/
import DevicePlatform.Devbus.Ledger
import DevicePlatform.Devbus.Pool

namespace Devbus

/-! ## Stages -/

namespace Stage

/-- The order in which a slot goes through the stages. -/
def rank : Stage → ℕ
  | .free => 0
  | .claimed _ => 1
  | .active _ => 2
  | .closing _ => 3
  | .reset => 4

/-- The stages in which the rings are in use. -/
def Held : Stage → Prop
  | .active _ | .closing _ => True
  | _ => False

/-- The state word of a stage.  A slot under reset keeps the word it had. -/
def word : Stage → Option SlotState
  | .free => some .free
  | .claimed _ => some .claimed
  | .active _ => some .active
  | .closing _ => some .closing
  | .reset => none

theorem held_iff {t : Stage} : t.Held ↔ 2 ≤ t.rank ∧ t ≠ .reset := by
  cases t <;> simp [Held, rank]

theorem rank_eq_zero {t : Stage} : t.rank = 0 ↔ t = .free := by
  cases t <;> simp [rank]

theorem eq_claimed_of_word {t : Stage} (h : t.word = some .claimed) : ∃ i, t = .claimed i := by
  cases t <;> cases h
  exact ⟨_, rfl⟩

theorem eq_active_of_word {t : Stage} (h : t.word = some .active) : ∃ i, t = .active i := by
  cases t <;> cases h
  exact ⟨_, rfl⟩

theorem eq_closing_of_word {t : Stage} (h : t.word = some .closing) : ∃ i, t = .closing i := by
  cases t <;> cases h
  exact ⟨_, rfl⟩

end Stage

/-! ## Slots -/

/-- The words of a slot, its ledger and what the publisher keeps about it agree. -/
structure SlotOk (h : Header) (w : SlotWords) (l : Ledger) (out : ℕ → ℕ) (active : Bool)
    (fd : Option ℕ) : Prop where
  word : ∀ v, l.stage.word = some v → w.state = v
  ledger : l.stage ≠ .reset → Matches h w l out
  unused : ¬ l.stage.Held → l = { Ledger.fresh l.stage with ownerPid := l.ownerPid }
  reset : l.stage = .reset → w.state ≠ .free ∧ (∀ c, out c = 0) ∧
    w.doneHead ≤ w.doneTail + h.completionCapacity
  owned : l.stage ≠ .free → l.stage ≠ .reset → l.ownerPid ≠ 0
  claimed : ∀ i, l.stage = .claimed i → w.pid = 0 ∨ w.pid = l.ownerPid
  pid : l.stage.Held → w.pid = l.ownerPid
  free : l.stage = .free → w.pid = 0
  onboarded : active = true → l.stage ≠ .reset → l.stage.Held ∧ fd = some l.ownerPid
  fresh : active = false → l.pushed = []

namespace SlotOk

variable {h : Header} {w : SlotWords} {l : Ledger} {out : ℕ → ℕ} {active : Bool} {fd : Option ℕ}

/-- A slot that is not in use holds nothing. -/
theorem blank (k : SlotOk h w l out active fd) (hh : ¬ l.stage.Held) :
    l.pushed = [] ∧ l.evicted = [] ∧ l.taken = [] ∧ l.hand = [] ∧ l.released = [] ∧
      l.doneRead = 0 ∧ l.fullAt = [] ∧ l.refused = [] := by
  rw [k.unused hh]
  exact ⟨rfl, rfl, rfl, rfl, rfl, rfl, rfl, rfl⟩

/-- The indices of such a slot are 0. -/
theorem blank_words (k : SlotOk h w l out active fd) (hh : ¬ l.stage.Held)
    (hr : l.stage ≠ .reset) :
    w.dataHead = 0 ∧ w.dataTail = 0 ∧ w.doneHead = 0 ∧ w.doneTail = 0 := by
  have m := k.ledger hr
  obtain ⟨hp, -, -, -, hre, hdr, -⟩ := k.blank hh
  have h1 := m.head
  have h2 := m.tail_le
  have h3 := m.doneHead
  have h4 := m.doneTail_le
  rw [hp, List.length_nil] at h1 h2
  rw [hre, List.length_nil] at h3
  omega

/-- The stage that a state word tells. -/
theorem stage_of_word (k : SlotOk h w l out active fd) (hr : l.stage ≠ .reset) :
    l.stage.word = some w.state := by
  cases hst : l.stage with
  | reset => exact absurd hst hr
  | free => rw [k.word .free (by rw [hst]; rfl)]; rfl
  | claimed i => rw [k.word .claimed (by rw [hst]; rfl)]; rfl
  | active i => rw [k.word .active (by rw [hst]; rfl)]; rfl
  | closing i => rw [k.word .closing (by rw [hst]; rfl)]; rfl

/-- The done ring never holds more than its capacity. -/
theorem done_le (k : SlotOk h w l out active fd) (hc : h.chunkCount ≤ h.completionCapacity) :
    w.doneHead ≤ w.doneTail + h.completionCapacity := by
  by_cases hr : l.stage = .reset
  · exact (k.reset hr).2.2
  · have m := k.ledger hr
    have h1 := m.done_add_hand_le
    have h2 := m.doneHead
    omega

end SlotOk

/-! ## The service -/

/-- The counters of a subscriber say what is missing between the samples it has received. -/
structure Sub.Tallied (u : Sub) : Prop where
  received : u.received = u.log.length
  last : u.lastSeq = (u.log.map Entry.seq).getLastD 0
  none : u.log = [] → u.observedGaps = 0
  sum : ∀ f ∈ u.log.head?, u.log.length + u.observedGaps + f.seq = u.lastSeq + 1

theorem Sub.Tallied.keep {u v : Sub} (t : u.Tallied) (hreceived : v.received = u.received)
    (hlast : v.lastSeq = u.lastSeq) (hgaps : v.observedGaps = u.observedGaps)
    (hlog : v.log = u.log) : v.Tallied := by
  constructor
  · rw [hreceived, hlog, t.received]
  · rw [hlast, hlog, t.last]
  · rw [hlog, hgaps]
    exact t.none
  · rw [hlog, hgaps, hlast]
    exact t.sum

/-- Subscriber `i`, whose object is `u`, and the slot `s` with the ledger `l`. -/
structure Owns (u : Sub) (i s : ℕ) (l : Ledger) : Prop where
  claimed : l.stage = .claimed i → u.slot = some s ∧ u.pid = l.ownerPid ∧ u.phase = .building
  active : l.stage = .active i → u.slot = some s ∧ u.pid = l.ownerPid ∧ u.phase = .live ∧
    u.samples ⊆ l.hand ∧ u.log <+: l.taken
  closing : l.stage = .closing i → u.slot = some s ∧ u.phase = .closed ∧ u.log = l.taken

/-- Subscriber `i`, whose object is `u`, still has the slot that it has claimed. -/
structure Placed (u : Sub) (i : ℕ) (led : ℕ → Ledger) : Prop where
  building : u.phase = .building → ∀ s, u.slot = some s → (led s).stage = .claimed i
  live : u.phase = .live → ∃ s, u.slot = some s ∧ (led s).stage = .active i

/-- **The invariant of a service.** -/
structure Good (c : Core) : Prop where
  exact : c.hdr.Exact
  slot : ∀ s, SlotOk c.hdr (c.slot s) (c.led s) (c.book.outstanding s) (c.book.active s)
    (c.book.pidfds s)
  beyond : ∀ s, c.hdr.maxSubscribers ≤ s → (c.led s).stage = .free
  pool : PoolOk c.hdr c.book c.calls
  stored : ∀ s e, e ∈ (c.led s).pushed.drop (c.slot s).dataTail ∨ e ∈ (c.led s).hand →
    c.chunkSeq e.chunk = e.seq ∧ c.payload e.chunk = e.payload
  owner : ∀ s i, Owns (c.subs i) i s (c.led s)
  live : ∀ i, c.alive (c.subs i).pid = true → Placed (c.subs i) i c.led
  unsent : ∀ x, c.calls.sending = some x → ∀ s, s ∉ c.calls.sentTo → c.book.outstanding s x = 0
  seqs : ∀ s, ∀ e ∈ (c.led s).pushed, e.seq < c.calls.nextSeq ∧
    (c.calls.sending.isSome → s ∉ c.calls.sentTo → e.seq + 1 < c.calls.nextSeq)
  counters : ∀ s, ¬ (c.led s).stage.Held → (c.led s).stage ≠ .reset → c.stats s = SlotStats.zero
  ripe : ∀ s, c.book.ripe s = true → (c.led s).stage.Held ∨ (c.led s).stage = .reset
  tallied : ∀ i, (c.subs i).Tallied

/-- The owner of slot `s` has left or is dead, or the publisher has begun to reset it. -/
def Gone (c : Core) (s : ℕ) : Prop :=
  match (c.led s).stage with
  | .free => False
  | .claimed _ | .active _ => c.alive (c.led s).ownerPid = false
  | .closing _ | .reset => True

/-- A slot whose owner is dead is given up. -/
theorem Gone.of_dead {c : Core} {s : ℕ} (hst : (c.led s).stage ≠ .free)
    (hdead : c.alive (c.led s).ownerPid = false) : Gone c s := by
  unfold Gone
  cases h : (c.led s).stage with
  | free => exact hst h
  | claimed i | active i => exact hdead
  | closing i | reset => trivial

/-- A slot of a live subscriber is not given up. -/
theorem Good.not_gone {c : Core} (g : Good c) {s i : ℕ}
    (hst : (c.led s).stage = .claimed i ∨ (c.led s).stage = .active i)
    (ha : c.alive (c.subs i).pid = true) : ¬ Gone c s := by
  have hpid : (c.subs i).pid = (c.led s).ownerPid := by
    rcases hst with hst | hst
    · exact ((g.owner s i).claimed hst).2.1
    · exact ((g.owner s i).active hst).2.1
  rw [hpid] at ha
  unfold Gone
  rcases hst with hst | hst <;> rw [hst] <;> simp only [ha, Bool.true_eq_false, not_false_eq_true]

/-! ## What the publisher may do -/

/-- What a subscriber sees of the publisher in its own slot. -/
structure Keeps (w : SlotWords) (l : Ledger) (w' : SlotWords) (l' : Ledger) : Prop where
  stage : l'.stage = l.stage
  ownerPid : l'.ownerPid = l.ownerPid
  hand : l'.hand = l.hand
  taken : l'.taken = l.taken
  released : l'.released = l.released
  doneRing : w'.doneRing = w.doneRing
  overflow : w'.overflow = w.overflow
  tail : w.dataTail ≤ w'.dataTail
  pushed : l.pushed <+: l'.pushed
  unused : ¬ l.stage.Held → w' = w ∧ l' = l

theorem Keeps.refl (w : SlotWords) (l : Ledger) : Keeps w l w l :=
  ⟨rfl, rfl, rfl, rfl, rfl, rfl, rfl, Nat.le_refl _, List.prefix_rfl, fun _ => ⟨rfl, rfl⟩⟩

theorem Keeps.trans {w₁ w₂ w₃ : SlotWords} {l₁ l₂ l₃ : Ledger} (h : Keeps w₁ l₁ w₂ l₂)
    (h' : Keeps w₂ l₂ w₃ l₃) : Keeps w₁ l₁ w₃ l₃ := by
  refine ⟨h'.stage.trans h.stage, h'.ownerPid.trans h.ownerPid, h'.hand.trans h.hand,
    h'.taken.trans h.taken, h'.released.trans h.released, h'.doneRing.trans h.doneRing,
    h'.overflow.trans h.overflow, Nat.le_trans h.tail h'.tail, h.pushed.trans h'.pushed, ?_⟩
  intro hh
  obtain ⟨hw, hl⟩ := h.unused hh
  obtain ⟨hw', hl'⟩ := h'.unused (by rw [h.stage]; exact hh)
  exact ⟨hw'.trans hw, hl'.trans hl⟩

/-- A step of the publisher. -/
structure PubMove (c d : Core) : Prop where
  hdr : d.hdr = c.hdr
  subs : d.subs = c.subs
  alive : d.alive = c.alive
  slot : ∀ s, Gone c s ∨ Keeps (c.slot s) (c.led s) (d.slot s) (d.led s)
  claimed : ∀ s i, (d.led s).stage = .claimed i → (c.led s).stage = .claimed i

/-- What subscriber `i` sees of the others while it is alive. -/
structure SubView (i : ℕ) (c d : Core) : Prop where
  hdr : d.hdr = c.hdr
  pid : (d.subs i).pid = (c.subs i).pid
  alive : ∀ p, d.alive p = true → c.alive p = true
  subs : d.alive (c.subs i).pid = true → d.subs i = c.subs i
  slot : d.alive (c.subs i).pid = true → ∀ s,
    (c.led s).stage = .claimed i ∨ (c.led s).stage = .active i →
      Keeps (c.slot s) (c.led s) (d.slot s) (d.led s)

theorem SubView.refl (i : ℕ) (c : Core) : SubView i c c :=
  ⟨rfl, rfl, fun _ h => h, fun _ => rfl, fun _ _ _ => Keeps.refl _ _⟩

theorem SubView.trans {i : ℕ} {c d e : Core} (h : SubView i c d) (h' : SubView i d e) :
    SubView i c e := by
  refine ⟨h'.hdr.trans h.hdr, h'.pid.trans h.pid, fun p hp => h.alive p (h'.alive p hp), ?_, ?_⟩
  · intro ha
    have hs := h.subs (h'.alive _ ha)
    exact (h'.subs (by rw [hs]; exact ha)).trans hs
  · intro ha s hst
    have hs := h.subs (h'.alive _ ha)
    have hk := h.slot (h'.alive _ ha) s hst
    exact hk.trans (h'.slot (by rw [hs]; exact ha) s (by rw [hk.stage]; exact hst))

/-! ## What the subscribers may do -/

/-- What the publisher sees of the subscribers in one slot. -/
structure SlotMove (w : SlotWords) (l : Ledger) (w' : SlotWords) (l' : Ledger) : Prop where
  dataHead : w'.dataHead = w.dataHead
  doneTail : w'.doneTail = w.doneTail
  dataRing : w'.dataRing = w.dataRing
  pushed : l'.pushed = l.pushed
  evicted : l'.evicted = l.evicted
  refused : l'.refused = l.refused
  doneRead : l'.doneRead = l.doneRead
  onboardSeq : l'.onboardSeq = l.onboardSeq
  seen : l'.seen = l.seen
  tail : w.dataTail ≤ w'.dataTail
  released : l.released.length ≤ l'.released.length
  moved : l'.hand.length + l'.released.length + w.dataTail =
    l.hand.length + l.released.length + w'.dataTail
  rank : l.stage.rank ≤ l'.stage.rank
  reset : l'.stage = .reset → l.stage = .reset
  ownerPid : l.stage ≠ .free → l'.ownerPid = l.ownerPid
  overflow : l.stage.Held → w'.overflow = w.overflow

theorem SlotMove.refl (w : SlotWords) (l : Ledger) : SlotMove w l w l :=
  ⟨rfl, rfl, rfl, rfl, rfl, rfl, rfl, rfl, rfl, Nat.le_refl _, Nat.le_refl _, rfl, Nat.le_refl _,
    fun h => h, fun _ => rfl, fun _ => rfl⟩

theorem SlotMove.held {w w' : SlotWords} {l l' : Ledger} (h : SlotMove w l w' l')
    (hh : l.stage.Held) : l'.stage.Held := by
  rw [Stage.held_iff] at hh ⊢
  exact ⟨Nat.le_trans hh.1 h.rank, fun hr => hh.2 (h.reset hr)⟩

theorem SlotMove.ne_free {w w' : SlotWords} {l l' : Ledger} (h : SlotMove w l w' l')
    (hf : l.stage ≠ .free) : l'.stage ≠ .free := by
  have hr := h.rank
  rw [Ne, ← Stage.rank_eq_zero] at hf ⊢
  omega

theorem SlotMove.trans {w₁ w₂ w₃ : SlotWords} {l₁ l₂ l₃ : Ledger} (h : SlotMove w₁ l₁ w₂ l₂)
    (h' : SlotMove w₂ l₂ w₃ l₃) : SlotMove w₁ l₁ w₃ l₃ where
  dataHead := h'.dataHead.trans h.dataHead
  doneTail := h'.doneTail.trans h.doneTail
  dataRing := h'.dataRing.trans h.dataRing
  pushed := h'.pushed.trans h.pushed
  evicted := h'.evicted.trans h.evicted
  refused := h'.refused.trans h.refused
  doneRead := h'.doneRead.trans h.doneRead
  onboardSeq := h'.onboardSeq.trans h.onboardSeq
  seen := h'.seen.trans h.seen
  tail := Nat.le_trans h.tail h'.tail
  released := Nat.le_trans h.released h'.released
  moved := by
    have h1 := h.moved
    have h2 := h'.moved
    omega
  rank := Nat.le_trans h.rank h'.rank
  reset := fun hr => h.reset (h'.reset hr)
  ownerPid := fun hf => (h'.ownerPid (h.ne_free hf)).trans (h.ownerPid hf)
  overflow := fun hh => (h'.overflow (h.held hh)).trans (h.overflow hh)

/-- What the publisher sees of the subscribers. -/
structure SubsMove (c d : Core) : Prop where
  hdr : d.hdr = c.hdr
  book : d.book = c.book
  calls : d.calls = c.calls
  chunkSeq : d.chunkSeq = c.chunkSeq
  stats : d.stats = c.stats
  alive : ∀ p, d.alive p = true → c.alive p = true
  slot : ∀ s, SlotMove (c.slot s) (c.led s) (d.slot s) (d.led s)
  gone : ∀ s, Gone c s → d.slot s = c.slot s ∧ d.led s = c.led s

theorem SubsMove.refl (c : Core) : SubsMove c c :=
  ⟨rfl, rfl, rfl, rfl, rfl, fun _ h => h, fun _ => SlotMove.refl _ _, fun _ _ => ⟨rfl, rfl⟩⟩

/-- Nobody comes back. -/
theorem SubsMove.still_gone {c d : Core} (h : SubsMove c d) {s : ℕ} (hg : Gone c s) :
    Gone d s := by
  have hl := (h.gone s hg).2
  unfold Gone at *
  rw [hl]
  have hdead : ∀ p, c.alive p = false → d.alive p = false := by
    intro p hp
    by_contra hne
    rw [h.alive p (by simpa using hne)] at hp
    cases hp
  cases hst : (c.led s).stage <;> simp only [hst] at hg ⊢
  · exact hdead _ hg
  · exact hdead _ hg

theorem SubsMove.trans {c d e : Core} (h : SubsMove c d) (h' : SubsMove d e) : SubsMove c e := by
  refine ⟨h'.hdr.trans h.hdr, h'.book.trans h.book, h'.calls.trans h.calls,
    h'.chunkSeq.trans h.chunkSeq, h'.stats.trans h.stats, fun p hp => h.alive p (h'.alive p hp),
    fun s => (h.slot s).trans (h'.slot s), ?_⟩
  intro s hg
  obtain ⟨hw, hl⟩ := h.gone s hg
  obtain ⟨hw', hl'⟩ := h'.gone s (h.still_gone hg)
  exact ⟨hw'.trans hw, hl'.trans hl⟩

/-- The slots that subscriber `i` may change: its own, and a free one. -/
def Ledger.Open (l : Ledger) (i : ℕ) : Prop :=
  l.stage = .free ∨ l.stage = .claimed i ∨ l.stage = .active i

/-- A step of subscriber `i`. -/
structure SubMove (i : ℕ) (c d : Core) : Prop where
  hdr : d.hdr = c.hdr
  book : d.book = c.book
  calls : d.calls = c.calls
  chunkSeq : d.chunkSeq = c.chunkSeq
  stats : d.stats = c.stats
  alive : d.alive = c.alive
  subs : ∀ j, j ≠ i → d.subs j = c.subs j
  pid : (d.subs i).pid = (c.subs i).pid
  slot : ∀ s, (d.slot s = c.slot s ∧ d.led s = c.led s) ∨
    ((c.led s).Open i ∧ SlotMove (c.slot s) (c.led s) (d.slot s) (d.led s))

/-! ## The relations fit together -/

/-- A live subscriber sees the publisher keep its slot. -/
theorem PubMove.view {c d : Core} (m : PubMove c d) (g : Good c) (i : ℕ) : SubView i c d := by
  refine ⟨m.hdr, by rw [m.subs], fun p hp => by rwa [m.alive] at hp, fun _ => by rw [m.subs], ?_⟩
  intro ha s hst
  rw [m.alive] at ha
  exact (m.slot s).resolve_left (g.not_gone hst ha)

/-- So does it see the other subscribers. -/
theorem SubMove.view {i j : ℕ} {c d : Core} (m : SubMove i c d) (hne : j ≠ i) :
    SubView j c d := by
  refine ⟨m.hdr, by rw [m.subs j hne], fun p hp => by rwa [m.alive] at hp,
    fun _ => m.subs j hne, ?_⟩
  intro _ s hst
  rcases m.slot s with ⟨hw, hl⟩ | ⟨hopen, -⟩
  · rw [hw, hl]
    exact Keeps.refl _ _
  · exfalso
    rcases hst with hst | hst <;> rcases hopen with ho | ho | ho <;> rw [hst] at ho <;>
      simp only [reduceCtorEq, Stage.claimed.injEq, Stage.active.injEq] at ho
    · exact hne ho
    · exact hne ho

/-- The publisher sees a live subscriber move. -/
theorem SubMove.move {i : ℕ} {c d : Core} (m : SubMove i c d) (g : Good c)
    (ha : c.alive (c.subs i).pid = true) : SubsMove c d := by
  refine ⟨m.hdr, m.book, m.calls, m.chunkSeq, m.stats, fun p hp => by rwa [m.alive] at hp, ?_, ?_⟩
  · intro s
    rcases m.slot s with ⟨hw, hl⟩ | ⟨-, hm⟩
    · rw [hw, hl]
      exact SlotMove.refl _ _
    · exact hm
  · intro s hg
    rcases m.slot s with hsame | ⟨hopen, -⟩
    · exact hsame
    · exfalso
      rcases hopen with ho | ho
      · unfold Gone at hg
        simp only [ho] at hg
      · exact g.not_gone ho ha hg

end Devbus
