/-
# Loans and deliveries

`loan`, `release_loan` and `send` keep to the publisher's protocol.

`deliver` counts a sample once: as delivered, as rejected or as a timeout (`SendReport.accounted`).
It refuses a sample only after it has seen the ring full, and evicts only from a full ring.
Between the step that changes a ring and the step that counts it, the slot is steady but for
that count: what holds is that the state *after* the count is steady.

When `loan` is done with draining, every slot is within its share of the budget, so a chunk
is free whenever the loan limit allows one more.
-/
import DevicePlatform.Devbus.Footprint
import DevicePlatform.Devbus.Scan

namespace Devbus

open Prog

variable {calm total : Prop} {b d : Bus} {s : ℕ} {k : Pin} {owed : ℕ → ℕ} {p : Overflow}

/-! ## Counters and futex words -/

/-- Words that the protocol is not about. -/
theorem Steady.setFutex (t : Steady k owed b) (s : ℕ) (f : FutexWords → FutexWords) :
    Steady k owed (b.setFutex s f) :=
  ⟨t.good, t.pin, fun s' => (t.tally s').of_same rfl rfl rfl rfl, t.settled⟩

theorem PubRely.setStats (h : PubRely b d) (s : ℕ) (f : SlotStats → SlotStats) :
    PubRely (b.setStats s f) (d.setStats s f) := by
  have m := h.move
  refine ⟨⟨m.hdr, m.book, m.calls, m.chunkSeq, ?_, m.alive, m.slot, m.gone⟩⟩
  show Function.update d.stats s _ = Function.update b.stats s _
  rw [h.stats]

/-- The time spent blocked is not part of the tally. -/
theorem Steady.setBlocked (t : Steady k owed b) (hact : k.active s = true) (f : SlotStats → ℕ) :
    PubStep b.toCore (b.setStats s fun c => { c with blockedNs := f c }).toCore ∧
      Steady k owed (b.setStats s fun c => { c with blockedNs := f c }) := by
  have step := t.good.setStats (.inl (t.held hact))
    { b.stats s with blockedNs := f (b.stats s) }
  refine ⟨step, step.good, t.pin, fun s' => ?_, t.settled⟩
  by_cases hs : s' = s
  · subst hs
    have hstats : (b.setStats s' fun c => { c with blockedNs := f c }).stats s' =
        { b.stats s' with blockedNs := f (b.stats s') } := Function.update_self ..
    have ts := t.tally s'
    exact ⟨ts.clean, by rw [hstats]; exact ts.delivered, by rw [hstats]; exact ts.droppedOldest,
      by rw [hstats]; exact ts.droppedNewest, by rw [hstats]; exact ts.blockTimeouts, ts.fresh,
      ts.covered⟩
  · exact (t.tally s').of_same rfl (Function.update_of_ne hs ..) rfl rfl

/-- The sample that was owed is pushed or refused. -/
theorem Ledger.Covers.settle {l l' : Ledger} {n : ℕ} (h : l.Covers 1 n)
    (hon : l'.onboardSeq = l.onboardSeq)
    (hperm : (l'.pushed.map Entry.seq ++ l'.refused.map Prod.fst).Perm
      ((l.pushed.map Entry.seq ++ l.refused.map Prod.fst) ++ [n - 1])) : l'.Covers 0 n := by
  obtain ⟨hle, hp⟩ := h
  unfold Ledger.Covers
  rw [hon]
  refine ⟨by omega, hperm.trans ?_⟩
  have hlast : l.onboardSeq + 1 * (n - 1 - l.onboardSeq) = n - 1 := by omega
  rw [show n - 0 - l.onboardSeq = n - 1 - l.onboardSeq + 1 by omega, List.range'_concat, hlast]
  exact hp.append_right _

/-- The samples of a report that are accounted for. -/
def SendReport.accounted (r : SendReport) : ℕ := r.delivered + r.rejected + r.blockTimeouts

/-! ## `deliver`: room or refusal -/

/-- What `send` has set up before it calls `deliver` for slot `s`. -/
structure Delivery (k : Pin) (owed : ℕ → ℕ) (s chunk : ℕ) : Prop where
  active : k.active s = true
  sending : k.calls.sending = some chunk
  unsent : s ∉ k.calls.sentTo
  owes : owed s = 1
  pos : 0 < k.chunkSeq chunk
  seq : k.chunkSeq chunk + 1 = k.calls.nextSeq

/-- `deliver` has loaded `head`, the index of the next entry of slot `s`, and its policy `p`. -/
structure Delivering (k : Pin) (owed : ℕ → ℕ) (p : Overflow) (s head : ℕ) (b : Bus) : Prop where
  steady : Steady k owed b
  active : k.active s = true
  head : (b.led s).pushed.length = head
  policy : (b.slot s).overflow = p

/-- It has found the ring full. -/
structure Full (k : Pin) (owed : ℕ → ℕ) (p : Overflow) (s head : ℕ) (b : Bus) : Prop where
  toDelivering : Delivering k owed p s head b
  seen : (b.led s).seen = k.hdr.queueCapacity
  cap_le : k.hdr.queueCapacity ≤ head

/-- It has found room. -/
structure Roomy (k : Pin) (owed : ℕ → ℕ) (p : Overflow) (s head : ℕ) (b : Bus) : Prop where
  toDelivering : Delivering k owed p s head b
  room : head - (b.slot s).dataTail < k.hdr.queueCapacity

section Stable

variable {head : ℕ}

theorem PubRely.overflow (h : PubRely b d) (hh : (b.led s).stage.Held) :
    (d.slot s).overflow = (b.slot s).overflow :=
  (h.move.slot s).overflow hh

theorem Delivering.rely (t : Delivering k owed p s head b) (h : PubRely b d) (g : Good d.toCore) :
    Delivering k owed p s head d :=
  ⟨t.steady.rely h g, t.active, by rw [(h.move.slot s).pushed]; exact t.head,
    (h.overflow (t.steady.held t.active)).trans t.policy⟩

theorem Delivering.setFutex (t : Delivering k owed p s head b) (s' : ℕ)
    (f : FutexWords → FutexWords) : Delivering k owed p s head (b.setFutex s' f) :=
  ⟨t.steady.setFutex s' f, t.active, t.head, t.policy⟩

theorem Full.rely (t : Full k owed p s head b) (h : PubRely b d) (g : Good d.toCore) :
    Full k owed p s head d :=
  ⟨t.toDelivering.rely h g, by rw [(h.move.slot s).seen]; exact t.seen, t.cap_le⟩

theorem Full.setFutex (t : Full k owed p s head b) (s' : ℕ) (f : FutexWords → FutexWords) :
    Full k owed p s head (b.setFutex s' f) :=
  ⟨t.toDelivering.setFutex s' f, t.seen, t.cap_le⟩

theorem Roomy.rely (t : Roomy k owed p s head b) (h : PubRely b d) (g : Good d.toCore) :
    Roomy k owed p s head d := by
  refine ⟨t.toDelivering.rely h g, ?_⟩
  have h1 := t.room
  have h2 := (h.move.slot s).tail
  omega

end Stable

/-- How the loop of `deliver` ends. -/
def Admitted (k : Pin) (owed : ℕ → ℕ) (p : Overflow) (s head n : ℕ) :
    Publisher.Admission → Bus → Prop
  | .room _ report, b => Roomy k owed p s head b ∧ report.accounted = n
  | .refused report, b => Steady k (Function.update owed s 0) b ∧ report.accounted = n + 1

/-- How a round of the loop ends. -/
def Round (k : Pin) (owed : ℕ → ℕ) (p : Overflow) (s head n : ℕ) :
    (ℕ × SendReport) ⊕ Publisher.Admission → Bus → Prop
  | .inl x, b => Delivering k owed p s head b ∧ x.2.accounted = n
  | .inr adm, b => Admitted k owed p s head n adm b

/-- A full ring holds an entry older than the sample that is refused. -/
theorem Full.preceded {head chunk : ℕ} (t : Full k owed p s head b) (q : Delivery k owed s chunk)
    (r : Refusal) : ∀ x ∈ (b.led s).refused ++ [(b.calls.nextSeq - 1, r)],
      ∃ e ∈ (b.led s).pushed, e.seq < x.1 := by
  have g := t.toDelivering.steady.good
  have hcalls : b.calls = k.calls := congrArg Pin.calls t.toDelivering.steady.pin
  intro x hx
  rcases List.mem_append.mp hx with hold | hnew
  · exact ((g.slot s).ledger (t.toDelivering.steady.tally s).clean).preceded x hold
  · have hpos : 0 < (b.led s).pushed.length := by
      obtain ⟨j, hj⟩ := g.exact.queue_pow
      have hcap := t.cap_le
      rw [← show b.hdr = k.hdr from congrArg Pin.hdr t.toDelivering.steady.pin, hj] at hcap
      rw [t.toDelivering.head]
      exact Nat.lt_of_lt_of_le (Nat.two_pow_pos j) hcap
    refine ⟨(b.led s).pushed[0], List.getElem_mem hpos, ?_⟩
    have := (g.seqs s _ (List.getElem_mem hpos)).2 (by rw [hcalls, q.sending]; rfl)
      (by rw [hcalls]; exact q.unsent)
    rw [List.mem_singleton.mp hnew]
    dsimp only
    omega

/-- The sample is refused, and the refusal is counted. -/
theorem Full.refuse {head chunk : ℕ} (t : Full k owed p s head b) (q : Delivery k owed s chunk)
    (r : Refusal) {f : SlotStats → SlotStats} (hdel : ∀ n, (f n).delivered = n.delivered)
    (hold : ∀ n, (f n).droppedOldest = n.droppedOldest)
    (hnew : ∀ n, (f n).droppedNewest = n.droppedNewest + if r = .droppedNewest then 1 else 0)
    (htime : ∀ n, (f n).blockTimeouts = n.blockTimeouts + if r = .blockTimeout then 1 else 0) :
    let b' := (b.setStats s f).setLed s fun l => { l with
      refused := l.refused ++ [(b.calls.nextSeq - 1, r)]
      fullAt := l.fullAt ++ [l.seen] }
    PubStep b.toCore b'.toCore ∧ Steady k (Function.update owed s 0) b' := by
  have ts := t.toDelivering.steady.tally s
  have hheld := t.toDelivering.steady.held q.active
  have hhdr : b.hdr = k.hdr := congrArg Pin.hdr t.toDelivering.steady.pin
  intro b'
  have step : PubStep b.toCore b'.toCore := by
    have hfull : ∀ y ∈ [(b.led s).seen], y = b.hdr.queueCapacity := by
      intro y hy
      rw [List.mem_singleton.mp hy, t.seen, hhdr]
    have g := t.toDelivering.steady.good
    have hpre := t.preceded q r
    have m := (g.record hheld hpre (b.led s).seen [(b.led s).seen] hfull List.length_append).move
    exact ⟨((g.setStats (.inl hheld) (f (b.stats s))).good.record hheld hpre _ _ hfull
      List.length_append).good,
      ⟨m.hdr, m.subs, m.alive, m.slot, m.claimed⟩⟩
  have hled : b'.led s = { b.led s with
      refused := (b.led s).refused ++ [(b.calls.nextSeq - 1, r)]
      fullAt := (b.led s).fullAt ++ [(b.led s).seen] } := Function.update_self ..
  have hstats : b'.stats s = f (b.stats s) := Function.update_self ..
  have htouch : Touches s b b' :=
    ⟨rfl, rfl, fun _ _ => rfl, fun _ hs => Function.update_of_ne hs ..,
      fun _ hs => Function.update_of_ne hs .., fun _ _ => rfl⟩
  refine ⟨step, step.good, t.toDelivering.steady.pin, htouch.tally ?_ ?_, ?_⟩
  · intro s' hs
    rw [Function.update_of_ne hs]
    exact t.toDelivering.steady.tally s'
  · rw [Function.update_self]
    have hactive : b.book.active s = true := by
      rw [show b.book.active = k.active from congrArg Pin.active t.toDelivering.steady.pin]
      exact q.active
    refine ⟨by rw [hled]; exact ts.clean, by rw [hled, hstats, hdel]; exact ts.delivered,
      by rw [hled, hstats, hold]; exact ts.droppedOldest, ?_, ?_, ?_, ?_⟩
    · rw [hled, hstats, hnew, ts.droppedNewest]
      simp only [Ledger.refusals, List.countP_append, List.countP_singleton, decide_eq_true_eq]
    · rw [hled, hstats, htime, ts.blockTimeouts]
      simp only [Ledger.refusals, List.countP_append, List.countP_singleton, decide_eq_true_eq]
    · intro ha
      exact absurd (hactive.symm.trans ha) Bool.true_eq_false.mp
    · intro _
      have hcov := ts.covered hactive
      rw [q.owes] at hcov
      rw [hled]
      refine hcov.settle rfl ?_
      simp only [List.map_append, List.map_cons, List.map_nil, List.append_assoc]
      exact List.Perm.refl _
  · intro s'
    by_cases hs : s' = s
    · subst hs
      have := t.toDelivering.steady.settled s'
      unfold Bus.Settled at *
      rw [hled]
      exact this
    · exact htouch.settled hs (t.toDelivering.steady.settled s')

/-! ### A blocked round -/

/-- Loads of the publisher keep what is stable. -/
theorem blockedTooLong_spec {head waited : ℕ} (t : Full k owed p s head b) :
    (Publisher.blockedTooLong s waited).wp (pub calm total)
      (fun _ b' => Full k owed p s head b') b := by
  unfold Publisher.blockedTooLong
  refine pub_read fun b₁ h₁ g₁ => ?_
  have t₁ := t.rely h₁ g₁
  split
  · exact t₁
  · exact pub_read fun b₂ h₂ g₂ => t₁.rely h₂ g₂

theorem roomOrGone_spec {head cap : ℕ} (t : Full k owed p s head b) :
    (Publisher.roomOrGone s head cap).wp (pub calm total)
      (fun _ b' => Full k owed p s head b') b := by
  unfold Publisher.roomOrGone
  refine pub_read fun b₁ h₁ g₁ => ?_
  have t₁ := t.rely h₁ g₁
  split
  · exact t₁
  · exact pub_read fun b₂ h₂ g₂ => t₁.rely h₂ g₂

theorem futexWaitSpace_spec {head word : ℕ} (ht : ¬ total) (t : Full k owed p s head b) :
    (Publisher.futexWaitSpace s word).wp (pub calm total)
      (fun _ b' => Full k owed p s head b') b := by
  unfold Publisher.futexWaitSpace
  refine pub_write fun b₁ h₁ g₁ => ?_
  refine ⟨PubStep.refl g₁, ?_⟩
  have t₁ := (t.rely h₁ g₁).setFutex s fun f =>
    if f.spaceFutex % 2 ^ 32 = word % 2 ^ 32 then { f with publisherQueued := true } else f
  exact wp_last (wp_await ht fun b₂ h₂ i₂ _ => t₁.rely h₂ i₂.1)

theorem blockRound_spec {head cap chunk n : ℕ} (ht : ¬ total) (t : Full k owed p s head b)
    (q : Delivery k owed s chunk) (blockStart : ℕ) {report : SendReport}
    (hn : report.accounted = n) :
    (Publisher.blockRound s head cap blockStart report).wp (pub calm total)
      (Round k owed p s head n) b := by
  unfold Publisher.blockRound
  refine wp_seq (R := fun _ b' => Full k owed p s head b')
    (wp_last (pub_read fun b₁ h₁ g₁ => t.rely h₁ g₁)) ?_
  intro now b₁ t₁
  dsimp only
  generalize (if blockStart = 0 then now else blockStart) = start
  refine wp_seq (blockedTooLong_spec t₁) ?_
  intro gone b₂ t₂
  split
  · -- the timeout is counted
    refine pub_write fun b₃ h₃ g₃ => ?_
    obtain ⟨step, t₃⟩ := (t₂.rely h₃ g₃).refuse q .blockTimeout
      (f := fun c => { c with blockTimeouts := c.blockTimeouts + 1 }) (fun _ => rfl)
      (fun _ => rfl) (fun _ => rfl) (fun _ => rfl)
    refine ⟨step, pub_write fun b₄ h₄ g₄ => ?_⟩
    obtain ⟨step, t₄⟩ := (t₃.rely h₄ g₄).setBlocked q.active _
    refine ⟨step, t₄, ?_⟩
    rw [← hn]
    exact (Nat.add_assoc ..).symm
  · split
    · exact ⟨t₂.toDelivering, hn⟩
    · refine pub_read fun b₃ h₃ g₃ => ?_
      refine pub_write fun b₄ h₄ g₄ => ⟨PubStep.refl g₄, ?_⟩
      have t₄ := ((t₂.rely h₃ g₃).rely h₄ g₄).setFutex s fun f => { f with publisherWaiting := 1 }
      refine wp_seq (roomOrGone_spec t₄) ?_
      intro ready b₅ t₅
      split
      · refine pub_write fun b₆ h₆ g₆ => ⟨PubStep.refl g₆, ?_⟩
        exact ⟨(t₅.rely h₆ g₆).toDelivering.setFutex s _, hn⟩
      · refine wp_seq (futexWaitSpace_spec ht t₅) ?_
        intro _ b₆ t₆
        refine pub_write fun b₇ h₇ g₇ => ⟨PubStep.refl g₇, ?_⟩
        exact ⟨(t₆.rely h₇ g₇).toDelivering.setFutex s _, hn⟩

/-! ### An evicting round -/

/-- The oldest entry is evicted; the slot is steady once the eviction is counted. -/
theorem Full.evict {head chunk : ℕ} {e : Entry} (t : Full k owed .dropOldest s head b)
    (q : Delivery k owed s chunk) (he : (b.led s).pushed[(b.slot s).dataTail]? = some e)
    (hfull : head - (b.slot s).dataTail = k.hdr.queueCapacity) :
    let b' := ((b.setBook fun book => book.releaseRef b.hdr s e.chunk).setSlot s
        fun w => { w with dataTail := (b.slot s).dataTail + 1 }).setLed s
      fun l => { l with
        evicted := l.evicted ++ [e]
        fullAt := l.fullAt ++ [(b.slot s).dataHead - (b.slot s).dataTail] }
    PubStep b.toCore b'.toCore ∧
      Delivering k owed .dropOldest s head
        (b'.setStats s fun c => { c with droppedOldest := c.droppedOldest + 1 }) := by
  have ts := t.toDelivering.steady.tally s
  have hheld := t.toDelivering.steady.held q.active
  have hhdr : b.hdr = k.hdr := congrArg Pin.hdr t.toDelivering.steady.pin
  have hcalls : b.calls = k.calls := congrArg Pin.calls t.toDelivering.steady.pin
  obtain ⟨hlt, rfl⟩ := List.getElem?_eq_some_iff.mp he
  intro b'
  have hled : b'.led s = { b.led s with
      evicted := (b.led s).evicted ++ [(b.led s).pushed[(b.slot s).dataTail]]
      fullAt := (b.led s).fullAt ++ [(b.slot s).dataHead - (b.slot s).dataTail] } :=
    Function.update_self ..
  have step : PubStep b.toCore b'.toCore :=
    t.toDelivering.steady.good.evict hheld (by rw [hcalls]; exact q.unsent)
      t.toDelivering.policy hlt
      (by rw [t.toDelivering.head, hhdr]; exact hfull)
  have hslots := Book.releaseRef_slots (h := b.hdr) (s := s)
    (c := ((b.led s).pushed[(b.slot s).dataTail]).chunk) (k := b.book)
  have hact : b'.book.active = b.book.active := congrArg Prod.fst hslots
  have hlist : b'.book.activeList = b.book.activeList := congrArg (fun t => t.2.2.1) hslots
  have hripe : b'.book.ripe = b.book.ripe := congrArg (fun t => t.2.2.2.2) hslots
  have hslot : b'.slot s = { b.slot s with dataTail := (b.slot s).dataTail + 1 } :=
    Function.update_self ..
  -- the state after the count
  have hstats : (b'.setStats s fun c => { c with droppedOldest := c.droppedOldest + 1 }).stats s =
      { b.stats s with droppedOldest := (b.stats s).droppedOldest + 1 } := Function.update_self ..
  have htouch : Touches s b
      (b'.setStats s fun c => { c with droppedOldest := c.droppedOldest + 1 }) :=
    ⟨rfl, rfl, fun _ hs => Function.update_of_ne hs .., fun _ hs => Function.update_of_ne hs ..,
      fun _ hs => Function.update_of_ne hs .., fun s' _ => congrFun hact s'⟩
  have hheld' : (b'.led s).stage.Held := by
    rw [hled]
    exact hheld
  refine ⟨step, ⟨(step.good.setStats (.inl hheld') _).good, ?_,
    htouch.tally (fun s' _ => t.toDelivering.steady.tally s') ?_, ?_⟩, q.active, ?_, ?_⟩
  · rw [← t.toDelivering.steady.pin]
    show Pin.mk _ _ _ _ _ _ = Pin.mk _ _ _ _ _ _
    congr 1
  · have hled' : (b'.setStats s fun c => { c with droppedOldest := c.droppedOldest + 1 }).led s =
        b'.led s := rfl
    refine ⟨by rw [hled', hled]; exact ts.clean, by rw [hled', hled, hstats]; exact ts.delivered,
      ?_, by rw [hled', hled, hstats]; exact ts.droppedNewest,
      by rw [hled', hled, hstats]; exact ts.blockTimeouts, ?_, ?_⟩
    · rw [hled', hled, hstats]
      show _ = ((b.led s).evicted ++ [_]).length
      rw [List.length_append, List.length_singleton]
      exact congrArg (· + 1) ts.droppedOldest
    · rw [hled', hled]
      show b'.book.active s = false → _
      rw [hact]
      exact ts.fresh
    · rw [hled', hled]
      show b'.book.active s = true → _
      rw [hact]
      exact ts.covered
  · intro s'
    by_cases hs : s' = s
    · subst hs
      have := t.toDelivering.steady.settled s'
      show (b'.slot s').doneTail = (b'.led s').doneRead
      rw [hslot, hled]
      exact this
    · exact htouch.settled hs (t.toDelivering.steady.settled s')
  · show (b'.led s).pushed.length = head
    rw [hled]
    exact t.toDelivering.head
  · show (b'.slot s).overflow = .dropOldest
    rw [hslot]
    exact t.toDelivering.policy

theorem evictRound_spec {head tail chunk n : ℕ} (t : Full k owed .dropOldest s head b)
    (q : Delivery k owed s chunk) (htail : tail ≤ (b.slot s).dataTail)
    (hfull : head - tail = k.hdr.queueCapacity) (blockStart : ℕ) {report : SendReport}
    (hn : report.accounted = n) :
    (Publisher.evictRound s tail k.hdr.queueCapacity blockStart report).wp (pub calm total)
      (Round k owed .dropOldest s head n) b := by
  unfold Publisher.evictRound
  refine pub_read fun b₁ h₁ g₁ => ?_
  have t₁ := t.rely h₁ g₁
  have hhdr : b₁.hdr = k.hdr := congrArg Pin.hdr t₁.toDelivering.steady.pin
  have m := (g₁.slot s).ledger (t₁.toDelivering.steady.tally s).clean
  have hcap : 0 < k.hdr.queueCapacity := by
    obtain ⟨j, hj⟩ := g₁.exact.queue_pow
    rw [← hhdr, hj]
    exact Nat.two_pow_pos j
  have hlt : tail < (b₁.led s).pushed.length := by
    rw [t₁.toDelivering.head]
    omega
  refine pub_update fun b₂ h₂ g₂ _ => ?_
  have t₂ := t₁.rely h₂ g₂
  by_cases hcas : (b₂.slot s).dataTail = tail
  · -- the tail has not moved since it was loaded, so the victim is the oldest entry
    have h1 := (h₁.move.slot s).tail
    have h2 := (h₂.move.slot s).tail
    have hvictim : (b₁.slot s).dataRing (tail &&& (k.hdr.queueCapacity - 1)) =
        ((b₁.led s).pushed[tail]).chunk := by
      rw [← hhdr, land_mask g₁.exact.queue_pow,
        m.ring tail (by rw [List.length_map]; exact hlt) (by omega), List.getElem_map]
    have he : (b₂.led s).pushed[tail]? = some (b₁.led s).pushed[tail] := by
      rw [(h₂.move.slot s).pushed]
      exact List.getElem?_eq_getElem hlt
    rw [hvictim, if_pos hcas, Bus.setLed_congr (s := s) (g := fun l => { l with
      evicted := l.evicted ++ [(b₁.led s).pushed[tail]]
      fullAt := l.fullAt ++ [(b₂.slot s).dataHead - (b₂.slot s).dataTail] }) (by
        show Ledger.mk _ _ _ ((b₂.led s).evicted ++ ((b₂.led s).pushed[tail]?).toList) _ _ _ _ _ _
          _ _ = _
        rw [he]
        rfl)]
    subst hcas
    obtain ⟨step, t₃⟩ := t₂.evict q he hfull
    refine ⟨step, ?_⟩
    dsimp only
    rw [if_pos rfl]
    refine pub_write fun b₄ h₄ g₄ => ?_
    have step := g₄.setStats (.inl ((h₄.move.slot s).held (t₃.steady.held q.active)))
      { b₄.stats s with droppedOldest := (b₄.stats s).droppedOldest + 1 }
    exact ⟨step, t₃.rely (h₄.setStats s _) step.good, hn⟩
  · rw [if_neg hcas]
    refine ⟨PubStep.refl g₂, ?_⟩
    dsimp only
    rw [if_neg Bool.false_ne_true]
    exact ⟨t₂.toDelivering, hn⟩

/-! ### The loop -/

/-- `deliver` loads `data_tail`. -/
theorem Delivering.look {head chunk : ℕ} (t : Delivering k owed p s head b)
    (q : Delivery k owed s chunk) :
    let b' := b.setLed s fun l =>
      { l with seen := (b.slot s).dataHead - (b.slot s).dataTail }
    PubStep b.toCore b'.toCore ∧ Delivering k owed p s head b' ∧
      (b'.led s).seen = head - (b.slot s).dataTail := by
  have ts := t.steady.tally s
  have hheld := t.steady.held q.active
  have m := (t.steady.good.slot s).ledger ts.clean
  intro b'
  have hled : b'.led s =
      { b.led s with seen := (b.slot s).dataHead - (b.slot s).dataTail } := Function.update_self ..
  have step : PubStep b.toCore b'.toCore := by
    have h := t.steady.good.record hheld m.preceded
      ((b.slot s).dataHead - (b.slot s).dataTail) [] (fun y hy => absurd hy List.not_mem_nil) rfl
    rw [List.append_nil] at h
    exact h
  have htouch : Touches s b b' :=
    ⟨rfl, rfl, fun _ _ => rfl, fun _ hs => Function.update_of_ne hs .., fun _ _ => rfl,
      fun _ _ => rfl⟩
  refine ⟨step, ⟨⟨step.good, t.steady.pin, htouch.tally (fun s' _ => t.steady.tally s') ?_, ?_⟩,
    t.active, ?_, t.policy⟩, ?_⟩
  · refine ⟨by rw [hled]; exact ts.clean, by rw [hled]; exact ts.delivered,
      by rw [hled]; exact ts.droppedOldest, by rw [hled]; exact ts.droppedNewest,
      by rw [hled]; exact ts.blockTimeouts, by rw [hled]; exact ts.fresh, ?_⟩
    rw [hled]
    exact ts.covered
  · intro s'
    by_cases hs : s' = s
    · subst hs
      have := t.steady.settled s'
      unfold Bus.Settled at *
      rw [hled]
      exact this
    · exact htouch.settled hs (t.steady.settled s')
  · rw [hled]
    exact t.head
  · rw [hled]
    show (b.slot s).dataHead - (b.slot s).dataTail = _
    rw [m.head, t.head]

theorem admitRound_spec {head chunk n : ℕ} (ht : ¬ total) (t : Delivering k owed p s head b)
    (q : Delivery k owed s chunk) (blockStart : ℕ) {report : SendReport}
    (hn : report.accounted = n) :
    (Publisher.admitRound s head k.hdr.queueCapacity p blockStart report).wp (pub calm total)
      (Round k owed p s head n) b := by
  unfold Publisher.admitRound
  refine pub_update fun b₁ h₁ g₁ _ => ?_
  have t₁ := t.rely h₁ g₁
  have hhdr : b₁.hdr = k.hdr := congrArg Pin.hdr t₁.steady.pin
  have m := (g₁.slot s).ledger (t₁.steady.tally s).clean
  have hqueue := m.queue_le
  have htail := m.tail_le
  have hlt := g₁.exact.queue_lt
  rw [t₁.head] at hqueue htail
  rw [hhdr] at hqueue hlt
  have hsub : u64Sub head (b₁.slot s).dataTail = head - (b₁.slot s).dataTail :=
    u64Sub_eq htail (by omega)
  obtain ⟨step, t₂, hseen⟩ := t₁.look q
  refine ⟨step, ?_⟩
  dsimp only
  rw [hsub]
  split
  · next hroom => exact ⟨⟨t₂, hroom⟩, hn⟩
  · next hroom =>
    have hfull : head - (b₁.slot s).dataTail = k.hdr.queueCapacity := by omega
    have f₂ : Full k owed p s head _ := ⟨t₂, hseen.trans hfull, by omega⟩
    cases p with
    | dropNewest =>
        refine pub_write fun b₃ h₃ g₃ => ?_
        obtain ⟨step, t₃⟩ := (f₂.rely h₃ g₃).refuse q .droppedNewest
          (f := fun c => { c with droppedNewest := c.droppedNewest + 1 }) (fun _ => rfl)
          (fun _ => rfl) (fun _ => rfl) (fun _ => rfl)
        refine ⟨step, t₃, ?_⟩
        rw [← hn]
        show report.delivered + (report.rejected + 1) + report.blockTimeouts = _
        unfold SendReport.accounted
        omega
    | dropOldest => exact evictRound_spec f₂ q (Nat.le_refl _) hfull blockStart hn
    | block => exact blockRound_spec ht f₂ q blockStart hn
    | other v => exact ⟨t₂, hn⟩

/-! ## `deliver`: the entry is published -/

/-- The futex words of a sleeping subscriber. -/
theorem wakeData_spec (t : Steady k owed b) :
    (Publisher.wakeData s).wp (pub calm total) (fun _ b' => Steady k owed b') b := by
  unfold Publisher.wakeData
  refine pub_write fun b₁ h₁ g₁ => ⟨PubStep.refl g₁, ?_⟩
  have t₁ := (t.rely h₁ g₁).setFutex s fun f =>
    { f with futexWord := f.futexWord + 1, dataDue := .wake }
  refine pub_write fun b₂ h₂ g₂ => ⟨PubStep.refl g₂, ?_⟩
  exact (t₁.rely h₂ g₂).setFutex s _

theorem wakeSubscriber_spec (t : Steady k owed b) :
    (Publisher.wakeSubscriber s).wp (pub calm total) (fun _ b' => Steady k owed b') b := by
  unfold Publisher.wakeSubscriber
  refine pub_update fun b₁ h₁ g₁ _ => ⟨PubStep.refl g₁, ?_⟩
  have t₁ := (t.rely h₁ g₁).setFutex s fun f =>
    if f.sleeping = 0 then { f with dataDue := .nothing } else f
  dsimp only
  split
  · exact wakeData_spec t₁
  · exact t₁

theorem chargeBlocked_spec {head : ℕ} (t : Roomy k owed p s head b) (hact : k.active s = true)
    (blockStart : ℕ) :
    (Publisher.chargeBlocked s blockStart).wp (pub calm total)
      (fun _ b' => Roomy k owed p s head b') b := by
  unfold Publisher.chargeBlocked
  split
  · refine wp_seq (R := fun _ b' => Roomy k owed p s head b')
      (wp_last (pub_read fun b₁ h₁ g₁ => t.rely h₁ g₁)) ?_
    intro now b₁ t₁
    refine pub_write fun b₂ h₂ g₂ => ?_
    have t₂ := t₁.rely h₂ g₂
    obtain ⟨step, t₃⟩ := t₂.toDelivering.steady.setBlocked hact _
    exact ⟨step, ⟨⟨t₃, hact, t₂.toDelivering.head, t₂.toDelivering.policy⟩, t₂.room⟩⟩
  · exact t

/-- The slot of the next entry has been written. -/
structure Written (k : Pin) (owed : ℕ → ℕ) (p : Overflow) (s head chunk : ℕ) (b : Bus) : Prop where
  toRoomy : Roomy k owed p s head b
  ring : (b.slot s).dataRing (head % k.hdr.queueCapacity) = chunk

theorem Written.rely {head chunk : ℕ} (t : Written k owed p s head chunk b) (h : PubRely b d)
    (g : Good d.toCore) : Written k owed p s head chunk d :=
  ⟨t.toRoomy.rely h g, by rw [(h.move.slot s).dataRing]; exact t.ring⟩

theorem Roomy.writeRing {head chunk : ℕ} (t : Roomy k owed p s head b)
    (q : Delivery k owed s chunk) :
    let b' := b.setSlot s fun w => { w with
      dataRing := Function.update w.dataRing (head &&& (k.hdr.queueCapacity - 1)) chunk }
    PubStep b.toCore b'.toCore ∧ Written k owed p s head chunk b' := by
  have hsteady := t.toDelivering.steady
  have hhdr : b.hdr = k.hdr := congrArg Pin.hdr hsteady.pin
  have hmask : head &&& (k.hdr.queueCapacity - 1) = head % k.hdr.queueCapacity := by
    rw [← hhdr]
    exact land_mask hsteady.good.exact.queue_pow
  rw [hmask]
  intro b'
  have hslot : b'.slot s = { b.slot s with
      dataRing := Function.update (b.slot s).dataRing (head % k.hdr.queueCapacity) chunk } :=
    Function.update_self ..
  have step : PubStep b.toCore b'.toCore := by
    have h := hsteady.good.writeRing (hsteady.held q.active) chunk
      (by rw [t.toDelivering.head, hhdr]; exact t.room)
    have hindex : (b.led s).pushed.length % b.hdr.queueCapacity = head % k.hdr.queueCapacity := by
      rw [t.toDelivering.head, hhdr]
    rw [hindex] at h
    exact h
  refine ⟨step, ⟨⟨⟨⟨step.good, hsteady.pin, ?_, ?_⟩, q.active, t.toDelivering.head, ?_⟩, ?_⟩, ?_⟩⟩
  · intro s'
    exact (hsteady.tally s').of_same rfl rfl rfl rfl
  · intro s'
    have := hsteady.settled s'
    by_cases hs : s' = s
    · subst hs
      unfold Bus.Settled at *
      rw [hslot]
      exact this
    · unfold Bus.Settled at *
      rw [show b'.slot s' = b.slot s' from Function.update_of_ne hs ..]
      exact this
  · rw [hslot]
    exact t.toDelivering.policy
  · rw [hslot]
    exact t.room
  · rw [hslot]
    exact Function.update_self ..

/-- The entry is published; the slot is steady once the delivery is counted. -/
theorem Written.push {head chunk : ℕ} (t : Written k owed p s head chunk b)
    (q : Delivery k owed s chunk) :
    let b' := ((((b.setBook fun book => book.addRef s chunk).setSlot s
        fun w => { w with dataHead := head + 1 }).setLed s
      fun l => { l with
        pushed := l.pushed ++ [⟨b.chunkSeq chunk, b.payload chunk, chunk⟩] }).setCalls
      fun a => { a with sentTo := s :: a.sentTo }).setFutex s fun f => { f with dataDue := .bump }
    PubStep b.toCore b'.toCore ∧
      Steady { k with calls := { k.calls with sentTo := s :: k.calls.sentTo } }
        (Function.update owed s 0)
        (b'.setStats s fun c => { c with delivered := c.delivered + 1 }) := by
  have hsteady := t.toRoomy.toDelivering.steady
  have hhead := t.toRoomy.toDelivering.head
  have ts := hsteady.tally s
  have hhdr : b.hdr = k.hdr := congrArg Pin.hdr hsteady.pin
  have hcalls : b.calls = k.calls := congrArg Pin.calls hsteady.pin
  have hactive : b.book.active s = true := by
    rw [show b.book.active = k.active from congrArg Pin.active hsteady.pin]
    exact q.active
  intro b'
  have step : PubStep b.toCore b'.toCore := by
    have h := hsteady.good.push (hsteady.held q.active) (x := chunk)
      (by rw [hcalls]; exact q.sending)
      (by rw [hcalls]; exact q.unsent) hactive
      (by rw [show b.chunkSeq = k.chunkSeq from congrArg Pin.chunkSeq hsteady.pin]; exact q.pos)
      (by rw [show b.chunkSeq = k.chunkSeq from congrArg Pin.chunkSeq hsteady.pin, hcalls]
          exact q.seq)
      (by rw [hhead, hhdr]; exact t.toRoomy.room) (by rw [hhead, hhdr]; exact t.ring)
      (hsteady.settled s)
    rw [hhead] at h
    exact h
  have hled : b'.led s = { b.led s with
      pushed := (b.led s).pushed ++ [⟨b.chunkSeq chunk, b.payload chunk, chunk⟩] } :=
    Function.update_self ..
  have hslot : b'.slot s = { b.slot s with dataHead := head + 1 } := Function.update_self ..
  have hstats : (b'.setStats s fun c => { c with delivered := c.delivered + 1 }).stats s =
      { b.stats s with delivered := (b.stats s).delivered + 1 } := Function.update_self ..
  have htouch : Touches s b (b'.setStats s fun c => { c with delivered := c.delivered + 1 }) :=
    ⟨rfl, rfl, fun _ hs => Function.update_of_ne hs .., fun _ hs => Function.update_of_ne hs ..,
      fun _ hs => Function.update_of_ne hs .., fun _ _ => rfl⟩
  have hheld' : (b'.led s).stage.Held := by
    rw [hled]
    exact hsteady.held q.active
  refine ⟨step, (step.good.setStats (.inl hheld') _).good, ?_, htouch.tally ?_ ?_, ?_⟩
  · rw [← hsteady.pin]
    rfl
  · intro s' hs
    rw [Function.update_of_ne hs]
    exact hsteady.tally s'
  · rw [Function.update_self]
    have hled' : (b'.setStats s fun c => { c with delivered := c.delivered + 1 }).led s =
        b'.led s := rfl
    refine ⟨by rw [hled', hled]; exact ts.clean, ?_,
      by rw [hled', hled, hstats]; exact ts.droppedOldest,
      by rw [hled', hled, hstats]; exact ts.droppedNewest,
      by rw [hled', hled, hstats]; exact ts.blockTimeouts, ?_, ?_⟩
    · rw [hled', hled, hstats]
      show _ = ((b.led s).pushed ++ [_]).length
      rw [List.length_append, List.length_singleton]
      exact congrArg (· + 1) ts.delivered
    · intro ha
      exact absurd (hactive.symm.trans ha) Bool.true_eq_false.mp
    · intro _
      have hcov := ts.covered hactive
      have hseq : b.chunkSeq chunk = b.calls.nextSeq - 1 := by
        have := q.seq
        rw [show b.chunkSeq = k.chunkSeq from congrArg Pin.chunkSeq hsteady.pin, hcalls]
        omega
      rw [q.owes] at hcov
      rw [hled', hled]
      refine hcov.settle rfl ?_
      simp only [List.map_append, List.map_cons, List.map_nil, List.append_assoc, hseq]
      exact List.perm_append_comm.append_left _
  · intro s'
    by_cases hs : s' = s
    · subst hs
      have := hsteady.settled s'
      show (b'.slot s').doneTail = (b'.led s').doneRead
      rw [hslot, hled]
      exact this
    · exact htouch.settled hs (hsteady.settled s')

/-- **`deliver`** accounts for the sample once. -/
theorem deliver_spec {chunk : ℕ} (ht : ¬ total) (t : Steady k owed b)
    (q : Delivery k owed s chunk) (report : SendReport) :
    (Publisher.deliver chunk report s).wp (pub calm total)
      (fun r b' => ∃ sent, Steady { k with calls := { k.calls with sentTo := sent } }
        (Function.update owed s 0) b' ∧ (∀ s', s' ≠ s → s' ∈ sent → s' ∈ k.calls.sentTo) ∧
          r.accounted = report.accounted + 1) b := by
  unfold Publisher.deliver
  refine pub_read fun b₁ h₁ g₁ => ?_
  have t₁ := t.rely h₁ g₁
  have hhdr : b₁.hdr = k.hdr := congrArg Pin.hdr t₁.pin
  rw [hhdr]
  refine pub_read fun b₂ h₂ g₂ => ?_
  have t₂ := t₁.rely h₂ g₂
  have hhead := ((g₂.slot s).ledger (t₂.tally s).clean).head
  refine pub_read fun b₃ h₃ g₃ => ?_
  have d₃ : Delivering k owed (b₃.slot s).overflow s (b₂.slot s).dataHead b₃ :=
    ⟨t₂.rely h₃ g₃, q.active, by rw [(h₃.move.slot s).pushed, hhead], rfl⟩
  refine wp_loop (fun x d => Delivering k owed (b₃.slot s).overflow s (b₂.slot s).dataHead d ∧
    x.2.accounted = report.accounted) ht ?_ ⟨d₃, rfl⟩ ?_
  · rintro x d d' ⟨j, hx⟩ hr hi
    exact ⟨j.rely hr hi.1, hx⟩
  rintro x d ⟨j, hx⟩
  refine wp_mono (admitRound_spec ht j q x.1 hx) ?_
  rintro (y | adm) d' hround
  · exact hround
  cases adm with
  | refused r =>
      obtain ⟨t', hr⟩ := hround
      exact ⟨k.calls.sentTo, t', fun _ _ h => h, hr⟩
  | room blockStart r =>
      obtain ⟨t', hr⟩ := hround
      show (Publisher.enqueue s chunk _ _ blockStart r).wp (pub calm total) _ d'
      unfold Publisher.enqueue
      refine wp_seq (chargeBlocked_spec t' q.active blockStart) ?_
      intro _ b₄ t₄
      refine pub_write fun b₅ h₅ g₅ => ?_
      obtain ⟨step, w₅⟩ := (t₄.rely h₅ g₅).writeRing q
      refine ⟨step, pub_write fun b₆ h₆ g₆ => ?_⟩
      obtain ⟨step, t₆⟩ := (w₅.rely h₆ g₆).push q
      refine ⟨step, pub_write fun b₇ h₇ g₇ => ?_⟩
      have step := g₇.setStats (.inl ((h₇.move.slot s).held (t₆.held q.active)))
        { b₇.stats s with delivered := (b₇.stats s).delivered + 1 }
      refine ⟨step, ?_⟩
      refine wp_seq (wakeSubscriber_spec (t₆.rely (h₇.setStats s _) step.good)) ?_
      intro _ b₈ t₈
      refine ⟨s :: k.calls.sentTo, t₈, ?_, ?_⟩
      · intro s' hs hmem
        exact (List.mem_cons.mp hmem).resolve_left hs
      · rw [← hr]
        show r.delivered + 1 + r.rejected + r.blockTimeouts = _
        unfold SendReport.accounted
        omega

/-! ## Calls -/

/-- The publisher's members between two calls. -/
structure Pin.Idle (k : Pin) : Prop where
  listed : Listed k.active k.activeList
  ripened : k.Ripened
  sending : k.calls.sending = none
  sentTo : k.calls.sentTo = []
  nextSeq : 1 ≤ k.calls.nextSeq
  reports : ∀ r ∈ k.calls.reports, r.1.accounted = r.2
  loaned : ∀ r ∈ k.calls.loaned, r ≠ .error .outOfChunks
  overlooked : k.calls.overlooked = false

/-- The publisher between two calls. -/
structure PubIdle (b : Bus) : Prop where
  steady : Steady b.pin (fun _ => 0) b
  idle : b.pin.Idle

theorem PubIdle.rely (t : PubIdle b) (h : PubRely b d) (g : Good d.toCore) : PubIdle d := by
  constructor
  · rw [h.pin]
    exact t.steady.rely h g
  · rw [h.pin]
    exact t.idle

/-- What is steady depends on the calls only through `next_seq_`. -/
theorem Steady.repin (t : Steady k owed b) (g : Good d.toCore) (hslot : d.slot = b.slot)
    (hled : d.led = b.led) (hstats : d.stats = b.stats) (hact : d.book.active = b.book.active)
    {n : ℕ} (hnext : d.calls.nextSeq = b.calls.nextSeq + n) :
    Steady d.pin (fun s => owed s + n) d := by
  refine ⟨g, rfl, fun s => ?_, fun s => ?_⟩
  · have ts := t.tally s
    refine ⟨by rw [hled]; exact ts.clean, by rw [hled, hstats]; exact ts.delivered,
      by rw [hled, hstats]; exact ts.droppedOldest, by rw [hled, hstats]; exact ts.droppedNewest,
      by rw [hled, hstats]; exact ts.blockTimeouts, by rw [hled, hact]; exact ts.fresh, ?_⟩
    rw [hled, hact, hnext]
    intro ha
    obtain ⟨hle, hp⟩ := ts.covered ha
    refine ⟨by omega, ?_⟩
    rwa [Nat.add_sub_add_right]
  · have := t.settled s
    unfold Bus.Settled at *
    rw [hslot, hled, this]

/-- Nothing that matters has changed. -/
theorem Steady.recall (t : Steady k owed b) (g : Good d.toCore) (hslot : d.slot = b.slot)
    (hled : d.led = b.led) (hstats : d.stats = b.stats) (hact : d.book.active = b.book.active)
    (hnext : d.calls.nextSeq = b.calls.nextSeq) : Steady d.pin owed d :=
  t.repin (n := 0) g hslot hled hstats hact hnext

/-- Only onboarded slots are owed anything. -/
theorem Steady.owe (t : Steady k owed b) (owed' : ℕ → ℕ)
    (h : ∀ s, k.active s = true → owed' s = owed s) : Steady k owed' b := by
  refine ⟨t.good, t.pin, fun s => ?_, t.settled⟩
  have ts := t.tally s
  refine ⟨ts.clean, ts.delivered, ts.droppedOldest, ts.droppedNewest, ts.blockTimeouts, ts.fresh,
    ?_⟩
  intro ha
  rw [h s (by rw [← show b.book.active = k.active from congrArg Pin.active t.pin]; exact ha)]
  exact ts.covered ha

/-! ### `loan` and `release_loan` -/

/-- Nothing has been given to a slot that is not onboarded. -/
theorem Good.trim_of_inactive (g : Good b.toCore) (hact : b.book.active s = false) : Trim b s := by
  have hpushed := (g.slot s).fresh hact
  have hnone : (b.led s).hand.length + (b.led s).released.length = 0 := by
    by_cases hheld : (b.led s).stage.Held
    · have m := (g.slot s).ledger (Stage.held_iff.mp hheld).2
      have hfate := m.fate.length_eq
      rw [hpushed, List.take_nil, List.length_append, List.length_nil] at hfate
      have := m.flow
      omega
    · obtain ⟨-, -, -, hha, hre, -⟩ := (g.slot s).blank hheld
      rw [hha, hre]
      rfl
  unfold Trim
  rw [hpushed, List.length_nil]
  omega

/-- When every slot is within its share a chunk is free. -/
theorem Good.free_ne_nil (g : Good b.toCore) (hclean : ∀ s, (b.led s).stage ≠ .reset)
    (htrim : ∀ s, Trim b s) (hsend : b.calls.sending = none)
    (hlt : b.calls.loansOut < b.hdr.maxLoans) : b.book.free ≠ [] := by
  intro hfree
  have hle := g.pool.chunkCount_le hsend hfree
    (m := b.hdr.queueCapacity + b.hdr.maxBorrowed) fun s _ =>
      Nat.le_trans (((g.slot s).ledger (hclean s)).sum_out_le _) (htrim s)
  have hbudget := g.exact.budget
  rw [← g.pool.loansOut] at hle
  omega

/-- **`loan`** fails only at the loan limit. -/
theorem loan_spec (t : PubIdle b) :
    Publisher.loan.wp (pub calm total)
      (fun r b' => PubIdle b' ∧ b'.calls.loaned = b.calls.loaned ∧ r ≠ .error .outOfChunks ∧
        (b.calls.loansOut < b.hdr.maxLoans → ∃ c, r = .ok c)) b := by
  unfold Publisher.loan
  refine pub_read fun b₁ h₁ g₁ => ?_
  have t₁ := t.rely h₁ g₁
  split
  · next hlimit =>
    rw [decide_eq_true_iff, h₁.move.calls, h₁.move.hdr] at hlimit
    exact ⟨t₁, by rw [h₁.move.calls], by rintro ⟨⟩, fun h => absurd h (Nat.not_lt.mpr hlimit)⟩
  next hlimit =>
  rw [decide_eq_true_iff, not_le] at hlimit
  refine pub_read fun b₂ h₂ g₂ => ?_
  have t₂ := t₁.rely h₂ g₂
  -- every slot that has been drained is within its share
  refine wp_seq (wp_fold (fun rest _ d => Steady b₂.pin (fun _ => 0) d ∧
    ∀ s, s ∉ rest → Trim d s) ⟨t₂.steady, ?_⟩ ?_) ?_
  · intro s hs
    refine g₂.trim_of_inactive ?_
    exact Bool.eq_false_of_not_eq_true (mt (t₂.idle.listed.mem_iff s).mpr hs)
  · rintro s rest - d ⟨td, htrim⟩
    refine wp_mono (drainDone_spec (G := False) (T := fun s' => s' ∉ s :: rest) td
      (by rw [t₂.idle.sentTo]; exact List.not_mem_nil)
      (fun h => h List.mem_cons_self) ⟨False.elim, htrim⟩) ?_
    rintro - d' ⟨td', aside⟩
    refine ⟨td', fun s' hs' => aside.trim s' ?_⟩
    by_cases hs : s' = s
    · exact .inr hs
    · exact .inl fun hmem => (List.mem_cons.mp hmem).elim hs hs'
  rintro - b₃ ⟨t₃, htrim⟩
  have hlt : ∀ {d : Bus}, d.pin = b₂.pin → d.calls.loansOut < d.hdr.maxLoans := by
    intro d hpin
    rw [show d.calls = b₂.calls from congrArg Pin.calls hpin,
      show d.hdr = b₂.hdr from congrArg Pin.hdr hpin, h₂.move.calls, h₂.move.hdr]
    exact hlimit
  have hfree : ∀ {d : Bus}, PubRely b₃ d → Good d.toCore → d.book.free ≠ [] := by
    intro d h g
    have hpin : d.pin = b₂.pin := h.pin.trans t₃.pin
    refine g.free_ne_nil (fun s => ((t₃.rely h g).tally s).clean)
      (fun s => (htrim s List.not_mem_nil).rely (t₃.tally s).clean h t₃.good g) ?_ (hlt hpin)
    rw [show d.calls = b₂.calls from congrArg Pin.calls hpin]
    exact t₂.idle.sending
  refine pub_read fun b₄ h₄ g₄ => ?_
  have t₄ := t₃.rely h₄ g₄
  rw [show b₄.book.free.isEmpty = false from by simpa using hfree h₄ g₄,
    if_neg Bool.false_ne_true]
  unfold Publisher.popFree
  refine wp_last (pub_update fun b₅ h₅ g₅ _ => ?_)
  have t₅ := t₄.rely h₅ g₅
  cases hf : b₅.book.free with
  | nil => exact absurd hf (hfree ⟨h₄.move.trans h₅.move⟩ g₅)
  | cons c rest =>
      have step := g₅.pop hf (hlt t₅.pin)
      have hidle := t₂.idle
      rw [← t₅.pin] at hidle
      refine ⟨step, ⟨t₅.recall step.good rfl rfl rfl rfl rfl, ⟨hidle.listed, hidle.ripened,
        hidle.sending, hidle.sentTo, hidle.nextSeq, hidle.reports, hidle.loaned,
        hidle.overlooked⟩⟩, ?_, by rintro ⟨⟩,
        fun _ => ⟨c, rfl⟩⟩
      show b₅.calls.loaned = _
      rw [show b₅.calls = b₂.calls from congrArg Pin.calls t₅.pin, h₂.move.calls, h₁.move.calls]

/-- **`release_loan`**. -/
theorem releaseLoan_spec {c : ℕ} (t : PubIdle b) (hc : c ∈ b.calls.loans) :
    (Publisher.releaseLoan c).wp (pub calm total) (fun _ b' => PubIdle b') b := by
  unfold Publisher.releaseLoan
  refine pub_write fun b₁ h₁ g₁ => ?_
  have t₁ := t.rely h₁ g₁
  have step := g₁.releaseLoan (by rw [h₁.move.calls]; exact hc)
  have hidle := t₁.idle
  exact ⟨step, t₁.steady.recall step.good rfl rfl rfl rfl rfl, ⟨hidle.listed, hidle.ripened,
    hidle.sending, hidle.sentTo, hidle.nextSeq, hidle.reports, hidle.loaned, hidle.overlooked⟩⟩

/-! ### `send` -/

/-- The deliveries of `send`: `rest` is still to come. -/
structure Sending (k : Pin) (slots rest : List ℕ) (report : SendReport) (sent : List ℕ)
    (b : Bus) : Prop where
  steady : Steady { k with calls := { k.calls with sentTo := sent } }
    (fun s => if s ∈ rest then 1 else 0) b
  unsent : ∀ s ∈ rest, s ∉ sent
  nodup : rest.Nodup
  active : ∀ s ∈ rest, k.active s = true
  accounted : report.accounted + rest.length = slots.length

theorem Sending.rely {slots rest sent : List ℕ} {report : SendReport}
    (t : Sending k slots rest report sent b) (h : PubRely b d) (g : Good d.toCore) :
    Sending k slots rest report sent d :=
  ⟨t.steady.rely h g, t.unsent, t.nodup, t.active, t.accounted⟩

/-- The loop of `send` over `active_list_`. -/
theorem deliveries_spec {chunk : ℕ} {slots : List ℕ} {report : SendReport} {sent : List ℕ}
    (ht : ¬ total) (hsend : k.calls.sending = some chunk) (hpos : 0 < k.chunkSeq chunk)
    (hseq : k.chunkSeq chunk + 1 = k.calls.nextSeq) (t : Sending k slots slots report sent b) :
    (Prog.fold slots report (Publisher.deliver chunk)).wp (pub calm total)
      (fun r b' => ∃ sent', Sending k slots [] r sent' b') b := by
  refine wp_fold (fun rest r d => ∃ sent, Sending k slots rest r sent d) ⟨sent, t⟩ ?_
  rintro s rest r d ⟨sent, j⟩
  obtain ⟨hnot, hrest⟩ := List.nodup_cons.mp j.nodup
  have q : Delivery { k with calls := { k.calls with sentTo := sent } }
      (fun x => if x ∈ s :: rest then 1 else 0) s chunk :=
    ⟨j.active s List.mem_cons_self, hsend, j.unsent s List.mem_cons_self,
      if_pos List.mem_cons_self, hpos, hseq⟩
  refine wp_mono (deliver_spec ht j.steady q r) ?_
  rintro r' d' ⟨sent', t', hsent, hr⟩
  refine ⟨sent', t'.owe _ ?_, ?_, hrest, fun x hx => j.active x (List.mem_cons_of_mem _ hx), ?_⟩
  · intro x _
    by_cases hx : x = s
    · subst hx
      rw [Function.update_self, if_neg hnot]
    · rw [Function.update_of_ne hx]
      simp only [List.mem_cons, hx, false_or]
  · intro x hx hmem
    have hne : x ≠ s := by
      rintro rfl
      exact hnot hx
    exact j.unsent x (List.mem_cons_of_mem _ hx) (hsent x hne hmem)
  · have := j.accounted
    rw [List.length_cons] at this
    omega

/-- The deliveries are over. -/
theorem Sending.finish (chunk : ℕ) {slots : List ℕ} {report : SendReport} {sent : List ℕ}
    (t : Sending k slots [] report sent b) (hsend : k.calls.sending = some chunk)
    (hlisted : Listed k.active k.activeList) (hripe : k.Ripened) (hnext : 1 ≤ k.calls.nextSeq)
    (hreports : ∀ r ∈ k.calls.reports, r.1.accounted = r.2)
    (hloaned : ∀ r ∈ k.calls.loaned, r ≠ .error .outOfChunks)
    (hover : k.calls.overlooked = false) :
    let b' := (b.setBook fun book => book.freeIfUnused chunk).setCalls fun a =>
      { a with sending := none, sentTo := [], reports := a.reports ++ [(report, slots.length)] }
    PubStep b.toCore b'.toCore ∧ PubIdle b' := by
  have hcalls : b.calls = { k.calls with sentTo := sent } := congrArg Pin.calls t.steady.pin
  have hactive : b.book.active = k.active := congrArg Pin.active t.steady.pin
  have hlist : b.book.activeList = k.activeList := congrArg Pin.activeList t.steady.pin
  have hslots := Book.freeIfUnused_slots (c := chunk) (k := b.book)
  intro b'
  have hact' : b'.book.active = b.book.active := congrArg Prod.fst hslots
  have hlist' : b'.book.activeList = b.book.activeList := congrArg (fun t => t.2.2.1) hslots
  have hripe' : b'.book.ripe = b.book.ripe := congrArg (fun t => t.2.2.2.2) hslots
  have step : PubStep b.toCore b'.toCore :=
    t.steady.good.endSend (by rw [hcalls]; exact hsend) _
  refine ⟨step, ⟨?_, ⟨?_, ?_, rfl, rfl, ?_, ?_, ?_, ?_⟩⟩⟩
  · exact (t.steady.owe (fun _ => 0) fun s _ => (if_neg List.not_mem_nil).symm).recall
      step.good rfl rfl rfl hact' rfl
  · show Listed b'.book.active b'.book.activeList
    rw [hact', hlist', hactive, hlist]
    exact hlisted
  · show ∀ s, b'.book.ripe s = true → b'.book.active s = true
    rw [hact', hripe', hactive, show b.book.ripe = k.ripe from congrArg Pin.ripe t.steady.pin]
    exact hripe
  · show 1 ≤ b.calls.nextSeq
    rw [hcalls]
    exact hnext
  · show ∀ r ∈ b.calls.reports ++ [(report, slots.length)], r.1.accounted = r.2
    rw [hcalls]
    intro r hr
    rcases List.mem_append.mp hr with hr | hr
    · exact hreports r hr
    · rw [List.mem_singleton.mp hr]
      exact t.accounted
  · show ∀ r ∈ b.calls.loaned, _
    rw [hcalls]
    exact hloaned
  · show b.calls.overlooked = false
    rw [hcalls]
    exact hover

/-- The counts that `send` ends with. -/
theorem PubIdle.setCount (t : PubIdle b) (n : ℕ) :
    PubStep b.toCore (b.setCalls fun a => { a with sendsSinceLiveness := n }).toCore ∧
      PubIdle (b.setCalls fun a => { a with sendsSinceLiveness := n }) := by
  have step := t.steady.good.setCount n
  have i := t.idle
  exact ⟨step, t.steady.recall step.good rfl rfl rfl rfl rfl,
    ⟨i.listed, i.ripened, i.sending, i.sentTo, i.nextSeq, i.reports, i.loaned, i.overlooked⟩⟩

/-- `check_liveness` as a call. -/
theorem checkLiveness_idle (t : PubIdle b) :
    Publisher.checkLiveness.wp (pub calm total) (fun _ b' => PubIdle b') b := by
  have hfit : b.pin.Fits fun _ => 0 := by
    refine ⟨t.idle.sentTo, fun s => ?_⟩
    rw [t.idle.sending]
    rfl
  refine wp_mono (checkLiveness_spec t.steady hfit t.idle.listed t.idle.ripened) ?_
  rintro - b' ⟨act, l, ripe, t', hl, hripe⟩
  constructor
  · rw [t'.pin]
    exact t'
  · rw [t'.pin]
    exact ⟨hl, hripe, t.idle.sending, t.idle.sentTo, t.idle.nextSeq, t.idle.reports, t.idle.loaned,
      t.idle.overlooked⟩

/-- **`send`** accounts for the sample once for every onboarded slot. -/
theorem send_spec {chunk : ℕ} (ht : ¬ total) (t : PubIdle b) (hc : chunk ∈ b.calls.loans) :
    (Publisher.send chunk).wp (pub calm total) (fun _ b' => PubIdle b') b := by
  unfold Publisher.send
  refine pub_update fun b₁ h₁ g₁ _ => ?_
  have t₁ := t.rely h₁ g₁
  have i₁ := t₁.idle
  have step := g₁.beginSend (by rw [h₁.move.calls]; exact hc) i₁.sending
  refine ⟨step, ?_⟩
  have s₁ := t₁.steady.repin (n := 1) (d := b₁.setCalls fun a => { a with
    loansOut := a.loansOut - 1
    loans := a.loans.erase chunk
    sending := some chunk
    sentTo := []
    nextSeq := a.nextSeq + 1 }) step.good rfl rfl rfl rfl rfl
  -- the chunk gets its number
  refine pub_write fun b₂ h₂ g₂ => ?_
  have s₂ := s₁.rely h₂ g₂
  have step := g₂.stamp (x := chunk) (by rw [h₂.move.calls]; rfl) (by rw [h₂.move.calls]; rfl)
    b₁.calls.nextSeq
  refine ⟨step, ?_⟩
  have s₂' := s₂.recall (d := { b₂ with
    chunkSeq := Function.update b₂.chunkSeq chunk b₁.calls.nextSeq }) step.good rfl rfl rfl rfl rfl
  refine pub_write fun b₃ h₃ g₃ => ⟨PubStep.refl g₃, ?_⟩
  have s₃ := (s₂'.rely h₃ g₃).recall
    (d := { b₃ with publishNs := Function.update b₃.publishNs chunk b₃.clock }) g₃
    rfl rfl rfl rfl rfl
  -- what the publisher's members are now
  have hcalls : b₃.calls = { b₁.calls with
      loansOut := b₁.calls.loansOut - 1
      loans := b₁.calls.loans.erase chunk
      sending := some chunk
      sentTo := []
      nextSeq := b₁.calls.nextSeq + 1 } := by
    rw [h₃.move.calls]
    exact h₂.move.calls
  have hbook : b₃.book = b₁.book := h₃.move.book.trans h₂.move.book
  have hstamp : b₃.chunkSeq chunk = b₁.calls.nextSeq := by
    rw [h₃.move.chunkSeq]
    exact Function.update_self ..
  have hpos : 0 < b₃.chunkSeq chunk := by
    rw [hstamp]
    exact i₁.nextSeq
  have hseq : b₃.chunkSeq chunk + 1 = b₃.calls.nextSeq := by
    rw [hcalls, hstamp]
  have hfit : b₃.pin.Fits fun _ => 0 + 1 := by
    unfold Pin.Fits Bus.pin
    dsimp only
    rw [hcalls]
    exact ⟨rfl, fun s => by rw [if_pos Option.isSome_some]; dsimp only; omega⟩
  have hlisted : Listed b₃.book.active b₃.book.activeList := by
    rw [hbook]
    exact i₁.listed
  have hripened : b₃.pin.Ripened := by
    unfold Pin.Ripened Bus.pin
    rw [hbook]
    exact i₁.ripened
  refine wp_seq (scanSlots_spec s₃ hfit hlisted hripened) ?_
  rintro - b₄ ⟨act, l, ripe, s₄, hl, hripe⟩
  refine pub_read fun b₅ h₅ g₅ => ?_
  have s₅ := s₄.rely h₅ g₅
  rw [show b₅.book.activeList = l from congrArg Pin.activeList s₅.pin]
  have hstart : Sending { b₃.pin with active := act, activeList := l, ripe := ripe } l l
      ⟨b₁.calls.nextSeq, 0, 0, 0, 0⟩ b₃.calls.sentTo b₅ := by
    refine ⟨s₅.owe _ fun s hs => ?_, ?_, hl.nodup, fun s hs => (hl.mem_iff s).mp hs, ?_⟩
    · rw [if_pos ((hl.mem_iff s).mpr hs)]
    · intro s _
      rw [hcalls]
      exact List.not_mem_nil
    · exact Nat.zero_add _
  refine wp_seq (deliveries_spec
    (k := { b₃.pin with active := act, activeList := l, ripe := ripe }) ht
    (by show b₃.calls.sending = _; rw [hcalls]) hpos hseq hstart) ?_
  rintro report b₆ ⟨sent, j₆⟩
  refine pub_write fun b₇ h₇ g₇ => ?_
  obtain ⟨step, t₇⟩ := (j₆.rely h₇ g₇).finish chunk (by show b₃.calls.sending = _; rw [hcalls])
    hl hripe (by show 1 ≤ b₃.calls.nextSeq; rw [hcalls]; exact Nat.le_add_left _ _)
    (by show ∀ r ∈ b₃.calls.reports, _; rw [hcalls]; exact i₁.reports)
    (by show ∀ r ∈ b₃.calls.loaned, _; rw [hcalls]; exact i₁.loaned)
    (by show b₃.calls.overlooked = _; rw [hcalls]; exact i₁.overlooked)
  refine ⟨step, pub_write fun b₈ h₈ g₈ => ⟨PubStep.refl g₈, ?_⟩⟩
  have t₈ := t₇.rely h₈ g₈
  have t₈' : PubIdle { b₈ with published := b₈.published + 1 } :=
    ⟨t₈.steady.recall g₈ rfl rfl rfl rfl rfl, t₈.idle⟩
  refine pub_update fun b₉ h₉ g₉ _ => ?_
  have t₉ := t₈'.rely h₉ g₉
  have hcheck : ∀ {d : Bus} (check : Bool), PubIdle d →
      (if check = true then (do
        let _ ← Publisher.checkLiveness
        return report) else return report : Prog Bus SendReport).wp (pub calm total)
        (fun _ b' => PubIdle b') d := by
    intro d check td
    split
    · exact wp_seq (checkLiveness_idle td) fun _ _ h => h
    · exact td
  split
  · dsimp only
    split
    · exact ⟨(t₉.setCount 0).1, hcheck true (t₉.setCount 0).2⟩
    · exact ⟨(t₉.setCount _).1, hcheck false (t₉.setCount _).2⟩
  · exact ⟨PubStep.refl g₉, hcheck false t₉⟩

/-- What is not part of the core does not matter between calls. -/
theorem PubIdle.of_core (t : PubIdle b) (g : Good b.toCore) (hcore : d.toCore = b.toCore) :
    PubIdle d := by
  refine ⟨t.steady.recall (by rw [hcore]; exact g) ?_ ?_ ?_ ?_ ?_, ?_⟩
  · exact congrArg Core.slot hcore
  · exact congrArg Core.led hcore
  · exact congrArg Core.stats hcore
  · exact congrArg (fun c => c.book.active) hcore
  · exact congrArg (fun c => c.calls.nextSeq) hcore
  · have hpin : d.pin = b.pin := by
      unfold Bus.pin
      rw [hcore]
    rw [hpin]
    exact t.idle

/-- **The destructor** touches futex words and `publisher_pid`. -/
theorem shutdown_spec (ht : ¬ total) (t : PubIdle b) :
    Publisher.shutdown.wp (pub calm total) (fun _ b' => PubIdle b') b := by
  unfold Publisher.shutdown
  refine pub_write fun b₁ h₁ g₁ => ⟨PubStep.refl g₁, ?_⟩
  refine wp_of_within (R := Bus.SameCore) PubIdle ht wakeAll_core ?_ ?_
    ((t.rely h₁ g₁).of_core g₁ rfl)
  · rintro d d' td hi ⟨hcore, -⟩
    refine ⟨td.of_core hi.1 hcore, ?_, ?_⟩
    · show Good d'.toCore ∧ (calm → d'.NoClaim)
      rw [hcore]
      exact hi
    · show PubMove d.toCore d'.toCore
      rw [hcore]
      exact PubMove.of_same rfl rfl rfl rfl rfl
  · intro d d' td hr hi
    exact td.rely hr hi.1

end Devbus
