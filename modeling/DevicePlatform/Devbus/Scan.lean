/-
# Onboarding and liveness checks

`scan_slots` onboards the slots whose owner has stored `Active` and frees those whose
owner has stored `Closing`; `check_liveness` also frees those whose owner has died.  Both
leave `active_list_` as the list of the onboarded slots (`Listed`), and no slot that was
`Active` when `scan_slots` began is left out (`Pin.Ripened`).

The facts that `check_liveness` bases its verdict on were loaded one after the other, while
the owner went on.  What stays true of them is that a claimed or active slot keeps its owner
(`Seen`).
-/
import DevicePlatform.Devbus.Reclaim

namespace Devbus

open Prog

variable {calm total : Prop} {b d : Bus} {s : ℕ} {k : Pin} {owed : ℕ → ℕ}

/-- `active_list_` lists the onboarded slots. -/
structure Listed (act : ℕ → Bool) (l : List ℕ) : Prop where
  nodup : l.Nodup
  mem_iff : ∀ s, s ∈ l ↔ act s = true

/-- An onboarded slot is in use. -/
theorem Steady.held (t : Steady k owed b) (hact : k.active s = true) :
    (b.led s).stage.Held := by
  have hact' : b.book.active s = true := by
    rw [show b.book.active = k.active from congrArg Pin.active t.pin]
    exact hact
  exact ((t.good.slot s).onboarded hact' (t.tally s).clean).1

/-- It is one of the service's slots. -/
theorem Steady.active_lt (t : Steady k owed b) (hact : k.active s = true) :
    s < k.hdr.maxSubscribers := by
  have hheld := t.held hact
  by_contra hge
  rw [t.good.beyond s (by rw [show b.hdr = k.hdr from congrArg Pin.hdr t.pin]; omega)] at hheld
  exact hheld

/-! ## `rebuild_active_list` -/

/-- The slots that the passes of `rebuild_active_list` have been through: `rest` is still to
come in the pass `pass`. -/
def Passed (blk : ℕ → Bool) (pass : Bool) (rest : List ℕ) (s : ℕ) : Prop :=
  (blk s = false ∧ pass = true) ∨ (blk s = pass ∧ s ∉ rest)

/-- The loops of `rebuild_active_list`.  `blk` are the policies of the onboarded slots, which
their owners no longer change. -/
structure Listing (k : Pin) (owed : ℕ → ℕ) (blk : ℕ → Bool) (pass : Bool) (rest : List ℕ)
    (b : Bus) : Prop where
  steady : Steady { k with activeList := b.book.activeList } owed b
  flags : ∀ s, k.active s = true → decide ((b.slot s).overflow = .block) = blk s
  rest_nodup : rest.Nodup
  nodup : b.book.activeList.Nodup
  mem_iff : ∀ s, s ∈ b.book.activeList ↔ k.active s = true ∧ Passed blk pass rest s

theorem Listing.rely {blk : ℕ → Bool} {pass : Bool} {rest : List ℕ}
    (t : Listing k owed blk pass rest b) (h : PubRely b d) (g : Good d.toCore) :
    Listing k owed blk pass rest d := by
  have hlist : d.book.activeList = b.book.activeList := by rw [h.move.book]
  refine ⟨?_, ?_, t.rest_nodup, ?_, ?_⟩
  · rw [hlist]
    exact t.steady.rely h g
  · intro s hs
    rw [(h.move.slot s).overflow (t.steady.held hs)]
    exact t.flags s hs
  · rw [hlist]
    exact t.nodup
  · rw [hlist]
    exact t.mem_iff

/-- A slot is looked at. -/
theorem Listing.step {blk : ℕ → Bool} {pass block : Bool} {rest : List ℕ}
    (t : Listing k owed blk pass (s :: rest) b) (hblock : k.active s = true → block = blk s) :
    let b' := b.setBook fun book =>
      if book.active s ∧ block = pass then { book with activeList := book.activeList ++ [s] }
      else book
    PubStep b.toCore b'.toCore ∧ Listing k owed blk pass rest b' := by
  have hact : b.book.active = k.active := congrArg Pin.active t.steady.pin
  obtain ⟨hnot, hrest⟩ := List.nodup_cons.mp t.rest_nodup
  have hpass : ∀ x, Passed blk pass rest x ↔ Passed blk pass (s :: rest) x ∨
      (blk x = pass ∧ x = s) := by
    intro x
    unfold Passed
    by_cases hx : x = s
    · subst hx
      simp only [hnot, List.mem_cons, not_true_eq_false, and_false, or_false,
        not_false_eq_true, and_true]
    · simp only [List.mem_cons, hx, false_or, and_false, or_false]
  intro b'
  by_cases happ : k.active s = true ∧ block = pass
  · -- the slot is appended
    have hb' : b' = b.setBook fun book => { book with activeList := book.activeList ++ [s] } := by
      rw [← hact] at happ
      show Bus.setBook _ b = _
      unfold Bus.setBook
      dsimp only
      rw [if_pos happ]
    have hnew : s ∉ b.book.activeList := by
      rw [t.mem_iff]
      rintro ⟨-, hp | hp⟩
      · rw [← hblock happ.1, happ.2, hp.2] at hp
        exact nomatch hp.1
      · exact hp.2 List.mem_cons_self
    have step := t.steady.good.setLists (b.book.activeList ++ [s]) b.book.claimedSince
    rw [hb']
    refine ⟨step, ⟨⟨step.good, ?_, ?_, t.steady.settled⟩, t.flags, hrest, ?_, ?_⟩⟩
    · have hp := t.steady.pin
      unfold Bus.pin at hp ⊢
      simp only [Pin.mk.injEq] at hp ⊢
      exact ⟨hp.1, hp.2.1, hp.2.2.1, hp.2.2.2.1, trivial, hp.2.2.2.2.2⟩
    · intro s'
      exact (t.steady.tally s').of_same rfl rfl rfl rfl
    · show (b.book.activeList ++ [s]).Nodup
      rw [List.nodup_append]
      refine ⟨t.nodup, List.nodup_singleton s, ?_⟩
      rintro x hx y hy rfl
      rw [List.mem_singleton] at hy
      exact hnew (hy ▸ hx)
    · intro x
      show x ∈ b.book.activeList ++ [s] ↔ _
      rw [List.mem_append, List.mem_singleton, t.mem_iff, hpass]
      constructor
      · rintro (⟨ha, hp⟩ | rfl)
        · exact ⟨ha, .inl hp⟩
        · exact ⟨happ.1, .inr ⟨by rw [← hblock happ.1, happ.2], rfl⟩⟩
      · rintro ⟨ha, hp | ⟨-, hx⟩⟩
        · exact .inl ⟨ha, hp⟩
        · exact .inr hx
  · have hb' : b' = b := by
      rw [← hact] at happ
      show Bus.setBook _ b = _
      unfold Bus.setBook
      dsimp only
      rw [if_neg happ]
    rw [hb']
    refine ⟨PubStep.refl t.steady.good, ⟨t.steady, t.flags, hrest, t.nodup, ?_⟩⟩
    intro x
    rw [t.mem_iff, hpass]
    constructor
    · rintro ⟨ha, hp⟩
      exact ⟨ha, .inl hp⟩
    · rintro ⟨ha, hp | ⟨hp, rfl⟩⟩
      · exact ⟨ha, hp⟩
      · exact absurd ⟨ha, (hblock ha).trans hp⟩ happ

/-- **`rebuild_active_list`**. -/
theorem rebuildActiveList_spec (t : Steady k owed b) :
    Publisher.rebuildActiveList.wp (pub calm total)
      (fun _ b' => ∃ l, Steady { k with activeList := l } owed b' ∧ Listed k.active l) b := by
  unfold Publisher.rebuildActiveList
  refine pub_read fun b₁ h₁ g₁ => ?_
  have t₁ := t.rely h₁ g₁
  have hn : b₁.hdr.maxSubscribers = k.hdr.maxSubscribers := by
    rw [show b₁.hdr = k.hdr from congrArg Pin.hdr t₁.pin]
  rw [hn]
  refine pub_write fun b₂ h₂ g₂ => ?_
  have t₂ := t₁.rely h₂ g₂
  have step := g₂.setLists [] b₂.book.claimedSince
  refine ⟨step, ?_⟩
  have hlt : ∀ s, k.active s = true → s ∈ List.range k.hdr.maxSubscribers := by
    intro s hs
    exact List.mem_range.mpr (t.active_lt hs)
  -- one pass over the slots
  have hpass : ∀ (pass : Bool) (d : Bus) (blk : ℕ → Bool),
      Listing k owed blk pass (List.range k.hdr.maxSubscribers) d →
      (Prog.forEach (List.range k.hdr.maxSubscribers) fun s => do
        let block ← Prog.read fun b => decide ((b.slot s).overflow = .block)
        Prog.write fun b => b.setBook fun book =>
          if book.active s ∧ block = pass then { book with activeList := book.activeList ++ [s] }
          else book
        return ()).wp (pub calm total) (fun _ b' => Listing k owed blk pass [] b') d := by
    intro pass d blk j
    refine wp_fold (fun rest _ d => Listing k owed blk pass rest d) j ?_
    intro s rest _ d₁ j₁
    refine pub_read fun d₂ hr₂ gd₂ => ?_
    have j₂ := j₁.rely hr₂ gd₂
    refine pub_write fun d₃ hr₃ gd₃ => ?_
    exact (j₂.rely hr₃ gd₃).step fun hs => j₂.flags s hs
  have hstart : Listing k owed (fun s => decide ((b₂.slot s).overflow = .block)) false
      (List.range k.hdr.maxSubscribers)
      (b₂.setBook fun book => { book with activeList := [] }) := by
    refine ⟨⟨step.good, ?_, ?_, t₂.settled⟩, fun _ _ => rfl, List.nodup_range,
      List.nodup_nil, ?_⟩
    · rw [← t₂.pin]
      rfl
    · intro s
      exact (t₂.tally s).of_same rfl rfl rfl rfl
    · intro s
      show s ∈ [] ↔ _
      simp only [List.not_mem_nil, false_iff, not_and]
      rintro hs (hp | hp)
      · exact nomatch hp.2
      · exact hp.2 (hlt s hs)
  refine wp_bind (wp_mono (hpass false _ _ hstart) ?_)
  intro _ b₃ j₃
  have hnext : Listing k owed (fun s => decide ((b₂.slot s).overflow = .block)) true
      (List.range k.hdr.maxSubscribers) b₃ := by
    refine ⟨j₃.steady, j₃.flags, List.nodup_range, j₃.nodup, ?_⟩
    intro s
    rw [j₃.mem_iff]
    refine and_congr_right fun hs => ?_
    unfold Passed
    simp only [hlt s hs, not_true_eq_false, and_false, or_false, and_true, false_or,
      Bool.false_eq_true, List.not_mem_nil, not_false_eq_true]
  refine wp_bind (wp_mono (hpass true _ _ hnext) ?_)
  intro _ b₄ j₄
  refine ⟨b₄.book.activeList, j₄.steady, j₄.nodup, ?_⟩
  intro s
  rw [j₄.mem_iff]
  refine ⟨fun h => h.1, fun hs => ⟨hs, ?_⟩⟩
  by_cases hb : (b₂.slot s).overflow = .block
  · exact .inr ⟨decide_eq_true hb, List.not_mem_nil⟩
  · exact .inl ⟨decide_eq_false hb, rfl⟩

/-! ## `scan_slots` -/

/-- The number that `scan_slots` notes for a slot that it onboards fits what is owed. -/
def Pin.Fits (k : Pin) (owed : ℕ → ℕ) : Prop :=
  k.calls.sentTo = [] ∧ ∀ s, (if k.calls.sending.isSome then k.calls.nextSeq - 1
    else k.calls.nextSeq) + owed s = k.calls.nextSeq

/-- Slot `s` is beyond the stage of rank `r`, and its owner is the process `pid`. -/
structure OwnedBy (k : Pin) (owed : ℕ → ℕ) (s pid r : ℕ) (b : Bus) : Prop where
  steady : Steady k owed b
  rank : r < (b.led s).stage.rank
  pid : (b.led s).ownerPid = pid

namespace OwnedBy

variable {pid r : ℕ}

theorem ne_free (t : OwnedBy k owed s pid r b) : (b.led s).stage ≠ .free := by
  intro hf
  have := t.rank
  rw [hf] at this
  exact Nat.not_lt_zero _ this

theorem held (t : OwnedBy k owed s pid 1 b) : (b.led s).stage.Held :=
  Stage.held_iff.mpr ⟨t.rank, (t.steady.tally s).clean⟩

theorem rely (t : OwnedBy k owed s pid r b) (h : PubRely b d) (g : Good d.toCore) :
    OwnedBy k owed s pid r d :=
  ⟨t.steady.rely h g, Nat.lt_of_lt_of_le t.rank (h.move.slot s).rank,
    ((h.move.slot s).ownerPid t.ne_free).trans t.pid⟩

theorem gone (t : OwnedBy k owed s pid r b) (hdead : b.alive pid = false) : Gone b.toCore s :=
  Gone.of_dead t.ne_free (by rw [t.pid]; exact hdead)

end OwnedBy

/-- `pidfd_open` finds the owner unless it is dead. -/
theorem pidfdOpen_spec {pid r : ℕ} (t : OwnedBy k owed s pid r b) :
    (Os.pidfdOpen pid).wp (pub calm total)
      (fun r' b' => OwnedBy k owed s pid r b' ∧
        (r' = none ∧ Gone b'.toCore s ∨ r' = some pid)) b := by
  unfold Os.pidfdOpen
  refine wp_choose fun n => ?_
  refine wp_last (pub_read fun b₁ h₁ g₁ => ?_)
  have t₁ := t.rely h₁ g₁
  refine ⟨t₁, ?_⟩
  by_cases ha : b₁.alive pid = true
  · rw [if_pos ha]
    exact .inr rfl
  · rw [if_neg ha]
    split
    · exact .inl ⟨rfl, t₁.gone (by simpa using ha)⟩
    · exact .inr rfl

/-- `scan_slots` onboards the slot. -/
theorem OwnedBy.onboard {pid : ℕ} (t : OwnedBy k owed s pid 1 b) (hfit : k.Fits owed)
    (hact : k.active s = false) :
    let b' := (b.setBook fun book => { book with
        pidfds := Function.update book.pidfds s (some pid)
        active := Function.update book.active s true }).setLed s fun l =>
      { l with onboardSeq := if b.calls.sending.isSome then b.calls.nextSeq - 1
          else b.calls.nextSeq }
    PubStep b.toCore b'.toCore ∧
      Steady { k with active := Function.update k.active s true } owed b' := by
  have hact' : b.book.active s = false := by
    rw [show b.book.active = k.active from congrArg Pin.active t.steady.pin]
    exact hact
  have hcalls : b.calls = k.calls := congrArg Pin.calls t.steady.pin
  have ts := t.steady.tally s
  rw [← t.pid]
  intro b'
  have step : PubStep b.toCore b'.toCore := t.steady.good.onboard t.held hact' _
  have hled : b'.led s = { b.led s with
      onboardSeq := if b.calls.sending.isSome then b.calls.nextSeq - 1 else b.calls.nextSeq } :=
    Function.update_self ..
  have htouch : Touches s b b' :=
    ⟨rfl, rfl, fun _ _ => rfl, fun _ hs => Function.update_of_ne hs .., fun _ _ => rfl,
      fun _ hs => Function.update_of_ne hs ..⟩
  refine ⟨step, step.good, ?_, htouch.tally (fun s' _ => t.steady.tally s') ?_, ?_⟩
  · rw [← t.steady.pin]
    rfl
  · refine ⟨by rw [hled]; exact ts.clean, by rw [hled]; exact ts.delivered,
      by rw [hled]; exact ts.droppedOldest, by rw [hled]; exact ts.droppedNewest,
      by rw [hled]; exact ts.blockTimeouts, ?_, ?_⟩
    · intro ha
      exact absurd (ha.symm.trans (Function.update_self ..)) Bool.false_ne_true
    · intro _
      have hnext := hfit.2 s
      rw [← hcalls] at hnext
      rw [hled]
      unfold Ledger.Covers
      dsimp only
      rw [(t.steady.good.slot s).fresh hact', ts.fresh hact']
      refine ⟨Nat.le_of_eq hnext, ?_⟩
      have hzero : b.calls.nextSeq - owed s - (if b.calls.sending.isSome then b.calls.nextSeq - 1
          else b.calls.nextSeq) = 0 := by omega
      show List.Perm [] (List.range' _ (b.calls.nextSeq - owed s - _))
      rw [hzero]
      exact List.Perm.nil
  · intro s'
    by_cases hs : s' = s
    · subst hs
      have := t.steady.settled s'
      unfold Bus.Settled at *
      rw [hled]
      exact this
    · exact htouch.settled hs (t.steady.settled s')

/-- What a round of `scan_slots` does to the publisher's members about slot `s`. -/
structure Scanned (k : Pin) (s : ℕ) (act ripe : ℕ → Bool) : Prop where
  others : ∀ s', s' ≠ s → act s' = k.active s' ∧ ripe s' = k.ripe s'
  ripened : ripe s = true → act s = true

/-- The slot is free. -/
theorem Scanned.free : Scanned k s (Function.update k.active s false)
    (Function.update k.ripe s false) := by
  refine ⟨fun s' hs => ⟨Function.update_of_ne hs .., Function.update_of_ne hs ..⟩, ?_⟩
  rw [Function.update_self]
  exact fun h => nomatch h

/-- No slot that was `Active` when a `scan_slots` of its tenure began is left out. -/
def Pin.Ripened (k : Pin) : Prop := ∀ s, k.ripe s = true → k.active s = true

/-- One round of **`scan_slots`**. -/
theorem scanSlot_spec (t : Steady k owed b) (hfit : k.Fits owed) (changed : Bool) :
    (Publisher.scanSlot changed s).wp (pub calm total)
      (fun r b' => ∃ act ripe, Steady { k with active := act, ripe := ripe } owed b' ∧
        (r = false → changed = false ∧ act = k.active) ∧ Scanned k s act ripe) b := by
  have hsent : s ∉ k.calls.sentTo := by
    rw [hfit.1]
    exact List.not_mem_nil
  -- the slot of an owner that is gone
  have hreclaim : ∀ {d : Bus}, Steady k owed d → Gone d.toCore s →
      (Publisher.reclaimSlot s >>= fun _ => pure true).wp (pub calm total)
        (fun r b' => ∃ act ripe, Steady { k with active := act, ripe := ripe } owed b' ∧
          (r = false → changed = false ∧ act = k.active) ∧ Scanned k s act ripe) d := by
    intro d t hgone
    refine wp_seq (reclaimSlot_spec t hsent hgone) ?_
    intro _ d' t'
    exact ⟨_, _, t', (fun h => nomatch h), Scanned.free⟩
  unfold Publisher.scanSlot
  refine pub_read fun b₁ h₁ g₁ => ?_
  have t₁ := t.rely h₁ g₁
  have hword := (g₁.slot s).stage_of_word (t₁.tally s).clean
  refine pub_read fun b₂ h₂ g₂ => ?_
  have t₂ := t₁.rely h₂ g₂
  split
  · -- the owner has stored `Active`; it may have stored `Closing` since
    next hnew =>
    have hheld : (b₁.led s).stage.Held := by
      rw [hnew.1] at hword
      obtain ⟨i, hst⟩ := Stage.eq_active_of_word hword
      rw [hst]
      trivial
    have hact : k.active s = false := by
      rw [← show b₂.book.active = k.active from congrArg Pin.active t₂.pin]
      exact hnew.2
    refine pub_read fun b₃ h₃ g₃ => ?_
    have hheld₃ := (h₃.move.slot s).held ((h₂.move.slot s).held hheld)
    have o₃ : OwnedBy k owed s (b₃.slot s).pid 1 b₃ :=
      ⟨t₂.rely h₃ g₃, (Stage.held_iff.mp hheld₃).1, ((g₃.slot s).pid hheld₃).symm⟩
    refine wp_seq (pidfdOpen_spec o₃) ?_
    rintro fd b₄ ⟨o₄, ⟨rfl, hgone⟩ | rfl⟩
    · exact hreclaim o₄.steady hgone
    · refine pub_write fun b₅ h₅ g₅ => ?_
      obtain ⟨step, t₅⟩ := (o₄.rely h₅ g₅).onboard hfit hact
      exact ⟨step, _, _, t₅, (fun h => nomatch h), fun s' hs => ⟨Function.update_of_ne hs .., rfl⟩,
        fun _ => Function.update_self ..⟩
  · next hnew =>
    split
    · next hclosing =>
      refine hreclaim t₂ (h₂.move.still_gone ?_)
      rw [hclosing] at hword
      obtain ⟨i, hst⟩ := Stage.eq_closing_of_word hword
      unfold Gone
      rw [hst]
      trivial
    · next hclosing =>
      refine ⟨k.active, k.ripe, t₂, fun h => ⟨h, rfl⟩, fun _ _ => ⟨rfl, rfl⟩, ?_⟩
      -- a slot that was `Active` still is, and has been onboarded before
      intro hripe
      have hheld : (b₁.led s).stage.Held := by
        refine (g₁.ripe s ?_).resolve_right (t₁.tally s).clean
        rw [show b₁.book.ripe = k.ripe from congrArg Pin.ripe t₁.pin]
        exact hripe
      cases hst : (b₁.led s).stage with
      | free | claimed i | reset => rw [hst] at hheld; exact hheld.elim
      | closing i =>
          rw [hst] at hword
          exact absurd (Option.some.inj hword).symm hclosing
      | active i =>
          rw [hst] at hword
          rw [← show b₂.book.active = k.active from congrArg Pin.active t₂.pin]
          exact Bool.eq_true_of_not_eq_false fun h => hnew ⟨(Option.some.inj hword).symm, h⟩

/-- `scan_slots` marks the slots that are `Active`. -/
theorem Steady.mark (t : Steady k owed b) (hripe : k.Ripened) :
    let b' := (b.setBook fun k =>
        { k with ripe := fun s => k.ripe s || Publisher.activeNow b s }).setCalls fun a =>
      { a with overlooked := a.overlooked || (List.range b.hdr.maxSubscribers).any fun s =>
        b.book.ripe s && !b.book.active s }
    PubStep b.toCore b'.toCore ∧ ∃ ripe, Steady { k with ripe := ripe } owed b' ∧
      ∀ s, ripe s = true → s < k.hdr.maxSubscribers := by
  -- nothing is overlooked, so the calls stay what they are
  have hnone : ((List.range b.hdr.maxSubscribers).any fun s =>
      b.book.ripe s && !b.book.active s) = false := by
    rw [← t.pin] at hripe
    rw [List.any_eq_false]
    intro s _ h
    rw [Bool.and_eq_true, Bool.not_eq_true'] at h
    exact Bool.false_ne_true (h.2.symm.trans (hripe s h.1))
  rw [hnone, show (fun a : Calls => { a with overlooked := a.overlooked || false }) = id from
    funext fun a => by rw [Bool.or_false]; rfl]
  intro b'
  have step : PubStep b.toCore b'.toCore := by
    refine t.good.setRipe fun s hs => ?_
    refine (Bool.or_eq_true_iff.mp hs).imp_right fun hact => ?_
    unfold Publisher.activeNow at hact
    split at hact
    · next i hst =>
      rw [hst]
      trivial
    · cases hact
  refine ⟨step, fun s => b.book.ripe s || Publisher.activeNow b s, ⟨step.good, ?_, ?_, t.settled⟩,
    ?_⟩
  · rw [← t.pin]
    rfl
  · exact fun s => (t.tally s).of_same rfl rfl rfl rfl
  · intro s hs
    have hne : (b'.led s).stage ≠ .free := by
      rcases step.good.ripe s hs with hheld | hr
      · intro hf
        rw [hf] at hheld
        exact hheld
      · rw [hr]
        exact Stage.noConfusion
    by_contra hge
    refine hne (step.good.beyond s ?_)
    rw [show b'.hdr = k.hdr from congrArg Pin.hdr t.pin]
    omega

/-- **`scan_slots`**. -/
theorem scanSlots_spec (t : Steady k owed b) (hfit : k.Fits owed)
    (hlisted : Listed k.active k.activeList) (hripe : k.Ripened) :
    Publisher.scanSlots.wp (pub calm total)
      (fun _ b' => ∃ act l ripe, Steady { k with active := act, activeList := l, ripe := ripe }
        owed b' ∧ Listed act l ∧ ∀ s, ripe s = true → act s = true) b := by
  unfold Publisher.scanSlots
  refine pub_update fun b₁ h₁ g₁ _ => ?_
  have t₁ := t.rely h₁ g₁
  obtain ⟨step, ripe, tm, hlt⟩ := t₁.mark hripe
  refine ⟨step, ?_⟩
  rw [← show b₁.hdr = k.hdr from congrArg Pin.hdr t₁.pin] at hlt
  refine wp_seq (wp_fold (fun rest changed d => ∃ act ripe,
    Steady { k with active := act, ripe := ripe } owed d ∧ (changed = false → act = k.active) ∧
      ∀ s, s ∉ rest → ripe s = true → act s = true)
    ⟨k.active, ripe, tm, fun _ => rfl, fun s hs hr => absurd (List.mem_range.mpr (hlt s hr)) hs⟩
    ?_) ?_
  · rintro s rest changed d ⟨act, ripe, td, hsame, hdone⟩
    refine wp_mono (scanSlot_spec td hfit changed) ?_
    rintro r d' ⟨act', ripe', td', hr, hscan⟩
    refine ⟨act', ripe', td', fun h => ((hr h).2).trans (hsame (hr h).1), ?_⟩
    intro s' hs'
    by_cases hs : s' = s
    · rw [hs]
      exact hscan.ripened
    · rw [(hscan.others s' hs).1, (hscan.others s' hs).2]
      exact hdone s' fun h => (List.mem_cons.mp h).elim hs hs'
  · rintro changed b₂ ⟨act, ripe, t₂, hsame, hdone⟩
    have hripened : ∀ s, ripe s = true → act s = true := fun s => hdone s List.not_mem_nil
    split
    · refine wp_mono (rebuildActiveList_spec t₂) ?_
      rintro - b₃ ⟨l, t₃, hl⟩
      exact ⟨act, l, ripe, t₃, hl, hripened⟩
    · next hno =>
      have hact := hsame (by simpa using hno)
      subst hact
      exact ⟨k.active, k.activeList, ripe, t₂, hlisted, hripened⟩

/-! ## `check_liveness` -/

/-- The kernel reports only dead processes as gone. -/
theorem alive_spec {pid r : ℕ} (t : OwnedBy k owed s pid r b) :
    (do
      let n ← Prog.choose
      let alive ← Prog.read fun b => b.alive pid || n != 0
      return alive : Prog Bus Bool).wp (pub calm total)
      (fun alive b' => Steady k owed b' ∧ ((!alive) = true → Gone b'.toCore s)) b := by
  refine wp_choose fun n => ?_
  refine wp_last (pub_read fun b₁ h₁ g₁ => ?_)
  have t₁ := t.rely h₁ g₁
  refine ⟨t₁.steady, fun hdead => t₁.gone ?_⟩
  simp only [Bool.not_eq_true', Bool.or_eq_false_iff] at hdead
  exact hdead.1

/-- What the loads of a slot's state and pid still tell. -/
structure Seen (k : Pin) (owed : ℕ → ℕ) (s : ℕ) (st : SlotState) (pid : ℕ) (b : Bus) : Prop where
  steady : Steady k owed b
  used : st = .claimed ∨ st = .active → ∃ owner, owner ≠ 0 ∧ OwnedBy k owed s owner 0 b ∧
    (pid = 0 ∨ pid = owner)
  active : st = .active → pid = (b.led s).ownerPid

theorem Seen.rely {st : SlotState} {pid : ℕ} (t : Seen k owed s st pid b) (h : PubRely b d)
    (g : Good d.toCore) : Seen k owed s st pid d := by
  refine ⟨t.steady.rely h g, ?_, ?_⟩
  · intro hst
    obtain ⟨owner, hne, ho, hpid⟩ := t.used hst
    exact ⟨owner, hne, ho.rely h g, hpid⟩
  · intro hst
    obtain ⟨owner, -, ho, -⟩ := t.used (.inr hst)
    rw [t.active hst, ho.pid, (ho.rely h g).pid]

/-- The grace test gives up a slot only if its claimer is dead. -/
theorem graceTest_spec {pid : ℕ} (t : Seen k owed s .claimed pid b) (hcalm : ¬ calm) :
    (Publisher.graceTest s).wp (pub calm total)
      (fun dead b' => Steady k owed b' ∧ (dead = true → Gone b'.toCore s)) b := by
  unfold Publisher.graceTest
  refine wp_last (pub_update fun b₁ h₁ g₁ hassumed => ?_)
  have t₁ := t.rely h₁ g₁
  have step := g₁.setLists b₁.book.activeList (Function.update b₁.book.claimedSince s
    (if b₁.book.claimedSince s = 0 then b₁.clock else b₁.book.claimedSince s))
  refine ⟨step, ⟨⟨step.good, t₁.steady.pin, fun s' => (t₁.steady.tally s').of_same rfl rfl rfl rfl,
    t₁.steady.settled⟩, ?_⟩⟩
  intro hdead
  have hlive := (Bool.or_eq_false_iff.mp (hassumed.resolve_left hcalm)).2
  dsimp only at hlive hdead
  rw [hdead, Bool.true_and] at hlive
  obtain ⟨owner, -, ho, -⟩ := t₁.used (.inl rfl)
  show Gone b₁.toCore s
  unfold Gone
  cases hst : (b₁.led s).stage with
  | free => exact ho.ne_free hst
  | claimed i | active i =>
      rw [hst] at hlive
      exact hlive
  | closing i | reset => trivial

/-- **The verdict of `check_liveness`**: a slot that is found dead has lost its owner. -/
theorem slotDead_spec {st : SlotState} {pid : ℕ} (t : Seen k owed s st pid b)
    (hcalm : calm → st ≠ .claimed) :
    (Publisher.slotDead s st pid).wp (pub calm total)
      (fun dead b' => Steady k owed b' ∧ (dead = true → Gone b'.toCore s)) b := by
  unfold Publisher.slotDead
  refine pub_read fun b₁ h₁ g₁ => ?_
  have t₁ := t.rely h₁ g₁
  split
  · next hact =>
    refine pub_read fun b₂ h₂ g₂ => ?_
    have t₂ := t₁.rely h₂ g₂
    have hact₂ : b₂.book.active s = true := by
      rw [h₂.move.book]
      exact hact
    obtain ⟨hheld, hfd⟩ := (g₂.slot s).onboarded hact₂ (t₂.steady.tally s).clean
    have ho : OwnedBy k owed s (b₂.led s).ownerPid 1 b₂ :=
      ⟨t₂.steady, (Stage.held_iff.mp hheld).1, rfl⟩
    rw [hfd]
    exact wp_seq (alive_spec ho) fun alive b' h => h
  · split
    · next hgrace =>
      obtain ⟨rfl, -⟩ := hgrace
      exact graceTest_spec t₁ fun hc => hcalm hc rfl
    · next hgrace =>
      split
      · next hst =>
        obtain ⟨owner, hne, ho, hpid⟩ := t₁.used hst
        -- the pid that was loaded is the owner's
        have heq : pid = owner := by
          rcases hst with rfl | rfl
          · exact hpid.resolve_left fun h0 => hgrace ⟨rfl, h0⟩
          · rw [t₁.active rfl, ho.pid]
        subst heq
        unfold Os.processAlive
        rw [if_neg hne]
        exact wp_seq (alive_spec ho) fun alive b' h => h
      · exact ⟨t₁.steady, fun h => nomatch h⟩

/-- The loads of `check_liveness`. -/
theorem seen_of_loads {b₁ b₂ : Bus} (t₁ : Steady k owed b₁) (h₂ : PubRely b₁ b₂)
    (g₂ : Good b₂.toCore) :
    Seen k owed s (b₁.slot s).state (b₂.slot s).pid b₂ := by
  have hword := (t₁.good.slot s).stage_of_word (t₁.tally s).clean
  have t₂ := t₁.rely h₂ g₂
  refine ⟨t₂, ?_, ?_⟩
  · intro hst
    have hpos : 0 < (b₁.led s).stage.rank := by
      rcases hst with hst | hst <;> rw [hst] at hword
      · obtain ⟨i, h⟩ := Stage.eq_claimed_of_word hword
        rw [h]
        exact Nat.one_pos
      · obtain ⟨i, h⟩ := Stage.eq_active_of_word hword
        rw [h]
        exact Nat.two_pos
    have ho : OwnedBy k owed s (b₂.led s).ownerPid 0 b₂ :=
      ⟨t₂, Nat.lt_of_lt_of_le hpos (h₂.move.slot s).rank, rfl⟩
    refine ⟨_, (g₂.slot s).owned ho.ne_free (t₂.tally s).clean, ho, ?_⟩
    by_cases hheld : (b₂.led s).stage.Held
    · exact .inr ((g₂.slot s).pid hheld)
    · cases h : (b₂.led s).stage with
      | free => exact absurd h ho.ne_free
      | claimed i => exact (g₂.slot s).claimed i h
      | active i | closing i => rw [h] at hheld; exact absurd trivial hheld
      | reset => exact absurd h (t₂.tally s).clean
  · intro hst
    rw [hst] at hword
    obtain ⟨i, h⟩ := Stage.eq_active_of_word hword
    refine (g₂.slot s).pid ((h₂.move.slot s).held ?_)
    rw [h]
    trivial

/-- One round of **`check_liveness`**. -/
theorem checkSlot_spec (t : Steady k owed b) (hsent : k.calls.sentTo = []) (hripe : k.Ripened)
    (reaped : ℕ) :
    (Publisher.checkSlot reaped s).wp (pub calm total)
      (fun r b' => ∃ act ripe, Steady { k with active := act, ripe := ripe } owed b' ∧
        (r = 0 → reaped = 0 ∧ act = k.active) ∧ ∀ s, ripe s = true → act s = true) b := by
  unfold Publisher.checkSlot
  refine wp_read fun b₁ h₁ i₁ => ?_
  have t₁ := t.rely h₁ i₁.1
  have hcalm : calm → (b₁.slot s).state ≠ .claimed := by
    intro hc hst
    have hword := (i₁.1.slot s).stage_of_word (t₁.tally s).clean
    rw [hst] at hword
    obtain ⟨i, h⟩ := Stage.eq_claimed_of_word hword
    exact i₁.2 hc s i h
  refine pub_read fun b₂ h₂ g₂ => ?_
  refine wp_seq (slotDead_spec (seen_of_loads t₁ h₂ g₂) hcalm) ?_
  rintro dead b₃ ⟨t₃, hgone⟩
  refine pub_write fun b₄ h₄ g₄ => ?_
  have t₄ := t₃.rely h₄ g₄
  -- the store of `claimed_since_` touches nothing that is steady
  obtain ⟨since, hstore⟩ : ∃ since, (b₄.setBook fun book =>
      if (b₁.slot s).state ≠ .claimed ∨ (b₂.slot s).pid ≠ 0 then
        { book with claimedSince := Function.update book.claimedSince s 0 }
      else book) = b₄.setBook fun book => { book with claimedSince := since } := by
    by_cases hc : (b₁.slot s).state ≠ .claimed ∨ (b₂.slot s).pid ≠ 0
    · exact ⟨Function.update b₄.book.claimedSince s 0, by simp only [Bus.setBook, if_pos hc]⟩
    · exact ⟨b₄.book.claimedSince, by simp only [Bus.setBook, if_neg hc]⟩
  rw [hstore]
  have step := g₄.setLists b₄.book.activeList since
  have t₅ : Steady k owed (b₄.setBook fun book => { book with claimedSince := since }) :=
    ⟨step.good, t₄.pin, fun s' => (t₄.tally s').of_same rfl rfl rfl rfl, t₄.settled⟩
  refine ⟨step, ?_⟩
  split
  · next hdead =>
    have hgone₅ := h₄.move.still_gone (hgone hdead)
    refine wp_seq (reclaimSlot_spec t₅ (by rw [hsent]; exact List.not_mem_nil) hgone₅) ?_
    intro _ b₆ t₆
    refine ⟨_, _, t₆, fun h => absurd h (Nat.succ_ne_zero _), fun s' hs' => ?_⟩
    by_cases hs : s' = s
    · rw [hs, Function.update_self] at hs'
      cases hs'
    · rw [Function.update_of_ne hs] at hs' ⊢
      exact hripe s' hs'
  · exact ⟨k.active, k.ripe, t₅, fun h => ⟨h, rfl⟩, hripe⟩

/-- **`check_liveness`**. -/
theorem checkLiveness_spec (t : Steady k owed b) (hfit : k.Fits owed)
    (hlisted : Listed k.active k.activeList) (hripe : k.Ripened) :
    Publisher.checkLiveness.wp (pub calm total)
      (fun _ b' => ∃ act l ripe, Steady { k with active := act, activeList := l, ripe := ripe }
        owed b' ∧ Listed act l ∧ ∀ s, ripe s = true → act s = true) b := by
  unfold Publisher.checkLiveness
  refine wp_seq (scanSlots_spec t hfit hlisted hripe) ?_
  rintro - b₁ ⟨act₁, l₁, ripe₁, t₁, hl₁, hripe₁⟩
  refine pub_read fun b₂ h₂ g₂ => ?_
  refine wp_seq (wp_fold (fun _ reaped d => ∃ act ripe,
    Steady { k with active := act, activeList := l₁, ripe := ripe } owed d ∧
      (reaped = 0 → act = act₁) ∧ ∀ s, ripe s = true → act s = true)
    ⟨act₁, ripe₁, t₁.rely h₂ g₂, fun _ => rfl, hripe₁⟩ ?_) ?_
  · rintro s rest reaped d ⟨act, ripe, td, hsame, hripe⟩
    refine wp_mono (checkSlot_spec td hfit.1 hripe reaped) ?_
    rintro r d' ⟨act', ripe', td', hr, hripe'⟩
    exact ⟨act', ripe', td', fun h => ((hr h).2).trans (hsame (hr h).1), hripe'⟩
  · rintro reaped b₃ ⟨act, ripe, t₃, hsame, hripe⟩
    split
    · refine wp_seq (rebuildActiveList_spec t₃) ?_
      rintro - b₄ ⟨l, t₄, hl⟩
      exact ⟨act, l, ripe, t₄, hl, hripe⟩
    · next hno =>
      have hact := hsame (by simpa using hno)
      subst hact
      exact ⟨act, l₁, ripe, t₃, hl₁, hripe⟩

end Devbus
