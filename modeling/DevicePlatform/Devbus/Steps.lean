/-
# What one step changes

A step of the publisher changes its bookkeeping (`Good.setPool`), a slot that is in use
(`Good.pubHeld`) or a slot whose owner is gone (`Good.pubGone`).  A step of a subscriber
changes its own object (`Good.setSub`) and its own slot (`Good.subSlot`).  Each of these
keeps `Good` if what is changed fits, and stays within what the party may do; the lemmas
about single steps follow from them.
-/
import DevicePlatform.Devbus.Invariant
import DevicePlatform.Devbus.Subscriber

namespace Devbus

variable {c : Core} {s : ℕ}

/-- A fact about every slot after the words and the ledger of slot `s` have changed. -/
theorem forall_slot {f : ℕ → SlotWords} {g : ℕ → Ledger} {w : SlotWords} {l : Ledger}
    {P : ℕ → SlotWords → Ledger → Prop} (hself : P s w l)
    (hother : ∀ s', s' ≠ s → P s' (f s') (g s')) (s' : ℕ) :
    P s' (Function.update f s w s') (Function.update g s l s') := by
  by_cases hs : s' = s
  · subst hs
    rw [Function.update_self, Function.update_self]
    exact hself
  · rw [Function.update_of_ne hs, Function.update_of_ne hs]
    exact hother s' hs

/-! ## The publisher -/

/-- A step of the publisher that keeps the invariant. -/
structure PubStep (c d : Core) : Prop where
  good : Good d
  move : PubMove c d

/-- A step that leaves the slots alone. -/
theorem PubMove.of_same {d : Core} (hhdr : d.hdr = c.hdr) (hsubs : d.subs = c.subs)
    (halive : d.alive = c.alive) (hslot : d.slot = c.slot) (hled : d.led = c.led) :
    PubMove c d := by
  refine ⟨hhdr, hsubs, halive, ?_, ?_⟩
  · intro s
    rw [hslot, hled]
    exact .inr (Keeps.refl _ _)
  · intro s i hst
    rwa [hled] at hst

/-- The publisher's bookkeeping of chunks and calls changes. -/
theorem Good.setPool (g : Good c) {k : Book} {a : Calls}
    (hout : k.outstanding = c.book.outstanding) (hactive : k.active = c.book.active)
    (hfds : k.pidfds = c.book.pidfds)
    (hripe : ∀ s, k.ripe s = true → c.book.ripe s = true ∨ (c.led s).stage.Held)
    (hpool : PoolOk c.hdr k a)
    (hunsent : ∀ x, a.sending = some x → ∀ s, s ∉ a.sentTo → k.outstanding s x = 0)
    (hseqs : ∀ s, ∀ e ∈ (c.led s).pushed, e.seq < a.nextSeq ∧
      (a.sending.isSome → s ∉ a.sentTo → e.seq + 1 < a.nextSeq)) :
    PubStep c { c with book := k, calls := a } := by
  refine ⟨⟨g.exact, ?_, g.beyond, hpool, g.stored, g.owner, g.live, hunsent, hseqs, g.counters,
    fun s hs => (hripe s hs).elim (g.ripe s) .inl, g.tallied⟩, PubMove.of_same rfl rfl rfl rfl rfl⟩
  intro s
  have hok := g.slot s
  rw [← hout, ← hactive, ← hfds] at hok
  exact hok

/-- A slot in use keeps its stage and what goes with it. -/
theorem SlotOk.keep {h : Header} {w w' : SlotWords} {l l' : Ledger} {out out' : ℕ → ℕ}
    {active active' : Bool} {fd fd' : Option ℕ} (k : SlotOk h w l out active fd)
    (hh : l.stage.Held) (hst : l'.stage = l.stage) (hown : l'.ownerPid = l.ownerPid)
    (hstate : w'.state = w.state) (hpid : w'.pid = w.pid) (m : Matches h w' l' out')
    (hon : active' = true → fd' = some l.ownerPid) (hfresh : active' = false → l'.pushed = []) :
    SlotOk h w' l' out' active' fd' := by
  have hnr := (Stage.held_iff.mp hh).2
  refine ⟨?_, fun _ => m, ?_, ?_, ?_, ?_, ?_, ?_, ?_, hfresh⟩
  · intro v hv
    rw [hstate]
    exact k.word v (by rw [← hst]; exact hv)
  · intro hn
    exact absurd (by rw [hst]; exact hh) hn
  · intro hr
    exact absurd (hst ▸ hr) hnr
  · rw [hst, hown]
    exact k.owned
  · intro i hi
    rw [hpid, hown]
    exact k.claimed i (hst ▸ hi)
  · intro _
    rw [hpid, hown]
    exact k.pid hh
  · intro hf
    rw [hpid]
    exact k.free (hst ▸ hf)
  · intro ha _
    rw [hst, hown]
    exact ⟨hh, hon ha⟩

/-- Slot `s`, which is in use, changes, and with it the publisher's bookkeeping of it. -/
theorem Good.pubHeld (g : Good c) (hh : (c.led s).stage.Held) {w : SlotWords} {l : Ledger}
    {k : Book} {a : Calls}
    (hk : ∀ s', s' ≠ s → k.outstanding s' = c.book.outstanding s' ∧
      k.active s' = c.book.active s' ∧ k.pidfds s' = c.book.pidfds s')
    (hripe : k.ripe = c.book.ripe) (hsend : a.sending = c.calls.sending)
    (hnext : a.nextSeq = c.calls.nextSeq)
    (hsent : ∀ s', s' ≠ s → s' ∉ a.sentTo → s' ∉ c.calls.sentTo)
    (hpool : PoolOk c.hdr k a) (hkeep : Keeps (c.slot s) (c.led s) w l)
    (hstate : w.state = (c.slot s).state) (hpid : w.pid = (c.slot s).pid)
    (m : Matches c.hdr w l (k.outstanding s))
    (hon : k.active s = true → k.pidfds s = some (c.led s).ownerPid)
    (hfresh : k.active s = false → l.pushed = [])
    (hstored : ∀ e ∈ l.pushed.drop w.dataTail,
      c.chunkSeq e.chunk = e.seq ∧ c.payload e.chunk = e.payload)
    (hunsent : ∀ x, a.sending = some x → s ∉ a.sentTo → k.outstanding s x = 0)
    (hseqs : ∀ e ∈ l.pushed, e.seq < a.nextSeq ∧
      (a.sending.isSome → s ∉ a.sentTo → e.seq + 1 < a.nextSeq)) :
    PubStep c { c with
      slot := Function.update c.slot s w
      led := Function.update c.led s l
      book := k
      calls := a } := by
  have hlt : s < c.hdr.maxSubscribers := by
    by_contra hge
    rw [g.beyond s (by omega)] at hh
    exact hh
  refine ⟨⟨g.exact, ?_, ?_, hpool, ?_, ?_, ?_, ?_, ?_, ?_, ?_, g.tallied⟩,
    ⟨rfl, rfl, rfl, ?_, ?_⟩⟩
  · refine forall_slot (P := fun s' w l =>
      SlotOk c.hdr w l (k.outstanding s') (k.active s') (k.pidfds s')) ?_ ?_
    · exact (g.slot s).keep hh hkeep.stage hkeep.ownerPid hstate hpid m hon hfresh
    · intro s' hs
      rw [(hk s' hs).1, (hk s' hs).2.1, (hk s' hs).2.2]
      exact g.slot s'
  · intro s' hs'
    have hne : s' ≠ s := by
      dsimp only at hs'
      omega
    dsimp only
    rw [Function.update_of_ne hne]
    exact g.beyond s' hs'
  · refine forall_slot (P := fun _ w l => ∀ e, e ∈ l.pushed.drop w.dataTail ∨ e ∈ l.hand →
      c.chunkSeq e.chunk = e.seq ∧ c.payload e.chunk = e.payload) ?_ fun s' _ => g.stored s'
    rintro e (he | he)
    · exact hstored e he
    · rw [hkeep.hand] at he
      exact g.stored s e (.inr he)
  · refine (Function.forall_update_iff c.led fun s' l => ∀ i, Owns (c.subs i) i s' l).mpr
      ⟨?_, fun s' _ => g.owner s'⟩
    intro i
    have o := g.owner s i
    constructor
    · rw [hkeep.stage, hkeep.ownerPid]
      exact o.claimed
    · rw [hkeep.stage, hkeep.ownerPid, hkeep.hand, hkeep.taken]
      exact o.active
    · rw [hkeep.stage, hkeep.taken]
      exact o.closing
  · intro i ha
    have hstage : ∀ s', (Function.update c.led s l s').stage = (c.led s').stage :=
      (Function.forall_update_iff c.led fun s' l => l.stage = (c.led s').stage).mpr
        ⟨hkeep.stage, fun _ _ => rfl⟩
    refine ⟨fun hp s' hs' => (hstage s').trans ((g.live i ha).building hp s' hs'), fun hp => ?_⟩
    obtain ⟨s', hslot, hst⟩ := (g.live i ha).live hp
    exact ⟨s', hslot, (hstage s').trans hst⟩
  · intro x hx s' hs'
    by_cases hs : s' = s
    · subst hs
      exact hunsent x hx hs'
    · dsimp only at hx hs' ⊢
      rw [(hk s' hs).1]
      exact g.unsent x (hsend ▸ hx) s' (hsent s' hs hs')
  · refine (Function.forall_update_iff c.led fun s' l => ∀ e ∈ l.pushed, e.seq < a.nextSeq ∧
      (a.sending.isSome → s' ∉ a.sentTo → e.seq + 1 < a.nextSeq)).mpr ⟨hseqs, ?_⟩
    intro s' hs e he
    rw [hsend, hnext]
    exact ⟨(g.seqs s' e he).1, fun hx hs' => (g.seqs s' e he).2 hx (hsent s' hs hs')⟩
  · refine (Function.forall_update_iff c.led fun s' l => ¬ l.stage.Held → l.stage ≠ .reset →
      c.stats s' = SlotStats.zero).mpr ⟨?_, fun s' _ => g.counters s'⟩
    rw [hkeep.stage]
    exact g.counters s
  · refine (Function.forall_update_iff c.led fun s' l => k.ripe s' = true →
      l.stage.Held ∨ l.stage = .reset).mpr ⟨?_, ?_⟩
    · rw [hkeep.stage]
      exact fun _ => .inl hh
    · rw [hripe]
      exact fun s' _ => g.ripe s'
  · exact forall_slot (P := fun s' w l => Gone c s' ∨ Keeps (c.slot s') (c.led s') w l)
      (.inr hkeep) fun s' _ => .inr (Keeps.refl _ _)
  · refine (Function.forall_update_iff c.led fun s' l => ∀ i, l.stage = .claimed i →
      (c.led s').stage = .claimed i).mpr ⟨?_, fun _ _ _ h => h⟩
    intro i hst
    rwa [hkeep.stage] at hst

/-- Slot `s`, whose owner is gone, is taken back: it goes to `reset`, stays there or becomes
free. -/
theorem Good.pubGone (g : Good c) (hgone : Gone c s) {w : SlotWords} {l : Ledger} {k : Book}
    (hst : l.stage = .reset ∨ l.stage = .free) (hpushed : l.pushed = []) (hhand : l.hand = [])
    (hk : ∀ s', s' ≠ s → k.outstanding s' = c.book.outstanding s' ∧
      k.active s' = c.book.active s' ∧ k.pidfds s' = c.book.pidfds s' ∧
      k.ripe s' = c.book.ripe s')
    (hfree : l.stage = .free → c.stats s = SlotStats.zero ∧ k.ripe s = false)
    (hpool : PoolOk c.hdr k c.calls) (hzero : ∀ x, k.outstanding s x = 0)
    (hok : SlotOk c.hdr w l (k.outstanding s) (k.active s) (k.pidfds s)) :
    PubStep c { c with
      slot := Function.update c.slot s w
      led := Function.update c.led s l
      book := k } := by
  have hlt : s < c.hdr.maxSubscribers := by
    by_contra hge
    unfold Gone at hgone
    simp only [g.beyond s (by omega)] at hgone
  have hnone : ∀ i, l.stage ≠ .claimed i ∧ l.stage ≠ .active i ∧ l.stage ≠ .closing i := by
    intro i
    rcases hst with h | h <;> rw [h] <;>
      exact ⟨Stage.noConfusion, Stage.noConfusion, Stage.noConfusion⟩
  refine ⟨⟨g.exact, ?_, ?_, hpool, ?_, ?_, ?_, ?_, ?_, ?_, ?_, g.tallied⟩,
    ⟨rfl, rfl, rfl, ?_, ?_⟩⟩
  · refine forall_slot (P := fun s' w l =>
      SlotOk c.hdr w l (k.outstanding s') (k.active s') (k.pidfds s')) hok ?_
    intro s' hs
    rw [(hk s' hs).1, (hk s' hs).2.1, (hk s' hs).2.2.1]
    exact g.slot s'
  · intro s' hs'
    have hne : s' ≠ s := by
      dsimp only at hs'
      omega
    dsimp only
    rw [Function.update_of_ne hne]
    exact g.beyond s' hs'
  · refine forall_slot (P := fun _ w l => ∀ e, e ∈ l.pushed.drop w.dataTail ∨ e ∈ l.hand →
      c.chunkSeq e.chunk = e.seq ∧ c.payload e.chunk = e.payload) ?_ fun s' _ => g.stored s'
    rintro e he
    rw [hpushed, hhand, List.drop_nil] at he
    simp only [List.not_mem_nil, or_self] at he
  · refine (Function.forall_update_iff c.led fun s' l => ∀ i, Owns (c.subs i) i s' l).mpr
      ⟨?_, fun s' _ => g.owner s'⟩
    intro i
    exact ⟨fun h => absurd h (hnone i).1, fun h => absurd h (hnone i).2.1,
      fun h => absurd h (hnone i).2.2⟩
  · intro i ha
    have hstage : ∀ s', (c.led s').stage = .claimed i ∨ (c.led s').stage = .active i →
        Function.update c.led s l s' = c.led s' := by
      intro s' hst
      refine Function.update_of_ne ?_ ..
      rintro rfl
      exact g.not_gone hst ha hgone
    constructor
    · intro hp s' hs'
      have hst := (g.live i ha).building hp s' hs'
      dsimp only
      rw [hstage s' (.inl hst), hst]
    · intro hp
      obtain ⟨s', hslot, hst⟩ := (g.live i ha).live hp
      refine ⟨s', hslot, ?_⟩
      dsimp only
      rw [hstage s' (.inr hst), hst]
  · intro x hx s' hs'
    by_cases hs : s' = s
    · rw [hs]
      exact hzero x
    · dsimp only
      rw [(hk s' hs).1]
      exact g.unsent x hx s' hs'
  · refine (Function.forall_update_iff c.led fun s' l => ∀ e ∈ l.pushed,
      e.seq < c.calls.nextSeq ∧ (c.calls.sending.isSome → s' ∉ c.calls.sentTo →
        e.seq + 1 < c.calls.nextSeq)).mpr ⟨?_, fun s' _ => g.seqs s'⟩
    intro e he
    rw [hpushed] at he
    exact absurd he List.not_mem_nil
  · refine (Function.forall_update_iff c.led fun s' l => ¬ l.stage.Held → l.stage ≠ .reset →
      c.stats s' = SlotStats.zero).mpr ⟨?_, fun s' _ => g.counters s'⟩
    intro _ hr
    exact (hfree (hst.resolve_left hr)).1
  · refine (Function.forall_update_iff c.led fun s' l => k.ripe s' = true →
      l.stage.Held ∨ l.stage = .reset).mpr ⟨?_, ?_⟩
    · intro hr
      refine .inr (hst.resolve_right fun hf => ?_)
      rw [(hfree hf).2] at hr
      cases hr
    · intro s' hs
      rw [(hk s' hs).2.2.2]
      exact g.ripe s'
  · exact forall_slot (P := fun s' w l => Gone c s' ∨ Keeps (c.slot s') (c.led s') w l)
      (.inl hgone) fun s' _ => .inr (Keeps.refl _ _)
  · refine (Function.forall_update_iff c.led fun s' l => ∀ i, l.stage = .claimed i →
      (c.led s').stage = .claimed i).mpr ⟨?_, fun _ _ _ h => h⟩
    intro i hst
    exact absurd hst (hnone i).1

/-! ### Entries -/

/-- What a subscriber can still reach is counted as outstanding. -/
theorem Good.outstanding_of_entry (g : Good c) {e : Entry}
    (he : e ∈ (c.led s).pushed.drop (c.slot s).dataTail ∨ e ∈ (c.led s).hand) :
    c.book.outstanding s e.chunk = 1 := by
  by_cases hh : (c.led s).stage.Held
  · have m := (g.slot s).ledger (Stage.held_iff.mp hh).2
    rcases he with he | he
    · obtain ⟨k, hk, rfl⟩ := List.mem_iff_getElem.mp he
      rw [List.length_drop] at hk
      rw [List.getElem_drop]
      exact m.out_of_queued (Nat.le_add_right _ _) (by omega)
    · exact m.out_of_hand he
  · obtain ⟨hp, -, -, hha, -⟩ := (g.slot s).blank hh
    rw [hp, hha, List.drop_nil] at he
    simp only [List.not_mem_nil, or_self] at he

/-- What `release_ref` does to the row of a slot that has the chunk `x`. -/
theorem Good.releaseRef (g : Good c) {x : ℕ} (hx : c.book.outstanding s x = 1)
    (hsent : s ∉ c.calls.sentTo) :
    PoolOk c.hdr (c.book.releaseRef c.hdr s x) c.calls ∧
      (c.book.releaseRef c.hdr s x).active = c.book.active ∧
      (c.book.releaseRef c.hdr s x).pidfds = c.book.pidfds ∧
      (c.book.releaseRef c.hdr s x).ripe = c.book.ripe ∧
      (c.book.releaseRef c.hdr s x).outstanding s =
        Function.update (c.book.outstanding s) x (dec16 (c.book.outstanding s x)) ∧
      (∀ s', s' ≠ s →
        (c.book.releaseRef c.hdr s x).outstanding s' = c.book.outstanding s') ∧
      ∀ y, c.calls.sending = some y → (c.book.releaseRef c.hdr s x).outstanding s y = 0 := by
  have hne : c.book.outstanding s x ≠ 0 := by omega
  have hout := Book.releaseRef_outstanding (g.pool.lt_of_outstanding hne).2 hne
  have hself : (c.book.releaseRef c.hdr s x).outstanding s =
      Function.update (c.book.outstanding s) x (dec16 (c.book.outstanding s x)) := by
    rw [hout, Function.update_self]
  have hslots := Book.releaseRef_slots (h := c.hdr) (s := s) (c := x) (k := c.book)
  refine ⟨g.pool.releaseRef g.exact.subs_lt ?_, congrArg Prod.fst hslots,
    congrArg (fun t => t.2.1) hslots, congrArg (fun t => t.2.2.2.2) hslots, hself, ?_, ?_⟩
  · intro _ hsend
    exact hne (g.unsent x hsend s hsent)
  · intro s' hs
    rw [hout, Function.update_of_ne hs]
  · intro y hy
    have hy0 := g.unsent y hy s hsent
    rw [hself, Function.update_of_ne, hy0]
    rintro rfl
    omega

/-- The bookkeeping of a slot in use, after a step that does not onboard it. -/
theorem Good.onboarded (g : Good c) (hh : (c.led s).stage.Held) {k : Book}
    (hact : k.active = c.book.active) (hfds : k.pidfds = c.book.pidfds) :
    k.active s = true → k.pidfds s = some (c.led s).ownerPid := by
  intro ha
  rw [hact] at ha
  rw [hfds]
  exact ((g.slot s).onboarded ha (Stage.held_iff.mp hh).2).2

/-- A step on the words and the history of a slot in use. -/
theorem Good.pubWords (g : Good c) (hh : (c.led s).stage.Held) {w : SlotWords} {l : Ledger}
    (hkeep : Keeps (c.slot s) (c.led s) w l) (hstate : w.state = (c.slot s).state)
    (hpid : w.pid = (c.slot s).pid) (hpushed : l.pushed = (c.led s).pushed)
    (m : Matches c.hdr w l (c.book.outstanding s)) :
    PubStep c { c with
      slot := Function.update c.slot s w
      led := Function.update c.led s l } := by
  refine g.pubHeld hh (k := c.book) (a := c.calls) (fun _ _ => ⟨rfl, rfl, rfl⟩) rfl rfl rfl
    (fun _ _ h => h) g.pool hkeep hstate hpid m (g.onboarded hh rfl rfl) ?_ ?_
    (fun x hx hs => g.unsent x hx s hs) ?_
  · rw [hpushed]
    exact (g.slot s).fresh
  · intro e he
    rw [hpushed] at he
    exact g.stored s e (.inl (List.drop_subset_drop_left _ hkeep.tail he))
  · rw [hpushed]
    exact g.seqs s

/-! ### Single steps -/

/-- `drain_done` takes back a chunk. -/
theorem Good.drainOne (g : Good c) (hh : (c.led s).stage.Held) (hsent : s ∉ c.calls.sentTo)
    (hlt : (c.led s).doneRead < (c.led s).released.length) :
    PubStep c { c with
      led := Function.update c.led s { c.led s with doneRead := (c.led s).doneRead + 1 }
      book := c.book.releaseRef c.hdr s ((c.led s).released[(c.led s).doneRead]) } := by
  have m := (g.slot s).ledger (Stage.held_iff.mp hh).2
  obtain ⟨hpool, hact, hfds, hripe, hself, hothers, hunsent⟩ :=
    g.releaseRef (m.out_of_released hlt) hsent
  have step := g.pubHeld hh (w := c.slot s)
    (l := { c.led s with doneRead := (c.led s).doneRead + 1 }) (a := c.calls)
    (fun s' hs => ⟨hothers s' hs, by rw [hact], by rw [hfds]⟩) hripe rfl rfl (fun _ _ h => h) hpool
    ⟨rfl, rfl, rfl, rfl, rfl, rfl, rfl, Nat.le_refl _, List.prefix_rfl, fun h => absurd hh h⟩
    rfl rfl
    (by rw [hself]; exact m.drainOne hlt) (g.onboarded hh hact hfds)
    (by rw [hact]; exact (g.slot s).fresh) (fun e he => g.stored s e (.inl he))
    (fun y hy _ => hunsent y hy) (g.seqs s)
  rwa [Function.update_eq_self] at step

/-- `done_tail` is stored. -/
theorem Good.drainEnd (g : Good c) (hh : (c.led s).stage.Held) :
    PubStep c { c with
      slot := Function.update c.slot s { c.slot s with doneTail := (c.led s).doneRead } } := by
  have step := g.pubWords hh (w := { c.slot s with doneTail := (c.led s).doneRead })
    (l := c.led s)
    ⟨rfl, rfl, rfl, rfl, rfl, rfl, rfl, Nat.le_refl _, List.prefix_rfl, fun h => absurd hh h⟩
    rfl rfl rfl
    ((g.slot s).ledger (Stage.held_iff.mp hh).2).drainEnd
  rwa [Function.update_eq_self] at step

/-- `deliver` looks at the fill of the ring, or refuses the sample. -/
theorem Good.record (g : Good c) (hh : (c.led s).stage.Held) {r : List (ℕ × Refusal)}
    (hr : ∀ y ∈ r, ∃ e ∈ (c.led s).pushed, e.seq < y.1) (x : ℕ) (xs : List ℕ)
    (hfull : ∀ y ∈ xs, y = c.hdr.queueCapacity)
    (hlen : r.length = (c.led s).refused.length + xs.length) :
    PubStep c { c with
      led := Function.update c.led s
        { c.led s with refused := r, seen := x, fullAt := (c.led s).fullAt ++ xs } } := by
  have step := g.pubWords hh (w := c.slot s)
    (l := { c.led s with refused := r, seen := x, fullAt := (c.led s).fullAt ++ xs })
    ⟨rfl, rfl, rfl, rfl, rfl, rfl, rfl, Nat.le_refl _, List.prefix_rfl, fun h => absurd hh h⟩
    rfl rfl rfl
    (((g.slot s).ledger (Stage.held_iff.mp hh).2).record hr (c.led s).onboardSeq x xs hfull hlen)
  rwa [Function.update_eq_self] at step

/-- `deliver` writes the slot of the ring after the newest entry. -/
theorem Good.writeRing (g : Good c) (hh : (c.led s).stage.Held) (x : ℕ)
    (hroom : (c.led s).pushed.length - (c.slot s).dataTail < c.hdr.queueCapacity) :
    PubStep c { c with
      slot := Function.update c.slot s { c.slot s with
        dataRing := Function.update (c.slot s).dataRing
          ((c.led s).pushed.length % c.hdr.queueCapacity) x } } := by
  have step := g.pubWords hh (l := c.led s)
    (w := { c.slot s with
      dataRing := Function.update (c.slot s).dataRing
        ((c.led s).pushed.length % c.hdr.queueCapacity) x })
    ⟨rfl, rfl, rfl, rfl, rfl, rfl, rfl, Nat.le_refl _, List.prefix_rfl, fun h => absurd hh h⟩
    rfl rfl rfl
    (((g.slot s).ledger (Stage.held_iff.mp hh).2).writeRing x hroom)
  rwa [Function.update_eq_self] at step

/-- `deliver` evicts the oldest entry. -/
theorem Good.evict (g : Good c) (hh : (c.led s).stage.Held) (hsent : s ∉ c.calls.sentTo)
    (hpolicy : (c.slot s).overflow = .dropOldest)
    (hlt : (c.slot s).dataTail < (c.led s).pushed.length)
    (hfull : (c.led s).pushed.length - (c.slot s).dataTail = c.hdr.queueCapacity) :
    PubStep c { c with
      slot := Function.update c.slot s { c.slot s with dataTail := (c.slot s).dataTail + 1 }
      led := Function.update c.led s { c.led s with
        evicted := (c.led s).evicted ++ [(c.led s).pushed[(c.slot s).dataTail]]
        fullAt := (c.led s).fullAt ++ [(c.slot s).dataHead - (c.slot s).dataTail] }
      book := c.book.releaseRef c.hdr s ((c.led s).pushed[(c.slot s).dataTail]).chunk } := by
  have m := (g.slot s).ledger (Stage.held_iff.mp hh).2
  obtain ⟨hpool, hact, hfds, hripe, hself, hothers, hunsent⟩ :=
    g.releaseRef (m.out_of_queued (Nat.le_refl _) hlt) hsent
  refine g.pubHeld hh (a := c.calls)
    (fun s' hs => ⟨hothers s' hs, by rw [hact], by rw [hfds]⟩) hripe rfl rfl (fun _ _ h => h) hpool
    ⟨rfl, rfl, rfl, rfl, rfl, rfl, rfl, Nat.le_succ _, List.prefix_rfl, fun h => absurd hh h⟩
    rfl rfl
    (by rw [hself]; exact m.evict hpolicy hlt hfull) (g.onboarded hh hact hfds)
    (by rw [hact]; exact (g.slot s).fresh) ?_ (fun y hy _ => hunsent y hy) (g.seqs s)
  intro e he
  exact g.stored s e (.inl (List.drop_subset_drop_left _ (Nat.le_succ _) he))

/-- `deliver` publishes an entry. -/
theorem Good.push (g : Good c) (hh : (c.led s).stage.Held) {x : ℕ}
    (hsend : c.calls.sending = some x) (hsent : s ∉ c.calls.sentTo)
    (hact : c.book.active s = true) (hpos : 0 < c.chunkSeq x)
    (hseq : c.chunkSeq x + 1 = c.calls.nextSeq)
    (hroom : (c.led s).pushed.length - (c.slot s).dataTail < c.hdr.queueCapacity)
    (hslot : (c.slot s).dataRing ((c.led s).pushed.length % c.hdr.queueCapacity) = x)
    (hdone : (c.slot s).doneTail = (c.led s).doneRead) :
    PubStep c { c with
      slot := Function.update c.slot s
        { c.slot s with dataHead := (c.led s).pushed.length + 1 }
      led := Function.update c.led s { c.led s with
        pushed := (c.led s).pushed ++ [⟨c.chunkSeq x, c.payload x, x⟩] }
      book := c.book.addRef s x
      calls := { c.calls with sentTo := s :: c.calls.sentTo } } := by
  have m := (g.slot s).ledger (Stage.held_iff.mp hh).2
  have hout := g.unsent x hsend s hsent
  have hlt : s < c.hdr.maxSubscribers := by
    by_contra hge
    rw [g.beyond s (by omega)] at hh
    exact hh
  have hself : (c.book.addRef s x).outstanding s =
      Function.update (c.book.outstanding s) x (inc16 (c.book.outstanding s x)) :=
    Function.update_self ..
  have hpool := g.pool.addRef g.exact.subs_lt hlt hsend hout
  refine g.pubHeld hh ?_ rfl rfl rfl ?_
    ⟨hpool.refs, hpool.one, hpool.beyond, hpool.bounded, hpool.place, hpool.loansOut,
      hpool.loans_le⟩
    ⟨rfl, rfl, rfl, rfl, rfl, rfl, rfl, Nat.le_refl _, List.prefix_append _ _, fun h => absurd hh h⟩
    rfl rfl ?_ (g.onboarded hh rfl rfl) (fun ha => absurd hact (by
      rw [show c.book.active s = false from ha]; exact Bool.false_ne_true)) ?_ ?_ ?_
  · intro s' hs
    exact ⟨Function.update_of_ne hs .., rfl, rfl⟩
  · intro s' _ hs' hmem
    exact hs' (List.mem_cons_of_mem _ hmem)
  · rw [hself]
    refine m.push hroom hslot hdone hout (g.pool.lt_of_sending hsend) hpos ?_
    intro e he
    have := (g.seqs s e he).2 (by rw [hsend]; rfl) hsent
    dsimp only
    omega
  · intro e he
    dsimp only at he
    rw [List.drop_append_of_le_length m.tail_le] at he
    rcases List.mem_append.mp he with hold | hnew
    · exact g.stored s e (.inl hold)
    · rw [List.mem_singleton.mp hnew]
      exact ⟨rfl, rfl⟩
  · intro y _ hs
    exact absurd List.mem_cons_self hs
  · intro e he
    dsimp only
    refine ⟨?_, fun _ hs => absurd List.mem_cons_self hs⟩
    rcases List.mem_append.mp he with hold | hnew
    · exact (g.seqs s e hold).1
    · rw [List.mem_singleton.mp hnew]
      dsimp only
      omega

/-- `scan_slots` onboards the slot. -/
theorem Good.onboard (g : Good c) (hh : (c.led s).stage.Held) (hact : c.book.active s = false)
    (n : ℕ) :
    PubStep c { c with
      led := Function.update c.led s { c.led s with onboardSeq := n }
      book := { c.book with
        pidfds := Function.update c.book.pidfds s (some (c.led s).ownerPid)
        active := Function.update c.book.active s true } } := by
  have m₀ := (g.slot s).ledger (Stage.held_iff.mp hh).2
  have m := m₀.record m₀.preceded n (c.led s).seen [] (fun y hy => absurd hy List.not_mem_nil) rfl
  rw [List.append_nil] at m
  have step := g.pubHeld hh (w := c.slot s) (l := { c.led s with onboardSeq := n }) (a := c.calls)
    (k := { c.book with
      pidfds := Function.update c.book.pidfds s (some (c.led s).ownerPid)
      active := Function.update c.book.active s true })
    (fun s' hs => ⟨rfl, Function.update_of_ne hs .., Function.update_of_ne hs ..⟩) rfl rfl rfl
    (fun _ _ h => h) (g.pool.setSlots _ _ _ _ _)
    ⟨rfl, rfl, rfl, rfl, rfl, rfl, rfl, Nat.le_refl _, List.prefix_rfl, fun h => absurd hh h⟩
    rfl rfl
    m (fun _ => Function.update_self ..) (fun _ => (g.slot s).fresh hact)
    (fun e he => g.stored s e (.inl he)) (fun x hx hs => g.unsent x hx s hs) (g.seqs s)
  rwa [Function.update_eq_self] at step

/-- The state word of a slot that is given up is not `Free`. -/
theorem Good.state_ne_free (g : Good c) (hgone : Gone c s) : (c.slot s).state ≠ .free := by
  have hok := g.slot s
  intro hfree
  by_cases hr : (c.led s).stage = .reset
  · exact (hok.reset hr).1 hfree
  · have hw := hok.stage_of_word hr
    rw [hfree] at hw
    unfold Gone at hgone
    cases hst : (c.led s).stage with
    | free => simp only [hst] at hgone
    | claimed i => rw [hst] at hw; cases hw
    | active i => rw [hst] at hw; cases hw
    | closing i => rw [hst] at hw; cases hw
    | reset => exact hr hst

/-- A slot under reset. -/
theorem SlotOk.ofReset {h : Header} {w : SlotWords} {l : Ledger} {out : ℕ → ℕ} {active : Bool}
    {fd : Option ℕ} (hst : l.stage = .reset)
    (hunused : l = { Ledger.fresh l.stage with ownerPid := l.ownerPid })
    (hreset : w.state ≠ .free ∧ (∀ c, out c = 0) ∧
      w.doneHead ≤ w.doneTail + h.completionCapacity) : SlotOk h w l out active fd := by
  refine ⟨?_, fun hn => absurd hst hn, fun _ => hunused, fun _ => hreset,
    fun _ hn => absurd hst hn, ?_, ?_, ?_, fun _ hn => absurd hst hn, ?_⟩
  · intro v hv
    rw [hst] at hv
    cases hv
  · intro i hi
    rw [hst] at hi
    cases hi
  · intro hh
    rw [hst] at hh
    exact hh.elim
  · intro hf
    rw [hst] at hf
    cases hf
  · intro _
    rw [hunused]
    rfl

/-- `reclaim_slot` takes the chunks of the slot back. -/
theorem Good.beginReset (g : Good c) (hgone : Gone c s) (hsent : s ∉ c.calls.sentTo) :
    PubStep c { c with
      led := Function.update c.led s (Ledger.fresh .reset)
      book := c.book.reclaimChunks c.hdr s } := by
  obtain ⟨hpool, hslots, hzero, hrows⟩ :=
    g.pool.reclaimChunks g.exact.subs_lt fun x hx => g.unsent x hx s hsent
  have hact : (c.book.reclaimChunks c.hdr s).active = c.book.active := congrArg Prod.fst hslots
  have hfds : (c.book.reclaimChunks c.hdr s).pidfds = c.book.pidfds :=
    congrArg (fun t => t.2.1) hslots
  have hripe : (c.book.reclaimChunks c.hdr s).ripe = c.book.ripe :=
    congrArg (fun t => t.2.2.2.2) hslots
  have step := g.pubGone hgone (w := c.slot s) (l := Ledger.fresh .reset) (.inl rfl) rfl rfl
    (fun s' hs => ⟨hrows s' hs, by rw [hact], by rw [hfds], by rw [hripe]⟩)
    (fun h => Stage.noConfusion h) hpool hzero
    (SlotOk.ofReset rfl rfl ⟨g.state_ne_free hgone, hzero, (g.slot s).done_le g.exact.count_le⟩)
  rwa [Function.update_eq_self] at step

/-- `reclaim_slot` stores 0 to a word of the slot. -/
theorem Good.zero (g : Good c) (hst : (c.led s).stage = .reset) {w : SlotWords}
    (hstate : w.state = (c.slot s).state)
    (hdone : w.doneHead ≤ w.doneTail + c.hdr.completionCapacity) :
    PubStep c { c with slot := Function.update c.slot s w } := by
  have hgone : Gone c s := by
    unfold Gone
    rw [hst]
    trivial
  have hok := g.slot s
  have hheld : ¬ (c.led s).stage.Held := by
    rw [hst]
    exact id
  obtain ⟨hp, -, -, hha, -⟩ := hok.blank hheld
  have step := g.pubGone hgone (w := w) (l := c.led s) (.inl hst) hp hha
    (fun _ _ => ⟨rfl, rfl, rfl, rfl⟩) (fun h => by rw [hst] at h; cases h) g.pool
    (hok.reset hst).2.1
    (SlotOk.ofReset hst (hok.unused hheld)
      ⟨by rw [hstate]; exact (hok.reset hst).1, (hok.reset hst).2.1, hdone⟩)
  rwa [Function.update_eq_self] at step

/-- `reclaim_slot` frees the slot. -/
theorem Good.endReset (g : Good c) (hst : (c.led s).stage = .reset)
    (hw : (c.slot s).dataHead = 0 ∧ (c.slot s).dataTail = 0 ∧ (c.slot s).doneHead = 0 ∧
      (c.slot s).doneTail = 0) (hpid : (c.slot s).pid = 0)
    (hstats : c.stats s = SlotStats.zero) :
    PubStep c { c with
      slot := Function.update c.slot s { c.slot s with state := .free }
      led := Function.update c.led s (Ledger.fresh .free)
      book := { c.book with
        pidfds := Function.update c.book.pidfds s none
        active := Function.update c.book.active s false
        claimedSince := Function.update c.book.claimedSince s 0
        ripe := Function.update c.book.ripe s false } } := by
  have hgone : Gone c s := by
    unfold Gone
    rw [hst]
    trivial
  have hzero := ((g.slot s).reset hst).2.1
  refine g.pubGone hgone (.inr rfl) rfl rfl
    (fun s' hs => ⟨rfl, Function.update_of_ne hs .., Function.update_of_ne hs ..,
      Function.update_of_ne hs ..⟩) (fun _ => ⟨hstats, Function.update_self ..⟩)
    (g.pool.setSlots _ _ _ _ _) hzero ?_
  refine ⟨?_, fun _ => Matches.fresh hw ⟨rfl, rfl, rfl, rfl, rfl, rfl, rfl, rfl⟩ hzero,
    fun _ => rfl,
    Stage.noConfusion, fun hf => absurd rfl hf, fun i hi => Stage.noConfusion hi,
    fun hh => hh.elim, fun _ => hpid, ?_, fun _ => rfl⟩
  · rintro v ⟨⟩
    rfl
  · intro ha
    dsimp only at ha
    rw [Function.update_self] at ha
    cases ha

/-- The publisher's members about slots change, but for `active_` and `pidfds_`. -/
theorem Good.setLists (g : Good c) (l : List ℕ) (since : ℕ → ℕ) :
    PubStep c { c with book := { c.book with activeList := l, claimedSince := since } } :=
  g.setPool rfl rfl rfl (fun _ => .inl) (g.pool.setSlots _ _ _ _ _) g.unsent g.seqs

/-- `scan_slots` marks the slots that are in use. -/
theorem Good.setRipe (g : Good c) {ripe : ℕ → Bool}
    (hripe : ∀ s, ripe s = true → c.book.ripe s = true ∨ (c.led s).stage.Held) :
    PubStep c { c with book := { c.book with ripe := ripe } } :=
  g.setPool rfl rfl rfl hripe (g.pool.setSlots _ _ _ _ _) g.unsent g.seqs

/-- A counter of a slot in use, or under reset, changes. -/
theorem Good.setStats (g : Good c)
    (hst : (c.led s).stage.Held ∨ (c.led s).stage = .reset) (n : SlotStats) :
    PubStep c { c with stats := Function.update c.stats s n } := by
  refine ⟨⟨g.exact, g.slot, g.beyond, g.pool, g.stored, g.owner, g.live, g.unsent, g.seqs, ?_,
    g.ripe, g.tallied⟩, PubMove.of_same rfl rfl rfl rfl rfl⟩
  intro s' hheld hreset
  have hne : s' ≠ s := by
    rintro rfl
    exact hst.elim hheld hreset
  dsimp only
  rw [Function.update_of_ne hne]
  exact g.counters s' hheld hreset

/-- `send` counts itself, for the next liveness check. -/
theorem Good.setCount (g : Good c) (n : ℕ) :
    PubStep c { c with calls := { c.calls with sendsSinceLiveness := n } } :=
  have p := g.pool
  g.setPool rfl rfl rfl (fun _ => .inl)
    ⟨p.refs, p.one, p.beyond, p.bounded, p.place, p.loansOut, p.loans_le⟩ g.unsent g.seqs

/-- `loan` takes a chunk. -/
theorem Good.pop (g : Good c) {x : ℕ} {rest : List ℕ} (hfree : c.book.free = x :: rest)
    (hlt : c.calls.loansOut < c.hdr.maxLoans) :
    PubStep c { c with
      book := { c.book with free := rest }
      calls := { c.calls with
        loansOut := c.calls.loansOut + 1
        loans := x :: c.calls.loans } } :=
  g.setPool rfl rfl rfl (fun _ => .inl) (g.pool.pop hfree hlt) g.unsent g.seqs

/-- The application gives a loan back. -/
theorem Good.releaseLoan (g : Good c) {x : ℕ} (hx : x ∈ c.calls.loans) :
    PubStep c { c with
      book := c.book.freeChunk x
      calls := { c.calls with
        loansOut := c.calls.loansOut - 1
        loans := c.calls.loans.erase x } } :=
  g.setPool rfl rfl rfl (fun _ => .inl) (g.pool.releaseLoan hx) g.unsent g.seqs

/-- `send` begins. -/
theorem Good.beginSend (g : Good c) {x : ℕ} (hx : x ∈ c.calls.loans)
    (hidle : c.calls.sending = none) :
    PubStep c { c with
      calls := { c.calls with
        loansOut := c.calls.loansOut - 1
        loans := c.calls.loans.erase x
        sending := some x
        sentTo := []
        nextSeq := c.calls.nextSeq + 1 } } := by
  refine g.setPool rfl rfl rfl (fun _ => .inl) (g.pool.beginSend hx hidle _) ?_ ?_
  · rintro y ⟨⟩ s _
    exact g.pool.outstanding_of_loan hx s
  · intro s e he
    have := (g.seqs s e he).1
    exact ⟨Nat.lt_succ_of_lt this, fun _ _ => Nat.succ_lt_succ this⟩

/-- The deliveries of a `send` are over. -/
theorem Good.endSend (g : Good c) {x : ℕ} (hx : c.calls.sending = some x)
    (l : List (SendReport × ℕ)) :
    PubStep c { c with
      book := c.book.freeIfUnused x
      calls := { c.calls with sending := none, sentTo := [], reports := l } } := by
  have hslots := Book.freeIfUnused_slots (c := x) (k := c.book)
  refine g.setPool Book.freeIfUnused_outstanding (congrArg Prod.fst hslots)
    (congrArg (fun t => t.2.1) hslots) ?_ (g.pool.endSend hx l) ?_ ?_
  · rw [show (c.book.freeIfUnused x).ripe = c.book.ripe from congrArg (fun t => t.2.2.2.2) hslots]
    exact fun _ => .inl
  · intro y hy
    cases hy
  · intro s e he
    exact ⟨(g.seqs s e he).1, fun h => nomatch h⟩

/-- `send` numbers the chunk, which nobody has. -/
theorem Good.stamp (g : Good c) {x : ℕ} (hx : c.calls.sending = some x)
    (hsent : c.calls.sentTo = []) (n : ℕ) :
    PubStep c { c with chunkSeq := Function.update c.chunkSeq x n } := by
  refine ⟨⟨g.exact, g.slot, g.beyond, g.pool, ?_, g.owner, g.live, g.unsent, g.seqs, g.counters,
    g.ripe, g.tallied⟩, PubMove.of_same rfl rfl rfl rfl rfl⟩
  intro s e he
  have hout := g.outstanding_of_entry he
  have hne : e.chunk ≠ x := by
    rintro rfl
    rw [g.unsent _ hx s (by rw [hsent]; exact List.not_mem_nil)] at hout
    cases hout
  dsimp only
  rw [Function.update_of_ne hne]
  exact g.stored s e he

/-! ## The application and the kernel -/

/-- The application fills a chunk that it has on loan. -/
theorem Good.fill (g : Good c) {x : ℕ} (hx : x ∈ c.calls.loans) (v : ℕ) :
    Good { c with payload := Function.update c.payload x v } := by
  refine ⟨g.exact, g.slot, g.beyond, g.pool, ?_, g.owner, g.live, g.unsent, g.seqs, g.counters,
    g.ripe, g.tallied⟩
  intro s e he
  have hout := g.outstanding_of_entry he
  have hne : e.chunk ≠ x := by
    rintro rfl
    rw [g.pool.outstanding_of_loan hx s] at hout
    cases hout
  dsimp only
  rw [Function.update_of_ne hne]
  exact g.stored s e he

/-- A process dies. -/
theorem Good.crash (g : Good c) (p : ℕ) :
    Good { c with alive := Function.update c.alive p false } := by
  refine ⟨g.exact, g.slot, g.beyond, g.pool, g.stored, g.owner, ?_, g.unsent, g.seqs, g.counters,
    g.ripe, g.tallied⟩
  intro i ha
  refine g.live i ?_
  dsimp only at ha
  rw [Function.update_apply] at ha
  split_ifs at ha
  exact ha

/-! ## Subscribers -/

/-- A step of subscriber `i` that keeps the invariant. -/
structure SubStep (i : ℕ) (c d : Core) : Prop where
  good : Good d
  move : SubMove i c d

/-- Subscriber `i` changes its own object. -/
theorem Good.setSub (g : Good c) {i : ℕ} {u : Sub} (howns : ∀ s, Owns u i s (c.led s))
    (hlive : c.alive u.pid = true → Placed u i c.led) (hpid : u.pid = (c.subs i).pid)
    (htally : u.Tallied) :
    SubStep i c { c with subs := Function.update c.subs i u } := by
  refine ⟨⟨g.exact, g.slot, g.beyond, g.pool, g.stored, ?_, ?_, g.unsent, g.seqs, g.counters,
    g.ripe, ?_⟩, ⟨rfl, rfl, rfl, rfl, rfl, rfl, fun j hj => Function.update_of_ne hj .., ?_,
      fun s => .inl ⟨rfl, rfl⟩⟩⟩
  · intro s
    exact (Function.forall_update_iff c.subs fun j u => Owns u j s (c.led s)).mpr
      ⟨howns s, fun j _ => g.owner s j⟩
  · exact (Function.forall_update_iff c.subs fun j u => c.alive u.pid = true →
      Placed u j c.led).mpr ⟨hlive, fun j _ => g.live j⟩
  · exact (Function.forall_update_iff c.subs fun _ u => u.Tallied).mpr
      ⟨htally, fun j _ => g.tallied j⟩
  · dsimp only
    rw [Function.update_self, hpid]

/-- Subscriber `i` changes its slot, and its own object. -/
theorem Good.subSlot (g : Good c) {i : ℕ} (hs : s < c.hdr.maxSubscribers)
    (hopen : (c.led s).Open i)
    (honly : ∀ s', s' ≠ s → (c.led s').stage ≠ .claimed i ∧ (c.led s').stage ≠ .active i ∧
      (c.led s').stage ≠ .closing i)
    {w : SlotWords} {l : Ledger} {u : Sub} (hmove : SlotMove (c.slot s) (c.led s) w l)
    (hok : SlotOk c.hdr w l (c.book.outstanding s) (c.book.active s) (c.book.pidfds s))
    (hstored : ∀ e, e ∈ l.pushed.drop w.dataTail ∨ e ∈ l.hand →
      c.chunkSeq e.chunk = e.seq ∧ c.payload e.chunk = e.payload)
    (hstage : l.stage = .claimed i ∨ l.stage = .active i ∨ l.stage = .closing i)
    (howns : Owns u i s l) (hslot : u.slot = some s)
    (hbuild : u.phase = .building → l.stage = .claimed i)
    (hlive : u.phase = .live → l.stage = .active i)
    (hpid : u.pid = (c.subs i).pid) (htally : u.Tallied) :
    SubStep i c { c with
      slot := Function.update c.slot s w
      led := Function.update c.led s l
      subs := Function.update c.subs i u } := by
  -- nobody else is in this slot, before or after
  have hold : ∀ j, j ≠ i → (c.led s).stage ≠ .claimed j ∧ (c.led s).stage ≠ .active j := by
    intro j hj
    constructor <;> intro hst <;> rcases hopen with ho | ho | ho <;> rw [hst] at ho <;> cases ho
    · exact hj rfl
    · exact hj rfl
  have hnew : ∀ j, j ≠ i → l.stage ≠ .claimed j ∧ l.stage ≠ .active j ∧ l.stage ≠ .closing j := by
    intro j hj
    refine ⟨?_, ?_, ?_⟩ <;> intro hst <;> rcases hstage with ho | ho | ho <;> rw [hst] at ho <;>
      cases ho
    · exact hj rfl
    · exact hj rfl
    · exact hj rfl
  refine ⟨⟨g.exact, ?_, ?_, g.pool, ?_, ?_, ?_, g.unsent, ?_, ?_, ?_, ?_⟩,
    ⟨rfl, rfl, rfl, rfl, rfl, rfl, fun j hj => Function.update_of_ne hj .., ?_, ?_⟩⟩
  · exact forall_slot (P := fun s' w l => SlotOk c.hdr w l (c.book.outstanding s')
      (c.book.active s') (c.book.pidfds s')) hok fun s' _ => g.slot s'
  · intro s' hs'
    have hne : s' ≠ s := by
      dsimp only at hs'
      omega
    dsimp only
    rw [Function.update_of_ne hne]
    exact g.beyond s' hs'
  · exact forall_slot (P := fun _ w l => ∀ e, e ∈ l.pushed.drop w.dataTail ∨ e ∈ l.hand →
      c.chunkSeq e.chunk = e.seq ∧ c.payload e.chunk = e.payload) hstored fun s' _ => g.stored s'
  · refine (Function.forall_update_iff c.led fun s' l => ∀ j,
      Owns (Function.update c.subs i u j) j s' l).mpr ⟨?_, ?_⟩
    · refine (Function.forall_update_iff c.subs fun j u => Owns u j s l).mpr ⟨howns, ?_⟩
      intro j hj
      exact ⟨fun h => absurd h (hnew j hj).1, fun h => absurd h (hnew j hj).2.1,
        fun h => absurd h (hnew j hj).2.2⟩
    · intro s' hs'
      refine (Function.forall_update_iff c.subs fun j u => Owns u j s' (c.led s')).mpr
        ⟨?_, fun j _ => g.owner s' j⟩
      exact ⟨fun h => absurd h (honly s' hs').1, fun h => absurd h (honly s' hs').2.1,
        fun h => absurd h (honly s' hs').2.2⟩
  · refine (Function.forall_update_iff c.subs fun j u => c.alive u.pid = true →
      Placed u j (Function.update c.led s l)).mpr ⟨?_, ?_⟩
    · intro _
      constructor
      · intro hp s' hs'
        rw [← Option.some.inj (hslot.symm.trans hs'), Function.update_self]
        exact hbuild hp
      · intro hp
        exact ⟨s, hslot, by rw [Function.update_self]; exact hlive hp⟩
    · intro j hj ha
      constructor
      · intro hp s' hs'
        have hst := (g.live j ha).building hp s' hs'
        have hne : s' ≠ s := by
          rintro rfl
          exact (hold j hj).1 hst
        rw [Function.update_of_ne hne]
        exact hst
      · intro hp
        obtain ⟨s', hslot', hst⟩ := (g.live j ha).live hp
        have hne : s' ≠ s := by
          rintro rfl
          exact (hold j hj).2 hst
        exact ⟨s', hslot', by rw [Function.update_of_ne hne]; exact hst⟩
  · refine (Function.forall_update_iff c.led fun s' l => ∀ e ∈ l.pushed,
      e.seq < c.calls.nextSeq ∧ (c.calls.sending.isSome → s' ∉ c.calls.sentTo →
        e.seq + 1 < c.calls.nextSeq)).mpr ⟨?_, fun s' _ => g.seqs s'⟩
    rw [hmove.pushed]
    exact g.seqs s
  · -- a slot that is not in use has not been
    refine (Function.forall_update_iff c.led fun s' l => ¬ l.stage.Held → l.stage ≠ .reset →
      c.stats s' = SlotStats.zero).mpr ⟨?_, fun s' _ => g.counters s'⟩
    intro hheld hreset
    refine g.counters s (fun h => hheld (hmove.held h)) fun h => ?_
    rcases hopen with ho | ho | ho <;> rw [h] at ho <;> cases ho
  · refine (Function.forall_update_iff c.led fun s' l => c.book.ripe s' = true →
      l.stage.Held ∨ l.stage = .reset).mpr ⟨?_, fun s' _ => g.ripe s'⟩
    intro hr
    refine .inl (hmove.held ((g.ripe s hr).resolve_right fun h => ?_))
    rcases hopen with ho | ho | ho <;> rw [h] at ho <;> cases ho
  · exact (Function.forall_update_iff c.subs fun _ u => u.Tallied).mpr
      ⟨htally, fun j _ => g.tallied j⟩
  · dsimp only
    rw [Function.update_self, hpid]
  · exact forall_slot (P := fun s' w l => (w = c.slot s' ∧ l = c.led s') ∨
      ((c.led s').Open i ∧ SlotMove (c.slot s') (c.led s') w l)) (.inr ⟨hopen, hmove⟩)
      fun s' _ => .inl ⟨rfl, rfl⟩

end Devbus
