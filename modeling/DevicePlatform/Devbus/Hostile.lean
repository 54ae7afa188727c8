/-
# The publisher among hostile subscribers

The publisher's programs once more, but now the subscribers do not follow `SubscriberCore`:
between any two steps of the publisher they write whatever they like to every word of every
slot, rings included, and processes come and go (`scribble`).  Only the header stays as the
constructor has written it.

The bookkeeping of the publisher is in its own memory, and what it reads from the slots is
checked before it is used.  So every chunk stays in one place (`bookkeeping_kept`), with one
exception.  `rebuild_active_list` reads the policy of a slot twice, once for each pass.  A
subscriber that changes it in between is listed twice and is given every sample twice; the
second delivery can evict the first, which frees the chunk that is being sent
(`freed_while_queued`).
-/
import DevicePlatform.Devbus.Isolation

namespace Devbus

/-! ## The machine -/

/-- The shared state, and what is left to do of the publisher's call. -/
structure Attacked where
  bus : Bus
  pub : Prog Bus Unit

inductive HostileEvent where
  | loan
  | releaseLoan (c : ℕ)
  | send (c : ℕ)
  | checkLiveness
  /-- A step of the publisher. -/
  | publisher (n : ℕ)
  /-- The subscribers overwrite the slots, processes begin and end, and time passes. -/
  | scribble (slot : ℕ → SlotWords) (futex : ℕ → FutexWords) (stats : ℕ → SlotStats)
      (alive : ℕ → Bool) (ns : ℕ)

namespace Attacked

/-- The publisher is called. -/
def call (x : Attacked) (p : Prog Bus Unit) : Option Attacked :=
  if x.pub.returned then some { x with pub := p } else none

/-- The next state. -/
def next (x : Attacked) : HostileEvent → Option Attacked
  | .loan => x.call (do let _ ← Publisher.loan; return ())
  | .releaseLoan c => if c ∈ x.bus.calls.loans then x.call (Publisher.releaseLoan c) else none
  | .send c =>
      if c ∈ x.bus.calls.loans then x.call (do let _ ← Publisher.send c; return ()) else none
  | .checkLiveness => x.call (do let _ ← Publisher.checkLiveness; return ())
  | .publisher n => (x.pub.step n x.bus).map fun (p, b) => ⟨b, p⟩
  | .scribble slot futex stats alive ns =>
      some { x with bus := { x.bus with
        slot := slot, futex := futex, stats := stats, alive := alive, clock := x.bus.clock + ns } }

end Attacked

/-- **A service among hostile subscribers**, for every configuration that the constructor
accepts and that has fewer than `2^16` slots. -/
def attacked : Machine Attacked HostileEvent where
  init x := ∃ cfg typeSize typeAlign l pid now, cfg.maxSubscribers.toNat < 2 ^ 16 ∧
    Layout.computeLayout cfg typeSize typeAlign = some l ∧ l.chunkCount.toNat ≤ 65535 ∧
    x = ⟨Bus.create cfg l pid now, .ret ()⟩
  next := Attacked.next

/-! ## The protocol -/

/-- The bookkeeping is in order. -/
structure Kept (h : Header) (b : Bus) : Prop where
  hdr : b.hdr = h
  subs_lt : h.maxSubscribers < 2 ^ 16
  pool : PoolOk h b.book b.calls
  nodup : b.book.activeList.Nodup
  listed : ∀ s ∈ b.book.activeList, s < h.maxSubscribers

/-- Nobody else changes the header and the publisher's members.  No slot is listed twice. -/
def hostile (h : Header) : Protocol Bus where
  inv := Kept h
  rely b d := d.book = b.book ∧ d.calls = b.calls
  guar _ _ := True
  assumed b := b.book.activeList.Nodup
  total := False
  rely_refl _ := ⟨rfl, rfl⟩
  rely_trans h h' := ⟨h'.1.trans h.1, h'.2.trans h.2⟩
  guar_refl _ := trivial

/-- The calls are still those of `a`, as far as chunks are concerned, and the chunk that is being
sent, if any, has not been given to anyone in `slots`. -/
structure Untaken (a : Calls) (slots : ℕ → Prop) (b : Bus) : Prop where
  loans : b.calls.loans = a.loans
  sending : b.calls.sending = a.sending
  loansOut : b.calls.loansOut = a.loansOut
  fresh : ∀ c, a.sending = some c → ∀ s, slots s → b.book.outstanding s c = 0

section Rules

open Prog

variable {h : Header} {α β : Type} {Q : α → Bus → Prop} {b d : Bus}

/-- A load. -/
theorem hostile_read {g : Bus → β} {k : β → Prog Bus α}
    (hk : ∀ t, (hostile h).rely b t → Kept h t → (k (g t)).wp (hostile h) Q t) :
    (Prog.read g >>= k).wp (hostile h) Q b :=
  wp_read hk

/-- A step on the publisher's members. -/
theorem hostile_update {g : Bus → β × Bus} {k : β → Prog Bus α}
    (hk : ∀ t, (hostile h).rely b t → Kept h t → (g t).2.book.activeList.Nodup →
      Kept h (g t).2 ∧ (k (g t).1).wp (hostile h) Q (g t).2) :
    (Prog.update g >>= k).wp (hostile h) Q b := by
  refine wp_update fun t hr hi ha => ?_
  obtain ⟨hkept, hrest⟩ := hk t hr hi ha
  exact ⟨hkept, trivial, hrest⟩

theorem hostile_write {g : Bus → Bus} {k : Unit → Prog Bus α}
    (hk : ∀ t, (hostile h).rely b t → Kept h t → (g t).book.activeList.Nodup →
      Kept h (g t) ∧ (k ()).wp (hostile h) Q (g t)) :
    (Prog.write g >>= k).wp (hostile h) Q b := by
  refine wp_write fun t hr hi ha => ?_
  obtain ⟨hkept, hrest⟩ := hk t hr hi ha
  exact ⟨hkept, trivial, hrest⟩

/-- A store to the shared segments. -/
theorem hostile_store {g : Bus → Bus} {k : Unit → Prog Bus α}
    (hg : ∀ t, (g t).hdr = t.hdr ∧ (g t).book = t.book ∧ (g t).calls = t.calls)
    (hk : ∀ t, (hostile h).rely b t → Kept h t → (k ()).wp (hostile h) Q t) :
    (Prog.write g >>= k).wp (hostile h) Q b := by
  refine hostile_write fun t hr hi _ => ?_
  obtain ⟨hhdr, hbook, hcalls⟩ := hg t
  have hkept : Kept h (g t) :=
    ⟨by rw [hhdr]; exact hi.hdr, hi.subs_lt, by rw [hbook, hcalls]; exact hi.pool,
      by rw [hbook]; exact hi.nodup, by rw [hbook]; exact hi.listed⟩
  exact ⟨hkept, hk _ ⟨hbook.trans hr.1, hcalls.trans hr.2⟩ hkept⟩

end Rules

/-! ## Slots -/

section Slots

open Prog

variable {h : Header} {b d : Bus} {a : Calls} {slots : ℕ → Prop} {s : ℕ}

theorem Untaken.rely (t : Untaken a slots b) (hr : (hostile h).rely b d) : Untaken a slots d := by
  obtain ⟨hbook, hcalls⟩ := hr
  exact ⟨by rw [hcalls]; exact t.loans, by rw [hcalls]; exact t.sending,
    by rw [hcalls]; exact t.loansOut, by rw [hbook]; exact t.fresh⟩

/-- `release_ref` of whatever a ring of the slot contains. -/
theorem Untaken.release (t : Untaken a slots b) (hi : Kept h b) (hs : slots s) {c : ℕ}
    (hhdr : d.hdr = b.hdr) (hbook : d.book = b.book.releaseRef h s c) (hcalls : d.calls = b.calls) :
    Kept h d ∧ Untaken a slots d := by
  have hlist : d.book.activeList = b.book.activeList := by
    rw [hbook]
    exact congrArg (fun t => t.2.2.1) Book.releaseRef_slots
  refine ⟨⟨hhdr.trans hi.hdr, hi.subs_lt, ?_, hlist ▸ hi.nodup, hlist ▸ hi.listed⟩,
    by rw [hcalls]; exact t.loans, by rw [hcalls]; exact t.sending,
    by rw [hcalls]; exact t.loansOut, fun c' hc' s' hs' => ?_⟩
  · rw [hbook, hcalls]
    refine hi.pool.releaseRef hi.subs_lt fun hout hsend => hout ?_
    exact t.fresh c (t.sending.symm.trans hsend) s hs
  · rw [hbook]
    by_cases hc : c < h.chunkCount
    · rw [Book.releaseRef_apply hc (hi.pool.one s c), t.fresh c' hc' s' hs']
      split_ifs <;> rfl
    · rw [Book.releaseRef_of_ge (Nat.le_of_not_lt hc)]
      exact t.fresh c' hc' s' hs'

/-- `drain_done`. -/
theorem drainDone_hostile (t : Untaken a slots b) (hs : slots s) :
    (Publisher.drainDone s).wp (hostile h) (fun _ d => Untaken a slots d) b := by
  refine hostile_read fun b₁ h₁ _ => ?_
  refine hostile_read fun b₂ h₂ _ => ?_
  refine hostile_read fun b₃ h₃ _ => ?_
  have t₃ := ((t.rely h₁).rely h₂).rely h₃
  split
  · exact t₃
  · refine wp_loop (fun _ d => Untaken a slots d) id (fun _ _ _ t hr _ => t.rely hr) t₃
      fun tail d td => ?_
    split
    · exact hostile_store (fun _ => ⟨rfl, rfl, rfl⟩) fun _ hr _ => td.rely hr
    · refine hostile_write fun e he hi _ => ?_
      rw [hi.hdr]
      exact (td.rely he).release hi hs rfl rfl rfl

/-- `reclaim_slot`. -/
theorem reclaimSlot_hostile (t : Untaken a slots b) (hs : slots s) :
    (Publisher.reclaimSlot s).wp (hostile h) (fun _ d => Untaken a slots d) b := by
  refine wp_seq (drainDone_hostile t hs) fun _ b₁ t₁ => ?_
  refine hostile_write fun b₂ h₂ hi _ => ?_
  have t₂ := t₁.rely h₂
  rw [hi.hdr]
  obtain ⟨hpool, hslots, hrow, hrest⟩ := hi.pool.reclaimChunks (s := s) hi.subs_lt
    fun c hc => t₂.fresh c (t₂.sending.symm.trans hc) s hs
  have hlist : (b₂.book.reclaimChunks h s).activeList = b₂.book.activeList :=
    congrArg (fun t => t.2.2.1) hslots
  refine ⟨⟨hi.hdr, hi.subs_lt, hpool, ?_, ?_⟩, ?_⟩
  · exact hlist ▸ hi.nodup
  · exact hlist ▸ hi.listed
  refine wp_seq (wp_fold (fun _ _ d => Untaken a slots d) ?_ ?_) ?_
  · refine ⟨t₂.loans, t₂.sending, t₂.loansOut, fun c hc s' hs' => ?_⟩
    show (b₂.book.reclaimChunks h s).outstanding s' c = 0
    by_cases heq : s' = s
    · rw [heq, hrow]
    · rw [hrest s' heq]
      exact t₂.fresh c hc s' hs'
  · intro w _ _ d td
    refine wp_last (hostile_store (fun e => ?_) fun _ hr _ => td.rely hr)
    cases w <;> exact ⟨rfl, rfl, rfl⟩
  · intro _ d td
    refine hostile_write fun e he hi _ => ?_
    have te := td.rely he
    refine ⟨⟨hi.hdr, hi.subs_lt, ?_, hi.nodup, hi.listed⟩,
      te.loans, te.sending, te.loansOut, te.fresh⟩
    exact hi.pool.setSlots _ _ _ _ _

/-- The other members of the publisher do not matter. -/
theorem Untaken.members (t : Untaken a slots b) (hi : Kept h b) (hhdr : d.hdr = b.hdr)
    (hfree : d.book.free = b.book.free) (href : d.book.refcount = b.book.refcount)
    (hout : d.book.outstanding = b.book.outstanding)
    (hcalls : d.calls.loans = b.calls.loans ∧ d.calls.sending = b.calls.sending ∧
      d.calls.loansOut = b.calls.loansOut)
    (hnodup : d.book.activeList.Nodup) (hlisted : ∀ s ∈ d.book.activeList, s < h.maxSubscribers) :
    Kept h d ∧ Untaken a slots d := by
  obtain ⟨hloans, hsending, hloansOut⟩ := hcalls
  have p := hi.pool
  refine ⟨⟨hhdr.trans hi.hdr, hi.subs_lt, ⟨?_, ?_, ?_, ?_, ?_, ?_, ?_⟩, hnodup, hlisted⟩,
    hloans.trans t.loans, hsending.trans t.sending, hloansOut.trans t.loansOut, hout ▸ t.fresh⟩
  · rw [href, hout]
    exact p.refs
  · rw [hout]
    exact p.one
  · rw [hout]
    exact p.beyond
  · rw [hout]
    exact p.bounded
  · rw [hfree, href, hloans, hsending]
    exact p.place
  · rw [hloans, hloansOut]
    exact p.loansOut
  · rw [hloans]
    exact p.loans_le

/-- A slot may be listed a second time; what follows is about the runs in which it is not. -/
theorem rebuildActiveList_hostile (t : Untaken a slots b) :
    Publisher.rebuildActiveList.wp (hostile h) (fun _ d => Untaken a slots d) b := by
  refine hostile_read fun b₁ h₁ i₁ => ?_
  refine hostile_write fun b₂ h₂ i₂ _ => ?_
  obtain ⟨hkept, t₂⟩ := ((t.rely h₁).rely h₂).members i₂
    (d := b₂.setBook fun k => { k with activeList := [] }) rfl rfl rfl rfl ⟨rfl, rfl, rfl⟩
    List.nodup_nil fun s hs => absurd hs List.not_mem_nil
  refine ⟨hkept, ?_⟩
  refine wp_mono (wp_fold (fun _ _ d => Untaken a slots d) t₂ ?_) fun _ _ h => h
  intro pass _ _ d td
  refine wp_mono (wp_fold (fun rest _ d => Untaken a slots d ∧
    ∀ s ∈ rest, s < h.maxSubscribers) ⟨td, fun s hs => ?_⟩ ?_) fun _ _ h => h.1
  · rw [← i₁.hdr]
    exact List.mem_range.mp hs
  · rintro s rest _ e ⟨te, hrest⟩
    refine hostile_read fun b₃ h₃ _ => ?_
    refine hostile_write fun b₄ h₄ i₄ hnodup => ?_
    have hlisted : ∀ r ∈ (if b₄.book.active s = true ∧
        decide ((b₃.slot s).overflow = .block) = pass then
          { b₄.book with activeList := b₄.book.activeList ++ [s] } else b₄.book).activeList,
        r < h.maxSubscribers := by
      intro r hr
      split_ifs at hr
      · rcases List.mem_append.mp hr with hr | hr
        · exact i₄.listed r hr
        · rw [List.mem_singleton.mp hr]
          exact hrest s List.mem_cons_self
      · exact i₄.listed r hr
    obtain ⟨hkept, t₄⟩ := ((te.rely h₃).rely h₄).members i₄ (d := b₄.setBook fun k =>
      if k.active s = true ∧ decide ((b₃.slot s).overflow = .block) = pass then
        { k with activeList := k.activeList ++ [s] } else k) rfl
      (by show (ite _ _ _ : Book).free = _; split_ifs <;> rfl)
      (by show (ite _ _ _ : Book).refcount = _; split_ifs <;> rfl)
      (by show (ite _ _ _ : Book).outstanding = _; split_ifs <;> rfl) ⟨rfl, rfl, rfl⟩ hnodup hlisted
    exact ⟨hkept, t₄, fun r hr => hrest r (List.mem_cons_of_mem _ hr)⟩

end Slots

/-! ## Scans -/

section Scans

open Prog

variable {h : Header} {b d : Bus} {a : Calls} {s : ℕ}

/-- Nobody has been given the chunk that is being sent. -/
def Unsent (a : Calls) (b : Bus) : Prop := Untaken a (fun _ => True) b

theorem Unsent.rely (t : Unsent a b) (hr : (hostile h).rely b d) : Unsent a d := Untaken.rely t hr

theorem scanSlot_hostile (t : Unsent a b) (changed : Bool) :
    (Publisher.scanSlot changed s).wp (hostile h) (fun _ d => Unsent a d) b := by
  refine hostile_read fun b₁ h₁ _ => ?_
  refine hostile_read fun b₂ h₂ _ => ?_
  have t₂ := (t.rely h₁).rely h₂
  split
  · refine hostile_read fun b₃ h₃ _ => ?_
    refine wp_seq (R := fun _ d => Unsent a d) ?_ fun fd b₄ t₄ => ?_
    · refine wp_choose fun n => wp_last (hostile_read fun b₄ h₄ _ => ?_)
      exact (t₂.rely h₃).rely h₄
    · split
      · exact wp_seq (reclaimSlot_hostile t₄ trivial) fun _ _ t => t
      · refine hostile_write fun b₅ h₅ i₅ _ => ?_
        exact (t₄.rely h₅).members i₅ rfl rfl rfl rfl ⟨rfl, rfl, rfl⟩ i₅.nodup i₅.listed
  · split
    · exact wp_seq (reclaimSlot_hostile t₂ trivial) fun _ _ t => t
    · exact t₂

theorem scanSlots_hostile (t : Unsent a b) :
    Publisher.scanSlots.wp (hostile h) (fun _ d => Unsent a d) b := by
  refine hostile_update fun b₁ h₁ i₁ _ => ?_
  obtain ⟨hkept, t₁⟩ := (t.rely h₁).members i₁ (d := (b₁.setBook fun k =>
      { k with ripe := fun s => k.ripe s || Publisher.activeNow b₁ s }).setCalls fun a =>
    { a with overlooked := a.overlooked || (List.range b₁.hdr.maxSubscribers).any fun s =>
      b₁.book.ripe s && !b₁.book.active s }) rfl rfl rfl rfl ⟨rfl, rfl, rfl⟩ i₁.nodup i₁.listed
  refine ⟨hkept, ?_⟩
  refine wp_seq (wp_fold (fun _ _ d => Unsent a d) t₁ fun s _ changed d td =>
    scanSlot_hostile td changed) fun changed d td => ?_
  split
  · exact rebuildActiveList_hostile td
  · exact td

theorem slotDead_hostile {st : SlotState} {pid : ℕ} (t : Unsent a b) :
    (Publisher.slotDead s st pid).wp (hostile h) (fun _ d => Unsent a d) b := by
  refine hostile_read fun b₁ h₁ _ => ?_
  have t₁ := t.rely h₁
  split
  · refine hostile_read fun b₂ h₂ _ => ?_
    have t₂ := t₁.rely h₂
    refine wp_seq (R := fun _ d => Unsent a d) ?_ fun _ _ t => t
    unfold Os.pidfdAlive
    split
    · exact t₂
    · refine wp_choose fun n => wp_last (hostile_read fun b₃ h₃ _ => ?_)
      exact t₂.rely h₃
  split
  · unfold Publisher.graceTest
    refine wp_last (hostile_update fun b₂ h₂ i₂ _ => ?_)
    exact (t₁.rely h₂).members i₂ rfl rfl rfl rfl ⟨rfl, rfl, rfl⟩ i₂.nodup i₂.listed
  split
  · refine wp_seq (R := fun _ d => Unsent a d) ?_ fun _ _ t => t
    unfold Os.processAlive
    split
    · exact t₁
    · refine wp_choose fun n => wp_last (hostile_read fun b₃ h₃ _ => ?_)
      exact t₁.rely h₃
  · exact t₁

theorem checkSlot_hostile (t : Unsent a b) (reaped : ℕ) :
    (Publisher.checkSlot reaped s).wp (hostile h) (fun _ d => Unsent a d) b := by
  refine hostile_read fun b₁ h₁ _ => ?_
  refine hostile_read fun b₂ h₂ _ => ?_
  refine wp_seq (slotDead_hostile ((t.rely h₁).rely h₂)) fun dead b₃ t₃ => ?_
  refine hostile_write fun b₄ h₄ i₄ _ => ?_
  have hreclaim : ∀ {e : Bus}, Unsent a e → (if dead then do
      Publisher.reclaimSlot s
      return reaped + 1
    else return reaped : Prog Bus ℕ).wp (hostile h) (fun _ d => Unsent a d) e := by
    intro e te
    split
    · exact wp_seq (reclaimSlot_hostile te trivial) fun _ _ t => t
    · exact te
  by_cases hc : (b₁.slot s).state ≠ .claimed ∨ (b₂.slot s).pid ≠ 0
  · simp only [if_pos hc]
    obtain ⟨hkept, t₄⟩ := (t₃.rely h₄).members i₄ (d := b₄.setBook fun k =>
      { k with claimedSince := Function.update k.claimedSince s 0 }) rfl rfl rfl rfl ⟨rfl, rfl, rfl⟩
      i₄.nodup i₄.listed
    exact ⟨hkept, hreclaim t₄⟩
  · simp only [if_neg hc]
    exact ⟨i₄, hreclaim (t₃.rely h₄)⟩

theorem checkLiveness_hostile (t : Unsent a b) :
    Publisher.checkLiveness.wp (hostile h) (fun _ d => Unsent a d) b := by
  refine wp_seq (scanSlots_hostile t) fun _ b₁ t₁ => ?_
  refine hostile_read fun b₂ h₂ _ => ?_
  refine wp_seq (wp_fold (fun _ _ d => Unsent a d) (t₁.rely h₂) fun s _ reaped d td =>
    checkSlot_hostile td reaped) fun reaped d td => ?_
  split
  · exact wp_seq (rebuildActiveList_hostile td) fun _ _ t => t
  · exact td

end Scans

/-! ## Calls -/

section Calls

open Prog

variable {h : Header} {b d : Bus} {s c : ℕ}

/-- No sample is being sent. -/
def Resting (b : Bus) : Prop := b.calls.sending = none

theorem Resting.unsent (t : Resting b) : Unsent b.calls b :=
  ⟨rfl, rfl, rfl, fun _ hc => nomatch hc.symm.trans t⟩

theorem Unsent.resting (t : Unsent b.calls d) (hb : Resting b) : Resting d := t.sending.trans hb

theorem loan_hostile (t : Resting b) :
    Publisher.loan.wp (hostile h) (fun _ d => Resting d) b := by
  refine hostile_read fun b₁ h₁ i₁ => ?_
  have t₁ := t.unsent.rely h₁
  split
  · exact t₁.resting t
  next hlimit =>
  rw [decide_eq_true_iff, not_le] at hlimit
  have hpop : ∀ {e : Bus}, Unsent b.calls e →
      Publisher.popFree.wp (hostile h) (fun _ d => Resting d) e := by
    intro e te
    refine wp_last (hostile_update fun e' he i' _ => ?_)
    have te' := te.rely he
    cases hf : e'.book.free with
    | nil => exact ⟨i', te'.resting t⟩
    | cons c rest =>
        have hlt : e'.calls.loansOut < h.maxLoans := by
          rw [te'.loansOut, ← t₁.loansOut, ← i₁.hdr]
          exact hlimit
        exact ⟨⟨i'.hdr, i'.subs_lt, i'.pool.pop hf hlt, i'.nodup, i'.listed⟩, te'.resting t⟩
  refine hostile_read fun b₂ h₂ _ => ?_
  refine wp_seq (wp_fold (fun _ _ d => Unsent b.calls d) (t₁.rely h₂) fun s _ _ d td =>
    drainDone_hostile td trivial) fun _ b₃ t₃ => ?_
  refine hostile_read fun b₄ h₄ _ => ?_
  have t₄ := t₃.rely h₄
  split
  · refine wp_seq (scanSlots_hostile t₄) fun _ b₅ t₅ => ?_
    refine hostile_read fun b₆ h₆ _ => ?_
    have t₆ := t₅.rely h₆
    split
    · refine hostile_store (fun _ => ⟨rfl, rfl, rfl⟩) fun b₇ h₇ _ => ?_
      exact (t₆.rely h₇).resting t
    · exact hpop t₆
  · exact hpop t₄

/-- `release_loan`. -/
theorem releaseLoan_hostile (t : Resting b) (hc : c ∈ b.calls.loans) :
    (Publisher.releaseLoan c).wp (hostile h) (fun _ d => Resting d) b := by
  refine hostile_write fun b₁ h₁ i₁ _ => ?_
  have hc₁ : c ∈ b₁.calls.loans := by
    rw [h₁.2]
    exact hc
  exact ⟨⟨i₁.hdr, i₁.subs_lt, i₁.pool.releaseLoan hc₁, i₁.nodup, i₁.listed⟩,
    (t.unsent.rely h₁).resting t⟩

end Calls

/-! ## Deliveries -/

section Deliver

open Prog

variable {h : Header} {b d : Bus} {a : Calls} {slots : ℕ → Prop} {s c : ℕ}

/-- A program that leaves the publisher's members alone. -/
theorem hostile_same {α : Type} {p : Prog Bus α} (hp : p.Within Bus.SameBook)
    (t : Untaken a slots b) : p.wp (hostile h) (fun _ d => Untaken a slots d) b := by
  refine wp_of_within (fun d => Untaken a slots d) ?_ hp ?_ ?_ t
  · exact id
  · intro e e' te hi hs
    have hrely : (hostile h).rely e e' := ⟨hs.book, hs.calls⟩
    have hkept : Kept h e' := ⟨hs.hdr.trans hi.hdr, hi.subs_lt,
      by rw [hs.book, hs.calls]; exact hi.pool, by rw [hs.book]; exact hi.nodup,
      by rw [hs.book]; exact hi.listed⟩
    exact ⟨te.rely hrely, hkept, trivial⟩
  · exact fun _ _ te hr _ => te.rely hr

/-- An eviction, of whatever the ring contains. -/
theorem evictRound_hostile {tail cap blockStart : ℕ} {report : SendReport} (t : Untaken a slots b)
    (hs : slots s) : (Publisher.evictRound s tail cap blockStart report).wp (hostile h)
      (fun _ d => Untaken a slots d) b := by
  refine hostile_read fun b₁ h₁ _ => ?_
  refine hostile_update fun b₂ h₂ i₂ _ => ?_
  have t₂ := (t.rely h₁).rely h₂
  split
  · rw [i₂.hdr]
    obtain ⟨hkept, t₃⟩ := t₂.release i₂ hs (d := ((b₂.setBook fun k => k.releaseRef h s
        ((b₁.slot s).dataRing (tail &&& (cap - 1)))).setSlot s
          fun w => { w with dataTail := tail + 1 }).setLed s fun l => { l with
            evicted := l.evicted ++ (l.pushed[tail]?).toList
            fullAt := l.fullAt ++ [(b₂.slot s).dataHead - (b₂.slot s).dataTail] }) rfl rfl rfl
    refine ⟨hkept, ?_⟩
    rw [if_pos rfl]
    exact hostile_store (fun _ => ⟨rfl, rfl, rfl⟩) fun _ hr _ => t₃.rely hr
  · refine ⟨i₂, ?_⟩
    rw [if_neg Bool.false_ne_true]
    exact t₂

theorem admitRound_hostile {head cap blockStart : ℕ} {policy : Overflow} {report : SendReport}
    (t : Untaken a slots b) (hs : slots s) :
    (Publisher.admitRound s head cap policy blockStart report).wp (hostile h)
      (fun _ d => Untaken a slots d) b := by
  refine hostile_update fun b₁ h₁ i₁ _ => ?_
  obtain ⟨hkept, t₁⟩ := (t.rely h₁).members i₁ (d := b₁.setLed s fun l =>
    { l with seen := (b₁.slot s).dataHead - (b₁.slot s).dataTail }) rfl rfl rfl rfl ⟨rfl, rfl, rfl⟩
    i₁.nodup i₁.listed
  refine ⟨hkept, ?_⟩
  split
  · exact t₁
  split
  · exact hostile_store (fun _ => ⟨rfl, rfl, rfl⟩) fun _ hr _ => t₁.rely hr
  · exact evictRound_hostile t₁ hs
  · exact hostile_same blockRound_book t₁
  · exact t₁

/-- **A delivery** to a slot that has not been given the chunk yet. -/
theorem deliver_hostile {chunk : ℕ} {report : SendReport} {rest : List ℕ}
    (t : Untaken a (· ∈ s :: rest) b) (hsend : a.sending = some chunk) (hs : s < h.maxSubscribers)
    (hnot : s ∉ rest) :
    (Publisher.deliver chunk report s).wp (hostile h) (fun _ d => Untaken a (· ∈ rest) d) b := by
  have hweak : ∀ {e : Bus}, Untaken a (· ∈ s :: rest) e → Untaken a (· ∈ rest) e := fun te =>
    ⟨te.loans, te.sending, te.loansOut,
      fun c hc s' hs' => te.fresh c hc s' (List.mem_cons_of_mem _ hs')⟩
  refine hostile_read fun b₁ h₁ _ => ?_
  refine hostile_read fun b₂ h₂ _ => ?_
  refine hostile_read fun b₃ h₃ _ => ?_
  refine wp_loop (fun _ d => Untaken a (· ∈ s :: rest) d) id (fun _ _ _ t hr _ => t.rely hr)
    (((t.rely h₁).rely h₂).rely h₃) fun _ d td => ?_
  refine wp_mono (admitRound_hostile td List.mem_cons_self) ?_
  rintro (_ | ⟨blockStart, report⟩ | report) e te
  · exact te
  · refine wp_seq (hostile_same chargeBlocked_book te) fun _ e₁ t₁ => ?_
    refine hostile_store (fun _ => ⟨rfl, rfl, rfl⟩) fun e₂ h₂ _ => ?_
    refine hostile_write fun e₃ h₃ i₃ _ => ?_
    have t₃ := (t₁.rely h₂).rely h₃
    have hfresh := t₃.fresh chunk hsend s List.mem_cons_self
    have hpool := i₃.pool.addRef i₃.subs_lt hs (t₃.sending.trans hsend) hfresh
    refine ⟨⟨i₃.hdr, i₃.subs_lt, ?_, i₃.nodup, i₃.listed⟩, ?_⟩
    · exact ⟨hpool.refs, hpool.one, hpool.beyond, hpool.bounded, hpool.place, hpool.loansOut,
        hpool.loans_le⟩
    refine hostile_store (fun _ => ⟨rfl, rfl, rfl⟩) fun e₄ h₄ _ => ?_
    refine wp_seq (hostile_same wakeSubscriber_book (Untaken.rely (h := h) ?_ h₄))
      fun _ _ t => t
    refine ⟨t₃.loans, t₃.sending, t₃.loansOut, fun c hc s' hs' => ?_⟩
    have hne : s' ≠ s := fun heq => hnot (heq ▸ hs')
    show (e₃.book.addRef s chunk).outstanding s' c = 0
    rw [← t₃.fresh c hc s' (List.mem_cons_of_mem _ hs')]
    exact congrFun (Function.update_of_ne hne _ _) c
  · exact hweak te

/-- **`send`**, of a chunk on loan. -/
theorem send_hostile {chunk : ℕ} (t : Resting b) (hc : chunk ∈ b.calls.loans) :
    (Publisher.send chunk).wp (hostile h) (fun _ d => Resting d) b := by
  refine hostile_update fun b₁ h₁ i₁ _ => ?_
  have hc₁ : chunk ∈ b₁.calls.loans := by
    rw [h₁.2]
    exact hc
  have hbegin := i₁.pool.beginSend hc₁ ((t.unsent.rely h₁).resting t) (b₁.calls.nextSeq + 1)
  refine ⟨⟨i₁.hdr, i₁.subs_lt, hbegin, i₁.nodup, i₁.listed⟩, ?_⟩
  -- the calls while the chunk is being sent
  generalize ha : ({ b₁.calls with
    loansOut := b₁.calls.loansOut - 1
    loans := b₁.calls.loans.erase chunk
    sending := some chunk
    sentTo := []
    nextSeq := b₁.calls.nextSeq + 1 } : Calls) = a
  have hsend : a.sending = some chunk := by rw [← ha]
  have t₁ : Unsent a (b₁.setCalls fun _ => a) := by
    refine ⟨rfl, rfl, rfl, fun c hc s _ => ?_⟩
    obtain rfl : chunk = c := Option.some.inj (hsend.symm.trans hc)
    exact i₁.pool.outstanding_of_loan hc₁ s
  have heq : (b₁.setCalls fun _ => a) = b₁.setCalls fun c => { c with
      loansOut := c.loansOut - 1
      loans := c.loans.erase chunk
      sending := some chunk
      sentTo := []
      nextSeq := c.nextSeq + 1 } := by
    unfold Bus.setCalls
    rw [← ha]
  rw [heq] at t₁
  refine hostile_store (fun _ => ⟨rfl, rfl, rfl⟩) fun b₂ h₂ _ => ?_
  refine hostile_store (fun _ => ⟨rfl, rfl, rfl⟩) fun b₃ h₃ _ => ?_
  refine wp_seq (scanSlots_hostile ((t₁.rely h₂).rely h₃)) fun _ b₄ t₄ => ?_
  refine hostile_read fun b₅ h₅ i₅ => ?_
  have t₅ := t₄.rely h₅
  refine wp_seq (wp_fold (fun rest _ d => Untaken a (· ∈ rest) d ∧ rest.Nodup ∧
    ∀ s ∈ rest, s < h.maxSubscribers) ⟨?_, i₅.nodup, i₅.listed⟩ ?_) ?_
  · exact ⟨t₅.loans, t₅.sending, t₅.loansOut, fun c hc s _ => t₅.fresh c hc s trivial⟩
  · rintro s rest report d ⟨td, hnodup, hlt⟩
    obtain ⟨hnot, hrest⟩ := List.nodup_cons.mp hnodup
    refine wp_mono (deliver_hostile td hsend (hlt s List.mem_cons_self) hnot) fun _ e te => ?_
    exact ⟨te, hrest, fun s' hs' => hlt s' (List.mem_cons_of_mem _ hs')⟩
  · rintro report b₆ ⟨t₆, -, -⟩
    refine hostile_write fun b₇ h₇ i₇ _ => ?_
    have t₇ := t₆.rely h₇
    have hlist : (b₇.book.freeIfUnused chunk).activeList = b₇.book.activeList :=
      congrArg (fun t => t.2.2.1) Book.freeIfUnused_slots
    have hend := i₇.pool.endSend (t₇.sending.trans hsend)
      (b₇.calls.reports ++ [(report, b₅.book.activeList.length)])
    refine ⟨⟨i₇.hdr, i₇.subs_lt, hend, hlist ▸ i₇.nodup, hlist ▸ i₇.listed⟩, ?_⟩
    refine hostile_store (fun _ => ⟨rfl, rfl, rfl⟩) fun b₈ h₈ _ => ?_
    refine hostile_update fun b₉ h₉ i₉ _ => ?_
    have hrest₈ : Resting b₈ := congrArg Calls.sending h₈.2
    have hrest₉ : Resting b₉ := (hrest₈.unsent.rely h₉).resting hrest₈
    have hcount : ∀ n, Kept h (b₉.setCalls fun a => { a with sendsSinceLiveness := n }) ∧
        Unsent b₉.calls (b₉.setCalls fun a => { a with sendsSinceLiveness := n }) := fun n =>
      hrest₉.unsent.members i₉ rfl rfl rfl rfl ⟨rfl, rfl, rfl⟩ i₉.nodup i₉.listed
    split
    · dsimp only
      split
      · refine ⟨(hcount _).1, ?_⟩
        rw [if_pos rfl]
        exact wp_seq (checkLiveness_hostile (hcount _).2) fun _ _ t => t.resting hrest₉
      · exact ⟨(hcount _).1, (hcount _).2.resting hrest₉⟩
    · exact ⟨i₉, hrest₉⟩

end Deliver

/-! ## Runs -/

/-- The bookkeeping is in order and the publisher's program keeps it so. -/
structure AttackedInv (h : Header) (x : Attacked) : Prop where
  kept : Kept h x.bus
  pub : x.pub.wp (hostile h) (fun _ d => Resting d) x.bus

/-- `rebuild_active_list` does not find `Block`, in its second pass, in a slot that it has listed
in its first. -/
def Consistent (x : Attacked) (e : HostileEvent) : Prop :=
  ∀ y, x.next e = some y → y.bus.book.activeList.Nodup

namespace AttackedInv

variable {h : Header} {x y : Attacked} {e : HostileEvent}

theorem init (hx : attacked.init x) : AttackedInv x.bus.hdr x := by
  obtain ⟨cfg, typeSize, typeAlign, l, pid, now, hsubs, -, -, rfl⟩ := hx
  refine ⟨⟨rfl, hsubs, ⟨fun c => ?_, fun _ _ => Nat.zero_le _, fun _ _ _ => rfl, fun _ _ _ => rfl,
    fun c => ?_, rfl, Nat.zero_le _⟩, List.nodup_nil, fun s hs => absurd hs List.not_mem_nil⟩, ?_⟩
  · exact Finset.sum_const_zero.symm
  · show (List.range l.chunkCount.toNat).count c + 0 + 0 + 0 =
      if c < l.chunkCount.toNat then 1 else 0
    rw [List.nodup_range.count]
    simp only [List.mem_range, Nat.add_zero]
  · exact (rfl : (Bus.create cfg l pid now).calls.sending = none)

theorem call {p : Prog Bus Unit} (inv : AttackedInv h x)
    (hp : Resting x.bus → p.wp (hostile h) (fun _ d => Resting d) x.bus)
    (hn : x.call p = some y) : AttackedInv h y := by
  unfold Attacked.call at hn
  split at hn
  · next hret =>
    cases hn
    exact ⟨inv.kept, hp (Prog.wp_returned inv.pub hret)⟩
  · cases hn

/-- **The invariant is kept by every step** that lists no slot twice. -/
theorem next (inv : AttackedInv h x) (hok : Consistent x e) (hn : x.next e = some y) :
    AttackedInv h y := by
  cases e with
  | loan =>
      refine inv.call (fun t => ?_) hn
      exact Prog.wp_seq (loan_hostile t) fun _ _ t => t
  | releaseLoan c =>
      dsimp only [Attacked.next] at hn
      split at hn
      · next hc => exact inv.call (fun t => releaseLoan_hostile t hc) hn
      · cases hn
  | send c =>
      dsimp only [Attacked.next] at hn
      split at hn
      · next hc =>
        refine inv.call (fun t => ?_) hn
        exact Prog.wp_seq (send_hostile t hc) fun _ _ t => t
      · cases hn
  | checkLiveness =>
      refine inv.call (fun t => ?_) hn
      exact Prog.wp_seq (checkLiveness_hostile t.unsent) fun _ _ u => u.resting t
  | publisher n =>
      have hnodup := hok y hn
      obtain ⟨⟨p, b⟩, hs, rfl⟩ := Option.map_eq_some_iff.mp hn
      obtain ⟨hkept, -, hp⟩ := Prog.wp_step inv.pub inv.kept hs hnodup
      exact ⟨hkept, hp⟩
  | scribble slot futex stats alive ns =>
      cases hn
      have hkept : Kept h { x.bus with
          slot := slot, futex := futex, stats := stats, alive := alive,
          clock := x.bus.clock + ns } :=
        ⟨inv.kept.hdr, inv.kept.subs_lt, inv.kept.pool, inv.kept.nodup, inv.kept.listed⟩
      refine ⟨hkept, Prog.wp_rely (fun _ u v t hr _ => ?_) inv.pub ⟨rfl, rfl⟩ hkept⟩
      exact (t.unsent.rely hr).resting t

theorem of_reach (hx : attacked.Reach Consistent x) : ∃ h, AttackedInv h x :=
  hx.invariant (P := fun x => ∃ h, AttackedInv h x) (fun _ hs => ⟨_, init hs⟩)
    fun _ _ _ ⟨h, inv⟩ hok hn => ⟨h, inv.next hok hn⟩

end AttackedInv

/-- Whatever the subscribers do, the chunks and references are those of a book that the steps of
the publisher lead to. -/
theorem attacked_book {x : Attacked} (h : attacked.Reach Machine.Always x) :
    x.bus.book.Reached x.bus.hdr := by
  have hinv := h.invariant
    (P := fun x => x.pub.Within Bus.OwnStep ∧ x.bus.book.Reached x.bus.hdr) ?_ ?_
  · exact hinv.2
  · rintro x ⟨cfg, typeSize, typeAlign, l, pid, now, -, -, -, rfl⟩
    exact ⟨trivial, _, ⟨rfl, fun _ => rfl, fun _ _ => rfl⟩, .refl⟩
  · rintro x e y ⟨hpub, hbook⟩ - (hn : x.next e = some y)
    have hcall : ∀ {p : Prog Bus Unit}, p.Within Bus.OwnStep → x.call p = some y →
        y.pub.Within Bus.OwnStep ∧ y.bus.book.Reached y.bus.hdr := by
      intro p hp hc
      unfold Attacked.call at hc
      split at hc <;> cases hc
      exact ⟨hp, hbook⟩
    cases e with
    | loan => exact hcall (Prog.within_seq loan_own fun _ => by trivial) hn
    | checkLiveness => exact hcall (Prog.within_seq checkLiveness_own fun _ => by trivial) hn
    | releaseLoan c =>
        dsimp only [Attacked.next] at hn
        split at hn
        · exact hcall releaseLoan_own hn
        · cases hn
    | send c =>
        dsimp only [Attacked.next] at hn
        split at hn
        · exact hcall (Prog.within_seq send_own fun _ => by trivial) hn
        · cases hn
    | publisher n =>
        obtain ⟨⟨p, b⟩, hs, rfl⟩ := Option.map_eq_some_iff.mp hn
        obtain ⟨rfl | hown, hp⟩ := Prog.within_step hpub hs
        · exact ⟨hp, hbook⟩
        · refine ⟨hp, ?_⟩
          rw [hown.hdr]
          exact hbook.moves hown.book
    | scribble slot futex stats alive ns =>
        cases hn
        exact ⟨hpub, hbook⟩

/-! ### A small service -/

instance (x : Attacked) (e : HostileEvent) : Decidable (Consistent x e) :=
  decidable_of_iff ((x.next e).all (fun y => decide y.bus.book.activeList.Nodup) = true) <| by
    simp only [Option.all_eq_true, decide_eq_true_eq, Consistent]

/-- The small service. -/
def besieged : Attacked := ⟨tiny.bus, .ret ()⟩

theorem besieged_init : attacked.init besieged := by
  refine ⟨tinyConfig, 8, 8, _, 5, 1, by decide, rfl, by decide, ?_⟩
  rfl

/-- Its slot is made `Active`, with empty rings and the given policy. -/
def pose (overflow : Overflow) : HostileEvent :=
  .scribble (fun _ => { SlotWords.zero with state := .active, pid := 7, overflow := overflow })
    (fun _ => FutexWords.zero) (fun _ => SlotStats.zero) (fun _ => true) 0

/-! ## The bookkeeping between calls -/

/-- The publisher's private members agree with each other. -/
structure Bookkept (b : Bus) : Prop where
  refs : ∀ c, b.book.refcount c =
    ∑ s ∈ Finset.range b.hdr.maxSubscribers, b.book.outstanding s c
  nodup : b.book.free.Nodup
  free_lt : ∀ c ∈ b.book.free, c < b.hdr.chunkCount
  free_iff : ∀ c < b.hdr.chunkCount,
    c ∈ b.book.free ↔ b.book.refcount c = 0 ∧ c ∉ b.calls.loans
  partition : b.book.free.length + b.calls.loansOut +
    ((Finset.range b.hdr.chunkCount).filter fun c => 0 < b.book.refcount c).card = b.hdr.chunkCount

/-- A list of chunks has as many elements as its chunks have occurrences. -/
theorem sum_count {n : ℕ} {l : List ℕ} (hl : ∀ c ∈ l, c < n) :
    ∑ c ∈ Finset.range n, l.count c = l.length := by
  rw [← List.sum_toFinset_count_eq_length l]
  refine (Finset.sum_subset (fun c hc => ?_) fun c _ hc => ?_).symm
  · exact Finset.mem_range.mpr (hl c (List.mem_toFinset.mp hc))
  · exact List.count_eq_zero_of_not_mem (mt List.mem_toFinset.mpr hc)

theorem PoolOk.bookkept {b : Bus} (p : PoolOk b.hdr b.book b.calls) (hrest : Resting b) :
    Bookkept b := by
  have hplace : ∀ c, b.book.free.count c + b.calls.loans.count c +
      (if b.book.refcount c = 0 then 0 else 1) = if c < b.hdr.chunkCount then 1 else 0 := by
    intro c
    have hc := p.place c
    rw [show b.calls.sending = none from hrest] at hc
    simpa using hc
  have hlt : ∀ c, c ∈ b.book.free ∨ c ∈ b.calls.loans → c < b.hdr.chunkCount := by
    intro c hc
    have hplace := hplace c
    rw [← List.count_pos_iff, ← List.count_pos_iff] at hc
    by_contra hge
    rw [if_neg hge] at hplace
    omega
  refine ⟨p.refs, List.nodup_iff_count_le_one.mpr fun c => ?_, fun c hc => hlt c (.inl hc),
    fun c hc => ?_, ?_⟩
  · have := hplace c
    split_ifs at this <;> omega
  · have hplace := hplace c
    rw [if_pos hc] at hplace
    rw [← List.count_pos_iff, ← List.count_eq_zero]
    split_ifs at hplace with h0 <;> omega
  · have hsum : ∑ c ∈ Finset.range b.hdr.chunkCount, (b.book.free.count c + b.calls.loans.count c +
        if b.book.refcount c = 0 then 0 else 1) = b.hdr.chunkCount := by
      rw [Finset.sum_congr rfl fun c hc => (hplace c).trans (if_pos (Finset.mem_range.mp hc))]
      simp
    rw [Finset.sum_add_distrib, Finset.sum_add_distrib, sum_count fun c hc => hlt c (.inl hc),
      sum_count fun c hc => hlt c (.inr hc), ← p.loansOut] at hsum
    rw [Finset.card_filter]
    simpa [Nat.pos_iff_ne_zero, ite_not] using hsum

/-- **Subscribers cannot corrupt the bookkeeping**, unless a slot is listed twice: after every
call the reference counts count, no chunk is free twice, a chunk is free exactly if nobody has it,
and no chunk is lost. -/
theorem bookkeeping_kept {x : Attacked} (h : attacked.Reach Consistent x)
    (hret : x.pub.returned = true) : Bookkept x.bus := by
  obtain ⟨hdr, inv⟩ := AttackedInv.of_reach h
  have hpool := inv.kept.pool
  rw [← inv.kept.hdr] at hpool
  exact hpool.bookkept (Prog.wp_returned inv.pub hret)

/-- A hostile subscriber that poses as an honest one is given a sample. -/
theorem bookkeeping_kept_delivered : ∃ x, attacked.Reach Consistent x ∧
    (x.pub.returned = true ∧ x.bus.book.refcount 0 = 1) ∧ Bookkept x.bus := by
  obtain ⟨x, hx, hret, href⟩ : ∃ x, attacked.Reach Consistent x ∧ x.pub.returned = true ∧
      x.bus.book.refcount 0 = 1 :=
    Machine.exists_reach_of_exec (List.flatten [[pose .dropOldest, .loan],
      List.replicate 4 (.publisher 0), [.send 0], List.replicate 29 (.publisher 0)])
      besieged_init (by decide +kernel)
  exact ⟨x, hx, ⟨hret, href⟩, bookkeeping_kept hx hret⟩

/-! ### A slot that is listed twice -/

/-- A chunk is free while it is queued: the slot is listed under both policies, and the second
delivery evicts the first. -/
theorem freed_while_queued : ∃ x, attacked.Reach Machine.Always x ∧ x.pub.returned = true ∧
    ¬ Bookkept x.bus := by
  obtain ⟨x, hx, hret, hfree, href⟩ : ∃ x, attacked.Reach Machine.Always x ∧
      x.pub.returned = true ∧ 0 ∈ x.bus.book.free ∧ x.bus.book.refcount 0 = 1 :=
    Machine.exists_reach_of_exec (List.flatten [[pose .dropOldest, .loan],
      List.replicate 4 (.publisher 0), [.send 0], List.replicate 14 (.publisher 0), [pose .block],
      List.replicate 2 (.publisher 0), [pose .dropOldest], List.replicate 27 (.publisher 0)])
      besieged_init (by decide +kernel)
  refine ⟨x, hx, hret, fun hb => ?_⟩
  have hzero := ((hb.free_iff 0 (hb.free_lt 0 hfree)).mp hfree).1
  rw [href] at hzero
  exact Nat.one_ne_zero hzero

end Devbus
