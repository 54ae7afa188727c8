/-
# How long a subscriber can hold the publisher

`drain_done` and the `DropOldest` loop of `deliver` run over the difference of two indices that
every subscriber can write to (`userspace/devbus/src/core.cpp`).  Here the subscribers have stored
whatever they like before the call, and the publisher then runs on its own: what is counted are
the steps of its programs.

* `drain_done` takes as many entries as `done_head` is ahead of `done_tail`, modulo `2^64`
  (`drainDone_consumes`);
* `deliver` evicts until there is room, however far `data_head` is ahead of `data_tail`
  (`deliver_evicts`).

Neither compares the difference with the capacity of the ring.  `unheld_iff` says which index words
leave both within the capacities; then `loan`, and `send` to subscribers that do not block, end
after a number of steps that depends on the configuration alone.  `held_for_ages` is a slot for
which `drain_done` and `deliver` have more than `2^63` entries to go through.
-/
import DevicePlatform.Devbus.Hostile
import DevicePlatform.StepCount

namespace Devbus

open Prog

/-! ## Differences -/

/-- One step towards an index that is not reached. -/
theorem u64Sub_succ {a b : ℕ} (h : u64Sub a b ≠ 0) : u64Sub a (b + 1) + 1 = u64Sub a b := by
  unfold u64Sub at *
  omega

/-- One step away from it. -/
theorem u64Sub_add_one_le (a b : ℕ) : u64Sub (a + 1) b ≤ u64Sub a b + 1 := by
  unfold u64Sub
  omega

/-! ## Bounds on steps -/

section Steps

variable (h : Header)

/-- The steps of the publisher's functions when no ring claims to hold more than it can. -/
def drainSteps : ℕ := 3 + ((h.completionCapacity + 1) * 2 + 1)
def reclaimSteps : ℕ := drainSteps h + 13
def rebuildSteps : ℕ := 2 * (h.maxSubscribers * 2) + 2
def scanSteps : ℕ := h.maxSubscribers * (reclaimSteps h + 5) + rebuildSteps h + 1
def checkSteps : ℕ :=
  scanSteps h + (h.maxSubscribers * (reclaimSteps h + 7) + rebuildSteps h + 1)
def loanSteps : ℕ := 2 * h.maxSubscribers * drainSteps h + (scanSteps h + 2 + 1) + 2
def deliverSteps : ℕ := (h.queueCapacity + 1) * 5 + 6 + 3
def sendSteps : ℕ :=
  scanSteps h + (2 * h.maxSubscribers * deliverSteps h + (checkSteps h + 3) + 1) + 3

end Steps

/-! ## What is counted -/

/-- `drain_done` of slot `s` takes no more entries than the done ring can hold. -/
def DrainBounded (b : Bus) (s : ℕ) : Prop :=
  ∃ n, (Publisher.drainDone s).EndsIn (fun _ d =>
    (d.led s).doneRead ≤ (b.led s).doneRead + b.hdr.completionCapacity) n b

/-- `deliver` to slot `s` evicts no more entries than the data ring can hold. -/
def DeliverBounded (b : Bus) (s : ℕ) : Prop :=
  ∀ chunk report, ∃ n, (Publisher.deliver chunk report s).EndsIn (fun r _ =>
    r.evicted ≤ report.evicted + b.hdr.queueCapacity) n b

/-- The publisher is not held by what the subscribers have stored. -/
structure Unheld (b : Bus) : Prop where
  drain : ∀ s < b.hdr.maxSubscribers, DrainBounded b s
  deliver : ∀ s < b.hdr.maxSubscribers, (b.slot s).overflow = .dropOldest → DeliverBounded b s
  loan : Publisher.loan.EndsIn (fun _ _ => True) (loanSteps b.hdr) b
  send : (∀ s < b.hdr.maxSubscribers,
      (b.slot s).overflow = .dropOldest ∨ (b.slot s).overflow = .dropNewest) →
    ∀ c, (Publisher.send c).EndsIn (fun _ _ => True) (sendSteps b.hdr) b

/-- The index words of a slot do not claim too much. -/
structure SaneWords (h : Header) (w : SlotWords) : Prop where
  done : u64Sub w.doneHead w.doneTail ≤ h.completionCapacity
  data : w.overflow = .dropOldest → u64Sub w.dataHead w.dataTail < 2 * h.queueCapacity

/-- The header and the policies are as they were, the words are sane, and `active_list_` is as
`rebuild_active_list` leaves it. -/
structure Sane (h : Header) (policy : ℕ → Overflow) (b : Bus) : Prop where
  hdr : b.hdr = h
  policy : ∀ s, (b.slot s).overflow = policy s
  words : ∀ s < h.maxSubscribers, SaneWords h (b.slot s)
  listed : ∀ s ∈ b.book.activeList, s < h.maxSubscribers
  length : b.book.activeList.length ≤ 2 * h.maxSubscribers

section Sane

variable {h : Header} {policy : ℕ → Overflow} {b d : Bus} {s : ℕ}

/-- Another list. -/
theorem Sane.setList (t : Sane h policy b) (hhdr : d.hdr = b.hdr) (hslot : d.slot = b.slot)
    (hlisted : ∀ s ∈ d.book.activeList, s < h.maxSubscribers)
    (hlength : d.book.activeList.length ≤ 2 * h.maxSubscribers) : Sane h policy d :=
  ⟨hhdr.trans t.hdr, hslot ▸ t.policy, hslot ▸ t.words, hlisted, hlength⟩

/-- What else is in the state does not matter. -/
theorem Sane.keep (t : Sane h policy b) (hhdr : d.hdr = b.hdr) (hslot : d.slot = b.slot)
    (hlist : d.book.activeList = b.book.activeList) : Sane h policy d :=
  t.setList hhdr hslot (hlist ▸ t.listed) (hlist ▸ t.length)

/-- One slot changes. -/
theorem Sane.setSlot (t : Sane h policy b) {w : SlotWords} (hhdr : d.hdr = b.hdr)
    (hslot : d.slot = Function.update b.slot s w) (hpolicy : w.overflow = (b.slot s).overflow)
    (hw : SaneWords h w) (hlist : d.book.activeList = b.book.activeList) : Sane h policy d := by
  refine ⟨hhdr.trans t.hdr, ?_, ?_, hlist ▸ t.listed, hlist ▸ t.length⟩ <;> rw [hslot]
  · exact (Function.forall_update_iff b.slot fun r w => w.overflow = policy r).mpr
      ⟨hpolicy.trans (t.policy s), fun r _ => t.policy r⟩
  · exact (Function.forall_update_iff b.slot fun r w => r < h.maxSubscribers →
      SaneWords h w).mpr ⟨fun _ => hw, fun r _ => t.words r⟩

/-! ## Taking slots back -/

/-- **`drain_done` takes all entries that the done ring claims to hold.** -/
theorem drainDone_consumes (b : Bus) (s : ℕ) :
    (Publisher.drainDone s).EndsIn (fun _ d =>
      (d.led s).doneRead = (b.led s).doneRead + u64Sub (b.slot s).doneHead (b.slot s).doneTail ∧
      d.hdr = b.hdr ∧ d.book.activeList = b.book.activeList ∧
      ∃ tail, u64Sub (b.slot s).doneHead tail = 0 ∧
        d.slot = Function.update b.slot s { b.slot s with doneTail := tail })
      (3 + ((u64Sub (b.slot s).doneHead (b.slot s).doneTail + 1) * 2 + 1)) b := by
  rw [Nat.add_comm 3]
  refine endsIn_read (endsIn_read (endsIn_read ?_))
  split_ifs with hzero
  · refine .ret ⟨by rw [hzero]; rfl, rfl, rfl, (b.slot s).doneTail, hzero, ?_⟩
    exact (Function.update_eq_self s b.slot).symm
  · -- what is read and what is left add up
    refine endsIn_seq (endsIn_loop (R := fun tail d => u64Sub (b.slot s).doneHead tail = 0 ∧
        (d.led s).doneRead = (b.led s).doneRead +
          u64Sub (b.slot s).doneHead (b.slot s).doneTail ∧
        d.hdr = b.hdr ∧ d.book.activeList = b.book.activeList ∧ d.slot = b.slot)
      (fun tail d => (d.led s).doneRead + u64Sub (b.slot s).doneHead tail = (b.led s).doneRead +
          u64Sub (b.slot s).doneHead (b.slot s).doneTail ∧
        d.hdr = b.hdr ∧ d.book.activeList = b.book.activeList ∧ d.slot = b.slot)
      (fun tail _ => u64Sub (b.slot s).doneHead tail) ⟨rfl, rfl, rfl, rfl⟩ ?_) ?_
    · rintro tail d ⟨hread, hhdr, hlist, hslot⟩
      split_ifs with hend
      · exact .ret ⟨hend, by omega, hhdr, hlist, hslot⟩
      · have hsucc := u64Sub_succ hend
        refine endsIn_write (.ret ⟨⟨?_, hhdr, ?_, hslot⟩, by omega⟩)
        · show (Function.update d.led s _ s).doneRead + _ = _
          rw [Function.update_self]
          show (d.led s).doneRead + 1 + _ = _
          omega
        · rw [← hlist]
          exact congrArg (fun t => t.2.2.1) Book.releaseRef_slots
    · rintro tail d ⟨hend, hread, hhdr, hlist, hslot⟩
      refine endsIn_write (.ret ⟨hread, hhdr, hlist, tail, hend, ?_⟩)
      rw [← hslot]
      rfl

/-- `drain_done` of a sane slot. -/
theorem drainDone_endsIn (t : Sane h policy b) (hs : s < h.maxSubscribers) :
    (Publisher.drainDone s).EndsIn (fun _ d => Sane h policy d) (drainSteps h) b := by
  refine (drainDone_consumes b s).mono ?_ ?_
  · rintro _ d ⟨-, hhdr, hlist, tail, hend, hslot⟩
    refine t.setSlot hhdr hslot rfl ⟨?_, (t.words s hs).data⟩ hlist
    show u64Sub (b.slot s).doneHead tail ≤ _
    omega
  · have := (t.words s hs).done
    unfold drainSteps
    omega

/-- The words of a slot when its indices and its pid are stored as 0. -/
def blankWords (w : SlotWords) : SlotWords :=
  { w with
    dataHead := 0
    dataTail := 0
    doneHead := 0
    doneTail := 0
    pid := 0 }

/-- The stores of 0 change nothing else. -/
theorem reset_words (s : ℕ) (b : Bus) :
    (Publisher.resetWords.foldl (Publisher.zeroWord s) b).hdr = b.hdr ∧
      (Publisher.resetWords.foldl (Publisher.zeroWord s) b).book = b.book ∧
      (Publisher.resetWords.foldl (Publisher.zeroWord s) b).slot =
        Function.update b.slot s (blankWords (b.slot s)) := by
  simp only [Publisher.resetWords, List.foldl_cons, List.foldl_nil, Publisher.zeroWord,
    Bus.setSlot, Bus.setFutex, Bus.setStats, Function.update_self, Function.update_idem,
    blankWords, and_self]

/-- `reclaim_slot`. -/
theorem reclaimSlot_endsIn (hcap : 0 < h.queueCapacity) (t : Sane h policy b)
    (hs : s < h.maxSubscribers) :
    (Publisher.reclaimSlot s).EndsIn (fun _ d => Sane h policy d) (reclaimSteps h) b := by
  refine endsIn_seq (drainDone_endsIn t hs) fun _ b₁ t₁ => endsIn_write ?_
  have t₂ : Sane h policy ((b₁.setBook fun k => k.reclaimChunks b₁.hdr s).setLed s
      fun _ => Ledger.fresh .reset) :=
    t₁.keep rfl rfl (congrArg (fun t => t.2.2.1) Book.reclaimChunks_slots)
  refine endsIn_seq (n := 11) (m := 1) (endsIn_stores Publisher.resetWords (Publisher.zeroWord s))
    fun _ b₃ hb₃ => endsIn_write (.ret ?_)
  obtain ⟨hhdr, hbook, hslot⟩ := reset_words s ((b₁.setBook fun k =>
    k.reclaimChunks b₁.hdr s).setLed s fun _ => Ledger.fresh .reset)
  rw [← hb₃] at hhdr hbook hslot
  have hlist : b₃.book.activeList = _ := congrArg Book.activeList hbook
  refine t₂.setSlot (w := { blankWords (b₁.slot s) with state := .free }) hhdr ?_ rfl
    ⟨Nat.zero_le _, fun _ => Nat.mul_pos Nat.two_pos hcap⟩ hlist
  dsimp only [Bus.setLed, Bus.setSlot, Bus.setBook] at hslot ⊢
  rw [hslot, Function.update_self, Function.update_idem]

/-- One pass of `rebuild_active_list` appends a slot at most once. -/
theorem rebuildPass_endsIn (t : Sane h policy b) {pass : Bool} {n : ℕ}
    (hlen : b.book.activeList.length + h.maxSubscribers + n ≤ 2 * h.maxSubscribers) :
    (Prog.forEach (List.range h.maxSubscribers) fun s => do
      let block ← Prog.read fun b : Bus => decide ((b.slot s).overflow = .block)
      Prog.write fun b => b.setBook fun k =>
        if k.active s ∧ block = pass then { k with activeList := k.activeList ++ [s] } else k
      return ()).EndsIn (fun _ d => Sane h policy d ∧
        d.book.activeList.length + n ≤ 2 * h.maxSubscribers) (h.maxSubscribers * 2) b := by
  refine (endsIn_forEach (n := 2) (fun rest d => Sane h policy d ∧
      (∀ s ∈ rest, s < h.maxSubscribers) ∧
      d.book.activeList.length + rest.length + n ≤ 2 * h.maxSubscribers)
    ⟨t, fun s hs => List.mem_range.mp hs, by rw [List.length_range]; exact hlen⟩ ?_
    (by rw [List.length_range])).weaken fun _ d hd => ⟨hd.1, hd.2.2⟩
  -- a slot that is appended is one fewer to come
  rintro s rest d ⟨td, hrest, hlen⟩
  rw [List.length_cons] at hlen
  refine endsIn_read (endsIn_write (.ret ?_))
  have hrest' : ∀ r ∈ rest, r < h.maxSubscribers := fun r hr => hrest r (List.mem_cons_of_mem _ hr)
  by_cases happ : d.book.active s = true ∧ decide ((d.slot s).overflow = .block) = pass
  · have hlength : (d.book.activeList ++ [s]).length = d.book.activeList.length + 1 :=
      List.length_append
    have hlisted : ∀ r ∈ d.book.activeList ++ [s], r < h.maxSubscribers := by
      simp only [List.forall_mem_append, List.forall_mem_singleton]
      exact ⟨td.listed, hrest s List.mem_cons_self⟩
    simp only [Bus.setBook, if_pos happ]
    refine ⟨td.setList rfl rfl hlisted ?_, hrest', ?_⟩
    · show (d.book.activeList ++ [s]).length ≤ _
      omega
    · omega
  · simp only [Bus.setBook, if_neg happ]
    exact ⟨td, hrest', by omega⟩

/-- `rebuild_active_list`. -/
theorem rebuildActiveList_endsIn (t : Sane h policy b) :
    Publisher.rebuildActiveList.EndsIn (fun _ d => Sane h policy d) (rebuildSteps h) b := by
  refine endsIn_read (endsIn_write ?_)
  rw [t.hdr]
  have t₁ : Sane h policy (b.setBook fun k => { k with activeList := [] }) :=
    t.setList rfl rfl (fun _ hs => absurd hs List.not_mem_nil) (Nat.zero_le _)
  refine (endsIn_forEach (l := [false, true]) (fun passes d => Sane h policy d ∧
      d.book.activeList.length + passes.length * h.maxSubscribers ≤ 2 * h.maxSubscribers)
    ⟨t₁, ?_⟩ ?_ (Nat.le_refl _)).weaken fun _ _ hd => hd.1
  · show 0 + 2 * _ ≤ _
    omega
  · rintro pass passes d ⟨td, hlen⟩
    rw [List.length_cons, Nat.succ_mul] at hlen
    exact rebuildPass_endsIn td (by omega)

/-! ## Scans -/

/-- `for s in l`, over slots of the service. -/
theorem Sane.fold {γ : Type} {l : List ℕ} {a : γ} {body : γ → ℕ → Prog Bus γ} {n m : ℕ}
    (t : Sane h policy b) (hl : ∀ s ∈ l, s < h.maxSubscribers)
    (hbody : ∀ a s d, Sane h policy d → s < h.maxSubscribers →
      (body a s).EndsIn (fun _ e => Sane h policy e) n d) (hle : l.length * n ≤ m) :
    (Prog.fold l a body).EndsIn (fun _ e => Sane h policy e) m b := by
  refine (endsIn_fold (fun rest _ d => Sane h policy d ∧ ∀ s ∈ rest, s < h.maxSubscribers)
    ⟨t, hl⟩ ?_).mono (fun _ _ hd => hd.1) hle
  rintro s rest a d ⟨td, hrest⟩
  refine (hbody a s d td (hrest s List.mem_cons_self)).weaken fun _ _ te => ?_
  exact ⟨te, fun r hr => hrest r (List.mem_cons_of_mem _ hr)⟩

/-- One round of `scan_slots`. -/
theorem scanSlot_endsIn (hcap : 0 < h.queueCapacity) (t : Sane h policy b)
    (hs : s < h.maxSubscribers) (changed : Bool) :
    (Publisher.scanSlot changed s).EndsIn (fun _ d => Sane h policy d) (reclaimSteps h + 5) b := by
  have hreclaim : (do Publisher.reclaimSlot s; return true : Prog Bus Bool).EndsIn
      (fun _ d => Sane h policy d) (reclaimSteps h + 0) b :=
    endsIn_seq (reclaimSlot_endsIn hcap t hs) fun _ _ t' => .ret t'
  refine endsIn_read (endsIn_read ?_)
  split_ifs
  · have hopen : ∀ pid, (Os.pidfdOpen pid).EndsIn (fun _ d => d = b) 2 b :=
      fun pid => endsIn_choose fun _ => endsIn_last (endsIn_read (.ret rfl))
    refine endsIn_read (EndsIn.le (n := 2 + (reclaimSteps h + 0)) (endsIn_seq (hopen _) ?_)
      (by omega))
    rintro (_ | p) _ rfl
    · exact hreclaim
    · refine EndsIn.le (n := 1) (endsIn_write (.ret (t.keep rfl rfl rfl))) ?_
      unfold reclaimSteps
      omega
  · exact hreclaim.le (by omega)
  · exact .ret t

/-- `scan_slots`. -/
theorem scanSlots_endsIn (hcap : 0 < h.queueCapacity) (t : Sane h policy b) :
    Publisher.scanSlots.EndsIn (fun _ d => Sane h policy d) (scanSteps h) b := by
  have hrounds : ∀ {d : Bus}, Sane h policy d →
      (Prog.fold (List.range h.maxSubscribers) false Publisher.scanSlot).EndsIn
        (fun _ e => Sane h policy e) (h.maxSubscribers * (reclaimSteps h + 5)) d :=
    fun td => td.fold (fun s hs => List.mem_range.mp hs)
      (fun changed s d td hs => scanSlot_endsIn hcap td hs changed) (by rw [List.length_range])
  refine endsIn_update ?_
  dsimp only
  rw [t.hdr]
  refine endsIn_seq (hrounds (t.keep rfl rfl rfl)) fun changed d td => ?_
  split_ifs
  · exact rebuildActiveList_endsIn td
  · exact .ret td

/-- Whether a subscriber is dead. -/
theorem slotDead_endsIn (t : Sane h policy b) (st : SlotState) (pid : ℕ) :
    (Publisher.slotDead s st pid).EndsIn (fun _ d => Sane h policy d) 4 b := by
  have hverdict : ∀ {p : Prog Bus Bool}, p.EndsIn (fun _ d => d = b) 2 b →
      (do let alive ← p; return !alive : Prog Bus Bool).EndsIn (fun _ d => Sane h policy d) 2 b :=
    fun hp => endsIn_seq (m := 0) hp fun _ _ hd => .ret (hd ▸ t)
  refine endsIn_read ?_
  split_ifs
  · refine endsIn_read (hverdict ?_)
    cases b.book.pidfds s with
    | none => exact .ret rfl
    | some p => exact endsIn_choose fun _ => endsIn_last (endsIn_read (.ret rfl))
  · exact EndsIn.le (n := 1) (endsIn_last (endsIn_update (.ret (t.keep rfl rfl rfl)))) (by omega)
  · refine (hverdict ?_).le (by omega)
    unfold Os.processAlive
    split_ifs
    · exact .ret rfl
    · exact endsIn_choose fun _ => endsIn_last (endsIn_read (.ret rfl))
  · exact .ret t

/-- One round of `check_liveness`. -/
theorem checkSlot_endsIn (hcap : 0 < h.queueCapacity) (t : Sane h policy b)
    (hs : s < h.maxSubscribers) (reaped : ℕ) :
    (Publisher.checkSlot reaped s).EndsIn (fun _ d => Sane h policy d) (reclaimSteps h + 7) b := by
  refine endsIn_read (endsIn_read (EndsIn.le (n := 4 + (reclaimSteps h + 0 + 1))
    (endsIn_seq (slotDead_endsIn t _ _) fun dead d td => endsIn_write ?_) (by omega)))
  have td' : Sane h policy (d.setBook fun k =>
      if (b.slot s).state ≠ .claimed ∨ (b.slot s).pid ≠ 0 then
        { k with claimedSince := Function.update k.claimedSince s 0 }
      else k) := by
    refine td.keep rfl rfl ?_
    show (ite _ _ _ : Book).activeList = _
    split_ifs <;> rfl
  by_cases hdead : dead = true
  · rw [if_pos hdead]
    exact endsIn_seq (reclaimSlot_endsIn hcap td' hs) fun _ _ t' => .ret t'
  · rw [if_neg hdead]
    exact .ret td'

/-- `check_liveness`. -/
theorem checkLiveness_endsIn (hcap : 0 < h.queueCapacity) (t : Sane h policy b) :
    Publisher.checkLiveness.EndsIn (fun _ d => Sane h policy d) (checkSteps h) b := by
  refine endsIn_seq (scanSlots_endsIn hcap t) fun _ b₁ t₁ => endsIn_read ?_
  rw [t₁.hdr]
  refine endsIn_seq (t₁.fold ?_ (fun reaped s d td hs => checkSlot_endsIn hcap td hs reaped) ?_)
    fun reaped d td => ?_
  · exact fun s hs => List.mem_range.mp hs
  · rw [List.length_range]
  · split_ifs
    · exact endsIn_seq (m := 0) (rebuildActiveList_endsIn td) fun _ _ t' => .ret t'
    · exact .ret td

/-! ## Loans -/

/-- The end of `loan`. -/
theorem popFree_endsIn (t : Sane h policy b) :
    Publisher.popFree.EndsIn (fun _ d => Sane h policy d) 1 b := by
  refine endsIn_last (endsIn_update (.ret ?_))
  cases b.book.free with
  | nil => exact t
  | cons c rest => exact t.keep rfl rfl rfl

/-- **`loan`.** -/
theorem loan_endsIn (hcap : 0 < h.queueCapacity) (t : Sane h policy b) :
    Publisher.loan.EndsIn (fun _ d => Sane h policy d) (loanSteps h) b := by
  refine endsIn_read ?_
  split_ifs
  · exact .ret t
  · refine endsIn_read (endsIn_seq (t.fold t.listed (fun _ s d td hs => drainDone_endsIn td hs)
      (Nat.mul_le_mul_right _ t.length)) fun _ d td => endsIn_read ?_)
    split_ifs
    · refine endsIn_seq (scanSlots_endsIn hcap td) fun _ e te => endsIn_read ?_
      split_ifs
      · exact endsIn_write (.ret (te.keep rfl rfl rfl))
      · exact popFree_endsIn te
    · exact (popFree_endsIn td).le (by omega)

/-! ## Deliveries -/

/-- Of the words only those of the data ring of slot `s` have changed. -/
structure DataOnly (s : ℕ) (b d : Bus) : Prop where
  hdr : d.hdr = b.hdr
  list : d.book.activeList = b.book.activeList
  slot : ∃ head tail ring, d.slot = Function.update b.slot s
    { b.slot s with dataHead := head, dataTail := tail, dataRing := ring }

theorem DataOnly.refl (s : ℕ) (b : Bus) : DataOnly s b b :=
  ⟨rfl, rfl, _, _, _, (Function.update_eq_self s b.slot).symm⟩

theorem DataOnly.trans {e : Bus} (h₁ : DataOnly s b d) (h₂ : DataOnly s d e) : DataOnly s b e := by
  obtain ⟨_, _, _, hslot₁⟩ := h₁.slot
  obtain ⟨head, tail, ring, hslot₂⟩ := h₂.slot
  refine ⟨h₂.hdr.trans h₁.hdr, h₂.list.trans h₁.list, head, tail, ring, ?_⟩
  rw [hslot₂, hslot₁, Function.update_self, Function.update_idem]

/-- What else is in the state does not matter. -/
theorem DataOnly.of_same (hhdr : d.hdr = b.hdr) (hlist : d.book.activeList = b.book.activeList)
    (hslot : d.slot = b.slot) : DataOnly s b d :=
  ⟨hhdr, hlist, _, _, _, hslot.trans (Function.update_eq_self s b.slot).symm⟩

/-- The service stays sane if the data ring of `s` does. -/
theorem Sane.dataOnly (t : Sane h policy b) (hs : s < h.maxSubscribers) (hd : DataOnly s b d)
    (hdata : policy s = .dropOldest →
      u64Sub (d.slot s).dataHead (d.slot s).dataTail < 2 * h.queueCapacity) : Sane h policy d := by
  obtain ⟨head, tail, ring, hslot⟩ := hd.slot
  refine t.setSlot hd.hdr hslot rfl ⟨(t.words s hs).done, fun hpolicy => ?_⟩ hd.list
  have := hdata ((t.policy s).symm.trans hpolicy)
  rw [hslot, Function.update_self] at this
  exact this

/-- A round of `deliver` that evicts an entry: alone, the publisher wins the race. -/
theorem evictRound_endsIn {tail cap : ℕ} {report : SendReport}
    (htail : (b.slot s).dataTail = tail) :
    (Publisher.evictRound s tail cap 0 report).EndsIn
      (fun r d => r = .inl (0, { report with evicted := report.evicted + 1 }) ∧
        (d.slot s).dataTail = tail + 1 ∧ DataOnly s b d) 3 b := by
  refine endsIn_read (endsIn_update ?_)
  rw [if_pos htail]
  refine endsIn_write (.ret ⟨rfl, ?_, rfl, ?_, _, _, _, rfl⟩)
  · show (Function.update b.slot s _ s).dataTail = _
    rw [Function.update_self]
  · exact congrArg (fun t => t.2.2.1) Book.releaseRef_slots

/-- The loop of `deliver` for a subscriber that drops the oldest entries. -/
theorem admit_evicts {head cap : ℕ} {report : SendReport} (hcap : 0 < cap) :
    (Prog.repeatUntil (0, report) fun x =>
      Publisher.admitRound s head cap .dropOldest x.1 x.2).EndsIn
      (fun r d => DataOnly s b d ∧ u64Sub head (d.slot s).dataTail < cap ∧
        ∃ report', r = .room 0 report' ∧ report'.evicted =
          report.evicted + (u64Sub head (b.slot s).dataTail + 1 - cap))
      ((u64Sub head (b.slot s).dataTail + 1 - cap + 1) * 5) b := by
  -- what has been evicted and what has to be evicted add up
  refine endsIn_loop (fun x d => x.1 = 0 ∧ DataOnly s b d ∧
      x.2.evicted + (u64Sub head (d.slot s).dataTail + 1 - cap) =
        report.evicted + (u64Sub head (b.slot s).dataTail + 1 - cap))
    (fun _ d => u64Sub head (d.slot s).dataTail + 1 - cap) ⟨rfl, DataOnly.refl s b, rfl⟩ ?_
  rintro ⟨blockStart, rep⟩ d ⟨rfl, hd, hcount⟩
  dsimp only at hcount
  refine endsIn_update ?_
  have hd' : DataOnly s b (d.setLed s fun l =>
      { l with seen := (d.slot s).dataHead - (d.slot s).dataTail }) :=
    hd.trans (.of_same rfl rfl rfl)
  by_cases hroom : u64Sub head (d.slot s).dataTail < cap
  · rw [if_pos hroom]
    exact .ret ⟨hd', hroom, rep, rfl, by omega⟩
  · rw [if_neg hroom]
    refine EndsIn.weaken (p := Publisher.evictRound s (d.slot s).dataTail cap 0 rep)
      (evictRound_endsIn rfl) ?_
    rintro _ e ⟨rfl, htail, he⟩
    have hsucc := u64Sub_succ (a := head) (b := (d.slot s).dataTail) (by omega)
    dsimp only
    rw [htail]
    exact ⟨⟨rfl, hd'.trans he, by omega⟩, by omega⟩

/-- The wake-up of the subscriber. -/
theorem wakeSubscriber_endsIn :
    (Publisher.wakeSubscriber s).EndsIn
      (fun _ d => d.hdr = b.hdr ∧ d.book = b.book ∧ d.slot = b.slot) 3 b := by
  refine endsIn_update ?_
  by_cases hsleeping : (b.futex s).sleeping ≠ 0
  · rw [if_pos hsleeping]
    exact endsIn_write (endsIn_write (.ret ⟨rfl, rfl, rfl⟩))
  · rw [if_neg hsleeping]
    exact .ret ⟨rfl, rfl, rfl⟩

/-- `deliver` once there is room, by a publisher that has not been blocked. -/
theorem enqueue_endsIn {chunk head cap : ℕ} {report : SendReport} :
    (Publisher.enqueue s chunk head cap 0 report).EndsIn
      (fun r d => r.evicted = report.evicted ∧ DataOnly s b d ∧ (d.slot s).dataHead = head + 1 ∧
        (d.slot s).dataTail = (b.slot s).dataTail) 6 b := by
  refine endsIn_seq (n := 0) (m := 6) (R := fun _ d => d = b) (.ret rfl) ?_
  rintro _ d hd
  rw [hd]
  refine endsIn_write (endsIn_write (endsIn_write ?_))
  refine endsIn_seq (n := 3) (m := 0) wakeSubscriber_endsIn ?_
  rintro _ d ⟨hhdr, hbook, hslot⟩
  have hslot' : d.slot = Function.update b.slot s
      { b.slot s with
        dataHead := head + 1
        dataRing := Function.update (b.slot s).dataRing (head &&& (cap - 1)) chunk } := by
    rw [hslot]
    dsimp only [Bus.setStats, Bus.setFutex, Bus.setCalls, Bus.setLed, Bus.setSlot, Bus.setBook]
    rw [Function.update_self, Function.update_idem]
  refine .ret ⟨rfl, ⟨hhdr, ?_, _, _, _, hslot'⟩, ?_, ?_⟩
  · rw [hbook]
    rfl
  · rw [hslot', Function.update_self]
  · rw [hslot', Function.update_self]

/-- **`deliver` to a subscriber that drops the oldest entries evicts until there is room.** -/
theorem deliver_evicts {chunk : ℕ} {report : SendReport} (hcap : 0 < b.hdr.queueCapacity)
    (hpolicy : (b.slot s).overflow = .dropOldest) :
    (Publisher.deliver chunk report s).EndsIn
      (fun r d => DataOnly s b d ∧
        u64Sub (d.slot s).dataHead (d.slot s).dataTail ≤ b.hdr.queueCapacity ∧
        r.evicted = report.evicted +
          (u64Sub (b.slot s).dataHead (b.slot s).dataTail + 1 - b.hdr.queueCapacity))
      ((u64Sub (b.slot s).dataHead (b.slot s).dataTail + 1 - b.hdr.queueCapacity + 1) * 5 + 6 + 3)
      b := by
  refine endsIn_read (endsIn_read (endsIn_read ?_))
  rw [hpolicy]
  refine endsIn_seq (admit_evicts hcap) ?_
  rintro _ d ⟨hd, hroom, report', rfl, hcount⟩
  refine enqueue_endsIn.weaken ?_
  rintro r e ⟨hr, he, hhead, htail⟩
  refine ⟨hd.trans he, ?_, by rw [hr, hcount]⟩
  have := u64Sub_add_one_le (b.slot s).dataHead (d.slot s).dataTail
  rw [hhead, htail]
  omega

/-- `deliver` to a subscriber that drops the newest entries. -/
theorem deliver_rejects {chunk : ℕ} {report : SendReport}
    (hpolicy : (b.slot s).overflow = .dropNewest) :
    (Publisher.deliver chunk report s).EndsIn (fun _ d => DataOnly s b d) (3 + 6 + 3) b := by
  refine endsIn_read (endsIn_read (endsIn_read ?_))
  rw [hpolicy]
  -- the first round is the last
  refine endsIn_seq (n := 3) (R := fun r d => DataOnly s b d ∧
    ((∃ report', r = .refused report') ∨ ∃ report', r = .room 0 report'))
    (endsIn_loop (n := 2) (fun (x : ℕ × SendReport) d => x.1 = 0 ∧ DataOnly s b d) (fun _ _ => 0)
      ⟨rfl, .refl s b⟩ ?_) ?_
  · rintro ⟨_, rep⟩ d ⟨rfl, hd⟩
    refine endsIn_update ?_
    have hd' : DataOnly s b (d.setLed s fun l =>
        { l with seen := (d.slot s).dataHead - (d.slot s).dataTail }) :=
      hd.trans (.of_same rfl rfl rfl)
    by_cases hroom : u64Sub (b.slot s).dataHead (d.slot s).dataTail < b.hdr.queueCapacity
    · rw [if_pos hroom]
      exact .ret ⟨hd', .inr ⟨rep, rfl⟩⟩
    · rw [if_neg hroom]
      exact endsIn_write (.ret ⟨hd'.trans (.of_same rfl rfl rfl), .inl ⟨_, rfl⟩⟩)
  · rintro _ d ⟨hd, ⟨report', rfl⟩ | ⟨report', rfl⟩⟩
    · exact .ret hd
    · exact enqueue_endsIn.weaken fun _ _ h => hd.trans h.2.1

/-- `deliver` to a sane slot whose subscriber does not block. -/
theorem deliver_endsIn (hcap : 0 < h.queueCapacity) (t : Sane h policy b)
    (hs : s < h.maxSubscribers) (hpolicy : policy s = .dropOldest ∨ policy s = .dropNewest)
    (chunk : ℕ) (report : SendReport) :
    (Publisher.deliver chunk report s).EndsIn (fun _ d => Sane h policy d) (deliverSteps h) b := by
  rcases hpolicy with hpolicy | hpolicy <;> have hslot := (t.policy s).trans hpolicy
  · have hdata := (t.words s hs).data hslot
    refine (deliver_evicts (by rw [t.hdr]; exact hcap) hslot).mono ?_ ?_
    · rintro _ d ⟨hd, hle, -⟩
      rw [t.hdr] at hle
      exact t.dataOnly hs hd fun _ => by omega
    · rw [t.hdr]
      unfold deliverSteps
      omega
  · refine (deliver_rejects hslot).mono (fun _ d hd => t.dataOnly hs hd fun h => ?_) ?_
    · cases hpolicy.symm.trans h
    · unfold deliverSteps
      omega

/-- **`send`, if no subscriber blocks.** -/
theorem send_endsIn (hcap : 0 < h.queueCapacity) (t : Sane h policy b)
    (hpolicy : ∀ s < h.maxSubscribers, policy s = .dropOldest ∨ policy s = .dropNewest)
    (chunk : ℕ) :
    (Publisher.send chunk).EndsIn (fun _ d => Sane h policy d) (sendSteps h) b := by
  have hcheck : ∀ {report : SendReport} (r : Bool × Bus), Sane h policy r.2 →
      (if r.1 = true then do
        let _ ← Publisher.checkLiveness
        return report
      else return report : Prog Bus SendReport).EndsIn (fun _ d => Sane h policy d)
        (checkSteps h) r.2 := by
    rintro report ⟨_ | _, d⟩ td
    · exact .ret td
    · exact endsIn_seq (m := 0) (checkLiveness_endsIn hcap td) fun _ _ te => .ret te
  refine endsIn_update (endsIn_write (endsIn_write ?_))
  refine endsIn_seq (scanSlots_endsIn hcap (t.keep rfl rfl rfl)) fun _ b₁ t₁ => endsIn_read ?_
  refine endsIn_seq (t₁.fold t₁.listed (fun report s d td hs =>
    deliver_endsIn hcap td hs (hpolicy s hs) chunk report) (Nat.mul_le_mul_right _ t₁.length))
    fun report b₂ t₂ => endsIn_write (endsIn_write (endsIn_update ?_))
  have t₃ : Sane h policy ((b₂.setBook fun k => k.freeIfUnused chunk).setCalls fun a =>
      { a with sending := none, sentTo := [],
               reports := a.reports ++ [(report, b₁.book.activeList.length)] }) :=
    t₂.keep rfl rfl (congrArg (fun t => t.2.2.1) Book.freeIfUnused_slots)
  refine hcheck _ ?_
  dsimp only
  split_ifs
  · exact t₃.keep rfl rfl rfl
  · exact t₃.keep rfl rfl rfl
  · exact t₃.keep rfl rfl rfl

end Sane

/-! ## What the subscribers may store -/

/-- **How long the publisher is held.**  Whatever the index words are before the call, `drain_done`
and `deliver` go through no more entries than their rings can hold, and `loan` and `send` end
within the bounds that the configuration gives, if and only if no done ring claims to hold more
than its capacity and no data ring of a subscriber that drops the oldest entries twice its
capacity or more. -/
theorem unheld_iff {b : Bus} (hcap : 0 < b.hdr.queueCapacity)
    (hlisted : ∀ s ∈ b.book.activeList, s < b.hdr.maxSubscribers)
    (hlength : b.book.activeList.length ≤ 2 * b.hdr.maxSubscribers) :
    Unheld b ↔ ∀ s < b.hdr.maxSubscribers, SaneWords b.hdr (b.slot s) := by
  constructor
  · -- what the programs do is known exactly, so a bound on it is a bound on the words
    intro hu s hs
    refine ⟨?_, fun hpolicy => ?_⟩
    · obtain ⟨n, hn⟩ := hu.drain s hs
      obtain ⟨_, d, hle, heq, -⟩ := hn.both (drainDone_consumes b s)
      omega
    · obtain ⟨n, hn⟩ := hu.deliver s hs hpolicy 0 ⟨0, 0, 0, 0, 0⟩
      obtain ⟨r, d, hle, -, -, heq⟩ := hn.both (deliver_evicts hcap hpolicy)
      omega
  · intro hwords
    have t : Sane b.hdr (fun s => (b.slot s).overflow) b :=
      ⟨rfl, fun _ => rfl, hwords, hlisted, hlength⟩
    refine ⟨?_, ?_, (loan_endsIn hcap t).weaken fun _ _ _ => trivial, ?_⟩
    · intro s hs
      have hdone := (hwords s hs).done
      exact ⟨_, (drainDone_consumes b s).weaken fun _ d hd => by omega⟩
    · intro s hs hpolicy chunk report
      have hdata := (hwords s hs).data hpolicy
      exact ⟨_, (deliver_evicts hcap hpolicy).weaken fun _ d hd => by omega⟩
    · intro hpolicy c
      exact (send_endsIn hcap t hpolicy c).weaken fun _ _ _ => trivial

/-- A small service with one sample in its queue. -/
theorem unheld_iff_delivered : ∃ x, attacked.Reach Machine.Always x ∧
    x.bus.book.activeList = [0] ∧ (x.bus.slot 0).dataHead = 1 ∧ Unheld x.bus := by
  obtain ⟨x, hx, hlist, hhead, hcap, hsubs, hdone, hdata⟩ : ∃ x,
      attacked.Reach Machine.Always x ∧ x.bus.book.activeList = [0] ∧
      (x.bus.slot 0).dataHead = 1 ∧ x.bus.hdr.queueCapacity = 1 ∧ x.bus.hdr.maxSubscribers = 1 ∧
      u64Sub (x.bus.slot 0).doneHead (x.bus.slot 0).doneTail ≤ x.bus.hdr.completionCapacity ∧
      u64Sub (x.bus.slot 0).dataHead (x.bus.slot 0).dataTail < 2 :=
    Machine.exists_reach_of_exec (List.flatten [[pose .dropOldest, .loan],
      List.replicate 4 (.publisher 0), [.send 0], List.replicate 29 (.publisher 0)])
      besieged_init (by decide +kernel)
  refine ⟨x, hx, hlist, hhead, (unheld_iff (by omega) ?_ ?_).mpr ?_⟩
  · rw [hlist, hsubs]
    decide
  · rw [hlist, hsubs]
    decide
  · intro s hs
    obtain rfl : s = 0 := by omega
    exact ⟨hdone, fun _ => by omega⟩

/-- A slot whose indices have been stored out of order. -/
def crossed : HostileEvent :=
  .scribble (fun _ => { SlotWords.zero with
      state := .active
      pid := 7
      dataTail := 1
      doneTail := 1 })
    (fun _ => FutexWords.zero) (fun _ => SlotStats.zero) (fun _ => true) 0

/-- **The publisher is held.**  One subscriber stores 1 to `data_tail` and `done_tail`, and
`drain_done` has `2^64 - 1` entries to take, `deliver` as many to evict. -/
theorem held_for_ages : ∃ x, attacked.Reach Machine.Always x ∧ x.pub.returned = true ∧
    (∃ n, (Publisher.drainDone 0).EndsIn (fun _ d =>
      (d.led 0).doneRead = (x.bus.led 0).doneRead + (2 ^ 64 - 1)) n x.bus) ∧
    (∃ n, (Publisher.deliver 0 ⟨1, 0, 0, 0, 0⟩ 0).EndsIn (fun r _ =>
      r.evicted = 2 ^ 64 - 1) n x.bus) ∧ ¬Unheld x.bus := by
  obtain ⟨x, hx, hret, hpolicy, hcap, hsubs, hfull, hdone, hdata⟩ : ∃ x,
      attacked.Reach Machine.Always x ∧ x.pub.returned = true ∧
      (x.bus.slot 0).overflow = .dropOldest ∧ x.bus.hdr.queueCapacity = 1 ∧
      x.bus.hdr.maxSubscribers = 1 ∧ x.bus.hdr.completionCapacity = 4 ∧
      u64Sub (x.bus.slot 0).doneHead (x.bus.slot 0).doneTail = 2 ^ 64 - 1 ∧
      u64Sub (x.bus.slot 0).dataHead (x.bus.slot 0).dataTail = 2 ^ 64 - 1 :=
    Machine.exists_reach_of_exec [crossed] besieged_init (by decide +kernel)
  have hdrain := drainDone_consumes x.bus 0
  have hdeliver : (Publisher.deliver 0 ⟨1, 0, 0, 0, 0⟩ 0).EndsIn _ _ x.bus :=
    deliver_evicts (by omega) hpolicy
  refine ⟨x, hx, hret, ⟨_, hdrain.weaken fun _ d hd => ?_⟩,
    ⟨_, hdeliver.weaken fun r d hd => ?_⟩, ?_⟩
  · rw [hd.1, hdone]
  · rw [hd.2.2, hdata, hcap]
    rfl
  · intro hu
    obtain ⟨n, hn⟩ := hu.drain 0 (by omega)
    obtain ⟨_, d, hle, heq, -⟩ := hn.both hdrain
    omega

end Devbus
