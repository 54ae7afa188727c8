/-
# Where the chunks are

The publisher's private bookkeeping: `free_`, `refcount_`, `outstanding_`, and the chunks
that the application has on loan.  `PoolOk` says that every chunk of the service is in
exactly one place:

* on `free_`;
* on loan;
* in the hands of `send`;
* with some subscriber, which is when its reference count is not 0,

and that the reference count is the number of subscribers that have the chunk.  Every
operation of the publisher on its bookkeeping keeps `PoolOk`, whatever the subscribers do:
nothing here looks at the shared segments.
-/
import DevicePlatform.Devbus.Ledger
import DevicePlatform.Devbus.Publisher
import Mathlib.Algebra.Order.BigOperators.Group.Finset

namespace Devbus

/-! ## What the operations leave alone -/

namespace Book

variable {h : Header} {s c v : ℕ} {k : Book}

@[simp] theorem freeIfUnused_outstanding : (k.freeIfUnused c).outstanding = k.outstanding := by
  unfold freeIfUnused freeChunk
  split_ifs <;> rfl

@[simp] theorem freeIfUnused_refcount : (k.freeIfUnused c).refcount = k.refcount := by
  unfold freeIfUnused freeChunk
  split_ifs <;> rfl

/-- What `free_` gains. -/
theorem freeIfUnused_count (c' : ℕ) : (k.freeIfUnused c).free.count c' =
    k.free.count c' + if c = c' ∧ k.refcount c = 0 then 1 else 0 := by
  unfold freeIfUnused freeChunk
  by_cases h0 : k.refcount c = 0
  · rw [if_pos h0]
    simp only [List.count_cons, beq_iff_eq, h0, and_true]
  · rw [if_neg h0, if_neg fun hc => h0 hc.2, Nat.add_zero]

/-- The members that only `scan_slots`, `check_liveness` and the end of `reclaim_slot`
change. -/
def slots (k : Book) : (ℕ → Bool) × (ℕ → Option ℕ) × List ℕ × (ℕ → ℕ) × (ℕ → Bool) :=
  (k.active, k.pidfds, k.activeList, k.claimedSince, k.ripe)

@[simp] theorem freeIfUnused_slots : (k.freeIfUnused c).slots = k.slots := by
  unfold freeIfUnused freeChunk
  split_ifs <;> rfl

@[simp] theorem releaseRef_slots : (k.releaseRef h s c).slots = k.slots := by
  unfold releaseRef
  split_ifs
  · rfl
  · rfl
  · rw [freeIfUnused_slots]
    rfl

@[simp] theorem reclaimChunks_slots : (k.reclaimChunks h s).slots = k.slots := by
  unfold reclaimChunks
  induction List.range h.chunkCount generalizing k with
  | nil => rfl
  | cons c l ih =>
      rw [List.foldl_cons, ih]
      unfold reclaimChunk
      split_ifs
      · rfl
      · rw [freeIfUnused_slots]
        rfl

/-- `release_ref` of a chunk that the subscriber has. -/
theorem releaseRef_of_outstanding (hc : c < h.chunkCount) (hout : k.outstanding s c ≠ 0) :
    k.releaseRef h s c = ((k.setOutstanding s c (dec16 (k.outstanding s c))).setRefcount c
      (dec16 (k.refcount c))).freeIfUnused c := by
  unfold releaseRef
  rw [if_neg (by omega), if_neg hout]

/-- The count that goes down. -/
theorem releaseRef_outstanding (hc : c < h.chunkCount) (hout : k.outstanding s c ≠ 0) :
    (k.releaseRef h s c).outstanding = Function.update k.outstanding s
      (Function.update (k.outstanding s) c (dec16 (k.outstanding s c))) := by
  rw [releaseRef_of_outstanding hc hout, freeIfUnused_outstanding]
  rfl

/-- A subscriber has a chunk at most once, so only the one count goes to 0. -/
theorem releaseRef_apply (hc : c < h.chunkCount) (hone : k.outstanding s c ≤ 1) (s' c' : ℕ) :
    (k.releaseRef h s c).outstanding s' c' =
      if s' = s ∧ c' = c then 0 else k.outstanding s' c' := by
  by_cases hout : k.outstanding s c = 0
  · have hsame : (k.releaseRef h s c).outstanding = k.outstanding := by
      unfold releaseRef
      split_ifs <;> rfl
    rw [hsame]
    split_ifs with heq
    · rw [heq.1, heq.2, hout]
    · rfl
  · have hzero : dec16 (k.outstanding s c) = 0 := by
      unfold dec16
      omega
    rw [releaseRef_outstanding hc hout, hzero]
    by_cases hs : s' = s
    · subst hs
      rw [Function.update_self, Function.update_apply]
      simp only [true_and]
    · rw [Function.update_of_ne hs, if_neg fun heq => hs heq.1]

/-- A chunk that is not the service's is ignored. -/
theorem releaseRef_of_ge (hc : h.chunkCount ≤ c) : k.releaseRef h s c = k := by
  unfold releaseRef
  rw [if_pos hc]

/-- A subscriber has a chunk at most once, so the loop of `reclaim_slot` releases it as
`release_ref` does. -/
theorem reclaimChunk_eq (hc : c < h.chunkCount) (hout : k.outstanding s c ≤ 1) :
    k.reclaimChunk s c = k.releaseRef h s c := by
  unfold reclaimChunk
  split_ifs with h0
  · unfold releaseRef
    rw [if_neg (by omega), if_pos h0]
  · have h1 : k.outstanding s c = 1 := by omega
    have hdec : dec16 1 = 0 := by
      unfold dec16
      omega
    have hsub : (k.refcount c + 2 ^ 16 - 1) % 2 ^ 16 = dec16 (k.refcount c) := by
      unfold dec16
      omega
    rw [releaseRef_of_outstanding hc h0, h1, hdec, hsub]
    rfl

end Book

/-! ## The invariant -/

/-- Every chunk is in one place, and the reference counts count. -/
structure PoolOk (h : Header) (k : Book) (a : Calls) : Prop where
  refs : ∀ c, k.refcount c = ∑ s ∈ Finset.range h.maxSubscribers, k.outstanding s c
  one : ∀ s c, k.outstanding s c ≤ 1
  beyond : ∀ s c, h.maxSubscribers ≤ s → k.outstanding s c = 0
  bounded : ∀ s c, h.chunkCount ≤ c → k.outstanding s c = 0
  place : ∀ c, k.free.count c + a.loans.count c + a.sending.toList.count c +
    (if k.refcount c = 0 ∨ a.sending = some c then 0 else 1) = if c < h.chunkCount then 1 else 0
  loansOut : a.loansOut = a.loans.length
  loans_le : a.loans.length ≤ h.maxLoans

/-- One term of a sum changes. -/
theorem sum_change {n s : ℕ} (hs : s < n) {f g : ℕ → ℕ} (hne : ∀ s', s' ≠ s → g s' = f s') :
    (∑ i ∈ Finset.range n, g i) + f s = (∑ i ∈ Finset.range n, f i) + g s := by
  have hmem := Finset.mem_range.mpr hs
  have hrest : ∑ i ∈ (Finset.range n).erase s, g i = ∑ i ∈ (Finset.range n).erase s, f i :=
    Finset.sum_congr rfl fun i hi => hne i (Finset.ne_of_mem_erase hi)
  have hf := Finset.add_sum_erase _ f hmem
  have hg := Finset.add_sum_erase _ g hmem
  omega

namespace PoolOk

variable {h : Header} {k k' : Book} {a : Calls} {s c : ℕ}

/-- Reference counts do not wrap. -/
theorem refcount_le (p : PoolOk h k a) (c : ℕ) : k.refcount c ≤ h.maxSubscribers := by
  rw [p.refs c]
  calc ∑ s ∈ Finset.range h.maxSubscribers, k.outstanding s c
      ≤ ∑ _s ∈ Finset.range h.maxSubscribers, 1 := Finset.sum_le_sum fun s _ => p.one s c
    _ = h.maxSubscribers := by simp

/-- Only the service's slots and chunks are counted. -/
theorem lt_of_outstanding (p : PoolOk h k a) (hout : k.outstanding s c ≠ 0) :
    s < h.maxSubscribers ∧ c < h.chunkCount := by
  constructor
  · by_contra hge
    exact hout (p.beyond s c (by omega))
  · by_contra hge
    exact hout (p.bounded s c (by omega))

/-- A subscriber's chunk is referenced. -/
theorem refcount_pos (p : PoolOk h k a) (hout : k.outstanding s c ≠ 0) : 0 < k.refcount c := by
  have hle : k.outstanding s c ≤ ∑ s ∈ Finset.range h.maxSubscribers, k.outstanding s c :=
    Finset.single_le_sum (f := fun s => k.outstanding s c) (fun _ _ => Nat.zero_le _)
      (Finset.mem_range.mpr (p.lt_of_outstanding hout).1)
  rw [p.refs c]
  omega

/-- **Isolation in the bookkeeping.**  A chunk that a subscriber has is neither free nor on
loan. -/
theorem not_mem_of_outstanding (p : PoolOk h k a) (hout : k.outstanding s c ≠ 0) :
    c ∉ k.free ∧ c ∉ a.loans := by
  have hpos := p.refcount_pos hout
  have hplace := p.place c
  rw [if_pos (p.lt_of_outstanding hout).2] at hplace
  rw [← List.count_eq_zero, ← List.count_eq_zero]
  by_cases hsend : a.sending = some c
  · rw [hsend, Option.toList_some, List.count_singleton_self] at hplace
    omega
  · rw [if_neg (by rintro (h0 | h0); exacts [by omega, hsend h0])] at hplace
    omega

/-- A chunk on loan has no references. -/
theorem outstanding_of_loan (p : PoolOk h k a) (hc : c ∈ a.loans) (s : ℕ) :
    k.outstanding s c = 0 := by
  by_contra hout
  exact (p.not_mem_of_outstanding hout).2 hc

/-- The chunk that is being sent belongs to the service. -/
theorem lt_of_sending (p : PoolOk h k a) (hc : a.sending = some c) : c < h.chunkCount := by
  have hplace := p.place c
  rw [hc, Option.toList_some, List.count_singleton_self] at hplace
  by_contra hge
  rw [if_neg hge] at hplace
  omega

/-- **The budget.**  If the subscribers have at most `m` chunks each, the chunks that are
neither free nor being sent number at most the loans and the subscribers' shares. -/
theorem chunkCount_le (p : PoolOk h k a) (hsend : a.sending = none) (hfree : k.free = []) {m : ℕ}
    (hshare : ∀ s, s < h.maxSubscribers →
      ∑ c ∈ Finset.range h.chunkCount, k.outstanding s c ≤ m) :
    h.chunkCount ≤ a.loans.length + h.maxSubscribers * m := by
  have hone : ∀ c ∈ Finset.range h.chunkCount, 1 ≤ a.loans.count c + k.refcount c := by
    intro c hc
    have hplace := p.place c
    rw [hfree, hsend, if_pos (Finset.mem_range.mp hc)] at hplace
    simp only [List.count_nil, Option.toList_none, reduceCtorEq, or_false] at hplace
    split_ifs at hplace <;> omega
  calc h.chunkCount = ∑ _c ∈ Finset.range h.chunkCount, 1 := by simp
    _ ≤ ∑ c ∈ Finset.range h.chunkCount, (a.loans.count c + k.refcount c) :=
        Finset.sum_le_sum hone
    _ = (∑ c ∈ Finset.range h.chunkCount, a.loans.count c) +
          ∑ s ∈ Finset.range h.maxSubscribers,
            ∑ c ∈ Finset.range h.chunkCount, k.outstanding s c := by
        rw [Finset.sum_add_distrib, Finset.sum_comm]
        congr 1
        exact Finset.sum_congr rfl fun c _ => p.refs c
    _ ≤ a.loans.length + ∑ _s ∈ Finset.range h.maxSubscribers, m := by
        refine Nat.add_le_add (sum_count_le _ _) (Finset.sum_le_sum fun s hs => ?_)
        exact hshare s (Finset.mem_range.mp hs)
    _ = a.loans.length + h.maxSubscribers * m := by
        rw [Finset.sum_const, Finset.card_range, Nat.nsmul_eq_mul]

/-! ### The operations -/

/-- The members about slots do not matter. -/
theorem setSlots (p : PoolOk h k a) (act : ℕ → Bool) (fds : ℕ → Option ℕ) (l : List ℕ)
    (since : ℕ → ℕ) (ripe : ℕ → Bool) :
    PoolOk h { k with
      active := act, pidfds := fds, activeList := l, claimedSince := since, ripe := ripe } a :=
  ⟨p.refs, p.one, p.beyond, p.bounded, p.place, p.loansOut, p.loans_le⟩

/-- `outstanding_[s][c] = v` together with `refcount_[c] = r`: everything but the places. -/
theorem setRef (p : PoolOk h k a) {v r : ℕ} (hs : s < h.maxSubscribers) (hc : c < h.chunkCount)
    (hout : k'.outstanding =
      Function.update k.outstanding s (Function.update (k.outstanding s) c v))
    (href : k'.refcount = Function.update k.refcount c r) (hv : v ≤ 1)
    (hr : r + k.outstanding s c = k.refcount c + v)
    (hplace : ∀ c', k'.free.count c' + a.loans.count c' + a.sending.toList.count c' +
      (if k'.refcount c' = 0 ∨ a.sending = some c' then 0 else 1) =
        if c' < h.chunkCount then 1 else 0) : PoolOk h k' a := by
  have hself : k'.outstanding s c = v := by
    rw [hout, Function.update_self, Function.update_self]
  have hother : ∀ s' c', (s' ≠ s ∨ c' ≠ c) → k'.outstanding s' c' = k.outstanding s' c' := by
    intro s' c' hne
    rw [hout]
    by_cases hs' : s' = s
    · subst hs'
      rw [Function.update_self, Function.update_of_ne (by tauto)]
    · rw [Function.update_of_ne hs']
  refine ⟨?_, ?_, ?_, ?_, hplace, p.loansOut, p.loans_le⟩
  · intro c'
    rw [href]
    by_cases hc' : c' = c
    · subst hc'
      have hsum := sum_change hs (f := fun s' => k.outstanding s' c')
        (g := fun s' => k'.outstanding s' c') fun s' hs' => hother s' c' (.inl hs')
      rw [hself, ← p.refs c'] at hsum
      rw [Function.update_self]
      omega
    · rw [Function.update_of_ne hc', p.refs c']
      exact Finset.sum_congr rfl fun s' _ => (hother s' c' (.inr hc')).symm
  · intro s' c'
    by_cases hne : s' ≠ s ∨ c' ≠ c
    · rw [hother s' c' hne]
      exact p.one s' c'
    · obtain ⟨rfl, rfl⟩ : s' = s ∧ c' = c := by tauto
      rw [hself]
      exact hv
  · intro s' c' hs'
    rw [hother s' c' (.inl (by omega))]
    exact p.beyond s' c' hs'
  · intro s' c' hc'
    rw [hother s' c' (.inr (by omega))]
    exact p.bounded s' c' hc'

/-- `release_ref`, of a chunk that is not being sent. -/
theorem releaseRef (p : PoolOk h k a) (hn : h.maxSubscribers < 2 ^ 16)
    (hsend : k.outstanding s c ≠ 0 → a.sending ≠ some c) : PoolOk h (k.releaseRef h s c) a := by
  by_cases hout : k.outstanding s c = 0
  · have hsame : k.releaseRef h s c = k := by
      unfold Book.releaseRef
      split_ifs <;> rfl
    rw [hsame]
    exact p
  obtain ⟨hs, hc⟩ := p.lt_of_outstanding hout
  have hone : k.outstanding s c = 1 := by
    have := p.one s c
    omega
  have hpos := p.refcount_pos hout
  have hdec : dec16 (k.refcount c) = k.refcount c - 1 := by
    have := p.refcount_le c
    unfold dec16
    omega
  have hzero : dec16 (k.outstanding s c) = 0 := by
    unfold dec16
    omega
  have hrefs : (k.releaseRef h s c).refcount = Function.update k.refcount c (k.refcount c - 1) := by
    rw [Book.releaseRef_of_outstanding hc hout, Book.freeIfUnused_refcount, ← hdec]
    rfl
  refine p.setRef hs hc (Book.releaseRef_outstanding hc hout) hrefs (by omega) (by omega) ?_
  intro c'
  have hplace := p.place c'
  rw [hrefs, Book.releaseRef_of_outstanding hc hout, Book.freeIfUnused_count]
  have hnow : ((k.setOutstanding s c (dec16 (k.outstanding s c))).setRefcount c
      (dec16 (k.refcount c))).refcount c = k.refcount c - 1 := by
    rw [← hdec]
    exact Function.update_self ..
  rw [hnow]
  show k.free.count c' + _ + _ + _ + _ = _
  by_cases hc' : c' = c
  · subst hc'
    rw [Function.update_self]
    simp only [hsend hout, or_false, true_and] at hplace ⊢
    split_ifs at hplace ⊢ <;> omega
  · rw [Function.update_of_ne hc', if_neg fun hcc => hc' hcc.1.symm]
    exact hplace

/-- `deliver` gives a subscriber the chunk that is being sent. -/
theorem addRef (p : PoolOk h k a) (hn : h.maxSubscribers < 2 ^ 16) (hs : s < h.maxSubscribers)
    (hsend : a.sending = some c) (hout : k.outstanding s c = 0) : PoolOk h (k.addRef s c) a := by
  have hlt : k.refcount c < h.maxSubscribers := by
    rw [p.refs c]
    calc ∑ s ∈ Finset.range h.maxSubscribers, k.outstanding s c
        < ∑ _s ∈ Finset.range h.maxSubscribers, 1 := by
          refine Finset.sum_lt_sum (fun s _ => p.one s c) ⟨s, Finset.mem_range.mpr hs, ?_⟩
          omega
      _ = h.maxSubscribers := by simp
  have hinc : inc16 (k.refcount c) = k.refcount c + 1 := by
    unfold inc16
    omega
  have hone : inc16 (k.outstanding s c) = 1 := by
    unfold inc16
    omega
  have hrefs : (k.addRef s c).refcount = Function.update k.refcount c (k.refcount c + 1) := by
    rw [← hinc]
    rfl
  refine p.setRef hs (p.lt_of_sending hsend) rfl hrefs (by omega) (by omega) ?_
  intro c'
  have hplace := p.place c'
  rw [hrefs]
  show k.free.count c' + _ + _ + _ = _
  by_cases hc' : c' = c
  · subst hc'
    rw [← hplace]
    simp only [hsend, or_true]
  · rw [Function.update_of_ne hc']
    exact hplace

/-- The loop of `reclaim_slot` keeps the places, clears the row of the slot and leaves the
other rows. -/
theorem reclaimChunks (p : PoolOk h k a) (hn : h.maxSubscribers < 2 ^ 16)
    (hsend : ∀ c, a.sending = some c → k.outstanding s c = 0) :
    PoolOk h (k.reclaimChunks h s) a ∧ (k.reclaimChunks h s).slots = k.slots ∧
      (∀ c, (k.reclaimChunks h s).outstanding s c = 0) ∧
      ∀ s', s' ≠ s → (k.reclaimChunks h s).outstanding s' = k.outstanding s' := by
  -- the chunks of a list are cleared, one release after the other
  have hfold : ∀ (l : List ℕ) (k : Book), (∀ c ∈ l, c < h.chunkCount) → PoolOk h k a →
      (∀ c, a.sending = some c → k.outstanding s c = 0) →
      ∃ k', l.foldl (fun k c => k.reclaimChunk s c) k = k' ∧ PoolOk h k' a ∧
        (∀ c, k'.outstanding s c ≤ k.outstanding s c) ∧
        (∀ c ∈ l, k'.outstanding s c = 0) ∧
        ∀ s', s' ≠ s → k'.outstanding s' = k.outstanding s' := by
    intro l
    induction l with
    | nil =>
        intro k _ p _
        refine ⟨k, rfl, p, fun c => Nat.le_refl _, ?_, fun s' _ => rfl⟩
        intro c hc
        exact absurd hc List.not_mem_nil
    | cons c l ih =>
        intro k hlt p hsend
        have hc := hlt c List.mem_cons_self
        have hrow : ∀ c', (k.releaseRef h s c).outstanding s c' =
            if c' = c then 0 else k.outstanding s c' := by
          intro c'
          rw [Book.releaseRef_apply hc (p.one s c)]
          simp only [true_and]
        have hrows : ∀ s', s' ≠ s →
            (k.releaseRef h s c).outstanding s' = k.outstanding s' := by
          intro s' hs'
          funext c'
          rw [Book.releaseRef_apply hc (p.one s c), if_neg fun heq => hs' heq.1]
        have p' := p.releaseRef (s := s) (c := c) hn fun hne heq => hne (hsend c heq)
        obtain ⟨k', hk', hp', hle, hzero, hrest⟩ :=
          ih (k.releaseRef h s c) (fun c' hc' => hlt c' (List.mem_cons_of_mem _ hc')) p' (by
            intro c' hc'
            rw [hrow, hsend c' hc']
            split_ifs <;> rfl)
        refine ⟨k', ?_, hp', ?_, ?_, ?_⟩
        · rw [List.foldl_cons, Book.reclaimChunk_eq hc (p.one s c)]
          exact hk'
        · intro c'
          have := hle c'
          rw [hrow] at this
          split_ifs at this <;> omega
        · intro c' hc'
          rcases List.mem_cons.mp hc' with rfl | hmem
          · have := hle c'
            rw [hrow, if_pos rfl] at this
            omega
          · exact hzero c' hmem
        · intro s' hs'
          rw [hrest s' hs', hrows s' hs']
  obtain ⟨k', hk', hp', hle, hzero, hrest⟩ :=
    hfold (List.range h.chunkCount) k (fun c hc => List.mem_range.mp hc) p hsend
  refine ⟨?_, Book.reclaimChunks_slots, ?_⟩ <;> rw [show k.reclaimChunks h s = k' from hk']
  · exact hp'
  refine ⟨?_, hrest⟩
  intro c
  by_cases hc : c < h.chunkCount
  · exact hzero c (List.mem_range.mpr hc)
  · exact hp'.bounded s c (by omega)

/-- `loan` takes the top of `free_`. -/
theorem pop (p : PoolOk h k a) {rest : List ℕ} (hfree : k.free = c :: rest)
    (hlt : a.loansOut < h.maxLoans) :
    PoolOk h { k with free := rest }
      { a with loansOut := a.loansOut + 1, loans := c :: a.loans } := by
  refine ⟨p.refs, p.one, p.beyond, p.bounded, ?_, ?_, ?_⟩
  · intro c'
    have hplace := p.place c'
    rw [hfree] at hplace
    simp only [List.count_cons] at hplace ⊢
    omega
  · show a.loansOut + 1 = (c :: a.loans).length
    rw [List.length_cons, p.loansOut]
  · show (c :: a.loans).length ≤ _
    rw [List.length_cons, ← p.loansOut]
    exact hlt

/-- What leaves `loans`. -/
theorem count_erase {l : List ℕ} (hc : c ∈ l) (c' : ℕ) :
    l.count c' = (l.erase c).count c' + if c = c' then 1 else 0 := by
  rw [(List.perm_cons_erase hc).count_eq c', List.count_cons]
  simp only [beq_iff_eq]

/-- `release_loan`. -/
theorem releaseLoan (p : PoolOk h k a) (hc : c ∈ a.loans) :
    PoolOk h (k.freeChunk c) { a with loansOut := a.loansOut - 1, loans := a.loans.erase c } := by
  have hlen := List.length_erase_of_mem hc
  refine ⟨p.refs, p.one, p.beyond, p.bounded, ?_, ?_, ?_⟩
  · intro c'
    have hplace := p.place c'
    rw [count_erase hc] at hplace
    show (c :: k.free).count c' + (a.loans.erase c).count c' + a.sending.toList.count c' +
      (if k.refcount c' = 0 ∨ a.sending = some c' then 0 else 1) = _
    rw [List.count_cons]
    simp only [beq_iff_eq]
    omega
  · show a.loansOut - 1 = (a.loans.erase c).length
    rw [hlen, p.loansOut]
  · have := p.loans_le
    show (a.loans.erase c).length ≤ _
    omega

/-- `send` takes a chunk off loan. -/
theorem beginSend (p : PoolOk h k a) (hc : c ∈ a.loans) (hidle : a.sending = none) (n : ℕ) :
    PoolOk h k { a with
      loansOut := a.loansOut - 1
      loans := a.loans.erase c
      sending := some c
      sentTo := []
      nextSeq := n } := by
  have hlen := List.length_erase_of_mem hc
  refine ⟨p.refs, p.one, p.beyond, p.bounded, ?_, ?_, ?_⟩
  · intro c'
    have hplace := p.place c'
    rw [count_erase hc, hidle] at hplace
    show k.free.count c' + (a.loans.erase c).count c' + [c].count c' +
      (if k.refcount c' = 0 ∨ some c = some c' then 0 else 1) = _
    rw [List.count_singleton]
    have hunref : c = c' → k.refcount c' = 0 := by
      rintro rfl
      rw [p.refs c]
      exact Finset.sum_eq_zero fun s _ => p.outstanding_of_loan hc s
    simp only [Option.toList_none, List.count_nil, reduceCtorEq, or_false, beq_iff_eq,
      Option.some.injEq] at hplace ⊢
    by_cases heq : c = c'
    · rw [if_pos (hunref heq)] at hplace
      rw [if_pos heq] at hplace ⊢
      rw [if_pos (.inr heq)]
      exact hplace
    · simp only [heq, or_false, if_false] at hplace ⊢
      omega
  · show a.loansOut - 1 = (a.loans.erase c).length
    rw [hlen, p.loansOut]
  · have := p.loans_le
    show (a.loans.erase c).length ≤ _
    omega

/-- The end of `send`: a chunk that nobody took is freed. -/
theorem endSend (p : PoolOk h k a) (hc : a.sending = some c) (l : List (SendReport × ℕ)) :
    PoolOk h (k.freeIfUnused c) { a with sending := none, sentTo := [], reports := l } := by
  refine ⟨?_, ?_, ?_, ?_, ?_, p.loansOut, p.loans_le⟩
  · rw [Book.freeIfUnused_refcount, Book.freeIfUnused_outstanding]
    exact p.refs
  · rw [Book.freeIfUnused_outstanding]
    exact p.one
  · rw [Book.freeIfUnused_outstanding]
    exact p.beyond
  · rw [Book.freeIfUnused_outstanding]
    exact p.bounded
  · intro c'
    have hplace := p.place c'
    rw [Book.freeIfUnused_count, Book.freeIfUnused_refcount]
    show k.free.count c' + _ + a.loans.count c' + _ +
      (if k.refcount c' = 0 ∨ none = some c' then 0 else 1) = _
    rw [hc, Option.toList_some, List.count_singleton] at hplace
    simp only [Option.toList_none, List.count_nil, reduceCtorEq, or_false, beq_iff_eq,
      Option.some.injEq] at hplace ⊢
    by_cases heq : c = c'
    · subst heq
      simp only [or_true, if_true, true_and] at hplace ⊢
      split_ifs at hplace ⊢ <;> omega
    · simp only [heq, or_false, if_false, false_and] at hplace ⊢
      omega

end PoolOk

end Devbus
