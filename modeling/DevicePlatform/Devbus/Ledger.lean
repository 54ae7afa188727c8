/-
# The ledger of a slot

The words of a slot are two rings of chunk indices.  `Matches` ties them to the slot's
ledger, in which every sample that was pushed stays on record:

* the data ring is a window of the log of pushed entries, the done ring one of the log of
  released chunks (`RingLog`);
* an entry is queued, in the owner's hands or released and not yet taken back, and
  nowhere twice (`once`);
* the publisher's count `outstanding_[s]` is the number of these places (`out`);
* an entry that has left the queue was taken or evicted (`fate`).

Each operation on the rings keeps `Matches`; these lemmas are what the publisher's and
the subscribers' steps use.  Where a chunk is, is counted with `List.count`, so that every
step is an equation between numbers.
-/
import DevicePlatform.Devbus.State
import DevicePlatform.RingLog
import Mathlib.Algebra.BigOperators.Group.Finset.Basic
import Mathlib.Algebra.BigOperators.Group.Finset.Piecewise
import Mathlib.Data.List.Count
import Mathlib.Data.List.Nodup
import Mathlib.Data.List.Perm.Basic

namespace Devbus

/-- What the constructor guarantees of the header of an admitted service. -/
structure Header.Exact (h : Header) : Prop where
  queue_pow : ∃ k, h.queueCapacity = 2 ^ k
  queue_lt : h.queueCapacity < 2 ^ 64
  done_pow : ∃ k, h.completionCapacity = 2 ^ k
  done_lt : h.completionCapacity < 2 ^ 64
  count_le : h.chunkCount ≤ h.completionCapacity
  subs_lt : h.maxSubscribers < 2 ^ 16
  budget : h.chunkCount =
    h.maxSubscribers * (h.queueCapacity + h.maxBorrowed) + h.maxLoans

/-- `k & (cap - 1)` for a capacity that is a power of two. -/
theorem land_mask {cap k : ℕ} (h : ∃ j, cap = 2 ^ j) : k &&& (cap - 1) = k % cap := by
  obtain ⟨j, rfl⟩ := h
  exact Nat.and_two_pow_sub_one_eq_mod k j

/-- The element that leaves a suffix, counted. -/
theorem count_drop {α : Type*} [DecidableEq α] {l : List α} {t : ℕ} (h : t < l.length) (x : α) :
    (l.drop t).count x = (l.drop (t + 1)).count x + if l[t] = x then 1 else 0 := by
  rw [List.drop_eq_getElem_cons h, List.count_cons]
  simp only [beq_iff_eq]

/-- The counts of a list add up to at most its length. -/
theorem sum_count_le (n : ℕ) (l : List ℕ) : ∑ c ∈ Finset.range n, l.count c ≤ l.length := by
  induction l with
  | nil => simp
  | cons x l ih =>
      simp only [List.count_cons, Finset.sum_add_distrib, List.length_cons, beq_iff_eq,
        Finset.sum_ite_eq]
      split_ifs <;> omega

/-- How often chunk `c` is in the data ring. -/
def queued (w : SlotWords) (l : Ledger) (c : ℕ) : ℕ :=
  ((l.pushed.map Entry.chunk).drop w.dataTail).count c

/-- How often chunk `c` is in the owner's hands. -/
def handed (l : Ledger) (c : ℕ) : ℕ := (l.hand.map Entry.chunk).count c

/-- The words of a slot and the publisher's counts match its ledger. -/
structure Matches (h : Header) (w : SlotWords) (l : Ledger) (out : ℕ → ℕ) : Prop where
  head : w.dataHead = l.pushed.length
  tail_le : w.dataTail ≤ l.pushed.length
  queue_le : l.pushed.length - w.dataTail ≤ h.queueCapacity
  ring : RingLog h.queueCapacity w.dataRing (l.pushed.map Entry.chunk) w.dataTail
  doneHead : w.doneHead = l.released.length
  doneTail_le : w.doneTail ≤ l.doneRead
  doneRead_le : l.doneRead ≤ l.released.length
  doneRing : RingLog h.completionCapacity w.doneRing l.released w.doneTail
  once : ∀ c, queued w l c + handed l c + (l.released.drop w.doneTail).count c ≤ 1
  bounded : ∀ c, h.chunkCount ≤ c →
    queued w l c + handed l c + (l.released.drop w.doneTail).count c = 0
  out : ∀ c, out c = queued w l c + handed l c + (l.released.drop l.doneRead).count c
  hand_le : l.hand.length ≤ h.maxBorrowed
  fate : (l.taken ++ l.evicted).Perm (l.pushed.take w.dataTail)
  kept : l.taken.Sublist (l.pushed.take w.dataTail)
  order : (0 :: l.pushed.map Entry.seq).Pairwise (· < ·)
  full : ∀ x ∈ l.fullAt, x = h.queueCapacity
  flow : l.taken.length = l.hand.length + l.released.length
  policy : l.evicted ≠ [] → w.overflow = .dropOldest
  preceded : ∀ x ∈ l.refused, ∃ e ∈ l.pushed, e.seq < x.1
  counted : l.fullAt.length = l.evicted.length + l.refused.length

namespace Matches

variable {h : Header} {w : SlotWords} {l : Ledger} {out : ℕ → ℕ}

/-- What has been taken back by the publisher is among what was released since the last
store of `done_tail`. -/
theorem count_doneRead_le (m : Matches h w l out) (c : ℕ) :
    (l.released.drop l.doneRead).count c ≤ (l.released.drop w.doneTail).count c := by
  have hsplit : l.released.drop l.doneRead =
      (l.released.drop w.doneTail).drop (l.doneRead - w.doneTail) := by
    rw [List.drop_drop, Nat.add_sub_cancel' m.doneTail_le]
  rw [hsplit]
  exact (List.drop_sublist _ _).count_le c

/-- The publisher's count is 0 or 1. -/
theorem out_le_one (m : Matches h w l out) (c : ℕ) : out c ≤ 1 := by
  have h1 := m.once c
  have h2 := m.count_doneRead_le c
  rw [m.out c]
  omega

/-- An entry of the data ring is counted. -/
theorem out_of_queued (m : Matches h w l out) {k : ℕ} (hk : w.dataTail ≤ k)
    (hlt : k < l.pushed.length) : out l.pushed[k].chunk = 1 := by
  have hmem : l.pushed[k].chunk ∈ (l.pushed.map Entry.chunk).drop w.dataTail := by
    rw [← List.map_drop]
    refine List.mem_map_of_mem ?_
    rw [List.mem_iff_getElem]
    exact ⟨k - w.dataTail, by rw [List.length_drop]; omega, by
      rw [List.getElem_drop]; congr 1; omega⟩
  have h1 : 1 ≤ queued w l l.pushed[k].chunk := List.count_pos_iff.mpr hmem
  have h2 := m.out l.pushed[k].chunk
  have h3 := m.out_le_one l.pushed[k].chunk
  omega

/-- An entry in the owner's hands is counted. -/
theorem out_of_hand (m : Matches h w l out) {e : Entry} (he : e ∈ l.hand) : out e.chunk = 1 := by
  have h1 : 1 ≤ handed l e.chunk := List.count_pos_iff.mpr (List.mem_map_of_mem he)
  have h2 := m.out e.chunk
  have h3 := m.out_le_one e.chunk
  omega

/-- **A slot's share.**  The chunks that the publisher counts for a slot are the entries of
its two rings and of its owner's hands. -/
theorem sum_out_le (m : Matches h w l out) (n : ℕ) :
    ∑ c ∈ Finset.range n, out c ≤
      l.pushed.length - w.dataTail + l.hand.length + (l.released.length - l.doneRead) := by
  have h1 := sum_count_le n ((l.pushed.map Entry.chunk).drop w.dataTail)
  have h2 := sum_count_le n (l.hand.map Entry.chunk)
  have h3 := sum_count_le n (l.released.drop l.doneRead)
  rw [List.length_drop, List.length_map] at h1
  rw [List.length_map] at h2
  rw [List.length_drop] at h3
  rw [Finset.sum_congr rfl fun c _ => m.out c, Finset.sum_add_distrib, Finset.sum_add_distrib]
  unfold queued handed
  omega

/-- A slot without entries. -/
theorem fresh (hw : w.dataHead = 0 ∧ w.dataTail = 0 ∧ w.doneHead = 0 ∧ w.doneTail = 0)
    (hl : l.pushed = [] ∧ l.evicted = [] ∧ l.taken = [] ∧ l.hand = [] ∧ l.released = [] ∧
      l.doneRead = 0 ∧ l.fullAt = [] ∧ l.refused = []) (hout : ∀ c, out c = 0) :
    Matches h w l out := by
  obtain ⟨hh, ht, hdh, hdt⟩ := hw
  obtain ⟨hp, hev, htk, hha, hre, hdr, hfu, href⟩ := hl
  refine ⟨?_, ?_, ?_, ?_, ?_, ?_, ?_, ?_, ?_, ?_, ?_, ?_, ?_, ?_, ?_, ?_, ?_,
    fun hne => absurd hev hne, ?_, ?_⟩ <;>
    simp only [hh, ht, hdh, hdt, hp, hev, htk, hha, hre, hdr, hfu, href, hout, queued, handed,
      List.map_nil, List.length_nil, List.drop_nil, List.count_nil, List.take_nil,
      List.append_nil, List.Perm.refl, List.Sublist.refl, List.pairwise_singleton, Nat.le_refl,
      Nat.zero_le, Nat.sub_self, Nat.add_zero, implies_true, List.not_mem_nil, false_implies]
  · exact RingLog.of_length_le (Nat.zero_le _)
  · exact RingLog.of_length_le (Nat.zero_le _)

/-- The state word and the stage are not part of it. -/
theorem relabel (m : Matches h w l out) (v : SlotState) (t : Stage) :
    Matches h { w with state := v } { l with stage := t } out :=
  ⟨m.head, m.tail_le, m.queue_le, m.ring, m.doneHead, m.doneTail_le, m.doneRead_le, m.doneRing,
    m.once, m.bounded, m.out, m.hand_le, m.fate, m.kept, m.order, m.full, m.flow, m.policy,
    m.preceded, m.counted⟩

/-! ### The publisher's operations -/

/-- `ring[head & mask] = chunk`: the slot of the next entry is outside the window. -/
theorem writeRing (m : Matches h w l out) (c : ℕ)
    (hroom : l.pushed.length - w.dataTail < h.queueCapacity) :
    Matches h { w with
      dataRing := Function.update w.dataRing (l.pushed.length % h.queueCapacity) c } l out := by
  refine ⟨m.head, m.tail_le, m.queue_le, ?_, m.doneHead, m.doneTail_le, m.doneRead_le, m.doneRing,
    m.once, m.bounded, m.out, m.hand_le, m.fate, m.kept, m.order, m.full, m.flow, m.policy,
    m.preceded, m.counted⟩
  have hring := m.ring.write (by rw [List.length_map]; exact hroom) c
  rw [List.length_map] at hring
  exact hring

/-- `data_head = head + 1` publishes an entry of a chunk that the owner does not have. -/
theorem push {e : Entry} (m : Matches h w l out)
    (hroom : l.pushed.length - w.dataTail < h.queueCapacity)
    (hslot : w.dataRing (l.pushed.length % h.queueCapacity) = e.chunk)
    (hdone : w.doneTail = l.doneRead) (hnew : out e.chunk = 0) (hlt : e.chunk < h.chunkCount)
    (hpos : 0 < e.seq) (hseq : ∀ x ∈ l.pushed, x.seq < e.seq) :
    Matches h { w with dataHead := l.pushed.length + 1 } { l with pushed := l.pushed ++ [e] }
      (Function.update out e.chunk (inc16 (out e.chunk))) := by
  have hle : w.dataTail ≤ (l.pushed.map Entry.chunk).length := by
    rw [List.length_map]
    exact m.tail_le
  have hqueued : ∀ c, (((l.pushed ++ [e]).map Entry.chunk).drop w.dataTail).count c =
      queued w l c + if e.chunk = c then 1 else 0 := by
    intro c
    rw [List.map_append, List.drop_append_of_le_length hle, List.count_append, List.map_singleton,
      List.count_singleton]
    simp only [queued, beq_iff_eq]
  refine ⟨?_, ?_, ?_, ?_, m.doneHead, m.doneTail_le, m.doneRead_le, m.doneRing, ?_, ?_, ?_,
    m.hand_le, ?_, ?_, ?_, m.full, m.flow, m.policy, ?_, m.counted⟩
  · rw [List.length_append, List.length_singleton]
  · rw [List.length_append]
    exact Nat.le_add_right_of_le m.tail_le
  · rw [List.length_append, List.length_singleton]
    have := m.tail_le
    dsimp only
    omega
  · rw [List.map_append]
    refine m.ring.publish ?_
    rw [List.length_map]
    exact hslot
  · intro c
    have h1 := m.once c
    have h2 := m.out c
    show (((l.pushed ++ [e]).map Entry.chunk).drop w.dataTail).count c + handed l c +
      (l.released.drop w.doneTail).count c ≤ 1
    rw [hqueued, hdone]
    rw [hdone] at h1
    split_ifs with heq
    · subst heq
      omega
    · omega
  · intro c hc
    have h1 := m.bounded c hc
    show (((l.pushed ++ [e]).map Entry.chunk).drop w.dataTail).count c + handed l c +
      (l.released.drop w.doneTail).count c = 0
    rw [hqueued, if_neg (by omega)]
    exact h1
  · intro c
    have h2 := m.out c
    show Function.update out e.chunk (inc16 (out e.chunk)) c =
      (((l.pushed ++ [e]).map Entry.chunk).drop w.dataTail).count c + handed l c +
        (l.released.drop l.doneRead).count c
    rw [hqueued, Function.update_apply, hnew]
    split_ifs with h3 h4 h4
    · subst h3
      simp only [inc16]
      omega
    · exact absurd h3.symm h4
    · exact absurd h4.symm h3
    · exact h2
  · rw [List.take_append_of_le_length m.tail_le]
    exact m.fate
  · rw [List.take_append_of_le_length m.tail_le]
    exact m.kept
  · rw [List.map_append, ← List.cons_append, List.pairwise_append]
    refine ⟨m.order, List.pairwise_singleton _ _, ?_⟩
    intro a ha b hb
    rw [List.map_singleton, List.mem_singleton] at hb
    rw [hb]
    rcases List.mem_cons.mp ha with rfl | ha
    · exact hpos
    · obtain ⟨x, hx, rfl⟩ := List.mem_map.mp ha
      exact hseq x hx
  · intro x hx
    obtain ⟨e', he', hlt'⟩ := m.preceded x hx
    exact ⟨e', List.mem_append_left _ he', hlt'⟩

/-- The queue after `data_tail` has moved past its oldest entry. -/
theorem queued_succ (hlt : w.dataTail < l.pushed.length) (c : ℕ) :
    queued w l c = ((l.pushed.map Entry.chunk).drop (w.dataTail + 1)).count c +
      if l.pushed[w.dataTail].chunk = c then 1 else 0 := by
  unfold queued
  rw [count_drop (by rw [List.length_map]; exact hlt), List.getElem_map]

/-- An eviction takes the oldest entry of a full queue. -/
theorem evict (m : Matches h w l out) (hpolicy : w.overflow = .dropOldest)
    (hlt : w.dataTail < l.pushed.length) (hfull : l.pushed.length - w.dataTail = h.queueCapacity) :
    Matches h { w with dataTail := w.dataTail + 1 }
      { l with
        evicted := l.evicted ++ [l.pushed[w.dataTail]]
        fullAt := l.fullAt ++ [w.dataHead - w.dataTail] }
      (Function.update out l.pushed[w.dataTail].chunk
        (dec16 (out l.pushed[w.dataTail].chunk))) := by
  refine ⟨m.head, hlt, ?_, m.ring.advance (Nat.le_succ _), m.doneHead, m.doneTail_le,
    m.doneRead_le, m.doneRing, ?_, ?_, ?_, m.hand_le, ?_, ?_, m.order, ?_, m.flow, fun _ => hpolicy,
    m.preceded, ?_⟩
  · have := m.queue_le
    dsimp only
    omega
  · intro c
    have h1 := m.once c
    rw [queued_succ hlt] at h1
    unfold queued handed at *
    dsimp only at h1 ⊢
    omega
  · intro c hc
    have h1 := m.bounded c hc
    rw [queued_succ hlt] at h1
    unfold queued handed at *
    dsimp only at h1 ⊢
    omega
  · intro c
    have h1 := m.out c
    rw [queued_succ hlt] at h1
    rw [Function.update_apply, m.out_of_queued (Nat.le_refl _) hlt]
    unfold queued handed at *
    dsimp only at h1 ⊢
    split_ifs with h3
    · subst h3
      have hone := m.out_of_queued (Nat.le_refl _) hlt
      rw [if_pos rfl] at h1
      simp only [dec16]
      omega
    · rw [if_neg (fun h => h3 h.symm)] at h1
      omega
  · rw [List.take_add_one, List.getElem?_eq_getElem hlt, Option.toList_some, ← List.append_assoc]
    exact m.fate.append_right _
  · rw [List.take_add_one]
    exact m.kept.trans (List.sublist_append_left _ _)
  · intro x hx
    rcases List.mem_append.mp hx with hold | hnew
    · exact m.full x hold
    · rw [List.mem_singleton.mp hnew, m.head]
      exact hfull
  · have := m.counted
    simp only [List.length_append, List.length_singleton]
    omega

/-- Onboarding, a load of `data_tail` in `deliver` and a refusal change only what is on
record beside the rings. -/
theorem record (m : Matches h w l out) {r : List (ℕ × Refusal)}
    (hr : ∀ y ∈ r, ∃ e ∈ l.pushed, e.seq < y.1) (n x : ℕ) (xs : List ℕ)
    (hfull : ∀ y ∈ xs, y = h.queueCapacity) (hlen : r.length = l.refused.length + xs.length) :
    Matches h w { l with refused := r, onboardSeq := n, seen := x, fullAt := l.fullAt ++ xs }
      out := by
  refine ⟨m.head, m.tail_le, m.queue_le, m.ring, m.doneHead, m.doneTail_le, m.doneRead_le,
    m.doneRing, m.once, m.bounded, m.out, m.hand_le, m.fate, m.kept, m.order, ?_, m.flow,
    m.policy, hr, ?_⟩
  · intro y hy
    rcases List.mem_append.mp hy with hold | hnew
    · exact m.full y hold
    · exact hfull y hnew
  · have := m.counted
    rw [List.length_append]
    dsimp only
    omega

/-- `drain_done` takes back one released chunk. -/
theorem drainOne (m : Matches h w l out) (hlt : l.doneRead < l.released.length) :
    Matches h w { l with doneRead := l.doneRead + 1 }
      (Function.update out l.released[l.doneRead] (dec16 (out l.released[l.doneRead]))) := by
  refine ⟨m.head, m.tail_le, m.queue_le, m.ring, m.doneHead, Nat.le_succ_of_le m.doneTail_le,
    hlt, m.doneRing, m.once, m.bounded, ?_, m.hand_le, m.fate, m.kept, m.order, m.full, m.flow,
    m.policy, m.preceded, m.counted⟩
  intro c
  have h1 := m.out c
  have h2 := m.out_le_one c
  rw [count_drop hlt] at h1
  rw [Function.update_apply]
  show _ = queued w l c + handed l c + (l.released.drop (l.doneRead + 1)).count c
  split_ifs with h3
  · subst h3
    rw [if_pos rfl] at h1
    simp only [dec16]
    omega
  · rw [if_neg (fun h => h3 h.symm)] at h1
    omega

/-- The chunk that `drain_done` takes back is outstanding. -/
theorem out_of_released (m : Matches h w l out) (hlt : l.doneRead < l.released.length) :
    out l.released[l.doneRead] = 1 := by
  have h1 := m.out l.released[l.doneRead]
  have h2 := m.out_le_one l.released[l.doneRead]
  rw [count_drop hlt, if_pos rfl] at h1
  omega

/-- `done_tail = tail` after the loop of `drain_done`. -/
theorem drainEnd (m : Matches h w l out) :
    Matches h { w with doneTail := l.doneRead } l out := by
  refine ⟨m.head, m.tail_le, m.queue_le, m.ring, m.doneHead, Nat.le_refl _, m.doneRead_le,
    m.doneRing.advance m.doneTail_le, ?_, ?_, m.out, m.hand_le, m.fate, m.kept, m.order, m.full,
    m.flow, m.policy, m.preceded, m.counted⟩
  · intro c
    have h1 := m.once c
    have h2 := m.count_doneRead_le c
    unfold queued handed at *
    dsimp only at h1 ⊢
    omega
  · intro c hc
    have h1 := m.bounded c hc
    have h2 := m.count_doneRead_le c
    unfold queued handed at *
    dsimp only at h1 ⊢
    omega

/-! ### The subscriber's operations -/

/-- A pop takes the oldest entry into the owner's hands. -/
theorem take (m : Matches h w l out) (hlt : w.dataTail < l.pushed.length)
    (hhand : l.hand.length < h.maxBorrowed) :
    Matches h { w with dataTail := w.dataTail + 1 }
      { l with
        taken := l.taken ++ [l.pushed[w.dataTail]]
        hand := l.hand ++ [l.pushed[w.dataTail]] } out := by
  have hmoved : ∀ c, queued w l c + handed l c =
      ((l.pushed.map Entry.chunk).drop (w.dataTail + 1)).count c +
        ((l.hand ++ [l.pushed[w.dataTail]]).map Entry.chunk).count c := by
    intro c
    rw [queued_succ hlt, List.map_append, List.count_append, List.map_singleton,
      List.count_singleton]
    simp only [handed, beq_iff_eq]
    omega
  refine ⟨m.head, hlt, ?_, m.ring.advance (Nat.le_succ _), m.doneHead, m.doneTail_le,
    m.doneRead_le, m.doneRing, ?_, ?_, ?_, ?_, ?_, ?_, m.order, m.full, ?_, m.policy, m.preceded,
    m.counted⟩
  · have := m.queue_le
    dsimp only
    omega
  · intro c
    have h1 := m.once c
    rw [hmoved] at h1
    exact h1
  · intro c hc
    have h1 := m.bounded c hc
    rw [hmoved] at h1
    exact h1
  · intro c
    rw [m.out c, hmoved]
    rfl
  · rw [List.length_append, List.length_singleton]
    exact hhand
  · rw [List.take_add_one, List.getElem?_eq_getElem hlt, Option.toList_some]
    refine List.Perm.trans ?_ (m.fate.append_right _)
    rw [List.append_assoc, List.append_assoc]
    exact List.perm_append_comm.append_left _
  · rw [List.take_add_one, List.getElem?_eq_getElem hlt, Option.toList_some]
    exact m.kept.append_right _
  · have := m.flow
    simp only [List.length_append, List.length_singleton]
    omega

/-- Chunks that are in the done ring or in the owner's hands are distinct chunks of the
service. -/
theorem done_add_hand_le (m : Matches h w l out) :
    l.released.length - w.doneTail + l.hand.length ≤ h.chunkCount := by
  have hcount : ∀ c, (l.released.drop w.doneTail ++ l.hand.map Entry.chunk).count c =
      handed l c + (l.released.drop w.doneTail).count c := by
    intro c
    rw [List.count_append, Nat.add_comm]
    rfl
  have hnodup : (l.released.drop w.doneTail ++ l.hand.map Entry.chunk).Nodup := by
    refine List.nodup_iff_count_le_one.mpr fun c => ?_
    have := m.once c
    rw [hcount]
    omega
  have hsub : l.released.drop w.doneTail ++ l.hand.map Entry.chunk ⊆ List.range h.chunkCount := by
    intro c hc
    rw [List.mem_range]
    by_contra hge
    have hpos := List.count_pos_iff.mpr hc
    have := m.bounded c (by omega)
    rw [hcount] at hpos
    omega
  have hlen := (List.subperm_of_subset hnodup hsub).length_le
  rwa [List.length_append, List.length_drop, List.length_map, List.length_range] at hlen

/-- While a sample is borrowed the done ring has room. -/
theorem doneRoom (m : Matches h w l out) (hcount : h.chunkCount ≤ h.completionCapacity)
    {e : Entry} (he : e ∈ l.hand) :
    l.released.length - w.doneTail < h.completionCapacity := by
  have h1 := m.done_add_hand_le
  have h2 := List.length_pos_of_mem he
  omega

/-- `ring[head & done_mask] = chunk`: the slot of the next entry is outside the window. -/
theorem writeDone (m : Matches h w l out) (c : ℕ)
    (hroom : l.released.length - w.doneTail < h.completionCapacity) :
    Matches h { w with
      doneRing := Function.update w.doneRing (l.released.length % h.completionCapacity) c } l
      out := by
  exact ⟨m.head, m.tail_le, m.queue_le, m.ring, m.doneHead, m.doneTail_le, m.doneRead_le,
    m.doneRing.write hroom c, m.once, m.bounded, m.out, m.hand_le, m.fate, m.kept, m.order,
    m.full, m.flow, m.policy, m.preceded, m.counted⟩

/-- `done_head = head + 1` gives a borrowed chunk back. -/
theorem release {e : Entry} (m : Matches h w l out) (he : e ∈ l.hand)
    (hslot : w.doneRing (l.released.length % h.completionCapacity) = e.chunk) :
    Matches h { w with doneHead := l.released.length + 1 }
      { l with released := l.released ++ [e.chunk], hand := l.hand.erase e } out := by
  have hhand : ∀ c, handed l c =
      (if e.chunk = c then 1 else 0) + ((l.hand.erase e).map Entry.chunk).count c := by
    intro c
    unfold handed
    rw [((List.perm_cons_erase he).map Entry.chunk).count_eq c, List.map_cons, List.count_cons]
    simp only [beq_iff_eq]
    omega
  have hdone : ∀ t, t ≤ l.released.length → ∀ c, ((l.released ++ [e.chunk]).drop t).count c =
      (l.released.drop t).count c + if e.chunk = c then 1 else 0 := by
    intro t ht c
    rw [List.drop_append_of_le_length ht, List.count_append, List.count_singleton]
    simp only [beq_iff_eq]
  have htail := Nat.le_trans m.doneTail_le m.doneRead_le
  refine ⟨m.head, m.tail_le, m.queue_le, m.ring, ?_, m.doneTail_le, ?_,
    m.doneRing.publish hslot, ?_, ?_, ?_, ?_, m.fate, m.kept, m.order, m.full, ?_, m.policy,
    m.preceded, m.counted⟩
  · rw [List.length_append, List.length_singleton]
  · rw [List.length_append]
    exact Nat.le_add_right_of_le m.doneRead_le
  · intro c
    have h1 := m.once c
    rw [hhand] at h1
    show queued w l c + ((l.hand.erase e).map Entry.chunk).count c +
      ((l.released ++ [e.chunk]).drop w.doneTail).count c ≤ 1
    rw [hdone _ htail]
    omega
  · intro c hc
    have h1 := m.bounded c hc
    rw [hhand] at h1
    show queued w l c + ((l.hand.erase e).map Entry.chunk).count c +
      ((l.released ++ [e.chunk]).drop w.doneTail).count c = 0
    rw [hdone _ htail]
    omega
  · intro c
    have h1 := m.out c
    rw [hhand] at h1
    show out c = queued w l c + ((l.hand.erase e).map Entry.chunk).count c +
      ((l.released ++ [e.chunk]).drop l.doneRead).count c
    rw [hdone _ m.doneRead_le]
    omega
  · exact Nat.le_trans List.erase_sublist.length_le m.hand_le
  · have h1 := m.flow
    have h2 := List.length_erase_of_mem he
    have h3 := List.length_pos_of_mem he
    simp only [List.length_append, List.length_singleton]
    omega

end Matches

end Devbus
