/-
# Fair runs

The infinite runs of a machine whose labels are steps of threads, or of the outside.  A step that
is not possible leaves the state as it is, and every thread is scheduled again and again.

* `Leads` is leads-to: after a state with the one property comes a state with the other.
* `FairRun.variant` is the rule for a thread that works towards an end: its steps are possible and
  decrease a variant, and the steps of the others do not increase it.  `FairRun.ensures` is the
  rule for a single step.
* `exists_fairRun` says that every finite run goes on, so that there are fair runs to speak of.
-/
import DevicePlatform.Transition
import Mathlib.Algebra.Order.Group.Nat

namespace Machine

variable {σ ℓ ι : Type*} {M : Machine σ ℓ} {thread : ℓ → Option ι} {x : ℕ → σ} {a : ℕ → ℓ}

/-- The states `x` along the labels `a`; `thread` says whose step a label is. -/
structure FairRun (M : Machine σ ℓ) (thread : ℓ → Option ι) (x : ℕ → σ) (a : ℕ → ℓ) : Prop where
  init : M.init (x 0)
  step : ∀ n, x (n + 1) = (M.next (x n) (a n)).getD (x n)
  fair : ∀ i n, ∃ m, n ≤ m ∧ thread (a m) = some i

/-- After a state with `P` comes a state with `Q`. -/
def Leads (x : ℕ → σ) (P Q : σ → Prop) : Prop := ∀ n, P (x n) → ∃ m, n ≤ m ∧ Q (x m)

section Rules

variable {P Q R : σ → Prop}

theorem Leads.trans (h : Leads x P Q) (h' : Leads x Q R) : Leads x P R := by
  intro n hn
  obtain ⟨m, hm, hq⟩ := h n hn
  obtain ⟨k, hk, hr⟩ := h' m hq
  exact ⟨k, hm.trans hk, hr⟩

theorem FairRun.next_or (h : M.FairRun thread x a) (n : ℕ) :
    x (n + 1) = x n ∨ M.next (x n) (a n) = some (x (n + 1)) := by
  have hstep := h.step n
  cases hn : M.next (x n) (a n) with
  | none =>
      rw [hn] at hstep
      exact .inl hstep
  | some t =>
      rw [hn] at hstep
      exact .inr (congrArg some hstep.symm)

theorem FairRun.reach (h : M.FairRun thread x a) (n : ℕ) : M.Reach Always (x n) := by
  induction n with
  | zero => exact .start h.init
  | succ n ih =>
      rcases h.next_or n with heq | hn
      · rw [heq]
        exact ih
      · exact ih.step trivial hn

/-- What the steps keep holds from then on. -/
theorem FairRun.keeps (h : M.FairRun thread x a)
    (hkeep : ∀ s l t, M.Reach Always s → P s → M.next s l = some t → P t) {n m : ℕ} (hle : n ≤ m)
    (hn : P (x n)) : P (x m) := by
  induction m, hle using Nat.le_induction with
  | base => exact hn
  | succ m _ ih =>
      rcases h.next_or m with heq | hs
      · rw [heq]
        exact ih
      · exact hkeep _ _ _ (h.reach m) ih hs

/-- **The variant rule.**  The steps of thread `i` are possible and decrease `f`, the steps of the
others do not increase it. -/
theorem FairRun.variant (h : M.FairRun thread x a) (i : ι) (f : σ → ℕ)
    (hkeep : ∀ s l t, M.Reach Always s → P s → M.next s l = some t → Q t ∨ P t ∧ f t ≤ f s)
    (hact : ∀ s l, M.Reach Always s → P s → thread l = some i →
      ∃ t, M.next s l = some t ∧ (Q t ∨ P t ∧ f t < f s)) : Leads x P Q := by
  -- until `Q` holds, `P` does, and the variant is no larger than it was
  have hstays : ∀ n m, n ≤ m → P (x n) →
      (∃ k, n ≤ k ∧ Q (x k)) ∨ P (x m) ∧ f (x m) ≤ f (x n) := by
    intro n m hle hn
    induction m, hle using Nat.le_induction with
    | base => exact .inr ⟨hn, Nat.le_refl _⟩
    | succ m hle ih =>
        rcases ih with hq | ⟨hm, hf⟩
        · exact .inl hq
        rcases h.next_or m with heq | hs
        · rw [heq]
          exact .inr ⟨hm, hf⟩
        · rcases hkeep _ _ _ (h.reach m) hm hs with hq | ⟨hp, hf'⟩
          · exact .inl ⟨m + 1, Nat.le_succ_of_le hle, hq⟩
          · exact .inr ⟨hp, hf'.trans hf⟩
  intro n hn
  induction hv : f (x n) using Nat.strongRecOn generalizing n with
  | ind v ih =>
      obtain ⟨m, hle, hm⟩ := h.fair i n
      rcases hstays n m hle hn with hq | ⟨hp, hf⟩
      · exact hq
      obtain ⟨t, hs, ht⟩ := hact _ _ (h.reach m) hp hm
      obtain rfl : x (m + 1) = t := by
        rw [h.step, hs]
        rfl
      rcases ht with hq | ⟨hp', hlt⟩
      · exact ⟨m + 1, Nat.le_succ_of_le hle, hq⟩
      · obtain ⟨k, hk, hq⟩ := ih _ (hv ▸ Nat.lt_of_lt_of_le hlt hf) (m + 1) hp' rfl
        exact ⟨k, Nat.le_trans (Nat.le_succ_of_le hle) hk, hq⟩

/-- **A step of a thread** that the others do not prevent. -/
theorem FairRun.ensures (h : M.FairRun thread x a) (i : ι)
    (hkeep : ∀ s l t, M.Reach Always s → P s → M.next s l = some t → Q t ∨ P t)
    (hact : ∀ s l, M.Reach Always s → P s → thread l = some i → ∃ t, M.next s l = some t ∧ Q t) :
    Leads x P Q := by
  refine h.variant i (fun _ => 0) (fun s l t hs hp hn => ?_) fun s l hs hp hl => ?_
  · exact (hkeep s l t hs hp hn).imp_right fun ht => ⟨ht, Nat.le_refl _⟩
  · obtain ⟨t, hn, ht⟩ := hact s l hs hp hl
    exact ⟨t, hn, .inl ht⟩

end Rules

/-- The states that the labels `a` lead to from `s`. -/
def trace (M : Machine σ ℓ) (a : ℕ → ℓ) (s : σ) : ℕ → σ
  | 0 => s
  | n + 1 => (M.next (trace M a s n) (a n)).getD (trace M a s n)

theorem trace_of_run {s t : σ} {ls : List ℓ} (hr : M.Run Always s ls t)
    (ha : ∀ i l, ls[i]? = some l → a i = l) : M.trace a s ls.length = t := by
  induction hr with
  | nil => rfl
  | @snoc t u ls l _ _ hn ih =>
      have hls : ∀ i k, ls[i]? = some k → a i = k := by
        intro i k hi
        apply ha
        rw [List.getElem?_append_left (List.getElem?_eq_some_iff.mp hi).1]
        exact hi
      have hl : a ls.length = l := ha _ _ List.getElem?_concat_length
      rw [List.length_append, List.length_singleton, trace, ih hls, hl, hn]
      rfl

/-- **A finite run goes on**, with every fair schedule. -/
theorem exists_fairRun {s t : σ} {ls : List ℓ} (hs : M.init s) (hr : M.Run Always s ls t)
    (schedule : ℕ → ℓ) (hfair : ∀ i n, ∃ m, n ≤ m ∧ thread (schedule m) = some i) :
    ∃ x a, M.FairRun thread x a ∧ x ls.length = t := by
  refine ⟨M.trace (fun n => (ls[n]?).getD (schedule n)) s, _, ⟨hs, fun _ => rfl, fun i n => ?_⟩,
    trace_of_run hr fun i l hi => ?_⟩
  · obtain ⟨m, hm, hi⟩ := hfair i (n + ls.length)
    refine ⟨m, (Nat.le_add_right _ _).trans hm, ?_⟩
    rw [List.getElem?_eq_none ((Nat.le_add_left _ _).trans hm)]
    exact hi
  · rw [hi]
    rfl

end Machine
