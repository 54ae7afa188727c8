/-
# Labelled transition systems, their runs and their invariants

The models of this development are state machines whose nondeterminism (which
thread moves, what a device answers, what a clock shows) is carried by a label.
`Machine σ ℓ` is such a machine: its initial states and the partial function
`next` that takes a state and a label to the next state.

* `Machine.Run` is a finite run, with the labels taken along it; the relation
  is guarded by a condition `ok` on the state before a step and on its label, so
  that "in every run whose steps all meet the condition" is `Run` at that
  condition and "in every run" is `Run` at `Always`.
* `Machine.Reach` is the set of states the guarded runs reach, and
  `Reach.invariant` is the induction rule every safety result uses.
* `Machine.exec` computes the state a list of labels leads to, so that a
  concrete run is checked by evaluation (`reach_of_exec`).
-/
import Mathlib.Data.List.Basic
import Mathlib.Logic.Relation

/-- A machine with states `σ` and labels `ℓ`; `next s l = none` when the step
labelled `l` is not possible in `s`. -/
structure Machine (σ ℓ : Type*) where
  init : σ → Prop
  next : σ → ℓ → Option σ

namespace Machine

variable {σ ℓ : Type*} (M : Machine σ ℓ)

/-- The condition that excludes no step. -/
def Always (_ : σ) (_ : ℓ) : Prop := True

/-- `M.Run ok s ls t`: the labels `ls` lead from `s` to `t`, and every step of
the way meets `ok`. -/
inductive Run (ok : σ → ℓ → Prop) : σ → List ℓ → σ → Prop
  | nil (s : σ) : Run ok s [] s
  | snoc {s t u : σ} {ls : List ℓ} {l : ℓ} :
      Run ok s ls t → ok t l → M.next t l = some u → Run ok s (ls ++ [l]) u

/-- The states reached from an initial state by steps that meet `ok`. -/
def Reach (ok : σ → ℓ → Prop) (t : σ) : Prop :=
  ∃ s ls, M.init s ∧ M.Run ok s ls t

variable {M} {ok : σ → ℓ → Prop}

/-- An initial state is reached by the empty run. -/
theorem Reach.start {s : σ} (h : M.init s) : M.Reach ok s :=
  ⟨s, [], h, .nil s⟩

/-- One more step of a reached state. -/
theorem Reach.step {s t : σ} {l : ℓ} (h : M.Reach ok s) (hok : ok s l)
    (hn : M.next s l = some t) : M.Reach ok t := by
  obtain ⟨s₀, ls, hs₀, hr⟩ := h
  exact ⟨s₀, ls ++ [l], hs₀, .snoc hr hok hn⟩

/-- A run from a reached state. -/
theorem Reach.run {s t : σ} {ls : List ℓ} (h : M.Reach ok s) (hr : M.Run ok s ls t) :
    M.Reach ok t := by
  induction hr with
  | nil => exact h
  | snoc _ hok hn ih => exact ih.step hok hn

/-- **The run rule.**  What one guarded step preserves, a guarded run preserves. -/
theorem Run.preserves {P : σ → Prop} {s t : σ} {ls : List ℓ} (hr : M.Run ok s ls t)
    (hstep : ∀ s l t, P s → ok s l → M.next s l = some t → P t) (hs : P s) : P t := by
  induction hr with
  | nil => exact hs
  | snoc _ hok hn ih => exact hstep _ _ _ ih hok hn

/-- **The invariant rule.**  A predicate that holds initially and is preserved by
every guarded step holds in every reached state. -/
theorem Reach.invariant {P : σ → Prop} {t : σ} (h : M.Reach ok t)
    (hinit : ∀ s, M.init s → P s)
    (hstep : ∀ s l t, P s → ok s l → M.next s l = some t → P t) : P t := by
  obtain ⟨s, ls, hs, hr⟩ := h
  exact hr.preserves hstep (hinit s hs)

/-- Dropping conditions only adds runs. -/
theorem Run.mono {ok' : σ → ℓ → Prop} {s t : σ} {ls : List ℓ}
    (himp : ∀ s l, ok s l → ok' s l) (hr : M.Run ok s ls t) : M.Run ok' s ls t := by
  induction hr with
  | nil => exact .nil _
  | snoc _ hok hn ih => exact .snoc ih (himp _ _ hok) hn

theorem Reach.mono {ok' : σ → ℓ → Prop} {t : σ} (himp : ∀ s l, ok s l → ok' s l)
    (h : M.Reach ok t) : M.Reach ok' t := by
  obtain ⟨s, ls, hs, hr⟩ := h
  exact ⟨s, ls, hs, hr.mono himp⟩

/-- Prefixing a run with a step. -/
theorem Run.cons {s t u : σ} {l : ℓ} {ls : List ℓ} (hok : ok s l)
    (hn : M.next s l = some t) (hr : M.Run ok t ls u) : M.Run ok s (l :: ls) u := by
  induction hr with
  | nil => exact Run.snoc (Run.nil s) hok hn
  | snoc _ hok' hn' ih => exact Run.snoc ih hok' hn'

/-! ## Evaluating runs -/

instance : ∀ (s : σ) (l : ℓ), Decidable (Always s l) := fun _ _ => isTrue trivial

variable (M) (ok)

/-- The state the labels `ls` lead to from `s`, if every step is possible and
meets `ok`. -/
def exec [∀ s l, Decidable (ok s l)] (s : σ) : List ℓ → Option σ
  | [] => some s
  | l :: ls => if ok s l then (M.next s l).bind fun t => exec t ls else none

variable {M} {ok}

/-- Evaluating a list of labels gives a run. -/
theorem run_of_exec [∀ s l, Decidable (ok s l)] {s t : σ} {ls : List ℓ}
    (h : M.exec ok s ls = some t) : M.Run ok s ls t := by
  induction ls generalizing s with
  | nil =>
      simp only [exec, Option.some.injEq] at h
      exact h ▸ Run.nil s
  | cons l ls ih =>
      rw [exec] at h
      split at h
      · rename_i hok
        obtain ⟨u, hu, hrest⟩ := Option.bind_eq_some_iff.mp h
        exact Run.cons hok hu (ih hrest)
      · cases h

/-- Evaluating a list of labels from an initial state reaches its result. -/
theorem reach_of_exec [∀ s l, Decidable (ok s l)] {s t : σ} {ls : List ℓ} (hs : M.init s)
    (h : M.exec ok s ls = some t) : M.Reach ok t :=
  ⟨s, ls, hs, run_of_exec h⟩

/-- A run to a state with the property `P`, if evaluation leads to one. -/
theorem exists_run_of_exec [∀ s l, Decidable (ok s l)] {P : σ → Prop} [DecidablePred P] {s : σ}
    (ls : List ℓ) (h : (M.exec ok s ls).any (fun t => decide (P t)) = true) :
    ∃ t, M.Run ok s ls t ∧ P t := by
  obtain ⟨t, ht, hp⟩ := (Option.any_eq_true _ _).mp h
  exact ⟨t, run_of_exec ht, of_decide_eq_true hp⟩

/-- A state with the property `P` is reached if evaluation leads to one. -/
theorem exists_reach_of_exec [∀ s l, Decidable (ok s l)] {P : σ → Prop} [DecidablePred P]
    {s : σ} (ls : List ℓ) (hs : M.init s)
    (h : (M.exec ok s ls).any (fun t => decide (P t)) = true) :
    ∃ t, M.Reach ok t ∧ P t := by
  obtain ⟨t, hr, hp⟩ := exists_run_of_exec ls h
  exact ⟨t, ⟨s, ls, hs, hr⟩, hp⟩

end Machine
