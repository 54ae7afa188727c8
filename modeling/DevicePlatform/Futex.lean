/-
# Sleeping on a futex word

A thread that waits for an event sets a flag, looks for the event once more, and goes to sleep
in the kernel if a word still has the value that it had at the beginning.  A thread that makes
the event happen looks at the flag afterwards; if it is set, it increments the word and wakes
the sleeper.

`Bell` is what the two share, with a history variable for what the waker still has to do
(`Due`).  Whether the event is still to come is a proposition `quiet` about the rest of the
state.

* `Bell.Ok`: a sleeper that has missed the event is owed a wake-up.
* `Bell.Rings` and `Bell.Heard` are what the sleeper may see of the waker; the waker's four
  steps (`event`, `check`, `bump`, `wake`) are within them and keep `Ok`.
* `Bell.Watching` is what the sleeper knows between its check and its sleep.  It is stable
  under the waker's steps (`Watching.rings`), and lets the sleeper go to sleep (`Watching.sleep`)
  if the kernel compares words that have not wrapped.
-/
import Mathlib.Data.Nat.Notation
import Mathlib.Logic.Basic

/-- What a waker still has to do: increment the word and wake, or wake only. -/
inductive Due where
  | nothing
  | bump
  | wake
  deriving DecidableEq, Repr

/-- A futex word, the flag of the sleeper, whether it is queued in the kernel, and what the
waker owes it. -/
structure Bell where
  word : ℕ
  flag : ℕ
  queued : Bool
  due : Due
  deriving DecidableEq, Repr

namespace Bell

variable {b c d : Bell} {quiet quiet' quiet'' : Prop} {w : ℕ}

/-- Nobody sleeps through the event without a wake-up being due. -/
def Ok (b : Bell) (quiet : Prop) : Prop :=
  b.queued = true → b.flag ≠ 0 ∧ (quiet ∨ b.due ≠ .nothing)

theorem Ok.mono (h : b.Ok quiet) (hq : quiet → quiet') : b.Ok quiet' :=
  fun hb => ⟨(h hb).1, (h hb).2.imp_left hq⟩

/-- Nobody sleeps. -/
theorem Ok.of_awake (h : b.queued = false) : b.Ok quiet :=
  fun hq => Bool.noConfusion (hq.symm.trans h)

/-! ## The waker -/

/-- What the sleeper sees of the waker. -/
structure Rings (b c : Bell) : Prop where
  flag : c.flag = b.flag
  word : b.word ≤ c.word
  queued : c.queued = true → b.queued = true
  due : c.word = b.word → b.flag ≠ 0 → b.due = .bump → c.due = .bump

/-- An event that happens while the flag is set is followed by an increment. -/
def Heard (b c : Bell) (quiet quiet' : Prop) : Prop :=
  c.word = b.word → b.flag ≠ 0 → quiet → quiet' ∨ c.due = .bump

theorem Rings.refl (b : Bell) : Rings b b := ⟨rfl, Nat.le_refl _, id, fun _ _ h => h⟩

theorem Rings.awake (h : Rings b c) (hb : b.queued = false) : c.queued = false :=
  Bool.eq_false_iff.mpr fun hc => Bool.noConfusion (hb.symm.trans (h.queued hc))

theorem Rings.trans (h : Rings b c) (h' : Rings c d) : Rings b d := by
  refine ⟨h'.flag.trans h.flag, Nat.le_trans h.word h'.word, fun hq => h.queued (h'.queued hq), ?_⟩
  intro hw hf hd
  have hcb : c.word = b.word := Nat.le_antisymm (hw ▸ h'.word) h.word
  exact h'.due (hw.trans hcb.symm) (h.flag ▸ hf) (h.due hcb hf hd)

theorem Heard.of_imp (h : quiet → quiet') : Heard b c quiet quiet' := fun _ _ hq => .inl (h hq)

theorem Heard.trans (hr : Rings b c) (hr' : Rings c d) (h : Heard b c quiet quiet')
    (h' : Heard c d quiet' quiet'') : Heard b d quiet quiet'' := by
  intro hw hf hq
  have hcb : c.word = b.word := Nat.le_antisymm (hw ▸ hr'.word) hr.word
  have hf' : c.flag ≠ 0 := hr.flag ▸ hf
  rcases h hcb hf hq with hq' | hd
  · exact h' (hw.trans hcb.symm) hf' hq'
  · exact .inr (hr'.due (hw.trans hcb.symm) hf' hd)

theorem Heard.and {r r' : Prop} (h : Heard b c quiet quiet') (h' : Heard b c r r') :
    Heard b c (quiet ∧ r) (quiet' ∧ r') := by
  rintro hw hf ⟨hq, hr⟩
  rcases h hw hf hq with hq' | hd
  · exact (h' hw hf hr).imp_left fun hr' => ⟨hq', hr'⟩
  · exact .inr hd

/-- The event happens. -/
def event (b : Bell) : Bell := { b with due := .bump }

/-- The waker looks at the flag; if it is not set, nothing is due. -/
def check (b : Bell) : Bell := if b.flag = 0 then { b with due := .nothing } else b

/-- It increments the word. -/
def bump (b : Bell) : Bell := { b with word := b.word + 1, due := .wake }

/-- It wakes whoever sleeps. -/
def wake (b : Bell) : Bell := { b with queued := false, due := .nothing }

theorem rings_event : Rings b b.event := ⟨rfl, Nat.le_refl _, id, fun _ _ _ => rfl⟩

theorem heard_event : Heard b b.event quiet quiet' := fun _ _ _ => .inr rfl

theorem Ok.event (h : b.Ok quiet) : b.event.Ok quiet' :=
  fun hq => ⟨(h hq).1, .inr Due.noConfusion⟩

theorem rings_check : Rings b b.check := by
  unfold check
  split
  · next h0 => exact ⟨rfl, Nat.le_refl _, id, fun _ hf => absurd h0 hf⟩
  · exact Rings.refl b

theorem Ok.check (h : b.Ok quiet) : b.check.Ok quiet := by
  unfold Bell.check
  split
  · next h0 => exact fun hq => absurd h0 (h hq).1
  · exact h

theorem rings_bump : Rings b b.bump :=
  ⟨rfl, Nat.le_succ _, id, fun hw => absurd hw (Nat.succ_ne_self _)⟩

theorem Ok.bump (h : b.Ok quiet) : b.bump.Ok quiet :=
  fun hq => ⟨(h hq).1, .inr Due.noConfusion⟩

theorem rings_wake (h : b.due ≠ .bump) : Rings b b.wake :=
  ⟨rfl, Nat.le_refl _, fun hq => Bool.noConfusion hq, fun _ _ hd => absurd hd h⟩

/-- A sleeper that wakes up for no reason. -/
theorem rings_spurious : Rings b { b with queued := false } :=
  ⟨rfl, Nat.le_refl _, fun hq => Bool.noConfusion hq, fun _ _ hd => hd⟩

/-! ## The sleeper -/

/-- The sleeper has read the word as `w`, has set its flag and has then found no event. -/
structure Watching (w : ℕ) (b : Bell) (quiet : Prop) : Prop where
  flag : b.flag ≠ 0
  word : w ≤ b.word
  quiet : b.word = w → quiet ∨ b.due = .bump

/-- What it knows is stable. -/
theorem Watching.rings (h : Watching w b quiet) (hr : Rings b c) (hh : Heard b c quiet quiet') :
    Watching w c quiet' := by
  refine ⟨hr.flag ▸ h.flag, Nat.le_trans h.word hr.word, fun hw => ?_⟩
  have hb : b.word = w := Nat.le_antisymm (hw ▸ hr.word) h.word
  have hcb : c.word = b.word := hw.trans hb.symm
  rcases h.quiet hb with hq | hd
  · exact hh hcb h.flag hq
  · exact .inr (hr.due hcb h.flag hd)

/-- Two events that have both not been found. -/
theorem Watching.and (h : Watching w b quiet) (h' : Watching w b quiet') :
    Watching w b (quiet ∧ quiet') := by
  refine ⟨h.flag, h.word, fun hw => ?_⟩
  rcases h.quiet hw with hq | hd
  · exact (h'.quiet hw).imp_left fun hq' => ⟨hq, hq'⟩
  · exact .inr hd

/-- **Going to sleep** on a word that has not changed. -/
theorem Watching.sleep (h : Watching w b quiet) (hw : b.word = w) :
    ({ b with queued := true } : Bell).Ok quiet := by
  refine fun _ => ⟨h.flag, (h.quiet hw).imp_right fun hd hn => ?_⟩
  cases hd.symm.trans hn

end Bell
