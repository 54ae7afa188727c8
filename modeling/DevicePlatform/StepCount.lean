/-
# How many steps a program takes on its own

`p.EndsIn Q n s` says that the program `p`, started in the state `s` while no other thread is at
work, is never blocked, ends after at most `n` steps, and ends in states that satisfy `Q`,
whatever values it takes from outside.  A step is one of `Prog.step`: an access to the state, a
value from outside, or the beginning of a round of a loop.  So `n` bounds the rounds of its loops.

* `endsIn_seq`: the steps of a sequence add up.
* `endsIn_fold`: so do those of `for x in l`.
* `endsIn_loop`: a loop takes its variant's worth of rounds.

A program on its own has one result for each choice of the values from outside, so two facts about
its end are about the same end (`EndsIn.both`).
-/
import DevicePlatform.Program

namespace Prog

variable {S α β γ : Type} {Q Q' : α → S → Prop} {n m : ℕ} {s t : S}

/-- `p` ends after at most `n` steps. -/
inductive EndsIn (Q : α → S → Prop) : ℕ → Prog S α → S → Prop
  | ret {n : ℕ} {a : α} {s : S} (h : Q a s) : EndsIn Q n (.ret a) s
  | step {n : ℕ} {p : Prog S α} {s : S} (next : ℕ → Prog S α × S)
      (hstep : ∀ i, p.step i s = some (next i))
      (h : ∀ i, EndsIn Q n (next i).1 (next i).2) : EndsIn Q (n + 1) p s

/-- A larger bound and a weaker postcondition. -/
theorem EndsIn.mono {p : Prog S α} (h : p.EndsIn Q n s) (hQ : ∀ a t, Q a t → Q' a t)
    (hle : n ≤ m) : p.EndsIn Q' m s := by
  induction h generalizing m with
  | ret h => exact .ret (hQ _ _ h)
  | step next hstep _ ih =>
      obtain ⟨m, rfl⟩ := Nat.exists_eq_add_of_le' (Nat.lt_of_lt_of_le (Nat.succ_pos _) hle)
      exact .step next hstep fun i => ih i (Nat.le_of_succ_le_succ hle)

theorem EndsIn.le {p : Prog S α} (h : p.EndsIn Q n s) (hle : n ≤ m) : p.EndsIn Q m s :=
  h.mono (fun _ _ h => h) hle

theorem EndsIn.weaken {p : Prog S α} (h : p.EndsIn Q n s) (hQ : ∀ a t, Q a t → Q' a t) :
    p.EndsIn Q' n s :=
  h.mono hQ (Nat.le_refl n)

/-- **One end.**  Two postconditions of a program hold of the same result. -/
theorem EndsIn.both {p : Prog S α} (h : p.EndsIn Q n s) (h' : p.EndsIn Q' m s) :
    ∃ a t, Q a t ∧ Q' a t := by
  induction h generalizing m with
  | ret h =>
      cases h' with
      | ret h' => exact ⟨_, _, h, h'⟩
      | step next hstep _ => cases hstep 0
  | step next hstep _ ih =>
      cases h' with
      | ret h' => cases hstep 0
      | step next' hstep' h' =>
          have heq : next' 0 = next 0 := Option.some.inj ((hstep' 0).symm.trans (hstep 0))
          exact ih 0 (heq ▸ h' 0)

/-! ## Rules -/

theorem bind_assoc (p : Prog S α) (f : α → Prog S β) (g : β → Prog S γ) :
    (p.bind f).bind g = p.bind fun a => (f a).bind g := by
  induction p with
  | ret a => rfl
  | act f' k ih => exact congrArg (act f') (funext fun b => ih b f)
  | pick k ih => exact congrArg pick (funext fun i => ih i f)
  | loop body x k _ ih => exact congrArg (loop body x) (funext fun b => ih b f)

/-- The first program of a sequence takes its steps. -/
theorem step_bind {p p' : Prog S α} {k : α → Prog S β} {i : ℕ} (h : p.step i s = some (p', t)) :
    (p.bind k).step i s = some (p'.bind k, t) := by
  cases p with
  | ret a => cases h
  | act f k' =>
      obtain ⟨⟨b, u⟩, hf, hu⟩ := Option.map_eq_some_iff.mp h
      cases hu
      exact Option.map_eq_some_iff.mpr ⟨(b, _), hf, rfl⟩
  | pick k' =>
      cases h
      rfl
  | loop body x k' =>
      cases h
      show some (_, s) = some (_, s)
      rw [bind_assoc]
      refine congrArg (fun f => some ((body x).bind f, s)) (funext fun r => ?_)
      cases r with
      | inl y => rfl
      | inr b => rfl

/-- The steps of a sequence add up. -/
theorem EndsIn.bind {Q : β → S → Prop} {p : Prog S α} {k : α → Prog S β}
    (h : p.EndsIn (fun a t => (k a).EndsIn Q m t) n s) : (p.bind k).EndsIn Q (n + m) s := by
  induction h with
  | ret h => exact h.le (Nat.le_add_left _ _)
  | step next hstep _ ih =>
      rw [Nat.add_right_comm]
      exact .step (fun i => ((next i).1.bind k, (next i).2)) (fun i => step_bind (hstep i)) ih

theorem endsIn_seq {R : β → S → Prop} {p : Prog S β} {k : β → Prog S α} (h : p.EndsIn R n s)
    (hk : ∀ b t, R b t → (k b).EndsIn Q m t) : (p >>= k).EndsIn Q (n + m) s :=
  (h.weaken hk).bind

theorem endsIn_update {g : S → β × S} {k : β → Prog S α}
    (h : (k (g s).1).EndsIn Q n (g s).2) : (update g >>= k).EndsIn Q (n + 1) s :=
  .step (fun _ => (k (g s).1, (g s).2)) (fun _ => rfl) fun _ => h

theorem endsIn_read {g : S → β} {k : β → Prog S α} (h : (k (g s)).EndsIn Q n s) :
    (read g >>= k).EndsIn Q (n + 1) s :=
  .step (fun _ => (k (g s), s)) (fun _ => rfl) fun _ => h

theorem endsIn_write {g : S → S} {k : Unit → Prog S α} (h : (k ()).EndsIn Q n (g s)) :
    (write g >>= k).EndsIn Q (n + 1) s :=
  .step (fun _ => (k (), g s)) (fun _ => rfl) fun _ => h

theorem endsIn_choose {k : ℕ → Prog S α} (h : ∀ i, (k i).EndsIn Q n s) :
    (choose >>= k).EndsIn Q (n + 1) s :=
  .step (fun i => (k i, s)) (fun _ => rfl) h

/-- A program as the last statement of another one. -/
theorem endsIn_last {p : Prog S α} (h : (p >>= .ret).EndsIn Q n s) : p.EndsIn Q n s := by
  rwa [bind_ret] at h

/-- `for x in l`: `J l a` holds when the elements `l` are still to come. -/
theorem endsIn_fold {l : List β} {a : γ} {body : γ → β → Prog S γ} (J : List β → γ → S → Prop)
    (h : J l a s)
    (hbody : ∀ x l a t, J (x :: l) a t → (body a x).EndsIn (fun a' u => J l a' u) n t) :
    (fold l a body).EndsIn (fun a' t => J [] a' t) (l.length * n) s := by
  induction l generalizing a s with
  | nil => exact .ret h
  | cons x l ih =>
      rw [List.length_cons, Nat.succ_mul, Nat.add_comm]
      exact ((hbody x l a s h).weaken fun _ _ => ih).bind

theorem endsIn_forEach {l : List β} {body : β → Prog S Unit} (J : List β → S → Prop) (h : J l s)
    (hbody : ∀ x l t, J (x :: l) t → (body x).EndsIn (fun _ u => J l u) n t)
    (hle : l.length * n ≤ m) : (forEach l body).EndsIn (fun _ t => J [] t) m s :=
  (endsIn_fold (fun l _ => J l) h fun x l _ => hbody x l).le hle

/-- `for x in l`, one store for each. -/
theorem endsIn_stores (l : List β) (f : S → β → S) :
    (forEach l fun x => write fun s => f s x).EndsIn (fun _ t => t = l.foldl f s) l.length s := by
  refine endsIn_forEach (fun rest t => rest.foldl f t = l.foldl f s) rfl ?_
    (Nat.le_of_eq (Nat.mul_one _))
  intro x rest t ht
  exact endsIn_last (endsIn_write (.ret ht))

/-- A loop with the invariant `J` and the variant `v`, whose rounds take at most `n` steps. -/
theorem endsIn_loop {R : β → S → Prop} {x : γ} {body : γ → Prog S (γ ⊕ β)} (J : γ → S → Prop)
    (v : γ → S → ℕ) (hx : J x s)
    (hbody : ∀ y t, J y t → (body y).EndsIn
      (fun r u => match r with
        | .inl z => J z u ∧ v z u < v y t
        | .inr b => R b u) n t) :
    (repeatUntil x body).EndsIn R ((v x s + 1) * (n + 1)) s := by
  -- by induction on the variant
  induction hv : v x s using Nat.strongRecOn generalizing x s with
  | ind k ih =>
      have hround := hbody x s hx
      rw [hv] at hround
      refine .le (n := n + k * (n + 1) + 1) ?_ (by rw [Nat.succ_mul]; omega)
      refine .step (fun _ => ((body x).bind fun
        | .inl y => .loop body y .ret
        | .inr b => .ret b, s)) (fun _ => rfl) fun _ => ?_
      refine (hround.weaken ?_).bind
      rintro (z | b) u hr
      · exact (ih (v z u) hr.2 hr.1 rfl).le (Nat.mul_le_mul_right _ hr.2)
      · exact .ret hr

end Prog
