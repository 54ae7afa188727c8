/-
# Programs over shared state, and rely-guarantee reasoning about them

A thread is a program over a state `S` that other threads change too.  `Prog S α` is
such a program with result `α`:

* `act f k` is one atomic step: `f` reads and changes the state, or returns `none`
  while the thread is blocked;
* `pick k` takes a value that the state does not determine;
* `loop body x k` repeats `body` until it leaves the loop.

`Prog.step` runs one step of a thread.  What the thread may rely on is a `Protocol`:
an invariant of the state, the relation `rely` that bounds what the others do between
two steps of the thread, and the relation `guar` that bounds what the thread does.

`Prog.wp π p Q s` says that `p`, started in `s` among threads that keep to the
protocol `π`, keeps to it too, and ends in states that satisfy `Q`.

* `wp_step`: a step of the thread keeps `wp`, the invariant and the guarantee.
* `wp_rely`: a step of the others keeps `wp`.

From these two a system of threads keeps the `wp` of each, so every proof about a
thread is the proof of one `wp`, by the rules `wp_read`, `wp_write`, `wp_act`,
`wp_loop`, `wp_fold` and `wp_seq`.

`Prog.Ends` is the same for a protocol that asks for the end of the program, as an inductive
predicate: there is no run in which the thread takes infinitely many steps (`ends_of_wp`).

`Prog.Within R p` says that every step of `p`, from whatever state, is within the relation
`R`: a frame condition that needs no protocol.

`Prog.zoom` runs a program on a part of a larger state, and `wp_zoom` carries its `wp` over.
-/
import Mathlib.Data.Nat.Notation
import Mathlib.Logic.Basic
import Mathlib.Logic.Relation

/-- A program over the state `S` with a result in `α`. -/
inductive Prog (S : Type) : Type → Type 1
  /-- The program that has returned `a`. -/
  | ret {α : Type} (a : α) : Prog S α
  /-- One atomic step, blocked while `f` gives `none`. -/
  | act {α β : Type} (f : S → Option (β × S)) (k : β → Prog S α) : Prog S α
  /-- A value from outside the state. -/
  | pick {α : Type} (k : ℕ → Prog S α) : Prog S α
  /-- `body` from `x` on: `inl y` goes round again with `y`, `inr b` goes on with `k b`. -/
  | loop {α β σ : Type} (body : σ → Prog S (σ ⊕ β)) (x : σ) (k : β → Prog S α) : Prog S α

namespace Prog

variable {S α β γ : Type}

/-- Sequencing. -/
def bind : Prog S α → (α → Prog S β) → Prog S β
  | .ret a, g => g a
  | .act f k, g => .act f fun b => (k b).bind g
  | .pick k, g => .pick fun n => (k n).bind g
  | .loop body x k, g => .loop body x fun b => (k b).bind g

instance : Monad (Prog S) where
  pure := .ret
  bind := bind

theorem bind_ret (p : Prog S α) : p >>= .ret = p := by
  show p.bind .ret = p
  induction p with
  | ret a => rfl
  | act f k ih => exact congrArg (act f) (funext ih)
  | pick k ih => exact congrArg pick (funext ih)
  | loop body x k _ ih => exact congrArg (loop body x) (funext ih)

/-- An atomic load. -/
def read (g : S → α) : Prog S α := .act (fun s => some (g s, s)) .ret

/-- An atomic store. -/
def write (g : S → S) : Prog S Unit := .act (fun s => some ((), g s)) .ret

/-- An atomic step that loads and stores. -/
def update (g : S → α × S) : Prog S α := .act (fun s => some (g s)) .ret

/-- An atomic step that is blocked where `f` is `none`. -/
def attempt (f : S → Option (α × S)) : Prog S α := .act f .ret

/-- Waiting until `c` holds. -/
def await (c : S → Bool) : Prog S Unit := .act (fun s => if c s then some ((), s) else none) .ret

/-- A value from outside. -/
def choose : Prog S ℕ := .pick .ret

/-- Repeating `body` until it leaves the loop. -/
def repeatUntil (x : γ) (body : γ → Prog S (γ ⊕ α)) : Prog S α := .loop body x .ret

/-- `for x in l`, with an accumulator. -/
def fold (l : List β) (a : γ) (body : γ → β → Prog S γ) : Prog S γ :=
  match l with
  | [] => .ret a
  | x :: l => (body a x).bind fun a' => fold l a' body

/-- `for x in l`. -/
def forEach (l : List β) (body : β → Prog S Unit) : Prog S Unit := fold l () fun _ x => body x

/-- The program has returned. -/
def returned : Prog S α → Bool
  | .ret _ => true
  | _ => false

/-- One step of the thread in the state `s`; `n` is the value from outside if it takes
one. -/
def step (n : ℕ) (s : S) : Prog S α → Option (Prog S α × S)
  | .ret _ => none
  | .act f k => (f s).map fun (b, s') => (k b, s')
  | .pick k => some (k n, s)
  | .loop body x k => some ((body x).bind fun
      | .inl y => .loop body y k
      | .inr b => k b, s)

end Prog

/-! ## Protocols -/

/-- What a thread relies on and what it guarantees.  `assumed` holds of the states of
the runs that are looked at; `total` asks that the thread is never blocked and that its
loops end. -/
structure Protocol (S : Type) where
  inv : S → Prop
  rely : S → S → Prop
  guar : S → S → Prop
  assumed : S → Prop
  total : Prop
  rely_refl : ∀ s, rely s s
  rely_trans : ∀ {s t u}, rely s t → rely t u → rely s u
  guar_refl : ∀ s, guar s s

/-- The protocol of a thread that is on its own. -/
def Protocol.alone (S : Type) : Protocol S where
  inv _ := True
  rely := Eq
  guar _ _ := True
  assumed _ := True
  total := True
  rely_refl _ := rfl
  rely_trans := Eq.trans
  guar_refl _ := trivial

/-- The protocol of a thread among others that do whatever keeps the invariant. -/
def Protocol.keeping {S : Type} (I : S → Prop) : Protocol S where
  inv := I
  rely _ _ := True
  guar _ _ := True
  assumed _ := True
  total := False
  rely_refl _ := trivial
  rely_trans _ _ := trivial
  guar_refl _ := trivial

namespace Prog

variable {S : Type} {π : Protocol S} {α β γ σ : Type}

/-- `p`, started in `s`, keeps to the protocol `π` and ends in states that satisfy `Q`. -/
def wp (π : Protocol S) {α : Type} : Prog S α → (α → S → Prop) → S → Prop
  | .ret a, Q, s => Q a s
  | .act f k, Q, s => ∀ t, π.rely s t → π.inv t → (π.total → (f t).isSome) ∧
      ∀ b u, f t = some (b, u) → π.assumed u → π.inv u ∧ π.guar t u ∧ (k b).wp π Q u
  | .pick k, Q, s => ∀ n, (k n).wp π Q s
  | .loop (σ := σ) body x k, Q, s => ∃ (J : σ → S → Prop) (m : σ → ℕ),
      (∀ y t u, J y t → π.rely t u → π.inv u → J y u) ∧ J x s ∧
      ∀ y t, J y t → (body y).wp π
        (fun r u => match r with
          | .inl z => J z u ∧ (π.total → m z < m y)
          | .inr b => (k b).wp π Q u) t

/-- A weaker postcondition. -/
theorem wp_mono {p : Prog S α} {Q Q' : α → S → Prop} {s : S} (h : p.wp π Q s)
    (hQ : ∀ a t, Q a t → Q' a t) : p.wp π Q' s := by
  induction p generalizing s with
  | ret a => exact hQ a s h
  | act f k ih =>
      intro t hr hi
      refine ⟨(h t hr hi).1, ?_⟩
      intro b u hf ha
      obtain ⟨hiu, hg, hk⟩ := (h t hr hi).2 b u hf ha
      exact ⟨hiu, hg, ih b hk hQ⟩
  | pick k ih =>
      intro n
      exact ih n (h n) hQ
  | loop body x k ihb ihk =>
      obtain ⟨J, m, hst, hx, hbody⟩ := h
      refine ⟨J, m, hst, hx, ?_⟩
      intro y t hy
      refine ihb y (hbody y t hy) ?_
      rintro (z | b) u hz
      · exact hz
      · exact ihk b hz hQ

/-- Sequencing composes. -/
theorem wp_bind {p : Prog S α} {k : α → Prog S β} {Q : β → S → Prop} {s : S}
    (h : p.wp π (fun a t => (k a).wp π Q t) s) : (p.bind k).wp π Q s := by
  induction p generalizing s with
  | ret a => exact h
  | act f k' ih =>
      intro t hr hi
      refine ⟨(h t hr hi).1, ?_⟩
      intro b u hf ha
      obtain ⟨hiu, hg, hk⟩ := (h t hr hi).2 b u hf ha
      exact ⟨hiu, hg, ih b hk⟩
  | pick k' ih =>
      intro n
      exact ih n (h n)
  | loop body x k' ihb ihk =>
      obtain ⟨J, m, hst, hx, hbody⟩ := h
      refine ⟨J, m, hst, hx, ?_⟩
      intro y t hy
      refine wp_mono (hbody y t hy) ?_
      rintro (z | b) u hz
      · exact hz
      · exact ihk b hz

/-- What the others do keeps a program's `wp`. -/
theorem wp_rely {p : Prog S α} {Q : α → S → Prop} {s t : S}
    (hQ : ∀ a u v, Q a u → π.rely u v → π.inv v → Q a v) (h : p.wp π Q s) (hr : π.rely s t)
    (hi : π.inv t) : p.wp π Q t := by
  induction p generalizing s t with
  | ret a => exact hQ a s t h hr hi
  | act f k ih =>
      intro u hu
      exact h u (π.rely_trans hr hu)
  | pick k ih =>
      intro n
      exact ih n hQ (h n) hr hi
  | loop body x k ihb ihk =>
      obtain ⟨J, m, hst, hx, hbody⟩ := h
      exact ⟨J, m, hst, hst x s t hx hr hi, hbody⟩

/-- **A step of the thread.**  It keeps the invariant, the guarantee and the rest of the
program's `wp`. -/
theorem wp_step {p p' : Prog S α} {Q : α → S → Prop} {s s' : S} {n : ℕ} (h : p.wp π Q s)
    (hi : π.inv s) (hs : p.step n s = some (p', s')) (ha : π.assumed s') :
    π.inv s' ∧ π.guar s s' ∧ p'.wp π Q s' := by
  cases p with
  | ret a => cases hs
  | act f k =>
      obtain ⟨⟨b, u⟩, hf, hu⟩ := Option.map_eq_some_iff.mp hs
      cases hu
      exact (h s (π.rely_refl s) hi).2 b _ hf ha
  | pick k =>
      cases hs
      exact ⟨hi, π.guar_refl s, h n⟩
  | loop body x k =>
      cases hs
      obtain ⟨J, m, hst, hx, hbody⟩ := h
      refine ⟨hi, π.guar_refl s, wp_bind (wp_mono (hbody x s hx) ?_)⟩
      rintro (z | b) u hz
      · exact ⟨J, m, hst, hz.1, hbody⟩
      · exact hz

/-- A thread between two calls. -/
theorem eq_ret_of_returned {p : Prog S Unit} (h : p.returned = true) : p = .ret () := by
  cases p with
  | ret a => rfl
  | act f k => cases h
  | pick k => cases h
  | loop body x k => cases h

theorem wp_returned {p : Prog S Unit} {Q : Unit → S → Prop} {s : S} (h : p.wp π Q s)
    (hret : p.returned = true) : Q () s := by
  rw [eq_ret_of_returned hret] at h
  exact h

/-! ## Rules -/

section Rules

variable {Q : α → S → Prop} {s : S}

/-- A call and what follows it. -/
theorem wp_seq {p : Prog S β} {k : β → Prog S α} {R : β → S → Prop} (h : p.wp π R s)
    (hk : ∀ b t, R b t → (k b).wp π Q t) : (p >>= k).wp π Q s :=
  wp_bind (wp_mono h hk)

/-- A program as the last statement of another one. -/
theorem wp_last {p : Prog S α} (h : (p >>= .ret).wp π Q s) : p.wp π Q s := by
  rwa [bind_ret] at h

/-- An atomic load: the state is whatever the others have made of it. -/
theorem wp_read {g : S → β} {k : β → Prog S α}
    (h : ∀ t, π.rely s t → π.inv t → (k (g t)).wp π Q t) : (read g >>= k).wp π Q s := by
  intro t hr hi
  refine ⟨fun _ => rfl, ?_⟩
  rintro b u ⟨⟩ -
  exact ⟨hi, π.guar_refl t, h t hr hi⟩

/-- An atomic step that loads and stores. -/
theorem wp_update {g : S → β × S} {k : β → Prog S α}
    (h : ∀ t, π.rely s t → π.inv t → π.assumed (g t).2 →
      π.inv (g t).2 ∧ π.guar t (g t).2 ∧ (k (g t).1).wp π Q (g t).2) :
    (update g >>= k).wp π Q s := by
  intro t hr hi
  refine ⟨fun _ => rfl, ?_⟩
  intro b u hf ha
  obtain ⟨rfl, rfl⟩ := Prod.mk.inj (Option.some.inj hf)
  exact h t hr hi ha

/-- An atomic store. -/
theorem wp_write {g : S → S} {k : Unit → Prog S α}
    (h : ∀ t, π.rely s t → π.inv t → π.assumed (g t) →
      π.inv (g t) ∧ π.guar t (g t) ∧ (k ()).wp π Q (g t)) :
    (write g >>= k).wp π Q s := by
  intro t hr hi
  refine ⟨fun _ => rfl, ?_⟩
  rintro b u ⟨⟩ ha
  exact h t hr hi ha

/-- A step that may be blocked, for a protocol that allows it. -/
theorem wp_attempt {f : S → Option (β × S)} {k : β → Prog S α} (ht : ¬ π.total)
    (h : ∀ t, π.rely s t → π.inv t → ∀ b u, f t = some (b, u) →
      π.inv u ∧ π.guar t u ∧ (k b).wp π Q u) : (attempt f >>= k).wp π Q s := by
  intro t hr hi
  exact ⟨fun h => absurd h ht, fun b u hf _ => h t hr hi b u hf⟩

/-- Waiting, for a protocol that allows a thread to be blocked. -/
theorem wp_await {c : S → Bool} {k : Unit → Prog S α} (ht : ¬ π.total)
    (h : ∀ t, π.rely s t → π.inv t → c t = true → (k ()).wp π Q t) :
    (await c >>= k).wp π Q s := by
  intro t hr hi
  refine ⟨fun h => absurd h ht, ?_⟩
  intro b u hf _
  dsimp only at hf
  by_cases hc : c t = true
  · rw [if_pos hc] at hf
    cases hf
    exact ⟨hi, π.guar_refl t, h t hr hi hc⟩
  · rw [if_neg hc] at hf
    cases hf

/-- A value from outside. -/
theorem wp_choose {k : ℕ → Prog S α} (h : ∀ n, (k n).wp π Q s) : (choose >>= k).wp π Q s := h

/-- A loop with the invariant `J`, for a protocol that does not ask for its end. -/
theorem wp_loop {x : γ} {body : γ → Prog S (γ ⊕ β)} {k : β → Prog S α} (J : γ → S → Prop)
    (ht : ¬ π.total) (hst : ∀ y t u, J y t → π.rely t u → π.inv u → J y u) (hx : J x s)
    (hbody : ∀ y t, J y t → (body y).wp π
      (fun r u => match r with
        | .inl z => J z u
        | .inr b => (k b).wp π Q u) t) :
    (repeatUntil x body >>= k).wp π Q s := by
  refine ⟨J, fun _ => 0, hst, hx, ?_⟩
  intro y t hy
  refine wp_mono (hbody y t hy) ?_
  rintro (z | b) u hz
  · exact ⟨hz, fun h => absurd h ht⟩
  · exact hz

/-- A loop with the invariant `J` and the variant `m`. -/
theorem wp_loop_variant {x : γ} {body : γ → Prog S (γ ⊕ β)} {k : β → Prog S α}
    (J : γ → S → Prop) (m : γ → ℕ) (hst : ∀ y t u, J y t → π.rely t u → π.inv u → J y u)
    (hx : J x s)
    (hbody : ∀ y t, J y t → (body y).wp π
      (fun r u => match r with
        | .inl z => J z u ∧ m z < m y
        | .inr b => (k b).wp π Q u) t) :
    (repeatUntil x body >>= k).wp π Q s := by
  refine ⟨J, m, hst, hx, ?_⟩
  intro y t hy
  refine wp_mono (hbody y t hy) ?_
  rintro (z | b) u hz
  · exact ⟨hz.1, fun _ => hz.2⟩
  · exact hz

/-- Steps of a thread on its own. -/
theorem alone_read {g : S → β} {k : β → Prog S α} (h : (k (g s)).wp (.alone S) Q s) :
    (read g >>= k).wp (.alone S) Q s :=
  wp_read fun _ hr _ => hr ▸ h

theorem alone_write {g : S → S} {k : Unit → Prog S α} (h : (k ()).wp (.alone S) Q (g s)) :
    (write g >>= k).wp (.alone S) Q s :=
  wp_write fun _ hr _ _ => ⟨trivial, trivial, hr ▸ h⟩

theorem alone_update {g : S → β × S} {k : β → Prog S α}
    (h : (k (g s).1).wp (.alone S) Q (g s).2) : (update g >>= k).wp (.alone S) Q s :=
  wp_update fun _ hr _ _ => ⟨trivial, trivial, hr ▸ h⟩

/-- `for x in l`: `J l a` holds when the elements `l` are still to come. -/
theorem wp_fold {l : List β} {a : γ} {body : γ → β → Prog S γ} (J : List β → γ → S → Prop)
    (h : J l a s)
    (hbody : ∀ x l a t, J (x :: l) a t → (body a x).wp π (fun a' u => J l a' u) t) :
    (fold l a body).wp π (fun a' t => J [] a' t) s := by
  induction l generalizing a s with
  | nil => exact h
  | cons x l ih =>
      refine wp_bind (wp_mono (hbody x l a s h) ?_)
      intro a' t ht
      exact ih ht

end Rules

/-! ## Invariants -/

/-- Every step of `p` keeps the invariant `I`, whatever the others do that keeps it too, and the
result of `p` satisfies `P`. -/
def Keeps (I : S → Prop) (p : Prog S α) (P : α → Prop) : Prop :=
  ∀ s, p.wp (.keeping I) (fun a _ => P a) s

section Invariants

variable {I : S → Prop} {P : α → Prop} {R : β → Prop}

theorem Keeps.mono {P' : α → Prop} {p : Prog S α} (h : p.Keeps I P) (hP : ∀ a, P a → P' a) :
    p.Keeps I P' :=
  fun s => wp_mono (h s) fun a _ => hP a

theorem keeps_ret {a : α} (h : P a) : (pure a : Prog S α).Keeps I P := fun _ => h

theorem keeps_seq {p : Prog S β} {k : β → Prog S α} (h : p.Keeps I R)
    (hk : ∀ b, R b → (k b).Keeps I P) : (p >>= k).Keeps I P :=
  fun s => wp_seq (h s) fun b t hb => hk b hb t

theorem keeps_choose {k : ℕ → Prog S α} (h : ∀ n, (k n).Keeps I P) :
    (choose >>= k).Keeps I P :=
  fun s n => h n s

theorem keeps_read {g : S → α} (h : ∀ s, I s → P (g s)) : (read g).Keeps I P :=
  fun _ => wp_last (wp_read fun t _ hi => h t hi)

theorem keeps_update {g : S → α × S} (h : ∀ s, I s → I (g s).2 ∧ P (g s).1) :
    (update g).Keeps I P :=
  fun _ => wp_last (wp_update fun t _ hi _ => ⟨(h t hi).1, trivial, (h t hi).2⟩)

theorem keeps_write {g : S → S} (h : ∀ s, I s → I (g s)) :
    (write g).Keeps I fun _ => True :=
  fun _ => wp_last (wp_write fun t _ hi _ => ⟨h t hi, trivial, trivial⟩)

/-- A loop; `J` holds of the values that it goes round with. -/
theorem keeps_loop {x : γ} {body : γ → Prog S (γ ⊕ α)} (J : γ → Prop) (hx : J x)
    (hbody : ∀ y, J y → (body y).Keeps I fun r => match r with
      | .inl z => J z
      | .inr a => P a) : (repeatUntil x body).Keeps I P := by
  intro s
  refine wp_last (wp_loop (fun y _ => J y) id (fun _ _ _ h _ _ => h) hx ?_)
  intro y t hy
  refine wp_mono (hbody y hy t) ?_
  rintro (z | a) u h
  · exact h
  · exact h

theorem keeps_fold {l : List β} {a : γ} {body : γ → β → Prog S γ}
    (h : ∀ a, ∀ x ∈ l, (body a x).Keeps I fun _ => True) :
    (fold l a body).Keeps I fun _ => True := by
  induction l generalizing a with
  | nil => exact keeps_ret trivial
  | cons x l ih =>
      refine keeps_seq (h a x (List.mem_cons_self ..)) fun a' _ => ?_
      exact ih fun a y hy => h a y (List.mem_cons_of_mem _ hy)

end Invariants

/-! ## Frames -/

/-- Every step of `p` changes nothing or is within `R`. -/
def Within (R : S → S → Prop) {α : Type} : Prog S α → Prop
  | .ret _ => True
  | .act f k => (∀ s b t, f s = some (b, t) → t = s ∨ R s t) ∧ ∀ b, (k b).Within R
  | .pick k => ∀ n, (k n).Within R
  | .loop body _ k => (∀ y, (body y).Within R) ∧ ∀ b, (k b).Within R

section Frames

variable {R : S → S → Prop}

theorem Within.mono {R' : S → S → Prop} {p : Prog S α} (h : p.Within R)
    (hR : ∀ s t, R s t → R' s t) : p.Within R' := by
  induction p with
  | ret a => trivial
  | act f k ih => exact ⟨fun s b t hf => (h.1 s b t hf).imp_right (hR s t), fun b => ih b (h.2 b)⟩
  | pick k ih => exact fun n => ih n (h n)
  | loop body x k ihb ihk => exact ⟨fun y => ihb y (h.1 y), fun b => ihk b (h.2 b)⟩

theorem within_bind {p : Prog S α} {k : α → Prog S β} (h : p.Within R)
    (hk : ∀ a, (k a).Within R) : (p.bind k).Within R := by
  induction p with
  | ret a => exact hk a
  | act f k' ih => exact ⟨h.1, fun b => ih b (h.2 b) hk⟩
  | pick k' ih => exact fun n => ih n (h n) hk
  | loop body x k' _ ih => exact ⟨h.1, fun b => ih b (h.2 b) hk⟩

theorem within_seq {p : Prog S α} {k : α → Prog S β} (h : p.Within R)
    (hk : ∀ a, (k a).Within R) : (p >>= k).Within R :=
  within_bind h hk

theorem within_read {g : S → β} {k : β → Prog S α} (hk : ∀ b, (k b).Within R) :
    (read g >>= k).Within R := by
  refine ⟨?_, hk⟩
  rintro s b t ⟨⟩
  exact .inl rfl

theorem within_load {g : S → α} : (read g).Within R := by
  refine ⟨?_, fun _ => trivial⟩
  rintro s b t ⟨⟩
  exact .inl rfl

theorem within_update {g : S → β × S} {k : β → Prog S α}
    (h : ∀ s, (g s).2 = s ∨ R s (g s).2) (hk : ∀ b, (k b).Within R) :
    (update g >>= k).Within R := by
  refine ⟨?_, hk⟩
  intro s b t hf
  have ht : t = (g s).2 := congrArg Prod.snd (Option.some.inj hf).symm
  rw [ht]
  exact h s

theorem within_last {p : Prog S α} (h : (p >>= .ret).Within R) : p.Within R := by
  rwa [bind_ret] at h

theorem within_write {g : S → S} {k : Unit → Prog S α} (h : ∀ s, g s = s ∨ R s (g s))
    (hk : (k ()).Within R) : (write g >>= k).Within R := by
  refine ⟨?_, fun _ => hk⟩
  rintro s b t ⟨⟩
  exact h s

theorem within_await {c : S → Bool} {k : Unit → Prog S α} (hk : (k ()).Within R) :
    (await c >>= k).Within R := by
  refine ⟨?_, fun _ => hk⟩
  intro s b t hf
  dsimp only at hf
  split at hf
  · cases hf
    exact .inl rfl
  · cases hf

theorem within_choose {k : ℕ → Prog S α} (hk : ∀ n, (k n).Within R) :
    (choose >>= k).Within R := hk

theorem within_repeat {x : γ} {body : γ → Prog S (γ ⊕ β)} (hbody : ∀ y, (body y).Within R) :
    (repeatUntil x body).Within R :=
  ⟨hbody, fun _ => trivial⟩

theorem within_fold {l : List β} {a : γ} {body : γ → β → Prog S γ}
    (hbody : ∀ a x, (body a x).Within R) : (fold l a body).Within R := by
  induction l generalizing a with
  | nil => trivial
  | cons x l ih => exact within_bind (hbody a x) fun _ => ih

/-- A step of a program that keeps within `R`. -/
theorem within_step {p p' : Prog S α} {s s' : S} {n : ℕ} (h : p.Within R)
    (hs : p.step n s = some (p', s')) : (s' = s ∨ R s s') ∧ p'.Within R := by
  cases p with
  | ret a => cases hs
  | act f k =>
      obtain ⟨⟨b, u⟩, hf, hu⟩ := Option.map_eq_some_iff.mp hs
      cases hu
      exact ⟨h.1 s b _ hf, h.2 b⟩
  | pick k =>
      cases hs
      exact ⟨.inl rfl, h n⟩
  | loop body x k =>
      cases hs
      refine ⟨.inl rfl, within_bind (h.1 x) ?_⟩
      rintro (y | b)
      · exact h
      · exact h.2 b

/-- A program within `R` keeps whatever the others and `R` keep. -/
theorem wp_of_within {p : Prog S α} {s : S} (J : S → Prop) (ht : ¬ π.total) (h : p.Within R)
    (hR : ∀ s t, J s → π.inv s → R s t → J t ∧ π.inv t ∧ π.guar s t)
    (hst : ∀ t u, J t → π.rely t u → π.inv u → J u) (hs : J s) : p.wp π (fun _ => J) s := by
  induction p generalizing s with
  | ret a => exact hs
  | act f k ih =>
      intro t hr hi
      refine ⟨fun h => absurd h ht, ?_⟩
      intro b u hf _
      have hJ := hst s t hs hr hi
      rcases h.1 t b u hf with rfl | hu
      · exact ⟨hi, π.guar_refl u, ih b (h.2 b) hJ⟩
      · obtain ⟨hJu, hiu, hg⟩ := hR t u hJ hi hu
        exact ⟨hiu, hg, ih b (h.2 b) hJu⟩
  | pick k ih => exact fun n => ih n (h n) hs
  | loop body x k ihb ihk =>
      refine ⟨fun _ => J, fun _ => 0, fun _ => hst, hs, ?_⟩
      intro y t hy
      refine wp_mono (ihb y (h.1 y) hy) ?_
      rintro (z | b) u hu
      · exact ⟨hu, fun h => absurd h ht⟩
      · exact ihk b (h.2 b) hu

end Frames

/-! ## Programs on a part of the state -/

section Parts

variable {T : Type}

/-- The program `p` on a part of the state: `get` reads the part, `put` replaces it. -/
def zoom (get : T → S) (put : S → T → T) {α : Type} : Prog S α → Prog T α
  | .ret a => .ret a
  | .act f k => .act (fun t => (f (get t)).map fun (b, s) => (b, put s t)) fun b =>
      (k b).zoom get put
  | .pick k => .pick fun n => (k n).zoom get put
  | .loop body x k => .loop (fun y => (body y).zoom get put) x fun b => (k b).zoom get put

/-- **A program on a part of the state.**  `J` is what makes the others leave the part alone as
the protocol `π` of the program wants it. -/
theorem wp_zoom {π : Protocol S} {ρ : Protocol T} {get : T → S} {put : S → T → T} {p : Prog S α}
    {Q : α → S → Prop} {t : T} (J : T → Prop) (htotal : ρ.total → π.total)
    (hget : ∀ s t, get (put s t) = s)
    (hrely : ∀ t u, J t → ρ.rely t u → ρ.inv u → J u ∧ π.rely (get t) (get u))
    (hinv : ∀ t, ρ.inv t → π.inv (get t)) (hassumed : ∀ t, ρ.assumed t → π.assumed (get t))
    (hstep : ∀ t s, J t → ρ.inv t → π.inv s → π.guar (get t) s →
      ρ.inv (put s t) ∧ ρ.guar t (put s t) ∧ J (put s t))
    (h : p.wp π Q (get t)) (ht : J t) :
    (p.zoom get put).wp ρ (fun a u => Q a (get u) ∧ J u) t := by
  induction p generalizing t with
  | ret a => exact ⟨h, ht⟩
  | act f k ih =>
      intro u hr hi
      obtain ⟨hJ, hru⟩ := hrely t u ht hr hi
      obtain ⟨hsome, hact⟩ := h (get u) hru (hinv u hi)
      constructor
      · intro htot
        rw [Option.isSome_map]
        exact hsome (htotal htot)
      · intro b v hf ha
        obtain ⟨⟨b', s⟩, hs, hv⟩ := Option.map_eq_some_iff.mp hf
        cases hv
        have ha' : π.assumed s := by
          rw [← hget s u]
          exact hassumed _ ha
        obtain ⟨his, hg, hk⟩ := hact b s hs ha'
        obtain ⟨hip, hgp, hJp⟩ := hstep u s hJ hi his hg
        refine ⟨hip, hgp, ih b ?_ hJp⟩
        rw [hget]
        exact hk
  | pick k ih =>
      intro n
      exact ih n (h n) ht
  | loop body x k ihb ihk =>
      obtain ⟨I, m, hst, hx, hbody⟩ := h
      refine ⟨fun y t => I y (get t) ∧ J t, m, ?_, ⟨hx, ht⟩, ?_⟩
      · rintro y t u ⟨hI, hJ⟩ hr hi
        obtain ⟨hJu, hru⟩ := hrely t u hJ hr hi
        exact ⟨hst y _ _ hI hru (hinv u hi), hJu⟩
      · rintro y t ⟨hI, hJ⟩
        refine wp_mono (ihb y (hbody y (get t) hI) hJ) ?_
        rintro (z | b) u ⟨hz, hJu⟩
        · exact ⟨⟨hz.1, hJu⟩, fun htot => hz.2 (htotal htot)⟩
        · exact ihk b hz hJu

end Parts

/-! ## Ending -/

/-- `p`, started in `s` among threads that keep to `π`, can always take its next step, takes
finitely many of them, and ends in states that satisfy `Q`. -/
inductive Ends (π : Protocol S) {α : Type} (Q : α → S → Prop) : Prog S α → S → Prop
  | ret {a : α} {s : S} (h : Q a s) : Ends π Q (.ret a) s
  | step {p : Prog S α} {s : S}
      (enabled : ∀ t, π.rely s t → π.inv t → ∀ n, (p.step n t).isSome)
      (h : ∀ t, π.rely s t → π.inv t → ∀ n p' u, p.step n t = some (p', u) → π.assumed u →
        Ends π Q p' u) : Ends π Q p s

section Ending

variable {Q : β → S → Prop}

/-- The others do not keep a program from ending. -/
theorem Ends.rely {p : Prog S β} {s t : S} (hQ : ∀ a u v, Q a u → π.rely u v → π.inv v → Q a v)
    (h : Ends π Q p s) (hr : π.rely s t) (hi : π.inv t) : Ends π Q p t := by
  cases h with
  | ret h => exact .ret (hQ _ _ _ h hr hi)
  | step enabled h =>
      exact .step (fun u hu => enabled u (π.rely_trans hr hu)) fun u hu => h u (π.rely_trans hr hu)

/-- A program that keeps to a total protocol ends, if what follows it does. -/
theorem ends_bind {p : Prog S α} {k : α → Prog S β} {s : S} (ht : π.total)
    (hQ : ∀ a u v, Q a u → π.rely u v → π.inv v → Q a v)
    (h : p.wp π (fun a t => Ends π Q (k a) t) s) : Ends π Q (p.bind k) s := by
  induction p generalizing s with
  | ret a => exact h
  | act f k' ih =>
      refine .step (fun t hr hi n => ?_) fun t hr hi n p' u hs ha => ?_
      · exact Option.isSome_map.trans ((h t hr hi).1 ht)
      · obtain ⟨⟨b, u⟩, hf, hu⟩ := Option.map_eq_some_iff.mp hs
        cases hu
        exact ih b ((h t hr hi).2 b _ hf ha).2.2
  | pick k' ih =>
      refine .step (fun _ _ _ _ => rfl) fun t hr hi n p' u hs _ => ?_
      cases hs
      exact ih n (wp_rely (fun _ _ _ he hr' hi' => he.rely hQ hr' hi') (h n) hr hi)
  | loop body x k' ihb ihk =>
      obtain ⟨J, m, hst, hx, hbody⟩ := h
      -- by induction on the variant of the loop
      have hloop : ∀ v y t, m y = v → J y t →
          Ends π Q (.loop body y fun b => (k' b).bind k) t := by
        intro v
        induction v using Nat.strongRecOn with
        | ind v ih =>
            intro y t hv hy
            refine .step (fun _ _ _ _ => rfl) fun u hr hi n p' u' hs _ => ?_
            cases hs
            refine ihb y (wp_mono (hbody y u (hst y t u hy hr hi)) ?_)
            rintro (z | b) w hw
            · exact ih (m z) (hv ▸ hw.2 ht) z w rfl hw.1
            · exact ihk b hw
      exact hloop (m x) x s rfl hx

/-- **A program that keeps to a total protocol ends.** -/
theorem ends_of_wp {p : Prog S β} {s : S} (ht : π.total)
    (hQ : ∀ a u v, Q a u → π.rely u v → π.inv v → Q a v) (h : p.wp π Q s) : Ends π Q p s := by
  have hp := ends_bind (k := .ret) ht hQ (wp_mono h fun _ _ => .ret)
  rwa [show p.bind .ret = p from bind_ret p] at hp

/-- The program runs from one point to another, undisturbed. -/
def Runs (x y : Prog S α × S) : Prop :=
  Relation.ReflTransGen (fun x y : Prog S α × S => x.1.step 0 x.2 = some y) x y

/-- A program that ends when it is on its own runs to its end. -/
theorem runs_of_wp {p : Prog S β} {s : S} (h : p.wp (Protocol.alone S) Q s) :
    ∃ a t, Runs (p, s) (.ret a, t) ∧ Q a t := by
  have hends : Ends (Protocol.alone S) Q p s := by
    refine ends_of_wp trivial ?_ h
    rintro a u v hQ rfl -
    exact hQ
  clear h
  induction hends with
  | ret h => exact ⟨_, _, .refl, h⟩
  | @step p s enabled _ ih =>
      obtain ⟨⟨p', u⟩, hs⟩ := Option.isSome_iff_exists.mp (enabled s rfl trivial 0)
      obtain ⟨a, t, hr, ht⟩ := ih s rfl trivial 0 p' u hs trivial
      exact ⟨a, t, .head hs hr, ht⟩

end Ending

end Prog
