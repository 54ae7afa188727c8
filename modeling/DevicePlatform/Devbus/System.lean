/-
# A service and its subscribers

The service as a state machine: the publisher's program, the program of every subscriber and
the state they share.  An event either begins a call, takes one atomic step of a call, or is
the outside's: a process dies, time passes, a sleeping thread is woken for no reason.

Calls are made as the interface allows: a subscriber makes one call at a time, `release` gets
a sample that it holds, a subscriber is destroyed when no sample is left, and the publisher is
not called once it is destroyed.  A dead process takes no step.

**The invariant of the system** (`SysInv`): the shared state is `Good`, and every program
keeps to its protocol.  It holds in every state of a run

* without a join, if nobody is under construction at its beginning (`calm`); or
* in which `check_liveness` gives up no slot whose claimer is alive (`Patient`).
-/
import DevicePlatform.Devbus.Join
import DevicePlatform.Devbus.Send
import DevicePlatform.Transition

namespace Devbus

/-! ## The machine -/

/-- The shared state, and what is left to do of the calls in progress. -/
structure Sys where
  bus : Bus
  pub : Prog Bus Unit
  sub : ℕ → Prog Bus Unit

inductive Event where
  | loan
  | releaseLoan (c : ℕ)
  /-- The application writes the payload of a chunk that it has on loan. -/
  | fill (c v : ℕ)
  | send (c : ℕ)
  | checkLiveness
  | shutdown
  /-- A step of the publisher. -/
  | publisher (n : ℕ)
  /-- The process `pid` constructs subscriber `i`. -/
  | join (i pid : ℕ) (overflow : Overflow) (blockTimeoutUs : ℕ)
  | tryReceive (i : ℕ)
  | release (i : ℕ) (e : Entry)
  | wait (i : ℕ) (mode : Subscriber.WaitMode) (timeout : Option ℕ)
  | poll (i : ℕ) (timeout : Option ℕ)
  | destroy (i : ℕ)
  /-- A step of subscriber `i`. -/
  | subscriber (i n : ℕ)
  | crash (pid : ℕ)
  | tick (ns : ℕ)
  /-- A timeout or a signal ends a sleep on a futex word of slot `s`. -/
  | wakeSubscriber (s : ℕ)
  | wakePublisher (s : ℕ)
  deriving DecidableEq, Repr

/-- `loan`, and the note of its result. -/
def Publisher.callLoan : Prog Bus Unit := do
  let r ← loan
  Prog.write fun b => b.setCalls fun a => { a with loaned := a.loaned ++ [r] }
  return ()

namespace Sys

/-- The publisher is called. -/
def call (s : Sys) (p : Prog Bus Unit) : Option Sys :=
  if s.pub.returned ∧ s.bus.publisherPid ≠ 0 then some { s with pub := p } else none

/-- Subscriber `i`, in whatever slot it has, is called. -/
def callSub (s : Sys) (i : ℕ) (p : ℕ → Prog Bus Unit) : Option Sys :=
  if (s.sub i).returned ∧ s.bus.alive (s.bus.subs i).pid ∧ (s.bus.subs i).phase = .live then
    (s.bus.subs i).slot.map fun sl => { s with sub := Function.update s.sub i (p sl) }
  else none

/-- The next state. -/
def next (s : Sys) : Event → Option Sys
  | .loan => s.call Publisher.callLoan
  | .releaseLoan c => if c ∈ s.bus.calls.loans then s.call (Publisher.releaseLoan c) else none
  | .fill c v =>
      if s.pub.returned ∧ c ∈ s.bus.calls.loans then
        some { s with bus := { s.bus with payload := Function.update s.bus.payload c v } }
      else none
  | .send c =>
      if c ∈ s.bus.calls.loans then s.call (do let _ ← Publisher.send c; return ()) else none
  | .checkLiveness => s.call (do let _ ← Publisher.checkLiveness; return ())
  | .shutdown => s.call Publisher.shutdown
  | .publisher n => (s.pub.step n s.bus).map fun (p, b) => { s with pub := p, bus := b }
  | .join i pid overflow timeout =>
      if (s.bus.subs i).phase = .absent ∧ pid ≠ 0 ∧ s.bus.alive pid then
        some { s with
          bus := s.bus.setSub i fun _ => { Sub.absent with
            phase := .building
            pid := pid
            overflow := overflow
            blockTimeoutUs := timeout }
          sub := Function.update s.sub i (Subscriber.construct i) }
      else none
  | .tryReceive i => s.callSub i (Subscriber.tryReceive i)
  | .release i e =>
      if e ∈ (s.bus.subs i).samples then s.callSub i fun sl => Subscriber.release i sl e else none
  | .wait i mode timeout =>
      s.callSub i fun sl => do let _ ← Subscriber.wait sl mode timeout; return ()
  | .poll i timeout => s.callSub i fun sl => Subscriber.poll i sl timeout
  | .destroy i =>
      if (s.bus.subs i).samples = [] then s.callSub i (Subscriber.destroy i) else none
  | .subscriber i n =>
      if s.bus.alive (s.bus.subs i).pid then
        ((s.sub i).step n s.bus).map fun (p, b) =>
          { s with sub := Function.update s.sub i p, bus := b }
      else none
  | .crash pid =>
      if pid ≠ s.bus.publisherPid then
        some { s with bus := { s.bus with alive := Function.update s.bus.alive pid false } }
      else none
  | .tick ns => some { s with bus := { s.bus with clock := s.bus.clock + ns } }
  | .wakeSubscriber sl =>
      some { s with bus := s.bus.setFutex sl fun f => { f with subscriberQueued := false } }
  | .wakePublisher sl =>
      some { s with bus := s.bus.setFutex sl fun f => { f with publisherQueued := false } }

/-- The service as its constructor leaves it. -/
def create (cfg : ServiceConfig) (l : Layout) (pid now : ℕ) : Sys :=
  ⟨Bus.create cfg l pid now, .ret (), fun _ => .ret ()⟩

end Sys

/-- **The service**, for every configuration that the constructor accepts and whose exact
chunk budget fits in 16 bits. -/
def service : Machine Sys Event where
  init s := ∃ cfg typeSize typeAlign l pid now, 1 ≤ cfg.maxSubscribers.toNat ∧
    Layout.exactBudget cfg ≤ 65535 ∧ Layout.computeLayout cfg typeSize typeAlign = some l ∧
    pid ≠ 0 ∧ s = Sys.create cfg l pid now
  next := Sys.next

/-! ## The kinds of steps -/

/-- The subscriber whose program an event begins or continues. -/
def Event.subject : Event → Option ℕ
  | .join i _ _ _ | .tryReceive i | .release i _ | .wait i _ _ | .poll i _ | .destroy i
  | .subscriber i _ => some i
  | _ => none

/-- What happens without a program: processes die, time passes, the application writes. -/
structure Outside (b d : Bus) : Prop where
  hdr : d.hdr = b.hdr
  slot : d.slot = b.slot
  led : d.led = b.led
  stats : d.stats = b.stats
  book : d.book = b.book
  calls : d.calls = b.calls
  chunkSeq : d.chunkSeq = b.chunkSeq
  subs : d.subs = b.subs
  publisherPid : d.publisherPid = b.publisherPid
  alive : ∀ p, d.alive p = true → b.alive p = true

theorem Outside.move {b d : Bus} (h : Outside b d) : SubsMove b.toCore d.toCore := by
  refine ⟨h.hdr, h.book, h.calls, h.chunkSeq, h.stats, h.alive, fun s => ?_, fun s _ => ?_⟩
  · rw [h.slot, h.led]
    exact SlotMove.refl _ _
  · rw [h.slot, h.led]
    exact ⟨rfl, rfl⟩

/-- A step of the system is a step of a program, a call, or from outside. -/
inductive Sys.Step (s : Sys) : Event → Sys → Prop
  | publisher {n : ℕ} {p : Prog Bus Unit} {b : Bus} (hs : s.pub.step n s.bus = some (p, b)) :
      Step s (.publisher n) { s with pub := p, bus := b }
  | subscriber {i n : ℕ} {p : Prog Bus Unit} {b : Bus}
      (halive : s.bus.alive (s.bus.subs i).pid = true)
      (hs : (s.sub i).step n s.bus = some (p, b)) :
      Step s (.subscriber i n) { s with sub := Function.update s.sub i p, bus := b }
  | call {e : Event} {p : Prog Bus Unit} (hret : s.pub.returned = true)
      (hpid : s.bus.publisherPid ≠ 0)
      (hp : (e = .shutdown ∧ p = Publisher.shutdown) ∨ p.Within Bus.OwnStep) :
      Step s e { s with pub := p }
  | callSub {e : Event} {i : ℕ} (p : Prog Bus Unit) (he : e.subject = some i) :
      Step s e { s with sub := Function.update s.sub i p }
  | join {i pid : ℕ} {overflow : Overflow} {timeout : ℕ} (u : Sub)
      (habsent : (s.bus.subs i).phase = .absent) (hu : u.phase = .building ∧ u.status = none) :
      Step s (.join i pid overflow timeout)
        { s with
          bus := s.bus.setSub i fun _ => u
          sub := Function.update s.sub i (Subscriber.construct i) }
  | outside {e : Event} {b : Bus} (h : Outside s.bus b) : Step s e { s with bus := b }

theorem Sys.step_of_next {s s' : Sys} {e : Event} (h : s.next e = some s') : s.Step e s' := by
  have hcall : ∀ {p : Prog Bus Unit}, (e = .shutdown ∧ p = Publisher.shutdown) ∨
      p.Within Bus.OwnStep → s.call p = some s' → s.Step e s' := by
    intro p hp hs
    unfold Sys.call at hs
    split at hs
    · next hret =>
      cases hs
      exact .call hret.1 hret.2 hp
    · cases hs
  have hsub : ∀ {i : ℕ} {p : ℕ → Prog Bus Unit}, e.subject = some i → s.callSub i p = some s' →
      s.Step e s' := by
    intro i p he hs
    unfold Sys.callSub at hs
    split at hs
    · obtain ⟨sl, -, rfl⟩ := Option.map_eq_some_iff.mp hs
      exact .callSub (p sl) he
    · cases hs
  have hsame : ∀ {f : ℕ → FutexWords} {clock : ℕ},
      s.Step e { s with bus := { s.bus with futex := f, clock := clock } } :=
    .outside ⟨rfl, rfl, rfl, rfl, rfl, rfl, rfl, rfl, rfl, fun _ h => h⟩
  cases e with
  | loan =>
      refine hcall (.inr (Prog.within_seq loan_own fun _ => ?_)) h
      exact Prog.within_write (fun _ => .inr ⟨rfl, rfl, .others rfl⟩) (by trivial)
  | checkLiveness =>
      exact hcall (.inr (Prog.within_seq checkLiveness_own fun _ => by trivial)) h
  | shutdown => exact hcall (.inl ⟨rfl, rfl⟩) h
  | releaseLoan c =>
      dsimp only [Sys.next] at h
      split at h
      · exact hcall (.inr releaseLoan_own) h
      · cases h
  | send c =>
      dsimp only [Sys.next] at h
      split at h
      · exact hcall (.inr (Prog.within_seq send_own fun _ => by trivial)) h
      · cases h
  | fill c v =>
      dsimp only [Sys.next] at h
      split at h <;> cases h
      exact .outside ⟨rfl, rfl, rfl, rfl, rfl, rfl, rfl, rfl, rfl, fun _ h => h⟩
  | publisher n =>
      obtain ⟨⟨p, b⟩, hs, rfl⟩ := Option.map_eq_some_iff.mp h
      exact .publisher hs
  | join i pid overflow timeout =>
      dsimp only [Sys.next] at h
      split at h
      · next hc =>
        cases h
        exact .join _ hc.1 ⟨rfl, rfl⟩
      · cases h
  | tryReceive i | wait i mode timeout | poll i timeout => exact hsub rfl h
  | release i e | destroy i =>
      dsimp only [Sys.next] at h
      split at h
      · exact hsub rfl h
      · cases h
  | subscriber i n =>
      dsimp only [Sys.next] at h
      split at h
      · next halive =>
        obtain ⟨⟨p, b⟩, hs, rfl⟩ := Option.map_eq_some_iff.mp h
        exact .subscriber halive hs
      · cases h
  | crash pid =>
      dsimp only [Sys.next] at h
      split at h <;> cases h
      refine .outside ⟨rfl, rfl, rfl, rfl, rfl, rfl, rfl, rfl, rfl, fun q hq => ?_⟩
      dsimp only at hq
      rw [Function.update_apply] at hq
      split_ifs at hq
      exact hq
  | tick ns | wakeSubscriber sl | wakePublisher sl =>
      cases h
      exact hsame

/-! ## Conditions on runs -/

/-- `check_liveness` does not give up a slot whose claimer is alive. -/
def Patient (s : Sys) (e : Event) : Prop := ∀ s', s.next e = some s' → s'.bus.timedOut = false

/-- Nobody joins. -/
def NoJoin (_ : Sys) : Event → Prop
  | .join .. => False
  | _ => True

/-- The subscribers in `R` are recorders: they make no call but `poll`. -/
def Recording (R : ℕ → Prop) (_ : Sys) : Event → Prop
  | .tryReceive i | .release i _ => ¬ R i
  | _ => True

theorem recording_none {s : Sys} {e : Event} : Recording (fun _ => False) s e := by
  cases e <;> simp only [Recording, not_false_eq_true]

/-! ## The invariant -/

/-- Subscriber `i` between two calls; the file of a recorder is up to date. -/
structure SubReady (R : ℕ → Prop) (i : ℕ) (b : Bus) : Prop where
  idle : SubIdle i b
  filed : R i → (b.subs i).Filed

/-- The shared state is good and every program keeps to its protocol. -/
structure SysInv (calm : Prop) (R : ℕ → Prop) (s : Sys) : Prop where
  good : Good s.bus.toCore
  noClaim : calm → s.bus.NoClaim
  pub : s.pub.wp (pub calm False) (fun _ => PubIdle) s.bus
  sub : ∀ i, s.bus.alive (s.bus.subs i).pid = true →
    (s.sub i).wp (sub calm i) (fun _ => SubReady R i) s.bus

section Steps

variable {calm : Prop} {R : ℕ → Prop} {i : ℕ} {s s' : Sys} {b d : Bus} {p : Prog Bus Unit}

theorem SubIdle.now (t : SubIdle i b) (h : SubNow i b d) : SubIdle i d := by
  intro hlive
  rw [h.subs] at hlive
  obtain ⟨sl, ht⟩ := t hlive
  exact ⟨sl, ht.now h⟩

theorem SubReady.now (t : SubReady R i b) (h : SubNow i b d) : SubReady R i d :=
  ⟨t.idle.now h, by rw [h.subs]; exact t.filed⟩

/-- The programs do not see the rest of the system change. -/
theorem SysInv.pub_rely (inv : SysInv calm R s) (hmove : SubsMove s.bus.toCore b.toCore)
    (g : Good b.toCore) (hc : calm → b.NoClaim) :
    s.pub.wp (Devbus.pub calm False) (fun _ => PubIdle) b :=
  Prog.wp_rely (fun _ _ _ h hr hi => h.rely hr hi.1) inv.pub ⟨hmove⟩ ⟨g, hc⟩

theorem SysInv.sub_rely (inv : SysInv calm R s) (hview : SubView i s.bus.toCore b.toCore)
    (g : Good b.toCore) (ha : b.alive (b.subs i).pid = true) :
    (s.sub i).wp (Devbus.sub calm i) (fun _ => SubReady R i) b := by
  have ha' : s.bus.alive (s.bus.subs i).pid = true := hview.alive _ (by rw [← hview.pid]; exact ha)
  exact Prog.wp_rely (fun _ _ _ h hr hi => h.now ⟨hr, hi.1, hi.2⟩) (inv.sub i ha') hview ⟨g, ha⟩

/-- What the protocols are not about changes. -/
theorem SysInv.outside (inv : SysInv calm R s) (hcore : b.toCore = s.bus.toCore) :
    SysInv calm R { s with bus := b } := by
  have g : Good b.toCore := by
    rw [hcore]
    exact inv.good
  have hc : calm → b.NoClaim := by
    rw [hcore]
    exact inv.noClaim
  refine ⟨g, hc, inv.pub_rely (by rw [hcore]; exact SubsMove.refl _) g hc, fun j ha => ?_⟩
  exact inv.sub_rely (by rw [hcore]; exact SubView.refl j _) g ha

/-- A step of the publisher. -/
theorem SysInv.publisher {n : ℕ} (inv : SysInv calm R s)
    (hs : s.pub.step n s.bus = some (p, b)) (ha : calm ∨ b.timedOut = false) :
    SysInv calm R { s with pub := p, bus := b } := by
  obtain ⟨hi, hmove, hp⟩ := Prog.wp_step inv.pub ⟨inv.good, inv.noClaim⟩ hs ha
  exact ⟨hi.1, hi.2, hp, fun j hj => inv.sub_rely (hmove.view inv.good j) hi.1 hj⟩

/-- A step of a subscriber. -/
theorem SysInv.subscriber {n : ℕ} (inv : SysInv calm R s)
    (halive : s.bus.alive (s.bus.subs i).pid = true)
    (hs : (s.sub i).step n s.bus = some (p, b)) :
    SysInv calm R { s with sub := Function.update s.sub i p, bus := b } := by
  obtain ⟨hi, guar, hp⟩ := Prog.wp_step (inv.sub i halive) ⟨inv.good, halive⟩ hs trivial
  have hc : calm → b.NoClaim := by
    intro hcalm sl j hst
    have hsame := guar.settled hcalm sl (by rw [hst]; exact Nat.le_succ 1)
    exact inv.noClaim hcalm sl j (hsame.symm.trans hst)
  refine ⟨hi.1, hc, inv.pub_rely (guar.move.move inv.good halive) hi.1 hc, fun j hj => ?_⟩
  by_cases hne : j = i
  · subst hne
    dsimp only
    rw [Function.update_self]
    exact hp
  · dsimp only
    rw [Function.update_of_ne hne]
    exact inv.sub_rely (guar.move.view hne) hi.1 hj

/-- The publisher is called. -/
theorem SysInv.call (inv : SysInv calm R s) (h : s.call p = some s')
    (hp : PubIdle s.bus → p.wp (Devbus.pub calm False) (fun _ => PubIdle) s.bus) :
    SysInv calm R s' := by
  unfold Sys.call at h
  split at h
  · next hret =>
    cases h
    exact ⟨inv.good, inv.noClaim, hp (Prog.wp_returned inv.pub hret.1), inv.sub⟩
  · cases h

/-- A subscriber is called. -/
theorem SysInv.callSub {p : ℕ → Prog Bus Unit} (inv : SysInv calm R s)
    (h : s.callSub i p = some s')
    (hp : ∀ sl, Attached i sl [] s.bus → (R i → (s.bus.subs i).Filed) →
      (p sl).wp (Devbus.sub calm i) (fun _ => SubReady R i) s.bus) :
    SysInv calm R s' := by
  unfold Sys.callSub at h
  split at h
  · next hret =>
    obtain ⟨hdone, halive, hlive⟩ := hret
    obtain ⟨sl, hslot, rfl⟩ := Option.map_eq_some_iff.mp h
    refine ⟨inv.good, inv.noClaim, inv.pub, fun j hj => ?_⟩
    by_cases hne : j = i
    · subst hne
      dsimp only
      rw [Function.update_self]
      have hsub := Prog.wp_returned (inv.sub j halive) hdone
      obtain ⟨sl', ht⟩ := hsub.idle hlive
      have hsl : sl' = sl := Option.some.inj (ht.slot.symm.trans hslot)
      exact hp sl (hsl ▸ ht) hsub.filed
    · dsimp only
      rw [Function.update_of_ne hne]
      exact inv.sub j hj
  · cases h

/-- The object of a subscriber that begins to exist. -/
theorem Good.join {c : Core} (g : Good c) {u : Sub} (habsent : (c.subs i).phase = .absent)
    (hslot : u.slot = none) (hlive : u.phase ≠ .live) (htally : u.Tallied) :
    Good { c with subs := Function.update c.subs i u } := by
  refine ⟨g.exact, g.slot, g.beyond, g.pool, g.stored, ?_, ?_, g.unsent, g.seqs, g.counters, g.ripe,
    ?_⟩
  · intro sl
    refine (Function.forall_update_iff c.subs fun j u => Owns u j sl (c.led sl)).mpr
      ⟨?_, fun j _ => g.owner sl j⟩
    have o := g.owner sl i
    refine ⟨fun h => ?_, fun h => ?_, fun h => ?_⟩
    · cases habsent.symm.trans (o.claimed h).2.2
    · cases habsent.symm.trans (o.active h).2.2.1
    · cases habsent.symm.trans (o.closing h).2.1
  · refine (Function.forall_update_iff c.subs fun j u => c.alive u.pid = true →
      Placed u j c.led).mpr ⟨fun _ => ⟨?_, ?_⟩, fun j _ => g.live j⟩
    · intro _ sl hsl
      cases hslot.symm.trans hsl
    · intro h
      exact absurd h hlive
  · exact (Function.forall_update_iff c.subs fun _ u => u.Tallied).mpr
      ⟨htally, fun j _ => g.tallied j⟩

/-- A subscriber is constructed. -/
theorem SysInv.join {pid timeout : ℕ} {overflow : Overflow} (inv : SysInv False R s)
    (habsent : (s.bus.subs i).phase = .absent) (hpid : pid ≠ 0) :
    SysInv False R { s with
      bus := s.bus.setSub i fun _ => { Sub.absent with
        phase := .building
        pid := pid
        overflow := overflow
        blockTimeoutUs := timeout }
      sub := Function.update s.sub i (Subscriber.construct i) } := by
  have g := inv.good.join (i := i) (u := { Sub.absent with
    phase := .building
    pid := pid
    overflow := overflow
    blockTimeoutUs := timeout }) habsent rfl (fun h => Phase.noConfusion h)
    ⟨rfl, rfl, fun _ => rfl, fun f hf => nomatch hf⟩
  refine ⟨g, False.elim, inv.pub_rely ?_ g False.elim, fun j hj => ?_⟩
  · exact ⟨rfl, rfl, rfl, rfl, rfl, fun _ h => h, fun _ => SlotMove.refl _ _,
      fun _ _ => ⟨rfl, rfl⟩⟩
  · by_cases hne : j = i
    · subst hne
      dsimp only
      rw [Function.update_self]
      refine Prog.wp_mono (construct_spec ?_) ?_
      · refine ⟨?_, ?_, ?_, ?_⟩ <;> rw [Bus.setSub_self]
        · rfl
        · exact hpid
        · exact rfl
      · rintro - b' ⟨hfiled, hend⟩
        refine ⟨fun hlive => ?_, fun _ => hfiled⟩
        rcases hend with hfail | ht
        · cases hfail.symm.trans hlive
        · exact ht
    · dsimp only
      rw [Function.update_of_ne hne]
      refine inv.sub_rely ⟨rfl, ?_, fun _ h => h, fun _ => ?_, fun _ _ _ => Keeps.refl _ _⟩ g hj
      · exact congrArg Sub.pid (Function.update_of_ne hne ..)
      · exact Function.update_of_ne hne ..

/-- The application writes to a chunk that it has on loan. -/
theorem SysInv.fill {c v : ℕ} (inv : SysInv calm R s) (hret : s.pub.returned = true)
    (hc : c ∈ s.bus.calls.loans) :
    SysInv calm R { s with
      bus := { s.bus with payload := Function.update s.bus.payload c v } } := by
  have g := inv.good.fill hc v
  refine ⟨g, inv.noClaim, ?_, fun j hj => ?_⟩
  · have hpub := Prog.wp_returned inv.pub hret
    show s.pub.wp _ _ _
    rw [Prog.eq_ret_of_returned hret]
    exact ⟨hpub.steady.recall g rfl rfl rfl rfl rfl, hpub.idle⟩
  · exact inv.sub_rely ⟨rfl, rfl, fun _ h => h, fun _ => rfl, fun _ _ _ => Keeps.refl _ _⟩ g hj

/-- A process dies. -/
theorem SysInv.crash (inv : SysInv calm R s) (pid : ℕ) :
    SysInv calm R { s with
      bus := { s.bus with alive := Function.update s.bus.alive pid false } } := by
  have g := inv.good.crash pid
  have hmono : ∀ q, Function.update s.bus.alive pid false q = true → s.bus.alive q = true := by
    intro q hq
    rw [Function.update_apply] at hq
    split_ifs at hq
    exact hq
  refine ⟨g, inv.noClaim, inv.pub_rely ?_ g inv.noClaim, fun j hj => ?_⟩
  · exact ⟨rfl, rfl, rfl, rfl, rfl, hmono, fun _ => SlotMove.refl _ _, fun _ _ => ⟨rfl, rfl⟩⟩
  · exact inv.sub_rely ⟨rfl, rfl, hmono, fun _ => rfl, fun _ _ _ => Keeps.refl _ _⟩ g hj

/-- `loan`, and the note of its result. -/
theorem callLoan_spec {total : Prop} (t : PubIdle b) :
    Publisher.callLoan.wp (Devbus.pub calm total)
      (fun _ b' => PubIdle b' ∧ (b.calls.loansOut < b.hdr.maxLoans →
        ∃ c, b'.calls.loaned = b.calls.loaned ++ [.ok c])) b := by
  unfold Publisher.callLoan
  refine Prog.wp_seq (loan_spec t) ?_
  rintro r b₁ ⟨t₁, hloaned, hr, hok⟩
  refine pub_write fun b₂ h₂ g₂ => ?_
  have t₂ := t₁.rely h₂ g₂
  have i₂ := t₂.idle
  have hcalls : b₂.calls.loaned = b.calls.loaned := by rw [h₂.move.calls, hloaned]
  have p := g₂.pool
  have step : PubStep b₂.toCore
      (b₂.setCalls fun a => { a with loaned := a.loaned ++ [r] }).toCore :=
    g₂.setPool rfl rfl rfl (fun _ => .inl)
      ⟨p.refs, p.one, p.beyond, p.bounded, p.place, p.loansOut, p.loans_le⟩ g₂.unsent g₂.seqs
  refine ⟨step, ⟨t₂.steady.recall step.good rfl rfl rfl rfl rfl, ⟨i₂.listed, i₂.ripened, i₂.sending,
    i₂.sentTo, i₂.nextSeq, i₂.reports, ?_, i₂.overlooked⟩⟩, fun hlt => ?_⟩
  · intro x hx
    rcases List.mem_append.mp hx with hold | hnew
    · exact i₂.loaned x hold
    · rw [List.mem_singleton.mp hnew]
      exact hr
  · obtain ⟨c, rfl⟩ := hok hlt
    exact ⟨c, by rw [← hcalls]; rfl⟩

/-- **One step of the system.** -/
theorem SysInv.next {e : Event} (inv : SysInv calm R s) (hjoin : calm → NoJoin s e)
    (hpatient : calm ∨ Patient s e) (hrec : Recording R s e) (h : s.next e = some s') :
    SysInv calm R s' := by
  cases e with
  | loan => exact inv.call h fun t => Prog.wp_mono (callLoan_spec t) fun _ _ h => h.1
  | releaseLoan c =>
      dsimp only [Sys.next] at h
      split at h
      · next hc => exact inv.call h fun t => releaseLoan_spec t hc
      · cases h
  | fill c v =>
      dsimp only [Sys.next] at h
      split at h
      · next hc =>
        cases h
        exact inv.fill hc.1 hc.2
      · cases h
  | send c =>
      dsimp only [Sys.next] at h
      split at h
      · next hc =>
        exact inv.call h fun t => Prog.wp_seq (send_spec id t hc) fun _ _ h => h
      · cases h
  | checkLiveness =>
      exact inv.call h fun t => Prog.wp_seq (checkLiveness_idle t) fun _ _ h => h
  | shutdown => exact inv.call h fun t => shutdown_spec id t
  | publisher n =>
      obtain ⟨⟨p, b⟩, hs, rfl⟩ := Option.map_eq_some_iff.mp h
      exact inv.publisher hs (hpatient.imp_right fun hp => hp _ h)
  | join j pid overflow timeout =>
      obtain rfl : calm = False := eq_false fun hc => hjoin hc
      dsimp only [Sys.next] at h
      split at h
      · next hc =>
        cases h
        exact inv.join hc.1 hc.2.1
      · cases h
  | tryReceive j =>
      refine inv.callSub h fun sl ht _ => Prog.wp_mono (tryReceive_spec ht) ?_
      exact fun _ _ h => ⟨fun _ => ⟨sl, h.1⟩, fun hR => absurd hR hrec⟩
  | release j e =>
      dsimp only [Sys.next] at h
      split at h
      · next he =>
        refine inv.callSub h fun sl ht _ => Prog.wp_mono (release_spec ht he) ?_
        exact fun _ _ h => ⟨fun _ => ⟨sl, h.1⟩, fun hR => absurd hR hrec⟩
      · cases h
  | wait j mode timeout =>
      refine inv.callSub h fun sl ht hf => Prog.wp_seq (wait_spec ht sl mode timeout) ?_
      exact fun _ b' h => ⟨fun _ => ⟨sl, h.1⟩, fun hR => by rw [h.2]; exact hf hR⟩
  | poll j timeout =>
      refine inv.callSub h fun sl ht hf => Prog.wp_mono (poll_spec ht timeout) ?_
      exact fun _ _ h => ⟨fun _ => ⟨sl, h.1⟩, fun hR => h.2.2 (hf hR)⟩
  | destroy j =>
      dsimp only [Sys.next] at h
      split at h
      · refine inv.callSub h fun sl ht hf => Prog.wp_mono (destroy_spec ht) ?_
        rintro - b' hsub
        refine ⟨fun hlive => ?_, fun hR => ?_⟩
        · rw [hsub] at hlive
          cases hlive
        · rw [hsub]
          exact hf hR
      · cases h
  | subscriber j n =>
      dsimp only [Sys.next] at h
      split at h
      · next halive =>
        obtain ⟨⟨p, b⟩, hs, rfl⟩ := Option.map_eq_some_iff.mp h
        exact inv.subscriber halive hs
      · cases h
  | crash pid =>
      dsimp only [Sys.next] at h
      split at h
      · cases h
        exact inv.crash pid
      · cases h
  | tick ns =>
      cases h
      exact inv.outside rfl
  | wakeSubscriber sl =>
      cases h
      exact inv.outside rfl
  | wakePublisher sl =>
      cases h
      exact inv.outside rfl

end Steps

/-! ## Runs -/

section Start

variable {cfg : ServiceConfig} {typeSize typeAlign : BitVec 64} {l : Layout}

/-- The header of a service that the constructor accepts. -/
theorem Bus.create_exact (hsubs : 1 ≤ cfg.maxSubscribers.toNat)
    (hbudget : Layout.exactBudget cfg ≤ 65535)
    (hl : Layout.computeLayout cfg typeSize typeAlign = some l) (pid now : ℕ) :
    (Bus.create cfg l pid now).hdr.Exact := by
  obtain ⟨l', hl', hqueue, hcount, hdone⟩ := Layout.computeLayout_exact typeSize typeAlign hsubs
    hbudget
  obtain rfl : l' = l := Option.some.inj (hl'.symm.trans hl)
  refine ⟨⟨_, hqueue⟩, Nat.lt_trans l'.queueCapacity.isLt (by decide), ⟨_, hdone⟩,
    Nat.lt_trans l'.completionCapacity.isLt (by decide), ?_, ?_, ?_⟩
  · show l'.chunkCount.toNat ≤ l'.completionCapacity.toNat
    rw [hcount, hdone]
    exact Nat.le_pow_clog (by decide) _
  · show cfg.maxSubscribers.toNat < 2 ^ 16
    have hpos := Nat.two_pow_pos (Nat.clog 2 cfg.queueCapacity.toNat)
    have hle := Nat.le_mul_of_pos_right cfg.maxSubscribers.toNat
      (Nat.add_pos_left hpos cfg.maxBorrowed.toNat)
    unfold Layout.exactBudget at hbudget
    omega
  · show l'.chunkCount.toNat = cfg.maxSubscribers.toNat *
      (l'.queueCapacity.toNat + cfg.maxBorrowed.toNat) + cfg.maxLoans.toNat
    rw [hcount, hqueue]
    rfl

/-- A new service is good. -/
theorem Good.create (hexact : (Bus.create cfg l pid now).hdr.Exact) :
    Good (Bus.create cfg l pid now).toCore := by
  refine ⟨hexact, fun s => ?_, fun _ _ => rfl, ?_, ?_, ?_, ?_, ?_, ?_, fun _ _ _ => rfl, ?_, ?_⟩
  · exact ⟨by rintro v ⟨⟩; rfl, fun _ => Matches.fresh ⟨rfl, rfl, rfl, rfl⟩
      ⟨rfl, rfl, rfl, rfl, rfl, rfl, rfl, rfl⟩ fun _ => rfl, fun _ => rfl,
      fun h => Stage.noConfusion h, fun h => absurd rfl h, fun _ h => Stage.noConfusion h,
      fun h => h.elim, fun _ => rfl, fun h => Bool.noConfusion h, fun _ => rfl⟩
  · refine ⟨fun c => ?_, fun _ _ => Nat.zero_le _, fun _ _ _ => rfl, fun _ _ _ => rfl, fun c => ?_,
      rfl, Nat.zero_le _⟩
    · exact (Finset.sum_const_zero).symm
    · show (List.range l.chunkCount.toNat).count c + 0 + 0 + 0 =
        if c < l.chunkCount.toNat then 1 else 0
      rw [List.nodup_range.count]
      simp only [List.mem_range, Nat.add_zero]
  · rintro s e (he | he) <;> exact nomatch he
  · exact fun s i => ⟨fun h => Stage.noConfusion h, fun h => Stage.noConfusion h,
      fun h => Stage.noConfusion h⟩
  · exact fun i _ => ⟨fun h => Phase.noConfusion h, fun h => Phase.noConfusion h⟩
  · exact fun x hx => nomatch hx
  · exact fun s e he => nomatch he
  · exact fun s h => Bool.noConfusion h
  · exact fun i => ⟨rfl, rfl, fun _ => rfl, fun f hf => nomatch hf⟩

/-- Its publisher has made no call. -/
theorem PubIdle.create (hexact : (Bus.create cfg l pid now).hdr.Exact) :
    PubIdle (Bus.create cfg l pid now) := by
  refine ⟨⟨Good.create hexact, rfl, fun s => ?_, fun _ => rfl⟩,
    ⟨?_, ?_, rfl, rfl, Nat.le_refl _, ?_,
    ?_, rfl⟩⟩
  · exact ⟨Stage.noConfusion, rfl, rfl, rfl, rfl, fun _ => rfl, fun h => Bool.noConfusion h⟩
  · exact ⟨List.nodup_nil, fun s => ⟨(fun h => nomatch h), fun h => Bool.noConfusion h⟩⟩
  · exact fun s h => Bool.noConfusion h
  · exact fun r hr => nomatch hr
  · exact fun r hr => nomatch hr

end Start

/-- The invariant holds initially. -/
theorem SysInv.init {s : Sys} (R : ℕ → Prop) (h : service.init s) : SysInv False R s := by
  obtain ⟨cfg, typeSize, typeAlign, l, pid, now, hsubs, hbudget, hl, -, rfl⟩ := h
  have hexact := Bus.create_exact hsubs hbudget hl pid now
  refine ⟨Good.create hexact, False.elim, PubIdle.create hexact, fun i _ => ?_⟩
  exact ⟨fun h => Phase.noConfusion h, fun _ => rfl⟩

/-- **The invariant of patient runs.** -/
theorem SysInv.of_reach {R : ℕ → Prop} {s : Sys}
    (h : service.Reach (fun s e => Patient s e ∧ Recording R s e) s) : SysInv False R s :=
  h.invariant (fun _ hs => SysInv.init R hs) fun _ _ _ inv hok hn =>
    inv.next False.elim (.inr hok.1) hok.2 hn

theorem SysInv.of_patient {s : Sys} (h : service.Reach Patient s) :
    SysInv False (fun _ => False) s :=
  SysInv.of_reach (h.mono fun _ _ hok => ⟨hok, recording_none⟩)

end Devbus
