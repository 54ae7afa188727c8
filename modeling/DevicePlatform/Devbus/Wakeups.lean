/-
# No wake-up is lost

One subscriber in one slot, and the publisher that delivers to it: `pair i s` is their state
machine.  The publisher delivers any number of samples and shuts down, the subscriber waits,
receives, releases and leaves, and a sleeper may be woken for no reason at any time.

* `publisher_not_forgotten`: the publisher never sleeps on a queue that has room, or whose
  subscriber has left, without a wake-up on its way.
* `subscriber_not_forgotten`: the subscriber never sleeps on a queue that is not empty, or after
  the shutdown, without a wake-up on its way, provided that it never goes to sleep on a word
  that has come round to the value it had loaded.

The words have 32 bits.  A publisher that evicts delivers as often as it likes while the
subscriber stands between its load and `futex_wait`; after `2^32` deliveries the word is what
it was, and the subscriber sleeps on a full queue (`asleep_on_full_queue`).
-/
import DevicePlatform.Devbus.Isolation
import DevicePlatform.Devbus.Link

namespace Devbus

open Prog

/-! ## The machine -/

/-- The state of a service, what is left of the publisher's call and of the subscriber's. -/
structure Pair where
  bus : Bus
  pub : Prog Bus Unit
  sub : Prog Bus Unit

inductive PairEvent where
  | deliver (chunk : ℕ) (report : SendReport)
  | shutdown
  /-- A step of the publisher. -/
  | publisher (n : ℕ)
  | wait (mode : Subscriber.WaitMode) (timeout : Option ℕ)
  | tryReceive
  | release (e : Entry)
  | destroy
  /-- A step of the subscriber. -/
  | subscriber (n : ℕ)
  | tick (ns : ℕ)
  /-- A timeout or a signal ends a sleep. -/
  | wakeSubscriber
  | wakePublisher
  deriving DecidableEq, Repr

namespace Pair

/-- The publisher is called. -/
def call (x : Pair) (p : Prog Bus Unit) : Option Pair :=
  if x.pub.returned ∧ x.bus.publisherPid ≠ 0 then some { x with pub := p } else none

/-- The subscriber in slot `s` is called. -/
def callSub (x : Pair) (s : ℕ) (p : Prog Bus Unit) : Option Pair :=
  if x.sub.returned ∧ (x.bus.slot s).state = .active then some { x with sub := p } else none

/-- The next state, of subscriber `i` in slot `s`. -/
def next (i s : ℕ) (x : Pair) : PairEvent → Option Pair
  | .deliver chunk report => x.call (do let _ ← Publisher.deliver chunk report s; return ())
  | .shutdown => x.call Publisher.shutdown
  | .publisher n => (x.pub.step n x.bus).map fun (p, b) => { x with pub := p, bus := b }
  | .wait mode timeout =>
      x.callSub s (do let _ ← Subscriber.wait s mode timeout; return ())
  | .tryReceive => x.callSub s (Subscriber.tryReceive i s)
  | .release e => x.callSub s (Subscriber.release i s e)
  | .destroy => x.callSub s (Subscriber.destroy i s)
  | .subscriber n => (x.sub.step n x.bus).map fun (p, b) => { x with sub := p, bus := b }
  | .tick ns => some { x with bus := { x.bus with clock := x.bus.clock + ns } }
  | .wakeSubscriber =>
      some { x with bus := x.bus.setFutex s fun f => { f with subscriberQueued := false } }
  | .wakePublisher =>
      some { x with bus := x.bus.setFutex s fun f => { f with publisherQueued := false } }

end Pair

/-- A subscriber has joined, and nobody sleeps.  The flags and the words may be anything. -/
structure Link.Fresh (l : Link) : Prop where
  listed : l.listed = true
  cap_pos : 0 < l.cap
  cap_le : l.cap ≤ 2 ^ 31
  tail_le : l.tail ≤ l.head
  queue_le : l.head ≤ l.tail + l.cap
  active : l.active = true
  running : l.running = true
  lapped : l.lapped = false
  pub : l.PubAwake
  sub : l.SubAwake

/-- **The publisher and subscriber `i` in slot `s`.** -/
def pair (i s : ℕ) : Machine Pair PairEvent where
  init x := (x.bus.link s).Fresh ∧ x.pub = .ret () ∧ x.sub = .ret ()
  next := Pair.next i s

/-! ## The invariant -/

/-- The link is in order, and both programs keep to their protocols. -/
structure PairInv (s : ℕ) (x : Pair) : Prop where
  ok : (x.bus.link s).Ok
  pub : x.pub.wp (pubLink s) (fun _ d => (d.link s).PubAwake) x.bus
  sub : x.sub.wp (subLink s) (fun _ d => (d.link s).SubAwake) x.bus

namespace PairInv

variable {i s : ℕ} {x y : Pair}

theorem init (h : (pair i s).init x) : PairInv s x := by
  obtain ⟨b, p, q⟩ := x
  obtain ⟨hf, rfl, rfl⟩ := h
  exact ⟨⟨hf.listed, hf.cap_pos, hf.cap_le, hf.tail_le, hf.queue_le,
    fun _ => .of_awake hf.sub.awake, .of_awake hf.pub.awake⟩, hf.pub, hf.sub⟩

/-- A step that both sides allow for. -/
theorem outside {b : Bus} (inv : PairInv s x) (hok : (b.link s).Ok)
    (hp : Link.BySubscriber (x.bus.link s) (b.link s))
    (hs : Link.ByPublisher (x.bus.link s) (b.link s)) :
    PairInv s { x with bus := b } :=
  ⟨hok, wp_rely (fun _ _ _ h hr _ => h.move hr) inv.pub hp hok,
    wp_rely (fun _ _ _ h hr _ => h.move hr) inv.sub hs hok⟩

theorem call {p : Prog Bus Unit} (inv : PairInv s x)
    (hp : (x.bus.link s).PubAwake → p.wp (pubLink s) (fun _ d => (d.link s).PubAwake) x.bus)
    (h : x.call p = some y) : PairInv s y := by
  unfold Pair.call at h
  split at h
  · next hret =>
    cases h
    exact ⟨inv.ok, hp (wp_returned inv.pub hret.1), inv.sub⟩
  · cases h

theorem callSub {p : Prog Bus Unit} (inv : PairInv s x)
    (hp : (x.bus.link s).SubAwake → (x.bus.link s).active = true →
      p.wp (subLink s) (fun _ d => (d.link s).SubAwake) x.bus)
    (h : x.callSub s p = some y) : PairInv s y := by
  unfold Pair.callSub at h
  split at h
  · next hret =>
    cases h
    exact ⟨inv.ok, inv.pub, hp (wp_returned inv.sub hret.1) (beq_iff_eq.mpr hret.2)⟩
  · cases h

/-- **The invariant is kept by every step.** -/
theorem next {e : PairEvent} (inv : PairInv s x) (h : x.next i s e = some y) : PairInv s y := by
  cases e with
  | deliver chunk report =>
      refine inv.call (fun hp => ?_) h
      exact wp_seq (deliver_link hp) fun _ _ h => h
  | shutdown => exact inv.call shutdown_link h
  | publisher n =>
      obtain ⟨⟨p, b⟩, hs, rfl⟩ := Option.map_eq_some_iff.mp h
      obtain ⟨hok, hguar, hp⟩ := wp_step inv.pub inv.ok hs trivial
      exact ⟨hok, hp, wp_rely (fun _ _ _ h hr _ => h.move hr) inv.sub hguar hok⟩
  | wait mode timeout =>
      refine inv.callSub (fun hp _ => ?_) h
      exact wp_seq (wait_link hp) fun _ _ h => h
  | tryReceive => exact inv.callSub (fun hp _ => tryReceive_link hp) h
  | release e => exact inv.callSub (fun hp _ => wp_awake release_link hp) h
  | destroy => exact inv.callSub destroy_link h
  | subscriber n =>
      obtain ⟨⟨p, b⟩, hs, rfl⟩ := Option.map_eq_some_iff.mp h
      obtain ⟨hok, hguar, hp⟩ := wp_step inv.sub inv.ok hs trivial
      exact ⟨hok, wp_rely (fun _ _ _ h hr _ => h.move hr) inv.pub hguar hok, hp⟩
  | tick ns =>
      cases h
      exact inv.outside inv.ok (.refl _) (.refl _)
  | wakeSubscriber =>
      cases h
      have hlink : ∀ b : Bus, (b.setFutex s fun f => { f with subscriberQueued := false }).link s =
        (b.link s).onData fun c => { c with queued := false } := fun _ => link_setFutex
      refine inv.outside ?_ ?_ ?_ <;> rw [hlink]
      · exact inv.ok.onData fun _ _ => .of_awake rfl
      · exact Link.BySubscriber.onData rfl rfl
      · exact Link.ByPublisher.onData Bell.rings_spurious
  | wakePublisher =>
      cases h
      have hlink : ∀ b : Bus, (b.setFutex s fun f => { f with publisherQueued := false }).link s =
        (b.link s).onSpace fun c => { c with queued := false } := fun _ => link_setFutex
      refine inv.outside ?_ ?_ ?_ <;> rw [hlink]
      · exact inv.ok.onSpace (.of_awake rfl)
      · exact Link.BySubscriber.onSpace Bell.rings_spurious (Nat.le_refl _)
      · exact Link.ByPublisher.onSpace rfl rfl

theorem of_reach {ok : Pair → PairEvent → Prop} (h : (pair i s).Reach ok x) : PairInv s x :=
  h.invariant (fun _ => init) fun _ _ _ inv _ hn => inv.next hn

end PairInv

/-! ## The publisher's sleep -/

/-- A subscriber has joined the small service. -/
def joined (overflow : Overflow) : Pair :=
  ⟨tiny.bus.setSlot 0 fun w =>
    { w with state := .active, pid := 7, overflow := overflow, blockTimeoutUs := 1000 },
    .ret (), .ret ()⟩

theorem joined_init (overflow : Overflow) : (pair 0 0).init (joined overflow) := by
  have hcap : ((joined overflow).bus.link 0).cap = 1 := rfl
  refine ⟨⟨rfl, ?_, ?_, Nat.le_refl _, Nat.zero_le _, rfl, rfl, rfl, ⟨rfl, rfl⟩, ⟨rfl, rfl⟩⟩,
    rfl, rfl⟩
  · rw [hcap]
    exact Nat.one_pos
  · rw [hcap]
    decide

/-- The subscriber is about to increment `space_futex` and wake the publisher. -/
def Pair.SubscriberWakes (s : ℕ) (x : Pair) : Prop :=
  x.sub.returned = false ∧ (x.bus.futex s).spaceDue ≠ .nothing

/-- The publisher is about to increment `futex_word` and wake the subscriber. -/
def Pair.PublisherWakes (s : ℕ) (x : Pair) : Prop :=
  x.pub.returned = false ∧ (x.bus.futex s).dataDue ≠ .nothing

/-- **No lost wake-up for the publisher.**  There is no state in which the publisher is asleep on
a queue that has room or whose subscriber has left, and no wake-up is on its way. -/
theorem publisher_not_forgotten {i s : ℕ} {x : Pair} (h : (pair i s).Reach Machine.Always x) :
    ¬ ((x.bus.futex s).publisherQueued = true ∧
      ((x.bus.slot s).dataHead - (x.bus.slot s).dataTail < x.bus.hdr.queueCapacity ∨
        (x.bus.slot s).state ≠ .active) ∧
      ¬ x.SubscriberWakes s) := by
  rintro ⟨hasleep, hcause, hwakes⟩
  have inv := PairInv.of_reach h
  have hdue : (x.bus.futex s).spaceDue ≠ .nothing := by
    refine ((inv.ok.space hasleep).2).resolve_left ?_
    rintro ⟨hfull, hactive⟩
    rcases hcause with hroom | hleft
    · have : (x.bus.slot s).dataHead = (x.bus.slot s).dataTail + x.bus.hdr.queueCapacity := hfull
      omega
    · exact hleft (beq_iff_eq.mp hactive)
  refine hwakes ⟨Bool.eq_false_iff.mpr fun hret => hdue ?_, hdue⟩
  have hidle : (x.bus.link s).SubAwake := wp_returned inv.sub hret
  exact hidle.due

/-- It sleeps on the full queue, and the subscriber takes the entry. -/
theorem publisher_not_forgotten_popped : ∃ x, (pair 0 0).Reach Machine.Always x ∧
    ((x.bus.futex 0).publisherQueued = true ∧
      (x.bus.slot 0).dataHead - (x.bus.slot 0).dataTail < x.bus.hdr.queueCapacity) ∧
    x.SubscriberWakes 0 := by
  obtain ⟨x, hx, hasleep, hroom⟩ : ∃ x, (pair 0 0).Reach Machine.Always x ∧
      (x.bus.futex 0).publisherQueued = true ∧
      (x.bus.slot 0).dataHead - (x.bus.slot 0).dataTail < x.bus.hdr.queueCapacity :=
    Machine.exists_reach_of_exec (List.flatten [[.deliver 0 ⟨1, 0, 0, 0, 0⟩],
      List.replicate 9 (.publisher 0), [.deliver 1 ⟨2, 0, 0, 0, 0⟩],
      List.replicate 8 (.publisher 0), [.tick 20000], List.replicate 10 (.publisher 0),
      [.tryReceive], List.replicate 7 (.subscriber 0)])
      (joined_init .block) (by decide +kernel)
  refine ⟨x, hx, ⟨hasleep, hroom⟩, ?_⟩
  by_contra hwakes
  exact publisher_not_forgotten hx ⟨hasleep, .inl hroom, hwakes⟩

/-! ## The subscriber's sleep -/

/-- The step does not put the subscriber to sleep on a word that has come round. -/
def Unlapped (i s : ℕ) (x : Pair) (e : PairEvent) : Prop :=
  ∀ y, x.next i s e = some y → y.bus.lapped = false

instance (i s : ℕ) (x : Pair) (e : PairEvent) : Decidable (Unlapped i s x e) :=
  decidable_of_iff ((x.next i s e).all (fun y => !y.bus.lapped) = true) <| by
    simp only [Option.all_eq_true, Bool.not_eq_true', Unlapped]

/-- **No lost wake-up for the subscriber**, unless it goes to sleep on a word that has come round.
There is no state in which it is asleep while the queue is not empty or the publisher is gone, and
no wake-up is on its way. -/
theorem subscriber_not_forgotten {i s : ℕ} {x : Pair} (h : (pair i s).Reach (Unlapped i s) x) :
    ¬ ((x.bus.futex s).subscriberQueued = true ∧
      ((x.bus.slot s).dataTail ≠ (x.bus.slot s).dataHead ∨ x.bus.publisherPid = 0) ∧
      ¬ x.PublisherWakes s) := by
  rintro ⟨hasleep, hcause, hwakes⟩
  have inv := PairInv.of_reach h
  have hlap : x.bus.lapped = false :=
    h.invariant (fun _ h => h.1.lapped) fun _ _ _ _ hok hn => hok _ hn
  have hdue : (x.bus.futex s).dataDue ≠ .nothing := by
    refine ((inv.ok.data hlap hasleep).2).resolve_left ?_
    rintro ⟨hempty, hrunning⟩
    rcases hcause with hdata | hgone
    · exact hdata hempty
    · exact bne_iff_ne.mp hrunning hgone
  refine hwakes ⟨Bool.eq_false_iff.mpr fun hret => hdue ?_, hdue⟩
  have hidle : (x.bus.link s).PubAwake := wp_returned inv.pub hret
  exact hidle.due

/-- It sleeps on the empty queue, and the publisher delivers. -/
theorem subscriber_not_forgotten_delivered : ∃ x, (pair 0 0).Reach (Unlapped 0 0) x ∧
    ((x.bus.futex 0).subscriberQueued = true ∧
      (x.bus.slot 0).dataTail ≠ (x.bus.slot 0).dataHead) ∧ x.PublisherWakes 0 := by
  obtain ⟨x, hx, hasleep, hdata⟩ : ∃ x, (pair 0 0).Reach (Unlapped 0 0) x ∧
      (x.bus.futex 0).subscriberQueued = true ∧
      (x.bus.slot 0).dataTail ≠ (x.bus.slot 0).dataHead :=
    Machine.exists_reach_of_exec (List.flatten [[.wait .futex none],
      List.replicate 10 (.subscriber 0), [.deliver 0 ⟨1, 0, 0, 0, 0⟩],
      List.replicate 7 (.publisher 0)]) (joined_init .dropOldest)
      (by decide +kernel)
  refine ⟨x, hx, ⟨hasleep, hdata⟩, ?_⟩
  by_contra hwakes
  exact subscriber_not_forgotten hx ⟨hasleep, .inl hdata, hwakes⟩

/-! ### A word that comes round -/

/-- A publisher that evicts, and a queue for one entry with `len` entries in it.  The subscriber
has set its flag; the word has been incremented `n` times. -/
structure Lap (len n : ℕ) (b : Bus) : Prop where
  pid : b.publisherPid ≠ 0
  cap : b.hdr.queueCapacity = 1
  policy : (b.slot 0).overflow = .dropOldest
  length : (b.slot 0).dataHead = (b.slot 0).dataTail + len
  sleeping : (b.futex 0).sleeping = 1
  word : (b.futex 0).futexWord = n

section Lap

open Publisher Prog

variable {len n : ℕ} {b : Bus}

/-- The subscriber is found with its flag set: the word is incremented. -/
theorem Lap.wakeSubscriber (h : Lap len n b) :
    (wakeSubscriber 0).wp (Protocol.alone Bus) (fun _ d => Lap len (n + 1) d) b := by
  refine alone_update ?_
  dsimp only
  rw [if_pos (by rw [h.sleeping]; exact Nat.one_ne_zero)]
  refine alone_write (alone_write ?_)
  refine ⟨h.pid, h.cap, h.policy, h.length, ?_, ?_⟩ <;>
    simp [Bus.setFutex, h.sleeping, h.word]

/-- The sample is pushed, and the word incremented. -/
theorem Lap.enqueue {chunk head : ℕ} {report : SendReport} (h : Lap 0 n b)
    (hhead : (b.slot 0).dataHead = head) :
    (enqueue 0 chunk head 1 0 report).wp (Protocol.alone Bus) (fun _ d => Lap 1 (n + 1) d) b := by
  refine alone_write (alone_write (alone_write ?_))
  have hlen : head + 1 = (b.slot 0).dataTail + 1 := by
    rw [← hhead]
    exact congrArg (· + 1) h.length
  exact wp_seq (Lap.wakeSubscriber ⟨h.pid, h.cap, h.policy, hlen, h.sleeping, h.word⟩)
    fun _ _ h => h

/-- The entry is evicted. -/
theorem Lap.evict {tail : ℕ} {report : SendReport} (h : Lap 1 n b)
    (htail : (b.slot 0).dataTail = tail) :
    (evictRound 0 tail 1 0 report).wp (Protocol.alone Bus) (fun r d =>
      r = .inl (0, { report with evicted := report.evicted + 1 }) ∧ Lap 0 n d ∧
        (d.slot 0).dataHead = (b.slot 0).dataHead) b := by
  refine alone_read (alone_update ?_)
  rw [if_pos htail]
  refine alone_write ⟨rfl, ⟨h.pid, h.cap, h.policy, ?_, h.sleeping, h.word⟩, rfl⟩
  show (b.slot 0).dataHead = tail + 1
  rw [h.length, htail]

/-- **A delivery** to the full queue evicts an entry and increments the word. -/
theorem Lap.deliver {chunk : ℕ} {report : SendReport} (h : Lap 1 n b) :
    (deliver chunk report 0).wp (Protocol.alone Bus) (fun _ d => Lap 1 (n + 1) d) b := by
  refine alone_read (alone_read (alone_read ?_))
  rw [h.cap, h.policy]
  -- the queue is full in the first round, and empty in the second
  refine wp_loop_variant (fun x d => ∃ len ≤ 1, x.1 = 0 ∧ Lap len n d ∧
      (d.slot 0).dataHead = (b.slot 0).dataHead ∧ x.2.evicted + len = report.evicted + 1)
    (fun x => report.evicted + 1 - x.2.evicted) ?_ ⟨1, Nat.le_refl _, rfl, h, rfl, rfl⟩ ?_
  · rintro _ _ _ hJ rfl -
    exact hJ
  · rintro ⟨start, r⟩ d ⟨len, hle, hstart, hd, hhead, hlen⟩
    obtain rfl : start = 0 := hstart
    refine alone_update ?_
    have hsub : u64Sub (b.slot 0).dataHead (d.slot 0).dataTail = len := by
      rw [← hhead, hd.length, u64Sub_eq (Nat.le_add_right _ _) (by omega)]
      omega
    dsimp only
    rw [hsub]
    obtain rfl | rfl : len = 0 ∨ len = 1 := by omega
    · rw [if_pos Nat.one_pos]
      exact Lap.enqueue ⟨hd.pid, hd.cap, hd.policy, hd.length, hd.sleeping, hd.word⟩ hhead
    · rw [if_neg (Nat.lt_irrefl 1)]
      refine wp_mono (Lap.evict (n := n)
        ⟨hd.pid, hd.cap, hd.policy, hd.length, hd.sleeping, hd.word⟩ rfl) ?_
      rintro _ e ⟨rfl, he, heq⟩
      refine ⟨⟨0, Nat.zero_le _, rfl, he, heq.trans hhead, hlen⟩, ?_⟩
      have hlast : r.evicted + 1 = report.evicted + 1 := hlen
      show report.evicted + 1 - (r.evicted + 1) < report.evicted + 1 - r.evicted
      omega

end Lap

/-- The publisher runs on its own. -/
theorem pair_runs {i s : ℕ} {p q : Prog Bus Unit} {b d : Bus} (u : Prog Bus Unit)
    (h : Prog.Runs (p, b) (q, d)) : ∃ es, (pair i s).Run Machine.Always ⟨b, p, u⟩ es ⟨d, q, u⟩ := by
  generalize hx : (p, b) = x at h
  generalize hy : (q, d) = y at h
  induction h generalizing q d with
  | refl =>
      cases hx.trans hy.symm
      exact ⟨[], .nil _⟩
  | @tail y z _ hstep ih =>
      obtain ⟨p', b'⟩ := y
      obtain ⟨es, hr⟩ := ih rfl
      subst hy
      refine ⟨es ++ [.publisher 0], .snoc hr trivial ?_⟩
      show (Prog.step 0 b' p').map _ = _
      rw [show Prog.step 0 b' p' = some (q, d) from hstep]
      rfl

/-- The subscriber of slot 0 is about to compare the word with 0 and to sleep. -/
def Comparing (u : Prog Bus Unit) : Prop :=
  ∀ b : Bus, (b.futex 0).futexWord % 2 ^ 32 = 0 → ∃ u', u.step 0 b = some (u',
    { b.setFutex 0 fun f => { f with subscriberQueued := true } with
      lapped := b.lapped || decide ((b.futex 0).futexWord ≠ 0) })

/-- The publisher delivers while the subscriber does not move. -/
theorem exists_laps (n : ℕ) : ∃ x, (pair 0 0).Reach Machine.Always x ∧ x.pub.returned = true ∧
    Comparing x.sub ∧ Lap 1 (n + 1) x.bus := by
  induction n with
  | zero =>
      have hexec : (pair 0 0).exec Machine.Always (joined .dropOldest)
        (List.flatten [[.wait .futex none], List.replicate 9 (.subscriber 0),
          [.deliver 0 ⟨1, 0, 0, 0, 0⟩], List.replicate 11 (.publisher 0)]) = some _ := rfl
      refine ⟨_, Machine.reach_of_exec (joined_init .dropOldest) hexec, rfl, ?_, ?_⟩
      · intro b hb
        refine ⟨_, congrArg (fun d => some (_, d)) (if_pos hb)⟩
      · exact ⟨by decide, rfl, rfl, rfl, rfl, rfl⟩
  | succ n ih =>
      obtain ⟨⟨b, p, u⟩, hx, hret, hu, hlap⟩ := ih
      have hdeliver : (do
          let _ ← Publisher.deliver 0 ⟨1, 0, 0, 0, 0⟩ 0
          return () : Prog Bus Unit).wp (.alone Bus) (fun _ d => Lap 1 (n + 1 + 1) d) b :=
        wp_seq hlap.deliver fun _ _ h => h
      obtain ⟨_, d, hruns, hd⟩ := Prog.runs_of_wp hdeliver
      obtain ⟨es, hr⟩ := pair_runs u hruns
      have hcall : (pair 0 0).next ⟨b, p, u⟩ (.deliver 0 ⟨1, 0, 0, 0, 0⟩) = some ⟨b, _, u⟩ :=
        if_pos (c := p.returned = true ∧ b.publisherPid ≠ 0) ⟨hret, hlap.pid⟩
      exact ⟨_, (hx.step trivial hcall).run hr, rfl, hu, hd⟩

/-- The subscriber sleeps on a full queue, and nobody is about to wake it. -/
theorem asleep_on_full_queue : ∃ x, (pair 0 0).Reach Machine.Always x ∧
    (x.bus.futex 0).subscriberQueued = true ∧
    (x.bus.slot 0).dataTail ≠ (x.bus.slot 0).dataHead ∧ ¬ x.PublisherWakes 0 := by
  obtain ⟨x, hx, hret, hu, hlap⟩ := exists_laps (2 ^ 32 - 1)
  have hword : (x.bus.futex 0).futexWord = 2 ^ 32 := hlap.word
  obtain ⟨u', hstep⟩ := hu x.bus (by rw [hword, Nat.mod_self])
  refine ⟨_, hx.step (l := .subscriber 0) trivial (congrArg (Option.map _) hstep), rfl, ?_, ?_⟩
  · have hlen : (x.bus.slot 0).dataHead = (x.bus.slot 0).dataTail + 1 := hlap.length
    show (x.bus.slot 0).dataTail ≠ (x.bus.slot 0).dataHead
    omega
  · rintro ⟨hrun, -⟩
    exact Bool.noConfusion (hret.symm.trans hrun)

end Devbus
