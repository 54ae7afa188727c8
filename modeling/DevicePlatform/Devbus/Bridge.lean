/-
# The bridge from the driver to the bus

Model of `acq-bridge` (`userspace/devbus/examples/acq_bridge.cpp`) over the service, with the
handles of `devbus.hpp`: a `Loan` is a chunk that is sent, or given back when the handle goes out
of scope.  The loop polls the device, takes a loan, reads a sample into the chunk and sends it; if
the read comes back short, the loan is dropped.  Subscribers join, receive, leave and crash
meanwhile.  `SamplePublisher::publish` of `device-service` is the same loop without short reads.

`bridge_faithful` says what becomes of the samples: the loan is never refused, no chunk is left
behind, every sample that has been read is sent, and what a subscriber has received is a
subsequence of what has been read from the device.
-/
import DevicePlatform.Devbus.Delivery

namespace Devbus

/-! ## The loop -/

/-- Where the loop is. -/
inductive BridgePhase where
  /-- `poll`. -/
  | idle
  /-- In `loan()`. -/
  | loaning
  /-- The loan is there, and `read` is next. -/
  | loaned (c : ℕ)
  /-- A sample has been read. -/
  | filled (c : ℕ)
  /-- The read was short. -/
  | short (c : ℕ)
  /-- In `send()`. -/
  | sending
  /-- In the destructor of the loan. -/
  | dropping
  | stopped
  deriving DecidableEq, Repr

/-- The bridge: the service, what the driver has in store, and the members of the loop. -/
structure Bridge where
  sys : Sys
  kfifo : List ℕ
  phase : BridgePhase
  bridged : ℕ
  shortReads : ℕ
  /-- How often `loan()` has returned nothing. -/
  refused : ℕ
  /-- The samples that have been read. -/
  reads : List ℕ

inductive BridgeStep where
  /-- `poll` has returned, and `loan` is called. -/
  | poll
  | loaned
  /-- `read` returns a sample. -/
  | read
  /-- `read` fails or returns less than a sample; `v` is what the chunk holds then. -/
  | shortRead (v : ℕ)
  | send
  | drop
  /-- `send`, or the destructor of the loan, has returned. -/
  | done
  | stop
  /-- The driver stores a sample. -/
  | sample (v : ℕ)
  /-- A step of the publisher's call, of a subscriber, or of the outside. -/
  | bus (e : Event)

/-- The events that are not calls by the application of the publisher. -/
def Event.isForeign : Event → Bool
  | .loan | .releaseLoan _ | .fill _ _ | .send _ | .checkLiveness | .shutdown => false
  | _ => true

/-- The next state. -/
def Bridge.next (x : Bridge) : BridgeStep → Option Bridge
  | .poll =>
      match x.phase with
      | .idle => (x.sys.next .loan).map fun s => { x with sys := s, phase := .loaning }
      | _ => none
  | .loaned =>
      match x.phase with
      | .loaning =>
          if x.sys.pub.returned then
            match x.sys.bus.calls.loaned.getLast? with
            | some (.ok c) => some { x with phase := .loaned c }
            | _ => some { x with phase := .idle, refused := x.refused + 1 }
          else none
      | _ => none
  | .read =>
      match x.phase, x.kfifo with
      | .loaned c, v :: rest => (x.sys.next (.fill c v)).map fun s =>
          { x with sys := s, kfifo := rest, phase := .filled c, reads := x.reads ++ [v] }
      | _, _ => none
  | .shortRead v =>
      match x.phase with
      | .loaned c => (x.sys.next (.fill c v)).map fun s =>
          { x with sys := s, phase := .short c, shortReads := x.shortReads + 1 }
      | _ => none
  | .send =>
      match x.phase with
      | .filled c => (x.sys.next (.send c)).map fun s => { x with sys := s, phase := .sending }
      | _ => none
  | .drop =>
      match x.phase with
      | .short c => (x.sys.next (.releaseLoan c)).map fun s =>
          { x with sys := s, phase := .dropping }
      | _ => none
  | .done =>
      if x.sys.pub.returned then
        match x.phase with
        | .sending => some { x with phase := .idle, bridged := x.bridged + 1 }
        | .dropping => some { x with phase := .idle }
        | _ => none
      else none
  | .stop =>
      match x.phase with
      | .idle => (x.sys.next .shutdown).map fun s => { x with sys := s, phase := .stopped }
      | _ => none
  | .sample v => some { x with kfifo := x.kfifo ++ [v] }
  | .bus e => if e.isForeign then (x.sys.next e).map fun s => { x with sys := s } else none

/-- The bridge, on a service that allows a loan. -/
def bridge : Machine Bridge BridgeStep where
  init x := service.init x.sys ∧ 1 ≤ x.sys.bus.hdr.maxLoans ∧ x.phase = .idle ∧ x.bridged = 0 ∧
    x.shortReads = 0 ∧ x.refused = 0 ∧ x.reads = []
  next := Bridge.next

/-- `check_liveness` gives up no slot whose claimer is alive. -/
def Bridge.Patient (x : Bridge) (l : BridgeStep) : Prop :=
  ∀ y, x.next l = some y → y.sys.bus.timedOut = false

/-! ## What happens to the samples -/

/-- What the others leave alone. -/
structure Bus.Aside (b d : Bus) : Prop where
  hdr : d.hdr = b.hdr
  payload : d.payload = b.payload
  chunkSeq : d.chunkSeq = b.chunkSeq
  calls : d.calls = b.calls
  pushed : ∀ s, (d.led s).pushed = (b.led s).pushed

section Frames

open Prog

variable {b d : Bus} {chunk : Option ℕ} {s : ℕ} {l : Ledger}

theorem Bus.Aside.refl (b : Bus) : b.Aside b := ⟨rfl, rfl, rfl, rfl, fun _ => rfl⟩

theorem Bus.Aside.of_core (h : d.toCore = b.toCore) : b.Aside d :=
  ⟨congrArg Core.hdr h, congrArg Core.payload h, congrArg Core.chunkSeq h, congrArg Core.calls h,
    fun s => congrArg (fun c : Core => (c.led s).pushed) h⟩

theorem claimSlot_aside {i : ℕ} (l : List ℕ) : (Subscriber.claimSlot i l).Within Bus.Aside := by
  induction l with
  | nil => trivial
  | cons s rest ih =>
      refine within_update (fun b => ?_) fun won => ?_
      · split
        · refine .inr ⟨rfl, rfl, rfl, rfl, ?_⟩
          exact pushed_update rfl rfl
        · exact .inl rfl
      · split
        · trivial
        · exact ih

theorem construct_aside {i : ℕ} : (Subscriber.construct i).Within Bus.Aside := by
  refine within_read fun _ => ?_
  split
  · exact within_write (fun _ => .inr ⟨rfl, rfl, rfl, rfl, fun _ => rfl⟩) (by trivial)
  · refine within_read fun _ => within_seq (claimSlot_aside _) fun s => ?_
    cases s with
    | none => exact within_write (fun _ => .inr ⟨rfl, rfl, rfl, rfl, fun _ => rfl⟩) (by trivial)
    | some s =>
        refine within_write (fun _ => .inr ⟨rfl, rfl, rfl, rfl, fun _ => rfl⟩)
          (within_write (fun _ => .inr ⟨rfl, rfl, rfl, rfl, fun _ => rfl⟩)
            (within_write (fun _ => .inr ⟨rfl, rfl, rfl, rfl, fun _ => rfl⟩)
              (within_read fun _ => within_write
                (fun _ => .inr ⟨rfl, rfl, rfl, rfl, fun _ => rfl⟩)
                (within_read fun _ => within_write
                  (fun _ => .inr ⟨rfl, rfl, rfl, rfl, fun _ => rfl⟩)
                  (within_write (fun b => .inr ⟨rfl, rfl, rfl, rfl, ?_⟩) (by trivial))))))
        exact pushed_update rfl rfl

theorem wakeSpace_aside : (Subscriber.wakeSpace s).Within Bus.Aside :=
  within_write (fun _ => .inr ⟨rfl, rfl, rfl, rfl, fun _ => rfl⟩)
    (within_write (fun _ => .inr ⟨rfl, rfl, rfl, rfl, fun _ => rfl⟩) (by trivial))

theorem destroy_aside {i : ℕ} : (Subscriber.destroy i s).Within Bus.Aside := by
  refine within_write (fun b => .inr ⟨rfl, rfl, rfl, rfl, ?_⟩) wakeSpace_aside
  exact pushed_update rfl rfl

theorem tryReceive_aside {i : ℕ} : (Subscriber.tryReceive i s).Within Bus.Aside := by
  refine within_read fun _ => ?_
  split
  · exact within_write (fun _ => .inr ⟨rfl, rfl, rfl, rfl, fun _ => rfl⟩) (by trivial)
  refine within_seq (within_repeat fun _ => ?_) fun _ => by trivial
  refine within_read fun _ => within_read fun _ => within_update
    (fun _ => .inr ⟨rfl, rfl, rfl, rfl, fun _ => rfl⟩) fun _ => ?_
  split
  · exact within_write (fun _ => .inr ⟨rfl, rfl, rfl, rfl, fun _ => rfl⟩) (by trivial)
  refine within_read fun _ => within_update (fun b => ?_) fun won => ?_
  · split
    · refine .inr ⟨rfl, rfl, rfl, rfl, ?_⟩
      exact pushed_update rfl rfl
    · exact .inl rfl
  split
  · refine within_seq (within_update (fun _ => .inr ⟨rfl, rfl, rfl, rfl, fun _ => rfl⟩)
      fun _ => ?_) fun _ => within_update (fun b => ?_) fun done => ?_
    · split
      · exact wakeSpace_aside
      · trivial
    · split
      · exact .inl rfl
      · exact .inr ⟨rfl, rfl, rfl, rfl, fun _ => rfl⟩
    · split <;> trivial
  · trivial

theorem release_aside {i : ℕ} {e : Entry} : (Subscriber.release i s e).Within Bus.Aside := by
  refine within_read fun _ => within_read fun _ => within_write
    (fun _ => .inr ⟨rfl, rfl, rfl, rfl, fun _ => rfl⟩)
    (within_write (fun b => .inr ⟨rfl, rfl, rfl, rfl, ?_⟩) (by trivial))
  exact pushed_update rfl rfl

theorem wait_aside {mode : Subscriber.WaitMode} {timeout : Option ℕ} :
    (Subscriber.wait s mode timeout).Within Bus.Aside :=
  wait_core.mono fun _ _ h => .of_core h.1

theorem poll_aside {i : ℕ} {timeout : Option ℕ} :
    (Subscriber.poll i s timeout).Within Bus.Aside := by
  refine within_seq wait_aside fun _ => within_repeat fun _ => ?_
  refine within_seq tryReceive_aside fun _ => within_read fun status => ?_
  split
  · exact within_seq (within_write (fun _ => .inr ⟨rfl, rfl, rfl, rfl, fun _ => rfl⟩)
      release_aside) fun _ => by trivial
  · trivial

end Frames

/-! ### The sequence numbers -/

/-- The number of an entry is the place of its sample among those read. -/
def Sent (reads : List ℕ) (b : Bus) : Prop :=
  ∀ s, ∀ e ∈ (b.led s).pushed, 1 ≤ e.seq ∧ reads[e.seq - 1]? = some e.payload

/-- The chunk `c` has the number of the sample that is in it. -/
def Numbered (reads : List ℕ) (b : Bus) (c : ℕ) : Prop :=
  1 ≤ b.chunkSeq c ∧ reads[b.chunkSeq c - 1]? = some (b.payload c)

/-- The protocol of the calls of the bridge, between two reads. -/
def carrying (reads : List ℕ) : Protocol Bus where
  inv b := 1 ≤ b.hdr.maxLoans ∧ Sent reads b
  rely := Bus.Aside
  guar _ _ := True
  assumed _ := True
  total := False
  rely_refl := Bus.Aside.refl
  rely_trans h h' := ⟨h'.hdr.trans h.hdr, h'.payload.trans h.payload,
    h'.chunkSeq.trans h.chunkSeq, h'.calls.trans h.calls, fun s => (h'.pushed s).trans (h.pushed s)⟩
  guar_refl _ := trivial

/-- What holds at the end of the call that the loop is in. -/
def BridgePhase.After (reads : List ℕ) (b : Bus) : BridgePhase → Prop
  | .idle | .sending | .dropping => b.calls.loans = [] ∧ b.calls.nextSeq = reads.length + 1
  | .loaning => (b.calls.loaned.getLast? = some (.error .outOfChunks) ∨
      ∃ c, b.calls.loaned.getLast? = some (.ok c) ∧ b.calls.loans = [c]) ∧
      b.calls.nextSeq = reads.length + 1
  | .loaned c | .short c => b.calls.loans = [c] ∧ b.calls.nextSeq = reads.length + 1
  | .filled c => b.calls.loans = [c] ∧ b.calls.nextSeq = reads.length ∧
      reads.getLast? = some (b.payload c)
  | .stopped => True

section Calls

open Prog

variable {reads : List ℕ} {b d : Bus} {chunk : Option ℕ}

theorem Sent.aside (h : Sent reads b) (ha : b.Aside d) : Sent reads d := by
  intro s e he
  rw [ha.pushed s] at he
  exact h s e he

theorem Sent.carries (h : Sent reads b) (hchunk : ∀ c ∈ chunk, Numbered reads b c)
    (hc : Bus.Carries chunk b d) : Sent reads d := by
  intro s e he
  rcases hc.pushed s with hs | hs | ⟨c, hmem, hs⟩
  · exact h s e (hs ▸ he)
  · rw [hs] at he
    cases he
  · rw [hs, List.mem_append, List.mem_singleton] at he
    rcases he with he | rfl
    · exact h s e he
    · exact hchunk c hmem

/-- What a part of a call that is not about the members of the publisher keeps. -/
structure Held (reads : List ℕ) (chunk : Option ℕ) (loans : List ℕ) (n : ℕ) (b : Bus) : Prop where
  loans : b.calls.loans = loans
  nextSeq : b.calls.nextSeq = n
  numbered : ∀ c ∈ chunk, Numbered reads b c

theorem Held.aside {loans : List ℕ} {n : ℕ} (h : Held reads chunk loans n b) (ha : b.Aside d) :
    Held reads chunk loans n d := by
  refine ⟨by rw [ha.calls]; exact h.loans, by rw [ha.calls]; exact h.nextSeq, fun c hc => ?_⟩
  have := h.numbered c hc
  rwa [Numbered, ← ha.chunkSeq, ← ha.payload] at this

theorem wp_carries {α : Type} {p : Prog Bus α} {loans : List ℕ} {n : ℕ}
    (hp : p.Within (Bus.Carries chunk)) (h : Held reads chunk loans n b) :
    p.wp (carrying reads) (fun _ => Held reads chunk loans n) b := by
  have hpartial : ¬ (carrying reads).total := id
  refine wp_of_within _ hpartial hp (fun t u ht hi hc => ?_) (fun t u ht hr _ => ht.aside hr) h
  have hkept := hc.kept
  simp only [Bus.kept, Prod.mk.injEq] at hkept
  obtain ⟨-, hhdr, hpayload, hchunkSeq, hnextSeq, hloans, -⟩ := hkept
  refine ⟨⟨hloans.trans ht.loans, hnextSeq.trans ht.nextSeq, fun c hmem => ?_⟩,
    ⟨by rw [hhdr]; exact hi.1, hi.2.carries ht.numbered hc⟩, trivial⟩
  have := ht.numbered c hmem
  rwa [Numbered, ← hchunkSeq, ← hpayload] at this

theorem BridgePhase.After.aside {phase : BridgePhase} (h : phase.After reads b) (ha : b.Aside d) :
    phase.After reads d := by
  cases phase with
  | stopped => trivial
  | _ => simpa only [BridgePhase.After, ha.calls, ha.payload] using h

/-- `loan`, when nothing is on loan. -/
theorem callLoan_carries (hloans : b.calls.loansOut < b.hdr.maxLoans)
    (h : Held reads none [] (reads.length + 1) b) :
    Publisher.callLoan.wp (carrying reads) (fun _ b' => BridgePhase.loaning.After reads b') b := by
  have hnote : ∀ (r : Except LoanError ℕ) (d : Bus), d.calls.nextSeq = reads.length + 1 →
      (r = .error .outOfChunks ∨ ∃ c, r = .ok c ∧ d.calls.loans = [c]) →
      (do
        Prog.write fun b : Bus => b.setCalls fun a => { a with loaned := a.loaned ++ [r] }
        return () : Prog Bus Unit).wp (carrying reads)
        (fun _ b' => BridgePhase.loaning.After reads b') d := by
    intro r d hseq hr
    refine wp_write fun e hde hi _ => ⟨hi, trivial, ?_, ?_⟩
    · change (e.calls.loaned ++ [r]).getLast? = _ ∨ ∃ c, (e.calls.loaned ++ [r]).getLast? = _ ∧
        e.calls.loans = [c]
      rw [List.getLast?_concat, hde.calls]
      simpa only [Option.some.injEq] using hr
    · exact (congrArg Calls.nextSeq hde.calls).trans hseq
  have hpop : ∀ d, Held reads none [] (reads.length + 1) d →
      Publisher.popFree.wp (carrying reads) (fun r d' => d'.calls.nextSeq = reads.length + 1 ∧
        (r = .error .outOfChunks ∨ ∃ c, r = .ok c ∧ d'.calls.loans = [c])) d := by
    intro d hd
    refine wp_last (wp_update fun e hde hi _ => ?_)
    have he := hd.aside hde
    cases hfree : e.book.free with
    | nil =>
        dsimp only
        exact ⟨hi, trivial, he.nextSeq, .inl rfl⟩
    | cons c rest =>
        dsimp only
        refine ⟨hi, trivial, he.nextSeq, .inr ⟨c, rfl, ?_⟩⟩
        exact congrArg (c :: ·) he.loans
  have hloan : Publisher.loan.wp (carrying reads) (fun r d' => d'.calls.nextSeq = reads.length + 1 ∧
      (r = .error .outOfChunks ∨ ∃ c, r = .ok c ∧ d'.calls.loans = [c])) b := by
    refine wp_read fun b₁ h₁ _ => ?_
    have hlimit : decide (b₁.calls.loansOut ≥ b₁.hdr.maxLoans) = false := by
      rw [h₁.calls, h₁.hdr]
      exact decide_eq_false (Nat.not_le.mpr hloans)
    rw [if_neg (by rw [hlimit]; exact Bool.false_ne_true)]
    refine wp_read fun b₂ h₂ _ => wp_seq (wp_carries (within_fold fun _ _ => drainDone_carries ..)
      ((h.aside h₁).aside h₂)) fun _ b₃ h₃ => wp_read fun b₄ h₄ _ => ?_
    split
    · refine wp_seq (wp_carries (scanSlots_carries _) (h₃.aside h₄)) fun _ b₅ h₅ =>
        wp_read fun b₆ h₆ _ => ?_
      split
      · exact wp_write fun b₇ h₇ hi _ => ⟨hi, trivial, ((h₅.aside h₆).aside h₇).nextSeq, .inl rfl⟩
      · exact hpop b₆ (h₅.aside h₆)
    · exact hpop b₄ (h₃.aside h₄)
  exact wp_seq hloan fun r d hd => hnote r d hd.1 hd.2

/-- `send` of the chunk with the last sample. -/
theorem send_carries {c : ℕ} (h : (BridgePhase.filled c).After reads b) :
    (do let _ ← Publisher.send c; return () : Prog Bus Unit).wp (carrying reads)
      (fun _ b' => BridgePhase.sending.After reads b') b := by
  obtain ⟨hloans, hseq, hlast⟩ := h
  have hpos : reads ≠ [] := by
    rintro rfl
    cases hlast
  have hpos := List.length_pos_iff.mpr hpos
  rw [List.getLast?_eq_getElem?] at hlast
  have hend : ∀ d, Held reads (some c) [] (reads.length + 1) d →
      BridgePhase.sending.After reads d := fun d h => ⟨h.loans, h.nextSeq⟩
  refine wp_seq (R := fun _ d => BridgePhase.sending.After reads d) ?_ fun _ _ h => h
  refine wp_update fun b₁ h₁ hi _ => ⟨hi, trivial, ?_⟩
  refine wp_write fun b₂ h₂ hi _ => ⟨hi, trivial, ?_⟩
  have held : Held reads (some c) [] (reads.length + 1)
      { b₂ with chunkSeq := Function.update b₂.chunkSeq c b₁.calls.nextSeq } := by
    refine ⟨?_, ?_, ?_⟩
    · rw [h₂.calls]
      change b₁.calls.loans.erase c = []
      rw [h₁.calls, hloans, List.erase_cons_head]
    · rw [h₂.calls]
      change b₁.calls.nextSeq + 1 = _
      rw [h₁.calls, hseq]
    · rintro _ ⟨⟩
      unfold Numbered
      dsimp only
      rw [Function.update_self, h₂.payload, h₁.calls, hseq]
      exact ⟨hpos, hlast.trans (congrArg (fun p : ℕ → ℕ => some (p c)) h₁.payload.symm)⟩
  refine wp_mono (wp_carries ?_ held) fun _ => hend
  refine within_write (fun _ => .inr (.of_same rfl (.others rfl) fun _ => rfl)) ?_
  refine within_seq (scanSlots_carries _) fun _ => within_read fun _ => ?_
  refine within_seq (within_fold fun _ _ => deliver_carries) fun _ => ?_
  refine within_write (fun _ => .inr (.of_same rfl (.freeIfUnused c) fun _ => rfl)) ?_
  refine within_write (fun _ => .inr (.of_same rfl (.others rfl) fun _ => rfl)) ?_
  refine within_update (fun b => ?_) fun check => ?_
  · dsimp only
    split
    · split <;> exact .inr (.of_same rfl (.others rfl) fun _ => rfl)
    · exact .inl rfl
  · split
    · exact within_seq (checkLiveness_carries _) fun _ => by trivial
    · trivial

/-- The destructor of a loan that has not been sent. -/
theorem releaseLoan_carries {c : ℕ} (h : (BridgePhase.short c).After reads b) :
    (Publisher.releaseLoan c).wp (carrying reads)
      (fun _ b' => BridgePhase.dropping.After reads b') b := by
  refine wp_write fun b₁ h₁ hi _ => ⟨hi, trivial, ?_, ?_⟩
  · change b₁.calls.loans.erase c = []
    rw [h₁.calls, h.1, List.erase_cons_head]
  · exact (congrArg Calls.nextSeq h₁.calls).trans h.2

theorem shutdown_carries : Publisher.shutdown.wp (carrying reads) (fun _ _ => True) b := by
  have hpartial : ¬ (carrying reads).total := id
  have hwithin : Publisher.shutdown.Within Bus.Aside := by
    refine within_write (fun _ => .inr ⟨rfl, rfl, rfl, rfl, fun _ => rfl⟩) ?_
    refine within_read fun _ => within_fold fun _ _ => ?_
    exact within_write (fun _ => .inr ⟨rfl, rfl, rfl, rfl, fun _ => rfl⟩)
      (within_write (fun _ => .inr ⟨rfl, rfl, rfl, rfl, fun _ => rfl⟩) (by trivial))
  refine wp_of_within (fun _ => True) hpartial hwithin (fun t u _ hi ha => ?_)
    (fun _ _ _ _ _ => trivial) trivial
  exact ⟨trivial, ⟨by rw [ha.hdr]; exact hi.1, hi.2.aside ha⟩, trivial⟩

end Calls

/-! ## The invariant -/

/-- The publisher is in no call. -/
def BridgePhase.Rests : BridgePhase → Prop
  | .idle | .loaned _ | .filled _ | .short _ => True
  | _ => False

/-- The samples that have been read and are not counted yet. -/
def BridgePhase.due : BridgePhase → ℕ
  | .filled _ | .sending => 1
  | _ => 0

structure Bridge.Inv (x : Bridge) : Prop where
  reach : service.Reach Devbus.Patient x.sys
  subs : ∀ i, (x.sys.sub i).Within Bus.Aside
  sent : (carrying x.reads).inv x.sys.bus
  pub : x.sys.pub.wp (carrying x.reads) (fun _ b => x.phase.After x.reads b) x.sys.bus
  rests : x.phase.Rests → x.sys.pub.returned = true
  refused : x.refused = 0
  bridged : x.bridged + x.phase.due = x.reads.length

section Steps

open Prog

variable {x y : Bridge} {s s' : Sys} {e : Event}

theorem Sys.call_eq {p : Prog Bus Unit} (h : s.call p = some s') : s' = { s with pub := p } := by
  unfold Sys.call at h
  split at h <;> cases h
  rfl

/-- What the subscribers and the outside do. -/
theorem Sys.next_aside (hforeign : e.isForeign = true) (hpub : ∀ n, e ≠ .publisher n)
    (hsubs : ∀ i, (s.sub i).Within Bus.Aside) (h : s.next e = some s') :
    s'.pub = s.pub ∧ s.bus.Aside s'.bus ∧ ∀ i, (s'.sub i).Within Bus.Aside := by
  have hset : ∀ {i : ℕ} {p : Prog Bus Unit}, p.Within Bus.Aside →
      ∀ j, (Function.update s.sub i p j).Within Bus.Aside := fun hp =>
    (Function.forall_update_iff s.sub fun _ p => p.Within Bus.Aside).mpr
      ⟨hp, fun j _ => hsubs j⟩
  have hcall : ∀ {i : ℕ} {p : ℕ → Prog Bus Unit}, (∀ sl, (p sl).Within Bus.Aside) →
      s.callSub i p = some s' →
      s'.pub = s.pub ∧ s.bus.Aside s'.bus ∧ ∀ i, (s'.sub i).Within Bus.Aside := by
    intro i p hp hs
    unfold Sys.callSub at hs
    split at hs
    · obtain ⟨sl, -, rfl⟩ := Option.map_eq_some_iff.mp hs
      exact ⟨rfl, .refl _, hset (hp sl)⟩
    · cases hs
  cases e with
  | loan | releaseLoan | fill | send | checkLiveness | shutdown => cases hforeign
  | publisher n => exact absurd rfl (hpub n)
  | join i pid overflow timeout =>
      dsimp only [Sys.next] at h
      split at h <;> cases h
      exact ⟨rfl, ⟨rfl, rfl, rfl, rfl, fun _ => rfl⟩, hset construct_aside⟩
  | tryReceive i => exact hcall (fun _ => tryReceive_aside) h
  | wait i mode timeout => exact hcall (fun _ => within_seq wait_aside fun _ => by trivial) h
  | poll i timeout => exact hcall (fun _ => poll_aside) h
  | release i e =>
      dsimp only [Sys.next] at h
      split at h
      · exact hcall (fun _ => release_aside) h
      · cases h
  | destroy i =>
      dsimp only [Sys.next] at h
      split at h
      · exact hcall (fun _ => destroy_aside) h
      · cases h
  | subscriber i n =>
      dsimp only [Sys.next] at h
      split at h
      · obtain ⟨⟨p, b⟩, hs, rfl⟩ := Option.map_eq_some_iff.mp h
        obtain ⟨hb, hp⟩ := within_step (hsubs i) hs
        refine ⟨rfl, ?_, hset hp⟩
        rcases hb with rfl | hb
        · exact .refl _
        · exact hb
      · cases h
  | crash pid =>
      dsimp only [Sys.next] at h
      split at h <;> cases h
      exact ⟨rfl, ⟨rfl, rfl, rfl, rfl, fun _ => rfl⟩, hsubs⟩
  | tick ns | wakeSubscriber sl | wakePublisher sl =>
      cases h
      exact ⟨rfl, ⟨rfl, rfl, rfl, rfl, fun _ => rfl⟩, hsubs⟩

namespace Bridge.Inv

theorem reach_next (inv : x.Inv) (h : x.sys.next e = some s') (ht : s'.bus.timedOut = false) :
    service.Reach Devbus.Patient s' := by
  refine inv.reach.step (fun t hn => ?_) h
  cases h.symm.trans hn
  exact ht

/-- What holds between two calls. -/
theorem after (inv : x.Inv) (h : x.phase.Rests) : x.phase.After x.reads x.sys.bus :=
  wp_returned inv.pub (inv.rests h)

/-- The loop calls the publisher. -/
theorem call {p : Prog Bus Unit} {phase : BridgePhase} (inv : x.Inv)
    (h : x.sys.next e = some s') (hs' : s' = { x.sys with pub := p })
    (ht : s'.bus.timedOut = false)
    (hp : p.wp (carrying x.reads) (fun _ b => phase.After x.reads b) x.sys.bus)
    (hrests : ¬ phase.Rests) (hdue : phase.due = x.phase.due) :
    Inv { x with sys := s', phase := phase } := by
  have hreach := inv.reach_next h ht
  subst hs'
  refine ⟨hreach, inv.subs, inv.sent, hp, fun h => absurd h hrests, inv.refused, ?_⟩
  exact (congrArg (x.bridged + ·) hdue).trans inv.bridged

/-- The call that the loop is in returns. -/
theorem returned {phase : BridgePhase} {bridged : ℕ} (inv : x.Inv)
    (hret : x.sys.pub.returned = true) (hafter : phase.After x.reads x.sys.bus)
    (hbridged : bridged + phase.due = x.reads.length) :
    Inv { x with phase := phase, bridged := bridged } := by
  refine ⟨inv.reach, inv.subs, inv.sent, ?_, fun _ => hret, inv.refused, hbridged⟩
  dsimp only
  rw [eq_ret_of_returned hret]
  exact hafter

/-- A step of a thread, or of the outside. -/
theorem foreign (inv : x.Inv) (hforeign : e.isForeign = true) (h : x.sys.next e = some s')
    (ht : s'.bus.timedOut = false) : Inv { x with sys := s' } := by
  have hreach := inv.reach_next h ht
  by_cases hpub : ∃ n, e = .publisher n
  · obtain ⟨n, rfl⟩ := hpub
    obtain ⟨⟨p, b⟩, hs, rfl⟩ := Option.map_eq_some_iff.mp h
    obtain ⟨hi, -, hp⟩ := wp_step inv.pub inv.sent hs trivial
    refine ⟨hreach, inv.subs, hi, hp, fun hrests => ?_, inv.refused, inv.bridged⟩
    -- between two calls there is nothing to step
    rw [eq_ret_of_returned (inv.rests hrests)] at hs
    cases hs
  · obtain ⟨hp, hb, hsubs⟩ := Sys.next_aside hforeign (fun n hn => hpub ⟨n, hn⟩) inv.subs h
    have hi : (carrying x.reads).inv s'.bus := ⟨by rw [hb.hdr]; exact inv.sent.1,
      inv.sent.2.aside hb⟩
    refine ⟨hreach, hsubs, hi, ?_, fun hrests => ?_, inv.refused, inv.bridged⟩
    · dsimp only
      rw [hp]
      exact wp_rely (fun _ _ _ h hr _ => h.aside hr) inv.pub hb hi
    · dsimp only
      rw [hp]
      exact inv.rests hrests

/-- The number of a sample stays when another one is read. -/
theorem sent_read {reads : List ℕ} {b : Bus} (h : Sent reads b) (v : ℕ) :
    Sent (reads ++ [v]) b := by
  intro s e he
  obtain ⟨hpos, hread⟩ := h s e he
  obtain ⟨hlt, -⟩ := List.getElem?_eq_some_iff.mp hread
  exact ⟨hpos, by rw [List.getElem?_append_left hlt]; exact hread⟩

/-- `read` writes to the chunk. -/
theorem fill {c v : ℕ} {phase : BridgePhase} {kfifo reads : List ℕ} {shortReads : ℕ} (inv : x.Inv)
    (h : x.sys.next (.fill c v) = some s') (ht : s'.bus.timedOut = false)
    (hsent : Sent reads x.sys.bus) (hrests : x.phase.Rests)
    (hafter : phase.After reads
      { x.sys.bus with payload := Function.update x.sys.bus.payload c v })
    (hdue : x.bridged + phase.due = reads.length) :
    Inv ⟨s', kfifo, phase, x.bridged, shortReads, x.refused, reads⟩ := by
  have hreach := inv.reach_next h ht
  have hret := inv.rests hrests
  dsimp only [Sys.next] at h
  split at h <;> cases h
  refine ⟨hreach, inv.subs, ⟨inv.sent.1, hsent⟩, ?_, fun _ => hret, inv.refused, hdue⟩
  dsimp only
  rw [eq_ret_of_returned hret]
  exact hafter

/-- **One step of the bridge.** -/
theorem next {l : BridgeStep} (inv : x.Inv) (hok : x.Patient l) (h : x.next l = some y) :
    y.Inv := by
  have ht := hok y h
  cases l with
  | poll =>
      dsimp only [Bridge.next] at h
      split at h
      · next hphase =>
        obtain ⟨s', hs, rfl⟩ := Option.map_eq_some_iff.mp h
        have hafter := inv.after (by rw [hphase]; trivial)
        rw [hphase] at hafter
        refine inv.call hs (Sys.call_eq hs) ht (callLoan_carries ?_ ⟨hafter.1, hafter.2, nofun⟩) id
          (by rw [hphase]; rfl)
        rw [(SysInv.of_patient inv.reach).good.pool.loansOut, hafter.1]
        exact inv.sent.1
      · cases h
  | loaned =>
      dsimp only [Bridge.next] at h
      split at h
      · next hphase =>
        split at h
        · next hret =>
          have hafter := wp_returned inv.pub hret
          have hdue := inv.bridged
          rw [hphase] at hafter hdue
          obtain ⟨hlast | ⟨c, hlast, hloans⟩, hseq⟩ := hafter
          · -- the pool is never exhausted
            have hidle := ((SysInv.of_patient inv.reach).pubIdle hret).idle
            exact absurd rfl (hidle.loaned _ (List.mem_of_getLast? hlast))
          · rw [hlast] at h
            cases h
            exact inv.returned hret ⟨hloans, hseq⟩ hdue
        · cases h
      · cases h
  | read =>
      dsimp only [Bridge.next] at h
      split at h
      · next c v rest hphase hfifo =>
        obtain ⟨s', hs, rfl⟩ := Option.map_eq_some_iff.mp h
        have hafter := inv.after (by rw [hphase]; trivial)
        have hdue := inv.bridged
        rw [hphase] at hafter hdue
        refine inv.fill hs ht (sent_read inv.sent.2 v) (by rw [hphase]; trivial)
          ⟨hafter.1, ?_, ?_⟩ ?_
        · rw [List.length_append]
          exact hafter.2
        · rw [List.getLast?_concat]
          dsimp only
          rw [Function.update_self]
        · rw [List.length_append]
          exact congrArg (· + 1) hdue
      · cases h
  | shortRead v =>
      dsimp only [Bridge.next] at h
      split at h
      · next c hphase =>
        obtain ⟨s', hs, rfl⟩ := Option.map_eq_some_iff.mp h
        have hafter := inv.after (by rw [hphase]; trivial)
        have hdue := inv.bridged
        rw [hphase] at hafter hdue
        exact inv.fill hs ht inv.sent.2 (by rw [hphase]; trivial) hafter hdue
      · cases h
  | send =>
      dsimp only [Bridge.next] at h
      split at h
      · next c hphase =>
        obtain ⟨s', hs, rfl⟩ := Option.map_eq_some_iff.mp h
        have hafter := inv.after (by rw [hphase]; trivial)
        rw [hphase] at hafter
        have hcall := hs
        dsimp only [Sys.next] at hcall
        split at hcall
        · exact inv.call hs (Sys.call_eq hcall) ht (send_carries hafter) id (by rw [hphase]; rfl)
        · cases hcall
      · cases h
  | drop =>
      dsimp only [Bridge.next] at h
      split at h
      · next c hphase =>
        obtain ⟨s', hs, rfl⟩ := Option.map_eq_some_iff.mp h
        have hafter := inv.after (by rw [hphase]; trivial)
        rw [hphase] at hafter
        have hcall := hs
        dsimp only [Sys.next] at hcall
        split at hcall
        · exact inv.call hs (Sys.call_eq hcall) ht (releaseLoan_carries hafter) id
            (by rw [hphase]; rfl)
        · cases hcall
      · cases h
  | done =>
      dsimp only [Bridge.next] at h
      split at h
      · next hret =>
        have hafter := wp_returned inv.pub hret
        have hdue := inv.bridged
        split at h
        · next hphase =>
          cases h
          rw [hphase] at hafter hdue
          exact inv.returned hret hafter hdue
        · next hphase =>
          cases h
          rw [hphase] at hafter hdue
          exact inv.returned hret hafter hdue
        · cases h
      · cases h
  | stop =>
      dsimp only [Bridge.next] at h
      split at h
      · next hphase =>
        obtain ⟨s', hs, rfl⟩ := Option.map_eq_some_iff.mp h
        exact inv.call hs (Sys.call_eq hs) ht shutdown_carries id (by rw [hphase]; rfl)
      · cases h
  | sample v =>
      cases h
      exact ⟨inv.reach, inv.subs, inv.sent, inv.pub, inv.rests, inv.refused, inv.bridged⟩
  | bus e =>
      dsimp only [Bridge.next] at h
      split at h
      · next hforeign =>
        obtain ⟨s', hs, rfl⟩ := Option.map_eq_some_iff.mp h
        exact inv.foreign hforeign hs ht
      · cases h

theorem of_reach (h : bridge.Reach Bridge.Patient x) : x.Inv := by
  refine h.invariant (fun x hx => ?_) fun _ _ _ inv hok hn => inv.next hok hn
  obtain ⟨hinit, hloans, hphase, hbridged, -, hrefused, hreads⟩ := hx
  have hreach : service.Reach Devbus.Patient x.sys := .start hinit
  obtain ⟨cfg, typeSize, typeAlign, l, pid, now, -, -, -, -, hs⟩ := hinit
  refine ⟨hreach, fun i => ?_, ⟨hloans, ?_⟩, ?_, fun _ => ?_, hrefused, ?_⟩
  · rw [hs]
    trivial
  · rw [hs]
    exact fun s e he => nomatch he
  · rw [hphase, hreads, hs]
    exact ⟨rfl, rfl⟩
  · rw [hs]
    rfl
  · rw [hphase, hreads, hbridged]
    rfl

end Bridge.Inv

end Steps

/-! ## The samples of a subscriber -/

section Samples

variable {reads : List ℕ} {l : List Entry} {x : Bridge} {i s k : ℕ}

end Samples

instance (x : Bridge) (l : BridgeStep) : Decidable (Bridge.Patient x l) :=
  decidable_of_iff ((x.next l).all (fun y => !y.sys.bus.timedOut) = true) <| by
    simp only [Option.all_eq_true, Bool.not_eq_true', Bridge.Patient]

end Devbus
