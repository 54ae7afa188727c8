/-
# What calls do not touch

Frame conditions of the programs, whatever the state they run in:

* what the publisher does in its calls leaves `publisher_pid`, the header and the payloads alone,
  changes the chunks and references by `Book.Moves`, and pushes entries for the chunk that is being
  sent only (`Bus.Carries`); a call as a whole is within `Bus.OwnStep`;
* a blocked `deliver` and the wake-up of a subscriber leave its own members alone (`Bus.SameBook`);
* the destructor touches nothing but `publisher_pid` and futex words (`wakeAll_core`);
* `wait` touches futex words only (`wait_core`).
-/
import DevicePlatform.Devbus.Publisher
import DevicePlatform.Devbus.Subscriber

namespace Devbus

/-- Futex words, the clock and the like may change. -/
def Bus.SameCore (b d : Bus) : Prop := d.toCore = b.toCore ∧ d.publisherPid = b.publisherPid

/-- A step of the publisher, while it is running. -/
structure Bus.OwnStep (b d : Bus) : Prop where
  pid : d.publisherPid = b.publisherPid
  hdr : d.hdr = b.hdr
  book : b.book.Moves b.hdr d.book

/-- What only the calls themselves change, and the application. -/
def Bus.kept (b : Bus) : ℕ × Header × (ℕ → ℕ) × (ℕ → ℕ) × ℕ × List ℕ × List (Except LoanError ℕ) :=
  (b.publisherPid, b.hdr, b.payload, b.chunkSeq, b.calls.nextSeq, b.calls.loans, b.calls.loaned)

/-- What happens within a call of the publisher: it writes no payload; a slot may be reset; and an
entry for the chunk that `send` is about may be pushed. -/
structure Bus.Carries (chunk : Option ℕ) (b d : Bus) : Prop where
  kept : d.kept = b.kept
  book : b.book.Moves b.hdr d.book
  pushed : ∀ s, (d.led s).pushed = (b.led s).pushed ∨ (d.led s).pushed = [] ∨
    ∃ c ∈ chunk, (d.led s).pushed = (b.led s).pushed ++ [⟨b.chunkSeq c, b.payload c, c⟩]

/-- The publisher's own members stay. -/
structure Bus.SameBook (b d : Bus) : Prop where
  kept : d.kept = b.kept
  book : d.book = b.book
  calls : d.calls = b.calls
  pushed : ∀ s, (d.led s).pushed = (b.led s).pushed

/-! ## The publisher -/

section Publisher

open Prog

variable {b d : Bus} {chunk : Option ℕ} {s : ℕ} {l : Ledger}

theorem Bus.Carries.own (h : Bus.Carries chunk b d) : b.OwnStep d :=
  ⟨congrArg (·.1) h.kept, congrArg (·.2.1) h.kept, h.book⟩

/-- A change of a ledger that is not a push. -/
theorem pushed_update (hd : d.led = Function.update b.led s l)
    (hl : l.pushed = (b.led s).pushed) (s' : ℕ) : (d.led s').pushed = (b.led s').pushed := by
  rw [hd]
  by_cases hs : s' = s
  · subst hs
    rw [Function.update_self, hl]
  · rw [Function.update_of_ne hs]

theorem Bus.Carries.of_same (hkept : d.kept = b.kept) (hbook : b.book.Moves b.hdr d.book)
    (hpushed : ∀ s, (d.led s).pushed = (b.led s).pushed) : Bus.Carries chunk b d :=
  ⟨hkept, hbook, fun s => .inl (hpushed s)⟩

theorem Bus.SameBook.hdr (h : b.SameBook d) : d.hdr = b.hdr := congrArg (·.2.1) h.kept

theorem Bus.SameBook.carries (h : b.SameBook d) : Bus.Carries chunk b d :=
  .of_same h.kept (.others (congrArg (fun k : Book => (k.free, k.refcount, k.outstanding)) h.book))
    h.pushed

/-- A slot is reset, or an entry is pushed. -/
theorem Bus.Carries.of_update (hkept : d.kept = b.kept) (hbook : b.book.Moves b.hdr d.book)
    (hd : d.led = Function.update b.led s l)
    (hl : l.pushed = [] ∨
      ∃ c ∈ chunk, l.pushed = (b.led s).pushed ++ [⟨b.chunkSeq c, b.payload c, c⟩]) :
    Bus.Carries chunk b d := by
  refine ⟨hkept, hbook, fun s' => ?_⟩
  rw [hd]
  by_cases hs : s' = s
  · subst hs
    rw [Function.update_self]
    exact .inr hl
  · rw [Function.update_of_ne hs]
    exact .inl rfl

/-! ### Within the calls -/

theorem pidfdAlive_carries {fd : Option ℕ} :
    (Os.pidfdAlive fd).Within (Bus.Carries chunk) := by
  unfold Os.pidfdAlive
  split
  · trivial
  · exact within_choose fun _ => within_load

theorem processAlive_carries {pid : ℕ} :
    (Os.processAlive pid).Within (Bus.Carries chunk) := by
  unfold Os.processAlive
  split
  · trivial
  · exact within_choose fun _ => within_load

theorem blockRound_book {head cap blockStart : ℕ} {report : SendReport} :
    (Publisher.blockRound s head cap blockStart report).Within Bus.SameBook := by
  have hclear : ∀ {β : Type} (r : β), (do
      Prog.write fun b : Bus => b.setFutex s fun f => { f with publisherWaiting := 0 }
      return r : Prog Bus β).Within Bus.SameBook := fun _ =>
    within_write (fun _ => .inr ⟨rfl, rfl, rfl, fun _ => rfl⟩) (by trivial)
  refine within_read fun now => ?_
  dsimp only
  generalize (if blockStart = 0 then now else blockStart) = start
  refine within_seq (within_read fun _ => ?_) fun _ => ?_
  · split
    · trivial
    · exact within_read fun _ => by trivial
  · split
    · refine within_write (fun b => .inr ⟨rfl, rfl, rfl, ?_⟩)
        (within_write (fun _ => .inr ⟨rfl, rfl, rfl, fun _ => rfl⟩) (by trivial))
      exact pushed_update rfl rfl
    · split
      · trivial
      · refine within_read fun _ =>
          within_write (fun _ => .inr ⟨rfl, rfl, rfl, fun _ => rfl⟩) ?_
        refine within_seq (within_read fun _ => ?_) fun _ => ?_
        · split
          · trivial
          · exact within_read fun _ => by trivial
        · split
          · exact hclear _
          · refine within_seq (within_write (fun _ => .inr ⟨rfl, rfl, rfl, fun _ => rfl⟩)
              (within_await (by trivial))) fun _ => ?_
            exact hclear _

theorem chargeBlocked_book {blockStart : ℕ} :
    (Publisher.chargeBlocked s blockStart).Within Bus.SameBook := by
  unfold Publisher.chargeBlocked
  split
  · exact within_read fun _ =>
      within_write (fun _ => .inr ⟨rfl, rfl, rfl, fun _ => rfl⟩) (by trivial)
  · trivial

theorem wakeSubscriber_book : (Publisher.wakeSubscriber s).Within Bus.SameBook := by
  refine within_update (fun _ => .inr ⟨rfl, rfl, rfl, fun _ => rfl⟩) fun _ => ?_
  split
  · exact within_write (fun _ => .inr ⟨rfl, rfl, rfl, fun _ => rfl⟩)
      (within_write (fun _ => .inr ⟨rfl, rfl, rfl, fun _ => rfl⟩) (by trivial))
  · trivial

variable (chunk)

theorem drainDone_carries (s : ℕ) : (Publisher.drainDone s).Within (Bus.Carries chunk) := by
  refine within_read fun _ => within_read fun _ => within_read fun _ => ?_
  split
  · trivial
  · refine within_seq (within_repeat fun _ => ?_) fun _ =>
      within_write (fun b => .inr (.of_same rfl (.others rfl) fun _ => rfl)) (by trivial)
    split
    · trivial
    · refine within_write (fun b => .inr (.of_same rfl (.releaseRef ..) ?_)) (by trivial)
      exact pushed_update rfl rfl

theorem reclaimSlot_carries : (Publisher.reclaimSlot s).Within (Bus.Carries chunk) := by
  refine within_seq (drainDone_carries chunk s) fun _ => within_write (fun b => .inr ?_) ?_
  · exact .of_update rfl (.reclaimChunks s) rfl (.inl rfl)
  refine within_seq (within_fold fun _ w => within_last (within_write ?_ (by trivial)))
    fun _ => within_write (fun b => .inr ?_) (by trivial)
  · intro b
    cases w <;> exact .inr (.of_same rfl (.others rfl) fun _ => rfl)
  · exact .of_update rfl (.others rfl) rfl (.inl rfl)

theorem rebuildActiveList_carries : Publisher.rebuildActiveList.Within (Bus.Carries chunk) := by
  refine within_read fun _ =>
    within_write (fun _ => .inr (.of_same rfl (.others rfl) fun _ => rfl)) ?_
  refine within_fold fun _ _ => within_fold fun _ _ => within_read fun _ => ?_
  refine within_write (fun _ => .inr (.of_same rfl ?_ fun _ => rfl)) (by trivial)
  dsimp only [Bus.setBook]
  split <;> exact .others rfl

theorem scanSlot_carries {changed : Bool} :
    (Publisher.scanSlot changed s).Within (Bus.Carries chunk) := by
  refine within_read fun _ => within_read fun _ => ?_
  split
  · refine within_read fun _ => within_seq (within_choose fun _ => within_load) fun fd => ?_
    cases fd with
    | none => exact within_seq (reclaimSlot_carries chunk) fun _ => by trivial
    | some p =>
        refine within_write (fun b => .inr (.of_same rfl (.others rfl) ?_)) (by trivial)
        exact pushed_update rfl rfl
  · split
    · exact within_seq (reclaimSlot_carries chunk) fun _ => by trivial
    · trivial

theorem scanSlots_carries : Publisher.scanSlots.Within (Bus.Carries chunk) := by
  refine within_update (fun _ => .inr (.of_same rfl (.others rfl) fun _ => rfl)) fun _ => ?_
  refine within_seq (within_fold fun _ _ => scanSlot_carries chunk) fun _ => ?_
  split
  · exact rebuildActiveList_carries chunk
  · trivial

theorem slotDead_carries {pid : ℕ} {st : SlotState} :
    (Publisher.slotDead s st pid).Within (Bus.Carries chunk) := by
  refine within_read fun _ => ?_
  split
  · exact within_read fun fd => within_seq pidfdAlive_carries fun _ => by trivial
  · split
    · refine within_last (within_update (fun _ => .inr ?_) fun _ => by trivial)
      exact .of_same rfl (.others rfl) fun _ => rfl
    · split
      · exact within_seq processAlive_carries fun _ => by trivial
      · trivial

theorem checkLiveness_carries : Publisher.checkLiveness.Within (Bus.Carries chunk) := by
  refine within_seq (scanSlots_carries chunk) fun _ => within_read fun _ => ?_
  refine within_seq (within_fold fun _ _ => ?_) fun _ => ?_
  · refine within_read fun _ => within_read fun _ =>
      within_seq (slotDead_carries chunk) fun _ => ?_
    refine within_write (fun b => .inr (.of_same rfl ?_ fun _ => rfl)) ?_
    · dsimp only [Bus.setBook]
      split <;> exact .others rfl
    split
    · exact within_seq (reclaimSlot_carries chunk) fun _ => by trivial
    · trivial
  · split
    · exact within_seq (rebuildActiveList_carries chunk) fun _ => by trivial
    · trivial

theorem evictRound_carries {tail cap blockStart : ℕ} {report : SendReport} :
    (Publisher.evictRound s tail cap blockStart report).Within (Bus.Carries chunk) := by
  refine within_read fun _ => within_update (fun b => ?_) fun _ => ?_
  · split
    · exact .inr (.of_same rfl (.releaseRef ..) (pushed_update rfl rfl))
    · exact .inl rfl
  · split
    · exact within_write (fun _ => .inr (.of_same rfl (.others rfl) fun _ => rfl)) (by trivial)
    · trivial

theorem enqueue_carries {c head cap blockStart : ℕ} {report : SendReport} :
    (Publisher.enqueue s c head cap blockStart report).Within (Bus.Carries (some c)) := by
  refine within_seq (chargeBlocked_book.mono fun _ _ h => h.carries) fun _ => ?_
  refine within_write (fun _ => .inr (.of_same rfl (.others rfl) fun _ => rfl)) ?_
  refine within_write (fun b => .inr (.of_update rfl (.addRef s c) rfl (.inr ⟨c, rfl, rfl⟩))) ?_
  refine within_write (fun _ => .inr (.of_same rfl (.others rfl) fun _ => rfl)) ?_
  exact within_seq (wakeSubscriber_book.mono fun _ _ h => h.carries) fun _ => by trivial

theorem deliver_carries {c : ℕ} {report : SendReport} :
    (Publisher.deliver c report s).Within (Bus.Carries (some c)) := by
  refine within_read fun _ => within_read fun _ => within_read fun policy =>
    within_seq (within_repeat fun _ => within_update (fun b => .inr ?_) fun _ => ?_) fun r => ?_
  · exact .of_same rfl (.others rfl) (pushed_update rfl rfl)
  · split
    · trivial
    · cases policy with
      | dropNewest =>
          refine within_write (fun b => .inr (.of_same rfl (.others rfl) ?_)) (by trivial)
          exact pushed_update rfl rfl
      | dropOldest => exact evictRound_carries (some c)
      | block => exact blockRound_book.mono fun _ _ h => h.carries
      | other v => trivial
  · cases r with
    | refused report => trivial
    | room blockStart report => exact enqueue_carries

/-! ### The calls -/

theorem checkLiveness_own : Publisher.checkLiveness.Within Bus.OwnStep :=
  (checkLiveness_carries none).mono fun _ _ h => h.own

theorem scanSlots_own : Publisher.scanSlots.Within Bus.OwnStep :=
  (scanSlots_carries none).mono fun _ _ h => h.own

theorem popFree_own : Publisher.popFree.Within Bus.OwnStep := by
  refine within_last (within_update (fun b => ?_) fun _ => by trivial)
  split
  · exact .inl rfl
  · next hfree => exact .inr ⟨rfl, rfl, .pop hfree⟩

theorem loan_own : Publisher.loan.Within Bus.OwnStep := by
  have hdrain : ∀ s, (Publisher.drainDone s).Within Bus.OwnStep := fun s =>
    (drainDone_carries none s).mono fun _ _ h => h.own
  refine within_read fun _ => ?_
  split
  · trivial
  · refine within_read fun _ => within_seq (within_fold fun _ s => hdrain s) fun _ =>
      within_read fun _ => ?_
    split
    · refine within_seq scanSlots_own fun _ => within_read fun _ => ?_
      split
      · exact within_write (fun _ => .inr ⟨rfl, rfl, .others rfl⟩) (by trivial)
      · exact popFree_own
    · exact popFree_own

theorem releaseLoan_own {c : ℕ} : (Publisher.releaseLoan c).Within Bus.OwnStep :=
  within_write (fun _ => .inr ⟨rfl, rfl, .freeChunk c⟩) (by trivial)

theorem send_own {c : ℕ} : (Publisher.send c).Within Bus.OwnStep := by
  refine within_update (fun _ => .inr ⟨rfl, rfl, .others rfl⟩) fun _ => ?_
  refine within_write (fun _ => .inr ⟨rfl, rfl, .others rfl⟩) ?_
  refine within_write (fun _ => .inr ⟨rfl, rfl, .others rfl⟩) ?_
  refine within_seq scanSlots_own fun _ => within_read fun _ => ?_
  refine within_seq (within_fold fun _ _ => deliver_carries.mono fun _ _ h => h.own) fun _ => ?_
  refine within_write (fun _ => .inr ⟨rfl, rfl, .freeIfUnused c⟩) ?_
  refine within_write (fun _ => .inr ⟨rfl, rfl, .others rfl⟩) ?_
  refine within_update (fun _ => ?_) fun _ => ?_
  · split
    · dsimp only
      split <;> exact .inr ⟨rfl, rfl, .others rfl⟩
    · exact .inl rfl
  · split
    · exact within_seq checkLiveness_own fun _ => by trivial
    · trivial

/-- The destructor, once `publisher_pid` is 0. -/
def Publisher.wakeAll : Prog Bus Unit := do
  let n ← Prog.read fun b => b.hdr.maxSubscribers
  Prog.forEach (List.range n) Publisher.wakeData

theorem wakeAll_core : Publisher.wakeAll.Within Bus.SameCore := by
  refine within_read fun _ => within_fold fun _ _ => ?_
  exact within_write (fun _ => .inr ⟨rfl, rfl⟩)
    (within_write (fun _ => .inr ⟨rfl, rfl⟩) (by trivial))

end Publisher

/-! ## Subscribers -/

section Subscriber

open Prog

variable {s : ℕ}

theorem hasData_core : (Subscriber.hasData s).Within Bus.SameCore :=
  within_read fun _ => within_read fun _ => by trivial

theorem publisherGone_core : Subscriber.publisherGone.Within Bus.SameCore :=
  within_read fun _ => by trivial

theorem expired_core {deadline : Option ℕ} : (Subscriber.expired deadline).Within Bus.SameCore := by
  unfold Subscriber.expired
  split
  · trivial
  · exact within_read fun _ => by trivial

theorem spinRound_core {deadline : Option ℕ} {n : ℕ} :
    (Subscriber.spinRound s deadline n).Within Bus.SameCore := by
  refine within_seq hasData_core fun _ => ?_
  split
  · trivial
  · split
    · refine within_seq (within_seq publisherGone_core fun _ => ?_) fun _ => ?_
      · split
        · trivial
        · exact expired_core
      · split
        · exact within_seq hasData_core fun _ => by trivial
        · trivial
    · trivial

theorem futexWaitData_core {word : ℕ} :
    (Subscriber.futexWaitData s word).Within Bus.SameCore := by
  refine within_write (fun _ => ?_) (within_await (by trivial))
  split
  · exact .inr ⟨rfl, rfl⟩
  · exact .inl rfl

theorem waitRound_core {deadline : Option ℕ} :
    (Subscriber.waitRound s deadline).Within Bus.SameCore := by
  refine within_read fun _ => within_write (fun _ => .inr ⟨rfl, rfl⟩) ?_
  refine within_seq (within_seq hasData_core fun _ => ?_) fun _ => ?_
  · split
    · trivial
    · exact publisherGone_core
  · split
    · exact within_write (fun _ => .inr ⟨rfl, rfl⟩) (within_seq hasData_core fun _ => by trivial)
    · refine within_seq expired_core fun _ => ?_
      split
      · exact within_write (fun _ => .inr ⟨rfl, rfl⟩) (by trivial)
      · refine within_seq futexWaitData_core fun _ => within_write (fun _ => .inr ⟨rfl, rfl⟩)
          (within_seq hasData_core fun _ => ?_)
        split <;> trivial

theorem wait_core {mode : Subscriber.WaitMode} {timeout : Option ℕ} :
    (Subscriber.wait s mode timeout).Within Bus.SameCore := by
  refine within_seq hasData_core fun _ => ?_
  split
  · trivial
  · refine within_read fun _ => ?_
    cases mode with
    | futex => exact within_repeat fun _ => waitRound_core
    | busySpin | yield => exact within_repeat fun _ => spinRound_core

end Subscriber

end Devbus
