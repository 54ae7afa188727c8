/-
# The queue pressure that another thread measures

`max_queued` and `pressure` (`userspace/devbus/src/core.cpp`) read `active_list_` and the indices of
the data rings.  `device-service` calls them from the thread of `BackpressureController`, for its
early warning (`userspace/device-service/src/main.cpp`), while `send` runs on the acquisition thread
and the subscribers receive.  Here this thread stands beside the service, one load at a time.

`max_queued` loads `data_head` before `data_tail`.  The comment in the source argues that a value
which is stale by the time it is used errs in the safe direction, since a subscriber only ever
drains.  That is so only if the publisher does not push in between: then the difference is what the
queue held when `data_tail` was loaded (`pressure_is_occupancy`).  If it does push, the subscriber
can drain past the `data_head` that was loaded, and the unsigned difference wraps around
(`empty_queue_alarms`).
-/
import Mathlib.Algebra.Order.Field.Rat
import DevicePlatform.Devbus.Isolation
import DevicePlatform.DeviceService.SampleAge

namespace Devbus

open DeviceService.SampleAge (earlyWarning ageAbove pressureAbove)

/-! ## The thread that measures -/

/-- Where `max_queued` is. -/
inductive MonitorPc where
  | idle
  /-- At the beginning of a round. -/
  | element
  /-- About to load `data_head` of slot `s`. -/
  | head (s : ℕ)
  /-- About to load `data_tail` of slot `s`, after `head`. -/
  | tail (s head : ℕ)
  deriving DecidableEq, Repr

/-- `max_queued`: the next element of `active_list_`, the size of the list when the loop began, and
`worst`. -/
structure Monitor where
  pc : MonitorPc
  i : ℕ
  n : ℕ
  worst : ℕ
  /-- What the last call has returned. -/
  result : Option ℕ
  deriving DecidableEq, Repr

namespace Monitor

/-- Before the first call. -/
def start : Monitor := ⟨.idle, 0, 0, 0, none⟩

/-- A call: the loop takes `begin()` and `end()` of `active_list_`. -/
def call (b : Bus) : Monitor := ⟨.element, 0, b.book.activeList.length, 0, none⟩

/-- The next load.  An element that `rebuild_active_list` has cleared and not yet written again is
that of an earlier list, given by `k`. -/
def step (b : Bus) (k : ℕ) (m : Monitor) : Option Monitor :=
  match m.pc with
  | .idle => none
  | .element =>
      if m.i < m.n then some { m with pc := .head (b.book.activeList.getD m.i k) }
      else some { m with pc := .idle, result := some m.worst }
  | .head s => some { m with pc := .tail s (b.slot s).dataHead }
  | .tail s head =>
      let queued := u64Sub head (b.slot s).dataTail
      some { m with
        pc := .element
        i := m.i + 1
        worst := if queued > m.worst then queued % 2 ^ 32 else m.worst }

end Monitor

/-- The service and the thread beside it. -/
structure Watched where
  sys : Sys
  mon : Monitor
  /-- The most entries that each queue has held since `max_queued` was called. -/
  peak : ℕ → ℕ

inductive WatchEvent where
  /-- A step of the service. -/
  | service (e : Event)
  /-- `max_queued` is called. -/
  | call
  /-- A step of `max_queued`. -/
  | step (k : ℕ)

/-- The entries in the queue of a slot: those that were pushed, and neither evicted nor taken. -/
def Ledger.waiting (l : Ledger) : ℕ := l.pushed.length - (l.evicted.length + l.taken.length)

/-- The next state. -/
def Watched.next (x : Watched) : WatchEvent → Option Watched
  | .service e => (x.sys.next e).map fun t =>
      { x with sys := t, peak := fun s => max (x.peak s) (t.bus.led s).waiting }
  | .call =>
      if x.mon.pc = .idle then
        some { x with mon := .call x.sys.bus, peak := fun s => (x.sys.bus.led s).waiting }
      else none
  | .step k => (x.mon.step x.sys.bus k).map fun m => { x with mon := m }

/-- **A service whose queues are watched.** -/
def watched : Machine Watched WatchEvent where
  init x := service.init x.sys ∧ x.mon = .start ∧ x.peak = fun _ => 0
  next := Watched.next

/-! ## Pressure -/

/-- The value of a `uint32_t` as a `float`: 24 significant bits, rounded to nearest, ties to
even. -/
def toFloat (n : ℕ) : ℕ :=
  let e := Nat.log2 n - 23
  let q := n / 2 ^ e
  let r := n % 2 ^ e
  if 2 * r > 2 ^ e ∨ 2 * r = 2 ^ e ∧ q % 2 = 1 then (q + 1) * 2 ^ e else q * 2 ^ e

/-- A number of up to 24 bits is a `float`. -/
theorem toFloat_of_lt {n : ℕ} (h : n < 2 ^ 24) : toFloat n = n := by
  have he : Nat.log2 n - 23 = 0 := by
    rcases Nat.eq_zero_or_pos n with rfl | hpos
    · rfl
    · have := (Nat.log2_lt (Nat.pos_iff_ne_zero.mp hpos)).mpr h
      omega
  simp only [toFloat, he, pow_zero, Nat.mod_one, Nat.div_one, Nat.mul_one]
  exact if_neg (by omega)

/-- `pressure`; the quotient by a power of two is exact. -/
def pressure (capacity worst : ℕ) : ℚ := toFloat worst / toFloat capacity

/-! ## Conditions on runs -/

/-- If `max_queued` is between its two loads of a slot, the step neither stores `data_head` of that
slot nor begins to take the slot back. -/
def Clear (pc : MonitorPc) (b d : Bus) : Prop :=
  match pc with
  | .tail s _ => (d.slot s).dataHead = (b.slot s).dataHead ∧ (d.led s).stage ≠ .reset
  | _ => True

instance (b d : Bus) : (pc : MonitorPc) → Decidable (Clear pc b d)
  | .tail _ _ => inferInstanceAs (Decidable (_ ∧ _))
  | .idle | .element | .head _ => isTrue trivial

/-- If `max_queued` is about to load `data_head` of a slot, the slot is not being taken back. -/
def Settled (pc : MonitorPc) (b : Bus) : Prop :=
  match pc with
  | .head s => (b.led s).stage ≠ .reset
  | _ => True

instance (b : Bus) : (pc : MonitorPc) → Decidable (Settled pc b)
  | .head _ => inferInstanceAs (Decidable (¬ _))
  | .idle | .element | .tail _ _ => isTrue trivial

/-- The publisher leaves a slot alone from the load of its `data_head` to that of its `data_tail`,
and `check_liveness` gives up no slot whose claimer is alive. -/
def Undisturbed (x : Watched) : WatchEvent → Prop
  | .service e => Patient x.sys e ∧ ∀ t ∈ x.sys.next e, Clear x.mon.pc x.sys.bus t.bus
  | .call => True
  | .step _ => Settled x.mon.pc x.sys.bus

instance (x : Watched) : (e : WatchEvent) → Decidable (Undisturbed x e)
  | .service _ => inferInstanceAs (Decidable (_ ∧ _))
  | .call => isTrue trivial
  | .step _ => inferInstanceAs (Decidable (Settled _ _))

/-! ## The invariant -/

/-- A step of the service is the publisher's, or one that the publisher sees as the subscribers'. -/
theorem SysInv.moves {calm : Prop} {R : ℕ → Prop} {s s' : Sys} {e : Event} (inv : SysInv calm R s)
    (hpatient : calm ∨ Patient s e) (h : s.next e = some s') :
    PubMove s.bus.toCore s'.bus.toCore ∨ SubsMove s.bus.toCore s'.bus.toCore := by
  cases Sys.step_of_next h with
  | publisher hs =>
      exact .inl (Prog.wp_step inv.pub ⟨inv.good, inv.noClaim⟩ hs
        (hpatient.imp_right fun hp => hp _ h)).2.1
  | subscriber halive hs =>
      have guar := (Prog.wp_step (inv.sub _ halive) ⟨inv.good, halive⟩ hs trivial).2.1
      exact .inr (guar.move.move inv.good halive)
  | call => exact .inr (SubsMove.refl _)
  | callSub => exact .inr (SubsMove.refl _)
  | join => exact .inr ⟨rfl, rfl, rfl, rfl, rfl, fun _ h => h, fun _ => SlotMove.refl _ _,
      fun _ _ => ⟨rfl, rfl⟩⟩
  | outside hout => exact .inr hout.move

/-- What is in a queue is what its indices say. -/
theorem Matches.waiting {h : Header} {w : SlotWords} {l : Ledger} {out : ℕ → ℕ}
    (m : Matches h w l out) : l.waiting = w.dataHead - w.dataTail := by
  have hfate := m.fate.length_eq
  have htail := m.tail_le
  rw [List.length_append, List.length_take, Nat.min_eq_left htail] at hfate
  unfold Ledger.waiting
  rw [m.head]
  omega

/-- The value `w` is within the capacity, and some queue has been that full. -/
def Watched.Held (x : Watched) (w : ℕ) : Prop :=
  w ≤ x.sys.bus.hdr.queueCapacity ∧ ∃ s, w ≤ x.peak s

/-- The service is in order; what `max_queued` has loaded is still there; and what it has found
and returned was in a queue. -/
structure WatchInv (x : Watched) : Prop where
  sys : SysInv False (fun _ => False) x.sys
  small : x.sys.bus.hdr.queueCapacity ≤ 65535
  peak : ∀ s, (x.sys.bus.led s).waiting ≤ x.peak s
  loaded : ∀ s head, x.mon.pc = .tail s head →
    (x.sys.bus.slot s).dataHead = head ∧ (x.sys.bus.led s).stage ≠ .reset
  worst : x.Held x.mon.worst
  result : ∀ w, x.mon.result = some w → x.Held w

namespace WatchInv

variable {x y : Watched}

theorem init (h : watched.init x) : WatchInv x := by
  obtain ⟨hinit, hmon, hpeak⟩ := h
  have hsys := SysInv.init (fun _ => False) hinit
  obtain ⟨cfg, typeSize, typeAlign, l, pid, now, hsubs, hbudget, hl, -, hx⟩ := hinit
  refine ⟨hsys, ?_, fun s => ?_, fun s head hpc => ?_, ⟨?_, 0, ?_⟩, fun w hw => ?_⟩
  · obtain ⟨l', hl', hqueue, -⟩ := Layout.computeLayout_exact typeSize typeAlign hsubs hbudget
    obtain rfl : l' = l := Option.some.inj (hl'.symm.trans hl)
    have hcap := Layout.queue_le_budget hsubs
    rw [hx]
    show l'.queueCapacity.toNat ≤ _
    omega
  · rw [hx]
    exact Nat.zero_le _
  · rw [hmon] at hpc
    cases hpc
  · rw [hmon]
    exact Nat.zero_le _
  · rw [hmon]
    exact Nat.zero_le _
  · rw [hmon] at hw
    cases hw

/-- A step of the service. -/
theorem service {e : Event} (inv : WatchInv x) (hok : Undisturbed x (.service e))
    (h : x.next (.service e) = some y) : WatchInv y := by
  obtain ⟨t, ht, rfl⟩ := Option.map_eq_some_iff.mp h
  obtain ⟨hpatient, hclear⟩ := hok
  have hhdr : t.bus.hdr = x.sys.bus.hdr := by
    rcases inv.sys.moves (.inr hpatient) ht with m | m
    · exact m.hdr
    · exact m.hdr
  have hheld : ∀ {w : ℕ}, x.Held w → Watched.Held ⟨t, x.mon, fun s =>
      max (x.peak s) (t.bus.led s).waiting⟩ w := by
    rintro w ⟨hcap, s, hs⟩
    exact ⟨hhdr ▸ hcap, s, Nat.le_trans hs (Nat.le_max_left _ _)⟩
  refine ⟨inv.sys.next False.elim (.inr hpatient) recording_none ht, hhdr ▸ inv.small,
    fun s => Nat.le_max_right _ _, fun s head hpc => ?_, hheld inv.worst,
    fun w hw => hheld (inv.result w hw)⟩
  -- between the two loads the slot is left alone: its head is still the one that was loaded
  have hslot := hclear t ht
  rw [show x.mon.pc = .tail s head from hpc] at hslot
  exact ⟨hslot.1.trans (inv.loaded s head hpc).1, hslot.2⟩

/-- `max_queued` is called. -/
theorem call (inv : WatchInv x) (h : x.next .call = some y) : WatchInv y := by
  dsimp only [Watched.next] at h
  split_ifs at h
  cases h
  exact ⟨inv.sys, inv.small, fun _ => Nat.le_refl _, fun _ _ hpc => MonitorPc.noConfusion hpc,
    ⟨Nat.zero_le _, 0, Nat.zero_le _⟩, fun _ hw => nomatch hw⟩

/-- What `max_queued` finds in a slot that is left alone is what the queue holds. -/
theorem queued {s head : ℕ} (inv : WatchInv x) (hpc : x.mon.pc = .tail s head) :
    x.Held (u64Sub head (x.sys.bus.slot s).dataTail) := by
  obtain ⟨rfl, hstage⟩ := inv.loaded s head hpc
  have m := (inv.sys.good.slot s).ledger hstage
  have hhead := m.head
  have htail := m.tail_le
  have hfull := m.queue_le
  have hsmall := inv.small
  rw [u64Sub_eq (by omega) (by omega), ← m.waiting]
  refine ⟨?_, s, inv.peak s⟩
  rw [m.waiting]
  omega

/-- A step of `max_queued`. -/
theorem step {k : ℕ} (inv : WatchInv x) (hok : Undisturbed x (.step k))
    (h : x.next (.step k) = some y) : WatchInv y := by
  obtain ⟨m, hm, rfl⟩ := Option.map_eq_some_iff.mp h
  unfold Monitor.step at hm
  cases hpc : x.mon.pc with
  | idle =>
      rw [hpc] at hm
      cases hm
  | element =>
      rw [hpc] at hm
      dsimp only at hm
      split_ifs at hm <;> cases hm
      · exact ⟨inv.sys, inv.small, inv.peak, fun _ _ hpc => MonitorPc.noConfusion hpc, inv.worst,
          inv.result⟩
      · refine ⟨inv.sys, inv.small, inv.peak, fun _ _ hpc => MonitorPc.noConfusion hpc, inv.worst,
          fun w hw => ?_⟩
        cases hw
        exact inv.worst
  | head s =>
      rw [hpc] at hm
      cases hm
      have hsettled : Settled x.mon.pc x.sys.bus := hok
      rw [hpc] at hsettled
      refine ⟨inv.sys, inv.small, inv.peak, fun s' head hpc' => ?_, inv.worst, inv.result⟩
      cases hpc'
      exact ⟨rfl, hsettled⟩
  | tail s head =>
      rw [hpc] at hm
      cases hm
      have hqueued := inv.queued hpc
      refine ⟨inv.sys, inv.small, inv.peak, fun _ _ hpc => MonitorPc.noConfusion hpc, ?_,
        inv.result⟩
      dsimp only
      -- the cast to `uint32_t` loses nothing, since the capacity fits
      split_ifs
      · have := hqueued.1
        have := inv.small
        rw [Nat.mod_eq_of_lt (by omega)]
        exact hqueued
      · exact inv.worst

/-- The invariant holds in every such run. -/
theorem of_reach (h : watched.Reach Undisturbed x) : WatchInv x := by
  refine h.invariant (fun _ => init) fun x e y inv hok hn => ?_
  cases e with
  | service e => exact inv.service hok hn
  | call => exact inv.call hn
  | step k => exact inv.step hok hn

end WatchInv

/-! ## Pressure is occupancy -/

/-- What `max_queued` returns is within the capacity, so the pressure is a fraction of it; and an
early warning is due to the age of the samples or to a queue that has been as full as that since
the call began. -/
def Watched.Truthful (x : Watched) : Prop :=
  ∀ w, x.mon.result = some w →
    w ≤ x.sys.bus.hdr.queueCapacity ∧ 0 ≤ pressure x.sys.bus.hdr.queueCapacity w ∧
      pressure x.sys.bus.hdr.queueCapacity w ≤ 1 ∧
      ∀ maxAgeUs ageEwmaNs maxPressure,
        earlyWarning maxAgeUs ageEwmaNs maxPressure
            (some (pressure x.sys.bus.hdr.queueCapacity w)) = true →
          ageAbove maxAgeUs ageEwmaNs = true ∨
            ∃ s, maxPressure < (x.peak s : ℚ) / x.sys.bus.hdr.queueCapacity

/-- **Pressure is occupancy**, in every run in which the publisher leaves a slot alone from the
load of its `data_head` to that of its `data_tail`. -/
theorem pressure_is_occupancy {x : Watched} (h : watched.Reach Undisturbed x) : x.Truthful := by
  have inv := WatchInv.of_reach h
  intro w hw
  obtain ⟨hcap, s, hs⟩ := inv.result w hw
  have hsmall := inv.small
  have hpos : (0 : ℚ) < x.sys.bus.hdr.queueCapacity := by
    obtain ⟨k, hk⟩ := inv.sys.good.exact.queue_pow
    rw [hk]
    exact Nat.cast_pos.mpr (Nat.two_pow_pos k)
  have hpressure :
      pressure x.sys.bus.hdr.queueCapacity w = (w : ℚ) / x.sys.bus.hdr.queueCapacity := by
    unfold pressure
    rw [toFloat_of_lt (by omega), toFloat_of_lt (by omega)]
  rw [hpressure]
  refine ⟨hcap, div_nonneg (Nat.cast_nonneg w) hpos.le,
    div_le_one_of_le₀ (Nat.cast_le.mpr hcap) hpos.le, ?_⟩
  · intro maxAgeUs ageEwmaNs maxPressure hwarn
    simp only [earlyWarning, pressureAbove, Option.any_some, Bool.or_eq_true, Bool.and_eq_true,
      decide_eq_true_eq] at hwarn
    refine hwarn.imp_right fun hwarn => ⟨s, hwarn.2.trans_le ?_⟩
    exact div_le_div_of_nonneg_right (Nat.cast_le.mpr hs) hpos.le

/-! ### A queue of eight entries -/

/-- One subscriber with a queue of eight entries. -/
def deepConfig : ServiceConfig := ⟨1, 8, 1, 1, 0⟩

/-- Its publisher is process 5; the time is 1. -/
def deep : Sys :=
  match Layout.computeLayout deepConfig 8 8 with
  | some l => Sys.create deepConfig l 5 1
  | none => Sys.create deepConfig ⟨0, 0, 0, 0, 0, 0, 0, 0, 0, 0⟩ 5 1

theorem deep_init : watched.init ⟨deep, .start, fun _ => 0⟩ :=
  ⟨⟨deepConfig, 8, 8, _, 5, 1, by decide, by decide, rfl, by decide, rfl⟩, rfl, rfl⟩

/-- The subscriber joins, and the first `send` has onboarded it. -/
def onboarding : List Event :=
  List.flatten [joining .dropOldest 0, [.loan], publisherSteps 5, [.send 0], publisherSteps 20]

/-- A measurement after the first sample has been sent finds one entry. -/
theorem pressure_is_occupancy_one : ∃ x, watched.Reach Undisturbed x ∧ x.mon.result = some 1 ∧
    x.Truthful := by
  obtain ⟨x, hx, hresult⟩ : ∃ x, watched.Reach Undisturbed x ∧ x.mon.result = some 1 :=
    Machine.exists_reach_of_exec ((onboarding ++ publisherSteps 9).map .service ++
      [.call, .step 0, .step 0, .step 0, .step 0]) deep_init (by decide +kernel)
  exact ⟨x, hx, hresult, pressure_is_occupancy hx⟩

/-- **An empty queue raises the alarm.**  `max_queued` loads `data_head`, then the publisher pushes
the first sample and the subscriber takes it: the queue has never held more than one of its eight
entries, but `max_queued` returns `2^32 - 1`, and the pressure is `2^29` where 1 is the most that
it should be. -/
theorem empty_queue_alarms : ∃ x, watched.Reach Machine.Always x ∧
    x.sys.bus.hdr.maxSubscribers = 1 ∧ x.sys.bus.hdr.queueCapacity = 8 ∧ x.peak 0 = 1 ∧
    x.mon.result = some (2 ^ 32 - 1) ∧
    pressure 8 (2 ^ 32 - 1) = 2 ^ 29 ∧ earlyWarning 0 0 1 (some (2 ^ 29)) = true ∧
    ¬x.Truthful := by
  obtain ⟨x, hx, hsubs, hcap, hpeak, hresult⟩ : ∃ x, watched.Reach Machine.Always x ∧
      x.sys.bus.hdr.maxSubscribers = 1 ∧ x.sys.bus.hdr.queueCapacity = 8 ∧ x.peak 0 = 1 ∧
      x.mon.result = some (2 ^ 32 - 1) :=
    Machine.exists_reach_of_exec (List.flatten [onboarding.map .service,
      [.call, .step 0, .step 0],
      (publisherSteps 9 ++ [Event.tryReceive 0] ++ subscriberSteps 0 9).map .service,
      [.step 0, .step 0]]) deep_init (by decide +kernel)
  refine ⟨x, hx, hsubs, hcap, hpeak, hresult, by decide +kernel, by decide +kernel,
    fun ht => ?_⟩
  have hle := (ht _ hresult).1
  rw [hcap] at hle
  exact absurd hle (by decide)

end Devbus
