/-
# Congestion and the counter that shows it

The rate controller looks at one counter of the driver, `kfifo_overflow`.  The driver documents
that the drops of the policies `newest` and `oldest` are counted there.  Its code counts a refused
sample in `kfifo_overflow`, and an evicted one in `policy_dropped`.

`LossWatch` is the device with the controller; `lost` counts the samples that were discarded
because the kfifo was full, since the controller last read the counter.

* `loss_classified`: a discarded sample moves `kfifo_overflow` if and only if the policy is not
  `oldest`; and in every run in which it is not when a sample is discarded, and in which fewer than
  2³² are discarded between two readings, every window with a loss is classified as `Loss`.
* `eviction_unseen`: under `oldest` the controller raises the rate in a window with a loss.
-/
import DevicePlatform.WakeUp
import DevicePlatform.DeviceService.Backpressure

namespace DeviceService

/-- The device, the controller, and the samples discarded since its last reading. -/
structure LossWatch where
  dev : AcqDev
  controller : Controller
  lost : ℕ

inductive LossEvent where
  | dev (e : AcqEvent)
  /-- `check_once`; `readable` says whether `kfifo_overflow` can be read. -/
  | check (readable warning : Bool) (sampleRate : Option (BitVec 32)) (kernel : Kernel)

namespace LossWatch

/-- One event. -/
def next (cfg : BackpressureConfig) (s : LossWatch) : LossEvent → Option LossWatch
  | .dev e => (s.dev.next e).map fun dev =>
      { s with dev := dev, lost := s.lost + (s.dev.discards e).toNat }
  | .check readable warning sampleRate kernel =>
      let overflow := if readable then some s.dev.drv.kfifoOverflow else none
      some { s with
        controller := (s.controller.checkOnce cfg ⟨overflow, warning, sampleRate, kernel⟩).1
        lost := if readable then 0 else s.lost }

/-- The device from probe, with a new controller. -/
def machine (cfg : BackpressureConfig) : Machine LossWatch LossEvent where
  init s := ∃ params, s = ⟨AcqDev.probe params, Controller.initial, 0⟩
  next := next cfg

/-- The condition on a step: a sample is discarded only if the policy is not `oldest`, and if fewer
than 2³² have been discarded since the last reading. -/
def Refusing (s : LossWatch) : LossEvent → Prop
  | .dev e => s.dev.discards e = true →
      s.dev.drv.params.getDropPolicy ≠ .oldest ∧ s.lost + 1 < 2 ^ 32
  | .check _ _ _ _ => True

instance (s : LossWatch) (e : LossEvent) : Decidable (s.Refusing e) := by
  unfold Refusing
  split <;> infer_instance

/-- `kfifo_overflow` has moved by the samples discarded since the controller has read it. -/
structure Inv (s : LossWatch) : Prop where
  small : s.lost < 2 ^ 32
  moved : ∀ last ∈ s.controller.reading,
    s.dev.drv.kfifoOverflow = last + BitVec.ofNat 32 s.lost

/-- Every event that meets the condition keeps the invariant. -/
theorem Inv.next {cfg : BackpressureConfig} {s s' : LossWatch} {e : LossEvent} (h : s.Inv)
    (hok : s.Refusing e) (hn : s.next cfg e = some s') : s'.Inv := by
  cases e with
  | dev e =>
      obtain ⟨dev, hdev, rfl⟩ := Option.map_eq_some_iff.mp hn
      cases hdiscards : s.dev.discards e with
      | true =>
          obtain ⟨hpolicy, hsmall⟩ := hok hdiscards
          refine ⟨hsmall, fun last hlast => ?_⟩
          dsimp only
          rw [(AcqDev.overflow_of_discards hdev hdiscards).mpr hpolicy, h.moved last hlast,
            Bool.toNat_true, BitVec.ofNat_add, BitVec.add_assoc]
          rfl
      | false =>
          refine ⟨h.small, fun last hlast => ?_⟩
          dsimp only
          rw [AcqDev.overflow_of_kept hdev hdiscards, h.moved last hlast]
          rfl
  | check readable warning sampleRate kernel =>
      cases hn
      cases readable with
      | false => exact ⟨h.small, h.moved⟩
      | true =>
          -- the reading becomes the baseline of the next window
          refine ⟨Nat.two_pow_pos 32, fun last hlast => ?_⟩
          dsimp only at hlast
          rw [Controller.reading_checkOnce] at hlast
          cases hlast
          exact (BitVec.add_zero _).symm

/-- **Every loss is seen while samples are refused.**  A discarded sample moves `kfifo_overflow` if
and only if the policy is not `oldest`.  In every run in which it is not when a sample is discarded,
with fewer than 2³² discarded between two readings, a check that reads the counter after a loss
classifies the window as `Loss`. -/
theorem loss_classified {cfg : BackpressureConfig} {s : LossWatch}
    (h : (machine cfg).Reach Refusing s) :
    (∀ e a, s.dev.next e = some a → s.dev.discards e = true →
      (a.drv.kfifoOverflow = s.dev.drv.kfifoOverflow + 1 ↔
        s.dev.drv.params.getDropPolicy ≠ .oldest)) ∧
    ∀ w : Window, w.overflow = some s.dev.drv.kfifoOverflow → s.controller.haveBaseline = true →
      0 < s.lost → (s.controller.checkOnce cfg w).2 = Controller.adjust cfg w .loss := by
  have hinv : s.Inv := by
    refine h.invariant ?_ fun _ _ _ hs hok hn => hs.next hok hn
    rintro _ ⟨params, rfl⟩
    exact ⟨Nat.two_pow_pos 32, nofun⟩
  refine ⟨fun e a hn hd => AcqDev.overflow_of_discards hn hd, ?_⟩
  intro w hw hbase hlost
  have hreading : s.controller.reading = some s.controller.lastOverflow := if_pos hbase
  refine Controller.checkOnce_of_ne hreading hw ?_
  have hsmall := hinv.small
  rw [hinv.moved _ hreading]
  bv_omega

/-- The device with 128 samples queued, and a controller that has its baseline. -/
def filled (policy : String) : List LossEvent :=
  [.dev (.setParams ⟨policy, 2, 0⟩), .check true false none accepting, .dev (.irq 0)] ++
    ((List.range 128).flatMap WakeLog.iteration).map .dev

/-- One more sample is refused, and the window classified as `Loss`. -/
theorem loss_classified_newest : ∃ s, (machine {}).Reach Refusing s ∧ s.lost = 1 ∧
    (s.controller.checkOnce {} ⟨some s.dev.drv.kfifoOverflow, false, some 1000, accepting⟩).2 =
      .changed .loss 1000 500 := by
  have hrun : ∃ s, (machine {}).Reach Refusing s ∧
      s.lost = 1 ∧ s.controller.haveBaseline = true :=
    Machine.exists_reach_of_exec (s := ⟨AcqDev.probe Params.default, Controller.initial, 0⟩)
      (filled "newest" ++ (WakeLog.iteration 128).map .dev) ⟨_, rfl⟩ (by decide +kernel)
  obtain ⟨s, hs, hlost, hbase⟩ := hrun
  refine ⟨s, hs, hlost, ?_⟩
  rw [(loss_classified hs).2 _ rfl hbase (by omega)]
  have hadjust : Controller.adjust {} ⟨none, false, some 1000, accepting⟩ .loss =
      .changed .loss 1000 500 := by decide +kernel
  exact hadjust

/-- Under `oldest` the queue gives a sample up; the controller finds its counter where it was, and
raises the rate. -/
theorem eviction_unseen : ∃ s, (machine {}).Reach Machine.Always s ∧ s.lost = 1 ∧
    s.controller.haveBaseline = true ∧ s.dev.drv.policyDropped = 1 ∧
      s.dev.drv.kfifoOverflow = 0 ∧
      (s.controller.checkOnce {} ⟨some s.dev.drv.kfifoOverflow, false, some 500, accepting⟩).2 =
        .changed .none 500 600 :=
  Machine.exists_reach_of_exec (s := ⟨AcqDev.probe Params.default, Controller.initial, 0⟩)
    (filled "oldest" ++ (WakeLog.iteration 128).map .dev) ⟨_, rfl⟩ (by decide +kernel)

end LossWatch

end DeviceService
