/-
# Refusals of the driver

What the callers of `Device` believe when the driver refuses a write.  The supervisor that makes the
calls is the one of `Supervisor`, applying events by `applyRound`; here the driver decides how each
of its writes to `control` ends (`Driven`).  A call that returns is taken for a write that was
accepted, and `Running` is published (`Publishes`), but `write_sysfs` has returned before the store
callback is asked.

`refusals_reported_iff` says for each caller when the belief is right: exactly if there is no
refusal, or the attribute cannot be opened at all.
-/
import DevicePlatform.DeviceService.Agreement
import DevicePlatform.DeviceService.Backpressure
import Mathlib.Data.Set.Defs

namespace DeviceService

/-! ## The service and the driver -/

/-- `start_acquisition` or `stop_acquisition`. -/
def Device.control (k : Kernel) (v : Bool) : Call :=
  if v then startAcquisition k else stopAcquisition k

/-- A call that writes `control`. -/
structure ControlCall where
  value : Bool
  call : Call

/-- The write as the supervisor sees it. -/
def ControlCall.seen (c : ControlCall) : ControlWrite := ⟨c.value, c.call.returned⟩

/-- The service, and the calls of `Device` that its supervisor has made. -/
structure Driven where
  run : Running
  calls : List ControlCall

namespace Driven

/-- A step of the service.  If the supervisor writes `control`, call `i` meets `K i`, which decides
whether the call returns, and whether the write reaches the MCU. -/
def next (K : ℕ → Kernel) (x : Driven) (e : Happening) : Option Driven :=
  (x.run.next e).bind fun r =>
    match r.svc.writes.drop x.run.svc.writes.length with
    | [] => some { x with run := r }
    | w :: _ =>
        let call := Device.control (K x.calls.length) w.value
        if call.returned = w.ok then
          some ⟨{ r with svc := { r.svc with
              pipeline := if call.accepted then r.svc.pipeline else x.run.svc.pipeline } },
            x.calls ++ [⟨w.value, call⟩]⟩
        else none

/-- Nobody but recovery posts `Recovered`. -/
def Unforged (x : Driven) (e : Happening) : Prop := DeviceService.Unforged x.run e

instance (x : Driven) (e : Happening) : Decidable (Unforged x e) :=
  inferInstanceAs (Decidable (DeviceService.Unforged x.run e))

end Driven

/-- The device service on a driver that answers call `i` as `K i`. -/
def driven (K : ℕ → Kernel) : Machine Driven Happening where
  init x := deviceService.init x.run ∧ x.calls = []
  next := Driven.next K

/-- Whenever `Running` is published, the last call was a `start_acquisition` that the store callback
has accepted. -/
def RunsAccepted (K : ℕ → Kernel) : Prop :=
  ∀ x e y, (driven K).Reach Driven.Unforged x → x.Unforged e → x.next K e = some y →
    x.run.svc.state ≠ .running → y.run.svc.state = .running →
    ∃ c, y.calls.getLast? = some ⟨true, c⟩ ∧ c.accepted = true

/-! ## What the supervisor sees -/

section Steps

variable {own fresh : Prop} {x y : Running} {e : Happening}

/-- A step publishes `Running` only after a `control=1` that has returned, and makes at most one
call. -/
theorem Inv.publishes (inv : Inv own fresh x) (hpost : own → Unforged x e)
    (hfresh : fresh → Fresh x e) (h : x.next e = some y) :
    Publishes own x.svc y.svc ∧
      (y.svc.writes = x.svc.writes ∨ ∃ w, y.svc.writes = x.svc.writes ++ [w]) := by
  cases e with
  | supervisor n =>
      obtain ⟨⟨p, s⟩, hs, rfl⟩ := Option.map_eq_some_iff.mp h
      refine ⟨(Prog.wp_step inv.thread inv.sane hs trivial).2.1, ?_⟩
      rcases (Prog.within_step inv.frame hs).1 with rfl | hacts
      · exact .inl rfl
      · exact hacts.writes
  | dequeue =>
      dsimp only [Running.next] at h
      split at h
      · split at h <;> cases h
        exact ⟨.of_same rfl, .inl rfl⟩
      · cases h
  | idle =>
      dsimp only [Running.next] at h
      split at h <;> cases h
      exact ⟨.of_same rfl, .inl rfl⟩
  | post | tick | sample | fetch | store | lose | workerRead | workerCount | workerLoad
    | workerObserve | workerDie =>
      obtain ⟨-, -, hothers, -⟩ := inv.aside hpost hfresh ⟨nofun, nofun, nofun⟩ h
      exact ⟨.of_same hothers.state, .inl hothers.writes⟩

/-- What the driver makes of the pipeline does not concern the supervisor. -/
theorem Inv.of_pipeline (inv : Inv own fresh x) (p : Pipeline) :
    Inv own fresh { x with svc := { x.svc with pipeline := p } } := by
  have hsane : Sane own { x.svc with pipeline := p } :=
    ⟨inv.sane.stop, inv.sane.counted, inv.sane.genuine⟩
  have hothers : Others fresh x.svc { x.svc with pipeline := p } :=
    ⟨rfl, rfl, rfl, rfl, rfl, rfl, List.Subset.refl _, Nat.le_refl _, id, [],
      (List.append_nil _).symm, fun _ _ _ he => nomatch he⟩
  exact ⟨hsane, Prog.wp_rely (fun _ _ _ ha hr _ => ha.rely hr) inv.thread hothers hsane, inv.frame⟩

end Steps

namespace Driven

variable {K : ℕ → Kernel} {x y : Driven} {e : Happening}

/-- The supervisor has seen every call, as the driver has answered it. -/
structure Inv (K : ℕ → Kernel) (x : Driven) : Prop where
  run : DeviceService.Inv True False x.run
  seen : x.run.svc.writes = x.calls.map ControlCall.seen
  answered : ∀ c ∈ x.calls, ∃ i, c.call = Device.control (K i) c.value

/-- **Step lemma.** -/
theorem Inv.next (inv : x.Inv K) (hok : x.Unforged e) (hn : x.next K e = some y) :
    y.Inv K ∧ Publishes True x.run.svc y.run.svc := by
  obtain ⟨r, hr, hy⟩ := Option.bind_eq_some_iff.mp hn
  have hrun : DeviceService.Inv True False r := inv.run.next (fun _ => hok) False.elim hr
  obtain ⟨hpublishes, hwrites⟩ := inv.run.publishes (fun _ => hok) False.elim hr
  rcases hwrites with hw | ⟨w, hw⟩
  · rw [hw, List.drop_length] at hy
    cases hy
    exact ⟨⟨hrun, hw.trans inv.seen, inv.answered⟩, hpublishes⟩
  · rw [hw, List.drop_left] at hy
    dsimp only at hy
    split at hy <;> cases hy
    rename_i hreturned
    refine ⟨⟨hrun.of_pipeline _, ?_, fun c hc => ?_⟩, hpublishes⟩
    · rw [List.map_append, ← inv.seen]
      refine hw.trans (congrArg (x.run.svc.writes ++ [·]) ?_)
      rw [ControlCall.seen, hreturned]
    · rcases List.mem_append.mp hc with hc | hc
      · exact inv.answered c hc
      · rw [List.mem_singleton.mp hc]
        exact ⟨_, rfl⟩

theorem Inv.of_reach (h : (driven K).Reach Unforged x) : x.Inv K := by
  refine h.invariant (P := fun x => x.Inv K) ?_ fun _ _ _ inv hok hn => (inv.next hok hn).1
  rintro ⟨run, calls⟩ ⟨hinit, rfl⟩
  refine ⟨.of_init hinit, ?_, fun c hc => nomatch hc⟩
  obtain ⟨cfg, p, clock, -, rfl⟩ := hinit
  rfl

/-- The last call was a `start_acquisition` that has returned. -/
theorem Inv.last_call (inv : x.Inv K) (h : x.run.svc.writes.getLast? = some ⟨true, true⟩) :
    ∃ i, x.calls.getLast? = some ⟨true, Device.startAcquisition (K i)⟩ ∧
      (Device.startAcquisition (K i)).returned = true := by
  rw [inv.seen, List.getLast?_map] at h
  obtain ⟨⟨v, c⟩, hlast, hseen⟩ := Option.map_eq_some_iff.mp h
  obtain ⟨i, hi⟩ := inv.answered _ (List.mem_of_getLast? hlast)
  obtain ⟨rfl, hreturned⟩ := ControlWrite.mk.inj hseen
  have hcall : c = Device.startAcquisition (K i) := hi
  subst hcall
  exact ⟨i, hlast, hreturned⟩

end Driven

/-! ## Refusals -/

/-- `Running` is published only after an accepted `control=1` exactly if no call of
`start_acquisition` that reaches the store callback is refused. -/
theorem runsAccepted_iff (S : Set Kernel) :
    (∀ K : ℕ → Kernel, (∀ i, K i ∈ S) → RunsAccepted K) ↔
      ∀ k ∈ S, (Device.startAcquisition k).Reported := by
  constructor
  · rintro h ⟨opens, regWrite⟩ hk hreturned
    cases opens with
    | false => cases hreturned
    | true =>
        -- the service is started, and the call returns whatever the callback answers
        let K : ℕ → Kernel := fun _ => ⟨true, regWrite⟩
        have hx : (driven K).exec Driven.Unforged ⟨Running.start smallConfig (leftover 0) 0, []⟩
            (List.flatten [[.post .initOk, .post .start, .dequeue], steps 3, [.dequeue], steps 4]) =
              some _ := rfl
        have hready : State.ready ≠ .running := State.noConfusion
        obtain ⟨c, hlast, haccepted⟩ := h K (fun _ => hk) _ (.supervisor 0) _
          (Machine.reach_of_exec ⟨leftover_init 0, rfl⟩ hx) Happening.noConfusion rfl hready rfl
        cases hlast
        exact haccepted
  · intro h K hK x e y hx hok hn hstate hrunning
    obtain ⟨inv, hpublishes⟩ := (Driven.Inv.of_reach hx).next hok hn
    obtain ⟨i, hlast, hreturned⟩ := inv.last_call (hpublishes trivial hstate hrunning)
    exact ⟨_, hlast, h (K i) (hK i) hreturned⟩

/-- **A refused write is reported exactly when there is nothing to report.**  A call of `Device`
returns only if the store callback accepted the value; the supervisor publishes `Running`, from
`Ready`, `Paused` or `Recovering`, only after an accepted `control=1`; and the controller logs only
a rate that was applied: each of these holds if and only if the attribute cannot be opened or the
callback accepts.  For the supervisor `S` is the set of answers that the driver chooses from at each
call. -/
theorem refusals_reported_iff (k : Kernel) (hz : BitVec 32) (S : Set Kernel) :
    ((Device.startAcquisition k).Reported ↔
      k.opens = false ∨ k.regWrite regControl 1 = .ok ()) ∧
    ((Device.stopAcquisition k).Reported ↔
      k.opens = false ∨ k.regWrite regControl 0 = .ok ()) ∧
    ((Device.writeSampleRate k hz).Reported ↔
      k.opens = false ∨ 1 ≤ hz ∧ hz ≤ 10000 ∧ k.regWrite regSampleRate hz = .ok ()) ∧
    ((∀ K : ℕ → Kernel, (∀ i, K i ∈ S) → RunsAccepted K) ↔
      ∀ k ∈ S, k.opens = false ∨ k.regWrite regControl 1 = .ok ()) ∧
    ((∀ cfg c w congestion currentHz, w.kernel = k →
        (Controller.checkOnce cfg c w).2 = .changed congestion currentHz hz →
        (Device.writeSampleRate k hz).accepted = true) ↔
      k.opens = false ∨ 1 ≤ hz ∧ hz ≤ 10000 ∧ k.regWrite regSampleRate hz = .ok ()) := by
  have hstart : ∀ k, (Device.startAcquisition k).Reported ↔
      k.opens = false ∨ k.regWrite regControl 1 = .ok () :=
    fun _ => Device.writeControl_reported 1
  have hstop : (Device.stopAcquisition k).Reported ↔
      k.opens = false ∨ k.regWrite regControl 0 = .ok () :=
    Device.writeControl_reported 0
  refine ⟨hstart k, hstop, Device.writeSampleRate_reported hz, ?_, ?_⟩
  · rw [runsAccepted_iff]
    exact forall₂_congr fun k _ => hstart k
  · rw [← Device.writeSampleRate_reported]
    constructor
    · intro h hret
      exact h _ _ ⟨some 0, true, some (hz + 1), k⟩ _ _ rfl (changed_of_returned hret)
    · rintro h cfg c w congestion currentHz rfl hchanged
      exact h (returned_of_changed hchanged)

/-- `REG_CONTROL := 1` fails with `EIO`: `start_acquisition` returns, and the supervisor publishes
`Running`, though the driver has refused its only write. -/
theorem refused_start_published :
    let k : Kernel := ⟨true, fun _ _ => .error .eio⟩
    (Device.startAcquisition k).stored = some (.error .eio) ∧
      ¬(Device.startAcquisition k).Reported ∧
      ∃ x, (driven fun _ => k).Reach Driven.Unforged x ∧ x.run.svc.state = .running ∧
        x.calls.map (fun c => (c.value, c.call.returned, c.call.accepted)) =
          [(true, true, false)] := by
  refine ⟨by decide +kernel, by decide +kernel, ?_⟩
  exact Machine.exists_reach_of_exec
    (List.flatten [[.post .initOk, .post .start, .dequeue], steps 3, [.dequeue], steps 5])
    (s := ⟨Running.start smallConfig (leftover 0) 0, []⟩) ⟨leftover_init 0, rfl⟩
    (by decide +kernel)

end DeviceService
