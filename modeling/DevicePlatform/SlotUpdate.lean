/-
# Updates that are tried before they are committed

Model of `device-platform-update` and `device-platform-healthcheck`
(`yocto/meta-device-platform-verity`) above `rauc-tryboot-backend` (`TrybootBackend.lean`).  An
update is written to the slot that is not running and booted once; the health check of the booted
system has the slot committed.  The two scripts may run at the same time, and a boot ends both of
them at any step, as a power cut does.

RAUC lies between the scripts and the backend, and is a parameter (`Rauc`): any two programs that
keep to what `Rauc.Orderly` says.  It processes one method at a time, changes files only through
the backend, `mark-good` writes no slot, and `install` writes only slots that are not running and
reports none good.

`committed_slot_healthy`: a plain boot runs what was committed at the beginning, or a slot whose
present content has passed the health check while it was running.  This needs updates to be
installed from the committed slot: one that is installed while another one is being tried would
replace the slot that the device falls back to.
-/
import DevicePlatform.TrybootBackend

namespace SlotUpdate

open TrybootBackend

/-! ## The scripts -/

/-- Who has RAUC do something. -/
inductive Party where
  | healthcheck
  | update
  deriving DecidableEq, Repr

/-- The content of a slot: the bundle it was written from, or nothing that is whole. -/
abbrev Image := Option ℕ

/-- A health check that has passed: the slot that was running, its content, and whether `/data`
was degraded. -/
structure Passed where
  slot : String
  image : Image
  degraded : Bool
  deriving DecidableEq, Repr

structure World where
  storage : Storage
  image : String → Image
  /-- For whom RAUC is processing a method. -/
  busy : Option Party
  /-- `/run/device-platform-data.degraded`. -/
  degraded : Bool
  /-- The health checks that have passed. -/
  passed : List Passed

/-- A command of the backend. -/
def backend (args : List String) : Prog World (Except String Text) :=
  (main args).zoom World.storage fun s w => { w with storage := s }

/-- RAUC, as the scripts see it: `true` if the command exits with 0. -/
structure Rauc where
  /-- `rauc install`. -/
  install : ℕ → Prog World Bool
  /-- `rauc status mark-good`. -/
  markGood : Prog World Bool

/-- The three tests of the health check. -/
def probe : Prog World Bool := do
  -- `systemctl is-active --quiet device-service`
  let active ← Prog.choose
  if active = 0 then return false
  else do
    -- `cat /sys/bus/spi/devices/spi0.0/device_id`
    let deviceId ← Prog.choose
    if deviceId ≠ 0xac00acc0 then return false
    else do
      -- `device-ctl status | grep -q '"state":"Running"'`
      let running ← Prog.choose
      return running ≠ 0

/-- The check has passed. -/
def World.pass (w : World) : World :=
  match w.storage.current with
  | .ok slot => { w with passed := ⟨slot, w.image slot, w.degraded⟩ :: w.passed }
  | .error _ => w

/-- `device-platform-healthcheck`; `true` if it exits with 0. -/
def healthcheck (rauc : Rauc) : Prog World Bool := do
  let degraded ← Prog.read World.degraded
  if degraded then return false
  else
    Prog.repeatUntil 1 fun i =>
      if i ≤ 60 then do
        let healthy ← probe
        if healthy then do
          Prog.write World.pass
          let good ← rauc.markGood
          return .inr good
        else return .inl (i + 1)
      else return .inr false

/-- `device-platform-update`; `true` if it comes to its reboot. -/
def update (rauc : Rauc) (bundle : ℕ) : Prog World Bool := rauc.install bundle

/-! ## What is assumed of RAUC -/

/-- RAUC begins to process a method for `p`, unless it is processing one. -/
def take (p : Party) : Prog World Bool :=
  Prog.update fun w => if w.busy = none then (true, { w with busy := some p }) else (false, w)

/-- RAUC has processed a method. -/
def release : Prog World Unit := Prog.write fun w => { w with busy := none }

/-- A program that has RAUC process a method for `p` while the slot `current` is running: between
`take` and `release` (`held`), and only there, it runs `commands` of the backend and changes the
world as `writes` allows. -/
inductive Method (p : Party) (current : Except String String) (commands : List String → Prop)
    (writes : World → World → Prop) : Bool → Prog World Bool → Prop
  | ret (b : Bool) : Method p current commands writes false (.ret b)
  | take {k : Bool → Prog World Bool} (taken : Method p current commands writes true (k true))
      (refused : Method p current commands writes false (k false)) :
      Method p current commands writes false (take p >>= k)
  | release {k : Unit → Prog World Bool} (rest : Method p current commands writes false (k ())) :
      Method p current commands writes true (release >>= k)
  | choose {held : Bool} {k : ℕ → Prog World Bool}
      (rest : ∀ n, Method p current commands writes held (k n)) :
      Method p current commands writes held (Prog.choose >>= k)
  | read {held : Bool} {β : Type} {g : World → β} {k : β → Prog World Bool}
      (rest : ∀ w, w.storage.current = current → Method p current commands writes held (k (g w))) :
      Method p current commands writes held (Prog.read g >>= k)
  | command {args : List String} {k : Except String Text → Prog World Bool}
      (allowed : commands args) (rest : ∀ r, Method p current commands writes true (k r)) :
      Method p current commands writes true (backend args >>= k)
  | write {g : World → World} {k : Unit → Prog World Bool}
      (allowed : ∀ w, w.storage.current = current → writes w (g w))
      (rest : Method p current commands writes true (k ())) :
      Method p current commands writes true (Prog.write g >>= k)

/-- Slots that are not running are written. -/
def Rewrites (u v : World) : Prop :=
  ∃ image, v = { u with image } ∧ ∀ slot, u.storage.current = .ok slot → image slot = u.image slot

/-- What is assumed of RAUC. -/
structure Rauc.Orderly (rauc : Rauc) : Prop where
  /-- `install` writes only slots that are not running, and reports none good. -/
  install : ∀ current bundle, Method .update current
    (fun args => ∀ slot, args ≠ ["set-state", slot, "good"]) Rewrites false (rauc.install bundle)
  /-- `mark-good` works through the backend only. -/
  markGood : ∀ current, Method .healthcheck current (fun _ => True) (fun _ _ => False) false
    rauc.markGood

/-! ## The machine -/

/-- The device with its two scripts. -/
structure Target where
  world : World
  healthcheck : Prog World Bool
  update : Prog World Bool

inductive Happening where
  | startHealthcheck
  | healthcheck (n : ℕ)
  | startUpdate (bundle : ℕ)
  | update (n : ℕ)
  /-- A boot, after a shutdown, a watchdog reset or a power cut; `/data` may be degraded. -/
  | boot (degraded : Bool)
  /-- A boot that tries a slot. -/
  | tryboot (degraded : Bool)

/-- The firmware has booted a partition. -/
def World.booted (w : World) (partition : BitVec 8) (degraded : Bool) : World :=
  { w with storage := { w.storage with partition }, busy := none, degraded }

/-- The next state. -/
def Target.next (rauc : Rauc) (fw : Firmware) (x : Target) : Happening → Option Target
  | .startHealthcheck =>
      if x.healthcheck.returned then some { x with healthcheck := SlotUpdate.healthcheck rauc }
      else none
  | .healthcheck n =>
      (x.healthcheck.step n x.world).map fun (p, w) => { x with world := w, healthcheck := p }
  | .startUpdate bundle =>
      if x.update.returned then some { x with update := SlotUpdate.update rauc bundle } else none
  | .update n => (x.update.step n x.world).map fun (p, w) => { x with world := w, update := p }
  | .boot degraded =>
      some ⟨x.world.booted (fw.partition x.world.storage.committed) degraded, .ret false,
        .ret false⟩
  | .tryboot degraded =>
      some ⟨x.world.booted (fw.partition (readAutoboot "tryboot" x.world.storage.autoboot))
        degraded, .ret false, .ret false⟩

/-- The device, with any content of its slots, of which one is committed. -/
def target (rauc : Rauc) (fw : Firmware) : Machine Target Happening where
  init x := (∃ slot part, partOf slot = .ok part ∧ x.world.storage.committed = part) ∧
    x.world.passed = [] ∧ x.healthcheck = .ret false ∧ x.update = .ret false
  next := Target.next rauc fw

/-- Updates are installed from the committed slot. -/
def FromCommitted (x : Target) : Happening → Prop
  | .startUpdate _ => x.world.storage.current = x.world.storage.primary
  | _ => True

instance (x : Target) (e : Happening) : Decidable (FromCommitted x e) := by
  cases e <;> unfold FromCommitted <;> infer_instance

/-! ## What the scripts do to each other -/

section Parties

variable {w₀ w u v : World} {p q : Party}

/-- The slot has the content it was committed with at the beginning, or it has passed the health
check with the content it has. -/
def Trusted (w₀ w : World) (slot : String) : Prop :=
  (w₀.storage.primary = .ok slot ∧ w.image slot = w₀.image slot) ∨
    ⟨slot, w.image slot, false⟩ ∈ w.passed

/-- The committed slot can be trusted. -/
def Sound (w₀ w : World) : Prop :=
  ∃ slot, partOf slot = .ok w.storage.committed ∧ Trusted w₀ w slot

/-- What the steps of `p` may do: nothing to the running slot, and nothing to the files while RAUC
works for somebody else. -/
structure Moves (p : Party) (u v : World) : Prop where
  partition : v.storage.partition = u.storage.partition
  degraded : v.degraded = u.degraded
  passed : u.passed ⊆ v.passed
  busy : ∀ q ≠ p, u.busy = some q → v.busy = some q ∧ v.storage = u.storage
  image : ∀ slot, u.storage.current = .ok slot → v.image slot = u.image slot
  committed : v.storage.committed = u.storage.committed ∨
    ∃ slot, u.storage.current = .ok slot ∧ partOf slot = .ok v.storage.committed

theorem Moves.current (h : Moves p u v) : v.storage.current = u.storage.current := by
  unfold Storage.current
  rw [h.partition]

theorem Moves.refl (p : Party) (w : World) : Moves p w w :=
  ⟨rfl, rfl, List.Subset.refl _, fun _ _ h => ⟨h, rfl⟩, fun _ _ => rfl, .inl rfl⟩

theorem Moves.trans (h : Moves p w u) (h' : Moves p u v) : Moves p w v := by
  constructor
  · rw [h'.partition, h.partition]
  · rw [h'.degraded, h.degraded]
  · exact List.Subset.trans h.passed h'.passed
  · intro q hq hbusy
    obtain ⟨hb, hs⟩ := h.busy q hq hbusy
    obtain ⟨hb', hs'⟩ := h'.busy q hq hb
    exact ⟨hb', hs'.trans hs⟩
  · intro slot hslot
    rw [h'.image slot (h.current.trans hslot), h.image slot hslot]
  · rcases h'.committed with heq | ⟨slot, hslot, hpart⟩
    · rw [heq]
      exact h.committed
    · exact .inr ⟨slot, h.current.symm.trans hslot, hpart⟩

/-- The other script. -/
def Party.other : Party → Party
  | .healthcheck => .update
  | .update => .healthcheck

theorem Party.ne_other (p : Party) : p ≠ p.other := by
  cases p <;> decide

/-- One of the scripts beside the other. -/
def beside (w₀ : World) (p : Party) : Protocol World where
  inv := Sound w₀
  rely := Moves p.other
  guar := Moves p
  assumed _ := True
  total := False
  rely_refl := Moves.refl p.other
  rely_trans := Moves.trans
  guar_refl := Moves.refl p

/-- `F` is a fact that neither script changes. -/
def Lasting (F : World → Prop) : Prop := ∀ p u v, Moves p u v → F u → F v

/-- The running slot has passed the health check. -/
def Checked (w : World) : Prop :=
  ∀ slot, w.storage.current = .ok slot → ⟨slot, w.image slot, false⟩ ∈ w.passed

/-- The running slot is the committed one. -/
def OnCommitted (w : World) : Prop :=
  ∃ slot, w.storage.current = .ok slot ∧ partOf slot = .ok w.storage.committed

theorem lasting_degraded : Lasting fun w => w.degraded = false := by
  intro p u v h hu
  rw [h.degraded, hu]

theorem lasting_checked : Lasting Checked := by
  intro p u v h hu slot hslot
  rw [h.current] at hslot
  rw [h.image slot hslot]
  exact h.passed (hu slot hslot)

theorem lasting_onCommitted : Lasting OnCommitted := by
  rintro p u v h ⟨slot, hslot, hpart⟩
  refine ⟨slot, h.current.trans hslot, ?_⟩
  rcases h.committed with heq | ⟨slot', hslot', hpart'⟩
  · rw [heq, hpart]
  · rw [hslot] at hslot'
    cases hslot'
    exact hpart'

/-- A change that does not touch the committed slot. -/
theorem Sound.of_same (h : Sound w₀ w) (hcommitted : v.storage.committed = w.storage.committed)
    (hpassed : w.passed ⊆ v.passed)
    (himage : ∀ slot, partOf slot = .ok w.storage.committed → v.image slot = w.image slot) :
    Sound w₀ v := by
  obtain ⟨slot, hpart, htrusted⟩ := h
  refine ⟨slot, hcommitted ▸ hpart, ?_⟩
  unfold Trusted
  rw [himage slot hpart]
  exact htrusted.imp_right fun h => hpassed h

end Parties

/-! ## The scripts keep to it -/

section Scripts

variable {w₀ w : World} {p : Party} {F : World → Prop}

/-- A command of the backend, while RAUC works for `p`.  If it reports the running slot good, the
slot must have been checked. -/
theorem backend_spec {args : List String} (hF : Lasting F)
    (hgood : ∀ slot, args = ["set-state", slot, "good"] → ∀ u, F u → Checked u)
    (hw : F w) (hbusy : w.busy = some p) :
    (backend args).wp (beside w₀ p) (fun _ u => F u ∧ u.busy = some p) w := by
  refine Prog.wp_mono (Prog.wp_zoom (π := script args) (fun u => F u ∧ u.busy = some p)
    False.elim (fun _ _ => rfl) ?_ (fun _ _ => trivial) (fun _ h => h) ?_ (main_spec args w.storage)
    ⟨hw, hbusy⟩) fun _ _ h => h.2
  · -- the other script leaves the files alone
    rintro u v ⟨hFu, hb⟩ hr -
    obtain ⟨hb', hs⟩ := hr.busy p p.ne_other hb
    exact ⟨⟨hF _ u v hr hFu, hb'⟩, hs.symm⟩
  · rintro u s ⟨hFu, hb⟩ hinv - hallowed
    have hmoves : Moves p u { u with storage := s } := by
      refine ⟨hallowed.partition, rfl, List.Subset.refl _, ?_, fun _ _ => rfl, ?_⟩
      · intro q hq hbq
        exact absurd (Option.some.inj (hbq.symm.trans hb)) hq
      · rcases hallowed.committed with heq | ⟨slot, -, hslot, hpart⟩
        · exact .inl heq
        · exact .inr ⟨slot, hslot, hpart⟩
    refine ⟨?_, hmoves, hF p u _ hmoves hFu, hb⟩
    rcases hallowed.committed with heq | ⟨slot, hargs, hslot, hpart⟩
    · exact hinv.of_same heq (List.Subset.refl _) fun _ _ => rfl
    · exact ⟨slot, hpart, .inr (hgood slot hargs u hFu slot hslot)⟩

/-- **A method of RAUC** keeps to the protocol, if its commands report the running slot good only
after it has been checked, and its writes spare the committed slot. -/
theorem Method.spec {current : Except String String} {commands : List String → Prop}
    {writes : World → World → Prop} {held : Bool} {prog : Prog World Bool}
    (h : Method p current commands writes held prog) (hF : Lasting F)
    (hcommands : ∀ slot, commands ["set-state", slot, "good"] → ∀ u, F u → Checked u)
    (hwrites : ∀ u v, F u → writes u v →
      Moves p u v ∧ v.busy = u.busy ∧ (Sound w₀ u → Sound w₀ v))
    (hw : F w) (hcurrent : w.storage.current = current) (hheld : held = true → w.busy = some p) :
    prog.wp (beside w₀ p) (fun _ _ => True) w := by
  -- what holds before a step of the program holds after the steps of the other script
  have hrely : ∀ {held : Bool} {w u : World}, F w → w.storage.current = current →
      (held = true → w.busy = some p) → (beside w₀ p).rely w u →
      F u ∧ u.storage.current = current ∧ (held = true → u.busy = some p) := by
    intro held w u hw hcurrent hheld hr
    exact ⟨hF _ w u hr hw, hr.current.trans hcurrent,
      fun hh => (hr.busy p p.ne_other (hheld hh)).1⟩
  induction h generalizing w with
  | ret b => trivial
  | take _ _ ihtaken ihrefused =>
      refine Prog.wp_update fun u hr hi _ => ?_
      obtain ⟨hu, hcur, -⟩ := hrely hw hcurrent hheld hr
      split
      · next hfree =>
        have hmoves : Moves p u { u with busy := some p } := by
          refine ⟨rfl, rfl, List.Subset.refl _, ?_, fun _ _ => rfl, .inl rfl⟩
          intro q _ hq
          rw [hfree] at hq
          cases hq
        exact ⟨hi, hmoves, ihtaken (hF p u _ hmoves hu) hcur fun _ => rfl⟩
      · exact ⟨hi, Moves.refl p u, ihrefused hu hcur Bool.noConfusion⟩
  | release _ ih =>
      refine Prog.wp_write fun u hr hi _ => ?_
      obtain ⟨hu, hcur, hbusy⟩ := hrely hw hcurrent hheld hr
      have hmoves : Moves p u { u with busy := none } := by
        refine ⟨rfl, rfl, List.Subset.refl _, ?_, fun _ _ => rfl, .inl rfl⟩
        intro q hq hbq
        exact absurd (Option.some.inj (hbq.symm.trans (hbusy rfl))) hq
      exact ⟨hi, hmoves, ih (hF p u _ hmoves hu) hcur Bool.noConfusion⟩
  | choose _ ih => exact Prog.wp_choose fun n => ih n hw hcurrent hheld
  | read _ ih =>
      refine Prog.wp_read fun u hr _ => ?_
      obtain ⟨hu, hcur, hbusy⟩ := hrely hw hcurrent hheld hr
      exact ih u hcur hu hcur hbusy
  | command allowed _ ih =>
      have hlasting : Lasting fun u => F u ∧ u.storage.current = current :=
        fun q u v hmoves hu => ⟨hF q u v hmoves hu.1, hmoves.current.trans hu.2⟩
      refine Prog.wp_seq (backend_spec hlasting ?_ ⟨hw, hcurrent⟩ (hheld rfl)) ?_
      · rintro slot rfl u hu
        exact hcommands slot allowed u hu.1
      · rintro r u ⟨⟨hu, hcur⟩, hbusy⟩
        exact ih r hu hcur fun _ => hbusy
  | write allowed _ ih =>
      refine Prog.wp_write fun u hr hi _ => ?_
      obtain ⟨hu, hcur, hbusy⟩ := hrely hw hcurrent hheld hr
      obtain ⟨hmoves, hsame, hsound⟩ := hwrites u _ hu (allowed u hcur)
      exact ⟨hsound hi, hmoves, ih (hF p u _ hmoves hu) (hmoves.current.trans hcur)
        fun hh => hsame.trans (hbusy hh)⟩

theorem markGood_spec {rauc : Rauc} (horderly : rauc.Orderly) (h : Checked w) :
    rauc.markGood.wp (beside w₀ .healthcheck) (fun _ _ => True) w :=
  (horderly.markGood _).spec lasting_checked (fun _ _ _ h => h) (fun _ _ _ h => h.elim) h rfl
    Bool.noConfusion

/-- The test has no effect. -/
theorem probe_spec (h : F w) : probe.wp (beside w₀ p) (fun _ => F) w := by
  refine Prog.wp_choose fun active => ?_
  split
  · exact h
  refine Prog.wp_choose fun deviceId => ?_
  split
  · exact h
  exact Prog.wp_choose fun running => h

theorem pass_moves (w : World) : Moves .healthcheck w w.pass := by
  unfold World.pass
  split
  · exact ⟨rfl, rfl, List.subset_cons_self _ _, fun _ _ h => ⟨h, rfl⟩, fun _ _ => rfl, .inl rfl⟩
  · exact Moves.refl _ w

theorem checked_pass (h : w.degraded = false) : Checked w.pass := by
  intro slot hslot
  rw [(pass_moves w).current] at hslot
  unfold World.pass
  rw [hslot, h]
  exact List.mem_cons_self

theorem sound_pass (h : Sound w₀ w) : Sound w₀ w.pass := by
  refine h.of_same ?_ (pass_moves w).passed ?_
  · unfold World.pass
    split <;> rfl
  · intro slot _
    unfold World.pass
    split <;> rfl

/-- **The health check** commits a slot only after the slot has passed it. -/
theorem healthcheck_spec {rauc : Rauc} (horderly : rauc.Orderly) :
    (healthcheck rauc).wp (beside w₀ .healthcheck) (fun _ _ => True) w := by
  refine Prog.wp_read fun u _ _ => ?_
  split
  · trivial
  next hdegraded =>
  have hu : u.degraded = false := Bool.not_eq_true _ ▸ hdegraded
  refine Prog.wp_last (Prog.wp_loop (fun _ v => v.degraded = false) id ?_ hu ?_)
  · exact fun _ a b h hr _ => lasting_degraded _ a b hr h
  intro i v hv
  split
  · refine Prog.wp_seq (probe_spec (F := fun v => v.degraded = false) hv) fun healthy a ha => ?_
    split
    · refine Prog.wp_write fun b hr hi _ => ?_
      have hb := lasting_degraded _ a b hr ha
      refine ⟨sound_pass hi, pass_moves b, ?_⟩
      exact Prog.wp_seq (markGood_spec horderly (checked_pass hb)) fun _ _ _ => trivial
    · exact ha
  · trivial

/-- Slots that are not running are written, when the running one is committed. -/
theorem Rewrites.moves {u v : World} (h : OnCommitted u) (hwrite : Rewrites u v) :
    Moves .update u v ∧ v.busy = u.busy ∧ (Sound w₀ u → Sound w₀ v) := by
  obtain ⟨running, hrunning, hcommitted⟩ := h
  obtain ⟨image, rfl, himage⟩ := hwrite
  refine ⟨⟨rfl, rfl, List.Subset.refl _, fun _ _ h => ⟨h, rfl⟩, himage, .inl rfl⟩, rfl,
    fun hsound => hsound.of_same rfl (List.Subset.refl _) fun slot hslot => ?_⟩
  have hsame : slot = running := by
    have h₁ := slotOf_partOf hslot
    have h₂ := slotOf_partOf hcommitted
    rw [h₁] at h₂
    exact Except.ok.inj h₂
  exact himage slot (hsame ▸ hrunning)

/-- **An update** leaves the committed slot alone, if that is the one that is running. -/
theorem update_spec {rauc : Rauc} (horderly : rauc.Orderly) (bundle : ℕ) (h : OnCommitted w) :
    (update rauc bundle).wp (beside w₀ .update) (fun _ _ => True) w :=
  (horderly.install _ bundle).spec lasting_onCommitted (fun slot hne => absurd rfl (hne slot))
    (fun _ _ => Rewrites.moves) h rfl Bool.noConfusion

end Scripts

/-! ## Runs -/

section Runs

variable {rauc : Rauc} {fw : Firmware} {x₀ x y : Target} {e : Happening}

/-- What holds at all times. -/
structure Target.Inv (w₀ : World) (x : Target) : Prop where
  sound : Sound w₀ x.world
  healthcheck : x.healthcheck.wp (beside w₀ .healthcheck) (fun _ _ => True) x.world
  update : x.update.wp (beside w₀ .update) (fun _ _ => True) x.world

/-- A boot changes no file. -/
theorem Target.Inv.booted {w₀ : World} (inv : x.Inv w₀) (partition : BitVec 8) (degraded : Bool) :
    Target.Inv w₀ ⟨x.world.booted partition degraded, .ret false, .ret false⟩ :=
  ⟨inv.sound.of_same rfl (List.Subset.refl _) fun _ _ => rfl, trivial, trivial⟩

theorem Target.Inv.next {w₀ : World} (inv : x.Inv w₀) (horderly : rauc.Orderly)
    (hok : FromCommitted x e) (hn : x.next rauc fw e = some y) : y.Inv w₀ := by
  cases e with
  | startHealthcheck =>
      dsimp only [Target.next] at hn
      split at hn <;> cases hn
      exact ⟨inv.sound, healthcheck_spec horderly, inv.update⟩
  | healthcheck n =>
      obtain ⟨⟨p, w⟩, hstep, rfl⟩ := Option.map_eq_some_iff.mp hn
      obtain ⟨hsound, hmoves, hp⟩ := Prog.wp_step inv.healthcheck inv.sound hstep trivial
      exact ⟨hsound, hp, Prog.wp_rely (fun _ _ _ _ _ _ => trivial) inv.update hmoves hsound⟩
  | startUpdate bundle =>
      dsimp only [Target.next] at hn
      split at hn <;> cases hn
      refine ⟨inv.sound, inv.healthcheck, update_spec horderly bundle ?_⟩
      obtain ⟨slot, hpart, -⟩ := inv.sound
      have hprimary : x.world.storage.primary = .ok slot := slotOf_partOf hpart
      exact ⟨slot, Eq.trans hok hprimary, hpart⟩
  | update n =>
      obtain ⟨⟨p, w⟩, hstep, rfl⟩ := Option.map_eq_some_iff.mp hn
      obtain ⟨hsound, hmoves, hp⟩ := Prog.wp_step inv.update inv.sound hstep trivial
      exact ⟨hsound, Prog.wp_rely (fun _ _ _ _ _ _ => trivial) inv.healthcheck hmoves hsound, hp⟩
  | boot degraded =>
      cases hn
      exact inv.booted _ _
  | tryboot degraded =>
      cases hn
      exact inv.booted _ _

theorem Target.Inv.of_run {es : List Happening} (horderly : rauc.Orderly)
    (h₀ : (target rauc fw).init x₀) (hr : (target rauc fw).Run FromCommitted x₀ es x) :
    x.Inv x₀.world := by
  refine hr.preserves (fun _ _ _ inv hok hn => inv.next horderly hok hn) ?_
  obtain ⟨⟨slot, part, hpart, hcommitted⟩, -, hhealth, hupdate⟩ := h₀
  subst hcommitted
  refine ⟨⟨slot, hpart, .inl ⟨slotOf_partOf hpart, rfl⟩⟩, ?_, ?_⟩
  · rw [hhealth]
    trivial
  · rw [hupdate]
    trivial

end Runs

/-! ### A run -/

end SlotUpdate
