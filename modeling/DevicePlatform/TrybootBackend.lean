/-
# The committed slot and `autoboot.txt`

Model of `rauc-tryboot-backend` (`yocto/meta-device-platform-verity`), the script by which an
update is tried once and committed only after it has been found healthy.  All it keeps is a text
file, which every command parses again, whatever is in it, and replaces as a whole.

A command is a program over the storage, one access at a time (`main`).  A boot may come between
any two of its steps and ends it, as a power cut does; it runs the partition that the file names
in `[all]`, or in `[tryboot]` if it was asked to try (`host`).

`commit_safe`: the committed slot changes only by `set-state X good` while `X` is running.
-/
import DevicePlatform.Program
import DevicePlatform.Transition
import Mathlib.Data.BitVec
import Mathlib.Logic.Function.Basic

namespace TrybootBackend

/-- The content of a file, or what a command prints. -/
abbrev Text := List Char

/-! ## The script -/

/-- `die`. -/
def die (what : String) : String := "rauc-tryboot-backend: " ++ what

/-- `part_of`. -/
def partOf (slot : String) : Except String Text :=
  if slot = "A" then .ok ['2']
  else if slot = "B" then .ok ['3']
  else .error (die ("unknown slot '" ++ slot ++ "'"))

/-- `slot_of`. -/
def slotOf (part : Text) : Except String String :=
  if part = ['2'] then .ok "A"
  else if part = ['3'] then .ok "B"
  else .error (die ("unexpected boot partition '" ++ String.ofList part ++ "'"))

/-- `other`. -/
def other (slot : String) : String :=
  if slot = "A" then "B" else if slot = "B" then "A" else ""

/-- `$(…)`: what a command prints, and nothing if it fails. -/
def substitute {α : Type} (nothing : α) : Except String α → α
  | .ok text => text
  | .error _ => nothing

/-- The records of a text, as `awk` reads them. -/
def lines : Text → List Text
  | [] => []
  | c :: cs =>
      if c = '\n' then [] :: lines cs
      else
        match lines cs with
        | [] => [[c]]
        | l :: ls => (c :: l) :: ls

/-- What the name of a value is followed by. -/
def bootPartition : Text := "boot_partition=".toList

/-- The program of `awk` in `read_autoboot`; `sec` is the section it is in. -/
def scanSections (want : Text) : (sec : Text) → List Text → Text
  | _, [] => []
  | sec, l :: ls =>
      if l.head? = some '[' then scanSections want l ls
      else if sec = want ∧ bootPartition.isPrefixOf l then l.drop bootPartition.length
      else scanSections want sec ls

/-- `read_autoboot`, of the section `want`. -/
def readAutoboot (want : String) (text : Text) : Text :=
  scanSections ("[" ++ want ++ "]").toList [] (lines text)

/-- What `write_autoboot` prints. -/
def autobootText (committed tryboot : Text) : Text :=
  "[all]\ntryboot_a_b=1\nboot_partition=".toList ++ committed ++
    "\n[tryboot]\nboot_partition=".toList ++ tryboot ++ ['\n']

/-- The files, and the partition that the firmware has booted. -/
structure Storage where
  /-- `autoboot.txt`. -/
  autoboot : Text
  /-- `autoboot.txt.new`. -/
  autobootNew : Option Text
  /-- Whether there is a file `X.bad` in `STATE_DIR`. -/
  bad : String → Bool
  /-- The last byte of `PARTITION_FILE`. -/
  partition : BitVec 8

/-- The committed slot, as the text says it. -/
def Storage.committed (s : Storage) : Text := readAutoboot "all" s.autoboot

/-- `current`. -/
def Storage.current (s : Storage) : Except String String :=
  slotOf (Nat.repr s.partition.toNat).toList

/-- What `get-primary` reports. -/
def Storage.primary (s : Storage) : Except String String := slotOf s.committed

/-- `with_autoboot`: partition 1 is mounted, or that fails. -/
def withAutoboot {α : Type} (f : Prog Storage α) : Prog Storage (Except String α) := do
  let mounted ← Prog.choose
  if mounted = 0 then return .error (die "cannot mount /dev/mmcblk0p1")
  else do
    let r ← f
    return .ok r

/-- `write_autoboot`. -/
def writeAutoboot (committed tryboot : Text) : Prog Storage Unit := do
  Prog.write fun s => { s with autobootNew := some [] }
  Prog.write fun s => { s with autobootNew := some (autobootText committed tryboot) }
  -- `sync`, then `mv`
  Prog.write fun s => { s with autoboot := s.autobootNew.getD s.autoboot, autobootNew := none }
  return ()

/-- `get_primary`. -/
def getPrimary : Prog Storage (Except String String) := Prog.read Storage.primary

/-- `set_primary`. -/
def setPrimary (slot : String) : Prog Storage Unit := do
  let committed ← Prog.read Storage.committed
  writeAutoboot committed (substitute [] (partOf slot))

/-- `commit`. -/
def commit (slot : String) : Prog Storage Unit :=
  writeAutoboot (substitute [] (partOf slot)) (substitute [] (partOf (other slot)))

/-- `set-state <slot> good`. -/
def setStateGood (slot : String) : Prog Storage (Except String Text) := do
  Prog.write fun s => { s with bad := Function.update s.bad slot false }
  let current ← Prog.read Storage.current
  if substitute "" current = slot then do
    -- a failure of `get_primary` is one more reason to commit
    let primary ← withAutoboot getPrimary
    if substitute "" (substitute (.ok "") primary) ≠ slot then do
      let r ← withAutoboot (commit slot)
      return r.map fun _ => []
    else return .ok []
  else return .ok []

/-- The script: what it prints, or the message it dies with. -/
def main (args : List String) : Prog Storage (Except String Text) :=
  match args with
  | "get-current" :: _ => do
      let slot ← Prog.read Storage.current
      return slot.map String.toList
  | "get-primary" :: _ => do
      let slot ← withAutoboot getPrimary
      return slot.bind (·.map String.toList)
  | "set-primary" :: rest =>
      match rest with
      | [slot] =>
          match partOf slot with
          | .error e => return .error e
          | .ok _ => do
              let r ← withAutoboot (setPrimary slot)
              return r.map fun _ => []
      | _ => return .error (die "usage: set-primary <A|B>")
  | "get-state" :: rest =>
      match rest with
      | [slot] => do
          let bad ← Prog.read fun s => s.bad slot
          return .ok (if bad then "bad".toList else "good".toList)
      | _ => return .error (die "usage: get-state <A|B>")
  | "set-state" :: rest =>
      match rest with
      | [slot, state] =>
          match partOf slot with
          | .error e => return .error e
          | .ok _ =>
              if state = "bad" then do
                Prog.write fun s => { s with bad := Function.update s.bad slot true }
                return .ok []
              else if state = "good" then setStateGood slot
              else return .error (die "state must be good or bad")
      | _ => return .error (die "usage: set-state <A|B> <good|bad>")
  | _ => return .error (die ("usage: rauc-tryboot-backend get-current | get-primary | " ++
      "set-primary <slot> | get-state <slot> | set-state <slot> <good|bad>"))

/-! ## The machine -/

/-- What the firmware makes of the value of a `boot_partition`. -/
structure Firmware where
  partition : Text → BitVec 8
  partition_a : partition ['2'] = 2
  partition_b : partition ['3'] = 3

/-- The host.  `reported` is history: the slots that have been reported good while they were
running. -/
structure Host where
  storage : Storage
  /-- The command in progress. -/
  shell : Option (List String × Prog Storage (Except String Text))
  reported : List String

inductive HostEvent where
  /-- A command starts. -/
  | exec (args : List String)
  /-- Its next step. -/
  | step (n : ℕ)
  /-- A boot, after a shutdown, a watchdog reset or a power cut. -/
  | boot
  /-- A boot that tries a slot. -/
  | tryboot

/-- The command has ended, or there was none. -/
def Host.idle (x : Host) : Bool :=
  match x.shell with
  | none => true
  | some (_, p) => p.returned

/-- The slots that are reported good, after the command `args` has started. -/
def Host.reportedAfter (x : Host) (args : List String) : List String :=
  match args with
  | ["set-state", slot, "good"] =>
      if x.storage.current = .ok slot then slot :: x.reported else x.reported
  | _ => x.reported

/-- The next state. -/
def Host.next (fw : Firmware) (x : Host) : HostEvent → Option Host
  | .exec args =>
      if x.idle then
        some { x with shell := some (args, main args), reported := x.reportedAfter args }
      else none
  | .step n =>
      match x.shell with
      | none => none
      | some (args, p) => (p.step n x.storage).map fun (p', s) =>
          { x with storage := s, shell := some (args, p') }
  | .boot => some { x with
      storage := { x.storage with partition := fw.partition x.storage.committed }
      shell := none }
  | .tryboot => some { x with
      storage := { x.storage with
        partition := fw.partition (readAutoboot "tryboot" x.storage.autoboot) }
      shell := none }

/-- The host, with any content of its files. -/
def host (fw : Firmware) : Machine Host HostEvent where
  init x := x.shell = none ∧ x.reported = []
  next := Host.next fw

/-! ## The text -/

theorem lines_append {l : Text} (h : '\n' ∉ l) (rest : Text) :
    lines (l ++ '\n' :: rest) = l :: lines rest := by
  induction l with
  | nil => rfl
  | cons c l ih =>
      rw [List.mem_cons, not_or] at h
      rw [List.cons_append, lines, if_neg (Ne.symm h.1), ih h.2]

theorem not_mem_lines (text : Text) : ∀ l ∈ lines text, '\n' ∉ l := by
  induction text with
  | nil => exact fun l hl => absurd hl List.not_mem_nil
  | cons c cs ih =>
      intro l hl
      unfold lines at hl
      split at hl
      · rcases List.mem_cons.mp hl with rfl | hl
        · exact List.not_mem_nil
        · exact ih l hl
      · next hc =>
        split at hl
        · cases List.mem_singleton.mp hl
          simpa using Ne.symm hc
        · next l' ls hls =>
          rw [hls] at ih
          rcases List.mem_cons.mp hl with rfl | hl
          · rw [List.mem_cons, not_or]
            exact ⟨Ne.symm hc, ih l' List.mem_cons_self⟩
          · exact ih l (List.mem_cons_of_mem _ hl)

/-- A value is part of a line. -/
theorem not_mem_readAutoboot (want : String) (text : Text) : '\n' ∉ readAutoboot want text := by
  unfold readAutoboot
  generalize ("[" ++ want ++ "]").toList = w
  have h := not_mem_lines text
  generalize lines text = ls at h
  generalize ([] : Text) = sec
  induction ls generalizing sec with
  | nil => exact List.not_mem_nil
  | cons l ls ih =>
      unfold scanSections
      split
      · exact ih (fun l hl => h l (List.mem_cons_of_mem _ hl)) _
      · split
        · exact fun hmem => h l List.mem_cons_self (List.mem_of_mem_drop hmem)
        · exact ih (fun l hl => h l (List.mem_cons_of_mem _ hl)) _

/-- **What is written as committed is read as committed.** -/
theorem readAutoboot_autobootText {committed : Text} (h : '\n' ∉ committed) (tryboot : Text) :
    readAutoboot "all" (autobootText committed tryboot) = committed := by
  have hvalue : '\n' ∉ bootPartition ++ committed := by
    rw [List.mem_append, not_or]
    exact ⟨by decide, h⟩
  have htext : autobootText committed tryboot = "[all]".toList ++ '\n' ::
      ("tryboot_a_b=1".toList ++ '\n' :: (bootPartition ++ committed ++ '\n' ::
        ("[tryboot]\nboot_partition=".toList ++ tryboot ++ ['\n']))) := by
    unfold autobootText bootPartition
    simp
  have hhead : (bootPartition ++ committed).head? ≠ some '[' := by
    rw [List.head?_append_of_ne_nil _ (by decide)]
    decide
  have hname : bootPartition.isPrefixOf (bootPartition ++ committed) = true :=
    List.isPrefixOf_iff_prefix.mpr (List.prefix_append _ _)
  unfold readAutoboot
  rw [htext, lines_append (by decide), lines_append (by decide), lines_append hvalue,
    scanSections, if_pos (by decide), scanSections, if_neg (by decide), if_neg (by decide),
    scanSections, if_neg hhead, if_pos ⟨by decide, hname⟩, List.drop_left]

/-! ## Commands -/

section Commands

variable {args : List String} {s t : Storage}

/-- What the command `args` may write as committed. -/
def MayCommit (args : List String) (s : Storage) (committed : Text) : Prop :=
  committed = s.committed ∨
    ∃ slot, args = ["set-state", slot, "good"] ∧ s.current = .ok slot ∧ partOf slot = .ok committed

/-- What a step of the command `args` may do. -/
structure Allowed (args : List String) (s t : Storage) : Prop where
  partition : t.partition = s.partition
  committed : MayCommit args s t.committed

theorem Allowed.refl (args : List String) (s : Storage) : Allowed args s s := ⟨rfl, .inl rfl⟩

/-- A step that does not touch `autoboot.txt`. -/
theorem Allowed.of_same (hpart : t.partition = s.partition) (hfile : t.autoboot = s.autoboot) :
    Allowed args s t := by
  refine ⟨hpart, .inl ?_⟩
  unfold Storage.committed
  rw [hfile]

/-- A command is alone with the files, and does what is allowed. -/
def script (args : List String) : Protocol Storage where
  inv _ := True
  rely := Eq
  guar := Allowed args
  assumed _ := True
  total := True
  rely_refl _ := rfl
  rely_trans := Eq.trans
  guar_refl := Allowed.refl args

theorem writeAutoboot_spec {committed : Text} (hline : '\n' ∉ committed)
    (h : MayCommit args s committed) (tryboot : Text) :
    (writeAutoboot committed tryboot).wp (script args) (fun _ _ => True) s := by
  refine Prog.wp_write fun _ hr _ _ => ?_
  cases hr
  refine ⟨trivial, .of_same rfl rfl, Prog.wp_write fun _ hr _ _ => ?_⟩
  cases hr
  refine ⟨trivial, .of_same rfl rfl, Prog.wp_write fun _ hr _ _ => ?_⟩
  cases hr
  refine ⟨trivial, ⟨rfl, ?_⟩, trivial⟩
  -- the new file is in place
  rw [← readAutoboot_autobootText hline tryboot] at h
  exact h

theorem withAutoboot_spec {α : Type} {f : Prog Storage α} {Q : Except String α → Storage → Prop}
    (hfail : ∀ e, Q (.error e) s) (h : f.wp (script args) (fun r => Q (.ok r)) s) :
    (withAutoboot f).wp (script args) Q s := by
  refine Prog.wp_choose fun n => ?_
  split
  · exact hfail _
  · exact Prog.wp_seq h fun _ _ h => h

theorem not_mem_partOf {slot : String} {part : Text} (h : partOf slot = .ok part) :
    '\n' ∉ part := by
  unfold partOf at h
  split at h
  · cases h
    decide
  · split at h
    · cases h
      decide
    · cases h

/-- A comparison with the name of a slot does not mistake a failure for it. -/
theorem eq_ok_of_substitute {r : Except String String} {slot : String} {part : Text}
    (hpart : partOf slot = .ok part) (h : substitute "" r = slot) : r = .ok slot := by
  cases r with
  | ok name => exact congrArg _ h
  | error e =>
      subst h
      simp [partOf, substitute] at hpart

theorem setStateGood_spec {slot : String} (hpart : ∃ part, partOf slot = .ok part) :
    (setStateGood slot).wp (script ["set-state", slot, "good"]) (fun _ _ => True) s := by
  obtain ⟨part, hpart⟩ := hpart
  refine Prog.wp_write fun _ hr _ _ => ?_
  cases hr
  refine ⟨trivial, .of_same rfl rfl, Prog.wp_read fun _ hr _ => ?_⟩
  cases hr
  split
  · next hcurrent =>
    refine Prog.wp_seq (withAutoboot_spec (Q := fun _ t => t = _) (fun _ => rfl) ?_) ?_
    · exact Prog.wp_last (Prog.wp_read fun _ hr _ => hr.symm)
    rintro primary t rfl
    split
    · refine Prog.wp_seq (withAutoboot_spec (Q := fun _ _ => True) (fun _ => trivial) ?_)
        fun _ _ _ => trivial
      unfold commit
      rw [hpart]
      exact writeAutoboot_spec (not_mem_partOf hpart)
        (.inr ⟨slot, rfl, eq_ok_of_substitute hpart hcurrent, hpart⟩) _
    · trivial
  · trivial

/-- **Every command.** -/
theorem main_spec (args : List String) (s : Storage) :
    (main args).wp (script args) (fun _ _ => True) s := by
  unfold main
  split
  · exact Prog.wp_read fun _ _ _ => trivial
  · refine Prog.wp_seq (withAutoboot_spec (Q := fun _ _ => True) (fun _ => trivial) ?_)
      fun _ _ _ => trivial
    exact Prog.wp_last (Prog.wp_read fun _ _ _ => trivial)
  · split
    · next slot =>
      split
      · trivial
      · refine Prog.wp_seq (withAutoboot_spec (Q := fun _ _ => True) (fun _ => trivial) ?_)
          fun _ _ _ => trivial
        refine Prog.wp_read fun _ hr _ => ?_
        exact writeAutoboot_spec (not_mem_readAutoboot _ _) (.inl rfl) _
    · trivial
  · split
    · exact Prog.wp_read fun _ _ _ => trivial
    · trivial
  · split
    · split
      · trivial
      · next slot state part hpart =>
        split
        · refine Prog.wp_write fun _ _ _ _ => ⟨trivial, .of_same rfl rfl, trivial⟩
        · split
          · next hgood =>
            subst hgood
            exact setStateGood_spec ⟨part, hpart⟩
          · trivial
    · trivial
  · trivial

end Commands

/-- The slot of a partition, and the partition of a slot. -/
theorem slotOf_partOf {slot : String} {part : Text} (h : partOf slot = .ok part) :
    slotOf part = .ok slot := by
  unfold partOf at h
  split at h
  · next hslot =>
    cases h
    rw [hslot]
    rfl
  · split at h
    · next hslot =>
      cases h
      rw [hslot]
      rfl
    · cases h

section Runs

variable {fw : Firmware} {x₀ x y : Host} {e : HostEvent}

/-- What holds at all times, if `committed` was committed at the beginning. -/
structure Host.Inv (committed : Text) (x : Host) : Prop where
  shell : ∀ args p, x.shell = some (args, p) → p.wp (script args) (fun _ _ => True) x.storage
  reported : ∀ slot p, x.shell = some (["set-state", slot, "good"], p) →
    x.storage.current = .ok slot → slot ∈ x.reported
  committed : x.storage.committed = committed ∨
    ∃ slot ∈ x.reported, partOf slot = .ok x.storage.committed

/-- What a step of the host may do. -/
theorem Host.Inv.allowed {committed : Text} (inv : x.Inv committed) (hn : x.next fw e = some y) :
    y.storage.committed = x.storage.committed ∨
      ∃ slot p, x.shell = some (["set-state", slot, "good"], p) ∧ x.storage.current = .ok slot ∧
        partOf slot = .ok y.storage.committed ∧ (∃ n, e = .step n) := by
  cases e with
  | exec args =>
      dsimp only [Host.next] at hn
      split at hn <;> cases hn
      exact .inl rfl
  | boot =>
      cases hn
      exact .inl rfl
  | tryboot =>
      cases hn
      exact .inl rfl
  | step n =>
      cases hs : x.shell with
      | none => simp only [Host.next, hs, reduceCtorEq] at hn
      | some c =>
          obtain ⟨args, p⟩ := c
          simp only [Host.next, hs] at hn
          obtain ⟨⟨p', s⟩, hstep, rfl⟩ := Option.map_eq_some_iff.mp hn
          obtain ⟨-, hguar, -⟩ := Prog.wp_step (inv.shell args p hs) trivial hstep trivial
          rcases hguar.committed with hsame | ⟨slot, rfl, hcurrent, hpart⟩
          · exact .inl hsame
          · exact .inr ⟨slot, p, rfl, hcurrent, hpart, n, rfl⟩

theorem Host.Inv.next {committed : Text} (inv : x.Inv committed) (hn : x.next fw e = some y) :
    y.Inv committed := by
  have hcommitted : y.storage.committed = committed ∨
      ∃ slot ∈ x.reported, partOf slot = .ok y.storage.committed := by
    rcases inv.allowed hn with hsame | ⟨slot, p, hs, hcurrent, hpart, -⟩
    · rw [hsame]
      exact inv.committed
    · exact .inr ⟨slot, inv.reported slot p hs hcurrent, hpart⟩
  cases e with
  | exec args =>
      dsimp only [Host.next] at hn
      split at hn <;> cases hn
      have hmore : ∀ slot ∈ x.reported, slot ∈ x.reportedAfter args := by
        intro slot hslot
        unfold Host.reportedAfter
        split
        · split
          · exact List.mem_cons_of_mem _ hslot
          · exact hslot
        · exact hslot
      refine ⟨?_, ?_, ?_⟩
      · rintro _ _ ⟨⟩
        exact main_spec args x.storage
      · rintro slot _ ⟨⟩ hcurrent
        show slot ∈ (if x.storage.current = .ok slot then slot :: x.reported else x.reported)
        rw [if_pos hcurrent]
        exact List.mem_cons_self
      · exact hcommitted.imp id fun ⟨slot, hslot, hpart⟩ => ⟨slot, hmore slot hslot, hpart⟩
  | boot =>
      cases hn
      exact ⟨(fun _ _ hnone => nomatch hnone), (fun _ _ hnone => nomatch hnone), hcommitted⟩
  | tryboot =>
      cases hn
      exact ⟨(fun _ _ hnone => nomatch hnone), (fun _ _ hnone => nomatch hnone), hcommitted⟩
  | step n =>
      cases hs : x.shell with
      | none => simp only [Host.next, hs, reduceCtorEq] at hn
      | some c =>
          obtain ⟨args, p⟩ := c
          simp only [Host.next, hs] at hn
          obtain ⟨⟨p', s⟩, hstep, rfl⟩ := Option.map_eq_some_iff.mp hn
          obtain ⟨-, hguar, hp'⟩ := Prog.wp_step (inv.shell args p hs) trivial hstep trivial
          refine ⟨?_, ?_, hcommitted⟩
          · rintro _ _ ⟨⟩
            exact hp'
          · rintro slot _ ⟨⟩ hcurrent
            refine inv.reported slot p hs ?_
            unfold Storage.current at hcurrent ⊢
            rwa [hguar.partition] at hcurrent

theorem Host.Inv.of_run {es : List HostEvent} (h₀ : (host fw).init x₀)
    (hr : (host fw).Run Machine.Always x₀ es x) : x.Inv x₀.storage.committed := by
  refine hr.preserves (fun _ _ _ inv _ hn => inv.next hn) ⟨?_, ?_, .inl rfl⟩
  · intro args p hs
    cases h₀.1.symm.trans hs
  · intro slot p hs
    cases h₀.1.symm.trans hs

end Runs

/-- The command in progress. -/
def Host.command (x : Host) : Option (List String) := x.shell.map Prod.fst

end TrybootBackend
