/-
# Evidence of a fault

Model of `capture_fault_evidence` (`userspace/device-service/src/fault_evidence.cpp`), which writes
what each layer looked like at a fault to a file whose name has the time in it, and removes all but
the last few of these files.

What the call meets is part of its input (`Fault`): the wall clock, which it reads three times and
which may jump, the answers of the driver and of the kernel, and the file system, where opening,
writing, listing and removing can fail.  The stream is buffered, and is asked for an error before
it is closed; so the last part of the text may be lost without anyone noticing.

Files are removed in the order of their names.  The board has no clock of its own while it is
switched off: after a boot the time may be earlier than that in the names of files that exist, and
then the new file is taken for the oldest (`evidence_pruned`).  `evidence_survives_iff` says
exactly when the evidence survives.
-/
import DevicePlatform.Texts
import DevicePlatform.Retention
import Mathlib.Data.Fin.Basic
import Mathlib.Data.List.AList
import Mathlib.Data.List.Infix
import Mathlib.Data.List.Lex

namespace DeviceService

open Retention

/-! ## Time -/

/-- `std::tm`, as far as it is printed. -/
structure Tm where
  year : ℕ
  month : ℕ
  day : ℕ
  hour : ℕ
  minute : ℕ
  second : ℕ
  deriving DecidableEq, Repr

/-- `gmtime_r`, in years that begin in March, four centuries at a time. -/
def gmtime (t : ℕ) : Tm :=
  let days := t / 86400 + 719468
  let dayOfEra := days % 146097
  let yearOfEra := (dayOfEra - dayOfEra / 1460 + dayOfEra / 36524 - dayOfEra / 146096) / 365
  let dayOfYear := dayOfEra - (365 * yearOfEra + yearOfEra / 4 - yearOfEra / 100)
  let fromMarch := (5 * dayOfYear + 2) / 153
  let month := if fromMarch < 10 then fromMarch + 3 else fromMarch - 9
  { year := yearOfEra + days / 146097 * 400 + if month ≤ 2 then 1 else 0
    month := month
    day := dayOfYear - (153 * fromMarch + 2) / 5 + 1
    hour := t % 86400 / 3600
    minute := t % 3600 / 60
    second := t % 60 }

example : gmtime 1750896000 = ⟨2025, 6, 26, 0, 0, 0⟩ := by decide
example : gmtime 951827696 = ⟨2000, 2, 29, 12, 34, 56⟩ := by decide

/-- A decimal number of so many digits. -/
def decimal (width n : ℕ) : String := String.ofList (Nat.padded 10 width n)

/-- `utc_stamp("%Y-%m-%dT%H:%M:%SZ")`. -/
def utcStampIso (t : ℕ) : String :=
  let tm := gmtime t
  toString tm.year ++ "-" ++ decimal 2 tm.month ++ "-" ++ decimal 2 tm.day ++ "T" ++
    decimal 2 tm.hour ++ ":" ++ decimal 2 tm.minute ++ ":" ++ decimal 2 tm.second ++ "Z"

/-- `utc_stamp("%Y%m%dT%H%M%S")`. -/
def utcStampName (t : ℕ) : String :=
  let tm := gmtime t
  toString tm.year ++ decimal 2 tm.month ++ decimal 2 tm.day ++ "T" ++ decimal 2 tm.hour ++
    decimal 2 tm.minute ++ decimal 2 tm.second

/-! ## Files -/

/-- The name of a file. -/
structure FileName where
  bytes : List (Fin 256)

/-- Names are compared byte by byte. -/
instance : LinearOrder FileName :=
  LinearOrder.lift' FileName.bytes fun a b h => by
    cases a
    cases b
    exact congrArg FileName.mk h

/-- The bytes of a text, as a part of a name. -/
def fileName (s : String) : List (Fin 256) := s.octets.map UInt8.toFin

/-- What a name stands for: a file with its content, or a directory. -/
inductive Inode where
  | file (content : List UInt8)
  | directory
  deriving DecidableEq

/-- The content of a directory. -/
abbrev Directory := AList fun _ : FileName => Inode

/-- `path::extension` of a file name: from the last dot on, unless the name begins there. -/
def extension (name : FileName) : List (Fin 256) :=
  let tail := name.bytes.reverse.takeWhile (· ≠ 0x2e)
  if tail.length + 1 < name.bytes.length ∧ name.bytes ≠ [0x2e, 0x2e] then 0x2e :: tail.reverse
  else []

/-- The files that `prune` looks at. -/
def isFaultFile (name : FileName) : Bool :=
  (fileName "fault-").isPrefixOf name.bytes && extension name == fileName ".json"

/-- Their names. -/
def faultFiles (d : Directory) : List FileName := d.keys.filter isFaultFile

/-- How listing the directory goes: it is read to the end, it cannot be opened, or reading it
fails. -/
inductive Listing where
  | complete
  | unopened
  | broken
  deriving DecidableEq, Repr

/-- The arguments of `capture_fault_evidence`, and what it meets. -/
structure Fault where
  dir : String
  keep : ℕ
  reason : List UInt8
  service : Json
  /-- `read_attribute`: the value, or the text of the exception. -/
  readAttribute : String → Except (List UInt8) (List UInt8)
  /-- The kernel log, or the text of the error. -/
  klog : Except (List UInt8) (List UInt8)
  /-- The wall clock in seconds for `captured_at`, in milliseconds for the last part of the name,
  and in seconds for its first part. -/
  capturedAt : ℕ
  nowMs : ℕ
  stampedAt : ℕ
  /-- The file can be opened. -/
  opens : Bool
  /-- The stream has met no error when it is asked. -/
  good : Bool
  /-- The number of bytes that have reached the file when the stream has been closed. -/
  reached : ℕ
  listing : Listing
  /-- A file can be removed. -/
  removes : FileName → Bool
  json : JsonLibrary

namespace Fault

/-! ## The record -/

/-- `kSysfsAttrs`. -/
def sysfsAttrs : List String :=
  ["device_id", "fw_version", "sample_rate", "fifo_level", "kfifo_level", "kfifo_overflow",
    "policy_dropped", "spi_rearm_fail", "spi_error_count"]

/-- `kKernelLines`. -/
def kernelLines : ℕ := 60

/-- `driver_snapshot`. -/
def driverSnapshot (f : Fault) : Json :=
  .obj (sysfsAttrs.map fun name => (name, .str (
    match f.readAttribute name with
    | .ok value => value
    | .error what => "error: ".octets ++ what)))

/-- The lines of a text, as `std::getline` reads them. -/
def lines (text : List UInt8) : List (List UInt8) :=
  let parts := text.splitOn 0x0a
  if parts.getLast? = some [] then parts.dropLast else parts

/-- `kernel_snapshot`. -/
def kernelSnapshot (f : Fault) : Json :=
  match f.klog with
  | .error what => .str ("unavailable: ".octets ++ what)
  | .ok text =>
      let hits := (lines text).filter fun line => decide (
        "custom_acq".octets <:+: line ∨ "custom-acq".octets <:+: line ∨ "spi".octets <:+: line)
      .arr ((hits.drop (hits.length - kernelLines)).map .str)

/-- The text that is written; `none` if `dump` throws. -/
def record (f : Fault) : Option (List UInt8) :=
  (f.json.dump (some 2) (.obj [
    ("captured_at", .str (utcStampIso f.capturedAt).octets),
    ("reason", .str f.reason),
    ("service", f.service),
    ("driver", f.driverSnapshot),
    ("kernel", f.kernelSnapshot)])).map (· ++ [0x0a])

/-- The name of the file. -/
def name (f : Fault) : FileName :=
  ⟨fileName "fault-" ++ (fileName (utcStampName f.stampedAt ++ decimal 3 (f.nowMs % 1000)) ++
    fileName ".json")⟩

/-! ## The call -/

/-- `prune`; `none` if it throws. -/
def prune (f : Fault) (d : Directory) : Option Directory :=
  match f.listing with
  | .unopened => some d
  | .broken => none
  | .complete =>
      let files := faultFiles d
      if files.length ≤ f.keep then some d
      else
        let files := files.insertionSort (· ≤ ·)
        some ((files.take (files.length - f.keep)).foldl
          (fun d file => if f.removes file then d.erase file else d) d)

/-- `capture_fault_evidence`: the name of the file whose path is returned, if one is, and the
directory. -/
def captureFaultEvidence (f : Fault) (d : Directory) : Option FileName × Directory :=
  if f.dir = "" then (none, d)
  else if f.opens = false ∨ d.lookup f.name = some .directory then (none, d)
  else
    match f.record with
    | none => (none, d.insert f.name (.file []))
    | some text =>
        let d := d.insert f.name (.file (text.take f.reached))
        if f.good = false then (none, d)
        else
          match f.prune d with
          | none => (none, d)
          | some d => (some f.name, d)

/-! ## Names -/

/-- A name of this form is one of those that `prune` looks at. -/
theorem isFaultFile_mk (stamp : List (Fin 256)) :
    isFaultFile ⟨fileName "fault-" ++ (stamp ++ fileName ".json")⟩ = true := by
  have hjson : fileName ".json" = [0x2e, 0x6a, 0x73, 0x6f, 0x6e] := by decide +kernel
  have hfault : fileName "fault-" = [0x66, 0x61, 0x75, 0x6c, 0x74, 0x2d] := by decide +kernel
  rw [isFaultFile, extension, hjson, hfault]
  simp

/-! ## What is removed -/

/-- A file is removed if it is too old, the directory can be listed and the file be removed. -/
def removed (f : Fault) (file : FileName) : Bool :=
  decide (f.listing = .complete) && f.removes file

theorem lookup_foldl_erase (p : FileName → Bool) (file : FileName) (names : List FileName)
    (d : Directory) :
    (names.foldl (fun d x => if p x then d.erase x else d) d).lookup file =
      if file ∈ names ∧ p file = true then none else d.lookup file := by
  induction names generalizing d with
  | nil => simp
  | cons x names ih =>
    rw [List.foldl_cons, ih]
    by_cases hx : file = x
    · subst hx
      cases hp : p file <;> simp [AList.lookup_erase]
    · have hlookup : (if p x then d.erase x else d).lookup file = d.lookup file := by
        split_ifs
        · exact AList.lookup_erase_ne hx
        · rfl
      rw [hlookup]
      simp [hx]

theorem keys_foldl_erase (p : FileName → Bool) (names : List FileName) (d : Directory) :
    (names.foldl (fun d x => if p x then d.erase x else d) d).keys =
      d.keys.filter fun x => !(decide (x ∈ names) && p x) := by
  induction names generalizing d with
  | nil => simp
  | cons x names ih =>
    rw [List.foldl_cons, ih]
    have hkeys : (if p x then d.erase x else d).keys =
        d.keys.filter fun y => !(decide (y = x) && p y) := by
      split_ifs with hp
      · rw [AList.keys_erase, d.keys_nodup.erase_eq_filter]
        apply List.filter_congr
        intro y _
        by_cases hy : y = x <;> simp [hy, hp]
      · symm
        apply List.filter_eq_self.mpr
        intro y _
        by_cases hy : y = x <;> simp [hy, hp]
    rw [hkeys, List.filter_filter]
    apply List.filter_congr
    intro y _
    by_cases hy : y = x <;> by_cases hmem : y ∈ names <;> cases hp : p y <;> simp [hy, hmem]

/-- **What pruning does**: of the oldest files, those that can be removed are. -/
theorem prune_spec {f : Fault} {d d' : Directory} (h : f.prune d = some d') :
    (∀ file, d'.lookup file =
      if file ∈ oldest f.keep (faultFiles d) ∧ f.removed file = true then none
      else d.lookup file) ∧
      faultFiles d' = (faultFiles d).filter fun file =>
        !(decide (file ∈ oldest f.keep (faultFiles d)) && f.removed file) := by
  rw [prune] at h
  cases hlisting : f.listing with
  | broken => simp [hlisting] at h
  | unopened =>
    simp only [hlisting, Option.some.injEq] at h
    simp [h, removed, hlisting]
  | complete =>
    have hremoved : f.removed = f.removes := by
      funext file
      simp [removed, hlisting]
    have hd' : (oldest f.keep (faultFiles d)).foldl
        (fun d file => if f.removes file then d.erase file else d) d = d' := by
      simp only [hlisting] at h
      split_ifs at h with hfew
      · rw [oldest, Nat.sub_eq_zero_of_le hfew]
        exact Option.some.inj h
      · rw [List.length_insertionSort] at h
        exact Option.some.inj h
    rw [← hd', hremoved]
    constructor
    · intro file
      exact lookup_foldl_erase ..
    · rw [faultFiles, keys_foldl_erase, List.filter_filter, faultFiles, List.filter_filter]
      apply List.filter_congr
      intro file _
      exact Bool.and_comm ..

/-! ## When evidence survives -/

/-- What a call that returns the path of a file has done. -/
structure Survives (f : Fault) (d : Directory) (name : FileName) (d' : Directory) : Prop where
  /-- The file exists, with the record of this fault. -/
  recorded : ∃ text, f.record = some text ∧ d'.lookup name = some (.file text)
  /-- A record of another fault is as it was, or has been removed. -/
  others : ∀ file content, isFaultFile file = true → d.lookup file = some (.file content) →
    d'.lookup file = some (.file content) ∨ d'.lookup file = none
  /-- Few files remain. -/
  bounded : (faultFiles d').length ≤ f.keep

/-- The fault files once the new one is there. -/
def filesAfter (f : Fault) (d : Directory) : List FileName :=
  f.name :: (faultFiles d).filter (· != f.name)

/-- What it takes. -/
structure Favourable (f : Fault) (d : Directory) : Prop where
  /-- The name is not that of a file with another record. -/
  fresh : ∀ content, d.lookup f.name = some (.file content) → f.record = some content
  /-- Fewer than `keep` files have a name that is later. -/
  latest : (faultFiles d).countP (f.name < ·) < f.keep
  /-- All of the text gets to the file. -/
  written : ∀ text, f.record = some text → text.length ≤ f.reached
  /-- The files that are too many can be removed. -/
  removable : ∀ file ∈ oldest f.keep (f.filesAfter d), f.removed file = true

theorem faultFiles_insert (f : Fault) (d : Directory) (inode : Inode) :
    faultFiles (d.insert f.name inode) = f.filesAfter d := by
  have hname : isFaultFile f.name = true := isFaultFile_mk _
  rw [faultFiles, AList.keys_insert, d.keys_nodup.erase_eq_filter, List.filter_cons_of_pos hname,
    filesAfter, faultFiles, List.filter_filter, List.filter_filter]
  apply congrArg (f.name :: ·)
  apply List.filter_congr
  intro file _
  exact Bool.and_comm ..

theorem filesAfter_nodup (f : Fault) (d : Directory) : (f.filesAfter d).Nodup := by
  rw [← faultFiles_insert f d .directory]
  exact (AList.keys_nodup _).filter _

/-- The new file is too old if `keep` others have a later name. -/
theorem name_mem_oldest_iff (f : Fault) (d : Directory) :
    f.name ∈ oldest f.keep (f.filesAfter d) ↔
      f.keep ≤ (faultFiles d).countP (f.name < ·) := by
  have hcount : (f.filesAfter d).countP (f.name < ·) =
      (faultFiles d).countP (f.name < ·) := by
    rw [filesAfter, List.countP_cons_of_neg (by simp), List.countP_filter]
    apply List.countP_congr
    intro file _
    simp only [Bool.and_eq_true, decide_eq_true_eq, bne_iff_ne, and_iff_left_iff_imp]
    exact fun hlater => hlater.ne'
  rw [mem_oldest_iff (f.filesAfter_nodup d) List.mem_cons_self, hcount]

/-- Few files remain if those that are too many can be removed. -/
theorem bounded_iff {f : Fault} {d d' : Directory} {inode : Inode}
    (h : f.prune (d.insert f.name inode) = some d') :
    (faultFiles d').length ≤ f.keep ↔
      ∀ file ∈ oldest f.keep (f.filesAfter d), f.removed file = true := by
  have hfiles := (prune_spec h).2
  rw [faultFiles_insert] at hfiles
  rw [hfiles, length_filter_le_iff]
  · apply forall₂_congr
    intro file hold
    simp [hold]
  · intro file hnew
    have hnot : file ∉ oldest f.keep (f.filesAfter d) := fun hold =>
      lt_irrefl file (oldest_lt_newest (f.filesAfter_nodup d) hold hnew)
    simp [hnot]

/-- What a call that returns a path has gone through. -/
theorem capture_eq_some {f : Fault} {d d' : Directory} {name : FileName}
    (h : f.captureFaultEvidence d = (some name, d')) :
    name = f.name ∧ ∃ text, f.record = some text ∧
      f.prune (d.insert f.name (.file (text.take f.reached))) = some d' := by
  rw [captureFaultEvidence] at h
  cases hrecord : f.record with
  | none =>
    simp only [hrecord] at h
    split_ifs at h <;> simp at h
  | some text =>
    simp only [hrecord] at h
    cases hprune : f.prune (d.insert f.name (.file (text.take f.reached))) with
    | none =>
      simp only [hprune] at h
      split_ifs at h <;> simp at h
    | some after =>
      simp only [hprune] at h
      split_ifs at h <;> simp only [Prod.mk.injEq, Option.some.injEq, reduceCtorEq,
        false_and] at h
      obtain ⟨hname, hafter⟩ := h
      exact ⟨hname.symm, text, rfl, by rw [hprune, hafter]⟩

/-- **Evidence survives its own capture** if, and only if, the name of the new file is not taken
and is among the last `keep`, all of the text gets to the file, and what is too many can be
removed. -/
theorem evidence_survives_iff (f : Fault) (d d' : Directory) (name : FileName)
    (h : f.captureFaultEvidence d = (some name, d')) : f.Survives d name d' ↔ f.Favourable d := by
  obtain ⟨rfl, text, hrecord, hprune⟩ := capture_eq_some h
  have hlookup := (prune_spec hprune).1
  simp only [faultFiles_insert] at hlookup
  have hself := hlookup f.name
  simp only [name_mem_oldest_iff, AList.lookup_insert] at hself
  constructor
  · rintro ⟨⟨text', hrecord', hfile⟩, hothers, hbounded⟩
    obtain rfl : text = text' := Option.some.inj (hrecord.symm.trans hrecord')
    have hremovable := (bounded_iff hprune).mp hbounded
    rw [hfile] at hself
    split_ifs at hself with hold
    constructor
    · intro content hcontent
      rcases hothers f.name content (isFaultFile_mk _) hcontent with hsame | hgone
      · rw [hfile] at hsame
        cases hsame
        exact hrecord
      · rw [hfile] at hgone
        cases hgone
    · by_contra hlate
      have hle : f.keep ≤ (faultFiles d).countP (f.name < ·) := Nat.le_of_not_lt hlate
      exact hold ⟨hle, hremovable f.name ((name_mem_oldest_iff f d).mpr hle)⟩
    · intro text' htext'
      obtain rfl : text = text' := Option.some.inj (hrecord.symm.trans htext')
      simp only [Option.some.injEq, Inode.file.injEq] at hself
      have hlength := congrArg List.length hself
      rw [List.length_take] at hlength
      omega
    · exact hremovable
  · rintro ⟨hfresh, hlatest, hwritten, hremovable⟩
    rw [if_neg fun hold => Nat.not_le_of_lt hlatest hold.1,
      List.take_of_length_le (hwritten text hrecord)] at hself
    constructor
    · exact ⟨text, hrecord, hself⟩
    · intro file content _ hcontent
      by_cases hname : file = f.name
      · subst hname
        left
        rw [hself, Option.some.inj (hrecord.symm.trans (hfresh content hcontent))]
      · rw [hlookup file, AList.lookup_insert_ne hname]
        split_ifs
        · exact Or.inr rfl
        · exact Or.inl hcontent
    · exact (bounded_iff hprune).mpr hremovable

/-! ## A clock that has gone back -/

/-- A fault with one file to keep, on a board whose driver and kernel do not answer. -/
def bare (now : ℕ) : Fault where
  dir := "/data"
  keep := 1
  reason := []
  service := .obj []
  readAttribute := fun _ => .error []
  klog := .error []
  capturedAt := now
  nowMs := 1000 * now
  stampedAt := now
  opens := true
  good := true
  reached := 4096
  listing := .complete
  removes := fun _ => true
  json := default

/-- The time at which a boot starts, on 26 June 2025. -/
def bootTime : ℕ := 1750896000

/-- A time a year later. -/
def lastBoot : ℕ := 1781481600

/-- A directory with the evidence of an earlier fault. -/
def evidenceOf (now : ℕ) : Directory := AList.singleton (bare now).name (.file [])

theorem evidence_survives_iff_later :
    (bare lastBoot).Survives (evidenceOf bootTime) (bare lastBoot).name
      ((bare lastBoot).captureFaultEvidence (evidenceOf bootTime)).2 := by
  have hcapture : (bare lastBoot).captureFaultEvidence (evidenceOf bootTime) =
      (some (bare lastBoot).name,
        ((bare lastBoot).captureFaultEvidence (evidenceOf bootTime)).2) :=
    Prod.ext (by decide +kernel) rfl
  have hlookup : (evidenceOf bootTime).lookup (bare lastBoot).name = none := by decide +kernel
  have hlength : (bare lastBoot).record.all (fun text => decide (text.length ≤ 4096)) = true := by
    decide +kernel
  apply (evidence_survives_iff _ _ _ _ hcapture).mpr
  constructor
  · intro content hcontent
    rw [hlookup] at hcontent
    cases hcontent
  · decide +kernel
  · intro text htext
    rw [htext] at hlength
    exact of_decide_eq_true hlength
  · intro file _
    rfl

/-- After a boot the clock is behind: the path of the evidence is returned, but the file is
gone. -/
theorem evidence_pruned :
    1 ≤ (bare bootTime).keep ∧
      ((bare bootTime).captureFaultEvidence (evidenceOf lastBoot)).1 =
        some (bare bootTime).name ∧
      ((bare bootTime).captureFaultEvidence (evidenceOf lastBoot)).2.lookup
        (bare bootTime).name = none := by
  decide +kernel

end Fault

end DeviceService
