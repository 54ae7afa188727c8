/-
# Service names that collide

The names of two services are apart unless they are the same once every `/` is a dot, or one is the
other followed by `.data`: then a publisher of one unlinks, opens or creates what belongs to the
other (`segment_unlinked`).  `list_services` takes every file whose name ends in `.data` for a data
segment.  `service_names_apart_iff` says exactly when services do not get in each other's way.

What a publisher touches is a frame condition on its constructor and its destructor, so it holds
whatever the others do.
-/
import DevicePlatform.Devbus.Registry
import Mathlib.Data.List.TakeWhile

namespace Devbus

namespace Registry

/-! ## Names that are apart -/

/-- The names of two services are different once every slash is a dot, and neither is the other
with `.data` after it. -/
structure Apart (s t : Bytes) : Prop where
  ne : dotted s ≠ dotted t
  left : dotted s ≠ dotted t ++ ".data".octets
  right : dotted t ≠ dotted s ++ ".data".octets

/-- A name that does not look like that of a data segment. -/
def Listable (s : Bytes) : Prop := dotted s ≠ "data".octets ∧ ¬ ".data".octets <:+ dotted s

/-- The segments of services that are apart have different names. -/
theorem segmentNames_disjoint_iff {s t : Bytes} :
    (∀ name ∈ segmentNames s, name ∉ segmentNames t) ↔ Apart s t := by
  simp only [segmentNames, shmDataName, shmName, List.mem_cons, List.not_mem_nil, or_false,
    forall_eq_or_imp, forall_eq, List.append_assoc, List.append_cancel_left_eq,
    List.append_cancel_right_eq, not_or]
  constructor
  · rintro ⟨⟨hne, hleft⟩, hright, -⟩
    exact ⟨hne, hleft, fun h => hright h.symm⟩
  · rintro ⟨hne, hleft, hright⟩
    exact ⟨⟨hne, hleft⟩, fun h => hright h.symm, hne⟩

/-- A name without a NUL byte is used as it is. -/
theorem fileOf_append {s rest : Bytes} (hs : (0 : UInt8) ∉ s) (hrest : (0 : UInt8) ∉ rest) :
    fileOf (shmName s ++ rest) = "devbus.".octets ++ (dotted s ++ rest) := by
  have hslash : "/devbus.".octets = 0x2f :: "devbus.".octets := by decide +kernel
  have hprefix : (0 : UInt8) ∉ "/devbus.".octets := by decide +kernel
  have hdotted : (0 : UInt8) ∉ dotted s := by
    intro h
    obtain ⟨c, hc, heq⟩ := List.mem_map.mp h
    split_ifs at heq
    · exact absurd heq (by decide)
    · exact hs (heq ▸ hc)
  have htake : (shmName s ++ rest).takeWhile (· ≠ 0) = shmName s ++ rest := by
    apply List.takeWhile_eq_self_iff.mpr
    intro c hc
    have hne : c ≠ 0 := by
      rintro rfl
      rw [shmName, List.mem_append, List.mem_append] at hc
      rcases hc with (h | h) | h
      · exact hprefix h
      · exact hdotted h
      · exact hrest h
    exact decide_eq_true hne
  rw [fileOf, htake, shmName, hslash]
  simp

theorem fileOf_shmName {s : Bytes} (hs : (0 : UInt8) ∉ s) :
    fileOf (shmName s) = "devbus.".octets ++ dotted s := by
  simpa using fileOf_append hs List.not_mem_nil

theorem fileOf_shmDataName {s : Bytes} (hs : (0 : UInt8) ∉ s) :
    fileOf (shmDataName s) = "devbus.".octets ++ (dotted s ++ ".data".octets) :=
  fileOf_append hs (by decide +kernel)

/-- The files of a service. -/
def files (s : Bytes) : List Bytes := (segmentNames s).map fileOf

/-- Services that are apart have different files. -/
theorem Apart.files {s t file : Bytes} (h : Apart s t) (hs : (0 : UInt8) ∉ s)
    (ht : (0 : UInt8) ∉ t) (hfile : file ∈ files s) : file ∉ files t := by
  simp only [Registry.files, segmentNames, List.map_cons, List.map_nil, fileOf_shmName,
    fileOf_shmDataName, hs, ht, not_false_eq_true, List.mem_cons, List.not_mem_nil, or_false]
    at hfile ⊢
  rintro hfile'
  rcases hfile with rfl | rfl <;> rcases hfile' with heq | heq <;>
    rw [List.append_cancel_left_eq] at heq
  · exact h.ne heq
  · exact h.left heq
  · exact h.right heq.symm
  · exact h.ne (List.append_cancel_right heq)

/-- The file of a control segment is taken for that of a data segment if the name of the service
looks like one. -/
theorem isDataFile_iff (s : Bytes) :
    isDataFile ("devbus.".octets ++ dotted s) = true ↔ ¬ Listable s := by
  have hdevbus : "devbus.".octets = [0x64, 0x65, 0x76, 0x62, 0x75, 0x73, 0x2e] := by
    decide +kernel
  have hdata : ".data".octets = [0x2e, 0x64, 0x61, 0x74, 0x61] := by decide +kernel
  have hdata' : "data".octets = [0x64, 0x61, 0x74, 0x61] := by decide +kernel
  rw [isDataFile, Listable, decide_eq_true_eq, hdevbus, hdata, hdata', List.suffix_iff_eq_drop,
    @eq_comm _ [0x2e, 0x64, 0x61, 0x74, 0x61]]
  generalize dotted s = d
  by_cases hlong : 5 ≤ d.length
  · -- the last five bytes are those of the name of the service
    have hdrop : ([0x64, 0x65, 0x76, 0x62, 0x75, 0x73, 0x2e] ++ d).drop
        (([0x64, 0x65, 0x76, 0x62, 0x75, 0x73, 0x2e] ++ d).length - 5) =
        d.drop (d.length - 5) := by
      rw [List.length_append, List.drop_append, List.drop_eq_nil_of_le (by simp; omega),
        List.nil_append]
      congr 1
      simp
      omega
    have hne : d ≠ [0x64, 0x61, 0x74, 0x61] := by
      rintro rfl
      exact absurd hlong (by decide)
    rw [hdrop]
    simp [hne]
  · -- a shorter name is `data`, with the dot before it
    match d with
    | [] => decide
    | [a] => simp
    | [a, b] => simp
    | [a, b, c] => simp
    | [a, b, c, e] => simp
    | a :: b :: c :: e :: f :: rest => simp at hlong

/-! ## What a publisher touches -/

/-- Publisher `i` has created the segment `id`. -/
def Created (i id : ℕ) (x : Shm) : Prop := ∃ seg, x.segs[id]? = some seg ∧ seg.creator = i

/-- A step opens, creates and unlinks no other files than `names`, and segments stay those of their
creators. -/
structure Touches (names : List Bytes) (x y : Shm) : Prop where
  dir : ∀ file, file ∉ names → y.dir.lookup file = x.dir.lookup file
  calls : ∃ new, y.calls = new ++ x.calls ∧ ∀ c ∈ new, c.2 ∈ names
  created : ∀ i id, Created i id x → Created i id y

theorem Created.of_prefix {i id : ℕ} {x y : Shm} (h : Created i id x) (hsegs : x.segs <+: y.segs) :
    Created i id y := by
  obtain ⟨seg, hseg, hi⟩ := h
  obtain ⟨rest, hrest⟩ := hsegs
  refine ⟨seg, ?_, hi⟩
  rw [← hrest, List.getElem?_append_left (List.getElem?_eq_some_iff.mp hseg).1]
  exact hseg

theorem Created.modify {i id : ℕ} {x : Shm} (h : Created i id x) (id' : ℕ)
    {f : Segment → Segment} (hf : ∀ seg, (f seg).creator = seg.creator) :
    Created i id (x.modify id' f) := by
  obtain ⟨seg, hseg, hi⟩ := h
  have hget : (x.modify id' f).segs[id]? = some (if id' = id then f seg else seg) := by
    rw [Shm.modify, List.getElem?_modify, hseg]
    rfl
  refine ⟨_, hget, ?_⟩
  split_ifs
  · exact (hf seg).trans hi
  · exact hi

section Footprint

open Prog

variable {names : List Bytes} {name : Bytes} {i : ℕ}

/-- A call for one of the names. -/
theorem touches_called (h : fileOf name ∈ names) (a : Access) (x y : Shm)
    (hcalls : y.calls = (x.called a name).calls)
    (hdir : ∀ file, file ≠ fileOf name → y.dir.lookup file = x.dir.lookup file)
    (hsegs : x.segs <+: y.segs) : Touches names x y where
  dir := by
    intro file hfile
    apply hdir
    rintro rfl
    exact hfile h
  calls := by
    refine ⟨[(a, fileOf name)], hcalls, ?_⟩
    intro c hc
    rw [List.mem_singleton.mp hc]
    exact h
  created := fun _ _ hc => hc.of_prefix hsegs

theorem shmOpen_within (h : fileOf name ∈ names) : (shmOpen name).Within (Touches names) := by
  apply within_choose
  intro errno
  apply within_last
  apply within_update
  · intro x
    right
    exact touches_called h .opened x _ rfl (fun _ _ => rfl) (List.prefix_refl _)
  · intro b
    trivial

theorem shmCreate_within (h : fileOf name ∈ names) : (shmCreate i name).Within (Touches names) := by
  apply within_choose
  intro errno
  apply within_last
  apply within_update
  · intro x
    right
    dsimp only
    split_ifs
    · exact touches_called h .created x _ rfl (fun _ _ => rfl) (List.prefix_refl _)
    · exact touches_called h .created x _ rfl (fun _ _ => rfl) (List.prefix_refl _)
    · exact touches_called h .created x _ rfl (fun _ hfile => AList.lookup_insert_ne hfile)
        (List.prefix_append ..)
  · intro b
    trivial

theorem unlink_within (h : fileOf name ∈ names) : (unlink name).Within (Touches names) := by
  apply within_choose
  intro errno
  apply within_last
  apply within_write
  · intro x
    right
    dsimp only
    split_ifs
    · exact touches_called h .unlinked x _ rfl (fun _ hfile => AList.lookup_erase_ne hfile)
        (List.prefix_refl _)
    · exact touches_called h .unlinked x _ rfl (fun _ _ => rfl) (List.prefix_refl _)
  · trivial

theorem undo_within (h : fileOf name ∈ names) (what : Bytes) (errno : ℕ) :
    (undo name what errno).Within (Touches names) :=
  within_seq (unlink_within h) fun _ => trivial

theorem openSegment_within (h : fileOf name ∈ names) :
    (openSegment name).Within (Touches names) := by
  apply within_seq (shmOpen_within h)
  rintro (errno | id)
  · trivial
  · apply within_choose
    intro fstat
    split_ifs
    · trivial
    · apply within_read
      intro size
      apply within_choose
      intro mmap
      split_ifs <;> trivial

theorem processAlive_within (pid : ℤ) : (processAlive pid).Within (Touches names) := by
  rw [processAlive]
  split_ifs
  · trivial
  · apply within_choose
    intro answer
    exact within_load

theorem hasLivePublisher_within (id size : ℕ) :
    (hasLivePublisher id size).Within (Touches names) := by
  rw [hasLivePublisher]
  split_ifs
  · trivial
  · apply within_read
    exact processAlive_within

theorem shmName_mem_files (service : Bytes) : fileOf (shmName service) ∈ files service := by
  simp [files, segmentNames]

theorem shmDataName_mem_files (service : Bytes) :
    fileOf (shmDataName service) ∈ files service := by
  simp [files, segmentNames]

theorem existing_within (service : Bytes) :
    (existing service).Within (Touches (files service)) := by
  apply within_seq (openSegment_within (shmName_mem_files service))
  rintro (what | ⟨id, size⟩)
  · trivial
  · apply within_seq (hasLivePublisher_within id size)
    intro alive
    split_ifs
    · trivial
    · apply within_seq (unlink_within (shmName_mem_files service))
      intro _
      exact within_seq (unlink_within (shmDataName_mem_files service)) fun _ => trivial

/-- A store to a segment. -/
theorem within_modify {α : Type} {id : ℕ} {f : Segment → Segment} {k : Unit → Prog Shm α}
    (hf : ∀ seg, (f seg).creator = seg.creator) (hk : (k ()).Within (Touches names)) :
    (write (fun x => x.modify id f) >>= k).Within (Touches names) := by
  apply within_write
  · intro x
    right
    exact ⟨fun _ _ => rfl, ⟨[], rfl, fun _ hc => absurd hc List.not_mem_nil⟩,
      fun _ _ hc => hc.modify id hf⟩
  · exact hk

theorem create_within (h : fileOf name ∈ names) (size : ℕ) :
    (create i name size).Within (Touches names) := by
  apply within_seq (shmCreate_within h)
  rintro (errno | id)
  · trivial
  · apply within_choose
    intro fchmod
    split_ifs
    · exact undo_within h ..
    · apply within_choose
      intro ftruncate
      split_ifs
      · exact undo_within h ..
      · apply within_modify
        · exact fun _ => rfl
        apply within_choose
        intro mmap
        split_ifs
        · exact undo_within h ..
        · trivial

variable (service : Bytes)

theorem createSegments_within (cfg : ServiceConfig) (typeSize : BitVec 64) (l : Layout) :
    (createSegments i service cfg typeSize l).Within (Touches (files service)) := by
  apply within_seq (unlink_within (shmDataName_mem_files service))
  intro _
  apply within_seq (create_within (shmDataName_mem_files service) _)
  rintro (what | dataSeg)
  · trivial
  · apply within_seq (create_within (shmName_mem_files service) _)
    rintro (what | seg)
    · apply within_seq (unlink_within (shmDataName_mem_files service))
      exact fun _ => trivial
    · apply within_modify
      · exact fun _ => rfl
      apply within_choose
      intro memory
      split_ifs
      · trivial
      · apply within_modify
        · exact fun _ => rfl
        apply within_modify
        · exact fun _ => rfl
        trivial

/-- **The constructor** opens, creates and unlinks only the files of its service. -/
theorem construct_within (cfg : ServiceConfig) (typeSize typeAlign : BitVec 64) :
    (construct i service cfg typeSize typeAlign).Within (Touches (files service)) := by
  rw [construct]
  split_ifs
  · trivial
  · constructor
    · intro x l y hy
      obtain ⟨l', -, heq⟩ := Option.map_eq_some_iff.mp hy
      cases heq
      exact .inl rfl
    · intro l
      show (ite _ _ _ : Prog Shm _).Within _
      split_ifs
      · trivial
      · apply within_seq (existing_within service)
        rintro (what | ⟨⟨⟩⟩)
        · dsimp only
          split_ifs
          · trivial
          · exact createSegments_within ..
        · exact createSegments_within ..

/-- **The destructor** too. -/
theorem destruct_within (h : Handles) :
    (destruct service h).Within (Touches (files service)) := by
  apply within_modify
  · exact fun _ => rfl
  apply within_seq (unlink_within (shmName_mem_files service))
  intro _
  exact unlink_within (shmDataName_mem_files service)

end Footprint

/-- What a publisher still has to do touches no other files than `names`. -/
def Publisher.Frames (names : List Bytes) : Publisher → Prop
  | .constructing p => p.Within (Touches names)
  | .destroying p => p.Within (Touches names)
  | .absent | .running _ | .gone => True

/-- Every publisher keeps to the files of its service. -/
def Framed (x : System) : Prop := ∀ i, (x.publisher i).Frames (files (x.service i))

theorem frames_afterConstruct {names : List Bytes} {p : Prog Shm (Except Bytes Handles)}
    (h : p.Within (Touches names)) : (System.afterConstruct p).Frames names := by
  rw [System.afterConstruct]
  split
  · trivial
  · trivial
  · exact h

theorem frames_afterDestruct {names : List Bytes} {p : Prog Shm Unit}
    (h : p.Within (Touches names)) : (System.afterDestruct p).Frames names := by
  rw [System.afterDestruct]
  split
  · trivial
  · exact h

theorem touches_of_eq {names : List Bytes} {x y : Shm} (hdir : y.dir = x.dir)
    (hcalls : y.calls = x.calls) (hcreated : ∀ i id, Created i id x → Created i id y) :
    Touches names x y :=
  ⟨fun _ _ => by rw [hdir], ⟨[], hcalls, fun _ hc => absurd hc List.not_mem_nil⟩, hcreated⟩

/-- Whatever happens to a publisher touches only the files of its service. -/
theorem Publisher.Frames.moves {i : ℕ} {s s' : Bytes} {p p' : Publisher} {x y : Shm}
    (h : p.Frames (files s)) (hm : Publisher.Moves i s p x s' p' y) :
    p'.Frames (files s') ∧ Touches (files s') x y := by
  cases hm with
  | construct => exact ⟨construct_within .., touches_of_eq rfl rfl fun _ _ => id⟩
  | constructing hs =>
    obtain ⟨htouch, hp'⟩ := Prog.within_step h hs
    refine ⟨frames_afterConstruct hp', ?_⟩
    rcases htouch with rfl | htouch
    · exact touches_of_eq rfl rfl fun _ _ => id
    · exact htouch
  | destroying hs =>
    obtain ⟨htouch, hp'⟩ := Prog.within_step h hs
    refine ⟨frames_afterDestruct hp', ?_⟩
    rcases htouch with rfl | htouch
    · exact touches_of_eq rfl rfl fun _ _ => id
    · exact htouch
  | destroy => exact ⟨destruct_within .., touches_of_eq rfl rfl fun _ _ => id⟩
  | crash => exact ⟨trivial, touches_of_eq rfl rfl fun _ _ => id⟩
  | traffic =>
    refine ⟨trivial, touches_of_eq rfl rfl fun _ _ hc => (hc.modify _ ?_).modify _ ?_⟩
    · exact fun _ => rfl
    · exact fun _ => rfl

theorem Framed.next {x y : System} {e : Happening} (hx : Framed x) (h : x.next e = some y) :
    Framed y :=
  System.forall_next (P := fun _ s p _ => p.Frames (files s)) h hx (fun hp hm => (hp.moves hm).1)
    fun k _ => hx k

theorem Framed.touches {x y : System} {e : Happening} (hx : Framed x) (h : x.next e = some y) :
    Touches (files (y.service e.publisher)) x.shm y.shm :=
  ((hx _).moves (System.moves_of_next h).1).2

theorem Framed.of_reach {x : System} (h : registry.Reach Machine.Always x) : Framed x := by
  apply h.invariant
  · rintro x rfl i
    trivial
  · intro x e y hx _ hn
    exact hx.next hn

/-! ## What is listed -/

/-- The control segment of a service whose publisher is alive. -/
structure LiveControl (s : Bytes) (x : Shm) (id : ℕ) (seg : Segment) : Prop where
  named : x.lookup (shmName s) = some id
  segment : x.segs[id]? = some seg
  alive : 0 < seg.control.publisherPid ∧ x.alive seg.control.publisherPid.toNat = true
  magic : seg.control.magic = magicNumber
  ready : seg.control.ready = 1
  header : headerSize ≤ seg.size
  size : seg.control.totalSize ≤ seg.size

theorem exists_liveControl (s : Bytes) : ∃ x seg, LiveControl s x 0 seg := by
  refine ⟨⟨AList.singleton (fileOf (shmName s)) 0, [⟨0, headerSize, { Control.zero with
    magic := magicNumber, publisherPid := 1, ready := 1 }⟩], fun _ => true, []⟩, _, ?_, rfl,
    ⟨by decide, rfl⟩, rfl, rfl, le_rfl, Nat.zero_le _⟩
  exact AList.lookup_insert ∅

/-- What it takes to be listed. -/
theorem serviceInfo_eq_some {opens : Bytes → Bool} {x : Shm} {file : Bytes} {info : ServiceInfo}
    (h : serviceInfo opens x file = some info) :
    info.shmName = 0x2f :: file ∧ isDataFile file = false ∧ opens (0x2f :: file) = true := by
  rw [serviceInfo] at h
  split_ifs at h with hprefix hdata hopens
  · obtain ⟨id, -, h⟩ := Option.bind_eq_some_iff.mp h
    obtain ⟨seg, -, h⟩ := Option.bind_eq_some_iff.mp h
    dsimp only at h
    split_ifs at h
    cases h
    exact ⟨rfl, by simpa using hdata, hopens⟩
  · cases h

/-- **A control segment is listed** if its name does not look like that of a data segment and it
can be opened. -/
theorem listed_iff {opens : Bytes → Bool} {s : Bytes} {x : Shm} {id : ℕ} {seg : Segment}
    (hs : (0 : UInt8) ∉ s) (h : LiveControl s x id seg) :
    shmName s ∈ (listServices opens x).map ServiceInfo.shmName ↔
      Listable s ∧ opens (shmName s) = true := by
  have hfile : 0x2f :: fileOf (shmName s) = shmName s := by
    have hslash : "/devbus.".octets = 0x2f :: "devbus.".octets := by decide +kernel
    rw [fileOf_shmName hs, shmName, hslash, List.cons_append]
  have hdata := isDataFile_iff s
  rw [← fileOf_shmName hs] at hdata
  rw [listServices, List.mem_map]
  constructor
  · rintro ⟨info, hmem, hname⟩
    obtain ⟨file, -, hinfo⟩ := List.mem_filterMap.mp hmem
    obtain ⟨hinfoName, hnotData, hopens⟩ := serviceInfo_eq_some hinfo
    have heq : file = fileOf (shmName s) := by
      rw [hinfoName, ← hfile] at hname
      exact List.tail_eq_of_cons_eq hname
    subst heq
    rw [hfile] at hopens
    rw [hnotData] at hdata
    exact ⟨by simpa using hdata, hopens⟩
  · rintro ⟨hlistable, hopens⟩
    have hnotData : isDataFile (fileOf (shmName s)) = false := by
      rw [← Bool.not_eq_true, hdata, not_not]
      exact hlistable
    have hprefix : "devbus.".octets.isPrefixOf (fileOf (shmName s)) = true := by
      rw [fileOf_shmName hs, List.isPrefixOf_iff_prefix]
      exact List.prefix_append ..
    have hinfo : ∃ info, serviceInfo opens x (fileOf (shmName s)) = some info := by
      rw [serviceInfo, hprefix, hnotData, hfile, hopens, h.named]
      simp [h.segment, h.magic, h.ready, Nat.not_lt.mpr h.header, Nat.not_lt.mpr h.size]
    obtain ⟨info, hinfo⟩ := hinfo
    refine ⟨info, List.mem_filterMap.mpr ⟨_, ?_, hinfo⟩, ?_⟩
    · have hsome : (x.dir.lookup (fileOf (shmName s))).isSome = true := by
        rw [← Shm.lookup, h.named]
        rfl
      exact AList.lookup_isSome.mp hsome
    · rw [(serviceInfo_eq_some hinfo).1, hfile]

/-! ## Services that do not get in each other's way -/

/-- The calls for a file, and what it refers to, are the same as before. -/
structure Untouched (file : Bytes) (x y : Shm) : Prop where
  dir : y.dir.lookup file = x.dir.lookup file
  calls : y.calls.filter (·.2 = file) = x.calls.filter (·.2 = file)

theorem Touches.untouched {names : List Bytes} {x y : Shm} {file : Bytes} (h : Touches names x y)
    (hfile : file ∉ names) : Untouched file x y := by
  refine ⟨h.dir file hfile, ?_⟩
  obtain ⟨new, hcalls, hnew⟩ := h.calls
  have hnone : new.filter (·.2 = file) = [] := by
    apply List.filter_eq_nil_iff.mpr
    intro c hc heq
    exact hfile (of_decide_eq_true heq ▸ hnew c hc)
  rw [hcalls, List.filter_append, hnone, List.nil_append]

/-- Publishers of `t` leave the segments of `s` alone, and `list_services` finds `s`. -/
structure Separate (opens : Bytes → Bool) (s t : Bytes) : Prop where
  /-- The names of their segments are different. -/
  disjoint : ∀ name ∈ segmentNames s, name ∉ segmentNames t
  /-- In every run, what a publisher of `t` does neither opens nor unlinks nor replaces a segment
  of `s`. -/
  untouched : ∀ x, registry.Reach Machine.Always x → ∀ e y, registry.next x e = some y →
    y.service e.publisher = t → ∀ name ∈ segmentNames s, Untouched (fileOf name) x.shm y.shm
  /-- Whatever else is in `/dev/shm`, a live control segment of `s` is listed. -/
  listed : ∀ x id seg, LiveControl s x id seg →
    shmName s ∈ (listServices opens x).map ServiceInfo.shmName

/-- **Service names do not collide** if, and only if, they are apart; and a service is listed if,
and only if, its name does not look like that of a data segment and the segment can be opened. -/
theorem service_names_apart_iff (opens : Bytes → Bool) (s t : Bytes) (hs : (0 : UInt8) ∉ s)
    (ht : (0 : UInt8) ∉ t) :
    Separate opens s t ↔ Apart s t ∧ Listable s ∧ opens (shmName s) = true := by
  constructor
  · intro h
    obtain ⟨x, seg, hlive⟩ := exists_liveControl s
    exact ⟨segmentNames_disjoint_iff.mp h.disjoint,
      (listed_iff hs hlive).mp (h.listed x 0 seg hlive)⟩
  · rintro ⟨hapart, hlist⟩
    constructor
    · exact segmentNames_disjoint_iff.mpr hapart
    · intro x hx e y hn hservice name hname
      have htouch := (Framed.of_reach hx).touches hn
      rw [hservice] at htouch
      exact htouch.untouched (hapart.files hs ht (List.mem_map_of_mem hname))
    · intro x id seg hlive
      exact (listed_iff hs hlive).mpr hlist

theorem service_names_apart_iff_acq :
    Separate (fun _ => true) "acq/imu".octets "acq/adc".octets := by
  apply (service_names_apart_iff _ _ _ (by decide +kernel) (by decide +kernel)).mpr
  exact ⟨⟨by decide +kernel, by decide +kernel, by decide +kernel⟩,
    ⟨by decide +kernel, by decide +kernel⟩, rfl⟩

/-- A publisher is running. -/
def Publisher.isRunning : Publisher → Bool
  | .running _ => true
  | _ => false

/-- One subscriber and four samples. -/
def smallService : ServiceConfig := ⟨1, 4, 1, 1, 1⟩

/-- **A publisher of `a` unlinks the control segment of `a.data`**, whose publisher is running and
not listed. -/
theorem segment_unlinked : ∃ x, registry.Reach Machine.Always x ∧
    (x.publisher 0).isRunning = true ∧ x.service 0 = "a.data".octets ∧
    x.service 1 = "a".octets ∧ x.shm.lookup (shmName "a.data".octets) = some 1 ∧
    (listServices (fun _ => true) x.shm).length = 0 ∧
    (registry.next x (.step 1 0)).map (fun y => y.shm.lookup (shmName "a.data".octets)) =
      some none :=
  Machine.exists_reach_of_exec
    (List.flatten [[.construct 0 "a.data".octets smallService 16 8],
      List.replicate 21 (.step 0 0), [.construct 1 "a".octets smallService 16 8],
      List.replicate 4 (.step 1 0)])
    rfl (by decide +kernel)

end Registry

end Devbus
