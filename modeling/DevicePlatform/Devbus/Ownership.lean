/-
# One publisher of a service

`O_EXCL` protects a name only while it exists.  A constructor that opens a segment whose creator
has not stored its pid yet takes it for that of a publisher that has crashed, and unlinks it; and a
destructor unlinks by name whatever has been created there since.  `two_running_publishers` is a
run in which two publishers of a service end up running.

`one_publisher` says that this is the only way: if nothing takes a name from a publisher that is
running or may come to run, then at most one publisher of a service is running, and both names
refer to the segments that it has created.
-/
import DevicePlatform.Devbus.Admission
import DevicePlatform.Devbus.Collisions

namespace Devbus

namespace Registry

/-- The file refers to a segment that publisher `i` has created. -/
def Holds (i : ℕ) (x : Shm) (file : Bytes) (id : ℕ) : Prop :=
  x.dir.lookup file = some id ∧ Created i id x

/-- Both names of a service refer to the segments of publisher `i`. -/
def Named (i : ℕ) (service : Bytes) (h : Handles) (x : Shm) : Prop :=
  Holds i x (fileOf (shmName service)) h.seg ∧ Holds i x (fileOf (shmDataName service)) h.dataSeg

/-- A constructor that can only throw. -/
def Doomed (p : Prog Shm (Except Bytes Handles)) : Prop :=
  p.Keeps (fun _ => True) fun r => ∀ h, r ≠ .ok h

/-- So is one whose configuration fails the checks of `Layout.publisherCore`. -/
theorem doomed_of_publisherCore {cfg : ServiceConfig} {typeSize typeAlign : BitVec 64}
    (h : Layout.publisherCore cfg typeSize typeAlign = some none) (i : ℕ) (service : Bytes) :
    Doomed (construct i service cfg typeSize typeAlign) := by
  unfold Layout.publisherCore at h
  intro x
  rw [construct]
  split_ifs at h ⊢ with hzero
  · rintro _ ⟨⟩
  · obtain ⟨l, hl, hcheck⟩ := Option.map_eq_some_iff.mp h
    apply Prog.wp_attempt id
    rintro t - - l' u hl'
    rw [hl] at hl'
    cases hl'
    refine ⟨trivial, trivial, ?_⟩
    have hbig : l.chunkCount > 65535 := by
      by_contra hsmall
      cases (if_neg hsmall).symm.trans hcheck
    rw [if_pos hbig]
    rintro _ ⟨⟩

/-- A publisher that is running, or may come to run. -/
def Publisher.Promising : Publisher → Prop
  | .constructing p => ¬ Doomed p
  | .running _ => True
  | .absent | .destroying _ | .gone => False

/-- What happens takes no name from another publisher that is running or may come to run. -/
def Careful (x : System) (e : Happening) : Prop :=
  ∀ y, x.next e = some y → ∀ k, k ≠ e.publisher → (x.publisher k).Promising →
    ∀ file id, Holds k x.shm file id → y.shm.dir.lookup file = some id

/-! ## What a publisher has under its names -/

/-- The names of publisher `i` stay what they are. -/
def naming (i : ℕ) : Protocol Shm where
  inv _ := True
  rely x y := ∀ file id, Holds i x file id → Holds i y file id
  guar _ _ := True
  assumed _ := True
  total := False
  rely_refl _ _ _ h := h
  rely_trans hxy hyz file id h := hyz file id (hxy file id h)
  guar_refl _ := trivial

section Names

open Prog

variable {i id : ℕ} {x y s : Shm} {service : Bytes} {h : Handles}

/-- A store leaves the names alone. -/
theorem naming_modify (id : ℕ) {f : Segment → Segment}
    (hf : ∀ seg, (f seg).creator = seg.creator) : (naming i).rely x (x.modify id f) := by
  rintro file id' ⟨hlookup, hcreated⟩
  exact ⟨hlookup, hcreated.modify id hf⟩

theorem Named.rely (hx : Named i service h x) (hr : (naming i).rely x y) : Named i service h y :=
  ⟨hr _ _ hx.1, hr _ _ hx.2⟩

/-- A name is taken only if nothing is there. -/
theorem shmCreate_names (i : ℕ) (name : Bytes) (s : Shm) :
    (shmCreate i name).wp (naming i) (fun r x => ∀ id, r = .ok id →
      (naming i).rely s x ∧ Holds i x (fileOf name) id) s := by
  apply wp_choose
  intro errno
  apply wp_last
  apply wp_update
  intro t hr _ _
  dsimp only
  split_ifs with htaken
  · exact ⟨trivial, trivial, fun id h => nomatch h⟩
  · exact ⟨trivial, trivial, fun id h => nomatch h⟩
  · refine ⟨trivial, trivial, ?_⟩
    rintro _ ⟨⟩
    constructor
    · intro file id hs
      obtain ⟨hlookup, hcreated⟩ := hr file id hs
      refine ⟨?_, hcreated.of_prefix (List.prefix_append ..)⟩
      have hne : file ≠ fileOf name := by
        rintro rfl
        exact htaken (by rw [Shm.lookup, hlookup]; exact Option.some_ne_none id)
      exact (AList.lookup_insert_ne hne).trans hlookup
    · exact ⟨AList.lookup_insert _, ⟨i, 0, .zero⟩, by simp, rfl⟩

/-- Calls before the segments are created, or after that has failed. -/
theorem names_of_within {α : Type} {names : List Bytes} {q : Prog Shm α}
    (hq : q.Within (Touches names)) : q.wp (naming i) (fun _ _ => True) s :=
  wp_of_within (fun _ => True) id hq (fun _ _ _ _ _ => ⟨trivial, trivial, trivial⟩)
    (fun _ _ _ _ _ => trivial) trivial

theorem undo_names (i : ℕ) (name what : Bytes) (errno : ℕ) {Q : ℕ → Shm → Prop} :
    (undo name what errno).wp (naming i) (fun r y => ∀ id, r = .ok id → Q id y) x := by
  apply wp_seq (names_of_within (unlink_within (List.mem_singleton_self _)))
  exact fun _ _ _ id h => nomatch h

theorem create_names (i : ℕ) (name : Bytes) (size : ℕ) (s : Shm) :
    (create i name size).wp (naming i) (fun r x => ∀ id, r = .ok id →
      (naming i).rely s x ∧ Holds i x (fileOf name) id) s := by
  apply wp_seq (shmCreate_names i name s)
  rintro (errno | id) x hid
  · exact fun id h => nomatch h
  · obtain ⟨hkept, hholds⟩ := hid id rfl
    apply wp_choose
    intro fchmod
    split_ifs
    · exact undo_names ..
    · apply wp_choose
      intro ftruncate
      split_ifs
      · exact undo_names ..
      · apply wp_write
        intro y hxy _ _
        have hstore : (naming i).rely x (y.modify id fun seg => { seg with size := size }) :=
          (naming i).rely_trans hxy (naming_modify id fun _ => rfl)
        refine ⟨trivial, trivial, ?_⟩
        apply wp_choose
        intro mmap
        split_ifs
        · exact undo_names ..
        · rintro _ ⟨⟩
          exact ⟨(naming i).rely_trans hkept hstore, hstore _ _ hholds⟩

/-- A store to a segment of a publisher with its names. -/
theorem wp_named_store {α : Type} {Q : α → Shm → Prop} {f : Segment → Segment}
    {k : Unit → Prog Shm α} (hs : Named i service h s)
    (hf : ∀ seg, (f seg).creator = seg.creator)
    (hk : ∀ t, Named i service h t → (k ()).wp (naming i) Q t) :
    (write (fun x => x.modify id f) >>= k).wp (naming i) Q s := by
  apply wp_write
  intro t hr _ _
  exact ⟨trivial, trivial, hk _ ((hs.rely hr).rely (naming_modify id hf))⟩

theorem createSegments_names (i : ℕ) (service : Bytes) (cfg : ServiceConfig)
    (typeSize : BitVec 64) (l : Layout) (s : Shm) :
    (createSegments i service cfg typeSize l).wp (naming i)
      (fun r x => ∀ h, r = .ok h → Named i service h x) s := by
  apply wp_seq (names_of_within (unlink_within (List.mem_singleton_self _)))
  intro _ x _
  apply wp_seq (create_names i _ _ x)
  rintro (what | dataSeg) x hdata
  · exact fun h hr => nomatch hr
  · apply wp_seq (create_names i _ _ x)
    rintro (what | seg) y hseg
    · apply wp_seq (names_of_within (unlink_within (List.mem_singleton_self _)))
      exact fun _ _ _ h hr => nomatch hr
    · obtain ⟨hxy, hseg⟩ := hseg seg rfl
      have hnamed : Named i service ⟨seg, dataSeg⟩ y :=
        ⟨hseg, hxy _ _ (hdata dataSeg rfl).2⟩
      apply wp_named_store hnamed
      · exact fun _ => rfl
      intro t hnamed
      apply wp_choose
      intro memory
      split_ifs
      · exact fun h hr => nomatch hr
      · apply wp_named_store hnamed
        · exact fun _ => rfl
        intro t hnamed
        apply wp_named_store hnamed
        · exact fun _ => rfl
        rintro t hnamed _ ⟨⟩
        exact hnamed

/-- **If the constructor returns**, both names refer to its segments. -/
theorem construct_names (i : ℕ) (service : Bytes) (cfg : ServiceConfig)
    (typeSize typeAlign : BitVec 64) (s : Shm) :
    (construct i service cfg typeSize typeAlign).wp (naming i)
      (fun r x => ∀ h, r = .ok h → Named i service h x) s := by
  rw [construct]
  split_ifs
  · rintro h ⟨⟩
  · apply wp_attempt id
    intro t _ _ l u _
    refine ⟨trivial, trivial, ?_⟩
    split_ifs
    · rintro h ⟨⟩
    · apply wp_seq (names_of_within (existing_within service))
      rintro (what | ⟨⟨⟩⟩) u _
      · dsimp only
        split_ifs
        · rintro h ⟨⟩
        · exact createSegments_names ..
      · exact createSegments_names ..

end Names

/-! ## One publisher -/

/-- What holds of publisher `i` of a service. -/
def Publisher.Owns (i : ℕ) (service : Bytes) (x : Shm) : Publisher → Prop
  | .constructing p => Doomed p ∨
      p.wp (naming i) (fun r y => ∀ h, r = .ok h → Named i service h y) x
  | .running h => Named i service h x
  | .absent | .destroying _ | .gone => True

/-- It holds of all publishers. -/
def Owned (x : System) : Prop := ∀ i, (x.publisher i).Owns i (x.service i) x.shm

theorem eq_ret_of_result {α : Type} {p : Prog Shm α} {a : α} (h : result p = some a) :
    p = .ret a := by
  cases p <;> simp only [result, Option.some.injEq, reduceCtorEq] at h
  rw [h]

theorem owns_afterConstruct {i : ℕ} {service : Bytes} {x : Shm}
    {p : Prog Shm (Except Bytes Handles)}
    (h : Doomed p ∨ p.wp (naming i) (fun r y => ∀ h, r = .ok h → Named i service h y) x) :
    (System.afterConstruct p).Owns i service x := by
  rw [System.afterConstruct]
  split
  · rename_i hd hresult
    rw [eq_ret_of_result hresult] at h
    rcases h with hdoomed | hwp
    · exact absurd rfl (hdoomed x hd)
    · exact hwp hd rfl
  · trivial
  · exact h

/-- The others keep their names. -/
theorem Careful.rely {x y : System} {e : Happening} {k : ℕ} (hok : Careful x e) (hx : Framed x)
    (h : x.next e = some y) (hk : k ≠ e.publisher) (hlives : (x.publisher k).Promising) :
    (naming k).rely x.shm y.shm := by
  intro file id hholds
  exact ⟨hok y h k hk hlives file id hholds, (hx.touches h).created k id hholds.2⟩

theorem Publisher.Owns.rely {i : ℕ} {service : Bytes} {x y : Shm} {p : Publisher}
    (h : p.Owns i service x) (hr : p.Promising → (naming i).rely x y) : p.Owns i service y := by
  cases p with
  | absent | destroying | gone => trivial
  | running hd => exact Named.rely h (hr trivial)
  | constructing p =>
    rcases h with hdoomed | hwp
    · exact .inl hdoomed
    · by_cases hdoomed : Doomed p
      · exact .inl hdoomed
      · refine .inr (Prog.wp_rely ?_ hwp (hr hdoomed) trivial)
        intro r u v hu huv _ hd hok
        exact (hu hd hok).rely huv

/-- A publisher that something happens to. -/
theorem Publisher.Owns.moves {i : ℕ} {s s' : Bytes} {p p' : Publisher} {x y : Shm}
    (h : p.Owns i s x) (hm : Publisher.Moves i s p x s' p' y) : p'.Owns i s' y := by
  cases hm with
  | construct => exact .inr (construct_names ..)
  | constructing hs =>
    apply owns_afterConstruct
    rcases h with hdoomed | hwp
    · have hrest := (Prog.wp_step (hdoomed x) trivial hs trivial).2.2
      exact .inl fun z => Prog.wp_rely (fun _ _ _ h _ _ => h) hrest trivial trivial
    · exact .inr (Prog.wp_step hwp trivial hs trivial).2.2
  | destroying hs =>
    rw [System.afterDestruct]
    split <;> trivial
  | destroy | crash => trivial
  | traffic =>
    refine Named.rely h ((naming i).rely_trans (naming_modify _ ?_) (naming_modify _ ?_))
    · exact fun _ => rfl
    · exact fun _ => rfl

theorem Owned.next {x y : System} {e : Happening} (hx : Owned x) (hframed : Framed x)
    (hok : Careful x e) (h : x.next e = some y) : Owned y :=
  System.forall_next (P := fun k s p shm => p.Owns k s shm) h hx Publisher.Owns.moves
    fun k hk => (hx k).rely (hok.rely hframed h hk)

/-- **One publisher of a service.**  If nothing takes a name from a publisher that is running or
may come to run, at most one publisher of a service is running, and both names refer to segments
that it has created. -/
theorem one_publisher {x : System} (h : registry.Reach Careful x) :
    (∀ i j hi hj, x.publisher i = .running hi → x.publisher j = .running hj →
      x.service i = x.service j → i = j) ∧
    ∀ i hi, x.publisher i = .running hi → Named i (x.service i) hi x.shm := by
  have hinv : Owned x ∧ Framed x := by
    refine h.invariant (P := fun x => Owned x ∧ Framed x) ?_ ?_
    · rintro _ rfl
      exact ⟨fun _ => trivial, fun _ => trivial⟩
    · rintro x e y ⟨hown, hframed⟩ hok hn
      exact ⟨hown.next hframed hok hn, hframed.next hn⟩
  have hnamed : ∀ i hi, x.publisher i = .running hi → Named i (x.service i) hi x.shm := by
    intro i hi hrunning
    have hown := hinv.1 i
    rw [hrunning] at hown
    exact hown
  refine ⟨?_, hnamed⟩
  intro i j hi hj hruni hrunj hservice
  obtain ⟨hlookupi, segi, hsegi, hcreatori⟩ := (hnamed i hi hruni).1
  obtain ⟨hlookupj, segj, hsegj, hcreatorj⟩ := (hnamed j hj hrunj).1
  rw [hservice] at hlookupi
  obtain hid : hi.seg = hj.seg := Option.some.inj (hlookupi.symm.trans hlookupj)
  rw [hid] at hsegi
  obtain rfl : segi = segj := Option.some.inj (hsegi.symm.trans hsegj)
  exact hcreatori.symm.trans hcreatorj

/-! ## Runs -/

/-- What happens leaves the segments under all names that exist, or only those of publishers that
are gone are replaced. -/
def spares (x : System) (e : Happening) : Bool :=
  (x.next e).all fun y => x.shm.dir.keys.all fun file =>
    y.shm.dir.lookup file == x.shm.dir.lookup file ||
      (x.shm.dir.lookup file).all fun id => x.shm.segs[id]?.all fun seg =>
        seg.creator == e.publisher ||
          match x.publisher seg.creator with
          | .gone => true
          | _ => false

theorem careful_of_spares {x : System} {e : Happening} (h : spares x e = true) : Careful x e := by
  rintro y hy k hk hlives file id ⟨hlookup, seg, hseg, rfl⟩
  rw [spares, hy, Option.all_some, List.all_eq_true] at h
  have hfile := h file (AList.mem_keys.mp (AList.lookup_isSome.mp (by rw [hlookup]; rfl)))
  rw [hlookup, Option.all_some, hseg, Option.all_some, Bool.or_eq_true, Bool.or_eq_true] at hfile
  rcases hfile with hsame | hself | hgone
  · exact eq_of_beq hsame
  · exact absurd (eq_of_beq hself) hk
  · cases hp : x.publisher seg.creator <;> simp only [hp, reduceCtorEq] at hgone hlives
    exact hlives.elim

/-- A publisher crashes, and its successor takes the names over. -/
theorem one_publisher_after_crash : ∃ x, registry.Reach Careful x ∧
    (x.publisher 1).isRunning = true ∧
    ∀ i hi, x.publisher i = .running hi → Named i (x.service i) hi x.shm := by
  have hrun : ∃ x, registry.Reach (fun x e => spares x e = true) x ∧
      (x.publisher 1).isRunning = true :=
    Machine.exists_reach_of_exec
      (List.flatten [[.construct 0 "acq".octets smallService 16 8], List.replicate 21 (.step 0 0),
        [.crash 0, .construct 1 "acq".octets smallService 16 8], List.replicate 31 (.step 1 0)])
      rfl (by decide +kernel)
  obtain ⟨x, hx, hrunning⟩ := hrun
  have hreach := hx.mono fun _ _ => careful_of_spares
  exact ⟨x, hreach, hrunning, (one_publisher hreach).2⟩

/-- **Two publishers of one service can run.**  The first one has created both segments, but not
stored its pid, when the second one opens the control segment, reads pid 0, unlinks both names and
creates its own segments; then both finish. -/
theorem two_running_publishers :
    ¬ ∀ x, registry.Reach Machine.Always x → ∀ i j hi hj, x.publisher i = .running hi →
      x.publisher j = .running hj → x.service i = x.service j → i = j := by
  intro hall
  have hrun : ∃ x, registry.Reach Machine.Always x ∧ (x.publisher 0).isRunning = true ∧
      (x.publisher 1).isRunning = true ∧ x.service 0 = x.service 1 :=
    Machine.exists_reach_of_exec
      (List.flatten [[.construct 0 "acq".octets smallService 16 8], List.replicate 19 (.step 0 0),
        [.construct 1 "acq".octets smallService 16 8], List.replicate 29 (.step 1 0),
        List.replicate 2 (.step 0 0)])
      rfl (by decide +kernel)
  obtain ⟨x, hx, h₀, h₁, hservice⟩ := hrun
  cases hp₀ : x.publisher 0 <;> simp only [hp₀, Publisher.isRunning, Bool.false_eq_true] at h₀
  cases hp₁ : x.publisher 1 <;> simp only [hp₁, Publisher.isRunning, Bool.false_eq_true] at h₁
  exact absurd (hall x hx 0 1 _ _ hp₀ hp₁ hservice) (by decide)

end Registry

end Devbus
