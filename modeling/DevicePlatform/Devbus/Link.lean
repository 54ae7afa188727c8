/-
# One slot as a link between two threads

For the wake-ups only a few words of a slot matter: the indices of the data ring, whether the
slot is `Active`, whether the publisher is running, and the two futex words with their flags.
`Link` is this view of a slot.  There are two bells: the subscriber sleeps on `data` until the
queue is not empty or the publisher is gone, the publisher sleeps on `space` until the queue
has room or the subscriber has left.

The programs of both sides keep to the protocols `pubLink` and `subLink`, in which each sees
the other ring the bell it sleeps on.  What nobody else changes does not appear here, so that
the rest of the state may be anything.

The kernel compares 32-bit words.  For the publisher this makes no difference: while it is
about to sleep the subscriber can increment `space_futex` at most once for every queued entry
and once when it leaves (`Link.potential`).  The subscriber's word has no such bound, and the
invariant is about the states in which it has not lapped.
-/
import DevicePlatform.Devbus.Publisher
import DevicePlatform.Devbus.Subscriber

namespace Devbus

/-! ## The view -/

/-- The two bells of a slot. -/
def FutexWords.data (f : FutexWords) : Bell :=
  ⟨f.futexWord, f.sleeping, f.subscriberQueued, f.dataDue⟩
def FutexWords.space (f : FutexWords) : Bell :=
  ⟨f.spaceFutex, f.publisherWaiting, f.publisherQueued, f.spaceDue⟩

/-- What the two sides of a slot need to know to sleep and to wake each other. -/
structure Link where
  listed : Bool
  cap : ℕ
  head : ℕ
  tail : ℕ
  active : Bool
  running : Bool
  lapped : Bool
  data : Bell
  space : Bell

/-- The link of slot `s`. -/
def Bus.link (b : Bus) (s : ℕ) : Link where
  listed := decide (s < b.hdr.maxSubscribers)
  cap := b.hdr.queueCapacity
  head := (b.slot s).dataHead
  tail := (b.slot s).dataTail
  active := (b.slot s).state == .active
  running := b.publisherPid != 0
  lapped := b.lapped
  data := (b.futex s).data
  space := (b.futex s).space

section View

variable {b : Bus} {s x : ℕ}

@[simp] theorem link_setSlot {f : SlotWords → SlotWords} : (b.setSlot s f).link s =
    { b.link s with
      head := (f (b.slot s)).dataHead
      tail := (f (b.slot s)).dataTail
      active := (f (b.slot s)).state == .active } := by
  simp only [Bus.link, Bus.setSlot, Function.update_self]
  rfl

@[simp] theorem link_setFutex {f : FutexWords → FutexWords} : (b.setFutex s f).link s =
    { b.link s with data := (f (b.futex s)).data, space := (f (b.futex s)).space } := by
  simp only [Bus.link, Bus.setFutex, Function.update_self]
  rfl

theorem link_setFutex_of_ne {f : FutexWords → FutexWords} (h : s ≠ x) :
    (b.setFutex x f).link s = b.link s := by
  simp only [Bus.link, Bus.setFutex, Function.update_of_ne h]
  rfl

@[simp] theorem link_setLed {f : Ledger → Ledger} : (b.setLed x f).link s = b.link s := rfl
@[simp] theorem link_setStats {f : SlotStats → SlotStats} :
    (b.setStats x f).link s = b.link s := rfl
@[simp] theorem link_setBook {f : Book → Book} : (b.setBook f).link s = b.link s := rfl
@[simp] theorem link_setCalls {f : Calls → Calls} : (b.setCalls f).link s = b.link s := rfl
@[simp] theorem link_setSub {f : Sub → Sub} : (b.setSub x f).link s = b.link s := rfl

end View

/-! ## The protocols -/

namespace Link

/-- The queue is empty, or full. -/
def NoData (l : Link) : Prop := l.tail = l.head
def NoRoom (l : Link) : Prop := l.head = l.tail + l.cap

/-- A bound on what the subscriber can add to `space_futex`. -/
def potential (l : Link) : ℕ :=
  l.space.word + (l.head - l.tail) + (if l.space.due = .bump then 1 else 0) + l.active.toNat

/-- The queue fits, and nobody sleeps through what it waits for without a wake-up being due. -/
structure Ok (l : Link) : Prop where
  listed : l.listed = true
  cap_pos : 0 < l.cap
  cap_le : l.cap ≤ 2 ^ 31
  tail_le : l.tail ≤ l.head
  queue_le : l.head ≤ l.tail + l.cap
  data : l.lapped = false → l.data.Ok (l.NoData ∧ l.running = true)
  space : l.space.Ok (l.NoRoom ∧ l.active = true)

/-- What the subscriber sees of the publisher. -/
structure ByPublisher (l m : Link) : Prop where
  cap : m.cap = l.cap
  active : m.active = l.active
  head : l.head ≤ m.head
  tail : l.tail ≤ m.tail
  spaceWord : m.space.word = l.space.word
  spaceDue : m.space.due = l.space.due
  data : l.data.Rings m.data
  empty : l.data.Heard m.data l.NoData m.NoData
  running : l.data.Heard m.data (l.running = true) (m.running = true)

/-- What the publisher sees of the subscriber. -/
structure BySubscriber (l m : Link) : Prop where
  cap : m.cap = l.cap
  head : m.head = l.head
  tail : l.tail ≤ m.tail
  dataWord : m.data.word = l.data.word
  dataDue : m.data.due = l.data.due
  space : l.space.Rings m.space
  full : l.space.Heard m.space l.NoRoom m.NoRoom
  active : l.space.Heard m.space (l.active = true) (m.active = true)
  potential : m.potential ≤ l.potential

variable {l m n : Link}

theorem ByPublisher.refl (l : Link) : ByPublisher l l :=
  ⟨rfl, rfl, Nat.le_refl _, Nat.le_refl _, rfl, rfl, .refl _, .of_imp id, .of_imp id⟩

theorem ByPublisher.trans (h : ByPublisher l m) (h' : ByPublisher m n) : ByPublisher l n where
  cap := h'.cap.trans h.cap
  active := h'.active.trans h.active
  head := Nat.le_trans h.head h'.head
  tail := Nat.le_trans h.tail h'.tail
  spaceWord := h'.spaceWord.trans h.spaceWord
  spaceDue := h'.spaceDue.trans h.spaceDue
  data := h.data.trans h'.data
  empty := .trans h.data h'.data h.empty h'.empty
  running := .trans h.data h'.data h.running h'.running

theorem BySubscriber.refl (l : Link) : BySubscriber l l :=
  ⟨rfl, rfl, Nat.le_refl _, rfl, rfl, .refl _, .of_imp id, .of_imp id, Nat.le_refl _⟩

theorem BySubscriber.trans (h : BySubscriber l m) (h' : BySubscriber m n) : BySubscriber l n where
  cap := h'.cap.trans h.cap
  head := h'.head.trans h.head
  tail := Nat.le_trans h.tail h'.tail
  dataWord := h'.dataWord.trans h.dataWord
  dataDue := h'.dataDue.trans h.dataDue
  space := h.space.trans h'.space
  full := .trans h.space h'.space h.full h'.full
  active := .trans h.space h'.space h.active h'.active
  potential := Nat.le_trans h'.potential h.potential

end Link

open Link

/-- The protocol of a thread that relies on `R` and guarantees `G` about the link of slot
`s`. -/
def linkProtocol (s : ℕ) (R G : Link → Link → Prop) (hrefl : ∀ l, R l l)
    (htrans : ∀ {l m n}, R l m → R m n → R l n) (hg : ∀ l, G l l) : Protocol Bus where
  inv b := (b.link s).Ok
  rely b d := R (b.link s) (d.link s)
  guar b d := G (b.link s) (d.link s)
  assumed _ := True
  total := False
  rely_refl _ := hrefl _
  rely_trans := htrans
  guar_refl _ := hg _

/-- The protocols of the two sides. -/
def pubLink (s : ℕ) : Protocol Bus :=
  linkProtocol s BySubscriber ByPublisher BySubscriber.refl BySubscriber.trans ByPublisher.refl
def subLink (s : ℕ) : Protocol Bus :=
  linkProtocol s ByPublisher BySubscriber ByPublisher.refl ByPublisher.trans BySubscriber.refl

/-- The step does not show on the link. -/
def SameLink (s : ℕ) (b d : Bus) : Prop := d.link s = b.link s

section Same

variable {s : ℕ} {R G : Link → Link → Prop} {hrefl : ∀ l, R l l}
  {htrans : ∀ {l m n}, R l m → R m n → R l n} {hg : ∀ l, G l l}
  {α β : Type} {Q : α → Bus → Prop} {b : Bus}

/-- A step that shows on the link as `f`. -/
theorem wp_update_link {g : Bus → β × Bus} {k : β → Prog Bus α} (f : Link → Link) (v : Link → β)
    (hl : ∀ t, R (b.link s) (t.link s) → (g t).1 = v (t.link s) ∧ (g t).2.link s = f (t.link s))
    (h : ∀ l, R (b.link s) l → l.Ok → (f l).Ok ∧ G l (f l) ∧ ∀ d : Bus, d.link s = f l →
      (k (v l)).wp (linkProtocol s R G hrefl htrans hg) Q d) :
    (Prog.update g >>= k).wp (linkProtocol s R G hrefl htrans hg) Q b := by
  refine Prog.wp_update fun t hr hi _ => ?_
  obtain ⟨hv, hlink⟩ := hl t hr
  obtain ⟨hok, hguar, hk⟩ := h _ hr hi
  have hok' : ((g t).2.link s).Ok := hlink ▸ hok
  have hguar' : G (t.link s) ((g t).2.link s) := hlink ▸ hguar
  exact ⟨hok', hguar', hv ▸ hk _ hlink⟩

theorem wp_write_link {g : Bus → Bus} {k : Unit → Prog Bus α} (f : Link → Link)
    (hl : ∀ t, R (b.link s) (t.link s) → (g t).link s = f (t.link s))
    (h : ∀ l, R (b.link s) l → l.Ok → (f l).Ok ∧ G l (f l) ∧ ∀ d : Bus, d.link s = f l →
      (k ()).wp (linkProtocol s R G hrefl htrans hg) Q d) :
    (Prog.write g >>= k).wp (linkProtocol s R G hrefl htrans hg) Q b := by
  refine Prog.wp_write fun t hr hi _ => ?_
  have hlink := hl t hr
  obtain ⟨hok, hguar, hk⟩ := h _ hr hi
  have hok' : ((g t).link s).Ok := hlink ▸ hok
  have hguar' : G (t.link s) ((g t).link s) := hlink ▸ hguar
  exact ⟨hok', hguar', hk _ hlink⟩

/-- A store that does not show on the link is as good as a load. -/
theorem wp_write_same {g : Bus → Bus} {k : Unit → Prog Bus α} (hs : ∀ t, SameLink s t (g t))
    (h : ∀ d, R (b.link s) (d.link s) → (d.link s).Ok →
      (k ()).wp (linkProtocol s R G hrefl htrans hg) Q d) :
    (Prog.write g >>= k).wp (linkProtocol s R G hrefl htrans hg) Q b := by
  refine Prog.wp_write fun t hr hi _ => ?_
  have hl : (g t).link s = t.link s := hs t
  have hr' : R (b.link s) ((g t).link s) := hl ▸ hr
  have hi' : ((g t).link s).Ok := hl ▸ hi
  have hguar : G (t.link s) ((g t).link s) := hl ▸ hg _
  exact ⟨hi', hguar, h _ hr' hi'⟩

/-- A program that does not show on the link keeps what the thread knows about the link. -/
theorem wp_same {p : Prog Bus α} (J : Link → Prop) (hJ : ∀ l m, J l → R l m → J m)
    (h : p.Within (SameLink s)) (hb : J (b.link s)) :
    p.wp (linkProtocol s R G hrefl htrans hg) (fun _ d => J (d.link s)) b := by
  refine Prog.wp_of_within (fun d => J (d.link s)) ?_ h ?_ ?_ hb
  · exact id
  · intro t u ht hi hu
    have hl : u.link s = t.link s := hu
    have hi' : (u.link s).Ok := hl ▸ hi
    have hguar : G (t.link s) (u.link s) := hl ▸ hg _
    exact ⟨hl ▸ ht, hi', hguar⟩
  · intro t u ht hr _
    exact hJ _ _ ht hr

end Same

/-! ## Steps of the publisher -/

namespace Link

variable {l m : Link}

/-- The bells of a link. -/
def onData (f : Bell → Bell) (l : Link) : Link := { l with data := f l.data }
def onSpace (f : Bell → Bell) (l : Link) : Link := { l with space := f l.space }

/-- An entry is pushed, or evicted. -/
def push (l : Link) : Link := { l with head := l.head + 1, data := l.data.event }
def evict (l : Link) : Link := { l with tail := l.tail + 1 }

/-- The publisher shuts down. -/
def stop (l : Link) : Link := { l with running := false, data := l.data.event }

/-- What the publisher knows of the link outside of `deliver`. -/
structure PubAwake (l : Link) : Prop where
  awake : l.space.queued = false
  due : l.data.due = .nothing

theorem PubAwake.move (h : PubAwake l) (hm : BySubscriber l m) : PubAwake m :=
  ⟨hm.space.awake h.awake, hm.dataDue.trans h.due⟩

/-- What it knows inside of `deliver`, which has read `data_head` and the capacity. -/
structure InDeliver (head cap : ℕ) (l : Link) : Prop extends PubAwake l where
  head_eq : l.head = head
  cap_eq : l.cap = cap

theorem InDeliver.move {head cap : ℕ} (h : InDeliver head cap l) (hm : BySubscriber l m) :
    InDeliver head cap m :=
  ⟨h.toPubAwake.move hm, hm.head.trans h.head_eq, hm.cap.trans h.cap_eq⟩

/-- There is room for an entry. -/
def HasRoom (head cap : ℕ) (l : Link) : Prop := InDeliver head cap l ∧ head < l.tail + cap

theorem HasRoom.move {head cap : ℕ} (h : HasRoom head cap l) (hm : BySubscriber l m) :
    HasRoom head cap m :=
  ⟨h.1.move hm, Nat.lt_of_lt_of_le h.2 (Nat.add_le_add_right hm.tail _)⟩

/-- How the queue looks to a `deliver` that has found it full. -/
theorem InDeliver.full {head cap : ℕ} (h : InDeliver head cap l) (hok : l.Ok)
    (hfull : ¬ u64Sub head l.tail < cap) : l.NoRoom := by
  have hle := hok.tail_le
  have hq := hok.queue_le
  have hcap := hok.cap_le
  rw [← h.head_eq, ← h.cap_eq, u64Sub_eq hle (by omega)] at hfull
  unfold NoRoom
  omega

theorem InDeliver.room {head cap : ℕ} (h : InDeliver head cap l) (hok : l.Ok)
    (hroom : u64Sub head l.tail < cap) : HasRoom head cap l := by
  have hle := hok.tail_le
  have hq := hok.queue_le
  have hcap := hok.cap_le
  refine ⟨h, ?_⟩
  rw [← h.head_eq, ← h.cap_eq, u64Sub_eq hle (by omega)] at hroom
  rw [← h.head_eq, ← h.cap_eq]
  omega

/-- `space_futex` has been read as `w`; its increments since then are few. -/
structure Counted (w : ℕ) (l : Link) : Prop where
  le : w ≤ l.space.word
  bound : l.potential ≤ w + l.cap + 2

theorem Counted.move {w : ℕ} (h : Counted w l) (hm : BySubscriber l m) : Counted w m :=
  ⟨Nat.le_trans h.le hm.space.word, hm.cap ▸ Nat.le_trans hm.potential h.bound⟩

theorem Counted.start (h : l.Ok) : Counted l.space.word l := by
  refine ⟨Nat.le_refl _, ?_⟩
  have hq := h.queue_le
  have ha := l.active.toNat_le
  unfold potential
  split <;> omega

/-- The 32-bit comparison is one of the numbers. -/
theorem Counted.eq_of_mod {w : ℕ} (h : Counted w l) (hok : l.Ok)
    (hw : l.space.word % 2 ^ 32 = w % 2 ^ 32) : l.space.word = w := by
  have hle := h.le
  have hb := h.bound
  have hcap := hok.cap_le
  unfold potential at hb
  omega

theorem Ok.push (h : l.Ok) (haw : l.space.queued = false) (hroom : l.head < l.tail + l.cap) :
    l.push.Ok where
  listed := h.listed
  cap_pos := h.cap_pos
  cap_le := h.cap_le
  tail_le := Nat.le_succ_of_le h.tail_le
  queue_le := hroom
  data hlap := (h.data hlap).event
  space := .of_awake haw

theorem ByPublisher.push : ByPublisher l l.push :=
  ⟨rfl, rfl, Nat.le_succ _, Nat.le_refl _, rfl, rfl, Bell.rings_event, Bell.heard_event,
    Bell.heard_event⟩

theorem Ok.evict (h : l.Ok) (haw : l.space.queued = false) (hlt : l.tail < l.head) :
    l.evict.Ok where
  listed := h.listed
  cap_pos := h.cap_pos
  cap_le := h.cap_le
  tail_le := hlt
  queue_le := by
    have := h.queue_le
    simp only [Link.evict]
    omega
  data hlap := (h.data hlap).mono fun hq => absurd hq.1 (Nat.ne_of_lt hlt)
  space := .of_awake haw

theorem ByPublisher.evict (hlt : l.tail < l.head) : ByPublisher l l.evict :=
  ⟨rfl, rfl, Nat.le_refl _, Nat.le_succ _, rfl, rfl, .refl _,
    .of_imp fun he => absurd he (Nat.ne_of_lt hlt), .of_imp id⟩

theorem Ok.stop (h : l.Ok) : l.stop.Ok :=
  ⟨h.listed, h.cap_pos, h.cap_le, h.tail_le, h.queue_le, fun hlap => (h.data hlap).event, h.space⟩

theorem ByPublisher.stop : ByPublisher l l.stop :=
  ⟨rfl, rfl, Nat.le_refl _, Nat.le_refl _, rfl, rfl, Bell.rings_event, Bell.heard_event,
    Bell.heard_event⟩

/-- A step of the waker on the data bell. -/
theorem Ok.onData {f : Bell → Bell} (h : l.Ok)
    (hf : ∀ quiet, l.data.Ok quiet → (f l.data).Ok quiet) : (l.onData f).Ok :=
  ⟨h.listed, h.cap_pos, h.cap_le, h.tail_le, h.queue_le, fun hlap => hf _ (h.data hlap), h.space⟩

theorem ByPublisher.onData {f : Bell → Bell} (hf : l.data.Rings (f l.data)) :
    ByPublisher l (l.onData f) :=
  ⟨rfl, rfl, Nat.le_refl _, Nat.le_refl _, rfl, rfl, hf, .of_imp id, .of_imp id⟩

/-- The publisher changes its flag, or goes to sleep. -/
theorem Ok.onSpace {f : Bell → Bell} (h : l.Ok) (hf : (f l.space).Ok (l.NoRoom ∧ l.active = true)) :
    (l.onSpace f).Ok :=
  ⟨h.listed, h.cap_pos, h.cap_le, h.tail_le, h.queue_le, h.data, hf⟩

theorem ByPublisher.onSpace {f : Bell → Bell} (hw : (f l.space).word = l.space.word)
    (hd : (f l.space).due = l.space.due) : ByPublisher l (l.onSpace f) :=
  ⟨rfl, rfl, Nat.le_refl _, Nat.le_refl _, hw, hd, .refl _, .of_imp id, .of_imp id⟩

end Link

/-! ## The publisher -/

section Publisher

open Publisher Prog

variable {s : ℕ} {b : Bus} {α : Type}

/-- The increment and the wake-up. -/
theorem wakeData_link (haw : (b.link s).space.queued = false) :
    (wakeData s).wp (pubLink s) (fun _ d => (d.link s).PubAwake) b := by
  refine wp_write_link (Link.onData Bell.bump) (fun t _ => link_setFutex) fun l hl hok => ?_
  refine ⟨hok.onData fun _ => Bell.Ok.bump, ByPublisher.onData Bell.rings_bump, fun d hd => ?_⟩
  refine wp_write_link (Link.onData Bell.wake) (fun t _ => link_setFutex) fun m hm hok => ?_
  rw [hd] at hm
  have hdue : m.data.due = .wake := hm.dataDue
  refine ⟨hok.onData fun _ _ => .of_awake rfl, ?_, fun e he => ?_⟩
  · refine ByPublisher.onData (Bell.rings_wake ?_)
    rw [hdue]
    exact Due.noConfusion
  · show (e.link s).PubAwake
    rw [he]
    exact ⟨hm.space.awake (hl.space.awake haw), rfl⟩

theorem wakeSubscriber_link (haw : (b.link s).space.queued = false) :
    (wakeSubscriber s).wp (pubLink s) (fun _ d => (d.link s).PubAwake) b := by
  refine wp_update_link (Link.onData Bell.check) (fun l => l.data.flag) (fun t _ => ?_)
    fun l hl hok => ?_
  · refine ⟨rfl, link_setFutex.trans ?_⟩
    unfold Link.onData Bell.check
    split <;> simp_all [Bus.link, FutexWords.data, FutexWords.space]
  · refine ⟨hok.onData fun _ => Bell.Ok.check, ByPublisher.onData Bell.rings_check, fun d hd => ?_⟩
    have hspace : (d.link s).space.queued = false := by
      rw [hd]
      exact hl.space.awake haw
    split
    · exact wakeData_link hspace
    · next h0 =>
      have hf : l.data.flag = 0 := not_not.mp h0
      have hdue : (d.link s).data.due = .nothing := by
        rw [hd]
        simp [Link.onData, Bell.check, hf]
      exact (⟨hspace, hdue⟩ : (d.link s).PubAwake)

theorem chargeBlocked_link {blockStart : ℕ} : (chargeBlocked s blockStart).Within (SameLink s) := by
  unfold chargeBlocked
  split
  · exact within_read fun _ => within_write (fun _ => .inr rfl) (by trivial)
  · trivial

theorem enqueue_link {chunk head cap blockStart : ℕ} {report : SendReport}
    (h : HasRoom head cap (b.link s)) :
    (enqueue s chunk head cap blockStart report).wp (pubLink s)
      (fun _ d => (d.link s).PubAwake) b := by
  refine wp_seq (wp_same (HasRoom head cap) (fun _ _ h => h.move) chargeBlocked_link h)
    fun _ d hd => ?_
  refine wp_write_same (fun _ => link_setSlot) fun e he _ => ?_
  have hroom : HasRoom head cap (e.link s) := hd.move he
  refine wp_write_link Link.push (fun t ht => ?_) fun l hl hok => ?_
  · have hhead : (t.slot s).dataHead = head := (hroom.move ht).1.head_eq
    simp only [link_setFutex, link_setCalls, link_setLed, link_setSlot, link_setBook]
    rw [← hhead]
    rfl
  · have hr := hroom.move hl
    have hlt : l.head < l.tail + l.cap := by
      rw [hr.1.head_eq, hr.1.cap_eq]
      exact hr.2
    refine ⟨hok.push hr.1.awake hlt, ByPublisher.push, fun u hu => ?_⟩
    refine wp_write_same (fun _ => link_setStats) fun v hv _ => ?_
    refine wp_seq (wakeSubscriber_link ?_) fun _ _ h => h
    refine hv.space.awake ?_
    rw [hu]
    exact hr.1.awake

/-- A publisher that has found no room after setting its flag. -/
theorem roomOrGone_link {head cap w : ℕ} (hd : InDeliver head cap (b.link s))
    (hc : Counted w (b.link s)) (hw : (b.link s).space.Watching w True) :
    (roomOrGone s head cap).wp (pubLink s) (fun r d => InDeliver head cap (d.link s) ∧
      Counted w (d.link s) ∧ (r = false →
        (d.link s).space.Watching w ((d.link s).NoRoom ∧ (d.link s).active = true))) b := by
  refine wp_read fun t ht hok => ?_
  have hdt : InDeliver head cap (t.link s) := hd.move ht
  have hct : Counted w (t.link s) := hc.move ht
  split
  · exact ⟨hdt, hct, fun h => Bool.noConfusion h⟩
  · next hfull =>
    have hwt : (t.link s).space.Watching w (t.link s).NoRoom :=
      ⟨(hw.rings ht.space (.of_imp id)).flag, hct.le, fun _ => .inl (hdt.full hok hfull)⟩
    refine wp_read fun u hu _ => ?_
    refine ⟨hdt.move hu, hct.move hu, fun hst => ?_⟩
    have hwu : (u.link s).space.Watching w (u.link s).NoRoom := hwt.rings hu.space hu.full
    have hactive : (u.link s).active = true := beq_iff_eq.mpr (not_not.mp (of_decide_eq_false hst))
    exact hwu.and ⟨hwu.flag, hwu.word, fun _ => .inl hactive⟩

theorem futexWaitSpace_link {head cap w : ℕ} (hd : InDeliver head cap (b.link s))
    (hc : Counted w (b.link s))
    (hw : (b.link s).space.Watching w ((b.link s).NoRoom ∧ (b.link s).active = true)) :
    (futexWaitSpace s w).wp (pubLink s) (fun _ d => InDeliver head cap (d.link s)) b := by
  refine wp_write_link (Link.onSpace fun c =>
    if c.word % 2 ^ 32 = w % 2 ^ 32 then { c with queued := true } else c) (fun t _ => ?_)
    fun l hl hok => ?_
  · refine link_setFutex.trans ?_
    unfold Link.onSpace
    split <;> simp_all [Bus.link, FutexWords.data, FutexWords.space]
  · have hdl := hd.move hl
    have hcl := hc.move hl
    have hwl : l.space.Watching w (l.NoRoom ∧ l.active = true) :=
      hw.rings hl.space (Bell.Heard.and hl.full hl.active)
    refine ⟨hok.onSpace ?_, ByPublisher.onSpace ?_ ?_, fun d hd => ?_⟩
    · split
      · next hmod => exact hwl.sleep (hcl.eq_of_mod hok hmod)
      · exact hok.space
    · split <;> rfl
    · split <;> rfl
    · refine wp_await id fun t hr _ hawake => ?_
      have ht : BySubscriber (d.link s) (t.link s) := hr
      rw [hd] at ht
      have hq : (t.futex s).publisherQueued = false := by simpa using hawake
      exact ⟨⟨hq, ht.dataDue.trans hdl.due⟩, ht.head.trans hdl.head_eq, ht.cap.trans hdl.cap_eq⟩

/-- What a round of `deliver` leaves. -/
def AfterRound (head cap : ℕ) (l : Link) : (ℕ × SendReport) ⊕ Admission → Prop
  | .inl _ => InDeliver head cap l
  | .inr (.room _ _) => HasRoom head cap l
  | .inr (.refused _) => l.PubAwake

/-- The publisher sets or clears its flag. -/
theorem wp_waiting {Q : α → Bus → Prop} {k : Unit → Prog Bus α} {head cap v : ℕ}
    (hd : InDeliver head cap (b.link s))
    (h : ∀ l (d : Bus), BySubscriber (b.link s) l → l.Ok →
      d.link s = l.onSpace (fun c => { c with flag := v }) → (k ()).wp (pubLink s) Q d) :
    ((Prog.write fun b => b.setFutex s fun f => { f with publisherWaiting := v }) >>= k).wp
      (pubLink s) Q b := by
  refine wp_write_link (Link.onSpace fun c => { c with flag := v }) (fun t _ => link_setFutex)
    fun l hl hok => ?_
  have haw : l.space.queued = false := (hd.move hl).awake
  exact ⟨hok.onSpace (.of_awake haw), ByPublisher.onSpace rfl rfl, fun d hd => h l d hl hok hd⟩

theorem blockRound_link {head cap blockStart : ℕ} {report : SendReport}
    (hd : InDeliver head cap (b.link s)) :
    (blockRound s head cap blockStart report).wp (pubLink s)
      (fun r d => AfterRound head cap (d.link s) r) b := by
  refine wp_read fun t ht _ => ?_
  show wp _ (blockedTooLong s (t.clock - if blockStart = 0 then t.clock else blockStart) >>= _) _ t
  generalize (if blockStart = 0 then t.clock else blockStart) = start
  have hgone : ∀ {waited : ℕ}, (blockedTooLong s waited).Within (SameLink s) := by
    refine within_read fun _ => ?_
    split
    · trivial
    · exact within_read fun _ => by trivial
  refine wp_seq (wp_same (InDeliver head cap) (fun _ _ h => h.move) hgone (hd.move ht))
    fun gone u hu => ?_
  split
  · -- refused
    refine wp_write_same (fun _ => rfl) fun v hv _ => ?_
    refine wp_write_same (fun _ => rfl) fun w hw _ => ?_
    exact ((hu.move hv).move hw).toPubAwake
  split
  · exact hu
  · -- about to sleep
    refine wp_read fun v hv hok => ?_
    have hdv : InDeliver head cap (v.link s) := hu.move hv
    have hcv : Counted (v.link s).space.word (v.link s) := .start hok
    refine wp_waiting hdv fun l x hl hok hx => ?_
    have hdl := hdv.move hl
    have hcl := hcv.move hl
    have hdx : InDeliver head cap (x.link s) := hx ▸ ⟨⟨hdl.awake, hdl.due⟩, hdl.head_eq, hdl.cap_eq⟩
    have hcx : Counted (v.link s).space.word (x.link s) := hx ▸ ⟨hcl.le, hcl.bound⟩
    have hwx : (x.link s).space.Watching (v.link s).space.word True :=
      hx ▸ ⟨Nat.one_ne_zero, hcl.le, fun _ => .inl trivial⟩
    refine wp_seq (roomOrGone_link hdx hcx hwx) fun ready y hy => ?_
    have hclear : ∀ {z : Bus}, InDeliver head cap (z.link s) →
        ((Prog.write fun b => b.setFutex s fun f => { f with publisherWaiting := 0 }) >>= fun _ =>
          (pure (.inl (start, report)) : Prog Bus ((ℕ × SendReport) ⊕ Admission))).wp (pubLink s)
          (fun r d => AfterRound head cap (d.link s) r) z := by
      intro z hz
      refine wp_waiting hz fun l x hl _ hx => ?_
      have hdl := hz.move hl
      exact (hx ▸ ⟨⟨hdl.awake, hdl.due⟩, hdl.head_eq, hdl.cap_eq⟩ : InDeliver head cap (x.link s))
    split
    · exact hclear hy.1
    · next hready =>
      refine wp_seq (futexWaitSpace_link hy.1 hy.2.1 (hy.2.2 (Bool.eq_false_iff.mpr hready)))
        fun _ z hz => ?_
      exact hclear hz

theorem evictRound_link {head tail cap blockStart : ℕ} {report : SendReport}
    (hd : InDeliver head cap (b.link s)) (hlt : tail < head) :
    (evictRound s tail cap blockStart report).wp (pubLink s)
      (fun r d => AfterRound head cap (d.link s) r) b := by
  refine wp_read fun t ht _ => ?_
  refine wp_update_link (fun l => if l.tail = tail then l.evict else l)
    (fun l => decide (l.tail = tail)) (fun u _ => ?_) fun l hl hok => ?_
  · by_cases htail : (u.slot s).dataTail = tail
    · have hlink : (u.link s).tail = tail := htail
      rw [if_pos htail, if_pos hlink, decide_eq_true hlink]
      simp only [link_setLed, link_setSlot, link_setBook, true_and]
      rw [← htail]
      rfl
    · have hlink : (u.link s).tail ≠ tail := htail
      rw [if_neg htail, if_neg hlink, decide_eq_false hlink]
      exact ⟨rfl, rfl⟩
  · have hdl := (hd.move ht).move hl
    by_cases htail : l.tail = tail
    · have hlt' : l.tail < l.head := by
        rw [htail, hdl.head_eq]
        exact hlt
      rw [if_pos htail, decide_eq_true htail]
      refine ⟨hok.evict hdl.awake hlt', ByPublisher.evict hlt', fun d hd => ?_⟩
      rw [if_pos rfl]
      refine wp_write_same (fun _ => rfl) fun e he _ => ?_
      have hdd : InDeliver head cap (d.link s) :=
        hd ▸ ⟨⟨hdl.awake, hdl.due⟩, hdl.head_eq, hdl.cap_eq⟩
      exact hdd.move he
    · rw [if_neg htail, decide_eq_false htail]
      refine ⟨hok, ByPublisher.refl _, fun d hd => ?_⟩
      rw [if_neg Bool.false_ne_true]
      exact (hd ▸ hdl : InDeliver head cap (d.link s))

theorem admitRound_link {head cap blockStart : ℕ} {policy : Overflow} {report : SendReport}
    (hd : InDeliver head cap (b.link s)) :
    (admitRound s head cap policy blockStart report).wp (pubLink s)
      (fun r d => AfterRound head cap (d.link s) r) b := by
  refine wp_update_link id (fun l => l.tail) (fun _ _ => ⟨rfl, rfl⟩) fun l hl hok => ?_
  refine ⟨hok, ByPublisher.refl _, fun d hlink => ?_⟩
  have hdl := hd.move hl
  have hdd : InDeliver head cap (d.link s) := hlink ▸ hdl
  split
  · next hroom => exact (hlink ▸ hdl.room hok hroom : HasRoom head cap (d.link s))
  · next hfull =>
    split
    · refine wp_write_same (fun _ => rfl) fun u hu _ => ?_
      exact (hdd.move hu).toPubAwake
    · refine evictRound_link hdd ?_
      have hlen : l.head = l.tail + l.cap := hdl.full hok hfull
      have hcap := hok.cap_pos
      rw [← hdl.head_eq]
      omega
    · exact blockRound_link hdd
    · exact hdd

/-- **A delivery** keeps the link in order. -/
theorem deliver_link {chunk : ℕ} {report : SendReport} (hb : (b.link s).PubAwake) :
    (deliver chunk report s).wp (pubLink s) (fun _ d => (d.link s).PubAwake) b := by
  refine wp_read fun t ht _ => ?_
  refine wp_read fun u hu _ => ?_
  refine wp_read fun v hv _ => ?_
  have hd : InDeliver (u.link s).head (t.link s).cap (v.link s) :=
    ⟨((hb.move ht).move hu).move hv, hv.head, hv.cap.trans hu.cap⟩
  refine wp_loop (fun _ d => InDeliver (u.link s).head (t.link s).cap (d.link s)) id
    (fun _ _ _ h hr _ => h.move hr) hd fun x d hd => ?_
  refine wp_mono (admitRound_link hd) ?_
  rintro (y | ⟨blockStart, report⟩ | report) e he
  · exact he
  · exact enqueue_link he
  · exact he

/-- The destructor wakes every slot. -/
theorem shutdown_link (hb : (b.link s).PubAwake) :
    shutdown.wp (pubLink s) (fun _ d => (d.link s).PubAwake) b := by
  refine wp_write_link Link.stop (fun _ _ => rfl) fun l hl hok => ?_
  refine ⟨hok.stop, ByPublisher.stop, fun d hd => ?_⟩
  have haw : (d.link s).space.queued = false := hd ▸ (hb.move hl).awake
  refine wp_read fun t ht hokt => ?_
  have hmem : s ∈ List.range t.hdr.maxSubscribers :=
    List.mem_range.mpr (of_decide_eq_true hokt.listed)
  -- the slots still to come are owed a wake-up, the others are not
  refine wp_mono (wp_fold (fun slots _ e => (e.link s).space.queued = false ∧
    (s ∉ slots → (e.link s).data.due = .nothing))
    ⟨ht.space.awake haw, fun h => absurd hmem h⟩ fun x slots _ e he => ?_) fun _ e he => ?_
  · by_cases hx : x = s
    · subst hx
      exact wp_mono (wakeData_link he.1) fun _ _ h => ⟨h.awake, fun _ => h.due⟩
    · have hsame : (wakeData x).Within (SameLink s) :=
        within_write (fun _ => .inr (link_setFutex_of_ne (Ne.symm hx)))
          (within_write (fun _ => .inr (link_setFutex_of_ne (Ne.symm hx))) (by trivial))
      refine wp_mono (wp_same (fun l => l.space.queued = false ∧
        (s ∉ x :: slots → l.data.due = .nothing)) (fun l m h hm => ?_) hsame he) fun _ _ h => ?_
      · exact ⟨hm.space.awake h.1, fun hs => hm.dataDue.trans (h.2 hs)⟩
      · refine ⟨h.1, fun hs => h.2 ?_⟩
        rw [List.mem_cons, not_or]
        exact ⟨Ne.symm hx, hs⟩
  · exact ⟨he.1, he.2 List.not_mem_nil⟩

end Publisher

/-! ## Steps of the subscriber -/

namespace Link

variable {l m : Link}

/-- An entry is taken. -/
def pop (l : Link) : Link := { l with tail := l.tail + 1, space := l.space.event }

/-- The subscriber leaves. -/
def leave (l : Link) : Link := { l with active := false, space := l.space.event }

/-- The kernel compares `futex_word` with `w`. -/
def compare (w : ℕ) (l : Link) : Link :=
  if l.data.word % 2 ^ 32 = w % 2 ^ 32 then
    { l with
      data := { l.data with queued := true }
      lapped := l.lapped || decide (l.data.word ≠ w) }
  else l

/-- What the subscriber knows of the link between its calls. -/
structure SubAwake (l : Link) : Prop where
  awake : l.data.queued = false
  due : l.space.due = .nothing

theorem SubAwake.move (h : SubAwake l) (hm : ByPublisher l m) : SubAwake m :=
  ⟨hm.data.awake h.awake, hm.spaceDue.trans h.due⟩

theorem Ok.pop (h : l.Ok) (haw : l.data.queued = false) (hlt : l.tail < l.head) : l.pop.Ok where
  listed := h.listed
  cap_pos := h.cap_pos
  cap_le := h.cap_le
  tail_le := hlt
  queue_le := by
    have := h.queue_le
    simp only [Link.pop]
    omega
  data _ := .of_awake haw
  space := h.space.event

theorem BySubscriber.pop (hdue : l.space.due = .nothing) (hlt : l.tail < l.head) :
    BySubscriber l l.pop where
  cap := rfl
  head := rfl
  tail := Nat.le_succ _
  dataWord := rfl
  dataDue := rfl
  space := Bell.rings_event
  full := Bell.heard_event
  active := Bell.heard_event
  potential := by
    simp only [Link.potential, Link.pop, Bell.event, hdue, if_true, reduceCtorEq, if_false]
    omega

theorem Ok.leave (h : l.Ok) : l.leave.Ok :=
  ⟨h.listed, h.cap_pos, h.cap_le, h.tail_le, h.queue_le, h.data, h.space.event⟩

theorem BySubscriber.leave (hdue : l.space.due = .nothing) (hactive : l.active = true) :
    BySubscriber l l.leave where
  cap := rfl
  head := rfl
  tail := Nat.le_refl _
  dataWord := rfl
  dataDue := rfl
  space := Bell.rings_event
  full := Bell.heard_event
  active := Bell.heard_event
  potential := by simp [Link.potential, Link.leave, Bell.event, hdue, hactive]

/-- A step of the waker on the space bell. -/
theorem BySubscriber.onSpace {f : Bell → Bell} (hf : l.space.Rings (f l.space))
    (hp : (l.onSpace f).potential ≤ l.potential) : BySubscriber l (l.onSpace f) :=
  ⟨rfl, rfl, Nat.le_refl _, rfl, rfl, hf, .of_imp id, .of_imp id, hp⟩

theorem BySubscriber.check : BySubscriber l (l.onSpace Bell.check) := by
  refine BySubscriber.onSpace Bell.rings_check ?_
  simp only [Link.potential, Link.onSpace, Bell.check]
  split <;> simp

theorem BySubscriber.bump (hdue : l.space.due = .bump) : BySubscriber l (l.onSpace Bell.bump) := by
  refine BySubscriber.onSpace Bell.rings_bump ?_
  simp only [Link.potential, Link.onSpace, Bell.bump, hdue, if_true, reduceCtorEq, if_false]
  omega

theorem BySubscriber.wake (hdue : l.space.due = .wake) : BySubscriber l (l.onSpace Bell.wake) := by
  refine BySubscriber.onSpace (Bell.rings_wake ?_) ?_
  · rw [hdue]
    exact Due.noConfusion
  · simp [Link.potential, Link.onSpace, Bell.wake, hdue]

/-- The subscriber changes its flag. -/
theorem BySubscriber.onData {f : Bell → Bell} (hw : (f l.data).word = l.data.word)
    (hd : (f l.data).due = l.data.due) : BySubscriber l (l.onData f) :=
  ⟨rfl, rfl, Nat.le_refl _, hw, hd, .refl _, .of_imp id, .of_imp id, Nat.le_refl _⟩

/-- **The subscriber goes to sleep**, on a word that it has not seen come round. -/
theorem Ok.compare {w : ℕ} (h : l.Ok) (hw : l.data.Watching w (l.NoData ∧ l.running = true)) :
    (l.compare w).Ok := by
  unfold Link.compare
  split
  · refine ⟨h.listed, h.cap_pos, h.cap_le, h.tail_le, h.queue_le, fun hlap => ?_, h.space⟩
    have hword : l.data.word = w := not_not.mp (of_decide_eq_false (Bool.or_eq_false_iff.mp hlap).2)
    exact hw.sleep hword
  · exact h

theorem BySubscriber.compare {w : ℕ} : BySubscriber l (l.compare w) := by
  unfold Link.compare
  split
  · exact ⟨rfl, rfl, Nat.le_refl _, rfl, rfl, .refl _, .of_imp id, .of_imp id, Nat.le_refl _⟩
  · exact .refl l

end Link

/-! ## The subscriber -/

section Subscriber

open Subscriber Prog

variable {s : ℕ} {b : Bus} {α : Type}

/-- The increment and the wake-up. -/
theorem wakeSpace_link (haw : (b.link s).data.queued = false)
    (hdue : (b.link s).space.due = .bump) :
    (wakeSpace s).wp (subLink s) (fun _ d => (d.link s).SubAwake) b := by
  refine wp_write_link (Link.onSpace Bell.bump) (fun t _ => link_setFutex) fun l hl hok => ?_
  refine ⟨hok.onSpace hok.space.bump, BySubscriber.bump (hl.spaceDue.trans hdue), fun d hd => ?_⟩
  refine wp_write_link (Link.onSpace Bell.wake) (fun t _ => link_setFutex) fun m hm hok => ?_
  rw [hd] at hm
  refine ⟨hok.onSpace (.of_awake rfl), BySubscriber.wake hm.spaceDue, fun e he => ?_⟩
  show (e.link s).SubAwake
  rw [he]
  exact ⟨hm.data.awake (hl.data.awake haw), rfl⟩

theorem wakePublisher_link (haw : (b.link s).data.queued = false)
    (hdue : (b.link s).space.due = .bump) :
    (wakePublisher s).wp (subLink s) (fun _ d => (d.link s).SubAwake) b := by
  refine wp_update_link (Link.onSpace Bell.check) (fun l => l.space.flag) (fun t _ => ?_)
    fun l hl hok => ?_
  · refine ⟨rfl, link_setFutex.trans ?_⟩
    unfold Link.onSpace Bell.check
    split <;> simp_all [Bus.link, FutexWords.data, FutexWords.space]
  · refine ⟨hok.onSpace hok.space.check, BySubscriber.check, fun d hd => ?_⟩
    have hdata : (d.link s).data.queued = false := by
      rw [hd]
      exact hl.data.awake haw
    split
    · next hf =>
      refine wakeSpace_link hdata ?_
      rw [hd, ← hdue, ← hl.spaceDue]
      simp [Link.onSpace, Bell.check, hf]
    · next h0 =>
      have hf : l.space.flag = 0 := not_not.mp h0
      have hdue : (d.link s).space.due = .nothing := by
        rw [hd]
        simp [Link.onSpace, Bell.check, hf]
      exact (⟨hdata, hdue⟩ : (d.link s).SubAwake)

/-- The destructor. -/
theorem destroy_link {i : ℕ} (h : (b.link s).SubAwake) (hactive : (b.link s).active = true) :
    (destroy i s).wp (subLink s) (fun _ d => (d.link s).SubAwake) b := by
  refine wp_write_link Link.leave (fun t _ => ?_) fun l hl hok => ?_
  · simp only [link_setFutex, link_setSub, link_setLed, link_setSlot]
    rfl
  · have hs := h.move hl
    refine ⟨hok.leave, BySubscriber.leave hs.due (hl.active.trans hactive), fun d hd => ?_⟩
    exact wakeSpace_link (hd ▸ hs.awake) (hd ▸ rfl)

/-- A round of `try_receive`. -/
theorem receiveRound_link {i : ℕ} (h : (b.link s).SubAwake) :
    (receiveRound i s).wp (subLink s) (fun _ d => (d.link s).SubAwake) b := by
  refine wp_read fun t₁ h₁ _ => ?_
  refine wp_read fun t₂ h₂ hok₂ => ?_
  have hs₂ := (h.move h₁).move h₂
  refine wp_update_link id (fun l => l.head) (fun _ _ => ⟨rfl, rfl⟩) fun l hl hok => ?_
  refine ⟨hok, BySubscriber.refl _, fun d hlink => ?_⟩
  have hsd : (d.link s).SubAwake := hlink ▸ hs₂.move hl
  split
  · refine wp_write_same (fun _ => rfl) fun e he _ => ?_
    exact hsd.move he
  · next hne =>
    -- the queue was not empty, and only this thread and the publisher move the tail
    have hlt : (t₂.link s).tail < l.head := by
      refine Nat.lt_of_le_of_ne ?_ hne
      exact Nat.le_trans hok₂.tail_le hl.head
    refine wp_read fun t₃ h₃ _ => ?_
    refine wp_update_link (fun l => if l.tail = (t₂.link s).tail then l.pop else l)
      (fun l => decide (l.tail = (t₂.link s).tail)) (fun u _ => ?_) fun m hm hok => ?_
    · by_cases htail : (u.slot s).dataTail = (t₂.slot s).dataTail
      · have hu : (u.link s).tail = (t₂.link s).tail := htail
        rw [if_pos htail, if_pos hu, decide_eq_true hu]
        simp only [link_setFutex, link_setLed, link_setSlot, true_and]
        rw [← htail]
        rfl
      · have hu : (u.link s).tail ≠ (t₂.link s).tail := htail
        rw [if_neg htail, if_neg hu, decide_eq_false hu]
        exact ⟨rfl, rfl⟩
    · have hsm := (hsd.move h₃).move hm
      by_cases htail : m.tail = (t₂.link s).tail
      · have hlt' : m.tail < m.head := by
          rw [htail]
          have hl₃ : (d.link s).head ≤ (t₃.link s).head := h₃.head
          rw [show d.link s = l from hlink] at hl₃
          exact Nat.lt_of_lt_of_le hlt (Nat.le_trans hl₃ hm.head)
        rw [if_pos htail, decide_eq_true htail]
        refine ⟨hok.pop hsm.awake hlt', BySubscriber.pop hsm.due hlt', fun e he => ?_⟩
        rw [if_pos rfl]
        refine wp_seq (wakePublisher_link (he ▸ hsm.awake) (he ▸ rfl)) fun _ f hf => ?_
        refine wp_same SubAwake (fun _ _ h => h.move)
          (within_update (fun u => .inr ?_) fun r => ?_) hf
        · split <;> rfl
        · split <;> trivial
      · rw [if_neg htail, decide_eq_false htail]
        refine ⟨hok, BySubscriber.refl _, fun e he => ?_⟩
        rw [if_neg Bool.false_ne_true]
        exact (he ▸ hsm : (e.link s).SubAwake)

theorem release_link {i : ℕ} {e : Entry} : (release i s e).Within (SameLink s) := by
  refine within_read fun _ => within_read fun _ => ?_
  refine within_write (fun _ => .inr link_setSlot) (within_write (fun _ => .inr ?_) (by trivial))
  exact (link_setSub.trans link_setLed).trans link_setSlot

/-- Looking for data after setting the flag. -/
theorem hasData_link {w : ℕ} (h : (b.link s).SubAwake) (hw : (b.link s).data.Watching w True) :
    (hasData s).wp (subLink s) (fun r d => (d.link s).SubAwake ∧
      (d.link s).data.Watching w True ∧
      (r = false → (d.link s).data.Watching w (d.link s).NoData)) b := by
  refine wp_read fun t ht _ => ?_
  refine wp_read fun u hu hok => ?_
  have hwu := (hw.rings ht.data (.of_imp id)).rings hu.data (.of_imp id)
  refine ⟨(h.move ht).move hu, hwu, fun hr => ⟨hwu.flag, hwu.word, fun _ => .inl ?_⟩⟩
  -- the tail was read first: it has not passed the head since
  have heq : (t.link s).tail = (u.link s).head := not_not.mp (of_decide_eq_false hr)
  have htail : (t.link s).tail ≤ (u.link s).tail := hu.tail
  exact Nat.le_antisymm hok.tail_le (heq ▸ htail)

/-- A subscriber that has found neither data nor the publisher gone. -/
theorem dataOrGone_link {w : ℕ} (h : (b.link s).SubAwake) (hw : (b.link s).data.Watching w True) :
    (dataOrGone s).wp (subLink s) (fun r d => (d.link s).SubAwake ∧ (r = false →
      (d.link s).data.Watching w ((d.link s).NoData ∧ (d.link s).running = true))) b := by
  refine wp_seq (hasData_link h hw) fun data t ht => ?_
  split
  · exact ⟨ht.1, fun hr => Bool.noConfusion hr⟩
  · next hdata =>
    refine wp_read fun u hu _ => ?_
    refine ⟨ht.1.move hu, fun hr => ?_⟩
    have hwu : (u.link s).data.Watching w (u.link s).NoData :=
      (ht.2.2 (Bool.eq_false_iff.mpr hdata)).rings hu.data hu.empty
    have hrun : (u.link s).running = true := bne_iff_ne.mpr (of_decide_eq_false hr)
    exact hwu.and ⟨hwu.flag, hwu.word, fun _ => .inl hrun⟩

theorem futexWaitData_link {w : ℕ} (h : (b.link s).SubAwake)
    (hw : (b.link s).data.Watching w ((b.link s).NoData ∧ (b.link s).running = true)) :
    (futexWaitData s w).wp (subLink s) (fun _ d => (d.link s).SubAwake) b := by
  refine wp_write_link (Link.compare w) (fun t _ => ?_) fun l hl hok => ?_
  · unfold Link.compare
    by_cases hmod : (t.futex s).futexWord % 2 ^ 32 = w % 2 ^ 32
    · rw [if_pos hmod, if_pos (show (t.link s).data.word % 2 ^ 32 = w % 2 ^ 32 from hmod)]
      simp only [Bus.link, Bus.setFutex, Function.update_self]
      rfl
    · rw [if_neg hmod, if_neg (show (t.link s).data.word % 2 ^ 32 ≠ w % 2 ^ 32 from hmod)]
  · have hwl := hw.rings hl.data (Bell.Heard.and hl.empty hl.running)
    refine ⟨hok.compare hwl, BySubscriber.compare, fun d hd => ?_⟩
    refine wp_await id fun t hr _ hawake => ?_
    have hq : (t.futex s).subscriberQueued = false := by simpa using hawake
    have ht : ByPublisher (d.link s) (t.link s) := hr
    refine ⟨hq, ht.spaceDue.trans ?_⟩
    rw [hd]
    unfold Link.compare
    split <;> exact (h.move hl).due

/-- The subscriber sets or clears its flag. -/
theorem wp_sleeping {Q : α → Bus → Prop} {k : Unit → Prog Bus α} {v : ℕ}
    (hb : (b.link s).SubAwake)
    (h : ∀ l (d : Bus), ByPublisher (b.link s) l →
      d.link s = l.onData (fun c => { c with flag := v }) →
      (d.link s).SubAwake → (k ()).wp (subLink s) Q d) :
    ((Prog.write fun b => b.setFutex s fun f => { f with sleeping := v }) >>= k).wp
      (subLink s) Q b := by
  refine wp_write_link (Link.onData fun c => { c with flag := v }) (fun t _ => link_setFutex)
    fun l hl hok => ?_
  have hs := hb.move hl
  refine ⟨hok.onData fun _ _ => .of_awake hs.awake, BySubscriber.onData rfl rfl, fun d hd => ?_⟩
  exact h l d hl hd (hd ▸ ⟨hs.awake, hs.due⟩)

/-- Looking for data, and looking at the clock, do not show. -/
theorem hasData_same : (hasData s).Within (SameLink s) :=
  within_read fun _ => within_read fun _ => by trivial

theorem expired_same {deadline : Option ℕ} : (expired deadline).Within (SameLink s) := by
  cases deadline with
  | none => trivial
  | some d => exact within_read fun _ => by trivial

theorem wp_awake {p : Prog Bus α} (hp : p.Within (SameLink s)) (h : (b.link s).SubAwake) :
    p.wp (subLink s) (fun _ d => (d.link s).SubAwake) b :=
  wp_same SubAwake (fun _ _ h => h.move) hp h

/-- A round of `wait`. -/
theorem waitRound_link {deadline : Option ℕ} (h : (b.link s).SubAwake) :
    (waitRound s deadline).wp (subLink s) (fun _ d => (d.link s).SubAwake) b := by
  refine wp_read fun t ht _ => ?_
  refine wp_sleeping (h.move ht) fun l d hl hd hsd => ?_
  have hw : (d.link s).data.Watching (t.link s).data.word True :=
    hd ▸ ⟨Nat.one_ne_zero, hl.data.word, fun _ => .inl trivial⟩
  refine wp_seq (dataOrGone_link hsd hw) fun ready e he => ?_
  split
  · refine wp_sleeping he.1 fun _ f _ _ hf => ?_
    exact wp_seq (wp_awake hasData_same hf) fun _ _ h => h
  · next hready =>
    have hwe := he.2 (Bool.eq_false_iff.mpr hready)
    -- the clock is looked at with the flag set
    have hlate : (expired deadline).wp (subLink s) (fun _ d => (d.link s).SubAwake ∧
        (d.link s).data.Watching (t.link s).data.word
          ((d.link s).NoData ∧ (d.link s).running = true)) e :=
      wp_same (fun l => l.SubAwake ∧ l.data.Watching (t.link s).data.word
          (l.NoData ∧ l.running = true))
        (fun l m h hm => ⟨h.1.move hm, h.2.rings hm.data (Bell.Heard.and hm.empty hm.running)⟩)
        expired_same ⟨he.1, hwe⟩
    refine wp_seq hlate fun late f hf => ?_
    split
    · exact wp_sleeping hf.1 fun _ _ _ _ h => h
    · refine wp_seq (futexWaitData_link hf.1 hf.2) fun _ g hg => ?_
      refine wp_sleeping hg fun _ f _ _ hf => ?_
      refine wp_seq (wp_awake hasData_same hf) fun data _ h => ?_
      split <;> exact h

/-- **Waiting** keeps the link in order. -/
theorem wait_link {mode : WaitMode} {timeout : Option ℕ} (h : (b.link s).SubAwake) :
    (wait s mode timeout).wp (subLink s) (fun _ d => (d.link s).SubAwake) b := by
  have hgone : publisherGone.Within (SameLink s) := within_read fun _ => by trivial
  have hspin : ∀ {deadline : Option ℕ} {n : ℕ}, (spinRound s deadline n).Within (SameLink s) := by
    intro deadline n
    refine within_seq hasData_same fun _ => ?_
    split
    · trivial
    split
    · refine within_seq (within_seq hgone fun _ => ?_) fun _ => ?_
      · split
        · trivial
        · exact expired_same
      · split
        · exact within_seq hasData_same fun _ => by trivial
        · trivial
    · trivial
  refine wp_seq (wp_awake hasData_same h) fun data t ht => ?_
  split
  · exact ht
  · refine wp_read fun u hu _ => ?_
    have hsu := ht.move hu
    split
    · refine wp_last (wp_loop (fun _ d => (d.link s).SubAwake) id
        (fun _ _ _ h hr _ => h.move hr) hsu
        fun _ d hd => wp_mono (waitRound_link hd) ?_)
      rintro (_ | r) e he
      · exact he
      · exact he
    · exact wp_awake (within_repeat fun _ => hspin) hsu

/-- **Receiving** keeps the link in order. -/
theorem tryReceive_link {i : ℕ} (h : (b.link s).SubAwake) :
    (tryReceive i s).wp (subLink s) (fun _ d => (d.link s).SubAwake) b := by
  refine wp_read fun t ht _ => ?_
  have hst := h.move ht
  split
  · exact wp_awake (within_write (fun _ => .inr rfl) (by trivial)) hst
  · refine wp_loop (fun _ d => (d.link s).SubAwake) id (fun _ _ _ h hr _ => h.move hr) hst
      fun _ d hd => wp_mono (receiveRound_link hd) ?_
    rintro (_ | r) e he
    · exact he
    · exact he

end Subscriber

end Devbus
