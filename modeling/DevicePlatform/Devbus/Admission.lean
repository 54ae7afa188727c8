/-
# What the publisher's constructor admits

`PublisherCore`'s constructor (`userspace/devbus/src/core.cpp`) computes the layout of the service
and throws if it has more chunks than 16-bit reference counts can serve.  The check comes after
the computation: `next_pow2` may not end, and the 32-bit budget may have wrapped to a small number.
`admission_iff` says for which configurations the constructor does what it is for, and
`wrapped_budget_admitted` gives one that it should have refused, and one that it never answers.

For a service that is admitted as it should be, `layout_sound` says that the two segments hold all
that is laid out in them: no slot and no payload overlaps another, and every payload is aligned.
-/
import DevicePlatform.Devbus.Layout

namespace Layout

/-! ## Admission -/

/-- The constructor up to its check: `none` if it does not get there, `some none` if it throws. -/
def publisherCore (cfg : ServiceConfig) (typeSize typeAlign : BitVec 64) : Option (Option Layout) :=
  if cfg.maxSubscribers = 0 then some none
  else (computeLayout cfg typeSize typeAlign).map fun l =>
    if l.chunkCount > 65535#32 then none else some l

/-- The constructor ends, and proceeds only with the exact budget, if that fits in 16 bits, and with
capacities that are powers of two, large enough for the completions of all chunks. -/
def Admits (cfg : ServiceConfig) (typeSize typeAlign : BitVec 64) : Prop :=
  ∃ r, publisherCore cfg typeSize typeAlign = some r ∧ ∀ l, r = some l →
    exactBudget cfg ≤ 65535 ∧ l.chunkCount.toNat = exactBudget cfg ∧
      (∃ k, l.queueCapacity.toNat = 2 ^ k) ∧ (∃ k, l.completionCapacity.toNat = 2 ^ k) ∧
      l.chunkCount.toNat ≤ l.completionCapacity.toNat

/-- A layout computation that ends has called `next_pow2` with arguments up to `2^31`; its budget
may have wrapped. -/
theorem counts_of_computeLayout {cfg : ServiceConfig} {typeSize typeAlign : BitVec 64} {l : Layout}
    (h : computeLayout cfg typeSize typeAlign = some l) :
    cfg.queueCapacity.toNat ≤ 2 ^ 31 ∧ exactBudget cfg % 2 ^ 32 ≤ 2 ^ 31 ∧
      l.chunkCount.toNat = exactBudget cfg % 2 ^ 32 := by
  simp only [computeLayout, Option.bind_eq_bind, Option.bind_eq_some_iff] at h
  obtain ⟨q, hq, r, hr, hl⟩ := h
  have hqueue : cfg.queueCapacity.toNat ≤ 2 ^ 31 := by
    obtain ⟨-, hle, hle'⟩ := nextPow2_le hq
    split_ifs at hle with hzero
    · rw [BitVec.lt_def] at hzero
      have : (1 : BitVec 32).toNat = 1 := rfl
      omega
    · omega
  obtain ⟨q', hq', hqnat⟩ := nextPow2_queue hqueue
  obtain rfl : q' = q := Option.some.inj (hq'.symm.trans hq)
  obtain ⟨-, hle, hle'⟩ := nextPow2_le hr
  rw [budget_mod hqnat] at hle
  rw [← Option.some.inj hl]
  exact ⟨hqueue, by omega, budget_mod hqnat⟩

/-- **Configuration admission.**  The constructor ends and admits a service only with its exact
budget if and only if the queue capacity is at most `2^31`, the budget modulo `2^32` is at most
`2^31`, and a budget above 65535 does not wrap to a number below it. -/
theorem admission_iff (cfg : ServiceConfig) (typeSize typeAlign : BitVec 64)
    (hsubs : 1 ≤ cfg.maxSubscribers.toNat) :
    Admits cfg typeSize typeAlign ↔
      cfg.queueCapacity.toNat ≤ 2 ^ 31 ∧ exactBudget cfg % 2 ^ 32 ≤ 2 ^ 31 ∧
        (exactBudget cfg ≤ 65535 ∨ 65535 < exactBudget cfg % 2 ^ 32) := by
  have hne : cfg.maxSubscribers ≠ 0 := by
    rintro hzero
    rw [hzero] at hsubs
    exact absurd hsubs (by decide)
  have hlt : ∀ l : Layout, l.chunkCount > 65535#32 ↔ 65535 < l.chunkCount.toNat := by
    intro l
    rw [gt_iff_lt, BitVec.lt_def]
    rfl
  unfold Admits publisherCore
  rw [if_neg hne]
  constructor
  · -- an admitted layout shows the budget modulo `2^32`, a refused one that this is too much
    rintro ⟨r, hr, hall⟩
    obtain ⟨l, hl, rfl⟩ := Option.map_eq_some_iff.mp hr
    obtain ⟨hqueue, hbudget, hcount⟩ := counts_of_computeLayout hl
    refine ⟨hqueue, hbudget, ?_⟩
    rw [← hcount, ← hlt l]
    by_cases hbig : l.chunkCount > 65535#32
    · exact .inr hbig
    · exact .inl (hall l (if_neg hbig)).1
  · rintro ⟨hqueue, hbudget, hexact⟩
    obtain ⟨l, hl, hq, hcount, hcompletion⟩ :=
      computeLayout_counts typeSize typeAlign hqueue hbudget
    refine ⟨_, Option.map_eq_some_iff.mpr ⟨l, hl, rfl⟩, ?_⟩
    intro l' hl'
    split_ifs at hl' with hbig
    cases hl'
    rw [hlt, hcount] at hbig
    have hfits : exactBudget cfg ≤ 65535 := hexact.resolve_right hbig
    have hmod : exactBudget cfg % 2 ^ 32 = exactBudget cfg := Nat.mod_eq_of_lt (by omega)
    refine ⟨hfits, hcount.trans hmod, ⟨_, hq⟩, ⟨_, hcompletion⟩, ?_⟩
    rw [hcount, hcompletion]
    exact Nat.le_pow_clog (by omega) _

/-- A service with one subscriber is admitted. -/
theorem admission_iff_one : Admits ⟨1, 4, 1, 1, 0⟩ 8 8 := by
  refine (admission_iff ⟨1, 4, 1, 1, 0⟩ 8 8 (by decide)).mpr ?_
  decide +kernel

/-- Two subscribers with queues of `2^31` entries need `2^32 + 1` chunks, and get one.  With one
entry more the constructor does not end. -/
theorem wrapped_budget_admitted :
    exactBudget ⟨2, 2 ^ 31, 0, 1, 0⟩ = 2 ^ 32 + 1 ∧
      (∃ l, publisherCore ⟨2, 2 ^ 31, 0, 1, 0⟩ 8 8 = some (some l) ∧ l.chunkCount = 1) ∧
      ¬Admits ⟨2, 2 ^ 31, 0, 1, 0⟩ 8 8 ∧ publisherCore ⟨2, 2 ^ 31 + 1, 0, 1, 0⟩ 8 8 = none := by
  have hbudget : exactBudget ⟨2, 2 ^ 31, 0, 1, 0⟩ = 2 ^ 32 + 1 := by
    show 2 * (2 ^ Nat.clog 2 (2 ^ 31) + 0) + 1 = _
    rw [Nat.clog_pow 2 31 (by decide)]
    decide
  obtain ⟨l, hl, hone⟩ :
      ∃ l, publisherCore ⟨2, 2 ^ 31, 0, 1, 0⟩ 8 8 = some (some l) ∧ l.chunkCount = 1 :=
    ⟨_, rfl, rfl⟩
  refine ⟨hbudget, ⟨l, hl, hone⟩, ?_, by decide +kernel⟩
  rintro ⟨r, hr, hall⟩
  have hfits := (hall l (Option.some.inj (hr.symm.trans hl))).1
  rw [hbudget] at hfits
  exact absurd hfits (by decide)

/-! ## Rounding up without wrap-around -/

theorem dvd_ceilTo (value align : ℕ) : align ∣ ceilTo value align := Nat.dvd_mul_left _ _

/-- A number whose rounding is below `2^64` is rounded up without wrap-around, if the alignment
divides `2^64`. -/
theorem add_le_of_ceilTo (value : ℕ) {align : ℕ} (hpos : 0 < align) (hdvd : align ∣ 2 ^ 64)
    (h : ceilTo value align < 2 ^ 64) : value + align ≤ 2 ^ 64 := by
  have hstep : ceilTo value align + align ≤ 2 ^ 64 := by
    obtain ⟨n, hn⟩ := hdvd
    rw [hn] at h ⊢
    have hlt : (value + align - 1) / align < n := by
      unfold ceilTo at h
      rw [Nat.mul_comm align] at h
      exact Nat.lt_of_mul_lt_mul_right h
    have := Nat.mul_le_mul_right align hlt
    unfold ceilTo
    rw [Nat.mul_comm align, ← Nat.succ_mul]
    exact this
  have := le_ceilTo value hpos
  omega

/-- A power-of-two alignment gives chunks an alignment that it divides, and 64 too. -/
theorem payloadAlign_dvd {typeAlign : BitVec 64} (h : ∃ k, typeAlign.toNat = 2 ^ k) :
    typeAlign.toNat ∣ (payloadAlign typeAlign).toNat ∧ 64 ∣ (payloadAlign typeAlign).toNat ∧
      (payloadAlign typeAlign).toNat ∣ 2 ^ 64 := by
  obtain ⟨k, hk⟩ := h
  have hk64 : k ≤ 64 := by
    have := typeAlign.isLt
    rw [hk] at this
    exact Nat.le_of_lt ((Nat.pow_lt_pow_iff_right (by decide)).mp this)
  unfold payloadAlign
  split_ifs with hbig
  · rw [gt_iff_lt, BitVec.lt_def, hk] at hbig
    rw [hk]
    refine ⟨dvd_rfl, ?_, Nat.pow_dvd_pow 2 hk64⟩
    have hlt : 2 ^ 6 < 2 ^ k := hbig
    exact Nat.pow_dvd_pow 2 (Nat.le_of_lt ((Nat.pow_lt_pow_iff_right (by decide)).mp hlt))
  · rw [gt_iff_lt, BitVec.lt_def, hk, Nat.not_lt] at hbig
    rw [hk]
    have hle : 2 ^ k ≤ 2 ^ 6 := hbig
    have hk6 : k ≤ 6 := (Nat.pow_le_pow_iff_right (by decide)).mp hle
    exact ⟨Nat.pow_dvd_pow 2 hk6, dvd_rfl, Nat.pow_dvd_pow 2 (by decide : 6 ≤ 64)⟩

/-! ## Regions -/

/-- The bytes `lo`, …, `lo + size - 1` of a segment. -/
structure Region where
  lo : ℕ
  size : ℕ

/-- No byte is in both. -/
def Region.Disjoint (a b : Region) : Prop := a.lo + a.size ≤ b.lo ∨ b.lo + b.size ≤ a.lo

/-- Regions at multiples of a stride that is large enough are disjoint. -/
theorem Region.disjoint_of_stride {a b : Region} {base stride i j : ℕ} (hsize : a.size ≤ stride)
    (hsame : b.size = a.size) (ha : a.lo = base + stride * i) (hb : b.lo = base + stride * j)
    (hij : i ≠ j) : a.Disjoint b := by
  rcases Nat.lt_or_gt_of_ne hij with hlt | hgt
  · have := Nat.mul_le_mul_left stride hlt
    rw [Nat.mul_succ] at this
    exact .inl (by omega)
  · have := Nat.mul_le_mul_left stride hgt
    rw [Nat.mul_succ] at this
    exact .inr (by omega)

/-- `n` such regions end before a next one would begin. -/
theorem Region.end_le_of_stride {a : Region} {base stride i n : ℕ} (hsize : a.size ≤ stride)
    (ha : a.lo = base + stride * i) (hi : i < n) : a.lo + a.size ≤ base + stride * n := by
  have := Nat.mul_le_mul_left stride hi
  rw [Nat.mul_succ] at this
  omega

/-- `slot(i)`, relative to the control segment. -/
def slotOffset (l : Layout) (i : BitVec 32) : BitVec 64 :=
  l.slotsOffset + i.setWidth 64 * l.slotStride

/-- `payload(chunk)`, relative to the data segment. -/
def payloadOffset (l : Layout) (chunk : BitVec 32) : BitVec 64 :=
  l.payloadsOffset + chunk.setWidth 64 * l.chunkStride

/-- A slot with its two rings. -/
def slotRegion (l : Layout) (i : BitVec 32) : Region :=
  ⟨(slotOffset l i).toNat, subscriberSlotSize.toNat +
    ringWordSize.toNat * (l.queueCapacity.toNat + l.completionCapacity.toNat)⟩

/-- A payload. -/
def payloadRegion (l : Layout) (typeSize : BitVec 64) (chunk : BitVec 32) : Region :=
  ⟨(payloadOffset l chunk).toNat, typeSize.toNat⟩

/-- The slots and the payloads are where they can be. -/
structure Sound (cfg : ServiceConfig) (typeSize typeAlign : BitVec 64) (l : Layout) : Prop where
  slots_apart : ∀ i j : BitVec 32, i < cfg.maxSubscribers → j < cfg.maxSubscribers → i ≠ j →
    (slotRegion l i).Disjoint (slotRegion l j)
  slots_inside : ∀ i < cfg.maxSubscribers, segmentHeaderSize.toNat ≤ (slotRegion l i).lo ∧
    (slotRegion l i).lo + (slotRegion l i).size ≤ l.totalSize.toNat
  payloads_apart : ∀ c d : BitVec 32, c < l.chunkCount → d < l.chunkCount → c ≠ d →
    (payloadRegion l typeSize c).Disjoint (payloadRegion l typeSize d)
  payloads_inside : ∀ c < l.chunkCount,
    l.chunkHeadersOffset.toNat + chunkHeaderSize.toNat * l.chunkCount.toNat ≤
        (payloadRegion l typeSize c).lo ∧
      (payloadRegion l typeSize c).lo + (payloadRegion l typeSize c).size ≤ l.dataSize.toNat
  aligned : ∀ c < l.chunkCount, typeAlign.toNat ∣ (payloadRegion l typeSize c).lo ∧
    64 ∣ (payloadRegion l typeSize c).lo

/-- The size of the data segment without wrap-around. -/
def exactDataSize (cfg : ServiceConfig) (typeSize typeAlign : BitVec 64) : ℕ :=
  let align := (payloadAlign typeAlign).toNat
  ceilTo (ceilTo (chunkHeaderSize.toNat * exactBudget cfg) align +
    ceilTo typeSize.toNat align * exactBudget cfg) 4096

section Sound

variable {cfg : ServiceConfig} {typeSize typeAlign : BitVec 64} {l : Layout}

/-- The chunks of an admitted service are where exact arithmetic puts them, if the data segment is
smaller than `2^64` bytes. -/
theorem data_of_exact (hl : computeLayout cfg typeSize typeAlign = some l)
    (hcount : l.chunkCount.toNat = exactBudget cfg) (hpos : 0 < exactBudget cfg)
    (halign : ∃ k, typeAlign.toNat = 2 ^ k)
    (hsize : exactDataSize cfg typeSize typeAlign < 2 ^ 64) :
    typeSize.toNat + (payloadAlign typeAlign).toNat ≤ 2 ^ 64 ∧
      16 * l.chunkCount.toNat + (payloadAlign typeAlign).toNat ≤ 2 ^ 64 ∧
      l.payloadsOffset.toNat + l.chunkStride.toNat * l.chunkCount.toNat + 4096 ≤ 2 ^ 64 := by
  have hsizes := sizes_of_computeLayout hl
  have hdvd := (payloadAlign_dvd halign).2.2
  have halign0 := payloadAlign_pos typeAlign
  -- the two parts of the segment are below its size
  have hsum := add_le_of_ceilTo _ (by decide) (by decide) hsize
  have hstride : ceilTo typeSize.toNat (payloadAlign typeAlign).toNat ≤
      ceilTo typeSize.toNat (payloadAlign typeAlign).toNat * exactBudget cfg :=
    Nat.le_mul_of_pos_right _ hpos
  have hchunk := add_le_of_ceilTo typeSize.toNat halign0 hdvd (by omega)
  have hheaders := add_le_of_ceilTo (chunkHeaderSize.toNat * exactBudget cfg) halign0 hdvd
    (by omega)
  rw [← hcount] at hheaders
  refine ⟨hchunk, hheaders, ?_⟩
  rw [hsizes.payloadsOffset, hsizes.chunkStride, toNat_roundUp halign0 hchunk,
    toNat_roundUp halign0 (toNat_headerBytes ▸ hheaders), toNat_headerBytes, hcount]
  exact hsum

/-- The control segment of an admitted service is small. -/
theorem control_of_exact (hl : computeLayout cfg typeSize typeAlign = some l)
    (hsubs : cfg.maxSubscribers.toNat ≤ 65535) (hcount : l.chunkCount.toNat ≤ 65535) :
    l.slotsOffset.toNat + l.slotStride.toNat * cfg.maxSubscribers.toNat + 4096 ≤ 2 ^ 64 := by
  have hsizes := sizes_of_computeLayout hl
  obtain ⟨-, hq, -, hr⟩ := capacities_of_computeLayout hl hcount
  have hslot := toNat_slotBytes hq hr
  have hstride : l.slotStride.toNat ≤ 2 ^ 34 := by
    have hle := Nat.div_mul_le_self
      (512 + 4 * (l.queueCapacity.toNat + l.completionCapacity.toNat) + 64 - 1) 64
    rw [hsizes.slotStride, toNat_roundUp (by decide) (by rw [hslot]; show _ + 64 ≤ _; omega), hslot]
    show (_ + 64 - 1) / 64 * 64 ≤ _
    omega
  have hmul := Nat.mul_le_mul hstride hsubs
  rw [hsizes.slotsOffset]
  show 192 + _ + 4096 ≤ _
  omega

/-- Every subscriber needs a chunk. -/
theorem maxSubscribers_le_budget (cfg : ServiceConfig) :
    cfg.maxSubscribers.toNat ≤ exactBudget cfg := by
  have hcap := Nat.two_pow_pos (Nat.clog 2 cfg.queueCapacity.toNat)
  have hsubs := Nat.le_mul_of_pos_right cfg.maxSubscribers.toNat
    (Nat.add_pos_left hcap cfg.maxBorrowed.toNat)
  unfold exactBudget
  omega

/-- A slot, or a chunk, is where exact arithmetic puts it. -/
theorem toNat_elementOffset {offset stride : BitVec 64} {i count : BitVec 32} {size : ℕ}
    (hi : i < count) (hsize : offset.toNat + stride.toNat * count.toNat ≤ size)
    (hlt : size < 2 ^ 64) :
    (offset + i.setWidth 64 * stride).toNat = offset.toNat + stride.toNat * i.toNat := by
  have hmul : stride.toNat * i.toNat ≤ stride.toNat * count.toNat :=
    Nat.mul_le_mul_left _ (Nat.le_of_lt hi)
  rw [BitVec.mul_comm]
  exact toNat_arrayEnd _ _ _ (by omega)

/-- **A layout with room is sound.** -/
theorem sound_of_roomy (hsizes : Sizes cfg typeSize typeAlign l) (hroomy : Roomy cfg typeSize l)
    (hfits : Fits cfg typeSize typeAlign l) (halign : ∃ k, typeAlign.toNat = 2 ^ k) :
    Sound cfg typeSize typeAlign l := by
  have hslot : ∀ i < cfg.maxSubscribers, (slotRegion l i).lo =
      l.slotsOffset.toNat + l.slotStride.toNat * i.toNat :=
    fun i hi => toNat_elementOffset hi hroomy.control l.totalSize.isLt
  have hpayload : ∀ c < l.chunkCount, (payloadRegion l typeSize c).lo =
      l.payloadsOffset.toNat + l.chunkStride.toNat * c.toNat :=
    fun c hc => toNat_elementOffset hc hroomy.data l.dataSize.isLt
  refine ⟨?_, ?_, ?_, ?_, ?_⟩
  · intro i j hi hj hij
    exact Region.disjoint_of_stride hroomy.slot rfl (hslot i hi) (hslot j hj)
      fun h => hij (BitVec.eq_of_toNat_eq h)
  · intro i hi
    refine ⟨?_, (Region.end_le_of_stride hroomy.slot (hslot i hi) hi).trans hroomy.control⟩
    rw [hslot i hi, hsizes.slotsOffset]
    exact Nat.le_add_right _ _
  · intro c d hc hd hcd
    exact Region.disjoint_of_stride hroomy.chunk rfl (hpayload c hc) (hpayload d hd)
      fun h => hcd (BitVec.eq_of_toNat_eq h)
  · intro c hc
    refine ⟨?_, (Region.end_le_of_stride hroomy.chunk (hpayload c hc) hc).trans hroomy.data⟩
    rw [hpayload c hc, hsizes.chunkHeadersOffset]
    have := hroomy.headers
    show 0 + 16 * _ ≤ _
    omega
  · intro c hc
    obtain ⟨htype, hline, -⟩ := payloadAlign_dvd halign
    -- both the offset of the payloads and their stride are multiples of the alignment
    have hdvd : (payloadAlign typeAlign).toNat ∣ (payloadRegion l typeSize c).lo := by
      have halign0 := payloadAlign_pos typeAlign
      rw [hpayload c hc, hsizes.payloadsOffset, hsizes.chunkStride,
        toNat_roundUp halign0 hfits.chunk,
        toNat_roundUp halign0 (toNat_headerBytes ▸ hfits.headers)]
      exact Nat.dvd_add (dvd_ceilTo _ _) (dvd_mul_of_dvd_left (dvd_ceilTo _ _) _)
    exact ⟨htype.trans hdvd, hline.trans hdvd⟩

/-- A layout with no slot and no chunk is sound. -/
theorem sound_of_empty (hsubs : cfg.maxSubscribers.toNat = 0) (hcount : l.chunkCount.toNat = 0) :
    Sound cfg typeSize typeAlign l := by
  have hslot : ∀ i : BitVec 32, ¬i < cfg.maxSubscribers := fun i hi => by
    rw [BitVec.lt_def] at hi
    omega
  have hchunk : ∀ c : BitVec 32, ¬c < l.chunkCount := fun c hc => by
    rw [BitVec.lt_def] at hc
    omega
  exact ⟨fun i _ hi => absurd hi (hslot i), fun i hi => absurd hi (hslot i),
    fun c _ hc => absurd hc (hchunk c), fun c hc => absurd hc (hchunk c),
    fun c hc => absurd hc (hchunk c)⟩

/-- **The shared-memory layout is sound**, for every configuration with an exact budget of at most
65535 chunks, every power-of-two alignment and every type for which the data segment is smaller than
`2^64` bytes; with a subscriber the computation ends. -/
theorem layout_sound (cfg : ServiceConfig) (typeSize typeAlign : BitVec 64)
    (hbudget : exactBudget cfg ≤ 65535) (halign : ∃ k, typeAlign.toNat = 2 ^ k)
    (hsize : exactDataSize cfg typeSize typeAlign < 2 ^ 64) :
    (1 ≤ cfg.maxSubscribers.toNat → ∃ l, computeLayout cfg typeSize typeAlign = some l) ∧
      ∀ l, computeLayout cfg typeSize typeAlign = some l → Sound cfg typeSize typeAlign l := by
  constructor
  · intro hsubs
    obtain ⟨l, hl, -⟩ := computeLayout_exact typeSize typeAlign hsubs hbudget
    exact ⟨l, hl⟩
  · intro l hl
    have hsubs := maxSubscribers_le_budget cfg
    have hcount : l.chunkCount.toNat = exactBudget cfg := by
      rw [(counts_of_computeLayout hl).2.2]
      exact Nat.mod_eq_of_lt (by omega)
    rcases Nat.eq_zero_or_pos (exactBudget cfg) with hzero | hpos
    · exact sound_of_empty (by omega) (by omega)
    · have hcontrol := control_of_exact hl (by omega) (by omega)
      obtain ⟨hchunk, hheaders, hdata⟩ := data_of_exact hl hcount hpos halign hsize
      have hfits : Fits cfg typeSize typeAlign l := ⟨hchunk, hheaders, hcontrol, hdata⟩
      have hroomy := computeLayout_roomy hl (by omega) hfits
      exact sound_of_roomy (sizes_of_computeLayout hl) hroomy hfits halign

/-- A service with four subscribers and a type of 24 bytes. -/
theorem layout_sound_four : ∃ l, computeLayout ⟨4, 16, 4, 2, 0⟩ 24 8 = some l ∧
    Sound ⟨4, 16, 4, 2, 0⟩ 24 8 l := by
  obtain ⟨hends, hsound⟩ := layout_sound ⟨4, 16, 4, 2, 0⟩ 24 8 (by decide +kernel) ⟨3, rfl⟩
    (by decide +kernel)
  obtain ⟨l, hl⟩ := hends (by decide)
  exact ⟨l, hl, hsound l hl⟩

end Sound

end Layout
