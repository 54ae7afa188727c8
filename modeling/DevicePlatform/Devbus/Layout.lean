/-
# The shared-memory layout of a devbus service

Model of `compute_layout` and the helpers it uses
(`userspace/devbus/include/devbus/detail/layout.hpp`), with the widths of the source:
counts are 32-bit, byte sizes are 64-bit.

`next_pow2` doubles a 32-bit word until it reaches its argument.  Above `2^31` the word
wraps to 0 and the loop never ends; `nextPow2` is `none` there, since after 32 rounds the
word is 0 and stays 0.

`computeLayout_exact` is what the rest of the development uses: a service whose exact
chunk budget fits in 16 bits gets exactly that many chunks, and capacities that are
powers of two.  `computeLayout_roomy` is about bytes: unless one of the 64-bit sizes wraps
(`Fits`), the segments have room for every slot with its two rings and for every chunk.
-/
import Mathlib.Data.BitVec
import Mathlib.Data.Nat.Log

/-- `ServiceConfig`. -/
structure ServiceConfig where
  maxSubscribers : BitVec 32
  queueCapacity : BitVec 32
  maxBorrowed : BitVec 32
  maxLoans : BitVec 32
  livenessCheckEvery : BitVec 32
  deriving DecidableEq, Repr

/-- `struct Layout`. -/
structure Layout where
  queueCapacity : BitVec 32
  completionCapacity : BitVec 32
  chunkCount : BitVec 32
  chunkStride : BitVec 64
  slotStride : BitVec 64
  slotsOffset : BitVec 64
  chunkHeadersOffset : BitVec 64
  payloadsOffset : BitVec 64
  totalSize : BitVec 64
  dataSize : BitVec 64
  deriving DecidableEq, Repr

namespace Layout

/-- `kCacheLine`. -/
def cacheLine : BitVec 64 := 64

/-- `sizeof(SegmentHeader)`, `sizeof(SubscriberSlot)`, `sizeof(ChunkHeader)` and
`sizeof(std::atomic<uint32_t>)`. -/
def segmentHeaderSize : BitVec 64 := 192
def subscriberSlotSize : BitVec 64 := 512
def chunkHeaderSize : BitVec 64 := 16
def ringWordSize : BitVec 64 := 4

/-- `round_up`. -/
def roundUp (value align : BitVec 64) : BitVec 64 := (value + align - 1) / align * align

/-- `while (p < v) p <<= 1`, for at most `fuel` tests. -/
def nextPow2From (v : BitVec 32) : ℕ → BitVec 32 → Option (BitVec 32)
  | 0, _ => none
  | fuel + 1, p => if p < v then nextPow2From v fuel (p <<< 1) else some p

/-- `next_pow2`. -/
def nextPow2 (v : BitVec 32) : Option (BitVec 32) := nextPow2From v 33 1

/-- `compute_layout`; `none` when one of its loops does not end. -/
def computeLayout (cfg : ServiceConfig) (typeSize typeAlign : BitVec 64) : Option Layout := do
  let queueCapacity ← nextPow2 (if cfg.queueCapacity < 1 then 1 else cfg.queueCapacity)
  let chunkCount := cfg.maxSubscribers * (queueCapacity + cfg.maxBorrowed) + cfg.maxLoans
  let completionCapacity ← nextPow2 chunkCount
  let payloadAlign := if typeAlign > cacheLine then typeAlign else cacheLine
  let chunkStride := roundUp typeSize payloadAlign
  let slotStride := roundUp (subscriberSlotSize +
    ringWordSize * (queueCapacity + completionCapacity).setWidth 64) cacheLine
  let slotsOffset := roundUp segmentHeaderSize cacheLine
  let payloadsOffset := roundUp (chunkHeaderSize * chunkCount.setWidth 64) payloadAlign
  return {
    queueCapacity, completionCapacity, chunkCount, chunkStride, slotStride, slotsOffset
    chunkHeadersOffset := 0
    payloadsOffset
    totalSize := roundUp (slotsOffset + slotStride * cfg.maxSubscribers.setWidth 64) 4096
    dataSize := roundUp (payloadsOffset + chunkStride * chunkCount.setWidth 64) 4096 }

/-! ## Powers of two -/

/-- Below `2^31` the loop reaches the least power of two that is large enough. -/
theorem nextPow2From_eq {v p : BitVec 32} {fuel k : ℕ} (hp : p.toNat = 2 ^ k)
    (hk : k ≤ Nat.clog 2 v.toNat) (hv : v.toNat ≤ 2 ^ 31)
    (hfuel : Nat.clog 2 v.toNat < fuel + k) :
    ∃ q, nextPow2From v fuel p = some q ∧ q.toNat = 2 ^ Nat.clog 2 v.toNat := by
  induction fuel generalizing p k with
  | zero => omega
  | succ fuel ih =>
      unfold nextPow2From
      split_ifs with hlt
      · rw [BitVec.lt_def, hp] at hlt
        have hk' : k < Nat.clog 2 v.toNat := (Nat.lt_clog_iff_pow_lt (by omega)).mpr hlt
        have hclog : Nat.clog 2 v.toNat ≤ 31 := Nat.clog_le_of_le_pow hv
        have hpow : 2 ^ (k + 1) ≤ 2 ^ 31 := Nat.pow_le_pow_right (by omega) (by omega)
        refine ih (k := k + 1) ?_ hk' (by omega)
        rw [BitVec.toNat_shiftLeft, hp, Nat.shiftLeft_eq, pow_one, ← pow_succ]
        exact Nat.mod_eq_of_lt (by omega)
      · rw [BitVec.lt_def, hp] at hlt
        have hclog : Nat.clog 2 v.toNat ≤ k := Nat.clog_le_of_le_pow (by omega)
        refine ⟨p, rfl, ?_⟩
        rw [hp, Nat.le_antisymm hk hclog]

/-- **`next_pow2`** of a word up to `2^31`. -/
theorem nextPow2_eq {v : BitVec 32} (hv : v.toNat ≤ 2 ^ 31) :
    ∃ q, nextPow2 v = some q ∧ q.toNat = 2 ^ Nat.clog 2 v.toNat := by
  have hclog : Nat.clog 2 v.toNat ≤ 31 := Nat.clog_le_of_le_pow hv
  exact nextPow2From_eq (k := 0) rfl (Nat.zero_le _) hv (by omega)

/-- The loop gives a word that is large enough, and not above `2^31`. -/
theorem nextPow2From_le {v p q : BitVec 32} {fuel : ℕ}
    (hp : p.toNat = 0 ∨ ∃ k ≤ 31, p.toNat = 2 ^ k)
    (h : nextPow2From v fuel p = some q) : v.toNat ≤ q.toNat ∧ q.toNat ≤ 2 ^ 31 := by
  induction fuel generalizing p with
  | zero => cases h
  | succ fuel ih =>
      unfold nextPow2From at h
      split_ifs at h with hlt
      · refine ih ?_ h
        rw [BitVec.toNat_shiftLeft, Nat.shiftLeft_eq, pow_one]
        rcases hp with hp | ⟨k, hk, hp⟩
        · exact .inl (by rw [hp])
        · rw [hp, ← pow_succ]
          rcases Nat.lt_or_ge k 31 with hk' | hk'
          · refine .inr ⟨k + 1, hk', Nat.mod_eq_of_lt ?_⟩
            exact Nat.pow_lt_pow_right (by omega) (by omega)
          · obtain rfl : k = 31 := Nat.le_antisymm hk hk'
            exact .inl (by decide)
      · cases h
        rw [BitVec.lt_def] at hlt
        refine ⟨by omega, ?_⟩
        rcases hp with hp | ⟨k, hk, hp⟩
        · omega
        · rw [hp]
          exact Nat.pow_le_pow_right (by omega) hk

/-- **`next_pow2`**, if it ends, gives a positive word that is large enough. -/
theorem nextPow2_le {v q : BitVec 32} (h : nextPow2 v = some q) :
    0 < q.toNat ∧ v.toNat ≤ q.toNat ∧ q.toNat ≤ 2 ^ 31 := by
  have hle := nextPow2From_le (.inr ⟨0, by omega, rfl⟩) h
  refine ⟨?_, hle⟩
  rcases Nat.eq_zero_or_pos v.toNat with hv | hv
  · rw [BitVec.eq_of_toNat_eq (y := 0) hv] at h
    obtain rfl : 1 = q := Option.some.inj h
    decide
  · omega

/-! ## The exact budget -/

/-- The chunk budget without wrap-around:
`max_subscribers * (pow2ceil(queue_capacity) + max_borrowed) + max_loans`. -/
def exactBudget (cfg : ServiceConfig) : ℕ :=
  cfg.maxSubscribers.toNat * (2 ^ Nat.clog 2 cfg.queueCapacity.toNat + cfg.maxBorrowed.toNat) +
    cfg.maxLoans.toNat

/-- `next_pow2` of a queue capacity, 0 being treated as 1. -/
theorem nextPow2_queue {v : BitVec 32} (hv : v.toNat ≤ 2 ^ 31) :
    ∃ q, nextPow2 (if v < 1 then 1 else v) = some q ∧ q.toNat = 2 ^ Nat.clog 2 v.toNat := by
  split_ifs with hzero
  · have : v.toNat = 0 := by
      rw [BitVec.lt_def] at hzero
      simpa using hzero
    rw [this]
    exact ⟨1, by decide, rfl⟩
  · exact nextPow2_eq hv

/-- The 32-bit budget is the exact one modulo `2^32`. -/
theorem budget_mod {cfg : ServiceConfig} {q : BitVec 32}
    (hq : q.toNat = 2 ^ Nat.clog 2 cfg.queueCapacity.toNat) :
    (cfg.maxSubscribers * (q + cfg.maxBorrowed) + cfg.maxLoans).toNat =
      exactBudget cfg % 2 ^ 32 := by
  rw [BitVec.toNat_add, BitVec.toNat_mul, BitVec.toNat_add, exactBudget, hq]
  simp only [Nat.mod_add_mod, Nat.mul_mod_mod]

/-- **The counts of a layout**, if both arguments of `next_pow2` are at most `2^31`. -/
theorem computeLayout_counts {cfg : ServiceConfig} (typeSize typeAlign : BitVec 64)
    (hqueue : cfg.queueCapacity.toNat ≤ 2 ^ 31) (hbudget : exactBudget cfg % 2 ^ 32 ≤ 2 ^ 31) :
    ∃ l, computeLayout cfg typeSize typeAlign = some l ∧
      l.queueCapacity.toNat = 2 ^ Nat.clog 2 cfg.queueCapacity.toNat ∧
      l.chunkCount.toNat = exactBudget cfg % 2 ^ 32 ∧
      l.completionCapacity.toNat = 2 ^ Nat.clog 2 (exactBudget cfg % 2 ^ 32) := by
  obtain ⟨q, hq, hqnat⟩ := nextPow2_queue hqueue
  have hcount := budget_mod hqnat
  obtain ⟨r, hr, hrnat⟩ := nextPow2_eq
    (v := cfg.maxSubscribers * (q + cfg.maxBorrowed) + cfg.maxLoans) (by rw [hcount]; exact hbudget)
  rw [hcount] at hrnat
  have hl : ∃ l, computeLayout cfg typeSize typeAlign = some l ∧ l.queueCapacity = q ∧
      l.chunkCount = cfg.maxSubscribers * (q + cfg.maxBorrowed) + cfg.maxLoans ∧
      l.completionCapacity = r := by
    simp only [computeLayout, hq, hr, Option.bind_eq_bind, Option.bind_some]
    exact ⟨_, rfl, rfl, rfl, rfl⟩
  obtain ⟨l, hl, rfl, hc, rfl⟩ := hl
  exact ⟨l, hl, hqnat, hc ▸ hcount, hrnat⟩

/-- The queue of one subscriber is within the budget. -/
theorem queue_le_budget {cfg : ServiceConfig} (hsubs : 1 ≤ cfg.maxSubscribers.toNat) :
    2 ^ Nat.clog 2 cfg.queueCapacity.toNat ≤ exactBudget cfg := by
  have := Nat.le_mul_of_pos_left
    (2 ^ Nat.clog 2 cfg.queueCapacity.toNat + cfg.maxBorrowed.toNat) hsubs
  unfold exactBudget
  omega

/-- **The layout of a service whose exact budget fits in 16 bits.** -/
theorem computeLayout_exact {cfg : ServiceConfig} (typeSize typeAlign : BitVec 64)
    (hsubs : 1 ≤ cfg.maxSubscribers.toNat) (hbudget : exactBudget cfg ≤ 65535) :
    ∃ l, computeLayout cfg typeSize typeAlign = some l ∧
      l.queueCapacity.toNat = 2 ^ Nat.clog 2 cfg.queueCapacity.toNat ∧
      l.chunkCount.toNat = exactBudget cfg ∧
      l.completionCapacity.toNat = 2 ^ Nat.clog 2 (exactBudget cfg) := by
  have hterm := queue_le_budget hsubs
  have hcap : cfg.queueCapacity.toNat ≤ 2 ^ Nat.clog 2 cfg.queueCapacity.toNat :=
    Nat.le_pow_clog (by omega) _
  have hmod : exactBudget cfg % 2 ^ 32 = exactBudget cfg := Nat.mod_eq_of_lt (by omega)
  rw [← hmod]
  exact computeLayout_counts typeSize typeAlign (by omega) (by omega)

/-! ## Room in the segments -/

/-- `round_up` on numbers. -/
def ceilTo (value align : ℕ) : ℕ := (value + align - 1) / align * align

theorem le_ceilTo (value : ℕ) {align : ℕ} (halign : 0 < align) : value ≤ ceilTo value align := by
  have hmod := Nat.mod_lt (value + align - 1) halign
  have hdiv := Nat.div_add_mod' (value + align - 1) align
  unfold ceilTo
  omega

/-- `round_up` is the exact rounding unless it wraps. -/
theorem toNat_roundUp {value align : BitVec 64} (halign : 0 < align.toNat)
    (hfit : value.toNat + align.toNat ≤ 2 ^ 64) :
    (roundUp value align).toNat = ceilTo value.toNat align.toNat := by
  have hsum : (value + align - 1).toNat = value.toNat + align.toNat - 1 := by
    rw [BitVec.toNat_sub, BitVec.toNat_add]
    have : (1 : BitVec 64).toNat = 1 := rfl
    omega
  have hle := Nat.div_mul_le_self (value.toNat + align.toNat - 1) align.toNat
  unfold roundUp ceilTo
  rw [BitVec.toNat_mul, BitVec.toNat_udiv, hsum, Nat.mod_eq_of_lt (by omega)]

/-- `round_up` rounds up, unless it wraps. -/
theorem le_roundUp {value align : BitVec 64} (halign : 0 < align.toNat)
    (hfit : value.toNat + align.toNat ≤ 2 ^ 64) : value.toNat ≤ (roundUp value align).toNat := by
  rw [toNat_roundUp halign hfit]
  exact le_ceilTo _ halign

/-- The alignment of a chunk. -/
def payloadAlign (typeAlign : BitVec 64) : BitVec 64 :=
  if typeAlign > cacheLine then typeAlign else cacheLine

theorem payloadAlign_pos (typeAlign : BitVec 64) : 0 < (payloadAlign typeAlign).toNat := by
  unfold payloadAlign
  split_ifs with h
  · rw [gt_iff_lt, BitVec.lt_def] at h
    omega
  · decide

/-- No size that `compute_layout` computes in bytes wraps. -/
structure Fits (cfg : ServiceConfig) (typeSize typeAlign : BitVec 64) (l : Layout) : Prop where
  chunk : typeSize.toNat + (payloadAlign typeAlign).toNat ≤ 2 ^ 64
  headers : 16 * l.chunkCount.toNat + (payloadAlign typeAlign).toNat ≤ 2 ^ 64
  control : l.slotsOffset.toNat + l.slotStride.toNat * cfg.maxSubscribers.toNat + 4096 ≤ 2 ^ 64
  data : l.payloadsOffset.toNat + l.chunkStride.toNat * l.chunkCount.toNat + 4096 ≤ 2 ^ 64

instance (cfg : ServiceConfig) (typeSize typeAlign : BitVec 64) (l : Layout) :
    Decidable (Fits cfg typeSize typeAlign l) :=
  decidable_of_iff (_ ∧ _ ∧ _ ∧ _) ⟨fun ⟨h1, h2, h3, h4⟩ => ⟨h1, h2, h3, h4⟩,
    fun h => ⟨h.chunk, h.headers, h.control, h.data⟩⟩

/-- The segments have room for all that is laid out in them. -/
structure Roomy (cfg : ServiceConfig) (typeSize : BitVec 64) (l : Layout) : Prop where
  queue_pos : 0 < l.queueCapacity.toNat
  completion_pos : 0 < l.completionCapacity.toNat
  slot : 512 + 4 * (l.queueCapacity.toNat + l.completionCapacity.toNat) ≤ l.slotStride.toNat
  control : l.slotsOffset.toNat + l.slotStride.toNat * cfg.maxSubscribers.toNat ≤ l.totalSize.toNat
  headers : 16 * l.chunkCount.toNat ≤ l.payloadsOffset.toNat
  chunk : typeSize.toNat ≤ l.chunkStride.toNat
  data : l.payloadsOffset.toNat + l.chunkStride.toNat * l.chunkCount.toNat ≤ l.dataSize.toNat

/-- The byte sizes of a layout, from its counts. -/
structure Sizes (cfg : ServiceConfig) (typeSize typeAlign : BitVec 64) (l : Layout) : Prop where
  chunkStride : l.chunkStride = roundUp typeSize (payloadAlign typeAlign)
  slotStride : l.slotStride = roundUp (subscriberSlotSize +
    ringWordSize * (l.queueCapacity + l.completionCapacity).setWidth 64) cacheLine
  slotsOffset : l.slotsOffset = segmentHeaderSize
  chunkHeadersOffset : l.chunkHeadersOffset = 0
  payloadsOffset : l.payloadsOffset =
    roundUp (chunkHeaderSize * l.chunkCount.setWidth 64) (payloadAlign typeAlign)
  totalSize : l.totalSize =
    roundUp (l.slotsOffset + l.slotStride * cfg.maxSubscribers.setWidth 64) 4096
  dataSize : l.dataSize =
    roundUp (l.payloadsOffset + l.chunkStride * l.chunkCount.setWidth 64) 4096

section Computed

variable {cfg : ServiceConfig} {typeSize typeAlign : BitVec 64} {l : Layout}

theorem sizes_of_computeLayout (hl : computeLayout cfg typeSize typeAlign = some l) :
    Sizes cfg typeSize typeAlign l := by
  simp only [computeLayout, Option.bind_eq_bind, Option.bind_eq_some_iff] at hl
  obtain ⟨q, -, r, -, hl⟩ := hl
  rw [← Option.some.inj hl]
  exact ⟨rfl, rfl, rfl, rfl, rfl, rfl, rfl⟩

/-- Neither capacity is 0 or above `2^31`, and that of the done ring fits the chunks. -/
theorem capacities_of_computeLayout (hl : computeLayout cfg typeSize typeAlign = some l)
    (hcount : l.chunkCount.toNat ≤ 65535) :
    0 < l.queueCapacity.toNat ∧ l.queueCapacity.toNat ≤ 2 ^ 31 ∧
      0 < l.completionCapacity.toNat ∧ l.completionCapacity.toNat ≤ 2 ^ 16 := by
  simp only [computeLayout, Option.bind_eq_bind, Option.bind_eq_some_iff] at hl
  obtain ⟨q, hq, r, hr, hl⟩ := hl
  obtain ⟨hq0, -, hq1⟩ := nextPow2_le hq
  obtain ⟨hr0, -, -⟩ := nextPow2_le hr
  rw [← Option.some.inj hl] at hcount ⊢
  dsimp only at hcount ⊢
  obtain ⟨r', hr', hr2⟩ := nextPow2_eq
    (v := cfg.maxSubscribers * (q + cfg.maxBorrowed) + cfg.maxLoans) (by omega)
  obtain rfl : r' = r := Option.some.inj (hr'.symm.trans hr)
  refine ⟨hq0, hq1, hr0, ?_⟩
  rw [hr2]
  exact Nat.pow_le_pow_right (by omega) (Nat.clog_le_of_le_pow (by omega))

/-- The bytes of a slot and its rings, in 64 bits. -/
theorem toNat_slotBytes {q r : BitVec 32} (hq : q.toNat ≤ 2 ^ 31) (hr : r.toNat ≤ 2 ^ 16) :
    (subscriberSlotSize + ringWordSize * (q + r).setWidth 64).toNat =
      512 + 4 * (q.toNat + r.toNat) := by
  have hrings : (q + r).toNat = q.toNat + r.toNat := by
    rw [BitVec.toNat_add]
    exact Nat.mod_eq_of_lt (by omega)
  rw [BitVec.toNat_add, BitVec.toNat_mul, BitVec.toNat_setWidth, hrings]
  show (512 + 4 * ((q.toNat + r.toNat) % 2 ^ 64) % 2 ^ 64) % 2 ^ 64 = _
  omega

/-- The bytes of the chunk headers, in 64 bits. -/
theorem toNat_headerBytes {count : BitVec 32} :
    (chunkHeaderSize * count.setWidth 64).toNat = 16 * count.toNat := by
  have := count.isLt
  rw [BitVec.toNat_mul, BitVec.toNat_setWidth]
  show 16 * (count.toNat % 2 ^ 64) % 2 ^ 64 = _
  omega

/-- An array of `count` elements behind an offset, in 64 bits. -/
theorem toNat_arrayEnd (offset stride : BitVec 64) (count : BitVec 32)
    (h : offset.toNat + stride.toNat * count.toNat < 2 ^ 64) :
    (offset + stride * count.setWidth 64).toNat = offset.toNat + stride.toNat * count.toNat := by
  have := count.isLt
  rw [BitVec.toNat_add, BitVec.toNat_mul, BitVec.toNat_setWidth,
    Nat.mod_eq_of_lt (a := count.toNat) (by omega),
    Nat.mod_eq_of_lt (a := stride.toNat * _) (by omega)]
  exact Nat.mod_eq_of_lt h

/-- **The layout of a service that the constructor accepts.** -/
theorem computeLayout_roomy (hl : computeLayout cfg typeSize typeAlign = some l)
    (hcount : l.chunkCount.toNat ≤ 65535) (hfits : Fits cfg typeSize typeAlign l) :
    Roomy cfg typeSize l := by
  have hsizes := sizes_of_computeLayout hl
  obtain ⟨hq0, hq, hr0, hr⟩ := capacities_of_computeLayout hl hcount
  have hslot := toNat_slotBytes hq hr
  have hcontrol := toNat_arrayEnd l.slotsOffset l.slotStride cfg.maxSubscribers
    (by have := hfits.control; omega)
  have hdata := toNat_arrayEnd l.payloadsOffset l.chunkStride l.chunkCount
    (by have := hfits.data; omega)
  refine ⟨hq0, hr0, ?_, ?_, ?_, ?_, ?_⟩
  · rw [hsizes.slotStride, ← hslot]
    refine le_roundUp (by decide) ?_
    rw [hslot]
    show _ + 64 ≤ _
    omega
  · rw [hsizes.totalSize, ← hcontrol]
    exact le_roundUp (by decide) (hcontrol ▸ hfits.control)
  · rw [hsizes.payloadsOffset, ← toNat_headerBytes]
    exact le_roundUp (payloadAlign_pos typeAlign) (toNat_headerBytes ▸ hfits.headers)
  · rw [hsizes.chunkStride]
    exact le_roundUp (payloadAlign_pos typeAlign) hfits.chunk
  · rw [hsizes.dataSize, ← hdata]
    exact le_roundUp (by decide) (hdata ▸ hfits.data)

end Computed

end Layout
