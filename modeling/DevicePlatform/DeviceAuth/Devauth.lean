/-
# The MAC that the firmware computes

Model of `devauth.c` (`v1-spi-slave-handshake/v1.3`): SHA-256 and HMAC as the firmware computes
them, part by part with a block buffer, and `devauth_compute` over them.

`hmacSha256_eq` says that this is HMAC-SHA-256 as the standards define it, which is what a
verifier on another machine computes (`expected` of `mcu-auth-check.py`).  `sha256_streaming` is
about the parts: however a message is split into calls of `sha256_update`, the digest is that of
the whole message.
-/
import DevicePlatform.Sha256

namespace DeviceAuth

/-! ## SHA-256 -/

/-- `struct sha256_ctx`; `block` holds the `used` bytes of the buffer. -/
structure Sha256Ctx where
  h : Sha256.Words
  block : List Byte
  total : BitVec 64

/-- `sha256_init`. -/
def sha256Init : Sha256Ctx := ⟨Sha256.iv, [], 0⟩

/-- The loop of `sha256_update`. -/
def updateLoop : ℕ → Sha256Ctx → List Byte → Sha256Ctx
  | 0, c, _ => c
  | fuel + 1, c, p =>
      if p = [] then c
      else
        let take := if 64 - c.block.length > p.length then p.length else 64 - c.block.length
        let c := { c with block := c.block ++ p.take take }
        let c := if c.block.length = 64 then
            { c with h := Sha256.compress c.h c.block, block := [] }
          else c
        updateLoop fuel c (p.drop take)

/-- `sha256_update`. -/
def sha256Update (c : Sha256Ctx) (p : List Byte) : Sha256Ctx :=
  updateLoop p.length { c with total := c.total + BitVec.ofNat 64 p.length } p

/-- The loop that pads with zeros. -/
def padLoop : ℕ → Sha256Ctx → Sha256Ctx
  | 0, c => c
  | fuel + 1, c => if c.block.length = 56 then c else padLoop fuel (sha256Update c [0])

/-- `sha256_final`. -/
def sha256Final (c : Sha256Ctx) : List Byte :=
  let bits := c.total * 8
  let c := sha256Update c [0x80]
  let c := padLoop 64 c
  let c := sha256Update c (be64 bits)
  Sha256.digest c.h

/-- `sha256`. -/
def sha256 (msg : List Byte) : List Byte := sha256Final (sha256Update sha256Init msg)

/-- `hmac_sha256`. -/
def hmacSha256 (key msg : List Byte) : List Byte :=
  let k := if key.length > 64 then sha256 key else key
  let k := k ++ List.replicate (64 - k.length) 0
  let c := sha256Update sha256Init (k.map (· ^^^ 0x36))
  let inner := sha256Final (sha256Update c msg)
  let c := sha256Update sha256Init (k.map (· ^^^ 0x5c))
  sha256Final (sha256Update c inner)

/-! ## The answer to a challenge -/

/-- The 32 bytes of the last flash page. -/
structure Key where
  bytes : List Byte
  length_eq : bytes.length = 32

/-- `devauth_key_present`. -/
def devauthKeyPresent (key : Key) : Bool := key.bytes.any (· != 0xFF)

/-- `DEVAUTH_DOMAIN`. -/
def devauthDomain : List Byte := "acq-auth-v1".toList.map fun c => BitVec.ofNat 8 c.toNat

/-- `devauth_compute`. -/
def devauthCompute (key : Key) (deviceId fwVersion : BitVec 32) (nonce : List Byte) : List Byte :=
  (hmacSha256 key.bytes (devauthDomain ++ be32 deviceId ++ be32 fwVersion ++ nonce)).take 16

/-! ## The firmware computes HMAC-SHA-256 -/

/-- The context has taken in the message `m`. -/
structure Sha256Ctx.Holds (c : Sha256Ctx) (m : List Byte) : Prop where
  absorbed : Sha256.Absorbed m c.h c.block
  total : c.total = BitVec.ofNat 64 m.length

section Streaming

variable {c : Sha256Ctx} {m p : List Byte}

theorem updateLoop_total (fuel : ℕ) (c : Sha256Ctx) (p : List Byte) :
    (updateLoop fuel c p).total = c.total := by
  induction fuel generalizing c p with
  | zero => rfl
  | succ fuel ih =>
      unfold updateLoop
      split
      · rfl
      · dsimp only
        generalize (if 64 - c.block.length > p.length then p.length else 64 - c.block.length) = n
        rw [ih]
        split <;> rfl

/-- The loop takes in all of `p`. -/
theorem absorbed_updateLoop {fuel : ℕ} (hfuel : p.length ≤ fuel)
    (h : Sha256.Absorbed m c.h c.block) :
    Sha256.Absorbed (m ++ p) (updateLoop fuel c p).h (updateLoop fuel c p).block := by
  induction fuel generalizing c m p with
  | zero =>
      rw [List.eq_nil_of_length_eq_zero (Nat.le_zero.mp hfuel), List.append_nil]
      exact h
  | succ fuel ih =>
      unfold updateLoop
      split
      · next hp =>
        rw [hp, List.append_nil]
        exact h
      · next hp =>
        have hlt : c.block.length < 64 := by
          rw [h.length_rest]
          exact Nat.mod_lt _ (by decide)
        have hpos := List.length_pos_of_ne_nil hp
        dsimp only
        -- one piece: as much of `p` as fits
        generalize htake : (if 64 - c.block.length > p.length then p.length
          else 64 - c.block.length) = take
        have hbounds : 0 < take ∧ take ≤ p.length ∧ c.block.length + take ≤ 64 := by
          split at htake <;> omega
        have hlen : (p.take take).length = take := List.length_take_of_le hbounds.2.1
        have hdrop : (p.drop take).length ≤ fuel := by
          rw [List.length_drop]
          omega
        rw [← List.take_append_drop take p, ← List.append_assoc, List.take_append_drop]
        split
        · next hfull =>
          rw [List.length_append] at hfull
          exact ih hdrop (h.block hfull)
        · next hpart =>
          rw [List.length_append] at hpart
          refine ih hdrop (h.part ?_)
          omega

/-- `sha256_update`. -/
theorem Sha256Ctx.Holds.update (h : c.Holds m) (p : List Byte) :
    (sha256Update c p).Holds (m ++ p) := by
  refine ⟨absorbed_updateLoop (Nat.le_refl _) h.absorbed, ?_⟩
  rw [sha256Update, updateLoop_total, h.total, List.length_append, BitVec.ofNat_add]

/-- The loop pads up to the last eight bytes of a block. -/
theorem Sha256Ctx.Holds.pad (h : c.Holds m) (fuel : ℕ)
    (hfuel : (120 - m.length % 64) % 64 ≤ fuel) :
    (padLoop fuel c).Holds (m ++ List.replicate ((120 - m.length % 64) % 64) 0) := by
  induction fuel generalizing c m with
  | zero =>
      rw [Nat.le_zero.mp hfuel, List.replicate_zero, List.append_nil]
      exact h
  | succ fuel ih =>
      have hlen := h.absorbed.length_rest
      unfold padLoop
      split
      · next hend =>
        have hzero : (120 - m.length % 64) % 64 = 0 := by omega
        rw [hzero, List.replicate_zero, List.append_nil]
        exact h
      · next hmore =>
        have hstep : (120 - m.length % 64) % 64 = (120 - (m ++ [0]).length % 64) % 64 + 1 := by
          rw [List.length_append, List.length_singleton]
          omega
        have hrest := ih (h.update [0]) (by omega)
        rwa [List.append_assoc, List.singleton_append, ← List.replicate_succ, ← hstep] at hrest

/-- `sha256_final` pads as the standard says. -/
theorem Sha256Ctx.Holds.final (h : c.Holds m) : sha256Final c = Sha256.hash m := by
  have hpad := ((h.update [0x80]).pad 64 (Nat.mod_lt _ (by decide)).le).update
    (be64 (c.total * 8))
  have hmsg : m ++ [0x80] ++
      List.replicate ((120 - (m ++ [0x80]).length % 64) % 64) 0 ++ be64 (c.total * 8) =
      m ++ Sha256.padding m.length := by
    have hcount : (120 - (m ++ [(0x80 : Byte)]).length % 64) % 64 = (119 - m.length % 64) % 64 := by
      rw [List.length_append, List.length_singleton]
      omega
    rw [hcount, h.total, Sha256.padding]
    simp only [List.append_assoc, List.cons_append, List.nil_append]
  rw [hmsg] at hpad
  exact hpad.absorbed.digest_eq

theorem holds_init : sha256Init.Holds [] := ⟨Sha256.absorbed_nil, rfl⟩

/-- `sha256` is SHA-256. -/
theorem sha256_eq (msg : List Byte) : sha256 msg = Sha256.hash msg :=
  (holds_init.update msg).final

/-- **`hmac_sha256` is HMAC-SHA-256.** -/
theorem hmacSha256_eq (key msg : List Byte) : hmacSha256 key msg = Sha256.hmac key msg := by
  unfold hmacSha256 Sha256.hmac
  dsimp only
  rw [sha256_eq]
  generalize (if key.length > 64 then Sha256.hash key else key) = k
  rw [((holds_init.update _).update msg).final, ((holds_init.update _).update _).final]
  rfl

/-! ## Any parts, any fill level, any key -/

/-- One byte more in the buffer; a full buffer is compressed and starts again. -/
theorem length_block_update_one (hc : c.block.length < 64) (b : Byte) :
    (sha256Update c [b]).block.length = (c.block.length + 1) % 64 := by
  have htake : (if 64 - c.block.length > 1 then 1 else 64 - c.block.length) = 1 := by
    split <;> omega
  unfold sha256Update updateLoop
  simp only [List.length_singleton, List.cons_ne_nil, if_false, htake, List.take_succ_cons,
    List.take_zero, List.length_append]
  split
  · next hfull =>
    rw [hfull]
    rfl
  · next hpart =>
    show (c.block ++ [b]).length = _
    rw [List.length_append, List.length_singleton]
    omega

/-- The padding loop leaves by its own test, after at most 63 rounds. -/
theorem length_block_padLoop {fuel : ℕ} (hc : c.block.length < 64)
    (hfuel : (120 - c.block.length) % 64 ≤ fuel) : (padLoop fuel c).block.length = 56 := by
  induction fuel generalizing c with
  | zero =>
      show c.block.length = 56
      omega
  | succ fuel ih =>
      unfold padLoop
      split
      · next hend => exact hend
      · next hmore =>
        have hlen := length_block_update_one hc 0
        apply ih <;> omega

/-- Once it has left, more rounds would change nothing. -/
theorem padLoop_add {fuel : ℕ} (hend : (padLoop fuel c).block.length = 56) (k : ℕ) :
    padLoop (fuel + k) c = padLoop fuel c := by
  induction fuel generalizing c with
  | zero =>
      have hc : c.block.length = 56 := hend
      cases k with
      | zero => rfl
      | succ k =>
          rw [Nat.zero_add]
          exact if_pos hc
  | succ fuel ih =>
      rw [Nat.add_right_comm]
      unfold padLoop at hend ⊢
      split
      · rfl
      · next hmore =>
        rw [if_neg hmore] at hend
        exact ih hend

/-- Any number of parts. -/
theorem Sha256Ctx.Holds.updates (h : c.Holds m) (parts : List (List Byte)) :
    (parts.foldl sha256Update c).Holds (m ++ parts.flatten) := by
  induction parts generalizing c m with
  | nil =>
      rw [List.flatten_nil, List.append_nil]
      exact h
  | cons p parts ih =>
      rw [List.flatten_cons, ← List.append_assoc]
      exact ih (h.update p)

end Streaming

/-- **SHA-256 and HMAC part by part.**  However a message of fewer than `2^61` bytes is split,
`sha256_final` gives its SHA-256, with its exact length in bits at the end of the last block.  The
padding loop ends from every fill level of the buffer.  `hmac_sha256` is HMAC over it, for every
key. -/
theorem sha256_streaming (parts : List (List Byte)) (hlen : parts.flatten.length < 2 ^ 61) :
    sha256Final (parts.foldl sha256Update sha256Init) = Sha256.hash parts.flatten ∧
      (BitVec.ofNat 64 parts.flatten.length * 8).toNat = 8 * parts.flatten.length ∧
      (parts.flatten ++ Sha256.padding parts.flatten.length).length % 64 = 0 ∧
      (∀ c : Sha256Ctx, c.block.length < 64 → (padLoop 64 c).block.length = 56 ∧
        ∀ k, padLoop (64 + k) c = padLoop 64 c) ∧
      ∀ key msg, sha256 msg = Sha256.hash msg ∧ hmacSha256 key msg = Sha256.hmac key msg := by
  refine ⟨(holds_init.updates parts).final, ?_, ?_, fun c hc => ?_, fun key msg => ?_⟩
  · have hsmall : parts.flatten.length % 2 ^ 64 = parts.flatten.length :=
      Nat.mod_eq_of_lt (by omega)
    rw [BitVec.toNat_mul, BitVec.toNat_ofNat, hsmall]
    show parts.flatten.length * 8 % 2 ^ 64 = _
    omega
  · simp only [List.length_append, Sha256.padding, List.length_cons, List.length_replicate, be64,
      List.length_map, List.length_range]
    omega
  · have hend : (padLoop 64 c).block.length = 56 :=
      length_block_padLoop hc (Nat.mod_lt _ (by decide)).le
    exact ⟨hend, fun k => padLoop_add hend k⟩
  · exact ⟨sha256_eq msg, hmacSha256_eq key msg⟩

/-- "abc", handed over with an empty part in front. -/
theorem sha256_streaming_abc :
    sha256Final ([[], [0x61], [0x62, 0x63]].foldl sha256Update sha256Init) =
        Sha256.hash [0x61, 0x62, 0x63] ∧
      (Sha256.hash [0x61, 0x62, 0x63]).take 4 = [0xba, 0x78, 0x16, 0xbf] :=
  ⟨(sha256_streaming [[], [0x61], [0x62, 0x63]] (by decide)).1, by decide +kernel⟩

end DeviceAuth
