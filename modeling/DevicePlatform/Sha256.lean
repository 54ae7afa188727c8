/-
# SHA-256 and HMAC

The hash function of FIPS 180-4 and the keyed hash of RFC 2104 over it, on lists of bytes: the
message is padded to whole blocks of 64 bytes, and the compression function is folded over the
blocks.

A program does not have the message in one piece.  It hands over part after part and keeps the
bytes that do not fill a block yet.  `Absorbed` relates what such a program has computed to the
message so far: `Absorbed.part` and `Absorbed.block` are what its loop needs, and
`Absorbed.digest_eq` says that the hash is there once the padding is in.
-/
import Mathlib.Data.BitVec
import Mathlib.Data.List.Basic

/-- A byte. -/
abbrev Byte := BitVec 8

/-! ## Words and bytes -/

/-- The bytes of a word, big-endian. -/
def be32 (v : BitVec 32) : List Byte :=
  [(v >>> 24).setWidth 8, (v >>> 16).setWidth 8, (v >>> 8).setWidth 8, v.setWidth 8]

/-- The word with these bytes. -/
def ofBe32 (b₀ b₁ b₂ b₃ : Byte) : BitVec 32 :=
  (b₀.setWidth 32 <<< 24) ||| (b₁.setWidth 32 <<< 16) ||| (b₂.setWidth 32 <<< 8) ||| b₃.setWidth 32

/-- Each bit of the word comes from one byte. -/
theorem getLsbD_ofBe32 (b₀ b₁ b₂ b₃ : Byte) {i : ℕ} (hi : i < 32) :
    (ofBe32 b₀ b₁ b₂ b₃).getLsbD i =
      if i < 8 then b₃.getLsbD i
      else if i < 16 then b₂.getLsbD (i - 8)
      else if i < 24 then b₁.getLsbD (i - 16)
      else b₀.getLsbD (i - 24) := by
  have hzero : ∀ (b : Byte) {j : ℕ}, 8 ≤ j → b.getLsbD j = false := fun b j hj =>
    BitVec.getLsbD_of_ge b j hj
  have hlow : ∀ {j k : ℕ}, j < k → decide (j < k) = true := fun h => decide_eq_true h
  have hhigh : ∀ {j k : ℕ}, k ≤ j → decide (j < k) = false := fun h => decide_eq_false (by omega)
  simp only [ofBe32, BitVec.getLsbD_or, BitVec.getLsbD_shiftLeft, BitVec.getLsbD_setWidth]
  split
  · simp (disch := omega) only [hlow, Bool.not_true, Bool.and_false, Bool.false_and,
      Bool.true_and, Bool.false_or]
  split
  · simp (disch := omega) only [hlow, hhigh, hzero, Bool.not_true, Bool.not_false, Bool.and_false,
      Bool.false_and, Bool.true_and, Bool.or_false, Bool.false_or]
  split
  · simp (disch := omega) only [hlow, hhigh, hzero, Bool.not_true, Bool.not_false, Bool.and_false,
      Bool.false_and, Bool.true_and, Bool.or_false, Bool.false_or]
  · simp (disch := omega) only [hlow, hhigh, hzero, Bool.not_false, Bool.and_false, Bool.true_and,
      Bool.or_false]

/-- Packing undoes unpacking. -/
theorem be32_ofBe32 (b₀ b₁ b₂ b₃ : Byte) : be32 (ofBe32 b₀ b₁ b₂ b₃) = [b₀, b₁, b₂, b₃] := by
  have hbyte : ∀ {x : BitVec 32} {b : Byte} (k : ℕ),
      (∀ i < 8, x.getLsbD (k + i) = b.getLsbD i) → (x >>> k).setWidth 8 = b := by
    intro x b k h
    apply BitVec.eq_of_getLsbD_eq
    intro i hi
    rw [BitVec.getLsbD_setWidth, BitVec.getLsbD_ushiftRight, h i hi, decide_eq_true hi,
      Bool.true_and]
  have hlast : (ofBe32 b₀ b₁ b₂ b₃).setWidth 8 = b₃ := by
    rw [← BitVec.ushiftRight_zero (ofBe32 b₀ b₁ b₂ b₃)]
    refine hbyte 0 fun i hi => ?_
    rw [Nat.zero_add, getLsbD_ofBe32 _ _ _ _ (by omega), if_pos hi]
  refine congrArg₂ _ (hbyte 24 fun i hi => ?_) (congrArg₂ _ (hbyte 16 fun i hi => ?_)
    (congrArg₂ _ (hbyte 8 fun i hi => ?_) (congrArg₂ _ hlast rfl)))
  · rw [getLsbD_ofBe32 _ _ _ _ (by omega), if_neg (by omega), if_neg (by omega),
      if_neg (by omega), Nat.add_sub_cancel_left]
  · rw [getLsbD_ofBe32 _ _ _ _ (by omega), if_neg (by omega), if_neg (by omega),
      if_pos (by omega), Nat.add_sub_cancel_left]
  · rw [getLsbD_ofBe32 _ _ _ _ (by omega), if_neg (by omega), if_pos (by omega),
      Nat.add_sub_cancel_left]

/-- The bytes of a 64-bit number, big-endian. -/
def be64 (v : BitVec 64) : List Byte :=
  (List.range 8).map fun i => (v >>> (56 - 8 * i)).setWidth 8

namespace Sha256

/-! ## The compression function -/

/-- The round constants. -/
def k256 : List (BitVec 32) :=
  [0x428a2f98, 0x71374491, 0xb5c0fbcf, 0xe9b5dba5, 0x3956c25b, 0x59f111f1, 0x923f82a4, 0xab1c5ed5,
   0xd807aa98, 0x12835b01, 0x243185be, 0x550c7dc3, 0x72be5d74, 0x80deb1fe, 0x9bdc06a7, 0xc19bf174,
   0xe49b69c1, 0xefbe4786, 0x0fc19dc6, 0x240ca1cc, 0x2de92c6f, 0x4a7484aa, 0x5cb0a9dc, 0x76f988da,
   0x983e5152, 0xa831c66d, 0xb00327c8, 0xbf597fc7, 0xc6e00bf3, 0xd5a79147, 0x06ca6351, 0x14292967,
   0x27b70a85, 0x2e1b2138, 0x4d2c6dfc, 0x53380d13, 0x650a7354, 0x766a0abb, 0x81c2c92e, 0x92722c85,
   0xa2bfe8a1, 0xa81a664b, 0xc24b8b70, 0xc76c51a3, 0xd192e819, 0xd6990624, 0xf40e3585, 0x106aa070,
   0x19a4c116, 0x1e376c08, 0x2748774c, 0x34b0bcb5, 0x391c0cb3, 0x4ed8aa4a, 0x5b9cca4f, 0x682e6ff3,
   0x748f82ee, 0x78a5636f, 0x84c87814, 0x8cc70208, 0x90befffa, 0xa4506ceb, 0xbef9a3f7, 0xc67178f2]

/-- The hash so far, or the working variables of a block. -/
structure Words where
  a : BitVec 32
  b : BitVec 32
  c : BitVec 32
  d : BitVec 32
  e : BitVec 32
  f : BitVec 32
  g : BitVec 32
  h : BitVec 32
  deriving DecidableEq, Repr

def iv : Words where
  a := 0x6a09e667
  b := 0xbb67ae85
  c := 0x3c6ef372
  d := 0xa54ff53a
  e := 0x510e527f
  f := 0x9b05688c
  g := 0x1f83d9ab
  h := 0x5be0cd19

/-- The words of a block. -/
def blockWords : List Byte → List (BitVec 32)
  | b₀ :: b₁ :: b₂ :: b₃ :: rest => ofBe32 b₀ b₁ b₂ b₃ :: blockWords rest
  | _ => []

/-- The next word of the message schedule; `w` holds the words before it, the last one first. -/
def nextWord (w : List (BitVec 32)) : BitVec 32 :=
  let x := w.getD 14 0
  let y := w.getD 1 0
  let s₀ := x.rotateRight 7 ^^^ x.rotateRight 18 ^^^ (x >>> 3)
  let s₁ := y.rotateRight 17 ^^^ y.rotateRight 19 ^^^ (y >>> 10)
  w.getD 15 0 + s₀ + w.getD 6 0 + s₁

/-- The message schedule of a block. -/
def schedule (block : List Byte) : List (BitVec 32) :=
  ((List.range 48).foldl (fun w _ => nextWord w :: w) (blockWords block).reverse).reverse

/-- One round. -/
def round (v : Words) (k w : BitVec 32) : Words :=
  let t₁ := v.h + (v.e.rotateRight 6 ^^^ v.e.rotateRight 11 ^^^ v.e.rotateRight 25) +
    ((v.e &&& v.f) ^^^ (~~~v.e &&& v.g)) + k + w
  let t₂ := (v.a.rotateRight 2 ^^^ v.a.rotateRight 13 ^^^ v.a.rotateRight 22) +
    ((v.a &&& v.b) ^^^ (v.a &&& v.c) ^^^ (v.b &&& v.c))
  ⟨t₁ + t₂, v.a, v.b, v.c, v.d + t₁, v.e, v.f, v.g⟩

/-- The compression function. -/
def compress (h : Words) (block : List Byte) : Words :=
  let v := (k256.zip (schedule block)).foldl (fun v (k, w) => round v k w) h
  ⟨h.a + v.a, h.b + v.b, h.c + v.c, h.d + v.d, h.e + v.e, h.f + v.f, h.g + v.g, h.h + v.h⟩

/-! ## The hash -/

/-- The first `n` blocks of a text. -/
def blocks (n : ℕ) (l : List Byte) : List (List Byte) :=
  (List.range n).map fun i => (l.drop (64 * i)).take 64

/-- The padding of a message of `n` bytes. -/
def padding (n : ℕ) : List Byte :=
  0x80 :: List.replicate ((119 - n % 64) % 64) 0 ++ be64 (BitVec.ofNat 64 n * 8)

/-- The bytes of the hash. -/
def digest (h : Words) : List Byte :=
  be32 h.a ++ be32 h.b ++ be32 h.c ++ be32 h.d ++ be32 h.e ++ be32 h.f ++ be32 h.g ++ be32 h.h

/-- SHA-256. -/
def hash (m : List Byte) : List Byte :=
  let padded := m ++ padding m.length
  digest ((blocks (padded.length / 64) padded).foldl compress iv)

/-- HMAC-SHA-256. -/
def hmac (key m : List Byte) : List Byte :=
  let key := if 64 < key.length then hash key else key
  let key := key ++ List.replicate (64 - key.length) 0
  hash (key.map (· ^^^ 0x5c) ++ hash (key.map (· ^^^ 0x36) ++ m))

/-! ## Hashing part by part -/

/-- The message `m` has been taken in: its whole blocks have been compressed to `h`, and `rest`
is what is left. -/
structure Absorbed (m : List Byte) (h : Words) (rest : List Byte) : Prop where
  rest_eq : rest = m.drop (64 * (m.length / 64))
  hash_eq : h = (blocks (m.length / 64) m).foldl compress iv

theorem blocks_succ (n : ℕ) (l : List Byte) :
    blocks (n + 1) l = blocks n l ++ [(l.drop (64 * n)).take 64] := by
  rw [blocks, List.range_succ, List.map_append]
  rfl

/-- What follows the blocks does not matter. -/
theorem blocks_append {n : ℕ} {l : List Byte} (hl : 64 * n ≤ l.length) (p : List Byte) :
    blocks n (l ++ p) = blocks n l := by
  induction n with
  | zero => rfl
  | succ n ih =>
      rw [blocks_succ, blocks_succ, ih (by omega), List.drop_append_of_le_length (by omega),
        List.take_append_of_le_length (by rw [List.length_drop]; omega)]

theorem absorbed_nil : Absorbed [] iv [] := ⟨rfl, rfl⟩

section Absorbing

variable {m p rest : List Byte} {h : Words}

theorem Absorbed.length_rest (ha : Absorbed m h rest) : rest.length = m.length % 64 := by
  rw [ha.rest_eq, List.length_drop]
  omega

/-- A part that does not fill the block. -/
theorem Absorbed.part (ha : Absorbed m h rest) (hp : rest.length + p.length < 64) :
    Absorbed (m ++ p) h (rest ++ p) := by
  have hrest := ha.length_rest
  have hlen : (m ++ p).length / 64 = m.length / 64 := by
    rw [List.length_append]
    omega
  refine ⟨?_, ?_⟩
  · rw [hlen, List.drop_append_of_le_length (by omega), ha.rest_eq]
  · rw [hlen, blocks_append (by omega), ha.hash_eq]

/-- A part that fills the block. -/
theorem Absorbed.block (ha : Absorbed m h rest) (hp : rest.length + p.length = 64) :
    Absorbed (m ++ p) (compress h (rest ++ p)) [] := by
  have hrest := ha.length_rest
  have hlen : (m ++ p).length / 64 = m.length / 64 + 1 := by
    rw [List.length_append]
    omega
  refine ⟨?_, ?_⟩
  · rw [hlen, List.drop_eq_nil_of_le]
    rw [List.length_append]
    omega
  · rw [hlen, blocks_succ, blocks_append (by omega), List.foldl_append, ← ha.hash_eq,
      List.drop_append_of_le_length (by omega), ← ha.rest_eq, List.take_of_length_le]
    · rfl
    · rw [List.length_append]
      omega

/-- **The hash of a message that has been taken in with its padding.** -/
theorem Absorbed.digest_eq (ha : Absorbed (m ++ padding m.length) h rest) :
    digest h = hash m := by
  rw [ha.hash_eq, hash]

end Absorbing

end Sha256
