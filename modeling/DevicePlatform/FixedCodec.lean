/-
# Fixed-size encodings and files of them

A `FixedCodec α` writes a value of `α` as a fixed number of bytes.  Codecs of the fields of a
record are put together with `prod` and `map`, as a C compiler lays out a structure without
padding.

`FixedCodec.read` is what `fread` of one item does: it takes the item off the file, or fails if
there are not enough bytes.  `read_append` and `read_short` are the two facts that a round trip
needs.  A file of items of one codec that is cut off anywhere still starts with its longest
prefix of whole items, and ends in the middle of one (`take_flatMap_encode`).
-/
import Mathlib.Data.BitVec
import Mathlib.Data.List.Basic
import Mathlib.Data.Vector.Basic

/-- A fixed-size encoding of the values of `α` as bytes. -/
structure FixedCodec (α : Type) where
  size : ℕ
  encode : α → List (BitVec 8)
  decode : List (BitVec 8) → Option α
  length_encode : ∀ a, (encode a).length = size
  decode_encode : ∀ a, decode (encode a) = some a

namespace FixedCodec

variable {α β : Type}

/-! ## Files -/

/-- One item off a file. -/
def read (c : FixedCodec α) (file : List (BitVec 8)) : Option (α × List (BitVec 8)) :=
  if c.size ≤ file.length then (c.decode (file.take c.size)).map (·, file.drop c.size) else none

section Read

variable (c : FixedCodec α)

@[simp] theorem read_append (a : α) (rest : List (BitVec 8)) :
    c.read (c.encode a ++ rest) = some (a, rest) := by
  have hlen := c.length_encode a
  rw [read, if_pos (by rw [List.length_append, hlen]; exact Nat.le_add_right _ _),
    List.take_left' hlen, List.drop_left' hlen, c.decode_encode, Option.map_some]

theorem read_short {file : List (BitVec 8)} (h : file.length < c.size) : c.read file = none := by
  rw [read, if_neg (Nat.not_le.mpr h)]

theorem length_of_read {file rest : List (BitVec 8)} {a : α} (h : c.read file = some (a, rest)) :
    rest.length + c.size = file.length := by
  unfold read at h
  split at h
  · next hle =>
    obtain ⟨_, -, hrest⟩ := Option.map_eq_some_iff.mp h
    cases hrest
    rw [List.length_drop]
    omega
  · cases h

theorem length_flatMap_encode (l : List α) :
    (l.flatMap c.encode).length = l.length * c.size := by
  induction l with
  | nil => rw [List.flatMap_nil, List.length_nil, List.length_nil, Nat.zero_mul]
  | cons a l ih =>
      rw [List.flatMap_cons, List.length_append, c.length_encode, ih, List.length_cons,
        Nat.succ_mul, Nat.add_comm]

/-- **A file that is cut off** consists of whole items and part of another one. -/
theorem take_flatMap_encode (hc : 0 < c.size) (l : List α) (n : ℕ) :
    ∃ tail, (l.flatMap c.encode).take n = (l.take (n / c.size)).flatMap c.encode ++ tail ∧
      tail.length < c.size := by
  induction l generalizing n with
  | nil => exact ⟨[], by simp, hc⟩
  | cons a l ih =>
      rw [List.flatMap_cons]
      rcases Nat.lt_or_ge n c.size with hn | hn
      · refine ⟨(c.encode a).take n, ?_, ?_⟩
        · rw [Nat.div_eq_of_lt hn, List.take_zero, List.flatMap_nil, List.nil_append,
            List.take_append_of_le_length (by rw [c.length_encode]; exact hn.le)]
        · rw [List.length_take]
          omega
      · obtain ⟨tail, htail, hlen⟩ := ih (n - c.size)
        refine ⟨tail, ?_, hlen⟩
        rw [List.take_append, List.take_of_length_le (by rw [c.length_encode]; exact hn),
          c.length_encode, htail, Nat.div_eq_sub_div hc hn, List.take_succ_cons, List.flatMap_cons,
          List.append_assoc]

end Read

/-! ## Codecs -/

/-- The `n` low bytes of a number, the lowest first. -/
def leBytes : ℕ → ℕ → List (BitVec 8)
  | 0, _ => []
  | n + 1, v => BitVec.ofNat 8 v :: leBytes n (v / 256)

/-- The number that bytes stand for. -/
def ofLeBytes : List (BitVec 8) → ℕ
  | [] => 0
  | b :: l => b.toNat + 256 * ofLeBytes l

theorem length_leBytes (n v : ℕ) : (leBytes n v).length = n := by
  induction n generalizing v with
  | zero => rfl
  | succ n ih => rw [leBytes, List.length_cons, ih]

theorem ofLeBytes_leBytes (n v : ℕ) : ofLeBytes (leBytes n v) = v % 256 ^ n := by
  induction n generalizing v with
  | zero => rw [Nat.pow_zero, Nat.mod_one]; rfl
  | succ n ih =>
      have hsplit : v % 256 ^ (n + 1) = v % 256 + 256 * (v / 256 % 256 ^ n) := by
        rw [Nat.pow_succ', Nat.mod_mul]
      rw [hsplit, leBytes, ofLeBytes, ih, BitVec.toNat_ofNat]

/-- A word of `n` bytes, little-endian. -/
def le (n : ℕ) : FixedCodec (BitVec (8 * n)) where
  size := n
  encode v := leBytes n v.toNat
  decode l := some (BitVec.ofNat (8 * n) (ofLeBytes l))
  length_encode v := length_leBytes n v.toNat
  decode_encode v := by
    have hpow : 256 ^ n = 2 ^ (8 * n) := (Nat.pow_mul 2 8 n).symm
    rw [ofLeBytes_leBytes, hpow, Nat.mod_eq_of_lt v.isLt, BitVec.ofNat_toNat, BitVec.setWidth_eq]

/-- A field of `n` bytes. -/
def bytes (n : ℕ) : FixedCodec (List.Vector (BitVec 8) n) where
  size := n
  encode v := v.toList
  decode l := if h : l.length = n then some ⟨l, h⟩ else none
  length_encode v := v.toList_length
  decode_encode v := dif_pos v.toList_length

/-- One field after another. -/
def prod (c : FixedCodec α) (d : FixedCodec β) : FixedCodec (α × β) where
  size := c.size + d.size
  encode x := c.encode x.1 ++ d.encode x.2
  decode l := do
    let a ← c.decode (l.take c.size)
    let b ← d.decode (l.drop c.size)
    return (a, b)
  length_encode x := by rw [List.length_append, c.length_encode, d.length_encode]
  decode_encode x := by
    have hlen := c.length_encode x.1
    rw [List.take_left' hlen, List.drop_left' hlen, c.decode_encode, d.decode_encode]
    rfl

/-- The fields of a structure. -/
def map (c : FixedCodec α) (f : α → β) (g : β → α) (hf : ∀ b, f (g b) = b) : FixedCodec β where
  size := c.size
  encode b := c.encode (g b)
  decode l := (c.decode l).map f
  length_encode b := c.length_encode (g b)
  decode_encode b := by rw [c.decode_encode, Option.map_some, hf]

end FixedCodec
