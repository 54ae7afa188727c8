/-
# Texts

What programs print: numbers with leading zeros (`Nat.padded`), UTF-8 and JSON documents.
`Utf8.valid` is the automaton that reads the bytes of a string.  A JSON library writes a document
as a text, unless a string in it is not well formed; which text that is, is left open
(`JsonLibrary`).
-/
import Mathlib.Data.Nat.Digits.Lemmas

/-- The bytes of a text. -/
def String.octets (s : String) : List UInt8 := s.toUTF8.data.toList

/-! ## Numbers -/

namespace Nat

/-- The digits of a number, with zeros in front of them up to `width`. -/
def padded (b width n : ℕ) : List Char :=
  List.replicate (width - (Nat.toDigits b n).length) '0' ++ Nat.toDigits b n

theorem padded_one {b n : ℕ} (h : n < b) : padded b 1 n = [Nat.digitChar n] := by
  rw [padded, Nat.toDigits_of_lt_base h]
  rfl

/-- The last digit. -/
theorem padded_succ {b : ℕ} (hb : 1 < b) (width n : ℕ) :
    padded b (width + 1 + 1) n = padded b (width + 1) (n / b) ++ [Nat.digitChar (n % b)] := by
  unfold padded
  by_cases hn : n < b
  · rw [Nat.toDigits_of_lt_base hn, Nat.div_eq_of_lt hn,
      Nat.toDigits_of_lt_base (Nat.zero_lt_of_lt hb), Nat.mod_eq_of_lt hn]
    simp only [List.length_singleton, Nat.add_sub_cancel, List.replicate_succ']
    rfl
  · rw [Nat.toDigits_eq_if hb, if_neg hn, List.length_append, List.length_singleton,
      Nat.add_sub_add_right, List.append_assoc]

end Nat

/-! ## UTF-8 -/

namespace Utf8

/-- What the automaton expects: a new character, so many continuation bytes, or a first
continuation byte from a smaller range. -/
inductive State where
  | start
  | tail₁
  | tail₂
  | tail₃
  | afterE0
  | afterED
  | afterF0
  | afterF4
  | reject
  deriving DecidableEq, Repr

/-- The first byte of a character. -/
def first (b : UInt8) : State :=
  if b ≤ 0x7f then .start
  else if 0xc2 ≤ b ∧ b ≤ 0xdf then .tail₁
  else if b = 0xe0 then .afterE0
  else if b = 0xed then .afterED
  else if 0xe1 ≤ b ∧ b ≤ 0xef then .tail₂
  else if b = 0xf0 then .afterF0
  else if 0xf1 ≤ b ∧ b ≤ 0xf3 then .tail₃
  else if b = 0xf4 then .afterF4
  else .reject

/-- A continuation byte. -/
def continuation (low high b : UInt8) (next : State) : State :=
  if low ≤ b ∧ b ≤ high then next else .reject

/-- One byte. -/
def step : State → UInt8 → State
  | .start, b => first b
  | .tail₁, b => continuation 0x80 0xbf b .start
  | .tail₂, b => continuation 0x80 0xbf b .tail₁
  | .tail₃, b => continuation 0x80 0xbf b .tail₂
  | .afterE0, b => continuation 0xa0 0xbf b .tail₁
  | .afterED, b => continuation 0x80 0x9f b .tail₁
  | .afterF0, b => continuation 0x90 0xbf b .tail₂
  | .afterF4, b => continuation 0x80 0x8f b .tail₂
  | .reject, _ => .reject

/-- The bytes are well-formed UTF-8. -/
def valid (l : List UInt8) : Bool := l.foldl step .start == .start

/-- After a whole number of characters the automaton is where it started. -/
theorem valid_append {l m : List UInt8} (h : valid l = true) : valid (l ++ m) = valid m := by
  unfold valid at *
  rw [List.foldl_append, eq_of_beq h]

/-! ### What encoders write is well formed -/

theorem continuation_ofNat {low high : UInt8} {n : ℕ} (hn : n < 256) (q : State)
    (hlow : low.toNat ≤ n) (hhigh : n ≤ high.toNat) :
    continuation low high (UInt8.ofNat n) q = q := by
  apply if_pos
  rw [UInt8.le_iff_toNat_le, UInt8.le_iff_toNat_le, UInt8.toNat_ofNat_of_lt' hn]
  exact ⟨hlow, hhigh⟩

/-- Six bits, in a byte of their own. -/
theorem continuation_tail (n : ℕ) (q : State) :
    continuation 0x80 0xbf (UInt8.ofNat (n % 64 + 128)) q = q :=
  continuation_ofNat (by omega) q (show 128 ≤ _ by omega) (show _ ≤ 191 by omega)

theorem first_ofNat {n : ℕ} (hn : n < 256) : first (UInt8.ofNat n) =
    if n ≤ 0x7f then .start
    else if 0xc2 ≤ n ∧ n ≤ 0xdf then .tail₁
    else if n = 0xe0 then .afterE0
    else if n = 0xed then .afterED
    else if 0xe1 ≤ n ∧ n ≤ 0xef then .tail₂
    else if n = 0xf0 then .afterF0
    else if 0xf1 ≤ n ∧ n ≤ 0xf3 then .tail₃
    else if n = 0xf4 then .afterF4
    else .reject := by
  simp only [first, UInt8.le_iff_toNat_le, ← UInt8.toNat_inj, UInt8.toNat_ofNat_of_lt' hn]
  rfl

/-- The bytes of a character lead from the start to the start. -/
theorem foldl_utf8EncodeChar (c : Char) :
    (String.utf8EncodeChar c).foldl step .start = .start := by
  have hvalid := c.valid
  unfold UInt32.isValidChar Nat.isValidChar at hvalid
  unfold String.utf8EncodeChar
  dsimp only
  generalize c.val.toNat = v at hvalid
  split
  · simp only [List.foldl_cons, List.foldl_nil, step]
    rw [first_ofNat (by omega), if_pos (by omega)]
  split
  · simp only [List.foldl_cons, List.foldl_nil, step]
    rw [first_ofNat (by omega), if_neg (by omega), if_pos (by omega)]
    exact continuation_tail v _
  split
  · simp only [List.foldl_cons, List.foldl_nil, step]
    rw [first_ofNat (by omega), if_neg (by omega), if_neg (by omega)]
    -- overlong forms are excluded after 0xe0, and surrogates after 0xed
    by_cases h₀ : v / 4096 = 0
    · rw [if_pos (by omega)]
      dsimp only [step]
      rw [continuation_ofNat (by omega) _ (show 160 ≤ _ by omega) (show _ ≤ 191 by omega)]
      exact continuation_tail v _
    rw [if_neg (by omega)]
    by_cases h₁₃ : v / 4096 = 13
    · rw [if_pos (by omega)]
      dsimp only [step]
      rw [continuation_ofNat (by omega) _ (show 128 ≤ _ by omega) (show _ ≤ 159 by omega)]
      exact continuation_tail v _
    · rw [if_neg (by omega), if_pos (by omega)]
      dsimp only [step]
      rw [continuation_tail]
      exact continuation_tail v _
  · simp only [List.foldl_cons, List.foldl_nil, step]
    rw [first_ofNat (by omega), if_neg (by omega), if_neg (by omega), if_neg (by omega),
      if_neg (by omega), if_neg (by omega)]
    -- overlong forms are excluded after 0xf0, and what is beyond the last plane after 0xf4
    by_cases h₀ : v / 262144 = 0
    · rw [if_pos (by omega)]
      dsimp only [step]
      rw [continuation_ofNat (by omega) _ (show 144 ≤ _ by omega) (show _ ≤ 191 by omega)]
      dsimp only [step]
      rw [continuation_tail]
      exact continuation_tail v _
    rw [if_neg (by omega)]
    by_cases h₄ : v / 262144 = 4
    · rw [if_neg (by omega), if_pos (by omega)]
      dsimp only [step]
      rw [continuation_ofNat (by omega) _ (show 128 ≤ _ by omega) (show _ ≤ 143 by omega)]
      dsimp only [step]
      rw [continuation_tail]
      exact continuation_tail v _
    · rw [if_pos (by omega)]
      dsimp only [step]
      rw [continuation_tail]
      dsimp only [step]
      rw [continuation_tail]
      exact continuation_tail v _

/-- **The bytes of a text are well-formed UTF-8.** -/
@[simp]
theorem valid_octets (s : String) : valid s.octets = true := by
  obtain ⟨m, hm⟩ := s.isValidUTF8
  have hoctets : s.octets = m.flatMap String.utf8EncodeChar := by
    rw [String.octets, String.toUTF8, hm, List.utf8Encode, List.data_toByteArray]
  rw [valid, hoctets, beq_iff_eq]
  clear hm hoctets
  induction m with
  | nil => rfl
  | cons c m ih => rw [List.flatMap_cons, List.foldl_append, foldl_utf8EncodeChar, ih]

end Utf8

/-! ## Documents -/

/-- A JSON document. -/
inductive Json where
  | bool (b : Bool)
  /-- A number, as it is printed. -/
  | num (text : List UInt8)
  | str (text : List UInt8)
  | arr (items : List Json)
  | obj (fields : List (String × Json))

namespace Json

mutual

/-- All strings of the document are well formed. -/
def valid : Json → Bool
  | .bool _ => true
  | .num _ => true
  | .str text => Utf8.valid text
  | .arr items => validItems items
  | .obj fields => validFields fields

def validItems : List Json → Bool
  | [] => true
  | j :: rest => valid j && validItems rest

def validFields : List (String × Json) → Bool
  | [] => true
  | (_, j) :: rest => valid j && validFields rest

end

theorem validItems_eq_all (l : List Json) : validItems l = l.all valid := by
  induction l with
  | nil => simp only [validItems, List.all_nil]
  | cons j rest ih => simp only [validItems, List.all_cons, ih]

theorem validFields_eq_all (l : List (String × Json)) :
    validFields l = l.all fun f => valid f.2 := by
  induction l with
  | nil => simp only [validFields, List.all_nil]
  | cons f rest ih => simp only [validFields, List.all_cons, ih]

end Json

/-- A library for such documents. -/
structure JsonLibrary where
  /-- The text of a document, indented if so asked; `none` if the library throws. -/
  dump : Option ℕ → Json → Option (List UInt8)
  /-- It throws if, and only if, a string is not well-formed UTF-8. -/
  dump_isSome : ∀ indent j, (dump indent j).isSome = j.valid

/-- One that writes blank texts. -/
instance : Inhabited JsonLibrary where
  default := {
    dump := fun _ j => if j.valid then some [] else none
    dump_isSome := by
      intro _ j
      cases j.valid <;> rfl }
