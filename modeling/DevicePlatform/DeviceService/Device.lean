/-
# Writing a sysfs attribute of the driver

Model of `Device::write_sysfs` and its callers (`userspace/device-service/src/device.cpp`) and of
the store callbacks that such a write reaches (`driver/custom-acq/custom_acq.c`).

`write_sysfs` inserts the value into a `std::ofstream`.  The stream is buffered: the insertion of
a short text only fills the buffer, and the system call that runs the store callback is made when
the stream is closed, by its destructor, which has no way to report a failure.  A `Call` therefore
has two results: what the caller of `Device` sees, and what the callback answered.
-/
import DevicePlatform.DeviceService.Supervisor

namespace DeviceService

/-! ## The store callbacks -/

/-- The errors that a store callback returns. -/
inductive StoreError where
  | einval
  | erange
  | eio
  deriving DecidableEq, Repr

/-- The value of a digit; letters count in either case. -/
def digitValue (c : Char) : Option ℕ :=
  if c.isDigit then some (c.toNat - '0'.toNat)
  else if 'a' ≤ c.toLower ∧ c.toLower ≤ 'f' then some (c.toLower.toNat - 'a'.toNat + 10)
  else none

/-- `_parse_integer`: the number that the leading digits denote, and the text after them. -/
def parseInteger (base : ℕ) : List Char → ℕ → ℕ × List Char
  | [], n => (n, [])
  | c :: cs, n =>
      match digitValue c with
      | some d => if d < base then parseInteger base cs (base * n + d) else (n, c :: cs)
      | none => (n, c :: cs)

/-- `_parse_integer_fixup_radix` for base 0: the base that the text begins with. -/
def fixupRadix (s : List Char) : ℕ × List Char :=
  match s with
  | '0' :: x :: d :: rest =>
      if x.toLower = 'x' ∧ (digitValue d).isSome then (16, d :: rest) else (8, s)
  | '0' :: _ => (8, s)
  | _ => (10, s)

/-- `kstrtou32(buf, 0, …)`. -/
def kstrtou32 (buf : List Char) : Except StoreError (BitVec 32) :=
  let s := match buf with
    | '+' :: s => s
    | s => s
  let (base, digits) := fixupRadix s
  let (n, rest) := parseInteger base digits 0
  if 2 ^ 64 ≤ n then .error .erange
  else if rest.length = digits.length then .error .einval
  else if rest ≠ [] ∧ rest ≠ ['\n'] then .error .einval
  else if 2 ^ 32 ≤ n then .error .erange
  else .ok (BitVec.ofNat 32 n)

/-- `REG_CONTROL`. -/
def regControl : BitVec 8 := 0x03#8

/-- `REG_SAMPLE_RATE`. -/
def regSampleRate : BitVec 8 := 0x04#8

/-- The attributes that `Device` writes. -/
inductive Attribute where
  | control
  | sampleRate
  deriving DecidableEq, Repr

/-- The name of the attribute's file. -/
def Attribute.name : Attribute → String
  | .control => "control"
  | .sampleRate => "sample_rate"

/-- What a write of an attribute meets. -/
structure Kernel where
  /-- The attribute's file can be opened for writing. -/
  opens : Bool
  /-- The result of `custom_acq_reg_write`, for an address and a value. -/
  regWrite : BitVec 8 → BitVec 32 → Except StoreError Unit

namespace Kernel

/-- `control_store`. -/
def controlStore (k : Kernel) (buf : List Char) : Except StoreError ℕ := do
  let val ← kstrtou32 buf
  k.regWrite regControl (val &&& 0x01#32)
  return buf.length

/-- `sample_rate_store`. -/
def sampleRateStore (k : Kernel) (buf : List Char) : Except StoreError ℕ := do
  let val ← kstrtou32 buf
  if val < 1 ∨ val > 10000 then .error .einval
  else
    k.regWrite regSampleRate val
    return buf.length

/-- The store callback of an attribute. -/
def store (k : Kernel) : Attribute → List Char → Except StoreError ℕ
  | .control => k.controlStore
  | .sampleRate => k.sampleRateStore

end Kernel

/-! ## The stream and the calls -/

/-- A `std::ofstream` on an attribute. -/
structure Ofstream where
  file : Attribute
  buffer : List Char
  /-- `!f`. -/
  fail : Bool

namespace Ofstream

/-- The constructor. -/
def openFile (k : Kernel) (a : Attribute) : Ofstream := ⟨a, [], !k.opens⟩

/-- `f << value`, for a text that fits the buffer. -/
def insert (f : Ofstream) (value : String) : Ofstream :=
  if f.fail then f else { f with buffer := f.buffer ++ value.toList }

/-- The destructor: it writes the buffer out and ignores what `write(2)` answers. -/
def destroy (f : Ofstream) (k : Kernel) : Option (Except StoreError ℕ) :=
  if f.fail ∨ f.buffer = [] then none else some (k.store f.file f.buffer)

end Ofstream

/-- A finished call of `Device`. -/
structure Call where
  /-- The value returned, or the text of the `DeviceError` thrown. -/
  outcome : Except String String
  /-- What the store callback answered, if it was run. -/
  stored : Option (Except StoreError ℕ)

namespace Call

/-- The call returned without throwing. -/
def returned (c : Call) : Bool := c.outcome.isOk

/-- The store callback accepted the value. -/
def accepted (c : Call) : Bool := c.stored.any Except.isOk

/-- The call returns without throwing only if the store callback accepted the value. -/
def Reported (c : Call) : Prop := c.returned → c.accepted

instance (c : Call) : Decidable c.Reported := inferInstanceAs (Decidable (_ → _))

end Call

namespace Device

/-- `Device::write_sysfs`. -/
def writeSysfs (k : Kernel) (a : Attribute) (value : String) : Call :=
  let f := Ofstream.openFile k a
  if f.fail then
    ⟨.error ("failed to open sysfs attribute " ++ a.name ++ " for writing"), f.destroy k⟩
  else
    let f := f.insert value
    if f.fail then
      ⟨.error ("write to sysfs attribute " ++ a.name ++ " failed (rejected by driver?)"),
        f.destroy k⟩
    else ⟨.ok value, f.destroy k⟩

/-- `Device::start_acquisition`. -/
def startAcquisition (k : Kernel) : Call := writeSysfs k .control "1"

/-- `Device::stop_acquisition`. -/
def stopAcquisition (k : Kernel) : Call := writeSysfs k .control "0"

/-- `Device::write_sample_rate`. -/
def writeSampleRate (k : Kernel) (hz : BitVec 32) : Call :=
  writeSysfs k .sampleRate (toString hz.toNat)

end Device

/-! ## What the calls report -/

/-- `parseInteger` reads a text of decimal digits to its end. -/
theorem parseInteger_ten {cs : List Char} (h : ∀ c ∈ cs, c.isDigit = true) (n : ℕ) :
    parseInteger 10 cs n = (Nat.ofDigitChars 10 cs n, []) := by
  induction cs generalizing n with
  | nil => rw [parseInteger, Nat.ofDigitChars_nil]
  | cons c cs ih =>
      have hc : c.isDigit = true := h c List.mem_cons_self
      have hlt : c.toNat - '0'.toNat < 10 := by
        have h9 : c.toNat ≤ 57 := by
          rw [Char.isDigit, Bool.and_eq_true, decide_eq_true_eq, decide_eq_true_eq] at hc
          exact hc.2
        show c.toNat - 48 < 10
        omega
      have hd : digitValue c = some (c.toNat - '0'.toNat) := by rw [digitValue, if_pos hc]
      rw [parseInteger, hd]
      dsimp only
      rw [if_pos hlt, ih (fun c hc => h c (List.mem_cons_of_mem _ hc)), Nat.ofDigitChars_cons]

/-- The decimal text of a positive number does not begin with a zero, nor with a sign. -/
theorem toDigits_cons {n : ℕ} (hn : 0 < n) :
    ∃ c cs, Nat.toDigits 10 n = c :: cs ∧ c ≠ '0' ∧ c ≠ '+' := by
  induction n using Nat.base_induction 10 (by decide) with
  | single m hm =>
      refine ⟨m.digitChar, [], Nat.toDigits_of_lt_base hm, ?_, ?_⟩
      · rw [Ne, Nat.digitChar_eq_zero]
        exact hn.ne'
      · intro h
        have h48 := Nat.toNat_digitChar_of_lt_ten hm
        rw [h] at h48
        exact absurd h48 (by show 43 ≠ 48 + m; omega)
  | digit m k hk hm ih =>
      obtain ⟨c, cs, hcs, hc⟩ := ih hm
      refine ⟨c, cs ++ Nat.toDigits 10 k, ?_, hc⟩
      rw [← Nat.toDigits_append_toDigits (by decide) hm hk, hcs, List.cons_append]

/-- `kstrtou32` reads back what `std::to_string` writes. -/
theorem kstrtou32_toDigits (v : BitVec 32) : kstrtou32 (Nat.toDigits 10 v.toNat) = .ok v := by
  rcases Nat.eq_zero_or_pos v.toNat with h0 | hpos
  · have hv : v = 0#32 := BitVec.eq_of_toNat_eq h0
    subst hv
    decide +kernel
  · have hparse : parseInteger 10 (Nat.toDigits 10 v.toNat) 0 = (v.toNat, []) := by
      rw [parseInteger_ten fun c hc =>
        Nat.isDigit_of_mem_toDigits (by decide) (le_refl 10) hc, Nat.ofDigitChars_ten_toDigits]
    obtain ⟨c, cs, hcs, hzero, hplus⟩ := toDigits_cons hpos
    rw [hcs] at hparse ⊢
    have hradix : fixupRadix (c :: cs) = (10, c :: cs) := by
      unfold fixupRadix
      split
      · next heq => exact absurd (List.cons.inj heq).1 hzero
      · next heq => exact absurd (List.cons.inj heq).1 hzero
      · rfl
    have hsign : (match c :: cs with | '+' :: s => s | s => s) = c :: cs := by
      split
      · next heq => exact absurd (List.cons.inj heq).1 hplus
      · rfl
    have hlt := v.isLt
    unfold kstrtou32
    rw [hsign]
    dsimp only
    rw [hradix]
    dsimp only
    rw [hparse]
    dsimp only
    rw [if_neg (by omega), if_neg (by simp), if_neg (by simp), if_neg (by omega),
      BitVec.ofNat_toNat, BitVec.setWidth_eq]

namespace Device

variable {k : Kernel}

/-- The two results of `write_sysfs` for a number: the caller sees an error only if the attribute
cannot be opened, and otherwise the callback's answer is lost. -/
theorem writeSysfs_eq (a : Attribute) (v : BitVec 32) :
    writeSysfs k a (toString v.toNat) =
      if k.opens then ⟨.ok (toString v.toNat), some (k.store a (Nat.toDigits 10 v.toNat))⟩
      else ⟨.error ("failed to open sysfs attribute " ++ a.name ++ " for writing"), none⟩ := by
  cases h : k.opens with
  | false => simp [writeSysfs, Ofstream.openFile, Ofstream.destroy, h]
  | true => simp [writeSysfs, Ofstream.openFile, Ofstream.insert, Ofstream.destroy, h]

/-- A refusal reaches the caller of `write_sysfs` exactly if there is none, or if the callback is
not reached at all. -/
theorem writeSysfs_reported (a : Attribute) (v : BitVec 32) :
    (writeSysfs k a (toString v.toNat)).Reported ↔
      k.opens = false ∨ (k.store a (Nat.toDigits 10 v.toNat)).isOk = true := by
  rw [writeSysfs_eq]
  cases h : k.opens with
  | false => simp [Call.Reported, Call.returned, Except.isOk, Except.toBool]
  | true => simp [Call.Reported, Call.returned, Call.accepted, Except.isOk, Except.toBool]

/-- `write_sample_rate` returns whenever the attribute can be opened. -/
theorem writeSampleRate_returned (h : k.opens = true) (hz : BitVec 32) :
    (writeSampleRate k hz).returned = true := by
  rw [writeSampleRate, writeSysfs_eq, if_pos h]
  rfl

/-- `control_store` accepts a number if the register write succeeds. -/
theorem controlStore_isOk {v : BitVec 32} :
    (k.controlStore (Nat.toDigits 10 v.toNat)).isOk = true ↔
      k.regWrite regControl (v &&& 0x01#32) = .ok () := by
  rw [Kernel.controlStore, kstrtou32_toDigits]
  dsimp only [bind, Except.bind]
  cases k.regWrite regControl (v &&& 0x01#32) with
  | error _ => exact ⟨Bool.noConfusion, fun h => nomatch h⟩
  | ok _ => exact ⟨fun _ => rfl, fun _ => rfl⟩

/-- `sample_rate_store` accepts the rates from 1 to 10000 if the register write succeeds. -/
theorem sampleRateStore_isOk {hz : BitVec 32} :
    (k.sampleRateStore (Nat.toDigits 10 hz.toNat)).isOk = true ↔
      1 ≤ hz ∧ hz ≤ 10000 ∧ k.regWrite regSampleRate hz = .ok () := by
  have hrange : ¬(hz < 1 ∨ hz > 10000) ↔ 1 ≤ hz ∧ hz ≤ 10000 := by
    rw [not_or, BitVec.not_lt, gt_iff_lt, BitVec.not_lt]
  rw [Kernel.sampleRateStore, kstrtou32_toDigits, ← and_assoc, ← hrange]
  dsimp only [bind, Except.bind]
  by_cases hr : hz < 1 ∨ hz > 10000
  · rw [if_pos hr]
    exact ⟨Bool.noConfusion, fun h => absurd hr h.1⟩
  · rw [if_neg hr]
    cases k.regWrite regSampleRate hz with
    | error _ => exact ⟨Bool.noConfusion, fun h => nomatch h.2⟩
    | ok _ => exact ⟨fun _ => ⟨hr, rfl⟩, fun _ => rfl⟩

/-- A write of `control` reports a refusal only if there is none. -/
theorem writeControl_reported (v : BitVec 32) :
    (writeSysfs k .control (toString v.toNat)).Reported ↔
      k.opens = false ∨ k.regWrite regControl (v &&& 0x01#32) = .ok () := by
  rw [writeSysfs_reported, Kernel.store, controlStore_isOk]

/-- `write_sample_rate` reports a refusal only if there is none. -/
theorem writeSampleRate_reported (hz : BitVec 32) :
    (writeSampleRate k hz).Reported ↔
      k.opens = false ∨ 1 ≤ hz ∧ hz ≤ 10000 ∧ k.regWrite regSampleRate hz = .ok () := by
  rw [writeSampleRate, writeSysfs_reported, Kernel.store, sampleRateStore_isOk]

end Device

end DeviceService
