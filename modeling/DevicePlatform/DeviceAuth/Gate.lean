/-
# The gate of the device service

Model of `device-platform-mcu-auth`, which `device-service` is started behind: a shell script that
draws a nonce, passes it to the MCU through the driver, and compares the answer with the MAC that
`openssl` computes with the key that the MCU was paired with.  The texts that the script makes on
its way are modelled as the tools print them; of `openssl` only that it prints the MAC first
(`Openssl`).  The attributes of the driver are programs over the bus (`showHex`,
`authChallengeStore`, `authResponseShow`), among other traffic (`gateSystem`).

`gate_exact` says what the script decides if it is started while no challenge is pending.  It lets
an MCU pass only if the MCU has a key, and the first 16 bytes of the MAC under this key are those
under the key in the file; and if no register operation fails, and the MCU is not too slow, it lets
every such MCU pass.
-/
import DevicePlatform.DeviceAuth.RoundTrip
import DevicePlatform.Texts
import Mathlib.Data.List.DropRight

namespace DeviceAuth

/-! ## The tools -/

/-- `$( … )`: the text without the newlines at its end. -/
def commandSubst (text : List Char) : List Char := text.rdropWhile (· = '\n')

/-- `printf '%08x'` of a number that is given as `0x…`. -/
def printf08x (text : List Char) : List Char := Nat.padded 16 8 ((int16 text).getD 0)

/-- `sed 's/../\\x&/g'`. -/
def tohexEsc : List Char → List Char
  | a :: b :: rest => '\\' :: 'x' :: a :: b :: tohexEsc rest
  | rest => rest

/-- `printf` of a format with `\xHH` in it: the bytes of the escapes, and of the other
characters. -/
def printfEscapes : List Char → List Byte
  | '\\' :: 'x' :: a :: b :: rest =>
      match hexToBin a, hexToBin b with
      | some hi, some lo => BitVec.ofNat 8 (16 * hi + lo) :: printfEscapes rest
      | some hi, none => BitVec.ofNat 8 hi :: printfEscapes (b :: rest)
      | none, _ => BitVec.ofNat 8 '\\'.toNat :: BitVec.ofNat 8 'x'.toNat ::
          printfEscapes (a :: b :: rest)
  | c :: rest => BitVec.ofNat 8 c.toNat :: printfEscapes rest
  | [] => []

/-- `openssl dgst -sha256 -mac HMAC -macopt hexkey:$hexkey -r`, by the key and the input. -/
structure Openssl where
  dgst : List Char → List Byte → List Char
  /-- With a key of 32 bytes, the line begins with the MAC. -/
  dgst_hexText : ∀ key input, key.length = 32 →
    hexText (Sha256.hmac key input) <+: dgst (hexText key) input

/-- What the script computes from the key, the attributes and the nonce; `cut -c1-32` takes the
beginning of the line. -/
def expect (openssl : Openssl) (hexkey dev fw nonce : List Char) : List Char :=
  commandSubst ((openssl.dgst hexkey
    (printfEscapes "acq-auth-v1".toList ++
      printfEscapes (commandSubst (tohexEsc (dev ++ fw ++ nonce) ++ ['\n'])))).take 32)

section Texts

variable {l : List Byte}

theorem length_hexText (l : List Byte) : (hexText l).length = 2 * l.length := by
  induction l with
  | nil => rfl
  | cons b l ih =>
      show (hexChar _ :: hexChar _ :: hexText l).length = _
      rw [List.length_cons, List.length_cons, List.length_cons, ih]
      omega

theorem newline_notMem_hexText (l : List Byte) : '\n' ∉ hexText l := by
  intro hmem
  obtain ⟨b, -, hc⟩ := List.mem_flatMap.mp hmem
  have hb := b.isLt
  rcases List.mem_cons.mp hc with hc | hc
  · exact hexChar_ne _ (by omega) hc.symm
  · exact hexChar_ne _ (by omega) (List.mem_singleton.mp hc).symm

theorem hexText_append (l l' : List Byte) : hexText (l ++ l') = hexText l ++ hexText l' :=
  List.flatMap_append

theorem take_hexText (l : List Byte) (n : ℕ) :
    (hexText l).take (2 * n) = hexText (l.take n) := by
  induction n generalizing l with
  | zero => rw [Nat.mul_zero, List.take_zero, List.take_zero]; rfl
  | succ n ih =>
      cases l with
      | nil => rfl
      | cons b l =>
          show (hexChar _ :: hexChar _ :: hexText l).take (2 * n + 1 + 1) = _
          rw [List.take_succ_cons, List.take_succ_cons, ih]
          rfl

theorem hex2bin_hexText (l : List Byte) : hex2bin l.length (hexText l) = some l := by
  induction l with
  | nil => rfl
  | cons b l ih =>
      have hb := b.isLt
      have hbyte : BitVec.ofNat 8 (16 * (b.toNat / 16) + b.toNat % 16) = b := by
        rw [Nat.div_add_mod, BitVec.ofNat_toNat, BitVec.setWidth_eq]
      show hex2bin (l.length + 1) (hexChar _ :: hexChar _ :: hexText l) = _
      simp only [hex2bin, hexToBin_hexChar _ (show b.toNat / 16 < 16 by omega),
        hexToBin_hexChar _ (show b.toNat % 16 < 16 by omega), ih, Option.bind_eq_bind,
        Option.bind_some, Option.pure_def, hbyte]

/-- A text without newlines is kept. -/
theorem commandSubst_of_notMem {t : List Char} (h : '\n' ∉ t) : commandSubst t = t := by
  rw [commandSubst, List.rdropWhile_eq_self_iff]
  intro hne hlast
  exact h (of_decide_eq_true hlast ▸ List.getLast_mem hne)

theorem commandSubst_newline {t : List Char} (h : '\n' ∉ t) : commandSubst (t ++ ['\n']) = t := by
  have hdrop : commandSubst (t ++ ['\n']) = commandSubst t :=
    List.rdropWhile_concat_pos _ _ _ (by decide)
  rw [hdrop, commandSubst_of_notMem h]

/-- The escapes stand for the bytes. -/
theorem printfEscapes_tohexEsc (l : List Byte) : printfEscapes (tohexEsc (hexText l)) = l := by
  induction l with
  | nil => rfl
  | cons b l ih =>
      have hb := b.isLt
      have hbyte : BitVec.ofNat 8 (16 * (b.toNat / 16) + b.toNat % 16) = b := by
        rw [Nat.div_add_mod, BitVec.ofNat_toNat, BitVec.setWidth_eq]
      show printfEscapes ('\\' :: 'x' :: hexChar _ :: hexChar _ :: tohexEsc (hexText l)) = _
      simp only [printfEscapes, hexToBin_hexChar _ (show b.toNat / 16 < 16 by omega),
        hexToBin_hexChar _ (show b.toNat % 16 < 16 by omega), ih, hbyte]

theorem newline_notMem_tohexEsc (l : List Byte) : '\n' ∉ tohexEsc (hexText l) := by
  induction l with
  | nil => exact List.not_mem_nil
  | cons b l ih =>
      have hb := b.isLt
      show '\n' ∉ '\\' :: 'x' :: hexChar _ :: hexChar _ :: tohexEsc (hexText l)
      simp only [List.mem_cons, not_or]
      exact ⟨by decide, by decide, (hexChar_ne _ (by omega)).symm, (hexChar_ne _ (by omega)).symm,
        ih⟩

/-- **The script computes what the verifier does.** -/
theorem expect_eq (openssl : Openssl) {key : List Byte} (hkey : key.length = 32)
    (dev fw : BitVec 32) (nonce : List Byte) :
    expect openssl (hexText key) (hexText (be32 dev)) (hexText (be32 fw)) (hexText nonce) =
      expected key dev.toNat fw.toNat nonce := by
  have hdomain : printfEscapes "acq-auth-v1".toList = devauthDomain := by decide
  have hinput : printfEscapes (commandSubst
      (tohexEsc (hexText (be32 dev) ++ hexText (be32 fw) ++ hexText nonce) ++ ['\n'])) =
      be32 dev ++ be32 fw ++ nonce := by
    rw [← hexText_append, ← hexText_append, commandSubst_newline (newline_notMem_tohexEsc _),
      printfEscapes_tohexEsc]
  unfold expect expected
  rw [hdomain, hinput, BitVec.ofNat_toNat, BitVec.ofNat_toNat, BitVec.setWidth_eq,
    BitVec.setWidth_eq, List.append_assoc devauthDomain, List.append_assoc devauthDomain]
  obtain ⟨rest, hline⟩ :=
    openssl.dgst_hexText key (devauthDomain ++ (be32 dev ++ be32 fw ++ nonce)) hkey
  rw [← hline]
  dsimp only
  generalize hmac : Sha256.hmac key _ = mac
  have hlen : mac.length = 32 := by
    rw [← hmac]
    rfl
  rw [List.take_append_of_le_length (by rw [length_hexText, hlen]; decide),
    show (32 : ℕ) = 2 * 16 from rfl, take_hexText,
    commandSubst_of_notMem (newline_notMem_hexText _)]

theorem digitChar_eq_hexChar : ∀ d < 16, Nat.digitChar d = hexChar d := by decide

/-- `%08x` prints the digits of the four bytes. -/
theorem printf08x_attributeText (v : BitVec 32) :
    printf08x (commandSubst (attributeText v)) = hexText (be32 v) := by
  have hline : '\n' ∉ ['0', 'x'] ++ hexText (be32 v) := by
    rw [List.mem_append, not_or]
    exact ⟨by decide, newline_notMem_hexText _⟩
  have hnumber : int16 (commandSubst (attributeText v)) = some v.toNat := by
    rw [attributeText, commandSubst_newline hline, ← int16_attributeText v]
    show ((hexText (be32 v)).takeWhile _).foldlM _ 0 =
      ((hexText (be32 v) ++ ['\n']).takeWhile _).foldlM _ 0
    have hall : ∀ c ∈ hexText (be32 v), decide (c ≠ '\n') = true := by
      intro c hc
      rw [decide_eq_true_eq]
      rintro rfl
      exact newline_notMem_hexText _ hc
    rw [List.takeWhile_append_of_pos hall, List.takeWhile_cons_of_neg (by decide),
      List.append_nil, List.takeWhile_eq_self_iff.mpr hall]
  have hv := v.isLt
  rw [printf08x, hnumber, Option.getD_some]
  simp only [Nat.padded_succ (b := 16) (by decide), Nat.div_div_eq_div_mul]
  rw [Nat.padded_one (by omega)]
  simp only [hexText, be32, List.flatMap_cons, List.flatMap_nil, List.cons_append, List.nil_append,
    BitVec.toNat_setWidth, BitVec.toNat_ushiftRight, Nat.shiftRight_eq_div_pow]
  -- the digits, from the highest one on
  iterate 8
    refine congrArg₂ List.cons ((digitChar_eq_hexChar _ (by omega)).trans
      (congrArg hexChar (by omega))) ?_
  rfl

end Texts

/-! ## The script -/

/-- How the script ends, what it prints, and the nonce that it has drawn. -/
structure Exit where
  status : ℕ
  text : List Char
  nonce : Option (List Byte)
  deriving DecidableEq

/-- `fail`. -/
def fail (reason : List Char) (nonce : Option (List Byte)) : Exit :=
  ⟨1, "mcu-auth: FAIL - ".toList ++ reason ++ ['\n'], nonce⟩

/-- `device_id_show` and `fw_version_show`; `none` if the read fails. -/
def showHex (addr : BitVec 8) : Prog AuthSys (Option (List Char)) := do
  let ret ← regOp (.read addr)
  match ret with
  | .error _ => return none
  | .ok val => return some (attributeText val)

/-- `auth_cycles_show`. -/
def authCyclesShow : Prog AuthSys (Option (List Char)) := do
  let ret ← regOp (.read 0x19)
  match ret with
  | .error _ => return none
  | .ok val => return some ((toString val.toNat).toList ++ ['\n'])

/-- 16 bytes of `/dev/urandom`. -/
@[irreducible] def randomBytes (n : ℕ) : List Byte :=
  (List.range 16).map fun i => BitVec.ofNat 8 (n / 256 ^ i)

/-- The challenge, the response and the comparison. -/
def challenge (openssl : Openssl) (hexkey dev fw : List Char) (nonce : List Byte) :
    Prog AuthSys Exit := do
  let sent ← authChallengeStore (commandSubst (hexText nonce))
  match sent with
  | .error _ => return fail "could not send the challenge".toList (some nonce)
  | .ok _ => do
      let answer ← authResponseShow
      match answer with
      | .error _ => return fail "no answer from the MCU".toList (some nonce)
      | .ok answer =>
          if commandSubst answer = expect openssl hexkey dev fw (commandSubst (hexText nonce))
          then do
            let cycles ← authCyclesShow
            return ⟨0, "mcu-auth: OK - MCU 0x".toList ++ dev ++ " fw 0x".toList ++ fw ++
              " answered the challenge (".toList ++ commandSubst (cycles.getD []) ++
              " cycles)\n".toList, some nonce⟩
          else
            return fail ("wrong answer from MCU 0x".toList ++ dev ++
              " (not the paired device, or not paired)".toList) (some nonce)

/-- `device-platform-mcu-auth`; `file` is what `/data/devauth/mcu.key` holds, if it can be
read. -/
def gate (openssl : Openssl) (file : Option (List Byte)) : Prog AuthSys Exit :=
  match file with
  | none => return fail "no pairing key at /data/devauth/mcu.key".toList none
  | some key =>
      -- `hexdump -v -e '1/1 "%02x"'`
      let hexkey := commandSubst (hexText key)
      if hexkey.length ≠ 64 then return fail "pairing key is not 32 bytes".toList none
      else do
        let dev ← showHex 0x00
        match dev with
        | none => return fail "MCU not answering (device_id)".toList none
        | some dev => do
            let fw ← showHex 0x01
            match fw with
            | none => return fail "MCU not answering (fw_version)".toList none
            | some fw => do
                let n ← Prog.choose
                challenge openssl hexkey (printf08x (commandSubst dev))
                  (printf08x (commandSubst fw)) (randomBytes n)

/-- The gate in front of an MCU with `key`, from power-on.  A call is a run of the script, with
what the key file holds. -/
def gateSystem (openssl : Openssl) (key : Key) := session key (gate openssl)

/-! ## What the script decides -/

/-- What is authenticated: the MCU's constants, and the nonce. -/
def authMessage (nonce : List Byte) : List Byte :=
  devauthDomain ++ be32 deviceId ++ be32 fwVersion ++ nonce

/-- The MCU has a key, and its MAC of the nonce begins as the one under `k`. -/
def Matches (key : Key) (k nonce : List Byte) : Prop :=
  devauthKeyPresent key = true ∧ (Sha256.hmac key.bytes (authMessage nonce)).take 16 =
    (Sha256.hmac k (authMessage nonce)).take 16

/-- What a run has come to. -/
structure Decided (key : Key) (file : Option (List Byte)) (exit : Exit) (trouble : Bool)
    (early : ℕ) : Prop where
  sound : exit.status = 0 → ∃ k nonce, file = some k ∧ k.length = 32 ∧ exit.nonce = some nonce ∧
    Matches key k nonce
  complete : ∀ k, file = some k → k.length = 32 → trouble = false → early ≠ 100 →
    ∃ nonce, exit.nonce = some nonce ∧ (Matches key k nonce → exit.status = 0)

section Script

variable {openssl : Openssl} {key : Key} {s : AuthSys} {k : List Byte}

theorem length_randomBytes (n : ℕ) : (randomBytes n).length = 16 := by
  rw [randomBytes]
  rfl

theorem stable_idle : Stable key (Idle key) := by
  intro cycles m pc hidle
  exact (stable_written (List.finRange 4) cycles m pc
    ⟨hidle, fun j hj => absurd (List.mem_finRange j) hj⟩ : Written key [] _ _ _).1

/-- An attribute with a constant in it. -/
theorem showHex_spec {addr : BitVec 8} {v : BitVec 32} (haddr : addr ≠ cmdNop)
    (hother : (RegOp.read addr).frame.isNonce = false ∧ (RegOp.read addr).frame.isChallenge = false)
    (hv : ∀ m, opValue (.read addr) m = v) (hidle : Idle key s.auth s.main) :
    (showHex addr).wp (calling key) (fun r t => t.early = s.early ∧
      match r with
      | none => t.trouble = true ∧ ∃ armed, AuthInv key t.auth t.main armed
      | some text => text = attributeText v ∧ Idle key t.auth t.main) s := by
  refine Prog.wp_seq (regOp_spec (.read addr) (B := fun w a pc => Idle key a pc ∧ w = v) haddr
    stable_idle (fun w cycles m pc hB => ⟨stable_idle cycles m pc hB.1, hB.2⟩) ?_ hidle) ?_
  · intro m pc hA
    rw [Auth.afterFrame_of_other hother.1 hother.2]
    exact ⟨hA, hv m⟩
  · rintro (e | w) t ⟨hearly, ht⟩
    · exact ⟨hearly, ht.1, _, ht.2.inv⟩
    · exact ⟨hearly, by rw [ht.2.2], ht.2.1⟩

theorem hexText_injective {l l' : List Byte} (h : hexText l = hexText l') : l = l' := by
  have hlen : l.length = l'.length := by
    have := congrArg List.length h
    rw [length_hexText, length_hexText] at this
    omega
  have hbytes := hex2bin_hexText l
  rw [h, hlen, hex2bin_hexText] at hbytes
  exact (Option.some.inj hbytes).symm

theorem expected_eq_iff {key : Key} {nonce : List Byte} (hkey : devauthKeyPresent key = true) :
    expected key.bytes deviceId.toNat fwVersion.toNat nonce =
      expected k deviceId.toNat fwVersion.toNat nonce ↔ Matches key k nonce := by
  constructor
  · intro h
    exact ⟨hkey, hexText_injective h⟩
  · rintro ⟨-, h⟩
    exact congrArg hexText h

/-- What the challenge decides. -/
structure Compared (key : Key) (k nonce : List Byte) (exit : Exit) (t : AuthSys) : Prop where
  drawn : exit.nonce = some nonce
  sound : exit.status = 0 → Matches key k nonce
  complete : t.trouble = false → t.early ≠ 100 → Matches key k nonce → exit.status = 0
  service : ∃ armed, AuthInv key t.auth t.main armed

theorem authCyclesShow_spec (h : ∃ armed, AuthInv key s.auth s.main armed) :
    authCyclesShow.wp (calling key) (fun _ t => ∃ armed, AuthInv key t.auth t.main armed) s := by
  refine Prog.wp_seq (regOp_spec (.read 0x19) (B := fun _ a pc => ∃ armed, AuthInv key a pc armed)
    (by decide) stable_service (fun _ => stable_service) ?_ h) ?_
  · intro m pc hA
    rw [Auth.afterFrame_of_other (by decide) (by decide)]
    exact hA
  · rintro (e | v) t ⟨-, ht⟩
    · exact ht.2
    · exact ht.2

theorem challenge_spec {nonce : List Byte} (hk : k.length = 32) (hnonce : nonce.length = 16)
    (hearly : s.early = 0) (hidle : Idle key s.auth s.main) :
    (challenge openssl (hexText k) (hexText (be32 deviceId)) (hexText (be32 fwVersion)) nonce).wp
      (calling key) (Compared key k nonce) s := by
  have hkeep := commandSubst_of_notMem (newline_notMem_hexText nonce)
  unfold challenge
  rw [hkeep, expect_eq openssl hk]
  have hbuf : hex2bin 16 (hexText nonce) = some nonce := hnonce ▸ hex2bin_hexText nonce
  refine Prog.wp_seq (authChallengeStore_spec hbuf hidle) ?_
  rintro (e | n) t ⟨hearly', ht⟩
  · exact ⟨rfl, nofun, fun hfine => absurd hfine (by simp [ht.1.1]), ht.2⟩
  refine Prog.wp_seq (authResponseShow_spec hnonce (hearly'.trans hearly) ht) ?_
  rintro (e | answer) u ⟨hu, hservice⟩
  · refine ⟨rfl, nofun, fun hfine htime hmatch => ?_, hservice⟩
    rcases hu with hverdict | ⟨htrouble, -⟩ | ⟨hlate, -⟩
    · rw [verdict, if_pos hmatch.1] at hverdict
      cases hverdict
    · cases hfine.symm.trans htrouble
    · exact absurd hlate htime
  · have hanswer : devauthKeyPresent key = true ∧
        commandSubst answer = expected key.bytes deviceId.toNat fwVersion.toNat nonce := by
      rcases hu with hverdict | ⟨-, e, he⟩ | ⟨-, he⟩
      · unfold verdict at hverdict
        split at hverdict
        · rename_i hkey
          cases hverdict
          exact ⟨hkey, commandSubst_newline (newline_notMem_hexText _)⟩
        · cases hverdict
      · cases he
      · cases he
    obtain ⟨hkey, hanswer⟩ := hanswer
    dsimp only
    rw [hanswer]
    split
    · rename_i heq
      have hmatch := (expected_eq_iff hkey).mp heq
      refine Prog.wp_seq (authCyclesShow_spec hservice) fun cycles v hv => ?_
      exact ⟨rfl, fun _ => hmatch, fun _ _ _ => rfl, hv⟩
    · rename_i hne
      exact ⟨rfl, nofun, fun _ _ hmatch => absurd ((expected_eq_iff hkey).mpr hmatch) hne, hservice⟩

theorem gate_spec (file : Option (List Byte)) (s : AuthSys) (hearly : s.early = 0)
    (hidle : Idle key s.auth s.main) :
    (gate openssl file).wp (calling key) (Leaves key (Decided key) file) s := by
  cases file with
  | none => exact ⟨⟨nofun, fun _ hfile => nomatch hfile⟩, _, hidle.inv⟩
  | some k =>
      have hkeep := commandSubst_of_notMem (newline_notMem_hexText k)
      unfold gate
      dsimp only
      rw [hkeep, length_hexText]
      split
      · rename_i hlen
        refine ⟨⟨nofun, fun k' hfile hlen' => ?_⟩, _, hidle.inv⟩
        cases hfile
        exact absurd (by rw [hlen']) hlen
      rename_i hlen
      have hlen : k.length = 32 := by omega
      -- a read that fails is trouble
      have hfail : ∀ (reason : String) (t : AuthSys), t.trouble = true →
          (∃ armed, AuthInv key t.auth t.main armed) →
          Leaves key (Decided key) (some k) (fail reason.toList none) t := by
        intro reason t htrouble hservice
        refine ⟨⟨nofun, fun _ _ _ hfine => ?_⟩, hservice⟩
        cases hfine.symm.trans htrouble
      refine Prog.wp_seq (showHex_spec (v := deviceId) (by decide) (by decide) (fun _ => rfl)
        hidle) ?_
      rintro (_ | dev) t ⟨hearly₁, ht⟩
      · exact hfail _ t ht.1 ht.2
      obtain ⟨rfl, hidle₁⟩ := ht
      refine Prog.wp_seq (showHex_spec (v := fwVersion) (by decide) (by decide) (fun _ => rfl)
        hidle₁) ?_
      rintro (_ | fw) u ⟨hearly₂, hu⟩
      · exact hfail _ u hu.1 hu.2
      obtain ⟨rfl, hidle₂⟩ := hu
      refine Prog.wp_choose fun n => ?_
      rw [printf08x_attributeText, printf08x_attributeText]
      refine Prog.wp_mono (challenge_spec hlen (length_randomBytes n)
        (hearly₂.trans (hearly₁.trans hearly)) hidle₂) fun exit v hv => ?_
      refine ⟨⟨fun hok => ⟨k, _, rfl, hlen, hv.drawn, hv.sound hok⟩, ?_⟩, hv.service⟩
      rintro _ ⟨⟩ - hfine htime
      exact ⟨_, hv.drawn, hv.complete hfine htime⟩

end Script

/-- **The gate lets the paired MCU pass, and no other.** -/
theorem gate_exact {openssl : Openssl} {key : Key} {x : Session (Option (List Byte)) Exit}
    (h : (gateSystem openssl key).Reach Separate x) {r : Finished (Option (List Byte)) Exit}
    (hr : r ∈ x.finished) :
    (r.outcome.status = 0 → ∃ k nonce, r.request = some k ∧ k.length = 32 ∧
      r.outcome.nonce = some nonce ∧ Matches key k nonce) ∧
    ∀ k, r.request = some k → k.length = 32 → r.trouble = false → r.early ≠ 100 →
      ∃ nonce, r.outcome.nonce = some nonce ∧ (Matches key k nonce → r.outcome.status = 0) := by
  have decided := session_finished gate_spec h hr
  exact ⟨decided.sound, decided.complete⟩

/-- An `openssl` that prints the MAC and the name of the input. -/
def plainOpenssl : Openssl where
  dgst hexkey input :=
    match hex2bin (hexkey.length / 2) hexkey with
    | some key => hexText (Sha256.hmac key input) ++ " *stdin\n".toList
    | none => []
  dgst_hexText key input _ := by
    rw [length_hexText, Nat.mul_div_cancel_left _ (by decide), hex2bin_hexText]
    exact List.prefix_append _ _

/-- The MCU with the key 0 is paired, and passes. -/
theorem gate_exact_paired : ∃ x, (gateSystem plainOpenssl zeroKey).Reach Separate x ∧
    ∃ r ∈ x.finished, (r.request = some zeroKey.bytes ∧ r.trouble = false ∧ r.early = 0) ∧
      r.outcome.status = 0 := by
  have hrun : ∃ x, (gateSystem plainOpenssl zeroKey).Reach Separate x ∧ ∃ r ∈ x.finished,
      r.request = some zeroKey.bytes ∧ r.trouble = false ∧ r.early = 0 :=
    Machine.exists_reach_of_exec
      (List.flatten [[.start (some zeroKey.bytes)], List.replicate 44 (.call 0),
        List.replicate 14 (.meanwhile (.main 0)), List.replicate 36 (.call 0), [.finish]])
      rfl (by decide +kernel)
  obtain ⟨x, hx, r, hr, hp⟩ := hrun
  obtain ⟨nonce, -, hpass⟩ :=
    (gate_exact hx hr).2 _ hp.1 rfl hp.2.1 (by rw [hp.2.2]; decide)
  exact ⟨x, hx, r, hr, hp, hpass ⟨by decide, rfl⟩⟩

end DeviceAuth
