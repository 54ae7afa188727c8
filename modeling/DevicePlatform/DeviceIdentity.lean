/-
# The identity of the device

Model of the trusted application `device_identity`
(`security/optee-ta/device_identity/ta/device_identity_ta.c`), which keeps one key in the secure
storage of OP-TEE.

An invocation is a function of the storage, of its parameters, and of what the calls of the
GlobalPlatform API answer (`Answers`): any call may fail with any code, a key may have any
coordinates, and what the cryptography computes is left open.  Of the storage it is assumed that
`TEE_CreatePersistentObject` without `TEE_DATA_FLAG_OVERWRITE` does not touch an object that
exists.  An answer of `TEE_ERROR_TARGET_DEAD` stands for a panic.

`invoke_storage` says what an invocation can do to the storage: nothing, or create the key.
`provisioning_atomic_iff` draws from it that there is one key at most, which no later invocation
changes.  A `PROVISION` that fails is to leave the storage as it was.  It does, unless the key has
been created and then the public key cannot be handed out; `provision_short_buffer` is the case of
an output buffer that is too small.
-/
import DevicePlatform.Transition
import Mathlib.Data.BitVec
import Mathlib.Logic.Function.Basic

namespace DeviceIdentity

/-! ## The API -/

/-- `TEE_Result`. -/
abbrev TeeResult := BitVec 32

def teeSuccess : TeeResult := 0
def teeErrorGeneric : TeeResult := 0xFFFF0000
def teeErrorAccessConflict : TeeResult := 0xFFFF0003
def teeErrorBadParameters : TeeResult := 0xFFFF0006
def teeErrorItemNotFound : TeeResult := 0xFFFF0008
def teeErrorNotSupported : TeeResult := 0xFFFF000A
def teeErrorSecurity : TeeResult := 0xFFFF000F
def teeErrorShortBuffer : TeeResult := 0xFFFF0010
def teeErrorTargetDead : TeeResult := 0xFFFF3024

/-- `TEE_PARAM_TYPES`, with the types used here. -/
def teeParamTypes (t0 t1 t2 t3 : BitVec 32) : BitVec 32 :=
  t0 ||| t1 <<< 4 ||| t2 <<< 8 ||| t3 <<< 12
def typeNone : BitVec 32 := 0
def typeMemrefInput : BitVec 32 := 5
def typeMemrefOutput : BitVec 32 := 6

/-- `TEE_USAGE_EXTRACTABLE` and `TEE_USAGE_SIGN`. -/
def usageExtractable : BitVec 32 := 0x1
def usageSign : BitVec 32 := 0x10

/-- A P-256 key: the public coordinates, which may come without leading zero bytes, and the
private value. -/
structure KeyPair where
  x : List (BitVec 8)
  y : List (BitVec 8)
  d : List (BitVec 8)
  deriving DecidableEq, Repr

/-- A persistent object. -/
structure KeyObject where
  key : KeyPair
  usage : BitVec 32
  deriving DecidableEq, Repr

/-- `TEE_STORAGE_PRIVATE`. -/
abbrev Storage := String → Option KeyObject

/-- A memory reference among the parameters. -/
structure Memref where
  buffer : List (BitVec 8)
  size : ℕ
  deriving DecidableEq, Repr

/-- What the calls of the API answer.  Each code is `TEE_SUCCESS` unless the call fails for a
reason that is not in the model. -/
structure Answers where
  openPersistentObject : TeeResult := teeSuccess
  allocateTransientObject : TeeResult := teeSuccess
  generateKey : TeeResult := teeSuccess
  restrictObjectUsage : TeeResult := teeSuccess
  createPersistentObject : TeeResult := teeSuccess
  publicValueX : TeeResult := teeSuccess
  publicValueY : TeeResult := teeSuccess
  privateValue : TeeResult := teeSuccess
  challengeDigest : TeeResult := teeSuccess
  allocateOperation : TeeResult := teeSuccess
  setOperationKey : TeeResult := teeSuccess
  asymmetricSignDigest : TeeResult := teeSuccess
  /-- The key that `TEE_GenerateKey` makes, with every usage, and a signature. -/
  generated : KeyPair
  signature : List (BitVec 8) := []
  deriving DecidableEq, Repr

/-- `TEE_CreatePersistentObject`, without `TEE_DATA_FLAG_OVERWRITE`. -/
def createPersistentObject (answer : TeeResult) (st : Storage) (id : String) (obj : KeyObject) :
    TeeResult × Storage :=
  if answer ≠ teeSuccess then (answer, st)
  else if (st id).isSome then (teeErrorAccessConflict, st)
  else (teeSuccess, Function.update st id (some obj))

/-- `TEE_GetObjectBufferAttribute` of a public attribute, into a buffer of `max` bytes. -/
def getObjectBufferAttribute (answer : TeeResult) (value : List (BitVec 8)) (max : ℕ) :
    Except TeeResult (List (BitVec 8)) :=
  if answer ≠ teeSuccess then .error answer
  else if value.length > max then .error teeErrorShortBuffer
  else .ok value

/-! ## The trusted application -/

/-- `KEY_BITS / 8`, `DEVID_PUBKEY_LEN`, `DEVID_SIG_LEN`, `DEVID_NONCE_MIN`, `DEVID_NONCE_MAX`. -/
def keyBytes : ℕ := 32
def devidPubkeyLen : ℕ := 65
def devidSigLen : ℕ := 64
def devidNonceMin : ℕ := 16
def devidNonceMax : ℕ := 64

/-- `key_object_id`. -/
def keyObjectId : String := "devid-key-v1"

/-- For the numerals of `Fin 4`. -/
local instance params_neZero : NeZero 4 := ⟨by decide⟩

/-- An invocation of a command. -/
structure Invocation where
  cmdId : BitVec 32
  paramTypes : BitVec 32
  params : Fin 4 → Memref
  answers : Answers

/-- What it returns and leaves behind.  `created` is the key it created, if any. -/
structure Reply where
  result : TeeResult
  params : Fin 4 → Memref
  storage : Storage
  created : List KeyPair := []

/-- `open_key`. -/
def openKey (a : Answers) (st : Storage) : Except TeeResult KeyObject :=
  if a.openPersistentObject ≠ teeSuccess then .error a.openPersistentObject
  else
    match st keyObjectId with
    | some obj => .ok obj
    | none => .error teeErrorItemNotFound

/-- The public key as `export_pubkey` writes it: `0x04`, and the coordinates with their leading
zero bytes. -/
def pubkeyBytes (x y : List (BitVec 8)) : List (BitVec 8) :=
  [0x04] ++ List.replicate (keyBytes - x.length) 0 ++ x ++
    List.replicate (keyBytes - y.length) 0 ++ y

/-- `export_pubkey`. -/
def exportPubkey (a : Answers) (obj : KeyObject) (out : Memref) : TeeResult × Memref :=
  if out.size < devidPubkeyLen then (teeErrorShortBuffer, { out with size := devidPubkeyLen })
  else
    match getObjectBufferAttribute a.publicValueX obj.key.x keyBytes with
    | .error res => (res, out)
    | .ok x =>
        match getObjectBufferAttribute a.publicValueY obj.key.y keyBytes with
        | .error res => (res, out)
        | .ok y =>
            if x.length > keyBytes ∨ y.length > keyBytes then (teeErrorGeneric, out)
            else (teeSuccess,
              { buffer := pubkeyBytes x y ++ out.buffer.drop devidPubkeyLen
                size := devidPubkeyLen })

/-- `cmd_provision`. -/
def cmdProvision (i : Invocation) (st : Storage) : Reply :=
  let a := i.answers
  if i.paramTypes ≠ teeParamTypes typeMemrefOutput typeNone typeNone typeNone then
    ⟨teeErrorBadParameters, i.params, st, []⟩
  else
    match openKey a st with
    | .ok _ => ⟨teeErrorAccessConflict, i.params, st, []⟩
    | .error res =>
        if res ≠ teeErrorItemNotFound then ⟨res, i.params, st, []⟩
        else if a.allocateTransientObject ≠ teeSuccess then
          ⟨a.allocateTransientObject, i.params, st, []⟩
        else if a.generateKey ≠ teeSuccess then ⟨a.generateKey, i.params, st, []⟩
        else if a.restrictObjectUsage ≠ teeSuccess then ⟨a.restrictObjectUsage, i.params, st, []⟩
        else
          let obj : KeyObject := ⟨a.generated, usageSign⟩
          let (res, st') := createPersistentObject a.createPersistentObject st keyObjectId obj
          if res ≠ teeSuccess then ⟨res, i.params, st', []⟩
          else
            let (res, out) := exportPubkey a obj (i.params 0)
            ⟨res, Function.update i.params 0 out, st', [a.generated]⟩

/-- `cmd_get_pubkey`. -/
def cmdGetPubkey (i : Invocation) (st : Storage) : Reply :=
  if i.paramTypes ≠ teeParamTypes typeMemrefOutput typeNone typeNone typeNone then
    ⟨teeErrorBadParameters, i.params, st, []⟩
  else
    match openKey i.answers st with
    | .error res => ⟨res, i.params, st, []⟩
    | .ok obj =>
        let (res, out) := exportPubkey i.answers obj (i.params 0)
        ⟨res, Function.update i.params 0 out, st, []⟩

/-- `cmd_sign_challenge`. -/
def cmdSignChallenge (i : Invocation) (st : Storage) : Reply :=
  let a := i.answers
  let nonceLen := (i.params 0).size
  if i.paramTypes ≠ teeParamTypes typeMemrefInput typeMemrefOutput typeNone typeNone then
    ⟨teeErrorBadParameters, i.params, st, []⟩
  else if nonceLen < devidNonceMin ∨ nonceLen > devidNonceMax then
    ⟨teeErrorBadParameters, i.params, st, []⟩
  else if (i.params 1).size < devidSigLen then
    ⟨teeErrorShortBuffer,
      Function.update i.params 1 { i.params 1 with size := devidSigLen }, st, []⟩
  else if a.challengeDigest ≠ teeSuccess then ⟨a.challengeDigest, i.params, st, []⟩
  else
    match openKey a st with
    | .error res => ⟨res, i.params, st, []⟩
    | .ok _ =>
        if a.allocateOperation ≠ teeSuccess then ⟨a.allocateOperation, i.params, st, []⟩
        else if a.setOperationKey ≠ teeSuccess then ⟨a.setOperationKey, i.params, st, []⟩
        else if a.asymmetricSignDigest ≠ teeSuccess then
          ⟨a.asymmetricSignDigest, i.params, st, []⟩
        else
          let out : Memref :=
            { buffer := a.signature ++ (i.params 1).buffer.drop a.signature.length
              size := a.signature.length }
          ⟨teeSuccess, Function.update i.params 1 out, st, []⟩

/-- `cmd_demo_export_private`.  Reading a protected attribute of an object that is not extractable
is a panic. -/
def cmdDemoExportPrivate (i : Invocation) (st : Storage) : Reply :=
  if i.paramTypes ≠ teeParamTypes typeNone typeNone typeNone typeNone then
    ⟨teeErrorBadParameters, i.params, st, []⟩
  else
    match openKey i.answers st with
    | .error res => ⟨res, i.params, st, []⟩
    | .ok obj =>
        if obj.usage &&& usageExtractable = 0 then ⟨teeErrorTargetDead, i.params, st, []⟩
        else if i.answers.privateValue ≠ teeSuccess then
          ⟨i.answers.privateValue, i.params, st, []⟩
        else ⟨teeErrorSecurity, i.params, st, []⟩

/-- `TA_DEVID_CMD_PROVISION` and the other commands. -/
def cmdIdProvision : BitVec 32 := 0
def cmdIdGetPubkey : BitVec 32 := 1
def cmdIdSignChallenge : BitVec 32 := 2
def cmdIdDemoExportPrivate : BitVec 32 := 3

/-- `TA_InvokeCommandEntryPoint`. -/
def invoke (i : Invocation) (st : Storage) : Reply :=
  if i.cmdId = cmdIdProvision then cmdProvision i st
  else if i.cmdId = cmdIdGetPubkey then cmdGetPubkey i st
  else if i.cmdId = cmdIdSignChallenge then cmdSignChallenge i st
  else if i.cmdId = cmdIdDemoExportPrivate then cmdDemoExportPrivate i st
  else ⟨teeErrorNotSupported, i.params, st, []⟩

/-- The storage, and the keys that were created. -/
structure Device where
  storage : Storage
  created : List KeyPair := []

/-- Any sequence of invocations, on any storage. -/
def machine : Machine Device Invocation where
  init s := s.created = []
  next s i := some
    { storage := (invoke i s.storage).storage
      created := s.created ++ (invoke i s.storage).created }

/-! ## What an invocation does to the storage -/

section Invocations

variable {i : Invocation} {st : Storage}

/-- The invocation comes to create the key: its parameters are as they should be, there is no key,
and no call fails. -/
structure Creates (i : Invocation) (st : Storage) : Prop where
  paramTypes : i.paramTypes = teeParamTypes typeMemrefOutput typeNone typeNone typeNone
  openPersistentObject : i.answers.openPersistentObject = teeSuccess ∨
    i.answers.openPersistentObject = teeErrorItemNotFound
  absent : st keyObjectId = none
  allocateTransientObject : i.answers.allocateTransientObject = teeSuccess
  generateKey : i.answers.generateKey = teeSuccess
  restrictObjectUsage : i.answers.restrictObjectUsage = teeSuccess
  createPersistentObject : i.answers.createPersistentObject = teeSuccess

/-- The public key can be handed out: the buffer is large enough, and both coordinates can be
read. -/
structure Exports (i : Invocation) : Prop where
  size : devidPubkeyLen ≤ (i.params 0).size
  publicValueX : i.answers.publicValueX = teeSuccess
  publicValueY : i.answers.publicValueY = teeSuccess
  x : i.answers.generated.x.length ≤ keyBytes
  y : i.answers.generated.y.length ≤ keyBytes

/-- Reading an attribute. -/
theorem getObjectBufferAttribute_eq_ok_iff {answer : TeeResult} {value bytes : List (BitVec 8)}
    {max : ℕ} : getObjectBufferAttribute answer value max = .ok bytes ↔
      answer = teeSuccess ∧ value.length ≤ max ∧ bytes = value := by
  unfold getObjectBufferAttribute
  split_ifs with hanswer hlength
  · simp [hanswer]
  · refine iff_of_false nofun ?_
    rintro ⟨-, hle, -⟩
    omega
  · simp only [Except.ok.injEq]
    constructor
    · rintro rfl
      exact ⟨not_not.mp hanswer, not_lt.mp hlength, rfl⟩
    · rintro ⟨-, -, rfl⟩
      rfl

/-- An attribute that cannot be read gives an error. -/
theorem ne_success_of_getObjectBufferAttribute {answer res : TeeResult} {value : List (BitVec 8)}
    {max : ℕ} (h : getObjectBufferAttribute answer value max = .error res) : res ≠ teeSuccess := by
  unfold getObjectBufferAttribute at h
  split_ifs at h with hanswer hlength
  · cases h
    exact hanswer
  · cases h
    decide

/-- Handing out the key that was made. -/
theorem exportPubkey_success_iff (i : Invocation) (usage : BitVec 32) :
    (exportPubkey i.answers ⟨i.answers.generated, usage⟩ (i.params 0)).1 = teeSuccess ↔
      Exports i := by
  have hshort : teeErrorShortBuffer ≠ teeSuccess := by decide
  unfold exportPubkey
  split
  · next hsize =>
    refine iff_of_false hshort fun h => ?_
    have hle := h.size
    omega
  · next hsize =>
    cases hx : getObjectBufferAttribute i.answers.publicValueX i.answers.generated.x keyBytes with
    | error res =>
        refine iff_of_false (ne_success_of_getObjectBufferAttribute hx) fun h => ?_
        rw [getObjectBufferAttribute_eq_ok_iff.mpr ⟨h.publicValueX, h.x, rfl⟩] at hx
        cases hx
    | ok x =>
        obtain ⟨hax, hxl, rfl⟩ := getObjectBufferAttribute_eq_ok_iff.mp hx
        cases hy : getObjectBufferAttribute i.answers.publicValueY i.answers.generated.y
            keyBytes with
        | error res =>
            dsimp only
            refine iff_of_false (ne_success_of_getObjectBufferAttribute hy) fun h => ?_
            rw [getObjectBufferAttribute_eq_ok_iff.mpr ⟨h.publicValueY, h.y, rfl⟩] at hy
            cases hy
        | ok y =>
            obtain ⟨hay, hyl, rfl⟩ := getObjectBufferAttribute_eq_ok_iff.mp hy
            dsimp only
            rw [if_neg (by omega)]
            exact iff_of_true rfl ⟨not_lt.mp hsize, hax, hay, hxl, hyl⟩

/-- `PROVISION` that comes to create the key. -/
theorem cmdProvision_of_creates (h : Creates i st) :
    (cmdProvision i st).storage =
        Function.update st keyObjectId (some ⟨i.answers.generated, usageSign⟩) ∧
      (cmdProvision i st).created = [i.answers.generated] ∧
      (cmdProvision i st).result =
        (exportPubkey i.answers ⟨i.answers.generated, usageSign⟩ (i.params 0)).1 := by
  have hopen : openKey i.answers st = .error teeErrorItemNotFound := by
    unfold openKey
    rcases h.openPersistentObject with hopen | hopen
    · rw [hopen, if_neg (not_not.mpr rfl), h.absent]
    · rw [hopen, if_pos (by decide)]
  have hcreate : createPersistentObject i.answers.createPersistentObject st keyObjectId
      ⟨i.answers.generated, usageSign⟩ = (teeSuccess,
        Function.update st keyObjectId (some ⟨i.answers.generated, usageSign⟩)) := by
    rw [createPersistentObject, if_neg (not_not.mpr h.createPersistentObject), h.absent]
    rfl
  unfold cmdProvision
  rw [if_neg (not_not.mpr h.paramTypes), hopen]
  dsimp only
  rw [if_neg (not_not.mpr rfl), if_neg (not_not.mpr h.allocateTransientObject),
    if_neg (not_not.mpr h.generateKey), if_neg (not_not.mpr h.restrictObjectUsage), hcreate]
  exact ⟨rfl, rfl, rfl⟩

/-- Otherwise it fails and leaves the storage alone. -/
theorem cmdProvision_of_not_creates (h : ¬Creates i st) :
    (cmdProvision i st).storage = st ∧ (cmdProvision i st).created = [] ∧
      (cmdProvision i st).result ≠ teeSuccess := by
  have hbad : teeErrorBadParameters ≠ teeSuccess := by decide
  have hconflict : teeErrorAccessConflict ≠ teeSuccess := by decide
  unfold cmdProvision
  dsimp only
  split
  · exact ⟨rfl, rfl, hbad⟩
  next htypes =>
  cases hopen : openKey i.answers st with
  | ok obj => exact ⟨rfl, rfl, hconflict⟩
  | error res =>
      dsimp only
      -- the answer was `ITEM_NOT_FOUND`, or there is no key
      have hres : res ≠ teeSuccess ∧ (res = teeErrorItemNotFound →
          i.answers.openPersistentObject = teeSuccess ∨
            i.answers.openPersistentObject = teeErrorItemNotFound) := by
        unfold openKey at hopen
        split at hopen
        · next hne =>
          cases hopen
          exact ⟨hne, .inr⟩
        · next heq =>
          split at hopen <;> cases hopen
          exact ⟨by decide, fun _ => .inl (not_not.mp heq)⟩
      split
      · exact ⟨rfl, rfl, hres.1⟩
      next hnotFound =>
      split
      · next hne => exact ⟨rfl, rfl, hne⟩
      next hallocate =>
      split
      · next hne => exact ⟨rfl, rfl, hne⟩
      next hgenerate =>
      split
      · next hne => exact ⟨rfl, rfl, hne⟩
      next hrestrict =>
      unfold createPersistentObject
      by_cases hcreate : i.answers.createPersistentObject = teeSuccess
      · rw [if_neg (not_not.mpr hcreate)]
        cases hst : st keyObjectId with
        | some obj => exact ⟨rfl, rfl, hconflict⟩
        | none =>
            exact absurd ⟨not_not.mp htypes, hres.2 (not_not.mp hnotFound), hst,
              not_not.mp hallocate, not_not.mp hgenerate, not_not.mp hrestrict, hcreate⟩ h
      · rw [if_pos hcreate]
        dsimp only
        rw [if_pos hcreate]
        exact ⟨rfl, rfl, hcreate⟩

/-- The other commands do not touch the storage. -/
theorem invoke_of_ne_provision (h : i.cmdId ≠ cmdIdProvision) :
    (invoke i st).storage = st ∧ (invoke i st).created = [] := by
  unfold invoke
  rw [if_neg h]
  split_ifs
  · unfold cmdGetPubkey
    cases openKey i.answers st <;> split_ifs <;> exact ⟨rfl, rfl⟩
  · unfold cmdSignChallenge
    dsimp only
    cases openKey i.answers st <;> dsimp only <;> split_ifs <;> exact ⟨rfl, rfl⟩
  · unfold cmdDemoExportPrivate
    cases openKey i.answers st <;> dsimp only <;> split_ifs <;> exact ⟨rfl, rfl⟩
  · exact ⟨rfl, rfl⟩

/-- **What an invocation does to the storage**: nothing, or it creates the key, where there was
none. -/
theorem invoke_storage (i : Invocation) (st : Storage) :
    ((invoke i st).storage = st ∧ (invoke i st).created = []) ∨
      (st keyObjectId = none ∧ (invoke i st).created = [i.answers.generated] ∧
        (invoke i st).storage =
          Function.update st keyObjectId (some ⟨i.answers.generated, usageSign⟩)) := by
  by_cases hcmd : i.cmdId = cmdIdProvision
  · have hinvoke : invoke i st = cmdProvision i st := if_pos hcmd
    rw [hinvoke]
    by_cases h : Creates i st
    · obtain ⟨hstorage, hcreated, -⟩ := cmdProvision_of_creates h
      exact .inr ⟨h.absent, hcreated, hstorage⟩
    · obtain ⟨hstorage, hcreated, -⟩ := cmdProvision_of_not_creates h
      exact .inl ⟨hstorage, hcreated⟩
  · exact .inl (invoke_of_ne_provision hcmd)

end Invocations

/-! ## Runs -/

/-- A key that is there stays, and a key that was created is there. -/
theorem created_le_one {s : Device} (h : machine.Reach Machine.Always s) :
    s.created = [] ∨ ∃ key, s.created = [key] ∧ s.storage keyObjectId = some ⟨key, usageSign⟩ := by
  apply h.invariant
  · intro s hs
    exact .inl hs
  · intro s i t hs _ hn
    cases hn
    rcases invoke_storage i s.storage with ⟨hstorage, hcreated⟩ | ⟨habsent, hcreated, hstorage⟩
    · rw [hstorage, hcreated, List.append_nil]
      exact hs
    · -- there was no key, so none had been created
      rcases hs with hs | ⟨key, -, hkey⟩
      · refine .inr ⟨i.answers.generated, ?_, ?_⟩
        · rw [hs, hcreated, List.nil_append]
        · show (invoke i s.storage).storage keyObjectId = _
          rw [hstorage, Function.update_self]
      · rw [habsent] at hkey
        cases hkey

/-- No invocation changes a key or any other object. -/
theorem storage_kept {s t : Device} {is : List Invocation}
    (h : machine.Run Machine.Always s is t) {id : String} {obj : KeyObject}
    (hs : s.storage id = some obj) : t.storage id = some obj := by
  apply h.preserves (P := fun s => s.storage id = some obj) _ hs
  intro s i t hs _ hn
  cases hn
  show (invoke i s.storage).storage id = some obj
  rcases invoke_storage i s.storage with ⟨hstorage, -⟩ | ⟨habsent, -, hstorage⟩
  · rw [hstorage]
    exact hs
  · rw [hstorage, Function.update_of_ne]
    · exact hs
    · rintro rfl
      rw [habsent] at hs
      cases hs

/-- **When provisioning is atomic.**  In every sequence of invocations at most one key is created,
and no invocation changes a key that is there.  A `PROVISION` that does not succeed leaves the
storage as it was if, and only if, the public key can be handed out in case the invocation comes
to create the key. -/
theorem provisioning_atomic_iff (i : Invocation) (st : Storage) :
    (∀ s, machine.Reach Machine.Always s → s.created.length ≤ 1) ∧
    (∀ s is t, machine.Run Machine.Always s is t → ∀ obj, s.storage keyObjectId = some obj →
      t.storage keyObjectId = some obj) ∧
    (i.cmdId = cmdIdProvision →
      (((invoke i st).result ≠ teeSuccess → (invoke i st).storage = st) ↔
        (Creates i st → Exports i))) := by
  refine ⟨fun s hs => ?_, fun s is t hrun obj hs => storage_kept hrun hs, fun hcmd => ?_⟩
  · rcases created_le_one hs with hnone | ⟨key, hone, -⟩
    · rw [hnone]
      exact Nat.zero_le 1
    · rw [hone]
      exact le_refl 1
  · have hinvoke : invoke i st = cmdProvision i st := if_pos hcmd
    rw [hinvoke]
    by_cases h : Creates i st
    · obtain ⟨hstorage, -, hresult⟩ := cmdProvision_of_creates h
      have hchanged : (cmdProvision i st).storage ≠ st := fun heq => by
        have hkey := congrFun (hstorage.symm.trans heq) keyObjectId
        rw [Function.update_self, h.absent] at hkey
        cases hkey
      rw [hresult, ne_eq, exportPubkey_success_iff]
      constructor
      · intro hatomic _
        by_contra hexports
        exact hchanged (hatomic hexports)
      · intro hexports hfailed
        exact absurd (hexports h) hfailed
    · exact iff_of_true (fun _ => (cmdProvision_of_not_creates h).1) fun hc => absurd hc h

/-- A provisioning station that gives a buffer of `size` bytes, and a TEE that does not fail. -/
def station (size : ℕ) : Invocation where
  cmdId := cmdIdProvision
  paramTypes := teeParamTypes typeMemrefOutput typeNone typeNone typeNone
  params _ := ⟨List.replicate size 0, size⟩
  answers := { generated := ⟨[1], [2], [3]⟩ }

/-- With a buffer of 65 bytes a key is created. -/
theorem provisioning_atomic_iff_station :
    ∃ s, machine.Reach Machine.Always s ∧ s.created = [⟨[1], [2], [3]⟩] ∧ s.created.length ≤ 1 := by
  have hrun : machine.Reach Machine.Always
      ⟨(invoke (station 65) fun _ => none).storage, (invoke (station 65) fun _ => none).created⟩ :=
    (Machine.Reach.start (s := ⟨fun _ => none, []⟩) rfl).step (l := station 65) trivial rfl
  exact ⟨_, hrun, rfl, (provisioning_atomic_iff (station 65) fun _ => none).1 _ hrun⟩

/-- With a smaller buffer `PROVISION` fails, but the key exists from then on; the call that is made
again with the size it asked for is refused. -/
theorem provision_short_buffer :
    (invoke (station 0) fun _ => none).result = teeErrorShortBuffer ∧
    ((invoke (station 0) fun _ => none).params 0).size = devidPubkeyLen ∧
    (invoke (station 0) fun _ => none).storage keyObjectId = some ⟨⟨[1], [2], [3]⟩, usageSign⟩ ∧
    (invoke (station devidPubkeyLen) (invoke (station 0) fun _ => none).storage).result =
      teeErrorAccessConflict := by
  refine ⟨?_, ?_, ?_, ?_⟩ <;> decide

end DeviceIdentity
