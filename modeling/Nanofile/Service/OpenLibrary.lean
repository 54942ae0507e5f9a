import Nanofile.Service.LibraryKeys

/-!
# When a password opens a library

The stored material belongs to a password when the verifier is the one the password has and the
secret is wrapped under it.  Then this password opens the library and no other does.
-/

set_option autoImplicit false

namespace Nanofile

open Nanofile.Lib

variable {prims : Primitives} {repoId password : String} {secretKey : List UInt8}
  {material : RepoKeyMaterial}

/-- The verifier is that of the password: by the named algorithm, or as a `magic`. -/
def VerifierOf (prims : Primitives) (repoId password : String) (material : RepoKeyMaterial) :
    Prop :=
  match material.pwdHashAlgo with
  | some algo => validateParams algo material.pwdHashParams = .ok () ∧
      ∃ hash, material.pwdHash = some hash ∧ derivePwdHash prims repoId password
        material.encVersion material.salt algo material.pwdHashParams = .ok hash
  | none => ∃ magic, material.magic = some magic ∧
      generateMagic prims repoId password material.encVersion material.salt = .ok magic

structure BelongsTo (prims : Primitives) (repoId password : String) (secretKey : List UInt8)
    (material : RepoKeyMaterial) : Prop where
  version : material.encVersion = 2 ∧ material.salt = "" ∨ material.encVersion = 4
  verifier : VerifierOf prims repoId password material
  wrapped : generateRandomKeyForRepo prims secretKey password material.encVersion material.salt =
    .ok material.randomKey

def Accepts (prims : Primitives) (repoId : String) (row : KeyRow) (password : String) : Prop :=
  ∃ material key, row.material = .ok material ∧ unlockKey prims repoId password material = .ok key

namespace BelongsTo

theorem effectiveSalt_eq (belongs : BelongsTo prims repoId password secretKey material) :
    effectiveSalt material = .ok material.salt := by
  rcases belongs.version with ⟨two, unsalted⟩ | four
  · rw [effectiveSalt, if_pos two, unsalted]
  · rw [effectiveSalt, if_neg (by rw [four]; decide), if_pos four]

theorem verifyMaterial_eq (sound : prims.Sound)
    (belongs : BelongsTo prims repoId password secretKey material) (given : String) :
    verifyMaterial prims repoId given material.salt material = .ok (decide (given = password)) := by
  have verifier := belongs.verifier
  unfold VerifierOf at verifier
  split at verifier
  · rename_i algo isAlgo
    obtain ⟨valid, hash, isHash, derived⟩ := verifier
    rw [verifyMaterial, isHash, isAlgo]
    exact congrArg Except.ok (verifyPwdHash_eq sound valid derived given)
  · rename_i noAlgo
    obtain ⟨magic, isMagic, generated⟩ := verifier
    have byMagic : verifyMaterial prims repoId given material.salt material =
        .ok (verifyRepoPassword prims repoId given material.encVersion material.salt magic) := by
      rw [verifyMaterial, noAlgo, isMagic]
      cases material.pwdHash <;> rfl
    rw [byMagic, verifyRepoPassword_eq sound generated given]

theorem blockKey (belongs : BelongsTo prims repoId password secretKey material) :
    ∃ key, deriveKeyBytes prims secretKey material.encVersion material.salt = .ok key := by
  obtain ⟨derived, isDerived, -⟩ := except_bind_ok_iff.mp belongs.wrapped
  exact deriveKeyBytes_isOk_iff.mpr (deriveKeyBytes_isOk_iff.mp ⟨derived, isDerived⟩)

theorem lowerDigits_randomKey (belongs : BelongsTo prims repoId password secretKey material) :
    lowerDigits material.randomKey = material.randomKey := by
  obtain ⟨derived, -, generated⟩ := except_bind_ok_iff.mp belongs.wrapped
  rw [← Except.ok.inj generated]
  exact lowerDigits_hexEncode _

theorem unlockKey_eq (sound : prims.Sound)
    (belongs : BelongsTo prims repoId password secretKey material) {key : KeyIv}
    (isKey : deriveKeyBytes prims secretKey material.encVersion material.salt = .ok key)
    (given : String) : unlockKey prims repoId given material =
      if given = password then .ok key else .error .repoPasswdRequired := by
  rw [unlockKey, belongs.effectiveSalt_eq]
  dsimp only [bind, Except.bind]
  rw [belongs.verifyMaterial_eq sound given]
  dsimp only
  by_cases same : given = password
  · rw [if_pos same, if_pos (decide_eq_true same), same,
      decryptRepoEncKey_of_wrapped sound belongs.wrapped belongs.lowerDigits_randomKey, isKey]
  · rw [if_neg same, if_neg (by simpa using same)]

end BelongsTo

def updatedMaterial (material : RepoKeyMaterial) (params : UpdateRepoKeysParams)
    (randomKey : String) : RepoKeyMaterial :=
  { material with
    magic := params.magic
    randomKey
    pwdHash := params.pwdHash
    pwdHashAlgo := params.pwdHashAlgo
    pwdHashParams := params.pwdHashParams }

theorem derivationFailed_ok_iff {what : String} {Result : Type}
    {outcome : Except CryptoError Result} {result : Result} :
    derivationFailed what outcome = .ok result ↔ outcome = .ok result := by
  cases outcome <;> simp [derivationFailed]

theorem changedKeys_belongs (sound : prims.Sound) {newPassword : String}
    {params : UpdateRepoKeysParams}
    (belongs : BelongsTo prims repoId password secretKey material)
    (changed : changedKeys prims repoId password newPassword material = .ok params) :
    ∃ randomKey, params.randomKey = some randomKey ∧
      BelongsTo prims repoId newPassword secretKey (updatedMaterial material params randomKey) := by
  obtain ⟨verifier, isVerifier, changed⟩ := except_bind_ok_iff.mp changed
  obtain ⟨randomKey, rewrapped, isParams⟩ := except_bind_ok_iff.mp changed
  cases isParams
  refine ⟨randomKey, rfl, belongs.version, ?_, ?_⟩
  · have old := belongs.verifier
    unfold VerifierOf at old
    unfold newVerifier at isVerifier
    split at old
    · rename_i algo isAlgo
      rw [isAlgo] at isVerifier
      obtain ⟨hash, derived, isParams⟩ := except_bind_ok_iff.mp isVerifier
      cases isParams
      exact ⟨old.1, hash, rfl, derivationFailed_ok_iff.mp derived⟩
    · rename_i noAlgo
      rw [noAlgo] at isVerifier
      obtain ⟨-, -, isVerifier⟩ := except_bind_ok_iff.mp isVerifier
      obtain ⟨magic, generated, isParams⟩ := except_bind_ok_iff.mp isVerifier
      cases isParams
      exact ⟨magic, rfl, derivationFailed_ok_iff.mp generated⟩
  · obtain ⟨oldDerived, isOld, rewrapped⟩ := except_bind_ok_iff.mp rewrapped
    obtain ⟨bytes, isBytes, rewrapped⟩ := except_bind_ok_iff.mp rewrapped
    obtain ⟨unwrapped, isUnwrapped, rewrapped⟩ := except_bind_ok_iff.mp rewrapped
    obtain ⟨newDerived, isNew, isKey⟩ := except_bind_ok_iff.mp rewrapped
    obtain ⟨derived, isDerived, generated⟩ := except_bind_ok_iff.mp belongs.wrapped
    have sameDerived := (derivationFailed_ok_iff.mp isOld).symm.trans isDerived
    cases sameDerived
    have sameBytes : bytes = prims.encrypt oldDerived.1 oldDerived.2 secretKey := by
      have read := okOr_eq_ok_iff.mp isBytes
      rw [← Except.ok.inj generated, hexDecode_hexEncode] at read
      exact (Option.some.inj read).symm
    have sameSecret : unwrapped = secretKey := by
      have opened := okOr_eq_ok_iff.mp isUnwrapped
      rw [sameBytes, sound.decrypt_encrypt] at opened
      exact (Option.some.inj opened).symm
    refine except_bind_ok_iff.mpr ⟨newDerived, derivationFailed_ok_iff.mp isNew, ?_⟩
    rw [← sameSecret]
    exact congrArg Except.ok (Except.ok.inj isKey)

theorem asBadRequest_ok_iff {outcome : Except String Unit} :
    asBadRequest outcome = .ok () ↔ outcome = .ok () := by
  cases outcome <;> simp [asBadRequest]

theorem validateKeys_ok {draft checked : KeyDraft} (valid : validateKeys draft = .ok checked) :
    checked = { draft with magic := if draft.pwdHash.isPresent then none else draft.magic } := by
  obtain ⟨_, -, valid⟩ := except_bind_ok_iff.mp valid
  obtain ⟨magic, isMagic, valid⟩ := except_bind_ok_iff.mp valid
  obtain ⟨_, -, valid⟩ := except_bind_ok_iff.mp valid
  obtain ⟨_, -, valid⟩ := except_bind_ok_iff.mp valid
  cases valid
  unfold validVerifier at isMagic
  split at isMagic
  · rename_i present
    obtain ⟨_, -, isNone⟩ := except_bind_ok_iff.mp isMagic
    cases isNone
    rw [if_pos present]
  · rename_i absent
    obtain ⟨_, -, isSame⟩ := except_bind_ok_iff.mp isMagic
    cases isSame
    rw [if_neg absent]

/-- A marker byte and zeros up to a length. -/
def padTo (length : Nat) (bytes : List UInt8) : List UInt8 :=
  bytes ++ 0x80 :: List.replicate (length - (bytes.length + 1)) 0

theorem padTo_injective (length : Nat) : Function.Injective (padTo length) := by
  have strip : ∀ bytes : List UInt8,
      (padTo length bytes).reverse.dropWhile (fun byte => byte = 0) = 0x80 :: bytes.reverse := by
    intro bytes
    have zeros : ∀ byte ∈ List.replicate (length - (bytes.length + 1)) (0 : UInt8),
        (decide (byte = 0)) = true := by
      intro byte listed
      exact decide_eq_true (List.eq_of_mem_replicate listed)
    rw [padTo, List.reverse_append, List.reverse_cons, List.append_assoc, List.reverse_replicate,
      List.dropWhile_append_of_pos zeros]
    rfl
  intro first second same
  have stripped := (strip first).symm.trans ((congrArg _ (congrArg List.reverse same)).trans
    (strip second))
  exact List.reverse_injective (List.cons.inj stripped).2

def cbcPadding : List UInt8 := List.replicate 16 16

/-- Primitives for inputs of whole blocks: a digest is its input, padded, where two long inputs
and two short ones trade places; a cipher adds the first byte of the key. -/
def samplePrimitives (firstText secondText : String) : Primitives :=
  let shorten : List UInt8 → List UInt8 := fun bytes =>
    Equiv.swap (Bytes.asBytes firstText) [0xa1]
      (Equiv.swap (Bytes.asBytes secondText) [0xa2] bytes)
  { sha256 := id
    pbkdf2 := fun password _ _ length => padTo length (shorten password)
    argon2id := fun password _ _ _ _ => some (padTo 32 (shorten password))
    encrypt := fun key _ plaintext => (plaintext ++ cbcPadding).map (· + key.headD 0)
    decrypt := fun key _ ciphertext =>
      let plain := ciphertext.map (· - key.headD 0)
      if plain.drop (plain.length - 16) = cbcPadding then some (plain.take (plain.length - 16))
      else none }

theorem samplePrimitives_sound (firstText secondText : String) :
    (samplePrimitives firstText secondText).Sound where
  sha256_injective := Function.injective_id
  pbkdf2_injective _ _ length := (padTo_injective length).comp
    ((Equiv.injective _).comp (Equiv.injective _))
  argon2id_injective first second _ _ _ _ key isFirst isSecond := by
    have same := padTo_injective 32 ((Option.some.inj isFirst).trans (Option.some.inj isSecond).symm)
    exact Equiv.injective _ (Equiv.injective _ same)
  decrypt_encrypt key iv plaintext := by
    have undone : ((plaintext ++ cbcPadding).map (· + key.headD 0)).map (· - key.headD 0) =
        plaintext ++ cbcPadding := by
      rw [List.map_map]
      exact List.map_id'' (fun byte => UInt8.add_sub_cancel byte _) _
    have size : (plaintext ++ cbcPadding).length - 16 = plaintext.length := by
      rw [List.length_append]
      exact Nat.add_sub_cancel ..
    simp only [samplePrimitives]
    rw [undone, size, List.drop_left, if_pos rfl, List.take_left]

end Nanofile
