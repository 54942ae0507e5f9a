import Nanofile.Service.PasswordRotations

/-!
# Key material of a client

`create_repo` accepts material by its length and its digits.  Opening compares the verifier as
it was sent with the lowercase text it computes, and reads the salt as hexadecimal.
-/

set_option autoImplicit false

namespace Nanofile

open Nanofile.Lib

/-- The salt of the derivations: the one that was sent for version 4, none for version 2. -/
def KeyDraft.protocolSalt (draft : KeyDraft) : String :=
  if draft.encVersion = 4 then draft.salt.getD "" else ""

/-- What was sent spells a computed text, in any letter case. -/
def Spells (sent : Option String) (computed : Except CryptoError String) : Prop :=
  ∃ text, sent = some text ∧ computed = .ok (lowerDigits text)

/-- The verifier of the draft: its `pwd_hash` where an algorithm is named, else its `magic`. -/
def KeyDraft.verifier (draft : KeyDraft) : Option String :=
  if draft.pwdHash.isPresent then draft.pwdHash.hash else draft.magic

def KeyDraft.computedVerifier (prims : Primitives) (repoId password : String) (draft : KeyDraft) :
    Except CryptoError String :=
  match draft.pwdHash.algo with
  | some algo => derivePwdHash prims repoId password draft.encVersion draft.protocolSalt algo
      draft.pwdHash.params
  | none => generateMagic prims repoId password draft.encVersion draft.protocolSalt

/-- The material was computed from the password by the protocol's formulas. -/
structure ComputedFrom (prims : Primitives) (repoId password : String) (draft : KeyDraft) : Prop where
  verifier : Spells draft.verifier (draft.computedVerifier prims repoId password)
  wrapped : ∃ secretKey, Spells draft.randomKey
    (generateRandomKeyForRepo prims secretKey password draft.encVersion draft.protocolSalt)

def SaltDecodes (row : KeyRow) : Prop :=
  ∃ material, row.material = .ok material ∧ (∃ bytes, decodeSalt material.salt = .ok bytes) ∧
    (material.pwdHashAlgo.isSome = true →
      ∃ bytes, pwdHashSalt material.encVersion material.salt = .ok bytes)

/-- Every password the material was computed from opens the library, and its salt is read. -/
def OpensAsComputed (prims : Primitives) (repoId : String) (draft : KeyDraft) (row : KeyRow) : Prop :=
  (∀ password, ComputedFrom prims repoId password draft → Accepts prims repoId row password) ∧
    SaltDecodes row

/-- The salt of version 4 is hexadecimal, of 32 bytes beside a `pwd_hash`. -/
def HexSalt (draft : KeyDraft) : Prop :=
  draft.encVersion = 4 →
    if draft.pwdHash.isPresent then IsHexOf 32 (draft.salt.getD "")
    else ∃ count, IsHexOf count (draft.salt.getD "")

def LowercaseVerifier (draft : KeyDraft) : Prop :=
  ∀ text, draft.verifier = some text → lowerDigits text = text

variable {prims : Primitives} {repoId password : String}

structure DraftStoredAs (draft : KeyDraft) (material : RepoKeyMaterial) : Prop where
  version : draft.encVersion = 2 ∨ draft.encVersion = 4
  sameVersion : material.encVersion = draft.encVersion
  salt : material.salt = draft.protocolSalt
  randomKey : draft.randomKey = some material.randomKey
  algo : material.pwdHashAlgo = draft.pwdHash.algo
  params : material.pwdHashParams = draft.pwdHash.params
  hash : material.pwdHash = draft.pwdHash.hash
  magic : draft.pwdHash.algo = none → material.magic = draft.magic
  valid : ∀ algo, draft.pwdHash.algo = some algo →
    validateParams algo draft.pwdHash.params = .ok () ∧ ∃ hash, draft.pwdHash.hash = some hash
  hasMagic : draft.pwdHash.algo = none → ∃ magic, draft.magic = some magic

theorem verifier_of_valid {draft : KeyDraft} {magic : Option String}
    (valid : validVerifier draft = .ok magic) :
    (∀ algo, draft.pwdHash.algo = some algo →
      validateParams algo draft.pwdHash.params = .ok () ∧ ∃ hash, draft.pwdHash.hash = some hash) ∧
      (draft.pwdHash.algo = none → ∃ magic, draft.magic = some magic) := by
  unfold validVerifier at valid
  cases isAlgo : draft.pwdHash.algo with
  | none =>
    have absent : ¬ draft.pwdHash.isPresent = true := by simp [PwdHash.isPresent, isAlgo]
    rw [if_neg absent] at valid
    obtain ⟨_, isHex, -⟩ := except_bind_ok_iff.mp valid
    obtain ⟨text, isText, -⟩ := (Option.any_eq_true _ _).mp (ensure_eq_ok_iff.mp isHex)
    exact ⟨nofun, fun _ => ⟨text, isText⟩⟩
  | some algo =>
    have present : draft.pwdHash.isPresent = true := by simp [PwdHash.isPresent, isAlgo]
    rw [if_pos present] at valid
    obtain ⟨_, validated, -⟩ := except_bind_ok_iff.mp valid
    obtain ⟨algo', isAlgo', validated⟩ := except_bind_ok_iff.mp validated
    cases isAlgo.symm.trans (okOr_eq_ok_iff.mp isAlgo')
    obtain ⟨_, -, validated⟩ := except_bind_ok_iff.mp validated
    obtain ⟨_, isHex, isValid⟩ := except_bind_ok_iff.mp validated
    obtain ⟨text, isText, -⟩ := (Option.any_eq_true _ _).mp (ensure_eq_ok_iff.mp isHex)
    refine ⟨?_, nofun⟩
    rintro _ ⟨⟩
    exact ⟨asBadRequest_ok_iff.mp isValid, text, isText⟩

theorem stored_of_validateKeys {draft checked : KeyDraft}
    (valid : validateKeys draft = .ok checked) :
    ∃ material, (checked.toRow true).material = .ok material ∧ DraftStoredAs draft material := by
  have isChecked := validateKeys_ok valid
  obtain ⟨_, supported, valid⟩ := except_bind_ok_iff.mp valid
  have version := ensure_eq_ok_iff.mp supported
  obtain ⟨magic, isMagic, valid⟩ := except_bind_ok_iff.mp valid
  obtain ⟨_, isHex, -⟩ := except_bind_ok_iff.mp valid
  obtain ⟨randomKey, isKey, -⟩ := (Option.any_eq_true _ _).mp (ensure_eq_ok_iff.mp isHex)
  obtain ⟨hashed, hasMagic⟩ := verifier_of_valid isMagic
  have salted : (if 3 ≤ draft.encVersion then
      (if draft.encVersion = 4 then draft.salt.getD "" else "") else "") = draft.protocolSalt := by
    rw [KeyDraft.protocolSalt]
    rcases version with two | four
    · rw [two]
      rfl
    · rw [four]
      rfl
  have narrowed : draft.encVersion.bmod 256 = draft.encVersion := by
    rcases version with two | four
    · rw [two]
      rfl
    · rw [four]
      rfl
  refine ⟨⟨draft.encVersion, if draft.pwdHash.isPresent then none else draft.magic, randomKey,
    draft.protocolSalt, draft.pwdHash.hash, draft.pwdHash.algo, draft.pwdHash.params⟩, ?_, ?_⟩
  · rw [isChecked]
    simp only [KeyDraft.toRow, KeyRow.material, isKey, narrowed, salted]
    rfl
  · exact
      { version
        sameVersion := rfl
        salt := rfl
        randomKey := isKey
        algo := rfl
        params := rfl
        hash := rfl
        magic := fun noAlgo => if_neg (by simp [PwdHash.isPresent, noAlgo])
        valid := hashed
        hasMagic }

section Opening

variable {draft : KeyDraft} {material : RepoKeyMaterial}

theorem DraftStoredAs.effectiveSalt_eq (stored : DraftStoredAs draft material) :
    effectiveSalt material = .ok draft.protocolSalt := by
  rw [effectiveSalt, stored.sameVersion, stored.salt]
  rcases stored.version with two | four
  · rw [if_pos two, KeyDraft.protocolSalt, two]
    rfl
  · rw [if_neg (by rw [four]; decide), if_pos four]

theorem DraftStoredAs.verifyMaterial_eq (stored : DraftStoredAs draft material) {text : String}
    (isText : draft.verifier = some text)
    (computed : draft.computedVerifier prims repoId password = .ok (lowerDigits text)) :
    verifyMaterial prims repoId password draft.protocolSalt material =
      .ok (sameDigest prims (lowerDigits text) text) := by
  unfold KeyDraft.computedVerifier at computed
  cases isAlgo : draft.pwdHash.algo with
  | some algo =>
    obtain ⟨valid, -⟩ := stored.valid algo isAlgo
    rw [isAlgo] at computed
    have isHash : material.pwdHash = some text := by
      rw [stored.hash, ← isText, KeyDraft.verifier]
      exact (if_pos (by simp [PwdHash.isPresent, isAlgo])).symm
    rw [verifyMaterial, isHash, stored.algo, isAlgo, stored.params, stored.sameVersion]
    dsimp only
    rw [verifyPwdHash, valid]
    dsimp only at computed ⊢
    rw [computed]
  | none =>
    rw [isAlgo] at computed
    have isMagic : material.magic = some text := by
      rw [stored.magic isAlgo, ← isText, KeyDraft.verifier]
      exact (if_neg (by simp [PwdHash.isPresent, isAlgo])).symm
    have byMagic : verifyMaterial prims repoId password draft.protocolSalt material =
        .ok (verifyRepoPassword prims repoId password material.encVersion draft.protocolSalt
          text) := by
      rw [verifyMaterial, stored.algo, isAlgo, isMagic]
      cases material.pwdHash <;> rfl
    dsimp only at computed
    rw [byMagic, stored.sameVersion, verifyRepoPassword, computed]

/-- Material that was computed from a password is opened by it where its verifier is lowercase. -/
theorem DraftStoredAs.accepts_iff (sound : prims.Sound) (stored : DraftStoredAs draft material)
    {row : KeyRow} (isMaterial : row.material = .ok material)
    (computed : ComputedFrom prims repoId password draft) :
    Accepts prims repoId row password ↔ LowercaseVerifier draft := by
  obtain ⟨text, isText, isVerifier⟩ := computed.verifier
  obtain ⟨secretKey, randomKey, isKey, wrapped⟩ := computed.wrapped
  have sameKey : material.randomKey = randomKey :=
    Option.some.inj (stored.randomKey.symm.trans isKey)
  have verified := stored.verifyMaterial_eq isText isVerifier
  constructor
  · rintro ⟨material', key, isMaterial', opened⟩ text' isText'
    cases isMaterial.symm.trans isMaterial'
    cases isText.symm.trans isText'
    obtain ⟨salt, isSalt, opened⟩ := except_bind_ok_iff.mp opened
    cases stored.effectiveSalt_eq.symm.trans isSalt
    obtain ⟨accepted, isAccepted, opened⟩ := except_bind_ok_iff.mp opened
    cases verified.symm.trans isAccepted
    split at opened
    · rename_i same
      exact (sameDigest_iff sound).mp same
    · cases opened
  · intro lower
    have same : sameDigest prims (lowerDigits text) text = true :=
      (sameDigest_iff sound).mpr (lower text isText)
    obtain ⟨derived, isDerived, -⟩ := except_bind_ok_iff.mp wrapped
    obtain ⟨key, isBlockKey⟩ := deriveKeyBytes_isOk_iff.mpr
      (deriveKeyBytes_isOk_iff.mp ⟨derived, isDerived⟩)
    have unwrapped := decryptRepoEncKey_of_wrapped sound wrapped (Eq.refl (lowerDigits randomKey))
    rw [isBlockKey] at unwrapped
    refine ⟨material, key, isMaterial, ?_⟩
    rw [unlockKey, stored.effectiveSalt_eq]
    dsimp only [bind, Except.bind]
    rw [verified]
    dsimp only
    rw [if_pos same, sameKey, stored.sameVersion, unwrapped]

theorem decodeSalt_isOk_iff (salt : String) :
    (∃ bytes, decodeSalt salt = .ok bytes) ↔ ∃ count, IsHexOf count salt := by
  have isHex : (∃ bytes, hexDecode salt = some bytes) ↔ ∃ count, IsHexOf count salt := by
    constructor
    · rintro ⟨bytes, read⟩
      exact ⟨bytes.length, (hexDecode_eq_some_iff salt _).mp ⟨bytes, read, rfl⟩⟩
    · rintro ⟨count, hex⟩
      obtain ⟨bytes, read, -⟩ := (hexDecode_eq_some_iff salt count).mpr hex
      exact ⟨bytes, read⟩
  rw [← isHex]
  constructor
  · rintro ⟨bytes, decoded⟩
    unfold decodeSalt at decoded
    split at decoded
    · rename_i isDefault
      rw [isDefaultSalt, Bool.or_eq_true, decide_eq_true_eq, decide_eq_true_eq] at isDefault
      rcases isDefault with rfl | rfl
      · exact ⟨[], rfl⟩
      · exact isHex.mpr ⟨32, by decide +kernel⟩
    · split at decoded
      · rename_i read
        exact ⟨_, read⟩
      · cases decoded
  · rintro ⟨bytes, read⟩
    rw [decodeSalt]
    split
    · exact ⟨_, rfl⟩
    · rw [read]
      exact ⟨_, rfl⟩

theorem pwdHashSalt_isOk_iff {encVersion : Int} (salt : String) (supported : encVersion = 4) :
    (∃ bytes, pwdHashSalt encVersion salt = .ok bytes) ↔ IsHexOf 32 salt := by
  have notOld : ¬ encVersion ≤ 2 := by rw [supported]; decide
  rw [← hexDecode_eq_some_iff, pwdHashSalt, if_neg notOld]
  constructor
  · rintro ⟨bytes, decoded⟩
    split at decoded
    · rename_i read
      split at decoded
      · cases decoded
      · rename_i sized
        exact ⟨_, read, not_not.mp sized⟩
    · cases decoded
  · rintro ⟨bytes, read, sized⟩
    rw [read]
    dsimp only
    rw [if_neg (not_not.mpr sized)]
    exact ⟨_, rfl⟩

theorem DraftStoredAs.saltDecodes_iff (stored : DraftStoredAs draft material) {row : KeyRow}
    (isMaterial : row.material = .ok material) : SaltDecodes row ↔ HexSalt draft := by
  have present : material.pwdHashAlgo.isSome = draft.pwdHash.isPresent := by
    rw [stored.algo]
    rfl
  have unfolded : SaltDecodes row ↔ (∃ bytes, decodeSalt draft.protocolSalt = .ok bytes) ∧
      (draft.pwdHash.isPresent = true →
        ∃ bytes, pwdHashSalt draft.encVersion draft.protocolSalt = .ok bytes) := by
    rw [← stored.salt, ← stored.sameVersion, ← present]
    constructor
    · rintro ⟨material', isMaterial', decodes⟩
      cases isMaterial.symm.trans isMaterial'
      exact decodes
    · intro decodes
      exact ⟨material, isMaterial, decodes⟩
  rw [unfolded, decodeSalt_isOk_iff, HexSalt, KeyDraft.protocolSalt]
  rcases stored.version with two | four
  · have notFour : ¬ draft.encVersion = 4 := by rw [two]; decide
    rw [if_neg notFour]
    refine ⟨fun _ isFour => absurd isFour notFour, fun _ => ⟨⟨0, by decide⟩, fun _ => ?_⟩⟩
    rw [pwdHashSalt, if_pos (by rw [two])]
    exact ⟨_, rfl⟩
  · rw [if_pos four, pwdHashSalt_isOk_iff _ four]
    by_cases isPresent : draft.pwdHash.isPresent = true
    · rw [if_pos isPresent]
      exact ⟨fun decodes _ => decodes.2 isPresent,
        fun hex => ⟨⟨32, hex four⟩, fun _ => hex four⟩⟩
    · rw [if_neg isPresent]
      exact ⟨fun decodes _ => decodes.1, fun hex => ⟨hex four, fun contra => absurd contra isPresent⟩⟩

end Opening

/-- An accepted request is one the server can open exactly when its salt is hexadecimal and, where
some password computes its verifier, the verifier has no uppercase letter. -/
theorem createRepoKeys_openable_iff (sound : prims.Sound) {request : KeyRequest}
    {policy : EncryptedLibraryPolicy} {saltBytes secretKey : List UInt8} {row : KeyRow}
    (supplied : request.draft.suppliesKeys = true)
    (accepted : createRepoKeys prims repoId request policy saltBytes secretKey = .ok row) :
    OpensAsComputed prims repoId request.draft row ↔
      HexSalt request.draft ∧
        ((∃ password, ComputedFrom prims repoId password request.draft) →
          LowercaseVerifier request.draft) := by
  obtain ⟨draft, isDraft, accepted⟩ := except_bind_ok_iff.mp accepted
  have notBare : request.barePassword = none := by
    rw [KeyRequest.barePassword, if_pos supplied]
  rw [filledDraft, notBare] at isDraft
  cases isDraft
  rw [if_pos (Or.inr (Or.inl supplied))] at accepted
  obtain ⟨checked, valid, isRow⟩ := except_bind_ok_iff.mp accepted
  cases isRow
  obtain ⟨material, isMaterial, stored⟩ := stored_of_validateKeys valid
  rw [OpensAsComputed, stored.saltDecodes_iff isMaterial]
  constructor
  · rintro ⟨opens, hex⟩
    refine ⟨hex, ?_⟩
    rintro ⟨password, computed⟩
    exact (stored.accepts_iff sound isMaterial computed).mp (opens password computed)
  · rintro ⟨hex, lower⟩
    refine ⟨?_, hex⟩
    intro password computed
    exact (stored.accepts_iff sound isMaterial computed).mpr (lower ⟨password, computed⟩)

/-- A desktop client's request with this `magic`; the key is the sample row's. -/
def keyedRequest (magic : String) : KeyRequest :=
  ⟨0, 2, some magic, sampleRow.randomKey, none, ⟨none, none, none⟩, none⟩

def lowerMagic : String := "a180000000000000000000000000000000000000000000000000000000000000"

def upperMagic : String := "A180000000000000000000000000000000000000000000000000000000000000"

theorem wrapped_sampleKey : ∃ secretKey, Spells sampleRow.randomKey
    (generateRandomKeyForRepo samplePrims secretKey "old" 2 "") :=
  ⟨List.replicate 32 9, _, rfl, by decide +kernel⟩

theorem lowerMagic_opens :
    ComputedFrom samplePrims sampleId "old" (keyedRequest lowerMagic).draft ∧
      OpensAsComputed samplePrims sampleId (keyedRequest lowerMagic).draft
        ((keyedRequest lowerMagic).draft.toRow true) := by
  have accepted : createRepoKeys samplePrims sampleId (keyedRequest lowerMagic) ⟨2, none, none⟩
      [] [] = .ok ((keyedRequest lowerMagic).draft.toRow true) := by
    decide +kernel
  have isText : lowerDigits lowerMagic = lowerMagic := by decide +kernel
  refine ⟨⟨⟨lowerMagic, rfl, by decide +kernel⟩, wrapped_sampleKey⟩, ?_⟩
  refine (createRepoKeys_openable_iff (samplePrimitives_sound _ _) (by decide +kernel)
    accepted).mpr ⟨fun four => absurd four (by decide), ?_⟩
  rintro - text ⟨⟩
  exact isText

/-- A `magic` in uppercase is accepted, and the password it was computed from is refused. -/
theorem upperMagic_refused :
    ¬ ∀ (prims : Primitives) (repoId : String) (request : KeyRequest)
        (policy : EncryptedLibraryPolicy) (saltBytes secretKey : List UInt8) (row : KeyRow),
      prims.Sound → request.draft.suppliesKeys = true →
      createRepoKeys prims repoId request policy saltBytes secretKey = .ok row →
      OpensAsComputed prims repoId request.draft row := by
  intro always
  have accepted : createRepoKeys samplePrims sampleId (keyedRequest upperMagic) ⟨2, none, none⟩
      [] [] = .ok ((keyedRequest upperMagic).draft.toRow true) := by
    decide +kernel
  have opens := always samplePrims sampleId (keyedRequest upperMagic) ⟨2, none, none⟩ [] [] _
    (samplePrimitives_sound _ _) (by decide +kernel) accepted
  obtain ⟨material, key, isMaterial, opened⟩ := opens.1 "old"
    ⟨⟨upperMagic, rfl, by decide +kernel⟩, wrapped_sampleKey⟩
  have refused : (((keyedRequest upperMagic).draft.toRow true).material.toOption.bind fun material =>
      (unlockKey samplePrims sampleId "old" material).toOption) = none := by
    decide +kernel
  rw [isMaterial] at refused
  dsimp only [Except.toOption, Option.bind] at refused
  rw [opened] at refused
  cases refused

end Nanofile
