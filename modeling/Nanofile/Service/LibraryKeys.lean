import Nanofile.Crypto.PasswordManager

/-!
# The key columns of a library

`create_repo` takes key material from the client or generates it from a password; a rotation
stores a new verifier with the secret wrapped anew.
-/

set_option autoImplicit false

namespace Nanofile

/-- The encryption columns of a library's row. -/
structure KeyRow where
  encrypted : Int
  encVersion : Int
  magic : Option String
  randomKey : Option String
  salt : String
  pwdHash : Option String
  pwdHashAlgo : Option String
  pwdHashParams : Option String
deriving DecidableEq, Repr

structure PwdHash where
  hash : Option String
  algo : Option String
  params : Option String
deriving DecidableEq, Repr

structure EncryptedLibraryPolicy where
  encVersion : Int
  pwdHashAlgo : Option String
  pwdHashParams : Option String
deriving DecidableEq, Repr

/-- What a request to create a library says of its encryption. -/
structure KeyRequest where
  encrypted : Int
  encVersion : Int
  magic : Option String
  randomKey : Option String
  salt : Option String
  pwdHash : PwdHash
  passwd : Option String
deriving DecidableEq, Repr

def isNonblank (value : Option String) : Bool := value.any fun text => trimText text ≠ ""

def isHexText (length : Nat) (text : String) : Bool :=
  text.utf8ByteSize = length && text.toList.all isAsciiHexdigit

def asBadRequest : Except String Unit → Except AppError Unit
  | .ok () => .ok ()
  | .error msg => .error (.badRequest msg)

namespace PwdHash

def clean (value : Option String) : Option String :=
  (value.map trimText).filter fun text => text ≠ ""

def normalized (triple : PwdHash) : PwdHash :=
  match clean triple.algo with
  | none => ⟨none, none, none⟩
  | some algo => ⟨clean triple.hash, some algo, clean triple.params⟩

def isPresent (triple : PwdHash) : Bool := triple.algo.isSome

def validate (triple : PwdHash) : Except AppError Unit := do
  let algo ← okOr triple.algo (.badRequest "pwd_hash_algo required with pwd_hash")
  ensure (isSupportedAlgo algo = true) (.badRequest ("unsupported pwd_hash algorithm '" ++ algo ++
    "'; use '" ++ algoPbkdf2Sha256 ++ "' or '" ++ algoArgon2id ++ "'"))
  ensure (triple.hash.any (isHexText 64) = true) (.badRequest "pwd_hash must be 64 hex characters")
  asBadRequest (validateParams algo triple.params)

end PwdHash

/-- The key material `create_repo` holds before it validates it. -/
structure KeyDraft where
  encVersion : Int
  magic : Option String
  randomKey : Option String
  salt : Option String
  pwdHash : PwdHash
deriving DecidableEq, Repr

def KeyRequest.draft (request : KeyRequest) : KeyDraft :=
  ⟨request.encVersion, request.magic, request.randomKey, request.salt, request.pwdHash.normalized⟩

def KeyDraft.suppliesKeys (draft : KeyDraft) : Bool :=
  isNonblank draft.magic || isNonblank draft.randomKey || draft.pwdHash.isPresent

def KeyRequest.barePassword (request : KeyRequest) : Option String :=
  if request.draft.suppliesKeys then none else request.passwd.filter fun passwd => passwd ≠ ""

section Creation

variable (prims : Primitives)

def derivationFailed (what : String) {Result : Type} :
    Except CryptoError Result → Except AppError Result
  | .ok result => .ok result
  | .error failure => .error (.badRequest (what ++ " failed: " ++ toString failure))

/-- The verifier a password gets under the policy, as a `magic` or a triple. -/
def generateVerifier (repoId passwd repoSalt : String) (policy : EncryptedLibraryPolicy) :
    Except AppError (Option String × PwdHash) :=
  match policy.pwdHashAlgo with
  | some algo => do
      asBadRequest (validateParams algo policy.pwdHashParams)
      let hash ← derivationFailed "pwd_hash generation"
        (derivePwdHash prims repoId passwd policy.encVersion repoSalt algo policy.pwdHashParams)
      .ok (none, ⟨some hash, some algo, policy.pwdHashParams⟩)
  | none => do
      let magic ← derivationFailed "magic generation"
        (generateMagic prims repoId passwd policy.encVersion repoSalt)
      .ok (some magic, ⟨none, none, none⟩)

/-- The bare-password flow, with the random bytes of the salt and of the secret. -/
def generateKeys (repoId passwd : String) (policy : EncryptedLibraryPolicy)
    (saltBytes secretKey : List UInt8) : Except AppError KeyDraft := do
  ensure (policy.encVersion = 2 ∨ policy.encVersion = 4) (.badRequest
    "server.encrypted_library_version must be 2 or 4 to create a library from a bare password")
  let repoSalt := if 3 ≤ policy.encVersion then hexEncode saltBytes else ""
  let verifier ← generateVerifier prims repoId passwd repoSalt policy
  let randomKey ← derivationFailed "random_key generation"
    (generateRandomKeyForRepo prims secretKey passwd policy.encVersion repoSalt)
  .ok ⟨policy.encVersion, verifier.1, some randomKey,
    if repoSalt = "" then none else some repoSalt, verifier.2⟩

/-- The verifier's checks; a `magic` beside a triple is dropped. -/
def validVerifier (draft : KeyDraft) : Except AppError (Option String) :=
  if draft.pwdHash.isPresent then do
    draft.pwdHash.validate
    .ok none
  else do
    ensure (draft.magic.any (isHexText 64) = true) (.badRequest "magic must be 64 hex chars")
    .ok draft.magic

def validateKeys (draft : KeyDraft) : Except AppError KeyDraft := do
  ensure (draft.encVersion = 2 ∨ draft.encVersion = 4)
    (.badRequest "unsupported enc_version (only 2 and 4 are supported)")
  let magic ← validVerifier draft
  ensure (draft.randomKey.any (isHexText 96) = true)
    (.badRequest "random_key must be 96 hex chars")
  ensure (¬ (draft.encVersion = 4 ∧ isNonblank draft.salt = false))
    (.badRequest "salt is required for enc_version 4")
  .ok { draft with magic }

/-- The columns `create_repo` stores. -/
def KeyDraft.toRow (draft : KeyDraft) (encrypted : Bool) : KeyRow where
  encrypted := if encrypted then 1 else 0
  encVersion := draft.encVersion.bmod 256
  magic := draft.magic
  randomKey := draft.randomKey
  salt := if draft.encVersion = 4 then draft.salt.getD "" else ""
  pwdHash := draft.pwdHash.hash
  pwdHashAlgo := draft.pwdHash.algo
  pwdHashParams := draft.pwdHash.params

/-- The material of a request, generated where it has nothing but a password. -/
def filledDraft (repoId : String) (request : KeyRequest) (policy : EncryptedLibraryPolicy)
    (saltBytes secretKey : List UInt8) : Except AppError KeyDraft :=
  match request.barePassword with
  | some passwd => generateKeys prims repoId passwd policy saltBytes secretKey
  | none => .ok request.draft

/-- `create_repo` as far as the encryption columns of the new row. -/
def createRepoKeys (repoId : String) (request : KeyRequest) (policy : EncryptedLibraryPolicy)
    (saltBytes secretKey : List UInt8) : Except AppError KeyRow := do
  let draft ← filledDraft prims repoId request policy saltBytes secretKey
  if request.encrypted ≠ 0 ∨ draft.suppliesKeys = true ∨ 2 ≤ draft.encVersion then do
    let checked ← validateKeys draft
    .ok (checked.toRow true)
  else .ok (draft.toRow false)

end Creation

/-- The material `PasswordService` hands on, once the row was found to be encrypted. -/
def KeyRow.material (row : KeyRow) : Except AppError RepoKeyMaterial :=
  if row.encrypted = 0 then .error (.badRequest "repo is not encrypted")
  else
    match row.randomKey with
    | none => .error (.badRequest "repo has no random_key")
    | some randomKey => .ok
        { encVersion := row.encVersion
          magic := row.magic
          randomKey
          salt := if 3 ≤ row.encVersion then row.salt else ""
          pwdHash := row.pwdHash
          pwdHashAlgo := row.pwdHashAlgo
          pwdHashParams := row.pwdHashParams }

structure UpdateRepoKeysParams where
  magic : Option String
  randomKey : Option String
  pwdHash : Option String
  pwdHashAlgo : Option String
  pwdHashParams : Option String
deriving DecidableEq, Repr

/-- `update_repo_keys`: an absent value clears its column. -/
def KeyRow.updateRepoKeys (row : KeyRow) (params : UpdateRepoKeysParams) : KeyRow :=
  { row with
    magic := params.magic
    randomKey := params.randomKey
    pwdHash := params.pwdHash
    pwdHashAlgo := params.pwdHashAlgo
    pwdHashParams := params.pwdHashParams }

section Rotation

variable (prims : Primitives)

/-- The verifier of the new password, by the library's own algorithm. -/
def newVerifier (repoId newPassword : String) (material : RepoKeyMaterial) :
    Except AppError UpdateRepoKeysParams :=
  match material.pwdHashAlgo with
  | some algo => do
      let hash ← derivationFailed "pwd_hash generation" (derivePwdHash prims repoId newPassword
        material.encVersion material.salt algo material.pwdHashParams)
      .ok ⟨none, none, some hash, some algo, material.pwdHashParams⟩
  | none => do
      ensure (material.magic.isSome = true) (.badRequest "repo has no magic")
      let magic ← derivationFailed "magic generation"
        (generateMagic prims repoId newPassword material.encVersion material.salt)
      .ok ⟨some magic, none, none, none, none⟩

/-- The secret under the new password. -/
def rewrapKey (oldPassword newPassword : String) (material : RepoKeyMaterial) :
    Except AppError String := do
  let oldDerived ← derivationFailed "key derivation"
    (deriveKey prims oldPassword material.encVersion material.salt)
  let randomKeyBytes ← okOr (hexDecode material.randomKey) (.badRequest "invalid random_key hex")
  let secretKey ← okOr (prims.decrypt oldDerived.1 oldDerived.2 randomKeyBytes)
    (.badRequest "failed to decrypt random_key")
  let newDerived ← derivationFailed "key derivation"
    (deriveKey prims newPassword material.encVersion material.salt)
  .ok (hexEncode (prims.encrypt newDerived.1 newDerived.2 secretKey))

/-- What `change_password` stores, once the old password is verified. -/
def changedKeys (repoId oldPassword newPassword : String) (material : RepoKeyMaterial) :
    Except AppError UpdateRepoKeysParams := do
  let verifier ← newVerifier prims repoId newPassword material
  let randomKey ← rewrapKey prims oldPassword newPassword material
  .ok { verifier with randomKey := some randomKey }

end Rotation

end Nanofile
