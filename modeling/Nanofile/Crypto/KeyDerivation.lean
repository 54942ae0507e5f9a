import Nanofile.Base.Hex
import Nanofile.Base.Paths
import Nanofile.Lib.Proc

/-!
# Keys of an encrypted library

A password and the salt of a library give a wrapping key.  `random_key` is the secret of the
library under this key, and the block key is derived from the secret.  The password is verified by
`magic`, the digest of the library's id and the password, or by a `pwd_hash`, their digest by a
named algorithm with parameters.
-/

set_option autoImplicit false

namespace Nanofile

open Nanofile.Lib

variable {first repoId second password : String} {encVersion : Int}

section Keys

/-- The primitives: SHA-256, PBKDF2 with its iterations and the length of its output, Argon2id
with its memory, time and parallelism, and AES-256-CBC with padding. -/
structure Primitives where
  sha256 : List UInt8 → List UInt8
  pbkdf2 : List UInt8 → List UInt8 → Nat → Nat → List UInt8
  argon2id : List UInt8 → List UInt8 → Nat → Nat → Nat → Option (List UInt8)
  encrypt : List UInt8 → List UInt8 → List UInt8 → List UInt8
  decrypt : List UInt8 → List UInt8 → List UInt8 → Option (List UInt8)

/-- No two passwords have one digest, and decryption inverts encryption under the same key. -/
structure Primitives.Sound (prims : Primitives) : Prop where
  sha256_injective : Function.Injective prims.sha256
  pbkdf2_injective : ∀ salt iterations length,
    Function.Injective fun password => prims.pbkdf2 password salt iterations length
  argon2id_injective : ∀ first second salt memory time parallel key,
    prims.argon2id first salt memory time parallel = some key →
    prims.argon2id second salt memory time parallel = some key → first = second
  decrypt_encrypt : ∀ key iv plaintext,
    prims.decrypt key iv (prims.encrypt key iv plaintext) = some plaintext

/-- The words of the library that failed are left out. -/
inductive CryptoError where
  | unsupportedVersion (version : Int)
  | invalidKey
  | invalidSalt
  | decryptionFailed
  | unsupportedAlgo (algo : String)
  | hashFailed
deriving DecidableEq, Repr

instance : ToString CryptoError where
  toString
    | .unsupportedVersion version => "unsupported encryption version: " ++ toString version
    | .invalidKey => "invalid key"
    | .invalidSalt => "invalid salt"
    | .decryptionFailed => "decryption failed"
    | .unsupportedAlgo algo => "unsupported password hash algorithm: " ++ algo
    | .hashFailed => "password hash failed"

def magicSalt : List UInt8 := [0xda, 0x90, 0x45, 0xc3, 0x06, 0xc7, 0xcc, 0x26]

def zeroSalt : String := String.ofList (List.replicate 64 '0')

def isDefaultSalt (salt : String) : Bool := salt = "" || salt = zeroSalt

/-- `decode_salt`; its two other branches are the same. -/
def decodeSalt (repoSalt : String) : Except CryptoError (List UInt8) :=
  if isDefaultSalt repoSalt then .ok magicSalt
  else
    match hexDecode repoSalt with
    | some bytes => .ok bytes
    | none => .error .invalidSalt

abbrev KeyIv := List UInt8 × List UInt8

variable (prims : Primitives)

def deriveKeyBytes (keyBytes : List UInt8) (encVersion : Int) (repoSalt : String) :
    Except CryptoError KeyIv := do
  let saltBytes ← decodeSalt repoSalt
  if encVersion = 2 ∨ encVersion = 4 then
    let key := prims.pbkdf2 keyBytes saltBytes 1000 32
    .ok (key, prims.pbkdf2 key saltBytes 10 16)
  else .error (.unsupportedVersion encVersion)

def deriveKey (password : String) (encVersion : Int) (repoSalt : String) :
    Except CryptoError KeyIv :=
  deriveKeyBytes prims (Bytes.asBytes password) encVersion repoSalt

def decryptRepoEncKey (password randomKey : String) (encVersion : Int) (repoSalt : String) :
    Except CryptoError KeyIv := do
  let randomKeyBytes ←
    match hexDecode randomKey with
    | some bytes => .ok bytes
    | none => .error .invalidKey
  let derived ← deriveKey prims password encVersion repoSalt
  let fileKey ←
    match prims.decrypt derived.1 derived.2 randomKeyBytes with
    | some fileKey => .ok fileKey
    | none => .error .decryptionFailed
  deriveKeyBytes prims fileKey encVersion repoSalt

def generateRandomKeyForRepo (secretKey : List UInt8) (password : String) (encVersion : Int)
    (repoSalt : String) : Except CryptoError String := do
  let derived ← deriveKey prims password encVersion repoSalt
  .ok (hexEncode (prims.encrypt derived.1 derived.2 secretKey))

def generateMagic (repoId password : String) (encVersion : Int) (repoSalt : String) :
    Except CryptoError String := do
  let saltBytes ← decodeSalt repoSalt
  if encVersion = 2 ∨ encVersion = 4 then
    .ok (hexEncode (prims.pbkdf2 (Bytes.asBytes (repoId ++ password)) saltBytes 1000 32))
  else .error (.unsupportedVersion encVersion)

def sameDigest (computed stored : String) : Bool :=
  prims.sha256 (Bytes.asBytes computed) = prims.sha256 (Bytes.asBytes stored)

def verifyRepoPassword (repoId password : String) (encVersion : Int) (salt storedMagic : String) :
    Bool :=
  match generateMagic prims repoId password encVersion salt with
  | .ok computedMagic => sameDigest prims computedMagic storedMagic
  | .error _ => false

variable {prims}

theorem asBytes_injective : Function.Injective Bytes.asBytes := by
  intro first second same
  have read := Bytes.fromUtf8_eq_some_iff.mpr same
  rw [Bytes.fromUtf8_eq_some_iff.mpr rfl] at read
  exact (Option.some.inj read).symm

theorem sameDigest_iff (sound : prims.Sound) {computed stored : String} :
    sameDigest prims computed stored = true ↔ computed = stored := by
  rw [sameDigest, decide_eq_true_eq]
  exact ⟨fun same => asBytes_injective (sound.sha256_injective same), fun same => by rw [same]⟩

theorem password_of_asBytes
    (same : Bytes.asBytes (repoId ++ first) = Bytes.asBytes (repoId ++ second)) : first = second :=
  (String.append_right_inj repoId).mp (asBytes_injective same)

theorem generateMagic_injective (sound : prims.Sound) {magic salt : String}
    (isFirst : generateMagic prims repoId first encVersion salt = .ok magic)
    (isSecond : generateMagic prims repoId second encVersion salt = .ok magic) :
    first = second := by
  obtain ⟨saltBytes, decoded, isFirst⟩ := except_bind_ok_iff.mp isFirst
  obtain ⟨saltBytes', decoded', isSecond⟩ := except_bind_ok_iff.mp isSecond
  cases decoded.symm.trans decoded'
  split at isFirst
  · rename_i supported
    rw [if_pos supported] at isSecond
    cases isFirst
    have digests := hexEncode_injective (Except.ok.inj isSecond)
    exact (password_of_asBytes (sound.pbkdf2_injective saltBytes 1000 32 digests)).symm
  · cases isFirst

theorem verifyRepoPassword_eq (sound : prims.Sound) {magic salt : String}
    (generated : generateMagic prims repoId password encVersion salt = .ok magic) (given : String) :
    verifyRepoPassword prims repoId given encVersion salt magic = decide (given = password) := by
  rw [verifyRepoPassword]
  by_cases same : given = password
  · rw [same, generated]
    dsimp only
    rw [(sameDigest_iff sound).mpr rfl, decide_eq_true rfl]
  · rw [decide_eq_false same]
    split
    · rename_i computed isComputed
      refine Bool.eq_false_iff.mpr fun equal => same ?_
      rw [(sameDigest_iff sound).mp equal] at isComputed
      exact generateMagic_injective sound isComputed generated
    · rfl

theorem decryptRepoEncKey_of_wrapped (sound : prims.Sound) {secretKey : List UInt8}
    {randomKey wrapped salt : String}
    (generated : generateRandomKeyForRepo prims secretKey password encVersion salt = .ok wrapped)
    (spells : lowerDigits randomKey = wrapped) :
    decryptRepoEncKey prims password randomKey encVersion salt =
      deriveKeyBytes prims secretKey encVersion salt := by
  obtain ⟨derived, isDerived, generated⟩ := except_bind_ok_iff.mp generated
  cases generated
  rw [decryptRepoEncKey, hexDecode_of_lowerDigits spells]
  dsimp only [bind, Except.bind]
  rw [isDerived]
  dsimp only
  rw [sound.decrypt_encrypt]

theorem deriveKeyBytes_isOk_iff {keyBytes : List UInt8} {salt : String} :
    (∃ key, deriveKeyBytes prims keyBytes encVersion salt = .ok key) ↔
      (∃ bytes, decodeSalt salt = .ok bytes) ∧ (encVersion = 2 ∨ encVersion = 4) := by
  constructor
  · rintro ⟨key, derived⟩
    obtain ⟨bytes, decoded, derived⟩ := except_bind_ok_iff.mp derived
    split at derived
    · rename_i supported
      exact ⟨⟨bytes, decoded⟩, supported⟩
    · cases derived
  · rintro ⟨⟨bytes, decoded⟩, supported⟩
    rw [deriveKeyBytes, decoded]
    dsimp only [bind, Except.bind]
    rw [if_pos supported]
    exact ⟨_, rfl⟩

end Keys

def algoPbkdf2Sha256 : String := "pbkdf2_sha256"

def algoArgon2id : String := "argon2id"

def isSupportedAlgo (algo : String) : Bool := algo = algoPbkdf2Sha256 || algo = algoArgon2id

def isCSpace (byte : UInt8) : Bool := byte = 32 || (9 ≤ byte && byte ≤ 13)

def isDigitByte (byte : UInt8) : Bool := 48 ≤ byte && byte ≤ 57

/-- `value.saturating_mul(10).saturating_add(digit)`. -/
def addDigit (value : Nat) (byte : UInt8) : Nat :=
  min (min (value * 10) (2 ^ 63 - 1) + (byte.toNat - 48)) (2 ^ 63 - 1)

def cSign : List UInt8 → Bool × List UInt8
  | 45 :: rest => (true, rest)
  | 43 :: rest => (false, rest)
  | rest => (false, rest)

def cAtoi (text : String) : Int :=
  let signed := cSign ((Bytes.asBytes text).dropWhile isCSpace)
  let value : Nat := (signed.2.takeWhile isDigitByte).foldl addDigit 0
  if signed.1 then -(value : Int) else value

def positiveOr (default : Nat) (value : Int) : Nat :=
  if value ≤ 0 then default else min value.toNat (2 ^ 32 - 1)

def pbkdf2DefaultIterations : Nat := 1000

def parsePbkdf2Params : Option String → Nat
  | none => pbkdf2DefaultIterations
  | some params => positiveOr pbkdf2DefaultIterations (cAtoi params)

abbrev Argon2Costs := Nat × Nat × Nat

def argon2idDefaultParams : Argon2Costs := (2, 102400, 8)

def threeFields (params : String) : Option (String × String × String) :=
  match Text.split ',' params with
  | first :: second :: third :: rest => some (first, second, String.intercalate "," (third :: rest))
  | _ => none

def parseArgon2idParams (params : Option String) : Argon2Costs :=
  match params.bind threeFields with
  | none => argon2idDefaultParams
  | some (first, second, third) =>
    (positiveOr argon2idDefaultParams.1 (cAtoi (trimText first)),
      positiveOr argon2idDefaultParams.2.1 (cAtoi (trimText second)),
      positiveOr argon2idDefaultParams.2.2 (cAtoi (trimText third)))

def maxPbkdf2Iterations : Nat := 50000000

def maxArgon2TCost : Nat := 64

def maxArgon2MCostKib : Nat := 1048576

def maxArgon2PCost : Nat := 64

def maxArgon2MemoryTimeKibPasses : Nat := 2 * 1024 * 1024

def validateArgon2 (costs : Argon2Costs) : Except String Unit :=
  let (time, memory, parallel) := costs
  let kibPasses := memory * time
  if maxArgon2TCost < time then
    .error ("argon2id time_cost = " ++ toString time ++ " exceeds the supported maximum of " ++
      toString maxArgon2TCost)
  else if maxArgon2MCostKib < memory then
    .error ("argon2id memory_cost = " ++ toString memory ++
      " KiB exceeds the supported maximum of " ++ toString maxArgon2MCostKib ++ " KiB")
  else if maxArgon2PCost < parallel then
    .error ("argon2id parallelism = " ++ toString parallel ++
      " exceeds the supported maximum of " ++ toString maxArgon2PCost)
  else if memory < min (8 * parallel) (2 ^ 32 - 1) then
    .error ("argon2id memory_cost = " ++ toString memory ++
      " KiB is too small for parallelism = " ++ toString parallel)
  else if maxArgon2MemoryTimeKibPasses < kibPasses then
    .error ("argon2id memory_cost × time_cost = " ++ toString kibPasses ++
      " KiB-passes exceeds the supported maximum of " ++ toString maxArgon2MemoryTimeKibPasses ++
      " (m_cost = " ++ toString memory ++ ", t_cost = " ++ toString time ++ ")")
  else .ok ()

def validateParams (algo : String) (params : Option String) : Except String Unit :=
  if algo = algoPbkdf2Sha256 then
    let iterations := parsePbkdf2Params params
    if maxPbkdf2Iterations < iterations then
      .error ("pbkdf2_sha256 iterations = " ++ toString iterations ++
        " exceeds the supported maximum of " ++ toString maxPbkdf2Iterations)
    else .ok ()
  else if algo = algoArgon2id then validateArgon2 (parseArgon2idParams params)
  else .error ("unsupported pwd_hash algorithm: " ++ algo)

def pwdHashSalt (encVersion : Int) (repoSalt : String) : Except CryptoError (List UInt8) :=
  if encVersion ≤ 2 then .ok (magicSalt ++ List.replicate 24 0)
  else
    match hexDecode repoSalt with
    | some decoded => if decoded.length ≠ 32 then .error .invalidSalt else .ok decoded
    | none => .error .invalidSalt

variable (prims : Primitives)

def hashKey (algo : String) (params : Option String) (input salt : List UInt8) :
    Except CryptoError (List UInt8) :=
  if algo = algoPbkdf2Sha256 then .ok (prims.pbkdf2 input salt (parsePbkdf2Params params) 32)
  else if algo = algoArgon2id then
    let (time, memory, parallel) := parseArgon2idParams params
    match prims.argon2id input salt memory time parallel with
    | some key => .ok key
    | none => .error .hashFailed
  else .error (.unsupportedAlgo algo)

def derivePwdHash (repoId password : String) (encVersion : Int) (repoSalt algo : String)
    (params : Option String) : Except CryptoError String := do
  let salt ← pwdHashSalt encVersion repoSalt
  let key ← hashKey prims algo params (Bytes.asBytes (repoId ++ password)) salt
  .ok (hexEncode key)

def verifyPwdHash (repoId password : String) (encVersion : Int) (repoSalt storedPwdHash algo : String)
    (params : Option String) : Bool :=
  match validateParams algo params with
  | .error _ => false
  | .ok () =>
    match derivePwdHash prims repoId password encVersion repoSalt algo params with
    | .ok computed => sameDigest prims computed storedPwdHash
    | .error _ => false

variable {prims} {algo : String} {params : Option String}

theorem hashKey_injective (sound : prims.Sound) {first second salt key : List UInt8}
    (isFirst : hashKey prims algo params first salt = .ok key)
    (isSecond : hashKey prims algo params second salt = .ok key) : first = second := by
  unfold hashKey at isFirst isSecond
  split at isFirst
  · rename_i isPbkdf2
    rw [if_pos isPbkdf2] at isSecond
    exact sound.pbkdf2_injective salt _ 32 ((Except.ok.inj isFirst).trans (Except.ok.inj isSecond).symm)
  · rename_i notPbkdf2
    rw [if_neg notPbkdf2] at isSecond
    split at isFirst
    · rename_i isArgon2
      rw [if_pos isArgon2] at isSecond
      dsimp only at isFirst isSecond
      split at isFirst
      · rename_i found
        split at isSecond
        · rename_i found'
          rw [Except.ok.inj isFirst] at found
          rw [Except.ok.inj isSecond] at found'
          exact sound.argon2id_injective first second salt _ _ _ key found found'
        · cases isSecond
      · cases isFirst
    · cases isFirst

theorem derivePwdHash_injective (sound : prims.Sound) {salt hash : String}
    (isFirst : derivePwdHash prims repoId first encVersion salt algo params = .ok hash)
    (isSecond : derivePwdHash prims repoId second encVersion salt algo params = .ok hash) :
    first = second := by
  obtain ⟨saltBytes, decoded, derived⟩ := except_bind_ok_iff.mp isFirst
  obtain ⟨key, hashed, isHash⟩ := except_bind_ok_iff.mp derived
  obtain ⟨saltBytes', decoded', derived'⟩ := except_bind_ok_iff.mp isSecond
  obtain ⟨key', hashed', isHash'⟩ := except_bind_ok_iff.mp derived'
  cases decoded.symm.trans decoded'
  have sameKey : key' = key :=
    hexEncode_injective (Except.ok.inj (isHash'.trans isHash.symm))
  rw [sameKey] at hashed'
  exact password_of_asBytes (hashKey_injective sound hashed hashed')

theorem verifyPwdHash_eq (sound : prims.Sound) {salt hash : String}
    (valid : validateParams algo params = .ok ())
    (derived : derivePwdHash prims repoId password encVersion salt algo params = .ok hash)
    (given : String) :
    verifyPwdHash prims repoId given encVersion salt hash algo params =
      decide (given = password) := by
  rw [verifyPwdHash, valid]
  dsimp only
  by_cases same : given = password
  · rw [same, derived]
    dsimp only
    rw [(sameDigest_iff sound).mpr rfl, decide_eq_true rfl]
  · rw [decide_eq_false same]
    split
    · rename_i computed isComputed
      refine Bool.eq_false_iff.mpr fun equal => same ?_
      rw [(sameDigest_iff sound).mp equal] at isComputed
      exact derivePwdHash_injective sound isComputed derived
    · rfl

example : parsePbkdf2Params (some " +2500 rounds") = 2500 := by decide

end Nanofile
