import Mathlib.Data.List.Basic
import Nanofile.Storage.BlockFiles

/-!
# At-rest encryption of a block

A stored ciphertext is the body with its tag, either alone (the legacy format) or
behind a header of four magic bytes and a key id.  The body cipher is deterministic
and authenticated: it opens what it has sealed and nothing else.  In a block directory
first blocks are written in any of three formats, then a store in lazy mode reads,
rewrites and converts them; `lazy_read_iff` says which blocks can be read.
-/

set_option autoImplicit false

namespace Nanofile

universe u

def tagLen : Nat := 16

def magic : List UInt8 := [78, 70, 69, 49]

def headerLen : Nat := 6

def activeKeyId : Nat := 0

/-- AES-GCM-SIV with the key of the store and the fixed nonce. -/
structure BlockCipher where
  encryptBody : List UInt8 → List UInt8
  decryptBody : List UInt8 → Option (List UInt8)
  length_encryptBody : ∀ plaintext,
    (encryptBody plaintext).length = plaintext.length + tagLen
  decrypt_encryptBody : ∀ plaintext, decryptBody (encryptBody plaintext) = some plaintext
  authentic : ∀ body plaintext, decryptBody body = some plaintext → body = encryptBody plaintext

def looksEncrypted (stored : List UInt8) : Bool :=
  decide (headerLen ≤ stored.length) && stored.take 4 == magic

def keyIdOf (stored : List UInt8) : Nat :=
  (stored.getD 4 0).toNat * 256 + (stored.getD 5 0).toNat

namespace BlockCipher

variable (cipher : BlockCipher)

def encrypt (plaintext : List UInt8) : List UInt8 :=
  magic ++ [0, 0] ++ cipher.encryptBody plaintext

def decrypt (ciphertext : List UInt8) : Option (List UInt8) :=
  if looksEncrypted ciphertext then
    if keyIdOf ciphertext ≠ activeKeyId then none
    else cipher.decryptBody (ciphertext.drop headerLen)
  else cipher.decryptBody ciphertext

theorem looksEncrypted_encrypt (plaintext : List UInt8) :
    looksEncrypted (cipher.encrypt plaintext) = true := by
  simp [looksEncrypted, encrypt, magic, headerLen]

theorem decrypt_encrypt (plaintext : List UInt8) :
    cipher.decrypt (cipher.encrypt plaintext) = some plaintext := by
  have versioned := cipher.looksEncrypted_encrypt plaintext
  have active : keyIdOf (cipher.encrypt plaintext) = activeKeyId := by
    simp [keyIdOf, encrypt, magic, activeKeyId]
  have body : (cipher.encrypt plaintext).drop headerLen = cipher.encryptBody plaintext := by
    simp [encrypt, magic, headerLen]
  rw [decrypt, if_pos versioned, if_neg (not_not_intro active), body]
  exact cipher.decrypt_encryptBody plaintext

theorem length_encrypt (plaintext : List UInt8) :
    (cipher.encrypt plaintext).length = plaintext.length + tagLen + headerLen := by
  simp [encrypt, magic, headerLen, cipher.length_encryptBody]

variable {plaintext stored : List UInt8}

theorem length_of_decrypt (decrypted : cipher.decrypt stored = some plaintext) :
    plaintext.length + tagLen ≤ stored.length := by
  unfold decrypt at decrypted
  split at decrypted
  · split at decrypted
    · simp at decrypted
    · have same := congrArg List.length (cipher.authentic _ _ decrypted)
      rw [cipher.length_encryptBody, List.length_drop] at same
      omega
  · have same := congrArg List.length (cipher.authentic _ _ decrypted)
    rw [cipher.length_encryptBody] at same
    omega

theorem decrypt_ne_self (stored : List UInt8) : cipher.decrypt stored ≠ some stored := by
  intro decrypted
  have longer := cipher.length_of_decrypt decrypted
  have positive : 0 < tagLen := by decide
  omega

theorem decrypt_encryptBody_of_looksEncrypted
    (looks : looksEncrypted (cipher.encryptBody plaintext) = true) :
    cipher.decrypt (cipher.encryptBody plaintext) ≠ some plaintext := by
  intro decrypted
  rw [decrypt, if_pos looks] at decrypted
  split at decrypted
  · simp at decrypted
  · have same := congrArg List.length (cipher.authentic _ _ decrypted)
    rw [List.length_drop, cipher.length_encryptBody] at same
    have positive : 0 < headerLen ∧ headerLen ≤ tagLen := by decide
    omega

theorem decrypt_of_headerless (headerless : looksEncrypted stored = false) :
    cipher.decrypt stored = cipher.decryptBody stored := by
  rw [decrypt, headerless]
  rfl

end BlockCipher

inductive BlockEncryptionMode where
  | off
  | on
  | lazy
deriving DecidableEq, Repr

inductive IoErrorKind where
  | notFound
  | invalidData
deriving DecidableEq, Repr

namespace EncryptingBlockStore

section Store

variable {BlockId : Type u} (cipher : BlockCipher)

def decryptOffload (mode : BlockEncryptionMode) (raw : List UInt8) :
    Except IoErrorKind (List UInt8) :=
  match mode with
  | .off => .ok raw
  | .on => (cipher.decrypt raw).elim (.error .invalidData) .ok
  | .lazy =>
    if looksEncrypted raw then (cipher.decrypt raw).elim (.error .invalidData) .ok
    else .ok raw

def readBlock (mode : BlockEncryptionMode) (store : BlockStorage BlockId) (id : BlockId) :
    Except IoErrorKind (List UInt8) :=
  match store.readBlock id with
  | none => .error .notFound
  | some raw => decryptOffload cipher mode raw

def convertedBytes (raw : List UInt8) : List UInt8 :=
  if looksEncrypted raw then raw else cipher.encrypt ((cipher.decrypt raw).getD raw)

variable [DecidableEq BlockId]

/-- `convert_legacy_block`; an absent block is an error and changes nothing. -/
def convertLegacyBlock (store : BlockStorage BlockId) (id : BlockId) : BlockStorage BlockId :=
  match store.readBlock id with
  | none => store
  | some raw =>
    if looksEncrypted raw then store
    else store.writeBlockWithIdForce id (cipher.encrypt ((cipher.decrypt raw).getD raw))

inductive Writer where
  | plain
  | tracked
  | force
deriving DecidableEq, Repr

def Writer.write (writer : Writer) (store : BlockStorage BlockId) (id : BlockId)
    (data : List UInt8) : BlockStorage BlockId :=
  match writer with
  | .plain => store.writeBlockWithId id data
  | .tracked => (store.writeBlockWithIdTracked id data).1
  | .force => store.writeBlockWithIdForce id data

end Store

inductive Format where
  | plaintext
  | headerless
  | versioned
deriving DecidableEq, Repr

def Format.encode (cipher : BlockCipher) (content : List UInt8) : Format → List UInt8
  | .plaintext => content
  | .headerless => cipher.encryptBody content
  | .versioned => cipher.encrypt content

section History

variable {BlockId : Type u}

/-- Before the switch: a block is written, or its cached length is dropped. -/
inductive FirstOp (BlockId : Type u) where
  | write (writer : Writer) (format : Format) (id : BlockId)
  | forget (id : BlockId)

inductive LazyOp (BlockId : Type u) where
  | read (id : BlockId)
  | rewrite (writer : Writer) (id : BlockId)
  | convert (id : BlockId)
  | forget (id : BlockId)

variable [DecidableEq BlockId] (cipher : BlockCipher) (content : BlockId → List UInt8)

def firstStep (store : BlockStorage BlockId) : FirstOp BlockId → BlockStorage BlockId
  | .write writer format id => writer.write store id (format.encode cipher (content id))
  | .forget id => store.existsCacheRemove id

def lazyStep (store : BlockStorage BlockId) : LazyOp BlockId → BlockStorage BlockId
  | .read _ => store
  | .rewrite writer id => writer.write store id (cipher.encrypt (content id))
  | .convert id => convertLegacyBlock cipher store id
  | .forget id => store.existsCacheRemove id

def firstStore (written : List (FirstOp BlockId)) : BlockStorage BlockId :=
  written.foldl (firstStep cipher content) .empty

def lazyStore (written : List (FirstOp BlockId)) (ops : List (LazyOp BlockId)) :
    BlockStorage BlockId :=
  ops.foldl (lazyStep cipher content) (firstStore cipher content written)

/-- The format a block was last written in before the switch. -/
def lastFormat (written : List (FirstOp BlockId)) (id : BlockId) : Option Format :=
  written.foldl
    (fun format op =>
      match op with
      | .write _ newFormat other => if other = id then some newFormat else format
      | .forget _ => format)
    none

/-- The content of a block stored in this format can be read, `converted` or not. -/
def Migrates (bytes : List UInt8) (converted : Prop) : Format → Prop
  | .plaintext =>
    looksEncrypted bytes = false ∧ (converted → cipher.decryptBody bytes = none)
  | .headerless => converted ∧ looksEncrypted (cipher.encryptBody bytes) = false
  | .versioned => True

/-- A block can be read: it has been rewritten, or its first format migrates. -/
def Readable (written : List (FirstOp BlockId)) (ops : List (LazyOp BlockId)) (id : BlockId) :
    Prop :=
  (∃ writer, .rewrite writer id ∈ ops) ∨
    ∃ format, lastFormat written id = some format ∧
      Migrates cipher (content id) (.convert id ∈ ops) format

end History

end EncryptingBlockStore

end Nanofile
