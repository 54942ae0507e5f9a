import Nanofile.Lib.Proc
import Nanofile.Storage.AtRestReads

/-!
# What readers ask of a block store

A reader turns sizes into offsets, so a store says whether its sizes are exact.  Both stores
of the server say so: the block files, and the encrypting store in each of its modes.
-/

set_option autoImplicit false

namespace Nanofile

open Nanofile.Lib

universe u

/-- The methods of a `BlockStorageBackend` that readers call, with the text of an error. -/
structure BlockStorageBackend (BlockId : Type u) where
  readBlock : BlockId → Except String (List UInt8)
  blockSize : BlockId → Except String Int
  logicalSizesAreExact : Bool
  sizes_exact : logicalSizesAreExact = true → ∀ id data size,
    readBlock id = .ok data → blockSize id = .ok size → size = data.length

def IoErrorKind.text : IoErrorKind → String
  | .notFound => "No such file or directory (os error 2)"
  | .invalidData => "block at-rest decryption failed"

section Files

variable {BlockId : Type u}

def BlockStorage.blockSize (store : BlockStorage BlockId) (id : BlockId) : Except IoErrorKind Int :=
  match store.readBlock id with
  | none => .error .notFound
  | some data => .ok data.length

def BlockStorage.backend (store : BlockStorage BlockId) : BlockStorageBackend BlockId where
  readBlock id := (store.readBlock id).elim (.error IoErrorKind.notFound.text) .ok
  blockSize id := (store.blockSize id).mapError IoErrorKind.text
  logicalSizesAreExact := true
  sizes_exact := by
    intro _ id data size read sized
    unfold BlockStorage.blockSize at sized
    cases found : store.readBlock id with
    | none => simp [found] at read
    | some raw =>
      rw [found] at read sized
      cases read
      cases sized
      rfl

end Files

def plaintextLen (storedPrefix : List UInt8) (storedLen : Nat) : Option Nat :=
  let checkedSub (overhead : Nat) := if overhead ≤ storedLen then some (storedLen - overhead) else none
  if looksEncrypted storedPrefix then
    if keyIdOf storedPrefix ≠ activeKeyId then none else checkedSub (headerLen + tagLen)
  else checkedSub tagLen

theorem looksEncrypted_take (stored : List UInt8) :
    looksEncrypted (stored.take headerLen) = looksEncrypted stored := by
  have heads : (stored.take headerLen).take 4 = stored.take 4 := by
    rw [List.take_take]
    rfl
  have long : headerLen ≤ (stored.take headerLen).length ↔ headerLen ≤ stored.length := by
    rw [List.length_take]
    omega
  simp only [looksEncrypted, heads, long]

theorem plaintextLen_take (stored : List UInt8) (storedLen : Nat) :
    plaintextLen (stored.take headerLen) storedLen = plaintextLen stored storedLen := by
  have sameKey : keyIdOf (stored.take headerLen) = keyIdOf stored := by
    simp [keyIdOf, headerLen, List.getD_eq_getElem?_getD]
  simp only [plaintextLen, looksEncrypted_take, sameKey]

variable {plaintext stored : List UInt8}

theorem BlockCipher.plaintextLen_of_decrypt (cipher : BlockCipher) {size : Nat}
    (decrypted : cipher.decrypt stored = some plaintext)
    (sized : plaintextLen stored stored.length = some size) : size = plaintext.length := by
  unfold BlockCipher.decrypt at decrypted
  unfold plaintextLen at sized
  by_cases looks : looksEncrypted stored = true
  · rw [if_pos looks] at decrypted sized
    by_cases foreign : keyIdOf stored ≠ activeKeyId
    · simp [foreign] at decrypted
    · rw [if_neg foreign] at decrypted sized
      have same := congrArg List.length (cipher.authentic _ _ decrypted)
      rw [cipher.length_encryptBody, List.length_drop] at same
      dsimp only at sized
      split at sized
      · have isSize := Option.some.inj sized
        omega
      · simp at sized
  · rw [if_neg looks] at decrypted sized
    have same := congrArg List.length (cipher.authentic _ _ decrypted)
    rw [cipher.length_encryptBody] at same
    dsimp only at sized
    split at sized
    · have isSize := Option.some.inj sized
      omega
    · simp at sized

theorem BlockCipher.plaintextLen_isSome (cipher : BlockCipher)
    (decrypted : cipher.decrypt stored = some plaintext) :
    (plaintextLen stored stored.length).isSome := by
  unfold BlockCipher.decrypt at decrypted
  unfold plaintextLen
  by_cases looks : looksEncrypted stored = true
  · rw [if_pos looks] at decrypted ⊢
    by_cases foreign : keyIdOf stored ≠ activeKeyId
    · simp [foreign] at decrypted
    · rw [if_neg foreign] at decrypted ⊢
      have same := congrArg List.length (cipher.authentic _ _ decrypted)
      rw [cipher.length_encryptBody, List.length_drop] at same
      have positive : 0 < tagLen := by decide
      have long : headerLen + tagLen ≤ stored.length := by omega
      simp [long]
  · rw [if_neg looks] at decrypted ⊢
    have same := congrArg List.length (cipher.authentic _ _ decrypted)
    rw [cipher.length_encryptBody] at same
    have long : tagLen ≤ stored.length := by omega
    simp [long]

namespace EncryptingBlockStore

variable {BlockId : Type u} (cipher : BlockCipher)

/-- `block_size`: the stored size without what the format adds. -/
def blockSize (mode : BlockEncryptionMode) (store : BlockStorage BlockId) (id : BlockId) :
    Except IoErrorKind Int :=
  match store.readBlock id with
  | none => .error .notFound
  | some raw =>
    let logical := (plaintextLen (raw.take headerLen) raw.length).elim (.error .invalidData)
      fun size => .ok (size : Int)
    match mode with
    | .off => .ok raw.length
    | .on => logical
    | .lazy => if looksEncrypted (raw.take headerLen) then logical else .ok raw.length

variable {mode : BlockEncryptionMode} {store : BlockStorage BlockId}

theorem blockSize_exact {id : BlockId} {data : List UInt8} {size : Int}
    (read : readBlock cipher mode store id = .ok data)
    (sized : blockSize mode store id = .ok size) : size = data.length := by
  unfold readBlock at read
  unfold blockSize at sized
  cases found : store.readBlock id with
  | none => simp [found] at read
  | some raw =>
    rw [found] at read sized
    simp only [plaintextLen_take, looksEncrypted_take] at sized
    -- A block that is decrypted has the size that its format gives.
    have decrypts : (cipher.decrypt raw).elim (.error .invalidData) .ok =
        (.ok data : Except IoErrorKind (List UInt8)) →
        (plaintextLen raw raw.length).elim (.error .invalidData) (fun size => .ok (size : Int)) =
          (.ok size : Except IoErrorKind Int) → size = data.length := by
      intro decrypted counted
      cases plain : cipher.decrypt raw with
      | none => simp [plain] at decrypted
      | some plaintext =>
        cases counts : plaintextLen raw raw.length with
        | none => simp [counts] at counted
        | some count =>
          rw [plain] at decrypted
          rw [counts] at counted
          cases decrypted
          cases counted
          exact congrArg Int.ofNat (cipher.plaintextLen_of_decrypt plain counts)
    cases mode with
    | off =>
      cases read
      cases sized
      rfl
    | on => exact decrypts read sized
    | lazy =>
      simp only [decryptOffload] at read
      dsimp only at sized
      split at read
      · rename_i looks
        rw [if_pos looks] at sized
        exact decrypts read sized
      · rename_i plain
        rw [if_neg plain] at sized
        cases read
        cases sized
        rfl

theorem blockSize_isOk {id : BlockId} {data : List UInt8}
    (read : readBlock cipher mode store id = .ok data) :
    ∃ size, blockSize mode store id = .ok size := by
  unfold readBlock at read
  unfold blockSize
  cases found : store.readBlock id with
  | none => simp [found] at read
  | some raw =>
    rw [found] at read
    simp only [plaintextLen_take, looksEncrypted_take]
    have sized : (cipher.decrypt raw).elim (.error .invalidData) .ok =
        (.ok data : Except IoErrorKind (List UInt8)) →
        ∃ size, (plaintextLen raw raw.length).elim (.error .invalidData)
          (fun size => .ok (size : Int)) = (.ok size : Except IoErrorKind Int) := by
      intro decrypted
      cases plain : cipher.decrypt raw with
      | none => simp [plain] at decrypted
      | some plaintext =>
        obtain ⟨size, counts⟩ := Option.isSome_iff_exists.mp (cipher.plaintextLen_isSome plain)
        exact ⟨size, by rw [counts]; rfl⟩
    cases mode with
    | off => exact ⟨_, rfl⟩
    | on => exact sized read
    | lazy =>
      simp only [decryptOffload] at read
      dsimp only
      split at read
      · rename_i looks
        rw [if_pos looks]
        exact sized read
      · rename_i plain
        exact ⟨_, if_neg plain⟩

/-- The size that is told for a block is that of the bytes that are read. -/
theorem blockSize_of_readBlock {mode : BlockEncryptionMode} {store : BlockStorage BlockId}
    {id : BlockId} {data : List UInt8} (read : readBlock cipher mode store id = .ok data) :
    blockSize mode store id = .ok (data.length : Int) := by
  obtain ⟨size, sized⟩ := blockSize_isOk cipher read
  rw [sized, blockSize_exact cipher read sized]

/-- A legacy ciphertext of three bytes in mode on. -/
theorem legacy_block_sized :
    blockSize .on ((BlockStorage.empty : BlockStorage Unit).putFile () (tagOnly.encryptBody [1, 2, 3]))
      () = .ok 3 :=
  @blockSize_of_readBlock _ tagOnly .on
    ((BlockStorage.empty : BlockStorage Unit).putFile () (tagOnly.encryptBody [1, 2, 3])) ()
    [1, 2, 3] (by decide)

def backend (mode : BlockEncryptionMode) (store : BlockStorage BlockId) :
    BlockStorageBackend BlockId where
  readBlock id := (readBlock cipher mode store id).mapError IoErrorKind.text
  blockSize id := (blockSize mode store id).mapError IoErrorKind.text
  logicalSizesAreExact := true
  sizes_exact := by
    intro _ id data size read sized
    exact blockSize_exact cipher (mapError_eq_ok_iff.mp read) (mapError_eq_ok_iff.mp sized)

end EncryptingBlockStore

end Nanofile
