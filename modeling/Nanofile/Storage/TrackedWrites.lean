import Nanofile.Storage.AtRestReads

/-!
# What a tracked write reports as new

A tracked write compares the length of the bytes it is about to store with that of the file.  A
block that is stored whole in another format has another length, so it is replaced and reported
as new, and an upload that gives up removes it.
-/

set_option autoImplicit false

namespace Nanofile

open BlockStorage

universe u

namespace EncryptingBlockStore

variable {BlockId : Type u} [DecidableEq BlockId] (cipher : BlockCipher)

/-- What a write of these bytes stores: with encryption off there is no decorator. -/
def storedBytes (mode : BlockEncryptionMode) (data : List UInt8) : List UInt8 :=
  match mode with
  | .off => data
  | .on | .lazy => cipher.encrypt data

def writeTracked (mode : BlockEncryptionMode) (store : BlockStorage BlockId) (id : BlockId)
    (data : List UInt8) : BlockStorage BlockId × Bool :=
  store.writeBlockWithIdTracked id (storedBytes cipher mode data)

inductive StoreOp (BlockId : Type u) where
  | hasBlock (id : BlockId)
  | blockSize (id : BlockId)
  | write (writer : Writer) (id : BlockId) (data : List UInt8)
  | convert (id : BlockId)
  | remove (id : BlockId)
  /-- A cached length expires or is dropped. -/
  | forget (id : BlockId)
  /-- The server is started again, in this mode. -/
  | restart (mode : BlockEncryptionMode)

structure BlockServer (BlockId : Type u) where
  mode : BlockEncryptionMode
  store : BlockStorage BlockId

def statFile (store : BlockStorage BlockId) (id : BlockId) : BlockStorage BlockId :=
  match store.files id with
  | none => store
  | some stored => store.existsCacheInsert id stored.length

def serveOp (server : BlockServer BlockId) : StoreOp BlockId → BlockServer BlockId
  | .hasBlock id =>
    if (server.store.existsCache id).isSome then server
    else { server with store := statFile server.store id }
  | .blockSize id => { server with store := statFile server.store id }
  | .write writer id data =>
    { server with store := writer.write server.store id (storedBytes cipher server.mode data) }
  | .convert id =>
    -- Without the decorator a conversion is the trait's default, which does nothing.
    if server.mode = .off then server
    else { server with store := convertLegacyBlock cipher server.store id }
  | .remove id => { server with store := server.store.removeBlock id }
  | .forget id => { server with store := server.store.existsCacheRemove id }
  | .restart mode => ⟨mode, ⟨server.store.files, fun _ => none⟩⟩

/-- The server after a history that began with these files. -/
def servedBy (mode : BlockEncryptionMode) (files : BlockId → Option (List UInt8))
    (ops : List (StoreOp BlockId)) : BlockServer BlockId :=
  ops.foldl (serveOp cipher) ⟨mode, ⟨files, fun _ => none⟩⟩

section Agreement

variable {store : BlockStorage BlockId} {cipher}

theorem statFile_agrees (id : BlockId) (agrees : store.Agrees) : (statFile store id).Agrees := by
  unfold statFile
  split
  · exact agrees
  · rename_i stored found
    exact existsCacheInsert_agrees agrees found

theorem removeBlock_agrees (id : BlockId) (agrees : store.Agrees) :
    (store.removeBlock id).Agrees := by
  intro other length cached
  simp only [BlockStorage.removeBlock, BlockStorage.existsCacheRemove, BlockStorage.unlink]
    at cached ⊢
  by_cases same : other = id
  · subst same
    simp at cached
  · rw [Function.update_of_ne same] at cached ⊢
    exact agrees other length cached

theorem write_agrees (writer : Writer) (id : BlockId) (data : List UInt8) (agrees : store.Agrees) :
    (writer.write store id data).Agrees := by
  cases writer with
  | plain => exact (writeBlockWithId_spec id data agrees).agrees
  | tracked => exact (writeBlockWithIdTracked_spec id data agrees).agrees
  | force => exact (writeBlockWithIdForce_spec id data agrees).agrees

theorem serveOp_agrees (server : BlockServer BlockId) (op : StoreOp BlockId)
    (agrees : server.store.Agrees) : (serveOp cipher server op).store.Agrees := by
  cases op with
  | hasBlock id =>
    simp only [serveOp]
    split
    · exact agrees
    · exact statFile_agrees id agrees
  | blockSize id => exact statFile_agrees id agrees
  | write writer id data => exact write_agrees writer id _ agrees
  | convert id =>
    simp only [serveOp]
    split
    · exact agrees
    · exact (convertLegacyBlock_spec cipher id agrees).1
  | remove id => exact removeBlock_agrees id agrees
  | forget id => exact existsCacheRemove_agrees agrees
  | restart mode => exact nofun

theorem serveAll_agrees (ops : List (StoreOp BlockId)) (server : BlockServer BlockId)
    (agrees : server.store.Agrees) : (ops.foldl (serveOp cipher) server).store.Agrees := by
  induction ops generalizing server with
  | nil => exact agrees
  | cons op rest ih => exact ih _ (serveOp_agrees server op agrees)

theorem servedBy_agrees (mode : BlockEncryptionMode) (files : BlockId → Option (List UInt8))
    (ops : List (StoreOp BlockId)) : (servedBy cipher mode files ops).store.Agrees :=
  serveAll_agrees ops _ nofun

end Agreement

/-- The block is stored whole, and can be read, in a format other than the one that is written. -/
def StoredOtherwise (mode : BlockEncryptionMode) (file : Option (List UInt8))
    (data : List UInt8) : Prop :=
  match mode with
  | .off => False
  | .on => file = some (cipher.encryptBody data) ∧ looksEncrypted (cipher.encryptBody data) = false
  | .lazy => file = some data ∧ looksEncrypted data = false

section Tracked

variable {cipher} {store : BlockStorage BlockId} {id : BlockId} {data : List UInt8}
  {mode : BlockEncryptionMode}

/-- A tracked write reports a new block unless it trusts the cache or finds a file as long as
what it writes. -/
theorem writeBlockWithIdTracked_new (agrees : store.Agrees) :
    (store.writeBlockWithIdTracked id data).2 = true ↔
      ∀ stored, store.files id = some stored → stored.length ≠ data.length := by
  unfold BlockStorage.writeBlockWithIdTracked
  split
  · rename_i cached
    obtain ⟨stored, found, sameLength⟩ := agrees id _ cached
    refine iff_of_false (by simp) fun differ => differ stored found sameLength
  · cases found : store.files id with
    | none => simp [BlockStorage.storeBlock, found]
    | some stored =>
      by_cases sameLength : stored.length = data.length
      · simp [BlockStorage.storeBlock, found, sameLength]
      · simp [sameLength]

variable {raw : List UInt8}

theorem eq_encrypt_of_decrypt (looks : looksEncrypted raw = true)
    (decrypted : cipher.decrypt raw = some data) : raw = cipher.encrypt data := by
  rw [BlockCipher.decrypt, if_pos looks] at decrypted
  split at decrypted
  · cases decrypted
  · rename_i active
    have isBody := cipher.authentic _ _ decrypted
    obtain ⟨long, isMagic⟩ := Bool.and_eq_true_iff.mp looks
    have isMagic : raw.take 4 = magic := beq_iff_eq.mp isMagic
    have long : 6 ≤ raw.length := of_decide_eq_true long
    have isKey : (raw.drop 4).take 2 = [0, 0] := by
      rw [List.drop_eq_getElem_cons (by omega), List.drop_eq_getElem_cons (i := 4 + 1) (by omega)]
      have zero : keyIdOf raw = 0 := not_not.mp active
      rw [keyIdOf, List.getD_eq_getElem?_getD, List.getD_eq_getElem?_getD,
        List.getElem?_eq_getElem (by omega), List.getElem?_eq_getElem (by omega)] at zero
      simp only [Option.getD_some] at zero
      have first : raw[4] = 0 := UInt8.toNat_inj.mp (by simpa using (by omega : raw[4].toNat = 0))
      have second : raw[5] = 0 := UInt8.toNat_inj.mp (by simpa using (by omega : raw[5].toNat = 0))
      simp only [List.take_succ_cons, List.take_zero, first, second]
    have parts : raw = raw.take 4 ++ (raw.drop 4).take 2 ++ raw.drop headerLen := by
      have tail : raw.drop 4 = (raw.drop 4).take 2 ++ raw.drop headerLen := by
        rw [show headerLen = 4 + 2 from rfl, ← List.drop_drop, List.take_append_drop]
      rw [List.append_assoc, ← tail, List.take_append_drop]
    rw [parts, isMagic, isKey, isBody]
    rfl

theorem decrypt_eq_some_iff :
    cipher.decrypt raw = some data ↔
      raw = cipher.encrypt data ∨
        raw = cipher.encryptBody data ∧ looksEncrypted (cipher.encryptBody data) = false := by
  constructor
  · intro decrypted
    cases looks : looksEncrypted raw with
    | true => exact Or.inl (eq_encrypt_of_decrypt looks decrypted)
    | false =>
      have isBody := cipher.authentic _ _ (cipher.decrypt_of_headerless looks ▸ decrypted)
      exact Or.inr ⟨isBody, isBody ▸ looks⟩
  · rintro (rfl | ⟨rfl, headerless⟩)
    · exact cipher.decrypt_encrypt data
    · rw [cipher.decrypt_of_headerless headerless]
      exact cipher.decrypt_encryptBody data

theorem decryptOffload_ok_iff :
    decryptOffload cipher mode raw = .ok data ↔
      raw = storedBytes cipher mode data ∨ StoredOtherwise cipher mode (some raw) data := by
  have opened : ∀ plaintext : Option (List UInt8),
      plaintext.elim (.error .invalidData) .ok = (.ok data : Except IoErrorKind (List UInt8)) ↔
        plaintext = some data := by
    intro plaintext
    cases plaintext <;> simp
  cases mode with
  | off => simp [decryptOffload, storedBytes, StoredOtherwise]
  | on =>
    simp only [decryptOffload, storedBytes, StoredOtherwise, opened, decrypt_eq_some_iff,
      Option.some.injEq]
  | lazy =>
    simp only [decryptOffload, storedBytes, StoredOtherwise, Option.some.injEq]
    split
    · rename_i looks
      rw [opened]
      constructor
      · exact fun decrypted => Or.inl (eq_encrypt_of_decrypt looks decrypted)
      · rintro (rfl | ⟨rfl, plain⟩)
        · exact cipher.decrypt_encrypt data
        · rw [looks] at plain
          cases plain
    · rename_i plain
      have plain : looksEncrypted raw = false := by simpa using plain
      rw [Except.ok.injEq]
      constructor
      · rintro rfl
        exact Or.inr ⟨rfl, plain⟩
      · rintro (rfl | ⟨same, -⟩)
        · rw [cipher.looksEncrypted_encrypt] at plain
          cases plain
        · exact same

theorem length_ne_of_storedOtherwise (otherwise : StoredOtherwise cipher mode (some raw) data) :
    raw.length ≠ (storedBytes cipher mode data).length := by
  have positive : 0 < tagLen ∧ 0 < headerLen := by decide
  cases mode with
  | off => exact otherwise.elim
  | on =>
    obtain rfl := Option.some.inj otherwise.1
    rw [storedBytes, cipher.length_encrypt, cipher.length_encryptBody]
    omega
  | lazy =>
    obtain rfl := Option.some.inj otherwise.1
    rw [storedBytes, cipher.length_encrypt]
    omega

/-- What is reported as new could not be read, unless it is stored in another format. -/
theorem writeTracked_new_iff (agrees : store.Agrees) :
    ((writeTracked cipher mode store id data).2 = true →
        readBlock cipher mode store id ≠ .ok data) ↔
      ¬ StoredOtherwise cipher mode (store.files id) data := by
  rw [writeTracked, writeBlockWithIdTracked_new agrees]
  unfold readBlock BlockStorage.readBlock
  constructor
  · intro unread otherwise
    cases found : store.files id with
    | none =>
      rw [found] at otherwise
      cases mode with
      | off => exact otherwise
      | on | lazy => cases otherwise.1
    | some raw =>
      rw [found] at otherwise unread
      refine unread (fun stored same => ?_) (decryptOffload_ok_iff.mpr (Or.inr otherwise))
      obtain rfl := Option.some.inj same
      exact length_ne_of_storedOtherwise otherwise
  · intro notOtherwise longer readable
    cases found : store.files id with
    | none => simp [found] at readable
    | some raw =>
      rw [found] at readable notOtherwise
      rcases decryptOffload_ok_iff.mp readable with rfl | otherwise
      · exact longer _ found rfl
      · exact notOtherwise otherwise

end Tracked

/-- The tracked writes of a request, and the blocks they report as new. -/
def uploadBlocks (mode : BlockEncryptionMode) (content : BlockId → List UInt8) :
    BlockStorage BlockId → List BlockId → BlockStorage BlockId × List BlockId
  | store, [] => (store, [])
  | store, id :: rest =>
    let (written, wasNew) := writeTracked cipher mode store id (content id)
    let (after, newBlockIds) := uploadBlocks mode content written rest
    (after, if wasNew then id :: newBlockIds else newBlockIds)

/-- The cleanup of a request over quota. -/
def removeNewBlocks (store : BlockStorage BlockId) (newBlockIds : List BlockId) :
    BlockStorage BlockId :=
  newBlockIds.foldl BlockStorage.removeBlock store

/-- The store after an upload that wrote these blocks and then gave up. -/
def uploadGivenUp (mode : BlockEncryptionMode) (content : BlockId → List UInt8)
    (store : BlockStorage BlockId) (ids : List BlockId) : BlockStorage BlockId :=
  let (after, newBlockIds) := uploadBlocks cipher mode content store ids
  removeNewBlocks after newBlockIds

section Upload

variable {cipher} {mode : BlockEncryptionMode} {content : BlockId → List UInt8}
  {store : BlockStorage BlockId}

theorem removeNewBlocks_files (newBlockIds : List BlockId) (store : BlockStorage BlockId)
    (other : BlockId) :
    (removeNewBlocks store newBlockIds).files other =
      if other ∈ newBlockIds then none else store.files other := by
  induction newBlockIds generalizing store with
  | nil => rfl
  | cons id rest ih =>
    rw [removeNewBlocks, List.foldl_cons, ← removeNewBlocks, ih]
    simp only [BlockStorage.removeBlock, BlockStorage.existsCacheRemove, BlockStorage.unlink,
      List.mem_cons]
    by_cases same : other = id
    · subst same
      simp
    · simp [same]

theorem length_deduplicated (file : Option (List UInt8)) (data : List UInt8) :
    (BlockStorage.deduplicated file data).length = data.length := by
  unfold BlockStorage.deduplicated
  split
  · split
    · assumption
    · rfl
  · rfl

theorem mem_uploadBlocks_cons (id : BlockId) (rest : List BlockId) (other : BlockId) :
    other ∈ (uploadBlocks cipher mode content store (id :: rest)).2 ↔
      other = id ∧ (writeTracked cipher mode store id (content id)).2 = true ∨
        other ∈ (uploadBlocks cipher mode content
          (writeTracked cipher mode store id (content id)).1 rest).2 := by
  simp only [uploadBlocks]
  split <;> simp_all

/-- A block is reported as new when no file of the stored length was there, and a block that is
not reported keeps its file. -/
theorem uploadBlocks_spec (ids : List BlockId) (agrees : store.Agrees) (other : BlockId) :
    (other ∈ (uploadBlocks cipher mode content store ids).2 ↔
        other ∈ ids ∧ ∀ stored, store.files other = some stored →
          stored.length ≠ (storedBytes cipher mode (content other)).length) ∧
      (other ∉ (uploadBlocks cipher mode content store ids).2 →
        (uploadBlocks cipher mode content store ids).1.files other = store.files other) := by
  induction ids generalizing store with
  | nil => simp [uploadBlocks]
  | cons id rest ih =>
    have wrote : store.Wrote id
        (BlockStorage.deduplicated (store.files id) (storedBytes cipher mode (content id)))
        (writeTracked cipher mode store id (content id)).1 :=
      writeBlockWithIdTracked_spec id _ agrees
    obtain ⟨later, kept⟩ := ih wrote.agrees
    rw [mem_uploadBlocks_cons]
    rw [wrote.files] at later kept
    by_cases same : other = id
    · -- The block now has its length, so the rest of the request finds it there.
      subst same
      have notLater : other ∉ (uploadBlocks cipher mode content
          (writeTracked cipher mode store other (content other)).1 rest).2 := by
        intro reported
        exact (later.mp reported).2 _ (Function.update_self ..) (length_deduplicated ..)
      have kept := kept notLater
      have isNew : (writeTracked cipher mode store other (content other)).2 = true ↔ _ :=
        writeBlockWithIdTracked_new agrees
      simp only [notLater, or_false, List.mem_cons, true_or, true_and]
      refine ⟨isNew, fun notNew => ?_⟩
      rw [isNew, not_forall] at notNew
      obtain ⟨stored, found⟩ := notNew
      obtain ⟨found, sameLength⟩ := not_forall.mp found
      rw [uploadBlocks, kept, Function.update_self, found, BlockStorage.deduplicated,
        if_pos (not_not.mp sameLength)]
    · rw [Function.update_of_ne same] at later kept
      simp only [same, false_and, false_or, List.mem_cons]
      exact ⟨later, kept⟩

/-- An upload that gives up leaves every block that could be read, unless it found one stored in
another format. -/
theorem uploadGivenUp_keeps_iff (ids : List BlockId) (agrees : store.Agrees) :
    (∀ id, readBlock cipher mode store id = .ok (content id) →
        readBlock cipher mode (uploadGivenUp cipher mode content store ids) id =
          .ok (content id)) ↔
      ∀ id ∈ ids, ¬ StoredOtherwise cipher mode (store.files id) (content id) := by
  have files (id : BlockId) : (uploadGivenUp cipher mode content store ids).files id =
      if id ∈ (uploadBlocks cipher mode content store ids).2 then none else store.files id := by
    rw [uploadGivenUp, removeNewBlocks_files]
    split
    · rfl
    · exact (uploadBlocks_spec ids agrees id).2 ‹_›
  constructor
  · intro keeps id written otherwise
    cases found : store.files id with
    | none =>
      rw [found] at otherwise
      cases mode with
      | off => exact otherwise
      | on | lazy => cases otherwise.1
    | some raw =>
      rw [found] at otherwise
      have readable : readBlock cipher mode store id = .ok (content id) := by
        rw [readBlock, BlockStorage.readBlock, found]
        exact decryptOffload_ok_iff.mpr (Or.inr otherwise)
      have reported : id ∈ (uploadBlocks cipher mode content store ids).2 := by
        refine (uploadBlocks_spec ids agrees id).1.mpr ⟨written, fun stored same => ?_⟩
        obtain rfl := Option.some.inj (found.symm.trans same)
        exact length_ne_of_storedOtherwise otherwise
      have gone := keeps id readable
      rw [readBlock, BlockStorage.readBlock, files, if_pos reported] at gone
      cases gone
  · intro notOtherwise id readable
    have notReported : id ∉ (uploadBlocks cipher mode content store ids).2 := by
      intro reported
      obtain ⟨written, longer⟩ := (uploadBlocks_spec ids agrees id).1.mp reported
      exact (writeTracked_new_iff agrees).mpr (notOtherwise id written)
        ((writeBlockWithIdTracked_new agrees).mpr longer) readable
    rwa [readBlock, BlockStorage.readBlock, files, if_neg notReported]

end Upload

section Claims

/-- A tracked write reports as new a block that could not be read, and giving an upload up
removes no block that could be read, unless the block is stored in another format. -/
theorem tracked_new_iff (mode : BlockEncryptionMode) (files : BlockId → Option (List UInt8))
    (ops : List (StoreOp BlockId)) (content : BlockId → List UInt8) (ids : List BlockId) :
    let server := servedBy cipher mode files ops
    (∀ id data,
      ((writeTracked cipher server.mode server.store id data).2 = true →
        readBlock cipher server.mode server.store id ≠ .ok data) ↔
      ¬ StoredOtherwise cipher server.mode (server.store.files id) data) ∧
    ((∀ id, readBlock cipher server.mode server.store id = .ok (content id) →
        readBlock cipher server.mode
          (uploadGivenUp cipher server.mode content server.store ids) id = .ok (content id)) ↔
      ∀ id ∈ ids, ¬ StoredOtherwise cipher server.mode (server.store.files id) (content id)) := by
  have agrees : (servedBy cipher mode files ops).store.Agrees := servedBy_agrees mode files ops
  exact ⟨fun id data => writeTracked_new_iff agrees, uploadGivenUp_keeps_iff ids agrees⟩

/-- A block kept as a ciphertext without a header is rewritten with one, reported as new and
removed again, although it could be read. -/
theorem headerless_block_removed :
    ¬ ∀ (cipher : BlockCipher) (mode : BlockEncryptionMode)
      (files : Unit → Option (List UInt8)) (ops : List (StoreOp Unit))
      (content : Unit → List UInt8) (ids : List Unit),
      let server := servedBy cipher mode files ops
      (∀ id data, (writeTracked cipher server.mode server.store id data).2 = true →
        readBlock cipher server.mode server.store id ≠ .ok data) ∧
      ∀ id, readBlock cipher server.mode server.store id = .ok (content id) →
        readBlock cipher server.mode
          (uploadGivenUp cipher server.mode content server.store ids) id = .ok (content id) := by
  intro all
  obtain ⟨reported, -⟩ := all tagOnly .on (fun _ => some (tagOnly.encryptBody [1, 2, 3])) []
    (fun _ => [1, 2, 3]) [()]
  exact reported () [1, 2, 3] rfl rfl

end Claims

end EncryptingBlockStore

end Nanofile
