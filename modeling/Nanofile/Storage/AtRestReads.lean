import Mathlib.Data.List.Induction
import Nanofile.Storage.AtRest

/-!
# Reading a block while encryption is being switched on

A block is kept in its first format, converted from it or rewritten, and the file
holds exactly what that phase says.  From the phase follows which blocks a store in
lazy mode, or later in mode on, can read.
-/

set_option autoImplicit false

namespace Nanofile

namespace EncryptingBlockStore

universe u

variable {raw : List UInt8}

section Stored

variable (cipher : BlockCipher) (bytes : List UInt8)

theorem convertedBytes_of_looksEncrypted (looks : looksEncrypted raw = true) :
    convertedBytes cipher raw = raw := if_pos looks

theorem looksEncrypted_convertedBytes (raw : List UInt8) :
    looksEncrypted (convertedBytes cipher raw) = true := by
  unfold convertedBytes
  split
  · assumption
  · exact cipher.looksEncrypted_encrypt _

theorem convertedBytes_idem (raw : List UInt8) :
    convertedBytes cipher (convertedBytes cipher raw) = convertedBytes cipher raw :=
  convertedBytes_of_looksEncrypted cipher (looksEncrypted_convertedBytes cipher raw)

theorem convertedBytes_encrypt :
    convertedBytes cipher (cipher.encrypt bytes) = cipher.encrypt bytes :=
  convertedBytes_of_looksEncrypted cipher (cipher.looksEncrypted_encrypt bytes)

theorem convertedBytes_plaintext (looks : looksEncrypted bytes = false)
    (isPlain : cipher.decryptBody bytes = none) :
    convertedBytes cipher bytes = cipher.encrypt bytes := by
  rw [convertedBytes, looks, cipher.decrypt_of_headerless looks, isPlain]
  rfl

theorem convertedBytes_headerless (looks : looksEncrypted (cipher.encryptBody bytes) = false) :
    convertedBytes cipher (cipher.encryptBody bytes) = cipher.encrypt bytes := by
  rw [convertedBytes, looks, cipher.decrypt_of_headerless looks, cipher.decrypt_encryptBody]
  rfl

theorem encode_of_length {stored : Format} (format : Format)
    (sameLength :
      (stored.encode cipher bytes).length = (format.encode cipher bytes).length) :
    stored.encode cipher bytes = format.encode cipher bytes := by
  have positive : 0 < headerLen ∧ 0 < tagLen := by decide
  cases stored <;> cases format <;>
    simp only [Format.encode, cipher.length_encryptBody, cipher.length_encrypt] at sameLength ⊢ <;>
    omega

theorem converted_of_length {format : Format}
    (sameLength : (convertedBytes cipher (format.encode cipher bytes)).length =
      (cipher.encrypt bytes).length) :
    convertedBytes cipher (format.encode cipher bytes) = cipher.encrypt bytes := by
  by_cases looks : looksEncrypted (format.encode cipher bytes) = true
  · rw [convertedBytes_of_looksEncrypted cipher looks] at sameLength ⊢
    exact encode_of_length cipher bytes .versioned sameLength
  · rw [Bool.not_eq_true] at looks
    cases format with
    | plaintext =>
      cases opened : cipher.decryptBody bytes with
      | none => exact convertedBytes_plaintext cipher bytes looks opened
      | some inner =>
        have positive : 0 < tagLen := by decide
        have length := cipher.length_of_decrypt
          ((cipher.decrypt_of_headerless looks).trans opened)
        simp only [Format.encode] at looks length
        rw [Format.encode, convertedBytes, looks, cipher.decrypt_of_headerless looks, opened]
          at sameLength
        simp only [Bool.false_eq_true, if_false, Option.getD_some, cipher.length_encrypt]
          at sameLength
        omega
    | headerless => exact convertedBytes_headerless cipher bytes looks
    | versioned => exact convertedBytes_encrypt cipher bytes

end Stored

section Runs

variable {BlockId : Type u} [DecidableEq BlockId] {cipher : BlockCipher}
  {content : BlockId → List UInt8} {store : BlockStorage BlockId}

theorem Writer.write_spec (writer : Writer) (id : BlockId) (data : List UInt8)
    (agrees : store.Agrees)
    (same : ∀ stored, store.files id = some stored → stored.length = data.length →
      stored = data) :
    store.Wrote id data (writer.write store id data) := by
  have whole : BlockStorage.deduplicated (store.files id) data = data := by
    unfold BlockStorage.deduplicated
    split
    · rename_i stored found
      split
      · exact same stored found ‹_›
      · rfl
    · rfl
  cases writer with
  | plain =>
    have wrote := BlockStorage.writeBlockWithId_spec id data agrees
    rwa [whole] at wrote
  | tracked =>
    have wrote := BlockStorage.writeBlockWithIdTracked_spec id data agrees
    rwa [whole] at wrote
  | force => exact BlockStorage.writeBlockWithIdForce_spec id data agrees

theorem convertLegacyBlock_spec (cipher : BlockCipher) (id : BlockId) (agrees : store.Agrees) :
    (convertLegacyBlock cipher store id).Agrees ∧
      (convertLegacyBlock cipher store id).files =
        Function.update store.files id ((store.files id).map (convertedBytes cipher)) := by
  unfold convertLegacyBlock
  split
  · rename_i absent
    have same : store.files id = none := absent
    refine ⟨agrees, ?_⟩
    rw [same, Option.map_none, ← same, Function.update_eq_self]
  · rename_i raw found
    have same : store.files id = some raw := found
    rw [same, Option.map_some]
    split
    · rename_i looks
      refine ⟨agrees, ?_⟩
      rw [convertedBytes_of_looksEncrypted cipher looks, ← same, Function.update_eq_self]
    · rename_i headerless
      have wrote := BlockStorage.writeBlockWithIdForce_spec id
        (cipher.encrypt ((cipher.decrypt raw).getD raw)) agrees
      rw [convertedBytes, if_neg headerless]
      exact ⟨wrote.agrees, wrote.files⟩

theorem firstStore_spec (written : List (FirstOp BlockId)) :
    (firstStore cipher content written).Agrees ∧
      ∀ id, (firstStore cipher content written).files id =
        (lastFormat written id).map (Format.encode cipher (content id)) := by
  induction written using List.reverseRecOn with
  | nil => exact ⟨BlockStorage.agrees_empty, fun _ => rfl⟩
  | append_singleton written op ih =>
    obtain ⟨agrees, files⟩ := ih
    rw [firstStore, List.foldl_concat, ← firstStore]
    cases op with
    | forget id =>
      refine ⟨BlockStorage.existsCacheRemove_agrees agrees, fun other => ?_⟩
      rw [lastFormat, List.foldl_concat, ← lastFormat]
      exact files other
    | write writer format id =>
      have wrote := Writer.write_spec writer id (format.encode cipher (content id)) agrees (by
          intro stored found sameLength
          rw [files id, Option.map_eq_some_iff] at found
          obtain ⟨earlier, -, rfl⟩ := found
          exact encode_of_length cipher (content id) format sameLength)
      refine ⟨wrote.agrees, fun other => ?_⟩
      rw [lastFormat, List.foldl_concat, ← lastFormat, firstStep, wrote.files]
      by_cases same : id = other
      · subst same
        rw [Function.update_self]
        simp
      · rw [Function.update_of_ne (Ne.symm same), files other]
        simp [same]

/-- What has happened to a block since the switch. -/
inductive Phase where
  | kept
  | converted
  | rewritten
deriving DecidableEq

def Phase.next (phase : Phase) (id : BlockId) : LazyOp BlockId → Phase
  | .read _ => phase
  | .rewrite _ other => if other = id then .rewritten else phase
  | .convert other => if other = id ∧ phase = .kept then .converted else phase
  | .forget _ => phase

/-- The file of a block first written in this format. -/
def Phase.bytes (cipher : BlockCipher) (bytes : List UInt8) (format : Option Format) :
    Phase → Option (List UInt8)
  | .kept => format.map (Format.encode cipher bytes)
  | .converted => format.map fun format => convertedBytes cipher (format.encode cipher bytes)
  | .rewritten => some (cipher.encrypt bytes)

def phaseAfter (ops : List (LazyOp BlockId)) (id : BlockId) : Phase :=
  ops.foldl (fun phase op => phase.next id op) .kept

theorem Phase.of_length {phase : Phase} {bytes stored : List UInt8} {format : Option Format}
    (found : phase.bytes cipher bytes format = some stored)
    (sameLength : stored.length = (cipher.encrypt bytes).length) :
    stored = cipher.encrypt bytes := by
  cases phase with
  | kept =>
    obtain ⟨first, -, rfl⟩ := Option.map_eq_some_iff.mp found
    exact encode_of_length cipher bytes .versioned sameLength
  | converted =>
    obtain ⟨first, -, rfl⟩ := Option.map_eq_some_iff.mp found
    exact converted_of_length cipher bytes sameLength
  | rewritten => exact (Option.some.inj found).symm

theorem Phase.bytes_convert (phase : Phase) (bytes : List UInt8) (format : Option Format) :
    (phase.bytes cipher bytes format).map (convertedBytes cipher) =
      (if phase = .kept then Phase.converted else phase).bytes cipher bytes format := by
  cases phase with
  | kept =>
    simp only [Phase.bytes, if_true, Option.map_map]
    rfl
  | converted =>
    simp only [Phase.bytes, reduceCtorEq, if_false, Option.map_map, Function.comp_def,
      convertedBytes_idem]
  | rewritten =>
    simp only [Phase.bytes, reduceCtorEq, if_false, Option.map_some, convertedBytes_encrypt]

theorem lazyStore_spec (cipher : BlockCipher) (content : BlockId → List UInt8)
    (written : List (FirstOp BlockId)) (ops : List (LazyOp BlockId)) :
    (lazyStore cipher content written ops).Agrees ∧
      ∀ id, (lazyStore cipher content written ops).files id =
        (phaseAfter ops id).bytes cipher (content id) (lastFormat written id) := by
  induction ops using List.reverseRecOn with
  | nil => exact firstStore_spec written
  | append_singleton ops op ih =>
    obtain ⟨agrees, files⟩ := ih
    have steps : ∀ id, phaseAfter (ops ++ [op]) id = (phaseAfter ops id).next id op := by
      intro id
      rw [phaseAfter, List.foldl_concat, ← phaseAfter]
    simp only [steps]
    rw [lazyStore, List.foldl_concat, ← lazyStore]
    cases op with
    | read id => exact ⟨agrees, files⟩
    | forget id => exact ⟨BlockStorage.existsCacheRemove_agrees agrees, files⟩
    | rewrite writer id =>
      have wrote := Writer.write_spec writer id (cipher.encrypt (content id)) agrees (by
          intro stored found sameLength
          rw [files id] at found
          exact Phase.of_length found sameLength)
      refine ⟨wrote.agrees, fun other => ?_⟩
      rw [lazyStep, wrote.files]
      by_cases same : id = other
      · subst same
        rw [Function.update_self, Phase.next, if_pos rfl]
        rfl
      · rw [Function.update_of_ne (Ne.symm same), Phase.next, if_neg same]
        exact files other
    | convert id =>
      obtain ⟨agrees', converted⟩ := convertLegacyBlock_spec cipher id agrees
      refine ⟨agrees', fun other => ?_⟩
      rw [lazyStep, converted]
      by_cases same : id = other
      · subst same
        rw [Function.update_self, files id, Phase.bytes_convert]
        simp [Phase.next]
      · rw [Function.update_of_ne (Ne.symm same), Phase.next, if_neg (fun both => same both.1)]
        exact files other

theorem phaseAfter_rewritten_iff (ops : List (LazyOp BlockId)) (id : BlockId) :
    phaseAfter ops id = .rewritten ↔ ∃ writer, .rewrite writer id ∈ ops := by
  induction ops using List.reverseRecOn with
  | nil => simp [phaseAfter]
  | append_singleton ops op ih =>
    rw [phaseAfter, List.foldl_concat, ← phaseAfter]
    simp only [List.mem_append, List.mem_singleton, exists_or, ← ih]
    cases op with
    | read other | forget other => simp [Phase.next]
    | rewrite writer other =>
      by_cases same : other = id
      · simp [Phase.next, same]
      · simp [Phase.next, same, Ne.symm same]
    | convert other =>
      by_cases first : other = id ∧ phaseAfter ops id = .kept
      · simp [Phase.next, first]
      · simp [Phase.next, first]

theorem phaseAfter_kept_iff (ops : List (LazyOp BlockId)) (id : BlockId) :
    phaseAfter ops id = .kept ↔
      (¬ ∃ writer, .rewrite writer id ∈ ops) ∧ .convert id ∉ ops := by
  induction ops using List.reverseRecOn with
  | nil => simp [phaseAfter]
  | append_singleton ops op ih =>
    rw [phaseAfter, List.foldl_concat, ← phaseAfter]
    simp only [List.mem_append, List.mem_singleton, exists_or, not_or]
    cases op with
    | read other | forget other => simpa [Phase.next] using ih
    | rewrite writer other =>
      by_cases same : other = id
      · simp [Phase.next, same]
      · simpa [Phase.next, same, Ne.symm same] using ih
    | convert other =>
      by_cases same : other = id
      · by_cases kept : phaseAfter ops id = .kept
        · simp [Phase.next, same, kept]
        · simp [Phase.next, same, kept]
      · simpa [Phase.next, same, Ne.symm same] using ih

end Runs

variable {mode : BlockEncryptionMode}

section Reading

variable (cipher : BlockCipher) (bytes : List UInt8)

/-- The store decrypts what it reads. -/
def Decrypts (mode : BlockEncryptionMode) : Prop := mode = .on ∨ mode = .lazy

theorem decryptOffload_versioned_iff (decrypts : Decrypts mode)
    (looks : looksEncrypted raw = true) :
    decryptOffload cipher mode raw = .ok bytes ↔ cipher.decrypt raw = some bytes := by
  have opened : decryptOffload cipher mode raw =
      (cipher.decrypt raw).elim (.error .invalidData) .ok := by
    rcases decrypts with rfl | rfl
    · rfl
    · rw [decryptOffload, if_pos looks]
  rw [opened]
  cases cipher.decrypt raw <;> simp

theorem decryptOffload_encrypt (decrypts : Decrypts mode) :
    decryptOffload cipher mode (cipher.encrypt bytes) = .ok bytes :=
  (decryptOffload_versioned_iff cipher bytes decrypts (cipher.looksEncrypted_encrypt bytes)).mpr
    (cipher.decrypt_encrypt bytes)

theorem lazy_kept_iff (format : Format) :
    decryptOffload cipher .lazy (format.encode cipher bytes) = .ok bytes ↔
      Migrates cipher bytes False format := by
  have isLazy : Decrypts .lazy := Or.inr rfl
  cases format with
  | versioned => simp [Migrates, Format.encode, decryptOffload_encrypt cipher bytes isLazy]
  | plaintext =>
    simp only [Migrates, Format.encode, false_implies, and_true]
    cases looks : looksEncrypted bytes with
    | false => simp [decryptOffload, looks]
    | true =>
      rw [decryptOffload_versioned_iff cipher bytes isLazy looks]
      simp [cipher.decrypt_ne_self bytes]
  | headerless =>
    simp only [Migrates, Format.encode, false_and, iff_false]
    cases looks : looksEncrypted (cipher.encryptBody bytes) with
    | false =>
      intro verbatim
      have same : cipher.encryptBody bytes = bytes := by
        simpa [decryptOffload, looks] using verbatim
      have length := cipher.length_encryptBody bytes
      have positive : 0 < tagLen := by decide
      rw [same] at length
      omega
    | true =>
      rw [decryptOffload_versioned_iff cipher bytes isLazy looks]
      exact cipher.decrypt_encryptBody_of_looksEncrypted looks

theorem converted_iff (decrypts : Decrypts mode) (format : Format) :
    decryptOffload cipher mode (convertedBytes cipher (format.encode cipher bytes)) = .ok bytes ↔
      Migrates cipher bytes True format := by
  cases format with
  | versioned =>
    simp [Migrates, Format.encode, convertedBytes_encrypt,
      decryptOffload_encrypt cipher bytes decrypts]
  | plaintext =>
    simp only [Migrates, Format.encode, true_implies]
    cases looks : looksEncrypted bytes with
    | true =>
      rw [convertedBytes_of_looksEncrypted cipher looks,
        decryptOffload_versioned_iff cipher bytes decrypts looks]
      simp [cipher.decrypt_ne_self bytes]
    | false =>
      cases opened : cipher.decryptBody bytes with
      | none =>
        rw [convertedBytes_plaintext cipher bytes looks opened]
        simp [decryptOffload_encrypt cipher bytes decrypts]
      | some inner =>
        -- the content is a ciphertext of this key and is taken for one
        have inside : cipher.decrypt bytes = some inner :=
          (cipher.decrypt_of_headerless looks).trans opened
        have different : inner ≠ bytes := by
          rintro rfl
          exact cipher.decrypt_ne_self _ inside
        have converted : convertedBytes cipher bytes = cipher.encrypt inner := by
          rw [convertedBytes, looks, inside]
          rfl
        rw [converted, decryptOffload_encrypt cipher inner decrypts]
        simp [different]
  | headerless =>
    simp only [Migrates, Format.encode, true_and]
    cases looks : looksEncrypted (cipher.encryptBody bytes) with
    | true =>
      rw [convertedBytes_of_looksEncrypted cipher looks,
        decryptOffload_versioned_iff cipher bytes decrypts looks]
      simp [cipher.decrypt_encryptBody_of_looksEncrypted looks]
    | false =>
      rw [convertedBytes_headerless cipher bytes looks]
      simp [decryptOffload_encrypt cipher bytes decrypts]

end Reading

section Claims

variable {BlockId : Type u} [DecidableEq BlockId] (cipher : BlockCipher)
  (content : BlockId → List UInt8) (written : List (FirstOp BlockId))
  (ops : List (LazyOp BlockId)) (id : BlockId)

section

omit [DecidableEq BlockId]

theorem readBlock_of_file {store : BlockStorage BlockId} (found : store.files id = some raw) :
    readBlock cipher mode store id = decryptOffload cipher mode raw := by
  rw [readBlock, BlockStorage.readBlock, found]

theorem readBlock_of_absent {store : BlockStorage BlockId} (absent : store.files id = none) :
    readBlock cipher mode store id = .error .notFound := by
  rw [readBlock, BlockStorage.readBlock, absent]

end

theorem read_iff (decrypts : Decrypts mode) (seen : mode = .lazy ∨ .convert id ∈ ops) :
    readBlock cipher mode (lazyStore cipher content written ops) id = .ok (content id) ↔
      Readable cipher content written ops id := by
  have file := (lazyStore_spec cipher content written ops).2 id
  have isRewritten := phaseAfter_rewritten_iff ops id
  have isKept := phaseAfter_kept_iff ops id
  unfold Readable
  cases phase : phaseAfter ops id with
  | rewritten =>
    rw [phase] at file isRewritten
    have rewritten := isRewritten.mp rfl
    rw [readBlock_of_file cipher id file, decryptOffload_encrypt cipher _ decrypts]
    exact iff_of_true rfl (Or.inl rewritten)
  | converted =>
    rw [phase] at file isRewritten isKept
    have notRewritten : ¬ ∃ writer, .rewrite writer id ∈ ops := by simpa using isRewritten
    have converted : .convert id ∈ ops := by simpa [notRewritten] using isKept
    simp only [notRewritten, false_or, converted]
    cases format : lastFormat written id with
    | none =>
      rw [format] at file
      rw [readBlock_of_absent cipher id file]
      simp
    | some first =>
      rw [format] at file
      rw [readBlock_of_file cipher id file, converted_iff cipher _ decrypts]
      simp
  | kept =>
    rw [phase] at file isKept
    obtain ⟨notRewritten, notConverted⟩ := isKept.mp rfl
    obtain rfl := seen.resolve_right notConverted
    simp only [notRewritten, false_or, notConverted]
    cases format : lastFormat written id with
    | none =>
      rw [format] at file
      rw [readBlock_of_absent cipher id file]
      simp
    | some first =>
      rw [format] at file
      rw [readBlock_of_file cipher id file, lazy_kept_iff]
      simp

/-- Which blocks are read in lazy mode, and in mode on once they are converted. -/
theorem lazy_read_iff :
    (readBlock cipher .lazy (lazyStore cipher content written ops) id = .ok (content id) ↔
        Readable cipher content written ops id) ∧
      (.convert id ∈ ops →
        (readBlock cipher .on (lazyStore cipher content written ops) id = .ok (content id) ↔
          Readable cipher content written ops id)) :=
  ⟨read_iff cipher content written ops id (Or.inr rfl) (Or.inl rfl),
    fun converted => read_iff cipher content written ops id (Or.inl rfl) (Or.inr converted)⟩

def tagOnly : BlockCipher where
  encryptBody plaintext := plaintext ++ List.replicate tagLen 0
  decryptBody body :=
    if List.replicate tagLen 0 <:+ body then some (body.take (body.length - tagLen)) else none
  length_encryptBody plaintext := by simp
  decrypt_encryptBody plaintext := by simp
  authentic body plaintext := by
    intro opened
    split at opened
    · rename_i tagged
      obtain ⟨front, rfl⟩ := tagged
      cases opened
      simp
    · simp at opened

def magicNotes : List UInt8 := [78, 70, 69, 49, 32, 110, 111, 116, 101, 115]

/-- A plaintext block that begins with the magic bytes cannot be read in lazy mode, and
a conversion leaves it unreadable. -/
theorem magic_notes_unreadable :
    ¬ ∀ (cipher : BlockCipher) (content : Unit → List UInt8) (written : List (FirstOp Unit))
      (ops : List (LazyOp Unit)), (lastFormat written ()).isSome →
      readBlock cipher .lazy (lazyStore cipher content written ops) () = .ok (content ()) ∧
      (.convert () ∈ ops →
        readBlock cipher .on (lazyStore cipher content written ops) () = .ok (content ())) := by
  intro all
  have claimed := all tagOnly (fun _ => magicNotes) [.write .plain .plaintext ()] [] rfl
  have unreadable : readBlock tagOnly .lazy
      (lazyStore tagOnly (fun _ => magicNotes) [.write .plain .plaintext ()] []) () =
      .error .invalidData := rfl
  rw [unreadable] at claimed
  simp at claimed

end Claims

end EncryptingBlockStore

end Nanofile
