import Nanofile.Fs.Download
import Nanofile.Service.SubRepoLeftovers

/-!
# What a library made from a folder holds

The new library has every object and every block below the folder, and its paths resolve as those
of the source.  Its row is that of a library that is not encrypted, so the blocks of an encrypted
source are sent as they are stored.
-/

set_option autoImplicit false

namespace Nanofile

open Nanofile.Lib

variable {Oid Key : Type} {store : FsStore Oid}

/-! ## Reading a library -/

/-- `get_decryption_key_for_repo` with the key that the password manager has. -/
def KeyRow.decryptionKey (keys : KeyRow) (unlocked : Key) : Option Key :=
  if keys.encrypted = 0 then none else some unlocked

section Reading

variable [DecidableEq Oid] [Digests Oid] [ToString Oid]
  (decryptBlock : Key → List UInt8 → Except String (List UInt8)) (unlocked : Key)
  (site : LibrarySite Oid) (repoId : String)

def resolveIn (parts : List String) : Except AppError Oid := do
  let library ← okOr (site.find repoId) (.notFound "Repository not found")
  let headRoot ← headRootId library.repo
  resolveSegments library.repo.fsObjects parts headRoot

/-- The file of an id is sent with these bytes. -/
def Downloads (fsId : Oid) (bytes : List UInt8) : Prop :=
  ∃ library file, ∃ parts : List (List UInt8), site.find repoId = some library ∧
    readFsFileData library.repo.fsObjects fsId = .ok file ∧
    streamBlocks site.blocks.backend decryptBlock (library.keys.decryptionKey unlocked)
      (file.blockIds.map fun id => (repoId, id)) = parts.map .ok ∧
    parts.flatten = bytes

/-- The second library is a copy of a folder of the first one: its paths resolve to the same ids,
what its root reaches is stored, and its files are those of the source. -/
structure FaithfulCopy (before after : LibrarySite Oid) (repoId path newRepoId : String)
    (folder : Oid) : Prop where
  paths : ∀ parts, resolveIn after newRepoId parts =
    resolveIn before repoId (pathComponents path ++ parts)
  stored : ∀ fsId, Reach (after.storeOf newRepoId) folder fsId → fsId ≠ emptySha1 →
    ∃ object, (after.storeOf newRepoId).find fsId = some object ∧
      ∀ file, object = .file file → ∀ id ∈ file.blockIds,
        (after.blocks.files (newRepoId, id)).isSome = true
  downloads : ∀ fsId bytes, Reach (after.storeOf newRepoId) folder fsId →
    (Downloads decryptBlock unlocked after newRepoId fsId bytes ↔
      Downloads decryptBlock unlocked before repoId fsId bytes)

end Reading

/-! ## Streams -/

section Streams

variable {decryptBlock : Key → List UInt8 → Except String (List UInt8)}
  {blocks : BlockStorage (String × Oid)} {repoId : String} {contents : Oid → List UInt8}

theorem readBlock_backend {id : String × Oid} {data : List UInt8}
    (found : blocks.files id = some data) : blocks.backend.readBlock id = .ok data := by
  simp [BlockStorage.backend, BlockStorage.readBlock, found]

theorem streamBlocks_plain {ids : List Oid}
    (found : ∀ id ∈ ids, blocks.files (repoId, id) = some (contents id)) :
    streamBlocks blocks.backend decryptBlock none (ids.map fun id => (repoId, id)) =
      (ids.map contents).map .ok := by
  unfold streamBlocks
  rw [List.map_map, List.map_map]
  refine List.map_congr_left fun id listed => ?_
  simp [readPlain, readBlock_backend (found id listed), bind, Except.bind]

theorem streamBlocks_shorter {key : Key}
    (shrinks : ∀ key data plain, decryptBlock key data = .ok plain → plain.length < data.length) :
    ∀ {ids : List Oid} {parts : List (List UInt8)},
      (∀ id ∈ ids, blocks.files (repoId, id) = some (contents id)) →
      streamBlocks blocks.backend decryptBlock (some key) (ids.map fun id => (repoId, id)) =
        parts.map .ok →
      parts.flatten.length + ids.length ≤ (ids.map contents).flatten.length := by
  intro ids
  induction ids with
  | nil =>
    intro parts found streamed
    cases parts with
    | nil => exact Nat.le_refl _
    | cons part rest => cases streamed
  | cons id rest ih =>
    intro parts found streamed
    cases parts with
    | nil => cases streamed
    | cons part others =>
      obtain ⟨here, below⟩ := List.forall_mem_cons.mp found
      obtain ⟨first, later⟩ := List.cons.inj streamed
      simp only [readPlain, readBlock_backend here, bind, Except.bind] at first
      have less := shrinks key _ _ first
      have rest' := ih below later
      simp only [List.flatten_cons, List.length_append, List.map_cons, List.length_cons]
      omega

end Streams

/-! ## The tree of the new library -/

section Trees

variable [DecidableEq Oid] {rows : List (Oid × FsObject Oid)} {fsId : Oid}

theorem find_insertRows : ∀ {rows : List (Oid × FsObject Oid)} {table : FsStore Oid},
    (∀ row ∈ rows, store.find row.1 = some row.2) → Table.Extends table store →
    (rows.foldl (fun store row => store.insertOrIgnore row.1 row.2) table).find fsId =
      if fsId ∈ rows.map Prod.fst then store.find fsId else table.find fsId := by
  intro rows
  induction rows with
  | nil =>
    intro table _ _
    simp
  | cons row rest ih =>
    intro table same grown
    obtain ⟨here, below⟩ := List.forall_mem_cons.mp same
    have grown' : Table.Extends (table.insertOrIgnore row.1 row.2) store := by
      intro key object found
      rcases Table.find_insertOrIgnore_cases found with before | ⟨rfl, rfl⟩
      · exact grown key object before
      · exact here
    rw [List.foldl_cons, ih below grown']
    by_cases later : fsId ∈ rest.map Prod.fst
    · rw [if_pos later, if_pos (by simp [List.map_cons, later])]
    · rw [if_neg later]
      by_cases isRow : fsId = row.1
      · subst isRow
        rw [if_pos (by simp), Table.find_insertOrIgnore_self]
        cases found : table.find row.1 with
        | none => exact here.symm
        | some object => exact (grown _ _ found).symm
      · rw [if_neg (by simpa [isRow] using later),
          Table.find_insertOrIgnore_of_ne table row.2 isRow]

variable [Digests Oid] {copy : FsStore Oid} {folder : Oid}

/-- A store with the objects of another one below a folder, and no others. -/
structure CopyOf (store copy : FsStore Oid) (folder : Oid) : Prop where
  same : ∀ fsId, Reach store folder fsId → fsId ≠ emptySha1 → copy.find fsId = store.find fsId
  grown : Table.Extends copy store

theorem copyOf_copiedRows {env : SubRepoEnv Oid} {levels : Nat}
    (copies : ObjectsCopy env store folder levels) :
    CopyOf store ((copiedRows store [folder] levels).foldl
      (fun store row => store.insertOrIgnore row.1 row.2) .empty) folder := by
  have rows : ∀ row ∈ copiedRows store [folder] levels, store.find row.1 = some row.2 :=
    fun row listed => (mem_copiedRows.mp listed).2.2
  have start : Table.Extends Table.empty store := fun key object found => by simp at found
  constructor
  · intro fsId reached nonempty
    obtain ⟨level, less, listed⟩ := copies.mem_of_reach reached
    obtain ⟨object, found⟩ :=
      Option.isSome_iff_exists.mp (copies.held level less fsId listed nonempty)
    rw [find_insertRows rows start, if_pos]
    exact List.mem_map.mpr
      ⟨(fsId, object), mem_copiedRows.mpr ⟨⟨level, less, listed⟩, nonempty, found⟩, rfl⟩
  · intro fsId object found
    rw [find_insertRows rows start] at found
    split at found
    · exact found
    · cases found

namespace CopyOf

variable (isCopy : CopyOf store copy folder) (reached : Reach store folder fsId)

include isCopy reached

theorem dirBatch_eq : dirBatch copy fsId = dirBatch store fsId := by
  unfold dirBatch
  split
  · rfl
  · rename_i nonempty
    rw [isCopy.same fsId reached nonempty]

theorem reach : Reach copy folder fsId := by
  induction reached with
  | refl => exact .refl
  | tail above listed ih =>
    obtain ⟨data, entry, read, isEntry, same⟩ := listed
    exact ih.tail ⟨data, entry, (isCopy.dirBatch_eq above).trans read, isEntry, same⟩

variable [ToString Oid]

theorem readFsDirData_eq : readFsDirData copy fsId = readFsDirData store fsId := by
  unfold readFsDirData
  split
  · rfl
  · rename_i nonempty
    rw [isCopy.same fsId reached nonempty]

theorem readFsFileData_eq : readFsFileData copy fsId = readFsFileData store fsId := by
  unfold readFsFileData
  split
  · rfl
  · rename_i nonempty
    rw [isCopy.same fsId reached nonempty]

omit reached in
theorem resolveSegments_eq : ∀ {parts : List String} {fsId : Oid}, Reach store folder fsId →
    resolveSegments copy parts fsId = resolveSegments store parts fsId := by
  intro parts
  induction parts with
  | nil => exact fun _ => rfl
  | cons segment rest ih =>
    intro fsId reached
    rw [resolveSegments, resolveSegments, isCopy.readFsDirData_eq reached]
    cases read : readFsDirData store fsId with
    | error failure => rfl
    | ok dir =>
      cases found : dir.dirents.find? fun entry => entry.name = segment with
      | none => simp [found, okOr, bind, Except.bind]
      | some entry =>
        have below : Reach store folder entry.id := by
          have listed := List.mem_of_find?_eq_some found
          rcases standsFor_of_readFsDirData read with ⟨-, nothing⟩ | ⟨data, isBatch, same⟩
          · rw [nothing] at listed
            cases listed
          · exact reached.tail ⟨data, entry, isBatch, same ▸ listed, rfl⟩
        simp only [found, okOr, bind, Except.bind, ih below]

end CopyOf

theorem resolveSegments_append [ToString Oid] : ∀ {upper parts : List String} {root fsId : Oid},
    resolveDirSegments store upper root = .ok fsId →
    resolveSegments store (upper ++ parts) root = resolveSegments store parts fsId := by
  intro upper
  induction upper with
  | nil =>
    intro parts root fsId resolved
    cases resolved
    rfl
  | cons segment rest ih =>
    intro parts root fsId resolved
    obtain ⟨dir, read, resolved⟩ := except_bind_ok_iff.mp resolved
    obtain ⟨entry, found, resolved⟩ := except_bind_ok_iff.mp resolved
    obtain ⟨_, directory, resolved⟩ := except_bind_ok_iff.mp resolved
    have isDirectory := ensure_eq_ok_iff.mp directory
    rw [List.cons_append, resolveSegments, read]
    simp only [bind, Except.bind, found, ensure, isDirectory, or_true, if_true]
    exact ih resolved

end Trees

/-! ## The whole copy -/

section Copies

variable [DecidableEq Oid] [Digests Oid] [ToString Oid] {env : SubRepoEnv Oid}
  {site final : LibrarySite Oid} {source : LibraryRecord Oid} {repoId path email : String}
  {userId : Int} {response : SubRepoResponse} {folder fsId : Oid}
  {decryptBlock : Key → List UInt8 → Except String (List UInt8)} {unlocked : Key}

/-- What a copy that ends well leaves. -/
structure Copied (env : SubRepoEnv Oid) (site final : LibrarySite Oid) (source : LibraryRecord Oid)
    (repoId : String) (folder : Oid) (copy : LibraryRecord Oid) : Prop where
  found : final.find env.newRepoId = some copy
  keys : copy.keys = .plain
  root : headRootId copy.repo = .ok folder
  tree : CopyOf source.repo.fsObjects copy.repo.fsObjects folder
  held : ∀ fsId, Reach source.repo.fsObjects folder fsId → ObjectHeld source.repo.fsObjects fsId
  blocks : BlocksCopied env repoId (fun id => site.blocks.files (repoId, id)) final.blocks
  files : ∀ fsId, Reach source.repo.fsObjects folder fsId → fsId ≠ emptySha1 →
    ∀ id ∈ blocksOf source.repo.fsObjects fsId, (final.blocks.files (env.newRepoId, id)).isSome = true

theorem copied_of_steps (fresh : FreshId env site) (apart : repoId ≠ env.newRepoId)
    (isSource : site.find repoId = some source) {name : String} {levels : Nat}
    (copies : ObjectsCopy env source.repo.fsObjects folder levels)
    {middle committed : LibrarySite Oid} {bytes : Int}
    (blocks : copyBlocksOrRollback env repoId folder userId (copiedObjects env site name userId
      (copiedRows source.repo.fsObjects [folder] levels)) = (.ok bytes, middle))
    (commits : createSubCommit env folder email middle = (.ok (), committed))
    (sizes : recordSubSize env bytes committed = (.ok (), final)) :
    ∃ copy, Copied env site final source repoId folder copy := by
  have isStore : site.storeOf repoId = source.repo.fsObjects :=
    LibrarySite.storeOf_of_find isSource
  have isRows := copyOf_copiedRows copies
  generalize copiedRows source.repo.fsObjects [folder] levels = rows at blocks isRows
  have isCopied : BlocksCopied env repoId (fun id => site.blocks.files (repoId, id))
    (copiedObjects env site name userId rows).blocks := fresh.blocksCopied
  obtain ⟨more, there⟩ := copySubtreeBlocks_ok apart isCopied
    ((storeOf_copiedObjects apart).trans isStore) copies (copyBlocksOrRollback_ok blocks)
  have keeps : ∀ repo, (insertObjects rows repo).id = repo.id := fun _ => rfl
  have found : middle.find env.newRepoId = some { env.newLibrary name userId with
      repo := insertObjects rows (env.newLibrary name userId).repo } := by
    have added : (site.started env name userId).find env.newRepoId =
      some (env.newLibrary name userId) := fresh.find_added
    have isObjects : (copiedObjects env site name userId rows).find env.newRepoId =
        some { env.newLibrary name userId with
          repo := insertObjects rows (env.newLibrary name userId).repo } := by
      rw [copiedObjects, LibrarySite.find_update_self keeps, added]
      rfl
    rw [more.rows]
    exact isObjects
  obtain ⟨change, keepsId, rfl, sameObjects, isRoot⟩ := createSubCommit_ok found rfl commits
  obtain ⟨resize, keepsId', rfl, sameObjects', sameRoot⟩ := recordSubSize_ok sizes
  refine ⟨{ env.newLibrary name userId with
      repo := resize (change (insertObjects rows (env.newLibrary name userId).repo)) },
    ?_, rfl, ?_, ?_, ?_, more.copied, ?_⟩
  · rw [LibrarySite.find_update_self keepsId', LibrarySite.find_update_self keepsId, found]
    rfl
  · exact (sameRoot _).trans isRoot
  · show CopyOf source.repo.fsObjects (resize (change _)).fsObjects folder
    rw [sameObjects', sameObjects]
    exact isRows
  · intro fsId reached
    obtain ⟨level, less, listed⟩ := copies.mem_of_reach reached
    exact copies.held level less fsId listed
  · intro fsId reached nonempty id listed
    have notSentinel : folder ≠ emptySha1 := by
      rintro rfl
      exact nonempty (eq_empty_of_reach reached)
    rcases mem_idsTo_of_reach copies.newIds_eq_nil reached with isEmpty | met
    · exact absurd isEmpty nonempty
    · exact (there notSentinel).2 fsId met id listed

theorem createSubRepo_copied (fresh : FreshId env site) (isSource : site.find repoId = some source)
    (isFolder : findFolder site repoId path = .ok folder)
    (run : createSubRepo env repoId path email userId site = (.ok response, final)) :
    ∃ copy, Copied env site final source repoId folder copy := by
  have apart : repoId ≠ env.newRepoId := by
    rintro rfl
    rw [fresh.library] at isSource
    cases isSource
  have isStore : site.storeOf repoId = source.repo.fsObjects :=
    LibrarySite.storeOf_of_find isSource
  obtain ⟨_, _, finds, run⟩ := Proc.bind_ok_iff.mp run
  obtain ⟨isThere, rfl⟩ := Proc.tryRead_ok_iff.mp finds
  obtain rfl := Except.ok.inj (isFolder.symm.trans isThere)
  obtain ⟨_, _, rows, run⟩ := Proc.bind_ok_iff.mp run
  obtain ⟨-, -, -, rfl⟩ := createSubRow_ok rows
  obtain ⟨_, _, members, run⟩ := Proc.bind_ok_iff.mp run
  obtain ⟨-, rfl⟩ := createSubMember_ok members
  obtain ⟨_, _, objects, run⟩ := Proc.bind_ok_iff.mp run
  obtain ⟨levels, copies, rfl⟩ := copyFsTree_ok apart ((storeOf_started apart).trans isStore) objects
  obtain ⟨bytes, middle, blocks, run⟩ := Proc.bind_ok_iff.mp run
  obtain ⟨_, committed, commits, run⟩ := Proc.bind_ok_iff.mp run
  obtain ⟨_, _, sizes, run⟩ := Proc.bind_ok_iff.mp run
  cases run
  exact copied_of_steps fresh apart isSource copies blocks (Proc.mapFailure_ok_iff.mp commits) sizes

section Sent

variable {library : LibraryRecord Oid} {file : FsFileData Oid} {bytes : List UInt8}
  (isLibrary : site.find repoId = some library)
  (read : readFsFileData library.repo.fsObjects fsId = .ok file)

include isLibrary

theorem resolveIn_eq {root : Oid} (isRoot : headRootId library.repo = .ok root)
    (parts : List String) : resolveIn site repoId parts =
      resolveSegments library.repo.fsObjects parts root := by
  rw [resolveIn, isLibrary]
  simp only [okOr, isRoot, bind, Except.bind]

include read

theorem downloads_plain_iff {contents : Oid → List UInt8}
    (noKey : library.keys.decryptionKey unlocked = none)
    (found : ∀ id ∈ file.blockIds, site.blocks.files (repoId, id) = some (contents id)) :
    Downloads decryptBlock unlocked site repoId fsId bytes ↔
      bytes = (file.blockIds.map contents).flatten := by
  have sent : streamBlocks site.blocks.backend decryptBlock none
      (file.blockIds.map fun id => (repoId, id)) = (file.blockIds.map contents).map .ok :=
    streamBlocks_plain found
  constructor
  · rintro ⟨library', file', parts, isLibrary', read', streamed, rfl⟩
    obtain rfl := Option.some.inj (isLibrary.symm.trans isLibrary')
    obtain rfl := Except.ok.inj (read.symm.trans read')
    rw [noKey, sent] at streamed
    rw [List.map_injective_iff.mpr (fun _ _ same => Except.ok.inj same) streamed]
  · rintro rfl
    exact ⟨library, file, _, isLibrary, read, by rw [noKey, sent], rfl⟩

theorem downloads_nil_iff (noBlocks : file.blockIds = []) :
    Downloads decryptBlock unlocked site repoId fsId bytes ↔ bytes = [] := by
  constructor
  · rintro ⟨library', file', parts, isLibrary', read', streamed, rfl⟩
    obtain rfl := Option.some.inj (isLibrary.symm.trans isLibrary')
    obtain rfl := Except.ok.inj (read.symm.trans read')
    rw [noBlocks] at streamed
    rw [List.map_eq_nil_iff.mp streamed.symm]
    rfl
  · rintro rfl
    exact ⟨library, file, [], isLibrary, read, by rw [noBlocks]; rfl, rfl⟩

theorem not_downloads_of_key {contents : Oid → List UInt8}
    (shrinks : ∀ key data plain, decryptBlock key data = .ok plain → plain.length < data.length)
    (isKey : library.keys.decryptionKey unlocked = some unlocked)
    (found : ∀ id ∈ file.blockIds, site.blocks.files (repoId, id) = some (contents id))
    (sent : Downloads decryptBlock unlocked site repoId fsId
      (file.blockIds.map contents).flatten) : file.blockIds = [] := by
  obtain ⟨library', file', parts, isLibrary', read', streamed, same⟩ := sent
  obtain rfl := Option.some.inj (isLibrary.symm.trans isLibrary')
  obtain rfl := Except.ok.inj (read.symm.trans read')
  rw [isKey] at streamed
  have shorter := streamBlocks_shorter shrinks found streamed
  rw [same] at shorter
  exact List.length_eq_zero_iff.mp (by omega)

end Sent

def storedBytes (site : LibrarySite Oid) (repoId : String) (id : Oid) : List UInt8 :=
  (site.blocks.files (repoId, id)).getD []

def NoBlocks (store : FsStore Oid) (folder : Oid) : Prop :=
  ∀ fsId file, Reach store folder fsId → readFsFileData store fsId = .ok file → file.blockIds = []

namespace Copied

variable {copy : LibraryRecord Oid} (copied : Copied env site final source repoId folder copy)

include copied

theorem block (reached : Reach source.repo.fsObjects folder fsId) {file : FsFileData Oid}
    (read : readFsFileData source.repo.fsObjects fsId = .ok file) {id : Oid}
    (listed : id ∈ file.blockIds) :
    final.blocks.files (env.newRepoId, id) = some (storedBytes site repoId id) ∧
      site.blocks.files (repoId, id) = some (storedBytes site repoId id) := by
  have there : (final.blocks.files (env.newRepoId, id)).isSome = true := by
    unfold readFsFileData at read
    split at read
    · cases read
      cases listed
    · rename_i nonempty
      split at read
      · cases read
      · cases read
      · rename_i data isFile
        cases read
        exact copied.files fsId reached nonempty id (by simpa [blocksOf, isFile] using listed)
  obtain ⟨data, found⟩ := Option.isSome_iff_exists.mp there
  have isSource := (copied.blocks.copied id data found).1
  have isData : data = storedBytes site repoId id := by rw [storedBytes, isSource]; rfl
  exact ⟨isData ▸ found, isData ▸ isSource⟩

omit [ToString Oid] in
theorem noKey (unlocked : Key) : copy.keys.decryptionKey unlocked = none := by
  rw [copied.keys]
  rfl

variable (isSource : site.find repoId = some source)

include isSource

/-- The downloads are those of the source when the source needs no key or has no blocks. -/
theorem downloads_iff (plain : source.keys.encrypted = 0 ∨ NoBlocks source.repo.fsObjects folder)
    (reached : Reach source.repo.fsObjects folder fsId) (bytes : List UInt8) :
    Downloads decryptBlock unlocked final env.newRepoId fsId bytes ↔
      Downloads decryptBlock unlocked site repoId fsId bytes := by
  have same := copied.tree.readFsFileData_eq reached
  cases read : readFsFileData source.repo.fsObjects fsId with
  | error failure =>
    constructor
    · rintro ⟨library, file, parts, isLibrary, read', -⟩
      obtain rfl := Option.some.inj (copied.found.symm.trans isLibrary)
      rw [same, read] at read'
      cases read'
    · rintro ⟨library, file, parts, isLibrary, read', -⟩
      obtain rfl := Option.some.inj (isSource.symm.trans isLibrary)
      rw [read] at read'
      cases read'
  | ok file =>
    rcases plain with unencrypted | noBlocks
    · rw [downloads_plain_iff copied.found (same.trans read) (copied.noKey unlocked)
          fun id listed => (copied.block reached read listed).1,
        downloads_plain_iff isSource read (if_pos unencrypted)
          fun id listed => (copied.block reached read listed).2]
    · rw [downloads_nil_iff copied.found (same.trans read) (noBlocks fsId file reached read),
        downloads_nil_iff isSource read (noBlocks fsId file reached read)]

theorem faithful (isFolder : findFolder site repoId path = .ok folder)
    (plain : source.keys.encrypted = 0 ∨ NoBlocks source.repo.fsObjects folder) :
    FaithfulCopy decryptBlock unlocked site final repoId path env.newRepoId folder := by
  have isStore : final.storeOf env.newRepoId = copy.repo.fsObjects :=
    LibrarySite.storeOf_of_find copied.found
  refine ⟨fun parts => ?_, ?_, ?_⟩
  · obtain ⟨library, isLibrary, finds⟩ := except_bind_ok_iff.mp isFolder
    obtain ⟨root, isRoot, resolved⟩ := except_bind_ok_iff.mp finds
    obtain rfl := Option.some.inj (isSource.symm.trans (okOr_eq_ok_iff.mp isLibrary))
    rw [resolveIn_eq copied.found copied.root, resolveIn_eq isSource isRoot,
      resolveSegments_append (mapError_eq_ok_iff.mp resolved),
      copied.tree.resolveSegments_eq .refl]
  · rw [isStore]
    intro fsId reachedCopy nonempty
    have reached := reach_mono copied.tree.grown reachedCopy
    obtain ⟨object, found⟩ := Option.isSome_iff_exists.mp (copied.held fsId reached nonempty)
    refine ⟨object, (copied.tree.same fsId reached nonempty).trans found, ?_⟩
    rintro file rfl id listed
    exact copied.files fsId reached nonempty id (by simpa [blocksOf, found] using listed)
  · rw [isStore]
    exact fun fsId bytes reachedCopy =>
      copied.downloads_iff isSource plain (reach_mono copied.tree.grown reachedCopy) bytes

theorem noBlocks_of_faithful
    (shrinks : ∀ key data plain, decryptBlock key data = .ok plain → plain.length < data.length)
    (encrypted : source.keys.encrypted ≠ 0)
    (faithful : FaithfulCopy decryptBlock unlocked site final repoId path env.newRepoId folder) :
    NoBlocks source.repo.fsObjects folder := by
  intro fsId file reached read
  have isStore : final.storeOf env.newRepoId = copy.repo.fsObjects :=
    LibrarySite.storeOf_of_find copied.found
  have sent : Downloads decryptBlock unlocked final env.newRepoId fsId
      (file.blockIds.map (storedBytes site repoId)).flatten :=
    (downloads_plain_iff copied.found ((copied.tree.readFsFileData_eq reached).trans read)
      (copied.noKey unlocked) fun id listed => (copied.block reached read listed).1).mpr rfl
  have reachedCopy : Reach (final.storeOf env.newRepoId) folder fsId := by
    rw [isStore]
    exact copied.tree.reach reached
  exact not_downloads_of_key isSource read shrinks (if_neg encrypted)
    (fun id listed => (copied.block reached read listed).2)
    ((faithful.downloads fsId _ reachedCopy).mp sent)

end Copied

end Copies

/-! ## An encrypted folder -/

/-- Padding is checked and taken off; the cipher itself leaves the bytes. -/
def unpadded (_ : Unit) (data : List UInt8) : Except String (List UInt8) :=
  match data.getLast? with
  | none => .error "encrypted block is empty"
  | some count =>
    if 1 ≤ count.toNat ∧ count.toNat ≤ 16 ∧ data.length % 16 = 0 then
      .ok (data.take (data.length - count.toNat))
    else .error "decrypt error"

theorem unpadded_shrinks (key : Unit) (data plain : List UInt8)
    (decrypted : unpadded key data = .ok plain) : plain.length < data.length := by
  unfold unpadded at decrypted
  split at decrypted
  · cases decrypted
  · rename_i count isLast
    split at decrypted
    · rename_i fits
      cases decrypted
      have long : 0 < data.length := List.length_pos_of_mem (List.mem_of_getLast? isLast)
      rw [List.length_take]
      omega
    · cases decrypted

def encryptedKeys : KeyRow :=
  ⟨1, 2, some (String.ofList (List.replicate 64 '0')), some (String.ofList (List.replicate 96 '0')),
    "", none, none, none⟩

def paddedBlock : FreeId × List UInt8 := (.atom 9, [7, 8, 9] ++ List.replicate 13 13)

end Nanofile
