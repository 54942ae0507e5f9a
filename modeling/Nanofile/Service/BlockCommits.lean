import Nanofile.Service.UploadBlks

/-!
# Committing uploaded blocks

The block endpoint and `upload_file_committed_stream` leave the same library only on some
uploads: those of `CommitsAlike`.  The two edit one directory, so their trees are compared
entry by entry in it.
-/

set_option autoImplicit false

namespace Nanofile

open Nanofile.Lib Nanofile.Lib.Proc

variable {Oid : Type} [DecidableEq Oid] [Digests Oid]

/-! ## The two edits -/

section Edits

variable {fsId : Oid} {name modifier : String} {totalSize now now' : Int} {replace : Bool}
  {entries : List (DirEntryData Oid)}

omit [DecidableEq Oid] [Digests Oid] in
theorem addBlocksFile_replacing (fsId : Oid) (name modifier : String) (totalSize now : Int)
    (entries : List (DirEntryData Oid)) :
    addBlocksFile fsId name modifier totalSize now true entries =
      (withoutName name entries ++ [⟨fsId, sIfreg, modifier, now, name, totalSize⟩], name) := by
  have gone : ((withoutName name entries).any fun entry => decide (entry.name = name)) = false := by
    simp [withoutName]
  simp [addBlocksFile, gone]

omit [Digests Oid] in
theorem addBlocksFile_eq (fresh : ¬ IdenticalReplace replace entries name fsId totalSize) :
    addBlocksFile fsId name modifier totalSize now replace entries =
      addFile fsId name modifier totalSize now replace entries := by
  cases replace with
  | true =>
    rw [addBlocksFile_replacing]
    rcases addFile_cases fsId name modifier totalSize now true entries with
      ⟨identical, -⟩ | ⟨-, -, same⟩ | ⟨kept, -⟩
    · exact absurd identical fresh
    · exact same.symm
    · cases kept
  | false => simp [addBlocksFile, addFile]

variable {before first second : FsStore Oid} {root dir : Oid}

omit [Digests Oid] in
theorem addFile_eq_concat (modifier : String)
    (fresh : ¬ IdenticalReplace replace entries name fsId totalSize) :
    ∃ kept effective,
      (∀ now, addFile fsId name modifier totalSize now replace entries =
        (kept ++ [⟨fsId, sIfreg, modifier, now, effective, totalSize⟩], effective)) ∧
      ∀ other entry, lookup kept other = some entry → lookup entries other = some entry := by
  cases replace with
  | true =>
    refine ⟨withoutName name entries, name, fun now => ?_, fun other entry found => ?_⟩
    · rw [← addBlocksFile_eq fresh, addBlocksFile_replacing]
    · have apart : other ≠ name := by
        rintro rfl
        rw [lookup_withoutName] at found
        cases found
      rwa [lookup_withoutName_of_ne apart] at found
  | false =>
    refine ⟨entries, (addBlocksFile fsId name modifier totalSize 0 false entries).2,
      fun now => ?_, fun other entry found => found⟩
    rw [← addBlocksFile_eq fresh]
    rfl

omit [DecidableEq Oid] [Digests Oid] in
theorem untimed_added (effective : String) :
    (⟨fsId, sIfreg, modifier, now, effective, totalSize⟩ : DirEntryData Oid).untimed =
      ⟨sIfreg, modifier, totalSize, some fsId⟩ := by
  have regular : isRegular sIfreg = true := by decide
  have file : isDir sIfreg = false := by decide
  simp [DirEntryData.untimed, DirEntryData.written, regular, file]

theorem sameEntry_added (effective : String) :
    SameEntry first second ⟨fsId, sIfreg, modifier, now, effective, totalSize⟩
      ⟨fsId, sIfreg, modifier, now', effective, totalSize⟩ :=
  ⟨by rw [untimed_added, untimed_added],
    fun directory => absurd directory (by change ¬ isDir sIfreg = true; decide)⟩

theorem rel_concat {kept : List (DirEntryData Oid)} (effective : String)
    (same : ∀ other entry, lookup kept other = some entry → SameEntry first second entry entry)
    (other : String) : Option.Rel (SameEntry first second)
      (lookup (kept ++ [⟨fsId, sIfreg, modifier, now, effective, totalSize⟩]) other)
      (lookup (kept ++ [⟨fsId, sIfreg, modifier, now', effective, totalSize⟩]) other) := by
  unfold lookup at same ⊢
  rw [List.find?_append, List.find?_append]
  cases found : kept.find? fun entry => entry.name = other with
  | some entry => exact .some (same other entry found)
  | none =>
    by_cases named : effective = other
    · simpa [named] using sameEntry_added other
    · simp [named]

/-- The two edits leave the same entries unless a file that is there already differs. -/
theorem addBlocksFile_rel_iff
    (same : ∀ other entry, lookup entries other = some entry → SameEntry first second entry entry) :
    (∀ other, Option.Rel (SameEntry first second)
      (lookup (addBlocksFile fsId name modifier totalSize now replace entries).1 other)
      (lookup (addFile fsId name modifier totalSize now' replace entries).1 other)) ↔
      (IdenticalReplace replace entries name fsId totalSize →
        ∃ entry, lookup entries name = some entry ∧
          entry.untimed = ⟨sIfreg, modifier, totalSize, some fsId⟩) := by
  have regular : isDir sIfreg = false := by decide
  by_cases identical : IdenticalReplace replace entries name fsId totalSize
  · have isIdentical := identical
    rcases addFile_cases fsId name modifier totalSize now' replace entries with
      ⟨-, unchanged⟩ | ⟨-, fresh, -⟩ | ⟨kept, -⟩
    · obtain ⟨rfl, entry, listed, named, -⟩ := identical
      obtain ⟨found, isFound⟩ : ∃ found, lookup entries name = some found :=
        Option.isSome_iff_exists.mp (List.find?_isSome.mpr ⟨entry, listed, by simpa using named⟩)
      have added : lookup (withoutName name entries ++
          [⟨fsId, sIfreg, modifier, now, name, totalSize⟩]) name =
            some ⟨fsId, sIfreg, modifier, now, name, totalSize⟩ :=
        lookup_concat (lookup_withoutName name entries)
      rw [unchanged, addBlocksFile_replacing]
      constructor
      · intro rel _
        have here := rel name
        rw [added, isFound, Option.rel_some_some] at here
        exact ⟨found, isFound, by rw [← here.untimed, untimed_added]⟩
      · intro present other
        obtain ⟨found', isFound', untimed⟩ := present isIdentical
        obtain rfl := Option.some.inj (isFound.symm.trans isFound')
        by_cases here : other = name
        · rw [here, added, isFound, Option.rel_some_some]
          exact ⟨by rw [untimed, untimed_added],
            fun directory => absurd directory (by simp [regular])⟩
        · have elsewhere : lookup (withoutName name entries ++
              [⟨fsId, sIfreg, modifier, now, name, totalSize⟩]) other = lookup entries other := by
            rw [show lookup entries other = lookup (withoutName name entries) other from
              (lookup_withoutName_of_ne here).symm]
            simp [lookup, List.find?_append, Ne.symm here]
          rw [elsewhere]
          cases isOther : lookup entries other with
          | none => exact .none
          | some entry => exact .some (same other entry isOther)
    · exact absurd identical fresh
    · rw [kept] at identical
      cases identical.1
  · refine iff_of_true ?_ fun isIdentical => absurd isIdentical identical
    rw [addBlocksFile_eq identical]
    obtain ⟨kept, effective, adds, listed⟩ := addFile_eq_concat modifier identical
    rw [adds now, adds now']
    exact rel_concat effective fun other entry found => same other entry (listed other entry found)

end Edits

/-! ## What a commit leaves -/

/-- HEAD is the tree of `root` with the directory at the path edited, and the file is stored. -/
structure FileCommitted (before final : WebState Oid) (path : String)
    (updateFn : List (DirEntryData Oid) → List (DirEntryData Oid)) (fsId : Oid) (totalSize : Int)
    (root top : Oid) : Prop where
  grown : Table.Extends before.repo.fsObjects final.repo.fsObjects
  size : final.repo.size = before.repo.size
  isTop : resolveRootFsId final.repo = .ok top
  file : FileOfSize final.repo.fsObjects fsId totalSize
  edited : EditedAt final.repo.fsObjects (pureEdit updateFn) (pathComponents path) root top

variable {fsId : Oid}

theorem FileOfSize.extends {store after : FsStore Oid} {size : Int}
    (file : FileOfSize store fsId size) (grown : Table.Extends store after) :
    FileOfSize after fsId size := by
  obtain ⟨data, found, isSize⟩ := file
  exact ⟨data, fileBatch_extends grown found, isSize⟩

variable {before : WebState Oid} {root : Oid}

theorem StoredMore.isRoot {after : WebState Oid} (more : StoredMore before after) :
    resolveRootFsId after.repo = .ok root ↔ resolveRootFsId before.repo = .ok root := by
  rw [more.repo]
  rfl

/-! ## The stored size -/

variable {amount : Int} {final : WebState Oid} {limits : Limits}

theorem adjustRepoSize_cases {state : WebState Oid}
    (run : adjustRepoSize limits amount state = (.ok (), final)) :
    (state.repo.size = 0 ∧ ∃ total, computeRepoSize limits state.repo = .ok total ∧
      final.repo.size = max 0 total) ∨
    (state.repo.size ≠ 0 ∧ final.repo.size = max 0 (state.repo.size + amount)) := by
  unfold adjustRepoSize at run
  split at run
  · rename_i uncounted
    split at run
    · cases run
    · rename_i total counted
      cases run
      refine Or.inl ⟨uncounted, total, counted, ?_⟩
      rw [adjustSize, uncounted, Int.zero_add]
  · rename_i counted
    cases run
    exact Or.inr ⟨counted, rfl⟩

variable {updateFn : List (DirEntryData Oid) → List (DirEntryData Oid)}
    {path : String} {parent : Oid} {totalSize : Int} {entries : List (DirEntryData Oid)}

theorem FileCommitted.counted {top : Oid} {delta total : Int}
    (committed : FileCommitted before final path updateFn fsId totalSize root top)
    (honest : Honest before.repo.fsObjects root)
    (resolves : Resolves before.repo.fsObjects (pathComponents path) root parent)
    (stands : StandsFor before.repo.fsObjects parent entries)
    (new : HonestEntries final.repo.fsObjects (updateFn entries))
    (adds : entriesSize final.repo.fsObjects (updateFn entries) =
      entriesSize final.repo.fsObjects entries + delta)
    (counted : computeRepoSize limits final.repo = .ok total) :
    total = treeSize before.repo.fsObjects root + delta := by
  obtain ⟨tree, isSize⟩ := committed.edited.sized (honest.extends committed.grown)
    (resolves.extends committed.grown) (stands.extends committed.grown) new
  rw [treeSize_extends committed.grown honest, adds] at isSize
  obtain ⟨headId, row, isHead, found, isRow⟩ := resolveRootFsId_eq_ok_iff.mp committed.isTop
  have head : HeadHonest final.repo := by
    intro other isOther
    obtain rfl := Option.some.inj (isHead.symm.trans isOther)
    exact ⟨row, found, by rwa [isRow]⟩
  rw [computeRepoSize_eq head counted, headSize, isHead, Option.bind_some, found, Option.map_some,
    Option.getD_some, isRow]
  omega

section Added

variable {store : FsStore Oid} {dirents : List (DirEntryData Oid)} {fileFsId : Oid}
  {totalSize : Int}

theorem addBlocksFile_sized (name modifier : String) (now : Int) (replace : Bool)
    (honest : HonestEntries store dirents) (file : FileOfSize store fileFsId totalSize) :
    HonestEntries store (addBlocksFile fileFsId name modifier totalSize now replace dirents).1 ∧
      entriesSize store (addBlocksFile fileFsId name modifier totalSize now replace dirents).1 =
        entriesSize store dirents +
          (totalSize - if replace then namedSize store dirents name else 0) := by
  by_cases identical : IdenticalReplace replace dirents name fileFsId totalSize
  · obtain ⟨rfl, -⟩ := identical
    obtain ⟨honestFile, isSize⟩ := file.entry name modifier now
    have removed := entriesSize_withoutName name honest
    rw [addBlocksFile_replacing]
    refine ⟨(honest.filter fun entry => entry.name ≠ name).concat honestFile ?_, ?_⟩
    · simp
    · rw [entriesSize_append, entriesSize_cons, entriesSize_nil, isSize, if_pos rfl]
      omega
  · rw [addBlocksFile_eq identical]
    exact addFile_sized honest file

theorem namedSize_extends {after : FsStore Oid} (honest : HonestEntries store dirents)
    (grown : Table.Extends store after) (name : String) :
    namedSize after dirents name = namedSize store dirents name := by
  unfold namedSize
  cases found : findEntry dirents name with
  | none => rfl
  | some entry =>
    have listed := (lookup_eq_some found).1
    exact (HonestEntry.extends grown (honest.2 entry listed)).2

end Added

/-! ## The runs -/

variable [ToString Oid]

theorem fileCommitted_of_rebuilt {held written rebuilt clocked : WebState Oid}
    {change creatorName description : String} {newDir top : Oid} {chain : AncestorChain Oid}
    {data : FsDirData Oid} {ctime : Int} (plain : PlainPath path)
    (heldMore : StoredMore before held) (file : FileOfSize held.repo.fsObjects fsId totalSize)
    (isRoot : resolveRootFsId held.repo = .ok root)
    (resolved : resolveFsIdChainFromRoot held.repo.fsObjects root path = .ok (parent, chain))
    (stands : StandsFor held.repo.fsObjects parent entries)
    (isData : data.dirents = updateFn entries)
    (writing : Web.storeDir data held = (.ok newDir, written))
    (rebuilding : rebuildAbove none chain path newDir written = (.ok top, rebuilt))
    (sameRepo : clocked.repo = rebuilt.repo)
    (committing : commitRoot change top creatorName description ctime clocked = (.ok (), final)) :
    FileCommitted before final path updateFn fsId totalSize root top := by
  obtain ⟨more, newStands⟩ := storeDir_spec heldMore.genuine writing
  rw [isData] at newStands
  have edited : EditedAt written.repo.fsObjects (pureEdit updateFn) [] parent newDir :=
    .here (stands.extends more.objects) rfl newStands
  obtain ⟨more', good, -⟩ :=
    rebuildAbove_spelled plain.rooted isRoot resolved stands more edited rebuilding
  obtain ⟨sameStore, isTop⟩ := commitRoot_root committing
  have isFinal : final.repo.fsObjects = rebuilt.repo.fsObjects := by rw [sameStore, sameRepo]
  refine ⟨?_, ?_, isTop, ?_, ?_⟩
  · rw [isFinal]
    exact heldMore.objects.trans more'.objects
  · rw [commitRoot_size committing, sameRepo, more'.size, heldMore.size]
  · rw [isFinal]
    exact file.extends more'.objects
  · rw [isFinal]
    exact good plain.no_blank

variable {targetDir : String} {request : BlocksCommit Oid}

theorem commitBlocks_committed {committed : BlocksCommitted Oid}
    (genuine : Genuine before.repo.fsObjects) (plain : PlainPath targetDir)
    (positive : 0 ≤ request.fileSize)
    (run : commitBlocks targetDir request before = (.ok committed, final)) :
    ∃ root parent entries top time,
      resolveRootFsId before.repo = .ok root ∧
      committed.fileFsId = uploadedId request.blockIds request.fileSize ∧
      safeJoinPath targetDir request.fileName = .ok committed.path ∧
      committed.existing = lookup entries request.fileName ∧
      Resolves before.repo.fsObjects (pathComponents targetDir) root parent ∧
      StandsFor before.repo.fsObjects parent entries ∧
      FileCommitted before final targetDir
        (fun dirents => (addBlocksFile committed.fileFsId request.fileName request.username
          request.fileSize time request.replace dirents).1)
        committed.fileFsId request.fileSize root top := by
  obtain ⟨fileId, held, storing, run⟩ := bind_ok_iff.mp run
  obtain ⟨time, clocked, tick, run⟩ := bind_ok_iff.mp run
  obtain ⟨path, joined, joining, run⟩ := bind_ok_iff.mp run
  obtain ⟨⟨parent, chain⟩, resolved, resolving, run⟩ := bind_ok_iff.mp run
  obtain ⟨data, read, reading, run⟩ := bind_ok_iff.mp run
  obtain ⟨top, updated, updating, done⟩ := bind_ok_iff.mp run
  cases done
  obtain ⟨isId, held'⟩ := storeFile_uploaded genuine storing
  obtain ⟨heldMore, file⟩ := storeFile_spec genuine positive storing
  have more := heldMore.trans (storedMore_now heldMore.genuine tick)
  have sameRepo : clocked.repo = held.repo := by
    cases tick
    rfl
  obtain ⟨isPath, rfl⟩ := badRequest_ok_iff.mp joining
  obtain ⟨isParent, rfl⟩ := tryRead_ok_iff.mp (mapFailure_ok_iff.mp resolving)
  obtain ⟨isData, rfl⟩ := readDir_ok (mapFailure_ok_iff.mp reading)
  obtain ⟨_, rebuilt, updating, rest⟩ := bind_ok_iff.mp (mapFailure_ok_iff.mp updating)
  obtain ⟨_, committed, committing, done⟩ := bind_ok_iff.mp rest
  cases done
  obtain ⟨data', read, reading, updating⟩ := bind_ok_iff.mp updating
  obtain ⟨newDir, written, writing, rebuilding⟩ := bind_ok_iff.mp updating
  obtain ⟨isData', rfl⟩ := readDir_ok reading
  obtain rfl := Except.ok.inj (isData.symm.trans isData')
  obtain ⟨ctime, ticked, tock, committing⟩ := bind_ok_iff.mp committing
  obtain ⟨root, isRoot, fromRoot⟩ := except_bind_ok_iff.mp isParent
  have stands := standsFor_of_readFsDirData isData
  have sameDirs : ∀ id, dirBatch clocked.repo.fsObjects id = dirBatch before.repo.fsObjects id :=
    fun id => by rw [sameRepo, held'.sameDirs id]
  refine ⟨root, parent, data.dirents, top, time, more.isRoot.mp isRoot, isId, isPath, rfl,
    (resolves_of_chain fromRoot).of_dirBatch sameDirs, stands.of_dirBatch sameDirs, ?_⟩
  refine fileCommitted_of_rebuilt plain more ?_ isRoot fromRoot stands rfl writing rebuilding ?_
    committing
  · rw [sameRepo]
    exact file
  · cases tock
    rfl

theorem ensureDirParts_present {email : String} : ∀ {rest : List String}
    {current : String} {fsId dir : Oid}, Resolves before.repo.fsObjects rest fsId dir →
      ensureDirParts email rest current fsId before = (.ok (), before) := by
  intro rest
  induction rest with
  | nil => exact fun _ => rfl
  | cons part rest ih =>
    intro current fsId dir resolves
    obtain ⟨entries, entry, stands, found, -, below⟩ := resolves
    obtain ⟨data, read, rfl⟩ := stands.read
    have found : findEntry data.dirents part = some entry := found
    refine bind_ok_iff.mpr ⟨data, before, tryRead_ok_iff.mpr ⟨read, rfl⟩, ?_⟩
    rw [found]
    exact ih below

theorem ensureDirRecursive_present {email : String} {dir : Oid}
    (isRoot : resolveRootFsId before.repo = .ok root)
    (resolves : Resolves before.repo.fsObjects (pathComponents path) root dir) :
    ensureDirRecursive path email before = (.ok (), before) := by
  unfold ensureDirRecursive
  split
  · rfl
  · refine bind_ok_iff.mpr ⟨some root, before, tryRead_ok_iff.mpr
      ⟨headRootIdOpt_eq_some_iff.mpr isRoot, rfl⟩, ?_⟩
    exact ensureDirParts_present resolves

theorem uploadParent_eq {repo : Repo Oid} (isRoot : resolveRootFsId repo = .ok root) :
    uploadParent repo path = resolveFsIdChainFromRoot repo.fsObjects root path := by
  unfold uploadParent
  split
  · rename_i atRoot
    obtain ⟨headId, row, isHead, found, rfl⟩ := resolveRootFsId_eq_ok_iff.mp isRoot
    rw [isHead]
    simp only [found, okOr]
    rw [resolveFsIdChainFromRoot, if_pos (Or.inl atRoot)]
    rfl
  · rw [resolveFsIdChain, isRoot]
    rfl

variable {blockIds : List Oid} {effective : String} {modifier : String} {replace : Bool}

theorem createFileFromBlocks_committed {name : String} (genuine : Genuine before.repo.fsObjects)
    (plain : PlainPath targetDir) (positive : 0 ≤ totalSize)
    (isRoot : resolveRootFsId before.repo = .ok root)
    (resolves : Resolves before.repo.fsObjects (pathComponents targetDir) root parent)
    (stands : StandsFor before.repo.fsObjects parent entries)
    (run : createFileFromBlocks targetDir name blockIds totalSize modifier replace before =
      (.ok (fsId, effective), final)) :
    ∃ top time, fsId = uploadedId blockIds totalSize ∧
      effective = (addFile fsId name modifier totalSize time replace entries).2 ∧
      FileCommitted before final targetDir
        (fun dirents => (addFile fsId name modifier totalSize time replace dirents).1) fsId
        totalSize root top := by
  obtain ⟨time, clocked, tick, run⟩ := bind_ok_iff.mp run
  obtain ⟨fileId, held, storing, run⟩ := bind_ok_iff.mp run
  obtain ⟨⟨parent', chain⟩, resolved, resolving, run⟩ := bind_ok_iff.mp run
  obtain ⟨data, read, reading, run⟩ := bind_ok_iff.mp run
  obtain ⟨newDir, written, writing, run⟩ := bind_ok_iff.mp run
  obtain ⟨top, rebuilt, rebuilding, run⟩ := bind_ok_iff.mp run
  obtain ⟨_, committed, committing, done⟩ := bind_ok_iff.mp run
  cases done
  have ticked := storedMore_now genuine tick
  obtain ⟨isId, -⟩ := storeFile_uploaded ticked.genuine storing
  obtain ⟨heldMore, file⟩ := storeFile_spec ticked.genuine positive storing
  have more := ticked.trans heldMore
  obtain ⟨isParent, rfl⟩ := tryRead_ok_iff.mp resolving
  obtain ⟨isData, rfl⟩ := readDir_ok reading
  have isRoot' := more.isRoot.mpr isRoot
  rw [uploadParent_eq isRoot'] at isParent
  obtain rfl := (resolves_of_chain isParent).unique (resolves.extends more.objects)
  have standsHere := standsFor_of_readFsDirData isData
  obtain rfl := standsHere.entries.symm.trans (stands.extends more.objects).entries
  exact ⟨top, time, isId, rfl, fileCommitted_of_rebuilt plain more file isRoot' isParent standsHere
    rfl writing rebuilding rfl committing⟩

variable {filename : String} {withinQuota : Bool}

theorem uploadFileCommittedStream_committed {hasUser ensureDir : Bool}
    (genuine : Genuine before.repo.fsObjects) (plain : PlainPath targetDir)
    (positive : 0 ≤ totalSize) (isRoot : resolveRootFsId before.repo = .ok root)
    (resolves : Resolves before.repo.fsObjects (pathComponents targetDir) root parent)
    (stands : StandsFor before.repo.fsObjects parent entries)
    (run : uploadFileCommittedStream limits targetDir filename blockIds totalSize modifier hasUser
      ensureDir replace withinQuota before = (.ok (fsId, effective), final)) :
    ∃ path freed created top time, validateFilename filename = .ok () ∧
      safeJoinPath targetDir filename = .ok path ∧
      freedSize limits before.repo path replace = .ok freed ∧
      fsId = uploadedId blockIds totalSize ∧
      effective = (addFile fsId filename modifier totalSize time replace entries).2 ∧
      FileCommitted before created targetDir
        (fun dirents => (addFile fsId filename modifier totalSize time replace dirents).1) fsId
        totalSize root top ∧
      adjustRepoSize limits (totalSize - freed) created = (.ok (), final) := by
  obtain ⟨_, checked, checking, run⟩ := bind_ok_iff.mp run
  obtain ⟨path, parsed, parsing, run⟩ := bind_ok_iff.mp run
  obtain ⟨freed, sized, sizing, run⟩ := bind_ok_iff.mp run
  obtain ⟨_, allowed, allowing, run⟩ := bind_ok_iff.mp run
  obtain ⟨valid, rfl⟩ := badRequest_ok_iff.mp checking
  obtain ⟨isPath, rfl⟩ := tryRead_ok_iff.mp parsing
  obtain ⟨isFreed, rfl⟩ := tryRead_ok_iff.mp sizing
  obtain ⟨-, rfl⟩ := tryRead_ok_iff.mp allowing
  have run : (do
      let added ← .mapFailure (internalError "upload failed")
        (createFileFromBlocks targetDir filename blockIds totalSize modifier replace)
      let _ ← .tryRead fun _ => (safeJoinPath targetDir added.2).mapError fun failure =>
        .badRequest ("invalid filename: " ++ failure)
      adjustRepoSize limits (totalSize - freed)
      pure added : Web Oid (Oid × String)) before = (.ok (fsId, effective), final) := by
    split at run
    · obtain ⟨_, ensured, ensuring, run⟩ := bind_ok_iff.mp run
      rw [ensureDirRecursive_present isRoot resolves] at ensuring
      cases ensuring
      exact run
    · exact run
  obtain ⟨added, created, creating, run⟩ := bind_ok_iff.mp run
  obtain ⟨path', reparsed, reparsing, run⟩ := bind_ok_iff.mp run
  obtain ⟨_, adjusted, adjusting, done⟩ := bind_ok_iff.mp run
  cases done
  obtain ⟨-, rfl⟩ := tryRead_ok_iff.mp reparsing
  obtain ⟨top, time, isId, isEffective, committed⟩ := createFileFromBlocks_committed genuine plain
    positive isRoot resolves stands (mapFailure_ok_iff.mp creating)
  exact ⟨path, freed, created, top, time, valid, mapError_eq_ok_iff.mp isPath, isFreed, isId,
    isEffective, committed, adjusting⟩

/-! ## The two requests -/

omit [DecidableEq Oid] [Digests Oid] [ToString Oid] in
theorem onLibrary_ok_iff {Result : Type} {proc : Web Oid Result} {site final : UploadSite Oid}
    {result : Result} : SiteProc.onLibrary proc site = (.ok result, final) ↔
      proc site.web = (.ok result, final.web) ∧ final = { site with web := final.web } := by
  unfold SiteProc.onLibrary
  constructor
  · intro run
    obtain ⟨isResult, rfl⟩ := Prod.mk.inj run
    exact ⟨Prod.ext isResult rfl, rfl⟩
  · rintro ⟨ran, isFinal⟩
    rw [isFinal, ran]

theorem uploadBlksApi_ok {blockSize : Oid → Option Nat} {userId : Nat}
    {before final : UploadSite Oid} {result : Oid × String}
    (run : uploadBlksApi limits blockSize userId withinQuota request before = (.ok result, final)) :
    ∃ targetDir committed web, 0 ≤ request.fileSize ∧
      safeJoinPath request.parentDir request.relativePath = .ok targetDir ∧
      commitBlocks targetDir request before.web = (.ok committed, web) ∧
      adjustRepoSize limits
        (request.fileSize - (committed.existing.map DirEntryData.size).getD 0) web =
          (.ok (), final.web) ∧
      final.reserved = before.reserved ∧
      final.activities.map ActivityEntry.path =
        before.activities.map ActivityEntry.path ++ [committed.path] := by
  obtain ⟨_, named, naming, run⟩ := bind_ok_iff.mp run
  obtain ⟨_, nonempty, checking, run⟩ := bind_ok_iff.mp run
  obtain ⟨sizes, statted, statting, run⟩ := bind_ok_iff.mp run
  obtain ⟨_, summed, summing, run⟩ := bind_ok_iff.mp run
  obtain ⟨_, allowed, allowing, run⟩ := bind_ok_iff.mp run
  obtain ⟨targetDir, targeted, targeting, run⟩ := bind_ok_iff.mp run
  obtain ⟨committed, stored, committing, run⟩ := bind_ok_iff.mp run
  obtain ⟨_, finalized, finalizing, done⟩ := bind_ok_iff.mp run
  obtain ⟨_, adjusted, adjusting, logging⟩ := bind_ok_iff.mp finalizing
  cases done
  cases logging
  obtain ⟨-, rfl⟩ := tryRead_ok_iff.mp naming
  obtain ⟨-, rfl⟩ := tryRead_ok_iff.mp checking
  obtain ⟨-, rfl⟩ := tryRead_ok_iff.mp statting
  obtain ⟨isSum, rfl⟩ := tryRead_ok_iff.mp summing
  obtain ⟨-, rfl⟩ := tryRead_ok_iff.mp allowing
  obtain ⟨isTarget, rfl⟩ := tryRead_ok_iff.mp targeting
  have isSum := ensure_eq_ok_iff.mp isSum
  obtain ⟨isCommitted, storedIs⟩ := onLibrary_ok_iff.mp committing
  obtain ⟨isAdjusted, adjustedIs⟩ := onLibrary_ok_iff.mp adjusting
  refine ⟨targetDir, committed, stored.web, ?_, mapError_eq_ok_iff.mp isTarget, isCommitted,
    isAdjusted, ?_, ?_⟩
  · rw [← isSum]
    exact Int.natCast_nonneg _
  · rw [adjustedIs, storedIs]
  · rw [adjustedIs, storedIs, List.map_append]
    rfl

theorem commitUpload_ok {userId : Nat} {repoId : String} {ensureDir : Bool}
    {before final : UploadSite Oid}
    (run : commitUpload limits userId repoId targetDir filename blockIds totalSize modifier
      ensureDir replace withinQuota before = (.ok (fsId, effective), final)) :
    ∃ path, uploadFileCommittedStream limits targetDir filename blockIds totalSize modifier true
        ensureDir replace withinQuota before.web = (.ok (fsId, effective), final.web) ∧
      safeJoinPath targetDir effective = .ok path ∧
      final.reserved = before.reserved.drop (userId, repoId) ∧
      final.activities.map ActivityEntry.path =
        before.activities.map ActivityEntry.path ++ [path] := by
  obtain ⟨added, stored, adding, run⟩ := bind_ok_iff.mp run
  obtain ⟨path, joined, joining, run⟩ := bind_ok_iff.mp run
  obtain ⟨_, released, releasing, run⟩ := bind_ok_iff.mp run
  obtain ⟨_, logged, logging, done⟩ := bind_ok_iff.mp run
  cases done
  cases logging
  cases releasing
  obtain ⟨isPath, rfl⟩ := tryRead_ok_iff.mp joining
  obtain ⟨isAdded, storedIs⟩ := onLibrary_ok_iff.mp adding
  refine ⟨path, isAdded, mapError_eq_ok_iff.mp isPath, ?_, ?_⟩
  · rw [storedIs]
  · rw [storedIs, List.map_append]
    rfl

/-! ## What the requests record -/

omit [Digests Oid] [ToString Oid] in
theorem joined_eq_iff {asked recorded : String} {now : Int}
    (noDots : ∀ part ∈ pathComponents targetDir, ¬ IsDots part)
    (valid : validateFilename filename = .ok ())
    (isAsked : safeJoinPath targetDir filename = .ok asked) (isRecorded : safeJoinPath targetDir
      (addFile fsId filename modifier totalSize now replace entries).2 = .ok recorded) :
    asked = recorded ↔ (replace = true ∨ lookup entries filename = none) := by
  obtain ⟨-, notDot, notDots, noSlash⟩ := validateFilename_component valid
  have sameName : (addFile fsId filename modifier totalSize now replace entries).2 = filename →
      asked = recorded := by
    intro same
    rw [same, isAsked] at isRecorded
    exact Except.ok.inj isRecorded
  rcases addFile_cases fsId filename modifier totalSize now replace entries with
    ⟨identical, same⟩ | ⟨replaces, -, same⟩ | ⟨adds, effective, -, isEffective, same⟩
  · exact iff_of_true (sameName (congrArg Prod.snd same)) (Or.inl identical.1)
  · exact iff_of_true (sameName (congrArg Prod.snd same)) (Or.inl replaces)
  · rw [same] at isRecorded sameName
    split at isEffective
    · rename_i free
      exact iff_of_true (sameName isEffective) (Or.inr free)
    · rename_i taken
      refine iff_of_false ?_ (by simp [adds, taken])
      -- The numbered name is visible and differs from the one that is taken.
      obtain ⟨component, named, visible⟩ := generateUniqueFilename_component entries noSlash
      have fresh := generateUniqueFilename_fresh entries filename
      rw [isEffective] at isRecorded
      obtain ⟨-, isNumbered⟩ := safeJoinPath_of_noDots noDots component named isRecorded
      obtain ⟨-, isPath⟩ := safeJoinPath_of_noDots noDots noSlash (not_or.mpr ⟨notDot, notDots⟩)
        isAsked
      have plain := plainNames_pathComponents targetDir
      have plainWith : ∀ {name : String}, '/' ∉ name.toList → trimText name ≠ "" →
          PlainNames (pathComponents targetDir ++ [name]) := by
        intro name noSlash visible part listed
        rcases List.mem_append.mp listed with before | last
        · exact plain part before
        · rw [List.mem_singleton.mp last]
          exact ⟨fun same => visible (by rw [same]; decide), noSlash⟩
      rw [if_neg visible] at isNumbered
      rw [isNumbered, isPath]
      split
      · intro same
        have shorter := pathOf_injective plain (plainWith component visible) same
        simp at shorter
      · rename_i shown
        intro same
        have same := pathOf_injective (plainWith noSlash shown) (plainWith component visible) same
        have isTaken : lookup entries filename ≠ none := taken
        rw [List.append_cancel_left_eq, List.singleton_inj] at same
        refine isTaken (lookup_eq_none_iff.mpr ?_)
        rwa [← same] at fresh


/-! ## The stored size of the two -/

section

omit [ToString Oid]

theorem adjustRepoSize_of_counted {state : WebState Oid} (counted : state.repo.size ≠ 0)
    (run : adjustRepoSize limits amount state = (.ok (), final)) :
    final.repo.size = max 0 (state.repo.size + amount) := by
  rcases adjustRepoSize_cases run with ⟨uncounted, -⟩ | ⟨-, isSize⟩
  · exact absurd uncounted counted
  · exact isSize

theorem FileCommitted.head {before made : WebState Oid} {path : String} {fsId root top : Oid}
    {totalSize : Int} (committed : FileCommitted before made path updateFn fsId totalSize root top)
    (adjusted : adjustRepoSize limits amount made = (.ok (), final)) :
    resolveRootFsId final.repo = .ok top ∧ final.repo.fsObjects = made.repo.fsObjects := by
  rw [adjustRepoSize_ok adjusted]
  exact ⟨committed.isTop, rfl⟩

variable {before made made' final' : WebState Oid} {path name modifier : String}
    {fsId root top top' parent : Oid} {totalSize now now' amount' : Int} {replace : Bool}
    {entries : List (DirEntryData Oid)}
    (resolves : Resolves before.repo.fsObjects (pathComponents path) root parent)
    (stands : StandsFor before.repo.fsObjects parent entries)
    (committed : FileCommitted before made path
      (fun dirents => (addBlocksFile fsId name modifier totalSize now replace dirents).1) fsId
      totalSize root top)
    (committed' : FileCommitted before made' path
      (fun dirents => (addFile fsId name modifier totalSize now' replace dirents).1) fsId
      totalSize root top')
    (adjusted : adjustRepoSize limits amount made = (.ok (), final))
    (adjusted' : adjustRepoSize limits amount' made' = (.ok (), final'))

include resolves stands committed committed' adjusted adjusted'

theorem sizes_counted (honest : Honest before.repo.fsObjects root)
    (uncounted : before.repo.size = 0) : final.repo.size = final'.repo.size := by
  have honestEntries := ((resolves.honest honest).entries stands).1
  obtain ⟨new, adds⟩ := addBlocksFile_sized name modifier now replace
    (honestEntries.extends committed.grown) committed.file
  obtain ⟨new', adds'⟩ := @addFile_sized Oid _ _ _ _ _ _ name modifier now' replace
    (honestEntries.extends committed'.grown) committed'.file
  rw [namedSize_extends honestEntries committed.grown] at adds
  rw [namedSize_extends honestEntries committed'.grown] at adds'
  rcases adjustRepoSize_cases adjusted with ⟨-, total, isTotal, isSize⟩ | ⟨counted, -⟩
  · rcases adjustRepoSize_cases adjusted' with ⟨-, total', isTotal', isSize'⟩ | ⟨counted, -⟩
    · rw [isSize, isSize', committed.counted honest resolves stands new adds isTotal,
        committed'.counted honest resolves stands new' adds' isTotal']
    · exact absurd (committed'.size.trans uncounted) counted
  · exact absurd (committed.size.trans uncounted) counted

theorem sameHead_iff (tree : TreeStored before.repo.fsObjects root) :
    SameHead final.repo final'.repo ↔ (IdenticalReplace replace entries name fsId totalSize →
      ∃ entry, lookup entries name = some entry ∧
        entry.untimed = ⟨sIfreg, modifier, totalSize, some fsId⟩) := by
  obtain ⟨isTop, objects⟩ := committed.head adjusted
  obtain ⟨isTop', objects'⟩ := committed'.head adjusted'
  have sameTop : SameHead final.repo final'.repo ↔
      SameTree made.repo.fsObjects top made'.repo.fsObjects top' := by
    rw [← objects, ← objects']
    constructor
    · rintro ⟨_, _, isFirst, isSecond, same⟩
      obtain rfl := Except.ok.inj (isTop.symm.trans isFirst)
      obtain rfl := Except.ok.inj (isTop'.symm.trans isSecond)
      exact same
    · exact fun same => ⟨top, top', isTop, isTop', same⟩
  rw [sameTop, committed.edited.sameTree_iff committed.grown committed'.grown tree committed'.edited
    resolves stands]
  exact addBlocksFile_rel_iff fun other entry found =>
    (tree.of_resolves resolves).sameEntry stands committed.grown committed'.grown found

end

omit [DecidableEq Oid] [Digests Oid] [ToString Oid] in
theorem remaining_drop {before final : UploadSite Oid} {key : Nat × String}
    (dropped : final.reserved = before.reserved.drop key) : final.remaining key = 0 := by
  rw [UploadSite.remaining, dropped, Ledger.total_drop]
  simp [Ledger.total]

/-! ## When the two agree -/

/-- Of the requests that both accept, the two leave the same library on those of
`CommitsAlike` and on no other. -/
theorem block_commit_agrees_iff {limits : Limits} {blockSize : Oid → Option Nat} {userId : Nat}
    {repoId targetDir : String} {withinQuota withinQuota' ensureDir : Bool}
    {request : BlocksCommit Oid} {before first second : UploadSite Oid}
    {committed added : Oid × String}
    (genuine : Genuine before.web.repo.fsObjects) (headStored : HeadStored before.web.repo)
    (honest : before.web.repo.size = 0 → HeadHonest before.web.repo)
    (isTarget : safeJoinPath request.parentDir request.relativePath = .ok targetDir)
    (blocks : uploadBlksApi limits blockSize userId withinQuota request before =
      (.ok committed, first))
    (stream : commitUpload limits userId repoId targetDir request.fileName request.blockIds
      request.fileSize request.username ensureDir request.replace withinQuota' before =
        (.ok added, second)) :
    SameCommit (userId, repoId) first second ↔
      CommitsAlike limits before (userId, repoId) targetDir request := by
  obtain ⟨plain, noDots⟩ := safeJoinPath_plain isTarget
  obtain ⟨_, report, made, positive, isTarget', storing, adjusting, kept, paths⟩ :=
    uploadBlksApi_ok blocks
  obtain rfl := Except.ok.inj (isTarget.symm.trans isTarget')
  obtain ⟨path, streaming, isPath, dropped, paths'⟩ := commitUpload_ok stream
  obtain ⟨root, parent, entries, top, time, isRoot, isId, isAsked, isExisting, resolves, stands,
    edit⟩ := commitBlocks_committed genuine plain positive storing
  obtain ⟨asked, freed, made', top', time', valid, isAsked', isFreed, isId', isEffective, edit',
    adjusting'⟩ := uploadFileCommittedStream_committed genuine plain positive isRoot resolves stands
      streaming
  obtain rfl := Except.ok.inj (isAsked.symm.trans isAsked')
  rw [isId] at edit
  rw [isId'] at edit' isEffective
  have isEntries : uploadTarget before.web.repo targetDir = (parent, entries) :=
    uploadTarget_of_base plain.rooted (Or.inl isRoot) resolves stands
  have sameHead := sameHead_iff resolves stands edit edit' adjusting adjusting'
    (headStored root isRoot)
  have samePaths : first.activities.map ActivityEntry.path =
      second.activities.map ActivityEntry.path ↔
        (request.replace = true ∨ lookup entries request.fileName = none) := by
    rw [isEffective] at isPath
    rw [paths, paths', List.append_cancel_left_eq, List.singleton_inj]
    exact joined_eq_iff noDots valid isAsked isPath
  have sameRemaining : first.remaining (userId, repoId) = second.remaining (userId, repoId) ↔
      before.remaining (userId, repoId) = 0 := by
    rw [remaining_drop dropped, UploadSite.remaining, kept]
    rfl
  have sameSize : first.web.repo.size = second.web.repo.size ↔
      (before.web.repo.size = 0 ∨ max 0 (before.web.repo.size + (request.fileSize -
          ((lookup entries request.fileName).map DirEntryData.size).getD 0)) =
        max 0 (before.web.repo.size + (request.fileSize - freed))) := by
    by_cases uncounted : before.web.repo.size = 0
    · refine iff_of_true ?_ (Or.inl uncounted)
      obtain ⟨headId, row, isHead, found, isRow⟩ := resolveRootFsId_eq_ok_iff.mp isRoot
      obtain ⟨row', found', honestRoot⟩ := honest uncounted headId isHead
      obtain rfl := Option.some.inj (found.symm.trans found')
      rw [isRow] at honestRoot
      exact sizes_counted resolves stands edit edit' adjusting adjusting' honestRoot uncounted
    · rw [adjustRepoSize_of_counted (by rwa [edit.size]) adjusting,
        adjustRepoSize_of_counted (by rwa [edit'.size]) adjusting', edit.size, edit'.size,
        isExisting]
      simp [uncounted]
  constructor
  · rintro ⟨head, size, sameNames, released⟩
    refine ⟨sameRemaining.mp released, ?_, ?_, ?_⟩
    · rw [isEntries]
      exact samePaths.mp sameNames
    · rw [isEntries]
      exact sameHead.mp head
    · rw [isEntries]
      refine (sameSize.mp size).imp_right fun same joined freed' isJoined isFreed' => ?_
      obtain rfl := Except.ok.inj (isAsked.symm.trans isJoined)
      obtain rfl := Except.ok.inj (isFreed.symm.trans isFreed')
      exact same
  · rintro ⟨unreserved, named, present, sized⟩
    rw [isEntries] at named present sized
    exact ⟨sameHead.mpr present,
      sameSize.mpr (sized.imp_right fun same => same report.path freed isAsked isFreed),
      samePaths.mpr named, sameRemaining.mpr unreserved⟩

/-! ## A library with one file -/

def fourBytes : FsFileData FreeId := ⟨[.atom 9], 4, seafMetadataTypeFile, 1⟩

def oneFileLibrary : WebState FreeId :=
  let repo := libraryOf (directory [fileEntry "f" (Digests.fileId fourBytes) 4]) []
  ⟨{ repo with fsObjects := (storeFsFileObject repo.fsObjects fourBytes).2, size := 4 }, [],
    fun count => count⟩

def oneFileSite (reserved : Ledger (Nat × String)) : UploadSite FreeId :=
  ⟨oneFileLibrary, [], reserved⟩

def threeBytes (name : String) : BlocksCommit FreeId := ⟨"/", "", name, [.atom 7], 3, false, "user"⟩

def storedBlock (id : FreeId) : Option Nat := if id = .atom 7 then some 3 else none

theorem oneFileLibrary_genuine : Genuine oneFileLibrary.repo.fsObjects :=
  (storeFsFileObject_spec (genuine_libraryOf _ _) (rfl : storeFsFileObject _ fourBytes = _)).2

theorem oneFileLibrary_stored : HeadStored oneFileLibrary.repo :=
  headStored_of_check 2 (by decide +kernel)

/-- A new name, with nothing reserved. -/
theorem block_commit_agrees_on_new : ∃ first second,
    uploadBlksApi defaultLimits storedBlock 1 true (threeBytes "g") (oneFileSite .empty) =
      (.ok (uploadedId [.atom 7] 3, "g"), first) ∧
    commitUpload defaultLimits 1 "repo" "/" "g" [.atom 7] 3 "user" false false true
      (oneFileSite .empty) = (.ok (uploadedId [.atom 7] 3, "g"), second) ∧
    SameCommit (1, "repo") first second := by
  have blocks : (uploadBlksApi defaultLimits storedBlock 1 true (threeBytes "g")
      (oneFileSite .empty)).1 = .ok (uploadedId [.atom 7] 3, "g") := by decide +kernel
  have stream : (commitUpload defaultLimits 1 "repo" "/" "g" [.atom 7] 3 "user" false false true
      (oneFileSite .empty)).1 = .ok (uploadedId [.atom 7] 3, "g") := by decide +kernel
  have free : lookup (uploadTarget (oneFileSite .empty).web.repo "/").2 "g" = none := by
    decide +kernel
  refine ⟨_, _, Prod.ext blocks rfl, Prod.ext stream rfl, (block_commit_agrees_iff
    oneFileLibrary_genuine oneFileLibrary_stored (fun uncounted => absurd uncounted (by decide))
    (by decide +kernel) (Prod.ext blocks rfl) (Prod.ext stream rfl)).mpr
      ⟨rfl, Or.inr free, fun identical => absurd identical.1 (by decide), Or.inr ?_⟩⟩
  intro path freed _ isFreed
  cases isFreed
  have free : lookup (uploadTarget (oneFileSite .empty).web.repo "/").2 (threeBytes "g").fileName =
    none := free
  rw [free]
  rfl

def threeReserved : Ledger (Nat × String) := Ledger.empty.credit (1, "repo") 3

/-- The name is taken: the file gets another one.  The block endpoint logs the name that was
asked for, takes the size of the file that stays and keeps the reservation. -/
theorem block_commit_differs : ∃ first second,
    uploadBlksApi defaultLimits storedBlock 1 true (threeBytes "f") (oneFileSite threeReserved) =
      (.ok (uploadedId [.atom 7] 3, "f (1)"), first) ∧
    commitUpload defaultLimits 1 "repo" "/" "f" [.atom 7] 3 "user" false false true
      (oneFileSite threeReserved) = (.ok (uploadedId [.atom 7] 3, "f (1)"), second) ∧
    first.activities.map ActivityEntry.path = ["/f"] ∧
    second.activities.map ActivityEntry.path = ["/f (1)"] ∧
    first.web.repo.size = 3 ∧ second.web.repo.size = 7 ∧
    first.remaining (1, "repo") = 3 ∧ second.remaining (1, "repo") = 0 ∧
    ¬ SameCommit (1, "repo") first second := by
  refine ⟨_, _, Prod.ext (by decide +kernel) rfl, Prod.ext (by decide +kernel) rfl,
    by decide +kernel, by decide +kernel, by decide +kernel, by decide +kernel,
    by decide +kernel, by decide +kernel, fun same => absurd same.paths (by decide +kernel)⟩

end Nanofile
