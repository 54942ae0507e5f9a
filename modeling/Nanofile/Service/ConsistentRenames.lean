import Nanofile.Service.RenamePairs

/-!
# When the renames of a diff are consistent

Exactly when the entries the two trees lose and gain can be paired by their ids alone.
-/

set_option autoImplicit false

namespace Nanofile

variable {Oid : Type} [DecidableEq Oid] [Digests Oid]

/-- The modes of a tree are those of its objects: what is not recorded as a directory is
none. -/
def FilesNotDirs (store : FsStore Oid) (root : List (DirEntryData Oid)) : Prop :=
  ∀ path entry, entryAt store root path = some entry → hasDirBit entry.mode = false →
    dirBatch store entry.id = none

/-- The first `depth` levels of what the new tree gains, a renamed directory unread. -/
def gainedTo (store : FsStore Oid) (old new : List (DirEntryData Oid)) (depth : Nat) :
    List (PathEntry Oid) :=
  (listingTo store new depth).filter fun item => reportedAt store old new item.1

variable {store : FsStore Oid} {old new : List (DirEntryData Oid)}

theorem entriesOf_of_none {objId : Oid} (notDir : dirBatch store objId = none) :
    entriesOf store objId = [] := by
  rw [entriesOf, notDir]
  rfl

theorem FilesNotDirs.changesEmpty (oldFiles : FilesNotDirs store old)
    (newFiles : FilesNotDirs store new) : KindChangesEmpty store old new := by
  intro path oldEntry entry before present
  constructor
  · intro _ file
    exact entriesOf_of_none (oldFiles path oldEntry before file)
  · intro _ file same
    rw [← same]
    exact entriesOf_of_none (newFiles path entry present file)

theorem WellFormed.filesNotDirs (formed : WellFormed store old) : FilesNotDirs store old := by
  intro path entry present file
  obtain ⟨parent, name, rfl⟩ := (List.eq_nil_or_concat path).resolve_left
    (entryAt_ne_nil present)
  rw [List.concat_eq_append, entryAt_concat] at present
  have listed := (lookup_eq_some present).1
  rcases formed.below_dirAt parent with below | empty
  · rcases (formed _ below).2 entry listed with ⟨-, notDir⟩ | ⟨directory, -⟩
    · exact notDir
    · rw [hasDirBit_of_isDir directory] at file
      simp at file
  · rw [empty] at listed
    simp at listed

section Walked

variable {acc : TreeAcc Oid}

omit [Digests Oid] in
theorem result_oldPaths_nodup (edited : ∀ edit ∈ acc.changes, edit.oldPath = none)
    (distinct : (acc.dropped.map Prod.fst).Nodup) :
    (acc.result.filterMap FsChange.oldPath).Nodup := by
  have sorted : acc.result.Perm
      ((acc.changes ++ acc.dropped.map deleteChange ++
        pairCreated (objToDeleted acc.dropped) acc.created).map
          (markSuperseded (pairCreated (objToDeleted acc.dropped) acc.created))) :=
    List.perm_insertionSort _ _
  refine (sorted.filterMap FsChange.oldPath).nodup_iff.mpr ?_
  have marked : (FsChange.oldPath ∘
      markSuperseded (pairCreated (objToDeleted acc.dropped) acc.created)) = FsChange.oldPath := by
    funext change
    exact (markSuperseded_fields _ change).2.2.2.2
  have noEdits : acc.changes.filterMap FsChange.oldPath = [] :=
    List.filterMap_eq_nil_iff.mpr edited
  have noDeletes : (acc.dropped.map deleteChange).filterMap FsChange.oldPath = [] := by
    refine List.filterMap_eq_nil_iff.mpr ?_
    intro change member
    obtain ⟨item, -, rfl⟩ := List.mem_map.mp member
    rfl
  rw [List.filterMap_map, marked, List.filterMap_append, List.filterMap_append, noEdits,
    noDeletes, List.nil_append, List.nil_append]
  exact pairCreated_oldPaths_nodup (pathsApart_ofObject distinct)

theorem mem_result_delete (collected : Collected store old new acc) {change : FsChange Oid}
    (member : change ∈ acc.result) (isDelete : change.opType = .delete) :
    ∃ item ∈ acc.dropped, change =
      markSuperseded (pairCreated (objToDeleted acc.dropped) acc.created) (deleteChange item) := by
  obtain ⟨plain, origin, rfl⟩ := mem_result.mp member
  rw [(markSuperseded_fields _ plain).1] at isDelete
  rcases origin with isEdit | ⟨item, isDropped, rfl⟩ | isPaired
  · obtain ⟨path, entry, rfl, -⟩ := collected.edited plain isEdit
    simp [plainChange] at isDelete
  · exact ⟨item, isDropped, rfl⟩
  · obtain ⟨before, item, after, -, rfl | ⟨gone, -, rfl, -⟩⟩ := mem_pairCreated isPaired
    · simp [createChange, plainChange] at isDelete
    · have renamed := isRename_paired item gone.1
      rw [IsRename, isDelete] at renamed
      simp at renamed

/-- The delete of a dropped entry is superseded by what is paired or above it, as far as
the entries of its own id are all paired or covered. -/
theorem superseded_iff_renamed (collected : Collected store old new acc)
    {gone : PathEntry Oid} :
    (∃ other ∈ acc.result, IsRename other ∧ (other.oldPath = some gone.1 ∨
        other.objType = .dir ∧ ∃ dir, other.oldPath = some dir ∧ isBelow dir gone.1 = true)) ↔
      (∃ objId, ∃ pair ∈ pairsOf (ofObject acc.dropped) acc.created objId, pair.2.1 = gone.1) ∨
      ∃ objId, ∃ pair ∈ pairsOf (ofObject acc.dropped) acc.created objId,
        hasDirBit pair.1.2.mode = true ∧ isBelow pair.2.1 gone.1 = true := by
  have edited : ∀ edit ∈ acc.changes, edit.opType = .edit := by
    intro edit member
    obtain ⟨path, entry, rfl, -⟩ := collected.edited edit member
    rfl
  constructor
  · rintro ⟨other, member, renamed, here⟩
    obtain ⟨objId, pair, inside, rfl⟩ := (mem_result_renamed edited).mp ⟨member, renamed⟩
    rcases here with same | ⟨isDir, dir, isOld, below⟩
    · exact Or.inl ⟨objId, pair, inside, Option.some.inj same⟩
    · refine Or.inr ⟨objId, pair, inside, objTypeOf_dir.mp isDir, ?_⟩
      rwa [Option.some.inj isOld]
  · rintro (⟨objId, pair, inside, same⟩ | ⟨objId, pair, inside, isDir, below⟩)
    · obtain ⟨member, renamed⟩ := (mem_result_renamed edited).mpr ⟨objId, pair, inside, rfl⟩
      exact ⟨_, member, renamed, Or.inl (congrArg some same)⟩
    · obtain ⟨member, renamed⟩ := (mem_result_renamed edited).mpr ⟨objId, pair, inside, rfl⟩
      exact ⟨_, member, renamed, Or.inr ⟨objTypeOf_dir.mpr isDir, pair.2.1, rfl, below⟩⟩

theorem paired_path (all : CollectedAll store old new acc) {objId : Oid}
    {pair : PathEntry Oid × PathEntry Oid} {gone : PathEntry Oid}
    (inside : pair ∈ pairsOf (ofObject acc.dropped) acc.created objId)
    (isDropped : gone ∈ acc.dropped) (same : pair.2.1 = gone.1) :
    (pair.1, gone) ∈ pairsOf (ofObject acc.dropped) acc.created gone.2.id := by
  have one : pair.2 = gone :=
    List.inj_on_of_nodup_map all.dropped_nodup (mem_pairsOf inside).2.1 isDropped same
  have isId : objId = gone.2.id := by
    rw [← one]
    exact (mem_pairsOf inside).2.2.symm
  rw [← isId, ← one]
  exact inside

theorem walked_renames_iff (collected : Collected store old new acc)
    (all : CollectedAll store old new acc) :
    ConsistentRenames store old new acc.result ↔ RenamesApart acc.dropped acc.created := by
  have edited : ∀ edit ∈ acc.changes, edit.opType = .edit ∧ edit.oldPath = none := by
    intro edit member
    obtain ⟨path, entry, rfl, -⟩ := collected.edited edit member
    exact ⟨rfl, rfl⟩
  have renames : ∀ change, (change ∈ acc.result ∧ IsRename change) ↔ ∃ objId,
      ∃ pair ∈ pairsOf (ofObject acc.dropped) acc.created objId,
        change = pairedChange pair.1 pair.2.1 := fun _ =>
    mem_result_renamed fun edit member => (edited edit member).1
  have oldEntry : ∀ gone ∈ acc.dropped, entryAt store old gone.1 = some gone.2 :=
    fun gone isDropped => ((all.dropped gone.1 gone.2).mp isDropped).1
  constructor
  · intro consistent
    refine ⟨?_, ?_⟩
    · intro objId pair inside
      obtain ⟨member, renamed⟩ := (renames _).mpr ⟨objId, pair, inside, rfl⟩
      obtain ⟨oldPath, gone, item, isOld, before, -, -, -, kind, -⟩ :=
        consistent.paired _ member renamed
      have samePath : pair.2.1 = oldPath := Option.some.inj isOld
      rw [← samePath, oldEntry pair.2 (mem_pairsOf inside).2.1] at before
      rw [Option.some.inj before]
      exact kind.symm
    · intro objId created gone isLeft
      have isMember := List.mem_filter.mp (List.mem_reverse.mp (List.mem_of_mem_drop isLeft))
      have isDropped : gone ∈ acc.dropped := isMember.1
      have isId : gone.2.id = objId := by simpa using isMember.2
      subst isId
      have marked : (markSuperseded (pairCreated (objToDeleted acc.dropped) acc.created)
          (deleteChange gone)).superseded = true :=
        (superseded_delete gone).mpr (Or.inr ((exists_pair_iff isDropped).mpr created))
      have member := mem_result.mpr ⟨_, Or.inr (Or.inl ⟨gone, isDropped, rfl⟩), rfl⟩
      obtain ⟨sameOp, -, samePath, -⟩ := markSuperseded_fields
        (pairCreated (objToDeleted acc.dropped) acc.created) (deleteChange gone)
      have renamed := (consistent.superseded _ member sameOp).mp marked
      rw [samePath] at renamed
      rcases (superseded_iff_renamed collected).mp renamed with
        ⟨other, pair, inside, same⟩ | covered
      · have isPaired := paired_path all inside isDropped same
        exact absurd isLeft ((paired_or_left all.dropped_nodup isDropped).mp ⟨_, isPaired⟩)
      · exact covered
  · intro apart
    refine ⟨?_, result_oldPaths_nodup (fun edit member => (edited edit member).2)
      all.dropped_nodup, ?_⟩
    · intro change member renamed
      obtain ⟨objId, pair, inside, rfl⟩ := (renames change).mp ⟨member, renamed⟩
      obtain ⟨⟨isCreated, createdId⟩, isDropped, droppedId⟩ := mem_pairsOf inside
      have kind := apart.kinds objId pair inside
      exact ⟨pair.2.1, pair.2.2, pair.1.2, rfl, oldEntry pair.2 isDropped,
        (collected.created pair.1 isCreated).1, droppedId.trans createdId.symm, rfl,
        kind.symm, rfl⟩
    · intro change member isDelete
      obtain ⟨gone, isDropped, rfl⟩ := mem_result_delete collected member isDelete
      rw [(markSuperseded_fields _ (deleteChange gone)).2.2.1, superseded_delete]
      refine Iff.trans ?_ (superseded_iff_renamed collected).symm
      constructor
      · rintro (covered | somePair)
        · exact Or.inr covered
        · by_cases isLeft : gone ∈ unpaired (ofObject acc.dropped) acc.created gone.2.id
          · exact Or.inr (apart.covered _ ((exists_pair_iff isDropped).mp somePair) gone isLeft)
          · obtain ⟨item, inside⟩ := (paired_or_left all.dropped_nodup isDropped).mpr isLeft
            exact Or.inl ⟨_, _, inside, rfl⟩
      · rintro (⟨objId, pair, inside, same⟩ | covered)
        · exact Or.inr ⟨_, paired_path all inside isDropped same⟩
        · exact Or.inl covered

end Walked

theorem consistent_creates (items : List (PathEntry Oid)) :
    ConsistentRenames store old new (sortChanges (items.map createChange)) := by
  have created : ∀ change ∈ sortChanges (items.map createChange),
      change.opType = .create ∧ change.oldPath = none := by
    intro change member
    obtain ⟨item, -, rfl⟩ := List.mem_map.mp ((List.mem_insertionSort _).mp member)
    exact ⟨rfl, rfl⟩
  refine ⟨?_, ?_, ?_⟩
  · intro change member renamed
    rw [IsRename, (created change member).1] at renamed
    simp at renamed
  · rw [List.filterMap_eq_nil_iff.mpr fun change member => (created change member).2]
    exact List.nodup_nil
  · intro change member isDelete
    rw [(created change member).1] at isDelete
    simp at isDelete

omit [Digests Oid] in
theorem renamesApart_nil (created : List (PathEntry Oid)) :
    RenamesApart ([] : List (PathEntry Oid)) created := by
  refine ⟨?_, ?_⟩
  · intro objId pair inside
    simp [pairsOf, ofObject] at inside
  · intro objId _ gone isLeft
    simp [unpaired, ofObject] at isLeft

theorem lostTo_nil (new : List (DirEntryData Oid)) (depth : Nat) :
    lostTo store [] new depth = [] := by
  refine List.flatMap_eq_nil_iff.mpr fun level _ => ?_
  exact lostLevel_quiet level (Or.inr (dirAt_of_nil []))

/-- The renames of the diff of two trees are consistent exactly when the entries lost
and gained can be paired by their ids alone. -/
theorem diffTrees_renames_iff {limits : Limits} {oldRoot : Option Oid} {newRoot : Oid}
    {changes : List (FsChange Oid)}
    (uniqueOld : UniqueNames store (rootEntries store oldRoot))
    (uniqueNew : UniqueNames store (entriesOf store newRoot))
    (oldFiles : FilesNotDirs store (rootEntries store oldRoot))
    (newFiles : FilesNotDirs store (entriesOf store newRoot))
    (run : diffTrees limits store oldRoot newRoot = .ok changes) :
    ConsistentRenames store (rootEntries store oldRoot) (entriesOf store newRoot) changes ↔
      RenamesApart
        (lostTo store (rootEntries store oldRoot) (entriesOf store newRoot) limits.maxDepth)
        (gainedTo store (rootEntries store oldRoot) (entriesOf store newRoot)
          limits.maxDepth) := by
  have first : rootEntries store oldRoot = [] → ∀ items : List (PathEntry Oid),
      (ConsistentRenames store (rootEntries store oldRoot) (entriesOf store newRoot)
          (sortChanges (items.map createChange)) ↔
        RenamesApart
          (lostTo store (rootEntries store oldRoot) (entriesOf store newRoot) limits.maxDepth)
          (gainedTo store (rootEntries store oldRoot) (entriesOf store newRoot)
            limits.maxDepth)) := by
    intro none items
    refine iff_of_true (consistent_creates items) ?_
    rw [none, lostTo_nil]
    exact renamesApart_nil _
  cases oldRoot with
  | none =>
    simp only [diffTrees] at run
    cases walked : collectEntries limits store newRoot with
    | error failure => simp [walked, Except.map] at run
    | ok items =>
      simp only [walked, Except.map, Except.ok.injEq] at run
      subst run
      exact first rfl items
  | some oldRoot =>
    simp only [diffTrees] at run
    split at run
    · rename_i sentinel
      cases walked : collectEntries limits store newRoot with
      | error failure => simp [walked, Except.map] at run
      | ok items =>
        simp only [walked, Except.map, Except.ok.injEq] at run
        subst run
        refine first ?_ items
        rw [sentinel]
        exact entriesOf_sentinel
    · cases walked : walkTrees limits store oldRoot newRoot with
      | error failure => simp [walked, Except.map] at run
      | ok acc =>
        simp only [walked, Except.map, Except.ok.injEq] at run
        subst run
        have kinds := FilesNotDirs.changesEmpty oldFiles newFiles
        have collected := walkTrees_collected uniqueOld uniqueNew walked
        have all := walkTrees_collectedAll uniqueOld uniqueNew walked kinds
        obtain ⟨reached, within, ends, -, created, dropped⟩ := walkTrees_frames walked
        rw [dropped_listing uniqueOld uniqueNew kinds ends within] at dropped
        rw [created_listing uniqueOld uniqueNew kinds ends within] at created
        have exact := walked_renames_iff collected all
        rw [dropped, created] at exact
        exact exact

def treeOfCopies : FsDirData FreeId :=
  directory [fileEntry "b" (.atom 1) 1, fileEntry "a" (.atom 1) 1, dirEntry "0" emptySha1]

/-- One copy is left, under another name. -/
def treeOfOne : FsDirData FreeId :=
  directory [fileEntry "c" (.atom 1) 1, dirEntry "0" emptySha1]

def treeOfEmptyFile : FsDirData FreeId :=
  directory [fileEntry "e" emptySha1 0, fileEntry "b" (.atom 1) 1, fileEntry "a" (.atom 1) 1]

def renamesStore : FsStore FreeId :=
  ⟨[(Digests.dirId treeOfCopies, .dir treeOfCopies.written),
    (Digests.dirId treeOfOne, .dir treeOfOne.written),
    (Digests.dirId treeOfEmptyFile, .dir treeOfEmptyFile.written)]⟩

theorem diffTrees_renames_iff_one : ∃ changes,
    diffTrees defaultLimits renamesStore (some (Digests.dirId treeOfCopies))
      (Digests.dirId treeOfOne) = .ok changes ∧
    (ConsistentRenames renamesStore
        (rootEntries renamesStore (some (Digests.dirId treeOfCopies)))
        (entriesOf renamesStore (Digests.dirId treeOfOne)) changes ↔
      RenamesApart
        (lostTo renamesStore (rootEntries renamesStore (some (Digests.dirId treeOfCopies)))
          (entriesOf renamesStore (Digests.dirId treeOfOne)) defaultLimits.maxDepth)
        (gainedTo renamesStore (rootEntries renamesStore (some (Digests.dirId treeOfCopies)))
          (entriesOf renamesStore (Digests.dirId treeOfOne)) defaultLimits.maxDepth)) := by
  have ran : (diffTrees defaultLimits renamesStore (some (Digests.dirId treeOfCopies))
      (Digests.dirId treeOfOne)).isOk = true := by decide +kernel
  have formedOld : WellFormed renamesStore
      (rootEntries renamesStore (some (Digests.dirId treeOfCopies))) :=
    wellFormed_of_check 3 (by decide +kernel)
  have formedNew : WellFormed renamesStore (entriesOf renamesStore (Digests.dirId treeOfOne)) :=
    wellFormed_of_check 3 (by decide +kernel)
  cases run : diffTrees defaultLimits renamesStore (some (Digests.dirId treeOfCopies))
      (Digests.dirId treeOfOne) with
  | error failure => simp [run, Except.isOk, Except.toBool] at ran
  | ok changes =>
    exact ⟨changes, rfl, diffTrees_renames_iff formedOld.uniqueNames formedNew.uniqueNames
      formedOld.filesNotDirs formedNew.filesNotDirs run⟩

/-- What the diff says of the copies: `a` became `c`, and the delete of `b` is marked as
if `b` had been renamed too. -/
def copiesDiff : List (FsChange FreeId) :=
  [⟨.delete, .file, ["a"], 1, .atom 1, none, true⟩,
    ⟨.delete, .file, ["b"], 1, .atom 1, none, true⟩,
    ⟨.rename, .file, ["c"], 1, .atom 1, some ["a"], false⟩]

def emptyFileDiff : List (FsChange FreeId) :=
  [⟨.delete, .dir, ["0"], 0, emptySha1, none, true⟩,
    ⟨.rename, .file, ["e"], 0, emptySha1, some ["0"], false⟩]

theorem renames_inconsistent :
    (diffTrees defaultLimits renamesStore (some (Digests.dirId treeOfCopies))
        (Digests.dirId treeOfOne) = .ok copiesDiff ∧
      ¬ ConsistentRenames renamesStore
        (rootEntries renamesStore (some (Digests.dirId treeOfCopies)))
        (entriesOf renamesStore (Digests.dirId treeOfOne)) copiesDiff) ∧
    (diffTrees defaultLimits renamesStore (some (Digests.dirId treeOfCopies))
        (Digests.dirId treeOfEmptyFile) = .ok emptyFileDiff ∧
      ¬ ConsistentRenames renamesStore
        (rootEntries renamesStore (some (Digests.dirId treeOfCopies)))
        (entriesOf renamesStore (Digests.dirId treeOfEmptyFile)) emptyFileDiff) := by
  refine ⟨⟨by decide +kernel, ?_⟩, by decide +kernel, ?_⟩
  · intro consistent
    have marked := consistent.superseded _ (List.mem_cons_of_mem _ List.mem_cons_self) rfl
    obtain ⟨other, member, -, renamed⟩ := marked.mp rfl
    have noneOf : ∀ other ∈ copiesDiff, ¬ (other.oldPath = some ["b"] ∨
        other.objType = .dir ∧ other.oldPath.any (fun dir => isBelow dir ["b"]) = true) := by
      decide +kernel
    refine noneOf other member (renamed.imp_right ?_)
    rintro ⟨isDir, dir, isOld, below⟩
    exact ⟨isDir, by simp [isOld, below]⟩
  · intro consistent
    obtain ⟨oldPath, gone, item, isOld, before, -, -, -, kind, -⟩ :=
      consistent.paired _ (List.mem_cons_of_mem _ List.mem_cons_self) (Or.inl rfl)
    cases isOld
    have isDir : (entryAt renamesStore
        (rootEntries renamesStore (some (Digests.dirId treeOfCopies))) ["0"]).map
          (fun entry => objTypeOf entry.mode) = some .dir := by decide +kernel
    rw [before, Option.map_some, kind] at isDir
    simp at isDir

end Nanofile
