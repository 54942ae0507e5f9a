import Nanofile.Service.BlockCommits
import Nanofile.Service.HeadEdits

/-!
# Restoring a revision of a file

`restore_file_revision` points the entry that HEAD has under the name at the object of an old
commit.  What was done to the path since decides whether the file is there again.
-/

set_option autoImplicit false

namespace Nanofile

open Nanofile.Lib

variable {Oid : Type}

/-! ## The first entry of a name -/

def changeFirst (name : String) (change : DirEntryData Oid → DirEntryData Oid) :
    List (DirEntryData Oid) → List (DirEntryData Oid)
  | [] => []
  | entry :: rest =>
    if entry.name = name then change entry :: rest else entry :: changeFirst name change rest

section ChangeFirst

variable {name : String} {change : DirEntryData Oid → DirEntryData Oid}
    (keeps : ∀ entry, (change entry).name = entry.name)

include keeps

theorem lookup_changeFirst_self (entries : List (DirEntryData Oid)) :
    lookup (changeFirst name change entries) name = (lookup entries name).map change := by
  induction entries with
  | nil => rfl
  | cons first rest ih =>
    unfold lookup at ih ⊢
    by_cases here : first.name = name
    · simp [changeFirst, here, keeps]
    · rw [changeFirst, if_neg here, List.find?_cons_of_neg (by simpa using here),
        List.find?_cons_of_neg (by simpa using here), ih]

theorem lookup_changeFirst_of_ne {other : String} (apart : other ≠ name)
    (entries : List (DirEntryData Oid)) :
    lookup (changeFirst name change entries) other = lookup entries other := by
  induction entries with
  | nil => rfl
  | cons first rest ih =>
    unfold lookup at ih ⊢
    by_cases here : first.name = name
    · simp [changeFirst, here, keeps, apart.symm]
    · rw [changeFirst, if_neg here, List.find?_cons, List.find?_cons, ih]

theorem names_changeFirst (entries : List (DirEntryData Oid)) :
    (changeFirst name change entries).map DirEntryData.name =
      entries.map DirEntryData.name := by
  induction entries with
  | nil => rfl
  | cons first rest ih =>
    unfold changeFirst
    split
    · rw [List.map_cons, List.map_cons, keeps]
    · rw [List.map_cons, List.map_cons, ih]

variable [DecidableEq Oid] [Digests Oid] {store : FsStore Oid} {entry : DirEntryData Oid}

theorem HonestEntries.changeFirst (new : HonestEntry store (change entry)) :
    ∀ {entries : List (DirEntryData Oid)}, HonestEntries store entries →
      lookup entries name = some entry →
      HonestEntries store (Nanofile.changeFirst name change entries) ∧
        entriesSize store (Nanofile.changeFirst name change entries) + entrySize store entry =
          entriesSize store entries + entrySize store (change entry) := by
  intro entries honest found
  have all := honest.2
  suffices rest : (∀ other ∈ Nanofile.changeFirst name change entries, HonestEntry store other) ∧
      entriesSize store (Nanofile.changeFirst name change entries) + entrySize store entry =
        entriesSize store entries + entrySize store (change entry) by
    refine ⟨⟨?_, rest.1⟩, rest.2⟩
    rw [NamesNodup, names_changeFirst keeps]
    exact honest.1
  clear honest
  induction entries with
  | nil => simp [lookup] at found
  | cons first rest ih =>
    by_cases named : first.name = name
    · obtain rfl : first = entry := by simpa [lookup, named] using found
      rw [Nanofile.changeFirst, if_pos named, entriesSize_cons, entriesSize_cons]
      refine ⟨fun other listed => ?_, by omega⟩
      rcases List.mem_cons.mp listed with rfl | below
      · exact new
      · exact all other (List.mem_cons_of_mem _ below)
    · obtain ⟨honestRest, sizeRest⟩ := ih (by simpa [lookup, named] using found)
        fun other listed => all other (List.mem_cons_of_mem _ listed)
      rw [Nanofile.changeFirst, if_neg named, entriesSize_cons, entriesSize_cons]
      refine ⟨fun other listed => ?_, by omega⟩
      rcases List.mem_cons.mp listed with rfl | below
      · exact all other List.mem_cons_self
      · exact honestRest other below

end ChangeFirst

variable [DecidableEq Oid] [Digests Oid] [ToString Oid] {limits : Limits}

/-! ## The operation -/

/-- The closure of `restore_file_revision` on the entry it finds. -/
def repointed (fsId : Oid) (size time : Int) (modifier : String) (entry : DirEntryData Oid) :
    DirEntryData Oid :=
  { entry with id := fsId, size := size, mtime := time, modifier := modifier }

/-- The size the closure finds under the name, before it writes its own. -/
def replacedEntrySize (store : FsStore Oid) (parentFsId : Oid) (name : String) : Option Int :=
  (readFsDirData store parentFsId).toOption.bind fun data =>
    (findEntry data.dirents name).map DirEntryData.size

/-- Without an entry of the name nothing is adjusted. -/
def adjustReplaced (limits : Limits) (size : Int) : Option Int → Web Oid Unit
  | some previousSize => adjustRepoSize limits (size - previousSize)
  | none => pure ()

def restoreFileRevision (limits : Limits) (commitId : Oid) (path modifier : String) :
    Web Oid Unit := do
  let commit ← .tryRead fun state =>
    okOr (state.repo.commits.find commitId) (.notFound "commit not found")
  let targetFsId ← .mapFailure (fun _ => .notFound "file not found in target version")
    (.tryRead fun state =>
      resolveSegments state.repo.fsObjects (pathComponents path) commit.rootId)
  let targetFile ← .tryRead fun state => readFsFileData state.repo.fsObjects targetFsId
  let name := lastName path
  let parentPath := parentPathFrom path
  let headRoot ← .tryRead fun state => headRootId state.repo
  let parentFsId ← .tryRead fun state => resolveDirFsId state.repo.fsObjects headRoot parentPath
  let time ← Web.now
  let previousSize ← .read fun state => replacedEntrySize state.repo.fsObjects parentFsId name
  let _ ← updateDirTreeAndCommit parentPath parentFsId modifier
    ("Reverted " ++ name ++ " to version from " ++ toString commitId) []
    (changeFirst name (repointed targetFsId targetFile.size time modifier))
  adjustReplaced limits targetFile.size previousSize

/-! ## What a restore is meant to do -/

section Meant

omit [ToString Oid]

/-- What the path adds to the size of the tree; nothing when nothing is found. -/
def CountsAt (store : FsStore Oid) (upper : List String) (name : String) (root : Oid)
    (size : Int) : Prop :=
  (∃ entry, FoundAt store upper name root entry ∧ entrySize store entry = size) ∨
    (∀ entry, ¬ FoundAt store upper name root entry) ∧ size = 0

/-- The path finds the revision as a regular file, every other path finds what it found, and
the stored size has changed by the difference.  Only directories above the path have new ids. -/
structure RevisionBack (before after : Repo Oid) (upper : List String) (name : String)
    (fsId : Oid) (size : Int) (root top : Oid) : Prop where
  back : ∃ entry, FoundAt after.fsObjects upper name top entry ∧ entry.id = fsId ∧
    isRegular entry.mode = true ∧ entry.size = size
  others : ∀ {parts : List String} {other : String} {entry : DirEntryData Oid},
    parts ++ [other] ≠ upper ++ [name] → FoundAt before.fsObjects parts other root entry →
    ∃ entry', FoundAt after.fsObjects parts other top entry' ∧ entry'.mode = entry.mode ∧
      (entry'.id = entry.id ∨ isDir entry.mode = true ∧ parts ++ [other] <+: upper)
  counted : ∀ previous, CountsAt before.fsObjects upper name root previous →
    after.size = before.size + (size - previous)

/-- The revision is back in the tree of HEAD. -/
def Restored (before after : Repo Oid) (upper : List String) (name : String) (fsId : Oid)
    (size : Int) : Prop :=
  ∃ root top, resolveRootFsId before = .ok root ∧ resolveRootFsId after = .ok top ∧
    RevisionBack before after upper name fsId size root top

/-- The stored size moves by the difference: it does not fall below zero, and one of zero, which
is counted anew, is the size of the tree. -/
def SizeFollows (repo : Repo Oid) (root : Oid) (delta : Int) : Prop :=
  if repo.size = 0 then
    Honest repo.fsObjects root ∧ max 0 (treeSize repo.fsObjects root + delta) = delta
  else 0 ≤ repo.size + delta

/-- The text of a path is cut at its last name, and is canonical before it. -/
def CutsAt (path : String) (upper : List String) (name : String) : Prop :=
  parentPathFrom path = pathOf upper ∧ lastName path = name

def FileInHead (repo : Repo Oid) (path : String) (upper : List String) (name : String)
    (size : Int) : Prop :=
  CutsAt path upper name ∧ ∃ root entry, resolveRootFsId repo = .ok root ∧
    FoundAt repo.fsObjects upper name root entry ∧ isRegular entry.mode = true ∧
    SizeFollows repo root (size - entry.size)

end Meant

/-! ## What a restore does -/

omit [DecidableEq Oid] [Digests Oid] [ToString Oid] in
@[simp] theorem repointed_name (fsId : Oid) (size time : Int) (modifier : String)
    (entry : DirEntryData Oid) : (repointed fsId size time modifier entry).name = entry.name := rfl

variable {file : FsFileData Oid} {store : FsStore Oid}

theorem readFsFileData_ok_iff {fsId : Oid} :
    readFsFileData store fsId = .ok file ↔ fileBatch store fsId = some file := by
  unfold readFsFileData fileBatch
  split
  · rw [Except.ok.injEq, Option.some.injEq]
  · split
    · simp_all
    · simp_all
    · simp_all

theorem replacedEntrySize_eq {parentFsId : Oid} {name : String}
    {entries : List (DirEntryData Oid)} (stands : StandsFor store parentFsId entries) :
    replacedEntrySize store parentFsId name = (lookup entries name).map DirEntryData.size := by
  obtain ⟨data, read, rfl⟩ := stands.read
  rw [replacedEntrySize, read]
  rfl

/-- The edit of HEAD that a restore makes, and what it does to the stored size. -/
structure Reverted (limits : Limits) (before final : WebState Oid) (upper : List String)
    (name modifier : String) (fsId root top : Oid) (size time : Int)
    (entries : List (DirEntryData Oid)) : Prop where
  went : HeadWent before final root top
  lists : DirAt before.repo.fsObjects upper root entries
  edited : EditedAt final.repo.fsObjects
    (pureEdit (changeFirst name (repointed fsId size time modifier))) upper root top
  resized : ∀ previous, lookup entries name = some previous →
    (before.repo.size = 0 ∧ ∃ total, computeTreeSize limits final.repo.fsObjects top = .ok total ∧
      final.repo.size = max 0 total) ∨
    (before.repo.size ≠ 0 ∧ final.repo.size = max 0 (before.repo.size + (size - previous.size)))

variable {before final : WebState Oid} {commitId : Oid} {path modifier name : String}
  {upper : List String} {commit : CommitRow Oid} {revision : DirEntryData Oid}
  {file : FsFileData Oid}

theorem restoreFileRevision_reverted (genuine : Genuine before.repo.fsObjects)
    (isCommit : before.repo.commits.find commitId = some commit)
    (isPath : pathComponents path = upper ++ [name])
    (isFile : FoundAt before.repo.fsObjects upper name commit.rootId revision)
    (reads : readFsFileData before.repo.fsObjects revision.id = .ok file)
    (cut : CutsAt path upper name)
    (run : restoreFileRevision limits commitId path modifier before = (.ok (), final)) :
    ∃ root top time entries, Reverted limits before final upper name modifier revision.id root top
      file.size time entries := by
  obtain ⟨row, looked, looking, run⟩ := Proc.bind_ok_iff.mp run
  obtain ⟨targetFsId, resolved, resolving, run⟩ := Proc.bind_ok_iff.mp run
  obtain ⟨targetFile, read, reading, run⟩ := Proc.bind_ok_iff.mp run
  obtain ⟨root, headed, heading, run⟩ := Proc.bind_ok_iff.mp run
  obtain ⟨parentFsId, located, locating, run⟩ := Proc.bind_ok_iff.mp run
  obtain ⟨time, clocked, tick, run⟩ := Proc.bind_ok_iff.mp run
  obtain ⟨previousSize, measured, measuring, run⟩ := Proc.bind_ok_iff.mp run
  obtain ⟨top, updated, updating, adjusting⟩ := Proc.bind_ok_iff.mp run
  obtain ⟨isRow, rfl⟩ := Proc.tryRead_ok_iff.mp looking
  obtain ⟨isTarget, rfl⟩ := Proc.tryRead_ok_iff.mp (Proc.mapFailure_ok_iff.mp resolving)
  obtain ⟨isTargetFile, rfl⟩ := Proc.tryRead_ok_iff.mp reading
  obtain ⟨isRoot, rfl⟩ := Proc.tryRead_ok_iff.mp heading
  obtain ⟨isParent, rfl⟩ := Proc.tryRead_ok_iff.mp locating
  obtain ⟨isPrevious, rfl⟩ := Prod.mk.inj measuring
  have sameRepo : clocked.repo = before.repo := by
    cases tick
    rfl
  -- The revision is the one that is found in the commit.
  obtain rfl : commit = row := Option.some.inj (isCommit.symm.trans (okOr_eq_ok_iff.mp isRow))
  obtain rfl : revision.id = targetFsId := by
    rw [isPath] at isTarget
    obtain ⟨entry, found, rfl⟩ := resolveSegments_concat_iff.mp isTarget
    rw [isFile.unique found]
  obtain rfl : file = targetFile := Except.ok.inj (reads.symm.trans isTargetFile)
  have names : PlainNames upper := (isPath ▸ plainNames_pathComponents path).left
  have isRoot := headRootId_eq_ok_iff.mp isRoot
  have resolves := resolves_of_resolveDirSegments isParent
  rw [cut.1, pathComponents_pathOf names] at resolves
  rw [cut.1, cut.2] at updating
  have isPrevious : replacedEntrySize clocked.repo.fsObjects parentFsId (lastName path) =
      previousSize := Except.ok.inj isPrevious
  rw [cut.2] at isPrevious
  rw [← sameRepo] at genuine isRoot resolves
  obtain ⟨⟨data, isData⟩, sameSize⟩ := updateDirTreeAndCommit_read genuine updating
  have stands := standsFor_of_readFsDirData isData
  obtain ⟨went, edited⟩ := updateDirTreeAndCommit_went genuine names isRoot
    (climbs_of_head names isRoot) resolves updating
  rw [replacedEntrySize_eq stands] at isPrevious
  subst isPrevious
  rw [sameRepo] at stands resolves isRoot sameSize
  have grown : Table.Extends before.repo.fsObjects updated.repo.fsObjects := sameRepo ▸ went.grown
  refine ⟨root, top, time, data.dirents, ?_⟩
  cases listed : lookup data.dirents name with
  | none =>
    rw [listed] at adjusting
    cases adjusting
    exact ⟨⟨isRoot, went.isTop, grown, went.genuine⟩, ⟨parentFsId, resolves, stands⟩, edited,
      fun previous found => absurd (listed.symm.trans found) (by simp)⟩
  | some entry =>
    rw [listed] at adjusting
    have adjustment := adjustRepoSize_ok adjusting
    refine ⟨⟨isRoot, ?_, ?_, ?_⟩, ⟨parentFsId, resolves, stands⟩, ?_, ?_⟩
    · rw [adjustment]
      exact went.isTop
    · rw [adjustment]
      exact grown
    · rw [adjustment]
      exact went.genuine
    · rw [adjustment]
      exact edited
    · intro previous found
      obtain rfl := Option.some.inj (listed.symm.trans found)
      have cases := adjustRepoSize_cases adjusting
      rw [sameSize, computeRepoSize_of_root went.isTop] at cases
      rw [adjustment]
      exact cases

/-! ## When a restore does what it is meant to do -/

section Decided

omit [ToString Oid]

variable {fsId root top : Oid} {size time : Int} {entries : List (DirEntryData Oid)}
  {entry : DirEntryData Oid}

theorem Reverted.found_iff {found : DirEntryData Oid}
    (reverted : Reverted limits before final upper name modifier fsId root top size time entries) :
    FoundAt final.repo.fsObjects upper name top found ↔
      ∃ entry, lookup entries name = some entry ∧
        (repointed fsId size time modifier entry).written = found := by
  have lists := reverted.edited.dirAt (reverted.lists.extends reverted.went.grown)
  rw [lists.found_iff, lookup_in_stored, lookup_changeFirst_self (repointed_name _ _ _ _),
    Option.map_map, Option.map_eq_some_iff]
  rfl

theorem Reverted.sized
    (reverted : Reverted limits before final upper name modifier fsId root top file.size time
      entries)
    (honest : Honest before.repo.fsObjects root) (listed : lookup entries name = some entry)
    (regular : isRegular entry.mode = true)
    (reads : fileBatch before.repo.fsObjects fsId = some file) :
    Honest final.repo.fsObjects top ∧ treeSize final.repo.fsObjects top =
      treeSize before.repo.fsObjects root + (file.size - entry.size) := by
  have grown := reverted.went.grown
  have isFile := not_isDir_of_isRegular regular
  obtain ⟨parent, resolves, stands⟩ := reverted.lists.extends grown
  have honest' := honest.extends grown
  have honestHere := ((resolves.honest honest').entries stands).1
  have new : HonestEntry final.repo.fsObjects (repointed fsId file.size time modifier entry) := by
    rw [HonestEntry, if_neg (by simpa [repointed] using isFile)]
    exact ⟨regular, file, fileBatch_extends grown reads, rfl⟩
  obtain ⟨honestNew, sizeNew⟩ :=
    honestHere.changeFirst (repointed_name _ _ _ _) new listed
  obtain ⟨tree, isSize⟩ := reverted.edited.sized honest' resolves stands honestNew
  refine ⟨tree, ?_⟩
  rw [treeSize_extends grown honest] at isSize
  have oldSize : entrySize final.repo.fsObjects entry = entry.size := by simp [entrySize, isFile]
  have newSize : entrySize final.repo.fsObjects (repointed fsId file.size time modifier entry) =
      file.size := by
    simp [entrySize, repointed, isFile]
  omega

theorem countsAt_iff_of_file {previous : Int}
    (found : FoundAt store upper name root entry) (regular : isRegular entry.mode = true) :
    CountsAt store upper name root previous ↔ previous = entry.size := by
  have oldSize : entrySize store entry = entry.size := by
    simp [entrySize, not_isDir_of_isRegular regular]
  constructor
  · rintro (⟨other, isOther, rfl⟩ | ⟨none, -⟩)
    · rw [isOther.unique found, oldSize]
    · exact absurd found (none entry)
  · rintro rfl
    exact Or.inl ⟨entry, found, oldSize⟩

section

variable
    (reverted : Reverted limits before final upper name modifier fsId root top file.size time entries)
include reverted

theorem Reverted.size_iff (honest : before.repo.size = 0 → Honest before.repo.fsObjects root)
    (listed : lookup entries name = some entry) (regular : isRegular entry.mode = true)
    (reads : fileBatch before.repo.fsObjects fsId = some file) :
    final.repo.size = before.repo.size + (file.size - entry.size) ↔
      SizeFollows before.repo root (file.size - entry.size) := by
  unfold SizeFollows
  rcases reverted.resized entry listed with ⟨uncounted, total, isTotal, isSize⟩ | ⟨counted, isSize⟩
  · obtain ⟨tree, isTree⟩ := reverted.sized (honest uncounted) listed regular reads
    rw [if_pos uncounted, isSize, computeTreeSize_eq tree isTotal, isTree, uncounted, Int.zero_add]
    exact (and_iff_right (honest uncounted)).symm
  · rw [if_neg counted, isSize]
    omega

theorem Reverted.back (found : FoundAt before.repo.fsObjects upper name root entry)
    (regular : isRegular entry.mode = true)
    (reads : fileBatch before.repo.fsObjects fsId = some file)
    (follows : SizeFollows before.repo root (file.size - entry.size)) :
    RevisionBack before.repo final.repo upper name fsId file.size root top := by
  have listed := reverted.lists.found_iff.mp found
  have grown := reverted.went.grown
  have alike : PathsAlike final.repo.fsObjects root top (Passes upper [name]) (· <+: upper) :=
    reverted.edited.pathsAlike fun entries _ other outside =>
      lookup_changeFirst_of_ne (repointed_name _ _ _ _) (by simpa using outside) entries
  have honest : before.repo.size = 0 → Honest before.repo.fsObjects root := by
    intro uncounted
    rw [SizeFollows, if_pos uncounted] at follows
    exact follows.1
  refine ⟨⟨_, reverted.found_iff.mpr ⟨entry, listed, rfl⟩, ?_⟩, ?_, ?_⟩
  · have whole : (repointed fsId file.size time modifier entry).written =
        repointed fsId file.size time modifier entry := if_pos regular
    rw [whole]
    exact ⟨rfl, regular, rfl⟩
  · intro parts other entry' apart found'
    refine alike.kept ?_ (found'.extends grown)
    -- Nothing is below a file.
    rintro ⟨_, isName, way⟩
    obtain rfl := List.mem_singleton.mp isName
    rcases List.prefix_concat_iff.mp way with same | above
    · exact apart same.symm
    · obtain ⟨listed', lists', -⟩ := found'.dirAt
      obtain ⟨passed, isPassed, directory⟩ := lists'.passed above
      rw [isPassed.unique found, not_isDir_of_isRegular regular] at directory
      cases directory
  · intro previous isPrevious
    rw [countsAt_iff_of_file found regular] at isPrevious
    subst isPrevious
    exact (reverted.size_iff honest listed regular reads).mpr follows

theorem Reverted.file_of_back (honest : before.repo.size = 0 → Honest before.repo.fsObjects root)
    (reads : fileBatch before.repo.fsObjects fsId = some file)
    (back : RevisionBack before.repo final.repo upper name fsId file.size root top) :
    ∃ entry, FoundAt before.repo.fsObjects upper name root entry ∧ isRegular entry.mode = true ∧
      SizeFollows before.repo root (file.size - entry.size) := by
  obtain ⟨new, isNew, -, regular, -⟩ := back.back
  obtain ⟨entry, listed, rfl⟩ := reverted.found_iff.mp isNew
  rw [written_mode] at regular
  have regular : isRegular entry.mode = true := regular
  have found := reverted.lists.found_iff.mpr listed
  exact ⟨entry, found, regular, (reverted.size_iff honest listed regular reads).mp
    (back.counted _ ((countsAt_iff_of_file found regular).mpr rfl))⟩

end

end Decided

omit [ToString Oid] in
theorem HeadHonest.root {repo : Repo Oid} {root : Oid} (honest : HeadHonest repo)
    (isRoot : resolveRootFsId repo = .ok root) : Honest repo.fsObjects root := by
  obtain ⟨headId, row, isHead, found, rfl⟩ := resolveRootFsId_eq_ok_iff.mp isRoot
  obtain ⟨row', found', tree⟩ := honest headId isHead
  obtain rfl := Option.some.inj (found.symm.trans found')
  exact tree

omit [DecidableEq Oid] [Digests Oid] [ToString Oid] in
theorem cutsAt_of_plain (plain : PlainPath path) (isPath : pathComponents path = upper ++ [name]) :
    CutsAt path upper name := by
  have plainName := (isPath ▸ plainNames_pathComponents path).last.2
  rw [PlainPath, isPath] at plain
  rw [plain]
  refine ⟨parentPathFrom_pathOf upper plainName, ?_⟩
  rw [lastName, rsplitOnce_pathOf upper plainName, Option.isSome_some, if_pos rfl,
    basename_pathOf upper plainName]

section

variable (genuine : Genuine before.repo.fsObjects)
    (isCommit : before.repo.commits.find commitId = some commit)
    (isPath : pathComponents path = upper ++ [name])
    (isFile : FoundAt before.repo.fsObjects upper name commit.rootId revision)
    (reads : readFsFileData before.repo.fsObjects revision.id = .ok file)
    (run : restoreFileRevision limits commitId path modifier before = (.ok (), final))
include genuine isCommit isPath isFile reads run

theorem restored_of_fileInHead (inHead : FileInHead before.repo path upper name file.size) :
    Restored before.repo final.repo upper name revision.id file.size := by
  obtain ⟨cut, root, entry, isRoot, found, regular, follows⟩ := inHead
  obtain ⟨root', top, time, entries, reverted⟩ :=
    restoreFileRevision_reverted genuine isCommit isPath isFile reads cut run
  obtain rfl := Except.ok.inj (isRoot.symm.trans reverted.went.isRoot)
  exact ⟨root, top, isRoot, reverted.went.isTop,
    reverted.back found regular (readFsFileData_ok_iff.mp reads) follows⟩

theorem fileInHead_of_restored (plain : PlainPath path)
    (honest : before.repo.size = 0 → HeadHonest before.repo)
    (restored : Restored before.repo final.repo upper name revision.id file.size) :
    FileInHead before.repo path upper name file.size := by
  obtain ⟨root, top, isRoot, isTop, back⟩ := restored
  have cut := cutsAt_of_plain plain isPath
  obtain ⟨root', top', time, entries, reverted⟩ :=
    restoreFileRevision_reverted genuine isCommit isPath isFile reads cut run
  obtain rfl := Except.ok.inj (isRoot.symm.trans reverted.went.isRoot)
  obtain rfl := Except.ok.inj (isTop.symm.trans reverted.went.isTop)
  obtain ⟨entry, found, regular, follows⟩ := reverted.file_of_back
    (fun uncounted => (honest uncounted).root isRoot) (readFsFileData_ok_iff.mp reads) back
  exact ⟨cut, root, entry, isRoot, found, regular, follows⟩

end

/-- A restore that succeeds brings the revision back when HEAD has a regular file at the path, and
for canonical paths only then. -/
theorem restoreFileRevision_restores_iff (genuine : Genuine before.repo.fsObjects)
    (isCommit : before.repo.commits.find commitId = some commit)
    (isPath : pathComponents path = upper ++ [name])
    (isFile : FoundAt before.repo.fsObjects upper name commit.rootId revision)
    (reads : readFsFileData before.repo.fsObjects revision.id = .ok file)
    (run : restoreFileRevision limits commitId path modifier before = (.ok (), final)) :
    (FileInHead before.repo path upper name file.size →
      Restored before.repo final.repo upper name revision.id file.size) ∧
    (PlainPath path → (before.repo.size = 0 → HeadHonest before.repo) →
      Restored before.repo final.repo upper name revision.id file.size →
      FileInHead before.repo path upper name file.size) :=
  ⟨restored_of_fileInHead genuine isCommit isPath isFile reads run,
    fileInHead_of_restored genuine isCommit isPath isFile reads run⟩

/-! ## A file that is deleted -/

def firstVersion : FsFileData FreeId := ⟨[.atom 9], 3, seafMetadataTypeFile, 1⟩

def firstRoot : FsDirData FreeId := directory [fileEntry "f" (Digests.fileId firstVersion) 3]

/-- A library whose first commit has `/f` of three bytes; HEAD lists other entries. -/
def revisedLibrary (current : List (DirEntryData FreeId)) : WebState FreeId :=
  let library := libraryOf firstRoot [directory current]
  let child : CommitData FreeId := { bareCommit "child" library.headCommitId with
    rootId := Digests.dirId (directory current) }
  ⟨{ library with
      headCommitId := some child.commitId
      commits := (library.commits.insertCommit child.row).getD library.commits
      fsObjects := (storeFsFileObject library.fsObjects firstVersion).2
      size := 9 }, [], fun count => count⟩

def firstCommit : CommitRow FreeId :=
  { (bareCommit "head" none).row with id := 1, rootId := Digests.dirId firstRoot }

theorem revisedLibrary_genuine (current : List (DirEntryData FreeId)) :
    Genuine (revisedLibrary current).repo.fsObjects :=
  (storeFsFileObject_spec (genuine_libraryOf _ _) (rfl : storeFsFileObject _ firstVersion = _)).2

theorem foundAt_root {store : FsStore FreeId} {root : FreeId} {data : FsDirData FreeId}
    {name : String} {entry : DirEntryData FreeId} (read : dirBatch store root = some data) :
    FoundAt store [] name root entry ↔ lookup data.dirents name = some entry :=
  DirAt.found_iff ⟨root, rfl, Or.inr ⟨data, read, rfl⟩⟩

structure HasCurrent (current : List (DirEntryData FreeId)) : Prop where
  isRoot : resolveRootFsId (revisedLibrary current).repo = .ok (Digests.dirId (directory current))
  read : dirBatch (revisedLibrary current).repo.fsObjects (Digests.dirId (directory current)) =
    some (directory current)

variable {current : List (DirEntryData FreeId)}

theorem HasCurrent.not_fileInHead {path name : String} {size : Int} (head : HasCurrent current)
    (noFile : (lookup current name).all (fun entry => !isRegular entry.mode) = true) :
    ¬ FileInHead (revisedLibrary current).repo path [] name size := by
  rintro ⟨-, root, entry, isRoot, found, regular, -⟩
  obtain rfl := Except.ok.inj (head.isRoot.symm.trans isRoot)
  have listed : lookup current name = some entry := (foundAt_root head.read).mp found
  simp [listed, regular] at noFile

theorem HasCurrent.fileInHead {entry : DirEntryData FreeId} (head : HasCurrent current)
    (listed : lookup current "f" = some entry) (regular : isRegular entry.mode = true)
    (fits : 0 ≤ 9 + (3 - entry.size)) : FileInHead (revisedLibrary current).repo "/f" [] "f" 3 := by
  have counted : (revisedLibrary current).repo.size ≠ 0 := show (9 : Int) ≠ 0 by decide
  refine ⟨⟨by decide, by decide⟩, _, entry, head.isRoot, (foundAt_root head.read).mpr listed,
    regular, ?_⟩
  rw [SizeFollows, if_neg counted]
  exact fits

structure HasFirst (current : List (DirEntryData FreeId)) : Prop where
  isCommit : (revisedLibrary current).repo.commits.find firstCommit.commitId = some firstCommit
  isFile : FoundAt (revisedLibrary current).repo.fsObjects [] "f" firstCommit.rootId
    (fileEntry "f" (Digests.fileId firstVersion) 3)
  reads : readFsFileData (revisedLibrary current).repo.fsObjects (Digests.fileId firstVersion) =
    .ok firstVersion

theorem hasFirst_of_check
    (isCommit : (revisedLibrary current).repo.commits.find firstCommit.commitId = some firstCommit)
    (isStored : dirBatch (revisedLibrary current).repo.fsObjects firstCommit.rootId =
      some firstRoot) (reads : readFsFileData (revisedLibrary current).repo.fsObjects
      (Digests.fileId firstVersion) = .ok firstVersion) : HasFirst current :=
  ⟨isCommit, (foundAt_root isStored).mpr rfl, reads⟩

/-- The restore of the first version succeeds, and the file does not have it. -/
def LosesFirst (current : List (DirEntryData FreeId)) : Prop :=
  HasFirst current ∧ ∃ final,
    restoreFileRevision defaultLimits firstCommit.commitId "/f" "user" (revisedLibrary current) =
      (.ok (), final) ∧
    ¬ Restored (revisedLibrary current).repo final.repo [] "f" (Digests.fileId firstVersion) 3

theorem losesFirst_of_check (first : HasFirst current)
    (answer : (restoreFileRevision defaultLimits firstCommit.commitId "/f" "user"
      (revisedLibrary current)).1 = .ok ())
    (notInHead : ¬ FileInHead (revisedLibrary current).repo "/f" [] "f" 3) :
    LosesFirst current := by
  refine ⟨first, _, Prod.ext answer rfl, fun restored => notInHead ?_⟩
  exact fileInHead_of_restored (revisedLibrary_genuine current) first.isCommit (by decide)
    first.isFile first.reads (Prod.ext answer rfl) (by decide)
    (fun uncounted => absurd uncounted (show (9 : Int) ≠ 0 by decide)) restored

/-- A deleted file is not back, nor is one whose name a directory has in HEAD. -/
theorem restoreFileRevision_loses :
    LosesFirst [fileEntry "g" (.atom 1) 9] ∧ LosesFirst [dirEntry "f" .empty] := by
  constructor
  · exact losesFirst_of_check
      (hasFirst_of_check (by decide +kernel) (by decide +kernel) (by decide +kernel))
      (by decide +kernel)
      (HasCurrent.not_fileInHead ⟨by decide +kernel, by decide +kernel⟩ (by decide))
  · exact losesFirst_of_check
      (hasFirst_of_check (by decide +kernel) (by decide +kernel) (by decide +kernel))
      (by decide +kernel)
      (HasCurrent.not_fileInHead ⟨by decide +kernel, by decide +kernel⟩ (by decide))

/-- HEAD has another version of nine bytes. -/
theorem restoreFileRevision_restores : ∃ final,
    restoreFileRevision defaultLimits firstCommit.commitId "/f" "user"
      (revisedLibrary [fileEntry "f" (.atom 1) 9]) = (.ok (), final) ∧
    Restored (revisedLibrary [fileEntry "f" (.atom 1) 9]).repo final.repo [] "f"
      (Digests.fileId firstVersion) 3 := by
  have first : HasFirst [fileEntry "f" (.atom 1) 9] :=
    hasFirst_of_check (by decide +kernel) (by decide +kernel) (by decide +kernel)
  have answer : (restoreFileRevision defaultLimits firstCommit.commitId "/f" "user"
      (revisedLibrary [fileEntry "f" (.atom 1) 9])).1 = .ok () := by decide +kernel
  have head : HasCurrent [fileEntry "f" (.atom 1) 9] := ⟨by decide +kernel, by decide +kernel⟩
  exact ⟨_, Prod.ext answer rfl, (restoreFileRevision_restores_iff (revisedLibrary_genuine _)
    first.isCommit (by decide) first.isFile first.reads (Prod.ext answer rfl)).1
      (head.fileInHead rfl (by decide) (by decide))⟩

end Nanofile
