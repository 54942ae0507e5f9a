import Nanofile.Fs.ZipSelection

/-!
# The selection as it is asked for

A download names entries of a directory.  In a complete tree the archive has the files at and
below the named entries, and the limits alone decide whether it is refused.
-/

set_option autoImplicit false

namespace Nanofile

open Nanofile.Lib

variable {Oid : Type} [DecidableEq Oid] [Digests Oid]
    {store : FsStore Oid} {limits : ZipLimits} {walk : Limits}

/-! ## Paths of selected directories -/

theorem filter_split_trimmed (chars : List Char) :
    (Text.split '/' (String.ofList (chars.dropWhile fun char => char = '/'))).filter
        (fun segment => segment ≠ "") =
      (Text.split '/' (String.ofList chars)).filter fun segment => segment ≠ "" := by
  induction chars with
  | nil => rfl
  | cons char rest ih =>
    by_cases slash : char = '/'
    · have leading : String.ofList (char :: rest) = "" ++ "/" ++ String.ofList rest := by
        rw [slash]
        exact String.toList_inj.mp (by simp)
      have cut : Text.split '/' (String.ofList (char :: rest)) =
          Text.split '/' "" ++ Text.split '/' (String.ofList rest) := by
        rw [leading]
        exact Text.split_append "" (String.ofList rest)
      rw [List.dropWhile_cons_of_pos (by simpa using slash), ih, cut, List.filter_append]
      rfl
    · rw [List.dropWhile_cons_of_neg (by simpa using slash)]

theorem pathSegments_eq (path : String) : pathSegments path = pathComponents path := by
  have trimmed := filter_split_trimmed path.toList
  rw [String.ofList_toList] at trimmed
  exact trimmed

variable {name : String}

theorem pathSegments_below {parentDir : String} (nonempty : name ≠ "") (plain : '/' ∉ name.toList) :
    pathSegments (if parentDir = "/" then "/" ++ name else parentDir ++ "/" ++ name) =
      pathSegments parentDir ++ [name] := by
  rw [pathSegments_eq, pathSegments_eq]
  by_cases isRoot : parentDir = "/"
  · rw [if_pos isRoot, isRoot]
    exact pathComponents_append "" nonempty plain
  · rw [if_neg isRoot, pathComponents_append parentDir nonempty plain]

theorem below_ne_root {parentDir : String} (nonempty : name ≠ "") :
    (if parentDir = "/" then "/" ++ name else parentDir ++ "/" ++ name) ≠ "/" := by
  have some_ : 0 < name.toList.length := by
    refine List.length_pos_iff.mpr fun isNil => nonempty ?_
    exact String.toList_eq_nil_iff.mp isNil
  have slash : "/".toList.length = 1 := rfl
  intro same
  have lengths := congrArg (fun text : String => text.toList.length) same
  split at lengths <;> simp only [String.toList_append, List.length_append, slash] at lengths <;>
    omega

variable [ToString Oid] {entry : DirEntryData Oid}

theorem resolveSegments_child {segments : List String} {fsId dirId : Oid} {dirData : FsDirData Oid}
    (complete : CompleteTree store (entriesOf store fsId))
    (resolved : resolveSegments store segments fsId = .ok dirId)
    (read : dirBatch store dirId = some dirData)
    (found : dirData.dirents.find? (fun dirent => dirent.name = name) = some entry) :
    resolveSegments store (segments ++ [name]) fsId = .ok entry.id ∧
      CompleteTree store dirData.dirents := by
  induction segments generalizing fsId with
  | nil =>
    cases resolved
    rw [entriesOf, read] at complete
    refine ⟨?_, complete⟩
    refine except_bind_ok_iff.mpr ⟨dirData, readFsDirData_of_dirBatch read, ?_⟩
    refine except_bind_ok_iff.mpr ⟨entry, okOr_eq_ok_iff.mpr found, ?_⟩
    exact except_bind_ok_iff.mpr ⟨(), ensure_eq_ok_iff.mpr (Or.inl rfl), rfl⟩
  | cons segment rest ih =>
    obtain ⟨above, readAbove, resolved⟩ := except_bind_ok_iff.mp resolved
    obtain ⟨passed, isPassed, resolved⟩ := except_bind_ok_iff.mp resolved
    obtain ⟨_, passes, resolved⟩ := except_bind_ok_iff.mp resolved
    have foundPassed := okOr_eq_ok_iff.mp isPassed
    have isAbove : entriesOf store fsId = above.dirents := by
      rw [entriesOf, readFsDirData_found readAbove foundPassed]
      rfl
    rw [isAbove] at complete
    have listed := List.mem_of_find?_eq_some foundPassed
    have directory : isDir passed.mode = true := by
      rcases ensure_eq_ok_iff.mp passes with last | directory
      · subst last
        cases resolved
        rcases complete.formed.entryOk listed with ⟨-, noDir⟩ | ⟨directory, -⟩
        · rw [read] at noDir
          cases noDir
        · exact directory
      · exact directory
    obtain ⟨leads, below⟩ := ih (complete.child listed directory) resolved
    refine ⟨?_, below⟩
    refine except_bind_ok_iff.mpr ⟨above, readAbove, ?_⟩
    refine except_bind_ok_iff.mpr ⟨passed, isPassed, ?_⟩
    exact except_bind_ok_iff.mpr ⟨(), ensure_eq_ok_iff.mpr (Or.inr directory), leads⟩

/-! ## The files of a selection -/

omit [ToString Oid]

variable {entries : List (DirEntryData Oid)}

theorem HasFile.stored {path : List String} {id : Oid}
    (has : HasFile store entries path id) (complete : CompleteTree store entries) :
    ∃ file, fileBatch store id = some file := by
  induction path generalizing entries with
  | nil => exact absurd has fun contra => contra
  | cons name rest ih =>
    cases rest with
    | nil =>
      obtain ⟨entry, listed, -, regular, rfl⟩ := has
      exact complete.stored entries .root entry listed regular
    | cons next rest =>
      obtain ⟨entry, listed, -, directory, has⟩ := has
      exact ih has (complete.child listed directory)

theorem HasFile.plain {path : List String} {id : Oid}
    (has : HasFile store entries path id) (complete : CompleteTree store entries) :
    PlainNames path ∧ path ≠ [] := by
  induction path generalizing entries with
  | nil => exact absurd has fun contra => contra
  | cons name rest ih =>
    refine ⟨?_, List.cons_ne_nil _ _⟩
    cases rest with
    | nil =>
      obtain ⟨entry, listed, rfl, -, -⟩ := has
      intro part isPart
      rw [List.mem_singleton.mp isPart]
      exact complete.plain entries .root entry listed
    | cons next rest =>
      obtain ⟨entry, listed, rfl, directory, has⟩ := has
      intro part isPart
      rcases List.mem_cons.mp isPart with rfl | isPart
      · exact complete.plain entries .root entry listed
      · exact (ih has (complete.child listed directory)).1 part isPart

theorem subtreeFiles_eq {node : PartNode Oid} (fits : ZipFits walk store node) :
    ∃ depth, levelAt (partDirs store) depth [node] = [] ∧
      subtreeFiles walk store node = filesTo store depth [node] := by
  obtain ⟨depth, deep, ends, -⟩ := fits
  refine ⟨depth, ends, ?_⟩
  rw [subtreeFiles, filesTo, filesTo, levelsTo_of_end ends deep]

/-- Where a directory is selected, the walk below it is within its limits. -/
def WalksFit (walk : Limits) (store : FsStore Oid) (dirents : List (DirEntryData Oid))
    (names : List String) : Prop :=
  ∀ entry ∈ dirents, entry.name ∈ names → isDir entry.mode = true →
    ZipFits walk store (entry.id, [entry.name])

/-- A name that is selected again has no file at or below it. -/
def RepeatsNoFile (store : FsStore Oid) (dirents : List (DirEntryData Oid)) (names : List String) :
    Prop :=
  names.Pairwise fun first second =>
    first = second → ∀ below id, ¬ HasFile store dirents (first :: below) id

section Selection

variable {dirents : List (DirEntryData Oid)} {names : List String} {file : PartNode Oid}

theorem mem_filesOf_iff (complete : CompleteTree store dirents)
    (found : dirents.find? (fun dirent => dirent.name = name) = some entry)
    (fits : isDir entry.mode = true → ZipFits walk store (entry.id, [name])) :
    file ∈ dirFilesOf walk store dirents name ++ ownFileOf dirents name ↔
      ∃ below, file.2 = name :: below ∧ HasFile store dirents file.2 file.1 := by
  have listed := List.mem_of_find?_eq_some found
  have named : entry.name = name := by simpa using List.find?_some found
  have only : ∀ other ∈ dirents, other.name = name → other = entry := by
    intro other isOther sameName
    exact List.inj_on_of_nodup_map complete.formed.nodup isOther listed (sameName.trans named.symm)
  rw [dirFilesOf, ownFileOf, found]
  dsimp only
  by_cases directory : isDir entry.mode = true
  · have isDirectory : hasDirBit entry.mode = true :=
      (complete.hasDirBit_eq listed).trans directory
    obtain ⟨depth, ends, isFiles⟩ := subtreeFiles_eq (fits directory)
    rw [if_pos isDirectory, if_pos isDirectory, List.append_nil, isFiles,
      mem_filesTo_iff (complete.child listed directory) ends]
    constructor
    · rintro ⟨below, has, samePath⟩
      refine ⟨below, samePath, ?_⟩
      rw [samePath]
      cases below with
      | nil => exact absurd has fun contra => contra
      | cons next rest => exact ⟨entry, listed, named, directory, has⟩
    · rintro ⟨below, samePath, has⟩
      refine ⟨below, ?_, samePath⟩
      rw [samePath] at has
      cases below with
      | nil =>
        obtain ⟨other, isOther, sameName, regular, -⟩ := has
        rw [only other isOther sameName, not_isRegular_of_isDir directory] at regular
        cases regular
      | cons next rest =>
        obtain ⟨other, isOther, sameName, -, has⟩ := has
        rw [only other isOther sameName] at has
        exact has
  · have regular : isRegular entry.mode = true := by
      rw [(complete.formed.entryOk listed).regular_or_dir, Bool.eq_false_iff.mpr directory]
      rfl
    have notDirectory : ¬ hasDirBit entry.mode = true := by
      rw [complete.hasDirBit_eq listed]
      exact directory
    rw [if_neg notDirectory, if_neg notDirectory, List.nil_append, List.mem_singleton]
    constructor
    · rintro rfl
      exact ⟨[], rfl, entry, listed, named, regular, rfl⟩
    · rintro ⟨below, samePath, has⟩
      rw [samePath] at has
      cases below with
      | nil =>
        obtain ⟨other, isOther, sameName, -, sameId⟩ := has
        rw [only other isOther sameName] at sameId
        exact Prod.ext sameId.symm samePath
      | cons next rest =>
        obtain ⟨other, isOther, sameName, isDirectory, -⟩ := has
        rw [only other isOther sameName] at isDirectory
        exact absurd isDirectory directory

omit [DecidableEq Oid] [Digests Oid] in
theorem find_of_mem_names (existing : name ∈ dirents.map DirEntryData.name) :
    ∃ entry, dirents.find? (fun dirent => dirent.name = name) = some entry ∧
      entry ∈ dirents ∧ entry.name = name := by
  obtain ⟨listed, isListed, sameName⟩ := List.mem_map.mp existing
  cases found : dirents.find? (fun dirent => dirent.name = name) with
  | none =>
    have differs := List.find?_eq_none.mp found listed isListed
    exact absurd (by simpa using sameName) differs
  | some entry =>
    exact ⟨entry, rfl, List.mem_of_find?_eq_some found, by simpa using List.find?_some found⟩

section

variable (complete : CompleteTree store dirents) (fits : WalksFit walk store dirents names)
include complete fits

theorem mem_filesOf_selected (selected : name ∈ names)
    (existing : name ∈ dirents.map DirEntryData.name) :
    file ∈ dirFilesOf walk store dirents name ++ ownFileOf dirents name ↔
      ∃ below, file.2 = name :: below ∧ HasFile store dirents file.2 file.1 := by
  obtain ⟨entry, found, listed, rfl⟩ := find_of_mem_names existing
  exact mem_filesOf_iff complete found (fits entry listed selected)

theorem mem_selectedFiles_iff (existing : ∀ name ∈ names, name ∈ dirents.map DirEntryData.name) :
    file ∈ selectedFiles walk store dirents names ↔
      ∃ name ∈ names, ∃ below, file.2 = name :: below ∧ HasFile store dirents file.2 file.1 := by
  rw [selectedFiles, List.mem_append, List.mem_flatMap, List.mem_flatMap]
  constructor
  · rintro (⟨name, selected, listed⟩ | ⟨name, selected, listed⟩)
    · exact ⟨name, selected, (mem_filesOf_selected complete fits selected
        (existing name selected)).mp (List.mem_append_left _ listed)⟩
    · exact ⟨name, selected, (mem_filesOf_selected complete fits selected
        (existing name selected)).mp (List.mem_append_right _ listed)⟩
  · rintro ⟨name, selected, has⟩
    rcases List.mem_append.mp ((mem_filesOf_selected complete fits selected
      (existing name selected)).mpr has) with listed | listed
    · exact .inl ⟨name, selected, listed⟩
    · exact .inr ⟨name, selected, listed⟩

theorem selectedFiles_nodup_iff
    (existing : ∀ name ∈ names, name ∈ dirents.map DirEntryData.name) :
    ((selectedFiles walk store dirents names).map Prod.snd).Nodup ↔
      RepeatsNoFile store dirents names := by
  have filesOf : ∀ name ∈ names, ∀ parts, parts ∈
      (dirFilesOf walk store dirents name ++ ownFileOf dirents name).map Prod.snd ↔
        ∃ below id, parts = name :: below ∧ HasFile store dirents parts id := by
    intro name selected parts
    rw [List.mem_map]
    constructor
    · rintro ⟨file, listed, rfl⟩
      obtain ⟨below, samePath, has⟩ :=
        (mem_filesOf_selected complete fits selected (existing name selected)).mp listed
      exact ⟨below, file.1, samePath, has⟩
    · rintro ⟨below, id, samePath, has⟩
      exact ⟨(id, parts), (mem_filesOf_selected complete fits selected
        (existing name selected)).mpr ⟨below, samePath, has⟩, rfl⟩
  have inside : ∀ name ∈ names,
      ((dirFilesOf walk store dirents name ++ ownFileOf dirents name).map Prod.snd).Nodup := by
    intro name selected
    obtain ⟨entry, found, listed, rfl⟩ := find_of_mem_names (existing name selected)
    rw [dirFilesOf, ownFileOf, found]
    dsimp only
    by_cases directory : hasDirBit entry.mode = true
    · rw [if_pos directory, if_pos directory, List.append_nil]
      rw [complete.hasDirBit_eq listed] at directory
      exact filesTo_nodup (complete.child listed directory)
    · rw [if_neg directory, if_neg directory]
      exact List.nodup_singleton _
  have together : (selectedFiles walk store dirents names).Perm
      (names.flatMap fun name => dirFilesOf walk store dirents name ++ ownFileOf dirents name) :=
    (List.flatMap_append_perm names _ _)
  rw [(together.map Prod.snd).nodup_iff, List.map_flatMap, List.nodup_flatMap, and_iff_right inside,
    RepeatsNoFile]
  constructor
  · intro apart
    refine apart.imp_of_mem ?_
    rintro name other selected - disjoint rfl below id has
    have listed := (filesOf name selected (name :: below)).mpr ⟨below, id, rfl, has⟩
    exact disjoint listed listed
  · intro repeats
    refine repeats.imp_of_mem ?_
    intro first second isFirst isSecond noFile parts ofFirst ofSecond
    obtain ⟨below, id, rfl, has⟩ := (filesOf first isFirst _).mp ofFirst
    obtain ⟨below', -, same, -⟩ := (filesOf second isSecond _).mp ofSecond
    exact noFile (List.cons.inj same).1 below id has

end

end Selection

/-! ## The archive -/

/-- An archive entry of a file at or below a selected name. -/
def IsSelected (store : FsStore Oid) (dirents : List (DirEntryData Oid)) (names : List String)
    (entry : ZipFileEntry Oid) : Prop :=
  ∃ name ∈ names, ∃ below id file, HasFile store dirents (name :: below) id ∧
    fileBatch store id = some file ∧
    entry = ⟨zipPath (name :: below), file.blockIds, file.size⟩

def SelectedOnce (store : FsStore Oid) (dirents : List (DirEntryData Oid)) (names : List String)
    (files : List (ZipFileEntry Oid)) : Prop :=
  (∀ entry, entry ∈ files ↔ IsSelected store dirents names entry) ∧
    (files.map ZipFileEntry.pathInZip).Nodup

/-- There are more files or bytes than a limit that is set. -/
def ExceedsZip (limits : ZipLimits) (files : List (ZipFileEntry Oid)) : Prop :=
  0 < limits.maxEntries ∧ limits.maxEntries < files.length ∨
    0 < limits.maxBytes ∧ limits.maxBytes < zipBytes files

/-- The selection is returned as it is, and refused for its own number and bytes alone. -/
structure ZipsExactly (store : FsStore Oid) (dirents : List (DirEntryData Oid))
    (names : List String) (limits : ZipLimits)
    (outcome : Except ZipError (List (ZipFileEntry Oid))) : Prop where
  exact_ : ∀ files, outcome = .ok files → SelectedOnce store dirents names files
  refused : (∃ failure, outcome = .error failure) ↔ ∃ files : List (ZipFileEntry Oid),
    SelectedOnce store dirents names files ∧ ExceedsZip limits files

theorem SelectedOnce.perm {dirents : List (DirEntryData Oid)} {names : List String}
    {files others : List (ZipFileEntry Oid)} (once : SelectedOnce store dirents names files)
    (again : SelectedOnce store dirents names others) : files.Perm others :=
  (List.perm_ext_iff_of_nodup once.2.of_map again.2.of_map).mpr
    fun entry => (once.1 entry).trans (again.1 entry).symm

section

omit [DecidableEq Oid] [Digests Oid]

theorem ExceedsZip.over {files : List (ZipFileEntry Oid)} (exceeds : ExceedsZip limits files) :
    OverZip limits files.length (zipBytes files) := by
  rcases exceeds with ⟨set, many⟩ | ⟨set, big⟩
  · exact .inl ⟨set, Nat.le_of_lt many⟩
  · exact .inr ⟨set, big⟩

theorem zipBytes_le_of_subperm {files more : List (ZipFileEntry Oid)} (inside : files.Subperm more) :
    zipBytes files ≤ zipBytes more := by
  obtain ⟨same, isPerm, isSublist⟩ := inside
  have sums := (isSublist.map fun file => file.size.toNat).sum_le_sum fun _ _ => Nat.zero_le _
  rw [((isPerm.map fun file => file.size.toNat).sum_eq)] at sums
  exact min_le_min_right _ sums

end

theorem mem_zipEntries_iff {files : List (PartNode Oid)} {entry : ZipFileEntry Oid} :
    entry ∈ zipEntries store files ↔ ∃ node ∈ files, ∃ file,
      fileBatch store node.1 = some file ∧ entry = zipEntryOf (zipPath node.2) file := by
  simp only [zipEntries, List.mem_filterMap, Option.map_eq_some_iff, eq_comm]

theorem paths_zipEntries {files : List (PartNode Oid)}
    (stored : ∀ node ∈ files, ∃ file, fileBatch store node.1 = some file) :
    (zipEntries store files).map ZipFileEntry.pathInZip =
      (files.map Prod.snd).map zipPath := by
  induction files with
  | nil => rfl
  | cons node rest ih =>
    obtain ⟨file, isFile⟩ := stored node List.mem_cons_self
    have below := ih fun other listed => stored other (List.mem_cons_of_mem _ listed)
    rw [zipEntries, List.filterMap_cons, isFile]
    exact congrArg (zipPath node.2 :: ·) below

section Download

variable [ToString Oid] {rootFsId parentDirId : Oid} {parentDir : String}
  {dirData : FsDirData Oid} {names : List String}

/-- A directory of a complete tree that has an entry is the root of a complete tree. -/
theorem selectable_of_complete (complete : CompleteTree store (entriesOf store rootFsId))
    (resolved : resolveFsIdFrom store rootFsId parentDir = .ok parentDirId)
    (read : readFsDirData store parentDirId = .ok dirData)
    (fits : WalksFit walk store dirData.dirents names) (selected : name ∈ names)
    (existing : name ∈ dirData.dirents.map DirEntryData.name) :
    CompleteTree store dirData.dirents ∧ ∃ entry,
      Selectable walk store rootFsId parentDir dirData.dirents name entry := by
  obtain ⟨entry, found, listed, sameName⟩ := find_of_mem_names existing
  obtain ⟨leads, below⟩ := resolveSegments_child complete resolved
    (readFsDirData_found read found) found
  have plain := below.plain _ .root entry listed
  rw [sameName] at plain
  have fitsHere : isDir entry.mode = true → ZipFits walk store (entry.id, [name]) := by
    rw [← sameName]
    exact fits entry listed (sameName.symm ▸ selected)
  refine ⟨below, entry, found, below_ne_root plain.1, ?_, ?_, ?_⟩
  · intro _
    rw [resolveFsIdFrom, pathSegments_below plain.1 plain.2]
    exact leads
  · intro directory
    rw [below.hasDirBit_eq listed] at directory
    exact fitsHere directory
  · intro file isFile
    obtain ⟨_, -, has⟩ := (mem_filesOf_iff below found fitsHere).mp isFile
    exact has.stored below

variable (limits) in
/-- The files below the selected names are what is collected once the walks fit. -/
theorem mem_selectedEntries_iff (complete : CompleteTree store (entriesOf store rootFsId))
    (resolved : resolveFsIdFrom store rootFsId parentDir = .ok parentDirId)
    (read : readFsDirData store parentDirId = .ok dirData)
    (existing : ∀ name ∈ names, name ∈ dirData.dirents.map DirEntryData.name)
    (fits : WalksFit walk store dirData.dirents names) :
    (∀ entry, entry ∈ zipEntries store (selectedFiles walk store dirData.dirents names) ↔
        IsSelected store dirData.dirents names entry) ∧
      (((zipEntries store (selectedFiles walk store dirData.dirents names)).map
        ZipFileEntry.pathInZip).Nodup ↔ RepeatsNoFile store dirData.dirents names) ∧
      collectSelectedEntries walk store rootFsId parentDir names limits =
        if OverZip limits (zipEntries store (selectedFiles walk store dirData.dirents names)).length
            (zipBytes (zipEntries store (selectedFiles walk store dirData.dirents names))) then
          .error .tooManyRequests
        else .ok (zipEntries store (selectedFiles walk store dirData.dirents names)) := by
  have selectable : ∀ name ∈ names, CompleteTree store dirData.dirents ∧ ∃ entry,
      Selectable walk store rootFsId parentDir dirData.dirents name entry :=
    fun name selected =>
      selectable_of_complete complete resolved read fits selected (existing name selected)
  have collected := collectSelectedEntries_eq limits resolved read
    fun name selected => (selectable name selected).2
  have inside : ∀ file, file ∈ selectedFiles walk store dirData.dirents names ↔
      ∃ name ∈ names, ∃ below, file.2 = name :: below ∧
        HasFile store dirData.dirents file.2 file.1 := by
    intro file
    cases names with
    | nil => simp [selectedFiles]
    | cons first rest =>
      exact mem_selectedFiles_iff (selectable first List.mem_cons_self).1 fits existing
  have treeOf : ∀ file ∈ selectedFiles walk store dirData.dirents names,
      CompleteTree store dirData.dirents ∧ HasFile store dirData.dirents file.2 file.1 := by
    intro file listed
    obtain ⟨name, selected, -, -, has⟩ := (inside file).mp listed
    exact ⟨(selectable name selected).1, has⟩
  have stored : ∀ file ∈ selectedFiles walk store dirData.dirents names,
      ∃ data, fileBatch store file.1 = some data := by
    intro file listed
    obtain ⟨tree, has⟩ := treeOf file listed
    exact has.stored tree
  dsimp only at collected
  rw [← length_zipEntries stored] at collected
  refine ⟨?_, ?_, collected⟩
  · intro entry
    rw [mem_zipEntries_iff]
    constructor
    · rintro ⟨node, listed, file, isFile, rfl⟩
      obtain ⟨name, selected, below, samePath, has⟩ := (inside node).mp listed
      rw [samePath] at has
      refine ⟨name, selected, below, node.1, file, has, isFile, ?_⟩
      rw [samePath]
      rfl
    · rintro ⟨name, selected, below, id, file, has, isFile, rfl⟩
      exact ⟨(id, name :: below), (inside _).mpr ⟨name, selected, below, rfl, has⟩, file, isFile, rfl⟩
  · have paths : ((selectedFiles walk store dirData.dirents names).map Prod.snd).Nodup ↔
        RepeatsNoFile store dirData.dirents names := by
      cases names with
      | nil => simp [selectedFiles, RepeatsNoFile]
      | cons first rest =>
        exact selectedFiles_nodup_iff (selectable first List.mem_cons_self).1 fits existing
    rw [paths_zipEntries stored, ← paths]
    refine ⟨List.Nodup.of_map zipPath, fun distinct => List.Nodup.map_on ?_ distinct⟩
    intro parts isParts parts' isParts' same
    obtain ⟨file, listed, rfl⟩ := List.mem_map.mp isParts
    obtain ⟨file', listed', rfl⟩ := List.mem_map.mp isParts'
    obtain ⟨tree, has⟩ := treeOf file listed
    obtain ⟨plain, some_⟩ := has.plain tree
    obtain ⟨plain', some'⟩ := (treeOf file' listed').2.plain tree
    exact zipPath_injective plain plain' some_ some' same

omit [ToString Oid] in
theorem foldlM_visits {Acc Err : Type} {step : Acc → String → Except Err Acc} {acc out : Acc}
    {name : String} (run : names.foldlM step acc = .ok out) (selected : name ∈ names) :
    ∃ acc acc', step acc name = .ok acc' := by
  induction names generalizing acc with
  | nil => cases selected
  | cons first rest ih =>
    rw [List.foldlM_cons] at run
    obtain ⟨next, here, run⟩ := except_bind_ok_iff.mp run
    rcases List.mem_cons.mp selected with rfl | selected
    · exact ⟨acc, next, here⟩
    · exact ih run selected

theorem zipFits_of_collected {node : PartNode Oid} {dirPath : String}
    {files : List (ZipFileEntry Oid)} (notRoot : dirPath ≠ "/")
    (resolved : resolveFsIdFrom store rootFsId dirPath = .ok node.1)
    (collected : collectDirEntries walk store rootFsId dirPath (zipPath node.2) limits =
      .ok files) : ZipFits walk store node := by
  have started : [((node.1, zipPath node.2) : ZipNode Oid)] = [node].map PartNode.named := rfl
  rw [collectDirEntries, if_neg notRoot, resolved] at collected
  dsimp only [bind, Except.bind] at collected
  rw [started] at collected
  split at collected
  · cases collected
  · rename_i walked
    obtain ⟨depth, deep, ends, few⟩ := zipWalk_ends (Nat.zero_le _) walked
    exact ⟨depth, deep, ends, by omega⟩

/-- A selection that is returned has been walked within the traversal guard. -/
theorem walksFit_of_collected {files : List (ZipFileEntry Oid)}
    (complete : CompleteTree store (entriesOf store rootFsId))
    (resolved : resolveFsIdFrom store rootFsId parentDir = .ok parentDirId)
    (read : readFsDirData store parentDirId = .ok dirData)
    (collected : collectSelectedEntries walk store rootFsId parentDir names limits = .ok files) :
    WalksFit walk store dirData.dirents names := by
  intro entry listed selected directory
  rw [collectSelectedEntries, resolved] at collected
  dsimp only [bind, Except.bind] at collected
  rw [read] at collected
  dsimp only at collected
  split at collected
  · cases collected
  · rename_i run
    obtain ⟨selection, after, added⟩ := foldlM_visits run selected
    obtain ⟨first, found, isFirst, sameName⟩ :=
      find_of_mem_names (List.mem_map_of_mem (f := DirEntryData.name) listed)
    obtain ⟨leads, below⟩ := resolveSegments_child complete resolved
      (readFsDirData_found read found) found
    obtain rfl := List.inj_on_of_nodup_map below.formed.nodup isFirst listed sameName
    have plain := below.plain _ .root first listed
    have isDirectory : hasDirBit first.mode = true := (below.hasDirBit_eq listed).trans directory
    rw [selectName, found] at added
    dsimp only [bind, Except.bind] at added
    rw [if_pos isDirectory] at added
    cases subFiles : collectDirEntries walk store rootFsId
        (if parentDir = "/" then "/" ++ first.name else parentDir ++ "/" ++ first.name)
        first.name limits with
    | error failure =>
      rw [subFiles] at added
      cases added
    | ok files =>
      refine zipFits_of_collected (below_ne_root plain.1) ?_ subFiles
      rw [resolveFsIdFrom, pathSegments_below plain.1 plain.2, leads]

/-- The archive is the selection, and its limits alone refuse it, just where they are exceeded or
else the walks fit, no file is selected twice and the entry limit is not met to the full. -/
theorem collectSelectedEntries_zips_iff
    (complete : CompleteTree store (entriesOf store rootFsId))
    (resolved : resolveFsIdFrom store rootFsId parentDir = .ok parentDirId)
    (read : readFsDirData store parentDirId = .ok dirData)
    (existing : ∀ name ∈ names, name ∈ dirData.dirents.map DirEntryData.name) :
    ZipsExactly store dirData.dirents names limits
        (collectSelectedEntries walk store rootFsId parentDir names limits) ↔
      (∃ files, SelectedOnce store dirData.dirents names files ∧ ExceedsZip limits files) ∨
        WalksFit walk store dirData.dirents names ∧
          RepeatsNoFile store dirData.dirents names ∧
          ∀ files, SelectedOnce store dirData.dirents names files →
            0 < limits.maxEntries → files.length ≠ limits.maxEntries := by
  constructor
  · intro zips
    cases outcome : collectSelectedEntries walk store rootFsId parentDir names limits with
    | error failure => exact .inl (zips.refused.mp ⟨failure, outcome⟩)
    | ok files =>
      have fits := walksFit_of_collected complete resolved read outcome
      obtain ⟨-, distinct, collected⟩ :=
        mem_selectedEntries_iff limits complete resolved read existing fits
      have once := zips.exact_ files outcome
      rw [outcome] at collected
      split at collected
      · cases collected
      · rename_i within
        cases collected
        refine .inr ⟨fits, distinct.mp once.2, fun files' once' set full => within (.inl ⟨set, ?_⟩)⟩
        rw [(once.perm once').length_eq, full]
  · rintro (⟨files, once, exceeds⟩ | ⟨fits, repeats, notFull⟩)
    · cases outcome : collectSelectedEntries walk store rootFsId parentDir names limits with
      | error failure => exact ⟨nofun, fun _ => ⟨files, once, exceeds⟩, fun _ => ⟨failure, rfl⟩⟩
      | ok archived =>
        -- what is archived has every selected file, so it exceeds the limit as well
        have fits := walksFit_of_collected complete resolved read outcome
        obtain ⟨members, -, collected⟩ :=
          mem_selectedEntries_iff limits complete resolved read existing fits
        have inside := List.subperm_of_subset once.2.of_map
          fun entry listed => (members entry).mpr ((once.1 entry).mp listed)
        rw [outcome, if_pos (exceeds.over.mono inside.length_le (zipBytes_le_of_subperm inside))]
          at collected
        cases collected
    · obtain ⟨members, distinct, collected⟩ :=
        mem_selectedEntries_iff limits complete resolved read existing fits
      have once : SelectedOnce store dirData.dirents names _ := ⟨members, distinct.mpr repeats⟩
      rw [collected]
      split
      · rename_i beyond
        refine ⟨nofun, fun _ => ⟨_, once, ?_⟩, fun _ => ⟨_, rfl⟩⟩
        rcases beyond with ⟨set, many⟩ | big
        · exact .inl ⟨set, Nat.lt_of_le_of_ne many (notFull _ once set).symm⟩
        · exact .inr big
      · rename_i within
        refine ⟨?_, nofun, fun ⟨files, once', exceeds⟩ => absurd ?_ within⟩
        · intro files archived
          rw [← Except.ok.inj archived]
          exact once
        · have same := once.perm once'
          exact exceeds.over.mono same.length_eq.ge (zipBytes_le_of_subperm same.symm.subperm)

end Download

/-! ## Evaluated trees -/

/-- `CompleteTree` by evaluation, beside `wellFormedCheck`. -/
def completeTreeCheck (store : FsStore Oid) : Nat → List (DirEntryData Oid) → Bool
  | 0, _ => false
  | depth + 1, entries => entries.all fun entry =>
    decide (entry.name ≠ "" ∧ '/' ∉ entry.name.toList) &&
      (!isRegular entry.mode || (fileBatch store entry.id).isSome) &&
      (!isDir entry.mode || completeTreeCheck store depth (entriesOf store entry.id))

theorem completeTree_of_check {root : List (DirEntryData Oid)} (depth : Nat)
    (formed : wellFormedCheck store depth root = true)
    (checked : completeTreeCheck store depth root = true) : CompleteTree store root := by
  have entries : ∀ level, Below store root level → ∀ entry ∈ level,
      (entry.name ≠ "" ∧ '/' ∉ entry.name.toList) ∧
        (isRegular entry.mode = true → ∃ file, fileBatch store entry.id = some file) := by
    clear formed
    induction depth generalizing root with
    | zero => cases checked
    | succ depth ih =>
      intro level below entry listed
      rw [completeTreeCheck, List.all_eq_true] at checked
      rcases below.cases_head with rfl | ⟨first, isFirst, directory, below⟩
      · have here := checked entry listed
        simp only [Bool.and_eq_true, decide_eq_true_eq, Bool.or_eq_true] at here
        refine ⟨here.1.1, fun regular => Option.isSome_iff_exists.mp ?_⟩
        exact here.1.2.resolve_left (by simp [regular])
      · have here := checked first isFirst
        simp only [Bool.and_eq_true, Bool.or_eq_true] at here
        exact ih (here.2.resolve_left (by simp [directory])) level below entry listed
  exact ⟨wellFormed_of_check depth formed, fun level below entry listed =>
    (entries level below entry listed).1, fun level below entry listed =>
    (entries level below entry listed).2⟩

def chapter : FsFileData FreeId := ⟨[.atom 1, .atom 2], 5, seafMetadataTypeFile, 1⟩

def bookDir : FsDirData FreeId := directory [fileEntry "one" (Digests.fileId chapter) 5]

def shelvesDir : FsDirData FreeId := directory [dirEntry "book" (Digests.dirId bookDir)]

def zipRoot : FsDirData FreeId :=
  directory [dirEntry "shelf" (Digests.dirId shelvesDir), fileEntry "note" (Digests.fileId chapter) 5]

def zipStore : FsStore FreeId :=
  ⟨(Digests.fileId chapter, .file chapter) :: [bookDir, shelvesDir, zipRoot].map fun data =>
    (Digests.dirId data, .dir data)⟩

theorem zipStore_complete : CompleteTree zipStore zipRoot.dirents :=
  completeTree_of_check 4 (by decide +kernel) (by decide +kernel)

theorem zipStore_zips :
    ZipsExactly zipStore zipRoot.dirents ["shelf", "note", "shelf"] ⟨3, 10⟩
        (collectSelectedEntries defaultLimits zipStore (Digests.dirId zipRoot) "/"
          ["shelf", "note", "shelf"] ⟨3, 10⟩) ↔
      (∃ files, SelectedOnce zipStore zipRoot.dirents ["shelf", "note", "shelf"] files ∧
          ExceedsZip ⟨3, 10⟩ files) ∨
        WalksFit defaultLimits zipStore zipRoot.dirents ["shelf", "note", "shelf"] ∧
          RepeatsNoFile zipStore zipRoot.dirents ["shelf", "note", "shelf"] ∧
          ∀ files, SelectedOnce zipStore zipRoot.dirents ["shelf", "note", "shelf"] files →
            0 < 3 → files.length ≠ 3 :=
  collectSelectedEntries_zips_iff zipStore_complete rfl rfl (by decide)

/-- One file is refused where an archive may have one. -/
theorem filled_archive_refused :
    ¬ ∀ (walk : Limits) (store : FsStore FreeId) (rootFsId parentDirId : FreeId)
        (parentDir : String) (dirData : FsDirData FreeId) (names : List String)
        (limits : ZipLimits),
      CompleteTree store (entriesOf store rootFsId) →
      resolveFsIdFrom store rootFsId parentDir = .ok parentDirId →
      readFsDirData store parentDirId = .ok dirData →
      (∀ name ∈ names, name ∈ dirData.dirents.map DirEntryData.name) →
      ZipsExactly store dirData.dirents names limits
        (collectSelectedEntries walk store rootFsId parentDir names limits) := by
  intro always
  have zips := always defaultLimits zipStore (Digests.dirId zipRoot) (Digests.dirId zipRoot) "/"
    zipRoot ["note"] ⟨1, 0⟩ zipStore_complete rfl rfl (by decide)
  have refused : collectSelectedEntries defaultLimits zipStore (Digests.dirId zipRoot) "/" ["note"]
      ⟨1, 0⟩ = .error .tooManyRequests := by
    decide +kernel
  obtain ⟨files, ⟨selected, distinct⟩, exceeds⟩ := zips.refused.mp ⟨_, refused⟩
  have only : ∀ entry ∈ files, entry.pathInZip = "note" := by
    intro entry listed
    obtain ⟨name, named, below, id, file, has, -, rfl⟩ := (selected entry).mp listed
    obtain rfl := List.mem_singleton.mp named
    cases below with
    | nil => rfl
    | cons next rest =>
      obtain ⟨child, isChild, isNote, directory, -⟩ := has
      rcases List.mem_cons.mp isChild with rfl | isChild
      · exact absurd isNote (by decide)
      · rw [List.mem_singleton.mp isChild] at directory
        exact absurd directory (by decide)
  have few : files.length ≤ 1 := by
    rw [← List.length_map (f := ZipFileEntry.pathInZip)]
    have inside : files.map ZipFileEntry.pathInZip ⊆ ["note"] := by
      simpa [List.subset_def] using only
    exact (List.subperm_of_subset distinct inside).length_le
  rcases exceeds with ⟨-, many⟩ | ⟨set, -⟩
  · exact absurd (Nat.lt_of_lt_of_le many few) (Nat.lt_irrefl 1)
  · exact absurd set (Nat.lt_irrefl 0)

end Nanofile
