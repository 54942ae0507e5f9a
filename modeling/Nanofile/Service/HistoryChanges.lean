import Nanofile.Fs.TreeDiff
import Nanofile.Lib.FirstVisits
import Nanofile.Lib.WindowLog
import Nanofile.Service.RestEdit

/-!
# The changes of a commit

`get_history_changes` collects the files of two trees with their sizes and compares the sizes.
The walk remembers directories by their ids and reads none twice, so of two directories with
the same content the files of one are collected.
-/

set_option autoImplicit false

namespace Nanofile

open Nanofile.Lib

variable {Oid : Type} [DecidableEq Oid] [Digests Oid]

/-! ## Collecting the files of a tree -/

abbrev FileSizes := Table TreePath Int

structure Collecting (Oid : Type) where
  files : FileSizes
  visited : List Oid
  next : List (ListFrame Oid)
deriving DecidableEq, Repr

def collectFrameEntry (dirPrefix : TreePath) (state : Collecting Oid) (entry : DirEntryData Oid) :
    Collecting Oid :=
  let childPath := dirPrefix ++ [entry.name]
  if isDir entry.mode then
    if entry.id ∈ state.visited then state
    else { state with
      visited := entry.id :: state.visited
      next := state.next ++ [⟨entry.id, childPath⟩] }
  else if entry.mode = sIfreg ∨ 0 < entry.size then
    { state with files := state.files.put childPath entry.size }
  else state

/-- A directory of the frontier; one without a row is skipped. -/
def collectDir (store : FsStore Oid) (state : Collecting Oid) (frame : ListFrame Oid) :
    Collecting Oid :=
  match dirBatch store frame.fsId with
  | none => state
  | some data => data.dirents.foldl (collectFrameEntry frame.path) state

def collectFrames (store : FsStore Oid) (frontier : List (ListFrame Oid))
    (acc : FileSizes × List Oid) : List (ListFrame Oid) × (FileSizes × List Oid) :=
  let state := frontier.foldl (collectDir store) ⟨acc.1, acc.2, []⟩
  (state.next, (state.files, state.visited))

def collectFiles (limits : Limits) (store : FsStore Oid) (root : Oid) :
    Except AppError FileSizes :=
  if root = emptySha1 then .ok .empty
  else
    (levelWalk limits.maxVisits limits.tooDeep limits.tooWide
      (fun frontier acc => .ok (collectFrames store frontier acc)) limits.maxDepth 0 [⟨root, []⟩]
      (.empty, [root])).map Prod.fst

/-! ## Comparing -/

structure FileChange where
  path : TreePath
  size : Int
deriving DecidableEq, Repr

structure HistoryChangesResponse where
  newFiles : List FileChange
  deletedFiles : List FileChange
  modifiedFiles : List FileChange
  renamedFiles : List FileChange
  newDirs : List TreePath
  deletedDirs : List TreePath
deriving DecidableEq, Repr

def changesWhere (files : FileSizes) (keep : TreePath → Int → Bool) : List FileChange :=
  (files.rows.filter fun row => keep row.1 row.2).map fun row => ⟨row.1, row.2⟩

def compareFiles (current parent : FileSizes) : HistoryChangesResponse where
  newFiles := changesWhere current fun path _ => (parent.find path).isNone
  deletedFiles := changesWhere parent fun path _ => (current.find path).isNone
  modifiedFiles := changesWhere current fun path size =>
    match parent.find path with
    | some oldSize => oldSize ≠ size
    | none => false
  renamedFiles := []
  newDirs := []
  deletedDirs := []

/-- `get_history_changes`; without a parent every file is new. -/
def getHistoryChanges (limits : Limits) (repo : Repo Oid) (commitId : Oid) :
    Except AppError HistoryChangesResponse := do
  let commit ← okOr (repo.commits.find commitId) (.notFound "commit not found")
  let currentFiles ← collectFiles limits repo.fsObjects commit.rootId
  match commit.parentId with
  | some parentId =>
    let parentCommit ← okOr (repo.commits.find parentId) (.notFound "parent commit not found")
    let parentFiles ← collectFiles limits repo.fsObjects parentCommit.rootId
    .ok (compareFiles currentFiles parentFiles)
  | none => .ok (compareFiles currentFiles .empty)

/-! ## What a walk collects -/

def subdirs (store : FsStore Oid) (frame : ListFrame Oid) : List (ListFrame Oid) :=
  ((entriesOf store frame.fsId).filter fun entry => isDir entry.mode).map fun entry =>
    ⟨entry.id, frame.path ++ [entry.name]⟩

def IsCounted (entry : DirEntryData Oid) : Prop :=
  isDir entry.mode = false ∧ (entry.mode = sIfreg ∨ 0 < entry.size)

instance (entry : DirEntryData Oid) : Decidable (IsCounted entry) :=
  inferInstanceAs (Decidable (_ ∧ _))

def countedIn (store : FsStore Oid) (frame : ListFrame Oid) : List (TreePath × Int) :=
  ((entriesOf store frame.fsId).filter fun entry => IsCounted entry).map fun entry =>
    (frame.path ++ [entry.name], entry.size)

omit [Digests Oid] in
theorem foldl_collectFrameEntry (path : TreePath) (entries : List (DirEntryData Oid))
    (state : Collecting Oid) :
    let dirs := (entries.filter fun entry => isDir entry.mode).map fun entry =>
      (⟨entry.id, path ++ [entry.name]⟩ : ListFrame Oid)
    let result := entries.foldl (collectFrameEntry path) state
    result.files = state.files.putAll ((entries.filter fun entry => IsCounted entry).map fun entry =>
        (path ++ [entry.name], entry.size)) ∧
      result.next = state.next ++ firstVisits ListFrame.fsId state.visited dirs ∧
      ∀ wanted, wanted ∈ result.visited ↔
        wanted ∈ dirs.map ListFrame.fsId ∨ wanted ∈ state.visited := by
  induction entries generalizing state with
  | nil => simp [Table.putAll, firstVisits]
  | cons entry rest ih =>
    obtain ⟨files, next, visited⟩ := ih (collectFrameEntry path state entry)
    dsimp only at files next visited ⊢
    rw [List.foldl_cons, files, next]
    simp only [visited]
    cases directory : isDir entry.mode with
    | true =>
      by_cases known : entry.id ∈ state.visited
      · have same : collectFrameEntry path state entry = state := by
          simp [collectFrameEntry, directory, known]
        refine ⟨by simp [same, directory, IsCounted], ?_, fun wanted => ?_⟩
        · simp [same, directory, firstVisits, known]
        · rw [same]
          simp only [directory, List.filter_cons_of_pos, List.map_cons, List.mem_cons]
          refine ⟨fun listed => listed.imp_left Or.inr, ?_⟩
          rintro ((rfl | below) | before)
          · exact Or.inr known
          · exact Or.inl below
          · exact Or.inr before
      · have moved : collectFrameEntry path state entry =
            { state with
              visited := entry.id :: state.visited
              next := state.next ++ [⟨entry.id, path ++ [entry.name]⟩] } := by
          simp [collectFrameEntry, directory, known]
        refine ⟨by simp [moved, directory, IsCounted], ?_, fun wanted => ?_⟩
        · simp [moved, directory, firstVisits, known]
        · rw [moved]
          simp only [directory, List.filter_cons_of_pos, List.map_cons, List.mem_cons]
          tauto
    | false =>
      by_cases counted : entry.mode = sIfreg ∨ 0 < entry.size
      · simp [collectFrameEntry, directory, counted, IsCounted, Table.putAll]
      · simp [collectFrameEntry, directory, counted, IsCounted]

theorem collectDir_eq (store : FsStore Oid) (state : Collecting Oid) (frame : ListFrame Oid) :
    collectDir store state frame =
      (entriesOf store frame.fsId).foldl (collectFrameEntry frame.path) state := by
  unfold collectDir entriesOf
  cases dirBatch store frame.fsId <;> rfl

theorem foldl_collectDir (store : FsStore Oid) (frontier : List (ListFrame Oid))
    (state : Collecting Oid) :
    let result := frontier.foldl (collectDir store) state
    result.files = frontier.foldl (fun files frame => files.putAll (countedIn store frame))
        state.files ∧
      result.next = state.next ++
        firstVisits ListFrame.fsId state.visited (frontier.flatMap (subdirs store)) ∧
      ∀ wanted, wanted ∈ result.visited ↔
        wanted ∈ (frontier.flatMap (subdirs store)).map ListFrame.fsId ∨
          wanted ∈ state.visited := by
  induction frontier generalizing state with
  | nil => simp [firstVisits]
  | cons frame rest ih =>
    obtain ⟨files, next, visited⟩ := ih (collectDir store state frame)
    obtain ⟨filesHere, nextHere, visitedHere⟩ :=
      foldl_collectFrameEntry frame.path (entriesOf store frame.fsId) state
    rw [← collectDir_eq] at filesHere nextHere visitedHere
    have seen : ∀ wanted, wanted ∈ (collectDir store state frame).visited ↔
        wanted ∈ (subdirs store frame).map ListFrame.fsId ++ state.visited := by
      intro wanted
      rw [visitedHere, List.mem_append]
      rfl
    dsimp only at files next visited ⊢
    rw [List.foldl_cons, List.foldl_cons, List.flatMap_cons, firstVisits_append, files, next,
      filesHere, nextHere, List.append_assoc]
    refine ⟨rfl, ?_, fun wanted => ?_⟩
    · rw [firstVisits_congr seen]
      rfl
    · rw [visited, seen, List.mem_append, List.map_append, List.mem_append]
      tauto

theorem collectFrames_reads (store : FsStore Oid) :
    ReadsFirst ListFrame.fsId (subdirs store)
      (fun files frame => files.putAll (countedIn store frame))
      (fun frontier acc => (.ok (collectFrames store frontier acc) :
        Except AppError (List (ListFrame Oid) × (FileSizes × List Oid)))) := by
  intro frontier files seen
  obtain ⟨isFiles, isNext, isVisited⟩ := foldl_collectDir store frontier ⟨files, seen, []⟩
  refine ⟨(frontier.foldl (collectDir store) ⟨files, seen, []⟩).visited, ?_, isVisited⟩
  simp only [collectFrames]
  rw [isFiles, isNext, List.nil_append]

/-! ## The directories that are read -/

/-- The first directory of every id within `depth` levels, in the order of the levels. -/
def firstDirs (store : FsStore Oid) (root : Oid) (depth : Nat) : List (ListFrame Oid) :=
  firstTo ListFrame.fsId (subdirs store) ⟨root, []⟩ depth

/-- The directories that differ are met within the limits of a walk. -/
def Walkable (limits : Limits) (store : FsStore Oid) (root : Oid) : Prop :=
  root = emptySha1 ∨ ∃ reached ≤ limits.maxDepth,
    firstDirs store root (reached + 1) = firstDirs store root reached ∧
      (firstDirs store root reached).length ≤ limits.maxVisits

/-- The file lies in the first directory of its id, and is taken for one. -/
def CountedAt (store : FsStore Oid) (root : Oid) (path : TreePath) (size : Int) : Prop :=
  ∃ depth, ∃ frame ∈ firstDirs store root depth, (path, size) ∈ countedIn store frame

theorem subdirs_alike (store : FsStore Oid) (frame frame' : ListFrame Oid)
    (same : frame.fsId = frame'.fsId) : (subdirs store frame).map ListFrame.fsId =
      (subdirs store frame').map ListFrame.fsId := by
  simp only [subdirs, List.map_map, same]
  rfl

variable {store : FsStore Oid} {root : Oid}

theorem firstDirs_ends {reached : Nat} :
    firstDirs store root (reached + 1) = firstDirs store root reached ↔
      firstLevel ListFrame.fsId (subdirs store) ⟨root, []⟩ reached = [] := by
  simp [firstDirs, firstTo_succ]

theorem foldl_putAll (files : FileSizes) {Item : Type} (items : Item → List (TreePath × Int))
    (list : List Item) : list.foldl (fun files item => files.putAll (items item)) files =
      files.putAll (list.flatMap items) := by
  simp only [Table.putAll, List.foldl_flatMap]

variable {files : FileSizes} {limits : Limits}

theorem collectFiles_ok_iff :
    collectFiles limits store root = .ok files ↔
      (root = emptySha1 ∧ files = .empty) ∨ (root ≠ emptySha1 ∧ ∃ reached ≤ limits.maxDepth,
        firstDirs store root (reached + 1) = firstDirs store root reached ∧
        (firstDirs store root reached).length ≤ limits.maxVisits ∧
        files = .putAll .empty ((firstDirs store root reached).flatMap (countedIn store))) := by
  unfold collectFiles
  by_cases isEmpty : root = emptySha1
  · rw [if_pos isEmpty]
    constructor
    · intro run
      cases run
      exact Or.inl ⟨isEmpty, rfl⟩
    · rintro (⟨-, rfl⟩ | ⟨nonempty, -⟩)
      · rfl
      · exact absurd isEmpty nonempty
  · have walk : (∃ seen, levelWalk limits.maxVisits limits.tooDeep limits.tooWide
        (fun frontier acc => .ok (collectFrames store frontier acc)) limits.maxDepth 0 [⟨root, []⟩]
        (.empty, [root]) = .ok (files, seen)) ↔ ∃ reached ≤ limits.maxDepth,
          firstLevel ListFrame.fsId (subdirs store) ⟨root, []⟩ reached = [] ∧
          (firstDirs store root reached).length ≤ limits.maxVisits ∧
          files = (firstDirs store root reached).foldl
            (fun files frame => files.putAll (countedIn store frame)) .empty :=
      firstWalk_ok_iff (subdirs_alike store) (collectFrames_reads store)
    simp only [foldl_putAll, ← firstDirs_ends] at walk
    rw [if_neg isEmpty, or_iff_right (fun empty => isEmpty empty.1), and_iff_right isEmpty, ← walk]
    cases levelWalk limits.maxVisits limits.tooDeep limits.tooWide
      (fun frontier acc => .ok (collectFrames store frontier acc)) limits.maxDepth 0 [⟨root, []⟩]
      (.empty, [root]) with
    | error failure => simp [Except.map]
    | ok out =>
      obtain ⟨found, seen⟩ := out
      simp [Except.map]

theorem firstDirs_of_le {reached depth : Nat}
    (ends : firstDirs store root (reached + 1) = firstDirs store root reached)
    (frame : ListFrame Oid) (first : frame ∈ firstDirs store root depth) :
    frame ∈ firstDirs store root reached := by
  rcases Nat.le_total reached depth with deeper | above
  · rw [firstDirs, (firstTo_of_le (subdirs_alike store) (firstDirs_ends.mp ends) deeper).2] at first
    exact first
  · obtain ⟨more, rfl⟩ := Nat.exists_eq_add_of_le above
    clear ends above
    induction more with
    | zero => exact first
    | succ more ih =>
      rw [← Nat.add_assoc, firstDirs, firstTo_succ]
      exact List.mem_append_left _ ih

/-! ## Trees of files and directories -/

variable {path : TreePath} {size : Int}

section Formed

variable {store : FsStore Oid} {root : Oid} (formed : WellFormed store (entriesOf store root))

include formed

theorem firstDirs_at {depth : Nat} {frame : ListFrame Oid}
    (first : frame ∈ firstDirs store root depth) :
    dirAt store (entriesOf store root) frame.path = entriesOf store frame.fsId ∧
      Below store (entriesOf store root) (entriesOf store frame.fsId) := by
  refine levelsTo_invariant (P := fun frame =>
    dirAt store (entriesOf store root) frame.path = entriesOf store frame.fsId ∧
      Below store (entriesOf store root) (entriesOf store frame.fsId)) ?_ ?_ depth frame
    (mem_of_mem_firstVisits first)
  · intro node listed
    obtain rfl := List.mem_singleton.mp listed
    exact ⟨rfl, .root⟩
  · rintro above ⟨isDir, below⟩ child isChild
    obtain ⟨entry, listed, rfl⟩ := List.mem_map.mp isChild
    obtain ⟨listed, directory⟩ := List.mem_filter.mp listed
    refine ⟨?_, .child below listed directory⟩
    rw [dirAt_concat, isDir]
    exact entriesUnder_of_mem (formed _ below).1 listed (hasDirBit_of_isDir directory)

theorem CountedAt.entry (counted : CountedAt store root path size) :
    ∃ entry, entryAt store (entriesOf store root) path = some entry ∧
      hasDirBit entry.mode = false ∧ entry.size = size := by
  obtain ⟨depth, frame, first, member⟩ := counted
  obtain ⟨entry, listed, same⟩ := List.mem_map.mp member
  obtain ⟨rfl, rfl⟩ := Prod.mk.inj same
  obtain ⟨listed, isCounted⟩ := List.mem_filter.mp listed
  obtain ⟨isDirectory, below⟩ := firstDirs_at formed first
  obtain ⟨distinct, kinds⟩ := formed _ below
  refine ⟨entry, ?_, ?_, rfl⟩
  · rw [entryAt_concat, isDirectory]
    exact lookup_of_mem distinct listed
  · rcases kinds entry listed with ⟨regular, -⟩ | ⟨directory, -⟩
    · exact not_hasDirBit_of_isRegular regular
    · rw [(of_decide_eq_true isCounted).1] at directory
      cases directory

theorem CountedAt.unique {size' : Int} (counted : CountedAt store root path size)
    (counted' : CountedAt store root path size') : size = size' := by
  obtain ⟨entry, found, -, rfl⟩ := counted.entry formed
  obtain ⟨entry', found', -, rfl⟩ := counted'.entry formed
  rw [Option.some_inj.mp (found.symm.trans found')]

theorem collectFiles_find (run : collectFiles limits store root = .ok files) :
    files.keys.Nodup ∧
      ∀ path size, files.find path = some size ↔ CountedAt store root path size := by
  rcases collectFiles_ok_iff.mp run with ⟨rfl, rfl⟩ | ⟨-, reached, -, ends, -, rfl⟩
  · refine ⟨List.nodup_nil, fun path size => iff_of_false (by simp) fun counted => ?_⟩
    obtain ⟨entry, found, -⟩ := counted.entry formed
    rw [entriesOf_sentinel, entryAt_nil_root] at found
    cases found
  · have isCounted : ∀ path size, (path, size) ∈ (firstDirs store root reached).flatMap
        (countedIn store) ↔ CountedAt store root path size := by
      intro path size
      rw [List.mem_flatMap]
      constructor
      · rintro ⟨frame, first, member⟩
        exact ⟨reached, frame, first, member⟩
      · rintro ⟨depth, frame, first, member⟩
        exact ⟨frame, firstDirs_of_le ends frame first, member⟩
    have unique : (Table.empty : FileSizes).keys.Nodup := List.nodup_nil
    refine ⟨Table.keys_putAll_nodup unique _, fun path size => ?_⟩
    rw [Table.find_putAll, isCounted]
    intro path size size' listed listed'
    exact ((isCounted _ _).mp listed).unique formed ((isCounted _ _).mp listed')

end Formed

theorem walkable_iff :
    (∃ files, collectFiles limits store root = .ok files) ↔ Walkable limits store root := by
  simp only [collectFiles_ok_iff]
  constructor
  · rintro ⟨files, ⟨isEmpty, -⟩ | ⟨-, reached, within, ends, short, -⟩⟩
    · exact Or.inl isEmpty
    · exact Or.inr ⟨reached, within, ends, short⟩
  · intro walkable
    by_cases isEmpty : root = emptySha1
    · exact ⟨.empty, Or.inl ⟨isEmpty, rfl⟩⟩
    · obtain ⟨reached, within, ends, short⟩ := walkable.resolve_left isEmpty
      exact ⟨_, Or.inr ⟨isEmpty, reached, within, ends, short, rfl⟩⟩

/-! ## The difference of two trees -/

/-- The response lists the files by whether both trees have them and with what ids. -/
structure ReportsDifference (current parent : TreePath → Option Oid)
    (changes : HistoryChangesResponse) : Prop where
  new : ∀ path, path ∈ changes.newFiles.map FileChange.path ↔
    (∃ id, current path = some id) ∧ parent path = none
  deleted : ∀ path, path ∈ changes.deletedFiles.map FileChange.path ↔
    (∃ id, parent path = some id) ∧ current path = none
  modified : ∀ path, path ∈ changes.modifiedFiles.map FileChange.path ↔
    ∃ id id', current path = some id ∧ parent path = some id' ∧ id ≠ id'

/-- A file in one tree is counted there.  A file in both is counted in both or in none, and its
sizes differ where its ids do. -/
structure ComparedAt (store : FsStore Oid) (current parent : Oid) (path : TreePath) : Prop where
  new : ∀ id, filesOf store (entriesOf store current) path = some id →
    filesOf store (entriesOf store parent) path = none → ∃ size, CountedAt store current path size
  deleted : ∀ id, filesOf store (entriesOf store parent) path = some id →
    filesOf store (entriesOf store current) path = none → ∃ size, CountedAt store parent path size
  both : ∀ id id', filesOf store (entriesOf store current) path = some id →
    filesOf store (entriesOf store parent) path = some id' →
      ((∃ size, CountedAt store current path size) ↔ ∃ size, CountedAt store parent path size) ∧
      (id ≠ id' ↔ ∃ size size', CountedAt store current path size ∧
        CountedAt store parent path size' ∧ size ≠ size')

theorem mem_changesWhere {keep : TreePath → Int → Bool} (unique : files.keys.Nodup) :
    path ∈ (changesWhere files keep).map FileChange.path ↔
      ∃ size, files.find path = some size ∧ keep path size = true := by
  simp only [changesWhere, List.map_map, List.mem_map, List.mem_filter, Function.comp_apply]
  constructor
  · rintro ⟨⟨path, size⟩, ⟨listed, kept⟩, rfl⟩
    exact ⟨size, (Table.find_eq_some_iff unique).mpr listed, kept⟩
  · rintro ⟨size, found, kept⟩
    exact ⟨(path, size), ⟨(Table.find_eq_some_iff unique).mp found, kept⟩, rfl⟩

section Difference

variable {store : FsStore Oid} {current parent : Oid}
  (formed : WellFormed store (entriesOf store current))
  (formed' : WellFormed store (entriesOf store parent))

include formed in
theorem CountedAt.file (counted : CountedAt store current path size) :
    ∃ id, filesOf store (entriesOf store current) path = some id := by
  obtain ⟨entry, found, file, -⟩ := counted.entry formed
  exact ⟨entry.id, filesOf_eq_some_iff.mpr ⟨entry, found, file, rfl⟩⟩

include formed formed'

theorem compareFiles_reports_iff {currentFiles parentFiles : FileSizes}
    (unique : currentFiles.keys.Nodup) (unique' : parentFiles.keys.Nodup)
    (finds : ∀ path size, currentFiles.find path = some size ↔ CountedAt store current path size)
    (finds' : ∀ path size, parentFiles.find path = some size ↔ CountedAt store parent path size) :
    ReportsDifference (filesOf store (entriesOf store current))
        (filesOf store (entriesOf store parent)) (compareFiles currentFiles parentFiles) ↔
      ∀ path, ComparedAt store current parent path := by
  have absent : ∀ {files : FileSizes} {path : TreePath},
      files.find path = none ↔ ¬ ∃ size, files.find path = some size := by
    intro files path
    rw [Option.eq_none_iff_forall_ne_some, not_exists]
  have isNew : ∀ path, path ∈ (compareFiles currentFiles parentFiles).newFiles.map FileChange.path ↔
      (∃ size, CountedAt store current path size) ∧ ¬ ∃ size, CountedAt store parent path size := by
    intro path
    simp only [compareFiles, mem_changesWhere unique, Option.isNone_iff_eq_none, absent, finds,
      finds', exists_and_right]
  have isDeleted : ∀ path,
      path ∈ (compareFiles currentFiles parentFiles).deletedFiles.map FileChange.path ↔
      (∃ size, CountedAt store parent path size) ∧ ¬ ∃ size, CountedAt store current path size := by
    intro path
    simp only [compareFiles, mem_changesWhere unique', Option.isNone_iff_eq_none, absent, finds,
      finds', exists_and_right]
  have isModified : ∀ path,
      path ∈ (compareFiles currentFiles parentFiles).modifiedFiles.map FileChange.path ↔
      ∃ size size', CountedAt store current path size ∧ CountedAt store parent path size' ∧
        size ≠ size' := by
    intro path
    simp only [compareFiles, mem_changesWhere unique, finds]
    refine exists_congr fun size => ?_
    cases found : parentFiles.find path with
    | none =>
      refine iff_of_false (by simp) ?_
      rintro ⟨size', -, counted, -⟩
      rw [(finds' path size').mpr counted] at found
      cases found
    | some old =>
      have isOld := (finds' path old).mp found
      constructor
      · rintro ⟨counted, differs⟩
        exact ⟨old, counted, isOld, fun same => of_decide_eq_true differs same.symm⟩
      · rintro ⟨size', counted, counted', differs⟩
        rw [counted'.unique formed' isOld] at differs
        exact ⟨counted, decide_eq_true (Ne.symm differs)⟩
  have isFile := fun path size (counted : CountedAt store current path size) => counted.file formed
  have isFile' := fun path size (counted : CountedAt store parent path size) => counted.file formed'
  constructor
  · rintro ⟨new, deleted, modified⟩ path
    have newHere := (isNew path).symm.trans (new path)
    have deletedHere := (isDeleted path).symm.trans (deleted path)
    have modifiedHere := (isModified path).symm.trans (modified path)
    refine ⟨fun id isId missing => (newHere.mpr ⟨⟨id, isId⟩, missing⟩).1,
      fun id isId missing => (deletedHere.mpr ⟨⟨id, isId⟩, missing⟩).1, fun id id' isId isId' => ⟨?_, ?_⟩⟩
    · constructor
      · intro counted
        by_contra uncounted
        have missing := (newHere.mp ⟨counted, uncounted⟩).2
        rw [isId'] at missing
        cases missing
      · intro counted
        by_contra uncounted
        have missing := (deletedHere.mp ⟨counted, uncounted⟩).2
        rw [isId] at missing
        cases missing
    · rw [modifiedHere]
      simp only [isId, isId', Option.some.injEq]
      constructor
      · exact fun differ => ⟨id, id', rfl, rfl, differ⟩
      · rintro ⟨_, _, rfl, rfl, differ⟩
        exact differ
  · intro compared
    refine ⟨fun path => (isNew path).trans ?_, fun path => (isDeleted path).trans ?_,
      fun path => (isModified path).trans ?_⟩
    · constructor
      · rintro ⟨⟨size, counted⟩, uncounted⟩
        refine ⟨isFile path size counted, ?_⟩
        cases found : filesOf store (entriesOf store parent) path with
        | none => rfl
        | some id' =>
          obtain ⟨id, isId⟩ := isFile path size counted
          exact absurd (((compared path).both id id' isId found).1.mp ⟨size, counted⟩) uncounted
      · rintro ⟨⟨id, isId⟩, missing⟩
        refine ⟨(compared path).new id isId missing, ?_⟩
        rintro ⟨size, counted⟩
        obtain ⟨id', isId'⟩ := isFile' path size counted
        rw [missing] at isId'
        cases isId'
    · constructor
      · rintro ⟨⟨size, counted⟩, uncounted⟩
        refine ⟨isFile' path size counted, ?_⟩
        cases found : filesOf store (entriesOf store current) path with
        | none => rfl
        | some id =>
          obtain ⟨id', isId'⟩ := isFile' path size counted
          exact absurd (((compared path).both id id' found isId').1.mpr ⟨size, counted⟩) uncounted
      · rintro ⟨⟨id, isId⟩, missing⟩
        refine ⟨(compared path).deleted id isId missing, ?_⟩
        rintro ⟨size, counted⟩
        obtain ⟨id', isId'⟩ := isFile path size counted
        rw [missing] at isId'
        cases isId'
    · constructor
      · rintro ⟨size, size', counted, counted', differ⟩
        obtain ⟨id, isId⟩ := isFile path size counted
        obtain ⟨id', isId'⟩ := isFile' path size' counted'
        exact ⟨id, id', isId, isId', ((compared path).both id id' isId isId').2.mpr
          ⟨size, size', counted, counted', differ⟩⟩
      · rintro ⟨id, id', isId, isId', differ⟩
        exact ((compared path).both id id' isId isId').2.mp differ

end Difference

/-- The root of the tree a commit is compared with; a first commit is compared with nothing. -/
def ParentRoot (repo : Repo Oid) (commit : CommitRow Oid) (root : Oid) : Prop :=
  match commit.parentId with
  | some parentId => ∃ parent, repo.commits.find parentId = some parent ∧ parent.rootId = root
  | none => root = emptySha1

theorem getHistoryChanges_ok_iff {repo : Repo Oid} {commitId parentRoot : Oid}
    {commit : CommitRow Oid} {changes : HistoryChangesResponse}
    (found : repo.commits.find commitId = some commit)
    (isParent : ParentRoot repo commit parentRoot) :
    getHistoryChanges limits repo commitId = .ok changes ↔
      ∃ currentFiles parentFiles,
        collectFiles limits repo.fsObjects commit.rootId = .ok currentFiles ∧
        collectFiles limits repo.fsObjects parentRoot = .ok parentFiles ∧
        changes = compareFiles currentFiles parentFiles := by
  unfold ParentRoot at isParent
  simp only [getHistoryChanges, except_bind_ok_iff, okOr_eq_ok_iff, found, Option.some.injEq,
    exists_eq_left']
  cases parent : commit.parentId with
  | none =>
    rw [parent] at isParent
    obtain rfl : parentRoot = emptySha1 := isParent
    have nothing : collectFiles limits repo.fsObjects emptySha1 = .ok .empty := if_pos rfl
    simp [nothing, eq_comm]
  | some parentId =>
    rw [parent] at isParent
    obtain ⟨row, isRow, rfl⟩ := isParent
    simp only [except_bind_ok_iff, okOr_eq_ok_iff, isRow, Option.some.injEq, exists_eq_left',
      Except.ok.injEq]
    simp only [eq_comm, exists_and_left]

/-- The changes of a commit are the difference of its tree and its parent's exactly when both
are walked within the limits and every path is compared by files that are counted. -/
theorem history_changes_iff {limits : Limits} {repo : Repo Oid} {commitId parentRoot : Oid}
    {commit : CommitRow Oid} (found : repo.commits.find commitId = some commit)
    (isParent : ParentRoot repo commit parentRoot)
    (formed : WellFormed repo.fsObjects (entriesOf repo.fsObjects commit.rootId))
    (formed' : WellFormed repo.fsObjects (entriesOf repo.fsObjects parentRoot)) :
    (∃ changes, getHistoryChanges limits repo commitId = .ok changes ∧
      ReportsDifference (filesOf repo.fsObjects (entriesOf repo.fsObjects commit.rootId))
        (filesOf repo.fsObjects (entriesOf repo.fsObjects parentRoot)) changes) ↔
    Walkable limits repo.fsObjects commit.rootId ∧ Walkable limits repo.fsObjects parentRoot ∧
      ∀ path, ComparedAt repo.fsObjects commit.rootId parentRoot path := by
  simp only [getHistoryChanges_ok_iff found isParent, ← walkable_iff]
  constructor
  · rintro ⟨changes, ⟨currentFiles, parentFiles, run, run', rfl⟩, reports⟩
    obtain ⟨unique, finds⟩ := collectFiles_find formed run
    obtain ⟨unique', finds'⟩ := collectFiles_find formed' run'
    exact ⟨⟨_, run⟩, ⟨_, run'⟩,
      (compareFiles_reports_iff formed formed' unique unique' finds finds').mp reports⟩
  · rintro ⟨⟨currentFiles, run⟩, ⟨parentFiles, run'⟩, compared⟩
    obtain ⟨unique, finds⟩ := collectFiles_find formed run
    obtain ⟨unique', finds'⟩ := collectFiles_find formed' run'
    exact ⟨_, ⟨_, _, run, run', rfl⟩,
      (compareFiles_reports_iff formed formed' unique unique' finds finds').mpr compared⟩

/-! ## Commits that are told apart and commits that are not -/

def childCommit (parent current : FsDirData FreeId) (objects : List (FsDirData FreeId)) :
    CommitData FreeId :=
  { bareCommit "child" (libraryOf parent (current :: objects)).headCommitId with
    rootId := Digests.dirId current }

def twoCommits (parent current : FsDirData FreeId) (objects : List (FsDirData FreeId)) :
    Repo FreeId :=
  let library := libraryOf parent (current :: objects)
  { library with
    commits := (library.commits.insertCommit (childCommit parent current objects).row).getD
      library.commits }

def shortFile : FsDirData FreeId := directory [fileEntry "f" (.atom 1) 3]

def longFile : FsDirData FreeId := directory [fileEntry "f" (.atom 2) 4]

theorem filesOf_one_file (store : FsStore FreeId) (entry : DirEntryData FreeId)
    (file : hasDirBit entry.mode = false) (other : path ≠ [entry.name]) :
    filesOf store [entry] path = none := by
  refine filesOf_of_entryAt_none ?_
  match path with
  | [] => rfl
  | [name] =>
    have differs : entry.name ≠ name := fun same => other (by rw [same])
    simp [entryAt, lookup, differs]
  | name :: next :: rest =>
    have nothing : entriesUnder store [entry] name = [] := by
      by_cases same : entry.name = name <;> simp [entriesUnder, lookup, same, file]
    rw [entryAt, nothing, entryAt_nil_root]

theorem grown_file_compared (path : TreePath) :
    ComparedAt (twoCommits shortFile longFile []).fsObjects (Digests.dirId longFile)
      (Digests.dirId shortFile) path := by
  have current : entriesOf (twoCommits shortFile longFile []).fsObjects (Digests.dirId longFile) =
      [fileEntry "f" (.atom 2) 4] := by decide +kernel
  have parent : entriesOf (twoCommits shortFile longFile []).fsObjects (Digests.dirId shortFile) =
      [fileEntry "f" (.atom 1) 3] := by decide +kernel
  by_cases isFile : path = ["f"]
  · subst isFile
    have counted : CountedAt (twoCommits shortFile longFile []).fsObjects (Digests.dirId longFile)
        ["f"] 4 := ⟨1, ⟨Digests.dirId longFile, []⟩, by decide +kernel, by decide +kernel⟩
    have counted' : CountedAt (twoCommits shortFile longFile []).fsObjects (Digests.dirId shortFile)
        ["f"] 3 := ⟨1, ⟨Digests.dirId shortFile, []⟩, by decide +kernel, by decide +kernel⟩
    refine ⟨fun _ _ _ => ⟨4, counted⟩, fun _ _ _ => ⟨3, counted'⟩, fun id id' isId isId' =>
      ⟨iff_of_true ⟨4, counted⟩ ⟨3, counted'⟩,
        iff_of_true ?_ ⟨4, 3, counted, counted', by decide⟩⟩⟩
    rw [current] at isId
    rw [parent] at isId'
    obtain rfl : FreeId.atom 2 = id := Option.some_inj.mp isId
    obtain rfl : FreeId.atom 1 = id' := Option.some_inj.mp isId'
    decide
  · have missing := filesOf_one_file (twoCommits shortFile longFile []).fsObjects
      (fileEntry "f" (.atom 2) 4) (by decide) isFile
    have missing' := filesOf_one_file (twoCommits shortFile longFile []).fsObjects
      (fileEntry "f" (.atom 1) 3) (by decide) isFile
    rw [← current] at missing
    rw [← parent] at missing'
    refine ⟨fun id isId _ => ?_, fun id isId _ => ?_, fun id id' isId _ => ?_⟩
    · exact absurd (missing.symm.trans isId) (by simp)
    · exact absurd (missing'.symm.trans isId) (by simp)
    · exact absurd (missing.symm.trans isId) (by simp)

/-- A file that has grown is reported as modified. -/
theorem grown_file_reported :
    ∃ changes, getHistoryChanges defaultLimits (twoCommits shortFile longFile [])
        (childCommit shortFile longFile []).commitId = .ok changes ∧
      ReportsDifference
        (filesOf (twoCommits shortFile longFile []).fsObjects
          (entriesOf (twoCommits shortFile longFile []).fsObjects (Digests.dirId longFile)))
        (filesOf (twoCommits shortFile longFile []).fsObjects
          (entriesOf (twoCommits shortFile longFile []).fsObjects (Digests.dirId shortFile)))
        changes := by
  have found : (twoCommits shortFile longFile []).commits.find
      (childCommit shortFile longFile []).commitId =
        some { (childCommit shortFile longFile []).row with id := 2 } := by decide +kernel
  have isParent : ParentRoot (twoCommits shortFile longFile [])
      { (childCommit shortFile longFile []).row with id := 2 } (Digests.dirId shortFile) :=
    ⟨(twoCommits shortFile longFile []).commits.rows.head (by decide +kernel), by decide +kernel,
      by decide +kernel⟩
  exact (history_changes_iff found isParent (wellFormed_of_check 2 (by decide +kernel))
    (wellFormed_of_check 2 (by decide +kernel))).mpr ⟨Or.inr ⟨1, by decide, by decide +kernel,
      by decide +kernel⟩, Or.inr ⟨1, by decide, by decide +kernel, by decide +kernel⟩,
      grown_file_compared⟩

def oneDir : FsDirData FreeId := directory [fileEntry "x" (.atom 1) 3]

def withDirs (names : List String) : FsDirData FreeId :=
  directory (names.map fun name => dirEntry name (Digests.dirId oneDir))

def sameSizeFile : FsDirData FreeId := directory [fileEntry "f" (.atom 2) 3]

/-- A directory `a` is copied to `b`: its file is reported as deleted.  A file is edited and keeps
its size: nothing is reported. -/
theorem copied_and_edited_not_reported :
    WellFormed (twoCommits (withDirs ["a"]) (withDirs ["b", "a"]) [oneDir]).fsObjects
        (withDirs ["b", "a"]).dirents ∧
      WellFormed (twoCommits (withDirs ["a"]) (withDirs ["b", "a"]) [oneDir]).fsObjects
        (withDirs ["a"]).dirents ∧
      getHistoryChanges defaultLimits (twoCommits (withDirs ["a"]) (withDirs ["b", "a"]) [oneDir])
          (childCommit (withDirs ["a"]) (withDirs ["b", "a"]) [oneDir]).commitId =
        .ok ⟨[⟨["b", "x"], 3⟩], [⟨["a", "x"], 3⟩], [], [], [], []⟩ ∧
      filesOf (twoCommits (withDirs ["a"]) (withDirs ["b", "a"]) [oneDir]).fsObjects
        (withDirs ["b", "a"]).dirents ["a", "x"] = some (.atom 1) ∧
    WellFormed (twoCommits shortFile sameSizeFile []).fsObjects sameSizeFile.dirents ∧
      WellFormed (twoCommits shortFile sameSizeFile []).fsObjects shortFile.dirents ∧
      getHistoryChanges defaultLimits (twoCommits shortFile sameSizeFile [])
          (childCommit shortFile sameSizeFile []).commitId = .ok ⟨[], [], [], [], [], []⟩ ∧
      filesOf (twoCommits shortFile sameSizeFile []).fsObjects sameSizeFile.dirents ["f"] =
        some (.atom 2) ∧
      filesOf (twoCommits shortFile sameSizeFile []).fsObjects shortFile.dirents ["f"] =
        some (.atom 1) :=
  ⟨wellFormed_of_check 3 (by decide +kernel), wellFormed_of_check 3 (by decide +kernel),
    by decide +kernel, by decide +kernel, wellFormed_of_check 2 (by decide +kernel),
    wellFormed_of_check 2 (by decide +kernel), by decide +kernel, by decide +kernel,
    by decide +kernel⟩

end Nanofile
