import Nanofile.Fs.BatchResolve
import Nanofile.Fs.GcHead
import Nanofile.Lib.Runs

/-!
# The versions of a file

The history of a file lists its versions, newest first: going back over the commits, each
content counts once as long as it does not change, until the path is gone.  The service looks
at a window of commits whose length hangs on the number of versions wanted, so versions
behind the window stay out although fewer than the wanted number were found.
-/

set_option autoImplicit false

namespace Nanofile

open Nanofile.Lib

variable {Oid : Type} [DecidableEq Oid] [Digests Oid]

structure FileHistoryItem (Oid : Type) where
  commitId : Oid
  path : String
  size : Int
  mtime : Int
  lastModifiedBy : String
  revFileId : Oid
  revFileName : String
  revDesc : String
  fileName : String
  fileSize : Int
  fileMtime : Int
  fileType : String
deriving DecidableEq, Repr

/-- `limit.saturating_mul(2)` on `u64`. -/
def historyWindow (limit : Nat) : Nat := min (limit * 2) (2 ^ 64 - 1)

/-- The loop over the resolved commits, with the versions kept and the id kept last. -/
def keepRevisions (limit : Nat) : List (CommitRow Oid × Option Oid) → List (CommitRow Oid × Oid) →
    Option Oid → List (CommitRow Oid × Oid)
  | [], kept, _ => kept
  | (row, fsIdOpt) :: rest, kept, lastFsId =>
    if limit ≤ kept.length then kept
    else
      match fsIdOpt with
      | none => kept
      | some fsId =>
        if lastFsId = some fsId then keepRevisions limit rest kept lastFsId
        else keepRevisions limit rest (kept ++ [(row, fsId)]) (some fsId)

def sizeInMap (store : FsStore Oid) (fsId : Oid) : Int :=
  ((fileBatch store fsId).map FsFileData.size).getD 0

def historyFileName (path : String) : String :=
  ((Text.rsplitOnce '/' path).map Prod.snd).getD path

def historyItem (store : FsStore Oid) (path : String) (kept : CommitRow Oid × Oid) :
    FileHistoryItem Oid where
  commitId := kept.1.commitId
  path := path
  size := sizeInMap store kept.2
  mtime := kept.1.ctime
  lastModifiedBy := kept.1.creatorName
  revFileId := kept.2
  revFileName := historyFileName path
  revDesc := kept.1.description
  fileName := historyFileName path
  fileSize := sizeInMap store kept.2
  fileMtime := kept.1.ctime
  fileType := "file"

def getFileHistory (store : FsStore Oid) (table : CommitTable Oid) (path : String) (limit : Nat) :
    Option (List (FileHistoryItem Oid)) := do
  let commits := (orderedByCtimeDesc table.rows).take (historyWindow limit)
  let resolved ← resolveFsIdsBatch store (commits.map fun row => (row.rootId, path))
  some ((keepRevisions limit (commits.zip resolved) [] none).map (historyItem store path))

/-- The commits of a library from HEAD back, each the only parent of the one before it and
older than it. -/
structure LinearHistory (table : CommitTable Oid) (headCommitId : Option Oid)
    (history : List (CommitRow Oid)) : Prop where
  listed : history.Perm table.rows
  head : history.head?.map CommitRow.commitId = headCommitId
  linked : history.IsChain fun row older =>
    row.parentId = some older.commitId ∧ row.secondParentId = none
  ordered : history.Pairwise fun row older => older.ctime < row.ctime

def locations (store : FsStore Oid) (path : String) (history : List (CommitRow Oid)) :
    List (CommitRow Oid × Option Oid) :=
  history.map fun row => (row, batchWalk store (pathSegments path) row.rootId)

/-- Back to the first commit in which the path is not found. -/
def whileFound : List (CommitRow Oid × Option Oid) → List (CommitRow Oid × Oid)
  | (row, some fsId) :: rest => (row, fsId) :: whileFound rest
  | _ => []

/-- The versions with their places in the history, each with the newest commit it is in. -/
def placedRevisions (store : FsStore Oid) (path : String) (history : List (CommitRow Oid)) :
    List ((CommitRow Oid × Oid) × Nat) :=
  Runs.firstOfRuns (fun revision => revision.1.2) (whileFound (locations store path history)).zipIdx

def firstVersions (store : FsStore Oid) (path : String) (limit : Nat)
    (history : List (CommitRow Oid)) : List (Oid × Int) :=
  ((Runs.firstOfRuns Prod.snd (whileFound (locations store path history))).take limit).map
    fun revision => (revision.2, sizeInMap store revision.2)

variable {store : FsStore Oid} {table : CommitTable Oid} {path : String} {limit : Nat}
  {history : List (CommitRow Oid)}

omit [Digests Oid] in
theorem keepRevisions_eq (items : List (CommitRow Oid × Option Oid))
    (kept : List (CommitRow Oid × Oid)) (lastFsId : Option Oid) :
    keepRevisions limit items kept lastFsId =
      kept ++ (Runs.newKeys Prod.snd lastFsId (whileFound items)).take (limit - kept.length) := by
  induction items generalizing kept lastFsId with
  | nil => simp [keepRevisions, whileFound, Runs.newKeys]
  | cons item rest ih =>
    obtain ⟨row, fsIdOpt⟩ := item
    rw [keepRevisions.eq_def]
    dsimp only
    split
    · rename_i full
      rw [Nat.sub_eq_zero_of_le full, List.take_zero, List.append_nil]
    · rename_i room
      cases fsIdOpt with
      | none => simp [whileFound, Runs.newKeys]
      | some fsId =>
        rw [whileFound, Runs.newKeys]
        dsimp only
        split
        · exact ih kept lastFsId
        · have more : limit - kept.length = (limit - (kept.length + 1)) + 1 := by omega
          rw [ih, List.length_append, List.length_singleton, more, List.take_succ_cons,
            List.append_assoc, List.singleton_append]

omit [DecidableEq Oid] [Digests Oid] in
theorem whileFound_take (items : List (CommitRow Oid × Option Oid)) (count : Nat) :
    whileFound (items.take count) = (whileFound items).take count := by
  induction items generalizing count with
  | nil => simp [whileFound]
  | cons item rest ih =>
    obtain ⟨row, fsIdOpt⟩ := item
    cases count with
    | zero => simp [whileFound]
    | succ count =>
      cases fsIdOpt with
      | none => simp [whileFound]
      | some fsId => rw [List.take_succ_cons, whileFound, whileFound, List.take_succ_cons, ih]

theorem zip_resolved {commits : List (CommitRow Oid)} {results : List (Option Oid)}
    (resolved : resolveFsIdsBatch store (commits.map fun row => (row.rootId, path)) =
      some results) : commits.zip results = locations store path commits := by
  obtain ⟨results', resolved', long, found⟩ :=
    resolveFsIdsBatch_spec store (commits.map fun row => (row.rootId, path))
  cases resolved.symm.trans resolved'
  rw [List.length_map] at long
  have isResults : results =
      commits.map fun row => batchWalk store (pathSegments path) row.rootId := by
    refine List.ext_getElem? fun i => ?_
    rw [List.getElem?_map]
    cases at_ : commits[i]? with
    | none =>
      have outside := List.getElem?_eq_none_iff.mp at_
      rw [List.getElem?_eq_none (by omega)]
      rfl
    | some row => exact found i (row.rootId, path) (by rw [List.getElem?_map, at_]; rfl)
  rw [isResults, locations]
  have paired := List.zip_map' (f := id) (l := commits)
    (g := fun row : CommitRow Oid => batchWalk store (pathSegments path) row.rootId)
  rw [List.map_id] at paired
  exact paired

omit [DecidableEq Oid] [Digests Oid] in
theorem orderedByCtimeDesc_linear {headCommitId : Option Oid}
    (linear : LinearHistory table headCommitId history) :
    orderedByCtimeDesc table.rows = history := by
  have sorted : history.Pairwise fun row older => row.newer older = true :=
    linear.ordered.imp fun isOlder => by simp [CommitRow.newer, isOlder]
  refine List.Perm.eq_of_pairwise (fun row other _ _ first second => ?_)
    (orderedByCtimeDesc_sorted table) sorted
    ((orderedByCtimeDesc_perm table.rows).trans linear.listed.symm)
  rw [newer_asymm _ _ first] at second
  cases second

/-- The versions whose commits are in the window are found, up to the number wanted. -/
theorem getFileHistory_eq {headCommitId : Option Oid}
    (linear : LinearHistory table headCommitId history) :
    getFileHistory store table path limit =
      some (((Runs.firstOfRuns Prod.snd ((whileFound (locations store path history)).take
        (historyWindow limit))).take limit).map (historyItem store path)) := by
  have window : locations store path (history.take (historyWindow limit)) =
      (locations store path history).take (historyWindow limit) := List.map_take
  obtain ⟨results, resolved, -, -⟩ := resolveFsIdsBatch_spec store
    ((history.take (historyWindow limit)).map fun row => (row.rootId, path))
  rw [getFileHistory, orderedByCtimeDesc_linear linear]
  simp only [Option.bind_eq_bind, resolved, Option.bind_some]
  rw [zip_resolved resolved, window, keepRevisions_eq, List.nil_append, List.length_nil,
    Nat.sub_zero, whileFound_take, Runs.newKeys_eq_firstOfRuns]

omit [DecidableEq Oid] [Digests Oid] in
theorem window_places {Item : Type} {items : List Item} {window : Nat} {item : Item × Nat} :
    (item ∈ (items.take window).zipIdx → item.2 < window) ∧
      (item ∈ (items.drop window).zipIdx (items.take window).length → window ≤ item.2) := by
  constructor
  · intro listed
    have place := List.snd_lt_of_mem_zipIdx listed
    rw [List.length_take] at place
    omega
  · intro listed
    have place := List.le_snd_of_mem_zipIdx listed
    have some_behind := List.length_pos_of_mem (List.fst_mem_of_mem_zipIdx listed)
    rw [List.length_take] at place
    rw [List.length_drop] at some_behind
    omega

/-- The versions wanted are all returned exactly when the newest commit of each of them is in the
window. -/
theorem getFileHistory_complete_iff {headCommitId : Option Oid}
    (linear : LinearHistory table headCommitId history) :
    (∃ items, getFileHistory store table path limit = some items ∧
      (items.map fun item => (item.revFileId, item.size)) =
        firstVersions store path limit history) ↔
      ∀ revision ∈ (placedRevisions store path history).take limit,
        revision.2 < historyWindow limit := by
  let located := whileFound (locations store path history)
  let window := historyWindow limit
  let idOf : (CommitRow Oid × Oid) × Nat → Oid := fun revision => revision.1.2
  let shown : (CommitRow Oid × Oid) × Nat → Oid × Int :=
    fun revision => (revision.1.2, sizeInMap store revision.1.2)
  have split : located.zipIdx = (located.take window).zipIdx ++
      (located.drop window).zipIdx (located.take window).length := by
    conv_lhs => rw [← List.take_append_drop window located, List.zipIdx_append]
    rw [Nat.zero_add]
  let found := Runs.firstOfRuns idOf (located.take window).zipIdx
  let rest := (located.drop window).zipIdx (located.take window).length
  obtain ⟨later, placed, behind⟩ : ∃ later,
      Runs.firstOfRuns idOf ((located.take window).zipIdx ++ rest) = found ++ later ∧
        later.Sublist rest :=
    Runs.firstOfRuns_append _ _
  have isPlaced : placedRevisions store path history = found ++ later := by
    rw [← placed, ← split]
    rfl
  -- places do not change what is found
  have unplaced : ∀ items : List (CommitRow Oid × Oid),
      Runs.firstOfRuns Prod.snd items =
        (Runs.firstOfRuns idOf items.zipIdx).map Prod.fst := by
    intro items
    rw [Runs.map_firstOfRuns Prod.fst items.zipIdx, List.zipIdx_map_fst]
  have returned_iff : (∃ items, getFileHistory store table path limit = some items ∧
      (items.map fun item => (item.revFileId, item.size)) =
        firstVersions store path limit history) ↔
      (found.take limit).map shown = ((found ++ later).take limit).map shown := by
    rw [getFileHistory_eq linear, firstVersions, unplaced, unplaced, ← isPlaced]
    simp only [Option.some.injEq, exists_eq_left', ← List.map_take, List.map_map]
    rfl
  rw [returned_iff, Runs.take_map_eq_iff, isPlaced]
  constructor
  · intro whole revision listed
    have isFound : revision ∈ found := by
      rcases whole with enough | rfl
      · rw [List.take_append_of_le_length enough] at listed
        exact List.mem_of_mem_take listed
      · rw [List.append_nil] at listed
        exact List.mem_of_mem_take listed
    exact window_places.1 ((Runs.firstOfRuns_sublist _).subset isFound)
  · intro inside
    by_contra missed
    push Not at missed
    -- the first version behind the window is among those wanted
    obtain ⟨revision, rest, isLater⟩ := List.exists_cons_of_ne_nil missed.2
    have wanted : revision ∈ (found ++ later).take limit := by
      rw [isLater, List.take_append]
      refine List.mem_append_right _ ?_
      obtain ⟨more, isMore⟩ := Nat.exists_eq_succ_of_ne_zero (Nat.sub_ne_zero_of_lt missed.1)
      rw [isMore, List.take_succ_cons]
      exact List.mem_cons_self
    have place := inside revision wanted
    have outside : window ≤ revision.2 :=
      window_places.2 (behind.subset (isLater ▸ List.mem_cons_self))
    exact absurd place (Nat.not_lt.mpr outside)

def versionRoot (number : Nat) : FsDirData FreeId :=
  directory [fileEntry "f" (.atom (if number = 0 then 1 else 2)) 1,
    fileEntry "g" (.atom (number + 3)) 1]

def versionStore : FsStore FreeId :=
  ⟨(List.range 6).map fun number =>
    (Digests.dirId (versionRoot number), .dir (versionRoot number).written)⟩

def versionRow (number : Nat) : CommitRow FreeId where
  id := number
  commitId := .atom number
  rootId := Digests.dirId (versionRoot number)
  parentId := if number = 0 then none else some (.atom (number - 1))
  secondParentId := none
  creatorName := "user"
  creator := .atom 0
  description := ""
  ctime := number
  newMerge := none
  conflict := none

def versionHistory : List (CommitRow FreeId) := [5, 4, 3, 2, 1, 0].map versionRow

def versionTable : CommitTable FreeId :=
  ⟨versionHistory, by decide +kernel, by decide +kernel⟩

theorem versionHistory_linear :
    LinearHistory versionTable (some (.atom 5)) versionHistory where
  listed := List.Perm.refl _
  head := rfl
  linked := by decide +kernel
  ordered := by decide +kernel

theorem getFileHistory_complete_three :
    ∃ items, getFileHistory versionStore versionTable "/f" 3 = some items ∧
      (items.map fun item => (item.revFileId, item.size)) =
        firstVersions versionStore "/f" 3 versionHistory :=
  (getFileHistory_complete_iff versionHistory_linear).mpr (by decide +kernel)

/-- Two versions are wanted and there are two, but the older one is not returned. -/
theorem getFileHistory_misses_version :
    ¬ ∀ (store : FsStore FreeId) (table : CommitTable FreeId) (headCommitId : Option FreeId)
        (history : List (CommitRow FreeId)) (path : String) (limit : Nat),
      LinearHistory table headCommitId history →
        ∃ items, getFileHistory store table path limit = some items ∧
          (items.map fun item => (item.revFileId, item.size)) =
            firstVersions store path limit history := by
  intro always
  obtain ⟨items, ran, same⟩ := always versionStore versionTable (some (.atom 5)) versionHistory
    "/f" 2 versionHistory_linear
  have returned : (getFileHistory versionStore versionTable "/f" 2).map List.length = some 1 := by
    decide +kernel
  have wanted : (firstVersions versionStore "/f" 2 versionHistory).length = 2 := by
    decide +kernel
  rw [ran] at returned
  have lengths := congrArg List.length same
  rw [wanted, List.length_map, Option.some.inj returned] at lengths
  cases lengths

end Nanofile
