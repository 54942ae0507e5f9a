import Nanofile.Service.History
import Nanofile.Service.UniqueNames

/-!
# Runs of the write operations

A run takes the operations one after another, the failed ones too.  As long as no entry
is renamed onto another of its directory, names are unique in every directory of HEAD.
-/

set_option autoImplicit false

namespace Nanofile

open Nanofile.Lib Nanofile.Lib.Proc

variable {Oid : Type} [DecidableEq Oid] [Digests Oid] [ToString Oid]

/-! ## Renaming and moving -/

def renameParent (repo : Repo Oid) (path : String) : Except AppError (FsDirData Oid) := do
  let headRoot ← headRootId repo
  let parentFsId ← resolveDirFsId repo.fsObjects headRoot (parentPathFrom path)
  readFsDirData repo.fsObjects parentFsId

def renameTaken (repo : Repo Oid) (path newName : String) : Bool :=
  match renameParent repo path with
  | .error _ => false
  | .ok data =>
    (validateFilename newName).isOk && (findEntry data.dirents (basename path)).isSome &&
      newName ≠ basename path && data.dirents.any fun entry => entry.name = newName

theorem namesNodup_of_not_taken {repo : Repo Oid} {path newName : String}
    (free : renameTaken repo path newName = false) (valid : validateFilename newName = .ok ())
    {data : FsDirData Oid} (read : renameParent repo path = .ok data)
    {entry : DirEntryData Oid} (found : findEntry data.dirents (basename path) = some entry)
    (unique : NamesNodup data.dirents) :
    NamesNodup (renameFirst (basename path) newName data.dirents) := by
  apply namesNodup_renameFirst unique
  intro changed listed
  have taken : renameTaken repo path newName = true := by
    simp only [renameTaken, read, valid, found, Except.isOk, Except.toBool, Option.isSome_some,
      Bool.true_and, Bool.and_eq_true, decide_eq_true_eq]
    exact ⟨changed, any_name_iff.mpr listed⟩
  rw [taken] at free
  cases free

theorem ensures_resolveParent {I P : WebState Oid → Prop} (stronger : ∀ state, P state → I state)
    (context path : String) :
    Proc.Ensures I P (resolveParent context path : Web Oid Oid) fun parentFsId state =>
      P state ∧ ∃ headRoot, headRootId state.repo = .ok headRoot ∧
        resolveDirFsId state.repo.fsObjects headRoot path = .ok parentFsId :=
  ensures_bind (ensures_tryRead stronger fun _ _ holds read =>
    (⟨holds, read⟩ : _ ∧ _)) fun headRoot =>
      ensures_mapFailure (ensures_tryRead (fun _ holds => stronger _ holds.1)
        fun _ _ holds resolved => ⟨holds.1, headRoot, holds.2, resolved⟩)

theorem unique_renameEntry (path newName modifier : String) (isDirectory : Bool) :
    Proc.Ensures WebState.Unique
      (fun state : WebState Oid => state.Unique ∧ renameTaken state.repo path newName = false)
      (renameEntry path newName modifier isDirectory) fun _ => WebState.Unique := by
  refine ensures_bind (ensures_tryRead (fun _ holds => holds.1)
    fun state _ holds checked => (⟨holds, checked⟩ : _ ∧ _)) fun _ => ?_
  refine ensures_bind (ensures_resolveParent (fun _ holds => holds.1.1) _ _)
    fun parentFsId => ?_
  refine ensures_bind (ensures_mapFailure (ensures_tryRead
    (fun _ holds => holds.1.1.1) fun state _ holds read => (⟨holds, read⟩ : _ ∧ _)))
    fun parentData => ?_
  refine ensures_bind (ensures_tryRead (fun _ holds => holds.1.1.1.1)
    fun state _ holds found => (⟨holds, found⟩ : _ ∧ _)) fun entry => ?_
  refine ensures_bind (ensures_mapFailure (unique_updateDirTreeAndCommit
    (fun _ holds => holds.1.1.1.1.1) ?_)) fun _ =>
      ensures_pure (fun _ unique => unique) fun _ unique => unique
  rintro state data ⟨⟨⟨⟨⟨unique, free⟩, valid⟩, headRoot, head, resolved⟩, read⟩, found⟩ again
  cases read.symm.trans again
  have parent : renameParent state.repo path = .ok parentData :=
    except_bind_ok_iff.mpr ⟨headRoot, head, except_bind_ok_iff.mpr ⟨parentFsId, resolved, read⟩⟩
  exact namesNodup_of_not_taken free (mapError_eq_ok_iff.mp valid) parent
    (okOr_eq_ok_iff.mp found) (AllNamesUnique.read unique read)

theorem keeps_moveEntry {P : WebState Oid → Prop}
    (edits : ∀ parentPath parentFsId chain rootOverride updateFn,
      (∀ entries, NamesNodup entries → NamesNodup (updateFn entries)) →
      Proc.Keeps P (applyTreeUpdate parentPath parentFsId chain rootOverride updateFn))
    (clock : Proc.Keeps P Web.now)
    (commits : ∀ rootId creatorName description,
      Proc.Keeps P (createCommit rootId creatorName description))
    (path newParentDir email : String) (isDirectory : Bool) :
    Proc.Keeps P (moveEntry path newParentDir email isDirectory) := by
  refine keeps_bind (keeps_tryRead _ _) fun headRoot => ?_
  refine keeps_bind (keeps_mapFailure (keeps_tryRead _ _)) fun oldParentFsId => ?_
  refine keeps_bind (keeps_mapFailure (keeps_tryRead _ _)) fun oldParentData => ?_
  refine keeps_bind (keeps_tryRead _ _) fun entry => ?_
  refine keeps_bind (keeps_tryRead _ _) fun newParentPath => ?_
  refine keeps_bind (keeps_tryRead _ _) fun _ => ?_
  refine keeps_bind (keeps_mapFailure (keeps_tryRead _ _)) fun _ => ?_
  refine keeps_bind (edits _ _ _ _ _ fun _ unique => namesNodup_filter unique _)
    fun intermediateRoot => ?_
  refine keeps_bind (keeps_mapFailure (keeps_tryRead _ _)) fun destination => ?_
  refine keeps_bind clock fun time => ?_
  refine keeps_bind (edits _ _ _ _ _ fun _ unique => namesNodup_pushUnlessNamed unique _)
    fun newRoot => ?_
  exact keeps_bind (commits _ _ _) fun _ => keeps_pure _ _

theorem unique_moveEntry (path newParentDir email : String) (isDirectory : Bool) :
    Proc.Keeps WebState.Unique (moveEntry path newParentDir email isDirectory : Web Oid String) :=
  keeps_moveEntry (fun _ _ _ _ _ edit => unique_editTree edit) unique_now unique_createCommit
    path newParentDir email isDirectory

/-! ## Deleting -/

variable (limits : Limits)

omit [ToString Oid] in
theorem unique_adjustRepoSize (delta : Int) :
    Proc.Keeps WebState.Unique (adjustRepoSize limits delta : Web Oid Unit) := by
  intro state unique
  unfold adjustRepoSize
  split
  · split
    · exact unique
    · exact unique
  · exact unique

theorem unique_recordDeletedEntry (fullPath name : String) (parentFsId : Oid) :
    Proc.Keeps WebState.Unique (recordDeletedEntry fullPath name parentFsId) := by
  intro state unique
  unfold recordDeletedEntry
  rw [modify_run]
  split
  · split
    · exact unique
    · exact unique
  · exact unique

theorem unique_removeNamed (parentPath email description : String) (parentFsId : Oid)
    (keep : DirEntryData Oid → Bool) (chain : AncestorChain Oid) (delta : Int) :
    Proc.Keeps WebState.Unique (do
      let _ ← .mapFailure toInternal (updateDirTreeAndCommit parentPath parentFsId email
        description chain (List.filter keep))
      adjustRepoSize limits delta) :=
  keeps_bind (keeps_mapFailure (unique_editAndCommit fun _ unique =>
    namesNodup_filter unique keep)) fun _ => unique_adjustRepoSize limits delta

theorem unique_deleteFile (path email : String) :
    Proc.Keeps WebState.Unique (Web.deleteFile limits path email : Web Oid Unit) := by
  refine keeps_bind (unique_resolveParent _ _) fun parentFsId => ?_
  refine keeps_bind (keeps_mapFailure (keeps_tryRead _ _)) fun parentData => ?_
  refine keeps_bind (keeps_tryRead _ _) fun deletedSize => ?_
  refine keeps_bind (unique_recordDeletedEntry _ _ _) fun _ => ?_
  exact unique_removeNamed limits _ _ _ _ _ _ _

theorem unique_deleteDir (path email : String) :
    Proc.Keeps WebState.Unique (Web.deleteDir limits path email : Web Oid Unit) := by
  refine keeps_bind (keeps_read _ _) fun deletedSize => ?_
  refine keeps_bind (unique_resolveParent _ _) fun parentFsId => ?_
  refine keeps_bind (unique_recordDeletedEntry _ _ _) fun _ => ?_
  exact unique_removeNamed limits _ _ _ _ _ _ _

theorem unique_deleteDirent (path email : String) :
    Proc.Keeps WebState.Unique (Web.deleteDirent limits path email : Web Oid Unit) := by
  refine keeps_bind (keeps_tryRead _ _) fun headCommitId => ?_
  refine keeps_bind (keeps_tryRead _ _) fun head => ?_
  refine keeps_bind (keeps_mapFailure (keeps_tryRead _ _)) fun parentFsId => ?_
  refine keeps_bind (keeps_mapFailure (keeps_tryRead _ _)) fun parentData => ?_
  refine keeps_bind (keeps_read _ _) fun deletedSize => ?_
  refine keeps_bind ?_ fun _ => unique_removeNamed limits _ _ _ _ _ _ _
  intro state unique
  rw [modify_run]
  split
  · exact unique
  · exact unique

/-! ## Batches -/

theorem unique_batchDelete (parentDir : String) (fileNames : List String) (email : String) :
    Proc.Keeps WebState.Unique (batchDelete limits parentDir fileNames email : Web Oid Unit) := by
  unfold batchDelete
  split
  · exact keeps_pure _ _
  · refine keeps_bind (keeps_tryRead _ _) fun parent => ?_
    refine keeps_bind (keeps_mapFailure (keeps_tryRead _ _)) fun parentData => ?_
    refine keeps_bind (keeps_tryRead _ _) fun totalDeleted => ?_
    refine keeps_bind ?_ fun _ => unique_removeNamed limits _ _ _ _ _ _ _
    intro state unique
    rw [modify_run]
    split
    · exact unique
    · exact unique

theorem unique_batchCopy (srcParentDir dstDir : String) (fileNames : List String)
    (email : String) :
    Proc.Keeps WebState.Unique
      (batchCopy limits srcParentDir dstDir fileNames email : Web Oid (List BatchOpResult)) := by
  unfold batchCopy
  split
  · exact keeps_pure _ _
  · refine keeps_bind (keeps_tryRead _ _) fun source => ?_
    refine keeps_bind (keeps_mapFailure (keeps_tryRead _ _)) fun sourceData => ?_
    refine keeps_bind unique_now fun time => ?_
    refine keeps_bind (keeps_tryRead _ _) fun newEntries => ?_
    refine keeps_bind (keeps_tryRead _ _) fun destination => ?_
    refine keeps_bind (keeps_tryRead _ _) fun _ => ?_
    refine keeps_bind (keeps_mapFailure (keeps_tryRead _ _))
      fun destinationData => ?_
    refine keeps_bind (keeps_mapFailure (unique_editAndCommit fun _ unique =>
      namesNodup_planEntries unique)) fun _ => ?_
    exact keeps_bind (unique_adjustRepoSize limits _) fun _ => keeps_read _ _

/-- The names were planned for what the destination reads as, and it is read again
when it is edited. -/
theorem unique_batchMove (srcParentDir dstDir : String) (fileNames : List String)
    (email : String) :
    Proc.Keeps WebState.Unique
      (batchMove srcParentDir dstDir fileNames email : Web Oid (List BatchOpResult)) := by
  unfold batchMove
  split
  · exact keeps_pure _ _
  · refine keeps_bind (keeps_tryRead _ _) fun source => ?_
    refine keeps_bind (keeps_mapFailure (keeps_tryRead _ _)) fun sourceData => ?_
    refine keeps_bind unique_now fun time => ?_
    refine keeps_bind (keeps_tryRead _ _) fun entriesToMove => ?_
    refine keeps_bind (keeps_tryRead _ _) fun _ => ?_
    refine keeps_bind (keeps_tryRead _ _) fun _ => ?_
    refine keeps_bind (keeps_tryRead _ _) fun _ => ?_
    refine keeps_bind (unique_editTree fun _ unique => namesNodup_filter unique _)
      fun intermediateRoot => ?_
    refine keeps_bind (keeps_tryRead _ _) fun destination => ?_
    refine Proc.Ensures.keeps (Q := fun _ => WebState.Unique) ?_
    refine ensures_bind (ensures_mapFailure (ensures_tryRead
      (fun _ unique => unique) fun state _ unique read => (⟨unique, read⟩ : _ ∧ _)))
      fun destinationData => ?_
    refine ensures_bind (unique_applyTreeUpdate (fun _ holds => holds.1) ?_)
      fun newRoot => ?_
    · rintro state data ⟨unique, read⟩ again
      cases read.symm.trans again
      exact namesNodup_planEntries (AllNamesUnique.read unique read)
    · exact Proc.Keeps.ensures (keeps_bind (unique_createCommit _ _ _) fun _ =>
        keeps_read _ _) fun _ unique => unique

/-! ## Restoring -/

theorem readFsDirData_of_restoreParent {store : FsStore Oid} {headRoot : Option Oid}
    {parentDir : String} {parent : Oid × FsDirData Oid}
    (found : restoreParent store headRoot parentDir = .ok parent) :
    readFsDirData store parent.1 = .ok parent.2 := by
  unfold restoreParent at found
  dsimp only at found
  split at found
  · simp at found
  · split at found
    · simp at found
    · split at found
      · simp at found
      · rename_i read
        cases found
        exact read

theorem checkRestore_spec {store existing : FsStore Oid} {found : Option (TrashRow Oid)}
    {headRoot : Option Oid} {fullPath : String} {row : TrashRow Oid} {parentFsId : Oid}
    (checked : checkRestore store existing found headRoot fullPath = .ok (row, parentFsId)) :
    found = some row ∧ ∃ data,
      restoreParent store headRoot (trashedAt fullPath).1 = .ok (parentFsId, data) ∧
      (trashedAt fullPath).2 ∉ data.dirents.map DirEntryData.name := by
  unfold checkRestore at checked
  split at checked
  · simp at checked
  · split at checked
    · simp at checked
    · obtain ⟨parent, resolved, checked⟩ := except_bind_ok_iff.mp checked
      split at checked
      · simp at checked
      · rename_i free
        cases checked
        exact ⟨rfl, parent.2, resolved, fun listed => free (any_name_iff.mpr listed)⟩

theorem unique_restoreItem (trash : List (TrashRow Oid)) (existing : FsStore Oid)
    (modifier : String) (headRoot : Option Oid) (commitId : Oid) (fullPath : String) :
    Proc.Keeps WebState.Unique
      (restoreItem limits trash existing modifier headRoot commitId fullPath) := by
  refine Proc.Ensures.keeps (Q := fun _ => WebState.Unique) ?_
  let Checked := fun (checked : Except String (TrashRow Oid × Oid)) (state : WebState Oid) =>
    state.Unique ∧ ∀ row parentFsId, checked = .ok (row, parentFsId) →
      ∃ data, readFsDirData state.repo.fsObjects parentFsId = .ok data ∧
        (trashedAt fullPath).2 ∉ data.dirents.map DirEntryData.name
  have reads : Proc.Ensures WebState.Unique WebState.Unique
      (.read fun state => checkRestore state.repo.fsObjects existing
        (findTrash trash commitId fullPath) headRoot fullPath : Web Oid _) Checked := by
    intro state unique
    refine ⟨unique, fun checked same => ?_⟩
    cases same
    refine ⟨unique, fun row parentFsId ok => ?_⟩
    obtain ⟨-, data, resolved, free⟩ := checkRestore_spec ok
    exact ⟨data, readFsDirData_of_restoreParent resolved, free⟩
  refine ensures_bind reads fun checked => ?_
  cases checked with
  | error msg =>
    exact ensures_pure (fun _ holds => holds.1) fun _ holds => holds.1
  | ok item =>
    obtain ⟨row, parentFsId⟩ := item
    refine ensures_bind (ensures_tryRead (fun _ holds => holds.1)
      fun _ _ holds _ => holds) fun restoredSize => ?_
    have reading : Proc.Ensures WebState.Unique (Checked (.ok (row, parentFsId))) Web.now
        fun _ => Checked (.ok (row, parentFsId)) :=
      ensures_update (fun _ holds => holds.1) fun _ holds => holds
    refine ensures_bind reading fun time => ?_
    refine ensures_bind (ensures_attempt (ensures_mapFailure
      (unique_updateDirTreeAndCommit (fun _ holds => holds.1) ?_))) fun outcome => ?_
    · intro state data holds again
      obtain ⟨before, read, free⟩ := holds.2 row parentFsId rfl
      cases read.symm.trans again
      exact namesNodup_concat (AllNamesUnique.read holds.1 read) free
    · cases outcome with
      | error failure => exact ensures_pure (fun _ holds => holds.1) fun _ holds => holds.1
      | ok newRoot =>
        exact Proc.Keeps.ensures (keeps_bind (unique_adjustRepoSize limits _) fun _ =>
          keeps_pure _ _) fun _ holds => holds.1

theorem unique_restoreItems (trash : List (TrashRow Oid)) (existing : FsStore Oid)
    (modifier : String) : ∀ (items : List (Oid × String)) (headRoot : Option Oid),
      Proc.Keeps WebState.Unique
        (restoreItems limits trash existing modifier headRoot items) := by
  intro items
  induction items with
  | nil => exact fun headRoot => keeps_pure _ _
  | cons item rest ih =>
    intro headRoot
    refine keeps_bind (unique_restoreItem limits _ _ _ _ _ _) fun outcome => ?_
    cases outcome with
    | error msg => exact keeps_bind (ih headRoot) fun _ => keeps_pure _ _
    | ok restored => exact keeps_bind (ih _) fun _ => keeps_pure _ _

theorem unique_restoreTrashItems (modifier : String) (items : List (Oid × String)) :
    Proc.Keeps WebState.Unique
      (restoreTrashItems limits modifier items : Web Oid (RevertResult Oid)) := by
  refine keeps_bind (keeps_tryRead _ _) fun headRoot => ?_
  refine keeps_bind (keeps_read _ _) fun trash => ?_
  refine keeps_bind (keeps_read _ _) fun existing => ?_
  refine keeps_bind (unique_restoreItems limits _ _ _ _ _) fun restored => ?_
  exact keeps_bind (fun _ unique => unique) fun _ => keeps_pure _ _

/-! ## Runs -/

inductive WebOp (Oid : Type) where
  | createDir (path email : String)
  | createEmptyFile (path email : String)
  | createFile (parentPath name : String) (blockIds : List Oid) (totalSize : Int)
      (modifier : String) (replace : Bool)
  | rename (path newName modifier : String) (isDirectory : Bool)
  | move (path newParentDir email : String) (isDirectory : Bool)
  | batchCopy (srcParentDir dstDir : String) (fileNames : List String) (email : String)
  | batchMove (srcParentDir dstDir : String) (fileNames : List String) (email : String)
  | deleteFile (path email : String)
  | deleteDir (path email : String)
  | deleteDirent (path email : String)
  | batchDelete (parentDir : String) (fileNames : List String) (email : String)
  | restoreTrash (modifier : String) (items : List (Oid × String))

/-- The state an operation leaves, whether or not it failed. -/
def runWebOp (state : WebState Oid) : WebOp Oid → WebState Oid
  | .createDir path email => (createDirByPath path email state).2
  | .createEmptyFile path email => (createEmptyFile path email state).2
  | .createFile parentPath name blockIds totalSize modifier replace =>
    (createFileFromBlocks parentPath name blockIds totalSize modifier replace state).2
  | .rename path newName modifier isDirectory =>
    (renameEntry path newName modifier isDirectory state).2
  | .move path newParentDir email isDirectory =>
    (moveEntry path newParentDir email isDirectory state).2
  | .batchCopy srcParentDir dstDir fileNames email =>
    (batchCopy limits srcParentDir dstDir fileNames email state).2
  | .batchMove srcParentDir dstDir fileNames email =>
    (batchMove srcParentDir dstDir fileNames email state).2
  | .deleteFile path email => (Web.deleteFile limits path email state).2
  | .deleteDir path email => (Web.deleteDir limits path email state).2
  | .deleteDirent path email => (Web.deleteDirent limits path email state).2
  | .batchDelete parentDir fileNames email =>
    (batchDelete limits parentDir fileNames email state).2
  | .restoreTrash modifier items => (restoreTrashItems limits modifier items state).2

/-- The runs of the operations on a library that starts with nothing in it. -/
def webSystem : System (WebState Oid) (WebOp Oid) where
  init state := state.repo.fsObjects = .empty ∧ state.trash = []
  step state op := some (runWebOp limits state op)

def renamesOnto (state : WebState Oid) : WebOp Oid → Bool
  | .rename path newName _ _ => renameTaken state.repo path newName
  | _ => false

def renamesFree (state : WebState Oid) (op : WebOp Oid) : Prop := renamesOnto state op = false

theorem webOp_unique {state : WebState Oid} {op : WebOp Oid} (unique : state.Unique)
    (free : renamesFree state op) : (runWebOp limits state op).Unique := by
  cases op with
  | createDir path email => exact unique_createDirByPath path email state unique
  | createEmptyFile path email => exact unique_createEmptyFile path email state unique
  | createFile parentPath name blockIds totalSize modifier replace =>
    exact unique_createFileFromBlocks parentPath name blockIds totalSize modifier replace
      state unique
  | rename path newName modifier isDirectory =>
    exact (unique_renameEntry path newName modifier isDirectory state ⟨unique, free⟩).1
  | move path newParentDir email isDirectory =>
    exact unique_moveEntry path newParentDir email isDirectory state unique
  | batchCopy srcParentDir dstDir fileNames email =>
    exact unique_batchCopy limits srcParentDir dstDir fileNames email state unique
  | batchMove srcParentDir dstDir fileNames email =>
    exact unique_batchMove srcParentDir dstDir fileNames email state unique
  | deleteFile path email => exact unique_deleteFile limits path email state unique
  | deleteDir path email => exact unique_deleteDir limits path email state unique
  | deleteDirent path email => exact unique_deleteDirent limits path email state unique
  | batchDelete parentDir fileNames email =>
    exact unique_batchDelete limits parentDir fileNames email state unique
  | restoreTrash modifier items =>
    exact unique_restoreTrashItems limits modifier items state unique

theorem reachable_unique {state : WebState Oid}
    (reached : (webSystem limits).Reachable renamesFree state) : state.Unique := by
  refine System.reachable_invariant (I := WebState.Unique) ?_ ?_ reached
  · intro state start fsId data read
    simp [start.1, dirBatch, Table.find_empty] at read
  · intro state next op unique free taken
    cases taken
    exact webOp_unique limits unique free

/-- No directory below the root of HEAD has two entries of one name. -/
def HeadNamesUnique (repo : Repo Oid) : Prop :=
  ∀ headRoot entries, headRootId repo = .ok headRoot →
    Below repo.fsObjects (entriesOf repo.fsObjects headRoot) entries →
      (entries.map DirEntryData.name).Nodup

/-- Names stay unique in every run that renames no entry onto another. -/
theorem names_unique_in_head {state : WebState Oid}
    (reached : (webSystem limits).Reachable renamesFree state) : HeadNamesUnique state.repo := by
  have stored : ∀ fsId : Oid, NamesNodup (entriesOf state.repo.fsObjects fsId) := by
    intro fsId
    unfold entriesOf
    cases read : dirBatch state.repo.fsObjects fsId with
    | none => exact List.nodup_nil
    | some data => exact reachable_unique limits reached fsId data read
  intro headRoot entries _ below
  cases below with
  | root => exact stored headRoot
  | child above listed directory => exact stored _

/-! ## A rename that is free and one that is not -/

def emptyWeb : WebState FreeId := ⟨bareLibrary, [], fun count => count⟩

def headEntries (repo : Repo FreeId) : List (DirEntryData FreeId) :=
  match headRootId repo with
  | .error _ => []
  | .ok headRoot => entriesOf repo.fsObjects headRoot

theorem HeadNamesUnique.headEntries {repo : Repo FreeId} (unique : HeadNamesUnique repo) :
    NamesNodup (headEntries repo) := by
  unfold Nanofile.headEntries
  split
  · exact List.nodup_nil
  · rename_i head
    exact unique _ _ head .root

def renameOneOfTwo (newName : String) : List (WebOp FreeId) :=
  [.createEmptyFile "/f" "user", .createEmptyFile "/g" "user", .rename "/f" newName "user" false]

def runOf (check : WebState FreeId → WebOp FreeId → Bool) (ops : List (WebOp FreeId)) :
    Option (WebState FreeId) :=
  (webSystem defaultLimits).runChecked check ops emptyWeb

theorem reachable_runOf {guard : WebState FreeId → WebOp FreeId → Prop}
    {check : WebState FreeId → WebOp FreeId → Bool}
    (sound : ∀ state op, check state op = true → guard state op) {ops : List (WebOp FreeId)}
    {state : WebState FreeId} (run : runOf check ops = some state) :
    (webSystem defaultLimits).Reachable guard state :=
  System.reachable_of_runChecked sound ops emptyWeb state (.init ⟨rfl, rfl⟩) run

/-- To a free name: both files are there, under names of their own. -/
theorem renamed_to_free_name : ∃ state : WebState FreeId, HeadNamesUnique state.repo ∧
    (headEntries state.repo).map DirEntryData.name = ["h", "g"] := by
  have ran : (runOf (fun state op => !renamesOnto state op) (renameOneOfTwo "h")).any
      (fun state => (headEntries state.repo).map DirEntryData.name = ["h", "g"]) = true := by
    decide +kernel
  obtain ⟨state, run, names⟩ := (Option.any_eq_true _ _).mp ran
  have reached : (webSystem defaultLimits).Reachable renamesFree state :=
    reachable_runOf (fun state op free => by simpa [renamesFree] using free) run
  exact ⟨state, names_unique_in_head defaultLimits reached, of_decide_eq_true names⟩

/-- To the name of the other: HEAD lists it twice. -/
theorem renamed_onto_other : ∃ state : WebState FreeId,
    (webSystem defaultLimits).Reachable (fun _ _ => True) state ∧
      ¬ HeadNamesUnique state.repo := by
  have ran : (runOf (fun _ _ => true) (renameOneOfTwo "g")).any
      (fun state => (headEntries state.repo).map DirEntryData.name = ["g", "g"]) = true := by
    decide +kernel
  obtain ⟨state, run, names⟩ := (Option.any_eq_true _ _).mp ran
  refine ⟨state, reachable_runOf (fun _ _ _ => trivial) run, fun unique => ?_⟩
  have twice := unique.headEntries
  rw [NamesNodup, of_decide_eq_true names] at twice
  exact absurd twice (by decide)

end Nanofile
