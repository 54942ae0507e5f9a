import Nanofile.Service.WebWrites

/-!
# Operations that change the stored size

Deleting, the batch operations, restoring from the trash and uploading.  Each computes
what it adds or removes in its own way and adjusts the size of the library after its
commit.
-/

set_option autoImplicit false

namespace Nanofile

open Nanofile.Lib

variable {Oid : Type} [DecidableEq Oid] [Digests Oid] [ToString Oid] (limits : Limits)

def adjustRepoSize (delta : Int) : Web Oid Unit :=
  fun state =>
    if state.repo.size = 0 then
      match computeRepoSize limits state.repo with
      | .error failure => (.error failure, state)
      | .ok size => (.ok (), { state with repo := adjustSize state.repo size })
    else (.ok (), { state with repo := adjustSize state.repo delta })

omit [ToString Oid] in
def countEntry (store : FsStore Oid) (entry : DirEntryData Oid) : Except AppError Int :=
  if hasDirBit entry.mode then computeTreeSize limits store entry.id else .ok entry.size

def resolveDirent (repo : Repo Oid) (path : String) :
    Except AppError (Option (DirEntryData Oid)) := do
  let headCommitId ← okOr repo.headCommitId (.notFound "no commits yet")
  let head ← okOr (repo.commits.find headCommitId) (.notFound "head commit not found")
  let parentFsId ← (resolveSegments repo.fsObjects (pathComponents (parentPathFrom path))
    head.rootId).mapError (internalError "resolve parent failed")
  let data ← (readFsDirData repo.fsObjects parentFsId).mapError (internalError "read dir failed")
  .ok (findEntry data.dirents (basename path))

def getEntryTotalSize (repo : Repo Oid) (path : String) : Except AppError Int := do
  let found ← resolveDirent repo path
  let entry ← okOr found (.notFound "entry not found")
  countEntry limits repo.fsObjects entry

def nextTrashId (trash : List (TrashRow Oid)) : Nat := (trash.map TrashRow.id).foldr max 0 + 1

def addToTrash (commitId : Oid) (fullPath : String) (entry : DirEntryData Oid)
    (trash : List (TrashRow Oid)) : List (TrashRow Oid) :=
  trash ++ [⟨nextTrashId trash, commitId, parentPathFrom fullPath, entry.name,
    hasDirBit entry.mode, entry.id, entry.size⟩]

def recordDeletedEntry (fullPath name : String) (parentFsId : Oid) : Web Oid Unit :=
  .modify fun state =>
    match state.repo.headCommitId, readFsDirData state.repo.fsObjects parentFsId with
    | some headCommitId, .ok data =>
      match findEntry data.dirents name with
      | some entry => { state with trash := addToTrash headCommitId fullPath entry state.trash }
      | none => state
    | _, _ => state

def countNamed (store : FsStore Oid) (entries : List (DirEntryData Oid)) (name : String) :
    Except AppError Int :=
  match findEntry entries name with
  | some entry => countEntry limits store entry
  | none => .ok 0

def toInternal (failure : AppError) : AppError := .internal (toString failure)

def Web.deleteFile (path email : String) : Web Oid Unit := do
  let name := basename path
  let parentPath := parentPathFrom path
  let parentFsId ← resolveParent "resolve parent failed" parentPath
  let parentData ← .mapFailure (internalError "read parent dir failed") (Web.readDir parentFsId)
  let deletedSize ←
    .tryRead fun state => countNamed limits state.repo.fsObjects parentData.dirents name
  recordDeletedEntry path name parentFsId
  let _ ← .mapFailure toInternal (updateDirTreeAndCommit parentPath parentFsId email
    ("Deleted " ++ name) [] (withoutName name))
  adjustRepoSize limits (-deletedSize)

/-- `delete_dir`: a size that cannot be found counts as none. -/
def Web.deleteDir (path email : String) : Web Oid Unit := do
  let name := basename path
  let parentPath := parentPathFrom path
  let deletedSize ← .read fun state => (getEntryTotalSize limits state.repo path).toOption.getD 0
  let parentFsId ← resolveParent "resolve parent failed" parentPath
  recordDeletedEntry path name parentFsId
  let _ ← .mapFailure toInternal (updateDirTreeAndCommit parentPath parentFsId email
    ("Deleted directory " ++ name) [] (withoutName name))
  adjustRepoSize limits (-deletedSize)

/-- `delete_dirent`: the parent is resolved without asking for a directory. -/
def Web.deleteDirent (path email : String) : Web Oid Unit := do
  let name := basename path
  let parentPath := parentPathFrom path
  let headCommitId ← .tryRead fun state => okOr state.repo.headCommitId (.notFound "no commits")
  let head ← .tryRead fun state =>
    okOr (state.repo.commits.find headCommitId) (.notFound "head commit not found")
  let parentFsId ← .mapFailure (resolveParentError "resolve parent failed") (.tryRead fun state =>
    resolveSegments state.repo.fsObjects (pathComponents parentPath) head.rootId)
  let parentData ← .mapFailure (internalError "read parent dir failed") (Web.readDir parentFsId)
  let deletedSize ← .read fun state =>
    (countNamed limits state.repo.fsObjects parentData.dirents name).toOption.getD 0
  .modify fun state =>
    match findEntry parentData.dirents name with
    | some entry => { state with trash := addToTrash headCommitId path entry state.trash }
    | none => state
  let _ ← .mapFailure toInternal (updateDirTreeAndCommit parentPath parentFsId email
    ("Deleted " ++ name) [] (withoutName name))
  adjustRepoSize limits (-deletedSize)

/-- The entries that a list of names stands for, once for each time a name is listed. -/
def namedEntries (entries : List (DirEntryData Oid)) (names : List String) :
    List (DirEntryData Oid) :=
  names.filterMap (findEntry entries)

def countListed (store : FsStore Oid) (entries : List (DirEntryData Oid)) :
    Except AppError Int :=
  entries.foldlM (fun total entry => do
    let size ← countEntry limits store entry
    .ok (total + size)) 0

def batchDelete (parentDir : String) (fileNames : List String) (email : String) :
    Web Oid Unit := do
  if fileNames = [] then pure ()
  else
    let parent ← .tryRead fun state => resolveFsIdChain state.repo parentDir
    let parentData ← .mapFailure (internalError "read parent dir failed") (Web.readDir parent.1)
    let listed := namedEntries parentData.dirents fileNames
    let totalDeleted ← .tryRead fun state => countListed limits state.repo.fsObjects listed
    .modify fun state =>
      match state.repo.headCommitId with
      | some headCommitId =>
        { state with
          trash := listed.foldl (fun trash entry =>
            addToTrash headCommitId (joinPath parentDir entry.name) entry trash) state.trash }
      | none => state
    let _ ← .mapFailure toInternal (updateDirTreeAndCommit parentDir parent.1 email
      ("Deleted " ++ toString fileNames.length ++ " items") parent.2 (withoutNames fileNames))
    adjustRepoSize limits (-totalDeleted)

structure BatchOpResult where
  repoId : String
  parentDir : String
  objName : String
deriving DecidableEq, Repr

def batchResults (repoId parentDir : String) (entries : List (DirEntryData Oid)) :
    List BatchOpResult :=
  entries.map fun entry => ⟨repoId, parentDir, entry.name⟩

def batchDescription (verb kind : String) : List (DirEntryData Oid) → String
  | [] => ""
  | [entry] => verb ++ " \"" ++ entry.name ++ "\""
  | entry :: rest =>
    verb ++ " \"" ++ entry.name ++ "\" and " ++ toString rest.length ++ " more " ++ kind

/-- The entries of a batch as they are copied or moved; a missing one is an error. -/
def batchEntries (entries : List (DirEntryData Oid)) (email : String) (time : Int)
    (names : List String) : Except AppError (List (DirEntryData Oid)) :=
  names.mapM fun name => do
    let entry ← okOr (findEntry entries name) (.notFound ("source file not found: " ++ name))
    .ok { entry with modifier := email, mtime := time }

def ensureOutside (verb srcParentDir dstDir : String) (entries : List (DirEntryData Oid)) :
    Except AppError Unit :=
  match entries.find? fun entry =>
    hasDirBit entry.mode && isSelfOrSubpath (joinPath srcParentDir entry.name) dstDir with
  | some entry =>
    .error (.badRequest ("cannot " ++ verb ++ " directory \"" ++ entry.name ++ "\" into itself"))
  | none => .ok ()

def freshName (existing : List (DirEntryData Oid)) (name : String) : String :=
  if existing.any fun entry => entry.name = name then generateUniqueFilename existing name
  else name

/-- The entries renamed so that each is new among the existing ones and those before it. -/
def planEntries (existing : List (DirEntryData Oid)) :
    List (DirEntryData Oid) → List (DirEntryData Oid)
  | [] => []
  | entry :: rest =>
    let added := { entry with name := freshName existing entry.name }
    added :: planEntries (existing ++ [added]) rest

def batchCopy (srcParentDir dstDir : String) (fileNames : List String) (email : String) :
    Web Oid (List BatchOpResult) := do
  if fileNames = [] then pure []
  else
    let source ← .tryRead fun state => resolveFsIdChain state.repo srcParentDir
    let sourceData ← .mapFailure (internalError "read source dir failed") (Web.readDir source.1)
    let time ← Web.now
    let newEntries ← .tryRead fun _ => batchEntries sourceData.dirents email time fileNames
    let destination ← .tryRead fun state => resolveFsIdChain state.repo dstDir
    .tryRead fun _ => ensureOutside "copy" srcParentDir dstDir newEntries
    let destinationData ←
      .mapFailure (internalError "read dest dir failed") (Web.readDir destination.1)
    let entriesToAdd := newEntries.map fun entry =>
      { entry with name := freshName destinationData.dirents entry.name }
    let _ ← .mapFailure toInternal (updateDirTreeAndCommit dstDir destination.1 email
      (batchDescription "Added" "files" entriesToAdd) destination.2
      (fun dirents => dirents ++ planEntries dirents entriesToAdd))
    adjustRepoSize limits (entriesToAdd.map DirEntryData.size).sum
    .read fun state => batchResults state.repo.id dstDir entriesToAdd

def batchMove (srcParentDir dstDir : String) (fileNames : List String) (email : String) :
    Web Oid (List BatchOpResult) := do
  if fileNames = [] then pure []
  else
    let source ← .tryRead fun state => resolveFsIdChain state.repo srcParentDir
    let sourceData ← .mapFailure (internalError "read source dir failed") (Web.readDir source.1)
    let time ← Web.now
    let entriesToMove ← .tryRead fun _ => batchEntries sourceData.dirents email time fileNames
    .tryRead fun _ => ensure (dstDir ≠ srcParentDir)
      (.badRequest "cannot move items into their current directory")
    .tryRead fun _ => ensureOutside "move" srcParentDir dstDir entriesToMove
    let _ ← .tryRead fun state => resolveFsIdChain state.repo dstDir
    let intermediateRoot ← applyTreeUpdate srcParentDir source.1 source.2 none
      (withoutNames (entriesToMove.map DirEntryData.name))
    let destination ← .tryRead fun state =>
      resolveFsIdChainFromRoot state.repo.fsObjects intermediateRoot dstDir
    let destinationData ←
      .mapFailure (internalError "read dest dir failed") (Web.readDir destination.1)
    let entriesToAdd := planEntries destinationData.dirents entriesToMove
    let newRoot ← applyTreeUpdate dstDir destination.1 destination.2 (some intermediateRoot)
      (fun dirents => dirents ++ entriesToAdd)
    createCommit newRoot email (batchDescription "Moved" "items" entriesToMove)
    .read fun state => batchResults state.repo.id dstDir entriesToAdd

structure RevertFailedItem (Oid : Type) where
  commitId : Oid
  path : String
  errorMsg : String
deriving DecidableEq, Repr

structure RevertResult (Oid : Type) where
  success : List (String × Bool)
  failed : List (RevertFailedItem Oid)
deriving DecidableEq, Repr

def trashedAt (fullPath : String) : String × String :=
  (parentPathFrom fullPath,
    if (Text.rsplitOnce '/' fullPath).isSome then basename fullPath else fullPath)

def findTrash (trash : List (TrashRow Oid)) (commitId : Oid) (fullPath : String) :
    Option (TrashRow Oid) :=
  (trash.filter fun row => row.commitId = commitId ∧ row.path = (trashedAt fullPath).1 ∧
    row.objName = (trashedAt fullPath).2).getLast?

def restoreParent (store : FsStore Oid) (headRoot : Option Oid) (parentDir : String) :
    Except String (Oid × FsDirData Oid) :=
  let missing := "Directory " ++ parentDir ++ " not found."
  match headRoot with
  | none => .error (if parentDir = "/" then "No commits." else missing)
  | some root =>
    let parent := if parentDir = "/" then .ok root else resolveDirFsId store root parentDir
    match parent with
    | .error _ => .error missing
    | .ok parentFsId =>
      match readFsDirData store parentFsId with
      | .error _ => .error missing
      | .ok data => .ok (parentFsId, data)

/-- What is checked of an item before anything is written. -/
def checkRestore (store existing : FsStore Oid) (row : Option (TrashRow Oid))
    (headRoot : Option Oid) (fullPath : String) : Except String (TrashRow Oid × Oid) := do
  match row with
  | none => .error ("Dirent " ++ fullPath ++ " not found.")
  | some row =>
    if row.objId ≠ emptySha1 ∧ (existing.find row.objId).isNone then
      .error "Object not found."
    else
      let parent ← restoreParent store headRoot (trashedAt fullPath).1
      if parent.2.dirents.any fun entry => entry.name = (trashedAt fullPath).2 then
        .error "A file with the same name already exists."
      else .ok (row, parent.1)

def restoredEntry (row : TrashRow Oid) (name modifier : String) (time : Int) :
    DirEntryData Oid :=
  ⟨row.objId, if row.isDirectory then sIfdir else sIfreg, modifier, time, name, row.size⟩

/-- One item of `restore_trash_items`: the row that was restored and the new root, or the
message of its failure. -/
def restoreItem (trash : List (TrashRow Oid)) (existing : FsStore Oid) (modifier : String)
    (headRoot : Option Oid) (commitId : Oid) (fullPath : String) :
    Web Oid (Except String (TrashRow Oid × Oid)) := do
  let checked ← .read fun state => checkRestore state.repo.fsObjects existing
    (findTrash trash commitId fullPath) headRoot fullPath
  match checked with
  | .error msg => pure (.error msg)
  | .ok (row, parentFsId) =>
    let restoredSize ← .tryRead fun state =>
      if row.isDirectory then computeTreeSize limits state.repo.fsObjects row.objId
      else .ok row.size
    let time ← Web.now
    let outcome ← .attempt (.mapFailure (internalError "Restore commit failed")
      (updateDirTreeAndCommit (trashedAt fullPath).1 parentFsId modifier
        ("Recovered " ++ (trashedAt fullPath).2) []
        (fun dirents => dirents ++
          [restoredEntry row (trashedAt fullPath).2 modifier time])))
    match outcome with
    | .error failure => pure (.error ("Restore failed: " ++ toString failure))
    | .ok newRoot =>
      adjustRepoSize limits restoredSize
      pure (.ok (row, newRoot))

def restoreItems (trash : List (TrashRow Oid)) (existing : FsStore Oid) (modifier : String) :
    Option Oid → List (Oid × String) → Web Oid (RevertResult Oid × List Nat)
  | _, [] => pure (⟨[], []⟩, [])
  | headRoot, (commitId, path) :: rest => do
      let fullPath := trimEndSlashes path
      let outcome ← restoreItem limits trash existing modifier headRoot commitId fullPath
      match outcome with
      | .error msg =>
        let below ← restoreItems trash existing modifier headRoot rest
        pure (⟨below.1.success, ⟨commitId, fullPath, msg⟩ :: below.1.failed⟩, below.2)
      | .ok (row, newRoot) =>
        let below ← restoreItems trash existing modifier (some newRoot) rest
        pure (⟨(fullPath, row.isDirectory) :: below.1.success, below.1.failed⟩,
          row.id :: below.2)

def restoreTrashItems (modifier : String) (items : List (Oid × String)) :
    Web Oid (RevertResult Oid) := do
  let headRoot ← .tryRead fun state => headRootIdOpt state.repo
  let trash ← .read fun state => state.trash
  let existing ← .read fun state => state.repo.fsObjects
  let restored ← restoreItems limits trash existing modifier headRoot items
  .modify fun state =>
    { state with trash := state.trash.filter fun row => row.id ∉ restored.2 }
  pure restored.1

def ensureDirParts (email : String) : List String → String → Oid → Web Oid Unit
  | [], _, _ => pure ()
  | part :: rest, current, currentFsId => do
      let next := joinPath current part
      let data ← Web.readDir currentFsId
      match findEntry data.dirents part with
      | some entry => ensureDirParts email rest next entry.id
      | none =>
        createDirByPath next email
        ensureDirParts email rest next emptySha1

def ensureDirRecursive (path email : String) : Web Oid Unit := do
  if path = "/" then pure ()
  else
    let headRoot ← .tryRead fun state => headRootIdOpt state.repo
    match headRoot with
    | none => pure ()
    | some root => ensureDirParts email (pathComponents path) "/" root

/-- The bytes a replacing upload frees; nothing there is nothing freed. -/
def replacedSize (repo : Repo Oid) (path : String) : Except AppError Int :=
  match getEntryTotalSize limits repo path with
  | .error (.notFound _) => .ok 0
  | outcome => outcome

/-- `upload_file_committed_stream`; `withinQuota` is what `check_upload_quota` finds, and
an upload link has no user. -/
def uploadFileCommittedStream (targetDir filename : String) (blockIds : List Oid)
    (totalSize : Int) (modifier : String) (hasUser ensureDir replace withinQuota : Bool) :
    Web Oid (Oid × String) := do
  badRequest "invalid filename: " (validateFilename filename)
  let path ← .tryRead fun _ => (safeJoinPath targetDir filename).mapError fun failure =>
    .badRequest ("invalid path: " ++ failure)
  let oldSize ← .tryRead fun state =>
    if replace then replacedSize limits state.repo path else .ok 0
  .tryRead fun _ => ensure (hasUser → withinQuota) .quotaExceeded
  if ensureDir ∧ hasUser then ensureDirRecursive targetDir modifier else pure ()
  let added ← .mapFailure (internalError "upload failed")
    (createFileFromBlocks targetDir filename blockIds totalSize modifier replace)
  let _ ← .tryRead fun _ => (safeJoinPath targetDir added.2).mapError fun failure =>
    .badRequest ("invalid filename: " ++ failure)
  adjustRepoSize limits (totalSize - oldSize)
  pure added

end Nanofile
