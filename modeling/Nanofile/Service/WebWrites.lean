import Nanofile.Base.Paths
import Nanofile.Fs.FileOps
import Nanofile.Lib.Proc
import Nanofile.Service.Size

/-!
# The write operations of the web API, one at a time

Each operation is a procedure on the library: what it stored before a failure stays.
`applyTreeUpdate` edits one directory and rebuilds the path above it; an operation moves
HEAD once, or once for each item it restores.
-/

set_option autoImplicit false

namespace Nanofile

open Nanofile.Lib

variable {Oid : Type} [DecidableEq Oid] [Digests Oid] [ToString Oid]

/-- A row of `file_trash`; `path` is the directory the entry was in. -/
structure TrashRow (Oid : Type) where
  id : Nat
  commitId : Oid
  path : String
  objName : String
  isDirectory : Bool
  objId : Oid
  size : Int
deriving DecidableEq, Repr

/-- `clock` gives the times that will be read. -/
structure WebState (Oid : Type) where
  repo : Repo Oid
  trash : List (TrashRow Oid)
  clock : Nat → Int

abbrev Web (Oid Result : Type) := Proc (WebState Oid) AppError Result

def WebState.withStore (state : WebState Oid) (store : FsStore Oid) : WebState Oid :=
  { state with repo := { state.repo with fsObjects := store } }

namespace Web

def now : Web Oid Int :=
  .update fun state => (state.clock 0, { state with clock := fun count => state.clock (count + 1) })

def storing {Result : Type} (write : Repo Oid → Except AppError Result × FsStore Oid) :
    Web Oid Result :=
  fun state => ((write state.repo).1, state.withStore (write state.repo).2)

def storeDir (data : FsDirData Oid) : Web Oid Oid :=
  storing fun repo =>
    (.ok (storeFsDirObject repo.fsObjects data).1, (storeFsDirObject repo.fsObjects data).2)

def storeFile (data : FsFileData Oid) : Web Oid Oid :=
  storing fun repo =>
    (.ok (storeFsFileObject repo.fsObjects data).1, (storeFsFileObject repo.fsObjects data).2)

def readDir (fsId : Oid) : Web Oid (FsDirData Oid) :=
  .tryRead fun state => readFsDirData state.repo.fsObjects fsId

end Web

def internalError (context : String) (failure : AppError) : AppError :=
  .internal (context ++ ": " ++ toString failure)

def badRequest {Result : Type} (context : String) (checked : Except String Result) :
    Web Oid Result :=
  .tryRead fun _ => checked.mapError fun failure => .badRequest (context ++ failure)

def headRootIdOpt (repo : Repo Oid) : Except AppError (Option Oid) :=
  match repo.headCommitId with
  | none => .ok none
  | some headCommitId =>
    match repo.commits.find headCommitId with
    | none => .error (.notFound "Head commit not found")
    | some head => .ok (some head.rootId)

def headRootId (repo : Repo Oid) : Except AppError Oid := do
  let root ← headRootIdOpt repo
  okOr root (.notFound "No commits yet")

/-- `resolve_dir_fs_id`: every component must be a directory. -/
def resolveDirSegments (store : FsStore Oid) : List String → Oid → Except AppError Oid
  | [], fsId => .ok fsId
  | segment :: rest, fsId => do
      let dir ← readFsDirData store fsId
      let found ← okOr (dir.dirents.find? fun entry => entry.name = segment)
        (.notFound ("path segment not found: " ++ segment))
      ensure (isDir found.mode = true) (.notFound ("not a directory: " ++ segment))
      resolveDirSegments store rest found.id

def resolveDirFsId (store : FsStore Oid) (rootFsId : Oid) (path : String) :
    Except AppError Oid :=
  resolveDirSegments store (pathComponents path) rootFsId

def resolveParentError (context : String) : AppError → AppError
  | .notFound msg => .notFound msg
  | failure => internalError context failure

def resolveParent (context path : String) : Web Oid Oid := do
  let headRoot ← .tryRead fun state => headRootId state.repo
  .mapFailure (resolveParentError context)
    (.tryRead fun state => resolveDirFsId state.repo.fsObjects headRoot path)

def createParent (missingHead context parentPath : String) : Web Oid Oid := do
  let headRoot ← .tryRead fun state => headRootIdOpt state.repo
  if parentPath = "/" then pure (headRoot.getD emptySha1)
  else
    let headRoot ← .tryRead fun _ => okOr headRoot (.notFound missingHead)
    .mapFailure (resolveParentError context)
      (.tryRead fun state => resolveDirFsId state.repo.fsObjects headRoot parentPath)

def findEntry (entries : List (DirEntryData Oid)) (name : String) :
    Option (DirEntryData Oid) :=
  entries.find? fun entry => entry.name = name

/-- `walk_up_ancestors`; every level has a shorter path than the one below. -/
def walkUpAncestors (rootOverride : Option Oid) (chain : AncestorChain Oid) :
    Nat → String → Oid → Web Oid Oid
  | 0, _, childFsId => pure childFsId
  | fuel + 1, childPath, childFsId => do
      let time ← Web.now
      let level ← Web.storing fun repo =>
        walkUpLevel time repo rootOverride chain childPath childFsId
      match level with
      | none => pure childFsId
      | some level =>
        if level.parentPath = "/" then pure level.newAncestor
        else walkUpAncestors rootOverride chain fuel level.parentPath level.newAncestor

def rebuildAbove (rootOverride : Option Oid) (chain : AncestorChain Oid) (path : String)
    (fsId : Oid) : Web Oid Oid :=
  if path = "/" then pure fsId
  else walkUpAncestors rootOverride chain path.length path fsId

theorem keeps_rebuildAbove {I : WebState Oid → Prop} (now : Proc.Keeps I Web.now)
    (stores : ∀ state ancestor data, I state →
      readFsDirData state.repo.fsObjects ancestor = .ok data → ∀ time name child,
        I (state.withStore (storeFsDirObject state.repo.fsObjects
          { data with dirents := setChild time name child data.dirents }).2))
    (rootOverride : Option Oid) (chain : AncestorChain Oid) (path : String) (fsId : Oid) :
    Proc.Keeps I (rebuildAbove rootOverride chain path fsId) := by
  have walk : ∀ (fuel : Nat) (path : String) (fsId : Oid),
      Proc.Keeps I (walkUpAncestors rootOverride chain fuel path fsId) := by
    intro fuel
    induction fuel with
    | zero => exact fun path fsId => Proc.keeps_pure _ _
    | succ fuel ih =>
      intro path fsId
      refine Proc.keeps_bind now fun time => Proc.keeps_bind ?_ fun level => ?_
      · intro state holds
        show I (state.withStore (walkUpLevel time state.repo rootOverride chain path fsId).2)
        unfold walkUpLevel
        split
        · exact holds
        · dsimp only
          split
          · exact holds
          · rename_i ancestor data read
            obtain ⟨found, -, read⟩ := except_bind_ok_iff.mp read
            obtain ⟨stored, read, same⟩ := except_bind_ok_iff.mp read
            cases same
            exact stores state ancestor data holds read time _ fsId
      · cases level with
        | none => exact Proc.keeps_pure _ _
        | some level =>
          dsimp only
          split
          · exact Proc.keeps_pure _ _
          · exact ih _ _
  unfold rebuildAbove
  split
  · exact Proc.keeps_pure _ _
  · exact walk _ _ _

def applyTreeUpdate (parentPath : String) (parentFsId : Oid) (chain : AncestorChain Oid)
    (rootOverride : Option Oid)
    (updateFn : List (DirEntryData Oid) → List (DirEntryData Oid)) : Web Oid Oid := do
  let data ← Web.readDir parentFsId
  let newParent ← Web.storeDir { data with dirents := updateFn data.dirents }
  rebuildAbove rootOverride chain parentPath newParent

def webCommit (repo : Repo Oid) (rootId : Oid) (creatorName description : String)
    (ctime : Int) : CommitData Oid :=
  let data : CommitData Oid := {
    commitId := emptySha1
    repoId := repo.id
    rootId := rootId
    creatorName := creatorName
    creator := emptySha1
    description := description
    ctime := ctime
    parentId := repo.headCommitId
    secondParentId := none
    newMerge := none
    conflict := none }
  { data with commitId := computeCommitId data }

/-- Insert the commit and move HEAD; an unchanged root needs no commit. -/
def commitRoot (change : String) (rootId : Oid) (creatorName description : String)
    (ctime : Int) : Web Oid Unit :=
  fun state =>
    if (state.repo.headCommitId.bind state.repo.commits.find).any fun head =>
        head.rootId = rootId then (.ok (), state)
    else
      let data := webCommit state.repo rootId creatorName description ctime
      match state.repo.commits.insertCommit data.row with
      | none => (.error (.internal "UNIQUE constraint failed"), state)
      | some commits =>
        match testAndUpdateHeadCommit { state.repo with commits } state.repo.headCommitId
          data.commitId with
        | (true, repo) => (.ok (), { state with repo })
        | (false, repo) => (.error (.conflict ("HEAD of " ++ repo.id ++
            " advanced while this " ++ change ++ " was being committed")), { state with repo })

def createCommit (rootId : Oid) (creatorName description : String) : Web Oid Unit := do
  let ctime ← Web.now
  commitRoot "change" rootId creatorName description ctime

def updateDirTreeAndCommit (parentPath : String) (parentFsId : Oid)
    (modifier description : String) (chain : AncestorChain Oid)
    (updateFn : List (DirEntryData Oid) → List (DirEntryData Oid)) : Web Oid Oid := do
  let root ← applyTreeUpdate parentPath parentFsId chain none updateFn
  createCommit root modifier description
  pure root

def pushUnlessNamed (entry : DirEntryData Oid) (entries : List (DirEntryData Oid)) :
    List (DirEntryData Oid) :=
  if entries.any fun other => other.name = entry.name then entries else entries ++ [entry]

def createDirByPath (path email : String) : Web Oid Unit := do
  let parts ← .tryRead fun _ => (canonicalParts path).mapError fun failure => .badRequest
    ("Invalid directory path: " ++ failure ++ ". Please ensure the path does not contain '..' " ++
      "components that would escape the repository.")
  let dirName := parts.getLast?.getD ""
  badRequest "invalid directory name: " (validateFilename dirName)
  let parentPath := pathOf parts.dropLast
  let time ← Web.now
  let parentFsId ← createParent "No commits yet" "resolve parent failed" parentPath
  let _ ← updateDirTreeAndCommit parentPath parentFsId email ("Created directory " ++ dirName) []
    (pushUnlessNamed ⟨emptySha1, sIfdir, email, time, dirName, 0⟩)

def createEmptyFile (path email : String) : Web Oid (Oid × Int) := do
  let fileName := if (Text.rsplitOnce '/' path).isSome then basename path else path
  let parentPath := parentPathFrom path
  if fileName = "" then .fail (.badRequest "invalid path")
  else
    let mtime ← Web.now
    let fileFsId ← Web.storeFile ⟨[], 0, seafMetadataTypeFile, 1⟩
    let parentFsId ← createParent "repo has no commits" "resolve parent failed" parentPath
    let _ ← .mapFailure (fun failure => .internal (toString failure))
      (updateDirTreeAndCommit parentPath parentFsId email ("Created empty file " ++ fileName) []
        (pushUnlessNamed ⟨fileFsId, sIfreg, email, mtime, fileName, 0⟩))
    pure (fileFsId, mtime)

def createFileFromBlocks (parentPath name : String) (blockIds : List Oid) (totalSize : Int)
    (modifier : String) (replace : Bool) : Web Oid (Oid × String) := do
  let time ← Web.now
  let fileFsId ← Web.storeFile ⟨blockIds, totalSize, seafMetadataTypeFile, 1⟩
  let parent ← .tryRead fun state => uploadParent state.repo parentPath
  let data ← Web.readDir parent.1
  let added := addFile fileFsId name modifier totalSize time replace data.dirents
  let newDir ← Web.storeDir ⟨added.1, seafMetadataTypeDir, 1⟩
  let root ← rebuildAbove none parent.2 parentPath newDir
  commitRoot "upload" root modifier ("Added " ++ added.2) time
  pure (fileFsId, added.2)

def missingEntry (isDirectory : Bool) : AppError :=
  .notFound (if isDirectory then "directory not found" else "file not found")

/-- The closure of `rename_entry`: the first entry of the old name gets the new one. -/
def renameFirst (oldName newName : String) :
    List (DirEntryData Oid) → List (DirEntryData Oid)
  | [] => []
  | entry :: rest =>
    if entry.name = oldName then { entry with name := newName } :: rest
    else entry :: renameFirst oldName newName rest

def renameEntry (path newName modifier : String) (isDirectory : Bool) : Web Oid Unit := do
  badRequest "invalid filename: " (validateFilename newName)
  let parentPath := parentPathFrom path
  let oldName := basename path
  let parentFsId ← resolveParent "resolve parent failed" parentPath
  let parentData ← .mapFailure (internalError "read parent failed") (Web.readDir parentFsId)
  let _ ← .tryRead fun _ => okOr (findEntry parentData.dirents oldName) (missingEntry isDirectory)
  let _ ← .mapFailure (fun failure => .internal (toString failure))
    (updateDirTreeAndCommit parentPath parentFsId modifier
      ((if isDirectory then "Renamed directory " else "Renamed ") ++ oldName) []
      (renameFirst oldName newName))

def withoutName (name : String) (entries : List (DirEntryData Oid)) :
    List (DirEntryData Oid) :=
  entries.filter fun entry => entry.name ≠ name

def withoutNames (names : List String) (entries : List (DirEntryData Oid)) :
    List (DirEntryData Oid) :=
  entries.filter fun entry => entry.name ∉ names

/-- `move_entry`: two updates of the tree and one commit. -/
def moveEntry (path newParentDir email : String) (isDirectory : Bool) : Web Oid String := do
  let headRoot ← .tryRead fun state => headRootId state.repo
  let entryName := basename path
  let parentPath := parentPathFrom path
  let oldParentFsId ← .mapFailure (resolveParentError "resolve old parent failed")
    (.tryRead fun state => resolveDirFsId state.repo.fsObjects headRoot parentPath)
  let oldParentData ←
    .mapFailure (internalError "read old parent failed") (Web.readDir oldParentFsId)
  let entry ← .tryRead fun _ =>
    okOr (findEntry oldParentData.dirents entryName) (missingEntry isDirectory)
  let newParentPath ← .tryRead fun _ => (safeNormalizePath newParentDir).mapError fun failure =>
    .internal ("path normalization failed: " ++ failure)
  .tryRead fun _ => ensure (¬ isSelfOrSubpath path newParentPath) (.badRequest
    (if isDirectory then "cannot move a directory into itself"
      else "cannot move a file onto itself"))
  let missingDestination := fun _ => AppError.badRequest "destination directory not found"
  let _ ← .mapFailure missingDestination
    (.tryRead fun state => resolveDirFsId state.repo.fsObjects headRoot newParentPath)
  let intermediateRoot ←
    applyTreeUpdate parentPath oldParentFsId [] none (withoutName entryName)
  let destination ← .mapFailure missingDestination (.tryRead fun state =>
    resolveFsIdChainFromRoot state.repo.fsObjects intermediateRoot newParentPath)
  let time ← Web.now
  let newRoot ← applyTreeUpdate newParentPath destination.1 destination.2 (some intermediateRoot)
    (pushUnlessNamed ⟨entry.id, entry.mode, email, time, entryName, entry.size⟩)
  createCommit newRoot email
    ((if isDirectory then "Moved directory " else "Moved ") ++ entryName)
  pure (joinPath newParentPath entryName)

end Nanofile
