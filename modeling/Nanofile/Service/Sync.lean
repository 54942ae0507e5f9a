import Nanofile.Base.Paths
import Nanofile.Fs.Merge
import Nanofile.Lib.Threads
import Nanofile.Service.CheckBlocks
import Nanofile.Service.Size

/-!
# The sync protocol of one library

Desktop clients push fs objects and blocks, insert commits and then ask for HEAD to
move.  The first three are served at once; `update_branch` reads and writes the
database many times, so it is a thread whose steps interleave with everything else.
-/

set_option autoImplicit false

namespace Nanofile

open Nanofile.Lib

variable {Oid : Type} [DecidableEq Oid] [Digests Oid]

inductive FsObjectVerifyMode where
  | off
  | strict
  | log
deriving DecidableEq, Repr

/-- One object of a pack: its claimed id, what decompressing it gives, the SHA-1 of
that text and what the text parses to. -/
structure PackEntry (Oid : Type) [Digests Oid] where
  fsId : Oid
  length : Except String Nat
  sha1 : Oid
  object : Except String (FsObject Oid)
  denoted : ∀ found, object = .ok found → Digests.Denotes sha1 found

def maxFsPackEntries : Nat := 4096

def maxFsPackDecompressedBytes : Nat := 128 * 1024 * 1024

def checkFsObject : FsObject Oid → Except AppError Unit
  | .dir data => do
      ensure (data.objType = seafMetadataTypeDir)
        (.badRequest ("fs object has dirents but type " ++ toString data.objType ++
          " (expected " ++ toString seafMetadataTypeDir ++ ")"))
      ensure (1 ≤ data.version)
        (.badRequest ("dir object version must be >= 1, got " ++ toString data.version))
      data.dirents.forM fun entry =>
        (validateFilename entry.name).mapError fun failure =>
          .badRequest ("invalid dirent name " ++ entry.name.quote ++ ": " ++ failure)
  | .file data => do
      ensure (data.objType = seafMetadataTypeFile)
        (.badRequest ("fs object has no dirents but type " ++ toString data.objType ++
          " (expected " ++ toString seafMetadataTypeFile ++ ")"))
      ensure (1 ≤ data.version)
        (.badRequest ("file object version must be >= 1, got " ++ toString data.version))
      ensure (0 ≤ data.size)
        (.badRequest ("file object size must be >= 0, got " ++ toString data.size))

/-- Only the strict mode refuses an object whose id is not its hash; nothing is
checked under the sentinel. -/
def idAccepted (mode : FsObjectVerifyMode) (entry : PackEntry Oid) : Prop :=
  entry.fsId = emptySha1 ∨ entry.sha1 = entry.fsId ∨ mode ≠ .strict

instance (mode : FsObjectVerifyMode) (entry : PackEntry Oid) : Decidable (idAccepted mode entry) :=
  inferInstanceAs (Decidable (_ ∨ _ ∨ _))

variable [ToString Oid]

def packRows (mode : FsObjectVerifyMode) :
    Nat → List (PackEntry Oid) → Except AppError (List (Oid × FsObject Oid))
  | _, [] => .ok []
  | total, entry :: rest => do
      let length ← entry.length.mapError fun failure =>
        .badRequest ("decompress fs object: " ++ failure)
      ensure (total + length ≤ maxFsPackDecompressedBytes)
        (.badRequest ("fs object pack too large after decompression (max " ++
          toString maxFsPackDecompressedBytes ++ " bytes)"))
      ensure (idAccepted mode entry)
        (.badRequest ("fs object id mismatch: expected " ++ toString entry.fsId ++
          ", computed " ++ toString entry.sha1))
      let object ← entry.object.mapError .badRequest
      checkFsObject object
      let rows ← packRows mode (total + length) rest
      .ok ((entry.fsId, object) :: rows)

def insertFsObjects (mode : FsObjectVerifyMode) (entries : List (PackEntry Oid))
    (repo : Repo Oid) : Except AppError Unit × Repo Oid :=
  if maxFsPackEntries < entries.length then
    (.error (.badRequest ("too many fs objects in pack: " ++ toString entries.length ++
      " (max " ++ toString maxFsPackEntries ++ ")")), repo)
  else
    match packRows mode 0 entries with
    | .error failure => (.error failure, repo)
    | .ok rows =>
      (.ok (), { repo with
        fsObjects := rows.foldl (fun store row => store.insertOrIgnore row.1 row.2)
          repo.fsObjects })

/-- `write_block_with_id`: a block that is already stored is not written again. -/
def writeBlock (blockId : Oid) (now : Int) (repo : Repo Oid) : Repo Oid :=
  { repo with blocks := repo.blocks.insertOrIgnore blockId now }

def validateCommitId (urlCommitId : Oid) (data : CommitData Oid) : Except AppError Unit := do
  ensure (data.commitId = urlCommitId)
    (.badRequest "commit_id does not match the request path")
  ensure (data.commitId = computeCommitId data ∨
      data.commitId = computeCommitIdWithEmptyName data true)
    (.badRequest "commit_id is not the hash of the commit")

/-- `put_commit`: a commit whose id is taken is left as it is. -/
def putCommit (urlCommitId : Oid) (data : CommitData Oid) (repo : Repo Oid) :
    Except AppError Unit × Repo Oid :=
  let valid := do
    ensure (data.repoId = repo.id) (.badRequest "repo_id mismatch")
    validateCommitId urlCommitId data
  match valid with
  | .error failure => (.error failure, repo)
  | .ok () => (.ok (), { repo with
      commits := (repo.commits.insertCommit data.row).getD repo.commits })

/-- What a step of `update_branch` reads besides the rows of the library: the
configured limits, the user table, the wall clock, the file locks and the ids whose
bytes the presence cache holds. -/
structure SyncEnv (Oid : Type) where
  limits : Limits
  nicknameOf : String → Option String
  clock : Nat → Int
  formatLocalTimestamp : Int → String
  lockedFiles : List (String × Int)
  cached : List Oid

/-- The owner of the lock on a path; a later row of a path replaces an earlier one. -/
def lockOwner (lockedFiles : List (String × Int)) (path : String) : Option Int :=
  (lockedFiles.reverse.find? fun lock => lock.1 = path).map Prod.snd

def lockFrame (store : FsStore Oid) (lockedFiles : List (String × Int)) (userId : Int)
    (frame : FullFrame Oid) : Except AppError (List (FullFrame Oid)) :=
  if frame.fsId = emptySha1 then .ok []
  else
    match store.find frame.fsId with
    | none => .ok []
    | some (.file _) =>
      match lockOwner lockedFiles frame.path with
      | none => .ok []
      | some owner => if owner = userId then .ok [] else .error (.locked frame.path)
    | some (.dir data) =>
      .ok (data.dirents.map fun entry => ⟨entry.id, childOf frame.path entry.name⟩)

/-- `check_commit_file_locks`: no file of the tree may be locked by another user. -/
def checkCommitFileLocks (env : SyncEnv Oid) (store : FsStore Oid) (rootId : Oid)
    (userId : Int) : Except AppError Unit :=
  if rootId = emptySha1 ∨ env.lockedFiles = [] then .ok ()
  else
    levelWalk env.limits.maxVisits env.limits.tooDeep env.limits.tooWide
      (fun frontier _ => do
        let children ← frontier.mapM (lockFrame store env.lockedFiles userId)
        .ok (children.flatten, ()))
      env.limits.maxDepth 0 [⟨rootId, ""⟩] ()

/-- What `update_branch` knows once the upload has been checked. -/
structure Upload (Oid : Type) where
  newHead : Oid
  newCommit : CommitRow Oid
  baseRootId : Option Oid
  sizeDelta : Int

def CommitRow.realParent (row : CommitRow Oid) : Option Oid :=
  row.parentId.filter fun parent => parent ≠ emptySha1

/-- The root of the commit the client based its upload on. -/
def baseRootOf (commits : CommitTable Oid) (row : CommitRow Oid) : Option Oid :=
  row.realParent.bind fun parent => (commits.find parent).map CommitRow.rootId

def checkRoot (store : FsStore Oid) (rootId : Oid) : Except AppError Unit :=
  if rootId = emptySha1 then .ok ()
  else
    match store.find rootId with
    | some (.dir _) => .ok ()
    | some (.file _) => .error (.badRequest "commit root is not a directory object")
    | none => .error .blockMissing

/-- `update_branch` up to its retry loop. -/
def validateUpload (env : SyncEnv Oid) (repo : Repo Oid) (newHead : Oid) (userId : Int) :
    Except AppError (Upload Oid) := do
  let newCommit ← okOr (repo.commits.find newHead) (.internal "commit not found")
  checkRoot repo.fsObjects newCommit.rootId
  let baseRootId := baseRootOf repo.commits newCommit
  let checked ← checkCommitBlocks env.limits repo.fsObjects (cachedHasBlock env.cached repo.blocks)
    newCommit.rootId baseRootId
  ensure (checked.1 = []) .blockMissing
  checkCommitFileLocks env repo.fsObjects newCommit.rootId userId
  ensure (newCommit.realParent = none ∨ baseRootId ≠ none)
    (.badRequest "parent commit not found")
  .ok ⟨newHead, newCommit, baseRootId, checked.2⟩

structure Swap (Oid : Type) where
  currentHead : Option Oid
  targetHead : Oid
  targetRoot : Oid
  diffBaseRoot : Option Oid
  delta : Int
  isMerge : Bool
  keptDeleted : Bool

/-- Where a call of `update_branch` stands between two accesses of the database. -/
inductive BranchPc (Oid : Type) where
  | begun (newHead : Oid) (userId : Int)
  /-- The upload is checked; the attempt is about to read the library row. -/
  | uploaded (upload : Upload Oid) (attempt : Nat)
  /-- HEAD is not the parent of the upload: `merge_branch`. -/
  | merging (upload : Upload Oid) (attempt : Nat) (headId headRoot : Oid)
  /-- `create_merge_commit` is about to look for its row. -/
  | recording (upload : Upload Oid) (attempt : Nat) (row : CommitRow Oid) (swap : Swap Oid)
  | inserting (upload : Upload Oid) (attempt : Nat) (row : CommitRow Oid) (swap : Swap Oid)
  | swapping (upload : Upload Oid) (attempt : Nat) (swap : Swap Oid)
  | sizing (size : SizePc)
  | finished (result : Except AppError Bool)

def maxBranchRetry : Nat := 3

def autoMergeDescription : String := "Auto merge by system"

/-- The HEAD of the library; a stored sentinel means there is none. -/
def currentHead (repo : Repo Oid) : Option Oid :=
  repo.headCommitId.filter fun head => head ≠ emptySha1

def SyncEnv.merge (env : SyncEnv Oid) (newCommit : CommitRow Oid) : MergeEnv Oid :=
  ⟨env.limits, newCommit.rootId, newCommit.creatorName, env.nicknameOf, env.clock,
    env.formatLocalTimestamp⟩

/-- The commit `create_merge_commit` records, by the clock at that moment. -/
def mergeCommit (repoId : String) (ctime : Int) (upload : Upload Oid) (headId mergedRoot : Oid)
    (conflict : Bool) : CommitData Oid :=
  let data : CommitData Oid := {
    commitId := emptySha1
    repoId := repoId
    rootId := mergedRoot
    creatorName := upload.newCommit.creatorName
    creator := emptySha1
    description := autoMergeDescription
    ctime := ctime
    parentId := some headId
    secondParentId := some upload.newCommit.commitId
    newMerge := some 1
    conflict := if conflict then some 1 else none }
  { data with commitId := computeCommitId data }

/-- An attempt reads HEAD and decides between a fast-forward and a merge. -/
def readHead (repo : Repo Oid) (upload : Upload Oid) (attempt : Nat) : BranchPc Oid :=
  if currentHead repo = some upload.newHead then .finished (.ok true)
  else
    match currentHead repo with
    | none => .swapping upload attempt ⟨none, upload.newHead, upload.newCommit.rootId,
        upload.baseRootId, upload.sizeDelta, false, false⟩
    | some headId =>
      if upload.newCommit.parentId = some headId then
        .swapping upload attempt ⟨some headId, upload.newHead, upload.newCommit.rootId,
          upload.baseRootId, upload.sizeDelta, false, false⟩
      else
        match repo.commits.find headId with
        | none => .finished (.error (.internal "head commit not found"))
        | some head => .merging upload attempt headId head.rootId

/-- `merge_branch` up to the merge commit: the merged tree is stored and its blocks
are checked against HEAD. -/
def mergeBranch (env : SyncEnv Oid) (repo : Repo Oid) (upload : Upload Oid) (attempt : Nat)
    (headId headRoot : Oid) : Repo Oid × BranchPc Oid :=
  let merged := mergeTrees (env.merge upload.newCommit) (upload.baseRootId.getD emptySha1)
    headRoot repo.fsObjects
  let repo := { repo with fsObjects := merged.2 }
  match merged.1 with
  | .error failure => (repo, .finished (.error failure))
  | .ok outcome =>
    match checkCommitBlocks env.limits repo.fsObjects (cachedHasBlock env.cached repo.blocks)
        outcome.mergedRoot (some headRoot) with
    | .error failure => (repo, .finished (.error failure))
    | .ok (missing, delta) =>
      if missing ≠ [] then (repo, .finished (.error .blockMissing))
      else
        let data := mergeCommit repo.id (env.clock 0) upload headId outcome.mergedRoot
          outcome.conflict
        (repo, .recording upload attempt data.row ⟨some headId, data.commitId,
          outcome.mergedRoot, some headRoot, delta, true, outcome.keptDeleted⟩)

def stepBranch (env : SyncEnv Oid) (repo : Repo Oid) :
    BranchPc Oid → Option (Repo Oid × BranchPc Oid)
  | .begun newHead userId =>
    match validateUpload env repo newHead userId with
    | .error failure => some (repo, .finished (.error failure))
    | .ok upload => some (repo, .uploaded upload 1)
  | .uploaded upload attempt => some (repo, readHead repo upload attempt)
  | .merging upload attempt headId headRoot =>
    some (mergeBranch env repo upload attempt headId headRoot)
  | .recording upload attempt row swap =>
    -- The same merge within one second has the same id: its row is used as it is.
    if (repo.commits.find row.commitId).isSome then some (repo, .swapping upload attempt swap)
    else some (repo, .inserting upload attempt row swap)
  | .inserting upload attempt row swap =>
    match repo.commits.insertCommit row with
    | none => some (repo, .finished (.error (.internal "UNIQUE constraint failed")))
    | some commits => some ({ repo with commits }, .swapping upload attempt swap)
  | .swapping upload attempt swap =>
    if swap.isMerge && (repo.commits.find swap.targetHead).isNone then
      some (repo, .finished (.error (.internal "merged commit not found")))
    else
      match testAndUpdateHeadCommit repo swap.currentHead swap.targetHead with
      | (true, repo) => some (repo, .sizing (.reading swap.delta))
      | (false, repo) =>
        if maxBranchRetry < attempt then
          some (repo, .finished (.error (.internal ("repository " ++ repo.id ++
            " HEAD was updated concurrently more than " ++ toString maxBranchRetry ++
            " times"))))
        else some (repo, .uploaded upload (attempt + 1))
  | .sizing size =>
    match stepSize env.limits repo size with
    | .error failure => some (repo, .finished (.error failure))
    | .ok (repo, some size) => some (repo, .sizing size)
    | .ok (repo, none) => some (repo, .finished (.ok false))
  | .finished _ => none

inductive SyncRequest (Oid : Type) [Digests Oid] where
  | insertFsObjects (mode : FsObjectVerifyMode) (entries : List (PackEntry Oid))
  | writeBlock (blockId : Oid) (now : Int)
  | putCommit (urlCommitId : Oid) (data : CommitData Oid)

def serveSync (repo : Repo Oid) : SyncRequest Oid → Repo Oid
  | .insertFsObjects mode entries => (insertFsObjects mode entries repo).2
  | .writeBlock blockId now => writeBlock blockId now repo
  | .putCommit urlCommitId data => (putCommit urlCommitId data repo).2

/-- A call of `update_branch`: the commit HEAD is to move to and the user. -/
structure BranchJob (Oid : Type) where
  newHead : Oid
  userId : Int

def syncProgram : Program (Repo Oid) (BranchPc Oid) (SyncRequest Oid) (BranchJob Oid)
    (SyncEnv Oid) where
  serve request repo := serveSync repo request
  begin job := .begun job.newHead job.userId
  advance env repo pc := stepBranch env repo pc

end Nanofile
