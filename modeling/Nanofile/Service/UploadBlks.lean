import Nanofile.Service.UntimedTrees
import Nanofile.Service.UploadReports

/-!
# The block endpoint

The block endpoint commits a file by hand: it edits the directory, adjusts the size and logs
the activity itself.  `upload_file_committed_stream` does the same for every other upload.
-/

set_option autoImplicit false

namespace Nanofile

open Nanofile.Lib

variable {Oid : Type} [DecidableEq Oid] [Digests Oid] [ToString Oid]

structure ActivityEntry (Oid : Type) where
  opType : String
  objType : String
  path : String
  userId : Nat
  size : Int
  fsId : Oid

/-- A library, its activities and the reservations of all users for all libraries. -/
structure UploadSite (Oid : Type) where
  web : WebState Oid
  activities : List (ActivityEntry Oid)
  reserved : Ledger (Nat × String)

abbrev SiteProc (Oid Result : Type) := Proc (UploadSite Oid) AppError Result

def UploadSite.remaining (site : UploadSite Oid) (key : Nat × String) : Int :=
  site.reserved.total fun other => other = key

namespace SiteProc

def onLibrary {Result : Type} (proc : Web Oid Result) : SiteProc Oid Result :=
  fun site => ((proc site.web).1, { site with web := (proc site.web).2 })

def logActivity (entry : ActivityEntry Oid) : SiteProc Oid PUnit :=
  .modify fun site => { site with activities := site.activities ++ [entry] }

def releaseRepoReservation (key : Nat × String) : SiteProc Oid PUnit :=
  .modify fun site => { site with reserved := site.reserved.drop key }

end SiteProc

def isValidUploadFilename (name : String) : Bool :=
  name ≠ "" ∧ name ≠ "." ∧ name ≠ ".." ∧ '/' ∉ name.toList ∧ Char.ofNat 0 ∉ name.toList ∧
    name.utf8ByteSize ≤ 255

/-- The fields of a `commitonly` request, and the name of its user. -/
structure BlocksCommit (Oid : Type) where
  parentDir : String
  relativePath : String
  fileName : String
  blockIds : List Oid
  fileSize : Int
  replace : Bool
  username : String

/-- The closure of `upload_blks_api`: the entries and the effective name. -/
def addBlocksFile (fileFsId : Oid) (name modifier : String) (fileSize now : Int) (replace : Bool)
    (dirents : List (DirEntryData Oid)) : List (DirEntryData Oid) × String :=
  let kept := if replace then withoutName name dirents else dirents
  let effectiveName :=
    if kept.any fun entry => entry.name = name then generateUniqueFilename kept name else name
  (kept ++ [⟨fileFsId, sIfreg, modifier, now, effectiveName, fileSize⟩], effectiveName)

variable (limits : Limits)

def finalizeUpload (userId : Nat) (path : String) (fsId : Oid) (size : Int) (fileExists : Bool)
    (oldSize : Int) : SiteProc Oid PUnit := do
  SiteProc.onLibrary (adjustRepoSize limits (size - oldSize))
  SiteProc.logActivity ⟨if fileExists then "edit" else "create", "file", path, userId, size, fsId⟩

/-- What the commit of the blocks returns; `existing` is the entry that had the name. -/
structure BlocksCommitted (Oid : Type) where
  fileFsId : Oid
  path : String
  effectiveName : String
  existing : Option (DirEntryData Oid)

/-- The part of `upload_blks_api` that stores the file and commits it. -/
def commitBlocks (targetDir : String) (request : BlocksCommit Oid) :
    Web Oid (BlocksCommitted Oid) := do
  let fileFsId ← Web.storeFile ⟨request.blockIds, request.fileSize, seafMetadataTypeFile, 1⟩
  let time ← Web.now
  let path ← badRequest "invalid path: " (safeJoinPath targetDir request.fileName)
  let parent ← .mapFailure (internalError "resolve parent dir failed")
    (.tryRead fun state => resolveFsIdChain state.repo targetDir)
  let parentData ← .mapFailure (internalError "read parent dir failed") (Web.readDir parent.1)
  let add := addBlocksFile fileFsId request.fileName request.username request.fileSize time
    request.replace
  let _ ← .mapFailure (internalError "commit blocks failed")
    (updateDirTreeAndCommit targetDir parent.1 request.username ("Added " ++ request.fileName)
      parent.2 fun dirents => (add dirents).1)
  pure ⟨fileFsId, path, (add parentData.dirents).2,
    findEntry parentData.dirents request.fileName⟩

/-- `upload_blks_api` with `commitonly`, for a token of a user; `blockSize` is what the block
store finds and `withinQuota` what `check_upload_quota` finds. -/
def uploadBlksApi (blockSize : Oid → Option Nat) (userId : Nat) (withinQuota : Bool)
    (request : BlocksCommit Oid) : SiteProc Oid (Oid × String) := do
  .tryRead fun _ => ensure (isValidUploadFilename request.fileName = true)
    (.badRequest "invalid file_name")
  .tryRead fun _ => ensure (request.blockIds ≠ []) (.badRequest "blockids cannot be empty")
  let sizes ← .tryRead fun _ => request.blockIds.mapM fun id =>
    okOr (blockSize id) (.badRequest ("block not found: " ++ toString id))
  .tryRead fun _ => ensure ((sizes.sum : Int) = request.fileSize)
    (.badRequest "file_size does not match the uploaded blocks")
  .tryRead fun _ => ensure (withinQuota = true) .quotaExceeded
  let targetDir ← .tryRead fun _ =>
    (safeJoinPath request.parentDir request.relativePath).mapError fun failure => .badRequest
      ("Invalid path: " ++ failure ++ ". Please ensure the path does not contain '..' " ++
        "components that would escape the repository.")
  let committed ← SiteProc.onLibrary (commitBlocks targetDir request)
  finalizeUpload limits userId committed.path committed.fileFsId request.fileSize
    committed.existing.isSome ((committed.existing.map DirEntryData.size).getD 0)
  pure (committed.fileFsId, committed.effectiveName)

/-- `upload_file_committed_stream` of a user, with what it releases and logs. -/
def commitUpload (userId : Nat) (repoId targetDir filename : String) (blockIds : List Oid)
    (totalSize : Int) (modifier : String) (ensureDir replace withinQuota : Bool) :
    SiteProc Oid (Oid × String) := do
  let added ← SiteProc.onLibrary (uploadFileCommittedStream limits targetDir filename blockIds
    totalSize modifier true ensureDir replace withinQuota)
  let path ← .tryRead fun _ => (safeJoinPath targetDir added.2).mapError fun failure =>
    .badRequest ("invalid filename: " ++ failure)
  SiteProc.releaseRepoReservation (userId, repoId)
  SiteProc.logActivity
    ⟨if replace then "edit" else "create", "file", path, userId, totalSize, added.1⟩
  pure added

/-- The trees of the two HEADs, up to timestamps. -/
def SameHead (first second : Repo Oid) : Prop :=
  ∃ root root', resolveRootFsId first = .ok root ∧ resolveRootFsId second = .ok root' ∧
    SameTree first.fsObjects root second.fsObjects root'

structure SameCommit (key : Nat × String) (first second : UploadSite Oid) : Prop where
  tree : SameHead first.web.repo second.web.repo
  size : first.web.repo.size = second.web.repo.size
  paths : first.activities.map ActivityEntry.path = second.activities.map ActivityEntry.path
  remaining : first.remaining key = second.remaining key

/-- What `upload_file_committed_stream` takes from the size. -/
def freedSize (repo : Repo Oid) (path : String) (replace : Bool) : Except AppError Int :=
  if replace then replacedSize limits repo path else .ok 0

/-- The uploads on which the two agree, by the library before them: nothing is reserved, the
name is free or replaced, a file that is there already is the same up to its time, and the size
recorded under the name changes the stored size like the size that is freed. -/
structure CommitsAlike (before : UploadSite Oid) (key : Nat × String) (targetDir : String)
    (request : BlocksCommit Oid) : Prop where
  unreserved : before.remaining key = 0
  named : request.replace = true ∨
    lookup (uploadTarget before.web.repo targetDir).2 request.fileName = none
  present : IdenticalReplace request.replace (uploadTarget before.web.repo targetDir).2
      request.fileName (uploadedId request.blockIds request.fileSize) request.fileSize →
    ∃ entry, lookup (uploadTarget before.web.repo targetDir).2 request.fileName = some entry ∧
      entry.untimed = ⟨sIfreg, request.username, request.fileSize,
        some (uploadedId request.blockIds request.fileSize)⟩
  sized : before.web.repo.size = 0 ∨ ∀ path freed,
    safeJoinPath targetDir request.fileName = .ok path →
    freedSize limits before.web.repo path request.replace = .ok freed →
    max 0 (before.web.repo.size + (request.fileSize - ((lookup
      (uploadTarget before.web.repo targetDir).2 request.fileName).map DirEntryData.size).getD 0)) =
      max 0 (before.web.repo.size + (request.fileSize - freed))

end Nanofile
