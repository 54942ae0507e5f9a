import Nanofile.Lib.FirstVisits
import Nanofile.Service.LibraryKeys
import Nanofile.Service.LibraryTrash
import Nanofile.Service.QuotaLimits
import Nanofile.Service.WebOps
import Nanofile.Storage.BlockBackend

/-!
# A library made from a folder

`create_sub_repo` creates the library row and its member, copies the fs objects below the folder
level by level, then their blocks, and commits the folder as the root.  Each access of the
database and of the disk may fail; only the copy of the blocks is rolled back.
-/

set_option autoImplicit false

namespace Nanofile

open Nanofile.Lib

/-- A library's row, less its modification time, and the rows that go with it when it is
deleted. -/
structure LibraryRecord (Oid : Type) where
  name : String
  description : String
  ownerId : Int
  keys : KeyRow
  permission : String
  createdAt : Int
  type : String
  repo : Repo Oid

structure LibrarySite (Oid : Type) where
  libraries : List (LibraryRecord Oid)
  members : List MemberRow
  blocks : BlockStorage (String × Oid)

namespace LibrarySite

variable {Oid : Type}

def find (site : LibrarySite Oid) (repoId : String) : Option (LibraryRecord Oid) :=
  site.libraries.find? fun library => library.repo.id = repoId

/-- The fs objects of a library; none when there is no such library. -/
def storeOf (site : LibrarySite Oid) (repoId : String) : FsStore Oid :=
  ((site.find repoId).map fun library => library.repo.fsObjects).getD .empty

def update (site : LibrarySite Oid) (repoId : String) (change : Repo Oid → Repo Oid) :
    LibrarySite Oid :=
  { site with
    libraries := site.libraries.map fun library =>
      if library.repo.id = repoId then { library with repo := change library.repo } else library }

def committedUsage (site : LibrarySite Oid) (userId : Int) : Int :=
  ((site.libraries.filter fun library => library.ownerId = userId).map
    fun library => library.repo.size).sum

def deleteMembers (site : LibrarySite Oid) (repoId : String) : LibrarySite Oid :=
  { site with members := site.members.filter fun member => member.repoId ≠ repoId }

/-- `delete_by_id`: the rows of the library go with it, its members too. -/
def deleteRepo (site : LibrarySite Oid) (repoId : String) : LibrarySite Oid :=
  { site.deleteMembers repoId with
    libraries := site.libraries.filter fun library => library.repo.id ≠ repoId }

end LibrarySite

/-- What may fail: an access of the database, or of a block. -/
inductive SubRepoStep (Oid : Type) where
  | insertRepo
  | readRepo
  | insertMember
  | fetchLevel (level : Nat)
  | insertLevel (level : Nat)
  | walkLevel (level : Nat)
  | readUsage
  | readBlock (id : Oid)
  | writeBlock (id : Oid)
  | deleteMembers
  | deleteRepo
  | readHead
  | insertCommit
  | moveHead
  | adjustSize
deriving DecidableEq, Repr

/-- What a call reads from outside.  The block ids come out of a hash set, in any order. -/
structure SubRepoEnv (Oid : Type) where
  limits : Limits
  newRepoId : String
  now : Int
  commitTime : Int
  account : AccountQuota
  cachedUsage : Option Int
  fault : SubRepoStep Oid → Option AppError
  blockOrder : List Oid → List Oid
  isOrder : ∀ ids, (blockOrder ids).Perm ids

abbrev SubRepo (Oid Result : Type) := Proc (LibrarySite Oid) AppError Result

def SubRepoEnv.access {Oid : Type} (env : SubRepoEnv Oid) (step : SubRepoStep Oid) :
    SubRepo Oid Unit :=
  .tryRead fun _ =>
    match env.fault step with
    | some failure => .error failure
    | none => .ok ()

variable {Oid : Type}

def KeyRow.plain : KeyRow := ⟨0, 0, none, none, "", none, none, none⟩

def createSubRow (env : SubRepoEnv Oid) (name : String) (userId : Int) : SubRepo Oid Unit := do
  env.access .insertRepo
  .tryRead fun site =>
    ensure ((site.find env.newRepoId).isNone = true) (.internal "UNIQUE constraint failed")
  .modify fun site => { site with
    libraries := site.libraries ++ [{
      name := name
      description := ""
      ownerId := userId
      keys := .plain
      permission := "rw"
      createdAt := env.now
      type := "repo"
      repo := ⟨env.newRepoId, none, 0, 0, 0, .empty, .empty, .empty⟩ }] }
  env.access .readRepo

def createSubMember (env : SubRepoEnv Oid) (userId : Int) : SubRepo Oid Unit := do
  env.access .insertMember
  .modify fun site =>
    { site with
      members := site.members ++ [newMember site.members env.newRepoId userId env.now] }

section Objects

variable [DecidableEq Oid] [Digests Oid] [ToString Oid]

def copyEntry (store : FsStore Oid) (fsId : Oid) :
    Except AppError (List (Oid × FsObject Oid) × List Oid) :=
  if fsId = emptySha1 then .ok ([], [])
  else
    match store.find fsId with
    | none => .error (.notFound ("fs_object not found: " ++ toString fsId))
    | some (.dir data) => .ok ([(fsId, .dir data)], data.dirents.map DirEntryData.id)
    | some (.file data) => .ok ([(fsId, .file data)], [])

def copyLevel (store : FsStore Oid) :
    List Oid → Except AppError (List (Oid × FsObject Oid) × List Oid)
  | [] => .ok ([], [])
  | fsId :: rest => do
      let here ← copyEntry store fsId
      let others ← copyLevel store rest
      .ok (here.1 ++ others.1, here.2 ++ others.2)

/-- `insert_many`, `ON CONFLICT DO NOTHING`. -/
def insertObjects (rows : List (Oid × FsObject Oid)) (repo : Repo Oid) : Repo Oid :=
  { repo with
    fsObjects := rows.foldl (fun store row => store.insertOrIgnore row.1 row.2) repo.fsObjects }

/-- The loop of `copy_fs_tree`, which visits the ids of a level as often as they are listed and
copies each once. -/
def copyLevels (env : SubRepoEnv Oid) (repoId : String) :
    Nat → Nat → Nat → List Oid → SubRepo Oid Unit
  | _, _, _, [] => pure ()
  | 0, _, _, _ :: _ => .fail env.limits.tooDeep
  | depth + 1, level, visits, fsId :: rest =>
    if env.limits.maxVisits < visits + (fsId :: rest).length then .fail env.limits.tooWide
    else do
      env.access (.fetchLevel level)
      let found ← .tryRead fun site => copyLevel (site.storeOf repoId) (fsId :: rest).eraseDups
      env.access (.insertLevel level)
      .modify fun site => site.update env.newRepoId (insertObjects found.1)
      copyLevels env repoId depth (level + 1) (visits + (fsId :: rest).length) found.2

def copyFsTree (env : SubRepoEnv Oid) (repoId : String) (rootFsId : Oid) : SubRepo Oid Unit :=
  copyLevels env repoId env.limits.maxDepth 0 0 [rootFsId]

structure BlockWalk (Oid : Type) where
  seen : List Oid
  blockIds : List Oid
  totalSize : Int
deriving DecidableEq, Repr

def addSaturating (total size : Int) : Int := min (2 ^ 63 - 1) (total + size)

def walkEntry (store : FsStore Oid) (walk : BlockWalk Oid × List Oid) (fsId : Oid) :
    Except AppError (BlockWalk Oid × List Oid) :=
  match store.find fsId with
  | none => .error (.notFound ("fs_object not found: " ++ toString fsId))
  | some (.dir data) => .ok (walk.1, walk.2 ++ data.dirents.map DirEntryData.id)
  | some (.file data) =>
    .ok ({ walk.1 with
      blockIds := walk.1.blockIds ++ data.blockIds
      totalSize := addSaturating walk.1.totalSize (max 0 data.size) }, walk.2)

def freshIds (seen frontier : List Oid) : List Oid :=
  firstVisits id seen (frontier.filter fun fsId => fsId ≠ emptySha1)

def walkBlocks (env : SubRepoEnv Oid) (store : FsStore Oid) :
    Nat → Nat → Nat → List Oid → BlockWalk Oid → Except AppError (BlockWalk Oid)
  | _, _, _, [], walk => .ok walk
  | 0, _, _, _ :: _, _ => .error env.limits.tooDeep
  | depth + 1, level, visits, fsId :: rest, walk =>
    let fresh := freshIds walk.seen (fsId :: rest)
    if env.limits.maxVisits < visits + fresh.length then .error env.limits.tooWide
    else if fresh = [] then .ok walk
    else
      match env.fault (.walkLevel level) with
      | some failure => .error failure
      | none =>
        match fresh.foldlM (walkEntry store) ({ walk with seen := walk.seen ++ fresh }, []) with
        | .error failure => .error failure
        | .ok (found, next) =>
          walkBlocks env store depth (level + 1) (visits + fresh.length) next found

def collectBlocks (env : SubRepoEnv Oid) (store : FsStore Oid) (rootFsId : Oid) :
    Except AppError (BlockWalk Oid) :=
  walkBlocks env store env.limits.maxDepth 0 0 [rootFsId] ⟨[], [], 0⟩

/-- `check_upload_quota` with the usage of the cache, or the sum. -/
def checkSubRepoQuota (env : SubRepoEnv Oid) (userId totalSize : Int) : SubRepo Oid Unit :=
  if totalSize ≤ 0 then pure ()
  else do
    env.access .readUsage
    .tryRead fun site => (checkUploadQuota .wraps env.account
      (env.cachedUsage.getD (site.committedUsage userId)) totalSize).mapError
        fun _ => .quotaExceeded

def copyBlock (env : SubRepoEnv Oid) (repoId : String) (id : Oid) : SubRepo Oid Unit := do
  let present ← .update fun site =>
    ((site.blocks.hasBlock (env.newRepoId, id)).1,
      { site with blocks := (site.blocks.hasBlock (env.newRepoId, id)).2 })
  if present then pure ()
  else do
    env.access (.readBlock id)
    let data ← .tryRead fun site => okOr (site.blocks.readBlock (repoId, id))
      (.notFound ("block " ++ toString id ++ " referenced by the folder is missing in the source " ++
        "library: " ++ IoErrorKind.notFound.text))
    env.access (.writeBlock id)
    .modify fun site =>
      { site with blocks := site.blocks.writeBlockWithId (env.newRepoId, id) data }

def copyBlocks (env : SubRepoEnv Oid) (repoId : String) : List Oid → SubRepo Oid Unit
  | [] => pure ()
  | id :: rest => do
      copyBlock env repoId id
      copyBlocks env repoId rest

def copySubtreeBlocks (env : SubRepoEnv Oid) (repoId : String) (rootFsId : Oid) (userId : Int) :
    SubRepo Oid Int :=
  if rootFsId = emptySha1 then pure 0
  else do
    let walk ← .tryRead fun site => collectBlocks env (site.storeOf repoId) rootFsId
    checkSubRepoQuota env userId walk.totalSize
    copyBlocks env repoId (env.blockOrder walk.blockIds.eraseDups)
    pure walk.totalSize

def rollbackSubRepo (env : SubRepoEnv Oid) : SubRepo Oid Unit :=
  .modify fun site =>
    let site := if (env.fault .deleteMembers).isSome then site else site.deleteMembers env.newRepoId
    if (env.fault .deleteRepo).isSome then site else site.deleteRepo env.newRepoId

def failAfterRollback (env : SubRepoEnv Oid) (failure : AppError) : SubRepo Oid Int := do
  rollbackSubRepo env
  .fail failure

/-- The blocks are copied, or the library is rolled back. -/
def copyBlocksOrRollback (env : SubRepoEnv Oid) (repoId : String) (rootFsId : Oid)
    (userId : Int) : SubRepo Oid Int := do
  let outcome ← .attempt (copySubtreeBlocks env repoId rootFsId userId)
  match outcome with
  | .ok copiedBytes => pure copiedBytes
  | .error failure => failAfterRollback env failure

def insertSubCommit (env : SubRepoEnv Oid) (repo : Repo Oid) (data : CommitData Oid) :
    SubRepo Oid Unit := do
  env.access .insertCommit
  let commits ← .tryRead fun _ => okOr (repo.commits.insertCommit data.row)
    (.internal "UNIQUE constraint failed")
  .modify fun site => site.update env.newRepoId fun repo => { repo with commits }
  env.access .moveHead
  .modify fun site => site.update env.newRepoId fun repo =>
    (testAndUpdateHeadCommit repo data.parentId data.commitId).2

/-- `create_commit`.  A swap that another writer has won is a failed access. -/
def createSubCommit (env : SubRepoEnv Oid) (rootFsId : Oid) (email : String) :
    SubRepo Oid Unit := do
  env.access .readHead
  let library ← .tryRead fun site => okOr (site.find env.newRepoId) (.notFound "repo not found")
  if (library.repo.headCommitId.bind library.repo.commits.find).any fun head =>
      head.rootId = rootFsId then pure ()
  else
    insertSubCommit env library.repo
      (webCommit library.repo rootFsId email "Created sub-repo" env.commitTime)

/-- `adjust_repo_size`, whose failure is only logged. -/
def recordSubSize (env : SubRepoEnv Oid) (copiedBytes : Int) : SubRepo Oid Unit :=
  .modify fun site =>
    if copiedBytes ≤ 0 ∨ (env.fault .adjustSize).isSome then site
    else site.update env.newRepoId fun repo =>
      (adjustRepoSize env.limits copiedBytes ⟨repo, [], fun _ => env.commitTime⟩).2.repo

structure SubRepoResponse where
  subRepoId : String
  id : String
  name : String
  desc : String
  size : Int
  encrypted : Int
  encVersion : Int
  owner : String
  permission : String
  mtime : Int
deriving DecidableEq, Repr

def findFolder (site : LibrarySite Oid) (repoId path : String) : Except AppError Oid := do
  let library ← okOr (site.find repoId) (.notFound "Repository not found")
  let headRoot ← headRootId library.repo
  (resolveDirFsId library.repo.fsObjects headRoot path).mapError fun _ =>
    .notFound "directory not found"

def createSubRepo (env : SubRepoEnv Oid) (repoId path email : String) (userId : Int) :
    SubRepo Oid SubRepoResponse := do
  let sourceDirFsId ← .tryRead fun site => findFolder site repoId path
  let dirName := lastName (trimEndSlashes (trimStartSlashes path))
  createSubRow env dirName userId
  createSubMember env userId
  copyFsTree env repoId sourceDirFsId
  let copiedBytes ← copyBlocksOrRollback env repoId sourceDirFsId userId
  .mapFailure (internalError "create commit failed") (createSubCommit env sourceDirFsId email)
  recordSubSize env copiedBytes
  pure ⟨env.newRepoId, env.newRepoId, dirName, "", 0, 0, 0, email, "rw", env.now⟩

end Objects

end Nanofile
