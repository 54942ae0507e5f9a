import Nanofile.Service.OrphanDirs

/-!
# Libraries of several users

Users create, fill, delete, restore and purge libraries, one call after the other.  Every access of
the database or the disk is a step, and a call that has begun may stop before any of its steps: the
next call then begins from what it has left.
-/

set_option autoImplicit false

namespace Nanofile

open Nanofile.Lib

def ContentTable.insert {Columns : Type} (table : ContentTable Columns)
    (row : ContentRow Columns) : Option (ContentTable Columns) :=
  if free : ∀ other ∈ table.rows, ¬ other.Conflicts row then
    some ⟨table.rows ++ [row], List.pairwise_append.mpr
      ⟨table.unique, List.pairwise_singleton _ _, fun other listed new isNew => by
        rw [List.mem_singleton.mp isNew]
        exact free other listed⟩⟩
  else none

namespace LibraryDb

def CanWrite (db : LibraryDb) (repoId : String) (userId : Int) : Prop :=
  ∃ row, db.findRepo repoId = some row ∧ (row.ownerId = userId ∨
    ∃ member ∈ db.members, member.repoId = repoId ∧ member.userId = userId ∧
      member.permission = "rw")

def canWrite (db : LibraryDb) (repoId : String) (userId : Int) : Bool :=
  match db.findRepo repoId with
  | none => false
  | some row => row.ownerId = userId || db.members.any fun member =>
    member.repoId = repoId && member.userId = userId && member.permission = "rw"

def insertCommit (db : LibraryDb) (row : ContentRow CommitColumns) : Option LibraryDb :=
  match db.findRepo row.repoId with
  | none => none
  | some _ => (db.commits.insert row).map fun commits => { db with commits := commits }

/-- An object that is there already stays, `ON CONFLICT DO NOTHING`. -/
def insertFsObject (db : LibraryDb) (row : ContentRow FsObjectColumns) : Option LibraryDb :=
  match db.findRepo row.repoId with
  | none => none
  | some _ =>
    match db.fsObjects.find row.repoId row.objectId with
    | some _ => some db
    | none => (db.fsObjects.insert row).map fun fsObjects => { db with fsObjects := fsObjects }

def dropArchivedCommits (db : LibraryDb) (repoId : String) : LibraryDb :=
  { db with archivedCommits := db.archivedCommits.deleteRepo repoId }

def dropArchivedFsObjects (db : LibraryDb) (repoId : String) : LibraryDb :=
  { db with archivedFsObjects := db.archivedFsObjects.deleteRepo repoId }

end LibraryDb

/-- An upload that is to be committed: its blocks, the objects of the new tree and the commit. -/
structure LibraryUpload where
  repoId : String
  blocks : List (String × List UInt8)
  objects : List (String × FsObjectColumns)
  commitId : String
  commit : CommitColumns
deriving DecidableEq

/-- A commit that was made HEAD, with the objects that were stored for it. -/
structure MadeHead where
  repoId : String
  commitId : String
  fsIds : List String
deriving DecidableEq

structure OwnersWorld where
  lib : LibraryWorld
  /-- What `AUTOINCREMENT` gives out next. -/
  nextCommit : Nat
  nextFsObject : Nat
  /-- History: what was made HEAD since the library was created or its last deletion completed. -/
  made : List MadeHead
  /-- History: the HEAD of a library in the trash when its deletion completed. -/
  deletedHead : List (String × Option String)

inductive OwnerCall where
  /-- `create_repo`, `delete_repo` and `restore_deleted_repo`, up to the end of the archive. -/
  | library (call : LibraryCall)
  | droppingObjects (trashed : DeletedRepoRow)
  | uploading (upload : LibraryUpload)
  | storing (upload : LibraryUpload) (rest : List (String × List UInt8)) (call : LibraryCall)
  | insertingObjects (upload : LibraryUpload) (rest : List (String × FsObjectColumns))
  | readingHead (upload : LibraryUpload)
  | insertingCommit (upload : LibraryUpload) (parent : Option String)
  | movingHead (upload : LibraryUpload) (parent : Option String)
  | purging (repoId : String)
  | purgingCommits (trashed : DeletedRepoRow)
  | purgingObjects (trashed : DeletedRepoRow)
  | purgingEntry (trashed : DeletedRepoRow)
  | clearing (repoId : String)
  | done
deriving DecidableEq

namespace OwnersWorld

def withDb (world : OwnersWorld) (db : LibraryDb) : OwnersWorld :=
  { world with lib := { world.lib with db := db } }

def note (world : OwnersWorld) (fails : Bool) (call' : LibraryCall) :
    LibraryCall → OwnersWorld
  | .creating id _ _ _ _ =>
    match call' with
    | .joiningCreator _ _ =>
      { world with
        made := world.made.filter fun entry => entry.repoId ≠ id
        deletedHead := world.deletedHead.filter fun entry => entry.1 ≠ id }
    | _ => world
  | .archiving repoId =>
    if fails then world
    else
      { world with
        made := world.made.filter fun entry => entry.repoId ≠ repoId
        deletedHead := (repoId, (world.lib.db.findRepo repoId).bind RepoRow.headCommitId) ::
          world.deletedHead.filter fun entry => entry.1 ≠ repoId }
  | .untrashing trashed =>
    if fails then world
    else { world with
      deletedHead := world.deletedHead.filter fun entry => entry.1 ≠ trashed.repoId }
  | _ => world

end OwnersWorld

def storeNext (upload : LibraryUpload) : List (String × List UInt8) → OwnerCall
  | [] => .insertingObjects upload upload.objects
  | (id, data) :: rest =>
    .storing upload ((id, data) :: rest) (.authorizing upload.repoId id data)

/-- A step of `create_repo`, `delete_repo` or `restore_deleted_repo`. -/
def ownLibraryStep (tick : LibraryTick) (world : OwnersWorld) (call : LibraryCall) :
    Option (OwnersWorld × OwnerCall) :=
  match call with
  | .dropping trashed =>
    some (if tick.fails then (world, .done)
      else (world.withDb (world.lib.db.dropArchivedCommits trashed.repoId),
        .droppingObjects trashed))
  | _ =>
    (libraryStep tick world.lib call).map fun (lib, call') =>
      ({ world.note tick.fails call' call with lib := lib }, .library call')

/-- The committed upload of a file.  A block is stored when its write leaves the length in the
cache, and a commit with the tree of the head is not made. -/
def commitUploadStep (user : Int) (tick : LibraryTick) (world : OwnersWorld) :
    OwnerCall → Option (OwnersWorld × OwnerCall)
  | .uploading upload =>
    some (world, if world.lib.db.canWrite upload.repoId user then storeNext upload upload.blocks
      else .done)
  | .storing upload rest call =>
    (writeStep tick world.lib call).map fun (lib, call') =>
      ({ world with lib := lib },
        match call', rest with
        | .done, [] => .done
        | .done, (id, data) :: rest =>
          if lib.cachedLen upload.repoId id = some data.length then storeNext upload rest
          else .done
        | call', _ => .storing upload rest call')
  | .insertingObjects upload [] => some (world, .readingHead upload)
  | .insertingObjects upload ((fsId, object) :: rest) =>
    some (match if tick.fails then none
        else world.lib.db.insertFsObject ⟨world.nextFsObject, upload.repoId, fsId, object⟩ with
      | none => (world, .done)
      | some db => ({ world.withDb db with nextFsObject := world.nextFsObject + 1 },
          .insertingObjects upload rest))
  | .readingHead upload =>
    some (world, if tick.fails then .done
      else
        let parent := (world.lib.db.findRepo upload.repoId).bind RepoRow.headCommitId
        let tree := parent.bind fun head =>
          (world.lib.db.commits.find upload.repoId head).map fun row => row.columns.rootId
        if tree = some upload.commit.rootId then .done else .insertingCommit upload parent)
  | .insertingCommit upload parent =>
    some (match if tick.fails then none
        else world.lib.db.insertCommit ⟨world.nextCommit, upload.repoId, upload.commitId,
          { upload.commit with parentId := parent }⟩ with
      | none => (world, .done)
      | some db => ({ world.withDb db with nextCommit := world.nextCommit + 1 },
          .movingHead upload parent))
  | .movingHead upload parent =>
    some (if tick.fails then (world, .done)
      else match world.lib.db.findRepo upload.repoId with
        | none => (world, .done)
        | some row =>
          if row.headCommitId ≠ parent then (world, .done)
          else
            ({ world.withDb (world.lib.db.updateHeadCommit upload.repoId
                (some upload.commitId) upload.commit.ctime tick.now) with
              made := ⟨upload.repoId, upload.commitId, upload.objects.map Prod.fst⟩ ::
                world.made }, .done))
  | _ => none

def purgeStep (user : Int) (tick : LibraryTick) (world : OwnersWorld) :
    OwnerCall → Option (OwnersWorld × OwnerCall)
  | .purging repoId =>
    some (world, match world.lib.db.findDeleted repoId with
      | none => .done
      | some trashed => if trashed.ownerId ≠ user then .done else .purgingCommits trashed)
  | .purgingCommits trashed =>
    some (if tick.fails then (world, .done)
      else (world.withDb (world.lib.db.dropArchivedCommits trashed.repoId),
        .purgingObjects trashed))
  | .purgingObjects trashed =>
    some (if tick.fails then (world, .done)
      else (world.withDb (world.lib.db.dropArchivedFsObjects trashed.repoId),
        .purgingEntry trashed))
  | .purgingEntry trashed =>
    some (if tick.fails then (world, .done)
      else ({ world.withDb (world.lib.db.deleteDeleted trashed.repoId) with
        deletedHead := world.deletedHead.filter fun entry => entry.1 ≠ trashed.repoId },
        .clearing trashed.repoId))
  | .clearing repoId =>
    some (if tick.fails then (world, .done)
      else match tick.pick with
        | some id =>
          ({ world with lib := { world.lib with
            files := BlockTree.unlink world.lib.files repoId id } }, .clearing repoId)
        | none =>
          (if world.lib.files.any fun file => file.repoId = repoId then world
            else { world with lib := { world.lib with
              dirs := world.lib.dirs.filter fun other => other ≠ repoId } }, .done))
  | _ => none

def ownerStep (user : Int) (tick : LibraryTick) (world : OwnersWorld) (call : OwnerCall) :
    Option (OwnersWorld × OwnerCall) :=
  match call with
  | .library call => ownLibraryStep tick world call
  | .droppingObjects trashed =>
    some (if tick.fails then (world, .done)
      else (world.withDb (world.lib.db.dropArchivedFsObjects trashed.repoId),
        .library (.untrashing trashed)))
  | .uploading _ | .storing _ _ _ | .insertingObjects _ _ | .readingHead _ | .insertingCommit _ _
  | .movingHead _ _ => commitUploadStep user tick world call
  | .purging _ | .purgingCommits _ | .purgingObjects _ | .purgingEntry _ | .clearing _ =>
    purgeStep user tick world call
  | .done => none

inductive OwnerJob where
  | create (id name description : String) (keys : KeyColumns)
  | upload (file : LibraryUpload)
  | delete (repoId : String)
  | restore (repoId : String)
  | purge (repoId : String)

def OwnerJob.begin (user : Int) : OwnerJob → OwnerCall
  | .create id name description keys => .library (.creating id name description user keys)
  | .upload file => .uploading file
  | .delete repoId => .library (.deleting repoId user)
  | .restore repoId => .library (.restoring repoId user)
  | .purge repoId => .purging repoId

structure OwnersState where
  world : OwnersWorld
  user : Int
  call : OwnerCall

/-- A call begins, wherever the one before has stopped, or goes on.  Beside the calls a library is
shared with a user, and a cached length is dropped. -/
inductive OwnerAction where
  | start (user : Int) (job : OwnerJob)
  | go (tick : LibraryTick)
  | share (member : MemberRow)
  | forget (repoId id : String)

def emptyLibraries : OwnersWorld where
  lib := ⟨⟨[], .empty, .empty, .empty, .empty, [], []⟩, [], [], [], [], []⟩
  nextCommit := 1
  nextFsObject := 1
  made := []
  deletedHead := []

def owners : System OwnersState OwnerAction where
  init state := state.world = emptyLibraries ∧ state.call = .done
  step state
    | .start user job => some { state with user := user, call := job.begin user }
    | .go tick => (ownerStep state.user tick state.world state.call).map fun (world, call) =>
      { state with world := world, call := call }
    | .share member => some { state with world := state.world.withDb { state.world.lib.db with
        members := state.world.lib.db.members ++ [member] } }
    | .forget repoId id => some { state with world := { state.world with
        lib := libraryProgram.serve (.forget repoId id) state.world.lib } }

end Nanofile
