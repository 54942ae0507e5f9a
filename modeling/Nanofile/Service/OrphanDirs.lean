import Nanofile.Lib.Threads
import Nanofile.Service.LibraryTrash
import Nanofile.Storage.BlockTree

/-!
# The sweep of block directories beside the calls on libraries

A sweep lists the block directories, looks up each id in two tables, one after the other, and
removes the directory of an id that is in neither.  Deletions, restores, creations and block
writes run beside it, and each access of a table or of the disk is a step of its own.
-/

set_option autoImplicit false

namespace Nanofile

open Nanofile.Lib

structure LibraryWorld where
  db : LibraryDb
  /-- The directories that have their marker. -/
  dirs : List String
  files : List BlockFile
  /-- What the process remembers: directories it has made, lengths of blocks it has seen. -/
  prepared : List String
  existsCache : List (String × String × Nat)
  /-- History: the blocks that libraries had or whose writes have succeeded. -/
  kept : List (String × String)

namespace LibraryDb

def Live (db : LibraryDb) (repoId : String) : Prop := (db.findRepo repoId).isSome = true

def InTrash (db : LibraryDb) (repoId : String) : Prop := (db.findDeleted repoId).isSome = true

def Known (db : LibraryDb) (repoId : String) : Prop := db.Live repoId ∨ db.InTrash repoId

def createdRow (id name description : String) (ownerId : Int) (keys : KeyColumns) (now : Int) :
    RepoRow where
  id := id
  name := name
  description := description
  ownerId := ownerId
  keys := keys
  headCommitId := none
  permission := "rw"
  createdAt := now
  updatedAt := now
  size := 0
  repoVersion := 1
  historyLimit := 0
  historyTtlDays := 0
  type := "repo"

def insertRepo (db : LibraryDb) (row : RepoRow) : Option LibraryDb :=
  match db.findRepo row.id with
  | some _ => none
  | none => some { db with repos := db.repos ++ [row] }

def insertDeleted (db : LibraryDb) (row : DeletedRepoRow) : Option LibraryDb :=
  match db.findDeleted row.repoId with
  | some _ => none
  | none => some { db with deletedRepos := db.deletedRepos ++ [row] }

/-- Content belongs to a row of `repos`, and its insert fails without one. -/
def copyFromChecked (db : LibraryDb) (repoId : String) : Option LibraryDb :=
  if (db.findRepo repoId).isNone ∧ (db.archivedCommits.ofRepo repoId ≠ [] ∨
      db.archivedFsObjects.ofRepo repoId ≠ []) then none
  else some (db.copyFrom repoId)

def restoreMemberChecked (db : LibraryDb) (trashed : DeletedRepoRow) (now : Int) :
    Option LibraryDb :=
  if (db.findRepo trashed.repoId).isNone ∧ ¬ ∃ row ∈ db.members, row.repoId = trashed.repoId ∧
      row.userId = trashed.ownerId then none
  else db.restoreMember trashed now

def deleteDeleted (db : LibraryDb) (repoId : String) : LibraryDb :=
  { db with deletedRepos := db.deletedRepos.filter fun row => row.repoId ≠ repoId }

end LibraryDb

namespace LibraryWorld

def cachedLen (world : LibraryWorld) (repoId id : String) : Option Nat :=
  (world.existsCache.find? fun entry => entry.1 = repoId ∧ entry.2.1 = id).map fun entry => entry.2.2

def cacheInsert (world : LibraryWorld) (repoId id : String) (length : Nat) : LibraryWorld :=
  { world with
    existsCache := (repoId, id, length) :: world.existsCache.filter fun entry =>
      ¬ (entry.1 = repoId ∧ entry.2.1 = id) }

/-- History of a write that has been reported as successful. -/
def succeed (world : LibraryWorld) (repoId id : String) : LibraryWorld :=
  { world with kept := (repoId, id) :: world.kept }

end LibraryWorld

inductive LibraryCall where
  | sweeping
  | checking (dirs : List String)
  | checkingTrash (repoId : String) (dirs : List String)
  | removing (repoId : String) (dirs : List String)
  | deleting (repoId : String) (userId : Int)
  | trashing (row : RepoRow)
  | insertingTrash (row : RepoRow)
  | archiving (repoId : String)
  | restoring (repoId : String) (userId : Int)
  | findingRepo (trashed : DeletedRepoRow)
  | creatingRepo (trashed : DeletedRepoRow)
  | copying (trashed : DeletedRepoRow)
  | heading (trashed : DeletedRepoRow)
  | joining (trashed : DeletedRepoRow)
  | dropping (trashed : DeletedRepoRow)
  | untrashing (trashed : DeletedRepoRow)
  | creating (id name description : String) (ownerId : Int) (keys : KeyColumns)
  | joiningCreator (id : String) (ownerId : Int)
  | authorizing (repoId id : String) (data : List UInt8)
  | probing (repoId id : String) (data : List UInt8)
  | statting (repoId id : String) (data : List UInt8)
  | preparing (repoId id : String) (data : List UInt8) (exclusive : Bool)
  | publishing (repoId id : String) (data : List UInt8) (exclusive : Bool)
  | done
deriving DecidableEq

/-- What a step meets: the clock, whether the database or the disk fails, and which file a removal
takes next. -/
structure LibraryTick where
  now : Int
  fails : Bool
  pick : Option String

inductive LibraryJob where
  | sweep
  | delete (repoId : String) (userId : Int)
  | restore (repoId : String) (userId : Int)
  | create (id name description : String) (ownerId : Int) (keys : KeyColumns)
  | write (repoId id : String) (data : List UInt8)

/-- The cached length of a block is dropped: expired or evicted. -/
inductive LibraryRequest where
  | forget (repoId id : String)

/-- `sweep_orphan_repo_dirs`; `remove_dir_all` takes the files one by one and the directory when
it is empty. -/
def sweepStep (tick : LibraryTick) (world : LibraryWorld) :
    LibraryCall → Option (LibraryWorld × LibraryCall)
  | .sweeping => some (world, if tick.fails then .done else .checking world.dirs)
  | .checking [] => some (world, .done)
  | .checking (repoId :: dirs) =>
    some (world, if tick.fails then .done
      else match world.db.findRepo repoId with
        | some _ => .checking dirs
        | none => .checkingTrash repoId dirs)
  | .checkingTrash repoId dirs =>
    some (world, if tick.fails then .done
      else match world.db.findDeleted repoId with
        | some _ => .checking dirs
        | none => .removing repoId dirs)
  | .removing repoId dirs =>
    if tick.fails then some (world, .checking dirs)
    else match tick.pick with
      | some id =>
        some ({ world with files := BlockTree.unlink world.files repoId id },
          .removing repoId dirs)
      | none =>
        some (if world.files.any fun file => file.repoId = repoId then world
          else { world with dirs := world.dirs.filter fun other => other ≠ repoId },
          .checking dirs)
  | _ => none

def deleteStep (tick : LibraryTick) (world : LibraryWorld) :
    LibraryCall → Option (LibraryWorld × LibraryCall)
  | .deleting repoId userId =>
    some (world, match world.db.findRepo repoId with
      | none => .done
      | some row => if row.ownerId ≠ userId then .done else .trashing row)
  | .trashing row =>
    some (world, if tick.fails then .done
      else match world.db.findDeleted row.id with
        | some _ => .archiving row.id
        | none => .insertingTrash row)
  | .insertingTrash row =>
    some (match if tick.fails then none
        else world.db.insertDeleted (LibraryDb.trashEntry row tick.now) with
      | none => (world, .done)
      | some db => ({ world with db := db }, .archiving row.id))
  | .archiving repoId =>
    some (if tick.fails then world else { world with db := world.db.archiveAndDelete repoId },
      .done)
  | _ => none

def restoreStep (tick : LibraryTick) (world : LibraryWorld) :
    LibraryCall → Option (LibraryWorld × LibraryCall)
  | .restoring repoId userId =>
    some (world, match world.db.findDeleted repoId with
      | none => .done
      | some trashed => if trashed.ownerId ≠ userId then .done else .findingRepo trashed)
  | .findingRepo trashed =>
    some (world, if tick.fails then .done
      else match world.db.findRepo trashed.repoId with
        | some _ => .copying trashed
        | none => .creatingRepo trashed)
  | .creatingRepo trashed =>
    some (match if tick.fails then none
        else world.db.insertRepo (LibraryDb.restoredRow trashed tick.now) with
      | none => (world, .done)
      | some db => ({ world with db := db }, .copying trashed))
  | .copying trashed =>
    some (match if tick.fails then none else world.db.copyFromChecked trashed.repoId with
      | none => (world, .done)
      | some db => ({ world with db := db }, .heading trashed))
  | .heading trashed =>
    some (if tick.fails then (world, .done)
      else ({ world with db := world.db.restoreHead trashed tick.now }, .joining trashed))
  | .joining trashed =>
    some (match if tick.fails then none
        else world.db.restoreMemberChecked trashed tick.now with
      | none => (world, .done)
      | some db => ({ world with db := db }, .dropping trashed))
  | .dropping trashed =>
    some (if tick.fails then (world, .done)
      else ({ world with db := world.db.dropArchive trashed.repoId }, .untrashing trashed))
  | .untrashing trashed =>
    some (if tick.fails then world
      else { world with db := world.db.deleteDeleted trashed.repoId }, .done)
  | _ => none

/-- `create_repo`.  A library of a new id has no blocks; one of an id in the trash shares the
directory of the deleted one. -/
def createStep (tick : LibraryTick) (world : LibraryWorld) :
    LibraryCall → Option (LibraryWorld × LibraryCall)
  | .creating id name description ownerId keys =>
    some (match if tick.fails then none
        else world.db.insertRepo
          (LibraryDb.createdRow id name description ownerId keys tick.now) with
      | none => (world, .done)
      | some db =>
        ({ world with
          db := db
          kept := if (world.db.findDeleted id).isSome then world.kept
            else world.kept.filter fun entry => entry.1 ≠ id }, .joiningCreator id ownerId))
  | .joiningCreator id ownerId =>
    some (if tick.fails ∨ (world.db.findRepo id).isNone then world
      else { world with db := { world.db with
        members := world.db.members ++ [newMember world.db.members id ownerId tick.now] } }, .done)
  | _ => none

/-- `write_block_with_id` of a request for a live library. -/
def writeStep (tick : LibraryTick) (world : LibraryWorld) :
    LibraryCall → Option (LibraryWorld × LibraryCall)
  | .authorizing repoId id data =>
    some (world, match world.db.findRepo repoId with
      | none => .done
      | some _ => .probing repoId id data)
  | .probing repoId id data =>
    some (if world.cachedLen repoId id = some data.length then (world.succeed repoId id, .done)
      else (world, .statting repoId id data))
  | .statting repoId id data =>
    some (match BlockTree.findBlock world.files repoId id with
      | none => (world, .preparing repoId id data true)
      | some file =>
        if file.data.length = data.length then
          ((world.cacheInsert repoId id data.length).succeed repoId id, .done)
        else (world, .preparing repoId id data false))
  | .preparing repoId id data exclusive =>
    some (if tick.fails then (world, .done)
      else (if world.prepared.contains repoId then world
        else { world with
          dirs := if world.dirs.contains repoId then world.dirs else world.dirs ++ [repoId]
          prepared := repoId :: world.prepared }, .publishing repoId id data exclusive))
  | .publishing repoId id data exclusive =>
    some (if tick.fails ∨ ¬ world.dirs.contains repoId then (world, .done)
      else
        let files := if exclusive ∧ BlockTree.HasBlock world.files repoId id then world.files
          else BlockTree.put world.files ⟨repoId, id, data⟩
        ((({ world with files := files } : LibraryWorld).cacheInsert repoId id
          data.length).succeed repoId id, .done))
  | _ => none

def libraryStep (tick : LibraryTick) (world : LibraryWorld) (call : LibraryCall) :
    Option (LibraryWorld × LibraryCall) :=
  match call with
  | .sweeping | .checking _ | .checkingTrash _ _ | .removing _ _ => sweepStep tick world call
  | .deleting _ _ | .trashing _ | .insertingTrash _ | .archiving _ => deleteStep tick world call
  | .restoring _ _ | .findingRepo _ | .creatingRepo _ | .copying _ | .heading _ | .joining _
  | .dropping _ | .untrashing _ => restoreStep tick world call
  | .creating _ _ _ _ _ | .joiningCreator _ _ => createStep tick world call
  | .authorizing _ _ _ | .probing _ _ _ | .statting _ _ _ | .preparing _ _ _ _
  | .publishing _ _ _ _ => writeStep tick world call
  | .done => none

def libraryProgram :
    Program LibraryWorld LibraryCall LibraryRequest LibraryJob LibraryTick where
  serve
    | .forget repoId id, world =>
      { world with existsCache := world.existsCache.filter fun entry =>
        ¬ (entry.1 = repoId ∧ entry.2.1 = id) }
  begin
    | .sweep => .sweeping
    | .delete repoId userId => .deleting repoId userId
    | .restore repoId userId => .restoring repoId userId
    | .create id name description ownerId keys => .creating id name description ownerId keys
    | .write repoId id data => .authorizing repoId id data
  advance := libraryStep

end Nanofile
