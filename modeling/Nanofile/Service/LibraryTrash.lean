import Mathlib.Data.List.Nodup
import Nanofile.Base.Common

/-!
# The trash of libraries

Deleting a library copies its commits and fs objects into archive tables and removes its
rows; restoring rebuilds the library row from the small record in `deleted_repos` and
copies the content back.
-/

set_option autoImplicit false

namespace Nanofile

/-- A row of `commits` or `fs_objects`, with its primary key and its unique index. -/
structure ContentRow (Columns : Type) where
  id : Nat
  repoId : String
  objectId : String
  columns : Columns
deriving DecidableEq, Repr

structure CommitColumns where
  rootId : String
  parentId : Option String
  secondParentId : Option String
  creatorName : String
  creator : String
  description : String
  ctime : Int
  version : Int
  newMerge : Option Bool
  conflict : Option Bool
deriving DecidableEq, Repr

structure FsObjectColumns where
  objType : Int
  data : String
deriving DecidableEq, Repr

def ContentRow.Conflicts {Columns : Type} (row other : ContentRow Columns) : Prop :=
  row.id = other.id ∨ (row.repoId = other.repoId ∧ row.objectId = other.objectId)

instance {Columns : Type} (row other : ContentRow Columns) : Decidable (row.Conflicts other) :=
  inferInstanceAs (Decidable (_ ∨ _))

structure ContentTable (Columns : Type) where
  rows : List (ContentRow Columns)
  unique : rows.Pairwise fun row other => ¬ row.Conflicts other

namespace ContentTable

variable {Columns : Type}

def empty : ContentTable Columns := ⟨[], .nil⟩

def ofRepo (table : ContentTable Columns) (repoId : String) : List (ContentRow Columns) :=
  table.rows.filter fun row => row.repoId = repoId

def find (table : ContentTable Columns) (repoId objectId : String) :
    Option (ContentRow Columns) :=
  table.rows.find? fun row => row.repoId = repoId ∧ row.objectId = objectId

def deleteRepo (table : ContentTable Columns) (repoId : String) : ContentTable Columns where
  rows := table.rows.filter fun row => row.repoId ≠ repoId
  unique := table.unique.sublist List.filter_sublist

def insertOrReplace (table : ContentTable Columns) (row : ContentRow Columns) :
    ContentTable Columns where
  rows := (table.rows.filter fun other => ¬ other.Conflicts row) ++ [row]
  unique := by
    refine List.pairwise_append.mpr
      ⟨table.unique.sublist List.filter_sublist, List.pairwise_singleton _ _, ?_⟩
    intro other listed new isNew
    rw [List.mem_singleton.mp isNew]
    simpa using (List.mem_filter.mp listed).2

/-- `copy_sql`: every column is copied, so a row is copied as it is. -/
def copyRepo (target source : ContentTable Columns) (repoId : String) : ContentTable Columns :=
  (source.ofRepo repoId).foldl insertOrReplace target

end ContentTable

structure KeyColumns where
  encrypted : Int
  encVersion : Int
  magic : Option String
  randomKey : Option String
  salt : String
  pwdHash : Option String
  pwdHashAlgo : Option String
  pwdHashParams : Option String
deriving DecidableEq, Repr

def KeyColumns.none : KeyColumns := ⟨0, 0, .none, .none, "", .none, .none, .none⟩

structure RepoRow where
  id : String
  name : String
  description : String
  ownerId : Int
  keys : KeyColumns
  headCommitId : Option String
  permission : String
  createdAt : Int
  updatedAt : Int
  size : Int
  repoVersion : Int
  historyLimit : Int
  historyTtlDays : Int
  type : String
deriving DecidableEq, Repr

structure DeletedRepoRow where
  repoId : String
  repoName : String
  headId : Option String
  ownerId : Int
  size : Int
  delTime : Int
deriving DecidableEq, Repr

structure MemberRow where
  id : Nat
  repoId : String
  userId : Int
  permission : String
  createdAt : Int
deriving DecidableEq, Repr

/-- `create_member` leaves the id to the database, which counts from 1. -/
def newMember (members : List MemberRow) (repoId : String) (userId createdAt : Int) : MemberRow :=
  ⟨(members.map MemberRow.id).foldl max 0 + 1, repoId, userId, "rw", createdAt⟩

structure LibraryDb where
  repos : List RepoRow
  commits : ContentTable CommitColumns
  fsObjects : ContentTable FsObjectColumns
  archivedCommits : ContentTable CommitColumns
  archivedFsObjects : ContentTable FsObjectColumns
  deletedRepos : List DeletedRepoRow
  members : List MemberRow

namespace LibraryDb

def findRepo (db : LibraryDb) (repoId : String) : Option RepoRow :=
  db.repos.find? fun row => row.id = repoId

def findDeleted (db : LibraryDb) (repoId : String) : Option DeletedRepoRow :=
  db.deletedRepos.find? fun row => row.repoId = repoId

/-- `update_head_commit`; a zero time is replaced with the current one. -/
def updateHeadCommit (db : LibraryDb) (repoId : String) (head : Option String)
    (updatedAt now : Int) : LibraryDb :=
  { db with
    repos := db.repos.map fun row =>
      if row.id = repoId then
        { row with headCommitId := head, updatedAt := if updatedAt = 0 then now else updatedAt }
      else row }

def dropArchive (db : LibraryDb) (repoId : String) : LibraryDb :=
  { db with
    archivedCommits := db.archivedCommits.deleteRepo repoId
    archivedFsObjects := db.archivedFsObjects.deleteRepo repoId }

def copyTo (db : LibraryDb) (repoId : String) : LibraryDb :=
  let dropped := db.dropArchive repoId
  { dropped with
    archivedCommits := dropped.archivedCommits.copyRepo db.commits repoId
    archivedFsObjects := dropped.archivedFsObjects.copyRepo db.fsObjects repoId }

def copyFrom (db : LibraryDb) (repoId : String) : LibraryDb :=
  { db with
    commits := db.commits.copyRepo db.archivedCommits repoId
    fsObjects := db.fsObjects.copyRepo db.archivedFsObjects repoId }

def archiveAndDelete (db : LibraryDb) (repoId : String) : LibraryDb :=
  let archived := db.copyTo repoId
  { archived with
    commits := archived.commits.deleteRepo repoId
    fsObjects := archived.fsObjects.deleteRepo repoId
    members := archived.members.filter fun row => row.repoId ≠ repoId
    repos := archived.repos.filter fun row => row.id ≠ repoId }

/-- What `add_deleted_repo` records of a library. -/
def trashEntry (row : RepoRow) (now : Int) : DeletedRepoRow :=
  ⟨row.id, row.name, row.headCommitId, row.ownerId, row.size, now⟩

/-- `add_deleted_repo`: an entry that is already there stays. -/
def addDeletedRepo (db : LibraryDb) (row : RepoRow) (now : Int) : LibraryDb :=
  match db.findDeleted row.id with
  | some _ => db
  | none => { db with deletedRepos := db.deletedRepos ++ [trashEntry row now] }

def deleteRepo (db : LibraryDb) (repoId : String) (userId now : Int) :
    Except AppError LibraryDb :=
  match db.findRepo repoId with
  | none => .error (.notFound "repo not found")
  | some row =>
    if row.ownerId ≠ userId then .error .forbidden
    else .ok ((db.addDeletedRepo row now).archiveAndDelete repoId)

def missingTrashEntry : String := "Library does not exist in trash."

def restoredRow (trashed : DeletedRepoRow) (now : Int) : RepoRow where
  id := trashed.repoId
  name := trashed.repoName
  description := ""
  ownerId := trashed.ownerId
  keys := .none
  headCommitId := .none
  permission := "rw"
  createdAt := now
  updatedAt := now
  size := trashed.size
  repoVersion := 1
  historyLimit := 0
  historyTtlDays := 0
  type := "repo"

def insertRestored (db : LibraryDb) (trashed : DeletedRepoRow) (now : Int) : LibraryDb :=
  match db.findRepo trashed.repoId with
  | some _ => db
  | none => { db with repos := db.repos ++ [restoredRow trashed now] }

/-- The recorded head is set when its commit came back with the archive. -/
def restoreHead (db : LibraryDb) (trashed : DeletedRepoRow) (now : Int) : LibraryDb :=
  match trashed.headId with
  | none => db
  | some head =>
    match db.commits.find trashed.repoId head with
    | none => db
    | some commit =>
      db.updateHeadCommit trashed.repoId (some head) commit.columns.ctime now

/-- The owner's row is inserted with the id 0, which can be had once. -/
def restoreMember (db : LibraryDb) (trashed : DeletedRepoRow) (now : Int) : Option LibraryDb :=
  if ∃ row ∈ db.members, row.repoId = trashed.repoId ∧ row.userId = trashed.ownerId then some db
  else if ∃ row ∈ db.members, row.id = 0 then none
  else some { db with
    members := db.members ++ [⟨0, trashed.repoId, trashed.ownerId, "rw", now⟩] }

/-- What the database says of a second row with one primary key. -/
def memberIdTaken : String := "UNIQUE constraint failed: repo_members.id"

def restoreDeletedRepo (db : LibraryDb) (repoId : String) (userId now : Int) :
    Except AppError LibraryDb :=
  match db.findDeleted repoId with
  | none => .error (.badRequest missingTrashEntry)
  | some trashed =>
    if trashed.ownerId ≠ userId then .error .forbidden
    else
      let inserted := db.insertRestored trashed now
      let headed := (inserted.copyFrom trashed.repoId).restoreHead trashed now
      match headed.restoreMember trashed now with
      | none => .error (.internal memberIdTaken)
      | some joined =>
        let dropped := joined.dropArchive trashed.repoId
        .ok { dropped with
          deletedRepos := dropped.deletedRepos.filter fun row => row.repoId ≠ repoId }

end LibraryDb

end Nanofile
