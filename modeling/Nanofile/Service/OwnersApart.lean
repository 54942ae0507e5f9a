import Nanofile.Service.ContentIds
import Nanofile.Service.OrphanSweep

/-!
# Live and trashed libraries beside each other

A statement changes the rows of one library.  The row of a library, its trash entry, its archive
and its blocks are found by an id that a client may choose, and no call looks at all of them.
They stay in step when no id in the trash is created anew, a trash entry that a deletion finds is
of the head it deletes, a purge meets no live library, and a restore finds the commit of the
recorded head.
-/

set_option autoImplicit false

namespace Nanofile

open Nanofile.Lib

namespace LibraryDb

variable {db db' : LibraryDb} {repoId other : String} {now : Int}

structure SameRows (repoId : String) (db db' : LibraryDb) : Prop where
  repo : db'.findRepo repoId = db.findRepo repoId
  trashed : db'.findDeleted repoId = db.findDeleted repoId
  commits : db'.commits.ofRepo repoId = db.commits.ofRepo repoId
  fsObjects : db'.fsObjects.ofRepo repoId = db.fsObjects.ofRepo repoId
  archivedCommits : db'.archivedCommits.ofRepo repoId = db.archivedCommits.ofRepo repoId
  archivedFsObjects : db'.archivedFsObjects.ofRepo repoId = db.archivedFsObjects.ofRepo repoId

theorem SameRows.refl (repoId : String) (db : LibraryDb) : SameRows repoId db db :=
  ⟨rfl, rfl, rfl, rfl, rfl, rfl⟩

/-- Primary keys of both kinds of rows are of one object. -/
structure ContentAgrees (db : LibraryDb) : Prop where
  commits : ContentTable.IdsAgree db.commits db.archivedCommits
  fsObjects : ContentTable.IdsAgree db.fsObjects db.archivedFsObjects

theorem insertRepo_eq {row : RepoRow} (inserted : db.insertRepo row = some db') :
    db.findRepo row.id = none ∧ db' = { db with repos := db.repos ++ [row] } := by
  unfold insertRepo at inserted
  split at inserted
  · cases inserted
  · rename_i absent
    cases inserted
    exact ⟨absent, rfl⟩

theorem insertDeleted_eq {row : DeletedRepoRow} (inserted : db.insertDeleted row = some db') :
    db.findDeleted row.repoId = none ∧ db' = { db with deletedRepos := db.deletedRepos ++ [row] } := by
  unfold insertDeleted at inserted
  split at inserted
  · cases inserted
  · rename_i absent
    cases inserted
    exact ⟨absent, rfl⟩

theorem copyFromChecked_eq (copied : db.copyFromChecked repoId = some db') :
    db' = db.copyFrom repoId := by
  unfold copyFromChecked at copied
  split at copied
  · cases copied
  · exact (Option.some.inj copied).symm

theorem restoreMemberChecked_eq {trashed : DeletedRepoRow}
    (joined : db.restoreMemberChecked trashed now = some db') :
    ∃ members, db' = { db with members := members } := by
  unfold restoreMemberChecked at joined
  split at joined
  · cases joined
  · unfold restoreMember at joined
    split at joined
    · exact ⟨db.members, (Option.some.inj joined).symm⟩
    · split at joined
      · cases joined
      · exact ⟨_, (Option.some.inj joined).symm⟩

theorem restoreHead_eq (db : LibraryDb) (trashed : DeletedRepoRow) (now : Int) :
    db.restoreHead trashed now = db ∨ ∃ head commit, trashed.headId = some head ∧
      db.commits.find trashed.repoId head = some commit ∧ db.restoreHead trashed now =
        db.updateHeadCommit trashed.repoId (some head) commit.columns.ctime now := by
  unfold restoreHead
  split
  · exact Or.inl rfl
  · rename_i head recorded
    split
    · exact Or.inl rfl
    · rename_i commit found
      exact Or.inr ⟨head, commit, recorded, found, rfl⟩

theorem insertCommit_eq {row : ContentRow CommitColumns}
    (inserted : db.insertCommit row = some db') : ∃ commits,
      db.commits.insert row = some commits ∧ db' = { db with commits := commits } := by
  unfold insertCommit at inserted
  split at inserted
  · cases inserted
  · obtain ⟨commits, isInsert, rfl⟩ := Option.map_eq_some_iff.mp inserted
    exact ⟨commits, isInsert, rfl⟩

variable {row : ContentRow FsObjectColumns}

theorem insertFsObject_eq
    (inserted : db.insertFsObject row = some db') :
    (db' = db ∧ (db.fsObjects.find row.repoId row.objectId).isSome = true) ∨ ∃ fsObjects,
      db.fsObjects.insert row = some fsObjects ∧ db' = { db with fsObjects := fsObjects } := by
  unfold insertFsObject at inserted
  split at inserted
  · cases inserted
  · split at inserted
    · rename_i present found
      cases inserted
      exact Or.inl ⟨rfl, by rw [found]; rfl⟩
    · obtain ⟨fsObjects, isInsert, rfl⟩ := Option.map_eq_some_iff.mp inserted
      exact Or.inr ⟨fsObjects, isInsert, rfl⟩

theorem insertRepo_other {row : RepoRow} (inserted : db.insertRepo row = some db')
    (apart : other ≠ row.id) : SameRows other db db' := by
  rw [(insertRepo_eq inserted).2]
  exact { SameRows.refl other db with
    repo := find?_concat_of_ne RepoRow.id db.repos apart }

theorem insertDeleted_other {row : DeletedRepoRow} (inserted : db.insertDeleted row = some db')
    (apart : other ≠ row.repoId) : SameRows other db db' := by
  rw [(insertDeleted_eq inserted).2]
  exact { SameRows.refl other db with
    trashed := find?_concat_of_ne DeletedRepoRow.repoId db.deletedRepos apart }

theorem deleteDeleted_other (apart : other ≠ repoId) :
    SameRows other db (db.deleteDeleted repoId) :=
  { SameRows.refl other db with
    trashed := find?_filter_ne_of_ne DeletedRepoRow.repoId db.deletedRepos apart }

theorem dropArchivedCommits_other (apart : other ≠ repoId) :
    SameRows other db (db.dropArchivedCommits repoId) :=
  { SameRows.refl other db with
    archivedCommits := ContentTable.ofRepo_deleteRepo_of_ne apart }

theorem dropArchivedFsObjects_other (apart : other ≠ repoId) :
    SameRows other db (db.dropArchivedFsObjects repoId) :=
  { SameRows.refl other db with
    archivedFsObjects := ContentTable.ofRepo_deleteRepo_of_ne apart }

theorem archiveAndDelete_other (agrees : ContentAgrees db) (apart : other ≠ repoId) :
    SameRows other db (db.archiveAndDelete repoId) where
  repo := find?_filter_ne_of_ne RepoRow.id db.repos apart
  trashed := rfl
  commits := ContentTable.ofRepo_deleteRepo_of_ne apart
  fsObjects := ContentTable.ofRepo_deleteRepo_of_ne apart
  archivedCommits := (ContentTable.ofRepo_copyRepo_of_ne agrees.commits.symm.deleteRepo apart).trans
    (ContentTable.ofRepo_deleteRepo_of_ne apart)
  archivedFsObjects :=
    (ContentTable.ofRepo_copyRepo_of_ne agrees.fsObjects.symm.deleteRepo apart).trans
      (ContentTable.ofRepo_deleteRepo_of_ne apart)

theorem copyFrom_other (agrees : ContentAgrees db) (apart : other ≠ repoId) :
    SameRows other db (db.copyFrom repoId) :=
  { SameRows.refl other db with
    commits := ContentTable.ofRepo_copyRepo_of_ne agrees.commits apart
    fsObjects := ContentTable.ofRepo_copyRepo_of_ne agrees.fsObjects apart }

theorem findRepo_updateHeadCommit (head : Option String) (updatedAt : Int) :
    (db.updateHeadCommit repoId head updatedAt now).findRepo other =
      (db.findRepo other).map fun row => if row.id = repoId then
        { row with headCommitId := head, updatedAt := if updatedAt = 0 then now else updatedAt }
        else row := by
  unfold findRepo updateHeadCommit
  rw [List.find?_map]
  congr 2
  funext row
  simp only [Function.comp_apply]
  split <;> rfl

theorem updateHeadCommit_other {head : Option String} {updatedAt : Int} (apart : other ≠ repoId) :
    SameRows other db (db.updateHeadCommit repoId head updatedAt now) := by
  refine { SameRows.refl other db with repo := ?_ }
  rw [findRepo_updateHeadCommit]
  cases found : db.findRepo other with
  | none => rfl
  | some row =>
    have named : row.id = other := by simpa using List.find?_some found
    rw [Option.map_some, if_neg (by rwa [named])]

theorem restoreHead_other {trashed : DeletedRepoRow} (apart : other ≠ trashed.repoId) :
    SameRows other db (db.restoreHead trashed now) := by
  rcases restoreHead_eq db trashed now with same | ⟨head, commit, _, _, moved⟩
  · rw [same]
    exact .refl other db
  · rw [moved]
    exact updateHeadCommit_other apart

theorem insertCommit_other {row : ContentRow CommitColumns}
    (inserted : db.insertCommit row = some db') (apart : other ≠ row.repoId) :
    SameRows other db db' := by
  obtain ⟨commits, isInsert, rfl⟩ := insertCommit_eq inserted
  exact { SameRows.refl other db with
    commits := ContentTable.ofRepo_insert_of_ne isInsert apart }

theorem insertFsObject_other
    (inserted : db.insertFsObject row = some db') (apart : other ≠ row.repoId) :
    SameRows other db db' := by
  rcases insertFsObject_eq inserted with ⟨rfl, _⟩ | ⟨fsObjects, isInsert, rfl⟩
  · exact .refl other db'
  · exact { SameRows.refl other db with
      fsObjects := ContentTable.ofRepo_insert_of_ne isInsert apart }

theorem canWrite_iff {userId : Int} :
    db.canWrite repoId userId = true ↔ db.CanWrite repoId userId := by
  unfold canWrite CanWrite
  cases found : db.findRepo repoId with
  | none => simp
  | some row => simp [and_assoc]

end LibraryDb

/-- Nothing of the library changes: its row with the head, its trash entry, its commits and
objects, archived or not, and its blocks. -/
structure Untouched (repoId : String) (lib lib' : LibraryWorld) : Prop where
  rows : LibraryDb.SameRows repoId lib.db lib'.db
  blocks : ∀ id, BlockTree.findBlock lib'.files repoId id = BlockTree.findBlock lib.files repoId id

def LibraryDb.OwnedBy (db : LibraryDb) (repoId : String) (user : Int) : Prop :=
  (∃ row, db.findRepo repoId = some row ∧ row.ownerId = user) ∨
    ∃ trashed, db.findDeleted repoId = some trashed ∧ trashed.ownerId = user

def OwnerCall.Uploads (repoId : String) : OwnerCall → Prop
  | .storing upload _ _ => upload.repoId = repoId
  | .insertingObjects upload _ => upload.repoId = repoId
  | .insertingCommit upload _ => upload.repoId = repoId
  | .movingHead upload _ => upload.repoId = repoId
  | _ => False

/-- The commit and the objects that were stored for it are there. -/
def MadeHead.Stored (db : LibraryDb) (made : MadeHead) : Prop :=
  (db.commits.find made.repoId made.commitId).isSome = true ∧
    ∀ fsId ∈ made.fsIds, (db.fsObjects.find made.repoId fsId).isSome = true

/-- What the calls of all users owe each other in a state. -/
structure Harmless (guard : OwnersState → OwnerAction → Prop) (state : OwnersState) : Prop where
  /-- A step of one user leaves the libraries of others, but for uploads to shared ones. -/
  others : ∀ action next, guard state action → owners.step state action = some next →
    ∀ repoId owner, state.world.lib.db.OwnedBy repoId owner → owner ≠ state.user →
      Untouched repoId state.world.lib next.world.lib ∨
        (state.call.Uploads repoId ∧ state.world.lib.db.CanWrite repoId state.user)
  /-- A live library has what was made its head, and the blocks that were stored in it. -/
  live : ∀ repoId, state.world.lib.db.Live repoId →
    (∀ made ∈ state.world.made, made.repoId = repoId → made.Stored state.world.lib.db) ∧
      ∀ id, (repoId, id) ∈ state.world.lib.kept → BlockTree.HasBlock state.world.lib.files repoId id
  /-- A restore that ends has brought back the head that the deletion left. -/
  restored : ∀ tick trashed next head, state.call = .library (.untrashing trashed) →
    tick.fails = false → owners.step state (.go tick) = some next →
      (trashed.repoId, head) ∈ state.world.deletedHead →
        ∃ row, next.world.lib.db.findRepo trashed.repoId = some row ∧ row.headCommitId = head

/-- The head that a restore sets: a recorded one has its commit, and where none is recorded the
library has none. -/
def HeadRecorded (db : LibraryDb) (trashed : DeletedRepoRow) : Prop :=
  match trashed.headId with
  | some head => (db.commits.find trashed.repoId head).isSome = true
  | none => ∀ row, db.findRepo trashed.repoId = some row → row.headCommitId = none

def OwnerCallApart (world : OwnersWorld) : OwnerCall → Prop
  | .library (.creating id _ _ _ _) => world.lib.db.Live id ∨ ¬ world.lib.db.InTrash id
  | .library (.trashing row) => ∀ trashed, world.lib.db.findDeleted row.id = some trashed →
      trashed.headId = row.headCommitId
  | .library (.heading trashed) => HeadRecorded world.lib.db trashed
  | .storing _ _ (.probing repoId id data) =>
    world.lib.cachedLen repoId id = some data.length →
      BlockTree.HasBlock world.lib.files repoId id
  | .purging repoId => ¬ world.lib.db.Live repoId
  | _ => True

/-- No library is created with the id of one in the trash; a deletion that finds a trash entry
finds the head in it; a restore finds the commit of the recorded head; a purge meets no live
library; and a cached block is there. -/
def ownersApart (state : OwnersState) : OwnerAction → Prop
  | .go _ => OwnerCallApart state.world state.call
  | _ => True

structure OwnersKept (world : OwnersWorld) : Prop where
  owners : ∀ repoId row trashed, world.lib.db.findRepo repoId = some row →
    world.lib.db.findDeleted repoId = some trashed → row.ownerId = trashed.ownerId
  commits : ContentTable.IdsKept world.lib.db.commits world.lib.db.archivedCommits world.nextCommit
  fsObjects : ContentTable.IdsKept world.lib.db.fsObjects world.lib.db.archivedFsObjects
    world.nextFsObject
  made : ∀ made ∈ world.made, made.Stored world.lib.db
  blocks : KeepsBlocks world.lib
  recorded : ∀ repoId head, (repoId, head) ∈ world.deletedHead →
    ∃ trashed, world.lib.db.findDeleted repoId = some trashed ∧ trashed.headId = head

/-- The user is restoring or purging the library of this entry. -/
def TrashedBy (db : LibraryDb) (user : Int) (trashed : DeletedRepoRow) : Prop :=
  db.findDeleted trashed.repoId = some trashed ∧ trashed.ownerId = user

def HeadBack (db : LibraryDb) (trashed : DeletedRepoRow) : Prop :=
  ∃ row, db.findRepo trashed.repoId = some row ∧ row.headCommitId = trashed.headId

def LibraryCallKept (db : LibraryDb) (user : Int) : LibraryCall → Prop
  | .deleting _ userId => userId = user
  | .trashing row => db.findRepo row.id = some row ∧ row.ownerId = user
  | .insertingTrash row => db.findRepo row.id = some row ∧ row.ownerId = user
  | .archiving repoId => ∃ row trashed, db.findRepo repoId = some row ∧ row.ownerId = user ∧
      db.findDeleted repoId = some trashed ∧ trashed.headId = row.headCommitId
  | .restoring _ userId => userId = user
  | .findingRepo trashed => TrashedBy db user trashed
  | .creatingRepo trashed => TrashedBy db user trashed
  | .copying trashed => TrashedBy db user trashed ∧ db.Live trashed.repoId
  | .heading trashed => TrashedBy db user trashed ∧ db.Live trashed.repoId
  | .joining trashed => TrashedBy db user trashed ∧ HeadBack db trashed
  | .dropping trashed => TrashedBy db user trashed ∧ HeadBack db trashed
  | .untrashing trashed => TrashedBy db user trashed ∧ HeadBack db trashed
  | .creating _ _ _ _ _ => True
  | .joiningCreator _ _ => True
  | .done => True
  | _ => False

def WritesTo (repoId : String) : LibraryCall → Prop
  | .authorizing id _ _ => id = repoId
  | .probing id _ _ => id = repoId
  | .statting id _ _ => id = repoId
  | .preparing id _ _ _ => id = repoId
  | .publishing id _ _ _ => id = repoId
  | _ => False

def ObjectsStored (db : LibraryDb) (upload : LibraryUpload)
    (rest : List (String × FsObjectColumns)) : Prop :=
  ∀ object ∈ upload.objects, object ∈ rest ∨
    (db.fsObjects.find upload.repoId object.1).isSome = true

def OwnerCallKept (db : LibraryDb) (user : Int) : OwnerCall → Prop
  | .library call => LibraryCallKept db user call
  | .droppingObjects trashed => TrashedBy db user trashed ∧ HeadBack db trashed
  | .storing upload _ call => db.CanWrite upload.repoId user ∧ WritesTo upload.repoId call
  | .insertingObjects upload rest => db.CanWrite upload.repoId user ∧ ObjectsStored db upload rest
  | .readingHead upload => db.CanWrite upload.repoId user ∧ ObjectsStored db upload []
  | .insertingCommit upload _ => db.CanWrite upload.repoId user ∧ ObjectsStored db upload []
  | .movingHead upload _ => db.CanWrite upload.repoId user ∧ ObjectsStored db upload [] ∧
      (db.commits.find upload.repoId upload.commitId).isSome = true
  | .purgingCommits trashed => TrashedBy db user trashed ∧ ¬ db.Live trashed.repoId
  | .purgingObjects trashed => TrashedBy db user trashed ∧ ¬ db.Live trashed.repoId
  | .purgingEntry trashed => TrashedBy db user trashed ∧ ¬ db.Live trashed.repoId
  | .clearing repoId => ¬ db.Known repoId
  | .uploading _ => True
  | .purging _ => True
  | .done => True

/-- The library whose rows or blocks the next step may change. -/
def OwnerCall.Touches (db : LibraryDb) (repoId : String) : OwnerCall → Prop
  | .library (.creating id _ _ _ _) => id = repoId ∧ ¬ db.Live id
  | .library (.insertingTrash row) => row.id = repoId
  | .library (.archiving id) => id = repoId
  | .library (.creatingRepo trashed) => trashed.repoId = repoId
  | .library (.copying trashed) => trashed.repoId = repoId
  | .library (.heading trashed) => trashed.repoId = repoId
  | .library (.dropping trashed) => trashed.repoId = repoId
  | .library (.untrashing trashed) => trashed.repoId = repoId
  | .droppingObjects trashed => trashed.repoId = repoId
  | .storing upload _ _ => upload.repoId = repoId
  | .insertingObjects upload _ => upload.repoId = repoId
  | .insertingCommit upload _ => upload.repoId = repoId
  | .movingHead upload _ => upload.repoId = repoId
  | .purgingCommits trashed => trashed.repoId = repoId
  | .purgingObjects trashed => trashed.repoId = repoId
  | .purgingEntry trashed => trashed.repoId = repoId
  | .clearing id => id = repoId
  | _ => False

end Nanofile
