import Nanofile.Service.LibraryTrash

/-!
# What a restored library has kept

The content goes through the archive unchanged.  The library row is what the trash entry
says, so it is the old one when the library was not encrypted and the entry is current.  The
owner's membership is inserted with one id for every library, so a second restore fails.
-/

set_option autoImplicit false

namespace Nanofile

namespace ContentTable

variable {Columns : Type} {table : ContentTable Columns} {repoId : String}

theorem mem_ofRepo {row : ContentRow Columns} :
    row ∈ table.ofRepo repoId ↔ row ∈ table.rows ∧ row.repoId = repoId := by
  simp [ofRepo]

@[simp] theorem ofRepo_deleteRepo : (table.deleteRepo repoId).ofRepo repoId = [] := by
  refine List.filter_eq_nil_iff.mpr fun row listed => ?_
  have other := (List.mem_filter.mp listed).2
  simpa using other

theorem find_eq (objectId : String) :
    table.find repoId objectId =
      (table.ofRepo repoId).find? fun row => row.objectId = objectId := by
  rw [find, ofRepo, List.find?_filter]
  congr 1
  funext row
  simp

theorem ofRepo_insertOrReplace {row : ContentRow Columns} (isRepo : row.repoId = repoId)
    (free : ∀ other ∈ table.ofRepo repoId, ¬ other.Conflicts row) :
    (table.insertOrReplace row).ofRepo repoId = table.ofRepo repoId ++ [row] := by
  have kept : ∀ other ∈ table.rows,
      (decide (other.repoId = repoId) && decide (¬ other.Conflicts row)) =
        decide (other.repoId = repoId) := by
    intro other listed
    by_cases same : other.repoId = repoId
    · have clear := free other (mem_ofRepo.mpr ⟨listed, same⟩)
      simp [same, clear]
    · simp [same]
  unfold insertOrReplace ofRepo
  rw [List.filter_append, List.filter_filter, List.filter_congr kept]
  simp [isRepo]

theorem ofRepo_foldl {rows : List (ContentRow Columns)}
    (areRepo : ∀ row ∈ rows, row.repoId = repoId)
    (unique : (table.ofRepo repoId ++ rows).Pairwise fun row other => ¬ row.Conflicts other) :
    (rows.foldl insertOrReplace table).ofRepo repoId = table.ofRepo repoId ++ rows := by
  induction rows generalizing table with
  | nil => simp
  | cons row rest ih =>
    have free : ∀ other ∈ table.ofRepo repoId, ¬ other.Conflicts row := by
      intro other listed
      exact (List.pairwise_append.mp unique).2.2 other listed row List.mem_cons_self
    have inserted := ofRepo_insertOrReplace (areRepo row List.mem_cons_self) free
    have assoc : table.ofRepo repoId ++ row :: rest =
        table.ofRepo repoId ++ [row] ++ rest := by simp
    rw [assoc, ← inserted] at unique
    rw [List.foldl_cons, ih (fun other listed => areRepo other (List.mem_cons_of_mem _ listed))
      unique, inserted, assoc]

theorem ofRepo_copyRepo {source : ContentTable Columns} (none : table.ofRepo repoId = []) :
    (table.copyRepo source repoId).ofRepo repoId = source.ofRepo repoId := by
  have unique : (table.ofRepo repoId ++ source.ofRepo repoId).Pairwise
      fun row other => ¬ row.Conflicts other := by
    rw [none, List.nil_append]
    exact source.unique.sublist List.filter_sublist
  rw [copyRepo, ofRepo_foldl (fun row listed => (mem_ofRepo.mp listed).2) unique, none,
    List.nil_append]

end ContentTable

namespace LibraryDb

variable {db : LibraryDb} {row : RepoRow} {repoId : String} {now : Int}

/-- A deleted library has its content in the archive, no row, and a trash entry. -/
structure Trashed (before after : LibraryDb) (repoId : String) (trashed : DeletedRepoRow) :
    Prop where
  commits : after.archivedCommits.ofRepo repoId = before.commits.ofRepo repoId
  fsObjects : after.archivedFsObjects.ofRepo repoId = before.fsObjects.ofRepo repoId
  noCommits : after.commits.ofRepo repoId = []
  noFsObjects : after.fsObjects.ofRepo repoId = []
  members : after.members = before.members.filter fun member => member.repoId ≠ repoId
  noRepo : after.findRepo repoId = none
  entry : after.findDeleted repoId = some trashed

variable {trashed : DeletedRepoRow}

theorem Trashed.others {before after : LibraryDb} (isTrashed : Trashed before after repoId trashed) :
    ∀ member ∈ after.members, member.repoId ≠ repoId := by
  intro member listed
  rw [isTrashed.members] at listed
  exact of_decide_eq_true (List.mem_filter.mp listed).2

theorem archiveAndDelete_spec (entry : db.findDeleted repoId = some trashed) :
    Trashed db (db.archiveAndDelete repoId) repoId trashed where
  commits := ContentTable.ofRepo_copyRepo ContentTable.ofRepo_deleteRepo
  fsObjects := ContentTable.ofRepo_copyRepo ContentTable.ofRepo_deleteRepo
  noCommits := ContentTable.ofRepo_deleteRepo
  noFsObjects := ContentTable.ofRepo_deleteRepo
  members := rfl
  noRepo := by
    refine List.find?_eq_none.mpr fun row listed => ?_
    simpa [archiveAndDelete] using (List.mem_filter.mp listed).2
  entry := entry

/-- The trash entry of a deleted library: one already there stays. -/
def recordedEntry (db : LibraryDb) (row : RepoRow) (now : Int) : DeletedRepoRow :=
  (db.findDeleted row.id).getD (trashEntry row now)

theorem addDeletedRepo_findDeleted (db : LibraryDb) (row : RepoRow) (now : Int) :
    (db.addDeletedRepo row now).findDeleted row.id = some (db.recordedEntry row now) := by
  unfold addDeletedRepo recordedEntry
  split
  · rename_i trashed found
    rw [found, Option.getD_some]
  · rename_i absent
    rw [absent, Option.getD_none]
    unfold findDeleted at absent ⊢
    rw [List.find?_append, absent]
    simp [trashEntry]

theorem recordedEntry_repoId : (db.recordedEntry row now).repoId = row.id := by
  unfold recordedEntry
  cases found : db.findDeleted row.id with
  | none => rfl
  | some trashed => simpa using List.find?_some found

theorem deleteRepo_spec (found : db.findRepo row.id = some row) (now : Int) :
    ∃ deleted, db.deleteRepo row.id row.ownerId now = .ok deleted ∧
      Trashed db deleted row.id (db.recordedEntry row now) := by
  refine ⟨(db.addDeletedRepo row now).archiveAndDelete row.id, by simp [deleteRepo, found], ?_⟩
  have trashed := archiveAndDelete_spec (addDeletedRepo_findDeleted db row now)
  have sameCommits : (db.addDeletedRepo row now).commits = db.commits := by
    unfold addDeletedRepo
    split <;> rfl
  have sameFsObjects : (db.addDeletedRepo row now).fsObjects = db.fsObjects := by
    unfold addDeletedRepo
    split <;> rfl
  have sameMembers : (db.addDeletedRepo row now).members = db.members := by
    unfold addDeletedRepo
    split <;> rfl
  exact { trashed with
    commits := trashed.commits.trans (by rw [sameCommits])
    fsObjects := trashed.fsObjects.trans (by rw [sameFsObjects])
    members := trashed.members.trans (by rw [sameMembers]) }

theorem insertRestored_findRepo (now : Int) (absent : db.findRepo trashed.repoId = none) :
    db.insertRestored trashed now =
        { db with repos := db.repos ++ [restoredRow trashed now] } ∧
      (db.insertRestored trashed now).findRepo trashed.repoId = some (restoredRow trashed now) := by
  have inserted : db.insertRestored trashed now =
      { db with repos := db.repos ++ [restoredRow trashed now] } := by
    rw [insertRestored, absent]
  refine ⟨inserted, ?_⟩
  rw [inserted]
  unfold findRepo at absent ⊢
  rw [List.find?_append, absent]
  simp [restoredRow]

theorem updateHeadCommit_findRepo {head : Option String} {updatedAt : Int}
    (found : db.findRepo repoId = some row) :
    ∃ updated, (db.updateHeadCommit repoId head updatedAt now).findRepo repoId = some updated ∧
      updated.headCommitId = head ∧ updated.size = row.size ∧ updated.keys = row.keys := by
  have named : row.id = repoId := by simpa using List.find?_some found
  unfold findRepo updateHeadCommit at *
  rw [List.find?_map]
  have same : ((fun other : RepoRow => decide (other.id = repoId)) ∘ fun other : RepoRow =>
      if other.id = repoId then
        { other with headCommitId := head, updatedAt := if updatedAt = 0 then now else updatedAt }
      else other) = fun other => decide (other.id = repoId) := by
    funext other
    simp only [Function.comp_apply]
    split <;> rfl
  rw [same, found, Option.map_some, if_pos named]
  exact ⟨_, rfl, rfl, rfl, rfl⟩

theorem restoreHead_findRepo (now : Int) (found : db.findRepo trashed.repoId = some row)
    (noHead : row.headCommitId = none) :
    ∃ headed, (db.restoreHead trashed now).findRepo trashed.repoId = some headed ∧
      headed.headCommitId =
        trashed.headId.filter (fun head => (db.commits.find trashed.repoId head).isSome) ∧
      headed.size = row.size ∧ headed.keys = row.keys := by
  cases recorded : trashed.headId with
  | none =>
    have same : db.restoreHead trashed now = db := by simp [restoreHead, recorded]
    rw [same]
    exact ⟨row, found, noHead, rfl, rfl⟩
  | some head =>
    cases commit : db.commits.find trashed.repoId head with
    | none =>
      have same : db.restoreHead trashed now = db := by simp [restoreHead, recorded, commit]
      rw [same, Option.filter_some, commit]
      exact ⟨row, found, noHead, rfl, rfl⟩
    | some present =>
      have moved : db.restoreHead trashed now =
          db.updateHeadCommit trashed.repoId (some head) present.columns.ctime now := by
        simp [restoreHead, recorded, commit]
      rw [moved, Option.filter_some, commit]
      exact updateHeadCommit_findRepo found

theorem restoreHead_content (db : LibraryDb) (trashed : DeletedRepoRow) (now : Int) :
    (db.restoreHead trashed now).commits = db.commits ∧
      (db.restoreHead trashed now).fsObjects = db.fsObjects ∧
      (db.restoreHead trashed now).members = db.members := by
  unfold restoreHead
  split
  · exact ⟨rfl, rfl, rfl⟩
  · split <;> exact ⟨rfl, rfl, rfl⟩

theorem insertRestored_members (db : LibraryDb) (trashed : DeletedRepoRow) (now : Int) :
    (db.insertRestored trashed now).members = db.members := by
  unfold insertRestored
  split <;> rfl

/-- The members a restore meets are those of the other libraries. -/
theorem restoreMember_eq (db : LibraryDb) (trashed : DeletedRepoRow) (now : Int)
    (others : ∀ member ∈ db.members, member.repoId ≠ trashed.repoId) :
    db.restoreMember trashed now = if ∃ member ∈ db.members, member.id = 0 then none
      else some { db with
        members := db.members ++ [⟨0, trashed.repoId, trashed.ownerId, "rw", now⟩] } := by
  rw [restoreMember, if_neg]
  rintro ⟨member, listed, isRepo, -⟩
  exact others member listed isRepo

theorem restoreDeletedRepo_blocked {before deleted : LibraryDb}
    (isTrashed : Trashed before deleted repoId trashed) (named : trashed.repoId = repoId)
    (taken : ∃ member ∈ deleted.members, member.id = 0) {userId now : Int} {after : LibraryDb} :
    deleted.restoreDeletedRepo repoId userId now ≠ .ok after := by
  subst named
  have members := (restoreHead_content ((deleted.insertRestored trashed now).copyFrom
    trashed.repoId) trashed now).2.2.trans (insertRestored_members deleted trashed now)
  intro restored
  simp only [restoreDeletedRepo, isTrashed.entry] at restored
  split at restored
  · cases restored
  · rw [restoreMember_eq _ _ _ (by rw [members]; exact isTrashed.others), members, if_pos taken]
      at restored
    cases restored

theorem restoreDeletedRepo_spec {before deleted : LibraryDb}
    (isTrashed : Trashed before deleted repoId trashed) (named : trashed.repoId = repoId)
    (free : ¬ ∃ member ∈ deleted.members, member.id = 0) (now : Int) :
    ∃ after, deleted.restoreDeletedRepo repoId trashed.ownerId now = .ok after ∧
      after.commits.ofRepo repoId = before.commits.ofRepo repoId ∧
      after.fsObjects.ofRepo repoId = before.fsObjects.ofRepo repoId ∧
      ∃ restored, after.findRepo repoId = some restored ∧
        restored.headCommitId =
          trashed.headId.filter (fun head => (before.commits.find repoId head).isSome) ∧
        restored.size = trashed.size ∧ restored.keys = .none := by
  subst named
  obtain ⟨inserted, isInserted⟩ := insertRestored_findRepo now isTrashed.noRepo
  let copied := (deleted.insertRestored trashed now).copyFrom trashed.repoId
  have commits : copied.commits.ofRepo trashed.repoId =
      before.commits.ofRepo trashed.repoId := by
    have noCommits : (deleted.insertRestored trashed now).commits.ofRepo trashed.repoId = [] := by
      rw [inserted]
      exact isTrashed.noCommits
    rw [← isTrashed.commits]
    refine (ContentTable.ofRepo_copyRepo noCommits).trans ?_
    rw [inserted]
  have fsObjects : copied.fsObjects.ofRepo trashed.repoId =
      before.fsObjects.ofRepo trashed.repoId := by
    have noFsObjects :
        (deleted.insertRestored trashed now).fsObjects.ofRepo trashed.repoId = [] := by
      rw [inserted]
      exact isTrashed.noFsObjects
    rw [← isTrashed.fsObjects]
    refine (ContentTable.ofRepo_copyRepo noFsObjects).trans ?_
    rw [inserted]
  have isCopied : copied.findRepo trashed.repoId = some (restoredRow trashed now) := isInserted
  obtain ⟨restored, isRestored, head, size, keys⟩ :=
    restoreHead_findRepo now isCopied rfl
  obtain ⟨sameCommits, sameFsObjects, sameMembers⟩ := restoreHead_content copied trashed now
  have members : (copied.restoreHead trashed now).members = deleted.members :=
    sameMembers.trans (insertRestored_members deleted trashed now)
  have joined := restoreMember_eq (copied.restoreHead trashed now) trashed now
    (by rw [members]; exact isTrashed.others)
  rw [members, if_neg free] at joined
  have sameFind : ∀ head, copied.commits.find trashed.repoId head =
      before.commits.find trashed.repoId head := by
    intro head
    rw [ContentTable.find_eq, ContentTable.find_eq, commits]
  have ran : deleted.restoreDeletedRepo trashed.repoId trashed.ownerId now =
      ((copied.restoreHead trashed now).restoreMember trashed now).elim
        (.error (.internal memberIdTaken)) fun joined =>
          .ok { joined.dropArchive trashed.repoId with
            deletedRepos := (joined.dropArchive trashed.repoId).deletedRepos.filter
              fun row => row.repoId ≠ trashed.repoId } := by
    rw [restoreDeletedRepo, isTrashed.entry]
    dsimp only
    rw [if_neg fun other => other rfl]
    cases (copied.restoreHead trashed now).restoreMember trashed now <;> rfl
  rw [joined, Option.elim_some] at ran
  refine ⟨_, ran, ?_, ?_, restored, ?_, ?_, size, keys⟩
  · rw [← commits, ← sameCommits]
    rfl
  · rw [← fsObjects, ← sameFsObjects]
    rfl
  · exact isRestored
  · rw [head]
    simp only [sameFind]

/-- The library is as it was: its content, HEAD, size and encryption. -/
structure SameLibrary (before after : LibraryDb) (row : RepoRow) : Prop where
  commits : after.commits.ofRepo row.id = before.commits.ofRepo row.id
  fsObjects : after.fsObjects.ofRepo row.id = before.fsObjects.ofRepo row.id
  repo : ∃ restored, after.findRepo row.id = some restored ∧
    restored.headCommitId = row.headCommitId ∧ restored.size = row.size ∧
      restored.keys = row.keys

/-- The library is not encrypted, its HEAD commit is there, no other library has the member id
of a restored one, and a trash entry that is already there describes the library. -/
structure Restorable (db : LibraryDb) (row : RepoRow) : Prop where
  keys : row.keys = .none
  head : ∀ head, row.headCommitId = some head → (db.commits.find row.id head).isSome
  member : ∀ member ∈ db.members, member.id = 0 → member.repoId = row.id
  entry : ∀ trashed, db.findDeleted row.id = some trashed →
    trashed.ownerId = row.ownerId ∧ trashed.size = row.size ∧
      trashed.headId.filter (fun head => (db.commits.find row.id head).isSome) = row.headCommitId

theorem restorable_iff (now : Int) :
    Restorable db row ↔ row.keys = .none ∧
      (∀ member ∈ db.members, member.id = 0 → member.repoId = row.id) ∧
      (db.recordedEntry row now).ownerId = row.ownerId ∧
      (db.recordedEntry row now).size = row.size ∧
      (db.recordedEntry row now).headId.filter
        (fun head => (db.commits.find row.id head).isSome) = row.headCommitId := by
  unfold recordedEntry
  constructor
  · intro restorable
    refine ⟨restorable.keys, restorable.member, ?_⟩
    cases found : db.findDeleted row.id with
    | none =>
      refine ⟨rfl, rfl, ?_⟩
      change row.headCommitId.filter _ = row.headCommitId
      cases recorded : row.headCommitId with
      | none => rfl
      | some head => rw [Option.filter_some, if_pos (restorable.head head recorded)]
    | some trashed => exact restorable.entry trashed found
  · rintro ⟨keys, member, owner, size, head⟩
    refine ⟨keys, ?_, member, ?_⟩
    · intro wanted isHead
      rw [isHead] at head
      exact (Option.filter_eq_some_iff.mp head).2
    · intro trashed found
      rw [found] at owner size head
      exact ⟨owner, size, head⟩

/-- The owner gets the library back as it was exactly when it is restorable. -/
theorem delete_restore_same_iff (db : LibraryDb) (row : RepoRow) (deletedAt restoredAt : Int)
    (found : db.findRepo row.id = some row) :
    (∃ deleted after, db.deleteRepo row.id row.ownerId deletedAt = .ok deleted ∧
      deleted.restoreDeletedRepo row.id row.ownerId restoredAt = .ok after ∧
      SameLibrary db after row) ↔ Restorable db row := by
  rw [restorable_iff deletedAt]
  obtain ⟨deleted, isDeleted, trashed⟩ := deleteRepo_spec found deletedAt
  have free : (¬ ∃ member ∈ deleted.members, member.id = 0) ↔
      ∀ member ∈ db.members, member.id = 0 → member.repoId = row.id := by
    rw [trashed.members]
    simp only [List.mem_filter, decide_eq_true_eq, not_exists, not_and, and_imp]
    exact forall₂_congr fun member _ => not_imp_not.symm.trans (by simp)
  rw [← free]
  by_cases taken : ∃ member ∈ deleted.members, member.id = 0
  · refine iff_of_false ?_ fun holds => holds.2.1 taken
    rintro ⟨deleted', after, isDeleted', isRestored, -⟩
    obtain rfl : deleted = deleted' := Except.ok.inj (isDeleted.symm.trans isDeleted')
    exact restoreDeletedRepo_blocked trashed recordedEntry_repoId taken isRestored
  obtain ⟨after, isRestored, commits, fsObjects, restored, isRow, head, size, keys⟩ :=
    restoreDeletedRepo_spec trashed recordedEntry_repoId taken restoredAt
  constructor
  · rintro ⟨deleted', after', isDeleted', isRestored', same⟩
    obtain rfl : deleted = deleted' := Except.ok.inj (isDeleted.symm.trans isDeleted')
    have owner : (db.recordedEntry row deletedAt).ownerId = row.ownerId := by
      by_contra other
      simp [restoreDeletedRepo, trashed.entry, other] at isRestored'
    rw [owner] at isRestored
    obtain rfl : after = after' := Except.ok.inj (isRestored.symm.trans isRestored')
    obtain ⟨restored', isRow', head', size', keys'⟩ := same.repo
    obtain rfl : restored = restored' := Option.some.inj (isRow.symm.trans isRow')
    exact ⟨keys'.symm.trans keys, taken, owner, size.symm.trans size', head.symm.trans head'⟩
  · rintro ⟨plain, -, owner, sameSize, sameHead⟩
    rw [owner] at isRestored
    exact ⟨deleted, after, isDeleted, isRestored, commits, fsObjects, restored, isRow,
      head.trans sameHead, size.trans sameSize, keys.trans plain.symm⟩

def oneCommit (keys : KeyColumns) : RepoRow :=
  ⟨"library", "notes", "", 1, keys, some "head", "rw", 5, 7, 120, 1, 0, 0, "repo"⟩

def oneCommitDb (keys : KeyColumns) : LibraryDb where
  repos := [oneCommit keys]
  commits := ContentTable.empty.insertOrReplace
    ⟨1, "library", "head", ⟨"root", none, none, "", "", "", 7, 1, none, none⟩⟩
  fsObjects := ContentTable.empty.insertOrReplace ⟨1, "library", "root", ⟨3, "[]"⟩⟩
  archivedCommits := .empty
  archivedFsObjects := .empty
  deletedRepos := []
  members := [⟨1, "library", 1, "rw", 5⟩, ⟨2, "other", 2, "rw", 6⟩]

theorem delete_restore_same_plain :
    ∃ deleted after, (oneCommitDb .none).deleteRepo "library" 1 10 = .ok deleted ∧
      deleted.restoreDeletedRepo "library" 1 20 = .ok after ∧
      SameLibrary (oneCommitDb .none) after (oneCommit .none) :=
  (delete_restore_same_iff (oneCommitDb .none) (oneCommit .none) 10 20 (by decide)).mpr
    ⟨rfl, by
      intro head isHead
      cases isHead
      decide, by decide, by
      intro trashed found
      cases found⟩

def encryptedKeys : KeyColumns := ⟨1, 4, some "magic", some "key", "salt", none, none, none⟩

/-- An encrypted library comes back as one that is not encrypted. -/
theorem encryption_lost :
    ¬ ∃ deleted after, (oneCommitDb encryptedKeys).deleteRepo "library" 1 10 = .ok deleted ∧
      deleted.restoreDeletedRepo "library" 1 20 = .ok after ∧
      SameLibrary (oneCommitDb encryptedKeys) after (oneCommit encryptedKeys) := by
  rintro ⟨deleted, after, isDeleted, isRestored, same⟩
  cases isDeleted
  cases isRestored
  obtain ⟨restored, isRow, -, -, keys⟩ := same.repo
  cases isRow
  exact absurd keys (by decide)

end LibraryDb

end Nanofile
