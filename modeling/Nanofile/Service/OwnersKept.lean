import Nanofile.Service.OwnersApart

/-!
# What the calls on libraries keep

One lemma for each statement that changes something, then one for the steps of each call.
-/

set_option autoImplicit false

namespace Nanofile

open LibraryDb

variable {world : OwnersWorld} {db db' : LibraryDb} {repoId : String} {now : Int}

namespace LibraryDb

variable {row : RepoRow}

theorem findRepo_insertRepo (inserted : db.insertRepo row = some db') :
    db'.findRepo row.id = some row := by
  obtain ⟨absent, rfl⟩ := insertRepo_eq inserted
  unfold findRepo at absent ⊢
  rw [List.find?_append, absent]
  simp

theorem findDeleted_insertDeleted {row : DeletedRepoRow}
    (inserted : db.insertDeleted row = some db') : db'.findDeleted row.repoId = some row := by
  obtain ⟨absent, rfl⟩ := insertDeleted_eq inserted
  unfold findDeleted at absent ⊢
  rw [List.find?_append, absent]
  simp

theorem findRepo_id (found : db.findRepo repoId = some row) : row.id = repoId := by
  simpa using List.find?_some found

theorem findDeleted_id {trashed : DeletedRepoRow} (found : db.findDeleted repoId = some trashed) :
    trashed.repoId = repoId := by
  simpa using List.find?_some found

theorem live_of_found (found : db.findRepo repoId = some row) : db.Live repoId := by
  rw [Live, found]
  rfl

theorem inTrash_of_found {trashed : DeletedRepoRow}
    (found : db.findDeleted repoId = some trashed) : db.InTrash repoId := by
  rw [InTrash, found]
  rfl

theorem findRepo_archiveAndDelete : (db.archiveAndDelete repoId).findRepo repoId = none := by
  refine List.find?_eq_none.mpr fun row listed => ?_
  simpa [archiveAndDelete] using (List.mem_filter.mp listed).2

theorem findDeleted_deleteDeleted : (db.deleteDeleted repoId).findDeleted repoId = none := by
  refine List.find?_eq_none.mpr fun row listed => ?_
  simpa [deleteDeleted] using (List.mem_filter.mp listed).2

end LibraryDb

theorem OwnersKept.agrees (kept : OwnersKept world) : world.lib.db.ContentAgrees :=
  ⟨kept.commits.agree, kept.fsObjects.agree⟩

variable {made : MadeHead}

theorem MadeHead.Stored.mono (stored : made.Stored db)
    (commits : ∀ id, (db.commits.find made.repoId id).isSome = true →
      (db'.commits.find made.repoId id).isSome = true)
    (fsObjects : ∀ id, (db.fsObjects.find made.repoId id).isSome = true →
      (db'.fsObjects.find made.repoId id).isSome = true) : made.Stored db' :=
  ⟨commits _ stored.1, fun fsId listed => fsObjects fsId (stored.2 fsId listed)⟩

variable {lib : LibraryWorld}

theorem KeepsBlocks.of_known {lib' : LibraryWorld} (keeps : KeepsBlocks lib)
    (files : lib'.files = lib.files) (kept : ∀ entry ∈ lib'.kept, entry ∈ lib.kept ∧
      (lib'.db.Known entry.1 → lib.db.Known entry.1)) : KeepsBlocks lib' := by
  intro repoId id known listed
  rw [files]
  obtain ⟨listed, known'⟩ := kept (repoId, id) listed
  exact keeps repoId id (known' known) listed

theorem KeepsBlocks.withDb (keeps : KeepsBlocks lib) (known : ∀ id, db.Known id → lib.db.Known id) :
    KeepsBlocks { lib with db := db } :=
  keeps.of_known rfl fun entry listed => ⟨listed, known entry.1⟩

/-- The rows of `repos` and of `deleted_repos` are found as before. -/
structure SameSearches (db db' : LibraryDb) : Prop where
  repo : ∀ repoId, db'.findRepo repoId = db.findRepo repoId
  trashed : ∀ repoId, db'.findDeleted repoId = db.findDeleted repoId

theorem SameSearches.known (same : SameSearches db db') (repoId : String) :
    db'.Known repoId ↔ db.Known repoId := by
  unfold LibraryDb.Known LibraryDb.Live LibraryDb.InTrash
  rw [same.repo, same.trashed]

variable {row : RepoRow}

section

variable (kept : OwnersKept world)
include kept

theorem OwnersKept.content {nextCommit nextFsObject : Nat} (same : SameSearches world.lib.db db)
    (commits : ContentTable.IdsKept db.commits db.archivedCommits nextCommit)
    (fsObjects : ContentTable.IdsKept db.fsObjects db.archivedFsObjects nextFsObject)
    (stored : ∀ made ∈ world.made, made.Stored world.lib.db → made.Stored db) :
    OwnersKept { world.withDb db with nextCommit := nextCommit, nextFsObject := nextFsObject } where
  owners repoId row trashed found found' := by
    refine kept.owners repoId row trashed ?_ ?_
    · exact (same.repo repoId).symm.trans found
    · exact (same.trashed repoId).symm.trans found'
  commits := commits
  fsObjects := fsObjects
  made made listed := stored made listed (kept.made made listed)
  blocks := kept.blocks.withDb fun id => (same.known id).mp
  recorded repoId head listed := by
    obtain ⟨trashed, found, isHead⟩ := kept.recorded repoId head listed
    exact ⟨trashed, (same.trashed repoId).trans found, isHead⟩

theorem OwnersKept.members (members : List MemberRow) :
    OwnersKept (world.withDb { world.lib.db with members := members }) :=
  kept.content ⟨fun _ => rfl, fun _ => rfl⟩ kept.commits kept.fsObjects fun _ _ stored => stored

theorem OwnersKept.copyFrom : OwnersKept (world.withDb (world.lib.db.copyFrom repoId)) :=
  kept.content ⟨fun _ => rfl, fun _ => rfl⟩ kept.commits.copyFrom kept.fsObjects.copyFrom
    fun _ _ stored => stored.mono (fun _ => ContentTable.isSome_find_copyRepo kept.commits.agree)
      fun _ => ContentTable.isSome_find_copyRepo kept.fsObjects.agree

theorem OwnersKept.dropArchivedCommits :
    OwnersKept (world.withDb (world.lib.db.dropArchivedCommits repoId)) :=
  kept.content ⟨fun _ => rfl, fun _ => rfl⟩ kept.commits.dropArchive kept.fsObjects
    fun _ _ stored => stored

theorem OwnersKept.dropArchivedFsObjects :
    OwnersKept (world.withDb (world.lib.db.dropArchivedFsObjects repoId)) :=
  kept.content ⟨fun _ => rfl, fun _ => rfl⟩ kept.commits kept.fsObjects.dropArchive
    fun _ _ stored => stored

theorem OwnersKept.insertFsObject {row : ContentRow FsObjectColumns}
    (isNext : row.id = world.nextFsObject) (inserted : world.lib.db.insertFsObject row = some db) :
    OwnersKept { world.withDb db with nextFsObject := world.nextFsObject + 1 } := by
  rcases insertFsObject_eq inserted with ⟨rfl, _⟩ | ⟨fsObjects, isInsert, rfl⟩
  · have below : ∀ {table : ContentTable FsObjectColumns},
        (∀ row ∈ table.rows, row.id < world.nextFsObject) →
        ∀ row ∈ table.rows, row.id < world.nextFsObject + 1 := by
      intro table all row listed
      have := all row listed
      omega
    exact kept.content ⟨fun _ => rfl, fun _ => rfl⟩ kept.commits
      ⟨kept.fsObjects.agree, below kept.fsObjects.live, below kept.fsObjects.archived⟩
      fun _ _ stored => stored
  · exact kept.content ⟨fun _ => rfl, fun _ => rfl⟩ kept.commits
      (kept.fsObjects.insert isNext isInsert) fun _ _ stored =>
        stored.mono (fun _ found => found) fun _ => ContentTable.isSome_find_insert isInsert

theorem OwnersKept.insertCommit {row : ContentRow CommitColumns}
    (isNext : row.id = world.nextCommit) (inserted : world.lib.db.insertCommit row = some db) :
    OwnersKept { world.withDb db with nextCommit := world.nextCommit + 1 } := by
  obtain ⟨commits, isInsert, rfl⟩ := insertCommit_eq inserted
  exact kept.content ⟨fun _ => rfl, fun _ => rfl⟩ (kept.commits.insert isNext isInsert)
    kept.fsObjects fun _ _ stored =>
      stored.mono (fun _ => ContentTable.isSome_find_insert isInsert) fun _ found => found

theorem OwnersKept.updateHeadCommit (head : Option String) (updatedAt : Int) :
    OwnersKept (world.withDb (world.lib.db.updateHeadCommit repoId head updatedAt now)) where
  owners other row trashed found found' := by
    obtain ⟨old, isOld, rfl⟩ := Option.map_eq_some_iff.mp
      ((findRepo_updateHeadCommit head updatedAt).symm.trans found)
    have same := kept.owners other old trashed isOld found'
    split <;> exact same
  commits := kept.commits
  fsObjects := kept.fsObjects
  made := kept.made
  blocks := kept.blocks.withDb fun id =>
    Or.imp (updateHeadCommit_same world.lib.db repoId head updatedAt now id).1.mp
      (updateHeadCommit_same world.lib.db repoId head updatedAt now id).2.mp
  recorded := kept.recorded

theorem OwnersKept.insertDeleted (live : world.lib.db.findRepo row.id = some row)
    (inserted : world.lib.db.insertDeleted (LibraryDb.trashEntry row now) = some db) :
    OwnersKept (world.withDb db) := by
  have same : ∀ other ≠ row.id, LibraryDb.SameRows other world.lib.db db := fun other apart =>
    insertDeleted_other inserted apart
  have here := findDeleted_insertDeleted inserted
  have tables := insertDeleted_some inserted
  obtain ⟨absent, isDb⟩ := insertDeleted_eq inserted
  refine ⟨fun other row' trashed found found' => ?_, ?_, ?_, ?_, ?_, fun other head listed => ?_⟩
  · by_cases isHere : other = row.id
    · subst isHere
      have foundRow : world.lib.db.findRepo row.id = some row' := by
        rw [← found, isDb]
        rfl
      cases live.symm.trans foundRow
      cases here.symm.trans found'
      rfl
    · have rows := same other isHere
      exact kept.owners other row' trashed (rows.repo.symm.trans found)
        (rows.trashed.symm.trans found')
  · rw [isDb]
    exact kept.commits
  · rw [isDb]
    exact kept.fsObjects
  · rw [isDb]
    exact kept.made
  · refine kept.blocks.withDb fun id => ?_
    rintro (isLive | inTrash)
    · exact Or.inl ((tables id).1.mp isLive)
    · rcases (tables id).2.mp inTrash with before | rfl
      · exact Or.inr before
      · exact Or.inl (live_of_found live)
  · obtain ⟨trashed, found, isHead⟩ := kept.recorded other head listed
    refine ⟨trashed, ?_, isHead⟩
    rw [← found]
    refine (same other ?_).trashed
    rintro rfl
    cases absent.symm.trans found

theorem OwnersKept.insertRestored {trashed : DeletedRepoRow}
    (entry : world.lib.db.findDeleted trashed.repoId = some trashed)
    (inserted : world.lib.db.insertRepo (LibraryDb.restoredRow trashed now) = some db) :
    OwnersKept (world.withDb db) := by
  have here := findRepo_insertRepo inserted
  have tables := insertRepo_some inserted
  have isDb := (insertRepo_eq inserted).2
  refine ⟨fun other row trashed' found found' => ?_, ?_, ?_, ?_, ?_, ?_⟩
  · by_cases isHere : other = trashed.repoId
    · subst isHere
      have foundEntry : world.lib.db.findDeleted trashed.repoId = some trashed' := by
        rw [← found', isDb]
        rfl
      cases entry.symm.trans foundEntry
      cases here.symm.trans found
      rfl
    · have rows : LibraryDb.SameRows other world.lib.db db :=
        insertRepo_other inserted isHere
      exact kept.owners other row trashed' (rows.repo.symm.trans found)
        (rows.trashed.symm.trans found')
  · rw [isDb]
    exact kept.commits
  · rw [isDb]
    exact kept.fsObjects
  · rw [isDb]
    exact kept.made
  · refine kept.blocks.withDb fun id => ?_
    rintro (isLive | inTrash)
    · rcases (tables id).1.mp isLive with before | rfl
      · exact Or.inl before
      · exact Or.inr (inTrash_of_found entry)
    · exact Or.inr ((tables id).2.mp inTrash)
  · rw [isDb]
    exact kept.recorded

end

theorem MadeHead.Stored.same (rows : LibraryDb.SameRows made.repoId db db')
    (stored : made.Stored db) : made.Stored db' := by
  refine stored.mono (fun id present => ?_) fun id present => ?_
  · rwa [ContentTable.find_eq, rows.commits, ← ContentTable.find_eq]
  · rwa [ContentTable.find_eq, rows.fsObjects, ← ContentTable.find_eq]

/-- A deletion completes: the history of the library ends, and its head is remembered. -/
theorem OwnersKept.archived (kept : OwnersKept world) {trashed : DeletedRepoRow}
    (found : world.lib.db.findRepo repoId = some row)
    (entry : world.lib.db.findDeleted repoId = some trashed)
    (isHead : trashed.headId = row.headCommitId) :
    OwnersKept { world.withDb (world.lib.db.archiveAndDelete repoId) with
      made := world.made.filter fun entry => entry.repoId ≠ repoId
      deletedHead := (repoId, (world.lib.db.findRepo repoId).bind RepoRow.headCommitId) ::
        world.deletedHead.filter fun entry => entry.1 ≠ repoId } where
  owners other row' trashed' found' entry' := by
    by_cases isHere : other = repoId
    · subst isHere
      cases findRepo_archiveAndDelete.symm.trans found'
    · have rows := archiveAndDelete_other kept.agrees isHere
      exact kept.owners other row' trashed' (rows.repo.symm.trans found') entry'
  commits := kept.commits.toArchive
  fsObjects := kept.fsObjects.toArchive
  made made listed := by
    obtain ⟨listed, apart⟩ := List.mem_filter.mp listed
    exact (kept.made made listed).same
      (archiveAndDelete_other kept.agrees (of_decide_eq_true apart))
  blocks := kept.blocks.withDb fun id => by
    rintro (isLive | inTrash)
    · exact Or.inl ((archiveAndDelete_tables world.lib.db repoId id).1.mp isLive).1
    · exact Or.inr inTrash
  recorded other head listed := by
    rcases List.mem_cons.mp listed with isNew | old
    · cases isNew
      exact ⟨trashed, entry, by rw [isHead, found, Option.bind_some]⟩
    · exact kept.recorded other head (List.mem_filter.mp old).1

theorem OwnersKept.created (kept : OwnersKept world)
    (notTrashed : world.lib.db.findDeleted row.id = none)
    (inserted : world.lib.db.insertRepo row = some db) :
    OwnersKept { world with
      lib := { world.lib with
        db := db
        kept := world.lib.kept.filter fun entry => entry.1 ≠ row.id }
      made := world.made.filter fun entry => entry.repoId ≠ row.id
      deletedHead := world.deletedHead.filter fun entry => entry.1 ≠ row.id } := by
  have tables := insertRepo_some inserted
  have isDb := (insertRepo_eq inserted).2
  have sameTrash : ∀ other, db.findDeleted other = world.lib.db.findDeleted other := by
    intro other
    rw [isDb]
    rfl
  refine ⟨fun other row' trashed found entry => ?_, ?_, ?_, fun made listed => ?_, ?_,
    fun other head listed => ?_⟩
  · by_cases isHere : other = row.id
    · subst isHere
      rw [sameTrash, notTrashed] at entry
      cases entry
    · have rows : LibraryDb.SameRows other world.lib.db db :=
        insertRepo_other inserted isHere
      exact kept.owners other row' trashed (rows.repo.symm.trans found)
        (rows.trashed.symm.trans entry)
  · rw [isDb]
    exact kept.commits
  · rw [isDb]
    exact kept.fsObjects
  · obtain ⟨listed, apart⟩ := List.mem_filter.mp listed
    exact (kept.made made listed).same
      (insertRepo_other inserted (of_decide_eq_true apart))
  · refine kept.blocks.of_known rfl fun entry listed => ?_
    obtain ⟨listed, apart⟩ := List.mem_filter.mp listed
    refine ⟨listed, ?_⟩
    rintro (isLive | inTrash)
    · exact Or.inl (((tables entry.1).1.mp isLive).resolve_right (of_decide_eq_true apart))
    · exact Or.inr ((tables entry.1).2.mp inTrash)
  · obtain ⟨trashed, found, isHead⟩ := kept.recorded other head (List.mem_filter.mp listed).1
    exact ⟨trashed, (sameTrash other).trans found, isHead⟩

theorem OwnersKept.deleteDeleted (kept : OwnersKept world) :
    OwnersKept { world.withDb (world.lib.db.deleteDeleted repoId) with
      deletedHead := world.deletedHead.filter fun entry => entry.1 ≠ repoId } where
  owners other row trashed found entry := by
    by_cases isHere : other = repoId
    · subst isHere
      cases findDeleted_deleteDeleted.symm.trans entry
    · have rows : LibraryDb.SameRows other world.lib.db (world.lib.db.deleteDeleted repoId) :=
        deleteDeleted_other isHere
      exact kept.owners other row trashed found (rows.trashed.symm.trans entry)
  commits := kept.commits
  fsObjects := kept.fsObjects
  made := kept.made
  blocks := kept.blocks.withDb fun id => by
    rintro (isLive | inTrash)
    · exact Or.inl isLive
    · exact Or.inr ((deleteDeleted_tables world.lib.db repoId id).2.mp inTrash).1
  recorded other head listed := by
    obtain ⟨listed, apart⟩ := List.mem_filter.mp listed
    obtain ⟨trashed, found, isHead⟩ := kept.recorded other head listed
    refine ⟨trashed, ?_, isHead⟩
    rw [← found]
    exact (deleteDeleted_other (of_decide_eq_true apart)).trashed

theorem OwnersKept.movedHead (kept : OwnersKept world) (head : Option String) (updatedAt : Int)
    (stored : made.Stored world.lib.db) :
    OwnersKept { world.withDb (world.lib.db.updateHeadCommit repoId head updatedAt now) with
      made := made :: world.made } := by
  have moved : OwnersKept
      (world.withDb (world.lib.db.updateHeadCommit repoId head updatedAt now)) :=
    kept.updateHeadCommit head updatedAt
  refine { moved with made := fun entry listed => ?_ }
  rcases List.mem_cons.mp listed with rfl | old
  · exact stored
  · exact kept.made entry old

theorem OwnersKept.disk (kept : OwnersKept world) (db : lib.db = world.lib.db)
    (blocks : KeepsBlocks lib) : OwnersKept { world with lib := lib } := by
  refine ⟨?_, ?_, ?_, ?_, blocks, ?_⟩
  · rw [db]
    exact kept.owners
  · rw [db]
    exact kept.commits
  · rw [db]
    exact kept.fsObjects
  · rw [db]
    exact kept.made
  · rw [db]
    exact kept.recorded

theorem KeepsBlocks.written {lib' : LibraryWorld} (keeps : KeepsBlocks lib)
    (move : WriteMove lib lib') : KeepsBlocks lib' := by
  intro repoId id known listed
  rcases move.kept repoId id listed with old | has
  · rw [move.db] at known
    exact move.files repoId id (keeps repoId id known old)
  · exact has

end Nanofile
