import Nanofile.Service.OwnersKept

/-!
# The steps of the calls on libraries

Every step keeps the invariant, knows what the next one needs, and leaves the libraries it does not
touch.
-/

set_option autoImplicit false

namespace Nanofile

open LibraryDb

variable {world world' : OwnersWorld} {call' : OwnerCall} {user : Int} {tick : LibraryTick}

theorem Untouched.refl (repoId : String) (lib : LibraryWorld) : Untouched repoId lib lib :=
  ⟨.refl repoId lib.db, fun _ => rfl⟩

variable {repoId : String} {lib lib' : LibraryWorld}

theorem Untouched.rowsOnly (rows : LibraryDb.SameRows repoId lib.db lib'.db)
    (files : lib'.files = lib.files) : Untouched repoId lib lib' :=
  ⟨rows, fun id => by rw [files]⟩

structure StepKept (user : Int) (world : OwnersWorld) (call : OwnerCall) (world' : OwnersWorld)
    (call' : OwnerCall) : Prop where
  kept : OwnersKept world'
  known : OwnerCallKept world'.lib.db user call'
  untouched : ∀ repoId, ¬ call.Touches world.lib.db repoId → Untouched repoId world.lib world'.lib

def StepKeeps (user : Int) (tick : LibraryTick) (world : OwnersWorld) (call : OwnerCall) : Prop :=
  ∀ {world' call'}, ownerStep user tick world call = some (world', call') →
    StepKept user world call world' call'

variable {userId : Int} {row : RepoRow} {trashed : DeletedRepoRow}

section

variable (kept : OwnersKept world)
include kept

theorem StepKept.still {call : OwnerCall} (known : OwnerCallKept world.lib.db user call') :
    StepKept user world call world call' :=
  ⟨kept, known, fun repoId _ => .refl repoId world.lib⟩

/-! ## Deletions -/

theorem deleting_kept (isUser : userId = user) :
    StepKeeps user tick world (.library (.deleting repoId userId)) := by
  rintro _ _ ⟨⟩
  refine .still kept ?_
  show LibraryCallKept world.lib.db user _
  split
  · trivial
  · rename_i row found
    split
    · trivial
    · rename_i isOwner
      have named := findRepo_id found
      exact ⟨by rwa [named], (not_not.mp isOwner).trans isUser⟩

theorem trashing_kept (known : world.lib.db.findRepo row.id = some row ∧ row.ownerId = user)
    (apart : OwnerCallApart world (.library (.trashing row))) :
    StepKeeps user tick world (.library (.trashing row)) := by
  rintro _ _ ⟨⟩
  refine .still kept ?_
  show LibraryCallKept world.lib.db user _
  split
  · trivial
  · split
    · rename_i trashed found
      exact ⟨row, trashed, known.1, known.2, found, apart trashed found⟩
    · exact known

theorem insertingTrash_kept (known : world.lib.db.findRepo row.id = some row ∧ row.ownerId = user) :
    StepKeeps user tick world (.library (.insertingTrash row)) := by
  intro world' call' step
  simp only [ownerStep, ownLibraryStep, libraryStep, deleteStep, Option.map_some,
    Option.some.injEq] at step
  split at step
  · cases step
    exact .still kept trivial
  · rename_i db inserted
    cases step
    split at inserted
    · cases inserted
    · refine ⟨kept.insertDeleted known.1 inserted, ?_, fun other apart => ?_⟩
      · have found : db.findRepo row.id = some row := by
          rw [(insertDeleted_eq inserted).2]
          exact known.1
        exact ⟨row, _, found, known.2, findDeleted_insertDeleted inserted, rfl⟩
      · exact .rowsOnly (insertDeleted_other inserted (Ne.symm apart)) rfl

theorem archiving_kept (known : OwnerCallKept world.lib.db user (.library (.archiving repoId))) :
    StepKeeps user tick world (.library (.archiving repoId)) := by
  intro world' call' step
  obtain ⟨row, trashed, found, _, entry, isHead⟩ := known
  simp only [ownerStep, ownLibraryStep, libraryStep, deleteStep, Option.map_some,
    Option.some.injEq, OwnersWorld.note] at step
  split at step
  · cases step
    exact .still kept trivial
  · cases step
    refine ⟨kept.archived found entry isHead, trivial, fun other apart => ?_⟩
    exact .rowsOnly (archiveAndDelete_other kept.agrees (Ne.symm apart)) rfl

/-! ## Restores -/

theorem restoring_kept (isUser : userId = user) :
    StepKeeps user tick world (.library (.restoring repoId userId)) := by
  rintro _ _ ⟨⟩
  refine .still kept ?_
  show LibraryCallKept world.lib.db user _
  split
  · trivial
  · rename_i trashed found
    split
    · trivial
    · rename_i isOwner
      have named := findDeleted_id found
      exact ⟨by rwa [named], (not_not.mp isOwner).trans isUser⟩

theorem findingRepo_kept (known : TrashedBy world.lib.db user trashed) :
    StepKeeps user tick world (.library (.findingRepo trashed)) := by
  rintro _ _ ⟨⟩
  refine .still kept ?_
  show LibraryCallKept world.lib.db user _
  split
  · trivial
  · split
    · rename_i row found
      exact ⟨known, live_of_found found⟩
    · exact known

theorem creatingRepo_kept (known : TrashedBy world.lib.db user trashed) :
    StepKeeps user tick world (.library (.creatingRepo trashed)) := by
  intro world' call' step
  simp only [ownerStep, ownLibraryStep, libraryStep, restoreStep, Option.map_some,
    Option.some.injEq] at step
  split at step
  · cases step
    exact .still kept trivial
  · rename_i db inserted
    cases step
    split at inserted
    · cases inserted
    · refine ⟨kept.insertRestored known.1 inserted, ⟨⟨?_, known.2⟩, ?_⟩, fun other apart => ?_⟩
      · rw [← known.1, (insertRepo_eq inserted).2]
        rfl
      · exact live_of_found (findRepo_insertRepo inserted)
      · exact .rowsOnly (insertRepo_other inserted (Ne.symm apart)) rfl

theorem copying_kept
    (known : TrashedBy world.lib.db user trashed ∧ world.lib.db.Live trashed.repoId) :
    StepKeeps user tick world (.library (.copying trashed)) := by
  intro world' call' step
  simp only [ownerStep, ownLibraryStep, libraryStep, restoreStep, Option.map_some,
    Option.some.injEq] at step
  split at step
  · cases step
    exact .still kept trivial
  · rename_i db copied
    cases step
    split at copied
    · cases copied
    · cases copyFromChecked_eq copied
      refine ⟨kept.copyFrom, known, fun other apart => ?_⟩
      exact .rowsOnly (copyFrom_other kept.agrees (Ne.symm apart)) rfl

end

variable {db : LibraryDb}

theorem restoreHead_headBack (now : Int) (live : db.Live trashed.repoId)
    (recorded : HeadRecorded db trashed) : HeadBack (db.restoreHead trashed now) trashed := by
  obtain ⟨row, found⟩ := Option.isSome_iff_exists.mp live
  unfold HeadRecorded at recorded
  split at recorded
  · rename_i head isHead
    obtain ⟨commit, isCommit⟩ := Option.isSome_iff_exists.mp recorded
    have moved : db.restoreHead trashed now =
        db.updateHeadCommit trashed.repoId (some head) commit.columns.ctime now := by
      simp [LibraryDb.restoreHead, isHead, isCommit]
    obtain ⟨updated, isUpdated, newHead, _⟩ :=
      @updateHeadCommit_findRepo _ _ _ now (some head) commit.columns.ctime found
    exact ⟨updated, by rw [moved, isUpdated], by rw [newHead, isHead]⟩
  · rename_i noHead
    have same : db.restoreHead trashed now = db := by simp [LibraryDb.restoreHead, noHead]
    exact ⟨row, by rw [same, found], by rw [recorded row found, noHead]⟩

variable {id : String} {ownerId : Int} {call : LibraryCall}

section

variable (kept : OwnersKept world)
include kept

theorem heading_kept
    (known : TrashedBy world.lib.db user trashed ∧ world.lib.db.Live trashed.repoId)
    (apart : OwnerCallApart world (.library (.heading trashed))) :
    StepKeeps user tick world (.library (.heading trashed)) := by
  intro world' call' step
  simp only [ownerStep, ownLibraryStep, libraryStep, restoreStep, Option.map_some,
    Option.some.injEq] at step
  split at step
  · cases step
    exact .still kept trivial
  · cases step
    have back := restoreHead_headBack tick.now known.2 apart
    have untouched : ∀ other, other ≠ trashed.repoId → LibraryDb.SameRows other world.lib.db
        (world.lib.db.restoreHead trashed tick.now) := fun _ => restoreHead_other
    refine ⟨?_, ⟨⟨?_, known.1.2⟩, back⟩, fun other apart => .rowsOnly (untouched other
      (Ne.symm apart)) rfl⟩
    · rcases restoreHead_eq world.lib.db trashed tick.now with
        same | ⟨head, commit, _, _, moved⟩
      · rw [same]
        exact kept
      · rw [moved]
        exact kept.updateHeadCommit _ _
    · rw [← known.1.1]
      rcases restoreHead_eq world.lib.db trashed tick.now with
        same | ⟨head, commit, _, _, moved⟩
      · rw [same]
      · rw [moved]
        rfl

theorem joining_kept (known : TrashedBy world.lib.db user trashed ∧ HeadBack world.lib.db trashed) :
    StepKeeps user tick world (.library (.joining trashed)) := by
  intro world' call' step
  simp only [ownerStep, ownLibraryStep, libraryStep, restoreStep, Option.map_some,
    Option.some.injEq] at step
  split at step
  · cases step
    exact .still kept trivial
  · rename_i db joined
    cases step
    split at joined
    · cases joined
    · obtain ⟨members, rfl⟩ := restoreMemberChecked_eq joined
      exact ⟨kept.members members, known, fun other _ => .rowsOnly ⟨rfl, rfl, rfl, rfl, rfl, rfl⟩ rfl⟩

theorem dropping_kept (known : TrashedBy world.lib.db user trashed ∧ HeadBack world.lib.db trashed) :
    StepKeeps user tick world (.library (.dropping trashed)) := by
  intro world' call' step
  simp only [ownerStep, ownLibraryStep, Option.some.injEq] at step
  split at step
  · cases step
    exact .still kept trivial
  · cases step
    exact ⟨kept.dropArchivedCommits, known, fun other apart =>
      .rowsOnly (dropArchivedCommits_other (Ne.symm apart)) rfl⟩

theorem droppingObjects_kept
    (known : TrashedBy world.lib.db user trashed ∧ HeadBack world.lib.db trashed) :
    StepKeeps user tick world (.droppingObjects trashed) := by
  intro world' call' step
  simp only [ownerStep, Option.some.injEq] at step
  split at step
  · cases step
    exact .still kept trivial
  · cases step
    exact ⟨kept.dropArchivedFsObjects, known, fun other apart =>
      .rowsOnly (dropArchivedFsObjects_other (Ne.symm apart)) rfl⟩

theorem untrashing_kept : StepKeeps user tick world (.library (.untrashing trashed)) := by
  intro world' call' step
  simp only [ownerStep, ownLibraryStep, libraryStep, restoreStep, Option.map_some,
    Option.some.injEq, OwnersWorld.note] at step
  split at step
  · cases step
    exact .still kept trivial
  · cases step
    exact ⟨kept.deleteDeleted, trivial, fun other apart =>
      .rowsOnly (deleteDeleted_other (Ne.symm apart)) rfl⟩

/-! ## Creations -/

theorem creating_kept {name description : String} {keys : KeyColumns}
    (apart : OwnerCallApart world (.library (.creating id name description ownerId keys))) :
    StepKeeps user tick world (.library (.creating id name description ownerId keys)) := by
  intro world' call' step
  simp only [ownerStep, ownLibraryStep, libraryStep, createStep, Option.map_some,
    Option.some.injEq] at step
  split at step
  · cases step
    exact .still kept trivial
  · rename_i db inserted
    cases step
    split at inserted
    · cases inserted
    · have absent : world.lib.db.findRepo id = none := (insertRepo_eq inserted).1
      have notLive : ¬ world.lib.db.Live id := by
        rw [LibraryDb.Live, absent]
        exact Bool.false_ne_true
      have notTrashed : world.lib.db.findDeleted id = none := by
        have := apart.resolve_left notLive
        rwa [LibraryDb.InTrash, Bool.not_eq_true, Option.isSome_eq_false_iff,
          Option.isNone_iff_eq_none] at this
      refine ⟨?_, trivial, fun other isOther => ?_⟩
      · rw [notTrashed]
        have created := @OwnersKept.created _ _
          (LibraryDb.createdRow id name description ownerId keys tick.now) kept notTrashed inserted
        exact created
      · refine .rowsOnly (insertRepo_other inserted fun isHere => ?_) rfl
        exact isOther ⟨isHere.symm, notLive⟩

theorem joiningCreator_kept :
    StepKeeps user tick world (.library (.joiningCreator id ownerId)) := by
  intro world' call' step
  simp only [ownerStep, ownLibraryStep, libraryStep, createStep, Option.map_some,
    Option.some.injEq] at step
  cases step
  dsimp only [OwnersWorld.note]
  split
  · exact .still kept trivial
  · exact ⟨kept.members _, trivial, fun other _ => .rowsOnly ⟨rfl, rfl, rfl, rfl, rfl, rfl⟩ rfl⟩

theorem libraryCall_kept (known : LibraryCallKept world.lib.db user call)
    (apart : OwnerCallApart world (.library call)) : StepKeeps user tick world (.library call) := by
  intro world' call' step
  cases call with
  | deleting repoId userId => exact deleting_kept kept known step
  | trashing row => exact trashing_kept kept known apart step
  | insertingTrash row => exact insertingTrash_kept kept known step
  | archiving repoId => exact archiving_kept kept known step
  | restoring repoId userId => exact restoring_kept kept known step
  | findingRepo trashed => exact findingRepo_kept kept known step
  | creatingRepo trashed => exact creatingRepo_kept kept known step
  | copying trashed => exact copying_kept kept known step
  | heading trashed => exact heading_kept kept known apart step
  | joining trashed => exact joining_kept kept known step
  | dropping trashed => exact dropping_kept kept known step
  | untrashing trashed => exact untrashing_kept kept step
  | creating id name description ownerId keys => exact creating_kept kept apart step
  | joiningCreator id ownerId => exact joiningCreator_kept kept step
  | done => cases step
  | _ => exact known.elim

end

/-! ## Uploads -/

variable {upload : LibraryUpload}

theorem storeNext_known (canWrite : db.CanWrite upload.repoId user)
    (rest : List (String × List UInt8)) : OwnerCallKept db user (storeNext upload rest) := by
  cases rest with
  | nil => exact ⟨canWrite, fun object listed => Or.inl listed⟩
  | cons block rest => exact ⟨canWrite, rfl⟩

theorem uploading_kept (kept : OwnersKept world) :
    StepKeeps user tick world (.uploading upload) := by
  rintro _ _ ⟨⟩
  refine .still kept ?_
  split
  · rename_i allowed
    exact storeNext_known (canWrite_iff.mp allowed) upload.blocks
  · trivial

theorem writeStep_only {next : LibraryCall} (writes : WritesTo repoId call)
    (step : writeStep tick lib call = some (lib', next)) :
    (next = .done ∨ WritesTo repoId next) ∧ ∀ other ≠ repoId, ∀ id,
      BlockTree.findBlock lib'.files other id = BlockTree.findBlock lib.files other id := by
  cases call with
  | authorizing id block data =>
    cases step
    refine ⟨?_, fun _ _ _ => rfl⟩
    split
    · exact Or.inl rfl
    · exact Or.inr writes
  | probing id block data =>
    simp only [writeStep, Option.some.injEq] at step
    split at step <;> cases step
    · exact ⟨Or.inl rfl, fun _ _ _ => rfl⟩
    · exact ⟨Or.inr writes, fun _ _ _ => rfl⟩
  | statting id block data =>
    simp only [writeStep, Option.some.injEq] at step
    split at step
    · cases step
      exact ⟨Or.inr writes, fun _ _ _ => rfl⟩
    · split at step <;> cases step
      · exact ⟨Or.inl rfl, fun _ _ _ => rfl⟩
      · exact ⟨Or.inr writes, fun _ _ _ => rfl⟩
  | preparing id block data exclusive =>
    simp only [writeStep, Option.some.injEq] at step
    split at step
    · cases step
      exact ⟨Or.inl rfl, fun _ _ _ => rfl⟩
    · cases step
      refine ⟨Or.inr writes, fun _ _ _ => ?_⟩
      split <;> rfl
  | publishing id block data exclusive =>
    simp only [writeStep, Option.some.injEq] at step
    split at step
    · cases step
      exact ⟨Or.inl rfl, fun _ _ _ => rfl⟩
    · cases step
      refine ⟨Or.inl rfl, fun other apart other' => ?_⟩
      show BlockTree.findBlock (if _ then _ else _) _ _ = _
      split
      · rfl
      · refine BlockTree.findBlock_put_of_ne (Or.inl ?_)
        rw [show id = repoId from writes]
        exact apart
  | _ => exact writes.elim

theorem storing_kept {rest : List (String × List UInt8)} (kept : OwnersKept world)
    (known : world.lib.db.CanWrite upload.repoId user ∧ WritesTo upload.repoId call)
    (apart : OwnerCallApart world (.storing upload rest call)) :
    StepKeeps user tick world (.storing upload rest call) := by
  intro world' call' step
  obtain ⟨⟨lib, next⟩, written, isNext⟩ := Option.map_eq_some_iff.mp step
  obtain ⟨goesOn, elsewhere⟩ := writeStep_only known.2 written
  have cached : ∀ repoId id data, call = .probing repoId id data →
      world.lib.cachedLen repoId id = some data.length →
        BlockTree.HasBlock world.lib.files repoId id := by
    rintro repoId id data rfl
    exact apart
  have move := (writeStep_moves cached written).1
  cases isNext
  have canWrite : lib.db.CanWrite upload.repoId user := by
    rw [move.db]
    exact known.1
  refine ⟨kept.disk move.db (kept.blocks.written move), ?_, fun other isOther => ?_⟩
  · show OwnerCallKept lib.db user _
    split
    · trivial
    · split
      · exact storeNext_known canWrite _
      · trivial
    · rename_i notNil notCons
      refine ⟨canWrite, goesOn.resolve_left fun isDone => ?_⟩
      cases rest with
      | nil => exact notNil isDone rfl
      | cons block rest => exact notCons block.1 block.2 rest isDone rfl
  · refine ⟨?_, elsewhere other (Ne.symm isOther)⟩
    rw [move.db]
    exact .refl other _

variable {rest : List (String × FsObjectColumns)}

theorem ObjectsStored.next {fsId : String} {object : FsObjectColumns}
    (stored : ObjectsStored db upload ((fsId, object) :: rest))
    (isStored : (db.fsObjects.find upload.repoId fsId).isSome = true) :
    ObjectsStored db upload rest := by
  intro other listed
  rcases stored other listed with isRest | present
  · rcases List.mem_cons.mp isRest with rfl | later
    · exact Or.inr isStored
    · exact Or.inl later
  · exact Or.inr present

section

variable (kept : OwnersKept world)
include kept

theorem insertingObjects_kept
    (known : world.lib.db.CanWrite upload.repoId user ∧ ObjectsStored world.lib.db upload rest) :
    StepKeeps user tick world (.insertingObjects upload rest) := by
  intro world' call' step
  cases rest with
  | nil =>
    cases step
    exact .still kept known
  | cons object rest =>
    obtain ⟨fsId, object⟩ := object
    simp only [ownerStep, commitUploadStep, Option.some.injEq] at step
    split at step
    · cases step
      exact .still kept trivial
    · rename_i db inserted
      cases step
      split at inserted
      · cases inserted
      · refine ⟨kept.insertFsObject rfl inserted, ?_, fun other isOther =>
          .rowsOnly (insertFsObject_other inserted (Ne.symm isOther)) rfl⟩
        show db.CanWrite upload.repoId user ∧ ObjectsStored db upload rest
        rcases insertFsObject_eq inserted with
          ⟨rfl, present⟩ | ⟨fsObjects, isInsert, rfl⟩
        · exact ⟨known.1, known.2.next present⟩
        · have stays : ObjectsStored { world.lib.db with fsObjects := fsObjects } upload
              ((fsId, object) :: rest) := fun other listed =>
            (known.2 other listed).imp_right (ContentTable.isSome_find_insert isInsert)
          exact ⟨known.1, stays.next (ContentTable.isSome_find_insert_self isInsert)⟩

theorem readingHead_kept
    (known : world.lib.db.CanWrite upload.repoId user ∧ ObjectsStored world.lib.db upload []) :
    StepKeeps user tick world (.readingHead upload) := by
  rintro _ _ ⟨⟩
  refine .still kept ?_
  split
  · trivial
  · dsimp only
    split
    · trivial
    · exact known

variable {parent : Option String}

theorem insertingCommit_kept
    (known : world.lib.db.CanWrite upload.repoId user ∧ ObjectsStored world.lib.db upload []) :
    StepKeeps user tick world (.insertingCommit upload parent) := by
  intro world' call' step
  simp only [ownerStep, commitUploadStep, Option.some.injEq] at step
  split at step
  · cases step
    exact .still kept trivial
  · rename_i db inserted
    cases step
    split at inserted
    · cases inserted
    · refine ⟨kept.insertCommit rfl inserted, ?_, fun other isOther =>
        .rowsOnly (insertCommit_other inserted (Ne.symm isOther)) rfl⟩
      obtain ⟨commits, isInsert, rfl⟩ := insertCommit_eq inserted
      exact ⟨known.1, known.2, ContentTable.isSome_find_insert_self isInsert⟩

theorem movingHead_kept (known : OwnerCallKept world.lib.db user (.movingHead upload parent)) :
    StepKeeps user tick world (.movingHead upload parent) := by
  intro world' call' step
  obtain ⟨_, objects, commit⟩ := known
  simp only [ownerStep, commitUploadStep, Option.some.injEq] at step
  split at step
  · cases step
    exact .still kept trivial
  · split at step
    · cases step
      exact .still kept trivial
    · split at step
      · cases step
        exact .still kept trivial
      · cases step
        refine ⟨kept.movedHead _ _ ⟨commit, fun fsId listed => ?_⟩, trivial, fun other isOther =>
          .rowsOnly (updateHeadCommit_other (Ne.symm isOther)) rfl⟩
        obtain ⟨object, isObject, rfl⟩ := List.mem_map.mp listed
        exact (objects object isObject).resolve_left List.not_mem_nil

/-! ## Purges -/

theorem purging_kept (apart : OwnerCallApart world (.purging repoId)) :
    StepKeeps user tick world (.purging repoId) := by
  rintro _ _ ⟨⟩
  refine .still kept ?_
  split
  · trivial
  · rename_i trashed found
    split
    · trivial
    · rename_i isOwner
      have named := findDeleted_id found
      refine ⟨⟨by rwa [named], not_not.mp isOwner⟩, ?_⟩
      rw [named]
      exact apart

section

variable (known : TrashedBy world.lib.db user trashed ∧ ¬ world.lib.db.Live trashed.repoId)
include known

theorem purgingCommits_kept : StepKeeps user tick world (.purgingCommits trashed) := by
  intro world' call' step
  simp only [ownerStep, purgeStep, Option.some.injEq] at step
  split at step
  · cases step
    exact .still kept trivial
  · cases step
    exact ⟨kept.dropArchivedCommits, known, fun other isOther =>
      .rowsOnly (dropArchivedCommits_other (Ne.symm isOther)) rfl⟩

theorem purgingObjects_kept : StepKeeps user tick world (.purgingObjects trashed) := by
  intro world' call' step
  simp only [ownerStep, purgeStep, Option.some.injEq] at step
  split at step
  · cases step
    exact .still kept trivial
  · cases step
    exact ⟨kept.dropArchivedFsObjects, known, fun other isOther =>
      .rowsOnly (dropArchivedFsObjects_other (Ne.symm isOther)) rfl⟩

theorem purgingEntry_kept : StepKeeps user tick world (.purgingEntry trashed) := by
  intro world' call' step
  simp only [ownerStep, purgeStep, Option.some.injEq] at step
  split at step
  · cases step
    exact .still kept trivial
  · cases step
    refine ⟨kept.deleteDeleted, ?_, fun other isOther =>
      .rowsOnly (deleteDeleted_other (Ne.symm isOther)) rfl⟩
    rintro (isLive | inTrash)
    · exact known.2 isLive
    · have gone : (world.lib.db.deleteDeleted trashed.repoId).findDeleted trashed.repoId = none :=
        findDeleted_deleteDeleted
      have inTrash : (world.lib.db.deleteDeleted trashed.repoId).InTrash trashed.repoId := inTrash
      rw [LibraryDb.InTrash, gone] at inTrash
      cases inTrash

end

theorem clearing_kept (known : ¬ world.lib.db.Known repoId) :
    StepKeeps user tick world (.clearing repoId) := by
  intro world' call' step
  simp only [ownerStep, purgeStep, Option.some.injEq] at step
  split at step
  · cases step
    exact .still kept trivial
  · split at step
    · rename_i block _
      cases step
      have elsewhere : ∀ other ≠ repoId, ∀ id,
          BlockTree.findBlock (BlockTree.unlink world.lib.files repoId block) other id =
            BlockTree.findBlock world.lib.files other id :=
        fun other isOther id => BlockTree.findBlock_unlink_of_ne (Or.inl isOther)
      refine ⟨kept.disk rfl fun other id isKnown listed => ?_, known, fun other isOther =>
        ⟨.refl other _, elsewhere other (Ne.symm isOther)⟩⟩
      have apart : other ≠ repoId := by
        rintro rfl
        exact known isKnown
      rw [BlockTree.HasBlock, elsewhere other apart]
      exact kept.blocks other id isKnown listed
    · cases step
      split
      · exact .still kept trivial
      · exact ⟨kept.disk rfl kept.blocks, trivial, fun other _ => .rowsOnly (.refl other _) rfl⟩

/-! ## All of them -/

theorem ownerStep_kept {call : OwnerCall} (known : OwnerCallKept world.lib.db user call)
    (apart : OwnerCallApart world call)
    (step : ownerStep user tick world call = some (world', call')) :
    StepKept user world call world' call' := by
  cases call with
  | library call => exact libraryCall_kept kept known apart step
  | droppingObjects trashed => exact droppingObjects_kept kept known step
  | uploading upload => exact uploading_kept kept step
  | storing upload rest call => exact storing_kept kept known apart step
  | insertingObjects upload rest => exact insertingObjects_kept kept known step
  | readingHead upload => exact readingHead_kept kept known step
  | insertingCommit upload parent => exact insertingCommit_kept kept known step
  | movingHead upload parent => exact movingHead_kept kept known step
  | purging repoId => exact purging_kept kept apart step
  | purgingCommits trashed => exact purgingCommits_kept kept known step
  | purgingObjects trashed => exact purgingObjects_kept kept known step
  | purgingEntry trashed => exact purgingEntry_kept kept known step
  | clearing repoId => exact clearing_kept kept known step
  | done => cases step

end

end Nanofile
