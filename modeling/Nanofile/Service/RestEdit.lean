import Nanofile.Fs.TreeEdit
import Nanofile.Service.History
import Nanofile.Service.UploadComplete

/-!
# A web write moves HEAD by its own edit

`create_commit` takes as the parent of the new tree the HEAD it reads when the tree
is already built.  The tree of the new commit is then the edited tree of that HEAD as
long as the directories the tree was built from are the ones HEAD still has.
-/

set_option autoImplicit false

namespace Nanofile

open Nanofile.Lib

variable {Oid : Type} [DecidableEq Oid] [Digests Oid]

def rootAt (commits : CommitTable Oid) : Option Oid → Option Oid
  | none => some emptySha1
  | some headId => (commits.find headId).map CommitRow.rootId

theorem rootAt_extends {before after : CommitTable Oid}
    (grown : CommitTable.Extends before after) {headId : Option Oid} {root : Oid}
    (found : rootAt before headId = some root) : rootAt after headId = some root := by
  cases headId with
  | none => exact found
  | some headId =>
    obtain ⟨row, listed, isRoot⟩ := Option.map_eq_some_iff.mp found
    exact Option.map_eq_some_iff.mpr ⟨row, grown _ _ listed, isRoot⟩

/-- The tree `rootId` is the tree of HEAD `expected` with the edit made at its path. -/
def EditOf (repo : Repo Oid) (edit : DirEdit Oid) (expected : Option Oid) (rootId : Oid) :
    Prop :=
  ∃ headRoot, rootAt repo.commits expected = some headRoot ∧
    EditedAt repo.fsObjects edit.apply (pathComponents edit.parentPath) headRoot rootId

theorem EditOf.grows {before after : Repo Oid} {edit : DirEdit Oid} {expected : Option Oid}
    {rootId : Oid} (edited : EditOf before edit expected rootId) (grown : Grows before after) :
    EditOf after edit expected rootId := by
  obtain ⟨headRoot, isRoot, edited⟩ := edited
  exact ⟨headRoot, rootAt_extends grown.commits isRoot, edited.extends grown.fsObjects⟩

/-- The edited directory is stored, and the levels above it lead down to it. -/
def BuiltFrom (store : FsStore Oid) (edit : DirEdit Oid) (rebuild : Rebuild Oid) : Prop :=
  ∃ entries edited description newParent, StandsFor store rebuild.parentFsId entries ∧
    edit.apply entries = .ok (edited, description) ∧
    StandsFor store newParent (stored edited) ∧
    Rebuilt store rebuild.levels newParent rebuild.top

theorem BuiltFrom.extends {store after : FsStore Oid} {edit : DirEdit Oid}
    {rebuild : Rebuild Oid} (built : BuiltFrom store edit rebuild)
    (grown : Table.Extends store after) : BuiltFrom after edit rebuild := by
  obtain ⟨entries, edited, description, newParent, reads, applied, stands, rebuilt⟩ := built
  exact ⟨entries, edited, description, newParent, reads.extends grown, applied,
    stands.extends grown, rebuilt.extends grown⟩

def RestEdits (repo : Repo Oid) : WriterPc Oid → Prop
  | .rest (.walking edit _ _ _ rebuild) => BuiltFrom repo.fsObjects edit rebuild
  | .rest (.built edit _ rebuild) => BuiltFrom repo.fsObjects edit rebuild
  | .rest (.inserting edit expected row) => EditOf repo edit expected row.rootId
  | .rest (.swapping edit expected commitId) =>
    ∃ row, repo.commits.find commitId = some row ∧ EditOf repo edit expected row.rootId
  | _ => True

theorem RestEdits.grows {before after : Repo Oid} {pc : WriterPc Oid}
    (edits : RestEdits before pc) (grown : Grows before after) : RestEdits after pc := by
  cases pc with
  | branch pc => trivial
  | rest pc =>
    cases pc with
    | walking edit chain description childPath rebuild | built edit description rebuild =>
      exact BuiltFrom.extends edits grown.fsObjects
    | inserting edit expected row => exact EditOf.grows edits grown
    | swapping edit expected commitId =>
      obtain ⟨row, found, edited⟩ := edits
      exact ⟨row, grown.commits _ _ found, edited.grows grown⟩
    | _ => trivial

/-- The directories the new tree is built from are those HEAD has on the path. -/
def StillOnPath (repo : Repo Oid) (edit : DirEdit Oid) (rebuild : Rebuild Oid) : Prop :=
  rebuild.levels.map Prod.fst = pathComponents edit.parentPath ∧
    ∃ headRoot, rootAt repo.commits repo.headCommitId = some headRoot ∧
      LeadsTo repo.fsObjects headRoot rebuild.levels rebuild.parentFsId

/-- The condition on a web write that is about to read HEAD for its commit. -/
def TreeOfHead (state : LockedRepo Oid) : WriterPc Oid → Prop
  | .rest (.built edit _ rebuild) => StillOnPath state.repo edit rebuild
  | _ => True

instance (repo : Repo Oid) (edit : DirEdit Oid) (rebuild : Rebuild Oid) :
    Decidable (StillOnPath repo edit rebuild) :=
  decidable_of_iff (rebuild.levels.map Prod.fst = pathComponents edit.parentPath ∧
      (rootAt repo.commits repo.headCommitId).any (fun headRoot =>
        decide (LeadsTo repo.fsObjects headRoot rebuild.levels rebuild.parentFsId)) = true) (by
    simp [StillOnPath, Option.any_eq_true])

variable [ToString Oid]

theorem restStep_edits {now : Int} {state : LockedRepo Oid} {after : Repo Oid}
    {pc next : RestPc Oid} (genuine : Genuine state.repo.fsObjects)
    (edits : RestEdits state.repo (.rest pc)) (onPath : TreeOfHead state (.rest pc))
    (step : RestStep now state.repo pc after next) : RestEdits after (.rest next) := by
  cases step with
  | @edited edit parentFsId newParent chain description store next ran isNext =>
    obtain ⟨grown, -, entries, edited, reads, applied, stands⟩ := editParent_spec genuine ran
    have built : BuiltFrom store edit ⟨parentFsId, [], newParent⟩ :=
      ⟨entries, edited, description, newParent, reads.extends grown, applied, stands, rfl⟩
    cases isNext with
    | inl isNext | inr isNext => rw [isNext]; exact built
  | @walked edit chain description childPath rebuild level store next ran isNext =>
    obtain ⟨grown, -, listed, readsLevel, standsLevel⟩ := walkUpLevel_spec genuine ran
    obtain ⟨entries, edited, text, newParent, reads, applied, stands, rebuilt⟩ := edits
    have built : BuiltFrom store edit ⟨rebuild.parentFsId,
        (level.childName, level.ancestor) :: rebuild.levels, level.newAncestor⟩ :=
      ⟨entries, edited, text, newParent, reads.extends grown, applied, stands.extends grown,
        listed, rebuild.top, now, rebuilt.extends grown, readsLevel.extends grown, standsLevel⟩
    cases isNext with
    | inl isNext | inr isNext => rw [isNext]; exact built
  | walkEnded => exact edits
  | prepared =>
    obtain ⟨entries, edited, text, newParent, reads, applied, stands, rebuilt⟩ := edits
    obtain ⟨sameNames, headRoot, isRoot, leads⟩ := onPath
    refine ⟨headRoot, isRoot, ?_⟩
    rw [← sameNames]
    exact editedAt_of_rebuilt reads applied stands leads rebuilt
  | @inserted edit expected row commits done =>
    have grown : Grows state.repo { state.repo with commits } :=
      ⟨Table.Extends.refl _, fun _ held => held, CommitTable.extends_insertCommit done⟩
    exact ⟨{ row with id := state.repo.commits.nextId }, CommitTable.find_inserted done,
      EditOf.grows edits grown⟩
  | _ => trivial

def editGuard : Threads (LockedRepo Oid) (WriterPc Oid) →
    ThreadAction (SyncRequest Oid) (WriterJob Oid) (SyncEnv Oid) → Prop :=
  Program.guarded (fun state request => RequestHolds state.repo request) fun state pc _ =>
    TreeOfHead state pc

theorem writes_edit {state : Threads (LockedRepo Oid) (WriterPc Oid)}
    (reached : writerSystem.Reachable editGuard state) :
    Genuine state.shared.repo.fsObjects ∧
      ∀ pc ∈ state.running, RestEdits state.shared.repo pc := by
  have stable : ∀ (before after : LockedRepo Oid) (pc : WriterPc Oid),
      Grows before.repo after.repo → RestEdits before.repo pc → RestEdits after.repo pc :=
    fun _ _ _ grown edits => edits.grows grown
  unfold writerSystem editGuard at reached
  refine Program.threads_invariant (I := fun shared => Genuine shared.repo.fsObjects)
    stable ?_ ?_ ?_ ?_ reached
  · intro shared job _
    cases job with
    | branch job | rest job => trivial
  · intro shared request genuine holds
    have served := serveSync_grows genuine holds
    exact ⟨served.2, served.1⟩
  · intro shared pc env after genuine edits onPath taken
    obtain ⟨left, next⟩ := after
    rcases stepWriter_cases taken with ⟨pc', next', rfl, rfl, step⟩ |
      ⟨pc', next', rfl, rfl, step⟩
    · obtain ⟨grown, genuine'⟩ := step.grows genuine
      exact ⟨genuine', trivial, grown⟩
    · obtain ⟨grown, genuine'⟩ := step.grows genuine
      exact ⟨genuine', restStep_edits genuine edits onPath step, grown⟩
  · intro shared quiet
    exact quiet.1

/-- A web write that moves HEAD moves it to the tree of that HEAD with the write's edit
made, and every file outside the edited directory stays what it is. -/
theorem rest_moves_head_by_its_edit {state next : Threads (LockedRepo Oid) (WriterPc Oid)}
    (reached : writerSystem.Reachable editGuard state) {index : Nat} {env : SyncEnv Oid}
    {pc : RestPc Oid} (running : state.running[index]? = some (.rest pc))
    (taken : writerSystem.step state (.advance index env) = some next)
    (moved : next.shared.repo.headCommitId ≠ state.shared.repo.headCommitId) :
    ∃ edit headRoot commitId row,
      pc = .swapping edit state.shared.repo.headCommitId commitId ∧
      rootAt state.shared.repo.commits state.shared.repo.headCommitId = some headRoot ∧
      next.shared.repo.headCommitId = some commitId ∧
      next.shared.repo.commits.find commitId = some row ∧
      EditedAt next.shared.repo.fsObjects edit.apply (pathComponents edit.parentPath) headRoot
        row.rootId ∧
      ∀ path id, ¬ pathComponents edit.parentPath <+: path →
        (HasFile next.shared.repo.fsObjects (entriesOf next.shared.repo.fsObjects row.rootId)
            path id ↔
          HasFile next.shared.repo.fsObjects (entriesOf next.shared.repo.fsObjects headRoot)
            path id) := by
  obtain ⟨thread, ⟨left, next'⟩, found, advanced, rfl⟩ := Program.step_advance_iff.mp taken
  rw [running, Option.some.injEq] at found
  subst found
  have edits := (writes_edit reached).2 _ (List.mem_of_getElem? running)
  have advanced : stepWriter env state.shared (.rest pc) = some (left, next') := advanced
  rcases stepWriter_cases advanced with ⟨_, _, isBranch, -, -⟩ | ⟨pc', after, same, rfl, step⟩
  · simp at isBranch
  · cases same
    simp only at moved ⊢
    generalize left.repo = repo at step moved ⊢
    cases step with
    | @swapped edit expected commitId unmoved =>
      obtain ⟨row, found, headRoot, isRoot, edited⟩ := edits
      exact ⟨edit, headRoot, commitId, row, by rw [unmoved], unmoved ▸ isRoot, rfl, found,
        edited, fun path id outside => edited.hasFile_iff outside⟩
    | _ => exact absurd rfl moved

def noFile (name : String) : DirEntryData FreeId := fileEntry name .empty 0

/-- A library whose HEAD has one directory as its root, with the objects it needs. -/
def libraryOf (root : FsDirData FreeId) (objects : List (FsDirData FreeId)) : Repo FreeId :=
  let store := (root :: objects).foldl (fun store data => (storeFsDirObject store data).2) .empty
  let head : CommitData FreeId := { bareCommit "head" none with rootId := Digests.dirId root }
  { bareLibrary with
    headCommitId := some head.commitId
    commits := (CommitTable.empty.insertCommit head.row).getD .empty
    fsObjects := store }

theorem genuine_libraryOf (root : FsDirData FreeId) (objects : List (FsDirData FreeId)) :
    Genuine (libraryOf root objects).fsObjects := by
  have stores : ∀ (all : List (FsDirData FreeId)) (store : FsStore FreeId), Genuine store →
      Genuine (all.foldl (fun store data => (storeFsDirObject store data).2) store) := by
    intro all
    induction all with
    | nil => exact fun store genuine => genuine
    | cons data rest ih => exact fun store genuine => ih _ (storeFsDirObject_spec data genuine).2.1
  refine stores _ _ ?_
  intro fsId object _ found
  cases found

def deleteFile (parentPath name : String) : WriterAction :=
  .begin (.rest (.updateDirTree parentPath "user" ("Deleted " ++ name) true fun entries =>
    .ok (entries.filter fun entry => entry.name ≠ name)))

def nestedRoot : FsDirData FreeId :=
  directory [noFile "g", dirEntry "d" (Digests.dirId (directory [noFile "f"]))]

def nestedLibrary : Threads (LockedRepo FreeId) (WriterPc FreeId) :=
  ⟨⟨libraryOf nestedRoot [directory [noFile "f"]], false⟩, []⟩

/-- `/d` is resolved for the first delete, the second one runs, and the first goes on up
to its swap. -/
def deletesApart : List WriterAction :=
  [deleteFile "/d" "f", .advance 0 bareEnv, deleteFile "/" "g"] ++
  List.replicate 6 (.advance 1 bareEnv) ++ List.replicate 5 (.advance 0 bareEnv)

def editCheck (state : Threads (LockedRepo FreeId) (WriterPc FreeId)) : WriterAction → Bool
  | .serve _ => false
  | .begin _ => true
  | .advance index _ =>
    match state.running[index]? with
    | some (.rest (.built edit _ rebuild)) => StillOnPath state.shared.repo edit rebuild
    | _ => true

theorem editCheck_sound (state : Threads (LockedRepo FreeId) (WriterPc FreeId))
    (action : WriterAction) (checked : editCheck state action = true) :
    editGuard state action := by
  cases action with
  | serve request => simp [editCheck] at checked
  | begin job => trivial
  | advance index env =>
    intro pc running
    cases pc with
    | branch pc => trivial
    | rest pc =>
      cases pc with
      | built edit description rebuild => simpa [editCheck, running, TreeOfHead] using checked
      | _ => trivial

def frontMovesHead (state : Threads (LockedRepo FreeId) (WriterPc FreeId)) : Bool :=
  match (state.running[0]? : Option (WriterPc FreeId)) with
  | some (.rest _) => (writerSystem.step state (.advance 0 bareEnv)).any fun next =>
    next.shared.repo.headCommitId ≠ state.shared.repo.headCommitId
  | _ => false

theorem frontMovesHead_iff {state : Threads (LockedRepo FreeId) (WriterPc FreeId)} :
    frontMovesHead state = true ↔ ∃ pc next, state.running[0]? = some (.rest pc) ∧
      writerSystem.step state (.advance 0 bareEnv) = some next ∧
      next.shared.repo.headCommitId ≠ state.shared.repo.headCommitId := by
  unfold frontMovesHead
  split
  · rename_i pc running
    simp [running, Option.any_eq_true]
  · rename_i other
    simp only [Bool.false_eq_true, false_iff]
    intro found
    obtain ⟨pc, _, running, -⟩ := found
    exact other pc running

theorem deletes_apart_are_edits : ∃ state pc next,
    writerSystem.runChecked editCheck deletesApart nestedLibrary = some state ∧
    state.running[0]? = some (.rest pc) ∧
    writerSystem.step state (.advance 0 bareEnv) = some next ∧
    ∃ edit headRoot commitId row,
      pc = .swapping edit state.shared.repo.headCommitId commitId ∧
      rootAt state.shared.repo.commits state.shared.repo.headCommitId = some headRoot ∧
      next.shared.repo.headCommitId = some commitId ∧
      next.shared.repo.commits.find commitId = some row ∧
      EditedAt next.shared.repo.fsObjects edit.apply (pathComponents edit.parentPath) headRoot
        row.rootId ∧
      ∀ path id, ¬ pathComponents edit.parentPath <+: path →
        (HasFile next.shared.repo.fsObjects (entriesOf next.shared.repo.fsObjects row.rootId)
            path id ↔
          HasFile next.shared.repo.fsObjects (entriesOf next.shared.repo.fsObjects headRoot)
            path id) := by
  have ran : (writerSystem.runChecked editCheck deletesApart nestedLibrary).map frontMovesHead =
      some true := by decide +kernel
  obtain ⟨state, run, moves⟩ := Option.map_eq_some_iff.mp ran
  obtain ⟨pc, next, running, taken, moved⟩ := frontMovesHead_iff.mp moves
  have start : writerSystem.init nestedLibrary := ⟨⟨genuine_libraryOf _ _, rfl⟩, rfl⟩
  have reached := System.reachable_of_runChecked editCheck_sound deletesApart _ state
    (.init start) run
  exact ⟨state, pc, next, run, running, taken,
    rest_moves_head_by_its_edit reached running taken moved⟩

def flatLibrary : Threads (LockedRepo FreeId) (WriterPc FreeId) :=
  ⟨⟨libraryOf (directory [noFile "g", noFile "f"]) [], false⟩, []⟩

/-- Both deletes edit the root: the first has resolved it before the second one runs. -/
def deletesTogether : List WriterAction :=
  [deleteFile "/" "f", .advance 0 bareEnv, deleteFile "/" "g"] ++
  List.replicate 6 (.advance 1 bareEnv) ++ List.replicate 4 (.advance 0 bareEnv)

/-- The front call edits the root, and what its commit has is not the edited tree of HEAD. -/
def otherTree (state next : Threads (LockedRepo FreeId) (WriterPc FreeId)) : Bool :=
  match (state.running[0]? : Option (WriterPc FreeId)) with
  | some (.rest (.swapping edit _ commitId)) =>
    pathComponents edit.parentPath = [] &&
    (rootAt state.shared.repo.commits state.shared.repo.headCommitId).all fun headRoot =>
      (next.shared.repo.commits.find commitId).all fun row =>
        match edit.apply (entriesOf next.shared.repo.fsObjects headRoot) with
        | .ok (entries, _) =>
          entriesOf next.shared.repo.fsObjects row.rootId ≠ stored entries
        | .error _ => true
  | _ => false

/-- The second delete is undone: `g` is back in the tree of the first one's commit. -/
theorem deleted_file_is_back : ∃ state next pc,
    writerSystem.Reachable (fun _ _ => True) state ∧
    state.running[0]? = some (.rest pc) ∧
    writerSystem.step state (.advance 0 bareEnv) = some next ∧
    next.shared.repo.headCommitId ≠ state.shared.repo.headCommitId ∧
    ¬ ∃ edit headRoot commitId row,
      pc = .swapping edit state.shared.repo.headCommitId commitId ∧
      rootAt state.shared.repo.commits state.shared.repo.headCommitId = some headRoot ∧
      next.shared.repo.headCommitId = some commitId ∧
      next.shared.repo.commits.find commitId = some row ∧
      EditedAt next.shared.repo.fsObjects edit.apply (pathComponents edit.parentPath) headRoot
        row.rootId := by
  have ran : (writerSystem.runChecked (fun _ _ => true) deletesTogether flatLibrary).map
      (fun state => (frontMovesHead state, (writerSystem.step state (.advance 0 bareEnv)).map
        (otherTree state))) = some (true, some true) := by decide +kernel
  obtain ⟨state, run, facts⟩ := Option.map_eq_some_iff.mp ran
  obtain ⟨moves, other⟩ := Prod.mk.inj facts
  obtain ⟨pc, next, running, taken, moved⟩ := frontMovesHead_iff.mp moves
  have start : writerSystem.init flatLibrary := ⟨⟨genuine_libraryOf _ _, rfl⟩, rfl⟩
  have reached := System.reachable_of_runChecked (fun _ _ _ => trivial) deletesTogether _ state
    (.init start) run
  refine ⟨state, next, pc, reached, running, taken, moved, ?_⟩
  intro claimed
  obtain ⟨edit, headRoot, commitId, row, rfl, isRoot, -, found, edited⟩ := claimed
  simp only [taken, Option.map_some, Option.some.injEq, otherTree, running, isRoot, found,
    Option.all_some, Bool.and_eq_true, decide_eq_true_eq] at other
  obtain ⟨atRoot, different⟩ := other
  rw [atRoot] at edited
  obtain ⟨entries, description, applied, same⟩ := edited.entriesOf_here
  simp [applied, same] at different

end Nanofile
