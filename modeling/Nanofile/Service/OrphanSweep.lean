import Nanofile.Service.OrphanDirs

/-!
# Which interleavings of the sweep are safe

The writers keep an id in one of the two tables, but the sweep reads them one after the other.
As long as no restore ends and no library is created between the lookups of a sweep and the end of
its removal, the directory of a library is never removed.
-/

set_option autoImplicit false

namespace Nanofile

open Nanofile.Lib LibraryDb

/-! ## The statement -/

/-- The sweep has not found the id in `repos` and has not finished with its directory. -/
def PastLookup (repoId : String) : LibraryCall → Prop
  | .checkingTrash id _ => id = repoId
  | .removing id _ => id = repoId
  | _ => False

/-- No library is created while a sweep is past its first lookup of the id, unless the id is in
the trash, and no trash entry goes while a sweep is between its two lookups; restores and
deletions find the library they go on with still there; and a cached block is there. -/
def CallApart (state : Threads LibraryWorld LibraryCall) : LibraryCall → Prop
  | .creating id _ _ _ _ => state.shared.db.InTrash id ∨
      ∀ other ∈ state.running, ¬ PastLookup id other
  | .creatingRepo trashed => state.shared.db.Known trashed.repoId
  | .insertingTrash row => state.shared.db.Known row.id
  | .untrashing trashed => ∀ dirs, .checkingTrash trashed.repoId dirs ∉ state.running
  | .probing repoId id data => state.shared.cachedLen repoId id = some data.length →
      BlockTree.HasBlock state.shared.files repoId id
  | _ => True

def sweepsApart (state : Threads LibraryWorld LibraryCall) :
    ThreadAction LibraryRequest LibraryJob LibraryTick → Prop
  | .advance index _ => ∀ call, state.running[index]? = some call → CallApart state call
  | _ => True

/-- Every library has the blocks it had and those that were written to it. -/
def KeepsBlocks (world : LibraryWorld) : Prop :=
  ∀ repoId id, world.db.Known repoId → (repoId, id) ∈ world.kept →
    BlockTree.HasBlock world.files repoId id

/-! ## The tables -/

namespace LibraryDb

variable {db db' : LibraryDb} {repoId id : String} {now : Int}

def SameTables (db db' : LibraryDb) : Prop :=
  ∀ id, (db'.Live id ↔ db.Live id) ∧ (db'.InTrash id ↔ db.InTrash id)

theorem SameTables.refl (db : LibraryDb) : SameTables db db := fun _ => ⟨Iff.rfl, Iff.rfl⟩

theorem insertRepo_some {row : RepoRow} (inserted : db.insertRepo row = some db') :
    ∀ id, (db'.Live id ↔ db.Live id ∨ id = row.id) ∧ (db'.InTrash id ↔ db.InTrash id) := by
  unfold insertRepo at inserted
  split at inserted
  · cases inserted
  · cases inserted
    exact fun id => ⟨isSome_find?_concat RepoRow.id db.repos row id, Iff.rfl⟩

theorem insertDeleted_some {row : DeletedRepoRow} (inserted : db.insertDeleted row = some db') :
    ∀ id, (db'.Live id ↔ db.Live id) ∧ (db'.InTrash id ↔ db.InTrash id ∨ id = row.repoId) := by
  unfold insertDeleted at inserted
  split at inserted
  · cases inserted
  · cases inserted
    exact fun id => ⟨Iff.rfl, isSome_find?_concat DeletedRepoRow.repoId db.deletedRepos row id⟩

theorem copyFromChecked_some (copied : db.copyFromChecked repoId = some db') :
    SameTables db db' := by
  unfold copyFromChecked at copied
  split at copied
  · cases copied
  · cases copied
    exact .refl db

theorem restoreMemberChecked_some {trashed : DeletedRepoRow}
    (joined : db.restoreMemberChecked trashed now = some db') : SameTables db db' := by
  unfold restoreMemberChecked at joined
  split at joined
  · cases joined
  · unfold restoreMember at joined
    split at joined
    · cases joined
      exact .refl db
    · split at joined <;> cases joined
      exact .refl db

theorem updateHeadCommit_same (db : LibraryDb) (repoId : String) (head : Option String)
    (updatedAt now : Int) : SameTables db (db.updateHeadCommit repoId head updatedAt now) := by
  refine fun id => ⟨?_, Iff.rfl⟩
  unfold Live findRepo updateHeadCommit
  rw [List.find?_map, Option.isSome_map]
  have sameId : ((fun row : RepoRow => decide (row.id = id)) ∘ fun row =>
      if row.id = repoId then
        { row with headCommitId := head, updatedAt := if updatedAt = 0 then now else updatedAt }
      else row) = fun row => decide (row.id = id) := by
    funext row
    simp only [Function.comp_apply]
    split <;> rfl
  rw [sameId]

theorem restoreHead_same (db : LibraryDb) (trashed : DeletedRepoRow) (now : Int) :
    SameTables db (db.restoreHead trashed now) := by
  unfold restoreHead
  split
  · exact .refl db
  · split
    · exact .refl db
    · exact updateHeadCommit_same db _ _ _ now

theorem deleteDeleted_tables (db : LibraryDb) (repoId : String) :
    ∀ id, ((db.deleteDeleted repoId).Live id ↔ db.Live id) ∧
      ((db.deleteDeleted repoId).InTrash id ↔ db.InTrash id ∧ id ≠ repoId) :=
  fun id => ⟨Iff.rfl,
    isSome_find?_filter_ne DeletedRepoRow.repoId db.deletedRepos repoId id⟩

theorem archiveAndDelete_tables (db : LibraryDb) (repoId : String) :
    ∀ id, ((db.archiveAndDelete repoId).Live id ↔ db.Live id ∧ id ≠ repoId) ∧
      ((db.archiveAndDelete repoId).InTrash id ↔ db.InTrash id) :=
  fun id => ⟨isSome_find?_filter_ne RepoRow.id db.repos repoId id, Iff.rfl⟩

end LibraryDb

/-! ## The steps -/

variable {tick : LibraryTick} {world after : LibraryWorld} {call call' : LibraryCall}

/-- What a step of a deletion, a restore or a creation does. -/
inductive TableMove (world : LibraryWorld) : LibraryCall → LibraryWorld → Prop
  | same (call : LibraryCall) (db : LibraryDb) (tables : world.db.SameTables db) :
      TableMove world call { world with db := db }
  | created (id name description : String) (ownerId : Int) (keys : KeyColumns) (db : LibraryDb)
      (kept : List (String × String))
      (tables : ∀ other, (db.Live other ↔ world.db.Live other ∨ other = id) ∧
        (db.InTrash other ↔ world.db.InTrash other))
      (isKept : ∀ entry ∈ kept, entry ∈ world.kept ∧ (entry.1 = id → world.db.InTrash id)) :
      TableMove world (.creating id name description ownerId keys)
        { world with db := db, kept := kept }
  | restored (trashed : DeletedRepoRow) (db : LibraryDb)
      (tables : ∀ other, (db.Live other ↔ world.db.Live other ∨ other = trashed.repoId) ∧
        (db.InTrash other ↔ world.db.InTrash other)) :
      TableMove world (.creatingRepo trashed) { world with db := db }
  | trashed (row : RepoRow) (db : LibraryDb)
      (tables : ∀ other, (db.Live other ↔ world.db.Live other) ∧
        (db.InTrash other ↔ world.db.InTrash other ∨ other = row.id)) :
      TableMove world (.insertingTrash row) { world with db := db }
  | archived (repoId : String) (db : LibraryDb)
      (tables : ∀ other, (db.Live other ↔ world.db.Live other ∧ other ≠ repoId) ∧
        (db.InTrash other ↔ world.db.InTrash other)) :
      TableMove world (.archiving repoId) { world with db := db }
  | untrashed (trashed : DeletedRepoRow) (db : LibraryDb)
      (tables : ∀ other, (db.Live other ↔ world.db.Live other) ∧
        (db.InTrash other ↔ world.db.InTrash other ∧ other ≠ trashed.repoId)) :
      TableMove world (.untrashing trashed) { world with db := db }

theorem TableMove.still (world : LibraryWorld) (call : LibraryCall) : TableMove world call world :=
  .same call world.db (.refl _)

theorem deleteStep_moves (step : deleteStep tick world call = some (after, call')) :
    TableMove world call after ∧ ∀ repoId, ¬ PastLookup repoId call' := by
  cases call with
  | deleting repoId userId | trashing row =>
    simp only [deleteStep, Option.some.injEq, Prod.mk.injEq] at step
    obtain ⟨rfl, rfl⟩ := step
    refine ⟨.still _ _, fun repoId past => ?_⟩
    split at past
    · exact past
    · split at past <;> exact past
  | insertingTrash row =>
    simp only [deleteStep, Option.some.injEq] at step
    split at step
    · cases step
      exact ⟨.still _ _, fun _ => id⟩
    · rename_i db inserted
      cases step
      split at inserted
      · cases inserted
      · exact ⟨.trashed row db (insertDeleted_some inserted), fun _ => id⟩
  | archiving repoId =>
    cases step
    refine ⟨?_, fun _ => id⟩
    split
    · exact .still _ _
    · exact .archived repoId _ (archiveAndDelete_tables _ _)
  | _ => cases step

theorem restoreStep_moves (step : restoreStep tick world call = some (after, call')) :
    TableMove world call after ∧ ∀ repoId, ¬ PastLookup repoId call' := by
  cases call with
  | restoring repoId userId | findingRepo trashed =>
    simp only [restoreStep, Option.some.injEq, Prod.mk.injEq] at step
    obtain ⟨rfl, rfl⟩ := step
    refine ⟨.still _ _, fun repoId past => ?_⟩
    split at past
    · exact past
    · split at past <;> exact past
  | creatingRepo trashed =>
    simp only [restoreStep, Option.some.injEq] at step
    split at step
    · cases step
      exact ⟨.still _ _, fun _ => id⟩
    · rename_i db inserted
      cases step
      split at inserted
      · cases inserted
      · exact ⟨.restored trashed db (insertRepo_some inserted), fun _ => id⟩
  | copying trashed =>
    simp only [restoreStep, Option.some.injEq] at step
    split at step
    · cases step
      exact ⟨.still _ _, fun _ => id⟩
    · rename_i db copied
      cases step
      split at copied
      · cases copied
      · exact ⟨.same _ db (copyFromChecked_some copied), fun _ => id⟩
  | heading trashed =>
    simp only [restoreStep, Option.some.injEq] at step
    split at step <;> cases step
    · exact ⟨.still _ _, fun _ => id⟩
    · exact ⟨.same _ _ (restoreHead_same _ _ _), fun _ => id⟩
  | joining trashed =>
    simp only [restoreStep, Option.some.injEq] at step
    split at step
    · cases step
      exact ⟨.still _ _, fun _ => id⟩
    · rename_i db joined
      cases step
      split at joined
      · cases joined
      · exact ⟨.same _ db (restoreMemberChecked_some joined), fun _ => id⟩
  | dropping trashed =>
    simp only [restoreStep, Option.some.injEq] at step
    split at step <;> cases step
    · exact ⟨.still _ _, fun _ => id⟩
    · exact ⟨.same _ _ (.refl _), fun _ => id⟩
  | untrashing trashed =>
    cases step
    refine ⟨?_, fun _ => id⟩
    split
    · exact .still _ _
    · exact .untrashed trashed _ (deleteDeleted_tables _ _)
  | _ => cases step

theorem createStep_moves (step : createStep tick world call = some (after, call')) :
    TableMove world call after ∧ ∀ repoId, ¬ PastLookup repoId call' := by
  cases call with
  | creating id name description ownerId keys =>
    simp only [createStep, Option.some.injEq] at step
    split at step
    · cases step
      exact ⟨.still _ _, fun _ past => past⟩
    · rename_i db inserted
      cases step
      split at inserted
      · cases inserted
      · refine ⟨.created id name description ownerId keys db _
          (insertRepo_some inserted) fun entry listed => ?_, fun _ past => past⟩
        split at listed
        · rename_i inTrash
          exact ⟨listed, fun _ => inTrash⟩
        · obtain ⟨listed, apart⟩ := List.mem_filter.mp listed
          exact ⟨listed, fun isId => absurd isId (of_decide_eq_true apart)⟩
  | joiningCreator id ownerId =>
    cases step
    refine ⟨?_, fun _ past => past⟩
    split
    · exact .still _ _
    · exact .same _ _ (.refl _)
  | _ => cases step

/-- What a step of a write does: files stay, and what is kept is there. -/
structure WriteMove (world after : LibraryWorld) : Prop where
  db : after.db = world.db
  files : ∀ repoId id, BlockTree.HasBlock world.files repoId id →
    BlockTree.HasBlock after.files repoId id
  kept : ∀ repoId id, (repoId, id) ∈ after.kept → (repoId, id) ∈ world.kept ∨
    BlockTree.HasBlock after.files repoId id

theorem WriteMove.refl (world : LibraryWorld) : WriteMove world world :=
  ⟨rfl, fun _ _ has => has, fun _ _ listed => Or.inl listed⟩

theorem WriteMove.succeed {repoId id : String} (db : after.db = world.db)
    (kept : after.kept = world.kept)
    (files : ∀ repoId id, BlockTree.HasBlock world.files repoId id →
      BlockTree.HasBlock after.files repoId id)
    (has : BlockTree.HasBlock after.files repoId id) :
    WriteMove world (after.succeed repoId id) := by
  refine ⟨db, files, fun repoId' id' listed => ?_⟩
  rcases List.mem_cons.mp listed with isNew | old
  · cases isNew
    exact Or.inr has
  · exact Or.inl (by rwa [← kept])

theorem writeStep_moves (cached : ∀ repoId id data, call = .probing repoId id data →
      world.cachedLen repoId id = some data.length → BlockTree.HasBlock world.files repoId id)
    (step : writeStep tick world call = some (after, call')) :
    WriteMove world after ∧ ∀ repoId, ¬ PastLookup repoId call' := by
  cases call with
  | authorizing repoId id data =>
    cases step
    refine ⟨.refl _, fun repoId' past => ?_⟩
    split at past <;> exact past
  | probing repoId id data =>
    simp only [writeStep, Option.some.injEq] at step
    split at step
    · rename_i isCached
      cases step
      exact ⟨.succeed rfl rfl (fun _ _ has => has) (cached repoId id data rfl isCached),
        fun _ past => past⟩
    · cases step
      exact ⟨.refl _, fun _ past => past⟩
  | statting repoId id data =>
    simp only [writeStep, Option.some.injEq] at step
    split at step
    · cases step
      exact ⟨.refl _, fun _ past => past⟩
    · rename_i file found
      split at step <;> cases step
      · refine ⟨.succeed rfl rfl (fun _ _ has => has) ?_, fun _ past => past⟩
        exact Option.isSome_iff_exists.mpr ⟨file, found⟩
      · exact ⟨.refl _, fun _ past => past⟩
  | preparing repoId id data exclusive =>
    simp only [writeStep, Option.some.injEq] at step
    split at step
    · cases step
      exact ⟨.refl _, fun _ past => past⟩
    · cases step
      refine ⟨?_, fun _ past => past⟩
      split
      · exact .refl _
      · exact ⟨rfl, fun _ _ has => has, fun _ _ listed => Or.inl listed⟩
  | publishing repoId id data exclusive =>
    simp only [writeStep, Option.some.injEq] at step
    split at step
    · cases step
      exact ⟨.refl _, fun _ past => past⟩
    · cases step
      refine ⟨.succeed rfl rfl (fun repoId' id' has => ?_) ?_, fun _ past => past⟩
      · show BlockTree.HasBlock (if _ then _ else _) _ _
        split
        · exact has
        · exact has.put _
      · show BlockTree.HasBlock (if _ then _ else _) _ _
        split
        · rename_i there
          exact there.2
        · exact BlockTree.hasBlock_put_self ⟨repoId, id, data⟩
  | _ => cases step

def SweepKnows (db : LibraryDb) : LibraryCall → Prop
  | .checkingTrash repoId _ => db.Known repoId → db.InTrash repoId
  | .removing repoId _ => ¬ db.Known repoId
  | _ => True

theorem sweepKnows_of_not_past {db : LibraryDb} (notPast : ∀ repoId, ¬ PastLookup repoId call) :
    SweepKnows db call := by
  cases call with
  | checkingTrash repoId dirs | removing repoId dirs => exact absurd rfl (notPast repoId)
  | _ => trivial

structure SweepMove (world after : LibraryWorld) (call call' : LibraryCall) : Prop where
  db : after.db = world.db
  kept : after.kept = world.kept
  files : ∀ repoId id, BlockTree.HasBlock world.files repoId id →
    BlockTree.HasBlock after.files repoId id ∨ ∃ dirs, call = .removing repoId dirs
  knows : SweepKnows world.db call → SweepKnows world.db call'

theorem sweepStep_moves (step : sweepStep tick world call = some (after, call')) :
    SweepMove world after call call' := by
  have still : ∀ call'' : LibraryCall, (SweepKnows world.db call → SweepKnows world.db call'') →
      SweepMove world world call call'' :=
    fun _ knows => ⟨rfl, rfl, fun _ _ has => Or.inl has, knows⟩
  cases call with
  | sweeping =>
    cases step
    refine still _ fun _ => ?_
    split <;> trivial
  | checking dirs =>
    cases dirs with
    | nil =>
      cases step
      exact still _ fun _ => trivial
    | cons repoId dirs =>
      cases step
      refine still _ fun _ => ?_
      split
      · trivial
      · split
        · trivial
        · rename_i absent
          rintro (live | inTrash)
          · simp [LibraryDb.Live, absent] at live
          · exact inTrash
  | checkingTrash repoId dirs =>
    cases step
    refine still _ fun knows => ?_
    split
    · trivial
    · split
      · trivial
      · rename_i absent
        intro known
        have inTrash := knows known
        simp [LibraryDb.InTrash, absent] at inTrash
  | removing repoId dirs =>
    simp only [sweepStep] at step
    split at step
    · cases step
      exact still _ fun _ => trivial
    · split at step
      · rename_i picked
        cases step
        refine ⟨rfl, rfl, fun repoId' id' has => ?_, fun knows => knows⟩
        by_cases same : repoId' = repoId
        · subst same
          exact Or.inr ⟨dirs, rfl⟩
        · left
          rw [BlockTree.HasBlock, BlockTree.findBlock_unlink_of_ne (Or.inl same)]
          exact has
      · cases step
        refine ⟨?_, ?_, fun repoId' id' has => Or.inl ?_, fun _ => trivial⟩
        · split <;> rfl
        · split <;> rfl
        · split <;> exact has
  | _ => cases step

/-! ## Whole runs -/

variable {state : Threads LibraryWorld LibraryCall}

theorem TableMove.keeps (moves : TableMove state.shared call after)
    (apart : CallApart state call) (keeps : KeepsBlocks state.shared) : KeepsBlocks after := by
  intro repoId id known listed
  cases moves with
  | same call db tables =>
    exact keeps repoId id (known.imp (tables repoId).1.mp (tables repoId).2.mp) listed
  | created id' name description ownerId keys db kept tables isKept =>
    obtain ⟨wasKept, inTrash⟩ := isKept _ listed
    refine keeps repoId id ?_ wasKept
    rcases known with live | trashed
    · rcases (tables repoId).1.mp live with wasLive | rfl
      · exact Or.inl wasLive
      · exact Or.inr (inTrash rfl)
    · exact Or.inr ((tables repoId).2.mp trashed)
  | restored trashed db tables =>
    refine keeps repoId id ?_ listed
    rcases known with live | inTrash
    · rcases (tables repoId).1.mp live with wasLive | rfl
      · exact Or.inl wasLive
      · exact apart
    · exact Or.inr ((tables repoId).2.mp inTrash)
  | trashed row db tables =>
    refine keeps repoId id ?_ listed
    rcases known with live | inTrash
    · exact Or.inl ((tables repoId).1.mp live)
    · rcases (tables repoId).2.mp inTrash with wasInTrash | rfl
      · exact Or.inr wasInTrash
      · exact apart
  | archived repoId' db tables =>
    exact keeps repoId id (known.imp (fun live => ((tables repoId).1.mp live).1)
      (tables repoId).2.mp) listed
  | untrashed trashed db tables =>
    exact keeps repoId id (known.imp (tables repoId).1.mp
      fun inTrash => ((tables repoId).2.mp inTrash).1) listed

theorem TableMove.knows (moves : TableMove state.shared call after)
    (apart : CallApart state call) {other : LibraryCall} (running : other ∈ state.running)
    (knows : SweepKnows state.shared.db other) : SweepKnows after.db other := by
  have past : ∀ repoId dirs, PastLookup repoId (.checkingTrash repoId dirs) ∧
      PastLookup repoId (.removing repoId dirs) := fun _ _ => ⟨rfl, rfl⟩
  cases other with
  | checkingTrash repoId dirs =>
    intro known
    cases moves with
    | same call db tables =>
      exact (tables repoId).2.mpr
        (knows (known.imp (tables repoId).1.mp (tables repoId).2.mp))
    | created id' name description ownerId keys db kept tables isKept =>
      refine (tables repoId).2.mpr ?_
      rcases known with live | inTrash
      · rcases (tables repoId).1.mp live with wasLive | rfl
        · exact knows (Or.inl wasLive)
        · exact apart.resolve_right fun none => none _ running (past _ _).1
      · exact (tables repoId).2.mp inTrash
    | restored trashed db tables =>
      refine (tables repoId).2.mpr ?_
      rcases known with live | inTrash
      · rcases (tables repoId).1.mp live with wasLive | rfl
        · exact knows (Or.inl wasLive)
        · exact knows apart
      · exact (tables repoId).2.mp inTrash
    | trashed row db tables =>
      rcases known with live | inTrash
      · exact (tables repoId).2.mpr (Or.inl (knows (Or.inl ((tables repoId).1.mp live))))
      · exact inTrash
    | archived repoId' db tables =>
      refine (tables repoId).2.mpr ?_
      rcases known with live | inTrash
      · exact knows (Or.inl ((tables repoId).1.mp live).1)
      · exact (tables repoId).2.mp inTrash
    | untrashed trashed db tables =>
      have notThis : repoId ≠ trashed.repoId := by
        rintro rfl
        exact apart dirs running
      refine (tables repoId).2.mpr ⟨?_, notThis⟩
      rcases known with live | inTrash
      · exact knows (Or.inl ((tables repoId).1.mp live))
      · exact ((tables repoId).2.mp inTrash).1
  | removing repoId dirs =>
    intro known
    refine knows ?_
    cases moves with
    | same call db tables => exact known.imp (tables repoId).1.mp (tables repoId).2.mp
    | created id' name description ownerId keys db kept tables isKept =>
      rcases known with live | inTrash
      · rcases (tables repoId).1.mp live with wasLive | rfl
        · exact Or.inl wasLive
        · exact Or.inr (apart.resolve_right fun none => none _ running (past _ _).2)
      · exact Or.inr ((tables repoId).2.mp inTrash)
    | restored trashed db tables =>
      rcases known with live | inTrash
      · rcases (tables repoId).1.mp live with wasLive | rfl
        · exact Or.inl wasLive
        · exact apart
      · exact Or.inr ((tables repoId).2.mp inTrash)
    | trashed row db tables =>
      rcases known with live | inTrash
      · exact Or.inl ((tables repoId).1.mp live)
      · rcases (tables repoId).2.mp inTrash with wasInTrash | rfl
        · exact Or.inr wasInTrash
        · exact apart
    | archived repoId' db tables =>
      exact known.imp (fun live => ((tables repoId).1.mp live).1) (tables repoId).2.mp
    | untrashed trashed db tables =>
      exact known.imp (tables repoId).1.mp fun inTrash => ((tables repoId).2.mp inTrash).1
  | _ => trivial

theorem libraryStep_groups (step : libraryStep tick world call = some (after, call')) :
    sweepStep tick world call = some (after, call') ∨
      writeStep tick world call = some (after, call') ∨
      deleteStep tick world call = some (after, call') ∨
      restoreStep tick world call = some (after, call') ∨
      createStep tick world call = some (after, call') := by
  cases call with
  | sweeping | checking | checkingTrash | removing => exact Or.inl step
  | authorizing | probing | statting | preparing | publishing => exact Or.inr (Or.inl step)
  | deleting | trashing | insertingTrash | archiving => exact Or.inr (Or.inr (Or.inl step))
  | creating | joiningCreator => exact Or.inr (Or.inr (Or.inr (Or.inr step)))
  | done => cases step
  | _ => exact Or.inr (Or.inr (Or.inr (Or.inl step)))

theorem sweeps_know
    (reached : (libraryProgram.system KeepsBlocks).Reachable sweepsApart state) :
    KeepsBlocks state.shared ∧ ∀ call ∈ state.running, SweepKnows state.shared.db call := by
  refine Program.threads_invariant_of_guard (I := KeepsBlocks)
    (O := fun world call => SweepKnows world.db call) ?_ ?_ ?_ (fun _ => id) reached
  · intro world job _
    cases job <;> trivial
  · intro before request keeps knows _
    exact ⟨keeps, knows⟩
  · intro before index call tick after keeps knows found met moved
    obtain ⟨after, call'⟩ := after
    have running := List.mem_of_getElem? found
    have apart := met call found
    have tables : TableMove before.shared call after → (∀ repoId, ¬ PastLookup repoId call') →
        KeepsBlocks after ∧ SweepKnows after.db call' ∧
          ∀ other ∈ before.running, SweepKnows after.db other :=
      fun moves notPast => ⟨moves.keeps apart keeps, sweepKnows_of_not_past notPast,
        fun other listed => moves.knows apart listed (knows other listed)⟩
    rcases libraryStep_groups moved with step | step | step | step | step
    · have moves := sweepStep_moves step
      refine ⟨fun repoId id known listed => ?_, ?_, fun other listed => ?_⟩
      · rw [moves.db] at known
        rw [moves.kept] at listed
        refine (moves.files repoId id (keeps repoId id known listed)).resolve_right ?_
        rintro ⟨dirs, rfl⟩
        exact knows _ running known
      · show SweepKnows after.db call'
        rw [moves.db]
        exact moves.knows (knows call running)
      · show SweepKnows after.db other
        rw [moves.db]
        exact knows other listed
    · have cached : ∀ repoId id data, call = .probing repoId id data →
          before.shared.cachedLen repoId id = some data.length →
            BlockTree.HasBlock before.shared.files repoId id := by
        rintro repoId id data rfl
        exact apart
      obtain ⟨moves, notPast⟩ := writeStep_moves cached step
      refine ⟨fun repoId id known listed => ?_, sweepKnows_of_not_past notPast,
        fun other isOther => ?_⟩
      · rw [moves.db] at known
        rcases moves.kept repoId id listed with old | has
        · exact moves.files repoId id (keeps repoId id known old)
        · exact has
      · show SweepKnows after.db other
        rw [moves.db]
        exact knows other isOther
    · exact tables (deleteStep_moves step).1 (deleteStep_moves step).2
    · exact tables (restoreStep_moves step).1 (restoreStep_moves step).2
    · exact tables (createStep_moves step).1 (createStep_moves step).2

/-- In every run whose steps are apart every library that is live or in the trash has the blocks it
had and those that were written to it. -/
theorem libraries_keep_blocks
    (reached : (libraryProgram.system KeepsBlocks).Reachable sweepsApart state) :
    KeepsBlocks state.shared := (sweeps_know reached).1

/-! ## Runs of a sweep and a restore -/

/-- A library with one block in the trash, and the directory of one that is gone. -/
def trashedWorld : LibraryWorld where
  db := ⟨[], .empty, .empty, .empty, .empty, [⟨"r1", "notes", none, 1, 0, 0⟩], []⟩
  dirs := ["r1", "r2"]
  files := [⟨"r1", "b1", [1]⟩, ⟨"r2", "b2", [2]⟩]
  prepared := []
  existsCache := []
  kept := [("r1", "b1")]

theorem trashedWorld_keeps : KeepsBlocks trashedWorld := by
  intro repoId id _ listed
  cases List.mem_singleton.mp listed
  decide

abbrev LibraryAction := ThreadAction LibraryRequest LibraryJob LibraryTick

def pastLookup (repoId : String) : LibraryCall → Bool
  | .checkingTrash id _ => id = repoId
  | .removing id _ => id = repoId
  | _ => false

def callApart (state : Threads LibraryWorld LibraryCall) : LibraryCall → Bool
  | .creating id _ _ _ _ => (state.shared.db.findDeleted id).isSome ||
      state.running.all fun other => !pastLookup id other
  | .creatingRepo trashed => (state.shared.db.findRepo trashed.repoId).isSome ||
      (state.shared.db.findDeleted trashed.repoId).isSome
  | .insertingTrash row => (state.shared.db.findRepo row.id).isSome ||
      (state.shared.db.findDeleted row.id).isSome
  | .untrashing trashed => state.running.all fun other => !pastLookup trashed.repoId other
  | .probing repoId id data => state.shared.cachedLen repoId id ≠ some data.length ||
      (BlockTree.findBlock state.shared.files repoId id).isSome
  | _ => true

theorem callApart_sound {call : LibraryCall} (allowed : callApart state call = true) :
    CallApart state call := by
  have notPast : ∀ repoId, (state.running.all fun other => !pastLookup repoId other) = true →
      ∀ other ∈ state.running, ¬ PastLookup repoId other := by
    intro repoId all other running past
    have isPast := List.all_eq_true.mp all other running
    cases other with
    | checkingTrash id dirs | removing id dirs =>
      simp [pastLookup, show id = repoId from past] at isPast
    | _ => exact past
  cases call with
  | creating id name description ownerId keys =>
    exact (Bool.or_eq_true_iff.mp allowed).imp_right (notPast id)
  | creatingRepo trashed | insertingTrash row => exact Bool.or_eq_true_iff.mp allowed
  | untrashing trashed => exact fun dirs running => notPast _ allowed _ running rfl
  | probing repoId id data =>
    intro cached
    refine (Bool.or_eq_true_iff.mp allowed).resolve_left fun notCached => ?_
    exact of_decide_eq_true notCached cached
  | _ => trivial

def sweepsApartCheck (state : Threads LibraryWorld LibraryCall) : LibraryAction → Bool
  | .advance index _ => state.running[index]?.all (callApart state)
  | _ => true

theorem sweepsApart_of_check (state : Threads LibraryWorld LibraryCall) (action : LibraryAction)
    (allowed : sweepsApartCheck state action = true) : sweepsApart state action := by
  cases action with
  | advance index tick =>
    intro call found
    rw [sweepsApartCheck, found] at allowed
    exact callApart_sound allowed
  | _ => trivial

def librarySteps (count index : Nat) (pick : Option String) : List LibraryAction :=
  List.replicate count (.advance index ⟨10, false, pick⟩)

/-- A sweep removes the directory that nobody needs while the library is restored. -/
def restoredBeforeLookup : List LibraryAction :=
  [.begin .sweep, .begin (.restore "r1" 1)] ++ librarySteps 8 1 none ++ librarySteps 4 0 none ++
    librarySteps 1 0 (some "b2") ++ librarySteps 2 0 none

/-- The sweep reads `repos` before the restore and `deleted_repos` after it. -/
def restoredBetweenLookups : List LibraryAction :=
  [.begin .sweep, .begin (.restore "r1" 1)] ++ librarySteps 2 0 none ++ librarySteps 8 1 none ++
    librarySteps 1 0 none ++ librarySteps 1 0 (some "b1") ++ librarySteps 3 0 none ++
    librarySteps 1 0 (some "b2") ++ librarySteps 2 0 none

def runLibraries (check : Threads LibraryWorld LibraryCall → LibraryAction → Bool)
    (actions : List LibraryAction) : Option (Threads LibraryWorld LibraryCall) :=
  (libraryProgram.system KeepsBlocks).runChecked check actions ⟨trashedWorld, []⟩

theorem library_restored_before_lookup : ∃ state : Threads LibraryWorld LibraryCall,
    KeepsBlocks state.shared ∧ state.running = [.done, .done] ∧ state.shared.db.Live "r1" ∧
      state.shared.files = [⟨"r1", "b1", [1]⟩] := by
  have ran : (runLibraries sweepsApartCheck restoredBeforeLookup).any (fun state =>
      state.running = [.done, .done] && (state.shared.db.findRepo "r1").isSome &&
        decide (state.shared.files = [⟨"r1", "b1", [1]⟩])) = true := by
    decide +kernel
  obtain ⟨state, run, isLast⟩ := (Option.any_eq_true _ _).mp ran
  obtain ⟨isLast, files⟩ := Bool.and_eq_true_iff.mp isLast
  obtain ⟨finished, live⟩ := Bool.and_eq_true_iff.mp isLast
  exact ⟨state, libraries_keep_blocks (System.reachable_of_runChecked sweepsApart_of_check _ _ _
    (.init ⟨trashedWorld_keeps, rfl⟩) run), of_decide_eq_true finished, live,
    of_decide_eq_true files⟩

/-- Both calls have finished, the library is live, and its only block is gone. -/
theorem library_restored_between_lookups : ∃ state : Threads LibraryWorld LibraryCall,
    (libraryProgram.system KeepsBlocks).Reachable (fun _ _ => True) state ∧
    state.running = [.done, .done] ∧ ¬ KeepsBlocks state.shared := by
  have ran : (runLibraries (fun _ _ => true) restoredBetweenLookups).any (fun state =>
      state.running = [.done, .done] && (state.shared.db.findRepo "r1").isSome &&
        state.shared.kept.contains ("r1", "b1") &&
        (BlockTree.findBlock state.shared.files "r1" "b1").isNone) = true := by
    decide +kernel
  obtain ⟨state, run, isLast⟩ := (Option.any_eq_true _ _).mp ran
  obtain ⟨isLast, gone⟩ := Bool.and_eq_true_iff.mp isLast
  obtain ⟨isLast, listed⟩ := Bool.and_eq_true_iff.mp isLast
  obtain ⟨finished, live⟩ := Bool.and_eq_true_iff.mp isLast
  refine ⟨state, System.reachable_of_runChecked (fun _ _ _ => trivial) _ _ _
    (.init ⟨trashedWorld_keeps, rfl⟩) run, of_decide_eq_true finished, fun keeps => ?_⟩
  have has := keeps "r1" "b1" (Or.inl live) (List.contains_iff_mem.mp listed)
  rw [BlockTree.HasBlock, Option.isNone_iff_eq_none.mp gone] at has
  cases has

end Nanofile
