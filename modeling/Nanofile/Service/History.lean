import Nanofile.Base.FreeDigest
import Nanofile.Service.Writers

/-!
# Commits stay in history

HEAD moves by compare-and-swap only, from the commit an attempt has read to one that
names it as a parent.  A merge commit is looked up by an id that does not cover its
parents, so the row found has to name the HEAD it is to follow.
-/

set_option autoImplicit false

namespace Nanofile

open Nanofile.Lib

variable {Oid : Type} [DecidableEq Oid] [Digests Oid]

def CommitRow.Names (row : CommitRow Oid) (commitId : Oid) : Prop :=
  row.parentId = some commitId ∨ row.secondParentId = some commitId

instance (row : CommitRow Oid) (commitId : Oid) : Decidable (row.Names commitId) :=
  inferInstanceAs (Decidable (_ ∨ _))

def ParentOf (commits : CommitTable Oid) (parent child : Oid) : Prop :=
  ∃ row, commits.find child = some row ∧ row.Names parent

def Ancestor (commits : CommitTable Oid) : Oid → Oid → Prop :=
  Relation.ReflTransGen (ParentOf commits)

omit [Digests Oid] in
theorem Ancestor.extends {before after : CommitTable Oid}
    (grown : CommitTable.Extends before after) {ancestor descendant : Oid}
    (chain : Ancestor before ancestor descendant) : Ancestor after ancestor descendant := by
  refine Relation.ReflTransGen.mono ?_ _ _ chain
  intro parent child link
  obtain ⟨row, found, names⟩ := link
  exact ⟨row, grown _ _ found, names⟩

/-- The commit a swap installs names the HEAD it replaces. -/
def Follows (repo : Repo Oid) (expected : Option Oid) (target : Oid) : Prop :=
  ∃ row, repo.commits.find target = some row ∧
    ∀ headId, expected = some headId → row.Names headId

def RowFollows (row : CommitRow Oid) (swap : Swap Oid) : Prop :=
  swap.targetHead = row.commitId ∧ ∀ headId, swap.currentHead = some headId → row.Names headId

def UploadFound (repo : Repo Oid) (upload : Upload Oid) : Prop :=
  repo.commits.find upload.newHead = some upload.newCommit

def WriterFollows (repo : Repo Oid) : WriterPc Oid → Prop
  | .branch (.uploaded upload _) => UploadFound repo upload
  | .branch (.merging upload _ _ _) => UploadFound repo upload
  | .branch (.recording upload _ row swap) => UploadFound repo upload ∧ RowFollows row swap
  | .branch (.inserting upload _ row swap) => UploadFound repo upload ∧ RowFollows row swap
  | .branch (.swapping upload _ swap) =>
    UploadFound repo upload ∧ Follows repo swap.currentHead swap.targetHead
  | .rest (.inserting _ expected row) => row.parentId = expected
  | .rest (.swapping _ expected commitId) => Follows repo expected commitId
  | _ => True

variable {after : Repo Oid}

omit [Digests Oid] in
theorem Follows.extends {before : Repo Oid}
    (grown : CommitTable.Extends before.commits after.commits) {expected : Option Oid}
    {target : Oid} (follows : Follows before expected target) : Follows after expected target := by
  obtain ⟨row, found, names⟩ := follows
  exact ⟨row, grown _ _ found, names⟩

variable {pc : WriterPc Oid}

omit [Digests Oid] in
theorem WriterFollows.extends {before : Repo Oid}
    (grown : CommitTable.Extends before.commits after.commits) (follows : WriterFollows before pc) :
    WriterFollows after pc := by
  cases pc with
  | branch pc =>
    cases pc with
    | uploaded upload attempt | merging upload attempt headId headRoot => exact grown _ _ follows
    | recording upload attempt row swap | inserting upload attempt row swap =>
      exact ⟨grown _ _ follows.1, follows.2⟩
    | swapping upload attempt swap => exact ⟨grown _ _ follows.1, follows.2.extends grown⟩
    | _ => trivial
  | rest pc =>
    cases pc with
    | inserting edit expected row => exact follows
    | swapping edit expected commitId => exact Follows.extends grown follows
    | _ => trivial

/-- The condition on a merge: a row already stored under its id names the HEAD. -/
def MergeRowNamesHead (state : LockedRepo Oid) : WriterPc Oid → Prop
  | .branch (.recording _ _ row swap) => ∀ existing,
      state.repo.commits.find row.commitId = some existing →
      ∀ headId, swap.currentHead = some headId → existing.Names headId
  | _ => True

variable [ToString Oid] {env : SyncEnv Oid} {state : LockedRepo Oid}

theorem branchStep_follows {pc next : BranchPc Oid}
    (follows : WriterFollows state.repo (.branch pc)) (named : MergeRowNamesHead state (.branch pc))
    (step : BranchStep env state.repo pc after next) : WriterFollows after (.branch next) := by
  cases step with
  | checked valid =>
    obtain ⟨sameHead, found, -⟩ := validateUpload_ok valid
    show state.repo.commits.find _ = some _
    rw [sameHead]
    exact found
  | fastForward isHead isNew parent =>
    refine ⟨follows, _, follows, ?_⟩
    intro headId expected
    exact Or.inl (parent headId expected)
  | diverged isHead foreign found | fresh absent => exact follows
  | merged ran checked =>
    refine ⟨follows, rfl, ?_⟩
    intro headId expected
    exact Or.inl expected
  | reused found =>
    obtain ⟨uploaded, target, -⟩ := follows
    exact ⟨uploaded, _, target ▸ found, named _ found⟩
  | @inserted _ _ row _ _ done =>
    obtain ⟨uploaded, target, names⟩ := follows
    refine ⟨CommitTable.extends_insertCommit done _ _ uploaded,
      { row with id := state.repo.commits.nextId }, ?_, names⟩
    rw [target]
    exact CommitTable.find_inserted done
  | lost moved => exact follows.1
  | _ => trivial

theorem restStep_follows {now : Int} {repo : Repo Oid} {pc next : RestPc Oid}
    (follows : WriterFollows repo (.rest pc)) (step : RestStep now repo pc after next) :
    WriterFollows after (.rest next) := by
  cases step with
  | edited ran isNext | walked ran isNext =>
    cases isNext with
    | inl isNext | inr isNext => rw [isNext]; trivial
  | prepared => rfl
  | @inserted _ _ row _ done =>
    refine ⟨{ row with id := repo.commits.nextId }, CommitTable.find_inserted done, ?_⟩
    intro headId expected
    exact Or.inl (follows.trans expected)
  | _ => trivial

theorem stepWriter_cases {after : LockedRepo Oid} {next : WriterPc Oid}
    (run : stepWriter env state pc = some (after, next)) :
    (∃ pc' next', pc = .branch pc' ∧ next = .branch next' ∧
      BranchStep env state.repo pc' after.repo next') ∨
    (∃ pc' next', pc = .rest pc' ∧ next = .rest next' ∧
      RestStep (env.clock 0) state.repo pc' after.repo next') := by
  cases pc with
  | branch pc =>
    simp only [stepWriter, Option.map_eq_some_iff] at run
    obtain ⟨⟨repo, next'⟩, taken, finish⟩ := run
    cases finish
    exact Or.inl ⟨pc, next', rfl, rfl, stepBranch_sound taken⟩
  | rest pc =>
    simp only [stepWriter, Option.map_eq_some_iff] at run
    obtain ⟨⟨left, next'⟩, taken, finish⟩ := run
    cases finish
    exact Or.inr ⟨pc, next', rfl, rfl, stepRest_sound taken⟩

theorem stepWriter_head {after : LockedRepo Oid} {next : WriterPc Oid}
    (follows : WriterFollows state.repo pc) (run : stepWriter env state pc = some (after, next))
    {headId : Oid} (isHead : state.repo.headCommitId = some headId) :
    after.repo.headCommitId = some headId ∨ ∃ target, after.repo.headCommitId = some target ∧
      ParentOf after.repo.commits headId target := by
  rcases stepWriter_cases run with ⟨pc', next', rfl, rfl, step⟩ | ⟨pc', next', rfl, rfl, step⟩
  · generalize after.repo = left at step
    cases step with
    | swapped unmoved =>
      obtain ⟨-, row, found, names⟩ := follows
      exact Or.inr ⟨_, rfl, row, found, names headId (unmoved ▸ isHead)⟩
    | sized stepped | done stepped =>
      rw [(stepSize_fields stepped).2.2.2]
      exact Or.inl isHead
    | _ => exact Or.inl isHead
  · generalize after.repo = left at step
    cases step with
    | swapped unmoved =>
      obtain ⟨row, found, names⟩ := follows
      exact Or.inr ⟨_, rfl, row, found, names headId (unmoved ▸ isHead)⟩
    | _ => exact Or.inl isHead

/-- A library whose objects are named by their ids and on which nothing runs. -/
def Quiet (state : LockedRepo Oid) : Prop :=
  Genuine state.repo.fsObjects ∧ state.locked = false

def writerSystem : System (Threads (LockedRepo Oid) (WriterPc Oid))
    (ThreadAction (SyncRequest Oid) (WriterJob Oid) (SyncEnv Oid)) :=
  writerProgram.system Quiet

def historyGuard : Threads (LockedRepo Oid) (WriterPc Oid) →
    ThreadAction (SyncRequest Oid) (WriterJob Oid) (SyncEnv Oid) → Prop :=
  Program.guarded (fun _ _ => True) fun state pc _ => MergeRowNamesHead state pc

theorem writers_follow {state : Threads (LockedRepo Oid) (WriterPc Oid)}
    (reached : writerSystem.Reachable historyGuard state) :
    ∀ pc ∈ state.running, WriterFollows state.shared.repo pc := by
  have stable : ∀ (before after : LockedRepo Oid) (pc : WriterPc Oid),
      CommitTable.Extends before.repo.commits after.repo.commits →
      WriterFollows before.repo pc → WriterFollows after.repo pc :=
    fun _ _ _ grown follows => follows.extends grown
  unfold writerSystem historyGuard at reached
  have held : True ∧ ∀ pc ∈ state.running, WriterFollows state.shared.repo pc := by
    refine Program.threads_invariant (I := fun _ => True) stable ?_ ?_ ?_ ?_ reached
    · intro shared job _
      cases job with
      | branch job | rest job => trivial
    · intro shared request _ _
      exact ⟨trivial, (serveSync_commits shared.repo request).1⟩
    · intro shared pc env after _ follows named taken
      obtain ⟨left, next⟩ := after
      rcases stepWriter_cases taken with ⟨pc', next', rfl, rfl, step⟩ |
        ⟨pc', next', rfl, rfl, step⟩
      · exact ⟨trivial, branchStep_follows follows named step, step.commits⟩
      · exact ⟨trivial, restStep_follows follows step, step.commits⟩
    · intro shared _
      trivial
  exact held.2

theorem writerSystem_head {state next : Threads (LockedRepo Oid) (WriterPc Oid)}
    {action : ThreadAction (SyncRequest Oid) (WriterJob Oid) (SyncEnv Oid)}
    (reached : writerSystem.Reachable historyGuard state)
    (taken : writerSystem.step state action = some next) {headId : Oid}
    (isHead : state.shared.repo.headCommitId = some headId) :
    CommitTable.Extends state.shared.repo.commits next.shared.repo.commits ∧
      (next.shared.repo.headCommitId = some headId ∨
        ∃ target, next.shared.repo.headCommitId = some target ∧
          ParentOf next.shared.repo.commits headId target) := by
  cases action with
  | serve request =>
    cases taken
    have served := serveSync_commits state.shared.repo request
    exact ⟨served.1, Or.inl (served.2.trans isHead)⟩
  | begin job =>
    cases taken
    exact ⟨CommitTable.Extends.refl _, Or.inl isHead⟩
  | advance index env =>
    obtain ⟨pc, ⟨left, next'⟩, found, moved, rfl⟩ := Program.step_advance_iff.mp taken
    have follows := writers_follow reached pc (List.mem_of_getElem? found)
    refine ⟨?_, stepWriter_head follows moved isHead⟩
    rcases stepWriter_cases moved with ⟨_, _, -, -, step⟩ | ⟨_, _, -, -, step⟩
    · exact step.commits
    · exact step.commits

/-- Every commit that was HEAD stays in the history of HEAD: each move goes to a
commit that names the one before, and none is left behind later. -/
theorem head_stays_in_history {state : Threads (LockedRepo Oid) (WriterPc Oid)}
    (reached : writerSystem.Reachable historyGuard state) {headId : Oid}
    (isHead : state.shared.repo.headCommitId = some headId) :
    (∀ action next target, writerSystem.step state action = some next →
      next.shared.repo.headCommitId = some target → target ≠ headId →
      ∃ row, next.shared.repo.commits.find target = some row ∧ row.Names headId) ∧
    ∀ last, writerSystem.Steps historyGuard state last →
      ∃ lastHead, last.shared.repo.headCommitId = some lastHead ∧
        Ancestor last.shared.repo.commits headId lastHead := by
  constructor
  · intro action next target taken isTarget moved
    obtain ⟨-, stays | ⟨other, isOther, child⟩⟩ := writerSystem_head reached taken isHead
    · rw [stays, Option.some.injEq] at isTarget
      exact absurd isTarget.symm moved
    · rw [isOther, Option.some.injEq] at isTarget
      exact isTarget ▸ child
  · intro last steps
    induction steps with
    | refl => exact ⟨headId, isHead, .refl⟩
    | tail before met taken ih =>
      obtain ⟨middle, isMiddle, chain⟩ := ih
      obtain ⟨grown, stays | ⟨target, isTarget, child⟩⟩ :=
        writerSystem_head (reached.steps before) taken isMiddle
      · exact ⟨middle, stays, chain.extends grown⟩
      · exact ⟨target, isTarget, (chain.extends grown).tail child⟩

def bareLibrary : Repo FreeId where
  id := "library"
  headCommitId := none
  size := 0
  historyLimit := 0
  historyTtlDays := 0
  commits := .empty
  fsObjects := .empty
  blocks := .empty

def bareState : Threads (LockedRepo FreeId) (WriterPc FreeId) := ⟨⟨bareLibrary, false⟩, []⟩

theorem bareState_init : writerSystem.init bareState := by
  refine ⟨⟨?_, rfl⟩, rfl⟩
  intro fsId object _ found
  cases found

def bareCommit (description : String) (parentId : Option FreeId) : CommitData FreeId :=
  let data : CommitData FreeId := ⟨.empty, "library", .empty, "user", .atom 0, description, 0,
    parentId, none, none, none⟩
  { data with commitId := computeCommitId data }

def bareEnv : SyncEnv FreeId := ⟨defaultLimits, fun _ => none, fun _ => 0, fun _ => "", [], []⟩

abbrev WriterAction := ThreadAction (SyncRequest FreeId) (WriterJob FreeId) (SyncEnv FreeId)

def putBare (data : CommitData FreeId) : WriterAction := .serve (.putCommit data.commitId data)

def uploadBare (data : CommitData FreeId) : WriterAction := .begin (.branch ⟨data.commitId, 1⟩)

def oldHead : CommitData FreeId := bareCommit "old" none

def newHead : CommitData FreeId := bareCommit "new" (some oldHead.commitId)

def foreign : CommitData FreeId := bareCommit "foreign" none

def mergeReady : List WriterAction :=
  [putBare oldHead, putBare newHead, putBare foreign, uploadBare oldHead] ++
  List.replicate 3 (.advance 0 bareEnv) ++ [uploadBare foreign] ++
  List.replicate 5 (.advance 1 bareEnv)

def historyCheck (state : Threads (LockedRepo FreeId) (WriterPc FreeId)) : WriterAction → Bool
  | .advance index _ =>
    match state.running[index]? with
    | some (.branch (.recording _ _ row swap)) =>
      (state.shared.repo.commits.find row.commitId).all fun existing =>
        swap.currentHead.all fun headId => existing.Names headId
    | _ => true
  | _ => true

theorem historyCheck_sound (state : Threads (LockedRepo FreeId) (WriterPc FreeId))
    (action : WriterAction) (checked : historyCheck state action = true) :
    historyGuard state action := by
  cases action with
  | serve request | begin job => trivial
  | advance index env =>
    intro pc running
    cases pc with
    | rest pc => trivial
    | branch pc =>
      cases pc with
      | recording upload attempt row swap =>
        intro existing found headId isHead
        simpa [historyCheck, running, found, isHead] using checked
      | _ => trivial

/-- The merge moves HEAD to a commit on top of `oldHead`, which stays in history. -/
theorem merge_keeps_oldHead : ∃ state,
    writerSystem.runChecked historyCheck mergeReady bareState = some state ∧
    (∀ action next target, writerSystem.step state action = some next →
      next.shared.repo.headCommitId = some target → target ≠ oldHead.commitId →
      ∃ row, next.shared.repo.commits.find target = some row ∧ row.Names oldHead.commitId) ∧
    ∀ last, writerSystem.Steps historyGuard state last →
      ∃ lastHead, last.shared.repo.headCommitId = some lastHead ∧
        Ancestor last.shared.repo.commits oldHead.commitId lastHead := by
  have ran : (writerSystem.runChecked historyCheck mergeReady bareState).map
      (fun state => state.shared.repo.headCommitId) = some (some oldHead.commitId) := by
    decide +kernel
  obtain ⟨state, run, isHead⟩ := Option.map_eq_some_iff.mp ran
  have reached := System.reachable_of_runChecked historyCheck_sound mergeReady _ state
    (.init bareState_init) run
  exact ⟨state, run, head_stays_in_history reached isHead⟩

/-- Before the merge commit is installed HEAD moves on to `newHead`, so the merge is
made again: the same tree in the same second, hence the row of the first attempt. -/
def mergeAgain : List WriterAction :=
  mergeReady ++ [uploadBare newHead] ++ List.replicate 3 (.advance 2 bareEnv) ++
  List.replicate 4 (.advance 1 bareEnv)

/-- HEAD, and after the swap the new HEAD and whether its row names the old one. -/
def swapFacts (state : Threads (LockedRepo FreeId) (WriterPc FreeId)) :
    Option FreeId × Option (Option FreeId × Option Bool) :=
  (state.shared.repo.headCommitId,
    (writerSystem.step state (.advance 1 bareEnv)).map fun next =>
      (next.shared.repo.headCommitId,
        (next.shared.repo.headCommitId.bind next.shared.repo.commits.find).map fun row =>
          decide (row.Names newHead.commitId)))

theorem newHead_drops_out : ∃ state next target,
    writerSystem.Reachable (fun _ _ => True) state ∧
    writerSystem.step state (.advance 1 bareEnv) = some next ∧
    state.shared.repo.headCommitId = some newHead.commitId ∧
    next.shared.repo.headCommitId = some target ∧ target ≠ newHead.commitId ∧
    ¬ ∃ row, next.shared.repo.commits.find target = some row ∧
      row.Names newHead.commitId := by
  have ran : ((writerSystem.runChecked (fun _ _ => true) mergeAgain bareState).map swapFacts).any
      (fun facts => facts.1 = some newHead.commitId && facts.2.any fun after =>
        after.1.any (fun target => target ≠ newHead.commitId) && after.2 = some false) = true := by
    decide +kernel
  cases run : writerSystem.runChecked (fun _ _ => true) mergeAgain bareState with
  | none => simp [run] at ran
  | some state =>
    have reached := System.reachable_of_runChecked (fun _ _ _ => trivial) mergeAgain _ state
      (.init bareState_init) run
    simp only [run, Option.map_some, Option.any_some, swapFacts, Bool.and_eq_true,
      decide_eq_true_eq] at ran
    obtain ⟨isHead, after⟩ := ran
    cases stepped : writerSystem.step state (.advance 1 bareEnv) with
    | none => simp [stepped] at after
    | some next =>
      simp only [stepped, Option.map_some, Option.any_some, Bool.and_eq_true,
        decide_eq_true_eq] at after
      obtain ⟨moved, unnamed⟩ := after
      cases isTarget : next.shared.repo.headCommitId with
      | none => simp [isTarget] at moved
      | some target =>
        refine ⟨state, next, target, reached, stepped, isHead, isTarget, ?_, ?_⟩
        · simpa [isTarget] using moved
        · intro follows
          obtain ⟨row, found, names⟩ := follows
          simp [isTarget, found, names] at unnamed

end Nanofile
