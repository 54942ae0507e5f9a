import Nanofile.Fs.FileOps
import Nanofile.Service.SyncStep

/-!
# All writers of a library

Sync clients and web writes move the same HEAD.  The library's lock excludes web
writes from each other while it is held, and sync clients never.  `RestStep` lists what
one step of a write over the web API can do to the library.
-/

set_option autoImplicit false

namespace Nanofile

open Nanofile.Lib

section Writers

variable {Oid : Type} [DecidableEq Oid] [Digests Oid]

/-- A running call: an upload by a sync client or a write over the web API. -/
inductive WriterPc (Oid : Type) where
  | branch (pc : BranchPc Oid)
  | rest (pc : RestPc Oid)

inductive WriterJob (Oid : Type) where
  | branch (job : BranchJob Oid)
  | rest (job : RestJob Oid)

def stepWriter [ToString Oid] (env : SyncEnv Oid) (state : LockedRepo Oid) :
    WriterPc Oid → Option (LockedRepo Oid × WriterPc Oid)
  | .branch pc =>
    (stepBranch env state.repo pc).map fun after => (⟨after.1, state.locked⟩, .branch after.2)
  | .rest pc => (stepRest (env.clock 0) state pc).map fun after => (after.1, .rest after.2)

/-- Any number of sync clients and web writes on one library. -/
def writerProgram [ToString Oid] : Program (LockedRepo Oid) (WriterPc Oid) (SyncRequest Oid)
    (WriterJob Oid) (SyncEnv Oid) where
  serve request state := ⟨serveSync state.repo request, state.locked⟩
  begin
    | .branch job => .branch (.begun job.newHead job.userId)
    | .rest job => .rest (.begun job)
  advance env state pc := stepWriter env state pc

end Writers

variable {Oid : Type} [DecidableEq Oid] [Digests Oid] [ToString Oid]

inductive RestStep (now : Int) (repo : Repo Oid) : RestPc Oid → Repo Oid → RestPc Oid → Prop
  | failed (pc : RestPc Oid) (failure : AppError) :
      RestStep now repo pc repo (.finished (.error failure))
  | resolved {parentPath modifier description : String} {passChain : Bool}
      {updateFn : List (DirEntryData Oid) → Except AppError (List (DirEntryData Oid))}
      {parentFsId : Oid} {chain : AncestorChain Oid}
      (found : resolveFsIdChain repo parentPath = .ok (parentFsId, chain)) :
      RestStep now repo (.begun (.updateDirTree parentPath modifier description passChain updateFn))
        repo (.waiting (updateDirTreeEdit parentPath modifier description updateFn)
          (some (parentFsId, if passChain then chain else [])))
  | fileStored {parentPath name modifier : String} {blockIds : List Oid} {totalSize : Int}
      {replace : Bool} {fileFsId : Oid} {store : FsStore Oid}
      (stored : storeFsFileObject repo.fsObjects
        ⟨blockIds, totalSize, seafMetadataTypeFile, 1⟩ = (fileFsId, store)) :
      RestStep now repo (.begun (.createFile parentPath name blockIds totalSize modifier replace))
        { repo with fsObjects := store }
        (.waiting (createFileEdit parentPath name modifier fileFsId totalSize now replace) none)
  | locked {edit : DirEdit Oid} {parentFsId : Oid} {chain : AncestorChain Oid} :
      RestStep now repo (.waiting edit (some (parentFsId, chain))) repo
        (.editing edit parentFsId chain)
  | lockedFirst {edit : DirEdit Oid} :
      RestStep now repo (.waiting edit none) repo (.resolving edit)
  | resolvedLocked {edit : DirEdit Oid} {parentFsId : Oid} {chain : AncestorChain Oid}
      (found : uploadParent repo edit.parentPath = .ok (parentFsId, chain)) :
      RestStep now repo (.resolving edit) repo (.editing edit parentFsId chain)
  | edited {edit : DirEdit Oid} {parentFsId newParent : Oid} {chain : AncestorChain Oid}
      {description : String} {store : FsStore Oid} {next : RestPc Oid}
      (ran : editParent repo edit parentFsId = (.ok (description, newParent), store))
      (isNext : next = .built edit description ⟨parentFsId, [], newParent⟩ ∨
        next = .walking edit chain description edit.parentPath ⟨parentFsId, [], newParent⟩) :
      RestStep now repo (.editing edit parentFsId chain) { repo with fsObjects := store } next
  | walked {edit : DirEdit Oid} {chain : AncestorChain Oid} {description childPath : String}
      {rebuild : Rebuild Oid} {level : WalkLevel Oid} {store : FsStore Oid} {next : RestPc Oid}
      (ran : walkUpLevel now repo none chain childPath rebuild.top = (.ok (some level), store))
      (isNext : next = .built edit description ⟨rebuild.parentFsId,
          (level.childName, level.ancestor) :: rebuild.levels, level.newAncestor⟩ ∨
        next = .walking edit chain description level.parentPath ⟨rebuild.parentFsId,
          (level.childName, level.ancestor) :: rebuild.levels, level.newAncestor⟩) :
      RestStep now repo (.walking edit chain description childPath rebuild)
        { repo with fsObjects := store } next
  | walkEnded {edit : DirEdit Oid} {chain : AncestorChain Oid} {description childPath : String}
      {rebuild : Rebuild Oid} :
      RestStep now repo (.walking edit chain description childPath rebuild) repo
        (.built edit description rebuild)
  | unchanged {edit : DirEdit Oid} {description : String} {rebuild : Rebuild Oid} :
      RestStep now repo (.built edit description rebuild) repo (.finished (.ok ()))
  | prepared {edit : DirEdit Oid} {description : String} {rebuild : Rebuild Oid} :
      RestStep now repo (.built edit description rebuild) repo
        (.inserting edit repo.headCommitId (restCommit repo edit description rebuild.top now).row)
  | inserted {edit : DirEdit Oid} {expected : Option Oid} {row : CommitRow Oid}
      {commits : CommitTable Oid} (done : repo.commits.insertCommit row = some commits) :
      RestStep now repo (.inserting edit expected row) { repo with commits }
        (.swapping edit expected row.commitId)
  | swapped {edit : DirEdit Oid} {expected : Option Oid} {commitId : Oid}
      (unmoved : repo.headCommitId = expected) :
      RestStep now repo (.swapping edit expected commitId)
        { repo with headCommitId := some commitId } (.finished (.ok ()))

variable {now : Int} {pc next : RestPc Oid}

theorem stepRest_sound {state after : LockedRepo Oid}
    (run : stepRest now state pc = some (after, next)) :
    RestStep now state.repo pc after.repo next := by
  cases pc with
  | begun job =>
    cases job with
    | updateDirTree parentPath modifier description passChain updateFn =>
      simp only [stepRest] at run
      split at run
      · cases run
        exact .failed _ _
      · rename_i parentFsId chain found
        cases run
        exact .resolved found
    | createFile parentPath name blockIds totalSize modifier replace =>
      cases run
      exact .fileStored rfl
  | waiting edit parent =>
    simp only [stepRest] at run
    split at run
    · simp at run
    · split at run
      · cases run
        exact .locked
      · cases run
        exact .lockedFirst
  | resolving edit =>
    simp only [stepRest] at run
    split at run
    · cases run
      exact .failed _ _
    · rename_i parentFsId chain found
      cases run
      exact .resolvedLocked found
  | editing edit parentFsId chain =>
    simp only [stepRest] at run
    split at run
    · cases run
      exact .failed _ _
    · rename_i description newParent store ran
      split at run
      · cases run
        exact .edited ran (Or.inl rfl)
      · cases run
        exact .edited ran (Or.inr rfl)
  | walking edit chain description childPath rebuild =>
    simp only [stepRest] at run
    split at run
    · cases run
      exact .failed _ _
    · rename_i store ran
      cases run
      have sameStore : store = state.repo.fsObjects := by
        unfold walkUpLevel at ran
        split at ran
        · cases ran
          rfl
        · simp only at ran
          split at ran <;> simp at ran
      rw [sameStore]
      exact .walkEnded
    · rename_i level store ran
      split at run
      · cases run
        exact .walked ran (Or.inl rfl)
      · cases run
        exact .walked ran (Or.inr rfl)
  | built edit description rebuild =>
    simp only [stepRest] at run
    split at run
    · cases run
      exact .unchanged
    · rename_i row prepared
      unfold prepareCommit at prepared
      split at prepared
      · simp at prepared
      · cases prepared
        cases run
        exact .prepared
  | inserting edit expected row =>
    simp only [stepRest] at run
    split at run
    · cases run
      exact .failed _ _
    · rename_i commits done
      cases run
      exact .inserted done
  | swapping edit expected commitId =>
    simp only [stepRest, testAndUpdateHeadCommit] at run
    by_cases unmoved : state.repo.headCommitId = expected
    · simp only [if_pos unmoved, Option.some.injEq] at run
      cases run
      exact .swapped unmoved
    · simp only [if_neg unmoved, Option.some.injEq] at run
      cases run
      exact .failed _ _
  | finished result => simp [stepRest] at run

variable {repo after : Repo Oid}

theorem BranchStep.commits {env : SyncEnv Oid} {pc next : BranchPc Oid}
    (step : BranchStep env repo pc after next) :
    CommitTable.Extends repo.commits after.commits := by
  cases step with
  | inserted done => exact CommitTable.extends_insertCommit done
  | sized stepped | done stepped =>
    rw [(stepSize_fields stepped).2.2.1]
    exact CommitTable.Extends.refl _
  | _ => exact CommitTable.Extends.refl _

theorem RestStep.commits (step : RestStep now repo pc after next) :
    CommitTable.Extends repo.commits after.commits := by
  cases step with
  | inserted done => exact CommitTable.extends_insertCommit done
  | _ => exact CommitTable.Extends.refl _

variable {store : FsStore Oid}

omit [ToString Oid] in
theorem storeFsFileObject_spec {after : FsStore Oid} {fsId : Oid} {data : FsFileData Oid}
    (genuine : Genuine store) (run : storeFsFileObject store data = (fsId, after)) :
    Table.Extends store after ∧ Genuine after := by
  unfold storeFsFileObject at run
  split at run
  · cases run
    exact ⟨Table.Extends.refl _, genuine⟩
  · cases run
    exact ⟨Table.extends_insertOrIgnore _ _ _,
      genuine_insert genuine fun _ => Digests.denotes_file data⟩

theorem editParent_spec {edit : DirEdit Oid} {parentFsId newParent : Oid} {description : String}
    (genuine : Genuine repo.fsObjects)
    (run : editParent repo edit parentFsId = (.ok (description, newParent), store)) :
    Table.Extends repo.fsObjects store ∧ Genuine store ∧ ∃ entries edited,
      StandsFor repo.fsObjects parentFsId entries ∧
      edit.apply entries = .ok (edited, description) ∧
      StandsFor store newParent (stored edited) := by
  unfold editParent at run
  simp only at run
  split at run
  · simp at run
  · rename_i data dirents description' ran
    obtain ⟨data', read, ran⟩ := except_bind_ok_iff.mp ran
    obtain ⟨result, applied, finish⟩ := except_bind_ok_iff.mp ran
    cases finish
    cases run
    obtain ⟨grown, genuine', stands⟩ := storeFsDirObject_spec { data with dirents } genuine
    exact ⟨grown, genuine', _, _, standsFor_of_readFsDirData read, applied, stands⟩

theorem walkUpLevel_spec {rootOverride : Option Oid} {chain : AncestorChain Oid}
    {childPath : String} {childFsId : Oid} {level : WalkLevel Oid}
    (genuine : Genuine repo.fsObjects)
    (run : walkUpLevel now repo rootOverride chain childPath childFsId =
      (.ok (some level), store)) :
    Table.Extends repo.fsObjects store ∧ Genuine store ∧ ∃ entries,
      StandsFor repo.fsObjects level.ancestor entries ∧
      StandsFor store level.newAncestor
        (stored (setChild now level.childName childFsId entries)) := by
  unfold walkUpLevel at run
  split at run
  · simp at run
  · simp only at run
    split at run
    · simp at run
    · rename_i ancestor data ran
      obtain ⟨ancestor', found, ran⟩ := except_bind_ok_iff.mp ran
      obtain ⟨data', read, finish⟩ := except_bind_ok_iff.mp ran
      cases finish
      cases run
      obtain ⟨grown, genuine', stands⟩ := storeFsDirObject_spec
        { data with dirents := setChild now _ childFsId data.dirents } genuine
      exact ⟨grown, genuine', _, standsFor_of_readFsDirData read, stands⟩

theorem RestStep.grows (step : RestStep now repo pc after next) (genuine : Genuine repo.fsObjects) :
    Grows repo after ∧ Genuine after.fsObjects := by
  have storing : ∀ store : FsStore Oid, Table.Extends repo.fsObjects store →
      Grows repo { repo with fsObjects := store } :=
    fun _ grown => ⟨grown, fun _ held => held, CommitTable.Extends.refl _⟩
  cases step with
  | fileStored stored =>
    have spec := storeFsFileObject_spec genuine stored
    exact ⟨storing _ spec.1, spec.2⟩
  | edited ran isNext =>
    have spec := editParent_spec genuine ran
    exact ⟨storing _ spec.1, spec.2.1⟩
  | walked ran isNext =>
    have spec := walkUpLevel_spec genuine ran
    exact ⟨storing _ spec.1, spec.2.1⟩
  | inserted done =>
    exact ⟨⟨Table.Extends.refl _, fun _ held => held, CommitTable.extends_insertCommit done⟩,
      genuine⟩
  | swapped unmoved =>
    exact ⟨⟨Table.Extends.refl _, fun _ held => held, CommitTable.Extends.refl _⟩, genuine⟩
  | _ => exact ⟨Grows.refl repo, genuine⟩

end Nanofile
