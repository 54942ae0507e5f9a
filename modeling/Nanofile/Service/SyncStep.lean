import Nanofile.Fs.MergeSound
import Nanofile.Service.Sync

/-!
# The steps of the sync protocol

What each request writes, and `BranchStep`, the list of what one database access of
`update_branch` can do.  Every invariant of the protocol is proved by cases on it.
-/

set_option autoImplicit false

namespace Nanofile

open Nanofile.Lib

variable {Oid : Type} [DecidableEq Oid] [Digests Oid] {mode : FsObjectVerifyMode}

theorem packRows_spec [ToString Oid] :
    ∀ (entries : List (PackEntry Oid)) (total : Nat) (rows : List (Oid × FsObject Oid)),
      packRows mode total entries = .ok rows → ∀ row ∈ rows, ∃ entry ∈ entries,
        row.1 = entry.fsId ∧ entry.object = .ok row.2 ∧ idAccepted mode entry := by
  intro entries
  induction entries with
  | nil =>
    intro total rows run row member
    cases run
    exact absurd member List.not_mem_nil
  | cons entry rest ih =>
    intro total rows run row member
    simp only [packRows, except_bind_ok_iff, mapError_eq_ok_iff] at run
    obtain ⟨length, -, _, -, _, accepted, object, parsed, _, -, others, walked, finish⟩ := run
    cases finish
    cases List.mem_cons.mp member with
    | inl isFirst =>
      refine ⟨entry, List.mem_cons_self, ?_⟩
      rw [isFirst]
      exact ⟨rfl, parsed, ensure_eq_ok_iff.mp accepted⟩
    | inr member =>
      obtain ⟨other, listed, facts⟩ := ih _ others walked row member
      exact ⟨other, List.mem_cons_of_mem _ listed, facts⟩

/-- Pushed objects are verified, or truthful without that. -/
def TruthfulPack (mode : FsObjectVerifyMode) (entries : List (PackEntry Oid)) : Prop :=
  mode = .strict ∨ ∀ entry ∈ entries, entry.sha1 = entry.fsId

theorem insertRows_spec :
    ∀ (rows : List (Oid × FsObject Oid)) (store : FsStore Oid), Genuine store →
      (∀ row ∈ rows, row.1 ≠ emptySha1 → Digests.Denotes row.1 row.2) →
      Table.Extends store (rows.foldl (fun store row => store.insertOrIgnore row.1 row.2) store) ∧
        Genuine (rows.foldl (fun store row => store.insertOrIgnore row.1 row.2) store) := by
  intro rows
  induction rows with
  | nil =>
    intro store genuine _
    exact ⟨Table.Extends.refl store, genuine⟩
  | cons row rest ih =>
    intro store genuine denoted
    have first := genuine_insert genuine (denoted row List.mem_cons_self)
    obtain ⟨grown, genuine'⟩ := ih _ first fun other member =>
      denoted other (List.mem_cons_of_mem _ member)
    exact ⟨(Table.extends_insertOrIgnore store row.1 row.2).trans grown, genuine'⟩

variable {repo : Repo Oid}

theorem insertFsObjects_spec [ToString Oid] {entries : List (PackEntry Oid)}
    (truthful : TruthfulPack mode entries) (genuine : Genuine repo.fsObjects) :
    ∃ store, (insertFsObjects mode entries repo).2 = { repo with fsObjects := store } ∧
      Table.Extends repo.fsObjects store ∧ Genuine store := by
  unfold insertFsObjects
  split
  · exact ⟨repo.fsObjects, rfl, Table.Extends.refl _, genuine⟩
  · split
    · exact ⟨repo.fsObjects, rfl, Table.Extends.refl _, genuine⟩
    · rename_i rows packed
      refine ⟨_, rfl, insertRows_spec rows repo.fsObjects genuine ?_⟩
      intro row member nonempty
      obtain ⟨entry, listed, sameId, parsed, accepted⟩ := packRows_spec entries 0 rows packed row
        member
      have matching : entry.sha1 = entry.fsId := by
        rcases accepted with sentinel | same | lax
        · exact absurd (sameId.trans sentinel) nonempty
        · exact same
        · rcases truthful with strict | truthful
          · exact absurd strict lax
          · exact truthful entry listed
      rw [sameId, ← matching]
      exact entry.denoted row.2 parsed

theorem putCommit_spec (urlCommitId : Oid) (data : CommitData Oid)
    (hashed : AllHashed repo.commits) :
    ∃ commits, (putCommit urlCommitId data repo).2 = { repo with commits } ∧
      CommitTable.Extends repo.commits commits ∧ AllHashed commits := by
  unfold putCommit
  simp only
  split
  · exact ⟨repo.commits, rfl, CommitTable.Extends.refl _, hashed⟩
  · rename_i valid
    refine ⟨_, rfl, ?_⟩
    simp only [validateCommitId, except_bind_ok_iff, ensure_eq_ok_iff] at valid
    obtain ⟨_, -, _, -, isHash⟩ := valid
    have isHashed : Hashed data.row := by
      cases isHash with
      | inl plain => exact hashed_computeCommitId data false plain
      | inr named => exact hashed_computeCommitId data true named
    cases inserted : repo.commits.insertCommit data.row with
    | none => exact ⟨CommitTable.Extends.refl _, hashed⟩
    | some commits =>
      exact ⟨CommitTable.extends_insertCommit inserted,
        allHashed_insert hashed isHashed inserted⟩

theorem putCommit_extends (urlCommitId : Oid) (data : CommitData Oid) (repo : Repo Oid) :
    ∃ commits, (putCommit urlCommitId data repo).2 = { repo with commits } ∧
      CommitTable.Extends repo.commits commits := by
  unfold putCommit
  simp only
  split
  · exact ⟨repo.commits, rfl, CommitTable.Extends.refl _⟩
  · refine ⟨_, rfl, ?_⟩
    cases inserted : repo.commits.insertCommit data.row with
    | none => exact CommitTable.Extends.refl _
    | some commits => exact CommitTable.extends_insertCommit inserted

theorem insertFsObjects_fields [ToString Oid] (mode : FsObjectVerifyMode)
    (entries : List (PackEntry Oid)) (repo : Repo Oid) :
    (insertFsObjects mode entries repo).2.commits = repo.commits ∧
      (insertFsObjects mode entries repo).2.headCommitId = repo.headCommitId := by
  unfold insertFsObjects
  split
  · exact ⟨rfl, rfl⟩
  · split <;> exact ⟨rfl, rfl⟩

theorem serveSync_commits [ToString Oid] (repo : Repo Oid) (request : SyncRequest Oid) :
    CommitTable.Extends repo.commits (serveSync repo request).commits ∧
      (serveSync repo request).headCommitId = repo.headCommitId := by
  cases request with
  | insertFsObjects mode entries =>
    obtain ⟨sameCommits, sameHead⟩ := insertFsObjects_fields mode entries repo
    rw [serveSync, sameCommits]
    exact ⟨CommitTable.Extends.refl _, sameHead⟩
  | writeBlock blockId now => exact ⟨CommitTable.Extends.refl _, rfl⟩
  | putCommit urlCommitId data =>
    obtain ⟨commits, after, grown⟩ := putCommit_extends urlCommitId data repo
    rw [serveSync, after]
    exact ⟨grown, rfl⟩

variable {env : SyncEnv Oid} {newHead : Oid} {upload : Upload Oid} {userId : Int}

theorem validateUpload_ok (run : validateUpload env repo newHead userId = .ok upload) :
    upload.newHead = newHead ∧ repo.commits.find newHead = some upload.newCommit ∧
      upload.baseRootId = baseRootOf repo.commits upload.newCommit ∧
      checkCommitBlocks env.limits repo.fsObjects (cachedHasBlock env.cached repo.blocks)
        upload.newCommit.rootId upload.baseRootId = .ok ([], upload.sizeDelta) := by
  simp only [validateUpload, except_bind_ok_iff] at run
  obtain ⟨newCommit, found, _, rooted, ⟨missing, delta⟩, checked, _, none, _, unlocked, _,
    known, finish⟩ := run
  have noneMissing : missing = [] := ensure_eq_ok_iff.mp none
  subst noneMissing
  cases finish
  exact ⟨rfl, okOr_eq_ok_iff.mp found, rfl, checked⟩

theorem validateUpload_base (run : validateUpload env repo newHead userId = .ok upload)
    {parentId : Oid} (named : upload.newCommit.parentId = some parentId)
    (real : parentId ≠ emptySha1) :
    ∃ parent, repo.commits.find parentId = some parent ∧
      upload.baseRootId = some parent.rootId := by
  simp only [validateUpload, except_bind_ok_iff] at run
  obtain ⟨newCommit, -, _, -, _, -, _, -, _, -, _, known, finish⟩ := run
  cases finish
  have isParent : newCommit.realParent = some parentId := by
    rw [CommitRow.realParent, show newCommit.parentId = some parentId from named]
    simp [real]
  have based := (ensure_eq_ok_iff.mp known).resolve_left (by simp [isParent])
  simp only [baseRootOf, isParent, Option.bind_some, ne_eq, Option.map_eq_none_iff] at based
  obtain ⟨parent, found⟩ := Option.ne_none_iff_exists'.mp based
  exact ⟨parent, found, by simp [baseRootOf, isParent, found]⟩

variable [ToString Oid]

inductive BranchStep (env : SyncEnv Oid) (repo : Repo Oid) :
    BranchPc Oid → Repo Oid → BranchPc Oid → Prop
  | failed (pc : BranchPc Oid) (failure : AppError) :
      BranchStep env repo pc repo (.finished (.error failure))
  | checked {newHead : Oid} {userId : Int} {upload : Upload Oid}
      (valid : validateUpload env repo newHead userId = .ok upload) :
      BranchStep env repo (.begun newHead userId) repo (.uploaded upload 1)
  | already {upload : Upload Oid} {attempt : Nat}
      (isHead : currentHead repo = some upload.newHead) :
      BranchStep env repo (.uploaded upload attempt) repo (.finished (.ok true))
  | fastForward {upload : Upload Oid} {attempt : Nat} {head : Option Oid}
      (isHead : currentHead repo = head) (isNew : head ≠ some upload.newHead)
      (parent : ∀ headId, head = some headId → upload.newCommit.parentId = some headId) :
      BranchStep env repo (.uploaded upload attempt) repo
        (.swapping upload attempt ⟨head, upload.newHead, upload.newCommit.rootId,
          upload.baseRootId, upload.sizeDelta, false, false⟩)
  | diverged {upload : Upload Oid} {attempt : Nat} {headId : Oid} {head : CommitRow Oid}
      (isHead : currentHead repo = some headId)
      (foreign : upload.newCommit.parentId ≠ some headId)
      (found : repo.commits.find headId = some head) :
      BranchStep env repo (.uploaded upload attempt) repo
        (.merging upload attempt headId head.rootId)
  | mergeFailed {upload : Upload Oid} {attempt : Nat} {headId headRoot : Oid}
      (failure : AppError) :
      BranchStep env repo (.merging upload attempt headId headRoot)
        { repo with fsObjects := (mergeTrees (env.merge upload.newCommit)
          (upload.baseRootId.getD emptySha1) headRoot repo.fsObjects).2 }
        (.finished (.error failure))
  | merged {upload : Upload Oid} {attempt : Nat} {headId headRoot : Oid}
      {outcome : MergeOutcome Oid} {store : FsStore Oid} {delta : Int}
      (ran : mergeTrees (env.merge upload.newCommit) (upload.baseRootId.getD emptySha1)
        headRoot repo.fsObjects = (.ok outcome, store))
      (checked : checkCommitBlocks env.limits store (cachedHasBlock env.cached repo.blocks)
        outcome.mergedRoot (some headRoot) = .ok ([], delta)) :
      BranchStep env repo (.merging upload attempt headId headRoot)
        { repo with fsObjects := store }
        (.recording upload attempt (mergeCommit repo.id (env.clock 0) upload headId
            outcome.mergedRoot outcome.conflict).row
          ⟨some headId, (mergeCommit repo.id (env.clock 0) upload headId outcome.mergedRoot
            outcome.conflict).commitId, outcome.mergedRoot, some headRoot, delta, true,
            outcome.keptDeleted⟩)
  | reused {upload : Upload Oid} {attempt : Nat} {row existing : CommitRow Oid} {swap : Swap Oid}
      (found : repo.commits.find row.commitId = some existing) :
      BranchStep env repo (.recording upload attempt row swap) repo
        (.swapping upload attempt swap)
  | fresh {upload : Upload Oid} {attempt : Nat} {row : CommitRow Oid} {swap : Swap Oid}
      (absent : repo.commits.find row.commitId = none) :
      BranchStep env repo (.recording upload attempt row swap) repo
        (.inserting upload attempt row swap)
  | inserted {upload : Upload Oid} {attempt : Nat} {row : CommitRow Oid} {swap : Swap Oid}
      {commits : CommitTable Oid} (done : repo.commits.insertCommit row = some commits) :
      BranchStep env repo (.inserting upload attempt row swap) { repo with commits }
        (.swapping upload attempt swap)
  | swapped {upload : Upload Oid} {attempt : Nat} {swap : Swap Oid}
      (unmoved : repo.headCommitId = swap.currentHead) :
      BranchStep env repo (.swapping upload attempt swap)
        { repo with headCommitId := some swap.targetHead } (.sizing (.reading swap.delta))
  | lost {upload : Upload Oid} {attempt : Nat} {swap : Swap Oid}
      (moved : repo.headCommitId ≠ swap.currentHead) :
      BranchStep env repo (.swapping upload attempt swap) repo
        (.uploaded upload (attempt + 1))
  | sized {size next : SizePc} {after : Repo Oid}
      (stepped : stepSize env.limits repo size = .ok (after, some next)) :
      BranchStep env repo (.sizing size) after (.sizing next)
  | done {size : SizePc} {after : Repo Oid}
      (stepped : stepSize env.limits repo size = .ok (after, none)) :
      BranchStep env repo (.sizing size) after (.finished (.ok false))

theorem readHead_step (env : SyncEnv Oid) (repo : Repo Oid) (upload : Upload Oid)
    (attempt : Nat) :
    BranchStep env repo (.uploaded upload attempt) repo (readHead repo upload attempt) := by
  unfold readHead
  split
  · rename_i isHead
    exact .already isHead
  · rename_i isNew
    cases isHead : currentHead repo with
    | none =>
      apply BranchStep.fastForward isHead
      · simp
      · simp
    | some headId =>
      rw [isHead] at isNew
      simp only
      split
      · rename_i parent
        apply BranchStep.fastForward isHead isNew
        intro other isOther
        exact Option.some.inj isOther ▸ parent
      · rename_i foreign
        cases found : repo.commits.find headId with
        | none => exact .failed _ _
        | some head => exact .diverged isHead foreign found

theorem mergeBranch_step (env : SyncEnv Oid) (repo : Repo Oid) (upload : Upload Oid)
    (attempt : Nat) (headId headRoot : Oid) :
    BranchStep env repo (.merging upload attempt headId headRoot)
      (mergeBranch env repo upload attempt headId headRoot).1
      (mergeBranch env repo upload attempt headId headRoot).2 := by
  unfold mergeBranch
  simp only
  cases ran : (mergeTrees (env.merge upload.newCommit) (upload.baseRootId.getD emptySha1)
      headRoot repo.fsObjects).1 with
  | error failure => exact .mergeFailed failure
  | ok outcome =>
    simp only
    cases checked : checkCommitBlocks env.limits (mergeTrees (env.merge upload.newCommit)
        (upload.baseRootId.getD emptySha1) headRoot repo.fsObjects).2
        (cachedHasBlock env.cached repo.blocks) outcome.mergedRoot (some headRoot) with
    | error failure => exact .mergeFailed failure
    | ok result =>
      obtain ⟨missing, delta⟩ := result
      simp only
      split
      · exact .mergeFailed .blockMissing
      · rename_i none
        rw [not_not] at none
        subst none
        exact .merged (Prod.ext ran rfl) checked

variable {after : Repo Oid} {next pc : BranchPc Oid}

theorem stepBranch_sound (run : stepBranch env repo pc = some (after, next)) :
    BranchStep env repo pc after next := by
  cases pc with
  | begun newHead userId =>
    simp only [stepBranch] at run
    split at run
    · cases run
      exact .failed _ _
    · rename_i upload valid
      cases run
      exact .checked valid
  | uploaded upload attempt =>
    cases run
    exact readHead_step env repo upload attempt
  | merging upload attempt headId headRoot =>
    simp only [stepBranch, Option.some.injEq] at run
    have step := mergeBranch_step env repo upload attempt headId headRoot
    rw [run] at step
    exact step
  | recording upload attempt row swap =>
    simp only [stepBranch] at run
    split at run
    · rename_i found
      obtain ⟨existing, found⟩ := Option.isSome_iff_exists.mp found
      cases run
      exact .reused found
    · rename_i absent
      cases run
      exact .fresh (by simpa using absent)
  | inserting upload attempt row swap =>
    simp only [stepBranch] at run
    split at run
    · cases run
      exact .failed _ _
    · rename_i commits done
      cases run
      exact .inserted done
  | swapping upload attempt swap =>
    simp only [stepBranch, testAndUpdateHeadCommit] at run
    split at run
    · cases run
      exact .failed _ _
    · by_cases unmoved : repo.headCommitId = swap.currentHead
      · simp only [if_pos unmoved, Option.some.injEq, Prod.mk.injEq] at run
        obtain ⟨rfl, rfl⟩ := run
        exact .swapped unmoved
      · simp only [if_neg unmoved] at run
        split at run
        · cases run
          exact .failed _ _
        · cases run
          exact .lost unmoved
  | sizing size =>
    simp only [stepBranch] at run
    split at run
    · cases run
      exact .failed _ _
    · rename_i repo' size' stepped
      cases run
      exact .sized stepped
    · rename_i repo' stepped
      cases run
      exact .done stepped
  | finished result => simp [stepBranch] at run

omit [ToString Oid] in
theorem stepSize_fields {limits : Limits} {size : SizePc} {next : Option SizePc}
    (run : stepSize limits repo size = .ok (after, next)) :
    after.fsObjects = repo.fsObjects ∧ after.blocks = repo.blocks ∧
      after.commits = repo.commits ∧ after.headCommitId = repo.headCommitId := by
  cases size with
  | reading delta | adding amount =>
    cases run
    exact ⟨rfl, rfl, rfl, rfl⟩
  | counting =>
    simp only [stepSize] at run
    split at run
    · simp at run
    · cases run
      exact ⟨rfl, rfl, rfl, rfl⟩

theorem BranchStep.grows (step : BranchStep env repo pc after next)
    (genuine : Genuine repo.fsObjects) : Grows repo after ∧ Genuine after.fsObjects := by
  have sized : ∀ {size : SizePc} {left : Repo Oid} {next : Option SizePc},
      stepSize env.limits repo size = .ok (left, next) →
      Grows repo left ∧ Genuine left.fsObjects := by
    intro size left next stepped
    obtain ⟨sameStore, sameBlocks, sameCommits, -⟩ := stepSize_fields stepped
    refine ⟨⟨?_, ?_, ?_⟩, ?_⟩
    · rw [sameStore]
      exact Table.Extends.refl _
    · rw [sameBlocks]
      exact fun _ stored => stored
    · rw [sameCommits]
      exact CommitTable.Extends.refl _
    · rw [sameStore]
      exact genuine
  have merges : ∀ (upload : Upload Oid) (headRoot : Oid),
      Grows repo { repo with fsObjects := (mergeTrees (env.merge upload.newCommit)
        (upload.baseRootId.getD emptySha1) headRoot repo.fsObjects).2 } ∧
      Genuine (mergeTrees (env.merge upload.newCommit) (upload.baseRootId.getD emptySha1)
        headRoot repo.fsObjects).2 := by
    intro upload headRoot
    obtain ⟨grown, genuine'⟩ := mergeTrees_grows (env.merge upload.newCommit)
      (upload.baseRootId.getD emptySha1) headRoot genuine
    exact ⟨⟨grown, fun _ stored => stored, CommitTable.Extends.refl _⟩, genuine'⟩
  cases step with
  | mergeFailed failure => exact merges _ _
  | @merged upload _ _ headRoot outcome store _ ran _ =>
    have grown := merges upload headRoot
    rw [ran] at grown
    exact grown
  | inserted done =>
    exact ⟨⟨Table.Extends.refl _, fun _ stored => stored,
      CommitTable.extends_insertCommit done⟩, genuine⟩
  | swapped unmoved =>
    exact ⟨⟨Table.Extends.refl _, fun _ stored => stored, CommitTable.Extends.refl _⟩, genuine⟩
  | sized stepped | done stepped => exact sized stepped
  | _ => exact ⟨Grows.refl repo, genuine⟩

end Nanofile
