import Nanofile.Service.EditSize
import Nanofile.Service.SizeRuns

/-!
# Commits on HEAD

A commit that succeeds has HEAD at its root and one that fails changes nothing; neither
touches the stored size, which `adjust_repo_size` alone sets.
-/

set_option autoImplicit false

namespace Nanofile

open Nanofile.Lib

variable {Oid : Type} [DecidableEq Oid] [Digests Oid] {after : WebState Oid}

theorem StoredMore.size {before : WebState Oid} (more : StoredMore before after) :
    after.repo.size = before.repo.size := by rw [more.repo]

variable {root : Oid} {repo : Repo Oid}

omit [Digests Oid] in
theorem resolveRootFsId_eq_ok_iff :
    resolveRootFsId repo = .ok root ↔ ∃ headId row, repo.headCommitId = some headId ∧
      repo.commits.find headId = some row ∧ row.rootId = root := by
  unfold resolveRootFsId
  cases isHead : repo.headCommitId with
  | none => simp
  | some headId =>
    cases found : repo.commits.find headId with
    | none | some row => simp [found]

theorem computeRepoSize_of_root {limits : Limits}
    (isRoot : resolveRootFsId repo = .ok root) :
    computeRepoSize limits repo = computeTreeSize limits repo.fsObjects root := by
  obtain ⟨headId, head, isHead, found, rfl⟩ := resolveRootFsId_eq_ok_iff.mp isRoot
  rw [computeRepoSize, isHead]
  dsimp only
  rw [found]

omit [Digests Oid] in
theorem headRootIdOpt_eq_some_iff :
    headRootIdOpt repo = .ok (some root) ↔ resolveRootFsId repo = .ok root := by
  rw [resolveRootFsId_eq_ok_iff]
  unfold headRootIdOpt
  cases isHead : repo.headCommitId with
  | none => simp
  | some headId =>
    cases found : repo.commits.find headId with
    | none | some row => simp [found]

omit [Digests Oid] in
theorem headRootId_eq_ok_iff :
    headRootId repo = .ok root ↔ resolveRootFsId repo = .ok root := by
  rw [← headRootIdOpt_eq_some_iff, headRootId]
  simp only [except_bind_ok_iff, okOr_eq_ok_iff]
  constructor
  · intro run
    obtain ⟨found, opt, rfl⟩ := run
    exact opt
  · intro opt
    exact ⟨some root, opt, rfl⟩

variable {change creatorName description : String} {ctime : Int} {rootId : Oid}
  {state : WebState Oid}

theorem commitRoot_root
    (run : commitRoot change rootId creatorName description ctime state = (.ok (), after)) :
    after.repo.fsObjects = state.repo.fsObjects ∧ resolveRootFsId after.repo = .ok rootId := by
  unfold commitRoot at run
  split at run
  · rename_i unchanged
    cases run
    obtain ⟨row, found, isRoot⟩ := (Option.any_eq_true _ _).mp unchanged
    obtain ⟨headId, isHead, found⟩ := Option.bind_eq_some_iff.mp found
    exact ⟨rfl, resolveRootFsId_eq_ok_iff.mpr ⟨headId, row, isHead, found, by simpa using isRoot⟩⟩
  · dsimp only at run
    split at run
    · simp at run
    · rename_i commits inserted
      simp only [testAndUpdateHeadCommit, if_true] at run
      cases run
      have found := CommitTable.find_inserted inserted
      exact ⟨rfl, resolveRootFsId_eq_ok_iff.mpr ⟨_, _, rfl, found, rfl⟩⟩

theorem commitRoot_size
    (run : commitRoot change rootId creatorName description ctime state = (.ok (), after)) :
    after.repo.size = state.repo.size := by
  unfold commitRoot at run
  split at run
  · cases run
    rfl
  · dsimp only at run
    split at run
    · cases run
    · simp only [testAndUpdateHeadCommit, if_true] at run
      cases run
      rfl

theorem commitRoot_failed {failure : AppError}
    (run : commitRoot change rootId creatorName description ctime state = (.error failure, after)) :
    after = state := by
  unfold commitRoot at run
  split at run
  · simp at run
  · dsimp only at run
    split at run
    · cases run
      rfl
    · simp [testAndUpdateHeadCommit] at run

theorem adjustRepoSize_ok {limits : Limits} {amount : Int} {final : WebState Oid}
    (run : adjustRepoSize limits amount state = (.ok (), final)) :
    final = { state with repo := { state.repo with size := final.repo.size } } := by
  unfold adjustRepoSize at run
  split at run
  · split at run
    · simp at run
    · cases run
      rfl
  · cases run
    rfl

theorem Resolves.honest {store : FsStore Oid} : ∀ {parts : List String} {root dir : Oid},
    Resolves store parts root dir → Honest store root → Honest store dir := by
  intro parts
  induction parts with
  | nil => exact fun resolves honest => resolves ▸ honest
  | cons name rest ih =>
    intro root dir resolves honest
    obtain ⟨entries, entry, stands, found, directory, below⟩ := resolves
    have child := (honest.entries stands).1.2 entry (lookup_eq_some found).1
    rw [HonestEntry, if_pos directory] at child
    exact ih below child

end Nanofile
