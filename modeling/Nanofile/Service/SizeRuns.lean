import Nanofile.Service.SizeDelta
import Nanofile.Service.UploadComplete

/-!
# The stored size under concurrent uploads

Between the swap and the addition of an upload the stored size lags behind HEAD by
what is still to be added.  The additions commute; a count of the HEAD tree does not,
since it already holds what other uploads have yet to add, and neither does an
addition that is cut off at zero.
-/

set_option autoImplicit false

namespace Nanofile

open Nanofile.Lib

variable {Oid : Type} [DecidableEq Oid] [Digests Oid]

/-! ## What each upload relies on -/

def HeadHonest (repo : Repo Oid) : Prop :=
  ∀ headId, repo.headCommitId = some headId →
    ∃ row, repo.commits.find headId = some row ∧ Honest repo.fsObjects row.rootId

noncomputable def headSize (repo : Repo Oid) : Int :=
  ((repo.headCommitId.bind repo.commits.find).map fun row =>
    treeSize repo.fsObjects row.rootId).getD 0

structure SizeInv (repo : Repo Oid) : Prop where
  genuine : Genuine repo.fsObjects
  hashed : AllHashed repo.commits
  head : HeadHonest repo

/-- The delta of a checked upload leads from the tree of its parent to its own. -/
structure UploadSized (repo : Repo Oid) (upload : Upload Oid) : Prop where
  found : repo.commits.find upload.newHead = some upload.newCommit
  honest : Honest repo.fsObjects upload.newCommit.rootId
  delta : ∀ parentId, upload.newCommit.parentId = some parentId → parentId ≠ emptySha1 →
    ∃ parent, repo.commits.find parentId = some parent ∧
      Honest repo.fsObjects parent.rootId ∧ upload.sizeDelta =
        treeSize repo.fsObjects upload.newCommit.rootId - treeSize repo.fsObjects parent.rootId

/-- The delta of a swap leads from the HEAD it expects to its target. -/
def SwapSized (repo : Repo Oid) (swap : Swap Oid) (rootId : Oid) : Prop :=
  Honest repo.fsObjects rootId ∧ ∀ headId, swap.currentHead = some headId →
    ∃ head, repo.commits.find headId = some head ∧ Honest repo.fsObjects head.rootId ∧
      swap.delta = treeSize repo.fsObjects rootId - treeSize repo.fsObjects head.rootId

def RowSized (repo : Repo Oid) (row : CommitRow Oid) (swap : Swap Oid) : Prop :=
  swap.targetHead = row.commitId ∧ Hashed row ∧ SwapSized repo swap row.rootId

def BranchSized (repo : Repo Oid) : BranchPc Oid → Prop
  | .uploaded upload _ => UploadSized repo upload
  | .merging upload _ headId headRoot => UploadSized repo upload ∧
      ∃ head, repo.commits.find headId = some head ∧ head.rootId = headRoot ∧
        Honest repo.fsObjects headRoot
  | .recording upload _ row swap => UploadSized repo upload ∧ RowSized repo row swap
  | .inserting upload _ row swap => UploadSized repo upload ∧ RowSized repo row swap
  | .swapping upload _ swap => UploadSized repo upload ∧
      ∃ row, repo.commits.find swap.targetHead = some row ∧ SwapSized repo swap row.rootId
  | _ => True

variable {upload : Upload Oid} {pc : BranchPc Oid}

section Grows

variable {before after : Repo Oid}

theorem UploadSized.grows (sized : UploadSized before upload) (grown : Grows before after) :
    UploadSized after upload := by
  refine ⟨grown.commits _ _ sized.found, sized.honest.extends grown.fsObjects, ?_⟩
  intro parentId named real
  obtain ⟨parent, found, honest, isDelta⟩ := sized.delta parentId named real
  refine ⟨parent, grown.commits _ _ found, honest.extends grown.fsObjects, ?_⟩
  rw [treeSize_extends grown.fsObjects honest, treeSize_extends grown.fsObjects sized.honest]
  exact isDelta

theorem SwapSized.grows {swap : Swap Oid} {rootId : Oid} (sized : SwapSized before swap rootId)
    (grown : Grows before after) : SwapSized after swap rootId := by
  obtain ⟨honest, deltas⟩ := sized
  refine ⟨honest.extends grown.fsObjects, ?_⟩
  intro headId expected
  obtain ⟨head, found, honestHead, isDelta⟩ := deltas headId expected
  refine ⟨head, grown.commits _ _ found, honestHead.extends grown.fsObjects, ?_⟩
  rw [treeSize_extends grown.fsObjects honest, treeSize_extends grown.fsObjects honestHead]
  exact isDelta

theorem BranchSized.grows (sized : BranchSized before pc) (grown : Grows before after) :
    BranchSized after pc := by
  cases pc with
  | uploaded upload attempt => exact UploadSized.grows sized grown
  | merging upload attempt headId headRoot =>
    obtain ⟨uploaded, head, found, isRoot, honest⟩ := sized
    exact ⟨uploaded.grows grown, head, grown.commits _ _ found, isRoot,
      honest.extends grown.fsObjects⟩
  | recording upload attempt row swap | inserting upload attempt row swap =>
    obtain ⟨uploaded, target, hashed, swapped⟩ := sized
    exact ⟨uploaded.grows grown, target, hashed, swapped.grows grown⟩
  | swapping upload attempt swap =>
    obtain ⟨uploaded, row, found, swapped⟩ := sized
    exact ⟨uploaded.grows grown, row, grown.commits _ _ found, swapped.grows grown⟩
  | begun | sizing | finished => trivial

theorem HeadHonest.grows (honest : HeadHonest before) (grown : Grows before after)
    (sameHead : after.headCommitId = before.headCommitId) : HeadHonest after := by
  intro headId isHead
  obtain ⟨row, found, tree⟩ := honest headId (sameHead ▸ isHead)
  exact ⟨row, grown.commits _ _ found, tree.extends grown.fsObjects⟩

theorem headSize_grows (honest : HeadHonest before) (grown : Grows before after)
    (sameHead : after.headCommitId = before.headCommitId) : headSize after = headSize before := by
  unfold headSize
  rw [sameHead]
  cases isHead : before.headCommitId with
  | none => rfl
  | some headId =>
    obtain ⟨row, found, tree⟩ := honest headId isHead
    simp [found, grown.commits _ _ found, treeSize_extends grown.fsObjects tree]

end Grows

variable {repo : Repo Oid}

theorem computeRepoSize_eq {limits : Limits} {total : Int} (honest : HeadHonest repo)
    (run : computeRepoSize limits repo = .ok total) : total = headSize repo := by
  unfold computeRepoSize at run
  unfold headSize
  cases isHead : repo.headCommitId with
  | none =>
    rw [isHead] at run
    cases run
    rfl
  | some headId =>
    obtain ⟨row, found, tree⟩ := honest headId isHead
    rw [isHead] at run
    simp only [found] at run
    simpa [found] using computeTreeSize_eq tree run

/-! ## The condition on the trees compared -/

/-- The upload and the tree of its parent are honest when they are compared. -/
def HonestUpload (repo : Repo Oid) (newHead : Oid) : Prop :=
  ∀ row, repo.commits.find newHead = some row → Honest repo.fsObjects row.rootId ∧
    ∀ base, baseRootOf repo.commits row = some base → Honest repo.fsObjects base

def HonestMerge [ToString Oid] (env : SyncEnv Oid) (repo : Repo Oid) (upload : Upload Oid)
    (headRoot : Oid) : Prop :=
  ∀ outcome store, mergeTrees (env.merge upload.newCommit) (upload.baseRootId.getD emptySha1)
    headRoot repo.fsObjects = (.ok outcome, store) → Honest store outcome.mergedRoot

/-- The conditions on one call: honest trees, and no addition cut off at zero. -/
def SizeHolds [ToString Oid] (repo : Repo Oid) (pc : BranchPc Oid) (env : SyncEnv Oid) : Prop :=
  match pc with
  | .begun newHead _ => HonestUpload repo newHead
  | .merging upload _ _ headRoot => HonestMerge env repo upload headRoot
  | .sizing (.adding amount) => 0 ≤ repo.size + amount
  | _ => True

variable {env : SyncEnv Oid}

theorem uploadSized_of_validate {newHead : Oid} {userId : Int} (honest : HonestUpload repo newHead)
    (valid : validateUpload env repo newHead userId = .ok upload) : UploadSized repo upload := by
  obtain ⟨sameHead, found, sameBase, passed⟩ := validateUpload_ok valid
  obtain ⟨honestNew, honestBase⟩ := honest _ found
  refine ⟨by rw [sameHead]; exact found, honestNew, ?_⟩
  intro parentId named real
  obtain ⟨parent, foundParent, isBase⟩ := validateUpload_base valid named real
  have honestParent := honestBase parent.rootId (sameBase ▸ isBase)
  rw [isBase] at passed
  exact ⟨parent, foundParent, honestParent,
    checkCommitBlocks_delta honestNew honestParent passed⟩

variable [ToString Oid] {next : BranchPc Oid} {after : Repo Oid}

theorem branchStep_sized (invariant : SizeInv repo) (sized : BranchSized repo pc)
    (holds : SizeHolds repo pc env) (step : BranchStep env repo pc after next) :
    SizeInv after ∧ BranchSized after next := by
  obtain ⟨grows, genuine⟩ := step.grows invariant.genuine
  have stays : ∀ left : Repo Oid, Grows repo left → Genuine left.fsObjects →
      left.commits = repo.commits → left.headCommitId = repo.headCommitId → SizeInv left := by
    intro left grown genuine' sameCommits sameHead
    exact ⟨genuine', sameCommits ▸ invariant.hashed, invariant.head.grows grown sameHead⟩
  cases step with
  | failed pc failure | already isHead => exact ⟨invariant, trivial⟩
  | checked valid => exact ⟨invariant, uploadSized_of_validate holds valid⟩
  | fastForward isHead isNew parent =>
    refine ⟨invariant, sized, _, sized.found, sized.honest, ?_⟩
    intro headId expected
    obtain ⟨-, real⟩ := Option.filter_eq_some_iff.mp (isHead.trans expected)
    exact sized.delta headId (parent headId expected) (by simpa using real)
  | diverged isHead foreign found =>
    obtain ⟨isHead', -⟩ := Option.filter_eq_some_iff.mp isHead
    obtain ⟨row, found', tree⟩ := invariant.head _ isHead'
    rw [found, Option.some.injEq] at found'
    subst found'
    exact ⟨invariant, sized, _, found, rfl, tree⟩
  | mergeFailed failure => exact ⟨stays _ grows genuine rfl rfl, trivial⟩
  | @merged upload attempt headId headRoot outcome store delta ran checked =>
    obtain ⟨uploaded, head, found, rfl, honestHead⟩ := sized
    have honestMerged := holds outcome store ran
    have honestHead' := honestHead.extends grows.fsObjects
    refine ⟨stays _ grows genuine rfl rfl, uploaded.grows grows, rfl,
      hashed_computeCommitId _ false rfl, honestMerged, ?_⟩
    intro other isOther
    cases isOther
    exact ⟨head, found, honestHead', checkCommitBlocks_delta honestMerged honestHead' checked⟩
  | reused found =>
    obtain ⟨uploaded, target, hashed, swapped⟩ := sized
    have sameRoot := (hashed.rootId_eq (invariant.hashed _ _ found)
      (CommitTable.find_eq_some_iff.mp found).2.symm).1
    exact ⟨invariant, uploaded, _, target ▸ found, sameRoot ▸ swapped⟩
  | fresh absent => exact ⟨invariant, sized⟩
  | @inserted _ _ row swap commits done =>
    obtain ⟨uploaded, target, hashed, swapped⟩ := sized
    refine ⟨⟨genuine, allHashed_insert invariant.hashed hashed done,
      invariant.head.grows grows rfl⟩, uploaded.grows grows,
      { row with id := repo.commits.nextId }, ?_, swapped.grows grows⟩
    show commits.find swap.targetHead = _
    rw [target]
    exact CommitTable.find_inserted done
  | swapped unmoved =>
    obtain ⟨uploaded, row, found, honest, -⟩ := sized
    refine ⟨⟨genuine, invariant.hashed, fun headId isHead => ?_⟩, trivial⟩
    cases isHead
    exact ⟨row, found, honest⟩
  | lost moved => exact ⟨invariant, sized.1⟩
  | sized stepped | done stepped =>
    obtain ⟨-, -, sameCommits, sameHead⟩ := stepSize_fields stepped
    exact ⟨stays _ grows genuine sameCommits sameHead, trivial⟩

/-! ## What is still to be added -/

/-- What a call has still to add; a call that counts has not decided yet. -/
def pendingSize : BranchPc Oid → Int
  | .sizing (.reading delta) => delta
  | .sizing (.adding amount) => amount
  | _ => 0

def outstanding (running : List (BranchPc Oid)) : Int := (running.map pendingSize).sum

/-- A call that counts the HEAD tree does so when the stored size and what the others
have still to add cancel out, and the tree is within the limits. -/
def CountsAlone (state : Threads (Repo Oid) (BranchPc Oid)) :
    ThreadAction (SyncRequest Oid) (BranchJob Oid) (SyncEnv Oid) → Prop
  | .advance index env => state.running[index]? = some (.sizing .counting) →
      state.shared.size + outstanding state.running = 0 ∧
        ∃ total, computeRepoSize env.limits state.shared = .ok total
  | _ => True

def sizeGuard (state : Threads (Repo Oid) (BranchPc Oid))
    (action : ThreadAction (SyncRequest Oid) (BranchJob Oid) (SyncEnv Oid)) : Prop :=
  Program.guarded RequestHolds SizeHolds state action ∧ CountsAlone state action

/-- A library whose stored size is that of HEAD, or zero for never computed. -/
def CountedOrNot (repo : Repo Oid) : Prop :=
  SizeInv repo ∧ (repo.size = headSize repo ∨ repo.size = 0)

def sizeSystem : System (Threads (Repo Oid) (BranchPc Oid))
    (ThreadAction (SyncRequest Oid) (BranchJob Oid) (SyncEnv Oid)) :=
  syncProgram.system CountedOrNot

variable {state : Threads (Repo Oid) (BranchPc Oid)}

theorem uploads_sized (reached : sizeSystem.Reachable sizeGuard state) :
    SizeInv state.shared ∧ ∀ pc ∈ state.running, BranchSized state.shared pc := by
  have stable : ∀ (before after : Repo Oid) (pc : BranchPc Oid), Grows before after →
      BranchSized before pc → BranchSized after pc :=
    fun _ _ _ grown sized => sized.grows grown
  have guarded := reached.mono fun _ _ met => met.1
  unfold sizeSystem at guarded
  refine Program.threads_invariant stable ?_ ?_ ?_ ?_ guarded
  · intro repo job _
    trivial
  · intro repo request invariant holds
    obtain ⟨grows, genuine⟩ := serveSync_grows invariant.genuine holds
    exact ⟨⟨genuine, serveSync_hashed request invariant.hashed,
      invariant.head.grows grows (serveSync_commits repo request).2⟩, grows⟩
  · intro repo pc env after invariant sized holds taken
    have step := stepBranch_sound taken
    obtain ⟨kept, own⟩ := branchStep_sized invariant sized holds step
    exact ⟨kept, own, (step.grows invariant.genuine).1⟩
  · intro repo start
    exact start.1

/-! ## The invariant over all calls -/

/-- Calls in `adjust_repo_size` that have not read the size yet. -/
def OnlyReading (running : List (BranchPc Oid)) : Prop :=
  ∀ size, .sizing size ∈ running → ∃ delta, size = .reading delta

/-- No call has counted or added since the size was zero. -/
def Uncounted (first state : Threads (Repo Oid) (BranchPc Oid)) : Prop :=
  state.shared.size = 0 ∧ OnlyReading state.running ∧
    ((∃ delta, .sizing (.reading delta) ∈ state.running) ∨
      (state.shared.headCommitId = first.shared.headCommitId ∧
        state.shared.size = first.shared.size))

/-- A call is about to count, or the size is uncounted, or it is that of HEAD up to
what is still to be added. -/
def Accounted (first state : Threads (Repo Oid) (BranchPc Oid)) : Prop :=
  .sizing .counting ∈ state.running ∨ Uncounted first state ∨
    state.shared.size + outstanding state.running = headSize state.shared

def UnusedSize (state : Threads (Repo Oid) (BranchPc Oid)) : Prop :=
  state.shared.headCommitId = none → state.shared.size = 0 ∧
    ∀ size, .sizing size ∉ state.running

variable {index : Nat} {first : Threads (Repo Oid) (BranchPc Oid)}

omit [ToString Oid] in
/-- A step that neither moves HEAD nor touches the size, of a call outside
`adjust_repo_size`. -/
theorem accounted_of_calm (running : state.running[index]? = some pc)
    (outside : ∀ size, pc ≠ .sizing size) (outside' : ∀ size, next ≠ .sizing size)
    (sameSize : after.size = state.shared.size)
    (sameHead : after.headCommitId = state.shared.headCommitId)
    (sameHeadSize : headSize after = headSize state.shared) (accounted : Accounted first state)
    (unused : UnusedSize state) :
    Accounted first ⟨after, state.running.set index next⟩ ∧
      UnusedSize ⟨after, state.running.set index next⟩ := by
  have noPending : ∀ {pc : BranchPc Oid}, (∀ size, pc ≠ .sizing size) → pendingSize pc = 0 := by
    intro pc outside
    cases pc with
    | sizing size => exact absurd rfl (outside size)
    | _ => rfl
  have before : ∀ size, .sizing size ∈ state.running.set index next →
      .sizing size ∈ state.running := by
    intro size listed
    exact (List.mem_or_eq_of_mem_set listed).resolve_right (outside' size).symm
  have still : ∀ size, .sizing size ∈ state.running →
      .sizing size ∈ state.running.set index next := by
    intro size listed
    exact Program.mem_set_of_ne running listed (outside size).symm next
  constructor
  · rcases accounted with counting | ⟨zero, reading, moved⟩ | exact
    · exact Or.inl (still _ counting)
    · refine Or.inr (Or.inl ⟨sameSize.trans zero, fun size listed => reading size (before size
        listed), ?_⟩)
      rcases moved with ⟨delta, listed⟩ | ⟨atStart, startSize⟩
      · exact Or.inl ⟨delta, still _ listed⟩
      · exact Or.inr ⟨sameHead.trans atStart, sameSize.trans startSize⟩
    · refine Or.inr (Or.inr ?_)
      simp only [outstanding] at exact ⊢
      rw [sum_map_set pendingSize running, noPending outside, noPending outside', sameSize,
        sameHeadSize]
      omega
  · intro noHead
    obtain ⟨zero, none⟩ := unused (sameHead.symm.trans noHead)
    exact ⟨sameSize.trans zero, fun size listed => none size (before size listed)⟩

theorem branchStep_calm_or_swapped (outside : ∀ size, pc ≠ .sizing size)
    (step : BranchStep env repo pc after next) :
    (after.size = repo.size ∧ after.headCommitId = repo.headCommitId ∧
      ∀ size, next ≠ .sizing size) ∨
    ∃ upload attempt swap, pc = .swapping upload attempt swap ∧
      repo.headCommitId = swap.currentHead ∧
      after = { repo with headCommitId := some swap.targetHead } ∧
      next = .sizing (.reading swap.delta) := by
  cases step with
  | swapped unmoved => exact Or.inr ⟨_, _, _, rfl, unmoved, rfl, rfl⟩
  | sized stepped | done stepped => exact absurd rfl (outside _)
  | _ => exact Or.inl ⟨rfl, rfl, by simp⟩

omit [ToString Oid] in
theorem accounted_of_swap {attempt : Nat} {swap : Swap Oid}
    (running : state.running[index]? = some (.swapping upload attempt swap))
    (sized : BranchSized state.shared (.swapping upload attempt swap))
    (unmoved : state.shared.headCommitId = swap.currentHead) (accounted : Accounted first state)
    (unused : UnusedSize state) :
    Accounted first ⟨{ state.shared with headCommitId := some swap.targetHead },
      state.running.set index (.sizing (.reading swap.delta))⟩ := by
  obtain ⟨-, row, found, honest, deltas⟩ := sized
  obtain ⟨bound, -⟩ := List.getElem?_eq_some_iff.mp running
  have listed : .sizing (.reading swap.delta) ∈
      state.running.set index (.sizing (.reading swap.delta)) := List.mem_set bound _
  have uncounted : state.shared.size = 0 → OnlyReading state.running →
      Uncounted first ⟨{ state.shared with headCommitId := some swap.targetHead },
        state.running.set index (.sizing (.reading swap.delta))⟩ := by
    intro zero reading
    refine ⟨zero, ?_, Or.inl ⟨_, listed⟩⟩
    intro size member
    rcases List.mem_or_eq_of_mem_set member with old | new
    · exact reading size old
    · cases new
      exact ⟨_, rfl⟩
  rcases accounted with counting | ⟨zero, reading, -⟩ | exact
  · exact Or.inl (Program.mem_set_of_ne running counting (by simp) _)
  · exact Or.inr (Or.inl (uncounted zero reading))
  · cases isHead : swap.currentHead with
    | none =>
      -- The first commit of the library: nothing has been added, so it will be counted.
      obtain ⟨zero, none⟩ := unused (unmoved.trans isHead)
      exact Or.inr (Or.inl (uncounted zero fun size member => absurd member (none size)))
    | some headId =>
      obtain ⟨head, foundHead, -, isDelta⟩ := deltas headId isHead
      refine Or.inr (Or.inr ?_)
      have sizeBefore : headSize state.shared =
          treeSize state.shared.fsObjects head.rootId := by
        simp [headSize, unmoved, isHead, foundHead]
      have sizeAfter : headSize { state.shared with headCommitId := some swap.targetHead } =
          treeSize state.shared.fsObjects row.rootId := by
        simp [headSize, found]
      rw [sizeAfter]
      simp only [outstanding, sum_map_set pendingSize running, pendingSize] at exact ⊢
      omega

theorem accounted_of_sizing {size : SizePc} (running : state.running[index]? = some (.sizing size))
    (head : HeadHonest state.shared) (holds : SizeHolds state.shared (.sizing size) env)
    (alone : CountsAlone state (.advance index env))
    (taken : stepBranch env state.shared (.sizing size) = some (after, next))
    (accounted : Accounted first state) :
    Accounted first ⟨after, state.running.set index next⟩ := by
  obtain ⟨bound, -⟩ := List.getElem?_eq_some_iff.mp running
  have pending := fun next => sum_map_set pendingSize running next
  cases size with
  | reading delta =>
    simp only [stepBranch, stepSize, Option.some.injEq, Prod.mk.injEq] at taken
    obtain ⟨rfl, rfl⟩ := taken
    by_cases zero : state.shared.size = 0
    · rw [if_pos zero]
      exact Or.inl (List.mem_set bound _)
    · rw [if_neg zero]
      rcases accounted with counting | ⟨isZero, -⟩ | exact
      · exact Or.inl (Program.mem_set_of_ne running counting (by simp) _)
      · exact absurd isZero zero
      · refine Or.inr (Or.inr ?_)
        simp only [outstanding, pending, pendingSize] at exact ⊢
        omega
  | counting =>
    obtain ⟨isZero, total, counted⟩ := alone running
    simp only [stepBranch, stepSize, counted, Option.some.injEq, Prod.mk.injEq] at taken
    obtain ⟨rfl, rfl⟩ := taken
    have isHeadSize : total = headSize state.shared := computeRepoSize_eq head counted
    refine Or.inr (Or.inr ?_)
    simp only [outstanding, pending, pendingSize] at isZero ⊢
    omega
  | adding amount =>
    simp only [stepBranch, stepSize, Option.some.injEq, Prod.mk.injEq] at taken
    obtain ⟨rfl, rfl⟩ := taken
    rcases accounted with counting | ⟨-, reading, -⟩ | exact
    · exact Or.inl (Program.mem_set_of_ne running counting (by simp) _)
    · obtain ⟨delta, isReading⟩ := reading _ (List.mem_of_getElem? running)
      simp at isReading
    · refine Or.inr (Or.inr ?_)
      have notCut : (adjustSize state.shared amount).size = state.shared.size + amount :=
        max_eq_right holds
      have sameSize : headSize (adjustSize state.shared amount) = headSize state.shared := rfl
      rw [notCut, sameSize]
      simp only [outstanding, pending, pendingSize] at exact ⊢
      omega

theorem serveSync_size (repo : Repo Oid) (request : SyncRequest Oid) :
    (serveSync repo request).size = repo.size := by
  cases request with
  | insertFsObjects mode entries =>
    simp only [serveSync, insertFsObjects]
    split
    · rfl
    · split <;> rfl
  | writeBlock blockId now => rfl
  | putCommit urlCommitId data =>
    simp only [serveSync, putCommit]
    split <;> rfl

theorem step_accounted {next : Threads (Repo Oid) (BranchPc Oid)}
    {action : ThreadAction (SyncRequest Oid) (BranchJob Oid) (SyncEnv Oid)}
    (invariant : SizeInv state.shared) (sized : ∀ pc ∈ state.running, BranchSized state.shared pc)
    (met : sizeGuard state action) (taken : sizeSystem.step state action = some next)
    (accounted : Accounted first state) (unused : UnusedSize state) :
    Accounted first next ∧ UnusedSize next := by
  obtain ⟨holds, alone⟩ := met
  cases action with
  | serve request =>
    cases taken
    have grows := (serveSync_grows invariant.genuine holds).1
    have sameHead := (serveSync_commits state.shared request).2
    have sameSize := serveSync_size state.shared request
    have sameHeadSize := headSize_grows invariant.head grows sameHead
    constructor
    · rcases accounted with counting | ⟨zero, reading, moved⟩ | exact
      · exact Or.inl counting
      · exact Or.inr (Or.inl ⟨sameSize.trans zero, reading, moved.imp_right fun atStart =>
          ⟨sameHead.trans atStart.1, sameSize.trans atStart.2⟩⟩)
      · refine Or.inr (Or.inr ?_)
        show (serveSync state.shared request).size + _ = headSize (serveSync state.shared request)
        rw [sameSize, sameHeadSize]
        exact exact
    · intro noHead
      obtain ⟨zero, none⟩ := unused (sameHead.symm.trans noHead)
      exact ⟨sameSize.trans zero, none⟩
  | begin job =>
    cases taken
    have before : ∀ size, BranchPc.sizing size ∈ state.running ++ [syncProgram.begin job] →
        .sizing size ∈ state.running := by
      intro size listed
      refine (List.mem_append.mp listed).resolve_right ?_
      simp [syncProgram]
    constructor
    · rcases accounted with counting | ⟨zero, reading, moved⟩ | exact
      · exact Or.inl (List.mem_append_left _ counting)
      · refine Or.inr (Or.inl ⟨zero, fun size listed => reading size (before size listed), ?_⟩)
        exact moved.imp_left fun ⟨delta, listed⟩ => ⟨delta, List.mem_append_left _ listed⟩
      · refine Or.inr (Or.inr ?_)
        simpa [outstanding, syncProgram, pendingSize] using exact
    · intro noHead
      obtain ⟨zero, none⟩ := unused noHead
      exact ⟨zero, fun size listed => none size (before size listed)⟩
  | advance index env =>
    obtain ⟨pc, ⟨after, pc'⟩, running, moved, rfl⟩ := Program.step_advance_iff.mp taken
    have listed := List.mem_of_getElem? running
    have moved : stepBranch env state.shared pc = some (after, pc') := moved
    have step := stepBranch_sound moved
    by_cases inside : ∃ size, pc = .sizing size
    · obtain ⟨size, rfl⟩ := inside
      refine ⟨accounted_of_sizing running invariant.head (holds _ running) alone moved
        accounted, ?_⟩
      intro noHead
      have sameHead : after.headCommitId = state.shared.headCommitId := by
        cases step with
        | failed => rfl
        | sized stepped | done stepped => exact (stepSize_fields stepped).2.2.2
      exact absurd listed ((unused (sameHead.symm.trans noHead)).2 size)
    · have outside : ∀ size, pc ≠ .sizing size := fun size same => inside ⟨size, same⟩
      rcases branchStep_calm_or_swapped outside step with
        ⟨sameSize, sameHead, outside'⟩ | ⟨upload, attempt, swap, rfl, unmoved, rfl, rfl⟩
      · exact accounted_of_calm running outside outside' sameSize sameHead
          (headSize_grows invariant.head (step.grows invariant.genuine).1 sameHead)
          accounted unused
      · refine ⟨accounted_of_swap running (sized _ listed) unmoved accounted unused, ?_⟩
        intro noHead
        simp at noHead

theorem run_accounted {last : Threads (Repo Oid) (BranchPc Oid)} (start : sizeSystem.init first)
    (steps : sizeSystem.Steps sizeGuard first last) : Accounted first last ∧ UnusedSize last := by
  induction steps with
  | refl =>
    obtain ⟨⟨-, counted⟩, idle⟩ := start
    have none : ∀ size, BranchPc.sizing size ∉ first.running := by simp [idle]
    constructor
    · rcases counted with exact | zero
      · refine Or.inr (Or.inr ?_)
        simpa [outstanding, idle] using exact
      · exact Or.inr (Or.inl ⟨zero, fun size listed => absurd listed (none size),
          Or.inr ⟨rfl, rfl⟩⟩)
    · intro noHead
      refine ⟨?_, none⟩
      rcases counted with exact | zero
      · simpa [headSize, noHead] using exact
      · exact zero
  | tail before met taken ih =>
    obtain ⟨invariant, sized⟩ := uploads_sized ((System.Reachable.init start).steps before)
    exact step_accounted invariant sized met taken ih.1 ih.2

/-- Once all calls have returned, the stored size is that of the HEAD tree, unless no call
has moved HEAD. -/
theorem size_is_that_of_head {first last : Threads (Repo Oid) (BranchPc Oid)}
    (start : sizeSystem.init first) (steps : sizeSystem.Steps sizeGuard first last)
    (idle : ∀ pc ∈ last.running, ∃ result, pc = .finished result) :
    (last.shared.headCommitId = first.shared.headCommitId ∧
      last.shared.size = first.shared.size) ∨
    (last.shared.size = headSize last.shared ∧
      ∀ limits total, computeRepoSize limits last.shared = .ok total →
        last.shared.size = total) := by
  obtain ⟨accounted, -⟩ := run_accounted start steps
  have returned : ∀ size, BranchPc.sizing size ∉ last.running := by
    intro size listed
    obtain ⟨result, same⟩ := idle _ listed
    simp at same
  rcases accounted with counting | ⟨-, -, moved⟩ | exact
  · exact absurd counting (returned _)
  · rcases moved with ⟨delta, listed⟩ | atStart
    · exact absurd listed (returned _)
    · exact Or.inl atStart
  · have none : outstanding last.running = 0 := by
      apply List.sum_eq_zero
      intro amount listed
      obtain ⟨pc, member, rfl⟩ := List.mem_map.mp listed
      obtain ⟨result, rfl⟩ := idle pc member
      rfl
    have isSize : last.shared.size = headSize last.shared := by omega
    refine Or.inr ⟨isSize, ?_⟩
    intro limits total counted
    have head := (uploads_sized ((System.Reachable.init start).steps steps)).1.head
    rw [isSize, computeRepoSize_eq head counted]

/-! ## Uploads at once -/

def sizedFile (size : Int) : FsFileData FreeId := ⟨[], size, seafMetadataTypeFile, 1⟩

def sizedTree (files : List (String × Int)) : FsDirData FreeId :=
  directory (files.map fun file =>
    fileEntry file.1 (Digests.fileId (sizedFile file.2)) file.2)

def sizedCommit (files : List (String × Int)) (parentId : Option FreeId) : CommitData FreeId :=
  let data : CommitData FreeId := ⟨.empty, "library", Digests.dirId (sizedTree files), "user",
    .atom 0, "sized", 0, parentId, none, none, none⟩
  { data with commitId := computeCommitId data }

abbrev SyncAction := ThreadAction (SyncRequest FreeId) (BranchJob FreeId) (SyncEnv FreeId)

/-- A commit with one file, one with a second file and one with a third. -/
def oneFile : CommitData FreeId := sizedCommit [("f", 1)] none

def twoFiles : CommitData FreeId := sizedCommit [("g", 2), ("f", 1)] (some oneFile.commitId)

def threeFiles : CommitData FreeId :=
  sizedCommit [("h", 4), ("g", 2), ("f", 1)] (some twoFiles.commitId)

def pushAll : List SyncAction :=
  [.serve (.insertFsObjects .strict (([1, 2, 4].map fun size => packed (.file (sizedFile size))) ++
      ([[("f", 1)], [("g", 2), ("f", 1)], [("h", 4), ("g", 2), ("f", 1)]].map fun files =>
        packed (.dir (sizedTree files))))),
    .serve (.putCommit oneFile.commitId oneFile), .serve (.putCommit twoFiles.commitId twoFiles),
    .serve (.putCommit threeFiles.commitId threeFiles),
    .begin ⟨oneFile.commitId, 1⟩, .begin ⟨twoFiles.commitId, 1⟩, .begin ⟨threeFiles.commitId, 1⟩]

/-- The first upload returns; the other two then add in the other order. -/
def uploadsInTurn : List SyncAction :=
  pushAll ++ ([0, 0, 0, 0, 0, 0, 1, 1, 1, 2, 2, 2, 2, 2, 1, 1].map fun index =>
    .advance index uploadEnv)

def sizeGuardCheck (state : Threads (Repo FreeId) (BranchPc FreeId)) : SyncAction → Bool
  | .serve (.insertFsObjects mode _) => mode = .strict
  | .advance index env =>
    match state.running[index]? with
    | some (.begun newHead _) => (state.shared.commits.find newHead).all fun row =>
      sizeCheck state.shared.fsObjects 2 row.rootId &&
        (baseRootOf state.shared.commits row).all (sizeCheck state.shared.fsObjects 2)
    | some (.merging _ _ _ _) => false
    | some (.sizing (.adding amount)) => 0 ≤ state.shared.size + amount
    | some (.sizing .counting) => state.shared.size + outstanding state.running = 0 &&
        (computeRepoSize env.limits state.shared).toBool
    | _ => true
  | _ => true

theorem sizeGuardCheck_sound (state : Threads (Repo FreeId) (BranchPc FreeId))
    (action : SyncAction) (checked : sizeGuardCheck state action = true) :
    sizeGuard state action := by
  cases action with
  | serve request =>
    cases request with
    | insertFsObjects mode entries =>
      exact ⟨Or.inl (by simpa [sizeGuardCheck] using checked), trivial⟩
    | writeBlock blockId now | putCommit urlCommitId data => exact ⟨trivial, trivial⟩
  | begin job => exact ⟨trivial, trivial⟩
  | advance index env =>
    constructor
    · intro pc running
      simp only [sizeGuardCheck, running] at checked
      cases pc with
      | begun newHead userId =>
        intro row found
        simp only [found, Option.all_some, Bool.and_eq_true] at checked
        refine ⟨honest_of_sizeCheck 2 checked.1, ?_⟩
        intro base isBase
        exact honest_of_sizeCheck 2 (by simpa [isBase] using checked.2)
      | merging upload attempt headId headRoot => simp at checked
      | sizing size =>
        cases size with
        | adding amount => simpa [SizeHolds] using checked
        | _ => trivial
      | _ => trivial
    · intro running
      simp only [sizeGuardCheck, running, Bool.and_eq_true, decide_eq_true_eq] at checked
      refine ⟨checked.1, ?_⟩
      cases counted : computeRepoSize env.limits state.shared with
      | error failure => simp [counted, Except.toBool] at checked
      | ok total => exact ⟨total, rfl⟩

def idleLibrary : Threads (Repo FreeId) (BranchPc FreeId) := ⟨emptyLibrary, []⟩

theorem idleLibrary_init : sizeSystem.init idleLibrary := by
  refine ⟨⟨⟨?_, ?_, ?_⟩, Or.inr rfl⟩, rfl⟩
  · intro fsId object _ found
    cases found
  · intro commitId row found
    cases found
  · intro headId isHead
    cases isHead

def returnedCall : BranchPc FreeId → Bool
  | .finished _ => true
  | _ => false

/-- HEAD, whether every call has returned, the stored size and the size counted. -/
def sizeFacts (state : Threads (Repo FreeId) (BranchPc FreeId)) :
    Option FreeId × Bool × Int × Option Int :=
  (state.shared.headCommitId, state.running.all returnedCall, state.shared.size,
    (computeRepoSize defaultLimits state.shared).toOption)

theorem idle_of_returned {running : List (BranchPc FreeId)}
    (returned : running.all returnedCall = true) :
    ∀ pc ∈ running, ∃ result, pc = .finished result := by
  intro pc listed
  have isReturned := List.all_eq_true.mp returned pc listed
  cases pc with
  | finished result => exact ⟨result, rfl⟩
  | _ => simp [returnedCall] at isReturned

theorem uploadsInTurn_sized : ∃ last,
    sizeSystem.runChecked sizeGuardCheck uploadsInTurn idleLibrary = some last ∧
    ((last.shared.headCommitId = idleLibrary.shared.headCommitId ∧
      last.shared.size = idleLibrary.shared.size) ∨
    (last.shared.size = headSize last.shared ∧
      ∀ limits total, computeRepoSize limits last.shared = .ok total →
        last.shared.size = total)) := by
  have ran : (sizeSystem.runChecked sizeGuardCheck uploadsInTurn idleLibrary).map sizeFacts =
      some (some threeFiles.commitId, true, 7, some 7) := by decide +kernel
  obtain ⟨last, run, facts⟩ := Option.map_eq_some_iff.mp ran
  simp only [sizeFacts, Prod.mk.injEq] at facts
  exact ⟨last, run, size_is_that_of_head idleLibrary_init
    (System.steps_of_runChecked sizeGuardCheck_sound uploadsInTurn _ last run)
    (idle_of_returned facts.2.1)⟩

/-- The first upload counts the tree of the second one, which then adds its delta too. -/
def uploadsOverlapping : List SyncAction :=
  pushAll.dropLast ++ ([0, 0, 0, 1, 1, 1, 0, 0, 0, 1, 1].map fun index =>
    .advance index uploadEnv)

theorem second_file_counted_twice : ∃ last : Threads (Repo FreeId) (BranchPc FreeId),
    sizeSystem.Steps (fun _ _ => True) idleLibrary last ∧
    (∀ pc ∈ last.running, ∃ result, pc = .finished result) ∧
    last.shared.headCommitId ≠ idleLibrary.shared.headCommitId ∧
    ∃ total, computeRepoSize defaultLimits last.shared = .ok total ∧
      last.shared.size ≠ total := by
  have ran : (sizeSystem.runChecked (fun _ _ => true) uploadsOverlapping idleLibrary).map
      sizeFacts = some (some twoFiles.commitId, true, 5, some 3) := by decide +kernel
  obtain ⟨last, run, facts⟩ := Option.map_eq_some_iff.mp ran
  simp only [sizeFacts, Prod.mk.injEq] at facts
  obtain ⟨isHead, returned, isSize, counted⟩ := facts
  refine ⟨last, System.steps_of_runChecked (fun _ _ _ => trivial) uploadsOverlapping _ last run,
    idle_of_returned returned, ?_, ?_⟩
  · rw [isHead]
    exact Option.some_ne_none _
  · cases total : computeRepoSize defaultLimits last.shared with
    | error failure => simp [total, Except.toOption] at counted
    | ok size =>
      rw [total] at counted
      cases counted
      exact ⟨3, rfl, by rw [isSize]; decide⟩

end Nanofile
