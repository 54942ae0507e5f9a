import Nanofile.Fs.MergeKeeps
import Nanofile.Fs.ReadableTrees
import Nanofile.Service.FileLocks
import Nanofile.Service.UploadComplete

/-!
# Uploads of locked files

Clients lock, unlock, push and move HEAD in any order.  The lock check of an upload is
right when a lock is recorded the way the check spells a file of the upload just if a locked
file is changed.  While it is, no call moves HEAD away from a file another user has locked.
-/

set_option autoImplicit false

namespace Nanofile

open Nanofile.Lib

variable {Oid : Type} [DecidableEq Oid] [Digests Oid]

/-! ## Clients that lock -/

inductive ClientRequest (Oid : Type) [Digests Oid] where
  | lock (request : LockRequest)
  | sync (request : SyncRequest Oid)

/-- A call of `update_branch` and the user it was made for. -/
structure BranchCall (Oid : Type) where
  userId : Int
  pc : BranchPc Oid

variable [ToString Oid]

/-- The rows of `locked_files` are read at the moment of the check. -/
def stepCall (env : SyncEnv Oid) (library : LockedLibrary Oid) (call : BranchCall Oid) :
    Option (LockedLibrary Oid × BranchCall Oid) :=
  (stepBranch { env with lockedFiles := library.lockedFiles } library.repo call.pc).map
    fun after => ({ library with repo := after.1 }, { call with pc := after.2 })

def serveLibrary (library : LockedLibrary Oid) : ClientRequest Oid → LockedLibrary Oid
  | .lock request => serveLock library request
  | .sync request => { library with repo := serveSync library.repo request }

def lockProgram : Program (LockedLibrary Oid) (BranchCall Oid) (ClientRequest Oid)
    (BranchJob Oid) (SyncEnv Oid) where
  serve request library := serveLibrary library request
  begin job := ⟨job.userId, .begun job.newHead job.userId⟩
  advance env library call := stepCall env library call

/-- A library whose commits have the ids of their content, and no locks yet. -/
def Unlocked (library : LockedLibrary Oid) : Prop :=
  AllHashed library.repo.commits ∧ library.lockedFiles = [] ∧ library.held = []

def lockSystem : System (Threads (LockedLibrary Oid) (BranchCall Oid))
    (ThreadAction (ClientRequest Oid) (BranchJob Oid) (SyncEnv Oid)) :=
  lockProgram.system Unlocked

/-! ## What is asked of the lock check -/

def HeadHas (repo : Repo Oid) (path : List String) (id : Oid) : Prop :=
  ∃ headId row, repo.headCommitId = some headId ∧ repo.commits.find headId = some row ∧
    TreeHas repo.fsObjects row.rootId path id

def KeepsFile (store : FsStore Oid) (baseRoot newRoot : Oid) (path : List String) : Prop :=
  ∀ id, TreeHas store baseRoot path id → TreeHas store newRoot path id

def SameFile (store : FsStore Oid) (baseRoot newRoot : Oid) (path : List String) : Prop :=
  ∀ id, TreeHas store baseRoot path id ↔ TreeHas store newRoot path id

/-- A property of every path that another user holds a lock on. -/
def OfLocked (held : List (String × Int)) (userId : Int) (P : List String → Prop) : Prop :=
  ∀ lock ∈ held, lock.2 ≠ userId → P (pathComponents lock.1)

/-- The root of the tree an upload is based on; the sentinel is the empty tree. -/
def baseOf (commits : CommitTable Oid) (row : CommitRow Oid) : Oid :=
  (baseRootOf commits row).getD emptySha1

/-- Locks are respected by one step of a call: HEAD keeps every file another user has
locked, and an upload that leaves those files as its base has them is not rejected. -/
structure LocksRespected (before after : LockedLibrary Oid) (call next : BranchCall Oid) :
    Prop where
  kept : OfLocked before.held call.userId fun path =>
    ∀ id, HeadHas before.repo path id → HeadHas after.repo path id
  rejected : ∀ newHead userId path, call.pc = .begun newHead userId →
    next.pc = .finished (.error (.locked path)) →
    ∀ row, before.repo.commits.find newHead = some row →
      ¬ OfLocked before.held call.userId
        (SameFile before.repo.fsObjects (baseOf before.repo.commits row) row.rootId)

/-- An upload that changes a locked file has a file that is not empty where a lock is recorded as
the check spells it, and one that changes none has not. -/
structure CheckAgrees (library : LockedLibrary Oid) (userId : Int) (row : CommitRow Oid) :
    Prop where
  base : ReadableTree library.repo.fsObjects (baseOf library.repo.commits row)
  new : ReadableTree library.repo.fsObjects row.rootId
  changed : ¬ OfLocked library.held userId
      (KeepsFile library.repo.fsObjects (baseOf library.repo.commits row) row.rootId) →
    RecordedAsSpelled library.repo.fsObjects library.lockedFiles userId row.rootId
  unchanged : OfLocked library.held userId
      (SameFile library.repo.fsObjects (baseOf library.repo.commits row) row.rootId) →
    ¬ RecordedAsSpelled library.repo.fsObjects library.lockedFiles userId row.rootId

def BranchPc.upload : BranchPc Oid → Option (Upload Oid)
  | .uploaded upload _ => some upload
  | .merging upload _ _ _ => some upload
  | .recording upload _ _ _ => some upload
  | .inserting upload _ _ _ => some upload
  | .swapping upload _ _ => some upload
  | _ => none

def Upload.baseRoot (upload : Upload Oid) : Oid := upload.baseRootId.getD emptySha1

def Upload.KeepsFile (store : FsStore Oid) (upload : Upload Oid) (path : List String) : Prop :=
  Nanofile.KeepsFile store upload.baseRoot upload.newCommit.rootId path

/-- The condition on a step of a call: the check agrees, and a merge reads trees in which
names are unique and entries are what their modes say. -/
def CallHolds (library : LockedLibrary Oid) (call : BranchCall Oid) : Prop :=
  match call.pc with
  | .begun newHead _ =>
    ∀ row, library.repo.commits.find newHead = some row → CheckAgrees library call.userId row
  | .merging upload _ _ headRoot =>
    Genuine library.repo.fsObjects ∧
    WellFormed library.repo.fsObjects (entriesOf library.repo.fsObjects upload.baseRoot) ∧
    ReadableTree library.repo.fsObjects headRoot ∧
    WellFormed library.repo.fsObjects (entriesOf library.repo.fsObjects headRoot) ∧
    WellFormed library.repo.fsObjects
      (entriesOf library.repo.fsObjects upload.newCommit.rootId)
  | _ => True

/-- A lock that is taken while an upload is under way is on a file the upload keeps. -/
def lockGuard (state : Threads (LockedLibrary Oid) (BranchCall Oid)) :
    ThreadAction (ClientRequest Oid) (BranchJob Oid) (SyncEnv Oid) → Prop
  | .serve (.lock request) => ∀ lock, request.takes = some lock → ∀ call ∈ state.running,
      lock.2 ≠ call.userId → ∀ upload, call.pc.upload = some upload →
      upload.KeepsFile state.shared.repo.fsObjects (pathComponents lock.1)
  | .serve (.sync _) => True
  | .begin _ => True
  | .advance index _ => ∀ call, state.running[index]? = some call → CallHolds state.shared call

/-! ## Growing -/

omit [Digests Oid] [ToString Oid] in
theorem extends_foldl_insert : ∀ (rows : List (Oid × FsObject Oid)) (store : FsStore Oid),
    Table.Extends store (rows.foldl (fun store row => store.insertOrIgnore row.1 row.2) store) := by
  intro rows
  induction rows with
  | nil => exact Table.Extends.refl
  | cons row rest ih =>
    intro store
    exact (Table.extends_insertOrIgnore store row.1 row.2).trans (ih _)

theorem serveSync_store (repo : Repo Oid) (request : SyncRequest Oid) :
    Table.Extends repo.fsObjects (serveSync repo request).fsObjects := by
  cases request with
  | insertFsObjects mode entries =>
    simp only [serveSync, insertFsObjects]
    split
    · exact Table.Extends.refl _
    · split
      · exact Table.Extends.refl _
      · exact extends_foldl_insert _ _
  | writeBlock blockId now => exact Table.Extends.refl _
  | putCommit urlCommitId data =>
    obtain ⟨commits, after, -⟩ := putCommit_extends urlCommitId data repo
    rw [serveSync, after]
    exact Table.Extends.refl _

theorem mergeTrees_extends (env : MergeEnv Oid) (baseRoot headRoot : Oid) (store : FsStore Oid) :
    Table.Extends store (mergeTrees env baseRoot headRoot store).2 := by
  refine mergeTrees_keeps (P := Table.Extends store) ?_ env baseRoot headRoot
    (Table.Extends.refl store)
  intro before data grown
  refine grown.trans ?_
  unfold storeFsDirObject
  split
  · exact Table.Extends.refl _
  · exact Table.extends_insertOrIgnore _ _ _

variable {env : SyncEnv Oid} {next : BranchPc Oid} {repo after : Repo Oid} {pc : BranchPc Oid}

theorem BranchStep.extends (step : BranchStep env repo pc after next) :
    Table.Extends repo.fsObjects after.fsObjects ∧
      CommitTable.Extends repo.commits after.commits := by
  have sized : ∀ {size : SizePc} {left : Repo Oid} {next : Option SizePc},
      stepSize env.limits repo size = .ok (left, next) →
      Table.Extends repo.fsObjects left.fsObjects ∧
        CommitTable.Extends repo.commits left.commits := by
    intro size left next stepped
    obtain ⟨sameStore, -, sameCommits, -⟩ := stepSize_fields stepped
    rw [sameStore, sameCommits]
    exact ⟨Table.Extends.refl _, CommitTable.Extends.refl _⟩
  cases step with
  | mergeFailed failure => exact ⟨mergeTrees_extends _ _ _ _, CommitTable.Extends.refl _⟩
  | @merged upload _ _ headRoot outcome store _ ran _ =>
    have grown := mergeTrees_extends (env.merge upload.newCommit)
      (upload.baseRootId.getD emptySha1) headRoot repo.fsObjects
    rw [ran] at grown
    exact ⟨grown, CommitTable.Extends.refl _⟩
  | inserted done => exact ⟨Table.Extends.refl _, CommitTable.extends_insertCommit done⟩
  | sized stepped | done stepped => exact sized stepped
  | _ => exact ⟨Table.Extends.refl _, CommitTable.Extends.refl _⟩

/-! ## What a running upload relies on -/

variable {path : List String}

omit [ToString Oid] in
theorem KeepsFile.grows {store after : FsStore Oid} (grown : Table.Extends store after)
    {baseRoot newRoot : Oid} (readable : ReadableTree store baseRoot)
    (keeps : KeepsFile store baseRoot newRoot path) : KeepsFile after baseRoot newRoot path :=
  fun id has => (keeps id ((readable.has_iff grown).mp has)).grows grown

/-- A checked upload: it changes no file that another user has locked. -/
structure UploadKeeps (library : LockedLibrary Oid) (userId : Int) (upload : Upload Oid) :
    Prop where
  found : library.repo.commits.find upload.newHead = some upload.newCommit
  base : ReadableTree library.repo.fsObjects upload.baseRoot
  new : ReadableTree library.repo.fsObjects upload.newCommit.rootId
  parent : ∀ parentId, upload.newCommit.parentId = some parentId → parentId ≠ emptySha1 →
    ∃ row, library.repo.commits.find parentId = some row ∧ upload.baseRoot = row.rootId
  kept : OfLocked library.held userId (upload.KeepsFile library.repo.fsObjects)

/-- The tree to swap in has what HEAD's tree has, but for the files the upload dropped. -/
def TargetKeeps (repo : Repo Oid) (upload : Upload Oid) (head : Option Oid) (rootId : Oid) :
    Prop :=
  ∀ headId, head = some headId → ∃ row, repo.commits.find headId = some row ∧
    ReadableTree repo.fsObjects row.rootId ∧
    ∀ path id, TreeHas repo.fsObjects row.rootId path id →
      (TreeHas repo.fsObjects upload.baseRoot path id →
        TreeHas repo.fsObjects upload.newCommit.rootId path id) →
      TreeHas repo.fsObjects rootId path id

/-- A merge commit about to be recorded as the target of a swap. -/
def RowKeeps (repo : Repo Oid) (upload : Upload Oid) (row : CommitRow Oid) (swap : Swap Oid) :
    Prop :=
  swap.targetHead = row.commitId ∧ Hashed row ∧
    TargetKeeps repo upload swap.currentHead row.rootId

def CallKeeps (library : LockedLibrary Oid) (call : BranchCall Oid) : Prop :=
  match call.pc with
  | .begun _ userId => userId = call.userId
  | .uploaded upload _ => UploadKeeps library call.userId upload
  | .merging upload _ headId headRoot => UploadKeeps library call.userId upload ∧
      ∃ row, library.repo.commits.find headId = some row ∧ row.rootId = headRoot
  | .recording upload _ row swap =>
    UploadKeeps library call.userId upload ∧ RowKeeps library.repo upload row swap
  | .inserting upload _ row swap =>
    UploadKeeps library call.userId upload ∧ RowKeeps library.repo upload row swap
  | .swapping upload _ swap => UploadKeeps library call.userId upload ∧
      ∃ row, library.repo.commits.find swap.targetHead = some row ∧
        TargetKeeps library.repo upload swap.currentHead row.rootId
  | _ => True

variable {upload : Upload Oid} {call : BranchCall Oid}

section Grows

variable {library : LockedLibrary Oid} {after : Repo Oid}
  (store : Table.Extends library.repo.fsObjects after.fsObjects)
  (commits : CommitTable.Extends library.repo.commits after.commits)
include store commits

section

omit [ToString Oid]

theorem UploadKeeps.grows {userId : Int} (keeps : UploadKeeps library userId upload) :
    UploadKeeps { library with repo := after } userId upload where
  found := commits _ _ keeps.found
  base := keeps.base.grows store
  new := keeps.new.grows store
  parent := by
    intro parentId named real
    obtain ⟨row, found, same⟩ := keeps.parent parentId named real
    exact ⟨row, commits _ _ found, same⟩
  kept := fun lock isHeld other => (keeps.kept lock isHeld other).grows store keeps.base

theorem TargetKeeps.grows {userId : Int} (uploaded : UploadKeeps library userId upload)
    {head : Option Oid} {rootId : Oid} (keeps : TargetKeeps library.repo upload head rootId) :
    TargetKeeps after upload head rootId := by
  intro headId isHead
  obtain ⟨row, found, readable, has⟩ := keeps headId isHead
  refine ⟨row, commits _ _ found, readable.grows store, fun path id inHead stays => ?_⟩
  refine (has path id ((readable.has_iff store).mp inHead) fun inBase => ?_).grows store
  exact (uploaded.new.has_iff store).mp (stays (inBase.grows store))

theorem CallKeeps.grows (keeps : CallKeeps library call) :
    CallKeeps { library with repo := after } call := by
  obtain ⟨userId, pc⟩ := call
  cases pc with
  | begun newHead userId => exact keeps
  | uploaded upload attempt => exact UploadKeeps.grows store commits keeps
  | merging upload attempt headId headRoot =>
    obtain ⟨uploaded, row, found, same⟩ := keeps
    exact ⟨uploaded.grows store commits, row, commits _ _ found, same⟩
  | recording upload attempt row swap | inserting upload attempt row swap =>
    obtain ⟨uploaded, isTarget, hashed, target⟩ := keeps
    exact ⟨uploaded.grows store commits, isTarget, hashed,
      target.grows store commits uploaded⟩
  | swapping upload attempt swap =>
    obtain ⟨uploaded, row, found, target⟩ := keeps
    exact ⟨uploaded.grows store commits, row, commits _ _ found,
      target.grows store commits uploaded⟩
  | sizing size | finished result => trivial

end

end Grows

/-! ## One step -/

variable {library : LockedLibrary Oid} {userId : Int}

omit [ToString Oid] in
theorem uploadKeeps_of_checked {newHead : Oid} (one : OnePerPath library.lockedFiles)
    (agrees : ∀ row, library.repo.commits.find newHead = some row →
      CheckAgrees library userId row)
    (valid : validateUpload { env with lockedFiles := library.lockedFiles } library.repo newHead
      userId = .ok upload) : UploadKeeps library userId upload := by
  obtain ⟨sameHead, found, sameBase, -⟩ := validateUpload_ok valid
  have agreed := agrees _ found
  have isBase : upload.baseRoot = baseOf library.repo.commits upload.newCommit := by
    rw [Upload.baseRoot, sameBase]
    rfl
  refine ⟨sameHead ▸ found, isBase ▸ agreed.base, agreed.new, ?_, ?_⟩
  · intro parentId named real
    obtain ⟨parent, isParent, isRoot⟩ := validateUpload_base valid named real
    exact ⟨parent, isParent, by rw [Upload.baseRoot, isRoot]; rfl⟩
  · have keeps : OfLocked library.held userId (KeepsFile library.repo.fsObjects
        (baseOf library.repo.commits upload.newCommit) upload.newCommit.rootId) := by
      by_contra changes
      obtain ⟨path, meets⟩ := (meets_iff one).mpr (agreed.changed changes)
      exact validateUpload_unlocked valid path meets
    intro lock isHeld other
    rw [Upload.KeepsFile, isBase]
    exact keeps lock isHeld other

omit [ToString Oid] in
theorem targetKeeps_fastForward (uploaded : UploadKeeps library userId upload) {head : Option Oid}
    (isHead : currentHead library.repo = head)
    (parent : ∀ headId, head = some headId → upload.newCommit.parentId = some headId) :
    TargetKeeps library.repo upload head upload.newCommit.rootId := by
  intro headId same
  have real : headId ≠ emptySha1 := by
    have filtered := isHead.trans same
    simpa using (Option.filter_eq_some_iff.mp filtered).2
  obtain ⟨row, found, isBase⟩ := uploaded.parent headId (parent headId same) real
  refine ⟨row, found, isBase ▸ uploaded.base, fun path id inHead stays => ?_⟩
  rw [isBase] at stays
  exact stays inHead

theorem targetKeeps_merged {attempt : Nat} {headId headRoot : Oid} {store : FsStore Oid}
    {outcome : MergeOutcome Oid} (uploaded : UploadKeeps library userId upload)
    {row : CommitRow Oid} (found : library.repo.commits.find headId = some row)
    (isRoot : row.rootId = headRoot)
    (holds : CallHolds library ⟨userId, .merging upload attempt headId headRoot⟩)
    (ran : mergeTrees (env.merge upload.newCommit) upload.baseRoot headRoot
      library.repo.fsObjects = (.ok outcome, store)) :
    TargetKeeps { library.repo with fsObjects := store } upload (some headId)
      outcome.mergedRoot := by
  obtain ⟨genuine, formedBase, readable, formedHead, formedNew⟩ := holds
  have grown := mergeTrees_extends (env.merge upload.newCommit) upload.baseRoot headRoot
    library.repo.fsObjects
  rw [ran] at grown
  intro other isHead
  cases isHead
  subst isRoot
  refine ⟨row, found, readable.grows grown, fun path id inHead stays => ?_⟩
  refine mergeTrees_keeps_head genuine formedBase formedHead formedNew ran
    ((readable.has_iff grown).mp inHead) fun inBase => ?_
  exact (uploaded.new.has_iff grown).mp (stays (TreeHas.grows grown inBase))

theorem branchStep_keeps (hashed : AllHashed library.repo.commits)
    (one : OnePerPath library.lockedFiles)
    (keeps : CallKeeps library ⟨userId, pc⟩) (holds : CallHolds library ⟨userId, pc⟩)
    (step : BranchStep { env with lockedFiles := library.lockedFiles } library.repo pc after next) :
    AllHashed after.commits ∧ CallKeeps { library with repo := after } ⟨userId, next⟩ := by
  obtain ⟨store, commits⟩ := step.extends
  cases step with
  | failed pc failure | already isHead | mergeFailed failure | swapped unmoved =>
    exact ⟨hashed, trivial⟩
  | checked valid =>
    obtain rfl : _ = userId := keeps
    exact ⟨hashed, uploadKeeps_of_checked one holds valid⟩
  | fastForward isHead isNew parent =>
    exact ⟨hashed, keeps, _, keeps.found, targetKeeps_fastForward keeps isHead parent⟩
  | diverged isHead foreign found => exact ⟨hashed, keeps, _, found, rfl⟩
  | merged ran checked =>
    obtain ⟨uploaded, row, found, isRoot⟩ := keeps
    exact ⟨hashed, uploaded.grows store commits, rfl, hashed_computeCommitId _ false rfl,
      targetKeeps_merged uploaded found isRoot holds ran⟩
  | reused found =>
    obtain ⟨uploaded, isTarget, isHashed, target⟩ := keeps
    have sameRoot := (isHashed.rootId_eq (hashed _ _ found)
      (CommitTable.find_eq_some_iff.mp found).2.symm).1
    exact ⟨hashed, uploaded, _, isTarget ▸ found, sameRoot ▸ target⟩
  | fresh absent => exact ⟨hashed, keeps⟩
  | @inserted _ _ row swap commits' done =>
    obtain ⟨uploaded, isTarget, isHashed, target⟩ := keeps
    refine ⟨allHashed_insert hashed isHashed done, uploaded.grows store commits,
      { row with id := library.repo.commits.nextId }, ?_,
      target.grows store commits uploaded⟩
    show commits'.find swap.targetHead = _
    rw [isTarget]
    exact CommitTable.find_inserted done
  | lost moved => exact ⟨hashed, keeps.1⟩
  | sized stepped | done stepped =>
    obtain ⟨-, -, sameCommits, -⟩ := stepSize_fields stepped
    exact ⟨sameCommits ▸ hashed, trivial⟩

omit [ToString Oid] in
theorem HeadHas.grows {before : Repo Oid} {id : Oid}
    (store : Table.Extends before.fsObjects after.fsObjects)
    (commits : CommitTable.Extends before.commits after.commits)
    (sameHead : after.headCommitId = before.headCommitId) (has : HeadHas before path id) :
    HeadHas after path id := by
  obtain ⟨headId, row, isHead, found, inTree⟩ := has
  exact ⟨headId, row, sameHead.trans isHead, commits _ _ found, inTree.grows store⟩

theorem BranchStep.head (step : BranchStep env repo pc after next) :
    after.headCommitId = repo.headCommitId ∨ ∃ upload attempt swap,
      pc = .swapping upload attempt swap ∧ repo.headCommitId = swap.currentHead ∧
      after = { repo with headCommitId := some swap.targetHead } := by
  cases step with
  | swapped unmoved => exact Or.inr ⟨_, _, _, rfl, unmoved, rfl⟩
  | sized stepped | done stepped => exact Or.inl (stepSize_fields stepped).2.2.2
  | _ => exact Or.inl rfl

theorem branchStep_headHas (keeps : CallKeeps library ⟨userId, pc⟩)
    (step : BranchStep env library.repo pc after next) :
    OfLocked library.held userId fun path =>
      ∀ id, HeadHas library.repo path id → HeadHas after path id := by
  intro lock isHeld other id has
  rcases step.head with sameHead | ⟨upload, attempt, swap, rfl, unmoved, rfl⟩
  · exact has.grows step.extends.1 step.extends.2 sameHead
  · obtain ⟨uploaded, target, isTarget, keepsHead⟩ := keeps
    obtain ⟨headId, row, isHead, found, inHead⟩ := has
    obtain ⟨row', found', -, inTarget⟩ := keepsHead headId (unmoved.symm.trans isHead)
    rw [found] at found'
    cases found'
    exact ⟨swap.targetHead, target, rfl, isTarget,
      inTarget _ id inHead (uploaded.kept lock isHeld other id)⟩

theorem stepCall_eq_some {after : LockedLibrary Oid × BranchCall Oid}
    (run : stepCall env library call = some after) :
    ∃ repo pc, stepBranch { env with lockedFiles := library.lockedFiles } library.repo call.pc =
      some (repo, pc) ∧ after = ({ library with repo }, { call with pc }) := by
  obtain ⟨⟨repo, pc⟩, ran, rfl⟩ := Option.map_eq_some_iff.mp run
  exact ⟨repo, pc, ran, rfl⟩

theorem stepBranch_locked {newHead : Oid} {path : String}
    (run : stepBranch env repo (.begun newHead userId) =
      some (after, .finished (.error (.locked path)))) :
    ∃ row, repo.commits.find newHead = some row ∧
      Meets repo.fsObjects env.lockedFiles userId row.rootId path := by
  simp only [stepBranch] at run
  split at run
  · rename_i failure invalid
    cases run
    exact validateUpload_locked invalid
  · cases run

/-! ## Every run -/

omit [ToString Oid] in
theorem CallKeeps.relocked {after : LockedLibrary Oid} (sameRepo : after.repo = library.repo)
    (held : ∀ lock ∈ after.held, lock ∈ library.held ∨ (lock.2 ≠ call.userId →
      ∀ upload, call.pc.upload = some upload →
        upload.KeepsFile library.repo.fsObjects (pathComponents lock.1)))
    (keeps : CallKeeps library call) : CallKeeps after call := by
  obtain ⟨repo, lockedFiles, held'⟩ := after
  obtain rfl : repo = library.repo := sameRepo
  obtain ⟨userId, pc⟩ := call
  have uploads : ∀ upload, pc.upload = some upload → UploadKeeps library userId upload →
      UploadKeeps ⟨library.repo, lockedFiles, held'⟩ userId upload := by
    intro upload isUpload uploaded
    refine ⟨uploaded.found, uploaded.base, uploaded.new, uploaded.parent, ?_⟩
    intro lock isHeld other
    rcases held lock isHeld with old | new
    · exact uploaded.kept lock old other
    · exact new other upload isUpload
  cases pc with
  | begun newHead userId => exact keeps
  | uploaded upload attempt => exact uploads upload rfl keeps
  | merging upload attempt headId headRoot | recording upload attempt row swap
  | inserting upload attempt row swap | swapping upload attempt swap =>
    exact ⟨uploads upload rfl keeps.1, keeps.2⟩
  | sizing size | finished result => trivial

theorem callKeeps_reached {state : Threads (LockedLibrary Oid) (BranchCall Oid)}
    (reached : lockSystem.Reachable lockGuard state) :
    (AllHashed state.shared.repo.commits ∧ OnePerPath state.shared.lockedFiles) ∧
      ∀ call ∈ state.running, CallKeeps state.shared call := by
  refine Program.threads_invariant_of_guard (I := fun library =>
    AllHashed library.repo.commits ∧ OnePerPath library.lockedFiles) ?_ ?_ ?_ ?_ reached
  · intro library job hashed
    rfl
  · rintro state request ⟨hashed, one⟩ keeps met
    cases request with
    | lock request =>
      have sameRepo := serveLock_repo state.shared request
      refine ⟨⟨?_, serveLock_onePerPath request one⟩, fun call running => ?_⟩
      · show AllHashed (serveLock state.shared request).repo.commits
        rw [sameRepo]
        exact hashed
      · refine (keeps call running).relocked sameRepo fun lock isHeld => ?_
        rcases mem_held_serveLock isHeld with old | taken
        · exact Or.inl old
        · exact Or.inr (met lock taken call running)
    | sync request =>
      refine ⟨⟨serveSync_hashed request hashed, one⟩, fun call running => ?_⟩
      exact (keeps call running).grows (serveSync_store _ request) (serveSync_commits _ request).1
  · rintro state index call env after ⟨hashed, one⟩ keeps running met taken
    obtain ⟨repo, pc, ran, rfl⟩ := stepCall_eq_some taken
    have step := stepBranch_sound ran
    obtain ⟨hashed', own⟩ := branchStep_keeps hashed one
      (keeps call (List.mem_of_getElem? running)) (met call running) step
    exact ⟨⟨hashed', one⟩, own, fun other isRunning =>
      (keeps other isRunning).grows step.extends.1 step.extends.2⟩
  · rintro library ⟨hashed, noRows, -⟩
    refine ⟨hashed, ?_⟩
    rw [noRows]
    exact List.nodup_nil

/-- In a run whose checks agree with what the uploads change, locks are respected. -/
theorem locks_respected {state next : Threads (LockedLibrary Oid) (BranchCall Oid)}
    (reached : lockSystem.Reachable lockGuard state) {index : Nat} {env : SyncEnv Oid}
    (met : lockGuard state (.advance index env))
    (taken : lockSystem.step state (.advance index env) = some next) {call after : BranchCall Oid}
    (found : state.running[index]? = some call) (found' : next.running[index]? = some after) :
    LocksRespected state.shared next.shared call after := by
  obtain ⟨call', moved, isCall, ran, rfl⟩ := Program.step_advance_iff.mp taken
  rw [found] at isCall
  cases isCall
  obtain ⟨repo, pc, stepped, rfl⟩ := stepCall_eq_some ran
  have here : index < state.running.length := (List.getElem?_eq_some_iff.mp found).1
  rw [List.getElem?_set_self here] at found'
  cases found'
  have keeps := (callKeeps_reached reached).2 call (List.mem_of_getElem? found)
  refine ⟨branchStep_headHas keeps (stepBranch_sound stepped), ?_⟩
  intro newHead userId path isBegun rejected row isRow same
  obtain ⟨own, pc'⟩ := call
  obtain rfl : pc' = .begun newHead userId := isBegun
  obtain rfl : userId = own := keeps
  obtain rfl : pc = .finished (.error (.locked path)) := rejected
  obtain ⟨row', isRow', meets⟩ := stepBranch_locked stepped
  rw [isRow] at isRow'
  cases isRow'
  exact (met _ found row isRow).unchanged same (recordedAsSpelled_of_meets meets)

/-! ## An edit of a locked file, refused and accepted -/

omit [ToString Oid] in
theorem headHas_iff {id : Oid} :
    (repo.headCommitId.bind repo.commits.find).any (fun row =>
      decide (HasFile repo.fsObjects (entriesOf repo.fsObjects row.rootId) path id)) = true ↔
      HeadHas repo path id := by
  simp only [HeadHas, TreeHas, Option.any_eq_true, Option.bind_eq_some_iff, decide_eq_true_eq]
  constructor
  · rintro ⟨row, ⟨headId, isHead, found⟩, has⟩
    exact ⟨headId, row, isHead, found, has⟩
  · rintro ⟨headId, row, isHead, found, has⟩
    exact ⟨row, ⟨headId, isHead, found⟩, has⟩

instance (repo : Repo Oid) (path : List String) (id : Oid) : Decidable (HeadHas repo path id) :=
  decidable_of_iff _ headHas_iff

/-- `ReadableTree` by evaluation, for trees of one level below the root. -/
def readableCheck (store : FsStore Oid) (rootId : Oid) : Bool :=
  (decide (rootId = emptySha1) || (dirBatch store rootId).isSome) &&
    wellFormedCheck store 2 (entriesOf store rootId)

omit [ToString Oid] in
theorem readableTree_of_check {store : FsStore Oid} {rootId : Oid}
    (checked : readableCheck store rootId = true) : ReadableTree store rootId := by
  simp only [readableCheck, Bool.and_eq_true, Bool.or_eq_true, decide_eq_true_eq] at checked
  obtain ⟨stored, formed⟩ := checked
  refine ⟨?_, (wellFormed_of_check 2 formed).readable⟩
  rcases stored with sentinel | read
  · exact ⟨[], Or.inl ⟨sentinel, rfl⟩⟩
  · obtain ⟨data, read⟩ := Option.isSome_iff_exists.mp read
    exact ⟨data.dirents, Or.inr ⟨data, read, rfl⟩⟩

def rejectedPath : BranchPc FreeId → Option String
  | .finished (.error (.locked path)) => some path
  | _ => none

def editedFile : FsFileData FreeId := ⟨[.atom 8], 1, seafMetadataTypeFile, 1⟩

def editedTree : FsDirData FreeId := directory [fileEntry "f" (Digests.fileId editedFile) 1]

def editCommit : CommitData FreeId :=
  let data := { rootCommit "edit" (some (rootCommit "first" none).commitId) with
    rootId := Digests.dirId editedTree }
  { data with commitId := computeCommitId data }

abbrev LockAction := ThreadAction (ClientRequest FreeId) (BranchJob FreeId) (SyncEnv FreeId)

/-- User 1 uploads a file, user 2 locks it, and user 1 asks for HEAD to move to an edit. -/
def editAfter (lock : LockRequest) : List LockAction :=
  [.serve (.sync (.insertFsObjects .strict [packed (.file uploadedFile),
      packed (.dir uploadedTree), packed (.file editedFile), packed (.dir editedTree)])),
    .serve (.sync (.writeBlock (.atom 7) 0)), .serve (.sync (.writeBlock (.atom 8) 0)),
    .serve (.sync (.putCommit (rootCommit "first" none).commitId (rootCommit "first" none))),
    .serve (.sync (.putCommit editCommit.commitId editCommit)),
    .begin ⟨(rootCommit "first" none).commitId, 1⟩,
    .advance 0 uploadEnv, .advance 0 uploadEnv, .advance 0 uploadEnv,
    .serve (.lock lock), .begin ⟨editCommit.commitId, 1⟩]

def unlockedLibrary : Threads (LockedLibrary FreeId) (BranchCall FreeId) :=
  ⟨⟨emptyLibrary, [], []⟩, []⟩

theorem unlockedLibrary_init : lockSystem.init unlockedLibrary := by
  refine ⟨⟨?_, rfl, rfl⟩, rfl⟩
  intro commitId row found
  cases found

/-- The check agrees: there is no lock, or it refuses an edit of the first file. -/
def agreesCheck (library : LockedLibrary FreeId) (userId : Int) (row : CommitRow FreeId) : Bool :=
  let store := library.repo.fsObjects
  let base := baseOf library.repo.commits row
  let id := Digests.fileId uploadedFile
  readableCheck store base && readableCheck store row.rootId &&
    (library.lockedFiles.isEmpty && library.held.isEmpty ||
      (match checkCommitFileLocks { uploadEnv with lockedFiles := library.lockedFiles } store
          row.rootId userId with
        | .error (.locked _) => true
        | _ => false) &&
      library.held.any fun lock => decide (lock.2 ≠ userId ∧
        HasFile store (entriesOf store base) (pathComponents lock.1) id ∧
        ¬ HasFile store (entriesOf store row.rootId) (pathComponents lock.1) id))

theorem checkAgrees_of_check {library : LockedLibrary FreeId} {row : CommitRow FreeId}
    (checked : agreesCheck library userId row = true) : CheckAgrees library userId row := by
  simp only [agreesCheck, Bool.and_eq_true, Bool.or_eq_true, List.isEmpty_iff, List.any_eq_true,
    decide_eq_true_eq] at checked
  obtain ⟨⟨base, new⟩, ⟨noRows, noLocks⟩ | ⟨refused, lock, isHeld, other, inBase, notNew⟩⟩ :=
    checked
  · refine ⟨readableTree_of_check base, readableTree_of_check new, fun changes => ?_, ?_⟩
    · rw [noLocks] at changes
      exact absurd (fun lock isHeld => absurd isHeld List.not_mem_nil) changes
    · rintro - ⟨lock, listed, -⟩
      rw [noRows] at listed
      cases listed
  · refine ⟨readableTree_of_check base, readableTree_of_check new, fun _ => ?_, fun same => ?_⟩
    · split at refused
      · rename_i path rejected
        exact recordedAsSpelled_of_meets (checkCommitFileLocks_locked rejected)
      · cases refused
    · exact absurd ((same lock isHeld other _).mp inBase) notNew

def lockCheck (state : Threads (LockedLibrary FreeId) (BranchCall FreeId)) : LockAction → Bool
  | .serve (.lock _) => state.running.all fun call => call.pc.upload.isNone
  | .advance index _ =>
    match state.running[index]? with
    | some ⟨userId, .begun newHead _⟩ =>
      (state.shared.repo.commits.find newHead).all (agreesCheck state.shared userId)
    | some ⟨_, .merging _ _ _ _⟩ => false
    | _ => true
  | _ => true

theorem lockCheck_sound (state : Threads (LockedLibrary FreeId) (BranchCall FreeId))
    (action : LockAction) (checked : lockCheck state action = true) :
    lockGuard state action := by
  cases action with
  | serve request =>
    cases request with
    | lock request =>
      intro lock _ call running _ upload isUpload
      have none := List.all_eq_true.mp checked call running
      rw [isUpload] at none
      cases none
    | sync request => trivial
  | begin job => trivial
  | advance index env =>
    rintro ⟨userId, pc⟩ running
    simp only [lockCheck, running] at checked
    cases pc with
    | begun newHead user =>
      intro row found
      simp only [found] at checked
      exact checkAgrees_of_check checked
    | merging upload attempt headId headRoot => cases checked
    | _ => trivial

/-- A lock in the walk's own spelling: the edit is refused. -/
theorem edit_refused : ∃ state next call after,
    lockSystem.runChecked lockCheck (editAfter (.lockFileSync "f" 2)) unlockedLibrary =
      some state ∧
    lockSystem.step state (.advance 1 uploadEnv) = some next ∧
    state.running[1]? = some call ∧ next.running[1]? = some after ∧
    rejectedPath after.pc = some "f" ∧ LocksRespected state.shared next.shared call after := by
  have ran : ((lockSystem.runChecked lockCheck (editAfter (.lockFileSync "f" 2))
      unlockedLibrary).bind fun state => (lockSystem.step state (.advance 1 uploadEnv)).map
        fun next => (lockCheck state (.advance 1 uploadEnv), state.running[1]?.isSome,
          next.running[1]?.bind fun after => rejectedPath after.pc)) =
      some (true, true, some "f") := by decide +kernel
  obtain ⟨state, run, rest⟩ := Option.bind_eq_some_iff.mp ran
  obtain ⟨next, taken, facts⟩ := Option.map_eq_some_iff.mp rest
  simp only [Prod.mk.injEq, Option.bind_eq_some_iff] at facts
  obtain ⟨checked, running, after, isAfter, refused⟩ := facts
  obtain ⟨call, isCall⟩ := Option.isSome_iff_exists.mp running
  have reached := System.reachable_of_runChecked lockCheck_sound _ _ state
    (.init unlockedLibrary_init) run
  exact ⟨state, next, call, after, run, taken, isCall, isAfter, refused,
    locks_respected reached (lockCheck_sound _ _ checked) taken isCall isAfter⟩

/-- A lock on the path as `lock_file` records it: the walk never spells it so, and HEAD
moves to the edit. -/
theorem edit_accepted : ∃ state next call after,
    lockSystem.Reachable (fun _ _ => True) state ∧
    lockSystem.step state (.advance 1 uploadEnv) = some next ∧
    state.running[1]? = some call ∧ next.running[1]? = some after ∧
    ¬ LocksRespected state.shared next.shared call after := by
  have ran : ((lockSystem.runChecked (fun _ _ => true) (editAfter (.lockFile "/f" 2) ++
      [.advance 1 uploadEnv, .advance 1 uploadEnv]) unlockedLibrary).bind fun state =>
        (lockSystem.step state (.advance 1 uploadEnv)).map fun next =>
          (state.running[1]?.map BranchCall.userId, next.running[1]?.isSome,
            decide (("/f", 2) ∈ state.shared.held),
            decide (HeadHas state.shared.repo ["f"] (Digests.fileId uploadedFile)),
            decide (HeadHas next.shared.repo ["f"] (Digests.fileId uploadedFile)))) =
      some (some 1, true, true, true, false) := by decide +kernel
  obtain ⟨state, run, rest⟩ := Option.bind_eq_some_iff.mp ran
  obtain ⟨next, taken, facts⟩ := Option.map_eq_some_iff.mp rest
  simp only [Prod.mk.injEq, Option.map_eq_some_iff, decide_eq_true_eq, decide_eq_false_iff_not]
    at facts
  obtain ⟨⟨call, isCall, isUser⟩, running, isHeld, before, notAfter⟩ := facts
  obtain ⟨after, isAfter⟩ := Option.isSome_iff_exists.mp running
  have reached := System.reachable_of_runChecked (fun _ _ _ => trivial) _ _ state
    (.init unlockedLibrary_init) run
  refine ⟨state, next, call, after, reached, taken, isCall, isAfter, fun respected => ?_⟩
  have sameFile := respected.kept ("/f", 2) isHeld (by rw [isUser]; decide)
  rw [show pathComponents "/f" = ["f"] from by decide] at sameFile
  exact notAfter (sameFile _ before)

end Nanofile
