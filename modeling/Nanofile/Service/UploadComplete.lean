import Nanofile.Base.FreeDigest
import Nanofile.Fs.MergeComplete
import Nanofile.Service.CheckComplete
import Nanofile.Service.SyncStep

/-!
# The current tree is complete

Objects are never deleted by clients, so a tree that is complete stays so, and a
merge of two complete trees is complete.  What is left is the check of the upload
itself: HEAD stays complete as long as what each check takes on trust is complete.
-/

set_option autoImplicit false

namespace Nanofile

open Nanofile.Lib

variable {Oid : Type} [DecidableEq Oid] [Digests Oid] [ToString Oid]

/-- There is no HEAD, or everything reachable from its root exists. -/
def HeadEmptyOrComplete (repo : Repo Oid) : Prop :=
  ∀ headId, repo.headCommitId = some headId → ∃ row, repo.commits.find headId = some row ∧
    Complete repo.fsObjects repo.blocks row.rootId

structure SyncInv (repo : Repo Oid) : Prop where
  genuine : Genuine repo.fsObjects
  hashed : AllHashed repo.commits
  head : HeadEmptyOrComplete repo

def UploadComplete (repo : Repo Oid) (upload : Upload Oid) : Prop :=
  repo.commits.find upload.newHead = some upload.newCommit ∧
    Complete repo.fsObjects repo.blocks upload.newCommit.rootId

/-- A merge commit about to be recorded as the target of a swap. -/
def RowComplete (repo : Repo Oid) (row : CommitRow Oid) (swap : Swap Oid) : Prop :=
  swap.targetHead = row.commitId ∧ Hashed row ∧
    Complete repo.fsObjects repo.blocks row.rootId

def TargetComplete (repo : Repo Oid) (swap : Swap Oid) : Prop :=
  ∃ row, repo.commits.find swap.targetHead = some row ∧
    Complete repo.fsObjects repo.blocks row.rootId

def BranchComplete (repo : Repo Oid) : BranchPc Oid → Prop
  | .uploaded upload _ => UploadComplete repo upload
  | .merging upload _ _ headRoot =>
    UploadComplete repo upload ∧ Complete repo.fsObjects repo.blocks headRoot
  | .recording upload _ row swap => UploadComplete repo upload ∧ RowComplete repo row swap
  | .inserting upload _ row swap => UploadComplete repo upload ∧ RowComplete repo row swap
  | .swapping upload _ swap => UploadComplete repo upload ∧ TargetComplete repo swap
  | _ => True

variable {after before : Repo Oid}

section

omit [ToString Oid]

theorem UploadComplete.grows {upload : Upload Oid} (grown : Grows before after)
    (complete : UploadComplete before upload) : UploadComplete after upload :=
  ⟨grown.commits _ _ complete.1, complete.2.grows grown⟩

theorem BranchComplete.grows {pc : BranchPc Oid} (grown : Grows before after)
    (complete : BranchComplete before pc) : BranchComplete after pc := by
  cases pc with
  | uploaded upload attempt => exact UploadComplete.grows grown complete
  | merging upload attempt headId headRoot =>
    exact ⟨complete.1.grows grown, complete.2.grows grown⟩
  | recording upload attempt row swap | inserting upload attempt row swap =>
    obtain ⟨uploaded, target, hashed, tree⟩ := complete
    exact ⟨uploaded.grows grown, target, hashed, tree.grows grown⟩
  | swapping upload attempt swap =>
    obtain ⟨uploaded, row, found, tree⟩ := complete
    exact ⟨uploaded.grows grown, row, grown.commits _ _ found, tree.grows grown⟩
  | begun | sizing | finished => trivial

theorem HeadEmptyOrComplete.grows (grown : Grows before after)
    (sameHead : after.headCommitId = before.headCommitId) (complete : HeadEmptyOrComplete before) :
    HeadEmptyOrComplete after := by
  intro headId isHead
  obtain ⟨row, found, tree⟩ := complete headId (sameHead ▸ isHead)
  exact ⟨row, grown.commits _ _ found, tree.grows grown⟩

end

/-- The condition on an upload: what its check takes on trust is complete, and no file of
its tree lists a block that is not stored under an id whose bytes are cached. -/
def TrustHolds (env : SyncEnv Oid) (repo : Repo Oid) : BranchPc Oid → Prop
  | .begun newHead _ => ∀ row, repo.commits.find newHead = some row →
      (∀ fsId, TakenOnTrust repo.fsObjects row.rootId (baseRootOf repo.commits row) fsId →
        Complete repo.fsObjects repo.blocks fsId) ∧
      ∀ block, NeedsBlock repo.fsObjects row.rootId block → decodeSha1Hex block ∈ env.cached →
        (repo.blocks.find block).isSome = true
  | _ => True

def RequestHolds (_ : Repo Oid) : SyncRequest Oid → Prop
  | .insertFsObjects mode entries => TruthfulPack mode entries
  | _ => True

variable {repo : Repo Oid} {request : SyncRequest Oid}

theorem serveSync_grows
    (genuine : Genuine repo.fsObjects) (holds : RequestHolds repo request) :
    Grows repo (serveSync repo request) ∧ Genuine (serveSync repo request).fsObjects := by
  cases request with
  | insertFsObjects mode entries =>
    obtain ⟨store, after, grown, genuine'⟩ := insertFsObjects_spec holds genuine
    rw [serveSync, after]
    exact ⟨⟨grown, fun _ held => held, CommitTable.Extends.refl _⟩, genuine'⟩
  | writeBlock blockId now =>
    refine ⟨⟨Table.Extends.refl _, fun block held => ?_, CommitTable.Extends.refl _⟩, genuine⟩
    obtain ⟨modified, found⟩ := Option.isSome_iff_exists.mp held
    have kept := Table.extends_insertOrIgnore repo.blocks blockId now block modified found
    exact Option.isSome_iff_exists.mpr ⟨modified, kept⟩
  | putCommit urlCommitId data =>
    obtain ⟨commits, after, grown⟩ := putCommit_extends urlCommitId data repo
    rw [serveSync, after]
    exact ⟨⟨Table.Extends.refl _, fun _ held => held, grown⟩, genuine⟩

theorem serveSync_hashed (request : SyncRequest Oid)
    (hashed : AllHashed repo.commits) : AllHashed (serveSync repo request).commits := by
  cases request with
  | insertFsObjects mode entries =>
    rw [serveSync, (insertFsObjects_fields mode entries repo).1]
    exact hashed
  | writeBlock blockId now => exact hashed
  | putCommit urlCommitId data =>
    obtain ⟨commits, after, -, hashed'⟩ := putCommit_spec urlCommitId data hashed
    rw [serveSync, after]
    exact hashed'

theorem serveSync_spec (invariant : SyncInv repo)
    (holds : RequestHolds repo request) :
    SyncInv (serveSync repo request) ∧ Grows repo (serveSync repo request) := by
  obtain ⟨grows, genuine⟩ := serveSync_grows invariant.genuine holds
  have sameHead := (serveSync_commits repo request).2
  exact ⟨⟨genuine, serveSync_hashed request invariant.hashed,
    invariant.head.grows grows sameHead⟩, grows⟩

omit [ToString Oid] in
/-- A tree that may be trusted and passes its check is complete. -/
theorem validateUpload_complete {env : SyncEnv Oid} {newHead : Oid} {userId : Int}
    {upload : Upload Oid} (trust : TrustHolds env repo (.begun newHead userId))
    (valid : validateUpload env repo newHead userId = .ok upload) : UploadComplete repo upload := by
  obtain ⟨sameHead, found, sameBase, passed⟩ := validateUpload_ok valid
  obtain ⟨trusted, uncached⟩ := trust _ found
  rw [sameBase] at passed
  have answered : CompleteIn repo.fsObjects (fun block =>
      cachedHasBlock env.cached repo.blocks block = true ∨
        (repo.blocks.find block).isSome = true) _ :=
    checkCommitBlocks_complete (fun _ held => Or.inl held) passed
      fun fsId taken => (trusted fsId taken).imp fun _ stored => Or.inr stored
  refine ⟨sameHead ▸ found, fun fsId reached nonempty => ?_⟩
  obtain ⟨object, present, held⟩ := answered fsId reached nonempty
  refine ⟨object, present, fun file isFile block listed => ?_⟩
  rcases held file isFile block listed with cached | stored
  · simp only [cachedHasBlock, Bool.and_eq_true, Bool.or_eq_true, decide_eq_true_eq] at cached
    rcases cached.2 with cached | stored
    · exact uncached block ⟨fsId, file, reached, nonempty, isFile ▸ present, listed⟩ cached
    · exact stored
  · exact stored

theorem branchStep_complete {env : SyncEnv Oid} {pc next : BranchPc Oid}
    (invariant : SyncInv repo) (complete : BranchComplete repo pc) (trust : TrustHolds env repo pc)
    (step : BranchStep env repo pc after next) : SyncInv after ∧ BranchComplete after next := by
  obtain ⟨grows, genuine⟩ := step.grows invariant.genuine
  have stays : ∀ left : Repo Oid, Grows repo left → Genuine left.fsObjects →
      left.commits = repo.commits → left.headCommitId = repo.headCommitId → SyncInv left := by
    intro left grown genuine' sameCommits sameHead
    exact ⟨genuine', sameCommits ▸ invariant.hashed, invariant.head.grows grown sameHead⟩
  cases step with
  | failed pc failure | already isHead => exact ⟨invariant, trivial⟩
  | checked valid => exact ⟨invariant, validateUpload_complete trust valid⟩
  | fastForward isHead isNew parent =>
    exact ⟨invariant, complete, _, complete.1, complete.2⟩
  | diverged isHead foreign found =>
    have isHead' := (Option.filter_eq_some_iff.mp isHead).1
    obtain ⟨row, found', tree⟩ := invariant.head _ isHead'
    rw [found, Option.some.injEq] at found'
    subst found'
    exact ⟨invariant, complete, tree⟩
  | mergeFailed failure => exact ⟨stays _ grows genuine rfl rfl, trivial⟩
  | merged ran checked =>
    obtain ⟨uploaded, headTree⟩ := complete
    refine ⟨stays _ grows genuine rfl rfl, uploaded.grows grows, rfl,
      hashed_computeCommitId _ false rfl, ?_⟩
    exact mergeTrees_complete invariant.genuine ran headTree uploaded.2
  | reused found =>
    obtain ⟨uploaded, target, hashed, tree⟩ := complete
    have sameRoot := (hashed.rootId_eq (invariant.hashed _ _ found)
      (CommitTable.find_eq_some_iff.mp found).2.symm).1
    refine ⟨invariant, uploaded, _, target ▸ found, ?_⟩
    rw [← sameRoot]
    exact tree
  | fresh absent => exact ⟨invariant, complete⟩
  | @inserted _ _ row swap commits done =>
    obtain ⟨uploaded, target, hashed, tree⟩ := complete
    refine ⟨⟨genuine, allHashed_insert invariant.hashed hashed done,
      invariant.head.grows grows rfl⟩, uploaded.grows grows,
      { row with id := repo.commits.nextId }, ?_, tree⟩
    show commits.find swap.targetHead = _
    rw [target]
    exact CommitTable.find_inserted done
  | swapped unmoved =>
    obtain ⟨uploaded, row, found, tree⟩ := complete
    refine ⟨⟨genuine, invariant.hashed, fun headId isHead => ?_⟩, trivial⟩
    cases isHead
    exact ⟨row, found, tree⟩
  | lost moved => exact ⟨invariant, complete.1⟩
  | sized stepped | done stepped =>
    obtain ⟨-, -, sameCommits, sameHead⟩ := stepSize_fields stepped
    exact ⟨stays _ grows genuine sameCommits sameHead, trivial⟩

/-- A library without a HEAD and without objects. -/
def Fresh (repo : Repo Oid) : Prop :=
  repo.headCommitId = none ∧ repo.commits = .empty ∧ repo.fsObjects = .empty ∧
    repo.blocks = .empty

def syncSystem : System (Threads (Repo Oid) (BranchPc Oid))
    (ThreadAction (SyncRequest Oid) (BranchJob Oid) (SyncEnv Oid)) :=
  syncProgram.system Fresh

/-- In a run whose uploads may trust what they trust, HEAD is always complete. -/
theorem head_complete_of_trust {state : Threads (Repo Oid) (BranchPc Oid)}
    (reached : syncSystem.Reachable
      (Program.guarded RequestHolds fun repo pc env => TrustHolds env repo pc) state) :
    HeadEmptyOrComplete state.shared := by
  have stable : ∀ (before after : Repo Oid) (pc : BranchPc Oid), Grows before after →
      BranchComplete before pc → BranchComplete after pc :=
    fun _ _ _ grown complete => complete.grows grown
  have start : ∀ repo : Repo Oid, Fresh repo → SyncInv repo := by
    intro repo fresh
    obtain ⟨noHead, noCommits, noObjects, -⟩ := fresh
    refine ⟨?_, ?_, ?_⟩
    · rw [noObjects]
      intro fsId object _ found
      simp at found
    · rw [noCommits]
      intro commitId row found
      simp [CommitTable.find, CommitTable.empty] at found
    · intro headId isHead
      rw [noHead] at isHead
      simp at isHead
  have held : SyncInv state.shared ∧ ∀ pc ∈ state.running, BranchComplete state.shared pc := by
    refine Program.threads_invariant stable ?_ ?_ ?_ start reached
    · intro repo job _
      trivial
    · intro repo request invariant holds
      exact serveSync_spec invariant holds
    · intro repo pc env after invariant complete trust taken
      have step := stepBranch_sound taken
      obtain ⟨kept, own⟩ := branchStep_complete invariant complete trust step
      exact ⟨kept, own, (step.grows invariant.genuine).1⟩
  exact held.1.head

def emptyLibrary : Repo FreeId where
  id := "library"
  headCommitId := none
  size := 0
  historyLimit := 0
  historyTtlDays := 0
  commits := .empty
  fsObjects := .empty
  blocks := .empty

def packed (object : FsObject FreeId) : PackEntry FreeId where
  fsId := FreeId.object object
  length := .ok 100
  sha1 := FreeId.object object
  object := .ok object
  denoted := by
    intro found parsed
    cases parsed
    rfl

def uploadedFile : FsFileData FreeId := ⟨[.atom 7], 1, seafMetadataTypeFile, 1⟩

def uploadedTree : FsDirData FreeId :=
  directory [fileEntry "f" (Digests.fileId uploadedFile) 1]

def rootCommit (description : String) (parentId : Option FreeId) : CommitData FreeId :=
  let data : CommitData FreeId := ⟨.empty, "library", Digests.dirId uploadedTree, "user",
    .atom 0, description, 0, parentId, none, none, none⟩
  { data with commitId := computeCommitId data }

def uploadEnv : SyncEnv FreeId := ⟨defaultLimits, fun _ => none, fun _ => 0, fun _ => "", [], []⟩

/-- One call of `update_branch` up to its swap. -/
def moveHead (newHead : FreeId) :
    List (ThreadAction (SyncRequest FreeId) (BranchJob FreeId) (SyncEnv FreeId)) :=
  [.begin ⟨newHead, 1⟩, .advance 0 uploadEnv, .advance 0 uploadEnv, .advance 0 uploadEnv]

def firstUpload : List (ThreadAction (SyncRequest FreeId) (BranchJob FreeId) (SyncEnv FreeId)) :=
  [.serve (.insertFsObjects .strict [packed (.file uploadedFile), packed (.dir uploadedTree)]),
    .serve (.writeBlock (.atom 7) 0),
    .serve (.putCommit (rootCommit "first" none).commitId (rootCommit "first" none))] ++
  moveHead (rootCommit "first" none).commitId

/-- Only the strict mode is used, no checked commit has a base and nothing is cached. -/
def uploadCheck (state : Threads (Repo FreeId) (BranchPc FreeId)) :
    ThreadAction (SyncRequest FreeId) (BranchJob FreeId) (SyncEnv FreeId) → Bool
  | .serve (.insertFsObjects mode _) => mode = .strict
  | .advance index env =>
    match state.running[index]? with
    | some (.begun newHead _) => env.cached = [] &&
      (state.shared.commits.find newHead).all fun row =>
        (baseRootOf state.shared.commits row).isNone
    | _ => true
  | _ => true

theorem uploadCheck_sound (state : Threads (Repo FreeId) (BranchPc FreeId))
    (action : ThreadAction (SyncRequest FreeId) (BranchJob FreeId) (SyncEnv FreeId))
    (checked : uploadCheck state action = true) :
    Program.guarded RequestHolds (fun repo pc env => TrustHolds env repo pc) state action := by
  cases action with
  | serve request =>
    cases request with
    | insertFsObjects mode entries => exact Or.inl (by simpa [uploadCheck] using checked)
    | writeBlock blockId now | putCommit urlCommitId data => trivial
  | begin job => trivial
  | advance index env =>
    intro pc running
    cases pc with
    | begun newHead userId =>
      intro row found
      simp only [uploadCheck, running, found, Bool.and_eq_true, decide_eq_true_eq] at checked
      constructor
      · rintro fsId ⟨base, isBase, -⟩
        simp [isBase] at checked
      · intro block _ cached
        rw [checked.1] at cached
        cases cached
    | _ => trivial

theorem firstUpload_complete : ∃ state,
    syncSystem.runChecked uploadCheck firstUpload ⟨emptyLibrary, []⟩ =
      some state ∧
    state.shared.headCommitId = some (rootCommit "first" none).commitId ∧
    HeadEmptyOrComplete state.shared := by
  have ran : (syncSystem.runChecked uploadCheck firstUpload ⟨emptyLibrary, []⟩).map
      (fun state => state.shared.headCommitId) =
      some (some (rootCommit "first" none).commitId) := by decide +kernel
  obtain ⟨state, run, isHead⟩ := Option.map_eq_some_iff.mp ran
  have start : syncSystem.init (⟨emptyLibrary, []⟩ : Threads (Repo FreeId) (BranchPc FreeId)) :=
    ⟨⟨rfl, rfl, rfl, rfl⟩, rfl⟩
  have reached := System.reachable_of_runChecked uploadCheck_sound firstUpload _ state
    (.init start) run
  exact ⟨state, run, isHead, head_complete_of_trust reached⟩

/-- The file is never pushed.  The commit `first` is stored and never checked, and
`second` on top of it has the same root. -/
def holedUpload : List (ThreadAction (SyncRequest FreeId) (BranchJob FreeId) (SyncEnv FreeId)) :=
  let first := rootCommit "first" none
  let second := rootCommit "second" (some first.commitId)
  [.serve (.insertFsObjects .strict [packed (.dir uploadedTree)]),
    .serve (.putCommit first.commitId first), .serve (.putCommit second.commitId second)] ++
  moveHead second.commitId

def headFacts (state : Threads (Repo FreeId) (BranchPc FreeId)) :
    Option FreeId × Option (FsDirData FreeId) × Bool :=
  let repo := state.shared
  ((repo.headCommitId.bind repo.commits.find).map CommitRow.rootId,
    dirBatch repo.fsObjects (Digests.dirId uploadedTree),
    (repo.fsObjects.find (Digests.fileId uploadedFile)).isSome)

theorem holedUpload_accepted : ∃ state : Threads (Repo FreeId) (BranchPc FreeId),
    syncSystem.Reachable (fun _ _ => True) state ∧
    ¬ HeadEmptyOrComplete state.shared := by
  have ran : (syncSystem.runChecked (fun _ _ => true) holedUpload ⟨emptyLibrary, []⟩).map
      headFacts =
      some (some (Digests.dirId uploadedTree), some uploadedTree, false) := by decide +kernel
  obtain ⟨state, run, facts⟩ := Option.map_eq_some_iff.mp ran
  have start : syncSystem.init (⟨emptyLibrary, []⟩ : Threads (Repo FreeId) (BranchPc FreeId)) :=
    ⟨⟨rfl, rfl, rfl, rfl⟩, rfl⟩
  refine ⟨state, System.reachable_of_runChecked (fun _ _ _ => trivial) holedUpload _ state
    (.init start) run, fun complete => ?_⟩
  simp only [headFacts, Prod.mk.injEq, Option.map_eq_some_iff, Option.bind_eq_some_iff] at facts
  obtain ⟨⟨row, ⟨headId, isHead, found⟩, isRoot⟩, read, absent⟩ := facts
  obtain ⟨row', found', tree⟩ := complete headId isHead
  rw [found, Option.some.injEq] at found'
  subst found'
  rw [isRoot] at tree
  have file := tree.entry read (List.mem_singleton_self _)
  obtain ⟨object, present, -⟩ := file _ .refl (by decide)
  have stored : (state.shared.fsObjects.find (Digests.fileId uploadedFile)).isSome = true :=
    Option.isSome_iff_exists.mpr ⟨object, present⟩
  rw [absent] at stored
  simp at stored

end Nanofile
