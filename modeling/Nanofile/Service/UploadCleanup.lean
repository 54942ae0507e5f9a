import Nanofile.Lib.Threads
import Nanofile.Storage.BlockFiles

/-!
# Cleaning up after a failed upload

Uploads of one repository write their blocks, insert a file object and commit it; one
that fails or is abandoned removes the blocks its tracked writes reported as new.  Two of
the three cleanup loops first look whether a file object lists the block.  An unlink of a
block that neither HEAD nor an upload that may still commit counts on keeps both.
-/

set_option autoImplicit false

namespace Nanofile

open Nanofile.Lib
universe u

/-- What an upload does for one block: a tracked write, or a look at the stored one. -/
inductive BlockStep (BlockId : Type u) where
  | write (id : BlockId)
  | stat (id : BlockId)

/-- The cleanup loops: `cleanup_uncommitted_blocks` and `delete_uncommitted_blocks` check
references, the one of `upload_blks_api` does not. -/
inductive Cleanup where
  | checked
  | unchecked
deriving DecidableEq, Repr

inductive UploadPc (BlockId : Type u) where
  | sending (todo : List (BlockStep BlockId))
  | checkingQuota
  | inserting
  | inserted
  | committed
  | cleaning (cleanup : Cleanup) (candidates : List BlockId)
  | removing (cleanup : Cleanup) (id : BlockId) (candidates : List BlockId)
  | forgetting (cleanup : Cleanup) (id : BlockId) (candidates : List BlockId)
  | failed

/-- An upload in progress: the blocks of its file, the blocks it has written or found, and
those reported as new. -/
structure UploadThread (BlockId : Type u) where
  file : List BlockId
  cleanup : Cleanup
  replaces : List BlockId → Bool
  held : List BlockId
  newIds : List BlockId
  pc : UploadPc BlockId

structure UploadJob (BlockId : Type u) where
  plan : List (BlockStep BlockId)
  file : List BlockId
  cleanup : Cleanup
  replaces : List BlockId → Bool

/-- The block files, the file objects and those reachable from HEAD, each as the list of
its blocks. -/
structure UploadState (BlockId : Type u) where
  store : BlockStorage BlockId
  objects : List (List BlockId)
  head : List (List BlockId)

/-- What a step meets: it goes on with an answer, or the upload is abandoned there. -/
inductive UploadTick where
  | go (answer : Bool)
  | abandon
deriving DecidableEq, Repr

/-- The cached length of a block is dropped: expired or evicted. -/
inductive UploadRequest (BlockId : Type u) where
  | forget (id : BlockId)

section Model

variable {BlockId : Type u} [DecidableEq BlockId] (content : BlockId → List UInt8)

def UploadThread.clean (thread : UploadThread BlockId) (cleanup : Cleanup) :
    UploadThread BlockId :=
  { thread with pc := .cleaning cleanup thread.newIds }

def sendBlock (state : UploadState BlockId) (thread : UploadThread BlockId)
    (rest : List (BlockStep BlockId)) :
    BlockStep BlockId → UploadState BlockId × UploadThread BlockId
  | .write id =>
    let written := state.store.writeBlockWithIdTracked id (content id)
    ({ state with store := written.1 },
      { thread with
        held := id :: thread.held
        newIds := if written.2 then thread.newIds ++ [id] else thread.newIds
        pc := .sending rest })
  | .stat id =>
    match state.store.files id with
    | none => (state, { thread with pc := .failed })
    | some stored =>
      ({ state with store := state.store.existsCacheInsert id stored.length },
        { thread with held := id :: thread.held, pc := .sending rest })

/-- The reference check of a candidate.  A text match elsewhere and a failed query
(`keeps`) count as a reference. -/
def referencesBlock (state : UploadState BlockId) (keeps : Bool) (id : BlockId) : Bool :=
  keeps || decide (∃ object ∈ state.objects, id ∈ object)

def uploadStep (tick : UploadTick) (state : UploadState BlockId)
    (thread : UploadThread BlockId) : Option (UploadState BlockId × UploadThread BlockId) :=
  match thread.pc, tick with
  | .sending (step :: rest), .go _ => some (sendBlock content state thread rest step)
  | .sending [], .go _ =>
    if ∀ id ∈ thread.file, id ∈ thread.held then
      some (state, { thread with pc := .checkingQuota })
    else none
  | .checkingQuota, .go within =>
    some (state, if within then { thread with pc := .inserting } else thread.clean thread.cleanup)
  | .inserting, .go _ =>
    some ({ state with objects := state.objects ++ [thread.file] },
      { thread with pc := .inserted })
  | .inserted, .go _ =>
    some
      ({ state with
        head := (state.head.filter fun object => !thread.replaces object) ++ [thread.file] },
        { thread with pc := .committed })
  | .sending _, .abandon | .checkingQuota, .abandon | .inserting, .abandon
  | .inserted, .abandon => some (state, thread.clean .checked)
  | .cleaning cleanup (id :: candidates), .go keeps =>
    if cleanup = .checked ∧ referencesBlock state keeps id then
      some (state, { thread with pc := .cleaning cleanup candidates })
    else some (state, { thread with pc := .removing cleanup id candidates })
  | .removing cleanup id candidates, .go _ =>
    some ({ state with store := state.store.unlink id },
      { thread with pc := .forgetting cleanup id candidates })
  | .forgetting cleanup id candidates, .go _ =>
    some ({ state with store := state.store.existsCacheRemove id },
      { thread with pc := .cleaning cleanup candidates })
  | .cleaning _ [], .go _ => some (state, { thread with pc := .failed })
  | .cleaning _ _, .abandon | .removing _ _ _, .abandon | .forgetting _ _ _, .abandon => none
  | .committed, _ | .failed, _ => none

def uploadProgram :
    Program (UploadState BlockId) (UploadThread BlockId) (UploadRequest BlockId)
      (UploadJob BlockId) UploadTick where
  serve
    | .forget id, state => { state with store := state.store.existsCacheRemove id }
  begin job := ⟨job.file, job.cleanup, job.replaces, [], [], .sending job.plan⟩
  advance := uploadStep content

end Model

/-- Every block of a file object reachable from HEAD exists. -/
def CommittedBlocksExist {BlockId : Type u} (state : UploadState BlockId) : Prop :=
  ∀ object ∈ state.head, ∀ id ∈ object, (state.store.files id).isSome

def uploadSystem {BlockId : Type u} [DecidableEq BlockId] (content : BlockId → List UInt8) :
    System (Threads (UploadState BlockId) (UploadThread BlockId))
      (ThreadAction (UploadRequest BlockId) (UploadJob BlockId) UploadTick) :=
  (uploadProgram content).system CommittedBlocksExist

def UploadPc.Live {BlockId : Type u} : UploadPc BlockId → Prop
  | .sending _ | .checkingQuota | .inserting | .inserted => True
  | .committed | .cleaning _ _ | .removing _ _ _ | .forgetting _ _ _ | .failed => False

def UploadPc.Finished {BlockId : Type u} : UploadPc BlockId → Prop
  | .committed | .failed => True
  | _ => False

def UploadPc.Sent {BlockId : Type u} : UploadPc BlockId → Prop
  | .checkingQuota | .inserting | .inserted => True
  | _ => False

section Runs

variable {BlockId : Type u} [DecidableEq BlockId] {content : BlockId → List UInt8}

/-- Nothing committed and no upload that may still commit counts on the block. -/
def Unwanted (state : Threads (UploadState BlockId) (UploadThread BlockId)) (id : BlockId) :
    Prop :=
  (∀ object ∈ state.shared.head, id ∉ object) ∧
    ∀ thread ∈ state.running, thread.pc.Live → id ∉ thread.held

/-- The condition on a step: an unlink takes an unwanted block, and a write does not
trust a cached length whose file is gone. -/
def cleanupGuard (state : Threads (UploadState BlockId) (UploadThread BlockId)) :
    ThreadAction (UploadRequest BlockId) (UploadJob BlockId) UploadTick → Prop
  | .advance index _ => ∀ thread, state.running[index]? = some thread →
      match thread.pc with
      | .removing _ id _ => Unwanted state id
      | .sending (.write id :: _) =>
        (state.shared.store.existsCache id).isSome → (state.shared.store.files id).isSome
      | _ => True
  | _ => True

/-- What an upload that may still commit counts on. -/
structure Counts (state : UploadState BlockId) (thread : UploadThread BlockId) : Prop where
  held : thread.pc.Live → ∀ id ∈ thread.held, (state.store.files id).isSome
  sent : thread.pc.Sent → ∀ id ∈ thread.file, id ∈ thread.held

variable {state : UploadState BlockId} {thread : UploadThread BlockId}

section

omit [DecidableEq BlockId]

theorem Counts.grow {after : UploadState BlockId} (counts : Counts state thread)
    (grows : state.store.Grows after.store) : Counts after thread :=
  ⟨fun live id listed => grows id (counts.held live id listed), counts.sent⟩

theorem CommittedBlocksExist.grow {after : UploadState BlockId}
    (exist : CommittedBlocksExist state) (grows : state.store.Grows after.store)
    (sameHead : after.head = state.head) : CommittedBlocksExist after := by
  intro object listed id isBlock
  rw [sameHead] at listed
  exact grows id (exist object listed id isBlock)

theorem counts_of_dead (notLive : ¬ thread.pc.Live) (notSent : ¬ thread.pc.Sent) :
    Counts state thread :=
  ⟨fun live => absurd live notLive, fun sent => absurd sent notSent⟩

end

structure Careful (state : UploadState BlockId)
    (after : UploadState BlockId × UploadThread BlockId) : Prop where
  exist : CommittedBlocksExist after.1
  counts : Counts after.1 after.2
  grows : state.store.Grows after.1.store

variable {id : BlockId} {rest : List (BlockStep BlockId)}
    {after : UploadState BlockId × UploadThread BlockId} {tick : UploadTick}

section

variable (exist : CommittedBlocksExist state)
include exist

omit [DecidableEq BlockId] in
theorem careful_of_same {next : UploadThread BlockId} (counts : Counts state next) :
    Careful state (state, next) :=
  ⟨exist, counts, .refl _⟩

theorem careful_write (counts : Counts state thread)
    (sending : thread.pc = .sending (.write id :: rest))
    (trusted : (state.store.existsCache id).isSome → (state.store.files id).isSome) :
    Careful state (sendBlock content state thread rest (.write id)) := by
  have grows : state.store.Grows (state.store.writeBlockWithIdTracked id (content id)).1 :=
    BlockStorage.grows_writeBlockWithIdTracked
  refine ⟨exist.grow grows rfl, ⟨?_, fun sent => absurd sent not_false⟩, grows⟩
  intro _ other listed
  rcases List.mem_cons.mp listed with rfl | earlier
  · exact BlockStorage.writeBlockWithIdTracked_present trusted
  · exact grows other (counts.held (by rw [sending]; trivial) other earlier)

theorem careful_stat (counts : Counts state thread)
    (sending : thread.pc = .sending (.stat id :: rest)) :
    Careful state (sendBlock content state thread rest (.stat id)) := by
  simp only [sendBlock]
  split
  · exact careful_of_same exist (counts_of_dead (by exact not_false) (by exact not_false))
  · rename_i stored found
    have grows : state.store.Grows (state.store.existsCacheInsert id stored.length) :=
      fun _ present => present
    refine ⟨exist.grow grows rfl, ⟨?_, fun sent => absurd sent not_false⟩, grows⟩
    intro _ other listed
    rcases List.mem_cons.mp listed with rfl | earlier
    · change (state.store.files other).isSome
      rw [found]
      rfl
    · exact counts.held (by rw [sending]; trivial) other earlier

omit [DecidableEq BlockId] in
theorem careful_commit (counts : Counts state thread) (inserted : thread.pc = .inserted) :
    Careful state
      ({ state with
        head := (state.head.filter fun object => !thread.replaces object) ++ [thread.file] },
        { thread with pc := .committed }) := by
  refine ⟨?_, counts_of_dead (by exact not_false) (by exact not_false), .refl _⟩
  intro object listed id isBlock
  rcases List.mem_append.mp listed with kept | new
  · exact exist object (List.mem_filter.mp kept).1 id isBlock
  · rw [List.mem_singleton.mp new] at isBlock
    exact counts.held (by rw [inserted]; trivial) id
      (counts.sent (by rw [inserted]; trivial) id isBlock)

theorem uploadStep_careful (counts : Counts state thread)
    (trusted : ∀ id rest, thread.pc = .sending (.write id :: rest) →
      (state.store.existsCache id).isSome → (state.store.files id).isSome)
    (notUnlink : ∀ cleanup id candidates, thread.pc ≠ .removing cleanup id candidates)
    (moved : uploadStep content tick state thread = some after) : Careful state after := by
  have abandoned : ∀ next : UploadThread BlockId, after = (state, next) →
      ¬ next.pc.Live → ¬ next.pc.Sent → Careful state after := by
    rintro next rfl notLive notSent
    exact careful_of_same exist (counts_of_dead notLive notSent)
  cases pc : thread.pc with
  | sending todo =>
    have held : ∀ id ∈ thread.held, (state.store.files id).isSome :=
      counts.held (by rw [pc]; trivial)
    cases tick with
    | abandon =>
      cases todo <;> simp only [uploadStep, pc, Option.some.injEq] at moved <;>
        exact abandoned _ moved.symm not_false not_false
    | go answer =>
      cases todo with
      | nil =>
        simp only [uploadStep, pc] at moved
        split at moved
        · rename_i complete
          obtain rfl := Option.some.inj moved
          exact careful_of_same exist ⟨fun _ => held, fun _ => complete⟩
        · simp at moved
      | cons step rest =>
        simp only [uploadStep, pc, Option.some.injEq] at moved
        subst moved
        cases step with
        | write id => exact careful_write exist counts pc (trusted id rest pc)
        | stat id => exact careful_stat exist counts pc
  | checkingQuota =>
    cases tick with
    | abandon =>
      simp only [uploadStep, pc, Option.some.injEq] at moved
      exact abandoned _ moved.symm not_false not_false
    | go within =>
      simp only [uploadStep, pc, Option.some.injEq] at moved
      cases within with
      | true =>
        subst moved
        exact careful_of_same exist ⟨fun _ => counts.held (by rw [pc]; trivial),
          fun _ => counts.sent (by rw [pc]; trivial)⟩
      | false => exact abandoned _ moved.symm not_false not_false
  | inserting =>
    cases tick with
    | abandon =>
      simp only [uploadStep, pc, Option.some.injEq] at moved
      exact abandoned _ moved.symm not_false not_false
    | go answer =>
      simp only [uploadStep, pc, Option.some.injEq] at moved
      subst moved
      exact ⟨exist, ⟨fun _ => counts.held (by rw [pc]; trivial),
        fun _ => counts.sent (by rw [pc]; trivial)⟩, .refl _⟩
  | inserted =>
    cases tick with
    | abandon =>
      simp only [uploadStep, pc, Option.some.injEq] at moved
      exact abandoned _ moved.symm not_false not_false
    | go answer =>
      simp only [uploadStep, pc, Option.some.injEq] at moved
      subst moved
      exact careful_commit exist counts pc
  | cleaning cleanup candidates =>
    cases tick with
    | abandon => simp [uploadStep, pc] at moved
    | go keeps =>
      cases candidates with
      | nil =>
        simp only [uploadStep, pc, Option.some.injEq] at moved
        exact abandoned _ moved.symm not_false not_false
      | cons id candidates =>
        simp only [uploadStep, pc] at moved
        split at moved <;>
          exact abandoned _ (Option.some.inj moved).symm not_false not_false
  | removing cleanup id candidates => exact absurd pc (notUnlink cleanup id candidates)
  | forgetting cleanup id candidates =>
    cases tick with
    | abandon => simp [uploadStep, pc] at moved
    | go answer =>
      simp only [uploadStep, pc, Option.some.injEq] at moved
      subst moved
      exact ⟨exist, counts_of_dead not_false not_false, fun _ found => found⟩
  | committed | failed => simp [uploadStep, pc] at moved

end

theorem uploadStep_unlink {cleanup : Cleanup} {candidates : List BlockId}
    (removing : thread.pc = .removing cleanup id candidates)
    (moved : uploadStep content tick state thread = some after) :
    after = ({ state with store := state.store.unlink id },
      { thread with pc := .forgetting cleanup id candidates }) := by
  cases tick with
  | abandon => simp [uploadStep, removing] at moved
  | go answer =>
    simp only [uploadStep, removing, Option.some.injEq] at moved
    exact moved.symm

theorem unlink_of_ne {other : BlockId} (different : other ≠ id) :
    (state.store.unlink id).files other = state.store.files other :=
  Function.update_of_ne different _ _

/-- In a run whose steps hold, HEAD and the live uploads count on blocks that exist. -/
theorem counted_blocks_exist {state : Threads (UploadState BlockId) (UploadThread BlockId)}
    (reached : (uploadSystem content).Reachable cleanupGuard state) :
    CommittedBlocksExist state.shared ∧ ∀ thread ∈ state.running, Counts state.shared thread := by
  unfold uploadSystem at reached
  refine Program.threads_invariant_of_guard (I := CommittedBlocksExist) (O := Counts)
    ?_ ?_ ?_ ?_ reached
  · intro shared job _
    exact ⟨fun _ id listed => absurd listed List.not_mem_nil, fun sent => absurd sent not_false⟩
  · intro before request exist counts _
    cases request with
    | forget id =>
      exact ⟨exist, fun thread running => ⟨(counts thread running).held,
        (counts thread running).sent⟩⟩
  · intro before index thread tick after exist counts found met moved
    have own := counts thread (List.mem_of_getElem? found)
    have allowed := met thread found
    by_cases unlinks : ∃ cleanup id candidates, thread.pc = .removing cleanup id candidates
    · obtain ⟨cleanup, id, candidates, removing⟩ := unlinks
      rw [removing] at allowed
      obtain ⟨notListed, notHeld⟩ : Unwanted before id := allowed
      obtain rfl := uploadStep_unlink removing moved
      refine ⟨?_, counts_of_dead not_false not_false, ?_⟩
      · intro object listed other isBlock
        have different : other ≠ id := by
          rintro rfl
          exact notListed object listed isBlock
        change ((before.shared.store.unlink id).files other).isSome
        rw [unlink_of_ne different]
        exact exist object listed other isBlock
      · intro other running
        refine ⟨fun live block held => ?_, (counts other running).sent⟩
        have different : block ≠ id := by
          rintro rfl
          exact notHeld other running live held
        change ((before.shared.store.unlink id).files block).isSome
        rw [unlink_of_ne different]
        exact (counts other running).held live block held
    · have trusted : ∀ id rest, thread.pc = .sending (.write id :: rest) →
          (before.shared.store.existsCache id).isSome →
            (before.shared.store.files id).isSome := by
        intro id rest sending
        rw [sending] at allowed
        exact allowed
      have notUnlink : ∀ cleanup id candidates,
          thread.pc ≠ .removing cleanup id candidates := by
        intro cleanup id candidates removing
        exact unlinks ⟨cleanup, id, candidates, removing⟩
      have careful := uploadStep_careful exist own trusted notUnlink moved
      exact ⟨careful.exist, careful.counts, fun other running =>
        (counts other running).grow careful.grows⟩
  · intro shared exist
    exact exist

/-- No cleanup destroys a block of a committed file. -/
theorem committed_blocks_exist {state : Threads (UploadState BlockId) (UploadThread BlockId)}
    (reached : (uploadSystem content).Reachable cleanupGuard state) :
    CommittedBlocksExist state.shared :=
  (counted_blocks_exist reached).1

end Runs

def emptyRepository : Threads (UploadState Nat) (UploadThread Nat) :=
  ⟨⟨.empty, [], []⟩, []⟩

def oneBlock (cleanup : Cleanup) : UploadJob Nat :=
  ⟨[.write 7], [7], cleanup, fun _ => false⟩

instance (pc : UploadPc Nat) : Decidable pc.Live :=
  match pc with
  | .sending _ | .checkingQuota | .inserting | .inserted => .isTrue trivial
  | .committed | .cleaning _ _ | .removing _ _ _ | .forgetting _ _ _ | .failed => .isFalse id

instance (state : Threads (UploadState Nat) (UploadThread Nat)) (id : Nat) :
    Decidable (Unwanted state id) :=
  inferInstanceAs (Decidable (_ ∧ _))

def cleanupCheck (state : Threads (UploadState Nat) (UploadThread Nat)) :
    ThreadAction (UploadRequest Nat) (UploadJob Nat) UploadTick → Bool
  | .advance index _ => state.running[index]?.all fun thread =>
    match thread.pc with
    | .removing _ id _ => decide (Unwanted state id)
    | .sending (.write id :: _) =>
      (state.shared.store.existsCache id).isNone || (state.shared.store.files id).isSome
    | _ => true
  | _ => true

theorem cleanupGuard_of_check (state : Threads (UploadState Nat) (UploadThread Nat))
    (action : ThreadAction (UploadRequest Nat) (UploadJob Nat) UploadTick)
    (checked : cleanupCheck state action = true) : cleanupGuard state action := by
  cases action with
  | serve | begin => trivial
  | advance index tick =>
    intro thread running
    rw [cleanupCheck, running, Option.all_some] at checked
    split
    · rename_i isPc
      rw [isPc] at checked
      exact of_decide_eq_true checked
    · rename_i isPc
      rw [isPc, Bool.or_eq_true, Option.isNone_iff_eq_none] at checked
      intro cached
      exact checked.resolve_left (Option.ne_none_iff_isSome.mpr cached)
    · trivial

/-- One upload commits the block 7; another one finds it, writes 8 and fails its quota check, and
its cleanup removes 8. -/
def uploadsAroundCleanup : List (ThreadAction (UploadRequest Nat) (UploadJob Nat) UploadTick) :=
  [.begin (oneBlock .checked), .begin ⟨[.write 7, .write 8], [7, 8], .checked, fun _ => false⟩,
    .advance 0 (.go true), .advance 1 (.go true), .advance 0 (.go true), .advance 1 (.go true),
    .advance 0 (.go true), .advance 1 (.go true), .advance 0 (.go true), .advance 1 (.go false),
    .advance 0 (.go true), .advance 1 (.go false), .advance 1 (.go true), .advance 1 (.go true),
    .advance 1 (.go true)]

theorem committed_blocks_exist_beside : ∃ state : Threads (UploadState Nat) (UploadThread Nat),
    state.shared.head = [[7]] ∧ state.shared.store.files 8 = none ∧
      CommittedBlocksExist state.shared := by
  have idle : (uploadSystem fun _ => [1, 2, 3]).Reachable cleanupGuard emptyRepository :=
    .init ⟨fun _ listed => absurd listed List.not_mem_nil, rfl⟩
  have ran : ((uploadSystem fun _ => [1, 2, 3]).runChecked cleanupCheck uploadsAroundCleanup
      emptyRepository).map (fun state => (state.shared.head, state.shared.store.files 8)) =
        some ([[7]], none) := by decide
  obtain ⟨state, run, left⟩ := Option.map_eq_some_iff.mp ran
  obtain ⟨isHead, gone⟩ := Prod.mk.inj left
  exact ⟨state, isHead, gone, committed_blocks_exist
    (System.reachable_of_runChecked cleanupGuard_of_check _ _ _ idle run)⟩

/-- Two uploads of one block: the second finds the block of the first and commits, then
the first fails its quota check. -/
def unchargedRun : List (ThreadAction (UploadRequest Nat) (UploadJob Nat) UploadTick) :=
  [.begin (oneBlock .unchecked), .begin (oneBlock .checked), .advance 0 (.go true),
    .advance 1 (.go true), .advance 1 (.go true), .advance 1 (.go true), .advance 1 (.go true),
    .advance 1 (.go true), .advance 0 (.go true), .advance 0 (.go false), .advance 0 (.go true),
    .advance 0 (.go true), .advance 0 (.go true), .advance 0 (.go true)]

/-- The cleanup that does not look for references destroys the committed block. -/
theorem unchecked_cleanup_destroys :
    ¬ ∀ state : Threads (UploadState Nat) (UploadThread Nat),
      (uploadSystem fun _ => [1, 2, 3]).Reachable (fun _ _ => True) state →
      (∀ thread ∈ state.running, thread.pc.Finished) → CommittedBlocksExist state.shared := by
  intro all
  have idle : (uploadSystem fun _ => [1, 2, 3]).Reachable (fun _ _ => True) emptyRepository :=
    .init ⟨fun _ listed => absurd listed List.not_mem_nil, rfl⟩
  cases run : (uploadSystem fun _ => [1, 2, 3]).runChecked (fun _ _ => true) unchargedRun
      emptyRepository with
  | none => exact absurd (congrArg Option.isSome run) (by decide)
  | some state =>
    have reached := System.reachable_of_runChecked (fun _ _ _ => trivial) unchargedRun
      emptyRepository state idle run
    cases run
    have finished := all _ reached (by
      intro thread running
      rcases List.mem_cons.mp running with rfl | running
      · trivial
      · rw [List.mem_singleton.mp running]
        trivial)
    have present := finished [7] List.mem_cons_self 7 List.mem_cons_self
    exact absurd present (by decide)

end Nanofile
