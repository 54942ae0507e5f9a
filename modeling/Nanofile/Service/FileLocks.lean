import Nanofile.Fs.Resolve
import Nanofile.Service.SyncStep

/-!
# File locks

A lock is a row of `locked_files`: a path and one owner.  `lock_file` canonicalizes
the path it is sent, `lock_file_sync` records it as it came, and an upload is checked
by a walk of its tree that spells paths without a leading slash.
-/

set_option autoImplicit false

namespace Nanofile

open Nanofile.Lib

variable {Oid : Type} [DecidableEq Oid] [Digests Oid]

/-- `lock_file` by its two operations, and the two requests of the sync protocol. -/
inductive LockRequest where
  | lockFile (path : String) (userId : Int)
  | unlockFile (path : String)
  | lockFileSync (path : String) (userId : Int)
  | unlockFileSync (path : String)

def isLocked (lockedFiles : List (String × Int)) (path : String) : Bool :=
  lockedFiles.any fun row => row.1 = path

/-- A file that is locked already keeps its owner, and the request succeeds. -/
def lockFile (lockedFiles : List (String × Int)) (path : String) (userId : Int) :
    List (String × Int) :=
  if isLocked lockedFiles path then lockedFiles else lockedFiles ++ [(path, userId)]

/-- A file that is locked already gets the new owner. -/
def lockFileSync (lockedFiles : List (String × Int)) (path : String) (userId : Int) :
    List (String × Int) :=
  if isLocked lockedFiles path then
    lockedFiles.map fun row => if row.1 = path then (path, userId) else row
  else lockedFiles ++ [(path, userId)]

/-- `delete_by_repo_and_path`, whoever the owner is. -/
def unlockPath (locks : List (String × Int)) (path : String) : List (String × Int) :=
  locks.filter fun row => row.1 ≠ path

/-- A library and its locks.  `held` lists what the requests have promised: every lock
one of them took and none has released since.  The code keeps `lockedFiles` alone. -/
structure LockedLibrary (Oid : Type) where
  repo : Repo Oid
  lockedFiles : List (String × Int)
  held : List (String × Int)

def serveLock (library : LockedLibrary Oid) : LockRequest → LockedLibrary Oid
  | .lockFile path userId =>
    match safeNormalizePath path with
    | .error _ => library
    | .ok path => { library with
        lockedFiles := lockFile library.lockedFiles path userId
        held := (path, userId) :: library.held }
  | .unlockFile path =>
    match safeNormalizePath path with
    | .error _ => library
    | .ok path => { library with
        lockedFiles := unlockPath library.lockedFiles path
        held := unlockPath library.held path }
  | .lockFileSync path userId => { library with
      lockedFiles := lockFileSync library.lockedFiles path userId
      held := (path, userId) :: library.held }
  | .unlockFileSync path => { library with
      lockedFiles := unlockPath library.lockedFiles path
      held := unlockPath library.held path }

def LockRequest.takes : LockRequest → Option (String × Int)
  | .lockFile path userId => (safeNormalizePath path).toOption.map fun path => (path, userId)
  | .lockFileSync path userId => some (path, userId)
  | _ => none

section

omit [DecidableEq Oid] [Digests Oid]

theorem serveLock_repo (library : LockedLibrary Oid) (request : LockRequest) :
    (serveLock library request).repo = library.repo := by
  cases request with
  | lockFile path userId | unlockFile path =>
    simp only [serveLock]
    split <;> rfl
  | lockFileSync path userId | unlockFileSync path => rfl

theorem mem_held_serveLock {library : LockedLibrary Oid} {request : LockRequest}
    {lock : String × Int} (member : lock ∈ (serveLock library request).held) :
    lock ∈ library.held ∨ request.takes = some lock := by
  have released : ∀ path, lock ∈ unlockPath library.held path → lock ∈ library.held :=
    fun path kept => (List.mem_filter.mp kept).1
  cases request with
  | lockFile path userId =>
    simp only [serveLock] at member
    split at member
    · exact Or.inl member
    · rename_i path' normal
      rcases List.mem_cons.mp member with rfl | old
      · refine Or.inr ?_
        rw [LockRequest.takes, normal]
        rfl
      · exact Or.inl old
  | unlockFile path =>
    simp only [serveLock] at member
    split at member
    · exact Or.inl member
    · exact Or.inl (released _ member)
  | lockFileSync path userId =>
    rcases List.mem_cons.mp member with rfl | old
    · exact Or.inr rfl
    · exact Or.inl old
  | unlockFileSync path => exact Or.inl (released _ member)

def OnePerPath (lockedFiles : List (String × Int)) : Prop := (lockedFiles.map Prod.fst).Nodup

theorem serveLock_onePerPath {library : LockedLibrary Oid} (request : LockRequest)
    (one : OnePerPath library.lockedFiles) :
    OnePerPath (serveLock library request).lockedFiles := by
  have unlocked : ∀ path, OnePerPath (unlockPath library.lockedFiles path) :=
    fun path => one.sublist (List.filter_sublist.map _)
  have added : ∀ path userId, isLocked library.lockedFiles path = false →
      OnePerPath (library.lockedFiles ++ [(path, userId)]) := by
    intro path userId isNew
    rw [OnePerPath, List.map_append]
    refine List.nodup_append.mpr ⟨one, List.nodup_singleton _, fun other listed new isPath => ?_⟩
    obtain ⟨row, isRow, rfl⟩ := List.mem_map.mp listed
    rw [List.mem_singleton.mp isPath]
    simpa using List.any_eq_false.mp isNew row isRow
  cases request with
  | lockFile path userId =>
    simp only [serveLock, lockFile]
    split
    · exact one
    · split
      · exact one
      · exact added _ userId (Bool.eq_false_iff.mpr ‹_›)
  | unlockFile path =>
    simp only [serveLock]
    split
    · exact one
    · exact unlocked _
  | lockFileSync path userId =>
    simp only [serveLock, lockFileSync]
    split
    · have sameKey : (Prod.fst ∘ fun row : String × Int =>
          if row.1 = path then (path, userId) else row) = Prod.fst := by
        funext row
        by_cases same : row.1 = path <;> simp [same]
      rw [OnePerPath, List.map_map, sameKey]
      exact one
    · exact added path userId (Bool.eq_false_iff.mpr ‹_›)
  | unlockFileSync path => exact unlocked path

end

theorem lockOwner_mem {lockedFiles : List (String × Int)} {path : String} {owner : Int}
    (owned : lockOwner lockedFiles path = some owner) : (path, owner) ∈ lockedFiles := by
  obtain ⟨row, found, rfl⟩ := Option.map_eq_some_iff.mp owned
  have isPath : row.1 = path := by simpa using List.find?_some found
  rw [← isPath]
  exact List.mem_reverse.mp (List.mem_of_find?_eq_some found)

theorem lockOwner_of_mem {lockedFiles : List (String × Int)} (one : OnePerPath lockedFiles)
    {path : String} {owner : Int} (listed : (path, owner) ∈ lockedFiles) :
    lockOwner lockedFiles path = some owner := by
  have isSome : (lockOwner lockedFiles path).isSome := by
    rw [lockOwner, Option.isSome_map, List.find?_isSome]
    exact ⟨(path, owner), List.mem_reverse.mpr listed, decide_eq_true rfl⟩
  obtain ⟨other, owned⟩ := Option.isSome_iff_exists.mp isSome
  have same := List.inj_on_of_nodup_map one (lockOwner_mem owned) listed rfl
  rw [owned, (Prod.mk.inj same).2]

/-- What is stored in the tree under a path spelled without a leading slash. -/
inductive SpelledAs (store : FsStore Oid) (rootId : Oid) : String → Oid → Prop
  | root : SpelledAs store rootId "" rootId
  | entry {path : String} {dirId : Oid} {data : FsDirData Oid} {entry : DirEntryData Oid}
      (above : SpelledAs store rootId path dirId) (stored : dirId ≠ emptySha1)
      (read : store.find dirId = some (.dir data)) (listed : entry ∈ data.dirents) :
      SpelledAs store rootId (if path = "" then entry.name else path ++ "/" ++ entry.name) entry.id

/-- The path that is recorded for a lock of another user is spelled without a leading slash and
the tree has a file there that is not empty. -/
def RecordedAsSpelled (store : FsStore Oid) (lockedFiles : List (String × Int)) (userId : Int)
    (rootId : Oid) : Prop :=
  ∃ lock ∈ lockedFiles, lock.2 ≠ userId ∧ ∃ fsId data, SpelledAs store rootId lock.1 fsId ∧
    fsId ≠ emptySha1 ∧ store.find fsId = some (.file data)

/-- The check meets, under this spelling of its path, a file another user owns the lock
of.  The sentinel is no stored file, so an emptied file is not met. -/
def Meets (store : FsStore Oid) (lockedFiles : List (String × Int)) (userId : Int)
    (rootId : Oid) (path : String) : Prop :=
  ∃ fsId data owner,
    Visited (lockFrame store lockedFiles userId) [⟨rootId, ""⟩] ⟨fsId, path⟩ ∧
    fsId ≠ emptySha1 ∧ store.find fsId = some (.file data) ∧
    lockOwner lockedFiles path = some owner ∧ owner ≠ userId

variable {failure : AppError} {store : FsStore Oid} {userId : Int}

theorem lockFrame_error_iff {lockedFiles : List (String × Int)} {frame : FullFrame Oid} :
    lockFrame store lockedFiles userId frame = .error failure ↔
      failure = .locked frame.path ∧ frame.fsId ≠ emptySha1 ∧
        ∃ data owner, store.find frame.fsId = some (.file data) ∧
          lockOwner lockedFiles frame.path = some owner ∧ owner ≠ userId := by
  unfold lockFrame
  by_cases sentinel : frame.fsId = emptySha1
  · simp [sentinel]
  rw [if_neg sentinel]
  cases found : store.find frame.fsId with
  | none => simp
  | some object =>
    cases object with
    | dir data => simp
    | file data =>
      cases owned : lockOwner lockedFiles frame.path with
      | none => simp
      | some owner =>
        by_cases mine : owner = userId
        · simp [mine]
        · simp [mine, sentinel]
          exact eq_comm

variable {env : SyncEnv Oid} {rootId : Oid}

theorem visited_iff {lockedFiles : List (String × Int)} {fsId : Oid} {path : String} :
    Visited (lockFrame store lockedFiles userId) [⟨rootId, ""⟩] ⟨fsId, path⟩ ↔
      SpelledAs store rootId path fsId := by
  constructor
  · have spelled : ∀ frame, Visited (lockFrame store lockedFiles userId) [⟨rootId, ""⟩] frame →
        SpelledAs store rootId frame.path frame.fsId := by
      intro frame visited
      induction visited with
      | start listed =>
        rw [List.mem_singleton.mp listed]
        exact .root
      | @down parent node children _ read listed ih =>
        by_cases sentinel : parent.fsId = emptySha1
        · rw [lockFrame, if_pos sentinel] at read
          cases read
          cases listed
        · rw [lockFrame, if_neg sentinel] at read
          split at read
          · cases read
            cases listed
          · split at read
            · cases read
              cases listed
            · split at read <;> cases read
              cases listed
          · rename_i data found
            cases read
            obtain ⟨entry, isEntry, rfl⟩ := List.mem_map.mp listed
            exact .entry ih sentinel found isEntry
    exact spelled ⟨fsId, path⟩
  · intro spelled
    induction spelled with
    | root => exact .start (List.mem_singleton.mpr rfl)
    | @entry path dirId data entry _ stored read listed ih =>
      have visited : lockFrame store lockedFiles userId ⟨dirId, path⟩ = .ok
          (data.dirents.map fun entry => ⟨entry.id, childOf path entry.name⟩) := by
        rw [lockFrame, if_neg stored]
        dsimp only
        rw [read]
      exact .down ih visited (List.mem_map.mpr ⟨entry, listed, rfl⟩)

theorem recordedAsSpelled_of_meets {lockedFiles : List (String × Int)} {path : String}
    (meets : Meets store lockedFiles userId rootId path) :
    RecordedAsSpelled store lockedFiles userId rootId := by
  obtain ⟨fsId, data, owner, visited, stored, found, owned, other⟩ := meets
  exact ⟨(path, owner), lockOwner_mem owned, other, fsId, data, visited_iff.mp visited, stored,
    found⟩

/-- Some path is met exactly where a lock is recorded in the spelling of the walk. -/
theorem meets_iff {lockedFiles : List (String × Int)} (one : OnePerPath lockedFiles) :
    (∃ path, Meets store lockedFiles userId rootId path) ↔
      RecordedAsSpelled store lockedFiles userId rootId := by
  constructor
  · rintro ⟨path, meets⟩
    exact recordedAsSpelled_of_meets meets
  · rintro ⟨⟨path, owner⟩, listed, other, fsId, data, spelled, stored, found⟩
    exact ⟨path, fsId, data, owner, visited_iff.mpr spelled, stored, found,
      lockOwner_of_mem one listed, other⟩

theorem checkCommitFileLocks_ok (passed : checkCommitFileLocks env store rootId userId = .ok ())
    (path : String) : ¬ Meets store env.lockedFiles userId rootId path := by
  rintro ⟨fsId, data, owner, visited, stored, found, owned, other⟩
  unfold checkCommitFileLocks at passed
  split at passed
  · rename_i skipped
    rcases skipped with sentinel | noLocks
    · -- Nothing is below the sentinel.
      have isRoot : (⟨fsId, path⟩ : FullFrame Oid) = ⟨rootId, ""⟩ := by
        clear found owned stored
        generalize (⟨fsId, path⟩ : FullFrame Oid) = frame at visited
        induction visited with
        | start listed => exact List.mem_singleton.mp listed
        | down above read listed ih =>
          rw [ih, lockFrame, if_pos sentinel] at read
          cases read
          cases listed
      cases isRoot
      exact stored sentinel
    · rw [noLocks] at owned
      cases owned
  · obtain ⟨children, read⟩ := Visited.read_of_checked passed visited
    have failed : lockFrame store env.lockedFiles userId ⟨fsId, path⟩ = .error (.locked path) :=
      lockFrame_error_iff.mpr ⟨rfl, stored, data, owner, found, owned, other⟩
    rw [read] at failed
    cases failed

variable {path : String}

theorem checkCommitFileLocks_locked
    (rejected : checkCommitFileLocks env store rootId userId = .error (.locked path)) :
    Meets store env.lockedFiles userId rootId path := by
  unfold checkCommitFileLocks at rejected
  split at rejected
  · cases rejected
  · rcases Visited.of_failed rejected with deep | wide | ⟨⟨fsId, spelled⟩, visited, failed⟩
    · cases deep
    · cases wide
    · obtain ⟨isPath, stored, data, owner, found, owned, other⟩ := lockFrame_error_iff.mp failed
      cases isPath
      exact ⟨fsId, data, owner, visited, stored, found, owned, other⟩

theorem diffFrames_error :
    ∀ {frames : List (DiffFrame Oid)}, diffFrames store frames = .error failure →
      failure = .blockMissing := by
  intro frames
  induction frames with
  | nil => simp [diffFrames]
  | cons frame rest ih =>
    intro run
    rw [diffFrames] at run
    cases here : diffFrame store frame with
    | error failed =>
      rw [here] at run
      cases run
      simp only [diffFrame] at here
      split_ifs at here
      cases here
      rfl
    | ok first =>
      cases others : diffFrames store rest with
      | error failed =>
        rw [here, others] at run
        cases run
        exact ih others
      | ok diff =>
        rw [here, others] at run
        cases run

variable {held : Oid → Bool}

theorem checkPending_error :
    ∀ {pending : List (Oid × String)}, checkPending store held pending = .error failure →
      failure = .blockMissing := by
  intro pending
  induction pending with
  | nil => simp [checkPending]
  | cons first rest ih =>
    intro run
    rw [checkPending] at run
    cases read : fileBatch store first.1 with
    | none =>
      rw [read] at run
      simp only at run
      split at run
      · cases run
        rfl
      · exact ih run
    | some file =>
      rw [read] at run
      simp only at run
      cases others : checkPending store held rest with
      | error failed =>
        rw [others] at run
        cases run
        exact ih others
      | ok missing =>
        rw [others] at run
        cases run

theorem fullLevel_error :
    ∀ {frames : List (FullFrame Oid)} {sofar : List String × Int},
      fullLevel store held frames sofar = .error failure → failure = .blockMissing := by
  intro frames
  induction frames with
  | nil => simp [fullLevel]
  | cons frame rest ih =>
    intro sofar run
    rw [fullLevel] at run
    cases here : fullFrame store held frame with
    | error failed =>
      rw [here] at run
      cases run
      unfold fullFrame at here
      split at here
      · cases here
      · split at here
        · cases here
          rfl
        · cases here
        · cases here
    | ok first =>
      rw [here] at run
      simp only at run
      cases others : fullLevel store held rest
          (sofar.1 ++ first.2.1, sofar.2 + first.2.2) with
      | error failed =>
        rw [others] at run
        cases run
        exact ih others
      | ok result =>
        rw [others] at run
        cases run

theorem checkCommitBlocks_error {limits : Limits} {newRoot : Oid} {baseRoot : Option Oid}
    (run : checkCommitBlocks limits store held newRoot baseRoot = .error failure) :
    failure = limits.tooDeep ∨ failure = limits.tooWide ∨ failure = .blockMissing := by
  unfold checkCommitBlocks at run
  cases baseRoot with
  | none =>
    rcases levelWalk_failed (I := fun _ _ => True) (fun _ _ _ _ _ _ => trivial) run trivial with
      deep | wide | ⟨frontier, sofar, -, failed⟩
    · exact Or.inl deep
    · exact Or.inr (Or.inl wide)
    · exact Or.inr (Or.inr (fullLevel_error failed))
  | some base =>
    simp only at run
    split at run
    · cases run
    · rcases levelWalk_failed (I := fun _ _ => True) (fun _ _ _ _ _ _ => trivial) run trivial
        with deep | wide | ⟨frontier, sofar, -, failed⟩
      · exact Or.inl deep
      · exact Or.inr (Or.inl wide)
      · refine Or.inr (Or.inr ?_)
        unfold diffLevel at failed
        cases diffed : diffFrames store frontier with
        | error other =>
          rw [diffed] at failed
          cases failed
          exact diffFrames_error diffed
        | ok diff =>
          rw [diffed] at failed
          simp only at failed
          cases pending : checkPending store held diff.pending with
          | error other =>
            rw [pending] at failed
            cases failed
            exact checkPending_error pending
          | ok missing =>
            rw [pending] at failed
            cases failed

theorem validateUpload_unlocked {repo : Repo Oid} {newHead : Oid} {upload : Upload Oid}
    (run : validateUpload env repo newHead userId = .ok upload) (path : String) :
    ¬ Meets repo.fsObjects env.lockedFiles userId upload.newCommit.rootId path := by
  simp only [validateUpload, except_bind_ok_iff] at run
  obtain ⟨newCommit, -, _, -, _, -, _, -, ⟨⟩, unlocked, _, -, finish⟩ := run
  cases finish
  exact checkCommitFileLocks_ok unlocked path

theorem checkRoot_error : checkRoot store rootId ≠ .error (.locked path) := by
  unfold checkRoot
  split
  · simp
  · split <;> simp

theorem validateUpload_locked {repo : Repo Oid} {newHead : Oid}
    (run : validateUpload env repo newHead userId = .error (.locked path)) :
    ∃ row, repo.commits.find newHead = some row ∧
      Meets repo.fsObjects env.lockedFiles userId row.rootId path := by
  simp only [validateUpload, except_bind_error_iff, ensure_eq_error_iff, okOr_eq_error_iff] at run
  rcases run with ⟨-, ⟨⟩⟩ | ⟨row, found, run⟩
  refine ⟨row, okOr_eq_ok_iff.mp found, ?_⟩
  rcases run with unrooted | ⟨_, -, run⟩
  · exact absurd unrooted checkRoot_error
  rcases run with unchecked | ⟨_, -, run⟩
  · rcases checkCommitBlocks_error unchecked with deep | wide | missing
    · cases deep
    · cases wide
    · cases missing
  rcases run with ⟨-, ⟨⟩⟩ | ⟨_, -, run⟩
  rcases run with rejected | ⟨_, -, run⟩
  · exact checkCommitFileLocks_locked rejected
  · rcases run with ⟨-, ⟨⟩⟩ | ⟨_, -, ⟨⟩⟩

end Nanofile
