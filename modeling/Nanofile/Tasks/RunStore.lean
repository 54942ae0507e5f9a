import Mathlib.Algebra.Ring.Nat
import Mathlib.Data.List.Sort
import Mathlib.Logic.Basic

/-!
# The table of job runs

A job's identity, and the part of its policy that submission, execution and recovery read.
Admission and the insert of a run are one step; every other access of the table is a step of its
own.  Active runs are never evicted.
-/

set_option autoImplicit false

namespace Nanofile

inductive JobKey where
  | copy
  | move
  | reindex
  | indexFiles
  | tokenExpiryCheck
  | passwordCacheCleanup
  | expiredDataCleanup
  | garbageCollection
  | blockEncryptionConvert
  | indexCommit
  | indexBackfill
  | faceTagScan
  | faceTagBackfill
  | zipTaskCleanup
deriving DecidableEq, Repr

namespace JobKey

def all : List JobKey :=
  [.copy, .move, .reindex, .indexFiles, .tokenExpiryCheck, .passwordCacheCleanup,
    .expiredDataCleanup, .garbageCollection, .blockEncryptionConvert, .indexCommit,
    .indexBackfill, .faceTagScan, .faceTagBackfill, .zipTaskCleanup]

def asStr : JobKey → String
  | .copy => "copy"
  | .move => "move"
  | .reindex => "reindex"
  | .indexFiles => "index-files"
  | .tokenExpiryCheck => "token-expiry-check"
  | .passwordCacheCleanup => "password-cache-cleanup"
  | .expiredDataCleanup => "expired-data-cleanup"
  | .garbageCollection => "gc"
  | .blockEncryptionConvert => "block-encryption-convert"
  | .indexCommit => "index-commit"
  | .indexBackfill => "index-backfill"
  | .faceTagScan => "face-tag-scan"
  | .faceTagBackfill => "face-tag-backfill"
  | .zipTaskCleanup => "zip-task-cleanup"

def fromSlug (slug : String) : Option JobKey := all.find? fun key => key.asStr = slug

theorem fromSlug_asStr (key : JobKey) : fromSlug key.asStr = some key := by
  cases key <;> decide

end JobKey

inductive OverlapPolicy where
  | skip
  | queue
  | allow
deriving DecidableEq, Repr

inductive RetryPolicy where
  | never
  | fixed (attempts delaySecs : Nat)
  | backoff (attempts baseSecs maxSecs : Nat)
deriving DecidableEq, Repr

namespace RetryPolicy

def attempts : RetryPolicy → Nat
  | .never => 1
  | .fixed attempts _ => attempts
  | .backoff attempts _ _ => attempts

def delaySecs (attempt : Nat) : RetryPolicy → Nat
  | .never => 0
  | .fixed _ delaySecs => delaySecs
  | .backoff _ baseSecs maxSecs => min (baseSecs * 2 ^ min (attempt - 1) 20) maxSecs

end RetryPolicy

inductive Dedup where
  | none
  | byParams (field : String)
deriving DecidableEq, Repr

inductive Durability where
  | memory
  | audit
  | durable
deriving DecidableEq, Repr

inductive History where
  | everyRun
  | notable
deriving DecidableEq, Repr

structure JobSpec where
  name : String
  maxConcurrent : Nat
  queueDepth : Nat
  retry : RetryPolicy
  dedup : Dedup
  durability : Durability
  history : History
  resumable : Bool
  cancellable : Bool
  chunkable : Bool
deriving DecidableEq, Repr

namespace JobSpec

/-- A job that is kept in memory only is never recorded. -/
def keepsRecord (spec : JobSpec) : Bool := spec.durability ≠ .memory

/-- A row is written at submission, not only at the end. -/
def journaledFromTheStart (spec : JobSpec) : Bool :=
  spec.keepsRecord && spec.history = .everyRun

end JobSpec

namespace Catalog

def clientJob (name : String) : JobSpec where
  name := name
  maxConcurrent := 8
  queueDepth := 0
  retry := .never
  dedup := .none
  durability := .memory
  history := .everyRun
  resumable := false
  cancellable := false
  chunkable := false

def housekeeping (name : String) : JobSpec where
  name := name
  maxConcurrent := 1
  queueDepth := 0
  retry := .never
  dedup := .none
  durability := .audit
  history := .everyRun
  resumable := true
  cancellable := false
  chunkable := false

/-- A pass that fires far more often than it has work. -/
def notable (spec : JobSpec) : JobSpec := { spec with history := .notable }

def policy : JobKey → JobSpec
  | .copy => clientJob "copy"
  | .move => clientJob "move"
  | .reindex =>
    { clientJob "reindex" with
      maxConcurrent := 4
      dedup := .byParams "repo_id"
      durability := .durable
      resumable := true
      cancellable := true
      chunkable := true }
  | .indexFiles =>
    { clientJob "index files" with maxConcurrent := 4, cancellable := true, chunkable := true }
  | .tokenExpiryCheck => notable (housekeeping "token expiry check")
  | .passwordCacheCleanup => notable (housekeeping "password cache cleanup")
  | .expiredDataCleanup => notable (housekeeping "expired data cleanup")
  | .indexCommit => notable (housekeeping "index commit")
  | .indexBackfill => { notable (housekeeping "index backfill") with chunkable := true }
  | .faceTagScan =>
    { clientJob "face-tag scan" with maxConcurrent := 2, cancellable := true, chunkable := true }
  | .faceTagBackfill => { notable (housekeeping "face-tag backfill") with chunkable := true }
  | .zipTaskCleanup => notable (housekeeping "zip task cleanup")
  | .garbageCollection => { housekeeping "gc" with chunkable := true }
  | .blockEncryptionConvert =>
    { housekeeping "block encryption convert" with chunkable := true }

end Catalog

abbrev RunId := Nat

inductive JobState where
  | queued
  | running
  /-- Parked at a checkpoint, still active. -/
  | yielded
  | succeeded
  | failed (error : String)
  | cancelled
  | timedOut
  | interrupted
deriving DecidableEq, Repr

namespace JobState

def isTerminal : JobState → Bool
  | .succeeded | .failed _ | .cancelled | .timedOut | .interrupted => true
  | _ => false

def isActive : JobState → Bool
  | .queued | .running | .yielded => true
  | _ => false

def asStr : JobState → String
  | .queued => "queued"
  | .running => "running"
  | .yielded => "yielded"
  | .succeeded => "succeeded"
  | .failed _ => "failed"
  | .cancelled => "cancelled"
  | .timedOut => "timed_out"
  | .interrupted => "interrupted"

theorem isActive_eq_not_isTerminal (state : JobState) : state.isActive = !state.isTerminal := by
  cases state <;> rfl

end JobState

structure Progress where
  done : Nat
  total : Option Nat
  message : String
deriving DecidableEq, Repr

inductive Origin where
  | schedule
  | request
  | operator
  | startup
deriving DecidableEq, Repr

structure Outcome where
  message : String
  processed : Option Nat
  idle : Bool
deriving DecidableEq, Repr

structure JobRun (Value : Type) where
  id : RunId
  key : JobKey
  origin : Origin
  owner : Option Int
  state : JobState
  progress : Progress
  createdAt : Int
  startedAt : Option Int
  finishedAt : Option Int
  attempt : Nat
  params : Option Value
  summary : String
  details : List (String × Value)
deriving DecidableEq, Repr

/-- The operations of JSON values, which the table and the journal leave to a library. -/
structure JsonValue (Value : Type) where
  null : Value
  get : Value → String → Option Value
  toText : Value → String
  ofText : String → Option Value

variable {Value : Type}

namespace JobRun

def queued (id : RunId) (key : JobKey) (origin : Origin) (owner : Option Int) (params : Value)
    (summary : String) (now : Int) : JobRun Value where
  id := id
  key := key
  origin := origin
  owner := owner
  state := .queued
  progress := ⟨0, none, ""⟩
  createdAt := now
  startedAt := none
  finishedAt := none
  attempt := 1
  params := some params
  summary := summary
  details := []

def maxDetailKeys : Nat := 16

def setDetail (key : String) (value : Value) (run : JobRun Value) : JobRun Value :=
  if run.details.any fun detail => detail.1 = key then
    { run with details := run.details.map fun detail =>
        if detail.1 = key then (key, value) else detail }
  else if run.details.length < maxDetailKeys then
    { run with details := run.details ++ [(key, value)] }
  else run

def dropParams (run : JobRun Value) : JobRun Value := { run with params := none }

/-- The time by which a finished run is old. -/
def endedAt (run : JobRun Value) : Int := run.finishedAt.getD run.createdAt

end JobRun

structure RunLimits where
  maxRetained : Nat
  maxRetainedBytes : Nat
  terminalTtlSecs : Int
deriving DecidableEq, Repr

structure Admission (Value : Type) where
  key : JobKey
  owner : Option Int
  queueDepth : Nat
  maxActiveTotal : Nat
  maxActivePerUser : Nat
  dedup : Option (String × Value)
  jobName : String

inductive Refusal where
  | tooManyRequests
  | conflict (msg : String)
deriving DecidableEq, Repr

structure RunStore (Value : Type) where
  runs : List (JobRun Value)
  bytes : Nat
  limits : RunLimits

namespace RunStore

-- The footprint of a run in bytes depends on the machine.
variable (footprint : JobRun Value → Nat)

def get (store : RunStore Value) (id : RunId) : Option (JobRun Value) :=
  store.runs.find? fun run => run.id = id

def update (id : RunId) (f : JobRun Value → JobRun Value) (store : RunStore Value) :
    RunStore Value :=
  match store.get id with
  | none => store
  | some run =>
    { store with
      runs := store.runs.map fun other => if other.id = id then f other else other
      bytes := store.bytes + footprint (f run) - footprint run }

def discard (id : RunId) (store : RunStore Value) : RunStore Value :=
  match store.get id with
  | none => store
  | some run =>
    { store with
      runs := store.runs.filter fun other => other.id ≠ id
      bytes := store.bytes - footprint run }

def countActive (store : RunStore Value) (counts : JobRun Value → Bool) : Nat :=
  store.runs.countP fun run => run.state.isActive && counts run

/-- Oldest first, then by id. -/
def olderThan (first second : JobRun Value) : Prop :=
  first.endedAt < second.endedAt ∨ (first.endedAt = second.endedAt ∧ first.id ≤ second.id)

instance : DecidableRel (@olderThan Value) :=
  fun _ _ => inferInstanceAs (Decidable (_ ∨ _))

def oldestTerminal (store : RunStore Value) : Option (JobRun Value) :=
  ((store.runs.filter fun run => run.state.isTerminal).insertionSort olderThan).head?

def overBudget (store : RunStore Value) (incoming : Nat) : Bool :=
  (0 < store.limits.maxRetained ∧ store.limits.maxRetained ≤ store.runs.length) ∨
    (0 < store.limits.maxRetainedBytes ∧ store.limits.maxRetainedBytes < store.bytes + incoming)

/-- Each round drops a run, so as many rounds as there are runs are enough. -/
def evictUntilRoom (incoming : Nat) : Nat → RunStore Value → RunStore Value
  | 0, store => store
  | rounds + 1, store =>
    if store.overBudget incoming then
      match store.oldestTerminal with
      | some oldest => evictUntilRoom incoming rounds (store.discard footprint oldest.id)
      | none => store
    else store

def insert (run : JobRun Value) (store : RunStore Value) : RunStore Value :=
  { store with
    runs := store.runs.filter (fun other => other.id ≠ run.id) ++ [run]
    bytes := store.bytes + footprint run }

def isDuplicate [DecidableEq Value] (json : JsonValue Value) (key : JobKey) (field : String)
    (value : Value) (run : JobRun Value) : Bool :=
  run.state.isActive && run.key = key &&
    (run.params.bind fun params => json.get params field) = some value

def checkAdmission [DecidableEq Value] (json : JsonValue Value) (admission : Admission Value)
    (size : Nat) (store : RunStore Value) : Except Refusal Unit := do
  if 0 < store.limits.maxRetainedBytes ∧ store.limits.maxRetainedBytes < size then
    throw .tooManyRequests
  if 0 < admission.queueDepth ∧ admission.queueDepth ≤ store.countActive (fun run =>
      run.key = admission.key && (admission.owner.isNone || run.owner = admission.owner)) then
    throw .tooManyRequests
  if 0 < admission.maxActiveTotal ∧
      admission.maxActiveTotal ≤ store.countActive (fun _ => true) then
    throw .tooManyRequests
  if 0 < admission.maxActivePerUser ∧ admission.owner.isSome ∧
      admission.maxActivePerUser ≤ store.countActive (fun run => run.owner = admission.owner) then
    throw .tooManyRequests
  if admission.dedup.any fun entry =>
      store.runs.any (isDuplicate json admission.key entry.1 entry.2) then
    throw (.conflict (admission.jobName ++ " is already in progress"))

def reserve [DecidableEq Value] (json : JsonValue Value) (run : JobRun Value)
    (admission : Admission Value) (store : RunStore Value) : Except Refusal (RunStore Value) := do
  checkAdmission json admission (footprint run) store
  pure ((store.evictUntilRoom footprint (footprint run) store.runs.length).insert footprint run)

def expired (ttl now : Int) (run : JobRun Value) : Bool :=
  run.state.isTerminal && 0 < ttl && ttl ≤ now - run.endedAt

def sweep (now : Int) (store : RunStore Value) : RunStore Value :=
  let gone := store.runs.filter (expired store.limits.terminalTtlSecs now)
  { store with
    runs := store.runs.filter fun run => !expired store.limits.terminalTtlSecs now run
    bytes := store.bytes - (gone.map footprint).sum }

def interrupted (now : Int) (run : JobRun Value) : JobRun Value :=
  { run with state := .interrupted, finishedAt := some now }.dropParams

def interruptActive (now : Int) (store : RunStore Value) : RunStore Value :=
  let active := store.runs.filter fun run => run.state.isActive
  { store with
    runs := store.runs.map fun run => if run.state.isActive then interrupted now run else run
    bytes := store.bytes - (active.map fun run =>
      footprint { run with state := .interrupted, finishedAt := some now } -
        footprint (interrupted now run)).sum }

end RunStore

def markRunning (now : Int) (attempt : Nat) (run : JobRun Value) : JobRun Value :=
  { run with
    state := .running
    startedAt := some (run.startedAt.getD now)
    attempt := attempt }

def markTerminal (now : Int) (state : JobState) (outcome : Option Outcome)
    (run : JobRun Value) : JobRun Value :=
  let progress := match outcome with
    | none => run.progress
    | some outcome =>
      { run.progress with
        message := outcome.message
        done := outcome.processed.getD run.progress.done }
  { run with progress := progress, state := state, finishedAt := some now }.dropParams

def park (run : JobRun Value) : JobRun Value :=
  if run.state = .running then { run with state := .yielded } else run

def unpark (run : JobRun Value) : JobRun Value :=
  if run.state = .yielded then { run with state := .running } else run

end Nanofile
