import Nanofile.Lib.Threads
import Nanofile.Repository.JobRuns
import Nanofile.Tasks.RunStore

/-!
# The task system

Servers share one journal of runs and each has its own table of runs.  Submissions, executions,
drains, recoveries and changes of generation interleave: each access of a table, of the journal or
of the clock is a step of its own, and a server may stop before any of them.  What a job's body
does is open: it may return at any time, with any result.
-/

set_option autoImplicit false

namespace Nanofile

open Nanofile.Lib

/-- The policies of the jobs, and what the code leaves to libraries. -/
structure TaskConfig (Value : Type) where
  policy : JobKey → JobSpec
  json : JsonValue Value
  footprint : JobRun Value → Nat

structure TaskLimits where
  maxActiveTotal : Nat
  maxActivePerUser : Nat
  runs : RunLimits
deriving DecidableEq, Repr

/-- A run as it was submitted, with the input of its body. -/
structure Task (Value : Type) where
  run : JobRun Value
  params : Value

structure TaskSystem (Value : Type) where
  /-- The jobs of this generation. -/
  registered : List JobKey
  /-- The semaphore of a job, as an index into `available`. -/
  permits : JobKey → Option Nat
  available : List Nat
  store : RunStore Value
  limits : TaskLimits
  /-- The runs with a token, and those whose token has been fired. -/
  cancels : List RunId
  fired : List RunId
  /-- What was given to the runtime and has not begun. -/
  spawned : List (Task Value)
  stopped : Bool
  /-- History: the limits of the last successful reserve, and of the last one of each owner. -/
  totalAtReserve : Nat
  perUserAtReserve : Int → Nat

structure Cluster (Value : Type) where
  clock : Int
  nextId : RunId
  journal : List JobRunRow
  /-- History: the rows that were claimed, with the attempt they were claimed at. -/
  claims : List (RunId × Int)
  systems : Nat → TaskSystem Value

variable {Value : Type}

namespace Cluster

def setSystem (index : Nat) (change : TaskSystem Value → TaskSystem Value)
    (cluster : Cluster Value) : Cluster Value :=
  { cluster with systems := fun other =>
      if other = index then change (cluster.systems index) else cluster.systems other }

def setStore (index : Nat) (change : RunStore Value → RunStore Value) (cluster : Cluster Value) :
    Cluster Value :=
  cluster.setSystem index fun system => { system with store := change system.store }

end Cluster

inductive BodyResult where
  | ok (outcome : Outcome)
  | cancelled
  | timedOut
  | failed (error : String)

structure Submission (Value : Type) where
  origin : Origin
  key : JobKey
  owner : Option Int
  params : Value
  summary : String
  details : List (String × Value)

structure RunReport where
  state : JobState
  outcome : Option Outcome
  attempts : Nat
  startedAt : Int
  finishedAt : Int

/-- Who waits for a submission: a recovery goes on with the rest of its rows. -/
inductive AfterSubmit where
  | returns
  | recovery (now : Int) (row : JobRunRow) (rest : List JobRunRow)

inductive SubmitStage (Value : Type) where
  | reserving (admission : Admission Value)
  | stamping
  | enqueueing (now : Int)
  | unreserving (error : String)
  | spawning

inductive DriveStage where
  | waiting
  | stamping
  | markingRow (now : Int)
  | marking (attempt : Nat)
  | body (attempt : Nat) (startedAt : Int)
  | sleeping (attempt : Nat) (startedAt : Int)
  | recording (report : RunReport)
  | silencing (report : RunReport)
  | releasing

inductive TaskCall (Value : Type) where
  | ticking (key : JobKey) (overlap : OverlapPolicy)
  | submitting (submission : Submission Value) (after : AfterSubmit)
  | submit (stage : SubmitStage Value) (task : Task Value) (after : AfterSubmit)
  | worker
  | drive (stage : DriveStage) (task : Task Value) (permit : Option Nat)
  | draining
  | firing (active : List (JobRun Value))
  | graceful
  | interrupting
  | recovering
  | reading (now : Int)
  | examining (now : Int) (rows : List JobRunRow)
  | claiming (now : Int) (row : JobRunRow) (rest : List JobRunRow)
  | closing (id : RunId) (phase error : String) (processed : Option Int) (now : Int)
      (rest : List JobRunRow)
  | installing (jobs : List JobKey)
  | installingPermits (jobs : List JobKey)
  | settingLimits (limits : TaskLimits)
  | settingTaskLimits (limits : TaskLimits)
  | pruning
  | pruningByAge (now : Int)
  | counting
  | pruningByCount (cutoff : Int)
  | done

structure TaskThread (Value : Type) where
  server : Nat
  call : TaskCall Value

/-- What a step meets: whether the database fails, which task the runtime takes up, how a body
returns, and whether a load gate defers or the grace of a drain is over. -/
structure TaskTick where
  fails : Bool
  pick : Nat
  result : BodyResult
  isOver : Bool

inductive TaskRequest (Value : Type) where
  | setClock (now : Int)
  | cancel (server : Nat) (id : RunId)
  | sweep (server : Nat)
  /-- A context may be handed to tasks of its own, so its writes come at any time. -/
  | park (server : Nat) (id : RunId)
  | unpark (server : Nat) (id : RunId)
  | report (server : Nat) (id : RunId) (progress : Progress)
  | detail (server : Nat) (id : RunId) (key : String) (value : Value)
  | stop (server : Nat)

inductive TaskJob (Value : Type) where
  | submit (server : Nat) (submission : Submission Value)
  | tick (server : Nat) (key : JobKey) (overlap : OverlapPolicy)
  | worker (server : Nat)
  | drain (server : Nat)
  | recover (server : Nat)
  | install (server : Nat) (jobs : List JobKey)
  | setLimits (server : Nat) (limits : TaskLimits)
  | prune (server : Nat)

instance : Inhabited (TaskCall Value) := ⟨.done⟩

def Refusal.text : Refusal → String
  | .tooManyRequests => "too many requests"
  | .conflict msg => "conflict: " ++ msg

/-- Where a submission goes that has failed, and one that has been spawned. -/
def AfterSubmit.failed (error : String) : AfterSubmit → TaskCall Value
  | .returns => .done
  | .recovery now row rest =>
    .closing row.id "failed" ("could not be recovered: " ++ error) none now rest

def AfterSubmit.spawned : AfterSubmit → TaskCall Value
  | .returns => .done
  | .recovery now row rest =>
    .closing row.id "interrupted" "recovered after a restart" row.processed now rest

section Steps

variable [DecidableEq Value] (config : TaskConfig Value)

def queuedRun (submission : Submission Value) (id : RunId) (now : Int) : JobRun Value :=
  submission.details.foldl (fun run detail => run.setDetail detail.1 detail.2)
    (.queued id submission.key submission.origin submission.owner submission.params
      submission.summary now)

def admissionOf (submission : Submission Value) (limits : TaskLimits) : Admission Value where
  key := submission.key
  owner := submission.owner
  queueDepth := (config.policy submission.key).queueDepth
  maxActiveTotal := limits.maxActiveTotal
  maxActivePerUser := limits.maxActivePerUser
  dedup := match (config.policy submission.key).dedup with
    | .byParams field =>
      (config.json.get submission.params field).map fun value => (field, value)
    | .none => none
  jobName := (config.policy submission.key).name

def TaskSystem.admitted (system : TaskSystem Value) (store : RunStore Value)
    (admission : Admission Value) : TaskSystem Value :=
  { system with
    store := store
    totalAtReserve := admission.maxActiveTotal
    perUserAtReserve := fun owner =>
      if admission.owner = some owner then admission.maxActivePerUser
      else system.perUserAtReserve owner }

def submitStep (tick : TaskTick) (server : Nat) (cluster : Cluster Value)
    (task : Task Value) (after : AfterSubmit) :
    SubmitStage Value → Option (Cluster Value × TaskCall Value)
  | .reserving admission =>
    match (cluster.systems server).store.reserve config.footprint config.json task.run
        admission with
    | .error refusal => some (cluster, after.failed refusal.text)
    | .ok store =>
      some (cluster.setSystem server fun system => system.admitted store admission,
        .submit (if (config.policy task.run.key).journaledFromTheStart then .stamping
          else .spawning) task after)
  | .stamping => some (cluster, .submit (.enqueueing cluster.clock) task after)
  | .enqueueing now =>
    let row := JobRuns.newRow task.run.id task.run.key.asStr task.run.owner task.run.summary
      (some (config.json.toText task.params)) now (QueuePolicy.standard.leaseUntil now)
    match if tick.fails then none else JobRuns.insert cluster.journal row with
    | some journal => some ({ cluster with journal := journal }, .submit .spawning task after)
    | none => some (cluster, .submit (.unreserving "database error") task after)
  | .unreserving error =>
    some (cluster.setStore server fun store => store.discard config.footprint task.run.id,
      after.failed error)
  | .spawning =>
    some (cluster.setSystem server fun system =>
      { system with
        cancels := task.run.id :: system.cancels
        spawned := system.spawned ++ [task] }, after.spawned)

def endRun (server : Nat) (cluster : Cluster Value) (task : Task Value) (permit : Option Nat)
    (state : JobState) (outcome : Option Outcome) (attempt : Nat) (startedAt : Int) :
    Cluster Value × TaskCall Value :=
  (cluster.setStore server fun store => store.update config.footprint task.run.id
      (markTerminal cluster.clock state outcome),
    .drive (.recording ⟨state, outcome, attempt, startedAt, cluster.clock⟩) task permit)

def RunReport.silent (report : RunReport) (origin : Origin) : Bool :=
  report.state = .succeeded && report.outcome.any Outcome.idle && origin = .schedule

def RunReport.error (report : RunReport) : Option String :=
  match report.state with
  | .failed message => some message
  | .timedOut => some "timed out"
  | .cancelled => some "cancelled"
  | .interrupted => some "interrupted by a restart"
  | _ => none

def RunReport.summary (report : RunReport) : Option String :=
  (report.outcome.map Outcome.message).filter fun message => message ≠ ""

def RunReport.processed (report : RunReport) : Option Int :=
  (report.outcome.bind Outcome.processed).map fun processed => (processed : Int)

def finishedRow (task : Task Value) (report : RunReport) : JobRunRow where
  id := task.run.id
  kind := task.run.key.asStr
  owner := task.run.owner
  phase := report.state.asStr
  summary := report.summary.getD ""
  params := none
  error := report.error
  processed := report.processed
  attempt := report.attempts
  createdAt := task.run.createdAt
  startedAt := some report.startedAt
  finishedAt := some report.finishedAt
  leaseUntil := none

/-- The write of the journal at the end of a drive. -/
def recordRun (journal : List JobRunRow) (task : Task Value) (report : RunReport) :
    List JobRunRow :=
  let spec := config.policy task.run.key
  if !spec.keepsRecord then journal
  else if spec.journaledFromTheStart then
    JobRuns.finish journal task.run.id report.state.asStr report.error report.processed
      report.summary report.finishedAt
  else if report.silent task.run.origin then journal
  else (JobRuns.insert journal (finishedRow task report)).getD journal

def attemptsAllowed (task : Task Value) : Nat :=
  max (config.policy task.run.key).retry.attempts 1

def TaskSystem.release (system : TaskSystem Value) (permit : Option Nat) (id : RunId) :
    TaskSystem Value :=
  { system with
    available := match permit with
      | some index => system.available.modify index (· + 1)
      | none => system.available
    cancels := system.cancels.filter fun other => other ≠ id }

def driveStep (tick : TaskTick) (server : Nat) (cluster : Cluster Value)
    (task : Task Value) (permit : Option Nat) :
    DriveStage → Option (Cluster Value × TaskCall Value)
  | .waiting =>
    let next : TaskCall Value := .drive
      (if (config.policy task.run.key).journaledFromTheStart then .stamping else .marking 1)
      task permit
    match permit with
    | none => some (cluster, next)
    | some index =>
      if 0 < ((cluster.systems server).available[index]?).getD 0 then
        some (cluster.setSystem server fun system =>
          { system with available := system.available.modify index (· - 1) }, next)
      else none
  | .stamping => some (cluster, .drive (.markingRow cluster.clock) task permit)
  | .markingRow now =>
    let journal := JobRuns.markRunning cluster.journal task.run.id now
      (QueuePolicy.standard.leaseUntil now)
    some (if tick.fails then cluster else { cluster with journal := journal },
      .drive (.marking 1) task permit)
  | .marking attempt =>
    some (cluster.setStore server fun store => store.update config.footprint task.run.id
        (markRunning cluster.clock attempt),
      .drive (.body attempt ((((cluster.systems server).store.get task.run.id).bind
        JobRun.startedAt).getD cluster.clock)) task permit)
  | .body attempt startedAt =>
    match tick.result with
    | .ok outcome => some (endRun config server cluster task permit .succeeded (some outcome)
        attempt startedAt)
    | .cancelled => some (endRun config server cluster task permit .cancelled none attempt
        startedAt)
    | .timedOut => some (endRun config server cluster task permit .timedOut none attempt
        startedAt)
    | .failed error =>
      if attemptsAllowed config task ≤ attempt then
        some (endRun config server cluster task permit (.failed error) none attempt startedAt)
      else if (config.policy task.run.key).retry.delaySecs attempt = 0 then
        some (cluster, .drive (.marking (attempt + 1)) task permit)
      else some (cluster, .drive (.sleeping attempt startedAt) task permit)
  | .sleeping attempt startedAt =>
    if task.run.id ∈ (cluster.systems server).fired then
      some (endRun config server cluster task permit .cancelled none attempt startedAt)
    else some (cluster, .drive (.marking (attempt + 1)) task permit)
  | .recording report =>
    let journal := recordRun config cluster.journal task report
    some (if tick.fails then cluster else { cluster with journal := journal },
      .drive (.silencing report) task permit)
  | .silencing report =>
    some (if report.silent task.run.origin then
        cluster.setStore server fun store => store.discard config.footprint task.run.id
      else cluster, .drive .releasing task permit)
  | .releasing =>
    some (cluster.setSystem server fun system => system.release permit task.run.id, .done)

def recoveryBatch : Nat := 50

def stoppable (system : TaskSystem Value) (key : JobKey) : Bool :=
  system.registered.contains key &&
    ((config.policy key).resumable || (config.policy key).cancellable)

def examineRow (system : TaskSystem Value) (now : Int) (row : JobRunRow)
    (rest : List JobRunRow) : TaskCall Value :=
  match JobKey.fromSlug row.kind with
  | none => .closing row.id "interrupted" "no job is registered under this name any more" none now
      rest
  | some key =>
    if system.registered.contains key ∧ (config.policy key).durability = .durable then
      .claiming now row rest
    else .closing row.id "interrupted" "this job is not safe to replay" none now rest

def recoveredSubmission (row : JobRunRow) : Submission Value where
  origin := .startup
  key := (JobKey.fromSlug row.kind).getD .reindex
  owner := row.owner
  params := (row.params.bind config.json.ofText).getD config.json.null
  summary := (if row.summary = "" then ((JobKey.fromSlug row.kind).getD .reindex).asStr
    else row.summary) ++ " (recovered)"
  details := []

def taskStep (tick : TaskTick) (server : Nat) (cluster : Cluster Value) :
    TaskCall Value → Option (Cluster Value × TaskCall Value)
  | .ticking key overlap =>
    let active := (cluster.systems server).store.countActive fun run => run.key = key
    some (cluster, if tick.isOver ∨ (overlap = .skip ∧ 0 < active) then .done
      else .submitting ⟨.schedule, key, none, config.json.null, "", []⟩ .returns)
  | .submitting submission after =>
    let system := cluster.systems server
    if system.registered.contains submission.key then
      some ({ cluster with nextId := cluster.nextId + 1 },
        .submit (.reserving (admissionOf config submission system.limits))
          ⟨queuedRun submission cluster.nextId cluster.clock, submission.params⟩ after)
    else some (cluster, after.failed "internal error: job is not registered")
  | .submit stage task after => submitStep config tick server cluster task after stage
  | .worker =>
    ((cluster.systems server).spawned[tick.pick]?).map fun task =>
      (cluster.setSystem server fun system =>
          { system with spawned := system.spawned.eraseIdx tick.pick },
        .drive .waiting task ((cluster.systems server).permits task.run.key))
  | .drive stage task permit => driveStep config tick server cluster task permit stage
  | .draining =>
    let active := (cluster.systems server).store.runs.filter fun run => run.state.isActive
    some (cluster, if active = [] then .done else .firing active)
  | .firing active =>
    some (cluster.setSystem server fun system =>
      { system with
        fired := system.fired ++ ((active.filter fun run =>
          stoppable config system run.key && system.cancels.contains run.id).map JobRun.id) },
      .graceful)
  | .graceful =>
    some (cluster, if tick.isOver ∨ (cluster.systems server).store.countActive (fun _ => true) = 0
      then .interrupting else .graceful)
  | .interrupting =>
    some (cluster.setStore server fun store =>
      store.interruptActive config.footprint cluster.clock, .done)
  | .recovering => some (cluster, .reading cluster.clock)
  | .reading now =>
    some (cluster, if tick.fails then .done
      else .examining now (JobRuns.recoverable cluster.journal now recoveryBatch))
  | .examining _ [] => some (cluster, .done)
  | .examining now (row :: rest) =>
    some (cluster, examineRow config (cluster.systems server) now row rest)
  | .claiming now row rest =>
    let claim := JobRuns.claimForRecovery cluster.journal row.id row.attempt now
      (QueuePolicy.standard.leaseUntil now)
    if tick.fails ∨ claim.1 = false then some (cluster, .examining now rest)
    else some ({ cluster with
        journal := claim.2
        claims := (row.id, row.attempt) :: cluster.claims },
      .submitting (recoveredSubmission config row) (.recovery now row rest))
  | .closing id phase error processed now rest =>
    let journal := JobRuns.finish cluster.journal id phase (some error) processed none now
    some (if tick.fails then cluster else { cluster with journal := journal },
      .examining now rest)
  | .installing jobs =>
    some (if jobs.Nodup then
        (cluster.setSystem server fun system => { system with registered := jobs },
          .installingPermits jobs)
      else (cluster, .done))
  | .installingPermits jobs =>
    some (cluster.setSystem server fun system =>
      { system with
        permits := fun key =>
          (jobs.findIdx? fun other => other = key).map (system.available.length + ·)
        available := system.available ++ jobs.map fun key => (config.policy key).maxConcurrent },
      .done)
  | .settingLimits limits =>
    some (cluster.setStore server fun store => { store with limits := limits.runs },
      .settingTaskLimits limits)
  | .settingTaskLimits limits =>
    some (cluster.setSystem server fun system => { system with limits := limits }, .done)
  | .pruning => some (cluster, .pruningByAge cluster.clock)
  | .pruningByAge now =>
    let cutoffs := JobHistoryPolicy.standard.cutoffs now
    let journal := JobRuns.pruneByAge cluster.journal cutoffs.1 cutoffs.2
    some (if tick.fails then (cluster, .done)
      else ({ cluster with journal := journal }, .counting))
  | .counting =>
    some (cluster, match JobRuns.countBoundary cluster.journal
        JobHistoryPolicy.standard.maxRows with
      | some cutoff => .pruningByCount cutoff
      | none => .done)
  | .pruningByCount cutoff =>
    let journal := JobRuns.pruneByCount cluster.journal cutoff
    some (if tick.fails then cluster else { cluster with journal := journal }, .done)
  | .done => none

def serveTask (cluster : Cluster Value) : TaskRequest Value → Cluster Value
  | .setClock now => { cluster with clock := now }
  | .cancel server id =>
    cluster.setSystem server fun system =>
      if (system.store.get id).any (fun run =>
          run.state.isActive && stoppable config system run.key) && system.cancels.contains id
      then { system with fired := id :: system.fired } else system
  | .sweep server => cluster.setStore server fun store => store.sweep config.footprint cluster.clock
  | .park server id =>
    cluster.setStore server fun store => store.update config.footprint id park
  | .unpark server id =>
    cluster.setStore server fun store => store.update config.footprint id unpark
  | .report server id progress =>
    cluster.setStore server fun store => store.update config.footprint id fun run =>
      { run with progress := progress }
  | .detail server id key value =>
    cluster.setStore server fun store => store.update config.footprint id
      (JobRun.setDetail key value)
  | .stop server => cluster.setSystem server fun system => { system with stopped := true }

def taskProgram :
    Program (Cluster Value) (TaskThread Value) (TaskRequest Value) (TaskJob Value) TaskTick where
  serve request cluster := serveTask config cluster request
  begin
    | .submit server submission => ⟨server, .submitting submission .returns⟩
    | .tick server key overlap => ⟨server, .ticking key overlap⟩
    | .worker server => ⟨server, .worker⟩
    | .drain server => ⟨server, .draining⟩
    | .recover server => ⟨server, .recovering⟩
    | .install server jobs => ⟨server, .installing jobs⟩
    | .setLimits server limits => ⟨server, .settingLimits limits⟩
    | .prune server => ⟨server, .pruning⟩
  advance tick cluster thread :=
    if (cluster.systems thread.server).stopped then none
    else (taskStep config tick thread.server cluster thread.call).map fun after =>
      (after.1, ⟨thread.server, after.2⟩)

end Steps

end Nanofile
