import Mathlib.Data.List.Perm.Basic
import Nanofile.Tasks.RunMoves
import Nanofile.Tasks.TaskSystem

/-!
# Who holds a run

Between its submission and the end of its execution a run is in the hands of one call or of the
runtime that has yet to begin it, and no other call writes its start or its end.
-/

set_option autoImplicit false

namespace Nanofile

open Nanofile.Lib

variable {Value : Type}

namespace Cluster

variable (cluster : Cluster Value) (index : Nat)
  (change : TaskSystem Value → TaskSystem Value)

@[simp] theorem setSystem_same :
    (cluster.setSystem index change).systems index = change (cluster.systems index) :=
  if_pos rfl

theorem setSystem_other {other : Nat} (apart : other ≠ index) :
    (cluster.setSystem index change).systems other = cluster.systems other := if_neg apart

theorem setSystem_keeps {α : Type} (field : TaskSystem Value → α)
    (same : ∀ system, field (change system) = field system) (other : Nat) :
    field ((cluster.setSystem index change).systems other) = field (cluster.systems other) := by
  by_cases here : other = index
  · subst here
    rw [setSystem_same, same]
  · rw [setSystem_other _ _ _ here]

@[simp] theorem setSystem_nextId : (cluster.setSystem index change).nextId = cluster.nextId := rfl

@[simp] theorem setSystem_journal :
    (cluster.setSystem index change).journal = cluster.journal := rfl

@[simp] theorem setSystem_claims : (cluster.setSystem index change).claims = cluster.claims := rfl

@[simp] theorem setSystem_clock : (cluster.setSystem index change).clock = cluster.clock := rfl

end Cluster

def heldTask : TaskCall Value → Option (Task Value)
  | .submit _ task _ => some task
  | .drive _ task _ => some task
  | _ => none

@[simp] theorem heldTask_submit (stage : SubmitStage Value) (task : Task Value)
    (after : AfterSubmit) : heldTask (.submit stage task after) = some task := rfl

@[simp] theorem heldTask_drive (stage : DriveStage) (task : Task Value) (permit : Option Nat) :
    heldTask (.drive stage task permit) = some task := rfl

@[simp] theorem heldTask_failed (after : AfterSubmit) (error : String) :
    heldTask (after.failed error : TaskCall Value) = none := by
  cases after <;> rfl

@[simp] theorem heldTask_spawned (after : AfterSubmit) :
    heldTask (after.spawned : TaskCall Value) = none := by
  cases after <;> rfl

inductive HoldMoves (before after : Cluster Value) (server : Nat) :
    Option (Task Value) → Option (Task Value) → Prop
  | same (held : Option (Task Value)) (ids : after.nextId = before.nextId)
      (queue : (after.systems server).spawned = (before.systems server).spawned) :
      HoldMoves before after server held held
  | drawn (task : Task Value) (isNew : task.run.id = before.nextId)
      (ids : after.nextId = before.nextId + 1)
      (queue : (after.systems server).spawned = (before.systems server).spawned) :
      HoldMoves before after server none (some task)
  | dropped (task : Task Value) (ids : after.nextId = before.nextId)
      (queue : (after.systems server).spawned = (before.systems server).spawned) :
      HoldMoves before after server (some task) none
  | spawned (task : Task Value) (ids : after.nextId = before.nextId)
      (queue : (after.systems server).spawned = (before.systems server).spawned ++ [task]) :
      HoldMoves before after server (some task) none
  | taken (task : Task Value) (index : Nat) (ids : after.nextId = before.nextId)
      (found : (before.systems server).spawned[index]? = some task)
      (queue : (after.systems server).spawned = (before.systems server).spawned.eraseIdx index) :
      HoldMoves before after server none (some task)

/-- What a step writes to the run of its call, when it writes. -/
def runWrite (config : TaskConfig Value) (tick : TaskTick) (system : TaskSystem Value) :
    TaskCall Value → RunWrite
  | .submit (.reserving _) task _ => .insert task.run.id
  | .submit (.unreserving _) task _ => .drop task.run.id
  | .drive (.marking _) task _ => .start task.run.id
  | .drive (.body attempt _) task _ =>
    match tick.result with
    | .failed _ =>
      if attemptsAllowed config task ≤ attempt then .finish task.run.id else .nothing
    | _ => .finish task.run.id
  | .drive (.sleeping _ _) task _ =>
    if task.run.id ∈ system.fired then .finish task.run.id else .nothing
  | .drive (.silencing report) task _ =>
    if report.silent task.run.origin then .drop task.run.id else .nothing
  | .interrupting => .interrupt
  | _ => .nothing

def SameReserve (system system' : TaskSystem Value) : Prop :=
  system'.totalAtReserve = system.totalAtReserve ∧
    system'.perUserAtReserve = system.perUserAtReserve

def Reserves (call : TaskCall Value) : Prop :=
  ∃ admission task after, call = .submit (.reserving admission) task after

structure TaskMoves (config : TaskConfig Value) (tick : TaskTick) (server : Nat)
    (before : Cluster Value) (call : TaskCall Value) (after : Cluster Value)
    (call' : TaskCall Value) : Prop where
  frame : ∀ other, other ≠ server → after.systems other = before.systems other
  store : StoreMoves (runWrite config tick (before.systems server) call)
    (before.systems server).store.runs
    (after.systems server).store.runs
  held : HoldMoves before after server (heldTask call) (heldTask call')
  reserve : SameReserve (before.systems server) (after.systems server) ∨ Reserves call

/-! ## What holds in every run -/

structure ClusterKept (cluster : Cluster Value) : Prop where
  stored : ∀ server, ∀ run ∈ (cluster.systems server).store.runs, run.id < cluster.nextId
  distinct : ∀ server, ((cluster.systems server).store.runs.map JobRun.id).Nodup
  spawned : ∀ server, ∀ task ∈ (cluster.systems server).spawned, task.run.id < cluster.nextId
  spawnedOnce : ∀ server, ((cluster.systems server).spawned.map fun task => task.run.id).Nodup
  spawnedApart : ∀ server other, server ≠ other → ∀ task ∈ (cluster.systems server).spawned,
    ∀ task' ∈ (cluster.systems other).spawned, task.run.id ≠ task'.run.id

structure HolderKept (cluster : Cluster Value) (thread : TaskThread Value) : Prop where
  known : ∀ task, heldTask thread.call = some task → task.run.id < cluster.nextId
  apart : ∀ task, heldTask thread.call = some task → ∀ server,
    ∀ entry ∈ (cluster.systems server).spawned, entry.run.id ≠ task.run.id
  fresh : ∀ admission task after, thread.call = .submit (.reserving admission) task after →
    task.run.state.isActive = true ∧
      ∀ run ∈ (cluster.systems thread.server).store.runs, run.id ≠ task.run.id

/-- Two calls hold different runs. -/
def HeldApart (first second : TaskThread Value) : Prop :=
  ∀ task task', heldTask first.call = some task → heldTask second.call = some task' →
    task.run.id ≠ task'.run.id

variable {task : Task Value}

section Moves

variable {config : TaskConfig Value} {tick : TaskTick} {server : Nat}
  {before after : Cluster Value} {call call' : TaskCall Value}

theorem TaskMoves.still (systems : after.systems = before.systems)
    (held : HoldMoves before after server (heldTask call) (heldTask call')) :
    TaskMoves config tick server before call after call' := by
  refine ⟨fun other _ => by rw [systems], ?_, held, Or.inl ?_⟩
  · rw [systems]
    exact .refl _ _
  · rw [systems]
    exact ⟨rfl, rfl⟩

theorem TaskMoves.idle (systems : after.systems = before.systems)
    (ids : after.nextId = before.nextId) (held : heldTask call' = heldTask call) :
    TaskMoves config tick server before call after call' := by
  refine .still systems ?_
  rw [held]
  exact .same _ ids (by rw [systems])

theorem TaskMoves.own (change : TaskSystem Value → TaskSystem Value)
    (store : StoreMoves (runWrite config tick (before.systems server) call)
      (before.systems server).store.runs (change (before.systems server)).store.runs)
    (held : HoldMoves before (before.setSystem server change) server (heldTask call)
      (heldTask call'))
    (reserve : SameReserve (before.systems server) (change (before.systems server)) ∨
      Reserves call) :
    TaskMoves config tick server before call (before.setSystem server change) call' := by
  refine ⟨fun other apart => Cluster.setSystem_other _ _ _ apart, ?_, held, ?_⟩
  · rw [Cluster.setSystem_same]
    exact store
  · rw [Cluster.setSystem_same]
    exact reserve

theorem TaskMoves.change (change : TaskSystem Value → TaskSystem Value)
    (store : StoreMoves (runWrite config tick (before.systems server) call)
      (before.systems server).store.runs (change (before.systems server)).store.runs)
    (queue : (change (before.systems server)).spawned = (before.systems server).spawned)
    (reserve : SameReserve (before.systems server) (change (before.systems server)) ∨
      Reserves call)
    (held : heldTask call' = heldTask call) :
    TaskMoves config tick server before call (before.setSystem server change) call' := by
  refine .own change store ?_ reserve
  rw [held]
  exact .same _ rfl (by rw [Cluster.setSystem_same, queue])

theorem setDetail_fields (key : String) (value : Value) (run : JobRun Value) :
    (run.setDetail key value).state = run.state ∧ (run.setDetail key value).id = run.id ∧
      (run.setDetail key value).key = run.key ∧ (run.setDetail key value).owner = run.owner ∧
      (run.setDetail key value).params = run.params ∧
      (run.setDetail key value).finishedAt = run.finishedAt := by
  unfold JobRun.setDetail
  split
  · exact ⟨rfl, rfl, rfl, rfl, rfl, rfl⟩
  · split <;> exact ⟨rfl, rfl, rfl, rfl, rfl, rfl⟩

theorem queuedRun_fields (submission : Submission Value) (id : RunId) (now : Int) :
    (queuedRun submission id now).state = .queued ∧ (queuedRun submission id now).id = id ∧
      (queuedRun submission id now).key = submission.key ∧
      (queuedRun submission id now).owner = submission.owner ∧
      (queuedRun submission id now).params = some submission.params := by
  have folded : ∀ (details : List (String × Value)) (run run' : JobRun Value),
      details.foldl (fun run detail => run.setDetail detail.1 detail.2) run = run' →
      run'.state = run.state ∧ run'.id = run.id ∧ run'.key = run.key ∧ run'.owner = run.owner ∧
        run'.params = run.params := by
    intro details
    induction details with
    | nil =>
      rintro run _ rfl
      exact ⟨rfl, rfl, rfl, rfl, rfl⟩
    | cons detail rest ih =>
      intro run run' isLast
      obtain ⟨state, id, key, owner, params⟩ := ih _ run' isLast
      obtain ⟨state', id', key', owner', params', -⟩ := setDetail_fields detail.1 detail.2 run
      exact ⟨state.trans state', id.trans id', key.trans key', owner.trans owner',
        params.trans params'⟩
  exact folded submission.details _ _ rfl

variable {permit : Option Nat} {stage : DriveStage}

theorem driveWrite_moves {stage' : DriveStage} {f : JobRun Value → JobRun Value}
    (changes : ∀ run : JobRun Value, run.id = task.run.id →
      RunChange (runWrite config tick (before.systems server) (.drive stage task permit)) run
        (f run)) :
    TaskMoves config tick server before (.drive stage task permit)
      (before.setStore server fun store => store.update config.footprint task.run.id f)
      (.drive stage' task permit) :=
  .change _ (RunStore.update_moves _ _ fun run _ => changes run) rfl (Or.inl ⟨rfl, rfl⟩) rfl

theorem endRun_moves {state : JobState} (terminal : state.isTerminal = true)
    (outcome : Option Outcome) (attempt : Nat) (startedAt : Int)
    (writes : runWrite config tick (before.systems server) (.drive stage task permit) =
      .finish task.run.id) :
    TaskMoves config tick server before (.drive stage task permit)
      (endRun config server before task permit state outcome attempt startedAt).1
      (endRun config server before task permit state outcome attempt startedAt).2 :=
  driveWrite_moves fun run isId => .ended (by rw [isId]; exact writes) _ outcome terminal

/-- The body of a run and the pause after it end the run, or the drive goes on. -/
inductive DriveTries (config : TaskConfig Value) (tick : TaskTick) (server : Nat)
    (before : Cluster Value) (task : Task Value) (permit : Option Nat) (stage : DriveStage) :
    Cluster Value → TaskCall Value → Prop
  | ends (state : JobState) (outcome : Option Outcome) (attempt : Nat) (startedAt : Int)
      (terminal : state.isTerminal = true)
      (writes : runWrite config tick (before.systems server) (.drive stage task permit) =
        .finish task.run.id) :
      DriveTries config tick server before task permit stage
        (endRun config server before task permit state outcome attempt startedAt).1
        (endRun config server before task permit state outcome attempt startedAt).2
  | goesOn (stage' : DriveStage)
      (writes : runWrite config tick (before.systems server) (.drive stage task permit) =
        .nothing) :
      DriveTries config tick server before task permit stage before (.drive stage' task permit)

theorem driveStep_body {attempt : Nat} {startedAt : Int}
    (step : driveStep config tick server before task permit (.body attempt startedAt) =
      some (after, call')) :
    DriveTries config tick server before task permit (.body attempt startedAt) after call' := by
  simp only [driveStep] at step
  split at step
  · rename_i isResult
    cases step
    exact .ends _ _ _ _ rfl (by simp [runWrite, isResult])
  · rename_i isResult
    cases step
    exact .ends _ _ _ _ rfl (by simp [runWrite, isResult])
  · rename_i isResult
    cases step
    exact .ends _ _ _ _ rfl (by simp [runWrite, isResult])
  · rename_i error isResult
    split at step
    · rename_i isLast
      cases step
      exact .ends _ _ _ _ rfl (by simp [runWrite, isResult, isLast])
    · rename_i more
      have writes : runWrite config tick (before.systems server)
          (.drive (.body attempt startedAt) task permit) = .nothing := by
        simp [runWrite, isResult, more]
      split at step <;> cases step <;> exact .goesOn _ writes

theorem driveStep_sleeping {attempt : Nat} {startedAt : Int}
    (step : driveStep config tick server before task permit (.sleeping attempt startedAt) =
      some (after, call')) :
    DriveTries config tick server before task permit (.sleeping attempt startedAt) after call' := by
  simp only [driveStep] at step
  split at step
  · rename_i isFired
    cases step
    exact .ends _ _ _ _ rfl (by simp [runWrite, isFired])
  · rename_i notFired
    cases step
    exact .goesOn _ (by simp [runWrite, notFired])

theorem driveStep_call
    (step : driveStep config tick server before task permit stage = some (after, call')) :
    (∃ stage', call' = .drive stage' task permit) ∨ call' = .done := by
  cases stage with
  | waiting =>
    simp only [driveStep] at step
    split at step
    · cases step
      exact Or.inl ⟨_, rfl⟩
    · split at step <;> cases step
      exact Or.inl ⟨_, rfl⟩
  | body attempt startedAt => cases driveStep_body step <;> exact Or.inl ⟨_, rfl⟩
  | sleeping attempt startedAt => cases driveStep_sleeping step <;> exact Or.inl ⟨_, rfl⟩
  | releasing =>
    cases step
    exact Or.inr rfl
  | _ =>
    cases step
    exact Or.inl ⟨_, rfl⟩

theorem heldTask_examineRow (system : TaskSystem Value) (now : Int) (row : JobRunRow)
    (rest : List JobRunRow) : heldTask (examineRow config system now row rest) = none := by
  unfold examineRow
  split
  · rfl
  · split <;> rfl

theorem driveStep_moves
    (step : driveStep config tick server before task permit stage = some (after, call')) :
    TaskMoves config tick server before (.drive stage task permit) after call' := by
  cases stage with
  | waiting =>
    simp only [driveStep] at step
    split at step
    · cases step
      exact .idle rfl rfl rfl
    · split at step
      · cases step
        exact .change _ (.refl _ _) rfl (Or.inl ⟨rfl, rfl⟩) rfl
      · cases step
  | stamping =>
    cases step
    exact .idle rfl rfl rfl
  | markingRow now | recording report =>
    simp only [driveStep, Option.some.injEq, Prod.mk.injEq] at step
    obtain ⟨rfl, rfl⟩ := step
    split <;> exact .idle rfl rfl rfl
  | marking attempt =>
    cases step
    exact driveWrite_moves fun run isId => .started (by rw [isId]; rfl) _ attempt
  | body attempt startedAt =>
    cases driveStep_body step with
    | ends state outcome attempt startedAt terminal writes =>
      exact endRun_moves terminal _ _ _ writes
    | goesOn stage' writes => exact .idle rfl rfl rfl
  | sleeping attempt startedAt =>
    cases driveStep_sleeping step with
    | ends state outcome attempt startedAt terminal writes =>
      exact endRun_moves terminal _ _ _ writes
    | goesOn stage' writes => exact .idle rfl rfl rfl
  | silencing report =>
    simp only [driveStep, Option.some.injEq, Prod.mk.injEq] at step
    obtain ⟨rfl, rfl⟩ := step
    split
    · rename_i silent
      refine .change _ ?_ rfl (Or.inl ⟨rfl, rfl⟩) rfl
      rw [runWrite, if_pos silent]
      exact RunStore.discard_moves _ _ _
    · exact .idle rfl rfl rfl
  | releasing =>
    cases step
    refine .own _ (.refl _ _) ?_ (Or.inl ⟨rfl, rfl⟩)
    exact .dropped task rfl (by rw [Cluster.setSystem_same]; rfl)

end Moves

section Steps

variable [DecidableEq Value] {config : TaskConfig Value} {tick : TaskTick} {server : Nat}
  {before after : Cluster Value} {call' : TaskCall Value}

theorem submitStep_moves {stage : SubmitStage Value} {afterSubmit : AfterSubmit}
    (kept : ClusterKept before) (own : HolderKept before ⟨server, .submit stage task afterSubmit⟩)
    (step : submitStep config tick server before task afterSubmit stage = some (after, call')) :
    TaskMoves config tick server before (.submit stage task afterSubmit) after call' := by
  have left : ∀ {next : Cluster Value} (call : TaskCall Value), next.systems = before.systems →
      next.nextId = before.nextId → heldTask call = none →
      TaskMoves config tick server before (.submit stage task afterSubmit) next call := by
    intro next call systems ids isFree
    refine .still systems ?_
    rw [isFree]
    exact .dropped task ids (by rw [systems])
  cases stage with
  | reserving admission =>
    simp only [submitStep] at step
    split at step
    · cases step
      exact left _ rfl rfl (heldTask_failed _ _)
    · rename_i store reserved
      cases step
      obtain ⟨active, isNew⟩ := own.fresh admission task afterSubmit rfl
      exact .change _ (RunStore.reserve_moves (kept.distinct server) isNew active reserved) rfl
        (Or.inr ⟨admission, task, afterSubmit, rfl⟩) rfl
  | stamping =>
    cases step
    exact .idle rfl rfl rfl
  | enqueueing now =>
    simp only [submitStep] at step
    split at step <;> cases step <;> exact .idle rfl rfl rfl
  | unreserving error =>
    cases step
    refine .own _ (RunStore.discard_moves _ _ _) ?_ (Or.inl ⟨rfl, rfl⟩)
    rw [heldTask_failed]
    exact .dropped task rfl (by rw [Cluster.setSystem_same])
  | spawning =>
    cases step
    refine .own _ (.refl _ _) ?_ (Or.inl ⟨rfl, rfl⟩)
    rw [heldTask_spawned]
    exact .spawned task rfl (by rw [Cluster.setSystem_same])

theorem taskStep_moves {call : TaskCall Value} (kept : ClusterKept before)
(own : HolderKept before ⟨server, call⟩)
    (step : taskStep config tick server before call = some (after, call')) :
    TaskMoves config tick server before call after call' := by
  cases call with
  | ticking key overlap | draining | graceful | reading now | counting =>
    cases step
    refine .idle rfl rfl ?_
    split <;> rfl
  | submitting submission afterSubmit =>
    simp only [taskStep] at step
    split at step
    · cases step
      refine .still rfl ?_
      exact .drawn _ (queuedRun_fields submission _ _).2.1 rfl rfl
    · cases step
      exact .idle rfl rfl (heldTask_failed _ _)
  | submit stage task afterSubmit => exact submitStep_moves kept own step
  | worker =>
    obtain ⟨task, found, taken⟩ := Option.map_eq_some_iff.mp step
    cases taken
    refine .own _ (.refl _ _) ?_ (Or.inl ⟨rfl, rfl⟩)
    exact .taken task tick.pick rfl found (by rw [Cluster.setSystem_same])
  | drive stage task permit => exact driveStep_moves step
  | firing active | installingPermits jobs | settingLimits limits | settingTaskLimits limits =>
    cases step
    exact .change _ (.refl _ _) rfl (Or.inl ⟨rfl, rfl⟩) rfl
  | interrupting =>
    cases step
    exact .change _ (RunStore.interruptActive_moves _ _ _) rfl (Or.inl ⟨rfl, rfl⟩) rfl
  | recovering | pruning =>
    cases step
    exact .idle rfl rfl rfl
  | examining now rows =>
    cases rows with
    | nil =>
      cases step
      exact .idle rfl rfl rfl
    | cons row rest =>
      cases step
      exact .idle rfl rfl (heldTask_examineRow _ _ _ _)
  | claiming now row rest =>
    simp only [taskStep] at step
    split at step <;> cases step <;> exact .idle rfl rfl rfl
  | closing id phase error processed now rest | pruningByCount cutoff =>
    simp only [taskStep, Option.some.injEq, Prod.mk.injEq] at step
    obtain ⟨rfl, rfl⟩ := step
    split <;> exact .idle rfl rfl rfl
  | installing jobs =>
    simp only [taskStep, Option.some.injEq] at step
    split at step <;> cases step
    · exact .change _ (.refl _ _) rfl (Or.inl ⟨rfl, rfl⟩) rfl
    · exact .idle rfl rfl rfl
  | pruningByAge now =>
    simp only [taskStep, Option.some.injEq] at step
    split at step <;> cases step <;> exact .idle rfl rfl rfl
  | done => simp [taskStep] at step

theorem taskStep_reserving {call : TaskCall Value} {admission : Admission Value}
    {afterSubmit : AfterSubmit} (step : taskStep config tick server before call =
      some (after, .submit (.reserving admission) task afterSubmit)) :
    ∃ submission, call = .submitting submission afterSubmit ∧
      admission = admissionOf config submission (before.systems server).limits ∧
      task = ⟨queuedRun submission before.nextId before.clock, submission.params⟩ ∧
      after = { before with nextId := before.nextId + 1 } := by
  have notFailed : ∀ (afterSubmit' : AfterSubmit) (error : String),
      ¬ (afterSubmit'.failed error : TaskCall Value) =
        .submit (.reserving admission) task afterSubmit := by
    intro afterSubmit' error
    cases afterSubmit' <;> simp [AfterSubmit.failed]
  have notSpawned : ∀ afterSubmit' : AfterSubmit,
      ¬ (afterSubmit'.spawned : TaskCall Value) =
        .submit (.reserving admission) task afterSubmit := by
    intro afterSubmit'
    cases afterSubmit' <;> simp [AfterSubmit.spawned]
  cases call with
  | submitting submission afterSubmit' =>
    simp only [taskStep] at step
    split at step
    · cases step
      exact ⟨submission, rfl, rfl, rfl, rfl⟩
    · rw [Option.some.injEq, Prod.mk.injEq] at step
      exact absurd step.2 (notFailed _ _)
  | submit stage task' afterSubmit' =>
    cases stage with
    | reserving admission' =>
      simp only [taskStep, submitStep] at step
      split at step
      · rw [Option.some.injEq, Prod.mk.injEq] at step
        exact absurd step.2 (notFailed _ _)
      · rw [Option.some.injEq, Prod.mk.injEq] at step
        split at step <;> cases step.2
    | stamping => cases step
    | enqueueing now =>
      simp only [taskStep, submitStep] at step
      split at step <;> cases step
    | unreserving error => simp [taskStep, submitStep, notFailed] at step
    | spawning => simp [taskStep, submitStep, notSpawned] at step
  | drive stage task' permit =>
    obtain ⟨stage', isDrive⟩ | isDone := driveStep_call step
    · cases isDrive
    · cases isDone
  | examining now rows =>
    cases rows with
    | nil => cases step
    | cons row rest =>
      simp only [taskStep, examineRow, Option.some.injEq, Prod.mk.injEq] at step
      split at step
      · cases step.2
      · split at step <;> cases step.2
  | claiming now row rest =>
    simp only [taskStep] at step
    split at step <;> cases step
  | installing jobs | pruningByAge now =>
    simp only [taskStep, Option.some.injEq] at step
    split at step <;> cases step
  | worker =>
    obtain ⟨task', -, taken⟩ := Option.map_eq_some_iff.mp step
    cases taken
  | done => cases step
  | _ =>
    simp only [taskStep, Option.some.injEq, Prod.mk.injEq] at step
    obtain ⟨-, step⟩ := step
    first
      | cases step
      | split at step <;> cases step

end Steps

/-! ## The steps keep it -/

variable {thread : TaskThread Value}

section Keeps

variable {config : TaskConfig Value} {tick : TaskTick} {server : Nat} {before after : Cluster Value}
    {call call' : TaskCall Value} {held held' : Option (Task Value)}

theorem HoldMoves.nextId_le (moves : HoldMoves before after server held held') :
    before.nextId ≤ after.nextId := by
  cases moves with
  | same held ids queue | dropped task ids queue | spawned task ids queue
  | taken task index ids found queue => exact Nat.le_of_eq ids.symm
  | drawn task isNew ids queue => exact ids ▸ Nat.le_succ _

theorem HoldMoves.queued (moves : HoldMoves before after server held held')
    (listed : task ∈ (after.systems server).spawned) :
    task ∈ (before.systems server).spawned ∨ held = some task := by
  cases moves with
  | same held ids queue | drawn task' isNew ids queue | dropped task' ids queue =>
    exact Or.inl (queue ▸ listed)
  | spawned task' ids queue =>
    rw [queue] at listed
    rcases List.mem_append.mp listed with old | new
    · exact Or.inl old
    · exact Or.inr (by rw [List.mem_singleton.mp new])
  | taken task' index ids found queue =>
    rw [queue] at listed
    exact Or.inl (List.mem_of_mem_eraseIdx listed)

theorem HoldMoves.once (moves : HoldMoves before after server held held')
    (once : ((before.systems server).spawned.map fun task => task.run.id).Nodup)
    (apart : ∀ task, held = some task → ∀ entry ∈ (before.systems server).spawned,
      entry.run.id ≠ task.run.id) :
    ((after.systems server).spawned.map fun task => task.run.id).Nodup := by
  cases moves with
  | same held ids queue | drawn task isNew ids queue | dropped task ids queue => exact queue ▸ once
  | spawned task ids queue =>
    rw [queue, List.map_append, List.map_singleton, List.nodup_append]
    refine ⟨once, List.nodup_singleton _, ?_⟩
    intro id isOld id' isNew
    obtain ⟨entry, listed, rfl⟩ := List.mem_map.mp isOld
    rw [List.mem_singleton.mp isNew]
    exact apart task rfl entry listed
  | taken task index ids found queue =>
    rw [queue]
    exact once.sublist ((List.eraseIdx_sublist _ _).map _)

theorem HoldMoves.taken_apart (moves : HoldMoves before after server none held')
    (once : ((before.systems server).spawned.map fun task => task.run.id).Nodup)
    (below : ∀ entry ∈ (before.systems server).spawned, entry.run.id < before.nextId)
    (held : held' = some task) :
    ∀ entry ∈ (after.systems server).spawned, entry.run.id ≠ task.run.id := by
  intro entry listed
  cases moves with
  | same held ids queue => cases held
  | drawn task' isNew ids queue =>
    cases held
    rw [queue] at listed
    have isBelow := below entry listed
    rw [← isNew] at isBelow
    exact Nat.ne_of_lt isBelow
  | taken task' index ids found queue =>
    cases held
    rw [queue] at listed
    obtain ⟨there, isTask⟩ := List.getElem?_eq_some_iff.mp found
    have onceEach := ((List.getElem_cons_eraseIdx_perm there).map
      fun entry : Task Value => entry.run.id).nodup_iff.mpr once
    rw [isTask, List.map_cons, List.nodup_cons] at onceEach
    intro sameId
    exact onceEach.1 (List.mem_map.mpr ⟨entry, listed, sameId⟩)

theorem TaskMoves.queued (moves : TaskMoves config tick server before call after call')
    {other : Nat} (listed : task ∈ (after.systems other).spawned) :
    task ∈ (before.systems other).spawned ∨ (other = server ∧ heldTask call = some task) := by
  by_cases here : other = server
  · subst here
    exact (moves.held.queued listed).imp_right fun held => ⟨rfl, held⟩
  · rw [moves.frame other here] at listed
    exact Or.inl listed

theorem heldTask_of_runWrite {system : TaskSystem Value} {id : RunId}
    (writes : (runWrite config tick system call).run = some id) :
    ∃ task, heldTask call = some task ∧ task.run.id = id := by
  cases call with
  | submit stage task after =>
    refine ⟨task, rfl, ?_⟩
    cases stage with
    | reserving admission | unreserving error => exact Option.some.inj writes
    | _ => cases writes
  | drive stage task permit =>
    refine ⟨task, rfl, ?_⟩
    cases stage with
    | marking attempt => exact Option.some.inj writes
    | body attempt startedAt =>
      rw [runWrite] at writes
      split at writes
      · split at writes
        · exact Option.some.inj writes
        · cases writes
      · exact Option.some.inj writes
    | sleeping attempt startedAt | silencing report =>
      rw [runWrite] at writes
      split at writes
      · exact Option.some.inj writes
      · cases writes
    | _ => cases writes
  | _ => cases writes

theorem ClusterKept.step (kept : ClusterKept before) (own : HolderKept before ⟨server, call⟩)
    (moves : TaskMoves config tick server before call after call') : ClusterKept after := by
  have grows := moves.held.nextId_le
  refine ⟨fun other run listed => ?_, fun other => ?_, fun other task listed => ?_,
    fun other => ?_, fun first second distinct task isFirst task' isSecond => ?_⟩
  · refine Nat.lt_of_lt_of_le ?_ grows
    by_cases here : other = server
    · subst here
      rcases moves.store.cases listed with ⟨isHeld, -, -⟩ | ⟨old, member, sameId, -⟩
      · obtain ⟨task, held, isId⟩ := heldTask_of_runWrite (by rw [isHeld]; rfl)
        rw [← isId]
        exact own.known task held
      · rw [sameId]
        exact kept.stored other old member
    · rw [moves.frame other here] at listed
      exact kept.stored other run listed
  · by_cases here : other = server
    · subst here
      exact moves.store.ids_nodup (kept.distinct other)
    · rw [moves.frame other here]
      exact kept.distinct other
  · refine Nat.lt_of_lt_of_le ?_ grows
    rcases moves.queued listed with old | ⟨-, held⟩
    · exact kept.spawned other task old
    · exact own.known task held
  · by_cases here : other = server
    · subst here
      have once := kept.spawnedOnce other
      exact moves.held.once once fun task held entry listed =>
        own.apart task held other entry listed
    · rw [moves.frame other here]
      exact kept.spawnedOnce other
  · rcases moves.queued isFirst with old | ⟨here, held⟩
    · rcases moves.queued isSecond with old' | ⟨here', held'⟩
      · exact kept.spawnedApart first second distinct task old task' old'
      · exact own.apart task' held' first task old
    · rcases moves.queued isSecond with old' | ⟨here', held'⟩
      · exact (own.apart task held second task' old').symm
      · exact absurd (here.trans here'.symm) distinct

theorem HoldMoves.known (moves : HoldMoves before after server held held')
    (below : ∀ entry ∈ (before.systems server).spawned, entry.run.id < before.nextId)
    (known : ∀ task, held = some task → task.run.id < before.nextId) (isHeld : held' = some task) :
    task.run.id < after.nextId := by
  cases moves with
  | same held ids queue =>
    rw [ids]
    exact known task isHeld
  | drawn task' isNew ids queue =>
    cases isHeld
    rw [ids, isNew]
    exact Nat.lt_succ_self _
  | dropped task' ids queue | spawned task' ids queue => cases isHeld
  | taken task' index ids found queue =>
    cases isHeld
    rw [ids]
    exact below task (List.mem_of_getElem? found)

theorem HoldMoves.apart (moves : HoldMoves before after server held held')
    (once : ((before.systems server).spawned.map fun task => task.run.id).Nodup)
    (below : ∀ entry ∈ (before.systems server).spawned, entry.run.id < before.nextId)
    (apart : ∀ task, held = some task → ∀ entry ∈ (before.systems server).spawned,
      entry.run.id ≠ task.run.id) (isHeld : held' = some task) :
    ∀ entry ∈ (after.systems server).spawned, entry.run.id ≠ task.run.id := by
  cases hold : held with
  | none =>
    subst hold
    exact moves.taken_apart once below isHeld
  | some task' =>
    subst hold
    cases moves with
    | same held ids queue =>
      rw [queue]
      exact apart task isHeld
    | dropped _ ids queue | spawned _ ids queue => cases isHeld

/-- A task that another call holds, or that is new to the call, is not one of its own. -/
theorem HoldMoves.other (moves : HoldMoves before after server held held') {other : Task Value}
    (known : other.run.id < before.nextId)
    (queue : ∀ entry ∈ (before.systems server).spawned, entry.run.id ≠ other.run.id)
    (apart : ∀ task, held = some task → task.run.id ≠ other.run.id) (isHeld : held' = some task) :
    task.run.id ≠ other.run.id := by
  cases moves with
  | same held ids queue => exact apart task isHeld
  | drawn task' isNew ids queue' =>
    cases isHeld
    rw [isNew]
    exact (Nat.ne_of_lt known).symm
  | dropped task' ids queue' | spawned task' ids queue' => cases isHeld
  | taken task' index ids found queue' =>
    cases isHeld
    exact queue task (List.mem_of_getElem? found)

/-- The call that takes the step.  `fresh` is about a submission that has just drawn its run. -/
theorem HolderKept.step (kept : ClusterKept before) (own : HolderKept before ⟨server, call⟩)
    (moves : TaskMoves config tick server before call after call')
    (fresh : ∀ admission task afterSubmit, call' = .submit (.reserving admission) task afterSubmit →
      task.run.state.isActive = true ∧
        ∀ run ∈ (after.systems server).store.runs, run.id ≠ task.run.id) :
    HolderKept after ⟨server, call'⟩ := by
  refine ⟨fun task held => ?_, fun task held other entry listed => ?_, fresh⟩
  · exact moves.held.known (kept.spawned server) own.known held
  · by_cases here : other = server
    · subst here
      exact moves.held.apart (kept.spawnedOnce other) (kept.spawned other)
        (fun task' held' => own.apart task' held' other) held entry listed
    · rw [moves.frame other here] at listed
      have known := kept.spawned other entry listed
      refine (moves.held.other known ?_ ?_ held).symm
      · exact fun entry' listed' =>
          kept.spawnedApart server other (Ne.symm here) entry' listed' entry listed
      · exact fun task' held' => (own.apart task' held' other entry listed).symm

theorem HolderKept.other (moves : TaskMoves config tick server before call after call')
    (others : HolderKept before thread) (apart : HeldApart ⟨server, call⟩ thread) :
    HolderKept after thread := by
  have grows := moves.held.nextId_le
  refine ⟨fun task held => Nat.lt_of_lt_of_le (others.known task held) grows,
    fun task held other entry listed => ?_, fun admission task afterSubmit isCall => ?_⟩
  · rcases moves.queued listed with old | ⟨-, isHeld⟩
    · exact others.apart task held other entry old
    · exact apart entry task isHeld held
  · obtain ⟨active, isNew⟩ := others.fresh admission task afterSubmit isCall
    refine ⟨active, fun run listed => ?_⟩
    by_cases here : thread.server = server
    · rw [here] at listed isNew
      rcases moves.store.cases listed with ⟨isHeld, -, -⟩ | ⟨old, member, sameId, -⟩
      · obtain ⟨task', held', isId⟩ := heldTask_of_runWrite (by rw [isHeld]; rfl)
        rw [← isId]
        exact apart task' task held' (by rw [isCall]; rfl)
      · rw [sameId]
        exact isNew old member
    · rw [moves.frame _ here] at listed
      exact isNew run listed

structure ServeMoves (before after : Cluster Value) : Prop where
  store : ∀ server, StoreMoves .nothing (before.systems server).store.runs
    (after.systems server).store.runs
  queue : ∀ server, (after.systems server).spawned = (before.systems server).spawned
  ids : after.nextId = before.nextId
  reserve : ∀ server, SameReserve (before.systems server) (after.systems server)

theorem ServeMoves.change (server : Nat) (change : TaskSystem Value → TaskSystem Value)
    (store : StoreMoves .nothing (before.systems server).store.runs
      (change (before.systems server)).store.runs)
    (queue : (change (before.systems server)).spawned = (before.systems server).spawned)
    (reserve : SameReserve (before.systems server) (change (before.systems server))) :
    ServeMoves before (before.setSystem server change) := by
  refine ⟨fun other => ?_, fun other => ?_, rfl, fun other => ?_⟩
  · by_cases here : other = server
    · subst here
      rw [Cluster.setSystem_same]
      exact store
    · rw [Cluster.setSystem_other _ _ _ here]
      exact .refl _ _
  · by_cases here : other = server
    · subst here
      rw [Cluster.setSystem_same, queue]
    · rw [Cluster.setSystem_other _ _ _ here]
  · by_cases here : other = server
    · subst here
      rw [Cluster.setSystem_same]
      exact reserve
    · rw [Cluster.setSystem_other _ _ _ here]
      exact ⟨rfl, rfl⟩

theorem park_change (run : JobRun Value) : RunChange .nothing run (park run) := by
  unfold park
  split
  · rename_i running
    exact .kept rfl rfl rfl rfl rfl (Or.inr ⟨by rw [running]; rfl, rfl⟩)
  · exact .refl .nothing run

theorem unpark_change (run : JobRun Value) : RunChange .nothing run (unpark run) := by
  unfold unpark
  split
  · rename_i parked
    exact .kept rfl rfl rfl rfl rfl (Or.inr ⟨by rw [parked]; rfl, rfl⟩)
  · exact .refl .nothing run

theorem serveTask_moves (config : TaskConfig Value) (cluster : Cluster Value)
    (request : TaskRequest Value) : ServeMoves cluster (serveTask config cluster request) := by
  have updated : ∀ (server : Nat) (id : RunId) (f : JobRun Value → JobRun Value),
      (∀ run, RunChange .nothing run (f run)) → ServeMoves cluster
        (cluster.setStore server fun store => store.update config.footprint id f) := by
    intro server id f changes
    refine .change server _ ?_ ?_ ?_
    · exact RunStore.update_moves _ _ fun run _ _ => changes run
    · rfl
    · exact ⟨rfl, rfl⟩
  cases request with
  | setClock now => exact ⟨fun _ => .refl _ _, fun _ => rfl, rfl, fun _ => ⟨rfl, rfl⟩⟩
  | cancel server id =>
    refine .change server _ ?_ ?_ ?_
    · split <;> exact .refl _ _
    · split <;> rfl
    · split <;> exact ⟨rfl, rfl⟩
  | sweep server =>
    rw [serveTask, Cluster.setStore]
    refine .change server _ ?_ ?_ ?_
    · exact RunStore.sweep_moves _ _ _
    · rfl
    · exact ⟨rfl, rfl⟩
  | park server id => exact updated server id park park_change
  | unpark server id => exact updated server id unpark unpark_change
  | report server id progress =>
    exact updated server id _ fun run => .kept rfl rfl rfl rfl rfl (Or.inl rfl)
  | detail server id key value =>
    refine updated server id _ fun run => ?_
    obtain ⟨state, id', key', owner, params, finishedAt⟩ := setDetail_fields key value run
    exact .kept id' key' owner params finishedAt (Or.inl state)
  | stop server =>
    rw [serveTask]
    refine .change server _ ?_ ?_ ?_
    · exact .refl _ _
    · rfl
    · exact ⟨rfl, rfl⟩

theorem ServeMoves.stored (moves : ServeMoves before after) {server : Nat} {run : JobRun Value}
    (listed : run ∈ (after.systems server).store.runs) :
    ∃ old ∈ (before.systems server).store.runs, run.id = old.id ∧ RunChange .nothing old run := by
  rcases (moves.store server).cases listed with ⟨isHeld, -, -⟩ | old
  · cases isHeld
  · exact old

theorem ClusterKept.serve (kept : ClusterKept before) (moves : ServeMoves before after) :
    ClusterKept after := by
  refine ⟨fun server run listed => ?_, fun server => (moves.store server).ids_nodup
    (kept.distinct server), fun server => ?_, fun server => ?_, fun server other => ?_⟩
  · obtain ⟨old, member, sameId, -⟩ := moves.stored listed
    rw [sameId, moves.ids]
    exact kept.stored server old member
  · rw [moves.queue, moves.ids]
    exact kept.spawned server
  · rw [moves.queue]
    exact kept.spawnedOnce server
  · rw [moves.queue, moves.queue]
    exact kept.spawnedApart server other

theorem HolderKept.serve (own : HolderKept before thread) (moves : ServeMoves before after) :
    HolderKept after thread := by
  refine ⟨fun task held => ?_, fun task held server => ?_, fun admission task afterSubmit isCall =>
    ?_⟩
  · rw [moves.ids]
    exact own.known task held
  · rw [moves.queue]
    exact own.apart task held server
  · obtain ⟨active, isNew⟩ := own.fresh admission task afterSubmit isCall
    refine ⟨active, fun run listed => ?_⟩
    obtain ⟨old, member, sameId, -⟩ := moves.stored listed
    rw [sameId]
    exact isNew old member

end Keeps

/-! ## Whole runs -/

/-- Servers that start: no run is stored or spawned. -/
def ClusterStarts (cluster : Cluster Value) : Prop :=
  cluster.claims = [] ∧ (∀ row ∈ cluster.journal, row.id < cluster.nextId) ∧
    (cluster.journal.map JobRunRow.id).Nodup ∧
    ∀ server, (cluster.systems server).store.runs = [] ∧ (cluster.systems server).spawned = []

section Runs

variable [DecidableEq Value] {config : TaskConfig Value}
  {guard : Threads (Cluster Value) (TaskThread Value) →
    ThreadAction (TaskRequest Value) (TaskJob Value) TaskTick → Prop}
  {state : Threads (Cluster Value) (TaskThread Value)}

theorem advance_eq_some_iff {tick : TaskTick} {cluster : Cluster Value}
    {after : Cluster Value × TaskThread Value} :
    (taskProgram config).advance tick cluster thread = some after ↔
      (cluster.systems thread.server).stopped = false ∧ after.2.server = thread.server ∧
        taskStep config tick thread.server cluster thread.call = some (after.1, after.2.call) := by
  obtain ⟨after, server', call'⟩ := after
  show (if _ then none else _) = _ ↔ _
  cases stopped : (cluster.systems thread.server).stopped with
  | true => simp
  | false =>
    simp only [Bool.false_eq_true, if_false, Option.map_eq_some_iff, Prod.mk.injEq,
      TaskThread.mk.injEq, true_and]
    constructor
    · rintro ⟨⟨next, call⟩, step, rfl, rfl, rfl⟩
      exact ⟨rfl, step⟩
    · rintro ⟨rfl, step⟩
      exact ⟨_, step, rfl, rfl, rfl⟩

theorem heldTask_begin (config : TaskConfig Value) (job : TaskJob Value) :
    heldTask ((taskProgram config).begin job).call = none := by
  cases job <;> rfl

theorem holders_kept
    (reached : ((taskProgram config).system ClusterStarts).Reachable guard state) :
    ClusterKept state.shared ∧ (∀ thread ∈ state.running, HolderKept state.shared thread) ∧
      ∀ (i j : Nat) (first second : TaskThread Value), i ≠ j → state.running[i]? = some first →
        state.running[j]? = some second → HeldApart first second := by
  refine Program.threads_invariant_pairs ?_ ?_ ?_ ?_ reached
  · intro cluster job kept
    have free := heldTask_begin config job
    refine ⟨⟨fun task held => ?_, fun task held => ?_, fun admission task afterSubmit isCall => ?_⟩,
      fun other => ⟨fun task task' held => ?_, fun task task' _ held => ?_⟩⟩
    · simp [free] at held
    · simp [free] at held
    · simp [isCall] at free
    · simp [free] at held
    · simp [free] at held
  · intro before request kept holders _
    have moves := serveTask_moves config before.shared request
    exact ⟨kept.serve moves, fun thread member => (holders thread member).serve moves⟩
  · intro before index thread tick after kept own found _ moved
    obtain ⟨-, sameServer, step⟩ := advance_eq_some_iff.mp moved
    obtain ⟨server, call⟩ := thread
    obtain ⟨after, server', call'⟩ := after
    obtain rfl : server' = server := sameServer
    have moves := taskStep_moves kept own step
    refine ⟨kept.step own moves, ?_, fun other others apart apart' =>
      ⟨others.other moves apart, ?_, ?_⟩⟩
    · refine HolderKept.step kept own moves fun admission task afterSubmit isCall => ?_
      subst isCall
      obtain ⟨submission, -, -, rfl, rfl⟩ := taskStep_reserving step
      obtain ⟨queued, isId, -⟩ := queuedRun_fields submission before.shared.nextId
        before.shared.clock
      refine ⟨by rw [queued]; rfl, fun run listed => ?_⟩
      rw [isId]
      exact Nat.ne_of_lt (kept.stored server' run listed)
    · intro task task' held held'
      exact moves.held.other (others.known task' held') (others.apart task' held' server')
        (fun task'' held'' => apart task'' task' held'' held') held
    · intro task' task held' held
      exact (moves.held.other (others.known task' held') (others.apart task' held' server')
        (fun task'' held'' => apart task'' task' held'' held') held).symm
  · rintro cluster ⟨-, -, -, empty⟩
    refine ⟨fun server run listed => ?_, fun server => ?_, fun server task listed => ?_,
      fun server => ?_, fun server other _ task listed => ?_⟩
    · simp [(empty server).1] at listed
    · simp [(empty server).1]
    · simp [(empty server).2] at listed
    · simp [(empty server).2]
    · simp [(empty server).2] at listed

end Runs

end Nanofile
