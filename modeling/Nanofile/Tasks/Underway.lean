import Nanofile.Tasks.RunHolders

/-!
# Runs underway

A run is underway from its reserve to the end of its execution: with the call that submits it, with
the runtime, or with the drive that executes it.
-/

set_option autoImplicit false

namespace Nanofile

variable {Value : Type}

/-- The task that a call has reserved and not executed to the end. -/
def underway : TaskCall Value → Option (Task Value)
  | .submit (.reserving _) _ _ => none
  | .submit _ task _ => some task
  | .drive (.recording _) _ _ => none
  | .drive (.silencing _) _ _ => none
  | .drive .releasing _ _ => none
  | .drive _ task _ => some task
  | _ => none

def RunWrite.keepsOpen : RunWrite → Prop
  | .finish _ | .drop _ => False
  | _ => True

theorem heldTask_of_underway {call : TaskCall Value} {task : Task Value}
    (isUnderway : underway call = some task) : heldTask call = some task := by
  cases call with
  | submit stage task' after =>
    cases stage with
    | reserving admission => cases isUnderway
    | _ => exact isUnderway
  | drive stage task' permit =>
    cases stage with
    | recording report | silencing report | releasing => cases isUnderway
    | _ => exact isUnderway
  | _ => cases isUnderway

@[simp] theorem underway_failed (after : AfterSubmit) (error : String) :
    underway (after.failed error : TaskCall Value) = none := by
  cases after <;> rfl

@[simp] theorem underway_spawned (after : AfterSubmit) :
    underway (after.spawned : TaskCall Value) = none := by
  cases after <;> rfl

theorem underway_begin (config : TaskConfig Value) [DecidableEq Value] (job : TaskJob Value) :
    underway ((taskProgram config).begin job).call = none := by
  cases job <;> rfl

variable {config : TaskConfig Value} {tick : TaskTick} {server : Nat}
  {before after : Cluster Value} {call call' : TaskCall Value} {task : Task Value}
    {permit : Option Nat} {stage : DriveStage} {task' : Task Value}

theorem DriveTries.underway
    (tries : DriveTries config tick server before task' permit stage after call')
    (isUnderway : underway call' = some task) : heldTask (.drive stage task' permit) = some task ∧
      (runWrite config tick (before.systems server) (.drive stage task' permit)).keepsOpen := by
  cases tries with
  | ends => cases isUnderway
  | goesOn stage' writes =>
    have held := heldTask_of_underway isUnderway
    rw [writes]
    exact ⟨held, trivial⟩

theorem driveStep_underway
    (step : driveStep config tick server before task' permit stage = some (after, call'))
    (isUnderway : underway call' = some task) : underway (.drive stage task' permit) = some task ∧
      (runWrite config tick (before.systems server) (.drive stage task' permit)).keepsOpen := by
  cases stage with
  | waiting =>
    obtain ⟨stage', rfl⟩ | rfl := driveStep_call step
    · have held := heldTask_of_underway isUnderway
      exact ⟨held, trivial⟩
    · cases isUnderway
  | body attempt startedAt => exact (driveStep_body step).underway isUnderway
  | sleeping attempt startedAt => exact (driveStep_sleeping step).underway isUnderway
  | recording report | silencing report | releasing =>
    cases step
    cases isUnderway
  | _ =>
    cases step
    exact ⟨isUnderway, trivial⟩

section Steps

variable [DecidableEq Value]

inductive UnderwayFrom (config : TaskConfig Value) (server : Nat) (before after : Cluster Value)
    (call : TaskCall Value) (task : Task Value) : Prop
  | already (held : underway call = some task)
  | reserved (admission : Admission Value) (afterSubmit : AfterSubmit)
      (isCall : call = .submit (.reserving admission) task afterSubmit) (store : RunStore Value)
      (granted : (before.systems server).store.reserve config.footprint config.json task.run
        admission = .ok store)
      (isAfter : after = before.setSystem server fun system => system.admitted store admission)
  | queued (isCall : call = .worker) (listed : task ∈ (before.systems server).spawned)

theorem submitStep_underway {stage : SubmitStage Value} {afterSubmit : AfterSubmit}
    (step : submitStep config tick server before task' afterSubmit stage = some (after, call'))
    (isUnderway : underway call' = some task) :
    UnderwayFrom config server before after (.submit stage task' afterSubmit) task := by
  cases stage with
  | reserving admission =>
    simp only [submitStep] at step
    split at step
    · cases step
      simp at isUnderway
    · rename_i store granted
      cases step
      have isTask : task' = task := by
        split at isUnderway <;> exact Option.some.inj isUnderway
      subst isTask
      exact .reserved admission afterSubmit rfl store granted rfl
  | stamping =>
    cases step
    exact .already isUnderway
  | enqueueing now =>
    simp only [submitStep] at step
    split at step <;> cases step <;> exact .already isUnderway
  | unreserving error | spawning =>
    cases step
    simp at isUnderway

/-- A call comes to hold a task by drawing its run or by taking it from the runtime. -/
theorem taskStep_begins (step : taskStep config tick server before call = some (after, call'))
    (free : heldTask call = none) (held : heldTask call' = some task) :
    (∃ admission afterSubmit, call' = .submit (.reserving admission) task afterSubmit ∧
        task.run.id = before.nextId) ∨
      call = .worker ∧ ∃ permit, call' = .drive .waiting task permit ∧
        task ∈ (before.systems server).spawned := by
  cases call with
  | submit stage task' afterSubmit | drive stage task' permit => cases free
  | submitting submission afterSubmit =>
    simp only [taskStep] at step
    split at step
    · cases step
      cases held
      exact Or.inl ⟨_, _, rfl, (queuedRun_fields submission _ _).2.1⟩
    · cases step
      simp at held
  | worker =>
    obtain ⟨entry, found, taken⟩ := Option.map_eq_some_iff.mp step
    cases taken
    cases held
    exact Or.inr ⟨rfl, _, rfl, List.mem_of_getElem? found⟩
  | examining now rows =>
    cases rows with
    | nil =>
      cases step
      cases held
    | cons row rest =>
      cases step
      rw [heldTask_examineRow] at held
      cases held
  | claiming now row rest =>
    simp only [taskStep] at step
    split at step <;> cases step <;> cases held
  | installing jobs | pruningByAge now =>
    simp only [taskStep, Option.some.injEq] at step
    split at step <;> cases step <;> cases held
  | done => cases step
  | _ =>
    simp only [taskStep, Option.some.injEq, Prod.mk.injEq] at step
    obtain ⟨-, rfl⟩ := step
    first
      | cases held
      | split at held <;> cases held

theorem taskStep_underway (step : taskStep config tick server before call = some (after, call'))
    (isUnderway : underway call' = some task) :
    UnderwayFrom config server before after call task ∧
      (runWrite config tick (before.systems server) call).keepsOpen := by
  have begun : heldTask call = none → UnderwayFrom config server before after call task ∧
      (runWrite config tick (before.systems server) call).keepsOpen := by
    intro free
    rcases taskStep_begins step free (heldTask_of_underway isUnderway) with
      ⟨admission, afterSubmit, rfl, -⟩ | ⟨rfl, permit, rfl, listed⟩
    · cases isUnderway
    · exact ⟨.queued rfl listed, trivial⟩
  cases call with
  | submit stage task' afterSubmit =>
    refine ⟨submitStep_underway step isUnderway, ?_⟩
    cases stage with
    | unreserving error =>
      cases step
      simp at isUnderway
    | _ => trivial
  | drive stage task' permit =>
    obtain ⟨already, open'⟩ := driveStep_underway step isUnderway
    exact ⟨.already already, open'⟩
  | _ => exact begun rfl

omit [DecidableEq Value] in
theorem driveStep_keeps {α : Type} (field : TaskSystem Value → α)
    (same : ∀ (system : TaskSystem Value) store available cancels,
      field { system with store := store, available := available, cancels := cancels } =
        field system)
    (step : driveStep config tick server before task permit stage = some (after, call'))
    (other : Nat) : field (after.systems other) = field (before.systems other) := by
  have changed : ∀ change : TaskSystem Value → TaskSystem Value,
      (∀ system, field (change system) = field system) →
      field ((before.setSystem server change).systems other) = field (before.systems other) :=
    fun change same => before.setSystem_keeps server change field same other
  cases stage with
  | waiting =>
    simp only [driveStep] at step
    split at step
    · cases step
      rfl
    · split at step <;> cases step
      exact changed _ fun _ => same _ _ _ _
  | stamping =>
    cases step
    rfl
  | markingRow now | recording report =>
    simp only [driveStep, Option.some.injEq, Prod.mk.injEq] at step
    obtain ⟨rfl, -⟩ := step
    split <;> rfl
  | marking attempt | releasing =>
    cases step
    exact changed _ fun _ => same _ _ _ _
  | body attempt startedAt =>
    cases driveStep_body step with
    | ends => exact changed _ fun _ => same _ _ _ _
    | goesOn => rfl
  | sleeping attempt startedAt =>
    cases driveStep_sleeping step with
    | ends => exact changed _ fun _ => same _ _ _ _
    | goesOn => rfl
  | silencing report =>
    simp only [driveStep, Option.some.injEq, Prod.mk.injEq] at step
    obtain ⟨rfl, -⟩ := step
    split
    · exact changed _ fun _ => same _ _ _ _
    · rfl

variable {other : Nat}

section

variable (moves : TaskMoves config tick server before call after call')
    (step : taskStep config tick server before call = some (after, call'))
    (listed : task ∈ (after.systems other).spawned)
include moves step listed

theorem taskStep_spawns :
    task ∈ (before.systems other).spawned ∨
      (other = server ∧ ∃ afterSubmit, call = .submit .spawning task afterSubmit) := by
  rcases moves.queued listed with old | ⟨rfl, held⟩
  · exact Or.inl old
  · cases call with
    | submit stage task' afterSubmit =>
      cases stage with
      | reserving admission =>
        simp only [taskStep, submitStep] at step
        split at step
        · cases step
          exact Or.inl listed
        · cases step
          rw [Cluster.setSystem_same] at listed
          exact Or.inl listed
      | stamping =>
        cases step
        exact Or.inl listed
      | enqueueing now =>
        simp only [taskStep, submitStep] at step
        split at step <;> cases step <;> exact Or.inl listed
      | unreserving error =>
        cases step
        rw [Cluster.setStore, Cluster.setSystem_same] at listed
        exact Or.inl listed
      | spawning =>
        cases held
        exact Or.inr ⟨rfl, afterSubmit, rfl⟩
    | drive stage task' permit =>
      rw [driveStep_keeps TaskSystem.spawned (fun _ _ _ _ => rfl) step] at listed
      exact Or.inl listed
    | _ => cases held

theorem taskStep_queued :
    task ∈ (before.systems other).spawned ∨ (other = server ∧ underway call = some task ∧
      runWrite config tick (before.systems server) call = .nothing) := by
  refine (taskStep_spawns moves step listed).imp_right ?_
  rintro ⟨isServer, afterSubmit, rfl⟩
  exact ⟨isServer, rfl, rfl⟩

end

end Steps

end Nanofile
