import Nanofile.Tasks.Underway

/-!
# What a step does to the journal

Rows are inserted under the id of the run that a call holds; a mark of an execution renews the
lease, a finish ends a row, and a claim takes a row whose lease is over.
-/

set_option autoImplicit false

namespace Nanofile

variable {Value : Type}

inductive RowWrite where
  | nothing
  /-- A row under a lease. -/
  | enqueue (id : RunId) (lease : Int)
  /-- A row of a finished run. -/
  | record (id : RunId)
  | mark (id : RunId) (lease : Int)
  | close (id : RunId)
  | claim (id : RunId) (attempt now : Int)
  | prune

def RowWrite.inserted : RowWrite → Option RunId
  | .enqueue id _ => some id
  | .record id => some id
  | _ => none

/-- The lease that a step stores for a run underway. -/
def RowWrite.stored : RowWrite → Option Int
  | .enqueue _ lease => some lease
  | .mark _ lease => some lease
  | _ => none

def rowWrite (config : TaskConfig Value) : TaskCall Value → RowWrite
  | .submit (.enqueueing now) task _ =>
    .enqueue task.run.id (QueuePolicy.standard.leaseUntil now)
  | .drive (.markingRow now) task _ => .mark task.run.id (QueuePolicy.standard.leaseUntil now)
  | .drive (.recording _) task _ =>
    if (config.policy task.run.key).journaledFromTheStart then .close task.run.id
    else .record task.run.id
  | .claiming now row _ => .claim row.id row.attempt now
  | .closing id _ _ _ _ _ => .close id
  | .pruningByAge _ => .prune
  | .pruningByCount _ => .prune
  | _ => .nothing

inductive RowChange (write : RowWrite) : JobRunRow → JobRunRow → Prop
  | kept (row : JobRunRow) : RowChange write row row
  | marked {row row' : JobRunRow} {lease : Int} (mine : write = .mark row.id lease)
      (id : row'.id = row.id) (attempt : row'.attempt = row.attempt)
      (finishedAt : row'.finishedAt = row.finishedAt) (leased : row'.leaseUntil = some lease) :
      RowChange write row row'
  | closed {row row' : JobRunRow} (id : row'.id = row.id) (attempt : row'.attempt = row.attempt)
      (finished : row'.finishedAt.isSome = true) : RowChange write row row'
  | claimed {row row' : JobRunRow} {now : Int} (mine : write = .claim row.id row.attempt now)
      (isOpen : row.finishedAt = none) (isOver : JobRuns.leaseOver now row = true)
      (id : row'.id = row.id) (attempt : row'.attempt = row.attempt + 1)
      (finishedAt : row'.finishedAt = none) : RowChange write row row'

variable {row row' : JobRunRow}

theorem RowChange.id_eq {write : RowWrite} (change : RowChange write row row') :
    row'.id = row.id := by
  cases change with
  | kept => rfl
  | marked mine id attempt finishedAt leased | closed id attempt finished
  | claimed mine isOpen isOver id attempt finishedAt => exact id

theorem RowChange.attempt_le {write : RowWrite} (change : RowChange write row row') :
    row.attempt ≤ row'.attempt := by
  cases change with
  | kept => exact Int.le_refl _
  | marked mine id attempt finishedAt leased | closed id attempt finished =>
    exact Int.le_of_eq attempt.symm
  | claimed mine isOpen isOver id attempt finishedAt => omega

theorem RowChange.stays_finished {write : RowWrite} (change : RowChange write row row')
    (finished : row.finishedAt.isSome = true) : row'.finishedAt.isSome = true := by
  cases change with
  | kept => exact finished
  | marked mine id attempt finishedAt leased => rwa [finishedAt]
  | closed id attempt finished' => exact finished'
  | claimed mine isOpen isOver id attempt finishedAt => simp [isOpen] at finished

inductive JournalMoves (write : RowWrite) (before after : List JobRunRow) : Prop
  | intro (keep : JobRunRow → Bool) (change : JobRunRow → JobRunRow) (fresh : Option JobRunRow)
      (rows : after = (before.filter keep).map change ++ fresh.toList)
      (changes : ∀ row ∈ before, RowChange write row (change row))
      (isFresh : ∀ row, fresh = some row → write.inserted = some row.id ∧
        (∀ old ∈ before, old.id ≠ row.id) ∧
        (row.finishedAt.isSome = true ∨
          ∃ lease, write.stored = some lease ∧ row.leaseUntil = some lease))

variable {rows : List JobRunRow}

namespace JournalMoves

variable {write : RowWrite} {before after : List JobRunRow}

theorem filter (rows : List JobRunRow) (keep : JobRunRow → Bool) :
    JournalMoves write rows (rows.filter keep) := by
  refine .intro keep id none ?_ (fun row _ => .kept row) ?_
  · simp
  · intro row isFresh
    cases isFresh

theorem refl (write : RowWrite) (rows : List JobRunRow) : JournalMoves write rows rows := by
  have moves : JournalMoves write rows (rows.filter fun _ => true) := filter rows _
  rwa [List.filter_eq_self.mpr fun _ _ => rfl] at moves

theorem update {chosen : JobRunRow → Bool} {change : JobRunRow → JobRunRow}
    (changes : ∀ row ∈ rows, chosen row = true → RowChange write row (change row)) :
    JournalMoves write rows (JobRuns.updateWhere rows chosen change) := by
  refine .intro (fun _ => true) (fun row => if chosen row then change row else row) none ?_ ?_ ?_
  · rw [List.filter_eq_self.mpr fun _ _ => rfl]
    simp [JobRuns.updateWhere]
  · intro row listed
    split
    · rename_i isChosen
      exact changes row listed isChosen
    · exact .kept row
  · intro row isFresh
    cases isFresh

theorem insert (inserted : JobRuns.insert before row = some after)
    (mine : write.inserted = some row.id) (held : row.finishedAt.isSome = true ∨
      ∃ lease, write.stored = some lease ∧ row.leaseUntil = some lease) :
    JournalMoves write before after := by
  unfold JobRuns.insert at inserted
  split at inserted
  · cases inserted
  · rename_i isNew
    cases inserted
    refine .intro (fun _ => true) id (some row) ?_ (fun row _ => .kept row) ?_
    · rw [List.filter_eq_self.mpr fun _ _ => rfl]
      simp
    · intro fresh isFresh
      cases isFresh
      refine ⟨mine, fun old listed sameId => isNew ?_, held⟩
      exact List.any_eq_true.mpr ⟨old, listed, decide_eq_true sameId⟩

theorem cases (moves : JournalMoves write before after) (listed : row' ∈ after) :
    (write.inserted = some row'.id ∧ (∀ old ∈ before, old.id ≠ row'.id) ∧
        (row'.finishedAt.isSome = true ∨
          ∃ lease, write.stored = some lease ∧ row'.leaseUntil = some lease)) ∨
      ∃ row ∈ before, RowChange write row row' := by
  obtain ⟨keep, change, fresh, rows, changes, isFresh⟩ := moves
  rw [rows] at listed
  rcases List.mem_append.mp listed with old | new
  · obtain ⟨row, member, rfl⟩ := List.mem_map.mp old
    have member := (List.mem_filter.mp member).1
    exact Or.inr ⟨row, member, changes row member⟩
  · exact Or.inl (isFresh row' (Option.mem_toList.mp new))

theorem ids_nodup (moves : JournalMoves write before after)
    (distinct : (before.map JobRunRow.id).Nodup) : (after.map JobRunRow.id).Nodup := by
  obtain ⟨keep, change, fresh, rfl, changes, isFresh⟩ := moves
  have sameIds : ((before.filter keep).map change).map JobRunRow.id =
      (before.filter keep).map JobRunRow.id := by
    rw [List.map_map]
    exact List.map_congr_left fun row member =>
      (changes row (List.mem_filter.mp member).1).id_eq
  have oldDistinct : ((before.filter keep).map JobRunRow.id).Nodup :=
    distinct.sublist (List.filter_sublist.map _)
  rw [List.map_append, sameIds]
  cases fresh with
  | none => simpa using oldDistinct
  | some row =>
    have apart := (isFresh row rfl).2.1
    rw [Option.toList_some, List.map_singleton, List.nodup_append]
    refine ⟨oldDistinct, List.nodup_singleton _, ?_⟩
    intro id isOld other isNew
    obtain ⟨old, member, rfl⟩ := List.mem_map.mp isOld
    rw [List.mem_singleton.mp isNew]
    exact apart old (List.mem_filter.mp member).1

end JournalMoves

/-! ## The operations of the journal -/

variable {now : Int}

namespace JobRuns

variable {write : RowWrite}

theorem markRunning_moves (rows : List JobRunRow) (id : Nat) (startedAt lease : Int) :
    JournalMoves (.mark id lease) rows (markRunning rows id startedAt lease) := by
  refine .update fun row _ isId => ?_
  have isId : row.id = id := of_decide_eq_true isId
  exact .marked (by rw [isId]) rfl rfl rfl rfl

theorem finish_moves (rows : List JobRunRow) (id : Nat) (phase : String) (error : Option String)
    (processed : Option Int) (summary : Option String) (finishedAt : Int) :
    JournalMoves write rows (finish rows id phase error processed summary finishedAt) :=
  .update fun _ _ _ => .closed rfl rfl rfl

variable {attempt : Int} {id : Nat}

theorem claimable_iff :
    claimable id attempt now row = true ↔ row.id = id ∧ row.finishedAt = none ∧
      row.attempt = attempt ∧ leaseOver now row = true := by
  simp [claimable, and_assoc]

theorem claimForRecovery_moves (rows : List JobRunRow) (id : Nat) (attempt now lease : Int) :
    JournalMoves (.claim id attempt now) rows
      (claimForRecovery rows id attempt now lease).2 := by
  refine .update fun row _ isFree => ?_
  obtain ⟨isId, isOpen, isAttempt, isOver⟩ := claimable_iff.mp isFree
  exact .claimed (by rw [isId, isAttempt]) isOpen isOver rfl rfl isOpen

theorem attempt_claimed {lease : Int} (distinct : (rows.map JobRunRow.id).Nodup)
    (claimed : (claimForRecovery rows id attempt now lease).1 = true)
    (listed : row' ∈ (claimForRecovery rows id attempt now lease).2) (isId : row'.id = id) :
    attempt < row'.attempt := by
  obtain ⟨free, member, isFree⟩ := List.any_eq_true.mp claimed
  obtain ⟨freeId, -, freeAttempt, -⟩ := claimable_iff.mp isFree
  obtain ⟨row, member', rfl⟩ := List.mem_map.mp listed
  have sameId : row.id = free.id := by
    rw [freeId, ← isId]
    split <;> rfl
  obtain rfl : row = free := List.inj_on_of_nodup_map distinct member' member sameId
  rw [if_pos isFree, ← freeAttempt]
  exact Int.lt_succ _

end JobRuns

/-! ## The steps -/

inductive ClaimMoves (before after : Cluster Value) : TaskCall Value → Prop
  | same (call : TaskCall Value) (claims : after.claims = before.claims) :
      ClaimMoves before after call
  | claimed (now : Int) (row : JobRunRow) (rest : List JobRunRow)
      (won : (JobRuns.claimForRecovery before.journal row.id row.attempt now
        (QueuePolicy.standard.leaseUntil now)).1 = true)
      (journal : after.journal = (JobRuns.claimForRecovery before.journal row.id row.attempt now
        (QueuePolicy.standard.leaseUntil now)).2)
      (claims : after.claims = (row.id, row.attempt) :: before.claims) :
      ClaimMoves before after (.claiming now row rest)

structure JournalStep (config : TaskConfig Value) (before : Cluster Value) (call : TaskCall Value)
    (after : Cluster Value) : Prop where
  clock : after.clock = before.clock
  rows : JournalMoves (rowWrite config call) before.journal after.journal
  claims : ClaimMoves before after call

variable {config : TaskConfig Value} {tick : TaskTick} {server : Nat}
  {before after : Cluster Value} {call call' : TaskCall Value} {task : Task Value}

theorem JournalStep.still (clock : after.clock = before.clock)
    (journal : after.journal = before.journal) (claims : after.claims = before.claims) :
    JournalStep config before call after := by
  refine ⟨clock, ?_, .same call claims⟩
  rw [journal]
  exact .refl _ _

theorem JournalStep.write {journal : List JobRunRow} (fails : Bool)
    (moves : JournalMoves (rowWrite config call) before.journal journal) :
    JournalStep config before call
      (if fails then before else { before with journal := journal }) := by
  split
  · exact .still rfl rfl rfl
  · exact ⟨rfl, moves, .same call rfl⟩

theorem recordRun_moves (journal : List JobRunRow) (task : Task Value) (permit : Option Nat)
    (report : RunReport) :
    JournalMoves (rowWrite config (.drive (.recording report) task permit)) journal
      (recordRun config journal task report) := by
  unfold recordRun
  dsimp only
  split
  · exact .refl _ _
  · split
    · exact JobRuns.finish_moves _ _ _ _ _ _ _
    · rename_i notJournaled
      split
      · exact .refl _ _
      · cases inserted : JobRuns.insert journal (finishedRow task report) with
        | none => exact .refl _ _
        | some journal' =>
          refine .insert inserted ?_ (Or.inl rfl)
          rw [rowWrite, if_neg notJournaled]
          rfl

variable {permit : Option Nat}

theorem driveStep_journal {stage : DriveStage}
    (step : driveStep config tick server before task permit stage = some (after, call')) :
    JournalStep config before (.drive stage task permit) after := by
  cases stage with
  | waiting =>
    simp only [driveStep] at step
    split at step
    · cases step
      exact .still rfl rfl rfl
    · split at step <;> cases step
      exact .still rfl rfl rfl
  | markingRow now =>
    cases step
    exact .write tick.fails (JobRuns.markRunning_moves _ _ _ _)
  | body attempt startedAt => cases driveStep_body step <;> exact .still rfl rfl rfl
  | sleeping attempt startedAt => cases driveStep_sleeping step <;> exact .still rfl rfl rfl
  | recording report =>
    cases step
    exact .write tick.fails (recordRun_moves _ _ _ _)
  | silencing report =>
    simp only [driveStep, Option.some.injEq, Prod.mk.injEq] at step
    obtain ⟨rfl, -⟩ := step
    split <;> exact .still rfl rfl rfl
  | _ =>
    cases step
    exact .still rfl rfl rfl

section Steps

variable [DecidableEq Value] {afterSubmit : AfterSubmit} {stage : SubmitStage Value}

theorem submitStep_journal
    (step : submitStep config tick server before task afterSubmit stage = some (after, call')) :
    JournalStep config before (.submit stage task afterSubmit) after := by
  cases stage with
  | reserving admission =>
    simp only [submitStep] at step
    split at step <;> cases step <;> exact .still rfl rfl rfl
  | enqueueing now =>
    simp only [submitStep] at step
    split at step
    · rename_i journal inserted
      cases step
      split at inserted
      · cases inserted
      · exact ⟨rfl, .insert inserted rfl (Or.inr ⟨_, rfl, rfl⟩), .same _ rfl⟩
    · cases step
      exact .still rfl rfl rfl
  | _ =>
    cases step
    exact .still rfl rfl rfl

theorem taskStep_journal (step : taskStep config tick server before call = some (after, call')) :
    JournalStep config before call after := by
  cases call with
  | submitting submission afterSubmit =>
    simp only [taskStep] at step
    split at step <;> cases step <;> exact .still rfl rfl rfl
  | submit stage task afterSubmit => exact submitStep_journal step
  | worker =>
    obtain ⟨task, found, taken⟩ := Option.map_eq_some_iff.mp step
    cases taken
    exact .still rfl rfl rfl
  | drive stage task permit => exact driveStep_journal step
  | examining now rows =>
    cases rows <;> cases step <;> exact .still rfl rfl rfl
  | claiming now row rest =>
    simp only [taskStep] at step
    split at step
    · cases step
      exact .still rfl rfl rfl
    · rename_i won
      cases step
      rw [not_or, Bool.not_eq_false] at won
      exact ⟨rfl, JobRuns.claimForRecovery_moves _ _ _ _ _, .claimed now row rest won.2 rfl rfl⟩
  | closing id phase error processed now rest =>
    cases step
    exact .write tick.fails (JobRuns.finish_moves _ _ _ _ _ _ _)
  | installing jobs =>
    simp only [taskStep, Option.some.injEq] at step
    split at step <;> cases step <;> exact .still rfl rfl rfl
  | pruningByAge now =>
    simp only [taskStep, Option.some.injEq] at step
    split at step <;> cases step
    · exact .still rfl rfl rfl
    · exact ⟨rfl, .filter _ _, .same _ rfl⟩
  | pruningByCount cutoff =>
    cases step
    exact .write tick.fails (.filter _ _)
  | done => cases step
  | _ =>
    cases step
    exact .still rfl rfl rfl

/-! ## The calls -/

/-- The task under whose id the call has yet to write a row. -/
def unwritten (config : TaskConfig Value) : TaskCall Value → Option (Task Value)
  | .submit .spawning task _ =>
    if (config.policy task.run.key).journaledFromTheStart then none else some task
  | .submit (.unreserving _) _ _ => none
  | .submit _ task _ => some task
  | .drive (.silencing _) _ _ => none
  | .drive .releasing _ _ => none
  | .drive _ task _ =>
    if (config.policy task.run.key).journaledFromTheStart then none else some task
  | _ => none

omit [DecidableEq Value] in
theorem heldTask_of_unwritten (isUnwritten : unwritten config call = some task) :
    heldTask call = some task := by
  cases call with
  | submit stage task' after =>
    cases stage with
    | unreserving error => cases isUnwritten
    | spawning =>
      rw [unwritten] at isUnwritten
      split at isUnwritten
      · cases isUnwritten
      · exact isUnwritten
    | _ => exact isUnwritten
  | drive stage task' permit =>
    cases stage with
    | silencing report | releasing => cases isUnwritten
    | _ =>
      rw [unwritten] at isUnwritten
      · split at isUnwritten
        · cases isUnwritten
        · exact isUnwritten
      · exact fun _ => nofun
      · exact nofun
  | _ => cases isUnwritten

omit [DecidableEq Value] in
theorem unwritten_of_inserted {id : RunId} (inserts : (rowWrite config call).inserted = some id) :
    ∃ task, unwritten config call = some task ∧ task.run.id = id := by
  cases call with
  | submit stage task after =>
    cases stage with
    | enqueueing now => exact ⟨task, rfl, Option.some.inj inserts⟩
    | _ => cases inserts
  | drive stage task permit =>
    cases stage with
    | recording report =>
      rw [rowWrite] at inserts
      split at inserts
      · cases inserts
      · rename_i notJournaled
        exact ⟨task, if_neg notJournaled, Option.some.inj inserts⟩
    | _ => cases inserts
  | _ => cases inserts

def enqueues : TaskCall Value → Option (Task Value)
  | .submit .stamping task _ => some task
  | .submit (.enqueueing _) task _ => some task
  | _ => none

omit [DecidableEq Value] in
theorem heldTask_of_enqueues (isNext : enqueues call = some task) : heldTask call = some task := by
  cases call with
  | submit stage task' after => cases stage <;> first | exact isNext | cases isNext
  | _ => cases isNext

omit [DecidableEq Value] in
theorem unwritten_of_heldTask_none (config : TaskConfig Value) (free : heldTask call = none) :
    unwritten config call = none := by
  cases found : unwritten config call with
  | none => rfl
  | some task =>
    rw [heldTask_of_unwritten found] at free
    cases free

/-- Only runs of jobs that are journaled from the start are written down at submission. -/
theorem taskStep_enqueues (step : taskStep config tick server before call = some (after, call'))
    (isNext : enqueues call' = some task) :
    enqueues call = some task ∨ (config.policy task.run.key).journaledFromTheStart = true := by
  have free : heldTask call = none → False := by
    intro free
    rcases taskStep_begins step free (heldTask_of_enqueues isNext) with
      ⟨admission, afterSubmit, rfl, -⟩ | ⟨-, permit, rfl, -⟩ <;> cases isNext
  have gaveUp : ∀ failed : TaskCall Value, heldTask failed = none → enqueues failed ≠ some task := by
    intro failed isOver isNext'
    rw [heldTask_of_enqueues isNext'] at isOver
    cases isOver
  cases call with
  | submit stage task' afterSubmit =>
    cases stage with
    | reserving admission =>
      simp only [taskStep, submitStep] at step
      split at step
      · cases step
        exact absurd isNext (gaveUp _ (heldTask_failed _ _))
      · cases step
        split at isNext
        · rename_i journaled
          cases isNext
          exact Or.inr journaled
        · cases isNext
    | stamping =>
      cases step
      exact Or.inl isNext
    | enqueueing now =>
      simp only [taskStep, submitStep] at step
      split at step <;> cases step <;> cases isNext
    | unreserving error =>
      cases step
      exact absurd isNext (gaveUp _ (heldTask_failed _ _))
    | spawning =>
      cases step
      exact absurd isNext (gaveUp _ (heldTask_spawned _))
  | drive stage task' permit =>
    obtain ⟨stage', rfl⟩ | rfl := driveStep_call step <;> cases isNext
  | _ => exact (free rfl).elim

inductive UnwrittenFrom (config : TaskConfig Value) (server : Nat) (before : Cluster Value)
    (call : TaskCall Value) (task : Task Value) : Prop
  | already (held : unwritten config call = some task)
      (silent : (rowWrite config call).inserted = none)
  | drawn (free : heldTask call = none) (isNew : task.run.id = before.nextId)
  | queued (free : heldTask call = none) (listed : task ∈ (before.systems server).spawned)
      (silent : (config.policy task.run.key).journaledFromTheStart = false)

variable {task' : Task Value}

omit [DecidableEq Value] in
theorem driveStep_unwritten {stage : DriveStage}
    (step : driveStep config tick server before task' permit stage = some (after, call'))
    (isUnwritten : unwritten config call' = some task) :
    UnwrittenFrom config server before (.drive stage task' permit) task := by
  obtain ⟨stage', rfl⟩ | rfl := driveStep_call step
  · cases stage with
    | recording report | silencing report =>
      cases step
      cases isUnwritten
    | releasing => cases step
    | _ =>
      have isSame : unwritten config (.drive stage' task' permit) =
          if (config.policy task'.run.key).journaledFromTheStart then none else some task' := by
        cases stage' with
        | silencing report | releasing => cases isUnwritten
        | _ => rfl
      exact .already (by rw [← isUnwritten, isSame]; rfl) rfl
  · cases isUnwritten

theorem submitStep_unwritten
    (journaled : ∀ task, enqueues (.submit stage task' afterSubmit) = some task →
      (config.policy task.run.key).journaledFromTheStart = true)
    (step : submitStep config tick server before task' afterSubmit stage = some (after, call'))
    (isUnwritten : unwritten config call' = some task) :
    UnwrittenFrom config server before (.submit stage task' afterSubmit) task := by
  have gaveUp : ∀ failed : TaskCall Value, heldTask failed = none →
      unwritten config failed ≠ some task := by
    intro failed isOver isUnwritten'
    rw [unwritten_of_heldTask_none config isOver] at isUnwritten'
    cases isUnwritten'
  cases stage with
  | reserving admission =>
    simp only [submitStep] at step
    split at step
    · cases step
      exact absurd isUnwritten (gaveUp _ (heldTask_failed _ _))
    · cases step
      refine .already ?_ rfl
      split at isUnwritten
      · exact isUnwritten
      · rename_i notJournaled
        rwa [unwritten, if_neg notJournaled] at isUnwritten
  | stamping =>
    cases step
    exact .already isUnwritten rfl
  | enqueueing now =>
    simp only [submitStep] at step
    split at step
    · cases step
      rw [unwritten, if_pos (journaled task' rfl)] at isUnwritten
      cases isUnwritten
    · cases step
      cases isUnwritten
  | unreserving error =>
    cases step
    exact absurd isUnwritten (gaveUp _ (heldTask_failed _ _))
  | spawning =>
    cases step
    exact absurd isUnwritten (gaveUp _ (heldTask_spawned _))

theorem taskStep_unwritten
    (journaled : ∀ task, enqueues call = some task →
      (config.policy task.run.key).journaledFromTheStart = true)
    (step : taskStep config tick server before call = some (after, call'))
    (isUnwritten : unwritten config call' = some task) :
    UnwrittenFrom config server before call task := by
  have begun : heldTask call = none → UnwrittenFrom config server before call task := by
    intro free
    rcases taskStep_begins step free (heldTask_of_unwritten isUnwritten) with
      ⟨admission, afterSubmit, rfl, isNew⟩ | ⟨-, permit, rfl, listed⟩
    · exact .drawn free isNew
    · refine .queued free listed ?_
      rw [unwritten] at isUnwritten
      split at isUnwritten
      · cases isUnwritten
      · rename_i notJournaled
        exact Bool.eq_false_iff.mpr notJournaled
      · exact fun _ => nofun
      · exact nofun
  cases call with
  | submit stage task' afterSubmit => exact submitStep_unwritten journaled step isUnwritten
  | drive stage task' permit => exact driveStep_unwritten step isUnwritten
  | _ => exact begun rfl

/-! ### Recoveries -/

def AfterSubmit.time : AfterSubmit → Option Int
  | .returns => none
  | .recovery now _ _ => some now

def recoveryTime : TaskCall Value → Option Int
  | .submitting _ after => after.time
  | .submit _ _ after => after.time
  | .reading now => some now
  | .examining now _ => some now
  | .claiming now _ _ => some now
  | .closing _ _ _ _ now _ => some now
  | _ => none

omit [DecidableEq Value] in
theorem recoveryTime_failed (after : AfterSubmit) (error : String) :
    recoveryTime (after.failed error : TaskCall Value) = after.time := by
  cases after <;> rfl

omit [DecidableEq Value] in
theorem recoveryTime_spawned (after : AfterSubmit) :
    recoveryTime (after.spawned : TaskCall Value) = after.time := by
  cases after <;> rfl

theorem taskStep_recoveryTime (step : taskStep config tick server before call = some (after, call'))
    (isTime : recoveryTime call' = some now) :
    recoveryTime call = some now ∨ (call = .recovering ∧ now = before.clock) := by
  cases call with
  | submitting submission afterSubmit =>
    simp only [taskStep] at step
    split at step <;> cases step
    · exact Or.inl isTime
    · rw [recoveryTime_failed] at isTime
      exact Or.inl isTime
  | submit stage task afterSubmit =>
    refine Or.inl ?_
    cases stage with
    | reserving admission =>
      simp only [taskStep, submitStep] at step
      split at step <;> cases step
      · rwa [recoveryTime_failed] at isTime
      · exact isTime
    | stamping =>
      cases step
      exact isTime
    | enqueueing now =>
      simp only [taskStep, submitStep] at step
      split at step <;> cases step <;> exact isTime
    | unreserving error =>
      cases step
      rwa [recoveryTime_failed] at isTime
    | spawning =>
      cases step
      rwa [recoveryTime_spawned] at isTime
  | drive stage task permit =>
    obtain ⟨stage', rfl⟩ | rfl := driveStep_call step <;> cases isTime
  | worker =>
    obtain ⟨entry, found, taken⟩ := Option.map_eq_some_iff.mp step
    cases taken
    cases isTime
  | recovering =>
    cases step
    cases isTime
    exact Or.inr ⟨rfl, rfl⟩
  | reading now' =>
    cases step
    split at isTime
    · cases isTime
    · exact Or.inl isTime
  | examining now' rows =>
    cases rows with
    | nil =>
      cases step
      cases isTime
    | cons row rest =>
      cases step
      refine Or.inl ?_
      unfold examineRow at isTime
      split at isTime
      · exact isTime
      · split at isTime <;> exact isTime
  | claiming now' row rest =>
    simp only [taskStep] at step
    split at step <;> cases step <;> exact Or.inl isTime
  | closing id phase error processed now' rest =>
    cases step
    exact Or.inl isTime
  | installing jobs | pruningByAge now' =>
    simp only [taskStep, Option.some.injEq] at step
    split at step <;> cases step <;> cases isTime
  | done => cases step
  | _ =>
    simp only [taskStep, Option.some.injEq, Prod.mk.injEq] at step
    obtain ⟨-, rfl⟩ := step
    first
      | cases isTime
      | split at isTime <;> cases isTime

theorem taskStep_stopped (step : taskStep config tick server before call = some (after, call'))
    (other : Nat) : (after.systems other).stopped = (before.systems other).stopped := by
  have changed : ∀ change : TaskSystem Value → TaskSystem Value,
      (∀ system, (change system).stopped = system.stopped) →
      ((before.setSystem server change).systems other).stopped =
        (before.systems other).stopped :=
    fun change same => before.setSystem_keeps server change TaskSystem.stopped same other
  cases call with
  | submitting submission afterSubmit | claiming now row rest =>
    simp only [taskStep] at step
    split at step <;> cases step <;> rfl
  | submit stage task afterSubmit =>
    cases stage with
    | reserving admission =>
      simp only [taskStep, submitStep] at step
      split at step <;> cases step
      · rfl
      · exact changed _ fun _ => rfl
    | stamping =>
      cases step
      rfl
    | enqueueing now =>
      simp only [taskStep, submitStep] at step
      split at step <;> cases step <;> rfl
    | _ =>
      cases step
      exact changed _ fun _ => rfl
  | drive stage task permit => exact driveStep_keeps TaskSystem.stopped (fun _ _ _ _ => rfl) step other
  | worker =>
    obtain ⟨entry, found, taken⟩ := Option.map_eq_some_iff.mp step
    cases taken
    exact changed _ fun _ => rfl
  | examining now rows => cases rows <;> cases step <;> rfl
  | closing id phase error processed now rest | pruningByCount cutoff =>
    simp only [taskStep, Option.some.injEq, Prod.mk.injEq] at step
    obtain ⟨rfl, -⟩ := step
    split <;> rfl
  | installing jobs =>
    simp only [taskStep, Option.some.injEq] at step
    split at step <;> cases step
    · exact changed _ fun _ => rfl
    · rfl
  | pruningByAge now =>
    simp only [taskStep, Option.some.injEq] at step
    split at step <;> cases step <;> rfl
  | done => cases step
  | _ =>
    cases step
    first
      | rfl
      | exact changed _ fun _ => rfl

end Steps

end Nanofile
