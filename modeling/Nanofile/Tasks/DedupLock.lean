import Nanofile.Tasks.FinalRuns

/-!
# Deduplication is a lock

The lock of a run is its active row with the parameter in it.  As long as a drain marks no run that
is underway, a run underway keeps its row, so two runs of one job with one parameter are never
underway together, and the limits of a reserve hold until the next one.
-/

set_option autoImplicit false

namespace Nanofile

open Nanofile.Lib

variable {Value : Type} {config : TaskConfig Value} {tick : TaskTick} {server : Nat}
  {before after : Cluster Value} {call call' : TaskCall Value}

/-! ## The statement -/

/-- The parameter by which submissions of a job are the same piece of work. -/
def dedupOf (config : TaskConfig Value) (key : JobKey) (params : Value) :
    Option (String × Value) :=
  match (config.policy key).dedup with
  | .byParams field => (config.json.get params field).map fun value => (field, value)
  | .none => none

/-- The task has been reserved and has not been executed to the end. -/
def IsUnderway (state : Threads (Cluster Value) (TaskThread Value)) (server : Nat)
    (task : Task Value) : Prop :=
  task ∈ (state.shared.systems server).spawned ∨
    ∃ thread ∈ state.running, thread.server = server ∧ underway thread.call = some task

/-- A drain marks no run that is underway: its grace was enough. -/
def drainsIdle (state : Threads (Cluster Value) (TaskThread Value)) :
    ThreadAction (TaskRequest Value) (TaskJob Value) TaskTick → Prop
  | .advance index _ => ∀ thread, state.running[index]? = some thread →
      thread.call = .interrupting → ∀ run ∈ (state.shared.systems thread.server).store.runs,
        run.state.isActive = true → ∀ task, IsUnderway state thread.server task →
          task.run.id ≠ run.id
  | _ => True

/-- The limits hold as they were in force at the last reserve that succeeded, and for an owner at
the last one of a run of the owner. -/
structure WithinLimits (system : TaskSystem Value) : Prop where
  total : 0 < system.totalAtReserve →
    system.store.countActive (fun _ => true) ≤ system.totalAtReserve
  perUser : ∀ owner, 0 < system.perUserAtReserve owner →
    system.store.countActive (fun run => run.owner = some owner) ≤ system.perUserAtReserve owner

structure DedupSafe (config : TaskConfig Value)
    (state : Threads (Cluster Value) (TaskThread Value)) : Prop where
  lock : ∀ server task task' entry, IsUnderway state server task → IsUnderway state server task' →
    task.run.key = task'.run.key → dedupOf config task.run.key task.params = some entry →
    dedupOf config task'.run.key task'.params = some entry → task.run.id = task'.run.id
  limits : ∀ server, WithinLimits (state.shared.systems server)

/-! ## Rows as locks -/

def activeLock (config : TaskConfig Value) (run : JobRun Value) :
    Option (JobKey × String × Value) :=
  if run.state.isActive then
    (run.params.bind (dedupOf config run.key)).map fun entry => (run.key, entry)
  else none

variable {lock : JobKey × String × Value}

theorem activeLock_eq_some_iff {run : JobRun Value} :
    activeLock config run = some lock ↔ run.state.isActive = true ∧ run.key = lock.1 ∧
      ∃ params, run.params = some params ∧ dedupOf config run.key params = some lock.2 := by
  obtain ⟨key, entry⟩ := lock
  unfold activeLock
  cases run.state.isActive with
  | false => simp
  | true =>
    simp only [if_true, Option.map_eq_some_iff, Option.bind_eq_some_iff, Prod.mk.injEq, true_and]
    constructor
    · rintro ⟨entry', ⟨params, isParams, isEntry⟩, isKey, rfl⟩
      exact ⟨isKey, params, isParams, isEntry⟩
    · rintro ⟨isKey, params, isParams, isEntry⟩
      exact ⟨entry, ⟨params, isParams, isEntry⟩, isKey, rfl⟩

theorem get_of_dedupOf {key : JobKey} {params : Value} {entry : String × Value}
    (isEntry : dedupOf config key params = some entry) :
    config.json.get params entry.1 = some entry.2 := by
  unfold dedupOf at isEntry
  split at isEntry
  · obtain ⟨value, found, rfl⟩ := Option.map_eq_some_iff.mp isEntry
    exact found
  · cases isEntry

def LocksApart (config : TaskConfig Value) (runs : List (JobRun Value)) : Prop :=
  ∀ run ∈ runs, ∀ run' ∈ runs, ∀ lock, activeLock config run = some lock →
    activeLock config run' = some lock → run.id = run'.id

def HasRow (runs : List (JobRun Value)) (task : Task Value) : Prop :=
  ∃ run ∈ runs, run.id = task.run.id ∧ run.state.isActive = true ∧ run.key = task.run.key ∧
    run.params = some task.params

variable {runs' : List (JobRun Value)} {write : RunWrite} {runs : List (JobRun Value)}

theorem HasRow.step {task : Task Value} (held : HasRow runs task)
    (moves : StoreMoves write runs runs') (notFinished : write ≠ .finish task.run.id)
    (notDropped : write ≠ .drop task.run.id) (notMarked : write ≠ .interrupt) :
    HasRow runs' task := by
  obtain ⟨run, listed, isId, active, key, params⟩ := held
  obtain ⟨run', listed', change⟩ := moves.stays listed active (by rw [isId]; exact notDropped)
  refine ⟨run', listed', change.id_eq.trans isId, ?_⟩
  cases change with
  | kept id' key' owner' params' finishedAt state =>
    refine ⟨?_, key'.trans key, params'.trans params⟩
    rcases state with same | ⟨-, active'⟩
    · rw [same]
      exact active
    · exact active'
  | started mine now attempt => exact ⟨rfl, key, params⟩
  | ended mine now outcome terminal => exact absurd (by rw [mine, isId]) notFinished
  | interrupted marks active' now => exact absurd marks notMarked

theorem RunChange.was_active {run run' : JobRun Value} (change : RunChange write run run')
    (started : write = .start run.id → run.state.isActive = true)
    (active : run'.state.isActive = true) : run.state.isActive = true ∧ run'.key = run.key ∧
      run'.owner = run.owner ∧ run'.params = run.params := by
  cases change with
  | kept id key owner params finishedAt state =>
    refine ⟨?_, key, owner, params⟩
    rcases state with same | ⟨wasActive, -⟩
    · rw [← same]
      exact active
    · exact wasActive
  | started mine now attempt => exact ⟨started mine, rfl, rfl, rfl⟩
  | ended mine now outcome terminal =>
    rw [JobState.isActive_eq_not_isTerminal] at active
    simp [markTerminal, JobRun.dropParams, terminal] at active
  | interrupted marks wasActive now => cases active

theorem RunChange.was_locked {run run' : JobRun Value} (change : RunChange write run run')
    (started : write = .start run.id → run.state.isActive = true)
    (locked : activeLock config run' = some lock) : activeLock config run = some lock := by
  unfold activeLock at locked ⊢
  split at locked
  · rename_i active
    obtain ⟨wasActive, key, -, params⟩ := change.was_active started active
    rw [if_pos wasActive, ← key, ← params]
    exact locked
  · cases locked

theorem countP_moves (moves : StoreMoves write runs runs')
    (started : ∀ run ∈ runs, write = .start run.id → run.state.isActive = true)
    (notInserted : ∀ id, write ≠ .insert id) (counts : JobRun Value → Bool)
    (ownerOnly : ∀ run run' : JobRun Value, run'.owner = run.owner → counts run' = counts run) :
    (runs'.countP fun run => run.state.isActive && counts run) ≤
      runs.countP fun run => run.state.isActive && counts run := by
  obtain ⟨keep, change, fresh, rfl, changes, -, isFresh⟩ := moves
  have noFresh : fresh = none := by
    cases fresh with
    | none => rfl
    | some run => exact absurd (isFresh run rfl).1 (notInserted _)
  rw [noFresh, Option.toList_none, List.append_nil, List.countP_map]
  refine Nat.le_trans (List.countP_mono_left fun run member counted => ?_)
    List.filter_sublist.countP_le
  have listed := (List.mem_filter.mp member).1
  obtain ⟨active, counted⟩ := Bool.and_eq_true_iff.mp counted
  obtain ⟨wasActive, -, owner, -⟩ := (changes run listed).was_active (started run listed) active
  rw [Bool.and_eq_true_iff, ← ownerOnly run _ owner]
  exact ⟨wasActive, counted⟩

/-! ## Admission -/

section Admitted

variable [DecidableEq Value] {json : JsonValue Value} {admission : Admission Value} {size : Nat}
  {store next : RunStore Value} {footprint : JobRun Value → Nat} {run : JobRun Value}

theorem admitted_of_check (admitted : RunStore.checkAdmission json admission size store = .ok ()) :
    (0 < admission.maxActiveTotal →
      store.countActive (fun _ => true) < admission.maxActiveTotal) ∧
    (0 < admission.maxActivePerUser → ∀ owner, admission.owner = some owner →
      store.countActive (fun run => run.owner = some owner) < admission.maxActivePerUser) ∧
    ∀ field value, admission.dedup = some (field, value) → ∀ run ∈ store.runs,
      RunStore.isDuplicate json admission.key field value run = false := by
  unfold RunStore.checkAdmission at admitted
  simp only [bind, Except.bind, throw, throwThe, MonadExceptOf.throw, pure, Except.pure]
    at admitted
  split at admitted
  · cases admitted
  split at admitted
  · cases admitted
  split at admitted
  · cases admitted
  rename_i total
  split at admitted
  · cases admitted
  rename_i perUser
  split at admitted
  · cases admitted
  rename_i duplicate
  refine ⟨fun limited => ?_, fun limited owner isOwner => ?_, fun field value isDedup run listed =>
    ?_⟩
  · exact Nat.lt_of_not_le fun isOver => total ⟨limited, isOver⟩
  · rw [isOwner] at perUser
    exact Nat.lt_of_not_le fun isOver => perUser ⟨limited, rfl, isOver⟩
  · rw [isDedup, Option.any_some, Bool.not_eq_true, List.any_eq_false] at duplicate
    simpa using duplicate run listed

theorem countActive_reserve (distinct : (store.runs.map JobRun.id).Nodup)
    (isNew : ∀ old ∈ store.runs, old.id ≠ run.id)
    (reserved : store.reserve footprint json run admission = .ok next)
    (counts : JobRun Value → Bool) :
    next.countActive counts ≤ store.countActive counts + if counts run then 1 else 0 := by
  obtain ⟨keep, runs, -⟩ := RunStore.reserve_runs distinct isNew reserved
  unfold RunStore.countActive
  rw [runs, List.countP_append]
  have kept : (store.runs.filter keep).countP (fun run => run.state.isActive && counts run) ≤
      store.runs.countP fun run => run.state.isActive && counts run :=
    List.filter_sublist.countP_le
  have one : [run].countP (fun run => run.state.isActive && counts run) ≤
      if counts run then 1 else 0 := by
    rw [List.countP_singleton]
    cases run.state.isActive <;> cases counts run <;> simp
  omega

theorem reserve_apart (distinct : (store.runs.map JobRun.id).Nodup)
    (isNew : ∀ old ∈ store.runs, old.id ≠ run.id)
    (reserved : store.reserve footprint config.json run admission = .ok next)
    (sameKey : admission.key = run.key)
    (sameLock : ∀ params, run.params = some params →
      admission.dedup = dedupOf config run.key params)
    (apart : LocksApart config store.runs) : LocksApart config next.runs := by
  obtain ⟨admitted, -⟩ := RunStore.reserve_eq_ok_iff.mp reserved
  obtain ⟨keep, runs, -⟩ := RunStore.reserve_runs distinct isNew reserved
  -- An old row with the lock of the new run is a duplicate of it.
  have notOld : ∀ old ∈ store.runs, ∀ lock, activeLock config run = some lock →
      activeLock config old ≠ some lock := by
    intro old listed lock isLock isOld
    obtain ⟨-, isKey, params, isParams, isEntry⟩ := activeLock_eq_some_iff.mp isLock
    obtain ⟨active, isKey', params', isParams', isEntry'⟩ := activeLock_eq_some_iff.mp isOld
    have isDedup : admission.dedup = some (lock.2.1, lock.2.2) :=
      (sameLock params isParams).trans isEntry
    have notDuplicate := (admitted_of_check admitted).2.2 _ _ isDedup old listed
    have found := get_of_dedupOf isEntry'
    simp [RunStore.isDuplicate, active, isKey', sameKey, isKey, isParams', found] at notDuplicate
  intro first isFirst second isSecond lock firstLock secondLock
  rw [runs] at isFirst isSecond
  rcases List.mem_append.mp isFirst with oldFirst | newFirst
  · have listed := (List.mem_filter.mp oldFirst).1
    rcases List.mem_append.mp isSecond with oldSecond | newSecond
    · exact apart first listed second (List.mem_filter.mp oldSecond).1 lock firstLock secondLock
    · rw [List.mem_singleton.mp newSecond] at secondLock
      exact absurd firstLock (notOld first listed lock secondLock)
  · rw [List.mem_singleton.mp newFirst] at firstLock ⊢
    rcases List.mem_append.mp isSecond with oldSecond | newSecond
    · exact absurd secondLock (notOld second (List.mem_filter.mp oldSecond).1 lock firstLock)
    · rw [List.mem_singleton.mp newSecond]

end Admitted

/-! ## The invariant -/

structure LocksKept (config : TaskConfig Value) (cluster : Cluster Value) : Prop where
  apart : ∀ server, LocksApart config (cluster.systems server).store.runs
  limits : ∀ server, WithinLimits (cluster.systems server)
  rows : ∀ server, ∀ task ∈ (cluster.systems server).spawned,
    HasRow (cluster.systems server).store.runs task

/-- What is known of the calls: a run underway has its row, and a submission asks for its own
run. -/
structure CallLocked (config : TaskConfig Value) (cluster : Cluster Value)
    (thread : TaskThread Value) : Prop where
  row : ∀ task, underway thread.call = some task →
    HasRow (cluster.systems thread.server).store.runs task
  asks : ∀ admission task afterSubmit, thread.call = .submit (.reserving admission) task afterSubmit →
    task.run.state.isActive = true ∧ task.run.params = some task.params ∧
      admission.key = task.run.key ∧ admission.owner = task.run.owner ∧
      admission.dedup = dedupOf config task.run.key task.params

variable {system : TaskSystem Value} {system' : TaskSystem Value}

theorem WithinLimits.mono (limits : WithinLimits system) (same : SameReserve system system')
    (fewer : ∀ counts : JobRun Value → Bool,
      (∀ run run' : JobRun Value, run'.owner = run.owner → counts run' = counts run) →
        system'.store.countActive counts ≤ system.store.countActive counts) :
    WithinLimits system' := by
  obtain ⟨total, perUser⟩ := same
  constructor
  · rw [total]
    intro limited
    exact Nat.le_trans (fewer _ fun _ _ _ => rfl) (limits.total limited)
  · rw [perUser]
    intro owner limited
    refine Nat.le_trans (fewer _ fun run run' same => ?_) (limits.perUser owner limited)
    rw [same]

section Steps

variable [DecidableEq Value]

theorem reserve_locked {admission : Admission Value} {run : JobRun Value} {next : RunStore Value}
    {params : Value} (distinct : (system.store.runs.map JobRun.id).Nodup)
    (isNew : ∀ old ∈ system.store.runs, old.id ≠ run.id)
    (reserved : system.store.reserve config.footprint config.json run admission = .ok next)
    (isParams : run.params = some params) (sameKey : admission.key = run.key)
    (sameOwner : admission.owner = run.owner)
    (sameLock : admission.dedup = dedupOf config run.key params)
    (apart : LocksApart config system.store.runs) (limits : WithinLimits system) :
    LocksApart config (system.admitted next admission).store.runs ∧
      WithinLimits (system.admitted next admission) := by
  obtain ⟨admitted, -⟩ := RunStore.reserve_eq_ok_iff.mp reserved
  obtain ⟨total, perUser, -⟩ := admitted_of_check admitted
  refine ⟨reserve_apart distinct isNew reserved sameKey (fun other isOther => ?_) apart, ?_, ?_⟩
  · rw [isParams, Option.some.injEq] at isOther
    rw [sameLock, isOther]
  · intro limited
    have grows := countActive_reserve distinct isNew reserved fun _ => true
    have below := total limited
    show next.countActive (fun _ => true) ≤ admission.maxActiveTotal
    simp only [if_true] at grows
    omega
  · intro owner
    have grows := countActive_reserve distinct isNew reserved fun other => other.owner = some owner
    show 0 < (if _ then _ else _) → next.countActive _ ≤ if _ then _ else _
    split
    · rename_i isOwner
      intro limited
      have below := perUser limited owner isOwner
      split at grows <;> omega
    · rename_i notOwner
      intro limited
      have within := limits.perUser owner limited
      rw [sameOwner] at notOwner
      simp only [notOwner, decide_false, Bool.false_eq_true, if_false] at grows
      omega

end Steps

theorem interrupting_of_write (marks : runWrite config tick system call = .interrupt) :
    call = .interrupting := by
  cases call with
  | interrupting => rfl
  | submit stage task afterSubmit => cases stage <;> cases marks
  | drive stage task permit =>
    cases stage with
    | body attempt startedAt =>
      rw [runWrite] at marks
      split at marks
      · split at marks <;> cases marks
      · cases marks
    | sleeping attempt startedAt | silencing report =>
      rw [runWrite] at marks
      split at marks <;> cases marks
    | _ => cases marks
  | _ => cases marks

theorem locks_step (isAfter : system'.store.runs = runs')
    (moves : StoreMoves write system.store.runs runs')
    (started : ∀ run ∈ system.store.runs, write = .start run.id → run.state.isActive = true)
    (notInserted : ∀ id, write ≠ .insert id) (same : SameReserve system system')
    (apart : LocksApart config system.store.runs) (limits : WithinLimits system) :
    LocksApart config system'.store.runs ∧ WithinLimits system' := by
  subst isAfter
  refine ⟨?_, limits.mono same fun counts ownerOnly =>
    countP_moves moves started notInserted counts ownerOnly⟩
  intro first isFirst second isSecond lock firstLock secondLock
  rcases moves.cases isFirst with ⟨inserts, -⟩ | ⟨old, listed, sameId, change⟩
  · exact absurd inserts (notInserted _)
  · rcases moves.cases isSecond with ⟨inserts, -⟩ | ⟨old', listed', sameId', change'⟩
    · exact absurd inserts (notInserted _)
    · rw [sameId, sameId']
      exact apart old listed old' listed' lock (change.was_locked (started old listed) firstLock)
        (change'.was_locked (started old' listed') secondLock)

section Runs

variable [DecidableEq Value]

theorem locks_after (kept : ClusterKept before) (own : HolderKept before ⟨server, call⟩)
    (moves : TaskMoves config tick server before call after call')
    (step : taskStep config tick server before call = some (after, call'))
    (rows : ∀ task, underway call = some task →
      HasRow (before.systems server).store.runs task)
    (asks : ∀ admission task afterSubmit, call = .submit (.reserving admission) task afterSubmit →
      task.run.state.isActive = true ∧ task.run.params = some task.params ∧
        admission.key = task.run.key ∧ admission.owner = task.run.owner ∧
        admission.dedup = dedupOf config task.run.key task.params)
    (apart : LocksApart config (before.systems server).store.runs)
    (limits : WithinLimits (before.systems server)) :
    LocksApart config (after.systems server).store.runs ∧ WithinLimits (after.systems server) := by
  rcases Classical.em (Reserves call) with ⟨admission, task, afterSubmit, rfl⟩ | notReserves
  · simp only [taskStep, submitStep] at step
    split at step
    · cases step
      exact ⟨apart, limits⟩
    · rename_i store granted
      cases step
      obtain ⟨-, params, sameKey, sameOwner, sameLock⟩ := asks admission task afterSubmit rfl
      rw [Cluster.setSystem_same]
      exact reserve_locked (kept.distinct server) (own.fresh admission task afterSubmit rfl).2
        granted params sameKey sameOwner sameLock apart limits
  · refine locks_step rfl moves.store (fun run listed starts => ?_) (fun id inserts => ?_)
      (moves.reserve.resolve_right notReserves) apart limits
    · obtain ⟨task, isUnderway, isId⟩ := underway_of_write (Or.inl starts)
      obtain ⟨row, isRow, sameId, active, -⟩ := rows task isUnderway
      rw [RunStore.eq_of_id (kept.distinct server) listed isRow (isId.symm.trans sameId.symm)]
      exact active
    · obtain ⟨admission, task, afterSubmit, isCall, -⟩ := reserving_of_insert inserts
      exact notReserves ⟨admission, task, afterSubmit, isCall⟩

/-- In every run in which the drains mark nothing that is underway, the rows are locks. -/
theorem locks_kept {state : Threads (Cluster Value) (TaskThread Value)}
    (reached : ((taskProgram config).system ClusterStarts).Reachable drainsIdle state) :
    Program.Kept (LocksKept config) (CallLocked config) state := by
  refine Program.threads_invariant_given (fun _ => holders_kept) ?_ ?_ ?_ ?_ reached
  · intro cluster job _
    refine ⟨fun task isUnderway => ?_, fun admission task afterSubmit isCall => ?_⟩
    · simp [underway_begin] at isUnderway
    · cases job <;> cases isCall
  · intro before request known kept _
    have moves : ServeMoves before.shared
      ((taskProgram config).serve request before.shared) := serveTask_moves config _ request
    have both := fun server => locks_step rfl (moves.store server) (by simp) (by simp)
      (moves.reserve server) (kept.1.apart server) (kept.1.limits server)
    refine ⟨⟨fun server => (both server).1, fun server => (both server).2, fun server task listed =>
      ?_⟩, fun thread member => ⟨fun task isUnderway => ?_, (kept.2 thread member).asks⟩⟩
    · rw [moves.queue] at listed
      exact (kept.1.rows server task listed).step (moves.store server) (by simp) (by simp) (by simp)
    · exact ((kept.2 thread member).row task isUnderway).step (moves.store _) (by simp) (by simp)
        (by simp)
  · intro before index thread tick after known kept found met moved
    obtain ⟨clusterKept, holders, apart⟩ := known
    obtain ⟨-, sameServer, step⟩ := advance_eq_some_iff.mp moved
    obtain ⟨server, call⟩ := thread
    obtain ⟨after, server', call'⟩ := after
    obtain rfl : server' = server := sameServer
    have running := List.mem_of_getElem? found
    have own := holders _ running
    have moves := taskStep_moves clusterKept own step
    -- A run that is underway on this server is not marked.
    have notMarked : ∀ task, IsUnderway before server' task →
        HasRow (before.shared.systems server').store.runs task →
        runWrite config tick (before.shared.systems server') call ≠ .interrupt := by
      rintro task isUnderway ⟨run, listed, isId, active, -⟩ marks
      exact met _ found (interrupting_of_write marks) run listed active task isUnderway isId.symm
    -- Another task keeps its row.
    have keepsRow : ∀ (other : Nat) (task : Task Value), IsUnderway before other task →
        HasRow (before.shared.systems other).store.runs task →
        (other = server' → ∀ task', heldTask call = some task' → task'.run.id ≠ task.run.id) →
        HasRow (after.systems other).store.runs task := by
      intro other task isUnderway hasRow notMine
      by_cases here : other = server'
      · subst here
        have notWritten : (runWrite config tick (before.shared.systems other) call).run ≠
            some task.run.id := by
          intro writes
          obtain ⟨task', held, isId⟩ := heldTask_of_runWrite writes
          exact notMine rfl task' held isId
        exact hasRow.step moves.store (fun ends => notWritten (by rw [ends]; rfl))
          (fun drops => notWritten (by rw [drops]; rfl)) (notMarked task isUnderway hasRow)
      · rw [moves.frame other here]
        exact hasRow
    have locked : LocksApart config (after.systems server').store.runs ∧
        WithinLimits (after.systems server') := by
      refine locks_after clusterKept own moves step (fun task isUnderway => ?_)
        (kept.2 _ running).asks (kept.1.apart server') (kept.1.limits server')
      exact (kept.2 _ running).row task isUnderway
    refine ⟨⟨fun other => ?_, fun other => ?_, fun other task listed => ?_⟩,
      ⟨fun task isUnderway => ?_, ?_⟩, fun j other isOther isThread =>
        ⟨fun task isUnderway => ?_, (kept.2 other (List.mem_of_getElem? isThread)).asks⟩⟩
    · by_cases here : other = server'
      · subst here
        exact locked.1
      · rw [moves.frame other here]
        exact kept.1.apart other
    · by_cases here : other = server'
      · subst here
        exact locked.2
      · rw [moves.frame other here]
        exact kept.1.limits other
    · rcases taskStep_queued moves step listed with old | ⟨rfl, isUnderway, writesNothing⟩
      · exact keepsRow other task (Or.inl old) (kept.1.rows other task old) fun _ task' held =>
          (own.apart task' held other task old).symm
      · exact ((kept.2 _ running).row task isUnderway).step moves.store
          (by simp [writesNothing]) (by simp [writesNothing]) (by simp [writesNothing])
    · obtain ⟨origin, keepsOpen⟩ := taskStep_underway step isUnderway
      have notEnded : runWrite config tick (before.shared.systems server') call ≠
          .finish task.run.id := fun ends => by simp [ends, RunWrite.keepsOpen] at keepsOpen
      have notDropped : runWrite config tick (before.shared.systems server') call ≠
          .drop task.run.id := fun drops => by simp [drops, RunWrite.keepsOpen] at keepsOpen
      cases origin with
      | already held =>
        have hasRow := (kept.2 _ running).row task held
        exact hasRow.step moves.store notEnded notDropped
          (notMarked task (Or.inr ⟨_, running, rfl, held⟩) hasRow)
      | reserved admission afterSubmit isCall store granted isAfter =>
        obtain ⟨active, params, -⟩ := (kept.2 _ running).asks admission task afterSubmit isCall
        obtain ⟨keep, runs, -⟩ := RunStore.reserve_runs (clusterKept.distinct server')
          (own.fresh admission task afterSubmit isCall).2 granted
        dsimp only at isAfter
        subst isAfter
        rw [Cluster.setSystem_same]
        refine ⟨task.run, ?_, rfl, active, rfl, params⟩
        show task.run ∈ store.runs
        simp [runs]
      | queued isCall listed =>
        have hasRow := kept.1.rows server' task listed
        exact hasRow.step moves.store notEnded notDropped (notMarked task (Or.inl listed) hasRow)
    · intro admission task afterSubmit isCall
      dsimp only at isCall
      subst isCall
      obtain ⟨submission, -, rfl, rfl, -⟩ := taskStep_reserving step
      obtain ⟨state, -, key, owner, params⟩ := queuedRun_fields submission before.shared.nextId
        before.shared.clock
      refine ⟨by rw [state]; rfl, params, key.symm, owner.symm, ?_⟩
      rw [key]
      rfl
    · refine keepsRow _ task (Or.inr ⟨other, List.mem_of_getElem? isThread, rfl, isUnderway⟩)
        ((kept.2 other (List.mem_of_getElem? isThread)).row task isUnderway) fun _ task' held => ?_
      exact apart index j _ other (Ne.symm isOther) found isThread task' task held
        (heldTask_of_underway isUnderway)
  · rintro cluster ⟨-, -, -, empty⟩
    refine ⟨fun server run listed => ?_, fun server => ?_, fun server task listed => ?_⟩
    · simp [(empty server).1] at listed
    · constructor <;> simp [RunStore.countActive, (empty server).1]
    · simp [(empty server).2] at listed

/-- In every run in which the drains mark nothing that is underway, no two runs of a job with one
parameter are underway together, and the limits hold. -/
theorem dedup_is_lock {state : Threads (Cluster Value) (TaskThread Value)}
    (reached : ((taskProgram config).system ClusterStarts).Reachable drainsIdle state) :
    DedupSafe config state := by
  obtain ⟨kept, calls⟩ := locks_kept reached
  have hasRow : ∀ server task, IsUnderway state server task →
      HasRow (state.shared.systems server).store.runs task := by
    rintro server task (listed | ⟨thread, running, rfl, isUnderway⟩)
    · exact kept.rows server task listed
    · exact (calls thread running).row task isUnderway
  have locked : ∀ {runs : List (JobRun Value)} {run : JobRun Value} {task : Task Value}
      {entry : String × Value}, run ∈ runs → run.state.isActive = true → run.key = task.run.key →
      run.params = some task.params → dedupOf config task.run.key task.params = some entry →
      activeLock config run = some (task.run.key, entry) := by
    intro runs run task entry _ active key params isEntry
    exact activeLock_eq_some_iff.mpr ⟨active, key, task.params, params, by rw [key]; exact isEntry⟩
  refine ⟨fun server task task' entry first second sameKey isEntry isEntry' => ?_, kept.limits⟩
  obtain ⟨run, listed, isId, active, key, params⟩ := hasRow server task first
  obtain ⟨run', listed', isId', active', key', params'⟩ := hasRow server task' second
  rw [← isId, ← isId']
  refine kept.apart server run listed run' listed' _ (locked listed active key params isEntry) ?_
  rw [sameKey]
  exact locked listed' active' key' params' isEntry'

end Runs

/-! ## Runs of a server with the policies of the catalog -/

/-- A reindex of one library by user 1, submitted by the call of an index. -/
def reindexSubmitted (index : Nat) : List TaskAction :=
  [.begin (.submit 0 ⟨.request, .reindex, some 1, .repo "r1", "Reindex", []⟩)] ++
    taskSteps 5 index calm

def reindexBegins (index : Nat) : List TaskAction :=
  [.begin (.worker 0)] ++ taskSteps 5 index calm

/-- A body is at work after its server was drained, and the library is submitted again. -/
def reindexedTwice : List TaskAction :=
  reindexSubmitted 0 ++ reindexBegins 1 ++ drainGivesUp 2 ++ reindexSubmitted 3

/-- The library is submitted again once its run has ended, and a drain waits for the new one. -/
def reindexedInTurn : List TaskAction :=
  reindexSubmitted 0 ++ reindexBegins 1 ++ taskSteps 4 1 calm ++ reindexSubmitted 2 ++
    [.begin (.drain 0)] ++ taskSteps 2 3 calm

def drainsIdleCheck (state : Threads (Cluster RepoJson) (TaskThread RepoJson)) :
    TaskAction → Bool
  | .advance index _ =>
    match state.running[index]? with
    | some ⟨server, .interrupting⟩ =>
      (state.shared.systems server).store.runs.all fun run => !run.state.isActive
    | _ => true
  | _ => true

theorem drainsIdle_of_check (state : Threads (Cluster RepoJson) (TaskThread RepoJson))
    (action : TaskAction) (allowed : drainsIdleCheck state action = true) :
    drainsIdle state action := by
  cases action with
  | advance index tick =>
    rintro ⟨server, call⟩ found isCall run listed active
    obtain rfl : call = .interrupting := isCall
    simp only [drainsIdleCheck, found] at allowed
    have idle := List.all_eq_true.mp allowed run listed
    simp [active] at idle
  | _ => trivial

/-- The ids of the tasks that wait for the runtime, and of those that a call executes. -/
def underwayIds (state : Threads (Cluster RepoJson) (TaskThread RepoJson)) :
    List RunId × List RunId :=
  ((state.shared.systems 0).spawned.map fun task => task.run.id,
    state.running.filterMap fun thread => (underway thread.call).map fun task => task.run.id)

theorem reindexed_in_turn : ∃ state, DedupSafe catalogConfig state ∧
    underwayIds state = ([1], []) := by
  have ran : (runTasks drainsIdleCheck reindexedInTurn).any (fun state =>
      underwayIds state = ([1], [])) = true := by
    decide +kernel
  obtain ⟨state, run, isUnderway⟩ := (Option.any_eq_true _ _).mp ran
  exact ⟨state, dedup_is_lock (reachable_runTasks drainsIdle_of_check run),
    of_decide_eq_true isUnderway⟩

/-- Two tasks with different runs, the same key and the same lock, one waiting and one executed. -/
def lockedTwice (state : Threads (Cluster RepoJson) (TaskThread RepoJson)) : Bool :=
  (state.shared.systems 0).spawned.any fun waiting => state.running.any fun thread =>
    thread.server = 0 && (underway thread.call).any fun executed =>
      executed.run.key = waiting.run.key && executed.run.id ≠ waiting.run.id &&
        (dedupOf catalogConfig executed.run.key executed.params).isSome &&
        dedupOf catalogConfig executed.run.key executed.params =
          dedupOf catalogConfig waiting.run.key waiting.params

/-- The body of a run that a drain has marked is at work, and the same library is reserved again. -/
theorem reindexed_twice : ∃ state,
    ((taskProgram catalogConfig).system ClusterStarts).Reachable (fun _ _ => True) state ∧
    ¬ DedupSafe catalogConfig state := by
  have ran : (runTasks (fun _ _ => true) reindexedTwice).any lockedTwice = true := by
    decide +kernel
  obtain ⟨state, run, twice⟩ := (Option.any_eq_true _ _).mp ran
  refine ⟨state, reachable_runTasks (fun _ _ _ => trivial) run, fun safe => ?_⟩
  obtain ⟨waiting, listed, isTwice⟩ := List.any_eq_true.mp twice
  obtain ⟨thread, running, isTwice⟩ := List.any_eq_true.mp isTwice
  obtain ⟨isServer, isTwice⟩ := Bool.and_eq_true_iff.mp isTwice
  obtain ⟨executed, isUnderway, isTwice⟩ := (Option.any_eq_true _ _).mp isTwice
  obtain ⟨isTwice, sameLock⟩ := Bool.and_eq_true_iff.mp isTwice
  obtain ⟨isTwice, isLock⟩ := Bool.and_eq_true_iff.mp isTwice
  obtain ⟨sameKey, apart⟩ := Bool.and_eq_true_iff.mp isTwice
  obtain ⟨entry, isEntry⟩ := Option.isSome_iff_exists.mp isLock
  have sameLock := of_decide_eq_true sameLock
  refine of_decide_eq_true apart (safe.lock 0 executed waiting entry (Or.inr ⟨thread, running,
    of_decide_eq_true isServer, isUnderway⟩) (Or.inl listed) (of_decide_eq_true sameKey) isEntry ?_)
  rw [← sameLock]
  exact isEntry

end Nanofile
