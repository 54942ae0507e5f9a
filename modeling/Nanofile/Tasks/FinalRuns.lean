import Nanofile.Tasks.Underway

/-!
# Terminal runs stay as they are

As long as no execution writes a run that a drain has marked, a run that has reached a terminal
state keeps it, and the time at which it did, until it leaves the table.
-/

set_option autoImplicit false

namespace Nanofile

open Nanofile.Lib

variable {Value : Type} {config : TaskConfig Value} {tick : TaskTick} {server : Nat}
  {before after : Cluster Value} {call call' : TaskCall Value}

def leavesInterrupted (config : TaskConfig Value)
    (state : Threads (Cluster Value) (TaskThread Value)) :
    ThreadAction (TaskRequest Value) (TaskJob Value) TaskTick → Prop
  | .advance index tick => ∀ thread, state.running[index]? = some thread →
      ∀ run ∈ (state.shared.systems thread.server).store.runs,
        let write := runWrite config tick (state.shared.systems thread.server) thread.call
        write = .start run.id ∨ write = .finish run.id → run.state ≠ .interrupted
  | _ => True

/-- The runs of the id are active, or a drain has marked them. -/
def OpenRun (runs : List (JobRun Value)) (id : RunId) : Prop :=
  ∀ run ∈ runs, run.id = id → run.state.isActive = true ∨ run.state = .interrupted

variable {id : RunId}

theorem OpenRun.step {write : RunWrite} {runs runs' : List (JobRun Value)}
    (opened : OpenRun runs id) (moves : StoreMoves write runs runs') (notEnded : write ≠ .finish id)
    : OpenRun runs' id := by
  intro run' listed isId
  rcases moves.cases listed with ⟨-, active, -⟩ | ⟨run, member, sameId, change⟩
  · exact Or.inl active
  · have wasOpen := opened run member (sameId.symm.trans isId)
    cases change with
    | kept id' key owner params finishedAt state =>
      rcases state with same | ⟨-, active⟩
      · rw [same]
        exact wasOpen
      · exact Or.inl active
    | started mine now attempt => exact Or.inl rfl
    | ended mine now outcome terminal =>
      exact absurd (by rw [mine, ← isId, sameId]) notEnded
    | interrupted marks active now => exact Or.inr rfl

/-- Between its reserve and its end a run is open. -/
def UnderwayOpen (cluster : Cluster Value) (thread : TaskThread Value) : Prop :=
  ∀ task, underway thread.call = some task →
    OpenRun (cluster.systems thread.server).store.runs task.run.id

def SpawnedOpen (cluster : Cluster Value) : Prop :=
  ∀ server, ∀ task ∈ (cluster.systems server).spawned,
    OpenRun (cluster.systems server).store.runs task.run.id

variable {system : TaskSystem Value}

theorem underway_of_write (writes : runWrite config tick system call = .start id ∨
      runWrite config tick system call = .finish id) :
    ∃ task, underway call = some task ∧ task.run.id = id := by
  have isWritten : (runWrite config tick system call).run = some id := by
    rcases writes with isStart | isFinish
    · rw [isStart]
      rfl
    · rw [isFinish]
      rfl
  obtain ⟨task, held, isId⟩ := heldTask_of_runWrite isWritten
  refine ⟨task, ?_, isId⟩
  cases call with
  | submit stage task' after => cases stage <;> simp [runWrite] at writes
  | drive stage task' permit =>
    cases stage with
    | recording report | releasing => simp [runWrite] at writes
    | silencing report =>
      rw [runWrite] at writes
      split at writes <;> simp at writes
    | _ => exact held
  | _ => cases held

theorem reserving_of_insert (inserts : runWrite config tick system call = .insert id) :
    ∃ admission task afterSubmit, call = .submit (.reserving admission) task afterSubmit ∧
      task.run.id = id := by
  cases call with
  | submit stage task afterSubmit =>
    cases stage with
    | reserving admission => exact ⟨admission, task, afterSubmit, rfl, RunWrite.insert.inj inserts⟩
    | _ => cases inserts
  | drive stage task permit =>
    cases stage with
    | body attempt startedAt =>
      rw [runWrite] at inserts
      split at inserts
      · split at inserts <;> cases inserts
      · cases inserts
    | sleeping attempt startedAt | silencing report =>
      rw [runWrite] at inserts
      split at inserts <;> cases inserts
    | _ => cases inserts
  | _ => cases inserts

theorem RunChange.terminal_stays {write : RunWrite} {run run' : JobRun Value}
    (change : RunChange write run run') (ended : run.state.isTerminal = true)
    (notStarted : write ≠ .start run.id) (notEnded : write ≠ .finish run.id) :
    run'.state = run.state ∧ run'.finishedAt = run.finishedAt := by
  have notActive : run.state.isActive = false := by
    rw [JobState.isActive_eq_not_isTerminal, ended]
    rfl
  cases change with
  | kept id key owner params finishedAt state =>
    refine ⟨state.resolve_right fun active => ?_, finishedAt⟩
    simp [notActive] at active
  | started mine now attempt => exact absurd mine notStarted
  | ended mine now outcome terminal => exact absurd mine notEnded
  | interrupted marks active now => simp [notActive] at active

/-- A terminal run that no drain has marked is not underway, so no execution writes it. -/
theorem not_written {run : JobRun Value} (left : runWrite config tick system call = .start run.id ∨
      runWrite config tick system call = .finish run.id → run.state ≠ .interrupted)
    (opened : ∀ task, underway call = some task → OpenRun system.store.runs task.run.id)
    (stored : run ∈ system.store.runs) (ended : run.state.isTerminal = true) :
    ¬ (runWrite config tick system call = .start run.id ∨
      runWrite config tick system call = .finish run.id) := by
  intro writes
  obtain ⟨task, isUnderway, isId⟩ := underway_of_write writes
  rcases opened task isUnderway run stored isId.symm with active | marked
  · rw [JobState.isActive_eq_not_isTerminal, ended] at active
    cases active
  · exact left writes marked

section Runs

variable [DecidableEq Value]

theorem underway_open {guard : Threads (Cluster Value) (TaskThread Value) →
      ThreadAction (TaskRequest Value) (TaskJob Value) TaskTick → Prop}
    {state : Threads (Cluster Value) (TaskThread Value)}
    (reached : ((taskProgram config).system ClusterStarts).Reachable guard state) :
    Program.Kept SpawnedOpen UnderwayOpen state := by
  refine Program.threads_invariant_given (fun _ => holders_kept) ?_ ?_ ?_ ?_ reached
  · intro cluster job _ task isUnderway
    simp [underway_begin] at isUnderway
  · intro before request _ kept _
    have moves : ServeMoves before.shared
      ((taskProgram config).serve request before.shared) := serveTask_moves config _ request
    refine ⟨fun server task listed => ?_, fun thread member task isUnderway => ?_⟩
    · rw [moves.queue] at listed
      exact (kept.1 server task listed).step (moves.store server) (by simp)
    · exact (kept.2 thread member task isUnderway).step (moves.store _) (by simp)
  · intro before index thread tick after known kept found _ moved
    obtain ⟨clusterKept, holders, apart⟩ := known
    obtain ⟨-, sameServer, step⟩ := advance_eq_some_iff.mp moved
    obtain ⟨server, call⟩ := thread
    obtain ⟨after, server', call'⟩ := after
    obtain rfl : server' = server := sameServer
    have own := holders _ (List.mem_of_getElem? found)
    have moves := taskStep_moves clusterKept own step
    -- The table of another server stays; in the own one no other run ends.
    have opened : ∀ (other : Nat) (id : RunId),
        OpenRun (before.shared.systems other).store.runs id →
        (other = server' → ∀ task, heldTask call = some task → task.run.id ≠ id) →
        OpenRun (after.systems other).store.runs id := by
      intro other id wasOpen notMine
      by_cases here : other = server'
      · subst here
        refine wasOpen.step moves.store fun ends => ?_
        obtain ⟨task, held, isId⟩ := heldTask_of_runWrite (by rw [ends]; rfl)
        exact notMine rfl task held isId
      · rw [moves.frame other here]
        exact wasOpen
    have own' : ∀ task, underway call' = some task →
        OpenRun (after.systems server').store.runs task.run.id := by
      intro task isUnderway
      obtain ⟨origin, keepsOpen⟩ := taskStep_underway step isUnderway
      have wasOpen : OpenRun (before.shared.systems server').store.runs task.run.id := by
        cases origin with
        | already held => exact kept.2 _ (List.mem_of_getElem? found) task held
        | reserved admission afterSubmit isCall store granted isAfter =>
          intro run listed isId
          exact absurd isId ((own.fresh admission task afterSubmit isCall).2 run listed)
        | queued isCall listed => exact kept.1 server' task listed
      exact wasOpen.step moves.store fun ends => by simp [ends, RunWrite.keepsOpen] at keepsOpen
    refine ⟨fun other task listed => ?_, own', fun j other isOther isThread task isUnderway => ?_⟩
    · rcases taskStep_queued moves step listed with old | ⟨rfl, isUnderway, writesNothing⟩
      · refine opened other _ (kept.1 other task old) fun _ task' held => ?_
        exact (own.apart task' held other task old).symm
      · refine (kept.2 _ (List.mem_of_getElem? found) task isUnderway).step moves.store fun ends => ?_
        rw [writesNothing] at ends
        cases ends
    · refine opened _ _ (kept.2 other (List.mem_of_getElem? isThread) task isUnderway) ?_
      intro _ task' held
      exact apart index j _ other (Ne.symm isOther) found isThread task' task held
        (heldTask_of_underway isUnderway)
  · rintro cluster ⟨-, -, -, empty⟩ server task listed
    simp [(empty server).2] at listed

/-- In every run in which no execution writes what a drain has marked, a terminal run keeps its
state and the time at which it was reached for as long as it is in the table. -/
theorem terminal_is_final {state later : Threads (Cluster Value) (TaskThread Value)}
    (reached : ((taskProgram config).system ClusterStarts).Reachable (leavesInterrupted config)
      state)
    (steps : ((taskProgram config).system ClusterStarts).Steps (leavesInterrupted config) state
      later)
    {server : Nat} {id : RunId} {run run' : JobRun Value}
    (stored : (state.shared.systems server).store.get id = some run)
    (ended : run.state.isTerminal = true)
    (still : (later.shared.systems server).store.get id = some run') :
    run'.state = run.state ∧ run'.finishedAt = run.finishedAt := by
  have known : ∀ state, ((taskProgram config).system ClusterStarts).Reachable
      (leavesInterrupted config) state → _ := fun _ reached =>
    And.intro (holders_kept reached) (underway_open reached)
  obtain ⟨⟨clusterKept, holders, -⟩, -⟩ := known state reached
  obtain ⟨member, rfl⟩ := (RunStore.get_eq_some_iff (clusterKept.distinct server)).mp stored
  -- The id is given, the run is as it was, and no submission is about to insert it again.
  have kept : Program.Kept
      (fun cluster : Cluster Value => run.id < cluster.nextId ∧
        ∀ other ∈ (cluster.systems server).store.runs, other.id = run.id →
          other.state = run.state ∧ other.finishedAt = run.finishedAt)
      (fun _ thread => thread.server = server → ∀ admission task afterSubmit,
        thread.call = .submit (.reserving admission) task afterSubmit → task.run.id ≠ run.id)
      later := by
    refine Program.threads_steps_given known ?_ ?_ ?_ reached steps ?_
    · intro cluster job _ _ admission task afterSubmit isCall
      cases job <;> cases isCall
    · intro before request _ kept _
      have moves : ServeMoves before.shared
        ((taskProgram config).serve request before.shared) := serveTask_moves config _ request
      refine ⟨⟨by rw [moves.ids]; exact kept.1.1, fun other listed sameId => ?_⟩, kept.2⟩
      obtain ⟨old, member, fromOld, change⟩ := moves.stored listed
      obtain ⟨sameState, sameEnd⟩ := kept.1.2 old member (fromOld.symm.trans sameId)
      rw [← sameState, ← sameEnd]
      exact change.terminal_stays (by rw [sameState]; exact ended) (by simp) (by simp)
    · intro before index thread tick after known kept found met moved
      obtain ⟨⟨clusterKept, holders, apart⟩, opened⟩ := known
      obtain ⟨-, sameServer, step⟩ := advance_eq_some_iff.mp moved
      obtain ⟨own, call⟩ := thread
      obtain ⟨after, own', call'⟩ := after
      obtain rfl : own' = own := sameServer
      have listed := List.mem_of_getElem? found
      have moves := taskStep_moves clusterKept (holders _ listed) step
      refine ⟨⟨Nat.lt_of_lt_of_le kept.1.1 moves.held.nextId_le, fun other isStored sameId => ?_⟩,
        fun _ admission task afterSubmit isCall => ?_, fun j other _ isThread =>
          kept.2 other (List.mem_of_getElem? isThread)⟩
      · by_cases here : server = own'
        · subst here
          rcases moves.store.cases isStored with ⟨inserts, -, -⟩ | ⟨old, member, fromOld, change⟩
          · obtain ⟨admission, task, afterSubmit, isCall, isId⟩ := reserving_of_insert inserts
            exact absurd (isId.trans sameId) (kept.2 _ listed rfl admission task afterSubmit isCall)
          · obtain ⟨sameState, sameEnd⟩ := kept.1.2 old member (fromOld.symm.trans sameId)
            have notWritten := not_written (met _ found old member)
              (fun task isUnderway => opened.2 _ listed task isUnderway) member
              (by rw [sameState]; exact ended)
            rw [← sameState, ← sameEnd]
            exact change.terminal_stays (by rw [sameState]; exact ended)
              (fun writes => notWritten (Or.inl writes)) fun writes => notWritten (Or.inr writes)
        · rw [moves.frame server here] at isStored
          exact kept.1.2 other isStored sameId
      · dsimp only at isCall
        subst isCall
        obtain ⟨submission, -, -, rfl, -⟩ := taskStep_reserving step
        rw [(queuedRun_fields submission _ _).2.1]
        exact (Nat.ne_of_lt kept.1.1).symm
    · refine ⟨⟨clusterKept.stored server run member, fun other listed sameId => ?_⟩, ?_⟩
      · obtain rfl := RunStore.eq_of_id (clusterKept.distinct server) listed member sameId
        exact ⟨rfl, rfl⟩
      · intro thread running isServer admission task afterSubmit isCall
        have isNew := ((holders thread running).fresh admission task afterSubmit isCall).2
        rw [isServer] at isNew
        exact (isNew run member).symm
  have distinct := (holders_kept (reached.steps steps)).1.distinct server
  obtain ⟨member', sameId⟩ := (RunStore.get_eq_some_iff distinct).mp still
  exact kept.1.2 run' member' sameId

end Runs

inductive RepoJson where
  | null
  | text (value : String)
  | repo (id : String)
deriving DecidableEq

namespace RepoJson

def get : RepoJson → String → Option RepoJson
  | .repo id, field => if field = "repo_id" then some (.text id) else none
  | _, _ => none

def toText : RepoJson → String
  | .null => "null"
  | .text value => "\"" ++ value ++ "\""
  | .repo id => "\x7b\"repo_id\":\"" ++ id ++ "\"\x7d"

def ofText (text : String) : Option RepoJson :=
  [.null, .repo "r1"].find? fun value => value.toText = text

def json : JsonValue RepoJson := ⟨.null, get, toText, ofText⟩

end RepoJson

def catalogConfig : TaskConfig RepoJson where
  policy := Catalog.policy
  json := RepoJson.json
  footprint run := 400 + run.summary.length

def idleSystem : TaskSystem RepoJson where
  registered := [.copy, .reindex]
  permits key := if key = .copy then some 0 else if key = .reindex then some 1 else none
  available := [8, 4]
  store := ⟨[], 0, ⟨1000, 8388608, 3600⟩⟩
  limits := ⟨100, 8, ⟨1000, 8388608, 3600⟩⟩
  cancels := []
  fired := []
  spawned := []
  stopped := false
  totalAtReserve := 0
  perUserAtReserve _ := 0

def idleCluster : Cluster RepoJson := ⟨1000, 0, [], [], fun _ => idleSystem⟩

theorem idleCluster_starts : ClusterStarts idleCluster :=
  ⟨rfl, fun _ listed => absurd listed List.not_mem_nil, List.nodup_nil, fun _ => ⟨rfl, rfl⟩⟩

abbrev TaskAction := ThreadAction (TaskRequest RepoJson) (TaskJob RepoJson) TaskTick

/-- A step in which nothing fails and a body that returns has succeeded. -/
def calm : TaskTick := ⟨false, 0, .ok ⟨"done", some 1, false⟩, false⟩

def taskSteps (count index : Nat) (tick : TaskTick) : List TaskAction :=
  List.replicate count (.advance index tick)

def runTasks (check : Threads (Cluster RepoJson) (TaskThread RepoJson) → TaskAction → Bool)
    (actions : List TaskAction) : Option (Threads (Cluster RepoJson) (TaskThread RepoJson)) :=
  ((taskProgram catalogConfig).system ClusterStarts).runChecked check actions ⟨idleCluster, []⟩

theorem reachable_runTasks {check : Threads (Cluster RepoJson) (TaskThread RepoJson) → TaskAction →
      Bool} {guard : Threads (Cluster RepoJson) (TaskThread RepoJson) → TaskAction → Prop}
    (sound : ∀ state action, check state action = true → guard state action)
    {actions : List TaskAction} {state : Threads (Cluster RepoJson) (TaskThread RepoJson)}
    (run : runTasks check actions = some state) :
    ((taskProgram catalogConfig).system ClusterStarts).Reachable guard state :=
  System.reachable_of_runChecked sound actions _ state (.init ⟨idleCluster_starts, rfl⟩) run

def copyBegins : List TaskAction :=
  [.begin (.submit 0 ⟨.request, .copy, some 1, .null, "Copy 1 item", []⟩)] ++ taskSteps 3 0 calm ++
    [.begin (.worker 0)] ++ taskSteps 3 1 calm

/-- A drain whose grace runs out. -/
def drainGivesUp (index : Nat) : List TaskAction :=
  [.begin (.drain 0)] ++ taskSteps 2 index calm ++ taskSteps 2 index { calm with isOver := true }

def leavesInterruptedCheck (state : Threads (Cluster RepoJson) (TaskThread RepoJson)) :
    TaskAction → Bool
  | .advance index tick =>
    match state.running[index]? with
    | none => true
    | some thread =>
      let system := state.shared.systems thread.server
      match runWrite catalogConfig tick system thread.call with
      | .start id | .finish id =>
        system.store.runs.all fun run => run.id ≠ id || run.state ≠ .interrupted
      | _ => true
  | _ => true

theorem leavesInterrupted_of_check (state : Threads (Cluster RepoJson) (TaskThread RepoJson))
    (action : TaskAction) (allowed : leavesInterruptedCheck state action = true) :
    leavesInterrupted catalogConfig state action := by
  cases action with
  | advance index tick =>
    intro thread found run listed write isWrite
    simp only [leavesInterruptedCheck, found] at allowed
    rcases isWrite with isStart | isFinish
    · rw [show runWrite catalogConfig tick (state.shared.systems thread.server) thread.call =
        .start run.id from isStart] at allowed
      simpa using List.all_eq_true.mp allowed run listed
    · rw [show runWrite catalogConfig tick (state.shared.systems thread.server) thread.call =
        .finish run.id from isFinish] at allowed
      simpa using List.all_eq_true.mp allowed run listed
  | _ => trivial

def goOnTasks (check : Threads (Cluster RepoJson) (TaskThread RepoJson) → TaskAction → Bool)
    (actions : List TaskAction) (state : Threads (Cluster RepoJson) (TaskThread RepoJson)) :
    Option (Threads (Cluster RepoJson) (TaskThread RepoJson)) :=
  ((taskProgram catalogConfig).system ClusterStarts).runChecked check actions state

def firstRunIs (jobState : JobState) (finishedAt : Int)
    (state : Threads (Cluster RepoJson) (TaskThread RepoJson)) : Bool :=
  ((state.shared.systems 0).store.get 0).any fun run =>
    run.state = jobState && run.finishedAt = some finishedAt

/-- The copy has succeeded before the server is drained, a minute later. -/
theorem copied_before_drain : ∃ state later run,
    ((taskProgram catalogConfig).system ClusterStarts).Steps (leavesInterrupted catalogConfig)
      state later ∧
    (state.shared.systems 0).store.get 0 = some run ∧ run.state = .succeeded ∧
    ∃ run', (later.shared.systems 0).store.get 0 = some run' ∧ run'.state = run.state ∧
      run'.finishedAt = run.finishedAt := by
  have ran : (runTasks leavesInterruptedCheck (copyBegins ++ taskSteps 1 1 calm)).any (fun state =>
      firstRunIs .succeeded 1000 state &&
        (goOnTasks leavesInterruptedCheck
          ([.serve (.setClock 1060), .begin (.drain 0)] ++ taskSteps 1 2 calm) state).any
          (firstRunIs .succeeded 1000)) = true := by
    decide +kernel
  obtain ⟨state, run, both⟩ := (Option.any_eq_true _ _).mp ran
  obtain ⟨isFirst, onward⟩ := Bool.and_eq_true_iff.mp both
  obtain ⟨later, run', isLater⟩ := (Option.any_eq_true _ _).mp onward
  obtain ⟨first, stored, ended⟩ := (Option.any_eq_true _ _).mp isFirst
  obtain ⟨last, still, -⟩ := (Option.any_eq_true _ _).mp isLater
  have isDone : first.state = .succeeded := of_decide_eq_true (Bool.and_eq_true_iff.mp ended).1
  have steps := System.steps_of_runChecked leavesInterrupted_of_check _ state later run'
  exact ⟨state, later, first, steps, stored, isDone, last, still,
    terminal_is_final (reachable_runTasks leavesInterrupted_of_check run) steps stored
      (by rw [isDone]; rfl) still⟩

/-- A drain has marked the copy interrupted, and seven seconds later it has succeeded. -/
theorem copied_after_drain : ∃ state later run run',
    ((taskProgram catalogConfig).system ClusterStarts).Reachable (fun _ _ => True) state ∧
    ((taskProgram catalogConfig).system ClusterStarts).Steps (fun _ _ => True) state later ∧
    (state.shared.systems 0).store.get 0 = some run ∧ run.state = .interrupted ∧
    run.finishedAt = some 1000 ∧
    (later.shared.systems 0).store.get 0 = some run' ∧ run'.state = .succeeded ∧
    run'.finishedAt = some 1007 := by
  have ran : (runTasks (fun _ _ => true) (copyBegins ++ drainGivesUp 2)).any (fun state =>
      firstRunIs .interrupted 1000 state &&
        (goOnTasks (fun _ _ => true) (.serve (.setClock 1007) :: taskSteps 1 1 calm) state).any
          (firstRunIs .succeeded 1007)) = true := by
    decide +kernel
  obtain ⟨state, run, both⟩ := (Option.any_eq_true _ _).mp ran
  obtain ⟨isFirst, onward⟩ := Bool.and_eq_true_iff.mp both
  obtain ⟨later, run', isLater⟩ := (Option.any_eq_true _ _).mp onward
  obtain ⟨first, stored, marked⟩ := (Option.any_eq_true _ _).mp isFirst
  obtain ⟨last, still, ended⟩ := (Option.any_eq_true _ _).mp isLater
  obtain ⟨isMarked, markedAt⟩ := Bool.and_eq_true_iff.mp marked
  obtain ⟨isEnded, endedAt⟩ := Bool.and_eq_true_iff.mp ended
  exact ⟨state, later, first, last, reachable_runTasks (fun _ _ _ => trivial) run,
    System.steps_of_runChecked (fun _ _ _ => trivial) _ state later run', stored,
    of_decide_eq_true isMarked, of_decide_eq_true markedAt, still, of_decide_eq_true isEnded,
    of_decide_eq_true endedAt⟩

end Nanofile
