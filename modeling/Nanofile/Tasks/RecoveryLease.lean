import Nanofile.Tasks.DedupLock
import Nanofile.Tasks.JournalMoves

/-!
# Recoveries and leases

A recovery takes the rows whose lease is over.  Nothing renews the lease of a run that goes on, so
the claim of a row means that its server is gone only as long as no run outlives its lease.
-/

set_option autoImplicit false

namespace Nanofile

open Nanofile.Lib

variable {Value : Type} {config : TaskConfig Value}
  {state next : Threads (Cluster Value) (TaskThread Value)}
  {action : ThreadAction (TaskRequest Value) (TaskJob Value) TaskTick}

/-! ## The statement -/

def Executing (state : Threads (Cluster Value) (TaskThread Value)) (id : RunId) : Prop :=
  ∃ server task, (state.shared.systems server).stopped = false ∧ IsUnderway state server task ∧
    task.run.id = id

/-- The row of the id, when it is not finished, has a lease that is not over at the time. -/
def HeldBeyond (rows : List JobRunRow) (time : Int) (id : RunId) : Prop :=
  ∀ row ∈ rows, row.id = id → row.finishedAt = none →
    ∃ lease, row.leaseUntil = some lease ∧ time < lease

/-- The clock does not go back, a lease is not over when it is stored, and no recovery begins while
a run of a server that is alive has outlived its lease. -/
def leasesHold (config : TaskConfig Value) (state : Threads (Cluster Value) (TaskThread Value)) :
    ThreadAction (TaskRequest Value) (TaskJob Value) TaskTick → Prop
  | .serve (.setClock now) => state.shared.clock ≤ now
  | .advance index _ => ∀ thread, state.running[index]? = some thread →
      (thread.call = .recovering → ∀ id, Executing state id →
        HeldBeyond state.shared.journal state.shared.clock id) ∧
      ∀ lease, (rowWrite config thread.call).stored = some lease → state.shared.clock < lease
  | _ => True

section Statement

variable [DecidableEq Value]

structure ReplaysDead (config : TaskConfig Value)
    (guard : Threads (Cluster Value) (TaskThread Value) →
      ThreadAction (TaskRequest Value) (TaskJob Value) TaskTick → Prop)
    (state : Threads (Cluster Value) (TaskThread Value)) : Prop where
  dead : ∀ action next id attempt, (taskProgram config).step state action = some next →
    next.shared.claims = (id, attempt) :: state.shared.claims → ¬ Executing state id
  once : state.shared.claims.Nodup
  final : ∀ row ∈ state.shared.journal, row.finishedAt.isSome = true → ∀ later,
    ((taskProgram config).system ClusterStarts).Steps guard state later → ∀ attempt,
      (row.id, attempt) ∈ later.shared.claims → (row.id, attempt) ∈ state.shared.claims

end Statement

/-! ## Steps of the whole system -/

def callOf (state : Threads (Cluster Value) (TaskThread Value)) :
    ThreadAction (TaskRequest Value) (TaskJob Value) TaskTick → TaskCall Value
  | .advance index _ => (state.running[index]?).elim .done TaskThread.call
  | _ => .done

def Insertable (config : TaskConfig Value) (state : Threads (Cluster Value) (TaskThread Value))
    (id : RunId) : Prop :=
  (∃ server, ∃ task ∈ (state.shared.systems server).spawned, task.run.id = id ∧
    (config.policy task.run.key).journaledFromTheStart = false) ∨
  ∃ thread ∈ state.running, ∃ task, unwritten config thread.call = some task ∧ task.run.id = id

variable {id : RunId}

theorem insertable_of_inserted
    (inserts : (rowWrite config (callOf state action)).inserted = some id) :
    Insertable config state id := by
  cases action with
  | advance index tick =>
    obtain ⟨task, isUnwritten, isId⟩ := unwritten_of_inserted inserts
    cases found : state.running[index]? with
    | none =>
      rw [callOf, found] at isUnwritten
      cases isUnwritten
    | some thread =>
      rw [callOf, found] at isUnwritten
      exact Or.inr ⟨thread, List.mem_of_getElem? found, task, isUnwritten, isId⟩
  | _ => cases inserts

theorem mem_of_mem_set {α : Type} {entries : List α} {index : Nat} {entry new : α}
    (listed : entry ∈ entries.set index new) :
    entry = new ∨ ∃ j, j ≠ index ∧ entries[j]? = some entry := by
  obtain ⟨j, found⟩ := List.mem_iff_getElem?.mp listed
  rw [List.getElem?_set] at found
  split at found
  · split at found
    · exact Or.inl (Option.some.inj found).symm
    · cases found
  · rename_i apart
    exact Or.inr ⟨j, Ne.symm apart, found⟩

variable {guard : Threads (Cluster Value) (TaskThread Value) →
  ThreadAction (TaskRequest Value) (TaskJob Value) TaskTick → Prop}

section Steps

variable [DecidableEq Value]

theorem step_advance {index : Nat} {tick : TaskTick}
    (taken : (taskProgram config).step state (.advance index tick) = some next) :
    ∃ server call call', state.running[index]? = some ⟨server, call⟩ ∧
      (state.shared.systems server).stopped = false ∧
      taskStep config tick server state.shared call = some (next.shared, call') ∧
      next.running = state.running.set index ⟨server, call'⟩ := by
  obtain ⟨⟨server, call⟩, ⟨after, server', call'⟩, found, moved, rfl⟩ :=
    Program.step_advance_iff.mp taken
  obtain ⟨alive, sameServer, step⟩ := advance_eq_some_iff.mp moved
  obtain rfl : server' = server := sameServer
  exact ⟨server', call, call', found, alive, step, rfl⟩

omit [DecidableEq Value] in
theorem serveTask_alive (config : TaskConfig Value) (cluster : Cluster Value)
    (request : TaskRequest Value) (other : Nat)
    (alive : ((serveTask config cluster request).systems other).stopped = false) :
    (cluster.systems other).stopped = false := by
  have changed : ∀ (index : Nat) (change : TaskSystem Value → TaskSystem Value),
      (∀ system, (change system).stopped = system.stopped) →
      ((cluster.setSystem index change).systems other).stopped =
        (cluster.systems other).stopped :=
    fun index change same => cluster.setSystem_keeps index change TaskSystem.stopped same other
  cases request with
  | setClock now => exact alive
  | cancel server id =>
    rw [serveTask, changed server _ fun system => by split <;> rfl] at alive
    exact alive
  | stop server =>
    by_cases here : other = server
    · subst here
      rw [serveTask, Cluster.setSystem_same] at alive
      cases alive
    · rwa [serveTask, Cluster.setSystem_other _ _ _ here] at alive
  | _ =>
    rw [serveTask, Cluster.setStore] at alive
    refine (changed _ _ ?_).symm.trans alive
    exact fun _ => rfl

omit [DecidableEq Value] in
theorem serveTask_journal (config : TaskConfig Value) (cluster : Cluster Value)
    (request : TaskRequest Value) :
    (serveTask config cluster request).journal = cluster.journal ∧
      (serveTask config cluster request).claims = cluster.claims ∧
      (serveTask config cluster request).nextId = cluster.nextId := by
  cases request <;> exact ⟨rfl, rfl, rfl⟩

theorem journal_action (taken : (taskProgram config).step state action = some next) :
    JournalMoves (rowWrite config (callOf state action)) state.shared.journal next.shared.journal ∧
      ClaimMoves state.shared next.shared (callOf state action) := by
  cases action with
  | serve request =>
    cases taken
    obtain ⟨journal, claims, -⟩ := serveTask_journal config state.shared request
    refine ⟨?_, .same _ claims⟩
    show JournalMoves _ _ (serveTask config state.shared request).journal
    rw [journal]
    exact .refl _ _
  | begin job =>
    cases taken
    exact ⟨.refl _ _, .same _ rfl⟩
  | advance index tick =>
    obtain ⟨server, call, call', found, -, step, -⟩ := step_advance taken
    rw [callOf, found]
    exact ⟨(taskStep_journal step).rows, (taskStep_journal step).claims⟩

theorem nextId_mono (reached : ((taskProgram config).system ClusterStarts).Reachable guard state)
    (taken : (taskProgram config).step state action = some next) :
    state.shared.nextId ≤ next.shared.nextId := by
  cases action with
  | serve request =>
    cases taken
    exact Nat.le_of_eq (serveTask_journal config state.shared request).2.2.symm
  | begin job =>
    cases taken
    exact Nat.le_refl _
  | advance index tick =>
    obtain ⟨kept, holders, -⟩ := holders_kept reached
    obtain ⟨server, call, call', found, -, step, -⟩ := step_advance taken
    exact (taskStep_moves kept (holders _ (List.mem_of_getElem? found)) step).held.nextId_le

theorem enqueues_begin (config : TaskConfig Value) (job : TaskJob Value) :
    enqueues ((taskProgram config).begin job).call = none := by
  cases job <;> rfl

/-- Only runs of jobs that are journaled from the start are written down at submission. -/
theorem enqueues_journaled
    (reached : ((taskProgram config).system ClusterStarts).Reachable guard state) :
    ∀ thread ∈ state.running, ∀ task, enqueues thread.call = some task →
      (config.policy task.run.key).journaledFromTheStart = true := by
  have kept : Program.Kept (fun _ : Cluster Value => True) (fun _ thread => ∀ task,
      enqueues thread.call = some task →
        (config.policy task.run.key).journaledFromTheStart = true) state := by
    refine Program.threads_invariant_given (fun _ => holders_kept) ?_ ?_ ?_ (fun _ _ => trivial)
      reached
    · intro cluster job _ task isNext
      simp [enqueues_begin] at isNext
    · intro before request _ kept _
      exact ⟨trivial, kept.2⟩
    · intro before index thread tick after _ kept found _ moved
      obtain ⟨-, -, step⟩ := advance_eq_some_iff.mp moved
      refine ⟨trivial, fun task isNext => ?_, fun j other _ isThread =>
        kept.2 other (List.mem_of_getElem? isThread)⟩
      rcases taskStep_enqueues step isNext with wasNext | journaled
      · exact kept.2 thread (List.mem_of_getElem? found) task wasNext
      · exact journaled
  exact kept.2

/-- A step under whose id a row may be inserted later inserts none, and the id was drawn. -/
theorem insertable_step
    (reached : ((taskProgram config).system ClusterStarts).Reachable guard state)
    (taken : (taskProgram config).step state action = some next)
    (insertable : Insertable config next id) :
    (Insertable config state id ∨ id = state.shared.nextId) ∧
      (rowWrite config (callOf state action)).inserted ≠ some id := by
  cases action with
  | serve request =>
    cases taken
    have moves : ServeMoves state.shared
      ((taskProgram config).serve request state.shared) := serveTask_moves config _ request
    refine ⟨Or.inl ?_, nofun⟩
    rcases insertable with ⟨server, task, listed, isTask⟩ | running
    · rw [moves.queue] at listed
      exact Or.inl ⟨server, task, listed, isTask⟩
    · exact Or.inr running
  | begin job =>
    cases taken
    refine ⟨Or.inl ?_, nofun⟩
    rcases insertable with spawned | ⟨thread, running, task, isUnwritten, isId⟩
    · exact Or.inl spawned
    · rcases List.mem_append.mp running with old | new
      · exact Or.inr ⟨thread, old, task, isUnwritten, isId⟩
      · rw [List.mem_singleton.mp new, unwritten_of_heldTask_none config
          (heldTask_begin config job)] at isUnwritten
        cases isUnwritten
  | advance index tick =>
    obtain ⟨kept, holders, apart⟩ := holders_kept reached
    obtain ⟨server, call, call', found, -, step, isRunning⟩ := step_advance taken
    have running := List.mem_of_getElem? found
    have own := holders _ running
    have moves := taskStep_moves kept own step
    have isCall : callOf state (.advance index tick) = call := by
      rw [callOf, found]
      rfl
    rw [isCall]
    -- Another task than the one of the call has no row inserted.
    have others : (∀ task, heldTask call = some task → task.run.id ≠ id) →
        (rowWrite config call).inserted ≠ some id := by
      intro notMine inserts
      obtain ⟨task, isUnwritten, isId⟩ := unwritten_of_inserted inserts
      exact notMine task (heldTask_of_unwritten isUnwritten) isId
    have noTask : heldTask call = none → (rowWrite config call).inserted ≠ some id := by
      intro free
      refine others fun task held => ?_
      rw [free] at held
      cases held
    rcases insertable with ⟨other, task, listed, rfl, silent⟩ | ⟨thread, listed, task, isUnwritten,
      rfl⟩
    · rcases taskStep_spawns moves step listed with old | ⟨rfl, afterSubmit, rfl⟩
      · exact ⟨Or.inl (Or.inl ⟨other, task, old, rfl, silent⟩), others fun task' held =>
          (own.apart task' held other task old).symm⟩
      · refine ⟨Or.inl (Or.inr ⟨_, running, task, ?_, rfl⟩), nofun⟩
        exact if_neg (by rw [silent]; exact Bool.false_ne_true)
    · rw [isRunning] at listed
      rcases mem_of_mem_set listed with rfl | ⟨j, isOther, isThread⟩
      · cases taskStep_unwritten (enqueues_journaled reached _ running) step isUnwritten with
        | already held silent =>
          refine ⟨Or.inl (Or.inr ⟨_, running, task, held, rfl⟩), ?_⟩
          rw [silent]
          exact nofun
        | drawn free isNew => exact ⟨Or.inr isNew, noTask free⟩
        | queued free listed silent =>
          exact ⟨Or.inl (Or.inl ⟨server, task, listed, rfl, silent⟩), noTask free⟩
      · refine ⟨Or.inl (Or.inr ⟨thread, List.mem_of_getElem? isThread, task, isUnwritten, rfl⟩),
          others fun task' held => ?_⟩
        exact apart index j _ thread (Ne.symm isOther) found isThread task' task held
          (heldTask_of_unwritten isUnwritten)

theorem executing_step (reached : ((taskProgram config).system ClusterStarts).Reachable guard state)
    (taken : (taskProgram config).step state action = some next) (executing : Executing next id) :
    Executing state id ∨ Insertable config state id := by
  obtain ⟨other, task, alive, isUnderway, rfl⟩ := executing
  cases action with
  | serve request =>
    cases taken
    have moves : ServeMoves state.shared
      ((taskProgram config).serve request state.shared) := serveTask_moves config _ request
    refine Or.inl ⟨other, task, serveTask_alive config _ request other alive, ?_, rfl⟩
    rcases isUnderway with listed | running
    · rw [moves.queue] at listed
      exact Or.inl listed
    · exact Or.inr running
  | begin job =>
    cases taken
    refine Or.inl ⟨other, task, alive, ?_, rfl⟩
    rcases isUnderway with listed | ⟨thread, running, isServer, isUnderway⟩
    · exact Or.inl listed
    · rcases List.mem_append.mp running with old | new
      · exact Or.inr ⟨thread, old, isServer, isUnderway⟩
      · rw [List.mem_singleton.mp new, underway_begin] at isUnderway
        cases isUnderway
  | advance index tick =>
    obtain ⟨kept, holders, -⟩ := holders_kept reached
    obtain ⟨server, call, call', found, -, step, isRunning⟩ := step_advance taken
    have running := List.mem_of_getElem? found
    have moves := taskStep_moves kept (holders _ running) step
    rw [taskStep_stopped step] at alive
    rcases isUnderway with listed | ⟨thread, listed, rfl, isUnderway⟩
    · refine Or.inl ⟨other, task, alive, ?_, rfl⟩
      rcases taskStep_queued moves step listed with old | ⟨isServer, isUnderway, -⟩
      · exact Or.inl old
      · exact Or.inr ⟨_, running, isServer.symm, isUnderway⟩
    · rw [isRunning] at listed
      rcases mem_of_mem_set listed with rfl | ⟨j, -, isThread⟩
      · cases (taskStep_underway step isUnderway).1 with
        | already held => exact Or.inl ⟨server, task, alive, Or.inr ⟨_, running, rfl, held⟩, rfl⟩
        | reserved admission afterSubmit isCall store granted isAfter =>
          exact Or.inr (Or.inr ⟨_, running, task, by rw [isCall]; rfl, rfl⟩)
        | queued isCall listed => exact Or.inl ⟨server, task, alive, Or.inl listed, rfl⟩
      · exact Or.inl ⟨thread.server, task, alive,
          Or.inr ⟨thread, List.mem_of_getElem? isThread, rfl, isUnderway⟩, rfl⟩

/-! ## The journal of every run -/

/-- The journal or the history names the id. -/
def Written (cluster : Cluster Value) (id : RunId) : Prop :=
  (∃ row ∈ cluster.journal, row.id = id) ∨ ∃ attempt, (id, attempt) ∈ cluster.claims

structure JournalKept (config : TaskConfig Value)
    (state : Threads (Cluster Value) (TaskThread Value)) : Prop where
  distinct : (state.shared.journal.map JobRunRow.id).Nodup
  known : ∀ id, Written state.shared id → id < state.shared.nextId
  unwritten : ∀ id, Insertable config state id → ¬ Written state.shared id
  attempts : ∀ id attempt, (id, attempt) ∈ state.shared.claims → ∀ row ∈ state.shared.journal,
    row.id = id → attempt < row.attempt
  once : state.shared.claims.Nodup

omit [DecidableEq Value] in
theorem claimed_row {now : Int} {row : JobRunRow} {cluster : Cluster Value}
    (won : (JobRuns.claimForRecovery cluster.journal row.id row.attempt now
      (QueuePolicy.standard.leaseUntil now)).1 = true) :
    ∃ free ∈ cluster.journal, free.id = row.id ∧ free.finishedAt = none ∧
      free.attempt = row.attempt ∧ JobRuns.leaseOver now free = true := by
  obtain ⟨free, listed, isFree⟩ := List.any_eq_true.mp won
  exact ⟨free, listed, JobRuns.claimable_iff.mp isFree⟩

theorem written_step (taken : (taskProgram config).step state action = some next)
    (written : Written next.shared id) : Written state.shared id ∨
      (rowWrite config (callOf state action)).inserted = some id := by
  obtain ⟨rows, claims⟩ := journal_action taken
  rcases written with ⟨row, listed, rfl⟩ | ⟨attempt, claimed⟩
  · rcases rows.cases listed with ⟨inserts, -⟩ | ⟨old, member, change⟩
    · exact Or.inr inserts
    · exact Or.inl (Or.inl ⟨old, member, change.id_eq.symm⟩)
  · refine Or.inl ?_
    generalize callOf state action = call at claims
    cases claims with
    | same call same => exact Or.inr ⟨attempt, by rwa [← same]⟩
    | claimed now row rest won journal isClaims =>
      rw [isClaims] at claimed
      rcases List.mem_cons.mp claimed with isNew | old
      · cases isNew
        obtain ⟨free, listed, isId, -⟩ := claimed_row won
        exact Or.inl ⟨free, listed, isId⟩
      · exact Or.inr ⟨attempt, old⟩

section

variable (reached : ((taskProgram config).system ClusterStarts).Reachable guard state)
include reached

theorem insertable_known (insertable : Insertable config state id) : id < state.shared.nextId := by
  obtain ⟨kept, holders, -⟩ := holders_kept reached
  rcases insertable with ⟨server, task, listed, rfl, -⟩ | ⟨thread, running, task, isUnwritten, rfl⟩
  · exact kept.spawned server task listed
  · exact (holders thread running).known task (heldTask_of_unwritten isUnwritten)

theorem JournalKept.step (taken : (taskProgram config).step state action = some next)
    (kept : JournalKept config state) : JournalKept config next := by
  obtain ⟨rows, claims⟩ := journal_action taken
  have grows := nextId_mono reached taken
  refine ⟨rows.ids_nodup kept.distinct, fun id written => ?_, fun id insertable written => ?_,
    fun id attempt claimed row listed isId => ?_, ?_⟩
  · rcases written_step taken written with old | inserts
    · exact Nat.lt_of_lt_of_le (kept.known id old) grows
    · exact Nat.lt_of_lt_of_le (insertable_known reached (insertable_of_inserted inserts)) grows
  · obtain ⟨origin, silent⟩ := insertable_step reached taken insertable
    rcases written_step taken written with old | inserts
    · rcases origin with wasInsertable | rfl
      · exact kept.unwritten id wasInsertable old
      · exact Nat.lt_irrefl _ (kept.known _ old)
    · exact silent inserts
  · -- An old claim is of an earlier attempt, a row that is inserted has no claim.
    have later : ∀ attempt, (id, attempt) ∈ state.shared.claims → attempt < row.attempt := by
      intro attempt old
      rcases rows.cases listed with ⟨inserts, -⟩ | ⟨row', member, change⟩
      · rw [isId] at inserts
        exact absurd (Or.inr ⟨attempt, old⟩) (kept.unwritten id (insertable_of_inserted inserts))
      · exact Int.lt_of_lt_of_le (kept.attempts id attempt old row' member
          (change.id_eq.symm.trans isId)) change.attempt_le
    generalize callOf state action = call at claims
    cases claims with
    | same call same => exact later attempt (by rwa [← same])
    | claimed now row' rest won journal isClaims =>
      rw [isClaims] at claimed
      rcases List.mem_cons.mp claimed with isNew | old
      · cases isNew
        rw [journal] at listed
        exact JobRuns.attempt_claimed kept.distinct won listed isId
      · exact later attempt old
  · generalize callOf state action = call at claims
    cases claims with
    | same call same =>
      rw [same]
      exact kept.once
    | claimed now row rest won journal isClaims =>
      rw [isClaims]
      refine List.nodup_cons.mpr ⟨fun again => ?_, kept.once⟩
      obtain ⟨free, listed, isId, -, isAttempt, -⟩ := claimed_row won
      have later := kept.attempts _ _ again free listed isId
      omega

theorem journal_kept : JournalKept config state := by
  induction reached with
  | @init state start =>
    obtain ⟨⟨noClaims, known, distinct, empty⟩, idle⟩ := start
    refine ⟨distinct, fun id written => ?_, fun id insertable => ?_, fun id attempt claimed => ?_,
      ?_⟩
    · rcases written with ⟨row, listed, rfl⟩ | ⟨attempt, claimed⟩
      · exact known row listed
      · simp [noClaims] at claimed
    · rcases insertable with ⟨server, task, listed, -⟩ | ⟨thread, running, -⟩
      · simp [(empty server).2] at listed
      · simp [idle] at running
    · simp [noClaims] at claimed
    · rw [noClaims]
      exact List.nodup_nil
  | step reached' met taken ih => exact ih.step reached' taken

/-- The row of the id is finished, no other will be inserted, and its claims are the given ones. -/
structure FinishedRow (config : TaskConfig Value) (id : RunId) (claims : List (RunId × Int))
    (state : Threads (Cluster Value) (TaskThread Value)) : Prop where
  known : id < state.shared.nextId
  finished : ∀ row ∈ state.shared.journal, row.id = id → row.finishedAt.isSome = true
  gone : ¬ Insertable config state id
  claims : ∀ attempt, (id, attempt) ∈ state.shared.claims → (id, attempt) ∈ claims

theorem FinishedRow.step {claims : List (RunId × Int)}
    (taken : (taskProgram config).step state action = some next)
    (kept : FinishedRow config id claims state) : FinishedRow config id claims next := by
  obtain ⟨rows, moves⟩ := journal_action taken
  refine ⟨Nat.lt_of_lt_of_le kept.known (nextId_mono reached taken), fun row listed isId => ?_,
    fun insertable => ?_, fun attempt claimed => ?_⟩
  · rcases rows.cases listed with ⟨inserts, -⟩ | ⟨old, member, change⟩
    · rw [isId] at inserts
      exact absurd (insertable_of_inserted inserts) kept.gone
    · exact change.stays_finished (kept.finished old member (change.id_eq.symm.trans isId))
  · rcases (insertable_step reached taken insertable).1 with wasInsertable | isNew
    · exact kept.gone wasInsertable
    · exact Nat.ne_of_lt kept.known isNew
  · generalize callOf state action = call at moves
    cases moves with
    | same call same => exact kept.claims attempt (by rwa [← same])
    | claimed now row rest won journal isClaims =>
      rw [isClaims] at claimed
      rcases List.mem_cons.mp claimed with isNew | old
      · cases isNew
        obtain ⟨free, listed, isId, isOpen, -⟩ := claimed_row won
        have finished := kept.finished free listed isId
        simp [isOpen] at finished
      · exact kept.claims attempt old

end

/-! ## Leases -/

def RecoveryAt (state : Threads (Cluster Value) (TaskThread Value)) (time : Int) : Prop :=
  ∃ thread ∈ state.running, recoveryTime thread.call = some time

structure LeasesKept (state : Threads (Cluster Value) (TaskThread Value)) : Prop where
  past : ∀ time, RecoveryAt state time → time ≤ state.shared.clock
  held : ∀ time, RecoveryAt state time → ∀ id, Executing state id →
    HeldBeyond state.shared.journal time id

omit [DecidableEq Value] in
/-- A change of the journal leaves a lease when what is stored reaches beyond the time and what is
claimed was held beyond the time of the claim. -/
theorem HeldBeyond.step {write : RowWrite} {rows rows' : List JobRunRow} {time : Int}
    (held : HeldBeyond rows time id) (moves : JournalMoves write rows rows')
    (stored : ∀ lease, write.stored = some lease → time < lease)
    (claimed : ∀ attempt now, write = .claim id attempt now → HeldBeyond rows now id) :
    HeldBeyond rows' time id := by
  intro row' listed isId isOpen
  rcases moves.cases listed with ⟨-, -, finished | ⟨lease, isStored, leased⟩⟩ |
    ⟨row, member, change⟩
  · simp [isOpen] at finished
  · exact ⟨lease, leased, stored lease isStored⟩
  · have sameId := change.id_eq.symm.trans isId
    cases change with
    | kept => exact held row' member isId isOpen
    | marked mine id' attempt finishedAt leased =>
      exact ⟨_, leased, stored _ (by rw [mine]; rfl)⟩
    | closed id' attempt finished => simp [isOpen] at finished
    | claimed mine wasOpen isOver id' attempt finishedAt =>
      obtain ⟨lease, isLease, later⟩ := claimed _ _ (by rw [mine, sameId]) row member sameId
        wasOpen
      simp [JobRuns.leaseOver, isLease] at isOver
      omega

omit [DecidableEq Value] in
theorem running_callOf {call : TaskCall Value} (isCall : callOf state action = call)
    (runs : call ≠ .done) : ∃ index tick thread, action = .advance index tick ∧
      state.running[index]? = some thread ∧ thread.call = call := by
  cases action with
  | advance index tick =>
    rw [callOf] at isCall
    cases found : state.running[index]? with
    | none =>
      rw [found] at isCall
      exact absurd isCall.symm runs
    | some thread =>
      rw [found] at isCall
      exact ⟨index, tick, thread, rfl, found, isCall⟩
  | _ => exact absurd isCall.symm runs

theorem recoveryAt_step (taken : (taskProgram config).step state action = some next) {time : Int}
    (recovery : RecoveryAt next time) : RecoveryAt state time ∨
      (callOf state action = .recovering ∧ time = state.shared.clock) := by
  obtain ⟨thread, listed, isTime⟩ := recovery
  cases action with
  | serve request =>
    cases taken
    exact Or.inl ⟨thread, listed, isTime⟩
  | begin job =>
    cases taken
    rcases List.mem_append.mp listed with old | new
    · exact Or.inl ⟨thread, old, isTime⟩
    · rw [List.mem_singleton.mp new] at isTime
      cases job <;> cases isTime
  | advance index tick =>
    obtain ⟨server, call, call', found, -, step, isRunning⟩ := step_advance taken
    rw [isRunning] at listed
    rcases mem_of_mem_set listed with rfl | ⟨j, -, isThread⟩
    · rcases taskStep_recoveryTime step isTime with wasTime | ⟨rfl, isClock⟩
      · exact Or.inl ⟨_, List.mem_of_getElem? found, wasTime⟩
      · refine Or.inr ⟨?_, isClock⟩
        rw [callOf, found]
        rfl
    · exact Or.inl ⟨thread, List.mem_of_getElem? isThread, isTime⟩

omit [DecidableEq Value] in
theorem recoveryAt_of_claim {attempt now : Int}
    (isClaim : rowWrite config (callOf state action) = .claim id attempt now) :
    RecoveryAt state now := by
  have isClaiming : ∃ row rest, callOf state action = .claiming now row rest := by
    generalize callOf state action = call at isClaim
    cases call with
    | claiming now' row rest =>
      cases isClaim
      exact ⟨row, rest, rfl⟩
    | submit stage task after => cases stage <;> cases isClaim
    | drive stage task permit =>
      cases stage with
      | recording report =>
        rw [rowWrite] at isClaim
        split at isClaim <;> cases isClaim
      | _ => cases isClaim
    | _ => cases isClaim
  obtain ⟨row, rest, isCall⟩ := isClaiming
  obtain ⟨index, tick, thread, rfl, found, isThread⟩ := running_callOf isCall (by simp)
  exact ⟨thread, List.mem_of_getElem? found, by rw [isThread]; rfl⟩

theorem clock_mono (met : leasesHold config state action)
    (taken : (taskProgram config).step state action = some next) :
    state.shared.clock ≤ next.shared.clock := by
  cases action with
  | serve request =>
    cases taken
    cases request with
    | setClock now => exact met
    | _ => exact Int.le_refl _
  | begin job =>
    cases taken
    exact Int.le_refl _
  | advance index tick =>
    obtain ⟨server, call, call', -, -, step, -⟩ := step_advance taken
    exact Int.le_of_eq (taskStep_journal step).clock.symm

theorem LeasesKept.step
    (reached : ((taskProgram config).system ClusterStarts).Reachable (leasesHold config) state)
    (met : leasesHold config state action)
    (taken : (taskProgram config).step state action = some next)
    (kept : LeasesKept state) : LeasesKept next := by
  -- A recovery of the next state began before or begins now, under the guard.
  have begun : ∀ time, RecoveryAt next time → time ≤ state.shared.clock ∧
      ∀ id, Executing state id → HeldBeyond state.shared.journal time id := by
    intro time recovery
    rcases recoveryAt_step taken recovery with old | ⟨isCall, rfl⟩
    · exact ⟨kept.past time old, kept.held time old⟩
    · obtain ⟨index, tick, thread, rfl, found, isRecovering⟩ := running_callOf isCall nofun
      exact ⟨Int.le_refl _, (met thread found).1 isRecovering⟩
  refine ⟨fun time recovery => ?_, fun time recovery id executing => ?_⟩
  · exact Int.le_trans (begun time recovery).1 (clock_mono met taken)
  · have unwritten : Insertable config state id → ∀ time, HeldBeyond state.shared.journal time id :=
      fun insertable _ row listed isId =>
        absurd (Or.inl ⟨row, listed, isId⟩) ((journal_kept reached).unwritten id insertable)
    have held : ∀ time, (Executing state id → HeldBeyond state.shared.journal time id) →
        HeldBeyond state.shared.journal time id := by
      intro time wasHeld
      rcases executing_step reached taken executing with executing | insertable
      · exact wasHeld executing
      · exact unwritten insertable time
    refine HeldBeyond.step (held time ((begun time recovery).2 id)) (journal_action taken).1
      (fun lease isStored => ?_) fun attempt now isClaim => held now fun executing' => ?_
    · obtain ⟨isPast, -⟩ := begun time recovery
      obtain ⟨index, tick, thread, rfl, found, isCall⟩ := running_callOf rfl (by
        intro isDone
        rw [isDone] at isStored
        cases isStored)
      rw [← isCall] at isStored
      exact Int.lt_of_le_of_lt isPast ((met thread found).2 lease isStored)
    · exact kept.held now (recoveryAt_of_claim isClaim) id executing'

theorem leases_kept
    (reached : ((taskProgram config).system ClusterStarts).Reachable (leasesHold config) state) :
    LeasesKept state := by
  induction reached with
  | @init state start =>
    have noRecovery : ∀ time, ¬ RecoveryAt state time := by
      rintro time ⟨thread, running, -⟩
      simp [start.2] at running
    exact ⟨fun time recovery => absurd recovery (noRecovery time),
      fun time recovery => absurd recovery (noRecovery time)⟩
  | step reached' met taken ih => exact ih.step reached' met taken

/-- In every run in which no run of a server that is alive has outlived its lease when a recovery
begins, a row is claimed only when nobody executes its run, once for each attempt, and never again
when it is finished. -/
theorem recovery_only_of_dead
    (reached : ((taskProgram config).system ClusterStarts).Reachable (leasesHold config) state) :
    ReplaysDead config (leasesHold config) state := by
  have journal := journal_kept reached
  refine ⟨fun action next id attempt taken isClaim executing => ?_, journal.once,
    fun row listed finished later steps => ?_⟩
  · obtain ⟨-, claims⟩ := journal_action taken
    cases isCall : callOf state action with
    | claiming now row rest =>
      rw [isCall] at claims
      cases claims with
      | same call same => simp [same] at isClaim
      | claimed now row rest won journal isClaims =>
        rw [isClaims, List.cons.injEq, Prod.mk.injEq] at isClaim
        obtain ⟨⟨rfl, -⟩, -⟩ := isClaim
        obtain ⟨index, tick, thread, rfl, found, isThread⟩ := running_callOf isCall nofun
        have recovery : RecoveryAt state now :=
          ⟨thread, List.mem_of_getElem? found, by rw [isThread]; rfl⟩
        obtain ⟨free, listed, isId, isOpen, -, isOver⟩ := claimed_row won
        obtain ⟨lease, isLease, later⟩ :=
          (leases_kept reached).held now recovery row.id executing free listed isId isOpen
        simp [JobRuns.leaseOver, isLease] at isOver
        omega
    | _ =>
      rw [isCall] at claims
      cases claims with
      | same call same => simp [same] at isClaim
  · have kept : FinishedRow config row.id state.shared.claims later := by
      induction steps with
      | refl =>
        have written : Written state.shared row.id := Or.inl ⟨row, listed, rfl⟩
        refine ⟨journal.known _ written, fun other listed' isId => ?_, fun insertable =>
          journal.unwritten _ insertable written, fun _ claimed => claimed⟩
        rw [List.inj_on_of_nodup_map journal.distinct listed' listed isId]
        exact finished
      | tail steps' met taken ih => exact ih.step (reached.steps steps') taken
    exact kept.claims

end Steps

/-! ## Runs of two servers with the policies of the catalog -/

section Runs

variable [DecidableEq Value]

theorem not_executing_of_stopped
    (reached : ((taskProgram config).system ClusterStarts).Reachable guard state)
    {thread : TaskThread Value} (running : thread ∈ state.running)
    (stopped : (state.shared.systems thread.server).stopped = true) {task : Task Value}
    (held : heldTask thread.call = some task) : ¬ Executing state task.run.id := by
  obtain ⟨-, holders, apart⟩ := holders_kept reached
  rintro ⟨server, task', alive, listed | ⟨thread', running', rfl, isUnderway⟩, sameId⟩
  · exact (holders thread running).apart task held server task' listed sameId
  · obtain ⟨i, isThread⟩ := List.mem_iff_getElem?.mp running
    obtain ⟨j, isThread'⟩ := List.mem_iff_getElem?.mp running'
    by_cases same : i = j
    · subst same
      cases isThread.symm.trans isThread'
      simp [stopped] at alive
    · exact apart i j thread thread' same isThread isThread' task task' held
        (heldTask_of_underway isUnderway) sameId.symm

end Runs

def executingCheck (id : RunId) (state : Threads (Cluster RepoJson) (TaskThread RepoJson)) : Bool :=
  state.running.any fun thread => !(state.shared.systems thread.server).stopped &&
    (underway thread.call).any fun task => task.run.id = id

def abandonedCheck (id : RunId) (state : Threads (Cluster RepoJson) (TaskThread RepoJson)) : Bool :=
  state.running.any fun thread => (state.shared.systems thread.server).stopped &&
    (heldTask thread.call).any fun task => task.run.id = id

def leasesHoldCheck (state : Threads (Cluster RepoJson) (TaskThread RepoJson)) :
    TaskAction → Bool
  | .serve (.setClock now) => state.shared.clock ≤ now
  | .advance index _ =>
    match state.running[index]? with
    | none => true
    | some thread =>
      (match thread.call with
      | .recovering => state.shared.journal.all fun row =>
        row.finishedAt.isSome || !JobRuns.leaseOver state.shared.clock row ||
          abandonedCheck row.id state
      | _ => true) &&
      (rowWrite catalogConfig thread.call).stored.all fun lease => state.shared.clock < lease
  | _ => true

theorem leasesHold_of_check {guard : Threads (Cluster RepoJson) (TaskThread RepoJson) →
      TaskAction → Prop} (state : Threads (Cluster RepoJson) (TaskThread RepoJson))
    (action : TaskAction)
    (reached : ((taskProgram catalogConfig).system ClusterStarts).Reachable guard state)
    (allowed : leasesHoldCheck state action = true) : leasesHold catalogConfig state action := by
  cases action with
  | serve request =>
    cases request with
    | setClock now =>
      have forward : state.shared.clock ≤ now := of_decide_eq_true allowed
      exact forward
    | _ => trivial
  | begin job => trivial
  | advance index tick =>
    intro thread found
    simp only [leasesHoldCheck, found] at allowed
    obtain ⟨recovers, stores⟩ := Bool.and_eq_true_iff.mp allowed
    refine ⟨fun isCall id executing row listed isId isOpen => ?_, fun lease isStored => ?_⟩
    · rw [isCall] at recovers
      have left := List.all_eq_true.mp recovers row listed
      have notGone : abandonedCheck row.id state = false := by
        rw [Bool.eq_false_iff]
        intro gone
        obtain ⟨holder, running, isHolder⟩ := List.any_eq_true.mp gone
        obtain ⟨stopped, isHeld⟩ := Bool.and_eq_true_iff.mp isHolder
        obtain ⟨task, held, sameId⟩ := (Option.any_eq_true _ _).mp isHeld
        have sameId : task.run.id = id := (of_decide_eq_true sameId).trans isId
        subst sameId
        exact not_executing_of_stopped reached running stopped held executing
      rw [isOpen, notGone] at left
      cases leased : row.leaseUntil with
      | none => simp [JobRuns.leaseOver, leased] at left
      | some lease => exact ⟨lease, rfl, by simpa [JobRuns.leaseOver, leased] using left⟩
    · rw [isStored] at stores
      exact of_decide_eq_true stores

def reindexAbandoned : List TaskAction :=
  reindexSubmitted 0 ++ reindexBegins 1 ++ [.serve (.stop 0), .serve (.setClock 1300),
    .begin (.recover 1)] ++ taskSteps 4 2 calm

theorem reindex_claimed_dead : ∃ state,
    ReplaysDead catalogConfig (leasesHold catalogConfig) state ∧
    state.shared.claims = [(0, 1)] := by
  have ran : (runTasks leasesHoldCheck reindexAbandoned).any (fun state =>
      state.shared.claims = [(0, 1)]) = true := by
    decide +kernel
  obtain ⟨state, run, isClaimed⟩ := (Option.any_eq_true _ _).mp ran
  exact ⟨state, recovery_only_of_dead (System.reachable_of_runChecked_given leasesHold_of_check _ _
    state (.init ⟨idleCluster_starts, rfl⟩) run), of_decide_eq_true isClaimed⟩

def clockForward (state : Threads (Cluster RepoJson) (TaskThread RepoJson)) : TaskAction → Prop
  | .serve (.setClock now) => state.shared.clock ≤ now
  | _ => True

def clockForwardCheck (state : Threads (Cluster RepoJson) (TaskThread RepoJson)) :
    TaskAction → Bool
  | .serve (.setClock now) => state.shared.clock ≤ now
  | _ => true

/-- The body of a reindex is at work for five minutes when another server starts. -/
def reindexOutlives : List TaskAction :=
  reindexSubmitted 0 ++ reindexBegins 1 ++ [.serve (.setClock 1300), .begin (.recover 1)] ++
    taskSteps 3 2 calm

/-- Another server claims the row of a run that its server executes. -/
theorem reindex_claimed_alive : ∃ state,
    ((taskProgram catalogConfig).system ClusterStarts).Reachable clockForward state ∧
    ¬ ReplaysDead catalogConfig clockForward state := by
  have ran : (runTasks clockForwardCheck reindexOutlives).any (fun state =>
      executingCheck 0 state &&
        ((taskProgram catalogConfig).step state (.advance 2 calm)).any fun next =>
          next.shared.claims = (0, 1) :: state.shared.claims) = true := by
    decide +kernel
  have sound : ∀ state action, clockForwardCheck state action = true → clockForward state action := by
    intro state action allowed
    cases action with
    | serve request =>
      cases request with
      | setClock now =>
        have forward : state.shared.clock ≤ now := of_decide_eq_true allowed
        exact forward
      | _ => trivial
    | _ => trivial
  obtain ⟨state, run, both⟩ := (Option.any_eq_true _ _).mp ran
  obtain ⟨executes, claims⟩ := Bool.and_eq_true_iff.mp both
  obtain ⟨next, taken, isClaimed⟩ := (Option.any_eq_true _ _).mp claims
  obtain ⟨thread, running, isExecuting⟩ := List.any_eq_true.mp executes
  obtain ⟨alive, isHeld⟩ := Bool.and_eq_true_iff.mp isExecuting
  obtain ⟨task, isUnderway, isId⟩ := (Option.any_eq_true _ _).mp isHeld
  refine ⟨state, reachable_runTasks sound run, fun safe => ?_⟩
  exact safe.dead _ next 0 1 taken (of_decide_eq_true isClaimed) ⟨thread.server, task,
    by simpa using alive, Or.inr ⟨thread, running, rfl, isUnderway⟩, of_decide_eq_true isId⟩

end Nanofile
