import Nanofile.Lib.Proc
import Nanofile.Lib.Tally
import Nanofile.Tasks.RunMoves

/-!
# The budgets of the table of runs

The table keeps the bytes of its runs in a counter beside it, and evicts by that counter.  Here
the keys are kept apart from the ids of the runs, which a closure may write, subtractions are
checked, and a loop that finds the same run for ever is an outcome.
-/

set_option autoImplicit false

namespace Nanofile

open Nanofile.Lib

variable {Value : Type}

/-- What it depends on beside the run: `size_of::<JobRun>()`, the text of an id and of a value. -/
structure RunSizes (Value : Type) where
  structSize : Nat
  idText : RunId → String
  json : JsonValue Value

def JobRun.bytes (sizes : RunSizes Value) (run : JobRun Value) : Nat :=
  sizes.structSize + (sizes.idText run.id).utf8ByteSize + run.summary.utf8ByteSize +
    run.progress.message.utf8ByteSize +
    (match run.state with
      | .failed error => error.utf8ByteSize
      | _ => 0) +
    (run.params.map fun params => (sizes.json.toText params).utf8ByteSize).getD 0 +
    (run.details.map fun detail =>
      detail.1.utf8ByteSize + (sizes.json.toText detail.2).utf8ByteSize).sum

/-- What `interrupt_active` writes before it drops the parameters. -/
def JobRun.markInterrupted (now : Int) (run : JobRun Value) : JobRun Value :=
  { run with state := .interrupted, finishedAt := some now }

theorem JobRun.bytes_dropParams_le (sizes : RunSizes Value) (run : JobRun Value) :
    run.dropParams.bytes sizes ≤ run.bytes sizes := by
  simp only [JobRun.bytes, JobRun.dropParams, Option.map_none, Option.getD_none]
  omega

theorem JobRun.bytes_markInterrupted (sizes : RunSizes Value) {run : JobRun Value}
    (active : run.state.isActive = true) (now : Int) :
    (run.markInterrupted now).bytes sizes = run.bytes sizes := by
  unfold JobRun.bytes JobRun.markInterrupted
  cases isState : run.state with
  | failed error =>
    rw [isState] at active
    cases active
  | _ => rfl

structure RunMap (Value : Type) where
  runs : Table RunId (JobRun Value)
  bytes : Nat
  limits : RunLimits

/-- How an operation goes wrong: the counter wraps, or the eviction does not end. -/
inductive Fault where
  | underflow
  | unending
deriving DecidableEq, Repr

inductive Reply where
  | stored
  | refused (refusal : Refusal)
  | found (present : Bool)
  | count (runs : Nat)
  | done
deriving DecidableEq, Repr

/-- What an operation leaves and answers; the runs it evicted, in order, nobody is told. -/
structure Effect (Value : Type) where
  table : RunMap Value
  reply : Reply
  evicted : List (JobRun Value)

def fetchSub (bytes amount : Nat) : Except Fault Nat :=
  if amount ≤ bytes then .ok (bytes - amount) else .error .underflow

def reclaim (bytes freed : Nat) : Except Fault Nat :=
  if 0 < freed then fetchSub bytes freed else .ok bytes

namespace RunMap

variable (sizes : RunSizes Value)

def new (limits : RunLimits) : RunMap Value := ⟨.empty, 0, limits⟩

/-- The runs as admission and eviction read them, without their keys. -/
def store (table : RunMap Value) : RunStore Value :=
  ⟨table.runs.values, table.bytes, table.limits⟩

/-- `evict_until_room`.  A run that is not found under its own id is found again in the next
round; otherwise every round drops one. -/
def evictUntilRoom (incoming : Nat) :
    Nat → RunMap Value → Except Fault (RunMap Value × List (JobRun Value))
  | 0, _ => .error .unending
  | rounds + 1, table =>
    if table.store.overBudget incoming then
      match table.store.oldestTerminal with
      | none => .ok (table, [])
      | some oldest =>
        match table.runs.find oldest.id with
        | none => .error .unending
        | some removed => do
            let bytes ← fetchSub table.bytes (removed.bytes sizes)
            let rest ← evictUntilRoom incoming rounds
              { table with runs := table.runs.remove oldest.id, bytes := bytes }
            .ok (rest.1, removed :: rest.2)
    else .ok (table, [])

def admitRun (run : JobRun Value) (table : RunMap Value) : Except Fault (Effect Value) := do
  let left ← table.evictUntilRoom sizes (run.bytes sizes) (table.runs.values.length + 1)
  .ok ⟨{ left.1 with
      runs := left.1.runs.put run.id run
      bytes := left.1.bytes + run.bytes sizes }, .stored, left.2⟩

def insert (run : JobRun Value) (table : RunMap Value) : Except Fault (Effect Value) :=
  if 0 < table.limits.maxRetainedBytes ∧ table.limits.maxRetainedBytes < run.bytes sizes then
    .ok ⟨table, .refused .tooManyRequests, []⟩
  else table.admitRun sizes run

def reserve [DecidableEq Value] (run : JobRun Value) (admission : Admission Value)
    (table : RunMap Value) : Except Fault (Effect Value) :=
  match RunStore.checkAdmission sizes.json admission (run.bytes sizes) table.store with
  | .error refusal => .ok ⟨table, .refused refusal, []⟩
  | .ok () => table.admitRun sizes run

def update (id : RunId) (f : JobRun Value → JobRun Value) (table : RunMap Value) :
    Except Fault (Effect Value) :=
  match table.runs.find id with
  | none => .ok ⟨table, .found false, []⟩
  | some run => do
      let before := run.bytes sizes
      let after := (f run).bytes sizes
      let bytes ← if before ≤ after then .ok (table.bytes + (after - before))
        else fetchSub table.bytes (before - after)
      .ok ⟨{ table with runs := table.runs.modify id f, bytes := bytes }, .found true, []⟩

def discard (id : RunId) (table : RunMap Value) : Except Fault (Effect Value) :=
  match table.runs.find id with
  | none => .ok ⟨table, .found false, []⟩
  | some run => do
      let bytes ← fetchSub table.bytes (run.bytes sizes)
      .ok ⟨{ table with runs := table.runs.remove id, bytes := bytes }, .found true, []⟩

def sweep (now : Int) (table : RunMap Value) : Except Fault (Effect Value) := do
  let expired := RunStore.expired table.limits.terminalTtlSecs now
  let gone := table.runs.values.filter expired
  let freed := (gone.map (JobRun.bytes sizes)).sum
  let bytes ← reclaim table.bytes freed
  .ok ⟨{ table with runs := table.runs.retain fun run => !expired run, bytes := bytes },
    .count gone.length, []⟩

def interruptActive (now : Int) (table : RunMap Value) : Except Fault (Effect Value) := do
  let active := table.runs.values.filter fun run => run.state.isActive
  let freed ← active.mapM fun run =>
    fetchSub ((run.markInterrupted now).bytes sizes) ((run.markInterrupted now).dropParams.bytes sizes)
  let bytes ← reclaim table.bytes freed.sum
  .ok ⟨{ table with
      runs := table.runs.mapValues fun run =>
        if run.state.isActive then (run.markInterrupted now).dropParams else run
      bytes := bytes }, .count active.length, []⟩

def setLimits (limits : RunLimits) (table : RunMap Value) : Effect Value :=
  ⟨{ table with limits := limits }, .done, []⟩

end RunMap

inductive TableOp (Value : Type) where
  | insert (run : JobRun Value)
  | reserve (run : JobRun Value) (admission : Admission Value)
  | update (id : RunId) (f : JobRun Value → JobRun Value)
  | discard (id : RunId)
  | sweep (now : Int)
  | interruptActive (now : Int)
  | setLimits (limits : RunLimits)

def TableOp.apply [DecidableEq Value] (sizes : RunSizes Value) (table : RunMap Value) :
    TableOp Value → Except Fault (Effect Value)
  | .insert run => table.insert sizes run
  | .reserve run admission => table.reserve sizes run admission
  | .update id f => table.update sizes id f
  | .discard id => table.discard sizes id
  | .sweep now => table.sweep sizes now
  | .interruptActive now => table.interruptActive sizes now
  | .setLimits limits => .ok (table.setLimits limits)

end Nanofile
