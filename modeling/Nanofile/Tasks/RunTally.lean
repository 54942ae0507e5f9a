import Nanofile.Tasks.RunBudget

/-!
# The counter of the table is exact

Every operation adds and subtracts what it changes, whatever a closure writes.  While runs keep
their ids, evictions end, take terminal runs only, and leave room or nothing but active runs.
-/

set_option autoImplicit false

namespace Nanofile

open Nanofile.Lib

variable {Value : Type} {sizes : RunSizes Value}

/-! ## The counter -/

structure Tallied (sizes : RunSizes Value) (table : RunMap Value) : Prop where
  keys : table.runs.keys.Nodup
  bytes : table.bytes = table.runs.tally (JobRun.bytes sizes)

def EndsIn {Result : Type} (P : Result → Prop) (outcome : Except Fault Result) : Prop :=
  match outcome with
  | .ok result => P result
  | .error fault => fault = .unending

variable {First Result : Type}

theorem EndsIn.bind {P : First → Prop} {Q : Result → Prop} {first : Except Fault First}
    {next : First → Except Fault Result} (ends : EndsIn P first)
    (goes : ∀ result, P result → EndsIn Q (next result)) : EndsIn Q (first >>= next) := by
  cases first with
  | error fault => exact ends
  | ok result => exact goes result ends

theorem after_ok (first : First) (next : First → Except Fault Result) :
    (.ok first >>= next) = next first := rfl

variable {bytes : Nat} {rest : Nat}

theorem fetchSub_eq {amount : Nat} (enough : rest + amount = bytes) :
    fetchSub bytes amount = .ok rest := by
  rw [fetchSub, if_pos (by omega)]
  congr 1
  omega

theorem reclaim_eq {freed : Nat} (enough : rest + freed = bytes) :
    reclaim bytes freed = .ok rest := by
  unfold reclaim
  split
  · exact fetchSub_eq enough
  · congr 1
    omega

/-- What an interrupted run leaves without its parameters, and what that frees. -/
def freedBy (sizes : RunSizes Value) (now : Int) (run : JobRun Value) : Nat :=
  run.bytes sizes - (run.markInterrupted now).dropParams.bytes sizes

theorem mapM_fetchSub (now : Int) {runs : List (JobRun Value)}
    (active : ∀ run ∈ runs, run.state.isActive = true) :
    (runs.mapM fun run => fetchSub ((run.markInterrupted now).bytes sizes)
      ((run.markInterrupted now).dropParams.bytes sizes)) = .ok (runs.map (freedBy sizes now)) := by
  induction runs with
  | nil => rfl
  | cons run rest ih =>
    have same := run.bytes_markInterrupted sizes (active run List.mem_cons_self) now
    have less := (run.markInterrupted now).bytes_dropParams_le sizes
    have here : fetchSub ((run.markInterrupted now).bytes sizes)
        ((run.markInterrupted now).dropParams.bytes sizes) = .ok (freedBy sizes now run) := by
      rw [fetchSub, if_pos less, same, freedBy]
    rw [List.mapM_cons, here, ih fun other listed => active other (List.mem_cons_of_mem _ listed)]
    rfl

theorem tally_interrupt (sizes : RunSizes Value) (now : Int) (runs : Table RunId (JobRun Value)) :
    (runs.mapValues fun run =>
        if run.state.isActive then (run.markInterrupted now).dropParams else run).tally
          (JobRun.bytes sizes) +
      ((runs.values.filter fun run => run.state.isActive).map (freedBy sizes now)).sum =
    runs.tally (JobRun.bytes sizes) := by
  obtain ⟨rows⟩ := runs
  induction rows with
  | nil => rfl
  | cons entry rest ih =>
    unfold Table.tally Table.values Table.mapValues at ih ⊢
    cases active : entry.2.state.isActive with
    | false =>
      simp only [List.map_cons, List.filter_cons, active, List.sum_cons, Bool.false_eq_true,
        if_false] at ih ⊢
      omega
    | true =>
      have same := entry.2.bytes_markInterrupted sizes active now
      have less := (entry.2.markInterrupted now).bytes_dropParams_le sizes
      simp only [List.map_cons, List.filter_cons, active, List.sum_cons, if_true, freedBy] at ih ⊢
      omega

variable {id : RunId} {run : JobRun Value}

namespace Tallied

variable {table : RunMap Value} (tallied : Tallied sizes table)

include tallied

theorem remove (found : table.runs.find id = some run) :
    ∃ bytes, fetchSub table.bytes (run.bytes sizes) = .ok bytes ∧
      Tallied sizes { table with runs := table.runs.remove id, bytes := bytes } := by
  have removed := Table.tally_remove (JobRun.bytes sizes) tallied.keys found
  rw [← tallied.bytes] at removed
  exact ⟨_, fetchSub_eq removed, Table.keys_remove_nodup tallied.keys, rfl⟩

theorem put (fresh : table.runs.find run.id = none) :
    Tallied sizes { table with
      runs := table.runs.put run.id run
      bytes := table.bytes + run.bytes sizes } := by
  refine ⟨Table.keys_put_nodup tallied.keys run.id run, ?_⟩
  rw [Table.tally_put _ fresh, ← tallied.bytes]

theorem evicted (incoming : Nat) (rounds : Nat) :
    EndsIn (fun left => Tallied sizes left.1 ∧
        ∀ id, table.runs.find id = none → left.1.runs.find id = none)
      (table.evictUntilRoom sizes incoming rounds) := by
  induction rounds generalizing table with
  | zero => rfl
  | succ rounds ih =>
    unfold RunMap.evictUntilRoom
    split
    · split
      · exact ⟨tallied, fun _ => id⟩
      · rename_i oldest isOldest
        split
        · rfl
        · rename_i removed found
          obtain ⟨bytes, subtracted, tallied'⟩ := tallied.remove found
          refine EndsIn.bind (P := fun left => left = bytes) (by rw [subtracted]; rfl) ?_
          rintro _ rfl
          refine EndsIn.bind (ih tallied') ?_
          rintro left ⟨tallied'', absent⟩
          refine ⟨tallied'', fun id missing => absent id ?_⟩
          dsimp only
          rw [Table.find_remove, missing, ite_self]
    · exact ⟨tallied, fun _ => id⟩

theorem admitRun (fresh : table.runs.find run.id = none) :
    EndsIn (fun effect => Tallied sizes effect.table) (table.admitRun sizes run) := by
  refine EndsIn.bind (tallied.evicted (run.bytes sizes) (table.runs.values.length + 1)) ?_
  rintro left ⟨tallied', absent⟩
  exact tallied'.put (absent run.id fresh)

theorem update (id : RunId) (f : JobRun Value → JobRun Value) :
    ∃ effect, table.update sizes id f = .ok effect ∧ Tallied sizes effect.table := by
  unfold RunMap.update
  cases found : table.runs.find id with
  | none => exact ⟨_, rfl, tallied⟩
  | some run =>
    have changed := Table.tally_modify (JobRun.bytes sizes) tallied.keys found f
    rw [← tallied.bytes] at changed
    have keys : (table.runs.modify id f).keys.Nodup := by
      rw [Table.keys_modify]
      exact tallied.keys
    dsimp only
    by_cases grows : run.bytes sizes ≤ (f run).bytes sizes
    · rw [if_pos grows]
      refine ⟨_, rfl, keys, ?_⟩
      dsimp only
      omega
    · have less : (table.runs.modify id f).tally (JobRun.bytes sizes) +
          (run.bytes sizes - (f run).bytes sizes) = table.bytes := by omega
      rw [if_neg grows, fetchSub_eq less]
      exact ⟨_, rfl, keys, rfl⟩

theorem discard (id : RunId) :
    ∃ effect, table.discard sizes id = .ok effect ∧ Tallied sizes effect.table := by
  unfold RunMap.discard
  cases found : table.runs.find id with
  | none => exact ⟨_, rfl, tallied⟩
  | some run =>
    obtain ⟨bytes, subtracted, tallied'⟩ := tallied.remove found
    dsimp only
    rw [subtracted]
    exact ⟨_, rfl, tallied'⟩

theorem sweep (now : Int) :
    ∃ effect, table.sweep sizes now = .ok effect ∧ Tallied sizes effect.table ∧
      effect.table.runs = table.runs.retain
        fun run => !RunStore.expired table.limits.terminalTtlSecs now run := by
  have kept := Table.tally_retain (JobRun.bytes sizes) table.runs
    fun run => !RunStore.expired table.limits.terminalTtlSecs now run
  simp only [Bool.not_not, ← tallied.bytes] at kept
  unfold RunMap.sweep
  dsimp only
  rw [reclaim_eq kept]
  exact ⟨_, rfl, ⟨Table.keys_retain_nodup tallied.keys _, rfl⟩, rfl⟩

theorem interruptActive (now : Int) :
    ∃ effect, table.interruptActive sizes now = .ok effect ∧ Tallied sizes effect.table ∧
      effect.table.runs = table.runs.mapValues fun run =>
        if run.state.isActive then (run.markInterrupted now).dropParams else run := by
  have freed := tally_interrupt sizes now table.runs
  rw [← tallied.bytes] at freed
  have keys : (table.runs.mapValues fun run =>
      if run.state.isActive then (run.markInterrupted now).dropParams else run).keys.Nodup := by
    rw [Table.keys_mapValues]
    exact tallied.keys
  have active : ∀ run ∈ table.runs.values.filter fun run => run.state.isActive,
      run.state.isActive = true := fun run listed => (List.mem_filter.mp listed).2
  have subtracted := reclaim_eq freed
  unfold RunMap.interruptActive
  dsimp only
  rw [mapM_fetchSub now active]
  rw [after_ok, subtracted, after_ok]
  exact ⟨_, rfl, ⟨keys, rfl⟩, rfl⟩

end Tallied

/-- A run that is added has an id that no run is stored under. -/
def TableOp.Fresh (table : RunMap Value) : TableOp Value → Prop
  | .insert run => table.runs.find run.id = none
  | .reserve run _ => table.runs.find run.id = none
  | _ => True

variable {op : TableOp Value} {table : RunMap Value}

/-- Whatever a closure writes, an operation leaves the counter exact or does not end. -/
theorem TableOp.apply_tallied [DecidableEq Value] (tallied : Tallied sizes table)
    (fresh : op.Fresh table) :
    EndsIn (fun effect => Tallied sizes effect.table) (op.apply sizes table) := by
  have ends : ∀ {outcome : Except Fault (Effect Value)},
      (∃ effect, outcome = .ok effect ∧ Tallied sizes effect.table) →
        EndsIn (fun effect => Tallied sizes effect.table) outcome := by
    rintro outcome ⟨effect, rfl, tallied'⟩
    exact tallied'
  cases op with
  | insert run =>
    show EndsIn _ (table.insert sizes run)
    unfold RunMap.insert
    split
    · exact tallied
    · exact tallied.admitRun fresh
  | reserve run admission =>
    show EndsIn _ (table.reserve sizes run admission)
    unfold RunMap.reserve
    split
    · exact tallied
    · exact tallied.admitRun fresh
  | update id f => exact ends (tallied.update id f)
  | discard id => exact ends (tallied.discard id)
  | sweep now =>
    obtain ⟨effect, run, tallied', -⟩ := tallied.sweep now
    exact ends ⟨effect, run, tallied'⟩
  | interruptActive now =>
    obtain ⟨effect, run, tallied', -⟩ := tallied.interruptActive now
    exact ends ⟨effect, run, tallied'⟩
  | setLimits limits => exact ⟨tallied.keys, tallied.bytes⟩

/-! ## Evictions -/

/-- Runs are stored under their own ids. -/
def Named (table : RunMap Value) : Prop :=
  ∀ id run, table.runs.find id = some run → run.id = id

theorem olderThan_trans {first second third : JobRun Value}
    (before : RunStore.olderThan first second) (after : RunStore.olderThan second third) :
    RunStore.olderThan first third := by
  rcases before with earlier | ⟨same, smaller⟩ <;> rcases after with earlier' | ⟨same', smaller'⟩
  · exact Or.inl (earlier.trans earlier')
  · exact Or.inl (same' ▸ earlier)
  · exact Or.inl (same ▸ earlier')
  · exact Or.inr ⟨same.trans same', Nat.le_trans smaller smaller'⟩

theorem olderThan_total (first second : JobRun Value) :
    RunStore.olderThan first second ∨ RunStore.olderThan second first := by
  rcases lt_trichotomy first.endedAt second.endedAt with earlier | same | later
  · exact Or.inl (Or.inl earlier)
  · rcases Nat.le_total first.id second.id with smaller | larger
    · exact Or.inl (Or.inr ⟨same, smaller⟩)
    · exact Or.inr (Or.inr ⟨same.symm, larger⟩)
  · exact Or.inr (Or.inl later)

instance : IsTrans (JobRun Value) RunStore.olderThan := ⟨fun _ _ _ => olderThan_trans⟩

instance : Std.Total (@RunStore.olderThan Value) := ⟨olderThan_total⟩

variable {oldest : JobRun Value} {store : RunStore Value}

theorem oldestTerminal_oldest {other : JobRun Value} (found : store.oldestTerminal = some oldest)
    (listed : other ∈ store.runs) (terminal : other.state.isTerminal = true) :
    RunStore.olderThan oldest other := by
  unfold RunStore.oldestTerminal at found
  have sorted := List.pairwise_insertionSort RunStore.olderThan
    (store.runs.filter fun run => run.state.isTerminal)
  have member : other ∈ (store.runs.filter fun run => run.state.isTerminal).insertionSort
      RunStore.olderThan := by
    rw [List.mem_insertionSort, List.mem_filter]
    exact ⟨listed, terminal⟩
  cases runs : (store.runs.filter fun run => run.state.isTerminal).insertionSort
      RunStore.olderThan with
  | nil =>
    rw [runs] at found
    cases found
  | cons first rest =>
    rw [runs] at found sorted member
    obtain rfl : first = oldest := Option.some_inj.mp found
    rcases List.mem_cons.mp member with rfl | later
    · exact Or.inr ⟨rfl, Nat.le_refl _⟩
    · exact List.rel_of_pairwise_cons sorted later

theorem oldestTerminal_none (none : store.oldestTerminal = none) (listed : run ∈ store.runs) :
    run.state.isActive = true := by
  rw [JobState.isActive_eq_not_isTerminal, Bool.not_eq_true']
  by_contra terminal
  rw [Bool.not_eq_false] at terminal
  have member : run ∈ (store.runs.filter fun run => run.state.isTerminal).insertionSort
      RunStore.olderThan := by
    rw [List.mem_insertionSort, List.mem_filter]
    exact ⟨listed, terminal⟩
  rw [List.head?_eq_none_iff.mp none] at member
  cases member

/-- What an eviction leaves of a table whose runs are stored under their ids. -/
structure Evicted (incoming : Nat) (before after : RunMap Value) (evicted : List (JobRun Value)) :
    Prop where
  limits : after.limits = before.limits
  find : ∀ id, after.runs.find id =
    if id ∈ evicted.map JobRun.id then none else before.runs.find id
  terminal : ∀ run ∈ evicted, before.runs.find run.id = some run ∧ run.state.isTerminal = true
  sorted : evicted.Pairwise RunStore.olderThan
  oldest : ∀ run ∈ evicted, ∀ id stays, after.runs.find id = some stays →
    stays.state.isTerminal = true → RunStore.olderThan run stays
  room : after.store.overBudget incoming = false ∨
    ∀ id run, after.runs.find id = some run → run.state.isActive = true

variable {incoming : Nat}

theorem Evicted.nothing (room : table.store.overBudget incoming = false ∨
      ∀ id run, table.runs.find id = some run → run.state.isActive = true) :
    Evicted incoming table table [] where
  limits := rfl
  find id := by simp
  terminal _ listed := absurd listed List.not_mem_nil
  sorted := .nil
  oldest _ listed := absurd listed List.not_mem_nil
  room := room

variable {left : RunMap Value}

theorem Evicted.cons {evicted : List (JobRun Value)}
    (found : table.runs.find oldest.id = some oldest) (terminal : oldest.state.isTerminal = true)
    (first : ∀ id run, table.runs.find id = some run → run.state.isTerminal = true →
      RunStore.olderThan oldest run)
    (rest : Evicted incoming { table with runs := table.runs.remove oldest.id, bytes := bytes } left
      evicted) : Evicted incoming table left (oldest :: evicted) := by
  have before : ∀ {id run}, (table.runs.remove oldest.id).find id = some run →
      table.runs.find id = some run := by
    intro id run isRun
    rw [Table.find_remove] at isRun
    split at isRun
    · cases isRun
    · exact isRun
  have stayed : ∀ {id run}, left.runs.find id = some run → table.runs.find id = some run := by
    intro id run isRun
    rw [rest.find] at isRun
    split at isRun
    · cases isRun
    · exact before isRun
  refine ⟨rest.limits, fun id => ?_, ?_, ?_, ?_, rest.room⟩
  · rw [rest.find, List.map_cons]
    dsimp only
    rw [Table.find_remove]
    by_cases same : id = oldest.id <;> simp [same]
  · intro run listed
    rcases List.mem_cons.mp listed with rfl | later
    · exact ⟨found, terminal⟩
    · exact (rest.terminal run later).imp_left before
  · refine List.pairwise_cons.mpr ⟨fun run listed => ?_, rest.sorted⟩
    obtain ⟨isRun, ended⟩ := rest.terminal run listed
    exact first run.id run (before isRun) ended
  · intro run listed id stays isStays ended
    rcases List.mem_cons.mp listed with rfl | later
    · exact first id stays (stayed isStays) ended
    · exact rest.oldest run later id stays isStays ended

theorem evictUntilRoom_ends (incoming : Nat) {rounds : Nat} (tallied : Tallied sizes table)
    (named : Named table) (enough : table.runs.values.length < rounds) :
    ∃ left evicted, table.evictUntilRoom sizes incoming rounds = .ok (left, evicted) ∧
      Evicted incoming table left evicted := by
  induction rounds generalizing table with
  | zero => omega
  | succ rounds ih =>
    unfold RunMap.evictUntilRoom
    by_cases beyond : table.store.overBudget incoming = true
    · rw [if_pos beyond]
      cases isOldest : table.store.oldestTerminal with
      | none =>
        refine ⟨table, [], rfl, .nothing (Or.inr fun id run found => ?_)⟩
        exact oldestTerminal_none isOldest (Table.mem_values_of_find found)
      | some oldest =>
        obtain ⟨listed, terminal⟩ := RunStore.oldestTerminal_spec isOldest
        obtain ⟨key, found⟩ := Table.find_of_mem_values tallied.keys listed
        obtain rfl := named key oldest found
        obtain ⟨bytes, subtracted, tallied'⟩ := tallied.remove found
        have shorter := Table.length_remove found
        have named' : Named { table with runs := table.runs.remove oldest.id, bytes := bytes } := by
          intro id run isRun
          dsimp only at isRun
          rw [Table.find_remove] at isRun
          split at isRun
          · cases isRun
          · exact named id run isRun
        obtain ⟨left, evicted, run, spec⟩ := ih tallied' named' (by dsimp only; omega)
        dsimp only
        rw [found]
        dsimp only
        rw [subtracted, after_ok, run, after_ok]
        exact ⟨left, oldest :: evicted, rfl, .cons found terminal (fun id other isOther ended =>
          oldestTerminal_oldest isOldest (Table.mem_values_of_find isOther) ended) spec⟩
    · rw [if_neg beyond]
      exact ⟨table, [], rfl, .nothing (Or.inl (by simpa using beyond))⟩

/-! ## Operations that keep the ids -/

def TableOp.KeepsIds : TableOp Value → Prop
  | .update _ f => ∀ run, (f run).id = run.id
  | _ => True

def TableOp.added : TableOp Value → Option (JobRun Value)
  | .insert run => some run
  | .reserve run _ => some run
  | _ => none

def BudgetsHold (table : RunMap Value) : Prop :=
  (0 < table.limits.maxRetained → table.runs.values.length ≤ table.limits.maxRetained) ∧
    (0 < table.limits.maxRetainedBytes → table.bytes ≤ table.limits.maxRetainedBytes)

structure StepExact (sizes : RunSizes Value) (table : RunMap Value) (op : TableOp Value)
    (effect : Effect Value) : Prop where
  tallied : Tallied sizes effect.table
  /-- Only a discard takes a run that is active. -/
  gone : ∀ id run, table.runs.find id = some run → effect.table.runs.find id = none →
    run.state.isTerminal = true ∨ op = .discard id
  /-- What an added run pushes out has ended, oldest first, and before all that stay. -/
  evicted : ∀ new, op.added = some new → ∀ id run, table.runs.find id = some run →
    effect.table.runs.find id = none → run ∈ effect.evicted
  terminal : ∀ run ∈ effect.evicted,
    table.runs.find run.id = some run ∧ run.state.isTerminal = true
  sorted : effect.evicted.Pairwise RunStore.olderThan
  oldest : ∀ run ∈ effect.evicted, ∀ id stays, table.runs.find id = some stays →
    effect.table.runs.find id = some stays → stays.state.isTerminal = true →
      RunStore.olderThan run stays
  /-- A run that was added has room, or all the others are active. -/
  budgets : ∀ new, op.added = some new → effect.reply = .stored →
    effect.table.runs.find new.id = some new ∧ (BudgetsHold effect.table ∨
      ∀ id run, effect.table.runs.find id = some run → id ≠ new.id → run.state.isActive = true)

section Steps

variable {table : RunMap Value}

theorem budgetsHold_of_room (fresh : left.runs.find run.id = none)
    (room : left.store.overBudget (run.bytes sizes) = false) :
    BudgetsHold { left with
      runs := left.runs.put run.id run
      bytes := left.bytes + run.bytes sizes } := by
  obtain ⟨fewer, lighter⟩ := not_or.mp (of_decide_eq_false room)
  simp only [RunMap.store, Table.length_values] at fewer lighter
  have longer : (left.runs.put run.id run).values.length = left.runs.rows.length + 1 := by
    rw [Table.length_values, Table.rows_put_fresh fresh, List.length_append, List.length_singleton]
  refine ⟨fun limited => ?_, fun limited => Nat.le_of_not_lt fun heavier => lighter ⟨limited, heavier⟩⟩
  rw [longer]
  exact Nat.succ_le_of_lt (Nat.lt_of_not_le fun full => fewer ⟨limited, full⟩)

theorem admit_exact (tallied : Tallied sizes table) (named : Named table)
    (fresh : table.runs.find run.id = none) (added : op.added = some run) :
    ∃ effect, table.admitRun sizes run = .ok effect ∧ StepExact sizes table op effect ∧
      Named effect.table := by
  obtain ⟨left, evicted, ran, spec⟩ := evictUntilRoom_ends (run.bytes sizes) tallied
    named (Nat.lt_succ_self _)
  have tallied' := tallied.admitRun fresh
  unfold RunMap.admitRun at tallied' ⊢
  rw [ran, after_ok] at tallied' ⊢
  have absent : left.runs.find run.id = none := by
    rw [spec.find, fresh, ite_self]
  have others : ∀ {id}, id ≠ run.id →
      (left.runs.put run.id run).find id = left.runs.find id :=
    fun apart => Table.find_put_of_ne left.runs run apart
  have gone : ∀ id old, table.runs.find id = some old →
      (left.runs.put run.id run).find id = none → old ∈ evicted := by
    intro id old found missing
    have apart : id ≠ run.id := by
      rintro rfl
      rw [fresh] at found
      cases found
    rw [others apart, spec.find] at missing
    split at missing
    · rename_i listed
      obtain ⟨other, isEvicted, rfl⟩ := List.mem_map.mp listed
      rw [(spec.terminal other isEvicted).1, Option.some_inj] at found
      exact found ▸ isEvicted
    · rw [found] at missing
      cases missing
  refine ⟨_, rfl, ⟨tallied', ?_, ?_, spec.terminal, spec.sorted, ?_, ?_⟩, ?_⟩
  · exact fun id old found missing => Or.inl (spec.terminal old (gone id old found missing)).2
  · exact fun new _ id old found missing => gone id old found missing
  · intro old listed id stays isStays stays' ended
    have apart : id ≠ run.id := by
      rintro rfl
      rw [fresh] at isStays
      cases isStays
    refine spec.oldest old listed id stays ?_ ended
    rw [← others apart]
    exact stays'
  · intro new isNew _
    obtain rfl := Option.some_inj.mp (added.symm.trans isNew)
    refine ⟨Table.find_put_self left.runs run.id run, spec.room.imp (budgetsHold_of_room absent)
      fun active id old found apart => ?_⟩
    rw [others apart] at found
    exact active id old found
  · intro id old found
    dsimp only at found
    by_cases same : id = run.id
    · subst same
      rw [Table.find_put_self, Option.some_inj] at found
      rw [← found]
    · rw [others same, spec.find] at found
      split at found
      · cases found
      · exact named id old found

theorem StepExact.quiet {effect : Effect Value} (tallied : Tallied sizes effect.table)
    (nothing : effect.evicted = []) (refused : effect.reply = .stored → op.added = none)
    (gone : ∀ id run, table.runs.find id = some run → effect.table.runs.find id = none →
      (run.state.isTerminal = true ∨ op = .discard id) ∧ op.added = none) :
    StepExact sizes table op effect where
  tallied := tallied
  gone id run found missing := (gone id run found missing).1
  evicted new added id run found missing := by
    rw [(gone id run found missing).2] at added
    cases added
  terminal run listed := by
    rw [nothing] at listed
    cases listed
  sorted := nothing ▸ .nil
  oldest run listed := by
    rw [nothing] at listed
    cases listed
  budgets new added stored := by
    rw [refused stored] at added
    cases added

variable {now : Int}

section

variable (tallied : Tallied sizes table) (named : Named table)
include tallied named

theorem insert_exact (fresh : table.runs.find run.id = none) :
    ∃ effect, table.insert sizes run = .ok effect ∧
      StepExact sizes table (.insert run) effect ∧ Named effect.table := by
  unfold RunMap.insert
  split
  · refine ⟨_, rfl, .quiet tallied rfl (fun stored => by cases stored) ?_, named⟩
    intro id old found missing
    rw [found] at missing
    cases missing
  · exact admit_exact tallied named fresh rfl

theorem reserve_exact [DecidableEq Value] {admission : Admission Value}
    (fresh : table.runs.find run.id = none) :
    ∃ effect, table.reserve sizes run admission = .ok effect ∧
      StepExact sizes table (.reserve run admission) effect ∧ Named effect.table := by
  unfold RunMap.reserve
  split
  · refine ⟨_, rfl, .quiet tallied rfl (fun stored => by cases stored) ?_, named⟩
    intro id old found missing
    rw [found] at missing
    cases missing
  · exact admit_exact tallied named fresh rfl

theorem update_exact {f : JobRun Value → JobRun Value} (keeps : ∀ run, (f run).id = run.id) :
    ∃ effect, table.update sizes id f = .ok effect ∧
      StepExact sizes table (.update id f) effect ∧ Named effect.table := by
  obtain ⟨effect, ran, tallied'⟩ := tallied.update id f
  have shape : effect.evicted = [] ∧ (effect.table.runs = table.runs ∨
      effect.table.runs = table.runs.modify id f) := by
    unfold RunMap.update at ran
    split at ran
    · cases ran
      exact ⟨rfl, Or.inl rfl⟩
    · dsimp only at ran
      split at ran
      · cases ran
        exact ⟨rfl, Or.inr rfl⟩
      · obtain ⟨bytes, -, same⟩ := except_bind_ok_iff.mp ran
        cases same
        exact ⟨rfl, Or.inr rfl⟩
  have found : ∀ other, effect.table.runs.find other = table.runs.find other ∨
      effect.table.runs.find other = (table.runs.find other).map f := by
    intro other
    rcases shape.2 with same | changed
    · exact Or.inl (by rw [same])
    · rw [changed, Table.find_modify]
      split
      · rename_i isId
        exact Or.inr (by rw [isId])
      · exact Or.inl rfl
  refine ⟨effect, ran, .quiet tallied' shape.1 (fun _ => rfl) ?_, ?_⟩
  · intro other run isRun missing
    rcases found other with same | changed
    · rw [same, isRun] at missing
      cases missing
    · rw [changed, isRun] at missing
      cases missing
  · intro other run isRun
    rcases found other with same | changed
    · exact named other run (same ▸ isRun)
    · rw [changed] at isRun
      obtain ⟨old, isOld, rfl⟩ := Option.map_eq_some_iff.mp isRun
      rw [keeps, named other old isOld]

theorem discard_exact :
    ∃ effect, table.discard sizes id = .ok effect ∧
      StepExact sizes table (.discard id) effect ∧ Named effect.table := by
  obtain ⟨effect, ran, tallied'⟩ := tallied.discard id
  have shape : effect.evicted = [] ∧ (effect.table.runs = table.runs ∨
      effect.table.runs = table.runs.remove id) := by
    unfold RunMap.discard at ran
    split at ran
    · cases ran
      exact ⟨rfl, Or.inl rfl⟩
    · obtain ⟨bytes, -, same⟩ := except_bind_ok_iff.mp ran
      cases same
      exact ⟨rfl, Or.inr rfl⟩
  have found : ∀ other, other ≠ id → effect.table.runs.find other = table.runs.find other := by
    intro other apart
    rcases shape.2 with same | changed
    · rw [same]
    · rw [changed, Table.find_remove, if_neg apart]
  refine ⟨effect, ran, .quiet tallied' shape.1 (fun _ => rfl) ?_, ?_⟩
  · intro other run isRun missing
    by_cases same : other = id
    · exact ⟨Or.inr (by rw [same]), rfl⟩
    · rw [found other same, isRun] at missing
      cases missing
  · intro other run isRun
    rcases shape.2 with same | changed
    · exact named other run (same ▸ isRun)
    · rw [changed, Table.find_remove] at isRun
      split at isRun
      · cases isRun
      · exact named other run isRun

theorem sweep_exact :
    ∃ effect, table.sweep sizes now = .ok effect ∧
      StepExact sizes table (.sweep now) effect ∧ Named effect.table := by
  obtain ⟨effect, ran, tallied', runs⟩ := tallied.sweep now
  have nothing : effect.evicted = [] := by
    obtain ⟨bytes, -, same⟩ := except_bind_ok_iff.mp ran
    cases same
    rfl
  refine ⟨effect, ran, .quiet tallied' nothing (fun _ => rfl) ?_, ?_⟩
  · intro id run isRun missing
    refine ⟨Or.inl ?_, rfl⟩
    by_contra active
    have stays : effect.table.runs.find id = some run := by
      rw [runs, Table.find_retain tallied.keys]
      exact ⟨isRun, by simp [RunStore.expired, active]⟩
    rw [stays] at missing
    cases missing
  · intro id run isRun
    rw [runs, Table.find_retain tallied.keys] at isRun
    exact named id run isRun.1

theorem interruptActive_exact :
    ∃ effect, table.interruptActive sizes now = .ok effect ∧
      StepExact sizes table (.interruptActive now) effect ∧ Named effect.table := by
  obtain ⟨effect, ran, tallied', runs⟩ := tallied.interruptActive now
  have nothing : effect.evicted = [] := by
    obtain ⟨freed, -, rest⟩ := except_bind_ok_iff.mp ran
    obtain ⟨bytes, -, same⟩ := except_bind_ok_iff.mp rest
    cases same
    rfl
  refine ⟨effect, ran, .quiet tallied' nothing (fun _ => rfl) ?_, ?_⟩
  · intro id run isRun missing
    rw [runs, Table.find_mapValues, isRun] at missing
    cases missing
  · intro id run isRun
    rw [runs, Table.find_mapValues] at isRun
    obtain ⟨old, isOld, rfl⟩ := Option.map_eq_some_iff.mp isRun
    rw [← named id old isOld]
    split <;> rfl

end

end Steps

theorem TableOp.apply_exact [DecidableEq Value] (tallied : Tallied sizes table)
    (named : Named table) (fresh : op.Fresh table) (keeps : op.KeepsIds) :
    ∃ effect, op.apply sizes table = .ok effect ∧
      StepExact sizes table op effect ∧ Named effect.table := by
  cases op with
  | insert run => exact insert_exact tallied named fresh
  | reserve run admission => exact reserve_exact tallied named fresh
  | update id f => exact update_exact tallied named keeps
  | discard id => exact discard_exact tallied named
  | sweep now => exact sweep_exact tallied named
  | interruptActive now => exact interruptActive_exact tallied named
  | setLimits limits =>
    refine ⟨_, rfl, .quiet ⟨tallied.keys, tallied.bytes⟩ rfl (fun _ => rfl) ?_, named⟩
    intro id run isRun missing
    rw [show (table.setLimits limits).table.runs = table.runs from rfl, isRun] at missing
    cases missing

/-! ## Runs of the table -/

/-- A table that operations lead to from an empty one, each of them with the property. -/
inductive TableReached [DecidableEq Value] (sizes : RunSizes Value) (P : TableOp Value → Prop)
    (limits : RunLimits) : RunMap Value → Prop
  | new : TableReached sizes P limits (.new limits)
  | step {table : RunMap Value} {op : TableOp Value} {effect : Effect Value}
      (reached : TableReached sizes P limits table) (fresh : op.Fresh table) (holds : P op)
      (ran : op.apply sizes table = .ok effect) : TableReached sizes P limits effect.table

theorem tallied_new (limits : RunLimits) : Tallied sizes (.new limits) := ⟨List.nodup_nil, rfl⟩

theorem named_new (limits : RunLimits) : Named (.new limits : RunMap Value) := by
  intro id run found
  cases found

variable {limits : RunLimits}

theorem TableReached.tallied [DecidableEq Value] {P : TableOp Value → Prop}
    (reached : TableReached sizes P limits table) : Tallied sizes table := by
  induction reached with
  | new => exact tallied_new limits
  | step _ fresh _ ran ih =>
    have ends := TableOp.apply_tallied ih fresh
    rwa [ran] at ends

theorem TableReached.named [DecidableEq Value]
    (reached : TableReached sizes TableOp.KeepsIds limits table) : Named table := by
  induction reached with
  | new => exact named_new limits
  | step before fresh keeps ran ih =>
    obtain ⟨effect, ran', -, named⟩ := TableOp.apply_exact before.tallied ih fresh keeps
    obtain rfl := Except.ok.inj (ran.symm.trans ran')
    exact named

/-- Whatever closures write, the counter is the footprint of the runs that are stored and is
never taken below nothing.  While they leave the ids, every operation ends, only a discard takes
an active run, evictions take the oldest that have ended, and a run that was added keeps the
budgets or shares the table with active runs only. -/
theorem run_table_exact [DecidableEq Value] {limits : RunLimits} :
    (∀ {table : RunMap Value} {op : TableOp Value}, TableReached sizes (fun _ => True) limits table →
      op.Fresh table → EndsIn (fun effect => Tallied sizes effect.table) (op.apply sizes table)) ∧
    ∀ {table : RunMap Value} {op : TableOp Value},
      TableReached sizes TableOp.KeepsIds limits table → op.Fresh table → op.KeepsIds →
        ∃ effect, op.apply sizes table = .ok effect ∧ StepExact sizes table op effect := by
  refine ⟨fun reached fresh => TableOp.apply_tallied reached.tallied fresh, ?_⟩
  intro table op reached fresh keeps
  obtain ⟨effect, ran, exactly, -⟩ :=
    TableOp.apply_exact reached.tallied reached.named fresh keeps
  exact ⟨effect, ran, exactly⟩

/-! ## Runs that are told apart and runs that are not -/

def plainSizes : RunSizes Unit := ⟨100, fun _ => "", ⟨(), fun _ _ => none, fun _ => "", fun _ => none⟩⟩

def copyRun (id : RunId) (state : JobState) : JobRun Unit where
  id := id
  key := .copy
  origin := .request
  owner := some 1
  state := state
  progress := ⟨0, none, ""⟩
  createdAt := id
  startedAt := none
  finishedAt := none
  attempt := 1
  params := some ()
  summary := ""
  details := []

def twoRuns : RunLimits := ⟨2, 0, 3600⟩

def applyAll (table : RunMap Unit) : List (TableOp Unit) → Except Fault (RunMap Unit)
  | [] => .ok table
  | op :: rest => do
      let effect ← op.apply plainSizes table
      applyAll effect.table rest

/-- A finished run makes room for the third. -/
theorem third_run_evicts_first :
    ∃ table effect, TableOp.apply plainSizes table (.insert (copyRun 3 .queued)) = .ok effect ∧
      StepExact plainSizes table (.insert (copyRun 3 .queued)) effect ∧
      effect.evicted = [copyRun 1 .succeeded] := by
  have first : TableReached plainSizes TableOp.KeepsIds twoRuns
      ⟨⟨[(1, copyRun 1 .succeeded)]⟩, 100, twoRuns⟩ :=
    @TableReached.step _ _ _ _ _ (.new twoRuns) (.insert (copyRun 1 .succeeded))
      ⟨⟨⟨[(1, copyRun 1 .succeeded)]⟩, 100, twoRuns⟩, .stored, []⟩ .new rfl trivial rfl
  have second : TableReached plainSizes TableOp.KeepsIds twoRuns
      ⟨⟨[(1, copyRun 1 .succeeded), (2, copyRun 2 .running)]⟩, 200, twoRuns⟩ :=
    @TableReached.step _ _ _ _ _ _ (.insert (copyRun 2 .running))
      ⟨⟨⟨[(1, copyRun 1 .succeeded), (2, copyRun 2 .running)]⟩, 200, twoRuns⟩, .stored, []⟩ first
      rfl trivial rfl
  have fresh : (TableOp.insert (copyRun 3 .queued)).Fresh
      ⟨⟨[(1, copyRun 1 .succeeded), (2, copyRun 2 .running)]⟩, 200, twoRuns⟩ := rfl
  obtain ⟨effect, ran, exactly⟩ := run_table_exact.2 second fresh trivial
  refine ⟨_, effect, ran, exactly, ?_⟩
  cases ran
  rfl

def renamedStep (id : RunId) (run : JobRun Unit) : JobRun Unit := { run with id := id }

/-- Closures exchange the ids of a finished run and an active one: the next insert evicts the
active run.  When the finished run has an id nobody is stored under, the insert does not end. -/
theorem renamed_run_evicts_active :
    (∃ table, applyAll (.new twoRuns) [.insert (copyRun 1 .succeeded), .insert (copyRun 2 .running),
        .update 1 (renamedStep 9), .update 2 (renamedStep 1), .update 1 (renamedStep 2)] = .ok table ∧
      (table.runs.find 2).map JobRun.state = some .running ∧
      ∃ effect, TableOp.apply plainSizes table (.insert (copyRun 3 .queued)) = .ok effect ∧
        effect.table.runs.find 2 = none) ∧
    ∃ table, applyAll (.new twoRuns) [.insert (copyRun 1 .succeeded), .insert (copyRun 2 .running),
        .update 1 (renamedStep 9)] = .ok table ∧
      TableOp.apply plainSizes table (.insert (copyRun 3 .queued)) = .error .unending :=
  ⟨⟨_, rfl, rfl, _, rfl, rfl⟩, _, rfl, rfl⟩

end Nanofile
