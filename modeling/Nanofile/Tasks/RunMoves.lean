import Nanofile.Lib.Table
import Nanofile.Tasks.RunStore

/-!
# What an access does to the table of runs

Every access drops runs, changes the ones that stay and may add one.  Only the holder of a run
writes its end or its start over it, active runs are dropped by their holder only, and the drain
marks what is active.
-/

set_option autoImplicit false

namespace Nanofile

variable {Value : Type}

inductive RunWrite where
  | nothing
  | insert (id : RunId)
  | start (id : RunId)
  | finish (id : RunId)
  | drop (id : RunId)
  /-- Every active run is marked. -/
  | interrupt

def RunWrite.run : RunWrite → Option RunId
  | .nothing | .interrupt => none
  | .insert id | .start id | .finish id | .drop id => some id

inductive RunChange (write : RunWrite) : JobRun Value → JobRun Value → Prop
  | kept {run run' : JobRun Value} (id : run'.id = run.id) (key : run'.key = run.key)
      (owner : run'.owner = run.owner) (params : run'.params = run.params)
      (finishedAt : run'.finishedAt = run.finishedAt)
      (state : run'.state = run.state ∨ (run.state.isActive = true ∧ run'.state.isActive = true)) :
      RunChange write run run'
  | started {run : JobRun Value} (mine : write = .start run.id) (now : Int) (attempt : Nat) :
      RunChange write run (markRunning now attempt run)
  | ended {run : JobRun Value} (mine : write = .finish run.id) (now : Int) {state : JobState}
      (outcome : Option Outcome) (terminal : state.isTerminal = true) :
      RunChange write run (markTerminal now state outcome run)
  | interrupted {run : JobRun Value} (marks : write = .interrupt)
      (active : run.state.isActive = true) (now : Int) :
      RunChange write run (RunStore.interrupted now run)

theorem RunChange.refl (write : RunWrite) (run : JobRun Value) : RunChange write run run :=
  .kept rfl rfl rfl rfl rfl (Or.inl rfl)

theorem RunChange.id_eq {write : RunWrite} {run run' : JobRun Value}
    (change : RunChange write run run') : run'.id = run.id := by
  cases change with
  | kept id => exact id
  | _ => rfl

inductive StoreMoves (write : RunWrite) (before after : List (JobRun Value)) : Prop
  | intro (keep : JobRun Value → Bool) (change : JobRun Value → JobRun Value)
      (fresh : Option (JobRun Value))
      (runs : after = (before.filter keep).map change ++ fresh.toList)
      (changes : ∀ run ∈ before, RunChange write run (change run))
      (keeps : ∀ run ∈ before, run.state.isActive = true → write ≠ .drop run.id → keep run = true)
      (isFresh : ∀ run, fresh = some run → write = .insert run.id ∧ run.state.isActive = true ∧
        ∀ old ∈ before, old.id ≠ run.id)

namespace StoreMoves

variable {write : RunWrite} {before after : List (JobRun Value)}

theorem refl (write : RunWrite) (runs : List (JobRun Value)) :
    StoreMoves write runs runs := by
  refine .intro (fun _ => true) id none ?_ (fun run _ => .refl write run) (fun _ _ _ _ => rfl) ?_
  · rw [List.filter_eq_self.mpr fun _ _ => rfl]
    simp
  · intro run isFresh
    cases isFresh

theorem cases (moves : StoreMoves write before after) {run' : JobRun Value}
    (listed : run' ∈ after) :
    (write = .insert run'.id ∧ run'.state.isActive = true ∧ ∀ old ∈ before, old.id ≠ run'.id) ∨
      ∃ run ∈ before, run'.id = run.id ∧ RunChange write run run' := by
  obtain ⟨keep, change, fresh, runs, changes, -, isFresh⟩ := moves
  rw [runs] at listed
  rcases List.mem_append.mp listed with old | new
  · obtain ⟨run, member, rfl⟩ := List.mem_map.mp old
    have member := (List.mem_filter.mp member).1
    exact Or.inr ⟨run, member, (changes run member).id_eq, changes run member⟩
  · exact Or.inl (isFresh run' (Option.mem_toList.mp new))

theorem stays (moves : StoreMoves write before after) {run : JobRun Value}
    (listed : run ∈ before) (active : run.state.isActive = true) (notMine : write ≠ .drop run.id) :
    ∃ run' ∈ after, RunChange write run run' := by
  obtain ⟨keep, change, fresh, rfl, changes, keeps, -⟩ := moves
  refine ⟨change run, List.mem_append_left _ (List.mem_map_of_mem ?_), changes run listed⟩
  exact List.mem_filter.mpr ⟨listed, keeps run listed active notMine⟩

theorem ids_nodup (moves : StoreMoves write before after)
    (distinct : (before.map JobRun.id).Nodup) : (after.map JobRun.id).Nodup := by
  obtain ⟨keep, change, fresh, rfl, changes, -, isFresh⟩ := moves
  have sameIds : ((before.filter keep).map change).map JobRun.id =
      (before.filter keep).map JobRun.id := by
    rw [List.map_map]
    exact List.map_congr_left fun run member =>
      (changes run (List.mem_filter.mp member).1).id_eq
  have oldDistinct : ((before.filter keep).map JobRun.id).Nodup :=
    distinct.sublist (List.filter_sublist.map _)
  rw [List.map_append, sameIds]
  cases fresh with
  | none => simpa using oldDistinct
  | some run =>
    have apart := (isFresh run rfl).2.2
    rw [Option.toList_some, List.map_singleton, List.nodup_append]
    refine ⟨oldDistinct, List.nodup_singleton _, ?_⟩
    intro id isOld other isNew
    obtain ⟨old, member, rfl⟩ := List.mem_map.mp isOld
    rw [List.mem_singleton.mp isNew]
    exact apart old (List.mem_filter.mp member).1

end StoreMoves

namespace RunStore

variable {footprint : JobRun Value → Nat} {write : RunWrite} {store : RunStore Value}
  {id : RunId}

theorem get_eq_none {run : JobRun Value} (absent : store.get id = none)
    (listed : run ∈ store.runs) : run.id ≠ id := by
  simpa using List.find?_eq_none.mp absent run listed

theorem eq_of_id {first second : JobRun Value} (distinct : (store.runs.map JobRun.id).Nodup)
    (isFirst : first ∈ store.runs) (isSecond : second ∈ store.runs)
    (sameId : first.id = second.id) : first = second :=
  List.inj_on_of_nodup_map distinct isFirst isSecond sameId

theorem get_eq_some_iff (distinct : (store.runs.map JobRun.id).Nodup) {run : JobRun Value} :
    store.get id = some run ↔ run ∈ store.runs ∧ run.id = id :=
  Lib.find?_key_iff JobRun.id distinct

theorem update_runs (footprint : JobRun Value → Nat) (store : RunStore Value) (id : RunId)
    (f : JobRun Value → JobRun Value) :
    (store.update footprint id f).runs =
      store.runs.map fun run => if run.id = id then f run else run := by
  unfold update
  split
  · rename_i absent
    have unchanged : ∀ run ∈ store.runs, (if run.id = id then f run else run) = run :=
      fun run listed => if_neg (get_eq_none absent listed)
    rw [List.map_congr_left unchanged, List.map_id']
  · rfl

theorem update_moves (footprint : JobRun Value → Nat) (store : RunStore Value)
    {f : JobRun Value → JobRun Value}
    (changes : ∀ run ∈ store.runs, run.id = id → RunChange write run (f run)) :
    StoreMoves write store.runs (store.update footprint id f).runs := by
  refine .intro (fun _ => true) (fun run => if run.id = id then f run else run) none ?_ ?_
    (fun _ _ _ _ => rfl) ?_
  · rw [update_runs, List.filter_eq_self.mpr fun _ _ => rfl]
    simp
  · intro run listed
    split
    · rename_i isId
      exact changes run listed isId
    · exact .refl write run
  · intro run isFresh
    cases isFresh

theorem discard_runs (footprint : JobRun Value → Nat) (store : RunStore Value) (id : RunId) :
    (store.discard footprint id).runs = store.runs.filter fun run => run.id ≠ id := by
  unfold discard
  split
  · rename_i absent
    refine (List.filter_eq_self.mpr fun run listed => ?_).symm
    exact decide_eq_true (get_eq_none absent listed)
  · rfl

theorem filter_moves (runs : List (JobRun Value)) {keep : JobRun Value → Bool}
    (keeps : ∀ run ∈ runs, run.state.isActive = true → write ≠ .drop run.id → keep run = true) :
    StoreMoves write runs (runs.filter keep) := by
  refine .intro keep id none ?_ (fun run _ => .refl write run) keeps ?_
  · simp
  · intro run isFresh
    cases isFresh

theorem discard_moves (footprint : JobRun Value → Nat) (store : RunStore Value) (id : RunId) :
    StoreMoves (.drop id) store.runs (store.discard footprint id).runs := by
  rw [discard_runs]
  refine filter_moves _ fun run _ _ notMine => decide_eq_true fun isId => ?_
  exact notMine (by rw [isId])

theorem sweep_moves (footprint : JobRun Value → Nat) (store : RunStore Value) (now : Int) :
    StoreMoves write store.runs (store.sweep footprint now).runs := by
  refine filter_moves _ fun run _ active _ => ?_
  have notTerminal : run.state.isTerminal = false := by
    simpa [JobState.isActive_eq_not_isTerminal] using active
  simp [expired, notTerminal]

theorem interruptActive_moves (footprint : JobRun Value → Nat) (store : RunStore Value)
    (now : Int) : StoreMoves .interrupt store.runs (store.interruptActive footprint now).runs := by
  refine .intro (fun _ => true)
    (fun run => if run.state.isActive then interrupted now run else run) none ?_ ?_
    (fun _ _ _ _ => rfl) ?_
  · rw [List.filter_eq_self.mpr fun _ _ => rfl]
    simp [interruptActive]
  · intro run _
    split
    · rename_i active
      exact .interrupted rfl active now
    · exact .refl _ run
  · intro run isFresh
    cases isFresh

theorem oldestTerminal_spec {oldest : JobRun Value} (found : store.oldestTerminal = some oldest) :
    oldest ∈ store.runs ∧ oldest.state.isTerminal = true := by
  have listed := List.mem_of_mem_head? found
  rw [List.mem_insertionSort, List.mem_filter] at listed
  exact listed

theorem evictUntilRoom_runs (footprint : JobRun Value → Nat) (incoming : Nat) (rounds : Nat) :
    ∀ store : RunStore Value, (store.runs.map JobRun.id).Nodup →
      ∃ keep : JobRun Value → Bool,
        (store.evictUntilRoom footprint incoming rounds).runs = store.runs.filter keep ∧
        ∀ run ∈ store.runs, run.state.isActive = true → keep run = true := by
  induction rounds with
  | zero =>
    intro store _
    exact ⟨fun _ => true, (List.filter_eq_self.mpr fun _ _ => rfl).symm, fun _ _ _ => rfl⟩
  | succ rounds ih =>
    intro store distinct
    have unchanged : ∃ keep : JobRun Value → Bool, store.runs = store.runs.filter keep ∧
        ∀ run ∈ store.runs, run.state.isActive = true → keep run = true :=
      ⟨fun _ => true, (List.filter_eq_self.mpr fun _ _ => rfl).symm, fun _ _ _ => rfl⟩
    unfold evictUntilRoom
    split
    · split
      · rename_i oldest found
        obtain ⟨listed, terminal⟩ := oldestTerminal_spec found
        have left := discard_runs footprint store oldest.id
        have distinct' : ((store.discard footprint oldest.id).runs.map JobRun.id).Nodup := by
          rw [left]
          exact distinct.sublist (List.filter_sublist.map _)
        obtain ⟨keep, runs, keeps⟩ := ih _ distinct'
        rw [runs, left, List.filter_filter]
        refine ⟨_, rfl, fun run member active => ?_⟩
        have other : run.id ≠ oldest.id := by
          intro sameId
          rw [eq_of_id distinct member listed sameId, JobState.isActive_eq_not_isTerminal,
            terminal] at active
          cases active
        have stays : run ∈ (store.discard footprint oldest.id).runs := by
          rw [left]
          exact List.mem_filter.mpr ⟨member, decide_eq_true other⟩
        simp [keeps run stays active, other]
      · exact unchanged
    · exact unchanged

variable [DecidableEq Value] {json : JsonValue Value} {admission : Admission Value}
  {run : JobRun Value} {next : RunStore Value}

theorem reserve_eq_ok_iff : store.reserve footprint json run admission = .ok next ↔
    checkAdmission json admission (footprint run) store = .ok () ∧
      next = (store.evictUntilRoom footprint (footprint run) store.runs.length).insert footprint
        run := by
  unfold reserve
  cases checkAdmission json admission (footprint run) store with
  | error refusal => simp [bind, Except.bind]
  | ok admitted =>
    simp only [bind, Except.bind, pure, Except.pure, Except.ok.injEq, true_and]
    exact eq_comm

theorem reserve_runs (distinct : (store.runs.map JobRun.id).Nodup)
    (isNew : ∀ old ∈ store.runs, old.id ≠ run.id)
    (reserved : store.reserve footprint json run admission = .ok next) :
    ∃ keep : JobRun Value → Bool, next.runs = store.runs.filter keep ++ [run] ∧
      ∀ old ∈ store.runs, old.state.isActive = true → keep old = true := by
  obtain ⟨-, rfl⟩ := reserve_eq_ok_iff.mp reserved
  obtain ⟨keep, runs, keeps⟩ :=
    evictUntilRoom_runs footprint (footprint run) store.runs.length store distinct
  refine ⟨keep, ?_, keeps⟩
  have others : ((store.runs.filter keep).filter fun other => other.id ≠ run.id) =
      store.runs.filter keep :=
    List.filter_eq_self.mpr fun old member =>
      decide_eq_true (isNew old (List.mem_filter.mp member).1)
  show (_ : List (JobRun Value)).filter _ ++ [run] = _
  rw [runs, others]

theorem reserve_moves (distinct : (store.runs.map JobRun.id).Nodup)
    (isNew : ∀ old ∈ store.runs, old.id ≠ run.id) (queued : run.state.isActive = true)
    (reserved : store.reserve footprint json run admission = .ok next) :
    StoreMoves (.insert run.id) store.runs next.runs := by
  obtain ⟨keep, runs, keeps⟩ := reserve_runs distinct isNew reserved
  refine .intro keep id (some run) ?_ (fun old _ => .refl _ old)
    (fun old listed active _ => keeps old listed active) ?_
  · rw [runs]
    simp
  · intro fresh isFresh
    cases isFresh
    exact ⟨rfl, queued, isNew⟩

end RunStore

end Nanofile
