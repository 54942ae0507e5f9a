import Nanofile.Lib.Ledger
import Nanofile.Lib.System

/-!
# Interleaved calls over a shared state

Calls of a program run in single steps over a shared state, and the steps of
different calls interleave in any order.  A thread is the local state of a call.
`threads_invariant` is the rely-guarantee rule: an invariant of the shared state
and an assertion of every thread survive when each step keeps its own thread's
assertion and changes the shared state only within a relation under which the
assertions of the others are stable.
-/

set_option autoImplicit false

namespace Nanofile.Lib

universe u v w x y

/-- A program: `atomic` requests are served in one step, a `job` is a call that
runs as a thread.  `Tick` is what one step reads from outside the rows. -/
structure Program (Shared : Type u) (Thread : Type v) (Request : Type w) (Job : Type x)
    (Tick : Type y) where
  serve : Request → Shared → Shared
  begin : Job → Thread
  advance : Tick → Shared → Thread → Option (Shared × Thread)

structure Threads (Shared : Type u) (Thread : Type v) where
  shared : Shared
  running : List Thread

inductive ThreadAction (Request : Type w) (Job : Type x) (Tick : Type y) where
  | serve (request : Request)
  | begin (job : Job)
  | advance (index : Nat) (tick : Tick)

namespace Program

variable {Shared : Type u} {Thread : Type v} {Request : Type w} {Job : Type x}
  {Tick : Type y}

def step (program : Program Shared Thread Request Job Tick)
    (state : Threads Shared Thread) :
    ThreadAction Request Job Tick → Option (Threads Shared Thread)
  | .serve request => some { state with shared := program.serve request state.shared }
  | .begin job => some { state with running := state.running ++ [program.begin job] }
  | .advance index tick =>
    state.running[index]?.bind fun thread =>
      (program.advance tick state.shared thread).map fun after =>
        ⟨after.1, state.running.set index after.2⟩

def system (program : Program Shared Thread Request Job Tick) (init : Shared → Prop) :
    System (Threads Shared Thread) (ThreadAction Request Job Tick) where
  init state := init state.shared ∧ state.running = []
  step := program.step

/-- A guard on the steps of calls and one on the requests served at once. -/
def guarded (request : Shared → Request → Prop) (thread : Shared → Thread → Tick → Prop)
    (state : Threads Shared Thread) : ThreadAction Request Job Tick → Prop
  | .serve served => request state.shared served
  | .begin _ => True
  | .advance index tick =>
    ∀ running, state.running[index]? = some running → thread state.shared running tick

variable {state : Threads Shared Thread}

theorem step_advance_iff {program : Program Shared Thread Request Job Tick}
    {next : Threads Shared Thread} {index : Nat} {tick : Tick} :
    program.step state (.advance index tick) = some next ↔
      ∃ thread after, state.running[index]? = some thread ∧
        program.advance tick state.shared thread = some after ∧
        next = ⟨after.1, state.running.set index after.2⟩ := by
  simp only [step, Option.bind_eq_some_iff, Option.map_eq_some_iff]
  constructor
  · rintro ⟨thread, found, after, taken, rfl⟩
    exact ⟨thread, after, found, taken, rfl⟩
  · rintro ⟨thread, after, found, taken, rfl⟩
    exact ⟨thread, found, after, taken, rfl⟩

theorem mem_set_of_ne {Item : Type w} {items : List Item} {old item : Item} {index : Nat}
    (found : items[index]? = some old) (listed : item ∈ items) (different : item ≠ old)
    (new : Item) : item ∈ items.set index new := by
  obtain ⟨other, bound, isItem⟩ := List.mem_iff_getElem.mp listed
  have apart : index ≠ other := by
    intro same
    subst same
    rw [List.getElem?_eq_getElem bound, isItem, Option.some.injEq] at found
    exact different found
  apply List.mem_of_getElem? (i := other)
  rw [List.getElem?_set_ne apart, List.getElem?_eq_getElem bound, isItem]

section Rule

variable {program : Program Shared Thread Request Job Tick} {init : Shared → Prop}
  {okRequest : Shared → Request → Prop} {okThread : Shared → Thread → Tick → Prop}
  {guard : Threads Shared Thread → ThreadAction Request Job Tick → Prop}
  {I : Shared → Prop} {O : Shared → Thread → Prop}
  {Evolves : Shared → Shared → Prop}

/-- A state in which the shared part and every call are as they should be. -/
def Kept (I : Shared → Prop) (O : Shared → Thread → Prop) (state : Threads Shared Thread) : Prop :=
  I state.shared ∧ ∀ thread ∈ state.running, O state.shared thread

/-- Every request that is served in a known state keeps the shared part and every call. -/
def ServesKeep (program : Program Shared Thread Request Job Tick)
    (guard : Threads Shared Thread → ThreadAction Request Job Tick → Prop)
    (Known : Threads Shared Thread → Prop) (I : Shared → Prop) (O : Shared → Thread → Prop) : Prop :=
  ∀ (state : Threads Shared Thread) request, Known state → Kept I O state →
    guard state (.serve request) → I (program.serve request state.shared) ∧
      ∀ thread ∈ state.running, O (program.serve request state.shared) thread

/-- Every step of a call in a known state keeps the shared part, the call and all others. -/
def AdvancesKeep (program : Program Shared Thread Request Job Tick)
    (guard : Threads Shared Thread → ThreadAction Request Job Tick → Prop)
    (Known : Threads Shared Thread → Prop) (I : Shared → Prop) (O : Shared → Thread → Prop) : Prop :=
  ∀ (state : Threads Shared Thread) index thread tick after, Known state → Kept I O state →
    state.running[index]? = some thread → guard state (.advance index tick) →
    program.advance tick state.shared thread = some after →
    I after.1 ∧ O after.1 after.2 ∧ ∀ j other, j ≠ index → state.running[j]? = some other →
      O after.1 other

variable {Known : Threads Shared Thread → Prop}

theorem step_keeps
    (begun : ∀ shared job, I shared → O shared (program.begin job))
    (serves : ServesKeep program guard Known I O) (advances : AdvancesKeep program guard Known I O)
    {before next : Threads Shared Thread} {action : ThreadAction Request Job Tick}
    (known : Known before) (kept : Kept I O before) (met : guard before action)
    (taken : program.step before action = some next) : Kept I O next := by
  cases action with
  | serve request =>
    cases taken
    exact serves before request known kept met
  | begin job =>
    cases taken
    refine ⟨kept.1, fun thread member => ?_⟩
    rcases List.mem_append.mp member with old | new
    · exact kept.2 thread old
    · rw [List.mem_singleton.mp new]
      exact begun before.shared job kept.1
  | advance index tick =>
    obtain ⟨thread, after, found, moved, rfl⟩ := step_advance_iff.mp taken
    obtain ⟨kept', own, others⟩ := advances before index thread tick after known kept found met
      moved
    refine ⟨kept', fun other listed => ?_⟩
    obtain ⟨j, isOther⟩ := List.mem_iff_getElem?.mp listed
    rw [List.getElem?_set] at isOther
    split at isOther
    · split at isOther
      · rw [Option.some.injEq] at isOther
        rw [← isOther]
        exact own
      · cases isOther
    · rename_i apart
      exact others j other (Ne.symm apart) isOther

theorem threads_steps_given
    (known : ∀ state, (program.system init).Reachable guard state → Known state)
    (begun : ∀ shared job, I shared → O shared (program.begin job))
    (serves : ServesKeep program guard Known I O) (advances : AdvancesKeep program guard Known I O)
    {first last : Threads Shared Thread} (reached : (program.system init).Reachable guard first)
    (steps : (program.system init).Steps guard first last) (kept : Kept I O first) :
    Kept I O last := by
  induction steps with
  | refl => exact kept
  | tail steps' met taken ih =>
    exact step_keeps begun serves advances (known _ (reached.steps steps')) ih met taken

theorem threads_invariant_given
    (known : ∀ state, (program.system init).Reachable guard state → Known state)
    (begun : ∀ shared job, I shared → O shared (program.begin job))
    (serves : ServesKeep program guard Known I O) (advances : AdvancesKeep program guard Known I O)
    (start : ∀ shared, init shared → I shared)
    (reached : (program.system init).Reachable guard state) : Kept I O state := by
  induction reached with
  | init initial =>
    refine ⟨start _ initial.1, fun thread member => ?_⟩
    rw [initial.2] at member
    exact absurd member List.not_mem_nil
  | step reached' met taken ih => exact step_keeps begun serves advances (known _ reached') ih met taken

/-- An invariant of the shared state and one of every call, under any guard: each step
keeps the shared one, the one of its own call and those of all the others. -/
theorem threads_invariant_of_guard (begun : ∀ shared job, I shared → O shared (program.begin job))
    (serves : ∀ (state : Threads Shared Thread) request, I state.shared →
      (∀ thread ∈ state.running, O state.shared thread) → guard state (.serve request) →
      I (program.serve request state.shared) ∧
        ∀ thread ∈ state.running, O (program.serve request state.shared) thread)
    (advances : ∀ (state : Threads Shared Thread) index thread tick after, I state.shared →
      (∀ thread ∈ state.running, O state.shared thread) →
      state.running[index]? = some thread → guard state (.advance index tick) →
      program.advance tick state.shared thread = some after →
      I after.1 ∧ O after.1 after.2 ∧ ∀ other ∈ state.running, O after.1 other)
    (start : ∀ shared, init shared → I shared)
    (reached : (program.system init).Reachable guard state) :
    I state.shared ∧ ∀ thread ∈ state.running, O state.shared thread := by
  have known : ∀ state, (program.system init).Reachable guard state →
      (fun _ => True : Threads Shared Thread → Prop) state := fun _ _ => trivial
  refine threads_invariant_given known begun ?_ ?_ start reached
  · intro state request _ kept met
    exact serves state request kept.1 kept.2 met
  · intro state index thread tick after _ kept found met moved
    obtain ⟨shared, own, others⟩ := advances state index thread tick after kept.1 kept.2 found met
      moved
    exact ⟨shared, own, fun j other _ isOther => others other (List.mem_of_getElem? isOther)⟩

theorem threads_invariant
    (stable : ∀ before after thread, Evolves before after → O before thread → O after thread)
    (begun : ∀ shared job, I shared → O shared (program.begin job))
    (serves : ∀ shared request, I shared → okRequest shared request →
      I (program.serve request shared) ∧ Evolves shared (program.serve request shared))
    (advances : ∀ shared thread tick after, I shared → O shared thread →
      okThread shared thread tick → program.advance tick shared thread = some after →
      I after.1 ∧ O after.1 after.2 ∧ Evolves shared after.1)
    (start : ∀ shared, init shared → I shared)
    (reached : (program.system init).Reachable (guarded okRequest okThread) state) :
    I state.shared ∧ ∀ thread ∈ state.running, O state.shared thread := by
  refine threads_invariant_of_guard begun ?_ ?_ start reached
  · intro before request invariant owned met
    obtain ⟨kept, evolved⟩ := serves before.shared request invariant met
    exact ⟨kept, fun thread member => stable _ _ thread evolved (owned thread member)⟩
  · intro before index thread tick after invariant owned found met moved
    obtain ⟨kept, own, evolved⟩ := advances before.shared thread tick after invariant
      (owned thread (List.mem_of_getElem? found)) (met thread found) moved
    exact ⟨kept, own, fun other member => stable _ _ other evolved (owned other member)⟩

/-- The rule with an assertion `P` of every two calls: a step keeps it between its own call and
each of the others, and may use it to keep what the others know. -/
theorem threads_invariant_pairs {P : Thread → Thread → Prop}
    (begun : ∀ shared job, I shared → O shared (program.begin job) ∧
      ∀ other, P (program.begin job) other ∧ P other (program.begin job))
    (serves : ∀ (state : Threads Shared Thread) request, I state.shared →
      (∀ thread ∈ state.running, O state.shared thread) → guard state (.serve request) →
      I (program.serve request state.shared) ∧
        ∀ thread ∈ state.running, O (program.serve request state.shared) thread)
    (advances : ∀ (state : Threads Shared Thread) index thread tick after, I state.shared →
      O state.shared thread → state.running[index]? = some thread →
      guard state (.advance index tick) → program.advance tick state.shared thread = some after →
      I after.1 ∧ O after.1 after.2 ∧ ∀ other, O state.shared other → P thread other →
        P other thread → O after.1 other ∧ P after.2 other ∧ P other after.2)
    (start : ∀ shared, init shared → I shared)
    (reached : (program.system init).Reachable guard state) :
    I state.shared ∧ (∀ thread ∈ state.running, O state.shared thread) ∧
      ∀ (i j : Nat) (first second : Thread), i ≠ j → state.running[i]? = some first →
        state.running[j]? = some second → P first second := by
  refine System.reachable_invariant
    (I := fun state => I state.shared ∧ (∀ thread ∈ state.running, O state.shared thread) ∧
      ∀ (i j : Nat) (first second : Thread), i ≠ j → state.running[i]? = some first →
        state.running[j]? = some second → P first second) ?_ ?_ reached
  · rintro initial ⟨isInit, idle⟩
    simp [idle, start _ isInit]
  · rintro before next action ⟨invariant, owned, paired⟩ met taken
    cases action with
    | serve request =>
      cases taken
      obtain ⟨kept, others⟩ := serves before request invariant owned met
      exact ⟨kept, others, paired⟩
    | begin job =>
      cases taken
      obtain ⟨own, pairs⟩ := begun before.shared job invariant
      refine ⟨invariant, ?_, ?_⟩
      · intro thread member
        rcases List.mem_append.mp member with old | new
        · exact owned thread old
        · rw [List.mem_singleton.mp new]
          exact own
      · intro i j first second apart isFirst isSecond
        rw [List.getElem?_append] at isFirst isSecond
        split at isFirst <;> split at isSecond
        · exact paired i j first second apart isFirst isSecond
        · obtain ⟨-, rfl⟩ := by simpa [List.getElem?_singleton] using isSecond
          exact (pairs first).2
        · obtain ⟨-, rfl⟩ := by simpa [List.getElem?_singleton] using isFirst
          exact (pairs second).1
        · obtain ⟨isLast, -⟩ := by simpa [List.getElem?_singleton] using isFirst
          obtain ⟨isLast', -⟩ := by simpa [List.getElem?_singleton] using isSecond
          omega
    | advance index tick =>
      obtain ⟨thread, after, found, moved, rfl⟩ := step_advance_iff.mp taken
      have here : index < before.running.length := (List.getElem?_eq_some_iff.mp found).1
      obtain ⟨kept, own, others⟩ := advances before index thread tick after invariant
        (owned thread (List.mem_of_getElem? found)) found met moved
      refine ⟨kept, ?_, ?_⟩
      · intro other listed
        obtain ⟨i, isOther⟩ := List.mem_iff_getElem?.mp listed
        rw [List.getElem?_set] at isOther
        split at isOther
        · rw [Option.some.injEq] at isOther
          rw [← isOther]
          exact own
        · rename_i apart
          exact (others other (owned other (List.mem_of_getElem? isOther))
            (paired index i thread other apart found isOther)
            (paired i index other thread (Ne.symm apart) isOther found)).1
      · intro i j first second apart isFirst isSecond
        rw [List.getElem?_set] at isFirst isSecond
        split at isFirst
        · rename_i isIndex
          rw [Option.some.injEq] at isFirst
          rw [if_neg fun same => apart (isIndex.symm.trans same)] at isSecond
          subst isFirst isIndex
          exact (others second (owned second (List.mem_of_getElem? isSecond))
            (paired index j thread second apart found isSecond)
            (paired j index second thread apart.symm isSecond found)).2.1
        · rename_i notFirst
          split at isSecond
          · rename_i isIndex
            rw [Option.some.injEq] at isSecond
            subst isSecond isIndex
            exact (others first (owned first (List.mem_of_getElem? isFirst))
              (paired index i thread first notFirst found isFirst)
              (paired i index first thread apart isFirst found)).2.2
          · exact paired i j first second apart isFirst isSecond

/-- A counter that every step moves as the weight of its own call is the sum over the calls. -/
theorem counter_eq_sum (weight : Thread → Int) (count : Shared → Int)
    (begun : ∀ job, weight (program.begin job) = 0)
    (serves : ∀ shared request, count (program.serve request shared) = count shared)
    (advances : ∀ shared thread tick after, program.advance tick shared thread = some after →
      count after.1 - count shared = weight after.2 - weight thread)
    (start : ∀ shared, init shared → count shared = 0)
    (reached : (program.system init).Reachable guard state) :
    count state.shared = (state.running.map weight).sum := by
  refine System.reachable_invariant
    (I := fun state => count state.shared = (state.running.map weight).sum) ?_ ?_ reached
  · rintro initial ⟨isInit, idle⟩
    rw [start _ isInit, idle]
    rfl
  · rintro before next action counted - taken
    cases action with
    | serve request =>
      cases taken
      exact (serves before.shared request).trans counted
    | begin job =>
      cases taken
      simp [begun, counted]
    | advance index tick =>
      obtain ⟨thread, after, found, moved, rfl⟩ := step_advance_iff.mp taken
      have step := advances before.shared thread tick after moved
      change count after.1 = ((before.running.set index after.2).map weight).sum
      rw [sum_map_set weight found]
      omega

end Rule

end Program

end Nanofile.Lib
