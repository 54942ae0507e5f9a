import Mathlib.Data.List.Basic

/-!
# Runs of a guarded system

A system is a partial step function on states, one step for each action.  A
guard narrows the runs to those whose steps all meet a condition on the state
before the step; `reachable_invariant` is the induction over such runs.
-/

set_option autoImplicit false

namespace Nanofile.Lib

universe u v

structure System (State : Type u) (Action : Type v) where
  init : State → Prop
  step : State → Action → Option State

namespace System

variable {State : Type u} {Action : Type v}

/-- The states reached by runs whose steps all meet `guard`. -/
inductive Reachable (system : System State Action) (guard : State → Action → Prop) :
    State → Prop
  | init {state : State} (start : system.init state) : Reachable system guard state
  | step {state next : State} {action : Action} (reached : Reachable system guard state)
      (met : guard state action) (taken : system.step state action = some next) :
      Reachable system guard next

variable {guard : State → Action → Prop} {system : System State Action}

theorem reachable_invariant {I : State → Prop} (start : ∀ state, system.init state → I state)
    (keeps : ∀ state next action, I state → guard state action →
      system.step state action = some next → I next) {state : State}
    (reached : system.Reachable guard state) : I state := by
  induction reached with
  | init initial => exact start _ initial
  | step _ met taken ih => exact keeps _ _ _ ih met taken

inductive Steps (system : System State Action) (guard : State → Action → Prop) :
    State → State → Prop
  | refl (state : State) : Steps system guard state state
  | tail {first state next : State} {action : Action} (steps : Steps system guard first state)
      (met : guard state action) (taken : system.step state action = some next) :
      Steps system guard first next

theorem Reachable.steps {first last : State} (reached : system.Reachable guard first)
    (steps : system.Steps guard first last) : system.Reachable guard last := by
  induction steps with
  | refl => exact reached
  | tail _ met taken ih => exact .step ih met taken

/-- Take a list of actions in order, each one only when `check` allows it. -/
def runChecked (system : System State Action) (check : State → Action → Bool) :
    List Action → State → Option State
  | [], state => some state
  | action :: rest, state =>
    if check state action then
      (system.step state action).bind (runChecked system check rest)
    else none

theorem Steps.head {first second last : State} {action : Action} (met : guard first action)
    (taken : system.step first action = some second) (steps : system.Steps guard second last) :
    system.Steps guard first last := by
  induction steps with
  | refl => exact .tail (.refl first) met taken
  | tail _ met' taken' ih => exact .tail ih met' taken'

variable {check : State → Action → Bool}

theorem steps_of_runChecked
    (sound : ∀ state action, check state action = true → guard state action) :
    ∀ (actions : List Action) (state final : State),
      system.runChecked check actions state = some final → system.Steps guard state final := by
  intro actions
  induction actions with
  | nil =>
    intro state final run
    simp only [runChecked, Option.some.injEq] at run
    subst run
    exact .refl state
  | cons action rest ih =>
    intro state final run
    simp only [runChecked] at run
    split at run
    · rename_i allowed
      obtain ⟨next, taken, run⟩ := Option.bind_eq_some_iff.mp run
      exact .head (sound state action allowed) taken (ih next final run)
    · simp at run

theorem reachable_of_runChecked
    (sound : ∀ state action, check state action = true → guard state action) (actions : List Action)
    (state final : State) (reached : system.Reachable guard state)
    (run : system.runChecked check actions state = some final) : system.Reachable guard final :=
  reached.steps (steps_of_runChecked sound actions state final run)

theorem reachable_of_runChecked_given
    (sound : ∀ state action, system.Reachable guard state → check state action = true →
      guard state action) :
    ∀ (actions : List Action) (state final : State), system.Reachable guard state →
      system.runChecked check actions state = some final → system.Reachable guard final := by
  intro actions
  induction actions with
  | nil =>
    intro state final reached run
    cases run
    exact reached
  | cons action rest ih =>
    intro state final reached run
    simp only [runChecked] at run
    split at run
    · rename_i allowed
      obtain ⟨next, taken, run⟩ := Option.bind_eq_some_iff.mp run
      exact ih next final (.step reached (sound state action reached allowed) taken) run
    · cases run

theorem Reachable.mono {guard' : State → Action → Prop}
    (weaker : ∀ state action, guard state action → guard' state action) {state : State}
    (reached : system.Reachable guard state) : system.Reachable guard' state := by
  induction reached with
  | init start => exact .init start
  | step _ met taken ih => exact .step ih (weaker _ _ met) taken

end System

end Nanofile.Lib
