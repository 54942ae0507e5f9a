import Mathlib.Data.List.Basic

/-!
# Streams that are unfolded from a state

A step yields an item and the next state, or nothing when the stream has ended.
`Unfolds` relates a state to all the items that follow; when every step lessens a measure,
a bounded run finds them.
-/

set_option autoImplicit false

namespace Nanofile.Lib

universe u v

variable {State : Type u} {Item : Type v}

inductive Unfolds (step : State → Option (Item × State)) : State → List Item → Prop where
  | ended {state : State} (ends : step state = none) : Unfolds step state []
  | yielded {state after : State} {item : Item} {items : List Item}
      (yields : step state = some (item, after)) (rest : Unfolds step after items) :
      Unfolds step state (item :: items)

variable {step : State → Option (Item × State)}

theorem Unfolds.unique {state : State}
    {items other : List Item} (unfolds : Unfolds step state items)
    (unfolds' : Unfolds step state other) : items = other := by
  induction unfolds generalizing other with
  | ended ends =>
    cases unfolds' with
    | ended => rfl
    | yielded yields => simp [ends] at yields
  | yielded yields rest ih =>
    cases unfolds' with
    | ended ends => simp [yields] at ends
    | yielded yields' rest' =>
      obtain ⟨rfl, rfl⟩ := Prod.mk.inj (Option.some.inj (yields.symm.trans yields'))
      rw [ih rest']

def unfoldItems (step : State → Option (Item × State)) : Nat → State → List Item
  | 0, _ => []
  | bound + 1, state =>
    match step state with
    | none => []
    | some (item, after) => item :: unfoldItems step bound after

theorem unfolds_unfoldItems (measure : State → Nat)
    (less : ∀ state item after, step state = some (item, after) → measure after < measure state) :
    ∀ (bound : Nat) (state : State), measure state ≤ bound →
      Unfolds step state (unfoldItems step bound state) := by
  intro bound
  induction bound with
  | zero =>
    intro state small
    refine .ended ?_
    cases stepped : step state with
    | none => rfl
    | some result =>
      have lessened := less state result.1 result.2 stepped
      omega
  | succ bound ih =>
    intro state small
    unfold unfoldItems
    cases stepped : step state with
    | none => exact .ended stepped
    | some result =>
      have lessened := less state result.1 result.2 stepped
      exact .yielded stepped (ih result.2 (by omega))

end Nanofile.Lib
