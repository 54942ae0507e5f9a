import Mathlib.Data.List.Basic

/-!
# Guarded level-by-level walks

A breadth-first walk reads one whole frontier at a time.  A guard bounds the
number of levels and the number of visited nodes, so the walk is total: the
level bound is the recursion's own argument.  `levelWalk_rec` is the induction
rule every walk of the program is reasoned about with.
-/

set_option autoImplicit false

namespace Nanofile.Lib

universe u v w

variable {Node : Type u} {Acc : Type v} {Err : Type w}

/-- Walk level by level from `frontier`; `level` reads one frontier and returns
the next one.  Visits are counted before a level is read. -/
def levelWalk (maxVisits : Nat) (tooDeep tooWide : Err)
    (level : List Node → Acc → Except Err (List Node × Acc)) :
    Nat → Nat → List Node → Acc → Except Err Acc
  | _, _, [], acc => .ok acc
  | 0, _, _ :: _, _ => .error tooDeep
  | depth + 1, visits, node :: rest, acc =>
    if maxVisits < visits + (node :: rest).length then .error tooWide
    else
      match level (node :: rest) acc with
      | .error failure => .error failure
      | .ok (next, acc) =>
        levelWalk maxVisits tooDeep tooWide level depth
          (visits + (node :: rest).length) next acc

variable {depth visits : Nat}

section Rules

variable {maxVisits : Nat} {tooDeep tooWide : Err}
  {level : List Node → Acc → Except Err (List Node × Acc)}

/-- Backwards induction over a successful walk: the property holds of a walk
that is over, and of one that reads a level and then finishes. -/
theorem levelWalk_rec {P : Nat → List Node → Acc → Acc → Prop}
    (done : ∀ depth acc, P depth [] acc acc)
    (step : ∀ depth frontier next acc acc' out, frontier ≠ [] →
      level frontier acc = .ok (next, acc') → P depth next acc' out →
      P (depth + 1) frontier acc out) :
    ∀ depth visits frontier acc out,
      levelWalk maxVisits tooDeep tooWide level depth visits frontier acc = .ok out →
      P depth frontier acc out := by
  intro depth
  induction depth with
  | zero =>
    intro visits frontier acc out run
    cases frontier with
    | nil =>
      simp only [levelWalk, Except.ok.injEq] at run
      subst run
      exact done 0 acc
    | cons node rest => simp [levelWalk] at run
  | succ depth ih =>
    intro visits frontier acc out run
    cases frontier with
    | nil =>
      simp only [levelWalk, Except.ok.injEq] at run
      subst run
      exact done (depth + 1) acc
    | cons node rest =>
      simp only [levelWalk] at run
      split at run
      · simp at run
      · cases read : level (node :: rest) acc with
        | error failure => simp [read] at run
        | ok result =>
          obtain ⟨next, acc'⟩ := result
          simp only [read] at run
          exact step depth (node :: rest) next acc acc' out (by simp) read
            (ih _ next acc' out run)

theorem levelWalk_invariant {I : List Node → Acc → Prop}
    (keeps : ∀ frontier next acc acc', I frontier acc →
      level frontier acc = .ok (next, acc') → I next acc') {frontier : List Node} {acc out : Acc}
    (run : levelWalk maxVisits tooDeep tooWide level depth visits frontier acc = .ok out)
    (start : I frontier acc) : I [] out := by
  refine levelWalk_rec (P := fun _ frontier acc out => I frontier acc → I [] out)
    ?_ ?_ depth visits frontier acc out run start
  · intro _ acc holds
    exact holds
  · intro _ frontier next acc acc' out _ read finish holds
    exact finish (keeps frontier next acc acc' holds read)

/-- A walk whose levels keep an invariant fails at its limits or at a level that has it. -/
theorem levelWalk_failed {I : List Node → Acc → Prop}
    (keeps : ∀ frontier next acc acc', I frontier acc →
      level frontier acc = .ok (next, acc') → I next acc') {failure : Err} :
    ∀ {depth visits : Nat} {frontier : List Node} {acc : Acc},
      levelWalk maxVisits tooDeep tooWide level depth visits frontier acc = .error failure →
      I frontier acc → failure = tooDeep ∨ failure = tooWide ∨
        ∃ frontier acc, I frontier acc ∧ level frontier acc = .error failure := by
  intro depth
  induction depth with
  | zero =>
    intro visits frontier acc run start
    cases frontier with
    | nil => simp [levelWalk] at run
    | cons node rest =>
      cases run
      exact Or.inl rfl
  | succ depth ih =>
    intro visits frontier acc run start
    cases frontier with
    | nil => simp [levelWalk] at run
    | cons node rest =>
      simp only [levelWalk] at run
      split at run
      · cases run
        exact Or.inr (Or.inl rfl)
      · cases read : level (node :: rest) acc with
        | error failed =>
          rw [read] at run
          cases run
          exact Or.inr (Or.inr ⟨_, _, start, read⟩)
        | ok result =>
          obtain ⟨next, acc'⟩ := result
          rw [read] at run
          exact ih run (keeps _ _ _ _ start read)

end Rules

section Checks

variable {Node Err : Type} {visit : Node → Except Err (List Node)}

theorem mapM_ok_iff : ∀ {nodes : List Node} {results : List (List Node)},
    nodes.mapM visit = .ok results ↔
      List.Forall₂ (fun node children => visit node = .ok children) nodes results := by
  intro nodes
  induction nodes with
  | nil =>
    intro results
    constructor
    · intro run
      cases run
      exact .nil
    · intro matched
      cases matched
      rfl
  | cons node rest ih =>
    intro results
    rw [List.mapM_cons]
    constructor
    · intro run
      cases here : visit node with
      | error failure =>
        rw [here] at run
        cases run
      | ok children =>
        cases below : rest.mapM visit with
        | error failure =>
          rw [here, below] at run
          cases run
        | ok others =>
          rw [here, below] at run
          cases run
          exact .cons here (ih.mp below)
    · intro matched
      cases matched with
      | cons here below =>
        rw [here, ih.mpr below]
        rfl

variable {failure : Err}

theorem mapM_error : ∀ {nodes : List Node},
    nodes.mapM visit = .error failure → ∃ node ∈ nodes, visit node = .error failure := by
  intro nodes
  induction nodes with
  | nil =>
    intro run
    cases run
  | cons node rest ih =>
    intro run
    rw [List.mapM_cons] at run
    cases here : visit node with
    | error failed =>
      rw [here] at run
      cases run
      exact ⟨node, List.mem_cons_self, here⟩
    | ok children =>
      cases below : rest.mapM visit with
      | error failed =>
        rw [here, below] at run
        cases run
        obtain ⟨other, listed, failed⟩ := ih below
        exact ⟨other, List.mem_cons_of_mem _ listed, failed⟩
      | ok others =>
        rw [here, below] at run
        cases run

/-- A level that visits each node for its children, and keeps nothing. -/
def checkLevel (visit : Node → Except Err (List Node)) (frontier : List Node) (_ : Unit) :
    Except Err (List Node × Unit) := do
  let children ← frontier.mapM visit
  .ok (children.flatten, ())

/-- The nodes a check reaches from a frontier. -/
inductive Visited (visit : Node → Except Err (List Node)) (frontier : List Node) : Node → Prop
  | start {node : Node} (listed : node ∈ frontier) : Visited visit frontier node
  | down {parent node : Node} {children : List Node} (above : Visited visit frontier parent)
      (read : visit parent = .ok children) (listed : node ∈ children) :
      Visited visit frontier node

variable {acc : Unit} {frontier : List Node}

theorem checkLevel_ok_iff {next : List Node} {acc' : Unit} :
    checkLevel visit frontier acc = .ok (next, acc') ↔
      ∃ results, frontier.mapM visit = .ok results ∧ results.flatten = next := by
  unfold checkLevel
  cases run : frontier.mapM visit with
  | error failure =>
    constructor
    · intro contra
      cases contra
    · rintro ⟨results, contra, -⟩
      cases contra
  | ok results =>
    constructor
    · intro isNext
      cases isNext
      exact ⟨results, rfl, rfl⟩
    · rintro ⟨_, same, rfl⟩
      cases same
      rfl

theorem checkLevel_error (failed : checkLevel visit frontier acc = .error failure) :
    ∃ node ∈ frontier, visit node = .error failure := by
  unfold checkLevel at failed
  cases run : frontier.mapM visit with
  | error other =>
    rw [run] at failed
    cases failed
    exact mapM_error run
  | ok results =>
    rw [run] at failed
    cases failed

variable {results : List (List Node)} {node : Node}

theorem mapM_read {nodes : List Node} (run : nodes.mapM visit = .ok results) (listed : node ∈ nodes)
    : ∃ children ∈ results, visit node = .ok children := by
  rw [mapM_ok_iff] at run
  induction run with
  | nil => simp at listed
  | @cons first its rest others isIts _ ih =>
    rcases List.mem_cons.mp listed with rfl | later
    · exact ⟨its, List.mem_cons_self, isIts⟩
    · obtain ⟨children, isResult, read⟩ := ih later
      exact ⟨children, List.mem_cons_of_mem _ isResult, read⟩

theorem mapM_children {nodes : List Node} (run : nodes.mapM visit = .ok results) {child : Node}
    (listed : child ∈ results.flatten) :
    ∃ node ∈ nodes, ∃ children, visit node = .ok children ∧ child ∈ children := by
  rw [mapM_ok_iff] at run
  induction run with
  | nil => simp at listed
  | @cons node children rest others here _ ih =>
    rcases List.mem_append.mp listed with first | later
    · exact ⟨node, List.mem_cons_self, children, here, first⟩
    · obtain ⟨other, isNode, facts⟩ := ih later
      exact ⟨other, List.mem_cons_of_mem _ isNode, facts⟩

theorem not_visited_nil (node : Node) : ¬ Visited visit [] node := by
  intro visited
  induction visited with
  | start listed => simp at listed
  | down _ _ _ ih => exact ih

theorem Visited.next (run : frontier.mapM visit = .ok results)
    (visited : Visited visit frontier node) :
    node ∈ frontier ∨ Visited visit results.flatten node := by
  induction visited with
  | start listed => exact Or.inl listed
  | down above read listed ih =>
    refine Or.inr ?_
    rcases ih with onLevel | deeper
    · obtain ⟨children, isResult, same⟩ := mapM_read run onLevel
      rw [read] at same
      cases same
      exact .start (List.mem_flatten.mpr ⟨_, isResult, listed⟩)
    · exact .down deeper read listed

variable {maxVisits : Nat} {tooDeep tooWide : Err}

theorem Visited.read_of_checked {out : Unit}
    (run : levelWalk maxVisits tooDeep tooWide (checkLevel visit) depth visits frontier acc =
      .ok out) (visited : Visited visit frontier node) : ∃ children, visit node = .ok children := by
  refine levelWalk_rec (P := fun _ frontier _ _ => ∀ node, Visited visit frontier node →
    ∃ children, visit node = .ok children) ?_ ?_ depth visits frontier acc out run node visited
  · intro _ _ node visited
    exact absurd visited (not_visited_nil node)
  · intro _ frontier next _ _ _ _ level finish node visited
    obtain ⟨results, each, rfl⟩ := checkLevel_ok_iff.mp level
    rcases visited.next each with onLevel | deeper
    · obtain ⟨children, -, read⟩ := mapM_read each onLevel
      exact ⟨children, read⟩
    · exact finish node deeper

theorem Visited.of_failed (run : levelWalk maxVisits tooDeep tooWide (checkLevel visit) depth visits
      frontier acc = .error failure) :
    failure = tooDeep ∨ failure = tooWide ∨
      ∃ node, Visited visit frontier node ∧ visit node = .error failure := by
  have keeps : ∀ (level next : List Node) (acc acc' : Unit),
      (∀ node ∈ level, Visited visit frontier node) →
      checkLevel visit level acc = .ok (next, acc') →
      ∀ node ∈ next, Visited visit frontier node := by
    intro level next _ _ reached read node listed
    obtain ⟨results, each, rfl⟩ := checkLevel_ok_iff.mp read
    obtain ⟨parent, onLevel, children, here, isChild⟩ := mapM_children each listed
    exact .down (reached parent onLevel) here isChild
  rcases levelWalk_failed keeps run (fun node listed => .start listed) with
    deep | wide | ⟨level, acc, reached, failed⟩
  · exact Or.inl deep
  · exact Or.inr (Or.inl wide)
  · obtain ⟨node, listed, fails⟩ := checkLevel_error failed
    exact Or.inr (Or.inr ⟨node, reached node listed, fails⟩)

end Checks

def levelsBelow (next : Node → List Node) : Nat → List Node → List Node
  | 0, frontier => frontier
  | depth + 1, frontier => levelsBelow next depth (frontier.flatMap next)

section Finishes

variable {next : Node → List Node}

@[simp] theorem levelsBelow_nil (depth : Nat) : levelsBelow next depth [] = [] := by
  induction depth with
  | zero => rfl
  | succ depth ih => exact ih

theorem levelsBelow_append (depth : Nat) : ∀ first second : List Node,
    levelsBelow next depth (first ++ second) =
      levelsBelow next depth first ++ levelsBelow next depth second := by
  induction depth with
  | zero => exact fun first second => rfl
  | succ depth ih =>
    intro first second
    rw [levelsBelow, List.flatMap_append, ih]
    rfl

theorem levelsBelow_mono {more : Nat} (deeper : depth ≤ more) : ∀ {frontier : List Node},
    levelsBelow next depth frontier = [] → levelsBelow next more frontier = [] := by
  induction depth generalizing more with
  | zero =>
    intro frontier isNil
    rw [show frontier = [] from isNil, levelsBelow_nil]
  | succ depth ih =>
    intro frontier isNil
    obtain ⟨more, rfl⟩ : ∃ less, more = less + 1 := ⟨more - 1, by omega⟩
    show levelsBelow next more (frontier.flatMap next) = []
    exact ih (by omega) isNil

theorem levelsBelow_of_each : ∀ {frontier : List Node},
    (∀ node ∈ frontier, ∃ depth, levelsBelow next depth [node] = []) →
      ∃ depth, levelsBelow next depth frontier = [] := by
  intro frontier
  induction frontier with
  | nil => exact fun _ => ⟨0, rfl⟩
  | cons node rest ih =>
    intro each
    obtain ⟨depth, here⟩ := each node List.mem_cons_self
    obtain ⟨depth', below⟩ := ih fun other listed => each other (List.mem_cons_of_mem _ listed)
    refine ⟨max depth depth', ?_⟩
    have split : levelsBelow next _ _ = _ := levelsBelow_append (max depth depth') [node] rest
    rw [levelsBelow_mono (Nat.le_max_left _ _) here,
      levelsBelow_mono (Nat.le_max_right _ _) below] at split
    exact split

theorem levelWalk_finishes {level : List Node → Acc → Except Err (List Node × Acc)}
    (reads : ∀ frontier acc, ∃ acc', level frontier acc = .ok (frontier.flatMap next, acc')) :
    ∀ {depth : Nat} {frontier : List Node}, levelsBelow next depth frontier = [] →
      ∃ room, ∀ (tooDeep tooWide : Err) (maxVisits levels visits : Nat) (acc : Acc),
        depth ≤ levels → visits + room ≤ maxVisits →
        ∃ out, levelWalk maxVisits tooDeep tooWide level levels visits frontier acc = .ok out := by
  intro depth
  induction depth with
  | zero =>
    intro frontier isNil
    obtain rfl : frontier = [] := isNil
    exact ⟨0, fun _ _ _ _ _ acc _ _ => ⟨acc, by simp [levelWalk]⟩⟩
  | succ depth ih =>
    intro frontier isNil
    obtain ⟨room, finishes⟩ := ih isNil
    refine ⟨frontier.length + room, ?_⟩
    intro tooDeep tooWide maxVisits levels visits acc deep wide
    cases frontier with
    | nil => exact ⟨acc, by simp [levelWalk]⟩
    | cons node rest =>
      obtain ⟨levels, rfl⟩ : ∃ less, levels = less + 1 := ⟨levels - 1, by omega⟩
      obtain ⟨acc', read⟩ := reads (node :: rest) acc
      obtain ⟨out, ends⟩ := finishes tooDeep tooWide maxVisits levels
        (visits + (node :: rest).length) acc' (by omega) (by omega)
      refine ⟨out, ?_⟩
      rw [levelWalk, if_neg (by omega), read]
      exact ends

end Finishes

end Nanofile.Lib
