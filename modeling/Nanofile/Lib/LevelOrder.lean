import Mathlib.Data.List.Nodup
import Nanofile.Lib.LevelWalk

/-!
# The order of a level-by-level walk

When reading a node never fails and the next frontier lists the children of this
one, a walk that ends has read every node below its start, level by level.
-/

set_option autoImplicit false

namespace Nanofile.Lib

universe u v w

variable {Node : Type u} {Acc : Type v} {Err : Type w}

def levelAt (children : Node → List Node) : Nat → List Node → List Node
  | 0, frontier => frontier
  | depth + 1, frontier => levelAt children depth (frontier.flatMap children)

def levelsTo (children : Node → List Node) (depth : Nat) (frontier : List Node) : List Node :=
  (List.range depth).flatMap fun level => levelAt children level frontier

variable {depth : Nat} {frontier : List Node}

section Order

variable {children : Node → List Node}

@[simp] theorem levelAt_zero (frontier : List Node) : levelAt children 0 frontier = frontier :=
  rfl

theorem levelAt_succ (depth : Nat) (frontier : List Node) :
    levelAt children (depth + 1) frontier = levelAt children depth (frontier.flatMap children) :=
  rfl

theorem levelAt_nil (depth : Nat) : levelAt children depth [] = [] := by
  induction depth with
  | zero => rfl
  | succ depth ih => simpa [levelAt_succ] using ih

theorem levelAt_flatMap (depth : Nat) (frontier : List Node) :
    levelAt children depth frontier =
      frontier.flatMap fun node => levelAt children depth [node] := by
  induction depth generalizing frontier with
  | zero => simp
  | succ depth ih =>
    rw [levelAt_succ, ih, List.flatMap_assoc]
    congr 1
    funext node
    rw [levelAt_succ, ih ([node].flatMap children)]
    simp

theorem levelAt_succ' (depth : Nat) (frontier : List Node) :
    levelAt children (depth + 1) frontier =
      (levelAt children depth frontier).flatMap children := by
  induction depth generalizing frontier with
  | zero => rfl
  | succ depth ih => rw [levelAt_succ, ih, levelAt_succ]

variable {deeper : Nat}

theorem levelAt_eq_nil_of_le (ends : levelAt children depth frontier = []) (le : depth ≤ deeper) :
    levelAt children deeper frontier = [] := by
  induction le with
  | refl => exact ends
  | step _ ih => rw [levelAt_succ', ih, List.flatMap_nil]

theorem levelsTo_succ (depth : Nat) (frontier : List Node) :
    levelsTo children (depth + 1) frontier =
      frontier ++ levelsTo children depth (frontier.flatMap children) := by
  rw [levelsTo, List.range_succ_eq_map, List.flatMap_cons, List.flatMap_map]
  rfl

theorem levelsTo_succ' (depth : Nat) (frontier : List Node) :
    levelsTo children (depth + 1) frontier =
      levelsTo children depth frontier ++ levelAt children depth frontier := by
  rw [levelsTo, List.range_succ, List.flatMap_append, List.flatMap_singleton]
  rfl

theorem levelsTo_prefix (le : depth ≤ deeper) (frontier : List Node) :
    levelsTo children depth frontier <+: levelsTo children deeper frontier := by
  induction le with
  | refl => exact List.prefix_refl _
  | step _ ih =>
    rw [levelsTo_succ']
    exact ih.trans (List.prefix_append _ _)

theorem levelsTo_of_end (ends : levelAt children depth frontier = []) (le : depth ≤ deeper) :
    levelsTo children deeper frontier = levelsTo children depth frontier := by
  induction le with
  | refl => rfl
  | @step deeper le ih =>
    rw [levelsTo_succ', levelAt_eq_nil_of_le ends le, List.append_nil]
    exact ih

theorem mem_levelsTo {node : Node} :
    node ∈ levelsTo children depth frontier ↔
      ∃ level, level < depth ∧ node ∈ levelAt children level frontier := by
  simp [levelsTo]

theorem levelsTo_invariant {P : Node → Prop} (start : ∀ node ∈ frontier, P node)
    (passes : ∀ node, P node → ∀ child ∈ children node, P child) (depth : Nat) :
    ∀ node ∈ levelsTo children depth frontier, P node := by
  have perLevel : ∀ level, ∀ node ∈ levelAt children level frontier, P node := by
    intro level
    induction level with
    | zero => exact start
    | succ level ih =>
      intro node member
      rw [levelAt_succ'] at member
      obtain ⟨above, isAbove, isChild⟩ := List.mem_flatMap.mp member
      exact passes above (ih above isAbove) node isChild
  intro node member
  obtain ⟨level, -, inside⟩ := mem_levelsTo.mp member
  exact perLevel level node inside

theorem child_mem_levelsTo (ends : levelAt children depth frontier = []) {node child : Node}
    (member : node ∈ levelsTo children depth frontier) (isChild : child ∈ children node) :
    child ∈ levelsTo children depth frontier := by
  obtain ⟨level, isLess, inside⟩ := mem_levelsTo.mp member
  have below : child ∈ levelAt children (level + 1) frontier := by
    rw [levelAt_succ']
    exact List.mem_flatMap.mpr ⟨node, inside, isChild⟩
  refine mem_levelsTo.mpr ⟨level + 1, ?_, below⟩
  by_contra past
  rw [levelAt_eq_nil_of_le ends (by omega)] at below
  simp at below

theorem levelsTo_flatMap {Item : Type v} {items : Node → List Item} {perLevel : Nat → List Item}
    (levels : ∀ level, (levelAt children level frontier).flatMap items = perLevel level)
    {reached : Nat} (ends : levelAt children reached frontier = []) (deep : reached ≤ depth) :
    (levelsTo children reached frontier).flatMap items =
      (List.range depth).flatMap perLevel := by
  have upTo : ∀ count, (levelsTo children count frontier).flatMap items =
      (List.range count).flatMap perLevel := by
    intro count
    rw [levelsTo, List.flatMap_assoc]
    exact List.flatMap_congr fun level _ => levels level
  rw [upTo reached]
  induction deep with
  | refl => rfl
  | @step depth deep ih =>
    have past := levels depth
    rw [levelAt_eq_nil_of_le ends deep, List.flatMap_nil] at past
    rw [ih, List.range_succ, List.flatMap_append, List.flatMap_singleton, ← past,
      List.append_nil]

theorem nodup_flatMap_concat {Item : Type v} {Name : Type w} {key : Node → List Name}
    {itemKey : Item → List Name} {items : Node → List Item} {nodes : List Node}
    (distinct : (nodes.map key).Nodup)
    (inside : ∀ node ∈ nodes, ((items node).map itemKey).Nodup)
    (extend : ∀ node ∈ nodes, ∀ item ∈ items node, ∃ name, itemKey item = key node ++ [name]) :
    ((nodes.flatMap items).map itemKey).Nodup := by
  rw [List.map_flatMap]
  refine List.nodup_flatMap.mpr ⟨inside, ?_⟩
  refine (List.pairwise_map.mp distinct).imp_of_mem ?_
  intro first second isFirst isSecond differ
  refine List.disjoint_left.mpr ?_
  intro shared inFirst inSecond
  obtain ⟨item, isItem, rfl⟩ := List.mem_map.mp inFirst
  obtain ⟨other, isOther, same⟩ := List.mem_map.mp inSecond
  obtain ⟨name, isKey⟩ := extend first isFirst item isItem
  obtain ⟨name', isKey'⟩ := extend second isSecond other isOther
  rw [isKey, isKey'] at same
  exact differ (List.append_inj_left' same rfl).symm

/-- When children extend the key of their node by distinct names, no key is read twice. -/
theorem levelsTo_keys_nodup {Name : Type w} {key : Node → List Name} {P : Node → Prop}
    {root : Node} (start : P root) (passes : ∀ node, P node → ∀ child ∈ children node, P child)
    (distinct : ∀ node, P node → ((children node).map key).Nodup)
    (extend : ∀ node, P node → ∀ child ∈ children node, ∃ name, key child = key node ++ [name])
    (depth : Nat) : ((levelsTo children depth [root]).map key).Nodup := by
  have holds : ∀ level, ∀ node ∈ levelAt children level [root], P node := by
    intro level node member
    refine levelsTo_invariant ?_ passes (level + 1) node
      (mem_levelsTo.mpr ⟨level, Nat.lt_succ_self level, member⟩)
    intro node member
    rw [List.mem_singleton.mp member]
    exact start
  have perLevel : ∀ level, ((levelAt children level [root]).map key).Nodup ∧
      ∀ node ∈ levelAt children level [root], (key node).length = (key root).length + level := by
    intro level
    induction level with
    | zero => simp
    | succ level ih =>
      rw [levelAt_succ']
      refine ⟨nodup_flatMap_concat ih.1
        (fun node member => distinct node (holds level node member))
        (fun node member => extend node (holds level node member)), ?_⟩
      intro child isChild
      obtain ⟨node, member, isNext⟩ := List.mem_flatMap.mp isChild
      obtain ⟨name, isKey⟩ := extend node (holds level node member) child isNext
      have long := ih.2 node member
      rw [isKey, List.length_append, List.length_singleton]
      omega
  rw [levelsTo, List.map_flatMap]
  refine List.nodup_flatMap.mpr ⟨fun level _ => (perLevel level).1, ?_⟩
  refine List.nodup_range.pairwise_of_forall_ne ?_
  intro first _ second _ differ
  refine List.disjoint_left.mpr ?_
  intro shared inFirst inSecond
  obtain ⟨node, member, rfl⟩ := List.mem_map.mp inFirst
  obtain ⟨other, member', same⟩ := List.mem_map.mp inSecond
  have long := (perLevel first).2 node member
  have long' := (perLevel second).2 other member'
  rw [same] at long'
  omega

end Order

theorem levelWalk_visits {maxVisits : Nat} {tooDeep tooWide : Err}
    {level : List Node → Acc → Except Err (List Node × Acc)} {children : Node → List Node}
    {visit : Acc → Node → Acc} (reads : ∀ frontier acc,
      level frontier acc = .ok (frontier.flatMap children, frontier.foldl visit acc)) {visits : Nat}
    {acc out : Acc}
    (run : levelWalk maxVisits tooDeep tooWide level depth visits frontier acc = .ok out) :
    ∃ reached ≤ depth, levelAt children reached frontier = [] ∧
      out = (levelsTo children reached frontier).foldl visit acc := by
  refine levelWalk_rec (P := fun depth frontier acc out => ∃ reached ≤ depth,
    levelAt children reached frontier = [] ∧
      out = (levelsTo children reached frontier).foldl visit acc)
    ?_ ?_ depth visits frontier acc out run
  · intro depth acc
    exact ⟨0, Nat.zero_le depth, rfl, rfl⟩
  · intro depth frontier next acc acc' out _ read ih
    rw [reads, Except.ok.injEq, Prod.mk.injEq] at read
    obtain ⟨rfl, rfl⟩ := read
    obtain ⟨reached, within, ends, visited⟩ := ih
    refine ⟨reached + 1, Nat.succ_le_succ within, ends, ?_⟩
    rw [levelsTo_succ, List.foldl_append]
    exact visited

end Nanofile.Lib
