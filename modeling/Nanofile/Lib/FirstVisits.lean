import Nanofile.Lib.LevelOrder

/-!
# Level-by-level walks that read no key twice

Nodes carry a key, and nodes of one key have children of the same keys.  A walk that keeps the
keys it has seen reads the first node of every key, in the order of the walk that reads all.
-/

set_option autoImplicit false

namespace Nanofile.Lib

universe u v w

variable {Node : Type u} {Key : Type v} [DecidableEq Key] {key : Node → Key}

def firstVisits (key : Node → Key) : List Key → List Node → List Node
  | _, [] => []
  | seen, node :: rest =>
    if key node ∈ seen then firstVisits key seen rest
    else node :: firstVisits key (key node :: seen) rest

variable {seen : List Key}

theorem firstVisits_congr {seen' : List Key} (same : ∀ wanted, wanted ∈ seen ↔ wanted ∈ seen')
    (nodes : List Node) : firstVisits key seen nodes = firstVisits key seen' nodes := by
  induction nodes generalizing seen seen' with
  | nil => rfl
  | cons node rest ih =>
    have same' : ∀ wanted, wanted ∈ key node :: seen ↔ wanted ∈ key node :: seen' := by
      intro wanted
      rw [List.mem_cons, List.mem_cons, same]
    simp only [firstVisits, same, ih same, ih same']

variable {nodes : List Node}

theorem firstVisits_of_seen (known : ∀ node ∈ nodes, key node ∈ seen) :
    firstVisits key seen nodes = [] := by
  induction nodes with
  | nil => rfl
  | cons node rest ih =>
    rw [firstVisits, if_pos (known node List.mem_cons_self)]
    exact ih fun other listed => known other (List.mem_cons_of_mem _ listed)

theorem firstVisits_append (seen : List Key) (first second : List Node) :
    firstVisits key seen (first ++ second) =
      firstVisits key seen first ++ firstVisits key (first.map key ++ seen) second := by
  induction first generalizing seen with
  | nil => rfl
  | cons node rest ih =>
    by_cases known : key node ∈ seen
    · have same : ∀ wanted, wanted ∈ rest.map key ++ seen ↔
          wanted ∈ (node :: rest).map key ++ seen := by
        intro wanted
        simp only [List.mem_append, List.map_cons, List.mem_cons]
        constructor
        · rintro (later | before)
          · exact Or.inl (Or.inr later)
          · exact Or.inr before
        · rintro ((rfl | later) | before)
          · exact Or.inr known
          · exact Or.inl later
          · exact Or.inr before
      rw [List.cons_append, firstVisits, if_pos known, firstVisits, if_pos known, ih,
        firstVisits_congr same]
    · have same : ∀ wanted, wanted ∈ rest.map key ++ key node :: seen ↔
          wanted ∈ (node :: rest).map key ++ seen := by
        intro wanted
        simp only [List.mem_append, List.map_cons, List.mem_cons]
        tauto
      rw [List.cons_append, firstVisits, if_neg known, firstVisits, if_neg known, ih,
        firstVisits_congr same, List.cons_append]

theorem mem_keys_firstVisits {wanted : Key} :
    wanted ∈ (firstVisits key seen nodes).map key ∨ wanted ∈ seen ↔
      wanted ∈ nodes.map key ∨ wanted ∈ seen := by
  induction nodes generalizing seen with
  | nil => rfl
  | cons node rest ih =>
    by_cases known : key node ∈ seen
    · rw [firstVisits, if_pos known, ih, List.map_cons, List.mem_cons, or_assoc]
      refine ⟨Or.inr, ?_⟩
      rintro (rfl | later)
      · exact Or.inr known
      · exact later
    · have inner := @ih (key node :: seen)
      rw [List.mem_cons] at inner
      rw [firstVisits, if_neg known, List.map_cons, List.mem_cons, List.map_cons, List.mem_cons]
      tauto

theorem nodup_keys_firstVisits (seen : List Key) (nodes : List Node) :
    ((firstVisits key seen nodes).map key).Nodup ∧
      ∀ wanted ∈ (firstVisits key seen nodes).map key, wanted ∉ seen := by
  induction nodes generalizing seen with
  | nil => exact ⟨List.nodup_nil, by simp [firstVisits]⟩
  | cons node rest ih =>
    by_cases known : key node ∈ seen
    · rw [firstVisits, if_pos known]
      exact ih seen
    · obtain ⟨unique, apart⟩ := ih (key node :: seen)
      rw [firstVisits, if_neg known, List.map_cons]
      refine ⟨List.nodup_cons.mpr ⟨fun again => ?_, unique⟩, ?_⟩
      · exact apart _ again List.mem_cons_self
      · intro wanted listed
        rcases List.mem_cons.mp listed with rfl | later
        · exact known
        · exact fun before => apart wanted later (List.mem_cons_of_mem _ before)

theorem mem_of_mem_firstVisits {node : Node} (first : node ∈ firstVisits key seen nodes) :
    node ∈ nodes := by
  induction nodes generalizing seen with
  | nil => exact first
  | cons other rest ih =>
    rw [firstVisits] at first
    split at first
    · exact List.mem_cons_of_mem _ (ih first)
    · rcases List.mem_cons.mp first with rfl | later
      · exact List.mem_cons_self
      · exact List.mem_cons_of_mem _ (ih later)

theorem firstVisits_flatMap {children : Node → List Node}
    (alike : ∀ node node', key node = key node' →
      (children node).map key = (children node').map key) {known : List Key}
    (below : ∀ node, key node ∈ known → ∀ child ∈ children node, key child ∈ seen)
    (nodes : List Node) :
    firstVisits key seen ((firstVisits key known nodes).flatMap children) =
      firstVisits key seen (nodes.flatMap children) := by
  induction nodes generalizing known seen with
  | nil => rfl
  | cons node rest ih =>
    rw [List.flatMap_cons, firstVisits_append]
    by_cases isKnown : key node ∈ known
    · have seenBelow := below node isKnown
      have same : ∀ wanted, wanted ∈ seen ↔ wanted ∈ (children node).map key ++ seen := by
        intro wanted
        rw [List.mem_append, List.mem_map]
        refine ⟨Or.inr, ?_⟩
        rintro (⟨child, isChild, rfl⟩ | before)
        · exact seenBelow child isChild
        · exact before
      rw [firstVisits, if_pos isKnown, firstVisits_of_seen seenBelow, List.nil_append,
        ← firstVisits_congr same, ih below]
    · rw [firstVisits, if_neg isKnown, List.flatMap_cons, firstVisits_append]
      congr 1
      refine ih fun other otherKnown child isChild => ?_
      rcases List.mem_cons.mp otherKnown with sameKey | before
      · refine List.mem_append_left _ ?_
        rw [← alike other node sameKey]
        exact List.mem_map_of_mem isChild
      · exact List.mem_append_right _ (below other before child isChild)

section Levels

variable {children : Node → List Node} {root : Node}

def firstLevel (key : Node → Key) (children : Node → List Node) (root : Node) (depth : Nat) :
    List Node :=
  firstVisits key ((levelsTo children depth [root]).map key) (levelAt children depth [root])

def firstTo (key : Node → Key) (children : Node → List Node) (root : Node) (depth : Nat) :
    List Node :=
  firstVisits key [] (levelsTo children depth [root])

theorem levelsTo_concat (children : Node → List Node) (depth : Nat) (frontier : List Node) :
    levelsTo children (depth + 1) frontier =
      levelsTo children depth frontier ++ levelAt children depth frontier := by
  rw [levelsTo, List.range_succ, List.flatMap_append, List.flatMap_singleton]
  rfl

theorem firstTo_succ (depth : Nat) : firstTo key children root (depth + 1) =
    firstTo key children root depth ++ firstLevel key children root depth := by
  rw [firstTo, levelsTo_concat, firstVisits_append, List.append_nil]
  rfl

theorem firstLevel_zero : firstLevel key children root 0 = [root] := rfl

variable {depth : Nat}

theorem firstTo_length_le {deeper : Nat} (le : depth ≤ deeper) :
    (firstTo key children root depth).length ≤ (firstTo key children root deeper).length := by
  induction le with
  | refl => exact Nat.le_refl _
  | step _ ih =>
    rw [firstTo_succ, List.length_append]
    omega

variable (alike : ∀ node node', key node = key node' →
  (children node).map key = (children node').map key)

include alike

theorem firstLevel_succ (depth : Nat) :
    firstVisits key ((levelsTo children (depth + 1) [root]).map key)
        ((firstLevel key children root depth).flatMap children) =
      firstLevel key children root (depth + 1) := by
  rw [firstLevel, firstLevel, levelAt_succ']
  refine firstVisits_flatMap alike (fun node isKnown child isChild => ?_) _
  obtain ⟨above, inside, sameKey⟩ := List.mem_map.mp isKnown
  obtain ⟨level, less, inside⟩ := mem_levelsTo.mp inside
  have isKey : key child ∈ (children above).map key := by
    rw [alike above node sameKey]
    exact List.mem_map_of_mem isChild
  obtain ⟨other, isOther, sameKey'⟩ := List.mem_map.mp isKey
  rw [← sameKey']
  refine List.mem_map_of_mem (mem_levelsTo.mpr ⟨level + 1, by omega, ?_⟩)
  rw [levelAt_succ']
  exact List.mem_flatMap.mpr ⟨above, inside, isOther⟩

theorem firstTo_of_le {reached : Nat} (ends : firstLevel key children root reached = [])
    (deeper : reached ≤ depth) : firstLevel key children root depth = [] ∧
      firstTo key children root depth = firstTo key children root reached := by
  induction deeper with
  | refl => exact ⟨ends, rfl⟩
  | step _ ih =>
    refine ⟨?_, ?_⟩
    · rw [← firstLevel_succ alike, ih.1]
      rfl
    · rw [firstTo_succ, ih.1, ih.2, List.append_nil]

theorem mem_keys_firstLevel {wanted : Key} :
    wanted ∈ ((firstLevel key children root depth).flatMap children).map key ∨
        wanted ∈ (levelsTo children (depth + 1) [root]).map key ↔
      wanted ∈ (levelsTo children (depth + 2) [root]).map key := by
  rw [← mem_keys_firstVisits, firstLevel_succ alike, firstLevel, mem_keys_firstVisits,
    levelsTo_concat children (depth + 1), List.map_append, List.mem_append, or_comm]

variable {Out : Type w} {Err : Type w} {maxVisits : Nat} {tooDeep tooWide : Err}
  {visit : Out → Node → Out}
  {level : List Node → Out × List Key → Except Err (List Node × (Out × List Key))}

/-- A level visits its frontier, goes on with the keys that are new and remembers them. -/
def ReadsFirst (key : Node → Key) (children : Node → List Node) (visit : Out → Node → Out)
    (level : List Node → Out × List Key → Except Err (List Node × (Out × List Key))) : Prop :=
  ∀ frontier out seen, ∃ seen', level frontier (out, seen) =
    .ok (firstVisits key seen (frontier.flatMap children), (frontier.foldl visit out, seen')) ∧
    ∀ wanted, wanted ∈ seen' ↔ wanted ∈ (frontier.flatMap children).map key ∨ wanted ∈ seen

variable (reads : ReadsFirst key children visit level)

include reads

theorem firstWalk_from {final : Out} {out : Out} : ∀ (depth here : Nat) {seen : List Key},
    (firstTo key children root here).length ≤ maxVisits →
    (∀ wanted, wanted ∈ seen ↔ wanted ∈ (levelsTo children (here + 1) [root]).map key) →
    ((∃ seen', levelWalk maxVisits tooDeep tooWide level depth
        (firstTo key children root here).length (firstLevel key children root here)
        ((firstTo key children root here).foldl visit out, seen) = .ok (final, seen')) ↔
      ∃ reached, here ≤ reached ∧ reached ≤ here + depth ∧
        firstLevel key children root reached = [] ∧
        (firstTo key children root reached).length ≤ maxVisits ∧
        final = (firstTo key children root reached).foldl visit out) := by
  intro depth
  induction depth with
  | zero =>
    intro here seen within isSeen
    cases isLevel : firstLevel key children root here with
    | nil =>
      constructor
      · rintro ⟨seen', run⟩
        cases run
        exact ⟨here, Nat.le_refl _, Nat.le_refl _, isLevel, within, rfl⟩
      · rintro ⟨reached, past, upTo, -, -, rfl⟩
        obtain rfl : reached = here := by omega
        exact ⟨seen, rfl⟩
    | cons node rest =>
      constructor
      · rintro ⟨seen', run⟩
        cases run
      · rintro ⟨reached, past, upTo, ends, -⟩
        obtain rfl : reached = here := by omega
        rw [isLevel] at ends
        cases ends
  | succ depth ih =>
    intro here seen within isSeen
    cases isLevel : firstLevel key children root here with
    | nil =>
      constructor
      · rintro ⟨seen', run⟩
        cases run
        exact ⟨here, Nat.le_refl _, by omega, isLevel, within, rfl⟩
      · rintro ⟨reached, past, -, -, -, rfl⟩
        rw [(firstTo_of_le alike isLevel past).2]
        exact ⟨seen, rfl⟩
    | cons node rest =>
      have later : ∀ {reached : Nat}, here ≤ reached →
          firstLevel key children root reached = [] → here + 1 ≤ reached := by
        intro reached past ends
        rcases Nat.eq_or_lt_of_le past with rfl | more
        · rw [isLevel] at ends
          cases ends
        · exact more
      have grown : (firstTo key children root (here + 1)).length =
          (firstTo key children root here).length + (node :: rest).length := by
        rw [firstTo_succ, isLevel, List.length_append]
      by_cases wide : maxVisits <
          (firstTo key children root here).length + (node :: rest).length
      · rw [levelWalk, if_pos wide]
        constructor
        · rintro ⟨seen', run⟩
          cases run
        · rintro ⟨reached, past, -, ends, short, -⟩
          have longer := @firstTo_length_le _ _ _ key children root _ _ (later past ends)
          omega
      · obtain ⟨seen', isRead, isSeen'⟩ := reads (node :: rest)
          ((firstTo key children root here).foldl visit out) seen
        have isNext : firstVisits key seen ((node :: rest).flatMap children) =
            firstLevel key children root (here + 1) := by
          rw [← firstLevel_succ alike, isLevel]
          exact firstVisits_congr isSeen _
        have isOut : (node :: rest).foldl visit
            ((firstTo key children root here).foldl visit out) =
              (firstTo key children root (here + 1)).foldl visit out := by
          rw [firstTo_succ, isLevel, List.foldl_append]
        have isSeenBelow : ∀ wanted, wanted ∈ seen' ↔
            wanted ∈ (levelsTo children (here + 1 + 1) [root]).map key := by
          intro wanted
          rw [isSeen', isSeen, ← isLevel, mem_keys_firstLevel alike]
        rw [levelWalk, if_neg wide, isRead, isNext, isOut, ← grown]
        dsimp only
        rw [ih (here + 1) (by omega) isSeenBelow]
        refine exists_congr fun reached => ⟨?_, ?_⟩
        · rintro ⟨past, upTo, ends, rest⟩
          exact ⟨by omega, by omega, ends, rest⟩
        · rintro ⟨past, upTo, ends, rest⟩
          exact ⟨later past ends, by omega, ends, rest⟩

/-- A walk ends exactly when its keys are met within its limits, and has then read the first
node of each. -/
theorem firstWalk_ok_iff {out final : Out} :
    (∃ seen, levelWalk maxVisits tooDeep tooWide level depth 0 [root] (out, [key root]) =
      .ok (final, seen)) ↔
    ∃ reached ≤ depth, firstLevel key children root reached = [] ∧
      (firstTo key children root reached).length ≤ maxVisits ∧
      final = (firstTo key children root reached).foldl visit out := by
  have isRoot : ∀ wanted, wanted ∈ [key root] ↔
      wanted ∈ (levelsTo children (0 + 1) [root]).map key := by
    intro wanted
    simp [levelsTo]
  refine Iff.trans (firstWalk_from alike reads depth 0 (Nat.zero_le _) isRoot)
    (exists_congr fun reached => ?_)
  rw [Nat.zero_add, and_iff_right (Nat.zero_le reached)]

end Levels

end Nanofile.Lib
