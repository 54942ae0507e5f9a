import Mathlib.Data.List.TakeDrop

/-!
# Cutting a byte string at content-defined boundaries

A cut rule looks for the first boundary at or after a minimum length and cuts at a
maximum length otherwise.  Whether a position is a boundary depends on nothing after
it, so the cuts of a string are unique and can be found from a growing part of it.
-/

set_option autoImplicit false

namespace Nanofile.Lib

universe u

structure CutRule (Byte : Type u) where
  min : Nat
  max : Nat
  /-- Position `position` of the string is the last one of a chunk. -/
  boundary : List Byte → Nat → Prop
  min_pos : 0 < min
  min_le_max : min ≤ max
  causal : ∀ {bytes more position}, min ≤ position + 1 → position < bytes.length →
    (boundary (bytes ++ more) position ↔ boundary bytes position)

namespace CutRule

variable {Byte : Type u}

structure IsCut (rule : CutRule Byte) (bytes : List Byte) (length : Nat) : Prop where
  min_le : rule.min ≤ length
  le_max : length ≤ rule.max
  inside : length ≤ bytes.length
  before : ∀ position, rule.min ≤ position + 1 → position + 1 < length →
    ¬ rule.boundary bytes position
  last : rule.boundary bytes (length - 1) ∨ length = rule.max ∨ length = bytes.length

/-- The chunks of a string.  A rest of at most the minimum is one chunk. -/
inductive Cuts (rule : CutRule Byte) : List Byte → List (List Byte) → Prop
  | nil : Cuts rule [] []
  | tail {bytes : List Byte} (nonempty : bytes ≠ []) (short : bytes.length ≤ rule.min) :
      Cuts rule bytes [bytes]
  | cut {bytes : List Byte} {length : Nat} {chunks : List (List Byte)}
      (long : rule.min < bytes.length) (isCut : rule.IsCut bytes length)
      (rest : Cuts rule (bytes.drop length) chunks) :
      Cuts rule bytes (bytes.take length :: chunks)

variable {rule : CutRule Byte} {bytes : List Byte}

theorem IsCut.le {first second : Nat} (isFirst : rule.IsCut bytes first)
    (isSecond : rule.IsCut bytes second) : second ≤ first := by
  have positive := rule.min_pos
  have least := isFirst.min_le
  by_contra beyond
  rcases isFirst.last with boundary | atMax | atEnd
  · have last : first - 1 + 1 = first := by omega
    exact isSecond.before (first - 1) (by omega) (by omega) boundary
  · have most := isSecond.le_max
    omega
  · have within := isSecond.inside
    omega

theorem IsCut.unique {first second : Nat} (isFirst : rule.IsCut bytes first)
    (isSecond : rule.IsCut bytes second) : first = second :=
  Nat.le_antisymm (isSecond.le isFirst) (isFirst.le isSecond)

theorem Cuts.unique {first second : List (List Byte)} (isFirst : rule.Cuts bytes first)
    (isSecond : rule.Cuts bytes second) : first = second := by
  induction isFirst generalizing second with
  | nil =>
    cases isSecond with
    | nil => rfl
    | tail nonempty _ => exact absurd rfl nonempty
    | cut long _ _ => simp at long
  | tail nonempty short =>
    cases isSecond with
    | nil => exact absurd rfl nonempty
    | tail _ _ => rfl
    | cut long _ _ => omega
  | cut long isCut _ ih =>
    cases isSecond with
    | nil => simp at long
    | tail _ short => omega
    | cut _ isCut' rest' =>
      cases isCut.unique isCut'
      rw [ih rest']

theorem Cuts.flatten {chunks : List (List Byte)} (cuts : rule.Cuts bytes chunks) :
    chunks.flatten = bytes := by
  induction cuts with
  | nil => rfl
  | tail _ _ => simp
  | cut _ _ _ ih => rw [List.flatten_cons, ih, List.take_append_drop]

theorem IsCut.append {length : Nat} (isCut : rule.IsCut bytes length)
    (closed : rule.boundary bytes (length - 1) ∨ length = rule.max) (more : List Byte) :
    rule.IsCut (bytes ++ more) length := by
  have positive := rule.min_pos
  have least := isCut.min_le
  have within := isCut.inside
  refine ⟨least, isCut.le_max, ?_, ?_, ?_⟩
  · rw [List.length_append]
    omega
  · intro position above before
    rw [rule.causal above (by omega)]
    exact isCut.before position above before
  · refine (closed.imp_left fun boundary => ?_).imp_right Or.inl
    exact (rule.causal (by omega) (by omega)).mpr boundary

theorem Cuts.emit {length : Nat} {more : List Byte} {chunks : List (List Byte)}
    (long : rule.min < bytes.length) (isCut : rule.IsCut bytes length)
    (closed : rule.boundary bytes (length - 1) ∨ length = rule.max)
    (rest : rule.Cuts (bytes.drop length ++ more) chunks) :
    rule.Cuts (bytes ++ more) (bytes.take length :: chunks) := by
  have within := isCut.inside
  have cut := isCut.append closed more
  rw [← List.drop_append_of_le_length within] at rest
  have taken : (bytes ++ more).take length = bytes.take length :=
    List.take_append_of_le_length within
  rw [← taken]
  refine .cut ?_ cut rest
  rw [List.length_append]
  omega

end CutRule

end Nanofile.Lib
