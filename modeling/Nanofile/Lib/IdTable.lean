import Mathlib.Data.List.Nodup

/-!
# Tables with automatic ids

Rows are appended under the next id, deleted and updated by a test.  An id is never given twice,
so a row that is gone does not come back as another one.
-/

set_option autoImplicit false

namespace Nanofile.Lib

universe u

/-- Rows under an automatic id that is never given twice. -/
structure IdTable (Row : Type u) where
  rows : List Row
  nextId : Int

namespace IdTable

variable {Row : Type u}

def append (table : IdTable Row) (row : Int → Row) : IdTable Row :=
  ⟨table.rows ++ [row table.nextId], table.nextId + 1⟩

def deleteWhere (table : IdTable Row) (gone : Row → Bool) : IdTable Row :=
  { table with rows := table.rows.filter fun row => !gone row }

def updateWhere (table : IdTable Row) (chosen : Row → Bool) (update : Row → Row) : IdTable Row :=
  { table with rows := table.rows.map fun row => if chosen row then update row else row }

variable {new : Int → Row} {row : Row} {table : IdTable Row}

theorem mem_append :
    row ∈ (table.append new).rows ↔ row ∈ table.rows ∨ row = new table.nextId := by
  simp [append]

theorem mem_deleteWhere {gone : Row → Bool} :
    row ∈ (table.deleteWhere gone).rows ↔ row ∈ table.rows ∧ gone row = false := by
  simp [deleteWhere]

variable {chosen : Row → Bool} {update : Row → Row}

theorem mem_updateWhere : row ∈ (table.updateWhere chosen update).rows ↔
      ∃ old ∈ table.rows, row = if chosen old then update old else old := by
  rw [updateWhere, List.mem_map]
  exact exists_congr fun old => and_congr_right fun _ => eq_comm

/-- Ids are different and were given by the table. -/
structure Ids (idOf : Row → Int) (table : IdTable Row) : Prop where
  below : ∀ row ∈ table.rows, idOf row < table.nextId
  distinct : (table.rows.map idOf).Nodup

variable {idOf : Row → Int} {table : IdTable Row}

theorem Ids.append (ids : Ids idOf table) (given : ∀ id, idOf (new id) = id) :
    Ids idOf (table.append new) := by
  constructor
  · intro row listed
    show idOf row < table.nextId + 1
    rcases mem_append.mp listed with old | rfl
    · have before := ids.below row old
      omega
    · rw [given]
      omega
  · show ((table.rows ++ [new table.nextId]).map idOf).Nodup
    rw [List.map_append]
    refine List.nodup_append.mpr ⟨ids.distinct, List.nodup_singleton _, ?_⟩
    intro id listed other isNew
    obtain ⟨row, member, rfl⟩ := List.mem_map.mp listed
    have before := ids.below row member
    rw [List.map_singleton, List.mem_singleton, given] at isNew
    omega

theorem Ids.deleteWhere (ids : Ids idOf table) (gone : Row → Bool) :
    Ids idOf (table.deleteWhere gone) := by
  constructor
  · intro row listed
    exact ids.below row (mem_deleteWhere.mp listed).1
  · exact ids.distinct.sublist ((List.filter_sublist).map idOf)

theorem Ids.updateWhere (ids : Ids idOf table) (kept : ∀ row, idOf (update row) = idOf row) :
    Ids idOf (table.updateWhere chosen update) := by
  have same : (table.updateWhere chosen update).rows.map idOf = table.rows.map idOf := by
    rw [IdTable.updateWhere, List.map_map]
    refine List.map_congr_left fun row _ => ?_
    by_cases isChosen : chosen row = true
    · simp [isChosen, kept]
    · simp [isChosen]
  constructor
  · intro row listed
    obtain ⟨old, member, rfl⟩ := mem_updateWhere.mp listed
    show idOf _ < table.nextId
    split
    · rw [kept]
      exact ids.below old member
    · exact ids.below old member
  · rw [same]
    exact ids.distinct

theorem Ids.eq_of_id (ids : Ids idOf table) {first second : Row} (listed : first ∈ table.rows)
    (listed' : second ∈ table.rows) (same : idOf first = idOf second) : first = second :=
  List.inj_on_of_nodup_map ids.distinct listed listed' same

end IdTable

end Nanofile.Lib
