import Mathlib.Algebra.BigOperators.Group.List.Basic
import Mathlib.Algebra.Ring.Nat
import Nanofile.Lib.WindowLog

/-!
# A number kept beside a table

The rows of a table weigh something, and the sum is kept by adding and subtracting what each
operation changes.  Every operation says what it does to the sum.
-/

set_option autoImplicit false

namespace Nanofile.Lib.Table

universe u v

variable {Key : Type u} {Row : Type v} [DecidableEq Key]

def values (table : Table Key Row) : List Row := table.rows.map Prod.snd

def tally (weight : Row → Nat) (table : Table Key Row) : Nat := (table.values.map weight).sum

/-- `HashMap::get_mut`, and a write. -/
def modify (table : Table Key Row) (key : Key) (f : Row → Row) : Table Key Row :=
  ⟨table.rows.map fun row => if row.1 = key then (row.1, f row.2) else row⟩

/-- `HashMap::values_mut`, and a write of each. -/
def mapValues (table : Table Key Row) (f : Row → Row) : Table Key Row :=
  ⟨table.rows.map fun row => (row.1, f row.2)⟩

def retain (table : Table Key Row) (keep : Row → Bool) : Table Key Row :=
  ⟨table.rows.filter fun row => keep row.2⟩

def remove (table : Table Key Row) (key : Key) : Table Key Row :=
  table.keepKeys fun other => other ≠ key

variable {table : Table Key Row} {key : Key} {row : Row}

theorem mem_values_of_find (found : table.find key = some row) : row ∈ table.values := by
  obtain ⟨entry, isEntry, rfl⟩ := Option.map_eq_some_iff.mp found
  exact List.mem_map_of_mem (List.mem_of_find?_eq_some isEntry)

theorem find_of_mem_values (unique : table.keys.Nodup) (listed : row ∈ table.values) :
    ∃ key, table.find key = some row := by
  obtain ⟨entry, isEntry, rfl⟩ := List.mem_map.mp listed
  exact ⟨entry.1, (find_eq_some_iff unique).mpr isEntry⟩

theorem find_remove (other : Key) :
    (table.remove key).find other = if other = key then none else table.find other := by
  rw [remove, find_keepKeys]
  by_cases same : other = key <;> simp [same]

omit [DecidableEq Key] in
theorem keys_retain_nodup (unique : table.keys.Nodup) (keep : Row → Bool) :
    (table.retain keep).keys.Nodup :=
  unique.sublist (List.filter_sublist.map Prod.fst)

theorem keys_remove_nodup (unique : table.keys.Nodup) : (table.remove key).keys.Nodup :=
  unique.sublist (List.filter_sublist.map Prod.fst)

omit [DecidableEq Key] in
theorem keys_mapValues (f : Row → Row) : (table.mapValues f).keys = table.keys := by
  simp [mapValues, keys]

theorem keys_modify (f : Row → Row) : (table.modify key f).keys = table.keys := by
  simp only [modify, keys, List.map_map]
  refine List.map_congr_left fun entry _ => ?_
  by_cases same : entry.1 = key <;> simp [same]

theorem find_mapValues (f : Row → Row) (other : Key) :
    (table.mapValues f).find other = (table.find other).map f := by
  obtain ⟨rows⟩ := table
  simp only [mapValues, find, List.find?_map, Option.map_map]
  rfl

theorem find_retain (unique : table.keys.Nodup) (keep : Row → Bool) :
    (table.retain keep).find key = some row ↔ table.find key = some row ∧ keep row = true := by
  rw [find_eq_some_iff (keys_retain_nodup unique keep), find_eq_some_iff unique, retain,
    List.mem_filter]

theorem find_modify (f : Row → Row) (other : Key) : (table.modify key f).find other =
    if other = key then (table.find key).map f else table.find other := by
  have sameKey : ((fun entry : Key × Row => decide (entry.1 = other)) ∘ fun entry =>
      if entry.1 = key then (entry.1, f entry.2) else entry) = fun entry => decide (entry.1 = other) := by
    funext entry
    by_cases here : entry.1 = key <;> simp [here]
  unfold modify find
  rw [List.find?_map, sameKey]
  cases isEntry : table.rows.find? fun entry => decide (entry.1 = other) with
  | none =>
    split
    · rename_i same
      rw [← same, isEntry]
      rfl
    · rfl
  | some entry =>
    have isKey : entry.1 = other := by simpa using List.find?_some isEntry
    split
    · rename_i same
      rw [← same, isEntry]
      simp [isKey, same]
    · rename_i apart
      simp [isKey, apart]

variable (weight : Row → Nat)

theorem rows_put_fresh (fresh : table.find key = none) (row : Row) :
    (table.put key row).rows = table.rows ++ [(key, row)] := by
  unfold put keepKeys
  rw [List.filter_eq_self.mpr]
  intro entry listed
  refine decide_eq_true fun same => ?_
  have isKey : key ∈ table.keys := same ▸ List.mem_map_of_mem listed
  rw [mem_keys_iff, fresh] at isKey
  cases isKey

theorem tally_put (fresh : table.find key = none) (row : Row) :
    (table.put key row).tally weight = table.tally weight + weight row := by
  simp [tally, values, rows_put_fresh fresh row]

theorem tally_modify (unique : table.keys.Nodup) (found : table.find key = some row)
    (f : Row → Row) : (table.modify key f).tally weight + weight row =
      table.tally weight + weight (f row) := by
  obtain ⟨rows⟩ := table
  induction rows with
  | nil => cases found
  | cons entry rest ih =>
    obtain ⟨fresh, unique⟩ := List.nodup_cons.mp unique
    unfold find at ih found
    unfold tally values modify at ih ⊢
    by_cases here : entry.1 = key
    · obtain rfl : entry.2 = row := by simpa [here] using found
      have others : (rest.map fun other => if other.1 = key then (other.1, f other.2) else other) =
          rest := by
        refine (List.map_congr_left fun other listed => if_neg fun same => fresh ?_).trans
          (List.map_id rest)
        rw [here, ← same]
        exact List.mem_map_of_mem listed
      simp only [List.map_cons, if_pos here, others, List.sum_cons]
      omega
    · have below := ih unique (by simpa [here] using found)
      simp only [List.map_cons, if_neg here, List.sum_cons] at below ⊢
      omega

theorem tally_remove (unique : table.keys.Nodup) (found : table.find key = some row) :
    (table.remove key).tally weight + weight row = table.tally weight := by
  obtain ⟨rows⟩ := table
  induction rows with
  | nil => cases found
  | cons entry rest ih =>
    obtain ⟨fresh, unique⟩ := List.nodup_cons.mp unique
    unfold find at ih found
    unfold tally values remove keepKeys at ih ⊢
    by_cases here : entry.1 = key
    · obtain rfl : entry.2 = row := by simpa [here] using found
      have others : (rest.filter fun other => decide (other.1 ≠ key)) = rest := by
        refine List.filter_eq_self.mpr fun other listed => decide_eq_true fun same => fresh ?_
        rw [here, ← same]
        exact List.mem_map_of_mem listed
      rw [List.filter_cons_of_neg (by simpa using here), others]
      simp only [List.map_cons, List.sum_cons]
      omega
    · have below := ih unique (by simpa [here] using found)
      rw [List.filter_cons_of_pos (by simpa using here)]
      simp only [List.map_cons, List.sum_cons] at below ⊢
      omega

omit [DecidableEq Key] in
theorem tally_retain (table : Table Key Row) (keep : Row → Bool) : (table.retain keep).tally weight +
    ((table.values.filter fun row => !keep row).map weight).sum = table.tally weight := by
  obtain ⟨rows⟩ := table
  induction rows with
  | nil => rfl
  | cons entry rest ih =>
    unfold tally values retain at ih ⊢
    cases kept : keep entry.2 <;>
      simp only [List.filter_cons, kept, List.map_cons, List.sum_cons, Bool.not_true,
        Bool.not_false, if_true, Bool.false_eq_true, if_false] at ih ⊢ <;> omega

omit [DecidableEq Key] in
theorem length_values (table : Table Key Row) : table.values.length = table.rows.length :=
  List.length_map ..

theorem length_remove (found : table.find key = some row) :
    (table.remove key).values.length < table.values.length := by
  rw [length_values, length_values]
  obtain ⟨entry, isEntry, -⟩ := Option.map_eq_some_iff.mp found
  refine List.length_filter_lt_length_iff_exists.mpr
    ⟨entry, List.mem_of_find?_eq_some isEntry, ?_⟩
  simpa using List.find?_some isEntry

end Nanofile.Lib.Table
