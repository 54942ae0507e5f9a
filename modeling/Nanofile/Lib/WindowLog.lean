import Mathlib.Data.List.Induction
import Nanofile.Lib.Table

/-!
# Logs of times under a moving window

A log keeps when something happened under a key.  Readers look only behind a cutoff that never
goes back, so the times before it may be dropped at any moment, and a log that was trimmed answers
like the whole history.
-/

set_option autoImplicit false

namespace Nanofile.Lib

universe u v

/-- `retain(|&t| t > cutoff)`. -/
def timesAfter (cutoff : Int) (times : List Int) : List Int :=
  times.filter fun time => cutoff < time

@[simp] theorem timesAfter_nil (cutoff : Int) : timesAfter cutoff [] = [] := rfl

@[simp] theorem timesAfter_append (cutoff : Int) (first second : List Int) :
    timesAfter cutoff (first ++ second) = timesAfter cutoff first ++ timesAfter cutoff second :=
  List.filter_append ..

theorem timesAfter_timesAfter {cutoff later : Int} (le : cutoff ≤ later) (times : List Int) :
    timesAfter later (timesAfter cutoff times) = timesAfter later times := by
  unfold timesAfter
  rw [List.filter_filter]
  refine List.filter_congr fun time _ => ?_
  by_cases after : later < time
  · simp [after, Int.lt_of_le_of_lt le after]
  · simp [after]

/-- No reader from the cutoff on tells the two apart. -/
def SameAfter (cutoff : Int) (kept whole : List Int) : Prop :=
  ∀ later, cutoff ≤ later → timesAfter later kept = timesAfter later whole

namespace SameAfter

variable {cutoff later : Int} {kept whole : List Int}

theorem refl (cutoff : Int) (times : List Int) : SameAfter cutoff times times := fun _ _ => rfl

theorem mono (same : SameAfter cutoff kept whole) (le : cutoff ≤ later) :
    SameAfter later kept whole :=
  fun last after => same last (Int.le_trans le after)

theorem trim (same : SameAfter cutoff kept whole) (le : cutoff ≤ later) :
    SameAfter later (timesAfter later kept) whole := by
  intro last after
  rw [timesAfter_timesAfter after]
  exact same last (Int.le_trans le after)

theorem append (same : SameAfter cutoff kept whole) (more : List Int) :
    SameAfter cutoff (kept ++ more) (whole ++ more) := by
  intro last after
  rw [timesAfter_append, timesAfter_append, same last after]

end SameAfter

namespace Table

variable {Key : Type u} {Row : Type v} [DecidableEq Key]

def put (table : Table Key Row) (key : Key) (row : Row) : Table Key Row :=
  ⟨(table.keepKeys fun other => other ≠ key).rows ++ [(key, row)]⟩

theorem find_put_self (table : Table Key Row) (key : Key) (row : Row) :
    (table.put key row).find key = some row := by
  have absent : ((table.keepKeys fun other => other ≠ key).rows.find? fun other => other.1 = key) =
      none := by
    refine List.find?_eq_none.mpr fun other listed => ?_
    have kept := (List.mem_filter.mp listed).2
    simpa using kept
  unfold put find
  rw [List.find?_append, absent, Option.none_or, List.find?_singleton]
  simp

theorem find_put_of_ne (table : Table Key Row) {key other : Key} (row : Row) (apart : other ≠ key) :
    (table.put key row).find other = table.find other := by
  have kept := find_keepKeys table (fun name => name ≠ key) other
  rw [if_pos (by simpa using apart)] at kept
  rw [← kept]
  simp [put, find, List.find?_append, Ne.symm apart]

variable {table : Table Key Row}

theorem keys_put_nodup (unique : table.keys.Nodup) (key : Key) (row : Row) :
    (table.put key row).keys.Nodup := by
  have kept : (table.keepKeys fun other => other ≠ key).keys.Nodup :=
    unique.sublist (List.filter_sublist.map Prod.fst)
  have absent : key ∉ (table.keepKeys fun other => other ≠ key).keys := by
    rw [mem_keys_iff, find_keepKeys]
    simp
  unfold put keys
  rw [List.map_append]
  exact kept.append (List.nodup_singleton _) (by simpa [List.disjoint_singleton] using absent)

variable {row : Row}

theorem find_eq_some_iff (unique : table.keys.Nodup) {key : Key} :
    table.find key = some row ↔ (key, row) ∈ table.rows := by
  unfold find
  rw [Option.map_eq_some_iff]
  constructor
  · rintro ⟨found, isFound, rfl⟩
    obtain ⟨listed, rfl⟩ := (find?_key_iff Prod.fst unique).mp isFound
    exact listed
  · exact fun listed => ⟨(key, row), (find?_key_iff Prod.fst unique).mpr ⟨listed, rfl⟩, rfl⟩

/-- The rows that are put, the last of a key counting. -/
def putAll (table : Table Key Row) (rows : List (Key × Row)) : Table Key Row :=
  rows.foldl (fun table row => table.put row.1 row.2) table

theorem keys_putAll_nodup (unique : table.keys.Nodup) (rows : List (Key × Row)) :
    (table.putAll rows).keys.Nodup := by
  induction rows generalizing table with
  | nil => exact unique
  | cons row rest ih => exact ih (keys_put_nodup unique row.1 row.2)

theorem find_putAll {rows : List (Key × Row)}
    (agree : ∀ key row row', (key, row) ∈ rows → (key, row') ∈ rows → row = row') {key : Key} :
    (empty.putAll rows).find key = some row ↔ (key, row) ∈ rows := by
  induction rows using List.reverseRecOn with
  | nil => simp [putAll]
  | append_singleton rows last ih =>
    have below := ih fun key row row' listed listed' =>
      agree key row row' (List.mem_append_left _ listed) (List.mem_append_left _ listed')
    have isLast : last ∈ rows ++ [last] := by simp
    have stepped : (empty : Table Key Row).putAll (rows ++ [last]) =
        (empty.putAll rows).put last.1 last.2 := by
      rw [putAll, List.foldl_append]
      rfl
    rw [stepped]
    by_cases same : key = last.1
    · subst same
      rw [find_put_self, Option.some_inj]
      constructor
      · rintro rfl
        exact isLast
      · exact fun listed => agree _ _ _ isLast listed
    · rw [find_put_of_ne _ _ same, below, List.mem_append, List.mem_singleton]
      refine ⟨Or.inl, fun listed => listed.resolve_right ?_⟩
      rintro rfl
      exact same rfl

end Table

section Logs

variable {Key : Type u} [DecidableEq Key]

def logOf (logs : Table Key (List Int)) (key : Key) : List Int := (logs.find key).getD []

theorem logOf_put_self (logs : Table Key (List Int)) (key : Key) (times : List Int) :
    logOf (logs.put key times) key = times := by
  rw [logOf, Table.find_put_self, Option.getD_some]

theorem logOf_put_of_ne (logs : Table Key (List Int)) {key other : Key} (times : List Int)
    (apart : other ≠ key) : logOf (logs.put key times) other = logOf logs other := by
  rw [logOf, Table.find_put_of_ne logs times apart, logOf]

theorem logOf_remove (logs : Table Key (List Int)) (key other : Key) :
    logOf (logs.keepKeys fun name => name ≠ key) other =
      if other = key then [] else logOf logs other := by
  rw [logOf, Table.find_keepKeys]
  by_cases same : other = key
  · simp [same]
  · simp [same, logOf]

/-- Every log of the second table is as it was, or what the cutoff leaves of it. -/
def Trims (cutoff : Int) (before after : Table Key (List Int)) : Prop :=
  ∀ key, logOf after key = logOf before key ∨
    logOf after key = timesAfter cutoff (logOf before key)

namespace Trims

variable {cutoff : Int} {first second third : Table Key (List Int)}

theorem refl (cutoff : Int) (logs : Table Key (List Int)) : Trims cutoff logs logs :=
  fun _ => Or.inl rfl

theorem trans (left : Trims cutoff first second) (right : Trims cutoff second third) :
    Trims cutoff first third := by
  intro key
  rcases left key with same | trimmed <;> rcases right key with same' | trimmed'
  · exact Or.inl (same'.trans same)
  · exact Or.inr (trimmed'.trans (by rw [same]))
  · exact Or.inr (same'.trans trimmed)
  · refine Or.inr (trimmed'.trans ?_)
    rw [trimmed, timesAfter_timesAfter (Int.le_refl cutoff)]

theorem timesAfter_eq (trims : Trims cutoff first second) {later : Int} (le : cutoff ≤ later)
    (key : Key) : timesAfter later (logOf second key) = timesAfter later (logOf first key) := by
  rcases trims key with same | trimmed
  · rw [same]
  · rw [trimmed, timesAfter_timesAfter le]

variable {logs : Table Key (List Int)}

theorem put {key : Key} {times : List Int} (left : times = timesAfter cutoff (logOf logs key)) :
    Trims cutoff logs (logs.put key times) := by
  intro other
  by_cases same : other = key
  · rw [same, logOf_put_self]
    exact Or.inr left
  · exact Or.inl (logOf_put_of_ne logs times same)

theorem remove {key : Key} (stale : timesAfter cutoff (logOf logs key) = []) :
    Trims cutoff logs (logs.keepKeys fun name => name ≠ key) := by
  intro other
  rw [logOf_remove]
  by_cases same : other = key
  · rw [if_pos same, same]
    exact Or.inr stale.symm
  · rw [if_neg same]
    exact Or.inl rfl

theorem sameAfter (trims : Trims cutoff first second) {earlier : Int} {key : Key} {whole : List Int}
    (same : SameAfter earlier (logOf first key) whole) (le : earlier ≤ cutoff) :
    SameAfter cutoff (logOf second key) whole := by
  intro later after
  rw [trims.timesAfter_eq after]
  exact same later (Int.le_trans le after)

end Trims

end Logs

end Nanofile.Lib
