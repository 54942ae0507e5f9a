import Mathlib.Data.List.Nodup

/-!
# Keyed tables with insert-or-ignore

A table is a list of keyed rows under a unique index: a lookup answers with the
row of a key, an insert of a taken key is ignored, and a delete drops every row
whose key fails a test.  `Extends` is the order in which a table only grows.
-/

set_option autoImplicit false

namespace Nanofile.Lib

universe u v

variable {Row : Type u} {Key : Type v}

theorem find?_key_iff [DecidableEq Key] (key : Row → Key)
    {rows : List Row} (unique : (rows.map key).Nodup) {wanted : Key} {row : Row} :
    rows.find? (fun other => key other = wanted) = some row ↔
      row ∈ rows ∧ key row = wanted := by
  constructor
  · intro found
    have named := List.find?_some found
    exact ⟨List.mem_of_find?_eq_some found, by simpa using named⟩
  · rintro ⟨listed, rfl⟩
    cases found : rows.find? fun other => key other = key row with
    | none =>
      have absent := List.find?_eq_none.mp found row listed
      simp at absent
    | some other =>
      have named := List.find?_some found
      have listed' := List.mem_of_find?_eq_some found
      exact congrArg some
        (List.inj_on_of_nodup_map unique listed' listed (by simpa using named))

theorem find?_filter_not {dropped wanted : Row → Bool} (rows : List Row)
    (apart : ∀ row, wanted row = true → dropped row = false) :
    (rows.filter fun row => !dropped row).find? wanted = rows.find? wanted := by
  rw [List.find?_filter]
  congr 1
  funext row
  cases isWanted : wanted row with
  | false => simp
  | true => simp [apart row isWanted]

/-- A key is found after rows of another were dropped when it was found and is not that one. -/
theorem isSome_find?_filter_ne [DecidableEq Key] (key : Row → Key)
    (rows : List Row) (dropped wanted : Key) :
    ((rows.filter fun row => key row ≠ dropped).find? fun row => key row = wanted).isSome = true ↔
      (rows.find? fun row => key row = wanted).isSome = true ∧ wanted ≠ dropped := by
  rw [List.find?_isSome, List.find?_isSome]
  constructor
  · rintro ⟨row, listed, isWanted⟩
    obtain ⟨listed, kept⟩ := List.mem_filter.mp listed
    refine ⟨⟨row, listed, isWanted⟩, ?_⟩
    rw [← of_decide_eq_true isWanted]
    exact of_decide_eq_true kept
  · rintro ⟨⟨row, listed, isWanted⟩, apart⟩
    refine ⟨row, List.mem_filter.mpr ⟨listed, decide_eq_true ?_⟩, isWanted⟩
    rw [of_decide_eq_true isWanted]
    exact apart

theorem isSome_find?_concat [DecidableEq Key] (key : Row → Key)
    (rows : List Row) (row : Row) (wanted : Key) :
    ((rows ++ [row]).find? fun other => key other = wanted).isSome = true ↔
      (rows.find? fun other => key other = wanted).isSome = true ∨ wanted = key row := by
  rw [List.find?_append, Option.isSome_or, Bool.or_eq_true, List.find?_singleton]
  refine or_congr_right ?_
  by_cases same : key row = wanted
  · simp [same]
  · simp [same, Ne.symm same]

theorem find?_filter_ne_of_ne [DecidableEq Key] (key : Row → Key)
    (rows : List Row) {dropped wanted : Key} (apart : wanted ≠ dropped) :
    (rows.filter fun row => key row ≠ dropped).find? (fun row => key row = wanted) =
      rows.find? fun row => key row = wanted := by
  rw [List.find?_filter]
  congr 1
  funext row
  by_cases isWanted : key row = wanted
  · simp [isWanted, apart]
  · simp [isWanted]

theorem find?_concat_of_ne [DecidableEq Key] (key : Row → Key)
    (rows : List Row) {row : Row} {wanted : Key} (apart : wanted ≠ key row) :
    (rows ++ [row]).find? (fun other => key other = wanted) =
      rows.find? fun other => key other = wanted := by
  rw [List.find?_append, List.find?_singleton]
  simp [Ne.symm apart]

structure Table (Key : Type u) (Row : Type v) where
  rows : List (Key × Row)
deriving DecidableEq, Repr

namespace Table

variable {Key : Type u} {Row : Type v} [DecidableEq Key]

def empty : Table Key Row := ⟨[]⟩

def find (table : Table Key Row) (key : Key) : Option Row :=
  (table.rows.find? fun row => row.1 = key).map Prod.snd

def insertOrIgnore (table : Table Key Row) (key : Key) (row : Row) :
    Table Key Row :=
  if (table.find key).isSome then table else ⟨table.rows ++ [(key, row)]⟩

def keepKeys (table : Table Key Row) (keep : Key → Bool) : Table Key Row :=
  ⟨table.rows.filter fun row => keep row.1⟩

def keys (table : Table Key Row) : List Key := table.rows.map Prod.fst

def Extends (before after : Table Key Row) : Prop :=
  ∀ key row, before.find key = some row → after.find key = some row

@[simp] theorem find_empty (key : Key) :
    (empty : Table Key Row).find key = none := rfl

theorem Extends.refl (table : Table Key Row) : Extends table table :=
  fun _ _ found => found

theorem Extends.trans {first second third : Table Key Row}
    (left : Extends first second) (right : Extends second third) :
    Extends first third :=
  fun key row found => right key row (left key row found)

theorem find_insertOrIgnore_self (table : Table Key Row) (key : Key) (row : Row) :
    (table.insertOrIgnore key row).find key = some ((table.find key).getD row) := by
  unfold insertOrIgnore
  cases found : table.find key with
  | some present => simp [found]
  | none =>
    simp only [find, Option.map_eq_none_iff] at found
    simp [find, found]

theorem find_insertOrIgnore_of_ne (table : Table Key Row) {key other : Key}
    (row : Row) (different : other ≠ key) :
    (table.insertOrIgnore key row).find other = table.find other := by
  unfold insertOrIgnore
  split
  · rfl
  · simp [find, List.find?_append, Ne.symm different]

theorem extends_insertOrIgnore (table : Table Key Row) (key : Key) (row : Row) :
    Extends table (table.insertOrIgnore key row) := by
  intro other present found
  by_cases same : other = key
  · subst same
    rw [find_insertOrIgnore_self, found]
    rfl
  · rw [find_insertOrIgnore_of_ne table row same]
    exact found

theorem find_insertOrIgnore_cases {table : Table Key Row} {key other : Key}
    {row present : Row}
    (found : (table.insertOrIgnore key row).find other = some present) :
    table.find other = some present ∨ (other = key ∧ present = row) := by
  by_cases same : other = key
  · subst same
    rw [find_insertOrIgnore_self] at found
    cases before : table.find other with
    | none =>
      rw [before] at found
      exact Or.inr ⟨rfl, (Option.some.inj found).symm⟩
    | some kept =>
      rw [before] at found
      exact Or.inl found
  · rw [find_insertOrIgnore_of_ne table row same] at found
    exact Or.inl found

theorem find_keepKeys (table : Table Key Row) (keep : Key → Bool) (key : Key) :
    (table.keepKeys keep).find key =
      if keep key then table.find key else none := by
  obtain ⟨rows⟩ := table
  simp only [keepKeys, find, List.find?_filter]
  induction rows with
  | nil => simp
  | cons row rest ih =>
    by_cases same : row.1 = key
    · cases kept : keep key
      · simp only [kept] at ih
        simpa [same, kept] using ih
      · simp [same, kept]
    · simpa [List.find?_cons, same] using ih

omit [DecidableEq Key] in
theorem keepKeys_true (table : Table Key Row) : table.keepKeys (fun _ => true) = table := by
  simp [keepKeys]

theorem extends_keepKeys (table : Table Key Row) (keep : Key → Bool) :
    Extends (table.keepKeys keep) table := by
  intro key row found
  rw [find_keepKeys] at found
  split at found
  · exact found
  · exact absurd found (by simp)

theorem mem_keys_iff (table : Table Key Row) (key : Key) :
    key ∈ table.keys ↔ (table.find key).isSome := by
  simp [keys, find, List.find?_isSome]

end Table

end Nanofile.Lib
