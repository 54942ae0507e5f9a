import Mathlib.Algebra.BigOperators.Group.List.Lemmas
import Mathlib.Algebra.Ring.Int.Defs
import Mathlib.Algebra.Ring.Nat

/-!
# Amounts under keys

How a sum changes with one row, and how two lists with unique keys are compared.  A ledger keeps
one amount for each key.  Amounts are credited to a key, a key is dropped with its whole amount,
and the rest of the development reads totals over sets of keys.
-/

set_option autoImplicit false

namespace Nanofile.Lib

universe u v w

section Sums

variable {Row : Type u} {Other : Type v} {Key : Type w} [DecidableEq Key]

theorem sum_map_sub (first second : Row → Int) (rows : List Row) :
    (rows.map fun row => first row - second row).sum =
      (rows.map first).sum - (rows.map second).sum := by
  induction rows with
  | nil => rfl
  | cons row rest ih =>
    simp only [List.map_cons, List.sum_cons, ih]
    omega

theorem sum_map_neg (weight : Row → Int) (rows : List Row) :
    (rows.map fun row => -weight row).sum = -(rows.map weight).sum := by
  rw [List.sum_neg, List.map_map]
  rfl

theorem sum_map_set (weight : Row → Int) {rows : List Row} {index : Nat} {old : Row}
    (found : rows[index]? = some old) (new : Row) :
    ((rows.set index new).map weight).sum = (rows.map weight).sum - weight old + weight new := by
  induction rows generalizing index with
  | nil => simp at found
  | cons row rest ih =>
    cases index with
    | zero =>
      simp only [List.getElem?_cons_zero, Option.some.injEq] at found
      subst found
      simp only [List.set_cons_zero, List.map_cons, List.sum_cons]
      omega
    | succ index =>
      have rest' := ih (by simpa using found)
      simp only [List.set_cons_succ, List.map_cons, List.sum_cons, rest']
      omega

theorem sum_of_key {keys : List Key} (unique : keys.Nodup) (wanted : Key) (weight : Int) :
    (keys.map fun key => if key = wanted then weight else 0).sum =
      if wanted ∈ keys then weight else 0 := by
  induction keys with
  | nil => rfl
  | cons key rest ih =>
    obtain ⟨fresh, unique⟩ := List.nodup_cons.mp unique
    rw [List.map_cons, List.sum_cons, ih unique]
    by_cases same : key = wanted
    · subst same
      simp [fresh]
    · simp [same, Ne.symm same]

theorem sum_found_add_unfound (key : Row → Key) (key' : Other → Key) (weight : Row → Int)
    {rows : List Row} {others : List Other} (unique : (rows.map key).Nodup)
    (unique' : (others.map key').Nodup) :
    (others.map fun other =>
        ((rows.find? fun row => key row = key' other).map weight).getD 0).sum +
      ((rows.filter fun row => key row ∉ others.map key').map weight).sum =
    (rows.map weight).sum := by
  induction rows with
  | nil => simp
  | cons row rest ih =>
    obtain ⟨fresh, unique⟩ := List.nodup_cons.mp unique
    have rest' := ih unique
    -- What a key finds is this row, or what it finds in the rest.
    have splits : ∀ other, (((row :: rest).find? fun row => key row = key' other).map
          weight).getD 0 =
        (if key' other = key row then weight row else 0) +
          ((rest.find? fun row => key row = key' other).map weight).getD 0 := by
      intro other
      by_cases same : key row = key' other
      · have unfound : rest.find? (fun row => key row = key' other) = none := by
          apply List.find?_eq_none.mpr
          intro found listed isKey
          apply fresh
          rw [same, ← of_decide_eq_true isKey]
          exact List.mem_map_of_mem listed
        rw [List.find?_cons_of_pos (by simpa using same), unfound, if_pos same.symm]
        simp
      · rw [List.find?_cons_of_neg (by simpa using same), if_neg (Ne.symm same)]
        simp
    have counted := sum_of_key unique' (key row) (weight row)
    rw [List.map_map] at counted
    simp only [splits, List.sum_map_add, List.map_cons, List.sum_cons, List.filter_cons]
    simp only [Function.comp_def] at counted
    rw [counted]
    by_cases listed : key row ∈ others.map key'
    · simp only [listed, if_true, not_true_eq_false, decide_false, Bool.false_eq_true, if_false]
      omega
    · simp only [listed, if_false, not_false_eq_true, decide_true, if_true, List.map_cons,
        List.sum_cons]
      omega

end Sums

structure Ledger (Key : Type u) where
  rows : List (Key × Int)
  unique : (rows.map Prod.fst).Nodup

namespace Ledger

variable {Key : Type u}

def empty : Ledger Key := ⟨[], List.nodup_nil⟩

def keys (ledger : Ledger Key) : List Key := ledger.rows.map Prod.fst

def total (ledger : Ledger Key) (counts : Key → Bool) : Int :=
  (ledger.rows.map fun row => if counts row.1 then row.2 else 0).sum

def keepPositive (ledger : Ledger Key) : Ledger Key where
  rows := ledger.rows.filter fun row => 0 < row.2
  unique := ledger.unique.sublist (List.filter_sublist.map Prod.fst)

@[simp] theorem total_empty (counts : Key → Bool) : (empty : Ledger Key).total counts = 0 := rfl

variable [DecidableEq Key]

def drop (ledger : Ledger Key) (key : Key) : Ledger Key where
  rows := ledger.rows.filter fun row => row.1 ≠ key
  unique := ledger.unique.sublist (List.filter_sublist.map Prod.fst)

def creditRow (key : Key) (amount : Int) (row : Key × Int) : Key × Int :=
  if row.1 = key then (row.1, row.2 + amount) else row

@[simp] theorem creditRow_fst (key : Key) (amount : Int) (row : Key × Int) :
    (creditRow key amount row).1 = row.1 := by
  unfold creditRow
  split <;> rfl

def credit (ledger : Ledger Key) (key : Key) (amount : Int) : Ledger Key :=
  if fresh : key ∉ ledger.keys then
    { rows := ledger.rows ++ [(key, amount)]
      unique := by
        rw [List.map_append, List.map_singleton]
        exact List.nodup_append.mpr ⟨ledger.unique, List.nodup_singleton _, by
          rintro other listed _ isKey rfl
          rw [List.mem_singleton] at isKey
          subst isKey
          exact fresh listed⟩ }
  else
    { rows := ledger.rows.map (creditRow key amount)
      unique := by
        simpa [Function.comp_def] using ledger.unique }

variable {amount : Int} {rows : List (Key × Int)}

theorem map_creditRow_of_notMem {key : Key} (absent : key ∉ rows.map Prod.fst) :
    rows.map (creditRow key amount) = rows := by
  induction rows with
  | nil => rfl
  | cons row rest ih =>
    rw [List.map_cons, List.mem_cons, not_or] at absent
    rw [List.map_cons, ih absent.2, creditRow, if_neg (Ne.symm absent.1)]

theorem sum_creditRow (counts : Key → Bool) {key : Key} (unique : (rows.map Prod.fst).Nodup)
    (present : key ∈ rows.map Prod.fst) :
    ((rows.map (creditRow key amount)).map fun row => if counts row.1 then row.2 else 0).sum =
      (rows.map fun row => if counts row.1 then row.2 else 0).sum +
        if counts key then amount else 0 := by
  induction rows with
  | nil => simp at present
  | cons row rest ih =>
    rw [List.map_cons, List.nodup_cons] at unique
    rw [List.map_cons, List.mem_cons] at present
    simp only [List.map_cons, List.sum_cons]
    by_cases here : row.1 = key
    · subst here
      rw [map_creditRow_of_notMem unique.1, creditRow, if_pos rfl]
      split <;> omega
    · have later := ih unique.2 (present.resolve_left (Ne.symm here))
      rw [later, creditRow, if_neg here]
      omega

theorem total_credit (ledger : Ledger Key) (key : Key) (amount : Int) (counts : Key → Bool) :
    (ledger.credit key amount).total counts =
      ledger.total counts + if counts key then amount else 0 := by
  unfold credit
  by_cases fresh : key ∉ ledger.keys
  · rw [dif_pos fresh]
    simp [total]
  · rw [dif_neg fresh]
    exact sum_creditRow counts ledger.unique (not_not.mp fresh)

theorem total_drop (ledger : Ledger Key) (key : Key) (counts : Key → Bool) :
    (ledger.drop key).total counts = ledger.total fun other => counts other && other ≠ key := by
  unfold drop total
  dsimp only
  generalize ledger.rows = rows
  induction rows with
  | nil => rfl
  | cons row rest ih =>
    by_cases here : row.1 = key
    · rw [List.filter_cons_of_neg (by simpa using here), ih]
      simp [here]
    · rw [List.filter_cons_of_pos (by simpa using here), List.map_cons, List.sum_cons, ih]
      simp [here]

theorem mem_keys_credit (ledger : Ledger Key) (key : Key) (amount : Int) (other : Key) :
    other ∈ (ledger.credit key amount).keys ↔ other ∈ ledger.keys ∨ other = key := by
  unfold credit keys
  split
  · simp
  · rename_i listed
    have listed : key ∈ ledger.rows.map Prod.fst := not_not.mp listed
    simp only [List.map_map, Function.comp_def, creditRow_fst]
    refine ⟨Or.inl, ?_⟩
    rintro (old | rfl)
    · exact old
    · exact listed

theorem mem_keys_drop (ledger : Ledger Key) (key other : Key) :
    other ∈ (ledger.drop key).keys ↔ other ∈ ledger.keys ∧ other ≠ key := by
  simp only [drop, keys, List.mem_map, List.mem_filter, decide_eq_true_eq]
  constructor
  · rintro ⟨row, ⟨listed, kept⟩, rfl⟩
    exact ⟨⟨row, listed, rfl⟩, kept⟩
  · rintro ⟨⟨row, listed, rfl⟩, kept⟩
    exact ⟨row, ⟨listed, kept⟩, rfl⟩

omit [DecidableEq Key] in
/-- Every row has something left. -/
def Positive (ledger : Ledger Key) : Prop := ∀ row ∈ ledger.rows, 0 < row.2

omit [DecidableEq Key] in
theorem positive_empty : (empty : Ledger Key).Positive := nofun

omit [DecidableEq Key] in
theorem sum_ifs_nonneg (counts : Key → Bool) (positive : ∀ row ∈ rows, 0 < row.2) :
    0 ≤ (rows.map fun row => if counts row.1 then row.2 else 0).sum := by
  induction rows with
  | nil => exact Int.le_refl 0
  | cons row rest ih =>
    have had := positive row List.mem_cons_self
    have rest' := ih fun other listed => positive other (List.mem_cons_of_mem row listed)
    rw [List.map_cons, List.sum_cons]
    split <;> omega

end Ledger

end Nanofile.Lib
