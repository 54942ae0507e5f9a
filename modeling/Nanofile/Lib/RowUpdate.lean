import Mathlib.Data.List.Nodup

/-!
# Rewriting rows under a unique index

A statement that rewrites rows visits them one after the other and gives up, with the
table as it was, at the first row whose new key another row holds.
-/

set_option autoImplicit false

namespace Nanofile.Lib.RowUpdate

universe u v

variable {Row : Type u} {Key : Type v} [DecidableEq Key]

/-- `UPDATE` over the rows that are left, after those that are done. -/
def updateRows (key : Row → Key) (touches : Row → Bool) (rewrite : Row → Row) :
    List Row → List Row → Option (List Row)
  | done, [] => some done
  | done, row :: rest =>
    if touches row then
      if (done ++ rest).any fun other => key other = key (rewrite row) then none
      else updateRows key touches rewrite (done ++ [rewrite row]) rest
    else updateRows key touches rewrite (done ++ [row]) rest

def updated (touches : Row → Bool) (rewrite : Row → Row) (row : Row) : Row :=
  if touches row then rewrite row else row

/-- No other row holds the new key of a row that is rewritten, unless it was rewritten
itself before. -/
def Unclashing (key : Row → Key) (touches : Row → Bool) (rewrite : Row → Row)
    (rows : List Row) : Prop :=
  ∀ before row after, rows = before ++ row :: after → touches row = true →
    (∀ other ∈ before, touches other = false → key other ≠ key (rewrite row)) ∧
      ∀ other ∈ after, key other ≠ key (rewrite row)

variable {key : Row → Key} {touches : Row → Bool} {rewrite : Row → Row} {done rest rows : List Row}

theorem updateRows_eq_map (ran : updateRows key touches rewrite done rest = some rows) :
    rows = done ++ rest.map (updated touches rewrite) := by
  induction rest generalizing done with
  | nil =>
    cases ran
    simp
  | cons row rest ih =>
    rw [updateRows] at ran
    split at ran
    · rename_i touched
      split at ran
      · cases ran
      · rw [ih ran, List.map_cons, updated, if_pos touched, List.append_assoc]
        rfl
    · rename_i untouched
      rw [ih ran, List.map_cons, updated, if_neg untouched, List.append_assoc]
      rfl

/-- Whether the statement runs through is decided at the first row and then behind it. -/
theorem isSome_updateRows_cons {row : Row} :
    (updateRows key touches rewrite done (row :: rest)).isSome ↔
      (touches row = true → ∀ other ∈ done ++ rest, key other ≠ key (rewrite row)) ∧
        (updateRows key touches rewrite (done ++ [updated touches rewrite row]) rest).isSome := by
  have held_iff : (done ++ rest).any (fun other => key other = key (rewrite row)) = true ↔
      ¬ ∀ other ∈ done ++ rest, key other ≠ key (rewrite row) := by
    rw [List.any_eq_true]
    push Not
    exact exists_congr fun other => and_congr_right fun _ => decide_eq_true_iff
  rw [updateRows, updated]
  by_cases touched : touches row = true
  · rw [if_pos touched, if_pos touched]
    by_cases free : ∀ other ∈ done ++ rest, key other ≠ key (rewrite row)
    · rw [if_neg fun held => held_iff.mp held free]
      exact ⟨fun ran => ⟨fun _ => free, ran⟩, fun both => both.2⟩
    · rw [if_pos (held_iff.mpr free)]
      exact ⟨fun ran => by simp at ran, fun both => absurd (both.1 touched) free⟩
  · rw [if_neg touched, if_neg touched]
    exact ⟨fun ran => ⟨fun isTouched => absurd isTouched touched, ran⟩, fun both => both.2⟩

/-- The statement runs through when no row it rewrites meets its new key, in the rows as they
are by then. -/
theorem isSome_updateRows_iff :
    (updateRows key touches rewrite done rest).isSome ↔
      ∀ before row after, rest = before ++ row :: after → touches row = true →
        ∀ other ∈ done ++ before.map (updated touches rewrite) ++ after,
          key other ≠ key (rewrite row) := by
  induction rest generalizing done with
  | nil => simp [updateRows]
  | cons first rest ih =>
    rw [isSome_updateRows_cons, ih]
    constructor
    · rintro ⟨free, later⟩ before row after split touched
      cases before with
      | nil =>
        obtain ⟨rfl, rfl⟩ := List.cons.inj split
        simpa using free touched
      | cons _ before =>
        obtain ⟨rfl, split'⟩ := List.cons.inj split
        simpa using later before row after split' touched
    · intro clear
      refine ⟨fun touched => ?_, fun before row after split touched => ?_⟩
      · simpa using clear [] first rest rfl touched
      · simpa using clear (first :: before) row after (by rw [split]; rfl) touched

/-- Which rows stand in the way can be told from the table as it was, where rows of one new key
had one key. -/
theorem updateRows_eq_some_iff {rows' : List Row} (unique : (rows.map key).Nodup)
    (injective : ∀ row ∈ rows, ∀ other ∈ rows, touches row = true → touches other = true →
      key (rewrite row) = key (rewrite other) → key row = key other) :
    updateRows key touches rewrite [] rows = some rows' ↔
      rows' = rows.map (updated touches rewrite) ∧ Unclashing key touches rewrite rows := by
  have ran_iff : (updateRows key touches rewrite [] rows).isSome ↔
      Unclashing key touches rewrite rows := by
    rw [isSome_updateRows_iff]
    constructor
    · intro clear before row after split touched
      have free := clear before row after split touched
      refine ⟨fun other listed untouched => ?_, fun other listed => free other (by simp [listed])⟩
      refine free other (List.mem_append_left _ (List.mem_map.mpr ⟨other, listed, ?_⟩))
      rw [updated, if_neg (by simp [untouched])]
    · intro unclashing before row after split touched other listed
      obtain ⟨notBefore, notAfter⟩ := unclashing before row after split touched
      rcases List.mem_append.mp listed with done | later
      · obtain ⟨old, listed', rfl⟩ := List.mem_map.mp done
        rw [updated]
        split_ifs with isTouched
        · -- a row rewritten before would have had the key of this one
          intro same
          have oldListed : old ∈ rows := by simp [split, listed']
          have same' := injective old oldListed row (by simp [split]) isTouched touched same
          rw [split, List.map_append, List.map_cons] at unique
          exact List.disjoint_of_nodup_append unique (List.mem_map_of_mem listed')
            (by rw [same']; exact List.mem_cons_self)
        · exact notBefore old listed' (by simpa using isTouched)
      · exact notAfter other later
  rw [← ran_iff]
  constructor
  · intro ran
    exact ⟨updateRows_eq_map ran, by rw [ran]; rfl⟩
  · rintro ⟨rfl, ran⟩
    obtain ⟨rows'', ran'⟩ := Option.isSome_iff_exists.mp ran
    rw [ran', updateRows_eq_map ran']
    rfl

theorem updateRows_congr {touches' : Row → Bool} {rewrite' : Row → Row}
    (same : ∀ row ∈ rest, touches row = touches' row ∧
      (touches row = true → rewrite row = rewrite' row)) :
    updateRows key touches rewrite done rest = updateRows key touches' rewrite' done rest := by
  induction rest generalizing done with
  | nil => rfl
  | cons row rest ih =>
    obtain ⟨sameTouch, sameRewrite⟩ := same row List.mem_cons_self
    have below := fun other listed => same other (List.mem_cons_of_mem row listed)
    rw [updateRows, updateRows, ← sameTouch]
    by_cases touched : touches row = true
    · rw [if_pos touched, if_pos touched, ← sameRewrite touched, ih below]
    · rw [if_neg touched, if_neg touched, ih below]

theorem nodup_of_updateRows (ran : updateRows key touches rewrite done rest = some rows)
    (unique : ((done ++ rest).map key).Nodup) : (rows.map key).Nodup := by
  induction rest generalizing done with
  | nil =>
    cases ran
    simpa using unique
  | cons row rest ih =>
    rw [updateRows] at ran
    split at ran
    · split at ran
      · cases ran
      · rename_i free
        refine ih ran ?_
        have others : ((done ++ rest).map key).Nodup :=
          unique.sublist ((List.Sublist.append_left (List.sublist_cons_self row rest) done).map key)
        have absent : key (rewrite row) ∉ (done ++ rest).map key := by
          intro listed
          obtain ⟨other, listed', same⟩ := List.mem_map.mp listed
          exact free (List.any_eq_true.mpr ⟨other, listed', by simpa using same⟩)
        rw [List.append_assoc, List.singleton_append]
        exact (List.perm_middle.map key).nodup_iff.mpr (List.nodup_cons.mpr ⟨absent, others⟩)
    · exact ih ran (by simpa using unique)

end Nanofile.Lib.RowUpdate
