import Mathlib.Data.List.SplitBy

/-!
# Runs of equal neighbours

A list falls into maximal runs of neighbours with one key.  A reader that remembers the key
it saw last finds the first member of each run, and what it finds in a part of the list that
begins the list is how its findings in the whole list begin.
-/

set_option autoImplicit false

namespace Nanofile.Lib.Runs

universe u v

variable {Item : Type u} {Key : Type v} [DecidableEq Key]

def firstOfRuns (key : Item → Key) (items : List Item) : List Item :=
  (items.splitBy fun item next => key item = key next).filterMap List.head?

def newKeys (key : Item → Key) : Option Key → List Item → List Item
  | _, [] => []
  | last, item :: rest =>
    if last = some (key item) then newKeys key last rest
    else item :: newKeys key (some (key item)) rest

/-- The key seen last, behind some items. -/
def lastKey (key : Item → Key) (last : Option Key) (items : List Item) : Option Key :=
  (items.getLast?.map key).or last

variable {key : Item → Key}

theorem newKeys_sublist (last : Option Key) (items : List Item) :
    (newKeys key last items).Sublist items := by
  induction items generalizing last with
  | nil => exact List.Sublist.refl _
  | cons item rest ih =>
    rw [newKeys]
    split
    · exact (ih last).cons item
    · exact (ih _).cons_cons item

theorem newKeys_append (last : Option Key) (front back : List Item) :
    newKeys key last (front ++ back) =
      newKeys key last front ++ newKeys key (lastKey key last front) back := by
  induction front generalizing last with
  | nil => rfl
  | cons item rest ih =>
    have below : lastKey key last (item :: rest) = lastKey key (some (key item)) rest := by
      cases rest with
      | nil | cons next rest => rfl
    rw [List.cons_append, newKeys, newKeys, ih, ih, below]
    split
    · rename_i same
      rw [same]
    · rfl

theorem newKeys_of_run {wanted : Key} {run : List Item} (same : ∀ item ∈ run, key item = wanted)
    (back : List Item) : newKeys key (some wanted) (run ++ back) = newKeys key (some wanted) back := by
  induction run with
  | nil => rfl
  | cons item rest ih =>
    rw [List.cons_append, newKeys, if_pos (by rw [same item List.mem_cons_self])]
    exact ih fun other listed => same other (List.mem_cons_of_mem item listed)

theorem newKeys_fresh {last : Option Key} {items : List Item}
    (fresh : ∀ item ∈ items.head?, last ≠ some (key item)) :
    newKeys key last items = newKeys key none items := by
  cases items with
  | nil => rfl
  | cons item rest =>
    rw [newKeys, newKeys, if_neg (fresh item rfl), if_neg (Option.some_ne_none _).symm]

theorem newKeys_eq_firstOfRuns (items : List Item) :
    newKeys key none items = firstOfRuns key items := by
  obtain ⟨runs, isRuns⟩ : ∃ runs, items.splitBy (fun item next => key item = key next) = runs :=
    ⟨_, rfl⟩
  rw [firstOfRuns, isRuns]
  obtain ⟨rfl, nonempty, equal, apart⟩ := List.splitBy_eq_iff.mp isRuns
  clear isRuns
  induction runs with
  | nil => rfl
  | cons run runs ih =>
    cases run with
    | nil => exact absurd List.mem_cons_self nonempty
    | cons item run =>
      have sameKey : ∀ other ∈ item :: run, key other = key item := by
        have chain := equal (item :: run) List.mem_cons_self
        have pairs : (item :: run).Pairwise fun item next => key item = key next := by
          refine List.isChain_iff_pairwise.mp (chain.imp fun _ _ isSame => ?_)
          simpa using isSame
        intro other listed
        rcases List.mem_cons.mp listed with rfl | behind
        · rfl
        · exact (List.rel_of_pairwise_cons pairs behind).symm
      have fresh : ∀ next ∈ runs.flatten.head?, some (key item) ≠ some (key next) := by
        intro next isNext same
        cases runs with
        | nil => cases isNext
        | cons following runs =>
          obtain ⟨notEmpty, notEmpty', different⟩ := (List.isChain_cons_cons.mp apart).1
          have isHead : next = following.head notEmpty' := by
            rw [List.flatten_cons, List.head?_append_of_ne_nil _ notEmpty',
              List.head?_eq_some_head notEmpty'] at isNext
            exact (Option.some.inj isNext).symm
          rw [← isHead, sameKey _ (List.getLast_mem notEmpty)] at different
          exact absurd (Option.some.inj same) (by simpa using different)
      rw [List.flatten_cons, List.cons_append, newKeys, if_neg (Option.some_ne_none _).symm,
        newKeys_of_run (fun other listed => sameKey other (List.mem_cons_of_mem item listed)),
        newKeys_fresh fresh, ih (fun listed => nonempty (List.mem_cons_of_mem _ listed))
          (fun other listed => equal other (List.mem_cons_of_mem _ listed)) apart.tail]
      rfl

theorem firstOfRuns_append (front back : List Item) :
    ∃ later, firstOfRuns key (front ++ back) = firstOfRuns key front ++ later ∧
      later.Sublist back := by
  refine ⟨newKeys key (lastKey key none front) back, ?_, newKeys_sublist _ _⟩
  rw [← newKeys_eq_firstOfRuns, ← newKeys_eq_firstOfRuns, newKeys_append]

theorem map_firstOfRuns {Other : Type u} (label : Other → Item) (others : List Other) :
    (firstOfRuns (fun other => key (label other)) others).map label =
      firstOfRuns key (others.map label) := by
  rw [← newKeys_eq_firstOfRuns, ← newKeys_eq_firstOfRuns]
  generalize (none : Option Key) = last
  induction others generalizing last with
  | nil => rfl
  | cons other rest ih =>
    rw [newKeys, List.map_cons, newKeys]
    split
    · exact ih last
    · rw [List.map_cons, ih]

theorem firstOfRuns_sublist (items : List Item) : (firstOfRuns key items).Sublist items := by
  rw [← newKeys_eq_firstOfRuns]
  exact newKeys_sublist none items

/-- Leaving out the later findings is seen exactly when fewer than `limit` are left and there
are some. -/
theorem take_map_eq_iff {Shown : Type v} (shown : Item → Shown) (found later : List Item)
    (limit : Nat) :
    (found.take limit).map shown = ((found ++ later).take limit).map shown ↔
      limit ≤ found.length ∨ later = [] := by
  constructor
  · intro same
    have lengths := congrArg List.length same
    simp only [List.length_map, List.length_take, List.length_append] at lengths
    rw [← List.length_eq_zero_iff]
    omega
  · rintro (enough | rfl)
    · rw [List.take_append_of_le_length enough]
    · rw [List.append_nil]

end Nanofile.Lib.Runs
