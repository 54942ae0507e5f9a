import Nanofile.Service.TreeUpdate

/-!
# The directories of an edited tree

An edit of one directory leaves every other directory as it was, up to the ids of the
children on the way.  Names need not be unique: a path takes the first entry of a name, and
storing a directory keeps the order of the entries of one name.
-/

set_option autoImplicit false

namespace Nanofile

open Nanofile.Lib

variable {Oid : Type}

def named (name : String) (entries : List (DirEntryData Oid)) : List (DirEntryData Oid) :=
  entries.filter fun entry => entry.name = name

theorem lookup_eq_head (entries : List (DirEntryData Oid)) (name : String) :
    lookup entries name = (named name entries).head? := by
  rw [named, List.head?_filter]
  rfl

theorem named_sorted (name : String) (entries : List (DirEntryData Oid)) :
    named name (sortDirentsDesc entries) = named name entries := by
  have inserted : ∀ (entry : DirEntryData Oid) (rest : List (DirEntryData Oid)),
      named name (rest.orderedInsert (fun first second => second.name ≤ first.name) entry) =
        named name (entry :: rest) := by
    intro entry rest
    induction rest with
    | nil => rfl
    | cons first rest ih =>
      rw [List.orderedInsert]
      split
      · rfl
      · rename_i later
        have apart : entry.name = name → first.name ≠ name := by
          intro isName same
          rw [isName, same] at later
          exact later (String.le_refl name)
        simp only [named, List.filter_cons] at ih ⊢
        rw [ih]
        by_cases isName : entry.name = name
        · simp [isName, apart isName]
        · simp [isName]
  unfold sortDirentsDesc
  induction entries with
  | nil => rfl
  | cons entry rest ih =>
    rw [List.insertionSort_cons, inserted]
    simp only [named, List.filter_cons] at ih ⊢
    rw [ih]

theorem named_stored (name : String) (entries : List (DirEntryData Oid)) :
    named name (stored entries) = (named name entries).map DirEntryData.written := by
  rw [← named_sorted name entries]
  unfold named stored
  rw [List.filter_map]
  simp [Function.comp_def]

theorem lookup_in_stored (entries : List (DirEntryData Oid)) (name : String) :
    lookup (stored entries) name = (lookup entries name).map DirEntryData.written := by
  rw [lookup_eq_head, lookup_eq_head, named_stored, List.head?_map]

variable {child : Oid} {name : String}

theorem named_withChild_of_ne {other : String} (apart : other ≠ name) :
    ∀ entries : List (DirEntryData Oid),
      named other (withChild name child entries) = named other entries := by
  intro entries
  induction entries with
  | nil => rfl
  | cons first rest ih =>
    unfold named at ih ⊢
    by_cases here : first.name = name
    · have missed : first.name ≠ other := fun same => apart (same.symm.trans here)
      rw [withChild, if_pos here, List.filter_cons_of_neg (by simpa using missed),
        List.filter_cons_of_neg (by simpa using missed)]
    · rw [withChild, if_neg here, List.filter_cons, List.filter_cons, ih]

theorem lookup_withChild_of_ne {other : String} (apart : other ≠ name)
    (entries : List (DirEntryData Oid)) :
    lookup (withChild name child entries) other = lookup entries other := by
  rw [lookup_eq_head, lookup_eq_head, named_withChild_of_ne apart]

variable {entry : DirEntryData Oid}

theorem lookup_withChild_self :
    ∀ {entries : List (DirEntryData Oid)}, lookup entries name = some entry →
      lookup (withChild name child entries) name = some { entry with id := child } := by
  intro entries
  induction entries with
  | nil =>
    intro found
    simp [lookup] at found
  | cons first rest ih =>
    intro found
    by_cases here : first.name = name
    · obtain rfl : first = entry := by simpa [lookup, here] using found
      simp [withChild, lookup, here]
    · rw [withChild, if_neg here]
      have below := ih (by simpa [lookup, here] using found)
      simpa [lookup, here] using below

variable [DecidableEq Oid] [Digests Oid] {store : FsStore Oid}
  {updateFn : List (DirEntryData Oid) → List (DirEntryData Oid)} {parts : List String}
  {root top : Oid}

/-- The edit leaves the first entry of the name where there is one. -/
def KeepsFound (updateFn : List (DirEntryData Oid) → List (DirEntryData Oid)) (name : String) :
    Prop :=
  ∀ entries entry, lookup entries name = some entry → lookup (updateFn entries) name = some entry

/-- The names that a path passes right below the edited directory are kept. -/
def KeepsWay (updateFn : List (DirEntryData Oid) → List (DirEntryData Oid))
    (parts path : List String) : Prop :=
  ∀ name, parts ++ [name] <+: path → KeepsFound updateFn name

omit [DecidableEq Oid] [Digests Oid] in
theorem KeepsWay.below {next : String} {rest path : List String}
    (keeps : KeepsWay updateFn (next :: rest) (next :: path)) : KeepsWay updateFn rest path :=
  fun name listed => keeps name (List.cons_prefix_cons.mpr ⟨rfl, listed⟩)

theorem EditedAt.dir_here (edited : EditedAt store (pureEdit updateFn) parts root top) :
    ∃ old new entries, Resolves store parts root old ∧ StandsFor store old entries ∧
      Resolves store parts top new ∧ StandsFor store new (stored (updateFn entries)) := by
  induction edited with
  | @here old new entries kept description reads applied stands =>
    cases applied
    exact ⟨old, new, entries, rfl, reads, rfl, stands⟩
  | @down name rest old new child entries entry reads found directory below stands ih =>
    obtain ⟨dir, dir', listed, resolves, standsDir, resolves', standsDir'⟩ := ih
    refine ⟨dir, dir', listed, ⟨entries, entry, reads, found, directory, resolves⟩, standsDir,
      ⟨_, DirEntryData.written { entry with id := child }, stands, ?_, ?_, ?_⟩, standsDir'⟩
    · rw [lookup_in_stored, lookup_withChild_self found]
      rfl
    · rw [written_mode]
      exact directory
    · rw [written_id]
      exact resolves'

/-- Every other directory that the edit does not cut off is in the edited tree, with the same
entries but for the child on the way to the edit. -/
theorem EditedAt.dir_other (edited : EditedAt store (pureEdit updateFn) parts root top) :
    ∀ {path : List String} {dir : Oid} {entries : List (DirEntryData Oid)}, path ≠ parts →
      KeepsWay updateFn parts path → Resolves store path root dir → StandsFor store dir entries →
      ∃ dir' entries', Resolves store path top dir' ∧ StandsFor store dir' entries' ∧
        (dir' = dir ∧ entries' = entries ∨ ∃ next rest child entry, parts = path ++ next :: rest ∧
          lookup entries next = some entry ∧ isDir entry.mode = true ∧
          entries' = stored (withChild next child entries)) := by
  induction edited with
  | @here old new entries kept description reads applied stands =>
    intro path dir listed apart keeps resolves standsDir
    cases applied
    cases path with
    | nil => exact absurd rfl apart
    | cons first rest =>
      obtain ⟨listedOld, entry, standsOld, found, directory, below⟩ := resolves
      obtain rfl := reads.entries.symm.trans standsOld.entries
      have same := keeps first (List.prefix_append [first] rest) entries entry found
      refine ⟨dir, listed, ⟨_, entry.written, stands, ?_, ?_, ?_⟩, standsDir,
        Or.inl ⟨rfl, rfl⟩⟩
      · rw [lookup_in_stored, same]
        rfl
      · rw [written_mode]
        exact directory
      · rw [written_id]
        exact below
  | @down name rest old new child entries entry reads found directory deeper stands ih =>
    intro path dir listed apart keeps resolves standsDir
    cases path with
    | nil =>
      obtain rfl : old = dir := resolves
      obtain rfl := reads.entries.symm.trans standsDir.entries
      exact ⟨new, _, rfl, stands, Or.inr ⟨name, rest, child, entry, rfl, found, directory, rfl⟩⟩
    | cons first others =>
      obtain ⟨listedOld, reached, standsOld, isReached, directory', below⟩ := resolves
      obtain rfl := reads.entries.symm.trans standsOld.entries
      by_cases same : first = name
      · -- The way goes into the edited part.
        subst same
        obtain rfl : entry = reached := Option.some.inj (found.symm.trans isReached)
        have apart' : others ≠ rest := fun equal => apart (by rw [equal])
        obtain ⟨dir', listed', resolves', stands', shape⟩ :=
          ih apart' keeps.below below standsDir
        refine ⟨dir', listed', ⟨_, DirEntryData.written { entry with id := child }, stands,
          ?_, ?_, ?_⟩, stands', ?_⟩
        · rw [lookup_in_stored, lookup_withChild_self found]
          rfl
        · rw [written_mode]
          exact directory
        · rw [written_id]
          exact resolves'
        · refine shape.imp_right fun onWay => ?_
          obtain ⟨next, tail, inner, passed, rfl, isChild⟩ := onWay
          exact ⟨next, tail, inner, passed, rfl, isChild⟩
      · refine ⟨dir, listed, ⟨_, reached.written, stands, ?_, ?_, ?_⟩, standsDir,
          Or.inl ⟨rfl, rfl⟩⟩
        · rw [lookup_in_stored, lookup_withChild_of_ne same, isReached]
          rfl
        · rw [written_mode]
          exact directory'
        · rw [written_id]
          exact below

/-- The first entry of the name in the directory at the path. -/
def FoundAt (store : FsStore Oid) (upper : List String) (name : String) (root : Oid)
    (entry : DirEntryData Oid) : Prop :=
  ∃ dir entries, Resolves store upper root dir ∧ StandsFor store dir entries ∧
    lookup entries name = some entry

theorem FoundAt.extends {after : FsStore Oid} {upper : List String}
    (found : FoundAt store upper name root entry) (grown : Table.Extends store after) :
    FoundAt after upper name root entry := by
  obtain ⟨dir, entries, resolves, stands, isEntry⟩ := found
  exact ⟨dir, entries, resolves.extends grown, stands.extends grown, isEntry⟩

/-- An entry found from a directory as it is stored is listed in it, or is below a directory
listed in it. -/
theorem FoundAt.in_stored {new : Oid} {entries : List (DirEntryData Oid)} {tail : List String}
    {entry' : DirEntryData Oid} (stands : StandsFor store new (stored entries))
    (found : FoundAt store tail name new entry') :
    (tail = [] ∧ ∃ entry, lookup entries name = some entry) ∨
      ∃ first others entry, tail = first :: others ∧ lookup entries first = some entry ∧
        isDir entry.mode = true ∧ FoundAt store others name entry.id entry' := by
  obtain ⟨dir, listed, leads, standsDir, isEntry⟩ := found
  cases tail with
  | nil =>
    obtain rfl : new = dir := leads
    obtain rfl := stands.entries.symm.trans standsDir.entries
    rw [lookup_in_stored, Option.map_eq_some_iff] at isEntry
    obtain ⟨entry, isEntry, -⟩ := isEntry
    exact Or.inl ⟨rfl, entry, isEntry⟩
  | cons first others =>
    obtain ⟨level, reached, standsLevel, isReached, directory, leads⟩ := leads
    obtain rfl := stands.entries.symm.trans standsLevel.entries
    rw [lookup_in_stored, Option.map_eq_some_iff] at isReached
    obtain ⟨entry, isReached, rfl⟩ := isReached
    rw [written_mode] at directory
    rw [written_id] at leads
    exact Or.inr ⟨first, others, entry, rfl, isReached, directory, dir, listed, leads, standsDir,
      isEntry⟩

/-- An entry that the edit does not cut off is found in the edited tree, under another id only
where it is a directory on the way to the edit. -/
theorem EditedAt.found (edited : EditedAt store (pureEdit updateFn) parts root top)
    {upper : List String} (keeps : KeepsWay updateFn parts (upper ++ [name]))
    (found : FoundAt store upper name root entry) :
    ∃ entry', FoundAt store upper name top entry' ∧ entry'.mode = entry.mode ∧
      (entry'.id = entry.id ∨ isDir entry.mode = true ∧ upper ++ [name] <+: parts) := by
  obtain ⟨dir, entries, resolves, stands, isEntry⟩ := found
  by_cases here : upper = parts
  · subst here
    obtain ⟨old, new, listed, resolvesOld, standsOld, resolvesNew, standsNew⟩ := edited.dir_here
    obtain rfl := resolves.unique resolvesOld
    obtain rfl := stands.entries.symm.trans standsOld.entries
    refine ⟨entry.written, ⟨new, _, resolvesNew, standsNew, ?_⟩, written_mode entry,
      Or.inl (written_id entry)⟩
    rw [lookup_in_stored, keeps name List.prefix_rfl entries entry isEntry]
    rfl
  · have keepsUpper : KeepsWay updateFn parts upper :=
      fun other listed => keeps other (listed.trans (List.prefix_append upper [name]))
    obtain ⟨dir', entries', resolves', stands', shape⟩ :=
      edited.dir_other here keepsUpper resolves stands
    rcases shape with ⟨rfl, rfl⟩ | ⟨next, rest, child, passed, rfl, isPassed, directory, rfl⟩
    · exact ⟨entry, ⟨dir', entries', resolves', stands', isEntry⟩, rfl, Or.inl rfl⟩
    · by_cases same : name = next
      · subst same
        obtain rfl : passed = entry := Option.some.inj (isPassed.symm.trans isEntry)
        refine ⟨_, ⟨dir', _, resolves', stands', ?_⟩, written_mode { passed with id := child },
          Or.inr ⟨directory, ⟨rest, by simp⟩⟩⟩
        rw [lookup_in_stored, lookup_withChild_self isPassed]
        rfl
      · refine ⟨entry.written, ⟨dir', _, resolves', stands', ?_⟩, written_mode entry,
          Or.inl (written_id entry)⟩
        rw [lookup_in_stored, lookup_withChild_of_ne same, isEntry]
        rfl

end Nanofile
