import Nanofile.Service.UploadReports

/-!
# Two trees that paths find alike

An edit that changes some names of one directory leaves every path alone that does not pass
one of them there.  A row of edits is compared one edit after the other.
-/

set_option autoImplicit false

namespace Nanofile

open Nanofile.Lib

variable {Oid : Type} {entries : List (DirEntryData Oid)} {name : String}

theorem exists_lookup_iff :
    (∃ entry, lookup entries name = some entry) ↔ name ∈ entries.map DirEntryData.name := by
  rw [← not_iff_not, ← lookup_eq_none_iff, Option.eq_none_iff_forall_ne_some]
  simp

variable {entry : DirEntryData Oid}

theorem lookup_append_of_ne (apart : name ≠ entry.name) (entries : List (DirEntryData Oid)) :
    lookup (entries ++ [entry]) name = lookup entries name := by
  simp [lookup, List.find?_append, apart.symm]

theorem pushUnlessNamed_of_mem (taken : entry.name ∈ entries.map DirEntryData.name) :
    pushUnlessNamed entry entries = entries :=
  if_pos (any_name_iff.mpr taken)

theorem pushUnlessNamed_of_not_mem (free : entry.name ∉ entries.map DirEntryData.name) :
    pushUnlessNamed entry entries = entries ++ [entry] :=
  if_neg fun taken => free (any_name_iff.mp taken)

section Rename

variable {oldName newName : String}

theorem lookup_renameFirst_of_ne {name : String} (notOld : name ≠ oldName)
    (notNew : name ≠ newName) : ∀ entries : List (DirEntryData Oid),
      lookup (renameFirst oldName newName entries) name = lookup entries name := by
  intro entries
  induction entries with
  | nil => rfl
  | cons first rest ih =>
    unfold lookup at ih ⊢
    by_cases here : first.name = oldName
    · simp [renameFirst, here, notOld.symm, notNew.symm]
    · rw [renameFirst, if_neg here, List.find?_cons, List.find?_cons, ih]

theorem lookup_renameFirst_new :
    ∀ {entries : List (DirEntryData Oid)}, newName ∉ entries.map DirEntryData.name →
      lookup entries oldName = some entry →
      lookup (renameFirst oldName newName entries) newName = some { entry with name := newName } := by
  intro entries
  induction entries with
  | nil =>
    intro _ found
    simp [lookup] at found
  | cons first rest ih =>
    intro free found
    rw [List.map_cons, List.mem_cons, not_or] at free
    by_cases here : first.name = oldName
    · obtain rfl : first = entry := by simpa [lookup, here] using found
      simp [renameFirst, lookup, here]
    · rw [renameFirst, if_neg here]
      have below := ih free.2 (by simpa [lookup, here] using found)
      have away : first.name ≠ newName := fun same => free.1 same.symm
      simpa [lookup, away] using below

theorem not_mem_names_renameFirst (apart : oldName ≠ newName) :
    ∀ {entries : List (DirEntryData Oid)}, NamesNodup entries →
      oldName ∉ (renameFirst oldName newName entries).map DirEntryData.name := by
  intro entries
  induction entries with
  | nil => exact fun _ => List.not_mem_nil
  | cons first rest ih =>
    intro unique
    obtain ⟨fresh, unique⟩ := List.nodup_cons.mp unique
    unfold renameFirst
    split
    · rename_i here
      rw [List.map_cons, List.mem_cons, not_or]
      exact ⟨apart, here ▸ fresh⟩
    · rename_i away
      rw [List.map_cons, List.mem_cons, not_or]
      exact ⟨fun same => away same.symm, ih unique⟩

end Rename

variable [DecidableEq Oid] [Digests Oid] {store after : FsStore Oid} {root top : Oid}
  {parts upper : List String} {entries : List (DirEntryData Oid)}

def DirAt (store : FsStore Oid) (parts : List String) (root : Oid)
    (entries : List (DirEntryData Oid)) : Prop :=
  ∃ dir, Resolves store parts root dir ∧ StandsFor store dir entries

theorem DirAt.eq {entries' : List (DirEntryData Oid)} (lists : DirAt store parts root entries)
    (lists' : DirAt store parts root entries') : entries = entries' := by
  obtain ⟨dir, resolves, stands⟩ := lists
  obtain ⟨dir', resolves', stands'⟩ := lists'
  obtain rfl := resolves.unique resolves'
  exact stands.entries.symm.trans stands'.entries

theorem DirAt.extends (lists : DirAt store parts root entries)
    (grown : Table.Extends store after) : DirAt after parts root entries := by
  obtain ⟨dir, resolves, stands⟩ := lists
  exact ⟨dir, resolves.extends grown, stands.extends grown⟩

theorem DirAt.found_iff (lists : DirAt store upper root entries) :
    FoundAt store upper name root entry ↔ lookup entries name = some entry := by
  constructor
  · rintro ⟨dir, listed, resolves, stands, isEntry⟩
    rwa [lists.eq ⟨dir, resolves, stands⟩]
  · obtain ⟨dir, resolves, stands⟩ := lists
    exact fun isEntry => ⟨dir, entries, resolves, stands, isEntry⟩

theorem DirAt.exists_found_iff (lists : DirAt store upper root entries) :
    (∃ entry, FoundAt store upper name root entry) ↔ name ∈ entries.map DirEntryData.name := by
  simp only [lists.found_iff, exists_lookup_iff]

theorem DirAt.passed {next : String} (lists : DirAt store upper root entries)
    (way : parts ++ [next] <+: upper) :
    ∃ entry, FoundAt store parts next root entry ∧ isDir entry.mode = true := by
  obtain ⟨rest, rfl⟩ := way
  obtain ⟨dir, resolves, -⟩ := lists
  obtain ⟨inner, toInner, -⟩ := resolves_append.mp resolves
  obtain ⟨outer, toOuter, listed, entry, stands, found, directory, -⟩ := resolves_append.mp toInner
  exact ⟨entry, ⟨outer, listed, toOuter, stands, found⟩, directory⟩

theorem FoundAt.dirAt (found : FoundAt store upper name root entry) :
    ∃ entries, DirAt store upper root entries ∧ lookup entries name = some entry := by
  obtain ⟨dir, entries, resolves, stands, isEntry⟩ := found
  exact ⟨entries, ⟨dir, resolves, stands⟩, isEntry⟩

theorem FoundAt.unique {entry' : DirEntryData Oid} (found : FoundAt store upper name root entry)
    (found' : FoundAt store upper name root entry') : entry = entry' := by
  obtain ⟨entries, lists, isEntry⟩ := found.dirAt
  exact Option.some.inj (isEntry.symm.trans (lists.found_iff.mp found'))

theorem FoundAt.passed {next : String} (found : FoundAt store upper name root entry)
    (way : parts ++ [next] <+: upper ++ [name]) :
    ∃ passed, FoundAt store parts next root passed := by
  rcases List.prefix_concat_iff.mp way with same | above
  · obtain ⟨rfl, sameName⟩ := List.append_inj' same rfl
    obtain rfl : next = name := by simpa using sameName
    exact ⟨entry, found⟩
  · obtain ⟨entries, lists, -⟩ := found.dirAt
    obtain ⟨passed, isPassed, -⟩ := lists.passed above
    exact ⟨passed, isPassed⟩

variable {updateFn : List (DirEntryData Oid) → List (DirEntryData Oid)}

theorem EditedAt.dirAt (edited : EditedAt store (pureEdit updateFn) parts root top)
    (lists : DirAt store parts root entries) :
    DirAt store parts top (stored (updateFn entries)) := by
  obtain ⟨old, new, listed, resolves, stands, resolves', stands'⟩ := edited.dir_here
  rw [lists.eq ⟨old, resolves, stands⟩]
  exact ⟨new, resolves', stands'⟩

theorem EditedAt.dirAt_other (edited : EditedAt store (pureEdit updateFn) parts root top)
    (apart : upper ≠ parts) (keeps : KeepsWay updateFn parts upper)
    (lists : DirAt store upper root entries) :
    ∃ entries', DirAt store upper top entries' ∧
      (entries'.map DirEntryData.name).Perm (entries.map DirEntryData.name) := by
  obtain ⟨dir, resolves, stands⟩ := lists
  obtain ⟨dir', entries', resolves', stands', shape⟩ := edited.dir_other apart keeps resolves stands
  refine ⟨entries', ⟨dir', resolves', stands'⟩, ?_⟩
  rcases shape with ⟨-, rfl⟩ | ⟨next, rest, child, passed, -, -, -, rfl⟩
  · exact List.Perm.refl _
  · rw [← names_withChild next child entries]
    exact names_stored _

/-- What is not `out` is found in both trees, under another id only for a directory above a
change. -/
structure PathsAlike (store : FsStore Oid) (root top : Oid) (out above : List String → Prop) :
    Prop where
  kept : ∀ {upper : List String} {name : String} {entry : DirEntryData Oid},
    ¬ out (upper ++ [name]) → FoundAt store upper name root entry →
    ∃ entry', FoundAt store upper name top entry' ∧ entry'.mode = entry.mode ∧
      (entry'.id = entry.id ∨ isDir entry.mode = true ∧ above (upper ++ [name]))
  noOther : ∀ {upper : List String} {name : String} {entry' : DirEntryData Oid},
    ¬ out (upper ++ [name]) → FoundAt store upper name top entry' →
    ∃ entry, FoundAt store upper name root entry

theorem PathsAlike.refl (root : Oid) (out above : List String → Prop) :
    PathsAlike store root root out above :=
  ⟨fun _ found => ⟨_, found, rfl, Or.inl rfl⟩, fun _ found => ⟨_, found⟩⟩

theorem PathsAlike.mono {out out' above above' : List String → Prop}
    (alike : PathsAlike store root top out above) (wider : ∀ path, out path → out' path)
    (higher : ∀ path, above path → above' path) : PathsAlike store root top out' above' := by
  refine ⟨fun outside found => ?_, fun outside found => alike.noOther (outside ∘ wider _) found⟩
  obtain ⟨entry', found', sameMode, shape⟩ := alike.kept (outside ∘ wider _) found
  exact ⟨entry', found', sameMode, shape.imp id (And.imp_right (higher _))⟩

theorem PathsAlike.trans {middle : Oid} {out above : List String → Prop}
    (left : PathsAlike store root middle out above)
    (right : PathsAlike store middle top out above) : PathsAlike store root top out above := by
  constructor
  · intro upper name entry outside found
    obtain ⟨between, isBetween, sameMode, shape⟩ := left.kept outside found
    obtain ⟨entry', found', sameMode', shape'⟩ := right.kept outside isBetween
    refine ⟨entry', found', sameMode'.trans sameMode, ?_⟩
    rcases shape' with same | ⟨directory, high⟩
    · exact shape.imp same.trans id
    · exact Or.inr ⟨sameMode ▸ directory, high⟩
  · intro upper name entry' outside found
    obtain ⟨between, isBetween⟩ := right.noOther outside found
    exact left.noOther outside isBetween

def Passes (parts names path : List String) : Prop := ∃ name ∈ names, parts ++ [name] <+: path

theorem EditedAt.pathsAlike {changed : List String}
    (edited : EditedAt store (pureEdit updateFn) parts root top)
    (same : ∀ entries, DirAt store parts root entries → ∀ name ∉ changed,
      lookup (updateFn entries) name = lookup entries name) :
    PathsAlike store root top (Passes parts changed) (· <+: parts) := by
  constructor
  · intro upper name entry outside found
    -- Of the edit only its effect on this directory is known.
    classical
    obtain ⟨old, -, entries, resolves, stands, -, -⟩ := edited.dir_here
    have lists : DirAt store parts root entries := ⟨old, resolves, stands⟩
    let there (listed : List (DirEntryData Oid)) := if listed = entries then updateFn entries else listed
    have editedThere : EditedAt store (pureEdit there) parts root top :=
      edited.congr resolves stands (if_pos rfl).symm
    refine editedThere.found (fun next passed listed present isPresent => ?_) found
    by_cases here : listed = entries
    · subst here
      show lookup (if listed = listed then updateFn listed else listed) next = some present
      rw [if_pos rfl, same listed lists next fun isChanged => outside ⟨next, isChanged, passed⟩]
      exact isPresent
    · show lookup (if listed = entries then updateFn entries else listed) next = some present
      rwa [if_neg here]
  · intro upper name entry' outside found
    rcases edited.found_after found with before |
      ⟨tail, old, new, entries, rfl, resolves, standsOld, standsNew, below⟩
    · exact before
    · have lists : DirAt store parts root entries := ⟨old, resolves, standsOld⟩
      rcases below.in_stored standsNew with ⟨rfl, entry, isEntry⟩ |
        ⟨first, others, entry, rfl, isReached, directory, dir, listed, leads, standsDir, isEntry⟩
      · rw [same entries lists name fun isChanged => outside ⟨name, isChanged, by simp⟩] at isEntry
        exact ⟨entry, FoundAt.below resolves ⟨old, entries, rfl, standsOld, isEntry⟩⟩
      · rw [same entries lists first fun isChanged =>
          outside ⟨first, isChanged, ⟨others ++ [name], by simp⟩⟩] at isReached
        exact ⟨entry', FoundAt.below resolves ⟨dir, listed,
          ⟨entries, entry, standsOld, isReached, directory, leads⟩, standsDir, isEntry⟩⟩

end Nanofile
