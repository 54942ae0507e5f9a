import Nanofile.Service.SizeDelta
import Nanofile.Service.TreeUpdate
import Nanofile.Service.UniqueNames

/-!
# The size of an edited tree

An edit of one directory changes the size of an honest tree by what it changes in that
directory.
-/

set_option autoImplicit false

namespace Nanofile

open Nanofile.Lib

variable {Oid : Type} [DecidableEq Oid] [Digests Oid] {store after : FsStore Oid}

noncomputable def entriesSize (store : FsStore Oid) (entries : List (DirEntryData Oid)) : Int :=
  (entries.map (entrySize store)).sum

@[simp] theorem entriesSize_nil : entriesSize store [] = 0 := rfl

@[simp] theorem entriesSize_cons (entry : DirEntryData Oid) (rest : List (DirEntryData Oid)) :
    entriesSize store (entry :: rest) = entrySize store entry + entriesSize store rest := by
  simp [entriesSize]

@[simp] theorem entriesSize_append (first second : List (DirEntryData Oid)) :
    entriesSize store (first ++ second) = entriesSize store first + entriesSize store second := by
  simp [entriesSize]

def HonestEntries (store : FsStore Oid) (entries : List (DirEntryData Oid)) : Prop :=
  NamesNodup entries ∧ ∀ entry ∈ entries, HonestEntry store entry

variable {entry : DirEntryData Oid}

theorem HonestEntry.extends (grown : Table.Extends store after) (honest : HonestEntry store entry) :
    HonestEntry after entry ∧ entrySize after entry = entrySize store entry := by
  unfold HonestEntry entrySize at *
  split
  · rename_i directory
    rw [if_pos directory] at honest
    exact ⟨honest.extends grown, treeSize_extends grown honest⟩
  · rename_i file
    rw [if_neg file] at honest
    obtain ⟨regular, data, found, isSize⟩ := honest
    exact ⟨⟨regular, data, fileBatch_extends grown found, isSize⟩, rfl⟩

theorem HonestEntries.extends (grown : Table.Extends store after)
    {entries : List (DirEntryData Oid)} (honest : HonestEntries store entries) :
    HonestEntries after entries :=
  ⟨honest.1, fun entry listed => ((honest.2 entry listed).extends grown).1⟩

theorem HonestEntry.written (honest : HonestEntry store entry) :
    HonestEntry store entry.written ∧ entrySize store entry.written = entrySize store entry := by
  unfold HonestEntry entrySize at *
  rw [written_mode, written_id]
  split
  · rename_i directory
    rw [if_pos directory] at honest
    exact ⟨honest, rfl⟩
  · rename_i file
    rw [if_neg file] at honest
    have same : entry.written = entry := if_pos honest.1
    rw [same]
    exact ⟨honest, rfl⟩

theorem HonestEntries.stored {entries : List (DirEntryData Oid)}
    (honest : HonestEntries store entries) :
    HonestEntries store (stored entries) ∧
      entriesSize store (Nanofile.stored entries) = entriesSize store entries := by
  refine ⟨⟨(names_stored entries).nodup_iff.mpr honest.1, ?_⟩, ?_⟩
  · intro entry listed
    obtain ⟨original, member, rfl⟩ := List.mem_map.mp listed
    exact (honest.2 original (mem_sortDirentsDesc.mp member)).written.1
  · calc entriesSize store (Nanofile.stored entries)
        = ((sortDirentsDesc entries).map (entrySize store)).sum := by
          rw [entriesSize, Nanofile.stored, List.map_map]
          congr 1
          apply List.map_congr_left
          intro entry listed
          exact (honest.2 entry (mem_sortDirentsDesc.mp listed)).written.2
      _ = entriesSize store entries :=
          ((sortDirentsDesc_perm entries).map (entrySize store)).sum_eq

theorem Honest.entries {fsId : Oid} {entries : List (DirEntryData Oid)}
    (honest : Honest store fsId) (stands : StandsFor store fsId entries) :
    HonestEntries store entries ∧ treeSize store fsId = entriesSize store entries := by
  rcases stands with ⟨rfl, rfl⟩ | ⟨data, read, rfl⟩
  · exact ⟨⟨List.nodup_nil, fun entry listed => absurd listed List.not_mem_nil⟩, treeSize_empty _⟩
  · obtain ⟨unique, all, isSize⟩ := honest.dir read
    exact ⟨⟨unique, all⟩, isSize⟩

theorem HonestEntries.honest {fsId : Oid} {entries : List (DirEntryData Oid)}
    (honest : HonestEntries store entries) (stands : StandsFor store fsId entries) :
    Honest store fsId := by
  rcases stands with ⟨rfl, -⟩ | ⟨data, read, rfl⟩
  · exact honest_empty store
  · exact honest_of_entries read honest.1 honest.2

omit [DecidableEq Oid] [Digests Oid] in
theorem names_withChild (name : String) (child : Oid) (entries : List (DirEntryData Oid)) :
    (withChild name child entries).map DirEntryData.name = entries.map DirEntryData.name := by
  induction entries with
  | nil => rfl
  | cons entry rest ih =>
    unfold withChild
    split
    · rfl
    · rw [List.map_cons, List.map_cons, ih]

theorem HonestEntries.withChild {name : String} {child : Oid} (directory : isDir entry.mode = true)
    (tree : Honest store child) :
    ∀ {entries : List (DirEntryData Oid)}, HonestEntries store entries →
      lookup entries name = some entry →
      HonestEntries store (Nanofile.withChild name child entries) ∧
        entriesSize store (Nanofile.withChild name child entries) + treeSize store entry.id =
          entriesSize store entries + treeSize store child := by
  intro entries honest found
  refine ⟨⟨?_, ?_⟩, ?_⟩
  · rw [NamesNodup, names_withChild]
    exact honest.1
  · have all := honest.2
    clear honest
    induction entries with
    | nil => exact fun other listed => absurd listed List.not_mem_nil
    | cons first rest ih =>
      intro other listed
      by_cases named : first.name = name
      · obtain rfl : first = entry := by simpa [lookup, named] using found
        rw [Nanofile.withChild, if_pos named] at listed
        rcases List.mem_cons.mp listed with rfl | below
        · rw [HonestEntry, if_pos directory]
          exact tree
        · exact all other (List.mem_cons_of_mem _ below)
      · rw [Nanofile.withChild, if_neg named] at listed
        rcases List.mem_cons.mp listed with rfl | below
        · exact all other List.mem_cons_self
        · exact ih (by simpa [lookup, named] using found)
            (fun other listed => all other (List.mem_cons_of_mem _ listed)) other below
  · clear honest
    induction entries with
    | nil => simp [lookup] at found
    | cons first rest ih =>
      by_cases named : first.name = name
      · obtain rfl : first = entry := by simpa [lookup, named] using found
        rw [Nanofile.withChild, if_pos named, entriesSize_cons, entriesSize_cons]
        simp only [entrySize, directory, if_true]
        omega
      · rw [Nanofile.withChild, if_neg named, entriesSize_cons, entriesSize_cons]
        have rest' := ih (by simpa [lookup, named] using found)
        omega

section Removals

variable {entries : List (DirEntryData Oid)}

/-- What the entry of a name adds; nothing when there is none. -/
noncomputable def namedSize (store : FsStore Oid) (entries : List (DirEntryData Oid))
    (name : String) : Int :=
  ((findEntry entries name).map (entrySize store)).getD 0

theorem HonestEntries.filter (honest : HonestEntries store entries)
    (keep : DirEntryData Oid → Bool) : HonestEntries store (entries.filter keep) :=
  ⟨namesNodup_filter honest.1 keep, fun entry listed => honest.2 entry (List.mem_of_mem_filter listed)⟩

theorem entriesSize_withoutNames {names : List String} (unique : names.Nodup)
    (honest : HonestEntries store entries) :
    (names.map (namedSize store entries)).sum + entriesSize store (withoutNames names entries) =
      entriesSize store entries := by
  have sums := sum_found_add_unfound DirEntryData.name id (entrySize store) honest.1
    (by simpa using unique)
  rw [List.map_id] at sums
  exact sums

theorem entriesSize_withoutName (name : String) (honest : HonestEntries store entries) :
    namedSize store entries name + entriesSize store (withoutName name entries) =
      entriesSize store entries := by
  have sums := entriesSize_withoutNames (List.nodup_singleton name) honest
  have same : withoutNames [name] entries = withoutName name entries := by
    simp [withoutNames, withoutName]
  rwa [same, List.map_singleton, List.sum_singleton] at sums

theorem HonestEntries.found (honest : HonestEntries store entries) {name : String}
    (found : findEntry entries name = some entry) : HonestEntry store entry :=
  honest.2 entry (List.mem_of_find?_eq_some found)

theorem HonestEntries.concat (honest : HonestEntries store entries)
    (added : HonestEntry store entry) (fresh : entry.name ∉ entries.map DirEntryData.name) :
    HonestEntries store (entries ++ [entry]) := by
  refine ⟨namesNodup_concat honest.1 fresh, ?_⟩
  intro other listed
  rcases List.mem_append.mp listed with before | new
  · exact honest.2 other before
  · rw [List.mem_singleton.mp new]
    exact added

end Removals

theorem EditedAt.sized {updateFn : List (DirEntryData Oid) → List (DirEntryData Oid)}
    {parts : List String} {root top : Oid}
    (edited : EditedAt store (pureEdit updateFn) parts root top) :
    ∀ {parent : Oid} {entries : List (DirEntryData Oid)}, Honest store root →
      Resolves store parts root parent → StandsFor store parent entries →
      HonestEntries store (updateFn entries) →
      Honest store top ∧ treeSize store top + entriesSize store entries =
        treeSize store root + entriesSize store (updateFn entries) := by
  induction edited with
  | @here old new found edited description reads applied stands =>
    intro parent entries honest resolves standsParent honestNew
    obtain rfl : old = parent := resolves
    obtain rfl : found = entries := reads.entries.symm.trans standsParent.entries
    cases applied
    obtain ⟨honestStored, sameSize⟩ := honestNew.stored
    have tree := honestStored.honest stands
    refine ⟨tree, ?_⟩
    rw [(tree.entries stands).2, (honest.entries reads).2, sameSize]
    omega
  | @down name rest old new child found entry reads isEntry directory below stands ih =>
    intro parent entries honest resolves standsParent honestNew
    obtain ⟨found', entry', reads', isEntry', -, deeper⟩ := resolves
    obtain rfl : found = found' := reads.entries.symm.trans reads'.entries
    obtain rfl : entry = entry' := Option.some.inj (isEntry.symm.trans isEntry')
    obtain ⟨honestHere, sizeHere⟩ := honest.entries reads
    have honestChild := honestHere.2 entry (lookup_eq_some isEntry).1
    rw [HonestEntry, if_pos directory] at honestChild
    obtain ⟨treeBelow, sizeBelow⟩ := ih honestChild deeper standsParent honestNew
    obtain ⟨honestLevel, sizeLevel⟩ := honestHere.withChild directory treeBelow isEntry
    obtain ⟨honestStored, sameSize⟩ := honestLevel.stored
    have tree := honestStored.honest stands
    refine ⟨tree, ?_⟩
    rw [(tree.entries stands).2, sameSize, sizeHere]
    omega

end Nanofile
