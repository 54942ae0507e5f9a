import Nanofile.Fs.Tree

/-!
# What a stored tree means

A tree is the map from file paths to file ids that its directories spell out.  A
path is the list of its names.  `HasFile` allows several entries of one name, as
a stored directory may; `fileAt` is the map when names are unique.
-/

set_option autoImplicit false

namespace Nanofile

open Nanofile.Lib

variable {Oid : Type} [DecidableEq Oid] [Digests Oid]

/-- The tree with these root entries has a file with id `id` at the path. -/
def HasFile (store : FsStore Oid) :
    List (DirEntryData Oid) → List String → Oid → Prop
  | _, [], _ => False
  | entries, [name], id =>
    ∃ entry ∈ entries, entry.name = name ∧ isRegular entry.mode = true ∧ entry.id = id
  | entries, name :: next :: rest, id =>
    ∃ entry ∈ entries, entry.name = name ∧ isDir entry.mode = true ∧
      HasFile store (entriesOf store entry.id) (next :: rest) id

instance decidableHasFile (store : FsStore Oid) :
    ∀ (entries : List (DirEntryData Oid)) (path : List String) (id : Oid),
      Decidable (HasFile store entries path id)
  | _, [], _ => isFalse fun found => found
  | entries, [name], id =>
    inferInstanceAs (Decidable (∃ entry ∈ entries,
      entry.name = name ∧ isRegular entry.mode = true ∧ entry.id = id))
  | entries, name :: next :: rest, id =>
    have : ∀ below, Decidable (HasFile store below (next :: rest) id) :=
      fun below => decidableHasFile store below (next :: rest) id
    inferInstanceAs (Decidable (∃ entry ∈ entries, entry.name = name ∧
      isDir entry.mode = true ∧ HasFile store (entriesOf store entry.id) (next :: rest) id))

def lookup (entries : List (DirEntryData Oid)) (name : String) :
    Option (DirEntryData Oid) :=
  entries.find? fun entry => entry.name = name

/-- The id of the file at a path; the first entry of a name counts. -/
def fileAt (store : FsStore Oid) : List (DirEntryData Oid) → List String → Option Oid
  | _, [] => none
  | entries, [name] =>
    (lookup entries name).bind fun entry =>
      if isRegular entry.mode then some entry.id else none
  | entries, name :: next :: rest =>
    (lookup entries name).bind fun entry =>
      if isDir entry.mode then fileAt store (entriesOf store entry.id) (next :: rest)
      else none

/-- The levels of a tree: its root entries and those of every directory below. -/
inductive Below (store : FsStore Oid) (root : List (DirEntryData Oid)) :
    List (DirEntryData Oid) → Prop
  | root : Below store root root
  | child {level : List (DirEntryData Oid)} {entry : DirEntryData Oid}
      (above : Below store root level) (listed : entry ∈ level)
      (directory : isDir entry.mode = true) : Below store root (entriesOf store entry.id)

/-- An entry is a regular file, whose id is not a directory's, or a directory that
reads back. -/
def EntryOk (store : FsStore Oid) (entry : DirEntryData Oid) : Prop :=
  (isRegular entry.mode = true ∧ dirBatch store entry.id = none) ∨
    (isDir entry.mode = true ∧ ∃ entries, StandsFor store entry.id entries)

/-- Names are unique in every directory and every entry is a regular file or a
directory. -/
def WellFormed (store : FsStore Oid) (root : List (DirEntryData Oid)) : Prop :=
  ∀ level, Below store root level →
    (level.map DirEntryData.name).Nodup ∧ ∀ entry ∈ level, EntryOk store entry

def wellFormedCheck (store : FsStore Oid) : Nat → List (DirEntryData Oid) → Bool
  | 0, _ => false
  | depth + 1, entries =>
    decide (entries.map DirEntryData.name).Nodup && entries.all fun entry =>
      (isRegular entry.mode && (dirBatch store entry.id).isNone) ||
      (isDir entry.mode && (decide (entry.id = emptySha1) || (dirBatch store entry.id).isSome)
        && wellFormedCheck store depth (entriesOf store entry.id))

variable {root : List (DirEntryData Oid)} {store : FsStore Oid} {level : List (DirEntryData Oid)}

theorem Below.trans {middle : List (DirEntryData Oid)} (first : Below store root middle)
    (second : Below store middle level) : Below store root level := by
  induction second with
  | root => exact first
  | child _ listed directory ih => exact .child ih listed directory

variable {entry : DirEntryData Oid}

theorem WellFormed.child (formed : WellFormed store root) (listed : entry ∈ root)
    (directory : isDir entry.mode = true) : WellFormed store (entriesOf store entry.id) := by
  intro level below
  exact formed level ((Below.child .root listed directory).trans below)

theorem WellFormed.entryOk (formed : WellFormed store root) (listed : entry ∈ root) :
    EntryOk store entry :=
  (formed root .root).2 entry listed

theorem WellFormed.nodup (formed : WellFormed store root) : (root.map DirEntryData.name).Nodup :=
  (formed root .root).1

theorem wellFormed_nil (store : FsStore Oid) : WellFormed store [] := by
  intro level below
  have isNil : level = [] := by
    induction below with
    | root => rfl
    | child _ listed _ ih => simp [ih] at listed
  simp [isNil]

theorem Below.cases_head (below : Below store root level) :
    level = root ∨ ∃ entry ∈ root, isDir entry.mode = true ∧
      Below store (entriesOf store entry.id) level := by
  induction below with
  | root => exact Or.inl rfl
  | child _ listed directory ih =>
    rcases ih with rfl | ⟨first, member, firstDir, below⟩
    · exact Or.inr ⟨_, listed, directory, .root⟩
    · exact Or.inr ⟨first, member, firstDir, .child below listed directory⟩

theorem wellFormed_of_check :
    ∀ (depth : Nat) {root : List (DirEntryData Oid)},
      wellFormedCheck store depth root = true → WellFormed store root := by
  intro depth
  induction depth with
  | zero =>
    intro root checked
    simp [wellFormedCheck] at checked
  | succ depth ih =>
    intro root checked
    simp only [wellFormedCheck, Bool.and_eq_true, decide_eq_true_eq, List.all_eq_true,
      Bool.or_eq_true, Option.isNone_iff_eq_none] at checked
    obtain ⟨unique, entriesOk⟩ := checked
    intro level below
    rcases below.cases_head with rfl | ⟨entry, listed, directory, below⟩
    · refine ⟨unique, fun entry listed => ?_⟩
      rcases entriesOk entry listed with ⟨regular, notDir⟩ | ⟨⟨directory, readable⟩, -⟩
      · exact Or.inl ⟨regular, notDir⟩
      · refine Or.inr ⟨directory, ?_⟩
        rcases readable with sentinel | stored
        · exact ⟨[], Or.inl ⟨sentinel, rfl⟩⟩
        · obtain ⟨data, read⟩ := Option.isSome_iff_exists.mp stored
          exact ⟨data.dirents, Or.inr ⟨data, read, rfl⟩⟩
    · rcases entriesOk entry listed with ⟨regular, -⟩ | ⟨-, checkedBelow⟩
      · rw [not_isDir_of_isRegular regular] at directory
        simp at directory
      · exact ih checkedBelow level below

theorem EntryOk.regular_or_dir (ok : EntryOk store entry) :
    isRegular entry.mode = !isDir entry.mode := by
  rcases ok with ⟨regular, -⟩ | ⟨directory, -⟩
  · rw [regular, not_isDir_of_isRegular regular]
    rfl
  · cases regular : isRegular entry.mode with
    | false => rw [directory]; rfl
    | true => rw [not_isDir_of_isRegular regular] at directory; simp at directory

variable {after : FsStore Oid}

theorem EntryOk.entriesOf_extends (ok : EntryOk store entry) (directory : isDir entry.mode = true)
    (grown : Table.Extends store after) : entriesOf after entry.id = entriesOf store entry.id := by
  rcases ok with ⟨regular, -⟩ | ⟨-, entries, stands⟩
  · rw [not_isDir_of_isRegular regular] at directory
    simp at directory
  · rw [stands.entries, (stands.extends grown).entries]

theorem hasFile_extends (grown : Table.Extends store after) :
    ∀ {path : List String} {root : List (DirEntryData Oid)} {id : Oid},
      WellFormed store root → (HasFile after root path id ↔ HasFile store root path id) := by
  intro path
  induction path with
  | nil =>
    intro root id formed
    rfl
  | cons name rest ih =>
    intro root id formed
    cases rest with
    | nil => rfl
    | cons next rest =>
      simp only [HasFile]
      refine exists_congr fun entry => and_congr_right fun listed =>
        and_congr_right fun _ => and_congr_right fun directory => ?_
      rw [(formed.entryOk listed).entriesOf_extends directory grown]
      exact ih (formed.child listed directory)

variable {entries : List (DirEntryData Oid)} {name : String}

section

omit [DecidableEq Oid] [Digests Oid]

theorem lookup_eq_some (found : lookup entries name = some entry) :
    entry ∈ entries ∧ entry.name = name := by
  have named := List.find?_some found
  exact ⟨List.mem_of_find?_eq_some found, by simpa using named⟩

theorem lookup_eq_some_iff (unique : (entries.map DirEntryData.name).Nodup) :
    lookup entries name = some entry ↔ entry ∈ entries ∧ entry.name = name :=
  find?_key_iff DirEntryData.name unique

end

theorem fileAt_extends (grown : Table.Extends store after) :
    ∀ {path : List String} {root : List (DirEntryData Oid)},
      WellFormed store root → fileAt after root path = fileAt store root path := by
  intro path
  induction path with
  | nil =>
    intro root formed
    rfl
  | cons name rest ih =>
    intro root formed
    cases rest with
    | nil => rfl
    | cons next rest =>
      simp only [fileAt]
      cases found : lookup root name with
      | none => rfl
      | some entry =>
        have listed := (lookup_eq_some found).1
        simp only [Option.bind_some]
        split
        · rename_i directory
          rw [(formed.entryOk listed).entriesOf_extends directory grown]
          exact ih (formed.child listed directory)
        · rfl

theorem not_hasFile_nil (store : FsStore Oid) (path : List String) (id : Oid) :
    ¬ HasFile store [] path id := by
  rcases path with _ | ⟨name, _ | ⟨next, rest⟩⟩ <;> simp [HasFile]

end Nanofile
