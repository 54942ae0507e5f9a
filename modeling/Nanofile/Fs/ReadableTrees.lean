import Nanofile.Fs.TreeSemantics

/-!
# Trees whose directories are all stored

A store only grows while clients push, and a file that a tree has stays in it.  A tree
that lacks a file may get it when a directory arrives late, unless every directory of
it is stored already.
-/

set_option autoImplicit false

namespace Nanofile

open Nanofile.Lib

variable {Oid : Type} [DecidableEq Oid] [Digests Oid]

/-- The tree under a directory id has a file with this id at the path. -/
def TreeHas (store : FsStore Oid) (rootId : Oid) (path : List String) (id : Oid) : Prop :=
  HasFile store (entriesOf store rootId) path id

/-- Every directory below these entries is stored. -/
def Readable (store : FsStore Oid) (root : List (DirEntryData Oid)) : Prop :=
  ∀ level, Below store root level → ∀ entry ∈ level, isDir entry.mode = true →
    ∃ entries, StandsFor store entry.id entries

def ReadableTree (store : FsStore Oid) (rootId : Oid) : Prop :=
  (∃ entries, StandsFor store rootId entries) ∧ Readable store (entriesOf store rootId)

variable {after store : FsStore Oid} {id : Oid} {path : List String}

theorem entriesOf_of_hasFile (grown : Table.Extends store after) {fsId : Oid}
    (has : HasFile store (entriesOf store fsId) path id) :
    entriesOf after fsId = entriesOf store fsId := by
  cases read : dirBatch store fsId with
  | none =>
    rw [entriesOf, read] at has
    exact absurd has (not_hasFile_nil store path id)
  | some data => rw [entriesOf, entriesOf, read, dirBatch_extends grown read]

theorem hasFile_grows (grown : Table.Extends store after) :
    ∀ {path : List String} {root : List (DirEntryData Oid)} {id : Oid},
      HasFile store root path id → HasFile after root path id := by
  intro path
  induction path with
  | nil => exact fun found => found
  | cons name rest ih =>
    intro root id found
    cases rest with
    | nil => exact found
    | cons next rest =>
      obtain ⟨entry, listed, named, directory, below⟩ := found
      refine ⟨entry, listed, named, directory, ih ?_⟩
      rw [entriesOf_of_hasFile grown below]
      exact below

variable {rootId : Oid}

theorem TreeHas.grows (grown : Table.Extends store after) (has : TreeHas store rootId path id) :
    TreeHas after rootId path id := by
  rw [TreeHas, entriesOf_of_hasFile grown has]
  exact hasFile_grows grown has

variable {root : List (DirEntryData Oid)}

theorem Readable.child {entry : DirEntryData Oid} (readable : Readable store root)
    (listed : entry ∈ root) (directory : isDir entry.mode = true) :
    Readable store (entriesOf store entry.id) := by
  intro level below
  exact readable level ((Below.child .root listed directory).trans below)

theorem WellFormed.readable (formed : WellFormed store root) : Readable store root := by
  intro level below entry listed directory
  rcases (formed level below).2 entry listed with ⟨regular, -⟩ | ⟨-, stands⟩
  · rw [not_isDir_of_isRegular regular] at directory
    cases directory
  · exact stands

section

variable (grown : Table.Extends store after)
include grown

theorem hasFile_readable :
    ∀ {path : List String} {root : List (DirEntryData Oid)} {id : Oid},
      Readable store root → HasFile after root path id → HasFile store root path id := by
  intro path
  induction path with
  | nil => exact fun _ found => found
  | cons name rest ih =>
    intro root id readable found
    cases rest with
    | nil => exact found
    | cons next rest =>
      obtain ⟨entry, listed, named, directory, below⟩ := found
      obtain ⟨entries, stands⟩ := readable root .root entry listed directory
      refine ⟨entry, listed, named, directory, ih (readable.child listed directory) ?_⟩
      rw [stands.entries, ← (stands.extends grown).entries]
      exact below

theorem Below.of_readable {level : List (DirEntryData Oid)} (readable : Readable store root)
    (below : Below after root level) : Below store root level := by
  induction below with
  | root => exact .root
  | child above listed directory ih =>
    obtain ⟨entries, stands⟩ := readable _ ih _ listed directory
    rw [(stands.extends grown).entries, ← stands.entries]
    exact .child ih listed directory

theorem ReadableTree.same (readable : ReadableTree store rootId) :
    entriesOf after rootId = entriesOf store rootId := by
  obtain ⟨⟨entries, stands⟩, -⟩ := readable
  rw [stands.entries, (stands.extends grown).entries]

theorem ReadableTree.grows (readable : ReadableTree store rootId) : ReadableTree after rootId := by
  have same := readable.same grown
  obtain ⟨⟨entries, stands⟩, below⟩ := readable
  refine ⟨⟨entries, stands.extends grown⟩, ?_⟩
  rw [same]
  intro level reached entry listed directory
  obtain ⟨others, stands⟩ := below level (reached.of_readable grown below) entry listed directory
  exact ⟨others, stands.extends grown⟩

theorem ReadableTree.has_iff (readable : ReadableTree store rootId) :
    TreeHas after rootId path id ↔ TreeHas store rootId path id := by
  constructor
  · intro has
    rw [TreeHas, readable.same grown] at has
    exact hasFile_readable grown readable.2 has
  · exact TreeHas.grows grown

end

end Nanofile
