import Nanofile.Fs.FileOps
import Nanofile.Fs.MergeSound

/-!
# One directory of a tree edited

`EditedAt` says which tree a write is meant to make: the edit is applied to the
entries of one directory, and every directory above it lists the new child in the
place of the old one.  Files outside the directory stay.  `Rebuilt` is what the
walk from the directory up to the root really stores.
-/

set_option autoImplicit false

namespace Nanofile

open Nanofile.Lib

variable {Oid : Type} [DecidableEq Oid] [Digests Oid]

def withChild (name : String) (fsId : Oid) : List (DirEntryData Oid) → List (DirEntryData Oid)
  | [] => []
  | entry :: rest =>
    if entry.name = name then { entry with id := fsId } :: rest
    else entry :: withChild name fsId rest

/-- The tree `new` is the tree `old` with the directory at the path edited. -/
inductive EditedAt (store : FsStore Oid)
    (apply : List (DirEntryData Oid) → Except AppError (List (DirEntryData Oid) × String)) :
    List String → Oid → Oid → Prop
  | here {old new : Oid} {entries edited : List (DirEntryData Oid)} {description : String}
      (reads : StandsFor store old entries) (applied : apply entries = .ok (edited, description))
      (stands : StandsFor store new (stored edited)) : EditedAt store apply [] old new
  | down {name : String} {rest : List String} {old new child : Oid}
      {entries : List (DirEntryData Oid)} {entry : DirEntryData Oid}
      (reads : StandsFor store old entries) (found : lookup entries name = some entry)
      (directory : isDir entry.mode = true) (below : EditedAt store apply rest entry.id child)
      (stands : StandsFor store new (stored (withChild name child entries))) :
      EditedAt store apply (name :: rest) old new

variable {store after : FsStore Oid}
  {apply : List (DirEntryData Oid) → Except AppError (List (DirEntryData Oid) × String)}
    {new old : Oid}

theorem EditedAt.extends {path : List String} (edited : EditedAt store apply path old new)
    (grown : Table.Extends store after) : EditedAt after apply path old new := by
  induction edited with
  | here reads applied stands =>
    exact .here (reads.extends grown) applied (stands.extends grown)
  | down reads found directory _ stands ih =>
    exact .down (reads.extends grown) found directory ih (stands.extends grown)

/-- What a list of entries holds at a path is what its entries of the first name do. -/
def EntryHasFile (store : FsStore Oid) (entry : DirEntryData Oid) : List String → Oid → Prop
  | [], id => isRegular entry.mode = true ∧ entry.id = id
  | next :: rest, id =>
    isDir entry.mode = true ∧ HasFile store (entriesOf store entry.id) (next :: rest) id

variable {name : String}

theorem hasFile_iff_entry {entries : List (DirEntryData Oid)} {rest : List String} {id : Oid} :
    HasFile store entries (name :: rest) id ↔
      ∃ entry ∈ entries, entry.name = name ∧ EntryHasFile store entry rest id := by
  cases rest <;> rfl

omit [DecidableEq Oid] [Digests Oid] in
theorem exists_withChild {child : Oid} {entry : DirEntryData Oid} {P : DirEntryData Oid → Prop}
    (same : P { entry with id := child } ↔ P entry) :
    ∀ {entries : List (DirEntryData Oid)}, lookup entries name = some entry →
      ((∃ other ∈ withChild name child entries, P other) ↔ ∃ other ∈ entries, P other) := by
  intro entries
  induction entries with
  | nil =>
    intro found
    simp [lookup] at found
  | cons first rest ih =>
    intro found
    by_cases named : first.name = name
    · have isEntry : first = entry := by simpa [lookup, named] using found
      subst isEntry
      simp only [withChild, if_pos named, List.exists_mem_cons_iff, same]
    · have found' : lookup rest name = some entry := by simpa [lookup, named] using found
      simp [withChild, named, ih found']

theorem EditedAt.entriesOf_here (edited : EditedAt store apply [] old new) :
    ∃ entries description, apply (entriesOf store old) = .ok (entries, description) ∧
      entriesOf store new = stored entries := by
  cases edited with
  | here reads applied stands =>
    exact ⟨_, _, reads.entries ▸ applied, stands.entries⟩

theorem EditedAt.hasFile_iff {path : List String} (edited : EditedAt store apply path old new) :
    ∀ {other : List String}, ¬ path <+: other → ∀ {id : Oid},
      (HasFile store (entriesOf store new) other id ↔
        HasFile store (entriesOf store old) other id) := by
  induction edited with
  | here =>
    intro other outside
    exact absurd List.nil_prefix outside
  | @down name rest old new child entries entry reads found directory below stands ih =>
    intro other outside id
    rw [stands.entries, reads.entries, hasFile_stored]
    cases other with
    | nil => rfl
    | cons first others =>
      rw [hasFile_iff_entry, hasFile_iff_entry]
      refine exists_withChild ?_ found
      apply and_congr_right
      intro named
      cases others with
      | nil => simp [EntryHasFile, not_isRegular_of_isDir directory]
      | cons next others =>
        apply and_congr_right
        intro _
        apply ih
        intro prefixed
        exact outside (by
          rw [← named, (lookup_eq_some found).2]
          exact List.cons_prefix_cons.mpr ⟨rfl, prefixed⟩)

/-- A root leads over the names of the levels to the directory. -/
def LeadsTo (store : FsStore Oid) : Oid → List (String × Oid) → Oid → Prop
  | root, [], parent => root = parent
  | root, (name, dir) :: rest, parent => root = dir ∧ ∃ entry,
      lookup (entriesOf store dir) name = some entry ∧ isDir entry.mode = true ∧
        LeadsTo store entry.id rest parent

instance decidableLeadsTo (store : FsStore Oid) :
    ∀ (root : Oid) (levels : List (String × Oid)) (parent : Oid),
      Decidable (LeadsTo store root levels parent)
  | root, [], parent => inferInstanceAs (Decidable (root = parent))
  | root, (name, dir) :: rest, parent =>
    have : ∀ entry : DirEntryData Oid, Decidable (LeadsTo store entry.id rest parent) :=
      fun entry => decidableLeadsTo store entry.id rest parent
    decidable_of_iff (root = dir ∧ (lookup (entriesOf store dir) name).any (fun entry =>
        isDir entry.mode && decide (LeadsTo store entry.id rest parent)) = true) (by
      simp [LeadsTo, Option.any_eq_true])

/-- Each level lists the one below it, up to the new root. -/
def Rebuilt (store : FsStore Oid) : List (String × Oid) → Oid → Oid → Prop
  | [], bottom, top => bottom = top
  | (name, dir) :: rest, bottom, top => ∃ entries child now, Rebuilt store rest bottom child ∧
      StandsFor store dir entries ∧ StandsFor store top (stored (setChild now name child entries))

theorem Rebuilt.extends (grown : Table.Extends store after) {bottom : Oid} :
    ∀ {levels : List (String × Oid)} {top : Oid}, Rebuilt store levels bottom top →
      Rebuilt after levels bottom top := by
  intro levels
  induction levels with
  | nil => exact fun rebuilt => rebuilt
  | cons level rest ih =>
    intro top rebuilt
    obtain ⟨entries, child, now, below, reads, stands⟩ := rebuilt
    exact ⟨entries, child, now, ih below, reads.extends grown, stands.extends grown⟩

omit [DecidableEq Oid] [Digests Oid] in
theorem setChild_eq_withChild {now : Int} {child : Oid} :
    ∀ {entries : List (DirEntryData Oid)} {entry : DirEntryData Oid},
      lookup entries name = some entry →
      setChild now name child entries = withChild name child entries := by
  intro entries
  induction entries with
  | nil =>
    intro entry found
    simp [lookup] at found
  | cons first rest ih =>
    intro entry found
    by_cases named : first.name = name
    · simp [setChild, withChild, named]
    · have found' : lookup rest name = some entry := by simpa [lookup, named] using found
      simp [setChild, withChild, named, ih found']

/-- The rebuilt tree is the tree meant, when the root leads over the levels rewritten
to the directory that was edited. -/
theorem editedAt_of_rebuilt {parent bottom : Oid} {entries edited : List (DirEntryData Oid)}
    {description : String} (reads : StandsFor store parent entries)
    (applied : apply entries = .ok (edited, description))
    (stands : StandsFor store bottom (stored edited)) :
    ∀ {levels : List (String × Oid)} {root top : Oid}, LeadsTo store root levels parent →
      Rebuilt store levels bottom top → EditedAt store apply (levels.map Prod.fst) root top := by
  intro levels
  induction levels with
  | nil =>
    intro root top leads rebuilt
    have sameRoot : root = parent := leads
    have sameTop : bottom = top := rebuilt
    exact .here (sameRoot ▸ reads) applied (sameTop ▸ stands)
  | cons level rest ih =>
    intro root top leads rebuilt
    obtain ⟨rfl, entry, found, directory, leads⟩ := leads
    obtain ⟨listed, child, now, below, readsLevel, standsLevel⟩ := rebuilt
    rw [readsLevel.entries] at found
    rw [setChild_eq_withChild found] at standsLevel
    exact .down readsLevel found directory (ih leads below) standsLevel

end Nanofile
