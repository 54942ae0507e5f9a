import Nanofile.Base.Common

/-!
# A digest without collisions

The id of an object is its serialised text itself.  Nothing collides, so this is
an instance of `Digests`; concrete trees are built and run with it.
-/

set_option autoImplicit false

namespace Nanofile

inductive FreeId where
  | empty
  | atom (value : Int)
  | text (value : String)
  | pair (first second : FreeId)
  /-- The same bytes as `id`, with a letter in upper case. -/
  | upper (id : FreeId)
deriving DecidableEq, Repr

namespace FreeId

instance : ToString FreeId := ⟨fun id => (repr id).pretty⟩

def lower : FreeId → FreeId
  | upper id => id.lower
  | id => id

def list : List FreeId → FreeId
  | [] => empty
  | first :: rest => pair first (list rest)

def entry (data : DirEntryData FreeId) : FreeId :=
  list [data.id, atom data.mode.toNat, text data.modifier, atom data.mtime,
    text data.name, atom data.size]

def object : FsObject FreeId → FreeId
  | .dir data => list [atom 3, list (data.dirents.map entry), atom data.objType,
      atom data.version]
  | .file data => list [atom 1, list data.blockIds, atom data.size, atom data.objType,
      atom data.version]

theorem list_injective : Function.Injective list := by
  intro first
  induction first with
  | nil =>
    intro second same
    cases second with
    | nil => rfl
    | cons head tail => simp [list] at same
  | cons head tail ih =>
    intro second same
    cases second with
    | nil => simp [list] at same
    | cons other rest =>
      simp only [list, pair.injEq] at same
      rw [same.1, ih same.2]

theorem entry_injective : Function.Injective entry := by
  intro first second same
  cases first
  cases second
  simp only [entry, list, pair.injEq, atom.injEq, text.injEq] at same
  obtain ⟨ids, modes, modifiers, mtimes, names, sizes, -⟩ := same
  have sameMode := BitVec.eq_of_toNat_eq (Int.ofNat.inj modes)
  simp [ids, sameMode, modifiers, mtimes, names, sizes]

theorem object_injective : Function.Injective object := by
  intro first second same
  rcases first with ⟨dirents, dirType, dirVersion⟩ | ⟨blocks, size, fileType, fileVersion⟩ <;>
    rcases second with ⟨dirents', dirType', dirVersion'⟩ |
      ⟨blocks', size', fileType', fileVersion'⟩ <;>
    simp only [object, list, pair.injEq, atom.injEq] at same
  · obtain ⟨-, listed, types, versions, -⟩ := same
    have sameDirents := List.map_injective_iff.mpr entry_injective (list_injective listed)
    rw [sameDirents, types, versions]
  · exact absurd same.1 (by decide)
  · exact absurd same.1 (by decide)
  · obtain ⟨-, listed, sizes, types, versions, -⟩ := same
    rw [list_injective listed, sizes, types, versions]

end FreeId

instance freeDigests : Digests FreeId where
  emptySha1 := .empty
  dirId data := FreeId.object (.dir data.written)
  fileId data := FreeId.object (.file data)
  isValidBlockId _ := true
  decodeSha1Hex := FreeId.lower
  commitId rootId creator texts ctime :=
    FreeId.list [.atom 0, rootId, creator, FreeId.list (texts.map .text), .atom ctime]
  Denotes id object := id = FreeId.object object
  denotes_unique := by
    intro id first second named named'
    exact FreeId.object_injective (named.symm.trans named')
  denotes_dir _ := rfl
  denotes_file _ := rfl
  empty_not_denotes := by
    intro object
    cases object <;> simp [FreeId.object, FreeId.list]
  commitId_fields := by
    intro rootId rootId' creator creator' texts texts' ctime ctime' same
    simp only [FreeId.list, FreeId.pair.injEq, FreeId.atom.injEq] at same
    exact ⟨same.2.1, same.2.2.2.2.1⟩

instance (id : FreeId) (object : FsObject FreeId) : Decidable (Digests.Denotes id object) :=
  inferInstanceAs (Decidable (id = FreeId.object object))

def fileEntry (name : String) (id : FreeId) (size : Int) : DirEntryData FreeId :=
  ⟨id, sIfreg, "user", 0, name, size⟩

def dirEntry (name : String) (id : FreeId) : DirEntryData FreeId :=
  ⟨id, sIfdir, "", 0, name, 0⟩

def directory (entries : List (DirEntryData FreeId)) : FsDirData FreeId :=
  ⟨entries, seafMetadataTypeDir, 1⟩

end Nanofile
