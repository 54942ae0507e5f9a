import Nanofile.Base.Common
import Nanofile.Lib.Table

/-!
# Reading and storing fs objects

The object store of one library is the keyed table of its `fs_objects` rows.
`EMPTY_SHA1` is never stored: it is read as an empty directory and, by the file
reader, as a zero-byte file.
-/

set_option autoImplicit false

namespace Nanofile

open Nanofile.Lib

variable {Oid : Type} [DecidableEq Oid] [Digests Oid]

abbrev FsStore (Oid : Type) := Table Oid (FsObject Oid)

def emptyDirData : FsDirData Oid := ⟨[], seafMetadataTypeDir, 1⟩

def emptyFileData : FsFileData Oid := ⟨[], 0, seafMetadataTypeFile, 1⟩

/-- `read_fs_dir_data`: a missing row and a row of the wrong type are both
reported as not found. -/
def readFsDirData [ToString Oid] (store : FsStore Oid) (fsId : Oid) :
    Except AppError (FsDirData Oid) :=
  if fsId = emptySha1 then .ok emptyDirData
  else
    match store.find fsId with
    | none => .error (.notFound ("fs_object not found: " ++ toString fsId))
    | some (.file _) =>
      .error (.notFound ("fs_object " ++ toString fsId ++ " is not a directory"))
    | some (.dir data) => .ok data

def readFsFileData [ToString Oid] (store : FsStore Oid) (fsId : Oid) :
    Except AppError (FsFileData Oid) :=
  if fsId = emptySha1 then .ok emptyFileData
  else
    match store.find fsId with
    | none => .error (.notFound ("fs_object not found: " ++ toString fsId))
    | some (.dir _) =>
      .error (.notFound ("fs_object " ++ toString fsId ++ " is not a file"))
    | some (.file data) => .ok data

/-- The map `read_fs_dir_data_batch` returns, as a lookup: the sentinel, missing
rows and files are absent. -/
def dirBatch (store : FsStore Oid) (fsId : Oid) : Option (FsDirData Oid) :=
  if fsId = emptySha1 then none
  else
    match store.find fsId with
    | some (.dir data) => some data
    | _ => none

/-- The map `read_fs_file_data_batch` returns, as a lookup: the sentinel yields
a synthesised zero-byte file. -/
def fileBatch (store : FsStore Oid) (fsId : Oid) : Option (FsFileData Oid) :=
  if fsId = emptySha1 then some emptyFileData
  else
    match store.find fsId with
    | some (.file data) => some data
    | _ => none

/-- The entry a map collected by name holds: the last one of the name. -/
def lastNamed (entries : List (DirEntryData Oid)) (name : String) :
    Option (DirEntryData Oid) :=
  entries.reverse.find? fun entry => entry.name = name

/-- `store_fs_dir_object`: the id of an empty directory is the sentinel; any
other directory is sorted, hashed and inserted unless its id is taken. -/
def storeFsDirObject (store : FsStore Oid) (data : FsDirData Oid) :
    Oid × FsStore Oid :=
  if data.dirents.isEmpty then (emptySha1, store)
  else
    let sorted := { data with dirents := sortDirentsDesc data.dirents }
    let fsId := Digests.dirId sorted
    (fsId, store.insertOrIgnore fsId (.dir sorted.written))

/-- `store_fs_file_object`: a zero-byte file keeps the sentinel id. -/
def storeFsFileObject (store : FsStore Oid) (data : FsFileData Oid) :
    Oid × FsStore Oid :=
  if data.size = 0 then (emptySha1, store)
  else
    let fsId := Digests.fileId data
    (fsId, store.insertOrIgnore fsId (.file data))

/-- Every stored object is one its id denotes.  A row under the sentinel is never
read, so nothing is said about it. -/
def Genuine (store : FsStore Oid) : Prop :=
  ∀ fsId object, fsId ≠ emptySha1 → store.find fsId = some object →
    Digests.Denotes fsId object

/-- A directory id that reads back as these entries. -/
def StandsFor (store : FsStore Oid) (fsId : Oid) (entries : List (DirEntryData Oid)) :
    Prop :=
  (fsId = emptySha1 ∧ entries = []) ∨
    ∃ data, dirBatch store fsId = some data ∧ data.dirents = entries

/-- The entries a directory id stands for; none for a file or a missing row. -/
def entriesOf (store : FsStore Oid) (fsId : Oid) : List (DirEntryData Oid) :=
  ((dirBatch store fsId).map FsDirData.dirents).getD []

omit [DecidableEq Oid] in
theorem dirId_ne_empty (data : FsDirData Oid) : Digests.dirId data ≠ emptySha1 := by
  intro same
  exact Digests.empty_not_denotes _ (same ▸ Digests.denotes_dir data)

variable {store : FsStore Oid}

theorem genuine_of_rows (rows : ∀ row ∈ store.rows, Digests.Denotes row.1 row.2) :
    Genuine store := by
  intro fsId object _ found
  simp only [Table.find, Option.map_eq_some_iff] at found
  obtain ⟨row, present, rfl⟩ := found
  have sameId : row.1 = fsId := by simpa using List.find?_some present
  exact sameId ▸ rows row (List.mem_of_find?_eq_some present)

variable {fsId : Oid} {object : FsObject Oid}

theorem genuine_insert (genuine : Genuine store)
    (denoted : fsId ≠ emptySha1 → Digests.Denotes fsId object) :
    Genuine (store.insertOrIgnore fsId object) := by
  intro other present nonempty found
  rcases Table.find_insertOrIgnore_cases found with before | ⟨sameId, sameObject⟩
  · exact genuine other present nonempty before
  · rw [sameId, sameObject]
    exact denoted (sameId ▸ nonempty)

theorem find_insert_of_denotes (genuine : Genuine store) (denoted : Digests.Denotes fsId object) :
    (store.insertOrIgnore fsId object).find fsId = some object := by
  rw [Table.find_insertOrIgnore_self]
  cases found : store.find fsId with
  | none => rfl
  | some present =>
    have nonempty : fsId ≠ emptySha1 := by
      intro same
      exact Digests.empty_not_denotes _ (same ▸ denoted)
    have same : present = object :=
      Digests.denotes_unique (genuine fsId present nonempty found) denoted
    simp [same]

theorem dirBatch_empty (store : FsStore Oid) : dirBatch store emptySha1 = none := by
  simp [dirBatch]

variable {after before : FsStore Oid} {data : FsDirData Oid}

theorem dirBatch_extends (grown : Table.Extends before after)
    (read : dirBatch before fsId = some data) : dirBatch after fsId = some data := by
  unfold dirBatch at read ⊢
  split at read
  · exact absurd read (by simp)
  · rename_i nonempty
    rw [if_neg nonempty]
    cases found : before.find fsId with
    | none => simp [found] at read
    | some object =>
      rw [found] at read
      rw [grown fsId object found]
      exact read

theorem StandsFor.extends {entries : List (DirEntryData Oid)}
    (stands : StandsFor before fsId entries) (grown : Table.Extends before after) :
    StandsFor after fsId entries := by
  rcases stands with sentinel | ⟨data, read, same⟩
  · exact Or.inl sentinel
  · exact Or.inr ⟨data, dirBatch_extends grown read, same⟩

theorem StandsFor.entries {entries : List (DirEntryData Oid)}
    (stands : StandsFor store fsId entries) : entriesOf store fsId = entries := by
  rcases stands with ⟨sentinel, none⟩ | ⟨data, read, same⟩
  · rw [sentinel, none, entriesOf, dirBatch_empty]
    rfl
  · rw [entriesOf, read]
    exact same

/-- What storing a directory does: the store grows, stays genuine, and the
returned id stands for the given entries as written. -/
theorem storeFsDirObject_spec (data : FsDirData Oid) (genuine : Genuine store) :
    Table.Extends store (storeFsDirObject store data).2 ∧
      Genuine (storeFsDirObject store data).2 ∧
      StandsFor (storeFsDirObject store data).2 (storeFsDirObject store data).1
        ((sortDirentsDesc data.dirents).map DirEntryData.written) := by
  unfold storeFsDirObject
  split
  · rename_i isEmpty
    have none : data.dirents = [] := by simpa using isEmpty
    refine ⟨Table.Extends.refl store, genuine, Or.inl ⟨rfl, ?_⟩⟩
    simp [none, sortDirentsDesc]
  · set sorted := { data with dirents := sortDirentsDesc data.dirents }
    have denoted := Digests.denotes_dir sorted
    have found := find_insert_of_denotes genuine denoted
    have nonempty : Digests.dirId sorted ≠ emptySha1 := dirId_ne_empty sorted
    refine ⟨Table.extends_insertOrIgnore _ _ _, genuine_insert genuine fun _ => denoted,
      Or.inr ⟨sorted.written, ?_, rfl⟩⟩
    rw [dirBatch, if_neg nonempty, found]

theorem standsFor_of_readFsDirData [ToString Oid] (read : readFsDirData store fsId = .ok data) :
    StandsFor store fsId data.dirents := by
  unfold readFsDirData at read
  split at read
  · rename_i isEmpty
    cases read
    exact Or.inl ⟨isEmpty, rfl⟩
  · rename_i nonempty
    split at read
    · simp at read
    · simp at read
    · rename_i found
      cases read
      refine Or.inr ⟨_, ?_, rfl⟩
      rw [dirBatch, if_neg nonempty, found]

end Nanofile
