import Nanofile.Service.LocatedDirs

/-!
# What an upload stores

The directory of an upload grows by the bytes of the new file, less those found under the
name that it replaces.
-/

set_option autoImplicit false

namespace Nanofile

open Nanofile.Lib

variable {Oid : Type} [DecidableEq Oid] [Digests Oid]

section Added

variable {store : FsStore Oid} {dirents : List (DirEntryData Oid)} {fileFsId : Oid}
  {totalSize : Int}

theorem FileOfSize.entry (file : FileOfSize store fileFsId totalSize) (name modifier : String)
    (now : Int) :
    HonestEntry store ⟨fileFsId, sIfreg, modifier, now, name, totalSize⟩ ∧
      entrySize store ⟨fileFsId, sIfreg, modifier, now, name, totalSize⟩ = totalSize := by
  have kind : isDir sIfreg = false := by decide
  have regular : isRegular sIfreg = true := by decide
  simp only [HonestEntry, entrySize, kind, Bool.false_eq_true, if_false]
  exact ⟨⟨regular, file⟩, trivial⟩

theorem addFile_sized {name modifier : String} {now : Int} {replace : Bool}
    (honest : HonestEntries store dirents) (file : FileOfSize store fileFsId totalSize) :
    HonestEntries store (addFile fileFsId name modifier totalSize now replace dirents).1 ∧
      entriesSize store (addFile fileFsId name modifier totalSize now replace dirents).1 =
        entriesSize store dirents +
          (totalSize - if replace then namedSize store dirents name else 0) := by
  have unique : NamesNodup (addFile fileFsId name modifier totalSize now replace dirents).1 :=
    namesNodup_addFile honest.1
  have concat : ∀ kept : List (DirEntryData Oid), HonestEntries store kept → ∀ effective : String,
      (∀ entry ∈ kept ++ [⟨fileFsId, sIfreg, modifier, now, effective, totalSize⟩],
        HonestEntry store entry) ∧
      entriesSize store (kept ++ [⟨fileFsId, sIfreg, modifier, now, effective, totalSize⟩]) =
        entriesSize store kept + totalSize := by
    intro kept honestKept effective
    obtain ⟨honestFile, isSize⟩ := file.entry effective modifier now
    constructor
    · intro entry listed
      rcases List.mem_append.mp listed with before | new
      · exact honestKept.2 entry before
      · rw [List.mem_singleton.mp new]
        exact honestFile
    · rw [entriesSize_append, entriesSize_cons, entriesSize_nil, isSize]
      omega
  unfold addFile at unique ⊢
  dsimp only at unique ⊢
  cases identical : (replace && dirents.any fun entry =>
      entry.name = name && entry.id = fileFsId && entry.size = totalSize) with
  | true =>
    -- The file is there already.
    simp only [Bool.not_true, Bool.and_false, Bool.false_eq_true, if_false, if_true]
    obtain ⟨replaces, present⟩ := Bool.and_eq_true_iff.mp identical
    obtain ⟨entry, listed, same⟩ := List.any_eq_true.mp present
    simp only [Bool.and_eq_true, decide_eq_true_eq] at same
    obtain ⟨⟨named, sameId⟩, -⟩ := same
    have found : findEntry dirents name = some entry :=
      (lookup_eq_some_iff honest.1).mpr ⟨listed, named⟩
    obtain ⟨honestFile, isSize⟩ := file.entry name modifier now
    have sameSize := entrySize_of_id (honest.found found) honestFile sameId
    refine ⟨honest, ?_⟩
    rw [if_pos replaces, namedSize, found, Option.map_some, Option.getD_some]
    omega
  | false =>
    rw [identical] at unique
    simp only [Bool.not_false, Bool.and_true, Bool.false_eq_true, if_false] at unique ⊢
    cases replace with
    | true =>
      simp only [if_true, Bool.not_true, Bool.false_and, Bool.false_eq_true, if_false]
        at unique ⊢
      obtain ⟨all, isSize⟩ := concat _ (honest.filter fun entry => entry.name ≠ name) name
      have removed := entriesSize_withoutName name honest
      rw [withoutName] at removed
      refine ⟨⟨unique, all⟩, ?_⟩
      omega
    | false =>
      simp only [Bool.false_eq_true, if_false] at unique ⊢
      obtain ⟨all, isSize⟩ := concat dirents honest _
      refine ⟨⟨unique, all⟩, ?_⟩
      omega

end Added

theorem nonnegFiles_storeFile {store : FsStore Oid} (nonneg : NonnegFiles store)
    {data : FsFileData Oid} (positive : 0 ≤ data.size) :
    NonnegFiles (storeFsFileObject store data).2 := by
  unfold storeFsFileObject
  split
  · exact nonneg
  · intro fsId file found
    rcases Table.find_insertOrIgnore_cases found with before | ⟨-, same⟩
    · exact nonneg fsId file before
    · cases same
      exact positive

theorem fileOfSize_stored {store : FsStore Oid} (data : FsFileData Oid)
    (genuine : Genuine store) :
    FileOfSize (storeFsFileObject store data).2 (storeFsFileObject store data).1 data.size := by
  unfold storeFsFileObject
  split
  · rename_i isEmpty
    exact ⟨emptyFileData, by rw [fileBatch, if_pos rfl], isEmpty.symm⟩
  · have denoted := Digests.denotes_file data
    have nonempty : Digests.fileId data ≠ emptySha1 :=
      fun same => Digests.empty_not_denotes _ (same ▸ denoted)
    refine ⟨data, ?_, rfl⟩
    rw [fileBatch, if_neg nonempty, find_insert_of_denotes genuine denoted]

theorem storeFile_spec {state after : WebState Oid} {data : FsFileData Oid} {fsId : Oid}
    (genuine : Genuine state.repo.fsObjects) (positive : 0 ≤ data.size)
    (run : Web.storeFile data state = (.ok fsId, after)) :
    StoredMore state after ∧ FileOfSize after.repo.fsObjects fsId data.size := by
  cases run
  obtain ⟨grown, genuine'⟩ := storeFsFileObject_spec genuine
    (rfl : storeFsFileObject state.repo.fsObjects data = _)
  exact ⟨⟨grown, genuine', fun nonneg => nonnegFiles_storeFile nonneg positive, rfl, rfl⟩,
    fileOfSize_stored data genuine⟩

end Nanofile
