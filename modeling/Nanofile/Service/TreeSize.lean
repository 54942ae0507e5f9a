import Mathlib.Algebra.BigOperators.Group.List.Lemmas
import Nanofile.Service.Size

/-!
# The size of an honest tree

A tree is honest when every directory of it is stored with unique names and every
file entry records the size of its file.  `Sized` gives its size, which is what
`compute_tree_size` sums up whenever the tree is within the limits.  In an honest
tree an id alone decides how much an entry adds.
-/

set_option autoImplicit false

namespace Nanofile

open Nanofile.Lib

variable {Oid : Type} [DecidableEq Oid] [Digests Oid]

/-- A regular file whose entry records the size of the stored file. -/
def HonestFile (store : FsStore Oid) (entry : DirEntryData Oid) : Prop :=
  isRegular entry.mode = true ∧
    ∃ file, fileBatch store entry.id = some file ∧ file.size = entry.size

def FileOfSize (store : FsStore Oid) (fileFsId : Oid) (size : Int) : Prop :=
  ∃ file, fileBatch store fileFsId = some file ∧ file.size = size

inductive Sized (store : FsStore Oid) : Oid → Int → Prop
  | empty : Sized store emptySha1 0
  | dir {fsId : Oid} {data : FsDirData Oid} {sizes : DirEntryData Oid → Int}
      (read : dirBatch store fsId = some data)
      (unique : (data.dirents.map DirEntryData.name).Nodup)
      (files : ∀ entry ∈ data.dirents, isDir entry.mode = false →
        HonestFile store entry ∧ sizes entry = entry.size)
      (dirs : ∀ entry ∈ data.dirents, isDir entry.mode = true →
        Sized store entry.id (sizes entry)) :
      Sized store fsId ((data.dirents.map sizes).sum)

def Honest (store : FsStore Oid) (fsId : Oid) : Prop := ∃ size, Sized store fsId size

def sizeCheck (store : FsStore Oid) : Nat → Oid → Bool
  | 0, _ => false
  | depth + 1, fsId =>
    decide (fsId = emptySha1) || (dirBatch store fsId).any fun data =>
      decide (data.dirents.map DirEntryData.name).Nodup && data.dirents.all fun entry =>
        if isDir entry.mode then sizeCheck store depth entry.id
        else isRegular entry.mode &&
          (fileBatch store entry.id).any fun file => file.size = entry.size

variable {fsId : Oid} {size : Int} {store : FsStore Oid}

theorem sized_unique (sized : Sized store fsId size) :
    ∀ {size' : Int}, Sized store fsId size' → size = size' := by
  induction sized with
  | empty =>
    intro size' sized'
    cases sized' with
    | empty => rfl
    | dir read => simp [dirBatch_empty] at read
  | @dir fsId data sizes read unique files dirs ih =>
    intro size' sized'
    cases sized' with
    | empty => simp [dirBatch_empty] at read
    | @dir _ data' sizes' read' unique' files' dirs' =>
      rw [read, Option.some.injEq] at read'
      subst read'
      congr 1
      apply List.map_congr_left
      intro entry listed
      cases directory : isDir entry.mode with
      | false => rw [(files entry listed directory).2, (files' entry listed directory).2]
      | true => exact ih entry listed directory (dirs' entry listed directory)

noncomputable def treeSize (store : FsStore Oid) (fsId : Oid) : Int :=
  open Classical in if honest : Honest store fsId then honest.choose else 0

theorem Sized.treeSize_eq (sized : Sized store fsId size) : treeSize store fsId = size := by
  have honest : Honest store fsId := ⟨size, sized⟩
  rw [treeSize, dif_pos honest]
  exact sized_unique honest.choose_spec sized

theorem Honest.sized (honest : Honest store fsId) : Sized store fsId (treeSize store fsId) := by
  obtain ⟨size, sized⟩ := honest
  rw [sized.treeSize_eq]
  exact sized

theorem honest_empty (store : FsStore Oid) : Honest store emptySha1 := ⟨0, .empty⟩

@[simp] theorem treeSize_empty (store : FsStore Oid) : treeSize store emptySha1 = 0 :=
  Sized.empty.treeSize_eq

def HonestEntry (store : FsStore Oid) (entry : DirEntryData Oid) : Prop :=
  if isDir entry.mode then Honest store entry.id else HonestFile store entry

noncomputable def entrySize (store : FsStore Oid) (entry : DirEntryData Oid) : Int :=
  if isDir entry.mode then treeSize store entry.id else entry.size

theorem Honest.dir {data : FsDirData Oid} (honest : Honest store fsId)
    (read : dirBatch store fsId = some data) :
    (data.dirents.map DirEntryData.name).Nodup ∧
      (∀ entry ∈ data.dirents, HonestEntry store entry) ∧
      treeSize store fsId = (data.dirents.map (entrySize store)).sum := by
  obtain ⟨size, sized⟩ := honest
  have isSize := sized.treeSize_eq
  cases sized with
  | empty => simp [dirBatch_empty] at read
  | @dir _ data' sizes read' unique files dirs =>
    rw [read, Option.some.injEq] at read'
    subst read'
    refine ⟨unique, ?_, ?_⟩
    · intro entry listed
      unfold HonestEntry
      split
      · rename_i directory
        exact ⟨_, dirs entry listed directory⟩
      · rename_i file
        exact (files entry listed (by simpa using file)).1
    · rw [isSize]
      congr 1
      apply List.map_congr_left
      intro entry listed
      unfold entrySize
      split
      · rename_i directory
        exact (dirs entry listed directory).treeSize_eq.symm
      · rename_i file
        exact (files entry listed (by simpa using file)).2

theorem Honest.stored (honest : Honest store fsId) (nonempty : fsId ≠ emptySha1) :
    ∃ data, dirBatch store fsId = some data := by
  obtain ⟨size, sized⟩ := honest
  cases sized with
  | empty => exact absurd rfl nonempty
  | dir read => exact ⟨_, read⟩

theorem honest_of_entries {data : FsDirData Oid} (read : dirBatch store fsId = some data)
    (unique : (data.dirents.map DirEntryData.name).Nodup)
    (entries : ∀ entry ∈ data.dirents, HonestEntry store entry) : Honest store fsId := by
  refine ⟨(data.dirents.map (entrySize store)).sum, .dir read unique ?_ ?_⟩
  · intro entry listed file
    have honest := entries entry listed
    simp only [HonestEntry, file, Bool.false_eq_true, if_false] at honest
    exact ⟨honest, by simp [entrySize, file]⟩
  · intro entry listed directory
    have honest := entries entry listed
    simp only [HonestEntry, directory, if_true] at honest
    simpa [entrySize, directory] using honest.sized

theorem honest_of_sizeCheck : ∀ (depth : Nat) {fsId : Oid},
    sizeCheck store depth fsId = true → Honest store fsId := by
  intro depth
  induction depth with
  | zero =>
    intro fsId checked
    simp [sizeCheck] at checked
  | succ depth ih =>
    intro fsId checked
    simp only [sizeCheck, Bool.or_eq_true, decide_eq_true_eq, Option.any_eq_true,
      Bool.and_eq_true, List.all_eq_true] at checked
    rcases checked with rfl | ⟨data, read, unique, entries⟩
    · exact honest_empty store
    · refine honest_of_entries read unique ?_
      intro entry listed
      have here := entries entry listed
      unfold HonestEntry
      split at here
      · rename_i directory
        rw [if_pos directory]
        exact ih here
      · rename_i file
        rw [if_neg file]
        simp only [Bool.and_eq_true, Option.any_eq_true, decide_eq_true_eq] at here
        exact here

theorem entrySize_of_id {first second : DirEntryData Oid} (honest : HonestEntry store first)
    (honest' : HonestEntry store second) (same : first.id = second.id) :
    entrySize store first = entrySize store second := by
  -- A stored object is a file or a directory; the sentinel adds nothing as either.
  have mixed : ∀ {file dir : DirEntryData Oid}, HonestFile store file → Honest store dir.id →
      file.id = dir.id → file.size = treeSize store dir.id := by
    intro file dir honestFile honestDir sameId
    obtain ⟨-, data, read, isSize⟩ := honestFile
    by_cases isEmpty : dir.id = emptySha1
    · rw [sameId, isEmpty, fileBatch, if_pos rfl] at read
      cases read
      rw [isEmpty, treeSize_empty, ← isSize]
      rfl
    · obtain ⟨dirData, readDir⟩ := honestDir.stored isEmpty
      rw [sameId, fileBatch, if_neg isEmpty] at read
      rw [dirBatch, if_neg isEmpty] at readDir
      cases found : store.find dir.id with
      | none => simp [found] at read
      | some object => cases object <;> simp [found] at read readDir
  unfold HonestEntry at honest honest'
  unfold entrySize
  by_cases directory : isDir first.mode = true
  · rw [if_pos directory] at honest ⊢
    by_cases directory' : isDir second.mode = true
    · rw [if_pos directory', same]
    · rw [if_neg directory'] at honest' ⊢
      exact (mixed honest' honest same.symm).symm
  · rw [if_neg directory] at honest ⊢
    by_cases directory' : isDir second.mode = true
    · rw [if_pos directory'] at honest' ⊢
      exact mixed honest honest' same
    · rw [if_neg directory'] at honest' ⊢
      obtain ⟨-, data, read, isSize⟩ := honest
      obtain ⟨-, data', read', isSize'⟩ := honest'
      rw [same, read', Option.some.injEq] at read
      rw [← isSize, ← isSize', read]

variable {after before : FsStore Oid}

theorem fileBatch_extends (grown : Table.Extends before after) {data : FsFileData Oid}
    (read : fileBatch before fsId = some data) : fileBatch after fsId = some data := by
  unfold fileBatch at read ⊢
  split at read
  · rename_i isEmpty
    rw [if_pos isEmpty]
    exact read
  · rename_i nonempty
    rw [if_neg nonempty]
    cases found : before.find fsId with
    | none => simp [found] at read
    | some object =>
      rw [found] at read
      rw [grown fsId object found]
      exact read

theorem Sized.extends (grown : Table.Extends before after) (sized : Sized before fsId size) :
    Sized after fsId size := by
  induction sized with
  | empty => exact .empty
  | dir read unique files _ ih =>
    refine .dir (dirBatch_extends grown read) unique ?_ ih
    intro entry listed file
    obtain ⟨⟨regular, data, found, isSize⟩, sameSize⟩ := files entry listed file
    exact ⟨⟨regular, data, fileBatch_extends grown found, isSize⟩, sameSize⟩

theorem Honest.extends (grown : Table.Extends before after) (honest : Honest before fsId) :
    Honest after fsId :=
  ⟨_, honest.sized.extends grown⟩

theorem treeSize_extends (grown : Table.Extends before after) (honest : Honest before fsId) :
    treeSize after fsId = treeSize before fsId :=
  (honest.sized.extends grown).treeSize_eq

theorem hasDirBit_iff_isDir {entry : DirEntryData Oid} (honest : HonestEntry store entry) :
    hasDirBit entry.mode = isDir entry.mode := by
  unfold HonestEntry at honest
  split at honest
  · rename_i directory
    rw [directory]
    exact hasDirBit_of_isDir directory
  · rename_i file
    rw [Bool.not_eq_true] at file
    rw [file]
    exact not_hasDirBit_of_isRegular honest.1

theorem sizeEntries_spec (honest : Honest store fsId) :
    (∀ child ∈ (sizeEntries store fsId).1, Honest store child) ∧
      (sizeEntries store fsId).2 + ((sizeEntries store fsId).1.map (treeSize store)).sum =
        treeSize store fsId := by
  by_cases isEmpty : fsId = emptySha1
  · subst isEmpty
    simp [sizeEntries, dirBatch_empty]
  · obtain ⟨data, read⟩ := honest.stored isEmpty
    obtain ⟨-, entries, isSize⟩ := honest.dir read
    simp only [sizeEntries, read]
    constructor
    · intro child listed
      obtain ⟨entry, member, rfl⟩ := List.mem_map.mp listed
      obtain ⟨member, directory⟩ := List.mem_filter.mp member
      have honestEntry := entries entry member
      rw [hasDirBit_iff_isDir honestEntry] at directory
      rw [HonestEntry, if_pos directory] at honestEntry
      exact honestEntry
    · rw [isSize]
      generalize data.dirents = dirents at entries
      induction dirents with
      | nil => rfl
      | cons entry rest ih =>
        have rest' := ih fun other member => entries other (List.mem_cons_of_mem _ member)
        have here := hasDirBit_iff_isDir (entries entry List.mem_cons_self)
        cases directory : isDir entry.mode with
        | true =>
          rw [directory] at here
          simp only [here, List.filter_cons, List.map_cons, List.sum_cons, entrySize, directory]
          simp only [Bool.not_true, Bool.false_eq_true, if_false, if_true, List.map_cons,
            List.sum_cons]
          omega
        | false =>
          rw [directory] at here
          simp only [here, List.filter_cons, List.map_cons, List.sum_cons, entrySize, directory]
          simp only [Bool.not_false, Bool.false_eq_true, if_false, if_true, List.map_cons,
            List.sum_cons]
          omega

theorem computeTreeSize_eq {limits : Limits} {root : Oid} {total : Int} (honest : Honest store root)
    (run : computeTreeSize limits store root = .ok total) : total = treeSize store root := by
  unfold computeTreeSize at run
  split at run
  · rename_i isEmpty
    cases run
    rw [isEmpty, treeSize_empty]
  · have counted := levelWalk_invariant
      (I := fun frontier (acc : Int) => (∀ fsId ∈ frontier, Honest store fsId) ∧
        acc + (frontier.map (treeSize store)).sum = treeSize store root) ?_ run ?_
    · simpa using counted.2
    · intro frontier next acc acc' invariant read
      obtain ⟨honestAll, isSum⟩ := invariant
      simp only [sizeLevel, Except.ok.injEq, Prod.mk.injEq] at read
      obtain ⟨rfl, rfl⟩ := read
      constructor
      · intro child listed
        obtain ⟨fsId, member, listed⟩ := List.mem_flatMap.mp listed
        exact (sizeEntries_spec (honestAll fsId member)).1 child listed
      · rw [← isSum]
        clear isSum
        induction frontier with
        | nil => simp
        | cons fsId rest ih =>
          have rest' := ih fun other member => honestAll other (List.mem_cons_of_mem _ member)
          have here := (sizeEntries_spec (honestAll fsId List.mem_cons_self)).2
          simp only [List.flatMap_cons, List.map_cons, List.sum_cons, List.map_append,
            List.sum_append]
          omega
    · constructor
      · intro fsId listed
        rw [List.mem_singleton.mp listed]
        exact honest
      · simp

end Nanofile
