import Nanofile.Lib.Ledger
import Nanofile.Service.CheckComplete
import Nanofile.Service.TreeSize

/-!
# The delta of the upload check

Between two honest trees the two-sided walk of `check_commit_blocks` finds the
difference of their sizes: every pair of directories is settled by its own entries
and by the pairs it leaves for the next level.
-/

set_option autoImplicit false

namespace Nanofile

open Nanofile.Lib

variable {Oid : Type} [DecidableEq Oid] [Digests Oid]

/-- The size of one side of a pair; a missing side is an empty directory. -/
noncomputable def sideSize (store : FsStore Oid) : Option Oid → Int
  | none => 0
  | some fsId => treeSize store fsId

noncomputable def frameSize (store : FsStore Oid) (frame : DiffFrame Oid) : Int :=
  sideSize store frame.newFsId - sideSize store frame.baseFsId

def HonestSide (store : FsStore Oid) (side : Option Oid) : Prop :=
  ∀ fsId, side = some fsId → fsId ≠ emptySha1 ∧ Honest store fsId

def HonestFrame (store : FsStore Oid) (frame : DiffFrame Oid) : Prop :=
  HonestSide store frame.baseFsId ∧ HonestSide store frame.newFsId

/-- The pairs left to walk are honest, and with the delta they add up to `total`. -/
def DiffTotals (store : FsStore Oid) (diff : FrameDiff Oid) (total : Int) : Prop :=
  (∀ frame ∈ diff.next, HonestFrame store frame) ∧
    diff.delta + (diff.next.map (frameSize store)).sum = total

theorem sideSize_storedDir (store : FsStore Oid) (fsId : Oid) :
    sideSize store (storedDir fsId) = treeSize store fsId := by
  unfold storedDir
  split
  · rename_i isEmpty
    rw [isEmpty, treeSize_empty]
    rfl
  · rfl

theorem honestSide_none (store : FsStore Oid) : HonestSide store none := by
  intro fsId isSome
  simp at isSome

variable {store : FsStore Oid}

theorem honestSide_storedDir {fsId : Oid} (honest : Honest store fsId) :
    HonestSide store (storedDir fsId) := by
  intro other isStored
  obtain ⟨rfl, nonempty⟩ := storedDir_eq_some isStored
  exact ⟨nonempty, honest⟩

theorem diffTotals_empty (store : FsStore Oid) : DiffTotals store .empty 0 := by
  simp [DiffTotals, FrameDiff.empty]

theorem DiffTotals.append {first second : FrameDiff Oid} {total total' : Int}
    (totals : DiffTotals store first total) (totals' : DiffTotals store second total') :
    DiffTotals store (first.append second) (total + total') := by
  obtain ⟨honest, isSum⟩ := totals
  obtain ⟨honest', isSum'⟩ := totals'
  constructor
  · intro frame listed
    cases List.mem_append.mp listed with
    | inl listed => exact honest frame listed
    | inr listed => exact honest' frame listed
  · simp only [FrameDiff.append, List.map_append, List.sum_append]
    omega

theorem diffTotals_join {Item : Type} {diffOf : Item → FrameDiff Oid} {sizeOf : Item → Int}
    {items : List Item} (totals : ∀ item ∈ items, DiffTotals store (diffOf item) (sizeOf item)) :
    DiffTotals store (.join (items.map diffOf)) (items.map sizeOf).sum := by
  induction items with
  | nil => exact diffTotals_empty store
  | cons item rest ih =>
    exact (totals item List.mem_cons_self).append
      (ih fun other listed => totals other (List.mem_cons_of_mem _ listed))

theorem diffTotals_single {base new : Option Oid} (path : String) (pending : List (Oid × String))
    (delta : Int) (honest : HonestSide store base) (honest' : HonestSide store new) :
    DiffTotals store ⟨[⟨base, new, path⟩], delta, pending⟩
      (delta + (sideSize store new - sideSize store base)) := by
  constructor
  · intro frame listed
    rw [List.mem_singleton.mp listed]
    exact ⟨honest, honest'⟩
  · simp [frameSize]

section Entry

variable {store : FsStore Oid} {entry base : DirEntryData Oid}

theorem HonestEntry.honest_of_dirBit (honest : HonestEntry store entry)
    (directory : hasDirBit entry.mode = true) :
    Honest store entry.id ∧ entrySize store entry = treeSize store entry.id := by
  rw [hasDirBit_iff_isDir honest] at directory
  rw [HonestEntry, if_pos directory] at honest
  exact ⟨honest, by rw [entrySize, if_pos directory]⟩

theorem HonestEntry.size_of_not_dirBit (honest : HonestEntry store entry)
    (file : hasDirBit entry.mode = false) : entrySize store entry = entry.size := by
  rw [hasDirBit_iff_isDir honest] at file
  simp [entrySize, file]

theorem deletedEntry_totals (path : String) (honest : HonestEntry store entry) :
    DiffTotals store (deletedEntry path entry) (-entrySize store entry) := by
  unfold deletedEntry
  split
  · rename_i directory
    obtain ⟨tree, isSize⟩ := honest.honest_of_dirBit directory
    have totals := diffTotals_single (childOf path entry.name) [] 0 (honestSide_storedDir tree)
      (honestSide_none store)
    rw [sideSize_storedDir] at totals
    simpa [sideSize, isSize] using totals
  · rename_i file
    rw [honest.size_of_not_dirBit (by simpa using file)]
    simp [DiffTotals]

theorem addedEntry_totals (path : String) (honest : HonestEntry store entry) :
    DiffTotals store (addedEntry path entry) (entrySize store entry) := by
  unfold addedEntry
  split
  · rename_i directory
    obtain ⟨tree, isSize⟩ := honest.honest_of_dirBit directory
    have totals := diffTotals_single (childOf path entry.name) [] 0 (honestSide_none store)
      (honestSide_storedDir tree)
    rw [sideSize_storedDir] at totals
    simpa [sideSize, isSize] using totals
  · rename_i file
    rw [honest.size_of_not_dirBit (by simpa using file)]
    simp [DiffTotals]

theorem changedEntry_totals (path : String) (honestBase : HonestEntry store base)
    (honest : HonestEntry store entry) :
    DiffTotals store (changedEntry path base entry)
      (entrySize store entry - entrySize store base) := by
  unfold changedEntry
  simp only
  split
  · rename_i same
    rw [entrySize_of_id honest honestBase same, sub_self]
    exact diffTotals_empty store
  · cases baseDir : hasDirBit base.mode with
    | true =>
      obtain ⟨baseTree, baseSize⟩ := honestBase.honest_of_dirBit baseDir
      cases entryDir : hasDirBit entry.mode with
      | true =>
        obtain ⟨tree, isSize⟩ := honest.honest_of_dirBit entryDir
        have totals := diffTotals_single (childOf path entry.name) [] 0
          (honestSide_storedDir baseTree) (honestSide_storedDir tree)
        rw [sideSize_storedDir, sideSize_storedDir] at totals
        simpa [baseSize, isSize] using totals
      | false =>
        have totals := diffTotals_single (childOf path entry.name)
          [(entry.id, childOf path entry.name)] entry.size
          (honestSide_storedDir baseTree) (honestSide_none store)
        rw [sideSize_storedDir] at totals
        rw [honest.size_of_not_dirBit entryDir, baseSize]
        simpa [sideSize, sub_eq_add_neg] using totals
    | false =>
      have baseSize := honestBase.size_of_not_dirBit baseDir
      cases entryDir : hasDirBit entry.mode with
      | true =>
        obtain ⟨tree, isSize⟩ := honest.honest_of_dirBit entryDir
        have totals := diffTotals_single (childOf path entry.name) [] (-base.size)
          (honestSide_none store) (honestSide_storedDir tree)
        have total : -base.size + (sideSize store (storedDir entry.id) - sideSize store none) =
            entrySize store entry - entrySize store base := by
          rw [sideSize_storedDir, isSize, baseSize, sideSize]
          omega
        exact total ▸ totals
      | false =>
        rw [honest.size_of_not_dirBit entryDir, baseSize]
        simp [DiffTotals]

end Entry

variable {baseDir newDir : FsDirData Oid} {new : Oid}

theorem diffDirs_totals (path : String) {base : Oid} (honestBase : Honest store base)
    (honestNew : Honest store new) (readBase : dirBatch store base = some baseDir)
    (readNew : dirBatch store new = some newDir) :
    DiffTotals store (diffDirs path (some baseDir) (some newDir))
      (treeSize store new - treeSize store base) := by
  obtain ⟨uniqueBase, baseEntries, baseSize⟩ := honestBase.dir readBase
  obtain ⟨uniqueNew, newEntries, newSize⟩ := honestNew.dir readNew
  let matched (entry : DirEntryData Oid) : Int :=
    ((lastNamed baseDir.dirents entry.name).map (entrySize store)).getD 0
  have compared : ∀ entry ∈ newDir.dirents, DiffTotals store (compareEntry baseDir path entry)
      (entrySize store entry - matched entry) := by
    intro entry listed
    unfold compareEntry
    cases found : lastNamed baseDir.dirents entry.name with
    | none => simpa [matched, found] using addedEntry_totals path (newEntries entry listed)
    | some baseEntry =>
      have listedBase : baseEntry ∈ baseDir.dirents :=
        List.mem_reverse.mp (List.mem_of_find?_eq_some found)
      simpa [matched, found] using
        changedEntry_totals path (baseEntries _ listedBase) (newEntries entry listed)
  have dropped : ∀ entry ∈ unmatched baseDir newDir,
      DiffTotals store (deletedEntry path entry) (-entrySize store entry) := by
    intro entry listed
    exact deletedEntry_totals path (baseEntries entry (List.mem_of_mem_filter listed))
  have totals := (diffTotals_join compared).append (diffTotals_join dropped)
  -- Each entry of the base is matched by one new entry or by none.
  have sums := sum_found_add_unfound DirEntryData.name DirEntryData.name (entrySize store)
    (List.nodup_reverse.mpr uniqueBase |> fun nodup => by rwa [← List.map_reverse] at nodup)
    uniqueNew
  rw [List.filter_reverse, List.map_reverse, List.sum_reverse, List.map_reverse,
    List.sum_reverse] at sums
  have split : (newDir.dirents.map fun entry => entrySize store entry - matched entry).sum +
      ((unmatched baseDir newDir).map fun entry => -entrySize store entry).sum =
      treeSize store new - treeSize store base := by
    rw [baseSize, newSize, sum_map_sub, sum_map_neg]
    have unfolded : (newDir.dirents.map matched).sum +
        ((unmatched baseDir newDir).map (entrySize store)).sum =
        (baseDir.dirents.map (entrySize store)).sum := sums
    omega
  rw [← split]
  exact totals

theorem diffDirs_added_totals (path : String) (honest : Honest store new)
    (read : dirBatch store new = some newDir) :
    DiffTotals store (diffDirs path none (some newDir)) (treeSize store new) := by
  obtain ⟨-, entries, isSize⟩ := honest.dir read
  rw [isSize]
  exact diffTotals_join fun entry listed => addedEntry_totals path (entries entry listed)

theorem diffDirs_deleted_totals (path : String) {base : Oid} (honest : Honest store base)
    (read : dirBatch store base = some baseDir) :
    DiffTotals store (diffDirs path (some baseDir) none) (-treeSize store base) := by
  obtain ⟨-, entries, isSize⟩ := honest.dir read
  rw [isSize, ← sum_map_neg]
  exact diffTotals_join fun entry listed => deletedEntry_totals path (entries entry listed)

theorem diffFrame_totals {frame : DiffFrame Oid} {diff : FrameDiff Oid}
    (honest : HonestFrame store frame) (run : diffFrame store frame = .ok diff) :
    DiffTotals store diff (frameSize store frame) := by
  obtain ⟨base, new, path⟩ := frame
  obtain ⟨honestBase, honestNew⟩ := honest
  unfold diffFrame at run
  unfold frameSize
  simp only at honestBase honestNew run ⊢
  split at run
  · rename_i same
    cases run
    rw [same, sub_self]
    exact diffTotals_empty store
  · cases base with
    | none =>
      cases new with
      | none =>
        cases run
        exact diffTotals_empty store
      | some new =>
        obtain ⟨nonempty, honestTree⟩ := honestNew new rfl
        obtain ⟨newDir, readNew⟩ := honestTree.stored nonempty
        simp only [Option.bind_none, Option.bind_some, readNew, Option.isSome_none,
          Option.isSome_some, Option.isNone_some, Bool.false_and, Bool.and_false,
          Bool.or_self, Bool.false_eq_true, if_false, Except.ok.injEq] at run
        rw [← run, sideSize, sideSize, sub_zero]
        exact diffDirs_added_totals path honestTree readNew
    | some base =>
      obtain ⟨nonempty, honestTree⟩ := honestBase base rfl
      obtain ⟨baseDir, readBase⟩ := honestTree.stored nonempty
      cases new with
      | none =>
        simp only [Option.bind_none, Option.bind_some, readBase, Option.isSome_none,
          Option.isSome_some, Option.isNone_some, Bool.false_and, Bool.and_false,
          Bool.or_self, Bool.false_eq_true, if_false, Except.ok.injEq] at run
        rw [← run, sideSize, sideSize, zero_sub]
        exact diffDirs_deleted_totals path honestTree readBase
      | some new =>
        obtain ⟨nonempty', honestTree'⟩ := honestNew new rfl
        obtain ⟨newDir, readNew⟩ := honestTree'.stored nonempty'
        simp only [Option.bind_some, readBase, readNew, Option.isSome_some,
          Option.isNone_some, Bool.and_false, Bool.or_self, Bool.false_eq_true, if_false,
          Except.ok.injEq] at run
        rw [← run]
        exact diffDirs_totals path honestTree honestTree' readBase readNew

theorem diffFrames_totals :
    ∀ {frontier : List (DiffFrame Oid)} {diff : FrameDiff Oid},
      (∀ frame ∈ frontier, HonestFrame store frame) → diffFrames store frontier = .ok diff →
      DiffTotals store diff (frontier.map (frameSize store)).sum := by
  intro frontier
  induction frontier with
  | nil =>
    intro diff _ run
    cases run
    exact diffTotals_empty store
  | cons frame rest ih =>
    intro diff honest run
    simp only [diffFrames] at run
    cases first : diffFrame store frame with
    | error failure => simp [first] at run
    | ok firstDiff =>
      cases others : diffFrames store rest with
      | error failure => simp [first, others] at run
      | ok restDiff =>
        simp only [first, others, Except.ok.injEq] at run
        rw [← run, List.map_cons, List.sum_cons]
        exact (diffFrame_totals (honest frame List.mem_cons_self) first).append
          (ih (fun other listed => honest other (List.mem_cons_of_mem _ listed)) others)

/-- Against an honest base, the check of an honest tree finds the difference in size. -/
theorem checkCommitBlocks_delta {limits : Limits} {held : Oid → Bool} {newRoot baseRoot : Oid}
    {missing : List String} {delta : Int} (honestNew : Honest store newRoot)
    (honestBase : Honest store baseRoot)
    (run : checkCommitBlocks limits store held newRoot (some baseRoot) =
      .ok (missing, delta)) :
    delta = treeSize store newRoot - treeSize store baseRoot := by
  unfold checkCommitBlocks at run
  simp only at run
  split at run
  · rename_i same
    cases run
    rw [same, sub_self]
  · have walked := levelWalk_invariant
      (I := fun frontier (sofar : List String × Int) =>
        (∀ frame ∈ frontier, HonestFrame store frame) ∧
        sofar.2 + (frontier.map (frameSize store)).sum =
          treeSize store newRoot - treeSize store baseRoot) ?_ run ?_
    · simpa using walked.2
    · intro frontier next sofar sofar' invariant read
      obtain ⟨honest, isSum⟩ := invariant
      unfold diffLevel at read
      cases diffed : diffFrames store frontier with
      | error failure => simp [diffed] at read
      | ok diff =>
        obtain ⟨honestNext, total⟩ := diffFrames_totals honest diffed
        simp only [diffed] at read
        cases checked : checkPending store held diff.pending with
        | error failure => simp [checked] at read
        | ok found =>
          simp only [checked, Except.ok.injEq, Prod.mk.injEq] at read
          obtain ⟨rfl, rfl⟩ := read
          refine ⟨honestNext, ?_⟩
          simp only
          omega
    · constructor
      · intro frame listed
        rw [List.mem_singleton.mp listed]
        exact ⟨honestSide_storedDir honestBase, honestSide_storedDir honestNew⟩
      · simp [frameSize, sideSize_storedDir]

end Nanofile
