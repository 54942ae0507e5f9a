import Mathlib.Data.Set.Card
import Nanofile.Base.FreeDigest
import Nanofile.Fs.DiffOrder
import Nanofile.Service.IndexReplay

/-!
# When a replayed diff reproduces the new tree

Every change of a diff is true of the new tree, so a replay can only miss paths.  It
misses none exactly when no file became a directory, no file took over a directory's
id, and every reused directory with files in it meets a dropped entry to pair with.
-/

set_option autoImplicit false

namespace Nanofile

open Nanofile.Lib

variable {Oid : Type} [DecidableEq Oid] [Digests Oid]

def rootEntries (store : FsStore Oid) (root : Option Oid) : List (DirEntryData Oid) :=
  (root.map (entriesOf store)).getD []

/-- The paths of the old tree with this object that the new tree does not have. -/
def droppedWith (store : FsStore Oid) (old new : List (DirEntryData Oid)) (objId : Oid) :
    Set TreePath :=
  {path | ∃ entry, entryAt store old path = some entry ∧ entry.id = objId ∧
    entryAt store new path = none}

/-- Every reused directory with a file in it comes, in the listing of the new tree,
after fewer reported entries of its id than the old tree drops. -/
def ReuseCovered (store : FsStore Oid) (old new : List (DirEntryData Oid)) : Prop :=
  ∀ depth before path entry after,
    listingTo store new depth = before ++ (path, entry) :: after →
    reusedAt store old new path = true →
    (∃ rest, (filesOf store (entriesOf store entry.id) rest).isSome = true) →
    before.countP (fun item => reportedAt store old new item.1 && item.2.id = entry.id) <
      (droppedWith store old new entry.id).ncard

/-- The trees for which the diff says enough. -/
structure Replayable (store : FsStore Oid) (old new : List (DirEntryData Oid)) : Prop where
  kinds : KindsKept store old new
  reuse : ReuseCovered store old new

variable {store : FsStore Oid} {old new : List (DirEntryData Oid)}

/-! ## Changes are true of the new tree -/

variable {path : TreePath} {other : TreePath}

theorem isBelow_iff : isBelow path other = true ↔ ∃ rest, rest ≠ [] ∧ other = path ++ rest := by
  simp only [isBelow, Bool.and_eq_true, List.isPrefixOf_iff_prefix, decide_eq_true_eq]
  constructor
  · rintro ⟨⟨rest, rfl⟩, longer⟩
    refine ⟨rest, ?_, rfl⟩
    rintro rfl
    simp at longer
  · rintro ⟨rest, nonempty, rfl⟩
    have positive := List.length_pos_of_ne_nil nonempty
    exact ⟨List.prefix_append _ _, by simp; omega⟩

variable {mode : BitVec 32}

section

omit [DecidableEq Oid] [Digests Oid]

theorem objTypeOf_file : objTypeOf mode = .file ↔ hasDirBit mode = false := by
  cases directory : hasDirBit mode <;> simp [objTypeOf, directory]

theorem objTypeOf_dir : objTypeOf mode = .dir ↔ hasDirBit mode = true := by
  cases directory : hasDirBit mode <;> simp [objTypeOf, directory]

end

theorem filesOf_below_none (nonempty : path ≠ []) (absent : entryAt store new path = none)
    (below : isBelow path other = true) : filesOf store new other = none := by
  obtain ⟨rest, -, rfl⟩ := isBelow_iff.mp below
  exact filesOf_of_entryAt_none (entryAt_below_none nonempty absent)

variable {entry : DirEntryData Oid}

theorem entryAt_ne_nil (found : entryAt store new path = some entry) : path ≠ [] := by
  rintro rfl
  simp [entryAt] at found

variable {change : FsChange Oid} {item : PathEntry Oid}

theorem truthful_of_present (present : entryAt store new item.1 = some item.2)
    (same : change.path = item.1 ∧ change.objType = objTypeOf item.2.mode ∧
      change.objId = item.2.id) (notDelete : change.opType ≠ .delete)
    (gone : ∀ oldPath newPath, dirPaths change = some (some oldPath, newPath) →
      oldPath ≠ [] ∧ entryAt store new oldPath = none) : Truthful (filesOf store new) change := by
  refine ⟨?_, ?_⟩
  · intro file
    rw [same.2.1, objTypeOf_file] at file
    rw [if_neg notDelete, same.1, same.2.2]
    exact filesOf_eq_some_iff.mpr ⟨item.2, present, file, rfl⟩
  · intro oldPath newPath _ isPaths path below
    obtain ⟨nonempty, absent⟩ := gone oldPath newPath isPaths
    exact filesOf_below_none nonempty absent below

theorem truthful_delete (nonempty : item.1 ≠ []) (absent : entryAt store new item.1 = none) :
    Truthful (filesOf store new) (deleteChange item) := by
  refine ⟨fun _ => filesOf_of_entryAt_none absent, ?_⟩
  intro oldPath newPath _ isPaths path below
  have same : oldPath = item.1 := by
    simp only [dirPaths, deleteChange, plainChange, Option.some.injEq, Prod.mk.injEq] at isPaths
    exact isPaths.1.symm
  subst same
  exact filesOf_below_none nonempty absent below

variable {gone : TreePath}

omit [DecidableEq Oid] [Digests Oid] in
theorem dirPaths_paired : dirPaths (pairedChange item gone) = some (some gone, some item.1) := by
  unfold dirPaths pairedChange
  by_cases sameParent : gone.dropLast = item.1.dropLast <;> simp [sameParent]

omit [Digests Oid] in
theorem markSuperseded_fields (paired : List (FsChange Oid)) (change : FsChange Oid) :
    (markSuperseded paired change).opType = change.opType ∧
      (markSuperseded paired change).objType = change.objType ∧
      (markSuperseded paired change).path = change.path ∧
      (markSuperseded paired change).objId = change.objId ∧
      (markSuperseded paired change).oldPath = change.oldPath := by
  unfold markSuperseded
  dsimp only
  split <;> simp

variable {newFiles : FileIndex Oid} {paired : List (FsChange Oid)}

omit [Digests Oid] in
theorem truthful_mark (truthful : Truthful newFiles change) :
    Truthful newFiles (markSuperseded paired change) := by
  obtain ⟨sameOp, sameType, samePath, sameId, sameOld⟩ := markSuperseded_fields paired change
  refine ⟨?_, ?_⟩
  · rw [sameType, samePath, sameOp, sameId]
    exact truthful.file
  · rw [sameType, dirPaths, sameOp, sameOld, samePath]
    exact truthful.gone

variable {oldFiles : FileIndex Oid}

omit [Digests Oid] in
theorem hits_mark :
    Hits oldFiles newFiles (markSuperseded paired change) path ↔
      Hits oldFiles newFiles change path := by
  obtain ⟨sameOp, sameType, samePath, -, sameOld⟩ := markSuperseded_fields paired change
  rw [Hits, Hits, sameType, samePath, dirPaths, dirPaths, sameOp, sameOld, samePath]

variable {acc : TreeAcc Oid}

omit [Digests Oid] in
theorem mem_result :
    change ∈ acc.result ↔ ∃ plain,
      (plain ∈ acc.changes ∨ (∃ item ∈ acc.dropped, plain = deleteChange item) ∨
        plain ∈ pairCreated (objToDeleted acc.dropped) acc.created) ∧
      change = markSuperseded (pairCreated (objToDeleted acc.dropped) acc.created) plain := by
  simp only [TreeAcc.result, sortChanges, List.mem_insertionSort, List.mem_map, List.mem_append,
    or_assoc, eq_comm]

section

omit [DecidableEq Oid] [Digests Oid]

theorem hits_delete : Hits oldFiles newFiles (deleteChange item) path ↔
      (hasDirBit item.2.mode = false ∧ item.1 = path) ∨
      (hasDirBit item.2.mode = true ∧ isBelow item.1 path = true ∧
        (oldFiles path).isSome = true) := by
  simp [Hits, deleteChange, plainChange, dirPaths, touches, objTypeOf_file, objTypeOf_dir]

theorem hits_create : Hits oldFiles newFiles (createChange item) path ↔
      hasDirBit item.2.mode = false ∧ item.1 = path := by
  simp [Hits, createChange, plainChange, dirPaths, objTypeOf_file]

theorem hits_paired : Hits oldFiles newFiles (pairedChange item gone) path ↔
      (hasDirBit item.2.mode = false ∧ item.1 = path) ∨
      (hasDirBit item.2.mode = true ∧
        ((isBelow item.1 path = true ∧ (newFiles path).isSome = true) ∨
          (isBelow gone path = true ∧ (oldFiles path).isSome = true))) := by
  simp only [Hits, dirPaths_paired, Option.some.injEq, Prod.mk.injEq]
  simp [pairedChange, touches, objTypeOf_file, objTypeOf_dir]

end

/-! ## A finished walk -/

/-- What a finished walk over two trees has collected, in terms of the trees. -/
structure Collected (store : FsStore Oid) (old new : List (DirEntryData Oid))
    (acc : TreeAcc Oid) : Prop where
  edited : ∀ change ∈ acc.changes, ∃ path entry, change = plainChange .edit (path, entry) ∧
    entryAt store new path = some entry ∧ hasDirBit entry.mode = false ∧
    ∀ oldEntry, entryAt store old path = some oldEntry → entry.id ≠ oldEntry.id
  dropped : ∀ item ∈ acc.dropped, item.1 ≠ [] ∧ entryAt store new item.1 = none
  created : ∀ item ∈ acc.created,
    entryAt store new item.1 = some item.2 ∧ entryAt store old item.1 = none

structure CollectedAll (store : FsStore Oid) (old new : List (DirEntryData Oid))
    (acc : TreeAcc Oid) : Prop where
  edits_old : ∀ change ∈ acc.changes, ∃ oldEntry, entryAt store old change.path = some oldEntry
  edits : ∀ path oldEntry entry, entryAt store old path = some oldEntry →
    entryAt store new path = some entry → hasDirBit entry.mode = false →
    entry.id ≠ oldEntry.id → plainChange .edit (path, entry) ∈ acc.changes
  dropped : ∀ path entry, (path, entry) ∈ acc.dropped ↔
    entryAt store old path = some entry ∧ entryAt store new path = none
  dropped_nodup : (acc.dropped.map Prod.fst).Nodup
  created : ∃ reached, ∀ depth, reached ≤ depth →
    acc.created = (listingTo store new depth).filter fun item => reportedAt store old new item.1

section Walk

variable {limits : Limits} {oldRoot newRoot : Oid} {acc : TreeAcc Oid}
  (uniqueOld : UniqueNames store (entriesOf store oldRoot))
  (uniqueNew : UniqueNames store (entriesOf store newRoot))
  (run : walkTrees limits store oldRoot newRoot = .ok acc)

include uniqueOld uniqueNew run

theorem walkTrees_collected :
    Collected store (entriesOf store oldRoot) (entriesOf store newRoot) acc := by
  obtain ⟨reached, -, -, changes, created, dropped⟩ := walkTrees_frames run
  have stand := frames_stand uniqueOld uniqueNew reached
  refine ⟨?_, ?_, ?_⟩
  · intro change member
    rw [changes] at member
    obtain ⟨frame, isRead, isEdit⟩ := List.mem_flatMap.mp member
    exact edits_sound uniqueOld uniqueNew (stand frame isRead) isEdit
  · intro item member
    rw [dropped] at member
    obtain ⟨frame, isRead, isDropped⟩ := List.mem_flatMap.mp member
    refine ⟨?_, dropped_absent (stand frame isRead) isDropped⟩
    rw [treeFrame_eq] at isDropped
    obtain ⟨entry, -, -, rfl⟩ := mem_dropped.mp isDropped
    simp
  · intro item member
    rw [created] at member
    obtain ⟨frame, isRead, isCreated⟩ := List.mem_flatMap.mp member
    exact created_sound uniqueOld uniqueNew (stand frame isRead) isCreated

theorem walkTrees_collectedAll
    (kept : KindChangesEmpty store (entriesOf store oldRoot) (entriesOf store newRoot)) :
    CollectedAll store (entriesOf store oldRoot) (entriesOf store newRoot) acc := by
  obtain ⟨reached, -, ends, changes, created, dropped⟩ := walkTrees_frames run
  have aligned := frames_aligned uniqueOld uniqueNew kept reached
  refine ⟨?_, ?_, ?_, ?_, reached, ?_⟩
  · intro change member
    rw [changes] at member
    obtain ⟨frame, isRead, isEdit⟩ := List.mem_flatMap.mp member
    exact edits_old uniqueOld (aligned frame isRead) isEdit
  · intro path oldEntry entry before present file differ
    obtain ⟨frame, isRead, isEdit⟩ :=
      edits_complete uniqueOld uniqueNew kept ends before present file differ
    rw [changes]
    exact List.mem_flatMap.mpr ⟨frame, isRead, isEdit⟩
  · intro path entry
    rw [dropped]
    constructor
    · intro member
      obtain ⟨frame, isRead, isDropped⟩ := List.mem_flatMap.mp member
      exact ⟨dropped_present uniqueOld (aligned frame isRead) isDropped,
        dropped_absent (frames_stand uniqueOld uniqueNew reached frame isRead) isDropped⟩
    · intro both
      obtain ⟨frame, isRead, isDropped⟩ :=
        dropped_complete uniqueOld uniqueNew kept ends both.1 both.2
      exact List.mem_flatMap.mpr ⟨frame, isRead, isDropped⟩
  · rw [dropped]
    exact dropped_nodup uniqueOld uniqueNew kept reached
  · intro depth deep
    rw [created]
    exact created_listing uniqueOld uniqueNew kept ends deep

end Walk

theorem Collected.truthful (collected : Collected store old new acc) :
    ∀ change ∈ acc.result, Truthful (filesOf store new) change := by
  intro change member
  obtain ⟨plain, origin, rfl⟩ := mem_result.mp member
  refine truthful_mark ?_
  rcases origin with isEdit | ⟨item, isDropped, rfl⟩ | isPaired
  · obtain ⟨path, entry, rfl, present, file, -⟩ := collected.edited plain isEdit
    have present : entryAt store new (path, entry).1 = some (path, entry).2 := present
    refine truthful_of_present present ⟨rfl, rfl, rfl⟩ (by simp [plainChange]) ?_
    intro oldPath newPath isPaths
    simp [dirPaths, plainChange] at isPaths
  · obtain ⟨nonempty, absent⟩ := collected.dropped item isDropped
    exact truthful_delete nonempty absent
  · obtain ⟨before, item, after, split, kind⟩ := mem_pairCreated isPaired
    have isCreated : item ∈ acc.created := by simp [split]
    have present := (collected.created item isCreated).1
    rcases kind with rfl | ⟨gone, isDeleted, rfl, -⟩
    · refine truthful_of_present present ⟨rfl, rfl, rfl⟩ (by simp [createChange, plainChange]) ?_
      intro oldPath newPath isPaths
      simp [dirPaths, createChange, plainChange] at isPaths
    · refine truthful_of_present present ⟨rfl, rfl, rfl⟩ ?_ ?_
      · unfold pairedChange
        dsimp only
        split <;> simp
      · intro oldPath newPath isPaths
        rw [dirPaths_paired] at isPaths
        simp only [Option.some.injEq, Prod.mk.injEq] at isPaths
        rw [← isPaths.1]
        exact collected.dropped gone (List.mem_filter.mp isDeleted).1

theorem CollectedAll.count (all : CollectedAll store old new acc) (objId : Oid) :
    (objToDeleted acc.dropped objId).length = (droppedWith store old new objId).ncard := by
  have distinct : ((objToDeleted acc.dropped objId).map Prod.fst).Nodup :=
    all.dropped_nodup.sublist (List.filter_sublist.map _)
  have same : droppedWith store old new objId =
      ↑((objToDeleted acc.dropped objId).map Prod.fst).toFinset := by
    ext path
    simp only [droppedWith, Set.mem_ofPred_eq, Finset.mem_coe, List.mem_toFinset, List.mem_map,
      objToDeleted, List.mem_filter, decide_eq_true_eq]
    constructor
    · rintro ⟨entry, present, isId, absent⟩
      exact ⟨(path, entry), ⟨(all.dropped path entry).mpr ⟨present, absent⟩, isId⟩, rfl⟩
    · rintro ⟨⟨_, entry⟩, ⟨member, isId⟩, rfl⟩
      obtain ⟨present, absent⟩ := (all.dropped _ entry).mp member
      exact ⟨entry, present, isId, absent⟩
  rw [same, Set.ncard_coe_finset, List.toFinset_card_of_nodup distinct, List.length_map]

variable {after before : List (PathEntry Oid)}

/-- A place in the listing is a place among the created entries, after the reported
ones before it. -/
theorem CollectedAll.created_split (all : CollectedAll store old new acc) {depth : Nat}
    (split : listingTo store new depth = before ++ item :: after)
    (reported : reportedAt store old new item.1 = true) :
    ∃ rest, acc.created =
      (before.filter fun item => reportedAt store old new item.1) ++ item :: rest := by
  obtain ⟨reached, isListing⟩ := all.created
  have deeper : ∃ more, listingTo store new (max reached depth) =
      listingTo store new depth ++ more := by
    have range : List.range (max reached depth) = List.range depth ++
        (List.range (max reached depth - depth)).map (depth + ·) := by
      rw [← List.range_add, Nat.add_sub_cancel' (Nat.le_max_right _ _)]
    rw [listingTo, range, List.flatMap_append]
    exact ⟨_, rfl⟩
  obtain ⟨more, isMore⟩ := deeper
  rw [isListing _ (Nat.le_max_left _ _), isMore, split, List.filter_append,
    List.filter_append, List.filter_cons_of_pos (by exact reported), List.append_assoc,
    List.cons_append]
  exact ⟨_, rfl⟩

/-! ## The condition is enough -/

variable {items : List (PathEntry Oid)}

section Exact

variable {acc : TreeAcc Oid}

omit [Digests Oid] in
theorem hits_result :
    (∃ change ∈ acc.result, Hits oldFiles newFiles change path) ↔
      ∃ plain, (plain ∈ acc.changes ∨ (∃ item ∈ acc.dropped, plain = deleteChange item) ∨
        plain ∈ pairCreated (objToDeleted acc.dropped) acc.created) ∧
        Hits oldFiles newFiles plain path := by
  constructor
  · rintro ⟨change, member, hits⟩
    obtain ⟨plain, origin, rfl⟩ := mem_result.mp member
    exact ⟨plain, origin, hits_mark.mp hits⟩
  · rintro ⟨plain, origin, hits⟩
    exact ⟨_, mem_result.mpr ⟨plain, origin, rfl⟩, hits_mark.mpr hits⟩

theorem reported_or_reused (new : List (DirEntryData Oid))
    (absent : entryAt store old path = none) :
    reportedAt store old new path = true ∨ ∃ above rest, path = above ++ rest ∧ rest ≠ [] ∧
      reusedAt store old new above = true := by
  by_cases clear : ∀ count < path.length, reusedAt store old new (path.take count) = false
  · exact Or.inl (reportedAt_iff.mpr ⟨absent, clear⟩)
  · push Not at clear
    obtain ⟨count, less, reused⟩ := clear
    refine Or.inr ⟨path.take count, path.drop count, (List.take_append_drop _ _).symm, ?_, ?_⟩
    · simpa using less
    · simpa using reused

theorem created_hit (uniqueNew : UniqueNames store new) (all : CollectedAll store old new acc)
    (covered : ReuseCovered store old new) (present : entryAt store new path = some entry)
    (file : hasDirBit entry.mode = false) (absent : entryAt store old path = none) :
    ∃ change ∈ acc.result, Hits (filesOf store old) (filesOf store new) change path := by
  rw [hits_result]
  rcases reported_or_reused new absent with reported | ⟨above, rest, rfl, proper, reused⟩
  · have listed : (path, entry) ∈ listingTo store new path.length :=
      (mem_listingTo uniqueNew).mpr ⟨le_refl _, present⟩
    obtain ⟨before, after, split⟩ := List.append_of_mem listed
    obtain ⟨more, isCreated⟩ := all.created_split split reported
    have member : (path, entry) ∈ acc.created := by simp [isCreated]
    obtain ⟨change, isPaired, kind⟩ : ∃ change ∈ pairCreated (objToDeleted acc.dropped)
        acc.created, change = createChange (path, entry) ∨
          ∃ oldPath, change = pairedChange (path, entry) oldPath := pairCreated_complete member
    refine ⟨change, Or.inr (Or.inr isPaired), ?_⟩
    rcases kind with rfl | ⟨oldPath, rfl⟩
    · exact hits_create.mpr ⟨file, rfl⟩
    · exact hits_paired.mpr (Or.inl ⟨file, rfl⟩)
  · obtain ⟨-, reusedEntry, presentAbove, directory, -⟩ := reusedAt_iff.mp reused
    have listed : (above, reusedEntry) ∈ listingTo store new above.length :=
      (mem_listingTo uniqueNew).mpr ⟨le_refl _, presentAbove⟩
    obtain ⟨before, after, split⟩ := List.append_of_mem listed
    have isFile : filesOf store new (above ++ rest) = some entry.id :=
      filesOf_eq_some_iff.mpr ⟨entry, present, file, rfl⟩
    have below : dirAt store new above = entriesOf store reusedEntry.id := by
      obtain ⟨parent, name, rfl⟩ := (List.eq_nil_or_concat above).resolve_left
        (entryAt_ne_nil presentAbove)
      rw [List.concat_eq_append] at presentAbove ⊢
      rw [entryAt_concat] at presentAbove
      rw [dirAt_concat, entriesUnder, presentAbove]
      exact if_pos directory
    have holdsFile : ∃ rest, (filesOf store (entriesOf store reusedEntry.id) rest).isSome =
        true := by
      refine ⟨rest, ?_⟩
      rw [filesOf_append above rest proper, below] at isFile
      rw [isFile]
      rfl
    have inTime := covered _ before above reusedEntry after split reused holdsFile
    obtain ⟨more, isCreated⟩ := all.created_split split (reported_of_reused reused)
    have count : earlier (before.filter fun item => reportedAt store old new item.1)
        reusedEntry.id < (objToDeleted acc.dropped reusedEntry.id).length := by
      rw [all.count, earlier, List.countP_filter]
      simpa [Bool.and_comm] using inTime
    obtain ⟨gone, -, isPaired⟩ : ∃ gone ∈ objToDeleted acc.dropped reusedEntry.id,
        pairedChange (above, reusedEntry) gone.1 ∈
          pairCreated (objToDeleted acc.dropped) acc.created := by
      rw [isCreated]
      exact pairCreated_pairs (above, reusedEntry) count
    refine ⟨_, Or.inr (Or.inr isPaired), hits_paired.mpr (Or.inr ⟨directory, Or.inl ⟨?_, ?_⟩⟩)⟩
    · exact isBelow_iff.mpr ⟨rest, proper, rfl⟩
    · rw [isFile]
      rfl

theorem hit_of_changed (uniqueNew : UniqueNames store new)
    (all : CollectedAll store old new acc) (replayable : Replayable store old new)
    (path : TreePath) (differ : filesOf store old path ≠ filesOf store new path) :
    ∃ change ∈ acc.result, Hits (filesOf store old) (filesOf store new) change path := by
  cases after : filesOf store new path with
  | some id =>
    obtain ⟨entry, present, file, rfl⟩ := filesOf_eq_some_iff.mp after
    cases before : entryAt store old path with
    | none => exact created_hit uniqueNew all replayable.reuse present file before
    | some oldEntry =>
      have otherId : entry.id ≠ oldEntry.id := by
        cases oldDirectory : hasDirBit oldEntry.mode with
        | true => exact (replayable.kinds path oldEntry entry before present).2 oldDirectory file
        | false =>
          intro same
          refine differ (Eq.trans ?_ after.symm)
          exact filesOf_eq_some_iff.mpr ⟨oldEntry, before, oldDirectory, same.symm⟩
      rw [hits_result]
      refine ⟨_, Or.inl (all.edits path oldEntry entry before present file otherId), ?_⟩
      exact Or.inl ⟨objTypeOf_file.mpr file, rfl⟩
  | none =>
    obtain ⟨id, before⟩ := Option.ne_none_iff_exists'.mp (after ▸ differ)
    obtain ⟨oldEntry, isOld, oldFile, rfl⟩ := filesOf_eq_some_iff.mp before
    cases present : entryAt store new path with
    | some entry =>
      exfalso
      cases directory : hasDirBit entry.mode with
      | true =>
        have oldDirectory := (replayable.kinds path oldEntry entry isOld present).1 directory
        rw [oldFile] at oldDirectory
        simp at oldDirectory
      | false =>
        have isFile := filesOf_eq_some_iff.mpr ⟨entry, present, directory, rfl⟩
        rw [after] at isFile
        simp at isFile
    | none =>
      rw [hits_result]
      have isDropped := (all.dropped path oldEntry).mpr ⟨isOld, present⟩
      exact ⟨_, Or.inr (Or.inl ⟨_, isDropped, rfl⟩), hits_delete.mpr (Or.inl ⟨oldFile, rfl⟩)⟩

/-! ## The condition is necessary -/

/-- What can hit a path that the new tree has: a changed file, a created file, or a
renamed directory above it. -/
theorem hit_cases (collected : Collected store old new acc)
    (present : entryAt store new path = some entry)
    (hits : ∃ change ∈ acc.result, Hits (filesOf store old) (filesOf store new) change path) :
    (plainChange .edit (path, entry) ∈ acc.changes ∧ hasDirBit entry.mode = false ∧
      ∀ oldEntry, entryAt store old path = some oldEntry → entry.id ≠ oldEntry.id) ∨
    ((path, entry) ∈ acc.created ∧ hasDirBit entry.mode = false) ∨
    ∃ before item rest after gone, acc.created = before ++ item :: after ∧
      gone ∈ objToDeleted acc.dropped item.2.id ∧
      earlier before item.2.id < (objToDeleted acc.dropped item.2.id).length ∧
      rest ≠ [] ∧ path = item.1 ++ rest ∧ (filesOf store new path).isSome = true := by
  have notBelowDropped : ∀ item ∈ acc.dropped, item.1 ≠ path ∧ isBelow item.1 path = false := by
    intro item isDropped
    obtain ⟨nonempty, absent⟩ := collected.dropped item isDropped
    refine ⟨?_, ?_⟩
    · rintro rfl
      rw [present] at absent
      simp at absent
    · cases below : isBelow item.1 path with
      | false => rfl
      | true =>
        obtain ⟨rest, -, rfl⟩ := isBelow_iff.mp below
        rw [entryAt_below_none nonempty absent] at present
        simp at present
  obtain ⟨plain, origin, hit⟩ := hits_result.mp hits
  rcases origin with isEdit | ⟨item, isDropped, rfl⟩ | isPaired
  · obtain ⟨editPath, edited, rfl, isNew, file, differ⟩ := collected.edited plain isEdit
    have samePath : editPath = path := by
      rcases hit with ⟨-, same⟩ | ⟨directory, -⟩
      · exact same
      · have isFile := objTypeOf_file.mpr file
        rw [show objTypeOf edited.mode = .dir from directory] at isFile
        simp at isFile
    subst samePath
    rw [present, Option.some.injEq] at isNew
    subst isNew
    exact Or.inl ⟨isEdit, file, differ⟩
  · obtain ⟨apart, notBelow⟩ := notBelowDropped item isDropped
    rcases hits_delete.mp hit with ⟨-, same⟩ | ⟨-, below, -⟩
    · exact absurd same apart
    · rw [notBelow] at below
      simp at below
  · obtain ⟨before, item, after, split, kind⟩ := mem_pairCreated isPaired
    have isCreated : item ∈ acc.created := by simp [split]
    have isNew := (collected.created item isCreated).1
    have asFile : hasDirBit item.2.mode = false → item.1 = path →
        (path, entry) ∈ acc.created ∧ hasDirBit entry.mode = false := by
      rintro file rfl
      rw [present, Option.some.injEq] at isNew
      subst isNew
      exact ⟨isCreated, file⟩
    rcases kind with rfl | ⟨gone, isDeleted, rfl, inTime⟩
    · obtain ⟨file, same⟩ := hits_create.mp hit
      exact Or.inr (Or.inl (asFile file same))
    · rcases hits_paired.mp hit with ⟨file, same⟩ | ⟨-, ⟨below, isFile⟩ | ⟨below, -⟩⟩
      · exact Or.inr (Or.inl (asFile file same))
      · obtain ⟨rest, proper, isPath⟩ := isBelow_iff.mp below
        exact Or.inr (Or.inr ⟨before, item, rest, after, gone, split, isDeleted, inTime, proper,
          isPath, isFile⟩)
      · rw [(notBelowDropped gone (List.mem_filter.mp isDeleted).1).2] at below
        simp at below

theorem kindsKept_of_exact (collected : Collected store old new acc)
    (isExact : ∀ path, filesOf store old path = filesOf store new path ∨
      ∃ change ∈ acc.result, Hits (filesOf store old) (filesOf store new) change path) :
    KindsKept store old new := by
  intro path oldEntry entry before present
  have oldAbove : ∀ item ∈ acc.created, ∀ rest, path ≠ item.1 ++ rest := by
    rintro item isCreated rest rfl
    obtain ⟨isNew, absent⟩ := collected.created item isCreated
    rw [entryAt_below_none (entryAt_ne_nil isNew) absent] at before
    simp at before
  have notCreated : (path, entry) ∉ acc.created := fun isCreated =>
    oldAbove _ isCreated [] (by simp)
  refine ⟨?_, ?_⟩
  · intro directory
    by_contra oldFile
    rw [Bool.not_eq_true] at oldFile
    have isFile := filesOf_eq_some_iff.mpr ⟨oldEntry, before, oldFile, rfl⟩
    have noFile : filesOf store new path = none := by simp [filesOf, present, directory]
    rcases isExact path with same | hits
    · rw [isFile, noFile] at same
      simp at same
    · rcases hit_cases collected present hits with ⟨-, file, -⟩ | ⟨-, file⟩ |
        ⟨_, _, _, _, _, -, -, -, -, -, isFile⟩
      · rw [directory] at file
        simp at file
      · rw [directory] at file
        simp at file
      · rw [noFile] at isFile
        simp at isFile
  · intro oldDirectory file sameId
    have isFile := filesOf_eq_some_iff.mpr ⟨entry, present, file, rfl⟩
    have noFile : filesOf store old path = none := by simp [filesOf, before, oldDirectory]
    rcases isExact path with same | hits
    · rw [isFile, noFile] at same
      simp at same
    · rcases hit_cases collected present hits with ⟨-, -, differ⟩ | ⟨isCreated, -⟩ |
        ⟨_, item, rest, _, _, split, -, -, -, isPath, -⟩
      · exact differ oldEntry before sameId
      · exact notCreated isCreated
      · exact oldAbove item (by simp [split]) rest isPath

omit [DecidableEq Oid] [Digests Oid] in
theorem split_unique {before' after' : List (PathEntry Oid)} (distinct : (items.map Prod.fst).Nodup)
    (split : items = before ++ item :: after) (split' : items = before' ++ item :: after') :
    before = before' := by
  induction before generalizing items before' with
  | nil =>
    cases before' with
    | nil => rfl
    | cons first before' =>
      rw [split] at split' distinct
      simp only [List.nil_append, List.cons_append, List.cons.injEq] at split'
      obtain ⟨rfl, rfl⟩ := split'
      simp at distinct
  | cons first before ih =>
    cases before' with
    | nil =>
      rw [split'] at split distinct
      simp only [List.nil_append, List.cons_append, List.cons.injEq] at split
      obtain ⟨rfl, rfl⟩ := split
      simp at distinct
    | cons first' before' =>
      rw [split] at split' distinct
      simp only [List.cons_append, List.cons.injEq] at split'
      rw [List.cons_append, List.map_cons, List.nodup_cons] at distinct
      rw [split'.1, ih distinct.2 rfl split'.2]

theorem reuseCovered_of_exact (uniqueNew : UniqueNames store new)
    (collected : Collected store old new acc) (all : CollectedAll store old new acc)
    (isExact : ∀ path, filesOf store old path = filesOf store new path ∨
      ∃ change ∈ acc.result, Hits (filesOf store old) (filesOf store new) change path) :
    ReuseCovered store old new := by
  intro depth before path entry after split reused holdsFile
  obtain ⟨rest, isFile⟩ := holdsFile
  have listed : (path, entry) ∈ listingTo store new depth := by simp [split]
  have present := ((mem_listingTo uniqueNew).mp listed).2
  obtain ⟨absent, reusedEntry, isNew, directory, -⟩ := reusedAt_iff.mp reused
  rw [present, Option.some.injEq] at isNew
  subst isNew
  have nonempty := entryAt_ne_nil present
  have below : dirAt store new path = entriesOf store entry.id := by
    obtain ⟨parent, name, rfl⟩ := (List.eq_nil_or_concat path).resolve_left nonempty
    rw [List.concat_eq_append] at present ⊢
    rw [entryAt_concat] at present
    rw [dirAt_concat, entriesUnder, present]
    exact if_pos directory
  have proper : rest ≠ [] := by
    rintro rfl
    simp [filesOf, entryAt] at isFile
  obtain ⟨id, isFile⟩ := Option.isSome_iff_exists.mp isFile
  rw [← below, ← filesOf_append path rest proper] at isFile
  obtain ⟨fileEntry, presentFile, file, -⟩ := filesOf_eq_some_iff.mp isFile
  have absentFile : entryAt store old (path ++ rest) = none :=
    entryAt_below_none nonempty absent
  have notReported := not_reported_below reused proper
  have notSame : filesOf store old (path ++ rest) ≠ filesOf store new (path ++ rest) := by
    rw [isFile, filesOf_of_entryAt_none absentFile]
    simp
  have createdReported : ∀ item ∈ acc.created, reportedAt store old new item.1 = true := by
    intro item isCreated
    obtain ⟨reached, isListing⟩ := all.created
    rw [isListing reached (le_refl _)] at isCreated
    exact (List.mem_filter.mp isCreated).2
  have hits := (isExact (path ++ rest)).resolve_left notSame
  rcases hit_cases collected presentFile hits with ⟨isEdit, -, -⟩ | ⟨isCreated, -⟩ |
    ⟨before', item, below', after', gone, split', -, inTime, proper', isPath, -⟩
  · obtain ⟨oldEntry, before⟩ := all.edits_old _ isEdit
    rw [show (plainChange .edit (path ++ rest, fileEntry)).path = path ++ rest from rfl,
      absentFile] at before
    simp at before
  · rw [createdReported _ isCreated] at notReported
    simp at notReported
  · have isCreated : item ∈ acc.created := by simp [split']
    obtain ⟨isNew, isFresh⟩ := collected.created item isCreated
    have samePath : item.1 = path := by
      rcases List.append_eq_append_iff.mp isPath with ⟨more, isItem, -⟩ | ⟨more, isHere, -⟩
      · by_contra differ
        have properMore : more ≠ [] := by
          rintro rfl
          exact differ (by simpa using isItem)
        have reported := createdReported item isCreated
        rw [isItem, not_reported_below reused properMore] at reported
        simp at reported
      · by_contra differ
        have properMore : more ≠ [] := by
          rintro rfl
          exact differ (by simpa using isHere.symm)
        rw [isHere] at reused
        obtain ⟨oldEntry, before⟩ := old_above_reused (entryAt_ne_nil isNew) properMore reused
        rw [isFresh] at before
        simp at before
    have sameItem : item = (path, entry) := by
      rw [samePath, present, Option.some.injEq] at isNew
      exact Prod.ext samePath isNew.symm
    subst sameItem
    obtain ⟨more, isCreatedList⟩ := all.created_split split (reported_of_reused reused)
    have distinct : (acc.created.map Prod.fst).Nodup := by
      obtain ⟨reached, isListing⟩ := all.created
      rw [isListing reached (le_refl _)]
      exact (listingTo_nodup reached uniqueNew).sublist (List.filter_sublist.map _)
    rw [split_unique distinct split' isCreatedList, all.count, earlier,
      List.countP_filter] at inTime
    simpa [Bool.and_comm] using inTime

end Exact

/-! ## The first tree -/

theorem collect_level (depth : Nat) (frame : ListFrame Oid) :
    (levelAt (ListFrame.next store) depth [frame]).flatMap (ListFrame.items store) =
      listing store depth frame.path (entriesOf store frame.fsId) := by
  induction depth generalizing frame with
  | zero => simp [ListFrame.items, listing]
  | succ depth ih =>
    rw [levelAt_succ, List.flatMap_singleton, levelAt_flatMap, List.flatMap_assoc,
      List.flatMap_congr fun child _ => ih child, ListFrame.next, listing]
    generalize entriesOf store frame.fsId = entries
    induction entries with
    | nil => rfl
    | cons entry entries ihEntries =>
      rw [List.flatMap_cons, ← ihEntries, List.filter_cons]
      cases directory : hasDirBit entry.mode <;> simp

omit [DecidableEq Oid] [Digests Oid] in
theorem foldl_insertItem (items : List (PathEntry Oid)) :
    ∀ out : List (PathEntry Oid),
      (∀ item ∈ items.foldl insertItem out, item ∈ out ∨ item ∈ items) ∧
      ∀ item, item ∈ out ∨ item ∈ items →
        ∃ kept ∈ items.foldl insertItem out, kept.1 = item.1 := by
  induction items with
  | nil =>
    intro out
    exact ⟨fun _ => Or.inl, fun item member => ⟨item, member.resolve_right (by simp), rfl⟩⟩
  | cons first items ih =>
    intro out
    obtain ⟨sources, kept⟩ := ih (insertItem out first)
    refine ⟨?_, ?_⟩
    · intro item member
      rcases sources item member with before | later
      · rcases List.mem_append.mp before with before | isFirst
        · exact Or.inl (List.mem_of_mem_filter before)
        · exact Or.inr (by simp [List.mem_singleton.mp isFirst])
      · exact Or.inr (List.mem_cons_of_mem _ later)
    · intro item member
      by_cases same : item.1 = first.1
      · obtain ⟨other, isKept, isPath⟩ := kept first (Or.inl (by simp [insertItem]))
        exact ⟨other, isKept, isPath.trans same.symm⟩
      · refine kept item ?_
        rcases member with before | inside
        · exact Or.inl (by simp [insertItem, before, same])
        · refine Or.inr ((List.mem_cons.mp inside).resolve_left ?_)
          rintro rfl
          exact same rfl

variable {limits : Limits} {newRoot : Oid}

theorem collectEntries_exact (uniqueNew : UniqueNames store (entriesOf store newRoot))
    (run : collectEntries limits store newRoot = .ok items) (path : TreePath)
    (entry : DirEntryData Oid) :
    (path, entry) ∈ items ↔ entryAt store (entriesOf store newRoot) path = some entry := by
  have reads : ∀ (frontier : List (ListFrame Oid)) (out : List (PathEntry Oid)),
      (.ok (frontier.flatMap (ListFrame.next store),
        frontier.foldl (fun out frame => (frame.items store).foldl insertItem out) out) :
          Except AppError (List (ListFrame Oid) × List (PathEntry Oid))) =
      .ok (frontier.flatMap (ListFrame.next store),
        frontier.foldl (fun out frame => (frame.items store).foldl insertItem out) out) :=
    fun _ _ => rfl
  obtain ⟨reached, -, ends, isFold⟩ := levelWalk_visits reads run
  rw [← List.foldl_flatMap] at isFold
  have isListing : (levelsTo (ListFrame.next store) reached [⟨newRoot, []⟩]).flatMap
      (ListFrame.items store) = listingTo store (entriesOf store newRoot) reached := by
    rw [levelsTo, listingTo, List.flatMap_assoc]
    exact List.flatMap_congr fun level _ => collect_level level _
  rw [isListing] at isFold
  obtain ⟨sources, kept⟩ := foldl_insertItem (listingTo store (entriesOf store newRoot) reached) []
  have sound : ∀ item ∈ items, entryAt store (entriesOf store newRoot) item.1 = some item.2 := by
    intro item member
    rw [isFold] at member
    have listed := (sources item member).resolve_left (by simp)
    exact ((mem_listingTo uniqueNew).mp listed).2
  refine ⟨sound (path, entry), ?_⟩
  intro present
  have short : path.length ≤ reached := by
    by_contra long
    have nonempty := List.length_pos_of_ne_nil (entryAt_ne_nil present)
    have deep : (path, entry) ∈ listing store (path.length - 1) [] (entriesOf store newRoot) :=
      (listing_spec uniqueNew).mpr ⟨path, rfl, by omega, present⟩
    have empty : levelAt (ListFrame.next store) (path.length - 1) [⟨newRoot, []⟩] = [] :=
      levelAt_eq_nil_of_le ends (by omega)
    have level : [] = listing store (path.length - 1) [] (entriesOf store newRoot) := by
      rw [← collect_level (path.length - 1) ⟨newRoot, []⟩, empty]
      rfl
    rw [← level] at deep
    simp at deep
  obtain ⟨other, isKept, samePath⟩ :=
    kept (path, entry) (Or.inr ((mem_listingTo uniqueNew).mpr ⟨short, present⟩))
  rw [← isFold] at isKept
  have same := sound other isKept
  rw [samePath, present, Option.some.injEq] at same
  have isOther : (path, entry) = other := Prod.ext samePath.symm same
  rw [isOther]
  exact isKept

theorem replay_first (uniqueNew : UniqueNames store (entriesOf store newRoot))
    (run : collectEntries limits store newRoot = .ok items) :
    replay (filesOf store []) (filesOf store (entriesOf store newRoot))
      (sortChanges (items.map createChange)) = filesOf store (entriesOf store newRoot) := by
  have spec := collectEntries_exact uniqueNew run
  have truthful : ∀ change ∈ sortChanges (items.map createChange),
      Truthful (filesOf store (entriesOf store newRoot)) change := by
    intro change member
    obtain ⟨item, isItem, rfl⟩ := List.mem_map.mp ((List.mem_insertionSort _).mp member)
    refine truthful_of_present ((spec item.1 item.2).mp isItem) ⟨rfl, rfl, rfl⟩
      (by simp [createChange, plainChange]) ?_
    intro oldPath newPath isPaths
    simp [dirPaths, createChange, plainChange] at isPaths
  funext path
  refine (replay_at truthful path).mpr ?_
  cases after : filesOf store (entriesOf store newRoot) path with
  | none => exact Or.inl (filesOf_of_entryAt_none (entryAt_nil_root path))
  | some id =>
    obtain ⟨entry, present, file, -⟩ := filesOf_eq_some_iff.mp after
    have member := (spec path entry).mpr present
    refine Or.inr ⟨createChange (path, entry), ?_, hits_create.mpr ⟨file, rfl⟩⟩
    exact (List.mem_insertionSort _).mpr (List.mem_map_of_mem member)

theorem replayable_of_empty : Replayable store [] new := by
  refine ⟨?_, ?_⟩
  · intro path oldEntry entry before
    rw [entryAt_nil_root] at before
    simp at before
  · intro depth before path entry after _ reused
    obtain ⟨-, -, -, -, gone, listed, -⟩ := reusedAt_iff.mp reused
    rw [dirAt_of_nil] at listed
    simp at listed

/-! ## The replay is exact exactly when the trees are replayable -/

theorem walked_replay_iff {oldRoot : Oid} (uniqueOld : UniqueNames store (entriesOf store oldRoot))
    (uniqueNew : UniqueNames store (entriesOf store newRoot))
    (run : walkTrees limits store oldRoot newRoot = .ok acc) :
    replay (filesOf store (entriesOf store oldRoot)) (filesOf store (entriesOf store newRoot))
        acc.result = filesOf store (entriesOf store newRoot) ↔
      Replayable store (entriesOf store oldRoot) (entriesOf store newRoot) := by
  have collected := walkTrees_collected uniqueOld uniqueNew run
  constructor
  · intro same
    have isExact : ∀ path, filesOf store (entriesOf store oldRoot) path =
        filesOf store (entriesOf store newRoot) path ∨ ∃ change ∈ acc.result,
          Hits (filesOf store (entriesOf store oldRoot))
            (filesOf store (entriesOf store newRoot)) change path := fun path =>
      (replay_at collected.truthful path).mp (congrFun same path)
    have kinds := kindsKept_of_exact collected isExact
    have all := walkTrees_collectedAll uniqueOld uniqueNew run kinds.changesEmpty
    exact ⟨kinds, reuseCovered_of_exact uniqueNew collected all isExact⟩
  · intro replayable
    have all := walkTrees_collectedAll uniqueOld uniqueNew run replayable.kinds.changesEmpty
    funext path
    refine (replay_at collected.truthful path).mpr ?_
    by_cases same : filesOf store (entriesOf store oldRoot) path =
        filesOf store (entriesOf store newRoot) path
    · exact Or.inl same
    · exact Or.inr (hit_of_changed uniqueNew all replayable path same)

/-- Replaying the diff of two trees on the files of the old one gives the files of the
new one exactly when the trees are replayable. -/
theorem diffTrees_replay_iff {limits : Limits} {oldRoot : Option Oid} {newRoot : Oid}
    {changes : List (FsChange Oid)}
    (uniqueOld : UniqueNames store (rootEntries store oldRoot))
    (uniqueNew : UniqueNames store (entriesOf store newRoot))
    (run : diffTrees limits store oldRoot newRoot = .ok changes) :
    replay (filesOf store (rootEntries store oldRoot))
        (filesOf store (entriesOf store newRoot)) changes =
          filesOf store (entriesOf store newRoot) ↔
      Replayable store (rootEntries store oldRoot) (entriesOf store newRoot) := by
  have first : ∀ items, collectEntries limits store newRoot = .ok items →
      (replay (filesOf store []) (filesOf store (entriesOf store newRoot))
        (sortChanges (items.map createChange)) = filesOf store (entriesOf store newRoot) ↔
      Replayable store [] (entriesOf store newRoot)) := fun items walked =>
    ⟨fun _ => replayable_of_empty, fun _ => replay_first uniqueNew walked⟩
  cases oldRoot with
  | none =>
    simp only [diffTrees] at run
    cases walked : collectEntries limits store newRoot with
    | error failure => simp [walked, Except.map] at run
    | ok items =>
      simp only [walked, Except.map, Except.ok.injEq] at run
      subst run
      exact first items walked
  | some oldRoot =>
    simp only [diffTrees] at run
    split at run
    · rename_i sentinel
      cases walked : collectEntries limits store newRoot with
      | error failure => simp [walked, Except.map] at run
      | ok items =>
        simp only [walked, Except.map, Except.ok.injEq] at run
        subst run
        have noEntries : rootEntries store (some oldRoot) = [] := by
          rw [sentinel]
          exact entriesOf_sentinel
        rw [noEntries]
        exact first items walked
    · cases walked : walkTrees limits store oldRoot newRoot with
      | error failure => simp [walked, Except.map] at run
      | ok acc =>
        simp only [walked, Except.map, Except.ok.injEq] at run
        subst run
        exact walked_replay_iff uniqueOld uniqueNew walked

/-! ## A directory that is renamed and copied -/

def copiedDir : FsDirData FreeId := directory [fileEntry "f" (.atom 1) 1]

def treeBefore : FsDirData FreeId := directory [dirEntry "d" (Digests.dirId copiedDir)]

def treeCopied : FsDirData FreeId :=
  directory [dirEntry "y" (Digests.dirId copiedDir), dirEntry "x" (Digests.dirId copiedDir)]

def treeRenamed : FsDirData FreeId := directory [dirEntry "x" (Digests.dirId copiedDir)]

def copiedStore : FsStore FreeId :=
  ⟨[(Digests.dirId copiedDir, .dir copiedDir.written),
    (Digests.dirId treeBefore, .dir treeBefore.written),
    (Digests.dirId treeCopied, .dir treeCopied.written),
    (Digests.dirId treeRenamed, .dir treeRenamed.written)]⟩

theorem diffTrees_replay_iff_renamed : ∃ changes,
    diffTrees defaultLimits copiedStore (some (Digests.dirId treeBefore))
      (Digests.dirId treeRenamed) = .ok changes ∧
    (replay (filesOf copiedStore (rootEntries copiedStore (some (Digests.dirId treeBefore))))
        (filesOf copiedStore (entriesOf copiedStore (Digests.dirId treeRenamed))) changes =
          filesOf copiedStore (entriesOf copiedStore (Digests.dirId treeRenamed)) ↔
      Replayable copiedStore (rootEntries copiedStore (some (Digests.dirId treeBefore)))
        (entriesOf copiedStore (Digests.dirId treeRenamed))) := by
  have ran : (diffTrees defaultLimits copiedStore (some (Digests.dirId treeBefore))
      (Digests.dirId treeRenamed)).isOk = true := by decide +kernel
  cases run : diffTrees defaultLimits copiedStore (some (Digests.dirId treeBefore))
      (Digests.dirId treeRenamed) with
  | error failure => simp [run, Except.isOk, Except.toBool] at ran
  | ok changes =>
    exact ⟨changes, rfl, diffTrees_replay_iff
      (wellFormed_of_check 3 (by decide +kernel)).uniqueNames
      (wellFormed_of_check 3 (by decide +kernel)).uniqueNames run⟩

/-- The files of the copy never reach the index: the only dropped entry is popped for
the first of the two, and the second is created without being read. -/
theorem copied_dir_unindexed : ∃ changes,
    diffTrees defaultLimits copiedStore (some (Digests.dirId treeBefore))
      (Digests.dirId treeCopied) = .ok changes ∧
    filesOf copiedStore (entriesOf copiedStore (Digests.dirId treeCopied)) ["x", "f"] =
      some (.atom 1) ∧
    replay (filesOf copiedStore (rootEntries copiedStore (some (Digests.dirId treeBefore))))
      (filesOf copiedStore (entriesOf copiedStore (Digests.dirId treeCopied))) changes
      ["x", "f"] = none := by
  have ran : (diffTrees defaultLimits copiedStore (some (Digests.dirId treeBefore))
      (Digests.dirId treeCopied)).toOption.map (fun changes =>
        replay (filesOf copiedStore (rootEntries copiedStore (some (Digests.dirId treeBefore))))
          (filesOf copiedStore (entriesOf copiedStore (Digests.dirId treeCopied))) changes
          ["x", "f"]) = some none := by decide +kernel
  cases run : diffTrees defaultLimits copiedStore (some (Digests.dirId treeBefore))
      (Digests.dirId treeCopied) with
  | error failure => simp [run, Except.toOption] at ran
  | ok changes =>
    rw [run] at ran
    exact ⟨changes, rfl, by decide +kernel, Option.some.inj ran⟩

end Nanofile
