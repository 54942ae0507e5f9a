import Nanofile.Base.FreeDigest
import Nanofile.Service.CheckExact

/-!
# The size the upload check computes

The sizes depend on a mode by its directory bit alone, so a tree that is stored as it says
is honest once its modes are reduced to that bit.
-/

set_option autoImplicit false

namespace Nanofile

open Nanofile.Lib

variable {Oid : Type} [DecidableEq Oid] [Digests Oid]

/-! ## Modes reduced to the directory bit -/

def DirEntryData.kindOnly (entry : DirEntryData Oid) : DirEntryData Oid :=
  { entry with mode := if hasDirBit entry.mode then sIfdir else sIfreg }

def FsObject.kindsOnly : FsObject Oid → FsObject Oid
  | .file stored => .file stored
  | .dir data => .dir { data with dirents := data.dirents.map DirEntryData.kindOnly }

def kindsOnly (store : FsStore Oid) : FsStore Oid :=
  ⟨store.rows.map fun row => (row.1, row.2.kindsOnly)⟩

section Reduced

omit [DecidableEq Oid] [Digests Oid]

@[simp] theorem kindOnly_id (entry : DirEntryData Oid) : entry.kindOnly.id = entry.id := rfl

@[simp] theorem kindOnly_name (entry : DirEntryData Oid) : entry.kindOnly.name = entry.name := rfl

@[simp] theorem kindOnly_size (entry : DirEntryData Oid) : entry.kindOnly.size = entry.size := rfl

theorem mode_kindOnly (entry : DirEntryData Oid) :
    isDir entry.kindOnly.mode = hasDirBit entry.mode ∧
      isRegular entry.kindOnly.mode = !hasDirBit entry.mode := by
  simp only [DirEntryData.kindOnly]
  cases hasDirBit entry.mode with
  | true =>
    rw [if_pos rfl]
    decide
  | false =>
    rw [if_neg Bool.false_ne_true]
    decide

@[simp] theorem hasDirBit_kindOnly (entry : DirEntryData Oid) :
    hasDirBit entry.kindOnly.mode = hasDirBit entry.mode := by
  simp only [DirEntryData.kindOnly]
  cases hasDirBit entry.mode with
  | true =>
    rw [if_pos rfl]
    decide
  | false =>
    rw [if_neg Bool.false_ne_true]
    decide

@[simp] theorem names_kindOnly (entries : List (DirEntryData Oid)) :
    (entries.map DirEntryData.kindOnly).map DirEntryData.name = entries.map DirEntryData.name := by
  rw [List.map_map]
  rfl

end Reduced

variable (store : FsStore Oid)

omit [Digests Oid] in
theorem find_kindsOnly (fsId : Oid) :
    (kindsOnly store).find fsId = (store.find fsId).map FsObject.kindsOnly := by
  unfold kindsOnly Table.find
  rw [List.find?_map, Option.map_map, Option.map_map]
  rfl

theorem dirBatch_kindsOnly (fsId : Oid) :
    dirBatch (kindsOnly store) fsId = (dirBatch store fsId).map fun data =>
      { data with dirents := data.dirents.map DirEntryData.kindOnly } := by
  unfold dirBatch
  rw [find_kindsOnly]
  split
  · rfl
  · cases store.find fsId with
    | none => rfl
    | some object => cases object <;> rfl

theorem fileBatch_kindsOnly (fsId : Oid) :
    fileBatch (kindsOnly store) fsId = fileBatch store fsId := by
  unfold fileBatch
  rw [find_kindsOnly]
  split
  · rfl
  · cases store.find fsId with
    | none => rfl
    | some object => cases object <;> rfl

/-! ## The walks see no more of a mode -/

theorem computeTreeSize_kindsOnly (limits : Limits) (root : Oid) :
    computeTreeSize limits (kindsOnly store) root = computeTreeSize limits store root := by
  have entries : ∀ fsId, sizeEntries (kindsOnly store) fsId = sizeEntries store fsId := by
    intro fsId
    unfold sizeEntries
    rw [dirBatch_kindsOnly]
    cases dirBatch store fsId with
    | none => rfl
    | some data => simp [List.filter_map, Function.comp_def]
  have level : sizeLevel (kindsOnly store) = sizeLevel store := by
    funext frontier total
    simp only [sizeLevel, entries]
  unfold computeTreeSize
  rw [level]

omit [DecidableEq Oid] [Digests Oid] in
theorem lastNamed_kindOnly (entries : List (DirEntryData Oid)) (name : String) :
    lastNamed (entries.map DirEntryData.kindOnly) name =
      (lastNamed entries name).map DirEntryData.kindOnly := by
  unfold lastNamed
  rw [← List.map_reverse, List.find?_map]
  rfl

theorem diffDirs_kindsOnly (path : String) (base new : Option (FsDirData Oid)) :
    diffDirs path
        (base.map fun data => { data with dirents := data.dirents.map DirEntryData.kindOnly })
        (new.map fun data => { data with dirents := data.dirents.map DirEntryData.kindOnly }) =
      diffDirs path base new := by
  have deleted : ∀ entry : DirEntryData Oid,
      deletedEntry path entry.kindOnly = deletedEntry path entry := by
    intro entry
    simp [deletedEntry]
  have added : ∀ entry : DirEntryData Oid,
      addedEntry path entry.kindOnly = addedEntry path entry := by
    intro entry
    simp [addedEntry]
  have compared : ∀ (data : FsDirData Oid) (entry : DirEntryData Oid),
      compareEntry { data with dirents := data.dirents.map DirEntryData.kindOnly } path
        entry.kindOnly = compareEntry data path entry := by
    intro data entry
    unfold compareEntry
    rw [kindOnly_name, lastNamed_kindOnly]
    cases lastNamed data.dirents entry.name with
    | none => exact added entry
    | some other => simp [changedEntry]
  cases base with
  | none =>
    cases new with
    | none => rfl
    | some new => simp [diffDirs, Function.comp_def, added]
  | some base =>
    cases new with
    | none => simp [diffDirs, Function.comp_def, deleted]
    | some new =>
      simp only [diffDirs, unmatched, Option.map_some, List.map_map, List.filter_map,
        Function.comp_def, deleted, compared, kindOnly_name]
      rfl

theorem checkCommitBlocks_kindsOnly (limits : Limits) (held : Oid → Bool) (newRoot : Oid)
    (baseRoot : Option Oid) :
    checkCommitBlocks limits (kindsOnly store) held newRoot baseRoot =
      checkCommitBlocks limits store held newRoot baseRoot := by
  have side : ∀ fsId : Option Oid, fsId.bind (dirBatch (kindsOnly store)) =
      (fsId.bind (dirBatch store)).map fun data =>
        { data with dirents := data.dirents.map DirEntryData.kindOnly } := by
    intro fsId
    cases fsId with
    | none => rfl
    | some fsId => exact dirBatch_kindsOnly store fsId
  have frame : ∀ frame, diffFrame (kindsOnly store) frame = diffFrame store frame := by
    intro frame
    simp only [diffFrame, side, Option.isNone_map, diffDirs_kindsOnly]
  have frames : ∀ frontier, diffFrames (kindsOnly store) frontier = diffFrames store frontier := by
    intro frontier
    induction frontier with
    | nil => rfl
    | cons first rest ih => simp only [diffFrames, frame, ih]
  have pending : ∀ files, checkPending (kindsOnly store) held files =
      checkPending store held files := by
    intro files
    induction files with
    | nil => rfl
    | cons file rest ih => simp only [checkPending, fileBatch_kindsOnly, ih]
  have full : ∀ frame, fullFrame (kindsOnly store) held frame = fullFrame store held frame := by
    intro frame
    unfold fullFrame
    rw [find_kindsOnly]
    cases store.find frame.fsId with
    | none => rfl
    | some object =>
      cases object with
      | file file => rfl
      | dir data => simp [FsObject.kindsOnly, Function.comp_def]
  have fullAll : fullLevel (kindsOnly store) held = fullLevel store held := by
    funext frontier sofar
    induction frontier generalizing sofar with
    | nil => rfl
    | cons first rest ih => simp only [fullLevel, full, ih]
  have level : diffLevel (kindsOnly store) held = diffLevel store held := by
    funext frontier sofar
    simp only [diffLevel, frames, pending]
  unfold checkCommitBlocks
  rw [level, fullAll]

/-! ## Sizes of whole trees -/

variable {store} {fsId : Oid}

theorem Recorded.honest (recorded : Recorded store fsId) : Honest (kindsOnly store) fsId := by
  induction recorded with
  | empty => exact honest_empty _
  | @dir fsId data read unique files dirs ih =>
    have read' := dirBatch_kindsOnly store fsId
    rw [read, Option.map_some] at read'
    have unique' : ((data.dirents.map DirEntryData.kindOnly).map DirEntryData.name).Nodup := by
      rwa [names_kindOnly]
    refine honest_of_entries read' unique' ?_
    intro entry listed
    obtain ⟨original, member, rfl⟩ := List.mem_map.mp listed
    obtain ⟨isDir', isRegular'⟩ := mode_kindOnly original
    unfold HonestEntry
    rw [isDir']
    cases directory : hasDirBit original.mode with
    | true =>
      rw [if_pos rfl]
      exact ih original member directory
    | false =>
      rw [if_neg Bool.false_ne_true]
      obtain ⟨file, isFile, isSize⟩ := files original member directory
      refine ⟨by rw [isRegular', directory]; rfl, file, ?_, isSize⟩
      rw [fileBatch_kindsOnly]
      exact isFile

/-- What `compute_tree_size` returns of a tree, under every limits that let it return. -/
def ComputesTo (store : FsStore Oid) (root : Oid) (size : Int) : Prop :=
  (∀ limits total, computeTreeSize limits store root = .ok total → total = size) ∧
    ∃ limits, computeTreeSize limits store root = .ok size

theorem Recorded.levels_end (recorded : Recorded store fsId) :
    ∃ depth, levelsBelow (fun fsId => (sizeEntries store fsId).1) depth [fsId] = [] := by
  induction recorded with
  | empty => exact ⟨1, by simp [levelsBelow, sizeEntries, dirBatch_empty]⟩
  | @dir fsId data read unique files dirs ih =>
    have below : ∀ child ∈ (sizeEntries store fsId).1,
        ∃ depth, levelsBelow (fun fsId => (sizeEntries store fsId).1) depth [child] = [] := by
      intro child listed
      simp only [sizeEntries, read] at listed
      obtain ⟨entry, member, rfl⟩ := List.mem_map.mp listed
      obtain ⟨member, directory⟩ := List.mem_filter.mp member
      exact ih entry member directory
    obtain ⟨depth, ends⟩ := levelsBelow_of_each below
    refine ⟨depth + 1, ?_⟩
    rw [levelsBelow, List.flatMap_singleton]
    exact ends

theorem Recorded.computesTo {root : Oid} (recorded : Recorded store root) :
    ComputesTo store root (treeSize (kindsOnly store) root) := by
  have returns : ∀ limits total, computeTreeSize limits store root = .ok total →
      total = treeSize (kindsOnly store) root := by
    intro limits total run
    rw [← computeTreeSize_kindsOnly] at run
    exact computeTreeSize_eq recorded.honest run
  obtain ⟨depth, ends⟩ := recorded.levels_end
  have reads : ∀ frontier total, ∃ total', sizeLevel store frontier total =
      .ok (frontier.flatMap fun fsId => (sizeEntries store fsId).1, total') :=
    fun frontier total => ⟨_, rfl⟩
  obtain ⟨room, finishes⟩ := levelWalk_finishes reads ends
  refine ⟨returns, ⟨depth, room⟩, ?_⟩
  obtain ⟨total, run⟩ : ∃ total, computeTreeSize ⟨depth, room⟩ store root = .ok total := by
    unfold computeTreeSize
    split
    · exact ⟨0, rfl⟩
    · exact finishes _ _ room depth 0 0 (Nat.le_refl _) (by omega)
  rw [run, returns _ total run]

/-! ## The full check -/

def RecordedObject (store : FsStore Oid) (fsId : Oid) : Prop :=
  Recorded store fsId ∨ ∃ size, FileOfSize store fsId size

noncomputable def objectSize (store : FsStore Oid) (fsId : Oid) : Int :=
  match fileBatch store fsId with
  | some file => file.size
  | none => treeSize (kindsOnly store) fsId

def ObjectReports (store : FsStore Oid) (held : Oid → Bool) (frame : FullFrame Oid)
    (text : String) : Prop :=
  (LacksBlock store held frame.fsId ∧ text = frame.path) ∨
    Reports store held [] (entriesOf store frame.fsId) frame.path text

variable {held : Oid → Bool}

theorem Recorded.objectSize (recorded : Recorded store fsId) :
    objectSize store fsId = treeSize (kindsOnly store) fsId := by
  unfold Nanofile.objectSize
  cases recorded with
  | empty =>
    rw [fileBatch, if_pos rfl, treeSize_empty]
    rfl
  | dir read => rw [fileBatch_eq_none_of_dir read]

variable {size : Int}

theorem FileOfSize.objectSize (file : FileOfSize store fsId size) :
    objectSize store fsId = size := by
  obtain ⟨data, isFile, isSize⟩ := file
  rw [Nanofile.objectSize, isFile]
  exact isSize

variable {entry : DirEntryData Oid}

theorem RecordedEntry.object (recorded : RecordedEntry store entry) :
    RecordedObject store entry.id ∧
      objectSize store entry.id = entrySize (kindsOnly store) entry.kindOnly := by
  unfold RecordedEntry at recorded
  unfold entrySize
  rw [(mode_kindOnly entry).1]
  split at recorded
  · rename_i directory
    rw [if_pos directory]
    exact ⟨Or.inl recorded, recorded.objectSize⟩
  · rename_i file
    rw [if_neg file]
    exact ⟨Or.inr ⟨_, recorded⟩, recorded.objectSize⟩

theorem RecordedEntry.reports (recorded : RecordedEntry store entry) (path text : String) :
    ObjectReports store held ⟨entry.id, childOf path entry.name⟩ text ↔
      EntryReports store held [] path entry text := by
  unfold RecordedEntry at recorded
  unfold ObjectReports EntryReports
  split at recorded
  · rename_i directory
    rw [if_pos directory, entriesUnder_nil]
    have noFile : ¬ LacksBlock store held entry.id := not_lacksBlock_of_dir recorded
    simp [noFile]
  · rename_i file
    rw [if_neg file, recorded.no_entries]
    have nothing : ¬ Reports store held [] [] (childOf path entry.name) text := not_reports_nil
    simp [nothing, lookup]

theorem fullFrame_exact {frame : FullFrame Oid} {children : List (FullFrame Oid)}
    {found : List String × Int} (recorded : RecordedObject store frame.fsId)
    (run : fullFrame store held frame = .ok (children, found)) :
    (∀ child ∈ children, RecordedObject store child.fsId) ∧
      found.2 + (children.map fun child => objectSize store child.fsId).sum =
        objectSize store frame.fsId ∧
      ∀ text, (text ∈ found.1 ∨ ∃ child ∈ children, ObjectReports store held child text) ↔
        ObjectReports store held frame text := by
  unfold fullFrame at run
  split at run
  · rename_i isEmpty
    cases run
    refine ⟨by simp, ?_, fun text => ?_⟩
    · rw [isEmpty, Recorded.empty.objectSize, treeSize_empty]
      simp
    · have noFile : ¬ LacksBlock store held emptySha1 := not_lacksBlock_of_dir .empty
      have nothing : ¬ Reports store held [] [] frame.path text := not_reports_nil
      simp [ObjectReports, isEmpty, noFile, nothing]
  · rename_i nonempty
    cases present : store.find frame.fsId with
    | none => simp [present] at run
    | some object =>
      cases object with
      | file file =>
        simp only [present, Except.ok.injEq, Prod.mk.injEq] at run
        obtain ⟨rfl, rfl⟩ := run
        have isFile : fileBatch store frame.fsId = some file := by
          rw [fileBatch, if_neg nonempty, present]
        have sized : FileOfSize store frame.fsId file.size := ⟨file, isFile, rfl⟩
        refine ⟨by simp, by simp [sized.objectSize], fun text => ?_⟩
        have nothing : ¬ Reports store held [] [] frame.path text := not_reports_nil
        simp only [ObjectReports, sized.no_entries, nothing, LacksBlock, isFile,
          Option.some.injEq, exists_eq_left']
        cases hasMissing held file with
        | true | false => simp
      | dir data =>
        simp only [present, Except.ok.injEq, Prod.mk.injEq] at run
        obtain ⟨rfl, rfl⟩ := run
        have read : dirBatch store frame.fsId = some data :=
          dirBatch_eq_some_iff.mpr ⟨nonempty, present⟩
        have isDir : Recorded store frame.fsId := by
          rcases recorded with recorded | ⟨size, file⟩
          · exact recorded
          · obtain ⟨other, isFile, -⟩ := file
            rw [fileBatch_eq_none_of_dir read] at isFile
            cases isFile
        have entries := isDir.entries
        have sameEntries := entriesOf_of_read read
        rw [sameEntries] at entries
        obtain ⟨unique, each⟩ := entries
        refine ⟨?_, ?_, fun text => ?_⟩
        · intro child listed
          obtain ⟨entry, member, rfl⟩ := List.mem_map.mp listed
          exact (each entry member).object.1
        · have read' := dirBatch_kindsOnly store frame.fsId
          rw [read, Option.map_some] at read'
          rw [isDir.objectSize, (isDir.honest.dir read').2.2, List.map_map, List.map_map,
            zero_add]
          congr 1
          apply List.map_congr_left
          intro entry member
          exact (each entry member).object.2
        · have noFile : ¬ LacksBlock store held frame.fsId := not_lacksBlock_of_dir isDir
          have here : ObjectReports store held frame text ↔
              ∃ entry ∈ data.dirents, EntryReports store held [] frame.path entry text := by
            rw [ObjectReports, sameEntries, reports_iff unique]
            simp [noFile]
          rw [here]
          constructor
          · intro found
            obtain ⟨child, listed, reports⟩ := found.resolve_left List.not_mem_nil
            obtain ⟨entry, member, rfl⟩ := List.mem_map.mp listed
            exact ⟨entry, member, ((each entry member).reports frame.path text).mp reports⟩
          · intro found
            obtain ⟨entry, member, reports⟩ := found
            exact Or.inr ⟨_, List.mem_map_of_mem member,
              ((each entry member).reports frame.path text).mpr reports⟩

theorem fullLevel_exact : ∀ {frontier next : List (FullFrame Oid)} {sofar after : List String × Int},
    (∀ frame ∈ frontier, RecordedObject store frame.fsId) →
    fullLevel store held frontier sofar = .ok (next, after) →
    (∀ frame ∈ next, RecordedObject store frame.fsId) ∧
      after.2 + (next.map fun frame => objectSize store frame.fsId).sum =
        sofar.2 + (frontier.map fun frame => objectSize store frame.fsId).sum ∧
      ∀ text, (text ∈ after.1 ∨ ∃ frame ∈ next, ObjectReports store held frame text) ↔
        (text ∈ sofar.1 ∨ ∃ frame ∈ frontier, ObjectReports store held frame text) := by
  intro frontier
  induction frontier with
  | nil =>
    intro next sofar after _ run
    cases run
    exact ⟨by simp, rfl, fun text => Iff.rfl⟩
  | cons frame rest ih =>
    intro next sofar after recorded run
    simp only [fullLevel] at run
    cases here : fullFrame store held frame with
    | error failure => simp [here] at run
    | ok result =>
      obtain ⟨children, found⟩ := result
      simp only [here] at run
      cases there : fullLevel store held rest (sofar.1 ++ found.1, sofar.2 + found.2) with
      | error failure => simp [there] at run
      | ok result =>
        obtain ⟨others, last⟩ := result
        simp only [there, Except.ok.injEq, Prod.mk.injEq] at run
        obtain ⟨rfl, rfl⟩ := run
        obtain ⟨stored, size, reports⟩ :=
          fullFrame_exact (recorded frame List.mem_cons_self) here
        obtain ⟨stored', size', reports'⟩ :=
          ih (fun other listed => recorded other (List.mem_cons_of_mem _ listed)) there
        refine ⟨?_, ?_, fun text => ?_⟩
        · intro child listed
          exact (List.mem_append.mp listed).elim (stored child) (stored' child)
        · simp only [List.map_append, List.sum_append, List.map_cons, List.sum_cons]
          simp only at size'
          omega
        · have later := reports' text
          rw [List.mem_append, or_assoc] at later
          simp only [List.mem_append, or_and_right, exists_or, List.exists_mem_cons_iff]
          rw [or_left_comm, later, ← reports text]
          constructor
          · rintro (below | sofar | found | rest)
            · exact Or.inr (Or.inl (Or.inr below))
            · exact Or.inl sofar
            · exact Or.inr (Or.inl (Or.inl found))
            · exact Or.inr (Or.inr rest)
          · rintro (sofar | (found | below) | rest)
            · exact Or.inr (Or.inl sofar)
            · exact Or.inr (Or.inr (Or.inl found))
            · exact Or.inl below
            · exact Or.inr (Or.inr (Or.inr rest))

/-! ## The check -/

noncomputable def baseSize (store : FsStore Oid) (baseRoot : Option Oid) : Int :=
  (baseRoot.map (treeSize (kindsOnly store))).getD 0

variable {baseRoot : Option Oid} {delta : Int} {limits : Limits} {missing : List String}
  {newRoot : Oid}

section

variable (recordedNew : Recorded store newRoot)
    (recordedBase : ∀ base, baseRoot = some base → Recorded store base)
    (run : checkCommitBlocks limits store held newRoot baseRoot = .ok (missing, delta))
include recordedNew recordedBase run

theorem checkCommitBlocks_reports :
    ∀ text, text ∈ missing ↔ Reports store held ((baseRoot.map (entriesOf store)).getD [])
      (entriesOf store newRoot) "" text := by
  unfold checkCommitBlocks at run
  cases baseRoot with
  | some base =>
    dsimp only at run
    split at run
    · rename_i same
      cases run
      intro text
      simp only [List.not_mem_nil, false_iff, Option.map_some, Option.getD_some, same]
      exact not_reports_self
    · have start : FrameReports store held ⟨storedDir base, storedDir newRoot, ""⟩ =
          Reports store held (entriesOf store base) (entriesOf store newRoot) "" := by
        funext text
        rw [FrameReports, pairEntries_storedDir, pairEntries_storedDir]
      have walked := levelWalk_invariant
        (I := fun frontier (sofar : List String × Int) =>
          (∀ frame ∈ frontier, RecordedFrame store frame) ∧ ∀ text,
            (text ∈ sofar.1 ∨ ∃ frame ∈ frontier, FrameReports store held frame text) ↔
              FrameReports store held ⟨storedDir base, storedDir newRoot, ""⟩ text) ?_ run ?_
      · intro text
        rw [Option.map_some, Option.getD_some, ← start, ← walked.2 text]
        simp
      · intro frontier next sofar after invariant level
        obtain ⟨recorded, reports⟩ := invariant
        unfold diffLevel at level
        cases diffed : diffFrames store frontier with
        | error failure => simp [diffed] at level
        | ok diff =>
          simp only [diffed] at level
          cases checked : checkPending store held diff.pending with
          | error failure => simp [checked] at level
          | ok found =>
            simp only [checked, Except.ok.injEq, Prod.mk.injEq] at level
            obtain ⟨rfl, rfl⟩ := level
            have exact : DiffExact store held diff _ := diffFrames_exact recorded diffed
            refine ⟨exact.1, fun text => ?_⟩
            have here : (text ∈ found ∨ ∃ frame ∈ diff.next,
                FrameReports store held frame text) ↔
                ∃ frame ∈ frontier, FrameReports store held frame text := by
              rw [checkPending_exact checked text]
              exact exact.2 text
            rw [← reports text, ← here, List.mem_append, or_assoc]
      · refine ⟨?_, fun text => by simp⟩
        intro frame listed
        rw [List.mem_singleton.mp listed]
        exact ⟨recordedSide_storedDir (recordedBase base rfl), recordedSide_storedDir recordedNew⟩
  | none =>
    have walked := levelWalk_invariant
      (I := fun frontier (sofar : List String × Int) =>
        (∀ frame ∈ frontier, RecordedObject store frame.fsId) ∧ ∀ text,
          (text ∈ sofar.1 ∨ ∃ frame ∈ frontier, ObjectReports store held frame text) ↔
            ObjectReports store held ⟨newRoot, ""⟩ text) ?_ run ?_
    · intro text
      have noFile : ¬ LacksBlock store held newRoot := not_lacksBlock_of_dir recordedNew
      have all := walked.2 text
      simp only [List.not_mem_nil, false_and, exists_false, or_false, ObjectReports, noFile,
        false_or] at all
      exact all
    · intro frontier next sofar after invariant level
      obtain ⟨recorded, reports⟩ := invariant
      obtain ⟨stored, -, reports'⟩ := fullLevel_exact recorded level
      exact ⟨stored, fun text => (reports' text).trans (reports text)⟩
    · refine ⟨?_, fun text => by simp⟩
      intro frame listed
      rw [List.mem_singleton.mp listed]
      exact Or.inl recordedNew

theorem checkCommitBlocks_size :
    delta = treeSize (kindsOnly store) newRoot - baseSize store baseRoot := by
  cases baseRoot with
  | some base =>
    rw [← checkCommitBlocks_kindsOnly] at run
    exact checkCommitBlocks_delta recordedNew.honest (recordedBase base rfl).honest run
  | none =>
    have walked := levelWalk_invariant
      (I := fun frontier (sofar : List String × Int) =>
        (∀ frame ∈ frontier, RecordedObject store frame.fsId) ∧
          sofar.2 + (frontier.map fun frame => objectSize store frame.fsId).sum =
            objectSize store newRoot) ?_ run ?_
    · have all := walked.2
      rw [recordedNew.objectSize] at all
      simpa [baseSize] using all
    · intro frontier next sofar after invariant level
      obtain ⟨recorded, size⟩ := invariant
      obtain ⟨stored, size', -⟩ := fullLevel_exact recorded level
      exact ⟨stored, size'.trans size⟩
    · refine ⟨?_, by simp⟩
      intro frame listed
      rw [List.mem_singleton.mp listed]
      exact Or.inl recordedNew

end

/-! ## What the presence cache hides -/

def isStored (blocks : Table Oid Int) (block : Oid) : Bool := (blocks.find block).isSome

/-- The file lists a block that is not stored, and its bytes are not cached either. -/
def LacksUncached (store : FsStore Oid) (cached : List Oid) (blocks : Table Oid Int)
    (fsId : Oid) : Prop :=
  ∃ file block, fileBatch store fsId = some file ∧ block ∈ file.blockIds ∧
    isStored blocks block = false ∧ (isValidBlockId block = true → decodeSha1Hex block ∉ cached)

theorem lacksBlock_cached_iff {cached : List Oid} {blocks : Table Oid Int} {fsId : Oid}
    (valid : ∀ block, isStored blocks block = true → isValidBlockId block = true) :
    LacksBlock store (cachedHasBlock cached blocks) fsId ↔
      LacksUncached store cached blocks fsId := by
  have answers : ∀ block, cachedHasBlock cached blocks block = false ↔
      isStored blocks block = false ∧
        (isValidBlockId block = true → decodeSha1Hex block ∉ cached) := by
    intro block
    have isValid := valid block
    revert isValid
    unfold cachedHasBlock isStored
    cases (blocks.find block).isSome <;> cases isValidBlockId block <;> simp
  constructor
  · rintro ⟨file, isFile, missing⟩
    obtain ⟨block, listed, absent⟩ := List.any_eq_true.mp missing
    exact ⟨file, block, isFile, listed, (answers block).mp (by simpa using absent)⟩
  · rintro ⟨file, block, isFile, listed, absent⟩
    refine ⟨file, isFile, List.any_eq_true.mpr ⟨block, listed, ?_⟩⟩
    rw [(answers block).mpr absent, Bool.not_false]

/-- The file of the new tree is not the object the base has at the path. -/
def Changed (store : FsStore Oid) (baseRoot : Option Oid) (newRoot : Oid) (path : TreePath)
    (fsId : Oid) : Prop :=
  ChangedFile store ((baseRoot.map (entriesOf store)).getD []) (entriesOf store newRoot) path fsId

def oneBlockFile (block : FreeId) (size : Int) : FsFileData FreeId :=
  ⟨[block], size, seafMetadataTypeFile, 1⟩

def rootOfFile (block : FreeId) (size : Int) : FsDirData FreeId :=
  directory [fileEntry "f" (FreeId.object (.file (oneBlockFile block size))) size]

def rootIdOfFile (block : FreeId) (size : Int) : FreeId :=
  FreeId.object (.dir (rootOfFile block size))

/-- Two versions of one file; the second lists `block`. -/
def twoVersions (block : FreeId) : FsStore FreeId :=
  ⟨[(FreeId.object (.file (oneBlockFile (.atom 1) 3)), .file (oneBlockFile (.atom 1) 3)),
    (FreeId.object (.file (oneBlockFile block 5)), .file (oneBlockFile block 5)),
    (rootIdOfFile (.atom 1) 3, .dir (rootOfFile (.atom 1) 3)),
    (rootIdOfFile block 5, .dir (rootOfFile block 5))]⟩

theorem recorded_rootOfFile {store : FsStore FreeId} {block : FreeId} {size : Int}
    (read : dirBatch store (rootIdOfFile block size) = some (rootOfFile block size))
    (file : fileBatch store (FreeId.object (.file (oneBlockFile block size))) =
      some (oneBlockFile block size)) : Recorded store (rootIdOfFile block size) := by
  refine .dir read (List.nodup_singleton _) ?_ ?_
  · intro entry listed _
    rw [List.mem_singleton.mp listed]
    exact ⟨oneBlockFile block size, file, rfl⟩
  · intro entry listed directory
    rw [List.mem_singleton.mp listed] at directory
    exact absurd directory (by decide : ¬ hasDirBit sIfreg = true)

def oneStored : Table FreeId Int := ⟨[(.atom 1, 3)]⟩

end Nanofile
