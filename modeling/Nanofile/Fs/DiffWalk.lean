import Nanofile.Fs.TreeDiff

/-!
# What the tree diff walks to

A frame of the walk stands for one path of both trees.  What it reports is true of
that path, whatever the trees are; when no entry changes its kind, the walk also
reaches every path below which the trees differ, except below a reused directory.
-/

set_option autoImplicit false

namespace Nanofile

open TreeDelta

variable {Oid : Type} [DecidableEq Oid] [Digests Oid]

def TreeFrame.oldEntries (store : FsStore Oid) (frame : TreeFrame Oid) :
    List (DirEntryData Oid) :=
  ((frame.oldFsId.bind (dirBatch store)).map FsDirData.dirents).getD []

def TreeFrame.newEntries (store : FsStore Oid) (frame : TreeFrame Oid) :
    List (DirEntryData Oid) :=
  entriesOf store frame.newFsId

variable {store : FsStore Oid}

section

omit [DecidableEq Oid] [Digests Oid]

@[simp] theorem empty_append (delta : TreeDelta Oid) :
    TreeDelta.empty.append delta = delta := by
  simp [TreeDelta.append, TreeDelta.empty]

@[simp] theorem append_empty (delta : TreeDelta Oid) :
    delta.append TreeDelta.empty = delta := by
  simp [TreeDelta.append, TreeDelta.empty]

theorem TreeDelta.join_fields (parts : List (TreeDelta Oid)) :
    (TreeDelta.join parts).edits = parts.flatMap TreeDelta.edits ∧
      (TreeDelta.join parts).created = parts.flatMap TreeDelta.created ∧
      (TreeDelta.join parts).dropped = parts.flatMap TreeDelta.dropped ∧
      (TreeDelta.join parts).next = parts.flatMap TreeDelta.next := by
  induction parts with
  | nil => exact ⟨rfl, rfl, rfl, rfl⟩
  | cons part parts ih =>
    obtain ⟨edits, created, dropped, next⟩ := ih
    simp only [TreeDelta.join] at edits created dropped next
    simp [TreeDelta.join, TreeDelta.append, edits, created, dropped, next]

end

variable {entries : List (DirEntryData Oid)} {name : String}

section

omit [DecidableEq Oid] [Digests Oid]

theorem lastNamed_eq_some {entry : DirEntryData Oid} (found : lastNamed entries name = some entry) :
    entry ∈ entries ∧ entry.name = name := by
  have named := List.find?_some found
  exact ⟨List.mem_reverse.mp (List.mem_of_find?_eq_some found), by simpa using named⟩

theorem lastNamed_eq_none_iff :
    lastNamed entries name = none ↔ name ∉ entries.map DirEntryData.name := by
  simp [lastNamed]

theorem lastNamed_eq_lookup (unique : (entries.map DirEntryData.name).Nodup) :
    lastNamed entries name = lookup entries name := by
  cases found : lastNamed entries name with
  | none => exact (lookup_eq_none_iff.mpr (lastNamed_eq_none_iff.mp found)).symm
  | some entry =>
    exact ((lookup_eq_some_iff unique).mpr (lastNamed_eq_some found)).symm

theorem mem_oldOnly {old new : List (DirEntryData Oid)} {entry : DirEntryData Oid} :
    entry ∈ oldOnly old new ↔ entry ∈ old ∧ lookup new entry.name = none := by
  simp [oldOnly, lookup_eq_none_iff]

end

theorem treeFrame_eq (frame : TreeFrame Oid) :
    treeFrame store frame =
      diffBoth frame.path (frame.oldEntries store) (frame.newEntries store) := by
  have noOld : (compareDelta frame.path [] [] : DirEntryData Oid → TreeDelta Oid) =
      addedDelta frame.path := by
    funext entry
    simp [compareDelta, lastNamed]
  have allOld : ∀ old : List (DirEntryData Oid), oldOnly old [] = old := by
    intro old
    simp [oldOnly]
  have noneOnly : ∀ new : List (DirEntryData Oid), oldOnly [] new = [] := fun _ => rfl
  unfold treeFrame TreeFrame.oldEntries TreeFrame.newEntries entriesOf
  rcases frame.oldFsId.bind (dirBatch store) with _ | old <;>
    rcases dirBatch store frame.newFsId with _ | new <;>
    simp [diffBoth, noOld, allOld, noneOnly, TreeDelta.join]

variable {child : TreeFrame Oid}

section Both

variable {path : TreePath} {old new : List (DirEntryData Oid)}

theorem dropped_eq : (diffBoth path old new).dropped =
    (oldOnly old new).map fun entry => (path ++ [entry.name], entry) := by
  have quiet : ∀ entry, (compareDelta path old (oldOnly old new) entry).dropped = [] := by
    intro entry
    unfold compareDelta changedDelta addedDelta
    repeat' split
    all_goals rfl
  have noneNew : new.flatMap (fun entry =>
      (compareDelta path old (oldOnly old new) entry).dropped) = [] := by
    simp [quiet]
  simp only [diffBoth, TreeDelta.append, (join_fields _).2.2.1, List.flatMap_map,
    noneNew, List.append_nil, goneDelta]
  exact List.map_eq_flatMap.symm

theorem mem_dropped {item : PathEntry Oid} :
    item ∈ (diffBoth path old new).dropped ↔
      ∃ entry ∈ old, lookup new entry.name = none ∧ (path ++ [entry.name], entry) = item := by
  rw [dropped_eq]
  simp [mem_oldOnly, and_assoc]

theorem created_eq : (diffBoth path old new).created = new.flatMap fun entry =>
    if lastNamed old entry.name = none then [(path ++ [entry.name], entry)] else [] := by
  have perEntry : ∀ entry, (compareDelta path old (oldOnly old new) entry).created =
      if lastNamed old entry.name = none then [(path ++ [entry.name], entry)] else [] := by
    intro entry
    unfold compareDelta
    cases found : lastNamed old entry.name with
    | none =>
      rw [if_pos rfl]
      dsimp only
      split <;> rfl
    | some oldEntry =>
      have quiet : (changedDelta path oldEntry entry).created = [] := by
        unfold changedDelta
        repeat' split
        all_goals rfl
      simp [quiet]
  have noneGone : (oldOnly old new).flatMap (fun entry => (goneDelta path entry).created) = [] := by
    simp [goneDelta]
  simp only [diffBoth, TreeDelta.append, (join_fields _).2.1, List.flatMap_map,
    perEntry, noneGone, List.nil_append]

theorem mem_edits {change : FsChange Oid} :
    change ∈ (diffBoth path old new).edits ↔
      ∃ entry ∈ new, ∃ oldEntry, lastNamed old entry.name = some oldEntry ∧
        entry.id ≠ oldEntry.id ∧ hasDirBit entry.mode = false ∧
        plainChange .edit (path ++ [entry.name], entry) = change := by
  have perEntry : ∀ entry, change ∈ (compareDelta path old (oldOnly old new) entry).edits ↔
      ∃ oldEntry, lastNamed old entry.name = some oldEntry ∧ entry.id ≠ oldEntry.id ∧
        hasDirBit entry.mode = false ∧
        plainChange .edit (path ++ [entry.name], entry) = change := by
    intro entry
    unfold compareDelta
    cases found : lastNamed old entry.name with
    | none =>
      dsimp only
      split <;> simp [addedDelta]
    | some oldEntry =>
      simp only [changedDelta, Option.some.injEq, exists_eq_left']
      by_cases same : entry.id = oldEntry.id
      · simp [same, TreeDelta.empty]
      · cases directory : hasDirBit entry.mode with
        | true => simp [same]
        | false =>
          simp only [same, if_false, Bool.false_eq_true, List.mem_singleton, ne_eq,
            not_false_eq_true, true_and]
          exact eq_comm
  have noneGone : (oldOnly old new).flatMap (fun entry => (goneDelta path entry).edits) = [] := by
    simp [goneDelta]
  simp only [diffBoth, TreeDelta.append, (join_fields _).1, List.flatMap_map,
    noneGone, List.nil_append, List.mem_flatMap, perEntry]

/-- The frames below one new entry. -/
def compareNext (path : TreePath) (old new : List (DirEntryData Oid))
    (entry : DirEntryData Oid) : List (TreeFrame Oid) :=
  (compareDelta path old (oldOnly old new) entry).next

theorem next_eq : (diffBoth path old new).next =
    ((oldOnly old new).flatMap fun entry => (goneDelta path entry).next) ++
      new.flatMap (compareNext path old new) := by
  simp only [diffBoth, TreeDelta.append, (join_fields _).2.2.2, List.flatMap_map]
  rfl

theorem entriesUnder_of_lookup_none (absent : lookup old name = none) :
    entriesUnder store old name = [] := by
  rw [entriesUnder, absent]

/-- A further frame stands for one name below.  Its old side is that of the old tree,
except that a file with the name of a new directory is read as if it were one. -/
theorem next_cases (uniqueNew : (new.map DirEntryData.name).Nodup)
    (isNext : child ∈ (diffBoth path old new).next) :
    ∃ name, child.path = path ++ [name] ∧
      child.newEntries store = entriesUnder store new name ∧
      ((old.map DirEntryData.name).Nodup →
        child.oldEntries store = entriesUnder store old name ∨
          ∃ oldEntry entry, lookup old name = some oldEntry ∧ hasDirBit oldEntry.mode = false ∧
            lookup new name = some entry ∧ hasDirBit entry.mode = true ∧
            child.oldEntries store = entriesOf store oldEntry.id) := by
  rw [next_eq] at isNext
  rcases List.mem_append.mp isNext with isGone | isCompared
  · obtain ⟨gone, member, isFrame⟩ := List.mem_flatMap.mp isGone
    obtain ⟨listed, absent⟩ := mem_oldOnly.mp member
    simp only [goneDelta] at isFrame
    split at isFrame
    · rename_i directory
      rw [List.mem_singleton.mp isFrame]
      refine ⟨gone.name, rfl, ?_, fun uniqueOld => Or.inl ?_⟩
      · rw [entriesUnder_of_lookup_none absent]
        exact entriesOf_sentinel
      · exact (entriesUnder_of_mem uniqueOld listed directory).symm
    · simp at isFrame
  · obtain ⟨entry, listed, isFrame⟩ := List.mem_flatMap.mp isCompared
    have found := lookup_of_mem uniqueNew listed
    unfold compareNext compareDelta at isFrame
    cases named : lastNamed old entry.name with
    | none =>
      rw [named] at isFrame
      dsimp only at isFrame
      split at isFrame
      · simp at isFrame
      · simp only [addedDelta] at isFrame
        split at isFrame
        · rename_i directory
          rw [List.mem_singleton.mp isFrame]
          refine ⟨entry.name, rfl, ?_, fun uniqueOld => Or.inl ?_⟩
          · exact (entriesUnder_of_mem uniqueNew listed directory).symm
          · rw [lastNamed_eq_lookup uniqueOld] at named
            rw [entriesUnder_of_lookup_none named]
            rfl
        · simp at isFrame
    | some oldEntry =>
      rw [named] at isFrame
      simp only [changedDelta] at isFrame
      split at isFrame
      · simp [TreeDelta.empty] at isFrame
      · split at isFrame
        · rename_i directory
          rw [List.mem_singleton.mp isFrame]
          refine ⟨entry.name, rfl, ?_, fun uniqueOld => ?_⟩
          · exact (entriesUnder_of_mem uniqueNew listed directory).symm
          · rw [lastNamed_eq_lookup uniqueOld] at named
            cases oldDirectory : hasDirBit oldEntry.mode with
            | true =>
              refine Or.inl ?_
              rw [entriesUnder, named]
              exact (if_pos oldDirectory).symm
            | false =>
              refine Or.inr ⟨oldEntry, entry, named, oldDirectory, found, directory, ?_⟩
              rfl
        · rename_i file
          dsimp only at isFrame
          split at isFrame
          · rename_i oldDirectory
            rw [List.mem_singleton.mp isFrame]
            refine ⟨entry.name, rfl, ?_, fun uniqueOld => Or.inl ?_⟩
            · rw [entriesUnder, found]
              exact entriesOf_sentinel.trans (if_neg file).symm
            · rw [lastNamed_eq_lookup uniqueOld] at named
              rw [entriesUnder, named]
              exact (if_pos oldDirectory).symm
          · simp at isFrame

end Both

section Walk

variable {old new : List (DirEntryData Oid)}

/-- The frame stands for its path; below an old file of the path the old tree has
nothing, whatever the frame reads. -/
structure Stands (store : FsStore Oid) (old new : List (DirEntryData Oid))
    (frame : TreeFrame Oid) : Prop where
  new_eq : frame.newEntries store = dirAt store new frame.path
  old_eq : frame.oldEntries store = dirAt store old frame.path ∨
    dirAt store old frame.path = []

/-- No path is a file first and a directory then, and where a file replaces a
directory it has another id. -/
def KindsKept (store : FsStore Oid) (old new : List (DirEntryData Oid)) : Prop :=
  ∀ path oldEntry entry, entryAt store old path = some oldEntry →
    entryAt store new path = some entry →
    (hasDirBit entry.mode = true → hasDirBit oldEntry.mode = true) ∧
      (hasDirBit oldEntry.mode = true → hasDirBit entry.mode = false →
        entry.id ≠ oldEntry.id)

/-- An entry that changes its kind has nothing below it: the file that becomes a
directory is not read as one, and the directory that becomes a file of the same id is
empty. -/
def KindChangesEmpty (store : FsStore Oid) (old new : List (DirEntryData Oid)) : Prop :=
  ∀ path oldEntry entry, entryAt store old path = some oldEntry →
    entryAt store new path = some entry →
    (hasDirBit entry.mode = true → hasDirBit oldEntry.mode = false →
      entriesOf store oldEntry.id = []) ∧
    (hasDirBit oldEntry.mode = true → hasDirBit entry.mode = false →
      entry.id = oldEntry.id → entriesOf store oldEntry.id = [])

theorem KindsKept.changesEmpty (kept : KindsKept store old new) :
    KindChangesEmpty store old new := by
  intro path oldEntry entry before present
  obtain ⟨fromDirectory, otherId⟩ := kept path oldEntry entry before present
  constructor
  · intro directory file
    rw [fromDirectory directory] at file
    simp at file
  · intro directory file same
    exact absurd same (otherId directory file)

/-- Both sides of the frame are those of its path. -/
structure Aligned (store : FsStore Oid) (old new : List (DirEntryData Oid))
    (frame : TreeFrame Oid) : Prop where
  new_eq : frame.newEntries store = dirAt store new frame.path
  old_eq : frame.oldEntries store = dirAt store old frame.path

theorem Stands.next (uniqueOld : UniqueNames store old) (uniqueNew : UniqueNames store new)
    {frame : TreeFrame Oid} (stands : Stands store old new frame)
    (isNext : child ∈ (treeFrame store frame).next) : Stands store old new child := by
  rw [treeFrame_eq, stands.new_eq] at isNext
  obtain ⟨name, isPath, sameNew, sameOld⟩ := next_cases (uniqueNew frame.path) isNext
  refine ⟨by rw [isPath, dirAt_concat, sameNew], ?_⟩
  rw [isPath, dirAt_concat]
  rcases stands.old_eq with same | gone
  · rw [same] at sameOld
    rcases sameOld (uniqueOld frame.path) with sameHere | ⟨oldEntry, _, found, file, -, -, -⟩
    · exact Or.inl sameHere
    · refine Or.inr ?_
      rw [entriesUnder, found]
      exact if_neg (by simp [file])
  · exact Or.inr (by rw [gone, entriesUnder_nil])

theorem Aligned.next (uniqueOld : UniqueNames store old) (uniqueNew : UniqueNames store new)
    (kept : KindChangesEmpty store old new) {frame : TreeFrame Oid}
    (aligned : Aligned store old new frame) (isNext : child ∈ (treeFrame store frame).next) :
    Aligned store old new child ∧ ∃ name, child.path = frame.path ++ [name] := by
  rw [treeFrame_eq, aligned.new_eq, aligned.old_eq] at isNext
  obtain ⟨name, isPath, sameNew, sameOld⟩ := next_cases (uniqueNew frame.path) isNext
  refine ⟨⟨by rw [isPath, dirAt_concat, sameNew], ?_⟩, name, isPath⟩
  rw [isPath, dirAt_concat]
  rcases sameOld (uniqueOld frame.path) with same | ⟨oldEntry, entry, found, file, found', dir, isRead⟩
  · exact same
  · have empty : entriesOf store oldEntry.id = [] := by
      rw [← entryAt_concat] at found found'
      exact (kept _ oldEntry entry found found').1 dir file
    rw [isRead, empty, entriesUnder, found]
    exact (if_neg (by simp [file])).symm

end Walk

end Nanofile
