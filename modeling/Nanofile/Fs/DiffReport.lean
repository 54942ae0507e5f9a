import Nanofile.Fs.DiffWalk

/-!
# What the tree diff reports

The created, dropped and edited entries of a finished walk, in terms of the two trees
alone: soundness for all trees, completeness when no entry changes its kind.
-/

set_option autoImplicit false

namespace Nanofile

open Nanofile.Lib

variable {Oid : Type} [DecidableEq Oid] [Digests Oid]

def treeNext (store : FsStore Oid) (frame : TreeFrame Oid) : List (TreeFrame Oid) :=
  (treeFrame store frame).next

def treeFrames (store : FsStore Oid) (oldRoot newRoot : Oid) (depth : Nat) :
    List (TreeFrame Oid) :=
  levelsTo (treeNext store) depth [⟨some oldRoot, newRoot, []⟩]

section Reused

variable (store : FsStore Oid) (old new : List (DirEntryData Oid))

/-- A new directory at a new path, of an object that the same directory drops. -/
def reusedAt (path : TreePath) : Bool :=
  match entryAt store old path, entryAt store new path with
  | none, some entry => hasDirBit entry.mode &&
      (oldOnly (dirAt store old path.dropLast) (dirAt store new path.dropLast)).any fun gone =>
        gone.id = entry.id
  | _, _ => false

def reportedAt (path : TreePath) : Bool :=
  (entryAt store old path).isNone &&
    (List.range path.length).all fun count => !reusedAt store old new (path.take count)

/-- No directory at the path or above it is reused. -/
def Clear (path : TreePath) : Prop :=
  ∀ count ≤ path.length, reusedAt store old new (path.take count) = false

end Reused

variable {store : FsStore Oid} {old new : List (DirEntryData Oid)} {path : TreePath}

theorem reusedAt_iff : reusedAt store old new path = true ↔
    entryAt store old path = none ∧ ∃ entry, entryAt store new path = some entry ∧
      hasDirBit entry.mode = true ∧ ∃ gone ∈ dirAt store old path.dropLast,
        lookup (dirAt store new path.dropLast) gone.name = none ∧ gone.id = entry.id := by
  unfold reusedAt
  cases entryAt store old path with
  | some oldEntry => simp
  | none =>
    cases entryAt store new path with
    | none => simp
    | some entry => simp [mem_oldOnly, and_assoc]

variable {entry : DirEntryData Oid}

theorem reusedAt_of_old (present : entryAt store old path = some entry) :
    reusedAt store old new path = false := by
  simp [reusedAt, present]

theorem reportedAt_iff : reportedAt store old new path = true ↔
    entryAt store old path = none ∧
      ∀ count < path.length, reusedAt store old new (path.take count) = false := by
  simp [reportedAt]

theorem clear_nil : Clear store old new [] := by
  intro count le
  simp [reusedAt, entryAt]

variable {name : String}

theorem Clear.concat (clear : Clear store old new path)
    (fresh : reusedAt store old new (path ++ [name]) = false) :
    Clear store old new (path ++ [name]) := by
  intro count le
  by_cases inside : count ≤ path.length
  · rw [List.take_append_of_le_length inside]
    exact clear count inside
  · have whole : (path ++ [name]).take count = path ++ [name] :=
      List.take_of_length_le (by simp; omega)
    rw [whole]
    exact fresh

theorem Clear.reported_concat (clear : Clear store old new path) (name : String) :
    reportedAt store old new (path ++ [name]) = (lookup (dirAt store old path) name).isNone := by
  have above : ∀ count < (path ++ [name]).length,
      reusedAt store old new ((path ++ [name]).take count) = false := by
    intro count less
    have inside : count ≤ path.length := by
      simp only [List.length_append, List.length_singleton] at less
      omega
    rw [List.take_append_of_le_length inside]
    exact clear count inside
  rw [Bool.eq_iff_iff, reportedAt_iff, entryAt_concat, Option.isNone_iff_eq_none]
  exact ⟨fun both => both.1, fun absent => ⟨absent, above⟩⟩

variable {rest : TreePath}

theorem not_reported_below (reused : reusedAt store old new path = true) (nonempty : rest ≠ []) :
    reportedAt store old new (path ++ rest) = false := by
  cases reported : reportedAt store old new (path ++ rest) with
  | false => rfl
  | true =>
    have positive := List.length_pos_of_ne_nil nonempty
    have above := (reportedAt_iff.mp reported).2 path.length (by simp; omega)
    rw [List.take_left', reused] at above
    · simp at above
    · rfl

theorem old_above_reused (nonempty : path ≠ []) (proper : rest ≠ [])
    (reused : reusedAt store old new (path ++ rest) = true) :
    ∃ entry, entryAt store old path = some entry := by
  obtain ⟨-, -, -, -, gone, listed, -, -⟩ := reusedAt_iff.mp reused
  cases found : entryAt store old path with
  | some entry => exact ⟨entry, rfl⟩
  | none =>
    obtain ⟨front, name, rfl⟩ := (List.eq_nil_or_concat rest).resolve_left proper
    rw [List.concat_eq_append, ← List.append_assoc, List.dropLast_concat, dirAt_append,
      dirAt_eq_nil_of_entryAt nonempty found, dirAt_of_nil] at listed
    simp at listed

theorem reported_of_reused (reused : reusedAt store old new path = true) :
    reportedAt store old new path = true := by
  refine reportedAt_iff.mpr ⟨(reusedAt_iff.mp reused).1, ?_⟩
  intro count less
  by_cases empty : path.take count = []
  · rw [empty]
    exact clear_nil 0 (by simp)
  · have proper : path.drop count ≠ [] := by simpa using less
    have split : path.take count ++ path.drop count = path := List.take_append_drop _ _
    rw [← split] at reused
    obtain ⟨entry, present⟩ := old_above_reused empty proper reused
    exact reusedAt_of_old present

section Frame

variable {frame : TreeFrame Oid} {item : PathEntry Oid}

theorem dropped_absent (stands : Stands store old new frame)
    (isDropped : item ∈ (treeFrame store frame).dropped) : entryAt store new item.1 = none := by
  rw [treeFrame_eq, stands.new_eq] at isDropped
  obtain ⟨entry, -, absent, rfl⟩ := mem_dropped.mp isDropped
  rw [entryAt_concat]
  exact absent

theorem dropped_present (uniqueOld : UniqueNames store old) (aligned : Aligned store old new frame)
    (isDropped : item ∈ (treeFrame store frame).dropped) :
    entryAt store old item.1 = some item.2 := by
  rw [treeFrame_eq, aligned.old_eq] at isDropped
  obtain ⟨entry, listed, -, rfl⟩ := mem_dropped.mp isDropped
  rw [entryAt_concat]
  exact lookup_of_mem (uniqueOld frame.path) listed

theorem created_sound (uniqueOld : UniqueNames store old) (uniqueNew : UniqueNames store new)
    (stands : Stands store old new frame) (isCreated : item ∈ (treeFrame store frame).created) :
    entryAt store new item.1 = some item.2 ∧ entryAt store old item.1 = none := by
  rw [treeFrame_eq, created_eq, stands.new_eq] at isCreated
  obtain ⟨entry, listed, isItem⟩ := List.mem_flatMap.mp isCreated
  split at isItem
  · rename_i absent
    rw [List.mem_singleton.mp isItem]
    refine ⟨by rw [entryAt_concat]; exact lookup_of_mem (uniqueNew frame.path) listed, ?_⟩
    rw [entryAt_concat]
    rcases stands.old_eq with same | gone
    · rw [same, lastNamed_eq_lookup (uniqueOld frame.path)] at absent
      exact absent
    · rw [gone]
      rfl
  · simp at isItem

variable {change : FsChange Oid}

theorem edits_sound (uniqueOld : UniqueNames store old) (uniqueNew : UniqueNames store new)
    (stands : Stands store old new frame) (isEdit : change ∈ (treeFrame store frame).edits) :
    ∃ path entry, change = plainChange .edit (path, entry) ∧
      entryAt store new path = some entry ∧ hasDirBit entry.mode = false ∧
      ∀ oldEntry, entryAt store old path = some oldEntry → entry.id ≠ oldEntry.id := by
  rw [treeFrame_eq, stands.new_eq] at isEdit
  obtain ⟨entry, listed, oldEntry, named, differ, file, rfl⟩ := mem_edits.mp isEdit
  refine ⟨frame.path ++ [entry.name], entry, rfl, ?_, file, ?_⟩
  · rw [entryAt_concat]
    exact lookup_of_mem (uniqueNew frame.path) listed
  · intro other found
    rw [entryAt_concat] at found
    rcases stands.old_eq with same | gone
    · rw [same, lastNamed_eq_lookup (uniqueOld frame.path), found] at named
      rw [Option.some.inj named]
      exact differ
    · rw [gone] at found
      simp [lookup] at found

theorem edits_old (uniqueOld : UniqueNames store old) (aligned : Aligned store old new frame)
    (isEdit : change ∈ (treeFrame store frame).edits) :
    ∃ oldEntry, entryAt store old change.path = some oldEntry := by
  rw [treeFrame_eq, aligned.old_eq] at isEdit
  obtain ⟨entry, -, oldEntry, named, -, -, rfl⟩ := mem_edits.mp isEdit
  refine ⟨oldEntry, ?_⟩
  change entryAt store old (frame.path ++ [entry.name]) = some oldEntry
  rw [entryAt_concat, ← lastNamed_eq_lookup (uniqueOld frame.path)]
  exact named

end Frame

theorem walkTrees_frames {limits : Limits} {oldRoot newRoot : Oid} {acc : TreeAcc Oid}
    (run : walkTrees limits store oldRoot newRoot = .ok acc) :
    ∃ reached ≤ limits.maxDepth,
      levelAt (treeNext store) reached [⟨some oldRoot, newRoot, []⟩] = [] ∧
      acc.changes = (treeFrames store oldRoot newRoot reached).flatMap
        (fun frame => (treeFrame store frame).edits) ∧
      acc.created = (treeFrames store oldRoot newRoot reached).flatMap
        (fun frame => (treeFrame store frame).created) ∧
      acc.dropped = (treeFrames store oldRoot newRoot reached).flatMap
        (fun frame => (treeFrame store frame).dropped) := by
  have reads : ∀ (frontier : List (TreeFrame Oid)) (acc : TreeAcc Oid),
      (.ok (frontier.flatMap fun frame => (treeFrame store frame).next,
        frontier.foldl (fun acc frame => acc.add (treeFrame store frame)) acc) :
          Except AppError (List (TreeFrame Oid) × TreeAcc Oid)) =
      .ok (frontier.flatMap (treeNext store),
        frontier.foldl (fun acc frame => acc.add (treeFrame store frame)) acc) := fun _ _ => rfl
  obtain ⟨reached, within, ends, rfl⟩ := levelWalk_visits reads run
  have collected : ∀ (frames : List (TreeFrame Oid)) (acc : TreeAcc Oid),
      frames.foldl (fun acc frame => acc.add (treeFrame store frame)) acc =
        ⟨acc.changes ++ frames.flatMap (fun frame => (treeFrame store frame).edits),
          acc.created ++ frames.flatMap (fun frame => (treeFrame store frame).created),
          acc.dropped ++ frames.flatMap (fun frame => (treeFrame store frame).dropped)⟩ := by
    intro frames
    induction frames with
    | nil => intro acc; simp
    | cons frame frames ih =>
      intro acc
      rw [List.foldl_cons, ih]
      simp [TreeAcc.add]
  refine ⟨reached, within, ends, ?_⟩
  rw [collected]
  exact ⟨rfl, rfl, rfl⟩

section Roots

variable {oldRoot newRoot : Oid}

theorem frames_stand (uniqueOld : UniqueNames store (entriesOf store oldRoot))
    (uniqueNew : UniqueNames store (entriesOf store newRoot)) (depth : Nat) :
    ∀ frame ∈ treeFrames store oldRoot newRoot depth,
      Stands store (entriesOf store oldRoot) (entriesOf store newRoot) frame := by
  refine levelsTo_invariant ?_ (fun frame stands child isNext =>
    stands.next uniqueOld uniqueNew isNext) depth
  intro frame member
  rw [List.mem_singleton.mp member]
  exact ⟨rfl, Or.inl rfl⟩

theorem frames_aligned (uniqueOld : UniqueNames store (entriesOf store oldRoot))
    (uniqueNew : UniqueNames store (entriesOf store newRoot))
    (kept : KindChangesEmpty store (entriesOf store oldRoot) (entriesOf store newRoot)) (depth : Nat) :
    ∀ frame ∈ treeFrames store oldRoot newRoot depth,
      Aligned store (entriesOf store oldRoot) (entriesOf store newRoot) frame := by
  refine levelsTo_invariant ?_ (fun frame aligned child isNext =>
    (aligned.next uniqueOld uniqueNew kept isNext).1) depth
  intro frame member
  rw [List.mem_singleton.mp member]
  exact ⟨rfl, rfl⟩

variable {oldEntry : DirEntryData Oid}

theorem frame_below (uniqueOld : UniqueNames store old) {frame : TreeFrame Oid}
    (aligned : Aligned store old new frame)
    (found : lookup (dirAt store old frame.path) name = some oldEntry)
    (directory : hasDirBit oldEntry.mode = true)
    (differ : ∀ entry, lookup (dirAt store new frame.path) name = some entry →
      entry.id ≠ oldEntry.id) :
    ∃ child ∈ treeNext store frame, child.path = frame.path ++ [name] := by
  obtain ⟨listed, named⟩ := lookup_eq_some found
  rw [treeNext, treeFrame_eq, aligned.new_eq, aligned.old_eq, next_eq]
  cases present : lookup (dirAt store new frame.path) name with
  | none =>
    have gone : oldEntry ∈ oldOnly (dirAt store old frame.path) (dirAt store new frame.path) :=
      mem_oldOnly.mpr ⟨listed, by rw [named]; exact present⟩
    refine ⟨⟨some oldEntry.id, emptySha1, frame.path ++ [oldEntry.name]⟩, ?_, by rw [named]⟩
    refine List.mem_append_left _ (List.mem_flatMap.mpr ⟨oldEntry, gone, ?_⟩)
    simp [goneDelta, directory]
  | some entry =>
    obtain ⟨listedNew, namedNew⟩ := lookup_eq_some present
    have named' : lastNamed (dirAt store old frame.path) entry.name = some oldEntry := by
      rw [lastNamed_eq_lookup (uniqueOld frame.path), namedNew]
      exact found
    have changed : compareNext frame.path (dirAt store old frame.path)
        (dirAt store new frame.path) entry = (changedDelta frame.path oldEntry entry).next := by
      rw [compareNext, compareDelta, named']
    by_cases newDirectory : hasDirBit entry.mode = true
    · refine ⟨⟨some oldEntry.id, entry.id, frame.path ++ [entry.name]⟩, ?_, by rw [namedNew]⟩
      refine List.mem_append_right _ (List.mem_flatMap.mpr ⟨entry, listedNew, ?_⟩)
      rw [changed]
      simp [changedDelta, differ entry present, newDirectory]
    · refine ⟨⟨some oldEntry.id, emptySha1, frame.path ++ [entry.name]⟩, ?_, by rw [namedNew]⟩
      refine List.mem_append_right _ (List.mem_flatMap.mpr ⟨entry, listedNew, ?_⟩)
      rw [changed]
      simp [changedDelta, differ entry present, newDirectory, directory]

variable {reached : Nat}

section

variable (uniqueOld : UniqueNames store (entriesOf store oldRoot))
    (uniqueNew : UniqueNames store (entriesOf store newRoot))
    (kept : KindChangesEmpty store (entriesOf store oldRoot) (entriesOf store newRoot))
    (ends : levelAt (treeNext store) reached [⟨some oldRoot, newRoot, []⟩] = [])
include uniqueOld uniqueNew kept ends

/-- The walk reads a path, or the trees agree below it, or the old tree has nothing
there. -/
theorem frame_at (path : TreePath) :
    (∃ frame ∈ treeFrames store oldRoot newRoot reached, frame.path = path) ∨
      dirAt store (entriesOf store oldRoot) path = dirAt store (entriesOf store newRoot) path ∨
      dirAt store (entriesOf store oldRoot) path = [] := by
  induction path using List.reverseRecOn with
  | nil =>
    refine Or.inl ⟨⟨some oldRoot, newRoot, []⟩, ?_, rfl⟩
    refine mem_levelsTo.mpr ⟨0, ?_, List.mem_singleton_self _⟩
    by_contra none
    rw [Nat.not_lt, Nat.le_zero] at none
    rw [none, levelAt_zero] at ends
    simp at ends
  | append_singleton path name ih =>
    simp only [dirAt_concat]
    rcases ih with ⟨frame, isRead, rfl⟩ | same | empty
    · have aligned := frames_aligned uniqueOld uniqueNew kept reached frame isRead
      cases found : lookup (dirAt store (entriesOf store oldRoot) frame.path) name with
      | none => exact Or.inr (Or.inr (entriesUnder_of_lookup_none found))
      | some oldEntry =>
        cases directory : hasDirBit oldEntry.mode with
        | false =>
          refine Or.inr (Or.inr ?_)
          rw [entriesUnder, found]
          exact if_neg (by simp [directory])
        | true =>
          by_cases differ : ∀ entry,
              lookup (dirAt store (entriesOf store newRoot) frame.path) name =
                some entry → entry.id ≠ oldEntry.id
          · obtain ⟨child, isNext, isPath⟩ :=
              frame_below uniqueOld aligned found directory differ
            exact Or.inl ⟨child, child_mem_levelsTo ends isRead isNext, isPath⟩
          · -- One object in both trees: nothing differs below it.
            push Not at differ
            obtain ⟨entry, present, sameId⟩ := differ
            have kinds := kept (frame.path ++ [name]) oldEntry entry
              (by rw [entryAt_concat]; exact found) (by rw [entryAt_concat]; exact present)
            cases newDirectory : hasDirBit entry.mode with
            | true =>
              refine Or.inr (Or.inl ?_)
              rw [entriesUnder, entriesUnder, found, present]
              simp only [directory, newDirectory, if_true, sameId]
            | false =>
              refine Or.inr (Or.inr ?_)
              rw [entriesUnder, found]
              exact (if_pos directory).trans (kinds.2 directory newDirectory sameId)
    · exact Or.inr (Or.inl (by rw [same]))
    · exact Or.inr (Or.inr (by rw [empty, entriesUnder_nil]))

theorem dropped_complete (present : entryAt store (entriesOf store oldRoot) path = some oldEntry)
    (absent : entryAt store (entriesOf store newRoot) path = none) :
    ∃ frame ∈ treeFrames store oldRoot newRoot reached,
      (path, oldEntry) ∈ (treeFrame store frame).dropped := by
  obtain ⟨parent, name, rfl⟩ := (List.eq_nil_or_concat path).resolve_left
    (by rintro rfl; simp [entryAt] at present)
  rw [List.concat_eq_append, entryAt_concat] at present absent
  rcases frame_at uniqueOld uniqueNew kept ends parent with ⟨frame, isRead, rfl⟩ | same | empty
  · have aligned := frames_aligned uniqueOld uniqueNew kept reached frame isRead
    obtain ⟨listed, rfl⟩ := lookup_eq_some present
    refine ⟨frame, isRead, ?_⟩
    rw [treeFrame_eq, aligned.new_eq, aligned.old_eq]
    exact mem_dropped.mpr ⟨oldEntry, listed, absent, by simp⟩
  · rw [same, absent] at present
    simp at present
  · rw [empty] at present
    simp [lookup] at present

theorem edits_complete (before : entryAt store (entriesOf store oldRoot) path = some oldEntry)
    (present : entryAt store (entriesOf store newRoot) path = some entry)
    (file : hasDirBit entry.mode = false) (differ : entry.id ≠ oldEntry.id) :
    ∃ frame ∈ treeFrames store oldRoot newRoot reached,
      plainChange .edit (path, entry) ∈ (treeFrame store frame).edits := by
  obtain ⟨parent, name, rfl⟩ := (List.eq_nil_or_concat path).resolve_left
    (by rintro rfl; simp [entryAt] at present)
  rw [List.concat_eq_append, entryAt_concat] at present before
  rcases frame_at uniqueOld uniqueNew kept ends parent with ⟨frame, isRead, rfl⟩ | same | empty
  · have aligned := frames_aligned uniqueOld uniqueNew kept reached frame isRead
    obtain ⟨listed, rfl⟩ := lookup_eq_some present
    refine ⟨frame, isRead, ?_⟩
    rw [treeFrame_eq, aligned.new_eq, aligned.old_eq]
    refine mem_edits.mpr ⟨entry, listed, oldEntry, ?_, differ, file, by simp⟩
    rw [lastNamed_eq_lookup (uniqueOld frame.path)]
    exact before
  · rw [same, present] at before
    exact absurd (congrArg DirEntryData.id (Option.some.inj before)) differ
  · rw [empty] at before
    simp [lookup] at before

end

end Roots

end Nanofile
