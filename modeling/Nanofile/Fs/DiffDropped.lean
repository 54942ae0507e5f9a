import Nanofile.Fs.DiffOrder

/-!
# The order in which the tree diff drops

What the new tree lacks, in the order of the walk: first what the dropped directories
of a frame hold, then what is lost below the names of its new directory.
-/

set_option autoImplicit false

namespace Nanofile

open Nanofile.Lib

variable {Oid : Type} [DecidableEq Oid] [Digests Oid]

def lostLevel (store : FsStore Oid) (old new : List (DirEntryData Oid)) :
    Nat → TreePath → List (PathEntry Oid)
  | 0, path => (oldOnly (dirAt store old path) (dirAt store new path)).map fun entry =>
    (path ++ [entry.name], entry)
  | depth + 1, path =>
    ((oldOnly (dirAt store old path) (dirAt store new path)).flatMap fun entry =>
      if hasDirBit entry.mode then
        listing store depth (path ++ [entry.name]) (entriesOf store entry.id)
      else []) ++
    (dirAt store new path).flatMap fun entry => lostLevel store old new depth (path ++ [entry.name])

/-- The first `depth` levels of what the new tree lacks. -/
def lostTo (store : FsStore Oid) (old new : List (DirEntryData Oid)) (depth : Nat) :
    List (PathEntry Oid) :=
  (List.range depth).flatMap fun level => lostLevel store old new level []

variable {store : FsStore Oid} {old new : List (DirEntryData Oid)}

section

omit [DecidableEq Oid] [Digests Oid]

theorem oldOnly_nil (entries : List (DirEntryData Oid)) : oldOnly entries [] = entries := by
  simp [oldOnly]

theorem oldOnly_self (entries : List (DirEntryData Oid)) : oldOnly entries entries = [] := by
  refine List.filter_eq_nil_iff.mpr ?_
  intro entry listed
  simpa using ⟨entry, listed, rfl⟩

end

variable {path : TreePath}

/-- Below a path where the trees agree, or the old one has nothing, nothing is lost. -/
theorem lostLevel_quiet (depth : Nat)
    (quiet : dirAt store old path = dirAt store new path ∨ dirAt store old path = []) :
    lostLevel store old new depth path = [] := by
  have kept : oldOnly (dirAt store old path) (dirAt store new path) = [] := by
    rcases quiet with same | empty
    · rw [same, oldOnly_self]
    · rw [empty]
      rfl
  induction depth generalizing path with
  | zero => rw [lostLevel, kept, List.map_nil]
  | succ depth ih =>
    rw [lostLevel, kept, List.flatMap_nil, List.nil_append]
    refine List.flatMap_eq_nil_iff.mpr ?_
    intro entry _
    have quietBelow : dirAt store old (path ++ [entry.name]) =
          dirAt store new (path ++ [entry.name]) ∨
        dirAt store old (path ++ [entry.name]) = [] := by
      rw [dirAt_concat, dirAt_concat]
      rcases quiet with same | empty
      · exact Or.inl (by rw [same])
      · exact Or.inr (by rw [empty, entriesUnder_nil])
    refine ih quietBelow ?_
    rcases quietBelow with same | empty
    · rw [same, oldOnly_self]
    · rw [empty]
      rfl

theorem lostLevel_gone (depth : Nat) (gone : dirAt store new path = []) :
    lostLevel store old new depth path =
      listing store depth path (dirAt store old path) := by
  cases depth with
  | zero => rw [lostLevel, gone, oldOnly_nil, listing]
  | succ depth => rw [lostLevel, gone, oldOnly_nil, List.flatMap_nil, List.append_nil, listing]

theorem compareNext_lost (uniqueOld : UniqueNames store old) (uniqueNew : UniqueNames store new)
    (kinds : KindChangesEmpty store old new) (depth : Nat)
    {entry : DirEntryData Oid} (listed : entry ∈ dirAt store new path) :
    (compareNext path (dirAt store old path) (dirAt store new path) entry).flatMap
        (fun child => lostLevel store old new depth child.path) =
      lostLevel store old new depth (path ++ [entry.name]) := by
  have present : entryAt store new (path ++ [entry.name]) = some entry := by
    rw [entryAt_concat]
    exact lookup_of_mem (uniqueNew path) listed
  have oldBelow : dirAt store old (path ++ [entry.name]) =
      entriesUnder store (dirAt store old path) entry.name := dirAt_concat path entry.name
  rw [compareNext, compareDelta, lastNamed_eq_lookup (uniqueOld path)]
  cases found : lookup (dirAt store old path) entry.name with
  | none =>
    have quiet : lostLevel store old new depth (path ++ [entry.name]) = [] := by
      refine lostLevel_quiet depth (Or.inr ?_)
      rw [oldBelow, entriesUnder_of_lookup_none found]
    rw [quiet]
    dsimp only
    split
    · rfl
    · cases directory : hasDirBit entry.mode <;> simp [addedDelta, directory, quiet]
  | some oldEntry =>
    have before : entryAt store old (path ++ [entry.name]) = some oldEntry := by
      rw [entryAt_concat]
      exact found
    obtain ⟨toDirectory, toFile⟩ := kinds _ oldEntry entry before present
    have oldFile : hasDirBit oldEntry.mode = false →
        dirAt store old (path ++ [entry.name]) = [] := by
      intro file
      rw [oldBelow, entriesUnder, found]
      exact if_neg (by simp [file])
    by_cases same : entry.id = oldEntry.id
    · -- One object: the walk stops, and nothing is lost below.
      have quiet : lostLevel store old new depth (path ++ [entry.name]) = [] := by
        refine lostLevel_quiet depth ?_
        cases oldDirectory : hasDirBit oldEntry.mode with
        | false => exact Or.inr (oldFile oldDirectory)
        | true =>
          have under : dirAt store old (path ++ [entry.name]) = entriesOf store oldEntry.id := by
            rw [oldBelow, entriesUnder, found]
            exact if_pos oldDirectory
          cases directory : hasDirBit entry.mode with
          | false => exact Or.inr (by rw [under, toFile oldDirectory directory same])
          | true =>
            refine Or.inl ?_
            rw [under, dirAt_concat, entriesUnder_of_mem (uniqueNew path) listed directory,
              same]
      rw [quiet]
      simp [changedDelta, same, TreeDelta.empty]
    · cases directory : hasDirBit entry.mode with
      | true => simp [changedDelta, same, directory]
      | false =>
        cases oldDirectory : hasDirBit oldEntry.mode with
        | true => simp [changedDelta, same, directory, oldDirectory]
        | false =>
          have quiet : lostLevel store old new depth (path ++ [entry.name]) = [] :=
            lostLevel_quiet depth (Or.inr (oldFile oldDirectory))
          rw [quiet]
          simp [changedDelta, same, directory, oldDirectory]

theorem dropped_level (uniqueOld : UniqueNames store old) (uniqueNew : UniqueNames store new)
    (kinds : KindChangesEmpty store old new) {frame : TreeFrame Oid}
    (aligned : Aligned store old new frame) (depth : Nat) :
    (levelAt (treeNext store) depth [frame]).flatMap
        (fun frame => (treeFrame store frame).dropped) =
      lostLevel store old new depth frame.path := by
  induction depth generalizing frame with
  | zero =>
    rw [levelAt_zero, List.flatMap_singleton, treeFrame_eq, dropped_eq, aligned.old_eq,
      aligned.new_eq, lostLevel]
  | succ depth ih =>
    have below : ∀ child ∈ treeNext store frame,
        (levelAt (treeNext store) depth [child]).flatMap
            (fun frame => (treeFrame store frame).dropped) =
          lostLevel store old new depth child.path := fun child isNext =>
      ih (aligned.next uniqueOld uniqueNew kinds isNext).1
    have goneBelow : ∀ entry ∈ oldOnly (dirAt store old frame.path) (dirAt store new frame.path),
        ((goneDelta frame.path entry).next).flatMap
            (fun child => lostLevel store old new depth child.path) =
          if hasDirBit entry.mode then
            listing store depth (frame.path ++ [entry.name]) (entriesOf store entry.id)
          else [] := by
      intro entry member
      obtain ⟨listed, absent⟩ := mem_oldOnly.mp member
      cases directory : hasDirBit entry.mode with
      | false => simp [goneDelta, directory]
      | true =>
        have gone : dirAt store new (frame.path ++ [entry.name]) = [] := by
          rw [dirAt_concat, entriesUnder_of_lookup_none absent]
        have under : dirAt store old (frame.path ++ [entry.name]) =
            entriesOf store entry.id := by
          rw [dirAt_concat, entriesUnder_of_mem (uniqueOld frame.path) listed directory]
        simp [goneDelta, directory, lostLevel_gone depth gone, under]
    rw [levelAt_succ, List.flatMap_singleton, levelAt_flatMap, List.flatMap_assoc,
      List.flatMap_congr below, treeNext, treeFrame_eq, next_eq, aligned.old_eq,
      aligned.new_eq, List.flatMap_append, List.flatMap_assoc, List.flatMap_assoc,
      List.flatMap_congr goneBelow,
      List.flatMap_congr fun entry listed =>
        compareNext_lost uniqueOld uniqueNew kinds depth listed]
    rfl

/-- The dropped entries are what the new tree lacks, to any depth the walk did not
pass. -/
theorem dropped_listing {oldRoot newRoot : Oid}
    (uniqueOld : UniqueNames store (entriesOf store oldRoot))
    (uniqueNew : UniqueNames store (entriesOf store newRoot))
    (kinds : KindChangesEmpty store (entriesOf store oldRoot) (entriesOf store newRoot))
    {reached depth : Nat}
    (ends : levelAt (treeNext store) reached [⟨some oldRoot, newRoot, []⟩] = [])
    (deep : reached ≤ depth) :
    (treeFrames store oldRoot newRoot reached).flatMap
        (fun frame => (treeFrame store frame).dropped) =
      lostTo store (entriesOf store oldRoot) (entriesOf store newRoot) depth := by
  have start : Aligned store (entriesOf store oldRoot) (entriesOf store newRoot)
      ⟨some oldRoot, newRoot, []⟩ := ⟨rfl, rfl⟩
  exact levelsTo_flatMap (dropped_level uniqueOld uniqueNew kinds start) ends deep

end Nanofile
