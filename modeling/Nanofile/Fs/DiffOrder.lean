import Nanofile.Fs.DiffReport

/-!
# The order in which the tree diff reports

When no entry changes its kind, the created entries of a walk are the reported part of
the listing of the new tree, in its order, and no path is dropped twice.
-/

set_option autoImplicit false

namespace Nanofile

open Nanofile.Lib

variable {Oid : Type} [DecidableEq Oid] [Digests Oid] {store : FsStore Oid}
  {old new : List (DirEntryData Oid)}

theorem listing_nil (depth : Nat) (path : TreePath) :
    listing store depth path ([] : List (DirEntryData Oid)) = [] := by
  cases depth <;> rfl

variable {frame : TreeFrame Oid}

theorem next_fresh (uniqueOld : UniqueNames store old) (uniqueNew : UniqueNames store new)
    (aligned : Aligned store old new frame) {child : TreeFrame Oid}
    (isNext : child ∈ treeNext store frame) : reusedAt store old new child.path = false := by
  rw [treeNext, treeFrame_eq, aligned.new_eq, aligned.old_eq, next_eq] at isNext
  rcases List.mem_append.mp isNext with isGone | isCompared
  · obtain ⟨gone, member, isFrame⟩ := List.mem_flatMap.mp isGone
    obtain ⟨listed, -⟩ := mem_oldOnly.mp member
    simp only [goneDelta] at isFrame
    split at isFrame
    · rw [List.mem_singleton.mp isFrame]
      have before : entryAt store old (frame.path ++ [gone.name]) = some gone := by
        rw [entryAt_concat]
        exact lookup_of_mem (uniqueOld frame.path) listed
      exact reusedAt_of_old before
    · simp at isFrame
  · obtain ⟨entry, listed, isFrame⟩ := List.mem_flatMap.mp isCompared
    rw [compareNext, compareDelta] at isFrame
    rw [lastNamed_eq_lookup (uniqueOld frame.path)] at isFrame
    cases found : lookup (dirAt store old frame.path) entry.name with
    | some oldEntry =>
      rw [found] at isFrame
      have isPath : child.path = frame.path ++ [entry.name] := by
        simp only [changedDelta] at isFrame
        repeat' split at isFrame
        all_goals simp_all [TreeDelta.empty]
      have before : entryAt store old (frame.path ++ [entry.name]) = some oldEntry := by
        rw [entryAt_concat]
        exact found
      rw [isPath]
      exact reusedAt_of_old before
    | none =>
      rw [found] at isFrame
      dsimp only at isFrame
      split at isFrame
      · simp at isFrame
      · rename_i notReused
        simp only [addedDelta] at isFrame
        split at isFrame
        · rename_i directory
          rw [List.mem_singleton.mp isFrame]
          have present : entryAt store new (frame.path ++ [entry.name]) = some entry := by
            rw [entryAt_concat]
            exact lookup_of_mem (uniqueNew frame.path) listed
          have absent : entryAt store old (frame.path ++ [entry.name]) = none := by
            rw [entryAt_concat]
            exact found
          simp only [reusedAt, absent, present, List.dropLast_concat]
          simpa using notReused
        · simp at isFrame

/-- The reported part of what one new entry holds `depth + 1` levels down. -/
def reportedBelow (store : FsStore Oid) (old new : List (DirEntryData Oid)) (depth : Nat)
    (path : TreePath) (entries : List (DirEntryData Oid)) : List (PathEntry Oid) :=
  (listing store depth path entries).filter fun item => reportedAt store old new item.1

theorem reportedBelow_nil (depth : Nat) (path : TreePath) :
    reportedBelow store old new depth path [] = [] := by
  rw [reportedBelow, listing_nil]
  rfl

variable {depth : Nat} {entries : List (DirEntryData Oid)} {path : TreePath}

theorem reportedBelow_same (unique : UniqueNames store entries)
    (same : dirAt store old path = entries) :
    reportedBelow store old new depth path entries = [] := by
  refine List.filter_eq_nil_iff.mpr ?_
  rintro ⟨listed, entry⟩ member reported
  obtain ⟨rest, rfl, long, found⟩ := (listing_spec unique).mp member
  have absent := (reportedAt_iff.mp reported).1
  have nonempty : rest ≠ [] := by rintro rfl; simp at long
  rw [entryAt_append path rest nonempty, same, found] at absent
  simp at absent

theorem reportedBelow_reused (unique : UniqueNames store entries)
    (reused : reusedAt store old new path = true) :
    reportedBelow store old new depth path entries = [] := by
  refine List.filter_eq_nil_iff.mpr ?_
  rintro ⟨listed, entry⟩ member reported
  obtain ⟨rest, rfl, long, -⟩ := (listing_spec unique).mp member
  have nonempty : rest ≠ [] := by rintro rfl; simp at long
  rw [not_reported_below reused nonempty] at reported
  simp at reported

theorem compareNext_reported (uniqueOld : UniqueNames store old) (uniqueNew : UniqueNames store new)
    (kept : KindChangesEmpty store old new) (depth : Nat) {entry : DirEntryData Oid}
    (listed : entry ∈ dirAt store new path) :
    (compareNext path (dirAt store old path) (dirAt store new path) entry).flatMap
        (fun child => reportedBelow store old new depth child.path (child.newEntries store)) =
      if hasDirBit entry.mode then
        reportedBelow store old new depth (path ++ [entry.name]) (entriesOf store entry.id)
      else [] := by
  have present : entryAt store new (path ++ [entry.name]) = some entry := by
    rw [entryAt_concat]
    exact lookup_of_mem (uniqueNew path) listed
  have uniqueBelow : hasDirBit entry.mode = true → UniqueNames store (entriesOf store entry.id) :=
    (uniqueNew.below path).child listed
  have sentinelBelow : ∀ here : TreePath,
      reportedBelow store old new depth here (entriesOf store emptySha1) = [] := by
    intro here
    rw [entriesOf_sentinel, reportedBelow_nil]
  rw [compareNext, compareDelta, lastNamed_eq_lookup (uniqueOld path)]
  cases found : lookup (dirAt store old path) entry.name with
  | some oldEntry =>
    have before : entryAt store old (path ++ [entry.name]) = some oldEntry := by
      rw [entryAt_concat]
      exact found
    by_cases same : entry.id = oldEntry.id
    · simp only [changedDelta, same, if_true, TreeDelta.empty, List.flatMap_nil]
      cases directory : hasDirBit entry.mode with
      | false => simp
      | true =>
        have sameBelow : dirAt store old (path ++ [entry.name]) =
            entriesOf store entry.id := by
          rw [dirAt_concat, entriesUnder, found, same]
          cases oldDirectory : hasDirBit oldEntry.mode with
          | true => exact if_pos oldDirectory
          | false =>
            have empty := (kept _ oldEntry entry before present).1 directory oldDirectory
            rw [empty]
            exact if_neg (by simp [oldDirectory])
        rw [if_pos rfl, ← same, reportedBelow_same (uniqueBelow directory) sameBelow]
    · cases directory : hasDirBit entry.mode with
      | true => simp [changedDelta, same, directory, TreeFrame.newEntries]
      | false =>
        cases oldDirectory : hasDirBit oldEntry.mode <;>
          simp [changedDelta, same, directory, oldDirectory, TreeFrame.newEntries,
            reportedBelow_nil]
  | none =>
    have absent : entryAt store old (path ++ [entry.name]) = none := by
      rw [entryAt_concat]
      exact found
    have isReused : reusedAt store old new (path ++ [entry.name]) =
        (hasDirBit entry.mode && (oldOnly (dirAt store old path) (dirAt store new path)).any
          fun gone => gone.id = entry.id) := by
      simp [reusedAt, absent, present]
    dsimp only
    split
    · rename_i reused
      rw [← isReused] at reused
      have directory : hasDirBit entry.mode = true := by
        rw [isReused, Bool.and_eq_true] at reused
        exact reused.1
      rw [List.flatMap_nil, if_pos directory,
        reportedBelow_reused (uniqueBelow directory) reused]
    · cases directory : hasDirBit entry.mode <;>
        simp [addedDelta, directory, TreeFrame.newEntries]

theorem created_level (uniqueOld : UniqueNames store old) (uniqueNew : UniqueNames store new)
    (kept : KindChangesEmpty store old new) (aligned : Aligned store old new frame)
    (clear : Clear store old new frame.path) (depth : Nat) :
    (levelAt (treeNext store) depth [frame]).flatMap
        (fun frame => (treeFrame store frame).created) =
      reportedBelow store old new depth frame.path (frame.newEntries store) := by
  induction depth generalizing frame with
  | zero =>
    have perEntry : ∀ entries : List (DirEntryData Oid), entries.flatMap (fun entry =>
          if lastNamed (dirAt store old frame.path) entry.name = none then
            [(frame.path ++ [entry.name], entry)] else []) =
        (entries.map fun entry => (frame.path ++ [entry.name], entry)).filter
          fun item => reportedAt store old new item.1 := by
      intro entries
      induction entries with
      | nil => rfl
      | cons entry entries ih =>
        rw [List.flatMap_cons, ih, List.map_cons, List.filter_cons,
          clear.reported_concat entry.name, lastNamed_eq_lookup (uniqueOld frame.path)]
        cases lookup (dirAt store old frame.path) entry.name <;> simp
    rw [levelAt_zero, List.flatMap_singleton, treeFrame_eq, created_eq, aligned.old_eq,
      perEntry]
    rfl
  | succ depth ih =>
    have below : ∀ child ∈ treeNext store frame,
        (levelAt (treeNext store) depth [child]).flatMap
            (fun frame => (treeFrame store frame).created) =
          reportedBelow store old new depth child.path (child.newEntries store) := by
      intro child isNext
      obtain ⟨alignedChild, name, isPath⟩ := aligned.next uniqueOld uniqueNew kept isNext
      have fresh := next_fresh uniqueOld uniqueNew aligned isNext
      refine ih alignedChild ?_
      rw [isPath] at fresh ⊢
      exact clear.concat fresh
    rw [levelAt_succ, List.flatMap_singleton, levelAt_flatMap, List.flatMap_assoc,
      List.flatMap_congr below, treeNext, treeFrame_eq, next_eq, List.flatMap_append]
    have goneQuiet : ((oldOnly (frame.oldEntries store) (frame.newEntries store)).flatMap
        fun entry => (goneDelta frame.path entry).next).flatMap (fun child =>
          reportedBelow store old new depth child.path (child.newEntries store)) = [] := by
      refine List.flatMap_eq_nil_iff.mpr ?_
      intro child isGone
      obtain ⟨entry, -, isFrame⟩ := List.mem_flatMap.mp isGone
      simp only [goneDelta] at isFrame
      split at isFrame
      · rw [List.mem_singleton.mp isFrame]
        simp [TreeFrame.newEntries, reportedBelow_nil]
      · simp at isFrame
    rw [goneQuiet, List.nil_append, List.flatMap_assoc, aligned.new_eq, aligned.old_eq,
      List.flatMap_congr fun entry listed =>
        compareNext_reported uniqueOld uniqueNew kept depth listed]
    rw [reportedBelow, listing, List.filter_flatMap]
    refine List.flatMap_congr fun entry _ => ?_
    split <;> rfl

section Roots

variable {oldRoot newRoot : Oid}

/-- The created entries are the reported part of the listing of the new tree, to any
depth the walk did not pass. -/
theorem created_listing (uniqueOld : UniqueNames store (entriesOf store oldRoot))
    (uniqueNew : UniqueNames store (entriesOf store newRoot))
    (kept : KindChangesEmpty store (entriesOf store oldRoot) (entriesOf store newRoot))
    {reached : Nat} (ends : levelAt (treeNext store) reached [⟨some oldRoot, newRoot, []⟩] = [])
    (deep : reached ≤ depth) :
    (treeFrames store oldRoot newRoot reached).flatMap
        (fun frame => (treeFrame store frame).created) =
      (listingTo store (entriesOf store newRoot) depth).filter fun item =>
        reportedAt store (entriesOf store oldRoot) (entriesOf store newRoot) item.1 := by
  have perLevel : ∀ level,
      (levelAt (treeNext store) level [⟨some oldRoot, newRoot, []⟩]).flatMap
          (fun frame => (treeFrame store frame).created) =
        reportedBelow store (entriesOf store oldRoot) (entriesOf store newRoot) level []
          (entriesOf store newRoot) := by
    intro level
    have start : Aligned store (entriesOf store oldRoot) (entriesOf store newRoot)
        ⟨some oldRoot, newRoot, []⟩ := ⟨rfl, rfl⟩
    exact created_level uniqueOld uniqueNew kept start clear_nil level
  rw [treeFrames, levelsTo_flatMap perLevel ends deep, listingTo, List.filter_flatMap]
  rfl

section

omit [DecidableEq Oid] [Digests Oid]

theorem oldOnly_names_nodup {old new : List (DirEntryData Oid)}
    (uniqueOld : (old.map DirEntryData.name).Nodup) (path : TreePath) :
    ((oldOnly old new).map fun entry => path ++ [entry.name]).Nodup := by
  have appended : Function.Injective fun name => path ++ [name] := by
    intro first second same
    simpa using same
  have names : ((oldOnly old new).map DirEntryData.name).Nodup :=
    uniqueOld.sublist (List.filter_sublist.map _)
  have distinct := names.map appended
  rw [List.map_map] at distinct
  exact distinct

theorem frames_sublist {frames : DirEntryData Oid → List (TreeFrame Oid)}
    (atMostOne : ∀ entry, frames entry = [] ∨
      ∃ child, frames entry = [child] ∧ child.path = path ++ [entry.name]) :
    ((entries.flatMap frames).map TreeFrame.path).Sublist
      (entries.map fun entry => path ++ [entry.name]) := by
  induction entries with
  | nil => exact List.Sublist.refl _
  | cons entry entries ih =>
    rw [List.flatMap_cons, List.map_append, List.map_cons]
    rcases atMostOne entry with none | ⟨child, one, isPath⟩
    · rw [none]
      exact ih.cons _
    · rw [one, ← isPath]
      exact ih.cons_cons _

end

theorem next_paths_nodup (uniqueOld : UniqueNames store old) (uniqueNew : UniqueNames store new)
    (aligned : Aligned store old new frame) :
    ((treeNext store frame).map TreeFrame.path).Nodup := by
  rw [treeNext, treeFrame_eq, aligned.new_eq, aligned.old_eq, next_eq, List.map_append]
  have goneOne : ∀ entry : DirEntryData Oid, (goneDelta frame.path entry).next = [] ∨
      ∃ child, (goneDelta frame.path entry).next = [child] ∧
        child.path = frame.path ++ [entry.name] := by
    intro entry
    cases directory : hasDirBit entry.mode <;> simp [goneDelta, directory]
  have newOne : ∀ entry, compareNext frame.path (dirAt store old frame.path)
        (dirAt store new frame.path) entry = [] ∨
      ∃ child, compareNext frame.path (dirAt store old frame.path)
        (dirAt store new frame.path) entry = [child] ∧
        child.path = frame.path ++ [entry.name] := by
    intro entry
    simp only [compareNext, compareDelta, changedDelta, addedDelta]
    repeat' split
    all_goals simp [TreeDelta.empty]
  have appended : Function.Injective fun name => frame.path ++ [name] := by
    intro first second same
    simpa using same
  have newNodup := (uniqueNew frame.path).map appended
  rw [List.map_map] at newNodup
  refine List.nodup_append'.mpr ⟨(oldOnly_names_nodup (uniqueOld frame.path) frame.path).sublist
    (frames_sublist goneOne), newNodup.sublist (frames_sublist newOne), ?_⟩
  -- A dropped name is no name of the new directory.
  refine List.disjoint_left.mpr ?_
  intro shared inGone inNew
  obtain ⟨gone, isGone, same⟩ := List.mem_map.mp ((frames_sublist goneOne).subset inGone)
  obtain ⟨entry, listed, same'⟩ := List.mem_map.mp ((frames_sublist newOne).subset inNew)
  have absent := (mem_oldOnly.mp isGone).2
  have sameName : entry.name = gone.name := appended (same'.trans same.symm)
  rw [← sameName, lookup_of_mem (uniqueNew frame.path) listed] at absent
  simp at absent

theorem dropped_nodup (uniqueOld : UniqueNames store (entriesOf store oldRoot))
    (uniqueNew : UniqueNames store (entriesOf store newRoot))
    (kept : KindChangesEmpty store (entriesOf store oldRoot) (entriesOf store newRoot))
    (reached : Nat) :
    (((treeFrames store oldRoot newRoot reached).flatMap
      (fun frame => (treeFrame store frame).dropped)).map Prod.fst).Nodup := by
  have paths : ((treeFrames store oldRoot newRoot reached).map TreeFrame.path).Nodup := by
    refine levelsTo_keys_nodup (P := Aligned store (entriesOf store oldRoot)
      (entriesOf store newRoot)) ⟨rfl, rfl⟩ ?_ ?_ ?_ reached
    · intro frame aligned child isNext
      exact (aligned.next uniqueOld uniqueNew kept isNext).1
    · intro frame aligned
      exact next_paths_nodup uniqueOld uniqueNew aligned
    · intro frame aligned child isNext
      exact (aligned.next uniqueOld uniqueNew kept isNext).2
  refine nodup_flatMap_concat paths ?_ ?_
  · intro frame isRead
    have aligned := frames_aligned uniqueOld uniqueNew kept reached frame isRead
    rw [treeFrame_eq, dropped_eq, List.map_map, aligned.old_eq]
    exact oldOnly_names_nodup (uniqueOld frame.path) frame.path
  · intro frame _ item isDropped
    rw [treeFrame_eq] at isDropped
    obtain ⟨entry, -, -, rfl⟩ := mem_dropped.mp isDropped
    exact ⟨entry.name, rfl⟩

end Roots

/-- How many of the entries met before have the same id. -/
def earlier (before : List (PathEntry Oid)) (objId : Oid) : Nat :=
  before.countP fun item => item.2.id = objId

def headChange (deleted : Oid → List (PathEntry Oid)) (item : PathEntry Oid) : FsChange Oid :=
  match (deleted item.2.id).getLast? with
  | some (oldPath, _) => pairedChange item oldPath
  | none => createChange item

/-- The dropped entries once this one has popped its own. -/
def popped (deleted : Oid → List (PathEntry Oid)) (objId : Oid) :
    Oid → List (PathEntry Oid) :=
  Function.update deleted objId (deleted objId).dropLast

section

omit [Digests Oid]

theorem pairCreated_cons (deleted : Oid → List (PathEntry Oid)) (item : PathEntry Oid)
    (rest : List (PathEntry Oid)) : pairCreated deleted (item :: rest) =
      headChange deleted item :: pairCreated (popped deleted item.2.id) rest := by
  rw [pairCreated, headChange]
  cases last : (deleted item.2.id).getLast? with
  | some gone => rfl
  | none =>
    have empty := List.getLast?_eq_none_iff.mp last
    have same : popped deleted item.2.id = deleted := by
      rw [popped, empty, List.dropLast_nil, ← empty, Function.update_eq_self]
    rw [same]

theorem popped_subset {deleted : Oid → List (PathEntry Oid)} {objId other : Oid}
    {gone : PathEntry Oid} (member : gone ∈ popped deleted objId other) :
    gone ∈ deleted other := by
  by_cases same : other = objId
  · subst same
    rw [popped, Function.update_self] at member
    exact List.mem_of_mem_dropLast member
  · rwa [popped, Function.update_of_ne same] at member

/-- Popping moves the count of the dropped entries and that of the earlier ones alike. -/
theorem earlier_popped (deleted : Oid → List (PathEntry Oid)) (first : PathEntry Oid)
    (before : List (PathEntry Oid)) (objId : Oid) :
    earlier (first :: before) objId < (deleted objId).length ↔
      earlier before objId < (popped deleted first.2.id objId).length := by
  by_cases same : objId = first.2.id
  · subst same
    rw [popped, Function.update_self, List.length_dropLast, earlier, earlier,
      List.countP_cons_of_pos (by simp)]
    omega
  · rw [popped, Function.update_of_ne same, earlier, earlier,
      List.countP_cons_of_neg (by simpa using Ne.symm same)]

theorem mem_pairCreated {items : List (PathEntry Oid)} {change : FsChange Oid} :
    ∀ {deleted : Oid → List (PathEntry Oid)}, change ∈ pairCreated deleted items →
      ∃ before item after, items = before ++ item :: after ∧
        (change = createChange item ∨ ∃ gone ∈ deleted item.2.id,
          change = pairedChange item gone.1 ∧
            earlier before item.2.id < (deleted item.2.id).length) := by
  induction items with
  | nil =>
    intro deleted member
    simp [pairCreated] at member
  | cons first rest ih =>
    intro deleted member
    rw [pairCreated_cons] at member
    rcases List.mem_cons.mp member with rfl | member
    · refine ⟨[], first, rest, rfl, ?_⟩
      unfold headChange
      cases last : (deleted first.2.id).getLast? with
      | none => exact Or.inl rfl
      | some gone =>
        have isDeleted := List.mem_of_getLast? last
        exact Or.inr ⟨gone, isDeleted, rfl, List.length_pos_of_mem isDeleted⟩
    · obtain ⟨before, item, after, rfl, origin⟩ := ih member
      refine ⟨first :: before, item, after, rfl, origin.imp_right ?_⟩
      rintro ⟨gone, isDeleted, same, inTime⟩
      exact ⟨gone, popped_subset isDeleted, same, (earlier_popped _ _ _ _).mpr inTime⟩

theorem pairCreated_pairs (item : PathEntry Oid) {before after : List (PathEntry Oid)} :
    ∀ {deleted : Oid → List (PathEntry Oid)},
      earlier before item.2.id < (deleted item.2.id).length →
      ∃ gone ∈ deleted item.2.id,
        pairedChange item gone.1 ∈ pairCreated deleted (before ++ item :: after) := by
  induction before with
  | nil =>
    intro deleted inTime
    rw [List.nil_append, pairCreated_cons, headChange]
    cases last : (deleted item.2.id).getLast? with
    | none =>
      rw [List.getLast?_eq_none_iff.mp last] at inTime
      simp at inTime
    | some gone => exact ⟨gone, List.mem_of_getLast? last, List.mem_cons_self⟩
  | cons first before ih =>
    intro deleted inTime
    obtain ⟨gone, isDeleted, paired⟩ := ih ((earlier_popped _ _ _ _).mp inTime)
    rw [List.cons_append, pairCreated_cons]
    exact ⟨gone, popped_subset isDeleted, List.mem_cons_of_mem _ paired⟩

theorem pairCreated_complete {items : List (PathEntry Oid)} {item : PathEntry Oid}
    (member : item ∈ items) :
    ∀ {deleted : Oid → List (PathEntry Oid)}, ∃ change ∈ pairCreated deleted items,
      change = createChange item ∨ ∃ oldPath, change = pairedChange item oldPath := by
  induction items with
  | nil => simp at member
  | cons first rest ih =>
    intro deleted
    rw [pairCreated_cons]
    rcases List.mem_cons.mp member with rfl | inside
    · refine ⟨headChange deleted item, List.mem_cons_self, ?_⟩
      unfold headChange
      cases (deleted item.2.id).getLast? with
      | none => exact Or.inl rfl
      | some gone => exact Or.inr ⟨gone.1, rfl⟩
    · obtain ⟨change, isPaired, kind⟩ := ih inside
      exact ⟨change, List.mem_cons_of_mem _ isPaired, kind⟩

end

end Nanofile
