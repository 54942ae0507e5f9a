import Nanofile.Service.DirListing

/-!
# What the recursive listing lists

The whole of a directory is what listing it, and then every directory that is listed, gives.
The recursive listing gives just that where every directory it comes to can be read; a level
with one that cannot ends it early, and a missing one is passed over.
-/

set_option autoImplicit false

namespace Nanofile

open Nanofile.Lib

variable {Oid : Type} [DecidableEq Oid] [Digests Oid] [ToString Oid]

/-! ## Listing directory by directory -/

def listOf (shelf : Shelf Oid) (node : DirNode Oid) : List (DirEntry Oid) :=
  match listDirFromRoot shelf node.1 "/" with
  | .ok (_, entries) => entries
  | .error _ => []

def Listable (shelf : Shelf Oid) (node : DirNode Oid) : Prop :=
  ∃ listing, listDirFromRoot shelf node.1 "/" = .ok listing

def childDirs (shelf : Shelf Oid) (node : DirNode Oid) : List (DirNode Oid) :=
  ((listOf shelf node).filter fun entry => entry.entryType = "dir").map fun entry =>
    (entry.id, childPathOf node.2 entry.name)

def listedPairs (shelf : Shelf Oid) (node : DirNode Oid) : List (String × DirEntry Oid) :=
  (listOf shelf node).map fun entry => (node.2, entry)

def pairsTo (shelf : Shelf Oid) (depth : Nat) (start : DirNode Oid) : List (String × DirEntry Oid) :=
  (levelsTo (childDirs shelf) depth [start]).flatMap (listedPairs shelf)

/-- The entry alone, without where it was found and what is displayed of its modifier. -/
def DirEntry.bare (entry : DirEntry Oid) : DirEntry Oid :=
  { entry with parentDir := none, modifierName := none, modifierContactEmail := none }

def shownPairs (entries : List (DirEntry Oid)) : List (Option String × DirEntry Oid) :=
  entries.map fun entry => (entry.parentDir, entry.bare)

/-- The recursive listing gives everything or says that it does not. -/
structure ListsAll (shelf : Shelf Oid) (rootId : Oid) (path : String) (maxEntries : Option Nat)
    (outcome : Except AppError (Oid × List (DirEntry Oid) × Bool)) : Prop where
  complete : ∀ dirId entries, outcome = .ok (dirId, entries, false) →
    startDir shelf rootId path = .ok dirId ∧
      ∃ depth, levelAt (childDirs shelf) depth [(dirId, path)] = [] ∧
        (shownPairs entries).Perm
          ((pairsTo shelf depth (dirId, path)).map fun pair => (some pair.1, pair.2))
  cutOff : ∀ dirId entries truncated, outcome = .ok (dirId, entries, truncated) →
    (truncated = true ↔ ∃ max depth, maxEntries = some max ∧
      max < (pairsTo shelf depth (dirId, path)).length)
  readable : ∀ dirId, startDir shelf rootId path = .ok dirId →
    (∃ level, ∃ node ∈ levelAt (childDirs shelf) (level + 1) [(dirId, path)],
      ¬ Listable shelf node) →
    ∀ entries, outcome ≠ .ok (dirId, entries, false)

/-! ## A directory and its row -/

variable {shelf : Shelf Oid} {node : DirNode Oid}

omit [DecidableEq Oid] [Digests Oid] [ToString Oid] in
theorem pathSegments_slash : pathSegments "/" = [] := by decide

theorem listDirFromRoot_slash : listDirFromRoot shelf node.1 "/" =
    match shelf.readDir node.1 with
    | .error failure => .error (.notFound ("not a directory: " ++ toString failure))
    | .ok dirData => .ok (node.1, (dirData.dirents.filter fun dirent =>
      !isReservedInternal dirent.name).map (dirEntryOf none)) := by
  rw [listDirFromRoot, startDir, pathSegments_slash]
  rfl

/-- A directory that can be read has the row the batch finds, and only the sentinel has none. -/
theorem readDir_of_readable (readable : node.1 = emptySha1 ∨ shelf.unreadable node.1 = false) :
    (∃ dirData, dirBatch shelf.store node.1 = some dirData ∧
        shelf.readDir node.1 = .ok dirData) ∨
      dirBatch shelf.store node.1 = none ∧ node.1 = emptySha1 ∧
        shelf.readDir node.1 = .ok emptyDirData ∨
      dirBatch shelf.store node.1 = none ∧ ∃ failure, shelf.readDir node.1 = .error failure := by
  rw [dirBatch, Shelf.readDir]
  by_cases isEmpty : node.1 = emptySha1
  · exact .inr (.inl ⟨if_pos isEmpty, isEmpty, if_pos isEmpty⟩)
  · rcases readable with contra | readable
    · exact absurd contra isEmpty
    · rw [if_neg isEmpty, if_neg isEmpty, if_neg (by simp [readable]), readFsDirData,
        if_neg isEmpty]
      cases shelf.store.find node.1 with
      | none => exact .inr (.inr ⟨rfl, _, rfl⟩)
      | some object =>
        cases object with
        | file data => exact .inr (.inr ⟨rfl, _, rfl⟩)
        | dir data => exact .inl ⟨data, rfl, rfl⟩

/-! ## The loops -/

section Loops

variable {maxEntries : Option Nat} {dirMap : Oid → Option (FsDirData Oid)}

def visibleDirents (dirents : List (DirEntryData Oid)) : List (DirEntryData Oid) :=
  dirents.filter fun dirent => !isReservedInternal dirent.name

def keptDirents (dirMap : Oid → Option (FsDirData Oid)) (node : DirNode Oid) :
    List (DirEntryData Oid) :=
  ((dirMap node.1).map fun dirData => visibleDirents dirData.dirents).getD []

def newEntries (parentPath : String) (dirents : List (DirEntryData Oid)) : List (DirEntry Oid) :=
  dirents.map (dirEntryOf (some parentPath))

def newDirs (parentPath : String) (dirents : List (DirEntryData Oid)) : List (DirNode Oid) :=
  (dirents.filter fun dirent => hasDirBit dirent.mode).map fun dirent =>
    (dirent.id, childPathOf parentPath dirent.name)

/-- A loop runs through with what it adds when there is room for all of it, and is left with the
beginning of that otherwise. -/
def AddsWithin (maxEntries : Option Nat) (entries added : List (DirEntry Oid))
    (next nextAdded : List (DirNode Oid))
    (outcome : Except (List (DirEntry Oid)) (Listed Oid)) : Prop :=
  (exceedsMax maxEntries (entries ++ added).length = false ∧
      outcome = .ok (entries ++ added, next ++ nextAdded)) ∨
    ∃ out later, outcome = .error out ∧ entries ++ added = out ++ later ∧
      exceedsMax maxEntries out.length = true

section

omit [DecidableEq Oid] [Digests Oid] [ToString Oid]

theorem listDirents_adds (parentPath : String) (dirents : List (DirEntryData Oid))
    {entries : List (DirEntry Oid)} (next : List (DirNode Oid))
    (room : exceedsMax maxEntries entries.length = false) :
    AddsWithin maxEntries entries
      (newEntries parentPath (visibleDirents dirents)) next
      (newDirs parentPath (visibleDirents dirents))
      (listDirents maxEntries parentPath dirents (entries, next)) := by
  induction dirents generalizing entries next with
  | nil =>
    refine .inl ⟨by simpa [newEntries, visibleDirents] using room, ?_⟩
    simp [listDirents, newEntries, newDirs, visibleDirents]
  | cons dirent rest ih =>
    rw [listDirents]
    by_cases hidden : isReservedInternal dirent.name = true
    · have kept : visibleDirents (dirent :: rest) = visibleDirents rest :=
        List.filter_cons_of_neg (by simp [hidden])
      rw [if_pos hidden, kept]
      exact ih next room
    · have kept : visibleDirents (dirent :: rest) = dirent :: visibleDirents rest :=
        List.filter_cons_of_pos (by simp [hidden])
      rw [if_neg hidden, kept]
      dsimp only
      by_cases full : exceedsMax maxEntries
          (entries ++ [dirEntryOf (some parentPath) dirent]).length = true
      · rw [if_pos full]
        exact .inr ⟨_, newEntries parentPath (visibleDirents rest), rfl, by simp [newEntries],
          full⟩
      · have below := ih (if hasDirBit dirent.mode then
          next ++ [(dirent.id, childPathOf parentPath dirent.name)] else next)
          (Bool.eq_false_iff.mpr full)
        have entriesSplit : entries ++ newEntries parentPath (dirent :: visibleDirents rest) =
            entries ++ [dirEntryOf (some parentPath) dirent] ++
              newEntries parentPath (visibleDirents rest) := by
          simp [newEntries]
        have dirsSplit : next ++ newDirs parentPath (dirent :: visibleDirents rest) =
            (if hasDirBit dirent.mode then
              next ++ [(dirent.id, childPathOf parentPath dirent.name)] else next) ++
            newDirs parentPath (visibleDirents rest) := by
          by_cases directory : hasDirBit dirent.mode = true <;> simp [newDirs, directory]
        rw [if_neg full, AddsWithin, entriesSplit, dirsSplit]
        exact below

theorem listLevel_adds (frontier : List (DirNode Oid)) {entries : List (DirEntry Oid)}
    (next : List (DirNode Oid)) (room : exceedsMax maxEntries entries.length = false) :
    AddsWithin maxEntries entries
      (frontier.flatMap fun node => newEntries node.2 (keptDirents dirMap node)) next
      (frontier.flatMap fun node => newDirs node.2 (keptDirents dirMap node))
      (listLevel maxEntries dirMap frontier (entries, next)) := by
  induction frontier generalizing entries next with
  | nil => exact .inl ⟨by simpa using room, by simp [listLevel]⟩
  | cons node rest ih =>
    rw [listLevel, List.flatMap_cons, List.flatMap_cons]
    cases row : dirMap node.1 with
    | none =>
      have nothing : keptDirents dirMap node = [] := by rw [keptDirents, row]; rfl
      rw [nothing]
      exact ih next room
    | some dirData =>
      have kept : keptDirents dirMap node = visibleDirents dirData.dirents := by
        rw [keptDirents, row]
        rfl
      dsimp only
      rw [kept]
      rcases listDirents_adds node.2 dirData.dirents next room with
        ⟨roomLeft, ran⟩ | ⟨out, later, left, split, full⟩
      · rw [ran]
        have below := ih (next ++ newDirs node.2 (visibleDirents dirData.dirents)) roomLeft
        rw [AddsWithin, ← List.append_assoc, ← List.append_assoc]
        exact below
      · rw [left, AddsWithin, ← List.append_assoc, split]
        exact .inr ⟨out, later ++ _, rfl, List.append_assoc .., full⟩

end

end Loops

/-! ## The levels -/

def DirEntry.placed (parentDir : String) (entry : DirEntry Oid) : DirEntry Oid :=
  { entry with parentDir := some parentDir }

def placedOf (shelf : Shelf Oid) (node : DirNode Oid) : List (DirEntry Oid) :=
  (listOf shelf node).map (DirEntry.placed node.2)

def placedTo (shelf : Shelf Oid) (depth : Nat) (frontier : List (DirNode Oid)) :
    List (DirEntry Oid) :=
  (levelsTo (childDirs shelf) depth frontier).flatMap (placedOf shelf)

def Shelf.Readable (shelf : Shelf Oid) (node : DirNode Oid) : Prop :=
  node.1 = emptySha1 ∨ shelf.unreadable node.1 = false

omit [DecidableEq Oid] [ToString Oid] in
theorem not_readable_iff :
    ¬ shelf.Readable node ↔ node.1 ≠ emptySha1 ∧ shelf.unreadable node.1 = true := by
  rw [Shelf.Readable, not_or, Bool.not_eq_false]

theorem listOf_of_readable (readable : shelf.Readable node) :
    listOf shelf node =
      (keptDirents (dirBatch shelf.store) node).map (dirEntryOf none) := by
  rw [listOf, listDirFromRoot_slash, keptDirents]
  rcases readDir_of_readable readable with ⟨dirData, row, read⟩ | ⟨row, -, read⟩ |
    ⟨row, failure, read⟩
  · rw [row, read]
    rfl
  · rw [row, read]
    rfl
  · rw [row, read]
    rfl

theorem not_listable_of_not_readable (unreadable : ¬ shelf.Readable node) :
    ¬ Listable shelf node := by
  obtain ⟨notEmpty, isUnreadable⟩ := not_readable_iff.mp unreadable
  rintro ⟨listing, ran⟩
  rw [listDirFromRoot_slash, Shelf.readDir, if_neg notEmpty, if_pos isUnreadable] at ran
  cases ran

theorem listOf_of_not_listable (unlistable : ¬ Listable shelf node) : listOf shelf node = [] := by
  rw [listOf]
  split
  · rename_i ran
    exact absurd ⟨_, ran⟩ unlistable
  · rfl

theorem childDirs_of_not_listable (unlistable : ¬ Listable shelf node) :
    childDirs shelf node = [] := by
  rw [childDirs, listOf_of_not_listable unlistable]
  rfl

theorem newEntries_of_readable (readable : shelf.Readable node) :
    newEntries node.2 (keptDirents (dirBatch shelf.store) node) = placedOf shelf node := by
  rw [placedOf, listOf_of_readable readable, List.map_map]
  rfl

theorem newDirs_of_readable (readable : shelf.Readable node) :
    newDirs node.2 (keptDirents (dirBatch shelf.store) node) = childDirs shelf node := by
  have isDirectory : ∀ dirent : DirEntryData Oid,
      (dirEntryOf none dirent).entryType = "dir" ↔ hasDirBit dirent.mode = true := by
    intro dirent
    by_cases directory : hasDirBit dirent.mode = true <;> simp [dirEntryOf, directory]
  rw [childDirs, listOf_of_readable readable, newDirs, List.filter_map, List.map_map]
  congr 1
  exact List.filter_congr fun dirent _ => by
    rw [Function.comp_apply, Bool.eq_iff_iff, decide_eq_true_iff, isDirectory]

omit [DecidableEq Oid] [Digests Oid] [ToString Oid] in
theorem exceedsMax_mono {maxEntries : Option Nat} {count more : Nat} (le : count ≤ more)
    (room : exceedsMax maxEntries more = false) : exceedsMax maxEntries count = false := by
  cases maxEntries with
  | none => rfl
  | some max =>
    simp only [exceedsMax, Option.any_some, decide_eq_false_iff_not] at room ⊢
    omega

/-- The walk comes to a level and goes no further, since the level is empty or has a directory
that cannot be read. -/
structure StopsAt (limits : Limits) (shelf : Shelf Oid) (maxEntries : Option Nat)
    (depth visits : Nat) (frontier : List (DirNode Oid)) (entries : List (DirEntry Oid))
    (level : Nat) : Prop where
  passed : ∀ above < level, levelAt (childDirs shelf) above frontier ≠ [] ∧
    ∀ node ∈ levelAt (childDirs shelf) above frontier, shelf.Readable node
  deep : level ≤ depth
  wide : visits + (levelsTo (childDirs shelf) level frontier).length ≤ limits.maxVisits
  room : exceedsMax maxEntries (entries ++ placedTo shelf level frontier).length = false
  stops : levelAt (childDirs shelf) level frontier = [] ∨ level < depth ∧
    visits + (levelsTo (childDirs shelf) (level + 1) frontier).length ≤ limits.maxVisits ∧
      ∃ node ∈ levelAt (childDirs shelf) level frontier, ¬ shelf.Readable node

theorem placedTo_succ (depth : Nat) (frontier : List (DirNode Oid)) :
    placedTo shelf (depth + 1) frontier =
      frontier.flatMap (placedOf shelf) ++
        placedTo shelf depth (frontier.flatMap (childDirs shelf)) := by
  rw [placedTo, levelsTo_succ, List.flatMap_append]
  rfl

variable {depth level visits : Nat} {frontier : List (DirNode Oid)} {entries : List (DirEntry Oid)}

theorem stopsAt_succ_iff {limits : Limits} {maxEntries : Option Nat} (some_ : frontier ≠ [])
    (readable : ∀ node ∈ frontier, shelf.Readable node) :
    StopsAt limits shelf maxEntries (depth + 1) visits frontier entries (level + 1) ↔
      StopsAt limits shelf maxEntries depth (visits + frontier.length)
        (frontier.flatMap (childDirs shelf)) (entries ++ frontier.flatMap (placedOf shelf))
        level := by
  have lengths : ∀ count, visits + (levelsTo (childDirs shelf) (count + 1) frontier).length =
      visits + frontier.length +
        (levelsTo (childDirs shelf) count (frontier.flatMap (childDirs shelf))).length := by
    intro count
    rw [levelsTo_succ, List.length_append, Nat.add_assoc]
  constructor
  · intro stops
    refine ⟨fun above less => ?_, Nat.le_of_succ_le_succ stops.deep, ?_, ?_, ?_⟩
    · exact stops.passed (above + 1) (Nat.succ_lt_succ less)
    · rw [← lengths]
      exact stops.wide
    · rw [List.append_assoc, ← placedTo_succ]
      exact stops.room
    · rcases stops.stops with isNil | ⟨deep, wide, unread⟩
      · exact .inl isNil
      · exact .inr ⟨Nat.lt_of_succ_lt_succ deep, by rw [← lengths]; exact wide, unread⟩
  · intro stops
    refine ⟨fun above less => ?_, Nat.succ_le_succ stops.deep, ?_, ?_, ?_⟩
    · cases above with
      | zero => exact ⟨some_, readable⟩
      | succ above => exact stops.passed above (Nat.lt_of_succ_lt_succ less)
    · rw [lengths]
      exact stops.wide
    · rw [placedTo_succ, ← List.append_assoc]
      exact stops.room
    · rcases stops.stops with isNil | ⟨deep, wide, unread⟩
      · exact .inl isNil
      · exact .inr ⟨Nat.succ_lt_succ deep, by rw [lengths]; exact wide, unread⟩

omit [ToString Oid] in
theorem readDirs_eq (shelf : Shelf Oid) (frontier : List (DirNode Oid)) :
    (∀ node ∈ frontier, shelf.Readable node) ∧
        shelf.readDirs (frontier.map Prod.fst) = .ok (dirBatch shelf.store) ∨
      (∃ node ∈ frontier, ¬ shelf.Readable node) ∧
        shelf.readDirs (frontier.map Prod.fst) = .error shelf.failure := by
  by_cases readable : ∀ node ∈ frontier, shelf.Readable node
  · refine .inl ⟨readable, ?_⟩
    rw [Shelf.readDirs, if_neg]
    intro bad
    obtain ⟨fsId, isId, isBad⟩ := List.any_eq_true.mp bad
    obtain ⟨node, listed, rfl⟩ := List.mem_map.mp isId
    rcases readable node listed with isEmpty | read
    · simp [isEmpty] at isBad
    · simp [read] at isBad
  · push Not at readable
    obtain ⟨node, listed, unreadable⟩ := readable
    refine .inr ⟨⟨node, listed, unreadable⟩, ?_⟩
    obtain ⟨notEmpty, isUnreadable⟩ := not_readable_iff.mp unreadable
    rw [Shelf.readDirs, if_pos]
    exact List.any_eq_true.mpr
      ⟨node.1, List.mem_map_of_mem listed, by simp [notEmpty, isUnreadable]⟩

variable {limits : Limits} {maxEntries : Option Nat}

@[simp] theorem placedTo_zero (frontier : List (DirNode Oid)) :
    placedTo shelf 0 frontier = [] := rfl

theorem stopsAt_nil_iff (within : visits ≤ limits.maxVisits)
    (room : exceedsMax maxEntries entries.length = false) :
    StopsAt limits shelf maxEntries depth visits [] entries level ↔ level = 0 := by
  constructor
  · intro stops
    by_contra below
    exact (stops.passed 0 (Nat.pos_of_ne_zero below)).1 rfl
  · rintro rfl
    refine ⟨fun above less => absurd less (Nat.not_lt_zero above), Nat.zero_le _, within, ?_,
      .inl rfl⟩
    rw [placedTo_zero, List.append_nil]
    exact room

theorem not_stopsAt_of_deep (notNil : frontier ≠ []) :
    ¬ StopsAt limits shelf maxEntries 0 visits frontier entries level := by
  intro stops
  obtain rfl : level = 0 := Nat.le_zero.mp stops.deep
  rcases stops.stops with isNil | ⟨deep, -, -⟩
  · exact notNil isNil
  · exact absurd deep (Nat.lt_irrefl 0)

theorem not_stopsAt_of_wide (notNil : frontier ≠ [])
    (wide : limits.maxVisits < visits + frontier.length) :
    ¬ StopsAt limits shelf maxEntries depth visits frontier entries level := by
  intro stops
  have first : ∀ count, frontier.length ≤ (levelsTo (childDirs shelf) (count + 1) frontier).length := by
    intro count
    rw [levelsTo_succ, List.length_append]
    exact Nat.le_add_right ..
  cases level with
  | zero =>
    rcases stops.stops with isNil | ⟨-, wide', -⟩
    · exact notNil isNil
    · have := first 0
      omega
  | succ level =>
    have := first level
    have := stops.wide
    omega

theorem stopsAt_unreadable_iff (wide : visits + frontier.length ≤ limits.maxVisits)
    (room : exceedsMax maxEntries entries.length = false)
    (unread : ∃ node ∈ frontier, ¬ shelf.Readable node) :
    StopsAt limits shelf maxEntries (depth + 1) visits frontier entries level ↔ level = 0 := by
  constructor
  · intro stops
    by_contra below
    obtain ⟨node, listed, unreadable⟩ := unread
    exact unreadable ((stops.passed 0 (Nat.pos_of_ne_zero below)).2 node listed)
  · rintro rfl
    refine ⟨fun above less => absurd less (Nat.not_lt_zero above), Nat.zero_le _,
      Nat.le_trans (Nat.le_add_right _ _) wide, ?_, .inr ⟨Nat.succ_pos depth, ?_, unread⟩⟩
    · rw [placedTo_zero, List.append_nil]
      exact room
    · rw [levelsTo_succ, List.length_append]
      exact wide

theorem listLevel_readable (readable : ∀ node ∈ frontier, shelf.Readable node)
    (room : exceedsMax maxEntries entries.length = false) :
    AddsWithin maxEntries entries (frontier.flatMap (placedOf shelf)) []
      (frontier.flatMap (childDirs shelf))
      (listLevel maxEntries (dirBatch shelf.store) frontier (entries, [])) := by
  have added : (frontier.flatMap fun node =>
      newEntries node.2 (keptDirents (dirBatch shelf.store) node)) =
      frontier.flatMap (placedOf shelf) :=
    List.flatMap_congr fun node listed => newEntries_of_readable (readable node listed)
  have below : (frontier.flatMap fun node =>
      newDirs node.2 (keptDirents (dirBatch shelf.store) node)) =
      frontier.flatMap (childDirs shelf) :=
    List.flatMap_congr fun node listed => newDirs_of_readable (readable node listed)
  rw [← added, ← below]
  exact listLevel_adds frontier [] room

variable {out : List (DirEntry Oid)}

theorem exists_stopsAt_iff (notNil : frontier ≠ [])
    (readable : ∀ node ∈ frontier, shelf.Readable node) :
    (∃ level, StopsAt limits shelf maxEntries (depth + 1) visits frontier entries level ∧
        out = entries ++ placedTo shelf level frontier) ↔
      ∃ level, StopsAt limits shelf maxEntries depth (visits + frontier.length)
          (frontier.flatMap (childDirs shelf)) (entries ++ frontier.flatMap (placedOf shelf))
          level ∧
        out = entries ++ frontier.flatMap (placedOf shelf) ++
          placedTo shelf level (frontier.flatMap (childDirs shelf)) := by
  constructor
  · rintro ⟨level, stops, isOut⟩
    cases level with
    | zero =>
      rcases stops.stops with isNil | ⟨-, -, node, listed, unreadable⟩
      · exact absurd isNil notNil
      · exact absurd (readable node listed) unreadable
    | succ level =>
      refine ⟨level, (stopsAt_succ_iff notNil readable).mp stops, ?_⟩
      rw [isOut, placedTo_succ, List.append_assoc]
  · rintro ⟨level, stops, isOut⟩
    refine ⟨level + 1, (stopsAt_succ_iff notNil readable).mpr stops, ?_⟩
    rw [isOut, placedTo_succ, List.append_assoc]

theorem listLevels_ok_iff (within : visits ≤ limits.maxVisits)
    (room : exceedsMax maxEntries entries.length = false) :
    listLevels limits shelf maxEntries depth visits frontier entries = .ok (out, false) ↔
      ∃ level, StopsAt limits shelf maxEntries depth visits frontier entries level ∧
        out = entries ++ placedTo shelf level frontier := by
  have stopsHere : ∀ {depth visits : Nat} {frontier : List (DirNode Oid)}
      {entries : List (DirEntry Oid)},
      (∀ level, StopsAt limits shelf maxEntries depth visits frontier entries level ↔ level = 0) →
      ((.ok (entries, false) : Except AppError (List (DirEntry Oid) × Bool)) = .ok (out, false) ↔
        ∃ level, StopsAt limits shelf maxEntries depth visits frontier entries level ∧
          out = entries ++ placedTo shelf level frontier) := by
    intro depth visits frontier entries onlyHere
    constructor
    · intro same
      cases same
      exact ⟨0, (onlyHere 0).mpr rfl, (List.append_nil _).symm⟩
    · rintro ⟨level, stops, rfl⟩
      obtain rfl := (onlyHere level).mp stops
      rw [placedTo_zero, List.append_nil]
  induction depth generalizing visits frontier entries with
  | zero =>
    cases frontier with
    | nil => exact stopsHere fun level => stopsAt_nil_iff within room
    | cons node rest =>
      rw [listLevels]
      constructor
      · intro failed
        cases failed
      · rintro ⟨level, stops, -⟩
        exact absurd stops (not_stopsAt_of_deep (List.cons_ne_nil node rest))
  | succ depth ih =>
    cases frontier with
    | nil => exact stopsHere fun level => stopsAt_nil_iff within room
    | cons node rest =>
      have notNil := List.cons_ne_nil node rest
      rw [listLevels]
      generalize node :: rest = frontier at notNil
      by_cases wide : limits.maxVisits < visits + frontier.length
      · rw [if_pos wide]
        constructor
        · intro failed
          cases failed
        · rintro ⟨level, stops, -⟩
          exact absurd stops (not_stopsAt_of_wide notNil wide)
      · rw [if_neg wide]
        have within' : visits + frontier.length ≤ limits.maxVisits := Nat.not_lt.mp wide
        rcases readDirs_eq shelf frontier with ⟨readable, read⟩ | ⟨unread, read⟩
        · have adds := listLevel_readable readable room
          rw [read]
          dsimp only
          rcases adds with ⟨roomLeft, ran⟩ | ⟨left, later, ran, split, full⟩
          · rw [ran, exists_stopsAt_iff notNil readable]
            dsimp only
            rw [List.nil_append]
            exact ih within' roomLeft
          · rw [ran]
            constructor
            · intro failed
              cases failed
            · intro stopped
              obtain ⟨level, stops, -⟩ := (exists_stopsAt_iff notNil readable).mp stopped
              have fits : left.length ≤ (entries ++ frontier.flatMap (placedOf shelf) ++
                  placedTo shelf level (frontier.flatMap (childDirs shelf))).length := by
                rw [split]
                simp
              rw [exceedsMax_mono fits stops.room] at full
              cases full
        · rw [read]
          exact stopsHere fun level => stopsAt_unreadable_iff within' room unread

theorem listLevels_truncated (room : exceedsMax maxEntries entries.length = false)
    (ran : listLevels limits shelf maxEntries depth visits frontier entries = .ok (out, true)) :
    ∃ level, exceedsMax maxEntries (entries ++ placedTo shelf level frontier).length = true := by
  induction depth generalizing visits frontier entries with
  | zero =>
    cases frontier with
    | nil | cons node rest => cases ran
  | succ depth ih =>
    cases frontier with
    | nil => cases ran
    | cons node rest =>
      rw [listLevels] at ran
      generalize node :: rest = frontier at ran ⊢
      split at ran
      · cases ran
      · rcases readDirs_eq shelf frontier with ⟨readable, read⟩ | ⟨-, read⟩
        · rw [read] at ran
          dsimp only at ran
          rcases listLevel_readable readable room with
            ⟨roomLeft, level⟩ | ⟨left, later, level, split, full⟩
          · rw [level] at ran
            obtain ⟨deeper, full⟩ := ih roomLeft ran
            refine ⟨deeper + 1, ?_⟩
            rw [placedTo_succ, ← List.append_assoc]
            exact full
          · refine ⟨1, ?_⟩
            by_contra roomLeft
            rw [placedTo_succ, placedTo_zero, List.append_nil, split] at roomLeft
            rw [exceedsMax_mono (by simp) (Bool.eq_false_iff.mpr roomLeft)] at full
            cases full
        · rw [read] at ran
          cases ran

/-! ## The whole listing -/

variable {start : DirNode Oid} {rootId : Oid} {path : String}
  {nicknameByEmail : String → Option String} {includeModifierNames : Bool}

/-- The walk ends without being cut off although it has come to a directory below its start that
cannot be listed. -/
def Overlooks (limits : Limits) (shelf : Shelf Oid) (maxEntries : Option Nat)
    (start : DirNode Oid) : Prop :=
  ∃ level, StopsAt limits shelf maxEntries limits.maxDepth 0 [start] [] level ∧
    ∃ above < level, ∃ node ∈ levelAt (childDirs shelf) (above + 1) [start],
      ¬ Listable shelf node

theorem StopsAt.ends (stops : StopsAt limits shelf maxEntries limits.maxDepth 0 [start] [] level)
    (sees : ¬ Overlooks limits shelf maxEntries start) :
    ∃ depth ≤ level + 1, levelAt (childDirs shelf) depth [start] = [] ∧
      placedTo shelf depth [start] = placedTo shelf level [start] := by
  rcases stops.stops with isNil | ⟨-, -, node, listed, unreadable⟩
  · exact ⟨level, Nat.le_succ level, isNil, rfl⟩
  · have unlistable := not_listable_of_not_readable unreadable
    cases level with
    | zero =>
      obtain rfl := List.mem_singleton.mp listed
      refine ⟨1, Nat.le_refl 1, ?_, ?_⟩
      · rw [levelAt_succ, List.flatMap_singleton, childDirs_of_not_listable unlistable,
          levelAt_nil]
      · rw [placedTo_succ, List.flatMap_singleton, placedOf, listOf_of_not_listable unlistable]
        rfl
    | succ level =>
      exact absurd ⟨level + 1, stops, level, Nat.lt_succ_self level, node, listed, unlistable⟩
        sees

theorem length_placedTo (depth : Nat) :
    (placedTo shelf depth [start]).length = (pairsTo shelf depth start).length := by
  rw [placedTo, pairsTo, List.length_flatMap, List.length_flatMap]
  congr 2
  funext node
  rw [placedOf, listedPairs, List.length_map, List.length_map]

theorem shownPairs_placedTo (depth : Nat) :
    shownPairs (placedTo shelf depth [start]) =
      (pairsTo shelf depth start).map fun pair => (some pair.1, pair.2) := by
  have plain : ∀ node, ∀ entry ∈ listOf shelf node, entry.bare = entry := by
    intro node entry listed
    rw [listOf] at listed
    split at listed
    · rename_i ran
      rw [listDirFromRoot_slash] at ran
      split at ran
      · cases ran
      · cases ran
        obtain ⟨dirent, -, rfl⟩ := List.mem_map.mp listed
        rfl
    · cases listed
  rw [shownPairs, placedTo, pairsTo, List.map_flatMap, List.map_flatMap]
  refine List.flatMap_congr fun node _ => ?_
  rw [placedOf, listedPairs, List.map_map, List.map_map]
  refine List.map_congr_left fun entry listed => ?_
  exact Prod.ext rfl (plain node entry listed)

omit [DecidableEq Oid] [Digests Oid] [ToString Oid] in
theorem shownPairs_fill (entries : List (DirEntry Oid)) :
    shownPairs (entries.map (fillModifierNames nicknameByEmail)) = shownPairs entries := by
  rw [shownPairs, shownPairs, List.map_map]
  refine List.map_congr_left fun entry _ => ?_
  rw [Function.comp_apply, fillModifierNames]
  split <;> rfl

theorem listDirRecursiveFromRoot_ok {dirId : Oid} {truncated : Bool}
    (ran : listDirRecursiveFromRoot limits nicknameByEmail shelf rootId path includeModifierNames
      maxEntries = .ok (dirId, entries, truncated)) :
    startDir shelf rootId path = .ok dirId ∧ ∃ out,
      listLevels limits shelf maxEntries limits.maxDepth 0 [(dirId, path)] [] =
        .ok (out, truncated) ∧ shownPairs entries = shownPairs out := by
  unfold listDirRecursiveFromRoot at ran
  obtain ⟨startId, started, ran⟩ := except_bind_ok_iff.mp ran
  obtain ⟨⟨out, cut⟩, walked, ran⟩ := except_bind_ok_iff.mp ran
  cases cut with
  | true =>
    cases ran
    exact ⟨started, _, walked, rfl⟩
  | false =>
    cases ran
    refine ⟨started, _, walked, ?_⟩
    cases includeModifierNames with
    | true => exact shownPairs_fill _
    | false => rfl

omit [DecidableEq Oid] [Digests Oid] [ToString Oid] in
theorem exceedsMax_iff {count : Nat} :
    exceedsMax maxEntries count = true ↔ ∃ max, maxEntries = some max ∧ max < count := by
  cases maxEntries with
  | none | some max => simp [exceedsMax]

theorem length_pairsTo_le (ends : levelAt (childDirs shelf) depth [start] = []) (deeper : Nat) :
    (pairsTo shelf deeper start).length ≤ (pairsTo shelf depth start).length := by
  rw [pairsTo, pairsTo]
  rcases Nat.le_total depth deeper with past | before
  · rw [levelsTo_of_end ends past]
  · obtain ⟨later, split⟩ : levelsTo (childDirs shelf) deeper [start] <+:
        levelsTo (childDirs shelf) depth [start] := levelsTo_prefix before [start]
    rw [← split, List.flatMap_append, List.length_append]
    exact Nat.le_add_right ..

/-- The recursive listing gives everything or says that it does not exactly when it overlooks no
directory. -/
theorem listDirRecursive_listsAll_iff :
    ListsAll shelf rootId path maxEntries (listDirRecursiveFromRoot limits nicknameByEmail shelf
        rootId path includeModifierNames maxEntries) ↔
      ∀ dirId, startDir shelf rootId path = .ok dirId →
        ¬ Overlooks limits shelf maxEntries (dirId, path) := by
  have noEntries : exceedsMax maxEntries ([] : List (DirEntry Oid)).length = false := by
    cases maxEntries <;> simp [exceedsMax]
  constructor
  · rintro lists dirId started ⟨level, stops, above, -, node, listed, unlistable⟩
    have walked := (listLevels_ok_iff (Nat.zero_le _) noEntries).mpr ⟨level, stops, rfl⟩
    have answer : ∃ entries, listDirRecursiveFromRoot limits nicknameByEmail shelf rootId path
        includeModifierNames maxEntries = .ok (dirId, entries, false) := by
      rw [listDirRecursiveFromRoot, started]
      dsimp only [bind, Except.bind]
      rw [walked]
      exact ⟨_, rfl⟩
    obtain ⟨entries, ran⟩ := answer
    exact lists.readable dirId started ⟨above, node, listed, unlistable⟩ entries ran
  · intro sees
    -- an uncut walk stops somewhere, at the end of the tree
    have uncut : ∀ {dirId entries}, listDirRecursiveFromRoot limits nicknameByEmail shelf rootId
        path includeModifierNames maxEntries = .ok (dirId, entries, false) →
        startDir shelf rootId path = .ok dirId ∧ ∃ level, ∃ depth ≤ level + 1,
          StopsAt limits shelf maxEntries limits.maxDepth 0 [(dirId, path)] [] level ∧
          levelAt (childDirs shelf) depth [(dirId, path)] = [] ∧
          placedTo shelf depth [(dirId, path)] = placedTo shelf level [(dirId, path)] ∧
          shownPairs entries = shownPairs (placedTo shelf depth [(dirId, path)]) := by
      intro dirId entries ran
      obtain ⟨started, out, walked, shown⟩ := listDirRecursiveFromRoot_ok ran
      obtain ⟨level, stops, isOut⟩ := (listLevels_ok_iff (Nat.zero_le _) noEntries).mp walked
      obtain ⟨depth, near, ends, same⟩ := stops.ends (sees dirId started)
      exact ⟨started, level, depth, near, stops, ends, same, by rw [shown, isOut, same]; rfl⟩
    refine ⟨?_, ?_, ?_⟩
    · intro dirId entries ran
      obtain ⟨started, -, depth, -, -, ends, -, shown⟩ := uncut ran
      refine ⟨started, depth, ends, ?_⟩
      rw [shown, shownPairs_placedTo]
    · intro dirId entries truncated ran
      cases truncated with
      | true =>
        obtain ⟨started, out, walked, -⟩ := listDirRecursiveFromRoot_ok ran
        obtain ⟨depth, full⟩ := listLevels_truncated noEntries walked
        obtain ⟨max, isMax, more⟩ := exceedsMax_iff.mp full
        rw [List.nil_append, length_placedTo] at more
        exact ⟨fun _ => ⟨max, depth, isMax, more⟩, fun _ => rfl⟩
      | false =>
        obtain ⟨started, level, depth, -, stops, ends, same, -⟩ := uncut ran
        refine ⟨fun contra => (by cases contra), ?_⟩
        rintro ⟨max, deeper, isMax, more⟩
        have room := stops.room
        rw [List.nil_append, ← same, length_placedTo] at room
        have full := exceedsMax_iff.mpr
          ⟨max, isMax, Nat.lt_of_lt_of_le more (length_pairsTo_le ends deeper)⟩
        rw [full] at room
        cases room
    · rintro dirId started ⟨above, node, listed, unlistable⟩ entries ran
      obtain ⟨-, level, depth, near, stops, ends, -, -⟩ := uncut ran
      by_cases shallow : above < level
      · exact sees dirId started ⟨level, stops, above, shallow, node, listed, unlistable⟩
      · rw [levelAt_eq_nil_of_le ends (by omega)] at listed
        cases listed

/-! ## A level that cannot be read -/

def openDir : FsDirData FreeId := directory [fileEntry "x" (.atom 1) 1]

def closedDir : FsDirData FreeId := directory [fileEntry "y" (.atom 2) 1]

def halfReadRoot : FsDirData FreeId :=
  directory [dirEntry "a" (Digests.dirId openDir), dirEntry "b" (Digests.dirId closedDir)]

/-- The row of `b` cannot be parsed. -/
def halfReadShelf : Shelf FreeId where
  store := ⟨[openDir, closedDir, halfReadRoot].map fun data =>
    (Digests.dirId data, .dir data.written)⟩
  unreadable := fun fsId => fsId = Digests.dirId closedDir
  failure := .internal "expected value"

/-- The files of `a` and `b` are left out, and nothing is said. -/
theorem listDirRecursive_overlooks :
    ¬ ∀ (limits : Limits) (nicknameByEmail : String → Option String) (shelf : Shelf FreeId)
        (rootId : FreeId) (path : String) (includeModifierNames : Bool) (maxEntries : Option Nat),
      ListsAll shelf rootId path maxEntries (listDirRecursiveFromRoot limits nicknameByEmail shelf
        rootId path includeModifierNames maxEntries) := by
  intro always
  have lists := always defaultLimits (fun _ => none) halfReadShelf (Digests.dirId halfReadRoot) "/"
    false none
  have ran : ((listDirRecursiveFromRoot defaultLimits (fun _ => none) halfReadShelf
      (Digests.dirId halfReadRoot) "/" false none).toOption.map fun answer =>
        (answer.1, answer.2.1.map DirEntry.name, answer.2.2)) =
      some (Digests.dirId halfReadRoot, ["a", "b"], false) := by
    decide +kernel
  have unlistable : (listDirFromRoot halfReadShelf (Digests.dirId closedDir) "/").toOption = none := by
    decide +kernel
  cases answer : listDirRecursiveFromRoot defaultLimits (fun _ => none) halfReadShelf
      (Digests.dirId halfReadRoot) "/" false none with
  | error failure =>
    rw [answer] at ran
    cases ran
  | ok found =>
    obtain ⟨dirId, entries, truncated⟩ := found
    rw [answer] at lists ran
    have isAnswer := Option.some.inj ran
    simp only [Prod.mk.injEq] at isAnswer
    obtain ⟨rfl, -, rfl⟩ := isAnswer
    refine lists.readable _ (by decide +kernel)
      ⟨0, (Digests.dirId closedDir, "/b"), by decide +kernel, ?_⟩ entries rfl
    rintro ⟨listing, listed⟩
    rw [listed] at unlistable
    cases unlistable

end Nanofile
