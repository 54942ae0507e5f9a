import Nanofile.Service.RestEdit
import Nanofile.Service.LocatedDirs

/-!
# What a move keeps

The entry leaves its directory in one edit of the tree and arrives in another, and one commit
follows.  A destination that has the name does not take it, and nothing else keeps it.
-/

set_option autoImplicit false

namespace Nanofile

open Nanofile.Lib

attribute [local irreducible] pathComponents

variable {Oid : Type} [DecidableEq Oid]

/-! ## Entries that are the moved one -/

/-- The entries that have the name, the object and the mode of the entry. -/
def copies (entry : DirEntryData Oid) (entries : List (DirEntryData Oid)) :
    List (DirEntryData Oid) :=
  (named entry.name entries).filter fun other => other.id = entry.id ∧ other.mode = entry.mode

variable {entries : List (DirEntryData Oid)} {name : String}

omit [DecidableEq Oid] in
theorem named_eq_nil_iff : named name entries = [] ↔ name ∉ entries.map DirEntryData.name := by
  simp [named, List.filter_eq_nil_iff]

theorem length_copies_stored (entry : DirEntryData Oid) (entries : List (DirEntryData Oid)) :
    (copies entry (stored entries)).length = (copies entry entries).length := by
  unfold copies
  rw [named_stored, List.filter_map, List.length_map]
  simp [Function.comp_def]

variable {entry : DirEntryData Oid}

theorem copies_withChild_of_ne {child : Oid} (apart : entry.name ≠ name)
    (entries : List (DirEntryData Oid)) :
    copies entry (withChild name child entries) = copies entry entries := by
  rw [copies, named_withChild_of_ne apart, copies]

theorem length_copies_pushed {moved : DirEntryData Oid} (sameName : moved.name = entry.name)
    (sameId : moved.id = entry.id) (sameMode : moved.mode = entry.mode)
    (free : entry.name ∉ entries.map DirEntryData.name) :
    (copies entry (pushUnlessNamed moved entries)).length = 1 := by
  have none : named entry.name entries = [] := named_eq_nil_iff.mpr free
  rw [pushUnlessNamed_of_free (by rwa [sameName])]
  unfold copies named at *
  rw [List.filter_append, none]
  simp [sameName, sameId, sameMode]

/-! ## What is kept -/

variable [Digests Oid]

/-- The tree `top` is the tree `root` with the entry of the name moved from one directory to
another.  The directories above the two have new ids. -/
structure MoveKept (store after : FsStore Oid) (parent target : List String)
    (entry : DirEntryData Oid) (root top : Oid) : Prop where
  arrived : ∃ dir entries, Resolves after target top dir ∧ StandsFor after dir entries ∧
    (copies entry entries).length = 1
  gone : target ≠ parent → ∀ found, ¬ FoundAt after parent entry.name top found
  others : ∀ upper name found, FoundAt store upper name root found →
    ¬ parent ++ [entry.name] <+: upper ++ [name] →
    ∃ found', FoundAt after upper name top found' ∧ found'.mode = found.mode ∧
      (found'.id = found.id ∨ upper ++ [name] ≠ target ++ [entry.name] ∧
        isDir found.mode = true ∧ (upper ++ [name] <+: parent ∨ upper ++ [name] <+: target))

structure MoveSteps (store after : FsStore Oid) (parent target : List String)
    (entry : DirEntryData Oid) (root top : Oid) : Prop where
  source : FoundAt store parent entry.name root entry
  reached : ∃ dir entries, Resolves store target root dir ∧ StandsFor store dir entries
  apart : ¬ parent ++ [entry.name] <+: target
  grown : Table.Extends store after
  edits : ∃ middle moved, moved.name = entry.name ∧ moved.id = entry.id ∧
    moved.mode = entry.mode ∧
    EditedAt after (pureEdit (withoutName entry.name)) parent root middle ∧
    EditedAt after (pureEdit (pushUnlessNamed moved)) target middle top

/-- The destination has the name for something else than the entry. -/
def Clashes (store : FsStore Oid) (parent target : List String) (entry : DirEntryData Oid)
    (root : Oid) : Prop :=
  target ≠ parent ∧ ∃ dir entries, Resolves store target root dir ∧ StandsFor store dir entries ∧
    entry.name ∈ entries.map DirEntryData.name ∧
    ((copies entry entries).length ≠ 1 ∨ target ++ [entry.name] <+: parent)

variable {store after : FsStore Oid} {parent target : List String} {entry : DirEntryData Oid}
  {root top : Oid}

section

omit [DecidableEq Oid] [Digests Oid]

theorem keepsFound_withoutName {other : String} (apart : other ≠ name) :
    KeepsFound (withoutName name : List (DirEntryData Oid) → List (DirEntryData Oid)) other := by
  intro entries found isFound
  have same : named other (withoutName name entries) = named other entries := by
    unfold named withoutName
    rw [List.filter_filter]
    refine List.filter_congr fun candidate _ => ?_
    by_cases isOther : candidate.name = other
    · simp [isOther, apart]
    · simp [isOther]
  rwa [lookup_eq_head, same, ← lookup_eq_head]

theorem keepsFound_pushUnlessNamed (moved : DirEntryData Oid) (name : String) :
    KeepsFound (pushUnlessNamed moved) name := by
  intro entries found isFound
  unfold pushUnlessNamed
  split
  · exact isFound
  · rw [lookup, List.find?_append, show entries.find? _ = some found from isFound]
    rfl

theorem keepsWay_withoutName {path : List String} (apart : ¬ parent ++ [name] <+: path) :
    KeepsWay (withoutName name : List (DirEntryData Oid) → List (DirEntryData Oid)) parent path := by
  intro other passed
  refine keepsFound_withoutName fun same => apart ?_
  rwa [same] at passed

theorem not_mem_names_withoutName (name : String) (entries : List (DirEntryData Oid)) :
    name ∉ (withoutName name entries).map DirEntryData.name := by
  simp [withoutName]

end

variable {dir : Oid}

theorem EditedAt.destination {middle : Oid}
    (edited : EditedAt store (pureEdit (withoutName name)) parent root middle)
    (apart : ¬ parent ++ [name] <+: target) (resolves : Resolves store target root dir)
    (stands : StandsFor store dir entries) :
    ∃ dir' between, Resolves store target middle dir' ∧ StandsFor store dir' between ∧
      (target = parent ∧ between = stored (withoutName name entries) ∨
        target ≠ parent ∧ (between = entries ∨ ∃ next rest child, parent = target ++ next :: rest ∧
          between = stored (withChild next child entries))) := by
  by_cases here : target = parent
  · subst here
    obtain ⟨old, new, listed, resolvesOld, standsOld, resolvesNew, standsNew⟩ := edited.dir_here
    obtain rfl := resolves.unique resolvesOld
    obtain rfl := stands.entries.symm.trans standsOld.entries
    exact ⟨new, _, resolvesNew, standsNew, Or.inl ⟨rfl, rfl⟩⟩
  · obtain ⟨dir', between, resolves', stands', shape⟩ :=
      edited.dir_other here (keepsWay_withoutName apart) resolves stands
    refine ⟨dir', between, resolves', stands', Or.inr ⟨here, ?_⟩⟩
    rcases shape with ⟨-, same⟩ | ⟨next, rest, child, _, onWay, -, -, isChild⟩
    · exact Or.inl same
    · exact Or.inr ⟨next, rest, child, onWay, isChild⟩

variable {upper : List String}

section

variable (steps : MoveSteps store after parent target entry root top)
include steps

theorem MoveSteps.destination (resolves : Resolves store target root dir)
    (stands : StandsFor store dir entries) :
    ∃ dir' entries', Resolves after target top dir' ∧ StandsFor after dir' entries' ∧
      (target = parent ∨ entry.name ∉ entries.map DirEntryData.name →
        (copies entry entries').length = 1) ∧
      (target ≠ parent → entry.name ∈ entries.map DirEntryData.name →
        ¬ target ++ [entry.name] <+: parent →
        (copies entry entries').length = (copies entry entries).length) := by
  obtain ⟨middle, moved, sameName, sameId, sameMode, removed, added⟩ := steps.edits
  obtain ⟨between', between, resolves', stands', shape⟩ := removed.destination steps.apart
    (resolves.extends steps.grown) (stands.extends steps.grown)
  obtain ⟨old, new, listed, resolvesOld, standsOld, resolvesNew, standsNew⟩ := added.dir_here
  obtain rfl := resolves'.unique resolvesOld
  obtain rfl := stands'.entries.symm.trans standsOld.entries
  refine ⟨new, _, resolvesNew, standsNew, ?_, ?_⟩
  · intro free
    rw [length_copies_stored]
    refine length_copies_pushed sameName sameId sameMode ?_
    rcases shape with ⟨-, rfl⟩ | ⟨elsewhere, rfl | ⟨next, rest, child, -, rfl⟩⟩
    · rw [(names_stored _).mem_iff]
      exact not_mem_names_withoutName entry.name entries
    · exact free.resolve_left elsewhere
    · rw [(names_stored _).mem_iff, names_withChild]
      exact free.resolve_left elsewhere
  · intro elsewhere taken flat
    rw [length_copies_stored]
    have kept : moved.name ∈ between.map DirEntryData.name ∧
        (copies entry between).length = (copies entry entries).length := by
      rw [sameName]
      rcases shape with ⟨here, -⟩ | ⟨-, rfl | ⟨next, rest, child, rfl, rfl⟩⟩
      · exact absurd here elsewhere
      · exact ⟨taken, rfl⟩
      · have apart : entry.name ≠ next := by
          rintro same
          exact flat ⟨rest, by rw [same]; simp⟩
        rw [(names_stored _).mem_iff, names_withChild, length_copies_stored,
          copies_withChild_of_ne apart]
        exact ⟨taken, rfl⟩
    rw [pushUnlessNamed, if_pos (any_name_iff.mpr kept.1)]
    exact kept.2

theorem MoveSteps.gone (elsewhere : target ≠ parent) (found : DirEntryData Oid) :
    ¬ FoundAt after parent entry.name top found := by
  rintro ⟨dir, entries, resolves, stands, isFound⟩
  obtain ⟨middle, moved, -, -, -, removed, added⟩ := steps.edits
  obtain ⟨-, left, listed, -, -, resolvesLeft, standsLeft⟩ := removed.dir_here
  obtain ⟨dir', entries', resolves', stands', shape⟩ := added.dir_other elsewhere.symm
    (fun name _ => keepsFound_pushUnlessNamed moved name) resolvesLeft standsLeft
  obtain rfl := resolves.unique resolves'
  obtain rfl := stands.entries.symm.trans stands'.entries
  have listedThere : entry.name ∈ entries.map DirEntryData.name := by
    obtain ⟨member, isName⟩ := lookup_eq_some isFound
    exact List.mem_map.mpr ⟨found, member, isName⟩
  have listedHere : entry.name ∈ (stored (withoutName entry.name listed)).map DirEntryData.name := by
    rcases shape with ⟨-, rfl⟩ | ⟨next, rest, child, passed, -, -, -, rfl⟩
    · exact listedThere
    · rwa [(names_stored _).mem_iff, names_withChild] at listedThere
  rw [(names_stored _).mem_iff] at listedHere
  exact not_mem_names_withoutName entry.name listed listedHere

/-- What lies elsewhere is found as before, directories above the two under new ids. -/
theorem MoveSteps.found {found : DirEntryData Oid} (isFound : FoundAt store upper name root found)
    (apart : ¬ parent ++ [entry.name] <+: upper ++ [name]) :
    ∃ found', FoundAt after upper name top found' ∧ found'.mode = found.mode ∧
      (found'.id = found.id ∨ isDir found.mode = true ∧
        (upper ++ [name] <+: parent ∨ upper ++ [name] <+: target)) := by
  obtain ⟨middle, moved, -, -, -, removed, added⟩ := steps.edits
  obtain ⟨between, isBetween, sameMode, shape⟩ :=
    removed.found (keepsWay_withoutName apart) (isFound.extends steps.grown)
  obtain ⟨found', isFound', sameMode', shape'⟩ :=
    added.found (fun other _ => keepsFound_pushUnlessNamed moved other) isBetween
  refine ⟨found', isFound', sameMode'.trans sameMode, ?_⟩
  rw [sameMode] at shape'
  rcases shape with sameId | ⟨directory, above⟩
  · rcases shape' with sameId' | ⟨directory, above⟩
    · exact Or.inl (sameId'.trans sameId)
    · exact Or.inr ⟨directory, Or.inr above⟩
  · exact Or.inr ⟨directory, Or.inl above⟩

theorem MoveSteps.not_nested (elsewhere : target ≠ parent)
    (nested : target ++ [entry.name] <+: parent)
    (kept : MoveKept store after parent target entry root top) : False := by
  obtain ⟨rest, rfl⟩ := nested
  obtain ⟨dir, entries, resolves, stands, isEntry⟩ := steps.source
  obtain ⟨inner, toInner, toDir⟩ := resolves_append.mp resolves
  obtain ⟨upper, toUpper, entriesUpper, passed, standsUpper, isPassed, directory, rfl⟩ :=
    resolves_append.mp toInner
  have apart : ¬ target ++ [entry.name] ++ rest ++ [entry.name] <+: target ++ [entry.name] := by
    intro longer
    have bound := longer.length_le
    simp only [List.length_append, List.length_singleton] at bound
    omega
  obtain ⟨found', ⟨dir', entries', toDir', stands', isFound'⟩, sameMode, shape⟩ :=
    kept.others target entry.name passed ⟨upper, entriesUpper, toUpper, standsUpper, isPassed⟩ apart
  have sameId : found'.id = passed.id := shape.resolve_right fun moved => moved.1 rfl
  refine steps.gone elsewhere entry ⟨dir, entries, ?_, stands.extends steps.grown, isEntry⟩
  refine resolves_append.mpr ⟨passed.id, resolves_append.mpr ⟨dir', toDir', ?_⟩,
    toDir.extends steps.grown⟩
  exact ⟨entries', found', stands', isFound', sameMode ▸ directory, sameId⟩

theorem MoveSteps.kept_iff :
    MoveKept store after parent target entry root top ↔ ¬ Clashes store parent target entry root := by
  constructor
  · rintro kept ⟨elsewhere, dir, entries, resolves, stands, taken, bad⟩
    by_cases nested : target ++ [entry.name] <+: parent
    · exact steps.not_nested elsewhere nested kept
    · obtain ⟨dir', entries', resolves', stands', -, count⟩ := steps.destination resolves stands
      obtain ⟨dir'', entries'', resolves'', stands'', once⟩ := kept.arrived
      obtain rfl := resolves'.unique resolves''
      obtain rfl := stands'.entries.symm.trans stands''.entries
      rw [count elsewhere taken nested] at once
      exact bad.elim (fun wrong => wrong once) nested
  · intro free
    obtain ⟨dir, entries, resolves, stands⟩ := steps.reached
    obtain ⟨dir', entries', resolves', stands', once, same⟩ := steps.destination resolves stands
    refine ⟨⟨dir', entries', resolves', stands', ?_⟩, steps.gone, ?_⟩
    · by_cases elsewhere : target ≠ parent
      · by_cases taken : entry.name ∈ entries.map DirEntryData.name
        · have good : ¬ ((copies entry entries).length ≠ 1 ∨ target ++ [entry.name] <+: parent) :=
            fun bad => free ⟨elsewhere, dir, entries, resolves, stands, taken, bad⟩
          rw [not_or, not_not] at good
          rw [same elsewhere taken good.2]
          exact good.1
        · exact once (Or.inr taken)
      · exact once (Or.inl (not_not.mp elsewhere))
    · intro upper name found isFound apart
      obtain ⟨found', isFound', sameMode, shape⟩ := steps.found isFound apart
      refine ⟨found', isFound', sameMode, shape.imp_right fun above => ⟨?_, above⟩⟩
      -- The place of the moved entry was free, or what lies there is not above the edits.
      intro place
      obtain ⟨rfl, sameName⟩ := List.append_inj' place rfl
      obtain rfl : name = entry.name := by simpa using sameName
      obtain ⟨dir'', entries'', resolves'', stands'', isEntry⟩ := isFound
      obtain rfl := resolves.unique resolves''
      obtain rfl := stands.entries.symm.trans stands''.entries
      have elsewhere : upper ≠ parent := fun here => apart (by rw [here])
      obtain ⟨member, isName⟩ := lookup_eq_some isEntry
      refine free ⟨elsewhere, dir, entries, resolves, stands,
        List.mem_map.mpr ⟨found, member, isName⟩, Or.inr ?_⟩
      refine above.2.resolve_right fun longer => ?_
      have bound := longer.length_le
      rw [List.length_append, List.length_singleton] at bound
      omega

end

/-! ## The operation -/

theorem trimEndSlashes_append (text : String) (nonempty : name ≠ "") (plain : '/' ∉ name.toList) :
    trimEndSlashes (text ++ name) = text ++ name := by
  have kept : ((text ++ name).toList.reverse.dropWhile fun char => char = '/') =
      (text ++ name).toList.reverse := by
    rw [String.toList_append, List.reverse_append]
    cases last : name.toList.reverse with
    | nil => exact absurd (by simpa using last) nonempty
    | cons char rest =>
      have apart : char ≠ '/' := by
        rintro rfl
        have listed : '/' ∈ name.toList.reverse := by simp [last]
        exact plain (List.mem_reverse.mp listed)
      rw [List.cons_append, List.dropWhile_cons_of_neg (by simpa using apart)]
  rw [trimEndSlashes, kept, List.reverse_reverse, String.ofList_toList]

theorem not_below_of_not_subpath {other : List String} (plain : PlainNames (upper ++ [name]))
    (outside : ¬ isSelfOrSubpath (pathOf (upper ++ [name])) (pathOf other)) :
    ¬ upper ++ [name] <+: other := by
  rintro ⟨rest, rfl⟩
  apply outside
  cases rest with
  | nil => simp [isSelfOrSubpath]
  | cons next rest =>
    have notRoot : pathOf (upper ++ [name]) ≠ "/" :=
      fun root => by simpa using (pathOf_eq_root_iff plain).mp root
    have longer : pathOf (upper ++ [name] ++ next :: rest) =
        pathOf (upper ++ [name]) ++ "/" ++ (next ++ slashed rest) := by
      rw [pathOf_eq, if_neg (by simp [slashed_eq_empty_iff]), pathOf_concat]
      simp [slashed, String.append_assoc]
    have trimmed : trimEndSlashes (pathOf (upper ++ [name])) = pathOf (upper ++ [name]) := by
      rw [pathOf_concat]
      exact trimEndSlashes_append _ plain.last.1 plain.last.2
    have below : (pathOf (upper ++ [name]) ++ "/").toList <+:
        (pathOf (upper ++ [name]) ++ "/" ++ (next ++ slashed rest)).toList :=
      ⟨(next ++ slashed rest).toList, String.toList_append.symm⟩
    rw [isSelfOrSubpath, if_neg notRoot, trimmed, longer, Bool.or_eq_true]
    exact Or.inr (List.isPrefixOf_iff_prefix.mpr below)

theorem below_root (parts : List String) : isSelfOrSubpath "/" (pathOf parts) = true := by
  cases parts with
  | nil => rfl
  | cons first rest =>
    have shape : pathOf (first :: rest) = "/" ++ (first ++ slashed rest) := by
      rw [pathOf_eq, if_neg (by simp [slashed_eq_empty_iff])]
      simp [slashed, String.append_assoc]
    rw [isSelfOrSubpath, if_pos rfl, shape, Bool.or_eq_true]
    exact Or.inr (List.isPrefixOf_iff_prefix.mpr
      ⟨(first ++ slashed rest).toList, String.toList_append.symm⟩)

variable [ToString Oid]

def moveSource (repo : Repo Oid) (path : String) : Except AppError (DirEntryData Oid) := do
  let headRoot ← headRootId repo
  let oldParentFsId ← resolveDirFsId repo.fsObjects headRoot (parentPathFrom path)
  let oldParentData ← readFsDirData repo.fsObjects oldParentFsId
  okOr (findEntry oldParentData.dirents (basename path)) (missingEntry true)

/-- Another directory, which the entry is moved to, has its name for something else, or for a
directory the entry lies in. -/
def moveClash (repo : Repo Oid) (path newParentDir : String) : Bool :=
  moveTaken repo path newParentDir &&
    match safeNormalizePath newParentDir with
    | .error _ => false
    | .ok newParentPath =>
      match moveSource repo path, moveDestination repo newParentPath with
      | .ok entry, .ok data =>
        (copies entry data.dirents).length ≠ 1 ||
          (pathComponents newParentPath ++ [basename path]).isPrefixOf
            (pathComponents (parentPathFrom path))
      | _, _ => false

/-- The move from one HEAD to the other kept the entry and everything else. -/
def MoveKeeps (before after : Repo Oid) (path newParentDir : String) : Prop :=
  ∃ newParentPath entry root top, safeNormalizePath newParentDir = .ok newParentPath ∧
    moveSource before path = .ok entry ∧ headRootId before = .ok root ∧
    headRootId after = .ok top ∧
    MoveKept before.fsObjects after.fsObjects (pathComponents (parentPathFrom path))
      (pathComponents newParentPath) entry root top

/-- Every directory that a path of the tree leads to is stored. -/
def TreeStored (store : FsStore Oid) (root : Oid) : Prop :=
  ∀ parts dir, Resolves store parts root dir → ∃ entries, StandsFor store dir entries

variable {path : String}

theorem pathComponents_eq_of_plain (plain : PlainPath path) (below : path ≠ "/") :
    PlainPath (parentPathFrom path) ∧
      pathComponents path = pathComponents (parentPathFrom path) ++ [basename path] := by
  have names := plainNames_pathComponents path
  rcases List.eq_nil_or_concat (pathComponents path) with isNil | ⟨upper, name, isConcat⟩
  · rw [PlainPath, isNil] at plain
    exact absurd plain below
  · rw [List.concat_eq_append] at isConcat
    rw [isConcat] at names
    rw [PlainPath, isConcat] at plain
    rw [isConcat, plain, parentPathFrom_pathOf upper names.last.2,
      basename_pathOf upper names.last.2, pathComponents_pathOf names.left]
    exact ⟨plainPath_pathOf names.left, rfl⟩

variable {newParentDir : String}
    {before final : WebState Oid} {email newPath : String} {isDirectory : Bool}

theorem moveEntry_steps (genuine : Genuine before.repo.fsObjects) (plain : PlainPath path)
    (tree : ∀ root, headRootId before.repo = .ok root → TreeStored before.repo.fsObjects root)
    (run : moveEntry path newParentDir email isDirectory before = (.ok newPath, final)) :
    PlainPath (parentPathFrom path) ∧ ∃ newParentPath entry root top,
      safeNormalizePath newParentDir = .ok newParentPath ∧
      moveSource before.repo path = .ok entry ∧ entry.name = basename path ∧
      headRootId before.repo = .ok root ∧ headRootId final.repo = .ok top ∧
      MoveSteps before.repo.fsObjects final.repo.fsObjects
        (pathComponents (parentPathFrom path)) (pathComponents newParentPath) entry root top := by
  obtain ⟨root, headed, heading, run⟩ := Proc.bind_ok_iff.mp run
  obtain ⟨oldParentFsId, resolved, resolving, run⟩ := Proc.bind_ok_iff.mp run
  obtain ⟨oldParentData, read, reading, run⟩ := Proc.bind_ok_iff.mp run
  obtain ⟨entry, found, finding, run⟩ := Proc.bind_ok_iff.mp run
  obtain ⟨newParentPath, normalized, normalizing, run⟩ := Proc.bind_ok_iff.mp run
  obtain ⟨_, checked, checking, run⟩ := Proc.bind_ok_iff.mp run
  obtain ⟨newParentFsId, located, locating, run⟩ := Proc.bind_ok_iff.mp run
  obtain ⟨middleRoot, removed, removing, run⟩ := Proc.bind_ok_iff.mp run
  obtain ⟨destination, reached, reaching, run⟩ := Proc.bind_ok_iff.mp run
  obtain ⟨time, clocked, tick, run⟩ := Proc.bind_ok_iff.mp run
  obtain ⟨newRoot, added, adding, run⟩ := Proc.bind_ok_iff.mp run
  obtain ⟨_, committed, committing, done⟩ := Proc.bind_ok_iff.mp run
  obtain ⟨ctime, ticked, tock, committing⟩ := Proc.bind_ok_iff.mp committing
  obtain ⟨isRoot, rfl⟩ := Proc.tryRead_ok_iff.mp heading
  obtain ⟨isParent, rfl⟩ := Proc.tryRead_ok_iff.mp (Proc.mapFailure_ok_iff.mp resolving)
  obtain ⟨isData, rfl⟩ := readDir_ok (Proc.mapFailure_ok_iff.mp reading)
  obtain ⟨isEntry, rfl⟩ := Proc.tryRead_ok_iff.mp finding
  obtain ⟨normal, rfl⟩ := Proc.tryRead_ok_iff.mp normalizing
  obtain ⟨outside, rfl⟩ := Proc.tryRead_ok_iff.mp checking
  obtain ⟨isThere, rfl⟩ := Proc.tryRead_ok_iff.mp (Proc.mapFailure_ok_iff.mp locating)
  obtain ⟨isDestination, rfl⟩ := Proc.tryRead_ok_iff.mp (Proc.mapFailure_ok_iff.mp reaching)
  cases done
  have normal := mapError_eq_ok_iff.mp normal
  have outside := ensure_eq_ok_iff.mp outside
  have newPlain := plainPath_of_safeNormalizePath normal
  have found := okOr_eq_ok_iff.mp isEntry
  have isRoot' := headRootId_eq_ok_iff.mp isRoot
  have resolves := resolves_of_resolveDirSegments isParent
  have stands := standsFor_of_readFsDirData isData
  have resolvesNew := resolves_of_resolveDirSegments isThere
  obtain ⟨listed, standsNew⟩ := tree root isRoot _ _ resolvesNew
  have below : path ≠ "/" := by
    rintro rfl
    exact outside (by rw [newPlain]; exact below_root _)
  obtain ⟨plainParent, cut⟩ := pathComponents_eq_of_plain plain below
  have names := plainNames_pathComponents (parentPathFrom path)
  have newNames := plainNames_pathComponents newParentPath
  -- The two edits.
  rw [plainParent] at removing
  obtain ⟨more, left⟩ :=
    applyTreeUpdate_edited genuine names (climbs_of_head names isRoot') resolves removing
  cases tick
  have ticking := storedMore_now more.genuine (rfl : (Web.now : Web Oid Int) removed = _)
  rw [newPlain] at isDestination adding
  have resolvesMiddle := resolves_of_resolveFsIdChainFromRoot newNames isDestination
  obtain ⟨more', arrived⟩ := applyTreeUpdate_edited ticking.genuine newNames
    (climbs_of_chain newNames (Or.inl rfl) isDestination) resolvesMiddle adding
  cases tock
  obtain ⟨sameStore, isTop⟩ := commitRoot_root committing
  have isName : entry.name = basename path := (lookup_eq_some found).2
  refine ⟨plainParent, newParentPath, entry, root, newRoot, normal, ?_, isName, isRoot,
    headRootId_eq_ok_iff.mpr isTop, ?_⟩
  · exact except_bind_ok_iff.mpr ⟨root, isRoot, except_bind_ok_iff.mpr ⟨oldParentFsId, isParent,
      except_bind_ok_iff.mpr ⟨oldParentData, isData, okOr_eq_ok_iff.mpr found⟩⟩⟩
  · have grown := more.objects.trans (ticking.trans more').objects
    rw [show final.repo.fsObjects = added.repo.fsObjects from sameStore]
    refine ⟨?_, ⟨newParentFsId, listed, resolvesNew, standsNew⟩, ?_, grown, middleRoot,
      ⟨entry.id, entry.mode, email, _, basename path, entry.size⟩, isName.symm, rfl, rfl, ?_,
      arrived⟩
    · rw [isName]
      exact ⟨oldParentFsId, oldParentData.dirents, resolves, stands, found⟩
    · rw [isName, ← cut]
      rw [plain, newPlain, cut] at outside
      rw [cut]
      exact not_below_of_not_subpath (cut ▸ plainNames_pathComponents path) outside
    · rw [isName]
      exact left.extends (ticking.trans more').objects

theorem Resolves.resolveDirSegments : ∀ {parts : List String} {root dir : Oid},
    Resolves store parts root dir → resolveDirSegments store parts root = .ok dir := by
  intro parts
  induction parts with
  | nil =>
    intro root dir resolves
    exact congrArg Except.ok resolves
  | cons name rest ih =>
    intro root dir resolves
    obtain ⟨entries, entry, stands, found, directory, below⟩ := resolves
    obtain ⟨data, read, rfl⟩ := stands.read
    simp only [Nanofile.resolveDirSegments, except_bind_ok_iff, okOr_eq_ok_iff, ensure_eq_ok_iff]
    exact ⟨data, read, entry, found, (), directory, ih below⟩

variable {repo : Repo Oid} {newParentPath : String} {root : Oid}

theorem moveDestination_eq_ok_iff {data : FsDirData Oid}
    (isRoot : headRootId repo = .ok root) :
    moveDestination repo newParentPath = .ok data ↔
      ∃ dir, Resolves repo.fsObjects (pathComponents newParentPath) root dir ∧
        readFsDirData repo.fsObjects dir = .ok data := by
  unfold moveDestination
  constructor
  · intro run
    obtain ⟨root', isRoot', run⟩ := except_bind_ok_iff.mp run
    obtain ⟨dir, isThere, read⟩ := except_bind_ok_iff.mp run
    rw [isRoot, Except.ok.injEq] at isRoot'
    subst isRoot'
    exact ⟨dir, resolves_of_resolveDirSegments isThere, read⟩
  · rintro ⟨dir, resolves, read⟩
    exact except_bind_ok_iff.mpr ⟨root, isRoot,
      except_bind_ok_iff.mpr ⟨dir, resolves.resolveDirSegments, read⟩⟩

theorem moveClash_eq_true_iff
    (normal : safeNormalizePath newParentDir = .ok newParentPath)
    (plain : PlainPath (parentPathFrom path)) (isSource : moveSource repo path = .ok entry)
    (isName : entry.name = basename path) (isRoot : headRootId repo = .ok root) :
    moveClash repo path newParentDir = true ↔ Clashes repo.fsObjects
      (pathComponents (parentPathFrom path)) (pathComponents newParentPath) entry root := by
  have samePath : newParentPath = parentPathFrom path ↔
      pathComponents newParentPath = pathComponents (parentPathFrom path) := by
    constructor
    · exact fun same => by rw [same]
    · intro same
      rw [plainPath_of_safeNormalizePath normal, same, ← plain]
  cases isThere : moveDestination repo newParentPath with
  | error failure =>
    have none : moveClash repo path newParentDir = false := by
      simp [moveClash, moveTaken, normal, isThere]
    rw [none]
    refine iff_of_false Bool.false_ne_true ?_
    rintro ⟨-, dir, entries, resolves, stands, -⟩
    obtain ⟨data, read, -⟩ := stands.read
    have found := (moveDestination_eq_ok_iff isRoot).mpr ⟨dir, resolves, read⟩
    rw [isThere] at found
    cases found
  | ok data =>
    obtain ⟨dir, resolves, read⟩ := (moveDestination_eq_ok_iff isRoot).mp isThere
    have stands := standsFor_of_readFsDirData read
    simp only [moveClash, moveTaken, normal, isThere, isSource, Bool.and_eq_true,
      Bool.or_eq_true, decide_eq_true_eq, any_name_iff, List.isPrefixOf_iff_prefix, ne_eq,
      samePath]
    rw [← isName]
    constructor
    · rintro ⟨⟨elsewhere, taken⟩, bad⟩
      exact ⟨elsewhere, dir, data.dirents, resolves, stands, taken, bad⟩
    · rintro ⟨elsewhere, dir', entries, resolves', stands', taken, bad⟩
      obtain rfl := resolves.unique resolves'
      obtain rfl := stands.entries.symm.trans stands'.entries
      exact ⟨⟨elsewhere, taken⟩, bad⟩

theorem moveKeeps_iff_kept {after : Repo Oid} {root top : Oid}
    (normal : safeNormalizePath newParentDir = .ok newParentPath)
    (isSource : moveSource repo path = .ok entry) (isRoot : headRootId repo = .ok root)
    (isTop : headRootId after = .ok top) :
    MoveKeeps repo after path newParentDir ↔ MoveKept repo.fsObjects after.fsObjects
      (pathComponents (parentPathFrom path)) (pathComponents newParentPath) entry root top := by
  constructor
  · rintro ⟨newParentPath', entry', root', top', normal', isSource', isRoot', isTop', kept⟩
    rw [normal, Except.ok.injEq] at normal'
    rw [isSource, Except.ok.injEq] at isSource'
    rw [isRoot, Except.ok.injEq] at isRoot'
    rw [isTop, Except.ok.injEq] at isTop'
    subst normal' isSource' isRoot' isTop'
    exact kept
  · exact fun kept => ⟨newParentPath, entry, root, top, normal, isSource, isRoot, isTop, kept⟩

theorem not_moveKeeps_of_clash (genuine : Genuine before.repo.fsObjects) (plain : PlainPath path)
    (tree : ∀ root, headRootId before.repo = .ok root → TreeStored before.repo.fsObjects root)
    (run : moveEntry path newParentDir email isDirectory before = (.ok newPath, final))
    (clash : moveClash before.repo path newParentDir = true) :
    ¬ MoveKeeps before.repo final.repo path newParentDir := by
  obtain ⟨plainParent, newParentPath, entry, root, top, normal, isSource, isName, isRoot, isTop,
    steps⟩ := moveEntry_steps genuine plain tree run
  rw [moveKeeps_iff_kept normal isSource isRoot isTop, steps.kept_iff, not_not]
  exact (moveClash_eq_true_iff normal plainParent isSource isName isRoot).mp clash

/-- A successful move keeps the entry and everything else exactly when its destination does not
have its name for something else. -/
theorem moveEntry_keeps {path newParentDir email newPath : String} {isDirectory : Bool}
    {before final : WebState Oid} (genuine : Genuine before.repo.fsObjects)
    (plain : PlainPath path)
    (tree : ∀ root, headRootId before.repo = .ok root → TreeStored before.repo.fsObjects root)
    (run : moveEntry path newParentDir email isDirectory before = (.ok newPath, final)) :
    MoveKeeps before.repo final.repo path newParentDir ↔
      moveClash before.repo path newParentDir = false := by
  constructor
  · intro kept
    by_contra clash
    exact not_moveKeeps_of_clash genuine plain tree run (by simpa using clash) kept
  · intro free
    obtain ⟨plainParent, newParentPath, entry, root, top, normal, isSource, isName, isRoot, isTop,
      steps⟩ := moveEntry_steps genuine plain tree run
    rw [moveKeeps_iff_kept normal isSource isRoot isTop, steps.kept_iff,
      ← moveClash_eq_true_iff normal plainParent isSource isName isRoot, free]
    exact Bool.false_ne_true

/-! ## A move to a free name and one to a taken one -/

omit [ToString Oid] in
theorem treeStored_of_honest {store : FsStore Oid} (honest : Honest store root) :
    TreeStored store root :=
  fun _ _ resolves => (resolves.honest honest).standsFor

def twoDirectories (inner : DirEntryData FreeId) : WebState FreeId :=
  ⟨libraryOf (directory [dirEntry "b" (Digests.dirId (directory [inner])), dirEntry "a" .empty])
    [directory [inner], directory [dirEntry "x" .empty]], [], fun count => count⟩

def otherName : WebState FreeId := twoDirectories (dirEntry "x" .empty)

/-- `/b` with a directory `a` of its own, which is not empty. -/
def sameName : WebState FreeId :=
  twoDirectories (dirEntry "a" (Digests.dirId (directory [dirEntry "x" .empty])))

theorem treeStored_of_check {repo : Repo FreeId} (depth : Nat)
    (checked : (headRootId repo).toOption.all (sizeCheck repo.fsObjects depth) = true) :
    ∀ root, headRootId repo = .ok root → TreeStored repo.fsObjects root := by
  intro root isRoot
  rw [isRoot] at checked
  exact treeStored_of_honest (honest_of_sizeCheck depth checked)

/-- `/a` arrives in `/b`. -/
theorem moved_into_other : ∃ final,
    moveEntry "/a" "/b" "user" true otherName = (.ok "/b/a", final) ∧
      MoveKeeps otherName.repo final.repo "/a" "/b" := by
  have moved : (moveEntry "/a" "/b" "user" true otherName).1 = .ok "/b/a" := by
    decide +kernel
  exact ⟨_, Prod.ext moved rfl, (moveEntry_keeps (genuine_libraryOf _ _) (by decide +kernel)
    (treeStored_of_check 3 (by decide +kernel)) (Prod.ext moved rfl)).mpr (by decide +kernel)⟩

/-- `/a` is nowhere afterwards. -/
theorem moved_onto_other : ∃ final,
    moveEntry "/a" "/b" "user" true sameName = (.ok "/b/a", final) ∧
      ¬ MoveKeeps sameName.repo final.repo "/a" "/b" := by
  have moved : (moveEntry "/a" "/b" "user" true sameName).1 = .ok "/b/a" := by
    decide +kernel
  exact ⟨_, Prod.ext moved rfl, not_moveKeeps_of_clash (genuine_libraryOf _ _) (by decide +kernel)
    (treeStored_of_check 4 (by decide +kernel)) (Prod.ext moved rfl) (by decide +kernel)⟩

end Nanofile
