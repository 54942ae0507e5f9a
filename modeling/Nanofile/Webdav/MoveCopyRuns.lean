import Nanofile.Webdav.MoveCopy

/-!
# The commits of a MOVE or COPY

Up to three edits of HEAD, each of the tree that the one before left: the tree without the
overwritten entry, the tree with the entry under the name it had, and the tree with the entry
under the new one.
-/

set_option autoImplicit false

namespace Nanofile

open Nanofile.Lib

variable {name : String}

section Trees

variable {Oid : Type} [DecidableEq Oid] [Digests Oid]

section Edits

variable {store : FsStore Oid} {root top : Oid} {parts : List String}
  {entries : List (DirEntryData Oid)}

theorem PathsAlike.narrow {names : List String} {above : List String → Prop}
    (alike : PathsAlike store root top (Passes parts (name :: names)) above)
    (before : ∀ entry, ¬ FoundAt store parts name root entry)
    (after : ∀ entry, ¬ FoundAt store parts name top entry) :
    PathsAlike store root top (Passes parts names) above := by
  constructor
  · intro upper last entry outside found
    refine alike.kept ?_ found
    rintro ⟨other, listed, way⟩
    rcases List.mem_cons.mp listed with rfl | listed
    · obtain ⟨passed, isPassed⟩ := found.passed way
      exact before passed isPassed
    · exact outside ⟨other, listed, way⟩
  · intro upper last entry outside found
    refine alike.noOther ?_ found
    rintro ⟨other, listed, way⟩
    rcases List.mem_cons.mp listed with rfl | listed
    · obtain ⟨passed, isPassed⟩ := found.passed way
      exact after passed isPassed
    · exact outside ⟨other, listed, way⟩

section

variable (lists : DirAt store parts root entries)
include lists

theorem DirAt.not_found (free : name ∉ entries.map DirEntryData.name) :
    ∀ entry, ¬ FoundAt store parts name root entry :=
  fun entry found => free (lists.exists_found_iff.mp ⟨entry, found⟩)

variable {updateFn : List (DirEntryData Oid) → List (DirEntryData Oid)}

theorem DirAt.edited_found {entry : DirEntryData Oid}
    (edited : EditedAt store (pureEdit updateFn) parts root top)
    (isEntry : lookup (updateFn entries) name = some entry) :
    FoundAt store parts name top entry.written :=
  (edited.dirAt lists).found_iff.mpr (by rw [lookup_in_stored, isEntry]; rfl)

/-- The entry has another name in the directory, and nothing has the old one. -/
structure RenamedIn (store : FsStore Oid) (parts : List String) (oldName newName : String)
    (root top : Oid) : Prop where
  arrived : ∀ entry, FoundAt store parts oldName root entry →
    ∃ entry', FoundAt store parts newName top entry' ∧ entry'.id = entry.id ∧
      entry'.mode = entry.mode
  left : ∀ entry, ¬ FoundAt store parts oldName top entry
  alike : PathsAlike store root top (Passes parts [oldName, newName]) (· <+: parts)

variable {oldName newName : String}

theorem EditedAt.renamed_away (unique : NamesNodup entries) (apart : oldName ≠ newName)
    (edited : EditedAt store (pureEdit (renameFirst oldName newName)) parts root top) :
    ∀ entry, ¬ FoundAt store parts oldName top entry := by
  refine (edited.dirAt lists).not_found fun listed => ?_
  exact not_mem_names_renameFirst apart unique ((names_stored _).mem_iff.mp listed)

theorem EditedAt.renamedIn (unique : NamesNodup entries) (apart : oldName ≠ newName)
    (free : newName ∉ entries.map DirEntryData.name)
    (edited : EditedAt store (pureEdit (renameFirst oldName newName)) parts root top) :
    RenamedIn store parts oldName newName root top := by
  refine ⟨fun entry found => ?_, edited.renamed_away lists unique apart, ?_⟩
  · have isEntry := lookup_renameFirst_new free (lists.found_iff.mp found)
    exact ⟨_, lists.edited_found edited isEntry, written_id _, written_mode _⟩
  · refine edited.pathsAlike fun listed _ name other => ?_
    rw [List.mem_cons, List.mem_singleton, not_or] at other
    exact lookup_renameFirst_of_ne other.1 other.2 listed

/-- The name an entry comes under is taken back where the wanted one is another. -/
def RenamedTo (store : FsStore Oid) (parts : List String) (oldName newName : String)
    (root top : Oid) : Prop :=
  oldName = newName ∧ top = root ∨ oldName ≠ newName ∧
    (∃ entry, FoundAt store parts oldName root entry) ∧
    EditedAt store (pureEdit (renameFirst oldName newName)) parts root top

/-- An entry arrives in a directory that has neither the name it comes under nor the one it
is to have. -/
theorem RenamedTo.arrived {added : DirEntryData Oid} {middle : Oid} (unique : NamesNodup entries)
    (free : added.name ∉ entries.map DirEntryData.name)
    (wanted : newName ∉ entries.map DirEntryData.name)
    (adds : updateFn entries = entries ++ [added])
    (edited : EditedAt store (pureEdit updateFn) parts root middle)
    (renamed : RenamedTo store parts added.name newName middle top) :
    (∃ entry', FoundAt store parts newName top entry' ∧ entry'.id = added.id ∧
      entry'.mode = added.mode) ∧
      PathsAlike store root top (Passes parts [newName]) (· <+: parts) := by
  have isAdded : lookup (updateFn entries) added.name = some added := by
    rw [adds]
    exact lookup_concat (lookup_eq_none_iff.mpr free)
  have isThere := lists.edited_found edited isAdded
  have alike : PathsAlike store root middle (Passes parts [added.name]) (· <+: parts) := by
    refine edited.pathsAlike fun listed isListed name other => ?_
    obtain rfl := lists.eq isListed
    rw [adds]
    exact lookup_append_of_ne (by simpa using other) entries
  rcases renamed with ⟨rfl, rfl⟩ | ⟨apart, -, retitled⟩
  · exact ⟨⟨_, isThere, written_id _, written_mode _⟩, alike⟩
  · have between := edited.dirAt lists
    rw [adds] at between
    have isRenamed := retitled.renamedIn between
      (namesNodup_stored.mpr (namesNodup_concat unique free)) apart (by
        rw [(names_stored _).mem_iff, List.map_append, List.mem_append, not_or]
        exact ⟨wanted, by simpa using apart.symm⟩)
    obtain ⟨entry', found', sameId, sameMode⟩ := isRenamed.arrived _ isThere
    refine ⟨⟨entry', found', sameId.trans (written_id _), sameMode.trans (written_mode _)⟩, ?_⟩
    have wider : ∀ path, Passes parts [added.name] path → Passes parts [added.name, newName] path :=
      fun path ⟨name, listed, way⟩ =>
        ⟨name, List.mem_cons.mpr (Or.inl (List.mem_singleton.mp listed)), way⟩
    exact ((alike.mono wider fun _ high => high).trans isRenamed.alike).narrow
      (lists.not_found free) isRenamed.left

theorem RenamedTo.left (unique : NamesNodup entries)
    (renamed : RenamedTo store parts oldName newName root top) (apart : oldName ≠ newName) :
    ∀ entry, ¬ FoundAt store parts oldName top entry := by
  rcases renamed with ⟨same, -⟩ | ⟨-, -, retitled⟩
  · exact absurd same apart
  · exact retitled.renamed_away lists unique apart

end

end Edits

end Trees

variable {Oid : Type} [DecidableEq Oid] [Digests Oid] [ToString Oid] {limits : Limits}
  {email : String} {before middle final : WebState Oid} {root top : Oid}
    {entries : List (DirEntryData Oid)}

omit [DecidableEq Oid] [Digests Oid] [ToString Oid] in
theorem mem_names_withoutName_iff {other : String} :
    other ∈ (withoutName name entries).map DirEntryData.name ↔
      other ∈ entries.map DirEntryData.name ∧ other ≠ name := by
  simp only [withoutName, List.mem_map, List.mem_filter, decide_eq_true_eq]
  constructor
  · rintro ⟨entry, ⟨listed, apart⟩, rfl⟩
    exact ⟨⟨entry, listed, rfl⟩, apart⟩
  · rintro ⟨⟨entry, listed, rfl⟩, apart⟩
    exact ⟨entry, ⟨listed, apart⟩, rfl⟩

/-- The target is not there, or it was and is deleted. -/
structure Cleared (before middle : WebState Oid) (parts : List String) (name : String)
    (root top : Oid) (entries left : List (DirEntryData Oid)) : Prop where
  went : HeadWent before middle root top
  tree : HeadStored middle.repo
  lists : DirAt middle.repo.fsObjects parts top left
  unique : NamesNodup left
  names : ∀ other, other ∈ left.map DirEntryData.name ↔
    other ∈ entries.map DirEntryData.name ∧ other ≠ name
  alike : ∀ {store : FsStore Oid}, Table.Extends middle.repo.fsObjects store →
    PathsAlike store root top (Passes parts [name]) (· <+: parts)

theorem replaceTarget_eq (head : HeadContext Oid)
    (isMove : Bool) (src : String) (target : MoveTarget) :
    replaceTarget limits email head isMove src target =
      (if target.existed then Web.deleteDirent limits target.path email else pure ()) >>= fun _ =>
        if isMove then doMove email head src target.path
        else doCopy limits email head src target.path := by
  obtain ⟨path, existed⟩ := target
  cases existed with
  | false | true => rfl

variable {src : String}

theorem cleared_of_run {target : MoveTarget}
    (library : LibraryTree before.repo) (isRoot : resolveRootFsId before.repo = .ok root)
    (accepted : Accepted before.repo ⟨some root⟩ src target)
    (lists : DirAt before.repo.fsObjects (pathComponents (parentPathFrom target.path)) root entries)
    (run : (if target.existed then Web.deleteDirent limits target.path email else pure ())
      before = (.ok (), middle)) :
    ∃ top left, Cleared before middle (pathComponents (parentPathFrom target.path))
      (basename target.path) root top entries left := by
  have unique := lists.nodup library.unique isRoot
  cases existed : target.existed with
  | false =>
    have free : basename target.path ∉ entries.map DirEntryData.name := fun listed => by
      simp [(accepted.existed_iff lists).mpr listed] at existed
    rw [existed] at run
    cases run
    refine ⟨root, entries, ⟨isRoot, isRoot, Table.Extends.refl _, library.genuine⟩,
      library.stored, lists, unique, fun other => ?_, fun _ => PathsAlike.refl _ _ _⟩
    exact ⟨fun listed => ⟨listed, fun same => free (same ▸ listed)⟩, And.left⟩
  | true =>
    rw [existed] at run
    obtain ⟨plain, -⟩ := pathComponents_eq_of_plain accepted.plain accepted.below
    obtain ⟨top, went, edited⟩ := deleteDirent_edits library.genuine plain isRoot lists run
    refine ⟨top, _, went, ?_, edited.dirAt (lists.extends went.grown),
      namesNodup_stored.mpr (namesNodup_filter unique _), fun other => ?_, fun grown => ?_⟩
    · intro top' isTop'
      obtain rfl := Except.ok.inj (went.isTop.symm.trans isTop')
      refine edited.treeStored ((library.stored root isRoot).extends went.grown) ?_
      intro listed below name entry found
      refine below name entry ?_
      rwa [lookup_withoutName_of_ne ?_] at found
      rintro rfl
      simp [lookup_withoutName] at found
    · rw [(names_stored _).mem_iff]
      exact mem_names_withoutName_iff
    · refine (edited.extends grown).pathsAlike fun _ _ name other => ?_
      exact lookup_withoutName_of_ne (by simpa using other)

omit [DecidableEq Oid] [Digests Oid] [ToString Oid] in
theorem plainNames_arrival (plain : PlainPath src) (below : src ≠ "/") (path : String) :
    PlainNames (pathComponents path ++ [basename src]) := by
  have names := plainNames_pathComponents src
  rw [(pathComponents_eq_of_plain plain below).2] at names
  intro part listed
  rcases List.mem_append.mp listed with above | last
  · exact plainNames_pathComponents path part above
  · exact names part (List.mem_append_right _ last)

theorem renamedTo_of_run {parts : List String} {oldName newName : String} {isDirectory : Bool}
    (genuine : Genuine middle.repo.fsObjects) (plain : PlainNames (parts ++ [oldName]))
    (isRoot : resolveRootFsId middle.repo = .ok root)
    (run : (if newName ≠ oldName then
      renameEntry (joinPath (pathOf parts) oldName) newName email isDirectory else pure ())
      middle = (.ok (), final)) :
    ∃ top, HeadWent middle final root top ∧
      RenamedTo final.repo.fsObjects parts oldName newName root top := by
  by_cases apart : newName ≠ oldName
  · rw [if_pos apart, joinPath_pathOf plain.left] at run
    have isParent := parentPathFrom_pathOf parts plain.last.2
    have sameParts := pathComponents_pathOf plain.left
    obtain ⟨root', top, went, renames, edited⟩ := renameEntry_edits genuine
      (by rw [isParent, PlainPath, sameParts]) run
    obtain rfl := Except.ok.inj (isRoot.symm.trans went.isRoot)
    rw [isParent, sameParts, basename_pathOf parts plain.last.2] at edited
    obtain ⟨entry, found⟩ := renames.source
    rw [isParent, sameParts, basename_pathOf parts plain.last.2] at found
    exact ⟨top, went, Or.inr ⟨Ne.symm apart, ⟨entry, found.extends went.grown⟩, edited⟩⟩
  · rw [if_neg apart] at run
    cases run
    exact ⟨root, ⟨isRoot, isRoot, Table.Extends.refl _, genuine⟩,
      Or.inl ⟨(not_not.mp apart).symm, rfl⟩⟩

/-- A move in one directory, or to where the destination's text leads a second time. -/
inductive MovedTo (store after : FsStore Oid) (src dst : String)
    (root top : Oid) : Prop where
  | renamed (same : parentPathFrom src = parentPathFrom dst)
      (source : ∃ entry, FoundAt store (pathComponents (parentPathFrom src)) (basename src) root entry)
      (edited : EditedAt after (pureEdit (renameFirst (basename src) (basename dst)))
        (pathComponents (parentPathFrom src)) root top)
  | moved {newParentPath : String} {middle : Oid} {entry : DirEntryData Oid}
      (other : parentPathFrom src ≠ parentPathFrom dst)
      (normal : safeNormalizePath (parentPathFrom dst) = .ok newParentPath)
      (isName : entry.name = basename src)
      (steps : MoveSteps store after (pathComponents (parentPathFrom src))
        (pathComponents newParentPath) entry root middle)
      (renamed : RenamedTo after (pathComponents (parentPathFrom dst)) (basename src)
        (basename dst) middle top)

omit [ToString Oid] in
theorem MoveSteps.extends {store after later : FsStore Oid} {parent target : List String}
    {entry : DirEntryData Oid} (steps : MoveSteps store after parent target entry root top)
    (grown : Table.Extends after later) : MoveSteps store later parent target entry root top := by
  obtain ⟨between, moved, sameName, sameId, sameMode, left, arrived⟩ := steps.edits
  exact ⟨steps.source, steps.reached, steps.apart, steps.grown.trans grown, between, moved, sameName,
    sameId, sameMode, left.extends grown, arrived.extends grown⟩

theorem doMove_edits {head : HeadContext Oid} {dst : String}
    (genuine : Genuine middle.repo.fsObjects) (plain : PlainPath src) (below : src ≠ "/")
    (plainDst : PlainPath dst) (belowDst : dst ≠ "/") (tree : HeadStored middle.repo)
    (run : doMove email head src dst middle = (.ok (), final)) :
    ∃ root top, HeadWent middle final root top ∧
      MovedTo middle.repo.fsObjects final.repo.fsObjects src dst root top := by
  obtain ⟨plainParent, -⟩ := pathComponents_eq_of_plain plain below
  obtain ⟨plainTarget, -⟩ := pathComponents_eq_of_plain plainDst belowDst
  obtain ⟨isDirectory, started, reading, run⟩ := Proc.bind_ok_iff.mp run
  cases reading
  split at run
  · rename_i same
    obtain ⟨root, top, went, renames, edited⟩ := renameEntry_edits genuine plainParent run
    exact ⟨root, top, went, .renamed same renames.source edited⟩
  · rename_i other
    obtain ⟨newPath, moved, moving, run⟩ := Proc.bind_ok_iff.mp run
    obtain ⟨root, between, newParentPath, entry, went, normal, isName, steps⟩ :=
      moveEntry_edits genuine plain tree moving
    rw [plainTarget] at run
    obtain ⟨top, wentOn, renamed⟩ := renamedTo_of_run went.genuine
      (plainNames_arrival plain below _) went.isTop run
    exact ⟨root, top, went.trans wentOn, .moved other normal isName (steps.extends wentOn.grown) renamed⟩

theorem doCopy_edits {head : HeadContext Oid} {dst : String}
    (genuine : Genuine middle.repo.fsObjects) (plain : PlainPath src) (below : src ≠ "/")
    (plainDst : PlainPath dst) (belowDst : dst ≠ "/")
    (run : doCopy limits email head src dst middle = (.ok (), final)) :
    ∃ root copied top source entries time, HeadWent middle final root top ∧
      Copies middle.repo (parentPathFrom src) (parentPathFrom dst) (basename src) root source
        entries ∧
      EditedAt final.repo.fsObjects (pureEdit (· ++ [copyOf entries source email time]))
        (pathComponents (parentPathFrom dst)) root copied ∧
      RenamedTo final.repo.fsObjects (pathComponents (parentPathFrom dst)) (basename src)
        (basename dst) copied top := by
  obtain ⟨plainParent, -⟩ := pathComponents_eq_of_plain plain below
  obtain ⟨plainTarget, -⟩ := pathComponents_eq_of_plain plainDst belowDst
  obtain ⟨results, copying, ran, run⟩ := Proc.bind_ok_iff.mp run
  obtain ⟨root, copied, source, entries, time, went, copies, edited⟩ :=
    batchCopy_edits genuine plainParent plainTarget ran
  -- The kind that is looked up only words the commit.
  obtain ⟨isDirectory, run⟩ : ∃ isDirectory, (if basename dst ≠ basename src then
      renameEntry (joinPath (parentPathFrom dst) (basename src)) (basename dst) email isDirectory
      else pure ()) copying = (.ok (), final) := by
    split at run
    · rename_i apart
      obtain ⟨_, _, reading, run⟩ := Proc.bind_ok_iff.mp run
      cases reading
      exact ⟨_, (congrFun (if_pos apart) copying).trans run⟩
    · rename_i same
      exact ⟨false, by rwa [if_neg same]⟩
  rw [plainTarget] at run
  obtain ⟨top, wentOn, renamed⟩ := renamedTo_of_run went.genuine
    (plainNames_arrival plain below _) went.isTop run
  exact ⟨root, copied, top, source, entries, time, went.trans wentOn, copies,
    edited.extends wentOn.grown, renamed⟩

end Nanofile
