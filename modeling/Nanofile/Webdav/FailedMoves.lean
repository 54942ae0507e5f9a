import Nanofile.Service.CertainEdits
import Nanofile.Webdav.MoveCopyReports

/-!
# The steps of a MOVE or COPY

With the target out of the way a request takes at most two steps: the entry goes to its
directory under the name it has, and gets the new one there.  A step that fails leaves HEAD
to the step before it.
-/

set_option autoImplicit false

namespace Nanofile

open Nanofile.Lib

variable {Oid : Type} [DecidableEq Oid] [Digests Oid]

/-- The entry is there, and a move has a directory to go to or a name to take. -/
def CanCarry (isMove : Bool) (store : FsStore Oid) (root : Oid) (src dst : String) : Prop :=
  (∃ entry, FoundAt store (pathComponents (parentPathFrom src)) (basename src) root entry) ∧
    (isMove = true → if parentPathFrom src = parentPathFrom dst then
        validateFilename (basename dst) = .ok ()
      else ∃ newParentPath entries, safeNormalizePath (parentPathFrom dst) = .ok newParentPath ∧
        ¬ isSelfOrSubpath src newParentPath ∧ DirAt store (pathComponents newParentPath) root entries)

def OneStep (isMove : Bool) (src dst : String) : Prop :=
  isMove = true ∧ parentPathFrom src = parentPathFrom dst ∨ basename dst = basename src

instance (isMove : Bool) (src dst : String) : Decidable (OneStep isMove src dst) :=
  inferInstanceAs (Decidable (_ ∨ _))

/-- The new name is one, and the entry, or another one of its name, is where it is given. -/
def CanRename (isMove : Bool) (store : FsStore Oid) (root : Oid) (src dst : String) : Prop :=
  OneStep isMove src dst ∨ validateFilename (basename dst) = .ok () ∧
    (isMove = true → safeNormalizePath (parentPathFrom dst) = .ok (parentPathFrom dst) ∨
      ∃ entry, FoundAt store (pathComponents (parentPathFrom dst)) (basename src) root entry)

/-- The target is deleted, or it was not there. -/
def ClearedTo (after : FsStore Oid) (target : MoveTarget) (root top : Oid) : Prop :=
  if target.existed then EditedAt after (pureEdit (withoutName (basename target.path)))
    (pathComponents (parentPathFrom target.path)) root top
  else top = root

/-- What the first step makes of a tree. -/
inductive CarriedTo (store after : FsStore Oid) (isMove : Bool) (email src dst : String)
    (root top : Oid) : Prop where
  | renamed (move : isMove = true) (same : parentPathFrom src = parentPathFrom dst)
      (edited : EditedAt after (pureEdit (renameFirst (basename src) (basename dst)))
        (pathComponents (parentPathFrom src)) root top)
  | moved {newParentPath : String} {entry : DirEntryData Oid} (move : isMove = true)
      (other : parentPathFrom src ≠ parentPathFrom dst)
      (normal : safeNormalizePath (parentPathFrom dst) = .ok newParentPath)
      (isName : entry.name = basename src)
      (steps : MoveSteps store after (pathComponents (parentPathFrom src))
        (pathComponents newParentPath) entry root top)
  | copied {source : DirEntryData Oid} {entries : List (DirEntryData Oid)} {time : Int}
      (copy : isMove = false)
      (found : FoundAt store (pathComponents (parentPathFrom src)) (basename src) root source)
      (lists : DirAt store (pathComponents (parentPathFrom dst)) root entries)
      (edited : EditedAt after (pureEdit (· ++ [copyOf entries source email time]))
        (pathComponents (parentPathFrom dst)) root top)

inductive OnTheWay (store after : FsStore Oid) (isMove : Bool) (email src : String)
    (target : MoveTarget) (root : Oid) : Oid → Prop where
  | cleared {top : Oid} (existed : target.existed = true)
      (clears : ClearedTo after target root top) : OnTheWay store after isMove email src target root top
  | carried {between top : Oid} (clears : ClearedTo after target root between)
      (carries : CarriedTo store after isMove email src target.path between top) :
      OnTheWay store after isMove email src target root top
  | renamed {between carried top : Oid} (clears : ClearedTo after target root between)
      (carries : CarriedTo store after isMove email src target.path between carried)
      (edited : EditedAt after (pureEdit (renameFirst (basename src) (basename target.path)))
        (pathComponents (parentPathFrom target.path)) carried top) :
      OnTheWay store after isMove email src target root top

variable [ToString Oid] {limits : Limits} {email : String} {isMove : Bool} {src dst : String}
  {middle carried final : WebState Oid} {root top : Oid} {roots : List Oid}
  {outcome : Except AppError Oid}

def carry (limits : Limits) (email : String) (isMove isDirectory : Bool) (src dst : String) :
    Web Oid Unit :=
  if isMove then
    if parentPathFrom src = parentPathFrom dst then renameEntry src (basename dst) email isDirectory
    else do let _ ← moveEntry src (parentPathFrom dst) email isDirectory
  else do let _ ← batchCopy limits (parentPathFrom src) (parentPathFrom dst) [basename src] email

def retitle (email : String) (isMove isDirectory : Bool) (src dst : String) : Web Oid Unit :=
  if OneStep isMove src dst then pure ()
  else renameEntry (joinPath (parentPathFrom dst) (basename src)) (basename dst) email isDirectory

theorem exists_steps (limits : Limits) (email : String) (head : HeadContext Oid) (isMove : Bool)
    (src dst : String) (middle : WebState Oid) : ∃ isDirectory isDirectory',
      (if isMove then doMove email head src dst else doCopy limits email head src dst) middle =
        (carry limits email isMove isDirectory src dst >>= fun _ =>
          retitle email isMove isDirectory' src dst) middle := by
  cases isMove with
  | true =>
    refine ⟨isDirWithHead middle.repo head src, isDirWithHead middle.repo head src, ?_⟩
    simp only [carry, retitle, OneStep, doMove, if_true, Proc.bind_run, Proc.read_run, true_and]
    by_cases same : parentPathFrom src = parentPathFrom dst
    · simp only [if_pos same, if_pos (Or.inl same : _ ∨ basename dst = basename src)]
      rcases renameEntry src (basename dst) email (isDirWithHead middle.repo head src) middle with
        ⟨_ | _, after⟩
      · rfl
      · rfl
    · rw [if_neg same, if_neg same, Proc.bind_run, Proc.bind_run]
      rcases moveEntry src (parentPathFrom dst) email (isDirWithHead middle.repo head src) middle
        with ⟨_ | _, after⟩
      · rfl
      · by_cases sameName : basename dst = basename src
        · simp [same, sameName]
        · simp [same, sameName]
  | false =>
    simp only [carry, retitle, OneStep, doCopy, Bool.false_eq_true, if_false, Proc.bind_run,
      false_and, false_or]
    rcases batchCopy limits (parentPathFrom src) (parentPathFrom dst) [basename src] email middle
      with ⟨_ | _, after⟩
    · exact ⟨true, true, rfl⟩
    · refine ⟨true, isDirWithHead after.repo head (joinPath (parentPathFrom dst) (basename src)), ?_⟩
      by_cases sameName : basename dst = basename src
      · simp [sameName]
      · simp [sameName, Proc.bind_run]

variable {isDirectory : Bool}

theorem headIs_carry (plain : PlainPath src) (below : src ≠ "/")
    (refused : isMove = true ∨ ∀ root, resolveRootFsId middle.repo = .ok root →
      ¬ CanCarry isMove middle.repo.fsObjects root src dst) (isHead : HeadIs outcome middle)
    {failure : AppError}
    (run : carry limits email isMove isDirectory src dst middle = (.error failure, final)) :
    HeadIs outcome final := by
  cases isMove with
  | true =>
    simp only [carry, if_true] at run
    split at run
    · exact headIs_renameEntry _ _ _ _ _ _ _ isHead run
    · exact Proc.keepsFailing_bind_total (headIs_moveEntry _ _ _ _)
        (fun _ state => ⟨(), state, rfl⟩) _ _ _ isHead run
  | false =>
    simp only [carry, Bool.false_eq_true, if_false] at run
    rcases Proc.bind_error_iff.mp run with failed | ⟨results, copied, -, done⟩
    · refine batchCopy_missing (pathComponents_eq_of_plain plain below).1 isHead ?_ failed
      intro root entry isRoot found
      exact refused.resolve_left Bool.false_ne_true root isRoot
        ⟨⟨entry, found⟩, fun isMove => absurd isMove Bool.false_ne_true⟩
    · cases done

theorem carry_ok (genuine : Genuine middle.repo.fsObjects) (plain : PlainPath src)
    (below : src ≠ "/") (plainDst : PlainPath dst) (belowDst : dst ≠ "/")
    (tree : HeadStored middle.repo)
    (run : carry limits email isMove isDirectory src dst middle = (.ok (), carried)) :
    ∃ root top, HeadWent middle carried root top ∧
      CanCarry isMove middle.repo.fsObjects root src dst ∧
      CarriedTo middle.repo.fsObjects carried.repo.fsObjects isMove email src dst root top := by
  obtain ⟨plainParent, -⟩ := pathComponents_eq_of_plain plain below
  obtain ⟨plainTarget, -⟩ := pathComponents_eq_of_plain plainDst belowDst
  cases isMove with
  | true =>
    simp only [carry, if_true] at run
    split at run
    · rename_i same
      obtain ⟨root, top, went, renames, edited⟩ := renameEntry_edits genuine plainParent run
      refine ⟨root, top, went, ⟨renames.source, fun _ => ?_⟩, .renamed rfl same edited⟩
      rw [if_pos same]
      exact renameEntry_valid run
    · rename_i other
      obtain ⟨newPath, moved, moving, done⟩ := Proc.bind_ok_iff.mp run
      cases done
      obtain ⟨root, top, newParentPath, entry, went, normal, isName, steps⟩ :=
        moveEntry_edits genuine plain tree moving
      obtain ⟨newParentPath', normal', outside⟩ := moveEntry_outside moving
      obtain rfl := Except.ok.inj (normal.symm.trans normal')
      obtain ⟨dir, entries, resolves, stands⟩ := steps.reached
      refine ⟨root, top, went, ⟨⟨entry, isName ▸ steps.source⟩, fun _ => ?_⟩,
        .moved rfl other normal isName steps⟩
      rw [if_neg other]
      exact ⟨newParentPath, entries, normal, outside, dir, resolves, stands⟩
  | false =>
    simp only [carry, Bool.false_eq_true, if_false] at run
    obtain ⟨results, copying, ran, done⟩ := Proc.bind_ok_iff.mp run
    cases done
    obtain ⟨root, top, source, entries, time, went, copies, edited⟩ :=
      batchCopy_edits genuine plainParent plainTarget ran
    exact ⟨root, top, went, ⟨⟨source, copies.found⟩, fun isMove => absurd isMove Bool.false_ne_true⟩,
      .copied rfl copies.found copies.lists edited⟩

/-- An entry that is found has the time of the step, or the source is gone. -/
def LateOrGone (clock : Nat → Int) (after : FsStore Oid) (src : String) (top : Oid) : Prop :=
  (∃ upper name entry count, FoundAt after upper name top entry ∧ entry.mtime = clock count) ∨
    ∀ gone, ¬ FoundAt after (pathComponents (parentPathFrom src)) (basename src) top gone

theorem carry_runs {entries : List (DirEntryData Oid)} (genuine : Genuine middle.repo.fsObjects)
    (plain : PlainPath src) (below : src ≠ "/") (plainDst : PlainPath dst) (belowDst : dst ≠ "/")
    (isRoot : resolveRootFsId middle.repo = .ok root)
    (can : CanCarry isMove middle.repo.fsObjects root src dst)
    (lists : DirAt middle.repo.fsObjects (pathComponents (parentPathFrom dst)) root entries)
    (outside : ∀ entry, FoundAt middle.repo.fsObjects (pathComponents (parentPathFrom src))
      (basename src) root entry → ¬ (hasDirBit entry.mode = true ∧
        isSelfOrSubpath (joinPath (parentPathFrom src) (basename src)) (parentPathFrom dst) = true))
    (past : CommitsPast roots middle)
    (isNew : ∀ {after : FsStore Oid} {top : Oid}, Table.Extends middle.repo.fsObjects after →
      CarriedTo middle.repo.fsObjects after isMove email src dst root top → top ∈ roots → top = root)
    (counts : isMove = false → middle.repo.size = 0 → ∀ {after : FsStore Oid} {top : Oid},
      Table.Extends middle.repo.fsObjects after →
      CarriedTo middle.repo.fsObjects after isMove email src dst root top →
      ∃ size, computeTreeSize limits after top = .ok size) :
    ∃ carried, carry limits email isMove isDirectory src dst middle = (.ok (), carried) ∧
      (¬ OneStep isMove src dst → ∃ top, HeadWent middle carried root top ∧
        CarriedTo middle.repo.fsObjects carried.repo.fsObjects isMove email src dst root top ∧
        LateOrGone middle.clock carried.repo.fsObjects src top ∧
        CommitsPast (top :: roots) carried) := by
  obtain ⟨plainParent, -⟩ := pathComponents_eq_of_plain plain below
  obtain ⟨plainTarget, -⟩ := pathComponents_eq_of_plain plainDst belowDst
  obtain ⟨⟨entry, found⟩, place⟩ := can
  cases isMove with
  | true =>
    have place := place rfl
    simp only [carry, if_true]
    split at place
    · rename_i same
      obtain ⟨listed, listsSource, isEntry⟩ := found.dirAt
      obtain ⟨final, run⟩ := renameEntry_runs genuine plainParent isRoot listsSource
        (exists_lookup_iff.mp ⟨entry, isEntry⟩) place past
        (fun grown edited => isNew grown (.renamed rfl same edited))
      rw [if_pos same]
      exact ⟨final, run, fun more => absurd (Or.inl ⟨rfl, same⟩) more⟩
    · rename_i other
      obtain ⟨newParentPath, listed, normal, notBelow, listsNew⟩ := place
      have isName : entry.name = basename src := by
        obtain ⟨_, _, _, _, isEntry⟩ := found
        exact (lookup_eq_some isEntry).2
      obtain ⟨newPath, top, final, run, went, steps, lateOrGone, past⟩ := moveEntry_runs genuine
        plain below isRoot found normal notBelow listsNew past
        (fun steps => isNew steps.grown (.moved rfl other normal isName steps))
      rw [if_neg other]
      refine ⟨final, Proc.bind_ok_iff.mpr ⟨newPath, final, run, rfl⟩, fun _ => ⟨top, went,
        .moved rfl other normal isName steps, ?_, past⟩⟩
      rcases lateOrGone with ⟨moved, count, isFound, isLate⟩ | gone
      · exact Or.inl ⟨_, _, moved, count, isFound, isLate⟩
      · exact Or.inr gone
  | false =>
    have copied : ∀ {after : FsStore Oid} {top : Oid} {time : Int},
        EditedAt after (pureEdit (· ++ [copyOf entries entry email time]))
          (pathComponents (parentPathFrom dst)) root top →
        CarriedTo middle.repo.fsObjects after false email src dst root top :=
      fun edited => .copied rfl found lists edited
    obtain ⟨results, top, final, run, went, edited, past⟩ := batchCopy_runs genuine plainParent
      plainTarget ⟨isRoot, found, lists, outside entry found⟩ past
      (fun time _ _ grown edited => isNew grown (copied edited))
      (fun uncounted time _ _ grown edited => counts rfl uncounted grown (copied edited))
    simp only [carry, Bool.false_eq_true, if_false]
    refine ⟨final, Proc.bind_ok_iff.mpr ⟨results, final, run, rfl⟩, fun _ => ⟨top, went,
      copied edited, Or.inl ?_, past⟩⟩
    have isAdded := (lists.extends went.grown).edited_found edited
      (lookup_concat (lookup_eq_none_iff.mpr (freshName_not_mem entries entry.name)))
    exact ⟨_, _, _, 0, isAdded, by rw [written_mtime]; rfl⟩

theorem headIs_retitle (isDirectory : Bool) :
    Proc.KeepsFailing (HeadIs outcome) (retitle email isMove isDirectory src dst) := by
  unfold retitle
  split
  · intro _ _ _ _ run
    cases run
  · exact headIs_renameEntry _ _ _ _

theorem arrival_path (plain : PlainPath src) (below : src ≠ "/") (plainDst : PlainPath dst)
    (belowDst : dst ≠ "/") :
    parentPathFrom (joinPath (parentPathFrom dst) (basename src)) = parentPathFrom dst ∧
      basename (joinPath (parentPathFrom dst) (basename src)) = basename src := by
  obtain ⟨plainTarget, -⟩ := pathComponents_eq_of_plain plainDst belowDst
  have names := plainNames_arrival plain below (parentPathFrom dst)
  have text : joinPath (parentPathFrom dst) (basename src) =
      pathOf (pathComponents (parentPathFrom dst) ++ [basename src]) := by
    conv => lhs; rw [plainTarget]
    exact joinPath_pathOf names.left _
  rw [text, parentPathFrom_pathOf _ names.last.2, basename_pathOf _ names.last.2]
  exact ⟨plainTarget.symm, rfl⟩

variable {listed : List (DirEntryData Oid)}

theorem retitle_ok (genuine : Genuine carried.repo.fsObjects)
    (plain : PlainPath src) (below : src ≠ "/") (plainDst : PlainPath dst) (belowDst : dst ≠ "/")
    (isTop : resolveRootFsId carried.repo = .ok top)
    (lists : DirAt carried.repo.fsObjects (pathComponents (parentPathFrom dst)) top listed)
    (more : ¬ OneStep isMove src dst)
    (run : retitle email isMove isDirectory src dst carried = (.ok (), final)) :
    validateFilename (basename dst) = .ok () ∧ basename src ∈ listed.map DirEntryData.name := by
  obtain ⟨sameParent, sameName⟩ := arrival_path plain below plainDst belowDst
  rw [retitle, if_neg more] at run
  obtain ⟨top', last, went, renames, -⟩ := renameEntry_edits genuine (by
    rw [sameParent]
    exact (pathComponents_eq_of_plain plainDst belowDst).1) run
  obtain rfl := Except.ok.inj (isTop.symm.trans went.isRoot)
  have source := renames.source
  rw [sameParent, sameName] at source
  exact ⟨renameEntry_valid run, lists.exists_found_iff.mp source⟩

theorem retitle_runs (genuine : Genuine carried.repo.fsObjects)
    (plain : PlainPath src) (below : src ≠ "/") (plainDst : PlainPath dst) (belowDst : dst ≠ "/")
    (isTop : resolveRootFsId carried.repo = .ok top)
    (lists : DirAt carried.repo.fsObjects (pathComponents (parentPathFrom dst)) top listed)
    (valid : validateFilename (basename dst) = .ok ())
    (isListed : basename src ∈ listed.map DirEntryData.name) (past : CommitsPast roots carried)
    (isNew : NewRoot carried.repo.fsObjects (renameFirst (basename src) (basename dst))
      (pathComponents (parentPathFrom dst)) top roots) :
    ∃ final, retitle email isMove isDirectory src dst carried = (.ok (), final) := by
  obtain ⟨sameParent, sameName⟩ := arrival_path plain below plainDst belowDst
  unfold retitle
  split
  · exact ⟨carried, rfl⟩
  · have plainTarget := (pathComponents_eq_of_plain plainDst belowDst).1
    generalize joinPath (parentPathFrom dst) (basename src) = path at sameParent sameName ⊢
    rw [← sameParent] at plainTarget lists isNew
    rw [← sameName] at isListed isNew
    exact renameEntry_runs genuine plainTarget isTop lists isListed valid past isNew

end Nanofile
