import Nanofile.Service.EditedPaths

/-!
# The edits of HEAD that operations make

Each operation that succeeds is a row of edits of the tree of HEAD.
-/

set_option autoImplicit false

namespace Nanofile

open Nanofile.Lib Nanofile.Lib.Proc

-- A path is not to be taken apart when the type of a hypothesis about it is looked at.
attribute [local irreducible] pathComponents

variable {Oid : Type} [DecidableEq Oid] [Digests Oid]

structure HeadWent (before after : WebState Oid) (root top : Oid) : Prop where
  isRoot : resolveRootFsId before.repo = .ok root
  isTop : resolveRootFsId after.repo = .ok top
  grown : Table.Extends before.repo.fsObjects after.repo.fsObjects
  genuine : Genuine after.repo.fsObjects

variable {root top : Oid}

theorem HeadWent.trans {first second third : WebState Oid} {middle : Oid}
    (left : HeadWent first second root middle) (right : HeadWent second third middle top) :
    HeadWent first third root top :=
  ⟨left.isRoot, right.isTop, left.grown.trans right.grown, right.genuine⟩

variable [ToString Oid] {limits : Limits} {before final : WebState Oid}
    {chain : AncestorChain Oid} {description : String} {parent : Oid}
  {updateFn : List (DirEntryData Oid) → List (DirEntryData Oid)}
    {isDirectory : Bool} {path : String} {email : String}

section

variable (genuine : Genuine before.repo.fsObjects)
include genuine

theorem updateDirTreeAndCommit_went {parts : List String} {modifier : String}
    (plain : PlainNames parts) (isRoot : resolveRootFsId before.repo = .ok root)
    (climbs : Climbs before.repo none chain root parts)
    (resolves : Resolves before.repo.fsObjects parts root parent)
    (run : updateDirTreeAndCommit (pathOf parts) parent modifier description chain updateFn before =
      (.ok top, final)) :
    HeadWent before final root top ∧
      EditedAt final.repo.fsObjects (pureEdit updateFn) parts root top := by
  obtain ⟨newRoot, built, updating, run⟩ := bind_ok_iff.mp run
  obtain ⟨_, committed, committing, done⟩ := bind_ok_iff.mp run
  obtain ⟨ctime, clocked, tick, committing⟩ := bind_ok_iff.mp committing
  cases done
  cases tick
  obtain ⟨more, edited⟩ := applyTreeUpdate_edited genuine plain climbs resolves updating
  obtain ⟨sameStore, isTop⟩ := commitRoot_root committing
  have sameStore : final.repo.fsObjects = built.repo.fsObjects := sameStore
  rw [← sameStore] at edited
  exact ⟨⟨isRoot, isTop, sameStore ▸ more.objects, sameStore ▸ more.genuine⟩, edited⟩

/-- An update that succeeds has read its directory, and no commit changes the stored size. -/
theorem updateDirTreeAndCommit_read {parentPath modifier : String}
    (run : updateDirTreeAndCommit parentPath parent modifier description chain updateFn before =
      (.ok top, final)) :
    (∃ data, readFsDirData before.repo.fsObjects parent = .ok data) ∧
      final.repo.size = before.repo.size := by
  obtain ⟨newRoot, built, updating, run⟩ := bind_ok_iff.mp run
  obtain ⟨_, committed, committing, done⟩ := bind_ok_iff.mp run
  obtain ⟨ctime, clocked, tick, committing⟩ := bind_ok_iff.mp committing
  cases done
  cases tick
  have more := storedMore_applyTreeUpdate parentPath parent chain none updateFn before
    (storedMore_refl genuine)
  rw [updating] at more
  obtain ⟨data, read, reading, -⟩ := bind_ok_iff.mp updating
  exact ⟨⟨data, (readDir_ok reading).1⟩, (commitRoot_size committing).trans more.size⟩

structure Renames (repo : Repo Oid) (parts : List String) (oldName newName : String) (root : Oid) :
    Prop where
  valid : validateFilename newName = .ok ()
  isRoot : resolveRootFsId repo = .ok root
  source : ∃ entry, FoundAt repo.fsObjects parts oldName root entry

theorem renameEntry_edits {newName modifier : String} (plain : PlainPath (parentPathFrom path))
    (run : renameEntry path newName modifier isDirectory before = (.ok (), final)) :
    ∃ root top, HeadWent before final root top ∧
      Renames before.repo (pathComponents (parentPathFrom path)) (basename path) newName root ∧
      EditedAt final.repo.fsObjects (pureEdit (renameFirst (basename path) newName))
        (pathComponents (parentPathFrom path)) root top := by
  obtain ⟨_, checked, checking, run⟩ := bind_ok_iff.mp run
  obtain ⟨parentFsId, resolved, resolving, run⟩ := bind_ok_iff.mp run
  obtain ⟨parentData, read, reading, run⟩ := bind_ok_iff.mp run
  obtain ⟨entry, found, finding, run⟩ := bind_ok_iff.mp run
  obtain ⟨top, updated, updating, done⟩ := bind_ok_iff.mp run
  obtain ⟨valid, rfl⟩ := tryRead_ok_iff.mp checking
  obtain ⟨isEntry, rfl⟩ := tryRead_ok_iff.mp finding
  have reading := mapFailure_ok_iff.mp reading
  obtain ⟨rfl, root, isRoot, isParent⟩ := resolveParent_ok resolving
  obtain ⟨isData, rfl⟩ := readDir_ok reading
  cases done
  have names := plainNames_pathComponents (parentPathFrom path)
  have resolves := resolves_of_resolveDirSegments isParent
  have stands := standsFor_of_readFsDirData isData
  have updating := mapFailure_ok_iff.mp updating
  rw [plain] at updating
  obtain ⟨went, edited⟩ := updateDirTreeAndCommit_went genuine names isRoot
    (climbs_of_head names isRoot) resolves updating
  exact ⟨root, top, went, ⟨mapError_eq_ok_iff.mp valid, isRoot, entry, parentFsId,
    parentData.dirents, resolves, stands, okOr_eq_ok_iff.mp isEntry⟩, edited⟩

theorem deleteDirent_edits {entries : List (DirEntryData Oid)}
    (plain : PlainPath (parentPathFrom path)) (isRoot : resolveRootFsId before.repo = .ok root)
    (lists : DirAt before.repo.fsObjects (pathComponents (parentPathFrom path)) root entries)
    (run : Web.deleteDirent limits path email before = (.ok (), final)) :
    ∃ top, HeadWent before final root top ∧
      EditedAt final.repo.fsObjects (pureEdit (withoutName (basename path)))
        (pathComponents (parentPathFrom path)) root top := by
  obtain ⟨headCommitId, headed, heading, run⟩ := bind_ok_iff.mp run
  obtain ⟨head, found, finding, run⟩ := bind_ok_iff.mp run
  obtain ⟨parentFsId, resolved, resolving, run⟩ := bind_ok_iff.mp run
  obtain ⟨parentData, read, reading, run⟩ := bind_ok_iff.mp run
  obtain ⟨size, counted, counting, run⟩ := bind_ok_iff.mp run
  obtain ⟨_, trashed, trashing, run⟩ := bind_ok_iff.mp run
  obtain ⟨top, updated, updating, adjusting⟩ := bind_ok_iff.mp run
  obtain ⟨isHead, rfl⟩ := tryRead_ok_iff.mp heading
  obtain ⟨isFound, rfl⟩ := tryRead_ok_iff.mp finding
  obtain ⟨isParent, rfl⟩ := tryRead_ok_iff.mp (mapFailure_ok_iff.mp resolving)
  obtain ⟨-, rfl⟩ := readDir_ok (mapFailure_ok_iff.mp reading)
  cases counting
  have sameRepo : trashed.repo = before.repo := by
    rw [modify_run] at trashing
    obtain ⟨-, rfl⟩ := Prod.mk.inj trashing
    split
    · rfl
    · rfl
  have updating := mapFailure_ok_iff.mp updating
  have names := plainNames_pathComponents (parentPathFrom path)
  -- The root that is resolved from is that of HEAD.
  have isRoot' : resolveRootFsId before.repo = .ok head.rootId :=
    resolveRootFsId_eq_ok_iff.mpr ⟨headCommitId, head, okOr_eq_ok_iff.mp isHead,
      okOr_eq_ok_iff.mp isFound, rfl⟩
  obtain rfl : root = head.rootId := Except.ok.inj (isRoot.symm.trans isRoot')
  obtain ⟨dir, resolves, -⟩ := lists
  obtain rfl : dir = parentFsId := Except.ok.inj (resolves.resolveSegments.symm.trans isParent)
  rw [plain] at updating
  obtain ⟨went, edited⟩ := updateDirTreeAndCommit_went (sameRepo ▸ genuine) names
    (sameRepo ▸ isRoot) (climbs_of_head names (sameRepo ▸ isRoot)) (sameRepo ▸ resolves) updating
  have adjustment := adjustRepoSize_ok adjusting
  refine ⟨top, ⟨isRoot, ?_, ?_, ?_⟩, ?_⟩
  · rw [adjustment]
    exact went.isTop
  · rw [adjustment, ← sameRepo]
    exact went.grown
  · rw [adjustment]
    exact went.genuine
  · rw [adjustment]
    exact edited

def copyOf (entries : List (DirEntryData Oid)) (source : DirEntryData Oid) (email : String)
    (time : Int) : DirEntryData Oid :=
  { source with modifier := email, mtime := time, name := freshName entries source.name }

/-- What a copy of one entry checks before it writes. -/
structure Copies (repo : Repo Oid) (srcDir dstDir : String) (name : String) (root : Oid)
    (source : DirEntryData Oid) (entries : List (DirEntryData Oid)) : Prop where
  isRoot : resolveRootFsId repo = .ok root
  found : FoundAt repo.fsObjects (pathComponents srcDir) name root source
  lists : DirAt repo.fsObjects (pathComponents dstDir) root entries
  outside : ¬ (hasDirBit source.mode = true ∧ isSelfOrSubpath (joinPath srcDir name) dstDir = true)

theorem batchCopy_edits {srcDir dstDir name : String} {results : List BatchOpResult}
    (plainSrc : PlainPath srcDir) (plainDst : PlainPath dstDir)
    (run : batchCopy limits srcDir dstDir [name] email before = (.ok results, final)) :
    ∃ root top source entries time, HeadWent before final root top ∧
      Copies before.repo srcDir dstDir name root source entries ∧
      EditedAt final.repo.fsObjects (pureEdit (· ++ [copyOf entries source email time]))
        (pathComponents dstDir) root top := by
  obtain ⟨root, time, source, sourceData, newEntries, destination, chain, data, top, clocked, moved,
    isRoot, located, isBatch, outside, target, climbs, -, sameRepo, planned, isPlanned, moving,
    adjusting, -⟩ := batchCopy_ok (Or.inl plainSrc) (Or.inl plainDst) (List.cons_ne_nil name []) run
  -- The batch is the one entry.
  obtain ⟨rfl, -, isFound⟩ := batchEntries_eq isBatch
  obtain ⟨entry, isEntry, isNamed⟩ : ∃ entry, lookup sourceData name = some entry ∧
      namedEntries sourceData [name] = [entry] := by
    cases found : findEntry sourceData name with
    | none => simp [namedEntries, found] at isFound
    | some entry => exact ⟨entry, found, by simp [namedEntries, found]⟩
  rw [isNamed, List.map_singleton] at isPlanned outside
  have isName : entry.name = name := (lookup_eq_some isEntry).2
  rw [plainDst] at moving
  obtain ⟨went, edited⟩ := updateDirTreeAndCommit_went (sameRepo ▸ genuine)
    (plainNames_pathComponents dstDir) (sameRepo ▸ isRoot) (sameRepo ▸ climbs)
    (sameRepo ▸ target.resolves) moving
  have adjustment := adjustRepoSize_ok adjusting
  have grown : Table.Extends before.repo.fsObjects moved.repo.fsObjects := sameRepo ▸ went.grown
  refine ⟨root, top, entry, data.dirents, time, ⟨isRoot, ?_, ?_, ?_⟩,
    ⟨isRoot, ⟨source, sourceData, located.resolves, located.stands, isEntry⟩,
      ⟨destination, target.resolves, target.stands⟩, ?_⟩, ?_⟩
  · rw [adjustment]
    exact went.isTop
  · rw [adjustment]
    exact grown
  · rw [adjustment]
    exact went.genuine
  · rintro ⟨directory, inside⟩
    rw [ensureOutside, List.find?_singleton, isName, directory, inside] at outside
    cases outside
  · rw [adjustment]
    refine edited.congr (target.resolves.extends grown) (target.stands.extends grown) ?_
    have fresh : freshName data.dirents (freshName data.dirents entry.name) =
        freshName data.dirents entry.name := freshName_of_not_mem (freshName_not_mem _ _)
    simp only [isPlanned, List.map_singleton, planEntries, fresh]
    rfl

end

theorem genuine_applyTreeUpdate (parentPath : String) (parentFsId : Oid)
    (chain : AncestorChain Oid) (rootOverride : Option Oid)
    (updateFn : List (DirEntryData Oid) → List (DirEntryData Oid)) :
    Proc.Keeps (fun state : WebState Oid => Genuine state.repo.fsObjects)
      (applyTreeUpdate parentPath parentFsId chain rootOverride updateFn) :=
  fun state genuine => (storedMore_applyTreeUpdate parentPath parentFsId chain rootOverride updateFn
    state (storedMore_refl genuine)).genuine

theorem genuine_moveEntry (path newParentDir email : String) (isDirectory : Bool) :
    Proc.Keeps (fun state : WebState Oid => Genuine state.repo.fsObjects)
      (moveEntry path newParentDir email isDirectory) := by
  refine keeps_moveEntry (fun _ _ _ _ _ _ => genuine_applyTreeUpdate _ _ _ _ _)
    (fun _ genuine => genuine) (fun rootId creatorName description => ?_) _ _ _ _
  refine keeps_bind (fun _ genuine => genuine) fun ctime => ?_
  intro state genuine
  rwa [commitRoot_fsObjects]

theorem moveEntry_edits {newParentDir newPath : String} (genuine : Genuine before.repo.fsObjects)
    (plain : PlainPath path) (tree : HeadStored before.repo)
    (run : moveEntry path newParentDir email isDirectory before = (.ok newPath, final)) :
    ∃ root top newParentPath entry, HeadWent before final root top ∧
      safeNormalizePath newParentDir = .ok newParentPath ∧ entry.name = basename path ∧
      MoveSteps before.repo.fsObjects final.repo.fsObjects (pathComponents (parentPathFrom path))
        (pathComponents newParentPath) entry root top := by
  obtain ⟨-, newParentPath, entry, root, top, normal, -, isName, isRoot, isTop, steps⟩ :=
    moveEntry_steps genuine plain (fun root isRoot => tree root (headRootId_eq_ok_iff.mp isRoot)) run
  have kept := genuine_moveEntry path newParentDir email isDirectory before genuine
  rw [run] at kept
  exact ⟨root, top, newParentPath, entry, ⟨headRootId_eq_ok_iff.mp isRoot,
    headRootId_eq_ok_iff.mp isTop, steps.grown, kept⟩, normal, isName, steps⟩

end Nanofile
