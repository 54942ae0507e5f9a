import Nanofile.Service.EditedDirs
import Nanofile.Service.HeadCommits
import Nanofile.Service.UniqueRuns

/-!
# The directories that operations work on

An operation resolves its path in the tree of HEAD and edits the directory found there.  A
batch reads the empty path as the root; a move resolves its destination once more.
-/

set_option autoImplicit false

namespace Nanofile

open Nanofile.Lib

variable {Oid : Type} [DecidableEq Oid] [Digests Oid]

/-- A canonical path, or the empty one, which batches read as the root. -/
def RootedPath (path : String) : Prop := PlainPath path ∨ path = ""

instance (path : String) : Decidable (RootedPath path) := inferInstanceAs (Decidable (_ ∨ _))

/-- The path names the directory in the tree of a root. -/
structure Located (store : FsStore Oid) (root : Oid) (path : String) (parent : Oid)
    (entries : List (DirEntryData Oid)) : Prop where
  rooted : RootedPath path
  resolves : Resolves store (pathComponents path) root parent
  stands : StandsFor store parent entries

variable [ToString Oid] {path : String}

theorem RootedPath.resolve (rooted : RootedPath path) (store : FsStore Oid) (root : Oid) :
    resolveFsIdChainFromRoot store root path =
      resolveFsIdChainFromRoot store root (pathOf (pathComponents path)) := by
  rcases rooted with plain | rfl
  · exact congrArg _ plain
  · rfl

theorem RootedPath.update (rooted : RootedPath path) (parent : Oid) (chain : AncestorChain Oid)
    (rootOverride : Option Oid) (updateFn : List (DirEntryData Oid) → List (DirEntryData Oid)) :
    applyTreeUpdate path parent chain rootOverride updateFn =
      applyTreeUpdate (pathOf (pathComponents path)) parent chain rootOverride updateFn := by
  rcases rooted with plain | rfl
  · rw [← plain]
  · rfl

theorem RootedPath.updateAndCommit (rooted : RootedPath path) (parent : Oid)
    (modifier description : String) (chain : AncestorChain Oid)
    (updateFn : List (DirEntryData Oid) → List (DirEntryData Oid)) :
    updateDirTreeAndCommit path parent modifier description chain updateFn =
      updateDirTreeAndCommit (pathOf (pathComponents path)) parent modifier description chain
        updateFn := by
  rw [updateDirTreeAndCommit, rooted.update]
  rfl

theorem resolves_of_resolveDirSegments {store : FsStore Oid} :
    ∀ {parts : List String} {root fsId : Oid}, resolveDirSegments store parts root = .ok fsId →
      Resolves store parts root fsId := by
  intro parts
  induction parts with
  | nil =>
    intro root fsId run
    cases run
    rfl
  | cons name rest ih =>
    intro root fsId run
    simp only [resolveDirSegments, except_bind_ok_iff, okOr_eq_ok_iff, ensure_eq_ok_iff] at run
    obtain ⟨dir, read, entry, found, -, directory, below⟩ := run
    exact ⟨dir.dirents, entry, standsFor_of_readFsDirData read, found, directory, ih below⟩

theorem resolveParent_ok {context : String} {state after : WebState Oid} {parent : Oid}
    (run : resolveParent context path state = (.ok parent, after)) :
    state = after ∧ ∃ root, resolveRootFsId state.repo = .ok root ∧
      resolveDirFsId state.repo.fsObjects root path = .ok parent := by
  obtain ⟨root, read, reading, resolving⟩ := Proc.bind_ok_iff.mp run
  obtain ⟨isRoot, rfl⟩ := Proc.tryRead_ok_iff.mp reading
  obtain ⟨resolved, rfl⟩ := Proc.tryRead_ok_iff.mp (Proc.mapFailure_ok_iff.mp resolving)
  exact ⟨rfl, root, headRootId_eq_ok_iff.mp isRoot, resolved⟩

theorem readDir_ok {fsId : Oid} {state after : WebState Oid} {data : FsDirData Oid}
    (run : Web.readDir fsId state = (.ok data, after)) :
    readFsDirData state.repo.fsObjects fsId = .ok data ∧ state = after :=
  Proc.tryRead_ok_iff.mp run

omit [ToString Oid] in
theorem Honest.standsFor {store : FsStore Oid} {fsId : Oid} (honest : Honest store fsId) :
    ∃ entries, StandsFor store fsId entries := by
  by_cases isEmpty : fsId = emptySha1
  · exact ⟨[], Or.inl ⟨isEmpty, rfl⟩⟩
  · obtain ⟨data, read⟩ := honest.stored isEmpty
    exact ⟨data.dirents, Or.inr ⟨data, read, rfl⟩⟩

section Named

variable {entries : List (DirEntryData Oid)}

omit [DecidableEq Oid] [Digests Oid] [ToString Oid] in
theorem batchEntries_eq {email : String} {time : Int} :
    ∀ {names : List String} {batch : List (DirEntryData Oid)},
      batchEntries entries email time names = .ok batch →
      batch = (namedEntries entries names).map (fun entry =>
          { entry with modifier := email, mtime := time }) ∧
        batch.map DirEntryData.name = names ∧
        names.map (lookup entries) = (namedEntries entries names).map some := by
  intro names
  induction names with
  | nil =>
    intro batch run
    cases run
    exact ⟨rfl, rfl, rfl⟩
  | cons name rest ih =>
    intro batch run
    rw [batchEntries, List.mapM_cons] at run
    obtain ⟨first, isFirst, run⟩ := except_bind_ok_iff.mp run
    obtain ⟨others, isRest, run⟩ := except_bind_ok_iff.mp run
    obtain ⟨entry, found, same⟩ := except_bind_ok_iff.mp isFirst
    cases same
    cases run
    have found : findEntry entries name = some entry := okOr_eq_ok_iff.mp found
    have here : namedEntries entries (name :: rest) = entry :: namedEntries entries rest := by
      simp [namedEntries, found]
    obtain ⟨rfl, names, isFound⟩ := ih isRest
    refine ⟨by simp [here], ?_, ?_⟩
    · rw [List.map_cons, names]
      congr 1
      simpa using List.find?_some found
    · rw [here, List.map_cons, List.map_cons, isFound]
      congr 1

end Named

def headDir (repo : Repo Oid) (path : String) : Except AppError (FsDirData Oid) := do
  let parent ← resolveFsIdChain repo path
  readFsDirData repo.fsObjects parent.1

theorem located_of_chain {repo : Repo Oid} {parent : Oid × AncestorChain Oid} {data : FsDirData Oid}
    (rooted : RootedPath path) (resolved : resolveFsIdChain repo path = .ok parent)
    (read : readFsDirData repo.fsObjects parent.1 = .ok data) :
    ∃ root, resolveRootFsId repo = .ok root ∧
      Located repo.fsObjects root path parent.1 data.dirents ∧
      Climbs repo none parent.2 root (pathComponents path) ∧ headDir repo path = .ok data := by
  obtain ⟨root, isRoot, fromRoot⟩ := except_bind_ok_iff.mp resolved
  have names := plainNames_pathComponents path
  have text := fromRoot
  rw [rooted.resolve] at text
  exact ⟨root, isRoot,
    ⟨rooted, resolves_of_resolveFsIdChainFromRoot names text, standsFor_of_readFsDirData read⟩,
    climbs_of_chain names (Or.inr ⟨rfl, isRoot⟩) text, except_bind_ok_iff.mpr ⟨parent, resolved, read⟩⟩

/-- What a batch copy that succeeds has read, and the two writes it ends with. -/
theorem batchCopy_ok {limits : Limits} {srcDir dstDir email : String} {fileNames : List String}
    {before final : WebState Oid} {results : List BatchOpResult} (rootedSrc : RootedPath srcDir)
    (rootedDst : RootedPath dstDir) (some : fileNames ≠ [])
    (run : batchCopy limits srcDir dstDir fileNames email before = (.ok results, final)) :
    ∃ root time source sourceData newEntries destination chain data top clocked moved,
      resolveRootFsId before.repo = .ok root ∧
      Located before.repo.fsObjects root srcDir source sourceData ∧
      batchEntries sourceData email time fileNames = .ok newEntries ∧
      ensureOutside "copy" srcDir dstDir newEntries = .ok () ∧
      Located before.repo.fsObjects root dstDir destination data.dirents ∧
      Climbs before.repo none chain root (pathComponents dstDir) ∧
      headDir before.repo dstDir = .ok data ∧ clocked.repo = before.repo ∧
      ∃ planned, planned = newEntries.map (fun entry =>
          { entry with name := freshName data.dirents entry.name }) ∧
        updateDirTreeAndCommit dstDir destination email
          (batchDescription "Added" "files" planned) chain
          (fun dirents => dirents ++ planEntries dirents planned) clocked = (.ok top, moved) ∧
        adjustRepoSize limits (planned.map DirEntryData.size).sum moved = (.ok (), final) ∧
        results = batchResults final.repo.id dstDir planned := by
  unfold batchCopy at run
  rw [if_neg some] at run
  obtain ⟨source, sourced, sourcing, run⟩ := Proc.bind_ok_iff.mp run
  obtain ⟨sourceData, read, reading, run⟩ := Proc.bind_ok_iff.mp run
  obtain ⟨time, clocked, tick, run⟩ := Proc.bind_ok_iff.mp run
  obtain ⟨newEntries, listed, listing, run⟩ := Proc.bind_ok_iff.mp run
  obtain ⟨destination, resolved, resolving, run⟩ := Proc.bind_ok_iff.mp run
  obtain ⟨_, checked, checking, run⟩ := Proc.bind_ok_iff.mp run
  obtain ⟨data, readDst, readingDst, run⟩ := Proc.bind_ok_iff.mp run
  obtain ⟨top, moved, moving, run⟩ := Proc.bind_ok_iff.mp run
  obtain ⟨_, adjusted, adjusting, done⟩ := Proc.bind_ok_iff.mp run
  obtain ⟨isSource, rfl⟩ := Proc.tryRead_ok_iff.mp sourcing
  obtain ⟨isSourceData, rfl⟩ := readDir_ok (Proc.mapFailure_ok_iff.mp reading)
  obtain ⟨isBatch, rfl⟩ := Proc.tryRead_ok_iff.mp listing
  obtain ⟨isDestination, rfl⟩ := Proc.tryRead_ok_iff.mp resolving
  obtain ⟨outside, rfl⟩ := Proc.tryRead_ok_iff.mp checking
  obtain ⟨isData, rfl⟩ := readDir_ok (Proc.mapFailure_ok_iff.mp readingDst)
  cases done
  have sameRepo : clocked.repo = before.repo := by
    cases tick
    rfl
  rw [sameRepo] at isDestination isData
  obtain ⟨root, isRoot, located, -, -⟩ := located_of_chain rootedSrc isSource isSourceData
  obtain ⟨root', isRoot', target, climbs, isDir⟩ :=
    located_of_chain rootedDst isDestination isData
  obtain rfl : root = root' := Except.ok.inj (isRoot.symm.trans isRoot')
  exact ⟨root, time, source.1, sourceData.dirents, newEntries, destination.1, destination.2, data, top,
    clocked, moved, isRoot, located, isBatch, outside, target, climbs, isDir, sameRepo, _, rfl,
    Proc.mapFailure_ok_iff.mp moving, adjusting, rfl⟩

def moveDestination (repo : Repo Oid) (newParentPath : String) :
    Except AppError (FsDirData Oid) := do
  let headRoot ← headRootId repo
  let newParentFsId ← resolveDirFsId repo.fsObjects headRoot newParentPath
  readFsDirData repo.fsObjects newParentFsId

/-- Another directory, which the entry is moved to, has its name. -/
def moveTaken (repo : Repo Oid) (path newParentDir : String) : Bool :=
  match safeNormalizePath newParentDir with
  | .error _ => false
  | .ok newParentPath =>
    newParentPath ≠ parentPathFrom path &&
      match moveDestination repo newParentPath with
      | .error _ => false
      | .ok data => data.dirents.any fun entry => entry.name = basename path

omit [DecidableEq Oid] [Digests Oid] [ToString Oid] in
theorem pushUnlessNamed_of_free {entry : DirEntryData Oid} {entries : List (DirEntryData Oid)}
    (free : entry.name ∉ entries.map DirEntryData.name) :
    pushUnlessNamed entry entries = entries ++ [entry] := by
  rw [pushUnlessNamed, if_neg fun taken => free (any_name_iff.mp taken)]

end Nanofile
