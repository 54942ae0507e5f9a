import Nanofile.Service.FreshCommits

/-!
# Operations that go through

An operation whose checks pass goes through on a stored tree with unique commit ids, and one
that fails leaves HEAD alone; only a size that cannot be counted fails after the commit.
-/

set_option autoImplicit false

namespace Nanofile

open Nanofile.Lib Nanofile.Lib.Proc

attribute [local irreducible] pathComponents

variable {Oid : Type} [DecidableEq Oid] [Digests Oid] [ToString Oid] {limits : Limits}
  {roots : List Oid} {before final : WebState Oid} {root : Oid}
  {outcome : Except AppError Oid}

/-- An edit whose result is no root of these, or the root it started from. -/
def NewRoot (store : FsStore Oid) (updateFn : List (DirEntryData Oid) → List (DirEntryData Oid))
    (parts : List String) (root : Oid) (roots : List Oid) : Prop :=
  ∀ {after : FsStore Oid} {top : Oid}, Table.Extends store after →
    EditedAt after (pureEdit updateFn) parts root top → top ∈ roots → top = root

variable {path : String}

theorem resolveParent_runs {context : String} {dir : Oid}
    (isRoot : resolveRootFsId before.repo = .ok root)
    (resolves : Resolves before.repo.fsObjects (pathComponents path) root dir) :
    resolveParent context path before = (.ok dir, before) :=
  bind_ok_iff.mpr ⟨root, before, tryRead_ok_iff.mpr ⟨headRootId_eq_ok_iff.mpr isRoot, rfl⟩,
    mapFailure_ok_iff.mpr (tryRead_ok_iff.mpr ⟨resolves.resolveDirSegments, rfl⟩)⟩

/-! ## Renaming -/

variable {entries : List (DirEntryData Oid)} {isDirectory : Bool} {modifier newName : String}

theorem renameEntry_runs (genuine : Genuine before.repo.fsObjects)
    (plain : PlainPath (parentPathFrom path)) (isRoot : resolveRootFsId before.repo = .ok root)
    (lists : DirAt before.repo.fsObjects (pathComponents (parentPathFrom path)) root entries)
    (listed : basename path ∈ entries.map DirEntryData.name)
    (valid : validateFilename newName = .ok ()) (past : CommitsPast roots before)
    (isNew : NewRoot before.repo.fsObjects (renameFirst (basename path) newName)
      (pathComponents (parentPathFrom path)) root roots) :
    ∃ final, renameEntry path newName modifier isDirectory before = (.ok (), final) := by
  obtain ⟨dir, resolves, stands⟩ := lists
  obtain ⟨data, read, rfl⟩ := stands.read
  obtain ⟨entry, isEntry⟩ := exists_lookup_iff.mpr listed
  have names := plainNames_pathComponents (parentPathFrom path)
  obtain ⟨top, final, updating, -⟩ := updateDirTreeAndCommit_runs genuine names isRoot
    (climbs_of_head names isRoot) resolves stands past isNew modifier
    ((if isDirectory then "Renamed directory " else "Renamed ") ++ basename path)
  rw [← plain] at updating
  refine ⟨final, bind_ok_iff.mpr ⟨(), before, tryRead_ok_iff.mpr ⟨?_, rfl⟩,
    bind_ok_iff.mpr ⟨dir, before, resolveParent_runs isRoot resolves,
    bind_ok_iff.mpr ⟨data, before, mapFailure_ok_iff.mpr
      (tryRead_ok_iff.mpr ⟨read, rfl⟩),
    bind_ok_iff.mpr ⟨entry, before, tryRead_ok_iff.mpr ⟨okOr_eq_ok_iff.mpr isEntry, rfl⟩,
    bind_ok_iff.mpr ⟨top, final, mapFailure_ok_iff.mpr updating, rfl⟩⟩⟩⟩⟩⟩
  exact mapError_eq_ok_iff.mpr valid

theorem headIs_renameEntry (path newName modifier : String) (isDirectory : Bool) :
    Proc.KeepsFailing (HeadIs outcome) (renameEntry path newName modifier isDirectory) := by
  refine keepsFailing_bind (keeps_tryRead _ _) fun _ => ?_
  refine keepsFailing_bind (keeps_bind (keeps_tryRead _ _) fun _ =>
    keeps_mapFailure (keeps_tryRead _ _)) fun parentFsId => ?_
  refine keepsFailing_bind (keeps_mapFailure (keeps_tryRead _ _)) fun parentData => ?_
  refine keepsFailing_bind (keeps_tryRead _ _) fun _ => ?_
  exact keepsFailing_bind_total (keepsFailing_mapFailure
    (headIs_updateDirTreeAndCommit _ _ _ _ _ _)) fun _ state => ⟨(), state, rfl⟩

theorem renameEntry_valid
    (run : renameEntry path newName modifier isDirectory before = (.ok (), final)) :
    validateFilename newName = .ok () := by
  obtain ⟨_, checked, checking, -⟩ := bind_ok_iff.mp run
  obtain ⟨valid, -⟩ := tryRead_ok_iff.mp checking
  exact mapError_eq_ok_iff.mp valid

/-! ## Deleting -/

omit [ToString Oid] in
theorem adjustRepoSize_runs {delta : Int}
    (counts : before.repo.size = 0 → ∃ size, computeRepoSize limits before.repo = .ok size) :
    ∃ final, adjustRepoSize limits delta before = (.ok (), final) := by
  unfold adjustRepoSize
  split
  · rename_i uncounted
    obtain ⟨size, counted⟩ := counts uncounted
    rw [counted]
    exact ⟨_, rfl⟩
  · exact ⟨_, rfl⟩

/-- The size of the library is counted within the limits once the directory is edited. -/
def CountsEdited (limits : Limits) (store : FsStore Oid)
    (updateFn : List (DirEntryData Oid) → List (DirEntryData Oid)) (parts : List String)
    (root : Oid) : Prop :=
  ∀ {after : FsStore Oid} {top : Oid}, Table.Extends store after →
    EditedAt after (pureEdit updateFn) parts root top →
    ∃ size, computeTreeSize limits after top = .ok size

theorem updateAndAdjust_runs {parts : List String} {parent : Oid} {chain : AncestorChain Oid}
    {updateFn : List (DirEntryData Oid) → List (DirEntryData Oid)}
    (genuine : Genuine before.repo.fsObjects) (plain : PlainNames parts)
    (isRoot : resolveRootFsId before.repo = .ok root)
    (climbs : Climbs before.repo none chain root parts)
    (resolves : Resolves before.repo.fsObjects parts root parent)
    (stands : StandsFor before.repo.fsObjects parent entries) (past : CommitsPast roots before)
    (isNew : NewRoot before.repo.fsObjects updateFn parts root roots)
    (counts : before.repo.size = 0 → CountsEdited limits before.repo.fsObjects updateFn parts root)
    (modifier description : String) (delta : Int) :
    ∃ top updated final, updateDirTreeAndCommit (pathOf parts) parent modifier description chain
      updateFn before = (.ok top, updated) ∧ adjustRepoSize limits delta updated = (.ok (), final) ∧
      HeadWent before final root top ∧ EditedAt final.repo.fsObjects (pureEdit updateFn) parts root top ∧
      CommitsPast (top :: roots) final := by
  obtain ⟨top, updated, updating, past⟩ := updateDirTreeAndCommit_runs genuine plain isRoot climbs
    resolves stands past isNew modifier description
  obtain ⟨went, edited⟩ := updateDirTreeAndCommit_went genuine plain isRoot climbs resolves updating
  obtain ⟨-, sameSize⟩ := updateDirTreeAndCommit_read genuine updating
  obtain ⟨final, adjusting⟩ : ∃ final, adjustRepoSize limits delta updated = (.ok (), final) := by
    refine adjustRepoSize_runs fun uncounted => ?_
    rw [computeRepoSize_of_root went.isTop]
    exact counts (sameSize ▸ uncounted) went.grown edited
  refine ⟨top, updated, final, updating, adjusting, ?_, ?_, ?_⟩
  · rw [adjustRepoSize_ok adjusting]
    exact ⟨went.isRoot, went.isTop, went.grown, went.genuine⟩
  · rw [adjustRepoSize_ok adjusting]
    exact edited
  · rw [adjustRepoSize_ok adjusting]
    exact past.of_commits rfl fun count => ⟨count, rfl⟩

variable {email : String}

theorem deleteDirent_runs (genuine : Genuine before.repo.fsObjects)
    (plain : PlainPath (parentPathFrom path)) (isRoot : resolveRootFsId before.repo = .ok root)
    (lists : DirAt before.repo.fsObjects (pathComponents (parentPathFrom path)) root entries)
    (past : CommitsPast roots before)
    (isNew : NewRoot before.repo.fsObjects (withoutName (basename path))
      (pathComponents (parentPathFrom path)) root roots)
    (counts : before.repo.size = 0 → CountsEdited limits before.repo.fsObjects
      (withoutName (basename path)) (pathComponents (parentPathFrom path)) root) :
    ∃ top final, Web.deleteDirent limits path email before = (.ok (), final) ∧
      resolveRootFsId final.repo = .ok top ∧ CommitsPast (top :: roots) final := by
  obtain ⟨dir, resolves, stands⟩ := lists
  obtain ⟨data, read, rfl⟩ := stands.read
  obtain ⟨headId, head, isId, found, rfl⟩ := resolveRootFsId_eq_ok_iff.mp isRoot
  have names := plainNames_pathComponents (parentPathFrom path)
  -- The trash is no part of the library.
  obtain ⟨trashed, isTrashed⟩ : ∃ trashed : WebState Oid, trashed =
      ((findEntry data.dirents (basename path)).map fun entry =>
        { before with trash := addToTrash headId path entry before.trash }).getD before := ⟨_, rfl⟩
  have sameRepo : trashed.repo = before.repo := by
    rw [isTrashed]
    cases findEntry data.dirents (basename path) <;> rfl
  have sameClock : trashed.clock = before.clock := by
    rw [isTrashed]
    cases findEntry data.dirents (basename path) <;> rfl
  rw [← sameRepo] at genuine isRoot resolves stands isNew counts
  have past : CommitsPast roots trashed :=
    past.of_commits (by rw [sameRepo]) fun count => ⟨count, by rw [sameClock]⟩
  obtain ⟨top, updated, final, updating, adjusting, went, -, past⟩ := updateAndAdjust_runs genuine
    names isRoot (climbs_of_head names isRoot) resolves stands past isNew counts email
    ("Deleted " ++ basename path)
    (-(countNamed limits before.repo.fsObjects data.dirents (basename path)).toOption.getD 0)
  rw [← plain] at updating
  refine ⟨top, final, bind_ok_iff.mpr ⟨headId, before,
      tryRead_ok_iff.mpr ⟨okOr_eq_ok_iff.mpr isId, rfl⟩,
    bind_ok_iff.mpr ⟨head, before, tryRead_ok_iff.mpr ⟨okOr_eq_ok_iff.mpr found, rfl⟩,
    bind_ok_iff.mpr ⟨dir, before, mapFailure_ok_iff.mpr
      (tryRead_ok_iff.mpr ⟨?_, rfl⟩),
    bind_ok_iff.mpr ⟨data, before, mapFailure_ok_iff.mpr
      (tryRead_ok_iff.mpr ⟨read, rfl⟩),
    bind_ok_iff.mpr ⟨_, before, rfl,
    bind_ok_iff.mpr ⟨⟨⟩, trashed, ?_,
    bind_ok_iff.mpr ⟨top, updated, mapFailure_ok_iff.mpr updating, adjusting⟩⟩⟩⟩⟩⟩⟩,
    went.isTop, past⟩
  · rw [sameRepo] at resolves
    exact resolves.resolveSegments
  · rw [isTrashed, modify_run]
    cases findEntry data.dirents (basename path) <;> rfl

omit [ToString Oid] in
theorem clock_commitRoot (change : String) (top : Oid)
    (creatorName description : String) (ctime : Int) (state : WebState Oid) :
    (commitRoot change top creatorName description ctime state).2.clock = state.clock := by
  unfold commitRoot
  split
  · rfl
  · dsimp only
    split
    · rfl
    · split
      · rfl
      · rfl

theorem clockFrom_deleteDirent {start : Nat → Int} (path email : String) :
    Proc.Keeps (ClockFrom start) (Web.deleteDirent limits path email : Web Oid Unit) := by
  refine keeps_bind (keeps_tryRead _ _) fun headCommitId => ?_
  refine keeps_bind (keeps_tryRead _ _) fun head => ?_
  refine keeps_bind (keeps_mapFailure (keeps_tryRead _ _)) fun parentFsId => ?_
  refine keeps_bind (keeps_mapFailure (keeps_tryRead _ _)) fun parentData => ?_
  refine keeps_bind (keeps_read _ _) fun deletedSize => ?_
  refine keeps_bind ?_ fun _ => keeps_bind (keeps_mapFailure
    (keeps_bind (clockFrom_applyTreeUpdate _ _ _ _ _) fun top => keeps_bind
      (keeps_bind clockFrom_now fun ctime => ?_) fun _ => keeps_pure _ _)) fun _ => ?_
  · intro state shows
    rw [modify_run]
    split
    · exact shows
    · exact shows
  · intro state shows
    rw [ClockFrom, clock_commitRoot]
    exact shows
  · intro state shows
    unfold adjustRepoSize
    split
    · split
      · exact shows
      · exact shows
    · exact shows

/-! ## Copying -/

variable {store : FsStore Oid}

theorem DirAt.resolveFsIdChainFromRoot (plain : PlainPath path)
    (lists : DirAt store (pathComponents path) root entries) :
    ∃ found, resolveFsIdChainFromRoot store root path = .ok found ∧
      Resolves store (pathComponents path) root found.1 ∧ StandsFor store found.1 entries := by
  obtain ⟨dir, resolves, stands⟩ := lists
  have nonempty : path ≠ "" := by
    intro isEmpty
    rw [PlainPath, isEmpty] at plain
    exact absurd plain (by decide +kernel)
  by_cases atRoot : path = "/"
  · have isNil : pathComponents path = [] := by
      rw [atRoot]
      decide +kernel
    refine ⟨(root, []), if_pos (Or.inl atRoot), ?_, ?_⟩
    · rw [isNil]
      rfl
    · rw [isNil] at resolves
      obtain rfl : root = dir := resolves
      exact stands
  · obtain ⟨chain, resolved⟩ : ∃ chain, resolveParts store path (pathComponents path) "" root =
        .ok (dir, chain) := resolves.resolveParts
    exact ⟨(dir, chain), (if_neg (by simp [atRoot, nonempty])).trans resolved, resolves, stands⟩

omit [DecidableEq Oid] [Digests Oid] [ToString Oid] in
theorem planEntries_copyOf (entries : List (DirEntryData Oid)) (source : DirEntryData Oid)
    (email : String) (time : Int) :
    planEntries entries [copyOf entries source email time] = [copyOf entries source email time] := by
  simp only [planEntries, copyOf, freshName_of_not_mem (freshName_not_mem entries source.name)]

variable {name : String} {dstDir srcDir : String}

theorem batchCopy_runs {source : DirEntryData Oid} (genuine : Genuine before.repo.fsObjects)
    (plainSrc : PlainPath srcDir) (plainDst : PlainPath dstDir)
    (copies : Copies before.repo srcDir dstDir name root source entries)
    (past : CommitsPast roots before)
    (isNew : ∀ time, NewRoot before.repo.fsObjects (· ++ [copyOf entries source email time])
      (pathComponents dstDir) root roots)
    (counts : before.repo.size = 0 → ∀ time, CountsEdited limits before.repo.fsObjects
      (· ++ [copyOf entries source email time]) (pathComponents dstDir) root) :
    ∃ results top final, batchCopy limits srcDir dstDir [name] email before =
      (.ok results, final) ∧ HeadWent before final root top ∧
      EditedAt final.repo.fsObjects (pureEdit (· ++ [copyOf entries source email (before.clock 0)]))
        (pathComponents dstDir) root top ∧ CommitsPast (top :: roots) final := by
  obtain ⟨sourceEntries, listsSource, isEntry⟩ := copies.found.dirAt
  obtain ⟨parent, resolvedSource, -, standsSource⟩ := listsSource.resolveFsIdChainFromRoot plainSrc
  obtain ⟨found, resolved, resolves, stands⟩ := copies.lists.resolveFsIdChainFromRoot plainDst
  obtain ⟨sourceData, readSource, rfl⟩ := standsSource.read
  obtain ⟨data, read, rfl⟩ := stands.read
  have isName : source.name = name := (lookup_eq_some isEntry).2
  have names := plainNames_pathComponents dstDir
  -- Only the clock is read before the commit.
  obtain ⟨clocked, tick⟩ : ∃ clocked, Web.now before = (.ok (before.clock 0), clocked) := ⟨_, rfl⟩
  obtain ⟨time, isTime⟩ : ∃ time, time = before.clock 0 := ⟨_, rfl⟩
  rw [← isTime] at tick ⊢
  have pastAfter := commitsPast_now before past
  rw [tick] at pastAfter
  have sameRepo : clocked.repo = before.repo := by
    cases tick
    rfl
  rw [← sameRepo] at genuine resolved resolves resolvedSource stands isNew counts
  have isRoot : resolveRootFsId clocked.repo = .ok root := sameRepo ▸ copies.isRoot
  obtain ⟨added, isAdded⟩ : ∃ added, added = copyOf data.dirents source email time := ⟨_, rfl⟩
  have congr : ∀ {after : FsStore Oid} {top : Oid}, Table.Extends clocked.repo.fsObjects after →
      EditedAt after (pureEdit fun dirents => dirents ++ planEntries dirents [added])
        (pathComponents dstDir) root top →
      EditedAt after (pureEdit (· ++ [added])) (pathComponents dstDir) root top := by
    intro after top grown edited
    refine edited.congr (resolves.extends grown) (stands.extends grown) ?_
    rw [isAdded, planEntries_copyOf]
  obtain ⟨top, updated, final, updating, adjusting, went, edited, past⟩ := updateAndAdjust_runs genuine
    names isRoot (climbs_of_chain names (Or.inr ⟨rfl, isRoot⟩) (plainDst ▸ resolved)) resolves stands
    pastAfter (fun grown edited => isNew time grown (isAdded ▸ congr grown edited))
    (fun uncounted _ _ grown edited =>
      counts (sameRepo ▸ uncounted) time grown (isAdded ▸ congr grown edited)) email
    (batchDescription "Added" "files" [added]) ([added].map DirEntryData.size).sum
  rw [← plainDst] at updating
  subst isAdded
  refine ⟨batchResults final.repo.id dstDir [copyOf data.dirents source email time], top, final, ?_,
    ⟨copies.isRoot, went.isTop, sameRepo ▸ went.grown, went.genuine⟩, congr went.grown edited, past⟩
  unfold batchCopy
  rw [if_neg (List.cons_ne_nil name [])]
  refine bind_ok_iff.mpr ⟨parent, before, tryRead_ok_iff.mpr
      ⟨except_bind_ok_iff.mpr ⟨root, copies.isRoot, sameRepo ▸ resolvedSource⟩, rfl⟩,
    bind_ok_iff.mpr ⟨sourceData, before, mapFailure_ok_iff.mpr
      (tryRead_ok_iff.mpr ⟨readSource, rfl⟩),
    bind_ok_iff.mpr ⟨time, clocked, tick,
    bind_ok_iff.mpr ⟨[{ source with modifier := email, mtime := time }], clocked,
      tryRead_ok_iff.mpr ⟨?_, rfl⟩,
    bind_ok_iff.mpr ⟨found, clocked, tryRead_ok_iff.mpr
      ⟨except_bind_ok_iff.mpr ⟨root, isRoot, resolved⟩, rfl⟩,
    bind_ok_iff.mpr ⟨(), clocked, tryRead_ok_iff.mpr ⟨?_, rfl⟩,
    bind_ok_iff.mpr ⟨data, clocked, mapFailure_ok_iff.mpr
      (tryRead_ok_iff.mpr ⟨sameRepo ▸ read, rfl⟩),
    bind_ok_iff.mpr ⟨top, updated, mapFailure_ok_iff.mpr updating,
    bind_ok_iff.mpr ⟨(), final, adjusting, rfl⟩⟩⟩⟩⟩⟩⟩⟩⟩
  · have isFound : findEntry sourceData.dirents name = some source := isEntry
    simp [batchEntries, isFound, okOr, bind, Except.bind, pure, Except.pure]
  · rw [ensureOutside, List.find?_singleton, isName]
    have outside : (hasDirBit source.mode && isSelfOrSubpath (joinPath srcDir name) dstDir) = false := by
      simpa using copies.outside
    simp [outside]

theorem batchCopy_missing {failure : AppError} (plainSrc : PlainPath srcDir)
    (isHead : HeadIs outcome before)
    (missing : ∀ root entry, resolveRootFsId before.repo = .ok root →
      ¬ FoundAt before.repo.fsObjects (pathComponents srcDir) name root entry)
    (run : batchCopy limits srcDir dstDir [name] email before = (.error failure, final)) :
    HeadIs outcome final := by
  unfold batchCopy at run
  rw [if_neg (List.cons_ne_nil name [])] at run
  rcases bind_error_iff.mp run with failed | ⟨source, sourced, sourcing, run⟩
  · obtain ⟨-, rfl⟩ := tryRead_error_iff.mp failed
    exact isHead
  obtain ⟨isSource, rfl⟩ := tryRead_ok_iff.mp sourcing
  rcases bind_error_iff.mp run with failed | ⟨sourceData, read, reading, run⟩
  · obtain ⟨cause, failed, -⟩ := mapFailure_error_iff.mp failed
    obtain ⟨-, rfl⟩ := tryRead_error_iff.mp failed
    exact isHead
  obtain ⟨isSourceData, rfl⟩ := readDir_ok (mapFailure_ok_iff.mp reading)
  rcases bind_error_iff.mp run with failed | ⟨time, clocked, tick, run⟩
  · cases failed
  rcases bind_error_iff.mp run with failed | ⟨newEntries, listed, listing, run⟩
  · obtain ⟨-, rfl⟩ := tryRead_error_iff.mp failed
    cases tick
    exact isHead
  obtain ⟨isBatch, -⟩ := tryRead_ok_iff.mp listing
  obtain ⟨root, isRoot, located, -, -⟩ := located_of_chain (Or.inl plainSrc) isSource isSourceData
  rw [batchEntries, List.mapM_cons] at isBatch
  obtain ⟨first, isFirst, -⟩ := except_bind_ok_iff.mp isBatch
  obtain ⟨entry, found, -⟩ := except_bind_ok_iff.mp isFirst
  exact absurd ⟨_, _, located.resolves, located.stands, okOr_eq_ok_iff.mp found⟩
    (missing root entry isRoot)

/-! ## Moving -/

omit [DecidableEq Oid] [Digests Oid] [ToString Oid] in
@[simp] theorem written_mtime (entry : DirEntryData Oid) : entry.written.mtime = entry.mtime := by
  unfold DirEntryData.written
  split
  · rfl
  · rfl

variable {listed : List (DirEntryData Oid)}

omit [ToString Oid] in
/-- What is moved is found where it goes to, unless its name is taken there: then it is gone. -/
theorem EditedAt.moved_or_gone {parent target : List String} {middle top : Oid}
    {moved : DirEntryData Oid}
    (left : EditedAt store (pureEdit (withoutName name)) parent root middle)
    (lists : DirAt store parent root entries) (listsTarget : DirAt store target middle listed)
    (isName : moved.name = name)
    (arrived : EditedAt store (pureEdit (pushUnlessNamed moved)) target middle top) :
    FoundAt store target name top moved.written ∨ ∀ gone, ¬ FoundAt store parent name top gone := by
  subst isName
  have listsLeft := left.dirAt lists
  have absent : moved.name ∉ (stored (withoutName moved.name entries)).map DirEntryData.name := by
    rw [(names_stored _).mem_iff]
    exact not_mem_names_withoutName _ _
  by_cases taken : moved.name ∈ listed.map DirEntryData.name
  · have apart : parent ≠ target := by
      rintro rfl
      exact absent (listsLeft.eq listsTarget ▸ taken)
    obtain ⟨entries', lists', names⟩ := arrived.dirAt_other apart
      (fun name _ => keepsFound_pushUnlessNamed moved name) listsLeft
    exact Or.inr fun gone found =>
      absent (names.mem_iff.mp (lists'.exists_found_iff.mp ⟨gone, found⟩))
  · refine Or.inl ((arrived.dirAt listsTarget).found_iff.mpr ?_)
    rw [pushUnlessNamed_of_not_mem taken, lookup_in_stored,
      lookup_concat (lookup_eq_none_iff.mpr taken)]
    rfl

variable {newParentDir : String}

theorem moveEntry_runs {newParentPath : String} {entry : DirEntryData Oid}
    (genuine : Genuine before.repo.fsObjects) (plain : PlainPath path) (below : path ≠ "/")
    (isRoot : resolveRootFsId before.repo = .ok root)
    (source : FoundAt before.repo.fsObjects (pathComponents (parentPathFrom path)) (basename path)
      root entry) (normal : safeNormalizePath newParentDir = .ok newParentPath)
    (outside : ¬ isSelfOrSubpath path newParentPath)
    (lists : DirAt before.repo.fsObjects (pathComponents newParentPath) root listed)
    (past : CommitsPast roots before)
    (isNew : ∀ {after : FsStore Oid} {top : Oid}, MoveSteps before.repo.fsObjects after
      (pathComponents (parentPathFrom path)) (pathComponents newParentPath) entry root top →
      top ∈ roots → top = root) :
    ∃ newPath top final, moveEntry path newParentDir email isDirectory before =
      (.ok newPath, final) ∧ HeadWent before final root top ∧
      MoveSteps before.repo.fsObjects final.repo.fsObjects (pathComponents (parentPathFrom path))
        (pathComponents newParentPath) entry root top ∧
      ((∃ moved count, FoundAt final.repo.fsObjects (pathComponents newParentPath) (basename path)
          top moved ∧ moved.mtime = before.clock count) ∨
        ∀ gone, ¬ FoundAt final.repo.fsObjects (pathComponents (parentPathFrom path)) (basename path)
          top gone) ∧
      CommitsPast (top :: roots) final := by
  obtain ⟨plainParent, cut⟩ := pathComponents_eq_of_plain plain below
  have newPlain := plainPath_of_safeNormalizePath normal
  have names := plainNames_pathComponents (parentPathFrom path)
  have newNames := plainNames_pathComponents newParentPath
  obtain ⟨sourceEntries, ⟨oldParent, resolves, stands⟩, isEntry⟩ := source.dirAt
  obtain ⟨newParent, resolvesNew, standsNew⟩ := lists
  obtain ⟨oldData, read, rfl⟩ := stands.read
  have isName : entry.name = basename path := (lookup_eq_some isEntry).2
  have apart : ¬ pathComponents (parentPathFrom path) ++ [basename path] <+:
      pathComponents newParentPath := by
    rw [plain, newPlain, cut] at outside
    exact not_below_of_not_subpath (cut ▸ plainNames_pathComponents path) outside
  -- The entry leaves its directory.
  obtain ⟨middle, removed, alone⟩ : ∃ middle removed, ∀ chain,
      Climbs before.repo none chain root (pathComponents (parentPathFrom path)) →
      applyTreeUpdate (pathOf (pathComponents (parentPathFrom path))) oldParent chain none
        (withoutName (basename path)) before = (.ok middle, removed) :=
    applyTreeUpdate_alone genuine names resolves stands _
  have removing := alone [] (climbs_of_head names isRoot)
  obtain ⟨more, left⟩ :=
    applyTreeUpdate_edited genuine names (climbs_of_head names isRoot) resolves removing
  have pastRemoved := past.updated removing
  obtain ⟨count, isLater⟩ : ∃ count, removed.clock 0 = before.clock count := by
    have shows : ClockFrom before.clock _ := clockFrom_applyTreeUpdate (pathOf (pathComponents
      (parentPathFrom path))) oldParent [] none (withoutName (basename path)) before
        (clockFrom_self before)
    rw [removing] at shows
    exact shows 0
  rw [← plainParent] at removing
  -- It arrives in the tree without it.
  obtain ⟨between, entries, resolvesMiddle, standsMiddle, -⟩ :=
    left.destination apart (resolvesNew.extends more.objects) (standsNew.extends more.objects)
  obtain ⟨destination, resolved, resolvesThere, standsThere⟩ :=
    DirAt.resolveFsIdChainFromRoot newPlain ⟨between, resolvesMiddle, standsMiddle⟩
  obtain ⟨time, clocked, tick, isTime⟩ : ∃ time clocked, Web.now removed = (.ok time, clocked) ∧
      time = removed.clock 0 := ⟨_, _, rfl, rfl⟩
  have ticking := storedMore_now more.genuine tick
  have pastClocked := commitsPast_now removed pastRemoved
  rw [tick] at pastClocked
  have isChain : resolveFsIdChainFromRoot clocked.repo.fsObjects middle
      (pathOf (pathComponents newParentPath)) = .ok destination := by
    cases tick
    exact newPlain ▸ resolved
  have climbs := climbs_of_chain newNames (Or.inl rfl) isChain
  obtain ⟨moved, isMoved⟩ : ∃ moved : DirEntryData Oid,
      moved = ⟨entry.id, entry.mode, email, time, basename path, entry.size⟩ := ⟨_, rfl⟩
  have resolvesClocked := resolvesThere.extends ticking.objects
  obtain ⟨top, added, alone'⟩ : ∃ top added, ∀ chain,
      Climbs clocked.repo (some middle) chain middle (pathComponents newParentPath) →
      applyTreeUpdate (pathOf (pathComponents newParentPath)) destination.1 chain (some middle)
        (pushUnlessNamed moved) clocked = (.ok top, added) :=
    applyTreeUpdate_alone ticking.genuine newNames resolvesClocked
      (standsThere.extends ticking.objects) _
  have adding := alone' destination.2 climbs
  obtain ⟨more', arrived⟩ :=
    applyTreeUpdate_edited ticking.genuine newNames climbs resolvesClocked adding
  have pastAdded := pastClocked.updated adding
  rw [← newPlain] at adding
  have throughout := more.trans (ticking.trans more')
  have steps : MoveSteps before.repo.fsObjects added.repo.fsObjects
      (pathComponents (parentPathFrom path)) (pathComponents newParentPath) entry root top := by
    refine ⟨isName ▸ source, ⟨newParent, listed, resolvesNew, standsNew⟩, isName ▸ apart,
      throughout.objects, middle, moved, ?_, ?_, ?_, ?_, arrived⟩
    · rw [isMoved, isName]
    · rw [isMoved]
    · rw [isMoved]
    · rw [isName]
      exact left.extends (ticking.trans more').objects
  obtain ⟨final, committing, pastFinal⟩ := createCommit_runs pastAdded (fun listed => by
    rw [throughout.rootFsId, isNew steps listed]
    exact isRoot) email ((if isDirectory then "Moved directory " else "Moved ") ++ basename path)
  have movedOrGone : FoundAt added.repo.fsObjects (pathComponents newParentPath) (basename path) top
      moved.written ∨ ∀ gone, ¬ FoundAt added.repo.fsObjects
        (pathComponents (parentPathFrom path)) (basename path) top gone := by
    have further := ticking.trans more'
    refine (left.extends further.objects).moved_or_gone ⟨oldParent, resolves.extends
      throughout.objects, stands.extends throughout.objects⟩ ⟨destination.1, resolvesThere.extends
      further.objects, standsThere.extends further.objects⟩ ?_ arrived
    rw [isMoved]
  subst isMoved
  obtain ⟨time', ticked, tock, committed⟩ := bind_ok_iff.mp committing
  cases tock
  obtain ⟨sameStore, isTop⟩ := commitRoot_root committed
  refine ⟨joinPath newParentPath (basename path), top, final, ?_, ⟨isRoot, isTop, ?_, ?_⟩, ?_, ?_,
    pastFinal⟩
  · refine bind_ok_iff.mpr ⟨root, before, tryRead_ok_iff.mpr
      ⟨headRootId_eq_ok_iff.mpr isRoot, rfl⟩,
    bind_ok_iff.mpr ⟨oldParent, before, mapFailure_ok_iff.mpr (tryRead_ok_iff.mpr
      ⟨resolves.resolveDirSegments, rfl⟩),
    bind_ok_iff.mpr ⟨oldData, before, mapFailure_ok_iff.mpr
      (tryRead_ok_iff.mpr ⟨read, rfl⟩),
    bind_ok_iff.mpr ⟨entry, before, tryRead_ok_iff.mpr
      ⟨okOr_eq_ok_iff.mpr isEntry, rfl⟩,
    bind_ok_iff.mpr ⟨newParentPath, before, tryRead_ok_iff.mpr
      ⟨mapError_eq_ok_iff.mpr normal, rfl⟩,
    bind_ok_iff.mpr ⟨(), before, tryRead_ok_iff.mpr
      ⟨ensure_eq_ok_iff.mpr outside, rfl⟩,
    bind_ok_iff.mpr ⟨newParent, before, mapFailure_ok_iff.mpr (tryRead_ok_iff.mpr
      ⟨resolvesNew.resolveDirSegments, rfl⟩),
    bind_ok_iff.mpr ⟨middle, removed, removing,
    bind_ok_iff.mpr ⟨destination, removed, mapFailure_ok_iff.mpr
      (tryRead_ok_iff.mpr ⟨resolved, rfl⟩),
    bind_ok_iff.mpr ⟨time, clocked, tick,
    bind_ok_iff.mpr ⟨top, added, adding,
    bind_ok_iff.mpr ⟨(), final, committing, rfl⟩⟩⟩⟩⟩⟩⟩⟩⟩⟩⟩⟩
  · rw [sameStore]
    exact throughout.objects
  · rw [sameStore]
    exact throughout.genuine
  · rw [sameStore]
    exact steps
  · rw [sameStore]
    refine movedOrGone.imp (fun isFound => ⟨_, count, isFound, ?_⟩) id
    rw [written_mtime]
    exact isTime.trans isLater

theorem moveEntry_outside {newPath : String}
    (run : moveEntry path newParentDir email isDirectory before = (.ok newPath, final)) :
    ∃ newParentPath, safeNormalizePath newParentDir = .ok newParentPath ∧
      ¬ isSelfOrSubpath path newParentPath := by
  obtain ⟨root, headed, -, run⟩ := bind_ok_iff.mp run
  obtain ⟨oldParentFsId, resolved, -, run⟩ := bind_ok_iff.mp run
  obtain ⟨oldParentData, read, -, run⟩ := bind_ok_iff.mp run
  obtain ⟨entry, found, -, run⟩ := bind_ok_iff.mp run
  obtain ⟨newParentPath, normalized, normalizing, run⟩ := bind_ok_iff.mp run
  obtain ⟨_, checked, checking, -⟩ := bind_ok_iff.mp run
  obtain ⟨normal, -⟩ := tryRead_ok_iff.mp normalizing
  obtain ⟨outside, -⟩ := tryRead_ok_iff.mp checking
  exact ⟨newParentPath, mapError_eq_ok_iff.mp normal, ensure_eq_ok_iff.mp outside⟩

theorem headIs_moveEntry (path newParentDir email : String) (isDirectory : Bool) :
    Proc.KeepsFailing (HeadIs outcome) (moveEntry path newParentDir email isDirectory) := by
  refine keepsFailing_bind (keeps_tryRead _ _) fun headRoot => ?_
  refine keepsFailing_bind (keeps_mapFailure (keeps_tryRead _ _)) fun _ => ?_
  refine keepsFailing_bind (keeps_mapFailure (keeps_tryRead _ _)) fun _ => ?_
  refine keepsFailing_bind (keeps_tryRead _ _) fun entry => ?_
  refine keepsFailing_bind (keeps_tryRead _ _) fun newParentPath => ?_
  refine keepsFailing_bind (keeps_tryRead _ _) fun _ => ?_
  refine keepsFailing_bind (keeps_mapFailure (keeps_tryRead _ _)) fun _ => ?_
  refine keepsFailing_bind (headIs_applyTreeUpdate _ _ _ _ _) fun intermediateRoot => ?_
  refine keepsFailing_bind (keeps_mapFailure (keeps_tryRead _ _)) fun _ => ?_
  refine keepsFailing_bind (fun _ isHead => isHead) fun time => ?_
  refine keepsFailing_bind (headIs_applyTreeUpdate _ _ _ _ _) fun newRoot => ?_
  exact keepsFailing_bind_total (headIs_createCommit _ _ _) fun _ state => ⟨_, state, rfl⟩

end Nanofile
