import Nanofile.Webdav.FailedMoves

/-!
# When a failed MOVE or COPY leaves HEAD alone

A step can only fail without a trace while no step before it has written.  So either nothing
is in the way and the first step is refused or the only one, or no step fails at all.
-/

set_option autoImplicit false

namespace Nanofile

open Nanofile.Lib

variable {Oid : Type} [DecidableEq Oid] [Digests Oid]

/-! ## Directories that both trees have -/

variable {entry : DirEntryData Oid} {name : String} {upper : List String}

section Trees

variable {store after : FsStore Oid} {root top : Oid} {parts : List String}
  {entries : List (DirEntryData Oid)} {out above : List String → Prop}

theorem TreeStored.dirAt_of_found (stored : TreeStored store root)
    (found : FoundAt store upper name root entry) (directory : isDir entry.mode = true) :
    ∃ entries, DirAt store (upper ++ [name]) root entries := by
  obtain ⟨dir, listed, resolves, stands, isEntry⟩ := found
  have below : Resolves store (upper ++ [name]) root entry.id :=
    resolves_append.mpr ⟨dir, resolves, listed, entry, stands, isEntry, directory, rfl⟩
  obtain ⟨entries, standsBelow⟩ := stored _ _ below
  exact ⟨entries, entry.id, below, standsBelow⟩

theorem PathsAlike.dirAt (alike : PathsAlike store root top out above)
    (stored : TreeStored store top) (outside : ¬ out parts)
    (lists : DirAt store parts root entries) : ∃ entries', DirAt store parts top entries' := by
  rcases List.eq_nil_or_concat parts with rfl | ⟨upper, name, rfl⟩
  · obtain ⟨entries', stands⟩ := stored [] top rfl
    exact ⟨entries', top, rfl, stands⟩
  · rw [List.concat_eq_append] at outside lists ⊢
    obtain ⟨entry, found, directory⟩ := lists.passed (List.prefix_refl _)
    obtain ⟨entry', found', sameMode, -⟩ := alike.kept outside found
    exact stored.dirAt_of_found found' (sameMode ▸ directory)

theorem PathsAlike.dirAt_before (alike : PathsAlike store root top out above)
    (stored : TreeStored store root) (outside : ¬ out parts)
    (lists : DirAt store parts top entries) : ∃ entries', DirAt store parts root entries' := by
  rcases List.eq_nil_or_concat parts with rfl | ⟨upper, name, rfl⟩
  · obtain ⟨entries', stands⟩ := stored [] root rfl
    exact ⟨entries', root, rfl, stands⟩
  · rw [List.concat_eq_append] at outside lists ⊢
    obtain ⟨entry', found', directory⟩ := lists.passed (List.prefix_refl _)
    obtain ⟨entry, found⟩ := alike.noOther outside found'
    obtain ⟨entry'', found'', sameMode, -⟩ := alike.kept outside found
    obtain rfl := found'.unique found''
    exact stored.dirAt_of_found found (sameMode ▸ directory)

theorem TreeStored.dirAt_of_extends (stored : TreeStored store root)
    (grown : Table.Extends store after) (lists : DirAt after parts root entries) :
    ∃ entries', DirAt store parts root entries' := by
  obtain ⟨dir, resolves, -⟩ := lists
  have before := TreeStored.resolves_of_extends grown stored resolves
  obtain ⟨entries', stands⟩ := stored parts dir before
  exact ⟨entries', dir, before, stands⟩

end Trees

variable [ToString Oid] {limits : Limits} {email : String} {isMove : Bool} {src : String}
  {before middle carried final : WebState Oid} {root cleared top : Oid} {roots : List Oid}
  {target : MoveTarget} {entries left : List (DirEntryData Oid)}

/-! ## The tree without the target -/

/-- What is deleted holds neither the entry nor the directory it is moved to. -/
def Beside (isMove : Bool) (src : String) (target : MoveTarget) : Prop :=
  target.existed = true →
    ¬ pathComponents (parentPathFrom target.path) ++ [basename target.path] <+:
      pathComponents (parentPathFrom src) ++ [basename src] ∧
    (isMove = true → parentPathFrom src ≠ parentPathFrom target.path → ∀ newParentPath,
      safeNormalizePath (parentPathFrom target.path) = .ok newParentPath →
      ¬ pathComponents (parentPathFrom target.path) ++ [basename target.path] <+:
        pathComponents newParentPath)

variable {listed : List (DirEntryData Oid)}

section

variable (ready : Ready before middle src target root cleared entries left)
include ready

theorem Ready.not_passed {parts : List String}
    (lists : DirAt middle.repo.fsObjects parts cleared listed) :
    ¬ pathComponents (parentPathFrom target.path) ++ [basename target.path] <+: parts := by
  intro into
  obtain ⟨passed, isPassed, -⟩ := lists.passed into
  exact ready.room.lists.not_found ready.wanted passed isPassed

theorem Ready.absent (absent : target.existed = false) :
    ∀ entry, ¬ FoundAt before.repo.fsObjects (pathComponents (parentPathFrom target.path))
      (basename target.path) root entry := by
  refine ready.lists.not_found fun listed => ?_
  have existed := (ready.accepted.existed_iff ready.lists).mpr listed
  rw [absent] at existed
  cases existed

/-- The first step can be made when it could be, and the target does not take its places along. -/
theorem Ready.canCarry_iff :
    CanCarry isMove middle.repo.fsObjects cleared src target.path ↔
      CanCarry isMove before.repo.fsObjects root src target.path ∧ Beside isMove src target := by
  have alike := ready.room.alike (Table.Extends.refl _)
  have storedBefore := ready.library.stored root ready.isRoot
  have grown := ready.room.went.grown
  constructor
  · rintro ⟨⟨entry, found⟩, place⟩
    obtain ⟨origin, isOrigin, -, -, beside, -⟩ := ready.source found
    refine ⟨⟨⟨origin, isOrigin⟩, fun move => ?_⟩, fun _ => ⟨beside, ?_⟩⟩
    · have place := place move
      split at place
      · rename_i same
        rwa [if_pos same]
      · rename_i other
        obtain ⟨newParentPath, listed, normal, outside, lists⟩ := place
        rw [if_neg other]
        obtain ⟨listed', lists'⟩ := alike.dirAt_before (storedBefore.extends grown)
          (by simpa [Passes] using ready.not_passed lists) lists
        obtain ⟨listed'', lists''⟩ := storedBefore.dirAt_of_extends grown lists'
        exact ⟨newParentPath, listed'', normal, outside, lists''⟩
    · intro move other newParentPath normal
      have place := place move
      rw [if_neg other] at place
      obtain ⟨newParentPath', listed, normal', -, lists⟩ := place
      obtain rfl := Except.ok.inj (normal.symm.trans normal')
      exact ready.not_passed lists
  · rintro ⟨⟨⟨entry, found⟩, place⟩, beside⟩
    have apart : ¬ pathComponents (parentPathFrom target.path) ++ [basename target.path] <+:
        pathComponents (parentPathFrom src) ++ [basename src] := by
      cases existed : target.existed with
      | true => exact (beside existed).1
      | false =>
        intro into
        obtain ⟨passed, isPassed⟩ := found.passed into
        exact ready.absent existed passed isPassed
    obtain ⟨entry', found', -⟩ := alike.kept (by simpa [Passes] using apart) (found.extends grown)
    refine ⟨⟨entry', found'⟩, fun move => ?_⟩
    have place := place move
    split at place
    · rename_i same
      rwa [if_pos same]
    · rename_i other
      obtain ⟨newParentPath, listed, normal, outside, lists⟩ := place
      have apart : ¬ pathComponents (parentPathFrom target.path) ++ [basename target.path] <+:
          pathComponents newParentPath := by
        cases existed : target.existed with
        | true => exact (beside existed).2 move other newParentPath normal
        | false =>
          intro into
          obtain ⟨passed, isPassed, -⟩ := lists.passed into
          exact ready.absent existed passed isPassed
      rw [if_neg other]
      obtain ⟨listed', lists'⟩ := alike.dirAt (ready.room.tree cleared ready.room.went.isTop)
        (by simpa [Passes] using apart) (lists.extends grown)
      exact ⟨newParentPath, listed', normal, outside, lists'⟩

end

theorem clearedTo_of_run {src : String} (library : LibraryTree before.repo)
    (isRoot : resolveRootFsId before.repo = .ok root)
    (accepted : Accepted before.repo ⟨some root⟩ src target)
    (lists : DirAt before.repo.fsObjects (pathComponents (parentPathFrom target.path)) root entries)
    (isTop : resolveRootFsId middle.repo = .ok cleared)
    (run : (if target.existed then Web.deleteDirent limits target.path email else pure ())
      before = (.ok (), middle)) : ClearedTo middle.repo.fsObjects target root cleared := by
  unfold ClearedTo
  cases existed : target.existed with
  | false =>
    rw [existed] at run
    cases run
    exact Except.ok.inj (isTop.symm.trans isRoot)
  | true =>
    rw [existed] at run
    obtain ⟨plain, -⟩ := pathComponents_eq_of_plain accepted.plain accepted.below
    obtain ⟨top, went, edited⟩ := deleteDirent_edits library.genuine plain isRoot lists run
    obtain rfl := Except.ok.inj (isTop.symm.trans went.isTop)
    exact edited

omit [ToString Oid] in
theorem ClearedTo.extends {store after : FsStore Oid} (clears : ClearedTo store target root top)
    (grown : Table.Extends store after) : ClearedTo after target root top := by
  unfold ClearedTo at clears ⊢
  split at clears
  · rename_i existed
    rw [if_pos existed]
    exact EditedAt.extends clears grown
  · rename_i absent
    rwa [if_neg absent]

omit [ToString Oid] in
theorem CarriedTo.extends {store after later : FsStore Oid} {src dst : String}
    (carries : CarriedTo store after isMove email src dst root top)
    (grown : Table.Extends after later) : CarriedTo store later isMove email src dst root top := by
  cases carries with
  | renamed move same edited => exact .renamed move same (edited.extends grown)
  | moved move other normal isName steps =>
    exact .moved move other normal isName (steps.extends grown)
  | copied copy found lists edited => exact .copied copy found lists (edited.extends grown)

/-! ## The directory of the destination -/

omit [DecidableEq Oid] [Digests Oid] [ToString Oid] in
theorem mem_names_pushUnlessNamed (entry : DirEntryData Oid) (entries : List (DirEntryData Oid)) :
    entry.name ∈ (pushUnlessNamed entry entries).map DirEntryData.name := by
  by_cases taken : entry.name ∈ entries.map DirEntryData.name
  · rwa [pushUnlessNamed_of_mem taken]
  · simp [pushUnlessNamed_of_not_mem taken]

theorem Ready.carried_lists (ready : Ready before middle src target root cleared entries left)
    {after : FsStore Oid} (more : ¬ OneStep isMove src target.path)
    (grown : Table.Extends middle.repo.fsObjects after)
    (carries : CarriedTo middle.repo.fsObjects after isMove email src target.path cleared top) :
    ∃ listed, DirAt after (pathComponents (parentPathFrom target.path)) top listed ∧
      (basename src ∈ listed.map DirEntryData.name ↔ isMove = false ∨
        safeNormalizePath (parentPathFrom target.path) = .ok (parentPathFrom target.path) ∨
        basename src ∈ left.map DirEntryData.name) := by
  have lists := ready.room.lists.extends grown
  obtain ⟨plainTarget, -⟩ := pathComponents_eq_of_plain ready.accepted.plain ready.accepted.below
  cases carries with
  | renamed move same edited => exact absurd (Or.inl ⟨move, same⟩) more
  | @moved newParentPath entry move other normal isName steps =>
    obtain ⟨plainParent, -⟩ := pathComponents_eq_of_plain ready.plain ready.accepted.srcBelow
    have plainNew := plainPath_of_safeNormalizePath normal
    have otherParts : pathComponents (parentPathFrom src) ≠
        pathComponents (parentPathFrom target.path) :=
      fun same => other (by rw [plainParent, plainTarget, same])
    obtain ⟨-, -, -, -, -, outside⟩ := ready.source (isName ▸ steps.source)
    obtain ⟨listed, lists', -, names⟩ :=
      steps.dirAt_other otherParts (isName ▸ outside) lists ready.room.unique
    refine ⟨listed, lists', ?_⟩
    by_cases here : pathComponents newParentPath = pathComponents (parentPathFrom target.path)
    · have isListed : basename src ∈ listed.map DirEntryData.name := by
        obtain ⟨between, moved, sameName, -, -, taken, arrived⟩ := steps.edits
        obtain ⟨there, listsThere, -⟩ := taken.dirAt_other (Ne.symm otherParts)
          (keepsWay_withoutName (isName ▸ outside)) lists
        rw [here] at arrived
        rw [← (arrived.dirAt listsThere).eq lists', (names_stored _).mem_iff, ← isName, ← sameName]
        exact mem_names_pushUnlessNamed _ _
      refine iff_of_true isListed (Or.inr (Or.inl ?_))
      rw [normal, plainNew, here, ← plainTarget]
    · have elsewhere : safeNormalizePath (parentPathFrom target.path) ≠
          .ok (parentPathFrom target.path) := by
        intro back
        obtain rfl := Except.ok.inj (normal.symm.trans back)
        exact here rfl
      rw [(names here).mem_iff]
      simp [move, elsewhere]
  | @copied source listed time copy found lists' edited =>
    obtain rfl := lists'.eq ready.room.lists
    refine ⟨_, edited.dirAt lists, iff_of_true ?_ (Or.inl copy)⟩
    have isName : source.name = basename src := by
      obtain ⟨_, _, _, _, isEntry⟩ := found
      exact (lookup_eq_some isEntry).2
    rw [(names_stored _).mem_iff, List.map_append, List.mem_append]
    by_cases taken : basename src ∈ listed.map DirEntryData.name
    · exact Or.inl taken
    · refine Or.inr ?_
      rw [← isName] at taken ⊢
      simp [copyOf, freshName_of_not_mem taken]

/-- The second step can be made when the new name is one and the destination lists the old. -/
theorem Ready.canRename_iff (ready : Ready before middle src target root cleared entries left)
    {after : FsStore Oid} (more : ¬ OneStep isMove src target.path)
    (grown : Table.Extends middle.repo.fsObjects after)
    (carries : CarriedTo middle.repo.fsObjects after isMove email src target.path cleared top)
    (lists : DirAt after (pathComponents (parentPathFrom target.path)) top listed) :
    validateFilename (basename target.path) = .ok () ∧
        basename src ∈ listed.map DirEntryData.name ↔
      CanRename isMove before.repo.fsObjects root src target.path := by
  obtain ⟨listed', lists', isListed⟩ := ready.carried_lists more grown carries
  obtain rfl := lists.eq lists'
  have apart : basename src ≠ basename target.path := fun same => more (Or.inr same.symm)
  rw [CanRename, or_iff_right more, isListed, ready.room.names, ready.lists.exists_found_iff]
  cases isMove with
  | false => simp
  | true => simp [apart]

/-! ## Requests that go through -/

/-- The size of the library may be counted anew: it is not recorded, or it changes twice. -/
def MayRecount (isMove : Bool) (target : MoveTarget) (repo : Repo Oid) : Prop :=
  (target.existed = true ∨ isMove = false) ∧
    (repo.size = 0 ∨ target.existed = true ∧ isMove = false)

/-- Every tree on the way is new to the commits of a time to come, and its size is counted where
it has to be. -/
def WayIsFree (limits : Limits) (isMove : Bool) (email src : String) (target : MoveTarget)
    (before : WebState Oid) (root : Oid) : Prop :=
  ∃ roots, CommitsPast roots before ∧ ∀ {store after : FsStore Oid} {top : Oid},
    Table.Extends before.repo.fsObjects store → Table.Extends store after →
    OnTheWay store after isMove email src target root top →
    top ∉ roots ∧
      (MayRecount isMove target before.repo → ∃ size, computeTreeSize limits after top = .ok size)

omit [DecidableEq Oid] [Digests Oid] [ToString Oid] in
theorem newName_mem_renameFirst {oldName newName : String} :
    ∀ {entries : List (DirEntryData Oid)}, oldName ∈ entries.map DirEntryData.name →
      newName ∈ (renameFirst oldName newName entries).map DirEntryData.name := by
  intro entries
  induction entries with
  | nil => exact fun listed => absurd listed List.not_mem_nil
  | cons first rest ih =>
    intro listed
    by_cases here : first.name = oldName
    · simp [renameFirst, here]
    · rw [renameFirst, if_neg here, List.map_cons]
      rcases List.mem_cons.mp listed with same | below
      · exact absurd same.symm here
      · exact List.mem_cons_of_mem _ (ih below)

theorem prefix_of_subpath {other : List String} {next : String}
    (plain : PlainNames (upper ++ [name]))
    (within : isSelfOrSubpath (pathOf (upper ++ [name])) (pathOf other) = true) :
    (pathOf (upper ++ [name]) ++ "/").toList.isPrefixOf (pathOf (other ++ [next])).toList = true := by
  have notRoot : pathOf (upper ++ [name]) ≠ "/" :=
    fun root => by simpa using (pathOf_eq_root_iff plain).mp root
  have trimmed : trimEndSlashes (pathOf (upper ++ [name])) = pathOf (upper ++ [name]) := by
    rw [pathOf_concat]
    exact trimEndSlashes_append _ plain.last.1 plain.last.2
  rw [isSelfOrSubpath, if_neg notRoot, trimmed, Bool.or_eq_true, decide_eq_true_eq,
    List.isPrefixOf_iff_prefix] at within
  rw [List.isPrefixOf_iff_prefix]
  cases other with
  | nil =>
    rcases within with same | below
    · exact absurd same.symm notRoot
    · have long := below.length_le
      rw [String.toList_append, List.length_append] at long
      have short : (pathOf []).toList.length = 1 := rfl
      have one : "/".toList.length = 1 := rfl
      have empty : (pathOf (upper ++ [name])).toList.length = 0 := by omega
      rw [pathOf_concat] at empty
      simp at empty
  | cons first rest =>
    have longer : pathOf (first :: rest ++ [next]) = pathOf (first :: rest) ++ ("/" ++ next) := by
      rw [pathOf_concat, pathOf_eq, if_neg (by simp [slashed_eq_empty_iff]), String.append_assoc]
    rcases within with same | below
    · rw [longer, same, ← String.append_assoc]
      exact ⟨_, String.toList_append.symm⟩
    · refine below.trans ?_
      rw [longer]
      exact ⟨_, String.toList_append.symm⟩

theorem Ready.copy_outside (ready : Ready before middle src target root cleared entries left)
    (found : FoundAt middle.repo.fsObjects
      (pathComponents (parentPathFrom src)) (basename src) cleared entry) :
    ¬ (hasDirBit entry.mode = true ∧ isSelfOrSubpath
      (joinPath (parentPathFrom src) (basename src)) (parentPathFrom target.path) = true) := by
  rintro ⟨directory, within⟩
  obtain ⟨origin, isOrigin, -, sameMode, -, -⟩ := ready.source found
  obtain ⟨plainParent, cut⟩ := pathComponents_eq_of_plain ready.plain ready.accepted.srcBelow
  obtain ⟨plainTarget, cutTarget⟩ :=
    pathComponents_eq_of_plain ready.accepted.plain ready.accepted.below
  have names := plainNames_pathComponents src
  rw [cut] at names
  have text : joinPath (parentPathFrom src) (basename src) =
      pathOf (pathComponents (parentPathFrom src) ++ [basename src]) := by
    conv => lhs; rw [plainParent]
    exact joinPath_pathOf names.left _
  have nonempty : src ≠ "" := by
    intro isEmpty
    have plain := ready.plain
    rw [PlainPath, isEmpty] at plain
    exact absurd plain (by decide)
  obtain ⟨listed, lists, isEntry⟩ := isOrigin.dirAt
  refine ready.accepted.outside ⟨(isDirWithHead_iff ready.accepted.srcBelow nonempty).mpr
    ⟨origin, (entryWithHead_eq_ok_iff lists).mpr isEntry, sameMode ▸ directory⟩, ?_⟩
  rw [text, plainTarget] at within
  rw [ready.plain, ready.accepted.plain, cut, cutTarget]
  exact prefix_of_subpath names within

/-- A request with its target out of the way and a free way ahead. -/
structure Underway (limits : Limits) (isMove : Bool) (email src : String) (target : MoveTarget)
    (before middle : WebState Oid) (root cleared : Oid) (entries left : List (DirEntryData Oid))
    (roots : List Oid) : Prop where
  ready : Ready before middle src target root cleared entries left
  clears : ClearedTo middle.repo.fsObjects target root cleared
  past : CommitsPast roots middle
  isNew : ∀ {after : FsStore Oid} {top : Oid}, Table.Extends middle.repo.fsObjects after →
    OnTheWay middle.repo.fsObjects after isMove email src target root top →
    top ∈ roots → top = cleared
  counts : isMove = false → middle.repo.size = 0 → ∀ {after : FsStore Oid} {top : Oid},
    Table.Extends middle.repo.fsObjects after →
    OnTheWay middle.repo.fsObjects after isMove email src target root top →
    ∃ size, computeTreeSize limits after top = .ok size
  clock : ClockFrom before.clock middle

theorem exists_underway (library : LibraryTree before.repo)
    (isRoot : resolveRootFsId before.repo = .ok root) (plain : PlainPath src)
    (accepted : Accepted before.repo ⟨some root⟩ src target)
    (way : WayIsFree limits isMove email src target before root) :
    ∃ middle cleared entries left roots,
      (if target.existed then Web.deleteDirent limits target.path email else pure ()) before =
        (.ok (), middle) ∧
      Underway limits isMove email src target before middle root cleared entries left roots := by
  obtain ⟨roots, past, free⟩ := way
  obtain ⟨entries, lists⟩ := accepted.dirAt library isRoot
  obtain ⟨middle, roots', run, past', within, clock, recounts⟩ : ∃ middle roots',
      (if target.existed then Web.deleteDirent limits target.path email else pure ()) before =
        (.ok (), middle) ∧ CommitsPast roots' middle ∧
      (∀ listed ∈ roots', listed ∈ roots ∨ resolveRootFsId middle.repo = .ok listed) ∧
      ClockFrom before.clock middle ∧
      (isMove = false → middle.repo.size = 0 → MayRecount isMove target before.repo) := by
    cases existed : target.existed with
    | false =>
      exact ⟨before, roots, rfl, past, fun _ listed => Or.inl listed, clockFrom_self before,
        fun copy uncounted => ⟨Or.inr copy, Or.inl uncounted⟩⟩
    | true =>
      obtain ⟨plainTarget, -⟩ := pathComponents_eq_of_plain accepted.plain accepted.below
      have onTheWay : ∀ {after : FsStore Oid} {top : Oid}, EditedAt after
          (pureEdit (withoutName (basename target.path)))
          (pathComponents (parentPathFrom target.path)) root top →
          OnTheWay before.repo.fsObjects after isMove email src target root top := by
        intro after top edited
        refine .cleared existed ?_
        unfold ClearedTo
        rwa [if_pos existed]
      obtain ⟨top, middle, run, isTop, past⟩ : ∃ top middle,
          Web.deleteDirent limits target.path email before = (.ok (), middle) ∧
          resolveRootFsId middle.repo = .ok top ∧ CommitsPast (top :: roots) middle :=
        deleteDirent_runs library.genuine plainTarget isRoot lists past
        (fun grown edited listed => absurd listed (free (Table.Extends.refl _) grown
          (onTheWay edited)).1)
        (fun uncounted _ _ grown edited => (free (Table.Extends.refl _) grown
          (onTheWay edited)).2 ⟨Or.inl existed, Or.inl uncounted⟩)
      have shows : ClockFrom before.clock (Web.deleteDirent limits target.path email before).2 :=
        clockFrom_deleteDirent target.path email before (clockFrom_self before)
      rw [run] at shows
      refine ⟨middle, top :: roots, run, past, fun other listed => ?_, shows,
        fun copy _ => ⟨Or.inl existed, Or.inr ⟨existed, copy⟩⟩⟩
      rcases List.mem_cons.mp listed with rfl | listed
      · exact Or.inr isTop
      · exact Or.inl listed
  obtain ⟨cleared, left, room⟩ := cleared_of_run library isRoot accepted lists run
  refine ⟨middle, cleared, entries, left, roots', run,
    ⟨library, isRoot, plain, accepted, lists, room⟩,
    clearedTo_of_run library isRoot accepted lists room.went.isTop run, past', ?_, ?_, clock⟩
  · intro after top grown onTheWay listed
    rcases within top listed with taken | isTop
    · exact absurd taken (free room.went.grown grown onTheWay).1
    · exact Except.ok.inj (isTop.symm.trans room.went.isTop)
  · exact fun copy uncounted _ _ grown onTheWay =>
      (free room.went.grown grown onTheWay).2 (recounts copy uncounted)

theorem Underway.carries
    (underway : Underway limits isMove email src target before middle root cleared entries left roots)
    (can : CanCarry isMove middle.repo.fsObjects cleared src target.path) (isDirectory : Bool) :
    ∃ carried, carry limits email isMove isDirectory src target.path middle = (.ok (), carried) ∧
      (¬ OneStep isMove src target.path → ∃ top, HeadWent middle carried cleared top ∧
        CarriedTo middle.repo.fsObjects carried.repo.fsObjects isMove email src target.path
          cleared top ∧
        LateOrGone middle.clock carried.repo.fsObjects src top ∧
        CommitsPast (top :: roots) carried) := by
  obtain ⟨ready, clears, past, isNew, counts, -⟩ := underway
  exact carry_runs ready.room.went.genuine ready.plain ready.accepted.srcBelow ready.accepted.plain
    ready.accepted.below ready.room.went.isTop can ready.room.lists
    (fun entry found => ready.copy_outside found) past
    (fun grown carries => isNew grown (.carried (clears.extends grown) carries))
    (fun copy uncounted _ _ grown carries =>
      counts copy uncounted grown (.carried (clears.extends grown) carries))

theorem Underway.runs
    (underway : Underway limits isMove email src target before middle root cleared entries left roots)
    (can : CanCarry isMove middle.repo.fsObjects cleared src target.path)
    (canRename : CanRename isMove before.repo.fsObjects root src target.path)
    (isDirectory isDirectory' : Bool) :
    ∃ final, (carry limits email isMove isDirectory src target.path >>= fun _ =>
      retitle email isMove isDirectory' src target.path) middle = (.ok (), final) := by
  obtain ⟨carried, carrying, further⟩ := underway.carries can isDirectory
  obtain ⟨ready, clears, -, isNew, -, -⟩ := underway
  by_cases one : OneStep isMove src target.path
  · refine ⟨carried, Proc.bind_ok_iff.mpr ⟨(), carried, carrying, ?_⟩⟩
    rw [retitle, if_pos one]
    rfl
  · obtain ⟨top, went, carries, -, past⟩ := further one
    obtain ⟨listed, lists, -⟩ := ready.carried_lists one went.grown carries
    obtain ⟨valid, isListed⟩ :=
      (ready.canRename_iff one went.grown carries lists).mpr canRename
    have renamesAnew : NewRoot carried.repo.fsObjects
        (renameFirst (basename src) (basename target.path))
        (pathComponents (parentPathFrom target.path)) top (top :: roots) := by
      intro after last grown edited taken
      rcases List.mem_cons.mp taken with same | taken
      · exact same
      -- The tree without the target has not got its name.
      · have throughout := went.grown.trans grown
        obtain rfl := isNew throughout
          (.renamed (clears.extends throughout) (carries.extends grown) edited) taken
        refine absurd ?_ ready.wanted
        rw [(ready.room.lists.extends throughout).eq (edited.dirAt (lists.extends grown)),
          (names_stored _).mem_iff]
        exact newName_mem_renameFirst isListed
    obtain ⟨final, retitling⟩ : ∃ final,
        retitle email isMove isDirectory' src target.path carried = (.ok (), final) :=
      retitle_runs went.genuine ready.plain ready.accepted.srcBelow ready.accepted.plain
        ready.accepted.below went.isTop lists valid isListed past renamesAnew
    exact ⟨final, Proc.bind_ok_iff.mpr ⟨(), carried, carrying, retitling⟩⟩

/-! ## Requests that fail -/

/-- Nothing was in the way and the first step is refused or, for a move, the only one; or both
steps are made. -/
def LeavesHead (limits : Limits) (isMove : Bool) (email src : String) (target : MoveTarget)
    (before : WebState Oid) : Prop :=
  target.existed = false ∧ (isMove = true ∧ OneStep isMove src target.path ∨
    ∀ root, resolveRootFsId before.repo = .ok root →
      ¬ CanCarry isMove before.repo.fsObjects root src target.path) ∨
  ∃ root, resolveRootFsId before.repo = .ok root ∧
    CanCarry isMove before.repo.fsObjects root src target.path ∧
    CanRename isMove before.repo.fsObjects root src target.path ∧ Beside isMove src target ∧
    WayIsFree limits isMove email src target before root

def TimesPast (before : WebState Oid) (root : Oid) : Prop :=
  ∀ {upper : List String} {name : String} {entry : DirEntryData Oid},
    FoundAt before.repo.fsObjects upper name root entry → ∀ count, entry.mtime ≠ before.clock count

variable {head : HeadContext Oid} {failure : AppError}

theorem replaceTarget_leaves (library : LibraryTree before.repo)
    (isHead : resolveHead before.repo = .ok head) (plain : PlainPath src)
    (accepted : Accepted before.repo head src target)
    (leaves : LeavesHead limits isMove email src target before)
    (run : replaceTarget limits email head isMove src target before = (.error failure, final)) :
    resolveRootFsId final.repo = resolveRootFsId before.repo := by
  rw [replaceTarget_eq] at run
  rcases leaves with ⟨absent, refused⟩ | ⟨root, isRoot, can, canRename, beside, way⟩
  · rw [absent] at run
    have run : (if isMove then doMove email head src target.path
      else doCopy limits email head src target.path) before = (.error failure, final) := run
    obtain ⟨isDirectory, isDirectory', same⟩ :=
      exists_steps limits email head isMove src target.path before
    rw [same] at run
    rcases Proc.bind_error_iff.mp run with failed | ⟨_, carried, carrying, failed⟩
    · exact headIs_carry plain accepted.srcBelow (refused.imp And.left id) rfl failed
    · rcases refused with ⟨-, one⟩ | refused
      · rw [retitle, if_pos one] at failed
        cases failed
      · obtain ⟨root, top, went, can, -⟩ := carry_ok library.genuine plain accepted.srcBelow
          accepted.plain accepted.below library.stored carrying
        exact absurd can (refused root went.isRoot)
  · obtain rfl := isRoot_of_resolveHead isHead isRoot
    obtain ⟨middle, cleared, entries, left, roots, clearing, underway⟩ :=
      exists_underway library isRoot plain accepted way
    obtain ⟨isDirectory, isDirectory', same⟩ :=
      exists_steps limits email ⟨some root⟩ isMove src target.path middle
    obtain ⟨done, ran⟩ := underway.runs (underway.ready.canCarry_iff.mpr ⟨can, beside⟩) canRename
      isDirectory isDirectory'
    rcases Proc.bind_error_iff.mp run with failed | ⟨_, middle', clearing', failed⟩
    · rw [clearing] at failed
      cases failed
    · rw [clearing] at clearing'
      cases clearing'
      rw [same, ran] at failed
      cases failed

/-- A tree with the step's own time in it, or without the source, is not the one before. -/
theorem Underway.top_ne
    (underway : Underway limits isMove email src target before middle root cleared entries left roots)
    (times : TimesPast before root)
    (can : CanCarry isMove before.repo.fsObjects root src target.path)
    (went : HeadWent middle carried cleared top)
    (lateOrGone : LateOrGone middle.clock carried.repo.fsObjects src top) : top ≠ root := by
  rintro rfl
  obtain ⟨ready, -, -, -, -, clock⟩ := underway
  have grown := ready.room.went.grown.trans went.grown
  rcases lateOrGone with ⟨upper, name, entry, count, found, isLate⟩ | gone
  · obtain ⟨later, isLater⟩ := clock count
    have stored := ready.library.stored top ready.isRoot
    exact times (stored.foundAt_of_extends grown found) later (isLate.trans isLater)
  · obtain ⟨entry, found⟩ := can.1
    exact gone entry (found.extends grown)

theorem Ready.cleared_ne (ready : Ready before middle src target root cleared entries left)
    (existed : target.existed = true) : cleared ≠ root := by
  rintro rfl
  have listed := (ready.accepted.existed_iff ready.lists).mp existed
  rw [(ready.lists.extends ready.room.went.grown).eq ready.room.lists] at listed
  exact ready.wanted listed

theorem leavesHead_of_kept (library : LibraryTree before.repo)
    (isRoot : resolveRootFsId before.repo = .ok root) (plain : PlainPath src)
    (accepted : Accepted before.repo ⟨some root⟩ src target)
    (way : WayIsFree limits isMove email src target before root) (times : TimesPast before root)
    (kept : ∀ failure final,
      replaceTarget limits email ⟨some root⟩ isMove src target before = (.error failure, final) →
      resolveRootFsId final.repo = .ok root) :
    LeavesHead limits isMove email src target before := by
  obtain ⟨middle, cleared, entries, left, roots, clearing, underway⟩ :=
    exists_underway library isRoot plain accepted way
  have ready := underway.ready
  obtain ⟨isDirectory, isDirectory', same⟩ :=
    exists_steps limits email ⟨some root⟩ isMove src target.path middle
  have keptSteps : ∀ failure final, (carry limits email isMove isDirectory src target.path >>=
      fun _ => retitle email isMove isDirectory' src target.path) middle = (.error failure, final) →
      resolveRootFsId final.repo = .ok root := by
    intro failure final failed
    refine kept failure final ?_
    rw [replaceTarget_eq]
    exact Proc.bind_error_iff.mpr (Or.inr ⟨_, middle, clearing, same.trans failed⟩)
  by_cases canThere : CanCarry isMove middle.repo.fsObjects cleared src target.path
  · obtain ⟨can, beside⟩ := ready.canCarry_iff.mp canThere
    refine Or.inr ⟨root, isRoot, can, ?_, beside, way⟩
    by_contra cannot
    have more : ¬ OneStep isMove src target.path := fun one => cannot (Or.inl one)
    obtain ⟨carried, carrying, further⟩ := underway.carries canThere isDirectory
    obtain ⟨top, went, carries, lateOrGone, -⟩ := further more
    obtain ⟨listed, lists, -⟩ := ready.carried_lists more went.grown carries
    rcases retitling : retitle email isMove isDirectory' src target.path carried with
      ⟨failure | _, final⟩
    · have isTop : HeadIs (.ok top) final :=
        headIs_retitle isDirectory' carried final failure went.isTop retitling
      have isSame := keptSteps failure final
        (Proc.bind_error_iff.mpr (Or.inr ⟨(), carried, carrying, retitling⟩))
      exact underway.top_ne times can went lateOrGone (Except.ok.inj (isTop.symm.trans isSame))
    · exact cannot ((ready.canRename_iff more went.grown carries lists).mp
        (retitle_ok went.genuine plain accepted.srcBelow accepted.plain accepted.below went.isTop
          lists more retitling))
  · cases existed : target.existed with
    | false =>
      refine Or.inl ⟨existed, Or.inr fun root' isRoot' can => canThere ?_⟩
      obtain rfl := Except.ok.inj (isRoot.symm.trans isRoot')
      refine ready.canCarry_iff.mpr ⟨can, fun isThere => ?_⟩
      rw [existed] at isThere
      cases isThere
    | true =>
      have refused : ∀ root, resolveRootFsId middle.repo = .ok root →
          ¬ CanCarry isMove middle.repo.fsObjects root src target.path := by
        intro root' isRoot'
        obtain rfl := Except.ok.inj (ready.room.went.isTop.symm.trans isRoot')
        exact canThere
      rcases carrying : carry limits email isMove isDirectory src target.path middle with
        ⟨failure | _, final⟩
      · have isCleared : HeadIs (.ok cleared) final :=
          headIs_carry plain accepted.srcBelow (Or.inr refused) ready.room.went.isTop carrying
        have isSame := keptSteps failure final (Proc.bind_error_iff.mpr (Or.inl carrying))
        exact absurd (Except.ok.inj (isCleared.symm.trans isSame)) (ready.cleared_ne existed)
      · obtain ⟨root', top, went, can, -⟩ := carry_ok ready.room.went.genuine plain
          accepted.srcBelow accepted.plain accepted.below ready.room.tree carrying
        exact absurd can (refused root' went.isRoot)

/-! ## The handler -/

/-- An answer that is an error leaves the tree of HEAD as it was. -/
def ErrorKeepsHead (before : WebState Oid) (answer : StatusCode × WebState Oid) : Prop :=
  answer.1.isError = true → resolveRootFsId answer.2.repo = resolveRootFsId before.repo

theorem errorKeepsHead_iff {percentDecode : String → String} {auth : WebDavAuth}
    {headers : MoveHeaders} :
    ErrorKeepsHead before (moveCopyHandler limits percentDecode auth src headers isMove head before) ↔
      ∀ target, checkMoveCopy percentDecode auth src headers head before.repo = .ok target →
        ∀ failure final, replaceTarget limits auth.email head isMove src target before =
          (.error failure, final) → resolveRootFsId final.repo = resolveRootFsId before.repo := by
  unfold ErrorKeepsHead moveCopyHandler
  cases checked : checkMoveCopy percentDecode auth src headers head before.repo with
  | error status => simp
  | ok target =>
    dsimp only
    rcases ran : replaceTarget limits auth.email head isMove src target before with
      ⟨failure | _, final⟩
    · have isError : StatusCode.internalServerError.isError = true := rfl
      simp [ran, isError]
    · have created : StatusCode.created.isError = false := rfl
      have noContent : StatusCode.noContent.isError = false := rfl
      cases existed : target.existed with
      | true => simp [ran, noContent]
      | false => simp [ran, created]

/-- Where the way is free and the clock past the tree, a request whose error leaves HEAD alone is
one of these; and each of these does. -/
theorem moveCopyHandler_errorKeepsHead_iff {percentDecode : String → String} {auth : WebDavAuth}
    {raw : String} {headers : MoveHeaders} (library : LibraryTree before.repo)
    (isHead : resolveHead before.repo = .ok head) (normal : normalizeWebdavPath raw = .ok src) :
    let accepts := checkMoveCopy percentDecode auth src headers head before.repo
    let leaves := ∀ target, accepts = .ok target →
      LeavesHead limits isMove auth.email src target before
    let keeps := ErrorKeepsHead before
      (moveCopyHandler limits percentDecode auth src headers isMove head before)
    (leaves → keeps) ∧ ((∀ target root, accepts = .ok target → resolveRootFsId before.repo = .ok root →
      WayIsFree limits isMove auth.email src target before root ∧ TimesPast before root) →
      (keeps ↔ leaves)) := by
  intro accepts leaves keeps
  have plain := plainPath_of_safeNormalizePath (mapError_eq_ok_iff.mp normal)
  have enough : leaves → keeps := by
    intro leaves
    refine errorKeepsHead_iff.mpr fun target checked failure final run => ?_
    exact replaceTarget_leaves library isHead plain (accepted_of_check checked)
      (leaves target checked) run
  refine ⟨enough, fun free => ⟨fun kept target checked => ?_, enough⟩⟩
  have accepted := accepted_of_check checked
  have kept := errorKeepsHead_iff.mp kept target checked
  cases isRoot : resolveRootFsId before.repo with
  | ok root =>
    obtain ⟨way, times⟩ := free target root checked isRoot
    obtain rfl := isRoot_of_resolveHead isHead isRoot
    refine leavesHead_of_kept library isRoot plain accepted way times fun failure final run => ?_
    exact (kept failure final run).trans isRoot
  | error failure =>
    obtain ⟨rootId⟩ := head
    cases rootId with
    | some root =>
      rw [resolveRootFsId_of_resolveHead isHead] at isRoot
      cases isRoot
    | none =>
      refine Or.inl ⟨accepted.absent, Or.inr fun root isRoot' => ?_⟩
      rw [isRoot] at isRoot'
      cases isRoot'

def missingMove : StatusCode × WebState FreeId :=
  moveCopyHandler defaultLimits id clashUser "/a/x" ⟨some "/dav/library/b/f", none⟩ true clashHead
    clashLibrary

/-- What is not there is refused, and what it was to replace is gone. -/
theorem moveCopyHandler_forgets :
    LibraryTree clashLibrary.repo ∧ resolveHead clashLibrary.repo = .ok clashHead ∧
    (entryMetadataWithHead clashLibrary.repo clashHead "/b/f").isSome = true ∧
    missingMove.1 = .internalServerError ∧
    (resolveHead missingMove.2.repo).toOption.bind (fun head =>
      entryMetadataWithHead missingMove.2.repo head "/b/f") = none ∧
    ¬ ErrorKeepsHead clashLibrary missingMove := by
  refine ⟨clashLibrary_tree, clashHead_eq, by decide +kernel, by decide +kernel,
    by decide +kernel, fun kept => ?_⟩
  have changed : resolveRootFsId missingMove.2.repo ≠ resolveRootFsId clashLibrary.repo := by
    decide +kernel
  have isError : missingMove.1.isError = true := by decide +kernel
  exact changed (kept isError)

/-- Moved to `/b/x`, what is not there is refused, and HEAD is the one before. -/
theorem moveCopyHandler_refuses :
    (moveCopyHandler defaultLimits id clashUser "/a/x" ⟨some "/dav/library/b/x", none⟩ true
      clashHead clashLibrary).1 = .internalServerError ∧
    ErrorKeepsHead clashLibrary (moveCopyHandler defaultLimits id clashUser "/a/x"
      ⟨some "/dav/library/b/x", none⟩ true clashHead clashLibrary) := by
  have normal : normalizeWebdavPath "a/x" = .ok "/a/x" := by decide +kernel
  have checked : checkMoveCopy id clashUser "/a/x" ⟨some "/dav/library/b/x", none⟩ clashHead
      clashLibrary.repo = .ok ⟨"/b/x", false⟩ := by decide +kernel
  refine ⟨by decide +kernel,
    (moveCopyHandler_errorKeepsHead_iff clashLibrary_tree clashHead_eq normal).1 ?_⟩
  intro target isTarget
  obtain rfl := Except.ok.inj (checked.symm.trans isTarget)
  exact Or.inl ⟨rfl, Or.inl ⟨rfl, Or.inr (by decide +kernel)⟩⟩

end Nanofile
