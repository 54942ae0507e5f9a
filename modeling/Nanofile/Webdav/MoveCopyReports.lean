import Nanofile.Webdav.MoveCopyRuns

/-!
# When a MOVE or COPY does what it answers

The entry takes its old name along.  Where the destination has that name the entry that is
there gets the new name instead, and the one that was to be moved is nowhere.
-/

set_option autoImplicit false

namespace Nanofile

open Nanofile.Lib

variable {Oid : Type} [DecidableEq Oid] [Digests Oid]

/-! ## What is answered -/

/-- What a MOVE or COPY is about: the new path and, if it is a move, the old one. -/
def Touched (isMove : Bool) (src dst : List String) (oldName newName : String)
    (path : List String) : Prop :=
  dst ++ [newName] <+: path ∨ isMove = true ∧ src ++ [oldName] <+: path

def AboveChange (isMove : Bool) (src dst path : List String) : Prop :=
  path <+: dst ∨ isMove = true ∧ path <+: src

/-- The tree `top` is the tree `root` with the entry at its new path, and for a move no more
at its old one. -/
structure CarriedOut (isMove : Bool) (store after : FsStore Oid) (src dst : List String)
    (oldName newName : String) (root top : Oid) : Prop where
  arrived : ∃ entry entry', FoundAt store src oldName root entry ∧
    FoundAt after dst newName top entry' ∧ entry'.id = entry.id ∧ entry'.mode = entry.mode
  gone : isMove = true → ∀ entry, ¬ FoundAt after src oldName top entry
  stays : isMove = false → ∀ entry, FoundAt store src oldName root entry →
    ∃ entry', FoundAt after src oldName top entry' ∧ entry'.id = entry.id ∧
      entry'.mode = entry.mode
  kept : ∀ upper name entry, ¬ Touched isMove src dst oldName newName (upper ++ [name]) →
    FoundAt store upper name root entry →
    ∃ entry', FoundAt after upper name top entry' ∧ entry'.mode = entry.mode ∧
      (entry'.id = entry.id ∨ isDir entry.mode = true ∧ AboveChange isMove src dst (upper ++ [name]))
  noOther : ∀ upper name entry', ¬ Touched isMove src dst oldName newName (upper ++ [name]) →
    FoundAt after upper name top entry' → ∃ entry, FoundAt store upper name root entry

/-- HEAD went from a tree to the one that the request asks for. -/
def MoveCarriedOut (isMove : Bool) (before after : Repo Oid) (src dst : String) : Prop :=
  ∃ root top, resolveRootFsId before = .ok root ∧ resolveRootFsId after = .ok top ∧
    CarriedOut isMove before.fsObjects after.fsObjects (pathComponents (parentPathFrom src))
      (pathComponents (parentPathFrom dst)) (basename src) (basename dst) root top

/-- The entry arrives under the name it had: nothing else has this name in the destination,
and the destination's text leads there when it is read a second time. -/
def ArrivesUnderName [ToString Oid] (isMove : Bool) (repo : Repo Oid) (head : HeadContext Oid)
    (src dst : String) : Prop :=
  let free := basename src = basename dst ∨
    entryMetadataWithHead repo head (joinPath (parentPathFrom dst) (basename src)) = none
  if isMove then parentPathFrom src = parentPathFrom dst ∨
    safeNormalizePath (parentPathFrom dst) = .ok (parentPathFrom dst) ∧ free
  else free

/-! ## On the trees -/

variable {entry : DirEntryData Oid}

section Trees

variable {store after : FsStore Oid} {root cleared top : Oid} {src dst : List String}
  {oldName newName : String} {isMove : Bool}

theorem carriedOut_of_alike (tree : TreeStored store root) (grown : Table.Extends store after)
    (arrived : ∃ entry entry', FoundAt store src oldName root entry ∧
      FoundAt after dst newName top entry' ∧ entry'.id = entry.id ∧ entry'.mode = entry.mode)
    (gone : isMove = true → ∀ entry, ¬ FoundAt after src oldName top entry)
    (beside : ¬ dst ++ [newName] <+: src ++ [oldName]) (outside : ¬ src ++ [oldName] <+: dst)
    (alike : PathsAlike after root top (Touched isMove src dst oldName newName)
      (AboveChange isMove src dst)) :
    CarriedOut isMove store after src dst oldName newName root top := by
  refine ⟨arrived, gone, fun isCopy entry found => ?_, fun upper name entry apart found => ?_,
    fun upper name entry' apart found => ?_⟩
  · have apart : ¬ Touched isMove src dst oldName newName (src ++ [oldName]) := by
      rintro (into | ⟨isTrue, -⟩)
      · exact beside into
      · simp [isCopy] at isTrue
    obtain ⟨entry', found', sameMode, shape⟩ := alike.kept apart (found.extends grown)
    refine ⟨entry', found', shape.resolve_right ?_, sameMode⟩
    rintro ⟨-, into | ⟨isTrue, -⟩⟩
    · exact outside into
    · simp [isCopy] at isTrue
  · exact alike.kept apart (found.extends grown)
  · obtain ⟨entry, isEntry⟩ := alike.noOther apart found
    exact ⟨entry, tree.foundAt_of_extends grown isEntry⟩

theorem not_carriedOut_of_lost (apart : oldName ≠ newName) (outside : ¬ src ++ [oldName] <+: dst)
    (other : isMove = true → src ≠ dst) (found : FoundAt store dst oldName root entry)
    (lost : ∀ entry, ¬ FoundAt after dst oldName top entry) :
    ¬ CarriedOut isMove store after src dst oldName newName root top := by
  intro carried
  have untouched : ¬ Touched isMove src dst oldName newName (dst ++ [oldName]) := by
    rintro (same | ⟨isMove, same⟩)
    · rcases List.prefix_concat_iff.mp same with same | above
      · exact apart (by simpa using same.symm)
      · exact absurd above.length_le (by simp)
    · rcases List.prefix_concat_iff.mp same with same | above
      · exact other isMove (List.append_inj_left' same rfl)
      · exact outside above
  obtain ⟨entry', found', -⟩ := carried.kept dst oldName entry untouched found
  exact lost entry' found'

theorem MoveSteps.dirAt_other {target : List String} {middle : Oid} {left : List (DirEntryData Oid)}
    (steps : MoveSteps store after src target entry cleared middle) (other : src ≠ dst)
    (outside : ¬ src ++ [entry.name] <+: dst) (lists : DirAt after dst cleared left)
    (unique : NamesNodup left) :
    ∃ listed, DirAt after dst middle listed ∧ NamesNodup listed ∧
      (target ≠ dst → (listed.map DirEntryData.name).Perm (left.map DirEntryData.name)) := by
  obtain ⟨between, moved, -, -, -, taken, arrived⟩ := steps.edits
  obtain ⟨listed, lists', names⟩ :=
    taken.dirAt_other (Ne.symm other) (keepsWay_withoutName outside) lists
  have unique' : NamesNodup listed := names.nodup_iff.mpr unique
  by_cases here : target = dst
  · subst here
    exact ⟨_, arrived.dirAt lists', namesNodup_stored.mpr (namesNodup_pushUnlessNamed unique' _),
      fun apart => absurd rfl apart⟩
  · obtain ⟨listed', lists'', names'⟩ := arrived.dirAt_other (Ne.symm here)
      (fun name _ => keepsFound_pushUnlessNamed moved name) lists'
    exact ⟨listed', lists'', names'.nodup_iff.mpr unique', fun _ => names'.trans names⟩

/-- The entry leaves one directory and arrives in another one under the name it had. -/
theorem MoveSteps.arrived {middle : Oid} {left : List (DirEntryData Oid)}
    (steps : MoveSteps store after src dst entry cleared middle) (other : src ≠ dst)
    (lists : DirAt after dst cleared left) (unique : NamesNodup left)
    (free : entry.name ∉ left.map DirEntryData.name) (wanted : newName ∉ left.map DirEntryData.name)
    (beside : ¬ dst ++ [newName] <+: src ++ [entry.name])
    (renamed : RenamedTo after dst entry.name newName middle top) :
    (∃ entry', FoundAt after dst newName top entry' ∧ entry'.id = entry.id ∧
      entry'.mode = entry.mode) ∧ (∀ gone, ¬ FoundAt after src entry.name top gone) ∧
      PathsAlike after cleared top (Touched true src dst entry.name newName)
        (AboveChange true src dst) := by
  obtain ⟨between, moved, sameName, sameId, sameMode, taken, arrived⟩ := steps.edits
  obtain ⟨listed, lists', names⟩ :=
    taken.dirAt_other (Ne.symm other) (keepsWay_withoutName steps.apart) lists
  rw [← sameName] at renamed free
  rw [← names.mem_iff] at free wanted
  obtain ⟨⟨entry', found', isId, isMode⟩, alike⟩ := renamed.arrived lists'
    (names.nodup_iff.mpr unique) free wanted (pushUnlessNamed_of_not_mem free) arrived
  obtain ⟨source, listsSource, -⟩ := (steps.source.extends steps.grown).dirAt
  have gone : ∀ gone, ¬ FoundAt after src entry.name between gone := by
    refine (taken.dirAt listsSource).not_found fun isListed => ?_
    exact not_mem_names_withoutName _ _ ((names_stored _).mem_iff.mp isListed)
  refine ⟨⟨entry', found', isId.trans sameId, isMode.trans sameMode⟩, fun last found => ?_, ?_⟩
  · obtain ⟨before, isBefore⟩ := alike.noOther (by simpa [Passes] using beside) found
    exact gone before isBefore
  · have leaving : PathsAlike after cleared between (Passes src [entry.name]) (· <+: src) := by
      refine taken.pathsAlike fun _ _ name apart => ?_
      exact lookup_withoutName_of_ne (by simpa using apart)
    refine (leaving.mono ?_ ?_).trans (alike.mono ?_ ?_)
    · exact fun path passes => Or.inr ⟨rfl, by simpa [Passes] using passes⟩
    · exact fun path above => Or.inr ⟨rfl, above⟩
    · exact fun path passes => Or.inl (by simpa [Passes] using passes)
    · exact fun path above => Or.inl above

end Trees

/-! ## On HEAD -/

variable [ToString Oid] {limits : Limits} {email : String} {before middle final : WebState Oid}
  {root cleared top : Oid} {src : String} {target : MoveTarget}
  {entries left : List (DirEntryData Oid)}

/-- A request that passed its checks and its target out of the way. -/
structure Ready (before middle : WebState Oid) (src : String) (target : MoveTarget)
    (root cleared : Oid) (entries left : List (DirEntryData Oid)) : Prop where
  library : LibraryTree before.repo
  isRoot : resolveRootFsId before.repo = .ok root
  plain : PlainPath src
  accepted : Accepted before.repo ⟨some root⟩ src target
  lists : DirAt before.repo.fsObjects (pathComponents (parentPathFrom target.path)) root entries
  room : Cleared before middle (pathComponents (parentPathFrom target.path))
    (basename target.path) root cleared entries left

section

variable (ready : Ready before middle src target root cleared entries left)
include ready

theorem Ready.wanted : basename target.path ∉ left.map DirEntryData.name :=
  fun listed => ((ready.room.names _).mp listed).2 rfl

theorem Ready.source
    (found : FoundAt middle.repo.fsObjects (pathComponents (parentPathFrom src))
      (basename src) cleared entry) :
    ∃ origin, FoundAt before.repo.fsObjects (pathComponents (parentPathFrom src)) (basename src)
        root origin ∧ entry.id = origin.id ∧ entry.mode = origin.mode ∧
      ¬ pathComponents (parentPathFrom target.path) ++ [basename target.path] <+:
        pathComponents (parentPathFrom src) ++ [basename src] ∧
      ¬ pathComponents (parentPathFrom src) ++ [basename src] <+:
        pathComponents (parentPathFrom target.path) := by
  have beside : ¬ pathComponents (parentPathFrom target.path) ++ [basename target.path] <+:
      pathComponents (parentPathFrom src) ++ [basename src] := by
    intro into
    obtain ⟨passed, isPassed⟩ := found.passed into
    exact ready.room.lists.not_found ready.wanted passed isPassed
  have alike := ready.room.alike (Table.Extends.refl _)
  have outside : ¬ Passes (pathComponents (parentPathFrom target.path)) [basename target.path]
      (pathComponents (parentPathFrom src) ++ [basename src]) := by
    simpa [Passes] using beside
  obtain ⟨origin, isOrigin⟩ := alike.noOther outside found
  have stored := ready.library.stored root ready.isRoot
  have isSource := stored.foundAt_of_extends ready.room.went.grown isOrigin
  have notAbove := ready.accepted.not_above ready.plain isSource ready.lists
  obtain ⟨entry', found', sameMode, shape⟩ := alike.kept outside isOrigin
  obtain rfl := found.unique found'
  exact ⟨origin, isSource, shape.resolve_right fun above => notAbove above.2, sameMode, beside,
    notAbove⟩

theorem Ready.free_iff :
    basename src ∉ left.map DirEntryData.name ↔ basename src = basename target.path ∨
      entryMetadataWithHead before.repo ⟨some root⟩
        (joinPath (parentPathFrom target.path) (basename src)) = none := by
  obtain ⟨plainTarget, -⟩ := pathComponents_eq_of_plain ready.accepted.plain ready.accepted.below
  have plain := plainNames_arrival ready.plain ready.accepted.srcBelow
    (parentPathFrom target.path)
  have text : joinPath (parentPathFrom target.path) (basename src) =
      pathOf (pathComponents (parentPathFrom target.path) ++ [basename src]) := by
    conv => lhs; rw [plainTarget]
    exact joinPath_pathOf plain.left _
  rw [ready.room.names, not_and_or, not_not, or_comm, text, ← ready.lists.metadata_iff plain,
    Option.not_isSome_iff_eq_none]

theorem Ready.alike (isMove : Bool)
    (grown : Table.Extends middle.repo.fsObjects final.repo.fsObjects) :
    PathsAlike final.repo.fsObjects root cleared
      (Touched isMove (pathComponents (parentPathFrom src))
        (pathComponents (parentPathFrom target.path)) (basename src) (basename target.path))
      (AboveChange isMove (pathComponents (parentPathFrom src))
        (pathComponents (parentPathFrom target.path))) := by
  refine (ready.room.alike grown).mono (fun path passes => ?_) fun path above => Or.inl above
  exact Or.inl (by simpa [Passes] using passes)

variable {listed : List (DirEntryData Oid)}

/-- What has the name of the entry in its destination is lost when the entry goes on. -/
theorem Ready.lost {isMove : Bool} {between : Oid}
    (outside : ¬ pathComponents (parentPathFrom src) ++ [basename src] <+:
      pathComponents (parentPathFrom target.path))
    (other : isMove = true → pathComponents (parentPathFrom src) ≠
      pathComponents (parentPathFrom target.path))
    (taken : basename src ∈ left.map DirEntryData.name)
    (lists : DirAt final.repo.fsObjects (pathComponents (parentPathFrom target.path)) between listed)
    (unique : NamesNodup listed)
    (renamed : RenamedTo final.repo.fsObjects (pathComponents (parentPathFrom target.path))
      (basename src) (basename target.path) between top) :
    ¬ CarriedOut isMove before.repo.fsObjects final.repo.fsObjects
      (pathComponents (parentPathFrom src)) (pathComponents (parentPathFrom target.path))
      (basename src) (basename target.path) root top := by
  obtain ⟨listedBefore, apart⟩ := (ready.room.names _).mp taken
  obtain ⟨entry, found⟩ := ready.lists.exists_found_iff.mpr listedBefore
  exact not_carriedOut_of_lost apart outside other found (renamed.left lists unique apart)

/-! ## MOVE -/

theorem Ready.renamed (went : HeadWent middle final cleared top)
    (same : parentPathFrom src = parentPathFrom target.path)
    (source : ∃ entry, FoundAt middle.repo.fsObjects (pathComponents (parentPathFrom src))
      (basename src) cleared entry)
    (edited : EditedAt final.repo.fsObjects (pureEdit (renameFirst (basename src) (basename target.path)))
      (pathComponents (parentPathFrom src)) cleared top) :
    CarriedOut true before.repo.fsObjects final.repo.fsObjects
      (pathComponents (parentPathFrom src)) (pathComponents (parentPathFrom target.path))
      (basename src) (basename target.path) root top := by
  have apart : basename src ≠ basename target.path := by
    intro sameName
    refine ready.accepted.other ?_
    rw [ready.accepted.plain, ready.plain,
      (pathComponents_eq_of_plain ready.accepted.plain ready.accepted.below).2,
      (pathComponents_eq_of_plain ready.plain ready.accepted.srcBelow).2, same, sameName]
  obtain ⟨entry, found⟩ := source
  obtain ⟨origin, isOrigin, sameId, sameMode, beside, outside⟩ := ready.source found
  rw [same] at edited found
  have isRenamed := edited.renamedIn (ready.room.lists.extends went.grown) ready.room.unique apart
    ready.wanted
  obtain ⟨entry', found', isId, isMode⟩ := isRenamed.arrived entry (found.extends went.grown)
  refine carriedOut_of_alike (ready.library.stored root ready.isRoot)
    (ready.room.went.grown.trans went.grown)
    ⟨origin, entry', isOrigin, found', isId.trans sameId, isMode.trans sameMode⟩
    (fun _ => same ▸ isRenamed.left) beside outside ((ready.alike true went.grown).trans ?_)
  refine isRenamed.alike.mono (fun path ⟨name, listed, way⟩ => ?_) fun path above => Or.inl above
  rcases List.mem_cons.mp listed with rfl | listed
  · exact Or.inr ⟨rfl, same ▸ way⟩
  · exact Or.inl (by rwa [List.mem_singleton.mp listed] at way)

theorem Ready.moved_iff (went : HeadWent middle final cleared top)
    (moved : MovedTo middle.repo.fsObjects final.repo.fsObjects src target.path cleared top) :
    CarriedOut true before.repo.fsObjects final.repo.fsObjects
        (pathComponents (parentPathFrom src)) (pathComponents (parentPathFrom target.path))
        (basename src) (basename target.path) root top ↔
      ArrivesUnderName true before.repo ⟨some root⟩ src target.path := by
  simp only [ArrivesUnderName, if_pos, ← ready.free_iff]
  cases moved with
  | renamed same source edited =>
    exact ⟨fun _ => Or.inl same, fun _ => ready.renamed went same source edited⟩
  | @moved newParentPath between entry other normal isName steps renamed =>
    obtain ⟨plainTarget, -⟩ := pathComponents_eq_of_plain ready.accepted.plain ready.accepted.below
    obtain ⟨plainParent, -⟩ := pathComponents_eq_of_plain ready.plain ready.accepted.srcBelow
    have plainNew := plainPath_of_safeNormalizePath normal
    have otherParts : pathComponents (parentPathFrom src) ≠
        pathComponents (parentPathFrom target.path) :=
      fun same => other (by rw [plainParent, plainTarget, same])
    obtain ⟨origin, isOrigin, sameId, sameMode, beside, outside⟩ :=
      ready.source (isName ▸ steps.source)
    have lists := ready.room.lists.extends went.grown
    obtain ⟨listed, listsThere, uniqueThere, names⟩ :=
      steps.dirAt_other otherParts (isName ▸ outside) lists ready.room.unique
    constructor
    · intro carried
      refine Or.inr ⟨?_, fun taken => ?_⟩
      · by_contra elsewhere
        have names := names fun sameParts =>
          elsewhere (by rw [normal, plainNew, sameParts, ← plainTarget])
        by_cases apart : basename src = basename target.path
        · obtain ⟨-, entry', -, found', -⟩ := carried.arrived
          rcases renamed with ⟨-, rfl⟩ | ⟨differ, -⟩
          · exact listsThere.not_found (fun isListed => ready.wanted (names.mem_iff.mp isListed))
              entry' found'
          · exact differ apart
        · rcases renamed with ⟨same, -⟩ | ⟨differ, source, edited⟩
          · exact apart same
          · have taken := names.mem_iff.mp (listsThere.exists_found_iff.mp source)
            exact ready.lost outside (fun _ => otherParts) taken listsThere uniqueThere
              (Or.inr ⟨differ, source, edited⟩) carried
      · exact ready.lost outside (fun _ => otherParts) taken listsThere uniqueThere renamed carried
    · rintro (same | ⟨normalHere, free⟩)
      · exact absurd same other
      · obtain rfl := Except.ok.inj (normal.symm.trans normalHere)
        rw [← isName] at free renamed beside
        obtain ⟨⟨entry', found', isId, isMode⟩, gone, alike⟩ := steps.arrived otherParts lists
          ready.room.unique free ready.wanted beside renamed
        rw [isName] at gone alike beside
        exact carriedOut_of_alike (ready.library.stored root ready.isRoot)
          (ready.room.went.grown.trans went.grown)
          ⟨origin, entry', isOrigin, found', isId.trans sameId, isMode.trans sameMode⟩
          (fun _ => gone) beside outside ((ready.alike true went.grown).trans alike)

/-! ## COPY -/

theorem Ready.copied_iff {copied : Oid} {source : DirEntryData Oid}
    {time : Int} (went : HeadWent middle final cleared top)
    (copies : Copies middle.repo (parentPathFrom src) (parentPathFrom target.path)
      (basename src) cleared source listed)
    (edited : EditedAt final.repo.fsObjects (pureEdit (· ++ [copyOf listed source email time]))
      (pathComponents (parentPathFrom target.path)) cleared copied)
    (renamed : RenamedTo final.repo.fsObjects (pathComponents (parentPathFrom target.path))
      (basename src) (basename target.path) copied top) :
    CarriedOut false before.repo.fsObjects final.repo.fsObjects
        (pathComponents (parentPathFrom src)) (pathComponents (parentPathFrom target.path))
        (basename src) (basename target.path) root top ↔
      ArrivesUnderName false before.repo ⟨some root⟩ src target.path := by
  simp only [ArrivesUnderName, Bool.false_eq_true, if_false, ← ready.free_iff]
  obtain rfl := copies.lists.eq ready.room.lists
  obtain ⟨origin, isOrigin, sameId, sameMode, beside, outside⟩ := ready.source copies.found
  have lists := ready.room.lists.extends went.grown
  have isName : source.name = basename src := by
    obtain ⟨_, _, _, _, isEntry⟩ := copies.found
    exact (lookup_eq_some isEntry).2
  constructor
  · intro carried taken
    refine ready.lost outside (fun isMove => absurd isMove (by decide)) taken (edited.dirAt lists)
      (namesNodup_stored.mpr ?_) renamed carried
    exact namesNodup_concat ready.room.unique (freshName_not_mem _ _)
  · intro free
    have sameName : (copyOf listed source email time).name = basename src := by
      rw [copyOf, isName]
      exact freshName_of_not_mem free
    rw [← sameName] at renamed free
    obtain ⟨⟨entry', found', isId, isMode⟩, alike⟩ := renamed.arrived lists ready.room.unique free
      ready.wanted rfl edited
    refine carriedOut_of_alike (ready.library.stored root ready.isRoot)
      (ready.room.went.grown.trans went.grown)
      ⟨origin, entry', isOrigin, found', isId.trans sameId, isMode.trans sameMode⟩
      (fun isMove => absurd isMove (by decide)) beside outside
      ((ready.alike false went.grown).trans (alike.mono ?_ fun path above => Or.inl above))
    exact fun path passes => Or.inl (by simpa [Passes] using passes)

end

/-! ## The handler -/

variable {isMove : Bool} {head : HeadContext Oid}

omit [Digests Oid] [ToString Oid] in
theorem resolveRootFsId_of_resolveHead {repo : Repo Oid} (isHead : resolveHead repo = .ok ⟨some root⟩) :
    resolveRootFsId repo = .ok root := by
  unfold resolveHead at isHead
  split at isHead
  · cases isHead
  · rename_i headCommitId isId
    split at isHead
    · cases isHead
    · rename_i row found
      cases isHead
      exact resolveRootFsId_eq_ok_iff.mpr ⟨headCommitId, row, isId, found, rfl⟩

theorem Accepted.absent {repo : Repo Oid} (accepted : Accepted repo ⟨none⟩ src target) :
    target.existed = false := by
  have nonempty : target.path ≠ "" := by
    intro isEmpty
    have plainTarget := accepted.plain
    rw [PlainPath, isEmpty] at plainTarget
    exact absurd plainTarget (by decide)
  rw [accepted.existed, ← Bool.not_eq_true, metadata_isSome_iff accepted.below nonempty]
  rintro ⟨entry, found⟩
  cases found

section

variable (library : LibraryTree before.repo) (isHead : resolveHead before.repo = .ok head)
    (plain : PlainPath src) (accepted : Accepted before.repo head src target)
    (run : replaceTarget limits email head isMove src target before = (.ok (), final))
include library isHead plain accepted run

theorem root_of_replaceTarget : ∃ root, resolveRootFsId before.repo = .ok root := by
  obtain ⟨rootId⟩ := head
  cases rootId with
  | some root => exact ⟨root, resolveRootFsId_of_resolveHead isHead⟩
  | none =>
    rw [replaceTarget_eq] at run
    obtain ⟨_, middle, clearing, run⟩ := Proc.bind_ok_iff.mp run
    rw [accepted.absent] at clearing
    cases clearing
    cases isMove with
    | true =>
      obtain ⟨root, _, went, -⟩ := doMove_edits library.genuine plain accepted.srcBelow
        accepted.plain accepted.below library.stored run
      exact ⟨root, went.isRoot⟩
    | false =>
      obtain ⟨root, _, _, _, _, _, went, -⟩ := doCopy_edits library.genuine plain
        accepted.srcBelow accepted.plain accepted.below run
      exact ⟨root, went.isRoot⟩

theorem replaceTarget_carriedOut_iff :
    MoveCarriedOut isMove before.repo final.repo src target.path ↔
      ArrivesUnderName isMove before.repo head src target.path := by
  obtain ⟨root, isRoot⟩ := root_of_replaceTarget library isHead plain accepted run
  obtain rfl := isRoot_of_resolveHead isHead isRoot
  obtain ⟨entries, lists⟩ := accepted.dirAt library isRoot
  rw [replaceTarget_eq] at run
  obtain ⟨_, middle, clearing, run⟩ := Proc.bind_ok_iff.mp run
  obtain ⟨cleared, left, room⟩ := cleared_of_run library isRoot accepted lists clearing
  have ready : Ready before middle src target root cleared entries left :=
    ⟨library, isRoot, plain, accepted, lists, room⟩
  -- What is carried out is decided between the roots of the two HEADs.
  have decided : ∀ {top : Oid}, resolveRootFsId final.repo = .ok top →
      (MoveCarriedOut isMove before.repo final.repo src target.path ↔
        CarriedOut isMove before.repo.fsObjects final.repo.fsObjects
          (pathComponents (parentPathFrom src)) (pathComponents (parentPathFrom target.path))
          (basename src) (basename target.path) root top) := by
    intro top isTop
    constructor
    · rintro ⟨root', top', isRoot', isTop', carried⟩
      obtain rfl := Except.ok.inj (isRoot.symm.trans isRoot')
      obtain rfl := Except.ok.inj (isTop.symm.trans isTop')
      exact carried
    · exact fun carried => ⟨root, top, isRoot, isTop, carried⟩
  cases isMove with
  | true =>
    obtain ⟨start, top, went, moved⟩ := doMove_edits room.went.genuine plain accepted.srcBelow
      accepted.plain accepted.below room.tree run
    obtain rfl := Except.ok.inj (room.went.isTop.symm.trans went.isRoot)
    rw [decided went.isTop]
    exact ready.moved_iff went moved
  | false =>
    obtain ⟨start, copied, top, source, listed, time, went, copies, edited, renamed⟩ :=
      doCopy_edits room.went.genuine plain accepted.srcBelow accepted.plain accepted.below run
    obtain rfl := Except.ok.inj (room.went.isTop.symm.trans went.isRoot)
    rw [decided went.isTop]
    exact ready.copied_iff went copies edited renamed

end

omit [DecidableEq Oid] [Digests Oid] [ToString Oid] in
theorem exists_answer {run : StatusCode × WebState Oid} {status : StatusCode}
    (answer : run.1 = status) : ∃ final, run = (status, final) :=
  ⟨run.2, Prod.ext answer rfl⟩

theorem replaceTarget_of_done {percentDecode : String → String} {auth : WebDavAuth}
    {headers : MoveHeaders} {status : StatusCode}
    (checked : checkMoveCopy percentDecode auth src headers head before.repo = .ok target)
    (run : moveCopyHandler limits percentDecode auth src headers isMove head before =
      (status, final)) (done : status = .created ∨ status = .noContent) :
    replaceTarget limits auth.email head isMove src target before = (.ok (), final) := by
  unfold moveCopyHandler at run
  rw [checked] at run
  dsimp only at run
  split at run
  · cases run
    rcases done with isDone | isDone
    · cases isDone
    · cases isDone
  · rename_i ran
    cases run
    exact ran

/-- A MOVE or COPY that is answered as done is what was asked for exactly when its entry arrives
under the name it had. -/
theorem moveCopyHandler_carriedOut_iff {percentDecode : String → String} {auth : WebDavAuth}
    {raw : String} {headers : MoveHeaders} {status : StatusCode}
    (library : LibraryTree before.repo) (isHead : resolveHead before.repo = .ok head)
    (normal : normalizeWebdavPath raw = .ok src)
    (checked : checkMoveCopy percentDecode auth src headers head before.repo = .ok target)
    (run : moveCopyHandler limits percentDecode auth src headers isMove head before =
      (status, final)) (done : status = .created ∨ status = .noContent) :
    MoveCarriedOut isMove before.repo final.repo src target.path ↔
      ArrivesUnderName isMove before.repo head src target.path :=
  replaceTarget_carriedOut_iff library isHead
    (plainPath_of_safeNormalizePath (mapError_eq_ok_iff.mp normal)) (accepted_of_check checked)
    (replaceTarget_of_done checked run done)

/-! ## A name that is taken -/

theorem libraryTree_of_check {repo : Repo FreeId} (genuine : Genuine repo.fsObjects) (depth : Nat)
    (checked : (resolveRootFsId repo).toOption.all (fun root =>
      (dirBatch repo.fsObjects root).isSome &&
        wellFormedCheck repo.fsObjects depth (entriesOf repo.fsObjects root)) = true) :
    LibraryTree repo := by
  refine libraryTree_of_wellFormed genuine fun root isRoot => ?_
  rw [isRoot] at checked
  obtain ⟨isSome, formed⟩ := Bool.and_eq_true_iff.mp checked
  obtain ⟨data, read⟩ := Option.isSome_iff_exists.mp isSome
  refine ⟨Or.inr ⟨data, read, ?_⟩, wellFormed_of_check depth formed⟩
  rw [entriesOf, read]
  rfl

def clashFrom : FsDirData FreeId := directory [fileEntry "f" (.atom 1) 1]

def clashTo : FsDirData FreeId := directory [fileEntry "f" (.atom 2) 1]

/-- `/a` and `/b` have different files `f`. -/
def clashLibrary : WebState FreeId :=
  ⟨libraryOf (directory [dirEntry "b" (Digests.dirId clashTo),
    dirEntry "a" (Digests.dirId clashFrom)]) [clashFrom, clashTo], [], fun count => count⟩

def clashHead : HeadContext FreeId := ⟨(resolveRootFsId clashLibrary.repo).toOption⟩

def clashUser : WebDavAuth := ⟨"rw", "library", "user"⟩

theorem clashLibrary_tree : LibraryTree clashLibrary.repo :=
  libraryTree_of_check (genuine_libraryOf _ _) 3 (by decide +kernel)

theorem clashHead_eq : resolveHead clashLibrary.repo = .ok clashHead := by decide +kernel

/-- Moved to `/b/g`, the file `/a/f` is nowhere and the one of `/b` has the new name.  Copied to
`/a/g`, it has lost its own name. -/
theorem moveCopyHandler_loses :
    LibraryTree clashLibrary.repo ∧ resolveHead clashLibrary.repo = .ok clashHead ∧
    (∃ final, moveCopyHandler defaultLimits id clashUser "/a/f" ⟨some "/dav/library/b/g", none⟩ true
        clashHead clashLibrary = (.created, final) ∧
      ¬ MoveCarriedOut true clashLibrary.repo final.repo "/a/f" "/b/g") ∧
    ∃ final, moveCopyHandler defaultLimits id clashUser "/a/f" ⟨some "/dav/library/a/g", none⟩ false
        clashHead clashLibrary = (.created, final) ∧
      ¬ MoveCarriedOut false clashLibrary.repo final.repo "/a/f" "/a/g" := by
  have movedTo : checkMoveCopy id clashUser "/a/f" ⟨some "/dav/library/b/g", none⟩ clashHead
      clashLibrary.repo = .ok ⟨"/b/g", false⟩ := by decide +kernel
  have copiedTo : checkMoveCopy id clashUser "/a/f" ⟨some "/dav/library/a/g", none⟩ clashHead
      clashLibrary.repo = .ok ⟨"/a/g", false⟩ := by decide +kernel
  obtain ⟨moved, moving⟩ := exists_answer (show (moveCopyHandler defaultLimits id clashUser "/a/f"
    ⟨some "/dav/library/b/g", none⟩ true clashHead clashLibrary).1 = .created by decide +kernel)
  obtain ⟨copied, copying⟩ := exists_answer (show (moveCopyHandler defaultLimits id clashUser "/a/f"
    ⟨some "/dav/library/a/g", none⟩ false clashHead clashLibrary).1 = .created by decide +kernel)
  refine ⟨clashLibrary_tree, clashHead_eq, ⟨moved, moving, fun carried => ?_⟩, copied, copying,
    fun carried => ?_⟩
  · have arrives := (replaceTarget_carriedOut_iff clashLibrary_tree clashHead_eq (by decide)
      (accepted_of_check movedTo) (replaceTarget_of_done movedTo moving (Or.inl rfl))).mp carried
    unfold ArrivesUnderName at arrives
    exact absurd arrives (by decide +kernel)
  · have arrives := (replaceTarget_carriedOut_iff clashLibrary_tree clashHead_eq (by decide)
      (accepted_of_check copiedTo) (replaceTarget_of_done copiedTo copying (Or.inl rfl))).mp carried
    unfold ArrivesUnderName at arrives
    exact absurd arrives (by decide +kernel)

/-- Moved over the file of the same name, `/a/f` is what `/b/f` is afterwards. -/
theorem moveCopyHandler_overwrites : ∃ final,
    moveCopyHandler defaultLimits id clashUser "/a/f" ⟨some "/dav/library/b/f", none⟩ true
      clashHead clashLibrary = (.noContent, final) ∧
    MoveCarriedOut true clashLibrary.repo final.repo "/a/f" "/b/f" := by
  have movedTo : checkMoveCopy id clashUser "/a/f" ⟨some "/dav/library/b/f", none⟩ clashHead
      clashLibrary.repo = .ok ⟨"/b/f", true⟩ := by decide +kernel
  obtain ⟨moved, moving⟩ := exists_answer (show (moveCopyHandler defaultLimits id clashUser "/a/f"
    ⟨some "/dav/library/b/f", none⟩ true clashHead clashLibrary).1 = .noContent by decide +kernel)
  have normal : normalizeWebdavPath "a/f" = .ok "/a/f" := by decide +kernel
  refine ⟨moved, moving, (moveCopyHandler_carriedOut_iff clashLibrary_tree clashHead_eq normal
    movedTo moving (Or.inr rfl)).mpr ?_⟩
  unfold ArrivesUnderName
  decide +kernel

end Nanofile
