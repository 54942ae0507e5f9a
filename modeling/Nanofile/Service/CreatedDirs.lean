import Nanofile.Service.OneDirectory
import Nanofile.Service.SpelledWalks

/-!
# The directories an upload creates

A folder upload creates the directories of its path that are missing, one commit each.
Nothing else appears in the tree, and nothing goes.
-/

set_option autoImplicit false

namespace Nanofile

open Nanofile.Lib

variable {Oid : Type} [DecidableEq Oid] [Digests Oid]

/-! ## What a tree keeps -/

/-- Every entry of one tree is in the other, under another id only for a directory on the way
to the place. -/
def PathsKept (before after : FsStore Oid) (root top : Oid) (place : List String) : Prop :=
  ∀ {upper : List String} {name : String} {entry : DirEntryData Oid},
    FoundAt before upper name root entry → ∃ entry', FoundAt after upper name top entry' ∧
      entry'.mode = entry.mode ∧
      (entry'.id = entry.id ∨ isDir entry.mode = true ∧ upper ++ [name] <+: place)

variable {store : FsStore Oid}

theorem PathsKept.refl (root : Oid) (place : List String) : PathsKept store store root root place :=
  fun found => ⟨_, found, rfl, Or.inl rfl⟩

variable {root top : Oid} {place : List String}

theorem PathsKept.trans {first second third : FsStore Oid} {middle : Oid}
    (left : PathsKept first second root middle place)
    (right : PathsKept second third middle top place) : PathsKept first third root top place := by
  intro upper name entry found
  obtain ⟨between, foundBetween, sameMode, shape⟩ := left found
  obtain ⟨last, foundLast, sameMode', shape'⟩ := right foundBetween
  refine ⟨last, foundLast, sameMode'.trans sameMode, ?_⟩
  rcases shape' with same | ⟨directory, way⟩
  · exact shape.imp same.trans id
  · exact Or.inr ⟨sameMode ▸ directory, way⟩

/-- No directory of the tree lists a name that paths read as a step up or as none. -/
def NoDotNames (store : FsStore Oid) (root : Oid) : Prop :=
  ∀ {upper : List String} {name : String} {entry : DirEntryData Oid},
    FoundAt store upper name root entry → ¬ IsDots name

theorem Resolves.noDots :
    ∀ {parts : List String} {root dir : Oid}, NoDotNames store root →
      Resolves store parts root dir → ∀ part ∈ parts, ¬ IsDots part := by
  intro parts
  induction parts with
  | nil => exact fun _ _ part listed => absurd listed List.not_mem_nil
  | cons name rest ih =>
    intro root dir noDots resolves part listed
    obtain ⟨entries, entry, stands, found, directory, below⟩ := resolves
    rcases List.mem_cons.mp listed with rfl | listed
    · exact @noDots [] part entry ⟨root, entries, rfl, stands, found⟩
    · refine ih ?_ below part listed
      intro upper other inner isInner
      obtain ⟨dir', listed', leads, standsDir, isEntry⟩ := isInner
      exact @noDots (name :: upper) other inner
        ⟨dir', listed', ⟨entries, entry, stands, found, directory, leads⟩, standsDir, isEntry⟩

/-! ## One new directory -/

def newDirectory (name email : String) (time : Int) : DirEntryData Oid :=
  ⟨emptySha1, sIfdir, email, time, name, 0⟩

variable {email name : String} {time : Int} {entries : List (DirEntryData Oid)}

omit [DecidableEq Oid] in
theorem lookup_pushUnlessNamed {other : String} {found : DirEntryData Oid}
    (isFound : lookup (pushUnlessNamed (newDirectory name email time) entries) other = some found) :
    lookup entries other = some found ∨ other = name ∧ found = newDirectory name email time := by
  unfold pushUnlessNamed at isFound
  split at isFound
  · exact Or.inl isFound
  · rw [lookup, List.find?_append] at isFound
    cases before : entries.find? fun entry => entry.name = other with
    | some entry =>
      rw [before] at isFound
      exact Or.inl (before.trans isFound)
    | none =>
      rw [before, Option.none_or, List.find?_singleton] at isFound
      split at isFound
      · rename_i named
        cases isFound
        exact Or.inr ⟨(of_decide_eq_true named).symm, rfl⟩
      · simp at isFound

variable {upper : List String} {entry : DirEntryData Oid}

theorem foundAt_empty : ¬ FoundAt store upper name emptySha1 entry := by
  rintro ⟨dir, entries, resolves, stands, isEntry⟩
  have none : ∀ {listed : List (DirEntryData Oid)}, StandsFor store emptySha1 listed →
      listed = [] := fun stands => by
    rw [← stands.entries, entriesOf, dirBatch_empty]
    rfl
  cases upper with
  | nil =>
    obtain rfl : emptySha1 = dir := resolves
    rw [none stands] at isEntry
    simp [lookup] at isEntry
  | cons first rest =>
    obtain ⟨listed, passed, standsRoot, isPassed, -, -⟩ := resolves
    rw [none standsRoot] at isPassed
    simp [lookup] at isPassed

variable {dir : Oid} {parts : List String}

theorem FoundAt.below (resolves : Resolves store parts root dir)
    (found : FoundAt store upper name dir entry) :
    FoundAt store (parts ++ upper) name root entry := by
  obtain ⟨dir', entries, resolves', stands, isEntry⟩ := found
  exact ⟨dir', entries, resolves_append.mpr ⟨dir, resolves, resolves'⟩, stands, isEntry⟩

variable {created : String}

theorem EditedAt.found_created
    (edited : EditedAt store (pureEdit (pushUnlessNamed (newDirectory created email time))) parts
      root top) {entry' : DirEntryData Oid} (found : FoundAt store upper name top entry') :
    (∃ entry, FoundAt store upper name root entry) ∨ upper = parts ∧ name = created := by
  rcases edited.found_after found with before |
    ⟨tail, old, new, entries, rfl, resolves, standsOld, standsNew, below⟩
  · exact Or.inl before
  · rcases below.in_stored standsNew with ⟨rfl, entry, isEntry⟩ |
      ⟨first, others, entry, rfl, isReached, directory, inside⟩
    · rcases lookup_pushUnlessNamed isEntry with before | ⟨same, -⟩
      · exact Or.inl ⟨entry, FoundAt.below resolves ⟨old, entries, rfl, standsOld, before⟩⟩
      · exact Or.inr ⟨List.append_nil parts, same⟩
    · rcases lookup_pushUnlessNamed isReached with before | ⟨-, rfl⟩
      · obtain ⟨dir, listed, leads, standsDir, isEntry⟩ := inside
        exact Or.inl ⟨entry', FoundAt.below resolves ⟨dir, listed,
          ⟨entries, entry, standsOld, before, directory, leads⟩, standsDir, isEntry⟩⟩
      · exact absurd inside foundAt_empty

/-- A stored tree whose ids are genuine and whose names are no dots. -/
structure PlainTree (store : FsStore Oid) (root : Oid) : Prop where
  genuine : Genuine store
  tree : TreeStored store root
  noDots : NoDotNames store root

theorem TreeStored.extends {after : FsStore Oid} (tree : TreeStored store root)
    (grown : Table.Extends store after) : TreeStored after root := by
  intro parts dir resolves
  obtain ⟨entries, stands⟩ := tree parts dir (TreeStored.resolves_of_extends grown tree resolves)
  exact ⟨entries, stands.extends grown⟩

theorem treeStored_empty : TreeStored store emptySha1 := by
  intro parts dir resolves
  cases parts with
  | nil =>
    obtain rfl : emptySha1 = dir := resolves
    exact ⟨[], Or.inl ⟨rfl, rfl⟩⟩
  | cons name rest =>
    obtain ⟨entries, entry, stands, found, -⟩ := resolves
    have isFound : FoundAt store [] name emptySha1 entry := ⟨_, entries, rfl, stands, found⟩
    exact absurd isFound foundAt_empty

theorem EditedAt.treeStored {updateFn : List (DirEntryData Oid) → List (DirEntryData Oid)}
    (edited : EditedAt store (pureEdit updateFn) parts root top) (tree : TreeStored store root)
    (children : ∀ entries, (∀ name entry, lookup entries name = some entry →
        isDir entry.mode = true → TreeStored store entry.id) →
      ∀ name entry, lookup (updateFn entries) name = some entry → isDir entry.mode = true →
        TreeStored store entry.id) : TreeStored store top := by
  -- What the top lists decides, level by level.
  have level : ∀ {top : Oid} {listed : List (DirEntryData Oid)}, StandsFor store top listed →
      (∀ name entry, lookup listed name = some entry → isDir entry.mode = true →
        TreeStored store entry.id) → TreeStored store top := by
    intro top listed stands below path dir resolves
    cases path with
    | nil =>
      obtain rfl : top = dir := resolves
      exact ⟨listed, stands⟩
    | cons first rest =>
      obtain ⟨listed', entry, stands', found, directory, deeper⟩ := resolves
      obtain rfl := stands.entries.symm.trans stands'.entries
      exact below first entry found directory rest dir deeper
  have written : ∀ {entries : List (DirEntryData Oid)} {name : String} {entry : DirEntryData Oid},
      (∀ name entry, lookup entries name = some entry → isDir entry.mode = true →
        TreeStored store entry.id) → lookup (stored entries) name = some entry →
      isDir entry.mode = true → TreeStored store entry.id := by
    intro entries name entry below found directory
    rw [lookup_in_stored, Option.map_eq_some_iff] at found
    obtain ⟨origin, found, rfl⟩ := found
    rw [written_mode] at directory
    rw [written_id]
    exact below name origin found directory
  induction edited with
  | @here old new entries kept description reads applied stands =>
    cases applied
    refine level stands fun name entry found directory => written ?_ found directory
    exact children entries fun name entry found directory => tree.child reads found directory
  | @down next rest old new child entries passed reads isPassed directory below stands ih =>
    refine level stands fun name entry found directory' => written ?_ found directory'
    intro name entry found directory'
    by_cases same : name = next
    · subst same
      rw [lookup_withChild_self isPassed, Option.some.injEq] at found
      subst found
      exact ih (tree.child reads isPassed directory)
    · rw [lookup_withChild_of_ne same] at found
      exact tree.child reads found directory'

theorem EditedAt.plainTree_created {before : FsStore Oid} (plain : PlainTree before root)
    (grown : Table.Extends before store) (genuine : Genuine store) (notDots : ¬ IsDots created)
    (edited : EditedAt store (pureEdit (pushUnlessNamed (newDirectory created email time))) parts
      root top) : PlainTree store top := by
  refine ⟨genuine, edited.treeStored (plain.tree.extends grown) ?_, ?_⟩
  · intro entries below name entry found directory
    rcases lookup_pushUnlessNamed found with before | ⟨-, rfl⟩
    · exact below name entry before directory
    · exact treeStored_empty
  · intro upper name entry found
    rcases edited.found_created found with ⟨before, isBefore⟩ | ⟨-, rfl⟩
    · exact plain.noDots (plain.tree.foundAt_of_extends grown isBefore)
    · exact notDots

theorem EditedAt.resolves_created
    (edited : EditedAt store (pureEdit (pushUnlessNamed (newDirectory created email time))) parts
      root top) (resolves : Resolves store parts root dir) (stands : StandsFor store dir entries)
    (free : lookup entries created = none) : Resolves store (parts ++ [created]) top emptySha1 := by
  obtain ⟨old, new, listed, resolvesOld, standsOld, resolvesNew, standsNew⟩ := edited.dir_here
  obtain rfl := resolves.unique resolvesOld
  obtain rfl := stands.entries.symm.trans standsOld.entries
  have absent : ¬ (entries.any fun other => other.name = created) = true := by
    rw [lookup, List.find?_eq_none] at free
    rw [Bool.not_eq_true, List.any_eq_false]
    exact free
  have found : lookup (pushUnlessNamed (newDirectory created email time) entries) created =
      some (newDirectory created email time) := by
    unfold lookup at free ⊢
    rw [pushUnlessNamed, if_neg (by exact absent), List.find?_append, free]
    simp [newDirectory]
  refine resolves_append.mpr ⟨new, resolvesNew, _, (newDirectory created email time).written,
    standsNew, ?_, ?_, ?_⟩
  · rw [lookup_in_stored, found]
    rfl
  · rw [written_mode]
    show isDir sIfdir = true
    decide
  · rw [written_id]
    rfl

/-! ## Creating it -/

variable [ToString Oid] {after : WebState Oid} {context : String} {state : WebState Oid}

omit [DecidableEq Oid] [Digests Oid] [ToString Oid] in
theorem badRequest_ok_iff {Result : Type} {checked : Except String Result} {result : Result} :
    badRequest context checked state = (.ok result, after) ↔ checked = .ok result ∧ state = after := by
  rw [badRequest, Proc.tryRead_ok_iff, mapError_eq_ok_iff]

theorem createParent_resolves {missingHead : String} (plain : PlainNames parts)
    (isRoot : resolveRootFsId state.repo = .ok root)
    (run : createParent missingHead context (pathOf parts) state = (.ok dir, after)) :
    state = after ∧ Resolves state.repo.fsObjects parts root dir := by
  obtain ⟨headRoot, read, reading, run⟩ := Proc.bind_ok_iff.mp run
  obtain ⟨isHead, rfl⟩ := Proc.tryRead_ok_iff.mp reading
  rw [headRootIdOpt_eq_some_iff.mpr isRoot, Except.ok.injEq] at isHead
  subst isHead
  split at run
  · rename_i atRoot
    rw [(pathOf_eq_root_iff plain).mp atRoot]
    cases run
    exact ⟨rfl, rfl⟩
  · obtain ⟨headRoot, present, presenting, run⟩ := Proc.bind_ok_iff.mp run
    obtain ⟨isHead, rfl⟩ := Proc.tryRead_ok_iff.mp presenting
    cases isHead
    obtain ⟨resolved, rfl⟩ := Proc.tryRead_ok_iff.mp (Proc.mapFailure_ok_iff.mp run)
    rw [resolveDirFsId, pathComponents_pathOf plain] at resolved
    exact ⟨rfl, resolves_of_resolveDirSegments resolved⟩

variable {before : WebState Oid} {final : WebState Oid} {path : String}

theorem createDirByPath_edited (genuine : Genuine before.repo.fsObjects)
    (isRoot : resolveRootFsId before.repo = .ok root)
    (run : createDirByPath path email before = (.ok (), final)) :
    ∃ parent name time dir top, canonicalParts path = .ok (parent ++ [name]) ∧
      validateFilename name = .ok () ∧ Resolves before.repo.fsObjects parent root dir ∧
      Table.Extends before.repo.fsObjects final.repo.fsObjects ∧ Genuine final.repo.fsObjects ∧
      resolveRootFsId final.repo = .ok top ∧ EditedAt final.repo.fsObjects
        (pureEdit (pushUnlessNamed (newDirectory name email time))) parent root top := by
  obtain ⟨parts, parsed, parsing, run⟩ := Proc.bind_ok_iff.mp run
  obtain ⟨_, checked, checking, run⟩ := Proc.bind_ok_iff.mp run
  obtain ⟨time, clocked, tick, run⟩ := Proc.bind_ok_iff.mp run
  obtain ⟨dir, located, locating, run⟩ := Proc.bind_ok_iff.mp run
  obtain ⟨top, updated, updating, done⟩ := Proc.bind_ok_iff.mp run
  cases done
  obtain ⟨isParts, rfl⟩ := Proc.tryRead_ok_iff.mp parsing
  obtain ⟨valid, rfl⟩ := badRequest_ok_iff.mp checking
  have isParts := mapError_eq_ok_iff.mp isParts
  have ticked := storedMore_now genuine tick
  have sameRoot := ticked.rootFsId.trans isRoot
  have plain := plainNames_canonicalParts isParts
  -- The path has a last component.
  obtain ⟨parent, name, rfl⟩ : ∃ parent name, parts = parent ++ [name] := by
    refine (List.eq_nil_or_concat parts).resolve_left ?_ |>.imp fun parent isConcat => ?_
    · rintro rfl
      simp [validateFilename] at valid
    · obtain ⟨name, rfl⟩ := isConcat
      exact ⟨name, List.concat_eq_append⟩
  rw [List.getLast?_concat, Option.getD_some] at valid
  rw [List.dropLast_concat] at locating updating
  rw [List.getLast?_concat, Option.getD_some] at updating
  obtain ⟨rfl, resolves⟩ := createParent_resolves plain.left sameRoot locating
  obtain ⟨built, rebuilt, building, committing⟩ := Proc.bind_ok_iff.mp updating
  obtain ⟨_, committed, committing, done⟩ := Proc.bind_ok_iff.mp committing
  obtain ⟨ctime, ticked', tock, committing⟩ := Proc.bind_ok_iff.mp committing
  cases done
  cases tock
  obtain ⟨more, edited⟩ := applyTreeUpdate_edited ticked.genuine plain.left
    (climbs_of_head plain.left sameRoot) resolves building
  obtain ⟨sameStore, isTop⟩ := commitRoot_root committing
  have isFinal : final.repo.fsObjects = rebuilt.repo.fsObjects := sameStore
  have sameObjects : before.repo.fsObjects = clocked.repo.fsObjects := by
    cases tick
    rfl
  refine ⟨parent, name, time, dir, top, isParts, valid, sameObjects ▸ resolves, ?_, ?_, isTop, ?_⟩
  · rw [isFinal]
    exact ticked.objects.trans more.objects
  · rw [isFinal]
    exact more.genuine
  · rw [isFinal]
    exact edited

/-! ## All that are missing -/

structure PlainHead (state : WebState Oid) (root : Oid) : Prop where
  isRoot : resolveRootFsId state.repo = .ok root
  plain : PlainTree state.repo.fsObjects root

theorem createDirByPath_plainHead (head : PlainHead before root)
    (run : createDirByPath path email before = (.ok (), final)) :
    ∃ parent name time dir top, canonicalParts path = .ok (parent ++ [name]) ∧
      Resolves before.repo.fsObjects parent root dir ∧
      Table.Extends before.repo.fsObjects final.repo.fsObjects ∧ PlainHead final top ∧
      EditedAt final.repo.fsObjects (pureEdit (pushUnlessNamed (newDirectory name email time)))
        parent root top := by
  obtain ⟨parent, name, time, dir, top, isParts, valid, resolves, grown, genuine, isTop, edited⟩ :=
    createDirByPath_edited head.plain.genuine head.isRoot run
  obtain ⟨-, notDot, notDots, -⟩ := validateFilename_component valid
  exact ⟨parent, name, time, dir, top, isParts, resolves, grown,
    ⟨isTop, edited.plainTree_created head.plain grown genuine (not_or.mpr ⟨notDot, notDots⟩)⟩, edited⟩

theorem ensureDirParts_plainHead : ∀ {rest : List String} {current : String}
    {fsId root : Oid} {before final : WebState Oid}, PlainHead before root →
      ensureDirParts email rest current fsId before = (.ok (), final) →
      ∃ top, PlainHead final top := by
  intro rest
  induction rest with
  | nil =>
    intro current fsId root before final head run
    cases run
    exact ⟨root, head⟩
  | cons part rest ih =>
    intro current fsId root before final head run
    obtain ⟨data, read, reading, run⟩ := Proc.bind_ok_iff.mp run
    obtain ⟨-, rfl⟩ := readDir_ok reading
    cases found : findEntry data.dirents part with
    | some entry =>
      rw [found] at run
      exact ih head run
    | none =>
      rw [found] at run
      obtain ⟨_, created, creating, run⟩ := Proc.bind_ok_iff.mp run
      obtain ⟨-, -, -, -, top, -, -, -, head', -⟩ := createDirByPath_plainHead head creating
      exact ih head' run

/-- The names on the way to a place, of which none is blank or a dot. -/
structure PlainWay (parts : List String) : Prop where
  names : PlainNames parts
  noDots : ∀ part ∈ parts, ¬ IsDots part

variable {done rest : List String} {part : String}

theorem PlainWay.canonicalParts_eq (way : PlainWay (done ++ part :: rest))
    (run : canonicalParts (joinPath (pathOf done) part) = .ok parts) : parts = done ++ [part] := by
  have shape : done ++ part :: rest = (done ++ [part]) ++ rest := by simp
  have plain : PlainNames (done ++ [part]) := PlainNames.left (shape ▸ way.names)
  rw [joinPath_pathOf plain.left] at run
  have components := pathComponents_pathOf plain
  rw [canonicalParts_of_noDots ?_ run, components]
  rw [components]
  exact fun other listed => way.noDots other (shape ▸ List.mem_append_left rest listed)

omit [ToString Oid] in
theorem EditedAt.pathsKept_created {before : FsStore Oid}
    (edited : EditedAt store (pureEdit (pushUnlessNamed (newDirectory created email time))) parts
      root top) (grown : Table.Extends before store) (reaches : parts <+: place) :
    PathsKept before store root top place := by
  intro upper name entry found
  obtain ⟨entry', found', sameMode, shape⟩ :=
    edited.found (fun other _ => keepsFound_pushUnlessNamed _ other) (found.extends grown)
  exact ⟨entry', found', sameMode, shape.imp_right fun ⟨directory, way⟩ =>
    ⟨directory, way.trans reaches⟩⟩

theorem ensureDir_created {fsId : Oid} {data : FsDirData Oid} (head : PlainHead before root)
    (way : PlainWay (done ++ part :: rest))
    (reached : ∀ dir, Resolves before.repo.fsObjects done root dir → dir = fsId)
    (read : readFsDirData before.repo.fsObjects fsId = .ok data)
    (free : findEntry data.dirents part = none)
    (run : createDirByPath (joinPath (pathOf done) part) email before = (.ok (), after)) :
    ∃ top, PlainHead after top ∧ Table.Extends before.repo.fsObjects after.repo.fsObjects ∧
      PathsKept before.repo.fsObjects after.repo.fsObjects root top (done ++ part :: rest) ∧
      Resolves after.repo.fsObjects (done ++ [part]) top emptySha1 := by
  obtain ⟨parent, name, time, dir, top, isParts, resolves, grown, head', edited⟩ :=
    createDirByPath_plainHead head run
  obtain ⟨rfl, same⟩ := List.append_inj' (way.canonicalParts_eq isParts) rfl
  obtain rfl := List.head_eq_of_cons_eq same
  obtain rfl := reached dir resolves
  have stands := standsFor_of_readFsDirData read
  exact ⟨top, head', grown, edited.pathsKept_created grown (List.prefix_append _ _),
    edited.resolves_created (resolves.extends grown) (stands.extends grown) free⟩

theorem ensureDirParts_below : ∀ {rest done : List String} {root : Oid}
    {before final : WebState Oid}, PlainHead before root → PlainWay (done ++ rest) →
      Resolves before.repo.fsObjects done root emptySha1 →
      ensureDirParts email rest (pathOf done) emptySha1 before = (.ok (), final) →
      ∃ top, PlainHead final top ∧ Table.Extends before.repo.fsObjects final.repo.fsObjects ∧
        PathsKept before.repo.fsObjects final.repo.fsObjects root top (done ++ rest) ∧
        Resolves final.repo.fsObjects (done ++ rest) top emptySha1 := by
  intro rest
  induction rest with
  | nil =>
    intro done root before final head way resolves run
    cases run
    rw [List.append_nil]
    exact ⟨root, head, Table.Extends.refl _, PathsKept.refl root done, resolves⟩
  | cons part rest ih =>
    intro done root before final head way resolves run
    obtain ⟨data, read, reading, run⟩ := Proc.bind_ok_iff.mp run
    obtain ⟨isData, rfl⟩ := readDir_ok reading
    have isEmpty : data = emptyDirData := by
      rw [readFsDirData, if_pos rfl] at isData
      cases isData
      rfl
    have free : findEntry data.dirents part = none := by rw [isEmpty]; rfl
    rw [free] at run
    obtain ⟨_, created, creating, run⟩ := Proc.bind_ok_iff.mp run
    obtain ⟨middle, head', grown, kept, resolves'⟩ := ensureDir_created head way
      (fun dir other => other.unique resolves) isData free creating
    have shape : done ++ part :: rest = (done ++ [part]) ++ rest := by simp
    have plain : PlainNames (done ++ [part]) := PlainNames.left (shape ▸ way.names)
    rw [joinPath_pathOf plain.left] at run
    rw [shape] at way kept ⊢
    obtain ⟨top, head'', grown', kept', resolves''⟩ := ih head' way resolves' run
    exact ⟨top, head'', grown.trans grown', kept.trans kept', resolves''⟩

theorem ensureDirParts_created : ∀ {rest done : List String} {root fsId : Oid}
    {before final : WebState Oid}, PlainHead before root → PlainWay (done ++ rest) →
      (∀ dir, Resolves before.repo.fsObjects done root dir → dir = fsId) →
      ensureDirParts email rest (pathOf done) fsId before = (.ok (), final) →
      final = before ∨ (∀ dir, ¬ Resolves before.repo.fsObjects (done ++ rest) root dir) ∧
        ∃ top, PlainHead final top ∧ Table.Extends before.repo.fsObjects final.repo.fsObjects ∧
          PathsKept before.repo.fsObjects final.repo.fsObjects root top (done ++ rest) ∧
          Resolves final.repo.fsObjects (done ++ rest) top emptySha1 := by
  intro rest
  induction rest with
  | nil =>
    intro done root fsId before final _ _ _ run
    cases run
    exact Or.inl rfl
  | cons part rest ih =>
    intro done root fsId before final head way reached run
    obtain ⟨data, read, reading, run⟩ := Proc.bind_ok_iff.mp run
    obtain ⟨isData, rfl⟩ := readDir_ok reading
    have shape : done ++ part :: rest = (done ++ [part]) ++ rest := by simp
    have plain : PlainNames (done ++ [part]) := PlainNames.left (shape ▸ way.names)
    have stands := standsFor_of_readFsDirData isData
    cases found : findEntry data.dirents part with
    | some entry =>
      rw [found, joinPath_pathOf plain.left] at run
      rw [shape] at way ⊢
      refine ih head way ?_ run
      intro dir resolves
      obtain ⟨middle, leads, entries, entry', standsMiddle, isEntry, -, below⟩ :=
        resolves_append.mp resolves
      obtain rfl := reached middle leads
      obtain rfl := stands.entries.symm.trans standsMiddle.entries
      obtain rfl : entry' = entry := Option.some.inj (isEntry.symm.trans found)
      exact below.symm
    | none =>
      rw [found] at run
      obtain ⟨_, created, creating, run⟩ := Proc.bind_ok_iff.mp run
      obtain ⟨middle, head', grown, kept, resolves'⟩ :=
        ensureDir_created head way reached isData found creating
      rw [joinPath_pathOf plain.left] at run
      rw [shape] at way kept
      obtain ⟨top, head'', grown', kept', resolves''⟩ :=
        ensureDirParts_below head' way resolves' run
      refine Or.inr ⟨fun dir resolves => ?_, top, head'', grown.trans grown', ?_, ?_⟩
      · obtain ⟨between, leads, entries, entry, standsBetween, isEntry, -⟩ :=
          resolves_append.mp resolves
        obtain rfl := reached between leads
        obtain rfl := stands.entries.symm.trans standsBetween.entries
        exact absurd (isEntry.symm.trans found) (by simp)
      · rw [shape]
        exact kept.trans kept'
      · rw [shape]
        exact resolves''

end Nanofile
