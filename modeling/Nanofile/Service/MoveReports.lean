import Nanofile.Service.BatchReports

/-!
# What a batch move reports and leaves

A batch move takes its entries out of the source and plans their names in the tree
without them.  A name that is listed twice is taken out once and arrives twice.
-/

set_option autoImplicit false

namespace Nanofile

open Nanofile.Lib

attribute [local irreducible] pathComponents

variable {Oid : Type}

/-! ## Entries without those named -/

theorem keepsFound_withoutNames {names : List String} {name : String} (kept : name ∉ names) :
    KeepsFound (withoutNames names : List (DirEntryData Oid) → List (DirEntryData Oid)) name := by
  intro entries found isFound
  have same : named name (withoutNames names entries) = named name entries := by
    unfold named withoutNames
    rw [List.filter_filter]
    refine List.filter_congr fun candidate _ => ?_
    by_cases isName : candidate.name = name
    · simp [isName, kept]
    · simp [isName]
  rwa [lookup_eq_head, same, ← lookup_eq_head]

theorem keepsFound_append (added : List (DirEntryData Oid)) (name : String) :
    KeepsFound (fun entries => entries ++ added) name := by
  intro entries found isFound
  have first : entries.find? (fun entry => entry.name = name) = some found := isFound
  rw [lookup, List.find?_append, first]
  rfl

theorem length_filter_named {source sources : List (DirEntryData Oid)} {names : List String}
    (unique : NamesNodup source) (found : names.map (lookup source) = sources.map some) :
    (source.filter fun entry => entry.name ∈ names).length = names.dedup.length := by
  have isPerm : ((source.filter fun entry => entry.name ∈ names).map DirEntryData.name).Perm
      names.dedup := by
    refine (List.perm_ext_iff_of_nodup (namesNodup_filter unique _) (List.nodup_dedup names)).mpr ?_
    intro name
    rw [List.mem_dedup]
    constructor
    · intro listed
      obtain ⟨entry, member, rfl⟩ := List.mem_map.mp listed
      simpa using (List.mem_filter.mp member).2
    · intro listed
      have isSome : lookup source name ∈ sources.map some := found ▸ List.mem_map_of_mem listed
      obtain ⟨entry, -, same⟩ := List.mem_map.mp isSome
      obtain ⟨member, rfl⟩ := lookup_eq_some same.symm
      exact List.mem_map_of_mem (List.mem_filter.mpr ⟨member, by simpa using listed⟩)
  have lengths := isPerm.length_eq
  rwa [List.length_map] at lengths

theorem nodup_iff_length_dedup {names : List String} :
    names.Nodup ↔ names.dedup.length = names.length := by
  constructor
  · intro once
    rw [once.dedup]
  · intro same
    rw [← (List.dedup_sublist names).eq_of_length same]
    exact List.nodup_dedup names

/-! ## Moving -/

/-- The entries a destination has once the batch has left its source.  Where the source
lies below the destination, the directory on the way there has another id. -/
def KeptEntries (src dst : List String) (old kept : List (DirEntryData Oid)) : Prop :=
  kept = old ∨ ∃ next rest child entry, src = dst ++ next :: rest ∧
    lookup old next = some entry ∧ isDir entry.mode = true ∧ kept = withChild next child old

theorem KeptEntries.names {src dst : List String} {old kept : List (DirEntryData Oid)}
    (keeps : KeptEntries src dst old kept) :
    kept.map DirEntryData.name = old.map DirEntryData.name := by
  rcases keeps with rfl | ⟨next, rest, child, entry, -, -, -, rfl⟩
  · rfl
  · exact names_withChild next child old

variable [DecidableEq Oid] [Digests Oid]

/-- What a batch move from one HEAD to the other should have reported and left. -/
def MoveReported (before after : Repo Oid) (srcParentDir dstDir : String)
    (fileNames : List String) (results : List BatchOpResult) : Prop :=
  fileNames = [] ∧ results = [] ∧ after = before ∨
    ∃ source sources old kept new left, ListsAt before srcParentDir source ∧
      fileNames.map (lookup source) = sources.map some ∧ ListsAt before dstDir old ∧
      KeptEntries (pathComponents srcParentDir) (pathComponents dstDir) old kept ∧
      ListsAt after dstDir new ∧ Reported results sources kept new ∧
      ListsAt after srcParentDir left ∧
      (left.map DirEntryData.name).Perm ((withoutNames fileNames source).map DirEntryData.name) ∧
      new.length = old.length + (source.filter fun entry => entry.name ∈ fileNames).length

def HeadStored (repo : Repo Oid) : Prop :=
  ∀ root, resolveRootFsId repo = .ok root → TreeStored repo.fsObjects root

variable [ToString Oid] {dstDir email srcParentDir : String}

omit [DecidableEq Oid] [Digests Oid] [ToString Oid] in
theorem way_kept {source batch : List (DirEntryData Oid)} {names : List String} {time : Int}
    {done : Unit} (plainSrc : PlainPath srcParentDir) (plainDst : PlainPath dstDir)
    (isBatch : batchEntries source email time names = .ok batch)
    (outside : ensureOutside "move" srcParentDir dstDir batch = .ok done)
    (throughDir : ∀ name, pathComponents srcParentDir ++ [name] <+: pathComponents dstDir →
      ∃ entry, lookup source name = some entry ∧ isDir entry.mode = true) :
    KeepsWay (withoutNames names : List (DirEntryData Oid) → List (DirEntryData Oid))
      (pathComponents srcParentDir) (pathComponents dstDir) := by
  intro name passed
  refine keepsFound_withoutNames fun listed => ?_
  obtain ⟨entry, found, directory⟩ := throughDir name passed
  have inBatch : { entry with modifier := email, mtime := time } ∈ batch := by
    rw [(batchEntries_eq isBatch).1]
    exact List.mem_map_of_mem (List.mem_filterMap.mpr ⟨name, listed, found⟩)
  have plainName : PlainNames (pathComponents srcParentDir ++ [name]) := by
    obtain ⟨rest, isDst⟩ := passed
    exact PlainNames.left (isDst ▸ plainNames_pathComponents dstDir)
  have isName : entry.name = name := (lookup_eq_some found).2
  have below : isSelfOrSubpath (joinPath srcParentDir entry.name) dstDir = true := by
    by_contra apart
    rw [plainSrc, plainDst, isName, joinPath_pathOf (plainNames_pathComponents srcParentDir)]
      at apart
    exact not_below_of_not_subpath plainName apart passed
  unfold ensureOutside at outside
  split at outside
  · simp at outside
  · rename_i none
    have here := List.find?_eq_none.mp none _ inBatch
    rw [hasDirBit_of_isDir directory, below] at here
    exact here rfl

/-- The two edits of a batch move and what it answers. -/
structure BatchMoved (store after : FsStore Oid) (src dst fileNames : List String)
    (source : List (DirEntryData Oid)) (root top : Oid) (results : List BatchOpResult) : Prop where
  grown : Table.Extends store after
  found : fileNames.map (lookup source) = (namedEntries source fileNames).map some
  listed : ∃ dir, Resolves store src root dir ∧ StandsFor store dir source
  reached : ∃ dir, Resolves store dst root dir
  apart : src ≠ dst
  way : KeepsWay (withoutNames fileNames : List (DirEntryData Oid) → List (DirEntryData Oid)) src dst
  edits : ∃ middle dir between planned, Resolves after dst middle dir ∧
    StandsFor after dir between ∧
    planned.map DirEntryData.id = (namedEntries source fileNames).map DirEntryData.id ∧
    results.map BatchOpResult.objName = planned.map DirEntryData.name ∧
    (NamesNodup between → NamesNodup (between ++ planned)) ∧
    EditedAt after (pureEdit (withoutNames fileNames)) src root middle ∧
    EditedAt after (pureEdit fun entries => entries ++ planned) dst middle top

theorem batchMove_steps {fileNames : List String} {before final : WebState Oid}
    {results : List BatchOpResult} (genuine : Genuine before.repo.fsObjects)
    (plainSrc : PlainPath srcParentDir) (plainDst : PlainPath dstDir) (nonempty : fileNames ≠ [])
    (run : batchMove srcParentDir dstDir fileNames email before = (.ok results, final)) :
    ∃ source root top, resolveRootFsId before.repo = .ok root ∧
      resolveRootFsId final.repo = .ok top ∧
      BatchMoved before.repo.fsObjects final.repo.fsObjects (pathComponents srcParentDir)
        (pathComponents dstDir) fileNames source root top results := by
  unfold batchMove at run
  rw [if_neg nonempty] at run
  obtain ⟨source, sourced, sourcing, run⟩ := Proc.bind_ok_iff.mp run
  obtain ⟨sourceData, read, reading, run⟩ := Proc.bind_ok_iff.mp run
  obtain ⟨time, clocked, tick, run⟩ := Proc.bind_ok_iff.mp run
  obtain ⟨moving, listed, listing, run⟩ := Proc.bind_ok_iff.mp run
  obtain ⟨_, apart, parting, run⟩ := Proc.bind_ok_iff.mp run
  obtain ⟨_, checked, checking, run⟩ := Proc.bind_ok_iff.mp run
  obtain ⟨there, resolved, resolving, run⟩ := Proc.bind_ok_iff.mp run
  obtain ⟨middleRoot, removed, removing, run⟩ := Proc.bind_ok_iff.mp run
  obtain ⟨destination, found, finding, run⟩ := Proc.bind_ok_iff.mp run
  obtain ⟨destinationData, readDst, readingDst, run⟩ := Proc.bind_ok_iff.mp run
  obtain ⟨newRoot, added, adding, run⟩ := Proc.bind_ok_iff.mp run
  obtain ⟨_, committed, committing, done⟩ := Proc.bind_ok_iff.mp run
  obtain ⟨ctime, ticked, tock, committing⟩ := Proc.bind_ok_iff.mp committing
  obtain ⟨isSource, rfl⟩ := Proc.tryRead_ok_iff.mp sourcing
  obtain ⟨isSourceData, rfl⟩ := readDir_ok (Proc.mapFailure_ok_iff.mp reading)
  obtain ⟨isBatch, rfl⟩ := Proc.tryRead_ok_iff.mp listing
  obtain ⟨differ, rfl⟩ := Proc.tryRead_ok_iff.mp parting
  obtain ⟨outside, rfl⟩ := Proc.tryRead_ok_iff.mp checking
  obtain ⟨isThere, rfl⟩ := Proc.tryRead_ok_iff.mp resolving
  obtain ⟨isDestination, rfl⟩ := Proc.tryRead_ok_iff.mp finding
  obtain ⟨isData, rfl⟩ := readDir_ok (Proc.mapFailure_ok_iff.mp readingDst)
  cases done
  cases tock
  have sameRepo : clocked.repo = before.repo := by
    cases tick
    rfl
  obtain ⟨root, isRoot, located, climbs, -⟩ :=
    located_of_chain (Or.inl plainSrc) isSource isSourceData
  rw [← sameRepo] at isRoot located climbs genuine
  have names := plainNames_pathComponents srcParentDir
  have newNames := plainNames_pathComponents dstDir
  have differ := ensure_eq_ok_iff.mp differ
  -- Both directories of HEAD.
  obtain ⟨root', isRoot', fromRoot⟩ := except_bind_ok_iff.mp isThere
  rw [isRoot, Except.ok.injEq] at isRoot'
  subst isRoot'
  rw [plainDst] at fromRoot
  have reached := resolves_of_resolveFsIdChainFromRoot newNames fromRoot
  -- The batch leaves its directory.
  rw [located.rooted.update, (batchEntries_eq isBatch).2.1] at removing
  obtain ⟨more, left⟩ :=
    applyTreeUpdate_edited genuine names climbs located.resolves removing
  -- It arrives in a directory of the tree without it.
  rw [plainDst] at isDestination adding
  have resolves := resolves_of_resolveFsIdChainFromRoot newNames isDestination
  obtain ⟨more', arrived⟩ := applyTreeUpdate_edited more.genuine newNames
    (climbs_of_chain newNames (Or.inl rfl) isDestination) resolves adding
  obtain ⟨sameStore, isTop⟩ := commitRoot_root committing
  have stands := standsFor_of_readFsDirData isData
  have grown := more.objects.trans more'.objects
  have isFinal : final.repo.fsObjects = added.repo.fsObjects := sameStore
  refine ⟨sourceData.dirents, root, newRoot, sameRepo ▸ isRoot, isTop, ?_⟩
  rw [← sameRepo, isFinal]
  refine ⟨grown, (batchEntries_eq isBatch).2.2, ⟨source.1, located.resolves, located.stands⟩,
    ⟨there.1, reached⟩, ?_, ?_, ?_⟩
  · intro same
    exact differ (by rw [plainDst, ← same, ← plainSrc])
  · refine way_kept plainSrc plainDst isBatch outside ?_
    intro name passed
    obtain ⟨rest, isDst⟩ := passed
    rw [← isDst, List.append_assoc] at reached
    obtain ⟨dir, resolvesDir, entries, entry, standsDir, isEntry, directory, -⟩ :=
      resolves_append.mp reached
    obtain rfl := resolvesDir.unique located.resolves
    obtain rfl := standsDir.entries.symm.trans located.stands.entries
    exact ⟨entry, isEntry, directory⟩
  · refine ⟨middleRoot, destination.1, destinationData.dirents,
      planEntries destinationData.dirents moving, resolves.extends more'.objects,
      stands.extends more'.objects, ?_, ?_, namesNodup_planEntries,
      left.extends more'.objects, arrived⟩
    · rw [ids_planEntries, (batchEntries_eq isBatch).1, List.map_map]
      rfl
    · show (batchResults _ _ _).map BatchOpResult.objName = _
      rw [batchResults, List.map_map]
      rfl

section Moved

omit [ToString Oid]

variable {store after : FsStore Oid} {src dst fileNames : List String}
  {source : List (DirEntryData Oid)} {root top : Oid} {results : List BatchOpResult}

theorem BatchMoved.kept (moved : BatchMoved store after src dst fileNames source root top results)
    {old between : List (DirEntryData Oid)} {middle dir oldDir : Oid}
    (resolvesOld : Resolves store dst root oldDir) (standsOld : StandsFor store oldDir old)
    (resolves : Resolves after dst middle dir) (stands : StandsFor after dir between)
    (edited : EditedAt after (pureEdit (withoutNames fileNames)) src root middle) :
    ∃ kept, KeptEntries src dst old kept ∧ (between = kept ∨ between = stored kept) := by
  obtain ⟨dir', between', resolves', stands', shape⟩ := edited.dir_other moved.apart.symm
    moved.way (resolvesOld.extends moved.grown) (standsOld.extends moved.grown)
  obtain rfl := resolves.unique resolves'
  obtain rfl := stands.entries.symm.trans stands'.entries
  rcases shape with ⟨-, rfl⟩ | ⟨next, rest, child, entry, isSrc, found, directory, rfl⟩
  · exact ⟨_, Or.inl rfl, Or.inl rfl⟩
  · exact ⟨_, Or.inr ⟨next, rest, child, entry, isSrc, found, directory, rfl⟩, Or.inr rfl⟩

theorem BatchMoved.left (moved : BatchMoved store after src dst fileNames source root top results) :
    ∃ dir left, Resolves after src top dir ∧ StandsFor after dir left ∧
      (left.map DirEntryData.name).Perm ((withoutNames fileNames source).map DirEntryData.name) := by
  obtain ⟨middle, _, between, planned, -, -, -, -, -, edited, arrived⟩ := moved.edits
  obtain ⟨sourceDir, resolvesSource, standsSource⟩ := moved.listed
  obtain ⟨oldDir, dir, entries, resolvesOld, standsOld, resolves, stands⟩ := edited.dir_here
  obtain rfl := (resolvesSource.extends moved.grown).unique resolvesOld
  rw [standsOld.entries.symm.trans (standsSource.extends moved.grown).entries] at stands
  have names := names_stored (withoutNames fileNames source)
  have keeps : KeepsWay (fun entries => entries ++ planned) dst src :=
    fun name _ => keepsFound_append planned name
  obtain ⟨dir', left, resolves', stands', shape⟩ :=
    arrived.dir_other moved.apart keeps resolves stands
  refine ⟨dir', left, resolves', stands', ?_⟩
  rcases shape with ⟨-, rfl⟩ | ⟨next, rest, child, entry, -, found, -, rfl⟩
  · exact names
  · have sameNames := names_stored (withChild next child (stored (withoutNames fileNames source)))
    rw [names_withChild] at sameNames
    exact sameNames.trans names

section

omit [DecidableEq Oid] [Digests Oid]

theorem written_written (entry : DirEntryData Oid) : entry.written.written = entry.written := by
  cases regular : isRegular entry.mode <;> simp [DirEntryData.written, regular]

theorem reported_of_rewritten {sources kept between added : List (DirEntryData Oid)}
    (same : between = kept ∨ between = stored kept)
    (named : results.map BatchOpResult.objName = added.map DirEntryData.name)
    (sameIds : added.map DirEntryData.id = sources.map DirEntryData.id)
    (unique : NamesNodup (between ++ added)) :
    Reported results sources kept (stored (between ++ added)) := by
  rcases same with rfl | rfl
  · exact reported_of_stored named sameIds unique
  · obtain ⟨⟨arrived, isPerm, names, ids⟩, nodup⟩ := reported_of_stored named sameIds unique
    refine ⟨⟨arrived, isPerm.trans ?_, names, ids⟩, nodup⟩
    refine List.Perm.append_right arrived ?_
    have twice := (stored_perm kept).map DirEntryData.written
    rw [List.map_map] at twice
    refine twice.trans (List.Perm.of_eq (List.map_congr_left fun entry _ => written_written entry))

end

end Moved

/-- A batch move reports what it stores and moves every entry once exactly when no name is
listed twice. -/
theorem batchMove_reports {fileNames : List String} {before final : WebState Oid}
    {results : List BatchOpResult} (genuine : Genuine before.repo.fsObjects)
    (unique : HeadUnique before.repo) (tree : HeadStored before.repo)
    (plainSrc : PlainPath srcParentDir) (plainDst : PlainPath dstDir)
    (run : batchMove srcParentDir dstDir fileNames email before = (.ok results, final)) :
    MoveReported before.repo final.repo srcParentDir dstDir fileNames results ↔
      fileNames.Nodup := by
  by_cases none : fileNames = []
  · subst none
    have same : results = [] ∧ final = before := by
      unfold batchMove at run
      rw [if_pos rfl] at run
      cases run
      exact ⟨rfl, rfl⟩
    exact iff_of_true (Or.inl ⟨rfl, same.1, by rw [same.2]⟩) List.nodup_nil
  · obtain ⟨source, root, top, isRoot, isTop, moved⟩ :=
      batchMove_steps genuine plainSrc plainDst none run
    obtain ⟨sourceDir, resolvesSource, standsSource⟩ := moved.listed
    obtain ⟨oldDir, resolvesOld⟩ := moved.reached
    obtain ⟨old, standsOld⟩ := tree root isRoot _ _ resolvesOld
    have isSource : ListsAt before.repo srcParentDir source :=
      ⟨root, sourceDir, isRoot, resolvesSource, standsSource⟩
    have isOld : ListsAt before.repo dstDir old := ⟨root, oldDir, isRoot, resolvesOld, standsOld⟩
    obtain ⟨middle, dir, between, planned, resolves, stands, sameIds, named, plans, edited,
      arrived⟩ := moved.edits
    obtain ⟨kept, keeps, rewritten⟩ := moved.kept resolvesOld standsOld resolves stands edited
    obtain ⟨dir', newDir, entries, resolves', stands', resolvesNew, standsNew⟩ := arrived.dir_here
    obtain rfl := resolves.unique resolves'
    obtain rfl := stands.entries.symm.trans stands'.entries
    have isNew : ListsAt final.repo dstDir (stored (between ++ planned)) :=
      ⟨top, newDir, isTop, resolvesNew, standsNew⟩
    have keptNodup : NamesNodup kept := by
      rw [NamesNodup, keeps.names]
      exact isOld.nodup unique
    have betweenNodup : NamesNodup between := by
      rcases rewritten with rfl | rfl
      · exact keptNodup
      · exact namesNodup_stored.mpr keptNodup
    have reported : Reported results (namedEntries source fileNames) kept
        (stored (between ++ planned)) :=
      reported_of_rewritten rewritten named sameIds (plans betweenNodup)
    have counted := length_filter_named (isSource.nodup unique) moved.found
    have listedLength : fileNames.length = (namedEntries source fileNames).length := by
      have lengths := congrArg List.length moved.found
      rwa [List.length_map, List.length_map] at lengths
    have newLength : (stored (between ++ planned)).length = old.length + fileNames.length := by
      obtain ⟨added, isPerm, names, ids⟩ := reported.added
      have lengths := isPerm.length_eq
      have sameAdded := congrArg List.length ids
      have sameKept := congrArg List.length keeps.names
      simp only [List.length_append, List.length_map] at lengths sameAdded sameKept
      omega
    rw [nodup_iff_length_dedup]
    constructor
    · rintro (⟨isNil, -⟩ | ⟨source', _, old', _, new, _, isSource', -, isOld', -, isNew', -, -, -,
        once⟩)
      · exact absurd isNil none
      · obtain rfl := isSource.eq isSource'
        obtain rfl := isOld.eq isOld'
        obtain rfl := isNew.eq isNew'
        omega
    · intro once
      obtain ⟨leftDir, left, resolvesLeft, standsLeft, sameNames⟩ := moved.left
      exact Or.inr ⟨source, _, old, kept, _, left, isSource, moved.found, isOld, keeps, isNew,
        reported, ⟨top, leftDir, isTop, resolvesLeft, standsLeft⟩, sameNames, by omega⟩

omit [ToString Oid] in
theorem treeStored_of_wellFormed {store : FsStore Oid} {root : Oid}
    (formed : WellFormed store (entriesOf store root))
    (stands : StandsFor store root (entriesOf store root)) : TreeStored store root := by
  intro parts
  induction parts generalizing root with
  | nil =>
    rintro dir rfl
    exact ⟨_, stands⟩
  | cons name rest ih =>
    intro dir resolves
    obtain ⟨entries, entry, standsHere, found, directory, below⟩ := resolves
    rw [← standsHere.entries] at found
    have listed := (lookup_eq_some found).1
    refine ih (formed.child listed directory) ?_ dir below
    rcases formed.entryOk listed with ⟨regular, -⟩ | ⟨-, inner, standsBelow⟩
    · rw [not_isDir_of_isRegular regular] at directory
      simp at directory
    · rwa [standsBelow.entries]

/-! ## Both batches -/

/-- When a batch copy and a batch move between two directories of one tree report what they
store. -/
theorem batches_report {limits : Limits} {srcParentDir dstDir email : String}
    {fileNames : List String} {before : WebState Oid}
    (genuine : Genuine before.repo.fsObjects) (unique : HeadUnique before.repo)
    (tree : HeadStored before.repo) (plainSrc : PlainPath srcParentDir)
    (plainDst : PlainPath dstDir) :
    (∀ results final,
      batchCopy limits srcParentDir dstDir fileNames email before = (.ok results, final) →
      (CopyReported before.repo final.repo srcParentDir dstDir fileNames results ↔
        ∀ data, headDir before.repo dstDir = .ok data → NamesApart data.dirents fileNames)) ∧
    ∀ results final,
      batchMove srcParentDir dstDir fileNames email before = (.ok results, final) →
      (MoveReported before.repo final.repo srcParentDir dstDir fileNames results ↔
        fileNames.Nodup) :=
  ⟨fun _ _ run => batchCopy_reports genuine unique (Or.inl plainSrc) (Or.inl plainDst) run,
    fun _ _ run => batchMove_reports genuine unique tree plainSrc plainDst run⟩

/-! ## A name that is free and a name that is given -/

def copiedFrom : FsDirData FreeId :=
  directory [fileEntry "x.txt" (.atom 1) 1, fileEntry "x (1).txt" (.atom 2) 1]

def copiedTo : FsDirData FreeId := directory [fileEntry "x.txt" (.atom 3) 1]

def batchLibrary : WebState FreeId :=
  ⟨libraryOf (directory [dirEntry "s" (Digests.dirId copiedFrom),
      dirEntry "d" (Digests.dirId copiedTo)]) [copiedFrom, copiedTo], [], fun count => count⟩

theorem headUnique_of_check {repo : Repo FreeId} (depth : Nat)
    (checked : (resolveRootFsId repo).toOption.all (fun root =>
      wellFormedCheck repo.fsObjects depth (entriesOf repo.fsObjects root)) = true) :
    HeadUnique repo := by
  intro root isRoot
  rw [isRoot] at checked
  exact (wellFormed_of_check depth checked).uniqueNames

theorem headStored_of_check {repo : Repo FreeId} (depth : Nat)
    (checked : (resolveRootFsId repo).toOption.all (fun root =>
      (dirBatch repo.fsObjects root).isSome &&
        wellFormedCheck repo.fsObjects depth (entriesOf repo.fsObjects root)) = true) :
    HeadStored repo := by
  intro root isRoot
  rw [isRoot] at checked
  obtain ⟨isSome, formed⟩ := Bool.and_eq_true_iff.mp checked
  obtain ⟨data, read⟩ := Option.isSome_iff_exists.mp isSome
  refine treeStored_of_wellFormed (wellFormed_of_check depth formed) (Or.inr ⟨data, read, ?_⟩)
  rw [entriesOf, read]
  rfl

theorem batchLibrary_unique : HeadUnique batchLibrary.repo :=
  headUnique_of_check 3 (by decide +kernel)

theorem batchLibrary_stored : HeadStored batchLibrary.repo :=
  headStored_of_check 3 (by decide +kernel)

/-- The first name given is the second one listed: both are reported under it, and the
second is stored under another.  Listed twice, a file arrives twice. -/
theorem batches_misreported :
    (∃ final, batchCopy defaultLimits "/s" "/d" ["x.txt", "x (1).txt"] "user" batchLibrary =
        (.ok [⟨"library", "/d", "x (1).txt"⟩, ⟨"library", "/d", "x (1).txt"⟩], final) ∧
      ¬ CopyReported batchLibrary.repo final.repo "/s" "/d" ["x.txt", "x (1).txt"]
        [⟨"library", "/d", "x (1).txt"⟩, ⟨"library", "/d", "x (1).txt"⟩]) ∧
    ∃ final, batchMove "/s" "/d" ["x.txt", "x.txt"] "user" batchLibrary =
        (.ok [⟨"library", "/d", "x (1).txt"⟩, ⟨"library", "/d", "x (2).txt"⟩], final) ∧
      ¬ MoveReported batchLibrary.repo final.repo "/s" "/d" ["x.txt", "x.txt"]
        [⟨"library", "/d", "x (1).txt"⟩, ⟨"library", "/d", "x (2).txt"⟩] := by
  have copied : (batchCopy defaultLimits "/s" "/d" ["x.txt", "x (1).txt"] "user"
      batchLibrary).1 = .ok [⟨"library", "/d", "x (1).txt"⟩, ⟨"library", "/d", "x (1).txt"⟩] := by
    decide +kernel
  have moved : (batchMove "/s" "/d" ["x.txt", "x.txt"] "user" batchLibrary).1 =
      .ok [⟨"library", "/d", "x (1).txt"⟩, ⟨"library", "/d", "x (2).txt"⟩] := by
    decide +kernel
  refine ⟨⟨_, Prod.ext copied rfl, ?_⟩, _, Prod.ext moved rfl, ?_⟩
  · rw [batchCopy_reports (genuine_libraryOf _ _) batchLibrary_unique (Or.inl (by decide +kernel))
      (Or.inl (by decide +kernel)) (Prod.ext copied rfl)]
    intro apart
    have given : (headDir batchLibrary.repo "/d").toOption.any (fun data =>
        !decide (NamesApart data.dirents ["x.txt", "x (1).txt"])) = true := by decide +kernel
    cases found : headDir batchLibrary.repo "/d" with
    | error failure => simp [found, Except.toOption] at given
    | ok data =>
      rw [found] at given
      simp [Except.toOption, apart data found] at given
  · rw [batchMove_reports (genuine_libraryOf _ _) batchLibrary_unique batchLibrary_stored
      (by decide +kernel) (by decide +kernel) (Prod.ext moved rfl)]
    decide

/-- One file is copied to a free name, and two are moved, one of them onto a taken name. -/
theorem batches_report_two :
    (∃ results final, batchCopy defaultLimits "/s" "/d" ["x (1).txt"] "user" batchLibrary =
        (.ok results, final) ∧
      CopyReported batchLibrary.repo final.repo "/s" "/d" ["x (1).txt"] results) ∧
    ∃ results final, batchMove "/s" "/d" ["x (1).txt", "x.txt"] "user" batchLibrary =
        (.ok results, final) ∧
      MoveReported batchLibrary.repo final.repo "/s" "/d" ["x (1).txt", "x.txt"] results := by
  have copied : (batchCopy defaultLimits "/s" "/d" ["x (1).txt"] "user" batchLibrary).1 =
      .ok [⟨"library", "/d", "x (1).txt"⟩] := by
    decide +kernel
  have moved : (batchMove "/s" "/d" ["x (1).txt", "x.txt"] "user" batchLibrary).1 =
      .ok [⟨"library", "/d", "x (1).txt"⟩, ⟨"library", "/d", "x (2).txt"⟩] := by
    decide +kernel
  have given : (headDir batchLibrary.repo "/d").toOption.all (fun data =>
      decide (NamesApart data.dirents ["x (1).txt"])) = true := by decide +kernel
  have both := fun names => @batches_report FreeId _ _ _ defaultLimits "/s" "/d" "user" names
    batchLibrary (genuine_libraryOf _ _) batchLibrary_unique batchLibrary_stored (by decide +kernel)
    (by decide +kernel)
  refine ⟨⟨_, _, Prod.ext copied rfl, ((both _).1 _ _ (Prod.ext copied rfl)).mpr ?_⟩, _, _,
    Prod.ext moved rfl, ((both _).2 _ _ (Prod.ext moved rfl)).mpr (by decide)⟩
  intro data found
  rw [found] at given
  simpa [Except.toOption] using given

end Nanofile
