import Nanofile.Fs.TreePaths
import Nanofile.Service.MoveKeeps

/-!
# What a batch reports

A batch answers with the names its entries have in the destination.  Copying plans them
all against the directory as it was, moving against the directory and those planned
before; the two differ when two entries of one batch meet.
-/

set_option autoImplicit false

namespace Nanofile

open Nanofile.Lib

variable {Oid : Type}

/-- No name is listed twice, and none that is free is the one another gets. -/
def NamesApart (existing : List (DirEntryData Oid)) (names : List String) : Prop :=
  names.Nodup ∧ ∀ name ∈ names, name ∉ existing.map DirEntryData.name →
    ∀ other ∈ names, other ∈ existing.map DirEntryData.name →
      generateUniqueFilename existing other ≠ name

instance (existing : List (DirEntryData Oid)) (names : List String) :
    Decidable (NamesApart existing names) := inferInstanceAs (Decidable (_ ∧ _))

variable {existing : List (DirEntryData Oid)} {name : String}

theorem freshName_of_mem (taken : name ∈ existing.map DirEntryData.name) :
    freshName existing name = generateUniqueFilename existing name :=
  if_pos (any_name_iff.mpr taken)

theorem freshName_of_not_mem (free : name ∉ existing.map DirEntryData.name) :
    freshName existing name = name :=
  if_neg fun taken => free (any_name_iff.mp taken)

variable {names : List String}

theorem namesApart_iff : NamesApart existing names ↔ (names.map (freshName existing)).Nodup := by
  constructor
  · rintro ⟨once, apart⟩
    refine (List.nodup_map_iff_inj_on once).mpr ?_
    intro name listed other listed' same
    by_cases taken : name ∈ existing.map DirEntryData.name <;>
      by_cases taken' : other ∈ existing.map DirEntryData.name
    · rw [freshName_of_mem taken, freshName_of_mem taken'] at same
      exact generateUniqueFilename_injective existing same
    · rw [freshName_of_mem taken, freshName_of_not_mem taken'] at same
      exact absurd same (apart other listed' taken' name listed taken)
    · rw [freshName_of_not_mem taken, freshName_of_mem taken'] at same
      exact absurd same.symm (apart name listed taken other listed' taken')
    · rwa [freshName_of_not_mem taken, freshName_of_not_mem taken'] at same
  · intro planned
    have once := planned.of_map
    refine ⟨once, ?_⟩
    intro name listed free other listed' taken same
    have planned' := (List.nodup_map_iff_inj_on once).mp planned name listed other listed'
    rw [freshName_of_not_mem free, freshName_of_mem taken, same] at planned'
    exact free (planned' rfl ▸ taken)

@[simp] theorem ids_planEntries (existing entries : List (DirEntryData Oid)) :
    (planEntries existing entries).map DirEntryData.id = entries.map DirEntryData.id := by
  induction entries generalizing existing with
  | nil => rfl
  | cons entry rest ih => rw [planEntries, List.map_cons, List.map_cons, ih]

variable {entries : List (DirEntryData Oid)}

theorem planEntries_eq_self (unique : NamesNodup entries)
    (free : ∀ entry ∈ entries, entry.name ∉ existing.map DirEntryData.name) :
    planEntries existing entries = entries := by
  induction entries generalizing existing with
  | nil => rfl
  | cons entry rest ih =>
    obtain ⟨fresh, unique⟩ := List.nodup_cons.mp unique
    rw [planEntries, freshName_of_not_mem (free entry List.mem_cons_self)]
    congr 1
    apply ih unique
    intro other listed taken
    rw [List.map_append, List.mem_append] at taken
    rcases taken with before | same
    · exact free other (List.mem_cons_of_mem _ listed) before
    · rw [List.map_singleton, List.mem_singleton] at same
      exact fresh (same ▸ List.mem_map_of_mem listed)

variable {email : String}

theorem stored_perm (entries : List (DirEntryData Oid)) :
    (stored entries).Perm (entries.map DirEntryData.written) :=
  (sortDirentsDesc_perm entries).map DirEntryData.written

variable [DecidableEq Oid] [Digests Oid]

/-- The entries of the directory that a path of HEAD leads to. -/
def ListsAt (repo : Repo Oid) (path : String) (entries : List (DirEntryData Oid)) : Prop :=
  ∃ root dir, resolveRootFsId repo = .ok root ∧
    Resolves repo.fsObjects (pathComponents path) root dir ∧
    StandsFor repo.fsObjects dir entries

variable {path : String} {repo : Repo Oid}

theorem ListsAt.eq {entries' : List (DirEntryData Oid)} (lists : ListsAt repo path entries)
    (lists' : ListsAt repo path entries') : entries = entries' := by
  obtain ⟨root, dir, isRoot, resolves, stands⟩ := lists
  obtain ⟨root', dir', isRoot', resolves', stands'⟩ := lists'
  rw [isRoot, Except.ok.injEq] at isRoot'
  subst isRoot'
  obtain rfl := resolves.unique resolves'
  exact stands.entries.symm.trans stands'.entries

theorem Resolves.dirAt_eq {store : FsStore Oid} : ∀ {parts : List String} {root dir : Oid},
    Resolves store parts root dir →
      dirAt store (entriesOf store root) parts = entriesOf store dir := by
  intro parts
  induction parts with
  | nil => exact fun same => congrArg (entriesOf store) same
  | cons name rest ih =>
    intro root dir resolves
    obtain ⟨entries, entry, stands, found, directory, below⟩ := resolves
    have under : entriesUnder store (entriesOf store root) name = entriesOf store entry.id := by
      rw [entriesUnder, stands.entries, found]
      exact if_pos (hasDirBit_of_isDir directory)
    rw [dirAt, List.foldl_cons, under]
    exact ih below

def HeadUnique (repo : Repo Oid) : Prop :=
  ∀ root, resolveRootFsId repo = .ok root →
    UniqueNames repo.fsObjects (entriesOf repo.fsObjects root)

theorem ListsAt.nodup (unique : HeadUnique repo) (lists : ListsAt repo path entries) :
    NamesNodup entries := by
  obtain ⟨root, dir, isRoot, resolves, stands⟩ := lists
  have here := unique root isRoot (pathComponents path)
  rwa [resolves.dirAt_eq, stands.entries] at here

/-- The destination got one entry for each of the sources, under the name reported for it
and with its object; the entries it had are kept as they are written, and names are
unique. -/
structure Reported (results : List BatchOpResult) (sources kept new : List (DirEntryData Oid)) :
    Prop where
  added : ∃ added, new.Perm (kept.map DirEntryData.written ++ added) ∧
    added.map DirEntryData.name = results.map BatchOpResult.objName ∧
    added.map DirEntryData.id = sources.map DirEntryData.id
  unique : NamesNodup new

/-- What a batch copy from one HEAD to the other should have reported. -/
def CopyReported (before after : Repo Oid) (srcParentDir dstDir : String)
    (fileNames : List String) (results : List BatchOpResult) : Prop :=
  fileNames = [] ∧ results = [] ∧ after = before ∨
    ∃ source sources old new, ListsAt before srcParentDir source ∧
      fileNames.map (lookup source) = sources.map some ∧
      ListsAt before dstDir old ∧ ListsAt after dstDir new ∧ Reported results sources old new

variable [ToString Oid] {limits : Limits} {results : List BatchOpResult}
    {before final : WebState Oid} {dstDir srcParentDir : String} {fileNames : List String}

theorem batchCopy_steps (genuine : Genuine before.repo.fsObjects)
    (rootedSrc : RootedPath srcParentDir) (rootedDst : RootedPath dstDir) (some : fileNames ≠ [])
    (run : batchCopy limits srcParentDir dstDir fileNames email before = (.ok results, final)) :
    ∃ source old planned, ListsAt before.repo srcParentDir source ∧
      headDir before.repo dstDir = .ok old ∧ ListsAt before.repo dstDir old.dirents ∧
      fileNames.map (lookup source) = (namedEntries source fileNames).map Option.some ∧
      planned.map DirEntryData.name = fileNames.map (freshName old.dirents) ∧
      planned.map DirEntryData.id = (namedEntries source fileNames).map DirEntryData.id ∧
      results.map BatchOpResult.objName = planned.map DirEntryData.name ∧
      ListsAt final.repo dstDir (stored (old.dirents ++ planEntries old.dirents planned)) := by
  obtain ⟨root, time, source, sourceData, newEntries, destination, chain, data, top, clocked, moved,
    isRoot, source', isBatch, -, located, climbs, isDir, sameRepo, planned, isPlanned, moving,
    adjusting, isResult⟩ := batchCopy_ok rootedSrc rootedDst some run
  obtain ⟨isEntries, names, isFound⟩ := batchEntries_eq isBatch
  -- The destination is edited and its tree committed.
  rw [located.rooted.updateAndCommit] at moving
  obtain ⟨built, updated, updating, committing⟩ := Proc.bind_ok_iff.mp moving
  obtain ⟨_, committed, committing, done⟩ := Proc.bind_ok_iff.mp committing
  obtain ⟨ctime, ticked, tock, committing⟩ := Proc.bind_ok_iff.mp committing
  cases done
  cases tock
  obtain ⟨more, edited⟩ := applyTreeUpdate_edited (sameRepo ▸ genuine)
    (plainNames_pathComponents dstDir) (sameRepo ▸ climbs) (sameRepo ▸ located.resolves) updating
  have grown := sameRepo ▸ more.objects
  obtain ⟨sameStore, isTop⟩ := commitRoot_root committing
  have adjustment := adjustRepoSize_ok adjusting
  obtain ⟨parent, newDir, entries, resolves, stands, resolvesNew, standsNew⟩ := edited.dir_here
  obtain rfl := (located.resolves.extends grown).unique resolves
  obtain rfl := stands.entries.symm.trans (located.stands.extends grown).entries
  refine ⟨sourceData, data, planned, ⟨root, source, isRoot, source'.resolves, source'.stands⟩, isDir,
    ⟨root, destination, isRoot, located.resolves, located.stands⟩, isFound, ?_, ?_, ?_, ?_⟩
  · rw [isPlanned, List.map_map, ← names, List.map_map]
    rfl
  · rw [isPlanned, List.map_map, isEntries, List.map_map]
    rfl
  · rw [isResult, batchResults, List.map_map]
    rfl
  · refine ⟨top, newDir, ?_, ?_, ?_⟩
    · rw [adjustment]
      exact isTop
    · rw [adjustment]
      rw [← sameStore] at resolvesNew
      exact resolvesNew
    · rw [adjustment]
      rw [← sameStore] at standsNew
      exact standsNew

section

omit [DecidableEq Oid] [Digests Oid] [ToString Oid]

theorem planEntries_planned {old planned : List (DirEntryData Oid)}
    (isPlanned : planned.map DirEntryData.name = names.map (freshName old))
    (apart : NamesApart old names) : planEntries old planned = planned := by
  refine planEntries_eq_self ?_ ?_
  · rw [NamesNodup, isPlanned]
    exact namesApart_iff.mp apart
  · intro entry listed
    have isName : entry.name ∈ names.map (freshName old) :=
      isPlanned ▸ List.mem_map_of_mem listed
    obtain ⟨name, -, same⟩ := List.mem_map.mp isName
    rw [← same]
    exact freshName_not_mem old name

theorem written_names (entries : List (DirEntryData Oid)) :
    (entries.map DirEntryData.written).map DirEntryData.name = entries.map DirEntryData.name := by
  rw [List.map_map]
  exact List.map_congr_left fun entry _ => written_name entry

theorem namesNodup_stored : NamesNodup (stored entries) ↔ NamesNodup entries := by
  rw [NamesNodup, ((stored_perm entries).map DirEntryData.name).nodup_iff, written_names]
  rfl

theorem reported_of_stored {sources kept added : List (DirEntryData Oid)}
    (named : results.map BatchOpResult.objName = added.map DirEntryData.name)
    (sameIds : added.map DirEntryData.id = sources.map DirEntryData.id)
    (unique : NamesNodup (kept ++ added)) :
    Reported results sources kept (stored (kept ++ added)) := by
  refine ⟨⟨added.map DirEntryData.written, ?_, ?_, ?_⟩, namesNodup_stored.mpr unique⟩
  · rw [← List.map_append]
    exact stored_perm _
  · rw [written_names, named]
  · rw [List.map_map, ← sameIds]
    exact List.map_congr_left fun entry _ => written_id entry

end

/-- A copy reports the names it stores exactly when its names are apart in the
destination. -/
theorem batchCopy_reports (genuine : Genuine before.repo.fsObjects)
    (unique : HeadUnique before.repo) (rootedSrc : RootedPath srcParentDir)
    (rootedDst : RootedPath dstDir)
    (run : batchCopy limits srcParentDir dstDir fileNames email before = (.ok results, final)) :
    CopyReported before.repo final.repo srcParentDir dstDir fileNames results ↔
      ∀ data, headDir before.repo dstDir = .ok data → NamesApart data.dirents fileNames := by
  by_cases none : fileNames = []
  · subst none
    have same : results = [] ∧ final = before := by
      unfold batchCopy at run
      rw [if_pos rfl] at run
      cases run
      exact ⟨rfl, rfl⟩
    refine iff_of_true (Or.inl ⟨rfl, same.1, by rw [same.2]⟩) ?_
    intro data _
    exact ⟨List.nodup_nil, fun _ listed => absurd listed List.not_mem_nil⟩
  · obtain ⟨source, old, planned, isSource, isDir, isOld, found, isPlanned, sameIds, named, isNew⟩ :=
      batchCopy_steps genuine rootedSrc rootedDst none run
    constructor
    · rintro (⟨isNil, -⟩ | ⟨_, sources, _, new, -, -, -, isNew', reported⟩) data isData
      · exact absurd isNil none
      · rw [isDir, Except.ok.injEq] at isData
        subst isData
        obtain ⟨added, isPerm, names, -⟩ := reported.added
        have distinct : (added.map DirEntryData.name).Nodup := by
          have all := ((isPerm.map DirEntryData.name).nodup_iff.mp reported.unique)
          rw [List.map_append] at all
          exact all.of_append_right
        rw [namesApart_iff, ← isPlanned, ← named, ← names]
        exact distinct
    · intro apart
      have planned' := planEntries_planned isPlanned (apart old isDir)
      have nodup : NamesNodup (old.dirents ++ planEntries old.dirents planned) :=
        namesNodup_planEntries (isOld.nodup unique)
      rw [planned'] at isNew nodup
      exact Or.inr ⟨source, _, old.dirents, _, isSource, found, isOld, isNew,
        reported_of_stored named sameIds nodup⟩

end Nanofile
