import Nanofile.Service.SubRepoSteps

/-!
# The walks of a folder-to-library copy

The objects are copied level by level, each id as often as it is listed; the walk for the blocks
meets each id once.  Both read what is reachable from the folder.
-/

set_option autoImplicit false

namespace Nanofile

open Nanofile.Lib Nanofile.Lib.Proc

variable {Oid : Type}

section Inserts

variable [DecidableEq Oid] {env : SubRepoEnv Oid} {site : LibrarySite Oid} {repoId : String}

theorem update_insertObjects (rows more : List (Oid × FsObject Oid)) (repoId : String) :
    (site.update repoId (insertObjects rows)).update repoId (insertObjects more) =
      site.update repoId (insertObjects (rows ++ more)) := by
  have keeps : ∀ repo, (insertObjects rows repo).id = repo.id := fun _ => rfl
  rw [LibrarySite.update_update keeps]
  congr 1
  funext repo
  simp [insertObjects, List.foldl_append]

theorem update_insertObjects_nil (repoId : String) :
    site.update repoId (insertObjects []) = site := by
  unfold LibrarySite.update insertObjects
  simp

theorem storeOf_insertObjects (apart : repoId ≠ env.newRepoId)
    (rows : List (Oid × FsObject Oid)) :
    (site.update env.newRepoId (insertObjects rows)).storeOf repoId = site.storeOf repoId := by
  have keeps : ∀ repo, (insertObjects rows repo).id = repo.id := fun _ => rfl
  unfold LibrarySite.storeOf
  rw [LibrarySite.find_update_of_ne keeps apart]

variable {name : String} {userId : Int} {rows : List (Oid × FsObject Oid)}

def copiedObjects (env : SubRepoEnv Oid) (site : LibrarySite Oid) (name : String) (userId : Int)
    (rows : List (Oid × FsObject Oid)) : LibrarySite Oid :=
  (site.started env name userId).update env.newRepoId (insertObjects rows)

theorem changesNew_copiedObjects (rows : List (Oid × FsObject Oid)) :
    ChangesNew env (site.started env name userId) (copiedObjects env site name userId rows) :=
  ⟨insertObjects rows, fun _ => rfl, rfl⟩

theorem committedUsage_copiedObjects : (copiedObjects env site name userId rows).committedUsage
    userId = site.committedUsage userId := by
  have sizes : ∀ repo, (insertObjects rows repo).size = repo.size := fun _ => rfl
  have empty : (env.newLibrary name userId).repo.size = 0 := rfl
  rw [copiedObjects, LibrarySite.committedUsage_update sizes]
  exact LibrarySite.committedUsage_addLibrary empty userId

theorem storeOf_copiedObjects (apart : repoId ≠ env.newRepoId) :
    (copiedObjects env site name userId rows).storeOf repoId = site.storeOf repoId := by
  rw [copiedObjects, storeOf_insertObjects apart, storeOf_started apart]

end Inserts

variable {failure : AppError} {result : Unit}

section Objects

variable [DecidableEq Oid] [Digests Oid] {env : SubRepoEnv Oid}
  {site final : LibrarySite Oid} {store : FsStore Oid} {repoId : String} {fsId other : Oid}
  {frontier : List Oid}

/-! ## The copy of the objects -/

def listedIds (store : FsStore Oid) (fsId : Oid) : List Oid :=
  (dirBatch store fsId).elim [] fun data => data.dirents.map DirEntryData.id

theorem mem_listedIds : other ∈ listedIds store fsId ↔ Lists store fsId other := by
  unfold listedIds Lists
  cases dirBatch store fsId with
  | none | some data => simp

def rowsOf (store : FsStore Oid) (fsId : Oid) : List (Oid × FsObject Oid) :=
  if fsId = emptySha1 then [] else (store.find fsId).toList.map fun object => (fsId, object)

def ObjectHeld (store : FsStore Oid) (fsId : Oid) : Prop :=
  fsId ≠ emptySha1 → (store.find fsId).isSome = true

instance (store : FsStore Oid) (fsId : Oid) : Decidable (ObjectHeld store fsId) :=
  inferInstanceAs (Decidable (fsId ≠ emptySha1 → (store.find fsId).isSome = true))

def nextCopies (store : FsStore Oid) (ids : List Oid) : List Oid :=
  ids.eraseDups.flatMap (listedIds store)

def copyFrontier (store : FsStore Oid) (frontier : List Oid) (level : Nat) : List Oid :=
  (nextCopies store)^[level] frontier

theorem copyFrontier_succ (level : Nat) : copyFrontier store frontier (level + 1) =
    copyFrontier store (nextCopies store frontier) level :=
  Function.iterate_succ_apply _ _ _

theorem copyFrontier_succ' (level : Nat) : copyFrontier store frontier (level + 1) =
    nextCopies store (copyFrontier store frontier level) :=
  Function.iterate_succ_apply' _ _ _

variable {level : Nat}

theorem mem_copyFrontier_succ :
    other ∈ copyFrontier store frontier (level + 1) ↔
      ∃ fsId ∈ copyFrontier store frontier level, Lists store fsId other := by
  simp [copyFrontier_succ', nextCopies, mem_listedIds]

theorem copyFrontier_eq_nil_of_le {deeper : Nat} (ends : copyFrontier store frontier level = [])
    (le : level ≤ deeper) : copyFrontier store frontier deeper = [] := by
  induction le with
  | refl => exact ends
  | step _ ih => simp [copyFrontier_succ', ih, nextCopies]

def copyVisits (store : FsStore Oid) (frontier : List Oid) (levels : Nat) : Nat :=
  ((List.range levels).map fun level => (copyFrontier store frontier level).length).sum

theorem copyVisits_succ (levels : Nat) : copyVisits store frontier (levels + 1) =
    frontier.length + copyVisits store (nextCopies store frontier) levels := by
  unfold copyVisits
  rw [List.range_succ_eq_map, List.map_cons, List.sum_cons, List.map_map]
  simp only [Function.comp_def, copyFrontier_succ]
  rfl

def copiedRows (store : FsStore Oid) (frontier : List Oid) (levels : Nat) :
    List (Oid × FsObject Oid) :=
  (List.range levels).flatMap fun level =>
    (copyFrontier store frontier level).eraseDups.flatMap (rowsOf store)

theorem copiedRows_succ (levels : Nat) : copiedRows store frontier (levels + 1) =
    frontier.eraseDups.flatMap (rowsOf store) ++
      copiedRows store (nextCopies store frontier) levels := by
  unfold copiedRows
  rw [List.range_succ_eq_map, List.flatMap_cons, List.flatMap_map]
  simp only [copyFrontier_succ]
  rfl

variable {row : Oid × FsObject Oid}

theorem mem_rowsOf : row ∈ rowsOf store fsId ↔
    row.1 = fsId ∧ fsId ≠ emptySha1 ∧ store.find fsId = some row.2 := by
  obtain ⟨key, object⟩ := row
  unfold rowsOf
  by_cases sentinel : fsId = emptySha1
  · simp [sentinel]
  · simp [sentinel, eq_comm (b := key), and_comm]

variable {levels : Nat}

theorem mem_copiedRows :
    row ∈ copiedRows store frontier levels ↔
      (∃ level < levels, row.1 ∈ copyFrontier store frontier level) ∧ row.1 ≠ emptySha1 ∧
        store.find row.1 = some row.2 := by
  unfold copiedRows
  simp only [List.mem_flatMap, List.mem_range, List.mem_eraseDups, mem_rowsOf]
  constructor
  · rintro ⟨level, less, fsId, listed, rfl, facts⟩
    exact ⟨⟨level, less, listed⟩, facts⟩
  · rintro ⟨⟨level, less, listed⟩, facts⟩
    exact ⟨level, less, row.1, listed, rfl, facts⟩

/-- From a frontier, this many levels are copied within the limits. -/
structure CopiesFrom (env : SubRepoEnv Oid) (store : FsStore Oid) (room here visits : Nat)
    (frontier : List Oid) (levels : Nat) : Prop where
  ends : copyFrontier store frontier levels = []
  deep : levels ≤ room
  wide : visits + copyVisits store frontier levels ≤ env.limits.maxVisits
  fetched : ∀ level < levels, env.fault (.fetchLevel (here + level)) = none
  inserted : ∀ level < levels, env.fault (.insertLevel (here + level)) = none
  held : ∀ level < levels, ∀ fsId ∈ copyFrontier store frontier level, ObjectHeld store fsId

abbrev ObjectsCopy (env : SubRepoEnv Oid) (store : FsStore Oid) (folder : Oid) (levels : Nat) :
    Prop :=
  CopiesFrom env store env.limits.maxDepth 0 0 [folder] levels

variable {here room visits : Nat}

theorem CopiesFrom.succ_iff :
    CopiesFrom env store (room + 1) here visits frontier (levels + 1) ↔
      env.fault (.fetchLevel here) = none ∧ env.fault (.insertLevel here) = none ∧
        (∀ fsId ∈ frontier, ObjectHeld store fsId) ∧
        CopiesFrom env store room (here + 1) (visits + frontier.length)
          (nextCopies store frontier) levels := by
  constructor
  · intro copies
    have wide := copies.wide
    rw [copyVisits_succ] at wide
    refine ⟨copies.fetched 0 (by omega), copies.inserted 0 (by omega),
      copies.held 0 (by omega), ?_, ?_, by omega, ?_, ?_, ?_⟩
    · rw [← copyFrontier_succ]
      exact copies.ends
    · have deep := copies.deep
      omega
    · intro level less
      rw [Nat.add_assoc, Nat.add_comm 1]
      exact copies.fetched (level + 1) (by omega)
    · intro level less
      rw [Nat.add_assoc, Nat.add_comm 1]
      exact copies.inserted (level + 1) (by omega)
    · intro level less
      rw [← copyFrontier_succ]
      exact copies.held (level + 1) (by omega)
  · rintro ⟨fetched, inserted, held, below⟩
    have deep := below.deep
    have wide := below.wide
    refine ⟨by rw [copyFrontier_succ]; exact below.ends, by omega,
      by rw [copyVisits_succ]; omega, ?_, ?_, ?_⟩
    · intro level less
      cases level with
      | zero => exact fetched
      | succ level =>
        rw [Nat.add_comm level, ← Nat.add_assoc]
        exact below.fetched level (by omega)
    · intro level less
      cases level with
      | zero => exact inserted
      | succ level =>
        rw [Nat.add_comm level, ← Nat.add_assoc]
        exact below.inserted level (by omega)
    · intro level less
      cases level with
      | zero => exact held
      | succ level =>
        rw [copyFrontier_succ]
        exact below.held level (by omega)

theorem copyVisits_succ' (levels : Nat) : copyVisits store frontier (levels + 1) =
    copyVisits store frontier levels + (copyFrontier store frontier levels).length := by
  simp [copyVisits, List.range_succ]

theorem copyVisits_mono {more : Nat} (le : levels ≤ more) :
    copyVisits store frontier levels ≤ copyVisits store frontier more := by
  induction le with
  | refl => exact Nat.le_refl _
  | step _ ih =>
    rw [copyVisits_succ']
    omega

/-! ## The walk for the blocks -/

/-- The ids that a directory lists, without sentinels. -/
def subIds (store : FsStore Oid) (fsId : Oid) : List Oid :=
  (listedIds store fsId).filter fun other => other ≠ emptySha1

/-- The ids that are first met on a level below a folder. -/
abbrev newIds (store : FsStore Oid) (folder : Oid) (level : Nat) : List Oid :=
  firstLevel id (subIds store) folder level

/-- The ids met on the levels before this one, each once. -/
abbrev idsTo (store : FsStore Oid) (folder : Oid) (levels : Nat) : List Oid :=
  firstTo id (subIds store) folder levels

def blocksOf (store : FsStore Oid) (fsId : Oid) : List Oid :=
  match store.find fsId with
  | some (.file data) => data.blockIds
  | _ => []

def bytesOf (store : FsStore Oid) (fsId : Oid) : Int :=
  match store.find fsId with
  | some (.file data) => max 0 data.size
  | _ => 0

def totalBytes (store : FsStore Oid) (ids : List Oid) : Int :=
  min (2 ^ 63 - 1) (ids.map (bytesOf store)).sum

omit [Digests Oid] in
theorem totalBytes_concat (ids : List Oid) (fsId : Oid) : totalBytes store (ids ++ [fsId]) =
    addSaturating (totalBytes store ids) (bytesOf store fsId) := by
  have nonneg : 0 ≤ bytesOf store fsId := by
    unfold bytesOf
    split
    · exact le_max_left 0 _
    · exact le_refl 0
  unfold totalBytes addSaturating
  simp only [List.map_append, List.map_cons, List.map_nil, List.sum_append, List.sum_singleton]
  omega

/-- The walk that has seen these ids and has counted those. -/
def walkOf (store : FsStore Oid) (seen counted : List Oid) : BlockWalk Oid :=
  ⟨seen, counted.flatMap (blocksOf store), totalBytes store counted⟩

variable {folder : Oid}

theorem mem_idsTo :
    fsId ∈ idsTo store folder levels ↔ fsId ∈ levelsTo (subIds store) levels [folder] := by
  have keys := @mem_keys_firstVisits _ _ _ id [] (levelsTo (subIds store) levels [folder]) fsId
  simpa [idsTo, firstTo] using keys

theorem freshIds_flatMap (seen ids : List Oid) :
    freshIds seen (ids.flatMap (listedIds store)) =
      firstVisits id seen (ids.flatMap (subIds store)) := by
  rw [freshIds, List.filter_flatMap]
  rfl

theorem freshIds_newIds (folder : Oid) (level : Nat) :
    freshIds (idsTo store folder (level + 1))
        ((newIds store folder level).flatMap (listedIds store)) =
      newIds store folder (level + 1) := by
  have alike : ∀ node node' : Oid, id node = id node' →
      (subIds store node).map id = (subIds store node').map id := fun node node' same => by
    rw [show node = node' from same]
  rw [freshIds_flatMap]
  refine Eq.trans ?_ (firstLevel_succ alike level)
  refine firstVisits_congr (fun wanted => ?_) _
  rw [List.map_id]
  exact mem_idsTo

theorem freshIds_root (nonempty : folder ≠ emptySha1) :
    freshIds (idsTo store folder 0) [folder] = newIds store folder 0 := by
  simp [freshIds, nonempty, firstLevel_zero, firstTo, levelsTo, firstVisits]

variable {seen : List Oid}

theorem mem_freshIds (fresh : fsId ∈ freshIds seen frontier) :
    fsId ∈ frontier ∧ fsId ≠ emptySha1 := by
  simpa using mem_of_mem_firstVisits fresh

theorem length_freshIds_le {ids : List Oid} (inside : ∀ fsId ∈ frontier, fsId ∈ ids) :
    (freshIds seen frontier).length ≤ ids.length := by
  have unique : ((freshIds seen frontier).map id).Nodup := (nodup_keys_firstVisits seen _).1
  rw [List.map_id] at unique
  exact (List.subperm_of_subset unique fun fsId fresh =>
    inside fsId (mem_freshIds fresh).1).length_le

theorem newIds_eq_nil {reached : Nat} (ends : newIds store folder reached = [])
    (past : reached ≤ level) :
    newIds store folder level = [] ∧ idsTo store folder level = idsTo store folder reached :=
  firstTo_of_le (fun node node' same => by rw [show node = node' from same]) ends past

theorem CopiesFrom.newIds_eq_nil (copies : CopiesFrom env store room here visits [folder] levels) :
    newIds store folder levels = [] := by
  have inside : ∀ level, ∀ fsId ∈ levelAt (subIds store) level [folder],
      fsId ∈ copyFrontier store [folder] level := by
    intro level
    induction level with
    | zero => exact fun fsId listed => listed
    | succ level ih =>
      intro fsId listed
      rw [levelAt_succ'] at listed
      obtain ⟨above, isAbove, isListed⟩ := List.mem_flatMap.mp listed
      exact mem_copyFrontier_succ.mpr ⟨above, ih above isAbove,
        mem_listedIds.mp (List.mem_filter.mp isListed).1⟩
  rw [newIds, firstLevel, List.eq_nil_iff_forall_not_mem]
  intro fsId listed
  have member := inside levels fsId (mem_of_mem_firstVisits listed)
  rw [copies.ends] at member
  cases member

theorem mem_idsTo_of_reach (ends : newIds store folder levels = [])
    (reached : Reach store folder fsId) :
    fsId = emptySha1 ∨ fsId ∈ idsTo store folder levels := by
  have concat : idsTo store folder (levels + 1) = idsTo store folder levels :=
    (newIds_eq_nil ends (Nat.le_succ levels)).2
  refine reach_subset (P := fun fsId => fsId = emptySha1 ∨ fsId ∈ idsTo store folder levels)
    (Or.inr ?_) ?_ fsId reached
  · rw [← concat, mem_idsTo]
    exact mem_levelsTo.mpr ⟨0, Nat.succ_pos _, List.mem_cons_self⟩
  · rintro above other (rfl | isAbove) listed
    · obtain ⟨data, entry, read, -⟩ := listed
      rw [dirBatch_empty] at read
      cases read
    · by_cases sentinel : other = emptySha1
      · exact Or.inl sentinel
      · rw [mem_idsTo] at isAbove
        obtain ⟨level, less, inside⟩ := mem_levelsTo.mp isAbove
        refine Or.inr ?_
        rw [← concat, mem_idsTo]
        refine mem_levelsTo.mpr ⟨level + 1, by omega, ?_⟩
        rw [levelAt_succ']
        exact List.mem_flatMap.mpr ⟨above, inside, List.mem_filter.mpr
          ⟨mem_listedIds.mpr listed, by simpa using sentinel⟩⟩

theorem CopiesFrom.mem_of_reach (copies : CopiesFrom env store room here visits [folder] levels)
    (reached : Reach store folder fsId) :
    ∃ level < levels, fsId ∈ copyFrontier store [folder] level := by
  have ends := copies.ends
  refine reach_subset (P := fun fsId => ∃ level < levels,
    fsId ∈ copyFrontier store [folder] level) ⟨0, ?_, List.mem_singleton.mpr rfl⟩ ?_ fsId reached
  · cases levels with
    | zero => cases ends
    | succ levels => exact Nat.succ_pos _
  · rintro above other ⟨level, less, isAbove⟩ listed
    have below := mem_copyFrontier_succ.mpr ⟨above, isAbove, listed⟩
    refine ⟨level + 1, ?_, below⟩
    by_contra past
    rw [copyFrontier_eq_nil_of_le ends (by omega)] at below
    cases below

variable [ToString Oid]

theorem copyEntry_ok_iff {found : List (Oid × FsObject Oid) × List Oid} :
    copyEntry store fsId = .ok found ↔
      ObjectHeld store fsId ∧ found = (rowsOf store fsId, listedIds store fsId) := by
  unfold copyEntry ObjectHeld rowsOf listedIds
  by_cases sentinel : fsId = emptySha1
  · subst sentinel
    rw [if_pos rfl, if_pos rfl, dirBatch_empty]
    simp [eq_comm (b := found)]
  · rcases present : store.find fsId with _ | _ | _ <;>
      simp [sentinel, dirBatch, present, eq_comm (b := found)]

theorem copyLevel_ok_iff : ∀ {ids : List Oid} {found : List (Oid × FsObject Oid) × List Oid},
    copyLevel store ids = .ok found ↔ (∀ fsId ∈ ids, ObjectHeld store fsId) ∧
      found = (ids.flatMap (rowsOf store), ids.flatMap (listedIds store)) := by
  intro ids
  induction ids with
  | nil => simp [copyLevel, eq_comm]
  | cons fsId rest ih =>
    intro found
    rw [copyLevel, except_bind_ok_iff, List.forall_mem_cons]
    constructor
    · rintro ⟨here, isHere, run⟩
      obtain ⟨others, isOthers, isFound⟩ := except_bind_ok_iff.mp run
      obtain ⟨held, rfl⟩ := copyEntry_ok_iff.mp isHere
      obtain ⟨heldRest, rfl⟩ := ih.mp isOthers
      cases isFound
      exact ⟨⟨held, heldRest⟩, rfl⟩
    · rintro ⟨⟨held, heldRest⟩, rfl⟩
      exact ⟨_, copyEntry_ok_iff.mpr ⟨held, rfl⟩,
        except_bind_ok_iff.mpr ⟨_, ih.mpr ⟨heldRest, rfl⟩, rfl⟩⟩

variable {out : BlockWalk Oid × List Oid}

theorem walkEntry_ok_iff (nonempty : fsId ≠ emptySha1) {counted next : List Oid} :
    walkEntry store (walkOf store seen counted, next) fsId = .ok out ↔
      (store.find fsId).isSome = true ∧
        out = (walkOf store seen (counted ++ [fsId]), next ++ listedIds store fsId) := by
  rcases present : store.find fsId with _ | data | data
  · simp [walkEntry, present]
  · simp [walkEntry, walkOf, totalBytes, blocksOf, bytesOf, listedIds, dirBatch, nonempty, present,
      eq_comm (b := out)]
  · have isBytes : bytesOf store fsId = max 0 data.size := by simp [bytesOf, present]
    simp [walkEntry, walkOf, totalBytes_concat, isBytes, blocksOf, listedIds, dirBatch, nonempty,
      present, eq_comm (b := out)]

theorem walkEntries_ok_iff :
    ∀ {ids counted next : List Oid}, (∀ fsId ∈ ids, fsId ≠ emptySha1) →
      (ids.foldlM (walkEntry store) (walkOf store seen counted, next) = .ok out ↔
        (∀ fsId ∈ ids, (store.find fsId).isSome = true) ∧
          out = (walkOf store seen (counted ++ ids), next ++ ids.flatMap (listedIds store))) := by
  intro ids
  induction ids with
  | nil =>
    intro counted next _
    simp [pure, Except.pure, eq_comm (b := out)]
  | cons fsId rest ih =>
    intro counted next nonempty
    obtain ⟨here, below⟩ := List.forall_mem_cons.mp nonempty
    rw [List.foldlM_cons, except_bind_ok_iff, List.forall_mem_cons]
    constructor
    · rintro ⟨middle, first, others⟩
      obtain ⟨stored, rfl⟩ := (walkEntry_ok_iff here).mp first
      obtain ⟨storedRest, rfl⟩ := (ih below).mp others
      exact ⟨⟨stored, storedRest⟩, by simp⟩
    · rintro ⟨⟨stored, storedRest⟩, rfl⟩
      exact ⟨_, (walkEntry_ok_iff here).mpr ⟨stored, rfl⟩,
        (ih below).mpr ⟨storedRest, by simp⟩⟩

variable {walk : BlockWalk Oid}

theorem walkBlocks_ok :
    ∀ {room here visits : Nat} {frontier : List Oid},
      freshIds (idsTo store folder here) frontier = newIds store folder here →
      walkBlocks env store room here visits frontier
        (walkOf store (idsTo store folder here) (idsTo store folder here)) = .ok walk →
      ∃ reached, here ≤ reached ∧ newIds store folder reached = [] ∧
        (∀ level, here ≤ level → level < reached → env.fault (.walkLevel level) = none) ∧
        walk = walkOf store (idsTo store folder reached) (idsTo store folder reached) := by
  intro room
  induction room with
  | zero =>
    intro here visits frontier isNew run
    cases frontier with
    | nil =>
      cases run
      exact ⟨here, Nat.le_refl _, isNew.symm, by omega, rfl⟩
    | cons fsId rest => cases run
  | succ room ih =>
    intro here visits frontier isNew run
    cases frontier with
    | nil =>
      cases run
      exact ⟨here, Nat.le_refl _, isNew.symm, by omega, rfl⟩
    | cons fsId rest =>
      have nonempty : ∀ fsId ∈ newIds store folder here, fsId ≠ emptySha1 := by
        intro other listed
        rw [← isNew] at listed
        exact (mem_freshIds listed).2
      rw [walkBlocks] at run
      simp only [walkOf, isNew] at run
      split at run
      · cases run
      · split at run
        · rename_i noMore
          cases run
          exact ⟨here, Nat.le_refl _, noMore, by omega, rfl⟩
        · split at run
          · cases run
          · rename_i noFault
            split at run
            · cases run
            · rename_i found next entries
              have entered : (newIds store folder here).foldlM (walkEntry store)
                  (walkOf store (idsTo store folder here ++ newIds store folder here)
                    (idsTo store folder here), []) = .ok (found, next) := entries
              obtain ⟨-, isFound⟩ := (walkEntries_ok_iff nonempty).mp entered
              cases isFound
              rw [← firstTo_succ] at run
              obtain ⟨reached, past, ends, faultless, isWalk⟩ :=
                ih (freshIds_newIds folder here) run
              refine ⟨reached, by omega, ends, ?_, isWalk⟩
              intro level from_ less
              rcases Nat.eq_or_lt_of_le from_ with rfl | later
              · exact noFault
              · exact faultless level later less

theorem walkBlocks_error (copies : ObjectsCopy env store folder levels) :
    ∀ {room here visits : Nat} {frontier : List Oid},
      freshIds (idsTo store folder here) frontier = newIds store folder here →
      (∀ fsId ∈ frontier, fsId ∈ copyFrontier store [folder] here) →
      here + room = env.limits.maxDepth → visits ≤ copyVisits store [folder] here →
      walkBlocks env store room here visits frontier
        (walkOf store (idsTo store folder here) (idsTo store folder here)) = .error failure →
      ∃ level, newIds store folder level ≠ [] ∧ env.fault (.walkLevel level) = some failure := by
  have stays : ∀ {here : Nat} {frontier : List Oid} {fsId : Oid}, fsId ∈ frontier →
      (∀ fsId ∈ frontier, fsId ∈ copyFrontier store [folder] here) → here < levels := by
    intro here frontier fsId listed inside
    by_contra past
    have member := inside fsId listed
    rw [copyFrontier_eq_nil_of_le copies.ends (by omega)] at member
    cases member
  have deep := copies.deep
  have wide := copies.wide
  intro room
  induction room with
  | zero =>
    intro here visits frontier isNew inside isDepth isVisits run
    cases frontier with
    | nil => cases run
    | cons fsId rest =>
      have less := stays List.mem_cons_self inside
      omega
  | succ room ih =>
    intro here visits frontier isNew inside isDepth isVisits run
    cases frontier with
    | nil => cases run
    | cons fsId rest =>
      have less := stays List.mem_cons_self inside
      have nonempty : ∀ fsId ∈ newIds store folder here, fsId ≠ emptySha1 := by
        intro other listed
        rw [← isNew] at listed
        exact (mem_freshIds listed).2
      have few : (newIds store folder here).length ≤
          (copyFrontier store [folder] here).length := by
        rw [← isNew]
        exact length_freshIds_le inside
      have total : copyVisits store [folder] (here + 1) ≤ copyVisits store [folder] levels :=
        copyVisits_mono less
      rw [copyVisits_succ'] at total
      rw [walkBlocks] at run
      simp only [walkOf, isNew] at run
      split at run
      · omega
      · split at run
        · cases run
        · rename_i more
          split at run
          · rename_i isFault
            cases run
            exact ⟨here, more, isFault⟩
          · have stored : ∀ fsId ∈ newIds store folder here, (store.find fsId).isSome = true := by
              intro other listed
              have again := listed
              rw [← isNew] at again
              exact copies.held here less other (inside other (mem_freshIds again).1)
                (nonempty other listed)
            have entered : (newIds store folder here).foldlM (walkEntry store)
                (walkOf store (idsTo store folder here ++ newIds store folder here)
                  (idsTo store folder here), []) = _ :=
              (walkEntries_ok_iff nonempty).mpr ⟨stored, rfl⟩
            simp only [walkOf] at entered
            rw [entered] at run
            simp only [← firstTo_succ] at run
            refine ih (freshIds_newIds folder here) ?_ (by omega) ?_ run
            · intro other listed
              rw [List.mem_flatMap] at listed
              obtain ⟨above, isAbove, isListed⟩ := listed
              rw [← isNew] at isAbove
              exact mem_copyFrontier_succ.mpr
                ⟨above, inside above (mem_freshIds isAbove).1, mem_listedIds.mp isListed⟩
            · rw [copyVisits_succ']
              omega

theorem collectBlocks_ok (copies : ObjectsCopy env store folder levels)
    (nonempty : folder ≠ emptySha1) (run : collectBlocks env store folder = .ok walk) :
    (∀ level, newIds store folder level ≠ [] → env.fault (.walkLevel level) = none) ∧
      walk = walkOf store (idsTo store folder levels) (idsTo store folder levels) := by
  obtain ⟨reached, -, ends, faultless, rfl⟩ := walkBlocks_ok (freshIds_root nonempty) run
  refine ⟨fun level more => faultless level (Nat.zero_le _) ?_, ?_⟩
  · by_contra past
    exact more (newIds_eq_nil ends (by omega)).1
  · rcases Nat.le_total reached levels with le | le
    · rw [(newIds_eq_nil ends le).2]
    · rw [(newIds_eq_nil copies.newIds_eq_nil le).2]

theorem collectBlocks_error (copies : ObjectsCopy env store folder levels)
    (nonempty : folder ≠ emptySha1) (run : collectBlocks env store folder = .error failure) :
    ∃ level, newIds store folder level ≠ [] ∧ env.fault (.walkLevel level) = some failure :=
  walkBlocks_error copies (freshIds_root nonempty) (by simp [copyFrontier])
    (Nat.zero_add _) (Nat.zero_le _) run

variable (apart : repoId ≠ env.newRepoId)

include apart

theorem copyLevels_ok : ∀ {room here visits : Nat} {frontier : List Oid} {site : LibrarySite Oid}
    {result : Unit}, visits ≤ env.limits.maxVisits → site.storeOf repoId = store →
    copyLevels env repoId room here visits frontier site = (.ok result, final) →
    ∃ levels, CopiesFrom env store room here visits frontier levels ∧
      final = site.update env.newRepoId (insertObjects (copiedRows store frontier levels)) := by
  intro room
  induction room with
  | zero =>
    intro here visits frontier site result within isStore run
    cases frontier with
    | nil =>
      cases run
      exact ⟨0, ⟨rfl, Nat.le_refl _, within, by simp, by simp, by simp⟩,
        (update_insertObjects_nil _).symm⟩
    | cons fsId rest => cases run
  | succ room ih =>
    intro here visits frontier site result within isStore run
    cases frontier with
    | nil =>
      cases run
      exact ⟨0, ⟨rfl, Nat.zero_le _, within, by simp, by simp, by simp⟩,
        (update_insertObjects_nil _).symm⟩
    | cons fsId rest =>
      rw [copyLevels] at run
      split at run
      · cases run
      · obtain ⟨_, _, fetches, run⟩ := bind_ok_iff.mp run
        obtain ⟨fetched, rfl⟩ := access_ok_iff.mp fetches
        obtain ⟨found, _, reads, run⟩ := bind_ok_iff.mp run
        obtain ⟨read, rfl⟩ := tryRead_ok_iff.mp reads
        obtain ⟨_, _, inserts, run⟩ := bind_ok_iff.mp run
        obtain ⟨inserted, rfl⟩ := access_ok_iff.mp inserts
        obtain ⟨_, _, writes, run⟩ := bind_ok_iff.mp run
        cases writes
        rw [isStore] at read
        obtain ⟨held, rfl⟩ := copyLevel_ok_iff.mp read
        obtain ⟨levels, below, rfl⟩ := ih (by omega)
          ((storeOf_insertObjects apart _).trans isStore) run
        refine ⟨levels + 1, CopiesFrom.succ_iff.mpr ⟨fetched, inserted, ?_, below⟩, ?_⟩
        · exact fun fsId listed => held fsId (List.mem_eraseDups.mpr listed)
        · rw [update_insertObjects, copiedRows_succ]
          rfl

theorem copyLevels_of_copies : ∀ {room here visits levels : Nat} {frontier : List Oid}
    {site : LibrarySite Oid}, site.storeOf repoId = store →
    CopiesFrom env store room here visits frontier levels →
    ∃ final, copyLevels env repoId room here visits frontier site = (.ok (), final) := by
  intro room
  induction room with
  | zero =>
    intro here visits levels frontier site isStore copies
    obtain rfl := Nat.le_zero.mp copies.deep
    obtain rfl : frontier = [] := copies.ends
    exact ⟨site, rfl⟩
  | succ room ih =>
    intro here visits levels frontier site isStore copies
    cases frontier with
    | nil => exact ⟨site, rfl⟩
    | cons fsId rest =>
      cases levels with
      | zero => cases copies.ends
      | succ levels =>
        obtain ⟨fetched, inserted, held, below⟩ := CopiesFrom.succ_iff.mp copies
        have narrow := below.wide
        have read : copyLevel (site.storeOf repoId) (fsId :: rest).eraseDups =
            .ok ((fsId :: rest).eraseDups.flatMap (rowsOf store),
              nextCopies store (fsId :: rest)) := by
          rw [isStore]
          exact copyLevel_ok_iff.mpr
            ⟨fun fsId listed => held fsId (List.mem_eraseDups.mp listed), rfl⟩
        obtain ⟨final, finishes⟩ := ih ((storeOf_insertObjects apart _).trans isStore) below
        rw [copyLevels, if_neg (by omega)]
        exact ⟨final, bind_ok_iff.mpr ⟨(), site, access_ok_iff.mpr ⟨fetched, rfl⟩,
          bind_ok_iff.mpr ⟨_, site, tryRead_ok_iff.mpr ⟨read, rfl⟩,
            bind_ok_iff.mpr ⟨(), site, access_ok_iff.mpr ⟨inserted, rfl⟩,
              bind_ok_iff.mpr ⟨⟨⟩, _, rfl, finishes⟩⟩⟩⟩⟩

omit apart in
theorem keeps_copyLevels (site : LibrarySite Oid) : ∀ (room here visits : Nat)
    (frontier : List Oid),
    Proc.Keeps (fun after => ∃ rows, after = site.update env.newRepoId (insertObjects rows))
      (copyLevels env repoId room here visits frontier) := by
  intro room
  induction room with
  | zero =>
    intro here visits frontier
    cases frontier with
    | nil => exact keeps_pure _ _
    | cons fsId rest => exact keeps_fail _ _
  | succ room ih =>
    intro here visits frontier
    cases frontier with
    | nil => exact keeps_pure _ _
    | cons fsId rest =>
      rw [copyLevels]
      split
      · exact keeps_fail _ _
      · refine keeps_bind (keeps_access _) fun _ =>
          keeps_bind (keeps_tryRead _ _) fun found =>
            keeps_bind (keeps_access _) fun _ => keeps_bind ?_ fun _ => ih _ _ _
        rintro _ ⟨rows, rfl⟩
        exact ⟨rows ++ found.1, update_insertObjects rows found.1 _⟩

/-- The copy of the objects fails when it cannot be made, and leaves what it copied. -/
theorem copyFsTree_error (isStore : site.storeOf repoId = store)
    (run : copyFsTree env repoId folder site = (.error failure, final)) :
    (∀ levels, ¬ ObjectsCopy env store folder levels) ∧
      ∃ rows, final = site.update env.newRepoId (insertObjects rows) := by
  refine ⟨fun levels copies => ?_, ?_⟩
  · obtain ⟨after, finishes⟩ := copyLevels_of_copies apart isStore copies
    rw [copyFsTree, finishes] at run
    cases run
  · have kept : ∃ rows, (copyFsTree env repoId folder site).2 =
        site.update env.newRepoId (insertObjects rows) :=
      keeps_copyLevels site env.limits.maxDepth 0 0 [folder] site
        ⟨[], (update_insertObjects_nil _).symm⟩
    rwa [run] at kept

theorem copyFsTree_ok (isStore : site.storeOf repoId = store)
    (run : copyFsTree env repoId folder site = (.ok result, final)) :
    ∃ levels, ObjectsCopy env store folder levels ∧
      final = site.update env.newRepoId (insertObjects (copiedRows store [folder] levels)) :=
  copyLevels_ok apart (Nat.zero_le _) isStore run

end Objects

/-! ## The blocks below a folder -/

section Blocks

variable [DecidableEq Oid] [Digests Oid] {env : SubRepoEnv Oid} {site final : LibrarySite Oid}
  {store : FsStore Oid} {repoId : String} {source : Oid → Option (List UInt8)} {folder : Oid}
  {userId : Int} {levels : Nat}

/-- The blocks below the folder can be copied: the walk for them can, the user may store them,
and each is there. -/
structure BlocksCopy (env : SubRepoEnv Oid) (store : FsStore Oid)
    (source : Oid → Option (List UInt8)) (usage : Int) (folder : Oid) (levels : Nat) : Prop where
  walked : ∀ level, newIds store folder level ≠ [] → env.fault (.walkLevel level) = none
  charged : 0 < totalBytes store (idsTo store folder levels) → env.fault .readUsage = none ∧
    checkUploadQuota .wraps env.account (env.cachedUsage.getD usage)
      (totalBytes store (idsTo store folder levels)) = .ok ()
  copied : ∀ fsId ∈ idsTo store folder levels, ∀ id ∈ blocksOf store fsId,
    CopyableBlock env source id

variable {bytes : Int}

section

omit [DecidableEq Oid] [Digests Oid]

theorem checkSubRepoQuota_ok (run : checkSubRepoQuota env userId bytes site = (.ok result, final)) :
    site = final ∧ (0 < bytes → env.fault .readUsage = none ∧ checkUploadQuota .wraps env.account
      (env.cachedUsage.getD (site.committedUsage userId)) bytes = .ok ()) := by
  unfold checkSubRepoQuota at run
  split at run
  · cases run
    exact ⟨rfl, by omega⟩
  · obtain ⟨_, _, reads, run⟩ := bind_ok_iff.mp run
    obtain ⟨noFault, rfl⟩ := access_ok_iff.mp reads
    obtain ⟨within, rfl⟩ := tryRead_ok_iff.mp run
    exact ⟨rfl, fun _ => ⟨noFault, mapError_eq_ok_iff.mp within⟩⟩

theorem checkSubRepoQuota_error
    (run : checkSubRepoQuota env userId bytes site = (.error failure, final)) :
    site = final ∧ 0 < bytes ∧ ¬ (env.fault .readUsage = none ∧ checkUploadQuota .wraps env.account
      (env.cachedUsage.getD (site.committedUsage userId)) bytes = .ok ()) := by
  unfold checkSubRepoQuota at run
  split at run
  · cases run
  · refine ⟨?_, by omega, ?_⟩
    · rcases bind_error_iff.mp run with fails | ⟨_, _, reads, run⟩
      · exact (access_error_iff.mp fails).2
      · obtain ⟨-, rfl⟩ := access_ok_iff.mp reads
        exact (tryRead_error_iff.mp run).2
    · rintro ⟨noFault, within⟩
      rcases bind_error_iff.mp run with fails | ⟨_, _, reads, run⟩
      · obtain ⟨isFault, -⟩ := access_error_iff.mp fails
        rw [noFault] at isFault
        cases isFault
      · obtain ⟨-, rfl⟩ := access_ok_iff.mp reads
        obtain ⟨refused, -⟩ := tryRead_error_iff.mp run
        rw [within] at refused
        cases refused

end

variable [ToString Oid] (apart : repoId ≠ env.newRepoId)
  (copied : BlocksCopied env repoId source site.blocks) (isStore : site.storeOf repoId = store)
  (copies : ObjectsCopy env store folder levels)

include apart copied isStore copies

theorem copySubtreeBlocks_ok
    (run : copySubtreeBlocks env repoId folder userId site = (.ok bytes, final)) :
    MoreBlocks env repoId source site final ∧ (folder ≠ emptySha1 →
      BlocksCopy env store source (site.committedUsage userId) folder levels ∧
        ∀ fsId ∈ idsTo store folder levels, ∀ id ∈ blocksOf store fsId,
          (final.blocks.files (env.newRepoId, id)).isSome = true) := by
  unfold copySubtreeBlocks at run
  split at run
  · rename_i sentinel
    cases run
    exact ⟨.refl copied, fun nonempty => absurd sentinel nonempty⟩
  · rename_i nonempty
    obtain ⟨walk, _, walks, run⟩ := bind_ok_iff.mp run
    obtain ⟨isWalk, rfl⟩ := tryRead_ok_iff.mp walks
    rw [isStore] at isWalk
    obtain ⟨walked, rfl⟩ := collectBlocks_ok copies nonempty isWalk
    obtain ⟨_, _, checks, run⟩ := bind_ok_iff.mp run
    obtain ⟨rfl, charged⟩ := checkSubRepoQuota_ok checks
    obtain ⟨_, _, writes, run⟩ := bind_ok_iff.mp run
    cases run
    obtain ⟨more, there⟩ := copyBlocks_ok apart copied writes
    have each : ∀ fsId ∈ idsTo store folder levels, ∀ id ∈ blocksOf store fsId,
        (final.blocks.files (env.newRepoId, id)).isSome = true := by
      intro fsId met id listed
      refine there id ((env.isOrder _).mem_iff.mpr (List.mem_eraseDups.mpr ?_))
      exact List.mem_flatMap.mpr ⟨fsId, met, listed⟩
    refine ⟨more, fun _ => ⟨⟨walked, charged, fun fsId met id listed => ?_⟩, each⟩⟩
    obtain ⟨data, found⟩ := Option.isSome_iff_exists.mp (each fsId met id listed)
    exact (more.copied.copied id data found).2

theorem copySubtreeBlocks_error
    (run : copySubtreeBlocks env repoId folder userId site = (.error failure, final)) :
    MoreBlocks env repoId source site final ∧ folder ≠ emptySha1 ∧
      ¬ BlocksCopy env store source (site.committedUsage userId) folder levels := by
  unfold copySubtreeBlocks at run
  split at run
  · cases run
  · rename_i nonempty
    rcases bind_error_iff.mp run with fails | ⟨walk, _, walks, run⟩
    · obtain ⟨failed, rfl⟩ := tryRead_error_iff.mp fails
      rw [isStore] at failed
      obtain ⟨level, more, isFault⟩ := collectBlocks_error copies nonempty failed
      refine ⟨.refl copied, nonempty, fun can => ?_⟩
      rw [can.walked level more] at isFault
      cases isFault
    · obtain ⟨isWalk, rfl⟩ := tryRead_ok_iff.mp walks
      rw [isStore] at isWalk
      obtain ⟨-, rfl⟩ := collectBlocks_ok copies nonempty isWalk
      rcases bind_error_iff.mp run with fails | ⟨_, _, checks, run⟩
      · obtain ⟨rfl, positive, refused⟩ := checkSubRepoQuota_error fails
        exact ⟨.refl copied, nonempty, fun can => refused (can.charged positive)⟩
      · obtain ⟨rfl, -⟩ := checkSubRepoQuota_ok checks
        rcases bind_error_iff.mp run with fails | ⟨_, _, -, run⟩
        · obtain ⟨more, id, listed, stuck⟩ := copyBlocks_error apart copied fails
          refine ⟨more, nonempty, fun can => stuck ?_⟩
          have inWalk := List.mem_eraseDups.mp ((env.isOrder _).mem_iff.mp listed)
          obtain ⟨fsId, met, named⟩ := List.mem_flatMap.mp inWalk
          exact can.copied fsId met id named
        · cases run

omit apart copied isStore copies in
theorem copyBlocksOrRollback_ok
    (run : copyBlocksOrRollback env repoId folder userId site = (.ok bytes, final)) :
    copySubtreeBlocks env repoId folder userId site = (.ok bytes, final) := by
  obtain ⟨outcome, _, attempts, run⟩ := bind_ok_iff.mp run
  have isOutcome := attempt_ok_iff.mp attempts
  cases outcome with
  | ok copiedBytes =>
    cases run
    exact isOutcome
  | error cause => cases run

end Blocks

end Nanofile
