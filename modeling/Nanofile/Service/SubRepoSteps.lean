import Nanofile.Service.SubRepo

/-!
# The steps of a folder-to-library copy

What each step of `create_sub_repo` leaves of the libraries when it ends and when it fails.  The
new library's id is one that nothing of the server has.
-/

set_option autoImplicit false

namespace Nanofile

open LibrarySite

open Nanofile.Lib Nanofile.Lib.Proc

variable {Oid : Type}

/-! ## Changes of one library -/

namespace LibrarySite

variable {site : LibrarySite Oid} {repoId other : String} {change : Repo Oid → Repo Oid}

theorem find_cons (first : LibraryRecord Oid) (rest : List (LibraryRecord Oid))
    (members : List MemberRow) (blocks : BlockStorage (String × Oid)) :
    (LibrarySite.mk (first :: rest) members blocks).find repoId =
      if first.repo.id = repoId then some first
      else (LibrarySite.mk rest members blocks).find repoId := by
  unfold find
  rw [List.find?_cons]
  by_cases here : first.repo.id = repoId
  · simp [here]
  · simp [here]

section

variable (keeps : ∀ repo, (change repo).id = repo.id)
include keeps

theorem find_update :
    (site.update repoId change).find other =
      (site.find other).map fun library =>
        if other = repoId then { library with repo := change library.repo } else library := by
  obtain ⟨libraries, members, blocks⟩ := site
  induction libraries with
  | nil => rfl
  | cons first rest ih =>
    rw [find_cons]
    unfold update at ih ⊢
    rw [List.map_cons, find_cons, ih]
    by_cases here : first.repo.id = other
    · subst here
      by_cases isHere : first.repo.id = repoId
      · simp [isHere, keeps]
      · simp [isHere]
    · by_cases isHere : first.repo.id = repoId
      · simp [isHere, keeps, (isHere ▸ here : ¬ repoId = other)]
      · simp [isHere, here]

theorem find_update_self :
    (site.update repoId change).find repoId =
      (site.find repoId).map fun library => { library with repo := change library.repo } := by
  rw [find_update keeps]
  simp

theorem find_update_of_ne (apart : other ≠ repoId) :
    (site.update repoId change).find other = site.find other := by
  rw [find_update keeps]
  simp [apart]

theorem update_update (change' : Repo Oid → Repo Oid) :
    (site.update repoId change).update repoId change' =
      site.update repoId fun repo => change' (change repo) := by
  unfold update
  simp only [List.map_map, LibrarySite.mk.injEq, and_true]
  refine List.map_congr_left fun library _ => ?_
  by_cases here : library.repo.id = repoId
  · simp [here, keeps]
  · simp [here]

theorem filter_update :
    (site.update repoId change).libraries.filter (fun library => library.repo.id ≠ repoId) =
      site.libraries.filter fun library => library.repo.id ≠ repoId := by
  obtain ⟨libraries, members, blocks⟩ := site
  unfold update
  simp only
  induction libraries with
  | nil => rfl
  | cons first rest ih =>
    rw [List.map_cons, List.filter_cons, List.filter_cons, ih]
    by_cases here : first.repo.id = repoId
    · simp [here, keeps]
    · simp [here]

end

theorem committedUsage_update (sizes : ∀ repo, (change repo).size = repo.size) (userId : Int) :
    (site.update repoId change).committedUsage userId = site.committedUsage userId := by
  obtain ⟨libraries, members, blocks⟩ := site
  unfold committedUsage update
  simp only
  congr 1
  induction libraries with
  | nil => rfl
  | cons first rest ih =>
    rw [List.map_cons, List.filter_cons, List.filter_cons]
    by_cases here : first.repo.id = repoId
    · by_cases owned : first.ownerId = userId
      · simpa [here, owned, sizes] using ih
      · simpa [here, owned] using ih
    · by_cases owned : first.ownerId = userId
      · simpa [here, owned] using ih
      · simpa [here, owned] using ih

theorem storeOf_of_find {library : LibraryRecord Oid} (found : site.find repoId = some library) :
    site.storeOf repoId = library.repo.fsObjects := by
  rw [storeOf, found]
  rfl

end LibrarySite

structure FreshId (env : SubRepoEnv Oid) (site : LibrarySite Oid) : Prop where
  library : site.find env.newRepoId = none
  member : ∀ member ∈ site.members, member.repoId ≠ env.newRepoId
  file : ∀ id, site.blocks.files (env.newRepoId, id) = none
  cached : ∀ id, site.blocks.existsCache (env.newRepoId, id) = none

/-! ## The rows -/

variable {result : Unit}

section Rows

variable {env : SubRepoEnv Oid} {site final : LibrarySite Oid} {name : String} {userId : Int}
  {failure : AppError}

theorem access_ok_iff {step : SubRepoStep Oid} :
    env.access step site = (.ok result, final) ↔ env.fault step = none ∧ site = final := by
  unfold SubRepoEnv.access
  rw [tryRead_ok_iff]
  cases env.fault step <;> simp

theorem access_error_iff {step : SubRepoStep Oid} :
    env.access step site = (.error failure, final) ↔
      env.fault step = some failure ∧ site = final := by
  unfold SubRepoEnv.access
  rw [tryRead_error_iff]
  cases env.fault step <;> simp

theorem keeps_access {P : LibrarySite Oid → Prop} (step : SubRepoStep Oid) :
    Proc.Keeps P (env.access step) :=
  keeps_tryRead P _

def SubRepoEnv.newLibrary (env : SubRepoEnv Oid) (name : String) (userId : Int) :
    LibraryRecord Oid where
  name := name
  description := ""
  ownerId := userId
  keys := .plain
  permission := "rw"
  createdAt := env.now
  type := "repo"
  repo := ⟨env.newRepoId, none, 0, 0, 0, .empty, .empty, .empty⟩

def LibrarySite.addLibrary (site : LibrarySite Oid) (library : LibraryRecord Oid) :
    LibrarySite Oid :=
  { site with libraries := site.libraries ++ [library] }

def LibrarySite.addMember (site : LibrarySite Oid) (env : SubRepoEnv Oid) (userId : Int) :
    LibrarySite Oid :=
  { site with members := site.members ++ [newMember site.members env.newRepoId userId env.now] }

variable {repoId : String}

theorem LibrarySite.find_addLibrary {library : LibraryRecord Oid} :
    (site.addLibrary library).find repoId =
      (site.find repoId).or (if library.repo.id = repoId then some library else none) := by
  unfold LibrarySite.find LibrarySite.addLibrary
  rw [List.find?_append, List.find?_singleton]
  simp

theorem LibrarySite.committedUsage_addLibrary {library : LibraryRecord Oid}
    (empty : library.repo.size = 0) (userId : Int) :
    (site.addLibrary library).committedUsage userId = site.committedUsage userId := by
  unfold LibrarySite.committedUsage LibrarySite.addLibrary
  simp only [List.filter_append, List.map_append, List.sum_append]
  by_cases owned : library.ownerId = userId
  · simp [owned, empty]
  · simp [owned]

theorem createSubRow_ok (run : createSubRow env name userId site = (.ok result, final)) :
    env.fault .insertRepo = none ∧ env.fault .readRepo = none ∧
      site.find env.newRepoId = none ∧ final = site.addLibrary (env.newLibrary name userId) := by
  obtain ⟨_, _, inserts, run⟩ := bind_ok_iff.mp run
  obtain ⟨noFault, rfl⟩ := access_ok_iff.mp inserts
  obtain ⟨_, _, checks, run⟩ := bind_ok_iff.mp run
  obtain ⟨unique, rfl⟩ := tryRead_ok_iff.mp checks
  obtain ⟨_, _, writes, run⟩ := bind_ok_iff.mp run
  cases writes
  obtain ⟨noReadFault, rfl⟩ := access_ok_iff.mp run
  exact ⟨noFault, noReadFault, by simpa using ensure_eq_ok_iff.mp unique, rfl⟩

theorem createSubRow_error (fresh : site.find env.newRepoId = none)
    (run : createSubRow env name userId site = (.error failure, final)) :
    env.fault .insertRepo = some failure ∧ final = site ∨
      env.fault .insertRepo = none ∧ env.fault .readRepo = some failure ∧
        final = site.addLibrary (env.newLibrary name userId) := by
  rcases bind_error_iff.mp run with fails | ⟨_, _, inserts, run⟩
  · obtain ⟨isFault, rfl⟩ := access_error_iff.mp fails
    exact Or.inl ⟨isFault, rfl⟩
  · obtain ⟨noFault, rfl⟩ := access_ok_iff.mp inserts
    rcases bind_error_iff.mp run with fails | ⟨_, _, checks, run⟩
    · obtain ⟨taken, -⟩ := tryRead_error_iff.mp fails
      rw [fresh] at taken
      cases taken
    · obtain ⟨-, rfl⟩ := tryRead_ok_iff.mp checks
      rcases bind_error_iff.mp run with fails | ⟨_, _, writes, run⟩
      · cases fails
      · cases writes
        obtain ⟨isFault, rfl⟩ := access_error_iff.mp run
        exact Or.inr ⟨noFault, isFault, rfl⟩

theorem createSubMember_ok (run : createSubMember env userId site = (.ok result, final)) :
    env.fault .insertMember = none ∧
      final = site.addMember env userId := by
  obtain ⟨_, _, inserts, run⟩ := bind_ok_iff.mp run
  obtain ⟨noFault, rfl⟩ := access_ok_iff.mp inserts
  cases run
  exact ⟨noFault, rfl⟩

theorem createSubMember_error
    (run : createSubMember env userId site = (.error failure, final)) :
    env.fault .insertMember = some failure ∧ final = site := by
  rcases bind_error_iff.mp run with fails | ⟨_, _, -, run⟩
  · obtain ⟨isFault, rfl⟩ := access_error_iff.mp fails
    exact ⟨isFault, rfl⟩
  · cases run

def LibrarySite.started (site : LibrarySite Oid) (env : SubRepoEnv Oid) (name : String)
    (userId : Int) : LibrarySite Oid :=
  (site.addLibrary (env.newLibrary name userId)).addMember env userId

theorem FreshId.find_added (fresh : FreshId env site) :
    (site.addLibrary (env.newLibrary name userId)).find env.newRepoId =
      some (env.newLibrary name userId) := by
  rw [find_addLibrary, fresh.library]
  simp [SubRepoEnv.newLibrary]

theorem FreshId.started_isSome (fresh : FreshId env site) :
    ((site.started env name userId).find env.newRepoId).isSome = true := by
  have added : (site.started env name userId).find env.newRepoId =
    some (env.newLibrary name userId) := fresh.find_added
  rw [added]
  rfl

theorem find_added_of_ne (apart : repoId ≠ env.newRepoId) :
    (site.addLibrary (env.newLibrary name userId)).find repoId = site.find repoId := by
  rw [find_addLibrary, if_neg fun same => apart same.symm, Option.or_none]

theorem storeOf_started (apart : repoId ≠ env.newRepoId) :
    (site.started env name userId).storeOf repoId = site.storeOf repoId := by
  have same : (site.started env name userId).find repoId = site.find repoId :=
    find_added_of_ne apart
  rw [LibrarySite.storeOf, same]
  rfl

end Rows

/-! ## The blocks -/

section Blocks

variable [DecidableEq Oid] [ToString Oid] {env : SubRepoEnv Oid} {site final : LibrarySite Oid}
  {repoId : String} {source : Oid → Option (List UInt8)} {id : Oid} {failure : AppError}

structure CopyableBlock (env : SubRepoEnv Oid) (source : Oid → Option (List UInt8)) (id : Oid) :
    Prop where
  stored : (source id).isSome = true
  read : env.fault (.readBlock id) = none
  written : env.fault (.writeBlock id) = none

structure BlocksCopied (env : SubRepoEnv Oid) (repoId : String)
    (source : Oid → Option (List UInt8)) (blocks : BlockStorage (String × Oid)) : Prop where
  original : ∀ id, blocks.files (repoId, id) = source id
  cached : ∀ id, (blocks.existsCache (env.newRepoId, id)).isSome = true →
    (blocks.files (env.newRepoId, id)).isSome = true
  copied : ∀ id data, blocks.files (env.newRepoId, id) = some data →
    source id = some data ∧ CopyableBlock env source id

omit [DecidableEq Oid] [ToString Oid] in
theorem FreshId.blocksCopied (fresh : FreshId env site) :
    BlocksCopied env repoId (fun id => site.blocks.files (repoId, id)) site.blocks := by
  refine ⟨fun _ => rfl, fun id cached => ?_, fun id data found => ?_⟩
  · rw [fresh.cached id] at cached
    cases cached
  · rw [fresh.file id] at found
    cases found

variable {blocks : BlockStorage (String × Oid)}

omit [ToString Oid] in
theorem BlocksCopied.hasBlock
    (copied : BlocksCopied env repoId source blocks) (id : Oid) :
    BlocksCopied env repoId source (blocks.hasBlock (env.newRepoId, id)).2 ∧
      (blocks.hasBlock (env.newRepoId, id)).2.files = blocks.files ∧
      ((blocks.hasBlock (env.newRepoId, id)).1 = true ↔
        (blocks.files (env.newRepoId, id)).isSome = true) := by
  unfold BlockStorage.hasBlock
  split
  · rename_i cached
    exact ⟨copied, rfl, by simp [copied.cached id cached]⟩
  · cases found : blocks.files (env.newRepoId, id) with
    | none => exact ⟨copied, rfl, by simp⟩
    | some stored =>
      refine ⟨⟨copied.original, ?_, copied.copied⟩, rfl, by simp⟩
      intro other cached
      by_cases same : other = id
      · subst same
        show (blocks.files (env.newRepoId, other)).isSome = true
        rw [found]
        rfl
      · refine copied.cached other ?_
        simpa [BlockStorage.existsCacheInsert, same] using cached

omit [ToString Oid] in
theorem BlocksCopied.writeBlock (apart : repoId ≠ env.newRepoId)
    {data : List UInt8}
    (copied : BlocksCopied env repoId source blocks)
    (absent : blocks.files (env.newRepoId, id) = none) (read : source id = some data)
    (copyable : CopyableBlock env source id) :
    BlocksCopied env repoId source (blocks.writeBlockWithId (env.newRepoId, id) data) ∧
      (blocks.writeBlockWithId (env.newRepoId, id) data).files =
        Function.update blocks.files (env.newRepoId, id) (some data) := by
  have uncached : blocks.existsCache (env.newRepoId, id) = none := by
    cases isCached : blocks.existsCache (env.newRepoId, id) with
    | none => rfl
    | some length =>
      have there := copied.cached id (by rw [isCached]; rfl)
      rw [absent] at there
      cases there
  have written : blocks.writeBlockWithId (env.newRepoId, id) data =
      (blocks.putFile (env.newRepoId, id) data).existsCacheInsert (env.newRepoId, id)
        data.length := by
    simp [BlockStorage.writeBlockWithId, BlockStorage.storeBlock, uncached, absent]
  rw [written]
  refine ⟨⟨fun other => ?_, fun other cached => ?_, fun other stored found => ?_⟩, rfl⟩
  · rw [← copied.original other]
    exact Function.update_of_ne (fun same => apart (congrArg Prod.fst same)) _ _
  · by_cases same : other = id
    · subst same
      simp [BlockStorage.existsCacheInsert, BlockStorage.putFile]
    · have before := copied.cached other
      simpa [BlockStorage.existsCacheInsert, BlockStorage.putFile, same] using
        before (by simpa [BlockStorage.existsCacheInsert, BlockStorage.putFile, same] using cached)
  · by_cases same : other = id
    · subst same
      have isData : data = stored := by
        simpa [BlockStorage.existsCacheInsert, BlockStorage.putFile] using found
      exact ⟨isData ▸ read, copyable⟩
    · exact copied.copied other stored
        (by simpa [BlockStorage.existsCacheInsert, BlockStorage.putFile, same] using found)

structure MoreBlocks (env : SubRepoEnv Oid) (repoId : String)
    (source : Oid → Option (List UInt8)) (site final : LibrarySite Oid) : Prop where
  rows : final = { site with blocks := final.blocks }
  copied : BlocksCopied env repoId source final.blocks
  kept : ∀ id, (site.blocks.files (env.newRepoId, id)).isSome = true →
    (final.blocks.files (env.newRepoId, id)).isSome = true

section

omit [DecidableEq Oid] [ToString Oid]

theorem MoreBlocks.refl (copied : BlocksCopied env repoId source site.blocks) :
    MoreBlocks env repoId source site site :=
  ⟨rfl, copied, fun _ stored => stored⟩

theorem MoreBlocks.trans {middle : LibrarySite Oid}
    (first : MoreBlocks env repoId source site middle)
    (second : MoreBlocks env repoId source middle final) :
    MoreBlocks env repoId source site final := by
  refine ⟨?_, second.copied, fun id stored => second.kept id (first.kept id stored)⟩
  rw [second.rows, first.rows]

end

variable (apart : repoId ≠ env.newRepoId)

include apart

theorem copyBlock_ok (copied : BlocksCopied env repoId source site.blocks)
    (run : copyBlock env repoId id site = (.ok result, final)) :
    MoreBlocks env repoId source site final ∧
      (final.blocks.files (env.newRepoId, id)).isSome = true := by
  obtain ⟨asked, sameFiles, isPresent⟩ := copied.hasBlock id
  obtain ⟨present, _, asks, run⟩ := bind_ok_iff.mp run
  cases asks
  split at run
  · rename_i there
    cases run
    refine ⟨⟨rfl, asked, fun other stored => ?_⟩, ?_⟩
    · rw [sameFiles]
      exact stored
    · rw [sameFiles]
      exact isPresent.mp there
  · rename_i missing
    have absent : (site.blocks.hasBlock (env.newRepoId, id)).2.files (env.newRepoId, id) = none := by
      rw [sameFiles]
      simpa using fun there => missing (isPresent.mpr there)
    obtain ⟨_, _, reads, run⟩ := bind_ok_iff.mp run
    obtain ⟨noReadFault, rfl⟩ := access_ok_iff.mp reads
    obtain ⟨data, _, gets, run⟩ := bind_ok_iff.mp run
    obtain ⟨isData, rfl⟩ := tryRead_ok_iff.mp gets
    obtain ⟨_, _, writes, run⟩ := bind_ok_iff.mp run
    obtain ⟨noWriteFault, rfl⟩ := access_ok_iff.mp writes
    cases run
    have isSource : source id = some data :=
      (asked.original id).symm.trans (okOr_eq_ok_iff.mp isData)
    obtain ⟨written, isFiles⟩ := asked.writeBlock apart absent isSource
      ⟨by rw [isSource]; rfl, noReadFault, noWriteFault⟩
    refine ⟨⟨rfl, written, fun other stored => ?_⟩, ?_⟩
    · rw [isFiles, sameFiles]
      by_cases same : other = id
      · subst same
        rw [Function.update_self]
        rfl
      · rw [Function.update_of_ne (by simpa using same)]
        exact stored
    · rw [isFiles, Function.update_self]
      rfl

omit apart in
theorem copyBlock_error (copied : BlocksCopied env repoId source site.blocks)
    (run : copyBlock env repoId id site = (.error failure, final)) :
    MoreBlocks env repoId source site final ∧ ¬ CopyableBlock env source id := by
  obtain ⟨asked, sameFiles, -⟩ := copied.hasBlock id
  rcases bind_error_iff.mp run with fails | ⟨present, _, asks, run⟩
  · cases fails
  · cases asks
    have more : MoreBlocks env repoId source site
        { site with blocks := (site.blocks.hasBlock (env.newRepoId, id)).2 } := by
      refine ⟨rfl, asked, fun other stored => ?_⟩
      rw [sameFiles]
      exact stored
    split at run
    · cases run
    · rcases bind_error_iff.mp run with fails | ⟨_, _, reads, run⟩
      · obtain ⟨isFault, rfl⟩ := access_error_iff.mp fails
        refine ⟨more, fun copyable => ?_⟩
        rw [copyable.read] at isFault
        cases isFault
      · obtain ⟨-, rfl⟩ := access_ok_iff.mp reads
        rcases bind_error_iff.mp run with fails | ⟨data, _, gets, run⟩
        · obtain ⟨isMissing, rfl⟩ := tryRead_error_iff.mp fails
          refine ⟨more, fun copyable => ?_⟩
          obtain ⟨data, isData⟩ := Option.isSome_iff_exists.mp copyable.stored
          rw [BlockStorage.readBlock, asked.original id, isData] at isMissing
          cases isMissing
        · obtain ⟨-, rfl⟩ := tryRead_ok_iff.mp gets
          rcases bind_error_iff.mp run with fails | ⟨_, _, -, run⟩
          · obtain ⟨isFault, rfl⟩ := access_error_iff.mp fails
            refine ⟨more, fun copyable => ?_⟩
            rw [copyable.written] at isFault
            cases isFault
          · cases run

theorem copyBlocks_ok : ∀ {ids : List Oid} {site : LibrarySite Oid},
    BlocksCopied env repoId source site.blocks →
    copyBlocks env repoId ids site = (.ok result, final) →
    MoreBlocks env repoId source site final ∧
      ∀ id ∈ ids, (final.blocks.files (env.newRepoId, id)).isSome = true := by
  intro ids
  induction ids with
  | nil =>
    intro site copied run
    cases run
    exact ⟨.refl copied, by simp⟩
  | cons id rest ih =>
    intro site copied run
    obtain ⟨_, middle, first, others⟩ := bind_ok_iff.mp run
    obtain ⟨more, there⟩ := copyBlock_ok apart copied first
    obtain ⟨moreRest, thereRest⟩ := ih more.copied others
    refine ⟨more.trans moreRest, fun other listed => ?_⟩
    rcases List.mem_cons.mp listed with rfl | later
    · exact moreRest.kept other there
    · exact thereRest other later

theorem copyBlocks_error : ∀ {ids : List Oid} {site : LibrarySite Oid},
    BlocksCopied env repoId source site.blocks →
    copyBlocks env repoId ids site = (.error failure, final) →
    MoreBlocks env repoId source site final ∧ ∃ id ∈ ids, ¬ CopyableBlock env source id := by
  intro ids
  induction ids with
  | nil =>
    intro site copied run
    cases run
  | cons id rest ih =>
    intro site copied run
    rcases bind_error_iff.mp run with fails | ⟨_, middle, first, others⟩
    · obtain ⟨more, stuck⟩ := copyBlock_error copied fails
      exact ⟨more, id, List.mem_cons_self, stuck⟩
    · obtain ⟨more, -⟩ := copyBlock_ok apart copied first
      obtain ⟨moreRest, other, listed, stuck⟩ := ih more.copied others
      exact ⟨more.trans moreRest, other, List.mem_cons_of_mem _ listed, stuck⟩

end Blocks

/-! ## The commit and the size -/

section Commits

variable [DecidableEq Oid] [Digests Oid] {env : SubRepoEnv Oid}
  {site final : LibrarySite Oid} {library : LibraryRecord Oid} {folder : Oid} {email : String}

/-- Only the repository of the new library may differ. -/
def ChangesNew (env : SubRepoEnv Oid) (site final : LibrarySite Oid) : Prop :=
  ∃ change : Repo Oid → Repo Oid, (∀ repo, (change repo).id = repo.id) ∧
    final = site.update env.newRepoId change

section

omit [DecidableEq Oid] [Digests Oid]

theorem ChangesNew.refl (site : LibrarySite Oid) : ChangesNew env site site := by
  refine ⟨fun repo => repo, fun _ => rfl, ?_⟩
  simp [LibrarySite.update]

theorem ChangesNew.update {change : Repo Oid → Repo Oid} (changes : ChangesNew env site final)
    (keeps : ∀ repo, (change repo).id = repo.id) :
    ChangesNew env site (final.update env.newRepoId change) := by
  obtain ⟨earlier, keepsEarlier, rfl⟩ := changes
  exact ⟨_, fun repo => (keeps _).trans (keepsEarlier repo),
    update_update keepsEarlier change⟩

theorem ChangesNew.find_isSome (changes : ChangesNew env site final)
    (found : (site.find env.newRepoId).isSome = true) :
    (final.find env.newRepoId).isSome = true := by
  obtain ⟨change, keeps, rfl⟩ := changes
  rw [find_update_self keeps, Option.isSome_map]
  exact found

end

omit [Digests Oid] in
theorem testAndUpdateHeadCommit_id (repo : Repo Oid) (expected : Option Oid) (target : Oid) :
    (testAndUpdateHeadCommit repo expected target).2.id = repo.id := by
  unfold testAndUpdateHeadCommit
  split
  · rfl
  · rfl

theorem createSubCommit_ok (found : site.find env.newRepoId = some library)
    (headless : library.repo.headCommitId = none)
    (run : createSubCommit env folder email site = (.ok result, final)) :
    ∃ change : Repo Oid → Repo Oid, (∀ repo, (change repo).id = repo.id) ∧
      final = site.update env.newRepoId change ∧
      (change library.repo).fsObjects = library.repo.fsObjects ∧
      headRootId (change library.repo) = .ok folder := by
  obtain ⟨_, _, reads, run⟩ := bind_ok_iff.mp run
  obtain ⟨-, rfl⟩ := access_ok_iff.mp reads
  obtain ⟨row, _, gets, run⟩ := bind_ok_iff.mp run
  obtain ⟨isRow, rfl⟩ := tryRead_ok_iff.mp gets
  rw [found] at isRow
  cases isRow
  rw [if_neg (by simp [headless])] at run
  obtain ⟨_, _, inserts, run⟩ := bind_ok_iff.mp run
  obtain ⟨-, rfl⟩ := access_ok_iff.mp inserts
  obtain ⟨commits, _, adds, run⟩ := bind_ok_iff.mp run
  obtain ⟨inserted, rfl⟩ := tryRead_ok_iff.mp adds
  obtain ⟨_, _, writes, run⟩ := bind_ok_iff.mp run
  cases writes
  obtain ⟨_, _, moves, run⟩ := bind_ok_iff.mp run
  obtain ⟨-, rfl⟩ := access_ok_iff.mp moves
  cases run
  have keeps : ∀ repo : Repo Oid, ({ repo with commits := commits } : Repo Oid).id = repo.id :=
    fun _ => rfl
  refine ⟨_, fun repo => (testAndUpdateHeadCommit_id _ _ _).trans (keeps repo),
    update_update keeps _, ?_, ?_⟩
  · simp [testAndUpdateHeadCommit, webCommit, headless]
  · have isCommit := (CommitTable.find_insertCommit (okOr_eq_ok_iff.mp inserted)
      (webCommit library.repo folder email "Created sub-repo" env.commitTime).commitId).trans
        (if_pos rfl)
    have moved : testAndUpdateHeadCommit { library.repo with commits := commits }
        (webCommit library.repo folder email "Created sub-repo" env.commitTime).parentId
        (webCommit library.repo folder email "Created sub-repo" env.commitTime).commitId =
          (true, { library.repo with
            commits := commits
            headCommitId := some
              (webCommit library.repo folder email "Created sub-repo" env.commitTime).commitId }) :=
      if_pos rfl
    rw [moved, headRootId, headRootIdOpt]
    dsimp only
    rw [isCommit]
    rfl

theorem keeps_createSubCommit (site : LibrarySite Oid) :
    Proc.Keeps (ChangesNew env site) (createSubCommit env folder email) := by
  refine keeps_bind (keeps_access _) fun _ =>
    keeps_bind (keeps_tryRead _ _) fun row => ?_
  split
  · exact keeps_pure _ _
  · refine keeps_bind (keeps_access _) fun _ => keeps_bind (keeps_tryRead _ _)
      fun commits => keeps_bind ?_ fun _ => keeps_bind (keeps_access _) fun _ => ?_
    · intro state changes
      have keeps : ∀ repo : Repo Oid, ({ repo with commits := commits } : Repo Oid).id = repo.id :=
        fun _ => rfl
      exact changes.update keeps
    · exact fun state changes => changes.update fun repo => testAndUpdateHeadCommit_id _ _ _

theorem recordSubSize_ok {copiedBytes : Int}
    (run : recordSubSize env copiedBytes site = (.ok result, final)) :
    ∃ change : Repo Oid → Repo Oid, (∀ repo, (change repo).id = repo.id) ∧
      final = site.update env.newRepoId change ∧
      (∀ repo, (change repo).fsObjects = repo.fsObjects) ∧
      ∀ repo, headRootId (change repo) = headRootId repo := by
  cases run
  split
  · exact ⟨fun repo => repo, fun _ => rfl, by simp [LibrarySite.update], fun _ => rfl,
      fun _ => rfl⟩
  · have sized : ∀ repo : Repo Oid, ∃ size, (adjustRepoSize env.limits copiedBytes
        ⟨repo, [], fun _ => env.commitTime⟩).2.repo = { repo with size } := by
      intro repo
      unfold adjustRepoSize adjustSize
      dsimp only
      split
      · split
        · exact ⟨repo.size, rfl⟩
        · exact ⟨_, rfl⟩
      · exact ⟨_, rfl⟩
    refine ⟨_, fun repo => ?_, rfl, fun repo => ?_, fun repo => ?_⟩
    · obtain ⟨size, same⟩ := sized repo
      rw [same]
    · obtain ⟨size, same⟩ := sized repo
      rw [same]
    · obtain ⟨size, same⟩ := sized repo
      rw [same]
      rfl

end Commits

end Nanofile
