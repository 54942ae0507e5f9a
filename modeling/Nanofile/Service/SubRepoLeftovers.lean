import Nanofile.Service.RestEdit
import Nanofile.Service.SubRepoWalks

/-!
# What a failed folder-to-library copy leaves

The row and the member of the new library come first, and only the copy of the blocks is rolled
back.  A failure before the row or in that copy leaves nothing; any other leaves the library.
-/

set_option autoImplicit false

namespace Nanofile

open Nanofile.Lib

variable {Oid : Type} {env : SubRepoEnv Oid} {site final : LibrarySite Oid} {name : String}
  {userId : Int}

/-- The new library has no row and no member, and its owner's usage is what it was.  Its commits
and its objects go with the row. -/
structure LeavesNothing (env : SubRepoEnv Oid) (userId : Int) (site final : LibrarySite Oid) :
    Prop where
  library : final.find env.newRepoId = none
  members : ∀ member ∈ final.members, member.repoId ≠ env.newRepoId
  usage : final.committedUsage userId = site.committedUsage userId

theorem FreshId.leavesNothing (fresh : FreshId env site) : LeavesNothing env userId site site :=
  ⟨fresh.library, fresh.member, rfl⟩

theorem LeavesNothing.not_isSome (leaves : LeavesNothing env userId site final)
    (found : (final.find env.newRepoId).isSome = true) : False := by
  rw [leaves.library] at found
  cases found

def rolledBack (env : SubRepoEnv Oid) (site : LibrarySite Oid) : LibrarySite Oid :=
  let site := if (env.fault .deleteMembers).isSome then site else site.deleteMembers env.newRepoId
  if (env.fault .deleteRepo).isSome then site else site.deleteRepo env.newRepoId

theorem find_rolledBack (isFault : (env.fault .deleteRepo).isSome = true) :
    (rolledBack env site).find env.newRepoId = site.find env.newRepoId := by
  unfold rolledBack
  rw [if_pos isFault]
  split
  · rfl
  · rfl

theorem rolledBack_leavesNothing (fresh : FreshId env site) (noFault : env.fault .deleteRepo = none)
    {before : LibrarySite Oid} (changes : ChangesNew env (site.started env name userId) before)
    {blocks : BlockStorage (String × Oid)} :
    LeavesNothing env userId site (rolledBack env { before with blocks }) := by
  obtain ⟨change, keeps, rfl⟩ := changes
  have others : ∀ library ∈ site.libraries, library.repo.id ≠ env.newRepoId := by
    intro library listed same
    have absent := List.find?_eq_none.mp fresh.library library listed
    simp [same] at absent
  have kept : ((site.started env name userId).update env.newRepoId change).libraries.filter
      (fun library => library.repo.id ≠ env.newRepoId) = site.libraries := by
    rw [LibrarySite.filter_update keeps]
    simp only [LibrarySite.started, LibrarySite.addMember, LibrarySite.addLibrary,
      List.filter_append]
    rw [List.filter_eq_self.mpr (by simpa using others)]
    simp [SubRepoEnv.newLibrary]
  -- Only the row of the new library goes.
  have libraries : (rolledBack env { (site.started env name userId).update env.newRepoId change
      with blocks }).libraries = site.libraries := by
    unfold rolledBack
    rw [noFault]
    split
    · exact kept
    · exact kept
  refine ⟨?_, ?_, ?_⟩
  · rw [LibrarySite.find, libraries]
    exact fresh.library
  · intro member listed
    unfold rolledBack at listed
    rw [noFault] at listed
    simpa using (List.mem_filter.mp listed).2
  · rw [LibrarySite.committedUsage, libraries]
    rfl

variable [DecidableEq Oid] [Digests Oid] [ToString Oid] {repoId path email : String}
  {failure : AppError} {folder : Oid}

/-- The blocks below the folder cannot be copied, and everything else before them and the
deletion of the row can. -/
structure StopsAtBlocks (env : SubRepoEnv Oid) (site : LibrarySite Oid) (repoId : String)
    (userId : Int) (folder : Oid) (levels : Nat) : Prop where
  row : env.fault .readRepo = none
  member : env.fault .insertMember = none
  objects : ObjectsCopy env (site.storeOf repoId) folder levels
  nonempty : folder ≠ emptySha1
  blocks : ¬ BlocksCopy env (site.storeOf repoId) (fun id => site.blocks.files (repoId, id))
    (site.committedUsage userId) folder levels
  deletes : env.fault .deleteRepo = none

/-- There is no such folder, or the row cannot be inserted, or only the blocks cannot be
copied. -/
def StopsClean (env : SubRepoEnv Oid) (site : LibrarySite Oid) (repoId path : String)
    (userId : Int) : Prop :=
  (∃ cause, findFolder site repoId path = .error cause) ∨
    (env.fault .insertRepo).isSome = true ∨
    ∃ folder levels, findFolder site repoId path = .ok folder ∧
      StopsAtBlocks env site repoId userId folder levels

theorem StopsClean.atBlocks (isFolder : findFolder site repoId path = .ok folder)
    (noFault : env.fault .insertRepo = none) : StopsClean env site repoId path userId ↔
      ∃ levels, StopsAtBlocks env site repoId userId folder levels := by
  constructor
  · rintro (⟨cause, missing⟩ | isFault | ⟨other, levels, isOther, stops⟩)
    · rw [isFolder] at missing
      cases missing
    · rw [noFault] at isFault
      cases isFault
    · rw [isFolder] at isOther
      cases isOther
      exact ⟨levels, stops⟩
  · rintro ⟨levels, stops⟩
    exact Or.inr (Or.inr ⟨folder, levels, isFolder, stops⟩)

theorem copyBlocksOrRollback_error
    (run : copyBlocksOrRollback env repoId folder userId site = (.error failure, final)) :
    ∃ before, copySubtreeBlocks env repoId folder userId site = (.error failure, before) ∧
      final = rolledBack env before := by
  rcases Proc.bind_error_iff.mp run with fails | ⟨outcome, before, attempts, run⟩
  · cases fails
  · have isOutcome := Proc.attempt_ok_iff.mp attempts
    cases outcome with
    | ok copiedBytes => cases run
    | error cause =>
      cases run
      exact ⟨before, isOutcome, rfl⟩

theorem findFolder_apart (fresh : FreshId env site)
    (isFolder : findFolder site repoId path = .ok folder) : repoId ≠ env.newRepoId := by
  rintro rfl
  obtain ⟨library, isLibrary, -⟩ := except_bind_ok_iff.mp isFolder
  rw [fresh.library] at isLibrary
  cases isLibrary

section Copied

variable {rows : List (Oid × FsObject Oid)} {before : LibrarySite Oid}

theorem copiedBlocks_error_iff (fresh : FreshId env site) (apart : repoId ≠ env.newRepoId)
    (noReadFault : env.fault .readRepo = none) (noMemberFault : env.fault .insertMember = none)
    {levels : Nat} (copies : ObjectsCopy env (site.storeOf repoId) folder levels)
    (run : copyBlocksOrRollback env repoId folder userId
      (copiedObjects env site name userId rows) = (.error failure, final)) :
    LeavesNothing env userId site final ↔
      ∃ levels, StopsAtBlocks env site repoId userId folder levels := by
  obtain ⟨before, stopped, rfl⟩ := copyBlocksOrRollback_error run
  have isCopied : BlocksCopied env repoId (fun id => site.blocks.files (repoId, id))
    (copiedObjects env site name userId rows).blocks := fresh.blocksCopied
  obtain ⟨more, nonempty, stuck⟩ :=
    copySubtreeBlocks_error apart isCopied (storeOf_copiedObjects apart) copies stopped
  rw [committedUsage_copiedObjects] at stuck
  rw [more.rows]
  cases deletes : env.fault .deleteRepo with
  | none =>
    exact ⟨fun _ => ⟨levels, noReadFault, noMemberFault, copies, nonempty, stuck, deletes⟩,
      fun _ => rolledBack_leavesNothing fresh deletes (changesNew_copiedObjects rows)⟩
  | some cause =>
    refine ⟨fun leaves => (leaves.not_isSome ?_).elim, ?_⟩
    · rw [find_rolledBack (by rw [deletes]; rfl)]
      exact (changesNew_copiedObjects rows).find_isSome fresh.started_isSome
    · rintro ⟨_, stops⟩
      rw [stops.deletes] at deletes
      cases deletes

theorem copiedCommit_error (fresh : FreshId env site) (apart : repoId ≠ env.newRepoId)
    {levels : Nat} (copies : ObjectsCopy env (site.storeOf repoId) folder levels)
    {middle : LibrarySite Oid} {bytes : Int} {cause : AppError}
    (blocks : copyBlocksOrRollback env repoId folder userId
      (copiedObjects env site name userId rows) = (.ok bytes, middle))
    (run : createSubCommit env folder email middle = (.error cause, final)) :
    ¬ LeavesNothing env userId site final ∧
      ∀ levels, ¬ StopsAtBlocks env site repoId userId folder levels := by
  have isCopied : BlocksCopied env repoId (fun id => site.blocks.files (repoId, id))
    (copiedObjects env site name userId rows).blocks := fresh.blocksCopied
  have copied := copyBlocksOrRollback_ok blocks
  refine ⟨fun leaves => leaves.not_isSome ?_, fun levels stops => stops.blocks ?_⟩
  · have more := (copySubtreeBlocks_ok apart isCopied (storeOf_copiedObjects apart) copies copied).1
    have kept : ChangesNew env middle (createSubCommit env folder email middle).2 :=
      keeps_createSubCommit middle middle (.refl middle)
    rw [run] at kept
    refine kept.find_isSome ?_
    rw [more.rows]
    exact (changesNew_copiedObjects rows).find_isSome fresh.started_isSome
  · have can := (copySubtreeBlocks_ok apart isCopied (storeOf_copiedObjects apart) stops.objects
      copied).2 stops.nonempty
    rw [committedUsage_copiedObjects] at can
    exact can.1

end Copied

def folderFile : FsFileData FreeId := ⟨[.atom 9], 3, seafMetadataTypeFile, 1⟩

def folderData : FsDirData FreeId := directory [fileEntry "f" (Digests.fileId folderFile) 3]

/-- A library with the file `/d/f`, whose object and block are stored as far as given. -/
def folderSite (keys : KeyRow) (files : List (FsFileData FreeId))
    (blocks : List (FreeId × List UInt8)) : LibrarySite FreeId :=
  let repo := libraryOf (directory [dirEntry "d" (Digests.dirId folderData)]) [folderData]
  { libraries := [{
      name := "photos"
      description := ""
      ownerId := 1
      keys
      permission := "rw"
      createdAt := 0
      type := "repo"
      repo := { repo with
        id := "source"
        fsObjects := files.foldl (fun store file => (storeFsFileObject store file).2)
          repo.fsObjects } }]
    members := []
    blocks := ⟨fun key => if key.1 = "source" then (blocks.find? fun block =>
      block.1 = key.2).map Prod.snd else none, fun _ => none⟩ }

def folderEnv : SubRepoEnv FreeId where
  limits := defaultLimits
  newRepoId := "copy"
  now := 0
  commitTime := 0
  account := .unlimited
  cachedUsage := none
  fault := fun _ => none
  blockOrder := fun ids => ids
  isOrder := List.Perm.refl

theorem folderSite_fresh (keys : KeyRow) (files : List (FsFileData FreeId))
    (blocks : List (FreeId × List UInt8)) : FreshId folderEnv (folderSite keys files blocks) :=
  ⟨by simp [LibrarySite.find, folderSite, folderEnv], by simp [folderSite],
    by simp [folderSite, folderEnv], fun _ => rfl⟩

end Nanofile
