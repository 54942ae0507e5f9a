import Nanofile.Fs.Resolve

/-!
# Writes over the web API

A write edits the entries of one directory, rebuilds the path up to the root and
commits the new root.  `update_dir_tree_and_commit` takes its parent directory from
the caller and holds the library's lock only while it rebuilds the tree;
`create_file_from_blocks` resolves the parent and commits under the lock.
-/

set_option autoImplicit false

namespace Nanofile

open Nanofile.Lib

variable {Oid : Type} [DecidableEq Oid] [Digests Oid]

/-- What a write does to the entries of its parent directory; the second result is
the description of the commit. -/
structure DirEdit (Oid : Type) where
  parentPath : String
  modifier : String
  /-- The commit's time when it is read before the tree is. -/
  ctime : Option Int
  /-- The lock is kept until HEAD has moved. -/
  lockedCommit : Bool
  apply : List (DirEntryData Oid) → Except AppError (List (DirEntryData Oid) × String)

def uniqueCandidate (stem extension : String) (number : Nat) : String :=
  stem ++ " (" ++ toString number ++ ")" ++ extension

/-- The first unused candidate; among one more candidates than names, one is. -/
def firstUnused (taken : List String) (stem extension : String) : Nat → Nat → String
  | 0, number => uniqueCandidate stem extension number
  | fuel + 1, number =>
    if uniqueCandidate stem extension number ∈ taken then
      firstUnused taken stem extension fuel (number + 1)
    else uniqueCandidate stem extension number

def generateUniqueFilename (existing : List (DirEntryData Oid)) (name : String) : String :=
  let (stem, extension) := match Text.rsplitOnce '.' name with
    | some (stem, suffix) => (stem, "." ++ suffix)
    | none => (name, "")
  firstUnused (existing.map DirEntryData.name) stem extension existing.length 1

theorem uniqueCandidate_injective (stem extension : String) :
    Function.Injective (uniqueCandidate stem extension) := by
  intro first second same
  have chars := congrArg String.toList same
  simp only [uniqueCandidate, String.toList_append, List.append_assoc,
    List.append_cancel_left_eq] at chars
  have digits : (toString first).toList = (toString second).toList := by
    rw [← List.append_assoc, ← List.append_assoc] at chars
    exact List.append_cancel_right (List.append_cancel_right chars)
  have parsed := congrArg (fun text => Nat.ofDigitChars 10 text 0) digits
  simpa [Nat.toString_eq_repr, Nat.toList_repr] using parsed

theorem mem_of_firstUnused_mem {taken : List String} {stem extension : String} :
    ∀ {fuel number : Nat}, firstUnused taken stem extension fuel number ∈ taken →
      ∀ count, count ≤ fuel → uniqueCandidate stem extension (number + count) ∈ taken := by
  intro fuel
  induction fuel with
  | zero =>
    intro number listed count bounded
    obtain rfl : count = 0 := by omega
    exact listed
  | succ fuel ih =>
    intro number listed count bounded
    unfold firstUnused at listed
    split at listed
    · rename_i here
      cases count with
      | zero => exact here
      | succ count =>
        have later := ih listed count (by omega)
        rwa [Nat.add_right_comm, Nat.add_assoc] at later
    · rename_i unused
      exact absurd listed unused

omit [DecidableEq Oid] [Digests Oid] in
theorem generateUniqueFilename_fresh (existing : List (DirEntryData Oid)) (name : String) :
    generateUniqueFilename existing name ∉ existing.map DirEntryData.name := by
  unfold generateUniqueFilename
  dsimp only
  generalize (match Text.rsplitOnce '.' name with
    | some (stem, suffix) => (stem, "." ++ suffix)
    | none => (name, "")) = parts
  intro listed
  have all := mem_of_firstUnused_mem listed
  have tried : ((List.range (existing.length + 1)).map fun count =>
      uniqueCandidate parts.1 parts.2 (1 + count)).Nodup := by
    apply List.Nodup.map _ List.nodup_range
    intro first second same
    have sameNumber := uniqueCandidate_injective parts.1 parts.2 same
    omega
  have bounded := (tried.subperm fun candidate member => by
    obtain ⟨count, inRange, rfl⟩ := List.mem_map.mp member
    exact all count (by have := List.mem_range.mp inRange; omega)).length_le
  simp only [List.length_map, List.length_range] at bounded
  omega

theorem firstUnused_eq (taken : List String) (stem extension : String) :
    ∀ fuel number : Nat, ∃ count,
      firstUnused taken stem extension fuel number = uniqueCandidate stem extension count := by
  intro fuel
  induction fuel with
  | zero => exact fun number => ⟨number, rfl⟩
  | succ fuel ih =>
    intro number
    unfold firstUnused
    split
    · exact ih (number + 1)
    · exact ⟨number, rfl⟩

theorem stem_of_candidate {stem stem' : String} {number number' : Nat}
    (same : uniqueCandidate stem "" number = uniqueCandidate stem' "" number') :
    stem = stem' := by
  have closed : ∀ count : Nat, '(' ∉ (toString count ++ ")").toList := by
    intro count listed
    rw [String.toList_append, List.mem_append] at listed
    rcases listed with digit | isLast
    · rw [Nat.toString_eq_repr, Nat.toList_repr] at digit
      have isDigit := Nat.isDigit_of_mem_toDigits (by decide) (by decide) digit
      exact absurd isDigit (by decide)
    · exact absurd isLast (by decide)
  have cut : ∀ (text : String) (count : Nat),
      Text.rsplitOnce '(' (uniqueCandidate text "" count) =
        some (text ++ " ", toString count ++ ")") := by
    intro text count
    rw [← Text.rsplitOnce_append (text ++ " ") (closed count)]
    congr 1
    rw [uniqueCandidate, String.append_empty, ← String.toList_inj]
    simp [String.append_assoc]
  have parts := cut stem number
  rw [same, cut stem' number', Option.some.injEq, Prod.mk.injEq] at parts
  have chars := congrArg String.toList parts.1
  rw [String.toList_append, String.toList_append] at chars
  exact (String.toList_inj.mp (List.append_cancel_right chars)).symm

section

omit [DecidableEq Oid] [Digests Oid]

theorem generateUniqueFilename_eq (existing : List (DirEntryData Oid)) (name : String) :
    (∃ stem suffix number, name = stem ++ "." ++ suffix ∧ '.' ∉ suffix.toList ∧
      generateUniqueFilename existing name = uniqueCandidate stem "" number ++ "." ++ suffix) ∨
    ('.' ∉ name.toList ∧ ∃ number,
      generateUniqueFilename existing name = uniqueCandidate name "" number) := by
  unfold generateUniqueFilename
  cases cut : Text.rsplitOnce '.' name with
  | none =>
    obtain ⟨number, isCandidate⟩ := firstUnused_eq (existing.map DirEntryData.name) name ""
      existing.length 1
    exact Or.inr ⟨Text.rsplitOnce_eq_none cut, number, isCandidate⟩
  | some parts =>
    obtain ⟨stem, suffix⟩ := parts
    obtain ⟨joined, absent⟩ := Text.rsplitOnce_eq_some cut
    obtain ⟨number, isCandidate⟩ := firstUnused_eq (existing.map DirEntryData.name) stem
      ("." ++ suffix) existing.length 1
    refine Or.inl ⟨stem, suffix, number, joined, absent, isCandidate.trans ?_⟩
    rw [uniqueCandidate, uniqueCandidate, String.append_empty, ← String.append_assoc]

theorem generateUniqueFilename_injective (existing : List (DirEntryData Oid)) :
    Function.Injective (generateUniqueFilename existing) := by
  have noDot : ∀ (text : String) (number : Nat), '.' ∉ text.toList →
      '.' ∉ (uniqueCandidate text "" number).toList := by
    intro text number absent listed
    have isDot : '.' ∈ (toString number).toList := by
      simpa [uniqueCandidate, absent] using listed
    rw [Nat.toString_eq_repr, Nat.toList_repr] at isDot
    exact absurd (Nat.isDigit_of_mem_toDigits (by decide) (by decide) isDot) (by decide)
  intro first second same
  rcases generateUniqueFilename_eq existing first with
    ⟨stem, suffix, number, rfl, absent, isFirst⟩ | ⟨absent, number, isFirst⟩ <;>
    rcases generateUniqueFilename_eq existing second with
      ⟨stem', suffix', number', rfl, absent', isSecond⟩ | ⟨absent', number', isSecond⟩
  · rw [isFirst, isSecond] at same
    have cut := Text.rsplitOnce_append (uniqueCandidate stem "" number) absent
    have cut' := Text.rsplitOnce_append (uniqueCandidate stem' "" number') absent'
    have dot : String.singleton '.' = "." := rfl
    rw [dot] at cut cut'
    rw [same, cut', Option.some.injEq, Prod.mk.injEq] at cut
    rw [stem_of_candidate cut.1, cut.2]
  · rw [isFirst, isSecond] at same
    have isDot := noDot second number' absent'
    rw [← same] at isDot
    simp at isDot
  · rw [isFirst, isSecond] at same
    have isDot := noDot first number absent
    rw [same] at isDot
    simp at isDot
  · rw [isFirst, isSecond] at same
    exact stem_of_candidate same

end

/-- The entries and the effective name `create_file_from_blocks` stores. -/
def addFile (fileFsId : Oid) (name modifier : String) (totalSize now : Int) (replace : Bool)
    (dirents : List (DirEntryData Oid)) : List (DirEntryData Oid) × String :=
  let identicalReplace := replace && dirents.any fun entry =>
    entry.name = name && entry.id = fileFsId && entry.size = totalSize
  let kept := if replace && !identicalReplace then
    dirents.filter fun entry => entry.name ≠ name else dirents
  let effectiveName :=
    if identicalReplace then name
    else if !replace && kept.any fun entry => entry.name = name then
      generateUniqueFilename kept name
    else name
  (if identicalReplace then kept
    else kept ++ [⟨fileFsId, sIfreg, modifier, now, effectiveName, totalSize⟩], effectiveName)

def createFileEdit (parentPath name modifier : String) (fileFsId : Oid) (totalSize now : Int)
    (replace : Bool) : DirEdit Oid where
  parentPath := parentPath
  modifier := modifier
  ctime := some now
  lockedCommit := true
  apply dirents :=
    let added := addFile fileFsId name modifier totalSize now replace dirents
    .ok (added.1, "Added " ++ added.2)

def updateDirTreeEdit (parentPath modifier description : String)
    (updateFn : List (DirEntryData Oid) → Except AppError (List (DirEntryData Oid))) :
    DirEdit Oid where
  parentPath := parentPath
  modifier := modifier
  ctime := none
  lockedCommit := false
  apply dirents := (updateFn dirents).map fun edited => (edited, description)

/-- A call from the web API.  Callers of `update_dir_tree_and_commit` pass the chain
they resolved, or an empty one. -/
inductive RestJob (Oid : Type) where
  | updateDirTree (parentPath modifier description : String) (passChain : Bool)
      (updateFn : List (DirEntryData Oid) → Except AppError (List (DirEntryData Oid)))
  | createFile (parentPath name : String) (blockIds : List Oid) (totalSize : Int)
      (modifier : String) (replace : Bool)

structure LockedRepo (Oid : Type) where
  repo : Repo Oid
  locked : Bool

/-- A tree being rebuilt: the directory edited, the levels rewritten so far from the
root down (the name followed and the directory it was followed in), and the id of
the topmost rewritten directory. -/
structure Rebuild (Oid : Type) where
  parentFsId : Oid
  levels : List (String × Oid)
  top : Oid

/-- Where a write stands between two accesses of the database or the lock. -/
inductive RestPc (Oid : Type) where
  | begun (job : RestJob Oid)
  /-- About to take the lock; without a parent, it is resolved under the lock. -/
  | waiting (edit : DirEdit Oid) (parent : Option (Oid × AncestorChain Oid))
  | resolving (edit : DirEdit Oid)
  | editing (edit : DirEdit Oid) (parentFsId : Oid) (chain : AncestorChain Oid)
  | walking (edit : DirEdit Oid) (chain : AncestorChain Oid) (description childPath : String)
      (rebuild : Rebuild Oid)
  /-- The new root is stored; HEAD is about to be read for the commit. -/
  | built (edit : DirEdit Oid) (description : String) (rebuild : Rebuild Oid)
  | inserting (edit : DirEdit Oid) (expected : Option Oid) (row : CommitRow Oid)
  | swapping (edit : DirEdit Oid) (expected : Option Oid) (commitId : Oid)
  | finished (result : Except AppError Unit)

/-- Return, giving the lock back if this write holds it. -/
def LockedRepo.finish (state : LockedRepo Oid) (holding : Bool) (repo : Repo Oid)
    (result : Except AppError Unit) : LockedRepo Oid × RestPc Oid :=
  (⟨repo, if holding then false else state.locked⟩, .finished result)

/-- The tree is rebuilt: `update_dir_tree_and_commit` gives the lock back here. -/
def LockedRepo.rebuilt (state : LockedRepo Oid) (repo : Repo Oid) (edit : DirEdit Oid)
    (description : String) (rebuild : Rebuild Oid) : LockedRepo Oid × RestPc Oid :=
  (⟨repo, if edit.lockedCommit then state.locked else false⟩, .built edit description rebuild)

def restCommit (repo : Repo Oid) (edit : DirEdit Oid) (description : String) (rootId : Oid)
    (now : Int) : CommitData Oid :=
  let data : CommitData Oid := {
    commitId := emptySha1
    repoId := repo.id
    rootId := rootId
    creatorName := edit.modifier
    creator := emptySha1
    description := description
    ctime := edit.ctime.getD now
    parentId := repo.headCommitId
    secondParentId := none
    newMerge := none
    conflict := none }
  { data with commitId := computeCommitId data }

/-- The parent of an upload: the root of HEAD, which may be missing, or a directory
below it. -/
def uploadParent [ToString Oid] (repo : Repo Oid) (parentPath : String) :
    Except AppError (Oid × AncestorChain Oid) :=
  if parentPath = "/" then
    match repo.headCommitId with
    | none => .ok (emptySha1, [])
    | some headCommitId => do
        let head ← okOr (repo.commits.find headCommitId) (.notFound "head commit not found")
        .ok (head.rootId, [])
  else resolveFsIdChain repo parentPath

def editParent [ToString Oid] (repo : Repo Oid) (edit : DirEdit Oid) (parentFsId : Oid) :
    Except AppError (String × Oid) × FsStore Oid :=
  let edited := do
    let data ← readFsDirData repo.fsObjects parentFsId
    let result ← edit.apply data.dirents
    .ok (data, result)
  match edited with
  | .error failure => (.error failure, repo.fsObjects)
  | .ok (data, dirents, description) =>
    let stored := storeFsDirObject repo.fsObjects { data with dirents }
    (.ok (description, stored.1), stored.2)

/-- `create_commit` up to the insert: an unchanged root needs no commit. -/
def prepareCommit (repo : Repo Oid) (edit : DirEdit Oid) (description : String) (rootId : Oid)
    (now : Int) : Option (CommitRow Oid) :=
  if ((repo.headCommitId.bind repo.commits.find).any fun head => head.rootId = rootId) then none
  else some (restCommit repo edit description rootId now).row

/-- One access of the database or of the lock.  A write that waits for the lock has no
step while it is taken. -/
def stepRest [ToString Oid] (now : Int) (state : LockedRepo Oid) :
    RestPc Oid → Option (LockedRepo Oid × RestPc Oid)
  | .begun (.updateDirTree parentPath modifier description passChain updateFn) =>
    match resolveFsIdChain state.repo parentPath with
    | .error failure => some (state, .finished (.error failure))
    | .ok (parentFsId, chain) =>
      some (state, .waiting (updateDirTreeEdit parentPath modifier description updateFn)
        (some (parentFsId, if passChain then chain else [])))
  | .begun (.createFile parentPath name blockIds totalSize modifier replace) =>
    let stored := storeFsFileObject state.repo.fsObjects
      ⟨blockIds, totalSize, seafMetadataTypeFile, 1⟩
    some (⟨{ state.repo with fsObjects := stored.2 }, state.locked⟩,
      .waiting (createFileEdit parentPath name modifier stored.1 totalSize now replace) none)
  | .waiting edit parent =>
    if state.locked then none
    else
      match parent with
      | some (parentFsId, chain) =>
        some (⟨state.repo, true⟩, .editing edit parentFsId chain)
      | none => some (⟨state.repo, true⟩, .resolving edit)
  | .resolving edit =>
    match uploadParent state.repo edit.parentPath with
    | .error failure => some (state.finish true state.repo (.error failure))
    | .ok (parentFsId, chain) => some (state, .editing edit parentFsId chain)
  | .editing edit parentFsId chain =>
    match editParent state.repo edit parentFsId with
    | (.error failure, _) => some (state.finish true state.repo (.error failure))
    | (.ok (description, newParent), store) =>
      let repo := { state.repo with fsObjects := store }
      let rebuild : Rebuild Oid := ⟨parentFsId, [], newParent⟩
      if edit.parentPath = "/" then some (state.rebuilt repo edit description rebuild)
      else some (⟨repo, state.locked⟩, .walking edit chain description edit.parentPath rebuild)
  | .walking edit chain description childPath rebuild =>
    match walkUpLevel now state.repo none chain childPath rebuild.top with
    | (.error failure, _) => some (state.finish true state.repo (.error failure))
    | (.ok none, store) =>
      some (state.rebuilt { state.repo with fsObjects := store } edit description rebuild)
    | (.ok (some level), store) =>
      let repo := { state.repo with fsObjects := store }
      let rebuild : Rebuild Oid := ⟨rebuild.parentFsId,
        (level.childName, level.ancestor) :: rebuild.levels, level.newAncestor⟩
      if level.parentPath = "/" then some (state.rebuilt repo edit description rebuild)
      else some (⟨repo, state.locked⟩, .walking edit chain description level.parentPath rebuild)
  | .built edit description rebuild =>
    match prepareCommit state.repo edit description rebuild.top now with
    | none => some (state.finish edit.lockedCommit state.repo (.ok ()))
    | some row => some (state, .inserting edit state.repo.headCommitId row)
  | .inserting edit expected row =>
    match state.repo.commits.insertCommit row with
    | none =>
      some (state.finish edit.lockedCommit state.repo
        (.error (.internal "UNIQUE constraint failed")))
    | some commits =>
      some (⟨{ state.repo with commits }, state.locked⟩, .swapping edit expected row.commitId)
  | .swapping edit expected commitId =>
    match testAndUpdateHeadCommit state.repo expected commitId with
    | (true, repo) => some (state.finish edit.lockedCommit repo (.ok ()))
    | (false, repo) =>
      some (state.finish edit.lockedCommit repo (.error (.conflict ("HEAD of " ++ repo.id ++
        (if edit.lockedCommit then " advanced while this upload was being committed"
          else " advanced while this change was being committed")))))
  | .finished _ => none

end Nanofile
