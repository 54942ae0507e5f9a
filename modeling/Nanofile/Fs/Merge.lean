import Nanofile.Fs.Traversal
import Nanofile.Fs.Tree
import Nanofile.Lib.Proc
import Nanofile.Lib.Text

/-!
# Server-side three-way merge of directory trees

A branch update whose parent is no longer HEAD is merged: the client's tree and
the tree of HEAD against their common base.  Each level groups its entries by
name, sends every group through the file table and then through the directory
table, and stores the merged directory.
-/

set_option autoImplicit false

namespace Nanofile

open Nanofile.Lib

variable {Oid : Type}

inductive Side where
  | base
  | head
  | remote
deriving DecidableEq, Repr

structure Slots (Oid : Type) where
  base : Option (DirEntryData Oid)
  head : Option (DirEntryData Oid)
  remote : Option (DirEntryData Oid)
deriving DecidableEq, Repr

def Slots.get (slots : Slots Oid) : Side → Option (DirEntryData Oid)
  | .base => slots.base
  | .head => slots.head
  | .remote => slots.remote

def Slots.toList (slots : Slots Oid) : List (DirEntryData Oid) :=
  slots.base.toList ++ slots.head.toList ++ slots.remote.toList

inductive FileChoice (Oid : Type) where
  /-- Emit nothing at this level. -/
  | drop
  | emit (entry : DirEntryData Oid)
  /-- Keep the head entry when present, and rename the remote file. -/
  | renameRemote (keep : Option (DirEntryData Oid))
  /-- Rename the remote directory and emit the head entry. -/
  | renameRemoteDir (head : DirEntryData Oid)
deriving DecidableEq, Repr

inductive DirChoice where
  | drop
  | emit (slot : Side)
  /-- Recurse, then emit this slot with the merged child id. -/
  | recurse (slot : Side)
deriving DecidableEq, Repr

def asFile (slot : Option (DirEntryData Oid)) : Option (DirEntryData Oid) :=
  slot.filter fun entry => isRegular entry.mode

def slotIsDir (slot : Option (DirEntryData Oid)) : Bool :=
  slot.any fun entry => isDir entry.mode

variable [DecidableEq Oid]

def slotHasId (slot : Option (DirEntryData Oid)) (id : Oid) : Bool :=
  slot.any fun entry => entry.id = id

/-- The file part of the merge table.  The branches that look at an opposite slot
are those where one side holds a directory under the name. -/
def chooseFile (slots : Slots Oid) : FileChoice Oid :=
  match asFile slots.base, asFile slots.head, asFile slots.remote with
  | base, some head, some remote =>
    if head.id = remote.id then .emit head
    else if slotHasId base head.id then .emit remote
    else if slotHasId base remote.id then .emit head
    else .renameRemote (some head)
  | some base, none, some remote =>
    if base.id = remote.id then .drop
    else if slots.head.isSome then .renameRemote none
    else .emit remote
  | some base, some head, none =>
    if base.id = head.id then .drop
    else if slots.remote.isSome then .renameRemoteDir head
    else .emit head
  | none, none, some remote =>
    match slots.head with
    | none => .emit remote
    | some head =>
      if slotHasId slots.base head.id then .emit remote else .renameRemote none
  | none, some head, none =>
    match slots.remote with
    | none => .emit head
    | some remote =>
      if slotHasId slots.base remote.id then .emit head else .renameRemoteDir head
  | _, none, none => .drop

/-- The directory part of the merge table, by the set of sides that hold a
directory. -/
def chooseDir (slots : Slots Oid) : Except AppError DirChoice :=
  match slotIsDir slots.base, slotIsDir slots.head, slotIsDir slots.remote with
  | false, false, false => .error (.internal "merge: empty directory group")
  | true, false, false => .ok .drop
  | false, true, false => .ok (.emit .head)
  | true, true, false =>
    .ok (if slots.base.map (·.id) = slots.head.map (·.id) then .drop
      else .recurse .head)
  | false, false, true => .ok (.emit .remote)
  | true, false, true =>
    .ok (if slots.base.map (·.id) = slots.remote.map (·.id) then .drop
      else .recurse .remote)
  | _, true, true =>
    .ok (if slots.head.map (·.id) = slots.remote.map (·.id) then .emit .head
      else if slots.base.map (·.id) = slots.head.map (·.id) then .emit .remote
      else if slots.base.map (·.id) = slots.remote.map (·.id) then .emit .head
      else .recurse .head)

/-- `conflict_path`: the mark goes before the last extension. -/
def conflictPath (path : String) (modifier : Option String) (timestamp : String) :
    String :=
  let mark := match modifier with
    | some modifier => " (SFConflict " ++ modifier ++ " " ++ timestamp ++ ")"
    | none => " (SFConflict " ++ timestamp ++ ")"
  match Text.rsplitOnce '.' path with
  | some (stem, extension) => stem ++ mark ++ "." ++ extension
  | none => path ++ mark

/-- What the merge reads besides the store.  `clock n` is the `n`-th reading of
the wall clock and `nicknameOf` is the user table. -/
structure MergeEnv (Oid : Type) where
  limits : Limits
  remoteRoot : Oid
  remoteCreatorName : String
  nicknameOf : String → Option String
  clock : Nat → Int
  formatLocalTimestamp : Int → String

structure MergeState (Oid : Type) where
  store : FsStore Oid
  conflict : Bool
  keptDeleted : Bool
  visitDirs : Nat
  /-- The visits counted by the traversal guard. -/
  visits : Nat
  /-- Clock readings so far. -/
  ticks : Nat

abbrev Merge (Oid Result : Type) := Proc (MergeState Oid) AppError Result

variable [Digests Oid] [ToString Oid]

def loadDir (fsId : Oid) : Merge Oid (FsDirData Oid) :=
  Proc.tryRead fun state =>
    (readFsDirData state.store fsId).mapError fun failure =>
      .internal ("merge: cannot read tree " ++ toString fsId ++ ": " ++ toString failure)

def now (env : MergeEnv Oid) : Merge Oid Int :=
  Proc.update fun state => (env.clock state.ticks, { state with ticks := state.ticks + 1 })

def MergeEnv.nickname (env : MergeEnv Oid) (email : String) : String :=
  (env.nicknameOf email).getD email

/-- The walk of `remote_modifier_mtime` down to the directory of a path. -/
def walkSegments (store : FsStore Oid) : List String → Oid → Except AppError Oid
  | [], dirId => .ok dirId
  | segment :: rest, dirId =>
    match readFsDirData store dirId with
    | .error failure => .error failure
    | .ok dir =>
      match dir.dirents.find? fun entry => entry.name = segment ∧ isDir entry.mode with
      | none => .error (.notFound "merge: conflict path not found")
      | some entry => walkSegments store rest entry.id

/-- Last modifier and mtime of `path` in the client's tree. -/
def remoteModifierMtime (store : FsStore Oid) (remoteRoot : Oid) (path : String) :
    Except AppError (Option (String × Int)) :=
  let parts := Text.split '/' path
  let filename := parts.getLast?.getD ""
  match walkSegments store (parts.dropLast.filter fun part => part ≠ "") remoteRoot with
  | .error failure => .error failure
  | .ok dirId =>
    match readFsDirData store dirId with
    | .error failure => .error failure
    | .ok dir =>
      .ok ((dir.dirents.find? fun entry => entry.name = filename).map fun entry =>
        (entry.modifier, entry.mtime))

def conflictFileName (env : MergeEnv Oid) (basedir name : String) : Merge Oid String := do
  let found ← Proc.read fun state =>
    remoteModifierMtime state.store env.remoteRoot (basedir ++ name)
  match found with
  | .ok (some (modifier, mtime)) =>
    pure (conflictPath name (some (env.nickname modifier)) (env.formatLocalTimestamp mtime))
  | .ok none => pure (conflictPath name none (env.formatLocalTimestamp 0))
  | .error _ => do
      let mtime ← now env
      pure (conflictPath name (some (env.nickname env.remoteCreatorName))
        (env.formatLocalTimestamp mtime))

def conflictDirName (env : MergeEnv Oid) (name : String) : Merge Oid String := do
  let mtime ← now env
  pure (conflictPath name (some env.remoteCreatorName) (env.formatLocalTimestamp mtime))

structure Trees (Oid : Type) where
  base : Option (FsDirData Oid)
  head : Option (FsDirData Oid)
  remote : Option (FsDirData Oid)

def sideEntries (tree : Option (FsDirData Oid)) : List (DirEntryData Oid) :=
  (tree.map FsDirData.dirents).getD []

def slotAt (entries : List (DirEntryData Oid)) (name : String) :
    Option (DirEntryData Oid) :=
  (sortDirentsDesc entries).find? fun entry => entry.name = name

def slotsAt (base head remote : List (DirEntryData Oid)) (name : String) : Slots Oid :=
  ⟨slotAt base name, slotAt head name, slotAt remote name⟩

/-- The keys of the group map in the order it is walked. -/
def groupNames (base head remote : List (DirEntryData Oid)) : List String :=
  ((base ++ head ++ remote).map DirEntryData.name).dedup.insertionSort
    fun first second => second ≤ first

def setConflict : Merge Oid PUnit :=
  Proc.modify fun state => { state with conflict := true }

def noteKeptDeleted (kept : Bool) : Merge Oid PUnit :=
  Proc.modify fun state => { state with keptDeleted := state.keptDeleted || kept }

/-- The file table on one group: the entries pushed, and the slots the directory
table then sees. -/
def mergeFile (env : MergeEnv Oid) (basedir : String) (slots : Slots Oid) :
    Merge Oid (List (DirEntryData Oid) × Slots Oid) :=
  if slots.toList.any fun entry => isRegular entry.mode then
    match chooseFile slots with
    | .drop => pure ([], slots)
    | .emit entry => do
        noteKeptDeleted
          (slots.base.isSome && (slots.head.isNone != slots.remote.isNone))
        pure ([entry], slots)
    | .renameRemote keep =>
      match slots.remote with
      | none => Proc.fail (.internal "merge: missing remote file")
      | some remote => do
          let newName ← conflictFileName env basedir remote.name
          setConflict
          pure (keep.toList ++ [{ remote with name := newName }], slots)
    | .renameRemoteDir head =>
      match slots.remote with
      | none => Proc.fail (.internal "merge: missing remote directory")
      | some remote => do
          let newName ← conflictDirName env remote.name
          setConflict
          pure ([head], { slots with remote := some { remote with name := newName } })
  else pure ([], slots)

def loadChild (slot : Option (DirEntryData Oid)) : Merge Oid (Option (FsDirData Oid)) :=
  match slot with
  | none => pure none
  | some entry =>
    if isDir entry.mode then do
      let data ← loadDir entry.id
      pure (some data)
    else pure none

def otherSide (slot : Side) : Side := if slot = .head then .remote else .head

def mergeDir (recurse : Trees Oid → String → Merge Oid Oid) (basedir : String)
    (slots : Slots Oid) : Merge Oid (List (DirEntryData Oid)) :=
  if slots.toList.any fun entry => isDir entry.mode then
    match chooseDir slots with
    | .error failure => Proc.fail failure
    | .ok .drop => pure []
    | .ok (.emit slot) => do
        noteKeptDeleted (slots.base.isSome && (slots.get (otherSide slot)).isNone)
        pure (slots.get slot).toList
    | .ok (.recurse slot) => do
        noteKeptDeleted (slots.get (otherSide slot)).isNone
        match (slots.toList.filter fun entry => isDir entry.mode).getLast? with
        | none => Proc.fail (.internal "merge: recursive action without a directory")
        | some named => do
            let base ← loadChild slots.base
            let head ← loadChild slots.head
            let remote ← loadChild slots.remote
            let merged ← recurse ⟨base, head, remote⟩ (basedir ++ named.name ++ "/")
            match slots.get slot with
            | none => Proc.fail (.internal "merge: missing directory to emit")
            | some entry => pure [{ entry with id := merged }]
  else pure []

def mergeGroup (env : MergeEnv Oid) (recurse : Trees Oid → String → Merge Oid Oid)
    (basedir : String) (slots : Slots Oid) : Merge Oid (List (DirEntryData Oid)) := do
  let (files, slots) ← mergeFile env basedir slots
  let dirs ← mergeDir recurse basedir slots
  pure (files ++ dirs)

def mergeGroups (env : MergeEnv Oid) (recurse : Trees Oid → String → Merge Oid Oid)
    (basedir : String) : List (Slots Oid) → Merge Oid (List (DirEntryData Oid))
  | [] => pure []
  | slots :: rest => do
      let pushed ← mergeGroup env recurse basedir slots
      let merged ← mergeGroups env recurse basedir rest
      pure (pushed ++ merged)

def storeMerged (merged : List (DirEntryData Oid)) : Merge Oid Oid :=
  Proc.update fun state =>
    let (fsId, store) := storeFsDirObject state.store ⟨merged, seafMetadataTypeDir, 1⟩
    (fsId, { state with store })

/-- `merge_level`, by the number of levels the depth limit still allows. -/
def mergeLevel (env : MergeEnv Oid) : Nat → Trees Oid → String → Merge Oid Oid
  | 0, _, _ =>
    Proc.fail (.badRequest ("merge exceeded the maximum directory depth (" ++
      toString env.limits.maxDepth ++ ")"))
  | depth + 1, trees, basedir => do
      let visits ← Proc.update fun state =>
        (state.visits + 1, { state with visits := state.visits + 1 })
      if env.limits.maxVisits < visits then Proc.fail env.limits.tooWide
      else do
        Proc.modify fun state => { state with visitDirs := state.visitDirs + 1 }
        let base := sideEntries trees.base
        let head := sideEntries trees.head
        let remote := sideEntries trees.remote
        let merged ← mergeGroups env (mergeLevel env depth) basedir
          ((groupNames base head remote).map (slotsAt base head remote))
        storeMerged merged

structure MergeOutcome (Oid : Type) where
  mergedRoot : Oid
  conflict : Bool
  keptDeleted : Bool
  visitDirs : Nat
deriving DecidableEq, Repr

/-- `merge_trees`: the outcome and the store it leaves behind. -/
def mergeTrees (env : MergeEnv Oid) (baseRoot headRoot : Oid) (store : FsStore Oid) :
    Except AppError (MergeOutcome Oid) × FsStore Oid :=
  let run : Merge Oid Oid := do
    let base ← loadDir baseRoot
    let head ← loadDir headRoot
    let remote ← loadDir env.remoteRoot
    mergeLevel env env.limits.maxDepth ⟨some base, some head, some remote⟩ ""
  match run ⟨store, false, false, 0, 0, 0⟩ with
  | (.error failure, state) => (.error failure, state.store)
  | (.ok mergedRoot, state) =>
    (.ok ⟨mergedRoot, state.conflict, state.keptDeleted, state.visitDirs⟩, state.store)

end Nanofile
