import Nanofile.Base.Rows
import Nanofile.Fs.Traversal
import Nanofile.Lib.LevelWalk

/-!
# The upload check

`check_commit_blocks` walks an uploaded tree against the tree the client based it
on, one level of directory pairs at a time.  It sums the size difference, asks for
the blocks of the files that changed and skips what it takes on trust: an entry
the base has under the same name and id, and a pair of which one side is not
stored.  Without a base the whole tree is walked and every object asked for.
-/

set_option autoImplicit false

namespace Nanofile

open Nanofile.Lib

variable {Oid : Type} [DecidableEq Oid] [Digests Oid]

/-- An empty directory is the sentinel: never a missing object. -/
def storedDir (id : Oid) : Option Oid := if id = emptySha1 then none else some id

structure DiffFrame (Oid : Type) where
  baseFsId : Option Oid
  newFsId : Option Oid
  path : String
deriving DecidableEq, Repr

/-- What a pair adds to the next level, to the size delta and to the files whose
blocks are asked for. -/
structure FrameDiff (Oid : Type) where
  next : List (DiffFrame Oid)
  delta : Int
  pending : List (Oid × String)
deriving DecidableEq, Repr

def FrameDiff.empty : FrameDiff Oid := ⟨[], 0, []⟩

def FrameDiff.append (first second : FrameDiff Oid) : FrameDiff Oid :=
  ⟨first.next ++ second.next, first.delta + second.delta, first.pending ++ second.pending⟩

def FrameDiff.join (diffs : List (FrameDiff Oid)) : FrameDiff Oid :=
  diffs.foldr FrameDiff.append FrameDiff.empty

def childOf (path name : String) : String := if path = "" then name else path ++ "/" ++ name

/-- An entry the new side lacks: a file's bytes go, a directory is walked. -/
def deletedEntry (path : String) (entry : DirEntryData Oid) : FrameDiff Oid :=
  if hasDirBit entry.mode then ⟨[⟨storedDir entry.id, none, childOf path entry.name⟩], 0, []⟩
  else ⟨[], -entry.size, []⟩

def addedEntry (path : String) (entry : DirEntryData Oid) : FrameDiff Oid :=
  if hasDirBit entry.mode then ⟨[⟨none, storedDir entry.id, childOf path entry.name⟩], 0, []⟩
  else ⟨[], entry.size, [(entry.id, childOf path entry.name)]⟩

def changedEntry (path : String) (base entry : DirEntryData Oid) : FrameDiff Oid :=
  let child := childOf path entry.name
  if entry.id = base.id then .empty
  else
    match hasDirBit base.mode, hasDirBit entry.mode with
    | true, true => ⟨[⟨storedDir base.id, storedDir entry.id, child⟩], 0, []⟩
    | false, true => ⟨[⟨none, storedDir entry.id, child⟩], -base.size, []⟩
    | true, false => ⟨[⟨storedDir base.id, none, child⟩], entry.size, [(entry.id, child)]⟩
    | false, false => ⟨[], entry.size - base.size, [(entry.id, child)]⟩

def compareEntry (base : FsDirData Oid) (path : String) (entry : DirEntryData Oid) :
    FrameDiff Oid :=
  match lastNamed base.dirents entry.name with
  | none => addedEntry path entry
  | some baseEntry => changedEntry path baseEntry entry

/-- The entries of the base side no new entry is named like. -/
def unmatched (base new : FsDirData Oid) : List (DirEntryData Oid) :=
  base.dirents.filter fun entry => entry.name ∉ new.dirents.map DirEntryData.name

def diffDirs (path : String) : Option (FsDirData Oid) → Option (FsDirData Oid) → FrameDiff Oid
  | none, none => .empty
  | some base, none => .join (base.dirents.map (deletedEntry path))
  | none, some new => .join (new.dirents.map (addedEntry path))
  | some base, some new =>
    (FrameDiff.join (new.dirents.map (compareEntry base path))).append
      (.join ((unmatched base new).map (deletedEntry path)))

/-- One pair.  A side the database does not hold is unknown, and the pair is
skipped, unless only the new side refers to it. -/
def diffFrame (store : FsStore Oid) (frame : DiffFrame Oid) :
    Except AppError (FrameDiff Oid) :=
  if frame.baseFsId = frame.newFsId then .ok .empty
  else
    let base := frame.baseFsId.bind (dirBatch store)
    let new := frame.newFsId.bind (dirBatch store)
    if (frame.baseFsId.isSome && base.isNone) || (frame.newFsId.isSome && new.isNone) then
      if frame.newFsId.isSome && new.isNone && frame.baseFsId.isNone then .error .blockMissing
      else .ok .empty
    else .ok (diffDirs frame.path base new)

def diffFrames (store : FsStore Oid) : List (DiffFrame Oid) → Except AppError (FrameDiff Oid)
  | [] => .ok .empty
  | frame :: rest =>
    match diffFrame store frame with
    | .error failure => .error failure
    | .ok first =>
      match diffFrames store rest with
      | .error failure => .error failure
      | .ok others => .ok (first.append others)

/-- `has_block`: answered from a presence cache, whose keys are decoded ids, before the
file of the very id is looked for. -/
def cachedHasBlock (cached : List Oid) (blocks : Table Oid Int) (blockId : Oid) : Bool :=
  isValidBlockId blockId &&
    (decide (decodeSha1Hex blockId ∈ cached) || (blocks.find blockId).isSome)

def hasMissing (held : Oid → Bool) (file : FsFileData Oid) : Bool :=
  file.blockIds.any fun block => !held block

def checkPending (store : FsStore Oid) (held : Oid → Bool) :
    List (Oid × String) → Except AppError (List String)
  | [] => .ok []
  | (fsId, path) :: rest =>
    match fileBatch store fsId with
    | none =>
      if fsId ≠ emptySha1 then .error .blockMissing else checkPending store held rest
    | some file =>
      match checkPending store held rest with
      | .error failure => .error failure
      | .ok missing => .ok (if hasMissing held file then path :: missing else missing)

/-- One level of pairs; the result so far is the missing paths and the delta. -/
def diffLevel (store : FsStore Oid) (held : Oid → Bool) (frontier : List (DiffFrame Oid))
    (sofar : List String × Int) :
    Except AppError (List (DiffFrame Oid) × (List String × Int)) :=
  match diffFrames store frontier with
  | .error failure => .error failure
  | .ok diff =>
    match checkPending store held diff.pending with
    | .error failure => .error failure
    | .ok missing => .ok (diff.next, (sofar.1 ++ missing, sofar.2 + diff.delta))

structure FullFrame (Oid : Type) where
  fsId : Oid
  path : String
deriving DecidableEq, Repr

/-- One object: its children, the missing path when a block of it is missing, and
its size. -/
def fullFrame (store : FsStore Oid) (held : Oid → Bool) (frame : FullFrame Oid) :
    Except AppError (List (FullFrame Oid) × (List String × Int)) :=
  if frame.fsId = emptySha1 then .ok ([], ([], 0))
  else
    match store.find frame.fsId with
    | none => .error .blockMissing
    | some (.file file) =>
      .ok ([], (if hasMissing held file then [frame.path] else [], file.size))
    | some (.dir data) =>
      .ok (data.dirents.map fun entry => ⟨entry.id, childOf frame.path entry.name⟩, ([], 0))

def fullLevel (store : FsStore Oid) (held : Oid → Bool) :
    List (FullFrame Oid) → List String × Int →
    Except AppError (List (FullFrame Oid) × (List String × Int))
  | [], sofar => .ok ([], sofar)
  | frame :: rest, sofar =>
    match fullFrame store held frame with
    | .error failure => .error failure
    | .ok (children, found) =>
      match fullLevel store held rest (sofar.1 ++ found.1, sofar.2 + found.2) with
      | .error failure => .error failure
      | .ok (next, sofar) => .ok (children ++ next, sofar)

/-- `check_commit_blocks`: the paths with missing blocks and the size delta. -/
def checkCommitBlocks (limits : Limits) (store : FsStore Oid) (held : Oid → Bool)
    (newRoot : Oid) (baseRoot : Option Oid) : Except AppError (List String × Int) :=
  match baseRoot with
  | some base =>
    if base = newRoot then .ok ([], 0)
    else
      levelWalk limits.maxVisits limits.tooDeep limits.tooWide (diffLevel store held)
        limits.maxDepth 0 [⟨storedDir base, storedDir newRoot, ""⟩] ([], 0)
  | none =>
    levelWalk limits.maxVisits limits.tooDeep limits.tooWide (fullLevel store held)
      limits.maxDepth 0 [⟨newRoot, ""⟩] ([], 0)

end Nanofile
