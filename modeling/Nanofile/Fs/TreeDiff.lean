import Nanofile.Fs.Traversal
import Nanofile.Fs.TreePaths
import Nanofile.Lib.LevelOrder

/-!
# The diff of two trees

`diff_trees` reads the old and the new tree level by level, only where their ids
differ, and reports what changed.  A directory whose object the same frame dropped is
taken for a renamed one and not read; a last pass pairs created entries with dropped
ones of the same id.
-/

set_option autoImplicit false

namespace Nanofile

open Nanofile.Lib

variable {Oid : Type} [DecidableEq Oid] [Digests Oid]

inductive ChangeOp where
  | create
  | delete
  | edit
  | rename
  | move
deriving DecidableEq, Repr

inductive ObjType where
  | file
  | dir
deriving DecidableEq, Repr

def objTypeOf (mode : BitVec 32) : ObjType := if hasDirBit mode then .dir else .file

structure FsChange (Oid : Type) where
  opType : ChangeOp
  objType : ObjType
  path : TreePath
  size : Int
  objId : Oid
  oldPath : Option TreePath
  superseded : Bool
deriving DecidableEq, Repr

abbrev PathEntry (Oid : Type) := TreePath × DirEntryData Oid

def pathText (path : TreePath) : String := path.foldl (fun text name => text ++ "/" ++ name) ""

/-- `other` lies below the directory `path`. -/
def isBelow (path other : TreePath) : Bool :=
  path.isPrefixOf other && decide (path.length < other.length)

def plainChange (opType : ChangeOp) (item : PathEntry Oid) : FsChange Oid :=
  ⟨opType, objTypeOf item.2.mode, item.1, item.2.size, item.2.id, none, false⟩

def deleteChange (item : PathEntry Oid) : FsChange Oid := plainChange .delete item

def createChange (item : PathEntry Oid) : FsChange Oid := plainChange .create item

def sortChanges (changes : List (FsChange Oid)) : List (FsChange Oid) :=
  changes.insertionSort fun first second => pathText first.path ≤ pathText second.path

structure ListFrame (Oid : Type) where
  fsId : Oid
  path : TreePath
deriving DecidableEq, Repr

/-- The entries of one directory, with their paths. -/
def ListFrame.items (store : FsStore Oid) (frame : ListFrame Oid) : List (PathEntry Oid) :=
  (entriesOf store frame.fsId).map fun entry => (frame.path ++ [entry.name], entry)

def ListFrame.next (store : FsStore Oid) (frame : ListFrame Oid) : List (ListFrame Oid) :=
  ((entriesOf store frame.fsId).filter fun entry => hasDirBit entry.mode).map fun entry =>
    ⟨entry.id, frame.path ++ [entry.name]⟩

def insertItem (out : List (PathEntry Oid)) (item : PathEntry Oid) : List (PathEntry Oid) :=
  (out.filter fun present => present.1 ≠ item.1) ++ [item]

def collectEntries (limits : Limits) (store : FsStore Oid) (root : Oid) :
    Except AppError (List (PathEntry Oid)) :=
  levelWalk limits.maxVisits limits.tooDeep limits.tooWide
    (fun frontier out => .ok (frontier.flatMap (ListFrame.next store),
      frontier.foldl (fun out frame => (frame.items store).foldl insertItem out) out))
    limits.maxDepth 0 [⟨root, []⟩] []

/-- The old and the new directory at one path; the old one is absent for a new
subtree, and the new one is the sentinel for a subtree that is gone. -/
structure TreeFrame (Oid : Type) where
  oldFsId : Option Oid
  newFsId : Oid
  path : TreePath
deriving DecidableEq, Repr

/-- What one frame finds: changes, created and dropped entries, and frames to read. -/
structure TreeDelta (Oid : Type) where
  edits : List (FsChange Oid)
  created : List (PathEntry Oid)
  dropped : List (PathEntry Oid)
  next : List (TreeFrame Oid)
deriving DecidableEq, Repr

def TreeDelta.empty : TreeDelta Oid := ⟨[], [], [], []⟩

def TreeDelta.append (first second : TreeDelta Oid) : TreeDelta Oid :=
  ⟨first.edits ++ second.edits, first.created ++ second.created,
    first.dropped ++ second.dropped, first.next ++ second.next⟩

def TreeDelta.join (parts : List (TreeDelta Oid)) : TreeDelta Oid :=
  parts.foldr TreeDelta.append .empty

def addedDelta (path : TreePath) (entry : DirEntryData Oid) : TreeDelta Oid :=
  let here := path ++ [entry.name]
  ⟨[], [(here, entry)], [], if hasDirBit entry.mode then [⟨none, entry.id, here⟩] else []⟩

def goneDelta (path : TreePath) (entry : DirEntryData Oid) : TreeDelta Oid :=
  let here := path ++ [entry.name]
  ⟨[], [], [(here, entry)],
    if hasDirBit entry.mode then [⟨some entry.id, emptySha1, here⟩] else []⟩

def oldOnly (old new : List (DirEntryData Oid)) : List (DirEntryData Oid) :=
  old.filter fun entry => entry.name ∉ new.map DirEntryData.name

def changedDelta (path : TreePath) (old new : DirEntryData Oid) : TreeDelta Oid :=
  let here := path ++ [new.name]
  if new.id = old.id then .empty
  else if hasDirBit new.mode then ⟨[], [], [], [⟨some old.id, new.id, here⟩]⟩
  else ⟨[plainChange .edit (here, new)], [], [],
    if hasDirBit old.mode then [⟨some old.id, emptySha1, here⟩] else []⟩

/-- A new entry of a directory both trees have.  A directory whose object the frame
drops elsewhere is reused: its contents are the same, so it is not read. -/
def compareDelta (path : TreePath) (old dropped : List (DirEntryData Oid))
    (new : DirEntryData Oid) : TreeDelta Oid :=
  match lastNamed old new.name with
  | some oldEntry => changedDelta path oldEntry new
  | none =>
    if hasDirBit new.mode && dropped.any (fun entry => entry.id = new.id) then
      ⟨[], [(path ++ [new.name], new)], [], []⟩
    else addedDelta path new

def diffBoth (path : TreePath) (old new : List (DirEntryData Oid)) : TreeDelta Oid :=
  (TreeDelta.join ((oldOnly old new).map (goneDelta path))).append
    (.join (new.map (compareDelta path old (oldOnly old new))))

def treeFrame (store : FsStore Oid) (frame : TreeFrame Oid) : TreeDelta Oid :=
  match frame.oldFsId.bind (dirBatch store), dirBatch store frame.newFsId with
  | none, some new => .join (new.dirents.map (addedDelta frame.path))
  | some old, none => .join (old.dirents.map (goneDelta frame.path))
  | some old, some new => diffBoth frame.path old.dirents new.dirents
  | none, none => .empty

structure TreeAcc (Oid : Type) where
  changes : List (FsChange Oid)
  created : List (PathEntry Oid)
  dropped : List (PathEntry Oid)
deriving DecidableEq, Repr

def TreeAcc.add (acc : TreeAcc Oid) (delta : TreeDelta Oid) : TreeAcc Oid :=
  ⟨acc.changes ++ delta.edits, acc.created ++ delta.created, acc.dropped ++ delta.dropped⟩

/-- `obj_to_deleted`: the dropped entries of an id, in the order they were met. -/
def objToDeleted (dropped : List (PathEntry Oid)) (objId : Oid) : List (PathEntry Oid) :=
  dropped.filter fun item => item.2.id = objId

def pairedChange (item : PathEntry Oid) (oldPath : TreePath) : FsChange Oid :=
  ⟨if oldPath.dropLast = item.1.dropLast then .rename else .move, objTypeOf item.2.mode,
    item.1, item.2.size, item.2.id, some oldPath, false⟩

/-- The pairing pass: each created entry pops the last dropped one of its id. -/
def pairCreated (deleted : Oid → List (PathEntry Oid)) :
    List (PathEntry Oid) → List (FsChange Oid)
  | [] => []
  | item :: rest =>
    match (deleted item.2.id).getLast? with
    | some (oldPath, _) => pairedChange item oldPath ::
        pairCreated (Function.update deleted item.2.id (deleted item.2.id).dropLast) rest
    | none => createChange item :: pairCreated deleted rest

/-- A delete whose object, or a directory above it, was met again under a new path. -/
def markSuperseded (paired : List (FsChange Oid)) (change : FsChange Oid) : FsChange Oid :=
  let moved := paired.filter fun other => other.oldPath.isSome
  let underReusedDir := moved.any fun other =>
    other.objType = .dir && other.oldPath.any fun dir => isBelow dir change.path
  if change.opType = .delete &&
      (underReusedDir || moved.any fun other => other.objId = change.objId) then
    { change with superseded := true }
  else change

def TreeAcc.result (acc : TreeAcc Oid) : List (FsChange Oid) :=
  let paired := pairCreated (objToDeleted acc.dropped) acc.created
  sortChanges ((acc.changes ++ acc.dropped.map deleteChange ++ paired).map
    (markSuperseded paired))

def walkTrees (limits : Limits) (store : FsStore Oid) (oldRoot newRoot : Oid) :
    Except AppError (TreeAcc Oid) :=
  levelWalk limits.maxVisits limits.tooDeep limits.tooWide
    (fun frontier acc => .ok (frontier.flatMap fun frame => (treeFrame store frame).next,
      frontier.foldl (fun acc frame => acc.add (treeFrame store frame)) acc))
    limits.maxDepth 0 [⟨some oldRoot, newRoot, []⟩] ⟨[], [], []⟩

def diffTrees (limits : Limits) (store : FsStore Oid) (oldRoot : Option Oid)
    (newRoot : Oid) : Except AppError (List (FsChange Oid)) :=
  match oldRoot with
  | none => (collectEntries limits store newRoot).map fun items =>
    sortChanges (items.map createChange)
  | some oldRoot =>
    if oldRoot = emptySha1 then
      (collectEntries limits store newRoot).map fun items =>
        sortChanges (items.map createChange)
    else (walkTrees limits store oldRoot newRoot).map TreeAcc.result

end Nanofile
