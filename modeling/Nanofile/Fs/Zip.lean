import Nanofile.Fs.BatchResolve
import Nanofile.Fs.Traversal
import Nanofile.Lib.LevelOrder

/-!
# The files of a zip archive

An archive is made of what is selected in a directory: a file by itself, a directory with all
files below it.  The files are gathered before the archive is written, and limits on their
number and their bytes are checked on the way.
-/

set_option autoImplicit false

namespace Nanofile

open Nanofile.Lib

variable {Oid : Type} [DecidableEq Oid] [Digests Oid]

structure ZipFileEntry (Oid : Type) where
  pathInZip : String
  blockIds : List Oid
  size : Int
deriving DecidableEq, Repr

structure ZipLimits where
  maxEntries : Nat
  maxBytes : Nat
deriving DecidableEq, Repr

inductive ZipError where
  | tooManyRequests
  | app (failure : AppError)
deriving DecidableEq, Repr

def checkZipLimits (entries totalBytes : Nat) (limits : ZipLimits) : Except ZipError Unit :=
  if 0 < limits.maxEntries ∧ limits.maxEntries ≤ entries then .error .tooManyRequests
  else if 0 < limits.maxBytes ∧ limits.maxBytes < totalBytes then .error .tooManyRequests
  else .ok ()

def u64Max : Nat := 2 ^ 64 - 1

/-- `total_bytes.saturating_add(size.max(0) as u64)`. -/
def addSize (total : Nat) (size : Int) : Nat := min (total + size.toNat) u64Max

def entryPath (zipPrefix name : String) : String :=
  if zipPrefix = "" then name else zipPrefix ++ "/" ++ name

abbrev ZipNode (Oid : Type) := Oid × String

abbrev ZipFrontier (Oid : Type) := List (ZipNode Oid) × List (ZipNode Oid)

def placeDirent (zipPrefix : String) (frontier : ZipFrontier Oid) (dirent : DirEntryData Oid) :
    ZipFrontier Oid :=
  let node := (dirent.id, entryPath zipPrefix dirent.name)
  if hasDirBit dirent.mode then (frontier.1 ++ [node], frontier.2)
  else (frontier.1, frontier.2 ++ [node])

/-- One directory of a level; what is no stored directory is passed over. -/
def placeDir (store : FsStore Oid) (frontier : ZipFrontier Oid) (node : ZipNode Oid) :
    ZipFrontier Oid :=
  match dirBatch store node.1 with
  | none => frontier
  | some dirData => dirData.dirents.foldl (placeDirent node.2) frontier

def zipLevel (store : FsStore Oid) (limits : ZipLimits) (frontier : List (ZipNode Oid))
    (pendingFiles : List (ZipNode Oid)) :
    Except ZipError (List (ZipNode Oid) × List (ZipNode Oid)) :=
  if 0 < limits.maxEntries ∧ limits.maxEntries ≤ pendingFiles.length then
    .error .tooManyRequests
  else .ok (frontier.foldl (placeDir store) ([], pendingFiles))

def zipEntryOf (path : String) (file : FsFileData Oid) : ZipFileEntry Oid :=
  ⟨path, file.blockIds, file.size⟩

def addZipFile (store : FsStore Oid) (collected : List (ZipFileEntry Oid) × Nat)
    (node : ZipNode Oid) : List (ZipFileEntry Oid) × Nat :=
  match fileBatch store node.1 with
  | none => collected
  | some file => (collected.1 ++ [zipEntryOf node.2 file], addSize collected.2 file.size)

variable [ToString Oid]

def collectDirEntries (walk : Limits) (store : FsStore Oid) (rootFsId : Oid)
    (dirPath zipPrefix : String) (limits : ZipLimits) :
    Except ZipError (List (ZipFileEntry Oid)) := do
  let dirId ←
    if dirPath = "/" then .ok rootFsId
    else
      match resolveFsIdFrom store rootFsId dirPath with
      | .ok dirId => .ok dirId
      | .error failure => .error (.app (.notFound ("Path not found: " ++ toString failure)))
  let pendingFiles ← levelWalk walk.maxVisits (.app walk.tooDeep) (.app walk.tooWide)
    (zipLevel store limits) walk.maxDepth 0 [(dirId, zipPrefix)] []
  let collected := pendingFiles.foldl (addZipFile store) ([], 0)
  checkZipLimits collected.1.length collected.2 limits
  .ok collected.1

/-- The subtrees' files with their bytes, and the files selected by themselves. -/
structure ZipSelection (Oid : Type) where
  allFiles : List (ZipFileEntry Oid)
  totalBytes : Nat
  pendingFiles : List (ZipNode Oid)

def selectName (walk : Limits) (store : FsStore Oid) (rootFsId : Oid) (parentDir : String)
    (dirents : List (DirEntryData Oid)) (limits : ZipLimits) (selection : ZipSelection Oid)
    (name : String) : Except ZipError (ZipSelection Oid) := do
  let entry ←
    match dirents.find? fun dirent => dirent.name = name with
    | some entry => .ok entry
    | none => .error (.app (.notFound ("Entry not found: " ++ name)))
  let selection ←
    if hasDirBit entry.mode then do
      let dirPath := if parentDir = "/" then "/" ++ name else parentDir ++ "/" ++ name
      let subFiles ← collectDirEntries walk store rootFsId dirPath name limits
      .ok { selection with
        allFiles := selection.allFiles ++ subFiles
        totalBytes := subFiles.foldl (fun total file => addSize total file.size)
          selection.totalBytes }
    else .ok { selection with pendingFiles := selection.pendingFiles ++ [(entry.id, name)] }
  checkZipLimits (selection.allFiles.length + selection.pendingFiles.length)
    selection.totalBytes limits
  .ok selection

def addSelected (store : FsStore Oid) (collected : List (ZipFileEntry Oid) × Nat)
    (node : ZipNode Oid) : Except ZipError (List (ZipFileEntry Oid) × Nat) :=
  match fileBatch store node.1 with
  | none => .error (.app (.notFound ("File data not found: " ++ node.2)))
  | some file => .ok (collected.1 ++ [zipEntryOf node.2 file], addSize collected.2 file.size)

def collectSelectedEntries (walk : Limits) (store : FsStore Oid) (rootFsId : Oid)
    (parentDir : String) (names : List String) (limits : ZipLimits) :
    Except ZipError (List (ZipFileEntry Oid)) := do
  let parentDirId ←
    match resolveFsIdFrom store rootFsId parentDir with
    | .ok parentDirId => .ok parentDirId
    | .error failure => .error (.app (.notFound ("Parent dir not found: " ++ toString failure)))
  let dirData ←
    match readFsDirData store parentDirId with
    | .ok dirData => .ok dirData
    | .error failure => .error (.app (.notFound ("Not a directory: " ++ toString failure)))
  let selection ← names.foldlM
    (selectName walk store rootFsId parentDir dirData.dirents limits) ⟨[], 0, []⟩
  let collected ← selection.pendingFiles.foldlM (addSelected store)
    (selection.allFiles, selection.totalBytes)
  checkZipLimits collected.1.length collected.2 limits
  .ok collected.1

end Nanofile
