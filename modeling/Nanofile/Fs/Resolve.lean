import Nanofile.Base.Rows
import Nanofile.Lib.Text

/-!
# Paths in the tree of HEAD

A write resolves its parent directory from the root down and, once that directory
is rewritten, rewrites the ancestors from the bottom up, cutting the last component
off the path text each time.
-/

set_option autoImplicit false

namespace Nanofile

open Nanofile.Lib

variable {Oid : Type} [DecidableEq Oid] [Digests Oid]

def pathComponents (path : String) : List String :=
  (Text.split '/' path).filter fun part => part ≠ ""

/-- The path and id of each directory a resolution passed through. -/
abbrev AncestorChain (Oid : Type) := List (String × Oid)

def resolveRootFsId (repo : Repo Oid) : Except AppError Oid :=
  match repo.headCommitId with
  | none => .error (.notFound "repo has no head commit")
  | some headCommitId =>
    match repo.commits.find headCommitId with
    | none => .error (.notFound "head commit not found")
    | some head => .ok head.rootId

variable [ToString Oid]

def resolveParts (store : FsStore Oid) (path : String) :
    List String → String → Oid → Except AppError (Oid × AncestorChain Oid)
  | [], _, fsId => .ok (fsId, [])
  | part :: rest, passed, fsId => do
      let dir ← readFsDirData store fsId
      let found ← okOr (dir.dirents.find? fun entry => entry.name = part)
        (.notFound ("path component '" ++ part ++ "' not found in '" ++ path ++ "'"))
      ensure (isDir found.mode = true)
        (.notFound ("not a directory: '" ++ part ++ "' in '" ++ path ++ "'"))
      let below ← resolveParts store path rest (passed ++ "/" ++ part) found.id
      .ok (below.1, (passed ++ "/" ++ part, found.id) :: below.2)

def resolveFsIdChainFromRoot (store : FsStore Oid) (rootFsId : Oid) (path : String) :
    Except AppError (Oid × AncestorChain Oid) :=
  if path = "/" ∨ path = "" then .ok (rootFsId, [])
  else resolveParts store path (pathComponents path) "" rootFsId

def resolveFsIdChain (repo : Repo Oid) (path : String) :
    Except AppError (Oid × AncestorChain Oid) := do
  let rootFsId ← resolveRootFsId repo
  resolveFsIdChainFromRoot repo.fsObjects rootFsId path

/-- The walk of `resolve_fs_id`: only the last component may be a file. -/
def resolveSegments (store : FsStore Oid) : List String → Oid → Except AppError Oid
  | [], fsId => .ok fsId
  | segment :: rest, fsId => do
      let dir ← readFsDirData store fsId
      let found ← okOr (dir.dirents.find? fun entry => entry.name = segment)
        (.notFound ("path segment not found: " ++ segment))
      ensure (rest = [] ∨ isDir found.mode = true) (.notFound ("not a directory: " ++ segment))
      resolveSegments store rest found.id

def resolveFsId (repo : Repo Oid) (path : String) : Except AppError Oid := do
  let rootFsId ← resolveRootFsId repo
  if path = "/" then .ok rootFsId
  else resolveSegments repo.fsObjects (pathComponents path) rootFsId

def parentAndName (path : String) : Option (String × String) :=
  (Text.rsplitOnce '/' path).map fun parts =>
    (if parts.1 = "" then "/" else parts.1, parts.2)

/-- The chain as a map: the last pair of a path counts. -/
def chainLookup (chain : AncestorChain Oid) (path : String) : Option Oid :=
  (chain.reverse.find? fun level => level.1 = path).map Prod.snd

/-- Point the first entry of the name at the new child; a missing entry is appended. -/
def setChild (now : Int) (childName : String) (childFsId : Oid) :
    List (DirEntryData Oid) → List (DirEntryData Oid)
  | [] => [⟨childFsId, sIfdir, "", now, childName, 0⟩]
  | entry :: rest =>
    if entry.name = childName then { entry with id := childFsId } :: rest
    else entry :: setChild now childName childFsId rest

/-- The directory a level of the walk rewrites: the root of the tree being rebuilt,
a directory of the chain, or one resolved from HEAD. -/
def ancestorFsId (repo : Repo Oid) (rootOverride : Option Oid) (chain : AncestorChain Oid)
    (parentPath : String) : Except AppError Oid :=
  if parentPath = "/" then
    match rootOverride with
    | some rootFsId => .ok rootFsId
    | none => resolveRootFsId repo
  else
    match chainLookup chain parentPath with
    | some fsId => .ok fsId
    | none => resolveFsId repo parentPath

/-- One level of `walk_up_ancestors`: the ancestor rewritten, its path, the name of
the child and the ancestor's new id. -/
structure WalkLevel (Oid : Type) where
  ancestor : Oid
  parentPath : String
  childName : String
  newAncestor : Oid

/-- No level when the path has no separator left: the child is the new root. -/
def walkUpLevel (now : Int) (repo : Repo Oid) (rootOverride : Option Oid)
    (chain : AncestorChain Oid) (childPath : String) (childFsId : Oid) :
    Except AppError (Option (WalkLevel Oid)) × FsStore Oid :=
  match parentAndName childPath with
  | none => (.ok none, repo.fsObjects)
  | some (parentPath, childName) =>
    let read := do
      let ancestor ← ancestorFsId repo rootOverride chain parentPath
      let data ← readFsDirData repo.fsObjects ancestor
      .ok (ancestor, data)
    match read with
    | .error failure => (.error failure, repo.fsObjects)
    | .ok (ancestor, data) =>
      let stored := storeFsDirObject repo.fsObjects
        { data with dirents := setChild now childName childFsId data.dirents }
      (.ok (some ⟨ancestor, parentPath, childName, stored.1⟩), stored.2)

end Nanofile
