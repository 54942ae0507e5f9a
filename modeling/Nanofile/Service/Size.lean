import Nanofile.Base.Rows
import Nanofile.Fs.Traversal
import Nanofile.Lib.LevelWalk

/-!
# The stored library size

The size of a library is adjusted by the delta of each write, in an addition of
its own after HEAD has moved.  A stored size of zero counts as never computed:
the delta is then replaced by a count of the HEAD tree.
-/

set_option autoImplicit false

namespace Nanofile

open Nanofile.Lib

variable {Oid : Type} [DecidableEq Oid] [Digests Oid]

/-- The directories and the bytes one directory adds; a missing one is skipped. -/
def sizeEntries (store : FsStore Oid) (fsId : Oid) : List Oid × Int :=
  match dirBatch store fsId with
  | none => ([], 0)
  | some data =>
    ((data.dirents.filter fun entry => hasDirBit entry.mode).map DirEntryData.id,
      ((data.dirents.filter fun entry => !hasDirBit entry.mode).map DirEntryData.size).sum)

def sizeLevel (store : FsStore Oid) (frontier : List Oid) (total : Int) :
    Except AppError (List Oid × Int) :=
  .ok (frontier.flatMap fun fsId => (sizeEntries store fsId).1,
    total + (frontier.map fun fsId => (sizeEntries store fsId).2).sum)

def computeTreeSize (limits : Limits) (store : FsStore Oid) (rootFsId : Oid) :
    Except AppError Int :=
  if rootFsId = emptySha1 then .ok 0
  else
    levelWalk limits.maxVisits limits.tooDeep limits.tooWide (sizeLevel store)
      limits.maxDepth 0 [rootFsId] 0

def computeRepoSize (limits : Limits) (repo : Repo Oid) : Except AppError Int :=
  match repo.headCommitId with
  | none => .ok 0
  | some headCommitId =>
    match repo.commits.find headCommitId with
    | none => .error (.notFound "head commit not found")
    | some head => computeTreeSize limits repo.fsObjects head.rootId

/-- `adjust_size`: one atomic addition, clamped at zero. -/
def adjustSize (repo : Repo Oid) (delta : Int) : Repo Oid :=
  { repo with size := max 0 (repo.size + delta) }

/-- Where a call of `adjust_repo_size` stands between two accesses of the database. -/
inductive SizePc where
  /-- About to read the library row. -/
  | reading (delta : Int)
  /-- The size read was zero. -/
  | counting
  | adding (amount : Int)
deriving DecidableEq, Repr

/-- One step of `adjust_repo_size`; no next position when it has returned. -/
def stepSize (limits : Limits) (repo : Repo Oid) :
    SizePc → Except AppError (Repo Oid × Option SizePc)
  | .reading delta => .ok (repo, some (if repo.size = 0 then .counting else .adding delta))
  | .counting =>
    match computeRepoSize limits repo with
    | .error failure => .error failure
    | .ok size => .ok (repo, some (.adding size))
  | .adding amount => .ok (adjustSize repo amount, none)

end Nanofile
