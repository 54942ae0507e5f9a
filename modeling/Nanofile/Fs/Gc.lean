import Mathlib.Data.Finset.Union
import Nanofile.Base.Rows
import Nanofile.Fs.Traversal
import Nanofile.Lib.LevelWalk

/-!
# The garbage collector

For every library: the retained commits are chosen, the trees of their roots are
marked, unmarked fs objects and unretained commits are deleted when the library
has retention limits, and blocks no marked file names are removed unless they are
younger than the grace window.
-/

set_option autoImplicit false

namespace Nanofile

open Nanofile.Lib

variable {Oid : Type} [DecidableEq Oid]

def secsPerDay : Int := 86400

structure GcPolicy where
  minBlockAgeSecs : Nat
  verifyHead : Bool
deriving DecidableEq, Repr

def GcPolicy.new (minBlockAgeSecs : Nat) : GcPolicy := ⟨minBlockAgeSecs, true⟩

def GcPolicy.immediate : GcPolicy := ⟨0, false⟩

/-- What a pass reads besides the rows.  `order` is the order in which a hash map
gives back the objects of a frontier. -/
structure GcEnv (Oid : Type) where
  limits : Limits
  policy : GcPolicy
  now : Int
  order : List Oid → List Oid
  order_perm : ∀ frontier, (order frontier).Perm frontier

/-- `a` comes before `b` in the order by `ctime` and then primary key, newest first. -/
def CommitRow.newer (a b : CommitRow Oid) : Bool :=
  b.ctime < a.ctime || (b.ctime = a.ctime && b.id < a.id)

def orderedByCtimeDesc (rows : List (CommitRow Oid)) : List (CommitRow Oid) :=
  rows.insertionSort fun a b => !b.newer a

/-- The commits `compute_keep_commits` inserts: the newest ones, the recent ones, and
all of them when there are no limits. -/
def keepRows (commits : List (CommitRow Oid)) (historyLimit historyTtlDays now : Int) :
    List (CommitRow Oid) :=
  let cutoff := now - historyTtlDays * secsPerDay
  (if 0 < historyLimit then commits.take historyLimit.toNat else []) ++
    (if 0 < historyTtlDays then commits.filter fun row => cutoff ≤ row.ctime else []) ++
    (if historyLimit = 0 ∧ historyTtlDays = 0 then commits else [])

def computeKeepCommits (commits : List (CommitRow Oid)) (historyLimit historyTtlDays now : Int) :
    Finset Nat :=
  ((keepRows commits historyLimit historyTtlDays now).map CommitRow.id).toFinset

variable [Digests Oid]

/-- One entry of a directory: its decoded id is collected, and a directory whose bytes
are seen for the first time goes on the next frontier, under the id as it is listed. -/
def collectEntry (state : List Oid × Finset Oid) (entry : DirEntryData Oid) :
    List Oid × Finset Oid :=
  if decodeSha1Hex entry.id ∈ state.2 then state
  else (if hasDirBit entry.mode then state.1 ++ [entry.id] else state.1,
    insert (decodeSha1Hex entry.id) state.2)

def collectObject (store : FsStore Oid) (state : List Oid × Finset Oid) (fsId : Oid) :
    List Oid × Finset Oid :=
  match store.find fsId with
  | some (.dir data) => data.dirents.foldl collectEntry state
  | _ => state

def collectLevel (env : GcEnv Oid) (store : FsStore Oid) (frontier : List Oid)
    (collected : Finset Oid) : Except AppError (List Oid × Finset Oid) :=
  .ok ((env.order frontier).foldl (collectObject store) ([], collected))

def collectFsIds (env : GcEnv Oid) (store : FsStore Oid) (rootId : Oid)
    (collected : Finset Oid) : Except AppError (Finset Oid) :=
  if decodeSha1Hex rootId ∈ collected then .ok collected
  else
    levelWalk env.limits.maxVisits env.limits.tooDeep env.limits.tooWide
      (collectLevel env store) env.limits.maxDepth 0 [rootId]
      (insert (decodeSha1Hex rootId) collected)

/-- The ids reachable from the retained commits, one root after the other. -/
def collectRoots (env : GcEnv Oid) (store : FsStore Oid) :
    List (CommitRow Oid) → Finset Oid → Except AppError (Finset Oid)
  | [], collected => .ok collected
  | row :: rest, collected =>
    match collectFsIds env store row.rootId collected with
    | .error failure => .error failure
    | .ok collected => collectRoots env store rest collected

def aliveBlocks (store : FsStore Oid) (reachable : Finset Oid) : Finset Oid :=
  reachable.biUnion fun fsId =>
    ((fileBatch store fsId).map fun file => file.blockIds.toFinset).getD ∅

def collectRepoAliveBlocks (env : GcEnv Oid) (store : FsStore Oid)
    (commits : List (CommitRow Oid)) (keep : Finset Nat) :
    Except AppError (Finset Oid × Finset Oid) :=
  match collectRoots env store (commits.filter fun row => row.id ∈ keep) ∅ with
  | .error failure => .error failure
  | .ok reachable => .ok (reachable, aliveBlocks store reachable)

/-- `prune_repo`: the number of deleted fs objects and the library left. -/
def pruneRepo (repo : Repo Oid) (commits : List (CommitRow Oid)) (keep : Finset Nat)
    (activeFsIds : Finset Oid) : Nat × Repo Oid :=
  if keep.card = commits.length then (0, repo)
  else
    ((repo.fsObjects.rows.filter fun row => decodeSha1Hex row.1 ∉ activeFsIds).length,
      { repo with
        fsObjects := repo.fsObjects.keepKeys fun fsId => decodeSha1Hex fsId ∈ activeFsIds
        commits := repo.commits.keepIds fun id => id ∈ keep })

def repoHeadMoved (current snapshot : Repo Oid) : Bool :=
  current.headCommitId != snapshot.headCommitId

def skippedFresh (env : GcEnv Oid) (modified : Int) : Bool :=
  0 < env.policy.minBlockAgeSecs && env.now - modified < env.policy.minBlockAgeSecs

def removeOrphans (env : GcEnv Oid) (alive : Finset Oid) (blocks : Table Oid Int) :
    Nat × Table Oid Int :=
  let doomed := fun block => block ∉ alive ∧
    (blocks.find block).all (fun modified => !skippedFresh env modified)
  ((blocks.rows.filter fun row => doomed row.1).length,
    blocks.keepKeys fun block => ¬ doomed block)

def collectRepo (env : GcEnv Oid) (repo : Repo Oid) : Except AppError (Nat × Repo Oid) :=
  let commits := orderedByCtimeDesc repo.commits.rows
  if commits.isEmpty then .ok (0, repo)
  else
    let keep := computeKeepCommits commits repo.historyLimit repo.historyTtlDays env.now
    match collectRepoAliveBlocks env repo.fsObjects commits keep with
    | .error failure => .error failure
    | .ok (reachable, alive) =>
      let pruned := if repo.historyLimit ≠ 0 ∨ repo.historyTtlDays ≠ 0 then
        pruneRepo repo commits keep reachable else (0, repo)
      if env.policy.verifyHead && repoHeadMoved pruned.2 repo then .ok pruned
      else
        let swept := removeOrphans env alive pruned.2.blocks
        .ok (pruned.1 + swept.1, { pruned.2 with blocks := swept.2 })

/-- The server: its libraries, the block directories whose library row is gone, and
the ids of libraries in the trash. -/
structure Server (Oid : Type) where
  repos : List (Repo Oid)
  strayDirs : List String
  deletedRepos : List String

/-- The libraries one after the other; the first failure ends the pass. -/
def collectRepos (env : GcEnv Oid) : List (Repo Oid) → Except AppError Nat × List (Repo Oid)
  | [] => (.ok 0, [])
  | repo :: rest =>
    match collectRepo env repo with
    | .error failure => (.error failure, repo :: rest)
    | .ok (removed, repo) =>
      match collectRepos env rest with
      | (.error failure, rest) => (.error failure, repo :: rest)
      | (.ok others, rest) => (.ok (removed + others), repo :: rest)

/-- `sweep_orphan_repo_dirs`: directories of libraries in the trash are kept. -/
def sweepOrphanRepoDirs (server : Server Oid) : Nat × Server Oid :=
  let kept := server.strayDirs.filter fun id => id ∈ server.deletedRepos
  (server.strayDirs.length - kept.length, { server with strayDirs := kept })

def garbageCollect (env : GcEnv Oid) (server : Server Oid) :
    Except AppError Nat × Server Oid :=
  match collectRepos env server.repos with
  | (.error failure, repos) => (.error failure, { server with repos })
  | (.ok removed, repos) =>
    let swept := sweepOrphanRepoDirs { server with repos }
    (.ok (removed + swept.1), swept.2)

end Nanofile
