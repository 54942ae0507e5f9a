import Nanofile.Fs.Tree

/-!
# The rows of a library

One library is its row in `repos` with the commits, fs objects and blocks stored
under its id; libraries share nothing.  The commit table carries its two unique
indexes: the primary key and `(repo_id, commit_id)`.  A commit is named by the hash of
its root, its creator, its texts and its time; the hash does not cover the parents.
-/

set_option autoImplicit false

namespace Nanofile

open Nanofile.Lib

section Tables

variable {Oid : Type} [DecidableEq Oid]

structure CommitRow (Oid : Type) where
  /-- The auto-increment primary key. -/
  id : Nat
  commitId : Oid
  rootId : Oid
  parentId : Option Oid
  secondParentId : Option Oid
  creatorName : String
  creator : Oid
  description : String
  ctime : Int
  newMerge : Option Bool
  conflict : Option Bool
deriving DecidableEq, Repr

structure CommitTable (Oid : Type) where
  rows : List (CommitRow Oid)
  ids_nodup : (rows.map CommitRow.id).Nodup
  commitIds_nodup : (rows.map CommitRow.commitId).Nodup

namespace CommitTable

def empty : CommitTable Oid := ⟨[], List.nodup_nil, List.nodup_nil⟩

def find (table : CommitTable Oid) (commitId : Oid) : Option (CommitRow Oid) :=
  table.rows.find? fun row => row.commitId = commitId

/-- `delete_many_by_ids`, given the primary keys that stay. -/
def keepIds (table : CommitTable Oid) (keep : Nat → Bool) : CommitTable Oid where
  rows := table.rows.filter fun row => keep row.id
  ids_nodup := table.ids_nodup.sublist (List.filter_sublist.map _)
  commitIds_nodup := table.commitIds_nodup.sublist (List.filter_sublist.map _)

variable {table : CommitTable Oid} {commitId : Oid} {row : CommitRow Oid}

theorem find_eq_some_iff :
    table.find commitId = some row ↔ row ∈ table.rows ∧ row.commitId = commitId :=
  find?_key_iff CommitRow.commitId table.commitIds_nodup

theorem find_keepIds {keep : Nat → Bool} (found : table.find commitId = some row) :
    (table.keepIds keep).find commitId = if keep row.id then some row else none := by
  obtain ⟨listed, rfl⟩ := find_eq_some_iff.mp found
  split
  · rename_i kept
    exact find_eq_some_iff.mpr ⟨List.mem_filter.mpr ⟨listed, kept⟩, rfl⟩
  · rename_i dropped
    cases still : (table.keepIds keep).find row.commitId with
    | none => rfl
    | some other =>
      obtain ⟨listed', sameId⟩ := find_eq_some_iff.mp still
      obtain ⟨listed', kept⟩ := List.mem_filter.mp listed'
      have same : other = row :=
        List.inj_on_of_nodup_map table.commitIds_nodup listed' listed sameId
      exact absurd (same ▸ kept) dropped

theorem find_of_find_keepIds {keep : Nat → Bool}
    (found : (table.keepIds keep).find commitId = some row) : table.find commitId = some row := by
  obtain ⟨listed, named⟩ := find_eq_some_iff.mp found
  exact find_eq_some_iff.mpr ⟨List.mem_of_mem_filter listed, named⟩

def nextId (table : CommitTable Oid) : Nat :=
  (table.rows.map CommitRow.id).foldr max 0 + 1

omit [DecidableEq Oid] in
theorem lt_nextId (listed : row ∈ table.rows) : row.id < table.nextId := by
  have bound : ∀ (ids : List Nat), row.id ∈ ids → row.id ≤ ids.foldr max 0 := by
    intro ids
    induction ids with
    | nil => simp
    | cons first rest ih =>
      intro member
      rcases List.mem_cons.mp member with same | member
      · exact same ▸ Nat.le_max_left _ _
      · exact (ih member).trans (Nat.le_max_right _ _)
  exact Nat.lt_succ_of_le (bound _ (List.mem_map_of_mem listed))

/-- `insert_commit`; `none` when the id is taken, which the unique index refuses. -/
def insertCommit (table : CommitTable Oid) (row : CommitRow Oid) : Option (CommitTable Oid) :=
  if absent : table.find row.commitId = none then
    some {
      rows := table.rows ++ [{ row with id := table.nextId }]
      ids_nodup := by
        rw [List.map_append, List.nodup_append]
        refine ⟨table.ids_nodup, List.nodup_singleton _, ?_⟩
        intro taken member fresh isFresh same
        obtain ⟨other, listed, rfl⟩ := List.mem_map.mp member
        have below := lt_nextId listed
        simp only [List.map_cons, List.map_nil, List.mem_singleton] at isFresh
        omega
      commitIds_nodup := by
        rw [List.map_append, List.nodup_append]
        refine ⟨table.commitIds_nodup, List.nodup_singleton _, ?_⟩
        intro taken member fresh isFresh same
        obtain ⟨other, listed, rfl⟩ := List.mem_map.mp member
        simp only [List.map_cons, List.map_nil, List.mem_singleton] at isFresh
        have unused := List.find?_eq_none.mp absent other listed
        exact unused (by simpa using same.trans isFresh) }
  else none

variable {after : CommitTable Oid}

theorem find_insertCommit (inserted : table.insertCommit row = some after) (commitId : Oid) :
    after.find commitId = if commitId = row.commitId then some { row with id := table.nextId }
      else table.find commitId := by
  unfold insertCommit at inserted
  split at inserted
  · rename_i absent
    cases inserted
    split
    · rename_i same
      subst same
      refine find_eq_some_iff.mpr ⟨?_, rfl⟩
      simp
    · rename_i different
      simp [find, List.find?_append, Ne.symm different]
  · simp at inserted

theorem find_inserted (inserted : table.insertCommit row = some after) :
    after.find row.commitId = some { row with id := table.nextId } := by
  rw [find_insertCommit inserted, if_pos rfl]

theorem insertCommit_fresh (inserted : table.insertCommit row = some after) :
    table.find row.commitId = none := by
  unfold insertCommit at inserted
  split at inserted
  · assumption
  · simp at inserted

/-- Rows are only added. -/
def Extends (before after : CommitTable Oid) : Prop :=
  ∀ commitId row, before.find commitId = some row → after.find commitId = some row

theorem Extends.refl (table : CommitTable Oid) : Extends table table :=
  fun _ _ found => found

theorem extends_insertCommit (inserted : table.insertCommit row = some after) :
    Extends table after := by
  intro commitId present found
  rw [find_insertCommit inserted]
  split
  · rename_i same
    rw [same, insertCommit_fresh inserted] at found
    simp at found
  · exact found

omit [DecidableEq Oid] in
theorem keepIds_true (table : CommitTable Oid) : table.keepIds (fun _ => true) = table := by
  simp [keepIds]

end CommitTable

/-- A library.  `blocks` maps a stored block to its modification time. -/
structure Repo (Oid : Type) where
  id : String
  headCommitId : Option Oid
  size : Int
  historyLimit : Int
  historyTtlDays : Int
  commits : CommitTable Oid
  fsObjects : FsStore Oid
  blocks : Table Oid Int

variable [Digests Oid]

/-- `other` is listed in the stored directory `fsId`. -/
def Lists (store : FsStore Oid) (fsId other : Oid) : Prop :=
  ∃ data entry, dirBatch store fsId = some data ∧ entry ∈ data.dirents ∧ entry.id = other

/-- The ids reachable from a root through stored directories. -/
def Reach (store : FsStore Oid) : Oid → Oid → Prop :=
  Relation.ReflTransGen (Lists store)

/-- The object of an id is stored, and every block it names is held. -/
def Present (store : FsStore Oid) (Held : Oid → Prop) (fsId : Oid) : Prop :=
  fsId ≠ emptySha1 → ∃ object, store.find fsId = some object ∧
    ∀ file, object = .file file → ∀ block ∈ file.blockIds, Held block

def CompleteIn (store : FsStore Oid) (Held : Oid → Prop) (root : Oid) : Prop :=
  ∀ fsId, Reach store root fsId → Present store Held fsId

/-- Every object and every block reachable from the root exists. -/
abbrev Complete (store : FsStore Oid) (blocks : Table Oid Int) (root : Oid) : Prop :=
  CompleteIn store (fun block => (blocks.find block).isSome = true) root

def HeadComplete (repo : Repo Oid) : Prop :=
  ∃ headId row, repo.headCommitId = some headId ∧ repo.commits.find headId = some row ∧
    Complete repo.fsObjects repo.blocks row.rootId

variable {store : FsStore Oid} {root : Oid}

theorem reach_subset {P : Oid → Prop} (start : P root)
    (closed : ∀ fsId other, P fsId → Lists store fsId other → P other) :
    ∀ fsId, Reach store root fsId → P fsId := by
  intro fsId reached
  induction reached with
  | refl => exact start
  | tail _ listed ih => exact closed _ _ ih listed

variable {before after : FsStore Oid} {fsId : Oid}

theorem reach_mono (grown : Table.Extends before after) (reached : Reach before root fsId) :
    Reach after root fsId := by
  refine Relation.ReflTransGen.mono ?_ _ _ reached
  rintro first second ⟨data, entry, read, listed, same⟩
  exact ⟨data, entry, dirBatch_extends grown read, listed, same⟩

variable {data : FsDirData Oid}

theorem dirBatch_eq_some_iff :
    dirBatch store fsId = some data ↔
      fsId ≠ emptySha1 ∧ store.find fsId = some (.dir data) := by
  unfold dirBatch
  split
  · rename_i sentinel
    simp [sentinel]
  · rename_i nonempty
    rcases found : store.find fsId with _ | _ | _ <;> simp [nonempty]

/-- Objects, blocks and commits are only added. -/
structure Grows (before after : Repo Oid) : Prop where
  fsObjects : Table.Extends before.fsObjects after.fsObjects
  blocks : ∀ block, (before.blocks.find block).isSome = true →
    (after.blocks.find block).isSome = true
  commits : CommitTable.Extends before.commits after.commits

omit [Digests Oid] in
theorem Grows.refl (repo : Repo Oid) : Grows repo repo :=
  ⟨Table.Extends.refl _, fun _ stored => stored, CommitTable.Extends.refl _⟩

theorem eq_empty_of_reach (reached : Reach store emptySha1 fsId) : fsId = emptySha1 := by
  refine reach_subset (P := fun other => other = emptySha1) rfl ?_ fsId reached
  rintro other listed rfl ⟨data, entry, read, -, -⟩
  rw [dirBatch_empty] at read
  simp at read

theorem complete_empty (store : FsStore Oid) (Held : Oid → Prop) :
    CompleteIn store Held emptySha1 := by
  intro fsId reached nonempty
  exact absurd (eq_empty_of_reach reached) nonempty

variable {blocks : Table Oid Int} {Held : Oid → Prop}

theorem complete_dir (read : dirBatch store fsId = some data)
    (each : ∀ entry ∈ data.dirents, CompleteIn store Held entry.id) :
    CompleteIn store Held fsId := by
  obtain ⟨nonempty, found⟩ := dirBatch_eq_some_iff.mp read
  intro other reached
  rcases Relation.ReflTransGen.cases_head reached with rfl | ⟨next, ⟨data', entry, read', listed,
    rfl⟩, reached⟩
  · intro _
    exact ⟨.dir data, found, fun file isFile => by simp at isFile⟩
  · rw [read, Option.some.injEq] at read'
    subst read'
    exact each entry listed other reached

theorem complete_file {file : FsFileData Oid} (found : store.find fsId = some (.file file))
    (stored : ∀ block ∈ file.blockIds, Held block) : CompleteIn store Held fsId := by
  intro other reached
  rcases Relation.ReflTransGen.cases_head reached with rfl | ⟨next, ⟨data, entry, read, -, -⟩, -⟩
  · intro _
    refine ⟨.file file, found, fun file' isFile block listed => ?_⟩
    cases isFile
    exact stored block listed
  · rw [(dirBatch_eq_some_iff.mp read).2] at found
    simp at found

theorem CompleteIn.imp {Held' : Oid → Prop} (complete : CompleteIn store Held root)
    (weaker : ∀ block, Held block → Held' block) : CompleteIn store Held' root := by
  intro fsId reached nonempty
  obtain ⟨object, found, held⟩ := complete fsId reached nonempty
  exact ⟨object, found, fun file isFile block listed =>
    weaker block (held file isFile block listed)⟩

theorem Complete.entry {entry : DirEntryData Oid} (complete : Complete store blocks fsId)
    (read : dirBatch store fsId = some data) (listed : entry ∈ data.dirents) :
    Complete store blocks entry.id :=
  fun other reached => complete other
    (Relation.ReflTransGen.head ⟨data, entry, read, listed, rfl⟩ reached)

theorem Complete.reach_of_grown (complete : Complete before blocks root)
    (grown : Table.Extends before after) :
    ∀ fsId, Reach after root fsId → Reach before root fsId := by
  refine reach_subset .refl ?_
  rintro fsId other reached ⟨data, entry, read, listed, rfl⟩
  obtain ⟨nonempty, found⟩ := dirBatch_eq_some_iff.mp read
  obtain ⟨object, present, -⟩ := complete fsId reached nonempty
  have same : object = .dir data := by
    have grownFound := grown fsId object present
    rw [found, Option.some.injEq] at grownFound
    exact grownFound.symm
  subst same
  exact reached.tail ⟨data, entry, dirBatch_eq_some_iff.mpr ⟨nonempty, present⟩, listed, rfl⟩

theorem Complete.mono {blocks' : Table Oid Int} (grown : Table.Extends before after)
    (kept : ∀ block, (blocks.find block).isSome = true → (blocks'.find block).isSome = true)
    (complete : Complete before blocks root) : Complete after blocks' root := by
  intro fsId reached nonempty
  obtain ⟨object, present, stored⟩ := complete fsId (complete.reach_of_grown grown fsId reached)
    nonempty
  refine ⟨object, grown fsId object present, fun file isFile block listed => ?_⟩
  exact kept block (stored file isFile block listed)

/-- A file of the tree names the block. -/
def NeedsBlock (store : FsStore Oid) (root block : Oid) : Prop :=
  ∃ fsId file, Reach store root fsId ∧ fsId ≠ emptySha1 ∧
    store.find fsId = some (.file file) ∧ block ∈ file.blockIds

theorem Complete.of_kept {store' : FsStore Oid} {blocks' : Table Oid Int}
    (complete : Complete store blocks root) (smaller : Table.Extends store' store)
    (objects : ∀ fsId, Reach store root fsId → store'.find fsId = store.find fsId)
    (stored : ∀ block, NeedsBlock store root block → blocks'.find block = blocks.find block) :
    Complete store' blocks' root := by
  intro fsId reached nonempty
  have before := reach_mono smaller reached
  obtain ⟨object, found, named⟩ := complete fsId before nonempty
  refine ⟨object, (objects fsId before).trans found, ?_⟩
  rintro file rfl block listed
  rw [stored block ⟨fsId, file, before, nonempty, found, listed⟩]
  exact named file rfl block listed

theorem Complete.grows {before after : Repo Oid} (grown : Grows before after)
    (complete : Complete before.fsObjects before.blocks root) :
    Complete after.fsObjects after.blocks root :=
  complete.mono grown.fsObjects grown.blocks

theorem StandsFor.complete_iff {entries : List (DirEntryData Oid)}
    (stands : StandsFor store fsId entries) :
    Complete store blocks fsId ↔ ∀ entry ∈ entries, Complete store blocks entry.id := by
  rcases stands with ⟨rfl, rfl⟩ | ⟨data, read, rfl⟩
  · simp [complete_empty]
  · exact ⟨fun complete entry listed => complete.entry read listed, complete_dir read⟩

/-- `Complete` by evaluation, over a list that is meant to hold every reachable id. -/
def completeCheck (store : FsStore Oid) (blocks : Table Oid Int) (root : Oid)
    (ids : List Oid) : Bool :=
  decide (root ∈ ids) && ids.all fun fsId =>
    decide (fsId = emptySha1) || match store.find fsId with
      | none => false
      | some (.file file) => file.blockIds.all fun block => (blocks.find block).isSome
      | some (.dir data) => data.dirents.all fun entry => decide (entry.id ∈ ids)

theorem complete_of_check (ids : List Oid) (checked : completeCheck store blocks root ids = true) :
    Complete store blocks root := by
  simp only [completeCheck, Bool.and_eq_true, decide_eq_true_eq, List.all_eq_true,
    Bool.or_eq_true] at checked
  obtain ⟨start, each⟩ := checked
  have inside : ∀ fsId, Reach store root fsId → fsId ∈ ids := by
    refine reach_subset start ?_
    rintro fsId other member ⟨data, entry, read, listed, rfl⟩
    obtain ⟨nonempty, found⟩ := dirBatch_eq_some_iff.mp read
    have here := (each fsId member).resolve_left nonempty
    rw [found] at here
    simp only [List.all_eq_true, decide_eq_true_eq] at here
    exact here entry listed
  intro fsId reached nonempty
  have here := (each fsId (inside fsId reached)).resolve_left nonempty
  cases found : store.find fsId with
  | none => simp [found] at here
  | some object =>
    refine ⟨object, rfl, ?_⟩
    rintro file rfl
    rw [found] at here
    simpa using here

end Tables

variable {Oid : Type} [DecidableEq Oid] [Digests Oid]

/-- `CommitData`, without the library's name and encryption settings. -/
structure CommitData (Oid : Type) where
  commitId : Oid
  repoId : String
  rootId : Oid
  creatorName : String
  creator : Oid
  description : String
  ctime : Int
  parentId : Option Oid
  secondParentId : Option Oid
  newMerge : Option Int
  conflict : Option Int
deriving DecidableEq, Repr

def computeCommitIdWithEmptyName (data : CommitData Oid) (includeEmptyName : Bool) : Oid :=
  Digests.commitId data.rootId data.creator
    ((if data.creatorName ≠ "" || includeEmptyName then [data.creatorName] else []) ++
      [data.description]) data.ctime

def computeCommitId (data : CommitData Oid) : Oid := computeCommitIdWithEmptyName data false

def CommitData.row (data : CommitData Oid) : CommitRow Oid :=
  ⟨0, data.commitId, data.rootId, data.parentId, data.secondParentId, data.creatorName,
    data.creator, data.description, data.ctime, data.newMerge.map fun flag => flag ≠ 0,
    data.conflict.map fun flag => flag ≠ 0⟩

/-- `test_and_update_head_commit`: whether the swap took place. -/
def testAndUpdateHeadCommit (repo : Repo Oid) (expected : Option Oid) (target : Oid) :
    Bool × Repo Oid :=
  if repo.headCommitId = expected then (true, { repo with headCommitId := some target })
  else (false, repo)

/-- The id of every commit row is the hash of its fields. -/
def Hashed (row : CommitRow Oid) : Prop :=
  ∃ texts, row.commitId = Digests.commitId row.rootId row.creator texts row.ctime

def AllHashed (commits : CommitTable Oid) : Prop :=
  ∀ commitId row, commits.find commitId = some row → Hashed row

theorem allHashed_insert {commits after : CommitTable Oid} {row : CommitRow Oid}
    (hashed : AllHashed commits) (isHashed : Hashed row)
    (inserted : commits.insertCommit row = some after) : AllHashed after := by
  intro commitId other found
  rw [CommitTable.find_insertCommit inserted] at found
  split at found
  · cases found
    exact isHashed
  · exact hashed commitId other found

omit [DecidableEq Oid] in
theorem Hashed.rootId_eq {row other : CommitRow Oid} (first : Hashed row)
    (second : Hashed other) (sameId : row.commitId = other.commitId) :
    row.rootId = other.rootId ∧ row.ctime = other.ctime := by
  obtain ⟨texts, isHash⟩ := first
  obtain ⟨texts', isHash'⟩ := second
  rw [isHash, isHash'] at sameId
  exact Digests.commitId_fields sameId

omit [DecidableEq Oid] in
theorem hashed_computeCommitId (data : CommitData Oid) (includeEmptyName : Bool)
    (isHash : data.commitId = computeCommitIdWithEmptyName data includeEmptyName) :
    Hashed data.row :=
  ⟨_, isHash⟩

end Nanofile
