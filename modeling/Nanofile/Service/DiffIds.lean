import Nanofile.Fs.GcHead
import Nanofile.Service.CheckBlocks

/-!
# The ids a client has to download

`fs-id-list` walks the server's tree beside the client's and lists the objects the
client lacks.  The list is sufficient and names only objects of the server's tree;
it advertises the sentinel exactly when the server's root is the sentinel itself,
since the root is listed without the test every entry gets.
-/

set_option autoImplicit false

namespace Nanofile

open Nanofile.Lib

variable {Oid : Type} [DecidableEq Oid] [Digests Oid]

def joinSyncPath (parent name : String) : String :=
  if parent = "" then "/" ++ name else parent ++ "/" ++ name

structure SyncFrame (Oid : Type) where
  clientFsId : Option Oid
  serverFsId : Oid
  path : String
deriving DecidableEq, Repr

/-- The client's directory of a pair; an id that does not resolve counts as absent. -/
def SyncFrame.clientDir (store : FsStore Oid) (frame : SyncFrame Oid) :
    Option (FsDirData Oid) :=
  frame.clientFsId.bind (dirBatch store)

def clientEntry (clientDir : Option (FsDirData Oid)) (name : String) :
    Option (DirEntryData Oid) :=
  clientDir.bind fun dir => lastNamed dir.dirents name

def clientHas (clientDir : Option (FsDirData Oid)) (entry : DirEntryData Oid) : Bool :=
  (clientEntry clientDir entry.name).any fun present => present.id = entry.id

/-- The entries of the server's directory the client has to fetch.  The sentinel is
never advertised. -/
def SyncFrame.missing (store : FsStore Oid) (frame : SyncFrame Oid) :
    List (DirEntryData Oid) :=
  match dirBatch store frame.serverFsId with
  | none => []
  | some serverDir => serverDir.dirents.filter fun entry =>
    entry.id ≠ emptySha1 && !clientHas (frame.clientDir store) entry

def SyncFrame.child (store : FsStore Oid) (frame : SyncFrame Oid)
    (entry : DirEntryData Oid) : SyncFrame Oid :=
  ⟨(clientEntry (frame.clientDir store) entry.name).map DirEntryData.id, entry.id,
    joinSyncPath frame.path entry.name⟩

def SyncFrame.ids (store : FsStore Oid) (dirOnly : Bool) (frame : SyncFrame Oid) : List Oid :=
  ((frame.missing store).filter fun entry => !dirOnly || hasDirBit entry.mode).map
    DirEntryData.id

def SyncFrame.next (store : FsStore Oid) (frame : SyncFrame Oid) : List (SyncFrame Oid) :=
  ((frame.missing store).filter fun entry => hasDirBit entry.mode).map (frame.child store)

def diffIdsLevel (store : FsStore Oid) (dirOnly : Bool) (frontier : List (SyncFrame Oid))
    (result : Finset Oid) : Except AppError (List (SyncFrame Oid) × Finset Oid) :=
  .ok (frontier.flatMap (SyncFrame.next store),
    result ∪ (frontier.flatMap (SyncFrame.ids store dirOnly)).toFinset)

def diffFsIds (limits : Limits) (store : FsStore Oid) (clientRoot serverRoot : Oid)
    (dirOnly : Bool) : Except AppError (Finset Oid) :=
  levelWalk limits.maxVisits limits.tooDeep limits.tooWide (diffIdsLevel store dirOnly)
    limits.maxDepth 0 [⟨some clientRoot, serverRoot, ""⟩] {serverRoot}

/-- An id that a directory of the tree lists under a directory mode. -/
def ListedAsDir (store : FsStore Oid) (root fsId : Oid) : Prop :=
  ∃ above data entry, Reach store root above ∧ dirBatch store above = some data ∧
    entry ∈ data.dirents ∧ entry.id = fsId ∧ hasDirBit entry.mode = true

/-- Every stored object of the server's tree (with `dirOnly`, every directory) is
listed or already in the client's tree. -/
def Sufficient (store : FsStore Oid) (clientRoot serverRoot : Oid) (dirOnly : Bool)
    (listed : Finset Oid) : Prop :=
  ∀ fsId object, Reach store serverRoot fsId → store.find fsId = some object →
    (dirOnly = true → ∃ data, object = .dir data) →
    fsId ∈ listed ∨ Reach store clientRoot fsId

/-- Only objects of the server's tree are listed; with `dirOnly`, besides the root
only what the tree has as a directory. -/
def OnlyServer (store : FsStore Oid) (serverRoot : Oid) (dirOnly : Bool)
    (listed : Finset Oid) : Prop :=
  ∀ fsId ∈ listed, Reach store serverRoot fsId ∧
    (dirOnly = true → fsId = serverRoot ∨ ListedAsDir store serverRoot fsId)

structure DownloadList (store : FsStore Oid) (clientRoot serverRoot : Oid) (dirOnly : Bool)
    (listed : Finset Oid) : Prop where
  sufficient : Sufficient store clientRoot serverRoot dirOnly listed
  onlyServer : OnlyServer store serverRoot dirOnly listed
  noSentinel : emptySha1 ∉ listed

variable {store : FsStore Oid} {frame : SyncFrame Oid} {dirOnly : Bool} {entry : DirEntryData Oid}

theorem mem_missing :
    entry ∈ frame.missing store ↔ ∃ serverDir, dirBatch store frame.serverFsId = some serverDir ∧
      entry ∈ serverDir.dirents ∧ entry.id ≠ emptySha1 ∧
      clientHas (frame.clientDir store) entry = false := by
  unfold SyncFrame.missing
  cases dirBatch store frame.serverFsId with
  | none | some serverDir => simp

theorem mem_ids {fsId : Oid} : fsId ∈ frame.ids store dirOnly ↔
    ∃ entry ∈ frame.missing store, (dirOnly = true → hasDirBit entry.mode = true) ∧
      entry.id = fsId := by
  simp only [SyncFrame.ids, List.mem_map, List.mem_filter, Bool.or_eq_true,
    Bool.not_eq_true']
  refine exists_congr fun entry => ?_
  cases dirOnly <;> simp [and_assoc]

theorem mem_next {child : SyncFrame Oid} : child ∈ frame.next store ↔
    ∃ entry ∈ frame.missing store, hasDirBit entry.mode = true ∧
      frame.child store entry = child := by
  simp [SyncFrame.next, and_assoc]

theorem lists_of_mem_missing (absent : entry ∈ frame.missing store) :
    Lists store frame.serverFsId entry.id := by
  obtain ⟨serverDir, read, listed, -, -⟩ := mem_missing.mp absent
  exact ⟨serverDir, entry, read, listed, rfl⟩

theorem lists_of_clientHas (present : clientHas (frame.clientDir store) entry = true) :
    ∃ clientFsId, frame.clientFsId = some clientFsId ∧ Lists store clientFsId entry.id := by
  simp only [clientHas, clientEntry, Option.any_eq_true, Option.bind_eq_some_iff,
    decide_eq_true_eq] at present
  obtain ⟨held, ⟨clientDir, read, found⟩, sameId⟩ := present
  obtain ⟨clientFsId, isClient, read⟩ := Option.bind_eq_some_iff.mp read
  have listed := List.mem_reverse.mp (List.mem_of_find?_eq_some found)
  exact ⟨clientFsId, isClient, clientDir, held, read, listed, sameId⟩

theorem child_client {childId : Oid}
    (isClient : (frame.child store entry).clientFsId = some childId) :
    ∃ clientFsId, frame.clientFsId = some clientFsId ∧ Lists store clientFsId childId := by
  simp only [SyncFrame.child, Option.map_eq_some_iff, clientEntry,
    Option.bind_eq_some_iff] at isClient
  obtain ⟨held, ⟨clientDir, read, found⟩, sameId⟩ := isClient
  obtain ⟨clientFsId, isClient, read⟩ := Option.bind_eq_some_iff.mp read
  have listed := List.mem_reverse.mp (List.mem_of_find?_eq_some found)
  exact ⟨clientFsId, isClient, clientDir, held, read, listed, sameId⟩

def FramesStand (store : FsStore Oid) (clientRoot serverRoot : Oid)
    (frontier : List (SyncFrame Oid)) : Prop :=
  ∀ frame ∈ frontier, Reach store serverRoot frame.serverFsId ∧
    ∀ clientFsId, frame.clientFsId = some clientFsId → Reach store clientRoot clientFsId

variable {clientRoot serverRoot : Oid} {frontier : List (SyncFrame Oid)}

theorem framesStand_next (stand : FramesStand store clientRoot serverRoot frontier) :
    FramesStand store clientRoot serverRoot (frontier.flatMap (SyncFrame.next store)) := by
  intro child member
  obtain ⟨frame, onFrontier, isNext⟩ := List.mem_flatMap.mp member
  obtain ⟨entry, absent, -, rfl⟩ := mem_next.mp isNext
  obtain ⟨server, client⟩ := stand frame onFrontier
  refine ⟨server.tail (lists_of_mem_missing absent), ?_⟩
  intro childId isClient
  obtain ⟨clientFsId, isHeld, listed⟩ := child_client isClient
  exact (client clientFsId isHeld).tail listed

variable {result : Finset Oid}

theorem onlyServer_level (stand : FramesStand store clientRoot serverRoot frontier)
    (only : OnlyServer store serverRoot dirOnly result) :
    OnlyServer store serverRoot dirOnly
      (result ∪ (frontier.flatMap (SyncFrame.ids store dirOnly)).toFinset) := by
  intro fsId member
  rcases Finset.mem_union.mp member with before | added
  · exact only fsId before
  · obtain ⟨frame, onFrontier, isId⟩ := List.mem_flatMap.mp (List.mem_toFinset.mp added)
    obtain ⟨entry, absent, directory, rfl⟩ := mem_ids.mp isId
    have server := (stand frame onFrontier).1
    obtain ⟨serverDir, read, listed, -, -⟩ := mem_missing.mp absent
    refine ⟨server.tail (lists_of_mem_missing absent), fun only => Or.inr ?_⟩
    exact ⟨frame.serverFsId, serverDir, entry, server, read, listed, rfl, directory only⟩

theorem noSentinel_level (absent : emptySha1 ∉ result) :
    emptySha1 ∉ result ∪ (frontier.flatMap (SyncFrame.ids store dirOnly)).toFinset := by
  intro member
  rcases Finset.mem_union.mp member with before | added
  · exact absent before
  · obtain ⟨frame, -, isId⟩ := List.mem_flatMap.mp (List.mem_toFinset.mp added)
    obtain ⟨entry, isMissing, -, isSentinel⟩ := mem_ids.mp isId
    obtain ⟨-, -, -, nonempty, -⟩ := mem_missing.mp isMissing
    exact nonempty isSentinel

/-- The object of `fsId` is one the list has to account for. -/
def Wanted (store : FsStore Oid) (dirOnly : Bool) (fsId : Oid) : Prop :=
  ∃ object, store.find fsId = some object ∧ (dirOnly = true → ∃ data, object = .dir data)

/-- One pair accounts for what lies below its server side, given that its children do. -/
theorem accounted_frame {out : Finset Oid} (noRow : store.find emptySha1 = none)
    (honest : HonestModes store frame.serverFsId)
    (client : ∀ clientFsId, frame.clientFsId = some clientFsId →
      Reach store clientRoot clientFsId) (ids : ∀ fsId ∈ frame.ids store dirOnly, fsId ∈ out)
    (children : ∀ child ∈ frame.next store, ∀ fsId, Reach store child.serverFsId fsId →
      Wanted store dirOnly fsId →
      fsId = child.serverFsId ∨ fsId ∈ out ∨ Reach store clientRoot fsId) :
    ∀ fsId, Reach store frame.serverFsId fsId → Wanted store dirOnly fsId →
      fsId = frame.serverFsId ∨ fsId ∈ out ∨ Reach store clientRoot fsId := by
  intro fsId reached wanted
  rcases reached.cases_head with rfl | ⟨_, ⟨serverDir, entry, read, listed, rfl⟩, below⟩
  · exact Or.inl rfl
  · refine Or.inr ?_
    by_cases sentinel : entry.id = emptySha1
    · -- Nothing lies below the sentinel, and it has no row.
      exfalso
      obtain ⟨object, found, -⟩ := wanted
      rcases below.cases_head with rfl | ⟨_, ⟨_, _, readBelow, -, -⟩, -⟩
      · rw [sentinel, noRow] at found
        simp at found
      · rw [sentinel, dirBatch_empty] at readBelow
        simp at readBelow
    · cases has : clientHas (frame.clientDir store) entry with
      | true =>
        obtain ⟨clientFsId, isClient, listedThere⟩ := lists_of_clientHas has
        exact Or.inr (((client clientFsId isClient).tail listedThere).trans below)
      | false =>
        have absent : entry ∈ frame.missing store :=
          mem_missing.mpr ⟨serverDir, read, listed, sentinel, has⟩
        have foundDir := (dirBatch_eq_some_iff.mp read).2
        cases directory : hasDirBit entry.mode with
        | true =>
          have isListed : entry.id ∈ out :=
            ids _ (mem_ids.mpr ⟨entry, absent, fun _ => directory, rfl⟩)
          have isChild := mem_next.mpr ⟨entry, absent, directory, rfl⟩
          rcases children _ isChild fsId below wanted with rfl | accounted
          · exact Or.inl isListed
          · exact accounted
        | false =>
          -- A file mode names no stored directory: the object is the entry's own.
          have leaf : ∀ inner, store.find entry.id ≠ some (.dir inner) := by
            intro inner found
            have isDirectory := honest serverDir entry inner foundDir listed found
            rw [directory] at isDirectory
            simp at isDirectory
          rcases below.cases_head with rfl | ⟨_, ⟨inner, _, readBelow, -, -⟩, -⟩
          · refine Or.inl (ids _ (mem_ids.mpr ⟨entry, absent, fun only => ?_, rfl⟩))
            obtain ⟨object, found, isDirectory⟩ := wanted
            obtain ⟨data, rfl⟩ := isDirectory only
            exact absurd found (leaf data)
          · exact absurd (dirBatch_eq_some_iff.mp readBelow).2 (leaf inner)

theorem diffIds_accounts {limits : Limits} (noRow : store.find emptySha1 = none)
    (honest : ∀ fsId, Reach store serverRoot fsId → HonestModes store fsId) {depth visits : Nat}
    {out : Finset Oid} (run : levelWalk limits.maxVisits limits.tooDeep limits.tooWide
      (diffIdsLevel store dirOnly) depth visits frontier result = .ok out) :
    FramesStand store clientRoot serverRoot frontier → result ⊆ out ∧
      ∀ frame ∈ frontier, ∀ fsId, Reach store frame.serverFsId fsId →
        Wanted store dirOnly fsId →
        fsId = frame.serverFsId ∨ fsId ∈ out ∨ Reach store clientRoot fsId := by
  refine levelWalk_rec (P := fun _ frontier result out =>
    FramesStand store clientRoot serverRoot frontier → result ⊆ out ∧
      ∀ frame ∈ frontier, ∀ fsId, Reach store frame.serverFsId fsId →
        Wanted store dirOnly fsId →
        fsId = frame.serverFsId ∨ fsId ∈ out ∨ Reach store clientRoot fsId)
    ?_ ?_ depth visits frontier result out run
  · intro _ result _
    exact ⟨Finset.Subset.refl _, by simp⟩
  · intro _ frontier next result result' out _ level ih stand
    simp only [diffIdsLevel, Except.ok.injEq, Prod.mk.injEq] at level
    obtain ⟨rfl, rfl⟩ := level
    obtain ⟨kept, below⟩ := ih (framesStand_next stand)
    refine ⟨Finset.union_subset_left kept, ?_⟩
    intro frame onFrontier
    obtain ⟨server, client⟩ := stand frame onFrontier
    refine accounted_frame noRow (honest _ server) client ?_ ?_
    · intro fsId isId
      refine kept (Finset.mem_union_right _ (List.mem_toFinset.mpr ?_))
      exact List.mem_flatMap.mpr ⟨frame, onFrontier, isId⟩
    · intro child isNext
      exact below child (List.mem_flatMap.mpr ⟨frame, onFrontier, isNext⟩)

/-- The list `diff_fs_ids` returns is a download list exactly when the server's root
is not the sentinel. -/
theorem diffFsIds_iff {limits : Limits} {clientRoot serverRoot : Oid} {listed : Finset Oid}
    (noRow : store.find emptySha1 = none)
    (honest : ∀ fsId, Reach store serverRoot fsId → HonestModes store fsId)
    (run : diffFsIds limits store clientRoot serverRoot dirOnly = .ok listed) :
    DownloadList store clientRoot serverRoot dirOnly listed ↔ serverRoot ≠ emptySha1 := by
  have start : FramesStand store clientRoot serverRoot [⟨some clientRoot, serverRoot, ""⟩] := by
    intro frame member
    rw [List.mem_singleton.mp member]
    refine ⟨.refl, ?_⟩
    intro clientFsId isClient
    rw [Option.some.inj isClient]
    exact .refl
  obtain ⟨rooted, below⟩ := diffIds_accounts noRow honest run start
  have isListed : serverRoot ∈ listed := rooted (Finset.mem_singleton_self _)
  constructor
  · intro list isSentinel
    exact list.noSentinel (isSentinel ▸ isListed)
  · intro nonempty
    refine ⟨?_, ?_, ?_⟩
    · intro fsId object reached found wanted
      rcases below _ (List.mem_singleton_self _) fsId reached ⟨object, found, wanted⟩ with
        rfl | accounted
      · exact Or.inl isListed
      · exact accounted
    · refine (levelWalk_invariant (I := fun frontier result =>
        FramesStand store clientRoot serverRoot frontier ∧
          OnlyServer store serverRoot dirOnly result) ?_ run ⟨start, ?_⟩).2
      · intro frontier next result result' holds level
        simp only [diffIdsLevel, Except.ok.injEq, Prod.mk.injEq] at level
        obtain ⟨rfl, rfl⟩ := level
        exact ⟨framesStand_next holds.1, onlyServer_level holds.1 holds.2⟩
      · intro fsId member
        rw [Finset.mem_singleton.mp member]
        exact ⟨.refl, fun _ => Or.inl rfl⟩
    · refine levelWalk_invariant (I := fun _ result => emptySha1 ∉ result) ?_ run ?_
      · intro frontier next result result' absent level
        simp only [diffIdsLevel, Except.ok.injEq, Prod.mk.injEq] at level
        obtain ⟨rfl, rfl⟩ := level
        exact noSentinel_level absent
      · exact fun member => nonempty (Finset.mem_singleton.mp member).symm

def sharedDocs : FsDirData FreeId :=
  directory [fileEntry "b" (.atom 2) 1, fileEntry "a" (.atom 1) 1]

def clientTree : FsDirData FreeId := directory [fileEntry "a" (.atom 1) 1]

def serverTree : FsDirData FreeId :=
  directory [dirEntry "empty" .empty, dirEntry "docs" (Digests.dirId sharedDocs)]

def sharedStore : FsStore FreeId :=
  ⟨[(Digests.dirId clientTree, .dir clientTree.written),
    (Digests.dirId serverTree, .dir serverTree.written),
    (Digests.dirId sharedDocs, .dir sharedDocs.written),
    (.atom 1, .file ⟨[], 1, seafMetadataTypeFile, 1⟩),
    (.atom 2, .file ⟨[], 1, seafMetadataTypeFile, 1⟩)]⟩

theorem diffFsIds_iff_shared : ∃ listed,
    diffFsIds defaultLimits sharedStore (Digests.dirId clientTree) (Digests.dirId serverTree)
      false = .ok listed ∧
    (DownloadList sharedStore (Digests.dirId clientTree) (Digests.dirId serverTree) false
      listed ↔ Digests.dirId serverTree ≠ emptySha1) := by
  have ran : (diffFsIds defaultLimits sharedStore (Digests.dirId clientTree)
      (Digests.dirId serverTree) false).isOk = true := by decide +kernel
  cases run : diffFsIds defaultLimits sharedStore (Digests.dirId clientTree)
      (Digests.dirId serverTree) false with
  | error failure => simp [run, Except.isOk, Except.toBool] at ran
  | ok listed =>
    exact ⟨listed, rfl, diffFsIds_iff (by decide) (fun fsId _ =>
      honestModes_of_check (by decide) fsId) run⟩

/-- Emptying the library makes the server advertise an object that does not exist. -/
theorem emptied_library_advertised :
    diffFsIds defaultLimits sharedStore (Digests.dirId clientTree) .empty false =
      .ok {.empty} ∧
    ¬ DownloadList sharedStore (Digests.dirId clientTree) .empty false {.empty} := by
  refine ⟨by decide +kernel, fun list => ?_⟩
  exact list.noSentinel (Finset.mem_singleton_self _)

end Nanofile
