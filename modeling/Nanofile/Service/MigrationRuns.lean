import Nanofile.Service.BlockMigration

/-!
# What a migration keeps

A run whose looks at the blocks do not fail removes legacy directories only when every block that
a row of `fs_objects` references has been copied.  The archive of deleted libraries is not read,
so their blocks are kept exactly when the live rows reference them as well.
-/

set_option autoImplicit false

namespace Nanofile

open Nanofile.Lib

variable {blockIds : String → Option (List String)} {db : LibraryDb} {start disk : MigrationDisk}

/-! ## The statement -/

/-- The block is in the directory of the repository, with these bytes. -/
def StoredAs (disk : MigrationDisk) (ref : String × String) (data : List UInt8) : Prop :=
  ∃ file, BlockTree.findBlock disk.files ref.1 ref.2 = some file ∧ file.data = data

/-- What the legacy tree had under the id of the block is stored. -/
def Migrated (start disk : MigrationDisk) (ref : String × String) : Prop :=
  MigrationDisk.isValidBlockId ref.2 = true → ∀ data, start.legacyBlock ref.2 = some data →
    StoredAs disk ref data

def LiveReferenced (blockIds : String → Option (List String)) (db : LibraryDb)
    (ref : String × String) : Prop := ref ∈ tableReferences blockIds db.fsObjects

/-- A restore would bring back a file object that references the block. -/
def TrashReferenced (blockIds : String → Option (List String)) (db : LibraryDb)
    (ref : String × String) : Prop :=
  ref ∈ tableReferences blockIds db.archivedFsObjects ∧ (db.findDeleted ref.1).isSome = true

/-- Every block of a live or restorable library is in its directory. -/
def BlocksMigrated (blockIds : String → Option (List String)) (db : LibraryDb)
    (start disk : MigrationDisk) : Prop :=
  ∀ ref, LiveReferenced blockIds db ref ∨ TrashReferenced blockIds db ref →
    Migrated start disk ref

/-- What the trash needs of the legacy tree a live row of the library references too, or it was
stored before. -/
def TrashCovered (blockIds : String → Option (List String)) (db : LibraryDb)
    (start : MigrationDisk) : Prop :=
  ∀ ref, TrashReferenced blockIds db ref → LiveReferenced blockIds db ref ∨
    Migrated start start ref

/-- Where a live block is stored already, a file of its length has its bytes. -/
def StoredAgree (blockIds : String → Option (List String)) (db : LibraryDb)
    (start : MigrationDisk) : Prop :=
  ∀ ref, LiveReferenced blockIds db ref → MigrationDisk.isValidBlockId ref.2 = true →
    ∀ data, start.legacyBlock ref.2 = some data → ∀ file,
      BlockTree.findBlock start.files ref.1 ref.2 = some file →
        file.data.length = data.length → file.data = data

def MigrationSafe (blockIds : String → Option (List String)) (db : LibraryDb)
    (start : MigrationDisk) : Prop :=
  TrashCovered blockIds db start ∧ StoredAgree blockIds db start

def MigrationPc.looks : MigrationPc → Bool
  | .copying (_ :: _) | .comparing _ _ _ _ => true
  | _ => false

def MigrationAction.fails : MigrationAction → Bool
  | .start => false
  | .go fails _ => fails

/-- The looks at a legacy block and at its copy report what is there. -/
def StatsSucceed (state : MigrationState) (action : MigrationAction) : Prop :=
  state.pc.looks = true → action.fails = false

instance (state : MigrationState) (action : MigrationAction) :
    Decidable (StatsSucceed state action) :=
  inferInstanceAs (Decidable (_ → _))

def BlockRoot (disk : MigrationDisk) : Prop := ∀ file ∈ disk.legacyFiles, file.dir ∈ disk.topDirs

/-- What is said of a state: of the end of a run, of a removal, and of the runs that follow the end
of one. -/
structure MigrationOutcome (blockIds : String → Option (List String)) (db : LibraryDb)
    (start : MigrationDisk) (state : MigrationState) (kept : Prop) : Prop where
  ended : state.pc = .finished → (BlocksMigrated blockIds db start state.disk ↔ kept)
  removed : ∀ action next,
    (migration blockIds db (· = start)).step state action = some next →
    next.disk.legacyFiles ≠ state.disk.legacyFiles ∨ next.disk.topDirs ≠ state.disk.topDirs →
      (BlocksMigrated blockIds db start state.disk ↔ kept)
  again : state.pc = .finished → ∀ later,
    (migration blockIds db (· = start)).Steps (fun _ _ => True) state later →
      later.disk.files = state.disk.files

/-! ## The legacy tree -/

namespace MigrationDisk

theorem isLegacyDir_blockPrefix {id : String} (valid : isValidBlockId id = true) :
    isLegacyDir (blockPrefix id) = true := by
  obtain ⟨length, hex⟩ := Bool.and_eq_true_iff.mp valid
  have length : id.toList.length = 40 := of_decide_eq_true length
  rw [isLegacyDir, blockPrefix, String.toList_ofList, Bool.and_eq_true_iff]
  refine ⟨?_, ?_⟩
  · rw [List.length_take, length]
    rfl
  · exact List.all_eq_true.mpr fun c listed =>
      List.all_eq_true.mp hex c (List.mem_of_mem_take listed)

theorem legacyBlock_eq_none {id : String} (empty : disk.legacyBlocks = [])
    (dirs : ∀ file ∈ disk.legacyFiles, file.dir ∈ disk.topDirs)
    (valid : isValidBlockId id = true) : disk.legacyBlock id = none := by
  cases found : disk.legacyFiles.find? (isLegacyAt (blockPrefix id) id) with
  | none => rw [legacyBlock, found, Option.map_none]
  | some file =>
    have listed := List.mem_of_find?_eq_some found
    obtain ⟨isDir, isName⟩ : file.dir = blockPrefix id ∧ file.name = id := by
      simpa [isLegacyAt] using List.find?_some found
    refine absurd ?_ (List.filter_eq_nil_iff.mp empty file listed)
    have isLayoutDir : file.dir ∈ disk.legacyLayoutDirs :=
      List.mem_filter.mpr ⟨dirs file listed, by rw [isDir]; exact isLegacyDir_blockPrefix valid⟩
    rw [Bool.and_eq_true_iff]
    exact ⟨List.contains_iff_mem.mpr isLayoutDir, by rw [isName]; exact valid⟩

theorem legacyBlock_removeLegacyFile {dir name id : String} {data : List UInt8}
    (found : (disk.removeLegacyFile dir name).legacyBlock id = some data) :
    disk.legacyBlock id = some data := by
  obtain ⟨file, isFile, rfl⟩ := Option.map_eq_some_iff.mp found
  obtain ⟨listed, kept⟩ := List.mem_filter.mp (List.mem_of_find?_eq_some isFile)
  have isHere := List.find?_some isFile
  -- The file that is found was not removed, so no file of its path was.
  have sameSearch : (disk.removeLegacyFile dir name).legacyFiles.find?
      (isLegacyAt (blockPrefix id) id) = disk.legacyFiles.find? (isLegacyAt (blockPrefix id) id) := by
    refine find?_filter_not _ fun other isOther => ?_
    rw [Bool.not_eq_true'] at kept
    rw [← kept]
    simp only [isLegacyAt, Bool.and_eq_true, decide_eq_true_eq] at isOther isHere ⊢
    rw [isOther.1, isOther.2, isHere.1, isHere.2]
  rw [legacyBlock, ← sameSearch, isFile, Option.map_some]

end MigrationDisk

variable {ref : String × String}

theorem mem_collectReferences :
    ref ∈ collectReferences blockIds db ↔ LiveReferenced blockIds db ref := by
  rw [collectReferences, List.mem_insertionSort, List.mem_dedup]
  rfl

/-! ## The invariant -/

/-- A file of the length of the legacy block is stored, with its bytes or from before. -/
def Placed (start disk : MigrationDisk) (ref : String × String) : Prop :=
  MigrationDisk.isValidBlockId ref.2 = true → ∀ data, start.legacyBlock ref.2 = some data →
    ∃ file, BlockTree.findBlock disk.files ref.1 ref.2 = some file ∧
      file.data.length = data.length ∧
      (file.data = data ∨ BlockTree.findBlock start.files ref.1 ref.2 = some file)

def LivePlaced (blockIds : String → Option (List String)) (db : LibraryDb)
    (start disk : MigrationDisk) : Prop :=
  ∀ ref, LiveReferenced blockIds db ref → Placed start disk ref

def PcKept (blockIds : String → Option (List String)) (db : LibraryDb)
    (start disk : MigrationDisk) : MigrationPc → Prop
  | .collecting legacy => legacy = disk.legacyBlocks
  | .copying rest => (∀ ref ∈ rest, LiveReferenced blockIds db ref) ∧
      ∀ ref, LiveReferenced blockIds db ref → ref ∈ rest ∨ Placed start disk ref
  | .comparing repoId id length rest =>
    (∀ ref ∈ (repoId, id) :: rest, LiveReferenced blockIds db ref) ∧
    (∀ ref, LiveReferenced blockIds db ref →
      ref ∈ (repoId, id) :: rest ∨ Placed start disk ref) ∧
    ∃ source, disk.legacyBlock id = some source ∧ source.length = length
  | .staging repoId id rest => (∀ ref ∈ (repoId, id) :: rest, LiveReferenced blockIds db ref) ∧
      (∀ ref, LiveReferenced blockIds db ref →
        ref ∈ (repoId, id) :: rest ∨ Placed start disk ref) ∧
      BlockTree.findBlock disk.files repoId id = none
  | .publishing repoId id data rest =>
    (∀ ref ∈ (repoId, id) :: rest, LiveReferenced blockIds db ref) ∧
    (∀ ref, LiveReferenced blockIds db ref →
      ref ∈ (repoId, id) :: rest ∨ Placed start disk ref) ∧
    BlockTree.findBlock disk.files repoId id = none ∧ start.legacyBlock id = some data
  | .listing => LivePlaced blockIds db start disk
  | .purging dirs => LivePlaced blockIds db start disk ∧
      ∀ dir ∈ disk.legacyLayoutDirs, dir ∈ dirs
  | .tidying => LivePlaced blockIds db start disk ∧ disk.legacyBlocks = []
  | .marking => LivePlaced blockIds db start disk ∧ disk.legacyBlocks = []
  | .finished => LivePlaced blockIds db start disk ∧ disk.legacyBlocks = []
  | _ => True

structure DiskKept (blockIds : String → Option (List String)) (db : LibraryDb)
    (start disk : MigrationDisk) : Prop where
  dirs : ∀ file ∈ disk.legacyFiles, file.dir ∈ disk.topDirs
  legacy : ∀ id data, disk.legacyBlock id = some data → start.legacyBlock id = some data
  intact : (∀ id, disk.legacyBlock id = start.legacyBlock id) ∨ LivePlaced blockIds db start disk
  others : ∀ ref, ¬ LiveReferenced blockIds db ref →
    BlockTree.findBlock disk.files ref.1 ref.2 = BlockTree.findBlock start.files ref.1 ref.2
  stays : ∀ repoId id file, BlockTree.findBlock start.files repoId id = some file →
    BlockTree.findBlock disk.files repoId id = some file
  bytes : ∀ repoId id file data, BlockTree.findBlock disk.files repoId id = some file →
    start.legacyBlock id = some data →
      file.data = data ∨ BlockTree.findBlock start.files repoId id = some file

structure MigrationKept (blockIds : String → Option (List String)) (db : LibraryDb)
    (start : MigrationDisk) (state : MigrationState) : Prop where
  disk : DiskKept blockIds db start state.disk
  pc : PcKept blockIds db start state.disk state.pc

theorem diskKept_start (root : BlockRoot start) : DiskKept blockIds db start start where
  dirs := root
  legacy _ _ found := found
  intact := Or.inl fun _ => rfl
  others _ _ := rfl
  stays _ _ _ found := found
  bytes _ _ _ _ found _ := Or.inr found

variable {disk' : MigrationDisk}

theorem LivePlaced.same (live : LivePlaced blockIds db start disk)
    (files : disk'.files = disk.files) : LivePlaced blockIds db start disk' := by
  intro ref isLive valid data found
  rw [files]
  exact live ref isLive valid data found

theorem DiskKept.same (kept : DiskKept blockIds db start disk) (dirs : disk'.topDirs = disk.topDirs)
    (legacy : disk'.legacyFiles = disk.legacyFiles) (files : disk'.files = disk.files) :
    DiskKept blockIds db start disk' := by
  have sameLegacy : ∀ id, disk'.legacyBlock id = disk.legacyBlock id := by
    intro id
    rw [MigrationDisk.legacyBlock, legacy]
    rfl
  refine ⟨?_, fun id data found => ?_, ?_, ?_, ?_, ?_⟩
  · rw [dirs, legacy]
    exact kept.dirs
  · rw [sameLegacy] at found
    exact kept.legacy id data found
  · exact kept.intact.imp (fun intact id => (sameLegacy id).trans (intact id)) fun live =>
      live.same files
  · rw [files]
    exact kept.others
  · rw [files]
    exact kept.stays
  · rw [files]
    exact kept.bytes

theorem DiskKept.removed (kept : DiskKept blockIds db start disk)
    (live : LivePlaced blockIds db start disk)
    (dirs : ∀ file ∈ disk'.legacyFiles, file.dir ∈ disk'.topDirs)
    (legacy : ∀ id data, disk'.legacyBlock id = some data → disk.legacyBlock id = some data)
    (files : disk'.files = disk.files) : DiskKept blockIds db start disk' := by
  refine ⟨dirs, fun id data found => kept.legacy id data (legacy id data found),
    Or.inr (live.same files), ?_, ?_, ?_⟩
  · rw [files]
    exact kept.others
  · rw [files]
    exact kept.stays
  · rw [files]
    exact kept.bytes

theorem placed_of_present (kept : DiskKept blockIds db start disk)
    (live : LiveReferenced blockIds db ref)
    (present : ∀ source, disk.legacyBlock ref.2 = some source → ∃ file,
      BlockTree.findBlock disk.files ref.1 ref.2 = some file ∧
        file.data.length = source.length) : Placed start disk ref := by
  rcases kept.intact with intact | all
  · intro _ data found
    obtain ⟨file, stored, sameLength⟩ := present data ((intact ref.2).trans found)
    exact ⟨file, stored, sameLength, kept.bytes ref.1 ref.2 file data stored found⟩
  · exact all ref live

section Put

variable {repoId id : String} {data : List UInt8}

abbrev published (disk : MigrationDisk) (repoId id : String) (data : List UInt8) : MigrationDisk :=
  { disk with files := BlockTree.put disk.files ⟨repoId, id, data⟩ }

theorem placed_published (source : start.legacyBlock id = some data) :
    Placed start (published disk repoId id data) (repoId, id) := by
  intro _ data' found
  cases source.symm.trans found
  exact ⟨_, BlockTree.findBlock_put_self ⟨repoId, id, data⟩, rfl, Or.inl rfl⟩

theorem Placed.put (placed : Placed start disk ref) (source : start.legacyBlock id = some data) :
    Placed start (published disk repoId id data) ref := by
  by_cases here : ref = (repoId, id)
  · rw [here]
    exact placed_published source
  · intro valid data' found
    obtain ⟨file, stored, fits⟩ := placed valid data' found
    refine ⟨file, ?_, fits⟩
    rw [BlockTree.findBlock_put_of_ne, stored]
    rw [← not_and_or]
    exact fun same => here (Prod.ext same.1 same.2)

theorem DiskKept.put (kept : DiskKept blockIds db start disk)
    (live : LiveReferenced blockIds db (repoId, id))
    (absent : BlockTree.findBlock disk.files repoId id = none)
    (source : start.legacyBlock id = some data) :
    DiskKept blockIds db start (published disk repoId id data) := by
  refine ⟨kept.dirs, kept.legacy, kept.intact.imp_right fun all ref isLive =>
    (all ref isLive).put source, fun ref notLive => ?_, fun repoId' id' file stored => ?_,
    fun repoId' id' file data' stored found => ?_⟩
  · rw [BlockTree.findBlock_put_of_ne, kept.others ref notLive]
    rw [← not_and_or]
    rintro ⟨rfl, rfl⟩
    exact notLive live
  · have stays := kept.stays repoId' id' file stored
    rw [BlockTree.findBlock_put_of_ne, stays]
    rw [← not_and_or]
    rintro ⟨rfl, rfl⟩
    cases absent.symm.trans stays
  · rw [BlockTree.findBlock_put] at stored
    split at stored
    · rename_i here
      cases stored
      rw [here.2, source] at found
      exact Or.inl (Option.some.inj found)
    · exact kept.bytes repoId' id' file data' stored found

end Put

/-! ## The steps -/

variable {fails : Bool} {pick : Option String} {next : MigrationState} {pc : MigrationPc}

theorem copying_rest {rest : List (String × String)}
    (before : PcKept blockIds db start disk (.copying (ref :: rest)))
    (placed : Placed start disk ref) : PcKept blockIds db start disk (.copying rest) := by
  refine ⟨fun other listed => before.1 other (List.mem_cons_of_mem _ listed), ?_⟩
  intro other isLive
  rcases before.2 other isLive with listed | done
  · rcases List.mem_cons.mp listed with rfl | later
    · exact Or.inr placed
    · exact Or.inl later
  · exact Or.inr done

theorem checkLegacyBlock_kept {repoId id : String} {rest : List (String × String)}
    (kept : DiskKept blockIds db start disk)
    (before : PcKept blockIds db start disk (.copying ((repoId, id) :: rest))) :
    PcKept blockIds db start disk (checkLegacyBlock disk false repoId id rest) := by
  have live := before.1 (repoId, id) List.mem_cons_self
  unfold checkLegacyBlock
  split
  · trivial
  · split
    · rename_i absent
      refine copying_rest before (placed_of_present kept live fun source found => ?_)
      cases absent.symm.trans found
    · rename_i source found
      exact ⟨before.1, before.2, source, found, rfl⟩

theorem comparePresent_kept {repoId id : String} {length : Nat} {rest : List (String × String)}
    (kept : DiskKept blockIds db start disk)
    (before : PcKept blockIds db start disk (.comparing repoId id length rest)) :
    PcKept blockIds db start disk (comparePresent disk false repoId id length rest) := by
  obtain ⟨lives, all, source, found, isLength⟩ := before
  unfold comparePresent
  split
  · rename_i absent
    exact ⟨lives, all, absent⟩
  · rename_i file stored
    split
    · rename_i sameLength
      refine copying_rest ⟨lives, all⟩ (placed_of_present kept
        (lives (repoId, id) List.mem_cons_self) fun source' found' => ⟨file, stored, ?_⟩)
      cases found.symm.trans found'
      exact sameLength.trans isLength.symm
    · trivial

theorem migrationStep_kept (kept : MigrationKept blockIds db start ⟨disk, pc⟩)
    (stats : StatsSucceed ⟨disk, pc⟩ (.go fails pick))
    (step : migrationStep blockIds db fails pick disk pc = some next) :
    MigrationKept blockIds db start next := by
  obtain ⟨onDisk, known⟩ := kept
  cases pc with
  | scanning =>
    cases step
    refine ⟨onDisk, ?_⟩
    dsimp only
    split
    · trivial
    · rfl
  | collecting legacy =>
    cases step
    refine ⟨onDisk, ?_⟩
    dsimp only
    split
    · rename_i noBlocks
      have noBlocks : disk.legacyBlocks = [] := known.symm.trans noBlocks
      refine ⟨fun ref isLive valid data found => ?_, noBlocks⟩
      rcases onDisk.intact with intact | all
      · have absent := MigrationDisk.legacyBlock_eq_none noBlocks onDisk.dirs valid
        rw [intact ref.2, found] at absent
        cases absent
      · exact all ref isLive valid data found
    · split
      · trivial
      · exact ⟨fun ref listed => mem_collectReferences.mp listed, fun ref isLive =>
          Or.inl (mem_collectReferences.mpr isLive)⟩
  | copying references =>
    cases references with
    | nil =>
      cases step
      exact ⟨onDisk, fun ref isLive => (known.2 ref isLive).resolve_left List.not_mem_nil⟩
    | cons ref rest =>
      obtain rfl : fails = false := stats rfl
      cases step
      exact ⟨onDisk, checkLegacyBlock_kept onDisk known⟩
  | comparing repoId id length rest =>
    obtain rfl : fails = false := stats rfl
    cases step
    exact ⟨onDisk, comparePresent_kept onDisk known⟩
  | staging repoId id rest =>
    cases step
    split
    · exact ⟨onDisk, trivial⟩
    · rename_i data source
      split at source
      · cases source
      · obtain ⟨lives, all, absent⟩ := known
        exact ⟨onDisk.same rfl rfl rfl, lives, all, absent, onDisk.legacy id data source⟩
  | publishing repoId id data rest =>
    obtain ⟨lives, all, absent, source⟩ := known
    cases step
    split
    · exact ⟨onDisk.same rfl rfl rfl, trivial⟩
    · have live := lives (repoId, id) List.mem_cons_self
      have staged : DiskKept blockIds db start { disk with temps := disk.temps - 1 } :=
        onDisk.same rfl rfl rfl
      exact ⟨staged.put live absent source, copying_rest
        ⟨lives, fun ref isLive => (all ref isLive).imp_right (Placed.put · source)⟩
        (placed_published source)⟩
  | listing =>
    cases step
    refine ⟨onDisk, ?_⟩
    dsimp only
    split
    · trivial
    · exact ⟨known, fun dir listed => listed⟩
  | purging dirs =>
    obtain ⟨live, remaining⟩ := known
    cases dirs with
    | nil =>
      cases step
      refine ⟨onDisk, live, List.filter_eq_nil_iff.mpr fun file _ isBlock => ?_⟩
      have isDir := (Bool.and_eq_true_iff.mp isBlock).1
      exact List.not_mem_nil (remaining file.dir (List.contains_iff_mem.mp isDir))
    | cons dir rest =>
      cases step
      split
      · exact ⟨onDisk, trivial⟩
      · split
        · rename_i name
          have removed : DiskKept blockIds db start (disk.removeLegacyFile dir name) :=
            onDisk.removed live
              (fun file listed => onDisk.dirs file (List.mem_filter.mp listed).1)
              (fun _ _ => MigrationDisk.legacyBlock_removeLegacyFile) rfl
          exact ⟨removed, live.same rfl, remaining⟩
        · split
          · exact ⟨onDisk, trivial⟩
          · rename_i empty
            have others : ∀ file ∈ disk.legacyFiles, file.dir ≠ dir := by
              intro file listed isDir
              exact empty (List.any_eq_true.mpr ⟨file, listed, decide_eq_true isDir⟩)
            have removed : DiskKept blockIds db start (disk.removeTopDir dir) :=
              onDisk.removed live
                (fun file listed => List.mem_filter.mpr ⟨onDisk.dirs file listed,
                  decide_eq_true (others file listed)⟩) (fun _ _ found => found) rfl
            refine ⟨removed, live.same rfl, fun other listed => ?_⟩
            obtain ⟨listed, isLegacy⟩ := List.mem_filter.mp listed
            obtain ⟨listed, apart⟩ := List.mem_filter.mp listed
            have wasListed : other ∈ disk.legacyLayoutDirs :=
              List.mem_filter.mpr ⟨listed, isLegacy⟩
            exact (List.mem_cons.mp (remaining other wasListed)).resolve_left
              (of_decide_eq_true apart)
  | tidying | marking =>
    cases step
    split
    · exact ⟨onDisk, trivial⟩
    · exact ⟨onDisk.same rfl rfl rfl, known⟩
  | idle | finished | failed => cases step

variable {state : MigrationState}

theorem migration_kept (root : BlockRoot start)
    (reached : (migration blockIds db (· = start)).Reachable StatsSucceed state) :
    MigrationKept blockIds db start state := by
  refine System.reachable_invariant (I := MigrationKept blockIds db start) ?_ ?_ reached
  · rintro state ⟨rfl, idle⟩
    refine ⟨diskKept_start root, ?_⟩
    rw [idle]
    trivial
  · intro state next action kept stats taken
    cases action with
    | start =>
      cases taken
      exact ⟨kept.disk, trivial⟩
    | go fails pick => exact migrationStep_kept kept stats taken

/-! ## The end of a run -/

/-- When every live block is placed, the rest is what the trash needs and what was stored before. -/
theorem blocksMigrated_iff (kept : DiskKept blockIds db start disk)
    (live : LivePlaced blockIds db start disk) :
    BlocksMigrated blockIds db start disk ↔ MigrationSafe blockIds db start := by
  constructor
  · intro migrated
    refine ⟨fun ref trashed => or_iff_not_imp_left.mpr fun notLive valid data found => ?_,
      fun ref isLive valid data found file stored _ => ?_⟩
    · obtain ⟨file, stored, isData⟩ := migrated ref (Or.inr trashed) valid data found
      rw [kept.others ref notLive] at stored
      exact ⟨file, stored, isData⟩
    · obtain ⟨file', stored', isData⟩ := migrated ref (Or.inl isLive) valid data found
      cases (kept.stays _ _ _ stored).symm.trans stored'
      exact isData
  · rintro ⟨covered, agree⟩ ref referenced
    have ofLive : LiveReferenced blockIds db ref → Migrated start disk ref := by
      intro isLive valid data found
      obtain ⟨file, stored, sameLength, isData | before⟩ := live ref isLive valid data found
      · exact ⟨file, stored, isData⟩
      · exact ⟨file, stored, agree ref isLive valid data found file before sameLength⟩
    rcases referenced with isLive | trashed
    · exact ofLive isLive
    · rcases covered ref trashed with isLive | before
      · exact ofLive isLive
      · intro valid data found
        obtain ⟨file, stored, isData⟩ := before valid data found
        exact ⟨file, kept.stays _ _ _ stored, isData⟩

theorem purging_of_removed {next : MigrationState} {action : MigrationAction}
    (taken : (migration blockIds db (· = start)).step state action = some next)
    (removed : next.disk.legacyFiles ≠ state.disk.legacyFiles ∨
      next.disk.topDirs ≠ state.disk.topDirs) : ∃ dirs, state.pc = .purging dirs := by
  have leaves : ∀ {state' : MigrationState}, next = state' →
      state'.disk.legacyFiles = state.disk.legacyFiles →
      state'.disk.topDirs = state.disk.topDirs → ∃ dirs, state.pc = .purging dirs := by
    rintro _ rfl sameFiles sameDirs
    exact removed.elim (absurd sameFiles) (absurd sameDirs)
  obtain ⟨disk, pc⟩ := state
  cases action with
  | start => exact leaves (Option.some.inj taken).symm rfl rfl
  | go fails pick =>
    cases pc with
    | purging dirs => exact ⟨dirs, rfl⟩
    | idle | finished | failed => cases taken
    | copying references =>
      cases references with
      | nil | cons ref rest => exact leaves (Option.some.inj taken).symm rfl rfl
    | scanning | collecting legacy | comparing repoId id length rest | listing =>
      exact leaves (Option.some.inj taken).symm rfl rfl
    | staging repoId id rest | publishing repoId id data rest | tidying | marking =>
      refine leaves (Option.some.inj taken).symm ?_ ?_ <;> split <;> rfl

/-! ## The runs after the end -/

/-- Where a run may stand when there is nothing in the legacy tree. -/
def NothingLeft (disk : MigrationDisk) (pc : MigrationPc) : Prop :=
  disk.legacyBlocks = [] ∧
    (pc = .scanning ∨ pc = .collecting [] ∨ pc = .tidying ∨ pc = .marking ∨ pc = .finished ∨
      pc = .failed)

theorem migrationStep_nothingLeft (left : NothingLeft disk pc)
    (step : migrationStep blockIds db fails pick disk pc = some next) :
    NothingLeft next.disk next.pc ∧ next.disk.files = disk.files := by
  obtain ⟨noBlocks, rfl | rfl | rfl | rfl | rfl | rfl⟩ := left
  · cases step
    refine ⟨⟨noBlocks, ?_⟩, rfl⟩
    dsimp only
    rw [noBlocks]
    split <;> simp
  · cases step
    exact ⟨⟨noBlocks, by simp⟩, rfl⟩
  · cases step
    split
    · exact ⟨⟨noBlocks, by simp⟩, rfl⟩
    · exact ⟨⟨noBlocks, by simp⟩, rfl⟩
  · cases step
    split
    · exact ⟨⟨noBlocks, by simp⟩, rfl⟩
    · exact ⟨⟨noBlocks, by simp⟩, rfl⟩
  · cases step
  · cases step

theorem steps_nothingLeft {later : MigrationState} (left : NothingLeft state.disk state.pc)
    (steps : (migration blockIds db (· = start)).Steps (fun _ _ => True) state later) :
    NothingLeft later.disk later.pc ∧ later.disk.files = state.disk.files := by
  induction steps with
  | refl => exact ⟨left, rfl⟩
  | @tail middle next action _ _ taken ih =>
    cases action with
    | start =>
      cases taken
      exact ⟨⟨ih.1.1, Or.inl rfl⟩, ih.2⟩
    | go fails pick =>
      obtain ⟨nothing, same⟩ := migrationStep_nothingLeft ih.1 taken
      exact ⟨nothing, same.trans ih.2⟩

/-- Whenever a run whose looks succeed ends or removes something, every block of a live or
restorable library is in its directory exactly when the live rows reference what the trash needs,
and what was stored before agrees. -/
theorem migration_keeps_iff {state : MigrationState} (root : BlockRoot start)
    (reached : (migration blockIds db (· = start)).Reachable StatsSucceed state) :
    MigrationOutcome blockIds db start state (MigrationSafe blockIds db start) := by
  have kept := migration_kept root reached
  refine ⟨fun ended => ?_, fun action next taken removed => ?_, fun ended later steps => ?_⟩
  · have known := kept.pc
    rw [ended] at known
    exact blocksMigrated_iff kept.disk known.1
  · obtain ⟨dirs, purging⟩ := purging_of_removed taken removed
    have known := kept.pc
    rw [purging] at known
    exact blocksMigrated_iff kept.disk known.1
  · have known := kept.pc
    rw [ended] at known
    have left : NothingLeft state.disk state.pc := ⟨known.2, by rw [ended]; simp⟩
    exact (steps_nothingLeft left steps).2

/-! ## Runs over one block -/

def migratedBlockId : String := "aaaaaaaaaaaaaaaaaaaaaaaaaaaaaaaaaaaaaaaa"

def fileObjectText : String := "\x7b\"block_ids\":[\"" ++ migratedBlockId ++
  "\"],\"size\":1,\"type\":1,\"version\":1\x7d"

def parsedBlockIds (text : String) : Option (List String) :=
  if text = fileObjectText then some [migratedBlockId] else none

def fileObjects : ContentTable FsObjectColumns := ContentTable.empty.insertOrReplace
  ⟨1, "r1", "f1", ⟨metadataTypeFile, fileObjectText⟩⟩

def liveLibrary : LibraryDb := ⟨[], .empty, fileObjects, .empty, .empty, [], []⟩

def trashedLibrary : LibraryDb :=
  ⟨[], .empty, .empty, .empty, fileObjects, [⟨"r1", "notes", none, 1, 1, 0⟩], []⟩

def legacyDisk : MigrationDisk := ⟨["aa"], [⟨"aa", migratedBlockId, [7]⟩], [], 0, false⟩

theorem legacyDisk_blockRoot : BlockRoot legacyDisk := by
  intro file listed
  rw [List.mem_singleton.mp listed]
  decide

def applyRun (steps : Nat) : List MigrationAction :=
  [.start] ++ List.replicate steps (.go false none) ++ [.go false (some migratedBlockId)] ++
    List.replicate 4 (.go false none)

def runMigration (db : LibraryDb) (actions : List MigrationAction) : Option MigrationState :=
  (migration parsedBlockIds db (· = legacyDisk)).runChecked (fun state action => StatsSucceed state action)
    actions ⟨legacyDisk, .idle⟩

theorem migration_keeps_live : ∃ state : MigrationState, state.pc = .finished ∧
    state.disk.topDirs = [] ∧ BlocksMigrated parsedBlockIds liveLibrary legacyDisk state.disk := by
  have ran : (runMigration liveLibrary (applyRun 8)).any (fun state =>
      state.pc = .finished && decide (state.disk.topDirs = [])) = true := by
    decide +kernel
  obtain ⟨state, run, isLast⟩ := (Option.any_eq_true _ _).mp ran
  obtain ⟨ended, removed⟩ := Bool.and_eq_true_iff.mp isLast
  have reached : (migration parsedBlockIds liveLibrary (· = legacyDisk)).Reachable
      StatsSucceed state :=
    System.reachable_of_runChecked (fun _ _ => of_decide_eq_true) _ _ _ (.init ⟨rfl, rfl⟩) run
  have safe : MigrationSafe parsedBlockIds liveLibrary legacyDisk := by
    refine ⟨fun ref trashed => ?_, fun ref _ _ data _ file stored => ?_⟩
    · cases trashed.1
    · cases stored
  have ended : state.pc = .finished := of_decide_eq_true ended
  exact ⟨state, ended, of_decide_eq_true removed,
    ((migration_keeps_iff legacyDisk_blockRoot reached).ended ended).mpr safe⟩

/-- The run has ended, the legacy tree is gone, and the block of the library in the trash with it. -/
theorem migration_loses_trash : ∃ state : MigrationState,
    (migration parsedBlockIds trashedLibrary (· = legacyDisk)).Reachable (fun _ _ => True) state ∧
    state.pc = .finished ∧ ¬ BlocksMigrated parsedBlockIds trashedLibrary legacyDisk state.disk := by
  have ran : (runMigration trashedLibrary (applyRun 4)).any (fun state =>
      state.pc = .finished && decide (state.disk.topDirs = []) &&
        (BlockTree.findBlock state.disk.files "r1" migratedBlockId).isNone) = true := by
    decide +kernel
  obtain ⟨state, run, isLast⟩ := (Option.any_eq_true _ _).mp ran
  obtain ⟨isLast, gone⟩ := Bool.and_eq_true_iff.mp isLast
  obtain ⟨ended, _⟩ := Bool.and_eq_true_iff.mp isLast
  refine ⟨state, System.reachable_of_runChecked (fun _ _ _ => trivial) _ _ _ (.init ⟨rfl, rfl⟩) run,
    of_decide_eq_true ended, fun migrated => ?_⟩
  have trashed : TrashReferenced parsedBlockIds trashedLibrary ("r1", migratedBlockId) :=
    ⟨by decide +kernel, rfl⟩
  obtain ⟨file, stored, _⟩ := migrated _ (Or.inr trashed) (by decide +kernel) [7] (by decide +kernel)
  rw [Option.isNone_iff_eq_none.mp gone] at stored
  cases stored

end Nanofile
