import Nanofile.Lib.System
import Nanofile.Service.LibraryTrash
import Nanofile.Storage.BlockTree

/-!
# The migration of the block layout

Blocks of the legacy layout are files `<2hex>/<block_id>` of the block root.  An apply run copies
every block that a file object references into the directory of its repository and then removes
the legacy directories.  A run may stop between any two accesses of the disk, and the next one
begins anew.
-/

set_option autoImplicit false

namespace Nanofile

open Nanofile.Lib

/-- A file in a top-level directory of the block root. -/
structure LegacyFile where
  dir : String
  name : String
  data : List UInt8
deriving DecidableEq, Repr

structure MigrationDisk where
  topDirs : List String
  legacyFiles : List LegacyFile
  files : List BlockFile
  /-- How many files of interrupted copies are left. -/
  temps : Nat
  marker : Bool
deriving DecidableEq

namespace MigrationDisk

def isHexDigit (c : Char) : Bool :=
  ('0' ≤ c && c ≤ '9') || ('a' ≤ c && c ≤ 'f') || ('A' ≤ c && c ≤ 'F')

def isValidBlockId (id : String) : Bool := id.toList.length = 40 && id.toList.all isHexDigit

/-- The directory of a block is named by the first two characters of its id. -/
def blockPrefix (id : String) : String := String.ofList (id.toList.take 2)

def isLegacyDir (name : String) : Bool := name.toList.length = 2 && name.toList.all isHexDigit

def legacyLayoutDirs (disk : MigrationDisk) : List String := disk.topDirs.filter isLegacyDir

def legacyBlocks (disk : MigrationDisk) : List LegacyFile :=
  disk.legacyFiles.filter fun file =>
    disk.legacyLayoutDirs.contains file.dir && isValidBlockId file.name

def isLegacyAt (dir name : String) (file : LegacyFile) : Bool := file.dir = dir && file.name = name

def legacyBlock (disk : MigrationDisk) (id : String) : Option (List UInt8) :=
  (disk.legacyFiles.find? (isLegacyAt (blockPrefix id) id)).map LegacyFile.data

def removeLegacyFile (disk : MigrationDisk) (dir name : String) : MigrationDisk :=
  { disk with legacyFiles := disk.legacyFiles.filter fun file => !isLegacyAt dir name file }

def removeTopDir (disk : MigrationDisk) (dir : String) : MigrationDisk :=
  { disk with topDirs := disk.topDirs.filter fun other => other ≠ dir }

end MigrationDisk

def metadataTypeFile : Int := 1

/-- The pairs of repository and block that the file objects of a table reference.  An object that
cannot be parsed is skipped. -/
def tableReferences (blockIds : String → Option (List String))
    (table : ContentTable FsObjectColumns) : List (String × String) :=
  (table.rows.filter fun row => row.columns.objType = metadataTypeFile).flatMap fun row =>
    ((blockIds row.columns.data).getD []).map fun id => (row.repoId, id)

/-- The order of a `BTreeSet` of pairs. -/
def referenceLe (first second : String × String) : Bool :=
  first.1 < second.1 || (first.1 = second.1 && first.2 ≤ second.2)

def collectReferences (blockIds : String → Option (List String)) (db : LibraryDb) :
    List (String × String) :=
  ((tableReferences blockIds db.fsObjects).dedup).insertionSort fun first second =>
    referenceLe first second

inductive MigrationPc where
  | idle
  | scanning
  | collecting (legacy : List LegacyFile)
  | copying (references : List (String × String))
  /-- The legacy file of the block has this length; the file of the repository is looked at next. -/
  | comparing (repoId id : String) (length : Nat) (references : List (String × String))
  | staging (repoId id : String) (references : List (String × String))
  | publishing (repoId id : String) (data : List UInt8) (references : List (String × String))
  | listing
  | purging (dirs : List String)
  | tidying
  | marking
  | finished
  | failed
deriving DecidableEq

structure MigrationState where
  disk : MigrationDisk
  pc : MigrationPc

/-- A run begins, whatever has become of the one before, or goes on.  A step may fail, and a
removal takes the files of a directory in any order. -/
inductive MigrationAction where
  | start
  | go (fails : Bool) (pick : Option String)

/-- A legacy file that `metadata` reports an error of is taken for a missing one. -/
def checkLegacyBlock (disk : MigrationDisk) (fails : Bool) (repoId id : String)
    (rest : List (String × String)) : MigrationPc :=
  if !MigrationDisk.isValidBlockId id then .failed
  else match if fails then none else disk.legacyBlock id with
    | none => .copying rest
    | some source => .comparing repoId id source.length rest

/-- So is the file of the repository. -/
def comparePresent (disk : MigrationDisk) (fails : Bool) (repoId id : String) (length : Nat)
    (rest : List (String × String)) : MigrationPc :=
  match if fails then none else BlockTree.findBlock disk.files repoId id with
  | none => .staging repoId id rest
  | some file => if file.data.length = length then .copying rest else .failed

/-- `BlockLayoutMigration::run` in apply mode. -/
def migrationStep (blockIds : String → Option (List String)) (db : LibraryDb) (fails : Bool)
    (pick : Option String) (disk : MigrationDisk) : MigrationPc → Option MigrationState
  | .scanning => some ⟨disk, if fails then .failed else .collecting disk.legacyBlocks⟩
  | .collecting legacy =>
    some ⟨disk, if legacy = [] then .tidying
      else if fails then .failed
      else .copying (collectReferences blockIds db)⟩
  | .copying [] => some ⟨disk, .listing⟩
  | .copying ((repoId, id) :: rest) => some ⟨disk, checkLegacyBlock disk fails repoId id rest⟩
  | .comparing repoId id length rest => some ⟨disk, comparePresent disk fails repoId id length rest⟩
  | .staging repoId id rest =>
    some (match if fails then none else disk.legacyBlock id with
      | none => ⟨disk, .failed⟩
      | some data => ⟨{ disk with temps := disk.temps + 1 }, .publishing repoId id data rest⟩)
  | .publishing repoId id data rest =>
    let disk := { disk with temps := disk.temps - 1 }
    some (if fails then ⟨disk, .failed⟩
      else ⟨{ disk with files := BlockTree.put disk.files ⟨repoId, id, data⟩ }, .copying rest⟩)
  | .listing => some ⟨disk, if fails then .failed else .purging disk.legacyLayoutDirs⟩
  | .purging [] => some ⟨disk, .tidying⟩
  | .purging (dir :: rest) =>
    some (if fails then ⟨disk, .failed⟩
      else match pick with
        | some name => ⟨disk.removeLegacyFile dir name, .purging (dir :: rest)⟩
        | none =>
          if disk.legacyFiles.any fun file => file.dir = dir then ⟨disk, .failed⟩
          else ⟨disk.removeTopDir dir, .purging rest⟩)
  | .tidying => some (if fails then ⟨disk, .failed⟩ else ⟨{ disk with temps := 0 }, .marking⟩)
  | .marking => some (if fails then ⟨disk, .failed⟩ else ⟨{ disk with marker := true }, .finished⟩)
  | .idle => none
  | .finished => none
  | .failed => none

/-- The runs on one disk beside a database that stays. -/
def migration (blockIds : String → Option (List String)) (db : LibraryDb)
    (init : MigrationDisk → Prop) : System MigrationState MigrationAction where
  init state := init state.disk ∧ state.pc = .idle
  step state
    | .start => some { state with pc := .scanning }
    | .go fails pick => migrationStep blockIds db fails pick state.disk state.pc

end Nanofile
