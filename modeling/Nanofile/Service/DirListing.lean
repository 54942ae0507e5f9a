import Nanofile.Fs.BatchResolve
import Nanofile.Fs.Traversal
import Nanofile.Lib.LevelOrder

/-!
# Listing directories

A directory is listed alone, or with everything below it level by level.  The recursive
listing reads a whole level at once and stops at the first level it cannot read, without
saying so.
-/

set_option autoImplicit false

namespace Nanofile

open Nanofile.Lib

variable {Oid : Type} [DecidableEq Oid] [Digests Oid]

/-- The stored objects, with those whose rows cannot be fetched or parsed. -/
structure Shelf (Oid : Type) where
  store : FsStore Oid
  unreadable : Oid → Bool
  failure : AppError

def Shelf.readDir [ToString Oid] (shelf : Shelf Oid) (fsId : Oid) :
    Except AppError (FsDirData Oid) :=
  if fsId = emptySha1 then .ok emptyDirData
  else if shelf.unreadable fsId then .error shelf.failure
  else readFsDirData shelf.store fsId

/-- `read_fs_dir_data_batch`: one object that cannot be read fails the whole batch. -/
def Shelf.readDirs (shelf : Shelf Oid) (fsIds : List Oid) :
    Except AppError (Oid → Option (FsDirData Oid)) :=
  if fsIds.any fun fsId => fsId ≠ emptySha1 && shelf.unreadable fsId then .error shelf.failure
  else .ok (dirBatch shelf.store)

def Shelf.resolve [ToString Oid] (shelf : Shelf Oid) : List String → Oid → Except AppError Oid
  | [], fsId => .ok fsId
  | segment :: rest, fsId => do
      let dir ← shelf.readDir fsId
      let found ← okOr (dir.dirents.find? fun entry => entry.name = segment)
        (.notFound ("path segment not found: " ++ segment))
      ensure (rest = [] ∨ isDir found.mode = true) (.notFound ("not a directory: " ++ segment))
      shelf.resolve rest found.id

structure DirEntry (Oid : Type) where
  id : Oid
  entryType : String
  name : String
  size : Int
  mtime : Int
  permission : String
  modifier : String
  parentDir : Option String
  modifierName : Option String
  modifierContactEmail : Option String
deriving DecidableEq, Repr

def reservedInternalDir : String := "_Internal"

def isReservedInternal (name : String) : Bool := name = reservedInternalDir

def dirEntryOf (parentDir : Option String) (dirent : DirEntryData Oid) : DirEntry Oid where
  id := dirent.id
  entryType := if hasDirBit dirent.mode then "dir" else "file"
  name := dirent.name
  size := dirent.size
  mtime := dirent.mtime
  permission := "rw"
  modifier := dirent.modifier
  parentDir := parentDir
  modifierName := none
  modifierContactEmail := none

/-- The directory a listing starts at.  The error's text carries its kind in front, so it never
begins with the words that are looked for. -/
def startDir [ToString Oid] (shelf : Shelf Oid) (rootId : Oid) (path : String) :
    Except AppError Oid :=
  match shelf.resolve (pathSegments path) rootId with
  | .ok dirId => .ok dirId
  | .error failure =>
    let msg := toString failure
    if "path segment not found".toList.isPrefixOf msg.toList then .error (.notFound msg)
    else .error (.internal ("resolve_fs_id failed: " ++ msg))

def listDirFromRoot [ToString Oid] (shelf : Shelf Oid) (rootId : Oid) (path : String) :
    Except AppError (Oid × List (DirEntry Oid)) := do
  let dirId ← startDir shelf rootId path
  match shelf.readDir dirId with
  | .error failure => .error (.notFound ("not a directory: " ++ toString failure))
  | .ok dirData =>
    .ok (dirId, (dirData.dirents.filter fun dirent => !isReservedInternal dirent.name).map
      (dirEntryOf none))

abbrev DirNode (Oid : Type) := Oid × String

def childPathOf (parentPath name : String) : String :=
  if parentPath = "/" then "/" ++ name else parentPath ++ "/" ++ name

abbrev Listed (Oid : Type) := List (DirEntry Oid) × List (DirNode Oid)

/-- `max_entries.is_some_and(|max| entries.len() > max)`. -/
def exceedsMax (maxEntries : Option Nat) (count : Nat) : Bool :=
  maxEntries.any fun max => max < count

/-- The loop over the entries of a directory; it leaves the walk with the entries it has when
there are too many. -/
def listDirents (maxEntries : Option Nat) (parentPath : String) :
    List (DirEntryData Oid) → Listed Oid → Except (List (DirEntry Oid)) (Listed Oid)
  | [], listed => .ok listed
  | dirent :: rest, (entries, next) =>
    if isReservedInternal dirent.name then listDirents maxEntries parentPath rest (entries, next)
    else
      let entries := entries ++ [dirEntryOf (some parentPath) dirent]
      if exceedsMax maxEntries entries.length then .error entries
      else
        let next := if hasDirBit dirent.mode then
            next ++ [(dirent.id, childPathOf parentPath dirent.name)]
          else next
        listDirents maxEntries parentPath rest (entries, next)

def listLevel (maxEntries : Option Nat) (dirMap : Oid → Option (FsDirData Oid)) :
    List (DirNode Oid) → Listed Oid → Except (List (DirEntry Oid)) (Listed Oid)
  | [], listed => .ok listed
  | node :: rest, listed =>
    match dirMap node.1 with
    | none => listLevel maxEntries dirMap rest listed
    | some dirData => do
        let listed ← listDirents maxEntries node.2 dirData.dirents listed
        listLevel maxEntries dirMap rest listed

/-- The loop over the levels, with what is left of the depth and the visits so far.  The flag
says whether the entries were cut off. -/
def listLevels (limits : Limits) (shelf : Shelf Oid) (maxEntries : Option Nat) :
    Nat → Nat → List (DirNode Oid) → List (DirEntry Oid) →
      Except AppError (List (DirEntry Oid) × Bool)
  | _, _, [], entries => .ok (entries, false)
  | 0, _, _ :: _, _ => .error limits.tooDeep
  | depth + 1, visits, node :: rest, entries =>
    let visits := visits + (node :: rest).length
    if limits.maxVisits < visits then .error limits.tooWide
    else
      match shelf.readDirs ((node :: rest).map Prod.fst) with
      | .error _ => .ok (entries, false)
      | .ok dirMap =>
        match listLevel maxEntries dirMap (node :: rest) (entries, []) with
        | .error entries => .ok (entries, true)
        | .ok (entries, next) => listLevels limits shelf maxEntries depth visits next entries

/-- `fill_modifier_names`, given the nicknames of the users found. -/
def fillModifierNames (nicknameByEmail : String → Option String) (entry : DirEntry Oid) :
    DirEntry Oid :=
  if entry.entryType = "file" ∧ entry.modifier ≠ "" then
    { entry with
      modifierName := some ((nicknameByEmail entry.modifier).getD
        ((Text.split '@' entry.modifier).head?.getD ""))
      modifierContactEmail := some entry.modifier }
  else entry

def listDirRecursiveFromRoot [ToString Oid] (limits : Limits)
    (nicknameByEmail : String → Option String) (shelf : Shelf Oid) (rootId : Oid) (path : String)
    (includeModifierNames : Bool) (maxEntries : Option Nat) :
    Except AppError (Oid × List (DirEntry Oid) × Bool) := do
  let dirId ← startDir shelf rootId path
  let (entries, truncated) ← listLevels limits shelf maxEntries limits.maxDepth 0 [(dirId, path)] []
  if truncated then .ok (dirId, entries, true)
  else .ok (dirId, if includeModifierNames then entries.map (fillModifierNames nicknameByEmail)
    else entries, false)

end Nanofile
