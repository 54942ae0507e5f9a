import Nanofile.Base.Paths
import Nanofile.Lib.ByteOrder
import Nanofile.Lib.RowUpdate

/-!
# Rows keyed by a path

Tags, stars and face tags hang on the path of their file, so a deletion or a renaming of
a directory has to carry along the rows of everything below it.  Three repositories pick
these rows with SQL of their own: two by a range of the byte order, the third by a prefix.
-/

set_option autoImplicit false

namespace Nanofile

open Nanofile.Lib

namespace Sql

def nul : Char := Char.ofNat 0

/-- What `length` and `substr` see of a text: it ends at the first NUL. -/
def visible (text : String) : List Char := text.toList.takeWhile fun char => char ≠ nul

def length (text : String) : Nat := (visible text).length

/-- `substr(text, start)`; places are counted from one. -/
def substrFrom (text : String) (start : Nat) : String :=
  String.ofList ((visible text).drop (start - 1))

def substr (text : String) (start count : Nat) : String :=
  String.ofList (((visible text).drop (start - 1)).take count)

def binaryLt (left right : String) : Bool :=
  decide (Bytes.asBytes left < Bytes.asBytes right)

def quote : Char := Char.ofNat 39

def escape (value : String) : String :=
  String.ofList (value.toList.flatMap fun char => if char = quote then [quote, quote] else [char])

/-- The value of a literal, read from behind its opening quote to its closing one. -/
def readLiteral : List Char → List Char
  | [] => []
  | [char] => if char = quote then [] else [char]
  | char :: next :: rest =>
    if char = quote then
      if next = quote then quote :: readLiteral rest else []
    else char :: readLiteral (next :: rest)

def literal (escaped : String) : String := String.ofList (readLiteral (escaped.toList ++ [quote]))

end Sql

structure FileTag where
  id : Nat
  repoId : String
  filePath : String
  repoTagId : Nat
  createdAt : Int
deriving DecidableEq, Repr

def beyondSlash : String := String.ofList ['/', Char.ofNat 0x10FFFF]

/-- `col >= $2 AND col < $2 || …`. -/
def inPathRange (path value : String) : Bool :=
  !Sql.binaryLt value path && Sql.binaryLt value (path ++ beyondSlash)

/-- `$1 || substr(col, length($2) + 1)`. -/
def renamedBySubstr (oldPath newPath value : String) : String :=
  newPath ++ Sql.substrFrom value (Sql.length oldPath + 1)

namespace FileTags

def selects (repoId path rowRepoId filePath : String) : Bool :=
  rowRepoId = repoId && inPathRange path filePath

def deleteByPathPrefix (tags : List FileTag) (repoId path : String) : List FileTag :=
  tags.filter fun row => !selects repoId path row.repoId row.filePath

/-- `FileTagRepository::update_paths_for_rename`; the table has no unique index. -/
def updatePathsForRename (tags : List FileTag) (oldPath newPath repoId : String) : List FileTag :=
  tags.map fun row =>
    if selects repoId oldPath row.repoId row.filePath then
      { row with filePath := renamedBySubstr oldPath newPath row.filePath }
    else row

end FileTags

structure StarredFile where
  id : Nat
  repoId : String
  path : String
  userId : Nat
  isDir : Bool
  createdAt : Int
deriving DecidableEq, Repr

/-- The columns of `idx_starred_files_user_repo`. -/
def StarredFile.key (row : StarredFile) : Nat × String × String := (row.userId, row.repoId, row.path)

/-- `starred_files`, in the order in which an update visits its rows. -/
structure StarredFiles where
  rows : List StarredFile
  unique : (rows.map StarredFile.key).Nodup

namespace StarredFiles

def selects (repoId path rowRepoId rowPath : String) : Bool :=
  rowRepoId = repoId && inPathRange path rowPath

def renamed (oldPath newPath : String) (row : StarredFile) : StarredFile :=
  { row with path := renamedBySubstr oldPath newPath row.path }

/-- `StarredRepository::update_paths_for_rename`; none where the unique index refuses. -/
def updatePathsForRename (stars : StarredFiles) (oldPath newPath repoId : String) :
    Option StarredFiles :=
  match ran : RowUpdate.updateRows StarredFile.key
      (fun row => selects repoId oldPath row.repoId row.path) (renamed oldPath newPath) []
      stars.rows with
  | some rows => some ⟨rows, RowUpdate.nodup_of_updateRows ran (by simpa using stars.unique)⟩
  | none => none

theorem map_rows_updatePathsForRename (stars : StarredFiles) (oldPath newPath repoId : String) :
    (stars.updatePathsForRename oldPath newPath repoId).map StarredFiles.rows =
      RowUpdate.updateRows StarredFile.key
        (fun row => selects repoId oldPath row.repoId row.path) (renamed oldPath newPath) []
        stars.rows := by
  unfold updatePathsForRename
  split
  · rename_i ran
    exact ran.symm
  · rename_i refused
    exact refused.symm

end StarredFiles

structure FaceTagScan where
  id : Nat
  repoId : String
  filePath : String
  fsId : String
deriving DecidableEq, Repr

structure FaceTagExclusion where
  id : Nat
  repoId : String
  filePath : String
  labelKey : String
deriving DecidableEq, Repr

/-- The columns of `idx_face_tag_scans_repo_path`. -/
def FaceTagScan.key (row : FaceTagScan) : String × String := (row.repoId, row.filePath)

/-- The columns of `idx_face_tag_exclusions_repo_path_key`. -/
def FaceTagExclusion.key (row : FaceTagExclusion) : String × String × String :=
  (row.repoId, row.filePath, row.labelKey)

structure FaceTagTables where
  scans : List FaceTagScan
  exclusions : List FaceTagExclusion
  scans_unique : (scans.map FaceTagScan.key).Nodup
  exclusions_unique : (exclusions.map FaceTagExclusion.key).Nodup

namespace FaceTags

def pathPrefix (path : String) : String := path ++ "/"

/-- `repo_id = '…' AND (file_path = '…' OR substr(file_path, 1, n) = '…')`. -/
def selects (repoId path rowRepoId filePath : String) : Bool :=
  rowRepoId = Sql.literal (Sql.escape repoId) &&
    (filePath = Sql.literal (Sql.escape path) ||
      Sql.substr filePath 1 (pathPrefix path).toList.length =
        Sql.literal (Sql.escape (pathPrefix path)))

def renamedPath (oldPath newPath filePath : String) : String :=
  if filePath = Sql.literal (Sql.escape oldPath) then Sql.literal (Sql.escape newPath)
  else if Sql.substr filePath 1 (pathPrefix oldPath).toList.length =
      Sql.literal (Sql.escape (pathPrefix oldPath)) then
    Sql.literal (Sql.escape (pathPrefix newPath)) ++
      Sql.substrFrom filePath ((pathPrefix oldPath).toList.length + 1)
  else filePath

def deleteByPathPrefix (tables : FaceTagTables) (repoId path : String) : FaceTagTables where
  scans := tables.scans.filter fun row => !selects repoId path row.repoId row.filePath
  exclusions := tables.exclusions.filter fun row => !selects repoId path row.repoId row.filePath
  scans_unique := tables.scans_unique.sublist (List.filter_sublist.map _)
  exclusions_unique := tables.exclusions_unique.sublist (List.filter_sublist.map _)

def updateScans (scans : List FaceTagScan) (oldPath newPath repoId : String) :
    Option (List FaceTagScan) :=
  RowUpdate.updateRows FaceTagScan.key
    (fun row => selects repoId oldPath row.repoId row.filePath)
    (fun row => { row with filePath := renamedPath oldPath newPath row.filePath }) [] scans

def updateExclusions (exclusions : List FaceTagExclusion) (oldPath newPath repoId : String) :
    Option (List FaceTagExclusion) :=
  RowUpdate.updateRows FaceTagExclusion.key
    (fun row => selects repoId oldPath row.repoId row.filePath)
    (fun row => { row with filePath := renamedPath oldPath newPath row.filePath }) [] exclusions

/-- `FaceTagsRepository::update_paths_for_rename`: one table after the other, and whether
both went through. -/
def updatePathsForRename (tables : FaceTagTables) (oldPath newPath repoId : String) :
    FaceTagTables × Bool :=
  match ran : updateScans tables.scans oldPath newPath repoId with
  | none => (tables, false)
  | some scans =>
    have unique := RowUpdate.nodup_of_updateRows ran (by simpa using tables.scans_unique)
    match ran' : updateExclusions tables.exclusions oldPath newPath repoId with
    | none => (⟨scans, tables.exclusions, unique, tables.exclusions_unique⟩, false)
    | some exclusions =>
      (⟨scans, exclusions, unique,
        RowUpdate.nodup_of_updateRows ran' (by simpa using tables.exclusions_unique)⟩, true)

end FaceTags

end Nanofile
