import Mathlib.Data.List.Sort
import Mathlib.Data.BitVec

/-!
# Constants, wire types and digests shared by every module

`Oid` is the type of SHA-1 ids: fs objects, commits and blocks are all named by
one.  The digest functions live in third-party crates, so `Digests` takes them
as parameters together with what the server relies on: two texts with one id are
one text, and parsing a serialised object gives the object back.  Names are
compared bytewise in the source and by code point here, which is the same order.
-/

set_option autoImplicit false

namespace Nanofile

inductive AppError where
  | badRequest (msg : String)
  | forbidden
  | notFound (msg : String)
  | conflict (msg : String)
  | internal (msg : String)
  | operationFailed (msg : String)
  | quotaExceeded
  | blockMissing
  | notExists
  | locked (path : String)
deriving DecidableEq, Repr

instance : ToString AppError where
  toString
    | .badRequest msg => "bad request: " ++ msg
    | .forbidden => "forbidden"
    | .notFound msg => "not found: " ++ msg
    | .conflict msg => "conflict: " ++ msg
    | .internal msg => "internal error: " ++ msg
    | .operationFailed msg => "operation failed: " ++ msg
    | .quotaExceeded => "storage quota exceeded"
    | .blockMissing => "blocks missing"
    | .notExists => "entry does not exist"
    | .locked path => "file is locked: " ++ path

def ensure (condition : Prop) [Decidable condition] (failure : AppError) :
    Except AppError Unit :=
  if condition then .ok () else .error failure

def okOr {Value : Type} (value : Option Value) (failure : AppError) : Except AppError Value :=
  match value with
  | some present => .ok present
  | none => .error failure

variable {failure : AppError}

theorem ensure_eq_ok_iff {condition : Prop} [Decidable condition] {done : Unit} :
    ensure condition failure = .ok done ↔ condition := by
  unfold ensure
  split <;> simp_all

theorem ensure_eq_error_iff {condition : Prop} [Decidable condition] {other : AppError} :
    ensure condition failure = .error other ↔ ¬ condition ∧ failure = other := by
  unfold ensure
  split <;> simp_all

theorem okOr_eq_ok_iff {Value : Type} {value : Option Value} {present : Value} :
    okOr value failure = .ok present ↔ value = some present := by
  cases value <;> simp [okOr]

theorem okOr_eq_error_iff {Value : Type} {value : Option Value} {other : AppError} :
    okOr value failure = .error other ↔ value = none ∧ failure = other := by
  cases value <;> simp [okOr]

variable {Oid : Type}

def sIfreg : BitVec 32 := 33188#32

def sIfdir : BitVec 32 := 16384#32

def sIfmt : BitVec 32 := 0o170000#32

def sIfregType : BitVec 32 := 0o100000#32

def sIfdirType : BitVec 32 := 0o040000#32

/-- `is_regular` of the merge, and the test `dirent_to_json` makes. -/
def isRegular (mode : BitVec 32) : Bool := mode &&& sIfmt == sIfregType

/-- `is_dir` of the merge and `is_dir_mode` of the tree reader. -/
def isDir (mode : BitVec 32) : Bool := mode &&& sIfmt == sIfdirType

/-- The bare bit test `mode & S_IFDIR != 0` the walks use. -/
def hasDirBit (mode : BitVec 32) : Bool := mode &&& sIfdir != 0#32

def seafMetadataTypeFile : Int := 1

def seafMetadataTypeDir : Int := 3

structure DirEntryData (Oid : Type) where
  id : Oid
  mode : BitVec 32
  modifier : String
  mtime : Int
  name : String
  size : Int
deriving DecidableEq, Repr

structure FsDirData (Oid : Type) where
  dirents : List (DirEntryData Oid)
  objType : Int
  version : Int
deriving DecidableEq, Repr

structure FsFileData (Oid : Type) where
  blockIds : List Oid
  size : Int
  objType : Int
  version : Int
deriving DecidableEq, Repr

/-- A row of `fs_objects`: the `obj_type` column with the parsed `data` column. -/
inductive FsObject (Oid : Type) where
  | dir (data : FsDirData Oid)
  | file (data : FsFileData Oid)
deriving DecidableEq, Repr

/-- `sort_dirents_desc`: the stable sort into descending name order. -/
def sortDirentsDesc (dirents : List (DirEntryData Oid)) : List (DirEntryData Oid) :=
  dirents.insertionSort fun first second => second.name ≤ first.name

/-- What `dirent_to_json` keeps of an entry: `modifier` and `size` are written
for regular files only and read back as their defaults otherwise. -/
def DirEntryData.written (entry : DirEntryData Oid) : DirEntryData Oid :=
  if isRegular entry.mode then entry else { entry with modifier := "", size := 0 }

def FsDirData.written (data : FsDirData Oid) : FsDirData Oid :=
  { data with dirents := data.dirents.map DirEntryData.written }

/-- The digest functions.  `Denotes id object` says that some text with SHA-1
`id` parses to `object`: this is what a received fs object is checked for. -/
class Digests (Oid : Type) where
  emptySha1 : Oid
  dirId : FsDirData Oid → Oid
  fileId : FsFileData Oid → Oid
  /-- Forty hex digits, in either letter case. -/
  isValidBlockId : Oid → Bool
  /-- The id in lower case of the bytes an id decodes to. -/
  decodeSha1Hex : Oid → Oid
  /-- The hash of a root, a creator, a list of terminated texts and a `ctime`. -/
  commitId : (rootId creator : Oid) → (texts : List String) → (ctime : Int) → Oid
  Denotes : Oid → FsObject Oid → Prop
  denotes_unique : ∀ {id first second}, Denotes id first → Denotes id second →
    first = second
  denotes_dir : ∀ data : FsDirData Oid, Denotes (dirId data) (.dir data.written)
  denotes_file : ∀ data : FsFileData Oid, Denotes (fileId data) (.file data)
  empty_not_denotes : ∀ object, ¬ Denotes emptySha1 object
  /-- The root comes first and the `ctime` last, both of fixed length. -/
  commitId_fields : ∀ {rootId rootId' creator creator' texts texts' ctime ctime'},
    commitId rootId creator texts ctime = commitId rootId' creator' texts' ctime' →
    rootId = rootId' ∧ ctime = ctime'

export Digests (emptySha1 isValidBlockId decodeSha1Hex)

theorem sortDirentsDesc_perm (dirents : List (DirEntryData Oid)) :
    (sortDirentsDesc dirents).Perm dirents :=
  List.perm_insertionSort _ dirents

theorem mem_sortDirentsDesc {dirents : List (DirEntryData Oid)}
    {entry : DirEntryData Oid} :
    entry ∈ sortDirentsDesc dirents ↔ entry ∈ dirents :=
  (sortDirentsDesc_perm dirents).mem_iff

@[simp] theorem written_id (entry : DirEntryData Oid) : entry.written.id = entry.id := by
  unfold DirEntryData.written
  split <;> rfl

@[simp] theorem written_mode (entry : DirEntryData Oid) :
    entry.written.mode = entry.mode := by
  unfold DirEntryData.written
  split <;> rfl

@[simp] theorem written_name (entry : DirEntryData Oid) :
    entry.written.name = entry.name := by
  unfold DirEntryData.written
  split <;> rfl

variable {mode : BitVec 32}

theorem not_isDir_of_isRegular (regular : isRegular mode = true) : isDir mode = false := by
  simp only [isRegular, isDir, beq_iff_eq] at regular ⊢
  rw [regular]
  decide

theorem not_isRegular_of_isDir (directory : isDir mode = true) : isRegular mode = false := by
  cases regular : isRegular mode with
  | false => rfl
  | true => exact absurd directory (by simp [not_isDir_of_isRegular regular])

theorem hasDirBit_of_isDir (directory : isDir mode = true) : hasDirBit mode = true := by
  simp only [isDir, hasDirBit, sIfmt, sIfdirType, sIfdir, beq_iff_eq, bne_iff_ne,
    ne_eq] at directory ⊢
  intro clear
  have masked : mode &&& 0o170000#32 &&& 16384#32 = 0#32 := by
    rw [BitVec.and_assoc, BitVec.and_comm (0o170000#32) (16384#32),
      ← BitVec.and_assoc, clear, BitVec.zero_and]
  rw [directory] at masked
  exact absurd masked (by decide)

theorem not_hasDirBit_of_isRegular (regular : isRegular mode = true) : hasDirBit mode = false := by
  simp only [isRegular, hasDirBit, sIfmt, sIfregType, sIfdir, beq_iff_eq, bne_eq_false_iff_eq]
    at regular ⊢
  have masked : mode &&& 16384#32 = mode &&& 0o170000#32 &&& 16384#32 := by
    rw [BitVec.and_assoc]
    rfl
  rw [masked, regular]
  rfl

end Nanofile
