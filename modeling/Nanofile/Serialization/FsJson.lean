import Nanofile.Base.Common
import Nanofile.Lib.Json

/-!
# The text of an fs object

The id of a directory or a file is the hash of its JSON, which is written by hand and read by a
derived reader.  The text determines the object, but for the modifier and the size of entries that
are no regular files.
-/

set_option autoImplicit false

namespace Nanofile

open Nanofile.Lib

variable (strings : JsonStrings)

def direntToJson (d : DirEntryData String) : String :=
  "\x7b\"id\": " ++ strings.escape d.id ++ ", \"mode\": " ++ toString d.mode.toInt ++
    (if isRegular d.mode then ", \"modifier\": " ++ strings.escape d.modifier else "") ++
    ", \"mtime\": " ++ toString d.mtime ++ ", \"name\": " ++ strings.escape d.name ++
    (if isRegular d.mode then ", \"size\": " ++ toString d.size else "") ++ "\x7d"

def dirToJson (data : FsDirData String) : String :=
  "\x7b\"dirents\": [" ++ separated (data.dirents.map (direntToJson strings)) ++ "], \"type\": " ++
    toString data.objType ++ ", \"version\": " ++ toString data.version ++ "\x7d"

def fileToJson (data : FsFileData String) : String :=
  "\x7b\"block_ids\": [" ++ separated (data.blockIds.map strings.escape) ++ "], \"size\": " ++
    toString data.size ++ ", \"type\": " ++ toString data.objType ++ ", \"version\": " ++
    toString data.version ++ "\x7d"

def computeDir (sha1 : String → String) (data : FsDirData String) : Option (String × String) :=
  if data.dirents.isEmpty then none
  else some (sha1 (dirToJson strings data), dirToJson strings data)

def computeFile (sha1 : String → String) (data : FsFileData String) : Option (String × String) :=
  if data.size = 0 then none else some (sha1 (fileToJson strings data), fileToJson strings data)

/-- A field that is given once, or its default; other fields are passed over. -/
def jsonField {α : Type} (fields : List (String × Json)) (name : String) (default : Option α)
    (read : Json → Option α) : Option α :=
  match fields.filter fun field => field.1 = name with
  | [] => default
  | [field] => read field.2
  | _ => none

def asString : Json → Option String
  | .str text => some text
  | _ => none

def InBits (bits : Nat) (value : Int) : Prop := -2 ^ (bits - 1) ≤ value ∧ value < 2 ^ (bits - 1)

instance (bits : Nat) (value : Int) : Decidable (InBits bits value) :=
  inferInstanceAs (Decidable (_ ∧ _))

def asInt (bits : Nat) : Json → Option Int
  | .num value => if InBits bits value then some value else none
  | _ => none

def asVec {α : Type} (read : Json → Option α) : Json → Option (List α)
  | .arr items => items.mapM read
  | _ => none

def direntOfJson : Json → Option (DirEntryData String)
  | .obj fields => do
    let id ← jsonField fields "id" none asString
    let mode ← jsonField fields "mode" none (asInt 32)
    let modifier ← jsonField fields "modifier" (some "") asString
    let mtime ← jsonField fields "mtime" none (asInt 64)
    let name ← jsonField fields "name" none asString
    let size ← jsonField fields "size" (some 0) (asInt 64)
    some ⟨id, BitVec.ofInt 32 mode, modifier, mtime, name, size⟩
  | _ => none

def dirOfJson : Json → Option (FsDirData String)
  | .obj fields => do
    let dirents ← jsonField fields "dirents" none (asVec direntOfJson)
    let objType ← jsonField fields "type" none (asInt 32)
    let version ← jsonField fields "version" none (asInt 32)
    some ⟨dirents, objType, version⟩
  | _ => none

def fileOfJson : Json → Option (FsFileData String)
  | .obj fields => do
    let blockIds ← jsonField fields "block_ids" none (asVec asString)
    let size ← jsonField fields "size" none (asInt 64)
    let objType ← jsonField fields "type" none (asInt 32)
    let version ← jsonField fields "version" none (asInt 32)
    some ⟨blockIds, size, objType, version⟩
  | _ => none

def parseDir (text : String) : Option (FsDirData String) :=
  (parseJson strings text).bind dirOfJson

def parseFile (text : String) : Option (FsFileData String) :=
  (parseJson strings text).bind fileOfJson

/-- The numbers are of their types. -/
structure FsDirData.Typed (data : FsDirData String) : Prop where
  objType : InBits 32 data.objType
  version : InBits 32 data.version
  dirents : ∀ entry ∈ data.dirents, InBits 64 entry.mtime ∧ InBits 64 entry.size

structure FsFileData.Typed (data : FsFileData String) : Prop where
  size : InBits 64 data.size
  objType : InBits 32 data.objType
  version : InBits 32 data.version

/-- The value whose text is written. -/
def direntJson (d : DirEntryData String) : Json :=
  .obj ([("id", .str d.id), ("mode", .num d.mode.toInt)] ++
    (if isRegular d.mode then [("modifier", .str d.modifier)] else []) ++
    [("mtime", .num d.mtime), ("name", .str d.name)] ++
    if isRegular d.mode then [("size", .num d.size)] else [])

def dirJson (data : FsDirData String) : Json :=
  .obj [("dirents", .arr (data.dirents.map direntJson)), ("type", .num data.objType),
    ("version", .num data.version)]

def fileJson (data : FsFileData String) : Json :=
  .obj [("block_ids", .arr (data.blockIds.map .str)), ("size", .num data.size),
    ("type", .num data.objType), ("version", .num data.version)]

theorem key_text (before name : String) {text : String}
    (plain : name.toList.all (fun char => char.isAlpha || char = '_') = true)
    (isText : text = before ++ ("\"" ++ name ++ "\"" ++ ": ")) :
    text = before ++ (strings.escape name ++ ": ") := by
  rw [strings.plain name plain, isText]

theorem render_direntJson (d : DirEntryData String) :
    (direntJson d).render strings = direntToJson strings d := by
  have id := key_text strings "\x7b" "id" (by decide +kernel) (rfl : "\x7b\"id\": " = _)
  have mode := key_text strings ", " "mode" (by decide +kernel) (rfl : ", \"mode\": " = _)
  have modifier := key_text strings ", " "modifier" (by decide +kernel)
    (rfl : ", \"modifier\": " = _)
  have mtime := key_text strings ", " "mtime" (by decide +kernel) (rfl : ", \"mtime\": " = _)
  have name := key_text strings ", " "name" (by decide +kernel) (rfl : ", \"name\": " = _)
  have size := key_text strings ", " "size" (by decide +kernel) (rfl : ", \"size\": " = _)
  unfold direntToJson
  rw [id, mode, modifier, mtime, name, size]
  cases regular : isRegular d.mode <;>
    simp only [direntJson, regular, Json.render, renderFields_eq, separated, if_true, if_false,
      Bool.false_eq_true, List.cons_append, List.nil_append, List.append_nil, List.map_cons,
      List.map_nil, String.append_assoc, String.empty_append]

theorem render_dirJson (data : FsDirData String) :
    (dirJson data).render strings = dirToJson strings data := by
  have dirents := key_text strings "\x7b" "dirents" (by decide +kernel)
    (rfl : "\x7b\"dirents\": " = _)
  have objType := key_text strings ", " "type" (by decide +kernel) (rfl : ", \"type\": " = _)
  have version := key_text strings ", " "version" (by decide +kernel) (rfl : ", \"version\": " = _)
  have opening : "\x7b\"dirents\": [" = "\x7b\"dirents\": " ++ "[" := rfl
  have closing : "], \"type\": " = "]" ++ ", \"type\": " := rfl
  unfold dirToJson
  rw [opening, closing, dirents, objType, version]
  simp only [dirJson, Json.render, renderFields_eq, renderItems_eq, separated, List.map_cons,
    List.map_nil, List.map_map, Function.comp_def, render_direntJson, String.append_assoc]

theorem render_fileJson (data : FsFileData String) :
    (fileJson data).render strings = fileToJson strings data := by
  have blockIds := key_text strings "\x7b" "block_ids" (by decide +kernel)
    (rfl : "\x7b\"block_ids\": " = _)
  have size := key_text strings ", " "size" (by decide +kernel) (rfl : ", \"size\": " = _)
  have objType := key_text strings ", " "type" (by decide +kernel) (rfl : ", \"type\": " = _)
  have version := key_text strings ", " "version" (by decide +kernel) (rfl : ", \"version\": " = _)
  have opening : "\x7b\"block_ids\": [" = "\x7b\"block_ids\": " ++ "[" := rfl
  have closing : "], \"size\": " = "]" ++ ", \"size\": " := rfl
  unfold fileToJson
  rw [opening, closing, blockIds, size, objType, version]
  simp only [fileJson, Json.render, renderFields_eq, renderItems_eq, separated, List.map_cons,
    List.map_nil, List.map_map, Function.comp_def, String.append_assoc]

theorem inBits_toInt (mode : BitVec 32) : InBits 32 mode.toInt :=
  ⟨BitVec.le_toInt mode, BitVec.toInt_lt⟩

theorem direntOfJson_direntJson {d : DirEntryData String} (mtime : InBits 64 d.mtime)
    (size : InBits 64 d.size) : direntOfJson (direntJson d) = some d.written := by
  have mode := inBits_toInt d.mode
  cases regular : isRegular d.mode <;>
    simp [direntJson, direntOfJson, regular, jsonField, asString, asInt, mtime, size, mode,
      DirEntryData.written]

theorem mapM_map_some {α β γ : Type} {read : β → Option γ} {write : α → β} {result : α → γ}
    {items : List α} (reads : ∀ item ∈ items, read (write item) = some (result item)) :
    (items.map write).mapM read = some (items.map result) := by
  induction items with
  | nil => rfl
  | cons item rest ih =>
    obtain ⟨first, later⟩ := List.forall_mem_cons.mp reads
    rw [List.map_cons, List.mapM_cons, first, ih later]
    rfl

theorem parseDir_dirToJson {data : FsDirData String} (typed : data.Typed) :
    parseDir strings (dirToJson strings data) = some data.written := by
  have dirents := mapM_map_some fun entry listed =>
    direntOfJson_direntJson (typed.dirents entry listed).1 (typed.dirents entry listed).2
  rw [parseDir, ← render_dirJson, parseJson_render]
  simp [dirJson, dirOfJson, jsonField, asVec, dirents, asInt, typed.objType, typed.version,
    FsDirData.written]

theorem parseFile_fileToJson {data : FsFileData String} (typed : data.Typed) :
    parseFile strings (fileToJson strings data) = some data := by
  have blockIds : (data.blockIds.map Json.str).mapM asString = some (data.blockIds.map id) :=
    mapM_map_some fun _ _ => rfl
  rw [parseFile, ← render_fileJson, parseJson_render]
  simp [fileJson, fileOfJson, jsonField, asVec, blockIds, asInt, typed.size, typed.objType,
    typed.version]

theorem dirToJson_written (data : FsDirData String) :
    dirToJson strings data.written = dirToJson strings data := by
  have same : ∀ d : DirEntryData String,
      direntToJson strings d.written = direntToJson strings d := by
    intro d
    unfold DirEntryData.written
    split
    · rfl
    · rename_i irregular
      unfold direntToJson
      simp only [if_neg irregular]
  have texts : data.written.dirents.map (direntToJson strings) =
      data.dirents.map (direntToJson strings) := by
    rw [FsDirData.written, List.map_map]
    exact List.map_congr_left fun d _ => same d
  unfold dirToJson
  rw [texts]
  rfl

theorem dirToJson_ne_fileToJson (dir : FsDirData String) (file : FsFileData String) :
    dirToJson strings dir ≠ fileToJson strings file := by
  intro same
  rw [← render_dirJson, ← render_fileJson] at same
  have values := (parseJson_render strings _).symm.trans
    ((congrArg (parseJson strings) same).trans (parseJson_render strings _))
  simp [dirJson, fileJson] at values

theorem dirToJson_eq_iff {first second : FsDirData String} (typed : first.Typed)
    (typed' : second.Typed) :
    dirToJson strings first = dirToJson strings second ↔ first.written = second.written := by
  constructor
  · intro same
    have read := parseDir_dirToJson strings typed
    rw [same, parseDir_dirToJson strings typed'] at read
    exact (Option.some.inj read).symm
  · intro same
    rw [← dirToJson_written strings first, same, dirToJson_written]

theorem fileToJson_eq_iff {first second : FsFileData String} (typed : first.Typed)
    (typed' : second.Typed) :
    fileToJson strings first = fileToJson strings second ↔ first = second := by
  refine ⟨fun same => ?_, fun same => by rw [same]⟩
  have read := parseFile_fileToJson strings typed
  rw [same, parseFile_fileToJson strings typed'] at read
  exact (Option.some.inj read).symm

/-- The text of an object determines its kind and what is written of it, and so does its id. -/
theorem fs_json_identifies {sha1 : String → String} (injective : Function.Injective sha1) :
    (∀ dir : FsDirData String, dir.Typed →
      parseDir strings (dirToJson strings dir) = some dir.written ∧
        dirToJson strings dir.written = dirToJson strings dir) ∧
    (∀ file : FsFileData String, file.Typed →
      parseFile strings (fileToJson strings file) = some file) ∧
    (∀ first second : FsDirData String, first.Typed → second.Typed →
      (dirToJson strings first = dirToJson strings second ↔ first.written = second.written)) ∧
    (∀ first second : FsFileData String, first.Typed → second.Typed →
      (fileToJson strings first = fileToJson strings second ↔ first = second)) ∧
    (∀ dir file, dirToJson strings dir ≠ fileToJson strings file) ∧
    (∀ first second id text text', FsDirData.Typed first → FsDirData.Typed second →
      computeDir strings sha1 first = some (id, text) →
      computeDir strings sha1 second = some (id, text') → first.written = second.written) ∧
    (∀ first second id text text', FsFileData.Typed first → FsFileData.Typed second →
      computeFile strings sha1 first = some (id, text) →
      computeFile strings sha1 second = some (id, text') → first = second) ∧
    ∀ dir file id text text', computeDir strings sha1 dir = some (id, text) →
      computeFile strings sha1 file ≠ some (id, text') := by
  have ofDir : ∀ {dir id text}, computeDir strings sha1 dir = some (id, text) →
      sha1 (dirToJson strings dir) = id := by
    intro dir id text computed
    unfold computeDir at computed
    split at computed
    · cases computed
    · exact congrArg Prod.fst (Option.some.inj computed)
  have ofFile : ∀ {file id text}, computeFile strings sha1 file = some (id, text) →
      sha1 (fileToJson strings file) = id := by
    intro file id text computed
    unfold computeFile at computed
    split at computed
    · cases computed
    · exact congrArg Prod.fst (Option.some.inj computed)
  refine ⟨fun dir typed => ⟨parseDir_dirToJson strings typed, dirToJson_written strings dir⟩,
    fun _ => parseFile_fileToJson strings, fun _ _ => dirToJson_eq_iff strings,
    fun _ _ => fileToJson_eq_iff strings, dirToJson_ne_fileToJson strings, ?_, ?_, ?_⟩
  · intro first second id _ _ typed typed' isFirst isSecond
    exact (dirToJson_eq_iff strings typed typed').mp
      (injective ((ofDir isFirst).trans (ofDir isSecond).symm))
  · intro first second id _ _ typed typed' isFirst isSecond
    exact (fileToJson_eq_iff strings typed typed').mp
      (injective ((ofFile isFirst).trans (ofFile isSecond).symm))
  · intro dir file id _ _ isDir isFile
    exact dirToJson_ne_fileToJson strings dir file
      (injective ((ofDir isDir).trans (ofFile isFile).symm))

def escapeChars : List Char → List Char
  | [] => ['"']
  | char :: rest =>
    if char = '"' ∨ char = '\\' then '\\' :: char :: escapeChars rest
    else char :: escapeChars rest

def readChars : List Char → Option (List Char × List Char)
  | [] => none
  | '"' :: rest => some ([], rest)
  | '\\' :: char :: rest => (readChars rest).map fun read => (char :: read.1, read.2)
  | char :: rest => (readChars rest).map fun read => (char :: read.1, read.2)

theorem readChars_escapeChars (text rest : List Char) :
    readChars (escapeChars text ++ rest) = some (text, rest) := by
  induction text with
  | nil => rfl
  | cons char text ih =>
    rw [escapeChars]
    split
    · simp [readChars, ih]
    · rename_i plain
      rw [not_or] at plain
      simp [readChars, ih, plain]

theorem escapeChars_plain {text : List Char}
    (plain : text.all (fun char => char.isAlpha || char = '_') = true) :
    escapeChars text = text ++ ['"'] := by
  induction text with
  | nil => rfl
  | cons char text ih =>
    rw [List.all_cons, Bool.and_eq_true] at plain
    have isPlain : ¬ (char = '"' ∨ char = '\\') := by
      rintro (rfl | rfl) <;> exact absurd plain.1 (by decide)
    rw [escapeChars, if_neg isPlain, ih plain.2, List.cons_append]

/-- Quotation marks and backslashes are escaped, as `serde_json` does. -/
def quotedStrings : JsonStrings where
  escape text := "\"" ++ String.ofList (escapeChars text.toList)
  parse
    | '"' :: text => (readChars text).map fun read => (String.ofList read.1, read.2)
    | _ => none
  opens text := by simp
  inverse text rest := by simp [readChars_escapeChars]
  plain text plain := by
    apply String.toList_inj.mp
    simp [escapeChars_plain plain]

/-- A file and a directory, whose modifier and size are not written. -/
def quotedDir : FsDirData String :=
  ⟨[⟨"f", sIfreg, "\"me\"", 5, "\"a\\", 1⟩, ⟨"d", sIfdir, "me", -5, "b", 7⟩],
    seafMetadataTypeDir, 1⟩

theorem fs_json_identifies_quoted :
    parseFile quotedStrings (fileToJson quotedStrings ⟨["\"a\\"], 1, 1, 1⟩) =
      some ⟨["\"a\\"], 1, 1, 1⟩ ∧
    parseDir quotedStrings (dirToJson quotedStrings quotedDir) = some quotedDir.written := by
  have both := fs_json_identifies quotedStrings Function.injective_id
  exact ⟨both.2.1 _ ⟨by decide, by decide, by decide⟩,
    (both.1 _ ⟨by decide, by decide, by decide⟩).1⟩

end Nanofile
