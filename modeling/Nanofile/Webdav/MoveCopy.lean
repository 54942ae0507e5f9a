import Nanofile.Service.HeadEdits

/-!
# MOVE and COPY over WebDAV

The handler checks the request against the tree it was started on, deletes what is in the
way, and then moves or copies.  An entry keeps its name while it goes to another directory
and gets the new one there, so one request is up to three commits.  A request that passes its
checks goes to another path, not below a directory that it takes along, and into what was a
directory when the request came.
-/

set_option autoImplicit false

namespace Nanofile

open Nanofile.Lib

section Requests

variable {Oid : Type} [DecidableEq Oid] [Digests Oid] [ToString Oid]

inductive StatusCode where
  | created
  | noContent
  | badRequest
  | forbidden
  | conflict
  | preconditionFailed
  | internalServerError
deriving DecidableEq, Repr

def StatusCode.code : StatusCode → Nat
  | created => 201
  | noContent => 204
  | badRequest => 400
  | forbidden => 403
  | conflict => 409
  | preconditionFailed => 412
  | internalServerError => 500

def StatusCode.isError (status : StatusCode) : Bool := 400 ≤ status.code

structure WebDavAuth where
  permission : String
  repoId : String
  email : String
deriving DecidableEq, Repr

/-- The headers that are read, where they are there and text. -/
structure MoveHeaders where
  destination : Option String
  overwrite : Option String
deriving DecidableEq, Repr

def parseOverwrite (headers : MoveHeaders) : Bool := headers.overwrite ≠ some "F"

def normalizeWebdavPath (raw : String) : Except StatusCode String :=
  (safeNormalizePath ("/" ++ raw)).mapError fun _ => .badRequest

/-- The path of a URL whose scheme is cut off, or of what is a path already. -/
def urlPath (afterScheme : String) : Except StatusCode String :=
  if afterScheme.toList.head? = some '/' then .ok afterScheme
  else match Text.splitOnce "/" afterScheme with
    | some (_, path) => .ok ("/" ++ path)
    | none => .error .badRequest

/-- `parse_destination`: the library and the path in it.  `percentDecode` decodes the escapes
of a URL and replaces what is no text. -/
def parseDestination (percentDecode : String → String) (dest : String) :
    Except StatusCode (String × String) := do
  let afterScheme := match Text.splitOnce "://" dest with
    | some (_, rest) => rest
    | none => dest
  let pathPart ← urlPath afterScheme
  match Text.stripPrefix "/dav/" (percentDecode (Text.beforeAny ['?', '#'] pathPart)) with
  | none => .error .badRequest
  | some rest =>
    let cut := (Text.splitOnce "/" rest).getD (rest, "")
    if cut.1 = "" then .error .badRequest
    else do
      let normalized ← (safeNormalizePath (if cut.2 = "" then "/" else "/" ++ cut.2)).mapError
        fun _ => .badRequest
      .ok (cut.1, normalized)

/-- A library without a commit has the empty text as its root id. -/
structure HeadContext (Oid : Type) where
  rootId : Option Oid
deriving DecidableEq, Repr

def resolveHead (repo : Repo Oid) : Except AppError (HeadContext Oid) :=
  match repo.headCommitId with
  | none => .ok ⟨none⟩
  | some headCommitId =>
    match repo.commits.find headCommitId with
    | none => .error (.notFound "head commit not found")
    | some head => .ok ⟨some head.rootId⟩

/-- What these handlers read of a path's metadata. -/
structure EntryMeta where
  isDir : Bool
  size : Int
deriving DecidableEq, Repr

def entryWithHead (store : FsStore Oid) (head : HeadContext Oid) (path : String) :
    Except AppError (DirEntryData Oid) := do
  let root ← okOr head.rootId (.notFound "")
  let parentFsId ← resolveSegments store (pathComponents (parentPathFrom path)) root
  let dirData ← readFsDirData store parentFsId
  okOr (findEntry dirData.dirents (basename path)) (.notFound path)

/-- `entry_metadata_with_head`; nothing there and nothing readable are the same. -/
def entryMetadataWithHead (repo : Repo Oid) (head : HeadContext Oid) (path : String) :
    Option EntryMeta :=
  if path = "/" ∨ path = "" then some ⟨true, repo.size⟩
  else (entryWithHead repo.fsObjects head path).toOption.map fun entry =>
    ⟨hasDirBit entry.mode, entry.size⟩

def isDirWithHead (repo : Repo Oid) (head : HeadContext Oid) (path : String) : Bool :=
  (entryMetadataWithHead repo head path).any EntryMeta.isDir

structure MoveTarget where
  path : String
  existed : Bool
deriving DecidableEq, Repr

def refuseUnless (condition : Prop) [Decidable condition] (status : StatusCode) :
    Except StatusCode Unit :=
  if condition then .ok () else .error status

def checkMoveCopy (percentDecode : String → String) (auth : WebDavAuth) (srcPath : String)
    (headers : MoveHeaders) (head : HeadContext Oid) (repo : Repo Oid) :
    Except StatusCode MoveTarget := do
  refuseUnless (auth.permission = "rw") .forbidden
  refuseUnless (srcPath ≠ "/") .forbidden
  let dest ← headers.destination.elim (.error .badRequest) (parseDestination percentDecode)
  refuseUnless (dest.1 = auth.repoId) .forbidden
  refuseUnless (dest.2 ≠ "/" ∧ dest.2 ≠ srcPath) .forbidden
  -- A directory does not go into its own subtree.
  refuseUnless (¬ (isDirWithHead repo head srcPath ∧
    (srcPath ++ "/").toList.isPrefixOf dest.2.toList)) .forbidden
  refuseUnless (isDirWithHead repo head (parentPathFrom dest.2)) .conflict
  let existed := (entryMetadataWithHead repo head dest.2).isSome
  refuseUnless (existed → parseOverwrite headers) .preconditionFailed
  .ok ⟨dest.2, existed⟩

/-- `do_move`; the kind only words the commits and the errors. -/
def doMove (email : String) (head : HeadContext Oid) (src dst : String) : Web Oid Unit := do
  let srcName := basename src
  let dstParent := parentPathFrom dst
  let dstName := basename dst
  let isDirectory ← .read fun state => isDirWithHead state.repo head src
  if parentPathFrom src = dstParent then renameEntry src dstName email isDirectory
  else
    let _ ← moveEntry src dstParent email isDirectory
    if dstName ≠ srcName then renameEntry (joinPath dstParent srcName) dstName email isDirectory
    else pure ()

def doCopy (limits : Limits) (email : String) (head : HeadContext Oid) (src dst : String) :
    Web Oid Unit := do
  let srcName := basename src
  let dstParent := parentPathFrom dst
  let dstName := basename dst
  let _ ← batchCopy limits (parentPathFrom src) dstParent [srcName] email
  if dstName ≠ srcName then
    let isDirectory ← .read fun state =>
      isDirWithHead state.repo head (joinPath dstParent srcName)
    renameEntry (joinPath dstParent srcName) dstName email isDirectory
  else pure ()

/-- What `move_copy_handler` does once its checks have passed: the overwritten entry goes
first. -/
def replaceTarget (limits : Limits) (email : String) (head : HeadContext Oid) (isMove : Bool)
    (src : String) (target : MoveTarget) : Web Oid Unit := do
  if target.existed then Web.deleteDirent limits target.path email else pure ()
  if isMove then doMove email head src target.path else doCopy limits email head src target.path

def moveCopyHandler (limits : Limits) (percentDecode : String → String) (auth : WebDavAuth)
    (srcPath : String) (headers : MoveHeaders) (isMove : Bool) (head : HeadContext Oid)
    (state : WebState Oid) : StatusCode × WebState Oid :=
  match checkMoveCopy percentDecode auth srcPath headers head state.repo with
  | .error status => (status, state)
  | .ok target =>
    match replaceTarget limits auth.email head isMove srcPath target state with
    | (.error _, after) => (.internalServerError, after)
    | (.ok (), after) => (if target.existed then .noContent else .created, after)

end Requests

variable {Oid : Type} [DecidableEq Oid] [Digests Oid]

/-- What has the directory bit is a directory, and what is none lists nothing. -/
def HeadKinds (repo : Repo Oid) : Prop :=
  ∀ {root : Oid} {upper : List String} {name : String} {entry : DirEntryData Oid},
    resolveRootFsId repo = .ok root → FoundAt repo.fsObjects upper name root entry →
    (hasDirBit entry.mode = true → isDir entry.mode = true) ∧
      (isDir entry.mode = false → entriesOf repo.fsObjects entry.id = [])

/-- HEAD is a stored tree of files and directories with unique names. -/
structure LibraryTree (repo : Repo Oid) : Prop where
  genuine : Genuine repo.fsObjects
  stored : HeadStored repo
  unique : HeadUnique repo
  kinds : HeadKinds repo

theorem libraryTree_of_wellFormed {repo : Repo Oid} (genuine : Genuine repo.fsObjects)
    (formed : ∀ root, resolveRootFsId repo = .ok root →
      StandsFor repo.fsObjects root (entriesOf repo.fsObjects root) ∧
        WellFormed repo.fsObjects (entriesOf repo.fsObjects root)) : LibraryTree repo := by
  refine ⟨genuine, fun root isRoot => ?_, fun root isRoot => ?_, ?_⟩
  · exact treeStored_of_wellFormed (formed root isRoot).2 (formed root isRoot).1
  · exact (formed root isRoot).2.uniqueNames
  · intro root upper name entry isRoot found
    obtain ⟨dir, entries, resolves, stands, isEntry⟩ := found
    have listed := (lookup_eq_some isEntry).1
    have ok : EntryOk repo.fsObjects entry := by
      rw [← stands.entries, ← resolves.dirAt_eq] at listed
      rcases (formed root isRoot).2.below_dirAt upper with below | isEmpty
      · exact ((formed root isRoot).2 _ below).2 entry listed
      · simp [isEmpty] at listed
    rcases ok with ⟨regular, notDir⟩ | ⟨directory, -⟩
    · refine ⟨fun bit => ?_, fun _ => by rw [entriesOf, notDir]; rfl⟩
      simp [not_hasDirBit_of_isRegular regular] at bit
    · exact ⟨fun _ => directory, fun file => by simp [directory] at file⟩

variable {parts : List String} {entries : List (DirEntryData Oid)}

theorem DirAt.nodup {repo : Repo Oid} {root : Oid} (unique : HeadUnique repo)
    (isRoot : resolveRootFsId repo = .ok root) (lists : DirAt repo.fsObjects parts root entries) :
    NamesNodup entries := by
  obtain ⟨dir, resolves, stands⟩ := lists
  have here := unique root isRoot parts
  rwa [resolves.dirAt_eq, stands.entries] at here

variable {name : String}

theorem pathOf_below {upper rest : List String} {next : String} :
    pathOf (upper ++ [name] ++ next :: rest) =
      pathOf (upper ++ [name]) ++ "/" ++ (next ++ slashed rest) := by
  rw [pathOf_eq, if_neg (by simp [slashed_eq_empty_iff]), pathOf_concat]
  simp [slashed, String.append_assoc]

theorem prefix_pathOf {upper lower : List String} {next : String}
    (below : upper ++ [name] <+: lower) :
    (pathOf (upper ++ [name]) ++ "/").toList.isPrefixOf (pathOf (lower ++ [next])).toList = true := by
  obtain ⟨rest, rfl⟩ := below
  rw [List.isPrefixOf_iff_prefix]
  cases rest with
  | nil =>
    rw [List.append_nil, show upper ++ [name] ++ [next] = upper ++ [name] ++ next :: [] from rfl,
      pathOf_below]
    exact ⟨_, String.toList_append.symm⟩
  | cons first rest =>
    rw [List.append_assoc _ (first :: rest), List.cons_append, pathOf_below]
    exact ⟨_, String.toList_append.symm⟩

variable [ToString Oid] {repo : Repo Oid} {root : Oid} {path : String} {entry : DirEntryData Oid}

theorem entryWithHead_eq_ok_iff {store : FsStore Oid}
    (lists : DirAt store (pathComponents (parentPathFrom path)) root entries) :
    entryWithHead store ⟨some root⟩ path = .ok entry ↔ lookup entries (basename path) = some entry := by
  obtain ⟨dir, resolves, stands⟩ := lists
  obtain ⟨data, read, rfl⟩ := stands.read
  simp only [entryWithHead, except_bind_ok_iff, okOr_eq_ok_iff, Option.some.injEq]
  constructor
  · rintro ⟨_, rfl, dir', resolved, data', read', found⟩
    obtain rfl : dir = dir' := Except.ok.inj (resolves.resolveSegments.symm.trans resolved)
    obtain rfl : data = data' := Except.ok.inj (read.symm.trans read')
    exact found
  · exact fun found => ⟨root, rfl, dir, resolves.resolveSegments, data, read, found⟩

variable {head : HeadContext Oid}

omit [Digests Oid] [ToString Oid] in
theorem isRoot_of_resolveHead (isHead : resolveHead repo = .ok head)
    (isRoot : resolveRootFsId repo = .ok root) : head = ⟨some root⟩ := by
  obtain ⟨headId, row, isId, found, rfl⟩ := resolveRootFsId_eq_ok_iff.mp isRoot
  rw [resolveHead, isId] at isHead
  dsimp only at isHead
  rw [found] at isHead
  exact (Except.ok.inj isHead).symm

theorem metadata_isSome_iff (below : path ≠ "/") (nonempty : path ≠ "") :
    (entryMetadataWithHead repo head path).isSome = true ↔
      ∃ entry, entryWithHead repo.fsObjects head path = .ok entry := by
  rw [entryMetadataWithHead, if_neg (by simp [below, nonempty]), Option.isSome_map]
  cases entryWithHead repo.fsObjects head path with
  | error failure | ok entry => simp [Except.toOption]

theorem isDirWithHead_iff (below : path ≠ "/") (nonempty : path ≠ "") :
    isDirWithHead repo head path = true ↔
      ∃ entry, entryWithHead repo.fsObjects head path = .ok entry ∧ hasDirBit entry.mode = true := by
  rw [isDirWithHead, entryMetadataWithHead, if_neg (by simp [below, nonempty])]
  cases entryWithHead repo.fsObjects head path with
  | error failure | ok entry => simp [Except.toOption]

theorem DirAt.metadata_iff (lists : DirAt repo.fsObjects parts root entries)
    (plain : PlainNames (parts ++ [name])) :
    (entryMetadataWithHead repo ⟨some root⟩ (pathOf (parts ++ [name]))).isSome = true ↔
      name ∈ entries.map DirEntryData.name := by
  have below : pathOf (parts ++ [name]) ≠ "/" :=
    fun same => by simpa using (pathOf_eq_root_iff plain).mp same
  have nonempty : pathOf (parts ++ [name]) ≠ "" := by
    rw [pathOf_concat]
    intro isEmpty
    have long := congrArg String.length isEmpty
    simp [String.length_append] at long
  have lists : DirAt repo.fsObjects
      (pathComponents (parentPathFrom (pathOf (parts ++ [name])))) root entries := by
    rwa [parentPathFrom_pathOf parts plain.last.2, pathComponents_pathOf plain.left]
  simp only [metadata_isSome_iff below nonempty, entryWithHead_eq_ok_iff lists,
    basename_pathOf parts plain.last.2, exists_lookup_iff]

structure Accepted (repo : Repo Oid) (head : HeadContext Oid) (src : String)
    (target : MoveTarget) : Prop where
  srcBelow : src ≠ "/"
  plain : PlainPath target.path
  below : target.path ≠ "/"
  other : target.path ≠ src
  outside : ¬ (isDirWithHead repo head src = true ∧
    (src ++ "/").toList.isPrefixOf target.path.toList = true)
  parent : isDirWithHead repo head (parentPathFrom target.path) = true
  existed : target.existed = (entryMetadataWithHead repo head target.path).isSome

theorem refuseUnless_ok_iff {condition : Prop} [Decidable condition] {status : StatusCode} {done : Unit} :
    refuseUnless condition status = .ok done ↔ condition := by
  unfold refuseUnless
  split
  · rename_i holds
    simp [holds]
  · rename_i fails
    simp [fails]

theorem plainPath_of_parseDestination {percentDecode : String → String} {dest : String}
    {found : String × String} (parsed : parseDestination percentDecode dest = .ok found) :
    PlainPath found.2 := by
  unfold parseDestination at parsed
  obtain ⟨pathPart, -, parsed⟩ := except_bind_ok_iff.mp parsed
  split at parsed
  · cases parsed
  · dsimp only at parsed
    split at parsed
    · cases parsed
    · obtain ⟨normalized, normal, same⟩ := except_bind_ok_iff.mp parsed
      cases same
      exact plainPath_of_safeNormalizePath (mapError_eq_ok_iff.mp normal)

variable {src : String} {target : MoveTarget}

theorem accepted_of_check {percentDecode : String → String} {auth : WebDavAuth}
    {headers : MoveHeaders}
    (checked : checkMoveCopy percentDecode auth src headers head repo = .ok target) :
    Accepted repo head src target := by
  unfold checkMoveCopy at checked
  obtain ⟨_, -, checked⟩ := except_bind_ok_iff.mp checked
  obtain ⟨_, srcBelow, checked⟩ := except_bind_ok_iff.mp checked
  obtain ⟨dest, destined, checked⟩ := except_bind_ok_iff.mp checked
  obtain ⟨_, -, checked⟩ := except_bind_ok_iff.mp checked
  obtain ⟨_, apart, checked⟩ := except_bind_ok_iff.mp checked
  obtain ⟨_, outside, checked⟩ := except_bind_ok_iff.mp checked
  obtain ⟨_, parent, checked⟩ := except_bind_ok_iff.mp checked
  obtain ⟨_, -, checked⟩ := except_bind_ok_iff.mp checked
  cases checked
  have apart := refuseUnless_ok_iff.mp apart
  obtain ⟨destStr, parsed⟩ : ∃ destStr, parseDestination percentDecode destStr = .ok dest := by
    cases found : headers.destination with
    | none => simp [found] at destined
    | some destStr => exact ⟨destStr, by simpa [found] using destined⟩
  exact ⟨refuseUnless_ok_iff.mp srcBelow, plainPath_of_parseDestination parsed, apart.1, apart.2,
    refuseUnless_ok_iff.mp outside, refuseUnless_ok_iff.mp parent, rfl⟩

omit [ToString Oid] in
theorem dirAt_below (library : LibraryTree repo) (isRoot : resolveRootFsId repo = .ok root)
    (found : FoundAt repo.fsObjects parts name root entry) (directory : isDir entry.mode = true) :
    ∃ entries, DirAt repo.fsObjects (parts ++ [name]) root entries := by
  obtain ⟨dir, listed, resolves, stands, isEntry⟩ := found
  have below : Resolves repo.fsObjects (parts ++ [name]) root entry.id :=
    resolves_append.mpr ⟨dir, resolves, listed, entry, stands, isEntry, directory, rfl⟩
  obtain ⟨entries, standsBelow⟩ := library.stored root isRoot _ _ below
  exact ⟨entries, entry.id, below, standsBelow⟩

theorem dirAt_of_entryWithHead (library : LibraryTree repo)
    (isRoot : resolveRootFsId repo = .ok root)
    (found : entryWithHead repo.fsObjects ⟨some root⟩ path = .ok entry) :
    FoundAt repo.fsObjects (pathComponents (parentPathFrom path)) (basename path) root entry := by
  simp only [entryWithHead, except_bind_ok_iff, okOr_eq_ok_iff, Option.some.injEq] at found
  obtain ⟨_, rfl, dir, resolved, data, read, isEntry⟩ := found
  have stands := standsFor_of_readFsDirData read
  rcases List.eq_nil_or_concat (pathComponents (parentPathFrom path)) with isNil | ⟨upper, last, isConcat⟩
  · rw [isNil] at resolved ⊢
    cases resolved
    exact ⟨_, data.dirents, rfl, stands, isEntry⟩
  · rw [List.concat_eq_append] at isConcat
    rw [isConcat] at resolved ⊢
    obtain ⟨passed, isPassed, rfl⟩ := resolveSegments_concat_iff.mp resolved
    have directory : isDir passed.mode = true := by
      by_contra file
      have none := (library.kinds isRoot isPassed).2 (by simpa using file)
      rw [stands.entries] at none
      simp [findEntry, none] at isEntry
    obtain ⟨outer, listed, resolves, standsOuter, isLast⟩ := isPassed
    exact ⟨passed.id, data.dirents, resolves_append.mpr ⟨outer, resolves, listed, passed,
      standsOuter, isLast, directory, rfl⟩, stands, isEntry⟩

theorem Accepted.dirAt (library : LibraryTree repo) (isRoot : resolveRootFsId repo = .ok root)
    (accepted : Accepted repo ⟨some root⟩ src target) :
    ∃ entries, DirAt repo.fsObjects (pathComponents (parentPathFrom target.path)) root entries := by
  obtain ⟨plain, -⟩ := pathComponents_eq_of_plain accepted.plain accepted.below
  by_cases atRoot : parentPathFrom target.path = "/"
  · have isNil : pathComponents (parentPathFrom target.path) = [] := by
      rw [atRoot]
      decide
    obtain ⟨entries, stands⟩ := library.stored root isRoot [] root rfl
    exact ⟨entries, root, by rw [isNil]; rfl, stands⟩
  · have nonempty : parentPathFrom target.path ≠ "" := by
      intro isEmpty
      rw [PlainPath, isEmpty] at plain
      exact absurd plain (by decide)
    obtain ⟨entry, found, directory⟩ := (isDirWithHead_iff atRoot nonempty).mp accepted.parent
    have isFound := dirAt_of_entryWithHead library isRoot found
    rw [(pathComponents_eq_of_plain plain atRoot).2]
    exact dirAt_below library isRoot isFound ((library.kinds isRoot isFound).1 directory)

theorem Accepted.existed_iff (accepted : Accepted repo ⟨some root⟩ src target)
    (lists : DirAt repo.fsObjects (pathComponents (parentPathFrom target.path)) root entries) :
    target.existed = true ↔ basename target.path ∈ entries.map DirEntryData.name := by
  obtain ⟨-, cut⟩ := pathComponents_eq_of_plain accepted.plain accepted.below
  have plain := plainNames_pathComponents target.path
  rw [accepted.existed]
  rw [cut] at plain
  have text : target.path =
      pathOf (pathComponents (parentPathFrom target.path) ++ [basename target.path]) := by
    rw [← cut]
    exact accepted.plain
  rw [← lists.metadata_iff plain, ← text]

theorem Accepted.not_above (accepted : Accepted repo ⟨some root⟩ src target) (plain : PlainPath src)
    (found : FoundAt repo.fsObjects (pathComponents (parentPathFrom src)) (basename src) root entry)
    (lists : DirAt repo.fsObjects (pathComponents (parentPathFrom target.path)) root entries) :
    ¬ pathComponents (parentPathFrom src) ++ [basename src] <+:
      pathComponents (parentPathFrom target.path) := by
  intro above
  obtain ⟨passed, isPassed, directory⟩ := lists.passed above
  obtain rfl := found.unique isPassed
  obtain ⟨listed, listsSrc, isEntry⟩ := found.dirAt
  have nonempty : src ≠ "" := by
    intro isEmpty
    rw [PlainPath, isEmpty] at plain
    exact absurd plain (by decide)
  refine accepted.outside ⟨(isDirWithHead_iff accepted.srcBelow nonempty).mpr
    ⟨entry, (entryWithHead_eq_ok_iff listsSrc).mpr isEntry, hasDirBit_of_isDir directory⟩, ?_⟩
  have cut := (pathComponents_eq_of_plain accepted.plain accepted.below).2
  have cutSrc := (pathComponents_eq_of_plain plain accepted.srcBelow).2
  rw [plain, accepted.plain, cut, cutSrc]
  exact prefix_pathOf above

end Nanofile
