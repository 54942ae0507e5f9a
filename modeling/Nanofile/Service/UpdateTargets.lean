import Nanofile.Service.UploadReports

/-!
# The file an update names

Four endpoints replace the file at `target_file`.  Each cuts the text at its last slash in its
own words; what they hand to the upload is a directory and a name.
-/

set_option autoImplicit false

namespace Nanofile

open Nanofile.Lib

inductive UpdateEndpoint where
  /-- `update_api`, with the session's cookie -/
  | updateApi
  /-- `update_aj`, with the session's cookie -/
  | updateAj
  /-- `update_api_handler`, with a token -/
  | updateApiHandler
  /-- `update_aj_token` -/
  | updateAjToken
deriving DecidableEq

/-- The part before the last slash; the root when it is empty or there is none. -/
def dirPart (target : String) : String :=
  match Text.rsplitOnce '/' target with
  | some (parent, _) => if parent = "" then "/" else parent
  | none => "/"

def namePart (target : String) : String :=
  match Text.rsplitOnce '/' target with
  | some (_, name) => name
  | none => target

def computeTargetDir (parentDir relativePath : String) : Except AppError String :=
  (safeJoinPath parentDir relativePath).mapError fun failure => .badRequest ("Invalid path: " ++
    failure ++ ". Please ensure the path does not contain '..' components that would escape " ++
    "the repository.")

namespace UpdateEndpoint

def cut (endpoint : UpdateEndpoint) (target : String) : Option (String × String) :=
  match endpoint with
  | updateApi | updateAj =>
    let parent := ((Text.rsplitOnce '/' target).map fun parts =>
      if parts.1 = "" then "/" else parts.1).getD "/"
    let name := ((Text.rsplitOnce '/' target).map Prod.snd).getD target
    some (parent, name)
  | updateApiHandler =>
    let (rawParent, rawName) := (Text.rsplitOnce '/' target).getD ("/", target)
    some (if rawParent = "" then "/" else rawParent, rawName)
  | updateAjToken => do
      let slashPos := (Text.rfind '/' target).getD 0
      let rawParent ← if slashPos = 0 then some "/" else Text.sliceTo target slashPos
      let name ← Text.sliceFrom target (slashPos + 1)
      some (rawParent, name)

/-- The endpoints with a token compute the directory, with an empty `relative_path`; an update
token has no link that would clamp it. -/
def targetDir (endpoint : UpdateEndpoint) (parent : String) : Except AppError String :=
  match endpoint with
  | updateApi | updateAj => .ok parent
  | updateApiHandler | updateAjToken => computeTargetDir parent ""

/-- The endpoints without a token create the directory when it is missing. -/
def ensureDir (endpoint : UpdateEndpoint) : Bool :=
  match endpoint with
  | updateApi | updateAj => true
  | updateApiHandler | updateAjToken => false

end UpdateEndpoint

/-- The directory of the library that is addressed, and the name of the file in it. -/
def inDirectory (parts : String × String) : Except String (String × String) :=
  (safeJoinPath parts.1 "").map fun dir => (dir, parts.2)

def addressed (endpoint : UpdateEndpoint) (target : String) :
    Option (Except String (String × String)) :=
  (endpoint.cut target).map inDirectory

def clientNamed (target : String) : Except String (String × String) :=
  inDirectory (dirPart target, namePart target)

variable {endpoint : UpdateEndpoint} {target : String}

theorem cut_of_rsplit (cuts : endpoint ≠ .updateAjToken) :
    endpoint.cut target = some (dirPart target, namePart target) := by
  unfold dirPart namePart
  cases endpoint with
  | updateApi | updateAj | updateApiHandler =>
    cases found : Text.rsplitOnce '/' target <;> simp [UpdateEndpoint.cut, found]
  | updateAjToken => exact absurd rfl cuts

theorem cut_of_slash (slash : '/' ∈ target.toList) (endpoint : UpdateEndpoint) :
    endpoint.cut target = some (dirPart target, namePart target) := by
  by_cases cuts : endpoint = .updateAjToken
  · subst cuts
    cases found : Text.rsplitOnce '/' target with
    | none => exact absurd slash (Text.rsplitOnce_eq_none found)
    | some parts =>
      obtain ⟨parent, name⟩ := parts
      obtain ⟨joined, -⟩ := Text.rsplitOnce_eq_some found
      have after : Text.sliceFrom target (parent.utf8ByteSize + 1) = some name := by
        rw [joined]
        have size : (parent ++ String.singleton '/').utf8ByteSize = parent.utf8ByteSize + 1 := by
          rw [String.utf8ByteSize_append, String.utf8ByteSize_singleton]
          rfl
        rw [← size, Text.sliceFrom_append]
      have before : Text.sliceTo target parent.utf8ByteSize = some parent := by
        rw [joined, String.append_assoc]
        exact Text.sliceTo_append parent _
      simp only [UpdateEndpoint.cut, Text.rfind, found, Option.map_some, Option.getD_some,
        dirPart, namePart, String.utf8ByteSize_eq_zero_iff, after, before]
      split <;> rfl
  · exact cut_of_rsplit cuts

theorem cut_of_no_slash {parts : String × String} (noSlash : '/' ∉ target.toList)
    (cut : UpdateEndpoint.updateAjToken.cut target = some parts) :
    parts.1 = "/" ∧ parts.2 ≠ target := by
  have uncut := Text.rsplitOnce_of_not_mem noSlash
  simp only [UpdateEndpoint.cut, Text.rfind, uncut, Option.map_none, Option.getD_none] at cut
  obtain ⟨name, after, same⟩ := Option.bind_eq_some_iff.mp cut
  cases same
  have size := Text.sliceFrom_size after
  refine ⟨rfl, fun isTarget => ?_⟩
  obtain rfl : name = target := isTarget
  omega

theorem addressed_eq_named_iff :
    (∀ endpoint, addressed endpoint target = some (clientNamed target)) ↔ '/' ∈ target.toList := by
  constructor
  · intro same
    by_contra noSlash
    obtain ⟨parts, cut, isNamed⟩ := Option.map_eq_some_iff.mp (same .updateAjToken)
    obtain ⟨atRoot, otherName⟩ := cut_of_no_slash noSlash cut
    have uncut := Text.rsplitOnce_of_not_mem noSlash
    have isRoot : safeJoinPath "/" "" = .ok "/" := by decide
    simp only [clientNamed, dirPart, namePart, uncut, inDirectory, atRoot, isRoot] at isNamed
    exact otherName (congrArg Prod.snd (Except.ok.inj isNamed))
  · intro slash endpoint
    rw [addressed, cut_of_slash slash endpoint]
    rfl

section Requests

variable {Oid : Type} [DecidableEq Oid] [Digests Oid] [ToString Oid] (limits : Limits)

def entryExists (repo : Repo Oid) (path : String) : Bool :=
  match resolveDirent repo path with
  | .ok (some _) => true
  | _ => false

def requireTargetExists (targetDir name : String) : Web Oid Unit := do
  let path ← badRequest "invalid path: " (safeJoinPath targetDir name)
  .tryRead fun state => ensure (entryExists state.repo path) .notExists

/-- The update of the file that was cut out, by a signed-in user and with its blocks stored. -/
def UpdateEndpoint.updateFile (endpoint : UpdateEndpoint) (parts : String × String)
    (blockIds : List Oid) (totalSize : Int) (modifier : String) (withinQuota : Bool) :
    Web Oid (Oid × String) := do
  let dir ← .tryRead fun _ => endpoint.targetDir parts.1
  requireTargetExists dir parts.2
  uploadFileCommittedStream limits dir parts.2 blockIds totalSize modifier true
    endpoint.ensureDir true withinQuota

/-- What an endpoint does with a `target_file` that is not empty; none where it panics. -/
def UpdateEndpoint.update (endpoint : UpdateEndpoint) (target : String) (blockIds : List Oid)
    (totalSize : Int) (modifier : String) (withinQuota : Bool) : Option (Web Oid (Oid × String)) :=
  (endpoint.cut target).map fun parts =>
    endpoint.updateFile limits parts blockIds totalSize modifier withinQuota

end Requests

variable {Oid : Type} [DecidableEq Oid] [Digests Oid] [ToString Oid] {limits : Limits}

/-- The file that the client named has the new content, and the rest is kept. -/
def FileReplaced (before after : Repo Oid) (target effective : String) (fsId : Oid) : Prop :=
  effective = namePart target ∧ UploadKept before after (dirPart target) (namePart target) fsId

variable {dir : String}

theorem uploadFileCommittedStream_name {before final : WebState Oid}
    {filename modifier effective : String} {blockIds : List Oid} {totalSize : Int}
    {hasUser ensureDir withinQuota : Bool} {fsId : Oid}
    (run : uploadFileCommittedStream limits dir filename blockIds totalSize modifier hasUser
      ensureDir true withinQuota before = (.ok (fsId, effective), final)) :
    effective = filename ∧ ∃ path, safeJoinPath dir filename = .ok path := by
  obtain ⟨_, checked, checking, run⟩ := Proc.bind_ok_iff.mp run
  obtain ⟨path, parsed, parsing, run⟩ := Proc.bind_ok_iff.mp run
  obtain ⟨oldSize, sized, sizing, run⟩ := Proc.bind_ok_iff.mp run
  obtain ⟨_, allowed, allowing, run⟩ := Proc.bind_ok_iff.mp run
  obtain ⟨middle, run⟩ : ∃ middle, (do
      let added ← .mapFailure (internalError "upload failed")
        (createFileFromBlocks dir filename blockIds totalSize modifier true)
      let _ ← .tryRead fun _ => (safeJoinPath dir added.2).mapError fun failure =>
        .badRequest ("invalid filename: " ++ failure)
      adjustRepoSize limits (totalSize - oldSize)
      pure added : Web Oid (Oid × String)) middle = (.ok (fsId, effective), final) := by
    split at run
    · obtain ⟨_, middle, ensuring, run⟩ := Proc.bind_ok_iff.mp run
      exact ⟨middle, run⟩
    · exact ⟨allowed, run⟩
  obtain ⟨added, created, creating, run⟩ := Proc.bind_ok_iff.mp run
  obtain ⟨path', reparsed, reparsing, run⟩ := Proc.bind_ok_iff.mp run
  obtain ⟨_, adjusted, adjusting, done⟩ := Proc.bind_ok_iff.mp run
  cases done
  obtain ⟨isPath, -⟩ := Proc.tryRead_ok_iff.mp parsing
  refine ⟨?_, path, mapError_eq_ok_iff.mp isPath⟩
  have creating := Proc.mapFailure_ok_iff.mp creating
  obtain ⟨time, clocked, tick, creating⟩ := Proc.bind_ok_iff.mp creating
  obtain ⟨fileId, held, storing, creating⟩ := Proc.bind_ok_iff.mp creating
  obtain ⟨parent, resolved, resolving, creating⟩ := Proc.bind_ok_iff.mp creating
  obtain ⟨data, read, reading, creating⟩ := Proc.bind_ok_iff.mp creating
  obtain ⟨newDir, written, writing, creating⟩ := Proc.bind_ok_iff.mp creating
  obtain ⟨top, rebuilt, rebuilding, creating⟩ := Proc.bind_ok_iff.mp creating
  obtain ⟨_, committed, committing, done⟩ := Proc.bind_ok_iff.mp creating
  cases done
  rcases addFile_cases fsId filename modifier totalSize time true data.dirents with
    ⟨-, isAdded⟩ | ⟨-, -, isAdded⟩ | ⟨keeps, -⟩
  · rw [isAdded]
  · rw [isAdded]
  · cases keeps

variable {name parent : String}

theorem safeJoinPath_again {path : String} (isDir : safeJoinPath parent "" = .ok dir)
    (joined : safeJoinPath dir name = .ok path) : safeJoinPath parent name = .ok path := by
  obtain ⟨plain, noDots⟩ := safeJoinPath_plain isDir
  obtain ⟨canonical, isCanonical, below⟩ := except_bind_ok_iff.mp joined
  obtain ⟨canonical', isCanonical', same⟩ := except_bind_ok_iff.mp isDir
  have isDir' : canonical' = dir := by
    rw [if_pos (by decide)] at same
    exact Except.ok.inj same
  have again : canonical = dir := by
    unfold canonicalizePath at isCanonical
    cases parts : canonicalParts dir with
    | error failure =>
      rw [parts] at isCanonical
      cases isCanonical
    | ok found =>
      rw [parts] at isCanonical
      cases isCanonical
      rw [canonicalParts_of_noDots noDots parts]
      exact plain.symm
  refine except_bind_ok_iff.mpr ⟨dir, isDir' ▸ isCanonical', ?_⟩
  rw [← again]
  exact below

theorem UpdateEndpoint.targetDir_joined {path : String}
    (isDir : endpoint.targetDir parent = .ok dir) (joined : safeJoinPath dir name = .ok path) :
    safeJoinPath parent name = .ok path := by
  cases endpoint with
  | updateApi | updateAj =>
    cases isDir
    exact joined
  | updateApiHandler | updateAjToken => exact safeJoinPath_again (mapError_eq_ok_iff.mp isDir) joined

/-- Every endpoint addresses the file that is named exactly where the target has a slash.  An
update that is accepted replaces that file exactly when the endpoint does not cut bytes where
there is no slash and the upload is found where it is reported. -/
theorem update_replaces_named_iff {target : String} :
    ((∀ endpoint, addressed endpoint target = some (clientNamed target)) ↔
      '/' ∈ target.toList) ∧
    ∀ {endpoint : UpdateEndpoint} {blockIds : List Oid} {totalSize : Int} {modifier : String}
      {withinQuota : Bool} {update : Web Oid (Oid × String)} {before final : WebState Oid}
      {fsId : Oid} {effective : String},
      Genuine before.repo.fsObjects → HeadStored before.repo → HeadNoDots before.repo →
      endpoint.update limits target blockIds totalSize modifier withinQuota = some update →
      update before = (.ok (fsId, effective), final) →
      (FileReplaced before.repo final.repo target effective fsId ↔
        (endpoint = .updateAjToken → '/' ∈ target.toList) ∧
        ∃ dir, endpoint.targetDir (dirPart target) = .ok dir ∧
          UploadSound before.repo dir (namePart target) blockIds totalSize true) := by
  refine ⟨addressed_eq_named_iff, ?_⟩
  intro endpoint blockIds totalSize modifier withinQuota update before final fsId effective genuine
    tree noDots isUpdate run
  obtain ⟨parts, cut, rfl⟩ := Option.map_eq_some_iff.mp isUpdate
  obtain ⟨dir, computed, computing, run⟩ := Proc.bind_ok_iff.mp run
  obtain ⟨_, required, requiring, run⟩ := Proc.bind_ok_iff.mp run
  obtain ⟨isDir, rfl⟩ := Proc.tryRead_ok_iff.mp computing
  obtain ⟨path, parsed, parsing, exists_⟩ := Proc.bind_ok_iff.mp requiring
  obtain ⟨-, rfl⟩ := badRequest_ok_iff.mp parsing
  obtain ⟨-, rfl⟩ := Proc.tryRead_ok_iff.mp exists_
  obtain ⟨rfl, path', joined⟩ := uploadFileCommittedStream_name run
  by_cases sliced : endpoint = .updateAjToken ∧ '/' ∉ target.toList
  · obtain ⟨rfl, noSlash⟩ := sliced
    have uncut := Text.rsplitOnce_of_not_mem noSlash
    have otherName := (cut_of_no_slash noSlash cut).2
    refine iff_of_false (fun replaced => otherName ?_) fun sound => noSlash (sound.1 rfl)
    simpa [namePart, uncut] using replaced.1
  · have isCut : endpoint.cut target = some (dirPart target, namePart target) := by
      by_cases slash : '/' ∈ target.toList
      · exact cut_of_slash slash endpoint
      · exact cut_of_rsplit fun token => sliced ⟨token, slash⟩
    obtain rfl := Option.some_inj.mp (cut.symm.trans isCut)
    have sameFile : UploadKept before.repo final.repo dir (namePart target) fsId ↔
        UploadKept before.repo final.repo (dirPart target) (namePart target) fsId := by
      rw [UploadKept, UploadKept, joined, endpoint.targetDir_joined isDir joined]
    rw [FileReplaced, and_iff_right rfl, ← sameFile,
      uploadFileCommittedStream_kept_iff genuine tree noDots run]
    constructor
    · exact fun sound => ⟨fun token => by_contra fun noSlash => sliced ⟨token, noSlash⟩, dir, isDir, sound⟩
    · rintro ⟨-, dir', isDir', sound⟩
      rwa [Except.ok.inj (isDir.symm.trans isDir')]

/-- `/a/f` is updated with a token, and replaced. -/
theorem update_replaces_f :
    ∃ update final, UpdateEndpoint.updateAjToken.update defaultLimits "/a/f" [.atom 7] 3 "user" true =
        some update ∧
      update uploadLibrary = (.ok (uploadedId [.atom 7] 3, "f"), final) ∧
      FileReplaced uploadLibrary.repo final.repo "/a/f" "f" (uploadedId [.atom 7] 3) := by
  have cut : UpdateEndpoint.updateAjToken.cut "/a/f" = some ("/a", "f") := by decide +kernel
  have isUpdate : UpdateEndpoint.updateAjToken.update defaultLimits "/a/f" [FreeId.atom 7] 3 "user"
      true = some (UpdateEndpoint.updateAjToken.updateFile defaultLimits ("/a", "f") [.atom 7] 3
        "user" true) := by
    rw [UpdateEndpoint.update, cut, Option.map_some]
  have ran : (UpdateEndpoint.updateAjToken.updateFile defaultLimits ("/a", "f") [.atom 7] 3 "user"
      true uploadLibrary).1 = .ok (uploadedId [.atom 7] 3, "f") := by decide +kernel
  have isDir : UpdateEndpoint.updateAjToken.targetDir (dirPart "/a/f") = .ok "/a" := by decide +kernel
  have isEntry : (uploadTarget uploadLibrary.repo "/a").2 = [noFile "f"] := by decide +kernel
  have isName : namePart "/a/f" = "f" := by decide +kernel
  have sound : UploadSound uploadLibrary.repo "/a" "f" [.atom 7] 3 true := by
    unfold UploadSound
    rw [isEntry]
    refine ⟨fun blank => absurd blank.1 (by decide), fun _ bad => absurd bad (by decide), fun _ _ =>
      ⟨?_, fun _ _ entry found directory => ?_⟩⟩
    · rintro ⟨-, entry, listed, -, sameId, -⟩
      obtain rfl := List.mem_singleton.mp listed
      exact absurd sameId (by decide)
    · obtain rfl : noFile "f" = entry := Option.some_inj.mp found
      exact absurd directory (by decide)
  exact ⟨_, _, isUpdate, Prod.ext ran rfl, (update_replaces_named_iff.2 (genuine_libraryOf _ _)
    uploadLibrary_stored uploadLibrary_noDots isUpdate (Prod.ext ran rfl)).mpr
      ⟨fun _ => by decide, "/a", isDir, isName.symm ▸ sound⟩⟩

def notesLibrary : WebState FreeId :=
  ⟨libraryOf (directory [noFile "otes.txt", noFile "notes.txt"]) [], [], fun count => count⟩

/-- One endpoint cuts the first byte off a target without a slash.  The update of `notes.txt`
replaces `otes.txt`, and a name that begins with a wide character panics. -/
theorem update_replaces_other_name :
    clientNamed "notes.txt" = .ok ("/", "notes.txt") ∧
    addressed .updateApi "notes.txt" = some (clientNamed "notes.txt") ∧
    addressed .updateAjToken "notes.txt" = some (.ok ("/", "otes.txt")) ∧
    addressed .updateAjToken "été" = none ∧
    ∃ update final, UpdateEndpoint.updateAjToken.update defaultLimits "notes.txt" [.atom 7] 3 "user"
        true = some update ∧
      update notesLibrary = (.ok (uploadedId [.atom 7] 3, "otes.txt"), final) ∧
      resolveFsId final.repo "/otes.txt" = .ok (uploadedId [.atom 7] 3) ∧
      resolveFsId final.repo "/notes.txt" = .ok .empty := by
  have cut : UpdateEndpoint.updateAjToken.cut "notes.txt" = some ("/", "otes.txt") := by decide +kernel
  have ran : (UpdateEndpoint.updateAjToken.updateFile defaultLimits ("/", "otes.txt") [.atom 7] 3
      "user" true notesLibrary).1 = .ok (uploadedId [.atom 7] 3, "otes.txt") := by decide +kernel
  refine ⟨by decide +kernel, by decide +kernel, by decide +kernel, by decide +kernel, _, _, ?_,
    Prod.ext ran rfl, by decide +kernel, by decide +kernel⟩
  rw [UpdateEndpoint.update, cut, Option.map_some]

end Nanofile
