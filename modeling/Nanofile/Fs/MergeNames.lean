import Mathlib.Data.List.Pairwise
import Nanofile.Fs.MergeThreeWay
import Nanofile.Fs.MergeVisits

/-!
# The names in merged directories

A group emits an entry under its own name, one under a conflict name, or both.  So the names
of a merged directory are distinct when no conflict name is kept for another entry or given to
another one, and they are legal when the conflict names are.
-/

set_option autoImplicit false

namespace Nanofile

open Nanofile.Lib

variable {Oid : Type} [DecidableEq Oid]

/-! ## The names of a group -/

/-- The entries of a group have its name, and each is a regular file or a directory. -/
structure GroupOk (name : String) (slots : Slots Oid) : Prop where
  named : ∀ entry ∈ slots.toList, entry.name = name
  kinds : ∀ entry ∈ slots.toList, isRegular entry.mode = !isDir entry.mode

def dirKept (slots : Slots Oid) : Bool :=
  match chooseDir slots with
  | .ok (.emit _) => true
  | .ok (.recurse _) => true
  | _ => false

variable {slots : Slots Oid} {name : String}

omit [DecidableEq Oid] in
theorem GroupOk.kindOk (ok : GroupOk name slots) (side : Side) : KindOk (slots.get side) := by
  intro entry here
  refine ok.kinds entry ?_
  cases side <;> rw [Slots.get] at here <;> simp [Slots.toList, here]

omit [DecidableEq Oid] in
theorem GroupOk.dir_of_not_file (ok : GroupOk name slots) (side : Side) {entry : DirEntryData Oid}
    (here : slots.get side = some entry) (notFile : asFile (slots.get side) = none) :
    slotIsDir (slots.get side) = true := by
  have kind := ok.kindOk side
  rw [here] at kind notFile ⊢
  exact slotIsDir_some (isDir_of_not_file kind notFile)

theorem dirKept_of_no_dir (noHead : slotIsDir slots.head = false)
    (noRemote : slotIsDir slots.remote = false) : dirKept slots = false := by
  unfold dirKept chooseDir
  rw [noHead, noRemote]
  cases slotIsDir slots.base <;> rfl

theorem dirKept_of_alone (ok : GroupOk name slots)
    (chosen : (∃ entry, chooseFile slots = .emit entry) ∨
      ∃ head, chooseFile slots = .renameRemote (some head)) : dirKept slots = false := by
  unfold chooseFile at chosen
  split at chosen
  · rename_i isHead isRemote
    exact dirKept_of_no_dir (slotIsDir_of_asFile isHead) (slotIsDir_of_asFile isRemote)
  · rename_i noHead isRemote
    cases isHead : slots.head with
    | none => exact dirKept_of_no_dir (by rw [isHead]; rfl) (slotIsDir_of_asFile isRemote)
    | some head => split_ifs at chosen <;> simp_all
  · rename_i isHead noRemote
    cases isRemote : slots.remote with
    | none => exact dirKept_of_no_dir (slotIsDir_of_asFile isHead) (by rw [isRemote]; rfl)
    | some remote => split_ifs at chosen <;> simp_all
  · rename_i noBase noHead isRemote
    cases isHead : slots.head with
    | none => exact dirKept_of_no_dir (by rw [isHead]; rfl) (slotIsDir_of_asFile isRemote)
    | some head =>
      rw [isHead] at chosen
      dsimp only at chosen
      split_ifs at chosen with same
      · obtain ⟨base, isBase, sameId⟩ := slotHasId_eq_true.mp same
        have dirBase : slotIsDir slots.base = true := ok.dir_of_not_file .base isBase noBase
        have dirHead : slotIsDir slots.head = true := ok.dir_of_not_file .head isHead noHead
        rw [dirKept, chooseDir, dirBase, dirHead, slotIsDir_of_asFile isRemote, isBase, isHead]
        simp [sameId]
      · simp at chosen
  · rename_i noBase isHead noRemote
    cases isRemote : slots.remote with
    | none => exact dirKept_of_no_dir (slotIsDir_of_asFile isHead) (by rw [isRemote]; rfl)
    | some remote =>
      rw [isRemote] at chosen
      dsimp only at chosen
      split_ifs at chosen with same
      · obtain ⟨base, isBase, sameId⟩ := slotHasId_eq_true.mp same
        have dirBase : slotIsDir slots.base = true := ok.dir_of_not_file .base isBase noBase
        have dirRemote : slotIsDir slots.remote = true := ok.dir_of_not_file .remote isRemote noRemote
        rw [dirKept, chooseDir, dirBase, dirRemote, slotIsDir_of_asFile isHead, isBase, isRemote]
        simp [sameId]
      · simp at chosen
  · simp at chosen

/-- What is renamed is there, and a directory that is renamed is kept under its new name. -/
theorem renamed_present (ok : GroupOk name slots) (conflicts : fileConflicts slots = true) :
    ∃ remote, slots.remote = some remote ∧
      ∀ head, chooseFile slots = .renameRemoteDir head →
        (chooseDir slots = .ok (.emit .remote) ∨ chooseDir slots = .ok (.recurse .remote)) := by
  unfold fileConflicts at conflicts
  cases chosen : chooseFile slots with
  | drop | emit entry => simp [chosen] at conflicts
  | renameRemote keep =>
    obtain ⟨remote, isRemote⟩ : ∃ remote, asFile slots.remote = some remote := by
      unfold chooseFile at chosen
      split at chosen
      · exact ⟨_, by assumption⟩
      · exact ⟨_, by assumption⟩
      · split_ifs at chosen
      · exact ⟨_, by assumption⟩
      · split at chosen
        · cases chosen
        · split_ifs at chosen
      · cases chosen
    refine ⟨remote, (asFile_eq_some.mp isRemote).1, fun head other => ?_⟩
    cases other
  | renameRemoteDir head =>
    unfold chooseFile at chosen
    split at chosen
    · split_ifs at chosen
    · split_ifs at chosen
    · -- The base and the head hold a file, and the remote a directory.
      rename_i isBase isHead noRemote
      cases isRemote : slots.remote with
      | none =>
        simp only [isRemote, Option.isSome_none, Bool.false_eq_true, if_false] at chosen
        split_ifs at chosen
      | some remote =>
        refine ⟨remote, rfl, fun _ _ => Or.inl ?_⟩
        have dirRemote : slotIsDir slots.remote = true := ok.dir_of_not_file .remote isRemote noRemote
        rw [chooseDir, slotIsDir_of_asFile isBase, slotIsDir_of_asFile isHead, dirRemote]
    · split at chosen
      · cases chosen
      · split_ifs at chosen
    · -- Only the head holds a file: the remote has a directory that is not the base's.
      rename_i noBase isHead noRemote
      split at chosen
      · cases chosen
      · rename_i remote isRemote
        split_ifs at chosen with same
        refine ⟨remote, isRemote, fun _ _ => ?_⟩
        have dirRemote : slotIsDir slots.remote = true := ok.dir_of_not_file .remote isRemote noRemote
        rw [chooseDir, slotIsDir_of_asFile isHead, dirRemote]
        cases dirBase : slotIsDir slots.base with
        | false => exact Or.inl rfl
        | true =>
          obtain ⟨base, isBase, -⟩ := slotIsDir_eq_true.mp dirBase
          have other : ¬ base.id = remote.id :=
            fun sameId => same (slotHasId_eq_true.mpr ⟨base, isBase, sameId⟩)
          refine Or.inr ?_
          rw [isBase, isRemote]
          simp [other]
    · cases chosen

theorem dirEmits_names (ok : GroupOk name slots) (child : Oid) :
    (dirEmits slots child).map DirEntryData.name = if dirKept slots then [name] else [] := by
  have named : ∀ slot entry, slots.get slot = some entry → entry.name = name := by
    intro slot entry present
    refine ok.named entry ?_
    cases slot <;> simp [Slots.get] at present <;> simp [Slots.toList, present]
  unfold dirEmits dirKept
  cases chosen : chooseDir slots with
  | error failure => rfl
  | ok choice =>
    cases choice with
    | drop => rfl
    | emit slot =>
      obtain ⟨entry, present, -⟩ := chooseDir_present (Or.inl chosen)
      simp [present, named slot entry present]
    | recurse slot =>
      obtain ⟨entry, present, -⟩ := chooseDir_present (Or.inr chosen)
      simp [present, withId, named slot entry present]

def keepsName (slots : Slots Oid) : Bool :=
  match chooseFile slots with
  | .emit _ => true
  | .renameRemote (some _) => true
  | .renameRemoteDir _ => true
  | _ => dirKept slots

theorem groupEmits_names (ok : GroupOk name slots) (run : GroupRun Oid) :
    ((groupEmits slots run).map DirEntryData.name).Perm
      ((if keepsName slots then [name] else []) ++
        (if fileConflicts slots then [run.newName] else [])) := by
  have sides := chooseFile_fromSides slots
  have named : ∀ entry, slots.head = some entry ∨ slots.remote = some entry → entry.name = name := by
    rintro entry (present | present)
    · exact ok.named entry (by simp [Slots.toList, present])
    · exact ok.named entry (by simp [Slots.toList, present])
  have dirs := dirEmits_names ok run.child
  rw [groupEmits, List.map_append]
  cases chosen : chooseFile slots with
  | drop => simp [fileEmits, slotsAfterFile, keepsName, fileConflicts, chosen, dirs]
  | emit entry =>
    rw [chosen] at sides
    have alone := dirKept_of_alone ok (Or.inl ⟨entry, chosen⟩)
    simp [fileEmits, slotsAfterFile, keepsName, fileConflicts, chosen, dirs, alone,
      named entry sides]
  | renameRemote keep =>
    have conflicts : fileConflicts slots = true := by simp [fileConflicts, chosen]
    obtain ⟨remote, present, -⟩ := renamed_present ok conflicts
    rw [chosen] at sides
    cases keep with
    | none =>
      simp only [fileEmits, slotsAfterFile, keepsName, fileConflicts, chosen, dirs, present,
        Option.map_some, Option.toList, renamed, List.nil_append, List.map_cons, List.map_nil]
      exact List.perm_append_comm
    | some head =>
      have alone := dirKept_of_alone ok (Or.inr ⟨head, chosen⟩)
      simp [fileEmits, slotsAfterFile, keepsName, fileConflicts, chosen, dirs, alone, present,
        renamed, named head (Or.inl (sides head rfl))]
  | renameRemoteDir head =>
    have conflicts : fileConflicts slots = true := by simp [fileConflicts, chosen]
    obtain ⟨remote, present, kept⟩ := renamed_present ok conflicts
    rw [chosen] at sides
    have after : (dirEmits (slotsAfterFile slots run.newName) run.child).map DirEntryData.name =
        [run.newName] := by
      unfold dirEmits
      rw [chooseDir_slotsAfterFile]
      rcases kept head chosen with emits | recurses
      · simp [emits, slotsAfterFile, chosen, Slots.get, present, renamed]
      · simp [recurses, slotsAfterFile, chosen, Slots.get, present, renamed, withId]
    rw [after]
    simp [fileEmits, keepsName, fileConflicts, chosen, named head (Or.inl sides)]

/-! ## The names of a level -/

section Level

variable {level : TreeLevel Oid} {runs : String → GroupRun Oid}

def emittedNames (slots : Slots Oid) (name newName : String) : List String :=
  (if keepsName slots then [name] else []) ++ (if fileConflicts slots then [newName] else [])

theorem mem_emittedNames {name newName other : String} :
    other ∈ emittedNames slots name newName ↔
      (keepsName slots = true ∧ other = name) ∨ (fileConflicts slots = true ∧ other = newName) := by
  unfold emittedNames
  cases keepsName slots <;> cases fileConflicts slots <;> simp

def LevelOk (level : TreeLevel Oid) : Prop :=
  ∀ name ∈ level.names, GroupOk name (level.slots name)

theorem level_names (ok : LevelOk level) :
    ((level.names.flatMap fun name => groupEmits (level.slots name) (runs name)).map
      DirEntryData.name).Perm
      (level.names.flatMap fun name => emittedNames (level.slots name) name (runs name).newName) := by
  rw [List.map_flatMap]
  exact List.Perm.flatMap_left _ fun name member => groupEmits_names (ok name member) (runs name)

omit [DecidableEq Oid] in
theorem names_nodup (level : TreeLevel Oid) : level.names.Nodup := groupNames_nodup _ _ _

/-- The names of a level are distinct when no conflict name is kept or given elsewhere. -/
theorem level_nodup_iff (ok : LevelOk level)
    (longer : ∀ name ∈ level.names, fileConflicts (level.slots name) = true →
      (runs name).newName ≠ name) :
    ((level.names.flatMap fun name => groupEmits (level.slots name) (runs name)).map
      DirEntryData.name).Nodup ↔
      ∀ name ∈ level.names, fileConflicts (level.slots name) = true →
        ((runs name).newName ∈ level.names →
          keepsName (level.slots (runs name).newName) = false) ∧
        ∀ other ∈ level.names, fileConflicts (level.slots other) = true →
          (runs other).newName = (runs name).newName → other = name := by
  rw [(level_names ok).nodup_iff, List.nodup_flatMap]
  constructor
  · rintro ⟨-, apart⟩ name member conflicts
    have disjoint : ∀ other ∈ level.names, other ≠ name →
        (runs name).newName ∉ emittedNames (level.slots other) other (runs other).newName := by
      intro other listed different found
      have here : (runs name).newName ∈
          emittedNames (level.slots name) name (runs name).newName :=
        mem_emittedNames.mpr (Or.inr ⟨conflicts, rfl⟩)
      have symmetric : Std.Symm (Function.onFun List.Disjoint fun name =>
          emittedNames (level.slots name) name (runs name).newName) :=
        ⟨fun _ _ disjoint => List.Disjoint.symm disjoint⟩
      exact apart.forall member listed (Ne.symm different) here found
    constructor
    · intro listed
      by_contra kept
      refine disjoint _ listed (longer name member conflicts) (mem_emittedNames.mpr (Or.inl ⟨?_, rfl⟩))
      simpa using kept
    · intro other listed conflicts' same
      by_contra different
      exact disjoint other listed different (mem_emittedNames.mpr (Or.inr ⟨conflicts', same.symm⟩))
  · intro free
    refine ⟨fun name member => ?_, ?_⟩
    · have different := longer name member
      unfold emittedNames
      cases keepsName (level.slots name) <;> cases conflicts : fileConflicts (level.slots name)
      · exact List.nodup_nil
      · exact List.nodup_singleton _
      · exact List.nodup_singleton _
      · simpa using (different conflicts).symm
    · refine (names_nodup level).pairwise_of_forall_ne fun first listed second listed' different => ?_
      intro other atFirst atSecond
      rcases mem_emittedNames.mp atFirst with ⟨keeps, rfl⟩ | ⟨conflicts, rfl⟩
      · rcases mem_emittedNames.mp atSecond with ⟨-, same⟩ | ⟨conflicts', same⟩
        · exact different same
        · have kept := (free second listed' conflicts').1 (same ▸ listed)
          rw [← same, keeps] at kept
          cases kept
      · rcases mem_emittedNames.mp atSecond with ⟨keeps, same⟩ | ⟨conflicts', same⟩
        · have kept := (free first listed conflicts).1 (same ▸ listed')
          rw [same, keeps] at kept
          cases kept
        · exact different ((free first listed conflicts).2 second listed' conflicts' same.symm).symm

end Level

/-! ## Conflict names -/

def conflictMark (modifier : Option String) (timestamp : String) : String :=
  match modifier with
  | some modifier => " (SFConflict " ++ modifier ++ " " ++ timestamp ++ ")"
  | none => " (SFConflict " ++ timestamp ++ ")"

theorem conflictMark_none (timestamp : String) :
    conflictMark none timestamp = " (SFConflict " ++ timestamp ++ ")" := rfl

theorem conflictMark_some (modifier timestamp : String) :
    conflictMark (some modifier) timestamp =
      " (SFConflict " ++ modifier ++ " " ++ timestamp ++ ")" := rfl

theorem conflictPath_split (path : String) (modifier : Option String) (timestamp : String) :
    ∃ stem extension, path = stem ++ extension ∧
      conflictPath path modifier timestamp = stem ++ conflictMark modifier timestamp ++ extension ∧
      (extension = "" ∧ '.' ∉ path.toList ∨ ∃ last, extension = "." ++ last) := by
  unfold conflictPath
  dsimp only
  cases cut : Text.rsplitOnce '.' path with
  | none =>
    refine ⟨path, "", String.append_empty.symm, ?_,
      Or.inl ⟨rfl, Text.rsplitOnce_eq_none cut⟩⟩
    rw [String.append_empty]
    cases modifier <;> rfl
  | some parts =>
    obtain ⟨stem, last⟩ := parts
    obtain ⟨isPath, -⟩ := Text.rsplitOnce_eq_some cut
    refine ⟨stem, "." ++ last, ?_, ?_, Or.inr ⟨last, rfl⟩⟩
    · refine String.toList_inj.mp ?_
      rw [isPath]
      simp
    · rw [← String.append_assoc]
      cases modifier <;> rfl

theorem conflictPath_ne (path : String) (modifier : Option String) (timestamp : String) :
    conflictPath path modifier timestamp ≠ path := by
  obtain ⟨stem, extension, isPath, isConflict, -⟩ := conflictPath_split path modifier timestamp
  have marked : 0 < (conflictMark modifier timestamp).toList.length := by
    have closed : ∀ text : String, 0 < (text ++ ")").toList.length := fun text => by simp
    cases modifier <;> exact closed _
  intro same
  have lengths := congrArg (fun text => text.toList.length) (isConflict.symm.trans (same.trans isPath))
  simp only [String.toList_append, List.length_append] at lengths
  omega

/-! ## Distinct names -/

variable [Digests Oid] {level : TreeLevel Oid}

omit [DecidableEq Oid] in
theorem FormedLevel.levelOk [DecidableEq Oid] {store : FsStore Oid}
    (formed : FormedLevel store level) : LevelOk level := by
  intro name _
  have slot : ∀ {entries : List (DirEntryData Oid)} {entry : DirEntryData Oid},
      WellFormed store entries → slotAt entries name = some entry →
      entry.name = name ∧ isRegular entry.mode = !isDir entry.mode := by
    intro entries entry formedSide found
    obtain ⟨listed, named⟩ := slotAt_eq_some found
    exact ⟨named, (formedSide.entryOk listed).regular_or_dir⟩
  have every : ∀ entry ∈ (level.slots name).toList,
      entry.name = name ∧ isRegular entry.mode = !isDir entry.mode := by
    intro entry listed
    simp only [Slots.toList, TreeLevel.slots, slotsAt, List.mem_append, Option.mem_toList] at listed
    rcases listed with (isBase | isHead) | isRemote
    · exact slot formed.base isBase
    · exact slot formed.head isHead
    · exact slot formed.remote isRemote
  exact ⟨fun entry listed => (every entry listed).1, fun entry listed => (every entry listed).2⟩

variable [ToString Oid] {env : MergeEnv Oid} {store after : FsStore Oid}

/-- No conflict name that can be drawn at a level is kept for another entry or drawn for
another one. -/
def ConflictNamesApart (env : MergeEnv Oid) (store : FsStore Oid) (level : TreeLevel Oid) : Prop :=
  ∀ name ∈ level.names, fileConflicts (level.slots name) = true →
    ∀ newName, DrawsName env store level.basedir (level.slots name) newName →
      (newName ∈ level.names → keepsName (level.slots newName) = false) ∧
      ∀ other ∈ level.names, fileConflicts (level.slots other) = true →
        DrawsName env store level.basedir (level.slots other) newName → other = name

theorem DrawsName.ne_name {newName : String} (ok : LevelOk level) (member : name ∈ level.names)
    (conflicts : fileConflicts (level.slots name) = true)
    (draws : DrawsName env store level.basedir (level.slots name) newName) : newName ≠ name := by
  obtain ⟨remote, present, -⟩ := renamed_present (ok name member) conflicts
  obtain ⟨modifier, timestamp, -, rfl⟩ := draws conflicts remote present
  have isName : remote.name = name := (slotAt_eq_some present).2
  rw [isName]
  exact conflictPath_ne name modifier timestamp

theorem EmittedAt.names_nodup {entries : List (DirEntryData Oid)}
    (emitted : EmittedAt env store level entries) (ok : LevelOk level)
    (apart : ConflictNamesApart env store level) : (entries.map DirEntryData.name).Nodup := by
  obtain ⟨runs, draws, rfl⟩ := emitted
  refine (level_nodup_iff ok fun name member conflicts =>
    (draws name member).ne_name ok member conflicts).mpr fun name member conflicts => ?_
  obtain ⟨free, alone⟩ := apart name member conflicts _ (draws name member)
  refine ⟨free, fun other listed conflicts' same => ?_⟩
  exact alone other listed conflicts' (same ▸ draws other listed)

/-- Every directory that the merge stores, and every one of the merged tree, has names that
are distinct. -/
def UniqueAfter (store after : FsStore Oid) (root : Oid) : Prop :=
  EveryDir (fun entries => (entries.map DirEntryData.name).Nodup) store after root

/-- Merged directories have distinct names when no conflict name that can be drawn at a visited
level is taken there, and while the clock stands still only then. -/
theorem mergeTrees_unique_iff {baseRoot headRoot : Oid} {outcome : MergeOutcome Oid}
    (genuine : Genuine store) (formedBase : WellFormed store (entriesOf store baseRoot))
    (formedHead : WellFormed store (entriesOf store headRoot))
    (formedRemote : WellFormed store (entriesOf store env.remoteRoot))
    (run : mergeTrees env baseRoot headRoot store = (.ok outcome, after)) :
    ((∀ level, Visits env store (mergeRoot env store baseRoot headRoot) level →
      ConflictNamesApart env store level) → UniqueAfter store after outcome.mergedRoot) ∧
    (StandsStill env → UniqueAfter store after outcome.mergedRoot →
      ∀ level, Visits env store (mergeRoot env store baseRoot headRoot) level →
        ConflictNamesApart env store level) := by
  have formed : FormedLevel store (mergeRoot env store baseRoot headRoot) :=
    ⟨formedBase, formedHead, formedRemote⟩
  obtain ⟨suffices_unique, needs⟩ := mergeTrees_everyDir genuine formed run
    (P := fun entries => (entries.map DirEntryData.name).Nodup)
    (fun entries => (names_stored entries).nodup_iff) List.nodup_nil
    (fun level below => (formedHead level below).1) (fun level below => (formedRemote level below).1)
  constructor
  · intro apart
    refine suffices_unique fun level visits entries emitted => ?_
    exact emitted.names_nodup (visits.formed formed).levelOk (apart level visits)
  · intro still unique level visits name member conflicts newName draws
    obtain ⟨entries, ⟨runs, drawn, rfl⟩, nodup⟩ := needs still unique level visits
    have ok := (visits.formed formed).levelOk
    -- The name that was drawn is the one that can be drawn.
    have isDrawn : ∀ other ∈ level.names, fileConflicts (level.slots other) = true →
        ∀ otherName, DrawsName env store level.basedir (level.slots other) otherName →
          (runs other).newName = otherName := by
      intro other listed conflicts' otherName draws'
      obtain ⟨remote, present, -⟩ := renamed_present (ok other listed) conflicts'
      exact (drawn other listed).unique still conflicts' present draws'
    have free := (level_nodup_iff ok fun other listed conflicts' =>
      (drawn other listed).ne_name ok listed conflicts').mp nodup name member conflicts
    rw [isDrawn name member conflicts newName draws] at free
    refine ⟨free.1, fun other listed conflicts' draws' => ?_⟩
    exact free.2 other listed conflicts' (isDrawn other listed conflicts' newName draws')

/-! ## A conflict copy of an earlier merge -/

def copyName : String := "a (SFConflict user 1970-01-01-00-00-00).txt"

def sameUploadBase : FsDirData FreeId := directory [fileEntry "a.txt" (.atom 1) 1]

def sameUploadHead : FsDirData FreeId := directory [fileEntry "a.txt" (.atom 2) 1]

/-- The head after it was merged with the same upload before. -/
def sameUploadAgain : FsDirData FreeId :=
  directory [fileEntry "a.txt" (.atom 2) 1, fileEntry copyName (.atom 3) 1]

def sameUploadRemote : FsDirData FreeId := directory [fileEntry "a.txt" (.atom 4) 1]

def sameUploadStore : FsStore FreeId :=
  ⟨[sameUploadBase, sameUploadHead, sameUploadAgain, sameUploadRemote].map fun data =>
    (Digests.dirId data, .dir data.written)⟩

def sameUploadEnv : MergeEnv FreeId :=
  ⟨defaultLimits, Digests.dirId sameUploadRemote, "user", fun _ => none, fun _ => 0,
    fun _ => "1970-01-01-00-00-00"⟩

theorem sameUpload_names : (mergeRoot sameUploadEnv sameUploadStore
    (Digests.dirId sameUploadBase) (Digests.dirId sameUploadHead)).names = ["a.txt"] := by
  decide

theorem sameUpload_visits {level : TreeLevel FreeId}
    (visits : Visits sameUploadEnv sameUploadStore (mergeRoot sameUploadEnv sameUploadStore
      (Digests.dirId sameUploadBase) (Digests.dirId sameUploadHead)) level) :
    level = mergeRoot sameUploadEnv sameUploadStore (Digests.dirId sameUploadBase)
      (Digests.dirId sameUploadHead) := by
  induction visits with
  | root => rfl
  | down above listed recurses draws ih =>
    subst ih
    rw [sameUpload_names, List.mem_singleton] at listed
    subst listed
    obtain ⟨slot, chosen⟩ := recurses
    cases chosen

theorem sameUpload_formed : FormedLevel sameUploadStore (mergeRoot sameUploadEnv sameUploadStore
    (Digests.dirId sameUploadBase) (Digests.dirId sameUploadHead)) :=
  ⟨wellFormed_of_check 1 (by decide), wellFormed_of_check 1 (by decide),
    wellFormed_of_check 1 (by decide)⟩

theorem conflict_copy_merged_once : ∃ outcome after,
    mergeTrees sameUploadEnv (Digests.dirId sameUploadBase) (Digests.dirId sameUploadHead) sameUploadStore =
      (.ok outcome, after) ∧ UniqueAfter sameUploadStore after outcome.mergedRoot := by
  obtain ⟨outcome, run⟩ := Proc.exists_ok (mergeTrees sameUploadEnv
    (Digests.dirId sameUploadBase) (Digests.dirId sameUploadHead) sameUploadStore) (by decide +kernel)
  refine ⟨outcome, _, run, (mergeTrees_unique_iff (genuine_of_rows (by decide))
    (wellFormed_of_check 1 (by decide)) (wellFormed_of_check 1 (by decide))
    (wellFormed_of_check 1 (by decide)) run).1 fun level visits => ?_⟩
  obtain rfl := sameUpload_visits visits
  intro name member conflicts newName draws
  refine ⟨fun listed => ?_, fun other listed _ _ => ?_⟩
  · rw [sameUpload_names, List.mem_singleton] at listed member
    subst listed
    exact absurd member.symm (draws.ne_name sameUpload_formed.levelOk
      (by rw [member, sameUpload_names]; simp) conflicts)
  · rw [sameUpload_names, List.mem_singleton] at listed member
    rw [listed, member]

/-- When the same upload is merged again the conflict copy is made a second time, and the
merged directory has two entries of that name. -/
theorem conflict_copy_merged_twice :
    Genuine sameUploadStore ∧ WellFormed sameUploadStore sameUploadBase.dirents ∧
    WellFormed sameUploadStore sameUploadAgain.dirents ∧
    WellFormed sameUploadStore sameUploadRemote.dirents ∧
    ∃ outcome after, mergeTrees sameUploadEnv (Digests.dirId sameUploadBase) (Digests.dirId sameUploadAgain)
      sameUploadStore = (.ok outcome, after) ∧
    ((entriesOf after outcome.mergedRoot).map DirEntryData.name).count copyName = 2 ∧
    ¬ UniqueAfter sameUploadStore after outcome.mergedRoot := by
  refine ⟨genuine_of_rows (by decide), wellFormed_of_check 1 (by decide),
    wellFormed_of_check 1 (by decide), wellFormed_of_check 1 (by decide), ?_⟩
  obtain ⟨outcome, run⟩ := Proc.exists_ok (mergeTrees sameUploadEnv
    (Digests.dirId sameUploadBase) (Digests.dirId sameUploadAgain) sameUploadStore) (by decide +kernel)
  have seen : (mergeTrees sameUploadEnv (Digests.dirId sameUploadBase) (Digests.dirId sameUploadAgain)
      sameUploadStore).1.toOption.all (fun outcome =>
        ((entriesOf (mergeTrees sameUploadEnv (Digests.dirId sameUploadBase) (Digests.dirId sameUploadAgain)
          sameUploadStore).2 outcome.mergedRoot).map DirEntryData.name).count copyName = 2) = true := by
    decide +kernel
  rw [run] at seen
  have twice : ((entriesOf (mergeTrees sameUploadEnv (Digests.dirId sameUploadBase)
      (Digests.dirId sameUploadAgain) sameUploadStore).2 outcome.mergedRoot).map
      DirEntryData.name).count copyName = 2 := by
    simpa [Except.toOption] using seen
  refine ⟨outcome, _, run, twice, fun isUnique => ?_⟩
  obtain ⟨_, unique⟩ := isUnique
  have once := List.nodup_iff_count_le_one.mp (unique _ .root) copyName
  omega

end Nanofile
