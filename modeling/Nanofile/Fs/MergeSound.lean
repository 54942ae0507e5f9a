import Nanofile.Fs.Merge
import Nanofile.Fs.TreeSemantics

/-!
# What a successful merge computes

`Merged` is the merge without its effects: at every level each name contributes
the entries its slots decide on, and a recursion contributes the directory merged
below.  `mergeLevel_sound` reads it off a successful run; everything proved about
merged trees is proved by induction on `Merged`.
-/

set_option autoImplicit false

namespace Nanofile

open Nanofile.Lib Nanofile.Lib.Proc

variable {Oid : Type} [DecidableEq Oid]

/-- A name the merge may give to a conflicting entry. -/
def ConflictName (env : MergeEnv Oid) (name newName : String) : Prop :=
  ∃ modifier seconds,
    newName = conflictPath name modifier (env.formatLocalTimestamp seconds)

def renamed (newName : String) (entry : DirEntryData Oid) : DirEntryData Oid :=
  { entry with name := newName }

def withId (id : Oid) (entry : DirEntryData Oid) : DirEntryData Oid :=
  { entry with id }

def fileEmits (slots : Slots Oid) (newName : String) : List (DirEntryData Oid) :=
  match chooseFile slots with
  | .drop => []
  | .emit entry => [entry]
  | .renameRemote keep => keep.toList ++ (slots.remote.map (renamed newName)).toList
  | .renameRemoteDir head => [head]

def fileConflicts (slots : Slots Oid) : Bool :=
  match chooseFile slots with
  | .renameRemote _ => true
  | .renameRemoteDir _ => true
  | _ => false

/-- The slots as the directory table sees them. -/
def slotsAfterFile (slots : Slots Oid) (newName : String) : Slots Oid :=
  match chooseFile slots with
  | .renameRemoteDir _ => { slots with remote := slots.remote.map (renamed newName) }
  | _ => slots

def dirEmits (slots : Slots Oid) (child : Oid) : List (DirEntryData Oid) :=
  match chooseDir slots with
  | .ok (.emit slot) => (slots.get slot).toList
  | .ok (.recurse slot) => ((slots.get slot).map (withId child)).toList
  | _ => []

def Recurses (slots : Slots Oid) : Prop := ∃ slot, chooseDir slots = .ok (.recurse slot)

instance (slots : Slots Oid) : Decidable (Recurses slots) :=
  match chosen : chooseDir slots with
  | .ok (.recurse slot) => isTrue ⟨slot, chosen⟩
  | .ok .drop => isFalse fun ⟨slot, found⟩ => by rw [chosen] at found; simp at found
  | .ok (.emit _) => isFalse fun ⟨slot, found⟩ => by rw [chosen] at found; simp at found
  | .error _ => isFalse fun ⟨slot, found⟩ => by rw [chosen] at found; simp at found

/-- What the run settles for one name: the conflict name used, and the id, the
entries and the conflict flag of the directory merged below it. -/
structure GroupRun (Oid : Type) where
  newName : String
  child : Oid
  below : List (DirEntryData Oid)
  clash : Bool

def groupEmits (slots : Slots Oid) (run : GroupRun Oid) : List (DirEntryData Oid) :=
  fileEmits slots run.newName ++ dirEmits (slotsAfterFile slots run.newName) run.child

def groupConflicts (slots : Slots Oid) (run : GroupRun Oid) : Bool :=
  fileConflicts slots || (decide (Recurses slots) && run.clash)

variable [Digests Oid]

def childEntries (store : FsStore Oid) (slot : Option (DirEntryData Oid)) :
    List (DirEntryData Oid) :=
  match slot with
  | none => []
  | some entry => if isDir entry.mode then entriesOf store entry.id else []

def stored (merged : List (DirEntryData Oid)) : List (DirEntryData Oid) :=
  (sortDirentsDesc merged).map DirEntryData.written

omit [DecidableEq Oid] [Digests Oid] in
theorem names_stored (entries : List (DirEntryData Oid)) :
    ((stored entries).map DirEntryData.name).Perm (entries.map DirEntryData.name) := by
  rw [stored, List.map_map]
  simpa [Function.comp_def] using (sortDirentsDesc_perm entries).map DirEntryData.name

variable {store : FsStore Oid}

theorem hasFile_stored {merged : List (DirEntryData Oid)} {path : List String} {id : Oid} :
    HasFile store (stored merged) path id ↔ HasFile store merged path id := by
  have written : ∀ P : DirEntryData Oid → Prop,
      (∀ entry, P entry.written ↔ P entry) →
      ((∃ entry ∈ stored merged, P entry) ↔ ∃ entry ∈ merged, P entry) := by
    intro P same
    simp only [stored, List.mem_map, mem_sortDirentsDesc]
    constructor
    · rintro ⟨_, ⟨entry, listed, rfl⟩, holds⟩
      exact ⟨entry, listed, (same entry).mp holds⟩
    · rintro ⟨entry, listed, holds⟩
      exact ⟨entry.written, ⟨entry, listed, rfl⟩, (same entry).mpr holds⟩
  cases path with
  | nil => rfl
  | cons name rest =>
    cases rest with
    | nil | cons next rest => exact written _ fun entry => by simp

/-- `Merged env store base head remote merged clash`: the three levels merge to
the entries `merged`, with a conflict exactly when `clash`. -/
inductive Merged (env : MergeEnv Oid) (store : FsStore Oid) :
    List (DirEntryData Oid) → List (DirEntryData Oid) → List (DirEntryData Oid) →
    List (DirEntryData Oid) → Bool → Prop
  | level {base head remote : List (DirEntryData Oid)} (runs : String → GroupRun Oid)
      (named : ∀ name, ConflictName env name (runs name).newName)
      (stands : ∀ name ∈ groupNames base head remote,
        Recurses (slotsAt base head remote name) →
        StandsFor store (runs name).child (stored (runs name).below))
      (deeper : ∀ name ∈ groupNames base head remote,
        Recurses (slotsAt base head remote name) →
        Merged env store (childEntries store (slotAt base name))
          (childEntries store (slotAt head name)) (childEntries store (slotAt remote name))
          (runs name).below (runs name).clash) :
      Merged env store base head remote
        ((groupNames base head remote).flatMap fun name =>
          groupEmits (slotsAt base head remote name) (runs name))
        ((groupNames base head remote).any fun name =>
          groupConflicts (slotsAt base head remote name) (runs name))

/-! ## The levels of a merge -/

/-- One level of a merge: its path and the entries of the three trees. -/
structure TreeLevel (Oid : Type) where
  basedir : String
  base : List (DirEntryData Oid)
  head : List (DirEntryData Oid)
  remote : List (DirEntryData Oid)

omit [Digests Oid] in
def TreeLevel.names (level : TreeLevel Oid) : List String :=
  groupNames level.base level.head level.remote

omit [Digests Oid] in
def TreeLevel.slots (level : TreeLevel Oid) (name : String) : Slots Oid :=
  slotsAt level.base level.head level.remote name

/-- The name a recursion goes by: that of the last directory of the group. -/
def dirName (slots : Slots Oid) : String :=
  ((slots.toList.filter fun entry => isDir entry.mode).getLast?.map DirEntryData.name).getD ""

def childLevel (store : FsStore Oid) (basedir : String) (slots : Slots Oid) (newName : String) :
    TreeLevel Oid :=
  ⟨basedir ++ dirName (slotsAfterFile slots newName) ++ "/", childEntries store slots.base,
    childEntries store slots.head, childEntries store slots.remote⟩

/-- `Merged` with the path of every level, what the conflict names are drawn by, and the list
of the directories that are stored. -/
inductive MergedBy (draws : String → Slots Oid → String → Prop) (env : MergeEnv Oid)
    (store : FsStore Oid) : TreeLevel Oid → List (DirEntryData Oid) → Bool →
    List (List (DirEntryData Oid)) → Prop
  | level {level : TreeLevel Oid} (runs : String → GroupRun Oid)
      (levels : String → List (List (DirEntryData Oid)))
      (named : ∀ name, ConflictName env name (runs name).newName)
      (drawn : ∀ name ∈ level.names, draws level.basedir (level.slots name) (runs name).newName)
      (stands : ∀ name ∈ level.names, Recurses (level.slots name) →
        StandsFor store (runs name).child (stored (runs name).below))
      (deeper : ∀ name ∈ level.names, Recurses (level.slots name) →
        MergedBy draws env store
          (childLevel store level.basedir (level.slots name) (runs name).newName)
          (runs name).below (runs name).clash (levels name)) :
      MergedBy draws env store level
        (level.names.flatMap fun name => groupEmits (level.slots name) (runs name))
        (level.names.any fun name => groupConflicts (level.slots name) (runs name))
        ((level.names.flatMap fun name => groupEmits (level.slots name) (runs name)) ::
          level.names.flatMap fun name => if Recurses (level.slots name) then levels name else [])

variable {levels : List (List (DirEntryData Oid))} {clash : Bool}
    {draws : String → Slots Oid → String → Prop}

theorem MergedBy.merged {env : MergeEnv Oid} {level : TreeLevel Oid}
    {merged : List (DirEntryData Oid)}
    (mergedBy : MergedBy draws env store level merged clash levels) :
    Merged env store level.base level.head level.remote merged clash := by
  induction mergedBy with
  | level runs levels named drawn stands deeper ih => exact .level runs named stands ih

/-! ## The tables and renaming -/

variable {entry : DirEntryData Oid} {slot : Option (DirEntryData Oid)}

omit [DecidableEq Oid] [Digests Oid] in
theorem asFile_eq_some :
    asFile slot = some entry ↔ slot = some entry ∧ isRegular entry.mode = true := by
  simp [asFile, Option.filter_eq_some_iff]

section

omit [Digests Oid]

theorem chooseFile_of_no_file {slots : Slots Oid}
    (none : (slots.toList.any fun entry => isRegular entry.mode) = false) :
    chooseFile slots = .drop := by
  obtain ⟨base, head, remote⟩ := slots
  have noFile : ∀ slot, slot ∈ [base, head, remote] → asFile slot = .none := by
    intro slot member
    rw [asFile, Option.filter_eq_none_iff]
    intro entry present regular
    subst present
    have listed : entry ∈ (Slots.mk base head remote).toList := by
      simp only [List.mem_cons, List.not_mem_nil, or_false] at member
      rcases member with rfl | rfl | rfl <;> simp [Slots.toList]
    exact Bool.false_ne_true
      (none.symm.trans (List.any_eq_true.mpr ⟨entry, listed, regular⟩))
  simp [chooseFile, noFile base, noFile head, noFile remote]

theorem dirEmits_of_no_dir {slots : Slots Oid} (child : Oid)
    (none : (slots.toList.any fun entry => isDir entry.mode) = false) :
    dirEmits slots child = [] ∧ ¬ Recurses slots := by
  obtain ⟨base, head, remote⟩ := slots
  have noDir : ∀ slot, slot ∈ [base, head, remote] → slotIsDir slot = false := by
    intro slot member
    cases slot with
    | none => rfl
    | some entry =>
      have listed : entry ∈ (Slots.mk base head remote).toList := by
        simp only [List.mem_cons, List.not_mem_nil, or_false] at member
        rcases member with rfl | rfl | rfl <;> simp [Slots.toList]
      have clear := List.any_eq_false.mp none entry listed
      simpa [slotIsDir] using clear
  have chosen : chooseDir (Slots.mk base head remote) =
      .error (.internal "merge: empty directory group") := by
    simp [chooseDir, noDir base, noDir head, noDir remote]
  simp [dirEmits, Recurses, chosen]

/-- Renaming the remote entry changes neither its kind nor its id, so the
directory table decides as before. -/
theorem chooseDir_slotsAfterFile (slots : Slots Oid) (newName : String) :
    chooseDir (slotsAfterFile slots newName) = chooseDir slots := by
  unfold slotsAfterFile
  split
  · obtain ⟨base, head, remote⟩ := slots
    cases remote <;> rfl
  · rfl

end

/-! ## Soundness of each step -/

/-- The store only grows and stays genuine. -/
def Grown (before after : MergeState Oid) : Prop :=
  Table.Extends before.store after.store ∧ Genuine after.store

theorem Grown.trans {first second third : MergeState Oid} (left : Grown first second)
    (right : Grown second third) : Grown first third :=
  ⟨left.1.trans right.1, right.2⟩

/-- A step that leaves the store alone and sets the conflict flag when `clash`. -/
def Marks (before after : MergeState Oid) (clash : Bool) : Prop :=
  after.store = before.store ∧ after.conflict = (before.conflict || clash)

variable {after : MergeState Oid}

omit [DecidableEq Oid] in
theorem Marks.grown [DecidableEq Oid] {before : MergeState Oid} (marks : Marks before after clash)
    (genuine : Genuine before.store) : Grown before after := by
  rw [Grown, marks.1]
  exact ⟨Table.Extends.refl _, genuine⟩

/-- Every directory that was added is one of the levels. -/
def RowsFrom (before after : FsStore Oid) (levels : List (List (DirEntryData Oid))) : Prop :=
  ∀ id data, after.find id = some (.dir data) → before.find id = some (.dir data) ∨
    ∃ level ∈ levels, data.dirents = stored level

omit [Digests Oid] in
theorem RowsFrom.refl (store : FsStore Oid) : RowsFrom store store [] :=
  fun _ _ found => Or.inl found

omit [Digests Oid] in
theorem RowsFrom.trans {first second third : FsStore Oid} {levels' : List (List (DirEntryData Oid))}
    (left : RowsFrom first second levels) (right : RowsFrom second third levels') :
    RowsFrom first third (levels ++ levels') := by
  intro id data found
  rcases right id data found with before | ⟨level, listed, same⟩
  · rcases left id data before with first | ⟨level, listed, same⟩
    · exact Or.inl first
    · exact Or.inr ⟨level, List.mem_append_left _ listed, same⟩
  · exact Or.inr ⟨level, List.mem_append_right _ listed, same⟩

variable [ToString Oid]

/-- What a conflict name is marked with: whose the entry is, and when it changed. -/
inductive DrawsMark (env : MergeEnv Oid) (store : FsStore Oid) (basedir : String)
    (slots : Slots Oid) : Option String → String → Prop
  | modifier {keep : Option (DirEntryData Oid)} {remote : DirEntryData Oid} {modifier : String}
      {mtime : Int} (chosen : chooseFile slots = .renameRemote keep)
      (present : slots.remote = some remote)
      (found : remoteModifierMtime store env.remoteRoot (basedir ++ remote.name) =
        .ok (some (modifier, mtime))) :
      DrawsMark env store basedir slots (some (env.nickname modifier))
        (env.formatLocalTimestamp mtime)
  | nobody {keep : Option (DirEntryData Oid)} {remote : DirEntryData Oid}
      (chosen : chooseFile slots = .renameRemote keep) (present : slots.remote = some remote)
      (found : remoteModifierMtime store env.remoteRoot (basedir ++ remote.name) = .ok none) :
      DrawsMark env store basedir slots none (env.formatLocalTimestamp 0)
  | author {keep : Option (DirEntryData Oid)} {remote : DirEntryData Oid} {failure : AppError}
      (reading : Nat) (chosen : chooseFile slots = .renameRemote keep)
      (present : slots.remote = some remote)
      (found : remoteModifierMtime store env.remoteRoot (basedir ++ remote.name) =
        .error failure) :
      DrawsMark env store basedir slots (some (env.nickname env.remoteCreatorName))
        (env.formatLocalTimestamp (env.clock reading))
  | directory {head : DirEntryData Oid} (reading : Nat)
      (chosen : chooseFile slots = .renameRemoteDir head) :
      DrawsMark env store basedir slots (some env.remoteCreatorName)
        (env.formatLocalTimestamp (env.clock reading))

variable {basedir : String} {slots : Slots Oid}

theorem DrawsMark.seconds {env : MergeEnv Oid} {modifier : Option String} {timestamp : String}
    (mark : DrawsMark env store basedir slots modifier timestamp) :
    ∃ seconds, timestamp = env.formatLocalTimestamp seconds := by
  cases mark with
  | modifier chosen present found | nobody chosen present found
  | author reading chosen present found | directory reading chosen => exact ⟨_, rfl⟩

def DrawsName (env : MergeEnv Oid) (store : FsStore Oid) (basedir : String) (slots : Slots Oid)
    (newName : String) : Prop :=
  fileConflicts slots = true → ∀ remote, slots.remote = some remote →
    ∃ modifier timestamp, DrawsMark env store basedir slots modifier timestamp ∧
      newName = conflictPath remote.name modifier timestamp

variable {newName : String} {state : MergeState Oid}

theorem conflictFileName_sound {env : MergeEnv Oid} {keep : Option (DirEntryData Oid)}
    {remote : DirEntryData Oid} (chosen : chooseFile slots = .renameRemote keep)
    (present : slots.remote = some remote)
    (run : conflictFileName env basedir remote.name state = (.ok newName, after)) :
    (∃ modifier timestamp, DrawsMark env state.store basedir slots modifier timestamp ∧
      newName = conflictPath remote.name modifier timestamp) ∧ Marks state after false := by
  simp only [conflictFileName, bind_run, read_run] at run
  rcases found : remoteModifierMtime state.store env.remoteRoot (basedir ++ remote.name) with
    failure | (_ | ⟨modifier, mtime⟩)
  all_goals
    simp only [found, now, bind_run, update_run, pure_run, Prod.mk.injEq,
      Except.ok.injEq] at run
    obtain ⟨rfl, rfl⟩ := run
  · exact ⟨⟨_, _, .author _ chosen present found, rfl⟩, rfl, by simp⟩
  · exact ⟨⟨_, _, .nobody chosen present found, rfl⟩, rfl, by simp⟩
  · exact ⟨⟨_, _, .modifier chosen present found, rfl⟩, rfl, by simp⟩

variable {name : String}

theorem conflictDirName_sound {env : MergeEnv Oid} {head : DirEntryData Oid}
    (chosen : chooseFile slots = .renameRemoteDir head)
    (run : conflictDirName env name state = (.ok newName, after)) :
    (∃ modifier timestamp, DrawsMark env state.store basedir slots modifier timestamp ∧
      newName = conflictPath name modifier timestamp) ∧ Marks state after false := by
  simp only [conflictDirName, now, bind_run, update_run, pure_run,
    Prod.mk.injEq, Except.ok.injEq] at run
  obtain ⟨rfl, rfl⟩ := run
  exact ⟨⟨_, _, .directory _ chosen, rfl⟩, rfl, by simp⟩

theorem mergeFile_sound {env : MergeEnv Oid} {slots' : Slots Oid} {files : List (DirEntryData Oid)}
    (named : ∀ remote, slots.remote = some remote → remote.name = name)
    (run : mergeFile env basedir slots state = (.ok (files, slots'), after)) :
    ∃ newName, ConflictName env name newName ∧ DrawsName env state.store basedir slots newName ∧
      files = fileEmits slots newName ∧ slots' = slotsAfterFile slots newName ∧
      Marks state after (fileConflicts slots) := by
  have anyName : ConflictName env name
      (conflictPath name none (env.formatLocalTimestamp 0)) := ⟨_, _, rfl⟩
  -- Without a conflict any name will do.
  have unmarked : ∀ newName, fileConflicts slots = false →
      DrawsName env state.store basedir slots newName := by
    intro newName none conflicts
    rw [none] at conflicts
    cases conflicts
  -- A marked name is a conflict name of the group.
  have marked : ∀ remote newName, slots.remote = some remote →
      (∃ modifier timestamp, DrawsMark env state.store basedir slots modifier timestamp ∧
        newName = conflictPath remote.name modifier timestamp) →
      ConflictName env name newName ∧ DrawsName env state.store basedir slots newName := by
    rintro remote newName present ⟨modifier, timestamp, mark, rfl⟩
    obtain ⟨seconds, rfl⟩ := mark.seconds
    refine ⟨⟨modifier, seconds, by rw [named remote present]⟩, fun _ other isOther => ?_⟩
    obtain rfl := Option.some.inj (present.symm.trans isOther)
    exact ⟨modifier, _, mark, rfl⟩
  unfold mergeFile at run
  split at run
  · cases chosen : chooseFile slots with
    | drop =>
      simp only [chosen, pure_run, Prod.mk.injEq, Except.ok.injEq] at run
      obtain ⟨⟨rfl, rfl⟩, rfl⟩ := run
      refine ⟨_, anyName, unmarked _ ?_, ?_, ?_, rfl, ?_⟩ <;>
        simp [fileEmits, slotsAfterFile, fileConflicts, chosen]
    | emit entry =>
      simp only [chosen, noteKeptDeleted, bind_run, modify_run, pure_run,
        Prod.mk.injEq, Except.ok.injEq] at run
      obtain ⟨⟨rfl, rfl⟩, rfl⟩ := run
      refine ⟨_, anyName, unmarked _ ?_, ?_, ?_, rfl, ?_⟩ <;>
        simp [fileEmits, slotsAfterFile, fileConflicts, chosen]
    | renameRemote keep =>
      simp only [chosen] at run
      cases present : slots.remote with
      | none => simp [present] at run
      | some remote =>
        simp only [present] at run
        obtain ⟨newName, middle, found, run⟩ := bind_ok_iff.mp run
        obtain ⟨mark, kept⟩ := conflictFileName_sound chosen present found
        obtain ⟨conflictName, draws⟩ := marked remote newName present mark
        simp only [setConflict, bind_run, modify_run, pure_run,
          Prod.mk.injEq, Except.ok.injEq] at run
        obtain ⟨⟨rfl, rfl⟩, rfl⟩ := run
        refine ⟨newName, conflictName, draws, ?_, ?_, kept.1, ?_⟩ <;>
          simp [fileEmits, slotsAfterFile, fileConflicts, chosen, present, renamed]
    | renameRemoteDir head =>
      simp only [chosen] at run
      cases present : slots.remote with
      | none => simp [present] at run
      | some remote =>
        simp only [present] at run
        obtain ⟨newName, middle, found, run⟩ := bind_ok_iff.mp run
        obtain ⟨mark, kept⟩ := @conflictDirName_sound _ _ _ _ _ basedir _ _ _ _ _ _ chosen found
        obtain ⟨conflictName, draws⟩ := marked remote newName present mark
        simp only [setConflict, bind_run, modify_run, pure_run,
          Prod.mk.injEq, Except.ok.injEq] at run
        obtain ⟨⟨rfl, rfl⟩, rfl⟩ := run
        refine ⟨newName, conflictName, draws, ?_, ?_, kept.1, ?_⟩ <;>
          simp [fileEmits, slotsAfterFile, fileConflicts, chosen, present, renamed]
  · rename_i noFile
    have chosen := chooseFile_of_no_file (Bool.eq_false_iff.mpr noFile)
    simp only [pure_run, Prod.mk.injEq, Except.ok.injEq] at run
    obtain ⟨⟨rfl, rfl⟩, rfl⟩ := run
    refine ⟨_, anyName, unmarked _ ?_, ?_, ?_, rfl, ?_⟩ <;>
      simp [fileEmits, slotsAfterFile, fileConflicts, chosen]

variable {fsId : Oid}

theorem loadDir_sound {data : FsDirData Oid} (run : loadDir fsId state = (.ok data, after)) :
    after = state ∧ StandsFor state.store fsId data.dirents := by
  simp only [loadDir, tryRead_run, Prod.mk.injEq] at run
  obtain ⟨read, rfl⟩ := run
  refine ⟨rfl, standsFor_of_readFsDirData ?_⟩
  cases readBack : readFsDirData state.store fsId with
  | error failure => simp [readBack, mapError_error] at read
  | ok data' =>
    rw [readBack] at read
    exact read

theorem loadChild_sound {tree : Option (FsDirData Oid)}
    (run : loadChild slot state = (.ok tree, after)) :
    after = state ∧ ∀ store, Table.Extends state.store store →
      childEntries store slot = sideEntries tree := by
  cases slot with
  | none =>
    simp only [loadChild, pure_run, Prod.mk.injEq, Except.ok.injEq] at run
    obtain ⟨rfl, rfl⟩ := run
    exact ⟨rfl, fun _ _ => rfl⟩
  | some entry =>
    simp only [loadChild] at run
    split at run
    · rename_i directory
      obtain ⟨data, middle, loaded, finish⟩ := bind_ok_iff.mp run
      obtain ⟨rfl, stands⟩ := loadDir_sound loaded
      simp only [pure_run, Prod.mk.injEq, Except.ok.injEq] at finish
      obtain ⟨rfl, rfl⟩ := finish
      refine ⟨rfl, fun store grown => ?_⟩
      simp [childEntries, directory, sideEntries, (stands.extends grown).entries]
    · rename_i notDir
      simp only [pure_run, Prod.mk.injEq, Except.ok.injEq] at run
      obtain ⟨rfl, rfl⟩ := run
      exact ⟨rfl, fun _ _ => by simp [childEntries, notDir, sideEntries]⟩

variable {recurse : Trees Oid → String → Merge Oid Oid}

section Levels

variable {draws : String → Slots Oid → String → Prop} {env : MergeEnv Oid}
  {first : FsStore Oid}

/-- The names drawn in a store that has grown from the first one. -/
def DrawnBy (draws : String → Slots Oid → String → Prop) (env : MergeEnv Oid)
    (first : FsStore Oid) : Prop :=
  ∀ store basedir slots newName, Table.Extends first store →
    DrawsName env store basedir slots newName → draws basedir slots newName

/-- The contract of one level, which a level's own recursion may assume. -/
def LevelSpec (draws : String → Slots Oid → String → Prop) (env : MergeEnv Oid)
    (first : FsStore Oid) (level : Trees Oid → String → Merge Oid Oid) : Prop :=
  ∀ trees basedir state fsId after, Genuine state.store → Table.Extends first state.store →
    level trees basedir state = (.ok fsId, after) →
    Grown state after ∧ ∃ merged clash levels, after.conflict = (state.conflict || clash) ∧
      RowsFrom state.store after.store levels ∧
      ∀ store, Table.Extends after.store store →
        StandsFor store fsId (stored merged) ∧
        MergedBy draws env store ⟨basedir, sideEntries trees.base, sideEntries trees.head,
          sideEntries trees.remote⟩ merged clash levels

omit [ToString Oid] in
theorem childEntries_slotsAfterFile (store : FsStore Oid) (slots : Slots Oid)
    (newName : String) :
    (slotsAfterFile slots newName).base = slots.base ∧
      (slotsAfterFile slots newName).head = slots.head ∧
      childEntries store (slotsAfterFile slots newName).remote =
        childEntries store slots.remote := by
  unfold slotsAfterFile
  split
  · refine ⟨rfl, rfl, ?_⟩
    cases slots.remote <;> rfl
  · exact ⟨rfl, rfl, rfl⟩

variable {slots : Slots Oid}

theorem mergeDir_sound (spec : LevelSpec draws env first recurse) {dirs : List (DirEntryData Oid)}
    (genuine : Genuine state.store) (reached : Table.Extends first state.store)
    (run : mergeDir recurse basedir (slotsAfterFile slots newName) state = (.ok dirs, after)) :
    Grown state after ∧ ∃ child below clash levels,
      dirs = dirEmits (slotsAfterFile slots newName) child ∧
      after.conflict = (state.conflict || (decide (Recurses slots) && clash)) ∧
      RowsFrom state.store after.store (if Recurses slots then levels else []) ∧
      (Recurses slots → ∀ store, Table.Extends after.store store →
        StandsFor store child (stored below) ∧
        MergedBy draws env store (childLevel store basedir slots newName) below clash levels) := by
  have still : Grown state state := ⟨Table.Extends.refl _, genuine⟩
  have sameChoice := chooseDir_slotsAfterFile slots newName
  -- A group that is not recursed into stores nothing.
  have settled : ∀ dirs', dirs' = dirEmits (slotsAfterFile slots newName) (emptySha1 : Oid) →
      ¬ Recurses slots →
      Grown state state ∧ ∃ child below clash levels,
        dirs' = dirEmits (slotsAfterFile slots newName) child ∧
        state.conflict = (state.conflict || (decide (Recurses slots) && clash)) ∧
        RowsFrom state.store state.store (if Recurses slots then levels else []) ∧
        (Recurses slots → ∀ store, Table.Extends state.store store →
          StandsFor store child (stored below) ∧ MergedBy draws env store
            (childLevel store basedir slots newName) below clash levels) := by
    intro dirs' isDirs steady
    refine ⟨still, emptySha1, [], false, [], isDirs, by simp, ?_, fun recurses => absurd recurses steady⟩
    rw [if_neg steady]
    exact RowsFrom.refl _
  unfold mergeDir at run
  split at run
  · cases chosen : chooseDir (slotsAfterFile slots newName) with
    | error failure => simp [chosen] at run
    | ok choice =>
      have isChoice := sameChoice.symm.trans chosen
      cases choice with
      | drop =>
        simp only [chosen, pure_run, Prod.mk.injEq, Except.ok.injEq] at run
        obtain ⟨rfl, rfl⟩ := run
        exact settled _ (by simp [dirEmits, chosen]) (by simp [Recurses, isChoice])
      | emit slot =>
        simp only [chosen, noteKeptDeleted, bind_run, modify_run,
          pure_run, Prod.mk.injEq, Except.ok.injEq] at run
        obtain ⟨rfl, rfl⟩ := run
        exact settled _ (by simp [dirEmits, chosen]) (by simp [Recurses, isChoice])
      | recurse slot =>
        have recurses : Recurses slots := ⟨slot, isChoice⟩
        obtain ⟨sameBase, sameHead, sameRemote⟩ :
            (slotsAfterFile slots newName).base = slots.base ∧
            (slotsAfterFile slots newName).head = slots.head ∧
            ∀ store, childEntries store (slotsAfterFile slots newName).remote =
              childEntries store slots.remote :=
          ⟨(childEntries_slotsAfterFile state.store slots newName).1,
            (childEntries_slotsAfterFile state.store slots newName).2.1,
            fun store => (childEntries_slotsAfterFile store slots newName).2.2⟩
        simp only [chosen, noteKeptDeleted, bind_run, modify_run] at run
        cases last : ((slotsAfterFile slots newName).toList.filter
            fun entry => isDir entry.mode).getLast? with
        | none => simp [last] at run
        | some named =>
          have isName : dirName (slotsAfterFile slots newName) = named.name := by
            rw [dirName, last]
            rfl
          simp only [last] at run
          obtain ⟨base, afterBase, loadedBase, run1⟩ := bind_ok_iff.mp run
          obtain ⟨head, afterHead, loadedHead, run2⟩ := bind_ok_iff.mp run1
          obtain ⟨remote, afterRemote, loadedRemote, run3⟩ := bind_ok_iff.mp run2
          obtain ⟨merged, afterMerge, merging, finish⟩ := bind_ok_iff.mp run3
          obtain ⟨rfl, baseEq⟩ := loadChild_sound loadedBase
          obtain ⟨rfl, headEq⟩ := loadChild_sound loadedHead
          obtain ⟨rfl, remoteEq⟩ := loadChild_sound loadedRemote
          obtain ⟨grown, below, clash, levels, marked, rows, deeper⟩ :=
            spec _ _ _ _ _ (by exact genuine) (by exact reached) merging
          cases present : (slotsAfterFile slots newName).get slot with
          | none => simp [present] at finish
          | some entry =>
            simp only [present, pure_run, Prod.mk.injEq, Except.ok.injEq]
              at finish
            obtain ⟨rfl, rfl⟩ := finish
            refine ⟨grown, merged, below, clash, levels, ?_, ?_, ?_, ?_⟩
            · simp [dirEmits, chosen, present, withId]
            · simp [marked, recurses]
            · rw [if_pos recurses]
              exact rows
            · intro _ store extended
              have reach := grown.1.trans extended
              obtain ⟨stands, mergedBelow⟩ := deeper store extended
              refine ⟨stands, ?_⟩
              rw [childLevel, isName, ← sameBase, ← sameHead, ← sameRemote,
                baseEq store reach, headEq store reach, remoteEq store reach]
              exact mergedBelow
  · rename_i noDir
    have none := dirEmits_of_no_dir (emptySha1 : Oid) (Bool.eq_false_iff.mpr noDir)
    simp only [pure_run, Prod.mk.injEq, Except.ok.injEq] at run
    obtain ⟨rfl, rfl⟩ := run
    refine settled _ none.1.symm ?_
    rintro ⟨slot, isChoice⟩
    exact none.2 ⟨slot, sameChoice.trans isChoice⟩

/-- What is settled for one name, read in every grown store. -/
structure GroupSettled (draws : String → Slots Oid → String → Prop) (env : MergeEnv Oid)
    (final : FsStore Oid) (basedir name : String) (slots : Slots Oid) (run : GroupRun Oid)
    (levels : List (List (DirEntryData Oid))) : Prop where
  named : ConflictName env name run.newName
  drawn : draws basedir slots run.newName
  below : Recurses slots → ∀ store, Table.Extends final store →
    StandsFor store run.child (stored run.below) ∧
    MergedBy draws env store (childLevel store basedir slots run.newName) run.below run.clash levels

omit [ToString Oid] in
theorem GroupSettled.extends {before after : FsStore Oid} {run : GroupRun Oid}
    (settled : GroupSettled draws env before basedir name slots run levels)
    (grown : Table.Extends before after) :
    GroupSettled draws env after basedir name slots run levels where
  named := settled.named
  drawn := settled.drawn
  below recurses store extended := settled.below recurses store (grown.trans extended)

variable (drawnBy : DrawnBy draws env first)

include drawnBy

theorem mergeGroup_sound (spec : LevelSpec draws env first recurse)
    {pushed : List (DirEntryData Oid)} (genuine : Genuine state.store)
    (reached : Table.Extends first state.store)
    (named : ∀ remote, slots.remote = some remote → remote.name = name)
    (run : mergeGroup env recurse basedir slots state = (.ok pushed, after)) :
    Grown state after ∧ ∃ settled levels, pushed = groupEmits slots settled ∧
      after.conflict = (state.conflict || groupConflicts slots settled) ∧
      RowsFrom state.store after.store (if Recurses slots then levels else []) ∧
      GroupSettled draws env after.store basedir name slots settled levels := by
  obtain ⟨⟨files, slots'⟩, middle, filed, run1⟩ := bind_ok_iff.mp run
  obtain ⟨dirs, last, walked, finish⟩ := bind_ok_iff.mp run1
  simp only [pure_run, Prod.mk.injEq, Except.ok.injEq] at finish
  obtain ⟨rfl, rfl⟩ := finish
  obtain ⟨newName, conflictName, drawn, rfl, rfl, marks⟩ := mergeFile_sound named filed
  have genuine' : Genuine middle.store := (marks.grown genuine).2
  obtain ⟨grown, child, below, clash, levels, rfl, marked, rows, deeper⟩ :=
    mergeDir_sound spec genuine' (marks.1 ▸ reached) walked
  refine ⟨(marks.grown genuine).trans grown, ⟨newName, child, below, clash⟩, levels, rfl, ?_,
    marks.1 ▸ rows, conflictName, drawnBy _ _ _ _ reached drawn, deeper⟩
  rw [marked, marks.2, groupConflicts, Bool.or_assoc]

theorem mergeGroups_sound (spec : LevelSpec draws env first recurse) {slotsOf : String → Slots Oid}
    (named : ∀ name remote, (slotsOf name).remote = some remote → remote.name = name) :
    ∀ (names : List String), names.Nodup →
      ∀ (state after : MergeState Oid) (merged : List (DirEntryData Oid)),
        Genuine state.store → Table.Extends first state.store →
        mergeGroups env recurse basedir (names.map slotsOf) state = (.ok merged, after) →
        Grown state after ∧ ∃ (runs : String → GroupRun Oid)
            (levels : String → List (List (DirEntryData Oid))),
          merged = names.flatMap (fun name => groupEmits (slotsOf name) (runs name)) ∧
          after.conflict = (state.conflict ||
            names.any fun name => groupConflicts (slotsOf name) (runs name)) ∧
          RowsFrom state.store after.store
            (names.flatMap fun name => if Recurses (slotsOf name) then levels name else []) ∧
          (∀ name, ConflictName env name (runs name).newName) ∧
          ∀ name ∈ names, GroupSettled draws env after.store basedir name (slotsOf name)
            (runs name) (levels name) := by
  intro names
  induction names with
  | nil =>
    intro _ state after merged genuine reached run
    simp only [List.map_nil, mergeGroups, pure_run, Prod.mk.injEq,
      Except.ok.injEq] at run
    obtain ⟨rfl, rfl⟩ := run
    refine ⟨⟨Table.Extends.refl _, genuine⟩, fun name =>
      ⟨conflictPath name none (env.formatLocalTimestamp 0), emptySha1, [], false⟩,
      fun _ => [], rfl, by simp, RowsFrom.refl _, fun name => ⟨none, 0, rfl⟩, by simp⟩
  | cons name rest ih =>
    intro nodup state after merged genuine reached run
    have fresh : name ∉ rest := (List.nodup_cons.mp nodup).1
    simp only [List.map_cons, mergeGroups] at run
    obtain ⟨pushed, middle, grouped, run1⟩ := bind_ok_iff.mp run
    obtain ⟨others, last, walked, finish⟩ := bind_ok_iff.mp run1
    simp only [pure_run, Prod.mk.injEq, Except.ok.injEq] at finish
    obtain ⟨rfl, rfl⟩ := finish
    obtain ⟨grown, settled, levelsHere, rfl, marked, rows, here⟩ :=
      mergeGroup_sound drawnBy spec genuine reached (named name) grouped
    obtain ⟨grownRest, runs, levels, rfl, markedRest, rowsRest, allNamed, there⟩ :=
      ih (List.nodup_cons.mp nodup).2 middle last others grown.2 (reached.trans grown.1) walked
    -- What was found for `name` overrides the others' choice at that name only.
    have apart : ∀ other ∈ rest, other ≠ name := by
      rintro other member rfl
      exact fresh member
    have elsewhere : ∀ other ∈ rest,
        Function.update runs name settled other = runs other :=
      fun other member => Function.update_of_ne (apart other member) _ _
    have elsewhere' : ∀ other ∈ rest,
        Function.update levels name levelsHere other = levels other :=
      fun other member => Function.update_of_ne (apart other member) _ _
    refine ⟨grown.trans grownRest, Function.update runs name settled,
      Function.update levels name levelsHere, ?_, ?_, ?_, ?_, ?_⟩
    · rw [List.flatMap_cons, Function.update_self]
      congr 1
      refine List.flatMap_congr fun other member => ?_
      rw [elsewhere other member]
    · have sameFlags : (rest.any fun other => groupConflicts (slotsOf other)
          (Function.update runs name settled other)) =
          rest.any fun other => groupConflicts (slotsOf other) (runs other) := by
        rw [Bool.eq_iff_iff, List.any_eq_true, List.any_eq_true]
        refine exists_congr fun other => and_congr_right fun member => ?_
        rw [elsewhere other member]
      rw [List.any_cons, Function.update_self, sameFlags, markedRest, marked,
        Bool.or_assoc]
    · have sameLevels : (rest.flatMap fun other => if Recurses (slotsOf other) then
          Function.update levels name levelsHere other else []) =
          rest.flatMap fun other => if Recurses (slotsOf other) then levels other else [] := by
        refine List.flatMap_congr fun other member => ?_
        rw [elsewhere' other member]
      rw [List.flatMap_cons, Function.update_self, sameLevels]
      exact rows.trans rowsRest
    · intro other
      by_cases same : other = name
      · subst same
        rw [Function.update_self]
        exact here.named
      · rw [Function.update_of_ne same]
        exact allNamed other
    · intro other member
      rcases List.mem_cons.mp member with rfl | member
      · rw [Function.update_self, Function.update_self]
        exact here.extends grownRest.1
      · rw [elsewhere other member, elsewhere' other member]
        exact there other member

end Levels

section

omit [DecidableEq Oid] [Digests Oid] [ToString Oid]

theorem slotAt_eq_some {entries : List (DirEntryData Oid)}
    (found : slotAt entries name = some entry) : entry ∈ entries ∧ entry.name = name := by
  obtain ⟨listed, named⟩ := lookup_eq_some found
  exact ⟨mem_sortDirentsDesc.mp listed, named⟩

theorem groupNames_nodup (base head remote : List (DirEntryData Oid)) :
    (groupNames base head remote).Nodup :=
  (List.perm_insertionSort _ _).nodup_iff.mpr (List.nodup_dedup _)

end

omit [ToString Oid] in
theorem storeMerged_sound {merged : List (DirEntryData Oid)} (genuine : Genuine state.store)
    (run : storeMerged merged state = (.ok fsId, after)) :
    Grown state after ∧ after.conflict = state.conflict ∧
      RowsFrom state.store after.store [merged] ∧
      StandsFor after.store fsId (stored merged) := by
  simp only [storeMerged, update_run, Prod.mk.injEq, Except.ok.injEq] at run
  obtain ⟨rfl, rfl⟩ := run
  obtain ⟨grown, genuine', stands⟩ :=
    storeFsDirObject_spec ⟨merged, seafMetadataTypeDir, 1⟩ genuine
  refine ⟨⟨grown, genuine'⟩, rfl, ?_, stands⟩
  intro id data found
  unfold storeFsDirObject at found
  split at found
  · exact Or.inl found
  · rcases Table.find_insertOrIgnore_cases found with before | ⟨-, isNew⟩
    · exact Or.inl before
    · cases isNew
      exact Or.inr ⟨merged, List.mem_singleton_self merged, rfl⟩

theorem mergeLevel_sound {env : MergeEnv Oid} {first : FsStore Oid}
    (drawnBy : DrawnBy draws env first) (depth : Nat) :
    LevelSpec draws env first (mergeLevel env depth) := by
  induction depth with
  | zero =>
    intro trees basedir state fsId after genuine reached run
    simp [mergeLevel] at run
  | succ depth ih =>
    intro trees basedir state fsId after genuine reached run
    rw [mergeLevel] at run
    obtain ⟨visits, second, counted, run1⟩ := bind_ok_iff.mp run
    simp only [update_run, Prod.mk.injEq, Except.ok.injEq] at counted
    obtain ⟨rfl, rfl⟩ := counted
    split at run1
    · simp at run1
    · obtain ⟨_, third, walked, run2⟩ := bind_ok_iff.mp run1
      simp only [modify_run, Prod.mk.injEq] at walked
      obtain ⟨-, rfl⟩ := walked
      obtain ⟨merged, fourth, grouped, finish⟩ := bind_ok_iff.mp run2
      obtain ⟨grown, runs, levels, rfl, marked, rows, named, settled⟩ :=
        mergeGroups_sound drawnBy ih
          (fun name remote found => (slotAt_eq_some found).2)
          _ (groupNames_nodup _ _ _) _ _ _ (by exact genuine) (by exact reached) grouped
      obtain ⟨grownStore, sameFlag, row, stands⟩ := storeMerged_sound grown.2 finish
      refine ⟨(show Grown state fourth from grown).trans grownStore, ?_⟩
      let here : TreeLevel Oid :=
        ⟨basedir, sideEntries trees.base, sideEntries trees.head, sideEntries trees.remote⟩
      let merged := here.names.flatMap fun name => groupEmits (here.slots name) (runs name)
      refine ⟨merged, _, merged :: here.names.flatMap fun name =>
        if Recurses (here.slots name) then levels name else [], sameFlag.trans marked, ?_,
        fun store extended => ⟨stands.extends extended, ?_⟩⟩
      · intro id data found
        rcases (show RowsFrom state.store fourth.store _ from rows).trans row id data found with
          before | ⟨level, listed, same⟩
        · exact Or.inl before
        · refine Or.inr ⟨level, ?_, same⟩
          rcases List.mem_append.mp listed with below | last
          · exact List.mem_cons_of_mem _ below
          · exact List.mem_cons.mpr (Or.inl (List.mem_singleton.mp last))
      · have reach := grownStore.1.trans extended
        exact .level runs levels named (fun name member => (settled name member).drawn)
          (fun name member recurses => ((settled name member).below recurses store reach).1)
          (fun name member recurses => ((settled name member).below recurses store reach).2)

variable {baseRoot headRoot : Oid} {outcome : MergeOutcome Oid}

theorem mergeTrees_levels {env : MergeEnv Oid} {after : FsStore Oid} (genuine : Genuine store)
    (drawnBy : DrawnBy draws env store)
    (run : mergeTrees env baseRoot headRoot store = (.ok outcome, after)) :
    Table.Extends store after ∧ Genuine after ∧ ∃ base head remote merged levels,
      StandsFor store baseRoot base ∧ StandsFor store headRoot head ∧
      StandsFor store env.remoteRoot remote ∧
      StandsFor after outcome.mergedRoot (stored merged) ∧ RowsFrom store after levels ∧
      MergedBy draws env after ⟨"", base, head, remote⟩ merged outcome.conflict levels := by
  unfold mergeTrees at run
  simp only at run
  split at run
  · simp at run
  · rename_i mergedRoot state ran
    simp only [Prod.mk.injEq, Except.ok.injEq] at run
    obtain ⟨rfl, rfl⟩ := run
    obtain ⟨base, first, loadedBase, run1⟩ := bind_ok_iff.mp ran
    obtain ⟨head, second, loadedHead, run2⟩ := bind_ok_iff.mp run1
    obtain ⟨remote, third, loadedRemote, run3⟩ := bind_ok_iff.mp run2
    obtain ⟨rfl, standsBase⟩ := loadDir_sound loadedBase
    obtain ⟨rfl, standsHead⟩ := loadDir_sound loadedHead
    obtain ⟨rfl, standsRemote⟩ := loadDir_sound loadedRemote
    obtain ⟨grown, merged, clash, levels, marked, rows, read⟩ :=
      mergeLevel_sound drawnBy _ _ _ _ _ _ (by exact genuine) (by exact Table.Extends.refl _) run3
    obtain ⟨stands, done⟩ := read state.store (Table.Extends.refl _)
    simp only [Bool.false_or] at marked
    refine ⟨grown.1, grown.2, _, _, _, merged, levels, standsBase, standsHead, standsRemote,
      stands, rows, ?_⟩
    rw [marked]
    exact done

theorem mergeTrees_sound {env : MergeEnv Oid} {after : FsStore Oid} (genuine : Genuine store)
    (run : mergeTrees env baseRoot headRoot store = (.ok outcome, after)) :
    Table.Extends store after ∧ Genuine after ∧ ∃ base head remote merged,
      StandsFor store baseRoot base ∧ StandsFor store headRoot head ∧
      StandsFor store env.remoteRoot remote ∧
      StandsFor after outcome.mergedRoot (stored merged) ∧
      Merged env after base head remote merged outcome.conflict := by
  have drawnBy : DrawnBy (fun _ _ _ => True) env store := fun _ _ _ _ _ _ => trivial
  obtain ⟨grown, genuine', base, head, remote, merged, levels, standsBase, standsHead, standsRemote,
    stands, -, level⟩ := mergeTrees_levels genuine drawnBy run
  exact ⟨grown, genuine', base, head, remote, merged, standsBase, standsHead, standsRemote, stands,
    level.merged⟩

/-! ## A merge that fails -/

/-- What every procedure of the merge keeps, whether it succeeds or not. -/
def GrownFrom (before store : FsStore Oid) : Prop :=
  Table.Extends before store ∧ Genuine store

/-- A procedure of the merge keeps a property of the store. -/
def StoreKept (P : FsStore Oid → Prop) {Result : Type} (proc : Merge Oid Result) : Prop :=
  Proc.Keeps (fun state => P state.store) proc

section StoreKept

variable {P : FsStore Oid → Prop}

omit [DecidableEq Oid] [Digests Oid] [ToString Oid] in
theorem storeKept_of_same {Result : Type} {proc : Merge Oid Result}
    (same : ∀ state, (proc state).2.store = state.store) : StoreKept P proc :=
  keeps_of_same MergeState.store same

theorem conflictFileName_store (env : MergeEnv Oid) (basedir name : String)
    (state : MergeState Oid) :
    (conflictFileName env basedir name state).2.store = state.store := by
  simp only [conflictFileName, bind_run, read_run]
  rcases remoteModifierMtime state.store env.remoteRoot (basedir ++ name) with
    failure | (_ | ⟨modifier, mtime⟩) <;> rfl

theorem storeKept_mergeFile (env : MergeEnv Oid) (basedir : String)
    (slots : Slots Oid) : StoreKept P (mergeFile env basedir slots) := by
  unfold mergeFile
  split
  · split
    · exact keeps_pure _ _
    · exact storeKept_of_same fun _ => rfl
    · split
      · exact keeps_fail _ _
      · apply keeps_bind
        · exact storeKept_of_same (conflictFileName_store env basedir _)
        · intro newName
          exact storeKept_of_same fun _ => rfl
    · split
      · exact keeps_fail _ _
      · exact storeKept_of_same fun _ => rfl
  · exact keeps_pure _ _

theorem storeKept_loadDir (fsId : Oid) : StoreKept P (loadDir fsId) :=
  keeps_tryRead _ _

theorem storeKept_loadChild (slot : Option (DirEntryData Oid)) :
    StoreKept P (loadChild slot) := by
  unfold loadChild
  split
  · exact keeps_pure _ _
  · split
    · apply keeps_bind (storeKept_loadDir _)
      intro data
      exact keeps_pure _ _
    · exact keeps_pure _ _

theorem storeKept_mergeDir (deeper : ∀ trees basedir, StoreKept P (recurse trees basedir))
    (basedir : String) (slots : Slots Oid) : StoreKept P (mergeDir recurse basedir slots) := by
  unfold mergeDir
  split
  · split
    · exact keeps_fail _ _
    · exact keeps_pure _ _
    · exact storeKept_of_same fun _ => rfl
    · apply keeps_bind
      · exact storeKept_of_same fun _ => rfl
      · intro _
        split
        · exact keeps_fail _ _
        · apply keeps_bind (storeKept_loadChild slots.base)
          intro base
          apply keeps_bind (storeKept_loadChild slots.head)
          intro head
          apply keeps_bind (storeKept_loadChild slots.remote)
          intro remote
          apply keeps_bind (deeper _ _)
          intro merged
          split
          · exact keeps_fail _ _
          · exact keeps_pure _ _
  · exact keeps_pure _ _

theorem storeKept_mergeGroups (env : MergeEnv Oid)
    (deeper : ∀ trees basedir, StoreKept P (recurse trees basedir)) (basedir : String) :
    ∀ groups : List (Slots Oid), StoreKept P (mergeGroups env recurse basedir groups) := by
  intro groups
  induction groups with
  | nil => exact keeps_pure _ _
  | cons slots rest ih =>
    apply keeps_bind
    · apply keeps_bind (storeKept_mergeFile env basedir slots)
      intro filed
      apply keeps_bind (storeKept_mergeDir deeper basedir filed.2)
      intro dirs
      exact keeps_pure _ _
    · intro pushed
      apply keeps_bind ih
      intro merged
      exact keeps_pure _ _

variable (stores : ∀ store data, P store → P (storeFsDirObject store data).2)

include stores

theorem storeKept_mergeLevel (env : MergeEnv Oid) (depth : Nat) :
    ∀ trees basedir, StoreKept P (mergeLevel env depth trees basedir) := by
  induction depth with
  | zero =>
    intro trees basedir
    exact keeps_fail _ _
  | succ depth ih =>
    intro trees basedir
    rw [mergeLevel]
    apply keeps_bind
    · exact storeKept_of_same fun _ => rfl
    · intro visits
      split
      · exact keeps_fail _ _
      · apply keeps_bind
        · exact storeKept_of_same fun _ => rfl
        · intro _
          apply keeps_bind (storeKept_mergeGroups env ih basedir _)
          intro merged state kept
          exact stores state.store ⟨merged, seafMetadataTypeDir, 1⟩ kept

theorem mergeTrees_keeps (env : MergeEnv Oid) (baseRoot headRoot : Oid) (kept : P store) :
    P (mergeTrees env baseRoot headRoot store).2 := by
  have keeps : StoreKept P (do
      let base ← loadDir baseRoot
      let head ← loadDir headRoot
      let remote ← loadDir env.remoteRoot
      mergeLevel env env.limits.maxDepth ⟨some base, some head, some remote⟩ "") := by
    apply keeps_bind (storeKept_loadDir baseRoot)
    intro base
    apply keeps_bind (storeKept_loadDir headRoot)
    intro head
    apply keeps_bind (storeKept_loadDir env.remoteRoot)
    intro remote
    exact storeKept_mergeLevel stores env _ _ _
  have after := keeps ⟨store, false, false, 0, 0, 0⟩ kept
  unfold mergeTrees
  simp only
  split
  · rename_i failure state ran
    rw [ran] at after
    exact after
  · rename_i mergedRoot state ran
    rw [ran] at after
    exact after

end StoreKept

theorem mergeTrees_grows (env : MergeEnv Oid) (baseRoot headRoot : Oid) (genuine : Genuine store) :
    Table.Extends store (mergeTrees env baseRoot headRoot store).2 ∧
      Genuine (mergeTrees env baseRoot headRoot store).2 := by
  refine mergeTrees_keeps (P := GrownFrom store) ?_ env baseRoot headRoot
    ⟨Table.Extends.refl store, genuine⟩
  intro before data grown
  obtain ⟨extends', genuine', -⟩ := storeFsDirObject_spec data grown.2
  exact ⟨grown.1.trans extends', genuine'⟩

end Nanofile
