import Nanofile.Fs.DiffWalk
import Nanofile.Service.SizeDelta

/-!
# What the upload check reports

On two trees that are stored as they say, the check reports the changed files with a
missing block and no others, and the difference of the two sizes.  Each pair of
directories reports its own files and leaves the rest to its children.
-/

set_option autoImplicit false

namespace Nanofile

open Nanofile.Lib

variable {Oid : Type} [DecidableEq Oid] [Digests Oid]

/-- Every directory is stored, with unique names, and every other entry is a stored file of
its size. -/
inductive Recorded (store : FsStore Oid) : Oid → Prop
  | empty : Recorded store emptySha1
  | dir {fsId : Oid} {data : FsDirData Oid} (read : dirBatch store fsId = some data)
      (unique : (data.dirents.map DirEntryData.name).Nodup)
      (files : ∀ entry ∈ data.dirents, hasDirBit entry.mode = false →
        FileOfSize store entry.id entry.size)
      (dirs : ∀ entry ∈ data.dirents, hasDirBit entry.mode = true → Recorded store entry.id) :
      Recorded store fsId

def RecordedEntry (store : FsStore Oid) (entry : DirEntryData Oid) : Prop :=
  if hasDirBit entry.mode then Recorded store entry.id else FileOfSize store entry.id entry.size

variable {store : FsStore Oid} {fsId : Oid}

theorem Recorded.stored (recorded : Recorded store fsId) (nonempty : fsId ≠ emptySha1) :
    ∃ data, dirBatch store fsId = some data := by
  cases recorded with
  | empty => exact absurd rfl nonempty
  | dir read => exact ⟨_, read⟩

theorem Recorded.entries (recorded : Recorded store fsId) :
    ((entriesOf store fsId).map DirEntryData.name).Nodup ∧
      ∀ entry ∈ entriesOf store fsId, RecordedEntry store entry := by
  cases recorded with
  | empty =>
    rw [entriesOf_sentinel]
    exact ⟨List.nodup_nil, fun entry listed => absurd listed List.not_mem_nil⟩
  | @dir _ data read unique files dirs =>
    have same : entriesOf store fsId = data.dirents := by rw [entriesOf, read]; rfl
    rw [same]
    refine ⟨unique, fun entry listed => ?_⟩
    unfold RecordedEntry
    split
    · rename_i directory
      exact dirs entry listed directory
    · rename_i file
      exact files entry listed (by simpa using file)

theorem fileBatch_eq_none_of_dir {data : FsDirData Oid} (read : dirBatch store fsId = some data) :
    fileBatch store fsId = none := by
  unfold dirBatch at read
  split at read
  · simp at read
  · rename_i nonempty
    rw [fileBatch, if_neg nonempty]
    split at read
    · rename_i present
      rw [present]
    · simp at read

theorem FileOfSize.no_entries {size : Int} (file : FileOfSize store fsId size) :
    entriesOf store fsId = [] := by
  obtain ⟨data, isFile, -⟩ := file
  unfold entriesOf
  cases read : dirBatch store fsId with
  | none => rfl
  | some dir =>
    rw [fileBatch_eq_none_of_dir read] at isFile
    cases isFile

def reportedPath (start : String) (path : TreePath) : String := path.foldl childOf start

def LacksBlock (store : FsStore Oid) (held : Oid → Bool) (fsId : Oid) : Prop :=
  ∃ file, fileBatch store fsId = some file ∧ hasMissing held file = true

/-- The path is one of a file of the new tree, and the base has not that object there. -/
def ChangedFile (store : FsStore Oid) (base new : List (DirEntryData Oid)) (path : TreePath)
    (fsId : Oid) : Prop :=
  filesOf store new path = some fsId ∧ ∀ entry, entryAt store base path = some entry →
    entry.id ≠ fsId

/-- The text of a changed file that lacks a block. -/
def Reports (store : FsStore Oid) (held : Oid → Bool) (base new : List (DirEntryData Oid))
    (start text : String) : Prop :=
  ∃ path fsId, ChangedFile store base new path fsId ∧ LacksBlock store held fsId ∧
    text = reportedPath start path

variable {held : Oid → Bool}

theorem not_lacksBlock_of_dir (recorded : Recorded store fsId) :
    ¬ LacksBlock store held fsId := by
  intro lacks
  obtain ⟨file, isFile, missing⟩ := lacks
  cases recorded with
  | empty =>
    rw [fileBatch, if_pos rfl] at isFile
    cases isFile
    simp [hasMissing, emptyFileData] at missing
  | dir read =>
    rw [fileBatch_eq_none_of_dir read] at isFile
    cases isFile

theorem filesOf_cons (new : List (DirEntryData Oid)) (name next : String) (rest : TreePath) :
    filesOf store new (name :: next :: rest) =
      filesOf store (entriesUnder store new name) (next :: rest) := rfl

variable {start text : String}

theorem not_reports_nil {base : List (DirEntryData Oid)} :
    ¬ Reports store held base [] start text := by
  intro reports
  obtain ⟨path, fsId, ⟨isFile, -⟩, -⟩ := reports
  rw [filesOf, entryAt_nil_root] at isFile
  cases isFile

theorem not_reports_self {tree : List (DirEntryData Oid)} :
    ¬ Reports store held tree tree start text := by
  intro reports
  obtain ⟨path, fsId, ⟨isFile, differs⟩, -⟩ := reports
  obtain ⟨entry, found, here⟩ := Option.bind_eq_some_iff.mp isFile
  split at here
  · cases here
  · cases here
    exact differs entry found rfl

/-- What an entry of the new side reports: itself, or the files below it. -/
def EntryReports (store : FsStore Oid) (held : Oid → Bool) (base : List (DirEntryData Oid))
    (start : String) (entry : DirEntryData Oid) (text : String) : Prop :=
  if hasDirBit entry.mode then
    Reports store held (entriesUnder store base entry.name) (entriesOf store entry.id)
      (childOf start entry.name) text
  else (∀ other, lookup base entry.name = some other → other.id ≠ entry.id) ∧
    LacksBlock store held entry.id ∧ text = childOf start entry.name

theorem reports_iff {base new : List (DirEntryData Oid)}
    (unique : (new.map DirEntryData.name).Nodup) :
    Reports store held base new start text ↔
      ∃ entry ∈ new, EntryReports store held base start entry text := by
  constructor
  · intro reports
    obtain ⟨path, fsId, ⟨isFile, differs⟩, lacks, isText⟩ := reports
    cases path with
    | nil => cases isFile
    | cons name rest =>
      cases rest with
      | nil =>
        obtain ⟨entry, found, here⟩ := Option.bind_eq_some_iff.mp isFile
        obtain ⟨listed, rfl⟩ := lookup_eq_some found
        split at here
        · cases here
        · rename_i file
          cases here
          refine ⟨entry, listed, ?_⟩
          rw [EntryReports, if_neg file]
          exact ⟨differs, lacks, isText⟩
      | cons next rest =>
        rw [filesOf_cons] at isFile
        cases found : lookup new name with
        | none =>
          rw [entriesUnder, found] at isFile
          rw [filesOf, entryAt_nil_root] at isFile
          cases isFile
        | some entry =>
          obtain ⟨listed, rfl⟩ := lookup_eq_some found
          simp only [entriesUnder, found] at isFile
          split at isFile
          · rename_i directory
            refine ⟨entry, listed, ?_⟩
            rw [EntryReports, if_pos directory]
            exact ⟨next :: rest, fsId, ⟨isFile, differs⟩, lacks, isText⟩
          · rw [filesOf, entryAt_nil_root] at isFile
            cases isFile
  · intro reports
    obtain ⟨entry, listed, here⟩ := reports
    have found := lookup_of_mem unique listed
    unfold EntryReports at here
    split at here
    · rename_i directory
      obtain ⟨path, fsId, ⟨isFile, differs⟩, lacks, isText⟩ := here
      cases path with
      | nil => cases isFile
      | cons next rest =>
        refine ⟨entry.name :: next :: rest, fsId, ⟨?_, differs⟩, lacks, isText⟩
        rw [filesOf_cons, entriesUnder, found]
        simp only [directory, if_true]
        exact isFile
    · rename_i file
      obtain ⟨differs, lacks, isText⟩ := here
      refine ⟨[entry.name], entry.id, ⟨?_, differs⟩, lacks, isText⟩
      show (lookup new entry.name).bind _ = _
      simp [found, file]

def pairEntries (store : FsStore Oid) (side : Option Oid) : List (DirEntryData Oid) :=
  (side.map (entriesOf store)).getD []

def RecordedSide (store : FsStore Oid) (side : Option Oid) : Prop :=
  ∀ fsId, side = some fsId → fsId ≠ emptySha1 ∧ Recorded store fsId

def RecordedFrame (store : FsStore Oid) (frame : DiffFrame Oid) : Prop :=
  RecordedSide store frame.baseFsId ∧ RecordedSide store frame.newFsId

def FrameReports (store : FsStore Oid) (held : Oid → Bool) (frame : DiffFrame Oid)
    (text : String) : Prop :=
  Reports store held (pairEntries store frame.baseFsId) (pairEntries store frame.newFsId)
    frame.path text

/-- What a pair reports by its pending files and leaves to its next pairs. -/
def DiffReports (store : FsStore Oid) (held : Oid → Bool) (diff : FrameDiff Oid)
    (text : String) : Prop :=
  (∃ file ∈ diff.pending, LacksBlock store held file.1 ∧ text = file.2) ∨
    ∃ frame ∈ diff.next, FrameReports store held frame text

/-- The next pairs are stored, and together they report what is meant. -/
def DiffExact (store : FsStore Oid) (held : Oid → Bool) (diff : FrameDiff Oid)
    (meant : String → Prop) : Prop :=
  (∀ frame ∈ diff.next, RecordedFrame store frame) ∧
    ∀ text, DiffReports store held diff text ↔ meant text

theorem pairEntries_storedDir (fsId : Oid) :
    pairEntries store (storedDir fsId) = entriesOf store fsId := by
  unfold storedDir
  split
  · rename_i isEmpty
    rw [isEmpty, entriesOf_sentinel]
    rfl
  · rfl

theorem recordedSide_none : RecordedSide store none := by
  intro fsId isSome
  cases isSome

theorem recordedSide_storedDir (recorded : Recorded store fsId) :
    RecordedSide store (storedDir fsId) := by
  intro other isStored
  obtain ⟨rfl, nonempty⟩ := storedDir_eq_some isStored
  exact ⟨nonempty, recorded⟩

theorem diffExact_empty : DiffExact store held .empty fun _ => False := by
  simp [DiffExact, DiffReports, FrameDiff.empty]

theorem DiffExact.append {first second : FrameDiff Oid} {meant meant' : String → Prop}
    (exact : DiffExact store held first meant) (exact' : DiffExact store held second meant') :
    DiffExact store held (first.append second) fun text => meant text ∨ meant' text := by
  refine ⟨?_, fun text => ?_⟩
  · intro frame listed
    exact (List.mem_append.mp listed).elim (exact.1 frame) (exact'.1 frame)
  · show _ ↔ meant text ∨ meant' text
    rw [← exact.2 text, ← exact'.2 text]
    simp only [DiffReports, FrameDiff.append, List.mem_append, or_and_right, exists_or]
    exact or_or_or_comm

theorem DiffExact.congr {diff : FrameDiff Oid} {meant meant' : String → Prop}
    (exact : DiffExact store held diff meant) (same : ∀ text, meant text ↔ meant' text) :
    DiffExact store held diff meant' := ⟨exact.1, fun text => (exact.2 text).trans (same text)⟩

theorem diffExact_join {Item : Type} {diffOf : Item → FrameDiff Oid}
    {meantOf : Item → String → Prop} {items : List Item}
    (exact : ∀ item ∈ items, DiffExact store held (diffOf item) (meantOf item)) :
    DiffExact store held (.join (items.map diffOf)) fun text =>
      ∃ item ∈ items, meantOf item text := by
  induction items with
  | nil =>
    have nothing : DiffExact store held (.join ([].map diffOf)) fun _ => False :=
      diffExact_empty
    exact nothing.congr fun text => by simp
  | cons item rest ih =>
    have both : DiffExact store held (.join ((item :: rest).map diffOf)) _ :=
      (exact item List.mem_cons_self).append
        (ih fun other listed => exact other (List.mem_cons_of_mem _ listed))
    exact both.congr fun text => by simp

theorem diffExact_frame {base new : Option Oid} {path : String} {delta : Int}
    (recorded : RecordedSide store base) (recorded' : RecordedSide store new) :
    DiffExact store held ⟨[⟨base, new, path⟩], delta, []⟩
      (Reports store held (pairEntries store base) (pairEntries store new) path) := by
  refine ⟨?_, fun text => ?_⟩
  · intro frame listed
    rw [List.mem_singleton.mp listed]
    exact ⟨recorded, recorded'⟩
  · simp [DiffReports, FrameReports]

theorem diffExact_pending {path : String} {delta : Int} :
    DiffExact store held ⟨[], delta, [(fsId, path)]⟩ fun text =>
      LacksBlock store held fsId ∧ text = path := by
  simp [DiffExact, DiffReports]

section Entries

variable {base entry : DirEntryData Oid}

theorem deletedEntry_exact (path : String) (recorded : RecordedEntry store entry) :
    DiffExact store held (deletedEntry path entry) fun _ => False := by
  unfold deletedEntry
  split
  · rename_i directory
    rw [RecordedEntry, if_pos directory] at recorded
    exact (diffExact_frame (recordedSide_storedDir recorded) recordedSide_none).congr
      fun text => iff_false_intro not_reports_nil
  · simp [DiffExact, DiffReports]

variable {dirents : List (DirEntryData Oid)}

theorem addedEntry_exact (path : String) (recorded : RecordedEntry store entry)
    (absent : lookup dirents entry.name = none) :
    DiffExact store held (addedEntry path entry)
      (EntryReports store held dirents path entry) := by
  unfold addedEntry
  split
  · rename_i directory
    rw [RecordedEntry, if_pos directory] at recorded
    refine (diffExact_frame recordedSide_none (recordedSide_storedDir recorded)).congr
      fun text => ?_
    rw [EntryReports, if_pos directory, pairEntries_storedDir, entriesUnder, absent]
    rfl
  · rename_i file
    refine diffExact_pending.congr fun text => ?_
    rw [EntryReports, if_neg file, absent]
    simp

theorem changedEntry_exact (path : String) (recordedBase : RecordedEntry store base)
    (recorded : RecordedEntry store entry)
    (found : lookup dirents entry.name = some base) :
    DiffExact store held (changedEntry path base entry)
      (EntryReports store held dirents path entry) := by
  unfold changedEntry
  dsimp only
  split
  · -- The entry is skipped: the base has the same object under its name.
    rename_i sameId
    refine diffExact_empty.congr fun text => ?_
    rw [false_iff]
    unfold EntryReports
    split
    · rename_i directory
      rw [entriesUnder, found]
      dsimp only
      split
      · rw [sameId]
        exact not_reports_self
      · rename_i file
        rw [RecordedEntry, if_neg file] at recordedBase
        rw [sameId, recordedBase.no_entries]
        exact not_reports_nil
    · intro here
      exact here.1 base found sameId.symm
  · rename_i changed
    have differs : ∀ other, lookup dirents entry.name = some other → other.id ≠ entry.id := by
      intro other isOther
      rw [found, Option.some.injEq] at isOther
      subst isOther
      exact fun same => changed same.symm
    unfold RecordedEntry at recordedBase recorded
    cases baseDir : hasDirBit base.mode with
    | true =>
      rw [if_pos baseDir] at recordedBase
      cases newDir : hasDirBit entry.mode with
      | true =>
        rw [if_pos newDir] at recorded
        refine (diffExact_frame (recordedSide_storedDir recordedBase)
          (recordedSide_storedDir recorded)).congr fun text => ?_
        rw [EntryReports, if_pos newDir, pairEntries_storedDir, pairEntries_storedDir,
          entriesUnder, found]
        simp only [baseDir, if_true]
      | false =>
        have below : DiffExact store held
            ⟨[⟨storedDir base.id, none, childOf path entry.name⟩], entry.size, []⟩ _ :=
          diffExact_frame (recordedSide_storedDir recordedBase) recordedSide_none
        have asked : DiffExact store held ⟨[], 0, [(entry.id, childOf path entry.name)]⟩ _ :=
          diffExact_pending
        have both := below.append asked
        simp only [FrameDiff.append, List.append_nil, List.nil_append, add_zero] at both
        refine both.congr fun text => ?_
        rw [EntryReports, if_neg (by simp [newDir])]
        constructor
        · intro either
          exact ⟨differs, either.resolve_left not_reports_nil⟩
        · intro here
          exact Or.inr here.2
    | false =>
      rw [if_neg (by simp [baseDir])] at recordedBase
      cases newDir : hasDirBit entry.mode with
      | true =>
        rw [if_pos newDir] at recorded
        refine (diffExact_frame recordedSide_none (recordedSide_storedDir recorded)).congr
          fun text => ?_
        rw [EntryReports, if_pos newDir, pairEntries_storedDir, entriesUnder, found]
        simp only [baseDir, Bool.false_eq_true, if_false]
        rfl
      | false =>
        refine diffExact_pending.congr fun text => ?_
        rw [EntryReports, if_neg (by simp [newDir])]
        exact ⟨fun lacks => ⟨differs, lacks⟩, fun here => here.2⟩

theorem compareEntry_exact (path : String) {baseDir : FsDirData Oid}
    (unique : (baseDir.dirents.map DirEntryData.name).Nodup)
    (recordedBase : ∀ other ∈ baseDir.dirents, RecordedEntry store other)
    (recorded : RecordedEntry store entry) :
    DiffExact store held (compareEntry baseDir path entry)
      (EntryReports store held baseDir.dirents path entry) := by
  unfold compareEntry
  rw [lastNamed_eq_lookup unique]
  cases found : lookup baseDir.dirents entry.name with
  | none => exact addedEntry_exact path recorded found
  | some other =>
    exact changedEntry_exact path (recordedBase other (lookup_eq_some found).1) recorded found

end Entries

theorem entriesOf_of_read {data : FsDirData Oid} (read : dirBatch store fsId = some data) :
    entriesOf store fsId = data.dirents := by
  rw [entriesOf, read]
  rfl

theorem diffFrame_exact {frame : DiffFrame Oid} {diff : FrameDiff Oid}
    (recorded : RecordedFrame store frame) (run : diffFrame store frame = .ok diff) :
    DiffExact store held diff (FrameReports store held frame) := by
  obtain ⟨base, new, path⟩ := frame
  obtain ⟨recordedBase, recordedNew⟩ := recorded
  unfold diffFrame at run
  dsimp only at run recordedBase recordedNew
  split at run
  · rename_i same
    cases run
    refine diffExact_empty.congr fun text => ?_
    rw [false_iff, FrameReports]
    dsimp only
    rw [same]
    exact not_reports_self
  · cases new with
    | none =>
      cases base with
      | none =>
        rename_i differ
        exact absurd rfl differ
      | some base =>
        obtain ⟨nonempty, recordedBase⟩ := recordedBase base rfl
        obtain ⟨data, read⟩ := recordedBase.stored nonempty
        have entries := recordedBase.entries
        rw [entriesOf_of_read read] at entries
        simp only [Option.bind_some, read, Option.isSome_some, Option.isNone_some,
          Bool.and_false, Option.isSome_none, Bool.false_and, Bool.or_self, Bool.false_eq_true,
          if_false, Option.bind_none, diffDirs, Except.ok.injEq] at run
        subst run
        refine (diffExact_join fun entry listed =>
          deletedEntry_exact path (entries.2 entry listed)).congr fun text => ?_
        simp only [and_false, exists_false, false_iff]
        exact not_reports_nil
    | some new =>
      obtain ⟨nonemptyNew, recordedNew⟩ := recordedNew new rfl
      obtain ⟨newDir, readNew⟩ := recordedNew.stored nonemptyNew
      obtain ⟨uniqueNew, entriesNew⟩ := recordedNew.entries
      rw [entriesOf_of_read readNew] at uniqueNew entriesNew
      cases base with
      | none =>
        simp only [Option.bind_some, readNew, Option.isSome_some, Option.isNone_some,
          Bool.and_false, Option.isSome_none, Bool.false_and, Bool.or_self, Bool.false_eq_true,
          if_false, Option.bind_none, diffDirs, Except.ok.injEq] at run
        subst run
        refine (diffExact_join fun entry listed =>
          addedEntry_exact path (entriesNew entry listed)
            (rfl : lookup [] entry.name = none)).congr fun text => ?_
        rw [FrameReports]
        dsimp only
        rw [show pairEntries store (some new) = newDir.dirents from entriesOf_of_read readNew]
        exact (reports_iff uniqueNew).symm
      | some base =>
        obtain ⟨nonemptyBase, recordedBase⟩ := recordedBase base rfl
        obtain ⟨baseDir, readBase⟩ := recordedBase.stored nonemptyBase
        obtain ⟨uniqueBase, entriesBase⟩ := recordedBase.entries
        rw [entriesOf_of_read readBase] at uniqueBase entriesBase
        simp only [Option.bind_some, readBase, readNew, Option.isSome_some, Option.isNone_some,
          Bool.and_false, Bool.or_self, Bool.false_eq_true, if_false, diffDirs,
          Except.ok.injEq] at run
        subst run
        have compared : DiffExact store held
            (.join (newDir.dirents.map (compareEntry baseDir path))) _ :=
          diffExact_join fun entry listed =>
            compareEntry_exact path uniqueBase entriesBase (entriesNew entry listed)
        have deleted : DiffExact store held
            (.join ((unmatched baseDir newDir).map (deletedEntry path))) _ :=
          diffExact_join fun entry listed =>
            deletedEntry_exact path (entriesBase entry (List.mem_of_mem_filter listed))
        refine (compared.append deleted).congr fun text => ?_
        rw [FrameReports]
        dsimp only
        rw [show pairEntries store (some new) = newDir.dirents from entriesOf_of_read readNew,
          show pairEntries store (some base) = baseDir.dirents from entriesOf_of_read readBase,
          reports_iff uniqueNew]
        simp

theorem diffFrames_exact : ∀ {frontier : List (DiffFrame Oid)} {diff : FrameDiff Oid},
    (∀ frame ∈ frontier, RecordedFrame store frame) → diffFrames store frontier = .ok diff →
    DiffExact store held diff fun text => ∃ frame ∈ frontier,
      FrameReports store held frame text := by
  intro frontier
  induction frontier with
  | nil =>
    intro diff _ run
    cases run
    exact diffExact_empty.congr fun text => by simp
  | cons frame rest ih =>
    intro diff recorded run
    simp only [diffFrames] at run
    cases here : diffFrame store frame with
    | error failure => simp [here] at run
    | ok first =>
      cases there : diffFrames store rest with
      | error failure => simp [here, there] at run
      | ok others =>
        simp only [here, there, Except.ok.injEq] at run
        subst run
        have both := (diffFrame_exact (recorded frame List.mem_cons_self) here).append
          (ih (fun other listed => recorded other (List.mem_cons_of_mem _ listed)) there)
        exact both.congr fun text => by simp

theorem checkPending_exact : ∀ {pending : List (Oid × String)} {missing : List String},
    checkPending store held pending = .ok missing → ∀ text, text ∈ missing ↔
      ∃ file ∈ pending, LacksBlock store held file.1 ∧ text = file.2 := by
  intro pending
  induction pending with
  | nil =>
    intro missing run text
    cases run
    simp
  | cons file rest ih =>
    obtain ⟨fsId, path⟩ := file
    intro missing run text
    simp only [checkPending] at run
    cases read : fileBatch store fsId with
    | none =>
      have nonempty : fsId ≠ emptySha1 := by
        intro same
        simp [fileBatch, same] at read
      simp [read, nonempty] at run
    | some data =>
      cases walked : checkPending store held rest with
      | error failure => simp [read, walked] at run
      | ok others =>
        simp only [read, walked, Except.ok.injEq] at run
        subst run
        rw [List.exists_mem_cons_iff, ← ih walked text]
        simp only [LacksBlock, read, Option.some.injEq, exists_eq_left']
        cases isMissing : hasMissing held data with
        | true | false => simp

end Nanofile
