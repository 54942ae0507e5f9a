import Mathlib.Data.List.TakeWhile
import Nanofile.Fs.MergeNames

/-!
# The names a merge makes up

A conflict name is a legal file name when the modifier put into it has no character that file
names may not have, and when the name with the mark fits.  Its first segment never becomes that
of a reserved name.
-/

set_option autoImplicit false

namespace Nanofile

open Nanofile.Lib

/-- Checked character by character: characters are finitely many, but too many to try. -/
theorem forall_mem_of_all {p : Char → Prop} [DecidablePred p] {chars : List Char}
    (all : (chars.all fun char => decide (p char)) = true) : ∀ char ∈ chars, p char := by
  simpa using all

theorem isWindowsReservedName_of_paren {name : String}
    (paren : '(' ∈ name.toList.takeWhile fun char => char ≠ '.') :
    isWindowsReservedName name = false := by
  unfold isWindowsReservedName
  rw [Text.split_head]
  dsimp only [Option.getD_some]
  rw [String.toList_ofList]
  generalize name.toList.takeWhile (fun char => char ≠ '.') = base at paren
  have kept : '(' ∈ (base.reverse.dropWhile fun char => char = ' ' ∨ char = '.').reverse := by
    have cut := List.takeWhile_append_dropWhile (p := fun char => char = ' ' ∨ char = '.')
      (l := base.reverse)
    have member : '(' ∈ base.reverse := List.mem_reverse.mpr paren
    rw [← cut, List.mem_append] at member
    rcases member with skipped | kept
    · exact absurd (List.mem_takeWhile_imp skipped) (by decide)
    · exact List.mem_reverse.mpr kept
  have raised : '(' ∈ ((base.reverse.dropWhile fun char => char = ' ' ∨ char = '.').reverse).map
      Char.toUpper := List.mem_map.mpr ⟨'(', kept, by decide⟩
  have noParen : ∀ reserved ∈ windowsReservedNames, '(' ∉ reserved.toList := by decide
  rw [List.contains_eq_mem, decide_eq_false_iff_not]
  intro reserved
  refine noParen _ reserved ?_
  rw [String.toList_ofList]
  exact raised

theorem isWindowsReservedName_congr {name other : String}
    (same : (name.toList.takeWhile fun char => char ≠ '.') =
      other.toList.takeWhile fun char => char ≠ '.') :
    isWindowsReservedName name = isWindowsReservedName other := by
  unfold isWindowsReservedName
  rw [Text.split_head, Text.split_head, same]
  rfl

theorem conflictMark_toList (modifier : Option String) (timestamp : String) :
    ∃ rest, (conflictMark modifier timestamp).toList = " (SFConflict ".toList ++ rest := by
  cases modifier with
  | none =>
    exact ⟨timestamp.toList ++ ")".toList, by
      rw [conflictMark_none, String.toList_append, String.toList_append, List.append_assoc]⟩
  | some modifier =>
    exact ⟨modifier.toList ++ " ".toList ++ timestamp.toList ++ ")".toList, by
      simp only [conflictMark_some, String.toList_append, List.append_assoc]⟩

theorem isWindowsReservedName_conflictPath {name : String} (modifier : Option String)
    (timestamp : String) (free : isWindowsReservedName name = false) :
    isWindowsReservedName (conflictPath name modifier timestamp) = false := by
  obtain ⟨stem, extension, isName, isConflict, -⟩ := conflictPath_split name modifier timestamp
  obtain ⟨rest, isMark⟩ := conflictMark_toList modifier timestamp
  by_cases dotted : ∃ char ∈ stem.toList, char = '.'
  · obtain ⟨char, listed, rfl⟩ := dotted
    rw [← free]
    refine isWindowsReservedName_congr ?_
    have within : ∀ tail : List Char, ((stem.toList ++ tail).takeWhile fun char => char ≠ '.') =
        stem.toList.takeWhile fun char => char ≠ '.' := by
      intro tail
      refine List.takeWhile_append.trans (if_neg fun whole => ?_)
      have isStem := (List.takeWhile_prefix fun char => decide (char ≠ '.')).eq_of_length whole
      rw [← isStem] at listed
      exact absurd (List.mem_takeWhile_imp listed) (by decide)
    rw [isConflict, isName, String.toList_append, String.toList_append, String.toList_append,
      List.append_assoc, within, within]
  · refine isWindowsReservedName_of_paren ?_
    rw [isConflict, String.toList_append, String.toList_append, isMark, List.append_assoc,
      List.append_assoc]
    rw [List.takeWhile_append_of_pos (fun char listed => by
      have differs : char ≠ '.' := fun same => dotted ⟨char, listed, same⟩
      simpa using differs)]
    refine List.mem_append_right _ ?_
    rw [List.takeWhile_append_of_pos (forall_mem_of_all (by decide))]
    exact List.mem_append_left _ (by decide)

/-- The modifier has no character that file names may not have, and the name fits with the mark
in it. -/
def LegalMark (name : String) (modifier : Option String) (timestamp : String) : Prop :=
  (∀ nickname, modifier = some nickname →
    ∀ char ∈ nickname.toList, char ∉ invalidFilenameChars ∧ char ≠ '/') ∧
  name.utf8ByteSize + (conflictMark modifier timestamp).utf8ByteSize ≤ maxFilenameLen

def PlainTimestamps (formatLocalTimestamp : Int → String) : Prop :=
  ∀ seconds, ∀ char ∈ (formatLocalTimestamp seconds).toList,
    char.isDigit = true ∨ char = '-' ∨ char = '+'

theorem not_invalid_of_timestamp {char : Char}
    (plain : char.isDigit = true ∨ char = '-' ∨ char = '+') :
    char ∉ invalidFilenameChars ∧ char ≠ '/' := by
  constructor
  · intro invalid
    have every : ∀ char ∈ invalidFilenameChars,
        ¬ (char.isDigit = true ∨ char = '-' ∨ char = '+') :=
      forall_mem_of_all (by decide)
    exact every char invalid plain
  · rintro rfl
    exact absurd plain (by decide)

theorem conflictMark_plain_iff {modifier : Option String} {timestamp : String}
    (plain : ∀ char ∈ timestamp.toList, char ∉ invalidFilenameChars ∧ char ≠ '/') :
    (∀ char ∈ (conflictMark modifier timestamp).toList,
      char ∉ invalidFilenameChars ∧ char ≠ '/') ↔
      ∀ nickname, modifier = some nickname →
        ∀ char ∈ nickname.toList, char ∉ invalidFilenameChars ∧ char ≠ '/' := by
  have opening : ∀ char ∈ " (SFConflict ".toList,
      char ∉ invalidFilenameChars ∧ char ≠ '/' := forall_mem_of_all (by decide)
  have blank : ∀ char ∈ " ".toList, char ∉ invalidFilenameChars ∧ char ≠ '/' :=
    forall_mem_of_all (by decide)
  have closing : ∀ char ∈ ")".toList, char ∉ invalidFilenameChars ∧ char ≠ '/' :=
    forall_mem_of_all (by decide)
  cases modifier with
  | none =>
    refine iff_of_true ?_ nofun
    simp only [conflictMark_none, String.toList_append, List.forall_mem_append]
    exact ⟨⟨opening, plain⟩, closing⟩
  | some nickname =>
    simp only [conflictMark_some, String.toList_append, List.forall_mem_append]
    constructor
    · rintro ⟨⟨⟨⟨-, legal⟩, -⟩, -⟩, -⟩ nickname' same
      obtain rfl := Option.some.inj same
      exact legal
    · intro legal
      exact ⟨⟨⟨⟨opening, legal nickname rfl⟩, blank⟩, plain⟩, closing⟩

theorem validateFilename_conflictPath_iff {name : String} {modifier : Option String}
    {timestamp : String} (valid : validateFilename name = .ok ())
    (plain : ∀ char ∈ timestamp.toList, char ∉ invalidFilenameChars ∧ char ≠ '/') :
    validateFilename (conflictPath name modifier timestamp) = .ok () ↔
      LegalMark name modifier timestamp := by
  obtain ⟨-, -, legalName, free⟩ := validateFilename_iff.mp valid
  obtain ⟨stem, extension, isName, isConflict, -⟩ := conflictPath_split name modifier timestamp
  obtain ⟨rest, isMark⟩ := conflictMark_toList modifier timestamp
  have reserved := isWindowsReservedName_conflictPath modifier timestamp free
  have long : 3 ≤ (conflictPath name modifier timestamp).toList.length := by
    simp only [isConflict, String.toList_append, isMark, List.length_append]
    have opening : " (SFConflict ".toList.length = 13 := by decide
    omega
  have notDots : conflictPath name modifier timestamp ≠ "" ∧
      conflictPath name modifier timestamp ≠ "." ∧
      conflictPath name modifier timestamp ≠ ".." := by
    refine ⟨fun same => ?_, fun same => ?_, fun same => ?_⟩ <;>
      exact absurd (same ▸ long) (by decide)
  have size : (conflictPath name modifier timestamp).utf8ByteSize =
      name.utf8ByteSize + (conflictMark modifier timestamp).utf8ByteSize := by
    rw [isConflict, isName]
    simp only [String.utf8ByteSize_append]
    omega
  have chars : (∀ char ∈ (conflictPath name modifier timestamp).toList,
      char ∉ invalidFilenameChars ∧ char ≠ '/') ↔
      ∀ char ∈ (conflictMark modifier timestamp).toList,
        char ∉ invalidFilenameChars ∧ char ≠ '/' := by
    rw [isName, String.toList_append, List.forall_mem_append] at legalName
    rw [isConflict, String.toList_append, String.toList_append, List.forall_mem_append,
      List.forall_mem_append]
    constructor
    · rintro ⟨⟨-, mark⟩, -⟩
      exact mark
    · intro mark
      exact ⟨⟨legalName.1, mark⟩, legalName.2⟩
  rw [validateFilename_iff, chars, conflictMark_plain_iff plain, size, LegalMark]
  constructor
  · rintro ⟨-, fits, legal, -⟩
    exact ⟨legal, fits⟩
  · rintro ⟨legal, fits⟩
    exact ⟨notDots, fits, legal, reserved⟩

variable {Oid : Type}

def AllLegal (entries : List (DirEntryData Oid)) : Prop :=
  ∀ entry ∈ entries, validateFilename entry.name = .ok ()

theorem allLegal_iff {entries : List (DirEntryData Oid)} :
    AllLegal entries ↔ ∀ name ∈ entries.map DirEntryData.name, validateFilename name = .ok () := by
  rw [List.forall_mem_map]
  rfl

theorem allLegal_stored (entries : List (DirEntryData Oid)) :
    AllLegal (stored entries) ↔ AllLegal entries := by
  rw [allLegal_iff, allLegal_iff]
  constructor
  · intro legal name listed
    exact legal name ((names_stored entries).mem_iff.mpr listed)
  · intro legal name listed
    exact legal name ((names_stored entries).mem_iff.mp listed)

variable [DecidableEq Oid] [Digests Oid] {store after : FsStore Oid}

structure LegalLevel (store : FsStore Oid) (level : TreeLevel Oid) : Prop where
  base : ∀ lower, Below store level.base lower → AllLegal lower
  head : ∀ lower, Below store level.head lower → AllLegal lower
  remote : ∀ lower, Below store level.remote lower → AllLegal lower

variable {level : TreeLevel Oid}

theorem LegalLevel.name (legal : LegalLevel store level) {name : String}
    (listed : name ∈ level.names) : validateFilename name = .ok () := by
  obtain ⟨entry, member, rfl⟩ := List.mem_map.mp (mem_groupNames_iff.mp listed)
  rw [List.mem_append, List.mem_append] at member
  rcases member with (inBase | inHead) | inRemote
  · exact legal.base _ .root entry inBase
  · exact legal.head _ .root entry inHead
  · exact legal.remote _ .root entry inRemote

variable [ToString Oid] {env : MergeEnv Oid}

theorem Visits.legal {root : TreeLevel Oid} (visits : Visits env store root level)
    (legal : LegalLevel store root) : LegalLevel store level := by
  have empty : AllLegal ([] : List (DirEntryData Oid)) := nofun
  induction visits with
  | root => exact legal
  | down above listed recurses draws ih =>
    exact ⟨holds_below_childEntries empty ih.base, holds_below_childEntries empty ih.head,
      holds_below_childEntries empty ih.remote⟩

/-- Every mark that can be drawn at a level gives a legal name. -/
def ConflictNamesLegal (env : MergeEnv Oid) (store : FsStore Oid) (level : TreeLevel Oid) : Prop :=
  ∀ name ∈ level.names, fileConflicts (level.slots name) = true →
    ∀ modifier timestamp,
      DrawsMark env store level.basedir (level.slots name) modifier timestamp →
      LegalMark name modifier timestamp

theorem DrawsName.legal_iff {name newName : String}
    (plain : PlainTimestamps env.formatLocalTimestamp) (ok : LevelOk level)
    (valid : validateFilename name = .ok ()) (member : name ∈ level.names)
    (conflicts : fileConflicts (level.slots name) = true)
    (draws : DrawsName env store level.basedir (level.slots name) newName) :
    ∃ modifier timestamp, DrawsMark env store level.basedir (level.slots name) modifier timestamp ∧
      (validateFilename newName = .ok () ↔ LegalMark name modifier timestamp) := by
  obtain ⟨remote, present, -⟩ := renamed_present (ok name member) conflicts
  obtain ⟨modifier, timestamp, mark, rfl⟩ := draws conflicts remote present
  have isName : remote.name = name := (slotAt_eq_some present).2
  obtain ⟨seconds, isTime⟩ := mark.seconds
  refine ⟨modifier, timestamp, mark, ?_⟩
  rw [isName]
  refine validateFilename_conflictPath_iff valid fun char listed => ?_
  exact not_invalid_of_timestamp (plain seconds char (isTime ▸ listed))

omit [ToString Oid] in
theorem emitted_legal_iff {runs : String → GroupRun Oid} (ok : LevelOk level)
    (legal : LegalLevel store level) :
    AllLegal (level.names.flatMap fun name => groupEmits (level.slots name) (runs name)) ↔
      ∀ name ∈ level.names, fileConflicts (level.slots name) = true →
        validateFilename (runs name).newName = .ok () := by
  have names := @level_names _ _ _ runs ok
  rw [allLegal_iff]
  constructor
  · intro every name member conflicts
    refine every _ (names.mem_iff.mpr (List.mem_flatMap.mpr ⟨name, member, ?_⟩))
    exact mem_emittedNames.mpr (Or.inr ⟨conflicts, rfl⟩)
  · intro drawn other listed
    obtain ⟨name, member, emitted⟩ := List.mem_flatMap.mp (names.mem_iff.mp listed)
    rcases mem_emittedNames.mp emitted with ⟨-, rfl⟩ | ⟨conflicts, rfl⟩
    · exact legal.name member
    · exact drawn name member conflicts

/-- A merge of trees with legal names stores legal names when every mark that can be drawn at a
visited level is legal, and while the clock stands still only then. -/
theorem mergeTrees_legal_iff {baseRoot headRoot : Oid} {outcome : MergeOutcome Oid}
    (plain : PlainTimestamps env.formatLocalTimestamp) (genuine : Genuine store)
    (formed : FormedLevel store (mergeRoot env store baseRoot headRoot))
    (legal : LegalLevel store (mergeRoot env store baseRoot headRoot))
    (run : mergeTrees env baseRoot headRoot store = (.ok outcome, after)) :
    ((∀ level, Visits env store (mergeRoot env store baseRoot headRoot) level →
      ConflictNamesLegal env store level) → EveryDir AllLegal store after outcome.mergedRoot) ∧
    (StandsStill env → EveryDir AllLegal store after outcome.mergedRoot →
      ∀ level, Visits env store (mergeRoot env store baseRoot headRoot) level →
        ConflictNamesLegal env store level) := by
  obtain ⟨holds, needs⟩ := mergeTrees_everyDir genuine formed run allLegal_stored nofun
    legal.head legal.remote
  constructor
  · intro marks
    refine holds fun level visits entries emitted => ?_
    obtain ⟨runs, draws, rfl⟩ := emitted
    have ok := (visits.formed formed).levelOk
    refine (emitted_legal_iff ok (visits.legal legal)).mpr fun name member conflicts => ?_
    obtain ⟨modifier, timestamp, mark, same⟩ := (draws name member).legal_iff plain ok
      ((visits.legal legal).name member) member conflicts
    exact same.mpr (marks level visits name member conflicts modifier timestamp mark)
  · intro still every level visits name member conflicts modifier timestamp mark
    obtain ⟨entries, ⟨runs, draws, rfl⟩, emitted⟩ := needs still every level visits
    have ok := (visits.formed formed).levelOk
    obtain ⟨modifier', timestamp', mark', same⟩ := (draws name member).legal_iff plain ok
      ((visits.legal legal).name member) member conflicts
    -- The mark that was drawn is the one that can be drawn.
    obtain ⟨rfl, rfl⟩ := mark.unique still mark'
    exact same.mp ((emitted_legal_iff ok (visits.legal legal)).mp emitted name member conflicts)

def slashRemote : FsDirData FreeId :=
  directory [{ fileEntry "a.txt" (.atom 4) 1 with modifier := "x/y" }]

def slashStore : FsStore FreeId :=
  ⟨[sameUploadBase, sameUploadHead, slashRemote].map fun data =>
    (Digests.dirId data, .dir data.written)⟩

def slashEnv : MergeEnv FreeId := { sameUploadEnv with remoteRoot := Digests.dirId slashRemote }

theorem below_of_files {store : FsStore FreeId} {entries lower : List (DirEntryData FreeId)}
    (files : entries.all fun entry => !isDir entry.mode) (below : Below store entries lower) :
    lower = entries := by
  rcases below.cases_head with same | ⟨entry, listed, directory, -⟩
  · exact same
  · have regular := List.all_eq_true.mp files entry listed
    rw [directory] at regular
    cases regular

theorem allLegal_below_of_check {store : FsStore FreeId} {entries : List (DirEntryData FreeId)}
    (files : entries.all fun entry => !isDir entry.mode)
    (legal : entries.all fun entry => (validateFilename entry.name).isOk) :
    ∀ lower, Below store entries lower → AllLegal lower := by
  intro lower below entry listed
  rw [below_of_files files below] at listed
  have isLegal := List.all_eq_true.mp legal entry listed
  cases checked : validateFilename entry.name with
  | error failure => simp [checked, Except.isOk, Except.toBool] at isLegal
  | ok _ => rfl

theorem sameUpload_timestamps : PlainTimestamps sameUploadEnv.formatLocalTimestamp := by
  intro _
  show ∀ char ∈ "1970-01-01-00-00-00".toList, _
  exact forall_mem_of_all (by decide)

theorem legalMark_user : LegalMark "a.txt" none "1970-01-01-00-00-00" ∧
    LegalMark "a.txt" (some "user") "1970-01-01-00-00-00" := by
  refine ⟨⟨nofun, by decide⟩, ⟨fun nickname same => ?_, by decide⟩⟩
  obtain rfl := Option.some.inj same
  exact forall_mem_of_all (by decide)

theorem legal_conflict_copy : ∃ outcome after,
    mergeTrees sameUploadEnv (Digests.dirId sameUploadBase) (Digests.dirId sameUploadHead)
      sameUploadStore = (.ok outcome, after) ∧
    EveryDir AllLegal sameUploadStore after outcome.mergedRoot := by
  obtain ⟨outcome, run⟩ := Proc.exists_ok (mergeTrees sameUploadEnv
    (Digests.dirId sameUploadBase) (Digests.dirId sameUploadHead) sameUploadStore) (by decide +kernel)
  refine ⟨outcome, _, run, (mergeTrees_legal_iff sameUpload_timestamps
    (genuine_of_rows (by decide)) sameUpload_formed
    ⟨allLegal_below_of_check (by decide) (by decide),
      allLegal_below_of_check (by decide) (by decide),
      allLegal_below_of_check (by decide) (by decide)⟩ run).1 fun level visits => ?_⟩
  obtain rfl := sameUpload_visits visits
  intro name member conflicts modifier timestamp mark
  rw [sameUpload_names, List.mem_singleton] at member
  subst member
  cases mark with
  | modifier chosen present found =>
    cases present
    have read : remoteModifierMtime sameUploadStore sameUploadEnv.remoteRoot "a.txt" =
        .ok (some ("user", 0)) := by decide
    cases read.symm.trans found
    exact legalMark_user.2
  | nobody chosen present found => exact legalMark_user.1
  | author reading chosen present found => exact legalMark_user.2
  | directory reading chosen => exact legalMark_user.2

/-- The modifier of the remote entry has a slash, and so has the name that is stored. -/
theorem conflict_copy_with_slash :
    Genuine slashStore ∧ FormedLevel slashStore (mergeRoot slashEnv slashStore
      (Digests.dirId sameUploadBase) (Digests.dirId sameUploadHead)) ∧
    LegalLevel slashStore (mergeRoot slashEnv slashStore
      (Digests.dirId sameUploadBase) (Digests.dirId sameUploadHead)) ∧
    ∃ outcome after, mergeTrees slashEnv (Digests.dirId sameUploadBase)
      (Digests.dirId sameUploadHead) slashStore = (.ok outcome, after) ∧
    ¬ EveryDir AllLegal slashStore after outcome.mergedRoot := by
  refine ⟨genuine_of_rows (by decide), ⟨wellFormed_of_check 1 (by decide),
      wellFormed_of_check 1 (by decide), wellFormed_of_check 1 (by decide)⟩,
    ⟨allLegal_below_of_check (by decide) (by decide),
      allLegal_below_of_check (by decide) (by decide),
      allLegal_below_of_check (by decide) (by decide)⟩, ?_⟩
  obtain ⟨outcome, run⟩ := Proc.exists_ok (mergeTrees slashEnv
    (Digests.dirId sameUploadBase) (Digests.dirId sameUploadHead) slashStore) (by decide +kernel)
  have seen : (mergeTrees slashEnv (Digests.dirId sameUploadBase) (Digests.dirId sameUploadHead)
      slashStore).1.toOption.all (fun outcome =>
        (entriesOf (mergeTrees slashEnv (Digests.dirId sameUploadBase) (Digests.dirId sameUploadHead)
          slashStore).2 outcome.mergedRoot).any fun entry =>
            !(validateFilename entry.name).isOk) = true := by
    decide +kernel
  rw [run] at seen
  refine ⟨outcome, _, run, fun ⟨_, legal⟩ => ?_⟩
  obtain ⟨entry, listed, illegal⟩ : ∃ entry ∈ entriesOf (mergeTrees slashEnv
      (Digests.dirId sameUploadBase) (Digests.dirId sameUploadHead) slashStore).2
      outcome.mergedRoot, (validateFilename entry.name).isOk = false := by
    simpa [Except.toOption] using seen
  rw [legal _ .root entry listed] at illegal
  cases illegal

end Nanofile
