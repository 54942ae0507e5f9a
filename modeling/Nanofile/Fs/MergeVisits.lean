import Nanofile.Fs.MergeComplete
import Nanofile.Fs.MergeKeeps
import Nanofile.Fs.PathWalk

/-!
# The levels a merge visits

Which levels a merge recurses into is told from the three trees alone, and so are the names
it gives to conflicting entries, but for the seconds of the clock.  Every directory that a
merge stores is that of a visited level; when the clock stands still every visited level is
also stored, and it is below the merged root.
-/

set_option autoImplicit false

namespace Nanofile

open Nanofile.Lib

variable {Oid : Type} [DecidableEq Oid] [Digests Oid] [ToString Oid]

/-- The levels that are reached from the roots of the trees. -/
inductive Visits (env : MergeEnv Oid) (store : FsStore Oid) (root : TreeLevel Oid) :
    TreeLevel Oid → Prop
  | root : Visits env store root root
  | down {level : TreeLevel Oid} {name newName : String} (above : Visits env store root level)
      (listed : name ∈ level.names) (recurses : Recurses (level.slots name))
      (draws : DrawsName env store level.basedir (level.slots name) newName) :
      Visits env store root (childLevel store level.basedir (level.slots name) newName)

def mergeRoot (env : MergeEnv Oid) (store : FsStore Oid) (baseRoot headRoot : Oid) :
    TreeLevel Oid :=
  ⟨"", entriesOf store baseRoot, entriesOf store headRoot, entriesOf store env.remoteRoot⟩

structure FormedLevel (store : FsStore Oid) (level : TreeLevel Oid) : Prop where
  base : WellFormed store level.base
  head : WellFormed store level.head
  remote : WellFormed store level.remote

section Down

variable {store after : FsStore Oid} {entries : List (DirEntryData Oid)}

omit [ToString Oid] in
theorem Below.of_extends (grown : Table.Extends store after) (formed : WellFormed store entries)
    {level : List (DirEntryData Oid)} (below : Below after entries level) :
    Below store entries level := by
  induction below with
  | root => exact .root
  | child above listed directory ih =>
    rw [((formed _ ih).2 _ listed).entriesOf_extends directory grown]
    exact .child ih listed directory

variable {level : TreeLevel Oid}

omit [ToString Oid] in
theorem FormedLevel.child (formed : FormedLevel store level) (name newName : String) :
    FormedLevel store (childLevel store level.basedir (level.slots name) newName) where
  base := wellFormed_childEntries formed.base name
  head := wellFormed_childEntries formed.head name
  remote := wellFormed_childEntries formed.remote name

omit [ToString Oid] in
theorem FormedLevel.childLevel_extends (formed : FormedLevel store level)
    (grown : Table.Extends store after) (name newName : String) :
    childLevel after level.basedir (level.slots name) newName =
      childLevel store level.basedir (level.slots name) newName := by
  have base := childEntries_extends formed.base grown name
  have head := childEntries_extends formed.head grown name
  have remote := childEntries_extends formed.remote grown name
  unfold childLevel TreeLevel.slots slotsAt
  dsimp only
  rw [base, head, remote]

theorem Visits.formed {env : MergeEnv Oid} {root : TreeLevel Oid}
    (visits : Visits env store root level) (formed : FormedLevel store root) :
    FormedLevel store level := by
  induction visits with
  | root => exact formed
  | down above listed recurses draws ih => exact ih.child _ _

end Down

section Modifier

variable {store after : FsStore Oid} {entries : List (DirEntryData Oid)}

theorem StandsFor.read_extends {fsId : Oid} (stands : StandsFor store fsId entries)
    (grown : Table.Extends store after) : readFsDirData after fsId = readFsDirData store fsId := by
  unfold readFsDirData
  rcases stands with ⟨isEmpty, -⟩ | ⟨data, read, -⟩
  · rw [if_pos isEmpty, if_pos isEmpty]
  · unfold dirBatch at read
    split at read
    · simp at read
    · split at read
      · rename_i listed found
        rw [found, grown fsId _ found]
      · simp at read

theorem walkSegments_extends (grown : Table.Extends store after) :
    ∀ {parts : List String} {dirId : Oid} {entries : List (DirEntryData Oid)},
      StandsFor store dirId entries → WellFormed store entries →
      walkSegments after parts dirId = walkSegments store parts dirId ∧
        ∀ reached, walkSegments store parts dirId = .ok reached →
          ∃ below, StandsFor store reached below := by
  intro parts
  induction parts with
  | nil =>
    intro dirId entries stands formed
    refine ⟨rfl, fun reached isReached => ?_⟩
    obtain rfl := Except.ok.inj isReached
    exact ⟨entries, stands⟩
  | cons segment rest ih =>
    intro dirId entries stands formed
    have same := stands.read_extends grown
    obtain ⟨data, read, rfl⟩ := stands.read
    unfold walkSegments
    rw [same, read]
    dsimp only
    cases found : data.dirents.find? fun entry => entry.name = segment ∧ isDir entry.mode with
    | none =>
      refine ⟨rfl, fun reached isReached => ?_⟩
      cases isReached
    | some entry =>
      have listed := List.mem_of_find?_eq_some found
      have directory : isDir entry.mode = true := by
        have holds := List.find?_some found
        simp only [decide_eq_true_eq] at holds
        exact holds.2
      rcases formed.entryOk listed with ⟨regular, -⟩ | ⟨-, below, standsBelow⟩
      · rw [not_isDir_of_isRegular regular] at directory
        cases directory
      · have formedBelow := formed.child listed directory
        rw [standsBelow.entries] at formedBelow
        exact ih standsBelow formedBelow

theorem remoteModifierMtime_extends (grown : Table.Extends store after) {root : Oid}
    (stands : StandsFor store root entries) (formed : WellFormed store entries) (path : String) :
    remoteModifierMtime after root path = remoteModifierMtime store root path := by
  unfold remoteModifierMtime
  dsimp only
  obtain ⟨same, reaches⟩ := @walkSegments_extends _ _ _ _ _ _ grown
    ((Text.split '/' path).dropLast.filter fun part => part ≠ "") root entries stands formed
  rw [same]
  cases walked : walkSegments store ((Text.split '/' path).dropLast.filter fun part => part ≠ "")
      root with
  | error failure => rfl
  | ok reached =>
    obtain ⟨below, standsBelow⟩ := reaches reached walked
    dsimp only
    rw [standsBelow.read_extends grown]

variable {env : MergeEnv Oid} {basedir newName : String} {slots : Slots Oid}

theorem drawsName_of_extends (grown : Table.Extends store after)
    (stands : StandsFor store env.remoteRoot entries) (formed : WellFormed store entries)
    (draws : DrawsName env after basedir slots newName) :
    DrawsName env store basedir slots newName := by
  intro conflicts remote present
  obtain ⟨modifier, timestamp, mark, isName⟩ := draws conflicts remote present
  refine ⟨modifier, timestamp, ?_, isName⟩
  have same := fun path => remoteModifierMtime_extends grown stands formed path
  cases mark with
  | modifier chosen isRemote found => exact .modifier chosen isRemote (same _ ▸ found)
  | nobody chosen isRemote found => exact .nobody chosen isRemote (same _ ▸ found)
  | author reading chosen isRemote found => exact .author reading chosen isRemote (same _ ▸ found)
  | directory reading chosen => exact .directory reading chosen

end Modifier

def StandsStill (env : MergeEnv Oid) : Prop := ∀ first second, env.clock first = env.clock second

section Still

variable {env : MergeEnv Oid} {store : FsStore Oid} {basedir : String} {slots : Slots Oid}

theorem DrawsMark.unique (still : StandsStill env) {modifier modifier' : Option String}
    {timestamp timestamp' : String} (mark : DrawsMark env store basedir slots modifier timestamp)
    (mark' : DrawsMark env store basedir slots modifier' timestamp') :
    modifier = modifier' ∧ timestamp = timestamp' := by
  cases mark with
  | modifier chosen present found =>
    cases mark' with
    | modifier chosen' present' found' =>
      obtain rfl := Option.some.inj (present.symm.trans present')
      cases found.symm.trans found'
      exact ⟨rfl, rfl⟩
    | nobody chosen' present' found' | author reading chosen' present' found' =>
      obtain rfl := Option.some.inj (present.symm.trans present')
      cases found.symm.trans found'
    | directory reading chosen' => cases chosen.symm.trans chosen'
  | nobody chosen present found =>
    cases mark' with
    | modifier chosen' present' found' | author reading chosen' present' found' =>
      obtain rfl := Option.some.inj (present.symm.trans present')
      cases found.symm.trans found'
    | nobody chosen' present' found' => exact ⟨rfl, rfl⟩
    | directory reading chosen' => cases chosen.symm.trans chosen'
  | author reading chosen present found =>
    cases mark' with
    | modifier chosen' present' found' | nobody chosen' present' found' =>
      obtain rfl := Option.some.inj (present.symm.trans present')
      cases found.symm.trans found'
    | author reading' chosen' present' found' => exact ⟨rfl, by rw [still reading reading']⟩
    | directory reading' chosen' => cases chosen.symm.trans chosen'
  | directory reading chosen =>
    cases mark' with
    | modifier chosen' present' found' | nobody chosen' present' found'
    | author reading' chosen' present' found' => cases chosen.symm.trans chosen'
    | directory reading' chosen' => exact ⟨rfl, by rw [still reading reading']⟩

theorem DrawsName.unique (still : StandsStill env) {newName newName' : String}
    {remote : DirEntryData Oid} (conflicts : fileConflicts slots = true)
    (present : slots.remote = some remote) (draws : DrawsName env store basedir slots newName)
    (draws' : DrawsName env store basedir slots newName') : newName = newName' := by
  obtain ⟨modifier, timestamp, mark, rfl⟩ := draws conflicts remote present
  obtain ⟨modifier', timestamp', mark', rfl⟩ := draws' conflicts remote present
  obtain ⟨rfl, rfl⟩ := mark.unique still mark'
  rfl

theorem DrawsName.slotsAfterFile_eq (still : StandsStill env) {newName newName' : String}
    (draws : DrawsName env store basedir slots newName)
    (draws' : DrawsName env store basedir slots newName') :
    slotsAfterFile slots newName = slotsAfterFile slots newName' := by
  cases chosen : chooseFile slots with
  | renameRemoteDir head =>
    cases present : slots.remote with
    | none => simp [slotsAfterFile, chosen, present]
    | some remote =>
      rw [draws.unique still (by simp [fileConflicts, chosen]) present draws']
  | drop | emit entry | renameRemote keep => simp [slotsAfterFile, chosen]

end Still

/-- The entries of a level, under names that can be drawn. -/
def EmittedAt (env : MergeEnv Oid) (store : FsStore Oid) (level : TreeLevel Oid)
    (entries : List (DirEntryData Oid)) : Prop :=
  ∃ runs : String → GroupRun Oid,
    (∀ name ∈ level.names, DrawsName env store level.basedir (level.slots name)
      (runs name).newName) ∧
    entries = level.names.flatMap fun name => groupEmits (level.slots name) (runs name)

section Levels

variable {env : MergeEnv Oid} {store after : FsStore Oid} {root : TreeLevel Oid}
  {merged : List (DirEntryData Oid)} {clash : Bool} {levels : List (List (DirEntryData Oid))}
    {level : TreeLevel Oid}

theorem MergedBy.visited (grown : Table.Extends store after)
    (mergedBy : MergedBy (DrawsName env store) env after level merged clash levels) :
    FormedLevel store level → Visits env store root level →
    ∀ entries ∈ levels, ∃ visited, Visits env store root visited ∧
      EmittedAt env store visited entries := by
  induction mergedBy with
  | @level level runs levels named drawn stands deeper ih =>
    intro formed visits entries listed
    rcases List.mem_cons.mp listed with rfl | below
    · exact ⟨level, visits, runs, drawn, rfl⟩
    · obtain ⟨name, member, inside⟩ := List.mem_flatMap.mp below
      split at inside
      · rename_i recurses
        have child := ih name member recurses
        rw [formed.childLevel_extends grown] at child
        exact child (formed.child _ _)
          (.down visits member recurses (drawn name member)) entries inside
      · exact absurd inside List.not_mem_nil

omit [Digests Oid] [ToString Oid] in
theorem mem_groupEmits_child {slots : Slots Oid} (recurses : Recurses slots)
    (run : GroupRun Oid) : ∃ entry ∈ groupEmits slots run, isDir entry.mode = true ∧
      entry.id = run.child := by
  obtain ⟨slot, chosen⟩ := recurses
  have after := (chooseDir_slotsAfterFile slots run.newName).trans chosen
  obtain ⟨entry, present, directory⟩ := chooseDir_present (Or.inr after)
  refine ⟨withId run.child entry, List.mem_append_right _ ?_, directory, rfl⟩
  simp [dirEmits, after, present]

theorem MergedBy.visits (still : StandsStill env) (grown : Table.Extends store after)
    (mergedBy : MergedBy (DrawsName env store) env after root merged clash levels)
    (formed : FormedLevel store root) (visits : Visits env store root level) :
    ∃ entries clash' levels',
      MergedBy (DrawsName env store) env after level entries clash' levels' ∧
      Below after (stored merged) (stored entries) := by
  induction visits with
  | root => exact ⟨merged, clash, levels, mergedBy, .root⟩
  | @down level name newName above listed recurses draws ih =>
    obtain ⟨entries, clash', levels', mergedHere, below⟩ := ih
    cases mergedHere with
    | level runs levels named drawn stands deeper =>
      have sameLevel : childLevel after level.basedir (level.slots name) (runs name).newName =
          childLevel store level.basedir (level.slots name) newName := by
        rw [(above.formed formed).childLevel_extends grown, childLevel, childLevel,
          (drawn name listed).slotsAfterFile_eq still draws]
      obtain ⟨entry, emitted, directory, isChild⟩ := mem_groupEmits_child recurses (runs name)
      have child := (stands name listed recurses).entries
      rw [← isChild] at child
      refine ⟨(runs name).below, (runs name).clash, _,
        sameLevel ▸ deeper name listed recurses, ?_⟩
      rw [← child, ← written_id entry]
      refine .child below ?_ ((written_mode entry).symm ▸ directory)
      exact List.mem_map.mpr ⟨entry, mem_sortDirentsDesc.mpr
        (List.mem_flatMap.mpr ⟨name, listed, emitted⟩), rfl⟩

variable {entries : List (DirEntryData Oid)}

omit [ToString Oid] in
theorem below_childEntries {name : String}
    {lower : List (DirEntryData Oid)}
    (below : Below store (childEntries store (slotAt entries name)) lower) :
    lower = [] ∨ Below store entries lower := by
  unfold childEntries at below
  have none_below : Below store [] lower → lower = [] := by
    intro below
    rcases below.cases_head with isNil | ⟨entry, listed, -⟩
    · exact isNil
    · exact absurd listed List.not_mem_nil
  cases found : slotAt entries name with
  | none =>
    rw [found] at below
    exact Or.inl (none_below below)
  | some entry =>
    rw [found] at below
    dsimp only at below
    split at below
    · rename_i directory
      exact Or.inr ((Below.child .root (slotAt_eq_some found).1 directory).trans below)
    · exact Or.inl (none_below below)

variable {P : List (DirEntryData Oid) → Prop}

omit [ToString Oid] in
theorem holds_below_childEntries (empty : P [])
    {name : String} (holds : ∀ lower, Below store entries lower → P lower) :
    ∀ lower, Below store (childEntries store (slotAt entries name)) lower → P lower := by
  intro lower below
  rcases below_childEntries below with rfl | belowSide
  · exact empty
  · exact holds lower belowSide

omit [ToString Oid] in
/-- Below what was merged are the levels that were stored and those of the two sides. -/
theorem MergedBy.below_holds (grown : Table.Extends store after)
    (onStored : ∀ entries, P (stored entries) ↔ P entries) (empty : P [])
    {draws : String → Slots Oid → String → Prop}
    (mergedBy : MergedBy draws env after level merged clash levels) :
    FormedLevel store level →
    (∀ lower, Below store level.head lower → P lower) →
    (∀ lower, Below store level.remote lower → P lower) →
    (∀ entries ∈ levels, P entries) →
    ∀ lower, Below after (stored merged) lower → P lower := by
  induction mergedBy with
  | @level level runs levels named drawn stands deeper ih =>
    intro formed holdsHead holdsRemote holds lower below
    rcases below.cases_head with rfl | ⟨entry, listed, directory, below⟩
    · exact (onStored _).mpr (holds _ List.mem_cons_self)
    · obtain ⟨origin, member, rfl⟩ := List.mem_map.mp listed
      rw [written_id] at below
      rw [written_mode] at directory
      obtain ⟨name, listedName, emitted⟩ :=
        List.mem_flatMap.mp (mem_sortDirentsDesc.mp member)
      rcases groupEmits_source emitted with ⟨source, side, sameId, sameMode⟩ | ⟨recurses, isChild⟩
      · rw [sameMode] at directory
        rw [sameId] at below
        -- An entry of a side that is kept has its tree below it.
        have sideBelow : ∀ {entries : List (DirEntryData Oid)}, WellFormed store entries →
            slotAt entries name = some source → Below store entries lower := by
          intro entries formedSide found
          have inSide := (slotAt_eq_some found).1
          rw [(formedSide.entryOk inSide).entriesOf_extends directory grown] at below
          exact (Below.child .root inSide directory).trans
            (below.of_extends grown (formedSide.child inSide directory))
        rcases side with isHead | isRemote
        · exact holdsHead lower (sideBelow formed.head isHead)
        · exact holdsRemote lower (sideBelow formed.remote isRemote)
      · rw [isChild, (stands name listedName recurses).entries] at below
        have child := ih name listedName recurses
        rw [formed.childLevel_extends grown] at child
        refine child (formed.child _ _) (holds_below_childEntries empty holdsHead)
          (holds_below_childEntries empty holdsRemote)
          (fun entries inside => holds entries ?_) lower below
        refine List.mem_cons_of_mem _ (List.mem_flatMap.mpr ⟨name, listedName, ?_⟩)
        rw [if_pos recurses]
        exact inside

end Levels

/-- `P` holds of every directory that was stored since, and of every one below `root`. -/
def EveryDir (P : List (DirEntryData Oid) → Prop) (store after : FsStore Oid) (root : Oid) :
    Prop :=
  (∀ id data, store.find id = none → after.find id = some (.dir data) → P data.dirents) ∧
  ∀ level, Below after (entriesOf after root) level → P level

section Trees

variable {env : MergeEnv Oid} {store after : FsStore Oid} {baseRoot headRoot : Oid}
  {outcome : MergeOutcome Oid} {P : List (DirEntryData Oid) → Prop}

theorem mergeTrees_visits (genuine : Genuine store)
    (formed : FormedLevel store (mergeRoot env store baseRoot headRoot))
    (run : mergeTrees env baseRoot headRoot store = (.ok outcome, after)) :
    Table.Extends store after ∧
    ∃ merged levels, entriesOf after outcome.mergedRoot = stored merged ∧
      RowsFrom store after levels ∧
      MergedBy (DrawsName env store) env after (mergeRoot env store baseRoot headRoot) merged
        outcome.conflict levels := by
  have remoteStands : ∃ remote, StandsFor store env.remoteRoot remote ∧ WellFormed store remote := by
    obtain ⟨-, -, -, -, remote, -, -, -, stands, -⟩ := mergeTrees_sound genuine run
    exact ⟨remote, stands, stands.entries ▸ formed.remote⟩
  obtain ⟨remote, standsRemote, formedRemote⟩ := remoteStands
  have drawnBy : DrawnBy (DrawsName env store) env store := fun _ _ _ _ grown draws =>
    drawsName_of_extends grown standsRemote formedRemote draws
  obtain ⟨grown, -, base, head, remote', merged, levels, standsBase, standsHead, standsRemote',
    standsMerged, rows, mergedBy⟩ := mergeTrees_levels genuine drawnBy run
  refine ⟨grown, merged, levels, standsMerged.entries, rows, ?_⟩
  rw [mergeRoot, standsBase.entries, standsHead.entries, standsRemote'.entries]
  exact mergedBy

/-- A property of directories holds after a merge when it holds of the two sides and of what
every visited level may emit, and while the clock stands still it holds of what they emit only
then. -/
theorem mergeTrees_everyDir (genuine : Genuine store)
    (formed : FormedLevel store (mergeRoot env store baseRoot headRoot))
    (run : mergeTrees env baseRoot headRoot store = (.ok outcome, after))
    (onStored : ∀ entries, P (stored entries) ↔ P entries) (empty : P [])
    (holdsHead : ∀ level, Below store (entriesOf store headRoot) level → P level)
    (holdsRemote : ∀ level, Below store (entriesOf store env.remoteRoot) level → P level) :
    ((∀ level, Visits env store (mergeRoot env store baseRoot headRoot) level →
      ∀ entries, EmittedAt env store level entries → P entries) →
        EveryDir P store after outcome.mergedRoot) ∧
    (StandsStill env → EveryDir P store after outcome.mergedRoot →
      ∀ level, Visits env store (mergeRoot env store baseRoot headRoot) level →
        ∃ entries, EmittedAt env store level entries ∧ P entries) := by
  obtain ⟨grown, merged, levels, isMerged, rows, mergedBy⟩ := mergeTrees_visits genuine formed run
  constructor
  · intro emits
    have holds : ∀ entries ∈ levels, P entries := by
      intro entries listed
      obtain ⟨level, visits, emitted⟩ := mergedBy.visited grown formed .root entries listed
      exact emits level visits entries emitted
    refine ⟨fun id data fresh found => ?_, ?_⟩
    · rcases rows id data found with before | ⟨entries, listed, same⟩
      · rw [fresh] at before
        cases before
      · rw [same]
        exact (onStored entries).mpr (holds entries listed)
    · rw [isMerged]
      exact mergedBy.below_holds grown onStored empty formed holdsHead holdsRemote holds
  · rintro still ⟨-, every⟩ level visits
    rw [isMerged] at every
    obtain ⟨entries, clash, levels', mergedHere, below⟩ := mergedBy.visits still grown formed visits
    refine ⟨entries, ?_, (onStored entries).mp (every _ below)⟩
    cases mergedHere with
    | level runs levels named drawn stands deeper => exact ⟨runs, drawn, rfl⟩

end Trees

end Nanofile
