import Nanofile.Service.OneDirectory

/-!
# Trees up to timestamps

Two trees are the same up to timestamps when every path finds the same entry in both, but
for the times and for the ids of the directories that contain them.  Two edits of one
directory give such trees when they leave such entries in it.
-/

set_option autoImplicit false

namespace Nanofile

open Nanofile.Lib

variable {Oid : Type}

/-- An entry as it is written, without its time; a directory has no id. -/
structure Untimed (Oid : Type) where
  mode : BitVec 32
  modifier : String
  size : Int
  content : Option Oid
deriving DecidableEq

def DirEntryData.untimed (entry : DirEntryData Oid) : Untimed Oid :=
  ⟨entry.mode, entry.written.modifier, entry.written.size,
    if isDir entry.mode then none else some entry.id⟩

theorem untimed_mode {first second : DirEntryData Oid} (same : first.untimed = second.untimed) :
    first.mode = second.mode := congrArg Untimed.mode same

theorem untimed_written (entry : DirEntryData Oid) : entry.written.untimed = entry.untimed := by
  have again : entry.written.written = entry.written := by
    cases regular : isRegular entry.mode <;> simp [DirEntryData.written, regular]
  rw [DirEntryData.untimed, again, written_mode, written_id]
  rfl

variable {entry : DirEntryData Oid}

theorem untimed_child (directory : isDir entry.mode = true) (first second : Oid) :
    ({ entry with id := first } : DirEntryData Oid).untimed =
      ({ entry with id := second } : DirEntryData Oid).untimed := by
  have irregular := not_isRegular_of_isDir directory
  simp [DirEntryData.untimed, DirEntryData.written, directory, irregular]

variable [DecidableEq Oid] [Digests Oid]

/-- A path finds such an entry in the tree of the root. -/
def UntimedAt (store : FsStore Oid) (upper : List String) (name : String) (root : Oid)
    (untimed : Untimed Oid) : Prop :=
  ∃ entry, FoundAt store upper name root entry ∧ entry.untimed = untimed

/-- The trees of two roots, each in its own store. -/
def SameTree (first : FsStore Oid) (firstRoot : Oid) (second : FsStore Oid) (secondRoot : Oid) :
    Prop :=
  ∀ upper name untimed,
    UntimedAt first upper name firstRoot untimed ↔ UntimedAt second upper name secondRoot untimed

structure SameEntry (first second : FsStore Oid) (entry other : DirEntryData Oid) : Prop where
  untimed : entry.untimed = other.untimed
  below : isDir entry.mode = true → SameTree first entry.id second other.id

variable {store before first second : FsStore Oid} {root firstRoot secondRoot : Oid}
  {entries entries' : List (DirEntryData Oid)} {name : String}

theorem untimedAt_nil_iff {untimed : Untimed Oid} (stands : StandsFor store root entries) :
    UntimedAt store [] name root untimed ↔
      (lookup entries name).map DirEntryData.untimed = some untimed := by
  rw [Option.map_eq_some_iff]
  constructor
  · rintro ⟨entry, ⟨dir, listed, resolves, stands', found⟩, same⟩
    obtain rfl : root = dir := resolves
    obtain rfl := stands.entries.symm.trans stands'.entries
    exact ⟨entry, found, same⟩
  · rintro ⟨entry, found, same⟩
    exact ⟨entry, ⟨root, entries, rfl, stands, found⟩, same⟩

theorem untimedAt_cons_iff {next : String} {upper : List String} {untimed : Untimed Oid}
    (stands : StandsFor store root entries) :
    UntimedAt store (next :: upper) name root untimed ↔ ∃ passed,
      lookup entries next = some passed ∧ isDir passed.mode = true ∧
        UntimedAt store upper name passed.id untimed := by
  constructor
  · rintro ⟨entry, ⟨dir, listed, ⟨level, passed, stands', isPassed, directory, resolves⟩,
      standsDir, found⟩, same⟩
    obtain rfl := stands.entries.symm.trans stands'.entries
    exact ⟨passed, isPassed, directory, entry, ⟨dir, listed, resolves, standsDir, found⟩, same⟩
  · rintro ⟨passed, isPassed, directory, entry, ⟨dir, listed, resolves, standsDir, found⟩, same⟩
    exact ⟨entry, ⟨dir, listed, ⟨entries, passed, stands, isPassed, directory, resolves⟩,
      standsDir, found⟩, same⟩

theorem sameTree_iff (stands : StandsFor first firstRoot entries)
    (stands' : StandsFor second secondRoot entries') :
    SameTree first firstRoot second secondRoot ↔
      ∀ name, Option.Rel (SameEntry first second) (lookup entries name) (lookup entries' name) := by
  constructor
  · intro same name
    have here := fun untimed => same [] name untimed
    simp only [untimedAt_nil_iff stands, untimedAt_nil_iff stands'] at here
    cases found : lookup entries name with
    | none =>
      cases found' : lookup entries' name with
      | none => exact .none
      | some other => simp [found, found'] at here
    | some entry =>
      obtain ⟨other, found', sameEntry⟩ : ∃ other, lookup entries' name = some other ∧
          other.untimed = entry.untimed :=
        Option.map_eq_some_iff.mp ((here entry.untimed).mp (by rw [found]; rfl))
      rw [found']
      refine .some ⟨sameEntry.symm, fun directory => ?_⟩
      intro upper below untimed
      have directory' : isDir other.mode = true := by rwa [untimed_mode sameEntry]
      have deeper := same (name :: upper) below untimed
      rw [untimedAt_cons_iff stands, untimedAt_cons_iff stands'] at deeper
      simpa [found, found', directory, directory'] using deeper
  · intro same upper name untimed
    cases upper with
    | nil =>
      rw [untimedAt_nil_iff stands, untimedAt_nil_iff stands']
      have here := same name
      generalize lookup entries name = found, lookup entries' name = found' at here ⊢
      cases here with
      | none => exact Iff.rfl
      | some entries => rw [Option.map_some, Option.map_some, entries.untimed]
    | cons next upper =>
      rw [untimedAt_cons_iff stands, untimedAt_cons_iff stands']
      have here := same next
      generalize lookup entries next = found, lookup entries' next = found' at here ⊢
      cases here with
      | none => simp
      | @some entry other entries =>
        have sameMode := untimed_mode entries.untimed
        constructor
        · rintro ⟨passed, isPassed, directory, below⟩
          cases isPassed
          exact ⟨other, rfl, sameMode ▸ directory,
            (entries.below directory upper name untimed).mp below⟩
        · rintro ⟨passed, isPassed, directory, below⟩
          cases isPassed
          have directory := sameMode.symm ▸ directory
          exact ⟨entry, rfl, directory,
            (entries.below directory upper name untimed).mpr below⟩

theorem TreeStored.sameTree (tree : TreeStored before root) (grown : Table.Extends before first)
    (grown' : Table.Extends before second) : SameTree first root second root := by
  intro upper name untimed
  constructor
  · rintro ⟨entry, found, same⟩
    exact ⟨entry, (tree.foundAt_of_extends grown found).extends grown', same⟩
  · rintro ⟨entry, found, same⟩
    exact ⟨entry, (tree.foundAt_of_extends grown' found).extends grown, same⟩

theorem sameEntry_written {other : DirEntryData Oid} :
    SameEntry first second entry.written other.written ↔ SameEntry first second entry other := by
  constructor <;> rintro ⟨untimed, below⟩ <;>
    exact ⟨by simpa only [untimed_written] using untimed,
      by simpa only [written_mode, written_id] using below⟩

theorem rel_stored :
    Option.Rel (SameEntry first second) (lookup (stored entries) name)
        (lookup (stored entries') name) ↔
      Option.Rel (SameEntry first second) (lookup entries name) (lookup entries' name) := by
  rw [lookup_in_stored, lookup_in_stored]
  cases lookup entries name <;> cases lookup entries' name <;>
    simp [sameEntry_written]

theorem TreeStored.sameEntry (tree : TreeStored before root)
    (stands : StandsFor before root entries) (grown : Table.Extends before first)
    (grown' : Table.Extends before second) (found : lookup entries name = some entry) :
    SameEntry first second entry entry :=
  ⟨rfl, fun directory => (tree.child stands found directory).sameTree grown grown'⟩

/-- Two edits of one directory give the same tree when they leave the same entries in it. -/
theorem EditedAt.sameTree_iff {parts : List String} {top top' : Oid}
    {updateFn updateFn' : List (DirEntryData Oid) → List (DirEntryData Oid)}
    (grown : Table.Extends before first) (grown' : Table.Extends before second)
    (edited : EditedAt first (pureEdit updateFn) parts root top) :
    ∀ {dir : Oid} {entries : List (DirEntryData Oid)}, TreeStored before root →
      EditedAt second (pureEdit updateFn') parts root top' → Resolves before parts root dir →
      StandsFor before dir entries →
      (SameTree first top second top' ↔ ∀ name, Option.Rel (SameEntry first second)
        (lookup (updateFn entries) name) (lookup (updateFn' entries) name)) := by
  induction edited generalizing top' with
  | @here old new listed kept description reads applied stands =>
    intro dir entries tree edited' resolves standsDir
    obtain rfl : old = dir := resolves
    cases applied
    cases edited' with
    | here reads' applied' stands' =>
      cases applied'
      obtain rfl := reads.entries.symm.trans (standsDir.extends grown).entries
      obtain rfl := reads'.entries.symm.trans (standsDir.extends grown').entries
      rw [Nanofile.sameTree_iff stands stands']
      exact forall_congr' fun name => rel_stored
  | @down next rest old new child listed passed reads isPassed directory below stands ih =>
    intro dir entries tree edited' resolves standsDir
    obtain ⟨level, reached, standsOld, isReached, -, deeper⟩ := resolves
    obtain rfl : listed = level := reads.entries.symm.trans (standsOld.extends grown).entries
    obtain rfl : passed = reached := Option.some.inj (isPassed.symm.trans isReached)
    cases edited' with
    | @down _ _ _ _ child' level passed' reads' isPassed' _ below' stands' =>
      obtain rfl : listed = level := (standsOld.extends grown').entries.symm.trans reads'.entries
      obtain rfl : passed = passed' := Option.some.inj (isPassed.symm.trans isPassed')
      rw [← ih (tree.child standsOld isPassed directory) below' deeper standsDir,
        Nanofile.sameTree_iff stands stands']
      constructor
      · intro same
        have here := rel_stored.mp (same next)
        rw [lookup_withChild_self isPassed, lookup_withChild_self isPassed,
          Option.rel_some_some] at here
        exact here.below directory
      · intro same name
        rw [rel_stored]
        by_cases onWay : name = next
        · subst onWay
          rw [lookup_withChild_self isPassed, lookup_withChild_self isPassed,
            Option.rel_some_some]
          exact ⟨untimed_child directory child child', fun _ => same⟩
        · rw [lookup_withChild_of_ne onWay, lookup_withChild_of_ne onWay]
          cases found : lookup listed name with
          | none => exact .none
          | some entry => exact .some (tree.sameEntry standsOld grown grown' found)

end Nanofile
