import Nanofile.Service.MoveReports

/-!
# A tree update changes one directory

The walk up stores one directory for each component of the path.  Which directories it
reads does not depend on the chain it is given, so neither does the tree it makes.
-/

set_option autoImplicit false

namespace Nanofile

open Nanofile.Lib

section Order

variable {Oid : Type}

/-- Descending by name, as clients write directories. -/
def NamesDescend (entries : List (DirEntryData Oid)) : Prop :=
  entries.Pairwise fun first second => second.name ≤ first.name

theorem namesDescend_stored (entries : List (DirEntryData Oid)) :
    NamesDescend (stored entries) := by
  have : Std.Total fun first second : DirEntryData Oid => second.name ≤ first.name :=
    ⟨fun first second => String.le_total second.name first.name⟩
  have : IsTrans (DirEntryData Oid) fun first second => second.name ≤ first.name :=
    ⟨fun _ _ _ left right => String.le_trans right left⟩
  unfold NamesDescend stored sortDirentsDesc
  rw [List.pairwise_map]
  simp only [written_name]
  exact List.pairwise_insertionSort _ entries

end Order

variable {Oid : Type} [DecidableEq Oid] [Digests Oid]

/-- An entry in the tree before and after.  The object is another one only for a directory
above the edit. -/
structure KeptEntry (onWay : Prop) (old new : DirEntryData Oid) : Prop where
  mode : new.mode = old.mode
  mtime : new.mtime = old.mtime
  name : new.name = old.name
  file : isRegular old.mode = true → new.modifier = old.modifier ∧ new.size = old.size
  content : new.id = old.id ∨ isDir old.mode = true ∧ onWay

section

omit [DecidableEq Oid] [Digests Oid]

theorem keptEntry_written (onWay : Prop) (entry : DirEntryData Oid) :
    KeptEntry onWay entry entry.written := by
  cases regular : isRegular entry.mode <;>
    exact ⟨by simp, by simp [DirEntryData.written, regular], by simp,
      by simp [DirEntryData.written, regular], Or.inl (by simp)⟩

theorem keptEntry_child {onWay : Prop} {entry : DirEntryData Oid} (child : Oid)
    (directory : isDir entry.mode = true) (way : onWay) :
    KeptEntry onWay entry (DirEntryData.written { entry with id := child }) := by
  have irregular := not_isRegular_of_isDir directory
  exact ⟨by simp, by simp [DirEntryData.written, irregular], by simp, by simp [irregular],
    Or.inr ⟨directory, way⟩⟩

end

variable {store after : FsStore Oid} {parts : List String} {root top : Oid}
  {updateFn : List (DirEntryData Oid) → List (DirEntryData Oid)}
    {name : String} {upper : List String}

omit [DecidableEq Oid] [Digests Oid] in
theorem keepsWay_outside (outside : ¬ parts <+: upper ++ [name]) :
    KeepsWay updateFn parts (upper ++ [name]) :=
  fun _ passed => absurd ((List.prefix_append parts _).trans passed) outside

variable {entry : DirEntryData Oid}

section

variable (edited : EditedAt store (pureEdit updateFn) parts root top)
include edited

theorem EditedAt.kept (outside : ¬ parts <+: upper ++ [name])
    (found : FoundAt store upper name root entry) :
    ∃ entry', FoundAt store upper name top entry' ∧
      KeptEntry (upper ++ [name] <+: parts) entry entry' := by
  obtain ⟨dir, entries, resolves, stands, isEntry⟩ := found
  have apart : upper ≠ parts := fun same => outside (same ▸ List.prefix_append upper [name])
  have keeps : KeepsWay updateFn parts upper :=
    fun other passed => keepsWay_outside outside other
      (passed.trans (List.prefix_append upper [name]))
  obtain ⟨dir', entries', resolves', stands', shape⟩ :=
    edited.dir_other apart keeps resolves stands
  rcases shape with ⟨rfl, rfl⟩ | ⟨next, rest, child, passed, rfl, isPassed, directory, rfl⟩
  · exact ⟨entry, ⟨dir', entries', resolves', stands', isEntry⟩, rfl, rfl, rfl,
      fun _ => ⟨rfl, rfl⟩, Or.inl rfl⟩
  · by_cases same : name = next
    · subst same
      obtain rfl : passed = entry := Option.some.inj (isPassed.symm.trans isEntry)
      refine ⟨_, ⟨dir', _, resolves', stands', ?_⟩, keptEntry_child child directory ⟨rest, by simp⟩⟩
      rw [lookup_in_stored, lookup_withChild_self isPassed]
      rfl
    · refine ⟨entry.written, ⟨dir', _, resolves', stands', ?_⟩, keptEntry_written _ entry⟩
      rw [lookup_in_stored, lookup_withChild_of_ne same, isEntry]
      rfl

theorem EditedAt.found_after :
    ∀ {upper : List String} {name : String} {entry' : DirEntryData Oid},
      FoundAt store upper name top entry' →
      (∃ entry, FoundAt store upper name root entry) ∨
        ∃ tail old new entries, upper = parts ++ tail ∧ Resolves store parts root old ∧
          StandsFor store old entries ∧ StandsFor store new (stored (updateFn entries)) ∧
          FoundAt store tail name new entry' := by
  induction edited with
  | @here old new entries kept description reads applied stands =>
    cases applied
    exact fun found => Or.inr ⟨_, old, new, entries, rfl, rfl, reads, stands, found⟩
  | @down next rest old new child entries passed reads isPassed directory below stands ih =>
    intro upper name entry' found
    obtain ⟨dir, listed, resolves, standsDir, isEntry⟩ := found
    cases upper with
    | nil =>
      obtain rfl : new = dir := resolves
      obtain rfl := stands.entries.symm.trans standsDir.entries
      by_cases same : name = next
      · exact Or.inl ⟨passed, old, entries, rfl, reads, same ▸ isPassed⟩
      · rw [lookup_in_stored, lookup_withChild_of_ne same, Option.map_eq_some_iff] at isEntry
        obtain ⟨entry, isEntry, -⟩ := isEntry
        exact Or.inl ⟨entry, old, entries, rfl, reads, isEntry⟩
    | cons first others =>
      obtain ⟨level, reached, standsNew, isReached, directory', resolves⟩ := resolves
      obtain rfl := stands.entries.symm.trans standsNew.entries
      by_cases same : first = next
      · subst same
        rw [lookup_in_stored, lookup_withChild_self isPassed, Option.map_some,
          Option.some.injEq] at isReached
        subst isReached
        rw [written_id] at resolves
        rcases ih ⟨dir, listed, resolves, standsDir, isEntry⟩ with
          ⟨entry, dir', listed', resolves', standsDir', isEntry'⟩ |
          ⟨tail, old', new', entries', rfl, resolvesOld, standsOld, standsNew', found⟩
        · exact Or.inl ⟨entry, dir', listed',
            ⟨entries, passed, reads, isPassed, directory, resolves'⟩, standsDir', isEntry'⟩
        · exact Or.inr ⟨tail, old', new', entries', rfl,
            ⟨entries, passed, reads, isPassed, directory, resolvesOld⟩, standsOld, standsNew',
            found⟩
      · rw [lookup_in_stored, lookup_withChild_of_ne same, Option.map_eq_some_iff] at isReached
        obtain ⟨entry, isReached, rfl⟩ := isReached
        rw [written_mode] at directory'
        rw [written_id] at resolves
        exact Or.inl ⟨entry', dir, listed,
          ⟨entries, entry, reads, isReached, directory', resolves⟩, standsDir, isEntry⟩

theorem EditedAt.found_before {entry' : DirEntryData Oid} (outside : ¬ parts <+: upper ++ [name])
    (found : FoundAt store upper name top entry') :
    ∃ entry, FoundAt store upper name root entry := by
  refine (edited.found_after found).resolve_right ?_
  rintro ⟨tail, old, new, entries, rfl, -⟩
  exact outside ⟨tail ++ [name], by simp⟩

theorem EditedAt.descends :
    ∀ {upper : List String}, upper <+: parts → ∃ dir entries, Resolves store upper top dir ∧
      StandsFor store dir entries ∧ NamesDescend entries := by
  induction edited with
  | @here old new entries kept description reads applied stands =>
    intro upper isPrefix
    obtain rfl := List.prefix_nil.mp isPrefix
    exact ⟨new, _, rfl, stands, namesDescend_stored kept⟩
  | @down next rest old new child entries passed reads isPassed directory below stands ih =>
    intro upper isPrefix
    cases upper with
    | nil => exact ⟨new, _, rfl, stands, namesDescend_stored _⟩
    | cons first others =>
      obtain ⟨rfl, inner⟩ := List.cons_prefix_cons.mp isPrefix
      obtain ⟨dir, listed, resolves, standsDir, descend⟩ := ih inner
      refine ⟨dir, listed, ⟨_, DirEntryData.written { passed with id := child }, stands, ?_, ?_,
        ?_⟩, standsDir, descend⟩
      · rw [lookup_in_stored, lookup_withChild_self isPassed]
        rfl
      · rw [written_mode]
        exact directory
      · rw [written_id]
        exact resolves

end

variable {entries : List (DirEntryData Oid)}

theorem TreeStored.child (tree : TreeStored store root)
    (stands : StandsFor store root entries) (found : lookup entries name = some entry)
    (directory : isDir entry.mode = true) : TreeStored store entry.id :=
  fun parts dir resolves => tree (name :: parts) dir ⟨entries, entry, stands, found, directory, resolves⟩

theorem TreeStored.of_resolves {dir : Oid} (tree : TreeStored store root)
    (resolves : Resolves store upper root dir) : TreeStored store dir :=
  fun parts below leads => tree (upper ++ parts) below (resolves_append.mpr ⟨dir, resolves, leads⟩)

theorem TreeStored.resolves_of_extends (grown : Table.Extends store after) :
    ∀ {upper : List String} {root dir : Oid}, TreeStored store root →
      Resolves after upper root dir → Resolves store upper root dir := by
  intro upper
  induction upper with
  | nil => exact fun _ resolves => resolves
  | cons name rest ih =>
    intro root dir tree resolves
    obtain ⟨entries, entry, stands, found, directory, below⟩ := resolves
    obtain ⟨entries', standsBefore⟩ := tree [] root rfl
    obtain rfl := (standsBefore.extends grown).entries.symm.trans stands.entries
    have inner := tree.child standsBefore found directory
    exact ⟨_, entry, standsBefore, found, directory, ih inner below⟩

theorem TreeStored.foundAt_of_extends (tree : TreeStored store root)
    (grown : Table.Extends store after) (found : FoundAt after upper name root entry) :
    FoundAt store upper name root entry := by
  obtain ⟨dir, entries, resolves, stands, isEntry⟩ := found
  have resolvesBefore := TreeStored.resolves_of_extends grown tree resolves
  obtain ⟨entries', standsBefore⟩ := tree upper dir resolvesBefore
  obtain rfl := (standsBefore.extends grown).entries.symm.trans stands.entries
  exact ⟨dir, _, resolvesBefore, standsBefore, isEntry⟩

/-- The tree of one root is that of another with the directory at the path edited. -/
structure OneDirectoryChanged (before after : FsStore Oid)
    (updateFn : List (DirEntryData Oid) → List (DirEntryData Oid)) (parts : List String)
    (root top : Oid) : Prop where
  grown : Table.Extends before after
  edited : ∃ old entries new, Resolves before parts root old ∧ StandsFor before old entries ∧
    Resolves after parts top new ∧ StandsFor after new (stored (updateFn entries))
  kept : ∀ {upper : List String} {name : String} {entry : DirEntryData Oid},
    ¬ parts <+: upper ++ [name] → FoundAt before upper name root entry →
    ∃ entry', FoundAt after upper name top entry' ∧
      KeptEntry (upper ++ [name] <+: parts) entry entry'
  noOther : ∀ {upper : List String} {name : String} {entry' : DirEntryData Oid},
    ¬ parts <+: upper ++ [name] → FoundAt after upper name top entry' →
    ∃ entry, FoundAt before upper name root entry
  descends : ∀ {upper : List String}, upper <+: parts → ∃ dir entries,
    Resolves after upper top dir ∧ StandsFor after dir entries ∧ NamesDescend entries

theorem EditedAt.oneDirectoryChanged {before after : FsStore Oid} (tree : TreeStored before root)
    (grown : Table.Extends before after)
    (edited : EditedAt after (pureEdit updateFn) parts root top) :
    OneDirectoryChanged before after updateFn parts root top := by
  refine ⟨grown, ?_, fun outside found => edited.kept outside (found.extends grown), ?_,
    edited.descends⟩
  · obtain ⟨old, new, entries, resolves, stands, resolves', stands'⟩ := edited.dir_here
    have resolvesBefore := TreeStored.resolves_of_extends grown tree resolves
    obtain ⟨listed, standsBefore⟩ := tree parts old resolvesBefore
    obtain rfl := (standsBefore.extends grown).entries.symm.trans stands.entries
    exact ⟨old, listed, new, resolvesBefore, standsBefore, resolves', stands'⟩
  · intro upper name entry' outside found
    obtain ⟨entry, foundOld⟩ := edited.found_before outside found
    exact ⟨entry, tree.foundAt_of_extends grown foundOld⟩

variable [ToString Oid] {rootOverride : Option Oid}

theorem walkUpLevel_eq {repo : Repo Oid} {chain : AncestorChain Oid}
    {above : List String} {dir : Oid} {data : FsDirData Oid} (plain : '/' ∉ name.toList)
    (isAncestor : ancestorFsId repo rootOverride chain (pathOf above) = .ok dir)
    (read : readFsDirData repo.fsObjects dir = .ok data)
    (found : lookup data.dirents name = some entry) (time : Int) (child : Oid) :
    walkUpLevel time repo rootOverride chain (pathOf (above ++ [name])) child =
      (.ok (some ⟨dir, pathOf above, name, (storeFsDirObject repo.fsObjects
          { data with dirents := withChild name child data.dirents }).1⟩),
        (storeFsDirObject repo.fsObjects
          { data with dirents := withChild name child data.dirents }).2) := by
  simp only [walkUpLevel, parentAndName_pathOf above plain, isAncestor, bind, Except.bind, read,
    setChild_eq_withChild found]

theorem walkUpAncestors_alone {before : WebState Oid} (rootOverride : Option Oid)
    (plain : PlainNames parts) :
    ∀ {fuel : Nat} {upper lower : List String} {old : Oid} (new : Oid) {state : WebState Oid},
      parts = upper ++ lower → upper ≠ [] → upper.length ≤ fuel →
      Resolves before.repo.fsObjects upper root old → StoredMore before state →
      ∃ top final, ∀ chain, Climbs before.repo rootOverride chain root parts →
        walkUpAncestors rootOverride chain fuel (pathOf upper) new state = (.ok top, final) := by
  intro fuel
  induction fuel with
  | zero =>
    intro upper lower old new state _ nonempty bound
    exact absurd (List.length_eq_zero_iff.mp (by omega)) nonempty
  | succ fuel ih =>
    intro upper lower old new state cut nonempty bound resolves more
    obtain ⟨above, name, isConcat⟩ := (List.eq_nil_or_concat upper).resolve_left nonempty
    rw [List.concat_eq_append] at isConcat
    subst isConcat
    have cut' : parts = above ++ name :: lower := by rw [cut, List.append_assoc]; rfl
    have plainName : '/' ∉ name.toList := (plain name (by simp [cut'])).2
    obtain ⟨dir, leads, entries, entry, stands, found, -, rfl⟩ := resolves_append.mp resolves
    -- The clock is read and the directory above is stored.
    obtain ⟨time, clocked, tick⟩ : ∃ time clocked, Web.now state = (.ok time, clocked) :=
      ⟨_, _, rfl⟩
    have ticked := more.trans (storedMore_now more.genuine tick)
    obtain ⟨data, read, rfl⟩ := (stands.extends ticked.objects).read
    have written := ticked.trans (storedMore_storeDir ticked.genuine
      { data with dirents := withChild name new data.dirents })
    obtain ⟨stored, isStored⟩ : ∃ stored, storeFsDirObject clocked.repo.fsObjects
      { data with dirents := withChild name new data.dirents } = stored := ⟨_, rfl⟩
    rw [isStored] at written
    have level : ∀ chain, Climbs before.repo rootOverride chain root parts →
        Web.storing (fun repo =>
          walkUpLevel time repo rootOverride chain (pathOf (above ++ [name])) new) clocked =
        (.ok (some ⟨dir, pathOf above, name, stored.1⟩), clocked.withStore stored.2) := by
      intro chain climbs
      have isAncestor := climbs clocked.repo ticked.objects ticked.rootFsId above name lower dir
        cut' leads
      rw [Web.storing, walkUpLevel_eq plainName isAncestor read found time new, isStored]
    by_cases atRoot : above = []
    · refine ⟨stored.1, clocked.withStore stored.2, fun chain climbs =>
        Proc.bind_ok_iff.mpr ⟨time, clocked, tick,
          Proc.bind_ok_iff.mpr ⟨_, _, level chain climbs, ?_⟩⟩⟩
      dsimp only
      rw [if_pos (by rw [atRoot, pathOf_nil])]
      rfl
    · have shorter : above.length ≤ fuel := by
        rw [List.length_append, List.length_singleton] at bound
        omega
      obtain ⟨top, final, climb⟩ := ih stored.1 cut' atRoot shorter leads written
      refine ⟨top, final, fun chain climbs => Proc.bind_ok_iff.mpr ⟨time, clocked, tick,
        Proc.bind_ok_iff.mpr ⟨_, _, level chain climbs, ?_⟩⟩⟩
      have plainAbove : PlainNames above := PlainNames.left (cut' ▸ plain)
      dsimp only
      rw [if_neg fun same => atRoot ((pathOf_eq_root_iff plainAbove).mp same)]
      exact climb chain climbs

theorem applyTreeUpdate_alone {before : WebState Oid} {parent : Oid}
    (genuine : Genuine before.repo.fsObjects)
    (plain : PlainNames parts) (resolves : Resolves before.repo.fsObjects parts root parent)
    (stands : StandsFor before.repo.fsObjects parent entries)
    (updateFn : List (DirEntryData Oid) → List (DirEntryData Oid)) :
    ∃ top final, ∀ chain, Climbs before.repo rootOverride chain root parts →
      applyTreeUpdate (pathOf parts) parent chain rootOverride updateFn before =
        (.ok top, final) := by
  obtain ⟨data, read, rfl⟩ := stands.read
  have reading : Web.readDir parent before = (.ok data, before) :=
    Proc.tryRead_ok_iff.mpr ⟨read, rfl⟩
  have more := storedMore_storeDir genuine { data with dirents := updateFn data.dirents }
  obtain ⟨stored, isStored⟩ : ∃ stored, storeFsDirObject before.repo.fsObjects
    { data with dirents := updateFn data.dirents } = stored := ⟨_, rfl⟩
  rw [isStored] at more
  have storing : Web.storeDir { data with dirents := updateFn data.dirents } before =
      (.ok stored.1, before.withStore stored.2) := by
    rw [Web.storeDir, Web.storing, isStored]
  by_cases atRoot : parts = []
  · refine ⟨stored.1, before.withStore stored.2, fun chain _ =>
      Proc.bind_ok_iff.mpr ⟨data, before, reading,
        Proc.bind_ok_iff.mpr ⟨_, _, storing, ?_⟩⟩⟩
    rw [rebuildAbove, if_pos (by rw [atRoot, pathOf_nil])]
    rfl
  · obtain ⟨top, final, climb⟩ := walkUpAncestors_alone rootOverride plain stored.1
      (List.append_nil parts).symm atRoot (length_le_pathOf parts) resolves more
    refine ⟨top, final, fun chain climbs => Proc.bind_ok_iff.mpr ⟨data, before, reading,
      Proc.bind_ok_iff.mpr ⟨_, _, storing, ?_⟩⟩⟩
    rw [rebuildAbove, if_neg fun same => atRoot ((pathOf_eq_root_iff plain).mp same)]
    exact climb chain climbs

/-- Alone on a library, an update of a canonical path succeeds and changes one directory, with
the chain of the path and without. -/
theorem applyTreeUpdate_changes_one_directory {before : WebState Oid} {parentPath : String}
    {parent : Oid × AncestorChain Oid} (genuine : Genuine before.repo.fsObjects)
    (tree : HeadStored before.repo) (canonical : PlainPath parentPath)
    (resolved : resolveFsIdChain before.repo parentPath = .ok parent)
    (updateFn : List (DirEntryData Oid) → List (DirEntryData Oid)) :
    ∃ root top final, resolveRootFsId before.repo = .ok root ∧
      (∀ chain, chain = parent.2 ∨ chain = [] →
        applyTreeUpdate parentPath parent.1 chain none updateFn before = (.ok top, final)) ∧
      OneDirectoryChanged before.repo.fsObjects final.repo.fsObjects updateFn
        (pathComponents parentPath) root top := by
  obtain ⟨root, isRoot, fromRoot⟩ := except_bind_ok_iff.mp resolved
  have plain := plainNames_pathComponents parentPath
  rw [canonical] at fromRoot
  have resolves := resolves_of_resolveFsIdChainFromRoot plain fromRoot
  obtain ⟨entries, stands⟩ := tree root isRoot _ _ resolves
  have climbs : ∀ chain, chain = parent.2 ∨ chain = [] →
      Climbs before.repo none chain root (pathComponents parentPath) := by
    rintro chain (rfl | rfl)
    · exact climbs_of_chain plain (Or.inr ⟨rfl, isRoot⟩) fromRoot
    · exact climbs_of_head plain isRoot
  obtain ⟨top, final, run⟩ := applyTreeUpdate_alone genuine plain resolves stands updateFn
  have runs : ∀ chain, chain = parent.2 ∨ chain = [] →
      applyTreeUpdate parentPath parent.1 chain none updateFn before = (.ok top, final) := by
    intro chain isChain
    rw [canonical]
    exact run chain (climbs chain isChain)
  obtain ⟨more, edited⟩ := applyTreeUpdate_edited genuine plain (climbs [] (Or.inr rfl)) resolves
    (run [] (climbs [] (Or.inr rfl)))
  exact ⟨root, top, final, isRoot, runs,
    edited.oneDirectoryChanged (tree root isRoot) more.objects⟩

/-- A directory as it was received: two directories, one with a modifier. -/
def receivedRoot : FsDirData FreeId :=
  directory [{ dirEntry "b" .empty with modifier := "ann" }, dirEntry "a" .empty]

def receivedLibrary : WebState FreeId :=
  let rootId := FreeId.object (.dir receivedRoot)
  let head : CommitData FreeId := { bareCommit "head" none with rootId }
  ⟨{ bareLibrary with
    headCommitId := some head.commitId
    commits := (CommitTable.empty.insertCommit head.row).getD .empty
    fsObjects := Table.insertOrIgnore .empty rootId (.dir receivedRoot) }, [], fun count => count⟩

theorem genuine_receivedLibrary : Genuine receivedLibrary.repo.fsObjects := by
  refine genuine_insert ?_ fun _ => rfl
  intro fsId object _ found
  cases found

theorem receivedLibrary_unique : HeadUnique receivedLibrary.repo :=
  headUnique_of_check 2 (by decide +kernel)

theorem receivedLibrary_stored : HeadStored receivedLibrary.repo :=
  headStored_of_check 2 (by decide +kernel)

theorem foundAt_root_iff {store : FsStore FreeId} {root : FreeId} {entry : DirEntryData FreeId} :
    FoundAt store [] name root entry ↔ lookup (entriesOf store root) name = some entry := by
  constructor
  · rintro ⟨dir, entries, rfl, stands, isEntry⟩
    rw [stands.entries]
    exact isEntry
  · intro isEntry
    refine ⟨root, entriesOf store root, rfl, ?_, isEntry⟩
    cases read : dirBatch store root with
    | none => simp [entriesOf, read, lookup] at isEntry
    | some data => exact Or.inr ⟨data, read, by rw [entriesOf, read]; rfl⟩

/-- A file is put into `/a`: the entry of `/b` is written without its modifier. -/
theorem modifier_of_directory_lost :
    HeadUnique receivedLibrary.repo ∧ HeadStored receivedLibrary.repo ∧
    ∃ parent root top final entry, resolveRootFsId receivedLibrary.repo = .ok root ∧
      resolveFsIdChain receivedLibrary.repo "/a" = .ok parent ∧
      applyTreeUpdate "/a" parent.1 parent.2 none (fun entries => noFile "f" :: entries)
        receivedLibrary = (.ok top, final) ∧
      FoundAt receivedLibrary.repo.fsObjects [] "b" root entry ∧ entry.modifier = "ann" ∧
      ∀ entry', FoundAt final.repo.fsObjects [] "b" top entry' → entry'.modifier = "" := by
  let received := { dirEntry "b" FreeId.empty with modifier := "ann" }
  let top := Digests.dirId (directory [dirEntry "b" FreeId.empty,
    dirEntry "a" (Digests.dirId (directory [noFile "f"]))])
  have ran : (applyTreeUpdate "/a" FreeId.empty [("/a", .empty)] none
      (fun entries => noFile "f" :: entries) receivedLibrary).1 = .ok top := by decide +kernel
  refine ⟨receivedLibrary_unique, receivedLibrary_stored, (.empty, [("/a", .empty)]),
    FreeId.object (.dir receivedRoot), top, _, received,
    by decide +kernel, by decide +kernel, Prod.ext ran rfl,
    foundAt_root_iff.mpr (by decide +kernel), rfl, ?_⟩
  intro entry' found
  have left : lookup (entriesOf (applyTreeUpdate "/a" FreeId.empty [("/a", .empty)] none
      (fun entries => noFile "f" :: entries) receivedLibrary).2.repo.fsObjects top) "b" =
      some (dirEntry "b" .empty) := by decide +kernel
  obtain rfl := Option.some.inj ((foundAt_root_iff.mp found).symm.trans left)
  rfl

/-- The same update, whichever chain it is given. -/
theorem applyTreeUpdate_changes_a :
    ∃ root top final, resolveRootFsId receivedLibrary.repo = .ok root ∧
      (∀ chain, chain = [("/a", .empty)] ∨ chain = [] →
        applyTreeUpdate "/a" .empty chain none (fun entries => noFile "f" :: entries)
          receivedLibrary = (.ok top, final)) ∧
      OneDirectoryChanged receivedLibrary.repo.fsObjects final.repo.fsObjects
        (fun entries => noFile "f" :: entries) ["a"] root top := by
  have resolved : resolveFsIdChain receivedLibrary.repo "/a" = .ok (.empty, [("/a", .empty)]) := by
    decide +kernel
  exact applyTreeUpdate_changes_one_directory genuine_receivedLibrary receivedLibrary_stored
    (by decide) resolved (fun entries => noFile "f" :: entries)

end Nanofile
