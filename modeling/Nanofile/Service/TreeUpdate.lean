import Nanofile.Fs.SpelledPaths
import Nanofile.Service.WebWrites

/-!
# One update of the tree

Alone on a library, `apply_tree_update` makes the tree that is meant: the edit of one
directory with every ancestor listing the new child.  The objects of the old tree stay.
-/

set_option autoImplicit false

namespace Nanofile

open Nanofile.Lib

variable {Oid : Type} [DecidableEq Oid] [Digests Oid]

def NonnegFiles (store : FsStore Oid) : Prop :=
  ∀ fsId file, store.find fsId = some (.file file) → 0 ≤ file.size

/-- Objects were added and the clock was read. -/
structure StoredMore (before after : WebState Oid) : Prop where
  objects : Table.Extends before.repo.fsObjects after.repo.fsObjects
  genuine : Genuine after.repo.fsObjects
  files : NonnegFiles before.repo.fsObjects → NonnegFiles after.repo.fsObjects
  repo : after.repo = { before.repo with fsObjects := after.repo.fsObjects }
  trash : after.trash = before.trash

variable {state : WebState Oid}

theorem storedMore_refl (genuine : Genuine state.repo.fsObjects) : StoredMore state state :=
  ⟨Table.Extends.refl _, genuine, fun nonneg => nonneg, rfl, rfl⟩

theorem StoredMore.trans {first second third : WebState Oid} (left : StoredMore first second)
    (right : StoredMore second third) : StoredMore first third := by
  refine ⟨left.objects.trans right.objects, right.genuine,
    fun nonneg => right.files (left.files nonneg), ?_, right.trash.trans left.trash⟩
  rw [right.repo, left.repo]

variable {after before : WebState Oid}

theorem StoredMore.rootFsId (more : StoredMore before after) :
    resolveRootFsId after.repo = resolveRootFsId before.repo := by
  rw [more.repo]
  rfl

variable {store : FsStore Oid}

theorem nonnegFiles_storeDir (nonneg : NonnegFiles store) (data : FsDirData Oid) :
    NonnegFiles (storeFsDirObject store data).2 := by
  unfold storeFsDirObject
  split
  · exact nonneg
  · intro fsId file found
    rcases Table.find_insertOrIgnore_cases found with before | ⟨-, same⟩
    · exact nonneg fsId file before
    · cases same

variable {time : Int}

theorem storedMore_now (genuine : Genuine state.repo.fsObjects)
    (run : Web.now state = (.ok time, after)) : StoredMore state after := by
  cases run
  exact ⟨Table.Extends.refl _, genuine, fun nonneg => nonneg, rfl, rfl⟩

theorem storedMore_storeDir (genuine : Genuine state.repo.fsObjects) (data : FsDirData Oid) :
    StoredMore state (state.withStore (storeFsDirObject state.repo.fsObjects data).2) := by
  obtain ⟨grown, genuine', -⟩ := storeFsDirObject_spec data genuine
  exact ⟨grown, genuine', fun nonneg => nonnegFiles_storeDir nonneg data, rfl, rfl⟩

theorem storeDir_spec {data : FsDirData Oid} {fsId : Oid} (genuine : Genuine state.repo.fsObjects)
    (run : Web.storeDir data state = (.ok fsId, after)) :
    StoredMore state after ∧ StandsFor after.repo.fsObjects fsId (stored data.dirents) := by
  cases run
  exact ⟨storedMore_storeDir genuine data, (storeFsDirObject_spec data genuine).2.2⟩

variable [ToString Oid]

/-- The edit an update makes, as an edit that cannot fail. -/
def pureEdit (updateFn : List (DirEntryData Oid) → List (DirEntryData Oid)) :
    List (DirEntryData Oid) → Except AppError (List (DirEntryData Oid) × String) :=
  fun entries => .ok (updateFn entries, "")

variable {chain : AncestorChain Oid} {rootOverride : Option Oid} {name : String}

theorem walkUpLevel_cut {repo : Repo Oid} {path parentPath : String} {child : Oid}
    {level : Option (WalkLevel Oid)} (cut : parentAndName path = some (parentPath, name))
    (run : walkUpLevel time repo rootOverride chain path child = (.ok level, store)) :
    ∃ ancestor data, ancestorFsId repo rootOverride chain parentPath = .ok ancestor ∧
      readFsDirData repo.fsObjects ancestor = .ok data ∧
      (level, store) =
        (some ⟨ancestor, parentPath, name, (storeFsDirObject repo.fsObjects
          { data with dirents := setChild time name child data.dirents }).1⟩,
        (storeFsDirObject repo.fsObjects
          { data with dirents := setChild time name child data.dirents }).2) := by
  simp only [walkUpLevel, cut] at run
  split at run
  · simp at run
  · rename_i ancestor data read
    obtain ⟨found, isAncestor, read⟩ := except_bind_ok_iff.mp read
    obtain ⟨stored, read, same⟩ := except_bind_ok_iff.mp read
    cases same
    cases run
    exact ⟨ancestor, data, isAncestor, read, rfl⟩

/-- The walk up from the text of some segments: it cuts off one segment after the other, ends
at the root, and reads the directories that the names lead to. -/
structure WalksUp (before : Repo Oid) (rootOverride : Option Oid) (chain : AncestorChain Oid)
    (root : Oid) (text : List String → String) (segments : List String) : Prop where
  cut : ∀ {above : List String} {name : String}, above ++ [name] <+: segments →
    parentAndName (text (above ++ [name])) = some (text above, name)
  top : ∀ {above : List String} {name : String}, above ++ [name] <+: segments →
    (text above = "/" ↔ above = [])
  climbs : ∀ {after : Repo Oid}, Table.Extends before.fsObjects after.fsObjects →
    resolveRootFsId after = resolveRootFsId before →
    ∀ {above : List String} {name : String} {dir : Oid}, above ++ [name] <+: segments →
      Resolves before.fsObjects (namesOf above) root dir →
      ancestorFsId after rootOverride chain (text above) = .ok dir

variable {final : WebState Oid} {root top : Oid}
    {new : Oid} {segments : List String} {text : List String → String}

/-- One level: the directory that the names above lead to is stored with the new child, and
the walk ends there or goes on. -/
theorem WalksUp.level {dir : Oid} {above : List String} {entries : List (DirEntryData Oid)}
    {fuel : Nat} (walks : WalksUp before.repo rootOverride chain root text segments)
    (reaches : above ++ [name] <+: segments)
    (leads : Resolves before.repo.fsObjects (namesOf above) root dir)
    (stands : StandsFor before.repo.fsObjects dir entries) (more : StoredMore before state)
    (run : walkUpAncestors rootOverride chain (fuel + 1) (text (above ++ [name])) new state =
      (.ok top, final)) :
    ∃ time newDir middle, StoredMore state middle ∧
      StandsFor middle.repo.fsObjects newDir (stored (setChild time name new entries)) ∧
      (if above = [] then (top, final) = (newDir, middle)
        else walkUpAncestors rootOverride chain fuel (text above) newDir middle =
          (.ok top, final)) := by
  obtain ⟨time, clocked, tick, walk⟩ := Proc.bind_ok_iff.mp run
  obtain ⟨level, leveled, storing, climb⟩ := Proc.bind_ok_iff.mp walk
  clear run walk
  have ticked := storedMore_now more.genuine tick
  have more' := more.trans ticked
  simp only [Web.storing, Prod.mk.injEq] at storing
  obtain ⟨leveled', rfl⟩ := storing
  obtain ⟨ancestor, data, isAncestor, read, both⟩ := walkUpLevel_cut (walks.cut reaches)
    (Prod.ext leveled' rfl)
  have isDir := walks.climbs more'.objects more'.rootFsId reaches leads
  obtain rfl : dir = ancestor := Except.ok.inj (isDir.symm.trans isAncestor)
  obtain rfl : entries = data.dirents := (stands.extends more'.objects).entries.symm.trans
    (standsFor_of_readFsDirData read).entries
  obtain ⟨rfl, isStore⟩ := Prod.mk.inj both
  simp only [isStore] at climb
  have written := storedMore_storeDir more'.genuine
    { data with dirents := setChild time name new data.dirents }
  refine ⟨time, _, _, ticked.trans written, (storeFsDirObject_spec _ more'.genuine).2.2, ?_⟩
  simp only [walks.top reaches] at climb
  split
  · rename_i isNil
    rw [if_pos isNil] at climb
    cases climb
    rfl
  · rename_i below
    rwa [if_neg below] at climb

variable {parts : List String}
    {apply : List (DirEntryData Oid) → Except AppError (List (DirEntryData Oid) × String)}

theorem WalksUp.edited (walks : WalksUp before.repo rootOverride chain root text segments)
    (plain : PlainNames parts) (reaches : parts <+: segments) :
    ∀ {fuel : Nat} {upper lower : List String} {old new top : Oid} {state final : WebState Oid},
      parts = upper ++ lower → upper ≠ [] → upper.length ≤ fuel →
      Resolves before.repo.fsObjects upper root old → StoredMore before state →
      EditedAt state.repo.fsObjects apply lower old new →
      walkUpAncestors rootOverride chain fuel (text upper) new state = (.ok top, final) →
      StoredMore before final ∧ EditedAt final.repo.fsObjects apply parts root top := by
  intro fuel
  induction fuel with
  | zero =>
    intro upper lower old new top state final _ nonempty bound
    exact absurd (List.length_eq_zero_iff.mp (by omega)) nonempty
  | succ fuel ih =>
    intro upper lower old new top state final cut nonempty bound resolves more edited run
    obtain ⟨above, name, isConcat⟩ := (List.eq_nil_or_concat upper).resolve_left nonempty
    rw [List.concat_eq_append] at isConcat
    subst isConcat
    have cut' : parts = above ++ name :: lower := by rw [cut, List.append_assoc]; rfl
    obtain ⟨dir, leads, entries, entry, stands, found, directory, rfl⟩ :=
      resolves_append.mp resolves
    have plainAbove : PlainNames above := PlainNames.left (cut' ▸ plain)
    rw [← namesOf_of_plain plainAbove] at leads
    obtain ⟨time, newDir, middle, written, newStands, next⟩ :=
      walks.level ((List.prefix_append _ lower).trans (cut ▸ reaches)) leads stands more run
    rw [namesOf_of_plain plainAbove] at leads
    rw [setChild_eq_withChild found] at newStands
    have below : EditedAt middle.repo.fsObjects apply (name :: lower) dir newDir :=
      .down (stands.extends (more.objects.trans written.objects)) found directory
        (edited.extends written.objects) newStands
    split at next
    · rename_i isNil
      subst isNil
      obtain rfl : root = dir := leads
      cases next
      exact ⟨more.trans written, cut' ▸ below⟩
    · rename_i notRoot
      refine ih cut' notRoot ?_ leads (more.trans written) below next
      simp only [List.length_append, List.length_singleton] at bound
      omega

theorem Climbs.walksUp {before : Repo Oid} (plain : PlainNames parts)
    (climbs : Climbs before rootOverride chain root parts) :
    WalksUp before rootOverride chain root pathOf parts := by
  refine ⟨fun reaches => parentAndName_pathOf _ (plain _ (reaches.subset (by simp))).2,
    fun reaches => pathOf_eq_root_iff (fun part listed =>
      plain part (reaches.subset (List.mem_append_left _ listed))), ?_⟩
  intro after grown sameRoot above name dir reaches leads
  have plainAbove : PlainNames above :=
    fun part listed => plain part (reaches.subset (List.mem_append_left _ listed))
  rw [namesOf_of_plain plainAbove] at leads
  obtain ⟨lower, cut⟩ := reaches
  exact climbs after grown sameRoot above name lower dir (by rw [← cut]; simp) leads

theorem rebuildAbove_edited {old : Oid} (plain : PlainNames parts)
    (climbs : Climbs before.repo rootOverride chain root parts)
    (resolves : Resolves before.repo.fsObjects parts root old) (more : StoredMore before state)
    (edited : EditedAt state.repo.fsObjects apply [] old new)
    (run : rebuildAbove rootOverride chain (pathOf parts) new state = (.ok top, final)) :
    StoredMore before final ∧ EditedAt final.repo.fsObjects apply parts root top := by
  unfold rebuildAbove at run
  split at run
  · rename_i atRoot
    obtain rfl : parts = [] := (pathOf_eq_root_iff plain).mp atRoot
    obtain rfl : root = old := resolves
    cases run
    exact ⟨more, edited⟩
  · rename_i notRoot
    exact (climbs.walksUp plain).edited plain List.prefix_rfl (List.append_nil parts).symm
      (fun isNil => notRoot (by rw [isNil, pathOf_nil])) (length_le_pathOf parts) resolves more
      edited run

theorem applyTreeUpdate_edited {parent : Oid}
    {updateFn : List (DirEntryData Oid) → List (DirEntryData Oid)}
    (genuine : Genuine before.repo.fsObjects) (plain : PlainNames parts)
    (climbs : Climbs before.repo rootOverride chain root parts)
    (resolves : Resolves before.repo.fsObjects parts root parent)
    (run : applyTreeUpdate (pathOf parts) parent chain rootOverride updateFn before =
      (.ok top, final)) :
    StoredMore before final ∧
      EditedAt final.repo.fsObjects (pureEdit updateFn) parts root top := by
  obtain ⟨data, read, reading, update⟩ := Proc.bind_ok_iff.mp run
  obtain ⟨newParent, written, storing, rebuild⟩ := Proc.bind_ok_iff.mp update
  obtain ⟨found, rfl⟩ := Prod.mk.inj reading
  obtain ⟨more, stands⟩ := storeDir_spec genuine storing
  have reads := standsFor_of_readFsDirData found
  exact rebuildAbove_edited plain climbs resolves more
    (.here (reads.extends more.objects) rfl stands) rebuild

theorem storedMore_applyTreeUpdate (parentPath : String) (parentFsId : Oid)
    (chain : AncestorChain Oid) (rootOverride : Option Oid)
    (updateFn : List (DirEntryData Oid) → List (DirEntryData Oid)) :
    Proc.Keeps (StoredMore before)
      (applyTreeUpdate parentPath parentFsId chain rootOverride updateFn) := by
  refine Proc.keeps_bind (Proc.keeps_tryRead _ _) fun data => ?_
  refine Proc.keeps_bind (fun _ more => more.trans (storedMore_storeDir more.genuine _))
    fun newParent => ?_
  refine keeps_rebuildAbove (fun _ more => more.trans (storedMore_now more.genuine rfl)) ?_
    rootOverride chain parentPath newParent
  intro state ancestor data more _ time name child
  exact more.trans (storedMore_storeDir more.genuine _)

end Nanofile
