import Nanofile.Fs.TreeSemantics
import Nanofile.Lib.System
import Nanofile.Service.WebOps

/-!
# Unique names in every directory

Every directory that is stored is an edit of one that was read, so names stay unique in
all of them when each edit keeps them so.  Renaming onto a taken name does not.
-/

set_option autoImplicit false

namespace Nanofile

open Nanofile.Lib Nanofile.Lib.Proc

variable {Oid : Type}

def NamesNodup (entries : List (DirEntryData Oid)) : Prop :=
  (entries.map DirEntryData.name).Nodup

variable {entries : List (DirEntryData Oid)}

theorem namesNodup_concat {entry : DirEntryData Oid} (unique : NamesNodup entries)
    (fresh : entry.name ∉ entries.map DirEntryData.name) : NamesNodup (entries ++ [entry]) := by
  unfold NamesNodup at unique ⊢
  rw [List.map_append, List.nodup_append]
  refine ⟨unique, by simp, ?_⟩
  intro name listed other isNew same
  rw [List.map_singleton, List.mem_singleton] at isNew
  exact fresh (isNew ▸ same ▸ listed)

theorem namesNodup_filter (unique : NamesNodup entries) (keep : DirEntryData Oid → Bool) :
    NamesNodup (entries.filter keep) :=
  unique.sublist (List.filter_sublist.map _)

variable {name : String}

theorem any_name_iff :
    (entries.any fun entry => entry.name = name) = true ↔
      name ∈ entries.map DirEntryData.name := by
  simp [List.any_eq_true, List.mem_map]

theorem namesNodup_pushUnlessNamed (unique : NamesNodup entries) (entry : DirEntryData Oid) :
    NamesNodup (pushUnlessNamed entry entries) := by
  unfold pushUnlessNamed
  split
  · exact unique
  · rename_i free
    exact namesNodup_concat unique fun listed => free (any_name_iff.mpr listed)

variable {now : Int} {child : Oid} {other : String}

theorem mem_names_setChild :
    other ∈ (setChild now name child entries).map DirEntryData.name →
      other = name ∨ other ∈ entries.map DirEntryData.name := by
  induction entries with
  | nil =>
    intro listed
    exact Or.inl (by simpa [setChild] using listed)
  | cons entry rest ih =>
    intro listed
    unfold setChild at listed
    split at listed
    · exact Or.inr listed
    · rcases List.mem_cons.mp listed with here | below
      · exact Or.inr (here ▸ List.mem_cons_self)
      · rcases ih below with same | listed
        · exact Or.inl same
        · exact Or.inr (List.mem_cons_of_mem _ listed)

theorem namesNodup_setChild (unique : NamesNodup entries) :
    NamesNodup (setChild now name child entries) := by
  induction entries with
  | nil => exact List.nodup_singleton _
  | cons entry rest ih =>
    obtain ⟨fresh, unique⟩ := List.nodup_cons.mp unique
    unfold setChild
    split
    · exact List.nodup_cons.mpr ⟨fresh, unique⟩
    · rename_i different
      refine List.nodup_cons.mpr ⟨?_, ih unique⟩
      intro listed
      rcases mem_names_setChild listed with same | listed
      · exact different same
      · exact fresh listed

variable {newName oldName : String}

theorem mem_names_renameFirst :
    other ∈ (renameFirst oldName newName entries).map DirEntryData.name →
      other = newName ∨ other ∈ entries.map DirEntryData.name := by
  induction entries with
  | nil => exact fun listed => absurd listed List.not_mem_nil
  | cons entry rest ih =>
    intro listed
    unfold renameFirst at listed
    split at listed
    · rcases List.mem_cons.mp listed with here | below
      · exact Or.inl here
      · exact Or.inr (List.mem_cons_of_mem _ below)
    · rcases List.mem_cons.mp listed with here | below
      · exact Or.inr (here ▸ List.mem_cons_self)
      · rcases ih below with same | listed
        · exact Or.inl same
        · exact Or.inr (List.mem_cons_of_mem _ listed)

theorem namesNodup_renameFirst (unique : NamesNodup entries)
    (free : newName ≠ oldName → newName ∉ entries.map DirEntryData.name) :
    NamesNodup (renameFirst oldName newName entries) := by
  induction entries with
  | nil => exact List.nodup_nil
  | cons entry rest ih =>
    obtain ⟨fresh, unique⟩ := List.nodup_cons.mp unique
    unfold renameFirst
    split
    · rename_i isOld
      refine List.nodup_cons.mpr ⟨?_, unique⟩
      intro listed
      by_cases same : newName = oldName
      · exact fresh (by rw [isOld, ← same]; exact listed)
      · exact free same (List.mem_cons_of_mem _ listed)
    · rename_i different
      refine List.nodup_cons.mpr ⟨?_, ih unique fun changed listed =>
        free changed (List.mem_cons_of_mem _ listed)⟩
      intro listed
      rcases mem_names_renameFirst listed with isNew | listed
      · by_cases same : newName = oldName
        · exact different (isNew.trans same)
        · exact free same (isNew ▸ List.mem_cons_self)
      · exact fresh listed

theorem freshName_not_mem (existing : List (DirEntryData Oid)) (name : String) :
    freshName existing name ∉ existing.map DirEntryData.name := by
  unfold freshName
  split
  · exact generateUniqueFilename_fresh existing name
  · rename_i free
    exact fun listed => free (any_name_iff.mpr listed)

theorem namesNodup_planEntries {existing : List (DirEntryData Oid)} (unique : NamesNodup existing) :
    NamesNodup (existing ++ planEntries existing entries) := by
  induction entries generalizing existing with
  | nil => rwa [planEntries, List.append_nil]
  | cons entry rest ih =>
    have added : NamesNodup (existing ++
        [{ entry with name := freshName existing entry.name }]) :=
      namesNodup_concat unique (freshName_not_mem existing entry.name)
    have all := ih added
    rwa [List.append_assoc] at all

variable {modifier : String}

theorem namesNodup_addFile [DecidableEq Oid] {fileFsId : Oid} {totalSize : Int} {replace : Bool}
    {dirents : List (DirEntryData Oid)} (unique : NamesNodup dirents) :
    NamesNodup (addFile fileFsId name modifier totalSize now replace dirents).1 := by
  unfold addFile
  dsimp only
  generalize (replace && dirents.any fun entry =>
    entry.name = name && entry.id = fileFsId && entry.size = totalSize) = identical
  cases identical with
  | true =>
    simp only [Bool.not_true, Bool.and_false, if_true]
    exact unique
  | false =>
    simp only [Bool.not_false, Bool.and_true, Bool.false_eq_true, if_false]
    cases replace with
    | true =>
      simp only [if_true, Bool.not_true, Bool.false_and, Bool.false_eq_true, if_false]
      apply namesNodup_concat (namesNodup_filter unique _)
      simp
    | false =>
      simp only [Bool.false_eq_true, if_false, Bool.not_false, Bool.true_and]
      apply namesNodup_concat unique
      exact freshName_not_mem dirents name

variable [DecidableEq Oid] [Digests Oid]

def AllNamesUnique (store : FsStore Oid) : Prop :=
  ∀ fsId data, dirBatch store fsId = some data → NamesNodup data.dirents

variable {data : FsDirData Oid} {store : FsStore Oid} {fsId : Oid}

theorem AllNamesUnique.read [ToString Oid] (unique : AllNamesUnique store)
    (read : readFsDirData store fsId = .ok data) : NamesNodup data.dirents := by
  rcases standsFor_of_readFsDirData read with ⟨-, none⟩ | ⟨stored, found, same⟩
  · rw [none]
    exact List.nodup_nil
  · exact same ▸ unique fsId stored found

theorem allNamesUnique_insert (unique : AllNamesUnique store) {object : FsObject Oid}
    (added : ∀ data, object = .dir data → NamesNodup data.dirents) :
    AllNamesUnique (store.insertOrIgnore fsId object) := by
  intro other data found
  unfold dirBatch at found
  split at found
  · simp at found
  · rename_i nonempty
    split at found
    · rename_i present
      cases found
      rcases Table.find_insertOrIgnore_cases present with before | ⟨-, same⟩
      · apply unique other data
        rw [dirBatch, if_neg nonempty, before]
      · exact added data same.symm
    · simp at found

theorem allNamesUnique_storeDir (unique : AllNamesUnique store) (nodup : NamesNodup data.dirents) :
    AllNamesUnique (storeFsDirObject store data).2 := by
  unfold storeFsDirObject
  split
  · exact unique
  · apply allNamesUnique_insert unique
    intro written same
    cases same
    have names : (((sortDirentsDesc data.dirents).map DirEntryData.written).map
        DirEntryData.name).Perm (data.dirents.map DirEntryData.name) := by
      rw [List.map_map]
      simpa [Function.comp_def] using (sortDirentsDesc_perm data.dirents).map DirEntryData.name
    exact names.nodup_iff.mpr nodup

theorem allNamesUnique_storeFile (unique : AllNamesUnique store) (data : FsFileData Oid) :
    AllNamesUnique (storeFsFileObject store data).2 := by
  unfold storeFsFileObject
  split
  · exact unique
  · apply allNamesUnique_insert unique
    intro dir same
    cases same

def WebState.Unique (state : WebState Oid) : Prop := AllNamesUnique state.repo.fsObjects

theorem unique_storeDir (nodup : NamesNodup data.dirents) :
    Proc.Keeps WebState.Unique (Web.storeDir data) :=
  fun _ unique => allNamesUnique_storeDir unique nodup

theorem unique_storeFile (data : FsFileData Oid) :
    Proc.Keeps WebState.Unique (Web.storeFile data) :=
  fun _ unique => allNamesUnique_storeFile unique data

theorem unique_now : Proc.Keeps WebState.Unique (Web.now : Web Oid Int) :=
  fun _ unique => unique

variable [ToString Oid]

theorem unique_rebuildAbove (rootOverride : Option Oid) (chain : AncestorChain Oid)
    (path : String) (fsId : Oid) :
    Proc.Keeps WebState.Unique (rebuildAbove rootOverride chain path fsId) := by
  refine keeps_rebuildAbove unique_now ?_ rootOverride chain path fsId
  intro state ancestor data unique read time name child
  exact allNamesUnique_storeDir unique (namesNodup_setChild (AllNamesUnique.read unique read))

variable {chain : AncestorChain Oid} {parentFsId : Oid} {parentPath : String}
  {updateFn : List (DirEntryData Oid) → List (DirEntryData Oid)}
    {P : WebState Oid → Prop} {rootOverride : Option Oid}

/-- The edit is applied to what its parent reads as, so what was read of the parent
before may be used. -/
theorem unique_applyTreeUpdate (stronger : ∀ state, P state → state.Unique)
    (edit : ∀ state data, P state → readFsDirData state.repo.fsObjects parentFsId = .ok data →
      NamesNodup (updateFn data.dirents)) :
    Proc.Ensures WebState.Unique P
      (applyTreeUpdate parentPath parentFsId chain rootOverride updateFn)
      fun _ => WebState.Unique := by
  refine ensures_bind_fact (ensures_tryRead stronger fun state data holds read =>
    ⟨stronger state holds, edit state data holds read⟩) fun data nodup => ?_
  exact keeps_bind (unique_storeDir nodup) fun newParent =>
    unique_rebuildAbove rootOverride chain parentPath newParent

theorem unique_editTree (edit : ∀ entries, NamesNodup entries → NamesNodup (updateFn entries)) :
    Proc.Keeps WebState.Unique
      (applyTreeUpdate parentPath parentFsId chain rootOverride updateFn) :=
  (unique_applyTreeUpdate (fun _ unique => unique) fun _ _ unique read =>
    edit _ (AllNamesUnique.read unique read)).keeps

section

omit [ToString Oid]

theorem commitRoot_fsObjects (change : String) (rootId : Oid) (creatorName description : String)
    (ctime : Int) (state : WebState Oid) :
    (commitRoot change rootId creatorName description ctime state).2.repo.fsObjects =
      state.repo.fsObjects := by
  unfold commitRoot
  dsimp only
  split
  · rfl
  · split
    · rfl
    · unfold testAndUpdateHeadCommit
      split <;> rename_i moved <;> split at moved <;> cases moved <;> rfl

theorem unique_commitRoot (change : String) (rootId : Oid) (creatorName description : String)
    (ctime : Int) :
    Proc.Keeps WebState.Unique (commitRoot change rootId creatorName description ctime) :=
  keeps_of_same (fun state : WebState Oid => state.repo.fsObjects)
    (commitRoot_fsObjects change rootId creatorName description ctime)

theorem unique_createCommit (rootId : Oid) (creatorName description : String) :
    Proc.Keeps WebState.Unique (createCommit rootId creatorName description) :=
  keeps_bind unique_now fun ctime =>
    unique_commitRoot "change" rootId creatorName description ctime

end

variable {description : String}

theorem unique_updateDirTreeAndCommit (stronger : ∀ state, P state → state.Unique)
    (edit : ∀ state data, P state → readFsDirData state.repo.fsObjects parentFsId = .ok data →
      NamesNodup (updateFn data.dirents)) :
    Proc.Ensures WebState.Unique P
      (updateDirTreeAndCommit parentPath parentFsId modifier description chain updateFn)
      fun _ => WebState.Unique :=
  ensures_bind (unique_applyTreeUpdate stronger edit) fun root =>
    Proc.Keeps.ensures (keeps_bind (unique_createCommit root modifier description) fun _ =>
      keeps_pure _ root) fun _ unique => unique

theorem unique_editAndCommit
    (edit : ∀ entries, NamesNodup entries → NamesNodup (updateFn entries)) :
    Proc.Keeps WebState.Unique
      (updateDirTreeAndCommit parentPath parentFsId modifier description chain updateFn) :=
  (unique_updateDirTreeAndCommit (fun _ unique => unique) fun _ _ unique read =>
    edit _ (AllNamesUnique.read unique read)).keeps

theorem unique_createParent (missingHead context parentPath : String) :
    Proc.Keeps WebState.Unique (createParent missingHead context parentPath : Web Oid Oid) := by
  refine keeps_bind (keeps_tryRead _ _) fun headRoot => ?_
  split
  · exact keeps_pure _ _
  · exact keeps_bind (keeps_tryRead _ _) fun _ =>
      keeps_mapFailure (keeps_tryRead _ _)

theorem unique_resolveParent (context path : String) :
    Proc.Keeps WebState.Unique (resolveParent context path : Web Oid Oid) :=
  keeps_bind (keeps_tryRead _ _) fun _ =>
    keeps_mapFailure (keeps_tryRead _ _)

theorem unique_createDirByPath (path email : String) :
    Proc.Keeps WebState.Unique (createDirByPath path email : Web Oid Unit) := by
  refine keeps_bind (keeps_tryRead _ _) fun parts => ?_
  refine keeps_bind (keeps_tryRead _ _) fun _ => ?_
  refine keeps_bind unique_now fun time => ?_
  refine keeps_bind (unique_createParent _ _ _) fun parentFsId => ?_
  refine keeps_bind (unique_editAndCommit ?_) fun _ => keeps_pure _ _
  exact fun entries unique => namesNodup_pushUnlessNamed unique _

theorem unique_createEmptyFile (path email : String) :
    Proc.Keeps WebState.Unique (createEmptyFile path email : Web Oid (Oid × Int)) := by
  unfold createEmptyFile
  dsimp only
  generalize (if (Text.rsplitOnce '/' path).isSome then basename path else path) = fileName
  split
  · exact keeps_fail _ _
  · refine keeps_bind unique_now fun mtime => ?_
    refine keeps_bind (unique_storeFile _) fun fileFsId => ?_
    refine keeps_bind (unique_createParent _ _ _) fun parentFsId => ?_
    refine keeps_bind (keeps_mapFailure (unique_editAndCommit ?_)) fun _ =>
      keeps_pure _ _
    exact fun entries unique => namesNodup_pushUnlessNamed unique _

theorem unique_createFileFromBlocks (parentPath name : String) (blockIds : List Oid)
    (totalSize : Int) (modifier : String) (replace : Bool) :
    Proc.Keeps WebState.Unique
      (createFileFromBlocks parentPath name blockIds totalSize modifier replace) := by
  refine keeps_bind unique_now fun time => ?_
  refine keeps_bind (unique_storeFile _) fun fileFsId => ?_
  refine keeps_bind (keeps_tryRead _ _) fun parent => ?_
  refine (ensures_bind_fact (ensures_tryRead (fun _ unique => unique)
    fun state data unique read => ⟨unique, AllNamesUnique.read unique read⟩)
    fun data nodup => ?_).keeps
  refine keeps_bind (unique_storeDir (namesNodup_addFile nodup)) fun newDir => ?_
  refine keeps_bind (unique_rebuildAbove _ _ _ _) fun root => ?_
  exact keeps_bind (unique_commitRoot _ _ _ _ _) fun _ => keeps_pure _ _

end Nanofile
