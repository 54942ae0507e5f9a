import Nanofile.Fs.TreeDiff

/-!
# Replaying a diff on the search index

`update_branch` keeps the full-text index in step by replaying the changes of a
commit: those of files first, then those of directories.  The index is modelled by
what it is keyed by, the map from file paths to object ids.
-/

set_option autoImplicit false

namespace Nanofile

variable {Oid : Type}

abbrev FileIndex (Oid : Type) := TreePath → Option Oid

/-- The order in which file changes reach the index: deletes are made at once, the
others go out as one batch. -/
def fileSteps (changes : List (FsChange Oid)) : List (FsChange Oid) :=
  (changes.filter fun change => change.opType = .delete) ++
    changes.filter fun change => change.opType ≠ .delete

def indexFileChange (index : FileIndex Oid) (change : FsChange Oid) : FileIndex Oid :=
  if change.objType = .file then
    match change.opType with
    | .delete => Function.update index change.path none
    | .create | .edit | .rename | .move =>
      Function.update index change.path (some change.objId)
  else index

/-- `reindex_dir_change`: the files below the new path are scheduled; the old files
below the old path are dropped, except those just scheduled. -/
def reindexDirChange (oldFiles newFiles : FileIndex Oid) (oldPath newPath : Option TreePath)
    (index : FileIndex Oid) : FileIndex Oid := fun path =>
  if newPath.any (fun dir => isBelow dir path) && (newFiles path).isSome then newFiles path
  else if oldPath.any (fun dir => isBelow dir path) && (oldFiles path).isSome then none
  else index path

/-- The old and the new path of a directory change that concerns files. -/
def dirPaths (change : FsChange Oid) : Option (Option TreePath × Option TreePath) :=
  match change.opType, change.oldPath with
  | .rename, some oldPath | .move, some oldPath => some (some oldPath, some change.path)
  | .delete, _ => some (some change.path, none)
  | _, _ => none

def indexDirChange (oldFiles newFiles : FileIndex Oid) (index : FileIndex Oid)
    (change : FsChange Oid) : FileIndex Oid :=
  if change.objType = .dir then
    match dirPaths change with
    | some (oldPath, newPath) => reindexDirChange oldFiles newFiles oldPath newPath index
    | none => index
  else index

def replay (oldFiles newFiles : FileIndex Oid) (changes : List (FsChange Oid)) :
    FileIndex Oid :=
  changes.foldl (indexDirChange oldFiles newFiles)
    ((fileSteps changes).foldl indexFileChange oldFiles)

/-- A directory change with these paths sets or drops the path. -/
def touches (oldFiles newFiles : FileIndex Oid) (oldPath newPath : Option TreePath)
    (path : TreePath) : Bool :=
  (newPath.any (fun dir => isBelow dir path) && (newFiles path).isSome) ||
    (oldPath.any (fun dir => isBelow dir path) && (oldFiles path).isSome)

/-- The change sets or drops this path. -/
def Hits (oldFiles newFiles : FileIndex Oid) (change : FsChange Oid) (path : TreePath) :
    Prop :=
  (change.objType = .file ∧ change.path = path) ∨
  (change.objType = .dir ∧ ∃ oldPath newPath, dirPaths change = some (oldPath, newPath) ∧
    touches oldFiles newFiles oldPath newPath path = true)

/-- What the change says is so in the new tree. -/
structure Truthful (newFiles : FileIndex Oid) (change : FsChange Oid) : Prop where
  file : change.objType = .file →
    newFiles change.path = if change.opType = .delete then none else some change.objId
  gone : ∀ oldPath newPath, change.objType = .dir →
    dirPaths change = some (some oldPath, newPath) →
    ∀ path, isBelow oldPath path = true → newFiles path = none

variable {oldFiles newFiles : FileIndex Oid} {change : FsChange Oid}

theorem indexFileChange_at (truthful : Truthful newFiles change) (index : FileIndex Oid)
    (path : TreePath) : indexFileChange index change path =
      if change.objType = .file ∧ change.path = path then newFiles path else index path := by
  unfold indexFileChange
  by_cases file : change.objType = .file
  · have value := truthful.file file
    simp only [file, if_true, true_and]
    by_cases here : change.path = path
    · subst here
      rw [if_pos rfl, value]
      cases change.opType <;> simp
    · rw [if_neg here]
      cases change.opType <;> simp [Function.update_of_ne (Ne.symm here)]
  · simp [file]

theorem reindexDirChange_at {oldPath newPath : Option TreePath}
    (gone : ∀ dir, oldPath = some dir → ∀ path, isBelow dir path = true → newFiles path = none)
    (index : FileIndex Oid) (path : TreePath) :
    reindexDirChange oldFiles newFiles oldPath newPath index path =
      if touches oldFiles newFiles oldPath newPath path then newFiles path else index path := by
  unfold reindexDirChange touches
  cases scheduled : (newPath.any (fun dir => isBelow dir path) && (newFiles path).isSome) with
  | true => simp
  | false =>
    cases stale : (oldPath.any (fun dir => isBelow dir path) && (oldFiles path).isSome) with
    | false => simp
    | true =>
      rw [Bool.and_eq_true] at stale
      cases isDir : oldPath with
      | none => simp [isDir] at stale
      | some dir =>
        have absent := gone dir isDir path (by simpa [isDir] using stale.1)
        simp [absent]

variable {path : TreePath}

/-- A truthful directory change gives the paths it hits their new value and leaves the
others. -/
theorem indexDirChange_hit (truthful : Truthful newFiles change) (index : FileIndex Oid)
    (directory : change.objType = .dir) (hits : Hits oldFiles newFiles change path) :
    indexDirChange oldFiles newFiles index change path = newFiles path := by
  rcases hits with ⟨file, -⟩ | ⟨-, oldPath, newPath, isDirPaths, touched⟩
  · rw [directory] at file
    simp at file
  · rw [indexDirChange, if_pos directory, isDirPaths]
    dsimp only
    rw [reindexDirChange_at, if_pos touched]
    rintro dir rfl
    exact truthful.gone dir newPath directory isDirPaths

theorem indexDirChange_miss (truthful : Truthful newFiles change) (index : FileIndex Oid)
    (misses : change.objType = .dir → ¬ Hits oldFiles newFiles change path) :
    indexDirChange oldFiles newFiles index change path = index path := by
  unfold indexDirChange
  split
  · rename_i directory
    cases isDirPaths : dirPaths change with
    | none => rfl
    | some paths =>
      obtain ⟨oldPath, newPath⟩ := paths
      dsimp only
      have untouched : touches oldFiles newFiles oldPath newPath path ≠ true := by
        intro touched
        exact misses directory (Or.inr ⟨directory, oldPath, newPath, isDirPaths, touched⟩)
      rw [reindexDirChange_at, if_neg untouched]
      rintro dir rfl
      exact truthful.gone dir newPath directory isDirPaths
  · rfl

variable {changes : List (FsChange Oid)}

theorem mem_fileSteps : change ∈ fileSteps changes ↔ change ∈ changes := by
  by_cases isDelete : change.opType = .delete <;> simp [fileSteps, isDelete]

theorem foldl_settles {Step : Type} (apply : FileIndex Oid → Step → FileIndex Oid)
    (hit : Step → Prop) (path : TreePath) (value : Option Oid) :
    ∀ (steps : List Step) (index : FileIndex Oid),
      (∀ step ∈ steps, ∀ index : FileIndex Oid,
        (hit step → apply index step path = value) ∧
          (¬ hit step → apply index step path = index path)) →
      (steps.foldl apply index path = value ∧ (index path = value ∨ ∃ step ∈ steps, hit step)) ∨
        (steps.foldl apply index path = index path ∧ ∀ step ∈ steps, ¬ hit step) := by
  intro steps
  induction steps with
  | nil =>
    intro index _
    exact Or.inr ⟨rfl, by simp⟩
  | cons step steps ih =>
    intro index settles
    obtain ⟨sets, keeps⟩ := settles step List.mem_cons_self index
    have rest := ih (apply index step)
      (fun other member => settles other (List.mem_cons_of_mem _ member))
    rw [List.foldl_cons]
    by_cases hits : hit step
    · have here : ∃ other ∈ step :: steps, hit other := ⟨step, List.mem_cons_self, hits⟩
      rcases rest with ⟨final, -⟩ | ⟨final, -⟩
      · exact Or.inl ⟨final, Or.inr here⟩
      · exact Or.inl ⟨final.trans (sets hits), Or.inr here⟩
    · have kept := keeps hits
      rcases rest with ⟨final, before | ⟨other, member, hitsOther⟩⟩ | ⟨final, misses⟩
      · exact Or.inl ⟨final, Or.inl (kept.symm.trans before)⟩
      · exact Or.inl ⟨final, Or.inr ⟨other, List.mem_cons_of_mem _ member, hitsOther⟩⟩
      · refine Or.inr ⟨final.trans kept, ?_⟩
        intro other member
        rcases List.mem_cons.mp member with rfl | member
        · exact hits
        · exact misses other member

/-- A replay of truthful changes is right at a path exactly when the path did not
change or some change hits it. -/
theorem replay_at (truthful : ∀ change ∈ changes, Truthful newFiles change) (path : TreePath) :
    replay oldFiles newFiles changes path = newFiles path ↔
      oldFiles path = newFiles path ∨ ∃ change ∈ changes, Hits oldFiles newFiles change path := by
  have files := foldl_settles indexFileChange
    (fun change => change.objType = .file ∧ change.path = path) path (newFiles path)
    (fileSteps changes) oldFiles (by
      intro change member index
      have member := mem_fileSteps.mp member
      have value := indexFileChange_at (truthful change member) index path
      exact ⟨fun hits => value.trans (if_pos hits), fun misses => value.trans (if_neg misses)⟩)
  have dirs := foldl_settles (indexDirChange oldFiles newFiles)
    (fun change => change.objType = .dir ∧ Hits oldFiles newFiles change path) path
    (newFiles path) changes ((fileSteps changes).foldl indexFileChange oldFiles) (by
      intro change member index
      refine ⟨fun hits => indexDirChange_hit (truthful change member) index hits.1 hits.2,
        fun misses => indexDirChange_miss (truthful change member) index ?_⟩
      exact fun directory hits => misses ⟨directory, hits⟩)
  constructor
  · intro isExact
    rcases dirs with ⟨-, settled | ⟨change, member, -, hits⟩⟩ | ⟨final, -⟩
    · rcases files with ⟨-, same | ⟨change, member, hits⟩⟩ | ⟨unchanged, -⟩
      · exact Or.inl same
      · exact Or.inr ⟨change, mem_fileSteps.mp member, Or.inl hits⟩
      · exact Or.inl (unchanged.symm.trans settled)
    · exact Or.inr ⟨change, member, hits⟩
    · have settled : (fileSteps changes).foldl indexFileChange oldFiles path = newFiles path :=
        final.symm.trans isExact
      rcases files with ⟨-, same | ⟨change, member, hits⟩⟩ | ⟨unchanged, -⟩
      · exact Or.inl same
      · exact Or.inr ⟨change, mem_fileSteps.mp member, Or.inl hits⟩
      · exact Or.inl (unchanged.symm.trans settled)
  · intro covered
    rcases dirs with ⟨final, -⟩ | ⟨final, noDir⟩
    · exact final
    · refine final.trans ?_
      rcases files with ⟨settled, -⟩ | ⟨unchanged, noFile⟩
      · exact settled
      · rcases covered with same | ⟨change, member, hits⟩
        · exact unchanged.trans same
        · rcases hits with file | directory
          · exact absurd file (noFile change (mem_fileSteps.mpr member))
          · exact absurd ⟨directory.1, Or.inr directory⟩ (noDir change member)

end Nanofile
