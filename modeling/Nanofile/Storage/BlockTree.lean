import Nanofile.Lib.Table

/-!
# Block files under the block root

Every repository has a directory and every block is a file in the directory of its repository.
-/

set_option autoImplicit false

namespace Nanofile

structure BlockFile where
  repoId : String
  id : String
  data : List UInt8
deriving DecidableEq, Repr

namespace BlockTree

variable {files : List BlockFile} {repoId id : String}

def isAt (repoId id : String) (file : BlockFile) : Bool := file.repoId = repoId && file.id = id

def findBlock (files : List BlockFile) (repoId id : String) : Option BlockFile :=
  files.find? (isAt repoId id)

def unlink (files : List BlockFile) (repoId id : String) : List BlockFile :=
  files.filter fun file => !isAt repoId id file

/-- A file at its path, in place of one that is there. -/
def put (files : List BlockFile) (file : BlockFile) : List BlockFile :=
  unlink files file.repoId file.id ++ [file]

def HasBlock (files : List BlockFile) (repoId id : String) : Prop :=
  (findBlock files repoId id).isSome = true

instance (files : List BlockFile) (repoId id : String) : Decidable (HasBlock files repoId id) :=
  inferInstanceAs (Decidable (_ = true))

theorem isAt_iff {file : BlockFile} :
    isAt repoId id file = true ↔ file.repoId = repoId ∧ file.id = id := by
  simp [isAt]

theorem findBlock_unlink_of_ne {repoId' id' : String} (apart : repoId' ≠ repoId ∨ id' ≠ id) :
    findBlock (unlink files repoId id) repoId' id' = findBlock files repoId' id' := by
  refine Lib.find?_filter_not files fun file here => ?_
  obtain ⟨rfl, rfl⟩ := isAt_iff.mp here
  rw [Bool.eq_false_iff]
  intro there
  obtain ⟨sameRepo, sameId⟩ := isAt_iff.mp there
  rcases apart with other | other
  · exact other sameRepo
  · exact other sameId

theorem findBlock_unlink_self : findBlock (unlink files repoId id) repoId id = none := by
  refine List.find?_eq_none.mpr fun file listed here => ?_
  have gone := (List.mem_filter.mp listed).2
  simp [here] at gone

theorem findBlock_put_self (file : BlockFile) :
    findBlock (put files file) file.repoId file.id = some file := by
  have absent : findBlock (unlink files file.repoId file.id) file.repoId file.id = none :=
    findBlock_unlink_self
  unfold findBlock at absent ⊢
  rw [put, List.find?_append, absent]
  simp [isAt]

theorem findBlock_put_of_ne {file : BlockFile} (apart : repoId ≠ file.repoId ∨ id ≠ file.id) :
    findBlock (put files file) repoId id = findBlock files repoId id := by
  have notHere : isAt repoId id file = false := by
    rw [Bool.eq_false_iff]
    intro here
    obtain ⟨rfl, rfl⟩ := isAt_iff.mp here
    simp at apart
  have unlinked := @findBlock_unlink_of_ne files _ _ _ _ apart
  unfold findBlock at unlinked ⊢
  rw [put, List.find?_append, unlinked]
  simp [notHere]

theorem findBlock_put (files : List BlockFile) (file : BlockFile) (repoId id : String) :
    findBlock (put files file) repoId id =
      if repoId = file.repoId ∧ id = file.id then some file else findBlock files repoId id := by
  split
  · rename_i here
    rw [here.1, here.2, findBlock_put_self]
  · rename_i apart
    exact findBlock_put_of_ne (not_and_or.mp apart)

theorem HasBlock.put (has : HasBlock files repoId id) (file : BlockFile) :
    HasBlock (put files file) repoId id := by
  rw [HasBlock, findBlock_put]
  split
  · rfl
  · exact has

theorem hasBlock_put_self (file : BlockFile) :
    HasBlock (BlockTree.put files file) file.repoId file.id := by
  rw [HasBlock, findBlock_put_self]
  rfl

end BlockTree

end Nanofile
