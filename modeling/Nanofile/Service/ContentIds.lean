import Mathlib.Data.List.Pairwise
import Nanofile.Service.LibraryOwners
import Nanofile.Service.LibraryRestore

/-!
# Primary keys of the content tables

Rows keep their primary key when they are archived and copied back, and a new row takes one that
was never given out.  So a copy replaces rows of its own library only.
-/

set_option autoImplicit false

namespace Nanofile

theorem ContentRow.Conflicts.symm {Columns : Type} {row other : ContentRow Columns}
    (conflict : row.Conflicts other) : other.Conflicts row :=
  conflict.imp Eq.symm fun same => ⟨same.1.symm, same.2.symm⟩

namespace ContentTable

variable {Columns : Type} {table table' source : ContentTable Columns} {repoId id : String}
    {row : ContentRow Columns} {other : ContentRow Columns}

theorem eq_of_id (listed : row ∈ table.rows)
    (listed' : other ∈ table.rows) (same : row.id = other.id) : row = other := by
  by_contra apart
  have symm : Std.Symm fun row other : ContentRow Columns => ¬ row.Conflicts other :=
    ⟨fun _ _ clear conflict => clear conflict.symm⟩
  exact table.unique.forall listed listed' apart (Or.inl same)

theorem mem_insertOrReplace
    (listed : other ∈ (table.insertOrReplace row).rows) : other ∈ table.rows ∨ other = row := by
  rcases List.mem_append.mp listed with old | new
  · exact Or.inl (List.mem_filter.mp old).1
  · exact Or.inr (List.mem_singleton.mp new)

theorem mem_copyRepo (listed : row ∈ (table.copyRepo source repoId).rows) :
    row ∈ table.rows ∨ row ∈ source.ofRepo repoId := by
  revert listed
  refine List.foldlRecOn (motive := fun copied : ContentTable Columns => row ∈ copied.rows →
    row ∈ table.rows ∨ row ∈ source.ofRepo repoId) _ _ Or.inl ?_
  intro copied ih other isSource listed
  rcases mem_insertOrReplace listed with old | rfl
  · exact ih old
  · exact Or.inr isSource

/-- Rows with one primary key are of one object. -/
def IdsAgree (table source : ContentTable Columns) : Prop :=
  ∀ row ∈ table.rows, ∀ other ∈ source.rows, row.id = other.id →
    row.repoId = other.repoId ∧ row.objectId = other.objectId

theorem IdsAgree.refl (table : ContentTable Columns) : IdsAgree table table := by
  intro row listed other listed' same
  rw [eq_of_id listed listed' same]
  exact ⟨rfl, rfl⟩

theorem IdsAgree.symm (agree : IdsAgree table source) : IdsAgree source table :=
  fun row listed other listed' same =>
    (agree other listed' row listed same.symm).imp Eq.symm Eq.symm

theorem IdsAgree.of_mem {second : ContentTable Columns} (agree : IdsAgree table source)
    (agree' : IdsAgree second source)
    (comes : ∀ row ∈ table'.rows, row ∈ table.rows ∨ row ∈ second.rows) :
    IdsAgree table' source := by
  intro row listed other listed' same
  rcases comes row listed with first | second
  · exact agree row first other listed' same
  · exact agree' row second other listed' same

theorem IdsAgree.copyRepo (agree : IdsAgree table source) :
    IdsAgree (table.copyRepo source repoId) source :=
  agree.of_mem (.refl source) fun _ listed =>
    (mem_copyRepo listed).imp_right fun isSource => (mem_ofRepo.mp isSource).1

theorem IdsAgree.deleteRepo (agree : IdsAgree table source) :
    IdsAgree (table.deleteRepo repoId) source :=
  fun row listed => agree row (List.mem_filter.mp listed).1

theorem ofRepo_insertOrReplace_of_ne
    (ids : ∀ other ∈ table.rows, other.id = row.id → other.repoId = row.repoId)
    (apart : repoId ≠ row.repoId) :
    (table.insertOrReplace row).ofRepo repoId = table.ofRepo repoId := by
  have kept : ∀ other ∈ table.rows, (decide (other.repoId = repoId) &&
      decide (¬ other.Conflicts row)) = decide (other.repoId = repoId) := by
    intro other listed
    by_cases same : other.repoId = repoId
    · have clear : ¬ other.Conflicts row := by
        rintro (sameId | sameKey)
        · exact apart (same.symm.trans (ids other listed sameId))
        · exact apart (same.symm.trans sameKey.1)
      simp [same, clear]
    · simp [same]
  unfold insertOrReplace ofRepo
  rw [List.filter_append, List.filter_filter, List.filter_congr kept]
  simp [Ne.symm apart]

theorem isSome_find_iff : (table.find repoId id).isSome = true ↔
    ∃ row ∈ table.rows, row.repoId = repoId ∧ row.objectId = id := by
  unfold find
  rw [List.find?_isSome]
  simp

theorem isSome_find_insertOrReplace (ids : ∀ other ∈ table.rows, other.id = row.id →
      other.repoId = row.repoId ∧ other.objectId = row.objectId)
    (present : (table.find repoId id).isSome = true) :
    ((table.insertOrReplace row).find repoId id).isSome = true := by
  obtain ⟨other, listed, isRepo, isObject⟩ := isSome_find_iff.mp present
  refine isSome_find_iff.mpr ?_
  by_cases conflict : other.Conflicts row
  · have same : other.repoId = row.repoId ∧ other.objectId = row.objectId :=
      conflict.elim (ids other listed) fun same => same
    exact ⟨row, List.mem_append_right _ (List.mem_singleton_self row),
      same.1.symm.trans isRepo, same.2.symm.trans isObject⟩
  · exact ⟨other, List.mem_append_left _ (List.mem_filter.mpr ⟨listed, decide_eq_true conflict⟩),
      isRepo, isObject⟩

theorem copyRepo_induction {P : ContentTable Columns → Prop} (agree : IdsAgree table source)
    (start : P table)
    (copies : ∀ copied row, IdsAgree copied source → row ∈ source.ofRepo repoId → P copied →
      P (copied.insertOrReplace row)) : P (table.copyRepo source repoId) := by
  refine (List.foldlRecOn (motive := fun copied : ContentTable Columns =>
    IdsAgree copied source ∧ P copied) _ _ ⟨agree, start⟩ ?_).2
  intro copied ih row isSource
  refine ⟨?_, copies copied row ih.1 isSource ih.2⟩
  refine ih.1.of_mem (.refl source) fun other listed => ?_
  rcases mem_insertOrReplace listed with old | rfl
  · exact Or.inl old
  · exact Or.inr (mem_ofRepo.mp isSource).1

variable {other : String}

theorem ofRepo_copyRepo_of_ne (agree : IdsAgree table source) (apart : other ≠ repoId) :
    (table.copyRepo source repoId).ofRepo other = table.ofRepo other := by
  refine copyRepo_induction (P := fun copied => copied.ofRepo other = table.ofRepo other) agree rfl
    fun copied row agrees isSource same => ?_
  obtain ⟨listed, isRepo⟩ := mem_ofRepo.mp isSource
  rw [ofRepo_insertOrReplace_of_ne (fun row' listed' sameId =>
    (agrees row' listed' row listed sameId).1) (by rwa [isRepo]), same]

theorem isSome_find_copyRepo (agree : IdsAgree table source)
    (present : (table.find other id).isSome = true) :
    ((table.copyRepo source repoId).find other id).isSome = true :=
  copyRepo_induction (P := fun copied => (copied.find other id).isSome = true) agree present
    fun _ row agrees isSource present => isSome_find_insertOrReplace (fun row' listed' =>
      agrees row' listed' row (mem_ofRepo.mp isSource).1) present

theorem ofRepo_deleteRepo_of_ne (apart : other ≠ repoId) :
    (table.deleteRepo repoId).ofRepo other = table.ofRepo other := by
  unfold ofRepo deleteRepo
  rw [List.filter_filter]
  refine List.filter_congr fun row _ => ?_
  by_cases same : row.repoId = other
  · simp [same, apart]
  · simp [same]

theorem insert_some (inserted : table.insert row = some table') :
    table'.rows = table.rows ++ [row] := by
  unfold insert at inserted
  split at inserted
  · cases inserted
    rfl
  · cases inserted

theorem ofRepo_insert_of_ne (inserted : table.insert row = some table')
    (apart : repoId ≠ row.repoId) : table'.ofRepo repoId = table.ofRepo repoId := by
  unfold ofRepo
  rw [insert_some inserted, List.filter_append]
  simp [Ne.symm apart]

theorem isSome_find_insert (inserted : table.insert row = some table')
    (present : (table.find repoId id).isSome = true) : (table'.find repoId id).isSome = true := by
  obtain ⟨other, listed, isObject⟩ := isSome_find_iff.mp present
  refine isSome_find_iff.mpr ⟨other, ?_, isObject⟩
  rw [insert_some inserted]
  exact List.mem_append_left _ listed

theorem isSome_find_insert_self (inserted : table.insert row = some table') :
    (table'.find row.repoId row.objectId).isSome = true := by
  refine isSome_find_iff.mpr ⟨row, ?_, rfl, rfl⟩
  rw [insert_some inserted]
  exact List.mem_append_right _ (List.mem_singleton_self row)

/-- The keys agree, and the next one is new. -/
structure IdsKept (table archive : ContentTable Columns) (next : Nat) : Prop where
  agree : IdsAgree table archive
  live : ∀ row ∈ table.rows, row.id < next
  archived : ∀ row ∈ archive.rows, row.id < next

variable {archive : ContentTable Columns} {next : Nat}

theorem idsKept_empty : IdsKept (empty : ContentTable Columns) empty next :=
  ⟨.refl _, fun _ listed => absurd listed List.not_mem_nil,
    fun _ listed => absurd listed List.not_mem_nil⟩

theorem IdsKept.copyFrom (ids : IdsKept table archive next) :
    IdsKept (table.copyRepo archive repoId) archive next := by
  refine ⟨ids.agree.copyRepo, fun row listed => ?_, ids.archived⟩
  rcases mem_copyRepo listed with old | copied
  · exact ids.live row old
  · exact ids.archived row (mem_ofRepo.mp copied).1

theorem IdsKept.dropArchive (ids : IdsKept table archive next) :
    IdsKept table (archive.deleteRepo repoId) next :=
  ⟨ids.agree.symm.deleteRepo.symm, ids.live, fun row listed =>
    ids.archived row (List.mem_filter.mp listed).1⟩

theorem IdsKept.toArchive (ids : IdsKept table archive next) :
    IdsKept (table.deleteRepo repoId) ((archive.deleteRepo repoId).copyRepo table repoId) next := by
  have dropped : IdsAgree (archive.deleteRepo repoId) table := ids.agree.symm.deleteRepo
  refine ⟨dropped.copyRepo.symm.deleteRepo, fun row listed =>
    ids.live row (List.mem_filter.mp listed).1, fun row listed => ?_⟩
  rcases mem_copyRepo listed with old | copied
  · exact ids.archived row (List.mem_filter.mp old).1
  · exact ids.live row (mem_ofRepo.mp copied).1

theorem IdsKept.insert (ids : IdsKept table archive next) (isNext : row.id = next)
    (inserted : table.insert row = some table') :
    IdsKept table' archive (next + 1) := by
  have rows := insert_some inserted
  refine ⟨fun row' listed other listed' same => ?_, fun row' listed => ?_, fun other listed =>
    (ids.archived other listed).trans (Nat.lt_succ_self next)⟩
  · rw [rows] at listed
    rcases List.mem_append.mp listed with old | new
    · exact ids.agree row' old other listed' same
    · rw [List.mem_singleton.mp new, isNext] at same
      have below := ids.archived other listed'
      omega
  · rw [rows] at listed
    rcases List.mem_append.mp listed with old | new
    · have below := ids.live row' old
      omega
    · rw [List.mem_singleton.mp new, isNext]
      omega

end ContentTable

end Nanofile
