import Nanofile.Fs.DiffDropped
import Nanofile.Service.ReplayExact

/-!
# Renames of a tree diff

The pairing pass gives each created entry the last dropped one of its id that is left.
What that says of kinds, of old paths and of superseded deletes, and for which trees it
is consistent.
-/

set_option autoImplicit false

namespace Nanofile

variable {Oid : Type} [DecidableEq Oid] [Digests Oid]

def ofObject (items : List (PathEntry Oid)) (objId : Oid) : List (PathEntry Oid) :=
  items.filter fun item => item.2.id = objId

/-- The created entries of an id beside the dropped ones they are paired with: the first
created one takes the last dropped one. -/
def pairsOf (deleted : Oid → List (PathEntry Oid)) (created : List (PathEntry Oid))
    (objId : Oid) : List (PathEntry Oid × PathEntry Oid) :=
  (ofObject created objId).zip (deleted objId).reverse

def unpaired (deleted : Oid → List (PathEntry Oid)) (created : List (PathEntry Oid))
    (objId : Oid) : List (PathEntry Oid) :=
  (deleted objId).reverse.drop (ofObject created objId).length

/-- The dropped and the created entries of two trees whose renames are consistent: what
is paired is of one kind, and where an id is created but not often enough for all that
is dropped of it, the rest lies below a renamed directory. -/
structure RenamesApart (dropped created : List (PathEntry Oid)) : Prop where
  kinds : ∀ objId, ∀ pair ∈ pairsOf (ofObject dropped) created objId,
    objTypeOf pair.1.2.mode = objTypeOf pair.2.2.mode
  covered : ∀ objId, ofObject created objId ≠ [] →
    ∀ gone ∈ unpaired (ofObject dropped) created objId,
      ∃ other, ∃ pair ∈ pairsOf (ofObject dropped) created other,
        hasDirBit pair.1.2.mode = true ∧ isBelow pair.2.1 gone.1 = true

theorem exists_mem_zip {First Second : Type} {second : Second} :
    ∀ {firsts : List First} {seconds : List Second},
      (∃ first, (first, second) ∈ firsts.zip seconds) ↔ second ∈ seconds.take firsts.length := by
  intro firsts
  induction firsts with
  | nil => simp
  | cons first firsts ih =>
    intro seconds
    cases seconds with
    | nil => simp
    | cons other seconds =>
      simp only [List.zip_cons_cons, List.mem_cons, Prod.mk.injEq, List.length_cons,
        List.take_succ_cons, ← ih]
      constructor
      · rintro ⟨found, ⟨-, same⟩ | inside⟩
        · exact Or.inl same
        · exact Or.inr ⟨found, inside⟩
      · rintro (same | ⟨found, inside⟩)
        · exact ⟨first, Or.inl ⟨rfl, same⟩⟩
        · exact ⟨found, Or.inr inside⟩

variable {objId : Oid} {gone : PathEntry Oid} {change : FsChange Oid}

section Pairing

variable {deleted : Oid → List (PathEntry Oid)} {item : PathEntry Oid}
  {created : List (PathEntry Oid)}

section

omit [Digests Oid]

theorem pairsOf_cons_of_ne (differ : objId ≠ item.2.id) :
    pairsOf deleted (item :: created) objId =
      pairsOf (popped deleted item.2.id) created objId := by
  have skipped : ofObject (item :: created) objId = ofObject created objId :=
    List.filter_cons_of_neg (by simpa using Ne.symm differ)
  rw [pairsOf, skipped, pairsOf, popped, Function.update_of_ne differ]

theorem pairsOf_cons_none (none : (deleted item.2.id).getLast? = none) :
    pairsOf deleted (item :: created) item.2.id =
      pairsOf (popped deleted item.2.id) created item.2.id := by
  have empty := List.getLast?_eq_none_iff.mp none
  simp [pairsOf, popped, empty]

theorem pairsOf_cons_some (last : (deleted item.2.id).getLast? = some gone) :
    pairsOf deleted (item :: created) item.2.id =
      (item, gone) :: pairsOf (popped deleted item.2.id) created item.2.id := by
  have taken : ofObject (item :: created) item.2.id = item :: ofObject created item.2.id :=
    List.filter_cons_of_pos (by simp)
  obtain ⟨front, isLast⟩ := List.getLast?_eq_some_iff.mp last
  rw [pairsOf, taken, pairsOf, popped, Function.update_self, isLast, List.dropLast_concat,
    List.reverse_append, List.reverse_singleton, List.singleton_append, List.zip_cons_cons]

theorem mem_pairCreated_renamed :
    (change ∈ pairCreated deleted created ∧ change.oldPath.isSome = true) ↔
      ∃ objId, ∃ pair ∈ pairsOf deleted created objId,
        change = pairedChange pair.1 pair.2.1 := by
  induction created generalizing deleted with
  | nil => simp [pairCreated, pairsOf, ofObject]
  | cons item created ih =>
    rw [pairCreated_cons, List.mem_cons, or_and_right, ih]
    cases last : (deleted item.2.id).getLast? with
    | none =>
      have plain : headChange deleted item = createChange item := by
        rw [headChange, last]
      have same : ∀ objId, pairsOf deleted (item :: created) objId =
          pairsOf (popped deleted item.2.id) created objId := by
        intro objId
        by_cases isId : objId = item.2.id
        · rw [isId, pairsOf_cons_none last]
        · exact pairsOf_cons_of_ne isId
      simp only [same, plain]
      constructor
      · rintro (⟨rfl, isOld⟩ | later)
        · simp [createChange, plainChange] at isOld
        · exact later
      · exact Or.inr
    | some gone =>
      have head : headChange deleted item = pairedChange item gone.1 := by
        rw [headChange, last]
      rw [head]
      constructor
      · rintro (⟨rfl, -⟩ | ⟨objId, pair, inside, rfl⟩)
        · refine ⟨item.2.id, (item, gone), ?_, rfl⟩
          rw [pairsOf_cons_some last]
          exact List.mem_cons_self
        · refine ⟨objId, pair, ?_, rfl⟩
          by_cases isId : objId = item.2.id
          · subst isId
            rw [pairsOf_cons_some last]
            exact List.mem_cons_of_mem _ inside
          · rwa [pairsOf_cons_of_ne isId]
      · rintro ⟨objId, pair, inside, rfl⟩
        by_cases isId : objId = item.2.id
        · subst isId
          rw [pairsOf_cons_some last] at inside
          rcases List.mem_cons.mp inside with rfl | later
          · exact Or.inl ⟨rfl, rfl⟩
          · exact Or.inr ⟨_, pair, later, rfl⟩
        · rw [pairsOf_cons_of_ne isId] at inside
          exact Or.inr ⟨objId, pair, inside, rfl⟩

end

/-- No path is dropped twice, whatever its id. -/
structure PathsApart (deleted : Oid → List (PathEntry Oid)) : Prop where
  nodup : ∀ objId, ((deleted objId).map Prod.fst).Nodup
  apart : ∀ objId other, objId ≠ other → ∀ gone ∈ deleted objId, ∀ gone' ∈ deleted other,
    gone.1 ≠ gone'.1

section

omit [Digests Oid]

theorem PathsApart.pop (apart : PathsApart deleted) (objId : Oid) :
    PathsApart (popped deleted objId) := by
  refine ⟨?_, ?_⟩
  · intro other
    by_cases same : other = objId
    · subst same
      rw [popped, Function.update_self]
      exact (apart.nodup other).sublist ((List.dropLast_sublist _).map _)
    · rw [popped, Function.update_of_ne same]
      exact apart.nodup other
  · intro first second differ gone isGone gone' isGone'
    exact apart.apart first second differ gone (popped_subset isGone) gone'
      (popped_subset isGone')

theorem PathsApart.not_popped (apart : PathsApart deleted)
    (last : (deleted objId).getLast? = some gone) {other : Oid} {gone' : PathEntry Oid}
    (member : gone' ∈ popped deleted objId other) : gone.1 ≠ gone'.1 := by
  by_cases same : other = objId
  · subst same
    rw [popped, Function.update_self] at member
    obtain ⟨front, isLast⟩ := List.getLast?_eq_some_iff.mp last
    have distinct := apart.nodup other
    rw [isLast, List.map_append] at distinct
    rw [isLast, List.dropLast_concat] at member
    have disjoint := (List.nodup_append.mp distinct).2.2
    exact (disjoint gone'.1 (List.mem_map_of_mem member) gone.1 (by simp)).symm
  · exact apart.apart objId other (Ne.symm same) gone (List.mem_of_getLast? last) gone'
      (popped_subset member)

theorem pairCreated_oldPaths_nodup (apart : PathsApart deleted) :
    ((pairCreated deleted created).filterMap FsChange.oldPath).Nodup := by
  induction created generalizing deleted with
  | nil => simp [pairCreated]
  | cons item created ih =>
    rw [pairCreated_cons]
    cases last : (deleted item.2.id).getLast? with
    | none =>
      have plain : headChange deleted item = createChange item := by
        rw [headChange, last]
      rw [plain, List.filterMap_cons_none rfl]
      exact ih (apart.pop item.2.id)
    | some gone =>
      have head : headChange deleted item = pairedChange item gone.1 := by
        rw [headChange, last]
      have isOld : (pairedChange item gone.1).oldPath = some gone.1 := rfl
      rw [head, List.filterMap_cons_some isOld]
      refine List.nodup_cons.mpr ⟨?_, ih (apart.pop item.2.id)⟩
      intro again
      obtain ⟨change, member, same⟩ := List.mem_filterMap.mp again
      obtain ⟨objId, pair, inside, rfl⟩ :=
        mem_pairCreated_renamed.mp ⟨member, by rw [same]; rfl⟩
      have isGone : pair.2 ∈ popped deleted item.2.id objId :=
        List.mem_reverse.mp (List.of_mem_zip inside).2
      exact apart.not_popped last isGone (Option.some.inj same).symm

end

end Pairing

def IsRename (change : FsChange Oid) : Prop := change.opType = .rename ∨ change.opType = .move

/-- What the renames of a diff say is true and agrees with its deletes. -/
structure ConsistentRenames (store : FsStore Oid) (old new : List (DirEntryData Oid))
    (changes : List (FsChange Oid)) : Prop where
  /-- A rename pairs two paths of one object and one kind. -/
  paired : ∀ change ∈ changes, IsRename change → ∃ oldPath gone item,
    change.oldPath = some oldPath ∧ entryAt store old oldPath = some gone ∧
      entryAt store new change.path = some item ∧
      gone.id = change.objId ∧ item.id = change.objId ∧
      objTypeOf gone.mode = change.objType ∧ objTypeOf item.mode = change.objType
  /-- No path is renamed twice. -/
  once : (changes.filterMap FsChange.oldPath).Nodup
  /-- A delete is superseded when its path was renamed, or lies below a renamed directory. -/
  superseded : ∀ change ∈ changes, change.opType = .delete →
    (change.superseded = true ↔ ∃ other ∈ changes, IsRename other ∧
      (other.oldPath = some change.path ∨
        other.objType = .dir ∧ ∃ dir, other.oldPath = some dir ∧
          isBelow dir change.path = true))

omit [DecidableEq Oid] [Digests Oid] in
theorem isRename_paired (item : PathEntry Oid) (oldPath : TreePath) :
    IsRename (pairedChange item oldPath) := by
  unfold IsRename pairedChange
  dsimp only
  split <;> simp

omit [Digests Oid] in
theorem markSuperseded_of_ne (paired : List (FsChange Oid)) (kept : change.opType ≠ .delete) :
    markSuperseded paired change = change := by
  simp [markSuperseded, kept]

omit [Digests Oid] in
theorem superseded_mark (paired : List (FsChange Oid)) (item : PathEntry Oid) :
    (markSuperseded paired (deleteChange item)).superseded = true ↔
      (∃ other ∈ paired.filter fun other => other.oldPath.isSome, other.objType = .dir ∧
        other.oldPath.any (fun dir => isBelow dir item.1) = true) ∨
      ∃ other ∈ paired.filter fun other => other.oldPath.isSome, other.objId = item.2.id := by
  unfold markSuperseded
  dsimp only
  split
  · rename_i marked
    simp only [Bool.and_eq_true, Bool.or_eq_true, List.any_eq_true, decide_eq_true_eq] at marked
    exact iff_of_true rfl marked.2
  · rename_i unmarked
    refine iff_of_false (by simp [deleteChange, plainChange]) ?_
    simp only [Bool.and_eq_true, Bool.or_eq_true, List.any_eq_true, decide_eq_true_eq] at unmarked
    exact fun marked => unmarked ⟨rfl, marked⟩

section Result

variable {acc : TreeAcc Oid} {dropped : List (PathEntry Oid)}

section

omit [Digests Oid]

theorem pathsApart_ofObject (distinct : (dropped.map Prod.fst).Nodup) :
    PathsApart (ofObject dropped) := by
  refine ⟨fun objId => distinct.sublist (List.filter_sublist.map _), ?_⟩
  intro first second differ gone isGone gone' isGone' same
  obtain ⟨listed, isFirst⟩ := List.mem_filter.mp isGone
  obtain ⟨listed', isSecond⟩ := List.mem_filter.mp isGone'
  have one : gone = gone' := List.inj_on_of_nodup_map distinct listed listed' same
  simp only [decide_eq_true_eq] at isFirst isSecond
  exact differ (by rw [← isFirst, ← isSecond, one])

variable {created : List (PathEntry Oid)}

theorem mem_pairsOf {pair : PathEntry Oid × PathEntry Oid}
    (inside : pair ∈ pairsOf (ofObject dropped) created objId) :
    (pair.1 ∈ created ∧ pair.1.2.id = objId) ∧ pair.2 ∈ dropped ∧ pair.2.2.id = objId := by
  obtain ⟨isCreated, isDropped⟩ := List.of_mem_zip inside
  have isDropped := List.mem_filter.mp (List.mem_reverse.mp isDropped)
  have isCreated := List.mem_filter.mp isCreated
  simp only [decide_eq_true_eq] at isDropped isCreated
  exact ⟨isCreated, isDropped⟩

theorem mem_result_renamed (edited : ∀ edit ∈ acc.changes, edit.opType = .edit) :
    (change ∈ acc.result ∧ IsRename change) ↔
      ∃ objId, ∃ pair ∈ pairsOf (ofObject acc.dropped) acc.created objId,
        change = pairedChange pair.1 pair.2.1 := by
  constructor
  · rintro ⟨member, renamed⟩
    obtain ⟨plain, origin, rfl⟩ := mem_result.mp member
    obtain ⟨sameOp, -⟩ := markSuperseded_fields
      (pairCreated (objToDeleted acc.dropped) acc.created) plain
    rw [IsRename, sameOp] at renamed
    have kept : plain.opType ≠ .delete := by
      intro isDelete
      simp [isDelete] at renamed
    rw [markSuperseded_of_ne _ kept]
    rcases origin with isEdit | ⟨item, -, rfl⟩ | isPaired
    · simp [edited plain isEdit] at renamed
    · exact absurd rfl kept
    · refine mem_pairCreated_renamed.mp ⟨isPaired, ?_⟩
      obtain ⟨before, item, after, -, rfl | ⟨gone, -, rfl, -⟩⟩ := mem_pairCreated isPaired
      · simp [createChange, plainChange] at renamed
      · rfl
  · rintro ⟨objId, pair, inside, rfl⟩
    have renamed := isRename_paired pair.1 pair.2.1
    have kept : (pairedChange pair.1 pair.2.1).opType ≠ .delete := by
      intro isDelete
      rw [IsRename, isDelete] at renamed
      simp at renamed
    have member := (mem_pairCreated_renamed.mpr ⟨objId, pair, inside, rfl⟩).1
    exact ⟨mem_result.mpr ⟨_, Or.inr (Or.inr member), (markSuperseded_of_ne _ kept).symm⟩, renamed⟩

theorem superseded_delete (item : PathEntry Oid) :
    (markSuperseded (pairCreated (objToDeleted dropped) created)
        (deleteChange item)).superseded = true ↔
      (∃ objId, ∃ pair ∈ pairsOf (ofObject dropped) created objId,
        hasDirBit pair.1.2.mode = true ∧ isBelow pair.2.1 item.1 = true) ∨
      ∃ pair, pair ∈ pairsOf (ofObject dropped) created item.2.id := by
  have moved : ∀ change : FsChange Oid,
      (change ∈ (pairCreated (objToDeleted dropped) created).filter
        fun other => other.oldPath.isSome) ↔
      ∃ objId, ∃ pair ∈ pairsOf (ofObject dropped) created objId,
        change = pairedChange pair.1 pair.2.1 := by
    intro change
    rw [List.mem_filter]
    exact mem_pairCreated_renamed
  rw [superseded_mark]
  constructor
  · rintro (⟨other, isMoved, isDir, below⟩ | ⟨other, isMoved, sameId⟩)
    · obtain ⟨objId, pair, inside, rfl⟩ := (moved other).mp isMoved
      exact Or.inl ⟨objId, pair, inside, objTypeOf_dir.mp isDir, below⟩
    · obtain ⟨objId, pair, inside, rfl⟩ := (moved other).mp isMoved
      have isId : objId = item.2.id := (mem_pairsOf inside).1.2.symm.trans sameId
      exact Or.inr ⟨pair, isId ▸ inside⟩
  · rintro (⟨objId, pair, inside, isDir, below⟩ | ⟨pair, inside⟩)
    · exact Or.inl ⟨_, (moved _).mpr ⟨objId, pair, inside, rfl⟩, objTypeOf_dir.mpr isDir, below⟩
    · exact Or.inr ⟨_, (moved _).mpr ⟨_, pair, inside, rfl⟩, (mem_pairsOf inside).1.2⟩

theorem paired_or_left (distinct : (dropped.map Prod.fst).Nodup) (isDropped : gone ∈ dropped) :
    (∃ item, (item, gone) ∈ pairsOf (ofObject dropped) created gone.2.id) ↔
      gone ∉ unpaired (ofObject dropped) created gone.2.id := by
  have member : gone ∈ (ofObject dropped gone.2.id).reverse := by
    simp [ofObject, isDropped]
  have nodup : (ofObject dropped gone.2.id).reverse.Nodup :=
    List.nodup_reverse.mpr (distinct.of_map.sublist List.filter_sublist)
  rw [pairsOf, exists_mem_zip, unpaired]
  rw [← List.take_append_drop (ofObject created gone.2.id).length
    (ofObject dropped gone.2.id).reverse] at member nodup
  have disjoint := (List.nodup_append'.mp nodup).2.2
  constructor
  · intro isPaired isLeft
    exact disjoint isPaired isLeft
  · intro notLeft
    exact (List.mem_append.mp member).resolve_right notLeft

theorem exists_pair_iff (isDropped : gone ∈ dropped) :
    (∃ pair, pair ∈ pairsOf (ofObject dropped) created gone.2.id) ↔
      ofObject created gone.2.id ≠ [] := by
  have nonempty : (ofObject dropped gone.2.id).reverse ≠ [] := by
    intro empty
    have member : gone ∈ (ofObject dropped gone.2.id).reverse := by
      simp [ofObject, isDropped]
    rw [empty] at member
    simp at member
  have someMember : (∃ pair, pair ∈ pairsOf (ofObject dropped) created gone.2.id) ↔
      pairsOf (ofObject dropped) created gone.2.id ≠ [] :=
    ⟨fun ⟨_, inside⟩ => List.ne_nil_of_mem inside, List.exists_mem_of_ne_nil _⟩
  rw [someMember, pairsOf, Ne, List.zip_eq_nil_iff, not_or]
  exact and_iff_left nonempty

end

end Result

end Nanofile
