import Nanofile.Service.CheckBlocks

/-!
# What a passed upload check means

A check without a base that reports nothing missing has seen the whole tree.  One
against a base has seen all but the ids it takes on trust, so the new tree is
complete exactly when these are.
-/

set_option autoImplicit false

namespace Nanofile

open Nanofile.Lib

variable {Oid : Type} [DecidableEq Oid] [Digests Oid] {store : FsStore Oid}
  {held : Oid → Bool} {Held : Oid → Prop} (sure : ∀ block, held block = true → Held block)

include sure in
theorem fullFrame_complete {frame : FullFrame Oid} {children : List (FullFrame Oid)}
    {found : List String × Int} (run : fullFrame store held frame = .ok (children, found))
    (none : found.1 = []) (below : ∀ child ∈ children, CompleteIn store Held child.fsId) :
    CompleteIn store Held frame.fsId := by
  unfold fullFrame at run
  split at run
  · rename_i isEmpty
    rw [isEmpty]
    exact complete_empty store Held
  · rename_i nonempty
    cases present : store.find frame.fsId with
    | none => simp [present] at run
    | some object =>
      cases object with
      | file file =>
        simp only [present, Except.ok.injEq, Prod.mk.injEq] at run
        obtain ⟨rfl, rfl⟩ := run
        have clear : hasMissing held file = false := by
          cases missing : hasMissing held file with
          | false => rfl
          | true => simp [missing] at none
        apply complete_file present
        intro block listed
        have here := List.any_eq_false.mp clear block listed
        exact sure block (by simpa using here)
      | dir data =>
        simp only [present, Except.ok.injEq, Prod.mk.injEq] at run
        obtain ⟨rfl, rfl⟩ := run
        apply complete_dir (dirBatch_eq_some_iff.mpr ⟨nonempty, present⟩)
        intro entry listed
        exact below _ (List.mem_map_of_mem listed)

include sure in
theorem fullLevel_complete :
    ∀ (frontier next : List (FullFrame Oid)) (sofar after : List String × Int),
      fullLevel store held frontier sofar = .ok (next, after) → after.1 = [] →
      sofar.1 = [] ∧ ((∀ child ∈ next, CompleteIn store Held child.fsId) →
        ∀ frame ∈ frontier, CompleteIn store Held frame.fsId) := by
  intro frontier
  induction frontier with
  | nil =>
    intro next sofar after run none
    simp only [fullLevel, Except.ok.injEq, Prod.mk.injEq] at run
    obtain ⟨rfl, rfl⟩ := run
    exact ⟨none, by simp⟩
  | cons frame rest ih =>
    intro next sofar after run none
    simp only [fullLevel] at run
    cases here : fullFrame store held frame with
    | error failure => simp [here] at run
    | ok result =>
      obtain ⟨children, found⟩ := result
      simp only [here] at run
      cases there : fullLevel store held rest
          (sofar.1 ++ found.1, sofar.2 + found.2) with
      | error failure => simp [there] at run
      | ok result =>
        obtain ⟨others, last⟩ := result
        simp only [there, Except.ok.injEq, Prod.mk.injEq] at run
        obtain ⟨rfl, rfl⟩ := run
        obtain ⟨clear, restComplete⟩ := ih others _ last there none
        obtain ⟨clearSofar, clearFound⟩ := List.append_eq_nil_iff.mp clear
        refine ⟨clearSofar, fun below other member => ?_⟩
        cases List.mem_cons.mp member with
        | inl same =>
          rw [same]
          apply fullFrame_complete sure here clearFound
          intro child listed
          exact below child (List.mem_append_left _ listed)
        | inr member =>
          apply restComplete _ other member
          intro child listed
          exact below child (List.mem_append_right _ listed)

/-- The ids below a pair of directories that the two-sided walk does not look
into: the new side of a pair with an unknown side, and an entry the base has
under the same name and id. -/
inductive Skipped (store : FsStore Oid) : Option Oid → Option Oid → Oid → Prop
  | unknown {base new : Oid} (different : base ≠ new)
      (absent : dirBatch store base = none ∨ dirBatch store new = none) :
      Skipped store (some base) (some new) new
  | same {base new : Oid} {baseDir newDir : FsDirData Oid} {baseEntry entry : DirEntryData Oid}
      (different : base ≠ new) (readBase : dirBatch store base = some baseDir)
      (readNew : dirBatch store new = some newDir) (listed : entry ∈ newDir.dirents)
      (found : lastNamed baseDir.dirents entry.name = some baseEntry)
      (sameId : entry.id = baseEntry.id) : Skipped store (some base) (some new) entry.id
  | inside {base new : Oid} {baseDir newDir : FsDirData Oid} {baseEntry entry : DirEntryData Oid}
      {fsId : Oid} (different : base ≠ new) (readBase : dirBatch store base = some baseDir)
      (readNew : dirBatch store new = some newDir) (listed : entry ∈ newDir.dirents)
      (found : lastNamed baseDir.dirents entry.name = some baseEntry)
      (changed : entry.id ≠ baseEntry.id) (baseIsDir : hasDirBit baseEntry.mode = true)
      (isDir : hasDirBit entry.mode = true)
      (deeper : Skipped store (storedDir baseEntry.id) (storedDir entry.id) fsId) :
      Skipped store (some base) (some new) fsId

/-- What a check of `newRoot` against `baseRoot` takes on trust. -/
def TakenOnTrust (store : FsStore Oid) (newRoot : Oid) (baseRoot : Option Oid) (fsId : Oid) :
    Prop :=
  ∃ base, baseRoot = some base ∧ ((base = newRoot ∧ fsId = newRoot) ∨
    Skipped store (storedDir base) (storedDir newRoot) fsId)

variable {id : Oid} {other : Oid}

theorem storedDir_eq_some (stored : storedDir id = some other) : id = other ∧ id ≠ emptySha1 := by
  unfold storedDir at stored
  split at stored
  · simp at stored
  · rename_i nonempty
    exact ⟨Option.some.inj stored, nonempty⟩

theorem storedDir_injective (same : storedDir id = storedDir other) : id = other := by
  unfold storedDir at same
  split at same <;> split at same <;> simp_all

theorem complete_of_storedDir
    (complete : ∀ other, storedDir id = some other → CompleteIn store Held other) :
    CompleteIn store Held id := by
  cases stored : storedDir id with
  | some other =>
    obtain ⟨rfl, -⟩ := storedDir_eq_some stored
    exact complete id stored
  | none =>
    have isEmpty : id = emptySha1 := by
      unfold storedDir at stored
      split at stored
      · assumption
      · simp at stored
    rw [isEmpty]
    exact complete_empty store Held

/-- A pair is settled when what it takes on trust being complete makes its new side
complete. -/
def Settled (store : FsStore Oid) (Held : Oid → Prop) (frame : DiffFrame Oid) : Prop :=
  frame.baseFsId ≠ frame.newFsId →
    (∀ fsId, Skipped store frame.baseFsId frame.newFsId fsId → CompleteIn store Held fsId) →
    ∀ new, frame.newFsId = some new → CompleteIn store Held new

/-- What a pair asks for is there: the next pairs are settled, the pending files are
complete. -/
def Answered (store : FsStore Oid) (Held : Oid → Prop) (diff : FrameDiff Oid) : Prop :=
  (∀ frame ∈ diff.next, Settled store Held frame) ∧
    ∀ file ∈ diff.pending, CompleteIn store Held file.1

theorem answered_append {first second : FrameDiff Oid} :
    Answered store Held (first.append second) ↔
      Answered store Held first ∧ Answered store Held second := by
  simp only [Answered, FrameDiff.append, List.mem_append, or_imp, forall_and]
  tauto

theorem answered_join {diffs : List (FrameDiff Oid)} :
    Answered store Held (.join diffs) ↔ ∀ diff ∈ diffs, Answered store Held diff := by
  induction diffs with
  | nil => simp [FrameDiff.join, FrameDiff.empty, Answered]
  | cons first rest ih =>
    have unfolded : FrameDiff.join (first :: rest) = first.append (.join rest) := rfl
    rw [unfolded, answered_append, ih]
    simp

variable {entry : DirEntryData Oid} {path : String}

theorem addedEntry_complete (answered : Answered store Held (addedEntry path entry)) :
    CompleteIn store Held entry.id := by
  unfold addedEntry at answered
  split at answered
  · apply complete_of_storedDir
    intro other stored
    refine answered.1 _ (List.mem_singleton_self _) ?_ ?_ other stored
    · rw [stored]
      simp
    · intro fsId skipped
      cases skipped
  · exact answered.2 _ (List.mem_singleton_self _)

theorem compareEntry_complete {base new : Oid} {baseDir newDir : FsDirData Oid}
    (different : base ≠ new) (readBase : dirBatch store base = some baseDir)
    (readNew : dirBatch store new = some newDir) (listed : entry ∈ newDir.dirents)
    (trusted : ∀ fsId, Skipped store (some base) (some new) fsId → CompleteIn store Held fsId)
    (answered : Answered store Held (compareEntry baseDir path entry)) :
    CompleteIn store Held entry.id := by
  unfold compareEntry at answered
  cases found : lastNamed baseDir.dirents entry.name with
  | none =>
    rw [found] at answered
    exact addedEntry_complete answered
  | some baseEntry =>
    simp only [found, changedEntry] at answered
    split at answered
    · rename_i sameId
      exact trusted _ (.same different readBase readNew listed found sameId)
    · rename_i changed
      cases baseIsDir : hasDirBit baseEntry.mode <;> cases isDir : hasDirBit entry.mode <;>
        simp only [baseIsDir, isDir] at answered
      · exact answered.2 _ (List.mem_singleton_self _)
      · apply complete_of_storedDir
        intro other stored
        refine answered.1 _ (List.mem_singleton_self _) ?_ ?_ other stored
        · rw [stored]
          simp
        · intro fsId skipped
          cases skipped
      · exact answered.2 _ (List.mem_singleton_self _)
      · apply complete_of_storedDir
        intro other stored
        refine answered.1 _ (List.mem_singleton_self _) ?_ ?_ other stored
        · intro same
          exact changed (storedDir_injective same).symm
        · intro fsId skipped
          exact trusted _ (.inside different readBase readNew listed found changed baseIsDir
            isDir skipped)

theorem diffFrame_settled {frame : DiffFrame Oid} {diff : FrameDiff Oid}
    (run : diffFrame store frame = .ok diff) (answered : Answered store Held diff) :
    Settled store Held frame := by
  obtain ⟨base, new, path⟩ := frame
  intro different trusted newId isNew
  simp only at different trusted isNew
  subst isNew
  simp only [diffFrame, if_neg different, Option.isSome_some, Bool.true_and,
    Option.bind_some] at run
  cases base with
  | none =>
    cases readNew : dirBatch store newId with
    | none => simp [readNew] at run
    | some newDir =>
      simp only [Option.isSome_none, Bool.false_and, readNew, Option.isNone_some,
        Bool.false_or, Bool.false_eq_true, if_false, Option.bind_none, diffDirs,
        Except.ok.injEq] at run
      subst run
      apply complete_dir readNew
      intro entry listed
      exact addedEntry_complete
        (answered_join.mp answered _ (List.mem_map_of_mem listed))
  | some baseId =>
    have ids : baseId ≠ newId := fun same => different (congrArg some same)
    cases readBase : dirBatch store baseId with
    | none => exact trusted _ (.unknown ids (Or.inl readBase))
    | some baseDir =>
      cases readNew : dirBatch store newId with
      | none => exact trusted _ (.unknown ids (Or.inr readNew))
      | some newDir =>
        simp only [Option.isSome_some, Option.bind_some, readBase, readNew,
          Option.isNone_some, Bool.and_false, Bool.or_self, Bool.false_eq_true,
          if_false, diffDirs, Except.ok.injEq] at run
        subst run
        have each := answered_join.mp (answered_append.mp answered).1
        apply complete_dir readNew
        intro entry listed
        exact compareEntry_complete ids readBase readNew listed trusted
          (each _ (List.mem_map_of_mem listed))

theorem diffFrames_settled :
    ∀ (frontier : List (DiffFrame Oid)) (diff : FrameDiff Oid),
      diffFrames store frontier = .ok diff → Answered store Held diff →
      ∀ frame ∈ frontier, Settled store Held frame := by
  intro frontier
  induction frontier with
  | nil => simp
  | cons frame rest ih =>
    intro diff run answered other member
    simp only [diffFrames] at run
    cases here : diffFrame store frame with
    | error failure => simp [here] at run
    | ok first =>
      cases there : diffFrames store rest with
      | error failure => simp [here, there] at run
      | ok others =>
        simp only [here, there, Except.ok.injEq] at run
        subst run
        obtain ⟨answeredHere, answeredThere⟩ := answered_append.mp answered
        cases List.mem_cons.mp member with
        | inl same => exact same ▸ diffFrame_settled here answeredHere
        | inr member => exact ih others there answeredThere other member

include sure in
theorem checkPending_complete :
    ∀ (pending : List (Oid × String)), checkPending store held pending = .ok [] →
      ∀ file ∈ pending, CompleteIn store Held file.1 := by
  intro pending
  induction pending with
  | nil => simp
  | cons file rest ih =>
    obtain ⟨fsId, path⟩ := file
    intro run other member
    simp only [checkPending] at run
    cases read : fileBatch store fsId with
    | none =>
      have nonempty : fsId ≠ emptySha1 := by
        intro same
        simp [fileBatch, same] at read
      simp [read, nonempty] at run
    | some data =>
      cases walked : checkPending store held rest with
      | error failure => simp [read, walked] at run
      | ok missing =>
        simp only [read, walked, Except.ok.injEq] at run
        cases isMissing : hasMissing held data with
        | true => simp [isMissing] at run
        | false =>
          simp only [isMissing, Bool.false_eq_true, if_false] at run
          subst run
          cases List.mem_cons.mp member with
          | inr member => exact ih walked other member
          | inl same =>
            subst same
            unfold fileBatch at read
            split at read
            · rename_i isEmpty
              rw [isEmpty]
              exact complete_empty store Held
            · cases present : store.find fsId with
              | none => simp [present] at read
              | some object =>
                cases object with
                | dir data => simp [present] at read
                | file file =>
                  simp only [present, Option.some.injEq] at read
                  subst read
                  apply complete_file present
                  intro block listed
                  have here := List.any_eq_false.mp isMissing block listed
                  exact sure block (by simpa using here)

include sure in
theorem checkCommitBlocks_complete {limits : Limits} {newRoot : Oid} {baseRoot : Option Oid}
    {delta : Int} (run : checkCommitBlocks limits store held newRoot baseRoot = .ok ([], delta))
    (trusted : ∀ fsId, TakenOnTrust store newRoot baseRoot fsId → CompleteIn store Held fsId) :
    CompleteIn store Held newRoot := by
  cases baseRoot with
  | none =>
    have walked := levelWalk_rec
      (P := fun _ frontier sofar (out : List String × Int) => out.1 = [] →
        sofar.1 = [] ∧ ∀ frame ∈ frontier, CompleteIn store Held frame.fsId)
      (fun _ sofar none => ⟨none, by simp⟩)
      (fun _ frontier next sofar after out _ read below none => by
        obtain ⟨clear, complete⟩ := below none
        obtain ⟨clearBefore, passes⟩ :=
          fullLevel_complete sure frontier next sofar after read clear
        exact ⟨clearBefore, passes complete⟩)
      _ _ _ _ _ run
    exact (walked rfl).2 ⟨newRoot, ""⟩ (List.mem_singleton_self _)
  | some base =>
    simp only [checkCommitBlocks] at run
    split at run
    · rename_i same
      exact trusted newRoot ⟨base, rfl, Or.inl ⟨same, rfl⟩⟩
    · rename_i different
      have walked := levelWalk_rec
        (P := fun _ frontier sofar (out : List String × Int) => out.1 = [] →
          sofar.1 = [] ∧ ∀ frame ∈ frontier, Settled store Held frame)
        (fun _ sofar none => ⟨none, by simp⟩)
        (fun _ frontier next sofar after out _ read below none => by
          obtain ⟨clear, settled⟩ := below none
          simp only [diffLevel] at read
          cases diffed : diffFrames store frontier with
          | error failure => simp [diffed] at read
          | ok diff =>
            cases checked : checkPending store held diff.pending with
            | error failure => simp [diffed, checked] at read
            | ok missing =>
              simp only [diffed, checked, Except.ok.injEq, Prod.mk.injEq] at read
              obtain ⟨rfl, rfl⟩ := read
              obtain ⟨clearSofar, rfl⟩ := List.append_eq_nil_iff.mp clear
              exact ⟨clearSofar, diffFrames_settled frontier diff diffed
                ⟨settled, checkPending_complete sure _ checked⟩⟩)
        _ _ _ _ _ run
      apply complete_of_storedDir
      intro other stored
      refine (walked rfl).2 _ (List.mem_singleton_self _) ?_ ?_ other stored
      · intro same
        exact different (storedDir_injective same)
      · intro fsId skipped
        exact trusted fsId ⟨base, rfl, Or.inr skipped⟩

end Nanofile
