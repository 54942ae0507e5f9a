import Nanofile.Service.RestEdit

/-!
# Runs of all writers

Web writes take turns under the lock of the library: one at a time is between taking it and
giving it back, and none returns without.  Whoever writes only adds, so a tree that is complete
stays what it is.
-/

set_option autoImplicit false

namespace Nanofile

open Nanofile.Lib

variable {Oid : Type} [DecidableEq Oid] [Digests Oid]

/-- Between taking the lock and giving it back. -/
def RestPc.holdsLock : RestPc Oid → Bool
  | .resolving _ | .editing .. | .walking .. => true
  | .built edit .. | .inserting edit .. | .swapping edit .. => edit.lockedCommit
  | _ => false

def WriterPc.holdsLock : WriterPc Oid → Bool
  | .branch _ => false
  | .rest pc => pc.holdsLock

variable [ToString Oid] {now : Int} {state after : LockedRepo Oid} {pc next : RestPc Oid}

/-- A step that takes the lock begins to hold it, and one that gives it back ends that. -/
theorem stepRest_lock (held : pc.holdsLock = true → state.locked = true)
    (run : stepRest now state pc = some (after, next)) :
    after.locked.toNat + pc.holdsLock.toNat = state.locked.toNat + next.holdsLock.toNat := by
  unfold stepRest LockedRepo.finish LockedRepo.rebuilt at run
  cases pc with
  | finished result => cases run
  | begun job => cases job <;> grind [RestPc.holdsLock]
  | _ => grind [RestPc.holdsLock]

/-- A write that cannot take a step has returned, or waits for the lock. -/
theorem stepRest_stuck (stuck : stepRest now state pc = none) :
    (∃ result, pc = .finished result) ∨ state.locked = true ∧ pc.holdsLock = false := by
  unfold stepRest at stuck
  cases pc with
  | finished result => exact Or.inl ⟨result, rfl⟩
  | waiting edit parent =>
    refine Or.inr ⟨?_, rfl⟩
    by_contra free
    simp only [free] at stuck
    grind
  | begun job => cases job <;> grind
  | _ => grind

theorem lock_counts {state : Threads (LockedRepo Oid) (WriterPc Oid)}
    (reached : writerSystem.Reachable (fun _ _ => True) state) :
    state.shared.locked.toNat = state.running.countP WriterPc.holdsLock := by
  refine System.reachable_invariant (I := fun state =>
    state.shared.locked.toNat = state.running.countP WriterPc.holdsLock) ?_ ?_ reached
  · rintro initial ⟨⟨-, free⟩, idle⟩
    rw [free, idle]
    rfl
  · rintro before next action counted - taken
    cases action with
    | serve request =>
      cases taken
      exact counted
    | begin job =>
      cases taken
      cases job <;> simpa [writerProgram, WriterPc.holdsLock, RestPc.holdsLock] using counted
    | advance index env =>
      obtain ⟨pc, ⟨after, pc'⟩, found, moved, rfl⟩ := Program.step_advance_iff.mp taken
      obtain ⟨inside, isPc⟩ := List.getElem?_eq_some_iff.mp found
      have held : pc.holdsLock = true → before.shared.locked = true := by
        intro holds
        have some := List.countP_pos_iff.mpr ⟨pc, List.mem_of_getElem? found, holds⟩
        rw [← counted] at some
        cases lock : before.shared.locked with
        | true => rfl
        | false => simp [lock] at some
      change after.locked.toNat = (before.running.set index pc').countP WriterPc.holdsLock
      rw [List.countP_set inside, isPc, ← counted]
      cases pc with
      | branch pc =>
        simp only [writerProgram, stepWriter, Option.map_eq_some_iff] at moved
        obtain ⟨_, -, isAfter⟩ := moved
        cases isAfter
        rfl
      | rest pc =>
        simp only [writerProgram, stepWriter, Option.map_eq_some_iff] at moved
        obtain ⟨⟨left, next⟩, taken', isAfter⟩ := moved
        cases isAfter
        have moves := stepRest_lock held taken'
        have atMost := Bool.toNat_le_toNat held
        change pc.holdsLock.toNat ≤ _ at atMost
        have asNat : ∀ (holds : Bool) [Decidable (holds = true)],
            (if holds = true then 1 else 0) = holds.toNat := by
          intro holds _
          cases holds <;> simp
        rw [asNat, asNat]
        dsimp only [WriterPc.holdsLock]
        omega

/-- One web write holds the lock while it is taken and none while it is free, and while one is
underway there is one that can go on. -/
theorem web_writes_take_turns {state : Threads (LockedRepo Oid) (WriterPc Oid)}
    (reached : writerSystem.Reachable (fun _ _ => True) state) :
    state.running.countP WriterPc.holdsLock = (if state.shared.locked then 1 else 0) ∧
    ∀ env pc, .rest pc ∈ state.running → (∀ result, pc ≠ .finished result) →
      ∃ index pc' next, state.running[index]? = some (.rest pc') ∧
        writerSystem.step state (.advance index env) = some next := by
  have counted := lock_counts reached
  refine ⟨counted.symm.trans (by cases state.shared.locked <;> rfl), ?_⟩
  have goes : ∀ env pc, .rest pc ∈ state.running →
      (stepRest (env.clock 0) state.shared pc).isSome = true →
      ∃ index pc' next, state.running[index]? = some (.rest pc') ∧
        writerSystem.step state (.advance index env) = some next := by
    intro env pc listed some
    obtain ⟨index, found⟩ := List.mem_iff_getElem?.mp listed
    obtain ⟨⟨left, next⟩, moved⟩ := Option.isSome_iff_exists.mp some
    exact ⟨index, pc, _, found, Program.step_advance_iff.mpr
      ⟨_, (left, .rest next), found, by simp [writerProgram, stepWriter, moved], rfl⟩⟩
  intro env pc listed unfinished
  cases moved : stepRest (env.clock 0) state.shared pc with
  | some after => exact goes env pc listed (by rw [moved]; rfl)
  | none =>
    obtain ⟨result, isResult⟩ | ⟨lock, -⟩ := stepRest_stuck moved
    · exact absurd isResult (unfinished result)
    · -- The one that holds the lock is neither finished nor waiting.
      rw [lock, Bool.toNat_true] at counted
      have some : 0 < state.running.countP WriterPc.holdsLock := by omega
      obtain ⟨holder, isHolder, holds⟩ := List.countP_pos_iff.mp some
      cases holder with
      | branch pc => cases holds
      | rest pc' =>
        refine goes env pc' isHolder ?_
        by_contra stuck
        obtain ⟨result, rfl⟩ | ⟨-, waits⟩ := stepRest_stuck (Option.not_isSome_iff_eq_none.mp stuck)
        · cases holds
        · cases waits.symm.trans holds

theorem flatLibrary_init : writerSystem.init flatLibrary := ⟨⟨genuine_libraryOf _ _, rfl⟩, rfl⟩

theorem one_delete_holds : ∃ state,
    writerSystem.runChecked (fun _ _ => true) (deletesTogether.take 5) flatLibrary = some state ∧
    state.shared.locked = true ∧ state.running.countP WriterPc.holdsLock = 1 := by
  have ran : (writerSystem.runChecked (fun _ _ => true) (deletesTogether.take 5) flatLibrary).map
      (fun state => state.shared.locked) = some true := by decide +kernel
  obtain ⟨state, run, lock⟩ := Option.map_eq_some_iff.mp ran
  have reached := System.reachable_of_runChecked (fun _ _ _ => trivial) _ _ state
    (.init flatLibrary_init) run
  exact ⟨state, run, lock, (web_writes_take_turns reached).1.trans (if_pos lock)⟩

/-- Requests store objects under the ids of their contents, and all else is as it may be. -/
def truthfulSteps : Threads (LockedRepo Oid) (WriterPc Oid) →
    ThreadAction (SyncRequest Oid) (WriterJob Oid) (SyncEnv Oid) → Prop :=
  Program.guarded (fun state request => RequestHolds state.repo request) fun _ _ _ => True

theorem truthful_step {state next : Threads (LockedRepo Oid) (WriterPc Oid)}
    {action : ThreadAction (SyncRequest Oid) (WriterJob Oid) (SyncEnv Oid)}
    (genuine : Genuine state.shared.repo.fsObjects) (met : truthfulSteps state action)
    (taken : writerSystem.step state action = some next) :
    Grows state.shared.repo next.shared.repo ∧ Genuine next.shared.repo.fsObjects := by
  cases action with
  | serve request =>
    cases taken
    exact serveSync_grows genuine met
  | begin job =>
    cases taken
    exact ⟨Grows.refl _, genuine⟩
  | advance index env =>
    obtain ⟨pc, ⟨after, pc'⟩, found, moved, rfl⟩ := Program.step_advance_iff.mp taken
    rcases stepWriter_cases moved with ⟨_, _, -, -, step⟩ | ⟨_, _, -, -, step⟩
    · exact step.grows genuine
    · exact step.grows genuine

/-- Whoever writes next and in whatever order: an id stays that of its content, and a commit with
a complete tree stays, with the same objects below its root. -/
theorem committed_trees_stay {state : Threads (LockedRepo Oid) (WriterPc Oid)}
    (reached : writerSystem.Reachable truthfulSteps state) :
    Genuine state.shared.repo.fsObjects ∧
    ∀ last, writerSystem.Steps truthfulSteps state last → ∀ commitId row,
      state.shared.repo.commits.find commitId = some row →
      Complete state.shared.repo.fsObjects state.shared.repo.blocks row.rootId →
      last.shared.repo.commits.find commitId = some row ∧
      Complete last.shared.repo.fsObjects last.shared.repo.blocks row.rootId ∧
      ∀ fsId, (Reach last.shared.repo.fsObjects row.rootId fsId ↔
          Reach state.shared.repo.fsObjects row.rootId fsId) ∧
        (Reach state.shared.repo.fsObjects row.rootId fsId → fsId ≠ emptySha1 →
          last.shared.repo.fsObjects.find fsId = state.shared.repo.fsObjects.find fsId) := by
  have genuine : Genuine state.shared.repo.fsObjects :=
    System.reachable_invariant (I := fun state => Genuine state.shared.repo.fsObjects)
      (fun _ (start : Quiet _ ∧ _) => start.1.1)
      (fun _ _ _ kept met taken => (truthful_step kept met taken).2) reached
  refine ⟨genuine, fun last steps => ?_⟩
  have both : Genuine last.shared.repo.fsObjects ∧
      Grows state.shared.repo last.shared.repo := by
    induction steps with
    | refl => exact ⟨genuine, Grows.refl _⟩
    | tail before met taken ih =>
      obtain ⟨kept, grown⟩ := ih
      obtain ⟨grown', kept'⟩ := truthful_step kept met taken
      exact ⟨kept', grown.fsObjects.trans grown'.fsObjects,
        fun block held => grown'.blocks block (grown.blocks block held),
        fun id row found => grown'.commits id row (grown.commits id row found)⟩
  obtain ⟨-, grown⟩ := both
  intro commitId row found complete
  refine ⟨grown.commits _ _ found, complete.grows grown, fun fsId =>
    ⟨⟨complete.reach_of_grown grown.fsObjects fsId, reach_mono grown.fsObjects⟩, ?_⟩⟩
  intro reached nonempty
  obtain ⟨object, stored, -⟩ := complete fsId reached nonempty
  rw [stored]
  exact grown.fsObjects fsId object stored

def served (request : SyncRequest FreeId) (state : Threads (LockedRepo FreeId) (WriterPc FreeId)) :
    Threads (LockedRepo FreeId) (WriterPc FreeId) :=
  { state with shared := writerProgram.serve request state.shared }

/-- A client has stored a block and a commit of its own. -/
def syncedLibrary : Threads (LockedRepo FreeId) (WriterPc FreeId) :=
  served (.putCommit (rootCommit "other" none).commitId (rootCommit "other" none))
    (served (.writeBlock (.text "block") 0) flatLibrary)

theorem steps_of_served {request : SyncRequest FreeId}
    {state last : Threads (LockedRepo FreeId) (WriterPc FreeId)}
    (holds : RequestHolds state.shared.repo request)
    (steps : writerSystem.Steps truthfulSteps (served request state) last) :
    writerSystem.Steps truthfulSteps state last :=
  .head (show truthfulSteps state (.serve request) from holds) rfl steps

/-- The tree of the first commit is there after both deletes. -/
theorem first_tree_stays : ∃ last headId row,
    writerSystem.Steps truthfulSteps flatLibrary last ∧
    flatLibrary.shared.repo.headCommitId = some headId ∧
    last.shared.repo.headCommitId ≠ some headId ∧
    last.shared.repo.commits.find headId = some row ∧
    Complete last.shared.repo.fsObjects last.shared.repo.blocks row.rootId := by
  have ran : (writerSystem.runChecked (fun _ action => !action matches .serve _) deletesTogether
      syncedLibrary).any (fun last => last.shared.repo.headCommitId ≠
        flatLibrary.shared.repo.headCommitId) = true := by decide +kernel
  obtain ⟨last, run, moved⟩ := (Option.any_eq_true _ _).mp ran
  have sound : ∀ (state : Threads (LockedRepo FreeId) (WriterPc FreeId)) (action : WriterAction),
      (!action matches .serve _) = true → truthfulSteps state action := by
    intro state action calls
    cases action with
    | serve request => cases calls
    | begin job => trivial
    | advance index env => exact fun _ _ => trivial
  have steps := steps_of_served (by trivial) (steps_of_served (by trivial)
    (System.steps_of_runChecked sound deletesTogether syncedLibrary last run))
  have isHead : (flatLibrary.shared.repo.headCommitId.bind
      flatLibrary.shared.repo.commits.find).any (fun row =>
        completeCheck flatLibrary.shared.repo.fsObjects flatLibrary.shared.repo.blocks row.rootId
          [row.rootId, .empty]) = true := by decide +kernel
  obtain ⟨row, found, complete⟩ := (Option.any_eq_true _ _).mp isHead
  have stays := (committed_trees_stay (.init flatLibrary_init)).2 last steps _ row found
    (complete_of_check _ complete)
  exact ⟨last, _, row, steps, rfl, of_decide_eq_true moved, stays.1, stays.2.1⟩

end Nanofile
