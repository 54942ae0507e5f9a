import Nanofile.Service.OwnerSteps

/-!
# Runs of the calls on libraries

In every run whose steps are apart the libraries of one user are safe from the calls of the others,
a live library keeps what was committed to it, and a restore brings the head back.
-/

set_option autoImplicit false

namespace Nanofile

open Nanofile.Lib

variable {state : OwnersState} {db : LibraryDb} {repoId : String} {user owner : Int}
    {world : OwnersWorld}

theorem OwnersKept.owner_of_live {row : RepoRow} (kept : OwnersKept world)
    (owned : world.lib.db.OwnedBy repoId owner) (found : world.lib.db.findRepo repoId = some row) :
    owner = row.ownerId := by
  rcases owned with ⟨row', found', rfl⟩ | ⟨trashed, entry, rfl⟩
  · cases found.symm.trans found'
    rfl
  · exact (kept.owners repoId row trashed found entry).symm

theorem OwnersKept.owner_of_trashed {trashed : DeletedRepoRow} (kept : OwnersKept world)
    (owned : world.lib.db.OwnedBy repoId owner)
    (entry : world.lib.db.findDeleted repoId = some trashed) : owner = trashed.ownerId := by
  rcases owned with ⟨row, found, rfl⟩ | ⟨trashed', entry', rfl⟩
  · exact kept.owners repoId row trashed found entry
  · cases entry.symm.trans entry'
    rfl

theorem OwnersKept.owner_of_trashedBy {trashed : DeletedRepoRow} (kept : OwnersKept world)
    (known : TrashedBy world.lib.db user trashed)
    (owned : world.lib.db.OwnedBy trashed.repoId owner) : owner = user :=
  (kept.owner_of_trashed owned known.1).trans known.2

variable {call : OwnerCall}

theorem touched_owner (kept : OwnersKept world) (known : OwnerCallKept world.lib.db user call)
    (apart : OwnerCallApart world call) (touches : call.Touches world.lib.db repoId)
    (owned : world.lib.db.OwnedBy repoId owner) :
    owner = user ∨ (call.Uploads repoId ∧ world.lib.db.CanWrite repoId user) := by
  cases call with
  | library call =>
    cases call with
    | creating id name description ownerId keys =>
      obtain ⟨rfl, notLive⟩ := touches
      rcases owned with ⟨row, found, _⟩ | ⟨trashed, entry, _⟩
      · exact absurd (LibraryDb.live_of_found found) notLive
      · exact absurd (LibraryDb.inTrash_of_found entry) (apart.resolve_left notLive)
    | insertingTrash row =>
      cases touches
      exact Or.inl ((kept.owner_of_live owned known.1).trans known.2)
    | archiving id =>
      cases touches
      obtain ⟨row, _, found, isOwner, _⟩ := known
      exact Or.inl ((kept.owner_of_live owned found).trans isOwner)
    | creatingRepo trashed =>
      cases touches
      exact Or.inl (kept.owner_of_trashedBy known owned)
    | copying trashed | heading trashed | dropping trashed | untrashing trashed =>
      cases touches
      exact Or.inl (kept.owner_of_trashedBy known.1 owned)
    | _ => exact touches.elim
  | droppingObjects trashed | purgingCommits trashed | purgingObjects trashed
  | purgingEntry trashed =>
    cases touches
    exact Or.inl (kept.owner_of_trashedBy known.1 owned)
  | storing upload rest call | insertingObjects upload rest | insertingCommit upload parent
  | movingHead upload parent =>
    cases touches
    exact Or.inr ⟨rfl, known.1⟩
  | clearing id =>
    cases touches
    rcases owned with ⟨row, found, _⟩ | ⟨trashed, entry, _⟩
    · exact absurd (Or.inl (LibraryDb.live_of_found found)) known
    · exact absurd (Or.inr (LibraryDb.inTrash_of_found entry)) known
  | _ => exact touches.elim

theorem ownersKept_empty : OwnersKept emptyLibraries where
  owners _ _ _ found := by cases found
  commits := ContentTable.idsKept_empty
  fsObjects := ContentTable.idsKept_empty
  made _ listed := by cases listed
  blocks _ _ _ listed := by cases listed
  recorded _ _ listed := by cases listed

theorem OwnerJob.begin_kept (job : OwnerJob) : OwnerCallKept db user (job.begin user) := by
  cases job with
  | create id name description keys | upload file | purge id => trivial
  | delete id | restore id => exact rfl

theorem LibraryDb.CanWrite.share (allowed : db.CanWrite repoId user) (member : MemberRow) :
    ({ db with members := db.members ++ [member] } : LibraryDb).CanWrite repoId user := by
  obtain ⟨row, found, isOwner | ⟨other, listed, writes⟩⟩ := allowed
  · exact ⟨row, found, Or.inl isOwner⟩
  · exact ⟨row, found, Or.inr ⟨other, List.mem_append_left _ listed, writes⟩⟩

theorem OwnerCallKept.share (known : OwnerCallKept db user call) (member : MemberRow) :
    OwnerCallKept { db with members := db.members ++ [member] } user call := by
  cases call with
  | library call => cases call <;> exact known
  | storing upload rest call | insertingObjects upload rest | readingHead upload
  | insertingCommit upload parent | movingHead upload parent =>
    exact ⟨known.1.share member, known.2⟩
  | _ => exact known

theorem owners_kept (reached : owners.Reachable ownersApart state) :
    OwnersKept state.world ∧ OwnerCallKept state.world.lib.db state.user state.call := by
  refine System.reachable_invariant (I := fun state : OwnersState =>
    OwnersKept state.world ∧ OwnerCallKept state.world.lib.db state.user state.call)
    ?_ ?_ reached
  · rintro state ⟨isEmpty, isDone⟩
    rw [isEmpty, isDone]
    exact ⟨ownersKept_empty, trivial⟩
  · rintro state next action ⟨kept, known⟩ apart taken
    cases action with
    | start user job =>
      cases taken
      exact ⟨kept, job.begin_kept⟩
    | go tick =>
      obtain ⟨⟨world, call⟩, step, rfl⟩ := Option.map_eq_some_iff.mp taken
      have stepped := ownerStep_kept kept known apart step
      exact ⟨stepped.kept, stepped.known⟩
    | share member =>
      cases taken
      exact ⟨kept.members _, known.share member⟩
    | forget id block =>
      cases taken
      exact ⟨kept.disk rfl kept.blocks, known⟩

/-- In every run whose steps are apart live and trashed libraries do not harm each other. -/
theorem libraries_harmless (reached : owners.Reachable ownersApart state) :
    Harmless ownersApart state := by
  obtain ⟨kept, known⟩ := owners_kept reached
  refine ⟨fun action next apart taken repoId owner owned isOther => ?_, fun repoId isLive =>
    ⟨fun made listed _ => kept.made made listed, fun id => kept.blocks repoId id (Or.inl isLive)⟩,
    fun tick trashed next head atEnd succeeds taken remembered => ?_⟩
  · cases action with
    | start user job =>
      cases taken
      exact Or.inl (.refl repoId _)
    | go tick =>
      obtain ⟨⟨world, call⟩, step, rfl⟩ := Option.map_eq_some_iff.mp taken
      by_cases touches : state.call.Touches state.world.lib.db repoId
      · have isUser := touched_owner kept known apart touches owned
        exact Or.inr (isUser.resolve_left isOther)
      · exact Or.inl ((ownerStep_kept kept known apart step).untouched repoId touches)
    | share member =>
      cases taken
      exact Or.inl (.rowsOnly ⟨rfl, rfl, rfl, rfl, rfl, rfl⟩ rfl)
    | forget id block =>
      cases taken
      exact Or.inl (.rowsOnly (.refl repoId _) rfl)
  · rw [atEnd] at known
    obtain ⟨⟨entry, _⟩, row, found, isHead⟩ := known
    obtain ⟨recorded, entry', isRecorded⟩ := kept.recorded trashed.repoId head remembered
    cases entry.symm.trans entry'
    obtain ⟨⟨world, call⟩, step, rfl⟩ := Option.map_eq_some_iff.mp taken
    rw [atEnd] at step
    simp only [ownerStep, ownLibraryStep, libraryStep, restoreStep, succeeds, Option.map_some,
      Option.some.injEq, Prod.mk.injEq] at step
    obtain ⟨rfl, _⟩ := step
    exact ⟨row, found, isHead.trans isRecorded⟩

def ownerCallApart (world : OwnersWorld) : OwnerCall → Bool
  | .library (.creating id _ _ _ _) => (world.lib.db.findRepo id).isSome ||
      (world.lib.db.findDeleted id).isNone
  | .library (.trashing row) => (world.lib.db.findDeleted row.id).all fun trashed =>
    trashed.headId = row.headCommitId
  | .library (.heading trashed) =>
    match trashed.headId with
    | some head => (world.lib.db.commits.find trashed.repoId head).isSome
    | none => (world.lib.db.findRepo trashed.repoId).all fun row => row.headCommitId = none
  | .storing _ _ (.probing repoId id data) =>
    world.lib.cachedLen repoId id ≠ some data.length ||
      (BlockTree.findBlock world.lib.files repoId id).isSome
  | .purging repoId => (world.lib.db.findRepo repoId).isNone
  | _ => true

theorem ownerCallApart_sound (allowed : ownerCallApart world call = true) :
    OwnerCallApart world call := by
  cases call with
  | library call =>
    cases call with
    | creating id name description ownerId keys =>
      refine (Bool.or_eq_true_iff.mp allowed).imp_right fun isNone => ?_
      rw [LibraryDb.InTrash, Option.isNone_iff_eq_none.mp isNone]
      exact Bool.false_ne_true
    | trashing row =>
      intro trashed found
      rw [ownerCallApart, found] at allowed
      exact of_decide_eq_true allowed
    | heading trashed =>
      dsimp only [ownerCallApart] at allowed
      show HeadRecorded world.lib.db trashed
      unfold HeadRecorded
      split
      · rename_i head isHead
        rw [isHead] at allowed
        exact allowed
      · rename_i noHead
        rw [noHead] at allowed
        intro row found
        rw [found] at allowed
        exact of_decide_eq_true allowed
    | _ => trivial
  | storing upload rest call =>
    cases call with
    | probing repoId id data =>
      intro cached
      refine (Bool.or_eq_true_iff.mp allowed).resolve_left fun notCached => ?_
      exact of_decide_eq_true notCached cached
    | _ => trivial
  | purging repoId =>
    show ¬ world.lib.db.Live repoId
    rw [LibraryDb.Live, Option.isNone_iff_eq_none.mp allowed]
    exact Bool.false_ne_true
  | _ => trivial

def ownersApartCheck (state : OwnersState) : OwnerAction → Bool
  | .go _ => ownerCallApart state.world state.call
  | _ => true

theorem ownersApart_of_check (state : OwnersState) (action : OwnerAction)
    (allowed : ownersApartCheck state action = true) : ownersApart state action := by
  cases action with
  | go tick => exact ownerCallApart_sound allowed
  | _ => trivial

def ownerSteps (user : Int) (job : OwnerJob) (count : Nat) : List OwnerAction :=
  .start user job :: List.replicate count (.go ⟨10, false, none⟩)

def notesUpload : LibraryUpload where
  repoId := "r1"
  blocks := [("b1", [7])]
  objects := [("f1", ⟨1, "one block"⟩)]
  commitId := "c1"
  commit := ⟨"f1", none, none, "ann", "", "Added notes", 5, 1, none, none⟩

def uploadedAndDeleted : List OwnerAction :=
  ownerSteps 1 (.create "r1" "notes" "" .none) 2 ++ ownerSteps 1 (.upload notesUpload) 11 ++
    ownerSteps 1 (.delete "r1") 4

def runOwners (check : OwnersState → OwnerAction → Bool) (actions : List OwnerAction) :
    Option OwnersState :=
  owners.runChecked check actions ⟨emptyLibraries, 0, .done⟩

/-- After another user has created and deleted a library, the restored one has its head, its commit
and its block. -/
theorem library_restored_with_head : ∃ state : OwnersState, Harmless ownersApart state ∧
    (∃ row, state.world.lib.db.findRepo "r1" = some row ∧ row.headCommitId = some "c1") ∧
    (state.world.lib.db.commits.find "r1" "c1").isSome = true ∧
    BlockTree.HasBlock state.world.lib.files "r1" "b1" := by
  have ran : (runOwners ownersApartCheck
      (uploadedAndDeleted ++ ownerSteps 2 (.create "r2" "mine" "" .none) 2 ++
        ownerSteps 2 (.delete "r2") 4 ++ ownerSteps 1 (.restore "r1") 9)).any (fun state =>
        (state.world.lib.db.findRepo "r1").any (fun row => row.headCommitId = some "c1") &&
          (state.world.lib.db.commits.find "r1" "c1").isSome &&
            (BlockTree.findBlock state.world.lib.files "r1" "b1").isSome) = true := by
    decide +kernel
  obtain ⟨state, run, isLast⟩ := (Option.any_eq_true _ _).mp ran
  obtain ⟨isLast, block⟩ := Bool.and_eq_true_iff.mp isLast
  obtain ⟨headed, commit⟩ := Bool.and_eq_true_iff.mp isLast
  obtain ⟨row, found, isHead⟩ := (Option.any_eq_true _ _).mp headed
  exact ⟨state, libraries_harmless (System.reachable_of_runChecked ownersApart_of_check _ _ _
    (.init ⟨rfl, rfl⟩) run), ⟨row, found, of_decide_eq_true isHead⟩, commit, block⟩

/-- Another user creates a library with the id of the deleted one and deletes it in turn: the step
that archives it drops the archive that was there. -/
theorem archive_of_other_replaced : ∃ state : OwnersState,
    owners.Reachable (fun _ _ => True) state ∧ ¬ Harmless (fun _ _ => True) state := by
  have ran : (runOwners (fun _ _ => true) (uploadedAndDeleted ++
      ownerSteps 2 (.create "r1" "mine" "" .none) 2 ++ ownerSteps 2 (.delete "r1") 2)).any
        (fun state => state.user = 2 && state.call = .library (.archiving "r1") &&
          (state.world.lib.db.findDeleted "r1").any (fun trashed => trashed.ownerId = 1) &&
            (owners.step state (.go ⟨10, false, none⟩)).any fun next =>
              next.world.lib.db.archivedCommits.ofRepo "r1" ≠
                state.world.lib.db.archivedCommits.ofRepo "r1") = true := by
    decide +kernel
  obtain ⟨state, run, isLast⟩ := (Option.any_eq_true _ _).mp ran
  obtain ⟨isLast, replaced⟩ := Bool.and_eq_true_iff.mp isLast
  obtain ⟨isLast, owned⟩ := Bool.and_eq_true_iff.mp isLast
  obtain ⟨isUser, isCall⟩ := Bool.and_eq_true_iff.mp isLast
  obtain ⟨trashed, entry, isOwner⟩ := (Option.any_eq_true _ _).mp owned
  obtain ⟨next, taken, isNew⟩ := (Option.any_eq_true _ _).mp replaced
  have isUser : state.user = 2 := of_decide_eq_true isUser
  have isCall : state.call = .library (.archiving "r1") := of_decide_eq_true isCall
  refine ⟨state, System.reachable_of_runChecked (fun _ _ _ => trivial) _ _ _
    (.init ⟨rfl, rfl⟩) run, fun harmless => ?_⟩
  have left := harmless.others _ next trivial taken "r1" 1
    (Or.inr ⟨trashed, entry, of_decide_eq_true isOwner⟩) (by rw [isUser]; decide)
  rcases left with untouched | uploads
  · exact of_decide_eq_true isNew untouched.rows.archivedCommits
  · rw [isCall] at uploads
    exact uploads.1.elim

end Nanofile
