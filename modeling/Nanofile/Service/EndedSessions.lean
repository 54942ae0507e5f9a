import Nanofile.Service.PasswordRotations

/-!
# Sessions and a rotation

A rotation drops the cached keys after it has stored the new ones.  An unlocking call that has
read the row before and caches its key after brings an old session back.
-/

set_option autoImplicit false

namespace Nanofile

open Nanofile.Lib

structure RotatedLibrary where
  library : KeyedLibrary
  rotation : Rotation

/-- One rotation and any number of unlocking calls; a request is the next step of the rotation. -/
def rotationProgram (prims : Primitives) (repoId : String) :
    Program RotatedLibrary Unlock CallTick (Int × String) CallTick where
  serve tick shared :=
    match shared.rotation.advance prims repoId tick shared.library with
    | some (library, rotation) => ⟨library, rotation⟩
    | none => shared
  begin job := ⟨job.1, job.2, .started⟩
  advance tick shared call := (call.advance prims repoId tick shared.library).map fun after =>
    (⟨after.1, shared.rotation⟩, after.2)

def Rotation.Done (rotation : Rotation) : Prop := rotation.phase = .returned (.ok ())

/-- A user who is given a key has presented a password that the row accepts. -/
def SessionsEnded (prims : Primitives) (repoId : String)
    (state : Threads RotatedLibrary Unlock) : Prop :=
  ∀ now userId key, state.shared.library.manager.getDecryptKey now repoId userId = some key →
    ∃ call ∈ state.running, call.userId = userId ∧
      Accepts prims repoId state.shared.library.row call.password

/-- A call that caches its key after the rotation has read the row that is stored now. -/
def CachesCurrent (state : Threads RotatedLibrary Unlock) :
    ThreadAction CallTick (Int × String) CallTick → Prop
  | .serve _ => True
  | .begin _ => True
  | .advance index _ => ∀ call material key, state.running[index]? = some call →
      call.phase = .verified material key → state.shared.rotation.Done →
      state.shared.library.row.material = .ok material

variable {prims : Primitives} {repoId : String}

/-- What a run keeps: a key is cached for a user who presented an accepted password, once the
rotation is done, and a verified call has derived its key from what it read. -/
structure SessionsKept (prims : Primitives) (repoId : String)
    (state : Threads RotatedLibrary Unlock) : Prop where
  cached : state.shared.rotation.Done → ∀ entry ∈ state.shared.library.manager.cache,
    ∀ userId, entry.1 = PasswordManager.cacheKey repoId userId → ∃ call ∈ state.running,
      call.userId = userId ∧ Accepts prims repoId state.shared.library.row call.password
  verified : ∀ call ∈ state.running, ∀ material key, call.phase = .verified material key →
    unlockKey prims repoId call.password material = .ok key

variable {tick : CallTick} {library : KeyedLibrary}

theorem Rotation.Moves.drops_of_done {call : Rotation}
    {after : KeyedLibrary × Rotation} (moves : Rotation.Moves prims repoId tick library call after)
    (done : after.2.Done) :
    after.1 = { library with manager := library.manager.removeRepo repoId } := by
  cases moves with
  | drops => rfl
  | fails | reads | verifies | caches | rewraps | stores => cases done

variable {call : Unlock} {after : KeyedLibrary × Unlock}

theorem Unlock.Moves.same_user
    (moves : Unlock.Moves prims repoId tick library call after) :
    after.2.userId = call.userId ∧ after.2.password = call.password := by
  cases moves <;> exact ⟨rfl, rfl⟩

theorem exists_call_set {calls : List Unlock} {index : Nat} {after : Unlock}
    (found : calls[index]? = some call) (sameUser : after.userId = call.userId)
    (samePassword : after.password = call.password) {P : Int → String → Prop}
    (presented : ∃ call ∈ calls, P call.userId call.password) :
    ∃ call ∈ calls.set index after, P call.userId call.password := by
  obtain ⟨other, listed, holds⟩ := presented
  obtain ⟨j, isOther⟩ := List.mem_iff_getElem?.mp listed
  have inRange := (List.getElem?_eq_some_iff.mp found).1
  by_cases same : index = j
  · rw [← same, found] at isOther
    refine ⟨after, List.mem_iff_getElem?.mpr ⟨index, List.getElem?_set_self inRange⟩, ?_⟩
    rw [sameUser, samePassword, Option.some.inj isOther]
    exact holds
  · refine ⟨other, List.mem_iff_getElem?.mpr ⟨j, ?_⟩, holds⟩
    rw [List.getElem?_set_ne same]
    exact isOther

variable {state : Threads RotatedLibrary Unlock}

theorem SessionsKept.serve (tick : CallTick) (kept : SessionsKept prims repoId state) :
    SessionsKept prims repoId
      { state with shared := (rotationProgram prims repoId).serve tick state.shared } := by
  cases moved : state.shared.rotation.advance prims repoId tick state.shared.library with
  | none =>
    have same : (rotationProgram prims repoId).serve tick state.shared = state.shared := by
      simp only [rotationProgram, moved]
    rw [same]
    exact kept
  | some after =>
    have next : (rotationProgram prims repoId).serve tick state.shared = ⟨after.1, after.2⟩ := by
      simp only [rotationProgram, moved]
    rw [next]
    refine ⟨?_, kept.verified⟩
    intro done entry cached userId isKey
    have dropped := (Rotation.moves_of_advance moved).drops_of_done done
    dsimp only at cached
    rw [dropped] at cached
    exact absurd isKey (PasswordManager.not_mem_removeRepo cached)

theorem SessionsKept.advance {index : Nat}
    (kept : SessionsKept prims repoId state) (found : state.running[index]? = some call)
    (current : CachesCurrent state (.advance index tick))
    (moved : call.advance prims repoId tick state.shared.library = some after) :
    SessionsKept prims repoId
      ⟨⟨after.1, state.shared.rotation⟩, state.running.set index after.2⟩ := by
  have moves := Unlock.moves_of_advance moved
  obtain ⟨sameUser, samePassword⟩ := moves.same_user
  have listed := List.mem_of_getElem? found
  refine ⟨?_, ?_⟩
  · intro done entry cached userId isKey
    dsimp only at cached ⊢
    rw [moves.row_eq.1]
    refine exists_call_set (P := fun user password => user = userId ∧
      Accepts prims repoId state.shared.library.row password) found sameUser samePassword ?_
    cases moves with
    | caches material key isHere =>
      rcases PasswordManager.mem_insertKey cached with isNew | old
      · refine ⟨call, listed, PasswordManager.cacheKey_injective (isNew.symm.trans isKey),
        material, key, ?_, ?_⟩
        · exact current call material key found isHere done
        · exact kept.verified call listed material key isHere
      · exact kept.cached done entry old userId isKey
    | fails | reads | verifies => exact kept.cached done entry cached userId isKey
  · intro other isOther material key isHere
    rcases List.mem_or_eq_of_mem_set isOther with old | rfl
    · exact kept.verified other old material key isHere
    · cases moves with
      | verifies material' key' isHere' opened =>
        cases isHere
        exact opened
      | fails | reads | caches => cases isHere

/-- A rotation that starts on a library, with any keys cached. -/
def StartsRotation (shared : RotatedLibrary) : Prop :=
  shared.rotation.phase = .started ∧ shared.rotation.wrote = false

/-- In every run in which a call that caches its key after the rotation has read the row that is
stored, the rotation ends the old sessions. -/
theorem rotation_ends_sessions {state : Threads RotatedLibrary Unlock}
    (reached : ((rotationProgram prims repoId).system StartsRotation).Reachable CachesCurrent
      state) : state.shared.rotation.Done → SessionsEnded prims repoId state := by
  have kept : SessionsKept prims repoId state := by
    refine System.reachable_invariant (I := SessionsKept prims repoId) ?_ ?_ reached
    · rintro initial ⟨starts, idle⟩
      refine ⟨?_, ?_⟩
      · intro done
        rw [Rotation.Done, starts.1] at done
        cases done
      · intro call listed
        rw [idle] at listed
        cases listed
    · intro before next action kept met taken
      cases action with
      | serve tick =>
        cases taken
        exact kept.serve tick
      | begin job =>
        cases taken
        refine ⟨?_, ?_⟩
        · intro done entry cached userId isKey
          obtain ⟨call, listed, presented⟩ := kept.cached done entry cached userId isKey
          exact ⟨call, List.mem_append_left _ listed, presented⟩
        · intro call listed material key isHere
          rcases List.mem_append.mp listed with old | new
          · exact kept.verified call old material key isHere
          · rw [List.mem_singleton.mp new] at isHere
            cases isHere
      | advance index tick =>
        obtain ⟨call, after, found, moved, rfl⟩ := Program.step_advance_iff.mp taken
        obtain ⟨after', taken', rfl⟩ := Option.map_eq_some_iff.mp moved
        exact kept.advance found met taken'
  intro done now userId key given
  obtain ⟨entry, cached, isKey⟩ := PasswordManager.mem_of_getDecryptKey given
  exact kept.cached done entry cached userId isKey

def Rotation.isDone (rotation : Rotation) : Bool :=
  match rotation.phase with
  | .returned (.ok ()) => true
  | _ => false

theorem Rotation.done_of_isDone {rotation : Rotation} (done : rotation.isDone = true) :
    rotation.Done := by
  unfold isDone at done
  split at done
  · assumption
  · cases done

def cachesCurrentCheck (state : Threads RotatedLibrary Unlock) :
    ThreadAction CallTick (Int × String) CallTick → Bool
  | .advance index _ =>
    match state.running[index]? with
    | some ⟨_, _, .verified material _⟩ => decide (state.shared.library.row.material = .ok material)
    | _ => true
  | _ => true

theorem cachesCurrent_of_check {action : ThreadAction CallTick (Int × String) CallTick}
    (checked : cachesCurrentCheck state action = true) : CachesCurrent state action := by
  cases action with
  | serve | begin => trivial
  | advance index tick =>
    intro call material key found isHere _
    obtain ⟨userId, password, phase⟩ := call
    dsimp only at isHere
    subst isHere
    rw [cachesCurrentCheck, found] at checked
    exact of_decide_eq_true checked

def quietTick : CallTick := ⟨0, none⟩

/-- User 1 rotates the library of the sample row, which user 2 has unlocked. -/
def rotationStart : Threads RotatedLibrary Unlock :=
  ⟨⟨⟨sampleRow, ⟨[(PasswordManager.cacheKey sampleId 2, ⟨[1], [2], 3600⟩)], 3600, 10000⟩, "old"⟩,
    ⟨1, "old", "new", .started, false⟩⟩, []⟩

theorem rotationStart_init :
    ((rotationProgram samplePrims sampleId).system StartsRotation).init rotationStart :=
  ⟨⟨rfl, rfl⟩, rfl⟩

def Unlock.Finished (call : Unlock) : Prop := ∃ outcome, call.phase = .returned outcome

def Unlock.isFinished (call : Unlock) : Bool :=
  match call.phase with
  | .returned _ => true
  | _ => false

theorem Unlock.finished_of_isFinished (finished : call.isFinished = true) : call.Finished := by
  unfold isFinished at finished
  split at finished
  · exact ⟨_, ‹_›⟩
  · cases finished

def wholeRotation : List (ThreadAction CallTick (Int × String) CallTick) :=
  List.replicate 6 (.serve quietTick)

/-- The session from before the rotation is over, one with the new password is open. -/
theorem rotation_ends_sample_sessions :
    ∃ state, ((rotationProgram samplePrims sampleId).system StartsRotation).Reachable CachesCurrent
        state ∧
      (state.shared.library.manager.getDecryptKey 0 sampleId 3).isSome = true ∧
      SessionsEnded samplePrims sampleId state := by
  let actions := wholeRotation ++ ThreadAction.begin (3, "new") ::
    List.replicate 3 (.advance 0 quietTick)
  have ran : ((((rotationProgram samplePrims sampleId).system StartsRotation).runChecked
      cachesCurrentCheck actions rotationStart).map fun state =>
        (state.shared.rotation.isDone,
          (state.shared.library.manager.getDecryptKey 0 sampleId 3).isSome)) =
      some (true, true) := by
    decide +kernel
  obtain ⟨state, isState, facts⟩ := Option.map_eq_some_iff.mp ran
  obtain ⟨done, open_⟩ := Prod.mk.inj facts
  have reached := System.reachable_of_runChecked (fun _ _ => cachesCurrent_of_check) actions
    rotationStart state (.init rotationStart_init) isState
  exact ⟨state, reached, open_, rotation_ends_sessions reached (Rotation.done_of_isDone done)⟩

/-- User 2 reads the row before the keys are stored and caches the old session's key at the end:
the key is given although only the old password was presented. -/
theorem rotation_leaves_session :
    ¬ ∀ (prims : Primitives) (repoId : String) (state : Threads RotatedLibrary Unlock),
      prims.Sound →
      ((rotationProgram prims repoId).system StartsRotation).Reachable (fun _ _ => True) state →
      state.shared.rotation.Done → (∀ call ∈ state.running, call.Finished) →
      (∀ call ∈ state.running, call.userId ≠ state.shared.rotation.userId) →
      SessionsEnded prims repoId state := by
  intro always
  let actions := ThreadAction.begin (2, "old") :: List.replicate 2 (.advance 0 quietTick) ++
    wholeRotation ++ [ThreadAction.advance 0 quietTick]
  let run := ((rotationProgram samplePrims sampleId).system StartsRotation).runChecked
    (fun _ _ => true) actions rotationStart
  have ran : (run.map fun state => (state.shared.rotation.isDone,
      state.running.all fun call => call.isFinished && call.userId ≠ state.shared.rotation.userId,
      (state.shared.library.manager.getDecryptKey 0 sampleId 2).isSome,
      state.running.all fun call => decide (call.password = "old"),
      (state.shared.library.row.material.toOption.bind fun material =>
        (unlockKey samplePrims sampleId "old" material).toOption).isSome)) =
      some (true, true, true, true, false) := by
    decide +kernel
  obtain ⟨state, isState, facts⟩ := Option.map_eq_some_iff.mp ran
  simp only [Prod.mk.injEq, List.all_eq_true, Bool.and_eq_true, decide_eq_true_eq] at facts
  obtain ⟨done, others, given, old, refused⟩ := facts
  have reached := System.reachable_of_runChecked (fun _ _ _ => trivial) actions rotationStart state
    (.init rotationStart_init) isState
  obtain ⟨key, isKey⟩ := Option.isSome_iff_exists.mp given
  obtain ⟨call, listed, -, material, key', isMaterial, opened⟩ :=
    always samplePrims sampleId state (samplePrimitives_sound _ _) reached
      (Rotation.done_of_isDone done)
      (fun call listed => Unlock.finished_of_isFinished (others call listed).1)
      (fun call listed => (others call listed).2) 0 2 key isKey
  rw [old call listed] at opened
  rw [isMaterial] at refused
  dsimp only [Except.toOption, Option.bind] at refused
  rw [opened] at refused
  cases refused

end Nanofile
