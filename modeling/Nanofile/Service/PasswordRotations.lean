import Nanofile.Service.PasswordCalls

/-!
# Rotations keep a library open

A library that was created from a password belongs to it, and every key update hands it over to
the new password with the secret it has always had.
-/

set_option autoImplicit false

namespace Nanofile

open Nanofile.Lib

inductive PasswordCall where
  | unlock (call : Unlock)
  | rotate (call : Rotation)

inductive PasswordJob where
  | unlock (userId : Int) (password : String)
  | rotate (userId : Int) (oldPassword newPassword : String)

def PasswordJob.begin : PasswordJob → PasswordCall
  | .unlock userId password => .unlock ⟨userId, password, .started⟩
  | .rotate userId oldPassword newPassword =>
    .rotate ⟨userId, oldPassword, newPassword, .started, false⟩

def PasswordCall.advance (prims : Primitives) (repoId : String) (tick : CallTick)
    (library : KeyedLibrary) : PasswordCall → Option (KeyedLibrary × PasswordCall)
  | .unlock call => (call.advance prims repoId tick library).map fun after =>
    (after.1, .unlock after.2)
  | .rotate call => (call.advance prims repoId tick library).map fun after =>
    (after.1, .rotate after.2)

def passwordProgram (prims : Primitives) (repoId : String) :
    Program KeyedLibrary PasswordCall Unit PasswordJob CallTick where
  serve _ library := library
  begin := PasswordJob.begin
  advance := PasswordCall.advance prims repoId

variable {prims : Primitives} {repoId password : String} {saltBytes secretKey : List UInt8}
    {policy : EncryptedLibraryPolicy}

theorem generateVerifier_ok {repoSalt : String} {verifier : Option String × PwdHash}
    (generated : generateVerifier prims repoId password repoSalt policy = .ok verifier)
    (randomKey : String) :
    VerifierOf prims repoId password ⟨policy.encVersion, verifier.1, randomKey, repoSalt,
      verifier.2.hash, verifier.2.algo, verifier.2.params⟩ ∧
      (verifier.2.isPresent = true → verifier.1 = none) := by
  unfold generateVerifier at generated
  split at generated
  · obtain ⟨_, valid, generated⟩ := except_bind_ok_iff.mp generated
    obtain ⟨hash, derived, isVerifier⟩ := except_bind_ok_iff.mp generated
    cases isVerifier
    exact ⟨⟨asBadRequest_ok_iff.mp valid, hash, rfl, derivationFailed_ok_iff.mp derived⟩,
      fun _ => rfl⟩
  · obtain ⟨magic, derived, isVerifier⟩ := except_bind_ok_iff.mp generated
    cases isVerifier
    refine ⟨⟨magic, rfl, derivationFailed_ok_iff.mp derived⟩, ?_⟩
    intro present
    cases present

theorem generateKeys_ok {draft : KeyDraft}
    (generated : generateKeys prims repoId password policy saltBytes secretKey = .ok draft) :
    ∃ randomKey repoSalt, draft.randomKey = some randomKey ∧
      (draft.encVersion = 2 ∧ repoSalt = "" ∨
        draft.encVersion = 4 ∧ draft.salt.getD "" = repoSalt) ∧
      (draft.pwdHash.isPresent = true → draft.magic = none) ∧
      BelongsTo prims repoId password secretKey ⟨draft.encVersion, draft.magic, randomKey, repoSalt,
        draft.pwdHash.hash, draft.pwdHash.algo, draft.pwdHash.params⟩ := by
  obtain ⟨_, supported, generated⟩ := except_bind_ok_iff.mp generated
  have version := ensure_eq_ok_iff.mp supported
  obtain ⟨verifier, isVerifier, generated⟩ := except_bind_ok_iff.mp generated
  obtain ⟨randomKey, wrapped, isDraft⟩ := except_bind_ok_iff.mp generated
  cases isDraft
  obtain ⟨verifies, dropped⟩ := generateVerifier_ok isVerifier randomKey
  refine ⟨randomKey, _, rfl, ?_, dropped, ?_, verifies, derivationFailed_ok_iff.mp wrapped⟩
  · rcases version with two | four
    · exact .inl ⟨two, by rw [two]; rfl⟩
    · refine .inr ⟨four, ?_⟩
      dsimp only
      by_cases isNil : (if 3 ≤ policy.encVersion then hexEncode saltBytes else "") = ""
      · rw [if_pos isNil, isNil]
        rfl
      · rw [if_neg isNil]
        rfl
  · rcases version with two | four
    · exact .inl ⟨two, by rw [two]; rfl⟩
    · exact .inr four

variable {row : KeyRow}

theorem createRepoKeys_belongs {request : KeyRequest} (bare : request.barePassword = some password)
    (created : createRepoKeys prims repoId request policy saltBytes secretKey = .ok row) :
    ∃ material, row.material = .ok material ∧
      BelongsTo prims repoId password secretKey material := by
  obtain ⟨draft, isDraft, created⟩ := except_bind_ok_iff.mp created
  rw [filledDraft, bare] at isDraft
  obtain ⟨randomKey, repoSalt, isKey, versioned, dropped, belongs⟩ := generateKeys_ok isDraft
  have present : draft.suppliesKeys = true ∨ 2 ≤ draft.encVersion := by
    rcases versioned with ⟨two, -⟩ | ⟨four, -⟩ <;> right <;> omega
  rw [if_pos (Or.inr present)] at created
  obtain ⟨checked, valid, isRow⟩ := except_bind_ok_iff.mp created
  have sameMagic : (if draft.pwdHash.isPresent then none else draft.magic) = draft.magic := by
    split
    · rename_i isPresent
      exact (dropped isPresent).symm
    · rfl
  have sameDraft := validateKeys_ok valid
  rw [sameMagic] at sameDraft
  cases isRow
  refine ⟨_, ?_, belongs⟩
  rw [sameDraft]
  rcases versioned with ⟨two, rfl⟩ | ⟨four, isSalt⟩
  · simp only [KeyDraft.toRow, KeyRow.material, isKey, two]
    rfl
  · simp only [KeyDraft.toRow, KeyRow.material, isKey, four, isSalt]
    rfl

/-- The material of another password for the same library. -/
def SameLibrary (base material : RepoKeyMaterial) : Prop :=
  material.encVersion = base.encVersion ∧ material.salt = base.salt

variable {material : RepoKeyMaterial}

theorem updatedMaterial_of_same {base : RepoKeyMaterial} (same : SameLibrary base material)
    (params : UpdateRepoKeysParams) (randomKey : String) :
    updatedMaterial material params randomKey = updatedMaterial base params randomKey := by
  rw [updatedMaterial, updatedMaterial, same.1, same.2]

theorem KeyRow.material_updateRepoKeys {params : UpdateRepoKeysParams} {randomKey : String}
    (isMaterial : row.material = .ok material) (isKey : params.randomKey = some randomKey) :
    (row.updateRepoKeys params).material = .ok (updatedMaterial material params randomKey) := by
  unfold KeyRow.material at isMaterial
  split at isMaterial
  · cases isMaterial
  · rename_i encrypted
    split at isMaterial
    · cases isMaterial
    · cases isMaterial
      simp only [KeyRow.material, KeyRow.updateRepoKeys, isKey]
      rw [if_neg encrypted]
      rfl

section Runs

variable {base : RepoKeyMaterial}

def Handed (prims : Primitives) (repoId : String) (secretKey : List UInt8) (base : RepoKeyMaterial)
    (library : KeyedLibrary) : Prop :=
  ∃ material, library.row.material = .ok material ∧ SameLibrary base material ∧
    BelongsTo prims repoId library.current secretKey material

def Rotation.Holds (prims : Primitives) (repoId : String) (secretKey : List UInt8)
    (base : RepoKeyMaterial) (call : Rotation) : Prop :=
  match call.phase with
  | .started => call.wrote = false
  | .read material => call.wrote = false ∧ SameLibrary base material ∧
      ∃ password, BelongsTo prims repoId password secretKey material
  | .verified material _ => call.wrote = false ∧ SameLibrary base material ∧
      BelongsTo prims repoId call.oldPassword secretKey material
  | .cached material => call.wrote = false ∧ SameLibrary base material ∧
      BelongsTo prims repoId call.oldPassword secretKey material
  | .rewrapped params => call.wrote = false ∧ ∃ randomKey, params.randomKey = some randomKey ∧
      BelongsTo prims repoId call.newPassword secretKey (updatedMaterial base params randomKey)
  | .stored => call.wrote = true
  | .returned (.error _) => call.wrote = false
  | .returned (.ok _) => call.wrote = true

def PasswordCall.Holds (prims : Primitives) (repoId : String) (secretKey : List UInt8)
    (base : RepoKeyMaterial) : PasswordCall → Prop
  | .unlock _ => True
  | .rotate call => call.Holds prims repoId secretKey base

variable {key : KeyIv}

theorem BelongsTo.opened (sound : prims.Sound) {given : String}
    (belongs : BelongsTo prims repoId password secretKey material)
    (opened : unlockKey prims repoId given material = .ok key) : given = password := by
  obtain ⟨blockKey, isKey⟩ := belongs.blockKey
  rw [belongs.unlockKey_eq sound isKey] at opened
  by_contra differ
  rw [if_neg differ] at opened
  cases opened

variable {call : Rotation}

theorem Rotation.Holds.unwritten (holds : call.Holds prims repoId secretKey base)
    (before : call.phase ≠ .stored) (running : ∀ outcome, call.phase ≠ .returned outcome) :
    call.wrote = false := by
  unfold Rotation.Holds at holds
  cases isPhase : call.phase with
  | started => simpa [isPhase] using holds
  | read material | verified material key | cached material | rewrapped params =>
    rw [isPhase] at holds; exact holds.1
  | stored => exact absurd isPhase before
  | returned outcome => exact absurd isPhase (running outcome)

variable {library : KeyedLibrary} {tick : CallTick} {after : KeyedLibrary × Rotation}

theorem Rotation.Moves.holds (sound : prims.Sound)
    (moves : Rotation.Moves prims repoId tick library call after)
    (handed : Handed prims repoId secretKey base library)
    (holds : call.Holds prims repoId secretKey base) :
    Handed prims repoId secretKey base after.1 ∧ after.2.Holds prims repoId secretKey base := by
  cases moves with
  | fails failure before running => exact ⟨handed, holds.unwritten before running⟩
  | reads material isHere isMaterial =>
    rw [Rotation.Holds, isHere] at holds
    obtain ⟨material', isMaterial', same, belongs⟩ := handed
    cases isMaterial.symm.trans isMaterial'
    exact ⟨⟨material, isMaterial, same, belongs⟩, holds, same, _, belongs⟩
  | verifies material key isHere opened =>
    rw [Rotation.Holds, isHere] at holds
    obtain ⟨unwritten, same, password, belongs⟩ := holds
    rw [← belongs.opened sound opened] at belongs
    exact ⟨handed, unwritten, same, belongs⟩
  | caches material key isHere =>
    rw [Rotation.Holds, isHere] at holds
    exact ⟨handed, holds⟩
  | rewraps material params isHere changed =>
    rw [Rotation.Holds, isHere] at holds
    obtain ⟨unwritten, same, belongs⟩ := holds
    obtain ⟨randomKey, isKey, belongs⟩ := changedKeys_belongs sound belongs changed
    rw [updatedMaterial_of_same same] at belongs
    exact ⟨handed, unwritten, randomKey, isKey, belongs⟩
  | stores params isHere =>
    rw [Rotation.Holds, isHere] at holds
    obtain ⟨-, randomKey, isKey, belongs⟩ := holds
    obtain ⟨material, isMaterial, same, -⟩ := handed
    refine ⟨⟨_, KeyRow.material_updateRepoKeys isMaterial isKey, same, ?_⟩, rfl⟩
    rw [updatedMaterial_of_same same]
    exact belongs
  | drops isHere =>
    rw [Rotation.Holds, isHere] at holds
    exact ⟨handed, holds⟩

theorem Unlock.Moves.row_eq {call : Unlock} {after : KeyedLibrary × Unlock}
    (moves : Unlock.Moves prims repoId tick library call after) :
    after.1.row = library.row ∧ after.1.current = library.current := by
  cases moves <;> exact ⟨rfl, rfl⟩

theorem PasswordCall.advance_holds (sound : prims.Sound) {call : PasswordCall}
    {after : KeyedLibrary × PasswordCall} (handed : Handed prims repoId secretKey base library)
    (holds : call.Holds prims repoId secretKey base)
    (moved : call.advance prims repoId tick library = some after) :
    Handed prims repoId secretKey base after.1 ∧ after.2.Holds prims repoId secretKey base := by
  cases call with
  | unlock call =>
    obtain ⟨next, taken, rfl⟩ := Option.map_eq_some_iff.mp moved
    obtain ⟨sameRow, sameCurrent⟩ := (Unlock.moves_of_advance taken).row_eq
    obtain ⟨material, isMaterial, same, belongs⟩ := handed
    rw [← sameRow] at isMaterial
    rw [← sameCurrent] at belongs
    exact ⟨⟨material, isMaterial, same, belongs⟩, trivial⟩
  | rotate call =>
    obtain ⟨next, taken, rfl⟩ := Option.map_eq_some_iff.mp moved
    exact (Rotation.moves_of_advance taken).holds sound handed holds

/-- The runs of any calls for a library from its creation on. -/
abbrev PasswordRuns (prims : Primitives) (repoId : String) (created : KeyedLibrary)
    (state : Threads KeyedLibrary PasswordCall) : Prop :=
  ((passwordProgram prims repoId).system (· = created)).Reachable (fun _ _ => True) state

variable {state : Threads KeyedLibrary PasswordCall}

theorem passwordRuns_hold (sound : prims.Sound) {created : KeyedLibrary}
    (handed : Handed prims repoId secretKey base created)
    (reached : PasswordRuns prims repoId created state) :
    Handed prims repoId secretKey base state.shared ∧
      ∀ call ∈ state.running, call.Holds prims repoId secretKey base := by
  refine Program.threads_invariant_of_guard (I := Handed prims repoId secretKey base)
    (O := fun _ call => call.Holds prims repoId secretKey base) ?_ ?_ ?_ ?_ reached
  · intro library job _
    cases job with
    | unlock => trivial
    | rotate => exact rfl
  · intro state request handed holds _
    exact ⟨handed, holds⟩
  · intro state index call tick after handed holds found _ moved
    obtain ⟨handed', holds'⟩ := PasswordCall.advance_holds sound handed
      (holds call (List.mem_of_getElem? found)) moved
    exact ⟨handed', holds', holds⟩
  · rintro library rfl
    exact handed

/-- The current password opens the library with this key, and no other password opens it. -/
def OpensWith (prims : Primitives) (repoId : String) (key : KeyIv) (library : KeyedLibrary) :
    Prop :=
  ∃ material, library.row.material = .ok material ∧
    ∀ (manager : PasswordManager) (now userId : Int) (given : String),
      manager.setPassword prims now repoId userId given material =
        if given = library.current then .ok (manager.insertKey now repoId userId key)
        else .error .repoPasswdRequired

/-- A rotation that returns an error has not written, and without writing none of its steps
changes the row. -/
structure FailuresLeaveRow (prims : Primitives) (repoId : String)
    (state : Threads KeyedLibrary PasswordCall) : Prop where
  unwritten : ∀ call failure, .rotate call ∈ state.running →
    call.phase = .returned (.error failure) → call.wrote = false
  steps : ∀ index tick next call,
    (passwordProgram prims repoId).step state (.advance index tick) = some next →
    next.running[index]? = some (.rotate call) → call.wrote = false →
    next.shared.row = state.shared.row ∧
      ∃ before, state.running[index]? = some (.rotate before) ∧ before.wrote = false

/-- A rotation that returns success has written, and the step in which a rotation writes stores
keys under its new password. -/
structure SuccessesWrite (prims : Primitives) (repoId : String)
    (state : Threads KeyedLibrary PasswordCall) : Prop where
  written : ∀ call, .rotate call ∈ state.running → call.phase = .returned (.ok ()) →
    call.wrote = true
  steps : ∀ index tick next before call,
    (passwordProgram prims repoId).step state (.advance index tick) = some next →
    state.running[index]? = some (.rotate before) → next.running[index]? = some (.rotate call) →
    before.wrote = false → call.wrote = true →
    next.shared.current = before.newPassword ∧
      ∃ params, before.phase = .rewrapped params ∧
        next.shared.row = state.shared.row.updateRepoKeys params

theorem Handed.opensWith (sound : prims.Sound) (handed : Handed prims repoId secretKey base library)
    (isKey : deriveKeyBytes prims secretKey base.encVersion base.salt = .ok key) :
    OpensWith prims repoId key library := by
  obtain ⟨material, isMaterial, same, belongs⟩ := handed
  rw [← same.1, ← same.2] at isKey
  refine ⟨material, isMaterial, ?_⟩
  intro manager now userId given
  rw [PasswordManager.setPassword, belongs.unlockKey_eq sound isKey]
  by_cases isCurrent : given = library.current
  · rw [if_pos isCurrent, if_pos isCurrent]
    rfl
  · rw [if_neg isCurrent, if_neg isCurrent]
    rfl

theorem Rotation.Moves.row_eq (moves : Rotation.Moves prims repoId tick library call after)
    (unwritten : after.2.wrote = false) : after.1.row = library.row ∧ call.wrote = false := by
  cases moves with
  | stores params isHere => cases unwritten
  | fails | reads | verifies | caches | rewraps | drops => exact ⟨rfl, unwritten⟩

theorem Rotation.Moves.writes (moves : Rotation.Moves prims repoId tick library call after)
    (unwritten : call.wrote = false) (written : after.2.wrote = true) :
    after.1.current = call.newPassword ∧ ∃ params, call.phase = .rewrapped params ∧
      after.1.row = library.row.updateRepoKeys params := by
  cases moves with
  | stores params isHere => exact ⟨rfl, params, isHere, rfl⟩
  | fails | reads | verifies | caches | rewraps | drops =>
    rw [unwritten] at written
    cases written

theorem rotation_moves {index : Nat} {next : Threads KeyedLibrary PasswordCall}
    (taken : (passwordProgram prims repoId).step state (.advance index tick) = some next)
    (found : next.running[index]? = some (.rotate call)) :
    ∃ before, state.running[index]? = some (.rotate before) ∧
      Rotation.Moves prims repoId tick state.shared before (next.shared, call) := by
  obtain ⟨thread, after, isThread, moved, rfl⟩ := Program.step_advance_iff.mp taken
  have inRange := (List.getElem?_eq_some_iff.mp isThread).1
  rw [List.getElem?_set_self inRange] at found
  have isAfter : after.2 = .rotate call := Option.some.inj found
  cases thread with
  | unlock other =>
    obtain ⟨moved', -, rfl⟩ := Option.map_eq_some_iff.mp moved
    cases isAfter
  | rotate before =>
    obtain ⟨moved', taken', rfl⟩ := Option.map_eq_some_iff.mp moved
    cases isAfter
    exact ⟨before, isThread, Rotation.moves_of_advance taken'⟩

section

variable (holds : ∀ call ∈ state.running, call.Holds prims repoId secretKey base)
include holds

theorem failuresLeaveRow_of_holds : FailuresLeaveRow prims repoId state where
  unwritten call failure listed failed := by
    have known : call.Holds prims repoId secretKey base := holds _ listed
    rw [Rotation.Holds, failed] at known
    exact known
  steps index tick next call taken found unwritten := by
    obtain ⟨before, isBefore, moves⟩ := rotation_moves taken found
    obtain ⟨sameRow, before'⟩ := moves.row_eq unwritten
    exact ⟨sameRow, before, isBefore, before'⟩

theorem successesWrite_of_holds : SuccessesWrite prims repoId state where
  written call listed succeeded := by
    have known : call.Holds prims repoId secretKey base := holds _ listed
    rw [Rotation.Holds, succeeded] at known
    exact known
  steps index tick next before call taken isBefore found unwritten written := by
    obtain ⟨before', isBefore', moves⟩ := rotation_moves taken found
    cases isBefore.symm.trans isBefore'
    exact moves.writes unwritten written

end

/-- In every run of a library made from a password, the password of the last key update opens
it with the key it was created with, no other does, a rotation that succeeds has made this its
new password, and a failed one leaves the row. -/
theorem rotations_keep_open (sound : prims.Sound) {request : KeyRequest}
    {policy : EncryptedLibraryPolicy} {row : KeyRow} (bare : request.barePassword = some password)
    (created : createRepoKeys prims repoId request policy saltBytes secretKey = .ok row) :
    ∃ material key, row.material = .ok material ∧
      decryptRepoEncKey prims password material.randomKey material.encVersion material.salt =
        .ok key ∧
      ∀ (manager : PasswordManager) (state : Threads KeyedLibrary PasswordCall),
        PasswordRuns prims repoId ⟨row, manager, password⟩ state →
        OpensWith prims repoId key state.shared ∧ SuccessesWrite prims repoId state ∧
          FailuresLeaveRow prims repoId state := by
  obtain ⟨material, isMaterial, belongs⟩ := createRepoKeys_belongs bare created
  obtain ⟨key, isKey⟩ := belongs.blockKey
  refine ⟨material, key, isMaterial, ?_, ?_⟩
  · rw [decryptRepoEncKey_of_wrapped sound belongs.wrapped belongs.lowerDigits_randomKey, isKey]
  · intro manager state reached
    obtain ⟨handed, holds⟩ :=
      passwordRuns_hold sound ⟨material, isMaterial, ⟨rfl, rfl⟩, belongs⟩ reached
    exact ⟨handed.opensWith sound isKey, successesWrite_of_holds holds,
      failuresLeaveRow_of_holds holds⟩

end Runs

def sampleId : String := "11111111-1111-1111-1111-111111111111"

def samplePrims : Primitives := samplePrimitives (sampleId ++ "old") (sampleId ++ "new")

def bareRequest (passwd : String) : KeyRequest :=
  ⟨0, 0, none, none, none, ⟨none, none, none⟩, some passwd⟩

def sampleRow : KeyRow where
  encrypted := 1
  encVersion := 2
  magic := some "a180000000000000000000000000000000000000000000000000000000000000"
  randomKey := some
    "78787878787878787878787878787878787878787878787878787878787878787f7f7f7f7f7f7f7f7f7f7f7f7f7f7f7f"
  salt := ""
  pwdHash := none
  pwdHashAlgo := none
  pwdHashParams := none

theorem sampleRow_created :
    createRepoKeys samplePrims sampleId (bareRequest "old") ⟨2, none, none⟩
      (List.replicate 32 7) (List.replicate 32 9) = .ok sampleRow := by
  decide +kernel

/-- One user rotates from `old` to `new`. -/
def sampleRotation : List (ThreadAction Unit PasswordJob CallTick) :=
  .begin (.rotate 1 "old" "new") :: List.replicate 6 (.advance 0 ⟨0, none⟩)

theorem sampleRow_keeps_open :
    ∃ state key, PasswordRuns samplePrims sampleId ⟨sampleRow, ⟨[], 3600, 10000⟩, "old"⟩ state ∧
      state.shared.current = "new" ∧ OpensWith samplePrims sampleId key state.shared ∧
      SuccessesWrite samplePrims sampleId state ∧ FailuresLeaveRow samplePrims sampleId state := by
  let manager : PasswordManager := ⟨[], 3600, 10000⟩
  have ran : ((((passwordProgram samplePrims sampleId).system
      (· = ⟨sampleRow, manager, "old"⟩)).runChecked (fun _ _ => true) sampleRotation
      ⟨⟨sampleRow, manager, "old"⟩, []⟩).map fun state => state.shared.current) = some "new" := by
    decide +kernel
  obtain ⟨state, run, isNew⟩ := Option.map_eq_some_iff.mp ran
  have reached : PasswordRuns samplePrims sampleId ⟨sampleRow, manager, "old"⟩ state :=
    System.reachable_of_runChecked (fun _ _ _ => trivial) sampleRotation _ state
      (.init ⟨rfl, rfl⟩) run
  have bare : (bareRequest "old").barePassword = some "old" := by decide
  obtain ⟨material, key, -, -, always⟩ := rotations_keep_open (samplePrimitives_sound _ _)
    bare sampleRow_created
  exact ⟨state, key, reached, isNew, always manager state reached⟩

end Nanofile
