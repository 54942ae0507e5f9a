import Nanofile.Lib.Threads
import Nanofile.Service.OpenLibrary

/-!
# Unlocking and rotation step by step

Requests for one library interleave at their awaits: the row is read, the password verified and
the keys derived, the key cached, the new keys stored, the cached keys dropped.
-/

set_option autoImplicit false

namespace Nanofile

/-- The library: its row and the cached keys.  `current` is the password that was given to the
last key update. -/
structure KeyedLibrary where
  row : KeyRow
  manager : PasswordManager
  current : String
deriving DecidableEq, Repr

/-- What a step reads from outside: the time, and whether the database refuses. -/
structure CallTick where
  now : Int
  dbError : Option AppError

inductive UnlockPhase where
  | started
  | read (material : RepoKeyMaterial)
  | verified (material : RepoKeyMaterial) (key : KeyIv)
  | returned (outcome : Except PasswordError Unit)

/-- A call of `PasswordService::set_password`. -/
structure Unlock where
  userId : Int
  password : String
  phase : UnlockPhase

inductive RotationPhase where
  | started
  | read (material : RepoKeyMaterial)
  | verified (material : RepoKeyMaterial) (key : KeyIv)
  | cached (material : RepoKeyMaterial)
  | rewrapped (params : UpdateRepoKeysParams)
  | stored
  | returned (outcome : Except PasswordError Unit)

/-- A call of `change_password`; `wrote` says that it has updated the row. -/
structure Rotation where
  userId : Int
  oldPassword : String
  newPassword : String
  phase : RotationPhase
  wrote : Bool

section Steps

variable (prims : Primitives) (repoId : String)

/-- `find_by_id` and the checks on the row. -/
def readMaterial (tick : CallTick) (library : KeyedLibrary) :
    Except PasswordError RepoKeyMaterial :=
  match tick.dbError with
  | some failure => .error (.app failure)
  | none =>
    match library.row.material with
    | .ok material => .ok material
    | .error failure => .error (.app failure)

def Unlock.advance (tick : CallTick) (library : KeyedLibrary) (call : Unlock) :
    Option (KeyedLibrary × Unlock) :=
  match call.phase with
  | .started =>
    match readMaterial tick library with
    | .ok material => some (library, { call with phase := .read material })
    | .error failure => some (library, { call with phase := .returned (.error failure) })
  | .read material =>
    match unlockKey prims repoId call.password material with
    | .ok key => some (library, { call with phase := .verified material key })
    | .error failure => some (library, { call with phase := .returned (.error failure) })
  | .verified _ key =>
    some ({ library with manager := library.manager.insertKey tick.now repoId call.userId key },
      { call with phase := .returned (.ok ()) })
  | .returned _ => none

def Rotation.advance (tick : CallTick) (library : KeyedLibrary) (call : Rotation) :
    Option (KeyedLibrary × Rotation) :=
  match call.phase with
  | .started =>
    match readMaterial tick library with
    | .ok material => some (library, { call with phase := .read material })
    | .error failure => some (library, { call with phase := .returned (.error failure) })
  | .read material =>
    match unlockKey prims repoId call.oldPassword material with
    | .ok key => some (library, { call with phase := .verified material key })
    | .error failure => some (library, { call with phase := .returned (.error failure) })
  | .verified material key =>
    some ({ library with manager := library.manager.insertKey tick.now repoId call.userId key },
      { call with phase := .cached material })
  | .cached material =>
    match changedKeys prims repoId call.oldPassword call.newPassword material with
    | .ok params => some (library, { call with phase := .rewrapped params })
    | .error failure => some (library, { call with phase := .returned (.error (.app failure)) })
  | .rewrapped params =>
    match tick.dbError with
    | some failure => some (library, { call with phase := .returned (.error (.app failure)) })
    | none =>
      some ({ library with row := library.row.updateRepoKeys params, current := call.newPassword },
        { call with phase := .stored, wrote := true })
  | .stored =>
    some ({ library with manager := library.manager.removeRepo repoId },
      { call with phase := .returned (.ok ()) })
  | .returned _ => none

end Steps

section Cases

variable {prims : Primitives} {repoId : String} {tick : CallTick} {library : KeyedLibrary}

theorem readMaterial_ok {material : RepoKeyMaterial}
    (read : readMaterial tick library = .ok material) : library.row.material = .ok material := by
  unfold readMaterial at read
  split at read
  · cases read
  · split at read
    · rename_i isMaterial
      rw [isMaterial, Except.ok.inj read]
    · cases read

inductive Unlock.Moves (prims : Primitives) (repoId : String) (tick : CallTick)
    (library : KeyedLibrary) (call : Unlock) : KeyedLibrary × Unlock → Prop
  | fails (failure : PasswordError) :
      Moves prims repoId tick library call (library, { call with phase := .returned (.error failure) })
  | reads (material : RepoKeyMaterial) (isMaterial : library.row.material = .ok material) :
      Moves prims repoId tick library call (library, { call with phase := .read material })
  | verifies (material : RepoKeyMaterial) (key : KeyIv) (isHere : call.phase = .read material)
      (opened : unlockKey prims repoId call.password material = .ok key) :
      Moves prims repoId tick library call (library, { call with phase := .verified material key })
  | caches (material : RepoKeyMaterial) (key : KeyIv) (isHere : call.phase = .verified material key) :
      Moves prims repoId tick library call
        ({ library with manager := library.manager.insertKey tick.now repoId call.userId key },
          { call with phase := .returned (.ok ()) })

theorem Unlock.moves_of_advance {call : Unlock} {after : KeyedLibrary × Unlock}
    (moved : call.advance prims repoId tick library = some after) :
    Moves prims repoId tick library call after := by
  unfold advance at moved
  split at moved
  · split at moved <;> cases moved
    · rename_i read
      exact .reads _ (readMaterial_ok read)
    · exact .fails _
  · rename_i isHere
    split at moved <;> cases moved
    · rename_i opened
      exact .verifies _ _ isHere opened
    · exact .fails _
  · rename_i isHere
    cases moved
    exact .caches _ _ isHere
  · cases moved

/-- The steps of a rotation.  It fails before it has stored the new keys. -/
inductive Rotation.Moves (prims : Primitives) (repoId : String) (tick : CallTick)
    (library : KeyedLibrary) (call : Rotation) : KeyedLibrary × Rotation → Prop
  | fails (failure : PasswordError) (before : call.phase ≠ .stored)
      (running : ∀ outcome, call.phase ≠ .returned outcome) :
      Moves prims repoId tick library call (library, { call with phase := .returned (.error failure) })
  | reads (material : RepoKeyMaterial) (isHere : call.phase = .started)
      (isMaterial : library.row.material = .ok material) :
      Moves prims repoId tick library call (library, { call with phase := .read material })
  | verifies (material : RepoKeyMaterial) (key : KeyIv) (isHere : call.phase = .read material)
      (opened : unlockKey prims repoId call.oldPassword material = .ok key) :
      Moves prims repoId tick library call (library, { call with phase := .verified material key })
  | caches (material : RepoKeyMaterial) (key : KeyIv) (isHere : call.phase = .verified material key) :
      Moves prims repoId tick library call
        ({ library with manager := library.manager.insertKey tick.now repoId call.userId key },
          { call with phase := .cached material })
  | rewraps (material : RepoKeyMaterial) (params : UpdateRepoKeysParams)
      (isHere : call.phase = .cached material)
      (changed : changedKeys prims repoId call.oldPassword call.newPassword material = .ok params) :
      Moves prims repoId tick library call (library, { call with phase := .rewrapped params })
  | stores (params : UpdateRepoKeysParams) (isHere : call.phase = .rewrapped params) :
      Moves prims repoId tick library call
        ({ library with row := library.row.updateRepoKeys params, current := call.newPassword },
          { call with phase := .stored, wrote := true })
  | drops (isHere : call.phase = .stored) :
      Moves prims repoId tick library call
        ({ library with manager := library.manager.removeRepo repoId },
          { call with phase := .returned (.ok ()) })

theorem Rotation.moves_of_advance {call : Rotation} {after : KeyedLibrary × Rotation}
    (moved : call.advance prims repoId tick library = some after) :
    Moves prims repoId tick library call after := by
  unfold advance at moved
  split at moved
  · rename_i isHere
    split at moved <;> cases moved
    · rename_i read
      exact .reads _ isHere (readMaterial_ok read)
    · exact .fails _ (by simp [isHere]) (by simp [isHere])
  · rename_i isHere
    split at moved <;> cases moved
    · rename_i opened
      exact .verifies _ _ isHere opened
    · exact .fails _ (by simp [isHere]) (by simp [isHere])
  · rename_i isHere
    cases moved
    exact .caches _ _ isHere
  · rename_i isHere
    split at moved <;> cases moved
    · rename_i changed
      exact .rewraps _ _ isHere changed
    · exact .fails _ (by simp [isHere]) (by simp [isHere])
  · rename_i isHere
    split at moved <;> cases moved
    · exact .fails _ (by simp [isHere]) (by simp [isHere])
    · exact .stores _ isHere
  · rename_i isHere
    cases moved
    exact .drops isHere
  · cases moved

end Cases

end Nanofile
