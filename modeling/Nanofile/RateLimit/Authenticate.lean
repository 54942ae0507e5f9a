import Nanofile.Lib.Threads
import Nanofile.RateLimit.GuessBound
import Nanofile.RateLimit.LimiterCounts

/-!
# Sign-ins that overlap

The check of the limiter, the lookup, the verification of the password and the record of a failure
are separate steps of a call.  Calls that pass the check before any of them has recorded its failure
verify more wrong passwords than the limit; while the limit has room for the calls underway, it
holds.
-/

set_option autoImplicit false

namespace Nanofile

open Nanofile.Lib

/-! ## The steps of a call -/

/-- The row of an account, as far as a sign-in reads it. -/
structure LoginUser where
  email : String
  passwordHash : String
  isActive : Bool
  emailVerified : Bool
deriving DecidableEq

inductive LoginResult where
  | rateLimited
  | badCredentials
  | accountDisabled
  | emailUnverified
  | twoFactorInvalid
  | twoFactorRequired
  | success
  | failed
deriving DecidableEq

/-- What the second factor comes to: not asked for or right, wrong, missing, or unreadable. -/
inductive SecondFactor where
  | passed
  | invalid
  | missing
  | failed
deriving DecidableEq

inductive AuthStage where
  | check
  | findUser
  | recordUnknown
  | verifyDummy
  | verify (user : LoginUser)
  | recordWrong
  | recordInactive
  | clearUnverified
  | secondFactor
  | recordTwoFactor
  | clearLogin
  | answered (result : LoginResult)
deriving DecidableEq

structure AuthCall where
  keys : LoginKeys
  password : String
  stage : AuthStage
deriving DecidableEq

def AuthCall.goesTo (call : AuthCall) (stage : AuthStage) : AuthCall := { call with stage := stage }

/-- The limiter, the accounts, the last clock value, and what happened so far. -/
structure SignIns where
  limiter : LoginRateLimiter
  users : List LoginUser
  clock : Int
  history : List SignInEvent

/-- What a step reads from outside: the clock, once under each mutex, and what may go wrong. -/
structure SignInTick where
  now : Int
  sprayNow : Int
  dbFails : Bool
  hashFails : Bool
  factor : SecondFactor

namespace SignIns

def recorded (state : SignIns) (tick : SignInTick) (keys : LoginKeys) : SignIns :=
  { state with limiter := state.limiter.recordLoginFailure tick.now tick.sprayNow keys }

def cleared (state : SignIns) (keys : LoginKeys) : SignIns :=
  { state with limiter := state.limiter.clearLoginFailure keys }

def happened (state : SignIns) (event : SignInEvent) : SignIns :=
  { state with history := state.history ++ [event] }

end SignIns

def authStep (verifyPassword : String → String → Bool) (tick : SignInTick) (state : SignIns)
    (call : AuthCall) : Option (SignIns × AuthCall) :=
  match call.stage with
  | .check =>
    let checked := state.limiter.isLoginBlocked tick.now tick.sprayNow call.keys
    some ({ state with limiter := checked.2 },
      call.goesTo (if checked.1 then .answered .rateLimited else .findUser))
  | .findUser =>
    if tick.dbFails then some (state, call.goesTo (.answered .failed))
    else match state.users.find? fun user => user.email = call.keys.username with
      | some user => some (state, call.goesTo (.verify user))
      | none => some (state, call.goesTo .recordUnknown)
  | .recordUnknown => some (state.recorded tick call.keys, call.goesTo .verifyDummy)
  | .verifyDummy => some (state, call.goesTo (.answered .badCredentials))
  | .verify user =>
    -- A hashing task that was not joined answers like a wrong password.
    if verifyPassword call.password user.passwordHash && !tick.hashFails then
      some (state, call.goesTo (if !user.isActive then .recordInactive
        else if !user.emailVerified then .clearUnverified else .secondFactor))
    else
      some (state.happened (.wrongPassword call.keys.clientIp tick.sprayNow),
        call.goesTo .recordWrong)
  | .recordWrong => some (state.recorded tick call.keys, call.goesTo (.answered .badCredentials))
  | .recordInactive =>
    some (state.recorded tick call.keys, call.goesTo (.answered .accountDisabled))
  | .clearUnverified => some (state.cleared call.keys, call.goesTo (.answered .emailUnverified))
  | .secondFactor =>
    some (state, call.goesTo (match tick.factor with
      | .passed => .clearLogin
      | .invalid => .recordTwoFactor
      | .missing => .answered .twoFactorRequired
      | .failed => .answered .failed))
  | .recordTwoFactor =>
    some (state.recorded tick call.keys, call.goesTo (.answered .twoFactorInvalid))
  | .clearLogin =>
    -- The failures are cleared before the session is made, which may fail.
    if tick.dbFails then some (state.cleared call.keys, call.goesTo (.answered .failed))
    else some ((state.cleared call.keys).happened (.loggedIn call.keys.clientIp),
      call.goesTo (.answered .success))
  | .answered _ => none

/-- The clock never goes back. -/
def authAdvance (verifyPassword : String → String → Bool) (tick : SignInTick) (state : SignIns)
    (call : AuthCall) : Option (SignIns × AuthCall) :=
  if tick.now < state.clock ∨ tick.sprayNow < tick.now then none
  else (authStep verifyPassword tick state call).map fun after =>
    ({ after.1 with clock := tick.sprayNow }, after.2)

variable {verifyPassword : String → String → Bool} {after : SignIns × AuthCall}

theorem authAdvance_iff {tick : SignInTick}
    {state : SignIns} {call : AuthCall} :
    authAdvance verifyPassword tick state call = some after ↔
      state.clock ≤ tick.now ∧ tick.now ≤ tick.sprayNow ∧
        ∃ stepped, authStep verifyPassword tick state call = some stepped ∧
          after = ({ stepped.1 with clock := tick.sprayNow }, stepped.2) := by
  unfold authAdvance
  split
  · rename_i back
    exact iff_of_false nofun fun ⟨order, sprayOrder, _⟩ => by omega
  · rename_i forth
    rw [Option.map_eq_some_iff]
    refine ⟨fun ⟨stepped, taken, isAfter⟩ => ⟨by omega, by omega, stepped, taken, isAfter.symm⟩, ?_⟩
    exact fun ⟨_, _, stepped, taken, isAfter⟩ => ⟨stepped, taken, isAfter.symm⟩

/-- Calls of `authenticate` over accounts that may change at any time. -/
def authProgram (verifyPassword : String → String → Bool) :
    Program SignIns AuthCall (List LoginUser) (LoginKeys × String) SignInTick where
  serve users state := { state with users := users }
  begin job := ⟨job.1, job.2, .check⟩
  advance := authAdvance verifyPassword

abbrev AuthState := Threads SignIns AuthCall

abbrev AuthAction := ThreadAction (List LoginUser) (LoginKeys × String) SignInTick

def authSystem (verifyPassword : String → String → Bool)
    (maxAttempts lockoutSecs maxDistinctUsernames : Nat) : System AuthState AuthAction :=
  (authProgram verifyPassword).system fun state =>
    state.limiter = LoginRateLimiter.new maxAttempts lockoutSecs maxDistinctUsernames ∧
      state.history = []

/-- No record of a failure evicts another key. -/
def AuthKeepsAll (state : AuthState) : AuthAction → Prop
  | .advance index tick => ∀ call, state.running[index]? = some call →
      call.stage ∈ [.recordUnknown, .recordWrong, .recordInactive, .recordTwoFactor] →
        state.shared.limiter.HasRoom (.recordLoginFailure call.keys tick.now tick.sprayNow)
  | _ => True

/-! ## What bounds the guesses of an address -/

/-- The call passed the check and may still verify a wrong password. -/
def mayGuess (ip : String) (call : AuthCall) : Bool :=
  call.keys.clientIp = ip && match call.stage with
    | .findUser => true
    | .verify _ => true
    | _ => false

/-- The call verified a wrong password and has not recorded it. -/
def mustRecord (ip : String) (call : AuthCall) : Bool :=
  call.keys.clientIp = ip && call.stage = .recordWrong

def concerns (ip : String) : SignInEvent → Bool
  | .wrongPassword clientIp _ => clientIp = ip
  | .loggedIn clientIp => clientIp = ip

def failuresOf (limiter : LoginRateLimiter) (ip : String) : List Int :=
  logOf limiter.attempts (LoginKeys.ipKey ⟨ip, ""⟩)

def guessesOf (ip : String) (state : AuthState) : Guesses where
  times := failuresOf state.shared.limiter ip
  pending := state.running.countP (mayGuess ip)
  recording := state.running.countP (mustRecord ip)
  history := state.shared.history.filter (concerns ip)
  clock := state.shared.clock

/-- A call that passes the check leaves the limit room for itself beside the calls underway, and no
sign-in of the address that is refused or fails forgives its failures. -/
def LeavesRoom (ip : String) (state : AuthState) : AuthAction → Prop
  | .advance index tick => ∀ call, state.running[index]? = some call → call.keys.clientIp = ip →
      (call.stage = .check →
        (state.shared.limiter.isLoginBlocked tick.now tick.sprayNow call.keys).1 = false →
          (timesAfter (state.shared.limiter.cutoff tick.now)
              (failuresOf state.shared.limiter ip)).length +
            ((guessesOf ip state).pending + (guessesOf ip state).recording) <
              state.shared.limiter.maxAttempts) ∧
      call.stage ≠ .clearUnverified ∧ (call.stage = .clearLogin → tick.dbFails = false)
  | _ => True

/-! ## What a step does to the failures of an address -/

theorem countP_set_add {Item : Type} (counts : Item → Bool) {items : List Item} {index : Nat}
    {old : Item} (found : items[index]? = some old) (new : Item) :
    (items.set index new).countP counts + (if counts old then 1 else 0) =
      items.countP counts + if counts new then 1 else 0 := by
  induction items generalizing index with
  | nil => simp at found
  | cons item rest ih =>
    cases index with
    | zero =>
      simp only [List.getElem?_cons_zero, Option.some.injEq] at found
      subst found
      simp only [List.set_cons_zero, List.countP_cons]
      omega
    | succ index =>
      have rest' := ih (by simpa using found)
      simp only [List.set_cons_succ, List.countP_cons]
      omega

namespace LoginRateLimiter

variable {limiter : LoginRateLimiter} {ip : String} {keys : LoginKeys} {now sprayNow start : Int}

theorem mem_both_iff : LoginKeys.ipKey ⟨ip, ""⟩ ∈ keys.both ↔ keys.clientIp = ip := by
  rw [LoginKeys.both, List.mem_cons, List.mem_singleton,
    or_iff_left (LoginKeys.ipKey_ne_pairKey ⟨ip, ""⟩ keys), LoginKeys.ipKey_inj]
  exact eq_comm

theorem failuresOf_record (room : limiter.HasRoom (.recordLoginFailure keys now sprayNow)) :
    failuresOf (limiter.recordLoginFailure now sprayNow keys) ip =
      if keys.clientIp = ip then timesAfter (limiter.cutoff now) (failuresOf limiter ip ++ [now])
      else failuresOf limiter ip := by
  have attempts : (limiter.recordLoginFailure now sprayNow keys).attempts =
      pushTimes now (limiter.cutoff now) keys.both limiter.attempts := evictOldest_of_le room.1
  rw [failuresOf, attempts, logOf_pushTimes]
  exact if_congr mem_both_iff rfl rfl

theorem failuresOf_clear : failuresOf (limiter.clearLoginFailure keys) ip =
    if keys.clientIp = ip then [] else failuresOf limiter ip := by
  rw [failuresOf, logOf_clearLoginFailure]
  exact if_congr mem_both_iff rfl rfl

theorem failuresOf_check (after : limiter.cutoff now ≤ start) :
    timesAfter start (failuresOf (limiter.isLoginBlocked now sprayNow keys).2 ip) =
      timesAfter start (failuresOf limiter ip) :=
  (isLoginBlocked_checked limiter now sprayNow keys).attempts.timesAfter_eq after _

end LoginRateLimiter

/-! ## One step -/

section Step

open LoginRateLimiter

variable {verifyPassword : String → String → Bool} {tick : SignInTick} {ip : String}
  {shared : SignIns} {state : AuthState} {index : Nat} {call : AuthCall}
  {after : SignIns × AuthCall}

theorem authStep_limiter (taken : authStep verifyPassword tick shared call = some after) :
    after.1.limiter = shared.limiter ∨
      after.1.limiter =
        (shared.limiter.isLoginBlocked tick.now tick.sprayNow call.keys).2 ∨
      (call.stage ∈ [.recordUnknown, .recordWrong, .recordInactive, .recordTwoFactor] ∧
        after.1.limiter =
          shared.limiter.recordLoginFailure tick.now tick.sprayNow call.keys) ∨
      after.1.limiter = shared.limiter.clearLoginFailure call.keys := by
  unfold authStep at taken
  split at taken <;> rename_i stage
  case h_1 => cases taken; exact Or.inr (Or.inl rfl)
  case h_2 =>
    split at taken
    · cases taken; exact Or.inl rfl
    · split at taken <;> (cases taken; exact Or.inl rfl)
  case h_3 => cases taken; exact Or.inr (Or.inr (Or.inl ⟨by simp [stage], rfl⟩))
  case h_4 => cases taken; exact Or.inl rfl
  case h_5 => split at taken <;> (cases taken; exact Or.inl rfl)
  case h_6 => cases taken; exact Or.inr (Or.inr (Or.inl ⟨by simp [stage], rfl⟩))
  case h_7 => cases taken; exact Or.inr (Or.inr (Or.inl ⟨by simp [stage], rfl⟩))
  case h_8 => cases taken; exact Or.inr (Or.inr (Or.inr rfl))
  case h_9 => cases taken; exact Or.inl rfl
  case h_10 => cases taken; exact Or.inr (Or.inr (Or.inl ⟨by simp [stage], rfl⟩))
  case h_11 => split at taken <;> (cases taken; exact Or.inr (Or.inr (Or.inr rfl)))
  case h_12 => cases taken

theorem authStep_history (taken : authStep verifyPassword tick shared call = some after) :
    after.2.keys = call.keys ∧ (after.1.history = shared.history ∨
      ∃ event, after.1.history = shared.history ++ [event] ∧
        ∀ ip, concerns ip event = decide (call.keys.clientIp = ip)) := by
  unfold authStep at taken
  split at taken
  case h_2 =>
    split at taken
    · cases taken; exact ⟨rfl, Or.inl rfl⟩
    · split at taken <;> (cases taken; exact ⟨rfl, Or.inl rfl⟩)
  case h_5 =>
    split at taken
    · cases taken; exact ⟨rfl, Or.inl rfl⟩
    · cases taken; exact ⟨rfl, Or.inr ⟨_, rfl, fun _ => rfl⟩⟩
  case h_11 =>
    split at taken
    · cases taken; exact ⟨rfl, Or.inl rfl⟩
    · cases taken; exact ⟨rfl, Or.inr ⟨_, rfl, fun _ => rfl⟩⟩
  case h_12 => cases taken
  all_goals (cases taken; exact ⟨rfl, Or.inl rfl⟩)

def authMoved (state : AuthState) (index : Nat) (tick : SignInTick) (after : SignIns × AuthCall) :
    AuthState :=
  ⟨{ after.1 with clock := tick.sprayNow }, state.running.set index after.2⟩

theorem mayGuess_of_foreign (foreign : call.keys.clientIp ≠ ip) : mayGuess ip call = false := by
  simp [mayGuess, foreign]

theorem mustRecord_of_foreign (foreign : call.keys.clientIp ≠ ip) : mustRecord ip call = false := by
  simp [mustRecord, foreign]

structure AuthMoves (verifyPassword : String → String → Bool) (maxAttempts : Nat) (window : Int)
    (ip : String) (state : AuthState) (index : Nat) (tick : SignInTick) (call : AuthCall)
    (after : SignIns × AuthCall) : Prop where
  bounded : (guessesOf ip state).Bounded maxAttempts window ip
  cutoff : ∀ time, state.shared.limiter.cutoff time = time - window
  limit : state.shared.limiter.maxAttempts = maxAttempts
  found : state.running[index]? = some call
  order : state.shared.clock ≤ tick.now
  sprayOrder : tick.now ≤ tick.sprayNow
  keeps : AuthKeepsAll state (.advance index tick)
  room : LeavesRoom ip state (.advance index tick)
  taken : authStep verifyPassword tick state.shared call = some after

variable {maxAttempts : Nat} {window : Int}

namespace AuthMoves

variable (moves : AuthMoves verifyPassword maxAttempts window ip state index tick call after)
include moves

theorem reaches {start : Int} (within : tick.sprayNow - window ≤ start) :
    state.shared.limiter.cutoff tick.now ≤ start := by
  rw [moves.cutoff]
  exact Int.le_trans (Int.sub_le_sub_right moves.sprayOrder window) within

theorem pending
    {was now : Bool} (before : mayGuess ip call = was) (moved : mayGuess ip after.2 = now) :
    (guessesOf ip (authMoved state index tick after)).pending + (if was then 1 else 0) =
      (guessesOf ip state).pending + if now then 1 else 0 := by
  subst before moved
  exact countP_set_add (mayGuess ip) moves.found after.2

theorem recording
    {was now : Bool} (before : mustRecord ip call = was) (moved : mustRecord ip after.2 = now) :
    (guessesOf ip (authMoved state index tick after)).recording + (if was then 1 else 0) =
      (guessesOf ip state).recording + if now then 1 else 0 := by
  subst before moved
  exact countP_set_add (mustRecord ip) moves.found after.2

theorem foreign (apart : call.keys.clientIp ≠ ip) :
    (guessesOf ip (authMoved state index tick after)).Bounded maxAttempts window ip := by
  obtain ⟨sameKeys, history⟩ := authStep_history moves.taken
  have apart' : after.2.keys.clientIp ≠ ip := by rw [sameKeys]; exact apart
  have pending := moves.pending (mayGuess_of_foreign apart) (mayGuess_of_foreign apart')
  have recording := moves.recording (mustRecord_of_foreign apart) (mustRecord_of_foreign apart')
  refine moves.bounded.quiet ?_ (Int.le_trans moves.order moves.sprayOrder)
    (Nat.le_of_eq pending) recording fun start within => Nat.le_of_eq ?_
  · show after.1.history.filter (concerns ip) = _
    rcases history with same | ⟨event, added, isForeign⟩
    · rw [same]
      rfl
    · have unseen : concerns ip event = false := by rw [isForeign]; exact decide_eq_false apart
      rw [added, List.filter_append, List.filter_singleton, unseen]
      exact List.append_nil _
  · show _ = (timesAfter start (failuresOf after.1.limiter ip)).length
    refine congrArg List.length ?_
    rcases authStep_limiter moves.taken with same | checked | ⟨records, recorded⟩ | cleared
    · rw [same]
      rfl
    · rw [checked, failuresOf_check (moves.reaches within)]
      rfl
    · rw [recorded, failuresOf_record (moves.keeps call moves.found records), if_neg apart]
      rfl
    · rw [cleared, failuresOf_clear, if_neg apart]
      rfl

/-- A step of the address that neither verifies a wrong password nor records one nor clears. -/
theorem quiet (history : after.1.history = state.shared.history)
    (pending : mayGuess ip after.2 = true → mayGuess ip call = true)
    (recording : mustRecord ip after.2 = mustRecord ip call)
    (times : ∀ start, tick.sprayNow - window ≤ start →
      (timesAfter start (failuresOf state.shared.limiter ip)).length ≤
        (timesAfter start (failuresOf after.1.limiter ip)).length) :
    (guessesOf ip (authMoved state index tick after)).Bounded maxAttempts window ip := by
  have pendingMoved := moves.pending rfl rfl
  have recordingMoved := moves.recording rfl recording
  refine moves.bounded.quiet (congrArg (List.filter (concerns ip)) history)
    (Int.le_trans moves.order moves.sprayOrder) ?_ (Nat.add_right_cancel recordingMoved) times
  cases may : mayGuess ip after.2 with
  | true =>
    rw [may, pending may] at pendingMoved
    exact Nat.le_of_eq (Nat.add_right_cancel pendingMoved)
  | false =>
    rw [may] at pendingMoved
    simp only [Bool.false_eq_true, if_false, Nat.add_zero] at pendingMoved
    omega

theorem answers {result : LoginResult} (answered : after.2 = call.goesTo (.answered result))
    (other : call.stage ≠ .recordWrong) (history : after.1.history = state.shared.history)
    (times : ∀ start, tick.sprayNow - window ≤ start →
      (timesAfter start (failuresOf state.shared.limiter ip)).length ≤
        (timesAfter start (failuresOf after.1.limiter ip)).length) :
    (guessesOf ip (authMoved state index tick after)).Bounded maxAttempts window ip := by
  refine moves.quiet history (fun may => ?_) ?_ times
  · rw [answered] at may
    simp [mayGuess, AuthCall.goesTo] at may
  · rw [answered]
    simp [mustRecord, AuthCall.goesTo, other]

theorem recordedOther
    (records : call.stage ∈ [.recordUnknown, .recordWrong, .recordInactive, .recordTwoFactor])
    (other : call.stage ≠ .recordWrong) {stage : AuthStage}
    (isAfter : after = (state.shared.recorded tick call.keys, call.goesTo stage))
    (pending : mayGuess ip (call.goesTo stage) = false)
    (recording : mustRecord ip (call.goesTo stage) = false) :
    (guessesOf ip (authMoved state index tick after)).Bounded maxAttempts window ip := by
  subst isAfter
  refine moves.quiet rfl (fun may => by rw [pending] at may; cases may)
    (by rw [recording]; simp [mustRecord, other]) fun start within => ?_
  show _ ≤ (timesAfter start (failuresOf (state.shared.limiter.recordLoginFailure tick.now
    tick.sprayNow call.keys) ip)).length
  rw [failuresOf_record (moves.keeps call moves.found records)]
  split
  · rw [timesAfter_timesAfter (moves.reaches within), timesAfter_append, List.length_append]
    exact Nat.le_add_right _ _
  · exact Nat.le_refl _

theorem passes
    (own : call.keys.clientIp = ip) (stage : call.stage = .check)
    (passed : (state.shared.limiter.isLoginBlocked tick.now tick.sprayNow call.keys).1 = false)
    (isAfter : after = ({ state.shared with
      limiter := (state.shared.limiter.isLoginBlocked tick.now tick.sprayNow call.keys).2 },
        call.goesTo .findUser)) :
    (guessesOf ip (authMoved state index tick after)).Bounded maxAttempts window ip := by
  subst isAfter
  have pending := moves.pending (show _ = false from by simp [mayGuess, stage])
    (show _ = true from by simp [mayGuess, AuthCall.goesTo, own])
  have recording := moves.recording (show _ = false from by simp [mustRecord, stage])
    (show _ = false from by simp [mustRecord, AuthCall.goesTo])
  have enough := (moves.room call moves.found own).1 stage passed
  rw [moves.limit, moves.cutoff] at enough
  refine moves.bounded.passed rfl (by simpa using pending) (by simpa using recording)
    moves.order moves.sprayOrder (fun start within => failuresOf_check (moves.reaches within)) enough

theorem guesses
    (own : call.keys.clientIp = ip) {user : LoginUser} (stage : call.stage = .verify user)
    (isAfter : after = (state.shared.happened (.wrongPassword call.keys.clientIp tick.sprayNow),
      call.goesTo .recordWrong)) :
    (guessesOf ip (authMoved state index tick after)).Bounded maxAttempts window ip := by
  subst isAfter
  have pending := moves.pending (show _ = true from by simp [mayGuess, stage, own])
    (show _ = false from by simp [mayGuess, AuthCall.goesTo])
  have recording := moves.recording (show _ = false from by simp [mustRecord, stage])
    (show _ = true from by simp [mustRecord, AuthCall.goesTo, own])
  refine moves.bounded.wrong ?_ (by simpa using pending) (by simpa using recording)
    (Int.le_trans moves.order moves.sprayOrder) rfl
  show (state.shared.history ++ [_]).filter (concerns ip) = _
  rw [List.filter_append, own, List.filter_singleton]
  simp [concerns, guessesOf, authMoved]

theorem records (own : call.keys.clientIp = ip) (stage : call.stage = .recordWrong)
    (isAfter : after =
      (state.shared.recorded tick call.keys, call.goesTo (.answered .badCredentials))) :
    (guessesOf ip (authMoved state index tick after)).Bounded maxAttempts window ip := by
  subst isAfter
  have pending := moves.pending (show _ = false from by simp [mayGuess, stage])
    (show _ = false from by simp [mayGuess, AuthCall.goesTo])
  have recording := moves.recording (show _ = true from by simp [mustRecord, stage, own])
    (show _ = false from by simp [mustRecord, AuthCall.goesTo])
  refine moves.bounded.record rfl (by simpa using pending) (by simpa using recording)
    moves.order moves.sprayOrder fun start within => ?_
  show timesAfter start (failuresOf (state.shared.limiter.recordLoginFailure tick.now
    tick.sprayNow call.keys) ip) = _
  rw [failuresOf_record (moves.keeps call moves.found (by simp [stage])), if_pos own,
    timesAfter_timesAfter (moves.reaches within)]
  rfl

theorem logsIn (own : call.keys.clientIp = ip) (stage : call.stage = .clearLogin)
    (isAfter : after = ((state.shared.cleared call.keys).happened (.loggedIn call.keys.clientIp),
      call.goesTo (.answered .success))) :
    (guessesOf ip (authMoved state index tick after)).Bounded maxAttempts window ip := by
  subst isAfter
  have pending := moves.pending (show _ = false from by simp [mayGuess, stage])
    (show _ = false from by simp [mayGuess, AuthCall.goesTo])
  refine moves.bounded.login ?_ (by simpa using pending)
    (Int.le_trans moves.order moves.sprayOrder)
  show (state.shared.history ++ [_]).filter (concerns ip) = _
  rw [List.filter_append, own, List.filter_singleton]
  simp [concerns, guessesOf]

theorem step :
    (guessesOf ip (authMoved state index tick after)).Bounded maxAttempts window ip := by
  by_cases own : call.keys.clientIp = ip
  · have taken := moves.taken
    have settled : ∀ {result : LoginResult},
        mayGuess ip (call.goesTo (.answered result)) = false ∧
          mustRecord ip (call.goesTo (.answered result)) = false := by
      intro result
      simp [mayGuess, mustRecord, AuthCall.goesTo]
    unfold authStep at taken
    split at taken <;> rename_i stage
    case h_1 =>
      dsimp only at taken
      cases checked : (state.shared.limiter.isLoginBlocked tick.now tick.sprayNow call.keys).1 with
      | true =>
        rw [checked] at taken
        cases taken
        refine moves.answers rfl (by simp [stage]) rfl fun start within => Nat.le_of_eq ?_
        exact congrArg List.length (failuresOf_check (moves.reaches within)).symm
      | false =>
        rw [checked] at taken
        cases taken
        exact moves.passes own stage checked rfl
    case h_2 =>
      have guessing : mayGuess ip call = true := by simp [mayGuess, stage, own]
      split at taken
      · cases taken
        exact moves.answers rfl (by simp [stage]) rfl fun _ _ => Nat.le_refl _
      · split at taken <;>
          (cases taken
           exact moves.quiet rfl (fun _ => guessing) (by simp [mustRecord, stage, AuthCall.goesTo])
             fun _ _ => Nat.le_refl _)
    case h_3 =>
      cases taken
      exact moves.recordedOther (by simp [stage]) (by simp [stage]) rfl
        (by simp [mayGuess, AuthCall.goesTo]) (by simp [mustRecord, AuthCall.goesTo])
    case h_4 =>
      cases taken
      exact moves.answers rfl (by simp [stage]) rfl fun _ _ => Nat.le_refl _
    case h_5 user =>
      split at taken
      · cases taken
        refine moves.quiet rfl (fun _ => by simp [mayGuess, stage, own]) ?_ fun _ _ => Nat.le_refl _
        simp only [mustRecord, AuthCall.goesTo, stage]
        split <;> [skip; split] <;> simp
      · cases taken
        exact moves.guesses own stage rfl
    case h_6 =>
      cases taken
      exact moves.records own stage rfl
    case h_7 =>
      cases taken
      exact moves.recordedOther (by simp [stage]) (by simp [stage]) rfl settled.1 settled.2
    case h_8 => exact absurd stage (moves.room call moves.found own).2.1
    case h_9 =>
      cases taken
      refine moves.quiet rfl (fun may => ?_) ?_ fun _ _ => Nat.le_refl _
      · simp only [mayGuess, AuthCall.goesTo] at may
        cases factor : tick.factor <;> simp [factor] at may
      · simp only [mustRecord, AuthCall.goesTo, stage]
        cases tick.factor <;> simp
    case h_10 =>
      cases taken
      exact moves.recordedOther (by simp [stage]) (by simp [stage]) rfl settled.1 settled.2
    case h_11 =>
      rw [(moves.room call moves.found own).2.2 stage] at taken
      cases taken
      exact moves.logsIn own stage rfl
    case h_12 => cases taken
  · exact moves.foreign own

end AuthMoves

end Step

/-! ## Every run -/

structure AuthBounded (maxAttempts lockoutSecs maxDistinctUsernames : Nat) (ip : String)
    (state : AuthState) : Prop where
  budgets : state.shared.limiter.budgets =
    (LoginRateLimiter.new maxAttempts lockoutSecs maxDistinctUsernames).budgets
  guesses : (guessesOf ip state).Bounded maxAttempts lockoutSecs ip

open LoginRateLimiter in
theorem authStep_budgets {tick : SignInTick}
    {shared : SignIns} {call : AuthCall}
    (taken : authStep verifyPassword tick shared call = some after) :
    after.1.limiter.budgets = shared.limiter.budgets := by
  rcases authStep_limiter taken with same | checked | ⟨-, recorded⟩ | cleared
  · rw [same]
  · rw [checked]
    exact served_budgets shared.limiter (.isLoginBlocked call.keys tick.now tick.sprayNow)
  · rw [recorded]
    rfl
  · rw [cleared]
    rfl

theorem boundsGuesses_of_concerns {maxAttempts : Nat} {window : Int} {ip : String}
    {history : List SignInEvent}
    (bound : BoundsGuesses maxAttempts window ip (history.filter (concerns ip))) :
    BoundsGuesses maxAttempts window ip history := by
  intro events inside apart start
  have filtered := bound (events.filter (concerns ip)) (inside.filter _)
    (fun listed => apart (List.mem_of_mem_filter listed)) start
  have same : wrongWithin ip start (start + window) (events.filter (concerns ip)) =
      wrongWithin ip start (start + window) events := by
    unfold wrongWithin
    rw [List.countP_filter]
    refine List.countP_congr fun event _ => ?_
    cases event with
    | wrongPassword clientIp time => simp [concerns]; tauto
    | loggedIn clientIp => simp
  rw [← same]
  exact filtered

/-- In every run that evicts nothing, whatever the calls and however they overlap: while the limit
has room for the calls underway of an address, no window without a login of the address holds more
wrong passwords than the limit. -/
theorem lockout_bounds_guesses {verifyPassword : String → String → Bool}
    {maxAttempts lockoutSecs maxDistinctUsernames : Nat} {ip : String} {state : AuthState}
    (window : lockoutSecs < 2 ^ 63)
    (reached : (authSystem verifyPassword maxAttempts lockoutSecs maxDistinctUsernames).Reachable
      (fun state action => AuthKeepsAll state action ∧ LeavesRoom ip state action) state) :
    BoundsGuesses maxAttempts lockoutSecs ip state.shared.history := by
  have bounded : AuthBounded maxAttempts lockoutSecs maxDistinctUsernames ip state := by
    refine System.reachable_invariant
      (I := AuthBounded maxAttempts lockoutSecs maxDistinctUsernames ip) ?_ ?_ reached
    · rintro initial ⟨⟨isNew, fresh⟩, idle⟩
      refine ⟨congrArg LoginRateLimiter.budgets isNew, ?_⟩
      have view : guessesOf ip initial = ⟨[], 0, 0, [], initial.shared.clock⟩ := by
        unfold guessesOf
        rw [isNew, fresh, idle]
        rfl
      rw [view]
      exact .empty maxAttempts lockoutSecs ip initial.shared.clock
    · rintro before next action ⟨budgets, guesses⟩ ⟨keeps, room⟩ taken
      cases action with
      | serve users =>
        cases taken
        exact ⟨budgets, guesses⟩
      | begin job =>
        cases taken
        have added : ∀ counts : AuthCall → Bool, counts ⟨job.1, job.2, .check⟩ = false →
            (before.running ++ [(⟨job.1, job.2, .check⟩ : AuthCall)]).countP counts =
              before.running.countP counts := by
          intro counts isNot
          rw [List.countP_append, List.countP_singleton, isNot]
          rfl
        refine ⟨budgets, guesses.quiet rfl (Int.le_refl _) ?_ ?_ fun _ _ => Nat.le_refl _⟩
        · exact Nat.le_of_eq (added (mayGuess ip) (by simp [mayGuess]))
        · exact added (mustRecord ip) (by simp [mustRecord])
      | advance index tick =>
        obtain ⟨call, after, found, moved, rfl⟩ := Program.step_advance_iff.mp taken
        obtain ⟨order, sprayOrder, stepped, went, rfl⟩ := authAdvance_iff.mp moved
        have cutoff : ∀ time, before.shared.limiter.cutoff time = time - lockoutSecs := by
          intro time
          rw [LoginRateLimiter.cutoff_of_budgets budgets, LoginRateLimiter.cutoff,
            LoginRateLimiter.new, asI64_of_lt window]
        have moves : AuthMoves verifyPassword maxAttempts lockoutSecs ip before index tick call
            stepped := {
          bounded := guesses
          cutoff := cutoff
          limit := congrArg (fun all => all.1) budgets
          found := found
          order := order
          sprayOrder := sprayOrder
          keeps := keeps
          room := room
          taken := went }
        exact ⟨(authStep_budgets went).trans budgets, moves.step⟩
  exact boundsGuesses_of_concerns bounded.guesses.bound

/-! ## A run with two calls -/

instance (state : AuthState) : ∀ action, Decidable (AuthKeepsAll state action)
  | .serve _ => .isTrue trivial
  | .begin _ => .isTrue trivial
  | .advance index tick => inferInstanceAs (Decidable (∀ call ∈ state.running[index]?,
      call.stage ∈ [.recordUnknown, .recordWrong, .recordInactive, .recordTwoFactor] →
        state.shared.limiter.HasRoom (.recordLoginFailure call.keys tick.now tick.sprayNow)))

instance (ip : String) (state : AuthState) : ∀ action, Decidable (LeavesRoom ip state action)
  | .serve _ => .isTrue trivial
  | .begin _ => .isTrue trivial
  | .advance index tick => inferInstanceAs (Decidable (∀ call ∈ state.running[index]?,
      call.keys.clientIp = ip → (call.stage = .check →
        (state.shared.limiter.isLoginBlocked tick.now tick.sprayNow call.keys).1 = false →
          (timesAfter (state.shared.limiter.cutoff tick.now)
              (failuresOf state.shared.limiter ip)).length +
            ((guessesOf ip state).pending + (guessesOf ip state).recording) <
              state.shared.limiter.maxAttempts) ∧
      call.stage ≠ .clearUnverified ∧ (call.stage = .clearLogin → tick.dbFails = false)))

def alice : LoginUser := ⟨"alice@example.com", "secret", true, true⟩

def samePassword (password passwordHash : String) : Bool := password = passwordHash

def tickAt (second : Int) : SignInTick := ⟨second, second, false, false, .passed⟩

def oneAttempt : AuthState := ⟨⟨LoginRateLimiter.new 1 900 10, [alice], 0, []⟩, []⟩

/-- Two sign-ins of one address, the second after the first has recorded its failure. -/
def oneAfterTheOther : List AuthAction :=
  [.begin (⟨"203.0.113.9", "alice@example.com"⟩, "first"),
    .advance 0 (tickAt 100), .advance 0 (tickAt 100), .advance 0 (tickAt 101),
    .advance 0 (tickAt 101), .begin (⟨"203.0.113.9", "alice@example.com"⟩, "second"),
    .advance 1 (tickAt 102)]

theorem lockout_bounds_one_after_the_other : ∃ state,
    (authSystem samePassword 1 900 10).runChecked
      (fun state action => AuthKeepsAll state action ∧ LeavesRoom "203.0.113.9" state action)
        oneAfterTheOther oneAttempt = some state ∧
      BoundsGuesses 1 (900 : Nat) "203.0.113.9" state.shared.history ∧
        state.shared.history = [.wrongPassword "203.0.113.9" 101] := by
  have ran : ((authSystem samePassword 1 900 10).runChecked
      (fun state action => AuthKeepsAll state action ∧ LeavesRoom "203.0.113.9" state action)
        oneAfterTheOther oneAttempt).map (fun state => state.shared.history) =
      some [.wrongPassword "203.0.113.9" 101] := by decide +kernel
  obtain ⟨state, ran, history⟩ := Option.map_eq_some_iff.mp ran
  have started : (authSystem samePassword 1 900 10).Reachable (fun state action =>
      AuthKeepsAll state action ∧ LeavesRoom "203.0.113.9" state action) oneAttempt :=
    .init ⟨⟨rfl, rfl⟩, rfl⟩
  have reached := System.reachable_of_runChecked
    (fun _ _ allowed => of_decide_eq_true allowed) _ _ _ started ran
  exact ⟨state, ran, lockout_bounds_guesses (by decide) reached, history⟩

/-- Two sign-ins of one address that both pass the check before either password is verified. -/
def overlapping : List AuthAction :=
  [.begin (⟨"203.0.113.9", "alice@example.com"⟩, "first"),
    .begin (⟨"203.0.113.9", "alice@example.com"⟩, "second"),
    .advance 0 (tickAt 100), .advance 1 (tickAt 100), .advance 0 (tickAt 100),
    .advance 1 (tickAt 100), .advance 0 (tickAt 101), .advance 1 (tickAt 101)]

/-- With one attempt allowed, two overlapping sign-ins verify two wrong passwords in one second. -/
theorem overlapping_guesses_exceed_limit : ∃ state,
    (authSystem samePassword 1 900 10).Reachable AuthKeepsAll state ∧
      ¬ BoundsGuesses 1 (900 : Nat) "203.0.113.9" state.shared.history := by
  have ran : ((authSystem samePassword 1 900 10).runChecked (fun state action =>
      AuthKeepsAll state action) overlapping oneAttempt).map (fun state => state.shared.history) =
        some [.wrongPassword "203.0.113.9" 101, .wrongPassword "203.0.113.9" 101] := by
    decide +kernel
  obtain ⟨state, ran, history⟩ := Option.map_eq_some_iff.mp ran
  refine ⟨state, System.reachable_of_runChecked (fun _ _ allowed => of_decide_eq_true allowed) _ _ _
    (.init ⟨⟨rfl, rfl⟩, rfl⟩) ran, fun bounds => ?_⟩
  have atMost := bounds state.shared.history List.infix_rfl (by rw [history]; decide) 100
  rw [history] at atMost
  exact absurd atMost (by decide)

end Nanofile
