import Nanofile.RateLimit.LimiterRuns

/-!
# When a sign-in is blocked

Over a run that evicts nothing the maps hold what the calls recorded, as far as the window can
see.  A check then decides by the failures of its address, of its pair and of the accounts of its
address, as long as no other pair is kept under the text of its own.
-/

set_option autoImplicit false

namespace Nanofile

open Nanofile.Lib

namespace LoginRateLimiter

def served (limiter : LoginRateLimiter) : LimiterCall → LoginRateLimiter
  | .recordLoginFailure keys now sprayNow => limiter.recordLoginFailure now sprayNow keys
  | .clearLoginFailure keys => limiter.clearLoginFailure keys
  | .isLoginBlocked keys now sprayNow => (limiter.isLoginBlocked now sprayNow keys).2
  | .failureCount keys now => (limiter.failureCount now keys).2

def run (limiter : LoginRateLimiter) (calls : List LimiterCall) : LoginRateLimiter :=
  calls.foldl served limiter

/-- No key is evicted to make room for the call. -/
def HasRoom (limiter : LoginRateLimiter) : LimiterCall → Prop
  | .recordLoginFailure keys now _ =>
    (pushTimes now (limiter.cutoff now) keys.both limiter.attempts).rows.length ≤ maxAttemptKeys ∧
      ((limiter.spray.find keys.clientIp).isSome = true ∨
        limiter.spray.rows.length < maxSprayIps)
  | _ => True

/-- The clock never goes back, and nothing is evicted. -/
def Undisturbed (limiter : LoginRateLimiter) (last : Int) : List LimiterCall → Prop
  | [] => True
  | call :: rest =>
    (last :: call.clocks).Pairwise (· ≤ ·) ∧ limiter.HasRoom call ∧
      Undisturbed (limiter.served call) (call.clockAfter last) rest

def lastClock (start : Int) (calls : List LimiterCall) : Int :=
  calls.foldl LimiterCall.clockAfter start

instance (limiter : LoginRateLimiter) (call : LimiterCall) : Decidable (limiter.HasRoom call) := by
  cases call <;> unfold HasRoom <;> infer_instance

instance decidableUndisturbed : ∀ (calls : List LimiterCall) (limiter : LoginRateLimiter)
    (last : Int), Decidable (limiter.Undisturbed last calls)
  | [], _, _ => .isTrue trivial
  | call :: rest, limiter, last =>
    have := decidableUndisturbed rest (limiter.served call) (call.clockAfter last)
    inferInstanceAs (Decidable (_ ∧ _ ∧ _))

def usesKey (key : String) (keys : LoginKeys) : Bool := key ∈ keys.both

/-- What the maps hold after the calls, at the last clock value. -/
structure Tracks (limiter : LoginRateLimiter) (calls : List LimiterCall) (last : Int) : Prop where
  attempts : ∀ key, SameAfter (limiter.cutoff last) (logOf limiter.attempts key)
    (failuresSince (usesKey key) calls)
  names : ∀ ip, SameNames (limiter.cutoff last) (namesOf limiter.spray ip) (failedNames ip calls)
  past : ∀ ip, ∀ failure ∈ failedNames ip calls, failure.2 ≤ last

theorem tracks_new (maxAttempts lockoutSecs maxDistinctUsernames : Nat) (start : Int) :
    (new maxAttempts lockoutSecs maxDistinctUsernames).Tracks [] start :=
  ⟨fun _ => .refl _ _, fun _ => .empty _, fun _ => nofun⟩

variable {limiter : LoginRateLimiter} {calls : List LimiterCall} {last now sprayNow : Int}

theorem cutoff_mono (limiter : LoginRateLimiter) (le : last ≤ now) :
    limiter.cutoff last ≤ limiter.cutoff now := Int.sub_le_sub_right le _

/-- What only `set_limits` changes. -/
def budgets (limiter : LoginRateLimiter) : Nat × Int × Nat :=
  (limiter.maxAttempts, limiter.lockoutSecs, limiter.maxDistinctUsernames)

theorem cutoff_of_budgets {before after : LoginRateLimiter} (same : after.budgets = before.budgets)
    (time : Int) : after.cutoff time = before.cutoff time := by
  have window : after.lockoutSecs = before.lockoutSecs := congrArg (fun all => all.2.1) same
  rw [cutoff, cutoff, window]

/-- What a check leaves: the logs trimmed, the accounts trimmed, the budgets as they were. -/
structure Checked (before after : LoginRateLimiter) (now sprayNow : Int) : Prop where
  attempts : Trims (before.cutoff now) before.attempts after.attempts
  names : ∀ ip, namesOf after.spray ip = namesOf before.spray ip ∨
    namesOf after.spray ip = retainNames (before.cutoff sprayNow) (namesOf before.spray ip)
  budgets : after.budgets = before.budgets

theorem isAnyLocked_spray (limiter : LoginRateLimiter) (now : Int) (keys : List String) :
    (limiter.isAnyLocked now keys).2.spray = limiter.spray := by
  unfold isAnyLocked
  split <;> rfl

theorem isAnyLocked_budgets (limiter : LoginRateLimiter) (now : Int) (keys : List String) :
    (limiter.isAnyLocked now keys).2.budgets = limiter.budgets := by
  unfold isAnyLocked
  split <;> rfl

theorem isSpraying_frame (limiter : LoginRateLimiter) (now : Int) (ip : String) :
    (limiter.isSpraying now ip).2.attempts = limiter.attempts ∧
      (limiter.isSpraying now ip).2.budgets = limiter.budgets := by
  unfold isSpraying
  split
  · exact ⟨rfl, rfl⟩
  · split
    · exact ⟨rfl, rfl⟩
    · dsimp only
      split <;> exact ⟨rfl, rfl⟩

theorem isLoginBlocked_eq (limiter : LoginRateLimiter) (now sprayNow : Int) (keys : LoginKeys) :
    limiter.isLoginBlocked now sprayNow keys =
      if (limiter.isAnyLocked now keys.both).1 then
        (true, (limiter.isAnyLocked now keys.both).2)
      else (limiter.isAnyLocked now keys.both).2.isSpraying sprayNow keys.clientIp := rfl

theorem isLoginBlocked_checked (limiter : LoginRateLimiter) (now sprayNow : Int)
    (keys : LoginKeys) :
    limiter.Checked (limiter.isLoginBlocked now sprayNow keys).2 now sprayNow := by
  have trims := trims_isAnyLocked limiter now keys.both
  have spray := isAnyLocked_spray limiter now keys.both
  have budgets := isAnyLocked_budgets limiter now keys.both
  rw [isLoginBlocked_eq]
  generalize limiter.isAnyLocked now keys.both = locked at trims spray budgets ⊢
  split
  · exact ⟨trims, fun ip => Or.inl (by rw [spray]), budgets⟩
  · obtain ⟨attempts, budgets'⟩ := isSpraying_frame locked.2 sprayNow keys.clientIp
    refine ⟨by rw [attempts]; exact trims, fun ip => ?_, budgets'.trans budgets⟩
    have names := namesOf_isSpraying locked.2 sprayNow keys.clientIp ip
    rw [spray, cutoff_of_budgets budgets] at names
    exact names

theorem isLoginBlocked_iff (limiter : LoginRateLimiter) (now sprayNow : Int) (keys : LoginKeys)
    (attempts : 0 < limiter.maxAttempts) (names : 0 < limiter.maxDistinctUsernames) :
    (limiter.isLoginBlocked now sprayNow keys).1 = true ↔
      limiter.maxAttempts ≤
          asU32 (timesAfter (limiter.cutoff now) (logOf limiter.attempts keys.ipKey)).length ∨
        limiter.maxAttempts ≤
          asU32 (timesAfter (limiter.cutoff now) (logOf limiter.attempts keys.pairKey)).length ∨
        limiter.maxDistinctUsernames ≤ asU32
          (retainNames (limiter.cutoff sprayNow) (namesOf limiter.spray keys.clientIp)).rows.length := by
  have locked := anyLocked_iff attempts (limiter.cutoff now) keys.both limiter.attempts
  have enabled : limiter.lockoutDisabled = false := decide_eq_false (Nat.ne_of_gt attempts)
  have isLocked : (limiter.isAnyLocked now keys.both).1 =
      (anyLocked limiter.maxAttempts (limiter.cutoff now) keys.both limiter.attempts).1 := by
    unfold isAnyLocked
    rw [enabled]
    rfl
  have spray := isAnyLocked_spray limiter now keys.both
  have budgets := isAnyLocked_budgets limiter now keys.both
  have distinct : (limiter.isAnyLocked now keys.both).2.maxDistinctUsernames =
      limiter.maxDistinctUsernames := congrArg (fun all => all.2.2) budgets
  have spraying := isSpraying_iff (limiter.isAnyLocked now keys.both).2 sprayNow keys.clientIp
    (by rw [distinct]; exact names)
  rw [cutoff_of_budgets budgets, spray, distinct] at spraying
  rw [← isLocked] at locked
  simp only [LoginKeys.both, List.mem_cons, List.not_mem_nil, or_false, exists_eq_or_imp,
    exists_eq_left] at locked
  rw [isLoginBlocked_eq, ← or_assoc, ← locked]
  split
  · rename_i isTrue
    exact iff_of_true rfl (Or.inl isTrue)
  · rename_i isFalse
    exact spraying.trans (or_iff_right isFalse).symm

theorem usesKey_iff {key : String} {keys : LoginKeys} : usesKey key keys = true ↔ key ∈ keys.both :=
  decide_eq_true_iff

theorem Tracks.recordLoginFailure (tracks : limiter.Tracks calls last) (keys : LoginKeys)
    (order : last ≤ now) (sprayOrder : now ≤ sprayNow)
    (room : limiter.HasRoom (.recordLoginFailure keys now sprayNow)) :
    (limiter.recordLoginFailure now sprayNow keys).Tracks
      (calls ++ [.recordLoginFailure keys now sprayNow]) sprayNow := by
  obtain ⟨attemptRoom, sprayRoom'⟩ := room
  have later := cutoff_mono limiter (Int.le_trans order sprayOrder)
  have attemptsEq : (limiter.recordLoginFailure now sprayNow keys).attempts =
      pushTimes now (limiter.cutoff now) keys.both limiter.attempts := evictOldest_of_le attemptRoom
  have sprayEq : (limiter.recordLoginFailure now sprayNow keys).spray =
      limiter.spray.put keys.clientIp ((retainNames (limiter.cutoff sprayNow)
        (namesOf limiter.spray keys.clientIp)).put keys.username sprayNow) := by
    have kept : sprayRoom limiter.spray keys.clientIp = limiter.spray := by
      unfold sprayRoom
      rw [if_neg]
      rcases sprayRoom' with listed | fits
      · simp [Option.isNone_iff_eq_none, Option.isSome_iff_ne_none.mp listed]
      · simp [Nat.not_le.mpr fits]
    show (sprayRoom limiter.spray keys.clientIp).put keys.clientIp
      ((retainNames (limiter.cutoff sprayNow)
        (namesOf (sprayRoom limiter.spray keys.clientIp) keys.clientIp)).put keys.username sprayNow) = _
    rw [kept]
  refine ⟨fun key => ?_, fun ip => ?_, fun ip failure listed => ?_⟩
  · rw [attemptsEq, logOf_pushTimes]
    by_cases used : key ∈ keys.both
    · rw [if_pos used, failuresSince_of_ours calls (usesKey_iff.mpr used)]
      exact (((tracks.attempts key).append [now]).trim (cutoff_mono limiter order)).mono
        (cutoff_mono limiter sprayOrder)
    · have foreign : usesKey key keys = false := decide_eq_false used
      rw [if_neg used, failuresSince_of_other calls foreign]
      exact (tracks.attempts key).mono later
  · rw [sprayEq, failedNames_concat]
    by_cases same : (LimiterCall.recordLoginFailure keys now sprayNow).keys.clientIp = ip
    · rw [if_pos same, show keys.clientIp = ip from same, namesOf_put_self]
      exact ((tracks.names _).trim later).insert (fun failure listed =>
        Int.le_trans (tracks.past _ failure listed) (Int.le_trans order sprayOrder)) keys.username
    · rw [if_neg same, List.append_nil, namesOf_put_of_ne _ _ (Ne.symm same : ip ≠ keys.clientIp)]
      exact (tracks.names ip).mono later
  · rw [failedNames_concat] at listed
    rcases List.mem_append.mp listed with old | new
    · exact Int.le_trans (tracks.past ip failure old) (Int.le_trans order sprayOrder)
    · split at new
      · rw [List.mem_singleton.mp new]
      · cases new

theorem Tracks.clearLoginFailure (tracks : limiter.Tracks calls last) (keys : LoginKeys) :
    (limiter.clearLoginFailure keys).Tracks (calls ++ [.clearLoginFailure keys]) last := by
  have unnamed : ∀ ip, failedNames ip (calls ++ [.clearLoginFailure keys]) = failedNames ip calls := by
    intro ip
    rw [failedNames_concat]
    simp [LimiterCall.failedName]
  refine ⟨fun key => ?_, fun ip => ?_, fun ip => ?_⟩
  · rw [logOf_clearLoginFailure]
    by_cases used : key ∈ keys.both
    · rw [if_pos used, failuresSince_of_ours calls (usesKey_iff.mpr used)]
      exact .refl _ _
    · have foreign : usesKey key keys = false := decide_eq_false used
      rw [if_neg used, failuresSince_of_other calls foreign]
      exact tracks.attempts key
  · rw [unnamed]
    exact tracks.names ip
  · rw [unnamed]
    exact tracks.past ip

theorem Tracks.checked (tracks : limiter.Tracks calls last) {after : LoginRateLimiter}
    (checked : limiter.Checked after now sprayNow) (order : last ≤ now) (sprayOrder : now ≤ sprayNow)
    {call : LimiterCall} (idle : call.counts = false) (unnamed : call.failedName = none) :
    after.Tracks (calls ++ [call]) sprayNow := by
  have later := cutoff_mono limiter (Int.le_trans order sprayOrder)
  have names : ∀ ip, failedNames ip (calls ++ [call]) = failedNames ip calls := by
    intro ip
    rw [failedNames_concat, unnamed]
    simp
  have window := cutoff_of_budgets checked.budgets
  refine ⟨fun key => ?_, fun ip => ?_, fun ip failure listed => ?_⟩
  · rw [window, failuresSince_of_idle calls idle]
    exact (checked.attempts.sameAfter (tracks.attempts key) (cutoff_mono limiter order)).mono
      (cutoff_mono limiter sprayOrder)
  · rw [window, names]
    rcases checked.names ip with same | trimmed
    · rw [same]
      exact (tracks.names ip).mono later
    · rw [trimmed]
      exact (tracks.names ip).trim later
  · rw [names] at listed
    exact Int.le_trans (tracks.past ip failure listed) (Int.le_trans order sprayOrder)

theorem Tracks.served (tracks : limiter.Tracks calls last) {call : LimiterCall}
    (order : (last :: call.clocks).Pairwise (· ≤ ·)) (room : limiter.HasRoom call) :
    (limiter.served call).Tracks (calls ++ [call]) (call.clockAfter last) := by
  cases call with
  | recordLoginFailure keys now sprayNow =>
    obtain ⟨ordered, sprayOrdered⟩ := List.pairwise_cons.mp order
    exact tracks.recordLoginFailure keys (ordered now (by simp [LimiterCall.clocks]))
      ((List.pairwise_cons.mp sprayOrdered).1 sprayNow (by simp)) room
  | clearLoginFailure keys => exact tracks.clearLoginFailure keys
  | isLoginBlocked keys now sprayNow =>
    obtain ⟨ordered, sprayOrdered⟩ := List.pairwise_cons.mp order
    exact tracks.checked (isLoginBlocked_checked limiter now sprayNow keys)
      (ordered now (by simp [LimiterCall.clocks]))
      ((List.pairwise_cons.mp sprayOrdered).1 sprayNow (by simp)) rfl rfl
  | failureCount keys now =>
    obtain ⟨ordered, -⟩ := List.pairwise_cons.mp order
    have counted : limiter.Checked (limiter.failureCount now keys).2 now now :=
      ⟨trims_failureCount limiter now keys, fun _ => Or.inl rfl, rfl⟩
    exact tracks.checked counted (ordered now (by simp [LimiterCall.clocks])) (Int.le_refl now)
      rfl rfl

theorem served_budgets (limiter : LoginRateLimiter) (call : LimiterCall) :
    (limiter.served call).budgets = limiter.budgets := by
  cases call with
  | recordLoginFailure keys now sprayNow | clearLoginFailure keys | failureCount keys now => rfl
  | isLoginBlocked keys now sprayNow => exact (isLoginBlocked_checked limiter now sprayNow keys).budgets

theorem run_budgets (limiter : LoginRateLimiter) (calls : List LimiterCall) :
    (limiter.run calls).budgets = limiter.budgets := by
  induction calls generalizing limiter with
  | nil => rfl
  | cons call rest ih => exact (ih (limiter.served call)).trans (served_budgets limiter call)

theorem Tracks.run {rest : List LimiterCall} (tracks : limiter.Tracks calls last)
    (undisturbed : limiter.Undisturbed last rest) :
    (limiter.run rest).Tracks (calls ++ rest) (lastClock last rest) := by
  induction rest generalizing limiter calls last with
  | nil =>
    rw [List.append_nil]
    exact tracks
  | cons call rest ih =>
    obtain ⟨order, room, undisturbed⟩ := undisturbed
    have next := ih (tracks.served order room) undisturbed
    rw [List.append_assoc, List.singleton_append] at next
    exact next

/-- What blocks a sign-in: the failures of the address since it last succeeded, those of the pair
since that succeeded, or the accounts that failed from the address. -/
def ShouldBlock (maxAttempts lockoutSecs maxDistinctUsernames : Nat) (calls : List LimiterCall)
    (keys : LoginKeys) (now sprayNow : Int) : Prop :=
  maxAttempts ≤ (timesAfter (now - lockoutSecs)
      (failuresSince (fun other => other.clientIp = keys.clientIp) calls)).length ∨
    maxAttempts ≤ (timesAfter (now - lockoutSecs)
      (failuresSince (fun other => other = keys) calls)).length ∨
    maxDistinctUsernames ≤ (namesAfter (sprayNow - lockoutSecs)
      (failedNames keys.clientIp calls)).dedup.length

/-- No other pair is kept under the text of this one, and no count outgrows its type. -/
structure KeptApart (lockoutSecs : Nat) (calls : List LimiterCall) (keys : LoginKeys)
    (now sprayNow : Int) : Prop where
  window : lockoutSecs < 2 ^ 63
  apart : ∀ call ∈ calls, call.counts = true → call.keys.pairKey = keys.pairKey → call.keys = keys
  fromIp : (timesAfter (now - lockoutSecs)
    (failuresSince (fun other => other.clientIp = keys.clientIp) calls)).length < 2 ^ 32
  fromPair : (timesAfter (now - lockoutSecs)
    (failuresSince (fun other => other = keys) calls)).length < 2 ^ 32
  names : (namesAfter (sprayNow - lockoutSecs)
    (failedNames keys.clientIp calls)).dedup.length < 2 ^ 32

theorem asU32_eq {number : Nat} (fits : number < 2 ^ 32) : asU32 number = number :=
  Nat.mod_eq_of_lt fits

theorem usesKey_ipKey (keys other : LoginKeys) :
    usesKey keys.ipKey other = decide (other.clientIp = keys.clientIp) := by
  refine decide_eq_decide.mpr ?_
  rw [LoginKeys.both, List.mem_cons, List.mem_singleton, or_iff_left (keys.ipKey_ne_pairKey other)]
  exact eq_comm.trans LoginKeys.ipKey_inj

theorem usesKey_pairKey (keys other : LoginKeys) :
    usesKey keys.pairKey other = decide (other.pairKey = keys.pairKey) := by
  refine decide_eq_decide.mpr ?_
  rw [LoginKeys.both, List.mem_cons, List.mem_singleton,
    or_iff_right (other.ipKey_ne_pairKey keys).symm]
  exact eq_comm

section Verdict

variable {maxAttempts lockoutSecs maxDistinctUsernames : Nat} {start : Int} {keys : LoginKeys}

theorem isLoginBlocked_run (attempts : 0 < maxAttempts) (distinct : 0 < maxDistinctUsernames)
    (undisturbed : (new maxAttempts lockoutSecs maxDistinctUsernames).Undisturbed start calls)
    (order : lastClock start calls ≤ now) (sprayOrder : now ≤ sprayNow)
    (kept : KeptApart lockoutSecs calls keys now sprayNow) :
    (((new maxAttempts lockoutSecs maxDistinctUsernames).run calls).isLoginBlocked
        now sprayNow keys).1 = true ↔
      ShouldBlock maxAttempts lockoutSecs maxDistinctUsernames calls keys now sprayNow := by
  have budgets := run_budgets (new maxAttempts lockoutSecs maxDistinctUsernames) calls
  have tracks := (tracks_new maxAttempts lockoutSecs maxDistinctUsernames start).run undisturbed
  rw [List.nil_append] at tracks
  generalize (new maxAttempts lockoutSecs maxDistinctUsernames).run calls = limiter
    at budgets tracks ⊢
  have window : ∀ time, limiter.cutoff time = time - lockoutSecs := by
    intro time
    rw [cutoff_of_budgets budgets, cutoff, new, asI64_of_lt kept.window]
  have limit : limiter.maxAttempts = maxAttempts := congrArg (fun all => all.1) budgets
  have names : limiter.maxDistinctUsernames = maxDistinctUsernames :=
    congrArg (fun all => all.2.2) budgets
  have logged : ∀ key, timesAfter (now - lockoutSecs) (logOf limiter.attempts key) =
      timesAfter (now - lockoutSecs) (failuresSince (usesKey key) calls) := by
    intro key
    rw [← window]
    exact tracks.attempts key _ (cutoff_mono limiter order)
  have ofIp : failuresSince (usesKey keys.ipKey) calls =
      failuresSince (fun other => other.clientIp = keys.clientIp) calls :=
    failuresSince_congr fun call _ _ => usesKey_ipKey keys call.keys
  have ofPair : failuresSince (usesKey keys.pairKey) calls =
      failuresSince (fun other => other = keys) calls := by
    refine failuresSince_congr fun call listed counted => ?_
    rw [usesKey_pairKey]
    exact decide_eq_decide.mpr
      ⟨kept.apart call listed counted, fun same => congrArg LoginKeys.pairKey same⟩
  have named := (tracks.names keys.clientIp).length_retain
    (cutoff_mono limiter (Int.le_trans order sprayOrder))
  rw [isLoginBlocked_iff limiter now sprayNow keys (limit ▸ attempts) (names ▸ distinct), named,
    limit, names, window, window, logged, logged, ofIp, ofPair, asU32_eq kept.fromIp,
    asU32_eq kept.fromPair, asU32_eq kept.names]
  exact Iff.rfl

theorem shouldBlock_congr {others : List LimiterCall}
    (same : callsOf (fun other => other.clientIp = keys.clientIp) others =
      callsOf (fun other => other.clientIp = keys.clientIp) calls) :
    ShouldBlock maxAttempts lockoutSecs maxDistinctUsernames others keys now sprayNow ↔
      ShouldBlock maxAttempts lockoutSecs maxDistinctUsernames calls keys now sprayNow := by
  have ofPair : callsOf (fun other => other = keys) others =
      callsOf (fun other => other = keys) calls := by
    have within : ∀ other : LoginKeys, decide (other = keys) = true →
        decide (other.clientIp = keys.clientIp) = true := by
      intro other isKeys
      rw [of_decide_eq_true isKeys]
      exact decide_eq_true rfl
    rw [← callsOf_callsOf others within, same, callsOf_callsOf calls within]
  unfold ShouldBlock failedNames failuresSince
  rw [same, ofPair]

/-- A check answers by the failures of its address, of its pair and of the address's accounts, and
the calls of other addresses do not change its answer. -/
theorem login_blocked_iff (attempts : 0 < maxAttempts) (distinct : 0 < maxDistinctUsernames)
    (undisturbed : (new maxAttempts lockoutSecs maxDistinctUsernames).Undisturbed start calls)
    (order : lastClock start calls ≤ now) (sprayOrder : now ≤ sprayNow)
    (kept : KeptApart lockoutSecs calls keys now sprayNow) :
    ((((new maxAttempts lockoutSecs maxDistinctUsernames).run calls).isLoginBlocked
        now sprayNow keys).1 = true ↔
      ShouldBlock maxAttempts lockoutSecs maxDistinctUsernames calls keys now sprayNow) ∧
    ∀ others,
      (new maxAttempts lockoutSecs maxDistinctUsernames).Undisturbed start others →
      lastClock start others ≤ now → KeptApart lockoutSecs others keys now sprayNow →
      callsOf (fun other => other.clientIp = keys.clientIp) others =
        callsOf (fun other => other.clientIp = keys.clientIp) calls →
      (((new maxAttempts lockoutSecs maxDistinctUsernames).run others).isLoginBlocked
          now sprayNow keys).1 =
        (((new maxAttempts lockoutSecs maxDistinctUsernames).run calls).isLoginBlocked
          now sprayNow keys).1 := by
  have verdict := isLoginBlocked_run attempts distinct undisturbed order sprayOrder kept
  refine ⟨verdict, fun others undisturbed' order' kept' same => ?_⟩
  have verdict' := isLoginBlocked_run attempts distinct undisturbed' order' sprayOrder kept'
  exact Bool.eq_iff_iff.mpr (verdict'.trans ((shouldBlock_congr same).trans verdict.symm))

end Verdict

instance (maxAttempts lockoutSecs maxDistinctUsernames : Nat) (calls : List LimiterCall)
    (keys : LoginKeys) (now sprayNow : Int) :
    Decidable (ShouldBlock maxAttempts lockoutSecs maxDistinctUsernames calls keys now sprayNow) :=
  inferInstanceAs (Decidable (_ ∨ _ ∨ _))

/-- Five failures on one address block another account there, also when an account fails on
another address in between. -/
theorem login_blocked_after_five :
    ((((new 5 900 10).run (List.replicate 5
        (.recordLoginFailure ⟨"203.0.113.9", "a@b.c"⟩ 100 100))).isLoginBlocked
          101 101 ⟨"203.0.113.9", "d@b.c"⟩).1 = true ↔
      ShouldBlock 5 900 10 (List.replicate 5
        (.recordLoginFailure ⟨"203.0.113.9", "a@b.c"⟩ 100 100)) ⟨"203.0.113.9", "d@b.c"⟩ 101 101) ∧
    (((new 5 900 10).run (List.replicate 5 (.recordLoginFailure ⟨"203.0.113.9", "a@b.c"⟩ 100 100) ++
        [.recordLoginFailure ⟨"198.51.100.4", "a@b.c"⟩ 100 100])).isLoginBlocked
          101 101 ⟨"203.0.113.9", "d@b.c"⟩).1 =
      (((new 5 900 10).run (List.replicate 5
        (.recordLoginFailure ⟨"203.0.113.9", "a@b.c"⟩ 100 100))).isLoginBlocked
          101 101 ⟨"203.0.113.9", "d@b.c"⟩).1 := by
  have quiet : (new 5 900 10).Undisturbed 0 (List.replicate 5
      (.recordLoginFailure ⟨"203.0.113.9", "a@b.c"⟩ 100 100)) := by decide +kernel
  obtain ⟨verdict, others⟩ := login_blocked_iff (by decide) (by decide) quiet
    (show _ ≤ (101 : Int) by decide) (Int.le_refl 101)
    (show KeptApart 900 _ ⟨"203.0.113.9", "d@b.c"⟩ 101 101 from
      ⟨by decide, by decide, by decide, by decide, by decide⟩)
  exact ⟨verdict, others _ (by decide +kernel) (by decide)
    ⟨by decide, by decide, by decide, by decide, by decide⟩ (by decide)⟩

/-- A failure on one address blocks an account on another, under whose text it was kept. -/
theorem login_blocked_by_other_address :
    (new 1 900 10).Undisturbed 0 [.recordLoginFailure ⟨"::1", "2:x"⟩ 100 100] ∧
      (((new 1 900 10).run [.recordLoginFailure ⟨"::1", "2:x"⟩ 100 100]).isLoginBlocked
        101 101 ⟨"::1:2", "x"⟩).1 = true ∧
      ¬ ShouldBlock 1 900 10 [.recordLoginFailure ⟨"::1", "2:x"⟩ 100 100] ⟨"::1:2", "x"⟩ 101 101 ∧
      (((new 1 900 10).run []).isLoginBlocked 101 101 ⟨"::1:2", "x"⟩).1 = false := by
  decide +kernel

end LoginRateLimiter

end Nanofile
