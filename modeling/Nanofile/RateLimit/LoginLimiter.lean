import Mathlib.Data.List.Sort
import Mathlib.Data.String.Basic
import Nanofile.Base.Numbers
import Nanofile.Lib.WindowLog

/-!
# The limiter of failed sign-ins

Failures are kept by the address and by the pair of address and account, under keys that are
formatted texts, and the accounts an address failed on are kept beside them.  Every operation
drops what has left the window of the keys it touches.
-/

set_option autoImplicit false

namespace Nanofile

open Nanofile.Lib

structure LoginKeys where
  clientIp : String
  username : String
deriving DecidableEq, Repr

namespace LoginKeys

def ipKey (keys : LoginKeys) : String := "login:ip:" ++ keys.clientIp

def pairKey (keys : LoginKeys) : String := "login:pair:" ++ keys.clientIp ++ ":" ++ keys.username

def both (keys : LoginKeys) : List String := [keys.ipKey, keys.pairKey]

theorem ipKey_ne_pairKey (first second : LoginKeys) : first.ipKey ≠ second.pairKey := by
  intro same
  have chars := congrArg String.toList same
  simp [ipKey, pairKey] at chars

theorem ipKey_inj {first second : LoginKeys} :
    first.ipKey = second.ipKey ↔ first.clientIp = second.clientIp := by
  constructor
  · intro same
    have chars := congrArg String.toList same
    exact String.ext (by simpa [ipKey] using chars)
  · intro same
    rw [ipKey, ipKey, same]

end LoginKeys

def maxSprayIps : Nat := 4096

def maxAttemptKeys : Nat := 50000

def i64Min : Int := -2 ^ 63

def evictOldest (map : Table String (List Int)) (max : Nat) : Table String (List Int) :=
  if map.rows.length ≤ max then map
  else
    let target := max - max / 10
    let remove := map.rows.length - target
    let byAge := (map.rows.map fun row => (row.2.max?.getD i64Min, row.1)).mergeSort
      fun first second => first.1 < second.1 || (first.1 = second.1 && first.2 ≤ second.2)
    (byAge.take remove).foldl (fun map row => map.keepKeys fun key => key ≠ row.2) map

/-- The two mutexes' maps with the budgets.  The clock is read anew under each mutex. -/
structure LoginRateLimiter where
  attempts : Table String (List Int)
  spray : Table String (Table String Int)
  maxAttempts : Nat
  lockoutSecs : Int
  maxDistinctUsernames : Nat

namespace LoginRateLimiter

def new (maxAttempts lockoutSecs maxDistinctUsernames : Nat) : LoginRateLimiter :=
  ⟨.empty, .empty, maxAttempts, asI64 lockoutSecs, maxDistinctUsernames⟩

def lockoutDisabled (limiter : LoginRateLimiter) : Bool := limiter.maxAttempts = 0

def cutoff (limiter : LoginRateLimiter) (now : Int) : Int := now - limiter.lockoutSecs

/-- The loop of `failure_count`: the largest count, and the keys whose times are all stale. -/
def countKeys (cutoff : Int) : List String → Nat × List String × Table String (List Int) →
    Nat × List String × Table String (List Int)
  | [], found => found
  | key :: rest, (count, stale, map) =>
    match map.find key with
    | none => countKeys cutoff rest (count, stale, map)
    | some timestamps =>
      let kept := timesAfter cutoff timestamps
      if kept.isEmpty then countKeys cutoff rest (count, stale ++ [key], map.put key kept)
      else countKeys cutoff rest (max count (asU32 kept.length), stale, map.put key kept)

def failureCount (limiter : LoginRateLimiter) (now : Int) (keys : LoginKeys) :
    Nat × LoginRateLimiter :=
  let (count, stale, map) := countKeys (limiter.cutoff now) keys.both (0, [], limiter.attempts)
  (count, { limiter with
    attempts := stale.foldl (fun map key => map.keepKeys fun other => other ≠ key) map })

/-- The loop of `is_any_locked`, which stops at the first key that is locked. -/
def anyLocked (limit : Nat) (cutoff : Int) : List String → Table String (List Int) →
    Bool × Table String (List Int)
  | [], map => (false, map)
  | key :: rest, map =>
    match map.find key with
    | none => anyLocked limit cutoff rest map
    | some timestamps =>
      let kept := timesAfter cutoff timestamps
      if kept.isEmpty then anyLocked limit cutoff rest (map.keepKeys fun other => other ≠ key)
      else if limit ≤ asU32 kept.length then (true, map.put key kept)
      else anyLocked limit cutoff rest (map.put key kept)

def isAnyLocked (limiter : LoginRateLimiter) (now : Int) (keys : List String) :
    Bool × LoginRateLimiter :=
  if limiter.lockoutDisabled then (false, limiter)
  else
    let (locked, map) := anyLocked limiter.maxAttempts (limiter.cutoff now) keys limiter.attempts
    (locked, { limiter with attempts := map })

def pushTimes (now cutoff : Int) (keys : List String) (map : Table String (List Int)) :
    Table String (List Int) :=
  keys.foldl (fun map key => map.put key (timesAfter cutoff (logOf map key ++ [now]))) map

def recordFailures (limiter : LoginRateLimiter) (now : Int) (keys : List String) :
    LoginRateLimiter :=
  { limiter with
    attempts := evictOldest (pushTimes now (limiter.cutoff now) keys limiter.attempts)
      maxAttemptKeys }

def clear (limiter : LoginRateLimiter) (key : String) : LoginRateLimiter :=
  { limiter with attempts := limiter.attempts.keepKeys fun other => other ≠ key }

def retainNames (cutoff : Int) (perIp : Table String Int) : Table String Int :=
  ⟨perIp.rows.filter fun row => cutoff < row.2⟩

/-- The address whose last failure is the oldest, the first listed one of several. -/
def oldestIp (map : Table String (Table String Int)) : Option String :=
  (map.rows.foldl (fun oldest row =>
    let last := (row.2.rows.map Prod.snd).max?.getD i64Min
    match oldest with
    | none => some (last, row.1)
    | some found => if last < found.1 then some (last, row.1) else some found) none).map Prod.snd

def sprayRoom (map : Table String (Table String Int)) (ip : String) :
    Table String (Table String Int) :=
  if (map.find ip).isNone && maxSprayIps ≤ map.rows.length then
    match oldestIp map with
    | some addr => map.keepKeys fun other => other ≠ addr
    | none => map
  else map

def namesOf (map : Table String (Table String Int)) (ip : String) : Table String Int :=
  (map.find ip).getD .empty

def recordUsernameFailure (limiter : LoginRateLimiter) (now : Int) (ip username : String) :
    LoginRateLimiter :=
  let map := sprayRoom limiter.spray ip
  let perIp := retainNames (limiter.cutoff now) (namesOf map ip)
  { limiter with spray := map.put ip (perIp.put username now) }

def isSpraying (limiter : LoginRateLimiter) (now : Int) (ip : String) : Bool × LoginRateLimiter :=
  if limiter.maxDistinctUsernames = 0 then (false, limiter)
  else
    match limiter.spray.find ip with
    | none => (false, limiter)
    | some perIp =>
      let kept := retainNames (limiter.cutoff now) perIp
      if kept.rows.isEmpty then
        (false, { limiter with spray := limiter.spray.keepKeys fun other => other ≠ ip })
      else
        (limiter.maxDistinctUsernames ≤ asU32 kept.rows.length,
          { limiter with spray := limiter.spray.put ip kept })

def isLoginBlocked (limiter : LoginRateLimiter) (now sprayNow : Int) (keys : LoginKeys) :
    Bool × LoginRateLimiter :=
  let (locked, limiter) := limiter.isAnyLocked now keys.both
  if locked then (true, limiter) else limiter.isSpraying sprayNow keys.clientIp

def recordLoginFailure (limiter : LoginRateLimiter) (now sprayNow : Int) (keys : LoginKeys) :
    LoginRateLimiter :=
  (limiter.recordFailures now keys.both).recordUsernameFailure sprayNow keys.clientIp keys.username

def clearLoginFailure (limiter : LoginRateLimiter) (keys : LoginKeys) : LoginRateLimiter :=
  (limiter.clear keys.ipKey).clear keys.pairKey

end LoginRateLimiter

end Nanofile
