import Mathlib.Data.List.Dedup
import Nanofile.RateLimit.LoginLimiter

/-!
# What the login limiter counts

The maps of the limiter are compared with the calls it served.  Behind the window of the last
clock value a log holds what failed under its key since the key was cleared, and an address's
accounts are those that failed from it.  Keys are texts, so two pairs of address and account
count as one when their texts agree.
-/

set_option autoImplicit false

namespace Nanofile

open Nanofile.Lib

inductive LimiterCall where
  | recordLoginFailure (keys : LoginKeys) (now sprayNow : Int)
  | clearLoginFailure (keys : LoginKeys)
  | isLoginBlocked (keys : LoginKeys) (now sprayNow : Int)
  | failureCount (keys : LoginKeys) (now : Int)
deriving DecidableEq

namespace LimiterCall

def keys : LimiterCall → LoginKeys
  | .recordLoginFailure keys _ _ => keys
  | .clearLoginFailure keys => keys
  | .isLoginBlocked keys _ _ => keys
  | .failureCount keys _ => keys

def clocks : LimiterCall → List Int
  | .recordLoginFailure _ now sprayNow => [now, sprayNow]
  | .clearLoginFailure _ => []
  | .isLoginBlocked _ now sprayNow => [now, sprayNow]
  | .failureCount _ now => [now]

def clockAfter (last : Int) (call : LimiterCall) : Int := call.clocks.getLastD last

/-- When the call recorded a failure in the map of attempts. -/
def failedAt : LimiterCall → Option Int
  | .recordLoginFailure _ now _ => some now
  | _ => none

def succeeded : LimiterCall → Bool
  | .clearLoginFailure _ => true
  | _ => false

def counts (call : LimiterCall) : Bool := call.succeeded || call.failedAt.isSome

/-- The account that failed, and when the spray map heard of it. -/
def failedName : LimiterCall → Option (String × Int)
  | .recordLoginFailure keys _ sprayNow => some (keys.username, sprayNow)
  | _ => none

end LimiterCall

def callsOf (ours : LoginKeys → Bool) (calls : List LimiterCall) : List LimiterCall :=
  calls.filter fun call => ours call.keys

/-- When keys that match failed since they last succeeded. -/
def failuresSince (ours : LoginKeys → Bool) (calls : List LimiterCall) : List Int :=
  (((callsOf ours calls).reverse.takeWhile fun call => !call.succeeded).reverse).filterMap
    LimiterCall.failedAt

def failedNames (ip : String) (calls : List LimiterCall) : List (String × Int) :=
  (callsOf (fun keys => keys.clientIp = ip) calls).filterMap LimiterCall.failedName

/-- The accounts that failed after the cutoff, as often as they did. -/
def namesAfter (cutoff : Int) (failures : List (String × Int)) : List String :=
  (failures.filter fun failure => cutoff < failure.2).map Prod.fst

theorem callsOf_concat (ours : LoginKeys → Bool) (calls : List LimiterCall) (call : LimiterCall) :
    callsOf ours (calls ++ [call]) =
      if ours call.keys then callsOf ours calls ++ [call] else callsOf ours calls := by
  unfold callsOf
  rw [List.filter_append, List.filter_singleton]
  cases ours call.keys <;> simp

variable {ours : LoginKeys → Bool}

theorem callsOf_callsOf {wider : LoginKeys → Bool} (calls : List LimiterCall)
    (within : ∀ keys, ours keys = true → wider keys = true) :
    callsOf ours (callsOf wider calls) = callsOf ours calls := by
  unfold callsOf
  rw [List.filter_filter]
  refine List.filter_congr fun call _ => ?_
  cases isOurs : ours call.keys with
  | false => rfl
  | true => simp [within _ isOurs]

variable {call : LimiterCall}

theorem failuresSince_of_other (calls : List LimiterCall) (foreign : ours call.keys = false) :
    failuresSince ours (calls ++ [call]) = failuresSince ours calls := by
  unfold failuresSince
  rw [callsOf_concat, foreign, if_neg (by simp)]

theorem failuresSince_of_ours (calls : List LimiterCall) (isOurs : ours call.keys = true) :
    failuresSince ours (calls ++ [call]) =
      if call.succeeded then [] else failuresSince ours calls ++ call.failedAt.toList := by
  unfold failuresSince
  rw [callsOf_concat, isOurs, if_pos rfl, List.reverse_append, List.reverse_singleton,
    List.singleton_append, List.takeWhile_cons]
  cases call.succeeded with
  | true => rfl
  | false =>
    rw [Bool.not_false, if_pos rfl, List.reverse_cons, List.filterMap_append, if_neg (by simp)]
    cases failed : call.failedAt <;> simp [failed]

theorem failuresSince_of_idle (calls : List LimiterCall) (idle : call.counts = false) :
    failuresSince ours (calls ++ [call]) = failuresSince ours calls := by
  obtain ⟨uncleared, unfailed⟩ := Bool.or_eq_false_iff.mp idle
  cases isOurs : ours call.keys with
  | true =>
    have absent : call.failedAt = none := by simpa using unfailed
    rw [failuresSince_of_ours calls isOurs, uncleared, absent]
    simp
  | false => exact failuresSince_of_other calls isOurs

theorem failuresSince_congr {others : LoginKeys → Bool} {calls : List LimiterCall}
    (agree : ∀ call ∈ calls, call.counts = true → ours call.keys = others call.keys) :
    failuresSince ours calls = failuresSince others calls := by
  induction calls using List.reverseRecOn with
  | nil => rfl
  | append_singleton calls call ih =>
    have before := ih fun earlier listed => agree earlier (by simp [listed])
    cases counted : call.counts with
    | true =>
      have same := agree call (by simp) counted
      cases isOurs : ours call.keys with
      | true =>
        rw [failuresSince_of_ours calls isOurs,
          failuresSince_of_ours calls (same.symm.trans isOurs), before]
      | false =>
        rw [failuresSince_of_other calls isOurs,
          failuresSince_of_other calls (same.symm.trans isOurs), before]
    | false =>
      rw [failuresSince_of_idle calls counted, failuresSince_of_idle calls counted, before]

theorem failedNames_concat (ip : String) (calls : List LimiterCall) (call : LimiterCall) :
    failedNames ip (calls ++ [call]) = failedNames ip calls ++
      if call.keys.clientIp = ip then call.failedName.toList else [] := by
  unfold failedNames
  rw [callsOf_concat]
  by_cases same : call.keys.clientIp = ip
  · rw [if_pos (by simpa using same), if_pos same, List.filterMap_append]
    cases failed : call.failedName <;> simp [failed]
  · rw [if_neg (by simpa using same), if_neg same, List.append_nil]

/-- No reader from the cutoff on tells the accounts kept from those that failed. -/
structure SameNames (cutoff : Int) (kept : Table String Int) (failures : List (String × Int)) :
    Prop where
  unique : kept.keys.Nodup
  same : ∀ later, cutoff ≤ later → ∀ name,
    name ∈ (LoginRateLimiter.retainNames later kept).keys ↔ name ∈ namesAfter later failures

namespace SameNames

open LoginRateLimiter

variable {cutoff later : Int} {kept : Table String Int} {failures : List (String × Int)}

theorem mem_keys_retain {name : String} : name ∈ (retainNames cutoff kept).keys ↔
    ∃ time, (name, time) ∈ kept.rows ∧ cutoff < time := by
  simp [retainNames, Table.keys]

theorem mem_namesAfter {name : String} : name ∈ namesAfter cutoff failures ↔
    ∃ time, (name, time) ∈ failures ∧ cutoff < time := by
  simp [namesAfter]

theorem empty (cutoff : Int) : SameNames cutoff .empty [] :=
  ⟨List.nodup_nil, fun _ _ _ => Iff.rfl⟩

theorem mono (agrees : SameNames cutoff kept failures) (le : cutoff ≤ later) :
    SameNames later kept failures :=
  ⟨agrees.unique, fun last after => agrees.same last (Int.le_trans le after)⟩

theorem trim (agrees : SameNames cutoff kept failures) (le : cutoff ≤ later) :
    SameNames later (retainNames later kept) failures := by
  constructor
  · exact agrees.unique.sublist (List.filter_sublist.map Prod.fst)
  · intro last after name
    rw [← agrees.same last (Int.le_trans le after) name, mem_keys_retain, mem_keys_retain]
    constructor
    · rintro ⟨time, listed, inside⟩
      exact ⟨time, List.mem_of_mem_filter listed, inside⟩
    · rintro ⟨time, listed, inside⟩
      exact ⟨time, List.mem_filter.mpr ⟨listed, by simpa using Int.lt_of_le_of_lt after inside⟩, inside⟩

theorem insert (agrees : SameNames cutoff kept failures) {now : Int}
    (past : ∀ failure ∈ failures, failure.2 ≤ now) (username : String) :
    SameNames cutoff (kept.put username now) (failures ++ [(username, now)]) := by
  constructor
  · exact Table.keys_put_nodup agrees.unique username now
  · intro last after name
    have before := agrees.same last after name
    rw [mem_keys_retain, mem_namesAfter] at before ⊢
    constructor
    · rintro ⟨time, listed, inside⟩
      rcases List.mem_append.mp listed with old | new
      · obtain ⟨time', listed', inside'⟩ := before.mp ⟨time, List.mem_of_mem_filter old, inside⟩
        exact ⟨time', List.mem_append_left _ listed', inside'⟩
      · exact ⟨time, List.mem_append_right _ new, inside⟩
    · rintro ⟨time, listed, inside⟩
      by_cases same : name = username
      · subst same
        refine ⟨now, List.mem_append_right _ (List.mem_singleton_self _), ?_⟩
        rcases List.mem_append.mp listed with old | new
        · exact Int.lt_of_lt_of_le inside (past _ old)
        · cases List.mem_singleton.mp new
          exact inside
      · rcases List.mem_append.mp listed with old | new
        · obtain ⟨time', listed', inside'⟩ := before.mpr ⟨time, old, inside⟩
          refine ⟨time', List.mem_append_left _ (List.mem_filter.mpr ⟨listed', ?_⟩), inside'⟩
          simpa using same
        · cases List.mem_singleton.mp new
          exact absurd rfl same

theorem length_retain (agrees : SameNames cutoff kept failures) (le : cutoff ≤ later) :
    (retainNames later kept).rows.length = (namesAfter later failures).dedup.length := by
  have unique := agrees.unique.sublist
    (List.filter_sublist (p := fun row => later < row.2).map Prod.fst)
  have perm : (retainNames later kept).keys.Perm (namesAfter later failures).dedup :=
    (List.perm_ext_iff_of_nodup unique (List.nodup_dedup _)).mpr fun name =>
      (agrees.same later le name).trans List.mem_dedup.symm
  rw [← perm.length_eq, Table.keys, List.length_map]

end SameNames

namespace LoginRateLimiter

variable {cutoff : Int} {limiter : LoginRateLimiter} {map : Table String (List Int)}

theorem logOf_of_find {key : String} {timestamps : List Int}
    (found : map.find key = some timestamps) : logOf map key = timestamps := by
  rw [logOf, found, Option.getD_some]

theorem trims_anyLocked (limit : Nat) (cutoff : Int) (keys : List String)
    (map : Table String (List Int)) : Trims cutoff map (anyLocked limit cutoff keys map).2 := by
  induction keys generalizing map with
  | nil => exact .refl cutoff map
  | cons key rest ih =>
    cases found : map.find key with
    | none =>
      simp only [anyLocked, found]
      exact ih map
    | some timestamps =>
      have isLog := logOf_of_find found
      simp only [anyLocked, found]
      split
      · rename_i stale
        refine Trims.trans (.remove ?_) (ih _)
        rw [isLog]
        exact List.isEmpty_iff.mp stale
      · split
        · exact .put (by rw [isLog])
        · exact Trims.trans (.put (by rw [isLog])) (ih _)

theorem exists_log_iff {before after : Table String (List Int)} (trims : Trims cutoff before after)
    (keys : List String) (P : List Int → Prop) :
    (∃ key ∈ keys, P (timesAfter cutoff (logOf after key))) ↔
      ∃ key ∈ keys, P (timesAfter cutoff (logOf before key)) := by
  simp only [trims.timesAfter_eq (Int.le_refl cutoff)]

theorem anyLocked_iff {limit : Nat} (positive : 0 < limit) (cutoff : Int) (keys : List String)
    (map : Table String (List Int)) : (anyLocked limit cutoff keys map).1 = true ↔
      ∃ key ∈ keys, limit ≤ asU32 (timesAfter cutoff (logOf map key)).length := by
  have empty : ¬ limit ≤ asU32 0 := Nat.not_le.mpr positive
  let full (times : List Int) : Prop := limit ≤ asU32 times.length
  induction keys generalizing map with
  | nil => simp [anyLocked]
  | cons key rest ih =>
    rw [List.exists_mem_cons_iff]
    cases found : map.find key with
    | none =>
      have isLog : logOf map key = [] := by rw [logOf, found, Option.getD_none]
      simp only [anyLocked, found]
      refine (ih map).trans ?_
      rw [isLog, timesAfter_nil]
      exact (or_iff_right empty).symm
    | some timestamps =>
      have isLog := logOf_of_find found
      simp only [anyLocked, found]
      rw [isLog]
      split
      · rename_i stale
        have trims : Trims cutoff map (map.keepKeys fun other => other ≠ key) :=
          .remove (by rw [isLog]; exact List.isEmpty_iff.mp stale)
        refine (ih _).trans ((exists_log_iff trims rest full).trans ?_)
        rw [List.isEmpty_iff.mp stale]
        exact (or_iff_right empty).symm
      · have trims : Trims cutoff map (map.put key (timesAfter cutoff timestamps)) :=
          .put (by rw [isLog])
        split
        · rename_i locked
          exact iff_of_true rfl (Or.inl locked)
        · rename_i open'
          exact (ih _).trans ((exists_log_iff trims rest full).trans (or_iff_right open').symm)

theorem trims_isAnyLocked (limiter : LoginRateLimiter) (now : Int) (keys : List String) :
    Trims (limiter.cutoff now) limiter.attempts (limiter.isAnyLocked now keys).2.attempts := by
  unfold isAnyLocked
  split
  · exact .refl _ _
  · exact trims_anyLocked limiter.maxAttempts (limiter.cutoff now) keys limiter.attempts

/-- What `countKeys` leaves of a map, and that the keys it calls stale have nothing left. -/
theorem countKeys_spec (keys : List String) : ∀ found : Nat × List String × Table String (List Int),
    (∀ key ∈ found.2.1, timesAfter cutoff (logOf found.2.2 key) = []) →
      Trims cutoff found.2.2 (countKeys cutoff keys found).2.2 ∧
        ∀ key ∈ (countKeys cutoff keys found).2.1,
          timesAfter cutoff (logOf (countKeys cutoff keys found).2.2 key) = [] := by
  induction keys with
  | nil => exact fun found stale => ⟨.refl _ _, stale⟩
  | cons key rest ih =>
    rintro ⟨count, stale, map⟩ isStale
    cases found : map.find key with
    | none =>
      simp only [countKeys, found]
      exact ih (count, stale, map) isStale
    | some timestamps =>
      have isLog := logOf_of_find found
      have trims : Trims cutoff map (map.put key (timesAfter cutoff timestamps)) :=
        .put (by rw [isLog])
      have still : ∀ other ∈ stale, timesAfter cutoff
          (logOf (map.put key (timesAfter cutoff timestamps)) other) = [] := by
        intro other listed
        rw [trims.timesAfter_eq (Int.le_refl cutoff)]
        exact isStale other listed
      simp only [countKeys, found]
      split
      · rename_i empty
        obtain ⟨restTrims, restStale⟩ := ih
          (count, stale ++ [key], map.put key (timesAfter cutoff timestamps)) (by
            intro other listed
            rcases List.mem_append.mp listed with old | new
            · exact still other old
            · rw [List.mem_singleton.mp new, logOf_put_self, List.isEmpty_iff.mp empty]
              rfl)
        exact ⟨trims.trans restTrims, restStale⟩
      · obtain ⟨restTrims, restStale⟩ := ih (max count (asU32 (timesAfter cutoff timestamps).length),
          stale, map.put key (timesAfter cutoff timestamps)) still
        exact ⟨trims.trans restTrims, restStale⟩

theorem trims_removeStale (stale : List String) : ∀ map : Table String (List Int),
    (∀ key ∈ stale, timesAfter cutoff (logOf map key) = []) → Trims cutoff map
      (stale.foldl (fun map key => map.keepKeys fun other => other ≠ key) map) := by
  induction stale with
  | nil => exact fun map _ => .refl cutoff map
  | cons key rest ih =>
    intro map isStale
    have trims : Trims cutoff map (map.keepKeys fun other => other ≠ key) :=
      .remove (isStale key List.mem_cons_self)
    refine trims.trans (ih _ fun other listed => ?_)
    rw [trims.timesAfter_eq (Int.le_refl cutoff)]
    exact isStale other (List.mem_cons_of_mem key listed)

theorem trims_failureCount (limiter : LoginRateLimiter) (now : Int) (keys : LoginKeys) :
    Trims (limiter.cutoff now) limiter.attempts (limiter.failureCount now keys).2.attempts := by
  obtain ⟨trims, isStale⟩ : Trims (limiter.cutoff now) _ _ ∧ _ :=
    countKeys_spec keys.both (0, [], limiter.attempts) (by simp)
  exact trims.trans (trims_removeStale _ _ isStale)

theorem evictOldest_of_le {max : Nat}
    (room : map.rows.length ≤ max) : evictOldest map max = map := if_pos room

theorem logOf_pushTimes (now : Int) (keys : LoginKeys) (map : Table String (List Int))
    (key : String) : logOf (pushTimes now cutoff keys.both map) key =
      if key ∈ keys.both then timesAfter cutoff (logOf map key ++ [now]) else logOf map key := by
  have apart := keys.ipKey_ne_pairKey keys
  simp only [pushTimes, LoginKeys.both, List.foldl_cons, List.foldl_nil, List.mem_cons,
    List.not_mem_nil, or_false]
  by_cases isPair : key = keys.pairKey
  · rw [if_pos (Or.inr isPair), isPair, logOf_put_self, logOf_put_of_ne _ _ apart.symm]
  · rw [logOf_put_of_ne _ _ isPair]
    by_cases isIp : key = keys.ipKey
    · rw [if_pos (Or.inl isIp), isIp, logOf_put_self]
    · rw [if_neg (not_or.mpr ⟨isIp, isPair⟩), logOf_put_of_ne _ _ isIp]

theorem logOf_clearLoginFailure (limiter : LoginRateLimiter) (keys : LoginKeys) (key : String) :
    logOf (limiter.clearLoginFailure keys).attempts key =
      if key ∈ keys.both then [] else logOf limiter.attempts key := by
  simp only [clearLoginFailure, clear, logOf_remove, LoginKeys.both, List.mem_cons,
    List.not_mem_nil, or_false]
  by_cases isPair : key = keys.pairKey
  · simp [isPair]
  · simp [isPair]

theorem namesOf_put_self (map : Table String (Table String Int)) (ip : String)
    (names : Table String Int) : namesOf (map.put ip names) ip = names := by
  rw [namesOf, Table.find_put_self, Option.getD_some]

theorem namesOf_put_of_ne (map : Table String (Table String Int)) {ip other : String}
    (names : Table String Int) (apart : other ≠ ip) :
    namesOf (map.put ip names) other = namesOf map other := by
  rw [namesOf, Table.find_put_of_ne map names apart, namesOf]

/-- What a check leaves of the accounts of an address: everything, or what the cutoff leaves. -/
theorem namesOf_isSpraying (limiter : LoginRateLimiter) (now : Int) (ip other : String) :
    namesOf (limiter.isSpraying now ip).2.spray other = namesOf limiter.spray other ∨
      namesOf (limiter.isSpraying now ip).2.spray other =
        retainNames (limiter.cutoff now) (namesOf limiter.spray other) := by
  unfold isSpraying
  split
  · exact Or.inl rfl
  · split
    · exact Or.inl rfl
    · rename_i perIp found
      have isNames : namesOf limiter.spray ip = perIp := by rw [namesOf, found, Option.getD_some]
      by_cases same : other = ip
      · refine Or.inr ?_
        subst same
        dsimp only
        split
        · rename_i empty
          have none : retainNames (limiter.cutoff now) perIp = .empty :=
            congrArg Table.mk (List.isEmpty_iff.mp empty)
          rw [isNames, none, namesOf, Table.find_keepKeys]
          simp
        · rw [isNames]
          exact namesOf_put_self ..
      · refine Or.inl ?_
        dsimp only
        split
        · show namesOf (limiter.spray.keepKeys fun name => name ≠ ip) other = _
          rw [namesOf, Table.find_keepKeys, if_pos (by simpa using same), namesOf]
        · exact namesOf_put_of_ne _ _ same

theorem isSpraying_iff (limiter : LoginRateLimiter) (now : Int) (ip : String)
    (positive : 0 < limiter.maxDistinctUsernames) : (limiter.isSpraying now ip).1 = true ↔
      limiter.maxDistinctUsernames ≤
        asU32 (retainNames (limiter.cutoff now) (namesOf limiter.spray ip)).rows.length := by
  have empty : ¬ limiter.maxDistinctUsernames ≤ asU32 0 := Nat.not_le.mpr positive
  unfold isSpraying namesOf
  rw [if_neg (Nat.ne_of_gt positive)]
  cases found : limiter.spray.find ip with
  | none => exact iff_of_false (by simp) empty
  | some perIp =>
    dsimp only [Option.getD_some]
    split
    · rename_i stale
      rw [List.isEmpty_iff.mp stale]
      exact iff_of_false (by simp) empty
    · exact decide_eq_true_iff

end LoginRateLimiter

end Nanofile
