import Nanofile.Base.Common
import Nanofile.Crypto.KeyDerivation
import Nanofile.Lib.Text

/-!
# Cached keys of unlocked libraries

Unlocking a library checks the password against the stored verifier, derives the block key and
keeps it in memory for the user until it expires, is evicted, or the library's keys are dropped.
-/

set_option autoImplicit false

namespace Nanofile

open Nanofile.Lib

/-- What is stored of a library's password; a `pwd_hash` takes the place of the `magic` where an
algorithm is named. -/
structure RepoKeyMaterial where
  encVersion : Int
  magic : Option String
  randomKey : String
  salt : String
  pwdHash : Option String
  pwdHashAlgo : Option String
  pwdHashParams : Option String
deriving DecidableEq, Repr

inductive PasswordError where
  | repoPasswdRequired
  | app (failure : AppError)
deriving DecidableEq, Repr

structure CachedDecryptKey where
  encKey : List UInt8
  encIv : List UInt8
  expiresAt : Int
deriving DecidableEq, Repr

abbrev KeyCache := List (String × CachedDecryptKey)

structure PasswordManager where
  cache : KeyCache
  ttlSecs : Int
  maxEntries : Nat
deriving DecidableEq, Repr

section Unlock

variable (prims : Primitives)

def effectiveSalt (material : RepoKeyMaterial) : Except PasswordError String :=
  if material.encVersion = 2 then .ok ""
  else if material.encVersion = 4 then .ok material.salt
  else .error (.app (.badRequest
    ("unsupported encryption version: " ++ toString material.encVersion)))

/-- Whether the password meets the stored verifier. -/
def verifyMaterial (repoId password salt : String) (material : RepoKeyMaterial) :
    Except PasswordError Bool :=
  match material.pwdHash, material.pwdHashAlgo with
  | some hash, some algo => .ok (verifyPwdHash prims repoId password material.encVersion salt hash
      algo material.pwdHashParams)
  | none, some algo => .error (.app (.badRequest
      ("repo declares pwd_hash_algo '" ++ algo ++ "' but has no pwd_hash")))
  | _, none =>
    match material.magic with
    | some magic => .ok (verifyRepoPassword prims repoId password material.encVersion salt magic)
    | none => .error (.app (.badRequest "repo has no password verifier"))

/-- `set_password` as far as the block key. -/
def unlockKey (repoId password : String) (material : RepoKeyMaterial) :
    Except PasswordError KeyIv := do
  let salt ← effectiveSalt material
  let verified ← verifyMaterial prims repoId password salt material
  if verified then
    match decryptRepoEncKey prims password material.randomKey material.encVersion salt with
    | .ok key => .ok key
    | .error failure => .error (.app (.badRequest ("key derivation failed: " ++ toString failure)))
  else .error .repoPasswdRequired

end Unlock

def PasswordManager.cacheKey (repoId : String) (userId : Int) : String := repoId ++ ":" ++ toString userId

def oldestEntry : KeyCache → Option (String × CachedDecryptKey)
  | [] => none
  | entry :: rest =>
    match oldestEntry rest with
    | some other => if other.2.expiresAt < entry.2.expiresAt then some other else some entry
    | none => some entry

def removeOldest (cache : KeyCache) : KeyCache :=
  match oldestEntry cache with
  | some oldest => cache.filter fun entry => entry.1 ≠ oldest.1
  | none => cache

/-- The loop that drains the cache, at most once an entry. -/
def drainOldest (maxEntries : Nat) : Nat → KeyCache → KeyCache
  | 0, cache => cache
  | rounds + 1, cache =>
    if maxEntries < cache.length then drainOldest maxEntries rounds (removeOldest cache)
    else cache

/-- The capacity bound: expired entries go first, then the oldest. -/
def boundCache (maxEntries : Nat) (now : Int) (cache : KeyCache) : KeyCache :=
  if maxEntries < cache.length then
    let valid := cache.filter fun entry => now < entry.2.expiresAt
    drainOldest maxEntries valid.length valid
  else cache

namespace PasswordManager

/-- The end of `set_password`: the key is cached and the capacity bound applied. -/
def insertKey (manager : PasswordManager) (now : Int) (repoId : String) (userId : Int)
    (key : KeyIv) : PasswordManager :=
  let cached : CachedDecryptKey := ⟨key.1, key.2, now + manager.ttlSecs⟩
  let others := manager.cache.filter fun entry => entry.1 ≠ cacheKey repoId userId
  { manager with
    cache := boundCache manager.maxEntries now ((cacheKey repoId userId, cached) :: others) }

def setPassword (prims : Primitives) (manager : PasswordManager) (now : Int) (repoId : String)
    (userId : Int) (password : String) (material : RepoKeyMaterial) :
    Except PasswordError PasswordManager := do
  let key ← unlockKey prims repoId password material
  .ok (manager.insertKey now repoId userId key)

def getDecryptKey (manager : PasswordManager) (now : Int) (repoId : String) (userId : Int) :
    Option KeyIv :=
  match manager.cache.find? fun entry => entry.1 = cacheKey repoId userId with
  | some (_, cached) => if now < cached.expiresAt then some (cached.encKey, cached.encIv) else none
  | none => none

def removeRepo (manager : PasswordManager) (repoId : String) : PasswordManager :=
  { manager with cache := manager.cache.filter fun entry =>
      !((repoId ++ ":").toList.isPrefixOf entry.1.toList) }

def removePassword (manager : PasswordManager) (repoId : String) (userId : Int) :
    PasswordManager :=
  { manager with cache := manager.cache.filter fun entry => entry.1 ≠ cacheKey repoId userId }

def removeUser (manager : PasswordManager) (userId : Int) : PasswordManager :=
  { manager with cache := manager.cache.filter fun entry =>
      !((":" ++ toString userId).toList.isSuffixOf entry.1.toList) }

def cleanupExpiredOnce (manager : PasswordManager) (now : Int) : PasswordManager :=
  { manager with cache := manager.cache.filter fun entry => now < entry.2.expiresAt }

end PasswordManager

variable {first second : Int}

theorem isDigit_of_mem_repr {digits : Nat} {char : Char}
    (listed : char ∈ (Nat.repr digits).toList) : char.isDigit = true := by
  rw [Nat.repr, String.toList_ofList] at listed
  exact Nat.isDigit_of_mem_toDigits (by decide) (by decide) listed

theorem toString_int_injective (same : toString first = toString second) : first = second := by
  have digits : ∀ {first second : Nat}, Nat.repr first = Nat.repr second → first = second := by
    intro first second same
    have sameDigits := String.ofList_inj.mp same
    have read := Nat.ofDigitChars_ten_toDigits (n := first)
    rw [sameDigits, Nat.ofDigitChars_ten_toDigits] at read
    exact read.symm
  have signed : ∀ count rest : Nat, Nat.repr count ≠ "-" ++ Nat.repr rest := by
    intro count rest same
    have first : '-' ∈ (Nat.repr count).toList := by
      rw [same]
      simp
    exact absurd (isDigit_of_mem_repr first) (by decide)
  cases first with
  | ofNat first =>
    cases second with
    | ofNat second => exact congrArg Int.ofNat (digits same)
    | negSucc second => exact absurd same (signed first (second + 1))
  | negSucc first =>
    cases second with
    | ofNat second => exact absurd same.symm (signed second (first + 1))
    | negSucc second =>
      have bare : Nat.repr (first + 1) = Nat.repr (second + 1) :=
        (String.append_right_inj "-").mp same
      exact congrArg Int.negSucc (Nat.succ.inj (digits bare))

theorem colon_notMem_toString (value : Int) : ':' ∉ (toString value).toList := by
  intro listed
  cases value with
  | ofNat digits => exact absurd (isDigit_of_mem_repr listed) (by decide)
  | negSucc digits =>
    rcases List.mem_append.mp (String.toList_append ▸ listed) with sign | rest
    · exact absurd sign (by decide)
    · exact absurd (isDigit_of_mem_repr rest) (by decide)

theorem PasswordManager.cacheKey_inj {repo repoId : String} :
    cacheKey repo first = cacheKey repoId second ↔ repo = repoId ∧ first = second := by
  have cut : ∀ repo user, Text.rsplitOnce ':' (cacheKey repo user) = some (repo, toString user) :=
    fun repo user => Text.rsplitOnce_append repo (colon_notMem_toString user)
  refine ⟨fun same => ?_, fun ⟨sameRepo, sameUser⟩ => by rw [sameRepo, sameUser]⟩
  have parts := cut repo first
  rw [same, cut, Option.some_inj, Prod.mk.injEq] at parts
  exact ⟨parts.1.symm, toString_int_injective parts.2.symm⟩

theorem PasswordManager.cacheKey_injective {repoId : String}
    (same : cacheKey repoId first = cacheKey repoId second) : first = second :=
  (cacheKey_inj.mp same).2

theorem removeOldest_sublist (cache : KeyCache) : (removeOldest cache).Sublist cache := by
  unfold removeOldest
  split
  · exact List.filter_sublist
  · exact List.Sublist.refl _

theorem drainOldest_sublist (maxEntries rounds : Nat) (cache : KeyCache) :
    (drainOldest maxEntries rounds cache).Sublist cache := by
  induction rounds generalizing cache with
  | zero => exact List.Sublist.refl _
  | succ rounds ih =>
    rw [drainOldest]
    split
    · exact (ih _).trans (removeOldest_sublist cache)
    · exact List.Sublist.refl _

theorem boundCache_sublist (maxEntries : Nat) (now : Int) (cache : KeyCache) :
    (boundCache maxEntries now cache).Sublist cache := by
  unfold boundCache
  split
  · exact (drainOldest_sublist _ _ _).trans List.filter_sublist
  · exact List.Sublist.refl _

namespace PasswordManager

variable {manager : PasswordManager} {now : Int} {repoId : String} {userId : Int} {key : KeyIv}
    {entry : String × CachedDecryptKey}

theorem mem_insertKey (cached : entry ∈ (manager.insertKey now repoId userId key).cache) :
    entry.1 = cacheKey repoId userId ∨ entry ∈ manager.cache := by
  rcases List.mem_cons.mp ((boundCache_sublist _ _ _).mem cached) with rfl | listed
  · exact .inl rfl
  · exact .inr (List.mem_of_mem_filter listed)

theorem not_mem_removeRepo (cached : entry ∈ (manager.removeRepo repoId).cache) :
    entry.1 ≠ cacheKey repoId userId := by
  intro isKey
  have other := (List.mem_filter.mp cached).2
  have isPrefix : (repoId ++ ":").toList <+: (cacheKey repoId userId).toList :=
    ⟨(toString userId).toList, (String.toList_append).symm⟩
  rw [isKey, List.isPrefixOf_iff_prefix.mpr isPrefix] at other
  cases other

theorem mem_of_getDecryptKey (given : manager.getDecryptKey now repoId userId = some key) :
    ∃ entry ∈ manager.cache, entry.1 = cacheKey repoId userId := by
  unfold getDecryptKey at given
  split at given
  · rename_i found
    exact ⟨_, List.mem_of_find?_eq_some found, by simpa using List.find?_some found⟩
  · cases given

variable {rounds maxEntries : Nat} {cache : KeyCache}

theorem exists_oldestEntry (held : cache ≠ []) :
    ∃ oldest ∈ cache, oldestEntry cache = some oldest := by
  induction cache with
  | nil => exact absurd rfl held
  | cons entry rest ih =>
    rw [oldestEntry]
    split
    · rename_i other isOldest
      obtain ⟨oldest, listed, same⟩ := ih fun none => by simp [none, oldestEntry] at isOldest
      cases isOldest.symm.trans same
      split
      · exact ⟨other, List.mem_cons_of_mem _ listed, rfl⟩
      · exact ⟨entry, List.mem_cons_self, rfl⟩
    · exact ⟨entry, List.mem_cons_self, rfl⟩

theorem length_drainOldest (enough : cache.length ≤ maxEntries + rounds) :
    (drainOldest maxEntries rounds cache).length ≤ maxEntries := by
  induction rounds generalizing cache with
  | zero => exact enough
  | succ rounds ih =>
    rw [drainOldest]
    split
    · rename_i crowded
      obtain ⟨oldest, listed, same⟩ :=
        exists_oldestEntry (List.ne_nil_of_length_pos (Nat.zero_lt_of_lt crowded))
      have shorter : (removeOldest cache).length < cache.length := by
        rw [removeOldest, same]
        exact List.length_filter_lt_length_iff_exists.mpr ⟨oldest, listed, by simp⟩
      exact ih (by omega)
    · omega

theorem length_boundCache : (boundCache maxEntries now cache).length ≤ maxEntries := by
  unfold boundCache
  split
  · exact length_drainOldest (Nat.le_add_left _ _)
  · omega

theorem suffix_cacheKey_iff {user : Int} :
    (":" ++ toString user).toList <:+ (cacheKey repoId userId).toList ↔ user = userId := by
  refine ⟨fun ⟨before, joined⟩ => ?_, fun same => ⟨repoId.toList, by simp [cacheKey, same]⟩⟩
  have same : cacheKey (String.ofList before) user = cacheKey repoId userId :=
    String.toList_inj.mp (by simpa [cacheKey] using joined)
  exact (cacheKey_inj.mp same).2

/-! ## Runs of calls -/

inductive KeyCall where
  | set (now : Int) (repoId : String) (userId : Int) (password : String)
    (material : RepoKeyMaterial)
  | removePassword (repoId : String) (userId : Int)
  | removeRepo (repoId : String)
  | removeUser (userId : Int)
  | cleanup (now : Int)

section

variable (prims : Primitives)

def serve (manager : PasswordManager) : KeyCall → PasswordManager
  | .set now repoId userId password material =>
    (manager.setPassword prims now repoId userId password material).toOption.getD manager
  | .removePassword repoId userId => manager.removePassword repoId userId
  | .removeRepo repoId => manager.removeRepo repoId
  | .removeUser userId => manager.removeUser userId
  | .cleanup now => manager.cleanupExpiredOnce now

def newWithTtl (ttlSecs : Int) : PasswordManager := ⟨[], ttlSecs, 10000⟩

/-- The abstract manager: what a call leaves set for a user's library, with room for every key. -/
def KeyCall.leaves (ttlSecs : Int) (repoId : String) (userId : Int)
    (held : Option CachedDecryptKey) : KeyCall → Option CachedDecryptKey
  | .set now repo user password material =>
    match unlockKey prims repo password material with
    | .ok key => if repo = repoId ∧ user = userId then some ⟨key.1, key.2, now + ttlSecs⟩ else held
    | .error _ => held
  | .removePassword repo user => if repo = repoId ∧ user = userId then none else held
  | .removeRepo repo => if repo = repoId then none else held
  | .removeUser user => if user = userId then none else held
  | .cleanup _ => held

variable (ttlSecs : Int) (calls : List KeyCall)

def run : PasswordManager := calls.foldl (serve prims) (newWithTtl ttlSecs)

def setBy (repoId : String) (userId : Int) : Option CachedDecryptKey :=
  calls.foldl (KeyCall.leaves prims ttlSecs repoId userId) none

end

/-- The cache holds what is set, as far as it has room. -/
structure Refines (ttlSecs : Int) (manager : PasswordManager)
    (held : String → Int → Option CachedDecryptKey) : Prop where
  settings : manager.ttlSecs = ttlSecs ∧ manager.maxEntries = 10000
  bounded : manager.cache.length ≤ manager.maxEntries
  holds : ∀ entry ∈ manager.cache, ∀ repoId userId, entry.1 = cacheKey repoId userId →
    held repoId userId = some entry.2

variable {prims : Primitives} {ttlSecs : Int} {held held' : String → Int → Option CachedDecryptKey}

/-- Entries that are dropped, at least those that are no longer set. -/
theorem Refines.filter {keep : String × CachedDecryptKey → Bool}
    (refines : Refines ttlSecs manager held)
    (stays : ∀ entry ∈ manager.cache.filter keep, ∀ repoId userId,
      entry.1 = cacheKey repoId userId → held' repoId userId = held repoId userId) :
    Refines ttlSecs { manager with cache := manager.cache.filter keep } held' where
  settings := refines.settings
  bounded := (List.length_filter_le _ _).trans refines.bounded
  holds entry cached repoId userId isKey := by
    rw [stays entry cached repoId userId isKey]
    exact refines.holds entry (List.mem_of_mem_filter cached) repoId userId isKey

theorem Refines.serve (refines : Refines ttlSecs manager held) (call : KeyCall) :
    Refines ttlSecs (manager.serve prims call) fun repoId userId =>
      call.leaves prims ttlSecs repoId userId (held repoId userId) := by
  cases call with
  | set now repo user password material =>
    simp only [PasswordManager.serve, setPassword, KeyCall.leaves]
    cases opened : unlockKey prims repo password material with
    | error failure => exact refines
    | ok key =>
      refine ⟨refines.settings, length_boundCache, fun entry cached repoId userId isKey => ?_⟩
      dsimp only
      rcases List.mem_cons.mp ((boundCache_sublist _ _ _).mem cached) with rfl | old
      · rw [if_pos (cacheKey_inj.mp isKey), refines.settings.1]
      · obtain ⟨listed, other⟩ := List.mem_filter.mp old
        rw [if_neg, refines.holds entry listed repoId userId isKey]
        rintro ⟨rfl, rfl⟩
        simp [isKey] at other
  | removePassword repo user =>
    refine refines.filter fun entry cached repoId userId isKey => if_neg ?_
    rintro ⟨rfl, rfl⟩
    simp [isKey] at cached
  | removeRepo repo =>
    refine refines.filter fun entry cached repoId userId isKey => if_neg ?_
    rintro rfl
    exact not_mem_removeRepo cached isKey
  | removeUser user =>
    refine refines.filter fun entry cached repoId userId isKey => if_neg ?_
    rintro rfl
    have other := (List.mem_filter.mp cached).2
    rw [isKey, List.isSuffixOf_iff_suffix.mpr (suffix_cacheKey_iff.mpr rfl)] at other
    cases other
  | cleanup now => exact refines.filter fun _ _ _ _ _ => rfl

theorem run_concat (calls : List KeyCall) (call : KeyCall) :
    run prims ttlSecs (calls ++ [call]) = (run prims ttlSecs calls).serve prims call := by
  rw [run, List.foldl_append]
  rfl

theorem setBy_concat (calls : List KeyCall) (call : KeyCall) :
    setBy prims ttlSecs (calls ++ [call]) repoId userId =
      call.leaves prims ttlSecs repoId userId (setBy prims ttlSecs calls repoId userId) := by
  rw [setBy, List.foldl_append]
  rfl

theorem refines_run (calls : List KeyCall) :
    Refines ttlSecs (run prims ttlSecs calls) (setBy prims ttlSecs calls) := by
  induction calls using List.reverseRecOn with
  | nil => exact ⟨⟨rfl, rfl⟩, Nat.zero_le _, nofun⟩
  | append_singleton calls call ih =>
    have left : setBy prims ttlSecs (calls ++ [call]) = fun repoId userId =>
        call.leaves prims ttlSecs repoId userId (setBy prims ttlSecs calls repoId userId) :=
      funext₂ fun _ _ => setBy_concat calls call
    rw [run_concat, left]
    exact ih.serve call

theorem Refines.of_given (refines : Refines ttlSecs manager held)
    (given : manager.getDecryptKey now repoId userId = some key) :
    ∃ expiresAt, now < expiresAt ∧ held repoId userId = some ⟨key.1, key.2, expiresAt⟩ := by
  unfold getDecryptKey at given
  split at given
  · rename_i name cached found
    split at given
    · rename_i live
      cases given
      have isKey : name = cacheKey repoId userId := by simpa using List.find?_some found
      exact ⟨_, live, refines.holds _ (List.mem_of_find?_eq_some found) _ _ isKey⟩
    · cases given
  · cases given

/-! ### Within its capacity -/

/-- A cleanup has run by now. -/
def KeyCall.Past (now : Int) : KeyCall → Prop
  | .cleanup cleanedAt => cleanedAt ≤ now
  | _ => True

theorem removeRepo_keeps {repo : String} (plain : ':' ∉ repoId.toList) (other : repo ≠ repoId) :
    ¬ (repo ++ ":").toList <+: (cacheKey repoId userId).toList := by
  rintro ⟨rest, joined⟩
  have joined : repo.toList ++ ':' :: rest = repoId.toList ++ ':' :: (toString userId).toList := by
    simpa [cacheKey] using joined
  rcases List.append_eq_append_iff.mp joined with ⟨parts, isRepo, isRest⟩ | ⟨parts, isRepo, isRest⟩
  · cases parts with
    | nil => exact other (String.toList_inj.mp (by simpa using isRepo.symm))
    | cons part parts =>
      cases isRest
      exact plain (isRepo ▸ by simp)
  · cases parts with
    | nil => exact other (String.toList_inj.mp (by simpa using isRepo))
    | cons part parts => exact colon_notMem_toString userId ((List.cons.inj isRest).2 ▸ by simp)

variable {call : KeyCall} {cached : CachedDecryptKey} {before : Option CachedDecryptKey}

theorem length_serve (manager : PasswordManager) (call : KeyCall) :
    (manager.serve prims call).cache.length ≤ manager.cache.length + 1 := by
  cases call with
  | set now repo user password material =>
    simp only [PasswordManager.serve, setPassword]
    cases unlockKey prims repo password material with
    | error failure => exact Nat.le_succ _
    | ok key =>
      exact (boundCache_sublist _ _ _).length_le.trans
        (Nat.succ_le_succ (List.length_filter_le _ _))
  | _ => exact (List.length_filter_le _ _).trans (Nat.le_succ _)

theorem mem_serve (plain : ':' ∉ repoId.toList) (room : manager.cache.length < manager.maxEntries)
    (past : call.Past now) (live : now < cached.expiresAt)
    (stood : before = some cached → (cacheKey repoId userId, cached) ∈ manager.cache)
    (left : call.leaves prims manager.ttlSecs repoId userId before = some cached) :
    (cacheKey repoId userId, cached) ∈ (manager.serve prims call).cache := by
  cases call with
  | set setAt repo user password material =>
    simp only [KeyCall.leaves] at left
    simp only [PasswordManager.serve, setPassword]
    cases opened : unlockKey prims repo password material with
    | error failure =>
      rw [opened] at left
      exact stood left
    | ok key =>
      simp only [opened] at left
      show _ ∈ boundCache _ _ (_ :: manager.cache.filter _)
      have fits := List.length_filter_le (fun entry => entry.1 ≠ cacheKey repo user) manager.cache
      rw [boundCache, if_neg (by simp only [List.length_cons]; omega)]
      split at left
      · rename_i same
        cases left
        rw [same.1, same.2]
        exact List.mem_cons_self
      · rename_i other
        refine List.mem_cons_of_mem _ (List.mem_filter.mpr ⟨stood left, ?_⟩)
        refine decide_eq_true fun same => ?_
        exact other ((cacheKey_inj.mp same).imp Eq.symm Eq.symm)
  | removePassword repo user =>
    obtain ⟨other, left⟩ := Option.ite_none_left_eq_some.mp left
    refine List.mem_filter.mpr ⟨stood left, decide_eq_true fun same => ?_⟩
    exact other ((cacheKey_inj.mp same).imp Eq.symm Eq.symm)
  | removeRepo repo =>
    obtain ⟨other, left⟩ := Option.ite_none_left_eq_some.mp left
    refine List.mem_filter.mpr ⟨stood left, ?_⟩
    rw [Bool.not_eq_true', ← Bool.not_eq_true, List.isPrefixOf_iff_prefix]
    exact removeRepo_keeps plain other
  | removeUser user =>
    obtain ⟨other, left⟩ := Option.ite_none_left_eq_some.mp left
    refine List.mem_filter.mpr ⟨stood left, ?_⟩
    rwa [Bool.not_eq_true', ← Bool.not_eq_true, List.isSuffixOf_iff_suffix, suffix_cacheKey_iff]
  | cleanup cleanedAt =>
    exact List.mem_filter.mpr ⟨stood left, decide_eq_true (Int.lt_of_le_of_lt past live)⟩

theorem run_holds {calls : List KeyCall} (plain : ':' ∉ repoId.toList)
    (few : calls.length ≤ 10000) (past : ∀ call ∈ calls, call.Past now) :
    (run prims ttlSecs calls).cache.length ≤ calls.length ∧
      ∀ cached : CachedDecryptKey, now < cached.expiresAt →
        setBy prims ttlSecs calls repoId userId = some cached →
        (cacheKey repoId userId, cached) ∈ (run prims ttlSecs calls).cache := by
  induction calls using List.reverseRecOn with
  | nil => exact ⟨Nat.le_refl _, nofun⟩
  | append_singleton calls call ih =>
    rw [run_concat, setBy_concat]
    rw [List.length_append, List.length_singleton] at few ⊢
    obtain ⟨fits, stood⟩ :=
      ih (by omega) fun call listed => past call (List.mem_append_left _ listed)
    have refines : Refines ttlSecs (run prims ttlSecs calls) (setBy prims ttlSecs calls) :=
      refines_run calls
    refine ⟨(length_serve _ call).trans (Nat.succ_le_succ fits), fun cached live left => ?_⟩
    refine mem_serve plain ?_ (past call (by simp)) live (stood cached live) ?_
    · exact refines.settings.2 ▸ Nat.lt_of_le_of_lt fits (by omega)
    · rwa [refines.settings.1]

/-- Whatever calls were made, the cache stays within its capacity, and a key it serves is the one
set for that library and user, within its lifetime.  While no more calls than the capacity were
made and the clock has not gone back, it serves every such key. -/
theorem run_serves_set (prims : Primitives) (ttlSecs : Int) (calls : List KeyCall) :
    (run prims ttlSecs calls).cache.length ≤ 10000 ∧
    ∀ now repoId userId key,
      ((run prims ttlSecs calls).getDecryptKey now repoId userId = some key →
        ∃ expiresAt, now < expiresAt ∧
          setBy prims ttlSecs calls repoId userId = some ⟨key.1, key.2, expiresAt⟩) ∧
      (':' ∉ repoId.toList → calls.length ≤ 10000 → (∀ call ∈ calls, call.Past now) →
        ∀ expiresAt, now < expiresAt →
          setBy prims ttlSecs calls repoId userId = some ⟨key.1, key.2, expiresAt⟩ →
          (run prims ttlSecs calls).getDecryptKey now repoId userId = some key) := by
  have refines : Refines ttlSecs _ (setBy prims ttlSecs calls) := refines_run calls
  refine ⟨refines.settings.2 ▸ refines.bounded, fun now repoId userId key => ⟨refines.of_given, ?_⟩⟩
  intro plain few past expiresAt live left
  have listed := (run_holds plain few past).2 _ live left
  obtain ⟨⟨name, cached⟩, found⟩ := Option.isSome_iff_exists.mp
    (List.find?_isSome (p := fun entry => entry.1 = cacheKey repoId userId).mpr
      ⟨_, listed, decide_eq_true rfl⟩)
  have isKey : name = cacheKey repoId userId := by simpa using List.find?_some found
  cases left.symm.trans (refines.holds _ (List.mem_of_find?_eq_some found) _ _ isKey)
  simp [getDecryptKey, found, live]

end PasswordManager

end Nanofile
