import Nanofile.Lib.ReadThrough
import Nanofile.Lib.Table
import Nanofile.Repository.Credentials

/-!
# Cached credentials

Rows are kept by the raw token for a while.  A row that is too old or has expired is dropped
when it is asked for, and a full cache drops the old rows, then all of them.  Each of the three
repositories asks its cache before the database.  Everything that creates, edits or deletes a
credential clears the cache when it is done; a stamp of a device or of the last use does not.
-/

set_option autoImplicit false

namespace Nanofile

open Nanofile.Lib

def tokenCacheTtl : Int := 300 * 1000000000

def tokenCacheMaxEntries : Nat := 10000

/-- What a step reads from outside: the monotonic clock, the wall clock in seconds, and whether
the database answers with an error. -/
structure AuthTick where
  instant : Int
  unixTime : Int
  dbFails : Bool

structure CachedEntry (Row : Type) where
  value : Row
  cachedAt : Int
deriving DecidableEq

structure TokenCache (Row : Type) where
  entries : Table String (CachedEntry Row)
  ttl : Int

def tokenExpired (unixTime : Int) : Option Int → Bool
  | some exp => exp < unixTime
  | none => false

namespace TokenCache

variable {Row : Type}

def new (ttl : Int) : TokenCache Row := ⟨.empty, ttl⟩

def drop (cache : TokenCache Row) (key : String) : TokenCache Row :=
  { cache with entries := cache.entries.keepKeys fun other => other ≠ key }

def get (instant : Int) (isValid : Row → Bool) (key : String) (cache : TokenCache Row) :
    Option Row × TokenCache Row :=
  match cache.entries.find key with
  | none => (none, cache)
  | some entry =>
    if cache.ttl < instant - entry.cachedAt || !isValid entry.value then (none, cache.drop key)
    else (some entry.value, cache)

def room (instant : Int) (cache : TokenCache Row) : Table String (CachedEntry Row) :=
  if tokenCacheMaxEntries ≤ cache.entries.rows.length then
    let fresh : Table String (CachedEntry Row) :=
      ⟨cache.entries.rows.filter fun row => instant - row.2.cachedAt ≤ cache.ttl⟩
    if tokenCacheMaxEntries ≤ fresh.rows.length then .empty else fresh
  else cache.entries

def insert (instant : Int) (key : String) (value : Row) (cache : TokenCache Row) :
    TokenCache Row :=
  let others := (cache.room instant).keepKeys fun other => other ≠ key
  { cache with entries := ⟨others.rows ++ [(key, ⟨value, instant⟩)]⟩ }

def clear (cache : TokenCache Row) : TokenCache Row := { cache with entries := .empty }

/-- The row is kept under the key, fresh or not. -/
def Holds (cache : TokenCache Row) (key : String) (value : Row) : Prop :=
  ∃ entry, (key, entry) ∈ cache.entries.rows ∧ entry.value = value

theorem mem_of_mem_keepKeys {table : Table String (CachedEntry Row)} {keep : String → Bool}
    {row : String × CachedEntry Row} (listed : row ∈ (table.keepKeys keep).rows) :
    row ∈ table.rows :=
  List.mem_of_mem_filter listed

variable {instant : Int} {cache : TokenCache Row}

theorem mem_of_mem_room {row : String × CachedEntry Row} (listed : row ∈ (cache.room instant).rows)
    : row ∈ cache.entries.rows := by
  unfold room at listed
  split at listed
  · dsimp only at listed
    split at listed
    · exact absurd listed List.not_mem_nil
    · exact List.mem_of_mem_filter listed
  · exact listed

variable {key : String} {value : Row}

theorem get_holds {isValid : Row → Bool} (found : (cache.get instant isValid key).1 = some value) :
    cache.Holds key value := by
  unfold get at found
  split at found
  · cases found
  · rename_i entry present
    split at found
    · cases found
    · cases found
      obtain ⟨row, isRow, rfl⟩ := Option.map_eq_some_iff.mp present
      have named : row.1 = key := by simpa using List.find?_some isRow
      refine ⟨row.2, ?_, rfl⟩
      rw [← named]
      exact List.mem_of_find?_eq_some isRow

theorem get_keeps {isValid : Row → Bool} {other : String}
    (holds : (cache.get instant isValid key).2.Holds other value) : cache.Holds other value := by
  unfold get at holds
  split at holds
  · exact holds
  · split at holds
    · obtain ⟨entry, listed, isValue⟩ := holds
      exact ⟨entry, mem_of_mem_keepKeys listed, isValue⟩
    · exact holds

theorem insert_holds {other : String} {found : Row}
    (holds : (cache.insert instant key value).Holds other found) :
    cache.Holds other found ∨ (other = key ∧ found = value) := by
  obtain ⟨entry, listed, rfl⟩ := holds
  rcases List.mem_append.mp listed with old | new
  · exact Or.inl ⟨entry, mem_of_mem_room (mem_of_mem_keepKeys old), rfl⟩
  · obtain ⟨rfl, rfl⟩ := Prod.mk.inj (List.mem_singleton.mp new)
    exact Or.inr ⟨rfl, rfl⟩

def ops (expiresAt : Row → Option Int) : CacheOps (TokenCache Row) String Row AuthTick where
  Holds := Holds
  get tick key cache :=
    cache.get tick.instant (fun row => !tokenExpired tick.unixTime (expiresAt row)) key
  insert tick key value cache := cache.insert tick.instant key value
  clear := clear
  get_holds := get_holds
  get_keeps := get_keeps
  insert_holds := insert_holds
  clear_holds := by
    rintro cache key value ⟨entry, listed, -⟩
    exact absurd listed List.not_mem_nil

end TokenCache

def cachingSyncTokens (encrypt : String → String) : ReadThrough (IdTable SyncToken)
    (TokenCache SyncToken) String SyncToken AuthTick SyncTokenWrite SyncTokenTouch where
  cache := TokenCache.ops SyncToken.expiresAt
  read := findSyncToken encrypt
  write write db := writeSyncToken encrypt db write
  touch touch db := touchSyncToken db touch
  fails := AuthTick.dbFails

/-- `CachingApiTokenRepository`; nothing of an account token is stamped. -/
def cachingApiTokens (hashToken : String → String) : ReadThrough (IdTable ApiToken)
    (TokenCache ApiToken) String ApiToken AuthTick ApiTokenWrite Empty where
  cache := TokenCache.ops ApiToken.expiresAt
  read := findApiToken hashToken
  write write db := writeApiToken hashToken db write
  touch touch _ := touch.elim
  fails := AuthTick.dbFails

def cachingApiKeys (hashToken : String → String) : ReadThrough ApiKeyDb
    (TokenCache ApiKeyLookup) String ApiKeyLookup AuthTick ApiKeyWrite ApiKeyTouch where
  cache := TokenCache.ops fun found => found.key.expiresAt
  read := ApiKeyDb.findByPresented hashToken
  write write db := db.write write
  touch touch db := db.touch touch
  fails := AuthTick.dbFails

variable {Db Row Write Touch : Type}

/-- A server that has just started: any database, and nothing cached. -/
def CacheStarts (state : CachedDb Db (TokenCache Row)) : Prop :=
  state.past = [] ∧ state.cache = .new tokenCacheTtl ∧ state.settled = 0

/-- Every lookup answers what the database had at some time since the last create, edit or
delete that was done when the lookup began. -/
def AnswersCurrent (code : ReadThrough Db (TokenCache Row) String Row AuthTick Write Touch)
    (stores : CachedDb Db (TokenCache Row) → CachedCall String Row Write → AuthTick → Prop) :
    Prop :=
  ∀ state, (code.program.system CacheStarts).Reachable
      (Program.guarded (fun _ _ => True) stores) state →
    ∀ key since answer, .answered key since answer ∈ state.running →
      code.AnswerSince state.shared since key answer

variable {code : ReadThrough Db (TokenCache Row) String Row AuthTick Write Touch}

theorem answersCurrent_of_stores {expiresAt : Row → Option Int}
    (cache : code.cache = TokenCache.ops expiresAt) : AnswersCurrent code code.StoresCurrent := by
  intro state reached key since answer answered
  refine ReadThrough.answers_current ?_ reached answered
  rintro start ⟨-, isNew, isZero⟩
  refine ⟨by simp [isZero], fun key value holds => ?_⟩
  rw [cache, isNew] at holds
  obtain ⟨entry, listed, -⟩ := holds
  exact absurd listed List.not_mem_nil

/-- A revoked or edited credential stops answering at once as long as no lookup stores a row
that was deleted or edited since it was read. -/
theorem credentials_current (encrypt hashToken : String → String) :
    AnswersCurrent (cachingSyncTokens encrypt) (cachingSyncTokens encrypt).StoresCurrent ∧
      AnswersCurrent (cachingApiTokens hashToken) (cachingApiTokens hashToken).StoresCurrent ∧
      AnswersCurrent (cachingApiKeys hashToken) (cachingApiKeys hashToken).StoresCurrent :=
  ⟨answersCurrent_of_stores rfl, answersCurrent_of_stores rfl, answersCurrent_of_stores rfl⟩

def authTick : AuthTick := ⟨0, 0, false⟩

def startingWith (db : Db) : CachedDb Db (TokenCache Row) := ⟨[], db, .new tokenCacheTtl, 0⟩

/-- The key is looked up, the write is done, and the key is looked up again. -/
def writtenBetween (key : String) (write : Write) :
    List (ThreadAction Touch (CachedJob String Write) AuthTick) :=
  [.begin (.lookup key), .advance 0 authTick, .advance 0 authTick, .advance 0 authTick,
    .begin (.mutate write), .advance 1 authTick, .advance 1 authTick,
    .begin (.lookup key), .advance 2 authTick, .advance 2 authTick]

def writtenMeanwhile (key : String) (write : Write) :
    List (ThreadAction Touch (CachedJob String Write) AuthTick) :=
  [.begin (.lookup key), .advance 0 authTick, .advance 0 authTick,
    .begin (.mutate write), .advance 1 authTick, .advance 1 authTick, .advance 0 authTick,
    .begin (.lookup key), .advance 2 authTick]

def givesStale [DecidableEq Row]
    (code : ReadThrough Db (TokenCache Row) String Row AuthTick Write Touch)
    (state : Threads (CachedDb Db (TokenCache Row)) (CachedCall String Row Write)) : Bool :=
  state.running.any fun
    | .answered key since answer => !decide (code.AnswerSince state.shared since key answer)
    | _ => false

theorem not_answersCurrent [DecidableEq Row] (db : Db)
    (actions : List (ThreadAction Touch (CachedJob String Write) AuthTick))
    (stale : ((code.program.system CacheStarts).runChecked (fun _ _ => true) actions
      ⟨startingWith db, []⟩).any (givesStale code) = true) :
    ¬ AnswersCurrent code fun _ _ _ => True := by
  intro current
  obtain ⟨state, run, found⟩ := (Option.any_eq_true _ _).mp stale
  have reached : (code.program.system CacheStarts).Reachable
      (Program.guarded (fun _ _ => True) fun _ _ _ => True) state := by
    refine System.reachable_of_runChecked ?_ actions ⟨startingWith db, []⟩ state
      (.init ⟨⟨rfl, rfl, rfl⟩, rfl⟩) run
    intro state action _
    cases action <;> simp [Program.guarded]
  obtain ⟨call, listed, isStale⟩ := List.any_eq_true.mp found
  cases call with
  | answered key since answer =>
    have given := current state reached key since answer listed
    simp [given] at isStale
  | _ => simp at isStale

def oneSyncToken : IdTable SyncToken :=
  ⟨[⟨1, "token", "library", 1, 0, none, none, none, none, none, none⟩], 2⟩

def oneApiToken : IdTable ApiToken :=
  ⟨[⟨1, 1, "token", 0, none, none, none, none, none, false, "web", none⟩], 2⟩

def oneApiKey : ApiKeyDb :=
  ⟨⟨[⟨1, 1, "key", "secret", none, "webdav", false, 0, none, none⟩], 2⟩,
    ⟨[⟨1, 1, "library", "rw"⟩], 2⟩⟩

def storesCheck [DecidableEq Row]
    (code : ReadThrough Db (TokenCache Row) String Row AuthTick Write Touch)
    (state : Threads (CachedDb Db (TokenCache Row)) (CachedCall String Row Write)) :
    ThreadAction Touch (CachedJob String Write) AuthTick → Bool
  | .advance index tick =>
    state.running[index]?.all fun call => code.StoresCurrent state.shared call tick
  | _ => true

theorem guarded_of_storesCheck [DecidableEq Row]
    {state : Threads (CachedDb Db (TokenCache Row)) (CachedCall String Row Write)}
    {action : ThreadAction Touch (CachedJob String Write) AuthTick}
    (checked : storesCheck code state action = true) :
    Program.guarded (fun _ _ => True) code.StoresCurrent state action := by
  cases action with
  | advance index tick =>
    intro call found
    simpa [storesCheck, found] using checked
  | _ => trivial

def isRevoked : CachedCall String SyncToken SyncTokenWrite → Bool
  | .answered "token" 1 none => true
  | _ => false

/-- A sync token deleted between two lookups is not found by the second one. -/
theorem revoked_between : ∃ state : Threads (CachedDb (IdTable SyncToken) (TokenCache SyncToken))
      (CachedCall String SyncToken SyncTokenWrite),
    .answered "token" 1 none ∈ state.running ∧
      (cachingSyncTokens id).AnswerSince state.shared 1 "token" none := by
  have ran : (((cachingSyncTokens id).program.system CacheStarts).runChecked
      (storesCheck (cachingSyncTokens id)) (writtenBetween "token" (.deleteByToken "token"))
      ⟨startingWith oneSyncToken, []⟩).any (fun state => state.running.any fun call =>
        isRevoked call) = true := by
    decide +kernel
  obtain ⟨state, run, found⟩ := (Option.any_eq_true _ _).mp ran
  obtain ⟨call, listed, isNone⟩ := List.any_eq_true.mp found
  have answered : call = .answered "token" 1 none := by
    unfold isRevoked at isNone
    split at isNone
    · rfl
    · cases isNone
  subst answered
  refine ⟨state, listed, (credentials_current id id).1 state ?_ "token" 1 none listed⟩
  exact System.reachable_of_runChecked (fun _ _ => guarded_of_storesCheck) _ _ state
    (.init ⟨⟨rfl, rfl, rfl⟩, rfl⟩) run

/-- A deleted sync token and a deleted account token still authenticate, and an API key that may
only read still writes. -/
theorem revoked_meanwhile :
    ¬ (AnswersCurrent (cachingSyncTokens id) fun _ _ _ => True) ∧
      ¬ (AnswersCurrent (cachingApiTokens id) fun _ _ _ => True) ∧
      ¬ (AnswersCurrent (cachingApiKeys id) fun _ _ _ => True) := by
  refine ⟨not_answersCurrent oneSyncToken (writtenMeanwhile "token" (.deleteByToken "token")) ?_,
    not_answersCurrent oneApiToken (writtenMeanwhile "token" (.deleteByToken "token")) ?_,
    not_answersCurrent oneApiKey
      (writtenMeanwhile "secret" (.replaceBindings 1 [⟨"library", "r"⟩])) ?_⟩
  · decide +kernel
  · decide +kernel
  · decide +kernel

end Nanofile
