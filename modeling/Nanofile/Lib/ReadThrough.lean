import Nanofile.Lib.Threads

/-!
# A cache that readers fill and writers clear

A reader asks the cache, then the database, and stores what the database answered.  A writer
changes the database and then clears the cache.  The steps interleave, so a row that a reader
holds between its two accesses may be stored after the writer's clear.  As long as no reader
stores a row that the database has not had since the last finished write, every answer is one
the database has given since the last write that finished before the reader began.
-/

set_option autoImplicit false

namespace Nanofile.Lib

universe u v w x y

/-- A cache may drop what it holds at any time, and holds nothing else than what was stored. -/
structure CacheOps (Cache : Type u) (Key : Type v) (Value : Type w) (Tick : Type x) where
  Holds : Cache → Key → Value → Prop
  get : Tick → Key → Cache → Option Value × Cache
  insert : Tick → Key → Value → Cache → Cache
  clear : Cache → Cache
  get_holds : ∀ {tick key cache value}, (get tick key cache).1 = some value → Holds cache key value
  get_keeps : ∀ {tick key cache other value}, Holds (get tick key cache).2 other value →
    Holds cache other value
  insert_holds : ∀ {tick key value cache other found},
    Holds (insert tick key value cache) other found →
      Holds cache other found ∨ (other = key ∧ found = value)
  clear_holds : ∀ {cache key value}, ¬ Holds (clear cache) key value

/-- A cached database.  `write` is cleared for, `touch` is not. -/
structure ReadThrough (Db Cache Key Value Tick Write Touch : Type*) where
  cache : CacheOps Cache Key Value Tick
  read : Db → Key → Option Value
  write : Write → Db → Db
  touch : Touch → Db → Db
  /-- The access of the database fails. -/
  fails : Tick → Bool

/-- The database with its past, the cache, and the number of the newest state of the database
that a finished write is known to be in. -/
structure CachedDb (Db Cache : Type*) where
  past : List Db
  db : Db
  cache : Cache
  settled : Nat

/-- A call between two of its steps.  `since` is what was settled when a lookup began. -/
inductive CachedCall (Key Value Write : Type*) where
  | asking (key : Key)
  | missed (key : Key) (since : Nat)
  | filling (key : Key) (since : Nat) (value : Value)
  | answered (key : Key) (since : Nat) (answer : Option Value)
  | writing (write : Write)
  | clearing (wrote : Nat)
  | returned
  | failed

inductive CachedJob (Key Write : Type*) where
  | lookup (key : Key)
  | mutate (write : Write)

variable {Db Cache Key Value Tick Write Touch : Type*} {number : Nat}

namespace CachedDb

def statesFrom (state : CachedDb Db Cache) (number : Nat) : List Db :=
  (state.past ++ [state.db]).drop number

def moved (state : CachedDb Db Cache) (db : Db) : CachedDb Db Cache :=
  { state with past := state.past ++ [state.db], db }

theorem statesFrom_moved {state : CachedDb Db Cache} {db other : Db}
    (listed : other ∈ state.statesFrom number) : other ∈ (state.moved db).statesFrom number := by
  unfold statesFrom moved at *
  rw [List.drop_append]
  exact List.mem_append_left _ listed

theorem db_mem_statesFrom {state : CachedDb Db Cache} (le : number ≤ state.past.length) :
    state.db ∈ state.statesFrom number := by
  unfold statesFrom
  rw [List.drop_append_of_le_length le]
  exact List.mem_append_right _ (List.mem_singleton.mpr rfl)

end CachedDb

namespace ReadThrough

/-- One step of a call: an access of the cache or of the database. -/
def advance (code : ReadThrough Db Cache Key Value Tick Write Touch) (tick : Tick)
    (state : CachedDb Db Cache) : CachedCall Key Value Write →
      Option (CachedDb Db Cache × CachedCall Key Value Write)
  | .asking key =>
    let asked := code.cache.get tick key state.cache
    some ({ state with cache := asked.2 },
      match asked.1 with
      | some value => .answered key state.settled (some value)
      | none => .missed key state.settled)
  | .missed key since =>
    if code.fails tick then some (state, .failed)
    else
      match code.read state.db key with
      | none => some (state, .answered key since none)
      | some value => some (state, .filling key since value)
  | .filling key since value =>
    some ({ state with cache := code.cache.insert tick key value state.cache },
      .answered key since (some value))
  | .writing write =>
    if code.fails tick then some (state, .clearing 0)
    else some (state.moved (code.write write state.db), .clearing (state.past.length + 1))
  | .clearing wrote =>
    some ({ state with
      cache := code.cache.clear state.cache
      settled := max state.settled wrote }, .returned)
  | .answered .. | .returned | .failed => none

def program (code : ReadThrough Db Cache Key Value Tick Write Touch) :
    Program (CachedDb Db Cache) (CachedCall Key Value Write) Touch (CachedJob Key Write) Tick where
  serve touch state := state.moved (code.touch touch state.db)
  begin
    | .lookup key => .asking key
    | .mutate write => .writing write
  advance := code.advance

def AnswerSince (code : ReadThrough Db Cache Key Value Tick Write Touch)
    (state : CachedDb Db Cache) (number : Nat) (key : Key) (answer : Option Value) : Prop :=
  ∃ db ∈ state.statesFrom number, code.read db key = answer

instance [DecidableEq Value] (code : ReadThrough Db Cache Key Value Tick Write Touch)
    (state : CachedDb Db Cache) (number : Nat) (key : Key) (answer : Option Value) :
    Decidable (code.AnswerSince state number key answer) :=
  inferInstanceAs (Decidable (∃ db ∈ state.statesFrom number, code.read db key = answer))

/-- A lookup stores only what the database has answered since the last finished write. -/
def StoresCurrent (code : ReadThrough Db Cache Key Value Tick Write Touch)
    (state : CachedDb Db Cache) : CachedCall Key Value Write → Tick → Prop
  | .filling key _ value, _ => code.AnswerSince state state.settled key (some value)
  | _, _ => True

instance [DecidableEq Value] (code : ReadThrough Db Cache Key Value Tick Write Touch)
    (state : CachedDb Db Cache) (call : CachedCall Key Value Write) (tick : Tick) :
    Decidable (code.StoresCurrent state call tick) := by
  cases call <;> unfold StoresCurrent <;> infer_instance

/-- What the cache holds was answered since the last finished write. -/
structure Fresh (code : ReadThrough Db Cache Key Value Tick Write Touch)
    (state : CachedDb Db Cache) : Prop where
  settled : state.settled ≤ state.past.length
  held : ∀ key value, code.cache.Holds state.cache key value →
    code.AnswerSince state state.settled key (some value)

/-- What a call knows between two of its steps. -/
def CallFresh (code : ReadThrough Db Cache Key Value Tick Write Touch)
    (state : CachedDb Db Cache) : CachedCall Key Value Write → Prop
  | .missed _ since => since ≤ state.settled
  | .filling key since value => code.AnswerSince state since key (some value)
  | .answered key since answer => code.AnswerSince state since key answer
  | .clearing wrote => wrote ≤ state.past.length
  | _ => True

def Later (before after : CachedDb Db Cache) : Prop :=
  before.settled ≤ after.settled ∧ before.past.length ≤ after.past.length ∧
    ∀ number db, db ∈ before.statesFrom number → db ∈ after.statesFrom number

variable {code : ReadThrough Db Cache Key Value Tick Write Touch}
  {before after state : CachedDb Db Cache} {answer : Option Value} {key : Key}

theorem AnswerSince.later (given : code.AnswerSince before number key answer)
    (later : Later before after) : code.AnswerSince after number key answer := by
  obtain ⟨db, listed, answers⟩ := given
  exact ⟨db, later.2.2 number db listed, answers⟩

theorem later_moved (db : Db) : Later state (state.moved db) := by
  refine ⟨Nat.le_refl _, ?_, fun _ _ listed => CachedDb.statesFrom_moved listed⟩
  simp [CachedDb.moved]

theorem Fresh.moved (fresh : code.Fresh state) (db : Db) : code.Fresh (state.moved db) := by
  refine ⟨Nat.le_trans fresh.settled (later_moved db).2.1, fun key value holds => ?_⟩
  exact (fresh.held key value holds).later (later_moved db)

variable {call : CachedCall Key Value Write}

theorem CallFresh.later (later : Later before after) (fresh : code.CallFresh before call) :
    code.CallFresh after call := by
  cases call with
  | missed key since => exact Nat.le_trans fresh later.1
  | filling key since value | answered key since answer => exact AnswerSince.later fresh later
  | clearing wrote => exact Nat.le_trans fresh later.2.1
  | _ => trivial

theorem advance_fresh {tick : Tick} {call' : CachedCall Key Value Write} (fresh : code.Fresh before)
    (callFresh : code.CallFresh before call) (stores : code.StoresCurrent before call tick)
    (taken : code.advance tick before call = some (after, call')) :
    code.Fresh after ∧ code.CallFresh after call' ∧ Later before after := by
  have stay : Later before before := ⟨Nat.le_refl _, Nat.le_refl _, fun _ _ listed => listed⟩
  cases call with
  | asking key =>
    simp only [advance, Option.some.injEq, Prod.mk.injEq] at taken
    obtain ⟨rfl, rfl⟩ := taken
    refine ⟨⟨fresh.settled, fun other value holds => fresh.held other value
      (code.cache.get_keeps holds)⟩, ?_, stay⟩
    cases found : (code.cache.get tick key before.cache).1 with
    | none => exact Nat.le_refl _
    | some value => exact fresh.held key value (code.cache.get_holds found)
  | missed key since =>
    rw [advance] at taken
    split at taken
    · cases taken
      exact ⟨fresh, trivial, stay⟩
    · have now : before.db ∈ before.statesFrom since :=
        CachedDb.db_mem_statesFrom (Nat.le_trans callFresh fresh.settled)
      split at taken
      · rename_i absent
        cases taken
        exact ⟨fresh, ⟨before.db, now, absent⟩, stay⟩
      · rename_i value present
        cases taken
        exact ⟨fresh, ⟨before.db, now, present⟩, stay⟩
  | filling key since value =>
    cases taken
    refine ⟨⟨fresh.settled, fun other found holds => ?_⟩, callFresh, stay⟩
    rcases code.cache.insert_holds holds with old | ⟨rfl, rfl⟩
    · exact fresh.held other found old
    · exact stores
  | writing write =>
    rw [advance] at taken
    split at taken
    · cases taken
      exact ⟨fresh, Nat.zero_le _, stay⟩
    · cases taken
      refine ⟨fresh.moved _, ?_, later_moved _⟩
      simp [CallFresh, CachedDb.moved]
  | clearing wrote =>
    cases taken
    refine ⟨⟨Nat.max_le.mpr ⟨fresh.settled, callFresh⟩, fun key value holds => ?_⟩, trivial,
      Nat.le_max_left _ _, Nat.le_refl _, fun _ _ listed => listed⟩
    exact absurd holds code.cache.clear_holds
  | _ => simp [advance] at taken

/-- Every answer of a lookup is one the database has given since the last write that had
finished when the lookup began. -/
theorem answers_current {init : CachedDb Db Cache → Prop}
    (start : ∀ state, init state → code.Fresh state)
    {state : Threads (CachedDb Db Cache) (CachedCall Key Value Write)}
    (reached : (code.program.system init).Reachable
      (Program.guarded (fun _ _ => True) code.StoresCurrent) state) {since : Nat}
    (answered : .answered key since answer ∈ state.running) :
    code.AnswerSince state.shared since key answer := by
  have kept := Program.threads_invariant (I := code.Fresh) (O := code.CallFresh)
    (fun _ _ _ (later : Later _ _) fresh => fresh.later later)
    (fun _ job _ => by cases job <;> trivial)
    (fun _ touch fresh _ => ⟨fresh.moved _, later_moved _⟩)
    (fun _ _ _ _ fresh callFresh stores taken => advance_fresh fresh callFresh stores taken)
    start reached
  exact kept.2 _ answered

end ReadThrough

end Nanofile.Lib
