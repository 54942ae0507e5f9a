import Mathlib.Logic.Function.Basic

/-!
# The block files of one repository

A block is a file named by its id.  The store also keeps the stored length of blocks
it has seen in a cache whose entries expire, and a write whose length is the cached
or the stored one is a dedup hit.  Ids are the ones `is_valid_block_id` accepts.
-/

set_option autoImplicit false

namespace Nanofile

universe u

structure BlockStorage (BlockId : Type u) where
  files : BlockId → Option (List UInt8)
  existsCache : BlockId → Option Nat

namespace BlockStorage

variable {BlockId : Type u}

def empty : BlockStorage BlockId := ⟨fun _ => none, fun _ => none⟩

def Agrees (store : BlockStorage BlockId) : Prop :=
  ∀ id length, store.existsCache id = some length →
    ∃ stored, store.files id = some stored ∧ stored.length = length

theorem agrees_empty : (empty : BlockStorage BlockId).Agrees := by
  intro id length cached
  simp [empty] at cached

def readBlock (store : BlockStorage BlockId) (id : BlockId) : Option (List UInt8) :=
  store.files id

variable [DecidableEq BlockId]

def existsCacheInsert (store : BlockStorage BlockId) (id : BlockId) (length : Nat) :
    BlockStorage BlockId :=
  { store with existsCache := Function.update store.existsCache id (some length) }

/-- `presentcache_remove`, and an entry that expires or is dropped for space. -/
def existsCacheRemove (store : BlockStorage BlockId) (id : BlockId) : BlockStorage BlockId :=
  { store with existsCache := Function.update store.existsCache id none }

def putFile (store : BlockStorage BlockId) (id : BlockId) (data : List UInt8) :
    BlockStorage BlockId :=
  { store with files := Function.update store.files id (some data) }

/-- `store_block`: an exclusive publish leaves an existing file alone. -/
def storeBlock (store : BlockStorage BlockId) (id : BlockId) (data : List UInt8)
    (exclusive : Bool) : BlockStorage BlockId × Bool :=
  if exclusive ∧ (store.files id).isSome then
    (store.existsCacheInsert id data.length, false)
  else ((store.putFile id data).existsCacheInsert id data.length, true)

def writeBlockWithId (store : BlockStorage BlockId) (id : BlockId) (data : List UInt8) :
    BlockStorage BlockId :=
  if store.existsCache id = some data.length then store
  else
    match store.files id with
    | some stored =>
      if stored.length = data.length then store.existsCacheInsert id stored.length
      else (store.storeBlock id data false).1
    | none => (store.storeBlock id data true).1

def writeBlockWithIdForce (store : BlockStorage BlockId) (id : BlockId) (data : List UInt8) :
    BlockStorage BlockId :=
  (store.storeBlock id data false).1

/-- `write_block_with_id_tracked`: also whether this call created the file. -/
def writeBlockWithIdTracked (store : BlockStorage BlockId) (id : BlockId)
    (data : List UInt8) : BlockStorage BlockId × Bool :=
  if store.existsCache id = some data.length then (store, false)
  else
    match store.files id with
    | some stored =>
      if stored.length = data.length then store.storeBlock id data true
      else ((store.storeBlock id data false).1, true)
    | none => store.storeBlock id data true

/-- `has_block`: a cached length is believed, and that of a file found is cached. -/
def hasBlock (store : BlockStorage BlockId) (id : BlockId) : Bool × BlockStorage BlockId :=
  if (store.existsCache id).isSome then (true, store)
  else
    match store.files id with
    | some stored => (true, store.existsCacheInsert id stored.length)
    | none => (false, store)

def unlink (store : BlockStorage BlockId) (id : BlockId) : BlockStorage BlockId :=
  { store with files := Function.update store.files id none }

def removeBlock (store : BlockStorage BlockId) (id : BlockId) : BlockStorage BlockId :=
  (store.unlink id).existsCacheRemove id

variable {store : BlockStorage BlockId} {id : BlockId} {data : List UInt8}

/-- The file a deduplicating write leaves: an existing one of the same length. -/
def deduplicated (file : Option (List UInt8)) (data : List UInt8) : List UInt8 :=
  match file with
  | some stored => if stored.length = data.length then stored else data
  | none => data

theorem existsCacheRemove_agrees (agrees : store.Agrees) : (store.existsCacheRemove id).Agrees := by
  intro other length cached
  simp only [existsCacheRemove] at cached ⊢
  by_cases same : other = id
  · subst same
    simp at cached
  · rw [Function.update_of_ne same] at cached
    exact agrees other length cached

theorem existsCacheInsert_agrees {stored : List UInt8} (agrees : store.Agrees)
    (found : store.files id = some stored) :
    (store.existsCacheInsert id stored.length).Agrees := by
  intro other length cached
  simp only [existsCacheInsert] at cached ⊢
  by_cases same : other = id
  · subst same
    rw [Function.update_self, Option.some.injEq] at cached
    exact ⟨stored, found, cached⟩
  · rw [Function.update_of_ne same] at cached
    exact agrees other length cached

theorem putFile_agrees (agrees : store.Agrees) :
    ((store.putFile id data).existsCacheInsert id data.length).Agrees := by
  intro other length cached
  simp only [existsCacheInsert, putFile] at cached ⊢
  by_cases same : other = id
  · subst same
    rw [Function.update_self, Option.some.injEq] at cached
    exact ⟨data, Function.update_self .., cached⟩
  · rw [Function.update_of_ne same] at cached ⊢
    exact agrees other length cached

structure Wrote (store : BlockStorage BlockId) (id : BlockId) (file : List UInt8)
    (after : BlockStorage BlockId) : Prop where
  agrees : after.Agrees
  files : after.files = Function.update store.files id (some file)

theorem wrote_put (agrees : store.Agrees) :
    store.Wrote id data ((store.putFile id data).existsCacheInsert id data.length) :=
  ⟨putFile_agrees agrees, rfl⟩

theorem wrote_found {stored : List UInt8} {after : BlockStorage BlockId}
    (found : store.files id = some stored) (agrees : after.Agrees)
    (same : after.files = store.files) : store.Wrote id stored after := by
  refine ⟨agrees, ?_⟩
  rw [same, ← found, Function.update_eq_self]

theorem storeBlock_spec (agrees : store.Agrees) {exclusive : Bool}
    (replaces : exclusive = true → store.files id = none) :
    store.Wrote id data (store.storeBlock id data exclusive).1 := by
  have stores : ¬ (exclusive ∧ (store.files id).isSome) := by
    rintro ⟨isExclusive, found⟩
    rw [replaces isExclusive] at found
    simp at found
  rw [storeBlock, if_neg stores]
  exact wrote_put agrees

theorem wrote_cached (agrees : store.Agrees) (cached : store.existsCache id = some data.length) :
    store.Wrote id (deduplicated (store.files id) data) store := by
  obtain ⟨stored, found, sameLength⟩ := agrees id _ cached
  rw [found, deduplicated, if_pos sameLength]
  exact wrote_found found agrees rfl

theorem writeBlockWithId_spec (id : BlockId) (data : List UInt8) (agrees : store.Agrees) :
    store.Wrote id (deduplicated (store.files id) data) (store.writeBlockWithId id data) := by
  unfold writeBlockWithId
  split
  · rename_i cached
    exact wrote_cached agrees cached
  · cases found : store.files id with
    | none => exact storeBlock_spec agrees fun _ => found
    | some stored =>
      by_cases sameLength : stored.length = data.length
      · simp only [deduplicated, if_pos sameLength]
        exact wrote_found found (existsCacheInsert_agrees agrees found) rfl
      · simp only [deduplicated, if_neg sameLength]
        exact storeBlock_spec agrees (by simp)

theorem writeBlockWithIdForce_spec (id : BlockId) (data : List UInt8) (agrees : store.Agrees) :
    store.Wrote id data (store.writeBlockWithIdForce id data) :=
  storeBlock_spec agrees (by simp)

theorem writeBlockWithIdTracked_spec (id : BlockId) (data : List UInt8)
    (agrees : store.Agrees) :
    store.Wrote id (deduplicated (store.files id) data)
      (store.writeBlockWithIdTracked id data).1 := by
  unfold writeBlockWithIdTracked
  split
  · rename_i cached
    exact wrote_cached agrees cached
  · cases found : store.files id with
    | none => exact storeBlock_spec agrees fun _ => found
    | some stored =>
      by_cases sameLength : stored.length = data.length
      · have present : (true : Bool) = true ∧ (store.files id).isSome := ⟨rfl, by rw [found]; rfl⟩
        simp only [deduplicated, if_pos sameLength]
        rw [storeBlock, if_pos present, ← sameLength]
        exact wrote_found found (existsCacheInsert_agrees agrees found) rfl
      · simp only [deduplicated, if_neg sameLength]
        exact storeBlock_spec agrees (by simp)

def Grows {BlockId : Type u} (before after : BlockStorage BlockId) : Prop :=
  ∀ id, (before.files id).isSome → (after.files id).isSome

omit [DecidableEq BlockId] in
theorem Grows.refl (store : BlockStorage BlockId) : store.Grows store := fun _ found => found

theorem grows_putFile : store.Grows (store.putFile id data) := by
  intro other found
  simp only [putFile]
  by_cases same : other = id
  · subst same
    rw [Function.update_self]
    rfl
  · rw [Function.update_of_ne same]
    exact found

theorem grows_storeBlock (exclusive : Bool) :
    store.Grows (store.storeBlock id data exclusive).1 := by
  unfold storeBlock
  split
  · exact .refl store
  · exact grows_putFile

theorem storeBlock_present (exclusive : Bool) :
    ((store.storeBlock id data exclusive).1.files id).isSome := by
  unfold storeBlock
  split
  · rename_i blocked
    exact blocked.2
  · simp [existsCacheInsert, putFile]

theorem grows_writeBlockWithIdTracked :
    store.Grows (store.writeBlockWithIdTracked id data).1 := by
  unfold writeBlockWithIdTracked
  split
  · exact .refl store
  · split
    · split
      · exact grows_storeBlock true
      · exact grows_storeBlock false
    · exact grows_storeBlock true

theorem writeBlockWithIdTracked_present
    (trusted : (store.existsCache id).isSome → (store.files id).isSome) :
    ((store.writeBlockWithIdTracked id data).1.files id).isSome := by
  unfold writeBlockWithIdTracked
  split
  · rename_i cached
    exact trusted (by rw [cached]; rfl)
  · split
    · split
      · exact storeBlock_present true
      · exact storeBlock_present false
    · exact storeBlock_present true

end BlockStorage

end Nanofile
