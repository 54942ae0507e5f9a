import Nanofile.Base.Hex
import Nanofile.Lib.Threads
import Nanofile.Storage.AtRest

/-!
# The presence cache beside the block files

A file is named by the id as it is spelled, its cached length by the bytes the id decodes to.
Each operation looks at the files and at the cache in separate steps, and the steps of all
operations interleave.
-/

set_option autoImplicit false

namespace Nanofile

open Nanofile.Lib

universe u v

abbrev BlockName (Repo : Type u) := Repo × { id : String // IsHexId id }

def hexValue (char : Char) : Nat :=
  if '0' ≤ char ∧ char ≤ '9' then char.toNat - '0'.toNat
  else if 'a' ≤ char ∧ char ≤ 'f' then char.toNat - 'a'.toNat + 10
  else char.toNat - 'A'.toNat + 10

def decodeToSlice : List Char → List UInt8
  | high :: low :: rest => .ofNat (16 * hexValue high + hexValue low) :: decodeToSlice rest
  | _ => []

def cacheKey {Repo : Type u} (name : BlockName Repo) : Repo × List UInt8 :=
  (name.1, decodeToSlice name.2.val.toList)

inductive BlockCall where
  | hasBlock
  | blockSize
  | write (writer : EncryptingBlockStore.Writer) (data : List UInt8)
  | remove
deriving DecidableEq, Repr

inductive BlockPc where
  | start
  | stat
  /-- The length of the file is known and not yet cached. -/
  | found (length : Nat)
  | store (exclusive : Bool)
  | published
  | unlink
  | forget
  /-- Returned `true` or `Ok`, or else `false` or an error. -/
  | returned (ok : Bool)
deriving DecidableEq, Repr

structure BlockThread (Name : Type u) where
  name : Name
  call : BlockCall
  pc : BlockPc

structure BlockJob (Name : Type u) where
  name : Name
  call : BlockCall

inductive BlockTick where
  | go
  | noHardLinks
  | ioError
deriving DecidableEq, Repr

/-- Cached lengths that expire or are dropped for space. -/
inductive CacheRequest (Key : Type v) where
  | expire (dropped : Key → Bool)

/-- The files and the cache.  The rest is history: the names for which a write has returned when
no removal was in progress and none has begun since, the removals in progress, and those that have
yet to drop the cached length. -/
structure CachedBlocks (Name : Type u) (Key : Type v) where
  files : Name → Option (List UInt8)
  existsCache : Key → Option Nat
  written : Name → Bool
  removing : Name → Int
  forgetting : Name → Int

section Model

variable {Name : Type u} {Key : Type v} [DecidableEq Name] [DecidableEq Key] (key : Name → Key)

namespace CachedBlocks

def readBlock (blocks : CachedBlocks Name Key) (name : Name) : Option (List UInt8) :=
  blocks.files name

def existsCacheInsert (blocks : CachedBlocks Name Key) (name : Name) (length : Nat) :
    CachedBlocks Name Key :=
  { blocks with existsCache := Function.update blocks.existsCache (key name) (some length) }

def returnOk (blocks : CachedBlocks Name Key) (name : Name) : CachedBlocks Name Key :=
  if blocks.removing name = 0 then
    { blocks with written := Function.update blocks.written name true }
  else blocks

def putFile (blocks : CachedBlocks Name Key) (name : Name) (data : List UInt8) :
    CachedBlocks Name Key :=
  { blocks with files := Function.update blocks.files name (some data) }

def beginRemove (blocks : CachedBlocks Name Key) (name : Name) : CachedBlocks Name Key :=
  { blocks with
    written := Function.update blocks.written name false
    removing := Function.update blocks.removing name (blocks.removing name + 1) }

def endRemove (blocks : CachedBlocks Name Key) (name : Name) : CachedBlocks Name Key :=
  { blocks with removing := Function.update blocks.removing name (blocks.removing name - 1) }

def beginForget (blocks : CachedBlocks Name Key) (name : Name) : CachedBlocks Name Key :=
  { blocks with
    files := Function.update blocks.files name none
    forgetting := Function.update blocks.forgetting name (blocks.forgetting name + 1) }

def endForget (blocks : CachedBlocks Name Key) (name : Name) : CachedBlocks Name Key :=
  { blocks with
    existsCache := Function.update blocks.existsCache (key name) none
    forgetting := Function.update blocks.forgetting name (blocks.forgetting name - 1) }

end CachedBlocks

def startCall (blocks : CachedBlocks Name Key) (name : Name) :
    BlockCall → CachedBlocks Name Key × BlockPc
  | .hasBlock =>
    (blocks, if (blocks.existsCache (key name)).isSome then .returned true else .stat)
  | .blockSize => (blocks, .stat)
  | .write .force _ => (blocks, .store false)
  | .write _ data =>
    if blocks.existsCache (key name) = some data.length then
      (blocks.returnOk name, .returned true)
    else (blocks, .stat)
  | .remove =>
    if (blocks.files name).isSome then (blocks.beginRemove name, .unlink)
    else ((blocks.beginRemove name).beginForget name, .forget)

def statCall (seen : Option Nat) : BlockCall → Option BlockPc
  | .hasBlock | .blockSize => some (seen.elim (.returned false) .found)
  | .write .plain data =>
    some (seen.elim (.store true) fun length =>
      if length = data.length then .found length else .store false)
  | .write .tracked data =>
    some (seen.elim (.store true) fun length => .store (length = data.length))
  | .write .force _ | .remove => none

def rememberCall (blocks : CachedBlocks Name Key) (name : Name) (length : Nat) :
    BlockCall → Option (CachedBlocks Name Key)
  | .hasBlock | .blockSize => some (blocks.existsCacheInsert key name length)
  | .write _ _ => some ((blocks.existsCacheInsert key name length).returnOk name)
  | .remove => none

/-- `publish_block`, or the rename of a write that replaces the file. -/
def publishBlock (tick : BlockTick) (blocks : CachedBlocks Name Key) (name : Name)
    (data : List UInt8) (exclusive : Bool) : CachedBlocks Name Key :=
  if exclusive ∧ tick ≠ .noHardLinks ∧ (blocks.files name).isSome then blocks
  else blocks.putFile name data

def storeCall (tick : BlockTick) (blocks : CachedBlocks Name Key) (name : Name)
    (exclusive : Bool) : BlockCall → Option (CachedBlocks Name Key × BlockPc)
  | .write _ data =>
    some (if tick = .ioError then (blocks, .returned false)
      else (publishBlock tick blocks name data exclusive, .published))
  | .hasBlock | .blockSize | .remove => none

def publishedCall (blocks : CachedBlocks Name Key) (name : Name) :
    BlockCall → Option (CachedBlocks Name Key)
  | .write _ data => some ((blocks.existsCacheInsert key name data.length).returnOk name)
  | .hasBlock | .blockSize | .remove => none

/-- `remove_file`: it fails when another removal was faster. -/
def unlinkFile (tick : BlockTick) (blocks : CachedBlocks Name Key) (name : Name) :
    CachedBlocks Name Key × BlockPc :=
  if tick = .ioError ∨ blocks.files name = none then (blocks.endRemove name, .returned false)
  else (blocks.beginForget name, .forget)

def unlinkCall (tick : BlockTick) (blocks : CachedBlocks Name Key) (name : Name) :
    BlockCall → Option (CachedBlocks Name Key × BlockPc)
  | .remove => some (unlinkFile tick blocks name)
  | .hasBlock | .blockSize | .write _ _ => none

def forgetCall (blocks : CachedBlocks Name Key) (name : Name) :
    BlockCall → Option (CachedBlocks Name Key)
  | .remove => some ((blocks.endForget key name).endRemove name)
  | .hasBlock | .blockSize | .write _ _ => none

def blockPcStep (tick : BlockTick) (blocks : CachedBlocks Name Key) (name : Name)
    (call : BlockCall) : BlockPc → Option (CachedBlocks Name Key × BlockPc)
  | .start => some (startCall key blocks name call)
  | .stat =>
    let seen := if tick = .ioError then none else (blocks.files name).map List.length
    (statCall seen call).map (blocks, ·)
  | .found length => (rememberCall key blocks name length call).map (·, .returned true)
  | .store exclusive => storeCall tick blocks name exclusive call
  | .published => (publishedCall key blocks name call).map (·, .returned true)
  | .unlink => unlinkCall tick blocks name call
  | .forget => (forgetCall key blocks name call).map (·, .returned true)
  | .returned _ => none

/-- An operation takes this many steps while nothing else runs. -/
def runAlone (name : Name) (call : BlockCall) :
    Nat → CachedBlocks Name Key × BlockPc → CachedBlocks Name Key × BlockPc
  | 0, before => before
  | steps + 1, before =>
    (blockPcStep key .go before.1 name call before.2).elim before (runAlone name call steps)

def hasBlock (blocks : CachedBlocks Name Key) (name : Name) : Bool :=
  (runAlone key name .hasBlock 3 (blocks, .start)).2 = .returned true

def blockStep (tick : BlockTick) (blocks : CachedBlocks Name Key) (thread : BlockThread Name) :
    Option (CachedBlocks Name Key × BlockThread Name) :=
  (blockPcStep key tick blocks thread.name thread.call thread.pc).map
    (Prod.map id fun pc => { thread with pc })

def blockProgram :
    Program (CachedBlocks Name Key) (BlockThread Name) (CacheRequest Key) (BlockJob Name)
      BlockTick where
  serve
    | .expire dropped, blocks =>
      { blocks with
        existsCache := fun cached => if dropped cached then none else blocks.existsCache cached }
  begin job := ⟨job.name, job.call, .start⟩
  advance := blockStep key

end Model

end Nanofile
