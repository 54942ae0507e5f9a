import Nanofile.Base.Numbers
import Nanofile.Base.Paths
import Nanofile.Lib.Unfold
import Nanofile.Storage.BlockBackend

/-!
# Downloads

A file is streamed block by block, whole or as one byte range.  A ranged stream skips
blocks before the range by their sizes where the store's sizes are exact, and cuts each
other block at the range.
-/

set_option autoImplicit false

namespace Nanofile

open Nanofile.Lib

universe u

def bytesUnit : List Char := ['b', 'y', 't', 'e', 's', '=']

def rangeSpec (header : String) : Option (List Char) :=
  let text := (trimText header).toList
  if bytesUnit <+: text then some (text.drop bytesUnit.length) else none

/-- The last position: that of the end when none is given, and at most that. -/
def rangeStop (last : List Char) (total : Nat) : Option Nat :=
  if last = [] then some (total - 1) else (parseU64 last).map fun stop => min stop (total - 1)

def parseRange (header : String) (total : Nat) : Option (Nat × Nat) := do
  let spec ← rangeSpec header
  if ',' ∈ spec then none
  else if total = 0 then none
  else
    let (first, last) ← splitOnceChars '-' spec
    let first := (trimText (String.ofList first)).toList
    let last := (trimText (String.ofList last)).toList
    if first = [] then
      let count ← parseU64 last
      if count = 0 then none else some (total - count, total - 1)
    else
      let start ← parseU64 first
      if total ≤ start then none
      else
        let stop ← rangeStop last total
        if stop < start then none else some (start, stop)

section Streams

variable {BlockId Key : Type u} (store : BlockStorageBackend BlockId)
  (decryptBlock : Key → List UInt8 → Except String (List UInt8)) (encKey : Option Key)

/-- A block as it is sent; an encrypted library's is decrypted with the key. -/
def readPlain (id : BlockId) : Except String (List UInt8) := do
  let data ← store.readBlock id
  match encKey with
  | some key => decryptBlock key data
  | none => .ok data

/-- The items of `stream_blocks`: the blocks are read ahead and sent in their order. -/
def streamBlocks (blockIds : List BlockId) : List (Except String (List UInt8)) :=
  blockIds.map (readPlain store decryptBlock encKey)

/-- Where the fast-forward stops: the blocks left, their position, and the size of the first
when that size ended the walk. -/
structure FastForward (BlockId : Type u) where
  blockIds : List BlockId
  pos : Nat
  expectedBlockLen : Option Nat

def fastForward (start : Nat) : List BlockId → Nat → FastForward BlockId
  | [], pos => ⟨[], pos, none⟩
  | id :: rest, pos =>
    match store.blockSize id with
    | .ok size =>
      if 0 ≤ size then
        if start < addU64 pos size.toNat then ⟨id :: rest, pos, some size.toNat⟩
        else fastForward start rest (addU64 pos size.toNat)
      else ⟨id :: rest, pos, none⟩
    | .error _ => ⟨id :: rest, pos, none⟩

structure RangeState (BlockId : Type u) where
  blockIds : List BlockId
  pos : Nat
  done : Bool

def cutBlock (start stop : Nat) (rest : List BlockId) (pos : Nat) (done : Bool)
    (data : List UInt8) : Except String (List UInt8) × RangeState BlockId :=
  let next := addU64 pos data.length
  if stop < pos then (.ok [], ⟨rest, next, true⟩)
  else
    let relStart := start - pos
    let relEnd := addU64 stop 1 - pos
    if data.length ≤ relStart then (.ok [], ⟨rest, next, done⟩)
    else
      let take := subU64 (min relEnd data.length) (min relStart data.length)
      if take = 0 then (.ok [], ⟨rest, next, true⟩)
      else (.ok ((data.drop relStart).take take), ⟨rest, next, done || decide (stop < next)⟩)

variable [ToString BlockId]

def rangeStep (start stop : Nat) (state : RangeState BlockId) :
    Option (Except String (List UInt8) × RangeState BlockId) :=
  if state.done then none
  else
    let reached :=
      if encKey.isNone ∧ store.logicalSizesAreExact ∧ state.pos < start then
        fastForward store start state.blockIds state.pos
      else ⟨state.blockIds, state.pos, none⟩
    match reached.blockIds with
    | [] => some (.ok [], ⟨[], reached.pos, true⟩)
    | id :: rest =>
      match readPlain store decryptBlock encKey id with
      | .error failure => some (.error failure, ⟨rest, reached.pos, state.done⟩)
      | .ok data =>
        match reached.expectedBlockLen with
        | none => some (cutBlock start stop rest reached.pos state.done data)
        | some expected =>
          if data.length ≠ expected then
            some (.error ("block " ++ toString id ++ " is " ++ toString data.length ++
              " bytes but its reported size was " ++ toString expected),
              ⟨rest, reached.pos, true⟩)
          else some (cutBlock start stop rest reached.pos state.done data)

def rangeStream (blockIds : List BlockId) (start stop : Nat) :
    List (Except String (List UInt8)) :=
  unfoldItems (rangeStep store decryptBlock encKey start stop) (blockIds.length + 1)
    ⟨blockIds, 0, false⟩

end Streams

end Nanofile
