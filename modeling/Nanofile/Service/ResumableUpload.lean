import Nanofile.Base.Common
import Nanofile.Base.Numbers
import Nanofile.Lib.Proc
import Nanofile.Lib.SparseFile
import Nanofile.Storage.CdcStream

/-!
# Resumable uploads

A client sends a file in chunks, each with a `Content-Range` header.  The chunks go into
a temporary file at their offsets, and while they come in order also through a chunker.
The request with the last byte commits what was streamed or else what the temporary file
holds.  All uploads to one path of a library share one entry.
-/

set_option autoImplicit false

namespace Nanofile

open Nanofile.Lib

universe u

structure ContentRange where
  start : Nat
  stop : Nat
  fileSize : Nat
deriving DecidableEq, Repr

def rangePrefix : List Char := ['b', 'y', 't', 'e', 's', ' ']

def parseContentRange (header : String) : Except AppError ContentRange := do
  let rest ← okOr (if rangePrefix <+: header.toList then some (header.toList.drop 6) else none)
    (.badRequest "invalid Content-Range format")
  let (range, size) ← okOr (splitOnceChars '/' rest)
    (.badRequest "invalid Content-Range: missing file size")
  let (first, last) ← okOr (splitOnceChars '-' range)
    (.badRequest "invalid Content-Range: missing range")
  let start ← okOr (parseU64 first) (.badRequest "invalid Content-Range: invalid start")
  let stop ← okOr (parseU64 last) (.badRequest "invalid Content-Range: invalid end")
  let fileSize ← okOr (parseU64 size) (.badRequest "invalid Content-Range: invalid file size")
  ensure (¬ (fileSize ≤ stop ∨ stop < start))
    (.badRequest "invalid Content-Range: range out of bounds")
  return ⟨start, stop, fileSize⟩

structure UploadStream (BlockId : Type u) where
  chunker : Option (Chunker .seafile)
  nextOffset : Nat
  blockIds : List BlockId
  streamedBlocks : List (BlockId × Nat)
  fileSize : Nat
  broken : Bool

structure TempFileEntry (BlockId : Type u) where
  tmp : List UInt8
  fileSize : Nat
  stream : UploadStream BlockId

inductive TempError where
  | quotaExceeded (msg : String)
  | invalidInput (msg : String)
  | notFound (msg : String)
deriving DecidableEq, Repr

section Entries

variable {BlockId : Type u} (sha1 : List UInt8 → BlockId)

def newEntry (fileSize : Nat) : TempFileEntry BlockId :=
  ⟨[], fileSize, ⟨none, 0, [], [], fileSize, false⟩⟩

/-- `get_or_create`; `admitted` says that the caps on uploads and bytes leave room. -/
def getOrCreate (admitted : Bool) (fileSize : Nat) (active : Option (TempFileEntry BlockId)) :
    Except TempError (TempFileEntry BlockId) :=
  match active with
  | some entry => .ok entry
  | none =>
    if admitted then .ok (newEntry fileSize)
    else .error (.quotaExceeded "too many concurrent uploads")

def writeChunk (offset : Nat) (data : List UInt8) (active : Option (TempFileEntry BlockId)) :
    Except TempError (TempFileEntry BlockId) :=
  match active with
  | none => .error (.notFound "no active temp file for this upload")
  | some entry =>
    if entry.fileSize < offset + data.length then
      .error (.invalidInput "chunk extends beyond the declared file size")
    else .ok { entry with tmp := writeAt entry.tmp ⟨offset, data⟩ }

def recorded (block : List UInt8) : BlockId × Nat := (sha1 block, block.length)

/-- `feed_stream`; `stored` says that the blocks could be written. -/
def UploadStream.feed (stream : UploadStream BlockId) (stored : Bool) (offset : Nat)
    (data : List UInt8) : UploadStream BlockId :=
  if stream.broken ∨ offset ≠ stream.nextOffset then { stream with broken := true }
  else
    let fed := (stream.chunker.getD (.new .seafile)).feed data
    if stored ∨ fed.2 = [] then
      { stream with
        chunker := some fed.1
        nextOffset := stream.nextOffset + data.length
        blockIds := stream.blockIds ++ fed.2.map sha1
        streamedBlocks := stream.streamedBlocks ++ fed.2.map (recorded sha1) }
    else { stream with chunker := some fed.1, broken := true }

def feedStream (stored : Bool) (offset : Nat) (data : List UInt8)
    (entry : TempFileEntry BlockId) : TempFileEntry BlockId :=
  { entry with stream := entry.stream.feed sha1 stored offset data }

def UploadStream.close (stream : UploadStream BlockId) (tail : List UInt8) :
    UploadStream BlockId :=
  { stream with
    chunker := none
    broken := true
    blockIds := stream.blockIds ++ if tail = [] then [] else [sha1 tail]
    streamedBlocks := stream.streamedBlocks ++ if tail = [] then [] else [recorded sha1 tail] }

/-- `take_streamed_blocks`; `stored` says that the last block could be written, `intact`
that every streamed block has its length in the store. -/
def UploadStream.take (stream : UploadStream BlockId) (stored intact : Bool)
    (expectedSize : Nat) : UploadStream BlockId × Option (List BlockId × Nat) :=
  if stream.broken ∨ stream.nextOffset ≠ stream.fileSize ∨ stream.fileSize ≠ expectedSize then
    (stream, none)
  else
    match stream.chunker with
    | none => (stream, none)
    | some chunker =>
      if chunker.finish ≠ [] ∧ stored = false then
        ({ stream with chunker := none, broken := true }, none)
      else
        let closed := stream.close sha1 chunker.finish
        if (closed.streamedBlocks.map Prod.snd).sum ≠ closed.fileSize ∨ intact = false then
          (closed, none)
        else ({ closed with blockIds := [] }, some (closed.blockIds, closed.fileSize))

structure FileReader where
  pieces : List UInt8 → List (List UInt8)
  flatten_pieces : ∀ bytes, (pieces bytes).flatten = bytes

def writeStreamBlocks (blockIdOf : List UInt8 → BlockId) (pieces : List (List UInt8)) :
    List BlockId × Nat :=
  let blocks := Chunker.chunksOf .seafile pieces
  (blocks.map blockIdOf, (blocks.map List.length).sum)

end Entries

structure ChunkRequest where
  header : String
  data : List UInt8

structure ChunkLimits where
  maxChunkBytes : Nat
  maxBytes : Nat

/-- What a request meets: the caps and the quota, block writes, and the commit. -/
structure ChunkOutcomes where
  admitted : Bool
  reserved : Bool
  fed : Bool
  tailStored : Bool
  intact : Bool
  assembled : Bool
  committed : Bool

/-- How the library hashes a block of the assembled file, and how files are read.  An
encrypted library hashes the ciphertext and does not stream. -/
structure ChunkServer (BlockId : Type u) where
  limits : ChunkLimits
  sha1 : List UInt8 → BlockId
  encrypt : Option (List UInt8 → List UInt8)
  reader : FileReader

inductive ChunkResult (BlockId : Type u) where
  | intermediate
  | committed (blockIds : List BlockId) (size : Nat)
deriving DecidableEq, Repr

/-- Errors of a chunk request beyond those shared by all. -/
inductive ChunkError where
  | app (error : AppError)
  | tooLarge
  | tooManyRequests
deriving DecidableEq, Repr

section Request

variable {BlockId : Type u} (server : ChunkServer BlockId)

def ChunkServer.blockIdOf (block : List UInt8) : BlockId :=
  match server.encrypt with
  | none => server.sha1 block
  | some encrypt => server.sha1 (encrypt block)

def mapTempError : TempError → ChunkError
  | .quotaExceeded _ => .tooManyRequests
  | .invalidInput msg => .app (.badRequest msg)
  | .notFound msg => .app (.internal ("temp file operation failed: " ++ msg))

/-- The checks of a request before it looks at the upload. -/
def checkChunk (request : ChunkRequest) : Except ChunkError ContentRange :=
  match parseContentRange request.header with
  | .error error => .error (.app error)
  | .ok range =>
    let expected := range.stop - range.start + 1
    if request.data.length ≠ expected then
      .error (.app (.badRequest
        s!"Content-Range chunk size mismatch: header says {expected}, actual {request.data.length}"))
    else if 0 < server.limits.maxChunkBytes ∧ server.limits.maxChunkBytes < expected then
      .error (.app (.badRequest
        s!"chunk size {expected} exceeds per-chunk limit {server.limits.maxChunkBytes}"))
    else if 0 < server.limits.maxBytes ∧ server.limits.maxBytes < range.fileSize then
      .error .tooLarge
    else .ok range

/-- The commit of the assembled temporary file.  A file of another length is discarded
with its entry. -/
def commitAssembled (outcomes : ChunkOutcomes) (fileSize : Nat) (entry : TempFileEntry BlockId) :
    Option (TempFileEntry BlockId) × Except ChunkError (ChunkResult BlockId) :=
  let written := writeStreamBlocks server.blockIdOf (server.reader.pieces entry.tmp)
  if outcomes.assembled = false then
    (some entry, .error (.app (.internal "stream read failed")))
  else if written.2 ≠ fileSize then
    (none, .error (.app (.internal
      s!"assembled file size {written.2} does not match expected {fileSize}")))
  else if outcomes.committed then (none, .ok (.committed written.1 written.2))
  else (some entry, .error (.app (.internal "upload failed")))

/-- The request with the last byte: the streamed blocks if there are any to take. -/
def commitChunks (outcomes : ChunkOutcomes) (fileSize : Nat) (entry : TempFileEntry BlockId) :
    Option (TempFileEntry BlockId) × Except ChunkError (ChunkResult BlockId) :=
  let taken := entry.stream.take server.sha1 outcomes.tailStored outcomes.intact fileSize
  let entry := { entry with stream := taken.1 }
  match taken.2 with
  | none => commitAssembled server outcomes fileSize entry
  | some streamed =>
    if outcomes.committed then (none, .ok (.committed streamed.1 streamed.2))
    else (some entry, .error (.app (.internal "upload failed")))

/-- The chunk is written, and streamed unless the library is encrypted. -/
def storeChunk (outcomes : ChunkOutcomes) (range : ContentRange) (data : List UInt8)
    (entry : TempFileEntry BlockId) : Except TempError (TempFileEntry BlockId) :=
  (writeChunk range.start data (some entry)).map fun written =>
    if server.encrypt.isNone then
      feedStream server.sha1 outcomes.fed range.start data written
    else written

/-- A request up to the point where its chunk is stored; an error comes with the entry it
leaves. -/
def receiveChunk (outcomes : ChunkOutcomes) (request : ChunkRequest)
    (active : Option (TempFileEntry BlockId)) :
    Except (Option (TempFileEntry BlockId) × ChunkError)
      (ContentRange × TempFileEntry BlockId) :=
  match checkChunk server request with
  | .error error => .error (active, error)
  | .ok range =>
    match getOrCreate outcomes.admitted range.fileSize active with
    | .error error => .error (active, mapTempError error)
    | .ok entry =>
      if range.start = 0 ∧ outcomes.reserved = false then
        .error (some entry, .app .quotaExceeded)
      else
        match storeChunk server outcomes range request.data entry with
        | .error error => .error (some entry, mapTempError error)
        | .ok stored => .ok (range, stored)

def tryHandleChunked (outcomes : ChunkOutcomes) (request : ChunkRequest)
    (active : Option (TempFileEntry BlockId)) :
    Option (TempFileEntry BlockId) × Except ChunkError (ChunkResult BlockId) :=
  match receiveChunk server outcomes request active with
  | .error (kept, error) => (kept, .error error)
  | .ok (range, stored) =>
    if range.stop ≠ range.fileSize - 1 then (some stored, .ok .intermediate)
    else commitChunks server outcomes range.fileSize stored

def getUploadedBytes (active : Option (TempFileEntry BlockId)) : Option Nat :=
  active.map fun entry => entry.tmp.length

end Request

end Nanofile
