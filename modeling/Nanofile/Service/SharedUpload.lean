import Nanofile.Service.ResumableBytes

/-!
# Clients that upload to one path

The entry of a resumable upload is found by library and path alone, so all clients that
send a file to the same path work on one temporary file and one stream.  Every client
sends the chunks of its file in order, and the locks are free between the steps of a
request.
-/

set_option autoImplicit false

namespace Nanofile

open Nanofile.Lib

universe u

inductive ChunkPc (BlockId : Type u) where
  | getOrCreate
  | writeChunk
  | feedStream
  | takeStreamedBlocks
  | readStream
  | commit (blockIds : List BlockId)
  | finish
  | abort

/-- A client with its file in chunks, the number of requests it has finished and the step
the current one is at. -/
structure UploadClient (BlockId : Type u) where
  chunks : List (List UInt8)
  sent : Nat
  pc : ChunkPc BlockId

structure SharedEntry (BlockId : Type u) where
  entry : TempFileEntry BlockId
  creator : Nat

/-- `committed` lists the blocks of every file that was committed. -/
structure SharedUpload (BlockId : Type u) where
  active : Option (SharedEntry BlockId)
  clients : List (UploadClient BlockId)
  committed : List (List BlockId)

inductive SharedEvent where
  | begin (chunks : List (List UInt8))
  | advance (index : Nat) (outcomes : ChunkOutcomes)

namespace UploadClient

variable {BlockId : Type u} (client : UploadClient BlockId)

def file : List UInt8 := client.chunks.flatten

def data : List UInt8 := client.chunks[client.sent]?.getD []

def range : ContentRange where
  start := (client.chunks.take client.sent).flatten.length
  stop := (client.chunks.take client.sent).flatten.length + client.data.length - 1
  fileSize := client.file.length

def goto (pc : ChunkPc BlockId) : UploadClient BlockId := { client with pc := pc }

def endRequest : UploadClient BlockId :=
  { client with sent := client.sent + 1, pc := .getOrCreate }

/-- Only the request with the last byte goes on once its chunk is stored. -/
def afterChunk : UploadClient BlockId :=
  if client.range.stop ≠ client.range.fileSize - 1 then client.endRequest
  else client.goto .takeStreamedBlocks

end UploadClient

section Steps

variable {BlockId : Type u} (server : ChunkServer BlockId)

def ChunkLimits.Admits (limits : ChunkLimits) (range : ContentRange) : Prop :=
  ¬ (0 < limits.maxChunkBytes ∧ limits.maxChunkBytes < range.stop - range.start + 1) ∧
    ¬ (0 < limits.maxBytes ∧ limits.maxBytes < range.fileSize)

instance (limits : ChunkLimits) (range : ContentRange) : Decidable (limits.Admits range) :=
  inferInstanceAs (Decidable (_ ∧ _))

def advanceClient (outcomes : ChunkOutcomes) (index : Nat)
    (active : Option (SharedEntry BlockId)) (client : UploadClient BlockId) :
    Option (SharedEntry BlockId) × UploadClient BlockId :=
  match client.pc with
  | .getOrCreate =>
    if ¬ server.limits.Admits client.range then (active, client.endRequest)
    else
      match getOrCreate outcomes.admitted client.range.fileSize
        (active.map SharedEntry.entry) with
      | .error _ => (active, client.endRequest)
      | .ok entry =>
        (active.or (some ⟨entry, index⟩),
          if client.range.start = 0 ∧ outcomes.reserved = false then client.endRequest
          else client.goto .writeChunk)
  | .writeChunk =>
    match writeChunk client.range.start client.data (active.map SharedEntry.entry) with
    | .error _ => (active, client.endRequest)
    | .ok entry =>
      (active.map fun shared => { shared with entry := entry },
        if server.encrypt.isNone then client.goto .feedStream else client.afterChunk)
  | .feedStream =>
    (active.map fun shared =>
      { shared with
        entry := feedStream server.sha1 outcomes.fed client.range.start client.data
          shared.entry }, client.afterChunk)
  | .takeStreamedBlocks =>
    match active with
    | none => (none, client.goto .readStream)
    | some shared =>
      let taken := shared.entry.stream.take server.sha1 outcomes.tailStored outcomes.intact
        client.range.fileSize
      (some { shared with entry := { shared.entry with stream := taken.1 } },
        match taken.2 with
        | none => client.goto .readStream
        | some streamed => client.goto (.commit streamed.1))
  | .readStream =>
    match active with
    | none => (none, client.goto .abort)
    | some shared =>
      let written := writeStreamBlocks server.blockIdOf
        (server.reader.pieces shared.entry.tmp)
      (some shared,
        if outcomes.assembled = false then client.endRequest
        else if written.2 ≠ client.range.fileSize then client.goto .abort
        else client.goto (.commit written.1))
  | .commit _ =>
    (active, if outcomes.committed then client.goto .finish else client.endRequest)
  | .finish => (none, client.endRequest)
  | .abort => (none, client.endRequest)

def committedBy (outcomes : ChunkOutcomes) (client : UploadClient BlockId) :
    List (List BlockId) :=
  match client.pc with
  | .commit blockIds => if outcomes.committed then [blockIds] else []
  | _ => []

def sharedStep (state : SharedUpload BlockId) : SharedEvent → Option (SharedUpload BlockId)
  | .begin chunks =>
    if [] ∈ chunks then none
    else some { state with clients := state.clients ++ [⟨chunks, 0, .getOrCreate⟩] }
  | .advance index outcomes =>
    match state.clients[index]? with
    | none => none
    | some client =>
      if client.sent < client.chunks.length then
        let after := advanceClient server outcomes index state.active client
        some ⟨after.1, state.clients.set index after.2,
          state.committed ++ committedBy outcomes client⟩
      else none

def sharedSystem : System (SharedUpload BlockId) SharedEvent where
  init state := state = ⟨none, [], []⟩
  step := sharedStep server

end Steps

section Ownership

variable {BlockId : Type u}

def UploadClient.UsesEntry (client : UploadClient BlockId) : Prop :=
  match client.pc with
  | .writeChunk | .feedStream | .takeStreamedBlocks | .readStream => True
  | _ => False

/-- A step that uses an entry finds the one of its own client, and a chunk starts no later
than what the temporary file holds. -/
def OwnEntry (state : SharedUpload BlockId) : SharedEvent → Prop
  | .begin _ => True
  | .advance index _ => ∀ client shared, state.clients[index]? = some client →
      state.active = some shared → client.UsesEntry →
        shared.creator = index ∧ client.range.start ≤ shared.entry.tmp.length

end Ownership

end Nanofile
