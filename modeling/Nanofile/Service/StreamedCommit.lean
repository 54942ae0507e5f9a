import Nanofile.Service.ResumableBytes
import Nanofile.Storage.BlockBackend

/-!
# Streamed commits

The blocks of chunks that come in order are written to the block store at once, and the
last request takes their ids instead of reading the temporary file again.  Whatever the
chunks were, what it takes is what the file would have been cut into.  The library is
not encrypted.
-/

set_option autoImplicit false

namespace Nanofile

open Nanofile.Lib

universe u

variable {fileSize : Nat}

section Streaming

variable {BlockId : Type u} [DecidableEq BlockId] (server : ChunkServer BlockId)

/-! ## Tracked writes -/

/-- What a run of tracked writes leaves: the store, the ids reported as new, and whether
every block was written. -/
structure BlockWrites (BlockId : Type u) where
  store : BlockStorage BlockId
  newIds : List BlockId
  done : Bool

/-- The blocks are written in order up to the first write that fails; `writable` says
which ones the disk takes. -/
def writeBlocks (writable : Nat → Bool) :
    Nat → List (List UInt8) → BlockStorage BlockId → BlockWrites BlockId
  | _, [], store => ⟨store, [], true⟩
  | count, block :: rest, store =>
    if writable count then
      let wrote := store.writeBlockWithIdTracked (server.sha1 block) block
      let below := writeBlocks writable (count + 1) rest wrote.1
      { below with
        newIds := (if wrote.2 then [server.sha1 block] else []) ++ below.newIds }
    else ⟨store, [], false⟩

/-- An entry with the `new_block_ids` of its stream.  The last two fields record what the
tracked writes of the upload have reported as new: those of the stream, and those of the
assembled file. -/
structure StreamedEntry (BlockId : Type u) where
  entry : TempFileEntry BlockId
  newBlockIds : List BlockId
  reported : List BlockId
  assembled : List BlockId

/-- The blocks a feed completes; none when the stream is broken or breaks. -/
def UploadStream.completed (stream : UploadStream BlockId) (offset : Nat) (data : List UInt8) :
    List (List UInt8) :=
  if stream.broken ∨ offset ≠ stream.nextOffset then []
  else ((stream.chunker.getD (.new .seafile)).feed data).2

/-- `feed_stream`: the new ids are kept only when every block of the feed was written. -/
def feedStored (writable : Nat → Bool) (offset : Nat) (data : List UInt8)
    (streamed : StreamedEntry BlockId) (store : BlockStorage BlockId) :
    StreamedEntry BlockId × BlockStorage BlockId :=
  let writes := writeBlocks server writable 0 (streamed.entry.stream.completed offset data) store
  (⟨feedStream server.sha1 writes.done offset data streamed.entry,
    streamed.newBlockIds ++ (if writes.done then writes.newIds else []),
    streamed.reported ++ writes.newIds, streamed.assembled⟩, writes.store)

def UploadStream.lastBlock (stream : UploadStream BlockId) (expectedSize : Nat) :
    List (List UInt8) :=
  if stream.broken ∨ stream.nextOffset ≠ stream.fileSize ∨ stream.fileSize ≠ expectedSize then []
  else
    match stream.chunker with
    | none => []
    | some chunker => if chunker.finish = [] then [] else [chunker.finish]

def allSized (store : BlockStorage BlockId) (streamedBlocks : List (BlockId × Nat)) : Bool :=
  streamedBlocks.all fun block => (store.blockSize block.1).toOption == some (block.2 : Int)

/-- What `take_streamed_blocks` leaves, and the ids, the size and the new ids it returns. -/
structure Taken (BlockId : Type u) where
  streamed : StreamedEntry BlockId
  store : BlockStorage BlockId
  result : Option (List BlockId × Nat × List BlockId)

def takeStored (writable : Bool) (expectedSize : Nat) (streamed : StreamedEntry BlockId)
    (store : BlockStorage BlockId) : Taken BlockId :=
  let stream := streamed.entry.stream
  let last := stream.lastBlock expectedSize
  let writes := writeBlocks server (fun _ => writable) 0 last store
  let intact := allSized writes.store (stream.streamedBlocks ++ last.map (recorded server.sha1))
  let taken := stream.take server.sha1 writes.done intact expectedSize
  let newBlockIds := streamed.newBlockIds ++ writes.newIds
  ⟨⟨{ streamed.entry with stream := taken.1 }, if taken.2.isSome then [] else newBlockIds,
      streamed.reported ++ writes.newIds, streamed.assembled⟩, writes.store,
    taken.2.map fun blocks => (blocks.1, blocks.2, newBlockIds)⟩

/-! ## Requests -/

/-- What a request meets: the caps and the quota, the writes of the stream, of its last
block and of the assembled file, and the commit. -/
structure StoreOutcomes where
  admitted : Bool
  reserved : Bool
  fed : Nat → Bool
  last : Bool
  assembled : Nat → Bool
  committed : Bool

/-- The upload to one path of a library, and the block store. -/
structure StreamSession (BlockId : Type u) where
  active : Option (StreamedEntry BlockId)
  store : BlockStorage BlockId

omit [DecidableEq BlockId] in
def openEntry (admitted : Bool) (fileSize : Nat) (active : Option (StreamedEntry BlockId)) :
    Except TempError (StreamedEntry BlockId) :=
  match active with
  | some streamed => .ok streamed
  | none => (getOrCreate admitted fileSize none).map fun entry => ⟨entry, [], [], []⟩

/-- `try_handle_chunked` up to the point where the chunk is stored and streamed. -/
def receiveStored (outcomes : StoreOutcomes) (request : ChunkRequest)
    (session : StreamSession BlockId) :
    StreamSession BlockId × Except ChunkError (ContentRange × StreamedEntry BlockId) :=
  match checkChunk server request with
  | .error error => (session, .error error)
  | .ok range =>
    match openEntry outcomes.admitted range.fileSize session.active with
    | .error error => (session, .error (mapTempError error))
    | .ok streamed =>
      let opened := { session with active := some streamed }
      if range.start = 0 ∧ outcomes.reserved = false then
        (opened, .error (.app .quotaExceeded))
      else
        match writeChunk range.start request.data (some streamed.entry) with
        | .error error => (opened, .error (mapTempError error))
        | .ok written =>
          let fed := feedStored server outcomes.fed range.start request.data
            { streamed with entry := written } session.store
          (⟨some fed.1, fed.2⟩, .ok (range, fed.1))

def fileBlocks (tmp : List UInt8) : List (List UInt8) :=
  Chunker.chunksOf .seafile (server.reader.pieces tmp)

def assembleStored (outcomes : StoreOutcomes) (fileSize : Nat) (blocks : List (List UInt8))
    (taken : Taken BlockId) : StreamSession BlockId :=
  -- Two blocks are written at a time, so a failure may leave out any of them.
  let written := (blocks.zipIdx.filter fun block => outcomes.assembled block.2).map Prod.fst
  let writes := writeBlocks server (fun _ => true) 0 written taken.store
  let kept := { taken.streamed with assembled := taken.streamed.assembled ++ writes.newIds }
  if written.length < blocks.length then ⟨some kept, writes.store⟩
  else if (blocks.map List.length).sum ≠ fileSize then ⟨none, writes.store⟩
  else ⟨if outcomes.committed then none else some kept, writes.store⟩

/-- The request with the last byte: the streamed blocks, or else those of the assembled
file.  The blocks an abort removes go one at a time, like those any other request removes. -/
def commitStored (outcomes : StoreOutcomes) (fileSize : Nat) (streamed : StreamedEntry BlockId)
    (store : BlockStorage BlockId) : StreamSession BlockId :=
  let taken := takeStored server outcomes.last fileSize streamed store
  match taken.result with
  | some _ => ⟨if outcomes.committed then none else some taken.streamed, taken.store⟩
  | none => assembleStored server outcomes fileSize (fileBlocks server streamed.entry.tmp) taken

def requestStored (outcomes : StoreOutcomes) (request : ChunkRequest)
    (session : StreamSession BlockId) : StreamSession BlockId :=
  match receiveStored server outcomes request session with
  | (after, .error _) => after
  | (after, .ok (range, streamed)) =>
    if range.stop ≠ range.fileSize - 1 then after
    else commitStored server outcomes range.fileSize streamed after.store

/-- A chunk request, the removal of an idle upload, and what else happens to the store:
another request writes or removes a block, a cached length goes, a file loses its end. -/
inductive StreamEvent (BlockId : Type u) where
  | request (outcomes : StoreOutcomes) (request : ChunkRequest)
  | cleanupStale
  | writeBlock (block : List UInt8)
  | removeBlock (id : BlockId)
  | forget (id : BlockId)
  | truncate (id : BlockId) (length : Nat)

def streamStep (session : StreamSession BlockId) :
    StreamEvent BlockId → Option (StreamSession BlockId)
  | .request outcomes request => some (requestStored server outcomes request session)
  | .cleanupStale => some { session with active := none }
  | .writeBlock block => some { session with
      store := (session.store.writeBlockWithIdTracked (server.sha1 block) block).1 }
  | .removeBlock id => some { session with store := session.store.removeBlock id }
  | .forget id => some { session with store := session.store.existsCacheRemove id }
  | .truncate id length => some { session with
      store := { session.store with
        files := Function.update session.store.files id
          ((session.store.files id).map (List.take length)) } }

def Sound (store : BlockStorage BlockId) : Prop :=
  ∀ id stored, store.files id = some stored → ∃ block, server.sha1 block = id ∧ stored <+: block

def streamSystem : System (StreamSession BlockId) (StreamEvent BlockId) where
  init session := session.active = none ∧ Sound server session.store
  step := streamStep server

/-! ## The store -/

variable {server} {store : BlockStorage BlockId} {after : BlockStorage BlockId}

omit [DecidableEq BlockId] in
theorem Sound.of_files (sound : Sound server store)
    (same : after.files = store.files) : Sound server after := by
  intro id stored found
  exact sound id stored (same ▸ found)

theorem Sound.put (sound : Sound server store) {id : BlockId} {stored : Option (List UInt8)}
    (starts : ∀ bytes, stored = some bytes → ∃ block, server.sha1 block = id ∧ bytes <+: block)
    (put : after.files = Function.update store.files id stored) :
    Sound server after := by
  intro other bytes found
  rw [put] at found
  by_cases same : other = id
  · rw [same, Function.update_self] at found
    rw [same]
    exact starts bytes found
  · rw [Function.update_of_ne same] at found
    exact sound other bytes found

theorem writeBlockWithIdTracked_files (store : BlockStorage BlockId) (id : BlockId) (data : List UInt8) :
    (store.writeBlockWithIdTracked id data).1.files = store.files ∨
      (store.writeBlockWithIdTracked id data).1.files =
        Function.update store.files id (some data) := by
  have stores : ∀ exclusive, (store.storeBlock id data exclusive).1.files = store.files ∨
      (store.storeBlock id data exclusive).1.files =
        Function.update store.files id (some data) := by
    intro exclusive
    unfold BlockStorage.storeBlock
    split
    · exact Or.inl rfl
    · exact Or.inr rfl
  unfold BlockStorage.writeBlockWithIdTracked
  split
  · exact Or.inl rfl
  · split
    · split
      · exact stores true
      · exact stores false
    · exact stores true

theorem Sound.write (sound : Sound server store) (block : List UInt8) :
    Sound server (store.writeBlockWithIdTracked (server.sha1 block) block).1 := by
  rcases writeBlockWithIdTracked_files store (server.sha1 block) block with same | put
  · exact sound.of_files same
  · refine sound.put (fun bytes isBytes => ?_) put
    cases isBytes
    exact ⟨block, rfl, List.prefix_rfl⟩

theorem Sound.writeBlocks (writable : Nat → Bool) : ∀ (blocks : List (List UInt8)) (count : Nat)
    {store : BlockStorage BlockId}, Sound server store →
      Sound server (writeBlocks server writable count blocks store).store := by
  intro blocks
  induction blocks with
  | nil => exact fun _ _ sound => sound
  | cons block rest ih =>
    intro count store sound
    rw [Nanofile.writeBlocks]
    split
    · exact ih _ (sound.write block)
    · exact sound

omit [DecidableEq BlockId] in
theorem Sound.whole (sound : Sound server store) (collisionFree : Function.Injective server.sha1)
    {block stored : List UInt8} (found : store.files (server.sha1 block) = some stored)
    (sized : stored.length = block.length) : stored = block := by
  obtain ⟨content, sameId, starts⟩ := sound _ _ found
  rw [collisionFree sameId] at starts
  exact starts.eq_of_length sized

variable {blocks : List (List UInt8)}

omit [DecidableEq BlockId] in
theorem allSized_files (sized : allSized store (blocks.map (recorded server.sha1)) = true)
    {block : List UInt8} (listed : block ∈ blocks) :
    ∃ stored, store.files (server.sha1 block) = some stored ∧ stored.length = block.length := by
  have here := List.all_eq_true.mp sized (recorded server.sha1 block) (List.mem_map_of_mem listed)
  simp only [recorded, BlockStorage.blockSize, BlockStorage.readBlock] at here
  cases found : store.files (server.sha1 block) with
  | none =>
    rw [found] at here
    cases here
  | some stored =>
    rw [found] at here
    simp only [Except.toOption, beq_iff_eq, Option.some.injEq, Int.natCast_inj] at here
    exact ⟨stored, rfl, here⟩

/-! ## The stream and the file -/

/-- A stream in order has cut the temporary file so far, and kept every new id. -/
structure CutSoFar (server : ChunkServer BlockId) (streamed : StreamedEntry BlockId) : Prop where
  length : streamed.entry.stream.nextOffset = streamed.entry.tmp.length
  settled : (streamed.entry.stream.chunker.getD (.new .seafile)).Settled
  blocks : ∃ blocks : List (List UInt8), streamed.entry.stream.blockIds = blocks.map server.sha1 ∧
    streamed.entry.stream.streamedBlocks = blocks.map (recorded server.sha1) ∧
    Chunker.Emits .seafile streamed.entry.tmp
      (streamed.entry.stream.chunker.getD (.new .seafile)).pending blocks
  new : streamed.newBlockIds = streamed.reported

def CompleteEntry (server : ChunkServer BlockId) (streamed : StreamedEntry BlockId) : Prop :=
  streamed.entry.stream.broken = false → CutSoFar server streamed

omit [DecidableEq BlockId] in
theorem completeEntry_newEntry (fileSize : Nat) :
    CompleteEntry server ⟨newEntry fileSize, [], [], []⟩ :=
  fun _ => ⟨rfl, Chunker.settled_new _, ⟨[], rfl, rfl, .refl _⟩, rfl⟩

variable {streamed : StreamedEntry BlockId}

omit [DecidableEq BlockId] in
theorem openEntry_ok {admitted : Bool} {active : Option (StreamedEntry BlockId)}
    (ok : ∀ found, active = some found → CompleteEntry server found)
    (opened : openEntry admitted fileSize active = .ok streamed) :
    CompleteEntry server streamed := by
  cases active with
  | some found =>
    cases opened
    exact ok _ rfl
  | none =>
    cases admitted with
    | true =>
      cases opened
      exact completeEntry_newEntry fileSize
    | false => cases opened

variable {stream : UploadStream BlockId}

omit [DecidableEq BlockId] in
theorem feed_intact {stored : Bool} {offset : Nat} {data : List UInt8}
    (written : stream.completed offset data = [] → stored = true)
    (intact : (stream.feed server.sha1 stored offset data).broken = false) :
    stream.broken = false ∧ offset = stream.nextOffset ∧ stored = true ∧
      stream.completed offset data = ((stream.chunker.getD (.new .seafile)).feed data).2 := by
  unfold UploadStream.feed at intact
  unfold UploadStream.completed at written ⊢
  by_cases refused : stream.broken = true ∨ offset ≠ stream.nextOffset
  · rw [if_pos refused] at intact
    cases intact
  · rw [if_neg refused] at intact written ⊢
    push Not at refused
    refine ⟨by simpa using refused.1, refused.2, ?_, rfl⟩
    by_contra failed
    have some : ((stream.chunker.getD (.new .seafile)).feed data).2 ≠ [] :=
      fun none => failed (written none)
    rw [if_neg (by simp [failed, some])] at intact
    cases intact

theorem completeEntry_feedStored (writable : Nat → Bool) (offset : Nat) (data : List UInt8)
    (store : BlockStorage BlockId) (ok : CompleteEntry server streamed) :
    CompleteEntry server (feedStored server writable offset data
      { streamed with entry :=
        { streamed.entry with tmp := writeAt streamed.entry.tmp ⟨offset, data⟩ } } store).1 := by
  intro intact
  have written : streamed.entry.stream.completed offset data = [] →
      (writeBlocks server writable 0 (streamed.entry.stream.completed offset data) store).done =
        true := by
    intro none
    rw [none]
    rfl
  obtain ⟨unbroken, inOrder, done, completed⟩ := feed_intact written intact
  obtain ⟨length, settled, ⟨blocks, ids, records, emits⟩, new⟩ := ok unbroken
  obtain ⟨settledAfter, emitsAfter⟩ := Chunker.feed_spec _ data settled
  have appended : writeAt streamed.entry.tmp ⟨offset, data⟩ = streamed.entry.tmp ++ data := by
    rw [inOrder, length]
    exact writeAt_length _ data
  have fed : streamed.entry.stream.feed server.sha1 true offset data =
      { streamed.entry.stream with
        chunker := some ((streamed.entry.stream.chunker.getD (.new .seafile)).feed data).1
        nextOffset := streamed.entry.stream.nextOffset + data.length
        blockIds := streamed.entry.stream.blockIds ++
          ((streamed.entry.stream.chunker.getD (.new .seafile)).feed data).2.map server.sha1
        streamedBlocks := streamed.entry.stream.streamedBlocks ++
          ((streamed.entry.stream.chunker.getD (.new .seafile)).feed data).2.map
            (recorded server.sha1) } := by
    rw [UploadStream.feed, if_neg (by simp [unbroken, inOrder]), if_pos (Or.inl rfl)]
  simp only [feedStored, feedStream, done, fed, if_true]
  refine ⟨?_, settledAfter, ⟨_, ?_, ?_, appended ▸ emits.append emitsAfter⟩, ?_⟩
  · simp only [appended, List.length_append, length]
  · simp only [ids, List.map_append]
  · simp only [records, List.map_append]
  · simp only [new]

variable {expectedSize : Nat}

omit [DecidableEq BlockId] in
theorem take_intact {stored intact : Bool}
    (unbroken : (stream.take server.sha1 stored intact expectedSize).1.broken = false) :
    stream.take server.sha1 stored intact expectedSize = (stream, none) ∧
      stream.lastBlock expectedSize = [] := by
  unfold UploadStream.take at unbroken ⊢
  unfold UploadStream.lastBlock
  by_cases refused : stream.broken = true ∨ stream.nextOffset ≠ stream.fileSize ∨
      stream.fileSize ≠ expectedSize
  · rw [if_pos refused, if_pos refused]
    exact ⟨rfl, rfl⟩
  · rw [if_neg refused] at unbroken ⊢
    rw [if_neg refused]
    cases chunker : stream.chunker with
    | none => exact ⟨rfl, rfl⟩
    | some current =>
      simp only [chunker] at unbroken
      split at unbroken
      · cases unbroken
      · split at unbroken
        · cases unbroken
        · cases unbroken

theorem completeEntry_takeStored {writable : Bool} (ok : CompleteEntry server streamed) :
    CompleteEntry server (takeStored server writable expectedSize streamed store).streamed := by
  intro unbroken
  obtain ⟨same, none⟩ := take_intact unbroken
  simp only [takeStored, none, List.map_nil] at same unbroken ⊢
  rw [same] at unbroken ⊢
  obtain ⟨length, settled, blocks, new⟩ := ok unbroken
  exact ⟨length, settled, blocks, by simp [writeBlocks, new]⟩

/-! ## Runs -/

structure StreamSessionOk (server : ChunkServer BlockId) (session : StreamSession BlockId) :
    Prop where
  sound : Sound server session.store
  active : ∀ streamed, session.active = some streamed → CompleteEntry server streamed

variable {session : StreamSession BlockId}

theorem receiveStored_ok (outcomes : StoreOutcomes) (request : ChunkRequest)
    (sessionOk : StreamSessionOk server session) :
    StreamSessionOk server (receiveStored server outcomes request session).1 ∧
      ∀ range streamed, (receiveStored server outcomes request session).2 = .ok (range, streamed) →
        CompleteEntry server streamed := by
  unfold receiveStored
  split
  · exact ⟨sessionOk, fun _ _ failed => by cases failed⟩
  · rename_i range checked
    split
    · exact ⟨sessionOk, fun _ _ failed => by cases failed⟩
    · rename_i streamed opens
      have opened := openEntry_ok sessionOk.active opens
      have openedOk : StreamSessionOk server { session with active := some streamed } :=
        ⟨sessionOk.sound, fun found isFound => Option.some.inj isFound ▸ opened⟩
      dsimp only
      split
      · exact ⟨openedOk, fun _ _ failed => by cases failed⟩
      · split
        · exact ⟨openedOk, fun _ _ failed => by cases failed⟩
        · rename_i written writes
          unfold writeChunk at writes
          dsimp only at writes
          split at writes
          · cases writes
          · cases writes
            have fed := completeEntry_feedStored outcomes.fed range.start request.data
              session.store opened
            refine ⟨⟨sessionOk.sound.writeBlocks _ _ _, fun found isFound => ?_⟩,
              fun range' found isFound => ?_⟩
            · exact Option.some.inj isFound ▸ fed
            · cases isFound
              exact fed

theorem assembleStored_ok {outcomes : StoreOutcomes} {taken : Taken BlockId}
    (ok : CompleteEntry server taken.streamed) (sound : Sound server taken.store) :
    StreamSessionOk server (assembleStored server outcomes fileSize blocks taken) := by
  have kept : ∀ assembled,
      CompleteEntry server { taken.streamed with assembled := assembled } := fun _ unbroken =>
    ⟨(ok unbroken).length, (ok unbroken).settled, (ok unbroken).blocks, (ok unbroken).new⟩
  unfold assembleStored
  dsimp only
  split
  · exact ⟨sound.writeBlocks _ _ _, fun found isFound => Option.some.inj isFound ▸ kept _⟩
  · split
    · exact ⟨sound.writeBlocks _ _ _, fun found isFound => by cases isFound⟩
    · refine ⟨sound.writeBlocks _ _ _, fun found isFound => ?_⟩
      split at isFound
      · cases isFound
      · exact Option.some.inj isFound ▸ kept _

theorem commitStored_ok {outcomes : StoreOutcomes} (ok : CompleteEntry server streamed)
    (sound : Sound server store) :
    StreamSessionOk server (commitStored server outcomes fileSize streamed store) := by
  have taken : CompleteEntry server
      (takeStored server outcomes.last fileSize streamed store).streamed := completeEntry_takeStored ok
  have takenSound : Sound server (takeStored server outcomes.last fileSize streamed store).store :=
    sound.writeBlocks _ _ _
  unfold commitStored
  dsimp only
  split
  · refine ⟨takenSound, fun found isFound => ?_⟩
    split at isFound
    · cases isFound
    · exact Option.some.inj isFound ▸ taken
  · exact assembleStored_ok taken takenSound

theorem streamSessionOk_step {next : StreamSession BlockId} {event : StreamEvent BlockId}
    (sessionOk : StreamSessionOk server session)
    (stepped : streamStep server session event = some next) : StreamSessionOk server next := by
  obtain ⟨sound, active⟩ := sessionOk
  cases event with
  | request outcomes request =>
    cases stepped
    obtain ⟨after, stored⟩ := receiveStored_ok outcomes request
      ⟨sound, active⟩
    unfold requestStored
    split
    · rename_i session' error received
      rw [received] at after
      exact after
    · rename_i session' range streamed received
      rw [received] at after stored
      split
      · exact after
      · exact commitStored_ok (stored range streamed rfl) after.sound
  | cleanupStale =>
    cases stepped
    exact ⟨sound, fun found isFound => by cases isFound⟩
  | writeBlock block =>
    cases stepped
    exact ⟨sound.write block, active⟩
  | removeBlock id =>
    cases stepped
    exact ⟨sound.put (fun bytes (isBytes : none = some bytes) => by cases isBytes) rfl, active⟩
  | forget id =>
    cases stepped
    exact ⟨sound.of_files rfl, active⟩
  | truncate id length =>
    cases stepped
    refine ⟨sound.put (fun bytes isBytes => ?_) rfl, active⟩
    obtain ⟨stored, found, rfl⟩ := Option.map_eq_some_iff.mp isBytes
    obtain ⟨block, sameId, starts⟩ := sound id stored found
    exact ⟨block, sameId, (List.take_prefix length stored).trans starts⟩

theorem streamSessionOk_reached
    (reached : (streamSystem server).Reachable (fun _ _ => True) session) :
    StreamSessionOk server session := by
  refine System.reachable_invariant ?_ ?_ reached
  · rintro start ⟨idle, sound⟩
    exact ⟨sound, fun found isFound => by rw [idle] at isFound; cases isFound⟩
  · intro before after event sessionOk _ stepped
    exact streamSessionOk_step sessionOk stepped

/-! ## The commit -/

/-- What the last request takes is what `write_stream_blocks` computes from the temporary
file, and every block of it is in the store. -/
structure AgreesWithFile (server : ChunkServer BlockId) (tmp : List UInt8)
    (store : BlockStorage BlockId) (blockIds : List BlockId) (size : Nat) : Prop where
  ids : blockIds = (writeStreamBlocks server.blockIdOf (server.reader.pieces tmp)).1
  size : size = tmp.length
  stored : ∀ block ∈ fileBlocks server tmp, store.files (server.sha1 block) = some block

section

omit [DecidableEq BlockId]

theorem CutSoFar.fileBlocks (server : ChunkServer BlockId) {chunker : Chunker .seafile}
    (current : streamed.entry.stream.chunker = some chunker)
    (emits : Chunker.Emits .seafile streamed.entry.tmp
      (streamed.entry.stream.chunker.getD (.new .seafile)).pending blocks)
    (settled : (streamed.entry.stream.chunker.getD (.new .seafile)).Settled) :
    fileBlocks server streamed.entry.tmp =
      blocks ++ if chunker.finish = [] then [] else [chunker.finish] := by
  rw [current, Option.getD_some] at emits settled
  have last := settled.finish_cuts
  rw [← List.append_nil chunker.pending] at last
  have cuts := emits [] _ last
  have whole := chunksOf_cuts .seafile (server.reader.pieces streamed.entry.tmp)
  rw [server.reader.flatten_pieces] at whole
  rw [List.append_nil] at cuts
  exact whole.unique cuts

theorem take_some {stored intact : Bool} {size : Nat} {blockIds : List BlockId}
    (took : (stream.take server.sha1 stored intact expectedSize).2 = some (blockIds, size)) :
    stream.broken = false ∧ stream.nextOffset = stream.fileSize ∧ size = stream.fileSize ∧
      intact = true ∧ ∃ chunker, stream.chunker = some chunker ∧
        blockIds = stream.blockIds ++ (stream.lastBlock expectedSize).map server.sha1 ∧
        stream.lastBlock expectedSize = if chunker.finish = [] then [] else [chunker.finish] := by
  unfold UploadStream.take at took
  unfold UploadStream.lastBlock
  by_cases refused : stream.broken = true ∨ stream.nextOffset ≠ stream.fileSize ∨
      stream.fileSize ≠ expectedSize
  · rw [if_pos refused] at took
    cases took
  · rw [if_neg refused] at took
    rw [if_neg refused]
    push Not at refused
    cases chunker : stream.chunker with
    | none => simp [chunker] at took
    | some current =>
      simp only [chunker] at took
      split at took
      · cases took
      · split at took
        · cases took
        · rename_i covered
          push Not at covered
          simp only [Option.some.injEq, Prod.mk.injEq] at took
          refine ⟨by simpa using refused.1, refused.2.1, took.2.symm, by simpa using covered.2,
            current, rfl, ?_, rfl⟩
          rw [← took.1, UploadStream.close]
          by_cases empty : current.finish = [] <;> simp [empty]

end

theorem takeStored_agrees {writable : Bool} {size : Nat} {blockIds newIds : List BlockId}
    (ok : CompleteEntry server streamed) (sound : Sound server store)
    (collisionFree : Function.Injective server.sha1) (plain : server.encrypt = none)
    (took : (takeStored server writable expectedSize streamed store).result =
      some (blockIds, size, newIds)) :
    AgreesWithFile server streamed.entry.tmp
        (takeStored server writable expectedSize streamed store).store blockIds size ∧
      newIds = (takeStored server writable expectedSize streamed store).streamed.reported := by
  obtain ⟨⟨ids, total⟩, taken, isResult⟩ := Option.map_eq_some_iff.mp took
  obtain ⟨rfl, rfl, rfl⟩ : ids = blockIds ∧ total = size ∧ _ = newIds := by simpa using isResult
  obtain ⟨unbroken, covered, isSize, intact, chunker, current, isIds, last⟩ := take_some taken
  obtain ⟨length, settled, ⟨blocks, soFar, records, emits⟩, new⟩ := ok unbroken
  have whole := CutSoFar.fileBlocks server current emits settled
  rw [← last] at whole
  refine ⟨⟨?_, by rw [isSize, ← covered, length], fun block listed => ?_⟩, ?_⟩
  · have sameId : server.blockIdOf = server.sha1 := by
      funext block
      rw [ChunkServer.blockIdOf, plain]
    change ids = (fileBlocks server streamed.entry.tmp).map server.blockIdOf
    rw [isIds, soFar, whole, sameId, List.map_append]
  · rw [records, ← List.map_append, ← whole] at intact
    obtain ⟨stored, found, sized⟩ := allSized_files intact listed
    have soundAfter := sound.writeBlocks (fun _ => writable)
      (streamed.entry.stream.lastBlock expectedSize) 0
    exact found.trans (congrArg some (soundAfter.whole collisionFree found sized))
  · simp only [takeStored, new]

/-- What a last request takes is what the temporary file would have been cut into, whole in
the store, with the ids that the writes of its stream have reported as new. -/
theorem streamed_commit_agrees (collisionFree : Function.Injective server.sha1)
    (plain : server.encrypt = none) {session next : StreamSession BlockId}
    (reached : (streamSystem server).Reachable (fun _ _ => True) session)
    {outcomes : StoreOutcomes} {request : ChunkRequest} {range : ContentRange}
    {streamed : StreamedEntry BlockId}
    (received : receiveStored server outcomes request session = (next, .ok (range, streamed)))
    {blockIds newIds : List BlockId} {size : Nat}
    (took : (takeStored server outcomes.last range.fileSize streamed next.store).result =
      some (blockIds, size, newIds)) :
    AgreesWithFile server streamed.entry.tmp
        (takeStored server outcomes.last range.fileSize streamed next.store).store blockIds size ∧
      newIds =
        (takeStored server outcomes.last range.fileSize streamed next.store).streamed.reported := by
  obtain ⟨after, stored⟩ := receiveStored_ok outcomes request
    (streamSessionOk_reached reached)
  rw [received] at after stored
  exact takeStored_agrees (stored range streamed rfl) after.sound collisionFree plain took

end Streaming

/-! ## Short uploads -/

def shortUpload (tmp : List UInt8) (fileSize : Nat) (assembled : List (List UInt8)) :
    StreamedEntry (List UInt8) :=
  ⟨⟨tmp, fileSize, ⟨if tmp = [] then none else some ⟨tmp, 0#64, 0, false⟩, tmp.length, [], [],
    fileSize, false⟩⟩, [], [], assembled⟩

theorem receiveStored_short (outcomes : StoreOutcomes) {request : ChunkRequest}
    {active : Option (StreamedEntry (List UInt8))} (store : BlockStorage (List UInt8))
    (tmp : List UInt8) {stop total : Nat} {assembled : List (List UInt8)}
    (checked : checkChunk plainServer request = .ok ⟨tmp.length, stop, total⟩)
    (opened : openEntry outcomes.admitted total active = .ok (shortUpload tmp fileSize assembled))
    (reserved : outcomes.reserved = true) (nonempty : request.data ≠ [])
    (fits : tmp.length + request.data.length ≤ fileSize)
    (short : (tmp ++ request.data).length ≤ ChunkSizes.seafile.min) :
    receiveStored plainServer outcomes request ⟨active, store⟩ =
      (⟨some (shortUpload (tmp ++ request.data) fileSize assembled), store⟩,
        .ok (⟨tmp.length, stop, total⟩, shortUpload (tmp ++ request.data) fileSize assembled)) := by
  have fed := Chunker.feed_short (rfl : (⟨tmp, 0#64, 0, false⟩ : Chunker .seafile).probing = false) short
  have current : ((if tmp = [] then none else some ⟨tmp, 0#64, 0, false⟩).getD
      (Chunker.new .seafile)) = ⟨tmp, 0#64, 0, false⟩ := by
    by_cases empty : tmp = [] <;> simp [empty, Chunker.new]
  have written : writeChunk tmp.length request.data
      (some (shortUpload tmp fileSize assembled).entry) =
        .ok { (shortUpload tmp fileSize assembled).entry with tmp := tmp ++ request.data } := by
    rw [shortUpload, writeChunk, if_neg (Nat.not_lt.mpr fits), writeAt_length]
  simp only [receiveStored, checked, opened, reserved, written]
  simp [feedStored, feedStream, shortUpload, UploadStream.completed, UploadStream.feed, current,
    fed, writeBlocks, nonempty]

def allStored : StoreOutcomes := ⟨true, true, fun _ => true, true, fun _ => true, true⟩

theorem checkChunk_plain {header : String} {data : List UInt8} {range : ContentRange}
    (parsed : parseContentRange header = .ok range)
    (whole : data.length = range.stop - range.start + 1) :
    checkChunk plainServer ⟨header, data⟩ = .ok range := by
  simp [checkChunk, parsed, plainServer, whole]

/-- The first two of five bytes are there. -/
theorem reachable_firstBytes : (streamSystem plainServer).Reachable (fun _ _ => True)
    ⟨some (shortUpload [1, 2] 5 []), .empty⟩ := by
  have checked : checkChunk plainServer ⟨"bytes 0-1/5", [1, 2]⟩ = .ok ⟨0, 1, 5⟩ :=
    checkChunk_plain (by decide +kernel) rfl
  have received := receiveStored_short allStored .empty [] checked
    (rfl : openEntry true 5 none = .ok (shortUpload [] 5 [])) rfl (by decide) (by decide) (by decide)
  have taken : (streamSystem plainServer).step ⟨none, .empty⟩
      (.request allStored ⟨"bytes 0-1/5", [1, 2]⟩) =
        some ⟨some (shortUpload [1, 2] 5 []), .empty⟩ := by
    change some (requestStored plainServer _ _ _) = _
    rw [requestStored, received]
    rfl
  exact .step (.init ⟨rfl, fun id stored found => by cases found⟩) trivial taken

theorem streamed_commit_agrees_in_two :
    AgreesWithFile plainServer [1, 2, 3, 4, 5]
        (takeStored plainServer true 5 (shortUpload [1, 2, 3, 4, 5] 5 []) .empty).store
        [[1, 2, 3, 4, 5]] 5 ∧
      [[1, 2, 3, 4, 5]] = (takeStored plainServer true 5
        (shortUpload [1, 2, 3, 4, 5] 5 []) .empty).streamed.reported := by
  have checked : checkChunk plainServer ⟨"bytes 2-4/5", [3, 4, 5]⟩ = .ok ⟨2, 4, 5⟩ :=
    checkChunk_plain (by decide +kernel) rfl
  have took : (takeStored plainServer true 5 (shortUpload [1, 2, 3, 4, 5] 5 []) .empty).result =
      some ([[1, 2, 3, 4, 5]], 5, [[1, 2, 3, 4, 5]]) := by decide
  have received := receiveStored_short allStored .empty [1, 2] checked
    (rfl : openEntry true 5 (some (shortUpload [1, 2] 5 [])) = .ok (shortUpload [1, 2] 5 [])) rfl
    (by decide) (by decide) (by decide)
  exact streamed_commit_agrees Function.injective_id rfl reachable_firstBytes received took

/-- The new ids are all that the tracked writes of the upload have reported as new. -/
def StreamedEntry.AllReported {BlockId : Type u} (streamed : StreamedEntry BlockId)
    (newIds : List BlockId) : Prop :=
  ∀ id, id ∈ newIds ↔ id ∈ streamed.reported ∨ id ∈ streamed.assembled

/-- A chunk that declares another size ends the file early.  Its commit fails once the
assembled file is written, and what that write has reported is not taken later. -/
theorem streamed_commit_omits_assembled : ∃ (session next : StreamSession (List UInt8))
    (streamed : StreamedEntry (List UInt8)) (request : ChunkRequest) (range : ContentRange)
    (newIds : List (List UInt8)),
    (streamSystem plainServer).Reachable (fun _ _ => True) session ∧
      receiveStored plainServer allStored request session = (next, .ok (range, streamed)) ∧
      range.stop = range.fileSize - 1 ∧
      (takeStored plainServer true range.fileSize streamed next.store).result =
        some ([[1, 2, 3, 4, 5]], 5, newIds) ∧
      ¬ (takeStored plainServer true range.fileSize streamed next.store).streamed.AllReported
        newIds := by
  have checked₁ : checkChunk plainServer ⟨"bytes 2-2/3", [3]⟩ = .ok ⟨2, 2, 3⟩ :=
    checkChunk_plain (by decide +kernel) rfl
  have checked₂ : checkChunk plainServer ⟨"bytes 3-4/5", [4, 5]⟩ = .ok ⟨3, 4, 5⟩ :=
    checkChunk_plain (by decide +kernel) rfl
  have received₁ := receiveStored_short { allStored with committed := false } .empty [1, 2] checked₁
    (rfl : openEntry true 3 (some (shortUpload [1, 2] 5 [])) = .ok (shortUpload [1, 2] 5 [])) rfl
    (by decide) (by decide) (by decide)
  let wrote := writeBlocks plainServer (fun _ => true) 0 [[1, 2, 3]] .empty
  have received₂ := receiveStored_short allStored wrote.store [1, 2, 3] checked₂
    (rfl : openEntry true 5 (some (shortUpload [1, 2, 3] 5 [[1, 2, 3]])) =
      .ok (shortUpload [1, 2, 3] 5 [[1, 2, 3]])) rfl (by decide) (by decide) (by decide)
  have second : (streamSystem plainServer).step ⟨some (shortUpload [1, 2] 5 []), .empty⟩
      (.request { allStored with committed := false } ⟨"bytes 2-2/3", [3]⟩) =
        some ⟨some (shortUpload [1, 2, 3] 5 [[1, 2, 3]]), wrote.store⟩ := by
    have cut : fileBlocks plainServer [1, 2, 3] = [[1, 2, 3]] :=
      chunksOf_short (by decide) (by decide)
    change some (requestStored plainServer _ _ _) = _
    rw [requestStored, received₁]
    change some (assembleStored plainServer _ 3 (fileBlocks plainServer [1, 2, 3]) _) = _
    rw [cut]
    rfl
  refine ⟨⟨some (shortUpload [1, 2, 3] 5 [[1, 2, 3]]), wrote.store⟩, _, _, _, _,
    [[1, 2, 3, 4, 5]], .step reachable_firstBytes trivial second, received₂, rfl, by decide,
    fun all => ?_⟩
  exact absurd ((all [1, 2, 3]).mpr (Or.inr (by decide))) (by decide)

end Nanofile
