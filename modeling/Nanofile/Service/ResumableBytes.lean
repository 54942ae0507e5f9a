import Nanofile.Lib.System
import Nanofile.Service.ResumableUpload

/-!
# The bytes a resumable upload commits

While chunks come in order the stream has the bytes of the temporary file, so both
commit paths commit those.  They are the bytes carried last as long as no chunk starts
beyond the end of the temporary file.
-/

set_option autoImplicit false

namespace Nanofile

open Nanofile.Lib

universe u

section Bytes

variable {BlockId : Type u} {server : ChunkServer BlockId}

def IsFileOf (server : ChunkServer BlockId) (ids : List BlockId) (bytes : List UInt8) : Prop :=
  ∃ blocks : List (List UInt8), ids = blocks.map server.blockIdOf ∧ blocks.flatten = bytes

/-! ## The stream -/

/-- A stream in order has cut the bytes of the temporary file so far. -/
structure Streamed (server : ChunkServer BlockId) (stream : UploadStream BlockId)
    (tmp : List UInt8) : Prop where
  length : stream.nextOffset = tmp.length
  settled : (stream.chunker.getD (.new .seafile)).Settled
  blocks : ∃ blocks : List (List UInt8), stream.blockIds = blocks.map server.sha1 ∧
    stream.streamedBlocks = blocks.map (recorded server.sha1) ∧
    blocks.flatten ++ (stream.chunker.getD (.new .seafile)).pending = tmp

/-- What the stream of an entry holds; an encrypted library never feeds it. -/
structure StreamOk (server : ChunkServer BlockId) (entry : TempFileEntry BlockId) : Prop where
  unfed : server.encrypt.isSome → entry.stream.chunker = none
  streamed : entry.stream.broken = false → server.encrypt = none →
    Streamed server entry.stream entry.tmp

theorem streamOk_newEntry (fileSize : Nat) : StreamOk server (newEntry fileSize) :=
  ⟨fun _ => rfl, fun _ _ => ⟨rfl, Chunker.settled_new _, [], rfl, rfl, rfl⟩⟩

variable {entry : TempFileEntry BlockId}

theorem streamOk_of_broken (unfed : server.encrypt.isSome → entry.stream.chunker = none)
    (broken : entry.stream.broken = true) : StreamOk server entry :=
  ⟨unfed, fun intact => by rw [broken] at intact; simp at intact⟩

variable {data : List UInt8} {stream : UploadStream BlockId}

theorem feed_inOrder {stored : Bool} {offset : Nat}
    (intact : (stream.feed server.sha1 stored offset data).broken = false) :
    stream.broken = false ∧ offset = stream.nextOffset := by
  unfold UploadStream.feed at intact
  by_cases inOrder : stream.broken ∨ offset ≠ stream.nextOffset
  · rw [if_pos inOrder] at intact
    simp at intact
  · push Not at inOrder
    exact ⟨by simpa using inOrder.1, inOrder.2⟩

theorem streamed_feed {tmp : List UInt8}
    (streamed : stream.broken = false → Streamed server stream tmp) (stored : Bool)
    (offset : Nat) (data : List UInt8)
    (intact : (stream.feed server.sha1 stored offset data).broken = false) :
    Streamed server (stream.feed server.sha1 stored offset data)
      (writeAt tmp ⟨offset, data⟩) := by
  unfold UploadStream.feed at intact ⊢
  by_cases inOrder : stream.broken ∨ offset ≠ stream.nextOffset
  · rw [if_pos inOrder] at intact
    simp at intact
  · rw [if_neg inOrder] at intact ⊢
    push Not at inOrder
    by_cases written : stored = true ∨ ((stream.chunker.getD (.new .seafile)).feed data).2 = []
    · obtain ⟨length, settled, blocks, ids, records, whole⟩ :=
        streamed (by simpa using inOrder.1)
      have fed := Chunker.feed_flatten settled data
      obtain ⟨settledAfter, -⟩ := Chunker.feed_spec _ data settled
      have appended : writeAt tmp ⟨offset, data⟩ = tmp ++ data := by
        rw [inOrder.2, length]
        exact writeAt_length tmp data
      rw [if_pos written, appended]
      refine ⟨?_, settledAfter, blocks ++ ((stream.chunker.getD (.new .seafile)).feed data).2,
        ?_, ?_, ?_⟩
      · rw [List.length_append, ← length]
      · rw [ids, List.map_append]
      · rw [records, List.map_append]
      · rw [List.flatten_append, List.append_assoc]
        change blocks.flatten ++ (_ ++ ((stream.chunker.getD _).feed data).1.pending) = _
        rw [← fed, ← List.append_assoc, whole]
    · rw [if_neg written] at intact
      simp at intact

variable {outcomes : ChunkOutcomes} {range : ContentRange} {stored : TempFileEntry BlockId}

theorem storeChunk_spec (ok : StreamOk server entry)
    (stores : storeChunk server outcomes range data entry = .ok stored) :
    stored.tmp = writeAt entry.tmp ⟨range.start, data⟩ ∧ StreamOk server stored := by
  unfold storeChunk writeChunk at stores
  by_cases beyond : entry.fileSize < range.start + data.length
  · simp [if_pos beyond, Except.map] at stores
  · simp only [if_neg beyond, Except.map, Except.ok.injEq] at stores
    subst stores
    cases encrypt : server.encrypt with
    | some encrypt =>
      simp only [Option.isNone_some, Bool.false_eq_true, if_false]
      refine ⟨trivial, fun _ => ok.unfed (by rw [encrypt]; rfl), fun _ plain => ?_⟩
      rw [encrypt] at plain
      simp at plain
    | none =>
      simp only [Option.isNone_none, if_true]
      refine ⟨rfl, fun isEncrypted => ?_, fun intact _ => ?_⟩
      · rw [encrypt] at isEncrypted
        simp at isEncrypted
      · exact streamed_feed (fun unbroken => ok.streamed unbroken encrypt) outcomes.fed
          range.start data intact

/-! ## The commit -/

theorem take_stream (server : ChunkServer BlockId) (stream : UploadStream BlockId)
    (stored intact : Bool) (expected : Nat) :
    (stream.take server.sha1 stored intact expected).1 = stream ∨
      ((stream.take server.sha1 stored intact expected).1.broken = true ∧
        (stream.take server.sha1 stored intact expected).1.chunker = none) := by
  unfold UploadStream.take
  split
  · exact Or.inl rfl
  · split
    · exact Or.inl rfl
    · split
      · exact Or.inr ⟨rfl, rfl⟩
      · dsimp only
        split
        · exact Or.inr ⟨rfl, rfl⟩
        · exact Or.inr ⟨rfl, rfl⟩

theorem StreamOk.take (ok : StreamOk server entry) (stored intact : Bool) (expected : Nat) :
    StreamOk server
      { entry with stream := (entry.stream.take server.sha1 stored intact expected).1 } := by
  rcases take_stream server entry.stream stored intact expected with same | ⟨broken, taken⟩
  · rw [same]
    exact ok
  · exact streamOk_of_broken (fun _ => taken) broken

theorem take_spec (ok : StreamOk server entry) {stored intact : Bool} {expected size : Nat}
    {ids : List BlockId}
    (took : (entry.stream.take server.sha1 stored intact expected).2 = some (ids, size)) :
    IsFileOf server ids entry.tmp ∧ entry.tmp.length = expected ∧ size = expected := by
  unfold UploadStream.take at took
  by_cases refused : entry.stream.broken = true ∨ entry.stream.nextOffset ≠ entry.stream.fileSize ∨
      entry.stream.fileSize ≠ expected
  · simp [if_pos refused] at took
  · rw [if_neg refused] at took
    push Not at refused
    obtain ⟨unbroken, covered, sameSize⟩ := refused
    cases chunker : entry.stream.chunker with
    | none => simp [chunker] at took
    | some current =>
      have plain : server.encrypt = none := by
        cases encrypt : server.encrypt with
        | none => rfl
        | some _ =>
          have unfed := ok.unfed (by rw [encrypt]; rfl)
          rw [chunker] at unfed
          simp at unfed
      have streamed := ok.streamed (by simpa using unbroken) plain
      obtain ⟨blocks, isIds, -, whole⟩ := streamed.blocks
      simp only [chunker] at took
      split at took
      · simp at took
      · split at took
        · simp at took
        · simp only [Option.some.injEq, Prod.mk.injEq] at took
          obtain ⟨rfl, rfl⟩ := took
          refine ⟨⟨blocks ++ if current.finish = [] then [] else [current.finish], ?_, ?_⟩, ?_,
            sameSize⟩
          · have sameId : server.blockIdOf = server.sha1 := by
              funext block
              rw [ChunkServer.blockIdOf, plain]
            rw [UploadStream.close, isIds, sameId, List.map_append]
            split <;> rfl
          · rw [List.flatten_append, Chunker.finish_flatten, ← whole, chunker,
              Option.getD_some]
          · rw [← streamed.length, covered, sameSize]

theorem writeStreamBlocks_spec (server : ChunkServer BlockId)
    (pieces : List (List UInt8)) :
    IsFileOf server (writeStreamBlocks server.blockIdOf pieces).1 pieces.flatten ∧
      (writeStreamBlocks server.blockIdOf pieces).2 = pieces.flatten.length := by
  have whole := chunksOf_flatten .seafile pieces
  refine ⟨⟨_, rfl, whole⟩, ?_⟩
  rw [← whole, List.length_flatten]
  rfl

/-- What a commit leaves and what it commits. -/
structure CommitsTmp (server : ChunkServer BlockId) (fileSize : Nat)
    (entry : TempFileEntry BlockId)
    (after : Option (TempFileEntry BlockId) × Except ChunkError (ChunkResult BlockId)) : Prop where
  kept : ∀ next, after.1 = some next → next.tmp = entry.tmp ∧ StreamOk server next
  committed : ∀ ids size, after.2 = .ok (.committed ids size) →
    IsFileOf server ids entry.tmp ∧ entry.tmp.length = fileSize ∧ size = fileSize

theorem commitAssembled_spec (outcomes : ChunkOutcomes) (fileSize : Nat)
    (ok : StreamOk server entry) :
    CommitsTmp server fileSize entry (commitAssembled server outcomes fileSize entry) := by
  obtain ⟨isFile, length⟩ :=
    writeStreamBlocks_spec server (server.reader.pieces entry.tmp)
  rw [server.reader.flatten_pieces] at isFile length
  have same : ∀ next, some entry = some next → next.tmp = entry.tmp ∧ StreamOk server next := by
    intro next isNext
    cases isNext
    exact ⟨rfl, ok⟩
  unfold commitAssembled
  dsimp only
  split
  · exact ⟨same, fun ids size failed => by simp at failed⟩
  · split
    · exact ⟨fun next gone => by simp at gone, fun ids size failed => by simp at failed⟩
    · rename_i sized
      rw [not_not] at sized
      split
      · refine ⟨fun next gone => by simp at gone, fun ids size isResult => ?_⟩
        cases isResult
        exact ⟨isFile, length.symm.trans sized, sized⟩
      · exact ⟨same, fun ids size failed => by simp at failed⟩

theorem commitChunks_spec (outcomes : ChunkOutcomes) (fileSize : Nat) (ok : StreamOk server entry) :
    CommitsTmp server fileSize entry (commitChunks server outcomes fileSize entry) := by
  have taken := ok.take outcomes.tailStored outcomes.intact fileSize
  unfold commitChunks
  dsimp only
  split
  · have assembled := commitAssembled_spec outcomes fileSize taken
    exact ⟨assembled.kept, assembled.committed⟩
  · rename_i streamed took
    obtain ⟨isFile, length, size⟩ := take_spec ok took
    split
    · refine ⟨fun next gone => by simp at gone, fun ids total isResult => ?_⟩
      cases isResult
      exact ⟨isFile, length, size⟩
    · refine ⟨fun next isNext => ?_, fun ids size failed => by simp at failed⟩
      cases isNext
      exact ⟨rfl, taken⟩

/-- A stream out of order leaves the temporary file to be committed; only its length is
checked. -/
theorem commitChunks_of_broken (server : ChunkServer BlockId) (outcomes : ChunkOutcomes)
    (entry : TempFileEntry BlockId) (broken : entry.stream.broken = true)
    (assembled : outcomes.assembled = true) (committed : outcomes.committed = true) :
    ∃ ids, (commitChunks server outcomes entry.tmp.length entry).2 =
      .ok (.committed ids entry.tmp.length) := by
  obtain ⟨-, length⟩ := writeStreamBlocks_spec server (server.reader.pieces entry.tmp)
  rw [server.reader.flatten_pieces] at length
  have untaken : entry.stream.take server.sha1 outcomes.tailStored outcomes.intact
      entry.tmp.length = (entry.stream, none) := by
    rw [UploadStream.take, if_pos (Or.inl broken)]
  refine ⟨(writeStreamBlocks server.blockIdOf (server.reader.pieces entry.tmp)).1, ?_⟩
  simp [commitChunks, untaken, commitAssembled, assembled, committed, length]

/-! ## One client -/

/-- The upload of one client, with the chunks stored since its entry was created. -/
structure ChunkSession (BlockId : Type u) where
  active : Option (TempFileEntry BlockId)
  carried : List (ByteWrite UInt8)

/-- A request of the client, or the removal of an idle upload. -/
inductive ChunkEvent where
  | request (outcomes : ChunkOutcomes) (request : ChunkRequest)
  | cleanupStale

def carriedAfter (server : ChunkServer BlockId) (session : ChunkSession BlockId)
    (outcomes : ChunkOutcomes) (request : ChunkRequest) : List (ByteWrite UInt8) :=
  match receiveChunk server outcomes request session.active with
  | .error _ => session.carried
  | .ok (range, _) => session.carried ++ [⟨range.start, request.data⟩]

def sessionStep (server : ChunkServer BlockId) (session : ChunkSession BlockId) :
    ChunkEvent → Option (ChunkSession BlockId)
  | .request outcomes request =>
    let active := (tryHandleChunked server outcomes request session.active).1
    some ⟨active, if active.isNone then [] else carriedAfter server session outcomes request⟩
  | .cleanupStale => some ⟨none, []⟩

def sessionSystem (server : ChunkServer BlockId) :
    System (ChunkSession BlockId) ChunkEvent where
  init session := session = ⟨none, []⟩
  step := sessionStep server

/-- A chunk that is stored starts no later than where the temporary file ends. -/
def StartsInside (server : ChunkServer BlockId) (session : ChunkSession BlockId) :
    ChunkEvent → Prop
  | .request outcomes request => ∀ range stored,
      receiveChunk server outcomes request session.active = .ok (range, stored) →
        range.start ≤ (getUploadedBytes session.active).getD 0
  | .cleanupStale => True

/-- A committed file has the declared length and the bytes carried last, and all of it has
been carried. -/
def CommitsCarried (server : ChunkServer BlockId) (session : ChunkSession BlockId) :
    ChunkEvent → Prop
  | .request outcomes request => ∀ ids size,
      (tryHandleChunked server outcomes request session.active).2 = .ok (.committed ids size) →
        ∃ range bytes, parseContentRange request.header = .ok range ∧
          IsFileOf server ids bytes ∧ bytes.length = range.fileSize ∧
          ∀ position, position < bytes.length →
            carriedByte (carriedAfter server session outcomes request) position = bytes[position]?
  | .cleanupStale => True

/-- Every offset below the reported number of bytes has been carried. -/
def ReportsCarried (session : ChunkSession BlockId) : Prop :=
  ∀ count, getUploadedBytes session.active = some count → ∀ position, position < count →
    (carriedByte session.carried position).isSome

structure SessionOk (server : ChunkServer BlockId) (session : ChunkSession BlockId) : Prop where
  idle : session.active = none → session.carried = []
  carries : ∀ entry, session.active = some entry →
    Carries session.carried entry.tmp ∧ StreamOk server entry

variable {request : ChunkRequest}

theorem checkChunk_parsed (checked : checkChunk server request = .ok range) :
    parseContentRange request.header = .ok range := by
  unfold checkChunk at checked
  cases found : parseContentRange request.header with
  | error failure => simp [found] at checked
  | ok parsed =>
    simp only [found] at checked
    split at checked
    · cases checked
    · split at checked
      · cases checked
      · split at checked
        · cases checked
        · exact congrArg Except.ok (Except.ok.inj checked)

variable {active : Option (TempFileEntry BlockId)}

theorem getOrCreate_ok {admitted : Bool} {fileSize : Nat}
    (got : getOrCreate admitted fileSize active = .ok entry) :
    active = some entry ∨ (active = none ∧ entry = newEntry fileSize) := by
  unfold getOrCreate at got
  cases active with
  | some present => exact Or.inl (congrArg some (Except.ok.inj got))
  | none =>
    cases admitted with
    | true => exact Or.inr ⟨rfl, (Except.ok.inj got).symm⟩
    | false => simp at got

theorem receiveChunk_parsed
    (received : receiveChunk server outcomes request active = .ok (range, stored)) :
    ∃ entry, parseContentRange request.header = .ok range ∧
      getOrCreate outcomes.admitted range.fileSize active = .ok entry ∧
        storeChunk server outcomes range request.data entry = .ok stored := by
  unfold receiveChunk at received
  split at received
  · cases received
  · rename_i range' checked
    split at received
    · cases received
    · rename_i entry got
      split at received
      · cases received
      · split at received
        · cases received
        · rename_i stored' stores
          cases received
          exact ⟨entry, checkChunk_parsed checked, got, stores⟩

variable {session : ChunkSession BlockId}

/-- A request that stores its chunk leaves no gap when the chunk starts inside the file. -/
theorem receiveChunk_ok (sessionOk : SessionOk server session)
    (received : receiveChunk server outcomes request session.active = .ok (range, stored))
    (inside : range.start ≤ (getUploadedBytes session.active).getD 0) :
    Carries (session.carried ++ [⟨range.start, request.data⟩]) stored.tmp ∧
      StreamOk server stored := by
  obtain ⟨entry, -, got, stores⟩ := receiveChunk_parsed received
  rcases getOrCreate_ok got with present | ⟨absent, rfl⟩
  · obtain ⟨carries, ok⟩ := sessionOk.carries entry present
    obtain ⟨tmp, okAfter⟩ := storeChunk_spec ok stores
    have noGap : range.start ≤ entry.tmp.length := by
      simpa [present, getUploadedBytes] using inside
    refine ⟨?_, okAfter⟩
    rw [tmp]
    exact carries.write noGap
  · obtain ⟨tmp, okAfter⟩ := storeChunk_spec (streamOk_newEntry range.fileSize) stores
    have atStart : range.start = 0 := by
      simpa [absent, getUploadedBytes] using inside
    have empty : Carries ([] : List (ByteWrite UInt8)) [] := by
      intro position below
      simp at below
    refine ⟨?_, okAfter⟩
    rw [tmp, sessionOk.idle absent]
    exact empty.write (by rw [atStart]; exact Nat.zero_le _)

/-- A request that fails before its chunk is stored leaves the entry, or an empty one. -/
theorem receiveChunk_error {kept : Option (TempFileEntry BlockId)} {error : ChunkError}
    (failed : receiveChunk server outcomes request session.active = .error (kept, error)) :
    kept = session.active ∨
      (session.active = none ∧ ∃ fileSize, kept = some (newEntry fileSize)) := by
  unfold receiveChunk at failed
  split at failed
  · cases failed
    exact Or.inl rfl
  · rename_i range checked
    split at failed
    · cases failed
      exact Or.inl rfl
    · rename_i entry got
      have kind : some entry = session.active ∨
          (session.active = none ∧ ∃ fileSize, some entry = some (newEntry fileSize)) := by
        rcases getOrCreate_ok got with present | ⟨absent, rfl⟩
        · exact Or.inl present.symm
        · exact Or.inr ⟨absent, range.fileSize, rfl⟩
      split at failed
      · cases failed
        exact kind
      · split at failed
        · cases failed
          exact kind
        · cases failed

theorem tryHandleChunked_spec (sessionOk : SessionOk server session)
    (inside : StartsInside server session (.request outcomes request)) :
    (∀ next, (tryHandleChunked server outcomes request session.active).1 = some next →
      Carries (carriedAfter server session outcomes request) next.tmp ∧ StreamOk server next) ∧
      CommitsCarried server session (.request outcomes request) := by
  cases received : receiveChunk server outcomes request session.active with
  | error failure =>
    obtain ⟨kept, error⟩ := failure
    simp only [CommitsCarried, carriedAfter, tryHandleChunked, received]
    refine ⟨fun next isNext => ?_, fun ids size failed => by simp at failed⟩
    rcases receiveChunk_error received with same | ⟨absent, fileSize, fresh⟩
    · exact sessionOk.carries next (same.symm.trans isNext)
    · obtain rfl : newEntry fileSize = next := Option.some.inj (fresh.symm.trans isNext)
      refine ⟨fun position below => ?_, streamOk_newEntry fileSize⟩
      simp [newEntry] at below
  | ok result =>
    obtain ⟨range, stored⟩ := result
    obtain ⟨entry, parsed, -, -⟩ := receiveChunk_parsed received
    obtain ⟨carries, ok⟩ := receiveChunk_ok sessionOk received (inside range stored received)
    simp only [CommitsCarried, carriedAfter, tryHandleChunked, received]
    split
    · refine ⟨fun next isNext => ?_, fun ids size committed => by simp at committed⟩
      cases isNext
      exact ⟨carries, ok⟩
    · have commits := commitChunks_spec outcomes range.fileSize ok
      refine ⟨fun next isNext => ?_, fun ids size committed => ?_⟩
      · obtain ⟨sameTmp, okNext⟩ := commits.kept next isNext
        rw [sameTmp]
        exact ⟨carries, okNext⟩
      · obtain ⟨isFile, length, -⟩ := commits.committed ids size committed
        exact ⟨range, stored.tmp, parsed, isFile, length, carries⟩

theorem sessionOk_step {next : ChunkSession BlockId} {event : ChunkEvent}
    (sessionOk : SessionOk server session) (inside : StartsInside server session event)
    (taken : sessionStep server session event = some next) : SessionOk server next := by
  cases event with
  | cleanupStale =>
    cases taken
    exact ⟨fun _ => rfl, fun entry present => by simp at present⟩
  | request outcomes request =>
    cases taken
    obtain ⟨kept, -⟩ := tryHandleChunked_spec sessionOk inside
    refine ⟨fun gone => ?_, fun entry present => ?_⟩
    · change (if _ then _ else _) = _
      rw [if_pos (by simpa using gone)]
    · obtain ⟨carries, ok⟩ := kept entry present
      refine ⟨?_, ok⟩
      change Carries (if _ then _ else _) _
      change (tryHandleChunked server outcomes request session.active).1 = some entry at present
      rw [if_neg (by rw [present]; simp)]
      exact carries

theorem sessionOk_reached
    (reached : (sessionSystem server).Reachable (StartsInside server) session) :
    SessionOk server session := by
  refine System.reachable_invariant ?_ ?_ reached
  · rintro start rfl
    exact ⟨fun _ => rfl, fun entry present => by simp at present⟩
  · intro before after event sessionOk inside taken
    exact sessionOk_step sessionOk inside taken

/-- While no chunk starts beyond the end of the temporary file, what is committed and what
is reported as uploaded has been carried. -/
theorem upload_commits_carried {session : ChunkSession BlockId}
    (reached : (sessionSystem server).Reachable (StartsInside server) session) :
    ReportsCarried session ∧
      ∀ event, StartsInside server session event → CommitsCarried server session event := by
  have sessionOk := sessionOk_reached reached
  refine ⟨fun count reported position below => ?_, fun event inside => ?_⟩
  · unfold getUploadedBytes at reported
    obtain ⟨entry, present, rfl⟩ := Option.map_eq_some_iff.mp reported
    obtain ⟨carries, -⟩ := sessionOk.carries entry present
    rw [carries position below, List.getElem?_eq_getElem below]
    rfl
  · cases event with
    | cleanupStale => trivial
    | request outcomes request => exact (tryHandleChunked_spec sessionOk inside).2

end Bytes

/-! ## The final chunk first -/

/-- A library that hashes with the identity and reads a file in one piece. -/
def plainServer : ChunkServer (List UInt8) :=
  ⟨⟨0, 0⟩, id, none, ⟨fun bytes => [bytes], fun _ => List.append_nil _⟩⟩

def allSucceed : ChunkOutcomes := ⟨true, true, true, true, true, true, true⟩

def secondHalf : ChunkEvent := .request allSucceed ⟨"bytes 2-3/4", [3, 4]⟩

/-- The second of two chunks starts where the first one ends. -/
theorem upload_commits_carried_halves : ∃ session,
    (sessionSystem plainServer).Reachable (StartsInside plainServer) session ∧
      getUploadedBytes session.active = some 2 ∧ StartsInside plainServer session secondHalf ∧
        CommitsCarried plainServer session secondHalf := by
  have parsed : parseContentRange "bytes 0-1/4" = .ok ⟨0, 1, 4⟩ := by decide +kernel
  have parsed' : parseContentRange "bytes 2-3/4" = .ok ⟨2, 3, 4⟩ := by decide +kernel
  obtain ⟨stored, received, tmp⟩ : ∃ stored,
      receiveChunk plainServer allSucceed ⟨"bytes 0-1/4", [1, 2]⟩ none =
        .ok (⟨0, 1, 4⟩, stored) ∧ stored.tmp = [1, 2] := by
    simp only [receiveChunk, checkChunk, parsed]
    exact ⟨_, rfl, rfl⟩
  have first : StartsInside plainServer ⟨none, []⟩
      (.request allSucceed ⟨"bytes 0-1/4", [1, 2]⟩) := by
    intro range stored' received'
    cases received.symm.trans received'
    exact Nat.le_refl 0
  have reached : (sessionSystem plainServer).Reachable (StartsInside plainServer)
      ⟨some stored, [⟨0, [1, 2]⟩]⟩ := by
    refine .step (.init rfl) first ?_
    simp [sessionSystem, sessionStep, tryHandleChunked, carriedAfter, received]
  have second : StartsInside plainServer ⟨some stored, [⟨0, [1, 2]⟩]⟩ secondHalf := by
    intro range stored' received'
    obtain ⟨entry, isRange, -, -⟩ := receiveChunk_parsed received'
    cases parsed'.symm.trans isRange
    simp [getUploadedBytes, tmp]
  exact ⟨_, reached, by simp [getUploadedBytes, tmp], second,
    (upload_commits_carried reached).2 _ second⟩

/-- The last four bytes alone commit a file whose first eight bytes were never sent. -/
theorem final_chunk_commits_gap :
    ¬ CommitsCarried plainServer ⟨none, []⟩
      (.request allSucceed ⟨"bytes 8-11/12", [1, 2, 3, 4]⟩) := by
  intro commits
  have parsed : parseContentRange "bytes 8-11/12" = .ok ⟨8, 11, 12⟩ := by decide +kernel
  have received : receiveChunk plainServer allSucceed ⟨"bytes 8-11/12", [1, 2, 3, 4]⟩ none =
      .ok (⟨8, 11, 12⟩, ⟨writeAt [] ⟨8, [1, 2, 3, 4]⟩, 12, ⟨none, 0, [], [], 12, true⟩⟩) := by
    simp only [receiveChunk, checkChunk, parsed]
    rfl
  have length : (writeAt ([] : List UInt8) ⟨8, [1, 2, 3, 4]⟩).length = 12 := length_writeAt _ _
  obtain ⟨ids, committed⟩ := commitChunks_of_broken plainServer allSucceed
    ⟨writeAt [] ⟨8, [1, 2, 3, 4]⟩, 12, ⟨none, 0, [], [], 12, true⟩⟩ rfl rfl rfl
  have result : (tryHandleChunked plainServer allSucceed
      ⟨"bytes 8-11/12", [1, 2, 3, 4]⟩ none).2 = .ok (.committed ids 12) := by
    simp only [tryHandleChunked, received]
    rw [if_neg (by decide)]
    simpa only [length] using committed
  obtain ⟨range, bytes, isRange, -, whole, carried⟩ := commits ids 12 result
  cases parsed.symm.trans isRange
  change bytes.length = 12 at whole
  have first := carried 0 (by omega)
  rw [List.getElem?_eq_getElem (by omega)] at first
  simp [carriedAfter, received, carriedByte, ByteWrite.Covers] at first

end Nanofile
