import Nanofile.Service.SharedUpload

/-!
# What clients that share a path commit

While every step of a request that uses an entry finds the one of its own client, the
temporary file and the stream of an entry hold prefixes of the file of the client that
created it, in whatever order the steps of the clients come.
-/

set_option autoImplicit false

namespace Nanofile

open Nanofile.Lib

universe u

section Clients

variable {BlockId : Type u} {server : ChunkServer BlockId}

theorem data_isPrefix (client : UploadClient BlockId) :
    client.data <+: client.file.drop client.range.start := by
  have split : client.file = (client.chunks.take client.sent).flatten ++
      (client.chunks.drop client.sent).flatten := by
    rw [← List.flatten_append, List.take_append_drop, UploadClient.file]
  rw [split, UploadClient.range, List.drop_left]
  unfold UploadClient.data
  cases found : client.chunks[client.sent]? with
  | none => exact List.nil_prefix
  | some data =>
    obtain ⟨inside, rfl⟩ := List.getElem?_eq_some_iff.mp found
    rw [List.drop_eq_getElem_cons inside, List.flatten_cons]
    exact List.prefix_append _ _

theorem file_afterChunk (client : UploadClient BlockId) :
    client.afterChunk.file = client.file := by
  unfold UploadClient.afterChunk
  split <;> rfl

/-- The entry of a client holds its file as far as it was sent and streamed. -/
structure HoldsFile (server : ChunkServer BlockId) (file : List UInt8)
    (entry : TempFileEntry BlockId) : Prop where
  tmp : entry.tmp <+: file
  streamed : ∃ bytes, bytes <+: file ∧ StreamOk server { entry with tmp := bytes }

theorem holdsFile_newEntry (server : ChunkServer BlockId) (file : List UInt8) (fileSize : Nat) :
    HoldsFile server file (newEntry fileSize) :=
  ⟨List.nil_prefix, [], List.nil_prefix, streamOk_newEntry fileSize⟩

variable {entry : TempFileEntry BlockId} {file : List UInt8} {data : List UInt8} {offset : Nat}
    {blockIds : List BlockId}

section

variable (holds : HoldsFile server file entry)
include holds

theorem HoldsFile.writeChunk {written : TempFileEntry BlockId} (noGap : offset ≤ entry.tmp.length)
    (isPart : data <+: file.drop offset)
    (writes : writeChunk offset data (some entry) = .ok written) :
    HoldsFile server file written := by
  unfold Nanofile.writeChunk at writes
  by_cases beyond : entry.fileSize < offset + data.length
  · simp [if_pos beyond] at writes
  · simp only [if_neg beyond, Except.ok.injEq] at writes
    subst writes
    exact ⟨writeAt_isPrefix holds.tmp noGap isPart, holds.streamed⟩

theorem HoldsFile.feedStream (plain : server.encrypt = none) (stored : Bool)
    (isPart : data <+: file.drop offset) :
    HoldsFile server file (feedStream server.sha1 stored offset data entry) := by
  obtain ⟨bytes, isPrefix, ok⟩ := holds.streamed
  refine ⟨holds.tmp, ?_⟩
  by_cases intact : (entry.stream.feed server.sha1 stored offset data).broken = false
  · have streamed := fun unbroken => ok.streamed unbroken plain
    obtain ⟨unbroken, inOrder⟩ := feed_inOrder intact
    have noGap : offset ≤ bytes.length := Nat.le_of_eq (inOrder.trans (streamed unbroken).length)
    refine ⟨writeAt bytes ⟨offset, data⟩, writeAt_isPrefix isPrefix noGap isPart, ?_, ?_⟩
    · intro isEncrypted
      rw [plain] at isEncrypted
      simp at isEncrypted
    · intro _ _
      exact streamed_feed streamed stored offset data intact
  · refine ⟨bytes, isPrefix, streamOk_of_broken ?_ ?_⟩
    · intro isEncrypted
      rw [plain] at isEncrypted
      simp at isEncrypted
    · change (entry.stream.feed server.sha1 stored offset data).broken = true
      simpa using intact

theorem HoldsFile.take (stored intact : Bool) (expected : Nat) :
    HoldsFile server file
      { entry with stream := (entry.stream.take server.sha1 stored intact expected).1 } := by
  obtain ⟨bytes, isPrefix, ok⟩ := holds.streamed
  exact ⟨holds.tmp, bytes, isPrefix, ok.take stored intact expected⟩

theorem HoldsFile.taken {stored intact : Bool} {size : Nat}
    (took : (entry.stream.take server.sha1 stored intact file.length).2 = some (blockIds, size)) :
    IsFileOf server blockIds file := by
  obtain ⟨bytes, isPrefix, ok⟩ := holds.streamed
  obtain ⟨isFile, whole, -⟩ := take_spec ok took
  rw [← isPrefix.eq_of_length whole]
  exact isFile

theorem HoldsFile.read
    (whole : (writeStreamBlocks server.blockIdOf (server.reader.pieces entry.tmp)).2 = file.length) :
    IsFileOf server (writeStreamBlocks server.blockIdOf (server.reader.pieces entry.tmp)).1
      file := by
  obtain ⟨isFile, length⟩ := writeStreamBlocks_spec server (server.reader.pieces entry.tmp)
  rw [server.reader.flatten_pieces] at isFile length
  rw [← holds.tmp.eq_of_length (length.symm.trans whole)]
  exact isFile

end

/-- Only an unencrypted library streams, and what a client commits is its file. -/
def PcOk (server : ChunkServer BlockId) (file : List UInt8) : ChunkPc BlockId → Prop
  | .feedStream => server.encrypt = none
  | .commit blockIds => IsFileOf server blockIds file
  | _ => True

/-- The entry a client has created holds its file. -/
structure ClientOk (server : ChunkServer BlockId) (active : Option (SharedEntry BlockId))
    (index : Nat) (client : UploadClient BlockId) : Prop where
  own : ∀ shared, active = some shared → shared.creator = index →
    HoldsFile server client.file shared.entry
  pc : PcOk server client.file client.pc

/-- A step of one client keeps its file and leaves the entries of others alone. -/
structure AdvanceOk (server : ChunkServer BlockId) (index : Nat)
    (active : Option (SharedEntry BlockId)) (client : UploadClient BlockId)
    (after : Option (SharedEntry BlockId) × UploadClient BlockId) : Prop where
  file : after.2.file = client.file
  ok : ClientOk server after.1 index after.2
  kept : ∀ shared, after.1 = some shared → active = some shared ∨ shared.creator = index

section Advance

variable {index : Nat} {active active' : Option (SharedEntry BlockId)}
  {client next : UploadClient BlockId}

theorem advanceOk_same (ok : ClientOk server active index client)
    (sameFile : next.file = client.file) (pc : PcOk server client.file next.pc) :
    AdvanceOk server index active client (active, next) := by
  refine ⟨sameFile, ⟨?_, ?_⟩, fun shared present => Or.inl present⟩
  · intro shared present own
    rw [sameFile]
    exact ok.own shared present own
  · rw [sameFile]
    exact pc

theorem advanceOk_set
    (holds : ∀ shared, active' = some shared →
      shared.creator = index ∧ HoldsFile server client.file shared.entry)
    (sameFile : next.file = client.file) (pc : PcOk server client.file next.pc) :
    AdvanceOk server index active client (active', next) := by
  refine ⟨sameFile, ⟨?_, ?_⟩, fun shared present => Or.inr (holds shared present).1⟩
  · intro shared present _
    rw [sameFile]
    exact (holds shared present).2
  · rw [sameFile]
    exact pc

omit active active' next in
theorem afterChunk_pcOk (file : List UInt8) : PcOk server file client.afterChunk.pc := by
  unfold UploadClient.afterChunk
  split <;> trivial

theorem advanceClient_spec (outcomes : ChunkOutcomes) (ok : ClientOk server active index client)
    (owned : ∀ shared, active = some shared → client.UsesEntry →
      shared.creator = index ∧ client.range.start ≤ shared.entry.tmp.length) :
    AdvanceOk server index active client (advanceClient server outcomes index active client) := by
  have pcOk := ok.pc
  have uses : ∀ pc, client.pc = pc → UploadClient.UsesEntry { client with pc := pc } →
      client.UsesEntry := by
    rintro pc rfl uses
    exact uses
  unfold advanceClient
  cases pc : client.pc with
  | getOrCreate =>
    simp only
    split
    · exact advanceOk_same ok rfl trivial
    · split
      · exact advanceOk_same ok rfl trivial
      · rename_i entry got
        have sameFile : (if client.range.start = 0 ∧ outcomes.reserved = false then
            client.endRequest else client.goto .writeChunk).file = client.file := by
          split <;> rfl
        have nextOk : PcOk server client.file (if client.range.start = 0 ∧
            outcomes.reserved = false then client.endRequest
            else client.goto .writeChunk).pc := by
          split <;> trivial
        cases active with
        | some shared => exact advanceOk_same ok sameFile nextOk
        | none =>
          rcases getOrCreate_ok got with present | ⟨-, rfl⟩
          · cases present
          · refine advanceOk_set ?_ sameFile nextOk
            rintro shared isShared
            cases isShared
            exact ⟨rfl, holdsFile_newEntry server _ _⟩
  | writeChunk =>
    cases active with
    | none => exact advanceOk_same ok rfl trivial
    | some shared =>
      obtain ⟨own, noGap⟩ := owned shared rfl (uses _ pc trivial)
      simp only
      split
      · exact advanceOk_same ok rfl trivial
      · rename_i entry writes
        have holds := (ok.own shared rfl own).writeChunk noGap (data_isPrefix client) writes
        refine advanceOk_set ?_ ?_ ?_
        · rintro next isNext
          cases isNext
          exact ⟨own, holds⟩
        · split
          · rfl
          · exact file_afterChunk client
        · split
          · rename_i plain
            exact Option.isNone_iff_eq_none.mp plain
          · exact afterChunk_pcOk _
  | feedStream =>
    rw [pc] at pcOk
    refine advanceOk_set ?_ (file_afterChunk client) (afterChunk_pcOk _)
    intro next isNext
    obtain ⟨shared, rfl, rfl⟩ := Option.map_eq_some_iff.mp isNext
    obtain ⟨own, -⟩ := owned shared rfl (uses _ pc trivial)
    exact ⟨own, (ok.own shared rfl own).feedStream pcOk _ (data_isPrefix client)⟩
  | takeStreamedBlocks =>
    cases active with
    | none => exact advanceOk_same ok rfl trivial
    | some shared =>
      obtain ⟨own, -⟩ := owned shared rfl (uses _ pc trivial)
      have holds := ok.own shared rfl own
      refine advanceOk_set ?_ ?_ ?_
      · rintro next isNext
        cases isNext
        exact ⟨own, holds.take _ _ _⟩
      · split <;> rfl
      · split
        · trivial
        · rename_i streamed took
          exact holds.taken took
  | readStream =>
    cases active with
    | none => exact advanceOk_same ok rfl trivial
    | some shared =>
      obtain ⟨own, -⟩ := owned shared rfl (uses _ pc trivial)
      refine advanceOk_same ok ?_ ?_
      · split
        · rfl
        · split <;> rfl
      · split
        · trivial
        · split
          · trivial
          · rename_i whole
            exact (ok.own shared rfl own).read (not_not.mp whole)
  | commit blockIds =>
    refine advanceOk_same ok ?_ ?_
    · split <;> rfl
    · split <;> trivial
  | finish | abort => exact advanceOk_set (fun shared present => by cases present) rfl trivial

end Advance

structure SharedOk (server : ChunkServer BlockId) (state : SharedUpload BlockId) : Prop where
  clients : ∀ index client, state.clients[index]? = some client →
    ClientOk server state.active index client
  created : ∀ shared, state.active = some shared → shared.creator < state.clients.length
  committed : ∀ blockIds ∈ state.committed, ∃ client ∈ state.clients,
    IsFileOf server blockIds client.file

variable {state : SharedUpload BlockId}

theorem sharedOk_begin (ok : SharedOk server state) (chunks : List (List UInt8)) :
    SharedOk server { state with clients := state.clients ++ [⟨chunks, 0, .getOrCreate⟩] } := by
  refine ⟨?_, ?_, ?_⟩
  · intro index client found
    change (state.clients ++ _)[index]? = _ at found
    by_cases old : index < state.clients.length
    · rw [List.getElem?_append_left old] at found
      exact ok.clients index client found
    · rw [List.getElem?_append_right (Nat.le_of_not_lt old)] at found
      obtain ⟨-, rfl⟩ := List.getElem?_eq_some_iff.mp found
      refine ⟨?_, by rw [List.getElem_singleton]; trivial⟩
      intro shared present own
      exact absurd (own ▸ ok.created shared present) old
  · intro shared present
    have created := ok.created shared present
    rw [List.length_append]
    omega
  · intro blockIds member
    obtain ⟨client, listed, isFile⟩ := ok.committed blockIds member
    exact ⟨client, List.mem_append_left _ listed, isFile⟩

variable {outcomes : ChunkOutcomes} {client : UploadClient BlockId}

theorem mem_committedBy
    (member : blockIds ∈ committedBy outcomes client) : client.pc = .commit blockIds := by
  unfold committedBy at member
  split at member
  · rename_i ids pc
    split at member
    · rw [pc, List.mem_singleton.mp member]
    · cases member
  · cases member

theorem sharedOk_advance (ok : SharedOk server state) {index : Nat}
    (found : state.clients[index]? = some client)
    (owned : OwnEntry state (.advance index outcomes)) :
    let after := advanceClient server outcomes index state.active client
    SharedOk server ⟨after.1, state.clients.set index after.2,
      state.committed ++ committedBy outcomes client⟩ := by
  intro after
  have inside := (List.getElem?_eq_some_iff.mp found).1
  have advanced : AdvanceOk server index state.active client after :=
    advanceClient_spec outcomes (ok.clients index client found)
      fun shared present => owned client shared found present
  -- a client keeps its file, so what was committed stays the file of a client
  have listed : ∀ other ∈ state.clients, ∃ same ∈ state.clients.set index after.2,
      same.file = other.file := by
    intro other member
    obtain ⟨position, below, rfl⟩ := List.mem_iff_getElem.mp member
    by_cases moved : index = position
    · subst moved
      refine ⟨after.2, List.mem_set inside _, ?_⟩
      rw [advanced.file, ← (List.getElem?_eq_some_iff.mp found).2]
    · refine ⟨state.clients[position], ?_, rfl⟩
      rw [List.mem_iff_getElem?]
      exact ⟨position, by rw [List.getElem?_set_ne moved, List.getElem?_eq_getElem below]⟩
  refine ⟨?_, ?_, ?_⟩
  · intro position other isOther
    change (state.clients.set index after.2)[position]? = _ at isOther
    by_cases moved : index = position
    · subst moved
      rw [List.getElem?_set_self inside] at isOther
      cases isOther
      exact advanced.ok
    · rw [List.getElem?_set_ne moved] at isOther
      have old := ok.clients position other isOther
      refine ⟨?_, old.pc⟩
      intro shared present own
      rcases advanced.kept shared present with kept | mine
      · exact old.own shared kept own
      · exact absurd (mine.symm.trans own) moved
  · intro shared present
    change shared.creator < (state.clients.set index after.2).length
    rw [List.length_set]
    rcases advanced.kept shared present with kept | mine
    · exact ok.created shared kept
    · omega
  · intro blockIds member
    rcases List.mem_append.mp member with old | new
    · obtain ⟨other, member, isFile⟩ := ok.committed blockIds old
      obtain ⟨same, listed, file⟩ := listed other member
      exact ⟨same, listed, file ▸ isFile⟩
    · obtain ⟨same, listed, file⟩ := listed client (List.mem_of_getElem? found)
      have isFile := (ok.clients index client found).pc
      rw [mem_committedBy new] at isFile
      exact ⟨same, listed, file ▸ isFile⟩

/-- While clients do not meet in an entry, every file committed is the file of a client. -/
theorem commits_one_file {state : SharedUpload BlockId}
    (reached : (sharedSystem server).Reachable OwnEntry state) :
    ∀ blockIds ∈ state.committed, ∃ client ∈ state.clients,
      IsFileOf server blockIds client.file := by
  suffices ok : SharedOk server state from ok.committed
  refine System.reachable_invariant ?_ ?_ reached
  · rintro start rfl
    refine ⟨?_, ?_, ?_⟩
    · intro index client found
      simp at found
    · intro shared present
      simp at present
    · intro blockIds member
      cases member
  · intro before next event ok owned taken
    cases event with
    | begin chunks =>
      simp only [sharedSystem, sharedStep] at taken
      split at taken
      · cases taken
      · cases taken
        exact sharedOk_begin ok chunks
    | advance index outcomes =>
      simp only [sharedSystem, sharedStep] at taken
      split at taken
      · cases taken
      · rename_i client found
        split at taken
        · cases taken
          exact sharedOk_advance ok found owned
        · cases taken

theorem readStream_commits (server : ChunkServer BlockId)
    (guard : SharedUpload BlockId → SharedEvent → Prop) (outcomes : ChunkOutcomes)
    (index : Nat) (shared : SharedEntry BlockId) (client : UploadClient BlockId)
    (clients : List (UploadClient BlockId)) (done : List (List BlockId))
    (assembled : outcomes.assembled = true) (committed : outcomes.committed = true)
    (found : clients[index]? = some client) (sending : client.sent < client.chunks.length)
    (pc : client.pc = .readStream) (whole : shared.entry.tmp.length = client.file.length)
    (metRead : guard ⟨some shared, clients, done⟩ (.advance index outcomes))
    (metCommit : ∀ blockIds, guard
      ⟨some shared, clients.set index (client.goto (.commit blockIds)), done⟩
      (.advance index outcomes)) :
    ∃ blockIds, IsFileOf server blockIds shared.entry.tmp ∧
      (sharedSystem server).Steps guard ⟨some shared, clients, done⟩
        ⟨some shared, clients.set index (client.goto .finish), done ++ [blockIds]⟩ := by
  obtain ⟨isFile, length⟩ := writeStreamBlocks_spec server (server.reader.pieces shared.entry.tmp)
  rw [server.reader.flatten_pieces] at isFile length
  generalize written : writeStreamBlocks server.blockIdOf
    (server.reader.pieces shared.entry.tmp) = blocks at isFile length
  have sized : blocks.2 = client.range.fileSize := length.trans whole
  have inside := (List.getElem?_eq_some_iff.mp found).1
  have read : (sharedSystem server).step ⟨some shared, clients, done⟩ (.advance index outcomes) =
      some ⟨some shared, clients.set index (client.goto (.commit blocks.1)), done⟩ := by
    simp [sharedSystem, sharedStep, found, sending, advanceClient, committedBy, pc, assembled,
      written, sized]
  refine ⟨blocks.1, isFile, .tail (.tail (.refl _) metRead read) (metCommit blocks.1) ?_⟩
  simp [sharedSystem, sharedStep, inside, sending, advanceClient, committedBy,
    UploadClient.goto, committed]

end Clients

def ownCheck {BlockId : Type u} (state : SharedUpload BlockId) : SharedEvent → Bool
  | .begin _ => true
  | .advance index _ =>
    match state.clients[index]?, state.active with
    | some client, some shared =>
      shared.creator = index ∧ client.range.start ≤ shared.entry.tmp.length
    | _, _ => true

theorem ownCheck_sound {BlockId : Type u} (state : SharedUpload BlockId) (event : SharedEvent)
    (checked : ownCheck state event = true) : OwnEntry state event := by
  cases event with
  | begin chunks => trivial
  | advance index outcomes =>
    intro client shared found present _
    simpa [ownCheck, found, present] using checked

def sealedServer : ChunkServer (List UInt8) :=
  { plainServer with encrypt := some (List.map fun byte => byte ^^^ 255) }

/-- Another client waits while the first one sends its file. -/
def besideRun : List SharedEvent :=
  [.begin [[7], [8]], .begin [[1], [2]],
    .advance 0 allSucceed, .advance 0 allSucceed, .advance 0 allSucceed,
    .advance 0 allSucceed, .advance 0 allSucceed]

theorem beside_ran : (sharedSystem sealedServer).runChecked ownCheck besideRun ⟨none, [], []⟩ =
    some ⟨some ⟨⟨[7, 8], 2, (newEntry 2).stream⟩, 0⟩,
      [⟨[[7], [8]], 1, .readStream⟩, ⟨[[1], [2]], 0, .getOrCreate⟩], []⟩ := rfl

theorem commits_one_file_beside : ∃ blockIds state, state.committed = [blockIds] ∧
    (sharedSystem sealedServer).Reachable OwnEntry state ∧
      state.clients.map UploadClient.file = [[7, 8], [1, 2]] ∧
        ∃ client ∈ state.clients, IsFileOf sealedServer blockIds client.file := by
  have assembled := System.reachable_of_runChecked ownCheck_sound besideRun _ _ (.init rfl)
    beside_ran
  obtain ⟨blockIds, -, steps⟩ := readStream_commits sealedServer OwnEntry allSucceed 0
    ⟨⟨[7, 8], 2, (newEntry 2).stream⟩, 0⟩ ⟨[[7], [8]], 1, .readStream⟩
    [⟨[[7], [8]], 1, .readStream⟩, ⟨[[1], [2]], 0, .getOrCreate⟩] [] rfl rfl rfl (by decide) rfl rfl
    (ownCheck_sound _ _ rfl) (fun blockIds => ownCheck_sound _ _ rfl)
  have reached := assembled.steps steps
  exact ⟨blockIds, _, rfl, reached, rfl,
    commits_one_file reached blockIds (List.mem_singleton_self _)⟩

theorem flatten_of_isFileOf {blockIds : List (List UInt8)} {bytes : List UInt8}
    (isFile : IsFileOf plainServer blockIds bytes) : blockIds.flatten = bytes := by
  obtain ⟨blocks, rfl, whole⟩ := isFile
  have same : plainServer.blockIdOf = id := rfl
  rw [same, List.map_id, whole]

/-- Two clients send two bytes each; the second writes its first byte between the two
requests of the first. -/
def mixedRun : List SharedEvent :=
  [.begin [[1], [2]], .begin [[3], [4]],
    .advance 0 allSucceed, .advance 0 allSucceed, .advance 0 allSucceed,
    .advance 1 allSucceed, .advance 1 allSucceed, .advance 1 allSucceed,
    .advance 0 allSucceed, .advance 0 allSucceed, .advance 0 allSucceed,
    .advance 0 allSucceed]

def mixedStream : UploadStream (List UInt8) :=
  { (newEntry 2).stream.feed id true 0 [1] with broken := true }

theorem mixed_ran : (sharedSystem plainServer).runChecked (fun _ _ => true) mixedRun
    ⟨none, [], []⟩ = some ⟨some ⟨⟨[3, 2], 2, mixedStream⟩, 0⟩,
        [⟨[[1], [2]], 1, .readStream⟩, ⟨[[3], [4]], 1, .getOrCreate⟩], []⟩ := rfl

/-- The first client then commits a byte of each file. -/
theorem mixed_file_committed :
    ¬ ∀ state, (sharedSystem plainServer).Reachable (fun _ _ => True) state →
      ∀ blockIds ∈ state.committed, ∃ client ∈ state.clients,
        IsFileOf plainServer blockIds client.file := by
  intro claimed
  have assembled : (sharedSystem plainServer).Reachable (fun _ _ => True) _ :=
    System.reachable_of_runChecked (fun _ _ _ => trivial) mixedRun _ _ (.init rfl) mixed_ran
  obtain ⟨blockIds, isFile, steps⟩ := readStream_commits plainServer (fun _ _ => True) allSucceed 0
    ⟨⟨[3, 2], 2, mixedStream⟩, 0⟩ ⟨[[1], [2]], 1, .readStream⟩
    [⟨[[1], [2]], 1, .readStream⟩, ⟨[[3], [4]], 1, .getOrCreate⟩] []
    rfl rfl rfl (by decide) rfl rfl trivial (fun _ => trivial)
  obtain ⟨client, listed, isOwn⟩ :=
    claimed _ (assembled.steps steps) blockIds (List.mem_singleton_self _)
  have mixed : client.file = [3, 2] :=
    (flatten_of_isFileOf isOwn).symm.trans (flatten_of_isFileOf isFile)
  have files : client.file = [1, 2] ∨ client.file = [3, 4] := by
    change client ∈ [_, _] at listed
    rcases List.mem_cons.mp listed with rfl | listed
    · exact Or.inl rfl
    · exact Or.inr (by rw [List.mem_singleton.mp listed]; rfl)
  rw [mixed] at files
  revert files
  decide

end Nanofile
