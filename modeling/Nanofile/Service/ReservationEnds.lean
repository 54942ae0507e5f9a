import Nanofile.Service.Quota

/-!
# Which requests end a reservation

Synced blocks, uploaded blocks and the first chunk of a resumable upload are charged to their
user and library.  A branch update, a commit of a file and the end of a resumable upload release
what is reserved there; the commit of uploaded blocks does not, nor does a chunk that is refused.
-/

set_option autoImplicit false

namespace Nanofile

open Nanofile.Lib

/-- The build, and what `reserve_block_bytes` reads of the user: the usage, and the effective
quota if there is one. -/
structure QuotaReading where
  mode : OverflowMode
  usage : Int
  quota : Option Int

/-- What comes of a chunk once it is reserved: an intermediate chunk and an error leave the temp
file, unless it is an error that calls `abort`. -/
inductive ChunkEnd where
  | kept
  /-- An error after the commit has released the reservation. -/
  | released
  | committed
  | aborted
  /-- `check_upload_quota` refuses the commit of the last chunk. -/
  | refused
deriving DecidableEq, Repr

inductive OtherCharge where
  | reserve (delta : Int) (reading : QuotaReading)
  | release

/-- The requests of one user, and what other users do to the reservations meanwhile. -/
inductive ReservingRequest (User Library Path : Type) where
  /-- `put_block`. -/
  | putBlock (library : Library) (length : Nat) (reading : QuotaReading)
  /-- `update_branch`, accepted. -/
  | updateBranch (library : Library)
  /-- A `file` part of `upload_blks_api`. -/
  | uploadBlock (library : Library) (length : Nat) (reading : QuotaReading)
  /-- `upload_blks_api` with `commitonly`, accepted. -/
  | commitOnly (library : Library)
  /-- `try_handle_chunked`; `room` says whether the temp files are below their caps. -/
  | chunk (library : Library) (path : Path) (start : Nat) (fileSize : UInt64) (room : Bool)
      (reading : QuotaReading) (chunkEnd : ChunkEnd)
  /-- `upload_file_committed_stream`, accepted, for a file sent whole. -/
  | uploadFile (library : Library)
  | cleanupStale (stale : Library × Path → Bool)
  | elsewhere (other : User) (library : Library) (charge : OtherCharge)

/-- The reservations of all users and the temp files of this one.  The rest is history: the temp
files whose last chunk was refused for quota, the libraries with blocks put and not yet in a
branch update, and those with blocks uploaded and not yet committed. -/
structure ReservingState (User Library Path : Type) where
  reserved : Ledger (User × Library)
  active : List (Library × Path)
  refused : List (Library × Path)
  blocksPut : Library → Bool
  blocksUploaded : Library → Bool

section Model

variable {User Library Path : Type}
  [DecidableEq User] [DecidableEq Library] [DecidableEq Path]

def reserveBlockBytes (reserved : Ledger (User × Library)) (key : User × Library) (delta : Int)
    (reading : QuotaReading) : Except QuotaFault (Ledger (User × Library)) :=
  if delta ≤ 0 then .ok reserved
  else
    match reading.quota with
    | none => .ok reserved
    | some quota => reserveIfFits reading.mode reserved key delta reading.usage quota

def recordsCharge (reserved : Ledger (User × Library)) (key : User × Library) (delta : Int)
    (reading : QuotaReading) : Prop :=
  0 < delta ∧ reading.quota.isSome = true ∧
    (key ∈ reserved.keys ∨ reserved.keepPositive.rows.length < reservedMax)

namespace ReservingState

variable (user : User)

def release (state : ReservingState User Library Path) (library : Library) :
    ReservingState User Library Path :=
  { state with reserved := state.reserved.drop (user, library) }

def resume (state : ReservingState User Library Path) (key : Library × Path) :
    ReservingState User Library Path :=
  { state with refused := state.refused.filter (· ≠ key) }

def finish (state : ReservingState User Library Path) (key : Library × Path) :
    ReservingState User Library Path :=
  { state.resume key with active := state.active.filter (· ≠ key) }

/-- The temp file that is removed here has the user as its owner. -/
def abort (state : ReservingState User Library Path) (key : Library × Path) :
    ReservingState User Library Path :=
  if key ∈ state.active then (state.finish key).release user key.1 else state

def getOrCreate (state : ReservingState User Library Path) (key : Library × Path) (room : Bool) :
    Option (ReservingState User Library Path) :=
  if key ∈ state.active then some state
  else if room then some { state with active := key :: state.active }
  else none

def endChunk (state : ReservingState User Library Path) (key : Library × Path) :
    ChunkEnd → ReservingState User Library Path
  | .kept => state.resume key
  | .released => (state.release user key.1).resume key
  | .committed => (state.release user key.1).finish key
  | .aborted => state.abort user key
  | .refused => { state with refused := key :: state.refused }

def tryHandleChunked (state : ReservingState User Library Path) (key : Library × Path)
    (start : Nat) (fileSize : UInt64) (room : Bool) (reading : QuotaReading)
    (chunkEnd : ChunkEnd) : ReservingState User Library Path :=
  match state.getOrCreate key room with
  | none => state
  | some opened =>
    if start = 0 then
      match reserveBlockBytes opened.reserved (user, key.1) fileSize.toInt64.toInt reading with
      | .error .exceeded => opened.endChunk user key .refused
      | .error .overflow => opened.endChunk user key .kept
      | .ok reserved => { opened with reserved }.endChunk user key chunkEnd
    else opened.endChunk user key chunkEnd

def cleanupStale (state : ReservingState User Library Path) (stale : Library × Path → Bool) :
    ReservingState User Library Path :=
  (state.active.filter stale).foldl (abort user) state

def serve (state : ReservingState User Library Path) :
    ReservingRequest User Library Path → Option (ReservingState User Library Path)
  | .putBlock library length reading =>
    match reserveBlockBytes state.reserved (user, library) length reading with
    | .error _ => some state
    | .ok reserved =>
      some { state with
        reserved
        blocksPut := Function.update state.blocksPut library true }
  | .updateBranch library =>
    some ({ state with
      blocksPut := Function.update state.blocksPut library false }.release user library)
  | .uploadBlock library length reading =>
    match reserveBlockBytes state.reserved (user, library) length reading with
    | .error _ => some state
    | .ok reserved =>
      some { state with
        reserved
        blocksUploaded := Function.update state.blocksUploaded library true }
  | .commitOnly library =>
    -- `finalize_upload` adjusts the size and logs the activity; nothing is released.
    some { state with blocksUploaded := Function.update state.blocksUploaded library false }
  | .chunk library path start fileSize room reading chunkEnd =>
    some (state.tryHandleChunked user (library, path) start fileSize room reading chunkEnd)
  | .uploadFile library => some (state.release user library)
  | .cleanupStale stale => some (state.cleanupStale user stale)
  | .elsewhere other library charge =>
    if other = user then none
    else
      match charge with
      | .release => some { state with reserved := state.reserved.drop (other, library) }
      | .reserve delta reading =>
        match reserveBlockBytes state.reserved (other, library) delta reading with
        | .error _ => some state
        | .ok reserved => some { state with reserved }

/-- A resumable upload that goes on: its temp file is there, and its last chunk was not refused
for quota. -/
def GoesOn (state : ReservingState User Library Path) (key : Library × Path) : Prop :=
  key ∈ state.active ∧ key ∉ state.refused

/-- An upload of the user into the library that its end will release: blocks put for a branch
update, or a temp file. -/
def Releasing (state : ReservingState User Library Path) (library : Library) : Prop :=
  state.blocksPut library = true ∨ ∃ path, state.GoesOn (library, path)

def InProgress (state : ReservingState User Library Path) (library : Library) : Prop :=
  state.Releasing library ∨ state.blocksUploaded library = true

def Idle (state : ReservingState User Library Path) : Prop := ∀ library, ¬ state.InProgress library

def Fresh (state : ReservingState User Library Path) : Prop :=
  (∀ key ∈ state.reserved.keys, key.1 ≠ user) ∧ state.active = [] ∧ state.refused = [] ∧
    ∀ library, state.blocksPut library = false ∧ state.blocksUploaded library = false

end ReservingState

def reservingSystem (user : User) :
    System (ReservingState User Library Path) (ReservingRequest User Library Path) where
  init := ReservingState.Fresh user
  step := ReservingState.serve user

/-! ## Charges -/

section Charges

variable {reserved after : Ledger (User × Library)} {key : User × Library} {delta : Int}
  {reading : QuotaReading}

/-- A charge adds at most a row for its key, and only where it is recorded. -/
theorem reserveBlockBytes_records
    (charged : reserveBlockBytes reserved key delta reading = .ok after) :
    ∀ other ∈ after.keys,
      other ∈ reserved.keys ∨ other = key ∧ recordsCharge reserved key delta reading := by
  intro other listed
  unfold reserveBlockBytes at charged
  split at charged
  · cases charged
    exact Or.inl listed
  · rename_i more
    have more : 0 < delta := Int.not_le.mp more
    split at charged
    · cases charged
      exact Or.inl listed
    · rename_i quota limited
      have limited' : reading.quota.isSome = true := by rw [limited]; rfl
      have fewer : reserved.keepPositive.keys ⊆ reserved.keys :=
        (List.filter_sublist.map Prod.fst).subset
      rw [reserveIfFits, if_neg (Int.not_le.mpr more)] at charged
      obtain ⟨total, -, charged⟩ := except_bind_ok_iff.mp charged
      obtain ⟨uncommitted, -, charged⟩ := except_bind_ok_iff.mp charged
      obtain ⟨sum, -, charged⟩ := except_bind_ok_iff.mp charged
      split at charged
      · cases charged
      · split at charged
        · split at charged
          · cases charged
            exact Or.inl (fewer listed)
          · rename_i spare
            cases charged
            exact ((Ledger.mem_keys_credit ..).mp listed).imp (fewer ·) fun isKey =>
              ⟨isKey, more, limited', Or.inr (Nat.not_le.mp spare)⟩
        · rename_i room
          cases charged
          refine ((Ledger.mem_keys_credit ..).mp listed).imp_right fun isKey =>
            ⟨isKey, more, limited', ?_⟩
          by_cases known : key ∈ reserved.keys
          · exact Or.inl known
          · have below : reserved.rows.length < reservedMax :=
              Nat.not_le.mp fun full => room ⟨full, known⟩
            exact Or.inr (Nat.lt_of_le_of_lt (List.length_filter_le ..) below)

omit [DecidableEq Library] in
theorem amountsOf_eq_nil {user : User} (nothing : ∀ key ∈ reserved.keys, key.1 ≠ user) :
    amountsOf reserved user = [] := by
  rw [amountsOf, List.map_eq_nil_iff, List.filter_eq_nil_iff]
  intro row listed
  simpa using nothing _ (List.mem_map_of_mem listed)

/-- Where the user has nothing reserved, a charge is granted exactly when it fits. -/
theorem reserveBlockBytes_isOk (nothing : ∀ other ∈ reserved.keys, other.1 ≠ key.1)
    (more : 0 < delta) (usage : InI64 reading.usage) (inRange : InI64 (reading.usage + delta)) :
    (∃ granted, reserveBlockBytes reserved key delta reading = .ok granted) ↔
      ∀ quota, reading.quota = some quota → reading.usage + delta ≤ quota := by
  unfold reserveBlockBytes
  rw [if_neg (Int.not_le.mpr more)]
  cases limited : reading.quota with
  | none => simp
  | some quota =>
    simp only [Option.some.injEq, forall_eq']
    rw [reserveIfFits, if_neg (Int.not_le.mpr more), amountsOf_eq_nil nothing]
    simp only [sumI64, List.foldlM_nil, pure, Except.pure, bind, Except.bind, addI64,
      Int.add_zero, if_pos usage, if_pos inRange]
    split
    · rename_i exceeded
      simpa using exceeded
    · rename_i fits
      refine iff_of_true ?_ (Int.not_lt.mp fits)
      split
      · split <;> exact ⟨_, rfl⟩
      · exact ⟨_, rfl⟩

end Charges

/-! ## What is reserved, and for what -/

namespace ReservingState

variable {user : User} {state next : ReservingState User Library Path} {library : Library}

/-- What is reserved for the user belongs to an upload in progress. -/
def Pending (user : User) (state : ReservingState User Library Path) : Prop :=
  ∀ library, (user, library) ∈ state.reserved.keys → state.InProgress library

/-- An upload into the library other than the one at the path is in progress. -/
def Beside (state : ReservingState User Library Path) (key : Library × Path) : Prop :=
  state.blocksPut key.1 = true ∨ state.blocksUploaded key.1 = true ∨
    ∃ path, path ≠ key.2 ∧ state.GoesOn (key.1, path)

/-- The chunk finds or makes a reservation in its library. -/
def Charged (user : User) (state : ReservingState User Library Path) (library : Library)
    (start : Nat) (fileSize : UInt64) (reading : QuotaReading) : Prop :=
  (user, library) ∈ state.reserved.keys ∨ start = 0 ∧
    recordsCharge state.reserved (user, library) fileSize.toInt64.toInt reading

/-- A commit of uploaded blocks, and a chunk that is refused for quota, find nothing reserved in
their library, or another upload in progress whose end releases it. -/
def LeavesNothing (user : User) (state : ReservingState User Library Path) :
    ReservingRequest User Library Path → Prop
  | .commitOnly library => (user, library) ∈ state.reserved.keys → state.Releasing library
  | .chunk library path start fileSize _ reading chunkEnd =>
    chunkEnd = .refused ∨ start = 0 ∧ reserveBlockBytes state.reserved (user, library)
        fileSize.toInt64.toInt reading = .error .exceeded →
      state.Charged user library start fileSize reading → state.Beside (library, path)
  | _ => True

/-! ### Releases -/

variable {ended : ReservingState User Library Path} {key : Library × Path}

omit [DecidableEq Path] in
theorem Pending.release (pending : state.Pending user)
    (sameReserved : ended.reserved = state.reserved)
    (elsewhere : ∀ other, other ≠ library → state.InProgress other → ended.InProgress other) :
    (ended.release user library).Pending user := by
  intro other listed
  rw [ReservingState.release, Ledger.mem_keys_drop, sameReserved] at listed
  exact elsewhere other (fun same => listed.2 (by rw [same])) (pending other listed.1)

variable {other : Library}

omit [DecidableEq User] in
theorem inProgress_resume (busy : state.InProgress other) :
    (state.resume key).InProgress other := by
  refine busy.imp_left (Or.imp_right ?_)
  rintro ⟨path, active, going⟩
  exact ⟨path, active, fun listed => going (List.mem_of_mem_filter listed)⟩

omit [DecidableEq User] in
theorem inProgress_finish (apart : other ≠ key.1) (busy : state.InProgress other) :
    (state.finish key).InProgress other := by
  refine busy.imp_left (Or.imp_right ?_)
  rintro ⟨path, active, going⟩
  refine ⟨path, List.mem_filter.mpr ⟨active, ?_⟩, fun listed =>
    going (List.mem_of_mem_filter listed)⟩
  rw [decide_eq_true_eq]
  rintro rfl
  exact apart rfl

theorem Pending.abort (pending : state.Pending user) (key : Library × Path) :
    (state.abort user key).Pending user := by
  unfold ReservingState.abort
  split
  · exact pending.release rfl fun other apart => inProgress_finish apart
  · exact pending

theorem Pending.cleanupStale (pending : state.Pending user) (stale : Library × Path → Bool) :
    (state.cleanupStale user stale).Pending user := by
  unfold ReservingState.cleanupStale
  generalize state.active.filter stale = keys
  induction keys generalizing state with
  | nil => exact pending
  | cons key rest ih => exact ih (pending.abort key)

/-! ### Chunks -/

/-- What is reserved belongs to an upload in progress, the one at the path included. -/
def PendingWith (user : User) (key : Library × Path) (state : ReservingState User Library Path) :
    Prop :=
  key ∈ state.active ∧ ∀ library, (user, library) ∈ state.reserved.keys →
    library = key.1 ∨ state.InProgress library

theorem PendingWith.endChunk (pending : state.PendingWith user key) {chunkEnd : ChunkEnd}
    (refused : chunkEnd = .refused → (user, key.1) ∈ state.reserved.keys → state.Beside key) :
    (state.endChunk user key chunkEnd).Pending user := by
  obtain ⟨active, owned⟩ := pending
  have resumed : (state.resume key).Pending user := by
    intro library listed
    rcases owned library listed with rfl | busy
    · refine Or.inl (Or.inr ⟨key.2, active, fun listed => ?_⟩)
      simpa using (List.mem_filter.mp listed).2
    · exact inProgress_resume busy
  have finished : ((state.finish key).release user key.1).Pending user := by
    intro other listed
    rw [ReservingState.release, Ledger.mem_keys_drop] at listed
    have apart : other ≠ key.1 := fun same => listed.2 (by rw [same])
    exact inProgress_finish apart ((owned other listed.1).resolve_left apart)
  cases chunkEnd with
  | kept => exact resumed
  | released => exact resumed.release rfl fun _ _ => id
  | committed => exact finished
  | aborted =>
    rw [ReservingState.endChunk, ReservingState.abort, if_pos active]
    exact finished
  | refused =>
    intro library listed
    by_cases here : library = key.1
    · subst here
      rcases refused rfl listed with put | uploaded | ⟨path, apart, active, going⟩
      · exact Or.inl (Or.inl put)
      · exact Or.inr uploaded
      · refine Or.inl (Or.inr ⟨path, active, fun member => ?_⟩)
        rcases List.mem_cons.mp member with same | before
        · exact apart (congrArg Prod.snd same)
        · exact going before
    · refine ((owned library listed).resolve_left here).imp_left (Or.imp_right ?_)
      rintro ⟨path, active, going⟩
      refine ⟨path, active, fun member => ?_⟩
      rcases List.mem_cons.mp member with same | before
      · exact here (congrArg Prod.fst same)
      · exact going before

omit [DecidableEq User] in
theorem getOrCreate_opens {room : Bool} (opened : state.getOrCreate key room = some next) :
    next.reserved = state.reserved ∧ key ∈ next.active ∧
      (∀ library, state.InProgress library → next.InProgress library) ∧
      (state.Beside key → next.Beside key) := by
  unfold getOrCreate at opened
  split at opened
  · rename_i isActive
    cases opened
    exact ⟨rfl, isActive, fun _ => id, id⟩
  · split at opened
    · cases opened
      refine ⟨rfl, List.mem_cons_self, fun library busy => busy.imp_left (Or.imp_right ?_),
        fun beside => beside.imp_right (Or.imp_right ?_)⟩
      · rintro ⟨path, active, going⟩
        exact ⟨path, List.mem_cons_of_mem _ active, going⟩
      · rintro ⟨path, apart, active, going⟩
        exact ⟨path, apart, List.mem_cons_of_mem _ active, going⟩
    · cases opened

theorem Pending.tryHandleChunked (pending : state.Pending user) {start : Nat} {fileSize : UInt64}
    {room : Bool} {reading : QuotaReading} {chunkEnd : ChunkEnd}
    (leaves : state.LeavesNothing user
      (.chunk key.1 key.2 start fileSize room reading chunkEnd)) :
    (state.tryHandleChunked user key start fileSize room reading chunkEnd).Pending user := by
  unfold ReservingState.tryHandleChunked
  split
  · exact pending
  · rename_i opened isOpened
    obtain ⟨sameReserved, isActive, busier, besides⟩ := getOrCreate_opens isOpened
    have owned : opened.PendingWith user key := by
      refine ⟨isActive, fun library listed => Or.inr (busier _ (pending library ?_))⟩
      rw [← sameReserved]
      exact listed
    split
    · rename_i first
      rw [sameReserved]
      split
      · rename_i exceeded
        refine owned.endChunk fun _ listed => besides (leaves (Or.inr ⟨first, exceeded⟩) ?_)
        rw [sameReserved] at listed
        exact Or.inl listed
      · exact owned.endChunk fun refused => by cases refused
      · rename_i reserved charged
        have rows := reserveBlockBytes_records charged
        have owned' : PendingWith user key { opened with reserved } := by
          refine ⟨isActive, fun library listed => ?_⟩
          rcases rows _ listed with old | ⟨isKey, -⟩
          · exact Or.inr (busier _ (pending library old))
          · exact Or.inl (congrArg Prod.snd isKey)
        exact owned'.endChunk fun refused listed =>
          besides (leaves (Or.inl refused) ((rows _ listed).imp_right fun new => ⟨first, new.2⟩))
    · refine owned.endChunk fun refused listed => besides (leaves (Or.inl refused) ?_)
      rw [sameReserved] at listed
      exact Or.inl listed

/-! ### Requests -/

omit [DecidableEq User] [DecidableEq Path] in
theorem flag_set (library : Library) {flags : Library → Bool} (set : flags other = true) :
    Function.update flags library true other = true := by
  rw [Function.update_apply]
  split
  · rfl
  · exact set

theorem serve_pending (pending : state.Pending user) (request : ReservingRequest User Library Path)
    (leaves : state.LeavesNothing user request) (served : state.serve user request = some next) :
    next.Pending user := by
  cases request with
  | putBlock library length reading =>
    simp only [serve] at served
    split at served <;> cases served
    · exact pending
    · rename_i reserved charged
      intro other listed
      rcases reserveBlockBytes_records charged _ listed with old | ⟨isKey, -⟩
      · exact (pending other old).imp_left (Or.imp_left (flag_set library))
      · obtain rfl := congrArg Prod.snd isKey
        exact Or.inl (Or.inl (Function.update_self ..))
  | updateBranch library =>
    cases served
    exact pending.release rfl fun other apart => Or.imp_left (Or.imp_left fun put =>
      (Function.update_of_ne apart ..).trans put)
  | uploadBlock library length reading =>
    simp only [serve] at served
    split at served <;> cases served
    · exact pending
    · rename_i reserved charged
      intro other listed
      rcases reserveBlockBytes_records charged _ listed with old | ⟨isKey, -⟩
      · exact (pending other old).imp_right (flag_set library)
      · obtain rfl := congrArg Prod.snd isKey
        exact Or.inr (Function.update_self ..)
  | commitOnly library =>
    cases served
    intro other listed
    by_cases same : other = library
    · subst same
      exact Or.inl (leaves listed)
    · exact (pending other listed).imp_right fun uploaded =>
        (Function.update_of_ne same ..).trans uploaded
  | chunk library path start fileSize room reading chunkEnd =>
    cases served
    exact pending.tryHandleChunked leaves
  | uploadFile library =>
    cases served
    exact pending.release rfl fun _ _ => id
  | cleanupStale stale =>
    cases served
    exact pending.cleanupStale stale
  | elsewhere other library charge =>
    simp only [serve] at served
    split at served
    · cases served
    · rename_i isOther
      cases charge with
      | release =>
        cases served
        exact fun mine listed => pending mine ((Ledger.mem_keys_drop ..).mp listed).1
      | reserve delta reading =>
        simp only at served
        split at served <;> cases served
        · exact pending
        · rename_i reserved charged
          refine fun mine listed => pending mine ?_
          refine (reserveBlockBytes_records charged _ listed).resolve_right fun new => ?_
          exact isOther (congrArg Prod.fst new.1).symm

end ReservingState

/-! ## Runs -/

open ReservingState

variable {user : User} {state : ReservingState User Library Path}

end Model

section Instances

open ReservingState

def startedServer : ReservingState Nat Nat Nat :=
  ⟨.empty, [], [], fun _ => false, fun _ => false⟩

theorem startedServer_fresh : startedServer.Fresh 1 :=
  ⟨nofun, rfl, rfl, fun _ => ⟨rfl, rfl⟩⟩

theorem flag_cleared (library other : Nat) :
    Function.update (Function.update (fun _ => false) library true) library false other =
      false := by
  rw [Function.update_idem, Function.update_apply]
  split <;> rfl

def commitsBesideSync (state : ReservingState Nat Nat Nat) : ReservingRequest Nat Nat Nat → Bool
  | .commitOnly library => state.blocksPut library
  | .chunk .. => false
  | _ => true

theorem leavesNothing_of_besideSync (state : ReservingState Nat Nat Nat)
    (request : ReservingRequest Nat Nat Nat) (beside : commitsBesideSync state request = true) :
    state.LeavesNothing 1 request := by
  cases request with
  | commitOnly library => exact fun _ => Or.inl beside
  | chunk => cases beside
  | _ => trivial

def reading (usage : Int) : QuotaReading := ⟨.wraps, usage, some 100⟩

/-- User 1 uploads a block into library 7 and syncs another one there; the blocks are committed
before the branch update. -/
def syncedServer : Option (ReservingState Nat Nat Nat) :=
  (reservingSystem 1).runChecked commitsBesideSync
    [.uploadBlock 7 60 (reading 0), .putBlock 7 40 (reading 0), .commitOnly 7, .updateBranch 7]
    startedServer

def committedServer : Option (ReservingState Nat Nat Nat) :=
  (reservingSystem 1).runChecked (fun _ _ => true)
    [.uploadBlock 7 60 (reading 0), .commitOnly 7] startedServer

end Instances

end Nanofile
