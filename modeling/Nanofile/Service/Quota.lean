import Nanofile.Lib.Proc
import Nanofile.Lib.Threads

/-!
# Storage quota reservations

A request reserves bytes before it writes blocks: it looks up the committed usage, in a
cache or by a sum over the libraries, and then reserves under one lock.  Reservations
are kept for each user and library.  Each request runs in single steps and the steps of
all requests interleave.
-/

set_option autoImplicit false

namespace Nanofile

open Nanofile.Lib

def reservedMax : Nat := 8192

/-- A debug build stops at an overflow, a release build wraps around. -/
inductive OverflowMode where
  | panics
  | wraps
deriving DecidableEq

inductive QuotaFault where
  | exceeded
  | overflow
deriving DecidableEq

def InI64 (number : Int) : Prop := -2 ^ 63 ≤ number ∧ number < 2 ^ 63

instance (number : Int) : Decidable (InI64 number) := inferInstanceAs (Decidable (_ ∧ _))

def addI64 (mode : OverflowMode) (left right : Int) : Except QuotaFault Int :=
  if InI64 (left + right) then .ok (left + right)
  else match mode with
    | .panics => .error .overflow
    | .wraps => .ok ((left + right).bmod (2 ^ 64))

def sumI64 (mode : OverflowMode) (amounts : List Int) : Except QuotaFault Int :=
  amounts.foldlM (addI64 mode) 0

/-- The build, the libraries with their owners, and the effective quota of every user; no quota
is unlimited. -/
structure Accounts (User Library : Type) where
  mode : OverflowMode
  libraries : List Library
  owner : Library → User
  quota : User → Option Int

/-- An upload session, with the bytes granted to it so far.  It is open until it is
committed or abandoned. -/
structure UploadSession (User Library : Type) where
  user : User
  library : Library
  granted : Nat
  isOpen : Bool

def UploadSession.key {User Library : Type} (upload : UploadSession User Library) :
    User × Library := (upload.user, upload.library)

/-- The rows and caches every request works on.  The uploads are history: no request
reads what was granted to them. -/
structure QuotaState (User Library : Type) where
  sizes : Library → Int
  usage : User → Option Int
  reserved : Ledger (User × Library)
  uploads : List (UploadSession User Library)

inductive ReservePc where
  | lookup
  | computed (usage : Int)
  | known (usage : Int)
  | granted
  | refused (error : QuotaFault)
  | uncharged

inductive CommitPc where
  | start
  | sized
  | released
  | done

inductive AbortPc where
  | start
  | closed
  | done

inductive QuotaCall where
  | reserve (upload : Nat) (delta : Int) (pc : ReservePc)
  | commit (upload : Nat) (delta : Int) (pc : CommitPc)
  | abort (upload : Nat) (pc : AbortPc)

inductive QuotaJob where
  | reserve (upload : Nat) (delta : Int)
  | commit (upload : Nat) (delta : Int)
  | abort (upload : Nat)

inductive QuotaRequest (User Library : Type) where
  | openUpload (user : User) (library : Library)

section Model

variable {User Library : Type} [DecidableEq User] [DecidableEq Library]

def sumSizeByOwner (accounts : Accounts User Library) (sizes : Library → Int) (user : User) :
    Int :=
  ((accounts.libraries.filter fun library => accounts.owner library = user).map sizes).sum

def reservedTotal (reserved : Ledger (User × Library)) (user : User) : Int :=
  reserved.total fun key => key.1 = user

/-- Found once, for the membership tests of keys that are pairs. -/
instance lawfulBEq_pair {First Second : Type} [DecidableEq First]
    [DecidableEq Second] : LawfulBEq (First × Second) := inferInstance

def amountsOf (reserved : Ledger (User × Library)) (user : User) : List Int :=
  (reserved.rows.filter fun row => row.1.1 = user).map Prod.snd

/-- `reserve_if_fits`: one step under the lock of the reservations. -/
def reserveIfFits (mode : OverflowMode) (reserved : Ledger (User × Library))
    (key : User × Library) (delta committed quota : Int) :
    Except QuotaFault (Ledger (User × Library)) :=
  if delta ≤ 0 then .ok reserved
  else do
    let total ← sumI64 mode (amountsOf reserved key.1)
    let uncommitted ← addI64 mode committed total
    let sum ← addI64 mode uncommitted delta
    if sum > quota then .error .exceeded
    else if reservedMax ≤ reserved.rows.length ∧ key ∉ reserved.keys then
      -- a full map: the reservation is granted but, if no row is spare, not recorded
      if reservedMax ≤ reserved.keepPositive.rows.length then .ok reserved.keepPositive
      else .ok (reserved.keepPositive.credit key delta)
    else .ok (reserved.credit key delta)

namespace QuotaState

def grant (state : QuotaState User Library) (upload : Nat) (entry : UploadSession User Library)
    (delta : Int) : QuotaState User Library :=
  { state with
    uploads := state.uploads.set upload { entry with granted := entry.granted + delta.toNat } }

def close (state : QuotaState User Library) (upload : Nat) (entry : UploadSession User Library) :
    QuotaState User Library :=
  { state with uploads := state.uploads.set upload { entry with isOpen := false } }

def adjustSize (state : QuotaState User Library) (library : Library) (delta : Int) :
    QuotaState User Library :=
  { state with
    sizes := Function.update state.sizes library (max 0 (state.sizes library + delta)) }

def releaseRepo (state : QuotaState User Library) (key : User × Library) :
    QuotaState User Library :=
  { state with reserved := state.reserved.drop key }

def storeUsage (state : QuotaState User Library) (user : User) (usage : Int) :
    QuotaState User Library :=
  { state with usage := Function.update state.usage user (some usage) }

def invalidateUsage (state : QuotaState User Library) (user : User) :
    QuotaState User Library :=
  { state with usage := Function.update state.usage user none }

end QuotaState

variable (accounts : Accounts User Library)

/-- A step of `reserve_block_bytes`.  The tick says whether a cached usage is fresh, or
whether the cache has room for a new one. -/
def reserveStep (tick : Bool) (state : QuotaState User Library) (upload : Nat)
    (entry : UploadSession User Library) (delta : Int) :
    ReservePc → Option (QuotaState User Library × ReservePc)
  | .lookup =>
    if delta ≤ 0 ∨ accounts.quota entry.user = none then some (state, .uncharged)
    else
      match if tick then state.usage entry.user else none with
      | some usage => some (state, .known usage)
      | none => some (state, .computed (sumSizeByOwner accounts state.sizes entry.user))
  | .computed usage =>
    some (if tick then state.storeUsage entry.user usage else state, .known usage)
  | .known usage =>
    (accounts.quota entry.user).map fun quota =>
      match reserveIfFits accounts.mode state.reserved entry.key delta usage quota with
      | .error error => (state, .refused error)
      | .ok reserved => ({ state with reserved }.grant upload entry delta, .granted)
  | .granted | .refused _ | .uncharged => none

/-- A commit: the size is increased, the reservation released, the usage invalidated. -/
def commitStep (state : QuotaState User Library) (upload : Nat) (entry : UploadSession User Library)
    (delta : Int) : CommitPc → Option (QuotaState User Library × CommitPc)
  | .start => some ((state.adjustSize entry.library delta).close upload entry, .sized)
  | .sized => some (state.releaseRepo entry.key, .released)
  | .released => some (state.invalidateUsage entry.user, .done)
  | .done => none

/-- `abort` and `cleanup_stale`: the entry is removed, then its reservation released. -/
def abortStep (state : QuotaState User Library) (upload : Nat) (entry : UploadSession User Library) :
    AbortPc → Option (QuotaState User Library × AbortPc)
  | .start => some (state.close upload entry, .closed)
  | .closed => some (state.releaseRepo entry.key, .done)
  | .done => none

def quotaStep (tick : Bool) (state : QuotaState User Library) :
    QuotaCall → Option (QuotaState User Library × QuotaCall)
  | .reserve upload delta pc =>
    state.uploads[upload]?.bind fun entry =>
      (reserveStep accounts tick state upload entry delta pc).map
        (Prod.map id (.reserve upload delta))
  | .commit upload delta pc =>
    state.uploads[upload]?.bind fun entry =>
      (commitStep state upload entry delta pc).map (Prod.map id (.commit upload delta))
  | .abort upload pc =>
    state.uploads[upload]?.bind fun entry =>
      (abortStep state upload entry pc).map (Prod.map id (.abort upload))

def quotaProgram :
    Program (QuotaState User Library) QuotaCall (QuotaRequest User Library) QuotaJob Bool where
  serve
    | .openUpload user library, state =>
      { state with uploads := state.uploads ++ [⟨user, library, 0, true⟩] }
  begin
    | .reserve upload delta => .reserve upload delta .lookup
    | .commit upload delta => .commit upload delta .start
    | .abort upload => .abort upload .start
  advance := quotaStep accounts

/-- A server that has just started holds no reservation and knows no upload. -/
def QuotaState.Fresh (state : QuotaState User Library) : Prop :=
  state.reserved = .empty ∧ state.uploads = []

def quotaSystem :
    System (Threads (QuotaState User Library) QuotaCall)
      (ThreadAction (QuotaRequest User Library) QuotaJob Bool) :=
  (quotaProgram accounts).system QuotaState.Fresh

/-- The bytes granted to the open uploads of the keys that pass a test. -/
def outstandingOf (counts : User × Library → Bool) (upload : UploadSession User Library) : Int :=
  if upload.isOpen && counts upload.key then upload.granted else 0

def QuotaState.outstanding (state : QuotaState User Library)
    (counts : User × Library → Bool) : Int :=
  (state.uploads.map (outstandingOf counts)).sum

def QuotaState.outstandingTotal (state : QuotaState User Library) (user : User) : Int :=
  state.outstanding fun key => key.1 = user

/-! ## Sums in 64 bits -/

/-- What a sum that comes through leaves out is a multiple of the range. -/
def WrapsTo (exact result : Int) : Prop :=
  InI64 result ∧ ∃ rounds : Int, exact = result + rounds * 2 ^ 64

variable {mode : OverflowMode} {left right : Int}

theorem addI64_ok {sum : Int} (added : addI64 mode left right = .ok sum) :
    WrapsTo (left + right) sum := by
  unfold addI64 at added
  split at added
  · rename_i within
    cases added
    exact ⟨within, 0, by omega⟩
  · cases mode with
    | panics => cases added
    | wraps =>
      cases added
      have low := @Int.le_bmod (left + right) (2 ^ 64) (by decide)
      have high := @Int.bmod_lt (left + right) (2 ^ 64) (by decide)
      have split := Int.bdiv_add_bmod (left + right) (2 ^ 64)
      exact ⟨⟨by omega, by omega⟩, (left + right).bdiv (2 ^ 64), by omega⟩

theorem sumI64_ok : ∀ {amounts : List Int} {start total : Int}, InI64 start →
    amounts.foldlM (addI64 mode) start = .ok total → WrapsTo (start + amounts.sum) total := by
  intro amounts
  induction amounts with
  | nil =>
    intro start total within added
    cases added
    exact ⟨within, 0, by simp⟩
  | cons amount rest ih =>
    intro start total _ added
    obtain ⟨first, isFirst, more⟩ := except_bind_ok_iff.mp added
    obtain ⟨within, rounds, split⟩ := addI64_ok isFirst
    obtain ⟨within', rounds', split'⟩ := ih within more
    refine ⟨within', rounds + rounds', ?_⟩
    rw [List.sum_cons]
    omega

omit [DecidableEq Library] in
theorem sum_amountsOf (reserved : Ledger (User × Library)) (user : User) :
    (amountsOf reserved user).sum = reservedTotal reserved user := by
  unfold amountsOf reservedTotal Ledger.total
  induction reserved.rows with
  | nil => rfl
  | cons row rest ih =>
    rw [List.filter_cons, List.map_cons, List.sum_cons, ← ih]
    by_cases same : row.1.1 = user
    · simp [same]
    · simp [same]

/-- A grant is within the quota where its sum is in the range. -/
theorem reserveIfFits_ok {reserved after : Ledger (User × Library)} {key : User × Library}
    {delta committed quota : Int} (positive : 0 < delta)
    (inRange : InI64 (committed + reservedTotal reserved key.1 + delta))
    (granted : reserveIfFits mode reserved key delta committed quota = .ok after) :
    committed + reservedTotal reserved key.1 + delta ≤ quota ∧
      (reserved.rows.length < reservedMax ∨ key ∈ reserved.keys →
        after = reserved.credit key delta) := by
  rw [reserveIfFits, if_neg (Int.not_le.mpr positive)] at granted
  obtain ⟨total, summed, granted⟩ := except_bind_ok_iff.mp granted
  obtain ⟨uncommitted, added, granted⟩ := except_bind_ok_iff.mp granted
  obtain ⟨sum, added', granted⟩ := except_bind_ok_iff.mp granted
  obtain ⟨-, rounds, isTotal⟩ := sumI64_ok (by decide) summed
  obtain ⟨-, rounds', isUncommitted⟩ := addI64_ok added
  obtain ⟨within, rounds'', isSum⟩ := addI64_ok added'
  rw [sum_amountsOf] at isTotal
  unfold InI64 at inRange within
  split at granted
  · cases granted
  · refine ⟨by omega, fun room => ?_⟩
    rw [if_neg fun full => room.elim (Nat.not_lt.mpr full.1) full.2] at granted
    exact (Except.ok.inj granted).symm

end Model

end Nanofile
