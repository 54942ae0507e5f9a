import Nanofile.Lib.Threads
import Nanofile.Repository.EmailMessages

/-!
# Delivering queued mail

A drain reads the clock once, clears the leases that have run out, lists what is due and attempts
one message after the other with that clock value.  An administrator may put a failed message back
and attempt it, and a test message is attempted as soon as it is stored.  Each access of the table
and each delivery is a step of its own, and a process may stop before any of them.
-/

set_option autoImplicit false

namespace Nanofile

open Nanofile.Lib

def drainBatch : Nat := 25

structure Outbox where
  messages : IdTable EmailMessage
  clock : Int

/-- What comes after an attempt: a drain goes on with its rows, a single attempt is over. -/
inductive AfterAttempt where
  | drain (rest : List EmailMessage)
  | single

/-- An attempt at a row as it was read, with the clock value of the caller. -/
structure Attempt where
  row : EmailMessage
  now : Int
  maxAttempts : Int
  after : AfterAttempt

inductive MailCall where
  | drain (maxAttempts : Int)
  | reaping (now maxAttempts : Int)
  | listing (now maxAttempts : Int)
  | claiming (attempt : Attempt)
  /-- The attempt has claimed its row, at this time. -/
  | sending (attempt : Attempt) (claimedAt : Int)
  /-- `find_by_id` for the report of the drain. -/
  | reporting (now maxAttempts : Int) (rest : List EmailMessage)
  | pruningSent (now : Int)
  | pruningFailed (now : Int)
  | counting (now : Int)
  | capping (victims : List Int)
  | retry (id maxAttempts : Int)
  | requeueing (id now maxAttempts : Int)
  | finding (id now maxAttempts : Int)
  | sendTest (bodyEnc : String) (maxAttempts : Int)
  | inserting (bodyEnc : String) (now maxAttempts : Int)
  | done
deriving Inhabited

/-- What a step meets: the process stops or the database fails, or how the relay answers. -/
structure MailTick where
  stops : Bool
  relayError : Option String

inductive MailRequest where
  | enqueue (bodyEnc : String) (createdAt : Int)
  | deleteById (id : Int)
  | deleteFinished
  /-- The clock advances. -/
  | pass (seconds : Nat)

inductive MailJob where
  | drain (maxAttempts : Int)
  | retry (id maxAttempts : Int)
  | sendTest (bodyEnc : String) (maxAttempts : Int)

def unreadableBody : String :=
  "the queued message body is missing or cannot be decrypted; " ++
    "this usually means the server secret_key changed"

def goOn (now maxAttempts : Int) : List EmailMessage → MailCall
  | [] => .pruningSent now
  | row :: rest => .claiming ⟨row, now, maxAttempts, .drain rest⟩

/-- Where a call goes after an attempt that delivered, and after another one. -/
def Attempt.next (attempt : Attempt) (delivered : Bool) : MailCall :=
  match attempt.after with
  | .single => .done
  | .drain rest =>
    if delivered then goOn attempt.now attempt.maxAttempts rest
    else .reporting attempt.now attempt.maxAttempts rest

/-- The end of an attempt that has claimed its row.  The body may not decrypt any more. -/
def Attempt.finish (policy : QueuePolicy) (readable : String → Bool) (relayError : Option String)
    (attempt : Attempt) (messages : IdTable EmailMessage) : IdTable EmailMessage × Bool :=
  let attemptNo := attempt.row.attempts + 1
  if !attempt.row.bodyEnc.any readable then
    (EmailMessages.markAttemptFailed messages attempt.row.id none unreadableBody, false)
  else
    match relayError with
    | none => (EmailMessages.markSent messages attempt.row.id attempt.now, true)
    | some error =>
      let next := if attemptNo < attempt.maxAttempts
        then some (policy.nextAttemptAt attempt.now attemptNo) else none
      (EmailMessages.markAttemptFailed messages attempt.row.id next error, false)

def mailStep (policy : QueuePolicy) (readable : String → Bool) (relayError : Option String)
    (outbox : Outbox) : MailCall → Option (Outbox × MailCall)
  | .drain maxAttempts => some (outbox, .reaping outbox.clock maxAttempts)
  | .reaping now maxAttempts =>
    some ({ outbox with messages := EmailMessages.reapExpiredLeases outbox.messages now },
      .listing now maxAttempts)
  | .listing now maxAttempts =>
    some (outbox, goOn now maxAttempts (EmailMessages.duePending outbox.messages now drainBatch))
  | .claiming attempt =>
    let claim := EmailMessages.claim outbox.messages attempt.row.id attempt.row.attempts
      attempt.now (policy.leaseUntil attempt.now)
    some ({ outbox with messages := claim.2 },
      if claim.1 then .sending attempt outbox.clock else attempt.next false)
  | .sending attempt _ =>
    let outcome := attempt.finish policy readable relayError outbox.messages
    some ({ outbox with messages := outcome.1 }, attempt.next outcome.2)
  | .reporting now maxAttempts rest => some (outbox, goOn now maxAttempts rest)
  | .pruningSent now =>
    some ({ outbox with messages :=
      EmailMessages.deleteOld outbox.messages .sent (policy.retentionCutoffs now).1 },
      .pruningFailed now)
  | .pruningFailed now =>
    some ({ outbox with messages :=
      EmailMessages.deleteOld outbox.messages .failed (policy.retentionCutoffs now).2 },
      .counting now)
  | .counting _ =>
    some (outbox, .capping (EmailMessages.pruneVictims outbox.messages policy.maxFinishedRows))
  | .capping victims =>
    some ({ outbox with messages :=
      outbox.messages.deleteWhere fun row => row.id ∈ victims }, .done)
  | .retry id maxAttempts => some (outbox, .requeueing id outbox.clock maxAttempts)
  | .requeueing id now maxAttempts =>
    let requeued := EmailMessages.requeue outbox.messages id now
    some ({ outbox with messages := requeued.2 },
      if requeued.1 then .finding id now maxAttempts else .done)
  | .finding id now maxAttempts =>
    some (outbox,
      match EmailMessages.findById outbox.messages id with
      | none => .done
      | some row => .claiming ⟨row, now, maxAttempts, .single⟩)
  | .sendTest bodyEnc maxAttempts => some (outbox, .inserting bodyEnc outbox.clock maxAttempts)
  | .inserting bodyEnc now maxAttempts =>
    some ({ outbox with messages := outbox.messages.append (newMessage bodyEnc now) },
      .claiming ⟨newMessage bodyEnc now outbox.messages.nextId, now, maxAttempts, .single⟩)
  | .done => none

def serveMail (outbox : Outbox) : MailRequest → Outbox
  | .enqueue bodyEnc createdAt =>
    { outbox with messages := outbox.messages.append (newMessage bodyEnc createdAt) }
  | .deleteById id => { outbox with messages := EmailMessages.deleteById outbox.messages id }
  | .deleteFinished => { outbox with messages := EmailMessages.deleteFinished outbox.messages }
  | .pass seconds => { outbox with clock := outbox.clock + seconds }

def mailProgram (policy : QueuePolicy) (readable : String → Bool) :
    Program Outbox MailCall MailRequest MailJob MailTick where
  serve request outbox := serveMail outbox request
  begin
    | .drain maxAttempts => .drain maxAttempts
    | .retry id maxAttempts => .retry id maxAttempts
    | .sendTest bodyEnc maxAttempts => .sendTest bodyEnc maxAttempts
  advance tick outbox call :=
    if tick.stops then some (outbox, .done)
    else mailStep policy readable tick.relayError outbox call

variable {policy : QueuePolicy}

/-- How a row changes in one step at a time.  `holder` is the id and the attempt number of the
attempt that writes its outcome. -/
inductive RowMoves (clock : Int) (holder : Option (Int × Int)) :
    EmailMessage → EmailMessage → Prop
  | same (row : EmailMessage) : RowMoves clock holder row row
  | released {row : EmailMessage} {lease : Int} (held : row.leaseUntil = some lease)
      (expired : lease ≤ clock) (pending : row.status = .pending) :
      RowMoves clock holder row { row with leaseUntil := none }
  | claimed {row : EmailMessage} (leaseUntil : Int) (pending : row.status = .pending)
      (free : ∀ lease, row.leaseUntil = some lease → lease ≤ clock) :
      RowMoves clock holder row (EmailMessages.claimed leaseUntil row)
  | ended {row row' : EmailMessage} (mine : holder = some (row.id, row.attempts))
      (pending : row.status = .pending) (sameAttempts : row'.attempts = row.attempts)
      (kept : row'.status = .sent ∨ row'.bodyEnc = row.bodyEnc) : RowMoves clock holder row row'
  | requeued {row : EmailMessage} (now : Int) (failed : row.status = .failed) :
      RowMoves clock holder row
        { row with status := .pending, nextAttemptAt := now, lastError := none }

/-- Rows change, go, or are new. -/
structure TableMoves (clock : Int) (holder : Option (Int × Int))
    (before after : IdTable EmailMessage) : Prop where
  next : before.nextId ≤ after.nextId
  rows : ∀ row' ∈ after.rows, (before.nextId ≤ row'.id ∧ row'.bodyEnc.isSome = true) ∨
    ∃ row ∈ before.rows, row'.id = row.id ∧ RowMoves clock holder row row'

section

variable (clock : Int) (holder : Option (Int × Int)) (messages : IdTable EmailMessage)
include clock holder messages

theorem TableMoves.refl : TableMoves clock holder messages messages :=
  ⟨Int.le_refl _, fun row listed => Or.inr ⟨row, listed, rfl, .same row⟩⟩

theorem tableMoves_deleteWhere (gone : EmailMessage → Bool) :
    TableMoves clock holder messages (messages.deleteWhere gone) :=
  ⟨Int.le_refl _, fun row listed =>
    Or.inr ⟨row, (IdTable.mem_deleteWhere.mp listed).1, rfl, .same row⟩⟩

theorem tableMoves_append (bodyEnc : String) (createdAt : Int) :
    TableMoves clock holder messages (messages.append (newMessage bodyEnc createdAt)) := by
  refine ⟨?_, fun row listed => ?_⟩
  · show messages.nextId ≤ messages.nextId + 1
    omega
  · rcases IdTable.mem_append.mp listed with old | rfl
    · exact Or.inr ⟨row, old, rfl, .same row⟩
    · exact Or.inl ⟨Int.le_refl _, rfl⟩

end

theorem tableMoves_updateWhere {clock : Int} {holder : Option (Int × Int)}
    {messages : IdTable EmailMessage} {chosen : EmailMessage → Bool}
    {update : EmailMessage → EmailMessage} (sameId : ∀ row, (update row).id = row.id)
    (moves : ∀ row ∈ messages.rows, chosen row = true → RowMoves clock holder row (update row)) :
    TableMoves clock holder messages (messages.updateWhere chosen update) := by
  refine ⟨Int.le_refl _, fun row' listed => Or.inr ?_⟩
  obtain ⟨row, member, rfl⟩ := IdTable.mem_updateWhere.mp listed
  by_cases isChosen : chosen row = true
  · rw [if_pos isChosen]
    exact ⟨row, member, sameId row, moves row member isChosen⟩
  · rw [if_neg isChosen]
    exact ⟨row, member, rfl, .same row⟩

/-- An attempt that is still in flight at the end of its stored lease has lasted a lease. -/
def leaseCovers (policy : QueuePolicy) (clock : Int) (attempt : Attempt) (claimedAt : Int) : Prop :=
  clock < policy.leaseUntil attempt.now ∨ claimedAt + policy.leaseSecs ≤ clock

structure Held (policy : QueuePolicy) (clock : Int) (attempt : Attempt) (claimedAt : Int)
    (row : EmailMessage) : Prop where
  counted : attempt.row.attempts + 1 ≤ row.attempts
  latest : row.attempts = attempt.row.attempts + 1 → row.status = .pending
  young : clock < claimedAt + policy.leaseSecs → row.attempts = attempt.row.attempts + 1 ∧
    row.leaseUntil = some (policy.leaseUntil attempt.now)

structure InFlight (policy : QueuePolicy) (outbox : Outbox) (attempt : Attempt)
    (claimedAt : Int) : Prop where
  known : attempt.row.id < outbox.messages.nextId
  read : attempt.now ≤ outbox.clock
  claimed : claimedAt ≤ outbox.clock
  covers : leaseCovers policy outbox.clock attempt claimedAt
  row : ∀ row ∈ outbox.messages.rows, row.id = attempt.row.id →
    Held policy outbox.clock attempt claimedAt row

def MailCallKept (policy : QueuePolicy) (outbox : Outbox) : MailCall → Prop
  | .sending attempt claimedAt => InFlight policy outbox attempt claimedAt
  | .claiming attempt => attempt.now ≤ outbox.clock
  | .reaping now _ | .listing now _ | .reporting now _ _ | .requeueing _ now _ |
    .finding _ now _ | .inserting _ now _ => now ≤ outbox.clock
  | _ => True

/-- Two attempts in flight at one row are numbered apart and a lease apart. -/
def PairKept (policy : QueuePolicy) : MailCall → MailCall → Prop
  | .sending first claimedFirst, .sending second claimedSecond =>
    first.row.id = second.row.id → first.row.attempts ≠ second.row.attempts ∧
      (claimedFirst + policy.leaseSecs ≤ claimedSecond ∨
        claimedSecond + policy.leaseSecs ≤ claimedFirst)
  | _, _ => True

/-- Ids are unique, and what is not sent has its body. -/
structure OutboxKept (messages : IdTable EmailMessage) : Prop where
  ids : IdTable.Ids EmailMessage.id messages
  bodies : ∀ row ∈ messages.rows, row.status ≠ .sent → row.bodyEnc.isSome = true

def SentFor (id : Int) (messages : IdTable EmailMessage) : Prop :=
  id < messages.nextId ∧ ∀ row ∈ messages.rows, row.id = id → row.status = .sent

variable {clock : Int} {holder : Option (Int × Int)} {before after : IdTable EmailMessage}

theorem TableMoves.bodies (moves : TableMoves clock holder before after)
    (bodies : ∀ row ∈ before.rows, row.status ≠ .sent → row.bodyEnc.isSome = true) :
    ∀ row ∈ after.rows, row.status ≠ .sent → row.bodyEnc.isSome = true := by
  intro row' listed unsent
  rcases moves.rows row' listed with ⟨-, fresh⟩ | ⟨row, member, -, step⟩
  · exact fresh
  · cases step with
    | same => exact bodies row' member unsent
    | released held expired pending | claimed leaseUntil pending free =>
      exact bodies row member unsent
    | ended mine pending sameAttempts kept =>
      rw [kept.resolve_left unsent]
      exact bodies row member (by simp [pending])
    | requeued now failed => exact bodies row member (by simp [failed])

theorem TableMoves.sentFor {id : Int} (moves : TableMoves clock holder before after)
    (sent : SentFor id before) : SentFor id after := by
  refine ⟨Int.lt_of_lt_of_le sent.1 moves.next, fun row' listed isId => ?_⟩
  rcases moves.rows row' listed with ⟨fresh, -⟩ | ⟨row, member, sameId, step⟩
  · have known := sent.1
    omega
  · have wasSent := sent.2 row member (sameId.symm.trans isId)
    cases step with
    | same => exact wasSent
    | released held expired pending | claimed leaseUntil pending free
    | ended mine pending sameAttempts kept => simp [wasSent] at pending
    | requeued now failed => simp [wasSent] at failed

theorem InFlight.stable {attempt : Attempt} {claimedAt : Int}
    (moves : TableMoves clock holder before after)
    (others : holder ≠ some (attempt.row.id, attempt.row.attempts + 1))
    (flight : InFlight policy ⟨before, clock⟩ attempt claimedAt) :
    InFlight policy ⟨after, clock⟩ attempt claimedAt := by
  refine ⟨Int.lt_of_lt_of_le flight.known moves.next, flight.read, flight.claimed, flight.covers,
    fun row' listed isId => ?_⟩
  rcases moves.rows row' listed with ⟨fresh, -⟩ | ⟨row, member, sameId, step⟩
  · have known : attempt.row.id < before.nextId := flight.known
    omega
  · have held := flight.row row member (sameId.symm.trans isId)
    -- A young attempt has a lease that has not run out.
    have fresh : clock < claimedAt + policy.leaseSecs →
        ∀ lease, row.leaseUntil = some lease → clock < lease := by
      intro young lease isLease
      have isOwn := (held.young young).2
      rw [isLease, Option.some.injEq] at isOwn
      rw [isOwn]
      have covers : leaseCovers policy clock attempt claimedAt := flight.covers
      exact covers.resolve_right (by omega)
    cases step with
    | same => exact held
    | released isLease expired pending =>
      refine ⟨held.counted, held.latest, fun young => ?_⟩
      have alive := fresh young _ isLease
      omega
    | claimed leaseUntil pending free =>
      have more := held.counted
      refine ⟨?_, fun latest => pending, fun young => ?_⟩
      · show attempt.row.attempts + 1 ≤ row.attempts + 1
        omega
      · have isLease := (held.young young).2
        have alive := fresh young _ isLease
        have expired := free _ isLease
        omega
    | ended mine pending sameAttempts kept =>
      have other : row.attempts ≠ attempt.row.attempts + 1 := by
        intro same
        exact others (by rw [mine, same, ← sameId, isId])
      refine ⟨?_, fun latest => ?_, fun young => ?_⟩
      · rw [sameAttempts]
        exact held.counted
      · exact absurd (sameAttempts.symm.trans latest) other
      · exact absurd (held.young young).1 other
    | requeued now failed => exact ⟨held.counted, fun _ => rfl, held.young⟩

end Nanofile
