import Mathlib.Algebra.Ring.Int.Defs
import Mathlib.Data.List.Sort
import Nanofile.Lib.IdTable

/-!
# The outbox table

Claims and reaped leases are conditional updates; the outcome of an attempt is written to the row
of an id whatever has become of it.
-/

set_option autoImplicit false

namespace Nanofile

open Nanofile.Lib

structure QueuePolicy where
  baseBackoffSecs : Int
  maxBackoffSecs : Int
  leaseSecs : Int
  sentRetentionSecs : Int
  failedRetentionSecs : Int
  maxFinishedRows : Nat

namespace QueuePolicy

def standard : QueuePolicy where
  baseBackoffSecs := 30
  maxBackoffSecs := 3600
  leaseSecs := 300
  sentRetentionSecs := 30 * 86400
  failedRetentionSecs := 90 * 86400
  maxFinishedRows := 1000

/-- The delay after a number of attempts, which is clamped before the shift. -/
def backoffSecs (policy : QueuePolicy) (attempts : Int) : Int :=
  let exponent := min ((max 1 (min attempts 32)).toNat - 1) 20
  min (policy.baseBackoffSecs * 2 ^ exponent) policy.maxBackoffSecs

def nextAttemptAt (policy : QueuePolicy) (now attempts : Int) : Int :=
  now + policy.backoffSecs attempts

def leaseUntil (policy : QueuePolicy) (now : Int) : Int := now + policy.leaseSecs

def retentionCutoffs (policy : QueuePolicy) (now : Int) : Int × Int :=
  (now - policy.sentRetentionSecs, now - policy.failedRetentionSecs)

end QueuePolicy

inductive MailStatus where
  | pending
  | sent
  | failed
deriving DecidableEq, Repr

structure EmailMessage where
  id : Int
  bodyEnc : Option String
  status : MailStatus
  attempts : Int
  nextAttemptAt : Int
  leaseUntil : Option Int
  lastError : Option String
  createdAt : Int
  sentAt : Option Int
deriving DecidableEq, Repr

def hasId (id : Int) (row : EmailMessage) : Bool := row.id = id

def newMessage (bodyEnc : String) (createdAt id : Int) : EmailMessage where
  id := id
  bodyEnc := some bodyEnc
  status := .pending
  attempts := 0
  nextAttemptAt := createdAt
  leaseUntil := none
  lastError := none
  createdAt := createdAt
  sentAt := none

namespace EmailMessages

def findById (rows : IdTable EmailMessage) (id : Int) : Option EmailMessage :=
  rows.rows.find? (hasId id)

/-- In the order of their deadlines, then of their ids. -/
def dueBefore (first second : EmailMessage) : Prop :=
  first.nextAttemptAt < second.nextAttemptAt ∨
    (first.nextAttemptAt = second.nextAttemptAt ∧ first.id ≤ second.id)

instance : DecidableRel dueBefore := fun _ _ => inferInstanceAs (Decidable (_ ∨ _))

def duePending (rows : IdTable EmailMessage) (now : Int) (limit : Nat) : List EmailMessage :=
  ((rows.rows.filter fun row => row.status = .pending ∧ row.nextAttemptAt ≤ now).insertionSort
    dueBefore).take limit

def claimable (id expectedAttempts now : Int) (row : EmailMessage) : Bool :=
  row.id = id ∧ row.status = .pending ∧ row.attempts = expectedAttempts ∧
    row.nextAttemptAt ≤ now ∧ ∀ lease, row.leaseUntil = some lease → lease ≤ now

def claimed (leaseUntil : Int) (row : EmailMessage) : EmailMessage :=
  { row with attempts := row.attempts + 1, leaseUntil := some leaseUntil }

def claim (rows : IdTable EmailMessage) (id expectedAttempts now leaseUntil : Int) :
    Bool × IdTable EmailMessage :=
  let free := claimable id expectedAttempts now
  (rows.rows.any free, rows.updateWhere free (claimed leaseUntil))

def leaseExpired (now : Int) (row : EmailMessage) : Bool :=
  row.status = .pending && row.leaseUntil.any fun lease => lease ≤ now

def reapExpiredLeases (rows : IdTable EmailMessage) (now : Int) : IdTable EmailMessage :=
  rows.updateWhere (leaseExpired now) fun row => { row with leaseUntil := none }

def markSent (rows : IdTable EmailMessage) (id sentAt : Int) : IdTable EmailMessage :=
  rows.updateWhere (hasId id) fun row =>
    { row with
      status := .sent
      sentAt := some sentAt
      lastError := none
      leaseUntil := none
      bodyEnc := none }

/-- With a next attempt the row stays pending; without one it has failed. -/
def markAttemptFailed (rows : IdTable EmailMessage) (id : Int) (next : Option Int)
    (error : String) : IdTable EmailMessage :=
  rows.updateWhere (hasId id) fun row =>
    { row with
      status := if next.isSome then .pending else .failed
      nextAttemptAt := next.getD 0
      lastError := some error
      leaseUntil := none }

def requeueable (id : Int) (row : EmailMessage) : Bool := row.id = id ∧ row.status = .failed

def requeue (rows : IdTable EmailMessage) (id now : Int) : Bool × IdTable EmailMessage :=
  (rows.rows.any (requeueable id), rows.updateWhere (requeueable id) fun row =>
    { row with status := .pending, nextAttemptAt := now, lastError := none })

def finished (row : EmailMessage) : Bool := row.status = .sent ∨ row.status = .failed

def deleteById (rows : IdTable EmailMessage) (id : Int) : IdTable EmailMessage :=
  rows.deleteWhere (hasId id)

def deleteFinished (rows : IdTable EmailMessage) : IdTable EmailMessage :=
  rows.deleteWhere finished

/-- Rows of a status from before the cutoff. -/
def deleteOld (rows : IdTable EmailMessage) (status : MailStatus) (cutoff : Int) :
    IdTable EmailMessage :=
  rows.deleteWhere fun row => row.status = status ∧ row.createdAt < cutoff

/-- The ids of the finished rows beyond the newest ones that are kept. -/
def pruneVictims (rows : IdTable EmailMessage) (maxFinished : Nat) : List Int :=
  (((rows.rows.filter finished).insertionSort fun first second => second.id ≤ first.id).drop
    maxFinished).map EmailMessage.id

end EmailMessages

end Nanofile
