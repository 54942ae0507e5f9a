import Nanofile.Repository.EmailMessages

/-!
# The journal of job runs

Rows of runs, finished or not, under the id of the run.  The claim for a recovery is a conditional
update; the marks of an execution are written to the row of an id whatever has become of it.
-/

set_option autoImplicit false

namespace Nanofile

structure JobHistoryPolicy where
  succeededRetentionSecs : Int
  failedRetentionSecs : Int
  maxRows : Nat

namespace JobHistoryPolicy

def standard : JobHistoryPolicy where
  succeededRetentionSecs := 30 * 86400
  failedRetentionSecs := 90 * 86400
  maxRows := 5000

def cutoffs (policy : JobHistoryPolicy) (now : Int) : Int × Int :=
  (now - policy.succeededRetentionSecs, now - policy.failedRetentionSecs)

end JobHistoryPolicy

structure JobRunRow where
  id : Nat
  kind : String
  owner : Option Int
  phase : String
  summary : String
  params : Option String
  error : Option String
  processed : Option Int
  attempt : Int
  createdAt : Int
  startedAt : Option Int
  finishedAt : Option Int
  leaseUntil : Option Int
deriving DecidableEq, Repr

namespace JobRuns

def newRow (id : Nat) (kind : String) (owner : Option Int) (summary : String)
    (params : Option String) (createdAt leaseUntil : Int) : JobRunRow where
  id := id
  kind := kind
  owner := owner
  phase := "queued"
  summary := summary
  params := params
  error := none
  processed := none
  attempt := 1
  createdAt := createdAt
  startedAt := none
  finishedAt := none
  leaseUntil := some leaseUntil

/-- The id is the primary key: an insert of a taken one fails. -/
def insert (rows : List JobRunRow) (row : JobRunRow) : Option (List JobRunRow) :=
  if rows.any fun other => other.id = row.id then none else some (rows ++ [row])

def updateWhere (rows : List JobRunRow) (chosen : JobRunRow → Bool)
    (update : JobRunRow → JobRunRow) : List JobRunRow :=
  rows.map fun row => if chosen row then update row else row

def markRunning (rows : List JobRunRow) (id : Nat) (startedAt leaseUntil : Int) :
    List JobRunRow :=
  updateWhere rows (fun row => row.id = id) fun row =>
    { row with
      phase := "running"
      startedAt := some startedAt
      leaseUntil := some leaseUntil }

/-- Without a summary the one of the submitter stays. -/
def finish (rows : List JobRunRow) (id : Nat) (phase : String) (error : Option String)
    (processed : Option Int) (summary : Option String) (finishedAt : Int) : List JobRunRow :=
  updateWhere rows (fun row => row.id = id) fun row =>
    { row with
      phase := phase
      error := error
      processed := processed
      finishedAt := some finishedAt
      leaseUntil := none
      params := none
      summary := summary.getD row.summary }

/-- Nobody holds the row at the time. -/
def leaseOver (now : Int) (row : JobRunRow) : Bool :=
  row.leaseUntil.all fun lease => lease ≤ now

def recoverable (rows : List JobRunRow) (now : Int) (limit : Nat) : List JobRunRow :=
  ((rows.filter fun row => row.finishedAt.isNone && leaseOver now row).insertionSort
    fun first second => first.createdAt ≤ second.createdAt).take limit

def claimable (id : Nat) (expectedAttempt now : Int) (row : JobRunRow) : Bool :=
  row.id = id && row.finishedAt.isNone && row.attempt = expectedAttempt && leaseOver now row

def claimForRecovery (rows : List JobRunRow) (id : Nat) (expectedAttempt now leaseUntil : Int) :
    Bool × List JobRunRow :=
  let free := claimable id expectedAttempt now
  (rows.any free, updateWhere rows free fun row =>
    { row with attempt := row.attempt + 1, leaseUntil := some leaseUntil })

/-- Finished before the cutoff of its phase. -/
def outdated (succeededBefore failedBefore : Int) (row : JobRunRow) : Bool :=
  row.finishedAt.any fun finishedAt =>
    if row.phase = "succeeded" then finishedAt < succeededBefore else finishedAt < failedBefore

def pruneByAge (rows : List JobRunRow) (succeededBefore failedBefore : Int) : List JobRunRow :=
  rows.filter fun row => !outdated succeededBefore failedBefore row

/-- When the newest row beyond those that are kept was finished. -/
def countBoundary (rows : List JobRunRow) (maxRows : Nat) : Option Int :=
  (((rows.filterMap fun row => row.finishedAt).insertionSort fun first second =>
    second ≤ first).drop maxRows).head?

def pruneByCount (rows : List JobRunRow) (cutoff : Int) : List JobRunRow :=
  rows.filter fun row => !row.finishedAt.any fun finishedAt => finishedAt ≤ cutoff

end JobRuns

end Nanofile
