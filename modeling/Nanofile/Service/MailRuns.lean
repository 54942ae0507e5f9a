import Nanofile.Service.MailQueue

/-!
# No delivery is lost or repeated in time

As long as an attempt writes its outcome only to a row that nobody has claimed after it, and no
attempt outlives the lease stored for it while it is younger than a lease, a claim never meets a
young attempt and nothing is written to a message that was sent.
-/

set_option autoImplicit false

namespace Nanofile

open Nanofile.Lib

variable {policy : QueuePolicy} {readable : String → Bool} {clock : Int}
  {holder : Option (Int × Int)} {before after : IdTable EmailMessage}

/-! ## The steps -/

/-- A claim stores a lease that has not run out yet, and an outcome is written to a row that
nobody has claimed since. -/
def inTime (policy : QueuePolicy) (outbox : Outbox) : MailCall → Prop
  | .claiming attempt => ∀ row ∈ outbox.messages.rows,
      EmailMessages.claimable attempt.row.id attempt.row.attempts attempt.now row = true →
        outbox.clock < policy.leaseUntil attempt.now
  | .sending attempt _ => ∀ row ∈ outbox.messages.rows, row.id = attempt.row.id →
      row.attempts = attempt.row.attempts + 1
  | _ => True

def holderOf : MailCall → Option (Int × Int)
  | .sending attempt _ => some (attempt.row.id, attempt.row.attempts + 1)
  | _ => none

variable {now : Int} {outbox : Outbox}

theorem mailCallKept_goOn {maxAttempts : Int} (read : now ≤ outbox.clock)
    (rows : List EmailMessage) : MailCallKept policy outbox (goOn now maxAttempts rows) := by
  cases rows with
  | nil => trivial
  | cons row rest => exact read

variable {attempt : Attempt}

theorem mailCallKept_next (read : attempt.now ≤ outbox.clock) (delivered : Bool) :
    MailCallKept policy outbox (attempt.next delivered) := by
  unfold Attempt.next
  split
  · trivial
  · split
    · exact mailCallKept_goOn read _
    · exact read

variable {id : Int}

theorem mem_claimable {expected : Int} {row : EmailMessage}
    (free : EmailMessages.claimable id expected now row = true) :
    row.id = id ∧ row.status = .pending ∧ row.attempts = expected ∧
      ∀ lease, row.leaseUntil = some lease → lease ≤ now := by
  obtain ⟨isId, pending, isExpected, -, expired⟩ := of_decide_eq_true free
  exact ⟨isId, pending, isExpected, expired⟩

variable (clock holder) in
theorem claim_moves (kept : OutboxKept before) (read : attempt.now ≤ clock) (leaseUntil : Int) :
    let claim := EmailMessages.claim before attempt.row.id attempt.row.attempts attempt.now leaseUntil
    TableMoves clock holder before claim.2 ∧ OutboxKept claim.2 := by
  have moves : TableMoves clock holder before (before.updateWhere
      (EmailMessages.claimable attempt.row.id attempt.row.attempts attempt.now)
      (EmailMessages.claimed leaseUntil)) := by
    refine tableMoves_updateWhere (fun _ => rfl) fun row _ free => ?_
    obtain ⟨-, pending, -, expired⟩ := mem_claimable free
    exact .claimed leaseUntil pending fun lease isLease =>
      Int.le_trans (expired lease isLease) read
  exact ⟨moves, kept.ids.updateWhere fun _ => rfl, moves.bodies kept.bodies⟩

theorem claim_flight (kept : OutboxKept before) (read : attempt.now ≤ clock)
    (inTime : inTime policy ⟨before, clock⟩ (.claiming attempt))
    (won : (EmailMessages.claim before attempt.row.id attempt.row.attempts attempt.now
      (policy.leaseUntil attempt.now)).1 = true) :
    InFlight policy ⟨(EmailMessages.claim before attempt.row.id attempt.row.attempts attempt.now
      (policy.leaseUntil attempt.now)).2, clock⟩ attempt clock := by
  obtain ⟨row, member, free⟩ := List.any_eq_true.mp won
  obtain ⟨isId, pending, isExpected, expired⟩ := mem_claimable free
  refine ⟨?_, read, Int.le_refl _, Or.inl (inTime row member free), fun row' listed sameId => ?_⟩
  · rw [← isId]
    exact kept.ids.below row member
  · obtain ⟨old, memberOld, rfl⟩ := IdTable.mem_updateWhere.mp listed
    have sameOld : old.id = row.id := by
      rw [isId, ← sameId]
      split <;> rfl
    obtain rfl := kept.ids.eq_of_id memberOld member sameOld
    rw [if_pos free]
    refine ⟨?_, fun _ => pending, fun _ => ⟨?_, rfl⟩⟩
    · simp [EmailMessages.claimed, isExpected]
    · simp [EmailMessages.claimed, isExpected]

variable {claimedAt : Int}

theorem finish_moves (readable : String → Bool) (relayError : Option String)
    (kept : OutboxKept before) (flight : InFlight policy ⟨before, clock⟩ attempt claimedAt)
    (inTime : inTime policy ⟨before, clock⟩ (.sending attempt claimedAt)) :
    let outcome := attempt.finish policy readable relayError before
    TableMoves clock (holderOf (.sending attempt claimedAt)) before outcome.1 ∧
      OutboxKept outcome.1 := by
  have ended : ∀ update : EmailMessage → EmailMessage, (∀ row, (update row).id = row.id) →
      (∀ row, (update row).attempts = row.attempts) →
      (∀ row, (update row).status = .sent ∨ (update row).bodyEnc = row.bodyEnc) →
      TableMoves clock (holderOf (.sending attempt claimedAt)) before
          (before.updateWhere (hasId attempt.row.id) update) ∧
        OutboxKept (before.updateWhere (hasId attempt.row.id) update) := by
    intro update sameId sameAttempts body
    have moves : TableMoves clock (holderOf (.sending attempt claimedAt)) before
        (before.updateWhere (hasId attempt.row.id) update) := by
      refine tableMoves_updateWhere sameId fun row member isId => ?_
      have isId : row.id = attempt.row.id := of_decide_eq_true isId
      have latest := inTime row member isId
      refine .ended ?_ ((flight.row row member isId).latest latest) (sameAttempts row) (body row)
      rw [holderOf, isId, latest]
    exact ⟨moves, kept.ids.updateWhere sameId, moves.bodies kept.bodies⟩
  unfold Attempt.finish
  dsimp only
  split
  · exact ended _ (fun _ => rfl) (fun _ => rfl) fun _ => Or.inr rfl
  · split
    · exact ended _ (fun _ => rfl) (fun _ => rfl) fun _ => Or.inl rfl
    · exact ended _ (fun _ => rfl) (fun _ => rfl) fun _ => Or.inr rfl

variable (clock holder) in
theorem deleteWhere_kept (kept : OutboxKept before) (gone : EmailMessage → Bool) :
    TableMoves clock holder before (before.deleteWhere gone) ∧
      OutboxKept (before.deleteWhere gone) :=
  ⟨tableMoves_deleteWhere _ _ _ _, kept.ids.deleteWhere gone,
    (tableMoves_deleteWhere clock holder before gone).bodies kept.bodies⟩

variable (clock holder) in
theorem append_kept (kept : OutboxKept before) (bodyEnc : String) (createdAt : Int) :
    TableMoves clock holder before (before.append (newMessage bodyEnc createdAt)) ∧
      OutboxKept (before.append (newMessage bodyEnc createdAt)) :=
  ⟨tableMoves_append _ _ _ _ _, kept.ids.append fun _ => rfl,
    (tableMoves_append clock holder before bodyEnc createdAt).bodies kept.bodies⟩

variable (clock holder) in
theorem reap_kept (kept : OutboxKept before) (read : now ≤ clock) :
    TableMoves clock holder before (EmailMessages.reapExpiredLeases before now) ∧
      OutboxKept (EmailMessages.reapExpiredLeases before now) := by
  have moves : TableMoves clock holder before (EmailMessages.reapExpiredLeases before now) := by
    refine tableMoves_updateWhere (fun _ => rfl) fun row _ expired => ?_
    obtain ⟨pending, out⟩ := Bool.and_eq_true_iff.mp expired
    obtain ⟨lease, isLease, past⟩ := (Option.any_eq_true _ _).mp out
    exact .released isLease (Int.le_trans (of_decide_eq_true past) read)
      (of_decide_eq_true pending)
  exact ⟨moves, kept.ids.updateWhere fun _ => rfl, moves.bodies kept.bodies⟩

variable (clock holder) in
theorem requeue_kept (kept : OutboxKept before) (id now : Int) :
    TableMoves clock holder before (EmailMessages.requeue before id now).2 ∧
      OutboxKept (EmailMessages.requeue before id now).2 := by
  have moves : TableMoves clock holder before (EmailMessages.requeue before id now).2 := by
    refine tableMoves_updateWhere (fun _ => rfl) fun row _ failed => ?_
    exact .requeued now (of_decide_eq_true failed).2
  exact ⟨moves, kept.ids.updateWhere fun _ => rfl, moves.bodies kept.bodies⟩

variable {call : MailCall} {next : Outbox} {relayError : Option String} {call' : MailCall}

theorem mailStep_kept (kept : OutboxKept outbox.messages) (own : MailCallKept policy outbox call)
    (timely : inTime policy outbox call)
    (step : mailStep policy readable relayError outbox call = some (next, call')) :
    next.clock = outbox.clock ∧
      TableMoves outbox.clock (holderOf call) outbox.messages next.messages ∧
      OutboxKept next.messages ∧ MailCallKept policy next call' := by
  have stay : ∀ holder, TableMoves outbox.clock holder outbox.messages outbox.messages :=
    fun holder => .refl _ _ _
  cases call with
  | drain maxAttempts | retry id maxAttempts | sendTest bodyEnc maxAttempts =>
    cases step
    exact ⟨rfl, stay _, kept, Int.le_refl _⟩
  | reaping now maxAttempts =>
    cases step
    obtain ⟨moves, kept'⟩ := reap_kept outbox.clock none kept own
    exact ⟨rfl, moves, kept', own⟩
  | listing now maxAttempts | reporting now maxAttempts rest =>
    cases step
    exact ⟨rfl, stay _, kept, mailCallKept_goOn own _⟩
  | claiming attempt =>
    cases step
    obtain ⟨moves, kept'⟩ :=
      claim_moves outbox.clock none kept own (policy.leaseUntil attempt.now)
    refine ⟨rfl, moves, kept', ?_⟩
    split
    · rename_i won
      exact claim_flight kept own timely won
    · exact mailCallKept_next (by exact own) _
  | sending attempt claimedAt =>
    cases step
    have flight : InFlight policy outbox attempt claimedAt := own
    obtain ⟨moves, kept'⟩ := finish_moves readable relayError kept flight timely
    exact ⟨rfl, moves, kept', mailCallKept_next (by exact flight.read) _⟩
  | pruningSent now | pruningFailed now | capping victims =>
    cases step
    obtain ⟨moves, kept'⟩ := deleteWhere_kept outbox.clock none kept _
    exact ⟨rfl, moves, kept', trivial⟩
  | counting now =>
    cases step
    exact ⟨rfl, stay _, kept, trivial⟩
  | requeueing id now maxAttempts =>
    cases step
    obtain ⟨moves, kept'⟩ := requeue_kept outbox.clock none kept id now
    refine ⟨rfl, moves, kept', ?_⟩
    split
    · exact own
    · trivial
  | finding id now maxAttempts =>
    cases step
    refine ⟨rfl, stay _, kept, ?_⟩
    split
    · trivial
    · exact own
  | inserting bodyEnc now maxAttempts =>
    cases step
    obtain ⟨moves, kept'⟩ := append_kept outbox.clock none kept bodyEnc now
    exact ⟨rfl, moves, kept', own⟩
  | done => simp [mailStep] at step

theorem pairKept_claimed {other : Attempt} (read : attempt.now ≤ clock)
    (won : (EmailMessages.claim before attempt.row.id attempt.row.attempts attempt.now
      (policy.leaseUntil attempt.now)).1 = true)
    (flight : InFlight policy ⟨before, clock⟩ other claimedAt)
    (sameId : other.row.id = attempt.row.id) :
    other.row.attempts ≠ attempt.row.attempts ∧ claimedAt + policy.leaseSecs ≤ clock := by
  obtain ⟨row, member, free⟩ := List.any_eq_true.mp won
  obtain ⟨isId, -, isExpected, expired⟩ := mem_claimable free
  have held := flight.row row member (isId.trans sameId.symm)
  have counted := held.counted
  refine ⟨by omega, ?_⟩
  by_contra young
  have isYoung : clock < claimedAt + policy.leaseSecs := by omega
  have isLease := (held.young isYoung).2
  have past := expired _ isLease
  have covers : leaseCovers policy clock other claimedAt := flight.covers
  have alive := covers.resolve_right young
  omega

/-! ## Whole runs -/

/-- The condition on a run: the clock passes the end of a stored lease only when its attempt is
over or has lasted a lease, and claims and outcomes are in time. -/
def mailInTime (policy : QueuePolicy) (state : Threads Outbox MailCall) :
    ThreadAction MailRequest MailJob MailTick → Prop
  | .serve (.pass seconds) => ∀ attempt claimedAt, .sending attempt claimedAt ∈ state.running →
      leaseCovers policy (state.shared.clock + seconds) attempt claimedAt
  | .serve _ => True
  | .begin _ => True
  | .advance index tick => tick.stops = true ∨
      ∀ call, state.running[index]? = some call → inTime policy state.shared call

/-- A server that starts: nothing runs, ids are unique, and what is not sent has its body. -/
def OutboxStarts (outbox : Outbox) : Prop := OutboxKept outbox.messages

theorem MailCallKept.stable (sameClock : next.clock = outbox.clock)
    (moves : TableMoves outbox.clock holder outbox.messages next.messages)
    (others : ∀ attempt claimedAt, call = .sending attempt claimedAt →
      holder ≠ some (attempt.row.id, attempt.row.attempts + 1))
    (kept : MailCallKept policy outbox call) : MailCallKept policy next call := by
  obtain ⟨messages, clock⟩ := outbox
  obtain ⟨messages', clock'⟩ := next
  obtain rfl : clock' = clock := sameClock
  cases call with
  | sending attempt claimedAt => exact InFlight.stable moves (others attempt claimedAt rfl) kept
  | _ => exact kept

theorem MailCallKept.pass {seconds : Nat}
    (covers : ∀ attempt claimedAt, call = .sending attempt claimedAt →
      leaseCovers policy (outbox.clock + seconds) attempt claimedAt)
    (kept : MailCallKept policy outbox call) :
    MailCallKept policy { outbox with clock := outbox.clock + seconds } call := by
  have later : ∀ {now : Int}, now ≤ outbox.clock → now ≤ outbox.clock + seconds := by
    intro now read
    omega
  cases call with
  | sending attempt claimedAt =>
    have flight : InFlight policy outbox attempt claimedAt := kept
    refine ⟨flight.known, later flight.read, later flight.claimed,
      covers attempt claimedAt rfl, fun row listed isId => ?_⟩
    have held := flight.row row listed isId
    refine ⟨held.counted, held.latest, fun young => held.young ?_⟩
    have young : outbox.clock + seconds < claimedAt + policy.leaseSecs := young
    omega
  | claiming attempt | reaping now _ | listing now _ | reporting now _ _ | requeueing _ now _
  | finding _ now _ | inserting _ now _ => exact later kept
  | _ => trivial

variable {state : Threads Outbox MailCall}

theorem serveMail_kept {request : MailRequest} (kept : OutboxKept state.shared.messages)
    (calls : ∀ call ∈ state.running, MailCallKept policy state.shared call)
    (met : mailInTime policy state (.serve request)) :
    OutboxKept (serveMail state.shared request).messages ∧
      ∀ call ∈ state.running, MailCallKept policy (serveMail state.shared request) call := by
  have nobody : ∀ attempt : Attempt, (none : Option (Int × Int)) ≠
      some (attempt.row.id, attempt.row.attempts + 1) := fun _ same => by cases same
  cases request with
  | enqueue bodyEnc createdAt =>
    obtain ⟨moves, kept'⟩ := append_kept state.shared.clock none kept bodyEnc createdAt
    exact ⟨kept', fun call listed =>
      (calls call listed).stable (by rfl) moves fun attempt _ _ => nobody attempt⟩
  | deleteById id =>
    obtain ⟨moves, kept'⟩ := deleteWhere_kept state.shared.clock none kept (hasId id)
    exact ⟨kept', fun call listed =>
      (calls call listed).stable (by rfl) moves fun attempt _ _ => nobody attempt⟩
  | deleteFinished =>
    obtain ⟨moves, kept'⟩ := deleteWhere_kept state.shared.clock none kept EmailMessages.finished
    exact ⟨kept', fun call listed =>
      (calls call listed).stable (by rfl) moves fun attempt _ _ => nobody attempt⟩
  | pass seconds =>
    refine ⟨kept, fun call listed => (calls call listed).pass ?_⟩
    rintro attempt claimedAt rfl
    exact met attempt claimedAt listed

theorem pairKept_of_not_sending {first second : MailCall}
    (free : ∀ attempt claimedAt, first ≠ .sending attempt claimedAt) :
    PairKept policy first second ∧ PairKept policy second first := by
  cases first with
  | sending attempt claimedAt => exact absurd rfl (free attempt claimedAt)
  | _ => cases second <;> exact ⟨trivial, trivial⟩

theorem sending_of_mailStep (step : mailStep policy readable relayError outbox call =
      some (next, .sending attempt claimedAt)) :
    call = .claiming attempt ∧ claimedAt = outbox.clock ∧
      (EmailMessages.claim outbox.messages attempt.row.id attempt.row.attempts attempt.now
        (policy.leaseUntil attempt.now)).1 = true := by
  have goesOn : ∀ now maxAttempts rows, goOn now maxAttempts rows ≠ .sending attempt claimedAt := by
    intro now maxAttempts rows
    cases rows <;> simp [goOn]
  have goesNext : ∀ (other : Attempt) delivered,
      other.next delivered ≠ .sending attempt claimedAt := by
    intro other delivered
    unfold Attempt.next
    split
    · simp
    · split
      · exact goesOn _ _ _
      · simp
  cases call with
  | claiming other =>
    simp only [mailStep, Option.some.injEq, Prod.mk.injEq] at step
    obtain ⟨-, isNext⟩ := step
    split at isNext
    · rename_i won
      simp only [MailCall.sending.injEq] at isNext
      obtain ⟨rfl, rfl⟩ := isNext
      exact ⟨rfl, rfl, won⟩
    · exact absurd isNext (goesNext _ _)
  | sending other claimed =>
    simp only [mailStep, Option.some.injEq, Prod.mk.injEq] at step
    exact absurd step.2 (goesNext _ _)
  | listing now maxAttempts | reporting now maxAttempts rest =>
    simp only [mailStep, Option.some.injEq, Prod.mk.injEq] at step
    exact absurd step.2 (goesOn _ _ _)
  | requeueing id now maxAttempts | finding id now maxAttempts =>
    simp only [mailStep, Option.some.injEq, Prod.mk.injEq] at step
    split at step <;> simp at step
  | _ => simp [mailStep] at step

theorem pairKept_step {other : MailCall} (own : MailCallKept policy outbox call)
    (knows : MailCallKept policy outbox other)
    (step : mailStep policy readable relayError outbox call = some (next, call')) :
    PairKept policy call' other ∧ PairKept policy other call' := by
  by_cases sending : ∃ attempt claimedAt, call' = .sending attempt claimedAt
  · obtain ⟨attempt, claimedAt, rfl⟩ := sending
    obtain ⟨rfl, rfl, won⟩ := sending_of_mailStep step
    cases other with
    | sending second claimedSecond =>
      have apart : second.row.id = attempt.row.id →
          second.row.attempts ≠ attempt.row.attempts ∧
            claimedSecond + policy.leaseSecs ≤ outbox.clock :=
        fun sameId => pairKept_claimed own won knows sameId
      constructor
      · intro sameId
        obtain ⟨numbers, times⟩ := apart sameId.symm
        exact ⟨numbers.symm, Or.inr times⟩
      · intro sameId
        obtain ⟨numbers, times⟩ := apart sameId
        exact ⟨numbers, Or.inl times⟩
    | _ => exact ⟨trivial, trivial⟩
  · exact pairKept_of_not_sending fun attempt claimedAt isSending =>
      sending ⟨attempt, claimedAt, isSending⟩

theorem mail_invariant (reached : ((mailProgram policy readable).system OutboxStarts).Reachable
      (mailInTime policy) state) :
    OutboxKept state.shared.messages ∧
      (∀ call ∈ state.running, MailCallKept policy state.shared call) ∧
      ∀ (i j : Nat) (first second : MailCall), i ≠ j → state.running[i]? = some first →
        state.running[j]? = some second → PairKept policy first second := by
  refine Program.threads_invariant_pairs (I := fun outbox => OutboxKept outbox.messages)
    (O := MailCallKept policy) (P := PairKept policy) ?_ ?_ ?_ (fun _ start => start) reached
  · intro outbox job kept
    cases job <;> exact ⟨trivial, fun other => pairKept_of_not_sending (by intros; simp [mailProgram])⟩
  · intro before request kept calls met
    exact serveMail_kept kept calls met
  · intro before index call tick after kept own found met step
    have step : (if tick.stops then some (before.shared, .done)
      else mailStep policy readable tick.relayError before.shared call) = some after := step
    split at step
    · cases step
      exact ⟨kept, trivial, fun other knows _ _ =>
        ⟨knows, pairKept_of_not_sending (by intros; simp)⟩⟩
    · rename_i goes
      have timely : inTime policy before.shared call := (met.resolve_left goes) call found
      obtain ⟨sameClock, moves, kept', own'⟩ :=
        mailStep_kept kept own timely (step.trans (by rw [Prod.mk.eta]))
      refine ⟨kept', own', fun other knows paired _ => ⟨?_, ?_⟩⟩
      · refine knows.stable sameClock moves ?_
        rintro attempt claimedAt rfl isHolder
        cases call with
        | sending mine claimed =>
          simp only [holderOf, Option.some.injEq, Prod.mk.injEq] at isHolder
          have apart := (paired isHolder.1).1
          omega
        | _ => simp [holderOf] at isHolder
      · exact pairKept_step own knows step

/-- What the outbox promises in a state and in every later one. -/
structure OutboxSafe (policy : QueuePolicy) (readable : String → Bool)
    (guard : Threads Outbox MailCall → ThreadAction MailRequest MailJob MailTick → Prop)
    (state : Threads Outbox MailCall) : Prop where
  /-- Two attempts in flight at one row were claimed a lease apart. -/
  exclusive : ∀ (i j : Nat) (first second : Attempt) (claimedFirst claimedSecond : Int), i ≠ j →
    state.running[i]? = some (.sending first claimedFirst) →
    state.running[j]? = some (.sending second claimedSecond) → first.row.id = second.row.id →
      claimedFirst + policy.leaseSecs ≤ claimedSecond ∨
        claimedSecond + policy.leaseSecs ≤ claimedFirst
  /-- A sent row stays sent as long as it is there. -/
  sent : ∀ row ∈ state.shared.messages.rows, row.status = .sent →
    ∀ later, ((mailProgram policy readable).system OutboxStarts).Steps guard state later →
      ∀ row' ∈ later.shared.messages.rows, row'.id = row.id → row'.status = .sent
  /-- What is not sent has its body. -/
  bodies : ∀ row ∈ state.shared.messages.rows, row.status = .pending ∨ row.status = .failed →
    row.bodyEnc.isSome = true

theorem sentFor_step {next : Threads Outbox MailCall}
    {action : ThreadAction MailRequest MailJob MailTick}
    (reached : ((mailProgram policy readable).system OutboxStarts).Reachable
      (mailInTime policy) state) (met : mailInTime policy state action)
    (taken : ((mailProgram policy readable).system OutboxStarts).step state action = some next)
    (sent : SentFor id state.shared.messages) : SentFor id next.shared.messages := by
  obtain ⟨kept, calls, -⟩ := mail_invariant reached
  cases action with
  | serve request =>
    cases taken
    cases request with
    | enqueue bodyEnc createdAt =>
      exact (append_kept state.shared.clock none kept bodyEnc createdAt).1.sentFor sent
    | deleteById id' =>
      exact (deleteWhere_kept state.shared.clock none kept (hasId id')).1.sentFor sent
    | deleteFinished =>
      exact (deleteWhere_kept state.shared.clock none kept
        EmailMessages.finished).1.sentFor sent
    | pass seconds => exact sent
  | begin job =>
    cases taken
    exact sent
  | advance index tick =>
    obtain ⟨call, after, found, step, rfl⟩ := Program.step_advance_iff.mp taken
    have step : (if tick.stops then some (state.shared, .done)
      else mailStep policy readable tick.relayError state.shared call) = some after := step
    split at step
    · cases step
      exact sent
    · rename_i goes
      have timely : inTime policy state.shared call := (met.resolve_left goes) call found
      have own := calls call (List.mem_of_getElem? found)
      obtain ⟨-, moves, -⟩ := mailStep_kept kept own timely (step.trans (by rw [Prod.mk.eta]))
      exact moves.sentFor sent

/-- The outbox neither repeats a delivery in time nor forgets one, in every run in time. -/
theorem outbox_safe {state : Threads Outbox MailCall}
    (reached : ((mailProgram policy readable).system OutboxStarts).Reachable
      (mailInTime policy) state) : OutboxSafe policy readable (mailInTime policy) state := by
  obtain ⟨kept, calls, pairs⟩ := mail_invariant reached
  refine ⟨?_, ?_, ?_⟩
  · intro i j first second claimedFirst claimedSecond apart isFirst isSecond sameId
    exact (pairs i j _ _ apart isFirst isSecond sameId).2
  · intro row listed isSent later steps
    have known : SentFor row.id state.shared.messages := by
      refine ⟨kept.ids.below row listed, fun other listed' sameId => ?_⟩
      rw [kept.ids.eq_of_id listed' listed sameId]
      exact isSent
    have still : SentFor row.id later.shared.messages := by
      induction steps with
      | refl => exact known
      | tail steps met taken ih => exact sentFor_step (reached.steps steps) met taken ih
    exact still.2
  · intro row listed unsent
    refine kept.bodies row listed ?_
    rcases unsent with pending | failed
    · simp [pending]
    · simp [failed]

/-! ## A slow send and a slow batch -/

def emptyOutbox : Threads Outbox MailCall := ⟨⟨⟨[], 1⟩, 0⟩, []⟩

def runMail (check : Threads Outbox MailCall → ThreadAction MailRequest MailJob MailTick → Bool)
    (actions : List (ThreadAction MailRequest MailJob MailTick)) :
    Option (Threads Outbox MailCall) :=
  ((mailProgram .standard fun _ => true).system OutboxStarts).runChecked check actions emptyOutbox

variable {guard : Threads Outbox MailCall → ThreadAction MailRequest MailJob MailTick → Prop}

theorem reachable_runMail
    {check : Threads Outbox MailCall → ThreadAction MailRequest MailJob MailTick → Bool}
    (sound : ∀ state action, check state action = true → guard state action)
    {actions : List (ThreadAction MailRequest MailJob MailTick)}
    (run : runMail check actions = some state) :
    ((mailProgram .standard fun _ => true).system OutboxStarts).Reachable guard state := by
  have start : OutboxKept emptyOutbox.shared.messages :=
    ⟨⟨fun _ listed => absurd listed List.not_mem_nil, List.nodup_nil⟩,
      fun _ listed => absurd listed List.not_mem_nil⟩
  exact System.reachable_of_runChecked sound actions emptyOutbox state (.init ⟨start, rfl⟩) run

def delivers : MailTick := ⟨false, none⟩

def refuses : MailTick := ⟨false, some "timed out"⟩

def mailSteps (count index : Nat) (tick : MailTick) :
    List (ThreadAction MailRequest MailJob MailTick) :=
  List.replicate count (.advance index tick)

/-- While one drain sends the first message another one delivers the second. -/
def twoDrains : List (ThreadAction MailRequest MailJob MailTick) :=
  [.serve (.enqueue "first" 0), .serve (.enqueue "second" 0), .begin (.drain 3)] ++
    mailSteps 4 0 delivers ++ [.begin (.drain 3)] ++ mailSteps 7 1 delivers ++
    mailSteps 2 0 delivers

/-- The first drain is still sending when its lease runs out, and the second one delivers the
message; then the relay refuses the first one. -/
def slowSend : List (ThreadAction MailRequest MailJob MailTick) :=
  [.serve (.enqueue "body" 0), .begin (.drain 3)] ++ mailSteps 4 0 delivers ++
    [.serve (.pass 300), .begin (.drain 3)] ++ mailSteps 5 1 delivers ++ mailSteps 1 0 refuses

/-- The first of two messages takes 299 seconds, and one second after the second one has been
claimed another drain claims it too. -/
def slowBatch : List (ThreadAction MailRequest MailJob MailTick) :=
  [.serve (.enqueue "first" 0), .serve (.enqueue "second" 0), .begin (.drain 3)] ++
    mailSteps 4 0 delivers ++ [.serve (.pass 299)] ++ mailSteps 2 0 delivers ++
    [.serve (.pass 1), .begin (.drain 3)] ++ mailSteps 4 1 delivers

/-- `mailInTime` by evaluation, for runs in which no time passes. -/
def mailInTimeCheck (state : Threads Outbox MailCall) :
    ThreadAction MailRequest MailJob MailTick → Bool
  | .serve (.pass _) => false
  | .serve _ => true
  | .begin _ => true
  | .advance index _ =>
    match state.running[index]? with
    | some (.claiming attempt) =>
      state.shared.clock < QueuePolicy.standard.leaseUntil attempt.now
    | some (.sending attempt _) => state.shared.messages.rows.all fun row =>
      row.id ≠ attempt.row.id || row.attempts = attempt.row.attempts + 1
    | _ => true

theorem mailInTime_of_check (state : Threads Outbox MailCall)
    (action : ThreadAction MailRequest MailJob MailTick) (alone : mailInTimeCheck state action = true) :
    mailInTime .standard state action := by
  cases action with
  | serve request => cases request <;> simp [mailInTimeCheck, mailInTime] at alone ⊢
  | begin job => trivial
  | advance index tick =>
    refine Or.inr fun call found => ?_
    rw [mailInTimeCheck, found] at alone
    cases call with
    | claiming attempt => exact fun _ _ _ => of_decide_eq_true alone
    | sending attempt claimedAt =>
      intro row listed isId
      simpa [isId] using List.all_eq_true.mp alone row listed
    | _ => trivial

theorem delivered_each_once : ∃ state,
    OutboxSafe .standard (fun _ => true) (mailInTime .standard) state ∧
      (state.shared.messages.rows.map EmailMessage.status) = [.sent, .sent] := by
  have ran : (runMail mailInTimeCheck twoDrains).any (fun state =>
      state.shared.messages.rows.map EmailMessage.status = [.sent, .sent]) = true := by
    decide +kernel
  obtain ⟨state, run, isSent⟩ := (Option.any_eq_true _ _).mp ran
  exact ⟨state, outbox_safe (reachable_runMail mailInTime_of_check run), of_decide_eq_true isSent⟩

def claimedTwice (state : Threads Outbox MailCall) : Bool :=
  match state.running[0]?, state.running[1]? with
  | some (MailCall.sending first claimedFirst), some (MailCall.sending second claimedSecond) =>
    first.row.id = second.row.id ∧ ¬ (claimedFirst + 300 ≤ claimedSecond) ∧
      ¬ (claimedSecond + 300 ≤ claimedFirst)
  | _, _ => false

theorem not_safe_of_claimedTwice (twice : claimedTwice state = true) :
    ¬ OutboxSafe .standard (fun _ => true) guard state := by
  intro safe
  unfold claimedTwice at twice
  split at twice
  · rename_i first claimedFirst second claimedSecond isFirst isSecond
    obtain ⟨sameId, early, late⟩ := of_decide_eq_true twice
    exact (safe.exclusive 0 1 first second claimedFirst claimedSecond (by decide) isFirst isSecond
      sameId).elim early late
  · cases twice

/-- A sent message becomes pending again and has lost its body, and one message is in flight
twice. -/
theorem outbox_overwritten : ∃ overwritten doubled : Threads Outbox MailCall,
    ((mailProgram .standard fun _ => true).system OutboxStarts).Reachable (fun _ _ => True)
      overwritten ∧
    ((mailProgram .standard fun _ => true).system OutboxStarts).Reachable (fun _ _ => True)
      doubled ∧
    (∃ row ∈ overwritten.shared.messages.rows, row.status = .pending ∧ row.bodyEnc = none) ∧
    ¬ OutboxSafe .standard (fun _ => true) (fun _ _ => True) overwritten ∧
    ¬ OutboxSafe .standard (fun _ => true) (fun _ _ => True) doubled := by
  have lost : (runMail (fun _ _ => true) slowSend).any (fun state =>
      state.shared.messages.rows.any fun row =>
        row.status = .pending ∧ row.bodyEnc = none) = true := by
    decide +kernel
  have twice : (runMail (fun _ _ => true) slowBatch).any claimedTwice = true := by
    decide +kernel
  obtain ⟨overwritten, run, found⟩ := (Option.any_eq_true _ _).mp lost
  obtain ⟨doubled, run', both⟩ := (Option.any_eq_true _ _).mp twice
  obtain ⟨row, listed, isLost⟩ := List.any_eq_true.mp found
  obtain ⟨pending, noBody⟩ := of_decide_eq_true isLost
  refine ⟨overwritten, doubled, reachable_runMail (fun _ _ _ => trivial) run,
    reachable_runMail (fun _ _ _ => trivial) run', ⟨row, listed, pending, noBody⟩, fun safe => ?_,
    not_safe_of_claimedTwice both⟩
  have body := safe.bodies row listed (Or.inl pending)
  simp [noBody] at body

end Nanofile
