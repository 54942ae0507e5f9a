import Nanofile.Service.Quota

/-!
# When reservations keep a user below the quota

The reservations cover what is granted to open uploads as long as no release drops the
bytes of another upload and every grant is recorded.  A grant that in addition rests on
a usage not below the committed one leaves the user within the quota.
-/

set_option autoImplicit false

namespace Nanofile

open Nanofile.Lib

section Runs

variable {User Library : Type} [DecidableEq User] [DecidableEq Library]

/-- No other open upload of the user holds bytes in the library. -/
def ReleasesAlone (state : QuotaState User Library) (upload : Nat) : Prop :=
  ∀ entry, state.uploads[upload]? = some entry → ∀ other ∈ state.uploads,
    other.isOpen = true → other.key = entry.key → other.granted = 0

/-- The usage a reservation rests on is not below the committed one, there is room to record
it, and the sum it is granted for is in the range. -/
def ReservesSoundly (accounts : Accounts User Library) (state : QuotaState User Library)
    (upload : Nat) (delta usage : Int) : Prop :=
  ∀ entry, state.uploads[upload]? = some entry →
    sumSizeByOwner accounts state.sizes entry.user ≤ usage ∧
      (state.reserved.rows.length < reservedMax ∨ entry.key ∈ state.reserved.keys) ∧
      InI64 (usage + reservedTotal state.reserved entry.user + delta)

def QuotaHolds (accounts : Accounts User Library) (state : QuotaState User Library)
    (call : QuotaCall) (_tick : Bool) : Prop :=
  match call with
  | .reserve upload delta (.known usage) => ReservesSoundly accounts state upload delta usage
  | .commit upload _ .sized => ReleasesAlone state upload
  | .abort upload .closed => ReleasesAlone state upload
  | _ => True

def quotaGuard (accounts : Accounts User Library) :
    Threads (QuotaState User Library) QuotaCall →
      ThreadAction (QuotaRequest User Library) QuotaJob Bool → Prop :=
  Program.guarded (fun _ _ => True) (QuotaHolds accounts)

/-- Every set of keys has at least what is granted to its open uploads reserved. -/
def ReservationsCover (state : QuotaState User Library) : Prop :=
  ∀ counts, state.outstanding counts ≤ state.reserved.total counts

variable {state : QuotaState User Library} {upload : Nat} {entry : UploadSession User Library}

section

omit [DecidableEq User] [DecidableEq Library]

theorem outstandingOf_nonneg (counts : User × Library → Bool)
    (entry : UploadSession User Library) : 0 ≤ outstandingOf counts entry := by
  unfold outstandingOf
  split <;> omega

theorem outstanding_close (found : state.uploads[upload]? = some entry)
    (counts : User × Library → Bool) :
    (state.close upload entry).outstanding counts ≤ state.outstanding counts := by
  have positive := outstandingOf_nonneg counts entry
  rw [QuotaState.outstanding, QuotaState.close, sum_map_set (outstandingOf counts) found]
  have closed : outstandingOf counts { entry with isOpen := false } = 0 := rfl
  rw [closed, QuotaState.outstanding]
  omega

end

variable {delta : Int}

section

omit [DecidableEq User] [DecidableEq Library]

theorem outstandingOf_grant (positive : 0 < delta) (counts : User × Library → Bool)
    (entry : UploadSession User Library) :
    outstandingOf counts { entry with granted := entry.granted + delta.toNat } ≤
      outstandingOf counts entry + if counts entry.key then delta else 0 := by
  have same : UploadSession.key { entry with granted := entry.granted + delta.toNat } =
      entry.key := rfl
  unfold outstandingOf
  rw [same]
  cases entry.isOpen <;> cases counts entry.key <;> simp <;> omega

theorem outstanding_grant (found : state.uploads[upload]? = some entry) (positive : 0 < delta)
    (counts : User × Library → Bool) :
    (state.grant upload entry delta).outstanding counts ≤
      state.outstanding counts + if counts entry.key then delta else 0 := by
  have granted := outstandingOf_grant positive counts entry
  rw [QuotaState.outstanding, QuotaState.grant, sum_map_set (outstandingOf counts) found,
    QuotaState.outstanding]
  omega

end

theorem outstanding_releaseAlone (found : state.uploads[upload]? = some entry)
    (alone : ReleasesAlone state upload) (counts : User × Library → Bool) :
    state.outstanding counts =
      state.outstanding fun key => counts key && key ≠ entry.key := by
  unfold QuotaState.outstanding
  congr 1
  refine List.map_congr_left fun other listed => ?_
  unfold outstandingOf
  by_cases same : other.key = entry.key
  · cases isOpen : other.isOpen with
    | false => rfl
    | true =>
      have nothing := alone entry found other listed isOpen same
      simp [nothing]
  · simp [same]

theorem cover_releaseRepo (found : state.uploads[upload]? = some entry)
    (alone : ReleasesAlone state upload) (cover : ReservationsCover state) :
    ReservationsCover (state.releaseRepo entry.key) := by
  intro counts
  have same : (state.releaseRepo entry.key).outstanding counts = state.outstanding counts := rfl
  rw [same, outstanding_releaseAlone found alone, QuotaState.releaseRepo, Ledger.total_drop]
  exact cover _

omit [DecidableEq User] [DecidableEq Library] in
theorem cover_close (found : state.uploads[upload]? = some entry)
    (cover : ReservationsCover state) : ReservationsCover (state.close upload entry) :=
  fun counts => Int.le_trans (outstanding_close found counts) (cover counts)

theorem cover_grant (found : state.uploads[upload]? = some entry) (positive : 0 < delta)
    (cover : ReservationsCover state) :
    ReservationsCover
      (({ state with reserved := state.reserved.credit entry.key delta } :
        QuotaState User Library).grant upload entry delta) := by
  intro counts
  have covered := cover counts
  let credited : QuotaState User Library :=
    { state with reserved := state.reserved.credit entry.key delta }
  have isUpload : credited.uploads[upload]? = some entry := found
  have granted := outstanding_grant isUpload positive counts
  have added := Ledger.total_credit state.reserved entry.key delta counts
  change (credited.grant upload entry delta).outstanding counts ≤
    (state.reserved.credit entry.key delta).total counts
  change _ ≤ state.outstanding counts + _ at granted
  omega

/-- A request that has looked a usage up asks for a positive amount. -/
def QuotaCall.Charged : QuotaCall → Prop
  | .reserve _ delta (.computed _) => 0 < delta
  | .reserve _ delta (.known _) => 0 < delta
  | _ => True

variable {accounts : Accounts User Library} {tick : Bool}

theorem reserveStep_keeps {pc : ReservePc} {after : QuotaState User Library × ReservePc}
    (found : state.uploads[upload]? = some entry) (cover : ReservationsCover state)
    (charged : (QuotaCall.reserve upload delta pc).Charged)
    (holds : QuotaHolds accounts state (.reserve upload delta pc) tick)
    (moved : reserveStep accounts tick state upload entry delta pc = some after) :
    ReservationsCover after.1 ∧ (QuotaCall.reserve upload delta after.2).Charged := by
  cases pc with
  | lookup =>
    by_cases free : delta ≤ 0 ∨ accounts.quota entry.user = none
    · simp only [reserveStep, if_pos free] at moved
      cases moved
      exact ⟨cover, trivial⟩
    · simp only [reserveStep, if_neg free] at moved
      rw [not_or] at free
      have positive : 0 < delta := Int.not_le.mp free.1
      split at moved <;> cases moved <;> exact ⟨cover, positive⟩
  | computed usage =>
    cases moved
    refine ⟨?_, charged⟩
    cases tick with
    | false | true => exact cover
  | known usage =>
    obtain ⟨quota, -, rfl⟩ := Option.map_eq_some_iff.mp moved
    cases fits : reserveIfFits accounts.mode state.reserved entry.key delta usage quota with
    | error => exact ⟨cover, trivial⟩
    | ok reserved =>
      obtain ⟨-, room, inRange⟩ := holds entry found
      obtain rfl := (reserveIfFits_ok charged inRange fits).2 room
      exact ⟨cover_grant found charged cover, trivial⟩
  | granted | refused error | uncharged => simp [reserveStep] at moved

theorem commitStep_keeps {pc : CommitPc} {after : QuotaState User Library × CommitPc}
    (found : state.uploads[upload]? = some entry) (cover : ReservationsCover state)
    (holds : QuotaHolds accounts state (.commit upload delta pc) tick)
    (moved : commitStep state upload entry delta pc = some after) : ReservationsCover after.1 := by
  cases pc with
  | start =>
    cases moved
    have resized : (state.adjustSize entry.library delta).uploads[upload]? = some entry := found
    exact cover_close resized cover
  | sized =>
    cases moved
    exact cover_releaseRepo found holds cover
  | released =>
    cases moved
    exact cover
  | done => simp [commitStep] at moved

theorem abortStep_keeps {pc : AbortPc} {after : QuotaState User Library × AbortPc}
    (found : state.uploads[upload]? = some entry) (cover : ReservationsCover state)
    (holds : QuotaHolds accounts state (.abort upload pc) tick)
    (moved : abortStep state upload entry pc = some after) : ReservationsCover after.1 := by
  cases pc with
  | start =>
    cases moved
    exact cover_close found cover
  | closed =>
    cases moved
    exact cover_releaseRepo found holds cover
  | done => simp [abortStep] at moved

theorem quotaStep_keeps {call : QuotaCall} {after : QuotaState User Library × QuotaCall}
    (cover : ReservationsCover state) (charged : call.Charged)
    (holds : QuotaHolds accounts state call tick)
    (moved : quotaStep accounts tick state call = some after) :
    ReservationsCover after.1 ∧ after.2.Charged := by
  cases call with
  | reserve upload delta pc =>
    obtain ⟨entry, found, stepped⟩ := Option.bind_eq_some_iff.mp moved
    obtain ⟨next, taken, rfl⟩ := Option.map_eq_some_iff.mp stepped
    exact reserveStep_keeps found cover charged holds taken
  | commit upload delta pc =>
    obtain ⟨entry, found, stepped⟩ := Option.bind_eq_some_iff.mp moved
    obtain ⟨next, taken, rfl⟩ := Option.map_eq_some_iff.mp stepped
    exact ⟨commitStep_keeps found cover holds taken, trivial⟩
  | abort upload pc =>
    obtain ⟨entry, found, stepped⟩ := Option.bind_eq_some_iff.mp moved
    obtain ⟨next, taken, rfl⟩ := Option.map_eq_some_iff.mp stepped
    exact ⟨abortStep_keeps found cover holds taken, trivial⟩

omit [DecidableEq User] [DecidableEq Library] in
theorem cover_openUpload (cover : ReservationsCover state) (user : User) (library : Library) :
    ReservationsCover
      { state with uploads := state.uploads ++ [⟨user, library, 0, true⟩] } := by
  intro counts
  have covered := cover counts
  unfold QuotaState.outstanding at covered ⊢
  simpa [outstandingOf] using covered

/-- In a run whose steps hold, the reservations cover what is granted to open uploads. -/
theorem reservations_cover {state : Threads (QuotaState User Library) QuotaCall}
    (reached : (quotaSystem accounts).Reachable (quotaGuard accounts) state) :
    ReservationsCover state.shared ∧ ∀ call ∈ state.running, call.Charged := by
  have stable : ∀ before after : QuotaState User Library, ∀ call : QuotaCall, True →
      call.Charged → call.Charged := fun _ _ _ _ charged => charged
  unfold quotaSystem quotaGuard at reached
  refine Program.threads_invariant (I := ReservationsCover) stable ?_ ?_ ?_ ?_ reached
  · intro shared job cover
    cases job <;> trivial
  · intro shared request cover _
    cases request with
    | openUpload user library => exact ⟨cover_openUpload cover user library, trivial⟩
  · intro shared call tick after cover charged holds moved
    obtain ⟨cover', charged'⟩ := quotaStep_keeps cover charged holds moved
    exact ⟨cover', charged', trivial⟩
  · intro shared fresh counts
    rw [QuotaState.outstanding, fresh.1, fresh.2]
    exact Int.le_refl _

/-- A granted reservation leaves the user within the quota. -/
theorem reservation_fits {state next : Threads (QuotaState User Library) QuotaCall}
    {index upload : Nat} {delta usage : Int} {entry : UploadSession User Library} {tick : Bool}
    (reached : (quotaSystem accounts).Reachable (quotaGuard accounts) state)
    (met : quotaGuard accounts state (.advance index tick))
    (asks : state.running[index]? = some (.reserve upload delta (.known usage)))
    (isUpload : state.shared.uploads[upload]? = some entry)
    (taken : (quotaSystem accounts).step state (.advance index tick) = some next)
    (granted : next.running[index]? = some (.reserve upload delta .granted)) :
    ∃ quota, accounts.quota entry.user = some quota ∧
      sumSizeByOwner accounts state.shared.sizes entry.user +
        state.shared.outstandingTotal entry.user + delta ≤ quota := by
  obtain ⟨cover, charged⟩ := reservations_cover reached
  have positive : 0 < delta := charged _ (List.mem_of_getElem? asks)
  have sound : ReservesSoundly accounts state.shared upload delta usage := met _ asks
  obtain ⟨fresh, -, inRange⟩ := sound entry isUpload
  obtain ⟨call, after, found, moved, rfl⟩ := Program.step_advance_iff.mp taken
  obtain rfl : call = _ := Option.some.inj (found.symm.trans asks)
  obtain ⟨entry', isUpload', stepped⟩ := Option.bind_eq_some_iff.mp moved
  obtain rfl : entry' = entry := Option.some.inj (isUpload'.symm.trans isUpload)
  obtain ⟨reply, asked, rfl⟩ := Option.map_eq_some_iff.mp stepped
  obtain ⟨quota, isQuota, rfl⟩ := Option.map_eq_some_iff.mp asked
  refine ⟨quota, isQuota, ?_⟩
  cases fits : reserveIfFits accounts.mode state.shared.reserved entry'.key delta usage quota with
  | error =>
    rw [List.getElem?_set_self', found, fits] at granted
    simp at granted
  | ok reserved =>
    have within := (reserveIfFits_ok positive inRange fits).1
    have covered := cover fun key => key.1 = entry'.user
    change usage + reservedTotal state.shared.reserved entry'.user + delta ≤ quota at within
    unfold reservedTotal at within
    unfold QuotaState.outstandingTotal
    omega

def oneUser : Accounts Unit Bool := ⟨.wraps, [true, false], fun _ => (), fun _ => some 100⟩

def freshServer : Threads (QuotaState Unit Bool) QuotaCall :=
  ⟨⟨fun _ => 0, fun _ => none, .empty, []⟩, []⟩

/-- 60 bytes are committed to the first library and 10 are reserved in the second, when a third
upload asks for 30. -/
def committedRun : List (ThreadAction (QuotaRequest Unit Bool) QuotaJob Bool) :=
  [.serve (.openUpload () true), .serve (.openUpload () false), .serve (.openUpload () true),
    .begin (.reserve 0 60), .advance 0 true, .advance 0 true, .advance 0 true,
    .begin (.reserve 1 10), .advance 1 true, .advance 1 true,
    .begin (.commit 0 60), .advance 2 true, .advance 2 true, .advance 2 true,
    .begin (.reserve 2 30), .advance 3 true, .advance 3 true]

def soundlyCheck (state : Threads (QuotaState Unit Bool) QuotaCall) :
    ThreadAction (QuotaRequest Unit Bool) QuotaJob Bool → Bool
  | .advance index _ =>
    match state.running[index]? with
    | some (.reserve upload delta (.known usage)) =>
      state.shared.uploads[upload]?.all fun entry =>
        sumSizeByOwner oneUser state.shared.sizes entry.user ≤ usage &&
          state.shared.reserved.rows.length < reservedMax &&
          InI64 (usage + reservedTotal state.shared.reserved entry.user + delta)
    | some (.commit upload _ .sized) =>
      state.shared.uploads[upload]?.all fun entry => state.shared.uploads.all fun other =>
        !other.isOpen || other.key ≠ entry.key || other.granted = 0
    | some (.abort _ .closed) => false
    | _ => true
  | _ => true

theorem soundlyCheck_sound (state : Threads (QuotaState Unit Bool) QuotaCall)
    (action : ThreadAction (QuotaRequest Unit Bool) QuotaJob Bool)
    (checked : soundlyCheck state action = true) : quotaGuard oneUser state action := by
  cases action with
  | serve | begin => trivial
  | advance index tick =>
    intro call running
    simp only [soundlyCheck, running] at checked
    cases call with
    | reserve upload delta pc =>
      cases pc with
      | known usage =>
        intro entry found
        simp only [found, Option.all_some, Bool.and_eq_true, decide_eq_true_eq] at checked
        exact ⟨checked.1.1, Or.inl checked.1.2, checked.2⟩
      | _ => trivial
    | commit upload delta pc =>
      cases pc with
      | sized =>
        intro entry found other listed isOpen same
        simp only [found, Option.all_some, List.all_eq_true] at checked
        simpa [isOpen, same] using checked other listed
      | _ => trivial
    | abort upload pc =>
      cases pc with
      | closed => simp at checked
      | _ => trivial

/-- The third upload gets its bytes beside the others. -/
theorem reservation_fits_beside : ∃ state : Threads (QuotaState Unit Bool) QuotaCall,
    (quotaSystem oneUser).Reachable (quotaGuard oneUser) state ∧
    sumSizeByOwner oneUser state.shared.sizes () = 60 ∧ state.shared.outstandingTotal () = 10 ∧
    ∃ quota, oneUser.quota () = some quota ∧ sumSizeByOwner oneUser state.shared.sizes () +
      state.shared.outstandingTotal () + 30 ≤ quota := by
  have idle : (quotaSystem oneUser).Reachable (quotaGuard oneUser) freshServer :=
    .init ⟨⟨rfl, rfl⟩, rfl⟩
  cases run : (quotaSystem oneUser).runChecked soundlyCheck committedRun freshServer with
  | none => exact absurd (congrArg Option.isSome run) (by decide)
  | some state =>
    have reached := System.reachable_of_runChecked soundlyCheck_sound committedRun freshServer
      state idle run
    have asks : state.running[3]? = some (.reserve 2 30 (.known 60)) := by
      cases run
      rfl
    have isUpload : state.shared.uploads[2]? = some ⟨(), true, 0, true⟩ := by
      cases run
      rfl
    cases run
    exact ⟨_, reached, by decide, by decide, reservation_fits reached
      (soundlyCheck_sound _ (.advance 3 true) (by decide)) asks isUpload rfl rfl⟩

/-- Three uploads to one library; the first is granted 60 bytes and the second 30, the
first is abandoned, and the third asks for 90. -/
def abandonedRun : List (ThreadAction (QuotaRequest Unit Bool) QuotaJob Bool) :=
  [.serve (.openUpload () true), .serve (.openUpload () true), .serve (.openUpload () true),
    .begin (.reserve 0 60), .advance 0 true, .advance 0 true, .advance 0 true,
    .begin (.reserve 1 30), .advance 1 true, .advance 1 true,
    .begin (.abort 0), .advance 2 true, .advance 2 true,
    .begin (.reserve 2 90), .advance 3 true]

/-- Abandoning one upload releases what another one has reserved in the library. -/
theorem release_overshoots :
    ¬ ∀ (state next : Threads (QuotaState Unit Bool) QuotaCall) (index upload : Nat)
      (delta usage : Int) (entry : UploadSession Unit Bool) (tick : Bool),
      (quotaSystem oneUser).Reachable (fun _ _ => True) state →
      state.running[index]? = some (.reserve upload delta (.known usage)) →
      state.shared.uploads[upload]? = some entry →
      (quotaSystem oneUser).step state (.advance index tick) = some next →
      next.running[index]? = some (.reserve upload delta .granted) →
      ∃ quota, oneUser.quota entry.user = some quota ∧
        sumSizeByOwner oneUser state.shared.sizes entry.user +
          state.shared.outstandingTotal entry.user + delta ≤ quota := by
  intro all
  have idle : (quotaSystem oneUser).Reachable (fun _ _ => True) freshServer :=
    .init ⟨⟨rfl, rfl⟩, rfl⟩
  cases run : (quotaSystem oneUser).runChecked (fun _ _ => true) abandonedRun freshServer with
  | none => exact absurd (congrArg Option.isSome run) (by decide)
  | some state =>
    have reached := System.reachable_of_runChecked (fun _ _ _ => trivial) abandonedRun
      freshServer state idle run
    cases run
    obtain ⟨quota, isQuota, fits⟩ := all _ _ 3 2 90 0 ⟨(), true, 0, true⟩ true reached rfl rfl
      rfl rfl
    cases isQuota
    exact absurd fits (by decide)

end Runs

end Nanofile
