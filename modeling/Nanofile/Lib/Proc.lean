import Mathlib.Logic.Basic

/-!
# Procedures that fail without rolling back

A procedure runs on a state and returns a result or an error together with the
state it leaves behind: what was written before a failure stays written.
-/

set_option autoImplicit false

namespace Nanofile.Lib

universe u v w

section MapError

variable {Err : Type u} {Err' : Type v} {Result : Type w}

@[simp] theorem mapError_ok (f : Err → Err') (result : Result) :
    (Except.ok result : Except Err Result).mapError f = .ok result := rfl

@[simp] theorem mapError_error (f : Err → Err') (failure : Err) :
    (Except.error failure : Except Err Result).mapError f = .error (f failure) := rfl

end MapError

def Proc (State : Type u) (Err : Type v) (Result : Type w) :=
  State → Except Err Result × State

namespace Proc

variable {State : Type u} {Err : Type v} {Result Final : Type w}

instance : Monad (Proc State Err) where
  pure result := fun state => (.ok result, state)
  bind first next := fun state =>
    match first state with
    | (.ok result, state) => next result state
    | (.error failure, state) => (.error failure, state)

def fail (failure : Err) : Proc State Err Result :=
  fun state => (.error failure, state)

def read (f : State → Result) : Proc State Err Result :=
  fun state => (.ok (f state), state)

def modify (f : State → State) : Proc State Err PUnit :=
  fun state => (.ok ⟨⟩, f state)

/-- A read of the state that may fail and writes nothing. -/
def tryRead (f : State → Except Err Result) : Proc State Err Result :=
  fun state => (f state, state)

def update (f : State → Result × State) : Proc State Err Result :=
  fun state => (.ok (f state).1, (f state).2)

def mapFailure (f : Err → Err) (proc : Proc State Err Result) : Proc State Err Result :=
  fun state => ((proc state).1.mapError f, (proc state).2)

def attempt (proc : Proc State Err Result) : Proc State Err (Except Err Result) :=
  fun state => (.ok (proc state).1, (proc state).2)

@[simp] theorem pure_run (result : Result) (state : State) :
    (pure result : Proc State Err Result) state = (.ok result, state) := rfl

@[simp] theorem fail_run (failure : Err) (state : State) :
    (fail failure : Proc State Err Result) state = (.error failure, state) := rfl

@[simp] theorem read_run (f : State → Result) (state : State) :
    (read f : Proc State Err Result) state = (.ok (f state), state) := rfl

@[simp] theorem modify_run (f : State → State) (state : State) :
    (modify f : Proc State Err PUnit) state = (.ok ⟨⟩, f state) := rfl

@[simp] theorem tryRead_run (f : State → Except Err Result) (state : State) :
    tryRead f state = (f state, state) := rfl

@[simp] theorem update_run (f : State → Result × State) (state : State) :
    (update f : Proc State Err Result) state = (.ok (f state).1, (f state).2) := rfl

theorem bind_run (first : Proc State Err Result) (next : Result → Proc State Err Final)
    (state : State) :
    (first >>= next) state =
      match first state with
      | (.ok result, state) => next result state
      | (.error failure, state) => (.error failure, state) := rfl

variable {final state : State} {first : Proc State Err Result}
  {next : Result → Proc State Err Final}

/-- A sequence succeeds when both parts do, the second from the state the first
left behind. -/
theorem bind_ok_iff {out : Final} :
    (first >>= next) state = (.ok out, final) ↔
      ∃ result middle, first state = (.ok result, middle) ∧
        next result middle = (.ok out, final) := by
  rw [bind_run]
  rcases first state with ⟨result | result, middle⟩
  · simp
  · simp only [Prod.mk.injEq, Except.ok.injEq]
    constructor
    · intro run
      exact ⟨result, middle, ⟨rfl, rfl⟩, run⟩
    · rintro ⟨result', middle', ⟨rfl, rfl⟩, run⟩
      exact run

theorem tryRead_ok_iff {f : State → Except Err Result} {out : Result} :
    tryRead f state = (.ok out, final) ↔ f state = .ok out ∧ state = final := by
  simp

variable {failure : Err}

theorem tryRead_error_iff {f : State → Except Err Result} :
    (tryRead f state = (.error failure, final)) ↔ f state = .error failure ∧ state = final := by
  simp

variable {f : Err → Err} {proc : Proc State Err Result}

theorem mapFailure_ok_iff {out : Result} :
    mapFailure f proc state = (.ok out, final) ↔ proc state = (.ok out, final) := by
  rcases run : proc state with ⟨failure | result, after⟩
  · simp [mapFailure, run]
  · simp [mapFailure, run]

theorem bind_error_iff :
    (first >>= next) state = (.error failure, final) ↔ first state = (.error failure, final) ∨
      ∃ result middle, first state = (.ok result, middle) ∧
        next result middle = (.error failure, final) := by
  rw [bind_run]
  rcases first state with ⟨cause | result, middle⟩
  · simp
  · simp [and_assoc]

theorem mapFailure_error_iff :
    mapFailure f proc state = (.error failure, final) ↔
      ∃ cause, proc state = (.error cause, final) ∧ f cause = failure := by
  rcases run : proc state with ⟨cause | result, after⟩
  · simp [mapFailure, run, and_comm, and_assoc]
  · simp [mapFailure, run]

theorem attempt_ok_iff {outcome : Except Err Result} :
    attempt proc state = (.ok outcome, final) ↔ proc state = (outcome, final) := by
  simp [attempt, Prod.ext_iff]

theorem exists_ok (outcome : Except Err Result × State) (finished : outcome.1.isOk = true) :
    ∃ result, outcome = (.ok result, outcome.2) := by
  obtain ⟨failure | result, state⟩ := outcome
  · simp [Except.isOk, Except.toBool] at finished
  · exact ⟨result, rfl⟩

theorem exists_error (outcome : Except Err Result × State) (failed : outcome.1.isOk = false) :
    ∃ failure, outcome = (.error failure, outcome.2) := by
  obtain ⟨failure | result, state⟩ := outcome
  · exact ⟨failure, rfl⟩
  · simp [Except.isOk, Except.toBool] at failed

/-- A property every outcome keeps, failed ones included. -/
def Keeps (P : State → Prop) (proc : Proc State Err Result) : Prop :=
  ∀ state, P state → P (proc state).2

theorem keeps_pure (P : State → Prop) (result : Result) :
    Keeps P (pure result : Proc State Err Result) := fun _ holds => holds

theorem keeps_fail (P : State → Prop) (failure : Err) :
    Keeps P (fail failure : Proc State Err Result) := fun _ holds => holds

theorem keeps_tryRead (P : State → Prop) (f : State → Except Err Result) :
    Keeps P (tryRead f) := fun _ holds => holds

theorem keeps_read (P : State → Prop) (f : State → Result) :
    Keeps P (read f : Proc State Err Result) := fun _ holds => holds

variable {P : State → Prop}

theorem keeps_mapFailure (keeps : Keeps P proc) :
    Keeps P (mapFailure f proc) := fun state holds => keeps state holds

theorem keeps_of_same {View : Type w} (view : State → View) {P : View → Prop}
    (same : ∀ state, view (proc state).2 = view state) :
    Keeps (fun state => P (view state)) proc := by
  intro state holds
  show P (view (proc state).2)
  rw [same state]
  exact holds

theorem keeps_bind (head : Keeps P first) (tail : ∀ result, Keeps P (next result)) :
    Keeps P (first >>= next) := by
  intro state holds
  have middle := head state holds
  rw [bind_run]
  rcases run : first state with ⟨failure | result, after⟩
  · rw [run] at middle
    exact middle
  · rw [run] at middle
    exact tail result after middle

/-- A property that failed outcomes keep: nothing was written yet. -/
def KeepsFailing (P : State → Prop) (proc : Proc State Err Result) : Prop :=
  ∀ state final failure, P state → proc state = (.error failure, final) → P final

theorem keepsFailing_mapFailure (keeps : KeepsFailing P proc) :
    KeepsFailing P (mapFailure f proc) := by
  intro state final failure holds run
  obtain ⟨cause, failed, -⟩ := mapFailure_error_iff.mp run
  exact keeps state final cause holds failed

theorem keepsFailing_bind (head : Keeps P first) (tail : ∀ result, KeepsFailing P (next result)) :
    KeepsFailing P (first >>= next) := by
  intro state final failure holds run
  have middle := head state holds
  rcases bind_error_iff.mp run with failed | ⟨result, after, ran, failed⟩
  · rwa [failed] at middle
  · rw [ran] at middle
    exact tail result after final failure middle failed

theorem keepsFailing_bind_total (head : KeepsFailing P first)
    (total : ∀ result state, ∃ out final, next result state = (.ok out, final)) :
    KeepsFailing P (first >>= next) := by
  intro state final failure holds run
  rcases bind_error_iff.mp run with failed | ⟨result, after, -, failed⟩
  · exact head state final failure holds failed
  · obtain ⟨out, last, succeeds⟩ := total result after
    rw [succeeds] at failed
    cases failed

/-- From a state with `P` every outcome has `I`, and a result meets `Q`. -/
def Ensures (I P : State → Prop) (proc : Proc State Err Result)
    (Q : Result → State → Prop) : Prop :=
  ∀ state, P state → I (proc state).2 ∧
    ∀ result, (proc state).1 = .ok result → Q result (proc state).2

section Ensures

variable {I P : State → Prop} {Q : Result → State → Prop}

theorem ensures_bind {R : Final → State → Prop} (head : Ensures I P first Q)
    (tail : ∀ result, Ensures I (Q result) (next result) R) : Ensures I P (first >>= next) R := by
  intro state holds
  obtain ⟨kept, meets⟩ := head state holds
  rw [bind_run]
  rcases run : first state with ⟨failure | result, after⟩
  · rw [run] at kept
    exact ⟨kept, fun out failed => by simp at failed⟩
  · rw [run] at meets
    exact tail result after (meets result rfl)

theorem ensures_pure {result : Result} (keeps : ∀ state, P state → I state)
    (meets : ∀ state, P state → Q result state) :
    Ensures I P (pure result : Proc State Err Result) Q := by
  intro state holds
  refine ⟨keeps state holds, fun out same => ?_⟩
  cases same
  exact meets state holds

theorem ensures_tryRead {f : State → Except Err Result} (keeps : ∀ state, P state → I state)
    (meets : ∀ state result, P state → f state = .ok result → Q result state) :
    Ensures I P (tryRead f) Q :=
  fun state holds => ⟨keeps state holds, fun result read => meets state result holds read⟩

theorem ensures_update {f : State → Result × State}
    (keeps : ∀ state, P state → I (f state).2)
    (meets : ∀ state, P state → Q (f state).1 (f state).2) :
    Ensures I P (update f : Proc State Err Result) Q := by
  intro state holds
  refine ⟨keeps state holds, fun result same => ?_⟩
  cases same
  exact meets state holds

theorem ensures_mapFailure (spec : Ensures I P proc Q) : Ensures I P (mapFailure f proc) Q := by
  intro state holds
  obtain ⟨kept, meets⟩ := spec state holds
  refine ⟨kept, fun result mapped => meets result ?_⟩
  rcases run : proc state with ⟨failure | out, after⟩
  · simp [mapFailure, run] at mapped
  · simpa [mapFailure, run] using mapped

theorem ensures_attempt (spec : Ensures I P proc Q) :
    Ensures I P (attempt proc) fun outcome state =>
      I state ∧ ∀ result, outcome = .ok result → Q result state := by
  intro state holds
  obtain ⟨kept, meets⟩ := spec state holds
  refine ⟨kept, fun outcome same => ?_⟩
  cases same
  exact ⟨kept, meets⟩

theorem Ensures.keeps (spec : Ensures I I proc Q) :
    Keeps I proc := fun state holds => (spec state holds).1

theorem Keeps.ensures (keeps : Keeps I proc) (stronger : ∀ state, P state → I state) :
    Ensures I P proc fun _ => I := by
  intro state holds
  have kept := keeps state (stronger state holds)
  exact ⟨kept, fun _ _ => kept⟩

theorem ensures_bind_fact {F : Result → Prop}
    (head : Ensures I P first fun result state => I state ∧ F result)
    (tail : ∀ result, F result → Keeps I (next result)) :
    Ensures I P (first >>= next) fun _ => I := by
  refine ensures_bind head fun result state holds => ?_
  have kept := tail result holds.2 state holds.1
  exact ⟨kept, fun _ _ => kept⟩

end Ensures

end Proc

section Except

variable {Err : Type v} {Result Final : Type w} {next : Result → Except Err Final}

theorem except_bind_ok_iff {first : Except Err Result}
    {out : Final} :
    (first >>= next) = .ok out ↔ ∃ result, first = .ok result ∧ next result = .ok out := by
  cases first with
  | error failure | ok result => simp [bind, Except.bind]

theorem except_bind_error_iff {first : Except Err Result}
    {failure : Err} :
    (first >>= next) = .error failure ↔
      first = .error failure ∨ ∃ result, first = .ok result ∧ next result = .error failure := by
  cases first with
  | error other | ok result => simp [bind, Except.bind]

theorem mapError_eq_ok_iff {f : Err → Final} {outcome : Except Err Result} {result : Result} :
    outcome.mapError f = .ok result ↔ outcome = .ok result := by
  cases outcome <;> simp

end Except

end Nanofile.Lib
