import Nanofile.Lib.WindowLog

/-!
# How many guesses a lockout lets through

Wrong passwords are first verified and then recorded, and a check lets a call pass by what is
recorded.  What bounds the guesses is therefore the recorded ones together with those that are
verified and not recorded yet and those that passed a check and may still turn out wrong.
-/

set_option autoImplicit false

namespace Nanofile

open Nanofile.Lib

/-- What a history of sign-ins keeps: a wrong password that was verified, and a login. -/
inductive SignInEvent where
  | wrongPassword (clientIp : String) (time : Int)
  | loggedIn (clientIp : String)
deriving DecidableEq, Repr

def wrongAfter (ip : String) (start : Int) (events : List SignInEvent) : Nat :=
  events.countP fun
    | .wrongPassword clientIp time => clientIp = ip && start < time
    | .loggedIn _ => false

/-- The wrong passwords of an address in the window that follows a time. -/
def wrongWithin (ip : String) (start stop : Int) (events : List SignInEvent) : Nat :=
  events.countP fun
    | .wrongPassword clientIp time => clientIp = ip && start < time && time ≤ stop
    | .loggedIn _ => false

/-- Without a login in between, no window holds more wrong passwords than attempts are allowed. -/
def BoundsGuesses (maxAttempts : Nat) (window : Int) (ip : String) (history : List SignInEvent) :
    Prop :=
  ∀ events, events <:+: history → .loggedIn ip ∉ events →
    ∀ start, wrongWithin ip start (start + window) events ≤ maxAttempts

/-- What decides about the guesses of one address: the times recorded, how many calls may still
verify a wrong password, how many have yet to record one, and the history. -/
structure Guesses where
  times : List Int
  pending : Nat
  recording : Nat
  history : List SignInEvent
  clock : Int

/-- The invariant, for every time the window of a check can reach back to. -/
structure Guesses.Bounded (maxAttempts : Nat) (window : Int) (ip : String) (guesses : Guesses) :
    Prop where
  past : ∀ time, .wrongPassword ip time ∈ guesses.history → time ≤ guesses.clock
  recorded : ∀ recent, recent <:+ guesses.history → .loggedIn ip ∉ recent →
    ∀ start, guesses.clock - window ≤ start →
      wrongAfter ip start recent ≤ (timesAfter start guesses.times).length + guesses.recording
  room : ∀ recent, recent <:+ guesses.history → .loggedIn ip ∉ recent →
    ∀ start, guesses.clock - window ≤ start →
      wrongAfter ip start recent + guesses.pending ≤ maxAttempts
  bound : BoundsGuesses maxAttempts window ip guesses.history

variable {maxAttempts : Nat} {window : Int} {ip : String}

theorem wrongAfter_concat (ip : String) (start : Int) (events : List SignInEvent)
    (event : SignInEvent) : wrongAfter ip start (events ++ [event]) =
      wrongAfter ip start events + wrongAfter ip start [event] :=
  List.countP_append

theorem wrongAfter_single_le (ip : String) (start : Int) (event : SignInEvent) :
    wrongAfter ip start [event] ≤ 1 := by
  rw [wrongAfter]
  exact List.countP_le_length

theorem wrongAfter_mono {start later : Int} (le : start ≤ later) (events : List SignInEvent) :
    wrongAfter ip later events ≤ wrongAfter ip start events := by
  refine List.countP_mono_left fun event _ counted => ?_
  cases event with
  | wrongPassword clientIp time =>
    simp only [Bool.and_eq_true, decide_eq_true_eq] at counted ⊢
    exact ⟨counted.1, Int.lt_of_le_of_lt le counted.2⟩
  | loggedIn clientIp => exact counted

theorem wrongWithin_le_wrongAfter (start stop : Int) (events : List SignInEvent) :
    wrongWithin ip start stop events ≤ wrongAfter ip start events := by
  refine List.countP_mono_left fun event _ counted => ?_
  cases event with
  | wrongPassword clientIp time =>
    simp only [Bool.and_eq_true] at counted ⊢
    exact counted.1
  | loggedIn clientIp => exact counted

theorem wrongAfter_eq_zero {start clock : Int} {events : List SignInEvent}
    (past : ∀ time, .wrongPassword ip time ∈ events → time ≤ clock) (le : clock ≤ start) :
    wrongAfter ip start events = 0 := by
  refine List.countP_eq_zero.mpr fun event listed counted => ?_
  cases event with
  | wrongPassword clientIp time =>
    simp only [Bool.and_eq_true, decide_eq_true_eq] at counted
    obtain ⟨rfl, after⟩ := counted
    exact absurd (past time listed) (Int.not_le.mpr (Int.lt_of_le_of_lt le after))
  | loggedIn clientIp => cases counted

theorem suffix_concat {events history : List SignInEvent} {event : SignInEvent}
    (suffix : events <:+ history ++ [event]) :
    events = [] ∨ ∃ before, events = before ++ [event] ∧ before <:+ history :=
  List.suffix_concat_iff.mp suffix

namespace Guesses.Bounded

variable {guesses next : Guesses}

theorem empty (maxAttempts : Nat) (window : Int) (ip : String) (clock : Int) :
    Guesses.Bounded maxAttempts window ip ⟨[], 0, 0, [], clock⟩ := by
  refine ⟨nofun, fun recent suffix _ _ _ => ?_, fun recent suffix _ _ _ => ?_,
    fun events inside _ _ => ?_⟩
  · rw [List.suffix_nil.mp suffix]
    exact Nat.zero_le _
  · rw [List.suffix_nil.mp suffix]
    exact Nat.zero_le _
  · rw [List.infix_nil.mp inside]
    exact Nat.zero_le _

section

variable (bounded : guesses.Bounded maxAttempts window ip)
include bounded

/-- Nothing happens that the bound depends on: time goes on, more times may be recorded, and fewer
calls may still verify a wrong password. -/
theorem quiet (history : next.history = guesses.history) (clock : guesses.clock ≤ next.clock)
    (pending : next.pending ≤ guesses.pending) (recording : next.recording = guesses.recording)
    (times : ∀ start, next.clock - window ≤ start →
      (timesAfter start guesses.times).length ≤ (timesAfter start next.times).length) :
    next.Bounded maxAttempts window ip := by
  have reach : ∀ start, next.clock - window ≤ start → guesses.clock - window ≤ start :=
    fun start within => Int.le_trans (Int.sub_le_sub_right clock window) within
  constructor
  · rw [history]
    exact fun time listed => Int.le_trans (bounded.past time listed) clock
  · rw [history]
    intro recent suffix apart start within
    have before := bounded.recorded recent suffix apart start (reach start within)
    have more := times start within
    omega
  · rw [history]
    intro recent suffix apart start within
    have before := bounded.room recent suffix apart start (reach start within)
    omega
  · rw [history]
    exact bounded.bound

theorem passed (history : next.history = guesses.history)
    (pending : next.pending = guesses.pending + 1) (recording : next.recording = guesses.recording)
    {now : Int} (order : guesses.clock ≤ now) (clock : now ≤ next.clock)
    (times : ∀ start, next.clock - window ≤ start →
      timesAfter start next.times = timesAfter start guesses.times)
    (room : (timesAfter (now - window)
      guesses.times).length + (guesses.pending + guesses.recording) < maxAttempts) :
    next.Bounded maxAttempts window ip := by
  have reach : ∀ start, next.clock - window ≤ start → now - window ≤ start :=
    fun start within => Int.le_trans (Int.sub_le_sub_right clock window) within
  have early : guesses.clock - window ≤ now - window := Int.sub_le_sub_right order window
  constructor
  · rw [history]
    exact fun time listed => Int.le_trans (bounded.past time listed) (Int.le_trans order clock)
  · rw [history]
    intro recent suffix apart start within
    rw [times start within, recording]
    exact bounded.recorded recent suffix apart start (Int.le_trans early (reach start within))
  · rw [history]
    intro recent suffix apart start within
    have counted := bounded.recorded recent suffix apart (now - window) early
    have fewer : wrongAfter ip start recent ≤ _ := wrongAfter_mono (reach start within) recent
    omega
  · rw [history]
    exact bounded.bound

theorem wrong (history : next.history = guesses.history ++ [.wrongPassword ip next.clock])
    (pending : next.pending + 1 = guesses.pending)
    (recording : next.recording = guesses.recording + 1) (clock : guesses.clock ≤ next.clock)
    (times : next.times = guesses.times) : next.Bounded maxAttempts window ip := by
  have reach : ∀ start, next.clock - window ≤ start → guesses.clock - window ≤ start :=
    fun start within => Int.le_trans (Int.sub_le_sub_right clock window) within
  have room : ∀ recent, recent <:+ next.history → .loggedIn ip ∉ recent →
      ∀ start, next.clock - window ≤ start →
        wrongAfter ip start recent + next.pending ≤ maxAttempts := by
    rw [history]
    intro recent suffix apart start within
    rcases suffix_concat suffix with rfl | ⟨before, rfl, shorter⟩
    · have none := bounded.room [] List.nil_suffix List.not_mem_nil start (reach start within)
      have zero : wrongAfter ip start [] = 0 := rfl
      omega
    · have earlier := bounded.room before shorter (fun listed => apart (List.mem_append_left _ listed))
        start (reach start within)
      rw [wrongAfter_concat]
      have one := wrongAfter_single_le ip start (.wrongPassword ip next.clock)
      omega
  refine ⟨?_, ?_, room, ?_⟩
  · rw [history]
    intro time listed
    rcases List.mem_append.mp listed with old | new
    · exact Int.le_trans (bounded.past time old) clock
    · cases List.mem_singleton.mp new
      exact Int.le_refl _
  · rw [history, times, recording]
    intro recent suffix apart start within
    rcases suffix_concat suffix with rfl | ⟨before, rfl, shorter⟩
    · exact Nat.zero_le _
    · have earlier := bounded.recorded before shorter
        (fun listed => apart (List.mem_append_left _ listed)) start (reach start within)
      rw [wrongAfter_concat]
      have one := wrongAfter_single_le ip start (.wrongPassword ip next.clock)
      omega
  · rw [history]
    intro events inside apart start
    rcases List.infix_concat_iff.mp inside with suffix | old
    · rcases suffix_concat suffix with rfl | ⟨before, rfl, shorter⟩
      · exact Nat.zero_le _
      · have isSuffix : before ++ [.wrongPassword ip next.clock] <:+ next.history := by
          rw [history]
          exact List.suffix_concat_iff.mpr (Or.inr ⟨before, rfl, shorter⟩)
        -- The new event is in the window of a check made now, or after the window asked about.
        by_cases within : next.clock - window ≤ start
        · have counted := room _ isSuffix apart start within
          have fewer : wrongWithin ip start (start + window)
              (before ++ [.wrongPassword ip next.clock]) ≤ _ := wrongWithin_le_wrongAfter _ _ _
          omega
        · have outside : wrongWithin ip start (start + window) [.wrongPassword ip next.clock] = 0 := by
            have late : ¬ next.clock ≤ start + window := by omega
            simp [wrongWithin, late]
          have earlier := bounded.bound before shorter.isInfix
            (fun listed => apart (List.mem_append_left _ listed)) start
          have split : wrongWithin ip start (start + window)
              (before ++ [.wrongPassword ip next.clock]) =
                wrongWithin ip start (start + window) before +
                  wrongWithin ip start (start + window) [.wrongPassword ip next.clock] :=
            List.countP_append
          omega
    · exact bounded.bound events old apart start

theorem record (history : next.history = guesses.history) (pending : next.pending = guesses.pending)
    (recording : next.recording + 1 = guesses.recording) {now : Int} (order : guesses.clock ≤ now)
    (clock : now ≤ next.clock)
    (times : ∀ start, next.clock - window ≤ start →
      timesAfter start next.times = timesAfter start (guesses.times ++ [now])) :
    next.Bounded maxAttempts window ip := by
  have reach : ∀ start, next.clock - window ≤ start → guesses.clock - window ≤ start :=
    fun start within =>
      Int.le_trans (Int.sub_le_sub_right (Int.le_trans order clock) window) within
  constructor
  · rw [history]
    exact fun time listed => Int.le_trans (bounded.past time listed) (Int.le_trans order clock)
  · rw [history]
    intro recent suffix apart start within
    rw [times start within, timesAfter_append, List.length_append]
    by_cases after : start < now
    · have one : (timesAfter start [now]).length = 1 := by simp [timesAfter, after]
      have before := bounded.recorded recent suffix apart start (reach start within)
      omega
    · rw [wrongAfter_eq_zero (fun time listed => bounded.past time (suffix.subset listed))
        (Int.le_trans order (Int.not_lt.mp after))]
      exact Nat.zero_le _
  · rw [history, pending]
    intro recent suffix apart start within
    exact bounded.room recent suffix apart start (reach start within)
  · rw [history]
    exact bounded.bound

theorem login (history : next.history = guesses.history ++ [.loggedIn ip])
    (pending : next.pending = guesses.pending) (clock : guesses.clock ≤ next.clock) :
    next.Bounded maxAttempts window ip := by
  have only : ∀ recent, recent <:+ next.history → .loggedIn ip ∉ recent → recent = [] := by
    rw [history]
    intro recent suffix apart
    rcases suffix_concat suffix with none | ⟨before, rfl, -⟩
    · exact none
    · exact absurd (List.mem_append_right before (List.mem_singleton_self _)) apart
  constructor
  · rw [history]
    intro time listed
    rcases List.mem_append.mp listed with old | new
    · exact Int.le_trans (bounded.past time old) clock
    · cases List.mem_singleton.mp new
  · intro recent suffix apart start within
    rw [only recent suffix apart]
    exact Nat.zero_le _
  · intro recent suffix apart start within
    rw [only recent suffix apart, pending]
    exact bounded.room [] List.nil_suffix List.not_mem_nil start
      (Int.le_trans (Int.sub_le_sub_right clock window) within)
  · rw [history]
    intro events inside apart start
    rcases List.infix_concat_iff.mp inside with suffix | old
    · rw [only events (by rw [history]; exact suffix) apart]
      exact Nat.zero_le _
    · exact bounded.bound events old apart start

end

end Guesses.Bounded

end Nanofile
