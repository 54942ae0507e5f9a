import Mathlib.Algebra.Order.BigOperators.Group.List
import Mathlib.Algebra.Order.Group.Int
import Nanofile.Storage.BlockCache

/-!
# One step beside the presence cache

A cached length is that of a file unless a removal is still to drop it.  A step keeps this when it
does not remember the length of a file that a finished removal has unlinked, and when every block
is named by one spelling.
-/

set_option autoImplicit false

namespace Nanofile

open Nanofile.Lib

universe u v

section Runs

variable {Name : Type u} {Key : Type v} [DecidableEq Name] [DecidableEq Key]

/-! ## The condition on a step -/

/-- The operation names its block by the chosen spelling, and writes the content of that block. -/
def Addressed (content : Name → List UInt8) (spelled : Name → Prop) (thread : BlockThread Name) :
    Prop :=
  spelled thread.name ∧
    ∀ writer data, thread.call = .write writer data → data = content thread.name

def BlockPc.remembers : BlockPc → Bool
  | .found _ | .published => true
  | _ => false

/-- An operation that is about to remember a length does so while the file is there, or while a
removal is still to drop what it remembers. -/
def RemembersFile (blocks : CachedBlocks Name Key) (thread : BlockThread Name) : Prop :=
  thread.pc.remembers = true →
    (blocks.files thread.name).isSome ∨ 0 < blocks.forgetting thread.name

/-- A failing look at the metadata makes a write publish as if there were no file; it meets none,
or one of the right length. -/
def StatAnswers (blocks : CachedBlocks Name Key) (thread : BlockThread Name) (tick : BlockTick) :
    Prop :=
  thread.pc = .stat → tick = .ioError → ∀ writer data, thread.call = .write writer data →
    ∀ stored, blocks.files thread.name = some stored → stored.length = data.length

def addressedGuard (content : Name → List UInt8) (spelled : Name → Prop) :
    Threads (CachedBlocks Name Key) (BlockThread Name) →
      ThreadAction (CacheRequest Key) (BlockJob Name) BlockTick → Prop :=
  Program.guarded (fun _ _ => True) fun _ thread _ => Addressed content spelled thread

def cacheGuard (content : Name → List UInt8) (spelled : Name → Prop) :
    Threads (CachedBlocks Name Key) (BlockThread Name) →
      ThreadAction (CacheRequest Key) (BlockJob Name) BlockTick → Prop :=
  Program.guarded (fun _ _ => True) fun blocks thread tick =>
    Addressed content spelled thread ∧ RemembersFile blocks thread ∧
      StatAnswers blocks thread tick

/-! ## Removals in progress -/

def removingPc : BlockPc → Int
  | .unlink | .forget => 1
  | _ => 0

def forgettingPc : BlockPc → Int
  | .forget => 1
  | _ => 0

def pcWeight (weight : BlockPc → Int) (name : Name) (thread : BlockThread Name) : Int :=
  if thread.name = name then weight thread.pc else 0

variable {after : CachedBlocks Name Key × BlockPc} {pc : BlockPc} {thread : BlockThread Name}

section Counters

variable {key : Name → Key} {tick : BlockTick} {blocks : CachedBlocks Name Key} {name : Name}

omit [DecidableEq Key] in
@[simp] theorem returnOk_removing : (blocks.returnOk name).removing = blocks.removing := by
  unfold CachedBlocks.returnOk
  split <;> rfl

omit [DecidableEq Key] in
@[simp] theorem returnOk_forgetting : (blocks.returnOk name).forgetting = blocks.forgetting := by
  unfold CachedBlocks.returnOk
  split <;> rfl

/-- The counters after a step of an operation on this block that went from one point to another. -/
def Counted (blocks : CachedBlocks Name Key) (name : Name) (pc : BlockPc)
    (after : CachedBlocks Name Key × BlockPc) : Prop :=
  after.1.removing = Function.update blocks.removing name
      (blocks.removing name + removingPc after.2 - removingPc pc) ∧
    after.1.forgetting = Function.update blocks.forgetting name
      (blocks.forgetting name + forgettingPc after.2 - forgettingPc pc)

section

omit [DecidableEq Key]

theorem counted_of_same (removing : after.1.removing = blocks.removing)
    (forgetting : after.1.forgetting = blocks.forgetting)
    (sameRemoving : removingPc after.2 = removingPc pc)
    (sameForgetting : forgettingPc after.2 = forgettingPc pc) : Counted blocks name pc after := by
  rw [Counted, removing, forgetting, sameRemoving, sameForgetting]
  simp

theorem startCall_counted (call : BlockCall) :
    Counted blocks name .start (startCall key blocks name call) := by
  cases call with
  | hasBlock =>
    refine counted_of_same rfl rfl ?_ ?_ <;> simp only [startCall] <;> split <;> rfl
  | blockSize => exact counted_of_same rfl rfl rfl rfl
  | write writer data =>
    cases writer <;> simp only [startCall] <;> try split
    all_goals exact counted_of_same (by simp) (by simp) rfl rfl
  | remove =>
    simp only [startCall]
    split
    · simp [Counted, CachedBlocks.beginRemove, removingPc, forgettingPc]
    · simp [Counted, CachedBlocks.beginRemove, CachedBlocks.beginForget, removingPc,
        forgettingPc]

theorem unlinkFile_counted : Counted blocks name .unlink (unlinkFile tick blocks name) := by
  unfold unlinkFile
  split
  · simp [Counted, CachedBlocks.endRemove, removingPc, forgettingPc]
  · simp [Counted, CachedBlocks.beginForget, removingPc, forgettingPc]

end

def StatLeads (seen : Option Nat) (call : BlockCall) : BlockPc → Prop
  | .returned _ => True
  | .found length =>
    seen = some length ∧ ∀ writer data, call = .write writer data → length = data.length
  | .store exclusive => ∃ writer data, call = .write writer data ∧
      (exclusive = true → ∀ length, seen = some length → length = data.length)
  | _ => False

theorem statCall_leads {seen : Option Nat} {call : BlockCall}
    (stat : statCall seen call = some pc) : StatLeads seen call pc := by
  cases call with
  | hasBlock | blockSize =>
    cases stat
    cases seen with
    | none => trivial
    | some length => exact ⟨rfl, nofun⟩
  | write writer data =>
    cases writer with
    | plain =>
      cases stat
      cases seen with
      | none => exact ⟨_, _, rfl, fun _ => nofun⟩
      | some length =>
        simp only [Option.elim_some]
        split
        · rename_i same
          refine ⟨rfl, ?_⟩
          rintro _ _ ⟨⟩
          exact same
        · exact ⟨_, _, rfl, nofun⟩
    | tracked =>
      cases stat
      cases seen with
      | none => exact ⟨_, _, rfl, fun _ => nofun⟩
      | some length =>
        refine ⟨_, _, rfl, fun same other isLength => ?_⟩
        cases isLength
        exact of_decide_eq_true same
    | force => cases stat
  | remove => cases stat

theorem blockPcStep_counted {call : BlockCall}
    (moved : blockPcStep key tick blocks name call pc = some after) :
    Counted blocks name pc after := by
  cases pc with
  | start =>
    cases moved
    exact startCall_counted call
  | stat =>
    obtain ⟨next, stat, rfl⟩ := Option.map_eq_some_iff.mp moved
    have leads := statCall_leads stat
    cases next with
    | start | stat | published | unlink | forget => exact leads.elim
    | found _ | store _ | returned _ => exact counted_of_same rfl rfl rfl rfl
  | found length =>
    obtain ⟨next, seen, rfl⟩ := Option.map_eq_some_iff.mp moved
    cases call <;> cases seen <;>
      exact counted_of_same (by simp [CachedBlocks.existsCacheInsert])
        (by simp [CachedBlocks.existsCacheInsert]) rfl rfl
  | store exclusive =>
    cases call with
    | hasBlock | blockSize | remove => cases moved
    | write writer data =>
      obtain rfl := Option.some.inj moved
      split
      · exact counted_of_same rfl rfl rfl rfl
      · unfold publishBlock
        split <;> exact counted_of_same rfl rfl rfl rfl
  | published =>
    obtain ⟨next, seen, rfl⟩ := Option.map_eq_some_iff.mp moved
    cases call with
    | hasBlock | blockSize | remove => cases seen
    | write writer data =>
      cases seen
      exact counted_of_same (by simp [CachedBlocks.existsCacheInsert])
        (by simp [CachedBlocks.existsCacheInsert]) rfl rfl
  | unlink =>
    cases call <;> cases moved
    exact unlinkFile_counted
  | forget =>
    obtain ⟨next, seen, rfl⟩ := Option.map_eq_some_iff.mp moved
    cases call <;> cases seen
    simp [Counted, CachedBlocks.endForget, CachedBlocks.endRemove, removingPc, forgettingPc]
  | returned ok => cases moved

theorem blockStep_eq_some {after : CachedBlocks Name Key × BlockThread Name}
    (moved : blockStep key tick blocks thread = some after) :
    ∃ pc, blockPcStep key tick blocks thread.name thread.call thread.pc = some (after.1, pc) ∧
      after.2 = { thread with pc } := by
  obtain ⟨⟨next, pc⟩, stepped, rfl⟩ := Option.map_eq_some_iff.mp moved
  exact ⟨pc, stepped, rfl⟩

omit [DecidableEq Key] in
theorem counter_step {weight : BlockPc → Int} {before after : Name → Int}
    (counted : after = Function.update before thread.name
      (before thread.name + weight pc - weight thread.pc)) (other : Name) :
    after other - before other =
      pcWeight weight other { thread with pc } - pcWeight weight other thread := by
  subst counted
  unfold pcWeight
  by_cases same : thread.name = other
  · subst same
    simp only [Function.update_self, if_true]
    omega
  · simp [same, Function.update_of_ne (Ne.symm same)]

end Counters

/-- The server has just started on files that are whole, or partial and of another length. -/
structure FreshBlocks (content : Name → List UInt8) (spelled : Name → Prop)
    (blocks : CachedBlocks Name Key) : Prop where
  files : ∀ name, spelled name → ∀ stored, blocks.files name = some stored →
    stored = content name ∨ stored.length ≠ (content name).length
  existsCache : ∀ cached, blocks.existsCache cached = none
  written : ∀ name, blocks.written name = false
  removing : ∀ name, blocks.removing name = 0
  forgetting : ∀ name, blocks.forgetting name = 0

def blockSystem (key : Name → Key) (content : Name → List UInt8) (spelled : Name → Prop) :
    System (Threads (CachedBlocks Name Key) (BlockThread Name))
      (ThreadAction (CacheRequest Key) (BlockJob Name) BlockTick) :=
  (blockProgram key).system (FreshBlocks content spelled)

structure Removals (state : Threads (CachedBlocks Name Key) (BlockThread Name)) : Prop where
  removing : ∀ name, state.shared.removing name =
    (state.running.map (pcWeight removingPc name)).sum
  forgetting : ∀ name, state.shared.forgetting name =
    (state.running.map (pcWeight forgettingPc name)).sum

section Removals

variable {key : Name → Key} {content : Name → List UInt8} {spelled : Name → Prop}
  {guard : Threads (CachedBlocks Name Key) (BlockThread Name) →
    ThreadAction (CacheRequest Key) (BlockJob Name) BlockTick → Prop}
  {state : Threads (CachedBlocks Name Key) (BlockThread Name)}

theorem removals_of_reachable
    (reached : (blockSystem key content spelled).Reachable guard state) : Removals state := by
  constructor
  · intro name
    refine Program.counter_eq_sum (pcWeight removingPc name) (fun blocks => blocks.removing name)
      (fun job => ?_) (fun _ _ => rfl) ?_ (fun blocks fresh => fresh.removing name) reached
    · unfold pcWeight
      split <;> rfl
    · intro blocks thread tick after moved
      obtain ⟨pc, stepped, same⟩ := blockStep_eq_some moved
      rw [same]
      exact counter_step (blockPcStep_counted stepped).1 name
  · intro name
    refine Program.counter_eq_sum (pcWeight forgettingPc name)
      (fun blocks => blocks.forgetting name) (fun job => ?_) (fun _ _ => rfl) ?_
      (fun blocks fresh => fresh.forgetting name) reached
    · unfold pcWeight
      split <;> rfl
    · intro blocks thread tick after moved
      obtain ⟨pc, stepped, same⟩ := blockStep_eq_some moved
      rw [same]
      exact counter_step (blockPcStep_counted stepped).2 name

omit [DecidableEq Key] in
theorem pcWeight_nonneg {weight : BlockPc → Int} (nonneg : ∀ pc, 0 ≤ weight pc) (name : Name)
    (thread : BlockThread Name) : 0 ≤ pcWeight weight name thread := by
  unfold pcWeight
  split
  · exact nonneg _
  · exact Int.le_refl 0

theorem removingPc_nonneg (pc : BlockPc) : 0 ≤ removingPc pc := by
  cases pc <;> simp [removingPc]

section

omit [DecidableEq Key]

theorem Removals.forgetting_nonneg (removals : Removals state) (name : Name) :
    0 ≤ state.shared.forgetting name := by
  rw [removals.forgetting]
  refine List.sum_nonneg fun weight listed => ?_
  obtain ⟨thread, -, rfl⟩ := List.mem_map.mp listed
  exact pcWeight_nonneg (fun pc => by cases pc <;> simp [forgettingPc]) name thread

theorem Removals.forgetting_le (removals : Removals state) (name : Name) :
    state.shared.forgetting name ≤ state.shared.removing name := by
  rw [removals.removing, removals.forgetting]
  refine List.sum_le_sum fun thread _ => ?_
  unfold pcWeight
  split
  · cases thread.pc <;> simp [removingPc, forgettingPc]
  · exact Int.le_refl 0

theorem Removals.removing_pos (removals : Removals state) (running : thread ∈ state.running)
    (removes : removingPc thread.pc = 1) : 0 < state.shared.removing thread.name := by
  have counts : pcWeight removingPc thread.name thread = 1 := by
    rw [pcWeight, if_pos rfl, removes]
  have single := List.single_le_sum (l := state.running.map (pcWeight removingPc thread.name))
    (fun weight listed => by
      obtain ⟨other, -, rfl⟩ := List.mem_map.mp listed
      exact pcWeight_nonneg removingPc_nonneg _ other)
    _ (List.mem_map_of_mem running)
  rw [removals.removing]
  omega

theorem Removals.idle (removals : Removals state)
    (idle : ∀ thread ∈ state.running, ∃ ok, thread.pc = .returned ok) (name : Name) :
    state.shared.forgetting name = 0 := by
  rw [removals.forgetting]
  refine List.sum_eq_zero fun weight listed => ?_
  obtain ⟨thread, running, rfl⟩ := List.mem_map.mp listed
  obtain ⟨ok, returned⟩ := idle thread running
  rw [pcWeight, returned]
  split <;> rfl

end

end Removals

/-! ## The invariant -/

section Invariant

variable {key : Name → Key} {content : Name → List UInt8} {spelled : Name → Prop}
  {blocks : CachedBlocks Name Key} {name : Name}

def WholeFile (content : Name → List UInt8) (blocks : CachedBlocks Name Key) (name : Name) : Prop :=
  ∀ stored, blocks.files name = some stored → stored = content name

structure CacheAgrees (key : Name → Key) (content : Name → List UInt8) (spelled : Name → Prop)
    (blocks : CachedBlocks Name Key) : Prop where
  files : ∀ other, spelled other → ∀ stored, blocks.files other = some stored →
    stored = content other ∨ stored.length ≠ (content other).length
  cached : ∀ other, spelled other → ∀ length, blocks.existsCache (key other) = some length →
    0 < blocks.forgetting other ∨ (blocks.files other).isSome ∧
      (length = (content other).length → WholeFile content blocks other)
  written : ∀ other, spelled other → blocks.written other = true →
    blocks.files other = some (content other) ∧ blocks.removing other = 0

def Looked (content : Name → List UInt8) (blocks : CachedBlocks Name Key) (name : Name)
    (call : BlockCall) : BlockPc → Prop
  | .found length => (length = (content name).length → WholeFile content blocks name) ∧
      ∀ writer data, call = .write writer data → length = data.length
  | .store exclusive => exclusive = true → WholeFile content blocks name
  | .published => WholeFile content blocks name
  | _ => True

def KeepsWhole (content : Name → List UInt8) (spelled : Name → Prop)
    (before after : CachedBlocks Name Key) : Prop :=
  ∀ name, spelled name → WholeFile content before name → WholeFile content after name

section

omit [DecidableEq Name] [DecidableEq Key]

theorem Looked.stable {after : CachedBlocks Name Key} {call : BlockCall} (isSpelled : spelled name)
    (keeps : KeepsWhole content spelled blocks after)
    (looked : Looked content blocks name call pc) : Looked content after name call pc := by
  cases pc with
  | found length => exact ⟨fun same => keeps name isSpelled (looked.1 same), looked.2⟩
  | store exclusive => exact fun isExclusive => keeps name isSpelled (looked isExclusive)
  | published => exact keeps name isSpelled looked
  | start | stat | unlink | forget | returned _ => trivial

theorem keepsWhole_of_files {after : CachedBlocks Name Key}
    (same : after.files = blocks.files) : KeepsWhole content spelled blocks after := by
  intro other _ whole stored found
  rw [same] at found
  exact whole stored found

end

omit [DecidableEq Key] in
theorem keepsWhole_putFile :
    KeepsWhole content spelled blocks (blocks.putFile name (content name)) := by
  intro other _ whole stored found
  simp only [CachedBlocks.putFile] at found
  by_cases same : other = name
  · subst same
    rw [Function.update_self, Option.some.injEq] at found
    exact found.symm
  · rw [Function.update_of_ne same] at found
    exact whole stored found

omit [DecidableEq Key] in
theorem keepsWhole_beginForget : KeepsWhole content spelled blocks (blocks.beginForget name) := by
  intro other _ whole stored found
  simp only [CachedBlocks.beginForget] at found
  by_cases same : other = name
  · subst same
    rw [Function.update_self] at found
    cases found
  · rw [Function.update_of_ne same] at found
    exact whole stored found

section

variable (agrees : CacheAgrees key content spelled blocks)
include agrees

omit [DecidableEq Name] in
theorem CacheAgrees.existsCacheInsert
    (oneSpelling : ∀ first second, spelled first → spelled second → key first = key second → first = second)
    (isSpelled : spelled name) {length : Nat}
    (backed : (blocks.files name).isSome ∨ 0 < blocks.forgetting name)
    (whole : length = (content name).length → WholeFile content blocks name) :
    CacheAgrees key content spelled (blocks.existsCacheInsert key name length) := by
  refine ⟨agrees.files, fun other isSpelled' seen cached => ?_, agrees.written⟩
  simp only [CachedBlocks.existsCacheInsert] at cached ⊢
  by_cases same : key other = key name
  · obtain rfl := oneSpelling other name isSpelled' isSpelled same
    rw [Function.update_self, Option.some.injEq] at cached
    subst cached
    exact backed.symm.imp_right fun present => ⟨present, whole⟩
  · rw [Function.update_of_ne same] at cached
    exact agrees.cached other isSpelled' seen cached

omit [DecidableEq Key] in
theorem CacheAgrees.returnOk
    (there : blocks.removing name = 0 → blocks.files name = some (content name)) :
    CacheAgrees key content spelled (blocks.returnOk name) := by
  unfold CachedBlocks.returnOk
  split
  · rename_i noRemoval
    refine ⟨agrees.files, agrees.cached, fun other isSpelled written => ?_⟩
    by_cases same : other = name
    · subst same
      exact ⟨there noRemoval, noRemoval⟩
    · simp only [Function.update_of_ne same] at written
      exact agrees.written other isSpelled written
  · exact agrees

omit [DecidableEq Key] in
theorem CacheAgrees.putFile :
    CacheAgrees key content spelled (blocks.putFile name (content name)) := by
  refine ⟨fun other isSpelled stored found => ?_, fun other isSpelled length cached => ?_,
    fun other isSpelled written => ?_⟩
  all_goals
    by_cases same : other = name
  · subst same
    simp only [CachedBlocks.putFile, Function.update_self, Option.some.injEq] at found
    exact Or.inl found.symm
  · simp only [CachedBlocks.putFile, Function.update_of_ne same] at found
    exact agrees.files other isSpelled stored found
  · subst same
    refine Or.inr ⟨by simp [CachedBlocks.putFile], fun _ stored found => ?_⟩
    simp only [CachedBlocks.putFile, Function.update_self, Option.some.injEq] at found
    exact found.symm
  · refine (agrees.cached other isSpelled length cached).imp_right fun there => ?_
    simpa only [WholeFile, CachedBlocks.putFile, Function.update_of_ne same] using there
  · subst same
    exact ⟨by simp [CachedBlocks.putFile], (agrees.written other isSpelled written).2⟩
  · simp only [CachedBlocks.putFile, Function.update_of_ne same]
    exact agrees.written other isSpelled written

omit [DecidableEq Name] [DecidableEq Key] in
theorem CacheAgrees.not_written (isSpelled : spelled name) (removing : 0 < blocks.removing name) :
    blocks.written name = false := by
  rw [← Bool.not_eq_true]
  intro written
  have none := (agrees.written name isSpelled written).2
  omega

section

omit [DecidableEq Key]

theorem CacheAgrees.beginRemove : CacheAgrees key content spelled (blocks.beginRemove name) := by
  refine ⟨agrees.files, agrees.cached, fun other isSpelled written => ?_⟩
  simp only [CachedBlocks.beginRemove] at written ⊢
  by_cases same : other = name
  · subst same
    simp at written
  · rw [Function.update_of_ne same] at written ⊢
    exact agrees.written other isSpelled written

theorem CacheAgrees.endRemove (notWritten : blocks.written name = false) :
    CacheAgrees key content spelled (blocks.endRemove name) := by
  refine ⟨agrees.files, agrees.cached, fun other isSpelled written => ?_⟩
  have same : other ≠ name := by
    rintro rfl
    exact Bool.false_ne_true (notWritten.symm.trans written)
  simp only [CachedBlocks.endRemove, Function.update_of_ne same]
  exact agrees.written other isSpelled written

theorem CacheAgrees.beginForget (notWritten : blocks.written name = false)
    (counted : 0 ≤ blocks.forgetting name) :
    CacheAgrees key content spelled (blocks.beginForget name) := by
  refine ⟨fun other isSpelled stored found => ?_, fun other isSpelled length cached => ?_,
    fun other isSpelled written => ?_⟩
  · simp only [CachedBlocks.beginForget] at found
    by_cases same : other = name
    · subst same
      simp at found
    · rw [Function.update_of_ne same] at found
      exact agrees.files other isSpelled stored found
  · by_cases same : other = name
    · subst same
      refine Or.inl ?_
      simp only [CachedBlocks.beginForget, Function.update_self]
      omega
    · refine (agrees.cached other isSpelled length cached).imp ?_ ?_ <;>
        simp only [WholeFile, CachedBlocks.beginForget, Function.update_of_ne same] <;> exact id
  · have same : other ≠ name := by
      rintro rfl
      exact Bool.false_ne_true (notWritten.symm.trans written)
    simp only [CachedBlocks.beginForget, Function.update_of_ne same]
    exact agrees.written other isSpelled written

end

theorem CacheAgrees.endForget : CacheAgrees key content spelled (blocks.endForget key name) := by
  refine ⟨agrees.files, fun other isSpelled length cached => ?_, agrees.written⟩
  simp only [CachedBlocks.endForget] at cached ⊢
  by_cases same : other = name
  · subst same
    simp at cached
  · by_cases sameKey : key other = key name
    · rw [sameKey, Function.update_self] at cached
      cases cached
    · rw [Function.update_of_ne sameKey] at cached
      rw [Function.update_of_ne same]
      exact agrees.cached other isSpelled length cached

end

/-! ### One step -/

structure StepGiven (content : Name → List UInt8) (spelled : Name → Prop)
    (blocks : CachedBlocks Name Key) (tick : BlockTick) (thread : BlockThread Name) : Prop where
  addressed : Addressed content spelled thread
  backed : RemembersFile blocks thread
  answers : StatAnswers blocks thread tick
  looked : Looked content blocks thread.name thread.call thread.pc
  forgetting_nonneg : 0 ≤ blocks.forgetting thread.name
  forgetting_le : blocks.forgetting thread.name ≤ blocks.removing thread.name
  removing : removingPc thread.pc = 1 → 0 < blocks.removing thread.name

structure CacheStepKept (key : Name → Key) (content : Name → List UInt8) (spelled : Name → Prop)
    (blocks : CachedBlocks Name Key) (name : Name) (call : BlockCall)
    (after : CachedBlocks Name Key × BlockPc) : Prop where
  agrees : CacheAgrees key content spelled after.1
  keeps : KeepsWhole content spelled blocks after.1
  looked : Looked content after.1 name call after.2

variable {tick : BlockTick} {call : BlockCall}

section

omit [DecidableEq Name] [DecidableEq Key]

theorem file_of_whole (present : (blocks.files name).isSome)
    (whole : WholeFile content blocks name) : blocks.files name = some (content name) := by
  obtain ⟨stored, found⟩ := Option.isSome_iff_exists.mp present
  rw [found, whole stored found]

theorem stepKept_of_same (agrees : CacheAgrees key content spelled blocks)
    (looked : Looked content blocks name call pc) :
    CacheStepKept key content spelled blocks name call (blocks, pc) :=
  ⟨agrees, fun _ _ => id, looked⟩

end

omit [DecidableEq Key] in
theorem returnOk_files : (blocks.returnOk name).files = blocks.files := by
  unfold CachedBlocks.returnOk
  split <;> rfl

omit [DecidableEq Key] in
theorem startCall_kept (agrees : CacheAgrees key content spelled blocks)
    (given : StepGiven content spelled blocks tick ⟨name, call, .start⟩) :
    CacheStepKept key content spelled blocks name call (startCall key blocks name call) := by
  cases call with
  | hasBlock =>
    refine stepKept_of_same agrees ?_
    split <;> trivial
  | blockSize => exact stepKept_of_same agrees trivial
  | write writer data =>
    have isContent : data = content name := given.addressed.2 writer data rfl
    have dedup : CacheStepKept key content spelled blocks name (.write writer data)
        (if blocks.existsCache (key name) = some data.length then
          (blocks.returnOk name, .returned true) else (blocks, .stat)) := by
      split
      · rename_i cached
        refine ⟨agrees.returnOk fun noRemoval => ?_, keepsWhole_of_files returnOk_files, trivial⟩
        have noForget := given.forgetting_le
        rcases agrees.cached name given.addressed.1 _ cached with pending | ⟨present, whole⟩
        · dsimp only at noForget
          omega
        · exact file_of_whole present (whole (congrArg List.length isContent))
      · exact stepKept_of_same agrees trivial
    cases writer with
    | plain | tracked => exact dedup
    | force => exact stepKept_of_same agrees nofun
  | remove =>
    simp only [startCall]
    split
    · exact ⟨agrees.beginRemove, keepsWhole_of_files rfl, trivial⟩
    · refine ⟨agrees.beginRemove.beginForget ?_ given.forgetting_nonneg,
        fun other isSpelled whole => keepsWhole_beginForget other isSpelled ?_, trivial⟩
      · simp [CachedBlocks.beginRemove]
      · exact whole

omit [DecidableEq Name] [DecidableEq Key] in
theorem stat_kept (agrees : CacheAgrees key content spelled blocks)
    (given : StepGiven content spelled blocks tick ⟨name, call, .stat⟩)
    (stat : statCall (if tick = .ioError then none else (blocks.files name).map List.length)
      call = some pc) : CacheStepKept key content spelled blocks name call (blocks, pc) := by
  have whole {stored : List UInt8} (found : blocks.files name = some stored)
      (sameLength : stored.length = (content name).length) : WholeFile content blocks name := by
    intro other found'
    obtain rfl := Option.some.inj (found.symm.trans found')
    exact (agrees.files name given.addressed.1 stored found).resolve_right (not_not.mpr sameLength)
  refine stepKept_of_same agrees ?_
  have leads := statCall_leads stat
  cases pc with
  | start | stat | published | unlink | forget => exact leads.elim
  | returned ok => trivial
  | found length =>
    refine ⟨fun sameLength => ?_, leads.2⟩
    have seen := leads.1
    split at seen
    · cases seen
    · obtain ⟨stored, found, rfl⟩ := Option.map_eq_some_iff.mp seen
      exact whole found sameLength
  | store exclusive =>
    obtain ⟨writer, data, rfl, seen⟩ := leads
    have isContent : data = content name := given.addressed.2 writer data rfl
    intro isExclusive stored found
    have sameLength : stored.length = data.length := by
      by_cases failed : tick = .ioError
      · exact given.answers rfl failed writer data rfl stored found
      · refine seen isExclusive stored.length ?_
        rw [if_neg failed, found]
        rfl
    exact whole found (sameLength.trans (congrArg List.length isContent)) stored found

theorem remember_kept (call : BlockCall) (agrees : CacheAgrees key content spelled blocks)
    (oneSpelling : ∀ first second, spelled first → spelled second → key first = key second →
      first = second)
    (isSpelled : spelled name) {length : Nat}
    (backed : (blocks.files name).isSome ∨ 0 < blocks.forgetting name)
    (forgetting_le : blocks.forgetting name ≤ blocks.removing name)
    (whole : length = (content name).length → WholeFile content blocks name) :
    CacheStepKept key content spelled blocks name call
        (blocks.existsCacheInsert key name length, .returned true) ∧
      (length = (content name).length →
        CacheStepKept key content spelled blocks name call
          ((blocks.existsCacheInsert key name length).returnOk name, .returned true)) := by
  have inserted := agrees.existsCacheInsert oneSpelling isSpelled backed whole
  refine ⟨⟨inserted, keepsWhole_of_files rfl, trivial⟩, fun sameLength => ?_⟩
  refine ⟨inserted.returnOk fun noRemoval => ?_, keepsWhole_of_files returnOk_files, trivial⟩
  have noRemoval : blocks.removing name = 0 := noRemoval
  exact file_of_whole (backed.resolve_right (by omega)) (whole sameLength)

omit [DecidableEq Key] in
theorem store_kept (agrees : CacheAgrees key content spelled blocks) {exclusive : Bool}
    (given : StepGiven content spelled blocks tick ⟨name, call, .store exclusive⟩)
    (moved : storeCall tick blocks name exclusive call = some after) :
    CacheStepKept key content spelled blocks name call after := by
  cases call with
  | hasBlock | blockSize | remove => cases moved
  | write writer data =>
    have isContent : data = content name := given.addressed.2 writer data rfl
    obtain rfl := Option.some.inj moved
    split
    · exact stepKept_of_same agrees trivial
    · unfold publishBlock
      split
      · rename_i blocked
        exact stepKept_of_same agrees (given.looked blocked.1)
      · subst isContent
        refine ⟨agrees.putFile, keepsWhole_putFile, fun stored found => ?_⟩
        simp only [CachedBlocks.putFile, Function.update_self, Option.some.injEq] at found
        exact found.symm

theorem blockPcStep_kept (agrees : CacheAgrees key content spelled blocks)
    (oneSpelling : ∀ first second, spelled first → spelled second → key first = key second →
      first = second) (given : StepGiven content spelled blocks tick ⟨name, call, pc⟩)
    (moved : blockPcStep key tick blocks name call pc = some after) :
    CacheStepKept key content spelled blocks name call after := by
  have isSpelled : spelled name := given.addressed.1
  cases pc with
  | start =>
    cases moved
    exact startCall_kept agrees given
  | stat =>
    obtain ⟨next, stat, rfl⟩ := Option.map_eq_some_iff.mp moved
    exact stat_kept agrees given stat
  | found length =>
    obtain ⟨next, remembered, rfl⟩ := Option.map_eq_some_iff.mp moved
    obtain ⟨whole, writes⟩ := given.looked
    obtain ⟨looked, returned⟩ := remember_kept call agrees oneSpelling isSpelled
      (given.backed rfl) given.forgetting_le whole
    cases call with
    | hasBlock | blockSize =>
      cases remembered
      exact looked
    | write writer data =>
      cases remembered
      refine returned ((writes writer data rfl).trans (congrArg List.length ?_))
      exact given.addressed.2 writer data rfl
    | remove => cases remembered
  | store exclusive => exact store_kept agrees given moved
  | published =>
    obtain ⟨next, remembered, rfl⟩ := Option.map_eq_some_iff.mp moved
    cases call with
    | hasBlock | blockSize | remove => cases remembered
    | write writer data =>
      cases remembered
      have isContent : data = content name := given.addressed.2 writer data rfl
      exact (remember_kept _ agrees oneSpelling isSpelled (given.backed rfl) given.forgetting_le
        fun _ => given.looked).2 (congrArg List.length isContent)
  | unlink =>
    have notWritten := agrees.not_written isSpelled (given.removing rfl)
    cases call with
    | hasBlock | blockSize | write _ _ => cases moved
    | remove =>
      obtain rfl := Option.some.inj moved
      unfold unlinkFile
      split
      · exact ⟨agrees.endRemove notWritten, keepsWhole_of_files rfl, trivial⟩
      · exact ⟨agrees.beginForget notWritten given.forgetting_nonneg, keepsWhole_beginForget,
          trivial⟩
  | forget =>
    have notWritten := agrees.not_written isSpelled (given.removing rfl)
    obtain ⟨next, forgotten, rfl⟩ := Option.map_eq_some_iff.mp moved
    cases call with
    | hasBlock | blockSize | write _ _ => cases forgotten
    | remove =>
      cases forgotten
      exact ⟨agrees.endForget.endRemove notWritten, keepsWhole_of_files rfl, trivial⟩
  | returned ok => cases moved

end Invariant

end Runs

end Nanofile
