import Nanofile.Storage.BlockCacheSteps

/-!
# When the presence cache agrees with the files

In a run whose steps all keep it, a block that was written is there until it is removed, and
`has_block` is right while nothing is in progress.
-/

set_option autoImplicit false

namespace Nanofile

open Nanofile.Lib

universe u v

section Runs

variable {Name : Type u} {Key : Type v} [DecidableEq Name] [DecidableEq Key] {key : Name → Key}
  {content : Name → List UInt8} {spelled : Name → Prop} {name : Name}
  {state : Threads (CachedBlocks Name Key) (BlockThread Name)}

theorem cacheAgrees_of_reachable
    (oneSpelling : ∀ first second, spelled first → spelled second → key first = key second →
      first = second)
    (reached : (blockSystem key content spelled).Reachable (cacheGuard content spelled) state) :
    CacheAgrees key content spelled state.shared := by
  have kept : Program.Kept (CacheAgrees key content spelled)
      (fun blocks thread => Addressed content spelled thread →
        Looked content blocks thread.name thread.call thread.pc) state := by
    refine Program.threads_invariant_given (fun _ => removals_of_reachable)
      (fun _ _ _ _ => trivial) ?_ ?_ ?_ reached
    · rintro before ⟨dropped⟩ - ⟨agrees, looked⟩ -
      refine ⟨⟨agrees.files, fun other isSpelled length cached => ?_, agrees.written⟩,
        fun thread running addressed =>
          (looked thread running addressed).stable addressed.1 (keepsWhole_of_files rfl)⟩
      simp only [blockProgram] at cached
      split at cached
      · cases cached
      · exact agrees.cached other isSpelled length cached
    · rintro before index thread tick after removals ⟨agrees, looked⟩ found met moved
      obtain ⟨addressed, backed, answers⟩ := met thread found
      have running := List.mem_of_getElem? found
      obtain ⟨pc, stepped, same⟩ := blockStep_eq_some moved
      have given : StepGiven content spelled before.shared tick thread :=
        ⟨addressed, backed, answers, looked thread running addressed,
          removals.forgetting_nonneg _, removals.forgetting_le _, removals.removing_pos running⟩
      have kept := blockPcStep_kept agrees oneSpelling given stepped
      refine ⟨kept.agrees, fun _ => ?_, fun j other _ isOther addressed' =>
        (looked other (List.mem_of_getElem? isOther) addressed').stable addressed'.1 kept.keeps⟩
      rw [same]
      exact kept.looked
    · rintro blocks ⟨files, existsCache, written, -, -⟩
      refine ⟨files, fun other _ length cached => ?_, fun other _ isWritten => ?_⟩
      · rw [existsCache] at cached
        cases cached
      · rw [written] at isWritten
        cases isWritten
  exact kept.1

theorem hasBlock_eq_true_iff (blocks : CachedBlocks Name Key) (name : Name) :
    hasBlock key blocks name = true ↔
      (blocks.existsCache (key name)).isSome ∨ (blocks.files name).isSome := by
  unfold hasBlock
  cases cached : blocks.existsCache (key name) with
  | some length => simp [runAlone, blockPcStep, startCall, cached]
  | none =>
    cases found : blocks.files name <;>
      simp [runAlone, blockPcStep, startCall, statCall, rememberCall, cached, found]

theorem readBlock_of_hasBlock (removals : Removals state)
    (agrees : CacheAgrees key content spelled state.shared)
    (isSpelled : spelled name) (idle : ∀ thread ∈ state.running, ∃ ok, thread.pc = .returned ok)
    (has : hasBlock key state.shared name = true) : (state.shared.readBlock name).isSome := by
  rcases (hasBlock_eq_true_iff _ _).mp has with cached | present
  · obtain ⟨length, cached⟩ := Option.isSome_iff_exists.mp cached
    have nothing := removals.idle idle name
    rcases agrees.cached name isSpelled length cached with pending | there
    · omega
    · exact there.1
  · exact present

end Runs

section Instances

variable {Name : Type u} {Key : Type v} [DecidableEq Name] [DecidableEq Key] {key : Name → Key}
  {content : Name → List UInt8} {spelled : Name → Prop} {name : Name}

def startedBlocks (files : Name → Option (List UInt8)) : CachedBlocks Name Key :=
  ⟨files, fun _ => none, fun _ => false, fun _ => 0, fun _ => 0⟩

omit [DecidableEq Name] [DecidableEq Key] in
theorem startedBlocks_fresh {files : Name → Option (List UInt8)}
    (whole : ∀ other stored, files other = some stored → stored = content other) :
    FreshBlocks content spelled (startedBlocks files : CachedBlocks Name Key) :=
  ⟨fun other _ stored found => Or.inl (whole other stored found), fun _ => rfl, fun _ => rfl,
    fun _ => rfl, fun _ => rfl⟩

def onlyWrites (content : Name → List UInt8) (name : Name)
    (state : Threads (CachedBlocks Name Key) (BlockThread Name)) :
    ThreadAction (CacheRequest Key) (BlockJob Name) BlockTick → Bool
  | .serve _ | .begin _ => true
  | .advance index tick => decide (tick = .go) && state.running[index]?.all fun thread =>
    decide (thread.name = name ∧ thread.call = .write .plain (content name)) &&
      (!thread.pc.remembers || (state.shared.files name).isSome)

omit [DecidableEq Key] in
theorem cacheGuard_of_onlyWrites (state : Threads (CachedBlocks Name Key) (BlockThread Name))
    (action : ThreadAction (CacheRequest Key) (BlockJob Name) BlockTick)
    (only : onlyWrites content name state action = true) :
    cacheGuard content (· = name) state action := by
  cases action with
  | serve request | begin job => trivial
  | advance index tick =>
    intro thread found
    simp only [onlyWrites, found, Option.all_some, Bool.and_eq_true, decide_eq_true_eq,
      Bool.or_eq_true, Bool.not_eq_true'] at only
    obtain ⟨rfl, ⟨rfl, isWrite⟩, present⟩ := only
    refine ⟨⟨rfl, fun writer data call => ?_⟩, fun remembers => Or.inl ?_, nofun⟩
    · rw [isWrite] at call
      cases call
      rfl
    · exact present.resolve_left (by simp [remembers])

def carriesContent (content : Name → List UInt8) (names : List Name)
    (state : Threads (CachedBlocks Name Key) (BlockThread Name)) :
    ThreadAction (CacheRequest Key) (BlockJob Name) BlockTick → Bool
  | .serve _ | .begin _ => true
  | .advance index _ => state.running[index]?.all fun thread =>
    decide (thread.name ∈ names) &&
      match thread.call with
      | .write _ data => decide (data = content thread.name)
      | .hasBlock | .blockSize | .remove => true

omit [DecidableEq Key] in
theorem addressedGuard_of_carriesContent {names : List Name}
    (state : Threads (CachedBlocks Name Key) (BlockThread Name))
    (action : ThreadAction (CacheRequest Key) (BlockJob Name) BlockTick)
    (carries : carriesContent content names state action = true) :
    addressedGuard content (· ∈ names) state action := by
  cases action with
  | serve request | begin job => trivial
  | advance index tick =>
    intro thread found
    simp only [carriesContent, found, Option.all_some, Bool.and_eq_true, decide_eq_true_eq]
      at carries
    refine ⟨carries.1, fun writer data call => ?_⟩
    have same := carries.2
    rw [call] at same
    exact of_decide_eq_true same

def writeRun (content : Name → List UInt8) (name : Name) :
    List (ThreadAction (CacheRequest Key) (BlockJob Name) BlockTick) :=
  [.begin ⟨name, .write .plain (content name)⟩, .begin ⟨name, .write .plain (content name)⟩,
    .advance 0 .go, .advance 1 .go, .advance 0 .go, .advance 1 .go, .advance 0 .go,
    .advance 1 .go, .advance 0 .go, .advance 1 .go]

theorem writeRun_ends :
    ((blockSystem key content spelled).runChecked (onlyWrites content name)
      (writeRun content name) ⟨startedBlocks fun _ => none, []⟩).map
        (fun state => (state.shared.written name, state.running.map BlockThread.pc)) =
      some (true, [.returned true, .returned true]) := by
  simp [writeRun, onlyWrites, startedBlocks, System.runChecked, blockSystem, Program.system,
    Program.step, blockProgram, blockStep, blockPcStep, startCall, statCall, storeCall,
    publishBlock, publishedCall, BlockPc.remembers, CachedBlocks.existsCacheInsert,
    CachedBlocks.putFile, CachedBlocks.returnOk]

/-- The block is looked up, removed before the length is remembered, and written again. -/
def staleRun (content : Name → List UInt8) (name : Name) :
    List (ThreadAction (CacheRequest Key) (BlockJob Name) BlockTick) :=
  [.begin ⟨name, .hasBlock⟩, .begin ⟨name, .remove⟩, .begin ⟨name, .write .plain (content name)⟩,
    .advance 0 .go, .advance 0 .go, .advance 1 .go, .advance 1 .go, .advance 1 .go,
    .advance 0 .go, .advance 2 .go]

theorem staleRun_ends :
    ((blockSystem key content spelled).runChecked (carriesContent content [name])
      (staleRun content name) ⟨startedBlocks fun other => some (content other), []⟩).map
        (fun state => (state.shared.written name, state.shared.readBlock name)) =
      some (true, none) := by
  simp [staleRun, carriesContent, startedBlocks, System.runChecked, blockSystem, Program.system,
  Program.step,
    blockProgram, blockStep, blockPcStep, startCall, statCall, rememberCall, unlinkCall,
    unlinkFile, forgetCall, CachedBlocks.existsCacheInsert, CachedBlocks.beginRemove,
    CachedBlocks.beginForget, CachedBlocks.endForget, CachedBlocks.endRemove,
    CachedBlocks.returnOk, CachedBlocks.readBlock]

def respelledRun (content : Name → List UInt8) (name other : Name) :
    List (ThreadAction (CacheRequest Key) (BlockJob Name) BlockTick) :=
  [.begin ⟨name, .write .plain (content name)⟩, .begin ⟨other, .write .plain (content other)⟩,
    .advance 0 .go, .advance 0 .go, .advance 0 .go, .advance 0 .go, .advance 1 .go]

theorem respelledRun_ends {other : Name} (sameKey : key other = key name)
    (sameContent : content other = content name) (apart : other ≠ name) :
    ((blockSystem key content spelled).runChecked (carriesContent content [name, other])
      (respelledRun content name other) ⟨startedBlocks fun _ => none, []⟩).map
        (fun state => (state.shared.written other, state.shared.readBlock other)) =
      some (true, none) := by
  simp [respelledRun, carriesContent, startedBlocks, System.runChecked, blockSystem, Program.system,
    Program.step, blockProgram, blockStep, blockPcStep, startCall, statCall, storeCall,
    publishBlock, publishedCall, CachedBlocks.existsCacheInsert, CachedBlocks.putFile,
    CachedBlocks.returnOk, CachedBlocks.readBlock, sameKey, sameContent, apart]

theorem exists_reachable {check : Threads (CachedBlocks Name Key) (BlockThread Name) →
      ThreadAction (CacheRequest Key) (BlockJob Name) BlockTick → Bool}
    {guard : Threads (CachedBlocks Name Key) (BlockThread Name) →
      ThreadAction (CacheRequest Key) (BlockJob Name) BlockTick → Prop}
    (sound : ∀ state action, check state action = true → guard state action)
    {actions : List (ThreadAction (CacheRequest Key) (BlockJob Name) BlockTick)}
    {blocks : CachedBlocks Name Key} (fresh : FreshBlocks content spelled blocks)
    {Shown : Type} {view : Threads (CachedBlocks Name Key) (BlockThread Name) → Shown}
    {shown : Shown}
    (ends : ((blockSystem key content spelled).runChecked check actions ⟨blocks, []⟩).map view =
      some shown) :
    ∃ state, (blockSystem key content spelled).Reachable guard state ∧ view state = shown := by
  obtain ⟨state, run, rfl⟩ := Option.map_eq_some_iff.mp ends
  exact ⟨state, System.reachable_of_runChecked sound actions _ state (.init ⟨fresh, rfl⟩) run, rfl⟩

end Instances

section Blocks

variable {Repo : Type u} [DecidableEq Repo]

/-- A block that was written is there until it is removed, and while nothing is in progress
`has_block` is right. -/
theorem written_block_reads {content : BlockName Repo → List UInt8}
    {spelled : BlockName Repo → Prop}
    {state : Threads (CachedBlocks (BlockName Repo) (Repo × List UInt8))
      (BlockThread (BlockName Repo))}
    (oneSpelling : ∀ first second, spelled first → spelled second →
      cacheKey first = cacheKey second → first = second)
    (reached : (blockSystem cacheKey content spelled).Reachable (cacheGuard content spelled) state)
    {name : BlockName Repo} (isSpelled : spelled name) :
    (state.shared.written name = true → state.shared.readBlock name = some (content name)) ∧
      ((∀ thread ∈ state.running, ∃ ok, thread.pc = .returned ok) →
        hasBlock cacheKey state.shared name = true → (state.shared.readBlock name).isSome) := by
  have agrees := cacheAgrees_of_reachable oneSpelling reached
  exact ⟨fun written => (agrees.written name isSpelled written).1,
    readBlock_of_hasBlock (removals_of_reachable reached) agrees isSpelled⟩

def idEnding (last : Char) : String := String.ofList (List.replicate 39 'a' ++ [last])

theorem isHexId_idEnding {last : Char} (hex : isAsciiHexdigit last = true) :
    IsHexId (idEnding last) := by
  have letter : isAsciiHexdigit 'a' = true := by decide
  rw [IsHexId, idEnding, String.toList_ofList]
  exact ⟨by simp, by simp [hex, letter]⟩

def lowerName : BlockName Unit := ((), ⟨idEnding 'a', isHexId_idEnding (by decide)⟩)

def mixedName : BlockName Unit := ((), ⟨idEnding 'A', isHexId_idEnding (by decide)⟩)

theorem cacheKey_mixedName : cacheKey mixedName = cacheKey lowerName := by
  simp only [cacheKey, mixedName, lowerName, idEnding, String.toList_ofList]
  rfl

theorem mixedName_ne : mixedName ≠ lowerName := by
  intro same
  have ids := congrArg (fun name : BlockName Unit => name.2.val.toList) same
  simp only [mixedName, lowerName, idEnding, String.toList_ofList] at ids
  exact absurd ids (by decide)

/-- Two requests write a block at once where none was. -/
theorem written_block_reads_once :
    ∃ state, (blockSystem (@cacheKey Unit) (fun _ => [1, 2, 3]) (· = lowerName)).Reachable
        (cacheGuard (fun _ => [1, 2, 3]) (· = lowerName)) state ∧
      state.shared.readBlock lowerName = some [1, 2, 3] := by
  obtain ⟨state, reached, shows⟩ := exists_reachable cacheGuard_of_onlyWrites
    (startedBlocks_fresh nofun)
    (@writeRun_ends _ _ _ _ (@cacheKey Unit) (fun _ => [1, 2, 3]) (· = lowerName) lowerName)
  have reads := written_block_reads (fun first second isFirst isSecond _ =>
    isFirst.trans isSecond.symm) reached rfl
  exact ⟨state, reached, reads.1 (congrArg Prod.fst shows)⟩

/-- A block is lost behind its cached length: to a look that overlaps a removal, or to another
spelling of its id. -/
theorem cached_length_hides_loss :
    ¬ (∀ state, (blockSystem (@cacheKey Unit) (fun _ => [1, 2, 3]) (· ∈ [lowerName])).Reachable
        (addressedGuard (fun _ => [1, 2, 3]) (· ∈ [lowerName])) state →
        state.shared.written lowerName = true →
        state.shared.readBlock lowerName = some [1, 2, 3]) ∧
      ¬ (∀ state, (blockSystem (@cacheKey Unit) (fun _ => [1, 2, 3])
          (· ∈ [lowerName, mixedName])).Reachable
        (addressedGuard (fun _ => [1, 2, 3]) (· ∈ [lowerName, mixedName])) state →
        state.shared.written mixedName = true →
        state.shared.readBlock mixedName = some [1, 2, 3]) := by
  constructor
  · intro all
    obtain ⟨state, reached, shows⟩ := exists_reachable addressedGuard_of_carriesContent
      (startedBlocks_fresh fun _ _ => Eq.symm ∘ Option.some.inj)
      (@staleRun_ends _ _ _ _ (@cacheKey Unit) (fun _ => [1, 2, 3]) (· ∈ [lowerName]) lowerName)
    obtain ⟨written, gone⟩ := Prod.mk.inj shows
    exact Option.some_ne_none _ ((all state reached written).symm.trans gone)
  · intro all
    obtain ⟨state, reached, shows⟩ := exists_reachable addressedGuard_of_carriesContent
      (startedBlocks_fresh nofun)
      (@respelledRun_ends _ _ _ _ _ (fun _ => [1, 2, 3]) (· ∈ [lowerName, mixedName]) _ _
        cacheKey_mixedName rfl mixedName_ne)
    obtain ⟨written, gone⟩ := Prod.mk.inj shows
    exact Option.some_ne_none _ ((all state reached written).symm.trans gone)

end Blocks

end Nanofile
