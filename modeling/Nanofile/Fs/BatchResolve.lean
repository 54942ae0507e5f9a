import Mathlib.Algebra.Order.BigOperators.Group.List
import Mathlib.Algebra.Order.Group.Nat
import Nanofile.Base.FreeDigest
import Nanofile.Base.Paths
import Nanofile.Fs.Resolve
import Nanofile.Lib.Proc

/-!
# Paths resolved in one batch

A batch walks all its targets a level at a time.  It stops where no directory is stored, as the
walk of a single path does, but it does not look at the modes of the entries it passes.
-/

set_option autoImplicit false

namespace Nanofile

open Nanofile.Lib

variable {Oid : Type} [DecidableEq Oid] [Digests Oid]

def pathSegments (path : String) : List String :=
  (Text.split '/' (trimStartSlashes path)).filter fun segment => segment ≠ ""

def resolveFsIdFrom [ToString Oid] (store : FsStore Oid) (rootFsId : Oid) (path : String) :
    Except AppError Oid :=
  resolveSegments store (pathSegments path) rootFsId

/-! ## The batch -/

/-- A target that is still being walked: where it is, its next segment and those behind it. -/
structure ActiveTarget (Oid : Type) where
  idx : Nat
  currentFsId : Oid
  segment : String
  rest : List String

/-- What becomes of a target at a level: its result, or the target one level down. -/
def ActiveTarget.descend (dirMap : Oid → Option (FsDirData Oid)) (target : ActiveTarget Oid) :
    Option Oid ⊕ ActiveTarget Oid :=
  match dirMap target.currentFsId with
  | none => .inl none
  | some dirData =>
    match dirData.dirents.find? fun entry => entry.name = target.segment with
    | none => .inl none
    | some entry =>
      match target.rest with
      | [] => .inl (some entry.id)
      | segment :: rest => .inr ⟨target.idx, entry.id, segment, rest⟩

abbrev Frontier (Oid : Type) := List (ActiveTarget Oid) × List (Option Oid)

def Frontier.place (frontier : Frontier Oid) (idx : Nat) :
    Option Oid ⊕ ActiveTarget Oid → Frontier Oid
  | .inl result => (frontier.1, frontier.2.set idx result)
  | .inr next => (frontier.1 ++ [next], frontier.2)

/-- The loop over the levels; none when the rounds do not suffice. -/
def resolveLevels (store : FsStore Oid) :
    Nat → List (ActiveTarget Oid) → List (Option Oid) → Option (List (Option Oid))
  | _, [], results => some results
  | 0, _ :: _, _ => none
  | rounds + 1, target :: others, results =>
    let frontier := (target :: others).foldl
      (fun frontier active =>
        Frontier.place frontier active.idx (active.descend (dirBatch store))) ([], results)
    resolveLevels store rounds frontier.1 frontier.2

/-- The start of a target: it has a result at once when its path has no segment. -/
def startTarget (target : (Oid × String) × Nat) : Option Oid ⊕ ActiveTarget Oid :=
  match pathSegments target.1.2 with
  | [] => .inl (some target.1.1)
  | segment :: rest => .inr ⟨target.2, target.1.1, segment, rest⟩

/-- `resolve_fs_ids_batch`, for which as many rounds as there are segments suffice. -/
def resolveFsIdsBatch (store : FsStore Oid) (targets : List (Oid × String)) :
    Option (List (Option Oid)) :=
  let start := targets.zipIdx.foldl
    (fun frontier target => Frontier.place frontier target.2 (startTarget target))
    ([], targets.map fun _ => none)
  resolveLevels store ((targets.map fun target => (pathSegments target.2).length).sum)
    start.1 start.2

/-! ## One target -/

/-- Where the names lead through stored directories. -/
def batchWalk (store : FsStore Oid) : List String → Oid → Option Oid
  | [], fsId => some fsId
  | segment :: rest, fsId => do
      let dirData ← dirBatch store fsId
      let entry ← dirData.dirents.find? fun entry => entry.name = segment
      batchWalk store rest entry.id

def ActiveTarget.goal (store : FsStore Oid) (target : ActiveTarget Oid) : Option Oid :=
  batchWalk store (target.segment :: target.rest) target.currentFsId

variable {next : ActiveTarget Oid}

section Descend

variable {store : FsStore Oid} {target : ActiveTarget Oid}

theorem goal_of_result {result : Option Oid} (done : target.descend (dirBatch store) = .inl result) :
    target.goal store = result := by
  obtain ⟨idx, fsId, segment, rest⟩ := target
  unfold ActiveTarget.descend at done
  unfold ActiveTarget.goal batchWalk
  cases read : dirBatch store fsId with
  | none =>
    simp only [read] at done
    exact Sum.inl.inj done
  | some dirData =>
    simp only [read] at done
    simp only [Option.bind_eq_bind, Option.bind_some]
    cases found : dirData.dirents.find? fun entry => entry.name = segment with
    | none =>
      simp only [found] at done
      exact Sum.inl.inj done
    | some entry =>
      simp only [found] at done
      cases rest with
      | nil => exact Sum.inl.inj done
      | cons next rest => cases done

theorem goal_of_next (descends : target.descend (dirBatch store) = .inr next) :
    next.idx = target.idx ∧ next.goal store = target.goal store ∧
      target.rest.length = next.rest.length + 1 := by
  obtain ⟨idx, fsId, segment, rest⟩ := target
  unfold ActiveTarget.descend at descends
  cases read : dirBatch store fsId with
  | none => simp [read] at descends
  | some dirData =>
    cases found : dirData.dirents.find? fun entry => entry.name = segment with
    | none => simp [read, found] at descends
    | some entry =>
      cases rest with
      | nil => simp [read, found] at descends
      | cons following rest =>
        simp only [read, found] at descends
        cases descends
        refine ⟨rfl, ?_, rfl⟩
        simp only [ActiveTarget.goal]
        rw [batchWalk.eq_def store (segment :: following :: rest)]
        simp [read, found]

end Descend

/-! ## One level -/

section Level

omit [DecidableEq Oid] [Digests Oid]

variable {Item : Type}

theorem place_all (idxOf : Item → Nat) (outcome : Item → Option Oid ⊕ ActiveTarget Oid)
    (items : List Item) (next : List (ActiveTarget Oid)) (results : List (Option Oid))
    (distinct : (items.map idxOf).Nodup) (inside : ∀ item ∈ items, idxOf item < results.length) :
    ∃ placed, items.foldl (fun frontier item => Frontier.place frontier (idxOf item) (outcome item))
        (next, results) = (next ++ items.filterMap (fun item => (outcome item).getRight?), placed) ∧
      placed.length = results.length ∧
      (∀ item ∈ items, ∀ result, outcome item = .inl result →
        placed[idxOf item]? = some result) ∧
      ∀ idx, (∀ item ∈ items, idxOf item = idx → (outcome item).isRight = true) →
        placed[idx]? = results[idx]? := by
  induction items generalizing next results with
  | nil => exact ⟨results, by simp, rfl, nofun, fun _ _ => rfl⟩
  | cons item others ih =>
    rw [List.map_cons, List.nodup_cons] at distinct
    obtain ⟨fresh, distinct⟩ := distinct
    have others_ne : ∀ other ∈ others, idxOf other ≠ idxOf item := fun other listed same =>
      fresh (same ▸ List.mem_map_of_mem listed)
    rw [List.foldl_cons]
    cases placedAs : outcome item with
    | inl result =>
      obtain ⟨placed, isPlaced, long, settled, kept⟩ :=
        ih next (results.set (idxOf item) result) distinct
          (by simpa using fun other listed => inside other (List.mem_cons_of_mem _ listed))
      refine ⟨placed, ?_, by simpa using long, ?_, ?_⟩
      · rw [Frontier.place, isPlaced, List.filterMap_cons, placedAs]
        rfl
      · intro other listed result' done
        rcases List.mem_cons.mp listed with rfl | below
        · rw [placedAs] at done
          cases done
          rw [kept (idxOf other) fun other' listed' same => absurd same (others_ne other' listed')]
          exact List.getElem?_set_self (inside other List.mem_cons_self)
        · exact settled other below result' done
      · intro idx stays
        have ne : idxOf item ≠ idx := by
          intro same
          have right := stays item List.mem_cons_self same
          rw [placedAs] at right
          cases right
        rw [kept idx fun other listed => stays other (List.mem_cons_of_mem _ listed),
          List.getElem?_set_ne ne]
    | inr below =>
      obtain ⟨placed, isPlaced, long, settled, kept⟩ := ih (next ++ [below]) results distinct
        fun other listed => inside other (List.mem_cons_of_mem _ listed)
      refine ⟨placed, ?_, long, ?_, ?_⟩
      · rw [Frontier.place, isPlaced, List.filterMap_cons, placedAs, List.append_assoc]
        rfl
      · intro other listed result' done
        rcases List.mem_cons.mp listed with rfl | listed
        · rw [placedAs] at done
          cases done
        · exact settled other listed result' done
      · intro idx stays
        exact kept idx fun other listed => stays other (List.mem_cons_of_mem _ listed)

variable {outcome : Item → Option Oid ⊕ ActiveTarget Oid}

theorem filterMap_idx_sublist {idxOf : Item → Nat}
    (same : ∀ item next, outcome item = .inr next → next.idx = idxOf item) (items : List Item) :
    ((items.filterMap fun item => (outcome item).getRight?).map ActiveTarget.idx).Sublist
      (items.map idxOf) := by
  induction items with
  | nil => exact .slnil
  | cons item others ih =>
    rw [List.filterMap_cons, List.map_cons]
    cases placedAs : outcome item with
    | inl result => exact ih.cons _
    | inr next =>
      show (next.idx :: _).Sublist _
      rw [same item next placedAs]
      exact ih.cons_cons _

theorem mem_filterMap_getRight
    {items : List Item} :
    next ∈ items.filterMap (fun item => (outcome item).getRight?) ↔
      ∃ item ∈ items, outcome item = .inr next := by
  simp only [List.mem_filterMap, Sum.getRight?_eq_some_iff]

end Level

/-! ## All levels -/

section Levels

variable {store : FsStore Oid}

theorem resolveLevels_spec (rounds : Nat) (active : List (ActiveTarget Oid))
    (results : List (Option Oid)) (distinct : (active.map ActiveTarget.idx).Nodup)
    (inside : ∀ target ∈ active, target.idx < results.length)
    (enough : ∀ target ∈ active, target.rest.length < rounds) :
    ∃ final, resolveLevels store rounds active results = some final ∧
      final.length = results.length ∧
      (∀ target ∈ active, final[target.idx]? = some (target.goal store)) ∧
      ∀ idx, idx ∉ active.map ActiveTarget.idx → final[idx]? = results[idx]? := by
  induction rounds generalizing active results with
  | zero =>
    cases active with
    | nil => exact ⟨results, by rw [resolveLevels], rfl, nofun, fun _ _ => rfl⟩
    | cons target others => exact absurd (enough target List.mem_cons_self) (Nat.not_lt_zero _)
  | succ rounds ih =>
    cases active with
    | nil => exact ⟨results, by rw [resolveLevels], rfl, nofun, fun _ _ => rfl⟩
    | cons target others =>
      obtain ⟨placed, isPlaced, long, settled, kept⟩ := place_all ActiveTarget.idx
        (fun active => active.descend (dirBatch store)) (target :: others) [] results distinct
        inside
      rw [resolveLevels, isPlaced, List.nil_append]
      generalize target :: others = active at *
      set next := active.filterMap fun active => (active.descend (dirBatch store)).getRight?
      have isNext : ∀ below ∈ next, ∃ above ∈ active,
          above.descend (dirBatch store) = .inr below := fun below listed =>
        mem_filterMap_getRight.mp listed
      have sublist : (next.map ActiveTarget.idx).Sublist (active.map ActiveTarget.idx) :=
        filterMap_idx_sublist (fun above below descends => (goal_of_next descends).1) active
      obtain ⟨final, isFinal, long', reached, untouched⟩ := ih next placed
        (distinct.sublist sublist)
        (by
          intro below listed
          obtain ⟨above, member, descends⟩ := isNext below listed
          rw [(goal_of_next descends).1, long]
          exact inside above member)
        (by
          intro below listed
          obtain ⟨above, member, descends⟩ := isNext below listed
          have shorter := (goal_of_next descends).2.2
          have bound := enough above member
          omega)
      refine ⟨final, isFinal, long'.trans long, ?_, ?_⟩
      · intro above member
        cases descends : above.descend (dirBatch store) with
        | inl result =>
          rw [goal_of_result descends, untouched above.idx ?_]
          · exact settled above member result descends
          · intro listed
            obtain ⟨below, member', sameIdx⟩ := List.mem_map.mp listed
            obtain ⟨other, listed', descends'⟩ := isNext below member'
            have same : other.idx = above.idx :=
              (goal_of_next descends').1.symm.trans sameIdx
            obtain rfl := List.inj_on_of_nodup_map distinct listed' member same
            rw [descends] at descends'
            cases descends'
        | inr below =>
          obtain ⟨sameIdx, sameGoal, -⟩ := goal_of_next descends
          rw [← sameIdx, ← sameGoal]
          exact reached below (mem_filterMap_getRight.mpr ⟨above, member, descends⟩)
      · intro idx absent
        rw [untouched idx fun listed => absent (sublist.subset listed)]
        exact kept idx fun above member same => absurd (same ▸ List.mem_map_of_mem member) absent

theorem resolveFsIdsBatch_spec (store : FsStore Oid) (targets : List (Oid × String)) :
    ∃ results, resolveFsIdsBatch store targets = some results ∧
      results.length = targets.length ∧
      ∀ (i : Nat) (target : Oid × String), targets[i]? = some target →
        results[i]? = some (batchWalk store (pathSegments target.2) target.1) := by
  have distinct : (targets.zipIdx.map Prod.snd).Nodup := by
    rw [List.zipIdx_map_snd]
    exact List.nodup_range'
  have none_length : (targets.map fun _ => (none : Option Oid)).length = targets.length :=
    List.length_map _
  obtain ⟨placed, isPlaced, long, settled, -⟩ := place_all Prod.snd startTarget targets.zipIdx []
    (targets.map fun _ => none) distinct (by
      rintro ⟨target, i⟩ listed
      have found := List.mem_zipIdx_iff_getElem?.mp listed
      rw [none_length]
      exact (List.getElem?_eq_some_iff.mp found).1)
  rw [none_length] at long
  have started : ∀ active ∈ targets.zipIdx.filterMap (fun item => (startTarget item).getRight?),
      ∃ target i, targets[i]? = some target ∧ active.idx = i ∧ active.currentFsId = target.1 ∧
        pathSegments target.2 = active.segment :: active.rest := by
    intro active listed
    obtain ⟨⟨target, i⟩, member, starts⟩ := mem_filterMap_getRight.mp listed
    refine ⟨target, i, List.mem_zipIdx_iff_getElem?.mp member, ?_⟩
    unfold startTarget at starts
    dsimp only at starts
    split at starts
    · cases starts
    · rename_i segment rest segments
      cases starts
      exact ⟨rfl, rfl, segments⟩
  obtain ⟨results, isResult, long', reached, untouched⟩ := resolveLevels_spec
    ((targets.map fun target => (pathSegments target.2).length).sum)
    (targets.zipIdx.filterMap fun item => (startTarget item).getRight?) placed
    (distinct.sublist (filterMap_idx_sublist (by
      intro item next starts
      unfold startTarget at starts
      split at starts
      · cases starts
      · cases starts
        rfl) _))
    (by
      intro active listed
      obtain ⟨target, i, found, isIdx, -⟩ := started active listed
      rw [long, isIdx]
      exact (List.getElem?_eq_some_iff.mp found).1)
    (by
      intro active listed
      obtain ⟨target, i, found, -, -, segments⟩ := started active listed
      have bound : (pathSegments target.2).length ≤
          ((targets.map fun target => (pathSegments target.2).length)).sum :=
        List.single_le_sum (fun _ _ => Nat.zero_le _) _
          (List.mem_map.mpr ⟨target, List.mem_of_getElem? found, rfl⟩)
      rw [segments, List.length_cons] at bound
      omega)
  refine ⟨results, ?_, long'.trans long, ?_⟩
  · unfold resolveFsIdsBatch
    rw [isPlaced, List.nil_append]
    exact isResult
  · intro i target found
    have listed : (target, i) ∈ targets.zipIdx := List.mem_zipIdx_iff_getElem?.mpr found
    cases starts : startTarget (target, i) with
    | inl result =>
      have isGoal : batchWalk store (pathSegments target.2) target.1 = result := by
        unfold startTarget at starts
        dsimp only at starts
        split at starts
        · rename_i segments
          cases starts
          rw [segments, batchWalk]
        · cases starts
      rw [isGoal, untouched i ?_]
      · exact settled (target, i) listed result starts
      · intro goesOn
        obtain ⟨active, member, isIdx⟩ := List.mem_map.mp goesOn
        obtain ⟨⟨other, j⟩, listed', starts'⟩ := mem_filterMap_getRight.mp member
        obtain rfl : j = i := by
          rw [← isIdx]
          unfold startTarget at starts'
          split at starts'
          · cases starts'
          · cases starts'
            rfl
        have same := List.mem_zipIdx_iff_getElem?.mp listed'
        rw [found] at same
        cases same
        rw [starts] at starts'
        cases starts'
    | inr active =>
      have isActive := starts
      unfold startTarget at starts
      dsimp only at starts
      split at starts
      · cases starts
      · rename_i segment rest segments
        cases starts
        rw [segments]
        exact reached _ (mem_filterMap_getRight.mpr ⟨(target, i), listed, isActive⟩)

end Levels

/-! ## The walk of a single path -/

/-- The names lead from a directory to an id, passing these entries. -/
inductive LeadsThrough (store : FsStore Oid) :
    Oid → List String → List (DirEntryData Oid) → Oid → Prop
  | here (fsId : Oid) : LeadsThrough store fsId [] [] fsId
  | down {fsId final : Oid} {segment : String} {rest : List String} {dirData : FsDirData Oid}
      {entry : DirEntryData Oid} {entries : List (DirEntryData Oid)}
      (read : dirBatch store fsId = some dirData)
      (found : dirData.dirents.find? (fun entry => entry.name = segment) = some entry)
      (leads : LeadsThrough store entry.id rest entries final) :
      LeadsThrough store fsId (segment :: rest) (entry :: entries) final

/-- Where the names of a target lead through stored directories, each entry that is passed on
the way is recorded as a directory. -/
def DirsOnWay (store : FsStore Oid) (target : Oid × String) : Prop :=
  ∀ entries final, LeadsThrough store target.1 (pathSegments target.2) entries final →
    ∀ entry ∈ entries.dropLast, isDir entry.mode = true

section Walks

variable {store : FsStore Oid} {segments : List String} {fsId final : Oid}

theorem batchWalk_eq_some_iff :
    batchWalk store segments fsId = some final ↔
      ∃ entries, LeadsThrough store fsId segments entries final := by
  induction segments generalizing fsId with
  | nil =>
    constructor
    · intro walked
      cases walked
      exact ⟨[], .here _⟩
    · rintro ⟨entries, leads⟩
      cases leads
      rfl
  | cons segment rest ih =>
    constructor
    · intro walked
      obtain ⟨dirData, read, walked⟩ := Option.bind_eq_some_iff.mp walked
      obtain ⟨entry, found, walked⟩ := Option.bind_eq_some_iff.mp walked
      obtain ⟨entries, leads⟩ := ih.mp walked
      exact ⟨entry :: entries, .down read found leads⟩
    · rintro ⟨entries, leads⟩
      cases leads with
      | down read found leads =>
        refine Option.bind_eq_some_iff.mpr ⟨_, read, ?_⟩
        exact Option.bind_eq_some_iff.mpr ⟨_, found, ih.mpr ⟨_, leads⟩⟩

theorem LeadsThrough.unique {entries entries' : List (DirEntryData Oid)} {final' : Oid}
    (leads : LeadsThrough store fsId segments entries final)
    (leads' : LeadsThrough store fsId segments entries' final') : entries = entries' := by
  induction leads generalizing entries' with
  | here fsId => cases leads'; rfl
  | down read found leads ih =>
    cases leads' with
    | down read' found' leads' =>
      cases read.symm.trans read'
      cases found.symm.trans found'
      rw [ih leads']

variable [ToString Oid] {failure : AppError}

theorem readFsDirData_error (failed : readFsDirData store fsId = .error failure) :
    ∃ msg, failure = .notFound msg := by
  unfold readFsDirData at failed
  split at failed
  · cases failed
  · split at failed
    · cases failed
      exact ⟨_, rfl⟩
    · cases failed
      exact ⟨_, rfl⟩
    · cases failed

variable {dirData : FsDirData Oid}

theorem readFsDirData_found {segment : String} {entry : DirEntryData Oid}
    (read : readFsDirData store fsId = .ok dirData)
    (found : dirData.dirents.find? (fun entry => entry.name = segment) = some entry) :
    dirBatch store fsId = some dirData := by
  unfold readFsDirData at read
  split at read
  · cases read
    cases found
  · rename_i nonempty
    split at read
    · cases read
    · cases read
    · rename_i stored
      cases read
      rw [dirBatch, if_neg nonempty, stored]

theorem readFsDirData_of_dirBatch (read : dirBatch store fsId = some dirData) :
    readFsDirData store fsId = .ok dirData := by
  unfold dirBatch at read
  unfold readFsDirData
  split at read
  · cases read
  · rename_i nonempty
    rw [if_neg nonempty]
    split at read
    · rename_i stored
      cases read
      rw [stored]
    · cases read

theorem resolveSegments_ok_iff :
    resolveSegments store segments fsId = .ok final ↔
      ∃ entries, LeadsThrough store fsId segments entries final ∧
        ∀ entry ∈ entries.dropLast, isDir entry.mode = true := by
  induction segments generalizing fsId with
  | nil =>
    constructor
    · intro walked
      cases walked
      exact ⟨[], .here _, nofun⟩
    · rintro ⟨entries, leads, -⟩
      cases leads
      rfl
  | cons segment rest ih =>
    constructor
    · intro walked
      obtain ⟨dirData, read, walked⟩ := except_bind_ok_iff.mp walked
      obtain ⟨entry, isEntry, walked⟩ := except_bind_ok_iff.mp walked
      obtain ⟨_, passes, walked⟩ := except_bind_ok_iff.mp walked
      have found := okOr_eq_ok_iff.mp isEntry
      obtain ⟨entries, leads, directories⟩ := ih.mp walked
      refine ⟨entry :: entries, .down (readFsDirData_found read found) found leads, ?_⟩
      intro passed listed
      cases leads with
      | here fsId => cases listed
      | down read' found' leads' =>
        rcases List.mem_cons.mp listed with rfl | listed
        · exact (ensure_eq_ok_iff.mp passes).resolve_left (List.cons_ne_nil _ _)
        · exact directories passed listed
    · rintro ⟨entries, leads, directories⟩
      cases leads with
      | down read found leads =>
        refine except_bind_ok_iff.mpr ⟨_, readFsDirData_of_dirBatch read, ?_⟩
        refine except_bind_ok_iff.mpr ⟨_, okOr_eq_ok_iff.mpr found, ?_⟩
        refine except_bind_ok_iff.mpr ⟨(), ensure_eq_ok_iff.mpr ?_, ih.mpr ⟨_, leads, ?_⟩⟩
        · cases leads with
          | here fsId => exact Or.inl rfl
          | down read' found' leads' => exact Or.inr (directories _ List.mem_cons_self)
        · intro passed listed
          refine directories passed ?_
          cases leads with
          | here fsId => cases listed
          | down read' found' leads' => exact List.mem_cons_of_mem _ listed

theorem resolveSegments_error (failed : resolveSegments store segments fsId = .error failure) :
    ∃ msg, failure = .notFound msg := by
  induction segments generalizing fsId with
  | nil => cases failed
  | cons segment rest ih =>
    unfold resolveSegments at failed
    cases read : readFsDirData store fsId with
    | error reason =>
      rw [read] at failed
      cases failed
      exact readFsDirData_error read
    | ok dirData =>
      rw [read] at failed
      cases found : dirData.dirents.find? fun entry => entry.name = segment with
      | none =>
        simp only [bind, Except.bind, found, okOr] at failed
        cases failed
        exact ⟨_, rfl⟩
      | some entry =>
        by_cases passes : rest = [] ∨ isDir entry.mode = true
        · simp only [bind, Except.bind, found, okOr, ensure, if_pos passes] at failed
          exact ih failed
        · simp only [bind, Except.bind, found, okOr, ensure, if_neg passes] at failed
          cases failed
          exact ⟨_, rfl⟩

end Walks

/-! ## The two walks -/

/-- A result of the batch is that of the single path. -/
def ResultAgrees [ToString Oid] (store : FsStore Oid) (target : Oid × String)
    (result : Option Oid) : Prop :=
  (∀ fsId, result = some fsId ↔ resolveFsIdFrom store target.1 target.2 = .ok fsId) ∧
    (result = none ↔ ∃ msg, resolveFsIdFrom store target.1 target.2 = .error (.notFound msg))

variable [ToString Oid] in
theorem resultAgrees_iff (store : FsStore Oid) (target : Oid × String) :
    ResultAgrees store target (batchWalk store (pathSegments target.2) target.1) ↔
      DirsOnWay store target := by
  constructor
  · rintro ⟨same, -⟩ entries final leads
    have walked := (same final).mp (batchWalk_eq_some_iff.mpr ⟨entries, leads⟩)
    obtain ⟨entries', leads', directories⟩ := resolveSegments_ok_iff.mp walked
    rw [leads.unique leads']
    exact directories
  · intro onWay
    have same : ∀ fsId, batchWalk store (pathSegments target.2) target.1 = some fsId ↔
        resolveFsIdFrom store target.1 target.2 = .ok fsId := by
      intro fsId
      refine batchWalk_eq_some_iff.trans (Iff.trans ?_ resolveSegments_ok_iff.symm)
      exact ⟨fun ⟨entries, leads⟩ => ⟨entries, leads, onWay entries fsId leads⟩,
        fun ⟨entries, leads, _⟩ => ⟨entries, leads⟩⟩
    refine ⟨same, fun missing => ?_, fun ⟨msg, failed⟩ => ?_⟩
    · cases walked : resolveFsIdFrom store target.1 target.2 with
      | error failure =>
        obtain ⟨msg, rfl⟩ := resolveSegments_error walked
        exact ⟨msg, rfl⟩
      | ok fsId =>
        rw [(same fsId).mpr walked] at missing
        cases missing
    · cases walked : batchWalk store (pathSegments target.2) target.1 with
      | none => rfl
      | some fsId =>
        rw [(same fsId).mp walked] at failed
        cases failed

variable [ToString Oid] in
/-- A batch has for each target the result of the single path exactly when the entries that are
passed on the way to a stored object are recorded as directories. -/
theorem resolveFsIdsBatch_agrees_iff (store : FsStore Oid) (targets : List (Oid × String)) :
    ∃ results, resolveFsIdsBatch store targets = some results ∧
      results.length = targets.length ∧
      ((∀ (i : Nat) target, targets[i]? = some target →
          ∃ result, results[i]? = some result ∧ ResultAgrees store target result) ↔
        ∀ target ∈ targets, DirsOnWay store target) := by
  obtain ⟨results, isResult, long, found⟩ := resolveFsIdsBatch_spec store targets
  refine ⟨results, isResult, long, fun agrees target listed => ?_, fun onWay i target isTarget => ?_⟩
  · obtain ⟨i, isTarget⟩ := List.mem_iff_getElem?.mp listed
    obtain ⟨result, isResult, agrees⟩ := agrees i target isTarget
    rw [found i target isTarget] at isResult
    obtain rfl := Option.some.inj isResult
    exact (resultAgrees_iff store target).mp agrees
  · exact ⟨_, found i target isTarget,
      (resultAgrees_iff store target).mpr (onWay target (List.mem_of_getElem? isTarget))⟩

/-! ## A directory recorded as a file -/

def hiddenDir : FsDirData FreeId := directory [fileEntry "f" (.atom 1) 1]

def disguisedRoot : FsDirData FreeId := directory [fileEntry "d" (Digests.dirId hiddenDir) 0]

def disguisedStore : FsStore FreeId :=
  ⟨[hiddenDir, disguisedRoot].map fun data => (Digests.dirId data, .dir data.written)⟩

/-- The batch finds a file below it, and the single path is not found. -/
theorem disguised_dir_entered :
    resolveFsIdsBatch disguisedStore [(Digests.dirId disguisedRoot, "/d/f")] =
      some [some (.atom 1)] ∧
    resolveFsIdFrom disguisedStore (Digests.dirId disguisedRoot) "/d/f" =
      .error (.notFound "not a directory: d") := by
  decide +kernel

end Nanofile
