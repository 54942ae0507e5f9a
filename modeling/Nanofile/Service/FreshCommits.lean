import Nanofile.Service.HeadEdits

/-!
# Commits that go through

A commit is refused when its id is taken.  The id is hashed from the root and the time, so a
root that no commit has goes through, and so does any other at a time that no commit has.
What is refused leaves HEAD alone.
-/

set_option autoImplicit false

namespace Nanofile

open Nanofile.Lib

variable {Oid : Type} [DecidableEq Oid] [Digests Oid]

/-- But for commits of these roots, no commit has a time that the clock is still to show. -/
structure CommitsPast (roots : List Oid) (state : WebState Oid) : Prop where
  hashed : AllHashed state.repo.commits
  past : ∀ {commitId : Oid} {row : CommitRow Oid}, state.repo.commits.find commitId = some row →
    row.rootId ∈ roots ∨ ∀ count, row.ctime ≠ state.clock count

variable {top : Oid}

section Past

variable {roots : List Oid} {state : WebState Oid}

theorem CommitsPast.of_commits {after : WebState Oid} (past : CommitsPast roots state)
    (commits : after.repo.commits = state.repo.commits)
    (clock : ∀ count, ∃ later, after.clock count = state.clock later) :
    CommitsPast roots after := by
  refine ⟨commits ▸ past.hashed, fun found => ?_⟩
  rw [commits] at found
  refine (past.past found).imp id fun apart count => ?_
  obtain ⟨later, same⟩ := clock count
  exact same ▸ apart later

theorem CommitsPast.mono {more : List Oid} (past : CommitsPast roots state)
    (subset : ∀ root ∈ roots, root ∈ more) : CommitsPast more state :=
  ⟨past.hashed, fun found => (past.past found).imp (subset _) id⟩

theorem commitsPast_now : Proc.Keeps (CommitsPast roots) (Web.now : Web Oid Int) :=
  fun _ past => past.of_commits rfl fun count => ⟨count + 1, rfl⟩

theorem CommitsPast.withStore (past : CommitsPast roots state) (store : FsStore Oid) :
    CommitsPast roots (state.withStore store) :=
  past.of_commits rfl fun count => ⟨count, rfl⟩

theorem CommitsPast.absent (past : CommitsPast roots state) {creator : Oid} {texts : List String}
    (isNew : top ∉ roots) (count : Nat) :
    state.repo.commits.find (Digests.commitId top creator texts (state.clock count)) = none := by
  cases found : state.repo.commits.find (Digests.commitId top creator texts (state.clock count)) with
  | none => rfl
  | some row =>
    obtain ⟨texts', hashed⟩ := past.hashed _ row found
    rw [(CommitTable.find_eq_some_iff.mp found).2] at hashed
    obtain ⟨sameRoot, sameTime⟩ := Digests.commitId_fields hashed
    rcases past.past found with listed | apart
    · exact absurd (sameRoot ▸ listed) isNew
    · exact absurd sameTime.symm (apart count)

end Past

variable [ToString Oid] {roots : List Oid} {before final : WebState Oid}

theorem commitsPast_applyTreeUpdate (parentPath : String) (parentFsId : Oid)
    (chain : AncestorChain Oid) (rootOverride : Option Oid)
    (updateFn : List (DirEntryData Oid) → List (DirEntryData Oid)) :
    Proc.Keeps (CommitsPast roots)
      (applyTreeUpdate parentPath parentFsId chain rootOverride updateFn) := by
  refine Proc.keeps_bind (Proc.keeps_tryRead _ _) fun data => ?_
  refine Proc.keeps_bind (fun _ past => past.withStore _) fun newParent => ?_
  exact keeps_rebuildAbove commitsPast_now (fun _ _ _ past _ _ _ _ => past.withStore _) _ _ _ _

variable {chain : AncestorChain Oid}
  {updateFn : List (DirEntryData Oid) → List (DirEntryData Oid)}

theorem CommitsPast.updated {parentPath : String} {parentFsId : Oid} {rootOverride : Option Oid}
    {result : Except AppError Oid} (past : CommitsPast roots before)
    (run : applyTreeUpdate parentPath parentFsId chain rootOverride updateFn before =
      (result, final)) : CommitsPast roots final := by
  have kept : CommitsPast roots _ := commitsPast_applyTreeUpdate parentPath parentFsId chain
    rootOverride updateFn before past
  rwa [run] at kept

omit [ToString Oid] in
theorem createCommit_runs (past : CommitsPast roots before)
    (isNew : top ∈ roots → resolveRootFsId before.repo = .ok top)
    (creatorName description : String) :
    ∃ final, createCommit top creatorName description before = (.ok (), final) ∧
      CommitsPast (top :: roots) final := by
  obtain ⟨clocked, tick⟩ : ∃ clocked, Web.now before = (.ok (before.clock 0), clocked) := ⟨_, rfl⟩
  have pastAfter : CommitsPast roots clocked := by
    have kept := commitsPast_now before past
    rwa [tick] at kept
  have sameRepo : clocked.repo = before.repo := by
    cases tick
    rfl
  have wider : ∀ root ∈ roots, root ∈ top :: roots := fun root => List.mem_cons_of_mem top
  suffices ∃ final, commitRoot "change" top creatorName description (before.clock 0) clocked =
      (.ok (), final) ∧ CommitsPast (top :: roots) final by
    obtain ⟨final, committed, past⟩ := this
    exact ⟨final, Proc.bind_ok_iff.mpr ⟨_, clocked, tick, committed⟩, past⟩
  unfold commitRoot
  by_cases unchanged : ((clocked.repo.headCommitId.bind clocked.repo.commits.find).any
      fun head => head.rootId = top) = true
  · exact ⟨clocked, if_pos unchanged, pastAfter.mono wider⟩
  · rw [if_neg unchanged]
    have apart : top ∉ roots := by
      intro listed
      obtain ⟨headId, head, isId, found, isRoot⟩ := resolveRootFsId_eq_ok_iff.mp (isNew listed)
      apply unchanged
      rw [sameRepo, isId, Option.bind_some, found]
      simpa using isRoot
    obtain ⟨data, isData⟩ : ∃ data, data =
      webCommit clocked.repo top creatorName description (before.clock 0) := ⟨_, rfl⟩
    have absent : clocked.repo.commits.find data.row.commitId = none := by
      rw [sameRepo, isData]
      exact past.absent apart 0
    obtain ⟨commits, inserted⟩ : ∃ commits, clocked.repo.commits.insertCommit data.row =
      some commits := ⟨_, dif_pos absent⟩
    simp only [← isData, inserted, testAndUpdateHeadCommit, if_true]
    refine ⟨_, rfl, ?_, fun {commitId row} found => ?_⟩
    · refine allHashed_insert pastAfter.hashed ?_ inserted
      rw [isData]
      exact ⟨_, rfl⟩
    · have found : commits.find commitId = some row := found
      rw [CommitTable.find_insertCommit inserted] at found
      split at found
      · cases found
        exact Or.inl (isData ▸ List.mem_cons_self)
      · exact (pastAfter.mono wider).past found

theorem updateDirTreeAndCommit_runs {parts : List String} {root parent : Oid}
    {entries : List (DirEntryData Oid)} (genuine : Genuine before.repo.fsObjects)
    (plain : PlainNames parts) (isRoot : resolveRootFsId before.repo = .ok root)
    (climbs : Climbs before.repo none chain root parts)
    (resolves : Resolves before.repo.fsObjects parts root parent)
    (stands : StandsFor before.repo.fsObjects parent entries) (past : CommitsPast roots before)
    (isNew : ∀ {store : FsStore Oid} {top : Oid}, Table.Extends before.repo.fsObjects store →
      EditedAt store (pureEdit updateFn) parts root top → top ∈ roots → top = root)
    (modifier description : String) :
    ∃ top final, updateDirTreeAndCommit (pathOf parts) parent modifier description chain updateFn
      before = (.ok top, final) ∧ CommitsPast (top :: roots) final := by
  obtain ⟨top, updated, alone⟩ : ∃ top updated, ∀ chain, Climbs before.repo none chain root parts →
      applyTreeUpdate (pathOf parts) parent chain none updateFn before = (.ok top, updated) :=
    applyTreeUpdate_alone genuine plain resolves stands updateFn
  have updating := alone chain climbs
  obtain ⟨more, edited⟩ := applyTreeUpdate_edited genuine plain climbs resolves updating
  obtain ⟨final, committing, past⟩ := createCommit_runs (past.updated updating) (fun listed => by
    rw [more.rootFsId, isNew more.objects edited listed]
    exact isRoot) modifier description
  exact ⟨top, final, Proc.bind_ok_iff.mpr ⟨top, updated, updating, Proc.bind_ok_iff.mpr
    ⟨(), final, committing, rfl⟩⟩, past⟩

/-- The clock shows times that this one has still to show. -/
def ClockFrom (start : Nat → Int) (state : WebState Oid) : Prop :=
  ∀ count, ∃ later, state.clock count = start later

variable {start : Nat → Int}

section

omit [DecidableEq Oid] [Digests Oid] [ToString Oid]

theorem clockFrom_self (state : WebState Oid) : ClockFrom state.clock state :=
  fun count => ⟨count, rfl⟩

theorem clockFrom_now : Proc.Keeps (ClockFrom start) (Web.now : Web Oid Int) :=
  fun _ shows count => shows (count + 1)

end

theorem clockFrom_applyTreeUpdate (parentPath : String) (parentFsId : Oid)
    (chain : AncestorChain Oid) (rootOverride : Option Oid)
    (updateFn : List (DirEntryData Oid) → List (DirEntryData Oid)) :
    Proc.Keeps (ClockFrom start)
      (applyTreeUpdate parentPath parentFsId chain rootOverride updateFn) := by
  refine Proc.keeps_bind (Proc.keeps_tryRead _ _) fun data => ?_
  refine Proc.keeps_bind (fun _ shows => shows) fun newParent => ?_
  exact keeps_rebuildAbove clockFrom_now (fun _ _ _ shows _ _ _ _ => shows) _ _ _ _

def HeadIs (outcome : Except AppError Oid) (state : WebState Oid) : Prop :=
  resolveRootFsId state.repo = outcome

variable {outcome : Except AppError Oid}

theorem headIs_applyTreeUpdate (parentPath : String) (parentFsId : Oid)
    (chain : AncestorChain Oid) (rootOverride : Option Oid)
    (updateFn : List (DirEntryData Oid) → List (DirEntryData Oid)) :
    Proc.Keeps (HeadIs outcome)
      (applyTreeUpdate parentPath parentFsId chain rootOverride updateFn) := by
  refine Proc.keeps_bind (Proc.keeps_tryRead _ _) fun data => ?_
  refine Proc.keeps_bind (fun _ isHead => isHead) fun newParent => ?_
  exact keeps_rebuildAbove (fun _ isHead => isHead) (fun _ _ _ isHead _ _ _ _ => isHead) _ _ _ _

omit [ToString Oid] in
theorem headIs_createCommit (top : Oid) (creatorName description : String) :
    Proc.KeepsFailing (HeadIs outcome) (createCommit top creatorName description) := by
  refine Proc.keepsFailing_bind (fun _ isHead => isHead) fun time => ?_
  intro state final failure isHead run
  rw [commitRoot_failed run]
  exact isHead

theorem headIs_updateDirTreeAndCommit (parentPath : String) (parentFsId : Oid)
    (modifier description : String) (chain : AncestorChain Oid)
    (updateFn : List (DirEntryData Oid) → List (DirEntryData Oid)) :
    Proc.KeepsFailing (HeadIs outcome)
      (updateDirTreeAndCommit parentPath parentFsId modifier description chain updateFn) := by
  refine Proc.keepsFailing_bind (headIs_applyTreeUpdate _ _ _ _ _) fun root => ?_
  exact Proc.keepsFailing_bind_total (headIs_createCommit _ _ _) fun _ state => ⟨root, state, rfl⟩

end Nanofile
