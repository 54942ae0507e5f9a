import Nanofile.Repository.JobRuns

/-!
# What a prune of the journal leaves

A prune drops the finished rows past their cutoffs, then finds the newest row beyond the cap and
drops what was not finished after it.  Rows that were finished in the same second as that one go
with it, whichever side of the cap they are on.
-/

set_option autoImplicit false

namespace Nanofile

namespace JobRuns

/-- `prune`: how many rows were deleted, and what is left. -/
def prune (rows : List JobRunRow) (succeededBefore failedBefore : Int) (maxRows : Nat) :
    Nat × List JobRunRow :=
  let byAge := pruneByAge rows succeededBefore failedBefore
  let byCount := match countBoundary byAge maxRows with
    | some cutoff => pruneByCount byAge cutoff
    | none => byAge
  ((rows.length - byAge.length) + (byAge.length - byCount.length), byCount)

def finishedRows (rows : List JobRunRow) : List JobRunRow :=
  rows.filter fun row => row.finishedAt.isSome

def newestTimes (rows : List JobRunRow) : List Int :=
  (rows.filterMap fun row => row.finishedAt).insertionSort fun first second => second ≤ first

structure KeepsNewest (rows : List JobRunRow) (succeededBefore failedBefore : Int) (maxRows : Nat) :
    Prop where
  sublist : (prune rows succeededBefore failedBefore maxRows).2.Sublist rows
  unfinished : ∀ row ∈ rows, row.finishedAt = none →
    row ∈ (prune rows succeededBefore failedBefore maxRows).2
  aged : ∀ row ∈ (prune rows succeededBefore failedBefore maxRows).2,
    outdated succeededBefore failedBefore row = false
  capped : (finishedRows (prune rows succeededBefore failedBefore maxRows).2).length =
    min (finishedRows (pruneByAge rows succeededBefore failedBefore)).length maxRows
  newest : ∀ kept ∈ (prune rows succeededBefore failedBefore maxRows).2,
    ∀ gone ∈ pruneByAge rows succeededBefore failedBefore,
      gone ∉ (prune rows succeededBefore failedBefore maxRows).2 →
        ∀ keptAt goneAt, kept.finishedAt = some keptAt → gone.finishedAt = some goneAt →
          goneAt ≤ keptAt
  again : prune (prune rows succeededBefore failedBefore maxRows).2 succeededBefore failedBefore
    maxRows = (0, (prune rows succeededBefore failedBefore maxRows).2)

/-- The newest row beyond the cap was finished in the same second as one within it. -/
def TiesAtCap (rows : List JobRunRow) (maxRows : Nat) : Prop :=
  ∃ cutoff, countBoundary rows maxRows = some cutoff ∧ cutoff ∈ (newestTimes rows).take maxRows

variable {rows : List JobRunRow} {succeededBefore failedBefore cutoff : Int} {maxRows : Nat}

theorem countBoundary_eq (rows : List JobRunRow) (maxRows : Nat) :
    countBoundary rows maxRows = ((newestTimes rows).drop maxRows).head? := rfl

theorem newestTimes_perm (rows : List JobRunRow) :
    (newestTimes rows).Perm (rows.filterMap fun row => row.finishedAt) :=
  List.perm_insertionSort _ _

theorem newestTimes_sorted (rows : List JobRunRow) :
    (newestTimes rows).Pairwise fun first second => second ≤ first := by
  have total : Std.Total fun first second : Int => second ≤ first :=
    ⟨fun first second => Int.le_total second first⟩
  have trans : IsTrans Int fun first second => second ≤ first :=
    ⟨fun _ _ _ firstLe secondLe => Int.le_trans secondLe firstLe⟩
  exact List.pairwise_insertionSort _ _

theorem length_newestTimes (rows : List JobRunRow) :
    (newestTimes rows).length = (finishedRows rows).length := by
  rw [(newestTimes_perm rows).length_eq, finishedRows]
  induction rows with
  | nil => rfl
  | cons row rest ih =>
    cases finished : row.finishedAt <;> simp [finished, ih]

theorem countBoundary_eq_none_iff :
    countBoundary rows maxRows = none ↔ (finishedRows rows).length ≤ maxRows := by
  rw [countBoundary_eq, List.head?_eq_none_iff, List.drop_eq_nil_iff, length_newestTimes]

/-- The boundary parts the times: those within the cap are no older, those beyond it no newer. -/
theorem newestTimes_split (found : countBoundary rows maxRows = some cutoff) :
    (∀ time ∈ (newestTimes rows).take maxRows, cutoff ≤ time) ∧
      (∀ time ∈ (newestTimes rows).drop maxRows, time ≤ cutoff) ∧
      ((newestTimes rows).take maxRows).length = maxRows := by
  rw [countBoundary_eq] at found
  have sorted := newestTimes_sorted rows
  obtain ⟨rest, isDrop⟩ := List.head?_eq_some_iff.mp found
  rw [← List.take_append_drop maxRows (newestTimes rows), isDrop, List.pairwise_append] at sorted
  obtain ⟨-, below, across⟩ := sorted
  refine ⟨fun time within => across time within cutoff List.mem_cons_self, ?_, ?_⟩
  · rw [isDrop]
    rintro time (_ | ⟨_, listed⟩)
    · exact Int.le_refl _
    · exact (List.pairwise_cons.mp below).1 time listed
  · have longer : (newestTimes rows).drop maxRows ≠ [] := by simp [isDrop]
    rw [List.length_take]
    have := List.length_lt_of_drop_ne_nil longer
    omega

theorem mem_pruneByCount {row : JobRunRow} : row ∈ pruneByCount rows cutoff ↔
    row ∈ rows ∧ ∀ finishedAt, row.finishedAt = some finishedAt → cutoff < finishedAt := by
  unfold pruneByCount
  rw [List.mem_filter]
  cases row.finishedAt <;> simp

theorem length_finishedRows_pruneByCount (rows : List JobRunRow) (cutoff : Int) :
    (finishedRows (pruneByCount rows cutoff)).length =
      (newestTimes rows).countP fun time => cutoff < time := by
  rw [(newestTimes_perm rows).countP_eq]
  unfold finishedRows pruneByCount
  induction rows with
  | nil => rfl
  | cons row rest ih =>
    cases finished : row.finishedAt with
    | none => simpa [finished] using ih
    | some time =>
      by_cases newer : cutoff < time
      · simpa [finished, newer, Int.not_le.mpr newer] using ih
      · simpa [finished, newer, Int.not_lt.mp newer] using ih

theorem countP_newer (found : countBoundary rows maxRows = some cutoff) :
    (newestTimes rows).countP (fun time => cutoff < time) =
      ((newestTimes rows).take maxRows).countP fun time => cutoff < time := by
  obtain ⟨-, beyond, -⟩ := newestTimes_split found
  conv_lhs => rw [← List.take_append_drop maxRows (newestTimes rows)]
  rw [List.countP_append, Nat.add_eq_left, List.countP_eq_zero]
  intro time listed newer
  exact absurd (beyond time listed) (by simpa using newer)

theorem length_pruneByCount_le (found : countBoundary rows maxRows = some cutoff) :
    (finishedRows (pruneByCount rows cutoff)).length ≤ maxRows := by
  rw [length_finishedRows_pruneByCount, countP_newer found]
  exact List.countP_le_length.trans (newestTimes_split found).2.2.le

theorem length_pruneByCount_iff (found : countBoundary rows maxRows = some cutoff) :
    (finishedRows (pruneByCount rows cutoff)).length = maxRows ↔
      cutoff ∉ (newestTimes rows).take maxRows := by
  obtain ⟨within, -, length⟩ := newestTimes_split found
  have full := @List.countP_eq_length Int ((newestTimes rows).take maxRows)
    fun time => decide (cutoff < time)
  rw [length] at full
  rw [length_finishedRows_pruneByCount, countP_newer found, full]
  constructor
  · intro newer tied
    exact absurd (newer cutoff tied) (by simp)
  · intro apart time listed
    have no_older := within time listed
    have different : time ≠ cutoff := fun same => apart (same ▸ listed)
    simp only [decide_eq_true_eq]
    omega

theorem prune_capped
    (found : countBoundary (pruneByAge rows succeededBefore failedBefore) maxRows = some cutoff) :
    (prune rows succeededBefore failedBefore maxRows).2 =
      pruneByCount (pruneByAge rows succeededBefore failedBefore) cutoff := by
  simp only [prune, found]

theorem prune_uncapped
    (missing : countBoundary (pruneByAge rows succeededBefore failedBefore) maxRows = none) :
    (prune rows succeededBefore failedBefore maxRows).2 =
      pruneByAge rows succeededBefore failedBefore := by
  simp only [prune, missing]

theorem prune_sublist : (prune rows succeededBefore failedBefore maxRows).2.Sublist
    (pruneByAge rows succeededBefore failedBefore) := by
  cases found : countBoundary (pruneByAge rows succeededBefore failedBefore) maxRows with
  | some cutoff =>
    rw [prune_capped found]
    exact List.filter_sublist
  | none =>
    rw [prune_uncapped found]

theorem mem_pruneByAge {row : JobRunRow} : row ∈ pruneByAge rows succeededBefore failedBefore ↔
    row ∈ rows ∧ outdated succeededBefore failedBefore row = false := by
  unfold pruneByAge
  simp

theorem prune_of_settled (young : ∀ row ∈ rows, outdated succeededBefore failedBefore row = false)
    (few : (finishedRows rows).length ≤ maxRows) :
    prune rows succeededBefore failedBefore maxRows = (0, rows) := by
  have sameAge : pruneByAge rows succeededBefore failedBefore = rows :=
    List.filter_eq_self.mpr fun row listed => by simp [young row listed]
  have noBoundary := countBoundary_eq_none_iff.mpr few
  simp only [prune, sameAge, noBoundary, Nat.sub_self, Nat.add_zero]

theorem length_prune_le :
    (finishedRows (prune rows succeededBefore failedBefore maxRows).2).length ≤ maxRows := by
  cases found : countBoundary (pruneByAge rows succeededBefore failedBefore) maxRows with
  | some cutoff =>
    rw [prune_capped found]
    exact length_pruneByCount_le found
  | none =>
    rw [prune_uncapped found]
    exact countBoundary_eq_none_iff.mp found

theorem length_prune_iff :
    (finishedRows (prune rows succeededBefore failedBefore maxRows).2).length =
        min (finishedRows (pruneByAge rows succeededBefore failedBefore)).length maxRows ↔
      ¬ TiesAtCap (pruneByAge rows succeededBefore failedBefore) maxRows := by
  unfold TiesAtCap
  cases found : countBoundary (pruneByAge rows succeededBefore failedBefore) maxRows with
  | none =>
    rw [prune_uncapped found, Nat.min_eq_left (countBoundary_eq_none_iff.mp found)]
    simp
  | some cutoff =>
    have many : maxRows ≤
        (finishedRows (pruneByAge rows succeededBefore failedBefore)).length := by
      have length := (newestTimes_split found).2.2
      rw [List.length_take, length_newestTimes] at length
      omega
    rw [prune_capped found, Nat.min_eq_right many, length_pruneByCount_iff found]
    simp

theorem prune_newest {kept gone : JobRunRow}
    (stays : kept ∈ (prune rows succeededBefore failedBefore maxRows).2)
    (young : gone ∈ pruneByAge rows succeededBefore failedBefore)
    (dropped : gone ∉ (prune rows succeededBefore failedBefore maxRows).2) {keptAt goneAt : Int}
    (isKept : kept.finishedAt = some keptAt) (isGone : gone.finishedAt = some goneAt) :
    goneAt ≤ keptAt := by
  cases found : countBoundary (pruneByAge rows succeededBefore failedBefore) maxRows with
  | some cutoff =>
    rw [prune_capped found] at stays dropped
    have newer := (mem_pruneByCount.mp stays).2 keptAt isKept
    have older : goneAt ≤ cutoff := by
      by_contra later
      refine dropped (mem_pruneByCount.mpr ⟨young, fun finishedAt same => ?_⟩)
      rw [isGone, Option.some.injEq] at same
      omega
    omega
  | none =>
    rw [prune_uncapped found] at dropped
    exact absurd young dropped

/-- A prune keeps the newest rows unless the row beyond the cap ties with one within it. -/
theorem prune_keeps_newest_iff (rows : List JobRunRow) (succeededBefore failedBefore : Int)
    (maxRows : Nat) : KeepsNewest rows succeededBefore failedBefore maxRows ↔
      ¬ TiesAtCap (pruneByAge rows succeededBefore failedBefore) maxRows := by
  refine ⟨fun keeps => length_prune_iff.mp keeps.capped, fun apart => ?_⟩
  have young : ∀ row ∈ (prune rows succeededBefore failedBefore maxRows).2,
      outdated succeededBefore failedBefore row = false :=
    fun row listed => (mem_pruneByAge.mp (prune_sublist.subset listed)).2
  refine ⟨prune_sublist.trans List.filter_sublist, fun row listed isOpen => ?_, young,
    length_prune_iff.mpr apart, fun kept stays gone listed dropped keptAt goneAt isKept isGone =>
      prune_newest stays listed dropped isKept isGone, prune_of_settled young length_prune_le⟩
  have notOld : row ∈ pruneByAge rows succeededBefore failedBefore :=
    mem_pruneByAge.mpr ⟨listed, by simp [outdated, isOpen]⟩
  cases found : countBoundary (pruneByAge rows succeededBefore failedBefore) maxRows with
  | some cutoff =>
    rw [prune_capped found]
    exact mem_pruneByCount.mpr ⟨notOld, fun finishedAt finished => by simp [isOpen] at finished⟩
  | none =>
    rw [prune_uncapped found]
    exact notOld

def succeededAt (id : Nat) (finishedAt : Int) : JobRunRow :=
  { newRow id "gc" none "" none 0 0 with
    phase := "succeeded"
    finishedAt := some finishedAt
    leaseUntil := none }

/-- Two runs end in the same second: one row is to be kept, and both are deleted. -/
theorem prune_drops_tie :
    prune [succeededAt 1 5, succeededAt 2 5] 0 0 1 = (2, []) ∧
      ¬ KeepsNewest [succeededAt 1 5, succeededAt 2 5] 0 0 1 := by
  have pruned : prune [succeededAt 1 5, succeededAt 2 5] 0 0 1 = (2, []) := by decide
  refine ⟨pruned, fun keeps => ?_⟩
  have capped := keeps.capped
  rw [pruned] at capped
  exact absurd capped (by decide)

end JobRuns

end Nanofile
