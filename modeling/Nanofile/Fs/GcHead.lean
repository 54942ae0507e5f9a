import Nanofile.Base.FreeDigest
import Nanofile.Fs.Gc

/-!
# What a pass does to the current tree

The mark is complete for every root it starts from, so everything reachable from a
retained commit survives the pass.  HEAD is not retained for being HEAD, so the
current tree survives exactly when the retention settings happen to keep it.
-/

set_option autoImplicit false

namespace Nanofile

open Nanofile.Lib

variable {Oid : Type} [DecidableEq Oid]

/-! ## The mark is complete -/

/-- `other` is listed in the directory row `fsId`: the mark reads rows without a
special case for the sentinel. -/
def RowLists (store : FsStore Oid) (fsId other : Oid) : Prop :=
  ∃ data entry, store.find fsId = some (.dir data) ∧ entry ∈ data.dirents ∧ entry.id = other

def MarkReach (store : FsStore Oid) : Oid → Oid → Prop :=
  Relation.ReflTransGen (RowLists store)

/-- A directory lists stored directories under directory modes only. -/
def HonestModes (store : FsStore Oid) (fsId : Oid) : Prop :=
  ∀ data entry inner, store.find fsId = some (.dir data) → entry ∈ data.dirents →
    store.find entry.id = some (.dir inner) → hasDirBit entry.mode = true

/-- Some fact about every listed entry, by evaluation over the rows. -/
def entriesCheck (store : FsStore Oid) (holds : DirEntryData Oid → Bool) : Bool :=
  store.rows.all fun row =>
    match row.2 with
    | .file _ => true
    | .dir data => data.dirents.all holds

def honestCheck (store : FsStore Oid) : Bool :=
  entriesCheck store fun entry =>
    match store.find entry.id with
    | some (.dir _) => hasDirBit entry.mode
    | _ => true

variable {store : FsStore Oid}

theorem holds_of_entriesCheck {holds : DirEntryData Oid → Bool} {fsId : Oid} {data : FsDirData Oid}
    {entry : DirEntryData Oid} (checked : entriesCheck store holds = true)
    (found : store.find fsId = some (.dir data)) (listed : entry ∈ data.dirents) :
    holds entry = true := by
  simp only [Table.find, Option.map_eq_some_iff] at found
  obtain ⟨row, present, isDirectory⟩ := found
  have here := List.all_eq_true.mp checked row (List.mem_of_find?_eq_some present)
  rw [isDirectory] at here
  exact List.all_eq_true.mp here entry listed

theorem honestModes_of_check (checked : honestCheck store = true) (fsId : Oid) :
    HonestModes store fsId := by
  intro data entry inner found listed foundInner
  have there := holds_of_entriesCheck checked found listed
  rw [foundInner] at there
  exact there

/-- Every id listed in a collected directory is collected. -/
def ClosedAt (store : FsStore Oid) (collected : Finset Oid) (fsId : Oid) : Prop :=
  ∀ other, RowLists store fsId other → other ∈ collected

variable {fsId : Oid} {collected collected' : Finset Oid}

theorem closedAt_mono (grown : collected ⊆ collected')
    (closed : ClosedAt store collected fsId) : ClosedAt store collected' fsId :=
  fun other listed => grown (closed other listed)

def listedEntries (store : FsStore Oid) (fsId : Oid) : List (DirEntryData Oid) :=
  match store.find fsId with
  | some (.dir data) => data.dirents
  | _ => []

theorem rowLists_iff {other : Oid} :
    RowLists store fsId other ↔ ∃ entry ∈ listedEntries store fsId, entry.id = other := by
  unfold RowLists listedEntries
  constructor
  · rintro ⟨data, entry, found, listed, same⟩
    rw [found]
    exact ⟨entry, listed, same⟩
  · rintro ⟨entry, listed, same⟩
    split at listed
    · rename_i data found
      exact ⟨data, entry, found, listed, same⟩
    · simp at listed

variable [Digests Oid]

/-- Every id of the tree is spelled in lower case, and its modes are honest. -/
def HonestTree (store : FsStore Oid) (root : Oid) : Prop :=
  ∀ fsId, MarkReach store root fsId → decodeSha1Hex fsId = fsId ∧ HonestModes store fsId

theorem honestTree_of_check {root : Oid} (lower : decodeSha1Hex root = root)
    (spelled : entriesCheck store (fun entry => decodeSha1Hex entry.id = entry.id) = true)
    (honest : honestCheck store = true) : HonestTree store root := by
  intro fsId reached
  refine ⟨?_, honestModes_of_check honest fsId⟩
  cases reached with
  | refl => exact lower
  | tail above listed =>
    obtain ⟨data, entry, found, inside, rfl⟩ := listed
    simpa using holds_of_entriesCheck spelled found inside

theorem collectEntries_spec (entries : List (DirEntryData Oid))
    (lower : ∀ entry ∈ entries, decodeSha1Hex entry.id = entry.id) :
    ∀ next collected next' collected',
      entries.foldl collectEntry (next, collected) = (next', collected') →
      collected ⊆ collected' ∧ next ⊆ next' ∧
      (∀ entry ∈ entries, entry.id ∈ collected') ∧
      (∀ id ∈ next', id ∈ next ∨ ∃ entry ∈ entries, entry.id = id) ∧
      (∀ id ∈ collected', id ∈ collected ∨ id ∈ next' ∨
        ∃ entry ∈ entries, entry.id = id ∧ hasDirBit entry.mode = false) := by
  induction entries with
  | nil =>
    intro next collected next' collected' run
    simp only [List.foldl_nil, Prod.mk.injEq] at run
    obtain ⟨rfl, rfl⟩ := run
    exact ⟨Finset.Subset.refl _, List.Subset.refl _, by simp, fun _ => Or.inl,
      fun _ => Or.inl⟩
  | cons entry rest ih =>
    intro next collected next' collected' run
    obtain ⟨here, there⟩ := List.forall_mem_cons.mp lower
    rw [List.foldl_cons, collectEntry, here] at run
    by_cases seen : entry.id ∈ collected
    · rw [if_pos seen] at run
      obtain ⟨grown, grownNext, all, sources, fresh⟩ := ih there _ _ _ _ run
      refine ⟨grown, grownNext, ?_, ?_, ?_⟩
      · intro other member
        rcases List.mem_cons.mp member with rfl | member
        · exact grown seen
        · exact all other member
      · intro id member
        rcases sources id member with before | ⟨other, listed, same⟩
        · exact Or.inl before
        · exact Or.inr ⟨other, List.mem_cons_of_mem _ listed, same⟩
      · intro id member
        rcases fresh id member with before | ahead | ⟨other, listed, same⟩
        · exact Or.inl before
        · exact Or.inr (Or.inl ahead)
        · exact Or.inr (Or.inr ⟨other, List.mem_cons_of_mem _ listed, same⟩)
    · rw [if_neg seen] at run
      obtain ⟨grown, grownNext, all, sources, fresh⟩ := ih there _ _ _ _ run
      have here : entry.id ∈ collected' := grown (Finset.mem_insert_self _ _)
      refine ⟨(Finset.subset_insert _ _).trans grown, ?_, ?_, ?_, ?_⟩
      · refine List.Subset.trans ?_ grownNext
        split
        · exact List.subset_append_left _ _
        · exact List.Subset.refl _
      · intro other member
        rcases List.mem_cons.mp member with rfl | member
        · exact here
        · exact all other member
      · intro id member
        rcases sources id member with before | ⟨other, listed, same⟩
        · split at before
          · rcases List.mem_append.mp before with before | isEntry
            · exact Or.inl before
            · exact Or.inr ⟨entry, List.mem_cons_self, (List.mem_singleton.mp isEntry).symm⟩
          · exact Or.inl before
        · exact Or.inr ⟨other, List.mem_cons_of_mem _ listed, same⟩
      · intro id member
        rcases fresh id member with before | ahead | ⟨other, listed, same⟩
        · rcases Finset.mem_insert.mp before with rfl | before
          · cases directory : hasDirBit entry.mode with
            | true =>
              refine Or.inr (Or.inl (grownNext ?_))
              simp [directory]
            | false =>
              exact Or.inr (Or.inr ⟨entry, List.mem_cons_self, rfl, directory⟩)
          · exact Or.inl before
        · exact Or.inr (Or.inl ahead)
        · exact Or.inr (Or.inr ⟨other, List.mem_cons_of_mem _ listed, same⟩)

theorem collectObject_eq (store : FsStore Oid) :
    collectObject store = fun state fsId =>
      (listedEntries store fsId).foldl collectEntry state := by
  funext state fsId
  unfold collectObject listedEntries
  rcases store.find fsId with _ | _ | _ <;> rfl

variable {env : GcEnv Oid}

/-- One level: what is collected stays, what the frontier lists is collected, and a
new directory is on the next frontier. -/
theorem collectLevel_spec {frontier next : List Oid}
    (lower : ∀ fsId ∈ frontier, ∀ other, RowLists store fsId other → decodeSha1Hex other = other)
    (honest : ∀ fsId ∈ frontier, HonestModes store fsId)
    (run : collectLevel env store frontier collected = .ok (next, collected')) :
    collected ⊆ collected' ∧ (∀ fsId ∈ frontier, ClosedAt store collected' fsId) ∧
      (∀ id ∈ next, ∃ fsId ∈ frontier, RowLists store fsId id) ∧
      ∀ id ∈ collected', id ∈ collected ∨ (∃ fsId ∈ frontier, RowLists store fsId id) ∧
        (id ∈ next ∨ ClosedAt store collected' id) := by
  simp only [collectLevel, Except.ok.injEq, collectObject_eq, ← List.foldl_flatMap] at run
  have members : ∀ entry, entry ∈ (env.order frontier).flatMap (listedEntries store) ↔
      ∃ fsId ∈ frontier, entry ∈ listedEntries store fsId := by
    intro entry
    simp [List.mem_flatMap, (env.order_perm frontier).mem_iff]
  have spelled : ∀ entry ∈ (env.order frontier).flatMap (listedEntries store),
      decodeSha1Hex entry.id = entry.id := by
    intro entry inside
    obtain ⟨fsId, onFrontier, listed⟩ := (members entry).mp inside
    exact lower fsId onFrontier _ (rowLists_iff.mpr ⟨entry, listed, rfl⟩)
  obtain ⟨grown, -, all, sources, fresh⟩ := collectEntries_spec _ spelled _ _ _ _ run
  have ahead : ∀ id ∈ next, ∃ fsId ∈ frontier, RowLists store fsId id := by
    intro id member
    rcases sources id member with absent | ⟨entry, inside, rfl⟩
    · simp at absent
    · obtain ⟨fsId, onFrontier, listed⟩ := (members entry).mp inside
      exact ⟨fsId, onFrontier, rowLists_iff.mpr ⟨entry, listed, rfl⟩⟩
  refine ⟨grown, ?_, ahead, ?_⟩
  · intro fsId member other listed
    obtain ⟨entry, inside, rfl⟩ := rowLists_iff.mp listed
    exact all entry ((members entry).mpr ⟨fsId, member, inside⟩)
  · intro id member
    rcases fresh id member with before | isNext | ⟨entry, inside, rfl, notDir⟩
    · exact Or.inl before
    · exact Or.inr ⟨ahead id isNext, Or.inl isNext⟩
    · -- A new id under a file mode is no stored directory, so it lists nothing.
      obtain ⟨fsId, onFrontier, listedHere⟩ := (members entry).mp inside
      refine Or.inr ⟨⟨fsId, onFrontier, rowLists_iff.mpr ⟨entry, listedHere, rfl⟩⟩,
        Or.inr fun other listed => ?_⟩
      obtain ⟨inner, _, found, -, -⟩ := listed
      unfold listedEntries at listedHere
      split at listedHere
      · rename_i data foundDir
        have isDirectory := honest fsId onFrontier data entry inner foundDir listedHere found
        rw [notDir] at isDirectory
        simp at isDirectory
      · simp at listedHere

variable {root : Oid}

theorem collectFsIds_closed {collected marked : Finset Oid} (honest : HonestTree store root)
    (closed : ∀ fsId ∈ collected, ClosedAt store collected fsId)
    (run : collectFsIds env store root collected = .ok marked) :
    collected ⊆ marked ∧ root ∈ marked ∧ (∀ fsId ∈ marked, ClosedAt store marked fsId) ∧
      ∀ fsId ∈ marked, fsId ∈ collected ∨ MarkReach store root fsId := by
  rw [collectFsIds, (honest root .refl).1] at run
  split at run
  · rename_i seen
    cases run
    exact ⟨Finset.Subset.refl _, seen, closed, fun _ => Or.inl⟩
  · have final := levelWalk_invariant
      (I := fun frontier current => (insert root collected ⊆ current) ∧
        (∀ fsId ∈ frontier, MarkReach store root fsId) ∧
        (∀ fsId ∈ current, fsId ∈ frontier ∨ ClosedAt store current fsId) ∧
        ∀ fsId ∈ current, fsId ∈ collected ∨ MarkReach store root fsId) ?_ run ?_
    · obtain ⟨grown, -, done, origin⟩ := final
      refine ⟨(Finset.subset_insert _ _).trans grown, grown (Finset.mem_insert_self _ _),
        ?_, origin⟩
      intro fsId member
      exact (done fsId member).resolve_left (by simp)
    · intro frontier next current current' holds level
      obtain ⟨grown, reached, settled, origin⟩ := holds
      obtain ⟨grownLevel, closedHere, sources, fresh⟩ :=
        collectLevel_spec
          (fun fsId member other listed => (honest other ((reached fsId member).tail listed)).1)
          (fun fsId member => (honest fsId (reached fsId member)).2) level
      have below : ∀ fsId, (∃ above ∈ frontier, RowLists store above fsId) →
          MarkReach store root fsId := by
        rintro fsId ⟨above, onFrontier, listed⟩
        exact (reached above onFrontier).tail listed
      refine ⟨grown.trans grownLevel, fun fsId member => below fsId (sources fsId member), ?_, ?_⟩
      · intro fsId member
        rcases fresh fsId member with before | ⟨-, ahead | done⟩
        · rcases settled fsId before with onFrontier | done
          · exact Or.inr (closedHere fsId onFrontier)
          · exact Or.inr (closedAt_mono grownLevel done)
        · exact Or.inl ahead
        · exact Or.inr done
      · intro fsId member
        rcases fresh fsId member with before | ⟨listed, -⟩
        · exact origin fsId before
        · exact Or.inr (below fsId listed)
    · refine ⟨Finset.Subset.refl _, ?_, ?_, ?_⟩
      · intro fsId member
        rw [List.mem_singleton.mp member]
        exact Relation.ReflTransGen.refl
      · intro fsId member
        rcases Finset.mem_insert.mp member with rfl | before
        · exact Or.inl List.mem_cons_self
        · exact Or.inr (closedAt_mono (Finset.subset_insert _ _) (closed fsId before))
      · intro fsId member
        rcases Finset.mem_insert.mp member with rfl | before
        · exact Or.inr Relation.ReflTransGen.refl
        · exact Or.inl before

theorem collectRoots_complete :
    ∀ (rows : List (CommitRow Oid)) (collected marked : Finset Oid),
      (∀ row ∈ rows, HonestTree store row.rootId) →
      (∀ fsId ∈ collected, ClosedAt store collected fsId) →
      collectRoots env store rows collected = .ok marked →
      collected ⊆ marked ∧ (∀ row ∈ rows, row.rootId ∈ marked) ∧
        (∀ fsId ∈ marked, ClosedAt store marked fsId) ∧
        ∀ fsId ∈ marked, fsId ∈ collected ∨ ∃ row ∈ rows, MarkReach store row.rootId fsId := by
  intro rows
  induction rows with
  | nil =>
    intro collected marked _ closed run
    cases run
    exact ⟨Finset.Subset.refl _, by simp, closed, fun _ => Or.inl⟩
  | cons row rest ih =>
    intro collected marked honest closed run
    simp only [collectRoots] at run
    cases walked : collectFsIds env store row.rootId collected with
    | error failure => simp [walked] at run
    | ok middle =>
      simp only [walked] at run
      obtain ⟨grown, rooted, closedMiddle, origin⟩ :=
        collectFsIds_closed (honest row List.mem_cons_self) closed walked
      obtain ⟨grownRest, rootedRest, closedMarked, originRest⟩ := ih middle marked
        (fun other member => honest other (List.mem_cons_of_mem _ member)) closedMiddle run
      refine ⟨grown.trans grownRest, ?_, closedMarked, ?_⟩
      · intro other member
        rcases List.mem_cons.mp member with rfl | member
        · exact grownRest rooted
        · exact rootedRest other member
      · intro fsId member
        rcases originRest fsId member with before | ⟨other, inRest, reached⟩
        · exact (origin fsId before).imp_right fun reached =>
            ⟨row, List.mem_cons_self, reached⟩
        · exact Or.inr ⟨other, List.mem_cons_of_mem _ inRest, reached⟩

/-! ## Which commits are retained -/

/-- A commit is retained when there are no limits, when fewer than `history_limit`
commits come before it, or when it is not older than `history_ttl_days`. -/
def Retained (repo : Repo Oid) (now : Int) (row : CommitRow Oid) : Prop :=
  (repo.historyLimit = 0 ∧ repo.historyTtlDays = 0) ∨
    ((repo.commits.rows.filter fun other => other.newer row).length : Int) <
      repo.historyLimit ∨
    (0 < repo.historyTtlDays ∧ now - repo.historyTtlDays * secsPerDay ≤ row.ctime)

section

omit [DecidableEq Oid] [Digests Oid]

/-- In a list sorted by a strict order a member is among the first `count` when
fewer than `count` members come before it. -/
theorem mem_take_iff {before : CommitRow Oid → CommitRow Oid → Bool}
    (irrefl : ∀ a, before a a = false) (asymm : ∀ a b, before a b = true → before b a = false)
    {row : CommitRow Oid} : ∀ (rows : List (CommitRow Oid)) (count : Nat),
      rows.Pairwise (fun a b => before a b = true) → row ∈ rows →
      (row ∈ rows.take count ↔ (rows.filter fun other => before other row).length < count) := by
  intro rows
  induction rows with
  | nil =>
    intro count _ member
    simp at member
  | cons first rest ih =>
    intro count sorted member
    obtain ⟨ahead, sortedRest⟩ := List.pairwise_cons.mp sorted
    cases count with
    | zero => simp
    | succ count =>
      rcases List.mem_cons.mp member with rfl | inRest
      · have none : (row :: rest).filter (fun other => before other row) = [] := by
          rw [List.filter_eq_nil_iff]
          intro other inList
          rcases List.mem_cons.mp inList with rfl | inRest
          · simp [irrefl]
          · simp [asymm _ _ (ahead other inRest)]
        simp [none]
      · have different : row ≠ first := by
          rintro rfl
          have loop := ahead row inRest
          rw [irrefl] at loop
          simp at loop
        have front := ahead row inRest
        simp [front, different, ih count sortedRest inRest]

theorem newer_irrefl (row : CommitRow Oid) : row.newer row = false := by
  simp [CommitRow.newer]

theorem newer_asymm (a b : CommitRow Oid) (newer : a.newer b = true) : b.newer a = false := by
  simp only [CommitRow.newer, Bool.or_eq_true, Bool.and_eq_true, decide_eq_true_eq,
    Bool.or_eq_false_iff, Bool.and_eq_false_iff, decide_eq_false_iff_not] at newer ⊢
  omega

theorem orderedByCtimeDesc_perm (rows : List (CommitRow Oid)) :
    (orderedByCtimeDesc rows).Perm rows :=
  List.perm_insertionSort _ rows

theorem orderedByCtimeDesc_sorted (table : CommitTable Oid) :
    (orderedByCtimeDesc table.rows).Pairwise fun a b => a.newer b = true := by
  have sorted : (orderedByCtimeDesc table.rows).Pairwise fun a b => (!b.newer a) = true := by
    have total : Std.Total fun a b : CommitRow Oid => (!b.newer a) = true := ⟨by
      intro a b
      simp only [CommitRow.newer, Bool.not_eq_true', Bool.or_eq_false_iff,
        Bool.and_eq_false_iff, decide_eq_false_iff_not]
      omega⟩
    have trans : IsTrans (CommitRow Oid) fun a b => (!b.newer a) = true := ⟨by
      intro a b c
      simp only [CommitRow.newer, Bool.not_eq_true', Bool.or_eq_false_iff,
        Bool.and_eq_false_iff, decide_eq_false_iff_not]
      omega⟩
    exact List.pairwise_insertionSort _ _
  have distinct : (orderedByCtimeDesc table.rows).Pairwise fun a b => a.id ≠ b.id := by
    have nodup := ((orderedByCtimeDesc_perm table.rows).map CommitRow.id).nodup_iff.mpr
      table.ids_nodup
    exact List.pairwise_map.mp nodup
  refine (sorted.and distinct).imp ?_
  rintro a b ⟨notNewer, different⟩
  simp only [CommitRow.newer, Bool.not_eq_true', Bool.or_eq_false_iff, Bool.or_eq_true,
    Bool.and_eq_true, Bool.and_eq_false_iff, decide_eq_true_eq, decide_eq_false_iff_not]
    at notNewer ⊢
  omega

theorem mem_map_id_iff {table : CommitTable Oid} {row : CommitRow Oid} (listed : row ∈ table.rows)
    {rows : List (CommitRow Oid)} (inside : ∀ other ∈ rows, other ∈ table.rows) :
    row.id ∈ rows.map CommitRow.id ↔ row ∈ rows := by
  constructor
  · intro found
    obtain ⟨other, inRows, sameId⟩ := List.mem_map.mp found
    have same : other = row :=
      List.inj_on_of_nodup_map table.ids_nodup (inside other inRows) listed sameId
    exact same ▸ inRows
  · exact List.mem_map_of_mem

end

variable {now : Int}

section

omit [DecidableEq Oid] [Digests Oid]

theorem mem_of_mem_keepRows {commits : List (CommitRow Oid)} {limit ttl : Int} {row : CommitRow Oid}
    (kept : row ∈ keepRows commits limit ttl now) : row ∈ commits := by
  simp only [keepRows, List.mem_append] at kept
  rcases kept with (found | found) | found <;> split at found
  · exact List.mem_of_mem_take found
  · simp at found
  · exact (List.mem_filter.mp found).1
  · simp at found
  · exact found
  · simp at found

variable {repo : Repo Oid}

theorem mem_computeKeepCommits {row : CommitRow Oid} (listed : row ∈ repo.commits.rows) :
    row.id ∈ computeKeepCommits (orderedByCtimeDesc repo.commits.rows) repo.historyLimit
      repo.historyTtlDays now ↔ Retained repo now row := by
  have perm := orderedByCtimeDesc_perm repo.commits.rows
  have member : row ∈ orderedByCtimeDesc repo.commits.rows := perm.mem_iff.mpr listed
  have counted : ((orderedByCtimeDesc repo.commits.rows).filter fun other =>
      other.newer row).length = (repo.commits.rows.filter fun other => other.newer row).length :=
    (perm.filter _).length_eq
  have newest : row ∈ (if 0 < repo.historyLimit then
      (orderedByCtimeDesc repo.commits.rows).take repo.historyLimit.toNat else []) ↔
      ((repo.commits.rows.filter fun other => other.newer row).length : Int) <
        repo.historyLimit := by
    split
    · rw [mem_take_iff newer_irrefl newer_asymm _ _ (orderedByCtimeDesc_sorted repo.commits)
        member, counted]
      omega
    · simp only [List.not_mem_nil, false_iff]
      omega
  have recent : row ∈ (if 0 < repo.historyTtlDays then
      (orderedByCtimeDesc repo.commits.rows).filter fun other =>
        now - repo.historyTtlDays * secsPerDay ≤ other.ctime else []) ↔
      0 < repo.historyTtlDays ∧ now - repo.historyTtlDays * secsPerDay ≤ row.ctime := by
    split
    · rename_i positive
      simp [member, positive]
    · rename_i zero
      simp [zero]
  have unlimited : row ∈ (if repo.historyLimit = 0 ∧ repo.historyTtlDays = 0 then
      orderedByCtimeDesc repo.commits.rows else []) ↔
      repo.historyLimit = 0 ∧ repo.historyTtlDays = 0 := by
    split
    · rename_i noLimit
      simp [member, noLimit]
    · rename_i limited
      simp [limited]
  unfold computeKeepCommits Retained
  rw [List.mem_toFinset, mem_map_id_iff listed fun other kept =>
    perm.mem_iff.mp (mem_of_mem_keepRows kept)]
  simp only [keepRows, List.mem_append]
  rw [newest, recent, unlimited]
  exact or_comm

theorem card_computeKeepCommits : (computeKeepCommits (orderedByCtimeDesc repo.commits.rows)
      repo.historyLimit repo.historyTtlDays now).card =
      (orderedByCtimeDesc repo.commits.rows).length ↔
    ∀ row ∈ repo.commits.rows, Retained repo now row := by
  set commits := orderedByCtimeDesc repo.commits.rows
  set keep := computeKeepCommits commits repo.historyLimit repo.historyTtlDays now
  have perm : commits.Perm repo.commits.rows := orderedByCtimeDesc_perm _
  have distinct := (perm.map CommitRow.id).nodup_iff.mpr repo.commits.ids_nodup
  have subset : keep ⊆ (commits.map CommitRow.id).toFinset := by
    intro id member
    obtain ⟨other, kept, rfl⟩ := List.mem_map.mp (List.mem_toFinset.mp member)
    rw [List.mem_toFinset]
    exact List.mem_map_of_mem (mem_of_mem_keepRows kept)
  have all : (commits.map CommitRow.id).toFinset.card = commits.length := by
    rw [List.toFinset_card_of_nodup distinct, List.length_map]
  rw [← all]
  constructor
  · intro same row listed
    rw [← mem_computeKeepCommits listed]
    change row.id ∈ keep
    rw [Finset.eq_of_subset_of_card_le subset same.ge, List.mem_toFinset]
    exact List.mem_map_of_mem (perm.mem_iff.mpr listed)
  · intro retained
    refine congrArg Finset.card (subset.antisymm fun id member => ?_)
    obtain ⟨row, inside, rfl⟩ := List.mem_map.mp (List.mem_toFinset.mp member)
    have listed := perm.mem_iff.mp inside
    exact (mem_computeKeepCommits listed).mpr (retained row listed)

end

/-! ## One library -/

variable {repo : Repo Oid}

/-- The trees of the retained commits are honest. -/
def HonestHistory (repo : Repo Oid) (now : Int) : Prop :=
  ∀ row ∈ repo.commits.rows, Retained repo now row → HonestTree repo.fsObjects row.rootId

theorem rowLists_of_lists {other : Oid} (listed : Lists store fsId other) :
    RowLists store fsId other := by
  obtain ⟨data, entry, read, inside, same⟩ := listed
  exact ⟨data, entry, (dirBatch_eq_some_iff.mp read).2, inside, same⟩

theorem mem_aliveBlocks {block : Oid} {reachable : Finset Oid}
    (marked : ∀ fsId, Reach store root fsId → fsId ∈ reachable)
    (needed : NeedsBlock store root block) : block ∈ aliveBlocks store reachable := by
  obtain ⟨fsId, file, reached, nonempty, found, listed⟩ := needed
  refine Finset.mem_biUnion.mpr ⟨fsId, marked fsId reached, ?_⟩
  simp [fileBatch, nonempty, found, listed]

theorem complete_after_sweep {blocks : Table Oid Int} {reachable : Finset Oid} (env : GcEnv Oid)
    (keep : Oid → Bool) (complete : Complete store blocks root) (rooted : root ∈ reachable)
    (closed : ∀ fsId ∈ reachable, ClosedAt store reachable fsId)
    (kept : ∀ fsId ∈ reachable, keep fsId = true) :
    Complete (store.keepKeys keep)
      (removeOrphans env (aliveBlocks store reachable) blocks).2 root := by
  have marked := reach_subset rooted fun above other inside listed =>
    closed above inside other (rowLists_of_lists listed)
  refine complete.of_kept (Table.extends_keepKeys store keep) ?_ ?_
  · intro fsId reached
    rw [Table.find_keepKeys, kept fsId (marked fsId reached), if_pos rfl]
  · intro block needed
    have alive := mem_aliveBlocks marked needed
    simp only [removeOrphans, Table.find_keepKeys]
    simp [alive]

/-- The prune step deletes the unretained commits and, when there are any, the unmarked objects,
and nothing else. -/
theorem pruneStep_spec (repo : Repo Oid) (now : Int) (reachable : Finset Oid) :
    ∃ (keepFs : Oid → Bool) (keepId : Nat → Bool),
      (if repo.historyLimit ≠ 0 ∨ repo.historyTtlDays ≠ 0 then
        pruneRepo repo (orderedByCtimeDesc repo.commits.rows)
          (computeKeepCommits (orderedByCtimeDesc repo.commits.rows) repo.historyLimit
            repo.historyTtlDays now) reachable
        else (0, repo)).2 = { repo with
          fsObjects := repo.fsObjects.keepKeys keepFs
          commits := repo.commits.keepIds keepId } ∧
      (∀ fsId, keepFs fsId = true ↔
        decodeSha1Hex fsId ∈ reachable ∨ ∀ row ∈ repo.commits.rows, Retained repo now row) ∧
      ∀ row ∈ repo.commits.rows, keepId row.id = true ↔ Retained repo now row := by
  have untouched : repo = { repo with
      fsObjects := repo.fsObjects.keepKeys fun _ => true
      commits := repo.commits.keepIds fun _ => true } := by
    rw [Table.keepKeys_true, CommitTable.keepIds_true]
  split
  · unfold pruneRepo
    split
    · rename_i allKept
      have all := card_computeKeepCommits.mp allKept
      exact ⟨fun _ => true, fun _ => true, untouched, fun _ => iff_of_true rfl (Or.inr all),
        fun row listed => iff_of_true rfl (all row listed)⟩
    · rename_i someDropped
      refine ⟨fun fsId => decodeSha1Hex fsId ∈ reachable, fun id => id ∈ computeKeepCommits
        (orderedByCtimeDesc repo.commits.rows) repo.historyLimit repo.historyTtlDays now, rfl,
        fun fsId => ?_, fun row listed => ?_⟩
      · simp [mt card_computeKeepCommits.mpr someDropped]
      · rw [decide_eq_true_eq]
        exact mem_computeKeepCommits listed
  · rename_i unlimited
    have all : ∀ row ∈ repo.commits.rows, Retained repo now row :=
      fun _ _ => Or.inl (by simpa using unlimited)
    exact ⟨fun _ => true, fun _ => true, untouched, fun _ => iff_of_true rfl (Or.inr all),
      fun row listed => iff_of_true rfl (all row listed)⟩

/-- A pass that comes through found no commit, or marked from the retained ones and swept. -/
theorem collectRepo_ok {after : Repo Oid} {removed : Nat}
    (run : collectRepo env repo = .ok (removed, after)) :
    (repo.commits.rows = [] ∧ after = repo) ∨
    ∃ (kept : List (CommitRow Oid)) (reachable : Finset Oid) (keepFs : Oid → Bool)
      (keepId : Nat → Bool),
      (∀ row, row ∈ kept ↔ row ∈ repo.commits.rows ∧ Retained repo env.now row) ∧
      collectRoots env repo.fsObjects kept ∅ = .ok reachable ∧
      after = { repo with
        fsObjects := repo.fsObjects.keepKeys keepFs
        commits := repo.commits.keepIds keepId
        blocks := (removeOrphans env (aliveBlocks repo.fsObjects reachable) repo.blocks).2 } ∧
      (∀ fsId, keepFs fsId = true ↔
        decodeSha1Hex fsId ∈ reachable ∨
          ∀ row ∈ repo.commits.rows, Retained repo env.now row) ∧
      ∀ row ∈ repo.commits.rows, keepId row.id = true ↔ Retained repo env.now row := by
  have perm := orderedByCtimeDesc_perm repo.commits.rows
  simp only [collectRepo] at run
  split at run
  · rename_i noCommits
    have isNil : orderedByCtimeDesc repo.commits.rows = [] := by simpa using noCommits
    cases run
    exact Or.inl ⟨List.perm_nil.mp (isNil ▸ perm.symm), rfl⟩
  · cases marked : collectRepoAliveBlocks env repo.fsObjects
        (orderedByCtimeDesc repo.commits.rows) (computeKeepCommits
          (orderedByCtimeDesc repo.commits.rows) repo.historyLimit repo.historyTtlDays
          env.now) with
    | error failure => simp [marked] at run
    | ok result =>
      obtain ⟨reachable, alive⟩ := result
      simp only [marked] at run
      unfold collectRepoAliveBlocks at marked
      split at marked
      · simp at marked
      · rename_i collected walked
        simp only [Except.ok.injEq, Prod.mk.injEq] at marked
        obtain ⟨rfl, rfl⟩ := marked
        obtain ⟨keepFs, keepId, pruned, keptFs, keptIds⟩ :=
          pruneStep_spec repo env.now collected
        rw [pruned] at run
        have still : repoHeadMoved { repo with
            fsObjects := repo.fsObjects.keepKeys keepFs
            commits := repo.commits.keepIds keepId } repo = false := by
          simp [repoHeadMoved]
        simp only [still, Bool.and_false, Bool.false_eq_true, if_false, Except.ok.injEq,
          Prod.mk.injEq] at run
        obtain ⟨-, rfl⟩ := run
        refine Or.inr ⟨_, collected, keepFs, keepId, fun row => ?_, walked, rfl, keptFs, keptIds⟩
        rw [List.mem_filter, perm.mem_iff, decide_eq_true_eq]
        exact and_congr_right mem_computeKeepCommits

/-- What a pass does to one library: retained commits keep their rows and their
trees, the others lose their rows. -/
theorem collectRepo_spec {after : Repo Oid} {removed : Nat}
    (run : collectRepo env repo = .ok (removed, after)) :
    after.headCommitId = repo.headCommitId ∧
    (HonestHistory repo env.now → ∀ commitId row, repo.commits.find commitId = some row →
      Retained repo env.now row → Complete repo.fsObjects repo.blocks row.rootId →
      after.commits.find commitId = some row ∧
        Complete after.fsObjects after.blocks row.rootId) ∧
    (∀ commitId row, repo.commits.find commitId = some row → ¬ Retained repo env.now row →
      after.commits.find commitId = none) := by
  obtain ⟨noRows, rfl⟩ | ⟨kept, reachable, keepFs, keepId, isKept, walked, rfl, keptFs, keptIds⟩ :=
    collectRepo_ok run
  · -- Without commits there is nothing to say about one.
    have absent : ∀ commitId row, after.commits.find commitId ≠ some row := by
      intro commitId row found
      have listed := (CommitTable.find_eq_some_iff.mp found).1
      simp [noRows] at listed
    exact ⟨rfl, fun _ commitId row found => absurd found (absent commitId row),
      fun commitId row found => absurd found (absent commitId row)⟩
  · refine ⟨rfl, ?_, ?_⟩
    · intro honest commitId row found retained complete
      obtain ⟨listed, rfl⟩ := CommitTable.find_eq_some_iff.mp found
      have honestKept : ∀ other ∈ kept, HonestTree repo.fsObjects other.rootId :=
        fun other member => honest other ((isKept other).mp member).1 ((isKept other).mp member).2
      obtain ⟨-, rooted, closed, origin⟩ := collectRoots_complete _ _ _ honestKept (by simp) walked
      constructor
      · rw [CommitTable.find_keepIds found, if_pos ((keptIds row listed).mpr retained)]
      · refine complete_after_sweep env keepFs complete
          (rooted row ((isKept row).mpr ⟨listed, retained⟩)) closed fun fsId marked => ?_
        obtain ⟨other, isOther, reached⟩ := (origin fsId marked).resolve_left (by simp)
        rw [keptFs, (honestKept other isOther fsId reached).1]
        exact Or.inl marked
    · intro commitId row found dropped
      have listed := (CommitTable.find_eq_some_iff.mp found).1
      rw [CommitTable.find_keepIds found, if_neg (mt (keptIds row listed).mp dropped)]

/-- The tree of a retained commit holds the object. -/
def InHistory (repo : Repo Oid) (now : Int) (fsId : Oid) : Prop :=
  ∃ row ∈ repo.commits.rows, Retained repo now row ∧ MarkReach repo.fsObjects row.rootId fsId

/-- A pass over a library with commits deletes the commits that are not retained, with them the
objects no retained tree holds, and of the blocks no retained file lists those old enough. -/
theorem collectRepo_exact {after : Repo Oid} {removed : Nat} (commits : repo.commits.rows ≠ [])
    (honest : HonestHistory repo env.now) (run : collectRepo env repo = .ok (removed, after)) :
    Grows after repo ∧
    (∀ row ∈ repo.commits.rows, row ∈ after.commits.rows ↔ Retained repo env.now row) ∧
    (∀ fsId object, repo.fsObjects.find fsId = some object →
      (after.fsObjects.find fsId = none ↔ ¬ InHistory repo env.now (decodeSha1Hex fsId) ∧
        ∃ row ∈ repo.commits.rows, ¬ Retained repo env.now row)) ∧
    ∀ block modified, repo.blocks.find block = some modified →
      (after.blocks.find block = none ↔ skippedFresh env modified = false ∧
        ∀ fsId file, InHistory repo env.now fsId → fileBatch repo.fsObjects fsId = some file →
          block ∉ file.blockIds) := by
  obtain ⟨noRows, -⟩ | ⟨kept, reachable, keepFs, keepId, isKept, walked, rfl, keptFs, keptIds⟩ :=
    collectRepo_ok run
  · exact absurd noRows commits
  obtain ⟨-, rooted, closed, origin⟩ := collectRoots_complete _ _ _ (fun other member =>
    honest other ((isKept other).mp member).1 ((isKept other).mp member).2) (by simp) walked
  have marked : ∀ fsId, fsId ∈ reachable ↔ InHistory repo env.now fsId := by
    intro fsId
    constructor
    · intro inside
      obtain ⟨row, isRow, reached⟩ := (origin fsId inside).resolve_left (by simp)
      obtain ⟨listed, retained⟩ := (isKept row).mp isRow
      exact ⟨row, listed, retained, reached⟩
    · rintro ⟨row, listed, retained, reached⟩
      induction reached with
      | refl => exact rooted row ((isKept row).mpr ⟨listed, retained⟩)
      | tail _ lists ih => exact closed _ ih _ lists
  refine ⟨⟨Table.extends_keepKeys _ _, ?_, fun _ _ => CommitTable.find_of_find_keepIds⟩, ?_, ?_, ?_⟩
  · intro block held
    obtain ⟨modified, found⟩ := Option.isSome_iff_exists.mp held
    rw [Table.extends_keepKeys _ _ _ _ found]
    rfl
  · intro row listed
    simp [CommitTable.keepIds, listed, keptIds row listed]
  · intro fsId object found
    have keeps := not_congr (keptFs fsId)
    rw [marked, not_or] at keeps
    rw [Table.find_keepKeys, found]
    simpa only [ite_eq_right_iff, reduceCtorEq, imp_false, not_forall, exists_prop] using keeps
  · intro block modified found
    have alive : block ∈ aliveBlocks repo.fsObjects reachable ↔ ∃ fsId file,
        InHistory repo env.now fsId ∧ fileBatch repo.fsObjects fsId = some file ∧
          block ∈ file.blockIds := by
      simp only [aliveBlocks, Finset.mem_biUnion, marked]
      refine exists_congr fun fsId => ?_
      cases fileBatch repo.fsObjects fsId <;> simp
    have dead := not_congr alive
    simp only [not_exists, not_and] at dead
    simp [removeOrphans, Table.find_keepKeys, found, dead, and_comm]

/-! ## The whole pass -/

theorem collectRepos_spec (env : GcEnv Oid) :
    ∀ (repos : List (Repo Oid)), List.Forall₂
      (fun repo after => (∃ removed, collectRepo env repo = .ok (removed, after)) ∨
        (after = repo ∧ (collectRepos env repos).1.isOk = false))
      repos (collectRepos env repos).2 := by
  intro repos
  induction repos with
  | nil => exact .nil
  | cons repo rest ih =>
    simp only [collectRepos]
    cases collected : collectRepo env repo with
    | error failure =>
      refine .cons (Or.inr ⟨rfl, rfl⟩) (List.forall₂_same.mpr fun other _ => ?_)
      exact Or.inr ⟨rfl, rfl⟩
    | ok result =>
      obtain ⟨removed, after⟩ := result
      rcases others : collectRepos env rest with ⟨failure | count, left⟩
      · rw [others] at ih
        exact .cons (Or.inl ⟨removed, collected⟩) ih
      · rw [others] at ih
        refine .cons (Or.inl ⟨removed, collected⟩) (ih.imp fun repo after step => ?_)
        rcases step with done | ⟨-, failed⟩
        · exact Or.inl done
        · simp [Except.isOk, Except.toBool] at failed

def HeadRetained (repo : Repo Oid) (now : Int) : Prop :=
  ∃ headId row, repo.headCommitId = some headId ∧ repo.commits.find headId = some row ∧
    Retained repo now row

def agedFile : FsFileData FreeId := ⟨[.atom 7], 1, seafMetadataTypeFile, 1⟩

def agedTree : FsDirData FreeId := directory [fileEntry "f" (Digests.fileId agedFile) 1]

def agedCommit : CommitRow FreeId :=
  ⟨1, .atom 1, Digests.dirId agedTree, none, none, "user", .atom 0, "", 0, none, none⟩

def agedRepo : Repo FreeId where
  id := "library"
  headCommitId := some (.atom 1)
  size := 1
  historyLimit := 0
  historyTtlDays := 1
  commits := ⟨[agedCommit], by decide, by decide⟩
  fsObjects := ⟨[(Digests.fileId agedFile, .file agedFile),
    (Digests.dirId agedTree, .dir agedTree.written)]⟩
  blocks := ⟨[(.atom 7, 0)]⟩

def gcAt (now : Int) : GcEnv FreeId :=
  ⟨defaultLimits, GcPolicy.new 3600, now, fun frontier => frontier, fun _ => .refl _⟩

theorem agedRepo_complete : HeadComplete agedRepo :=
  ⟨.atom 1, agedCommit, rfl, by decide, complete_of_check
    [Digests.dirId agedTree, Digests.fileId agedFile] (by decide)⟩

theorem agedRepo_honest (now : Int) : HonestHistory agedRepo now := by
  intro row listed _
  rw [List.mem_singleton.mp listed]
  exact honestTree_of_check (by decide) (by decide) (by decide)

/-- Its block goes because the tree of no retained commit holds a file. -/
theorem agedRepo_swept : ∃ removed after,
    collectRepo (gcAt 172800) agedRepo = .ok (removed, after) ∧
    after.blocks.find (.atom 7) = none := by
  have through : (collectRepo (gcAt 172800) agedRepo).isOk = true := by decide +kernel
  cases run : collectRepo (gcAt 172800) agedRepo with
  | error failure => cases run ▸ through
  | ok result =>
    obtain ⟨removed, after⟩ := result
    have exact := (collectRepo_exact (by decide) (agedRepo_honest _) run).2.2.2
    refine ⟨removed, after, rfl, (exact (.atom 7) 0 (by decide)).mpr ⟨by decide, ?_⟩⟩
    rintro fsId file ⟨row, listed, retained, -⟩
    rw [List.mem_singleton.mp listed] at retained
    simp [Retained, agedRepo, agedCommit, gcAt, secsPerDay, CommitRow.newer] at retained

end Nanofile
