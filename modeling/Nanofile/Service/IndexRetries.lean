import Mathlib.Algebra.Ring.Int.Defs
import Mathlib.Algebra.Ring.Nat
import Mathlib.Data.List.Rotate
import Mathlib.Logic.Function.Basic

/-!
# Retrying what could not be indexed

A backfill goes around the libraries and reads every file whose document is not current.  A
document that could not be made is current once the cooldown has passed: it is read by every pass
before that, and by none after it.  Image and page recognition is switched off.
-/

set_option autoImplicit false

namespace Nanofile

def failedRetryAfterSecs : Int := 3600

def extractorVersion : Nat := 2

/-- `DocMeta::MANUAL_VERSION`, of a text that a client supplied. -/
def manualVersion : Nat := 2 ^ 32 - 1

inductive DocStatus where
  | indexed
  | skipped
  | noText
  | failed
deriving DecidableEq

structure DocState where
  fsId : String
  extractorVersion : Nat
  status : DocStatus
  attemptedAt : Int

/-- `saturating_sub` on `i64`. -/
def subI64 (first second : Int) : Int := max (-2 ^ 63) (min (2 ^ 63 - 1) (first - second))

namespace DocState

def isManual (state : DocState) : Bool := state.extractorVersion = manualVersion

def isCurrent (state : DocState) (fsId : String) (now : Int) : Bool :=
  if state.isManual then true
  else if state.extractorVersion ≠ Nanofile.extractorVersion ∨ state.fsId ≠ fsId then false
  else
    match state.status with
    | .indexed | .skipped | .noText => true
    | .failed => failedRetryAfterSecs ≤ subI64 now state.attemptedAt

end DocState

structure IndexTarget where
  path : String
  fsId : Option String
deriving DecidableEq

inductive IndexMode where
  | explicit
  | backfill
  | force

inductive IndexRead where
  /-- The file object cannot be read. -/
  | gone
  | overBudget
  | unreadable
  /-- A document of which only a part was read. -/
  | short
  | unavailable
  | text
  | unsupported (sandboxOff : Bool)

def IndexRead.status : IndexRead → Option DocStatus
  | .gone => none
  | .overBudget => some .skipped
  | .unreadable | .short | .unavailable => some .failed
  | .text => some .indexed
  | .unsupported sandboxOff => some (if sandboxOff then .failed else .skipped)

abbrev Documents := String → Option DocState

/-- The targets that `index_batch` reads at a time. -/
def batchWork (mode : IndexMode) (docs : Documents) (now : Int) (targets : List IndexTarget) :
    List IndexTarget :=
  targets.filter fun target =>
    match mode, target.fsId.filter (· ≠ ""), docs target.path with
    | .force, _, _ | _, none, _ | _, _, none => true
    | .explicit, some fsId, some state => state.isManual || !state.isCurrent fsId now
    | .backfill, some fsId, some state => !state.isCurrent fsId now

/-- `index_one` of a target with a known id, which ends in some way at some time. -/
def indexOne (ends : String → IndexRead × Int) (docs : Documents) (target : IndexTarget) :
    Documents :=
  let (read, time) := ends target.path
  match read.status with
  | none => docs
  | some status => Function.update docs target.path
      (some ⟨target.fsId.getD "", extractorVersion, status, time⟩)

/-- A library as a pass finds it: its files with their ids, if HEAD can be read. -/
structure IndexedLibrary where
  id : String
  files : Option (List (String × String))

structure IndexServer where
  cursor : Nat
  docs : String → Documents

/-- What a pass meets: how many libraries it reaches before the deadline, the clock at each batch,
and how each reading ends. -/
structure PassTick where
  reached : Nat
  now : String → Int
  ends : String → String → IndexRead × Int

/-- A batch of a pass: what is stored of the files, the time, and what is read. -/
structure Batch where
  files : List (String × String)
  docs : Documents
  now : Int
  work : List IndexTarget

def targetOf (file : String × String) : IndexTarget := ⟨file.1, some file.2⟩

def passLibrary (tick : PassTick) (docs : String → Documents) (library : IndexedLibrary) :
    List Batch × (String → Documents) :=
  match library.files with
  | none => ([], docs)
  | some files =>
    let now := tick.now library.id
    let work := batchWork .backfill (docs library.id) now (files.map targetOf)
    ([⟨files, docs library.id, now, work⟩], Function.update docs library.id
      (work.foldl (indexOne (tick.ends library.id)) (docs library.id)))

def passLibraries (tick : PassTick) : List IndexedLibrary → (String → Documents) →
    List Batch × (String → Documents)
  | [], docs => ([], docs)
  | library :: rest, docs =>
    let first := passLibrary tick docs library
    let later := passLibraries tick rest first.2
    (first.1 ++ later.1, later.2)

/-- `backfill_pass` over the libraries in the order of their ids.  The cursor is past the library
at which the deadline was noticed. -/
def backfillPass (libraries : List IndexedLibrary) (tick : PassTick) (server : IndexServer) :
    List Batch × IndexServer :=
  let start := server.cursor % libraries.length
  let passed := passLibraries tick ((libraries.rotate start).take tick.reached) server.docs
  (passed.1, ⟨(start + min (tick.reached + 1) libraries.length) % libraries.length, passed.2⟩)

/-- The batches of a sequence of passes over unchanged libraries. -/
def backfillRun (libraries : List IndexedLibrary) : List PassTick → IndexServer → List Batch
  | [], _ => []
  | tick :: ticks, server =>
    let passed := backfillPass libraries tick server
    passed.1 ++ backfillRun libraries ticks passed.2

/-- The document is of the file at this extractor version; an empty id is of no file. -/
def DocState.IsOf (state : DocState) (fsId : String) : Prop :=
  state.isManual = false ∧ fsId ≠ "" ∧ state.fsId = fsId ∧
    state.extractorVersion = Nanofile.extractorVersion

/-- Failed documents are retried after the cooldown and settled ones are not read. -/
def Batch.Retries (batch : Batch) : Prop :=
  ∀ file ∈ batch.files, ∀ state, batch.docs file.1 = some state →
    (state.IsOf file.2 → state.status = .failed →
      (targetOf file ∈ batch.work ↔ failedRetryAfterSecs ≤ batch.now - state.attemptedAt)) ∧
    (state.isManual = true ∨ state.IsOf file.2 ∧ state.status ≠ .failed →
      targetOf file ∉ batch.work)

/-- No file has a failed document, and none without an id has a pinned one. -/
def Batch.Unfailed (batch : Batch) : Prop :=
  ∀ file ∈ batch.files, ∀ state, batch.docs file.1 = some state →
    ¬ (state.IsOf file.2 ∧ state.status = .failed) ∧ ¬ (state.isManual = true ∧ file.2 = "")

theorem le_subI64_iff {now time : Int} :
    failedRetryAfterSecs ≤ subI64 now time ↔ failedRetryAfterSecs ≤ now - time := by
  unfold subI64 failedRetryAfterSecs
  omega

variable {docs : Documents} {now : Int} {files : List (String × String)} {file : String × String}
  {state : DocState}

theorem mem_work_iff (listed : file ∈ files) (stored : docs file.1 = some state) :
    targetOf file ∈ batchWork .backfill docs now (files.map targetOf) ↔
      file.2 = "" ∨ state.isCurrent file.2 now = false := by
  rw [batchWork, List.mem_filter, and_iff_right (List.mem_map_of_mem listed)]
  by_cases unnamed : file.2 = ""
  · simp [targetOf, unnamed, Option.filter]
  · simp [targetOf, unnamed, stored, Option.filter]

theorem isCurrent_of_settled
    (settled : state.isManual = true ∨ state.IsOf file.2 ∧ state.status ≠ .failed) :
    state.isCurrent file.2 now = true := by
  unfold DocState.isCurrent
  rcases settled with manual | ⟨⟨automatic, -, same, version⟩, notFailed⟩
  · rw [if_pos manual]
  · rw [if_neg (by simp [automatic]), if_neg (by simp [version, same])]
    cases status : state.status with
    | failed => exact absurd status notFailed
    | indexed | skipped | noText => rfl

/-- The comparison is the other way around: a failed document is read before the cooldown has
passed. -/
theorem isCurrent_of_failed (isOf : state.IsOf file.2) (failed : state.status = .failed) :
    state.isCurrent file.2 now = true ↔ failedRetryAfterSecs ≤ now - state.attemptedAt := by
  obtain ⟨automatic, -, same, version⟩ := isOf
  rw [← le_subI64_iff, DocState.isCurrent, if_neg (by simp [automatic]),
    if_neg (by simp [version, same]), failed]
  exact decide_eq_true_iff

theorem retries_iff_unfailed (docs : Documents) (now : Int) (files : List (String × String)) :
    Batch.Retries ⟨files, docs, now, batchWork .backfill docs now (files.map targetOf)⟩ ↔
      Batch.Unfailed ⟨files, docs, now, batchWork .backfill docs now (files.map targetOf)⟩ := by
  refine forall₂_congr fun file listed => forall₂_congr fun state stored => ?_
  have work : targetOf file ∈ batchWork .backfill docs now (files.map targetOf) ↔
      file.2 = "" ∨ state.isCurrent file.2 now = false := mem_work_iff listed stored
  constructor
  · rintro ⟨retried, settled⟩
    constructor
    · rintro ⟨isOf, failed⟩
      have asked := retried isOf failed
      rw [work, or_iff_right isOf.2.1, ← isCurrent_of_failed isOf failed] at asked
      cases current : state.isCurrent file.2 now <;> simp [current] at asked
    · rintro ⟨manual, unnamed⟩
      exact settled (Or.inl manual) (work.mpr (Or.inl unnamed))
  · rintro ⟨unfailed, named⟩
    refine ⟨fun isOf failed => absurd ⟨isOf, failed⟩ unfailed, fun settled inWork => ?_⟩
    rcases work.mp inWork with unnamed | stale
    · rcases settled with manual | ⟨isOf, -⟩
      · exact named ⟨manual, unnamed⟩
      · exact isOf.2.1 unnamed
    · rw [isCurrent_of_settled settled] at stale
      cases stale

theorem passLibraries_batch {tick : PassTick} {batch : Batch} : ∀ {libraries : List IndexedLibrary}
    {docs : String → Documents}, batch ∈ (passLibraries tick libraries docs).1 →
      batch.work = batchWork .backfill batch.docs batch.now (batch.files.map targetOf) := by
  intro libraries
  induction libraries with
  | nil =>
    intro docs listed
    cases listed
  | cons library rest ih =>
    intro docs listed
    rcases List.mem_append.mp listed with first | later
    · unfold passLibrary at first
      split at first
      · cases first
      · rw [List.mem_singleton.mp first]
    · exact ih later

/-- A sequence of passes retries as promised exactly when no batch meets a failed document (or a
pinned one of a file without an id). -/
theorem backfillRun_retries_iff (libraries : List IndexedLibrary) (ticks : List PassTick) :
    ∀ server, (∀ batch ∈ backfillRun libraries ticks server, batch.Retries) ↔
      ∀ batch ∈ backfillRun libraries ticks server, batch.Unfailed := by
  induction ticks with
  | nil => simp [backfillRun]
  | cons tick ticks ih =>
    intro server
    simp only [backfillRun, List.forall_mem_append, ih]
    refine and_congr_left fun _ => forall₂_congr fun batch listed => ?_
    have isWork := passLibraries_batch listed
    obtain ⟨files, docs, now, work⟩ := batch
    obtain rfl : work = batchWork .backfill docs now (files.map targetOf) := isWork
    exact retries_iff_unfailed docs now files

def unreadableAt (time : Int) : PassTick := ⟨1, fun _ => time, fun _ _ => (.unreadable, time)⟩

/-- A file that cannot be read at first is read again at once, and no more after an hour. -/
theorem failed_document_excluded :
    let batches := backfillRun [⟨"repo", some [("/a", "f")]⟩]
      [unreadableAt 0, unreadableAt 10, unreadableAt 3610] ⟨0, fun _ _ => none⟩
    batches.map (fun batch => batch.work.length) = [1, 1, 0] ∧ ¬ ∀ batch ∈ batches, batch.Retries := by
  refine ⟨by decide +kernel, ?_⟩
  rw [backfillRun_retries_iff]
  intro unfailed
  have second := unfailed _ (List.mem_cons_of_mem _ List.mem_cons_self) _ List.mem_cons_self _ rfl
  exact second.1 ⟨⟨rfl, by decide, rfl, rfl⟩, rfl⟩

end Nanofile
