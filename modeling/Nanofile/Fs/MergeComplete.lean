import Nanofile.Base.Rows
import Nanofile.Fs.MergeSound

/-!
# A merge of complete trees is complete

A merged directory lists entries of HEAD and of the upload and directories merged
below, never an entry only the base has.
-/

set_option autoImplicit false

namespace Nanofile

open Nanofile.Lib

variable {Oid : Type} [DecidableEq Oid]

/-- The entries a choice pushes are those of HEAD and of the upload. -/
def FromSides (slots : Slots Oid) : FileChoice Oid → Prop
  | .drop => True
  | .emit entry => slots.head = some entry ∨ slots.remote = some entry
  | .renameRemote keep => ∀ entry, keep = some entry → slots.head = some entry
  | .renameRemoteDir entry => slots.head = some entry

theorem chooseFile_fromSides (slots : Slots Oid) : FromSides slots (chooseFile slots) := by
  have headFile : ∀ entry, asFile slots.head = some entry → slots.head = some entry :=
    fun entry found => (asFile_eq_some.mp found).1
  have remoteFile : ∀ entry, asFile slots.remote = some entry → slots.remote = some entry :=
    fun entry found => (asFile_eq_some.mp found).1
  unfold chooseFile
  split
  · split
    · simp_all [FromSides]
    · split
      · simp_all [FromSides]
      · split <;> simp_all [FromSides]
  · split
    · trivial
    · split <;> simp_all [FromSides]
  · split
    · trivial
    · split <;> simp_all [FromSides]
  · split
    · simp_all [FromSides]
    · split <;> simp_all [FromSides]
  · split
    · simp_all [FromSides]
    · split <;> simp_all [FromSides]
  · trivial

variable {entry : DirEntryData Oid} {slots : Slots Oid}

theorem fileEmits_source {newName : String} (emitted : entry ∈ fileEmits slots newName) :
    ∃ source, (slots.head = some source ∨ slots.remote = some source) ∧
      entry.id = source.id ∧ entry.mode = source.mode := by
  have sources := chooseFile_fromSides slots
  unfold fileEmits at emitted
  cases chosen : chooseFile slots with
  | drop => simp [chosen] at emitted
  | emit other =>
    simp only [chosen, List.mem_singleton, FromSides] at emitted sources
    exact ⟨other, sources, congrArg _ emitted, congrArg _ emitted⟩
  | renameRemote keep =>
    simp only [chosen, List.mem_append, Option.mem_toList, Option.map_eq_some_iff, FromSides]
      at emitted sources
    rcases emitted with kept | ⟨remote, isRemote, rfl⟩
    · exact ⟨entry, Or.inl (sources entry kept), rfl, rfl⟩
    · exact ⟨remote, Or.inr isRemote, rfl, rfl⟩
  | renameRemoteDir head =>
    simp only [chosen, List.mem_singleton, FromSides] at emitted sources
    exact ⟨head, Or.inl sources, congrArg _ emitted, congrArg _ emitted⟩

variable {slot : Side}

theorem chooseDir_slot
    (chosen : chooseDir slots = .ok (.emit slot) ∨ chooseDir slots = .ok (.recurse slot)) :
    slot = .head ∨ slot = .remote := by
  unfold chooseDir at chosen
  grind

theorem chooseDir_present
    (chosen : chooseDir slots = .ok (.emit slot) ∨ chooseDir slots = .ok (.recurse slot)) :
    ∃ entry, slots.get slot = some entry ∧ isDir entry.mode = true := by
  obtain ⟨base, head, remote⟩ := slots
  unfold chooseDir slotIsDir at chosen
  cases head <;> cases remote <;>
    simp only [Slots.get, Option.any_none, Option.any_some] at * <;> grind

omit [DecidableEq Oid] in
theorem get_source (side : slot = .head ∨ slot = .remote) (present : slots.get slot = some entry) :
    slots.head = some entry ∨ slots.remote = some entry := by
  cases side with
  | inl isHead => exact Or.inl (by rw [isHead] at present; exact present)
  | inr isRemote => exact Or.inr (by rw [isRemote] at present; exact present)

theorem dirEmits_source {child : Oid} (emitted : entry ∈ dirEmits slots child) :
    (slots.head = some entry ∨ slots.remote = some entry) ∨
      (Recurses slots ∧ entry.id = child) := by
  unfold dirEmits at emitted
  split at emitted
  · rename_i slot chosen
    exact Or.inl (get_source (chooseDir_slot (Or.inl chosen)) (Option.mem_toList.mp emitted))
  · rename_i slot chosen
    rw [Option.mem_toList, Option.map_eq_some_iff] at emitted
    obtain ⟨source, -, rfl⟩ := emitted
    exact Or.inr ⟨⟨slot, chosen⟩, rfl⟩
  · simp at emitted

theorem groupEmits_source {run : GroupRun Oid} (emitted : entry ∈ groupEmits slots run) :
    (∃ source, (slots.head = some source ∨ slots.remote = some source) ∧
      entry.id = source.id ∧ entry.mode = source.mode) ∨
      (Recurses slots ∧ entry.id = run.child) := by
  rcases List.mem_append.mp emitted with pushed | pushed
  · exact Or.inl (fileEmits_source pushed)
  · rcases dirEmits_source pushed with side | ⟨recurses, isChild⟩
    · refine Or.inl ?_
      unfold slotsAfterFile at side
      split at side
      · rcases side with isHead | isRenamed
        · exact ⟨entry, Or.inl isHead, rfl, rfl⟩
        · obtain ⟨source, isRemote, rfl⟩ := Option.map_eq_some_iff.mp isRenamed
          exact ⟨source, Or.inr isRemote, rfl, rfl⟩
      · exact ⟨entry, side, rfl, rfl⟩
    · refine Or.inr ⟨?_, isChild⟩
      simpa only [Recurses, chooseDir_slotsAfterFile] using recurses

variable [Digests Oid] {blocks : Table Oid Int} {store : FsStore Oid}

theorem childEntries_complete {slot : Option (DirEntryData Oid)}
    (complete : ∀ entry, slot = some entry → Complete store blocks entry.id) :
    ∀ entry ∈ childEntries store slot, Complete store blocks entry.id := by
  intro entry listed
  cases slot with
  | none => simp [childEntries] at listed
  | some directory =>
    simp only [childEntries] at listed
    split at listed
    · cases read : dirBatch store directory.id with
      | none => simp [entriesOf, read] at listed
      | some data =>
        simp only [entriesOf, read, Option.map_some, Option.getD_some] at listed
        exact (complete directory rfl).entry read listed
    · simp at listed

theorem merged_complete {env : MergeEnv Oid} {base head remote merged : List (DirEntryData Oid)}
    {clash : Bool} (level : Merged env store base head remote merged clash) :
    (∀ entry ∈ head, Complete store blocks entry.id) →
    (∀ entry ∈ remote, Complete store blocks entry.id) →
    ∀ entry ∈ merged, Complete store blocks entry.id := by
  induction level with
  | @level base head remote runs named stands deeper ih =>
    intro headComplete remoteComplete entry listed
    obtain ⟨name, member, emitted⟩ := List.mem_flatMap.mp listed
    have atHead : ∀ source, slotAt head name = some source →
        Complete store blocks source.id :=
      fun source found => headComplete source (slotAt_eq_some found).1
    have atRemote : ∀ source, slotAt remote name = some source →
        Complete store blocks source.id :=
      fun source found => remoteComplete source (slotAt_eq_some found).1
    rcases groupEmits_source emitted with ⟨source, side, sameId, -⟩ | ⟨recurses, isChild⟩
    · rw [sameId]
      exact side.elim (atHead source) (atRemote source)
    · rw [isChild, (stands name member recurses).complete_iff]
      intro inner listedInner
      obtain ⟨source, listedSource, rfl⟩ := List.mem_map.mp listedInner
      rw [written_id]
      exact ih name member recurses (childEntries_complete atHead)
        (childEntries_complete atRemote) source (mem_sortDirentsDesc.mp listedSource)

theorem mergeTrees_complete [ToString Oid] {env : MergeEnv Oid} {baseRoot headRoot : Oid}
    {after : FsStore Oid} {outcome : MergeOutcome Oid} (genuine : Genuine store)
    (run : mergeTrees env baseRoot headRoot store = (.ok outcome, after))
    (headComplete : Complete store blocks headRoot)
    (remoteComplete : Complete store blocks env.remoteRoot) :
    Complete after blocks outcome.mergedRoot := by
  obtain ⟨grown, -, base, head, remote, merged, -, standsHead, standsRemote, standsMerged,
    level⟩ := mergeTrees_sound genuine run
  have kept := merged_complete level
    ((standsHead.extends grown).complete_iff.mp (headComplete.mono grown fun _ held => held))
    ((standsRemote.extends grown).complete_iff.mp (remoteComplete.mono grown fun _ held => held))
  rw [standsMerged.complete_iff]
  intro entry listed
  obtain ⟨source, listedSource, rfl⟩ := List.mem_map.mp listed
  rw [written_id]
  exact kept source (mem_sortDirentsDesc.mp listedSource)

end Nanofile
