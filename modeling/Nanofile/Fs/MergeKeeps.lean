import Nanofile.Base.FreeDigest
import Nanofile.Fs.MergeSound

/-!
# The merge loses no change

A file that head or remote added or changed is in the merged tree: head's at its
own path, remote's at its path up to conflict names.  Each table keeps the entry
unless the base has the same id under the name, and then nothing was changed.
-/

set_option autoImplicit false

namespace Nanofile

open Nanofile.Lib

variable {Oid : Type} [DecidableEq Oid]

/-- A path component kept, or replaced by a conflict name of it. -/
def KeptOrRenamed (env : MergeEnv Oid) (name newName : String) : Prop :=
  newName = name ∨ ConflictName env name newName

/-! ## The file table -/

variable {newName : String} {slots : Slots Oid} {head : DirEntryData Oid}

theorem head_mem_fileEmits (present : slots.head = some head)
    (regular : isRegular head.mode = true)
    (changed : slotHasId (asFile slots.base) head.id = false) :
    head ∈ fileEmits slots newName := by
  obtain ⟨base, _, remote⟩ := slots
  simp only at present changed
  subst present
  have headFile : asFile (some head) = some head := asFile_eq_some.mpr ⟨rfl, regular⟩
  simp only [fileEmits, chooseFile, headFile]
  rcases remoteFile : asFile remote with _ | remoteEntry
  · rcases baseFile : asFile base with _ | baseEntry
    · simp only
      cases remote with
      | none => simp
      | some other =>
        simp only
        split_ifs <;> simp
    · have different : baseEntry.id ≠ head.id := by
        simpa [baseFile, slotHasId] using changed
      simp only [if_neg different]
      split_ifs <;> simp
  · simp only
    split_ifs with sameId unchanged <;> simp_all

/-- The remote file stays under its name, under a conflict name, or as head's
file of the same id. -/
theorem remote_mem_fileEmits (slots : Slots Oid) {remote : DirEntryData Oid}
    (present : slots.remote = some remote) (regular : isRegular remote.mode = true)
    (changed : slotHasId (asFile slots.base) remote.id = false) :
    remote ∈ fileEmits slots newName ∨ renamed newName remote ∈ fileEmits slots newName ∨
      ∃ head, slots.head = some head ∧ isRegular head.mode = true ∧ head.id = remote.id ∧
        head ∈ fileEmits slots newName := by
  obtain ⟨base, headSlot, _⟩ := slots
  simp only at present changed
  subst present
  have remoteFile : asFile (some remote) = some remote := asFile_eq_some.mpr ⟨rfl, regular⟩
  simp only [fileEmits, chooseFile, remoteFile]
  rcases headFile : asFile headSlot with _ | head
  · rcases baseFile : asFile base with _ | baseEntry
    · simp only
      cases headSlot with
      | none => simp
      | some other =>
        simp only
        split_ifs <;> simp
    · have different : baseEntry.id ≠ remote.id := by
        simpa [baseFile, slotHasId] using changed
      simp only [if_neg different]
      split_ifs <;> simp
  · obtain ⟨headPresent, headRegular⟩ := asFile_eq_some.mp headFile
    simp only
    split_ifs with sameId sameBase sameRemote
    · exact Or.inr (Or.inr ⟨head, headPresent, headRegular, sameId, by simp⟩)
    · simp
    · rw [sameRemote] at changed
      simp at changed
    · simp

/-! ## The directory table -/

variable {entry : DirEntryData Oid}

omit [DecidableEq Oid] in
theorem slotIsDir_some (directory : isDir entry.mode = true) : slotIsDir (some entry) = true := by
  simp [slotIsDir, directory]

theorem head_dirEmits_cases (present : slots.head = some head)
    (directory : isDir head.mode = true) :
    (∀ child, head ∈ dirEmits slots child) ∨
      (∃ base, slots.base = some base ∧ base.id = head.id) ∨
      chooseDir slots = .ok (.recurse .head) := by
  obtain ⟨base, _, remote⟩ := slots
  simp only at present
  subst present
  by_cases sameBase : ∃ entry, base = some entry ∧ entry.id = head.id
  · exact Or.inr (Or.inl sameBase)
  · have different : base.map (·.id) ≠ some head.id := by
      intro same
      obtain ⟨entry, found, sameId⟩ := Option.map_eq_some_iff.mp same
      exact sameBase ⟨entry, found, sameId⟩
    simp only [dirEmits, chooseDir, slotIsDir_some directory, Option.map_some, if_neg different]
    rcases slotIsDir base with _ | _ <;> rcases slotIsDir remote with _ | _ <;> simp only
    · exact Or.inl fun _ => by simp [Slots.get]
    · split_ifs <;> simp [Slots.get]
    · exact Or.inr (Or.inr trivial)
    · split_ifs <;> simp [Slots.get]

/-- A remote directory is emitted, or head's directory of the same id is, or its
id is the base's, or it is merged below. -/
theorem remote_dirEmits_cases {remote : DirEntryData Oid} (present : slots.remote = some remote)
    (directory : isDir remote.mode = true) :
    (∀ child, remote ∈ dirEmits slots child) ∨
      (∃ head, slots.head = some head ∧ isDir head.mode = true ∧ head.id = remote.id ∧
        ∀ child, head ∈ dirEmits slots child) ∨
      (∃ base, slots.base = some base ∧ base.id = remote.id) ∨
      (∃ head, slots.head = some head ∧ isDir head.mode = true ∧
        chooseDir slots = .ok (.recurse .head)) ∨
      chooseDir slots = .ok (.recurse .remote) := by
  obtain ⟨base, head, _⟩ := slots
  simp only at present
  subst present
  by_cases sameBase : ∃ entry, base = some entry ∧ entry.id = remote.id
  · exact Or.inr (Or.inr (Or.inl sameBase))
  · have different : base.map (·.id) ≠ some remote.id := by
      intro same
      obtain ⟨entry, found, sameId⟩ := Option.map_eq_some_iff.mp same
      exact sameBase ⟨entry, found, sameId⟩
    simp only [dirEmits, chooseDir, slotIsDir_some directory, Option.map_some, if_neg different]
    rcases headDir : slotIsDir head with _ | _
    · rcases slotIsDir base with _ | _ <;> simp [Slots.get]
    · obtain ⟨entry, rfl, entryDir⟩ : ∃ entry, head = some entry ∧ isDir entry.mode = true := by
        simpa [slotIsDir, Option.any_eq_true] using headDir
      simp only [Option.map_some, Option.some.injEq]
      split_ifs with sameId sameHead
      · exact Or.inr (Or.inl ⟨entry, rfl, entryDir, sameId, by simp [Slots.get]⟩)
      · exact Or.inl fun _ => by simp [Slots.get]
      · exact Or.inr (Or.inr (Or.inr (Or.inl ⟨entry, rfl, entryDir, by simp⟩)))

/-! ## Files by slot -/

variable [Digests Oid] {entries : List (DirEntryData Oid)}

section

omit [DecidableEq Oid] [Digests Oid]

theorem slotAt_eq_lookup (unique : (entries.map DirEntryData.name).Nodup) (name : String) :
    slotAt entries name = lookup entries name := by
  have uniqueSorted : ((sortDirentsDesc entries).map DirEntryData.name).Nodup :=
    ((sortDirentsDesc_perm entries).map _).nodup_iff.mpr unique
  refine Option.ext fun entry => ?_
  rw [show slotAt entries name = lookup (sortDirentsDesc entries) name from rfl,
    lookup_eq_some_iff uniqueSorted, lookup_eq_some_iff unique, mem_sortDirentsDesc]

theorem slotAt_of_mem (unique : (entries.map DirEntryData.name).Nodup) (listed : entry ∈ entries) :
    slotAt entries entry.name = some entry := by
  rw [slotAt_eq_lookup unique]
  exact (lookup_eq_some_iff unique).mpr ⟨listed, rfl⟩

end

variable {id : Oid} {name : String} {store : FsStore Oid}

theorem hasFile_single_iff (unique : (entries.map DirEntryData.name).Nodup) :
    HasFile store entries [name] id ↔
      ∃ entry, slotAt entries name = some entry ∧ isRegular entry.mode = true ∧
        entry.id = id := by
  constructor
  · rintro ⟨entry, listed, rfl, regular, sameId⟩
    exact ⟨entry, slotAt_of_mem unique listed, regular, sameId⟩
  · rintro ⟨entry, found, regular, sameId⟩
    obtain ⟨listed, named⟩ := slotAt_eq_some found
    exact ⟨entry, listed, named, regular, sameId⟩

theorem hasFile_cons_iff (unique : (entries.map DirEntryData.name).Nodup) {next : String}
    {rest : List String} :
    HasFile store entries (name :: next :: rest) id ↔
      ∃ entry, slotAt entries name = some entry ∧ isDir entry.mode = true ∧
        HasFile store (entriesOf store entry.id) (next :: rest) id := by
  constructor
  · rintro ⟨entry, listed, rfl, directory, below⟩
    exact ⟨entry, slotAt_of_mem unique listed, directory, below⟩
  · rintro ⟨entry, found, directory, below⟩
    obtain ⟨listed, named⟩ := slotAt_eq_some found
    exact ⟨entry, listed, named, directory, below⟩

theorem hasFile_single_iff_slotHasId (unique : (entries.map DirEntryData.name).Nodup) :
    HasFile store entries [name] id ↔
      slotHasId (asFile (slotAt entries name)) id = true := by
  rw [hasFile_single_iff unique]
  simp [slotHasId, Option.any_eq_true, asFile_eq_some, and_assoc]

theorem hasFile_childEntries_iff (unique : (entries.map DirEntryData.name).Nodup) {next : String}
    {rest : List String} :
    HasFile store (childEntries store (slotAt entries name)) (next :: rest) id ↔
      HasFile store entries (name :: next :: rest) id := by
  rw [hasFile_cons_iff unique]
  cases slotAt entries name with
  | none => simp [childEntries, not_hasFile_nil]
  | some entry =>
    by_cases directory : isDir entry.mode = true
    · simp [childEntries, directory]
    · simp [childEntries, directory, not_hasFile_nil]

variable {after : FsStore Oid}

theorem childEntries_extends (formed : WellFormed store entries) (grown : Table.Extends store after)
    (name : String) :
    childEntries after (slotAt entries name) = childEntries store (slotAt entries name) := by
  cases found : slotAt entries name with
  | none => rfl
  | some entry =>
    simp only [childEntries]
    split
    · rename_i directory
      exact (formed.entryOk (slotAt_eq_some found).1).entriesOf_extends directory grown
    · rfl

theorem wellFormed_childEntries (formed : WellFormed store entries) (name : String) :
    WellFormed store (childEntries store (slotAt entries name)) := by
  cases found : slotAt entries name with
  | none => exact wellFormed_nil store
  | some entry =>
    simp only [childEntries]
    split
    · rename_i directory
      exact formed.child (slotAt_eq_some found).1 directory
    · exact wellFormed_nil store

variable {base head : List (DirEntryData Oid)}

section

omit [DecidableEq Oid] [Digests Oid]

theorem mem_groupNames_iff {remote : List (DirEntryData Oid)} :
    name ∈ groupNames base head remote ↔
      name ∈ (base ++ head ++ remote).map DirEntryData.name := by
  rw [groupNames, (List.perm_insertionSort _ _).mem_iff, List.mem_dedup]

theorem mem_groupNames {remote : List (DirEntryData Oid)}
    (listed : entry ∈ base ++ head ++ remote) :
    entry.name ∈ groupNames base head remote :=
  mem_groupNames_iff.mpr (List.mem_map_of_mem listed)

end

variable {path : List String}

/-- A changed directory does not share its id with the base entry of its name:
an id shared with a file is the sentinel, which holds nothing. -/
theorem base_id_ne_of_changed {base : DirEntryData Oid} (ok : EntryOk store base)
    (below : HasFile store (entriesOf store entry.id) path id)
    (changed : isDir base.mode = true → ¬ HasFile store (entriesOf store base.id) path id) :
    base.id ≠ entry.id := by
  intro sameId
  rcases ok with ⟨-, notDir⟩ | ⟨directory, -⟩
  · rw [← sameId, entriesOf, notDir] at below
    exact not_hasFile_nil store path id below
  · exact changed directory (sameId ▸ below)

theorem hasFile_of_dir (entry : DirEntryData Oid) (listed : entry ∈ entries)
    (named : entry.name = name) (directory : isDir entry.mode = true)
    (below : HasFile store (entriesOf store entry.id) path id) :
    HasFile store entries (name :: path) id := by
  cases path with
  | nil => exact below.elim
  | cons next rest => exact ⟨entry, listed, named, directory, below⟩

/-! ## Head's changes -/

variable {clash : Bool} {env : MergeEnv Oid} {remote merged : List (DirEntryData Oid)}

theorem merged_keeps_head (grown : Table.Extends store after)
    (level : Merged env after base head remote merged clash) :
    WellFormed store base → WellFormed store head → WellFormed store remote →
    ∀ path id, HasFile store head path id → ¬ HasFile store base path id →
      HasFile after merged path id := by
  induction level with
  | @level base head remote runs named stands deeper ih =>
    intro formedBase formedHead formedRemote path id here changed
    rcases path with _ | ⟨name, _ | ⟨next, rest⟩⟩
    · exact here.elim
    · -- A file of this level: the file table keeps it.
      obtain ⟨entry, found, regular, rfl⟩ := (hasFile_single_iff formedHead.nodup).mp here
      obtain ⟨listed, rfl⟩ := slotAt_eq_some found
      rw [hasFile_single_iff_slotHasId formedBase.nodup, Bool.not_eq_true] at changed
      have kept : entry ∈ groupEmits (slotsAt base head remote entry.name)
          (runs entry.name) :=
        List.mem_append_left _ (head_mem_fileEmits found regular changed)
      have member : entry.name ∈ groupNames base head remote :=
        mem_groupNames (by simp [listed])
      exact ⟨entry, List.mem_flatMap.mpr ⟨entry.name, member, kept⟩, rfl, regular, rfl⟩
    · -- A file below: the directory table keeps its directory, or merges it.
      obtain ⟨entry, found, directory, below⟩ := (hasFile_cons_iff formedHead.nodup).mp here
      obtain ⟨listed, rfl⟩ := slotAt_eq_some found
      have member : entry.name ∈ groupNames base head remote :=
        mem_groupNames (by simp [listed])
      have place : ∀ kept ∈ dirEmits (slotsAfterFile (slotsAt base head remote entry.name)
          (runs entry.name).newName) (runs entry.name).child,
          kept ∈ (groupNames base head remote).flatMap fun name =>
            groupEmits (slotsAt base head remote name) (runs name) := fun kept emitted =>
        List.mem_flatMap.mpr ⟨entry.name, member, List.mem_append_right _ emitted⟩
      obtain ⟨sameBase, sameHead, -⟩ := childEntries_slotsAfterFile store
        (slotsAt base head remote entry.name) (runs entry.name).newName
      have foundHead := sameHead.trans found
      rcases head_dirEmits_cases foundHead directory with
        emitted | ⟨baseEntry, foundBase, sameId⟩ | recursing
      · refine ⟨entry, place entry (emitted _), rfl, directory, ?_⟩
        rw [(formedHead.entryOk listed).entriesOf_extends directory grown]
        exact (hasFile_extends grown (formedHead.child listed directory)).mpr below
      · rw [sameBase] at foundBase
        have ok := formedBase.entryOk (slotAt_eq_some foundBase).1
        refine absurd sameId (base_id_ne_of_changed ok below fun directoryBase present => ?_)
        exact changed ((hasFile_cons_iff formedBase.nodup).mpr
          ⟨baseEntry, foundBase, directoryBase, present⟩)
      · have recurses : Recurses (slotsAt base head remote entry.name) :=
          ⟨.head, (chooseDir_slotsAfterFile _ _).symm.trans recursing⟩
        have inner := ih entry.name member recurses
        simp only [childEntries_extends formedBase grown,
          childEntries_extends formedHead grown, childEntries_extends formedRemote grown]
          at inner
        have mergedBelow := inner (wellFormed_childEntries formedBase _)
          (wellFormed_childEntries formedHead _) (wellFormed_childEntries formedRemote _)
          (next :: rest) id ((hasFile_childEntries_iff formedHead.nodup).mpr here)
          (mt (hasFile_childEntries_iff formedBase.nodup).mp changed)
        refine ⟨withId (runs entry.name).child entry, place _ ?_, rfl, directory, ?_⟩
        · simp [dirEmits, recursing, Slots.get, foundHead]
        · simp only [withId, (stands entry.name member recurses).entries]
          exact hasFile_stored.mpr mergedBelow

/-! ## Files nobody changed -/

section

omit [DecidableEq Oid] [Digests Oid]

theorem asFile_of_isDir (directory : isDir entry.mode = true) : asFile (some entry) = none := by
  rw [asFile, Option.filter_eq_none_iff]
  intro other isEntry regular
  cases isEntry
  rw [not_isDir_of_isRegular regular] at directory
  cases directory

theorem slotsAfterFile_of_dirs [DecidableEq Oid] {base head remote : DirEntryData Oid}
    (isBase : slots.base = some base) (isHead : slots.head = some head)
    (isRemote : slots.remote = some remote) (baseDir : isDir base.mode = true)
    (headDir : isDir head.mode = true) (remoteDir : isDir remote.mode = true) :
    slotsAfterFile slots newName = slots := by
  simp [slotsAfterFile, chooseFile, isBase, isHead, isRemote, asFile_of_isDir, baseDir, headDir,
    remoteDir]

end

omit [Digests Oid] in
theorem dirEmits_of_dirs (slots : Slots Oid) {base head remote : DirEntryData Oid}
    (isBase : slots.base = some base) (isHead : slots.head = some head)
    (isRemote : slots.remote = some remote) (baseDir : isDir base.mode = true)
    (headDir : isDir head.mode = true) (remoteDir : isDir remote.mode = true) :
    (∀ child, head ∈ dirEmits slots child) ∨ (∀ child, remote ∈ dirEmits slots child) ∨
      chooseDir slots = .ok (.recurse .head) := by
  simp only [dirEmits, chooseDir, isBase, isHead, isRemote, slotIsDir_some baseDir,
    slotIsDir_some headDir, slotIsDir_some remoteDir]
  split_ifs <;> simp [Slots.get, isHead, isRemote]

theorem merged_keeps_common (grown : Table.Extends store after)
    (level : Merged env after base head remote merged clash) :
    WellFormed store base → WellFormed store head → WellFormed store remote →
    ∀ path id, HasFile store base path id → HasFile store head path id →
      HasFile store remote path id → HasFile after merged path id := by
  induction level with
  | @level base head remote runs named stands deeper ih =>
    intro formedBase formedHead formedRemote path id inBase inHead inRemote
    rcases path with _ | ⟨name, _ | ⟨next, rest⟩⟩
    · exact inHead.elim
    · -- The file table emits head's file when remote has the same.
      obtain ⟨entry, found, regular, rfl⟩ := (hasFile_single_iff formedHead.nodup).mp inHead
      obtain ⟨other, foundRemote, regular', sameId⟩ :=
        (hasFile_single_iff formedRemote.nodup).mp inRemote
      obtain ⟨listed, rfl⟩ := slotAt_eq_some found
      have headFile : asFile (slotAt head entry.name) = some entry :=
        asFile_eq_some.mpr ⟨found, regular⟩
      have remoteFile : asFile (slotAt remote entry.name) = some other :=
        asFile_eq_some.mpr ⟨foundRemote, regular'⟩
      have kept : entry ∈ fileEmits (slotsAt base head remote entry.name)
          (runs entry.name).newName := by
        simp [fileEmits, chooseFile, slotsAt, headFile, remoteFile, sameId]
      have member : entry.name ∈ groupNames base head remote :=
        mem_groupNames (by simp [listed])
      exact ⟨entry, List.mem_flatMap.mpr ⟨entry.name, member, List.mem_append_left _ kept⟩,
        rfl, regular, rfl⟩
    · -- All three have a directory of the name.
      obtain ⟨baseEntry, foundBase, baseDir, -⟩ :=
        (hasFile_cons_iff formedBase.nodup).mp inBase
      obtain ⟨entry, found, directory, below⟩ := (hasFile_cons_iff formedHead.nodup).mp inHead
      obtain ⟨other, foundRemote, otherDir, otherBelow⟩ :=
        (hasFile_cons_iff formedRemote.nodup).mp inRemote
      obtain ⟨listed, rfl⟩ := slotAt_eq_some found
      obtain ⟨otherListed, otherName⟩ := slotAt_eq_some foundRemote
      have member : entry.name ∈ groupNames base head remote :=
        mem_groupNames (by simp [listed])
      have same : slotsAfterFile (slotsAt base head remote entry.name)
          (runs entry.name).newName = slotsAt base head remote entry.name :=
        slotsAfterFile_of_dirs foundBase found foundRemote baseDir directory otherDir
      have place : ∀ kept ∈ dirEmits (slotsAt base head remote entry.name)
          (runs entry.name).child,
          kept ∈ (groupNames base head remote).flatMap fun name =>
            groupEmits (slotsAt base head remote name) (runs name) := fun kept emitted =>
        List.mem_flatMap.mpr ⟨entry.name, member,
          List.mem_append_right _ (same.symm ▸ emitted)⟩
      rcases dirEmits_of_dirs (slotsAt base head remote entry.name) foundBase found foundRemote
        baseDir directory otherDir with emitted | emitted | recursing
      · refine ⟨entry, place entry (emitted _), rfl, directory, ?_⟩
        rw [(formedHead.entryOk listed).entriesOf_extends directory grown]
        exact (hasFile_extends grown (formedHead.child listed directory)).mpr below
      · refine ⟨other, place other (emitted _), otherName, otherDir, ?_⟩
        rw [(formedRemote.entryOk otherListed).entriesOf_extends otherDir grown]
        exact (hasFile_extends grown (formedRemote.child otherListed otherDir)).mpr otherBelow
      · have inner := ih entry.name member ⟨.head, recursing⟩
        simp only [childEntries_extends formedBase grown,
          childEntries_extends formedHead grown, childEntries_extends formedRemote grown]
          at inner
        have hasFile := inner (wellFormed_childEntries formedBase _)
          (wellFormed_childEntries formedHead _) (wellFormed_childEntries formedRemote _)
          (next :: rest) id ((hasFile_childEntries_iff formedBase.nodup).mpr inBase)
          ((hasFile_childEntries_iff formedHead.nodup).mpr inHead)
          ((hasFile_childEntries_iff formedRemote.nodup).mpr inRemote)
        refine hasFile_of_dir (withId (runs entry.name).child entry) (place _ ?_) rfl
          directory ?_
        · have foundHead : (slotsAt base head remote entry.name).head = some entry := found
          simp [dirEmits, recursing, Slots.get, foundHead]
        · rw [show (withId (runs entry.name).child entry).id = (runs entry.name).child from rfl,
            (stands entry.name member ⟨.head, recursing⟩).entries]
          exact hasFile_stored.mpr hasFile

/-! ## Remote's changes -/

omit [Digests Oid] in
theorem remote_slotsAfterFile (slots : Slots Oid) {remote : DirEntryData Oid}
    (present : slots.remote = some remote) (conflictName : ConflictName env remote.name newName) :
    ∃ entry, (slotsAfterFile slots newName).remote = some entry ∧
      KeptOrRenamed env remote.name entry.name ∧ entry.mode = remote.mode ∧
      entry.id = remote.id := by
  unfold slotsAfterFile
  split
  · exact ⟨renamed newName remote, by simp [present], Or.inr conflictName, rfl, rfl⟩
  · exact ⟨remote, present, Or.inl rfl, rfl, rfl⟩

theorem merged_keeps_remote (grown : Table.Extends store after)
    (level : Merged env after base head remote merged clash) :
    WellFormed store base → WellFormed store head → WellFormed store remote →
    ∀ path id, HasFile store remote path id → ¬ HasFile store base path id →
      ∃ path', List.Forall₂ (KeptOrRenamed env) path path' ∧
        HasFile after merged path' id := by
  induction level with
  | @level base head remote runs named stands deeper ih =>
    intro formedBase formedHead formedRemote path id here changed
    rcases path with _ | ⟨name, _ | ⟨next, rest⟩⟩
    · exact here.elim
    · obtain ⟨entry, found, regular, rfl⟩ := (hasFile_single_iff formedRemote.nodup).mp here
      obtain ⟨listed, rfl⟩ := slotAt_eq_some found
      rw [hasFile_single_iff_slotHasId formedBase.nodup, Bool.not_eq_true] at changed
      have member : entry.name ∈ groupNames base head remote :=
        mem_groupNames (by simp [listed])
      have place : ∀ kept ∈ fileEmits (slotsAt base head remote entry.name)
          (runs entry.name).newName,
          kept ∈ (groupNames base head remote).flatMap fun name =>
            groupEmits (slotsAt base head remote name) (runs name) := fun kept emitted =>
        List.mem_flatMap.mpr ⟨entry.name, member, List.mem_append_left _ emitted⟩
      rcases remote_mem_fileEmits (slotsAt base head remote entry.name)
        found regular changed with
        emitted | emitted | ⟨headEntry, foundHead, regularHead, sameId, emitted⟩
      · exact ⟨[entry.name], .cons (Or.inl rfl) .nil, entry, place _ emitted, rfl, regular,
          rfl⟩
      · exact ⟨[(runs entry.name).newName], .cons (Or.inr (named _)) .nil,
          renamed (runs entry.name).newName entry, place _ emitted, rfl, regular, rfl⟩
      · exact ⟨[entry.name], .cons (Or.inl rfl) .nil, headEntry, place _ emitted,
          (slotAt_eq_some foundHead).2, regularHead, sameId⟩
    · obtain ⟨entry, found, directory, below⟩ :=
        (hasFile_cons_iff formedRemote.nodup).mp here
      obtain ⟨listed, rfl⟩ := slotAt_eq_some found
      have member : entry.name ∈ groupNames base head remote :=
        mem_groupNames (by simp [listed])
      have place : ∀ kept ∈ dirEmits (slotsAfterFile (slotsAt base head remote entry.name)
          (runs entry.name).newName) (runs entry.name).child,
          kept ∈ (groupNames base head remote).flatMap fun name =>
            groupEmits (slotsAt base head remote name) (runs name) := fun kept emitted =>
        List.mem_flatMap.mpr ⟨entry.name, member, List.mem_append_right _ emitted⟩
      have samePath : List.Forall₂ (KeptOrRenamed env) (next :: rest) (next :: rest) :=
        List.forall₂_same.mpr fun _ _ => Or.inl rfl
      have keptBelow : HasFile after (entriesOf after entry.id) (next :: rest) id := by
        rw [(formedRemote.entryOk listed).entriesOf_extends directory grown]
        exact (hasFile_extends grown (formedRemote.child listed directory)).mpr below
      obtain ⟨sameBase, sameHead, -⟩ := childEntries_slotsAfterFile store
        (slotsAt base head remote entry.name) (runs entry.name).newName
      obtain ⟨shown, foundShown, keptName, sameMode, sameEntryId⟩ :=
        remote_slotsAfterFile (slotsAt base head remote entry.name)
          found (named entry.name)
      have shownDir : isDir shown.mode = true := sameMode ▸ directory
      -- What a recursion at this name gives, whichever entry is then emitted.
      have mergedBelow : Recurses (slotsAt base head remote entry.name) →
          ∃ path', List.Forall₂ (KeptOrRenamed env) (next :: rest) path' ∧
            HasFile after (entriesOf after (runs entry.name).child) path' id := by
        intro recurses
        have inner := ih entry.name member recurses
        simp only [childEntries_extends formedBase grown,
          childEntries_extends formedHead grown, childEntries_extends formedRemote grown]
          at inner
        obtain ⟨path', renamedBelow, hasFile⟩ := inner (wellFormed_childEntries formedBase _)
          (wellFormed_childEntries formedHead _) (wellFormed_childEntries formedRemote _)
          (next :: rest) id ((hasFile_childEntries_iff formedRemote.nodup).mpr here)
          (mt (hasFile_childEntries_iff formedBase.nodup).mp changed)
        refine ⟨path', renamedBelow, ?_⟩
        rw [(stands entry.name member recurses).entries]
        exact hasFile_stored.mpr hasFile
      rcases remote_dirEmits_cases foundShown shownDir with
        emitted | ⟨headEntry, foundHead, headDir, sameId, emitted⟩ |
        ⟨baseEntry, foundBase, sameId⟩ | ⟨headEntry, foundHead, headDir, recursing⟩ |
        recursing
      · exact ⟨shown.name :: next :: rest, .cons keptName samePath, shown,
          place _ (emitted _), rfl, shownDir, sameEntryId ▸ keptBelow⟩
      · rw [sameHead] at foundHead
        refine ⟨entry.name :: next :: rest, .cons (Or.inl rfl) samePath, headEntry,
          place _ (emitted _), (slotAt_eq_some foundHead).2, headDir, ?_⟩
        rw [sameId, sameEntryId]
        exact keptBelow
      · rw [sameBase] at foundBase
        have ok := formedBase.entryOk (slotAt_eq_some foundBase).1
        refine absurd (sameId.trans sameEntryId)
          (base_id_ne_of_changed ok below fun directoryBase present => ?_)
        exact changed ((hasFile_cons_iff formedBase.nodup).mpr
          ⟨baseEntry, foundBase, directoryBase, present⟩)
      · obtain ⟨path', renamedBelow, hasFile⟩ :=
          mergedBelow ⟨.head, (chooseDir_slotsAfterFile _ _).symm.trans recursing⟩
        rw [sameHead] at foundHead
        refine ⟨entry.name :: path', .cons (Or.inl rfl) renamedBelow, ?_⟩
        refine hasFile_of_dir (withId (runs entry.name).child headEntry)
          (place _ ?_) (slotAt_eq_some foundHead).2 headDir hasFile
        simp [dirEmits, recursing, Slots.get, sameHead, foundHead]
      · obtain ⟨path', renamedBelow, hasFile⟩ :=
          mergedBelow ⟨.remote, (chooseDir_slotsAfterFile _ _).symm.trans recursing⟩
        refine ⟨shown.name :: path', .cons keptName renamedBelow, ?_⟩
        refine hasFile_of_dir (withId (runs entry.name).child shown)
          (place _ ?_) rfl shownDir hasFile
        simp [dirEmits, recursing, Slots.get, foundShown]

/-- Three-way merge loses no change. -/
theorem mergeTrees_loses_no_change [ToString Oid] {env : MergeEnv Oid} {baseRoot headRoot : Oid}
    {store after : FsStore Oid} {outcome : MergeOutcome Oid} (genuine : Genuine store)
    (formedBase : WellFormed store (entriesOf store baseRoot))
    (formedHead : WellFormed store (entriesOf store headRoot))
    (formedRemote : WellFormed store (entriesOf store env.remoteRoot))
    (run : mergeTrees env baseRoot headRoot store = (.ok outcome, after)) :
    (∀ path id, HasFile store (entriesOf store headRoot) path id →
      ¬ HasFile store (entriesOf store baseRoot) path id →
      HasFile after (entriesOf after outcome.mergedRoot) path id) ∧
    (∀ path id, HasFile store (entriesOf store env.remoteRoot) path id →
      ¬ HasFile store (entriesOf store baseRoot) path id →
      ∃ path', List.Forall₂ (KeptOrRenamed env) path path' ∧
        HasFile after (entriesOf after outcome.mergedRoot) path' id) := by
  obtain ⟨grown, -, base, head, remote, merged, standsBase, standsHead, standsRemote,
    standsMerged, level⟩ := mergeTrees_sound genuine run
  rw [standsBase.entries] at formedBase ⊢
  rw [standsHead.entries] at formedHead ⊢
  rw [standsRemote.entries] at formedRemote ⊢
  rw [standsMerged.entries]
  constructor
  · intro path id here changed
    exact hasFile_stored.mpr
      (merged_keeps_head grown level formedBase formedHead formedRemote path id here changed)
  · intro path id here changed
    obtain ⟨path', renamed, hasFile⟩ :=
      merged_keeps_remote grown level formedBase formedHead formedRemote path id here changed
    exact ⟨path', renamed, hasFile_stored.mpr hasFile⟩

theorem mergeTrees_keeps_head [ToString Oid] {baseRoot headRoot : Oid} {outcome : MergeOutcome Oid}
    (genuine : Genuine store) (formedBase : WellFormed store (entriesOf store baseRoot))
    (formedHead : WellFormed store (entriesOf store headRoot))
    (formedRemote : WellFormed store (entriesOf store env.remoteRoot))
    (run : mergeTrees env baseRoot headRoot store = (.ok outcome, after))
    (inHead : HasFile store (entriesOf store headRoot) path id)
    (stays : HasFile store (entriesOf store baseRoot) path id →
      HasFile store (entriesOf store env.remoteRoot) path id) :
    HasFile after (entriesOf after outcome.mergedRoot) path id := by
  obtain ⟨grown, -, base, head, remote, merged, standsBase, standsHead, standsRemote,
    standsMerged, level⟩ := mergeTrees_sound genuine run
  rw [standsBase.entries] at formedBase stays
  rw [standsHead.entries] at formedHead inHead
  rw [standsRemote.entries] at formedRemote stays
  rw [standsMerged.entries]
  refine hasFile_stored.mpr ?_
  by_cases inBase : HasFile store base path id
  · exact merged_keeps_common grown level formedBase formedHead formedRemote path id inBase
      inHead (stays inBase)
  · exact merged_keeps_head grown level formedBase formedHead formedRemote path id inHead inBase

/-! ## Two edits of one file, and a directory only head has -/

def editedBase : FsDirData FreeId := directory [fileEntry "f" (.atom 1) 1]

def editedBelow : FsDirData FreeId := directory [fileEntry "g" (.atom 3) 1]

def editedHead : FsDirData FreeId :=
  directory [fileEntry "f" (.atom 2) 1, dirEntry "d" (Digests.dirId editedBelow)]

def editedRemote : FsDirData FreeId := directory [fileEntry "f" (.atom 4) 1]

def editedStore : FsStore FreeId :=
  ⟨[editedBase, editedBelow, editedHead, editedRemote].map fun data =>
    (Digests.dirId data, .dir data.written)⟩

def editedEnv : MergeEnv FreeId :=
  ⟨defaultLimits, Digests.dirId editedRemote, "user", fun _ => none, fun _ => 0, toString⟩

theorem edited_merge_keeps_both : ∃ outcome after,
    mergeTrees editedEnv (Digests.dirId editedBase) (Digests.dirId editedHead) editedStore =
      (.ok outcome, after) ∧
    HasFile after (entriesOf after outcome.mergedRoot) ["d", "g"] (.atom 3) ∧
    ∃ path, List.Forall₂ (KeptOrRenamed editedEnv) ["f"] path ∧
      HasFile after (entriesOf after outcome.mergedRoot) path (.atom 4) := by
  obtain ⟨outcome, run⟩ := Proc.exists_ok (mergeTrees editedEnv
    (Digests.dirId editedBase) (Digests.dirId editedHead) editedStore) (by decide +kernel)
  have kept := mergeTrees_loses_no_change (genuine_of_rows (by decide))
    (wellFormed_of_check 2 (by decide)) (wellFormed_of_check 2 (by decide))
    (wellFormed_of_check 2 (by decide)) run
  exact ⟨outcome, _, run, kept.1 ["d", "g"] (.atom 3) (by decide) (by decide),
    kept.2 ["f"] (.atom 4) (by decide) (by decide)⟩

end Nanofile
