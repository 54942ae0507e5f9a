import Nanofile.Fs.MergeKeeps

/-!
# A merge without conflicts is the three-way result

Without a conflict no name changes, each name contributes at most one entry, and
the file at every path follows the three-way rule, with one departure by design:
when one side deleted what the other changed, the changed file is kept.
-/

set_option autoImplicit false

namespace Nanofile

open Nanofile.Lib

variable {Oid : Type} [DecidableEq Oid]

/-- The merged file at one path, from the files there in base, head and remote.
The last clause is a delete against a change. -/
def ThreeWay (base head remote merged : Option Oid) : Prop :=
  (head = base → merged = remote) ∧
    (head ≠ base → remote = base ∨ remote = head → merged = head) ∧
    (head ≠ base → remote ≠ base → remote ≠ head →
      (head = none ∧ merged = remote) ∨ (remote = none ∧ merged = head))

section Rule

omit [DecidableEq Oid]

theorem threeWay_head_unchanged (base remote : Option Oid) :
    ThreeWay base base remote remote := by
  simp [ThreeWay]

theorem threeWay_remote_unchanged (base head : Option Oid) : ThreeWay base head base head := by
  simp [ThreeWay]

theorem threeWay_agree (base both : Option Oid) : ThreeWay base both both both := by
  simp [ThreeWay]

theorem ThreeWay.swap_unique {base head remote merged merged' : Option Oid}
    (forward : ThreeWay base head remote merged)
    (backward : ThreeWay base remote head merged') : merged = merged' := by
  obtain ⟨same, oneSided, deleted⟩ := forward
  obtain ⟨same', oneSided', deleted'⟩ := backward
  by_cases headSame : head = base
  · by_cases remoteSame : remote = base
    · rw [same headSame, same' remoteSame, headSame, remoteSame]
    · rw [same headSame, oneSided' remoteSame (Or.inl headSame)]
  · by_cases remoteSame : remote = base
    · rw [oneSided headSame (Or.inl remoteSame), same' remoteSame]
    · by_cases agree : remote = head
      · rw [oneSided headSame (Or.inr agree), oneSided' remoteSame (Or.inr agree.symm), agree]
      · rcases deleted headSame remoteSame agree with ⟨noHead, kept⟩ | ⟨noRemote, kept⟩ <;>
          rcases deleted' remoteSame headSame (Ne.symm agree) with
            ⟨noRemote', kept'⟩ | ⟨noHead', kept'⟩
        · exact absurd (noRemote'.trans noHead.symm) agree
        · rw [kept, kept']
        · rw [kept, kept']
        · exact absurd (noRemote.trans noHead'.symm) agree

end Rule

/-! ## One name without a conflict -/

def dirEmitted (slots : Slots Oid) (child : Oid) : Option (DirEntryData Oid) :=
  match chooseDir slots with
  | .ok (.emit slot) => slots.get slot
  | .ok (.recurse slot) => (slots.get slot).map (withId child)
  | _ => none

/-- The single entry a name contributes when its files do not conflict. -/
def emitted (slots : Slots Oid) (child : Oid) : Option (DirEntryData Oid) :=
  match chooseFile slots with
  | .emit entry => some entry
  | _ => dirEmitted slots child

/-- An entry is a regular file or a directory, and not both. -/
def KindOk (slot : Option (DirEntryData Oid)) : Prop :=
  ∀ entry, slot = some entry → isRegular entry.mode = !isDir entry.mode

def fileId (slot : Option (DirEntryData Oid)) : Option Oid :=
  (asFile slot).map DirEntryData.id

/-- What a slot holds below its name, by what a directory id holds there. -/
def holds (content : Oid → Option Oid) (slot : Option (DirEntryData Oid)) : Option Oid :=
  slot.bind fun entry => if isDir entry.mode then content entry.id else none

variable {entry : DirEntryData Oid} {slot : Option (DirEntryData Oid)}

section

omit [DecidableEq Oid]

theorem slotIsDir_of_asFile (file : asFile slot = some entry) : slotIsDir slot = false := by
  obtain ⟨rfl, regular⟩ := asFile_eq_some.mp file
  simp [slotIsDir, not_isDir_of_isRegular regular]

theorem isDir_of_not_file (kind : KindOk (some entry)) (file : asFile (some entry) = none) :
    isDir entry.mode = true := by
  have complement := kind entry rfl
  cases directory : isDir entry.mode with
  | true => rfl
  | false =>
    rw [directory] at complement
    simp [asFile, complement] at file

theorem slotIsDir_eq_true :
    slotIsDir slot = true ↔ ∃ entry, slot = some entry ∧ isDir entry.mode = true := by
  simp [slotIsDir, Option.any_eq_true]

end

theorem slotHasId_eq_true {id : Oid} :
    slotHasId slot id = true ↔ ∃ entry, slot = some entry ∧ entry.id = id := by
  simp [slotHasId, Option.any_eq_true]

variable {content : Oid → Option Oid}

omit [DecidableEq Oid] in
theorem holds_of_not_dir (notDir : slotIsDir slot = false) : holds content slot = none := by
  cases slot with
  | none => rfl
  | some entry =>
    have clear : isDir entry.mode = false := by simpa [slotIsDir] using notDir
    simp [holds, clear]

theorem dirEmits_eq (slots : Slots Oid) (child : Oid) :
    dirEmits slots child = (dirEmitted slots child).toList := by
  unfold dirEmits dirEmitted
  rcases chooseDir slots with _ | _ | _ | _ <;> rfl

variable {child : Oid} {slots : Slots Oid}

theorem dirEmitted_cases (found : dirEmitted slots child = some entry) :
    isDir entry.mode = true ∧ ∃ side other, slots.get side = some other ∧
      entry.name = other.name := by
  have chosenDir : ∀ side, chooseDir slots = .ok (.emit side) ∨
      chooseDir slots = .ok (.recurse side) → slotIsDir (slots.get side) = true := by
    intro side chosen
    unfold chooseDir at chosen
    split at chosen <;> grind [Slots.get]
  unfold dirEmitted at found
  split at found
  · rename_i side chosen
    obtain ⟨other, present, directory⟩ := slotIsDir_eq_true.mp (chosenDir side (Or.inl chosen))
    rw [present] at found
    cases found
    exact ⟨directory, side, entry, present, rfl⟩
  · rename_i side chosen
    obtain ⟨other, present, directory⟩ := slotIsDir_eq_true.mp (chosenDir side (Or.inr chosen))
    rw [present] at found
    cases found
    exact ⟨directory, side, other, present, rfl⟩
  · simp at found

theorem dirEmitted_of_emit (child : Oid) (kindBase : KindOk slots.base)
    (kindHead : KindOk slots.head) (kindRemote : KindOk slots.remote)
    (chosen : chooseFile slots = .emit entry) : dirEmitted slots child = none := by
  obtain ⟨base, head, remote⟩ := slots
  simp only at kindBase kindHead kindRemote
  have noSlot : slotIsDir (none : Option (DirEntryData Oid)) = false := rfl
  rcases headFile : asFile head with _ | headEntry <;>
    rcases remoteFile : asFile remote with _ | remoteEntry
  · rcases baseFile : asFile base with _ | baseEntry <;>
      simp [chooseFile, headFile, remoteFile, baseFile] at chosen
  · have remoteDir := slotIsDir_of_asFile remoteFile
    cases head with
    | none =>
      simp only [dirEmitted, chooseDir, remoteDir, noSlot]
      cases slotIsDir base <;> rfl
    | some headEntry =>
      rcases baseFile : asFile base with _ | baseEntry
      · simp only [chooseFile, headFile, remoteFile, baseFile] at chosen
        split_ifs at chosen with hasId
        obtain ⟨baseEntry, rfl, sameId⟩ := slotHasId_eq_true.mp hasId
        have baseDir := slotIsDir_some (isDir_of_not_file kindBase baseFile)
        have headDir := slotIsDir_some (isDir_of_not_file kindHead headFile)
        simp [dirEmitted, chooseDir, baseDir, headDir, remoteDir, sameId]
      · simp only [chooseFile, headFile, remoteFile, baseFile, Option.isSome_some] at chosen
        split_ifs at chosen
  · have headDir := slotIsDir_of_asFile headFile
    cases remote with
    | none =>
      simp only [dirEmitted, chooseDir, headDir, noSlot]
      cases slotIsDir base <;> rfl
    | some remoteEntry =>
      rcases baseFile : asFile base with _ | baseEntry
      · simp only [chooseFile, headFile, remoteFile, baseFile] at chosen
        split_ifs at chosen with hasId
        obtain ⟨baseEntry, rfl, sameId⟩ := slotHasId_eq_true.mp hasId
        have baseDir := slotIsDir_some (isDir_of_not_file kindBase baseFile)
        have remoteDir := slotIsDir_some (isDir_of_not_file kindRemote remoteFile)
        simp [dirEmitted, chooseDir, baseDir, headDir, remoteDir, sameId]
      · simp only [chooseFile, headFile, remoteFile, baseFile, Option.isSome_some] at chosen
        split_ifs at chosen
  · have headDir := slotIsDir_of_asFile headFile
    have remoteDir := slotIsDir_of_asFile remoteFile
    simp only [dirEmitted, chooseDir, headDir, remoteDir]
    cases slotIsDir base <;> rfl

theorem groupEmits_of_clean (run : GroupRun Oid) (kindBase : KindOk slots.base)
    (kindHead : KindOk slots.head) (kindRemote : KindOk slots.remote)
    (clean : fileConflicts slots = false) :
    groupEmits slots run = (emitted slots run.child).toList := by
  cases chosen : chooseFile slots with
  | drop => simp [groupEmits, fileEmits, slotsAfterFile, dirEmits_eq, emitted, chosen]
  | emit entry =>
    have none := dirEmitted_of_emit run.child kindBase kindHead kindRemote chosen
    simp [groupEmits, fileEmits, slotsAfterFile, dirEmits_eq, emitted, chosen, none]
  | renameRemote keep | renameRemoteDir head => simp [fileConflicts, chosen] at clean

theorem chooseFile_of_clean (clean : fileConflicts slots = false) :
    (chooseFile slots = .drop ∧
      ThreeWay (fileId slots.base) (fileId slots.head) (fileId slots.remote) none) ∨
    ∃ entry, chooseFile slots = .emit entry ∧
      (asFile slots.head = some entry ∨ asFile slots.remote = some entry) ∧
      ThreeWay (fileId slots.base) (fileId slots.head) (fileId slots.remote)
        (some entry.id) := by
  unfold fileConflicts at clean
  rcases headFile : asFile slots.head with _ | head <;>
    rcases remoteFile : asFile slots.remote with _ | remote <;>
    rcases baseFile : asFile slots.base with _ | base <;>
    simp only [chooseFile, headFile, remoteFile, baseFile, fileId, Option.map_none,
      Option.map_some] at clean ⊢ <;>
    grind [ThreeWay, slotHasId]

theorem threeWay_fileId (slots : Slots Oid) (child : Oid)
    (clean : fileConflicts slots = false) :
    ThreeWay (fileId slots.base) (fileId slots.head) (fileId slots.remote)
      (fileId (emitted slots child)) := by
  rcases chooseFile_of_clean clean with ⟨dropped, rule⟩ | ⟨entry, chosen, file, rule⟩
  · have noFile : fileId (dirEmitted slots child) = none := by
      cases found : dirEmitted slots child with
      | none => rfl
      | some entry =>
        have notRegular : isRegular entry.mode ≠ true := by
          intro regular
          have directory := (dirEmitted_cases found).1
          rw [not_isDir_of_isRegular regular] at directory
          simp at directory
        simp [fileId, asFile, notRegular]
    simpa [emitted, dropped, noFile] using rule
  · have regular : isRegular entry.mode = true := by
      rcases file with file | file <;> exact (asFile_eq_some.mp file).2
    have sameFile : fileId (some entry) = some entry.id := by
      simp [fileId, asFile, Option.filter, regular]
    simpa [emitted, chosen, sameFile] using rule

omit [DecidableEq Oid] in
theorem holds_of_dir (directory : isDir entry.mode = true) :
    holds content (some entry) = content entry.id := by
  simp [holds, directory]

omit [DecidableEq Oid] in
theorem holds_withId (directory : isDir entry.mode = true) :
    holds content (some (withId child entry)) = content child :=
  holds_of_dir directory

/-- The rule below a name, given the rule for the directories merged there.  An id
that a file and a directory of the name share holds nothing. -/
theorem threeWay_dirEmitted (slots : Slots Oid) (shared : ∀ file directory, slots.base = some file →
      slots.head = some directory ∨ slots.remote = some directory →
      isDir file.mode = false → isDir directory.mode = true → file.id = directory.id →
      content directory.id = none)
    (below : Recurses slots → ThreeWay (holds content slots.base) (holds content slots.head)
      (holds content slots.remote) (content child)) :
    ThreeWay (holds content slots.base) (holds content slots.head)
      (holds content slots.remote) (holds content (dirEmitted slots child)) := by
  obtain ⟨base, head, remote⟩ := slots
  simp only at shared below ⊢
  -- A base entry with the id of a directory on one side holds what that side holds.
  have baseHolds : ∀ entry, head = some entry ∨ remote = some entry →
      isDir entry.mode = true → base.map (·.id) = some entry.id →
      holds content base = content entry.id := by
    intro entry side directory sameId
    obtain ⟨file, rfl, same⟩ := Option.map_eq_some_iff.mp sameId
    cases kind : isDir file.mode with
    | true => rw [holds_of_dir kind, same]
    | false =>
      rw [holds_of_not_dir (by simp [slotIsDir, kind]),
        shared file entry rfl side kind directory same]
  rcases headDir : slotIsDir head with _ | _ <;> rcases remoteDir : slotIsDir remote with _ | _
  · rw [holds_of_not_dir headDir, holds_of_not_dir remoteDir]
    have nothing : dirEmitted ⟨base, head, remote⟩ child = none := by
      simp only [dirEmitted, chooseDir, headDir, remoteDir]
      cases slotIsDir base <;> rfl
    rw [nothing]
    exact threeWay_agree _ _
  · obtain ⟨remoteEntry, rfl, directory⟩ := slotIsDir_eq_true.mp remoteDir
    rw [holds_of_not_dir headDir, holds_of_dir directory] at below ⊢
    rcases baseDir : slotIsDir base with _ | _
    · have kept : dirEmitted ⟨base, head, some remoteEntry⟩ child = some remoteEntry := by
        simp [dirEmitted, chooseDir, headDir, remoteDir, baseDir, Slots.get]
      rw [holds_of_not_dir baseDir, kept, holds_of_dir directory]
      exact threeWay_head_unchanged _ _
    · by_cases sameId : base.map (·.id) = some remoteEntry.id
      · have dropped : dirEmitted ⟨base, head, some remoteEntry⟩ child = none := by
          simp [dirEmitted, chooseDir, headDir, remoteDir, baseDir, sameId]
        rw [dropped, baseHolds remoteEntry (Or.inr rfl) directory sameId]
        exact threeWay_remote_unchanged _ _
      · have chosen : chooseDir ⟨base, head, some remoteEntry⟩ = .ok (.recurse .remote) := by
          simp [chooseDir, headDir, remoteDir, baseDir, sameId]
        have kept : dirEmitted ⟨base, head, some remoteEntry⟩ child =
            some (withId child remoteEntry) := by
          simp [dirEmitted, chosen, Slots.get]
        rw [kept, holds_withId directory]
        exact below ⟨.remote, chosen⟩
  · obtain ⟨headEntry, rfl, directory⟩ := slotIsDir_eq_true.mp headDir
    rw [holds_of_not_dir remoteDir, holds_of_dir directory] at below ⊢
    rcases baseDir : slotIsDir base with _ | _
    · have kept : dirEmitted ⟨base, some headEntry, remote⟩ child = some headEntry := by
        simp [dirEmitted, chooseDir, headDir, remoteDir, baseDir, Slots.get]
      rw [holds_of_not_dir baseDir, kept, holds_of_dir directory]
      exact threeWay_remote_unchanged _ _
    · by_cases sameId : base.map (·.id) = some headEntry.id
      · have dropped : dirEmitted ⟨base, some headEntry, remote⟩ child = none := by
          simp [dirEmitted, chooseDir, headDir, remoteDir, baseDir, sameId]
        rw [dropped, baseHolds headEntry (Or.inl rfl) directory sameId]
        exact threeWay_head_unchanged _ _
      · have chosen : chooseDir ⟨base, some headEntry, remote⟩ = .ok (.recurse .head) := by
          simp [chooseDir, headDir, remoteDir, baseDir, sameId]
        have kept : dirEmitted ⟨base, some headEntry, remote⟩ child =
            some (withId child headEntry) := by
          simp [dirEmitted, chosen, Slots.get]
        rw [kept, holds_withId directory]
        exact below ⟨.head, chosen⟩
  · obtain ⟨headEntry, rfl, directory⟩ := slotIsDir_eq_true.mp headDir
    obtain ⟨remoteEntry, rfl, directory'⟩ := slotIsDir_eq_true.mp remoteDir
    rw [holds_of_dir directory, holds_of_dir directory'] at below ⊢
    by_cases agree : headEntry.id = remoteEntry.id
    · have kept : dirEmitted ⟨base, some headEntry, some remoteEntry⟩ child =
          some headEntry := by
        simp [dirEmitted, chooseDir, headDir, remoteDir, agree, Slots.get]
      rw [kept, holds_of_dir directory, agree]
      exact threeWay_agree _ _
    · by_cases sameHead : base.map (·.id) = some headEntry.id
      · have kept : dirEmitted ⟨base, some headEntry, some remoteEntry⟩ child =
            some remoteEntry := by
          simp [dirEmitted, chooseDir, headDir, remoteDir, agree, sameHead, Slots.get]
        rw [kept, holds_of_dir directory', baseHolds headEntry (Or.inl rfl) directory sameHead]
        exact threeWay_head_unchanged _ _
      · by_cases sameRemote : base.map (·.id) = some remoteEntry.id
        · have kept : dirEmitted ⟨base, some headEntry, some remoteEntry⟩ child =
              some headEntry := by
            simp [dirEmitted, chooseDir, headDir, remoteDir, agree, Ne.symm agree, sameRemote,
              Slots.get]
          rw [kept, holds_of_dir directory,
            baseHolds remoteEntry (Or.inr rfl) directory' sameRemote]
          exact threeWay_remote_unchanged _ _
        · have chosen : chooseDir ⟨base, some headEntry, some remoteEntry⟩ =
              .ok (.recurse .head) := by
            simp [chooseDir, headDir, remoteDir, agree, sameHead, sameRemote]
          have kept : dirEmitted ⟨base, some headEntry, some remoteEntry⟩ child =
              some (withId child headEntry) := by
            simp [dirEmitted, chosen, Slots.get]
          rw [kept, holds_withId directory]
          exact below ⟨.head, chosen⟩

theorem holds_emitted (slots : Slots Oid) (kindBase : KindOk slots.base)
    (kindHead : KindOk slots.head) (kindRemote : KindOk slots.remote)
    (clean : fileConflicts slots = false) :
    holds content (emitted slots child) = holds content (dirEmitted slots child) := by
  rcases chooseFile_of_clean clean with ⟨dropped, -⟩ | ⟨entry, chosen, file, -⟩
  · simp [emitted, dropped]
  · have regular : isRegular entry.mode = true := by
      rcases file with file | file <;> exact (asFile_eq_some.mp file).2
    rw [dirEmitted_of_emit child kindBase kindHead kindRemote chosen]
    simp [emitted, chosen, holds, not_isDir_of_isRegular regular]

theorem name_of_emitted {name : String} (clean : fileConflicts slots = false)
    (named : ∀ side other, slots.get side = some other → other.name = name)
    (found : emitted slots child = some entry) : entry.name = name := by
  rcases chooseFile_of_clean clean with ⟨dropped, -⟩ | ⟨kept, chosen, file, -⟩
  · simp only [emitted, dropped] at found
    obtain ⟨-, side, other, present, sameName⟩ := dirEmitted_cases found
    exact sameName.trans (named side other present)
  · simp only [emitted, chosen, Option.some.injEq] at found
    subst found
    rcases file with file | file
    · exact named .head kept (asFile_eq_some.mp file).1
    · exact named .remote kept (asFile_eq_some.mp file).1

/-! ## A whole level -/

variable [Digests Oid]

section

omit [DecidableEq Oid] [Digests Oid]

theorem sublist_flatMap_names {names : List String} {emits : String → List (DirEntryData Oid)}
    (single : ∀ name ∈ names, (emits name).map DirEntryData.name = [] ∨
      (emits name).map DirEntryData.name = [name]) :
    ((names.flatMap emits).map DirEntryData.name).Sublist names := by
  induction names with
  | nil => exact List.Sublist.slnil
  | cons name rest ih =>
    have tail := ih fun other member => single other (List.mem_cons_of_mem _ member)
    rw [List.flatMap_cons, List.map_append]
    rcases single name List.mem_cons_self with none | one
    · rw [none, List.nil_append]
      exact tail.cons name
    · rw [one]
      exact tail.cons_cons name

theorem lookup_stored {names : List String} {emits : String → Option (DirEntryData Oid)}
    (unique : names.Nodup)
    (named : ∀ name entry, emits name = some entry → entry.name = name)
    (absent : ∀ name, name ∉ names → emits name = none) (name : String) :
    lookup (stored (names.flatMap fun name => (emits name).toList)) name =
      (emits name).map DirEntryData.written := by
  have single : ∀ name ∈ names, (emits name).toList.map DirEntryData.name = [] ∨
      (emits name).toList.map DirEntryData.name = [name] := by
    intro name _
    cases found : emits name with
    | none => exact Or.inl rfl
    | some entry => exact Or.inr (by simp [named name entry found])
  have distinct : ((names.flatMap fun name => (emits name).toList).map
      DirEntryData.name).Nodup := (sublist_flatMap_names single).nodup unique
  have distinctStored : ((stored (names.flatMap fun name => (emits name).toList)).map
      DirEntryData.name).Nodup := by
    rw [stored, List.map_map, show DirEntryData.name ∘ DirEntryData.written =
      (DirEntryData.name : DirEntryData Oid → String) from funext written_name]
    exact ((sortDirentsDesc_perm _).map _).nodup_iff.mpr distinct
  refine Option.ext fun entry => ?_
  rw [lookup_eq_some_iff distinctStored]
  simp only [stored, List.mem_map, mem_sortDirentsDesc, List.mem_flatMap, Option.mem_toList,
    Option.map_eq_some_iff]
  constructor
  · rintro ⟨⟨kept, ⟨other, -, found⟩, rfl⟩, sameName⟩
    rw [written_name, named other kept found] at sameName
    subst sameName
    exact ⟨kept, found, rfl⟩
  · rintro ⟨kept, found, rfl⟩
    have member : name ∈ names := by
      by_contra missing
      rw [absent name missing] at found
      simp at found
    exact ⟨⟨kept, ⟨name, member, found⟩, rfl⟩, by rw [written_name, named name kept found]⟩

end

theorem fileAt_nil (store : FsStore Oid) (path : List String) : fileAt store [] path = none := by
  rcases path with _ | ⟨name, _ | ⟨next, rest⟩⟩ <;> rfl

omit [DecidableEq Oid] [Digests Oid] in
theorem fileId_eq_bind (slot : Option (DirEntryData Oid)) :
    fileId slot = slot.bind fun entry => if isRegular entry.mode then some entry.id else none := by
  cases slot with
  | none => rfl
  | some entry => cases regular : isRegular entry.mode <;>
      simp [fileId, asFile, Option.filter, regular]

theorem fileAt_single (store : FsStore Oid) (entries : List (DirEntryData Oid))
    (name : String) : fileAt store entries [name] = fileId (lookup entries name) := by
  rw [fileId_eq_bind]
  rfl

theorem fileAt_below (store : FsStore Oid) (entries : List (DirEntryData Oid))
    (name next : String) (rest : List String) :
    fileAt store entries (name :: next :: rest) =
      holds (fun id => fileAt store (entriesOf store id) (next :: rest))
        (lookup entries name) := rfl

theorem fileAt_childEntries (store : FsStore Oid) (slot : Option (DirEntryData Oid))
    (path : List String) :
    fileAt store (childEntries store slot) path =
      holds (fun id => fileAt store (entriesOf store id) path) slot := by
  cases slot with
  | none => exact fileAt_nil store path
  | some entry => cases directory : isDir entry.mode <;>
      simp [childEntries, holds, directory, fileAt_nil]

variable {store : FsStore Oid}

theorem kindOk_slotAt {entries : List (DirEntryData Oid)} (formed : WellFormed store entries)
    (name : String) : KindOk (slotAt entries name) :=
  fun _ found => (formed.entryOk (slotAt_eq_some found).1).regular_or_dir

variable {after : FsStore Oid}

theorem fileAt_of_shared_id {file directory : DirEntryData Oid} (fileOk : EntryOk store file)
    (dirOk : EntryOk store directory) (notDir : isDir file.mode = false)
    (isDirectory : isDir directory.mode = true) (sameId : file.id = directory.id)
    (path : List String) : fileAt after (entriesOf after directory.id) path = none := by
  have missing : dirBatch store directory.id = none := by
    rcases fileOk with ⟨-, missing⟩ | ⟨isFileDir, -⟩
    · exact sameId ▸ missing
    · rw [notDir] at isFileDir
      simp at isFileDir
  have sentinel : directory.id = emptySha1 := by
    rcases dirOk with ⟨regular, -⟩ | ⟨-, entries, ⟨sentinel, -⟩ | ⟨data, read, -⟩⟩
    · rw [not_isDir_of_isRegular regular] at isDirectory
      simp at isDirectory
    · exact sentinel
    · rw [missing] at read
      simp at read
  rw [sentinel, entriesOf, dirBatch_empty]
  exact fileAt_nil after path

variable {base head remote : List (DirEntryData Oid)}

omit [DecidableEq Oid] [Digests Oid] in
theorem slotsAt_of_not_mem {name : String} (absent : name ∉ groupNames base head remote) :
    slotsAt base head remote name = ⟨none, none, none⟩ := by
  have missing : ∀ entries, (∀ entry ∈ entries, entry ∈ base ++ head ++ remote) →
      slotAt entries name = none := by
    intro entries listed
    cases found : slotAt entries name with
    | none => rfl
    | some entry =>
      obtain ⟨member, rfl⟩ := slotAt_eq_some found
      exact absurd (mem_groupNames (listed entry member)) absent
  rw [slotsAt, missing base (by simp +contextual), missing head (by simp +contextual),
    missing remote (by simp +contextual)]

variable {clash : Bool} {env : MergeEnv Oid} {merged : List (DirEntryData Oid)}

theorem merged_threeWay (grown : Table.Extends store after)
    (level : Merged env after base head remote merged clash) :
    clash = false → WellFormed store base → WellFormed store head → WellFormed store remote →
    ∀ path, ThreeWay (fileAt after base path) (fileAt after head path)
      (fileAt after remote path) (fileAt after (stored merged) path) := by
  induction level with
  | @level base head remote runs named stands deeper ih =>
    intro clean formedBase formedHead formedRemote path
    have cleanFiles : ∀ name, fileConflicts (slotsAt base head remote name) = false := by
      intro name
      by_cases member : name ∈ groupNames base head remote
      · have flags := List.any_eq_false.mp clean name member
        simp only [groupConflicts, Bool.or_eq_true, not_or, Bool.not_eq_true] at flags
        exact flags.1
      · rw [slotsAt_of_not_mem member]
        rfl
    have emits : ∀ name, groupEmits (slotsAt base head remote name) (runs name) =
        (emitted (slotsAt base head remote name) (runs name).child).toList := fun name =>
      groupEmits_of_clean (runs name) (kindOk_slotAt formedBase name)
        (kindOk_slotAt formedHead name) (kindOk_slotAt formedRemote name) (cleanFiles name)
    have found : ∀ name, lookup (stored ((groupNames base head remote).flatMap fun name =>
        groupEmits (slotsAt base head remote name) (runs name))) name =
        (emitted (slotsAt base head remote name) (runs name).child).map
          DirEntryData.written := by
      intro name
      simp only [emits]
      refine lookup_stored (groupNames_nodup base head remote) ?_ ?_ name
      · intro name entry contributed
        refine name_of_emitted (cleanFiles name) ?_ contributed
        intro side other present
        cases side <;> exact (slotAt_eq_some present).2
      · intro name absent
        rw [slotsAt_of_not_mem absent]
        rfl
    rcases path with _ | ⟨name, _ | ⟨next, rest⟩⟩
    · exact threeWay_agree none none
    · simp only [fileAt_single, found]
      have sameFile : fileId ((emitted (slotsAt base head remote name)
          (runs name).child).map DirEntryData.written) =
          fileId (emitted (slotsAt base head remote name) (runs name).child) := by
        rw [fileId_eq_bind, fileId_eq_bind]
        cases emitted (slotsAt base head remote name) (runs name).child <;> simp
      rw [sameFile, ← slotAt_eq_lookup formedBase.nodup, ← slotAt_eq_lookup formedHead.nodup,
        ← slotAt_eq_lookup formedRemote.nodup]
      exact threeWay_fileId (slotsAt base head remote name) _ (cleanFiles name)
    · simp only [fileAt_below, found]
      set content := fun id => fileAt after (entriesOf after id) (next :: rest) with meaning
      have sameHolds : holds content ((emitted (slotsAt base head remote name)
          (runs name).child).map DirEntryData.written) =
          holds content (emitted (slotsAt base head remote name) (runs name).child) := by
        cases emitted (slotsAt base head remote name) (runs name).child <;> simp [holds]
      rw [sameHolds, holds_emitted (slotsAt base head remote name)
        (kindOk_slotAt formedBase name) (kindOk_slotAt formedHead name)
        (kindOk_slotAt formedRemote name) (cleanFiles name),
        ← slotAt_eq_lookup formedBase.nodup, ← slotAt_eq_lookup formedHead.nodup,
        ← slotAt_eq_lookup formedRemote.nodup]
      refine threeWay_dirEmitted (slotsAt base head remote name) ?_ ?_
      · intro file directory present side notDir isDirectory sameId
        have fileOk := formedBase.entryOk (slotAt_eq_some present).1
        have dirOk : EntryOk store directory := by
          rcases side with side | side
          · exact formedHead.entryOk (slotAt_eq_some side).1
          · exact formedRemote.entryOk (slotAt_eq_some side).1
        exact fileAt_of_shared_id fileOk dirOk notDir isDirectory sameId (next :: rest)
      · intro recurses
        have member : name ∈ groupNames base head remote := by
          by_contra absent
          rw [slotsAt_of_not_mem absent] at recurses
          obtain ⟨side, chosen⟩ := recurses
          simp [chooseDir, slotIsDir] at chosen
        have flags := List.any_eq_false.mp clean name member
        simp only [groupConflicts, Bool.or_eq_true, Bool.and_eq_true, decide_eq_true_eq,
          not_or, not_and, Bool.not_eq_true] at flags
        have inner := ih name member recurses (flags.2 recurses)
          (childEntries_extends formedBase grown name ▸ wellFormed_childEntries formedBase name)
          (childEntries_extends formedHead grown name ▸ wellFormed_childEntries formedHead name)
          (childEntries_extends formedRemote grown name ▸
            wellFormed_childEntries formedRemote name) (next :: rest)
        simp only [fileAt_childEntries] at inner
        rw [← (stands name member recurses).entries] at inner
        exact inner

/-! ## Equal roots and swapped sides -/

section

omit [Digests Oid]

theorem settled_of_equal_slots (slots : Slots Oid) (equal : slots.base = slots.head ∨
      slots.base = slots.remote ∨ slots.head = slots.remote) :
    fileConflicts slots = false ∧ ¬ Recurses slots := by
  obtain ⟨base, head, remote⟩ := slots
  constructor
  · unfold fileConflicts
    rcases headFile : asFile head with _ | headEntry <;>
      rcases remoteFile : asFile remote with _ | remoteEntry <;>
      rcases baseFile : asFile base with _ | baseEntry <;>
      simp only [chooseFile, headFile, remoteFile, baseFile] <;>
      grind [slotHasId, asFile_eq_some]
  · rintro ⟨side, chosen⟩
    unfold chooseDir at chosen
    split at chosen <;> grind

theorem fileConflicts_swap (base head remote : Option (DirEntryData Oid)) :
    fileConflicts ⟨base, remote, head⟩ = fileConflicts ⟨base, head, remote⟩ := by
  unfold fileConflicts
  rcases headFile : asFile head with _ | headEntry <;>
    rcases remoteFile : asFile remote with _ | remoteEntry <;>
    rcases baseFile : asFile base with _ | baseEntry <;>
    simp only [chooseFile, headFile, remoteFile, baseFile] <;>
    grind

theorem recurses_swap (base head remote : Option (DirEntryData Oid)) :
    Recurses ⟨base, remote, head⟩ ↔ Recurses ⟨base, head, remote⟩ := by
  unfold Recurses chooseDir
  rcases slotIsDir base with _ | _ <;> rcases slotIsDir head with _ | _ <;>
    rcases slotIsDir remote with _ | _ <;> simp only <;> grind

end

theorem merged_clean_of_equal (level : Merged env after base head remote merged clash)
    (equal : base = head ∨ base = remote ∨ head = remote) : clash = false := by
  cases level with
  | level runs named stands deeper =>
    refine List.any_eq_false.mpr fun name _ => ?_
    have settled := settled_of_equal_slots (slotsAt base head remote name) (by
      rcases equal with rfl | rfl | rfl
      · exact Or.inl rfl
      · exact Or.inr (Or.inl rfl)
      · exact Or.inr (Or.inr rfl))
    simp [groupConflicts, settled.1, settled.2]

theorem merged_clean_of_swap {env' : MergeEnv Oid} {after' : FsStore Oid}
    (grown : Table.Extends store after) (grown' : Table.Extends store after')
    (level : Merged env after base head remote merged clash) :
    clash = false → WellFormed store base → WellFormed store head → WellFormed store remote →
    ∀ merged' clash', Merged env' after' base remote head merged' clash' → clash' = false := by
  induction level with
  | @level base head remote runs named stands deeper ih =>
    intro clean formedBase formedHead formedRemote merged' clash' swapped
    cases swapped with
    | level runs' named' stands' deeper' =>
      refine List.any_eq_false.mpr fun name member => ?_
      have member' : name ∈ groupNames base head remote := by
        simp only [groupNames, (List.perm_insertionSort _ _).mem_iff, List.mem_dedup,
          List.map_append, List.mem_append] at member ⊢
        tauto
      have flags := List.any_eq_false.mp clean name member'
      simp only [groupConflicts, Bool.or_eq_true, Bool.and_eq_true, decide_eq_true_eq,
        not_or, not_and, Bool.not_eq_true] at flags ⊢
      refine ⟨(fileConflicts_swap _ _ _).trans flags.1, fun recurses => ?_⟩
      have recurses' := (recurses_swap _ _ _).mp recurses
      have inner := ih name member' recurses' (flags.2 recurses')
      simp only [childEntries_extends formedBase grown, childEntries_extends formedHead grown,
        childEntries_extends formedRemote grown] at inner
      have below := deeper' name member recurses
      simp only [childEntries_extends formedBase grown',
        childEntries_extends formedHead grown', childEntries_extends formedRemote grown']
        at below
      exact inner (wellFormed_childEntries formedBase name)
        (wellFormed_childEntries formedHead name)
        (wellFormed_childEntries formedRemote name) _ _ below

theorem mergeTrees_level [ToString Oid] {baseRoot headRoot : Oid} {outcome : MergeOutcome Oid}
    (genuine : Genuine store) (formedBase : WellFormed store (entriesOf store baseRoot))
    (formedHead : WellFormed store (entriesOf store headRoot))
    (formedRemote : WellFormed store (entriesOf store env.remoteRoot))
    (run : mergeTrees env baseRoot headRoot store = (.ok outcome, after)) :
    Table.Extends store after ∧
    (∃ merged, Merged env after (entriesOf store baseRoot) (entriesOf store headRoot)
      (entriesOf store env.remoteRoot) merged outcome.conflict) ∧
    (outcome.conflict = false → ∀ path,
      ThreeWay (fileAt store (entriesOf store baseRoot) path)
        (fileAt store (entriesOf store headRoot) path)
        (fileAt store (entriesOf store env.remoteRoot) path)
        (fileAt after (entriesOf after outcome.mergedRoot) path)) := by
  obtain ⟨grown, -, base, head, remote, merged, standsBase, standsHead, standsRemote,
    standsMerged, level⟩ := mergeTrees_sound genuine run
  rw [standsBase.entries] at formedBase ⊢
  rw [standsHead.entries] at formedHead ⊢
  rw [standsRemote.entries] at formedRemote ⊢
  rw [standsMerged.entries]
  refine ⟨grown, ⟨merged, level⟩, fun clean path => ?_⟩
  have here := merged_threeWay grown level clean formedBase formedHead formedRemote path
  rwa [fileAt_extends grown formedBase, fileAt_extends grown formedHead,
    fileAt_extends grown formedRemote] at here

/-- A merge without conflicts is the three-way result up to deletes, two equal
roots never conflict, and the two sides can be swapped. -/
theorem mergeTrees_threeWay [ToString Oid] {env : MergeEnv Oid} {baseRoot headRoot : Oid}
    {store after : FsStore Oid} {outcome : MergeOutcome Oid} (genuine : Genuine store)
    (formedBase : WellFormed store (entriesOf store baseRoot))
    (formedHead : WellFormed store (entriesOf store headRoot))
    (formedRemote : WellFormed store (entriesOf store env.remoteRoot))
    (run : mergeTrees env baseRoot headRoot store = (.ok outcome, after)) :
    (outcome.conflict = false → ∀ path,
      ThreeWay (fileAt store (entriesOf store baseRoot) path)
        (fileAt store (entriesOf store headRoot) path)
        (fileAt store (entriesOf store env.remoteRoot) path)
        (fileAt after (entriesOf after outcome.mergedRoot) path)) ∧
    (baseRoot = headRoot ∨ baseRoot = env.remoteRoot ∨ headRoot = env.remoteRoot →
      outcome.conflict = false) ∧
    (outcome.conflict = false → ∀ env' outcome' after', env'.remoteRoot = headRoot →
      mergeTrees env' baseRoot env.remoteRoot store = (.ok outcome', after') →
      outcome'.conflict = false ∧ ∀ path,
        fileAt after (entriesOf after outcome.mergedRoot) path =
          fileAt after' (entriesOf after' outcome'.mergedRoot) path) := by
  obtain ⟨grown, ⟨merged, level⟩, forward⟩ :=
    mergeTrees_level genuine formedBase formedHead formedRemote run
  refine ⟨forward, ?_, ?_⟩
  · rintro (rfl | same | same)
    · exact merged_clean_of_equal level (Or.inl rfl)
    · exact merged_clean_of_equal level (Or.inr (Or.inl (by rw [same])))
    · exact merged_clean_of_equal level (Or.inr (Or.inr (by rw [same])))
  · rintro clean env' outcome' after' rfl run'
    obtain ⟨grown', ⟨merged', level'⟩, backward⟩ :=
      mergeTrees_level genuine formedBase formedRemote formedHead run'
    have clean' := merged_clean_of_swap grown grown' level clean formedBase formedHead
      formedRemote _ _ level'
    exact ⟨clean', fun path => (forward clean path).swap_unique (backward clean' path)⟩

/-! ## A delete against a change -/

def deletedBase : FsDirData FreeId :=
  directory [fileEntry "f" (.atom 1) 1, fileEntry "g" (.atom 2) 1]

def deletedHead : FsDirData FreeId := directory [fileEntry "g" (.atom 2) 1]

def deletedRemote : FsDirData FreeId :=
  directory [fileEntry "f" (.atom 3) 1, fileEntry "g" (.atom 2) 1]

def deletedStore : FsStore FreeId :=
  ⟨[deletedBase, deletedHead, deletedRemote].map fun data =>
    (Digests.dirId data, .dir data.written)⟩

def deletedEnv : MergeEnv FreeId :=
  ⟨defaultLimits, Digests.dirId deletedRemote, "user", fun _ => none, fun _ => 0, toString⟩

theorem deleted_merge_follows_the_rule : ∃ outcome after,
    mergeTrees deletedEnv (Digests.dirId deletedBase) (Digests.dirId deletedHead) deletedStore =
      (.ok outcome, after) ∧
    (outcome.conflict = false → ∀ path,
      ThreeWay (fileAt deletedStore deletedBase.dirents path)
        (fileAt deletedStore deletedHead.dirents path)
        (fileAt deletedStore deletedRemote.dirents path)
        (fileAt after (entriesOf after outcome.mergedRoot) path)) := by
  obtain ⟨outcome, run⟩ := Proc.exists_ok (mergeTrees deletedEnv
    (Digests.dirId deletedBase) (Digests.dirId deletedHead) deletedStore) (by decide +kernel)
  have merged := mergeTrees_threeWay (genuine_of_rows (by decide))
    (wellFormed_of_check 1 (by decide)) (wellFormed_of_check 1 (by decide))
    (wellFormed_of_check 1 (by decide)) run
  refine ⟨outcome, _, run, fun clean path => ?_⟩
  have here := merged.1 clean path
  rwa [show entriesOf deletedStore (Digests.dirId deletedBase) = deletedBase.dirents by decide,
    show entriesOf deletedStore (Digests.dirId deletedHead) = deletedHead.dirents by decide,
    show entriesOf deletedStore deletedEnv.remoteRoot = deletedRemote.dirents by decide] at here

/-- Head deleted `f`, remote changed it: no conflict is reported, and the file at
`f` is remote's although head disagrees with the base there. -/
theorem delete_against_change_is_kept :
    Genuine deletedStore ∧ WellFormed deletedStore deletedBase.dirents ∧
    WellFormed deletedStore deletedHead.dirents ∧
    WellFormed deletedStore deletedRemote.dirents ∧ ∃ outcome after,
    mergeTrees deletedEnv (Digests.dirId deletedBase) (Digests.dirId deletedHead) deletedStore =
      (.ok outcome, after) ∧ outcome.conflict = false ∧
    fileAt deletedStore deletedHead.dirents ["f"] ≠
      fileAt deletedStore deletedBase.dirents ["f"] ∧
    fileAt after (entriesOf after outcome.mergedRoot) ["f"] ≠
      fileAt deletedStore deletedHead.dirents ["f"] := by
  refine ⟨genuine_of_rows (by decide), wellFormed_of_check 1 (by decide),
    wellFormed_of_check 1 (by decide), wellFormed_of_check 1 (by decide), ?_⟩
  obtain ⟨outcome, run⟩ := Proc.exists_ok (mergeTrees deletedEnv
    (Digests.dirId deletedBase) (Digests.dirId deletedHead) deletedStore) (by decide +kernel)
  have seen : (mergeTrees deletedEnv (Digests.dirId deletedBase) (Digests.dirId deletedHead)
      deletedStore).1.toOption.all (fun outcome => outcome.conflict = false ∧
        fileAt (mergeTrees deletedEnv (Digests.dirId deletedBase) (Digests.dirId deletedHead)
          deletedStore).2 (entriesOf (mergeTrees deletedEnv (Digests.dirId deletedBase)
          (Digests.dirId deletedHead) deletedStore).2 outcome.mergedRoot) ["f"] =
        some (.atom 3)) = true := by decide +kernel
  rw [run] at seen
  obtain ⟨clean, kept⟩ : outcome.conflict = false ∧ _ := by simpa [Except.toOption] using seen
  refine ⟨outcome, _, run, clean, by decide, ?_⟩
  rw [kept]
  decide

end Nanofile
