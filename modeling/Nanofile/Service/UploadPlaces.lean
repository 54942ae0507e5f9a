import Nanofile.Service.CreatedDirs
import Nanofile.Service.SizedUploads

/-!
# Where an upload puts its file

An upload edits the directory that the components of its target lead to.  The new root
has that edit, or an entry without a name where the target has a slash too many.
-/

set_option autoImplicit false

namespace Nanofile

open Nanofile.Lib

variable {Oid : Type} [DecidableEq Oid] [Digests Oid]

theorem trimText_ne_empty {text : String} {char : Char} (listed : char ∈ text.toList)
    (visible : isWhitespaceChar char = false) : trimText text ≠ "" := by
  intro blank
  have chars := congrArg String.toList blank
  rw [trimText, String.toList_ofList, String.toList_empty, List.reverse_eq_nil_iff,
    List.dropWhile_eq_nil_iff] at chars
  have kept : char ∈ text.toList.dropWhile isWhitespaceChar := by
    have split := @List.takeWhile_append_dropWhile Char isWhitespaceChar text.toList
    rw [← split, List.mem_append] at listed
    refine listed.resolve_left fun isBlank => ?_
    rw [List.mem_takeWhile_imp isBlank] at visible
    simp at visible
  rw [chars char (List.mem_reverse.mpr kept)] at visible
  simp at visible

omit [DecidableEq Oid] [Digests Oid] in
theorem generateUniqueFilename_component (existing : List (DirEntryData Oid)) {name : String}
    (noSlash : '/' ∉ name.toList) :
    '/' ∉ (generateUniqueFilename existing name).toList ∧
      ¬ IsDots (generateUniqueFilename existing name) ∧
      trimText (generateUniqueFilename existing name) ≠ "" := by
  have opened : '(' ∈ (generateUniqueFilename existing name).toList := by
    rcases generateUniqueFilename_eq existing name with
      ⟨stem, suffix, number, -, -, same⟩ | ⟨-, number, same⟩ <;>
      simp [same, uniqueCandidate]
  have digits : ∀ count : Nat, '/' ∉ Nat.toDigits 10 count := by
    intro count listed
    exact absurd (Nat.isDigit_of_mem_toDigits (by decide) (by decide) listed) (by decide)
  refine ⟨?_, ?_, trimText_ne_empty opened (by decide)⟩
  · rcases generateUniqueFilename_eq existing name with
      ⟨stem, suffix, number, rfl, -, same⟩ | ⟨-, number, same⟩
    · have parts : '/' ∉ stem.toList ∧ '/' ∉ suffix.toList := by simpa using noSlash
      have count := digits number
      simp [same, uniqueCandidate, parts.1, parts.2, count]
    · have count := digits number
      simp [same, uniqueCandidate, noSlash, count]
  · rintro (isDot | isDots)
    · rw [isDot] at opened
      exact absurd opened (by decide)
    · rw [isDots] at opened
      exact absurd opened (by decide)

def uploadedId (blockIds : List Oid) (totalSize : Int) : Oid :=
  if totalSize = 0 then emptySha1
  else Digests.fileId ⟨blockIds, totalSize, seafMetadataTypeFile, 1⟩

/-- A replacement that finds an entry of the name with the file's id and size. -/
def IdenticalReplace (replace : Bool) (entries : List (DirEntryData Oid)) (name : String)
    (fsId : Oid) (totalSize : Int) : Prop :=
  replace = true ∧ ∃ entry ∈ entries, entry.name = name ∧ entry.id = fsId ∧ entry.size = totalSize

def AlreadyThere (entries : List (DirEntryData Oid)) (name : String) (fsId : Oid) : Prop :=
  ∃ entry, lookup entries name = some entry ∧ entry.id = fsId

omit [Digests Oid] in
theorem addFile_cases (fsId : Oid) (name modifier : String) (totalSize now : Int) (replace : Bool)
    (entries : List (DirEntryData Oid)) :
    (IdenticalReplace replace entries name fsId totalSize ∧
      addFile fsId name modifier totalSize now replace entries = (entries, name)) ∨
    (replace = true ∧ ¬ IdenticalReplace replace entries name fsId totalSize ∧
      addFile fsId name modifier totalSize now replace entries =
        (withoutName name entries ++ [⟨fsId, sIfreg, modifier, now, name, totalSize⟩], name)) ∨
    (replace = false ∧ ∃ effective, lookup entries effective = none ∧
      effective = (if lookup entries name = none then name else generateUniqueFilename entries name) ∧
      addFile fsId name modifier totalSize now replace entries =
        (entries ++ [⟨fsId, sIfreg, modifier, now, effective, totalSize⟩], effective)) := by
  have identicalIff : IdenticalReplace replace entries name fsId totalSize ↔
      (replace && entries.any fun entry =>
        entry.name = name && entry.id = fsId && entry.size = totalSize) = true := by
    simp [IdenticalReplace, and_assoc]
  cases replace with
  | true =>
    by_cases identical : IdenticalReplace true entries name fsId totalSize
    · refine Or.inl ⟨identical, ?_⟩
      rw [addFile, identicalIff.mp identical]
      rfl
    · refine Or.inr (Or.inl ⟨rfl, identical, ?_⟩)
      rw [identicalIff, Bool.not_eq_true] at identical
      rw [addFile, identical]
      rfl
  | false =>
    refine Or.inr (Or.inr ⟨rfl, ?_⟩)
    have free : ∀ other : String, lookup entries other = none ↔
        other ∉ entries.map DirEntryData.name := by
      intro other
      simp [lookup, List.find?_eq_none]
    by_cases taken : lookup entries name = none
    · have absent : (entries.any fun entry => decide (entry.name = name)) = false := by
        rw [lookup, List.find?_eq_none] at taken
        rw [List.any_eq_false]
        exact taken
      refine ⟨name, taken, by rw [if_pos taken], ?_⟩
      simp [addFile, absent]
    · have present : (entries.any fun entry => decide (entry.name = name)) = true := by
        rw [lookup, List.find?_eq_none] at taken
        push Not at taken
        obtain ⟨entry, listed, named⟩ := taken
        exact List.any_eq_true.mpr ⟨entry, listed, named⟩
      refine ⟨generateUniqueFilename entries name,
        (free _).mpr (generateUniqueFilename_fresh entries name), by rw [if_neg taken], ?_⟩
      simp [addFile, present]

omit [Digests Oid] in
theorem addFile_ne_nil (fsId : Oid) (name modifier : String) (totalSize now : Int) (replace : Bool)
    (entries : List (DirEntryData Oid)) :
    (addFile fsId name modifier totalSize now replace entries).1 ≠ [] := by
  rcases addFile_cases fsId name modifier totalSize now replace entries with
    ⟨⟨-, entry, listed, -⟩, same⟩ | ⟨-, -, same⟩ | ⟨-, effective, -, -, same⟩
  · rw [same]
    exact List.ne_nil_of_mem listed
  · simp [same]
  · simp [same]

theorem dirBatch_storeFile (store : FsStore Oid) (data : FsFileData Oid) (fsId : Oid) :
    dirBatch (storeFsFileObject store data).2 fsId = dirBatch store fsId := by
  unfold storeFsFileObject
  split
  · rfl
  · unfold dirBatch
    by_cases isEmpty : fsId = emptySha1
    · rw [if_pos isEmpty, if_pos isEmpty]
    · rw [if_neg isEmpty, if_neg isEmpty]
      dsimp only
      cases present : store.find fsId with
      | some object => rw [Table.extends_insertOrIgnore store _ _ fsId object present]
      | none =>
        cases found : (store.insertOrIgnore (Digests.fileId data) (.file data)).find fsId with
        | none => rfl
        | some object =>
          rcases Table.find_insertOrIgnore_cases found with before | ⟨-, rfl⟩
          · rw [present] at before
            cases before
          · rfl

variable {fsId : Oid} {store : FsStore Oid} {entries : List (DirEntryData Oid)}

theorem StandsFor.of_dirBatch {other : FsStore Oid}
    (same : ∀ id, dirBatch store id = dirBatch other id) (stands : StandsFor store fsId entries) :
    StandsFor other fsId entries :=
  stands.imp id fun ⟨data, read, isEntries⟩ => ⟨data, (same fsId).symm.trans read, isEntries⟩

theorem Resolves.of_dirBatch {other : FsStore Oid}
    (same : ∀ id, dirBatch store id = dirBatch other id) :
    ∀ {parts : List String} {root dir : Oid}, Resolves store parts root dir →
      Resolves other parts root dir := by
  intro parts
  induction parts with
  | nil => exact fun resolves => resolves
  | cons name rest ih =>
    intro root dir resolves
    obtain ⟨entries, entry, stands, found, directory, below⟩ := resolves
    exact ⟨entries, entry, stands.of_dirBatch same, found, directory, ih below⟩

/-- Between the two states a file object was stored. -/
structure FileStored (before after : WebState Oid) : Prop where
  grown : Table.Extends before.repo.fsObjects after.repo.fsObjects
  genuine : Genuine after.repo.fsObjects
  sameDirs : ∀ fsId, dirBatch after.repo.fsObjects fsId = dirBatch before.repo.fsObjects fsId
  repo : after.repo = { before.repo with fsObjects := after.repo.fsObjects }

theorem storeFile_uploaded {state after : WebState Oid} {blockIds : List Oid} {totalSize : Int}
    (genuine : Genuine state.repo.fsObjects)
    (run : Web.storeFile ⟨blockIds, totalSize, seafMetadataTypeFile, 1⟩ state = (.ok fsId, after)) :
    fsId = uploadedId blockIds totalSize ∧ FileStored state after := by
  cases run
  obtain ⟨grown, genuine'⟩ := storeFsFileObject_spec genuine
    (rfl : storeFsFileObject state.repo.fsObjects ⟨blockIds, totalSize, _, 1⟩ = _)
  refine ⟨?_, grown, genuine', fun fsId => dirBatch_storeFile _ _ fsId, rfl⟩
  unfold storeFsFileObject uploadedId
  split <;> rfl

theorem uploadedId_ne_dir (genuine : Genuine store)
    (stands : StandsFor store fsId entries) (blockIds : List Oid) (totalSize : Int)
    (same : fsId = uploadedId blockIds totalSize) : fsId = emptySha1 ∧ totalSize = 0 := by
  have denoted : fsId ≠ emptySha1 → ∃ data, Digests.Denotes fsId (.dir data) := by
    intro nonempty
    obtain ⟨isEmpty, -⟩ | ⟨data, read, -⟩ := stands
    · exact absurd isEmpty nonempty
    · rw [dirBatch, if_neg nonempty] at read
      split at read
      · rename_i listed found
        exact ⟨listed, genuine fsId _ nonempty found⟩
      · simp at read
  unfold uploadedId at same
  split at same
  · rename_i isEmpty
    exact ⟨same, isEmpty⟩
  · have file := Digests.denotes_file (⟨blockIds, totalSize, seafMetadataTypeFile, 1⟩ : FsFileData Oid)
    rw [← same] at file
    have nonempty : fsId ≠ emptySha1 := fun isEmpty =>
      Digests.empty_not_denotes _ (isEmpty ▸ file)
    obtain ⟨data, dir⟩ := denoted nonempty
    exact absurd (Digests.denotes_unique file dir) (by simp)

variable [ToString Oid]

/-- The root of the tree that is edited: HEAD's, or the empty one of a library without HEAD. -/
def EditedRoot (repo : Repo Oid) (path : String) (root : Oid) : Prop :=
  resolveRootFsId repo = .ok root ∨ repo.headCommitId = none ∧ path = "/" ∧ root = emptySha1

/-- What the creation of a file makes of a tree: the edit of the directory its path leads to,
or an entry without a name. -/
structure Uploaded (before after : Repo Oid) (parentPath : String)
    (updateFn : List (DirEntryData Oid) → List (DirEntryData Oid)) (base parent top : Oid)
    (entries : List (DirEntryData Oid)) : Prop where
  grown : Table.Extends before.fsObjects after.fsObjects
  genuine : Genuine after.fsObjects
  isBase : EditedRoot before parentPath base
  isTop : resolveRootFsId after = .ok top
  resolves : Resolves before.fsObjects (pathComponents parentPath) base parent
  stands : StandsFor before.fsObjects parent entries
  edited : "" ∉ segmentsOf parentPath →
    EditedAt after.fsObjects (pureEdit updateFn) (pathComponents parentPath) base top
  misplaced : "" ∈ segmentsOf parentPath → ∃ time child, EditedAt after.fsObjects
    (pureEdit (setChild time "" child)) (namesBefore parentPath) base top

theorem createFileFromBlocks_uploaded {before final : WebState Oid}
    {parentPath name modifier effective : String} {blockIds : List Oid} {totalSize : Int}
    {replace : Bool} (genuine : Genuine before.repo.fsObjects)
    (rooted : parentPath.toList.head? = some '/')
    (run : createFileFromBlocks parentPath name blockIds totalSize modifier replace before =
      (.ok (fsId, effective), final)) :
    ∃ base parent top entries time, fsId = uploadedId blockIds totalSize ∧
      effective = (addFile fsId name modifier totalSize time replace entries).2 ∧
      Uploaded before.repo final.repo parentPath
        (fun listed => (addFile fsId name modifier totalSize time replace listed).1) base parent top
        entries := by
  obtain ⟨time, clocked, tick, run⟩ := Proc.bind_ok_iff.mp run
  obtain ⟨fileId, held, storing, run⟩ := Proc.bind_ok_iff.mp run
  obtain ⟨parent, resolved, resolving, run⟩ := Proc.bind_ok_iff.mp run
  obtain ⟨data, read, reading, run⟩ := Proc.bind_ok_iff.mp run
  obtain ⟨newDir, written, writing, run⟩ := Proc.bind_ok_iff.mp run
  obtain ⟨top, rebuilt, rebuilding, run⟩ := Proc.bind_ok_iff.mp run
  obtain ⟨_, committed, committing, done⟩ := Proc.bind_ok_iff.mp run
  cases done
  have sameRepo : clocked.repo = before.repo := by
    cases tick
    rfl
  obtain ⟨isId, held'⟩ := storeFile_uploaded (sameRepo ▸ genuine) storing
  obtain ⟨isParent, rfl⟩ := Proc.tryRead_ok_iff.mp resolving
  obtain ⟨isData, rfl⟩ := readDir_ok reading
  have stands := standsFor_of_readFsDirData isData
  obtain ⟨more, newStands⟩ := storeDir_spec held'.genuine writing
  obtain ⟨sameStore, isTop⟩ := commitRoot_root committing
  have isFinal : final.repo.fsObjects = rebuilt.repo.fsObjects := sameStore
  have edited : EditedAt written.repo.fsObjects (pureEdit fun listed =>
      (addFile fsId name modifier totalSize time replace listed).1) [] parent.1 newDir :=
    .here (stands.extends more.objects) rfl newStands
  have sameDirs : ∀ id, dirBatch held.repo.fsObjects id = dirBatch before.repo.fsObjects id :=
    fun id => sameRepo ▸ held'.sameDirs id
  have grown : Table.Extends before.repo.fsObjects held.repo.fsObjects := sameRepo ▸ held'.grown
  have sameHead : held.repo = { before.repo with fsObjects := held.repo.fsObjects } :=
    sameRepo ▸ held'.repo
  by_cases atRoot : parentPath = "/"
  · -- The root is edited and nothing is above it.
    subst atRoot
    rw [rebuildAbove, if_pos rfl] at rebuilding
    cases rebuilding
    have isNil : pathComponents "/" = [] := by decide
    have isBase : EditedRoot before.repo "/" parent.1 := by
      rw [uploadParent, if_pos rfl, sameHead] at isParent
      dsimp only at isParent
      split at isParent
      · rename_i noHead
        cases isParent
        exact Or.inr ⟨noHead, rfl, rfl⟩
      · rename_i headId isHead
        simp only [except_bind_ok_iff, okOr_eq_ok_iff] at isParent
        obtain ⟨head, found, same⟩ := isParent
        cases same
        exact Or.inl (resolveRootFsId_eq_ok_iff.mpr ⟨headId, head, isHead, found, rfl⟩)
    refine ⟨parent.1, parent.1, newDir, data.dirents, time, isId, rfl, ?_, ?_, isBase, isTop, ?_,
      stands.of_dirBatch sameDirs, fun _ => ?_, fun blank => absurd blank (by decide)⟩
    · rw [isFinal]
      exact grown.trans more.objects
    · rw [isFinal]
      exact more.genuine
    · rw [isNil]
      rfl
    · rw [isNil, isFinal]
      exact edited
  · rw [uploadParent, if_neg atRoot] at isParent
    obtain ⟨root, isRoot, fromRoot⟩ := except_bind_ok_iff.mp isParent
    obtain ⟨more', good, bad⟩ := rebuildAbove_spelled rooted isRoot fromRoot stands more edited
      rebuilding
    have isBase : resolveRootFsId before.repo = .ok root := by
      rw [sameHead] at isRoot
      exact isRoot
    refine ⟨root, parent.1, top, data.dirents, time, isId, rfl, ?_, ?_, Or.inl isBase, isTop,
      (resolves_of_chain fromRoot).of_dirBatch sameDirs, stands.of_dirBatch sameDirs, ?_, ?_⟩
    · rw [isFinal]
      exact grown.trans more'.objects
    · rw [isFinal]
      exact more'.genuine
    · rw [isFinal]
      exact good
    · rw [isFinal]
      exact bad

end Nanofile
