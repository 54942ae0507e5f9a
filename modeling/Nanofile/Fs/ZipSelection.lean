import Nanofile.Fs.PathWalk
import Nanofile.Fs.Zip

/-!
# What a zip archive contains

In a complete tree the files that are gathered are those at or below the selected names, each
under its path from the parent directory.  The limits decide whether they are returned.
-/

set_option autoImplicit false

namespace Nanofile

open Nanofile.Lib

variable {Oid : Type} [DecidableEq Oid] [Digests Oid]

/-! ## Sizes -/

def zipBytes (files : List (ZipFileEntry Oid)) : Nat :=
  min ((files.map fun file => file.size.toNat).sum) u64Max

omit [DecidableEq Oid] [Digests Oid] in
theorem foldl_addSize (files : List (ZipFileEntry Oid)) {total : Nat} :
    files.foldl (fun total file => addSize total file.size) (min total u64Max) =
      min (total + (files.map fun file => file.size.toNat).sum) u64Max := by
  induction files generalizing total with
  | nil => simp
  | cons file rest ih =>
    have step : addSize (min total u64Max) file.size =
        min (total + file.size.toNat) u64Max := by
      rw [addSize]
      omega
    rw [List.foldl_cons, step, ih, List.map_cons, List.sum_cons, Nat.add_assoc]

/-- A limit that is set is met by the number of files or passed by their bytes. -/
def OverZip (limits : ZipLimits) (count bytes : Nat) : Prop :=
  0 < limits.maxEntries ∧ limits.maxEntries ≤ count ∨ 0 < limits.maxBytes ∧ limits.maxBytes < bytes

instance (limits : ZipLimits) (count bytes : Nat) : Decidable (OverZip limits count bytes) :=
  inferInstanceAs (Decidable (_ ∨ _))

theorem checkZipLimits_eq (count bytes : Nat) (limits : ZipLimits) :
    checkZipLimits count bytes limits =
      if OverZip limits count bytes then .error .tooManyRequests else .ok () := by
  unfold checkZipLimits
  by_cases many : 0 < limits.maxEntries ∧ limits.maxEntries ≤ count
  · have beyond : OverZip limits count bytes := Or.inl many
    rw [if_pos many, if_pos beyond]
  · by_cases big : 0 < limits.maxBytes ∧ limits.maxBytes < bytes
    · have beyond : OverZip limits count bytes := Or.inr big
      rw [if_neg many, if_pos big, if_pos beyond]
    · have within : ¬ OverZip limits count bytes := not_or.mpr ⟨many, big⟩
      rw [if_neg many, if_neg big, if_neg within]

theorem OverZip.mono {limits : ZipLimits} {count more bytes moreBytes : Nat}
    (beyond : OverZip limits count bytes) (le : count ≤ more) (leBytes : bytes ≤ moreBytes) :
    OverZip limits more moreBytes := by
  rcases beyond with ⟨set, many⟩ | ⟨set, big⟩
  · exact .inl ⟨set, Nat.le_trans many le⟩
  · exact .inr ⟨set, Nat.lt_of_lt_of_le big leBytes⟩

/-! ## Paths in the archive -/

def zipPath (parts : List String) : String := parts.foldl entryPath ""

@[simp] theorem zipPath_concat (parts : List String) (name : String) :
    zipPath (parts ++ [name]) = entryPath (zipPath parts) name := by
  rw [zipPath, List.foldl_append]
  rfl

theorem slash_zipPath {parts : List String} (plain : PlainNames parts) (some_ : parts ≠ []) :
    "/" ++ zipPath parts = slashed parts := by
  induction parts using List.reverseRecOn with
  | nil => exact absurd rfl some_
  | append_singleton parts name ih =>
    rw [zipPath_concat, slashed_concat, entryPath]
    by_cases isNil : parts = []
    · rw [isNil, if_pos (by rfl)]
      rfl
    · have above := ih plain.left isNil
      rw [if_neg, ← String.append_assoc, ← String.append_assoc, above]
      intro isEmpty
      rw [isEmpty, String.append_empty] at above
      refine isNil ((pathOf_eq_root_iff plain.left).mp ?_)
      rw [pathOf_eq, ← above, if_neg (by decide)]

theorem zipPath_injective {parts parts' : List String} (plain : PlainNames parts)
    (plain' : PlainNames parts') (some_ : parts ≠ []) (some' : parts' ≠ [])
    (same : zipPath parts = zipPath parts') : parts = parts' := by
  refine pathOf_injective plain plain' ?_
  rw [pathOf_eq, pathOf_eq, if_neg (mt slashed_eq_empty_iff.mp some_),
    if_neg (mt slashed_eq_empty_iff.mp some'), ← slash_zipPath plain some_,
    ← slash_zipPath plain' some', same]

/-! ## The walk below a directory -/

abbrev PartNode (Oid : Type) := Oid × List String

def PartNode.named (node : PartNode Oid) : ZipNode Oid := (node.1, zipPath node.2)

def PartNode.below (node : PartNode Oid) (dirent : DirEntryData Oid) : PartNode Oid :=
  (dirent.id, node.2 ++ [dirent.name])

def partDirs (store : FsStore Oid) (node : PartNode Oid) : List (PartNode Oid) :=
  ((entriesOf store node.1).filter fun dirent => hasDirBit dirent.mode).map node.below

def partFiles (store : FsStore Oid) (node : PartNode Oid) : List (PartNode Oid) :=
  ((entriesOf store node.1).filter fun dirent => !hasDirBit dirent.mode).map node.below

variable {store : FsStore Oid} {limits : ZipLimits}

omit [DecidableEq Oid] [Digests Oid] in
theorem foldl_placeDirent (node : PartNode Oid) (dirents : List (DirEntryData Oid))
    (frontier : ZipFrontier Oid) :
    dirents.foldl (placeDirent node.named.2) frontier =
      (frontier.1 ++ ((dirents.filter fun dirent => hasDirBit dirent.mode).map
          node.below).map PartNode.named,
        frontier.2 ++ ((dirents.filter fun dirent => !hasDirBit dirent.mode).map
          node.below).map PartNode.named) := by
  induction dirents generalizing frontier with
  | nil => simp
  | cons dirent rest ih =>
    have isNode : (node.below dirent).named = (dirent.id, entryPath node.named.2 dirent.name) := by
      rw [PartNode.named, PartNode.below, zipPath_concat]
      rfl
    rw [List.foldl_cons, ih, placeDirent, ← isNode]
    by_cases directory : hasDirBit dirent.mode = true <;> simp [directory]

theorem placeDir_named (node : PartNode Oid) (frontier : ZipFrontier Oid) :
    placeDir store frontier node.named =
      (frontier.1 ++ (partDirs store node).map PartNode.named,
        frontier.2 ++ (partFiles store node).map PartNode.named) := by
  have sameId : node.named.1 = node.1 := rfl
  rw [placeDir, partDirs, partFiles, entriesOf, sameId]
  cases dirBatch store node.1 with
  | none => simp
  | some dirData => exact foldl_placeDirent node dirData.dirents frontier

theorem foldl_placeDir (nodes : List (PartNode Oid)) (frontier : ZipFrontier Oid) :
    (nodes.map PartNode.named).foldl (placeDir store) frontier =
      (frontier.1 ++ (nodes.flatMap (partDirs store)).map PartNode.named,
        frontier.2 ++ (nodes.flatMap (partFiles store)).map PartNode.named) := by
  induction nodes generalizing frontier with
  | nil => simp
  | cons node rest ih =>
    rw [List.map_cons, List.foldl_cons, placeDir_named, ih]
    simp

def filesTo (store : FsStore Oid) (depth : Nat) (frontier : List (PartNode Oid)) :
    List (PartNode Oid) :=
  (levelsTo (partDirs store) depth frontier).flatMap (partFiles store)

theorem filesTo_succ (depth : Nat) (frontier : List (PartNode Oid)) :
    filesTo store (depth + 1) frontier =
      frontier.flatMap (partFiles store) ++
        filesTo store depth (frontier.flatMap (partDirs store)) := by
  rw [filesTo, levelsTo_succ, List.flatMap_append]
  rfl

variable {depth : Nat} {frontier : List (PartNode Oid)}

/-- A walk that the traversal limits leave room for finds every file, or more than it may. -/
theorem zipWalk_finds {tooDeep tooWide : ZipError} {levels visits maxVisits : Nat}
    (found : List (PartNode Oid)) (ends : levelAt (partDirs store) depth frontier = [])
    (deep : depth ≤ levels)
    (wide : visits + (levelsTo (partDirs store) depth frontier).length ≤ maxVisits) :
    levelWalk maxVisits tooDeep tooWide (zipLevel store limits) levels visits
        (frontier.map PartNode.named) (found.map PartNode.named) =
        .ok ((found ++ filesTo store depth frontier).map PartNode.named) ∨
      levelWalk maxVisits tooDeep tooWide (zipLevel store limits) levels visits
          (frontier.map PartNode.named) (found.map PartNode.named) = .error .tooManyRequests ∧
        0 < limits.maxEntries ∧
          limits.maxEntries ≤ (found ++ filesTo store depth frontier).length := by
  induction depth generalizing levels visits frontier found with
  | zero =>
    obtain rfl : frontier = [] := ends
    exact .inl (by simp [levelWalk, filesTo, levelsTo])
  | succ depth ih =>
    cases frontier with
    | nil =>
      refine .inl ?_
      simp [levelWalk, filesTo, levelsTo, levelAt_nil]
    | cons node rest =>
      obtain ⟨levels, rfl⟩ : ∃ less, levels = less + 1 := ⟨levels - 1, by omega⟩
      rw [levelsTo_succ, List.length_append] at wide
      rw [filesTo_succ]
      have notNil : (node :: rest).map PartNode.named =
        node.named :: rest.map PartNode.named := rfl
      rw [notNil, levelWalk, ← notNil, List.length_map, if_neg (by omega), zipLevel,
        List.length_map]
      by_cases full : 0 < limits.maxEntries ∧ limits.maxEntries ≤ found.length
      · rw [if_pos full]
        refine .inr ⟨rfl, full.1, Nat.le_trans full.2 ?_⟩
        rw [List.length_append]
        exact Nat.le_add_right ..
      · rw [if_neg full, foldl_placeDir, List.nil_append, ← List.map_append,
          ← List.append_assoc]
        exact ih (found ++ _) ends (by omega) (by omega)

/-- A walk that succeeds has come to the end of its tree within the traversal limits. -/
theorem zipWalk_ends {tooDeep tooWide : ZipError} {levels visits maxVisits : Nat}
    {found out : List (ZipNode Oid)} (room : visits ≤ maxVisits)
    (run : levelWalk maxVisits tooDeep tooWide (zipLevel store limits) levels visits
      (frontier.map PartNode.named) found = .ok out) :
    ∃ depth ≤ levels, levelAt (partDirs store) depth frontier = [] ∧
      visits + (levelsTo (partDirs store) depth frontier).length ≤ maxVisits := by
  induction levels generalizing visits frontier found with
  | zero =>
    cases frontier with
    | nil => exact ⟨0, Nat.le_refl 0, rfl, room⟩
    | cons node rest => cases run
  | succ levels ih =>
    cases frontier with
    | nil => exact ⟨0, Nat.zero_le _, rfl, room⟩
    | cons node rest =>
      rw [List.map_cons, levelWalk, ← List.map_cons, List.length_map, zipLevel] at run
      by_cases wide : maxVisits < visits + (node :: rest).length
      · rw [if_pos wide] at run
        cases run
      · rw [if_neg wide] at run
        split at run
        · cases run
        · rename_i read
          split at read
          · cases read
          · rw [foldl_placeDir, List.nil_append] at read
            cases read
            obtain ⟨depth, within, ends, few⟩ := ih (by omega) run
            refine ⟨depth + 1, Nat.succ_le_succ within, ends, ?_⟩
            rw [levelsTo_succ, List.length_append]
            omega

/-! ## The files of a directory -/

/-- A stored tree with plain names in which every file has its object. -/
structure CompleteTree (store : FsStore Oid) (root : List (DirEntryData Oid)) : Prop where
  formed : WellFormed store root
  plain : ∀ level, Below store root level → ∀ entry ∈ level,
    entry.name ≠ "" ∧ '/' ∉ entry.name.toList
  stored : ∀ level, Below store root level → ∀ entry ∈ level, isRegular entry.mode = true →
    ∃ file, fileBatch store entry.id = some file

namespace CompleteTree

variable {root : List (DirEntryData Oid)} {entry : DirEntryData Oid}

theorem child (complete : CompleteTree store root) (listed : entry ∈ root)
    (directory : isDir entry.mode = true) : CompleteTree store (entriesOf store entry.id) where
  formed := complete.formed.child listed directory
  plain level below := complete.plain level ((Below.child .root listed directory).trans below)
  stored level below := complete.stored level ((Below.child .root listed directory).trans below)

theorem hasDirBit_eq (complete : CompleteTree store root) (listed : entry ∈ root) :
    hasDirBit entry.mode = isDir entry.mode := by
  rcases complete.formed.entryOk listed with ⟨regular, -⟩ | ⟨directory, -⟩
  · rw [not_hasDirBit_of_isRegular regular, not_isDir_of_isRegular regular]
  · rw [hasDirBit_of_isDir directory, directory]

theorem isRegular_eq (complete : CompleteTree store root) (listed : entry ∈ root) :
    isRegular entry.mode = !hasDirBit entry.mode := by
  rw [complete.hasDirBit_eq listed]
  exact (complete.formed.entryOk listed).regular_or_dir

end CompleteTree

variable {file : PartNode Oid}

theorem mem_filesTo_of_node :
    file ∈ filesTo store depth frontier ↔ ∃ node ∈ frontier, file ∈ filesTo store depth [node] := by
  simp only [filesTo, List.mem_flatMap, mem_levelsTo]
  constructor
  · rintro ⟨dir, ⟨level, above, reached⟩, isFile⟩
    rw [levelAt_flatMap] at reached
    obtain ⟨node, listed, reached⟩ := List.mem_flatMap.mp reached
    exact ⟨node, listed, dir, ⟨level, above, reached⟩, isFile⟩
  · rintro ⟨node, listed, dir, ⟨level, above, reached⟩, isFile⟩
    refine ⟨dir, ⟨level, above, ?_⟩, isFile⟩
    rw [levelAt_flatMap]
    exact List.mem_flatMap.mpr ⟨node, listed, reached⟩

variable {node : PartNode Oid}

theorem levelAt_eq_nil_of_mem (ends : levelAt (partDirs store) depth frontier = [])
    (listed : node ∈ frontier) : levelAt (partDirs store) depth [node] = [] := by
  rw [levelAt_flatMap, List.flatMap_eq_nil_iff] at ends
  exact ends node listed

theorem mem_partFiles_iff (complete : CompleteTree store (entriesOf store node.1)) :
    file ∈ partFiles store node ↔ ∃ name,
      HasFile store (entriesOf store node.1) [name] file.1 ∧ file.2 = node.2 ++ [name] := by
  rw [partFiles, List.mem_map]
  constructor
  · rintro ⟨dirent, isFile, rfl⟩
    obtain ⟨listed, isFile⟩ := List.mem_filter.mp isFile
    rw [← complete.isRegular_eq listed] at isFile
    exact ⟨dirent.name, ⟨dirent, listed, rfl, isFile, rfl⟩, rfl⟩
  · rintro ⟨name, ⟨dirent, listed, rfl, isFile, sameId⟩, samePath⟩
    rw [complete.isRegular_eq listed] at isFile
    exact ⟨dirent, List.mem_filter.mpr ⟨listed, isFile⟩, Prod.ext sameId samePath.symm⟩

theorem mem_filesTo_iff (complete : CompleteTree store (entriesOf store node.1))
    (ends : levelAt (partDirs store) depth [node] = []) :
    file ∈ filesTo store depth [node] ↔
      ∃ below, HasFile store (entriesOf store node.1) below file.1 ∧ file.2 = node.2 ++ below := by
  induction depth generalizing node with
  | zero => cases ends
  | succ depth ih =>
    rw [levelAt_succ, List.flatMap_singleton] at ends
    rw [filesTo_succ, List.flatMap_singleton, List.flatMap_singleton, List.mem_append,
      mem_partFiles_iff complete, mem_filesTo_of_node]
    constructor
    · rintro (⟨name, here, samePath⟩ | ⟨child, isChild, deeper⟩)
      · exact ⟨[name], here, samePath⟩
      · obtain ⟨dirent, isDirent, rfl⟩ := List.mem_map.mp isChild
        obtain ⟨listed, directory⟩ := List.mem_filter.mp isDirent
        rw [complete.hasDirBit_eq listed] at directory
        obtain ⟨below, has, samePath⟩ := (ih (complete.child listed directory)
          (levelAt_eq_nil_of_mem ends isChild)).mp deeper
        refine ⟨dirent.name :: below, ?_, by rw [samePath, PartNode.below, List.append_assoc]; rfl⟩
        cases below with
        | nil => exact absurd has (fun contra => contra)
        | cons next rest => exact ⟨dirent, listed, rfl, directory, has⟩
    · rintro ⟨below, has, samePath⟩
      match below, has with
      | [name], has => exact .inl ⟨name, has, samePath⟩
      | name :: next :: rest, has =>
        obtain ⟨dirent, listed, rfl, directory, has⟩ := has
        have isChild : node.below dirent ∈ partDirs store node := by
          refine List.mem_map_of_mem (List.mem_filter.mpr ⟨listed, ?_⟩)
          rw [complete.hasDirBit_eq listed]
          exact directory
        refine .inr ⟨node.below dirent, isChild, (ih (complete.child listed directory)
          (levelAt_eq_nil_of_mem ends isChild)).mpr ⟨next :: rest, has, ?_⟩⟩
        rw [samePath, PartNode.below, List.append_assoc]
        rfl

omit [DecidableEq Oid] [Digests Oid] in
theorem below_paths_nodup {entries : List (DirEntryData Oid)}
    (unique : (entries.map DirEntryData.name).Nodup) (node : PartNode Oid)
    (kept : DirEntryData Oid → Bool) :
    (((entries.filter kept).map node.below).map Prod.snd).Nodup := by
  have names : ((entries.filter kept).map DirEntryData.name).Nodup :=
    unique.sublist (List.filter_sublist.map _)
  refine List.Nodup.of_map (fun parts : List String => parts.getLast?.getD "") ?_
  have lasts : (((entries.filter kept).map node.below).map Prod.snd).map
      (fun parts => parts.getLast?.getD "") = (entries.filter kept).map DirEntryData.name := by
    rw [List.map_map, List.map_map]
    refine List.map_congr_left fun dirent _ => ?_
    simp [PartNode.below]
  rw [lasts]
  exact names

theorem complete_partDirs {child : PartNode Oid}
    (complete : CompleteTree store (entriesOf store node.1))
    (isChild : child ∈ partDirs store node) :
    CompleteTree store (entriesOf store child.1) := by
  obtain ⟨dirent, isDirent, rfl⟩ := List.mem_map.mp isChild
  obtain ⟨listed, directory⟩ := List.mem_filter.mp isDirent
  rw [complete.hasDirBit_eq listed] at directory
  exact complete.child listed directory

theorem filesTo_nodup (complete : CompleteTree store (entriesOf store node.1)) :
    ((filesTo store depth [node]).map Prod.snd).Nodup := by
  have paths : ((levelsTo (partDirs store) depth [node]).map Prod.snd).Nodup := by
    refine levelsTo_keys_nodup (P := fun node => CompleteTree store (entriesOf store node.1))
      complete ?_ ?_ ?_ depth
    · intro dir here child isChild
      exact complete_partDirs here isChild
    · intro dir here
      exact below_paths_nodup here.formed.nodup dir _
    · intro dir _ child isChild
      obtain ⟨dirent, -, rfl⟩ := List.mem_map.mp isChild
      exact ⟨dirent.name, rfl⟩
  refine nodup_flatMap_concat paths ?_ ?_
  · intro dir reached
    have here : CompleteTree store (entriesOf store dir.1) := by
      refine levelsTo_invariant (P := fun node => CompleteTree store (entriesOf store node.1))
        ?_ ?_ depth dir reached
      · intro node' isNode
        rw [List.mem_singleton.mp isNode]
        exact complete
      · intro dir here child isChild
        exact complete_partDirs here isChild
    exact below_paths_nodup here.formed.nodup dir _
  · intro dir _ file isFile
    obtain ⟨dirent, -, rfl⟩ := List.mem_map.mp isFile
    exact ⟨dirent.name, rfl⟩

/-! ## One directory -/

def zipEntries (store : FsStore Oid) (files : List (PartNode Oid)) : List (ZipFileEntry Oid) :=
  files.filterMap fun node => (fileBatch store node.1).map (zipEntryOf (zipPath node.2))

theorem foldl_addZipFile (files : List (PartNode Oid)) (collected : List (ZipFileEntry Oid))
    (total : Nat) :
    (files.map PartNode.named).foldl (addZipFile store) (collected, total) =
      (collected ++ zipEntries store files,
        (zipEntries store files).foldl (fun total file => addSize total file.size) total) := by
  induction files generalizing collected total with
  | nil => simp [zipEntries]
  | cons node rest ih =>
    have sameId : node.named.1 = node.1 := rfl
    rw [List.map_cons, List.foldl_cons, addZipFile, sameId]
    cases isFile : fileBatch store node.1 with
    | none =>
      have same : zipEntries store (node :: rest) = zipEntries store rest := by
        rw [zipEntries, List.filterMap_cons, isFile]
        rfl
      rw [same]
      exact ih collected total
    | some file =>
      have more : zipEntries store (node :: rest) =
          zipEntryOf (zipPath node.2) file :: zipEntries store rest := by
        rw [zipEntries, List.filterMap_cons, isFile]
        rfl
      dsimp only
      rw [more, ih, List.append_assoc]
      rfl

def ZipFits (walk : Limits) (store : FsStore Oid) (node : PartNode Oid) : Prop :=
  ∃ depth ≤ walk.maxDepth, levelAt (partDirs store) depth [node] = [] ∧
    (levelsTo (partDirs store) depth [node]).length ≤ walk.maxVisits

theorem zipEntries_append (files more : List (PartNode Oid)) :
    zipEntries store (files ++ more) = zipEntries store files ++ zipEntries store more :=
  List.filterMap_append

theorem length_zipEntries {files : List (PartNode Oid)}
    (stored : ∀ node ∈ files, ∃ file, fileBatch store node.1 = some file) :
    (zipEntries store files).length = files.length := by
  induction files with
  | nil => rfl
  | cons node rest ih =>
    obtain ⟨file, isFile⟩ := stored node List.mem_cons_self
    rw [zipEntries, List.filterMap_cons, isFile, List.length_cons]
    exact congrArg Nat.succ (ih fun other listed => stored other (List.mem_cons_of_mem _ listed))

section

omit [DecidableEq Oid] [Digests Oid]

theorem foldl_addSize_zero (files : List (ZipFileEntry Oid)) :
    files.foldl (fun total file => addSize total file.size) 0 = zipBytes files := by
  have fromZero : (0 : Nat) = min 0 u64Max := (Nat.zero_min _).symm
  rw [fromZero, foldl_addSize, Nat.zero_add]
  rfl

theorem foldl_addSize_zipBytes (files more : List (ZipFileEntry Oid)) :
    more.foldl (fun total file => addSize total file.size) (zipBytes files) =
      zipBytes (files ++ more) := by
  rw [zipBytes, foldl_addSize, zipBytes, List.map_append, List.sum_append]

theorem zipBytes_le_append_left (files more : List (ZipFileEntry Oid)) :
    zipBytes files ≤ zipBytes (files ++ more) := by
  rw [zipBytes, zipBytes, List.map_append, List.sum_append]
  omega

theorem zipBytes_le_append_right (files more : List (ZipFileEntry Oid)) :
    zipBytes more ≤ zipBytes (files ++ more) := by
  rw [zipBytes, zipBytes, List.map_append, List.sum_append]
  omega

end

def subtreeFiles (walk : Limits) (store : FsStore Oid) (node : PartNode Oid) :
    List (PartNode Oid) :=
  filesTo store walk.maxDepth [node]

variable [ToString Oid] {walk : Limits} {rootFsId : Oid}

omit [ToString Oid] in
theorem zipWalk_of_node (fits : ZipFits walk store node) :
    levelWalk walk.maxVisits (.app walk.tooDeep) (.app walk.tooWide) (zipLevel store limits)
        walk.maxDepth 0 [node.named] [] =
        .ok ((subtreeFiles walk store node).map PartNode.named) ∨
      levelWalk walk.maxVisits (.app walk.tooDeep) (.app walk.tooWide) (zipLevel store limits)
          walk.maxDepth 0 [node.named] [] = .error .tooManyRequests ∧
        0 < limits.maxEntries ∧ limits.maxEntries ≤ (subtreeFiles walk store node).length := by
  obtain ⟨depth, deep, ends, wide⟩ := fits
  have sameFiles : filesTo store depth [node] = subtreeFiles walk store node := by
    rw [subtreeFiles, filesTo, filesTo, levelsTo_of_end ends deep]
  rw [← sameFiles]
  exact zipWalk_finds [] ends deep (by rw [Nat.zero_add]; exact wide)

variable (limits) in
/-- The files of a directory are returned unless there are too many or they are too large. -/
theorem collectDirEntries_eq {dirPath : String} (notRoot : dirPath ≠ "/")
    (resolved : resolveFsIdFrom store rootFsId dirPath = .ok node.1)
    (fits : ZipFits walk store node)
    (stored : ∀ file ∈ subtreeFiles walk store node, ∃ data, fileBatch store file.1 = some data) :
    collectDirEntries walk store rootFsId dirPath (zipPath node.2) limits =
      if OverZip limits (subtreeFiles walk store node).length
          (zipBytes (zipEntries store (subtreeFiles walk store node))) then
        .error .tooManyRequests
      else .ok (zipEntries store (subtreeFiles walk store node)) := by
  have started : [((node.1, zipPath node.2) : ZipNode Oid)] = [node.named] := rfl
  rw [collectDirEntries, if_neg notRoot, resolved]
  dsimp only [bind, Except.bind]
  rw [started]
  rcases zipWalk_of_node fits with walked | ⟨refused, set, many⟩
  · rw [walked]
    dsimp only
    rw [foldl_addZipFile, List.nil_append, length_zipEntries stored, foldl_addSize_zero,
      checkZipLimits_eq]
    by_cases beyond : OverZip limits (subtreeFiles walk store node).length
        (zipBytes (zipEntries store (subtreeFiles walk store node)))
    · rw [if_pos beyond, if_pos beyond]
    · rw [if_neg beyond, if_neg beyond]
  · have beyond : OverZip limits (subtreeFiles walk store node).length
        (zipBytes (zipEntries store (subtreeFiles walk store node))) := Or.inl ⟨set, many⟩
    rw [refused, if_pos beyond]

/-! ## The selected names -/

def dirFilesOf (walk : Limits) (store : FsStore Oid) (dirents : List (DirEntryData Oid))
    (name : String) : List (PartNode Oid) :=
  match dirents.find? fun dirent => dirent.name = name with
  | some entry => if hasDirBit entry.mode then subtreeFiles walk store (entry.id, [name]) else []
  | none => []

def ownFileOf (dirents : List (DirEntryData Oid)) (name : String) : List (PartNode Oid) :=
  match dirents.find? fun dirent => dirent.name = name with
  | some entry => if hasDirBit entry.mode then [] else [(entry.id, [name])]
  | none => []

def selectedFiles (walk : Limits) (store : FsStore Oid) (dirents : List (DirEntryData Oid))
    (names : List String) : List (PartNode Oid) :=
  names.flatMap (dirFilesOf walk store dirents) ++ names.flatMap (ownFileOf dirents)

def selectionOf (store : FsStore Oid) (below own : List (PartNode Oid)) : ZipSelection Oid where
  allFiles := zipEntries store below
  totalBytes := zipBytes (zipEntries store below)
  pendingFiles := own.map PartNode.named

structure Selectable (walk : Limits) (store : FsStore Oid) (rootFsId : Oid) (parentDir : String)
    (dirents : List (DirEntryData Oid)) (name : String) (entry : DirEntryData Oid) : Prop where
  found : dirents.find? (fun dirent => dirent.name = name) = some entry
  notRoot : (if parentDir = "/" then "/" ++ name else parentDir ++ "/" ++ name) ≠ "/"
  resolved : hasDirBit entry.mode = true → resolveFsIdFrom store rootFsId
    (if parentDir = "/" then "/" ++ name else parentDir ++ "/" ++ name) = .ok entry.id
  fits : hasDirBit entry.mode = true → ZipFits walk store (entry.id, [name])
  stored : ∀ file ∈ dirFilesOf walk store dirents name ++ ownFileOf dirents name,
    ∃ data, fileBatch store file.1 = some data

variable {parentDir name : String} {dirents : List (DirEntryData Oid)} {entry : DirEntryData Oid}

theorem selectName_eq (selectable : Selectable walk store rootFsId parentDir dirents name entry)
    (below own : List (PartNode Oid))
    (stored : ∀ file ∈ below, ∃ data, fileBatch store file.1 = some data) :
    let below' := below ++ dirFilesOf walk store dirents name
    let own' := own ++ ownFileOf dirents name
    selectName walk store rootFsId parentDir dirents limits (selectionOf store below own) name =
        .ok (selectionOf store below' own') ∨
      selectName walk store rootFsId parentDir dirents limits (selectionOf store below own) name =
          .error .tooManyRequests ∧
        OverZip limits (below'.length + own'.length) (zipBytes (zipEntries store below')) := by
  intro below' own'
  have storedBelow : ∀ file ∈ below', ∃ data, fileBatch store file.1 = some data := by
    intro file listed
    rcases List.mem_append.mp listed with listed | listed
    · exact stored file listed
    · exact selectable.stored file (List.mem_append_left _ listed)
  -- once the name's files are found, the check of the totals is all that is left
  have checked : selectName walk store rootFsId parentDir dirents limits
        (selectionOf store below own) name =
      (checkZipLimits (below'.length + own'.length) (zipBytes (zipEntries store below'))
        limits).bind (fun _ => .ok (selectionOf store below' own')) ∨
      selectName walk store rootFsId parentDir dirents limits (selectionOf store below own) name =
          .error .tooManyRequests ∧
        OverZip limits (below'.length + own'.length) (zipBytes (zipEntries store below')) := by
    by_cases directory : hasDirBit entry.mode = true
    · have files : dirFilesOf walk store dirents name =
          subtreeFiles walk store (entry.id, [name]) := by
        rw [dirFilesOf, selectable.found]
        exact if_pos directory
      have alone : own' = own := by
        rw [show own' = own ++ ownFileOf dirents name from rfl, ownFileOf, selectable.found]
        exact (congrArg (own ++ ·) (if_pos directory)).trans (List.append_nil own)
      have notRoot : (if parentDir = "/" then "/" ++ name else parentDir ++ "/" ++ name) ≠ "/" :=
        selectable.notRoot
      have collected := collectDirEntries_eq limits notRoot
        (selectable.resolved directory) (selectable.fits directory) (by
          intro file listed
          refine selectable.stored file (List.mem_append_left _ ?_)
          rw [files]
          exact listed)
      have isName : zipPath [name] = name := rfl
      rw [isName, ← files] at collected
      rw [selectName, selectable.found]
      dsimp only [bind, Except.bind]
      rw [if_pos directory, collected]
      by_cases beyond : OverZip limits (dirFilesOf walk store dirents name).length
          (zipBytes (zipEntries store (dirFilesOf walk store dirents name)))
      · rw [if_pos beyond]
        refine .inr ⟨rfl, beyond.mono ?_ ?_⟩
        · rw [List.length_append]
          omega
        · rw [zipEntries_append]
          exact zipBytes_le_append_right _ _
      · rw [if_neg beyond]
        refine .inl ?_
        have total : (zipEntries store (dirFilesOf walk store dirents name)).foldl
            (fun total file => addSize total file.size) (zipBytes (zipEntries store below)) =
              zipBytes (zipEntries store below') := by
          rw [foldl_addSize_zipBytes, ← zipEntries_append]
        dsimp only [selectionOf]
        rw [total, alone, ← zipEntries_append, length_zipEntries storedBelow, List.length_map]
    · have alone : ownFileOf dirents name = [(entry.id, [name])] := by
        rw [ownFileOf, selectable.found]
        exact if_neg directory
      have files : below' = below := by
        rw [show below' = below ++ dirFilesOf walk store dirents name from rfl, dirFilesOf,
          selectable.found]
        exact (congrArg (below ++ ·) (if_neg directory)).trans (List.append_nil below)
      have pending : own.map PartNode.named ++ [(entry.id, name)] = own'.map PartNode.named := by
        rw [show own' = own ++ ownFileOf dirents name from rfl, alone, List.map_append]
        rfl
      refine .inl ?_
      rw [selectName, selectable.found]
      dsimp only [bind, Except.bind]
      rw [if_neg directory]
      dsimp only [selectionOf]
      rw [files, pending, length_zipEntries stored, List.length_map]
  rw [checkZipLimits_eq] at checked
  by_cases beyond : OverZip limits (below'.length + own'.length) (zipBytes (zipEntries store below'))
  · rw [if_pos beyond] at checked
    exact .inr ⟨checked.elim id And.left, beyond⟩
  · rw [if_neg beyond] at checked
    exact .inl (checked.resolve_right fun refused => beyond refused.2)

variable (limits) in
theorem foldlM_selectName (names : List String)
    (selectable : ∀ name ∈ names, ∃ entry,
      Selectable walk store rootFsId parentDir dirents name entry)
    (below own : List (PartNode Oid))
    (stored : ∀ file ∈ below, ∃ data, fileBatch store file.1 = some data) :
    let below' := below ++ names.flatMap (dirFilesOf walk store dirents)
    let own' := own ++ names.flatMap (ownFileOf dirents)
    names.foldlM (selectName walk store rootFsId parentDir dirents limits)
          (selectionOf store below own) = .ok (selectionOf store below' own') ∨
      names.foldlM (selectName walk store rootFsId parentDir dirents limits)
          (selectionOf store below own) = .error .tooManyRequests ∧
        OverZip limits (below'.length + own'.length) (zipBytes (zipEntries store below')) := by
  induction names generalizing below own with
  | nil =>
    refine .inl ?_
    rw [List.flatMap_nil, List.flatMap_nil, List.append_nil, List.append_nil]
    rfl
  | cons name rest ih =>
    obtain ⟨entry, first⟩ := selectable name List.mem_cons_self
    have storedBelow : ∀ file ∈ below ++ dirFilesOf walk store dirents name,
        ∃ data, fileBatch store file.1 = some data := by
      intro file listed
      rcases List.mem_append.mp listed with listed | listed
      · exact stored file listed
      · exact first.stored file (List.mem_append_left _ listed)
    have later := ih (fun other listed => selectable other (List.mem_cons_of_mem _ listed))
      (below ++ dirFilesOf walk store dirents name) (own ++ ownFileOf dirents name) storedBelow
    rw [List.foldlM_cons, List.flatMap_cons, List.flatMap_cons, ← List.append_assoc,
      ← List.append_assoc]
    rcases selectName_eq first below own stored with added | ⟨refused, beyond⟩
    · rw [added]
      exact later
    · rw [refused]
      refine .inr ⟨rfl, beyond.mono ?_ ?_⟩
      · simp only [List.length_append]
        omega
      · rw [zipEntries_append (below ++ dirFilesOf walk store dirents name)]
        exact zipBytes_le_append_left _ _

omit [ToString Oid] in
theorem foldlM_addSelected (files : List (PartNode Oid))
    (stored : ∀ file ∈ files, ∃ data, fileBatch store file.1 = some data)
    (collected : List (ZipFileEntry Oid)) (total : Nat) :
    (files.map PartNode.named).foldlM (addSelected store) (collected, total) =
      .ok (collected ++ zipEntries store files,
        (zipEntries store files).foldl (fun total file => addSize total file.size) total) := by
  induction files generalizing collected total with
  | nil => simp [zipEntries, pure, Except.pure]
  | cons node rest ih =>
    obtain ⟨file, isFile⟩ := stored node List.mem_cons_self
    have sameId : node.named.1 = node.1 := rfl
    have more : zipEntries store (node :: rest) =
        zipEntryOf (zipPath node.2) file :: zipEntries store rest := by
      rw [zipEntries, List.filterMap_cons, isFile]
      rfl
    rw [List.map_cons, List.foldlM_cons, addSelected, sameId, isFile, more]
    refine (ih (fun other listed => stored other (List.mem_cons_of_mem _ listed)) _ _).trans ?_
    rw [List.append_assoc]
    rfl

variable (limits) in
/-- All files of the selection are returned, unless there are too many or they are too large. -/
theorem collectSelectedEntries_eq {parentDirId : Oid} {dirData : FsDirData Oid}
    {names : List String} (resolved : resolveFsIdFrom store rootFsId parentDir = .ok parentDirId)
    (read : readFsDirData store parentDirId = .ok dirData)
    (selectable : ∀ name ∈ names, ∃ entry,
      Selectable walk store rootFsId parentDir dirData.dirents name entry) :
    let files := selectedFiles walk store dirData.dirents names
    collectSelectedEntries walk store rootFsId parentDir names limits =
      if OverZip limits files.length (zipBytes (zipEntries store files)) then
        .error .tooManyRequests
      else .ok (zipEntries store files) := by
  intro files
  have stored : ∀ file ∈ files, ∃ data, fileBatch store file.1 = some data := by
    intro file listed
    rcases List.mem_append.mp listed with listed | listed
    · obtain ⟨name, selected, listed⟩ := List.mem_flatMap.mp listed
      obtain ⟨entry, first⟩ := selectable name selected
      exact first.stored file (List.mem_append_left _ listed)
    · obtain ⟨name, selected, listed⟩ := List.mem_flatMap.mp listed
      obtain ⟨entry, first⟩ := selectable name selected
      exact first.stored file (List.mem_append_right _ listed)
  have started : (⟨[], 0, []⟩ : ZipSelection Oid) = selectionOf store [] [] := by
    simp [selectionOf, zipEntries, zipBytes]
  rw [collectSelectedEntries, resolved]
  dsimp only [bind, Except.bind]
  rw [read]
  dsimp only
  rw [started]
  have loop := foldlM_selectName limits names selectable [] [] nofun
  simp only [List.nil_append] at loop
  have together : zipEntries store files =
      zipEntries store (names.flatMap (dirFilesOf walk store dirData.dirents)) ++
        zipEntries store (names.flatMap (ownFileOf dirData.dirents)) := zipEntries_append _ _
  rcases loop with selected | ⟨refused, beyond⟩
  · rw [selected]
    dsimp only [selectionOf]
    rw [foldlM_addSelected _ fun file listed => stored file (List.mem_append_right _ listed)]
    dsimp only
    rw [foldl_addSize_zipBytes, ← together, checkZipLimits_eq, length_zipEntries stored]
    by_cases beyond : OverZip limits files.length (zipBytes (zipEntries store files))
    · rw [if_pos beyond, if_pos beyond]
    · rw [if_neg beyond, if_neg beyond]
  · have overAll : OverZip limits files.length (zipBytes (zipEntries store files)) := by
      refine beyond.mono ?_ ?_
      · exact (List.length_append).ge
      · rw [together]
        exact zipBytes_le_append_left _ _
    rw [refused, if_pos overAll]

end Nanofile
