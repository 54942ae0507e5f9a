import Mathlib.Data.List.TakeWhile
import Nanofile.Fs.PathWalk
import Nanofile.Repository.PathRows

/-!
# Which rows a path selects

Meant are the rows of a path and of everything below it.  A prefix picks these exactly;
the range of the byte order takes along the siblings whose next character sorts before the
slash, and leaves out what begins with the last character there is.
-/

set_option autoImplicit false

namespace Nanofile

open Nanofile.Lib

def underPath (path value : String) : Bool :=
  value = path || (path ++ "/").toList.isPrefixOf value.toList

def movedPath (oldPath newPath value : String) : String :=
  newPath ++ String.ofList (value.toList.drop oldPath.toList.length)

def behindPath (path value : String) : Option (List Char) :=
  if path.toList.isPrefixOf value.toList then some (value.toList.drop path.toList.length) else none

/-- The next character sorts before the slash, or the last character there is follows it. -/
def straysFrom (path value : String) : Bool :=
  match behindPath path value with
  | some (char :: rest) =>
    char < '/' || (char = '/' && rest.head? = some (Char.ofNat 0x10FFFF))
  | _ => false

namespace Sql

theorem readLiteral_cons {char : Char} (notQuote : char ≠ quote) (rest : List Char) :
    readLiteral (char :: rest) = char :: readLiteral rest := by
  cases rest with
  | nil => simp [readLiteral, notQuote]
  | cons next rest => rw [readLiteral, if_neg notQuote]

theorem readLiteral_quotes (rest : List Char) :
    readLiteral (quote :: quote :: rest) = quote :: readLiteral rest := by
  rw [readLiteral, if_pos rfl, if_pos rfl]

theorem literal_escape (value : String) : literal (escape value) = value := by
  have read : ∀ chars : List Char,
      readLiteral ((chars.flatMap fun char => if char = quote then [quote, quote] else [char]) ++
        [quote]) = chars := by
    intro chars
    induction chars with
    | nil => rfl
    | cons char rest ih =>
      rw [List.flatMap_cons, List.append_assoc]
      by_cases isQuote : char = quote
      · rw [if_pos isQuote, isQuote, List.cons_append, List.singleton_append,
          readLiteral_quotes, ih]
      · rw [if_neg isQuote, List.singleton_append, readLiteral_cons isQuote, ih]
  rw [literal, escape, String.toList_ofList, read, String.ofList_toList]

variable {text path value : String}

theorem visible_eq (plain : nul ∉ text.toList) : visible text = text.toList := by
  rw [visible, List.takeWhile_eq_self_iff]
  intro char listed
  exact decide_eq_true fun isNul : char = nul => plain (isNul ▸ listed)

theorem binaryLt_iff {left right : String} : binaryLt left right = true ↔ left.toList < right.toList := by
  rw [binaryLt, decide_eq_true_iff, ByteOrder.asBytes_eq_encode, ByteOrder.asBytes_eq_encode,
    ByteOrder.encode_lt_encode_iff]

end Sql

theorem le_lastChar (char : Char) : ¬ Char.ofNat 0x10FFFF < char := by
  intro less
  have ordered : (0x10FFFF : Nat) < char.val.toNat := less
  rcases char.valid with low | ⟨-, high⟩ <;> omega

variable {path value : String}

theorem inPathRange_iff : inPathRange path value = true ↔
    ∃ rest, value.toList = path.toList ++ rest ∧
      rest < ['/', Char.ofNat 0x10FFFF] := by
  have text : (path ++ beyondSlash).toList = path.toList ++ ['/', Char.ofNat 0x10FFFF] := by
    rw [String.toList_append, beyondSlash, String.toList_ofList]
  rw [inPathRange, Bool.and_eq_true, Bool.not_eq_true', ← Bool.not_eq_true, Sql.binaryLt_iff,
    Sql.binaryLt_iff, text]
  exact ByteOrder.between_iff

theorem underPath_iff : underPath path value = true ↔
    ∃ rest, value.toList = path.toList ++ rest ∧ (rest = [] ∨ ∃ below, rest = '/' :: below) := by
  have slash : (path ++ "/").toList = path.toList ++ ['/'] := String.toList_append
  rw [underPath, Bool.or_eq_true, decide_eq_true_iff, List.isPrefixOf_iff_prefix, slash]
  constructor
  · rintro (rfl | ⟨below, text⟩)
    · exact ⟨[], (List.append_nil _).symm, .inl rfl⟩
    · exact ⟨'/' :: below, by rw [← text, List.append_assoc]; rfl, .inr ⟨below, rfl⟩⟩
  · rintro ⟨rest, text, rfl | ⟨below, rfl⟩⟩
    · exact .inl (String.toList_inj.mp (by rw [text, List.append_nil]))
    · exact .inr ⟨below, by rw [text, List.append_assoc]; rfl⟩

variable {rest : List Char}

theorem behindPath_eq_some_iff :
    behindPath path value = some rest ↔ value.toList = path.toList ++ rest := by
  rw [behindPath]
  constructor
  · intro behind
    split at behind
    · rename_i begins
      obtain ⟨rest', text⟩ := List.isPrefixOf_iff_prefix.mp begins
      rw [← text, List.drop_left] at behind
      rw [← text, Option.some.inj behind]
    · cases behind
  · intro text
    rw [if_pos (List.isPrefixOf_iff_prefix.mpr ⟨rest, text.symm⟩), text, List.drop_left]

theorem straysFrom_iff : straysFrom path value = true ↔
    ∃ char rest, value.toList = path.toList ++ char :: rest ∧
      (char < '/' ∨ char = '/' ∧ rest.head? = some (Char.ofNat 0x10FFFF)) := by
  constructor
  · intro strays
    rw [straysFrom] at strays
    split at strays
    · rename_i char rest behind
      exact ⟨char, rest, behindPath_eq_some_iff.mp behind, by simpa using strays⟩
    · cases strays
  · rintro ⟨char, rest, text, strays⟩
    rw [straysFrom, behindPath_eq_some_iff.mpr text]
    simpa using strays

theorem lt_beyondSlash_iff :
    rest < ['/', Char.ofNat 0x10FFFF] ↔ rest = [] ∨ ∃ char below, rest = char :: below ∧
      (char < '/' ∨ char = '/' ∧ below.head? ≠ some (Char.ofNat 0x10FFFF)) := by
  cases rest with
  | nil => exact ⟨fun _ => .inl rfl, fun _ => List.nil_lt_cons _ _⟩
  | cons char below =>
    have behind : below < [Char.ofNat 0x10FFFF] ↔
        below.head? ≠ some (Char.ofNat 0x10FFFF) := by
      cases below with
      | nil => exact ⟨fun _ => by simp, fun _ => List.nil_lt_cons _ _⟩
      | cons next _ =>
        rw [List.cons_lt_cons_iff]
        constructor
        · rintro (less | ⟨-, none⟩) same
          · exact absurd (Option.some.inj same ▸ less) (lt_irrefl _)
          · exact List.not_lt_nil _ none
        · intro different
          refine .inl (lt_of_le_of_ne (not_lt.mp (le_lastChar next)) fun same => ?_)
          exact different (congrArg some same)
    rw [List.cons_lt_cons_iff, behind]
    constructor
    · intro less
      exact .inr ⟨char, below, rfl, less⟩
    · rintro (none | ⟨_, _, same, less⟩)
      · cases none
      · obtain ⟨rfl, rfl⟩ := List.cons.inj same
        exact less

theorem inPathRange_eq_underPath_iff :
    inPathRange path value = underPath path value ↔ straysFrom path value = false := by
  rw [Bool.eq_iff_iff, ← Bool.not_eq_true, inPathRange_iff, underPath_iff, straysFrom_iff]
  constructor
  · rintro same ⟨char, rest, text, before | ⟨rfl, last⟩⟩
    · obtain ⟨rest', text', none | ⟨below, slash⟩⟩ := same.mp
        ⟨char :: rest, text, lt_beyondSlash_iff.mpr (.inr ⟨char, rest, rfl, .inl before⟩)⟩
      · rw [text, none] at text'
        simp at text'
      · rw [text, slash] at text'
        obtain ⟨rfl, -⟩ := List.cons.inj (List.append_cancel_left text')
        exact absurd before (lt_irrefl _)
    · obtain ⟨rest', text', less⟩ := same.mpr ⟨'/' :: rest, text, .inr ⟨rest, rfl⟩⟩
      rw [text] at text'
      rw [← List.append_cancel_left text'] at less
      rcases lt_beyondSlash_iff.mp less with none | ⟨_, _, same', before | ⟨-, notLast⟩⟩
      · cases none
      · obtain ⟨rfl, -⟩ := List.cons.inj same'
        exact absurd before (lt_irrefl _)
      · obtain ⟨-, rfl⟩ := List.cons.inj same'
        exact notLast last
  · intro noStray
    constructor
    · rintro ⟨rest, text, less⟩
      refine ⟨rest, text, ?_⟩
      rcases lt_beyondSlash_iff.mp less with none | ⟨char, below, rfl, before | ⟨rfl, -⟩⟩
      · exact .inl none
      · exact absurd ⟨char, below, text, .inl before⟩ noStray
      · exact .inr ⟨below, rfl⟩
    · rintro ⟨rest, text, none | ⟨below, rfl⟩⟩
      · exact ⟨rest, text, lt_beyondSlash_iff.mpr (.inl none)⟩
      · refine ⟨'/' :: below, text, lt_beyondSlash_iff.mpr (.inr ⟨'/', below, rfl, .inr ⟨rfl, ?_⟩⟩)⟩
        exact fun last => noStray ⟨'/', below, text, .inr ⟨rfl, last⟩⟩

variable {oldPath newPath : String}

theorem renamedBySubstr_eq (plainPath : Sql.nul ∉ oldPath.toList)
    (plainValue : Sql.nul ∉ value.toList) :
    renamedBySubstr oldPath newPath value = movedPath oldPath newPath value := by
  rw [renamedBySubstr, movedPath, Sql.substrFrom, Sql.visible_eq plainValue, Sql.length,
    Sql.visible_eq plainPath, Nat.add_sub_cancel]

theorem movedPath_eq (text : value.toList = oldPath.toList ++ rest) :
    movedPath oldPath newPath value = newPath ++ String.ofList rest := by
  rw [movedPath, text, List.drop_left]

theorem movedPath_injective {value' : String} (under : underPath oldPath value = true)
    (under' : underPath oldPath value' = true)
    (same : movedPath oldPath newPath value = movedPath oldPath newPath value') :
    value = value' := by
  obtain ⟨rest, text, -⟩ := underPath_iff.mp under
  obtain ⟨rest', text', -⟩ := underPath_iff.mp under'
  rw [movedPath_eq text, movedPath_eq text'] at same
  have rests : rest = rest' := by
    have chars := congrArg String.toList same
    rw [String.toList_append, String.toList_append, String.toList_ofList,
      String.toList_ofList] at chars
    exact List.append_cancel_left chars
  rw [← String.toList_inj, text, text', rests]

namespace FaceTags

theorem substr_eq_prefix_iff (plain : Sql.nul ∉ value.toList) :
    Sql.substr value 1 (pathPrefix path).toList.length = pathPrefix path ↔
      (pathPrefix path).toList <+: value.toList := by
  rw [Sql.substr, Sql.visible_eq plain, Nat.sub_self, List.drop_zero, ← String.toList_inj,
    String.toList_ofList, List.prefix_iff_eq_take]
  exact eq_comm

theorem selects_eq {repoId rowRepoId : String} (plain : Sql.nul ∉ value.toList) :
    selects repoId path rowRepoId value = (rowRepoId = repoId && underPath path value) := by
  rw [selects, underPath, Sql.literal_escape, Sql.literal_escape, Sql.literal_escape]
  congr 2
  rw [Bool.eq_iff_iff, decide_eq_true_iff, List.isPrefixOf_iff_prefix, substr_eq_prefix_iff plain,
    pathPrefix]

end FaceTags

def placesOf (tags : List FileTag) (stars : StarredFiles) (faces : FaceTagTables) :
    List (String × String) :=
  (tags.map fun row => (row.repoId, row.filePath)) ++
    (stars.rows.map fun row => (row.repoId, row.path)) ++
      (faces.scans.map fun row => (row.repoId, row.filePath)) ++
        faces.exclusions.map fun row => (row.repoId, row.filePath)

def inSubtree (repoId path rowRepoId rowPath : String) : Bool :=
  rowRepoId = repoId && underPath path rowPath

def movedTag (oldPath newPath : String) (row : FileTag) : FileTag :=
  { row with filePath := movedPath oldPath newPath row.filePath }

def movedStar (oldPath newPath : String) (row : StarredFile) : StarredFile :=
  { row with path := movedPath oldPath newPath row.path }

/-- The statements touch the rows of the subtree and no other, and agree on them. -/
structure SelectsSubtree (tags : List FileTag) (stars : StarredFiles) (faces : FaceTagTables)
    (repoId path newPath : String) : Prop where
  deleted : FileTags.deleteByPathPrefix tags repoId path =
    tags.filter fun row => !inSubtree repoId path row.repoId row.filePath
  tagsMoved : FileTags.updatePathsForRename tags path newPath repoId =
    tags.map (RowUpdate.updated (fun row => inSubtree repoId path row.repoId row.filePath)
      (movedTag path newPath))
  starsMoved : (stars.updatePathsForRename path newPath repoId).map StarredFiles.rows =
    some (stars.rows.map (RowUpdate.updated
      (fun row => inSubtree repoId path row.repoId row.path) (movedStar path newPath)))
  agree : ∀ place ∈ placesOf tags stars faces,
    FileTags.selects repoId path place.1 place.2 =
        FaceTags.selects repoId path place.1 place.2 ∧
      StarredFiles.selects repoId path place.1 place.2 =
        FaceTags.selects repoId path place.1 place.2

theorem selects_eq_inSubtree {repoId rowRepoId : String}
    (same : rowRepoId = repoId → straysFrom path value = false) :
    FileTags.selects repoId path rowRepoId value = inSubtree repoId path rowRepoId value := by
  rw [FileTags.selects, inSubtree]
  by_cases own : rowRepoId = repoId
  · rw [inPathRange_eq_underPath_iff.mpr (same own)]
  · rw [decide_eq_false own, Bool.false_and, Bool.false_and]

theorem noNul_of_canonicalParts {raw : String} {parts : List String}
    (run : canonicalParts raw = .ok parts) : ∀ part ∈ parts, Sql.nul ∉ part.toList :=
  fun part listed isNul =>
    (legal_canonicalParts run part listed).clean Sql.nul isNul (by decide)

theorem noNul_of_canonicalizePath {raw : String} (run : canonicalizePath raw = .ok path) :
    Sql.nul ∉ path.toList := by
  have joined : ∀ {parts : List String}, (∀ part ∈ parts, Sql.nul ∉ part.toList) →
      Sql.nul ∉ (slashed parts).toList := by
    intro parts plain
    induction parts using List.reverseRecOn with
    | nil => decide
    | append_singleton parts name ih =>
      rw [slashed_concat, String.toList_append, String.toList_append]
      simp only [List.mem_append, not_or]
      exact ⟨⟨ih fun part listed => plain part (List.mem_append_left _ listed), by decide⟩,
        plain name (by simp)⟩
  unfold canonicalizePath at run
  cases canonical : canonicalParts raw with
  | error failure =>
    rw [canonical] at run
    cases run
  | ok parts =>
    rw [canonical] at run
    cases run
    rw [pathOf_eq]
    split
    · decide
    · exact joined (noNul_of_canonicalParts canonical)

variable {raw newPath repoId : String} {tags : List FileTag} {stars : StarredFiles}
  {faces : FaceTagTables}

theorem inSubtree_under {rowRepoId : String}
    (selected : inSubtree repoId path rowRepoId value = true) : underPath path value = true := by
  rw [inSubtree, Bool.and_eq_true] at selected
  exact selected.2

namespace FaceTags

theorem renamedPath_eq (plain : Sql.nul ∉ value.toList) (under : underPath oldPath value = true) :
    renamedPath oldPath newPath value = movedPath oldPath newPath value := by
  have slash : ∀ path : String, (pathPrefix path).toList = path.toList ++ ['/'] :=
    fun _ => String.toList_append
  obtain ⟨rest, text, behind⟩ := underPath_iff.mp under
  rw [movedPath_eq text, renamedPath, Sql.literal_escape, Sql.literal_escape, Sql.literal_escape,
    Sql.literal_escape, ← String.toList_inj]
  obtain rfl | ⟨below, rfl⟩ := behind
  · rw [if_pos (String.toList_inj.mp (by rw [text, List.append_nil])), String.toList_append,
      String.toList_ofList, List.append_nil]
  · have other : value ≠ oldPath := by
      rintro rfl
      exact absurd (List.self_eq_append_right.mp text) (List.cons_ne_nil _ _)
    have text' : value.toList = (pathPrefix oldPath).toList ++ below := by
      rw [text, slash, List.append_assoc, List.singleton_append]
    rw [if_neg other, if_pos ((substr_eq_prefix_iff plain).mpr ⟨below, text'.symm⟩),
      Sql.substrFrom, Sql.visible_eq plain, Nat.add_sub_cancel, text', List.drop_left,
      String.toList_append, String.toList_append, String.toList_ofList, String.toList_ofList, slash,
      List.append_assoc, List.singleton_append]

def movedScan (oldPath newPath : String) (row : FaceTagScan) : FaceTagScan :=
  { row with filePath := movedPath oldPath newPath row.filePath }

def movedExclusion (oldPath newPath : String) (row : FaceTagExclusion) : FaceTagExclusion :=
  { row with filePath := movedPath oldPath newPath row.filePath }

variable {tables : FaceTagTables}

/-- The prefix is exact: a deletion takes the rows of the subtree and no other. -/
theorem deleteByPathPrefix_takes_subtree
    (plainScans : ∀ row ∈ tables.scans, Sql.nul ∉ row.filePath.toList)
    (plainExclusions : ∀ row ∈ tables.exclusions, Sql.nul ∉ row.filePath.toList) :
    (deleteByPathPrefix tables repoId path).scans =
        (tables.scans.filter fun row => !inSubtree repoId path row.repoId row.filePath) ∧
      (deleteByPathPrefix tables repoId path).exclusions =
        tables.exclusions.filter fun row => !inSubtree repoId path row.repoId row.filePath := by
  constructor
  · exact List.filter_congr fun row listed => by rw [selects_eq (plainScans row listed), inSubtree]
  · exact List.filter_congr fun row listed => by
      rw [selects_eq (plainExclusions row listed), inSubtree]

/-- A renaming that went through both tables moved the rows of the subtree and no other. -/
theorem updatePathsForRename_moves_subtree
    (plainScans : ∀ row ∈ tables.scans, Sql.nul ∉ row.filePath.toList)
    (plainExclusions : ∀ row ∈ tables.exclusions, Sql.nul ∉ row.filePath.toList)
    (through : (updatePathsForRename tables oldPath newPath repoId).2 = true) :
    (updatePathsForRename tables oldPath newPath repoId).1.scans =
        tables.scans.map (RowUpdate.updated
          (fun row => inSubtree repoId oldPath row.repoId row.filePath)
          (movedScan oldPath newPath)) ∧
      (updatePathsForRename tables oldPath newPath repoId).1.exclusions =
        tables.exclusions.map (RowUpdate.updated
          (fun row => inSubtree repoId oldPath row.repoId row.filePath)
          (movedExclusion oldPath newPath)) := by
  revert through
  unfold updatePathsForRename
  split
  · exact fun through => absurd through Bool.false_ne_true
  rename_i scans ranScans
  split
  · exact fun through => absurd through Bool.false_ne_true
  rename_i exclusions ranExclusions
  intro _
  refine ⟨(RowUpdate.updateRows_eq_map ranScans).trans (List.map_congr_left fun row listed => ?_),
    (RowUpdate.updateRows_eq_map ranExclusions).trans
      (List.map_congr_left fun row listed => ?_)⟩
  · have plain := plainScans row listed
    rw [RowUpdate.updated, RowUpdate.updated, selects_eq plain, ← inSubtree]
    exact ite_congr rfl (fun selected => by
      rw [movedScan, renamedPath_eq plain (inSubtree_under selected)]) fun _ => rfl
  · have plain := plainExclusions row listed
    rw [RowUpdate.updated, RowUpdate.updated, selects_eq plain, ← inSubtree]
    exact ite_congr rfl (fun selected => by
      rw [movedExclusion, renamedPath_eq plain (inSubtree_under selected)]) fun _ => rfl

end FaceTags

/-- Where no star strays, the statement is the one that is meant, so only its unique index can
stop it. -/
theorem updateStars_eq_some_iff (newPath : String) (plainPath : Sql.nul ∉ path.toList)
    (plain : ∀ row ∈ stars.rows, Sql.nul ∉ row.path.toList)
    (noStray : ∀ row ∈ stars.rows, row.repoId = repoId → straysFrom path row.path = false) :
    (stars.updatePathsForRename path newPath repoId).map StarredFiles.rows =
        some (stars.rows.map (RowUpdate.updated
          (fun row => inSubtree repoId path row.repoId row.path) (movedStar path newPath))) ↔
      RowUpdate.Unclashing StarredFile.key
        (fun row => inSubtree repoId path row.repoId row.path) (movedStar path newPath)
        stars.rows := by
  have sameSelected : ∀ row ∈ stars.rows,
      StarredFiles.selects repoId path row.repoId row.path =
        inSubtree repoId path row.repoId row.path := fun row listed =>
    selects_eq_inSubtree (noStray row listed)
  rw [StarredFiles.map_rows_updatePathsForRename,
    RowUpdate.updateRows_congr ?_, RowUpdate.updateRows_eq_some_iff stars.unique ?_]
  · exact and_iff_right rfl
  · -- two stars of one user that are moved to one path were at one path
    intro row _ other _ selected selected' same
    simp only [StarredFile.key, movedStar, Prod.mk.injEq] at same ⊢
    exact ⟨same.1, same.2.1,
      movedPath_injective (inSubtree_under selected) (inSubtree_under selected') same.2.2⟩
  · intro row listed
    refine ⟨sameSelected row listed, fun selected => ?_⟩
    rw [StarredFiles.renamed, renamedBySubstr_eq plainPath (plain row listed), movedStar]

/-- The statements touch the rows of the subtree exactly when no row of the library strays from
it and no star is in the way of another. -/
theorem pathRows_selectsSubtree_iff (canonical : canonicalizePath raw = .ok path)
    (plain : ∀ place ∈ placesOf tags stars faces, Sql.nul ∉ place.2.toList) :
    SelectsSubtree tags stars faces repoId path newPath ↔
      (∀ place ∈ placesOf tags stars faces, place.1 = repoId →
        straysFrom path place.2 = false) ∧
      RowUpdate.Unclashing StarredFile.key
        (fun row => inSubtree repoId path row.repoId row.path) (movedStar path newPath)
        stars.rows := by
  have plainPath := noNul_of_canonicalizePath canonical
  have tagPlace : ∀ row ∈ tags, (row.repoId, row.filePath) ∈ placesOf tags stars faces :=
    fun row listed => List.mem_append_left _ (List.mem_append_left _ (List.mem_append_left _
      (List.mem_map.mpr ⟨row, listed, rfl⟩)))
  have starPlace : ∀ row ∈ stars.rows, (row.repoId, row.path) ∈ placesOf tags stars faces :=
    fun row listed => List.mem_append_left _ (List.mem_append_left _ (List.mem_append_right _
      (List.mem_map.mpr ⟨row, listed, rfl⟩)))
  have starsMoved_iff := fun noStray : ∀ place ∈ placesOf tags stars faces, place.1 = repoId →
      straysFrom path place.2 = false =>
    updateStars_eq_some_iff newPath plainPath
      (fun row listed => plain _ (starPlace row listed))
      (fun row listed => noStray _ (starPlace row listed))
  constructor
  · intro selects
    have noStray : ∀ place ∈ placesOf tags stars faces, place.1 = repoId →
        straysFrom path place.2 = false := by
      intro place listed own
      have same := (selects.agree place listed).1
      rw [FileTags.selects, FaceTags.selects_eq (plain place listed), decide_eq_true own,
        Bool.true_and, Bool.true_and] at same
      exact inPathRange_eq_underPath_iff.mp same
    exact ⟨noStray, (starsMoved_iff noStray).mp selects.starsMoved⟩
  · rintro ⟨noStray, unclashing⟩
    have sameTag : ∀ row ∈ tags, FileTags.selects repoId path row.repoId row.filePath =
        inSubtree repoId path row.repoId row.filePath := fun row listed =>
      selects_eq_inSubtree (noStray _ (tagPlace row listed))
    refine ⟨?_, ?_, (starsMoved_iff noStray).mpr unclashing, ?_⟩
    · exact List.filter_congr fun row listed => by rw [sameTag row listed]
    · refine List.map_congr_left fun row listed => ?_
      rw [RowUpdate.updated, sameTag row listed, movedTag,
        renamedBySubstr_eq plainPath (plain _ (tagPlace row listed))]
    · intro place listed
      have same : FileTags.selects repoId path place.1 place.2 =
          FaceTags.selects repoId path place.1 place.2 := by
        rw [FaceTags.selects_eq (plain place listed)]
        exact selects_eq_inSubtree (noStray place listed)
      exact ⟨same, same⟩

def tagOf (filePath : String) : FileTag := ⟨1, "r", filePath, 1, 0⟩

def starOf (path : String) : StarredFile := ⟨1, "r", path, 7, false, 0⟩

def starsOf (path : String) : StarredFiles := ⟨[starOf path], List.nodup_singleton _⟩

def noFaceTags : FaceTagTables := ⟨[], [], List.nodup_nil, List.nodup_nil⟩

theorem pathRows_selectsSubtree_docs :
    SelectsSubtree [tagOf "/docs/a"] (starsOf "/docs") noFaceTags "r" "/docs" "/old" := by
  refine (pathRows_selectsSubtree_iff
    (show canonicalizePath "/docs" = .ok "/docs" by decide) (by decide)).mpr
    ⟨by decide, ?_⟩
  intro before row after split _
  have alone : before = [] ∧ after = [] := by
    have lengths := congrArg List.length split
    simp [starsOf] at lengths
    exact ⟨List.length_eq_zero_iff.mp (by omega), List.length_eq_zero_iff.mp (by omega)⟩
  rw [alone.1, alone.2]
  simp

/-- The tag of the file `a.txt` goes with the directory `a`. -/
theorem pathRows_touch_sibling :
    ¬ ∀ (raw path newPath repoId : String) (tags : List FileTag) (stars : StarredFiles)
        (faces : FaceTagTables), canonicalizePath raw = .ok path → path ≠ "/" →
      (∀ place ∈ placesOf tags stars faces, Sql.nul ∉ place.2.toList) →
        SelectsSubtree tags stars faces repoId path newPath := by
  intro always
  have selects := always "/a" "/a" "/b" "r" [tagOf "/a.txt"] (starsOf "/c") noFaceTags (by decide)
    (by decide) (by decide)
  have same := (selects.agree ("r", "/a.txt") (by decide)).1
  rw [FileTags.selects, FaceTags.selects_eq (by decide), decide_eq_true rfl, Bool.true_and,
    Bool.true_and] at same
  exact absurd (inPathRange_eq_underPath_iff.mp same) (by decide)

end Nanofile
