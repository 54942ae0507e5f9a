import Mathlib.Data.List.DropRight
import Nanofile.Fs.SpelledPaths

/-!
# What a canonical path is

A path that is canonicalized leads where it led before and stays as it is from then on.  The
routines around it trim white space, which a legal name may end in: such a name is not
addressed by its own path.
-/

set_option autoImplicit false

namespace Nanofile

open Nanofile.Lib

def namesIn (parts : List String) : Nat :=
  parts.countP fun part => part ≠ "" ∧ part ≠ "." ∧ part ≠ ".."

def parentsIn (parts : List String) : Nat := parts.countP fun part => part = ".."

/-- Some first components go up more often than down. -/
def ClimbsAbove (parts : List String) : Prop :=
  ∃ before, before <+: parts ∧ namesIn before < parentsIn before

variable {parts : List String}

theorem foldlM_goTo_eq_none_iff : ∀ {place : List String},
    parts.foldlM goTo place = none ↔
      ∃ before, before <+: parts ∧ place.length + namesIn before < parentsIn before := by
  induction parts with
  | nil =>
    intro place
    simp [namesIn, parentsIn, pure]
  | cons part rest ih =>
    intro place
    have first : (∃ before, before <+: part :: rest ∧
        place.length + namesIn before < parentsIn before) ↔
        ∃ before, before <+: rest ∧
          place.length + namesIn (part :: before) < parentsIn (part :: before) := by
      constructor
      · rintro ⟨before, isPrefix, climbs⟩
        cases before with
        | nil => simp [parentsIn] at climbs
        | cons first later =>
          obtain ⟨rfl, within⟩ := List.cons_prefix_cons.mp isPrefix
          exact ⟨later, within, climbs⟩
      · rintro ⟨before, isPrefix, climbs⟩
        exact ⟨part :: before, List.cons_prefix_cons.mpr ⟨rfl, isPrefix⟩, climbs⟩
    rw [first, List.foldlM_cons]
    unfold goTo
    by_cases skipped : part = "" ∨ part = "."
    · have notParent : part ≠ ".." := by
        rcases skipped with rfl | rfl <;> decide
      rw [if_pos skipped]
      refine ih.trans (exists_congr fun before => and_congr_right fun _ => ?_)
      rcases skipped with rfl | rfl <;> simp [namesIn, parentsIn]
    · rw [if_neg skipped]
      by_cases parent : part = ".."
      · rw [if_pos parent]
        subst parent
        by_cases atRoot : place = []
        · rw [if_pos atRoot]
          refine iff_of_true rfl ⟨[], List.nil_prefix, ?_⟩
          simp [atRoot, namesIn, parentsIn]
        · have deep := List.length_pos_of_ne_nil atRoot
          rw [if_neg atRoot]
          refine ih.trans (exists_congr fun before => and_congr_right fun _ => ?_)
          simp only [List.length_dropLast, namesIn, parentsIn, List.countP_cons]
          simp
          omega
      · rw [if_neg parent]
        rw [not_or] at skipped
        refine ih.trans (exists_congr fun before => and_congr_right fun _ => ?_)
        simp only [List.length_append, List.length_singleton, namesIn, parentsIn,
          List.countP_cons]
        simp [skipped.1, skipped.2, parent]
        omega

def CanonicalText (text : String) : Prop :=
  ∃ parts, text = pathOf parts ∧ ∀ part ∈ parts, LegalPart part

theorem plainNames_of_legal (legal : ∀ part ∈ parts, LegalPart part) :
    PlainNames parts := fun part listed => ⟨(legal part listed).nonempty, (legal part listed).noSlash⟩

theorem placeOf_pathOf (legal : ∀ part ∈ parts, LegalPart part) :
    placeOf (pathOf parts) = some parts := by
  have plain := plainNames_of_legal legal
  have noDots : ∀ part ∈ Text.split '/' (pathOf parts), part ≠ "." ∧ part ≠ ".." := by
    intro part listed
    by_cases blank : part = ""
    · subst blank
      decide
    · have member : part ∈ pathComponents (pathOf parts) :=
        List.mem_filter.mpr ⟨listed, by simpa using blank⟩
      rw [pathComponents_pathOf plain] at member
      exact ⟨(legal part member).notDot, (legal part member).notDotDot⟩
  rw [placeOf, foldlM_goTo_of_noDots noDots, List.nil_append]
  exact congrArg some (pathComponents_pathOf plain)

variable {path canonical : String}

theorem canonicalizePath_ok_iff :
    canonicalizePath path = .ok canonical ↔
      ∃ parts, canonicalParts path = .ok parts ∧ canonical = pathOf parts := by
  unfold canonicalizePath
  cases canonicalParts path with
  | error failure => simp [Except.map]
  | ok parts => simp [Except.map, eq_comm]

theorem canonicalizePath_pathOf (legal : ∀ part ∈ parts, LegalPart part)
    (short : (pathOf parts).utf8ByteSize ≤ maxPathLen) :
    canonicalizePath (pathOf parts) = .ok (pathOf parts) := by
  have plain := plainPath_pathOf (plainNames_of_legal legal)
  have rooted := plain.rooted
  refine canonicalizePath_ok_iff.mpr ⟨parts, canonicalParts_ok_iff.mpr ⟨?_, rooted, short,
    fun part listed => ?_, placeOf_pathOf legal⟩, rfl⟩
  · intro isEmpty
    rw [isEmpty] at rooted
    cases rooted
  · by_cases blank : part = ""
    · rw [blank]
      exact fun char listed => absurd listed (by simp)
    · have member : part ∈ pathComponents (pathOf parts) :=
        List.mem_filter.mpr ⟨listed, by simpa using blank⟩
      rw [pathComponents_pathOf (plainNames_of_legal legal)] at member
      exact (legal part member).clean

def spelledSize (parts : List String) : Nat := (parts.map fun part => part.utf8ByteSize + 1).sum

theorem utf8ByteSize_slashed (parts : List String) :
    (slashed parts).utf8ByteSize = spelledSize parts := by
  induction parts with
  | nil => rfl
  | cons part rest ih =>
    have slash : "/".utf8ByteSize = 1 := rfl
    simp only [slashed, spelledSize, List.map_cons, String.join_cons, String.utf8ByteSize_append,
      List.sum_cons, slash] at ih ⊢
    rw [ih]
    omega

theorem spelledSize_goTo {pieces : List String} : ∀ {place : List String},
    pieces.foldlM goTo place = some parts →
      spelledSize parts ≤ spelledSize place + spelledSize pieces := by
  induction pieces with
  | nil =>
    intro place run
    cases run
    simp [spelledSize]
  | cons piece rest ih =>
    intro place run
    rw [List.foldlM_cons] at run
    obtain ⟨next, stepped, below⟩ := Option.bind_eq_some_iff.mp run
    have later := ih below
    have here : spelledSize next ≤ spelledSize place + (piece.utf8ByteSize + 1) := by
      unfold goTo at stepped
      split at stepped
      · cases stepped
        omega
      · split at stepped
        · split at stepped
          · cases stepped
          · rename_i deep
            cases stepped
            have whole : spelledSize place = spelledSize (place.dropLast ++ [place.getLast deep]) := by
              rw [List.dropLast_append_getLast]
            simp only [spelledSize, List.map_append, List.sum_append] at whole ⊢
            omega
        · cases stepped
          simp [spelledSize]
    simp only [spelledSize, List.map_cons, List.sum_cons] at later here ⊢
    omega

theorem utf8ByteSize_canonicalizePath (run : canonicalizePath path = .ok canonical) :
    canonical.utf8ByteSize ≤ path.utf8ByteSize := by
  obtain ⟨parts, isParts, rfl⟩ := canonicalizePath_ok_iff.mp run
  obtain ⟨nonempty, rooted, -, -, leads⟩ := canonicalParts_ok_iff.mp isParts
  have whole := slashed_split rooted
  have positive : 0 < path.utf8ByteSize :=
    Nat.pos_of_ne_zero fun isZero => nonempty (String.utf8ByteSize_eq_zero_iff.mp isZero)
  rw [pathOf_eq]
  split
  · exact positive
  · rw [utf8ByteSize_slashed, ← whole, utf8ByteSize_slashed]
    rw [placeOf, split_rooted rooted, List.foldlM_cons] at leads
    have same : goTo [] "" = some [] := rfl
    rw [same] at leads
    have size := spelledSize_goTo leads
    have none : spelledSize [] = 0 := rfl
    rwa [none, Nat.zero_add] at size

theorem canonicalizePath_legal (run : canonicalizePath path = .ok canonical) :
    CanonicalText canonical ∧ canonicalizePath canonical = .ok canonical := by
  have shorter := utf8ByteSize_canonicalizePath run
  obtain ⟨parts, isParts, rfl⟩ := canonicalizePath_ok_iff.mp run
  have legal := legal_canonicalParts isParts
  have short := (canonicalParts_ok_iff.mp isParts).2.2.1
  exact ⟨⟨parts, rfl, legal⟩, canonicalizePath_pathOf legal (shorter.trans short)⟩

theorem safeNormalizePath_legal {normal : String} (run : safeNormalizePath path = .ok normal) :
    CanonicalText normal ∧ canonicalizePath normal = .ok normal := by
  unfold safeNormalizePath at run
  dsimp only at run
  split at run
  · rw [← Except.ok.inj run]
    exact ⟨⟨[], rfl, by simp⟩, by decide +kernel⟩
  · exact canonicalizePath_legal run

theorem canonicalizePath_error_iff :
    (∃ failure, canonicalizePath path = .error failure) ↔ path = "" ∨
      path.toList.head? ≠ some '/' ∨ maxPathLen < path.utf8ByteSize ∨
      (∃ part ∈ Text.split '/' path, ¬ CleanPart part) ∨ ClimbsAbove (Text.split '/' path) := by
  have climbs : placeOf path = none ↔ ClimbsAbove (Text.split '/' path) := by
    rw [placeOf, foldlM_goTo_eq_none_iff]
    simp [ClimbsAbove]
  have fails : (∃ failure, canonicalizePath path = .error failure) ↔
      ¬ ∃ parts, canonicalParts path = .ok parts := by
    unfold canonicalizePath
    cases canonicalParts path with
    | error failure | ok parts => simp [Except.map]
  rw [fails]
  simp only [canonicalParts_ok_iff, not_exists, ← climbs]
  constructor
  · intro never
    by_contra fine
    push Not at fine
    obtain ⟨nonempty, rooted, short, clean, leads⟩ := fine
    obtain ⟨parts, isPlace⟩ := Option.ne_none_iff_exists'.mp leads
    exact never parts ⟨nonempty, rooted, short, clean, isPlace⟩
  · rintro cause parts ⟨nonempty, rooted, short, clean, leads⟩
    rcases cause with isEmpty | relative | long | ⟨part, listed, unclean⟩ | above
    · exact nonempty isEmpty
    · exact relative rooted
    · omega
    · exact unclean (clean part listed)
    · rw [above] at leads
      cases leads

/-- What holds of a canonicalized path. -/
structure Canonicalized (path canonical : String) : Prop where
  text : CanonicalText canonical
  stable : canonicalizePath canonical = .ok canonical
  shorter : canonical.utf8ByteSize ≤ path.utf8ByteSize
  samePlace : placeOf canonical = placeOf path

/-- What is returned is canonical, and what is refused cannot be. -/
theorem canonicalizePath_canonical :
    (∀ path canonical, canonicalizePath path = .ok canonical → Canonicalized path canonical) ∧
    (∀ path, (∃ failure, canonicalizePath path = .error failure) ↔ path = "" ∨
      path.toList.head? ≠ some '/' ∨ maxPathLen < path.utf8ByteSize ∨
      (∃ part ∈ Text.split '/' path, ¬ CleanPart part) ∨ ClimbsAbove (Text.split '/' path)) ∧
    (∀ base relative joined, safeJoinPath base relative = .ok joined →
      CanonicalText joined ∧ canonicalizePath joined = .ok joined) ∧
    ∀ path normal, safeNormalizePath path = .ok normal →
      CanonicalText normal ∧ canonicalizePath normal = .ok normal := by
  refine ⟨fun path canonical run => ?_, fun path => canonicalizePath_error_iff,
    fun base relative joined run => ?_, fun path normal run => ?_⟩
  · obtain ⟨text, stable⟩ := canonicalizePath_legal run
    refine ⟨text, stable, utf8ByteSize_canonicalizePath run, ?_⟩
    obtain ⟨parts, isParts, rfl⟩ := canonicalizePath_ok_iff.mp run
    rw [placeOf_pathOf (legal_canonicalParts isParts), (canonicalParts_ok_iff.mp isParts).2.2.2.2]
  · obtain ⟨canonical, isBase, joining⟩ := except_bind_ok_iff.mp run
    split at joining
    · cases joining
      exact canonicalizePath_legal isBase
    · exact canonicalizePath_legal joining
  · exact safeNormalizePath_legal run

theorem canonicalizePath_canonical_dots :
    canonicalizePath "/a/../b//." = .ok "/b" ∧ Canonicalized "/a/../b//." "/b" := by
  have run : canonicalizePath "/a/../b//." = .ok "/b" := by decide +kernel
  exact ⟨run, canonicalizePath_canonical.1 _ _ run⟩

theorem legalPart_of_valid {name : String} (valid : validateFilename name = .ok ()) :
    LegalPart name := by
  obtain ⟨⟨nonempty, notDot, notDotDot⟩, -, plain, -⟩ := validateFilename_iff.mp valid
  exact ⟨nonempty, notDot, notDotDot, fun listed => (plain _ listed).2 rfl,
    fun char listed => (plain char listed).1⟩

def endsInBlank (text : String) : Bool := text.toList.getLast?.any isWhitespaceChar

def isBlank (text : String) : Bool := text.toList.all isWhitespaceChar

theorem trimText_eq_empty_iff {text : String} : trimText text = "" ↔ isBlank text = true := by
  have same : trimText text = "" ↔ text.toList.dropWhile isWhitespaceChar = [] := by
    rw [trimText, ← String.toList_eq_nil_iff, String.toList_ofList]
    refine List.rdropWhile_eq_nil_iff.trans ⟨fun all => ?_, fun isNil => by simp [isNil]⟩
    by_contra nonempty
    have first := List.dropWhile_get_zero_not isWhitespaceChar text.toList
      (List.length_pos_of_ne_nil nonempty)
    exact first (all _ (List.get_mem ..))
  rw [same, isBlank, List.dropWhile_eq_nil_iff, List.all_eq_true]

theorem trimText_rooted (rooted : path.toList.head? = some '/') :
    if endsInBlank path then
      (trimText path).utf8ByteSize < path.utf8ByteSize ∧ (trimText path).toList.head? = some '/'
    else trimText path = path := by
  obtain ⟨rest, isPath⟩ := List.head?_eq_some_iff.mp rooted
  have kept : path.toList.dropWhile isWhitespaceChar = path.toList := by
    rw [isPath, List.dropWhile_cons_of_neg (by decide)]
  have trimmed : (trimText path).toList = path.toList.rdropWhile isWhitespaceChar := by
    rw [trimText, String.toList_ofList, kept, List.rdropWhile]
  have nonempty : path.toList ≠ [] := by simp [isPath]
  have last : endsInBlank path = isWhitespaceChar (path.toList.getLast nonempty) := by
    rw [endsInBlank, List.getLast?_eq_some_getLast nonempty, Option.any_some]
  split
  · rename_i ends
    obtain ⟨tail, split⟩ := List.rdropWhile_prefix (p := isWhitespaceChar) path.toList
    rw [← trimmed] at split
    have joined : trimText path ++ String.ofList tail = path := by
      apply String.toList_inj.mp
      rw [String.toList_append, String.toList_ofList, split]
    have loses : String.ofList tail ≠ "" := by
      intro isEmpty
      rw [isEmpty, String.append_empty] at joined
      have self := List.rdropWhile_eq_self_iff.mp (trimmed.symm.trans (congrArg _ joined))
      exact self nonempty (last ▸ ends)
    constructor
    · have size := congrArg String.utf8ByteSize joined
      have positive := Nat.pos_of_ne_zero fun isZero =>
        loses (String.utf8ByteSize_eq_zero_iff.mp isZero)
      rw [String.utf8ByteSize_append] at size
      omega
    · cases shown : (trimText path).toList with
      | nil =>
        have all := List.rdropWhile_eq_nil_iff.mp (trimmed.symm.trans shown) '/' (by simp [isPath])
        exact absurd all (by decide)
      | cons char others =>
        rw [shown, isPath] at split
        rw [List.cons_append, List.cons.injEq] at split
        rw [split.1]
        rfl
  · rename_i ends
    apply String.toList_inj.mp
    rw [trimmed, List.rdropWhile_eq_self_iff]
    exact fun _ => last ▸ ends

/-- A legal path is normalized to itself unless it ends in white space, and joined from its
parts unless its last name is white space. -/
theorem legal_path_addressed_iff {parts : List String} {name : String}
    (valid : ∀ part ∈ parts ++ [name], validateFilename part = .ok ())
    (short : (pathOf (parts ++ [name])).utf8ByteSize ≤ maxPathLen) :
    (safeNormalizePath (pathOf (parts ++ [name])) = .ok (pathOf (parts ++ [name])) ↔
      endsInBlank name = false) ∧
    (safeJoinPath (pathOf parts) name = .ok (pathOf (parts ++ [name])) ↔
      isBlank name = false) := by
  have legal : ∀ part ∈ parts ++ [name], LegalPart part := fun part listed =>
    legalPart_of_valid (valid part listed)
  have legalAbove : ∀ part ∈ parts, LegalPart part := fun part listed =>
    legal part (List.mem_append_left _ listed)
  have last := legal name (by simp)
  have canonical := canonicalizePath_pathOf legal short
  have text := pathOf_concat parts name
  have rooted := (plainPath_pathOf (plainNames_of_legal legal)).rooted
  constructor
  · have sameEnd : endsInBlank (pathOf (parts ++ [name])) = endsInBlank name := by
      have nonempty : name.toList ≠ [] := fun isNil =>
        last.nonempty (String.toList_eq_nil_iff.mp isNil)
      rw [endsInBlank, endsInBlank, text, String.toList_append, String.toList_append,
        List.getLast?_append_of_ne_nil _ nonempty]
    have trimmed := trimText_rooted rooted
    rw [sameEnd] at trimmed
    unfold safeNormalizePath
    dsimp only
    cases ends : endsInBlank name with
    | false =>
      rw [ends, if_neg (by decide)] at trimmed
      rw [trimmed, if_neg, if_pos rooted, canonical]
      · exact iff_of_true rfl rfl
      · intro isEmpty
        rw [isEmpty] at rooted
        cases rooted
    | true =>
      rw [ends, if_pos rfl] at trimmed
      obtain ⟨smaller, stillRooted⟩ := trimmed
      refine iff_of_false (fun run => ?_) (by decide)
      split at run
      · rename_i isEmpty
        rw [isEmpty] at stillRooted
        cases stillRooted
      · have size := utf8ByteSize_canonicalizePath run
        omega
  · have size := congrArg String.utf8ByteSize text
    have slash : "/".utf8ByteSize = 1 := rfl
    rw [String.utf8ByteSize_append, String.utf8ByteSize_append, slash] at size
    have joined := joinPath_pathOf (plainNames_of_legal legalAbove) name
    have shortAbove : (pathOf parts).utf8ByteSize ≤ maxPathLen := by
      rw [pathOf_eq]
      split
      · decide
      · omega
    unfold safeJoinPath
    rw [canonicalizePath_pathOf legalAbove shortAbove]
    dsimp only [bind, Except.bind]
    cases blank : isBlank name with
    | true =>
      rw [if_pos (trimText_eq_empty_iff.mpr blank)]
      refine iff_of_false (fun run => ?_) (by decide)
      have same := pathOf_injective (plainNames_of_legal legalAbove) (plainNames_of_legal legal)
        (Except.ok.inj run)
      simpa using congrArg List.length same
    | false =>
      rw [if_neg fun isEmpty => by simp [trimText_eq_empty_iff.mp isEmpty] at blank,
        trimStartSlashes_of_not_mem last.noSlash]
      unfold joinPath at joined
      rw [joined, canonical]
      exact iff_of_true rfl rfl

/-- `a` and `a` followed by a space are two names in a directory, but one path. -/
theorem legal_paths_collapse :
    (∀ part ∈ [] ++ ["a "], validateFilename part = .ok ()) ∧
    (pathOf ([] ++ ["a "])).utf8ByteSize ≤ maxPathLen ∧
    safeNormalizePath (pathOf ([] ++ ["a "])) = .ok "/a" ∧
    ¬ safeNormalizePath (pathOf ([] ++ ["a "])) = .ok (pathOf ([] ++ ["a "])) ∧
    (∀ part ∈ [] ++ [" "], validateFilename part = .ok ()) ∧
    ¬ safeJoinPath (pathOf []) " " = .ok (pathOf ([] ++ [" "])) := by
  decide +kernel

theorem legal_path_addressed_name :
    (safeNormalizePath (pathOf (["my files", "2024 "] ++ ["a b.txt"])) =
        .ok (pathOf (["my files", "2024 "] ++ ["a b.txt"])) ↔ endsInBlank "a b.txt" = false) ∧
    (safeJoinPath (pathOf ["my files", "2024 "]) "a b.txt" =
        .ok (pathOf (["my files", "2024 "] ++ ["a b.txt"])) ↔ isBlank "a b.txt" = false) :=
  legal_path_addressed_iff (by decide +kernel) (by decide +kernel)

end Nanofile
