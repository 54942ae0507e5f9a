import Mathlib.Data.List.Infix
import Nanofile.Lib.Text

/-!
# Names and paths

A name a client sends is refused when it could be confused with a path or could
not be created by a Windows client.  A path inside a library is text: handlers canonicalize
what a client sends, and the services below cut a path at its last separator.
-/

set_option autoImplicit false

namespace Nanofile

open Nanofile.Lib

/-- NUL, newline, carriage return, tab, both quotes, `<`, `>` and the backslash. -/
def invalidFilenameChars : List Char := [0, 10, 13, 9, 39, 34, 60, 62, 92].map Char.ofNat

def maxFilenameLen : Nat := 255

def windowsReservedNames : List String :=
  ["CON", "PRN", "AUX", "NUL", "CONIN$", "CONOUT$", "COM1", "COM2", "COM3", "COM4", "COM5",
    "COM6", "COM7", "COM8", "COM9", "LPT1", "LPT2", "LPT3", "LPT4", "LPT5", "LPT6", "LPT7",
    "LPT8", "LPT9"]

/-- `is_windows_reserved_name`: case, extension and trailing dots and spaces do not
count. -/
def isWindowsReservedName (name : String) : Bool :=
  let base := (Text.split '.' name).head?.getD name
  let trimmed := (base.toList.reverse.dropWhile fun char => char = ' ' ∨ char = '.').reverse
  windowsReservedNames.contains (String.ofList (trimmed.map Char.toUpper))

def validateFilename (name : String) : Except String Unit :=
  if name = "" ∨ name = "." ∨ name = ".." then .error "invalid filename"
  else if maxFilenameLen < name.utf8ByteSize then .error "filename too long"
  else if name.toList.any fun char => char ∈ invalidFilenameChars then
    .error "filename contains invalid characters"
  else if '/' ∈ name.toList then .error "filename must not contain path separators"
  else if isWindowsReservedName name then .error "filename is reserved by Windows"
  else .ok ()

theorem validateFilename_iff {name : String} :
    validateFilename name = .ok () ↔ (name ≠ "" ∧ name ≠ "." ∧ name ≠ "..") ∧
      name.utf8ByteSize ≤ maxFilenameLen ∧
      (∀ char ∈ name.toList, char ∉ invalidFilenameChars ∧ char ≠ '/') ∧
      isWindowsReservedName name = false := by
  unfold validateFilename
  constructor
  · intro valid
    split at valid
    · simp at valid
    · rename_i notDots
      split at valid
      · simp at valid
      · rename_i fits
        split at valid
        · simp at valid
        · rename_i plain
          split at valid
          · simp at valid
          · rename_i noSlash
            split at valid
            · simp at valid
            · rename_i free
              refine ⟨by simpa [not_or] using notDots, by omega, fun char listed => ⟨?_, ?_⟩,
                by simpa using free⟩
              · intro invalid
                exact plain (List.any_eq_true.mpr ⟨char, listed, by simpa using invalid⟩)
              · rintro rfl
                exact noSlash listed
  · rintro ⟨⟨notEmpty, notDot, notDotDot⟩, fits, plain, free⟩
    rw [if_neg (by simp [notEmpty, notDot, notDotDot]), if_neg (by omega), if_neg ?_,
      if_neg (fun listed => (plain _ listed).2 rfl), if_neg (by simp [free])]
    intro invalid
    obtain ⟨char, listed, isInvalid⟩ := List.any_eq_true.mp invalid
    exact (plain char listed).1 (by simpa using isInvalid)

theorem validateFilename_component {name : String} (valid : validateFilename name = .ok ()) :
    name ≠ "" ∧ name ≠ "." ∧ name ≠ ".." ∧ '/' ∉ name.toList := by
  obtain ⟨⟨notEmpty, notDot, notDotDot⟩, -, plain, -⟩ := validateFilename_iff.mp valid
  exact ⟨notEmpty, notDot, notDotDot, fun listed => (plain _ listed).2 rfl⟩

def maxPathLen : Nat := 4096

def pathOf (parts : List String) : String :=
  if parts = [] then "/" else String.join (parts.map fun part => "/" ++ part)

/-- One component of `Path::components` in `canonicalize_path`. -/
def canonicalStep (normalized : List String) (part : String) : Except String (List String) :=
  if part = "" ∨ part = "." then .ok normalized
  else if part = ".." then
    if normalized = [] then .error "path traversal beyond root" else .ok normalized.dropLast
  else if part.toList.any fun char => char ∈ invalidFilenameChars then
    .error "path contains invalid characters"
  else .ok (normalized ++ [part])

def canonicalParts (path : String) : Except String (List String) :=
  if path = "" then .error "path must not be empty"
  else if path.toList.head? ≠ some '/' then .error "path must start with /"
  else if maxPathLen < path.utf8ByteSize then .error "path too long"
  else if Char.ofNat 0 ∈ path.toList then .error "path contains null byte"
  else (Text.split '/' path).foldlM canonicalStep []

def canonicalizePath (path : String) : Except String String :=
  (canonicalParts path).map pathOf

/-- One component of a path, from the place it is read at; nowhere above the root. -/
def goTo (place : List String) (part : String) : Option (List String) :=
  if part = "" ∨ part = "." then some place
  else if part = ".." then if place = [] then none else some place.dropLast
  else some (place ++ [part])

/-- The place that a path names, read from left to right. -/
def placeOf (path : String) : Option (List String) := (Text.split '/' path).foldlM goTo []

/-- The characters of a component are none that a name must not have. -/
def CleanPart (part : String) : Prop := ∀ char ∈ part.toList, char ∉ invalidFilenameChars

/-- A component that a canonical path can have. -/
structure LegalPart (part : String) : Prop where
  nonempty : part ≠ ""
  notDot : part ≠ "."
  notDotDot : part ≠ ".."
  noSlash : '/' ∉ part.toList
  clean : CleanPart part

theorem canonicalStep_ok_iff {place next : List String} {part : String} :
    canonicalStep place part = .ok next ↔ goTo place part = some next ∧ CleanPart part := by
  have dots : part = "" ∨ part = "." ∨ part = ".." → CleanPart part := by
    rintro (rfl | rfl | rfl) <;> simp [CleanPart, invalidFilenameChars]
  unfold canonicalStep goTo
  split
  · rename_i skipped
    simp [dots (skipped.imp_right Or.inl)]
  · split
    · rename_i parent
      split <;> simp [dots (Or.inr (Or.inr parent))]
    · simp only [List.any_eq_true, decide_eq_true_eq, CleanPart]
      split
      · rename_i invalid
        obtain ⟨char, listed, isInvalid⟩ := invalid
        simp only [reduceCtorEq, false_iff, not_and]
        exact fun _ clean => clean char listed isInvalid
      · rename_i clean
        push Not at clean
        simp only [Except.ok.injEq, Option.some.injEq]
        exact (and_iff_left clean).symm

variable {parts pieces : List String}

theorem foldlM_canonicalStep_iff : ∀ {place : List String},
    pieces.foldlM canonicalStep place = .ok parts ↔
      pieces.foldlM goTo place = some parts ∧ ∀ part ∈ pieces, CleanPart part := by
  induction pieces with
  | nil =>
    intro place
    simp [pure, Except.pure]
  | cons piece rest ih =>
    intro place
    rw [List.foldlM_cons, List.foldlM_cons, List.forall_mem_cons]
    cases stepped : canonicalStep place piece with
    | ok next =>
      obtain ⟨goes, clean⟩ := canonicalStep_ok_iff.mp stepped
      rw [goes]
      exact ih.trans (and_congr_right fun _ => (and_iff_right clean).symm)
    | error failure =>
      refine iff_of_false (fun run => ?_) fun all => ?_
      · cases run
      · cases goes : goTo place piece with
        | none =>
          rw [goes] at all
          cases all.1
        | some next =>
          rw [canonicalStep_ok_iff.mpr ⟨goes, all.2.1⟩] at stepped
          cases stepped

theorem canonicalParts_ok_iff {path : String} :
    canonicalParts path = .ok parts ↔ path ≠ "" ∧ path.toList.head? = some '/' ∧
      path.utf8ByteSize ≤ maxPathLen ∧ (∀ part ∈ Text.split '/' path, CleanPart part) ∧
      placeOf path = some parts := by
  have noNul : (∀ part ∈ Text.split '/' path, CleanPart part) → Char.ofNat 0 ∉ path.toList := by
    intro clean listed
    obtain ⟨part, isPart, inPart⟩ := Text.mem_of_split (show Char.ofNat 0 ≠ '/' by decide) listed
    exact clean part isPart _ inPart (by decide)
  unfold canonicalParts
  split
  · rename_i isEmpty
    simp [isEmpty]
  · rename_i nonempty
    split
    · rename_i relative
      simp [relative]
    · rename_i rooted
      split
      · rename_i long
        simp [Nat.not_le.mpr long]
      · rename_i short
        split
        · rename_i nul
          exact iff_of_false (by simp) fun all => noNul all.2.2.2.1 nul
        · rw [foldlM_canonicalStep_iff, and_comm]
          simp [nonempty, not_not.mp rooted, Nat.le_of_not_lt short, placeOf]

theorem mem_of_foldlM_goTo : ∀ {place : List String},
    pieces.foldlM goTo place = some parts → ∀ part ∈ parts,
      part ∈ place ∨ part ∈ pieces ∧ part ≠ "" ∧ part ≠ "." ∧ part ≠ ".." := by
  induction pieces with
  | nil =>
    intro place run part listed
    cases run
    exact Or.inl listed
  | cons piece rest ih =>
    intro place run part listed
    rw [List.foldlM_cons] at run
    obtain ⟨next, stepped, below⟩ := Option.bind_eq_some_iff.mp run
    rcases ih below part listed with before | ⟨later, real⟩
    · unfold goTo at stepped
      split at stepped
      · cases stepped
        exact Or.inl before
      · rename_i visible
        split at stepped
        · split at stepped
          · cases stepped
          · cases stepped
            exact Or.inl (List.mem_of_mem_dropLast before)
        · rename_i notParent
          cases stepped
          rcases List.mem_append.mp before with earlier | new
          · exact Or.inl earlier
          · obtain rfl := List.mem_singleton.mp new
            rw [not_or] at visible
            exact Or.inr ⟨List.mem_cons_self, visible.1, visible.2, notParent⟩
    · exact Or.inr ⟨List.mem_cons_of_mem _ later, real⟩

theorem legal_canonicalParts {path : String} (run : canonicalParts path = .ok parts) :
    ∀ part ∈ parts, LegalPart part := by
  intro part listed
  obtain ⟨-, -, -, clean, leads⟩ := canonicalParts_ok_iff.mp run
  rcases mem_of_foldlM_goTo leads part listed with none | ⟨member, real, notDot, notDotDot⟩
  · exact absurd none List.not_mem_nil
  · exact ⟨real, notDot, notDotDot, Text.not_mem_of_mem_split member, clean part member⟩

theorem foldlM_goTo_of_noDots : ∀ {place : List String},
    (∀ part ∈ pieces, part ≠ "." ∧ part ≠ "..") →
      pieces.foldlM goTo place = some (place ++ pieces.filter fun part => part ≠ "") := by
  induction pieces with
  | nil =>
    intro place _
    rw [List.filter_nil, List.append_nil]
    rfl
  | cons part rest ih =>
    intro place noDots
    obtain ⟨first, others⟩ := List.forall_mem_cons.mp noDots
    rw [List.foldlM_cons, goTo]
    by_cases blank : part = ""
    · simp [blank, ih others]
    · simp [blank, first.1, first.2, ih others]

def isWhitespaceChar (char : Char) : Bool :=
  let code := char.toNat
  (9 ≤ code && code ≤ 13) || code == 32 || code == 0x85 || code == 0xA0 || code == 0x1680 ||
    (0x2000 ≤ code && code ≤ 0x200A) || code == 0x2028 || code == 0x2029 || code == 0x202F ||
    code == 0x205F || code == 0x3000

def trimText (text : String) : String :=
  String.ofList ((text.toList.dropWhile isWhitespaceChar).reverse.dropWhile
    isWhitespaceChar).reverse

def trimStartSlashes (text : String) : String :=
  String.ofList (text.toList.dropWhile fun char => char = '/')

def trimEndSlashes (text : String) : String :=
  String.ofList (text.toList.reverse.dropWhile fun char => char = '/').reverse

def safeJoinPath (base relative : String) : Except String String := do
  let base ← canonicalizePath base
  if trimText relative = "" then .ok base
  else
    let relative := trimStartSlashes relative
    canonicalizePath (if base = "/" then "/" ++ relative else base ++ "/" ++ relative)

def safeNormalizePath (path : String) : Except String String :=
  let path := trimText path
  if path = "" then .ok "/"
  else canonicalizePath (if path.toList.head? = some '/' then path else "/" ++ path)

def parentPathFrom (path : String) : String :=
  match Text.rsplitOnce '/' path with
  | some (parent, _) => if parent = "" then "/" else parent
  | none => "/"

def basename (path : String) : String :=
  match Text.rsplitOnce '/' path with
  | some (_, name) => name
  | none => ""

def lastName (path : String) : String :=
  if (Text.rsplitOnce '/' path).isSome then basename path else path

def joinPath (parent name : String) : String :=
  if parent = "/" then "/" ++ name else parent ++ "/" ++ name

def isSelfOrSubpath (src dst : String) : Bool :=
  dst = src ||
    (if src = "/" then "/" else trimEndSlashes src ++ "/").toList.isPrefixOf dst.toList

end Nanofile
