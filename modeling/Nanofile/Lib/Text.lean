import Mathlib.Data.List.Basic

/-!
# Splitting text at a separator

Structural versions of `str::split` and `str::rsplit_once`, so that a path can be
taken apart by evaluation.
-/

set_option autoImplicit false

namespace Nanofile.Lib.Text

def splitChars (sep : Char) : List Char → List (List Char)
  | [] => [[]]
  | char :: rest =>
    match splitChars sep rest with
    | [] => [[char]]
    | part :: parts =>
      if char = sep then [] :: part :: parts else (char :: part) :: parts

def rsplitChars (sep : Char) : List Char → Option (List Char × List Char)
  | [] => none
  | char :: rest =>
    match rsplitChars sep rest with
    | some (before, after) => some (char :: before, after)
    | none => if char = sep then some ([], rest) else none

def split (sep : Char) (text : String) : List String :=
  (splitChars sep text.toList).map String.ofList

def rsplitOnce (sep : Char) (text : String) : Option (String × String) :=
  (rsplitChars sep text.toList).map fun parts =>
    (String.ofList parts.1, String.ofList parts.2)

variable {sep : Char}

theorem splitChars_ne_nil (chars : List Char) : splitChars sep chars ≠ [] := by
  cases chars with
  | nil => simp [splitChars]
  | cons char rest =>
    unfold splitChars
    split
    · simp
    · split <;> simp

variable {chars : List Char}

theorem splitChars_of_not_mem (absent : sep ∉ chars) : splitChars sep chars = [chars] := by
  induction chars with
  | nil => rfl
  | cons char rest ih =>
    have different : char ≠ sep := fun same => absent (same ▸ List.mem_cons_self)
    have below := ih fun listed => absent (List.mem_cons_of_mem char listed)
    simp [splitChars, below, different]

theorem splitChars_append (first second : List Char) :
    splitChars sep (first ++ sep :: second) =
      splitChars sep first ++ splitChars sep second := by
  induction first with
  | nil =>
    rw [List.nil_append, splitChars]
    cases parts : splitChars sep second with
    | nil => exact absurd parts (splitChars_ne_nil second)
    | cons part rest => simp [splitChars, parts]
  | cons char rest ih =>
    rw [List.cons_append, splitChars, ih, splitChars]
    cases parts : splitChars sep rest with
    | nil => exact absurd parts (splitChars_ne_nil rest)
    | cons part others =>
      simp only [List.cons_append]
      split <;> rfl

theorem splitChars_head (chars : List Char) :
    (splitChars sep chars).head? = some (chars.takeWhile fun char => char ≠ sep) := by
  induction chars with
  | nil => rfl
  | cons char rest ih =>
    unfold splitChars
    cases parts : splitChars sep rest with
    | nil => exact absurd parts (splitChars_ne_nil rest)
    | cons part parts' =>
      rw [parts, List.head?_cons, Option.some_inj] at ih
      by_cases same : char = sep
      · simp [same]
      · simp [same, ih]

theorem rsplitChars_of_not_mem (absent : sep ∉ chars) : rsplitChars sep chars = none := by
  induction chars with
  | nil => rfl
  | cons char rest ih =>
    have different : char ≠ sep := fun same => absent (same ▸ List.mem_cons_self)
    have below := ih fun listed => absent (List.mem_cons_of_mem char listed)
    simp [rsplitChars, below, different]

variable {second : List Char}

theorem rsplitChars_append (first : List Char) (absent : sep ∉ second) :
    rsplitChars sep (first ++ sep :: second) = some (first, second) := by
  induction first with
  | nil => simp [rsplitChars, rsplitChars_of_not_mem absent]
  | cons char rest ih => rw [List.cons_append, rsplitChars, ih]

theorem rsplitChars_eq_none (uncut : rsplitChars sep chars = none) : sep ∉ chars := by
  induction chars with
  | nil => exact List.not_mem_nil
  | cons char rest ih =>
    unfold rsplitChars at uncut
    split at uncut
    · simp at uncut
    · rename_i below
      split at uncut
      · simp at uncut
      · rename_i different
        rw [List.mem_cons, not_or]
        exact ⟨fun same => different same.symm, ih below⟩

variable {first : List Char}

theorem rsplitChars_eq_some (cut : rsplitChars sep chars = some (first, second)) :
    chars = first ++ sep :: second ∧ sep ∉ second := by
  induction chars generalizing first with
  | nil => simp [rsplitChars] at cut
  | cons char rest ih =>
    unfold rsplitChars at cut
    split at cut
    · rename_i before after below
      cases cut
      obtain ⟨joined, absent⟩ := ih below
      exact ⟨by rw [joined]; rfl, absent⟩
    · rename_i below
      split at cut
      · rename_i same
        cases cut
        exact ⟨by rw [same]; rfl, rsplitChars_eq_none below⟩
      · simp at cut

theorem mem_split_not_mem {part : List Char} (listed : part ∈ splitChars sep chars) :
    sep ∉ part := by
  induction chars generalizing part with
  | nil =>
    rw [splitChars, List.mem_singleton] at listed
    simp [listed]
  | cons char rest ih =>
    unfold splitChars at listed
    split at listed
    · rename_i parts
      exact absurd parts (splitChars_ne_nil rest)
    · rename_i head others parts
      split at listed
      · rcases List.mem_cons.mp listed with isNil | below
        · simp [isNil]
        · exact ih (parts ▸ below)
      · rename_i different
        rcases List.mem_cons.mp listed with isHead | below
        · rw [isHead, List.mem_cons, not_or]
          exact ⟨fun same => different same.symm, ih (parts ▸ List.mem_cons_self)⟩
        · exact ih (parts ▸ List.mem_cons_of_mem head below)

theorem mem_of_splitChars {char : Char} (other : char ≠ sep) (listed : char ∈ chars) :
    ∃ part ∈ splitChars sep chars, char ∈ part := by
  induction chars with
  | nil => exact absurd listed List.not_mem_nil
  | cons first rest ih =>
    unfold splitChars
    cases parts : splitChars sep rest with
    | nil => exact absurd parts (splitChars_ne_nil rest)
    | cons head tail =>
      rw [parts] at ih
      dsimp only
      rcases List.mem_cons.mp listed with rfl | later
      · rw [if_neg other]
        exact ⟨_, List.mem_cons_self, List.mem_cons_self⟩
      · obtain ⟨part, isPart, inPart⟩ := ih later
        split
        · exact ⟨part, List.mem_cons_of_mem _ isPart, inPart⟩
        · rcases List.mem_cons.mp isPart with rfl | isLater
          · exact ⟨_, List.mem_cons_self, List.mem_cons_of_mem _ inPart⟩
          · exact ⟨part, List.mem_cons_of_mem _ isLater, inPart⟩

theorem eq_of_splitChars {rest : List (List Char)} (cut : splitChars sep chars = first :: rest) :
    chars = first ++ rest.flatMap fun part => sep :: part := by
  induction chars generalizing first rest with
  | nil =>
    cases cut
    rfl
  | cons char others ih =>
    unfold splitChars at cut
    split at cut
    · rename_i parts
      exact absurd parts (splitChars_ne_nil others)
    · rename_i head tail parts
      have below := ih parts
      split at cut
      · rename_i same
        cases cut
        rw [same, below]
        rfl
      · cases cut
        rw [below]
        rfl

variable {text : String}

theorem split_of_not_mem (absent : sep ∉ text.toList) : split sep text = [text] := by
  simp [split, splitChars_of_not_mem absent]

theorem split_append (first second : String) :
    split sep (first ++ String.singleton sep ++ second) = split sep first ++ split sep second := by
  simp [split, splitChars_append]

theorem split_head (text : String) :
    (split sep text).head? = some (String.ofList (text.toList.takeWhile fun char => char ≠ sep)) := by
  rw [split, List.head?_map, splitChars_head, Option.map_some]

theorem rsplitOnce_append (first : String) {second : String} (absent : sep ∉ second.toList) :
    rsplitOnce sep (first ++ String.singleton sep ++ second) = some (first, second) := by
  simp [rsplitOnce, rsplitChars_append first.toList absent]

theorem rsplitOnce_eq_some {first second : String}
    (cut : rsplitOnce sep text = some (first, second)) :
    text = first ++ String.singleton sep ++ second ∧ sep ∉ second.toList := by
  obtain ⟨⟨before, after⟩, cutChars, same⟩ := Option.map_eq_some_iff.mp cut
  obtain ⟨rfl, rfl⟩ := Prod.mk.inj same
  obtain ⟨joined, absent⟩ := rsplitChars_eq_some cutChars
  refine ⟨String.toList_inj.mp ?_, by simpa using absent⟩
  rw [joined]
  simp

theorem rsplitOnce_of_not_mem (absent : sep ∉ text.toList) : rsplitOnce sep text = none := by
  rw [rsplitOnce, rsplitChars_of_not_mem absent, Option.map_none]

theorem rsplitOnce_eq_none (uncut : rsplitOnce sep text = none) : sep ∉ text.toList :=
  rsplitChars_eq_none (Option.map_eq_none_iff.mp uncut)

theorem not_mem_of_mem_split {part : String} (listed : part ∈ split sep text) :
    sep ∉ part.toList := by
  obtain ⟨chars, member, rfl⟩ := List.mem_map.mp listed
  rw [String.toList_ofList]
  exact mem_split_not_mem member

theorem mem_of_split {char : Char} (other : char ≠ sep) (listed : char ∈ text.toList) :
    ∃ part ∈ split sep text, char ∈ part.toList := by
  obtain ⟨part, isPart, inPart⟩ := mem_of_splitChars other listed
  exact ⟨_, List.mem_map_of_mem isPart, by rwa [String.toList_ofList]⟩

def cutAround (piece : List Char) : List Char → Option (List Char × List Char)
  | [] => if piece = [] then some ([], []) else none
  | char :: rest =>
    if piece.isPrefixOf (char :: rest) then some ([], (char :: rest).drop piece.length)
    else (cutAround piece rest).map fun parts => (char :: parts.1, parts.2)

def splitOnce (piece text : String) : Option (String × String) :=
  (cutAround piece.toList text.toList).map fun parts =>
    (String.ofList parts.1, String.ofList parts.2)

def stripPrefix (piece text : String) : Option String :=
  if piece.toList.isPrefixOf text.toList then
    some (String.ofList (text.toList.drop piece.toList.length))
  else none

/-- What comes before the first of some characters. -/
def beforeAny (stops : List Char) (text : String) : String :=
  String.ofList (text.toList.takeWhile fun char => char ∉ stops)

variable {piece before after : List Char}

theorem cutAround_eq_some (cut : cutAround piece chars = some (before, after)) :
    chars = before ++ piece ++ after := by
  induction chars generalizing before with
  | nil =>
    unfold cutAround at cut
    split at cut
    · rename_i isNil
      cases cut
      rw [isNil]
      rfl
    · cases cut
  | cons char rest ih =>
    unfold cutAround at cut
    split at cut
    · rename_i begins
      cases cut
      obtain ⟨tail, joined⟩ := List.isPrefixOf_iff_prefix.mp begins
      rw [← joined, List.drop_left, List.nil_append]
    · obtain ⟨⟨head, tail⟩, below, same⟩ := Option.map_eq_some_iff.mp cut
      cases same
      rw [ih below]
      rfl

theorem cutAround_append (uncut : ∀ char rest, char :: rest <:+ before →
      ¬ piece <+: char :: (rest ++ piece ++ after)) :
    cutAround piece (before ++ piece ++ after) = some (before, after) := by
  induction before with
  | nil =>
    rw [List.nil_append]
    cases joined : piece ++ after with
    | nil =>
      obtain ⟨rfl, rfl⟩ := List.append_eq_nil_iff.mp joined
      rfl
    | cons char more =>
      rw [cutAround, if_pos (List.isPrefixOf_iff_prefix.mpr ⟨after, joined⟩), ← joined,
        List.drop_left]
  | cons char before ih =>
    have below := ih fun other rest isSuffix => uncut other rest (isSuffix.trans ⟨[char], rfl⟩)
    have here : ¬ piece.isPrefixOf (char :: (before ++ piece ++ after)) = true :=
      fun begins => uncut char before List.suffix_rfl (List.isPrefixOf_iff_prefix.mp begins)
    rw [List.cons_append, List.cons_append, cutAround, if_neg here, below]
    rfl

theorem splitOnce_append {first rest : String} (absent : sep ∉ first.toList) :
    splitOnce (String.singleton sep) (first ++ String.singleton sep ++ rest) =
      some (first, rest) := by
  have cut : cutAround [sep] (first.toList ++ [sep] ++ rest.toList) =
      some (first.toList, rest.toList) :=
    cutAround_append fun char others isSuffix begins =>
      absent ((List.cons_prefix_cons.mp begins).1 ▸ isSuffix.subset List.mem_cons_self)
  rw [List.append_assoc, List.singleton_append] at cut
  simp [splitOnce, cut]

/-- The characters up to a byte and from it; none past the end and inside a character. -/
def cutBytes : List Char → Nat → Option (List Char × List Char)
  | chars, 0 => some ([], chars)
  | [], _ + 1 => none
  | char :: rest, count + 1 =>
    if char.utf8Size ≤ count + 1 then
      (cutBytes rest (count + 1 - char.utf8Size)).map fun parts => (char :: parts.1, parts.2)
    else none

/-- `&text[..stop]`; none where that would panic. -/
def sliceTo (text : String) (stop : Nat) : Option String :=
  (cutBytes text.toList stop).map fun parts => String.ofList parts.1

/-- `&text[start..]`; none where that would panic. -/
def sliceFrom (text : String) (start : Nat) : Option String :=
  (cutBytes text.toList start).map fun parts => String.ofList parts.2

/-- `str::rfind`, as the byte the last separator begins at. -/
def rfind (sep : Char) (text : String) : Option Nat :=
  (rsplitOnce sep text).map fun parts => parts.1.utf8ByteSize

theorem utf8ByteSize_cons (char : Char) (chars : List Char) :
    (String.ofList (char :: chars)).utf8ByteSize =
      char.utf8Size + (String.ofList chars).utf8ByteSize := by
  have joined : String.ofList (char :: chars) = String.singleton char ++ String.ofList chars :=
    String.toList_inj.mp (by simp)
  rw [joined, String.utf8ByteSize_append, String.utf8ByteSize_singleton]

theorem cutBytes_append (first second : List Char) :
    cutBytes (first ++ second) (String.ofList first).utf8ByteSize = some (first, second) := by
  induction first with
  | nil => cases second <;> rfl
  | cons char rest ih =>
    have wide := char.utf8Size_pos
    obtain ⟨count, isSize⟩ : ∃ count, (String.ofList (char :: rest)).utf8ByteSize = count + 1 :=
      ⟨_, (Nat.succ_pred_eq_of_pos (by rw [utf8ByteSize_cons]; omega)).symm⟩
    have below : count + 1 - char.utf8Size = (String.ofList rest).utf8ByteSize := by
      rw [← isSize, utf8ByteSize_cons]
      omega
    have reaches : char.utf8Size ≤ count + 1 := by
      rw [← isSize, utf8ByteSize_cons]
      omega
    rw [isSize, List.cons_append, cutBytes, if_pos reaches, below, ih]
    rfl

theorem cutBytes_eq_some {count : Nat} (cut : cutBytes chars count = some (first, second)) :
    chars = first ++ second ∧ (String.ofList first).utf8ByteSize = count := by
  induction chars generalizing count first with
  | nil =>
    cases count with
    | zero =>
      cases cut
      exact ⟨rfl, rfl⟩
    | succ count => cases cut
  | cons char rest ih =>
    cases count with
    | zero =>
      cases cut
      exact ⟨rfl, rfl⟩
    | succ count =>
      unfold cutBytes at cut
      split at cut
      · rename_i reaches
        obtain ⟨⟨before, after⟩, below, same⟩ := Option.map_eq_some_iff.mp cut
        obtain ⟨rfl, rfl⟩ := Prod.mk.inj same
        obtain ⟨rfl, isSize⟩ := ih below
        refine ⟨rfl, ?_⟩
        rw [utf8ByteSize_cons, isSize]
        omega
      · cases cut

theorem sliceFrom_append (first second : String) :
    sliceFrom (first ++ second) first.utf8ByteSize = some second := by
  have cut := cutBytes_append first.toList second.toList
  rw [String.ofList_toList] at cut
  simp [sliceFrom, cut]

theorem sliceTo_append (first second : String) :
    sliceTo (first ++ second) first.utf8ByteSize = some first := by
  have cut := cutBytes_append first.toList second.toList
  rw [String.ofList_toList] at cut
  simp [sliceTo, cut]

theorem sliceFrom_size {rest : String} {start : Nat} (cut : sliceFrom text start = some rest) :
    start + rest.utf8ByteSize = text.utf8ByteSize := by
  obtain ⟨⟨before, after⟩, cutChars, rfl⟩ := Option.map_eq_some_iff.mp cut
  obtain ⟨joined, rfl⟩ := cutBytes_eq_some cutChars
  rw [← String.utf8ByteSize_append, ← String.ofList_append, ← joined, String.ofList_toList]

end Nanofile.Lib.Text
