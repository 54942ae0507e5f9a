import Nanofile.Fs.PathWalk

/-!
# Paths written with more slashes than needed

Resolving a directory filters the components of its path, rewriting its ancestors cuts the
text at the last slash.  A path is spelled from segments; an empty one is a slash too many.
One slash too many at the beginning is passed over by both.
-/

set_option autoImplicit false

namespace Nanofile

open Nanofile.Lib

def namesOf (segments : List String) : List String := segments.filter fun part => part ≠ ""

/-- The parts after the first separator, without one empty part at the beginning. -/
def segmentsOf (path : String) : List String :=
  match (Text.split '/' path).tail with
  | [] => []
  | first :: rest => if first = "" then rest else first :: rest

/-- The slash that a path may begin with beside its own. -/
def leadOf (path : String) : String :=
  if (Text.split '/' path).tail.head? = some "" then "/" else ""

def spell (lead : String) (segments : List String) : String :=
  if segments = [] then "/" else lead ++ slashed segments

variable {path : String}

theorem slashed_split (rooted : path.toList.head? = some '/') :
    slashed (Text.split '/' path).tail = path := by
  cases parts : Text.splitChars '/' path.toList with
  | nil => exact absurd parts (Text.splitChars_ne_nil _)
  | cons first rest =>
    have text := Text.eq_of_splitChars parts
    have isNil : first = [] := by
      cases first with
      | nil => rfl
      | cons char others =>
        have isChar : char = '/' := by simpa [text] using rooted
        have absent : '/' ∉ char :: others := Text.mem_split_not_mem (parts ▸ List.mem_cons_self)
        exact absurd (isChar ▸ List.mem_cons_self) absent
    subst isNil
    rw [Text.split, parts]
    apply String.toList_inj.mp
    rw [text, List.nil_append, slashed]
    simp only [List.map_cons, List.tail_cons, List.map_map]
    clear parts text
    induction rest with
    | nil => rfl
    | cons part rest ih =>
      simp only [List.map_cons, String.join_cons, String.toList_append, Function.comp_apply,
        String.toList_ofList, List.flatMap_cons, ih]
      rfl

/-- Segments that are written behind a lead. -/
structure Spelling (lead : String) (segments : List String) : Prop where
  noSlash : ∀ part ∈ segments, '/' ∉ part.toList
  leads : lead = "/" ∨ lead = "" ∧ segments.head? ≠ some ""

theorem namesOf_append (first second : List String) :
    namesOf (first ++ second) = namesOf first ++ namesOf second := List.filter_append ..

variable {parts : List String}

theorem namesOf_of_plain (plain : PlainNames parts) : namesOf parts = parts :=
  List.filter_eq_self.mpr fun part listed => by simpa using (plain part listed).1

variable {name : String}

theorem pathComponents_separated (path : String) (noSlash : '/' ∉ name.toList) :
    pathComponents (path ++ "/" ++ name) = pathComponents path ++ namesOf [name] := by
  have cut : Text.split '/' (path ++ "/" ++ name) = Text.split '/' path ++ [name] := by
    rw [← Text.split_of_not_mem noSlash]
    exact Text.split_append path name
  simp [pathComponents, cut, namesOf]

theorem pathComponents_slashed (lead : String) {segments : List String}
    (noSlash : ∀ part ∈ segments, '/' ∉ part.toList) :
    pathComponents (lead ++ slashed segments) = pathComponents lead ++ namesOf segments := by
  induction segments using List.reverseRecOn with
  | nil => simp [slashed, namesOf]
  | append_singleton above name ih =>
    rw [slashed_concat, ← String.append_assoc, ← String.append_assoc,
      pathComponents_separated _ (noSlash name (by simp)),
      ih fun part listed => noSlash part (List.mem_append_left _ listed), namesOf_append,
      List.append_assoc]

namespace Spelling

variable {lead : String} {segments : List String}

theorem components_lead (spelling : Spelling lead segments) : pathComponents lead = [] := by
  rcases spelling.leads with rfl | ⟨rfl, -⟩ <;> decide

variable {above : List String}

theorem components (spelling : Spelling lead segments) (reaches : above <+: segments) :
    pathComponents (spell lead above) = namesOf above := by
  unfold spell
  split
  · rename_i isNil
    rw [isNil]
    decide
  · rw [pathComponents_slashed lead fun part listed =>
      spelling.noSlash part (reaches.subset listed), spelling.components_lead, List.nil_append]

theorem cut (spelling : Spelling lead segments) (reaches : above ++ [name] <+: segments) :
    parentAndName (spell lead (above ++ [name])) = some (spell lead above, name) := by
  have noSlash := spelling.noSlash name (reaches.subset (by simp))
  have text : spell lead (above ++ [name]) = lead ++ slashed above ++ "/" ++ name := by
    rw [spell, if_neg (by simp), slashed_concat, ← String.append_assoc, ← String.append_assoc]
  have last := Text.rsplitOnce_append (lead ++ slashed above) noSlash
  have slash : String.singleton '/' = "/" := rfl
  rw [slash] at last
  rw [parentAndName, text, last, Option.map_some]
  congr 2
  unfold spell
  by_cases isNil : above = []
  · subst isNil
    rcases spelling.leads with rfl | ⟨rfl, -⟩ <;> rfl
  · rw [if_neg isNil, if_neg]
    intro isEmpty
    have joined := congrArg String.toList isEmpty
    rw [String.toList_append, String.toList_empty, List.append_eq_nil_iff] at joined
    exact isNil (slashed_eq_empty_iff.mp (String.toList_eq_nil_iff.mp joined.2))

theorem top (spelling : Spelling lead segments) (reaches : above <+: segments) :
    spell lead above = "/" ↔ above = [] := by
  constructor
  · intro same
    by_contra below
    rw [spell, if_neg below] at same
    rcases spelling.leads with rfl | ⟨rfl, notBlank⟩
    · have joined := congrArg String.toList same
      rw [String.toList_append] at joined
      have isNil : (slashed above).toList = [] := by simpa using joined
      exact below (slashed_eq_empty_iff.mp (String.toList_eq_nil_iff.mp isNil))
    · obtain ⟨first, rest, rfl⟩ := List.exists_cons_of_ne_nil below
      obtain ⟨others, rfl⟩ := reaches
      have joined := congrArg String.length same
      have slash : "/".length = 1 := rfl
      simp only [slashed, List.map_cons, String.join_cons, String.length_append] at joined
      have isEmpty : first = "" := String.length_eq_zero_iff.mp (by omega)
      exact notBlank (by simp [isEmpty])
  · rintro rfl
    rfl

end Spelling

theorem split_rooted (rooted : path.toList.head? = some '/') :
    Text.split '/' path = "" :: (Text.split '/' path).tail := by
  have text := slashed_split rooted
  cases parts : Text.split '/' path with
  | nil => exact absurd (List.map_eq_nil_iff.mp parts) (Text.splitChars_ne_nil _)
  | cons first rest =>
    have absent : '/' ∉ first.toList := Text.not_mem_of_mem_split (parts ▸ List.mem_cons_self)
    obtain ⟨chars, others, cut, rfl, -⟩ := List.map_eq_cons_iff.mp parts
    have joined := Text.eq_of_splitChars cut
    cases chars with
    | nil => rfl
    | cons char more =>
      have isChar : char = '/' := by simpa [joined] using rooted
      rw [String.toList_ofList] at absent
      exact absurd (isChar ▸ List.mem_cons_self) absent

theorem spelled (rooted : path.toList.head? = some '/') :
    Spelling (leadOf path) (segmentsOf path) ∧ spell (leadOf path) (segmentsOf path) = path ∧
      pathComponents path = namesOf (segmentsOf path) := by
  have parts := split_rooted rooted
  have text := slashed_split rooted
  have noSlash : ∀ part ∈ (Text.split '/' path).tail, '/' ∉ part.toList :=
    fun part listed => Text.not_mem_of_mem_split (List.mem_of_mem_tail listed)
  unfold leadOf segmentsOf
  rw [pathComponents, parts, List.filter_cons_of_neg (by simp), List.tail_cons]
  generalize (Text.split '/' path).tail = rest at text noSlash
  cases rest with
  | nil =>
    have isEmpty : path = "" := text.symm
    rw [isEmpty] at rooted
    simp at rooted
  | cons first others =>
    by_cases blank : first = ""
    · subst blank
      refine ⟨⟨fun part listed => noSlash part (by simpa using Or.inr listed), Or.inl (by simp)⟩,
        ?_, by simp [namesOf]⟩
      rw [← text]
      unfold spell
      cases others with
      | nil => rfl
      | cons next more => simp [slashed]
    · refine ⟨⟨fun part listed => noSlash part (by simpa [blank] using listed),
        Or.inr (by simp [blank])⟩, ?_, by simp [blank, namesOf]⟩
      rw [← text]
      simp [spell, blank]

theorem rooted_of_canonicalParts (run : canonicalParts path = .ok parts) :
    path.toList.head? = some '/' :=
  (canonicalParts_ok_iff.mp run).2.1

theorem split_slashed (plain : PlainNames parts) :
    Text.split '/' (slashed parts) = "" :: parts := by
  induction parts using List.reverseRecOn with
  | nil => rfl
  | append_singleton parts name ih =>
    have cut := @Text.split_append '/' (slashed parts) name
    have slash : String.singleton '/' = "/" := rfl
    rw [slash] at cut
    rw [slashed_concat, cut, ih plain.left, Text.split_of_not_mem plain.last.2, List.cons_append]

theorem PlainPath.no_blank (plain : PlainPath path) : "" ∉ segmentsOf path := by
  have names := plainNames_pathComponents path
  rw [PlainPath, pathOf_eq] at plain
  rw [plain]
  split
  · decide
  · unfold segmentsOf
    rw [split_slashed names, List.tail_cons]
    generalize pathComponents path = parts at names
    cases parts with
    | nil => exact List.not_mem_nil
    | cons first rest =>
      dsimp only
      rw [if_neg (names first List.mem_cons_self).1]
      exact fun listed => (names "" listed).1 rfl

theorem PlainPath.rooted (plain : PlainPath path) : path.toList.head? = some '/' := by
  rw [PlainPath, pathOf_eq] at plain
  rw [plain]
  split
  · rfl
  · rename_i below
    generalize pathComponents path = parts at below
    cases parts with
    | nil => exact absurd rfl below
    | cons first rest => simp [slashed]

def IsDots (name : String) : Prop := name = "." ∨ name = ".."

instance (name : String) : Decidable (IsDots name) := inferInstanceAs (Decidable (_ ∨ _))

theorem canonicalParts_of_noDots (noDots : ∀ part ∈ pathComponents path, ¬ IsDots part)
    (run : canonicalParts path = .ok parts) : parts = pathComponents path := by
  obtain ⟨-, -, -, -, leads⟩ := canonicalParts_ok_iff.mp run
  rw [placeOf, foldlM_goTo_of_noDots fun part listed => ?_, List.nil_append] at leads
  · exact (Option.some.inj leads).symm
  · by_cases blank : part = ""
    · subst blank
      decide
    · exact not_or.mp (noDots part (List.mem_filter.mpr ⟨listed, by simpa using blank⟩))

theorem canonicalParts_noDots (run : canonicalParts path = .ok parts) :
    ∀ part ∈ parts, ¬ IsDots part := fun part listed =>
  have legal := legal_canonicalParts run part listed
  not_or.mpr ⟨legal.notDot, legal.notDotDot⟩

/-- A path that was joined is written from its components, and none of them is dots. -/
theorem safeJoinPath_plain {base relative : String}
    (joined : safeJoinPath base relative = .ok path) :
    PlainPath path ∧ ∀ part ∈ pathComponents path, ¬ IsDots part := by
  have canonical : ∀ {text : String}, canonicalizePath text = .ok path →
      PlainPath path ∧ ∀ part ∈ pathComponents path, ¬ IsDots part := by
    intro text run
    unfold canonicalizePath at run
    cases isParts : canonicalParts text with
    | error failure =>
      rw [isParts] at run
      cases run
    | ok parts =>
      rw [isParts] at run
      cases run
      have plain := plainNames_canonicalParts isParts
      rw [pathComponents_pathOf plain]
      exact ⟨plainPath_pathOf plain, canonicalParts_noDots isParts⟩
  unfold safeJoinPath at joined
  obtain ⟨root, isRoot, joined⟩ := except_bind_ok_iff.mp joined
  split at joined
  · cases joined
    exact canonical isRoot
  · exact canonical joined

theorem trimStartSlashes_of_not_mem (noSlash : '/' ∉ name.toList) :
    trimStartSlashes name = name := by
  unfold trimStartSlashes
  cases chars : name.toList with
  | nil => exact String.toList_inj.mp (by simp [chars])
  | cons char rest =>
    have different : char ≠ '/' := fun same => noSlash (by simp [chars, same])
    rw [List.dropWhile_cons_of_neg (by simpa using different), ← chars, String.ofList_toList]

theorem safeJoinPath_of_noDots {base : String}
    (noDots : ∀ part ∈ pathComponents base, ¬ IsDots part) (noSlash : '/' ∉ name.toList)
    (notDots : ¬ IsDots name) (run : safeJoinPath base name = .ok path) :
    base.toList.head? = some '/' ∧ path = if trimText name = "" then pathOf (pathComponents base)
      else pathOf (pathComponents base ++ [name]) := by
  obtain ⟨canonical, isBase, joined⟩ := except_bind_ok_iff.mp run
  unfold canonicalizePath at isBase
  cases parts : canonicalParts base with
  | error failure =>
    rw [parts] at isBase
    cases isBase
  | ok found =>
    rw [parts] at isBase
    cases isBase
    refine ⟨rooted_of_canonicalParts parts, ?_⟩
    rw [canonicalParts_of_noDots noDots parts] at joined
    split at joined
    · rename_i blank
      cases joined
      rw [if_pos blank]
    · rename_i visible
      rw [if_neg visible]
      have nonempty : name ≠ "" := fun same => visible (by rw [same]; decide)
      have plain := plainNames_pathComponents base
      have plain' : PlainNames (pathComponents base ++ [name]) := by
        intro part listed
        rcases List.mem_append.mp listed with before | last
        · exact plain part before
        · rw [List.mem_singleton.mp last]
          exact ⟨nonempty, noSlash⟩
      have text : (if pathOf (pathComponents base) = "/" then "/" ++ name
          else pathOf (pathComponents base) ++ "/" ++ name) =
          pathOf (pathComponents base ++ [name]) := joinPath_pathOf plain name
      rw [trimStartSlashes_of_not_mem noSlash] at joined
      dsimp only at joined
      rw [text] at joined
      unfold canonicalizePath at joined
      cases final : canonicalParts (pathOf (pathComponents base ++ [name])) with
      | error failure =>
        rw [final] at joined
        cases joined
      | ok result =>
        rw [final] at joined
        cases joined
        rw [canonicalParts_of_noDots ?_ final, pathComponents_pathOf plain']
        rw [pathComponents_pathOf plain']
        intro part listed
        rcases List.mem_append.mp listed with before | last
        · exact noDots part before
        · rwa [List.mem_singleton.mp last]

variable {Oid : Type} [DecidableEq Oid] [Digests Oid] [ToString Oid]

theorem resolves_of_mem_chain {store : FsStore Oid} : ∀ {parts : List String}
    {passed : String} {root : Oid} {found : Oid × AncestorChain Oid},
    resolveParts store path parts passed root = .ok found → ∀ level ∈ found.2, ∃ upper,
      upper <+: parts ∧ level.1 = passed ++ slashed upper ∧ Resolves store upper root level.2 := by
  intro parts
  induction parts with
  | nil =>
    intro passed root found run level listed
    cases run
    exact absurd listed List.not_mem_nil
  | cons part rest ih =>
    intro passed root found run level listed
    simp only [resolveParts, except_bind_ok_iff, okOr_eq_ok_iff, ensure_eq_ok_iff] at run
    obtain ⟨dir, read, entry, isEntry, -, directory, below, deeper, same⟩ := run
    cases same
    have stands := standsFor_of_readFsDirData read
    rcases List.mem_cons.mp listed with rfl | listed
    · exact ⟨[part], ⟨rest, rfl⟩, by simp [slashed, String.append_assoc],
        dir.dirents, entry, stands, isEntry, directory, rfl⟩
    · obtain ⟨upper, reaches, text, resolves⟩ := ih deeper level listed
      refine ⟨part :: upper, List.cons_prefix_cons.mpr ⟨rfl, reaches⟩, ?_,
        dir.dirents, entry, stands, isEntry, directory, resolves⟩
      rw [text]
      simp [slashed, String.append_assoc]

/-- However the text of an ancestor is spelled, the directory that its components lead to is
found, in the chain or from HEAD. -/
theorem ancestorFsId_of_components {before after : Repo Oid} {root dir : Oid} {text : String}
    {found : Oid × AncestorChain Oid} (isRoot : resolveRootFsId before = .ok root)
    (resolved : resolveFsIdChainFromRoot before.fsObjects root path = .ok found)
    (grown : Table.Extends before.fsObjects after.fsObjects)
    (sameRoot : resolveRootFsId after = resolveRootFsId before)
    (resolves : Resolves before.fsObjects (pathComponents text) root dir) :
    ancestorFsId after none found.2 text = .ok dir := by
  unfold ancestorFsId
  split
  · rename_i atRoot
    have isNil : pathComponents text = [] := by rw [atRoot]; decide
    rw [isNil] at resolves
    obtain rfl : root = dir := resolves
    exact sameRoot.trans isRoot
  · rename_i below
    split
    · -- The chain has the text as a key.
      rename_i fsId looked
      obtain ⟨level, isLevel, rfl⟩ := Option.map_eq_some_iff.mp looked
      have isText : level.1 = text := by simpa using List.find?_some isLevel
      have listed : level ∈ found.2 := List.mem_reverse.mp (List.mem_of_find?_eq_some isLevel)
      unfold resolveFsIdChainFromRoot at resolved
      split at resolved
      · cases resolved
        exact absurd listed List.not_mem_nil
      · obtain ⟨upper, reaches, key, resolves'⟩ := resolves_of_mem_chain resolved level listed
        have plain : PlainNames upper :=
          fun part member => plainNames_pathComponents path part (reaches.subset member)
        have names := pathComponents_slashed "" fun part member => (plain part member).2
        rw [← key, isText, namesOf_of_plain plain] at names
        have isNil : pathComponents "" = [] := by decide
        rw [isNil, List.nil_append] at names
        rw [names] at resolves
        exact congrArg Except.ok (resolves'.unique resolves)
    · refine except_bind_ok_iff.mpr ⟨root, sameRoot.trans isRoot, ?_⟩
      rw [if_neg below]
      exact (resolves.extends grown).resolveSegments

end Nanofile
