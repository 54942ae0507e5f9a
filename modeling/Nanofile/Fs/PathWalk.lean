import Nanofile.Base.Paths
import Nanofile.Fs.TreeEdit

/-!
# Canonical paths lead where their components do

A canonical path is cut into the components it was written from, at its last separator
as well as at all of them, so resolving a directory and rewriting its ancestors meet the
same directories.
-/

set_option autoImplicit false

namespace Nanofile

open Nanofile.Lib

def PlainNames (parts : List String) : Prop := ∀ part ∈ parts, part ≠ "" ∧ '/' ∉ part.toList

variable {first second : List String}

theorem PlainNames.left (plain : PlainNames (first ++ second)) :
    PlainNames first := fun part listed => plain part (List.mem_append_left _ listed)

variable {name : String} {parts : List String}

theorem PlainNames.last (plain : PlainNames (parts ++ [name])) : name ≠ "" ∧ '/' ∉ name.toList :=
  plain name (by simp)

theorem plainNames_pathComponents (path : String) : PlainNames (pathComponents path) := by
  intro part listed
  obtain ⟨listed, nonempty⟩ := List.mem_filter.mp listed
  exact ⟨by simpa using nonempty, Text.not_mem_of_mem_split listed⟩

@[simp] theorem pathOf_nil : pathOf [] = "/" := rfl

/-- The text of a path without the slash that stands for the root. -/
def slashed (parts : List String) : String := String.join (parts.map fun part => "/" ++ part)

theorem slashed_concat (parts : List String) (name : String) :
    slashed (parts ++ [name]) = slashed parts ++ "/" ++ name := by
  simp [slashed, String.append_assoc]

theorem slashed_eq_empty_iff : slashed parts = "" ↔ parts = [] := by
  cases parts with
  | nil | cons part rest => simp [slashed]

theorem pathOf_eq (parts : List String) :
    pathOf parts = if slashed parts = "" then "/" else slashed parts := by
  simp only [pathOf, slashed_eq_empty_iff]
  rfl

theorem pathOf_concat (parts : List String) (name : String) :
    pathOf (parts ++ [name]) = slashed parts ++ "/" ++ name := by
  rw [pathOf_eq, if_neg (by simp [slashed_eq_empty_iff]), slashed_concat]

theorem rsplitOnce_pathOf (parts : List String) (plain : '/' ∉ name.toList) :
    Text.rsplitOnce '/' (pathOf (parts ++ [name])) = some (slashed parts, name) := by
  rw [pathOf_concat]
  exact Text.rsplitOnce_append (slashed parts) plain

theorem parentAndName_pathOf (parts : List String) (plain : '/' ∉ name.toList) :
    parentAndName (pathOf (parts ++ [name])) = some (pathOf parts, name) := by
  rw [parentAndName, rsplitOnce_pathOf parts plain, pathOf_eq parts]
  rfl

theorem parentPathFrom_pathOf (parts : List String) (plain : '/' ∉ name.toList) :
    parentPathFrom (pathOf (parts ++ [name])) = pathOf parts := by
  rw [parentPathFrom, rsplitOnce_pathOf parts plain, pathOf_eq parts]

theorem basename_pathOf (parts : List String) (plain : '/' ∉ name.toList) :
    basename (pathOf (parts ++ [name])) = name := by
  rw [basename, rsplitOnce_pathOf parts plain]

theorem pathComponents_append (path : String) (nonempty : name ≠ "") (plain : '/' ∉ name.toList) :
    pathComponents (path ++ "/" ++ name) = pathComponents path ++ [name] := by
  have cut : Text.split '/' (path ++ "/" ++ name) = Text.split '/' path ++ [name] := by
    rw [← Text.split_of_not_mem plain]
    exact Text.split_append path name
  simp [pathComponents, cut, nonempty]

theorem pathComponents_pathOf (plain : PlainNames parts) :
    pathComponents (pathOf parts) = parts := by
  have text : ∀ {parts : List String}, PlainNames parts →
      pathComponents (slashed parts) = parts := by
    intro parts
    induction parts using List.reverseRecOn with
    | nil =>
      intro _
      rfl
    | append_singleton parts name ih =>
      intro plain
      rw [slashed_concat, pathComponents_append _ plain.last.1 plain.last.2, ih plain.left]
  rw [pathOf_eq]
  split
  · rename_i root
    rw [slashed_eq_empty_iff.mp root]
    rfl
  · exact text plain

theorem pathOf_injective (plain : PlainNames first) (plain' : PlainNames second)
    (same : pathOf first = pathOf second) : first = second := by
  rw [← pathComponents_pathOf plain, same, pathComponents_pathOf plain']

theorem pathOf_eq_root_iff (plain : PlainNames parts) : pathOf parts = "/" ↔ parts = [] := by
  constructor
  · intro same
    exact pathOf_injective plain (fun _ listed => absurd listed List.not_mem_nil) same
  · rintro rfl
    rfl

theorem joinPath_pathOf (plain : PlainNames parts) (name : String) :
    joinPath (pathOf parts) name = pathOf (parts ++ [name]) := by
  rw [joinPath, pathOf_concat]
  split
  · rename_i root
    rw [(pathOf_eq_root_iff plain).mp root]
    simp [slashed]
  · rename_i below
    rw [pathOf_eq, if_neg]
    intro root
    rw [slashed_eq_empty_iff] at root
    exact below (by rw [root, pathOf_nil])

theorem length_le_slashed (parts : List String) : parts.length ≤ (slashed parts).length := by
  induction parts using List.reverseRecOn with
  | nil => simp
  | append_singleton parts name ih =>
    rw [slashed_concat]
    simp only [String.length_append, List.length_append, List.length_singleton]
    have slash : "/".length = 1 := rfl
    omega

theorem length_le_pathOf (parts : List String) : parts.length ≤ (pathOf parts).length := by
  rw [pathOf_eq]
  split
  · rename_i root
    rw [slashed_eq_empty_iff.mp root]
    simp
  · exact length_le_slashed parts

variable {path : String}

theorem plainNames_canonicalParts (run : canonicalParts path = .ok parts) :
    PlainNames parts := fun part listed =>
  have legal := legal_canonicalParts run part listed
  ⟨legal.nonempty, legal.noSlash⟩

def PlainPath (path : String) : Prop := path = pathOf (pathComponents path)

instance (path : String) : Decidable (PlainPath path) := inferInstanceAs (Decidable (_ = _))

theorem plainPath_pathOf (plain : PlainNames parts) : PlainPath (pathOf parts) := by
  rw [PlainPath, pathComponents_pathOf plain]

theorem plainPath_of_canonicalizePath {canonical : String}
    (run : canonicalizePath path = .ok canonical) : PlainPath canonical := by
  unfold canonicalizePath at run
  cases parts : canonicalParts path with
  | error failure =>
    rw [parts] at run
    cases run
  | ok found =>
    rw [parts] at run
    cases run
    exact plainPath_pathOf (plainNames_canonicalParts parts)

theorem plainPath_of_safeNormalizePath {normal : String}
    (run : safeNormalizePath path = .ok normal) : PlainPath normal := by
  unfold safeNormalizePath at run
  dsimp only at run
  split at run
  · cases run
    rfl
  · exact plainPath_of_canonicalizePath run

variable {Oid : Type} [DecidableEq Oid] [Digests Oid]

/-- The components lead over directories from one id to another. -/
def Resolves (store : FsStore Oid) : List String → Oid → Oid → Prop
  | [], root, fsId => root = fsId
  | name :: rest, root, fsId => ∃ entries entry, StandsFor store root entries ∧
      lookup entries name = some entry ∧ isDir entry.mode = true ∧
        Resolves store rest entry.id fsId

variable {store after : FsStore Oid}

theorem Resolves.extends (grown : Table.Extends store after) :
    ∀ {parts : List String} {root fsId : Oid}, Resolves store parts root fsId →
      Resolves after parts root fsId := by
  intro parts
  induction parts with
  | nil => exact fun resolves => resolves
  | cons name rest ih =>
    intro root fsId resolves
    obtain ⟨entries, entry, stands, found, directory, below⟩ := resolves
    exact ⟨entries, entry, stands.extends grown, found, directory, ih below⟩

theorem Resolves.unique : ∀ {parts : List String} {root first second : Oid},
    Resolves store parts root first → Resolves store parts root second → first = second := by
  intro parts
  induction parts with
  | nil => exact fun resolves resolves' => resolves.symm.trans resolves'
  | cons name rest ih =>
    intro root first second resolves resolves'
    obtain ⟨entries, entry, stands, found, -, below⟩ := resolves
    obtain ⟨entries', entry', stands', found', -, below'⟩ := resolves'
    obtain rfl : entries = entries' := stands.entries.symm.trans stands'.entries
    rw [found, Option.some.injEq] at found'
    subst found'
    exact ih below below'

theorem resolves_append : ∀ {root fsId : Oid},
    Resolves store (first ++ second) root fsId ↔
      ∃ middle, Resolves store first root middle ∧ Resolves store second middle fsId := by
  induction first with
  | nil => exact fun {root fsId} => by simp [Resolves]
  | cons name rest ih =>
    intro root fsId
    simp only [List.cons_append, Resolves, ih]
    constructor
    · intro resolves
      obtain ⟨entries, entry, stands, found, directory, middle, upper, lower⟩ := resolves
      exact ⟨middle, ⟨entries, entry, stands, found, directory, upper⟩, lower⟩
    · intro resolves
      obtain ⟨middle, ⟨entries, entry, stands, found, directory, upper⟩, lower⟩ := resolves
      exact ⟨entries, entry, stands, found, directory, middle, upper, lower⟩

variable [ToString Oid]

theorem resolves_of_resolveParts : ∀ {parts : List String} {passed : String}
    {root : Oid} {found : Oid × AncestorChain Oid},
    resolveParts store path parts passed root = .ok found → Resolves store parts root found.1 := by
  intro parts
  induction parts with
  | nil =>
    intro passed root found run
    cases run
    rfl
  | cons part rest ih =>
    intro passed root found run
    simp only [resolveParts, except_bind_ok_iff, okOr_eq_ok_iff, ensure_eq_ok_iff] at run
    obtain ⟨dir, read, entry, isEntry, -, directory, below, deeper, same⟩ := run
    cases same
    have resolves := ih deeper
    exact ⟨dir.dirents, entry, standsFor_of_readFsDirData read, isEntry, directory, resolves⟩

omit [DecidableEq Oid] [Digests Oid] [ToString Oid] in
theorem chainLookup_cons (level : String × Oid) (below : AncestorChain Oid) (path : String) :
    chainLookup (level :: below) path =
      (chainLookup below path).or (if level.1 = path then some level.2 else none) := by
  unfold chainLookup
  rw [List.reverse_cons, List.find?_append]
  cases below.reverse.find? fun level => level.1 = path with
  | some found => rfl
  | none => by_cases same : level.1 = path <;> simp [same]

theorem passed_lt_of_mem_chain : ∀ {parts : List String} {passed : String}
    {root : Oid} {found : Oid × AncestorChain Oid},
    resolveParts store path parts passed root = .ok found →
      ∀ level ∈ found.2, passed.length < level.1.length := by
  intro parts
  induction parts with
  | nil =>
    intro passed root found run level listed
    cases run
    exact absurd listed List.not_mem_nil
  | cons part rest ih =>
    intro passed root found run level listed
    simp only [resolveParts, except_bind_ok_iff] at run
    obtain ⟨dir, -, entry, -, -, -, below, deeper, same⟩ := run
    cases same
    have longer : passed.length < (passed ++ "/" ++ part).length := by
      have slash : "/".length = 1 := rfl
      simp only [String.length_append]
      omega
    rcases List.mem_cons.mp listed with rfl | listed
    · exact longer
    · exact longer.trans (ih deeper level listed)

theorem chainLookup_of_resolveParts : ∀ {parts : List String}
    {passed : String} {root : Oid} {found : Oid × AncestorChain Oid},
    resolveParts store path parts passed root = .ok found →
      ∀ {upper lower : List String} {dir : Oid}, parts = upper ++ lower → upper ≠ [] →
        Resolves store upper root dir →
        chainLookup found.2 (passed ++ slashed upper) = some dir := by
  intro parts
  induction parts with
  | nil =>
    intro passed root found run upper lower dir cut nonempty
    exact absurd (List.append_eq_nil_iff.mp cut.symm).1 nonempty
  | cons part rest ih =>
    intro passed root found run upper lower dir cut nonempty resolves
    have whole := run
    simp only [resolveParts, except_bind_ok_iff, okOr_eq_ok_iff] at run
    obtain ⟨data, read, entry, isEntry, -, -, below, deeper, same⟩ := run
    cases same
    cases upper with
    | nil => exact absurd rfl nonempty
    | cons name upper =>
      obtain ⟨rfl, tail⟩ := List.cons.inj cut
      obtain ⟨entries, entry', stands, found, -, resolves⟩ := resolves
      obtain rfl : data.dirents = entries :=
        (standsFor_of_readFsDirData read).entries.symm.trans stands.entries
      obtain rfl : entry = entry' := Option.some.inj (isEntry.symm.trans found)
      have text : passed ++ slashed (part :: upper) =
          passed ++ "/" ++ part ++ slashed upper := by
        simp [slashed, String.append_assoc]
      rw [chainLookup_cons, text]
      cases upper with
      | nil =>
        -- No directory further down has this path.
        have absent : chainLookup below.2 (passed ++ "/" ++ part ++ slashed []) = none := by
          unfold chainLookup
          rw [Option.map_eq_none_iff, List.find?_eq_none]
          intro level listed isPath
          have longer := passed_lt_of_mem_chain deeper level (List.mem_reverse.mp listed)
          simp [of_decide_eq_true isPath, slashed] at longer
        rw [absent]
        cases resolves
        simp [slashed]
      | cons next upper =>
        rw [ih deeper tail (List.cons_ne_nil next upper) resolves]
        rfl

/-- Every ancestor that the walk up asks for is the one the components lead to, also when
objects have been added since. -/
def Climbs (before : Repo Oid) (rootOverride : Option Oid) (chain : AncestorChain Oid)
    (root : Oid) (parts : List String) : Prop :=
  ∀ after : Repo Oid, Table.Extends before.fsObjects after.fsObjects →
    resolveRootFsId after = resolveRootFsId before →
    ∀ upper name lower dir, parts = upper ++ name :: lower →
      Resolves before.fsObjects upper root dir →
      ancestorFsId after rootOverride chain (pathOf upper) = .ok dir

theorem StandsFor.read {fsId : Oid} {entries : List (DirEntryData Oid)}
    (stands : StandsFor store fsId entries) :
    ∃ data, readFsDirData store fsId = .ok data ∧ data.dirents = entries := by
  rcases stands with ⟨isEmpty, none⟩ | ⟨data, found, same⟩
  · exact ⟨emptyDirData, by rw [readFsDirData, if_pos isEmpty], none.symm⟩
  · refine ⟨data, ?_, same⟩
    unfold dirBatch at found
    split at found
    · simp at found
    · rename_i nonempty
      rw [readFsDirData, if_neg nonempty]
      split at found
      · rename_i present
        cases found
        rw [present]
      · simp at found

theorem Resolves.resolveSegments : ∀ {parts : List String} {root dir : Oid},
    Resolves store parts root dir → resolveSegments store parts root = .ok dir := by
  intro parts
  induction parts with
  | nil =>
    intro root dir resolves
    exact congrArg Except.ok resolves
  | cons name rest ih =>
    intro root dir resolves
    obtain ⟨entries, entry, stands, found, directory, below⟩ := resolves
    obtain ⟨data, read, rfl⟩ := stands.read
    simp only [Nanofile.resolveSegments, except_bind_ok_iff, okOr_eq_ok_iff, ensure_eq_ok_iff]
    exact ⟨data, read, entry, found, (), Or.inr directory, ih below⟩

variable {root : Oid}

theorem Resolves.resolveFsId {repo : Repo Oid} {dir : Oid} (plain : PlainNames parts)
    (isRoot : resolveRootFsId repo = .ok root) (resolves : Resolves repo.fsObjects parts root dir) :
    resolveFsId repo (pathOf parts) = .ok dir := by
  refine except_bind_ok_iff.mpr ⟨root, isRoot, ?_⟩
  split
  · rename_i same
    rw [(pathOf_eq_root_iff plain).mp same] at resolves
    exact congrArg Except.ok resolves
  · rw [pathComponents_pathOf plain]
    exact resolves.resolveSegments

def RebuildRoot (repo : Repo Oid) (rootOverride : Option Oid) (root : Oid) : Prop :=
  rootOverride = some root ∨ (rootOverride = none ∧ resolveRootFsId repo = .ok root)

variable {before : Repo Oid} {rootOverride : Option Oid}

theorem climbs_of_lookup {chain : AncestorChain Oid} (plain : PlainNames parts)
    (isRoot : RebuildRoot before rootOverride root)
    (below : ∀ after : Repo Oid, Table.Extends before.fsObjects after.fsObjects →
      resolveRootFsId after = resolveRootFsId before →
      ∀ upper name lower dir, parts = upper ++ name :: lower → upper ≠ [] →
        Resolves before.fsObjects upper root dir →
        (match chainLookup chain (pathOf upper) with
          | some fsId => .ok fsId
          | none => resolveFsId after (pathOf upper)) = Except.ok dir) :
    Climbs before rootOverride chain root parts := by
  intro after grown sameRoot upper name lower dir cut resolves
  unfold ancestorFsId
  have plainUpper : PlainNames upper := PlainNames.left (cut ▸ plain)
  by_cases atRoot : upper = []
  · subst atRoot
    obtain rfl : root = dir := resolves
    rw [if_pos pathOf_nil]
    rcases isRoot with rfl | ⟨rfl, isRoot⟩
    · rfl
    · exact sameRoot.trans isRoot
  · rw [if_neg fun same => atRoot ((pathOf_eq_root_iff plainUpper).mp same)]
    exact below after grown sameRoot upper name lower dir cut atRoot resolves

theorem climbs_of_head (plain : PlainNames parts) (isRoot : resolveRootFsId before = .ok root) :
    Climbs before none [] root parts := by
  refine climbs_of_lookup plain (Or.inr ⟨rfl, isRoot⟩) ?_
  intro after grown sameRoot upper name lower dir cut _ resolves
  exact (resolves.extends grown).resolveFsId (PlainNames.left (cut ▸ plain))
    (sameRoot.trans isRoot)

variable {found : Oid × AncestorChain Oid}

theorem climbs_of_chain (plain : PlainNames parts) (isRoot : RebuildRoot before rootOverride root)
    (resolved : resolveFsIdChainFromRoot before.fsObjects root (pathOf parts) = .ok found) :
    Climbs before rootOverride found.2 root parts := by
  refine climbs_of_lookup plain isRoot ?_
  intro after _ _ upper name lower dir cut below resolves
  have nonempty : parts ≠ [] := fun isNil => by simp [isNil] at cut
  have notRoot : pathOf parts ≠ "/" := fun same => nonempty ((pathOf_eq_root_iff plain).mp same)
  have notEmpty : pathOf parts ≠ "" := by
    rw [pathOf_eq, if_neg fun same => nonempty (slashed_eq_empty_iff.mp same)]
    exact fun same => nonempty (slashed_eq_empty_iff.mp same)
  rw [resolveFsIdChainFromRoot, if_neg (by simp [notRoot, notEmpty]),
    pathComponents_pathOf plain] at resolved
  have looked := chainLookup_of_resolveParts resolved cut below resolves
  rw [String.empty_append] at looked
  rw [pathOf_eq, if_neg fun same => below (slashed_eq_empty_iff.mp same), looked]

theorem resolves_of_resolveFsIdChainFromRoot (plain : PlainNames parts)
    (resolved : resolveFsIdChainFromRoot store root (pathOf parts) = .ok found) :
    Resolves store parts root found.1 := by
  unfold resolveFsIdChainFromRoot at resolved
  split at resolved
  · rename_i atRoot
    cases resolved
    have isNil : parts = [] := by
      rcases atRoot with same | same
      · exact (pathOf_eq_root_iff plain).mp same
      · rw [pathOf_eq] at same
        split at same
        · simp at same
        · contradiction
    rw [isNil]
    rfl
  · rw [pathComponents_pathOf plain] at resolved
    exact resolves_of_resolveParts resolved

end Nanofile
