import Mathlib.Data.List.TakeWhile
import Nanofile.Service.MoveReports

/-!
# The walk up from a path with a slash too many

Where the path has no empty segment the directory is edited that its components lead to.
An empty segment is taken for a name: what was built below it becomes an entry without a name
beside the directory that is meant, and only that entry changes.
-/

set_option autoImplicit false

namespace Nanofile

variable {Oid : Type} [DecidableEq Oid] [Digests Oid]
    {entries : List (DirEntryData Oid)} {root : Oid}

theorem Resolves.prefix_stands {store : FsStore Oid} {parts upper : List String} {dir : Oid}
    (resolves : Resolves store parts root dir) (stands : StandsFor store dir entries)
    (reaches : upper <+: parts) :
    ∃ dir' entries', Resolves store upper root dir' ∧ StandsFor store dir' entries' := by
  obtain ⟨lower, rfl⟩ := reaches
  obtain ⟨middle, leads, below⟩ := resolves_append.mp resolves
  cases lower with
  | nil =>
    obtain rfl : middle = dir := below
    exact ⟨middle, entries, leads, stands⟩
  | cons name rest =>
    obtain ⟨listed, -, standsMiddle, -⟩ := below
    exact ⟨middle, listed, leads, standsMiddle⟩

variable [ToString Oid] {found : Oid × AncestorChain Oid} {path : String} {segments : List String}

theorem walksUp_spelled {before : Repo Oid} {lead : String}
    (isRoot : resolveRootFsId before = .ok root)
    (resolved : resolveFsIdChainFromRoot before.fsObjects root path = .ok found)
    (spelling : Spelling lead segments) :
    WalksUp before none found.2 root (spell lead) segments := by
  refine ⟨spelling.cut, fun reaches => spelling.top ((List.prefix_append _ _).trans reaches), ?_⟩
  intro after grown sameRoot above name dir reaches leads
  refine ancestorFsId_of_components isRoot resolved grown sameRoot ?_
  rwa [spelling.components ((List.prefix_append _ _).trans reaches)]

theorem WalksUp.blank {before : WebState Oid} {rootOverride : Option Oid}
    {chain : AncestorChain Oid} {parent : Oid} {text : List String → String}
    {parts rest : List String} (walks : WalksUp before.repo rootOverride chain root text segments)
    (plain : PlainNames parts) (cut : segments = parts ++ "" :: rest)
    (resolves : Resolves before.repo.fsObjects (namesOf segments) root parent)
    (stands : StandsFor before.repo.fsObjects parent entries) :
    ∀ {tail : List String}, tail <+: rest → ∀ {fuel : Nat} {new top : Oid}
      {state final : WebState Oid}, (parts ++ "" :: tail).length ≤ fuel →
      StoredMore before state →
      walkUpAncestors rootOverride chain fuel (text (parts ++ "" :: tail)) new state =
        (.ok top, final) →
      ∃ time child, StoredMore before final ∧
        EditedAt final.repo.fsObjects (pureEdit (setChild time "" child)) parts root top := by
  intro tail
  induction tail using List.reverseRecOn with
  | nil =>
    intro _ fuel new top state final bound more run
    obtain ⟨fuel, rfl⟩ := Nat.exists_eq_succ_of_ne_zero (show fuel ≠ 0 by
      rw [List.length_append, List.length_singleton] at bound
      omega)
    have reaches : parts ++ [""] <+: segments := ⟨rest, by rw [cut]; simp⟩
    obtain ⟨dir, listed, leads, standsDir⟩ := resolves.prefix_stands stands
      ⟨namesOf ("" :: rest), by rw [cut, namesOf_append]⟩
    obtain ⟨time, newDir, middle, written, newStands, next⟩ :=
      walks.level reaches leads standsDir more run
    rw [namesOf_of_plain plain] at leads
    have here : EditedAt middle.repo.fsObjects (pureEdit (setChild time "" new)) [] dir newDir :=
      .here (standsDir.extends (more.objects.trans written.objects)) rfl newStands
    refine ⟨time, new, ?_⟩
    split at next
    · rename_i isNil
      subst isNil
      obtain rfl : root = dir := leads
      cases next
      exact ⟨more.trans written, here⟩
    · rename_i notRoot
      refine walks.edited plain ((List.prefix_append parts [""]).trans reaches)
        (List.append_nil parts).symm notRoot ?_ leads (more.trans written) here next
      rw [List.length_append, List.length_singleton] at bound
      omega
  | append_singleton tail name ih =>
    intro reachesRest fuel new top state final bound more run
    have shape : parts ++ "" :: (tail ++ [name]) = (parts ++ "" :: tail) ++ [name] := by simp
    rw [shape] at bound run
    obtain ⟨fuel, rfl⟩ := Nat.exists_eq_succ_of_ne_zero (show fuel ≠ 0 by
      rw [List.length_append, List.length_singleton] at bound
      omega)
    obtain ⟨others, isRest⟩ := reachesRest
    have reaches : (parts ++ "" :: tail) ++ [name] <+: segments :=
      ⟨others, by rw [cut, ← isRest]; simp⟩
    obtain ⟨dir, listed, leads, standsDir⟩ := resolves.prefix_stands stands
      (by
        obtain ⟨after, isSegments⟩ := (List.prefix_append _ [name]).trans reaches
        exact ⟨namesOf after, by rw [← namesOf_append, isSegments]⟩)
    obtain ⟨time, newDir, middle, written, -, next⟩ :=
      walks.level reaches leads standsDir more run
    rw [if_neg (by simp)] at next
    refine ih ⟨[name] ++ others, by rw [← isRest]; simp⟩ ?_ (more.trans written) next
    rw [List.length_append, List.length_singleton] at bound
    omega

theorem resolves_of_chain {store : FsStore Oid}
    (resolved : resolveFsIdChainFromRoot store root path = .ok found) :
    Resolves store (pathComponents path) root found.1 := by
  unfold resolveFsIdChainFromRoot at resolved
  split at resolved
  · rename_i atRoot
    cases resolved
    rcases atRoot with rfl | rfl
    · have isNil : pathComponents "/" = [] := by decide
      rw [isNil]
      rfl
    · have isNil : pathComponents "" = [] := by decide
      rw [isNil]
      rfl
  · exact resolves_of_resolveParts resolved

def namesBefore (path : String) : List String :=
  (segmentsOf path).takeWhile fun part => part ≠ ""

theorem cut_at_blank (blank : "" ∈ segments) :
    ∃ rest, segments = (segments.takeWhile fun part => part ≠ "") ++ "" :: rest := by
  induction segments with
  | nil => exact absurd blank List.not_mem_nil
  | cons first others ih =>
    by_cases isBlank : first = ""
    · exact ⟨others, by simp [isBlank]⟩
    · obtain ⟨rest, cut⟩ := ih ((List.mem_cons.mp blank).resolve_left (Ne.symm isBlank))
      refine ⟨rest, ?_⟩
      rw [List.takeWhile_cons_of_pos (by simpa using isBlank), List.cons_append, ← cut]

theorem rebuildAbove_spelled {before state final : WebState Oid} {new top : Oid}
    {apply : List (DirEntryData Oid) → Except AppError (List (DirEntryData Oid) × String)}
    (rooted : path.toList.head? = some '/') (isRoot : resolveRootFsId before.repo = .ok root)
    (resolved : resolveFsIdChainFromRoot before.repo.fsObjects root path = .ok found)
    (stands : StandsFor before.repo.fsObjects found.1 entries) (more : StoredMore before state)
    (edited : EditedAt state.repo.fsObjects apply [] found.1 new)
    (run : rebuildAbove none found.2 path new state = (.ok top, final)) :
    StoredMore before final ∧
      ("" ∉ segmentsOf path → EditedAt final.repo.fsObjects apply (pathComponents path) root top) ∧
      ("" ∈ segmentsOf path → ∃ time child, EditedAt final.repo.fsObjects
        (pureEdit (setChild time "" child)) (namesBefore path) root top) := by
  obtain ⟨spelling, text, components⟩ := spelled rooted
  have resolves := resolves_of_chain resolved
  have walks := walksUp_spelled isRoot resolved spelling
  unfold rebuildAbove at run
  split at run
  · -- The root itself.
    rename_i atRoot
    subst atRoot
    cases run
    have isNil : pathComponents "/" = [] := by decide
    rw [isNil] at resolves ⊢
    obtain rfl : root = found.1 := resolves
    refine ⟨more, fun _ => edited, fun blank => ?_⟩
    exact absurd blank (by decide)
  · rename_i notRoot
    have nonempty : segmentsOf path ≠ [] := by
      intro isNil
      rw [isNil] at text
      exact notRoot text.symm
    have bound : (segmentsOf path).length ≤ path.length := by
      have long := length_le_slashed (segmentsOf path)
      rw [spell, if_neg nonempty] at text
      have lengths := congrArg String.length text
      rw [String.length_append] at lengths
      omega
    have run : walkUpAncestors none found.2 path.length
        (spell (leadOf path) (segmentsOf path)) new state = (.ok top, final) := by rwa [text]
    by_cases blank : "" ∈ segmentsOf path
    · obtain ⟨rest, cut⟩ := cut_at_blank blank
      have reaches : namesBefore path <+: segmentsOf path := List.takeWhile_prefix _
      have plain : PlainNames (namesBefore path) := fun part listed =>
        ⟨by simpa using List.mem_takeWhile_imp listed, spelling.noSlash part (reaches.subset listed)⟩
      rw [cut] at run
      rw [components] at resolves
      obtain ⟨time, child, more', edited'⟩ := walks.blank plain cut resolves stands List.prefix_rfl
        (cut ▸ bound) more run
      exact ⟨more', fun none => absurd blank none, fun _ => ⟨time, child, edited'⟩⟩
    · have plain : PlainNames (segmentsOf path) := fun part listed =>
        ⟨fun same => blank (same ▸ listed), spelling.noSlash part listed⟩
      rw [components, namesOf_of_plain plain] at resolves ⊢
      obtain ⟨more', edited'⟩ := walks.edited plain List.prefix_rfl (List.append_nil _).symm
        nonempty bound resolves more edited run
      exact ⟨more', fun _ => edited', fun isBlank => absurd isBlank blank⟩

end Nanofile
