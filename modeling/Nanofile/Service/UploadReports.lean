import Nanofile.Service.UploadPlaces

/-!
# Whether an upload is found where it is reported

The path that is reported is joined from the target and the name given.  The file is
there when the walk up met the same directories; what else the upload may lose is what lay
below a directory it replaced.
-/

set_option autoImplicit false

namespace Nanofile

open Nanofile.Lib

variable {Oid : Type} [DecidableEq Oid] [Digests Oid]

/-! ## Resolving is finding an entry -/

variable {name other : String} {store : FsStore Oid} {repo : Repo Oid} {root : Oid}

section Resolving

variable [ToString Oid] {id : Oid}

theorem resolveSegments_concat_iff :
    ∀ {upper : List String} {root : Oid}, resolveSegments store (upper ++ [name]) root = .ok id ↔
      ∃ entry, FoundAt store upper name root entry ∧ entry.id = id := by
  intro upper
  induction upper with
  | nil =>
    intro root
    simp only [List.nil_append, resolveSegments, except_bind_ok_iff, okOr_eq_ok_iff,
      ensure_eq_ok_iff]
    constructor
    · rintro ⟨dir, read, entry, found, -, -, same⟩
      exact ⟨entry, ⟨root, dir.dirents, rfl, standsFor_of_readFsDirData read, found⟩,
        Except.ok.inj same⟩
    · rintro ⟨entry, ⟨dir, entries, rfl, stands, found⟩, same⟩
      obtain ⟨data, read, rfl⟩ := stands.read
      exact ⟨data, read, entry, found, (), Or.inl trivial, congrArg Except.ok same⟩
  | cons first rest ih =>
    intro root
    simp only [List.cons_append, resolveSegments, except_bind_ok_iff, okOr_eq_ok_iff,
      ensure_eq_ok_iff]
    constructor
    · rintro ⟨dir, read, passed, found, -, directory, below⟩
      obtain ⟨entry, ⟨dir', entries, resolves, stands, isEntry⟩, same⟩ := ih.mp below
      exact ⟨entry, ⟨dir', entries, ⟨dir.dirents, passed, standsFor_of_readFsDirData read, found,
        directory.resolve_left (by simp), resolves⟩, stands, isEntry⟩, same⟩
    · rintro ⟨entry, ⟨dir', entries, ⟨listed, passed, stands, found, directory, resolves⟩,
        standsDir, isEntry⟩, same⟩
      obtain ⟨data, read, rfl⟩ := stands.read
      exact ⟨data, read, passed, found, (), Or.inr directory,
        ih.mpr ⟨entry, ⟨dir', entries, resolves, standsDir, isEntry⟩, same⟩⟩

theorem resolveFsId_iff {path : String} (isRoot : resolveRootFsId repo = .ok root) :
    resolveFsId repo path = .ok id ↔
      resolveSegments repo.fsObjects (pathComponents path) root = .ok id := by
  unfold resolveFsId
  simp only [except_bind_ok_iff, isRoot, Except.ok.injEq, exists_eq_left']
  split
  · rename_i atRoot
    have isNil : pathComponents path = [] := by rw [atRoot]; decide
    rw [isNil]
    rfl
  · exact Iff.rfl

theorem others_resolve {before after : Repo Oid} {top : Oid} {place : List String}
    (isTop : resolveRootFsId after = .ok top)
    (kept : ∀ root, resolveRootFsId before = .ok root → ∀ {upper : List String} {name : String}
      {entry : DirEntryData Oid}, PlainNames (upper ++ [name]) → upper ++ [name] ≠ place →
        FoundAt before.fsObjects upper name root entry →
        ∃ entry', FoundAt after.fsObjects upper name top entry' ∧
          (entry'.id = entry.id ∨ upper ++ [name] <+: place)) (apart : pathComponents other ≠ place)
    (resolves : resolveFsId before other = .ok id) :
    ∃ id', resolveFsId after other = .ok id' ∧ (id' = id ∨ pathComponents other <+: place) := by
  obtain ⟨root, isRoot, -⟩ := except_bind_ok_iff.mp resolves
  rw [resolveFsId_iff isRoot] at resolves
  simp only [resolveFsId_iff isTop]
  rcases List.eq_nil_or_concat (pathComponents other) with isNil | ⟨upper, name, isConcat⟩
  · rw [isNil]
    exact ⟨top, rfl, Or.inr List.nil_prefix⟩
  · have plain := plainNames_pathComponents other
    rw [isConcat, List.concat_eq_append] at resolves apart plain ⊢
    obtain ⟨entry, found, rfl⟩ := resolveSegments_concat_iff.mp resolves
    obtain ⟨entry', found', shape⟩ := kept root isRoot plain apart found
    exact ⟨entry'.id, resolveSegments_concat_iff.mpr ⟨entry', found', rfl⟩, shape⟩

end Resolving

/-! ## Edits of the target -/

variable {entries : List (DirEntryData Oid)}

theorem StandsFor.of_empty (stands : StandsFor store emptySha1 entries) : entries = [] := by
  rw [← stands.entries, entriesOf, dirBatch_empty]
  rfl

omit [DecidableEq Oid] [Digests Oid] in
theorem lookup_setChild_of_ne {now : Int} {child : Oid} (apart : other ≠ name) :
    ∀ entries : List (DirEntryData Oid),
      lookup (setChild now name child entries) other = lookup entries other := by
  intro entries
  induction entries with
  | nil => simp [setChild, lookup, Ne.symm apart]
  | cons first rest ih =>
    unfold lookup at ih ⊢
    by_cases here : first.name = name
    · have missed : first.name ≠ other := fun same => apart (same.symm.trans here)
      simp [setChild, here, Ne.symm apart]
    · rw [setChild, if_neg here, List.find?_cons, List.find?_cons, ih]

variable {top : Oid}

theorem EditedAt.congr {parts : List String} {dir : Oid}
    {updateFn other : List (DirEntryData Oid) → List (DirEntryData Oid)}
    (edited : EditedAt store (pureEdit updateFn) parts root top)
    (resolves : Resolves store parts root dir) (stands : StandsFor store dir entries)
    (same : updateFn entries = other entries) : EditedAt store (pureEdit other) parts root top := by
  induction edited with
  | @here old new listed kept description reads applied standsNew =>
    cases applied
    obtain rfl : old = dir := resolves
    obtain rfl := reads.entries.symm.trans stands.entries
    exact .here reads rfl (same ▸ standsNew)
  | @down name rest old new child listed entry reads found directory below standsNew ih =>
    obtain ⟨listed', entry', reads', found', -, deeper⟩ := resolves
    obtain rfl := reads.entries.symm.trans reads'.entries
    obtain rfl : entry = entry' := Option.some.inj (found.symm.trans found')
    exact .down reads found directory (ih deeper) standsNew

theorem takeWhile_prefix_namesOf (segments : List String) :
    (segments.takeWhile fun part => part ≠ "") <+: namesOf segments := by
  induction segments with
  | nil => exact List.nil_prefix
  | cons first rest ih =>
    by_cases blank : first = ""
    · simp [blank]
    · simpa [namesOf, blank] using ih

variable {path : String}

theorem prefix_of_namesBefore (rooted : path.toList.head? = some '/') :
    namesBefore path <+: pathComponents path := by
  rw [(spelled rooted).2.2]
  exact takeWhile_prefix_namesOf (segmentsOf path)

/-! ## What holds afterwards -/

/-- An upload that reports the name is found under it, and every path that was there before
resolves as before; a directory above the file has other contents. -/
def UploadKept [ToString Oid] (before after : Repo Oid) (targetDir effective : String)
    (fsId : Oid) : Prop :=
  ∃ path, safeJoinPath targetDir effective = .ok path ∧ resolveFsId after path = .ok fsId ∧
    ∀ other id, pathComponents other ≠ pathComponents path → resolveFsId before other = .ok id →
      ∃ id', resolveFsId after other = .ok id' ∧
        (id' = id ∨ pathComponents other <+: pathComponents path)

/-- Nothing that a path can name is below the entry. -/
def HoldsNothing (store : FsStore Oid) (entries : List (DirEntryData Oid)) (name : String) : Prop :=
  ∀ entry, lookup entries name = some entry → isDir entry.mode = true →
    ∀ inner ∈ entriesOf store entry.id, inner.name = "" ∨ '/' ∈ inner.name.toList

/-- The file gets a name of blanks, which paths read as no name. -/
def BlankName (entries : List (DirEntryData Oid)) (filename : String) (replace : Bool) : Prop :=
  trimText filename = "" ∧ (replace = true ∨ lookup entries filename = none)

/-- When an upload into a directory with these entries is found.  Into a target with a slash
too many only what is there already; under a blank name at most an empty file is taken for the
empty directory it was put beside. -/
def UploadFits (store : FsStore Oid) (targetDir filename : String) (parent : Oid)
    (entries : List (DirEntryData Oid)) (fsId : Oid) (totalSize : Int) (replace : Bool) : Prop :=
  (BlankName entries filename replace → "" ∈ segmentsOf targetDir ∧
    namesBefore targetDir ≠ pathComponents targetDir ∧ parent = emptySha1 ∧ totalSize = 0) ∧
  (¬ BlankName entries filename replace → "" ∈ segmentsOf targetDir →
    replace = true ∧ AlreadyThere entries filename fsId) ∧
  (¬ BlankName entries filename replace → "" ∉ segmentsOf targetDir →
    (IdenticalReplace replace entries filename fsId totalSize →
      AlreadyThere entries filename fsId) ∧
    (replace = true → ¬ IdenticalReplace replace entries filename fsId totalSize →
      HoldsNothing store entries filename))

/-! ## A target with a slash too many -/

variable {before after : Repo Oid} {targetDir : String}
  {updateFn : List (DirEntryData Oid) → List (DirEntryData Oid)} {base parent top : Oid}
  {entries : List (DirEntryData Oid)}

theorem Uploaded.misplaced_target
    (uploaded : Uploaded before after targetDir updateFn base parent top entries)
    (rooted : targetDir.toList.head? = some '/') (blank : "" ∈ segmentsOf targetDir) :
    ∃ dir listed, Resolves after.fsObjects (pathComponents targetDir) top dir ∧
      StandsFor after.fsObjects dir listed ∧
      (namesBefore targetDir = pathComponents targetDir → listed ≠ []) ∧
      (namesBefore targetDir ≠ pathComponents targetDir → dir = parent) ∧
      ∀ name ≠ "", (lookup listed name).map DirEntryData.id =
        (lookup entries name).map DirEntryData.id := by
  obtain ⟨time, child, edited⟩ := uploaded.misplaced blank
  have resolves := uploaded.resolves.extends uploaded.grown
  have stands := uploaded.stands.extends uploaded.grown
  by_cases here : namesBefore targetDir = pathComponents targetDir
  · rw [here] at edited
    obtain ⟨old, new, listed, resolvesOld, standsOld, resolvesNew, standsNew⟩ := edited.dir_here
    obtain rfl := resolves.unique resolvesOld
    obtain rfl := stands.entries.symm.trans standsOld.entries
    refine ⟨new, _, resolvesNew, standsNew, fun _ => ?_, fun apart => absurd here apart, ?_⟩
    · have nonempty : setChild time "" child entries ≠ [] := by
        cases entries with
        | nil => simp [setChild]
        | cons first rest =>
          unfold setChild
          split <;> simp
      intro isNil
      have lengths := (stored_perm (setChild time "" child entries)).length_eq
      rw [isNil, List.length_map] at lengths
      exact nonempty (List.eq_nil_of_length_eq_zero lengths.symm)
    · intro name visible
      rw [lookup_in_stored, lookup_setChild_of_ne visible, Option.map_map]
      congr 1
      funext entry
      exact written_id entry
  · have keeps : KeepsWay (setChild time "" child) (namesBefore targetDir)
        (pathComponents targetDir) := by
      intro name passed listed entry found
      have visible := (plainNames_pathComponents targetDir name (passed.subset (by simp))).1
      rwa [lookup_setChild_of_ne visible]
    obtain ⟨dir, listed, resolves', stands', shape⟩ :=
      edited.dir_other (Ne.symm here) keeps resolves stands
    refine ⟨dir, listed, resolves', stands', fun same => absurd same here, fun _ => ?_, ?_⟩
    · rcases shape with ⟨same, -⟩ | ⟨next, rest, -, -, longer, -⟩
      · exact same
      · have shorter := (prefix_of_namesBefore rooted).length_le
        rw [longer, List.length_append, List.length_cons] at shorter
        omega
    · rcases shape with ⟨-, rfl⟩ | ⟨next, rest, -, -, longer, -⟩
      · exact fun _ _ => rfl
      · have shorter := (prefix_of_namesBefore rooted).length_le
        rw [longer, List.length_append, List.length_cons] at shorter
        omega

variable {entry : DirEntryData Oid} {upper : List String}

theorem Uploaded.misplaced_kept
    (uploaded : Uploaded before after targetDir updateFn base parent top entries)
    (rooted : targetDir.toList.head? = some '/') (blank : "" ∈ segmentsOf targetDir)
    (plain : PlainNames (upper ++ [name]))
    (found : FoundAt before.fsObjects upper name base entry) :
    ∃ entry', FoundAt after.fsObjects upper name top entry' ∧
      (entry'.id = entry.id ∨ upper ++ [name] <+: pathComponents targetDir) := by
  obtain ⟨time, child, edited⟩ := uploaded.misplaced blank
  have keeps : KeepsWay (setChild time "" child) (namesBefore targetDir) (upper ++ [name]) := by
    intro other passed listed entry isEntry
    have visible := (plain other (passed.subset (by simp))).1
    rwa [lookup_setChild_of_ne visible]
  obtain ⟨entry', found', -, shape⟩ := edited.found keeps (found.extends uploaded.grown)
  exact ⟨entry', found', shape.imp_right fun ⟨_, way⟩ => way.trans (prefix_of_namesBefore rooted)⟩

/-! ## A target that is met -/

section Placed

variable {filename modifier : String} {fsId : Oid} {totalSize time : Int} {replace : Bool}

theorem Uploaded.placed_kept (uploaded : Uploaded before after targetDir
      (fun listed => (addFile fsId filename modifier totalSize time replace listed).1) base parent
      top entries) (met : "" ∉ segmentsOf targetDir)
    (found : FoundAt before.fsObjects upper name base entry)
    (avoids : replace = true → ¬ IdenticalReplace replace entries filename fsId totalSize →
      ¬ pathComponents targetDir ++ [filename] <+: upper ++ [name]) :
    ∃ entry', FoundAt after.fsObjects upper name top entry' ∧
      (entry'.id = entry.id ∨ upper ++ [name] <+: pathComponents targetDir) := by
  have edited := uploaded.edited met
  have resolves := uploaded.resolves.extends uploaded.grown
  have stands := uploaded.stands.extends uploaded.grown
  have kept : ∀ {other : List (DirEntryData Oid) → List (DirEntryData Oid)},
      (addFile fsId filename modifier totalSize time replace entries).1 = other entries →
      KeepsWay other (pathComponents targetDir) (upper ++ [name]) →
      ∃ entry', FoundAt after.fsObjects upper name top entry' ∧
        (entry'.id = entry.id ∨ upper ++ [name] <+: pathComponents targetDir) := by
    intro other same keeps
    obtain ⟨entry', found', -, shape⟩ :=
      (edited.congr resolves stands same).found keeps (found.extends uploaded.grown)
    exact ⟨entry', found', shape.imp_right And.right⟩
  rcases addFile_cases fsId filename modifier totalSize time replace entries with
    ⟨-, same⟩ | ⟨replaces, different, same⟩ | ⟨-, effective, -, -, same⟩
  · exact @kept id (congrArg Prod.fst same) fun _ _ _ _ isFound => isFound
  · refine @kept (fun listed => withoutName filename listed ++
      [⟨fsId, sIfreg, modifier, time, filename, totalSize⟩]) (congrArg Prod.fst same) ?_
    intro next passed listed inner isFound
    have apart : next ≠ filename := fun isName => avoids replaces different (isName ▸ passed)
    exact keepsFound_append _ next _ _ (keepsFound_withoutName apart _ _ isFound)
  · exact kept (congrArg Prod.fst same) fun next _ => keepsFound_append _ next

theorem HoldsNothing.not_found {parts : List String} (nothing : HoldsNothing store entries filename)
    (resolves : Resolves store parts base parent) (stands : StandsFor store parent entries)
    (plain : PlainNames (upper ++ [name])) (reaches : parts ++ [filename] <+: upper ++ [name])
    (longer : upper ++ [name] ≠ parts ++ [filename]) : ¬ FoundAt store upper name base entry := by
  rintro ⟨dir, listed, leads, standsDir, found⟩
  obtain ⟨rest, isUpper⟩ := reaches
  obtain ⟨tail, last, rfl⟩ : ∃ tail last, rest = tail ++ [last] := by
    rcases List.eq_nil_or_concat rest with rfl | ⟨tail, last, rfl⟩
    · exact absurd (by simpa using isUpper.symm) longer
    · exact ⟨tail, last, List.concat_eq_append⟩
  rw [← List.append_assoc] at isUpper
  obtain ⟨rfl, same⟩ := List.append_inj' isUpper rfl
  obtain rfl := List.head_eq_of_cons_eq same
  rw [List.append_assoc] at leads
  obtain ⟨middle, leadsParent, entries', passed, standsParent, isPassed, directory, below⟩ :=
    resolves_append.mp leads
  obtain rfl := leadsParent.unique resolves
  obtain rfl := standsParent.entries.symm.trans stands.entries
  have blocked : ∀ {next : String} {inner : DirEntryData Oid} {listed : List (DirEntryData Oid)},
      StandsFor store passed.id listed → lookup listed next = some inner →
      next ≠ "" ∧ '/' ∉ next.toList → False := by
    intro next inner listed standsBelow isInner visible
    obtain ⟨member, isName⟩ := lookup_eq_some isInner
    rw [← standsBelow.entries] at member
    rcases nothing passed isPassed directory inner member with isBlank | slash
    · exact visible.1 (isName.symm.trans isBlank)
    · exact visible.2 (isName ▸ slash)
  cases tail with
  | nil =>
    obtain rfl : passed.id = dir := below
    exact blocked standsDir found (plain last (by simp))
  | cons next more =>
    obtain ⟨level, inner, standsLevel, isInner, -, -⟩ := below
    exact blocked standsLevel isInner (plain next (by simp))

section

omit [DecidableEq Oid] [Digests Oid]

theorem lookup_concat {kept : List (DirEntryData Oid)} {new : DirEntryData Oid}
    (free : lookup kept new.name = none) : lookup (kept ++ [new]) new.name = some new := by
  unfold lookup at free ⊢
  simp [List.find?_append, free]

theorem lookup_withoutName (name : String) (listed : List (DirEntryData Oid)) :
    lookup (withoutName name listed) name = none := by
  unfold lookup withoutName
  rw [List.find?_eq_none]
  intro entry member
  simpa using (List.mem_filter.mp member).2

theorem lookup_withoutName_of_ne (apart : other ≠ name) {listed : List (DirEntryData Oid)} :
    lookup (withoutName name listed) other = lookup listed other := by
  unfold lookup withoutName
  rw [List.find?_filter]
  congr 1
  funext entry
  by_cases named : entry.name = other
  · simp [named, apart]
  · simp [named]

end

theorem Uploaded.holdsNothing_of_kept [ToString Oid] {origin : Repo Oid} {dir : Oid}
    {left : List (DirEntryData Oid)}
    (uploaded : Uploaded before after targetDir updateFn base parent top entries)
    (plain : PlainNames (pathComponents targetDir ++ [filename]))
    (isTop : resolveRootFsId after = .ok top)
    (resolves : Resolves after.fsObjects (pathComponents targetDir) top dir)
    (stands : StandsFor after.fsObjects dir (stored left))
    (isNew : lookup left filename = some ⟨fsId, sIfreg, modifier, time, filename, totalSize⟩)
    (same : entries ≠ [] → before = origin)
    (kept : ∀ other id, pathComponents other ≠ pathComponents targetDir ++ [filename] →
      resolveFsId origin other = .ok id → ∃ id', resolveFsId after other = .ok id' ∧
        (id' = id ∨ pathComponents other <+: pathComponents targetDir ++ [filename])) :
    HoldsNothing origin.fsObjects entries filename := by
  intro entry isEntry directory inner member
  by_contra visible
  rw [not_or] at visible
  have nonempty : entries ≠ [] := List.ne_nil_of_mem (lookup_eq_some isEntry).1
  obtain rfl := same nonempty
  -- The first entry of the name is found before.
  obtain ⟨listed, standsEntry⟩ : ∃ listed, StandsFor before.fsObjects entry.id listed := by
    cases read : dirBatch before.fsObjects entry.id with
    | none => simp [entriesOf, read] at member
    | some data => exact ⟨data.dirents, Or.inr ⟨data, read, rfl⟩⟩
  rw [standsEntry.entries] at member
  obtain ⟨first, isFirst⟩ : ∃ first, lookup listed inner.name = some first := by
    cases found : lookup listed inner.name with
    | some first => exact ⟨first, rfl⟩
    | none =>
      rw [lookup, List.find?_eq_none] at found
      exact absurd (found inner member) (by simp)
  have leads : Resolves before.fsObjects (pathComponents targetDir ++ [filename]) base entry.id :=
    resolves_append.mpr ⟨parent, uploaded.resolves, entries, entry, uploaded.stands, isEntry,
      directory, rfl⟩
  have found : FoundAt before.fsObjects (pathComponents targetDir ++ [filename]) inner.name base
      first := ⟨entry.id, listed, leads, standsEntry, isFirst⟩
  have isBase : resolveRootFsId before = .ok base := by
    rcases uploaded.isBase with isBase | ⟨-, -, isEmpty⟩
    · exact isBase
    · rw [isEmpty] at found
      exact absurd found foundAt_empty
  have plainInner : PlainNames ((pathComponents targetDir ++ [filename]) ++ [inner.name]) := by
    intro part listed
    rcases List.mem_append.mp listed with before | last
    · exact plain part before
    · rw [List.mem_singleton.mp last]
      exact visible
  have components := pathComponents_pathOf plainInner
  have resolvesInner : resolveFsId before
      (pathOf ((pathComponents targetDir ++ [filename]) ++ [inner.name])) = .ok first.id := by
    rw [resolveFsId_iff isBase, components]
    exact resolveSegments_concat_iff.mpr ⟨first, found, rfl⟩
  obtain ⟨id', resolves', -⟩ := kept _ first.id (by rw [components]; simp) resolvesInner
  rw [resolveFsId_iff isTop, components, resolveSegments_concat_iff] at resolves'
  obtain ⟨_, ⟨_, _, leadsAfter, -⟩, -⟩ := resolves'
  obtain ⟨middle, leadsTarget, listedAfter, passed, standsTarget, isPassed, isDirectory, -⟩ :=
    resolves_append.mp leadsAfter
  obtain rfl := leadsTarget.unique resolves
  obtain rfl := standsTarget.entries.symm.trans stands.entries
  rw [lookup_in_stored, isNew, Option.map_some, Option.some.injEq] at isPassed
  rw [← isPassed, written_mode] at isDirectory
  have noDirectory : isDir sIfreg = false := by decide
  exact absurd isDirectory (by simp [noDirectory])

omit [Digests Oid] in
/-- The name given is one component, and a blank one only when a blank one was asked for. -/
theorem effective_component (valid : validateFilename filename = .ok ()) :
    '/' ∉ (addFile fsId filename modifier totalSize time replace entries).2.toList ∧
      ¬ IsDots (addFile fsId filename modifier totalSize time replace entries).2 ∧
      (trimText (addFile fsId filename modifier totalSize time replace entries).2 = "" ↔
        BlankName entries filename replace) := by
  obtain ⟨-, notDot, notDots, noSlash⟩ := validateFilename_component valid
  have asked : '/' ∉ filename.toList ∧ ¬ IsDots filename := ⟨noSlash, not_or.mpr ⟨notDot, notDots⟩⟩
  rcases addFile_cases fsId filename modifier totalSize time replace entries with
    ⟨identical, same⟩ | ⟨replaces, -, same⟩ | ⟨adds, effective, -, isEffective, same⟩
  · rw [same]
    exact ⟨asked.1, asked.2, fun blank => ⟨blank, Or.inl identical.1⟩, And.left⟩
  · rw [same]
    exact ⟨asked.1, asked.2, fun blank => ⟨blank, Or.inl replaces⟩, And.left⟩
  · rw [same]
    split at isEffective
    · rename_i free
      subst isEffective
      exact ⟨asked.1, asked.2, fun blank => ⟨blank, Or.inr free⟩, And.left⟩
    · rename_i taken
      obtain ⟨component, named, visible⟩ := generateUniqueFilename_component entries noSlash
      subst isEffective
      refine ⟨component, named, fun blank => absurd blank visible, fun blank => ?_⟩
      rcases blank.2 with replaces | free
      · rw [adds] at replaces
        cases replaces
      · exact absurd free taken

variable [ToString Oid] {origin : Repo Oid} {blockIds : List Oid} {effective path : String}

theorem Uploaded.kept_iff
    (uploaded : Uploaded before after targetDir
      (fun listed => (addFile fsId filename modifier totalSize time replace listed).1) base parent
      top entries)
    (noDots : ∀ part ∈ pathComponents targetDir, ¬ IsDots part)
    (isId : fsId = uploadedId blockIds totalSize) (valid : validateFilename filename = .ok ())
    (isEffective : effective = (addFile fsId filename modifier totalSize time replace entries).2)
    (joined : safeJoinPath targetDir effective = .ok path)
    (link : ∀ root, resolveRootFsId origin = .ok root →
      PathsKept origin.fsObjects before.fsObjects root base (pathComponents targetDir))
    (same : entries ≠ [] → before = origin) :
    UploadKept origin after targetDir effective fsId ↔
      UploadFits origin.fsObjects targetDir filename parent entries fsId totalSize replace := by
  obtain ⟨noSlash, named, blankIff⟩ : '/' ∉ effective.toList ∧ ¬ IsDots effective ∧
      (trimText effective = "" ↔ BlankName entries filename replace) := by
    rw [isEffective]
    exact effective_component valid
  obtain ⟨rooted, isPath⟩ := safeJoinPath_of_noDots noDots noSlash named joined
  have plain := plainNames_pathComponents targetDir
  have isTop := uploaded.isTop
  -- What was found before the upload is found after it, when the last step keeps it.
  have others : ∀ {place : List String}, pathComponents targetDir <+: place →
      (∀ {upper : List String} {name : String} {entry : DirEntryData Oid},
        PlainNames (upper ++ [name]) → upper ++ [name] ≠ place →
        FoundAt before.fsObjects upper name base entry →
        ∃ entry', FoundAt after.fsObjects upper name top entry' ∧
          (entry'.id = entry.id ∨ upper ++ [name] <+: pathComponents targetDir)) →
      ∀ other id, pathComponents other ≠ place → resolveFsId origin other = .ok id →
        ∃ id', resolveFsId after other = .ok id' ∧ (id' = id ∨ pathComponents other <+: place) := by
    intro place reaches last other id apart resolves
    refine others_resolve isTop ?_ apart resolves
    intro root isRoot upper name entry plainName away found
    obtain ⟨between, foundBetween, -, shape⟩ := link root isRoot found
    obtain ⟨entry', found', shape'⟩ := last plainName away foundBetween
    refine ⟨entry', found', ?_⟩
    rcases shape' with sameId | way
    · rcases shape with sameId' | ⟨-, way⟩
      · exact Or.inl (sameId.trans sameId')
      · exact Or.inr (way.trans reaches)
    · exact Or.inr (way.trans reaches)
  by_cases blank : BlankName entries filename replace
  · -- The path reported is the target's own.
    rw [if_pos (blankIff.mpr blank)] at isPath
    have components : pathComponents path = pathComponents targetDir := by
      rw [isPath, pathComponents_pathOf plain]
    by_cases superfluous : "" ∈ segmentsOf targetDir
    · obtain ⟨dir, listed, resolves, stands, nonempty, unchanged, -⟩ :=
        uploaded.misplaced_target rooted superfluous
      have reported : resolveFsId after path = .ok dir := isPath ▸ resolves.resolveFsId plain isTop
      constructor
      · rintro ⟨path', joined', found, -⟩
        obtain rfl := Except.ok.inj (joined.symm.trans joined')
        have sameId : dir = fsId := Except.ok.inj (reported.symm.trans found)
        obtain ⟨isEmpty, noSize⟩ := uploadedId_ne_dir uploaded.genuine stands blockIds totalSize
          (sameId.trans isId)
        have apart : namesBefore targetDir ≠ pathComponents targetDir := by
          intro here
          rw [isEmpty] at stands
          exact nonempty here stands.of_empty
        exact ⟨fun _ => ⟨superfluous, apart, (unchanged apart).symm.trans isEmpty, noSize⟩,
          fun visible => absurd blank visible, fun visible => absurd blank visible⟩
      · rintro ⟨fits, -, -⟩
        obtain ⟨-, apart, isEmpty, noSize⟩ := fits blank
        have sameId : dir = fsId := by
          rw [unchanged apart, isEmpty, isId, uploadedId, if_pos noSize]
        refine ⟨path, joined, reported.trans (congrArg Except.ok sameId), ?_⟩
        rw [components]
        exact others List.prefix_rfl fun plainName _ found =>
          uploaded.misplaced_kept rooted superfluous plainName found
    · -- The target's own object is a directory with entries.
      obtain ⟨old, dir, listed, resolvesOld, standsOld, resolves, stands⟩ :=
        (uploaded.edited superfluous).dir_here
      have reported : resolveFsId after path = .ok dir := isPath ▸ resolves.resolveFsId plain isTop
      refine iff_of_false ?_ fun fits => superfluous (fits.1 blank).1
      rintro ⟨path', joined', found, -⟩
      obtain rfl := Except.ok.inj (joined.symm.trans joined')
      have sameId : dir = fsId := Except.ok.inj (reported.symm.trans found)
      obtain ⟨isEmpty, -⟩ := uploadedId_ne_dir uploaded.genuine stands blockIds totalSize
        (sameId.trans isId)
      rw [isEmpty] at stands
      have lengths := (stored_perm
        (addFile fsId filename modifier totalSize time replace listed).1).length_eq
      rw [stands.of_empty, List.length_map] at lengths
      exact addFile_ne_nil fsId filename modifier totalSize time replace listed
        (List.eq_nil_of_length_eq_zero lengths.symm)
  · rw [if_neg fun isBlank => blank (blankIff.mp isBlank)] at isPath
    have plain' : PlainNames (pathComponents targetDir ++ [effective]) := by
      intro part listed
      rcases List.mem_append.mp listed with before | last
      · exact plain part before
      · rw [List.mem_singleton.mp last]
        refine ⟨fun isEmpty => blank (blankIff.mp ?_), noSlash⟩
        rw [isEmpty]
        decide
    have components : pathComponents path = pathComponents targetDir ++ [effective] := by
      rw [isPath, pathComponents_pathOf plain']
    have reported : ∀ {id : Oid}, resolveFsId after path = .ok id ↔
        ∃ entry, FoundAt after.fsObjects (pathComponents targetDir) effective top entry ∧
          entry.id = id := by
      intro id
      rw [resolveFsId_iff isTop, components, resolveSegments_concat_iff]
    by_cases superfluous : "" ∈ segmentsOf targetDir
    · obtain ⟨dir, listed, resolves, stands, -, -, sameLookup⟩ :=
        uploaded.misplaced_target rooted superfluous
      have visible : effective ≠ "" := (plain' effective (by simp)).1
      have there : resolveFsId after path = .ok fsId ↔
          (lookup entries effective).map DirEntryData.id = some fsId := by
        rw [reported, ← sameLookup effective visible, Option.map_eq_some_iff]
        constructor
        · rintro ⟨entry, ⟨dir', listed', resolves', stands', isEntry⟩, sameId⟩
          obtain rfl := resolves.unique resolves'
          obtain rfl := stands.entries.symm.trans stands'.entries
          exact ⟨entry, isEntry, sameId⟩
        · rintro ⟨entry, isEntry, sameId⟩
          exact ⟨entry, ⟨dir, listed, resolves, stands, isEntry⟩, sameId⟩
      have kept : (lookup entries effective).map DirEntryData.id = some fsId ↔
          replace = true ∧ AlreadyThere entries filename fsId := by
        rw [Option.map_eq_some_iff]
        rcases addFile_cases fsId filename modifier totalSize time replace entries with
          ⟨⟨replaces, -⟩, same⟩ | ⟨replaces, -, same⟩ | ⟨adds, given, free, -, same⟩
        · rw [isEffective, same]
          exact (and_iff_right replaces).symm
        · rw [isEffective, same]
          exact (and_iff_right replaces).symm
        · rw [isEffective, same, free, adds]
          simp
      constructor
      · rintro ⟨path', joined', found, -⟩
        obtain rfl := Except.ok.inj (joined.symm.trans joined')
        exact ⟨fun isBlank => absurd isBlank blank, fun _ _ => kept.mp (there.mp found),
          fun _ met => absurd superfluous met⟩
      · rintro ⟨-, fits, -⟩
        refine ⟨path, joined, there.mpr (kept.mpr (fits blank superfluous)), ?_⟩
        rw [components]
        exact others (List.prefix_append _ _) fun plainName _ found =>
          uploaded.misplaced_kept rooted superfluous plainName found
    · obtain ⟨old, dir, listed, resolvesOld, standsOld, resolves, stands⟩ :=
        (uploaded.edited superfluous).dir_here
      obtain rfl := resolvesOld.unique (uploaded.resolves.extends uploaded.grown)
      obtain rfl := standsOld.entries.symm.trans (uploaded.stands.extends uploaded.grown).entries
      have there : resolveFsId after path = .ok fsId ↔ ∃ entry,
          lookup (addFile fsId filename modifier totalSize time replace listed).1 effective =
            some entry ∧ entry.id = fsId := by
        rw [reported]
        constructor
        · rintro ⟨entry, ⟨dir', listed', resolves', stands', isEntry⟩, sameId⟩
          obtain rfl := resolves.unique resolves'
          obtain rfl := stands.entries.symm.trans stands'.entries
          rw [lookup_in_stored, Option.map_eq_some_iff] at isEntry
          obtain ⟨origin, isOrigin, rfl⟩ := isEntry
          exact ⟨origin, isOrigin, (written_id origin).symm.trans sameId⟩
        · rintro ⟨entry, isEntry, sameId⟩
          refine ⟨entry.written, ⟨dir, _, resolves, stands, ?_⟩, (written_id entry).trans sameId⟩
          rw [lookup_in_stored, isEntry]
          rfl
      -- The three ways an entry gets into the target.
      rcases addFile_cases fsId filename modifier totalSize time replace listed with
        ⟨identical, given⟩ | ⟨replaces, different, given⟩ | ⟨adds, unused, free, -, given⟩
      · have isName : effective = filename := by rw [isEffective, given]
        rw [given, isName] at there
        constructor
        · rintro ⟨path', joined', found, -⟩
          obtain rfl := Except.ok.inj (joined.symm.trans joined')
          exact ⟨fun isBlank => absurd isBlank blank, fun _ bad => absurd bad superfluous,
            fun _ _ => ⟨fun _ => there.mp found, fun _ different => absurd identical different⟩⟩
        · rintro ⟨-, -, fits⟩
          refine ⟨path, joined, there.mpr ((fits blank superfluous).1 identical), ?_⟩
          rw [components]
          exact others (List.prefix_append _ _) fun _ _ found =>
            uploaded.placed_kept superfluous found fun _ different => absurd identical different
      · have isName : effective = filename := by rw [isEffective, given]
        rw [given, isName] at there
        have isNew : lookup (withoutName filename listed ++
            [⟨fsId, sIfreg, modifier, time, filename, totalSize⟩]) filename =
            some ⟨fsId, sIfreg, modifier, time, filename, totalSize⟩ :=
          lookup_concat (lookup_withoutName filename listed)
        rw [isName] at components
        constructor
        · rintro ⟨path', joined', -, kept⟩
          obtain rfl := Except.ok.inj (joined.symm.trans joined')
          refine ⟨fun isBlank => absurd isBlank blank, fun _ bad => absurd bad superfluous,
            fun _ _ => ⟨fun identical => absurd identical different, fun _ _ => ?_⟩⟩
          rw [components] at kept
          rw [given] at stands
          refine uploaded.holdsNothing_of_kept (isName ▸ plain') isTop resolves stands isNew ?_ kept
          exact same
        · rintro ⟨-, -, fits⟩
          refine ⟨path, joined, there.mpr ⟨_, isNew, rfl⟩, ?_⟩
          rw [components]
          refine others (List.prefix_append _ _) fun plainName longer found =>
            uploaded.placed_kept superfluous found fun _ _ reaches => ?_
          have nothing : HoldsNothing before.fsObjects listed filename := by
            intro entry isEntry
            have nonempty : listed ≠ [] := List.ne_nil_of_mem (lookup_eq_some isEntry).1
            rw [same nonempty]
            exact (fits blank superfluous).2 replaces different entry isEntry
          exact nothing.not_found uploaded.resolves uploaded.stands plainName reaches longer found
      · have isName : effective = unused := by rw [isEffective, given]
        rw [given, isName] at there
        have isNew : lookup (listed ++ [⟨fsId, sIfreg, modifier, time, unused, totalSize⟩]) unused =
            some ⟨fsId, sIfreg, modifier, time, unused, totalSize⟩ := lookup_concat free
        refine iff_of_true ⟨path, joined, there.mpr ⟨_, isNew, rfl⟩, ?_⟩
          ⟨fun isBlank => absurd isBlank blank, fun _ bad => absurd bad superfluous,
            fun _ _ => ⟨fun identical => ?_, fun replaces => ?_⟩⟩
        · rw [components]
          exact others (List.prefix_append _ _) fun _ _ found =>
            uploaded.placed_kept superfluous found fun replaces => by simp [adds] at replaces
        · have replaces := identical.1
          simp [adds] at replaces
        · simp [adds] at replaces

end Placed

/-! ## The upload -/

variable [ToString Oid]

/-- The directory an upload goes into and its entries; one that is missing is created empty. -/
def uploadTarget (repo : Repo Oid) (targetDir : String) : Oid × List (DirEntryData Oid) :=
  match uploadParent repo targetDir with
  | .ok found => (found.1, entriesOf repo.fsObjects found.1)
  | .error _ => (emptySha1, [])

theorem Resolves.resolveParts :
    ∀ {parts : List String} {passed : String} {root dir : Oid}, Resolves store parts root dir →
      ∃ chain, resolveParts store path parts passed root = .ok (dir, chain) := by
  intro parts
  induction parts with
  | nil =>
    intro passed root dir resolves
    obtain rfl : root = dir := resolves
    exact ⟨[], rfl⟩
  | cons part rest ih =>
    intro passed root dir resolves
    obtain ⟨entries, entry, stands, found, directory, below⟩ := resolves
    obtain ⟨data, read, rfl⟩ := stands.read
    obtain ⟨chain, deeper⟩ := @ih (passed ++ "/" ++ part) _ _ below
    refine ⟨(passed ++ "/" ++ part, entry.id) :: chain, ?_⟩
    simp only [Nanofile.resolveParts, except_bind_ok_iff, okOr_eq_ok_iff, ensure_eq_ok_iff]
    exact ⟨data, read, entry, found, (), directory, (dir, chain), deeper, rfl⟩

variable {base parent : Oid}

theorem uploadTarget_of_base (rooted : targetDir.toList.head? = some '/')
    (isBase : EditedRoot repo targetDir base)
    (resolves : Resolves repo.fsObjects (pathComponents targetDir) base parent)
    (stands : StandsFor repo.fsObjects parent entries) :
    uploadTarget repo targetDir = (parent, entries) := by
  have found : ∃ chain, uploadParent repo targetDir = .ok (parent, chain) := by
    unfold uploadParent
    by_cases atRoot : targetDir = "/"
    · rw [if_pos atRoot]
      have isNil : pathComponents targetDir = [] := by rw [atRoot]; decide
      rw [isNil] at resolves
      obtain rfl : base = parent := resolves
      rcases isBase with isRoot | ⟨noHead, -, rfl⟩
      · obtain ⟨headId, head, isHead, found, rfl⟩ := resolveRootFsId_eq_ok_iff.mp isRoot
        rw [isHead]
        simp only [except_bind_ok_iff, okOr_eq_ok_iff]
        exact ⟨[], head, found, rfl⟩
      · rw [noHead]
        exact ⟨[], rfl⟩
    · rw [if_neg atRoot]
      have isRoot := isBase.resolve_right fun noHead => atRoot noHead.2.1
      have notEmpty : targetDir ≠ "" := by
        rintro rfl
        simp at rooted
      obtain ⟨chain, resolved⟩ : ∃ chain, resolveParts repo.fsObjects targetDir
          (pathComponents targetDir) "" base = .ok (parent, chain) := resolves.resolveParts
      refine ⟨chain, except_bind_ok_iff.mpr ⟨base, isRoot, ?_⟩⟩
      rw [resolveFsIdChainFromRoot, if_neg (not_or.mpr ⟨atRoot, notEmpty⟩)]
      exact resolved
  obtain ⟨chain, found⟩ := found
  rw [uploadTarget, found]
  exact congrArg _ stands.entries

theorem uploadTarget_missing (below : targetDir ≠ "/") (isRoot : resolveRootFsId repo = .ok root)
    (missing : ∀ dir, ¬ Resolves repo.fsObjects (pathComponents targetDir) root dir) :
    uploadTarget repo targetDir = (emptySha1, []) := by
  unfold uploadTarget uploadParent
  rw [if_neg below]
  cases found : resolveFsIdChain repo targetDir with
  | error failure => rfl
  | ok parent =>
    obtain ⟨root', isRoot', fromRoot⟩ := except_bind_ok_iff.mp found
    obtain rfl := Except.ok.inj (isRoot.symm.trans isRoot')
    exact absurd (resolves_of_chain fromRoot) (missing parent.1)

/-- When an upload is found where it is reported, by the library before it. -/
def UploadSound (repo : Repo Oid) (targetDir filename : String) (blockIds : List Oid)
    (totalSize : Int) (replace : Bool) : Prop :=
  UploadFits repo.fsObjects targetDir filename (uploadTarget repo targetDir).1
    (uploadTarget repo targetDir).2 (uploadedId blockIds totalSize) totalSize replace

def HeadNoDots (repo : Repo Oid) : Prop :=
  ∀ root, resolveRootFsId repo = .ok root → NoDotNames repo.fsObjects root

theorem ensureDirRecursive_cases {before middle : WebState Oid} {email : String}
    (run : ensureDirRecursive path email before = (.ok (), middle)) :
    middle = before ∨ path ≠ "/" ∧ ∃ root, resolveRootFsId before.repo = .ok root ∧
      ensureDirParts email (pathComponents path) "/" root before = (.ok (), middle) := by
  unfold ensureDirRecursive at run
  split at run
  · cases run
    exact Or.inl rfl
  · rename_i below
    obtain ⟨headRoot, read, reading, run⟩ := Proc.bind_ok_iff.mp run
    obtain ⟨isHead, rfl⟩ := Proc.tryRead_ok_iff.mp reading
    cases headRoot with
    | none =>
      cases run
      exact Or.inl rfl
    | some root => exact Or.inr ⟨below, root, headRootIdOpt_eq_some_iff.mp isHead, run⟩

/-- What is uploaded to is what was there before, or nothing where it was missing. -/
structure TargetEnsured (before middle : Repo Oid) (targetDir : String) (base parent : Oid)
    (entries : List (DirEntryData Oid)) : Prop where
  noDots : ∀ part ∈ pathComponents targetDir, ¬ IsDots part
  kept : ∀ root, resolveRootFsId before = .ok root →
    PathsKept before.fsObjects middle.fsObjects root base (pathComponents targetDir)
  same : entries ≠ [] → middle = before
  target : uploadTarget before targetDir = (parent, entries)

omit [ToString Oid] in
theorem EditedRoot.noDots (isBase : EditedRoot repo targetDir base)
    (noDots : resolveRootFsId repo = .ok base → NoDotNames repo.fsObjects base)
    (resolves : Resolves repo.fsObjects (pathComponents targetDir) base parent) :
    ∀ part ∈ pathComponents targetDir, ¬ IsDots part := by
  rcases isBase with isRoot | ⟨-, atRoot, -⟩
  · exact resolves.noDots (noDots isRoot)
  · have isNil : pathComponents targetDir = [] := by rw [atRoot]; decide
    rw [isNil]
    exact fun part listed => absurd listed List.not_mem_nil

theorem Uploaded.target_found
    (uploaded : Uploaded before after targetDir updateFn base parent top entries)
    (rooted : targetDir.toList.head? = some '/') (noDots : HeadNoDots before) :
    TargetEnsured before before targetDir base parent entries where
  noDots := uploaded.isBase.noDots (noDots base) uploaded.resolves
  kept root isRoot := by
    rcases uploaded.isBase with isBase | ⟨noHead, -⟩
    · obtain rfl := Except.ok.inj (isRoot.symm.trans isBase)
      exact PathsKept.refl root _
    · obtain ⟨headId, -, isHead, -⟩ := resolveRootFsId_eq_ok_iff.mp isRoot
      rw [noHead] at isHead
      cases isHead
  same _ := rfl
  target := uploadTarget_of_base rooted uploaded.isBase uploaded.resolves uploaded.stands

/-- The target of an upload that walked the directories and created those that were missing. -/
theorem Uploaded.target_ensured {start middle : WebState Oid} {email : String}
    (uploaded : Uploaded middle.repo after targetDir updateFn base parent top entries)
    (rooted : targetDir.toList.head? = some '/') (head : PlainHead start root)
    (noDots : HeadNoDots start.repo) (below : targetDir ≠ "/")
    (run : ensureDirParts email (pathComponents targetDir) "/" root start = (.ok (), middle)) :
    TargetEnsured start.repo middle.repo targetDir base parent entries := by
  obtain ⟨reached, head'⟩ := ensureDirParts_plainHead head run
  have isBase : resolveRootFsId middle.repo = .ok base :=
    uploaded.isBase.resolve_right fun noHead => below noHead.2.1
  obtain rfl := Except.ok.inj (head'.isRoot.symm.trans isBase)
  have named := uploaded.resolves.noDots head'.plain.noDots
  have atTop : pathOf [] = "/" := by decide
  rw [← atTop] at run
  rcases @ensureDirParts_created _ _ _ _ _ _ [] _ _ _ _ head ⟨plainNames_pathComponents targetDir, named⟩
    (fun dir resolves => resolves.symm) run with same | ⟨missing, top', head'', -, kept, resolves⟩
  · subst same
    exact uploaded.target_found rooted noDots
  · obtain rfl := Except.ok.inj (head''.isRoot.symm.trans isBase)
    obtain rfl := uploaded.resolves.unique resolves
    obtain rfl := uploaded.stands.of_empty
    refine ⟨named, fun other isRoot => ?_, fun nonempty => absurd rfl nonempty,
      uploadTarget_missing below head.isRoot missing⟩
    obtain rfl := Except.ok.inj (head.isRoot.symm.trans isRoot)
    exact kept

/-- An upload that is accepted is found where it is reported exactly when its target is written
without a slash too many, its name is not blank and it replaces no directory with something in
it, or when what it would store was there already. -/
theorem uploadFileCommittedStream_kept_iff {limits : Limits} {before final : WebState Oid}
    {targetDir filename modifier effective : String} {blockIds : List Oid} {totalSize : Int}
    {hasUser ensureDir replace withinQuota : Bool} {fsId : Oid}
    (genuine : Genuine before.repo.fsObjects) (tree : HeadStored before.repo)
    (noDots : HeadNoDots before.repo)
    (run : uploadFileCommittedStream limits targetDir filename blockIds totalSize modifier hasUser
      ensureDir replace withinQuota before = (.ok (fsId, effective), final)) :
    UploadKept before.repo final.repo targetDir effective fsId ↔
      UploadSound before.repo targetDir filename blockIds totalSize replace := by
  obtain ⟨_, checked, checking, run⟩ := Proc.bind_ok_iff.mp run
  obtain ⟨path, parsed, parsing, run⟩ := Proc.bind_ok_iff.mp run
  obtain ⟨oldSize, sized, sizing, run⟩ := Proc.bind_ok_iff.mp run
  obtain ⟨_, allowed, allowing, run⟩ := Proc.bind_ok_iff.mp run
  obtain ⟨valid, rfl⟩ := badRequest_ok_iff.mp checking
  obtain ⟨isPath, rfl⟩ := Proc.tryRead_ok_iff.mp parsing
  obtain ⟨-, rfl⟩ := Proc.tryRead_ok_iff.mp sizing
  obtain ⟨-, rfl⟩ := Proc.tryRead_ok_iff.mp allowing
  obtain ⟨middle, reached, run⟩ : ∃ middle, (middle = before ∨ targetDir ≠ "/" ∧
      ∃ root, resolveRootFsId before.repo = .ok root ∧
        ensureDirParts modifier (pathComponents targetDir) "/" root before = (.ok (), middle)) ∧
      (do
        let added ← .mapFailure (internalError "upload failed")
          (createFileFromBlocks targetDir filename blockIds totalSize modifier replace)
        let _ ← .tryRead fun _ => (safeJoinPath targetDir added.2).mapError fun failure =>
          .badRequest ("invalid filename: " ++ failure)
        adjustRepoSize limits (totalSize - oldSize)
        pure added : Web Oid (Oid × String)) middle = (.ok (fsId, effective), final) := by
    split at run
    · obtain ⟨_, middle, ensuring, run⟩ := Proc.bind_ok_iff.mp run
      exact ⟨middle, ensureDirRecursive_cases ensuring, run⟩
    · exact ⟨before, Or.inl rfl, run⟩
  obtain ⟨added, created, creating, run⟩ := Proc.bind_ok_iff.mp run
  obtain ⟨path', reparsed, reparsing, run⟩ := Proc.bind_ok_iff.mp run
  obtain ⟨_, adjusted, adjusting, done⟩ := Proc.bind_ok_iff.mp run
  cases done
  obtain ⟨isJoined, rfl⟩ := Proc.tryRead_ok_iff.mp reparsing
  have joined := mapError_eq_ok_iff.mp isJoined
  have creating := Proc.mapFailure_ok_iff.mp creating
  have rooted : targetDir.toList.head? = some '/' := by
    obtain ⟨canonical, isBase, -⟩ := except_bind_ok_iff.mp joined
    unfold canonicalizePath at isBase
    cases parts : canonicalParts targetDir with
    | error failure =>
      rw [parts] at isBase
      cases isBase
    | ok found => exact rooted_of_canonicalParts parts
  -- Adjusting the size leaves the objects and HEAD.
  have sameKept : UploadKept before.repo final.repo targetDir effective fsId ↔
      UploadKept before.repo created.repo targetDir effective fsId := by
    rw [adjustRepoSize_ok adjusting]
    exact Iff.rfl
  rw [sameKept]
  have conclude : ∀ {base parent top : Oid} {entries : List (DirEntryData Oid)} {time : Int},
      fsId = uploadedId blockIds totalSize →
      effective = (addFile fsId filename modifier totalSize time replace entries).2 →
      Uploaded middle.repo created.repo targetDir
        (fun listed => (addFile fsId filename modifier totalSize time replace listed).1) base parent
        top entries →
      TargetEnsured before.repo middle.repo targetDir base parent entries →
      (UploadKept before.repo created.repo targetDir effective fsId ↔
        UploadSound before.repo targetDir filename blockIds totalSize replace) := by
    intro base parent top entries time isId isEffective uploaded ensured
    rw [uploaded.kept_iff ensured.noDots isId valid isEffective joined ensured.kept ensured.same,
      UploadSound, ensured.target, ← isId]
  rcases reached with rfl | ⟨below, root, isRoot, walked⟩
  · obtain ⟨base, parent, top, entries, time, isId, isEffective, uploaded⟩ :=
      createFileFromBlocks_uploaded genuine rooted creating
    exact conclude isId isEffective uploaded (uploaded.target_found rooted noDots)
  · have head : PlainHead before root := ⟨isRoot, genuine, tree root isRoot, noDots root isRoot⟩
    obtain ⟨between, head'⟩ := ensureDirParts_plainHead head walked
    obtain ⟨base, parent, top, entries, time, isId, isEffective, uploaded⟩ :=
      createFileFromBlocks_uploaded head'.plain.genuine rooted creating
    exact conclude isId isEffective uploaded
      (uploaded.target_ensured rooted head noDots below walked)

/-! ## A target with a slash at its end -/

def listsNoDots (object : FsObject Oid) : Bool :=
  match object with
  | .dir data => data.dirents.all fun entry => !decide (IsDots entry.name)
  | _ => true

omit [ToString Oid] in
theorem headNoDots_of_check
    (checked : (repo.fsObjects.rows.all fun row => listsNoDots row.2) = true) :
    HeadNoDots repo := by
  rintro root - upper name entry ⟨dir, entries, -, stands, found⟩
  obtain ⟨member, rfl⟩ := lookup_eq_some found
  rcases stands with ⟨-, rfl⟩ | ⟨data, read, rfl⟩
  · exact absurd member List.not_mem_nil
  · unfold dirBatch at read
    split at read
    · simp at read
    · split at read
      · rename_i listed isRow
        cases read
        obtain ⟨row, isFirst, isObject⟩ := Option.map_eq_some_iff.mp isRow
        have noDots := List.all_eq_true.mp checked row (List.mem_of_find?_eq_some isFirst)
        rw [isObject, listsNoDots, List.all_eq_true] at noDots
        simpa using noDots entry member
      · simp at read

def uploadedFrom : FsDirData FreeId := directory [noFile "f"]

def uploadLibrary : WebState FreeId :=
  ⟨libraryOf (directory [dirEntry "a" (Digests.dirId uploadedFrom)]) [uploadedFrom], [],
    fun count => count⟩

theorem uploadLibrary_stored : HeadStored uploadLibrary.repo :=
  headStored_of_check 3 (by decide +kernel)

theorem uploadLibrary_noDots : HeadNoDots uploadLibrary.repo :=
  headNoDots_of_check (by decide +kernel)

/-- A file is uploaded into `/a/`: it is reported as `g`, and `/a/g` is not found. -/
theorem upload_lost_below_slash :
    HeadStored uploadLibrary.repo ∧ HeadNoDots uploadLibrary.repo ∧
    ∃ final, uploadFileCommittedStream defaultLimits "/a/" "g" [.atom 7] 3 "user" true true false true
        uploadLibrary = (.ok (uploadedId [.atom 7] 3, "g"), final) ∧
      safeJoinPath "/a/" "g" = .ok "/a/g" ∧
      resolveFsId final.repo "/a/g" = .error (.notFound "path segment not found: g") ∧
      ¬ UploadKept uploadLibrary.repo final.repo "/a/" "g" (uploadedId [.atom 7] 3) := by
  have ran : (uploadFileCommittedStream defaultLimits "/a/" "g" [.atom 7] 3 "user" true true false
      true uploadLibrary).1 = .ok (uploadedId [.atom 7] 3, "g") := by decide +kernel
  have joined : safeJoinPath "/a/" "g" = .ok "/a/g" := by decide +kernel
  have missed : resolveFsId (uploadFileCommittedStream defaultLimits "/a/" "g" [.atom 7] 3 "user"
      true true false true uploadLibrary).2.repo "/a/g" =
        .error (.notFound "path segment not found: g") := by
    decide +kernel
  refine ⟨uploadLibrary_stored, uploadLibrary_noDots, _, Prod.ext ran rfl, joined, missed, ?_⟩
  rintro ⟨path, isPath, found, -⟩
  obtain rfl := Except.ok.inj (joined.symm.trans isPath)
  exact absurd (missed.symm.trans found) (by simp)

/-- Without the slash it is found. -/
theorem upload_found_in_a :
    ∃ final, uploadFileCommittedStream defaultLimits "/a" "g" [.atom 7] 3 "user" true true false true
        uploadLibrary = (.ok (uploadedId [.atom 7] 3, "g"), final) ∧
      UploadKept uploadLibrary.repo final.repo "/a" "g" (uploadedId [.atom 7] 3) := by
  have ran : (uploadFileCommittedStream defaultLimits "/a" "g" [.atom 7] 3 "user" true true false
      true uploadLibrary).1 = .ok (uploadedId [.atom 7] 3, "g") := by decide +kernel
  refine ⟨_, Prod.ext ran rfl, (uploadFileCommittedStream_kept_iff (genuine_libraryOf _ _)
    uploadLibrary_stored uploadLibrary_noDots (Prod.ext ran rfl)).mpr ⟨fun blank => ?_, fun _ bad => ?_,
      fun _ _ => ⟨fun identical => ?_, fun replaces => ?_⟩⟩⟩
  · exact absurd blank.1 (by decide)
  · exact absurd bad (by decide)
  · exact absurd identical.1 (by decide)
  · cases replaces

end Nanofile
