import Nanofile.Fs.TreeSemantics

/-!
# Entries by path

The walks over stored trees descend by the directory bit of a mode and read a missing
directory as an empty one.  `entryAt` and `filesOf` are the maps they spell out, and
`listing` is the order in which a level-by-level walk meets the entries.
-/

set_option autoImplicit false

namespace Nanofile

variable {Oid : Type} [DecidableEq Oid] [Digests Oid]

abbrev TreePath := List String

/-- The entries below the entry of a name; none unless it is a directory. -/
def entriesUnder (store : FsStore Oid) (entries : List (DirEntryData Oid)) (name : String) :
    List (DirEntryData Oid) :=
  match lookup entries name with
  | some entry => if hasDirBit entry.mode then entriesOf store entry.id else []
  | none => []

def dirAt (store : FsStore Oid) (root : List (DirEntryData Oid)) (path : TreePath) :
    List (DirEntryData Oid) :=
  path.foldl (entriesUnder store) root

def entryAt (store : FsStore Oid) : List (DirEntryData Oid) → TreePath →
    Option (DirEntryData Oid)
  | _, [] => none
  | entries, [name] => lookup entries name
  | entries, name :: next :: rest => entryAt store (entriesUnder store entries name) (next :: rest)

/-- The map from file paths to object ids of a tree. -/
def filesOf (store : FsStore Oid) (root : List (DirEntryData Oid)) (path : TreePath) :
    Option Oid :=
  (entryAt store root path).bind fun entry =>
    if hasDirBit entry.mode then none else some entry.id

/-- No directory of the tree has two entries of one name. -/
def UniqueNames (store : FsStore Oid) (root : List (DirEntryData Oid)) : Prop :=
  ∀ path, ((dirAt store root path).map DirEntryData.name).Nodup

/-- The entries `depth` levels down, with their paths, as a level walk meets them. -/
def listing (store : FsStore Oid) : Nat → TreePath → List (DirEntryData Oid) →
    List (TreePath × DirEntryData Oid)
  | 0, path, entries => entries.map fun entry => (path ++ [entry.name], entry)
  | depth + 1, path, entries => entries.flatMap fun entry =>
    if hasDirBit entry.mode then
      listing store depth (path ++ [entry.name]) (entriesOf store entry.id)
    else []

/-- The first `depth` levels of a tree. -/
def listingTo (store : FsStore Oid) (root : List (DirEntryData Oid)) (depth : Nat) :
    List (TreePath × DirEntryData Oid) :=
  (List.range depth).flatMap fun level => listing store level [] root

variable {store : FsStore Oid} {root : List (DirEntryData Oid)}

@[simp] theorem dirAt_nil : dirAt store root [] = root := rfl

@[simp] theorem dirAt_concat (path : TreePath) (name : String) :
    dirAt store root (path ++ [name]) = entriesUnder store (dirAt store root path) name := by
  simp [dirAt]

theorem dirAt_append (path rest : TreePath) :
    dirAt store root (path ++ rest) = dirAt store (dirAt store root path) rest := by
  simp [dirAt]

@[simp] theorem entriesUnder_nil (name : String) : entriesUnder store [] name = [] := rfl

@[simp] theorem dirAt_of_nil (path : TreePath) : dirAt store [] path = [] := by
  induction path with
  | nil => rfl
  | cons name rest ih => exact ih

@[simp] theorem entriesOf_sentinel : entriesOf store emptySha1 = [] := by
  simp [entriesOf, dirBatch_empty]

theorem entryAt_cons (name : String) (rest : TreePath) (nonempty : rest ≠ []) :
    entryAt store root (name :: rest) = entryAt store (entriesUnder store root name) rest := by
  cases rest with
  | nil => exact absurd rfl nonempty
  | cons next rest => rfl

theorem entryAt_append (path rest : TreePath) (nonempty : rest ≠ []) :
    entryAt store root (path ++ rest) = entryAt store (dirAt store root path) rest := by
  induction path generalizing root with
  | nil => rfl
  | cons name path ih =>
    rw [List.cons_append, entryAt_cons name (path ++ rest) (by simp [nonempty]), ih]
    rfl

@[simp] theorem entryAt_concat (path : TreePath) (name : String) :
    entryAt store root (path ++ [name]) = lookup (dirAt store root path) name := by
  rw [entryAt_append path [name] (by simp)]
  rfl

variable {path : TreePath}

theorem dirAt_eq_nil_of_entryAt (nonempty : path ≠ []) (absent : entryAt store root path = none) :
    dirAt store root path = [] := by
  obtain ⟨parent, name, rfl⟩ := List.eq_nil_or_concat path |>.resolve_left nonempty
  rw [List.concat_eq_append, entryAt_concat] at absent
  rw [List.concat_eq_append, dirAt_concat, entriesUnder, absent]

theorem entryAt_nil_root (path : TreePath) : entryAt store [] path = none := by
  rcases List.eq_nil_or_concat path with rfl | ⟨parent, name, rfl⟩
  · rfl
  · rw [List.concat_eq_append, entryAt_concat, dirAt_of_nil]
    rfl

theorem entryAt_below_none {rest : TreePath} (nonempty : path ≠ [])
    (absent : entryAt store root path = none) : entryAt store root (path ++ rest) = none := by
  cases rest with
  | nil => rwa [List.append_nil]
  | cons name rest =>
    rw [entryAt_append path (name :: rest) (by simp),
      dirAt_eq_nil_of_entryAt nonempty absent, entryAt_nil_root]

variable {entries : List (DirEntryData Oid)} {entry : DirEntryData Oid}

section

omit [DecidableEq Oid] [Digests Oid]

theorem lookup_of_mem (unique : (entries.map DirEntryData.name).Nodup) (listed : entry ∈ entries) :
    lookup entries entry.name = some entry :=
  (lookup_eq_some_iff unique).mpr ⟨listed, rfl⟩

theorem lookup_eq_none_iff {name : String} :
    lookup entries name = none ↔ name ∉ entries.map DirEntryData.name := by
  simp [lookup]

end

theorem UniqueNames.root_nodup (unique : UniqueNames store root) :
    (root.map DirEntryData.name).Nodup := unique []

theorem UniqueNames.below (unique : UniqueNames store root) (path : TreePath) :
    UniqueNames store (dirAt store root path) := by
  intro rest
  rw [← dirAt_append]
  exact unique (path ++ rest)

theorem entriesUnder_of_mem (unique : (root.map DirEntryData.name).Nodup) (listed : entry ∈ root)
    (directory : hasDirBit entry.mode = true) :
    entriesUnder store root entry.name = entriesOf store entry.id := by
  rw [entriesUnder, lookup_of_mem unique listed]
  exact if_pos directory

theorem UniqueNames.child (unique : UniqueNames store root) (listed : entry ∈ root)
    (directory : hasDirBit entry.mode = true) : UniqueNames store (entriesOf store entry.id) := by
  have inside := unique.below [entry.name]
  simp only [dirAt, List.foldl_cons, List.foldl_nil] at inside
  rwa [entriesUnder_of_mem unique.root_nodup listed directory] at inside

theorem WellFormed.below_dirAt (formed : WellFormed store root) (path : TreePath) :
    Below store root (dirAt store root path) ∨ dirAt store root path = [] := by
  induction path using List.reverseRecOn with
  | nil => exact Or.inl .root
  | append_singleton path name ih =>
    rw [dirAt_concat, entriesUnder]
    rcases ih with above | empty
    · cases found : lookup (dirAt store root path) name with
      | none => exact Or.inr rfl
      | some entry =>
        have listed := (lookup_eq_some found).1
        dsimp only
        split
        · rename_i directory
          rcases (formed _ above).2 entry listed with ⟨regular, -⟩ | ⟨isDirectory, -⟩
          · rw [not_hasDirBit_of_isRegular regular] at directory
            simp at directory
          · exact Or.inl (.child above listed isDirectory)
        · exact Or.inr rfl
    · rw [empty]
      exact Or.inr rfl

theorem WellFormed.uniqueNames (formed : WellFormed store root) : UniqueNames store root := by
  intro path
  rcases formed.below_dirAt path with below | empty
  · exact (formed _ below).1
  · rw [empty]
    exact List.nodup_nil

theorem filesOf_eq_some_iff {id : Oid} :
    filesOf store root path = some id ↔
      ∃ entry, entryAt store root path = some entry ∧ hasDirBit entry.mode = false ∧
        entry.id = id := by
  simp only [filesOf, Option.bind_eq_some_iff]
  refine exists_congr fun entry => and_congr_right fun _ => ?_
  cases hasDirBit entry.mode <;> simp

theorem filesOf_append (path rest : TreePath) (nonempty : rest ≠ []) :
    filesOf store root (path ++ rest) = filesOf store (dirAt store root path) rest := by
  rw [filesOf, entryAt_append path rest nonempty]
  rfl

theorem filesOf_of_entryAt_none (absent : entryAt store root path = none) :
    filesOf store root path = none := by
  simp [filesOf, absent]

variable {depth : Nat}

theorem listing_spec (unique : UniqueNames store entries) {listed : TreePath} :
    (listed, entry) ∈ listing store depth path entries ↔
      ∃ rest : TreePath, listed = path ++ rest ∧ rest.length = depth + 1 ∧
        entryAt store entries rest = some entry := by
  induction depth generalizing path entries listed with
  | zero =>
    simp only [listing, List.mem_map, Prod.mk.injEq]
    constructor
    · rintro ⟨found, member, rfl, rfl⟩
      exact ⟨[found.name], rfl, rfl, lookup_of_mem unique.root_nodup member⟩
    · rintro ⟨rest, rfl, short, found⟩
      obtain ⟨name, rfl⟩ := List.length_eq_one_iff.mp short
      obtain ⟨member, named⟩ := lookup_eq_some found
      exact ⟨entry, member, by rw [named], rfl⟩
  | succ depth ih =>
    simp only [listing, List.mem_flatMap]
    constructor
    · rintro ⟨above, member, inside⟩
      split at inside
      · rename_i directory
        obtain ⟨rest, rfl, long, found⟩ := (ih (unique.child member directory)).mp inside
        have nonempty : rest ≠ [] := by rintro rfl; simp at long
        refine ⟨above.name :: rest, by simp, by simp [long], ?_⟩
        rw [entryAt_cons _ _ nonempty,
          entriesUnder_of_mem unique.root_nodup member directory]
        exact found
      · simp at inside
    · rintro ⟨rest, rfl, long, found⟩
      obtain ⟨name, rest, rfl⟩ := List.exists_cons_of_ne_nil (l := rest)
        (by rintro rfl; simp at long)
      have short : rest.length = depth + 1 := by simpa using long
      have nonempty : rest ≠ [] := by rintro rfl; simp at short
      rw [entryAt_cons _ _ nonempty] at found
      cases named : lookup entries name with
      | none => simp [entriesUnder, named, entryAt_nil_root] at found
      | some above =>
        obtain ⟨member, rfl⟩ := lookup_eq_some named
        cases directory : hasDirBit above.mode with
        | false => simp [entriesUnder, named, directory, entryAt_nil_root] at found
        | true =>
          rw [entriesUnder_of_mem unique.root_nodup member directory] at found
          refine ⟨above, member, ?_⟩
          rw [if_pos directory]
          exact (ih (unique.child member directory)).mpr
            ⟨rest, by simp, short, found⟩

theorem listing_nodup (unique : UniqueNames store entries) :
    ((listing store depth path entries).map Prod.fst).Nodup := by
  induction depth generalizing path entries with
  | zero =>
    have appended : Function.Injective fun name => path ++ [name] := by
      intro first second same
      simpa using same
    have distinct := unique.root_nodup.map appended
    rw [List.map_map] at distinct
    rw [listing, List.map_map]
    exact distinct
  | succ depth ih =>
    simp only [listing, List.map_flatMap]
    refine List.nodup_flatMap.mpr ⟨?_, ?_⟩
    · intro entry member
      split
      · rename_i directory
        exact ih (unique.child member directory)
      · simp
    · have distinct := List.pairwise_map.mp unique.root_nodup
      refine distinct.imp_of_mem ?_
      intro first second memberFirst memberSecond differ
      refine List.disjoint_left.mpr ?_
      intro shared inFirst inSecond
      have startsWith : ∀ entry ∈ entries, shared ∈ (if hasDirBit entry.mode then
          listing store depth (path ++ [entry.name]) (entriesOf store entry.id)
          else []).map Prod.fst → ∃ rest, shared = path ++ entry.name :: rest := by
        intro entry member inside
        split at inside
        · rename_i directory
          obtain ⟨⟨_, found⟩, there, rfl⟩ := List.mem_map.mp inside
          obtain ⟨rest, same, -, -⟩ :=
            (listing_spec (unique.child member directory)).mp there
          exact ⟨rest, by simpa using same⟩
        · simp at inside
      obtain ⟨rest, sameFirst⟩ := startsWith first memberFirst inFirst
      obtain ⟨rest', sameSecond⟩ := startsWith second memberSecond inSecond
      rw [sameFirst] at sameSecond
      exact differ (List.cons.inj (List.append_cancel_left sameSecond)).1

theorem mem_listingTo (unique : UniqueNames store root) :
    (path, entry) ∈ listingTo store root depth ↔
      path.length ≤ depth ∧ entryAt store root path = some entry := by
  simp only [listingTo, List.mem_flatMap, List.mem_range, listing_spec unique, List.nil_append]
  constructor
  · rintro ⟨level, less, rest, rfl, long, found⟩
    exact ⟨by omega, found⟩
  · rintro ⟨short, found⟩
    have positive : path ≠ [] := by rintro rfl; simp [entryAt] at found
    have long := List.length_pos_of_ne_nil positive
    exact ⟨path.length - 1, by omega, path, rfl, by omega, found⟩

theorem listingTo_nodup (depth : Nat) (unique : UniqueNames store root) :
    ((listingTo store root depth).map Prod.fst).Nodup := by
  rw [listingTo, List.map_flatMap]
  refine List.nodup_flatMap.mpr ⟨fun level _ => listing_nodup unique, ?_⟩
  refine (List.nodup_range.pairwise_of_forall_ne ?_)
  intro first _ second _ differ
  refine List.disjoint_left.mpr ?_
  intro shared inFirst inSecond
  have lengthOf : ∀ level, shared ∈ (listing store level [] root).map Prod.fst →
      shared.length = level + 1 := by
    intro level inside
    obtain ⟨⟨_, _⟩, there, rfl⟩ := List.mem_map.mp inside
    obtain ⟨rest, same, long, -⟩ := (listing_spec unique).mp there
    rw [same]
    exact long
  have one := lengthOf first inFirst
  have other := lengthOf second inSecond
  omega

end Nanofile
