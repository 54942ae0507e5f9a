import Nanofile.Storage.CdcStream

/-!
# Chunks partition the data

The chunks of a file lie end to end from its first byte to its last one, each as long as the
sizes allow, and where one begins the rest is cut as a file of its own.
-/

set_option autoImplicit false

namespace Nanofile

/-- The chunks lie end to end between two offsets. -/
def EndToEnd : Nat → List (Nat × Nat) → Nat → Prop
  | start, [], stop => start = stop
  | start, chunk :: rest, stop => chunk.1 = start ∧ EndToEnd (start + chunk.2) rest stop

theorem EndToEnd.le {chunks : List (Nat × Nat)} : ∀ {start stop : Nat},
    EndToEnd start chunks stop → start ≤ stop := by
  induction chunks with
  | nil =>
    intro start stop ends
    exact le_of_eq ends
  | cons chunk rest ih =>
    intro start stop ends
    have below := ih ends.2
    omega

theorem EndToEnd.shifted {data : List UInt8} {shift : Nat} : ∀ {chunks moved : List (Nat × Nat)}
    {start stop stop' : Nat}, EndToEnd (shift + start) chunks stop → stop ≤ data.length →
      EndToEnd start moved stop' → stop' ≤ (data.drop shift).length →
      chunks.map (sliceOf data) = moved.map (sliceOf (data.drop shift)) →
      chunks = moved.map fun chunk => (shift + chunk.1, chunk.2) := by
  intro chunks
  induction chunks with
  | nil =>
    intro moved start stop stop' _ _ _ _ same
    rw [List.map_nil, eq_comm, List.map_eq_nil_iff] at same
    rw [same, List.map_nil]
  | cons chunk rest ih =>
    intro moved start stop stop' ends inside ends' inside' same
    cases moved with
    | nil => cases same
    | cons other others =>
      obtain ⟨begins, ends⟩ := ends
      obtain ⟨begins', ends'⟩ := ends'
      simp only [List.map_cons, List.cons.injEq] at same
      have within := ends.le
      have within' := ends'.le
      have sizes := congrArg List.length same.1
      simp only [sliceOf, List.length_take, List.length_drop] at sizes inside'
      have sameSize : chunk.2 = other.2 := by omega
      rw [List.map_cons]
      refine congrArg₂ _ (Prod.ext (by rw [begins, begins']) sameSize) ?_
      rw [sameSize, Nat.add_assoc] at ends
      exact ih ends inside ends' (by rw [List.length_drop]; omega) same.2

variable {sizes : ChunkSizes} {data : List UInt8}

/-- What is said of every chunk but the last, and of the last. -/
structure Bounded (sizes : ChunkSizes) (chunks : List (Nat × Nat)) : Prop where
  nonempty : ∀ chunk ∈ chunks, 0 < chunk.2
  le_max : ∀ chunk ∈ chunks, chunk.2 ≤ sizes.max
  min_le : ∀ chunk ∈ chunks.dropLast, sizes.min ≤ chunk.2

theorem Bounded.cons {chunks : List (Nat × Nat)} {chunk : Nat × Nat}
    (bounded : Bounded sizes chunks) (min_le : sizes.min ≤ chunk.2)
    (le_max : chunk.2 ≤ sizes.max) : Bounded sizes (chunk :: chunks) := by
  have window := sizes.window_le_min
  have positive : 0 < windowBytes := by decide
  constructor
  · rw [List.forall_mem_cons]
    exact ⟨by omega, bounded.nonempty⟩
  · rw [List.forall_mem_cons]
    exact ⟨le_max, bounded.le_max⟩
  · intro other listed
    cases chunks with
    | nil => simp at listed
    | cons next rest =>
      rw [List.dropLast_cons_cons, List.mem_cons] at listed
      rcases listed with rfl | listed
      · exact min_le
      · exact bounded.min_le other listed

theorem chunksFrom_partition (fits : data.length + sizes.max ≤ 2 ^ 64) (start : Nat) :
    ∃ chunks, chunksFrom sizes data start = some chunks ∧ Bounded sizes chunks ∧
      (start ≤ data.length → EndToEnd start chunks data.length) := by
  have least := sizes.min_le_max
  fun_induction chunksFrom sizes data start with
  | case1 start more short =>
    refine ⟨_, rfl, ⟨?_, ?_, ?_⟩, fun _ => ⟨rfl, ?_⟩⟩
    · rw [List.forall_mem_singleton]
      omega
    · rw [List.forall_mem_singleton]
      omega
    · simp
    · show start + (data.length - start) = data.length
      omega
  | case2 start more long overflow =>
    obtain ⟨_, _, scanned, -, -⟩ := nextChunk_spec fits (Nat.lt_of_not_le long)
    rw [overflow] at scanned
    cases scanned
  | case3 start more long chunk scanned ih =>
    obtain ⟨length, next, found, isCut, same⟩ := nextChunk_spec fits (Nat.lt_of_not_le long)
    rw [scanned] at found
    cases found
    obtain ⟨rest, run, bounded, ends⟩ := ih
    refine ⟨(start, length) :: rest, by rw [run, Option.map_some],
      bounded.cons isCut.min_le isCut.le_max, fun _ => ⟨rfl, ?_⟩⟩
    have inside := isCut.inside
    rw [List.length_drop] at inside
    rw [List.drop_drop] at same
    have lengths := congrArg List.length same
    rw [List.length_drop, List.length_drop] at lengths
    by_cases ended : next ≤ data.length
    · have isNext : start + length = next := by omega
      rw [isNext]
      exact ends ended
    · -- The maximum was added to the offset although fewer bytes were left.
      rw [chunksFrom, if_neg (by omega)] at run
      cases run
      show start + length = data.length
      omega
  | case4 start done =>
    refine ⟨[], rfl, ⟨by simp, by simp, by simp⟩, fun inside => ?_⟩
    show start = data.length
    omega

theorem chunksFrom_rest (fits : data.length + sizes.max ≤ 2 ^ 64) {rest : List (Nat × Nat)}
    {boundary : Nat} : ∀ {first : List (Nat × Nat)} {start : Nat}, start ≤ data.length →
      chunksFrom sizes data start = some (first ++ rest) → EndToEnd start first boundary →
      boundary ≤ data.length ∧ chunksFrom sizes data boundary = some rest := by
  have atEnd : ∀ {offset : Nat}, data.length ≤ offset → chunksFrom sizes data offset = some [] := by
    intro offset past
    rw [chunksFrom, if_neg (by omega)]
  intro first
  induction first with
  | nil =>
    intro start inside run reaches
    obtain rfl : start = boundary := reaches
    exact ⟨inside, run⟩
  | cons chunk others ih =>
    intro start inside run reaches
    rw [chunksFrom] at run
    split at run
    · rename_i more
      split at run
      · obtain ⟨rfl, isEnd⟩ := List.cons_eq_cons.mp (Option.some.inj run)
        obtain ⟨rfl, rfl⟩ := List.append_eq_nil_iff.mp isEnd.symm
        have isBoundary : start + (data.length - start) = boundary := reaches.2
        exact ⟨by omega, atEnd (by omega)⟩
      · rename_i long
        split at run
        · cases run
        · rename_i found scanned
          obtain ⟨length, next, isFound, isCut, same⟩ :=
            nextChunk_spec fits (Nat.lt_of_not_le long)
          obtain rfl := Option.some.inj (scanned.symm.trans isFound)
          obtain ⟨others', run', isList⟩ := Option.map_eq_some_iff.mp run
          obtain ⟨rfl, rfl⟩ := List.cons_eq_cons.mp isList
          have inside' := isCut.inside
          rw [List.drop_drop] at same
          have lengths := congrArg List.length same
          rw [List.length_drop] at inside'
          rw [List.length_drop, List.length_drop] at lengths
          by_cases ended : next ≤ data.length
          · have isNext : start + length = next := by omega
            exact ih ended run' (isNext ▸ reaches.2)
          · rw [atEnd (by omega)] at run'
            obtain ⟨rfl, rfl⟩ := List.append_eq_nil_iff.mp (Option.some.inj run').symm
            have isBoundary : start + length = boundary := reaches.2
            exact ⟨by omega, atEnd (by omega)⟩
    · cases run

/-- The chunks cover the data, within the bounds, and begin anew at every boundary. -/
theorem fileChunkCdcWith_partitions (sizes : ChunkSizes) (data : List UInt8)
    (fits : data.length + sizes.max ≤ 2 ^ 64) :
    ∃ chunks, fileChunkCdcWith data sizes = some chunks ∧ EndToEnd 0 chunks data.length ∧
      Bounded sizes chunks ∧
      ∀ first rest boundary, chunks = first ++ rest → EndToEnd 0 first boundary →
        (fileChunkCdcWith (data.drop boundary) sizes).map
          (List.map fun chunk => (boundary + chunk.1, chunk.2)) = some rest := by
  obtain ⟨chunks, run, bounded, ends⟩ := chunksFrom_partition fits 0
  refine ⟨chunks, run, ends (Nat.zero_le _), bounded, fun first rest boundary whole reaches => ?_⟩
  obtain ⟨inside, fromBoundary⟩ := chunksFrom_rest fits (Nat.zero_le _) (run.trans (by rw [whole]))
    reaches
  obtain ⟨_, run', cuts⟩ := chunksFrom_cuts fits boundary
  obtain rfl := Option.some.inj (fromBoundary.symm.trans run')
  obtain ⟨_, run', -, ends'⟩ := chunksFrom_partition fits boundary
  obtain rfl := Option.some.inj (fromBoundary.symm.trans run')
  have fitsRest : (data.drop boundary).length + sizes.max ≤ 2 ^ 64 := by
    rw [List.length_drop]
    omega
  obtain ⟨moved, runRest, cutsRest⟩ := chunksFrom_cuts fitsRest 0
  obtain ⟨_, run', -, endsRest⟩ := chunksFrom_partition fitsRest 0
  obtain rfl := Option.some.inj (runRest.symm.trans run')
  have begins : EndToEnd (boundary + 0) rest data.length := ends' inside
  rw [fileChunkCdcWith, runRest, Option.map_some,
    begins.shifted le_rfl (endsRest (Nat.zero_le _)) le_rfl (cuts.unique cutsRest)]

/-- With an unlimited maximum the second chunk is not found. -/
theorem unlimited_partitions_nothing :
    windowBytes ≤ ChunkSizes.unlimited.min ∧ ChunkSizes.unlimited.min ≤ ChunkSizes.unlimited.max ∧
    ¬ ∃ chunks, fileChunkCdcWith oneBoundary .unlimited = some chunks ∧
      EndToEnd 0 chunks oneBoundary.length := by
  refine ⟨ChunkSizes.unlimited.window_le_min, ChunkSizes.unlimited.min_le_max, ?_⟩
  rintro ⟨chunks, run, -⟩
  rw [unlimited_no_chunks] at run
  cases run

theorem fileChunkCdcWith_partitions_long :
    ∃ chunks, fileChunkCdcWith longData .seafile = some chunks ∧
      EndToEnd 0 chunks longData.length ∧ Bounded .seafile chunks ∧
      ∀ first rest boundary, chunks = first ++ rest → EndToEnd 0 first boundary →
        (fileChunkCdcWith (longData.drop boundary) .seafile).map
          (List.map fun chunk => (boundary + chunk.1, chunk.2)) = some rest :=
  fileChunkCdcWith_partitions .seafile longData longData_fits

end Nanofile
