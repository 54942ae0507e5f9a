import Nanofile.Storage.Cdc

/-!
# Streaming makes the cuts of the whole file

Both scans look at the same fingerprints, so both make the cuts of one rule, and a
rule cuts a string in one way.  The incremental scan keeps the position up to which
it has found no boundary, whatever the feeds were.
-/

set_option autoImplicit false

namespace Nanofile

open Nanofile.Lib

/-! ## The cut rule -/

variable {position : Nat}

section Rule

variable (sizes : ChunkSizes)

/-- The fingerprint of the window that ends `min + count` bytes into the string. -/
def fingerprintAt (bytes : List UInt8) : Nat → BitVec 64
  | 0 => windowFingerprint ((bytes.drop (sizes.min - windowBytes)).take windowBytes)
  | count + 1 => roll (fingerprintAt bytes count)
      (bytes.getD (sizes.min + count - windowBytes) 0) (bytes.getD (sizes.min + count) 0)

theorem fingerprintAt_append {bytes more : List UInt8} {count : Nat}
    (inside : sizes.min + count ≤ bytes.length) :
    fingerprintAt sizes (bytes ++ more) count = fingerprintAt sizes bytes count := by
  have window := sizes.window_le_min
  induction count with
  | zero =>
    rw [fingerprintAt, fingerprintAt, List.drop_append_of_le_length (by omega),
      List.take_append_of_le_length (by rw [List.length_drop]; omega)]
  | succ count ih =>
    rw [fingerprintAt, fingerprintAt, ih (by omega), List.getD_append _ _ _ _ (by omega),
      List.getD_append _ _ _ _ (by omega)]

/-- Position `position` ends a chunk by its content. -/
def Boundary (bytes : List UInt8) (position : Nat) : Prop :=
  sizes.selects (fingerprintAt sizes bytes (position + 1 - sizes.min)) = true

def ChunkSizes.rule : CutRule UInt8 where
  min := sizes.min
  max := sizes.max
  boundary := Boundary sizes
  min_pos := Nat.lt_of_lt_of_le (by decide) sizes.window_le_min
  min_le_max := sizes.min_le_max
  causal := by
    intro bytes more position above inside
    rw [Boundary, Boundary, fingerprintAt_append sizes (by omega)]

theorem fingerprintAt_step {bytes : List UInt8} (above : sizes.min ≤ position + 1) :
    fingerprintAt sizes bytes (position + 1 + 1 - sizes.min) =
      roll (fingerprintAt sizes bytes (position + 1 - sizes.min))
        (bytes.getD (position + 1 - windowBytes) 0) (bytes.getD (position + 1) 0) := by
  have next : position + 1 + 1 - sizes.min = position + 1 - sizes.min + 1 := by omega
  have here : sizes.min + (position + 1 - sizes.min) = position + 1 := by omega
  rw [next, fingerprintAt, here]

end Rule

/-! ## The whole file -/

section WholeFile

variable {sizes : ChunkSizes} {data : List UInt8}

theorem getD_drop (start position : Nat) :
    (data.drop start).getD position 0 = data.getD (start + position) 0 := by
  simp [List.getD_eq_getElem?_getD, List.getElem?_drop]

variable {start : Nat}

theorem scanChunk_spec {fingerprint : BitVec 64} (fits : data.length + sizes.max ≤ 2 ^ 64)
    (begun : start ≤ position) (above : sizes.min ≤ position - start + 1)
    (below : position - start + 1 ≤ sizes.max) (inside : position < data.length)
    (isFingerprint : fingerprint =
      fingerprintAt sizes (data.drop start) (position - start + 1 - sizes.min))
    (before : ∀ earlier, sizes.min ≤ earlier + 1 → earlier < position - start →
      ¬ Boundary sizes (data.drop start) earlier) :
    ∃ length next, scanChunk sizes data start position fingerprint = some (length, next) ∧
      sizes.rule.IsCut (data.drop start) length ∧
      data.drop next = (data.drop start).drop length := by
  fun_induction scanChunk sizes data start position fingerprint with
  | case1 position fingerprint selected =>
    refine ⟨_, _, rfl, ⟨above, below, ?_, ?_, Or.inl ?_⟩, ?_⟩
    · rw [List.length_drop]
      omega
    · intro earlier isAbove isBefore
      exact before earlier isAbove (by omega)
    · rw [isFingerprint] at selected
      exact selected
    · rw [List.drop_drop]
      congr 1
      omega
  | case2 position fingerprint notSelected overflow =>
    rw [addUsize_of_lt (by omega)] at overflow
    simp at overflow
  | case3 position fingerprint notSelected limit added ended =>
    have isSum := addUsize_eq added
    have window := sizes.window_le_min
    have notBoundary : ¬ Boundary sizes (data.drop start) (position - start) := by
      rw [isFingerprint] at notSelected
      exact notSelected
    have sameLength : min sizes.max (data.length - start) = position - start + 1 := by
      omega
    rw [sameLength]
    refine ⟨_, _, rfl, ⟨above, below, ?_, ?_, Or.inr ?_⟩, ?_⟩
    · rw [List.length_drop]
      omega
    · intro earlier isAbove isBefore
      exact before earlier isAbove (by omega)
    · rcases ended with atMax | atEnd
      · refine Or.inl ?_
        change position - start + 1 = sizes.max
        omega
      · refine Or.inr ?_
        rw [List.length_drop]
        omega
    · rw [List.drop_drop]
      by_cases whole : limit = start + (position - start + 1)
      · rw [whole]
      · rw [List.drop_eq_nil_of_le (by omega), List.drop_eq_nil_of_le (by omega)]
  | case4 position fingerprint notSelected limit added continues ih =>
    have isSum := addUsize_eq added
    have notBoundary : ¬ Boundary sizes (data.drop start) (position - start) := by
      rw [isFingerprint] at notSelected
      exact notSelected
    have window := sizes.window_le_min
    push Not at continues
    refine ih (by omega) (by omega) (by omega) (by omega) ?_ ?_
    · have step : fingerprintAt sizes (data.drop start)
          (position - start + 1 + 1 - sizes.min) = _ := fingerprintAt_step sizes above
      have next : position + 1 - start + 1 - sizes.min =
          position - start + 1 + 1 - sizes.min := by omega
      have out : start + (position - start + 1 - windowBytes) =
          position + 1 - windowBytes := by omega
      have into : start + (position - start + 1) = position + 1 := by omega
      rw [next, step, ← isFingerprint, getD_drop, getD_drop, out, into]
    · intro earlier isAbove isBefore
      by_cases here : earlier = position - start
      · rw [here]
        exact notBoundary
      · exact before earlier isAbove (by omega)

theorem nextChunk_spec (fits : data.length + sizes.max ≤ 2 ^ 64)
    (long : sizes.min < data.length - start) :
    ∃ length next, nextChunk sizes data start = some (length, next) ∧
      sizes.rule.IsCut (data.drop start) length ∧
      data.drop next = (data.drop start).drop length := by
  have window := sizes.window_le_min
  have positive : 0 < windowBytes := by decide
  have least := sizes.min_le_max
  refine scanChunk_spec fits (by omega) (by omega) (by omega) (by omega) ?_ ?_
  · have first : start + sizes.min - 1 - start + 1 - sizes.min = 0 := by omega
    have here : start + (sizes.min - windowBytes) = start + sizes.min - 1 + 1 - windowBytes := by
      omega
    rw [first, fingerprintAt, List.drop_drop, here]
  · intro earlier isAbove isBefore
    omega

theorem chunksFrom_cuts (fits : data.length + sizes.max ≤ 2 ^ 64) (start : Nat) :
    ∃ chunks, chunksFrom sizes data start = some chunks ∧
      sizes.rule.Cuts (data.drop start) (chunks.map (sliceOf data)) := by
  fun_induction chunksFrom sizes data start with
  | case1 start more short =>
    refine ⟨_, rfl, ?_⟩
    have whole : sliceOf data (start, data.length - start) = data.drop start := by
      rw [sliceOf, List.take_of_length_le]
      rw [List.length_drop]
    rw [List.map_singleton, whole]
    refine .tail ?_ (by rw [List.length_drop]; exact short)
    intro empty
    have length := congrArg List.length empty
    rw [List.length_drop, List.length_nil] at length
    omega
  | case2 start more long overflow =>
    obtain ⟨_, _, scanned, -, -⟩ := nextChunk_spec fits (Nat.lt_of_not_le long)
    rw [overflow] at scanned
    simp at scanned
  | case3 start more long chunk scanned ih =>
    obtain ⟨length, next, found, isCut, same⟩ := nextChunk_spec fits (Nat.lt_of_not_le long)
    rw [scanned] at found
    cases found
    obtain ⟨rest, run, cuts⟩ := ih
    refine ⟨(start, length) :: rest, by rw [run, Option.map_some], ?_⟩
    rw [List.map_cons]
    refine .cut ?_ isCut ?_
    · rw [List.length_drop]
      exact Nat.lt_of_not_le long
    · rw [← same]
      exact cuts
  | case4 start done =>
    refine ⟨[], rfl, ?_⟩
    rw [List.drop_eq_nil_of_le (by omega)]
    exact .nil

end WholeFile

/-! ## The incremental chunker -/

namespace Chunker

variable {sizes : ChunkSizes}

/-- While probing, the fingerprint is that of the probe position and nothing before
it is a boundary. -/
structure Probed (chunker : Chunker sizes) : Prop where
  long : sizes.min < chunker.pending.length
  above : sizes.min ≤ chunker.nextProbe + 1
  below : chunker.nextProbe + 1 ≤ sizes.max
  inside : chunker.nextProbe < chunker.pending.length
  fingerprint : chunker.fingerprint =
    fingerprintAt sizes chunker.pending (chunker.nextProbe + 1 - sizes.min)
  before : ∀ earlier, sizes.min ≤ earlier + 1 → earlier < chunker.nextProbe →
    ¬ Boundary sizes chunker.pending earlier

def Scanning (chunker : Chunker sizes) : Prop :=
  chunker.probing = true → chunker.Probed

/-- The state a scan leaves: too little is buffered, or all of it has been scanned. -/
structure Settled (chunker : Chunker sizes) : Prop where
  idle : chunker.probing = false → chunker.pending.length ≤ sizes.min
  probed : chunker.probing = true → chunker.Probed ∧
    chunker.nextProbe + 1 = chunker.pending.length ∧ chunker.nextProbe + 1 < sizes.max ∧
    ¬ Boundary sizes chunker.pending chunker.nextProbe

/-- Chunks may be returned before the rest of the stream is known. -/
def Emits (sizes : ChunkSizes) (before after : List UInt8) (chunks : List (List UInt8)) : Prop :=
  ∀ more rest, sizes.rule.Cuts (after ++ more) rest →
    sizes.rule.Cuts (before ++ more) (chunks ++ rest)

theorem Emits.refl (bytes : List UInt8) : Emits sizes bytes bytes [] := fun _ _ cuts => cuts

variable {after before middle : List UInt8} {first second : List (List UInt8)}

theorem Emits.trans (one : Emits sizes before middle first)
    (two : Emits sizes middle after second) :
    Emits sizes before after (first ++ second) := by
  intro more rest cuts
  rw [List.append_assoc]
  exact one more _ (two more rest cuts)

variable {bytes : List UInt8}

theorem Emits.append (one : Emits sizes before middle first)
    (two : Emits sizes (middle ++ bytes) after second) :
    Emits sizes (before ++ bytes) after (first ++ second) := by
  intro more rest cuts
  have later := two more rest cuts
  rw [List.append_assoc] at later
  rw [List.append_assoc, List.append_assoc]
  exact one (bytes ++ more) _ later

variable {chunker : Chunker sizes}

theorem startProbing_spec (scanning : chunker.Scanning) :
    chunker.startProbing.Scanning ∧ (chunker.startProbing.probing = false →
      chunker.startProbing.pending.length ≤ sizes.min) := by
  unfold startProbing
  split
  · rename_i active
    exact ⟨scanning, fun idle => by rw [active] at idle; simp at idle⟩
  · rename_i idle
    split
    · rename_i short
      exact ⟨scanning, fun _ => short⟩
    · rename_i long
      have window := sizes.window_le_min
      have positive : 0 < windowBytes := by decide
      have least := sizes.min_le_max
      have first : sizes.min - 1 + 1 - sizes.min = 0 := by omega
      refine ⟨fun _ => ⟨?_, ?_, ?_, ?_, ?_, ?_⟩, by simp⟩
      · exact Nat.lt_of_not_le long
      · change sizes.min ≤ sizes.min - 1 + 1
        omega
      · change sizes.min - 1 + 1 ≤ sizes.max
        omega
      · change sizes.min - 1 < chunker.pending.length
        omega
      · change _ = fingerprintAt sizes chunker.pending (sizes.min - 1 + 1 - sizes.min)
        rw [first]
        rfl
      · intro earlier isAbove isBefore
        change earlier < sizes.min - 1 at isBefore
        omega

theorem emits_cut {length : Nat} (long : sizes.min < bytes.length)
    (isCut : sizes.rule.IsCut bytes length)
    (closed : sizes.rule.boundary bytes (length - 1) ∨ length = sizes.rule.max) :
    Emits sizes bytes (bytes.drop length) [bytes.take length] := by
  intro more rest cuts
  exact CutRule.Cuts.emit long isCut closed cuts

theorem idle_scanning (idle : chunker.probing = false) : chunker.Scanning := by
  intro active
  rw [idle] at active
  simp at active

theorem scan_spec (chunker : Chunker sizes) (completed : List (List UInt8))
    (scanning : chunker.Scanning) :
    ∃ chunks, (chunker.scan completed).2 = completed ++ chunks ∧
      (chunker.scan completed).1.Settled ∧
      Emits sizes chunker.pending (chunker.scan completed).1.pending chunks := by
  obtain ⟨scans, short⟩ := startProbing_spec scanning
  have samePending := startProbing_pending chunker
  fun_induction scan chunker completed with
  | case1 chunker completed current position stops =>
    refine ⟨[], (List.append_nil _).symm, ⟨short, ?_⟩, ?_⟩
    · intro active
      have inside := (scans active).inside
      rcases stops with idle | past
      · rw [active] at idle
        simp at idle
      · exact absurd past (Nat.not_le.mpr inside)
    · rw [samePending]
      exact .refl _
  | case2 chunker completed current position goes selected ih =>
    push Not at goes
    have probed : current.Probed := scans (by simpa using goes.1)
    have boundary : Boundary sizes current.pending position := by
      rw [probed.fingerprint] at selected
      exact selected
    have isCut : sizes.rule.IsCut current.pending (position + 1) := by
      refine ⟨probed.above, probed.below, probed.inside, ?_, Or.inl boundary⟩
      intro earlier isAbove isBefore
      exact probed.before earlier isAbove (Nat.lt_of_succ_lt_succ isBefore)
    have emitted := emits_cut probed.long isCut (Or.inl boundary)
    obtain ⟨chunks, returned, settled, emits⟩ := ih (idle_scanning rfl)
      (startProbing_spec (idle_scanning rfl)).1 (startProbing_spec (idle_scanning rfl)).2
      (startProbing_pending _)
    refine ⟨[current.pending.take (position + 1)] ++ chunks, ?_, settled, ?_⟩
    · rw [returned, List.append_assoc]
    · rw [← samePending]
      exact emitted.trans emits
  | case3 chunker completed current position goes notSelected atMax ih =>
    push Not at goes
    have probed : current.Probed := scans (by simpa using goes.1)
    have exactly : position + 1 = sizes.max := Nat.le_antisymm probed.below atMax
    have notBoundary : ¬ Boundary sizes current.pending position := by
      rw [probed.fingerprint] at notSelected
      exact notSelected
    have isCut : sizes.rule.IsCut current.pending sizes.max := by
      refine ⟨sizes.min_le_max, le_refl _, ?_, ?_, Or.inr (Or.inl rfl)⟩
      · rw [← exactly]
        exact probed.inside
      · intro earlier isAbove isBefore
        rw [← exactly] at isBefore
        exact probed.before earlier isAbove (Nat.lt_of_succ_lt_succ isBefore)
    have emitted := emits_cut probed.long isCut (Or.inr rfl)
    obtain ⟨chunks, returned, settled, emits⟩ := ih (idle_scanning rfl)
      (startProbing_spec (idle_scanning rfl)).1 (startProbing_spec (idle_scanning rfl)).2
      (startProbing_pending _)
    refine ⟨[current.pending.take sizes.max] ++ chunks, ?_, settled, ?_⟩
    · rw [returned, List.append_assoc]
    · rw [← samePending]
      exact emitted.trans emits
  | case4 chunker completed current position goes notSelected notMax atEnd =>
    push Not at goes
    have probed : current.Probed := scans (by simpa using goes.1)
    refine ⟨[], (List.append_nil _).symm, ⟨short, fun _ => ⟨probed, ?_, ?_, ?_⟩⟩, ?_⟩
    · exact Nat.le_antisymm probed.inside atEnd
    · exact Nat.lt_of_not_le notMax
    · rw [probed.fingerprint] at notSelected
      exact notSelected
    · rw [samePending]
      exact .refl _
  | case5 chunker completed current position goes notSelected notMax notEnd ih =>
    push Not at goes
    have probed : current.Probed := scans (by simpa using goes.1)
    have notBoundary : ¬ Boundary sizes current.pending position := by
      rw [probed.fingerprint] at notSelected
      exact notSelected
    have above : sizes.min ≤ position + 1 := probed.above
    have scanning' : Scanning
        ({ current with
          fingerprint := roll current.fingerprint
            (current.pending.getD (position + 1 - windowBytes) 0)
            (current.pending.getD (position + 1) 0)
          nextProbe := position + 1 } : Chunker sizes) := by
      refine fun _ => ⟨probed.long, Nat.le_succ_of_le above, Nat.lt_of_not_le notMax,
        Nat.lt_of_not_le notEnd, ?_, ?_⟩
      · dsimp only
        rw [fingerprintAt_step sizes above, probed.fingerprint]
      · intro earlier isAbove isBefore
        by_cases here : earlier = position
        · rw [here]
          exact notBoundary
        · exact probed.before earlier isAbove
            (Nat.lt_of_le_of_ne (Nat.le_of_lt_succ isBefore) here)
    obtain ⟨chunks, returned, settled, emits⟩ := ih scanning'
      (startProbing_spec scanning').1 (startProbing_spec scanning').2 (startProbing_pending _)
    refine ⟨chunks, returned, settled, ?_⟩
    rw [← samePending]
    exact emits

/-! ## Feeding -/

theorem Settled.scanning (settled : chunker.Settled) (bytes : List UInt8) :
    Scanning ({ chunker with pending := chunker.pending ++ bytes } : Chunker sizes) := by
  intro active
  obtain ⟨probed, -, -, -⟩ := settled.probed active
  have inside := probed.inside
  have above := probed.above
  refine ⟨?_, above, probed.below, ?_, ?_, ?_⟩
  · change sizes.min < (chunker.pending ++ bytes).length
    rw [List.length_append]
    exact Nat.lt_add_right _ probed.long
  · change chunker.nextProbe < (chunker.pending ++ bytes).length
    rw [List.length_append]
    exact Nat.lt_add_right _ probed.inside
  · have window : sizes.min + (chunker.nextProbe + 1 - sizes.min) ≤ chunker.pending.length := by
      omega
    change _ = fingerprintAt sizes (chunker.pending ++ bytes) (chunker.nextProbe + 1 - sizes.min)
    rw [fingerprintAt_append sizes window]
    exact probed.fingerprint
  · intro earlier isAbove isBefore
    change ¬ Boundary sizes (chunker.pending ++ bytes) earlier
    change earlier < chunker.nextProbe at isBefore
    rw [Boundary, fingerprintAt_append sizes (by omega)]
    exact probed.before earlier isAbove isBefore

theorem Settled.room (settled : chunker.Settled) :
    chunker.pending.length < max sizes.max (sizes.min + 1) := by
  cases active : chunker.probing with
  | false =>
    have short := settled.idle active
    omega
  | true =>
    obtain ⟨-, atEnd, below, -⟩ := settled.probed active
    omega

theorem feedLoop_spec (chunker : Chunker sizes) (bytes : List UInt8)
    (completed : List (List UInt8)) (settled : chunker.Settled) :
    ∃ chunks, (feedLoop (max sizes.max (sizes.min + 1)) chunker bytes completed).2 =
        completed ++ chunks ∧
      (feedLoop (max sizes.max (sizes.min + 1)) chunker bytes completed).1.Settled ∧
      Emits sizes (chunker.pending ++ bytes)
        (feedLoop (max sizes.max (sizes.min + 1)) chunker bytes completed).1.pending chunks := by
  fun_induction feedLoop (max sizes.max (sizes.min + 1)) chunker bytes completed with
  | case1 chunker completed =>
    refine ⟨[], (List.append_nil _).symm, settled, ?_⟩
    rw [List.append_nil]
    exact .refl _
  | case2 chunker bytes completed nonempty room full scanned degenerate
  | case3 chunker bytes completed nonempty room full scanned notFull ih =>
    have hasRoom := settled.room
    omega
  | case4 chunker bytes completed nonempty room notFull scanned ih =>
    obtain ⟨first, returned, settledHere, emits⟩ :=
      scan_spec { chunker with pending := chunker.pending ++ bytes.take room } completed
        (settled.scanning (bytes.take room))
    obtain ⟨rest, returnedRest, settledAfter, emitsRest⟩ := ih settledHere
    refine ⟨first ++ rest, ?_, settledAfter, ?_⟩
    · rw [returnedRest, returned, List.append_assoc]
    · have split : chunker.pending ++ bytes =
          chunker.pending ++ bytes.take room ++ bytes.drop room := by
        rw [List.append_assoc, List.take_append_drop]
      rw [split]
      exact emits.append emitsRest

theorem feed_spec (chunker : Chunker sizes) (bytes : List UInt8) (settled : chunker.Settled) :
    (chunker.feed bytes).1.Settled ∧
      Emits sizes (chunker.pending ++ bytes) (chunker.feed bytes).1.pending
        (chunker.feed bytes).2 := by
  obtain ⟨chunks, returned, settledAfter, emits⟩ := feedLoop_spec chunker bytes [] settled
  refine ⟨settledAfter, ?_⟩
  rw [feed, returned]
  exact emits

theorem feed_short (idle : chunker.probing = false)
    (short : (chunker.pending ++ bytes).length ≤ sizes.min) :
    chunker.feed bytes = ({ chunker with pending := chunker.pending ++ bytes }, []) := by
  have scanned : scan ({ chunker with pending := chunker.pending ++ bytes } : Chunker sizes) [] =
      ({ chunker with pending := chunker.pending ++ bytes }, []) := by
    have stays : startProbing ({ chunker with pending := chunker.pending ++ bytes } :
        Chunker sizes) = { chunker with pending := chunker.pending ++ bytes } := by
      rw [startProbing, if_neg (by simp [idle]), if_pos short]
    rw [scan, stays, if_pos (Or.inl idle)]
  have room : bytes.length ≤ max sizes.max (sizes.min + 1) - chunker.pending.length := by
    rw [List.length_append] at short
    omega
  unfold feed
  rw [feedLoop]
  by_cases empty : bytes = []
  · simp [empty]
  · have positive := List.length_pos_of_ne_nil empty
    rw [if_neg empty, if_neg (by omega), List.take_of_length_le room, List.drop_of_length_le room,
      scanned, feedLoop, if_pos rfl]

theorem feedAll_spec (feeds : List (List UInt8)) (chunker : Chunker sizes)
    (settled : chunker.Settled) :
    (chunker.feedAll feeds).1.Settled ∧
      Emits sizes (chunker.pending ++ feeds.flatten) (chunker.feedAll feeds).1.pending
        (chunker.feedAll feeds).2 := by
  induction feeds generalizing chunker with
  | nil =>
    refine ⟨settled, ?_⟩
    rw [List.flatten_nil, List.append_nil]
    exact .refl _
  | cons bytes rest ih =>
    obtain ⟨settledHere, emits⟩ := feed_spec chunker bytes settled
    obtain ⟨settledAfter, emitsRest⟩ := ih (chunker.feed bytes).1 settledHere
    refine ⟨settledAfter, ?_⟩
    rw [List.flatten_cons, ← List.append_assoc]
    exact emits.append emitsRest

theorem Settled.finish_cuts (settled : chunker.Settled) :
    sizes.rule.Cuts chunker.pending
      (if chunker.finish = [] then [] else [chunker.finish]) := by
  unfold finish
  by_cases empty : chunker.pending = []
  · rw [if_pos empty, empty]
    exact .nil
  · rw [if_neg empty]
    cases active : chunker.probing with
    | false => exact .tail empty (settled.idle active)
    | true =>
      obtain ⟨probed, atEnd, below, notBoundary⟩ := settled.probed active
      have isCut : sizes.rule.IsCut chunker.pending chunker.pending.length := by
        refine ⟨Nat.le_of_lt probed.long, ?_, le_refl _, ?_, Or.inr (Or.inr rfl)⟩
        · rw [← atEnd]
          exact probed.below
        · intro earlier isAbove isBefore
          exact probed.before earlier isAbove (by omega)
      have rest : sizes.rule.Cuts (chunker.pending.drop chunker.pending.length) [] := by
        rw [List.drop_length]
        exact .nil
      have whole := CutRule.Cuts.cut probed.long isCut rest
      rwa [List.take_length] at whole

theorem settled_new (sizes : ChunkSizes) : (new sizes).Settled :=
  ⟨fun _ => Nat.zero_le _, fun active => by simp [new] at active⟩

theorem finish_flatten (chunker : Chunker sizes) :
    (if chunker.finish = [] then [] else [chunker.finish]).flatten = chunker.pending := by
  by_cases empty : chunker.finish = []
  · rw [if_pos empty]
    exact empty.symm
  · rw [if_neg empty, List.flatten_singleton]
    rfl

theorem Emits.flatten (settled : chunker.Settled)
    (emits : Emits sizes before chunker.pending first) :
    before = first.flatten ++ chunker.pending := by
  have cuts := emits [] _ (by rw [List.append_nil]; exact settled.finish_cuts)
  rw [List.append_nil] at cuts
  have whole := cuts.flatten
  rw [List.flatten_append, finish_flatten] at whole
  exact whole.symm

theorem feed_flatten (settled : chunker.Settled) (bytes : List UInt8) :
    chunker.pending ++ bytes = (chunker.feed bytes).2.flatten ++ (chunker.feed bytes).1.pending :=
  (feed_spec chunker bytes settled).2.flatten (feed_spec chunker bytes settled).1

theorem feedAll_append (feeds more : List (List UInt8)) (chunker : Chunker sizes) :
    (chunker.feedAll (feeds ++ more)).2 =
      (chunker.feedAll feeds).2 ++ ((chunker.feedAll feeds).1.feedAll more).2 := by
  induction feeds generalizing chunker with
  | nil => rfl
  | cons bytes rest ih => simp only [List.cons_append, feedAll, ih, List.append_assoc]

/-- At any time of a stream the chunker holds less than one full chunk, no byte is lost, and
what it has returned are the first chunks however the stream goes on. -/
theorem feedAll_so_far (sizes : ChunkSizes) (feeds : List (List UInt8)) :
    ((new sizes).feedAll feeds).1.pending.length < max sizes.max (sizes.min + 1) ∧
    ((new sizes).feedAll feeds).2.flatten ++ ((new sizes).feedAll feeds).1.pending =
      feeds.flatten ∧
    ∀ more, ((new sizes).feedAll feeds).2 <+: chunksOf sizes (feeds ++ more) := by
  obtain ⟨settled, emits⟩ := feedAll_spec feeds (new sizes) (settled_new sizes)
  refine ⟨settled.room, (emits.flatten settled).symm, fun more => ?_⟩
  rw [chunksOf, feedAll_append, List.append_assoc]
  exact List.prefix_append _ _

end Chunker

theorem chunksOf_cuts (sizes : ChunkSizes) (feeds : List (List UInt8)) :
    sizes.rule.Cuts feeds.flatten (Chunker.chunksOf sizes feeds) := by
  obtain ⟨settled, emits⟩ :=
    Chunker.feedAll_spec feeds (Chunker.new sizes) (Chunker.settled_new sizes)
  have rest : sizes.rule.Cuts ((Chunker.new sizes).feedAll feeds).1.pending _ :=
    settled.finish_cuts
  rw [← List.append_nil (Chunker.pending _)] at rest
  have cuts := emits [] _ rest
  rw [List.append_nil] at cuts
  exact cuts

theorem chunksOf_flatten (sizes : ChunkSizes) (feeds : List (List UInt8)) :
    (Chunker.chunksOf sizes feeds).flatten = feeds.flatten :=
  (chunksOf_cuts sizes feeds).flatten

theorem chunksOf_short {sizes : ChunkSizes} {feeds : List (List UInt8)}
    (nonempty : feeds.flatten ≠ []) (short : feeds.flatten.length ≤ sizes.min) :
    Chunker.chunksOf sizes feeds = [feeds.flatten] :=
  (chunksOf_cuts sizes feeds).unique (.tail nonempty short)

/-- A stream is cut like the whole file, however it is split into feeds. -/
theorem streaming_chunks (sizes : ChunkSizes) (data : List UInt8) (feeds : List (List UInt8))
    (split : feeds.flatten = data) (fits : data.length + sizes.max ≤ 2 ^ 64) :
    (fileChunkCdcWith data sizes).map (List.map (sliceOf data)) =
      some (Chunker.chunksOf sizes feeds) := by
  have streamed := chunksOf_cuts sizes feeds
  rw [split] at streamed
  obtain ⟨chunks, run, whole⟩ := chunksFrom_cuts fits 0
  rw [List.drop_zero] at whole
  rw [fileChunkCdcWith, run, Option.map_some, streamed.unique whole]

/-- Longer than any chunk. -/
def longData : List UInt8 := List.replicate (3 * 2 ^ 22) 7

theorem longData_fits : longData.length + ChunkSizes.seafile.max ≤ 2 ^ 64 := by
  rw [longData, List.length_replicate]
  decide

theorem streaming_chunks_seafile :
    (fileChunkCdcWith longData .seafile).map (List.map (sliceOf longData)) =
      some (Chunker.chunksOf .seafile [longData.take 5000, [], longData.drop 5000]) :=
  streaming_chunks .seafile longData [longData.take 5000, [], longData.drop 5000]
    (by simp) longData_fits

def ChunkSizes.unlimited : ChunkSizes := ⟨2, 48, 2 ^ 64 - 1, by decide, by decide⟩

def oneBoundary : List UInt8 := List.replicate 47 0 ++ 1 :: List.replicate 49 0

theorem unlimited_no_chunks : fileChunkCdcWith oneBoundary .unlimited = none := by
  have first : nextChunk .unlimited oneBoundary 0 = some (48, 48) := by
    rw [nextChunk, scanChunk, if_pos (by decide +kernel)]
    rfl
  have second : nextChunk .unlimited oneBoundary 48 = none := by
    rw [nextChunk, scanChunk, if_neg (by decide +kernel)]
    rfl
  have later : chunksFrom .unlimited oneBoundary 48 = none := by
    rw [chunksFrom, if_pos (by decide), if_neg (by decide)]
    split
    · rfl
    · rename_i scanned
      rw [second] at scanned
      simp at scanned
  rw [fileChunkCdcWith, chunksFrom, if_pos (by decide), if_neg (by decide)]
  split
  · rfl
  · rename_i scanned
    rw [first] at scanned
    cases scanned
    rw [later]
    rfl

theorem unlimited_overflows :
    ¬ (fileChunkCdcWith oneBoundary .unlimited).map (List.map (sliceOf oneBoundary)) =
      some (Chunker.chunksOf .unlimited [oneBoundary]) := by
  rw [unlimited_no_chunks]
  simp

end Nanofile
