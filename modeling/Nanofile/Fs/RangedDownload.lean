import Nanofile.Fs.Download

/-!
# A ranged download is a slice of the whole one

From every state of the stream the items that follow are the part of the blocks left that
lies in the range.  `rangedDownload_slice` says so for the whole stream and says which
positions a header selects.
-/

set_option autoImplicit false

namespace Nanofile

open Nanofile.Lib

universe u

/-- The part of bytes that begin at a position that lies between two positions. -/
def sliceFrom {Byte : Type u} (start stop pos : Nat) (bytes : List Byte) : List Byte :=
  (bytes.take (stop + 1 - pos)).drop (start - pos)

section Slices

variable {Byte : Type u} {start stop pos : Nat}

theorem sliceFrom_append (first second : List Byte) :
    sliceFrom start stop pos (first ++ second) =
      sliceFrom start stop pos first ++ sliceFrom start stop (pos + first.length) second := by
  have shifted : ∀ bound, bound - (pos + first.length) = bound - pos - first.length := by
    intro bound
    omega
  unfold sliceFrom
  rw [List.take_append, List.drop_append, List.length_take, shifted, shifted]
  congr 1
  by_cases long : first.length ≤ stop + 1 - pos
  · rw [Nat.min_eq_right long]
  · have none : stop + 1 - pos - first.length = 0 := by omega
    rw [none, List.take_zero, List.drop_nil, List.drop_nil]

theorem sliceFrom_before {bytes : List Byte} (before : bytes.length ≤ start - pos) :
    sliceFrom start stop pos bytes = [] := by
  refine List.drop_eq_nil_of_le ?_
  rw [List.length_take]
  omega

theorem sliceFrom_after (bytes : List Byte) (after : stop < pos) :
    sliceFrom start stop pos bytes = [] := by
  have none : stop + 1 - pos = 0 := by omega
  rw [sliceFrom, none, List.take_zero, List.drop_nil]

theorem sliceFrom_eq {bytes : List Byte} :
    sliceFrom start stop pos bytes = (bytes.drop (start - pos)).take
      (min (stop + 1 - pos) bytes.length - min (start - pos) bytes.length) := by
  rw [sliceFrom, List.drop_take]
  by_cases inside : start - pos ≤ bytes.length
  · by_cases long : bytes.length ≤ stop + 1 - pos
    · rw [List.take_of_length_le (by rw [List.length_drop]; omega),
        List.take_of_length_le (by rw [List.length_drop]; omega)]
    · rw [Nat.min_eq_left (by omega), Nat.min_eq_left inside]
  · rw [List.drop_eq_nil_of_le (by omega), List.take_nil, List.take_nil]

end Slices

section Steps

variable {BlockId Key : Type u} {store : BlockStorageBackend BlockId}
  {decryptBlock : Key → List UInt8 → Except String (List UInt8)} {encKey : Option Key}
  {start stop : Nat} {contents : List (List UInt8)}

theorem streamBlocks_cons {id : BlockId} {rest : List BlockId}
    (reads : streamBlocks store decryptBlock encKey (id :: rest) = contents.map .ok) :
    ∃ data left, contents = data :: left ∧ readPlain store decryptBlock encKey id = .ok data ∧
      streamBlocks store decryptBlock encKey rest = left.map .ok := by
  cases contents with
  | nil => simp [streamBlocks] at reads
  | cons data left =>
    obtain ⟨first, others⟩ := List.cons.inj reads
    exact ⟨data, left, rfl, first, others⟩

theorem readPlain_plain {id : BlockId} {data : List UInt8} (plain : encKey = none)
    (read : readPlain store decryptBlock encKey id = .ok data) : store.readBlock id = .ok data := by
  subst plain
  obtain ⟨raw, isRead, same⟩ := except_bind_ok_iff.mp read
  cases same
  exact isRead

/-- What is left where the fast-forward stops, and what was skipped lies before the range. -/
theorem fastForward_slice (plain : encKey = none) (exact : store.logicalSizesAreExact = true) :
    ∀ {blockIds : List BlockId} {contents : List (List UInt8)} {pos : Nat},
      streamBlocks store decryptBlock encKey blockIds = contents.map .ok →
      pos + contents.flatten.length < 2 ^ 64 →
      ∃ left, streamBlocks store decryptBlock encKey (fastForward store start blockIds pos).blockIds =
          left.map .ok ∧
        (fastForward store start blockIds pos).pos + left.flatten.length =
          pos + contents.flatten.length ∧
        sliceFrom start stop pos contents.flatten =
          sliceFrom start stop (fastForward store start blockIds pos).pos left.flatten ∧
        ∀ expected data more,
          (fastForward store start blockIds pos).expectedBlockLen = some expected →
          left = data :: more → data.length = expected := by
  intro blockIds
  induction blockIds with
  | nil =>
    intro contents pos reads small
    exact ⟨contents, reads, rfl, rfl, nofun⟩
  | cons id rest ih =>
    intro contents pos reads small
    obtain ⟨data, left, rfl, read, reads'⟩ := streamBlocks_cons reads
    unfold fastForward
    cases sized : store.blockSize id with
    | error failure =>
      exact ⟨data :: left, reads, rfl, rfl, nofun⟩
    | ok size =>
      have isSize := store.sizes_exact exact id data size (readPlain_plain plain read) sized
      subst isSize
      rw [List.flatten_cons, List.length_append] at small
      have fits : addU64 pos data.length = pos + data.length := addU64_eq (by omega)
      simp only [Int.natCast_nonneg, if_true, Int.toNat_natCast, fits]
      split
      · refine ⟨data :: left, reads, rfl, rfl, ?_⟩
        intro expected other more isExpected same
        cases isExpected
        cases same
        rfl
      · obtain ⟨kept, readsKept, total, sliced, stopped⟩ := @ih left (pos + data.length) reads' (by omega)
        refine ⟨kept, readsKept, ?_, ?_, stopped⟩
        · rw [total, List.flatten_cons, List.length_append, Nat.add_assoc]
        · rw [List.flatten_cons, sliceFrom_append, sliced,
            sliceFrom_before (by omega), List.nil_append]

theorem length_fastForward (start : Nat) : ∀ (blockIds : List BlockId) (pos : Nat),
    (fastForward store start blockIds pos).blockIds.length ≤ blockIds.length := by
  intro blockIds
  induction blockIds with
  | nil => exact fun pos => Nat.le_refl 0
  | cons id rest ih =>
    intro pos
    unfold fastForward
    split
    · split
      · split
        · exact Nat.le_refl _
        · exact Nat.le_succ_of_le (ih _)
      · exact Nat.le_refl _
    · exact Nat.le_refl _

theorem cutBlock_blockIds (rest : List BlockId) (pos : Nat) (done : Bool) (data : List UInt8) :
    (cutBlock start stop rest pos done data).2.blockIds = rest := by
  unfold cutBlock
  dsimp only
  split
  · rfl
  · split
    · rfl
    · split <;> rfl

/-- A block is cut at the range, and the stream is done when nothing of the range is left. -/
theorem cutBlock_slice (rest : List BlockId) {pos : Nat} (data more : List UInt8)
    (ordered : start ≤ stop) (fits : stop + 1 < 2 ^ 64) (small : pos + data.length < 2 ^ 64) :
    ∃ chunk, (cutBlock start stop rest pos false data).1 = .ok chunk ∧
      (cutBlock start stop rest pos false data).2.blockIds = rest ∧
      (cutBlock start stop rest pos false data).2.pos = pos + data.length ∧
      chunk = sliceFrom start stop pos data ∧
      ((cutBlock start stop rest pos false data).2.done = true →
        sliceFrom start stop (pos + data.length) more = []) := by
  have isNext : addU64 pos data.length = pos + data.length := addU64_eq small
  have isEnd : addU64 stop 1 = stop + 1 := addU64_eq fits
  unfold cutBlock
  simp only [isNext, isEnd, Bool.false_or]
  split
  · rename_i past
    exact ⟨[], rfl, rfl, rfl, (sliceFrom_after data past).symm,
      fun _ => sliceFrom_after more (by omega)⟩
  · rename_i reached
    split
    · rename_i before
      exact ⟨[], rfl, rfl, rfl, (sliceFrom_before before).symm, nofun⟩
    · rename_i inside
      have isTake : subU64 (min (stop + 1 - pos) data.length) (min (start - pos) data.length) =
          min (stop + 1 - pos) data.length - min (start - pos) data.length :=
        subU64_eq (by omega) (by omega)
      rw [isTake]
      split
      · rename_i nothing
        exact absurd nothing (by omega)
      · exact ⟨_, rfl, rfl, rfl, sliceFrom_eq.symm, fun done =>
          sliceFrom_after more (by simpa using done)⟩

variable [ToString BlockId] {state : RangeState BlockId}

theorem rangeStep_eq_none_iff :
    rangeStep store decryptBlock encKey start stop state = none ↔ state.done = true := by
  unfold rangeStep
  constructor
  · intro ends
    by_contra running
    rw [if_neg running] at ends
    dsimp only at ends
    split at ends
    · simp at ends
    · split at ends
      · simp at ends
      · split at ends
        · simp at ends
        · split at ends <;> simp at ends
  · exact fun done => if_pos done

variable {item : Except String (List UInt8)} {after : RangeState BlockId}

theorem rangeStep_slice
    (ordered : start ≤ stop) (fits : stop + 1 < 2 ^ 64)
    (reads : streamBlocks store decryptBlock encKey state.blockIds = contents.map .ok)
    (small : state.pos + contents.flatten.length < 2 ^ 64)
    (stepped : rangeStep store decryptBlock encKey start stop state = some (item, after)) :
    state.done = false ∧ ∃ (chunk : List UInt8) (left : List (List UInt8)), item = .ok chunk ∧
      streamBlocks store decryptBlock encKey after.blockIds = left.map .ok ∧
      (after.done = false → after.pos + left.flatten.length < 2 ^ 64) ∧
      sliceFrom start stop state.pos contents.flatten =
        chunk ++ (if after.done then [] else sliceFrom start stop after.pos left.flatten) := by
  unfold rangeStep at stepped
  split at stepped
  · simp at stepped
  · rename_i running
    have running : state.done = false := by simpa using running
    refine ⟨running, ?_⟩
    -- Fast-forwarded or not, the slice is that of the blocks left.
    obtain ⟨reached, isReached, kept, readsKept, total, sliced, stopped⟩ :
        ∃ reached : FastForward BlockId, reached =
            (if encKey.isNone ∧ store.logicalSizesAreExact ∧ state.pos < start then
              fastForward store start state.blockIds state.pos
            else ⟨state.blockIds, state.pos, none⟩) ∧
          ∃ left : List (List UInt8),
            streamBlocks store decryptBlock encKey reached.blockIds = left.map .ok ∧
            reached.pos + left.flatten.length = state.pos + contents.flatten.length ∧
            sliceFrom start stop state.pos contents.flatten =
              sliceFrom start stop reached.pos left.flatten ∧
            ∀ expected data more, reached.expectedBlockLen = some expected →
              left = data :: more → data.length = expected := by
      refine ⟨_, rfl, ?_⟩
      split
      · rename_i skips
        exact fastForward_slice (Option.isNone_iff_eq_none.mp skips.1) skips.2.1 reads small
      · exact ⟨contents, reads, rfl, rfl, nofun⟩
    rw [← isReached] at stepped
    dsimp only at stepped
    rw [sliced]
    cases isLeft : reached.blockIds with
    | nil =>
      rw [isLeft] at stepped readsKept
      cases stepped
      have isNil : kept = [] := by
        cases kept with
        | nil => rfl
        | cons data more => simp [streamBlocks] at readsKept
      subst isNil
      exact ⟨[], [], rfl, rfl, nofun, by simp [sliceFrom]⟩
    | cons id rest =>
      rw [isLeft] at stepped readsKept
      obtain ⟨data, more, rfl, read, readsMore⟩ := streamBlocks_cons readsKept
      rw [List.flatten_cons, List.length_append] at total
      have cut : some (cutBlock start stop rest reached.pos state.done data) = some (item, after) := by
        simp only [read] at stepped
        cases expects : reached.expectedBlockLen with
        | none =>
          rw [expects] at stepped
          exact stepped
        | some expected =>
          rw [expects] at stepped
          have sameLength := stopped expected data more expects rfl
          rw [← sameLength] at stepped
          simpa using stepped
      rw [running] at cut
      obtain ⟨chunk, isItem, isRest, isPos, isChunk, finished⟩ :=
        cutBlock_slice rest data more.flatten ordered fits
          (by omega : reached.pos + data.length < 2 ^ 64)
      rw [Option.some.inj cut] at isItem isRest isPos finished
      refine ⟨chunk, more, isItem, isRest ▸ readsMore, fun _ => by rw [isPos]; omega, ?_⟩
      rw [List.flatten_cons, sliceFrom_append, isChunk]
      congr 1
      split
      · rename_i done
        exact finished done
      · rw [isPos]

theorem Unfolds.slice {items : List (Except String (List UInt8))}
    (unfolds : Unfolds (rangeStep store decryptBlock encKey start stop) state items)
    (ordered : start ≤ stop) (fits : stop + 1 < 2 ^ 64) :
    ∀ {contents : List (List UInt8)}, state.done = false →
      streamBlocks store decryptBlock encKey state.blockIds = contents.map .ok →
      state.pos + contents.flatten.length < 2 ^ 64 →
      ∃ chunks : List (List UInt8), items = chunks.map .ok ∧
        chunks.flatten = sliceFrom start stop state.pos contents.flatten := by
  induction unfolds with
  | ended ends =>
    intro contents running reads small
    rw [rangeStep_eq_none_iff, running] at ends
    cases ends
  | @yielded state after item items yields rest ih =>
    intro contents running reads small
    obtain ⟨-, chunk, left, rfl, readsLeft, smaller, sliced⟩ :=
      rangeStep_slice ordered fits reads small yields
    cases done : after.done with
    | true =>
      -- The stream has ended, and this was the last part.
      obtain rfl := rest.unique (.ended (rangeStep_eq_none_iff.mpr done))
      rw [done] at sliced
      exact ⟨[chunk], rfl, by rw [sliced]; simp⟩
    | false =>
      obtain ⟨chunks, rfl, isRest⟩ := ih done readsLeft (smaller done)
      rw [done] at sliced
      exact ⟨chunk :: chunks, rfl, by rw [List.flatten_cons, isRest, sliced]; rfl⟩

theorem rangeStep_lessens
    (stepped : rangeStep store decryptBlock encKey start stop state = some (item, after)) :
    state.done = false ∧ (after.done = true ∨ after.blockIds.length < state.blockIds.length) := by
  unfold rangeStep at stepped
  split at stepped
  · simp at stepped
  · rename_i running
    refine ⟨by simpa using running, ?_⟩
    dsimp only at stepped
    have shorter : (if encKey.isNone ∧ store.logicalSizesAreExact ∧ state.pos < start then
          fastForward store start state.blockIds state.pos
        else ⟨state.blockIds, state.pos, none⟩).blockIds.length ≤ state.blockIds.length := by
      split
      · exact length_fastForward start _ _
      · exact Nat.le_refl _
    split at stepped
    · cases stepped
      exact Or.inl rfl
    · rename_i id rest isLeft
      rw [isLeft, List.length_cons] at shorter
      split at stepped
      · cases stepped
        exact Or.inr shorter
      · rename_i data read
        have cuts : ∀ pos, cutBlock start stop rest pos state.done data = (item, after) →
            after.blockIds.length < state.blockIds.length := by
          intro pos cut
          have left : after.blockIds = rest := by rw [← cutBlock_blockIds rest _ state.done data, cut]
          rw [left]
          exact shorter
        split at stepped
        · exact Or.inr (cuts _ (Option.some.inj stepped))
        · split at stepped
          · cases stepped
            exact Or.inl rfl
          · exact Or.inr (cuts _ (Option.some.inj stepped))

theorem rangeStream_unfolds (blockIds : List BlockId) :
    Unfolds (rangeStep store decryptBlock encKey start stop) ⟨blockIds, 0, false⟩
      (rangeStream store decryptBlock encKey blockIds start stop) := by
  refine unfolds_unfoldItems
    (fun state => if state.done then 0 else state.blockIds.length + 1) ?_ _ _ (Nat.le_refl _)
  intro state item after stepped
  obtain ⟨running, last | shorter⟩ := rangeStep_lessens stepped
  · simp [running, last]
  · rw [running]
    split
    · exact Nat.succ_pos _
    · exact Nat.succ_lt_succ shorter

theorem rangeStream_slice {blockIds : List BlockId}
    (reads : streamBlocks store decryptBlock encKey blockIds = contents.map .ok)
    (small : contents.flatten.length < 2 ^ 64) (ordered : start ≤ stop)
    (inside : stop < contents.flatten.length) :
    ∃ chunks : List (List UInt8),
      rangeStream store decryptBlock encKey blockIds start stop = chunks.map .ok ∧
      chunks.flatten = (contents.flatten.drop start).take (stop + 1 - start) := by
  obtain ⟨chunks, items, sliced⟩ := Unfolds.slice (rangeStream_unfolds blockIds) ordered
    (by omega) rfl reads (by dsimp only; omega)
  refine ⟨chunks, items, sliced.trans ?_⟩
  rw [sliceFrom, List.drop_take]
  rfl

end Steps

inductive RangeSpec where
  | firstLast (first last : Nat)
  | onwards (first : Nat)
  | suffix (length : Nat)
deriving DecidableEq, Repr

def RangeSpec.Selects (total position : Nat) : RangeSpec → Prop
  | .firstLast first last => first ≤ position ∧ position ≤ last ∧ position < total
  | .onwards first => first ≤ position ∧ position < total
  | .suffix length => total ≤ position + length ∧ position < total

/-- The text of a range between a hyphen's two sides. -/
def RangeSpec.Spelled (first last : List Char) : RangeSpec → Prop
  | .firstLast start stop => Numeral first start ∧ Numeral last stop
  | .onwards start => Numeral first start ∧ last = []
  | .suffix length => first = [] ∧ Numeral last length

/-- The range a header asks for, up to blanks around its parts. -/
def AsksFor (header : String) (spec : RangeSpec) : Prop :=
  ∃ first last, (trimText header).toList = bytesUnit ++ first ++ '-' :: last ∧
    spec.Spelled (trimText (String.ofList first)).toList (trimText (String.ofList last)).toList

theorem rangeSpec_eq_some {header : String} {spec : List Char}
    (isSpec : rangeSpec header = some spec) : (trimText header).toList = bytesUnit ++ spec := by
  unfold rangeSpec at isSpec
  dsimp only at isSpec
  split at isSpec
  · rename_i unit
    obtain ⟨rest, isText⟩ := unit
    rw [← isText, List.drop_left, Option.some.injEq] at isSpec
    rw [← isText, isSpec]
  · simp at isSpec

theorem parseRange_selects {header : String} {total start stop : Nat}
    (parsed : parseRange header total = some (start, stop)) :
    start ≤ stop ∧ stop < total ∧ ∃ spec, AsksFor header spec ∧
      ∀ position, spec.Selects total position ↔ start ≤ position ∧ position ≤ stop := by
  unfold parseRange at parsed
  obtain ⟨spec, isSpec, parsed⟩ := Option.bind_eq_some_iff.mp parsed
  split at parsed
  · simp at parsed
  split at parsed
  · simp at parsed
  rename_i nonempty
  obtain ⟨⟨first, last⟩, cut, chosen⟩ := Option.bind_eq_some_iff.mp parsed
  obtain ⟨rfl, -⟩ := splitOnceChars_eq_some cut
  have text := rangeSpec_eq_some isSpec
  rw [← List.append_assoc] at text
  dsimp only at chosen
  split at chosen
  · -- A suffix.
    rename_i blank
    obtain ⟨count, isCount, chosen⟩ := Option.bind_eq_some_iff.mp chosen
    split at chosen
    · simp at chosen
    · rename_i positive
      cases chosen
      refine ⟨by omega, by omega, .suffix count,
        ⟨first, last, text, blank, numeral_of_parseU64 isCount⟩, fun position => ?_⟩
      simp only [RangeSpec.Selects]
      omega
  · obtain ⟨given, isGiven, chosen⟩ := Option.bind_eq_some_iff.mp chosen
    have isFirst := numeral_of_parseU64 isGiven
    split at chosen
    · simp at chosen
    · rename_i inside
      obtain ⟨reached, isStop, chosen⟩ := Option.bind_eq_some_iff.mp chosen
      split at chosen
      · simp at chosen
      · rename_i ordered
        cases chosen
        unfold rangeStop at isStop
        split at isStop
        · rename_i blank
          cases isStop
          refine ⟨by omega, by omega, .onwards start, ⟨first, last, text, isFirst, blank⟩,
            fun position => ?_⟩
          simp only [RangeSpec.Selects]
          omega
        · obtain ⟨asked, isAsked, rfl⟩ := Option.map_eq_some_iff.mp isStop
          refine ⟨by omega, by omega, .firstLast start asked,
            ⟨first, last, text, isFirst, numeral_of_parseU64 isAsked⟩, fun position => ?_⟩
          simp only [RangeSpec.Selects]
          omega

/-- A ranged download sends the slice, and a header that is accepted selects the positions it
asks for. -/
theorem rangedDownload_slice {BlockId Key : Type u} [ToString BlockId]
    (store : BlockStorageBackend BlockId)
    (decryptBlock : Key → List UInt8 → Except String (List UInt8)) (encKey : Option Key)
    (blockIds : List BlockId) :
    (∀ (contents : List (List UInt8)) (start stop : Nat),
      streamBlocks store decryptBlock encKey blockIds = contents.map .ok →
      contents.flatten.length < 2 ^ 64 → start ≤ stop → stop < contents.flatten.length →
      ∃ chunks : List (List UInt8),
        rangeStream store decryptBlock encKey blockIds start stop = chunks.map .ok ∧
        chunks.flatten = (contents.flatten.drop start).take (stop + 1 - start)) ∧
    ∀ (header : String) (total start stop : Nat), parseRange header total = some (start, stop) →
      start ≤ stop ∧ stop < total ∧ ∃ spec, AsksFor header spec ∧
        ∀ position, spec.Selects total position ↔ start ≤ position ∧ position ≤ stop :=
  ⟨fun _ _ _ reads small ordered inside => rangeStream_slice reads small ordered inside,
    fun _ _ _ _ parsed => parseRange_selects parsed⟩

def threeBlocks : BlockStorage Nat :=
  ⟨fun id => [[1, 2, 3], [], [4, 5]][id]?, fun _ => none⟩

/-- The second to the fifth of five bytes. -/
theorem rangedDownload_seam :
    parseRange "bytes=1-7" 5 = some (1, 4) ∧
    (∃ spec, AsksFor "bytes=1-7" spec ∧
      ∀ position, spec.Selects 5 position ↔ 1 ≤ position ∧ position ≤ 4) ∧
    ∃ chunks : List (List UInt8),
      rangeStream threeBlocks.backend (fun (_ : Unit) data => .ok data) none [0, 1, 2] 1 4 =
        chunks.map .ok ∧ chunks.flatten = [2, 3, 4, 5] := by
  have sliced := rangedDownload_slice threeBlocks.backend (fun (_ : Unit) data => .ok data) none
    [0, 1, 2]
  have parsed : parseRange "bytes=1-7" 5 = some (1, 4) := by decide +kernel
  exact ⟨parsed, (sliced.2 "bytes=1-7" 5 1 4 parsed).2.2,
    sliced.1 [[1, 2, 3], [], [4, 5]] 1 4 rfl (by decide) (by decide) (by decide)⟩

end Nanofile
