import Mathlib.Data.BitVec
import Mathlib.Data.List.GetD
import Nanofile.Lib.Cuts

/-!
# Content-defined chunk boundaries

A rolling fingerprint over a 48-byte window decides where a chunk of a file ends.
`fileChunkCdcWith` cuts a whole file; `Chunker` makes the same cuts while the bytes
come in.
-/

set_option autoImplicit false

namespace Nanofile

def windowBytes : Nat := 48

/-- Addition of two `usize`: `none` on overflow, which panics in a checked build and
wraps the offset in a release build. -/
def addUsize (x y : Nat) : Option Nat := if x + y < 2 ^ 64 then some (x + y) else none

theorem addUsize_eq {x y sum : Nat} (added : addUsize x y = some sum) : sum = x + y := by
  unfold addUsize at added
  split at added
  · exact (Option.some.inj added).symm
  · simp at added

theorem addUsize_of_lt {x y : Nat} (fits : x + y < 2 ^ 64) : addUsize x y = some (x + y) :=
  if_pos fits

structure ChunkSizes where
  avg : Nat
  min : Nat
  max : Nat
  window_le_min : windowBytes ≤ min
  min_le_max : min ≤ max

def ChunkSizes.seafile : ChunkSizes :=
  ⟨8 * 1024 * 1024, 6 * 1024 * 1024, 10 * 1024 * 1024, by decide, by decide⟩

def polynomial : BitVec 64 := 0xbfe6b8a5bf378d83#64

def breakPattern : BitVec 32 := 0x0013#32

def tableIndexShift : Nat := 55

def fingerprintMask : BitVec 64 := 0xffffffff#64

def msbPosition (value : BitVec 64) : Nat :=
  ((List.range 64).filter fun bit => value.getLsbD bit).foldl (fun _ bit => bit + 1) 0

/-- Carry-less product of two words, high and low. -/
def multiplyWide (x y : BitVec 64) : BitVec 64 × BitVec 64 :=
  (List.range' 1 63).foldl
    (fun product bit =>
      if x.getLsbD bit then (product.1 ^^^ (y >>> (64 - bit)), product.2 ^^^ (y <<< bit))
      else product)
    (0#64, if x.getLsbD 0 then y else 0#64)

def clearHigh (scaled high low : BitVec 64) : BitVec 64 :=
  let high := if high.getLsbD 63 then high ^^^ scaled else high
  ((List.range 63).reverse.foldl
    (fun product bit =>
      if product.1.getLsbD bit then
        (product.1 ^^^ (scaled >>> (63 - bit)), product.2 ^^^ (scaled <<< (bit + 1)))
      else product)
    (high, low)).2

/-- Reduce a 128-bit carry-less product modulo `divisor`. -/
def reduceProduct (high low divisor : BitVec 64) : BitVec 64 :=
  let degree := msbPosition divisor - 1
  let scaled := divisor <<< (63 - degree)
  let low := if high = 0#64 then low else clearHigh scaled high low
  (List.range' degree (64 - degree)).reverse.foldl
    (fun low bit => if low.getLsbD bit then low ^^^ (scaled >>> (63 - bit)) else low) low

def multiplyMod (x y divisor : BitVec 64) : BitVec 64 :=
  let product := multiplyWide x y
  reduceProduct product.1 product.2 divisor

/-- The table of contributions of an incoming byte, by the high fingerprint bits. -/
def incoming (index : BitVec 64) : BitVec 64 :=
  multiplyMod index (reduceProduct 0#64 (1#64 <<< 63) polynomial) polynomial |||
    (index <<< 63)

/-- The fingerprint of a one followed by the rest of a window of zeros. -/
def windowContribution : BitVec 64 :=
  (List.range (windowBytes - 1)).foldl
    (fun contribution _ => (contribution <<< 8) ^^^ incoming (contribution >>> tableIndexShift))
    1#64

def outgoing (byte : UInt8) : BitVec 64 :=
  multiplyMod (BitVec.ofNat 64 byte.toNat) windowContribution polynomial

def advance (fingerprint : BitVec 64) (byte : UInt8) : BitVec 64 :=
  ((fingerprint <<< 8) ||| BitVec.ofNat 64 byte.toNat) ^^^
    incoming (fingerprint >>> tableIndexShift)

def windowFingerprint (window : List UInt8) : BitVec 64 :=
  window.foldl (fun fingerprint byte => advance fingerprint byte &&& fingerprintMask) 0#64

/-- Advance the fingerprint by one byte on each side of the window. -/
def roll (fingerprint : BitVec 64) (outgoingByte incomingByte : UInt8) : BitVec 64 :=
  advance (fingerprint ^^^ outgoing outgoingByte) incomingByte &&& fingerprintMask

def ChunkSizes.mask (sizes : ChunkSizes) : BitVec 32 := BitVec.ofNat 32 sizes.avg - 1#32

def ChunkSizes.selects (sizes : ChunkSizes) (fingerprint : BitVec 64) : Bool :=
  fingerprint.setWidth 32 &&& sizes.mask == breakPattern &&& sizes.mask

section WholeFile

variable (sizes : ChunkSizes) (data : List UInt8)

/-- The scan for the end of the chunk that starts at `start`: the chunk's length and
where the next one starts. -/
def scanChunk (start position : Nat) (fingerprint : BitVec 64) : Option (Nat × Nat) :=
  if sizes.selects fingerprint then some (position - start + 1, position + 1)
  else
    match addUsize start sizes.max with
    | none => none
    | some limit =>
      if limit ≤ position + 1 ∨ data.length ≤ position + 1 then
        some (min sizes.max (data.length - start), limit)
      else
        scanChunk start (position + 1)
          (roll fingerprint (data.getD (position + 1 - windowBytes) 0)
            (data.getD (position + 1) 0))
termination_by data.length - position

def nextChunk (start : Nat) : Option (Nat × Nat) :=
  let position := start + sizes.min - 1
  scanChunk sizes data start position
    (windowFingerprint ((data.drop (position + 1 - windowBytes)).take windowBytes))

theorem lt_scanChunk {start position : Nat} {fingerprint : BitVec 64} {chunk : Nat × Nat}
    (le : start ≤ position) (scanned : scanChunk sizes data start position fingerprint = some chunk) :
    start < chunk.2 := by
  have positive : 0 < sizes.max :=
    Nat.lt_of_lt_of_le (by decide) (sizes.window_le_min.trans sizes.min_le_max)
  fun_induction scanChunk sizes data start position fingerprint with
  | case1 position fingerprint selected =>
    cases scanned
    change start < position + 1
    omega
  | case2 => simp at scanned
  | case3 position fingerprint _ limit added ended =>
    cases scanned
    have isSum := addUsize_eq added
    change start < limit
    omega
  | case4 position fingerprint _ limit added continues ih => exact ih (by omega) scanned

theorem lt_nextChunk {start : Nat} {chunk : Nat × Nat}
    (scanned : nextChunk sizes data start = some chunk) : start < chunk.2 := by
  have window := sizes.window_le_min
  have positive : 0 < windowBytes := by decide
  exact lt_scanChunk sizes data (by omega) scanned

def chunksFrom (start : Nat) : Option (List (Nat × Nat)) :=
  if start < data.length then
    if data.length - start ≤ sizes.min then some [(start, data.length - start)]
    else
      match _ : nextChunk sizes data start with
      | none => none
      | some chunk => (chunksFrom chunk.2).map ((start, chunk.1) :: ·)
  else some []
termination_by data.length - start
decreasing_by
  rename_i scanned
  have further := lt_nextChunk sizes data scanned
  omega

end WholeFile

/-- `file_chunk_cdc_with`; `none` when an offset leaves the machine word. -/
def fileChunkCdcWith (data : List UInt8) (sizes : ChunkSizes) : Option (List (Nat × Nat)) :=
  chunksFrom sizes data 0

def sliceOf (data : List UInt8) (chunk : Nat × Nat) : List UInt8 :=
  (data.drop chunk.1).take chunk.2

structure Chunker (sizes : ChunkSizes) where
  pending : List UInt8
  fingerprint : BitVec 64
  nextProbe : Nat
  probing : Bool

namespace Chunker

variable {sizes : ChunkSizes}

def new (sizes : ChunkSizes) : Chunker sizes := ⟨[], 0#64, 0, false⟩

/-- The chunker once the first `length` bytes are retired. -/
def emit (chunker : Chunker sizes) (length : Nat) : Chunker sizes :=
  ⟨chunker.pending.drop length, 0#64, 0, false⟩

/-- Start to probe once there is a byte beyond the minimum. -/
def startProbing (chunker : Chunker sizes) : Chunker sizes :=
  if chunker.probing then chunker
  else if chunker.pending.length ≤ sizes.min then chunker
  else
    { chunker with
      fingerprint := windowFingerprint
        ((chunker.pending.drop (sizes.min - windowBytes)).take windowBytes)
      nextProbe := sizes.min - 1
      probing := true }

@[simp] theorem startProbing_pending (chunker : Chunker sizes) :
    chunker.startProbing.pending = chunker.pending := by
  unfold startProbing
  split
  · rfl
  · split <;> rfl

/-- Bytes the scan has still to pass. -/
def unscanned (chunker : Chunker sizes) : Nat :=
  if chunker.probing then chunker.pending.length - chunker.nextProbe
  else chunker.pending.length + 1

theorem unscanned_startProbing (chunker : Chunker sizes) :
    chunker.startProbing.unscanned ≤ chunker.unscanned := by
  unfold startProbing
  split
  · exact le_refl _
  · rename_i idle
    split
    · exact le_refl _
    · simp only [unscanned, if_true, idle, Bool.false_eq_true, if_false]
      omega

/-- `scan`: find boundaries in the buffered data and retire the completed chunks. -/
def scan (chunker : Chunker sizes) (completed : List (List UInt8)) :
    Chunker sizes × List (List UInt8) :=
  let current := chunker.startProbing
  let position := current.nextProbe
  if current.probing = false ∨ current.pending.length ≤ position then (current, completed)
  else if sizes.selects current.fingerprint then
    scan (current.emit (position + 1)) (completed ++ [current.pending.take (position + 1)])
  else if sizes.max ≤ position + 1 then
    scan (current.emit sizes.max) (completed ++ [current.pending.take sizes.max])
  else if current.pending.length ≤ position + 1 then (current, completed)
  else
    scan
      { current with
        fingerprint := roll current.fingerprint
          (current.pending.getD (position + 1 - windowBytes) 0)
          (current.pending.getD (position + 1) 0)
        nextProbe := position + 1 }
      completed
termination_by (chunker.pending.length, chunker.unscanned)
decreasing_by
  · rename_i active _
    refine Prod.Lex.left _ _ ?_
    have same := startProbing_pending chunker
    simp only [current, position, emit, List.length_drop] at active ⊢
    rw [same] at active ⊢
    omega
  · rename_i active _ _
    refine Prod.Lex.left _ _ ?_
    have same := startProbing_pending chunker
    have window := sizes.window_le_min.trans sizes.min_le_max
    have positive : 0 < windowBytes := by decide
    simp only [current, position, emit, List.length_drop] at active ⊢
    rw [same] at active ⊢
    omega
  · rename_i active _ _ _
    have same := startProbing_pending chunker
    have less := unscanned_startProbing chunker
    simp only [current, position] at active ⊢
    rw [same]
    refine Prod.Lex.right _ ?_
    push Not at active
    have probing : chunker.startProbing.probing = true := by simpa using active.1
    have sameLength := congrArg List.length same
    simp only [unscanned, probing, if_true] at less ⊢
    refine Nat.lt_of_lt_of_le ?_ less
    omega

def feedLoop (limit : Nat) (chunker : Chunker sizes) (bytes : List UInt8)
    (completed : List (List UInt8)) : Chunker sizes × List (List UInt8) :=
  if bytes = [] then (chunker, completed)
  else
    let room := limit - chunker.pending.length
    if room = 0 then
      let scanned := chunker.scan completed
      if limit ≤ scanned.1.pending.length then scanned
      else feedLoop limit scanned.1 bytes scanned.2
    else
      let scanned := scan { chunker with pending := chunker.pending ++ bytes.take room } completed
      feedLoop limit scanned.1 (bytes.drop room) scanned.2
termination_by (bytes.length, if limit ≤ chunker.pending.length then 1 else 0)
decreasing_by
  · rename_i full notFull
    refine Prod.Lex.right _ ?_
    have isFull : limit ≤ chunker.pending.length := by omega
    rw [if_neg notFull, if_pos isFull]
    decide
  · rename_i nonempty _
    refine Prod.Lex.left _ _ ?_
    have positive := List.length_pos_of_ne_nil nonempty
    rw [List.length_drop]
    omega

/-- `feed`: the chunker afterwards and every chunk that is now complete. -/
def feed (chunker : Chunker sizes) (bytes : List UInt8) : Chunker sizes × List (List UInt8) :=
  feedLoop (max sizes.max (sizes.min + 1)) chunker bytes []

def finish (chunker : Chunker sizes) : List UInt8 := chunker.pending

def feedAll (chunker : Chunker sizes) : List (List UInt8) → Chunker sizes × List (List UInt8)
  | [] => (chunker, [])
  | bytes :: rest =>
    let fed := chunker.feed bytes
    let after := fed.1.feedAll rest
    (after.1, fed.2 ++ after.2)

/-- The chunks of a stream: those of every feed, then the last one unless it is empty. -/
def chunksOf (sizes : ChunkSizes) (feeds : List (List UInt8)) : List (List UInt8) :=
  let fed := (new sizes).feedAll feeds
  fed.2 ++ if fed.1.finish = [] then [] else [fed.1.finish]

end Chunker

end Nanofile
