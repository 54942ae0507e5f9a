import Mathlib.Data.List.Basic
import Nanofile.Base.Hex
import Nanofile.Lib.Proc

/-!
# The pack of fs objects

A pack is a sequence of entries: an id of forty hex digits, the length of the data in four bytes,
and the data.  What is decoded encodes to the pack again, and nothing else is decoded.
-/

set_option autoImplicit false

namespace Nanofile

open Nanofile.Lib Nanofile.Lib.Bytes

abbrev PackFsEntry := String × List UInt8

/-- The texts of the standard library in error messages: of a `FromUtf8Error`, and of a text that
is written for debugging. -/
structure StdTexts where
  utf8Error : List UInt8 → String
  debug : String → String

/-- What ends the decoder early: an error with its text, or an index past the end of the pack. -/
inductive PackStop where
  | message (text : String)
  | outOfBounds
deriving DecidableEq, Repr

def encodeEntry (entry : PackFsEntry) : List UInt8 :=
  asBytes entry.1 ++ u32ToBeBytes (entry.2.length % 2 ^ 32) ++ entry.2

def encodePackFsEntries (entries : List PackFsEntry) : List UInt8 :=
  entries.foldl (fun result entry => result ++ encodeEntry entry) []

def byteAt (data : List UInt8) (index : Nat) : Except PackStop UInt8 :=
  (data[index]?).elim (.error .outOfBounds) .ok

def sliceAt (data : List UInt8) (start stop : Nat) : Except PackStop (List UInt8) :=
  (slice? data start stop).elim (.error .outOfBounds) .ok

variable (texts : StdTexts)

def decodeFsId (fsIdBytes : List UInt8) : Except PackStop String :=
  match fromUtf8 fsIdBytes with
  | none => .error (.message ("invalid fs_id encoding: " ++ texts.utf8Error fsIdBytes))
  | some fsId =>
    if fsId.utf8ByteSize ≠ 40 ∨ ¬ fsId.toList.all isAsciiHexdigit then
      .error (.message ("invalid fs_id: must be 40 hex characters, got " ++ texts.debug fsId))
    else .ok fsId

/-- One round of the loop: the entry at an offset, and the offset behind it. -/
def decodeEntry (data : List UInt8) (offset count : Nat) : Except PackStop (PackFsEntry × Nat) := do
  let fsIdBytes ← sliceAt data offset (offset + 40)
  let fsId ← decodeFsId texts fsIdBytes
  let first ← byteAt data (offset + 40)
  let second ← byteAt data (offset + 41)
  let third ← byteAt data (offset + 42)
  let fourth ← byteAt data (offset + 43)
  let size := u32FromBeBytes first second third fourth
  if data.length < offset + 44 + size then
    .error (.message ("truncated data at entry " ++ toString count))
  else
    let entryData ← sliceAt data (offset + 44) (offset + 44 + size)
    pure ((fsId, entryData), offset + 44 + size)

def PackFsEntry.Valid (entry : PackFsEntry) : Prop := IsHexId entry.1 ∧ entry.2.length < 2 ^ 32

variable {stop : PackStop}

section Entry

variable {texts} {data : List UInt8} {offset count next : Nat} {entry : PackFsEntry}

theorem sliceAt_eq {start stop : Nat} (ordered : start ≤ stop) (inside : stop ≤ data.length) :
    sliceAt data start stop = .ok ((data.drop start).take (stop - start)) := by
  rw [sliceAt, slice?_eq_some ordered inside]
  rfl

theorem byteAt_eq {index : Nat} (inside : index < data.length) :
    byteAt data index = .ok data[index] := by
  rw [byteAt, List.getElem?_eq_getElem inside]
  rfl

theorem bind_ok {First Second : Type} (first : First) (next : First → Except PackStop Second) :
    (Except.ok first).bind next = next first := rfl

theorem ok_bind {First Second : Type} (first : First) (next : First → Except PackStop Second) :
    (Except.ok first >>= next) = next first := by
  simp only [bind, Except.bind]

theorem decodeFsId_ok_iff {fsIdBytes : List UInt8} (long : fsIdBytes.length = 40) {fsId : String} :
    decodeFsId texts fsIdBytes = .ok fsId ↔ IsHexId fsId ∧ asBytes fsId = fsIdBytes := by
  unfold decodeFsId
  constructor
  · intro decoded
    split at decoded
    · cases decoded
    · rename_i read found
      split at decoded
      · cases decoded
      · rename_i valid
        obtain ⟨-, hex⟩ := not_or.mp valid
        cases decoded
        have isBytes := fromUtf8_eq_some_iff.mp found
        have hex := not_not.mp hex
        refine ⟨⟨?_, hex⟩, isBytes⟩
        rw [← length_asBytes_of_hex hex, isBytes, long]
  · rintro ⟨⟨digits, hex⟩, rfl⟩
    have size : fsId.utf8ByteSize = 40 := long
    rw [fromUtf8_eq_some_iff.mpr rfl]
    exact if_neg (not_or.mpr ⟨not_not.mpr size, not_not.mpr hex⟩)

theorem decodeFsId_stop {fsIdBytes : List UInt8}
    (stopped : decodeFsId texts fsIdBytes = .error stop) : ∃ text, stop = .message text := by
  unfold decodeFsId at stopped
  split at stopped
  · cases stopped
    exact ⟨_, rfl⟩
  · split at stopped
    · cases stopped
      exact ⟨_, rfl⟩
    · cases stopped

theorem drop_four {place : Nat} (room : place + 4 ≤ data.length) :
    data.drop place =
      data[place] :: data[place + 1] :: data[place + 2] :: data[place + 3] ::
        data.drop (place + 4) := by
  rw [List.drop_eq_getElem_cons (by omega), List.drop_eq_getElem_cons (i := place + 1) (by omega),
    List.drop_eq_getElem_cons (i := place + 2) (by omega),
    List.drop_eq_getElem_cons (i := place + 3) (by omega)]

theorem decodeEntry_eq (room : offset + 44 ≤ data.length) : ∃ first second third fourth,
    data.drop (offset + 40) = [first, second, third, fourth] ++ data.drop (offset + 44) ∧
    decodeEntry texts data offset count =
      (decodeFsId texts ((data.drop offset).take 40)).bind fun fsId =>
        if data.length < offset + 44 + u32FromBeBytes first second third fourth then
          .error (.message ("truncated data at entry " ++ toString count))
        else .ok ((fsId, (data.drop (offset + 44)).take (u32FromBeBytes first second third fourth)),
          offset + 44 + u32FromBeBytes first second third fourth) := by
  refine ⟨data[offset + 40], data[offset + 41], data[offset + 42], data[offset + 43],
    @drop_four data (offset + 40) (by omega), ?_⟩
  have width : offset + 40 - offset = 40 := by omega
  unfold decodeEntry
  rw [sliceAt_eq (by omega) (by omega), byteAt_eq (by omega), byteAt_eq (by omega),
    byteAt_eq (by omega), byteAt_eq (by omega), width]
  simp only [ok_bind]
  generalize u32FromBeBytes data[offset + 40] data[offset + 41] data[offset + 42]
    data[offset + 43] = size
  refine bind_congr fun fsId => ?_
  split
  · rfl
  · rw [sliceAt_eq (by omega) (by omega), Nat.add_sub_cancel_left]
    rfl

theorem decodeEntry_ok_iff (room : offset + 44 ≤ data.length) :
    decodeEntry texts data offset count = .ok (entry, next) ↔
      entry.Valid ∧ next = offset + 44 + entry.2.length ∧
        data.drop offset = encodeEntry entry ++ data.drop next := by
  obtain ⟨first, second, third, fourth, isSize, isRound⟩ := @decodeEntry_eq texts _ _ count room
  have long : ((data.drop offset).take 40).length = 40 := by
    rw [List.length_take, List.length_drop]
    omega
  have split := drop_eq_take_append data offset 40
  have fits := u32FromBeBytes_lt first second third fourth
  rw [isRound]
  constructor
  · intro decoded
    obtain ⟨fsId, isId, rest⟩ := except_bind_ok_iff.mp decoded
    split at rest
    · cases rest
    · rename_i enough
      cases rest
      obtain ⟨hex, isBytes⟩ := (decodeFsId_ok_iff long).mp isId
      have size : ((data.drop (offset + 44)).take
          (u32FromBeBytes first second third fourth)).length =
          u32FromBeBytes first second third fourth := by
        rw [List.length_take, List.length_drop]
        omega
      refine ⟨⟨hex, by rw [size]; exact fits⟩, by rw [size], ?_⟩
      rw [encodeEntry, isBytes, size, Nat.mod_eq_of_lt fits, u32ToBeBytes_fromBeBytes,
        List.append_assoc, List.append_assoc, ← drop_eq_take_append, ← isSize, ← split]
  · rintro ⟨⟨hex, short⟩, isNext, isEntry⟩
    obtain ⟨fsId, body⟩ := entry
    have isNext : next = offset + 44 + body.length := isNext
    have idLong : (asBytes fsId).length = 40 := (length_asBytes_of_hex hex.2).trans hex.1
    rw [encodeEntry, Nat.mod_eq_of_lt short, List.append_assoc, List.append_assoc] at isEntry
    obtain ⟨isId, rest⟩ := List.append_inj (split.symm.trans isEntry) (long.trans idLong.symm)
    rw [isSize] at rest
    obtain ⟨isLength, isBody⟩ := List.append_inj rest rfl
    -- The four bytes are those of the length.
    have size : u32FromBeBytes first second third fourth = body.length := by
      simp only [u32ToBeBytes, List.cons.injEq] at isLength
      obtain ⟨rfl, rfl, rfl, rfl, -⟩ := isLength
      exact u32FromBeBytes_toBeBytes body.length short
    have inside : offset + 44 + body.length ≤ data.length := by
      have lengths := congrArg List.length isBody
      rw [List.length_drop, List.length_append, List.length_drop] at lengths
      omega
    refine except_bind_ok_iff.mpr ⟨fsId, (decodeFsId_ok_iff long).mpr ⟨hex, isId.symm⟩, ?_⟩
    rw [size, if_neg (by omega), isNext, isBody, List.take_left]

theorem decodeEntry_stop (room : offset + 44 ≤ data.length)
    (stopped : decodeEntry texts data offset count = .error stop) :
    ∃ text, stop = .message text := by
  obtain ⟨first, second, third, fourth, -, isRound⟩ := @decodeEntry_eq texts _ _ count room
  rw [isRound] at stopped
  cases decoded : decodeFsId texts ((data.drop offset).take 40) with
  | error failure =>
    rw [decoded] at stopped
    cases stopped
    exact decodeFsId_stop decoded
  | ok fsId =>
    rw [decoded, bind_ok] at stopped
    split at stopped
    · exact ⟨_, (Except.error.inj stopped).symm⟩
    · exact nomatch stopped

theorem length_encodeEntry (valid : entry.Valid) :
    (encodeEntry entry).length = 44 + entry.2.length := by
  obtain ⟨⟨digits, hex⟩, -⟩ := valid
  simp only [encodeEntry, List.length_append, length_asBytes_of_hex hex, digits, u32ToBeBytes,
    List.length_cons, List.length_nil]

theorem decodeEntry_advances (room : offset + 44 ≤ data.length)
    (decoded : decodeEntry texts data offset count = .ok (entry, next)) :
    offset + 44 ≤ next ∧ next ≤ data.length := by
  obtain ⟨valid, isNext, isEntry⟩ := (decodeEntry_ok_iff room).mp decoded
  have lengths := congrArg List.length isEntry
  rw [List.length_drop, List.length_append, length_encodeEntry valid, List.length_drop] at lengths
  omega

end Entry

def decodeEntries (data : List UInt8) (offset : Nat) (entries : List PackFsEntry) :
    Except PackStop (List PackFsEntry × Nat) :=
  if room : offset + 44 ≤ data.length then
    match decoded : decodeEntry texts data offset entries.length with
    | .error stop => .error stop
    | .ok (entry, next) =>
      have := decodeEntry_advances room decoded
      decodeEntries data next (entries ++ [entry])
  else .ok (entries, offset)
termination_by data.length - offset
decreasing_by omega

def decodePackFsEntries (data : List UInt8) : Except PackStop (List PackFsEntry) := do
  let (entries, offset) ← decodeEntries texts data 0 []
  if offset ≠ data.length then
    .error (.message ("trailing " ++ toString (data.length - offset) ++
      " byte(s) after the last fs object"))
  else pure entries

section Loop

variable {texts} {data : List UInt8}

theorem encodePackFsEntries_eq (entries : List PackFsEntry) :
    encodePackFsEntries entries = entries.flatMap encodeEntry := by
  unfold encodePackFsEntries
  have from_front : ∀ result : List UInt8,
      entries.foldl (fun result entry => result ++ encodeEntry entry) result =
        result ++ entries.flatMap encodeEntry := by
    induction entries with
    | nil => simp
    | cons entry rest ih =>
      intro result
      rw [List.foldl_cons, ih, List.flatMap_cons, List.append_assoc]
  rw [from_front, List.nil_append]

variable {entries : List PackFsEntry}

/-- What the loop returns is what is written between the two offsets, as far as it goes. -/
theorem decodeEntries_ok {offset stop : Nat} {decoded : List PackFsEntry}
    (start : offset ≤ data.length)
    (run : decodeEntries texts data offset entries = .ok (decoded, stop)) :
    ∃ more, decoded = entries ++ more ∧ (∀ entry ∈ more, PackFsEntry.Valid entry) ∧
      data.drop offset = encodePackFsEntries more ++ data.drop stop ∧ stop ≤ data.length := by
  fun_induction decodeEntries texts data offset entries with
  | case1 offset entries room stop' failed => cases run
  | case2 offset entries room entry next isEntry advances ih =>
    obtain ⟨more, rfl, valid, isMore, inside⟩ := ih advances.2 run
    obtain ⟨isValid, -, here⟩ := (decodeEntry_ok_iff room).mp isEntry
    refine ⟨entry :: more, by simp, ?_, ?_, inside⟩
    · exact List.forall_mem_cons.mpr ⟨isValid, valid⟩
    · rw [here, isMore, encodePackFsEntries_eq, encodePackFsEntries_eq, List.flatMap_cons,
        List.append_assoc]
  | case3 offset entries full =>
    cases run
    exact ⟨[], by simp, nofun, rfl, start⟩

theorem decodeEntries_encoded {offset : Nat} {more : List PackFsEntry}
    (start : offset ≤ data.length) (valid : ∀ entry ∈ more, PackFsEntry.Valid entry)
    (isMore : data.drop offset = encodePackFsEntries more) :
    decodeEntries texts data offset entries = .ok (entries ++ more, data.length) := by
  induction more generalizing offset entries with
  | nil =>
    have atEnd : data.length ≤ offset := by simpa [encodePackFsEntries] using isMore
    rw [decodeEntries, dif_neg (by omega), List.append_nil, Nat.le_antisymm start atEnd]
  | cons entry rest ih =>
    obtain ⟨isValid, validRest⟩ := List.forall_mem_cons.mp valid
    rw [encodePackFsEntries_eq, List.flatMap_cons, ← encodePackFsEntries_eq] at isMore
    have size := congrArg List.length isMore
    rw [List.length_drop, List.length_append, length_encodeEntry isValid] at size
    have room : offset + 44 ≤ data.length := by omega
    have behind : data.drop (offset + 44 + entry.2.length) = encodePackFsEntries rest := by
      rw [Nat.add_assoc, ← length_encodeEntry isValid, ← List.drop_drop, isMore, List.drop_left]
    have isEntry : decodeEntry texts data offset entries.length =
        .ok (entry, offset + 44 + entry.2.length) :=
      (decodeEntry_ok_iff room).mpr ⟨isValid, rfl, by rw [behind]; exact isMore⟩
    rw [decodeEntries, dif_pos room]
    split
    · rename_i stop failed
      rw [isEntry] at failed
      cases failed
    · rename_i other next found
      rw [isEntry] at found
      cases found
      rw [ih (by omega) validRest behind, List.append_assoc]
      rfl

theorem decodeEntries_stop {offset : Nat}
    (run : decodeEntries texts data offset entries = .error stop) :
    ∃ text, stop = .message text := by
  fun_induction decodeEntries texts data offset entries with
  | case1 offset entries room stop' failed =>
    cases run
    exact decodeEntry_stop room failed
  | case2 offset entries room entry next isEntry advances ih => exact ih run
  | case3 offset entries full => cases run

theorem decodePackFsEntries_ok_iff :
    decodePackFsEntries texts data = .ok entries ↔
      (∀ entry ∈ entries, PackFsEntry.Valid entry) ∧ encodePackFsEntries entries = data := by
  unfold decodePackFsEntries
  constructor
  · intro decoded
    obtain ⟨⟨read, stop⟩, run, ends⟩ := except_bind_ok_iff.mp decoded
    dsimp only at ends
    split at ends
    · cases ends
    · rename_i atEnd
      cases ends
      obtain ⟨more, rfl, valid, isMore, -⟩ := decodeEntries_ok (Nat.zero_le _) run
      refine ⟨valid, ?_⟩
      rw [not_not.mp atEnd, List.drop_length, List.append_nil] at isMore
      exact isMore.symm
  · rintro ⟨valid, rfl⟩
    have run : decodeEntries texts (encodePackFsEntries entries) 0 [] = .ok ([] ++ entries, _) :=
      decodeEntries_encoded (Nat.zero_le _) valid rfl
    refine except_bind_ok_iff.mpr ⟨_, run, ?_⟩
    exact if_neg (not_not.mpr rfl)

theorem decodePackFsEntries_stop (stopped : decodePackFsEntries texts data = .error stop) :
    ∃ text, stop = .message text := by
  unfold decodePackFsEntries at stopped
  cases run : decodeEntries texts data 0 [] with
  | error failure =>
    rw [run] at stopped
    obtain rfl := Except.error.inj stopped
    exact decodeEntries_stop run
  | ok result =>
    rw [run, ok_bind] at stopped
    split at stopped
    split at stopped
    · exact ⟨_, (Except.error.inj stopped).symm⟩
    · exact nomatch stopped

end Loop

/-- The decoder undoes the encoder, decodes nothing else, and stays within the pack. -/
theorem packFsEntries_codec :
    (∀ entries, (∀ entry ∈ entries, PackFsEntry.Valid entry) →
      decodePackFsEntries texts (encodePackFsEntries entries) = .ok entries) ∧
    (∀ data entries, decodePackFsEntries texts data = .ok entries →
      encodePackFsEntries entries = data ∧ ∀ entry ∈ entries, PackFsEntry.Valid entry) ∧
    (∀ data, (∀ entries, (∀ entry ∈ entries, PackFsEntry.Valid entry) →
        encodePackFsEntries entries ≠ data) →
      ∃ text, decodePackFsEntries texts data = .error (.message text)) ∧
    ∀ data, decodePackFsEntries texts data ≠ .error .outOfBounds := by
  refine ⟨fun entries valid => decodePackFsEntries_ok_iff.mpr ⟨valid, rfl⟩,
    fun data entries decoded => (decodePackFsEntries_ok_iff.mp decoded).symm, ?_, ?_⟩
  · intro data noImage
    cases decoded : decodePackFsEntries texts data with
    | error stop =>
      obtain ⟨text, rfl⟩ := decodePackFsEntries_stop decoded
      exact ⟨text, rfl⟩
    | ok entries =>
      obtain ⟨valid, isImage⟩ := decodePackFsEntries_ok_iff.mp decoded
      exact absurd isImage (noImage entries valid)
  · intro data stopped
    obtain ⟨text, isMessage⟩ := decodePackFsEntries_stop stopped
    cases isMessage

end Nanofile
