import Nanofile.Lib.Bytes

/-!
# Hexadecimal text

Ids travel as forty hex digits, in either case.  `hex::encode` writes lowercase digits;
`hex::decode` reads digits of either case.
-/

set_option autoImplicit false

namespace Nanofile

open Nanofile.Lib

def isAsciiHexdigit (char : Char) : Bool :=
  ('0' ≤ char && char ≤ '9') || ('a' ≤ char && char ≤ 'f') || ('A' ≤ char && char ≤ 'F')

def IsHexId (id : String) : Prop :=
  id.toList.length = 40 ∧ id.toList.all isAsciiHexdigit = true

instance (id : String) : Decidable (IsHexId id) := inferInstanceAs (Decidable (_ ∧ _))

theorem utf8Size_of_hexdigit {char : Char} (hex : isAsciiHexdigit char = true) :
    char.utf8Size = 1 := by
  have small : char.val ≤ 127 := by
    simp only [isAsciiHexdigit, Bool.or_eq_true, Bool.and_eq_true, decide_eq_true_eq,
      Char.le_def] at hex
    have letters : '9'.val ≤ 127 ∧ 'f'.val ≤ 127 ∧ 'F'.val ≤ 127 := by decide
    rcases hex with (⟨-, digit⟩ | ⟨-, lower⟩) | ⟨-, upper⟩
    · exact UInt32.le_trans digit letters.1
    · exact UInt32.le_trans lower letters.2.1
    · exact UInt32.le_trans upper letters.2.2
  exact Char.utf8Size_eq_one_iff.mpr small

theorem length_asBytes_of_hex {text : String} (hex : text.toList.all isAsciiHexdigit = true) :
    (Bytes.asBytes text).length = text.toList.length :=
  Bytes.length_asBytes_of_ascii fun char listed =>
    utf8Size_of_hexdigit (List.all_eq_true.mp hex char listed)

def encodeByte (byte : UInt8) : List Char :=
  [Nat.digitChar (byte.toNat / 16), Nat.digitChar (byte.toNat % 16)]

def hexEncode (bytes : List UInt8) : String := String.ofList (bytes.flatMap encodeByte)

/-- The value of a digit, by the code points of `0`, `a` and `A`. -/
def hexVal (char : Char) : Option Nat :=
  let code := char.toNat
  if 48 ≤ code ∧ code ≤ 57 then some (code - 48)
  else if 97 ≤ code ∧ code ≤ 102 then some (code - 87)
  else if 65 ≤ code ∧ code ≤ 70 then some (code - 55)
  else none

def hexDecodeChars : List Char → Option (List UInt8)
  | [] => some []
  | [_] => none
  | high :: low :: rest => do
      let first ← hexVal high
      let second ← hexVal low
      let bytes ← hexDecodeChars rest
      some (UInt8.ofNat (first * 16 + second) :: bytes)

def hexDecode (text : String) : Option (List UInt8) := hexDecodeChars text.toList

def lowerDigits (text : String) : String := text.map Char.toLower

theorem hexVal_digitChar {digit : Nat} (small : digit < 16) :
    hexVal (Nat.digitChar digit) = some digit := by
  have each : ∀ digit : Fin 16, hexVal (Nat.digitChar digit) = some digit.val := by decide
  exact each ⟨digit, small⟩

theorem encodeByte_digits (byte : UInt8) : byte.toNat / 16 < 16 ∧ byte.toNat % 16 < 16 := by
  have small := byte.toNat_lt
  omega

theorem hexDecode_hexEncode (bytes : List UInt8) : hexDecode (hexEncode bytes) = some bytes := by
  rw [hexDecode, hexEncode, String.toList_ofList]
  induction bytes with
  | nil => rfl
  | cons byte rest ih =>
    obtain ⟨high, low⟩ := encodeByte_digits byte
    have whole : byte.toNat / 16 * 16 + byte.toNat % 16 = byte.toNat := by omega
    rw [List.flatMap_cons, encodeByte, List.cons_append, List.cons_append, List.nil_append,
      hexDecodeChars, hexVal_digitChar high, hexVal_digitChar low, ih]
    dsimp only [bind, Option.bind]
    rw [whole, UInt8.ofNat_toNat]

theorem hexEncode_injective {first second : List UInt8}
    (same : hexEncode first = hexEncode second) : first = second := by
  have decoded := hexDecode_hexEncode first
  rw [same, hexDecode_hexEncode] at decoded
  exact (Option.some.inj decoded).symm

theorem toNat_toLower (char : Char) :
    char.toLower.toNat = if 65 ≤ char.toNat ∧ char.toNat ≤ 90 then char.toNat + 32
      else char.toNat := by
  have codes : (char.val ≥ 'A'.val ∧ char.val ≤ 'Z'.val) ↔
      65 ≤ char.toNat ∧ char.toNat ≤ 90 := Iff.rfl
  unfold Char.toLower
  by_cases upper : char.val ≥ 'A'.val ∧ char.val ≤ 'Z'.val
  · rw [dif_pos upper, if_pos (codes.mp upper)]
    have bounds := codes.mp upper
    have added : (char.val + ('a'.val - 'A'.val)).toNat = (char.val.toNat + 32) % 2 ^ 32 :=
      UInt32.toNat_add _ _
    have isCode : char.val.toNat = char.toNat := rfl
    change (char.val + ('a'.val - 'A'.val)).toNat = _
    rw [added, isCode]
    omega
  · rw [dif_neg upper, if_neg (mt codes.mpr upper)]

theorem hexVal_toLower (char : Char) : hexVal char.toLower = hexVal char := by
  simp only [hexVal, toNat_toLower]
  split_ifs <;> first | omega | exact congrArg some (by omega) | rfl

theorem hexDecodeChars_lower (chars : List Char) :
    hexDecodeChars (chars.map Char.toLower) = hexDecodeChars chars := by
  induction chars using hexDecodeChars.induct with
  | case1 | case2 _ => rfl
  | case3 high low rest ih =>
    rw [List.map_cons, List.map_cons, hexDecodeChars, hexDecodeChars, hexVal_toLower,
      hexVal_toLower, ih]

theorem hexDecode_of_lowerDigits {text : String} {bytes : List UInt8}
    (spells : lowerDigits text = hexEncode bytes) : hexDecode text = some bytes := by
  have read := hexDecode_hexEncode bytes
  rw [← spells, hexDecode, lowerDigits, String.toList_map, hexDecodeChars_lower] at read
  exact read

theorem hexVal_isSome_iff (char : Char) : (hexVal char).isSome = true ↔ isAsciiHexdigit char = true := by
  have codes : isAsciiHexdigit char = true ↔ (48 ≤ char.toNat ∧ char.toNat ≤ 57) ∨
      (97 ≤ char.toNat ∧ char.toNat ≤ 102) ∨ 65 ≤ char.toNat ∧ char.toNat ≤ 70 := by
    simp only [isAsciiHexdigit, Bool.or_eq_true, Bool.and_eq_true, decide_eq_true_eq,
      or_assoc]
    exact Iff.rfl
  rw [codes, hexVal]
  split_ifs <;> simp only [Option.isSome_some, Option.isSome_none, true_iff,
    Bool.false_eq_true, false_iff] <;> omega

/-- A text is read exactly when it has an even number of hex digits, two for a byte. -/
theorem hexDecodeChars_eq_some_iff (chars : List Char) (count : Nat) :
    (∃ bytes, hexDecodeChars chars = some bytes ∧ bytes.length = count) ↔
      chars.length = 2 * count ∧ chars.all isAsciiHexdigit = true := by
  induction chars using hexDecodeChars.induct generalizing count with
  | case1 =>
    simp only [hexDecodeChars, Option.some.injEq, exists_eq_left', List.length_nil,
      List.all_nil, and_true]
    omega
  | case2 char =>
    constructor
    · rintro ⟨bytes, read, -⟩
      cases read
    · rintro ⟨odd, -⟩
      rw [List.length_singleton] at odd
      omega
  | case3 high low rest ih =>
    rw [List.all_cons, List.all_cons, Bool.and_eq_true, Bool.and_eq_true, List.length_cons,
      List.length_cons, hexDecodeChars]
    constructor
    · rintro ⟨bytes, read, sized⟩
      obtain ⟨first, isFirst, read⟩ := Option.bind_eq_some_iff.mp read
      obtain ⟨second, isSecond, read⟩ := Option.bind_eq_some_iff.mp read
      obtain ⟨below, readBelow, read⟩ := Option.bind_eq_some_iff.mp read
      cases read
      rw [List.length_cons] at sized
      obtain ⟨even, digits⟩ := (ih below.length).mp ⟨below, readBelow, rfl⟩
      refine ⟨by omega, (hexVal_isSome_iff high).mp (by rw [isFirst]; rfl),
        (hexVal_isSome_iff low).mp (by rw [isSecond]; rfl), digits⟩
    · rintro ⟨even, isHigh, isLow, digits⟩
      obtain ⟨first, isFirst⟩ := Option.isSome_iff_exists.mp ((hexVal_isSome_iff high).mpr isHigh)
      obtain ⟨second, isSecond⟩ := Option.isSome_iff_exists.mp ((hexVal_isSome_iff low).mpr isLow)
      obtain ⟨below, readBelow, sized⟩ := (ih (count - 1)).mpr ⟨by omega, digits⟩
      refine ⟨UInt8.ofNat (first * 16 + second) :: below, ?_, ?_⟩
      · rw [isFirst, isSecond, readBelow]
        rfl
      · rw [List.length_cons, sized]
        omega

def IsHexOf (count : Nat) (text : String) : Prop :=
  text.toList.length = 2 * count ∧ text.toList.all isAsciiHexdigit = true

instance (count : Nat) (text : String) : Decidable (IsHexOf count text) :=
  inferInstanceAs (Decidable (_ ∧ _))

theorem hexDecode_eq_some_iff (text : String) (count : Nat) :
    (∃ bytes, hexDecode text = some bytes ∧ bytes.length = count) ↔ IsHexOf count text :=
  hexDecodeChars_eq_some_iff text.toList count

theorem lowerDigits_hexEncode (bytes : List UInt8) : lowerDigits (hexEncode bytes) = hexEncode bytes := by
  have each : ∀ digit : Fin 16, (Nat.digitChar digit).toLower = Nat.digitChar digit := by decide
  have lower : ∀ byte : UInt8, (encodeByte byte).map Char.toLower = encodeByte byte := by
    intro byte
    obtain ⟨high, low⟩ := encodeByte_digits byte
    rw [encodeByte, List.map_cons, List.map_singleton, each ⟨_, high⟩, each ⟨_, low⟩]
  rw [lowerDigits, ← String.toList_inj, String.toList_map, hexEncode, String.toList_ofList,
    List.map_flatMap]
  exact congrArg (bytes.flatMap ·) (funext lower)

end Nanofile
