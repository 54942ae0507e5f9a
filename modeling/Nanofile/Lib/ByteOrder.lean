import Mathlib.Data.Char
import Mathlib.Order.Lattice
import Nanofile.Lib.Bytes

/-!
# The byte order of texts

UTF-8 keeps the order of the code points, so comparing two texts byte by byte is
comparing them character by character.
-/

set_option autoImplicit false

namespace Nanofile.Lib.ByteOrder

open Nanofile.Lib.Bytes

def encode (chars : List Char) : List UInt8 := chars.flatMap String.utf8EncodeChar

theorem asBytes_eq_encode (text : String) : asBytes text = encode text.toList := by
  have bytes : (String.ofList text.toList).toByteArray = text.toList.utf8Encode := rfl
  rw [String.ofList_toList] at bytes
  rw [asBytes, bytes, List.utf8Encode, encode, List.data_toByteArray]

@[simp] theorem encode_nil : encode [] = [] := rfl

theorem encode_cons (char : Char) (rest : List Char) :
    encode (char :: rest) = String.utf8EncodeChar char ++ encode rest := rfl

theorem ofNat_cons_lt_iff {value value' : Nat} {rest rest' : List UInt8} (fits : value < 256)
    (fits' : value' < 256) :
    UInt8.ofNat value :: rest < UInt8.ofNat value' :: rest' ↔
      value < value' ∨ value = value' ∧ rest < rest' := by
  rw [List.cons_lt_cons_iff, UInt8.lt_iff_toNat_lt, ← UInt8.toNat_inj, UInt8.toNat_ofNat',
    UInt8.toNat_ofNat', Nat.mod_eq_of_lt fits, Nat.mod_eq_of_lt fits']

theorem encodeChar_append_lt {left right : Char} (smaller : left < right)
    (rest rest' : List UInt8) :
    String.utf8EncodeChar left ++ rest < String.utf8EncodeChar right ++ rest' := by
  have ordered : left.val.toNat < right.val.toNat := smaller
  have fits : right.val.toNat < 0x110000 := by
    rcases right.valid with low | ⟨-, high⟩
    · exact Nat.lt_trans low (by decide)
    · exact high
  unfold String.utf8EncodeChar
  generalize left.val.toNat = v, right.val.toNat = w at ordered fits
  -- a code point is the number its digits in base 64 stand for
  have digits : ∀ code : Nat, code < 0x110000 → code = 262144 * (code / 262144 % 0x08) +
      4096 * (code / 4096 % 0x40) + 64 * (code / 64 % 0x40) + code % 0x40 := by
    intro code codeFits
    omega
  have ofV := digits v (Nat.lt_trans ordered fits)
  have ofW := digits w fits
  dsimp only
  split_ifs <;> simp only [List.cons_append, List.nil_append] <;>
    simp (disch := omega) only [ofNat_cons_lt_iff] <;> omega

theorem encode_lt_encode {left right : List Char} (smaller : left < right) :
    encode left < encode right := by
  induction left generalizing right with
  | nil =>
    cases right with
    | nil => exact absurd smaller (by decide)
    | cons char rest =>
      rw [encode_cons]
      cases bytes : String.utf8EncodeChar char with
      | nil => exact absurd bytes String.utf8EncodeChar_ne_nil
      | cons byte _ => exact List.nil_lt_cons byte _
  | cons char rest ih =>
    cases right with
    | nil => exact absurd smaller (List.not_lt_nil _)
    | cons char' rest' =>
      rw [encode_cons, encode_cons]
      rcases List.cons_lt_cons_iff.mp smaller with less | ⟨rfl, less⟩
      · exact encodeChar_append_lt less _ _
      · exact List.append_left_lt (ih less)

theorem encode_lt_encode_iff {left right : List Char} :
    encode left < encode right ↔ left < right := by
  constructor
  · intro less
    by_contra notSmaller
    by_cases greater : right < left
    · exact List.lt_asymm less (encode_lt_encode greater)
    · rw [List.le_antisymm greater notSmaller] at less
      exact List.lt_irrefl _ less
  · exact encode_lt_encode

section Between

variable {Sign : Type} [LinearOrder Sign] {start beyond text : List Sign}

/-- What is not before `start`, and before `start` with something behind it, begins with
`start`. -/
theorem prefix_of_between (above : ¬ text < start) (below : text < start ++ beyond) :
    ∃ rest, text = start ++ rest ∧ rest < beyond := by
  induction start generalizing text with
  | nil => exact ⟨text, rfl, below⟩
  | cons sign start ih =>
    cases text with
    | nil => exact absurd (List.nil_lt_cons sign start) above
    | cons first text =>
      rw [List.cons_append, List.cons_lt_cons_iff] at below
      rcases below with less | ⟨rfl, below⟩
      · exact absurd (List.cons_lt_cons_iff.mpr (.inl less)) above
      · have above' : ¬ text < start := by
          intro less
          exact above (List.cons_lt_cons_iff.mpr (.inr ⟨rfl, less⟩))
        obtain ⟨rest, rfl, less⟩ := ih above' below
        exact ⟨rest, rfl, less⟩

theorem between_iff :
    (¬ text < start ∧ text < start ++ beyond) ↔ ∃ rest, text = start ++ rest ∧ rest < beyond := by
  constructor
  · rintro ⟨above, below⟩
    exact prefix_of_between above below
  · rintro ⟨rest, rfl, less⟩
    exact ⟨List.le_append_left, List.append_left_lt less⟩

end Between

end Nanofile.Lib.ByteOrder
