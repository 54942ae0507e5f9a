import Mathlib.Algebra.Ring.Int.Defs
import Mathlib.Algebra.Ring.Nat
import Mathlib.Data.List.Basic

/-!
# Numbers in requests

Sixty-four bit arithmetic as it wraps, and the texts a number is read from.
-/

set_option autoImplicit false

namespace Nanofile

def addU64 (left right : Nat) : Nat := (left + right) % 2 ^ 64

def subU64 (left right : Nat) : Nat := (left + 2 ^ 64 - right) % 2 ^ 64

theorem addU64_eq {left right : Nat} (fits : left + right < 2 ^ 64) :
    addU64 left right = left + right := Nat.mod_eq_of_lt fits

theorem subU64_eq {left right : Nat} (less : right ≤ left) (fits : left < 2 ^ 64) :
    subU64 left right = left - right := by
  unfold subU64
  omega

def asU32 (number : Nat) : Nat := number % 2 ^ 32

def asI64 (number : Nat) : Int := (number : Int).bmod (2 ^ 64)

theorem asI64_of_lt {number : Nat} (fits : number < 2 ^ 63) : asI64 number = number := by
  unfold asI64
  rw [Int.bmod_def]
  omega

def splitOnceChars (sep : Char) : List Char → Option (List Char × List Char)
  | [] => none
  | char :: rest =>
    if char = sep then some ([], rest)
    else (splitOnceChars sep rest).map fun parts => (char :: parts.1, parts.2)

def digitsValue (digits : List Char) : Nat :=
  digits.foldl (fun value digit => value * 10 + (digit.toNat - '0'.toNat)) 0

/-- `str::parse::<u64>`: digits after an optional plus sign. -/
def parseU64 (text : List Char) : Option Nat :=
  let digits := if text.head? = some '+' then text.tail else text
  if digits ≠ [] ∧ digits.all Char.isDigit ∧ digitsValue digits < 2 ^ 64 then
    some (digitsValue digits)
  else none

def Numeral (text : List Char) (value : Nat) : Prop :=
  ∃ digits, (text = digits ∨ text = '+' :: digits) ∧ digits ≠ [] ∧
    (∀ digit ∈ digits, digit.isDigit = true) ∧ Nat.ofDigitChars 10 digits 0 = value

theorem ofDigitChars_eq_digitsValue (digits : List Char) :
    Nat.ofDigitChars 10 digits 0 = digitsValue digits := by
  unfold Nat.ofDigitChars digitsValue
  congr 1
  funext value digit
  rw [Nat.mul_comm]

theorem numeral_of_parseU64 {text : List Char} {value : Nat} (parsed : parseU64 text = some value) :
    Numeral text value := by
  have reads : ∀ digits, (if digits ≠ [] ∧ digits.all Char.isDigit ∧ digitsValue digits < 2 ^ 64 then
      some (digitsValue digits) else none) = some value → digits ≠ [] ∧
        (∀ digit ∈ digits, digit.isDigit = true) ∧ Nat.ofDigitChars 10 digits 0 = value := by
    intro digits found
    split at found
    · rename_i valid
      exact ⟨valid.1, List.all_eq_true.mp valid.2.1,
        (ofDigitChars_eq_digitsValue digits).trans (Option.some.inj found)⟩
    · simp at found
  cases text with
  | nil => exact ⟨[], Or.inl rfl, reads [] parsed⟩
  | cons char rest =>
    by_cases plus : char = '+'
    · subst plus
      exact ⟨rest, Or.inr rfl, reads rest parsed⟩
    · have noPlus : ¬ (char :: rest).head? = some '+' := by simpa using plus
      unfold parseU64 at parsed
      rw [if_neg noPlus] at parsed
      exact ⟨char :: rest, Or.inl rfl, reads _ parsed⟩

theorem splitOnceChars_eq_some {sep : Char} : ∀ {text first last : List Char},
    splitOnceChars sep text = some (first, last) → text = first ++ sep :: last ∧ sep ∉ first := by
  intro text
  induction text with
  | nil => exact fun found => by simp [splitOnceChars] at found
  | cons char rest ih =>
    intro first last found
    unfold splitOnceChars at found
    split at found
    · rename_i here
      cases found
      exact ⟨by rw [here]; rfl, List.not_mem_nil⟩
    · rename_i away
      obtain ⟨parts, below, same⟩ := Option.map_eq_some_iff.mp found
      cases same
      obtain ⟨rfl, free⟩ := ih below
      exact ⟨rfl, by simp [free, Ne.symm away]⟩

end Nanofile
