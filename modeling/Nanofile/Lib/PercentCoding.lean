import Nanofile.Lib.ByteOrder

/-!
# Percent-encoding

In a URL the ASCII characters stand for themselves, but for those of a chosen set; of all other
characters the bytes are written as escapes.
-/

set_option autoImplicit false

namespace Nanofile.Lib

/-- What is relied on of an encoder and its decoder.  The decoder leaves alone what has no `%`
around an encoded text. -/
structure PercentCoding (escaped : Char → Bool) where
  encode : String → String
  decode : String → String
  append (first second : String) : encode (first ++ second) = encode first ++ encode second
  keeps (char : Char) : char.toNat < 128 → escaped char = false →
    encode (String.singleton char) = String.singleton char
  escapes (char : Char) : (char.toNat < 128 → escaped char = true) →
    encode (String.singleton char) ≠ "" ∧
      ∀ sign ∈ (encode (String.singleton char)).toList, sign = '%' ∨ sign.isAlphanum = true
  inverse (first text last : String) : '%' ∉ first.toList → '%' ∉ last.toList →
    decode (first ++ encode text ++ last) = first ++ text ++ last

namespace PercentCoding

variable {escaped : Char → Bool} (coding : PercentCoding escaped) {sign : Char}

theorem encode_empty : coding.encode "" = "" := by
  have twice := congrArg String.toList (coding.append "" "")
  rw [String.empty_append, String.toList_append, List.self_eq_append_right] at twice
  exact String.toList_eq_nil_iff.mp twice

theorem encode_cons (char : Char) (chars : List Char) :
    coding.encode (String.ofList (char :: chars)) =
      coding.encode (String.singleton char) ++ coding.encode (String.ofList chars) := by
  have text : String.ofList (char :: chars) = String.singleton char ++ String.ofList chars :=
    String.toList_inj.mp (by simp)
  rw [text, coding.append]

/-- A character that no escape is written with comes from the text. -/
theorem mem_encode (notPercent : sign ≠ '%') (notDigit : sign.isAlphanum = false) :
    ∀ {text : String}, sign ∈ (coding.encode text).toList →
      sign ∈ text.toList ∧ escaped sign = false := by
  have ofChars : ∀ chars : List Char, sign ∈ (coding.encode (String.ofList chars)).toList →
      sign ∈ chars ∧ escaped sign = false := by
    intro chars
    induction chars with
    | nil =>
      intro listed
      rw [String.ofList_nil, coding.encode_empty] at listed
      exact absurd listed List.not_mem_nil
    | cons char chars ih =>
      intro listed
      rw [coding.encode_cons, String.toList_append] at listed
      rcases List.mem_append.mp listed with here | later
      · by_cases kept : char.toNat < 128 ∧ escaped char = false
        · rw [coding.keeps char kept.1 kept.2] at here
          obtain rfl : sign = char := by simpa using here
          exact ⟨List.mem_cons_self, kept.2⟩
        · have signs := (coding.escapes char fun ascii => by simpa [ascii] using kept).2
          rcases signs sign here with percent | digit
          · exact absurd percent notPercent
          · rw [notDigit] at digit
            cases digit
      · obtain ⟨member, free⟩ := ih later
        exact ⟨List.mem_cons_of_mem _ member, free⟩
  intro text listed
  exact ofChars text.toList (by rwa [String.ofList_toList])

theorem encode_ne_empty {text : String} (nonempty : text ≠ "") : coding.encode text ≠ "" := by
  cases chars : text.toList with
  | nil => exact absurd (String.toList_eq_nil_iff.mp chars) nonempty
  | cons char rest =>
    rw [← String.ofList_toList (s := text), chars, coding.encode_cons]
    intro isEmpty
    have first : coding.encode (String.singleton char) = "" :=
      (String.append_eq_empty_iff.mp isEmpty).1
    by_cases kept : char.toNat < 128 ∧ escaped char = false
    · rw [coding.keeps char kept.1 kept.2] at first
      simp at first
    · exact (coding.escapes char fun ascii => by simpa [ascii] using kept).1 first

end PercentCoding

end Nanofile.Lib
