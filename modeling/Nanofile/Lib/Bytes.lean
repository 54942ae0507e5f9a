import Mathlib.Algebra.Ring.Nat
import Mathlib.Data.List.Induction

/-!
# Bytes

Big-endian words, the bytes of a text, and parts of a buffer.
-/

set_option autoImplicit false

namespace Nanofile.Lib.Bytes

def u32ToBeBytes (word : Nat) : List UInt8 :=
  [UInt8.ofNat (word / 2 ^ 24), UInt8.ofNat (word / 2 ^ 16), UInt8.ofNat (word / 2 ^ 8),
    UInt8.ofNat word]

def u32FromBeBytes (first second third fourth : UInt8) : Nat :=
  first.toNat * 2 ^ 24 + second.toNat * 2 ^ 16 + third.toNat * 2 ^ 8 + fourth.toNat

theorem u32FromBeBytes_lt (first second third fourth : UInt8) :
    u32FromBeBytes first second third fourth < 2 ^ 32 := by
  have small := fun byte : UInt8 => byte.toNat_lt
  have bounds := And.intro (small first) (And.intro (small second) (And.intro (small third)
    (small fourth)))
  unfold u32FromBeBytes
  omega

theorem u32FromBeBytes_toBeBytes (word : Nat) (fits : word < 2 ^ 32) :
    u32FromBeBytes (UInt8.ofNat (word / 2 ^ 24)) (UInt8.ofNat (word / 2 ^ 16))
      (UInt8.ofNat (word / 2 ^ 8)) (UInt8.ofNat word) = word := by
  simp only [u32FromBeBytes, UInt8.toNat_ofNat']
  omega

theorem u32ToBeBytes_fromBeBytes (first second third fourth : UInt8) :
    u32ToBeBytes (u32FromBeBytes first second third fourth) = [first, second, third, fourth] := by
  have small := fun byte : UInt8 => byte.toNat_lt
  have bounds := And.intro (small first) (And.intro (small second) (And.intro (small third)
    (small fourth)))
  have same : ∀ {byte : UInt8} {value : Nat}, value % 2 ^ 8 = byte.toNat →
      UInt8.ofNat value = byte := by
    intro byte value isByte
    refine UInt8.toNat_inj.mp ?_
    rw [UInt8.toNat_ofNat', isByte]
  unfold u32ToBeBytes u32FromBeBytes
  rw [@same first _ (by omega), @same second _ (by omega), @same third _ (by omega),
    @same fourth _ (by omega)]

def asBytes (text : String) : List UInt8 := text.toByteArray.data.toList

def fromUtf8 (bytes : List UInt8) : Option String := String.fromUTF8? ⟨bytes.toArray⟩

theorem fromUtf8_eq_some_iff {bytes : List UInt8} {text : String} :
    fromUtf8 bytes = some text ↔ asBytes text = bytes := by
  unfold fromUtf8 String.fromUTF8? asBytes
  constructor
  · intro read
    split at read
    · cases read
      rfl
    · cases read
  · rintro rfl
    exact dif_pos text.isValidUTF8

theorem length_asBytes (text : String) : (asBytes text).length = text.utf8ByteSize := rfl

theorem length_asBytes_of_ascii {text : String}
    (ascii : ∀ char ∈ text.toList, char.utf8Size = 1) :
    (asBytes text).length = text.toList.length := by
  have size : ∀ chars : List Char, (∀ char ∈ chars, char.utf8Size = 1) →
      (String.ofList chars).utf8ByteSize = chars.length := by
    intro chars
    induction chars using List.reverseRecOn with
    | nil => exact fun _ => rfl
    | append_singleton chars char ih =>
      intro ascii
      rw [String.ofList_append, String.utf8ByteSize_append,
        ih fun other listed => ascii other (List.mem_append_left _ listed), List.length_append,
        ← String.singleton_eq_ofList, String.utf8ByteSize_singleton, ascii char (by simp),
        List.length_singleton]
  rw [length_asBytes, ← size text.toList ascii, String.ofList_toList]

section Parts

variable {Byte : Type} {bytes : List Byte} {start stop : Nat}

/-- `bytes[start..stop]`; none where that would panic. -/
def slice? (bytes : List Byte) (start stop : Nat) : Option (List Byte) :=
  if start ≤ stop ∧ stop ≤ bytes.length then some ((bytes.drop start).take (stop - start)) else none

theorem slice?_eq_some (ordered : start ≤ stop) (inside : stop ≤ bytes.length) :
    slice? bytes start stop = some ((bytes.drop start).take (stop - start)) :=
  if_pos ⟨ordered, inside⟩

theorem drop_eq_take_append (bytes : List Byte) (start size : Nat) :
    bytes.drop start = (bytes.drop start).take size ++ bytes.drop (start + size) := by
  rw [← List.drop_drop, List.take_append_drop]

end Parts

end Nanofile.Lib.Bytes
