import Mathlib.Data.List.Basic
import Mathlib.Data.List.GetD

/-!
# Files written by position

Writing past the end of a file fills the gap with zeros.  A history of writes carries a
position when one of them covers it; the last one that does decides the byte.
-/

set_option autoImplicit false

namespace Nanofile.Lib

universe u

variable {Byte : Type u}

structure ByteWrite (Byte : Type u) where
  offset : Nat
  bytes : List Byte

def ByteWrite.Covers (write : ByteWrite Byte) (position : Nat) : Prop :=
  write.offset ≤ position ∧ position < write.offset + write.bytes.length

instance (write : ByteWrite Byte) (position : Nat) : Decidable (write.Covers position) :=
  inferInstanceAs (Decidable (_ ∧ _))

variable [Inhabited Byte]

/-- The file after a write; a gap before the write is filled. -/
def writeAt (file : List Byte) (write : ByteWrite Byte) : List Byte :=
  (file ++ List.replicate (write.offset - file.length) default).take write.offset ++
    write.bytes ++ file.drop (write.offset + write.bytes.length)

theorem length_writeAt (file : List Byte) (write : ByteWrite Byte) :
    (writeAt file write).length = max file.length (write.offset + write.bytes.length) := by
  simp only [writeAt, List.length_append, List.length_take, List.length_replicate,
    List.length_drop]
  omega

theorem getElem?_writeAt_covered (file : List Byte) {write : ByteWrite Byte} {position : Nat}
    (covers : write.Covers position) :
    (writeAt file write)[position]? = write.bytes[position - write.offset]? := by
  obtain ⟨above, below⟩ := covers
  have front : ((file ++ List.replicate (write.offset - file.length) default).take
      write.offset).length = write.offset := by
    simp only [List.length_take, List.length_append, List.length_replicate]
    omega
  unfold writeAt
  rw [List.append_assoc, List.getElem?_append_right (by omega), front,
    List.getElem?_append_left (by omega)]

theorem getElem?_writeAt_kept {file : List Byte} {write : ByteWrite Byte} {position : Nat}
    (inside : position < file.length) (kept : ¬ write.Covers position) :
    (writeAt file write)[position]? = file[position]? := by
  have front : ((file ++ List.replicate (write.offset - file.length) default).take
      write.offset).length = write.offset := by
    simp only [List.length_take, List.length_append, List.length_replicate]
    omega
  unfold writeAt
  by_cases before : position < write.offset
  · rw [List.append_assoc, List.getElem?_append_left (by omega),
      List.getElem?_take_of_lt before, List.getElem?_append_left inside]
  · have beyond : write.offset + write.bytes.length ≤ position := by
      by_contra within
      exact kept ⟨Nat.le_of_not_lt before, Nat.lt_of_not_le within⟩
    rw [List.getElem?_append_right (by rw [List.length_append]; omega), List.length_append, front,
      List.getElem?_drop]
    congr 1
    omega

theorem writeAt_length (file bytes : List Byte) :
    writeAt file ⟨file.length, bytes⟩ = file ++ bytes := by
  simp [writeAt]

/-- The byte the last write that covers a position carries there. -/
def carriedByte (writes : List (ByteWrite Byte)) (position : Nat) : Option Byte :=
  writes.foldl
    (fun carried write =>
      if write.Covers position then write.bytes[position - write.offset]? else carried)
    none

omit [Inhabited Byte] in
theorem carriedByte_concat (writes : List (ByteWrite Byte)) (write : ByteWrite Byte)
    (position : Nat) :
    carriedByte (writes ++ [write]) position =
      if write.Covers position then write.bytes[position - write.offset]?
      else carriedByte writes position := by
  rw [carriedByte, List.foldl_concat, ← carriedByte]

/-- A file without gaps: every byte of it is the one carried last. -/
def Carries (writes : List (ByteWrite Byte)) (file : List Byte) : Prop :=
  ∀ position, position < file.length → carriedByte writes position = file[position]?

theorem Carries.write {writes : List (ByteWrite Byte)} {file : List Byte}
    (carries : Carries writes file) {write : ByteWrite Byte} (noGap : write.offset ≤ file.length) :
    Carries (writes ++ [write]) (writeAt file write) := by
  intro position inside
  rw [length_writeAt] at inside
  rw [carriedByte_concat]
  by_cases covers : write.Covers position
  · rw [if_pos covers, getElem?_writeAt_covered file covers]
  · have below : position < file.length := by
      by_contra beyond
      refine covers ⟨?_, ?_⟩ <;> omega
    rw [if_neg covers, getElem?_writeAt_kept below covers]
    exact carries position below

theorem writeAt_isPrefix {file part : List Byte} {write : ByteWrite Byte} (isPrefix : part <+: file)
    (noGap : write.offset ≤ part.length) (isPart : write.bytes <+: file.drop write.offset) :
    writeAt part write <+: file := by
  rw [List.prefix_iff_getElem?] at isPrefix isPart ⊢
  intro position inside
  rw [← List.getElem?_eq_getElem inside]
  by_cases covers : write.Covers position
  · obtain ⟨above, below⟩ := covers
    have inBytes : position - write.offset < write.bytes.length := by omega
    have same := isPart (position - write.offset) inBytes
    rw [List.getElem?_drop, Nat.add_sub_cancel' above] at same
    rw [getElem?_writeAt_covered part ⟨above, below⟩, same, List.getElem?_eq_getElem inBytes]
  · rw [length_writeAt] at inside
    have below : position < part.length := by
      by_contra beyond
      refine covers ⟨?_, ?_⟩ <;> omega
    rw [getElem?_writeAt_kept below covers, isPrefix position below,
      List.getElem?_eq_getElem below]

end Nanofile.Lib
