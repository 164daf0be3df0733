import Mathlib.Algebra.Group.Nat.Defs
import Mathlib.Data.List.Basic
import Mathlib.Tactic.Common

/-!
# UTF-8 on byte lists

Reading one scalar value off the front of a byte list, and reading a whole byte
list with U+FFFD for every byte that does not start a well-formed sequence.
Encoding and decoding themselves are the core library's; `decode?_eq_some_iff` is
all that is used of them.
-/

namespace Nmap.Base

open List

/-- A string of bytes. -/
abbrev Bytes := List UInt8

def ascii (s : String) : Bytes := s.toList.map fun c => UInt8.ofNat c.toNat

theorem forall_byte {P : UInt8 → Prop} (each : ∀ n : Fin 256, P (UInt8.ofNat n)) (c : UInt8) :
    P c := by
  have here := each ⟨c.toNat, c.toNat_lt⟩
  rwa [UInt8.ofNat_toNat] at here

namespace Utf8

/-- The scalar value at the front, and what follows it. No encoding is longer
than four bytes. -/
def decode? (s : Bytes) : Option (Char × Bytes) :=
  ((s.take 4).toByteArray.utf8DecodeChar? 0).map fun c => (c, s.drop c.utf8Size)

variable {s : Bytes}

theorem toByteArray_inj {t : Bytes} (h : s.toByteArray = t.toByteArray) : s = t := by
  have := congrArg (fun b => b.data.toList) h
  simpa [data_toByteArray] using this

theorem decode?_append (c : Char) (rest : Bytes) :
    decode? (String.utf8EncodeChar c ++ rest) = some (c, rest) := by
  have hlen := String.length_utf8EncodeChar c
  have hle := c.utf8Size_le_four
  have htake : (String.utf8EncodeChar c ++ rest).take 4 =
      String.utf8EncodeChar c ++ rest.take (4 - c.utf8Size) := by
    rw [take_append, take_of_length_le (by omega), hlen]
  rw [decode?, htake, toByteArray_append, ByteArray.utf8DecodeChar?_utf8EncodeChar_append,
    Option.map_some, ← hlen, drop_left]

variable {rest : Bytes}

theorem decode?_eq_some_iff {c : Char} :
    decode? s = some (c, rest) ↔ s = String.utf8EncodeChar c ++ rest := by
  constructor
  · intro h
    simp only [decode?, Option.map_eq_some_iff, Prod.mk.injEq] at h
    obtain ⟨c', hdecode, rfl, rfl⟩ := h
    have hbytes := String.toByteArray_utf8EncodeChar_of_utf8DecodeChar?_eq_some hdecode
    have hext : (s.take 4).toByteArray.extract 0 c'.utf8Size =
        ((s.take 4).take c'.utf8Size).toByteArray := by
      apply ByteArray.ext
      simp [data_toByteArray, ByteArray.data_extract]
    rw [hext] at hbytes
    have hle := c'.utf8Size_le_four
    have hencode : String.utf8EncodeChar c' = s.take c'.utf8Size := by
      have := toByteArray_inj hbytes
      rwa [take_take, Nat.min_eq_left hle] at this
    rw [hencode, take_append_drop]
  · rintro rfl
    exact decode?_append c rest

theorem decode?_length {c : Char} (h : decode? s = some (c, rest)) :
    rest.length < s.length := by
  rw [decode?_eq_some_iff.mp h, length_append, String.length_utf8EncodeChar]
  have := c.utf8Size_pos
  omega

def replacement : Char := '\ufffd'

/-- Read a byte list, with U+FFFD for every byte that starts no sequence. -/
def decodeLossy (s : Bytes) : List Char :=
  match _h : decode? s with
  | some (c, rest) => c :: decodeLossy rest
  | none =>
    match s with
    | [] => []
    | _ :: rest => replacement :: decodeLossy rest
termination_by s.length
decreasing_by
  · exact decode?_length _h
  · simp

attribute [local simp] decodeLossy in
theorem decodeLossy_nil : decodeLossy [] = [] := by
  rw [decodeLossy]
  split
  · rename_i h
    have := decode?_length h
    simp at this
  · rfl

theorem decodeLossy_append (c : Char) (rest : Bytes) :
    decodeLossy (String.utf8EncodeChar c ++ rest) = c :: decodeLossy rest := by
  rw [decodeLossy]
  split
  · rename_i c' rest' h
    rw [decode?_append] at h
    cases h
    rfl
  · rename_i h
    rw [decode?_append] at h
    cases h

theorem decodeLossy_none {b : UInt8} (h : decode? (b :: rest) = none) :
    decodeLossy (b :: rest) = replacement :: decodeLossy rest := by
  rw [decodeLossy]
  split
  · rename_i h'
    rw [h] at h'
    cases h'
  · rfl

end Utf8

end Nmap.Base
