import Mathlib.Data.Nat.Bitwise
import Nmap.Base.Numeral

/-!
# Big-endian bytes

Bytes, the most significant one first, as a number, as bits counted from the front, and as a
counter that is incremented from the last byte on.
-/

namespace Nmap.Base.BigEndian

open List

def value (bytes : List UInt8) : Nat := Numeral.value UInt8.toNat 256 bytes

/-- The bits of the bytes, from the front -/
def bitAt (bytes : List UInt8) (i : Nat) : Bool := (bytes.getD (i / 8) 0).toNat.testBit (7 - i % 8)

/-- Each byte from the last one on is incremented, up to one that does not become zero. Says
whether all did. -/
def increment : List UInt8 → List UInt8 × Bool
  | [] => ([], true)
  | b :: bs =>
    let inner := increment bs
    if inner.2 then ((b + 1) :: inner.1, b + 1 == 0) else (b :: inner.1, false)

variable {bytes bytes' : List UInt8} {k i : Nat}

theorem value_cons (b : UInt8) (bs : List UInt8) :
    value (b :: bs) = 2 ^ (8 * bs.length) * b.toNat + value bs := by
  rw [value, Numeral.value_cons, Nat.mul_comm, Nat.pow_mul]
  rfl

theorem value_lt (bytes : List UInt8) : value bytes < 2 ^ (8 * bytes.length) := by
  rw [Nat.pow_mul]
  exact Numeral.value_lt fun b _ => b.toNat_lt

/-! ## Bits -/

theorem bitAt_cons_of_lt (b : UInt8) (bs : List UInt8) (first : i < 8) :
    bitAt (b :: bs) i = b.toNat.testBit (7 - i) := by
  rw [bitAt, Nat.div_eq_of_lt first, Nat.mod_eq_of_lt first]
  rfl

theorem bitAt_cons_add (b : UInt8) (bs : List UInt8) (i : Nat) :
    bitAt (b :: bs) (i + 8) = bitAt bs i := by
  rw [bitAt, Nat.add_div_right i (by decide), Nat.add_mod_right]
  rfl

theorem testBit_value {j : Nat} (opposite : i + j + 1 = 8 * bytes.length) :
    (value bytes).testBit j = bitAt bytes i := by
  induction bytes generalizing i with
  | nil => cases opposite
  | cons b bs ih =>
    rw [length_cons] at opposite
    rw [value_cons, Nat.testBit_two_pow_mul_add _ (value_lt bs)]
    rcases Nat.lt_or_ge i 8 with first | later
    · rw [if_neg (by omega), bitAt_cons_of_lt b bs first]
      congr 1
      omega
    · obtain ⟨i, rfl⟩ := Nat.exists_eq_add_of_le' later
      rw [if_pos (by omega), bitAt_cons_add, ih (i := i) (by omega)]

theorem bitAt_eq_getElem (inside : i < 8 * bytes.length) :
    bitAt bytes i = (bytes.get ⟨i / 8, by omega⟩).toNat.testBit (7 - i % 8) := by
  rw [bitAt, getD_eq_getElem _ _ (by omega)]
  rfl

theorem bitAt_zipWith {f : UInt8 → UInt8 → UInt8} {g : Bool → Bool → Bool}
    (bitwise : ∀ x y j, j < 8 →
      (f x y).toNat.testBit j = g (x.toNat.testBit j) (y.toNat.testBit j))
    (length : bytes.length = bytes'.length) (inside : i < 8 * bytes.length) :
    bitAt (List.zipWith f bytes bytes') i = g (bitAt bytes i) (bitAt bytes' i) := by
  rw [bitAt_eq_getElem (by simp [← length, inside]), bitAt_eq_getElem inside,
    bitAt_eq_getElem (by omega)]
  simp only [get_eq_getElem, getElem_zipWith]
  exact bitwise _ _ _ (by omega)

theorem eq_zero_of_bits (bytes : List UInt8)
    (none : ∀ i < 8 * bytes.length, bitAt bytes i = false) :
    bytes = List.replicate bytes.length 0 := by
  induction bytes with
  | nil => rfl
  | cons b bs ih =>
    have first : b = 0 := by
      apply UInt8.toNat_inj.mp
      apply Nat.eq_of_testBit_eq
      intro j
      rw [show (0 : UInt8).toNat = 0 from rfl, Nat.zero_testBit]
      rcases Nat.lt_or_ge j 8 with inside | outside
      · have at_j := none (7 - j) (by simp; omega)
        rwa [bitAt_cons_of_lt b bs (by omega), show 7 - (7 - j) = j by omega] at at_j
      · exact Nat.testBit_lt_two_pow
          (Nat.lt_of_lt_of_le b.toNat_lt (Nat.pow_le_pow_right (by decide) outside))
    have rest : bs = List.replicate bs.length 0 := by
      apply ih
      intro i inside
      rw [← bitAt_cons_add b]
      exact none _ (by simp; omega)
    rw [length_cons, replicate_succ, ← rest, first]

theorem eq_of_value (length : bytes.length = bytes'.length) (same : value bytes = value bytes') :
    bytes = bytes' := by
  induction bytes generalizing bytes' with
  | nil => exact (length_eq_zero_iff.mp length.symm).symm
  | cons b bs ih =>
    cases bytes' with
    | nil => cases length
    | cons b' bs' =>
      have lengths : bs.length = bs'.length := Nat.succ.inj length
      rw [value_cons, value_cons, lengths] at same
      have low := value_lt bs
      have low' := value_lt bs'
      rw [lengths] at low
      obtain ⟨high, rest⟩ : b.toNat = b'.toNat ∧ value bs = value bs' := by
        have quotient := congrArg (· / 2 ^ (8 * bs'.length)) same
        simp only [Nat.mul_add_div (Nat.two_pow_pos _), Nat.div_eq_of_lt low,
          Nat.div_eq_of_lt low', Nat.add_zero] at quotient
        rw [quotient] at same
        exact ⟨quotient, Nat.add_left_cancel same⟩
      rw [UInt8.toNat_inj.mp high, ih lengths rest]

theorem same_front_iff (length : bytes.length = bytes'.length) (short : k ≤ 8 * bytes.length) :
    (∀ i < k, bitAt bytes i = bitAt bytes' i) ↔
      value bytes / 2 ^ (8 * bytes.length - k) = value bytes' / 2 ^ (8 * bytes.length - k) := by
  constructor
  · intro same
    apply Nat.eq_of_testBit_eq
    intro j
    rw [Nat.testBit_div_two_pow, Nat.testBit_div_two_pow]
    rcases Nat.lt_or_ge j k with inside | outside
    · rw [testBit_value (i := k - 1 - j) (by omega), testBit_value (i := k - 1 - j) (by omega)]
      exact same _ (by omega)
    · have beyond : ∀ x : List UInt8, x.length = bytes.length →
          (value x).testBit (j + (8 * bytes.length - k)) = false := by
        intro x same
        apply Nat.testBit_lt_two_pow
        rw [← same]
        exact Nat.lt_of_lt_of_le (value_lt x) (Nat.pow_le_pow_right (by decide) (by omega))
      rw [beyond bytes rfl, beyond bytes' length.symm]
  · intro same i inside
    have at_j := congrArg (·.testBit (k - 1 - i)) same
    simp only [Nat.testBit_div_two_pow] at at_j
    rwa [testBit_value (i := i) (by omega), testBit_value (i := i) (by omega)] at at_j

theorem value_mod (short : k ≤ 8 * bytes.length) {b : Bool}
    (back : ∀ i, k ≤ i → i < 8 * bytes.length → bitAt bytes i = b) :
    value bytes % 2 ^ (8 * bytes.length - k) =
      if b then 2 ^ (8 * bytes.length - k) - 1 else 0 := by
  apply Nat.eq_of_testBit_eq
  intro j
  rw [Nat.testBit_mod_two_pow]
  by_cases inside : j < 8 * bytes.length - k
  · have here : (value bytes).testBit j = b := by
      rw [testBit_value (i := 8 * bytes.length - 1 - j) (by omega)]
      exact back _ (by omega) (by omega)
    cases b
    · simp [here]
    · simp [here, inside]
  · cases b
    · simp [inside]
    · simp [inside]

/-! ## The counter -/

theorem length_increment (bytes : List UInt8) : (increment bytes).1.length = bytes.length := by
  induction bytes with
  | nil => rfl
  | cons b bs ih =>
    rw [increment]
    split
    · simp [ih]
    · simp [ih]

theorem value_increment (bytes : List UInt8) :
    value (increment bytes).1 + (if (increment bytes).2 then 2 ^ (8 * bytes.length) else 0) =
      value bytes + 1 := by
  induction bytes with
  | nil => rfl
  | cons b bs ih =>
    have length := length_increment bs
    have wide : 2 ^ (8 * (b :: bs).length) = 2 ^ (8 * bs.length) * 256 := by
      rw [length_cons, Nat.mul_succ, Nat.pow_add]
    rw [increment, wide]
    cases carry : (increment bs).2 with
    | false =>
      simp only [carry, Bool.false_eq_true, if_false] at ih ⊢
      rw [value_cons, value_cons, length]
      omega
    | true =>
      simp only [carry, if_true] at ih ⊢
      rw [value_cons, value_cons, length]
      by_cases round : b + 1 = 0
      · have last : b.toNat = 255 := by
          have sum : (b + 1).toNat = (b.toNat + 1) % 256 := UInt8.toNat_add b 1
          rw [round] at sum
          have zero : (0 : UInt8).toNat = 0 := rfl
          have bound := b.toNat_lt
          omega
        simp only [round, BEq.rfl, if_true]
        rw [last]
        have zero : (0 : UInt8).toNat = 0 := rfl
        rw [zero]
        omega
      · have next : (b + 1).toNat = b.toNat + 1 := by
          have sum : (b + 1).toNat = (b.toNat + 1) % 256 := UInt8.toNat_add b 1
          have bound := b.toNat_lt
          have nonzero : (b + 1).toNat ≠ 0 := fun zero => round (UInt8.toNat_inj.mp zero)
          omega
        simp only [beq_eq_false_iff_ne.mpr round, Bool.false_eq_true, if_false]
        rw [next, Nat.mul_succ]
        omega

theorem value_increment_of_lt (length : bytes.length = bytes'.length)
    (less : value bytes < value bytes') : value (increment bytes).1 = value bytes + 1 := by
  have sum := value_increment bytes
  have bound := value_lt bytes'
  have inside := value_lt (increment bytes).1
  rw [← length] at bound
  split at sum
  · omega
  · omega

end Nmap.Base.BigEndian
