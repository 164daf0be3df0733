import Mathlib.Data.Nat.ModEq

/-!
# One's complement sums

Bytes as words of 16 bits, in either byte order, and their sum with the carry added at the other
end. A sum of words is a number below `2 ^ 16` that is congruent to their sum modulo `2 ^ 16 - 1`,
and is zero for zeros only. So a text whose sum is all ones is found in both byte orders.
-/

namespace Nmap.Base.OnesComplement

open List

/-- The order of the two bytes of a word in memory -/
inductive ByteOrder
  | little
  | big
  deriving DecidableEq

def word : ByteOrder → UInt8 → UInt8 → Nat
  | .little, a, b => a.toNat + 2 ^ 8 * b.toNat
  | .big, a, b => 2 ^ 8 * a.toNat + b.toNat

/-- The words of a text. The last byte of an odd number is followed by zero. -/
def words (order : ByteOrder) : List UInt8 → List Nat
  | [] => []
  | [a] => [word order a 0]
  | a :: b :: s => word order a b :: words order s

def bytesOf : ByteOrder → Nat → List UInt8
  | .little, n => [UInt8.ofNat n, UInt8.ofNat (n / 2 ^ 8)]
  | .big, n => [UInt8.ofNat (n / 2 ^ 8), UInt8.ofNat n]

/-- Addition with the carry added at the other end -/
def add (x y : Nat) : Nat := (x + y) / 2 ^ 16 + (x + y) % 2 ^ 16

def sum (ws : List Nat) : Nat := ws.foldl add 0

def ones : Nat := 2 ^ 16 - 1

/-! ## Words -/

theorem word_lt (order : ByteOrder) (a b : UInt8) : word order a b < 2 ^ 16 := by
  have hi := a.toNat_lt
  have lo := b.toNat_lt
  cases order
  · show a.toNat + 2 ^ 8 * b.toNat < 2 ^ 16
    omega
  · show 2 ^ 8 * a.toNat + b.toNat < 2 ^ 16
    omega

theorem words_lt (order : ByteOrder) (s : List UInt8) : ∀ w ∈ words order s, w < 2 ^ 16 := by
  fun_induction words order s with
  | case1 => simp
  | case2 a =>
    intro w mem
    rw [mem_singleton.mp mem]
    exact word_lt _ _ _
  | case3 a b s ih =>
    intro w mem
    rcases mem_cons.mp mem with rfl | later
    · exact word_lt _ _ _
    · exact ih w later

theorem words_append {s : List UInt8} (order : ByteOrder) (even : s.length % 2 = 0)
    (t : List UInt8) : words order (s ++ t) = words order s ++ words order t := by
  fun_induction words order s with
  | case1 => rfl
  | case2 a => cases even
  | case3 a b s ih =>
    rw [length_cons, length_cons] at even
    rw [cons_append, cons_append, words, ih (by omega)]
    rfl

theorem sum_words_le (order : ByteOrder) (s : List UInt8) :
    2 * (words order s).sum ≤ (2 ^ 16 - 1) * (s.length + 1) := by
  fun_induction words order s with
  | case1 => simp
  | case2 a =>
    have small := word_lt order a 0
    rw [sum_singleton, length_singleton]
    omega
  | case3 a b s ih =>
    have small := word_lt order a b
    rw [sum_cons, length_cons, length_cons]
    omega

theorem word_bytesOf (order : ByteOrder) {n : Nat} (small : n < 2 ^ 16) :
    words order (bytesOf order n) = [n] := by
  have byte : ∀ m : Nat, (UInt8.ofNat m).toNat = m % 2 ^ 8 := fun m => UInt8.toNat_ofNat'
  cases order
  · show [(UInt8.ofNat n).toNat + 2 ^ 8 * (UInt8.ofNat (n / 2 ^ 8)).toNat] = [n]
    rw [byte, byte]
    congr 1
    omega
  · show [2 ^ 8 * (UInt8.ofNat (n / 2 ^ 8)).toNat + (UInt8.ofNat n).toNat] = [n]
    rw [byte, byte]
    congr 1
    omega

theorem length_bytesOf (order : ByteOrder) (n : Nat) : (bytesOf order n).length = 2 := by
  cases order <;> rfl

theorem sum_words_field {pre : List UInt8} (order : ByteOrder) (even : pre.length % 2 = 0)
    {n : Nat} (small : n < 2 ^ 16) (post : List UInt8) :
    (words order (pre ++ bytesOf order n ++ post)).sum =
      (words order (pre ++ [0, 0] ++ post)).sum + n := by
  have two : ((pre ++ bytesOf order n).length) % 2 = 0 := by
    rw [length_append, length_bytesOf]
    omega
  have two' : ((pre ++ [0, 0]).length) % 2 = 0 := by
    rw [length_append]
    simpa using even
  have zero : words order [0, 0] = [0] := by cases order <;> rfl
  rw [words_append order two, words_append order two', words_append order even,
    words_append order even, word_bytesOf order small, zero]
  simp only [sum_append, sum_singleton]
  omega

/-! ## Sums -/

theorem add_lt {x y : Nat} (left : x < 2 ^ 16) (right : y < 2 ^ 16) : add x y < 2 ^ 16 := by
  unfold add
  omega

theorem fold_modEq (x : Nat) : x / 2 ^ 16 + x % 2 ^ 16 ≡ x [MOD ones] := by
  have whole := Nat.div_add_mod x (2 ^ 16)
  show (x / 2 ^ 16 + x % 2 ^ 16) % (2 ^ 16 - 1) = x % (2 ^ 16 - 1)
  omega

theorem add_eq_zero {x y : Nat} : add x y = 0 ↔ x + y = 0 := by
  unfold add
  omega

theorem foldl_add {ws : List Nat} (small : ∀ w ∈ ws, w < 2 ^ 16) {start : Nat}
    (begin_ : start < 2 ^ 16) :
    ws.foldl add start < 2 ^ 16 ∧ ws.foldl add start ≡ start + ws.sum [MOD ones] ∧
      (ws.foldl add start = 0 ↔ start + ws.sum = 0) := by
  induction ws generalizing start with
  | nil =>
    refine ⟨begin_, ?_, ?_⟩
    · exact Nat.ModEq.refl _
    · exact Iff.rfl
  | cons w ws ih =>
    have first := add_lt begin_ (small w mem_cons_self)
    obtain ⟨below, congruent, zero⟩ := ih (fun v mem => small v (mem_cons_of_mem _ mem)) first
    rw [foldl_cons, sum_cons]
    refine ⟨below, ?_, ?_⟩
    · have folded := (fold_modEq (start + w)).add_right ws.sum
      rw [← Nat.add_assoc]
      exact congruent.trans folded
    · rw [zero, Nat.add_eq_zero_iff, add_eq_zero]
      omega

theorem sum_eq_ones_iff {ws : List Nat} (small : ∀ w ∈ ws, w < 2 ^ 16) :
    sum ws = ones ↔ ws.sum % ones = 0 ∧ ws.sum ≠ 0 := by
  obtain ⟨below, congruent, zero⟩ := foldl_add small (show 0 < 2 ^ 16 by decide)
  rw [Nat.zero_add] at congruent zero
  have same : sum ws % ones = ws.sum % ones := congruent
  change sum ws < 2 ^ 16 at below
  change sum ws = 0 ↔ ws.sum = 0 at zero
  unfold ones at same ⊢
  constructor
  · intro eq
    refine ⟨by omega, ?_⟩
    rw [ne_eq, ← zero]
    omega
  · rintro ⟨multiple, positive⟩
    rw [ne_eq, ← zero] at positive
    omega

/-! ## Byte order -/

theorem sum_words_big (s : List UInt8) :
    (words .big s).sum ≡ 2 ^ 8 * (words .little s).sum [MOD ones] ∧
      ((words .big s).sum = 0 ↔ (words .little s).sum = 0) := by
  have swap : ∀ a b : UInt8, word .big a b ≡ 2 ^ 8 * word .little a b [MOD ones] ∧
      (word .big a b = 0 ↔ word .little a b = 0) := by
    intro a b
    refine ⟨?_, ?_⟩
    · show (2 ^ 8 * a.toNat + b.toNat) % (2 ^ 16 - 1) =
        2 ^ 8 * (a.toNat + 2 ^ 8 * b.toNat) % (2 ^ 16 - 1)
      omega
    · show 2 ^ 8 * a.toNat + b.toNat = 0 ↔ a.toNat + 2 ^ 8 * b.toNat = 0
      omega
  induction s using words.induct with
  | case1 => exact ⟨Nat.ModEq.refl _, Iff.rfl⟩
  | case2 a =>
    rw [words, words, sum_singleton, sum_singleton]
    exact swap a 0
  | case3 a b s ih =>
    rw [words, words, sum_cons, sum_cons]
    refine ⟨?_, ?_⟩
    · rw [Nat.mul_add]
      exact (swap a b).1.add ih.1
    · rw [Nat.add_eq_zero_iff, Nat.add_eq_zero_iff, (swap a b).2, ih.2]

/-- **A sum of all ones is one in both byte orders.** -/
theorem sum_words_eq_ones_iff (order : ByteOrder) (s : List UInt8) :
    sum (words .big s) = ones ↔ (words order s).sum % ones = 0 ∧ (words order s).sum ≠ 0 := by
  rw [sum_eq_ones_iff (words_lt .big s)]
  cases order
  · obtain ⟨congruent, zero⟩ := sum_words_big s
    have same : (words .big s).sum % ones = 2 ^ 8 * (words .little s).sum % ones := congruent
    rw [ne_eq, ne_eq, zero, same]
    -- `2 ^ 8` is its own inverse
    unfold ones
    constructor
    · rintro ⟨multiple, positive⟩
      exact ⟨by omega, positive⟩
    · rintro ⟨multiple, positive⟩
      exact ⟨by omega, positive⟩
  · exact Iff.rfl

end Nmap.Base.OnesComplement
