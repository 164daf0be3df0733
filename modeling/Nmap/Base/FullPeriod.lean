import Mathlib.Algebra.BigOperators.Intervals
import Mathlib.Algebra.BigOperators.Ring.Nat
import Mathlib.Algebra.Ring.GeomSum
import Mathlib.Data.Fintype.EquivFin
import Mathlib.Data.Nat.Bitwise
import Mathlib.Data.Nat.ModEq
import Mathlib.Data.Nat.Prime.Basic
import Mathlib.Tactic.Ring

/-!
# Generators with a full period

An affine map modulo `2 ^ w` whose factor is 1 modulo 4 and whose summand is odd comes back to a
number after `2 ^ w` steps and not before (`iterate_inj`). An affine map with an odd factor and a rotation
are one to one on the numbers below `2 ^ w`.
-/

namespace Nmap.Base.FullPeriod

open Finset Function

/-! ## Sums of powers -/

section Powers

variable {a : ℕ}

/-- The sum of the first `n` powers -/
def powers (a n : ℕ) : ℕ := ∑ i ∈ range n, a ^ i

theorem powers_two_mul (a n : ℕ) : powers a (2 * n) = (1 + a ^ n) * powers a n := by
  rw [powers, powers, two_mul, sum_range_add, add_mul, one_mul, mul_sum]
  simp only [pow_add]

theorem odd_powers (odd : Odd a) {n : ℕ} (oddN : Odd n) : Odd (powers a n) := by
  rw [powers, odd_sum_iff_odd_card_odd]
  have all : {i ∈ range n | Odd (a ^ i)} = range n := filter_true_of_mem fun i _ => odd.pow
  rwa [all, card_range]

/-- One more than a power is twice an odd number. -/
theorem one_add_pow (one : a % 4 = 1) (n : ℕ) : ∃ u, Odd u ∧ 1 + a ^ n = 2 * u := by
  have power : a ^ n % 4 = 1 := by rw [Nat.pow_mod, one, one_pow, Nat.one_mod]
  exact ⟨(1 + a ^ n) / 2, Nat.odd_iff.mpr (by omega), by omega⟩

/-- Up to odd factors, the sum of `n` powers is `n`. -/
theorem powers_eq (one : a % 4 = 1) (n : ℕ) :
    ∃ u v, Odd u ∧ Odd v ∧ u * powers a n = v * n := by
  have odd : Odd a := Nat.odd_iff.mpr (by omega)
  induction n using Nat.strong_induction_on with
  | h n ih =>
    obtain ⟨m, half⟩ | oddN := Nat.even_or_odd n
    · obtain rfl | pos := Nat.eq_zero_or_pos m
      · exact ⟨1, 1, odd_one, odd_one, by rw [half]; rfl⟩
      · obtain ⟨u, v, oddU, oddV, same⟩ := ih m (by omega)
        obtain ⟨t, oddT, twice⟩ := one_add_pow one m
        refine ⟨u, v * t, oddU, oddV.mul oddT, ?_⟩
        rw [half, ← two_mul, powers_two_mul, twice]
        calc u * (2 * t * powers a m) = 2 * t * (u * powers a m) := by ring
          _ = v * t * (2 * m) := by rw [same]; ring
    · exact ⟨n, powers a n, oddN, odd_powers odd oddN, Nat.mul_comm _ _⟩

theorem two_pow_dvd_odd_mul {u : ℕ} (odd : Odd u) (w n : ℕ) : 2 ^ w ∣ u * n ↔ 2 ^ w ∣ n := by
  have coprime : Nat.Coprime (2 ^ w) u := (Nat.coprime_two_left.mpr odd).pow_left w
  exact ⟨coprime.dvd_of_dvd_mul_left, fun dvd => dvd.mul_left u⟩

theorem two_pow_dvd_powers (one : a % 4 = 1) (w n : ℕ) : 2 ^ w ∣ powers a n ↔ 2 ^ w ∣ n := by
  obtain ⟨u, v, oddU, oddV, same⟩ := powers_eq one n
  rw [← two_pow_dvd_odd_mul oddU, same, two_pow_dvd_odd_mul oddV]

end Powers

/-! ## Affine maps -/

section Affine

variable {w a c : ℕ}

/-- An affine map on `w` bits -/
def affine (w a c x : ℕ) : ℕ := (x * a + c) % 2 ^ w

theorem affine_lt (w a c x : ℕ) : affine w a c x < 2 ^ w :=
  Nat.mod_lt _ (Nat.two_pow_pos w)

/-- So many steps multiply the difference of the first one. -/
theorem iterate_affine (pos : 0 < a) (w c x n : ℕ) :
    (affine w a c)^[n] x ≡ x + powers a n * (x * (a - 1) + c) [MOD 2 ^ w] := by
  induction n with
  | zero => rw [powers, range_zero, sum_empty, zero_mul, add_zero]; rfl
  | succ n ih =>
    rw [iterate_succ_apply']
    have next : affine w a c ((affine w a c)^[n] x) ≡ (affine w a c)^[n] x * a + c [MOD 2 ^ w] :=
      Nat.mod_modEq _ _
    refine next.trans (((ih.mul_right a).add_right c).trans ?_)
    obtain ⟨b, rfl⟩ := Nat.exists_eq_add_of_le' pos
    have sum : powers (b + 1) (n + 1) = (b + 1) * powers (b + 1) n + 1 := geom_sum_succ
    have same : (x + powers (b + 1) n * (x * b + c)) * (b + 1) + c =
        x + ((b + 1) * powers (b + 1) n + 1) * (x * b + c) := by ring
    rw [sum, Nat.add_sub_cancel, same]

/-- With a factor that is 1 modulo 4 and an odd summand, the numbers of a period are different. -/
theorem iterate_inj (one : a % 4 = 1) (odd : c % 2 = 1) {x m n : ℕ} (hm : m < 2 ^ w)
    (hn : n < 2 ^ w) (same : (affine w a c)^[m] x = (affine w a c)^[n] x) : m = n := by
  wlog le : m ≤ n generalizing m n
  · exact (this hn hm same.symm (Nat.le_of_not_le le)).symm
  obtain ⟨d, rfl⟩ := Nat.exists_eq_add_of_le le
  -- the place that comes back after `d` steps
  set y := (affine w a c)^[m] x with place
  rw [Nat.add_comm, iterate_add_apply, ← place] at same
  have back : y + powers a d * (y * (a - 1) + c) ≡ y + 0 [MOD 2 ^ w] := by
    have steps := (iterate_affine (a := a) (by omega) w c y d).symm
    rwa [← same] at steps
  have dvd := (Nat.modEq_zero_iff_dvd).mp (Nat.ModEq.add_left_cancel' y back)
  have oddFirst : Odd (y * (a - 1) + c) := by
    have even : Even (y * (a - 1)) := (Nat.even_iff.mpr (by omega)).mul_left y
    exact even.add_odd (Nat.odd_iff.mpr odd)
  rw [Nat.mul_comm, two_pow_dvd_odd_mul oddFirst, two_pow_dvd_powers one] at dvd
  have zero := Nat.eq_zero_of_dvd_of_lt dvd (by omega)
  omega

theorem affine_inj (odd : a % 2 = 1) {x y : ℕ} (hx : x < 2 ^ w) (hy : y < 2 ^ w)
    (same : affine w a c x = affine w a c y) : x = y := by
  have coprime : Nat.gcd (2 ^ w) a = 1 := (Nat.coprime_two_left.mpr (Nat.odd_iff.mpr odd)).pow_left w
  have factors : x * a ≡ y * a [MOD 2 ^ w] := Nat.ModEq.add_right_cancel' c same
  exact (Nat.ModEq.cancel_right_of_coprime coprime factors).eq_of_lt_of_lt hx hy

end Affine

/-! ## Rotations and exclusive or -/

section Bits

variable {w : ℕ}

/-- A rotation of `w` bits to the left -/
def rotate (w r x : ℕ) : ℕ := (x <<< r ||| x >>> (w - r)) % 2 ^ w

theorem rotate_eq {r x : ℕ} (short : r ≤ w) (small : x < 2 ^ w) :
    rotate w r x = 2 ^ r * (x % 2 ^ (w - r)) + x / 2 ^ (w - r) := by
  have split : 2 ^ w = 2 ^ r * 2 ^ (w - r) := by rw [← pow_add, Nat.add_sub_cancel' short]
  have high : x / 2 ^ (w - r) < 2 ^ r := by
    rw [split] at small
    exact Nat.div_lt_of_lt_mul (by rwa [Nat.mul_comm])
  have whole : 2 ^ r ≤ 2 ^ w := Nat.pow_le_pow_right (by decide) short
  rw [rotate, Nat.or_mod_two_pow, Nat.shiftRight_eq_div_pow, Nat.shiftLeft_eq,
    Nat.mod_eq_of_lt (high.trans_le whole), Nat.mul_comm, split, Nat.mul_mod_mul_left,
    Nat.two_pow_add_eq_or_of_lt high]

theorem rotate_inj {r x y : ℕ} (short : r ≤ w) (hx : x < 2 ^ w) (hy : y < 2 ^ w)
    (same : rotate w r x = rotate w r y) : x = y := by
  have split : 2 ^ w = 2 ^ r * 2 ^ (w - r) := by rw [← pow_add, Nat.add_sub_cancel' short]
  have high : ∀ z, z < 2 ^ w → z / 2 ^ (w - r) < 2 ^ r := fun z small =>
    Nat.div_lt_of_lt_mul (by rwa [Nat.mul_comm, ← split])
  rw [rotate_eq short hx, rotate_eq short hy] at same
  have low : x % 2 ^ (w - r) = y % 2 ^ (w - r) := by
    have quotients := congrArg (· / 2 ^ r) same
    simpa only [Nat.mul_add_div (Nat.two_pow_pos r), Nat.div_eq_of_lt (high x hx),
      Nat.div_eq_of_lt (high y hy), Nat.add_zero] using quotients
  rw [low] at same
  rw [← Nat.div_add_mod x (2 ^ (w - r)), ← Nat.div_add_mod y (2 ^ (w - r)), low,
    Nat.add_left_cancel same]

theorem rotate_lt (w r x : ℕ) : rotate w r x < 2 ^ w := Nat.mod_lt _ (Nat.two_pow_pos w)

end Bits

/-! ## What is reached -/

/-- `N` different values are all of them, each once, if they can be numbered below `N`. -/
theorem existsUnique_of_inj {α : Type} {N : ℕ} {val : α → ℕ} (small : ∀ v, val v < N)
    (faithful : Injective val) {result : ℕ → α}
    (inj : ∀ m n, m < N → n < N → result m = result n → m = n) (v : α) :
    ∃! n, n < N ∧ result n = v := by
  let place : Fin N → Fin N := fun i => ⟨val (result i), small _⟩
  have injective : Injective place := fun i j same =>
    Fin.ext (inj i j i.isLt j.isLt (faithful (Fin.mk.inj same)))
  obtain ⟨i, here⟩ := Finite.surjective_of_injective injective ⟨val v, small v⟩
  have found : result i = v := faithful (Fin.mk.inj here)
  exact ⟨i, ⟨i.isLt, found⟩, fun n ⟨lt, same⟩ => inj n i lt i.isLt (same.trans found.symm)⟩

end Nmap.Base.FullPeriod
