import Mathlib.Algebra.Order.Ring.Nat
import Mathlib.Order.Compare
import Mathlib.Tactic.Ring
import Mathlib.Tactic.Linarith

/-!
# Numerals

A numeral is a list of digits, the most significant one first. Without leading zeros, the
numbers compare as their numerals do by length and then digit by digit.
-/

namespace Nmap.Base.Numeral

open List

variable {α : Type} (weight : α → Nat) (base : Nat)

def value (s : List α) : Nat := s.foldl (fun n c => n * base + weight c) 0

/-- No leading zero, but for zero itself -/
def Canonical : List α → Prop
  | [] => False
  | [_] => True
  | c :: _ :: _ => weight c ≠ 0

variable {weight base}

theorem foldl_value (s : List α) (n : Nat) :
    s.foldl (fun n c => n * base + weight c) n = n * base ^ s.length + value weight base s := by
  unfold value
  induction s generalizing n with
  | nil => simp
  | cons c s ih =>
    rw [foldl_cons, foldl_cons, ih, ih (0 * base + weight c), length_cons]
    ring

theorem value_cons (c : α) (s : List α) :
    value weight base (c :: s) = weight c * base ^ s.length + value weight base s := by
  rw [value, foldl_cons, foldl_value]
  simp

variable {s : List α}

theorem value_lt (digits : ∀ c ∈ s, weight c < base) :
    value weight base s < base ^ s.length := by
  induction s with
  | nil => simp [value]
  | cons c s ih =>
    have rest := ih fun d mem => digits d (mem_cons_of_mem _ mem)
    have first := digits c mem_cons_self
    rw [value_cons, length_cons]
    calc weight c * base ^ s.length + value weight base s
        < weight c * base ^ s.length + base ^ s.length := by omega
      _ = (weight c + 1) * base ^ s.length := by ring
      _ ≤ base * base ^ s.length := Nat.mul_le_mul_right _ first
      _ = base ^ (s.length + 1) := by ring

theorem Canonical.le_value {c d : α} (canonical : Canonical weight (c :: d :: s)) :
    base ^ (s.length + 1) ≤ value weight base (c :: d :: s) := by
  rw [value_cons, length_cons]
  have positive : 1 ≤ weight c := Nat.one_le_iff_ne_zero.mpr canonical
  exact (Nat.le_mul_of_pos_left _ positive).trans (Nat.le_add_right _ _)

theorem value_lt_of_shorter {t : List α} (digits : ∀ c ∈ s, weight c < base)
    (canonical : Canonical weight t) (nonempty : s ≠ []) (shorter : s.length < t.length) :
    value weight base s < value weight base t := by
  rcases t with _ | ⟨c, _ | ⟨d, t⟩⟩
  · exact absurd shorter (Nat.not_lt_zero _)
  · exact absurd (length_eq_zero_iff.mp (Nat.lt_one_iff.mp shorter)) nonempty
  · have pos : 0 < base := by
      cases s with
      | nil => exact absurd rfl nonempty
      | cons c s => exact Nat.lt_of_le_of_lt (Nat.zero_le _) (digits c mem_cons_self)
    calc value weight base s < base ^ s.length := value_lt digits
      _ ≤ base ^ (t.length + 1) := Nat.pow_le_pow_right pos (Nat.le_of_lt_succ shorter)
      _ ≤ value weight base (c :: d :: t) := canonical.le_value

theorem compare_add_left (n a b : Nat) : compare (n + a) (n + b) = compare a b := by
  rcases lt_trichotomy a b with less | rfl | greater
  · rw [compare_lt_iff_lt.mpr less, compare_lt_iff_lt]
    omega
  · rw [compare_eq_iff_eq.mpr rfl, compare_eq_iff_eq.mpr rfl]
  · rw [compare_gt_iff_gt.mpr greater, compare_gt_iff_gt]
    omega

section Order

variable {cmp : α → α → Ordering} {digit : α → Prop}

/-- Numerals of one length compare as their digits do. -/
theorem compare_value_of_length {s t : List α}
    (byWeight : ∀ c d, digit c → digit d → cmp c d = compare (weight c) (weight d))
    (bounded : ∀ c, digit c → weight c < base)
    (hs : ∀ c ∈ s, digit c) (ht : ∀ c ∈ t, digit c) (same : s.length = t.length) :
    compare (value weight base s) (value weight base t) = List.compareLex cmp s t := by
  induction s generalizing t with
  | nil =>
    cases length_eq_zero_iff.mp same.symm
    rw [List.compareLex_nil_nil, compare_eq_iff_eq]
  | cons c s ih =>
    cases t with
    | nil => cases same
    | cons d t =>
      have lengths : s.length = t.length := Nat.succ.inj same
      have hs' : ∀ c ∈ s, digit c := fun c mem => hs c (mem_cons_of_mem _ mem)
      have ht' : ∀ c ∈ t, digit c := fun c mem => ht c (mem_cons_of_mem _ mem)
      have boundS : value weight base s < base ^ s.length :=
        value_lt fun c mem => bounded c (hs' c mem)
      have boundT : value weight base t < base ^ t.length :=
        value_lt fun c mem => bounded c (ht' c mem)
      rw [List.compareLex_cons_cons, value_cons, value_cons, ← lengths,
        byWeight c d (hs c List.mem_cons_self) (ht d List.mem_cons_self)]
      rw [← lengths] at boundT
      rcases lt_trichotomy (weight c) (weight d) with less | equal | greater
      · have step : (weight c + 1) * base ^ s.length ≤ weight d * base ^ s.length :=
          Nat.mul_le_mul_right _ less
        rw [compare_lt_iff_lt.mpr less, Ordering.lt_then, compare_lt_iff_lt]
        linarith
      · rw [equal, compare_eq_iff_eq.mpr rfl, Ordering.eq_then, ← ih hs' ht' lengths]
        exact compare_add_left _ _ _
      · have step : (weight d + 1) * base ^ s.length ≤ weight c * base ^ s.length :=
          Nat.mul_le_mul_right _ greater
        rw [compare_gt_iff_gt.mpr greater, Ordering.gt_then, compare_gt_iff_gt]
        linarith

/-- **Numerals compare by length and then by their digits.** -/
theorem compare_value {s t : List α}
    (byWeight : ∀ c d, digit c → digit d → cmp c d = compare (weight c) (weight d))
    (bounded : ∀ c, digit c → weight c < base)
    (hs : ∀ c ∈ s, digit c) (ht : ∀ c ∈ t, digit c)
    (canonicalS : Canonical weight s) (canonicalT : Canonical weight t) :
    compare (value weight base s) (value weight base t) =
      (compare s.length t.length).then (List.compareLex cmp s t) := by
  have nonempty : ∀ {u : List α}, Canonical weight u → u ≠ [] := by
    rintro u canonical rfl
    exact canonical
  rcases lt_trichotomy s.length t.length with shorter | same | longer
  · rw [compare_lt_iff_lt.mpr shorter, Ordering.lt_then, compare_lt_iff_lt]
    exact value_lt_of_shorter (fun c mem => bounded c (hs c mem)) canonicalT
      (nonempty canonicalS) shorter
  · rw [compare_eq_iff_eq.mpr same, Ordering.eq_then]
    exact compare_value_of_length byWeight bounded hs ht same
  · rw [compare_gt_iff_gt.mpr longer, Ordering.gt_then, compare_gt_iff_gt]
    exact value_lt_of_shorter (fun c mem => bounded c (ht c mem)) canonicalS
      (nonempty canonicalT) longer

end Order

end Nmap.Base.Numeral
