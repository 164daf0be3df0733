import Mathlib.Data.List.TakeWhile
import Nmap.Base.Numeral
import Nmap.OsScan.ExprMatch

/-!
# Hex numbers in expressions

Values and bounds are compared by their length without leading zeros and then as text. For
numbers in the notation of fingerprints, with capital letters for the digits from ten on,
this is the order of the numbers.
-/

namespace Nmap.OsScan

open Nmap.Base List

set_option maxRecDepth 4000

/-- A digit as `%X` prints it -/
def isHexDigit (c : UInt8) : Bool := isDigit c || (0x41 ≤ c && c ≤ 0x46)

/-- A number in hex -/
structure HexNumber where
  digits : Bytes
  nonempty : digits ≠ []
  hex : ∀ c ∈ digits, isHexDigit c = true

def weight (c : UInt8) : Nat := (digitValue c).getD 0

def HexNumber.value (n : HexNumber) : Nat := digitsValue 16 n.digits

variable {c : UInt8}

theorem hexDigit_facts (hex : isHexDigit c = true) :
    isXDigit c = true ∧ weight c < 16 ∧ c ≠ 0x2d ∧ (weight c = 0 ↔ c = 0x30) := by
  revert hex
  refine forall_byte (P := fun c => isHexDigit c = true →
    isXDigit c = true ∧ weight c < 16 ∧ c ≠ 0x2d ∧ (weight c = 0 ↔ c = 0x30)) ?_ c
  decide +kernel

theorem weight_toNat (hex : isHexDigit c = true) :
    (c.toNat ≤ 57 ∧ weight c + 48 = c.toNat) ∨ (65 ≤ c.toNat ∧ weight c + 55 = c.toNat) := by
  revert hex
  refine forall_byte (P := fun c => isHexDigit c = true →
    (c.toNat ≤ 57 ∧ weight c + 48 = c.toNat) ∨ (65 ≤ c.toNat ∧ weight c + 55 = c.toNat)) ?_ c
  decide +kernel

/-- How `strncmp` orders two characters -/
def byteOrder (c d : UInt8) : Ordering := if c < d then .lt else if d < c then .gt else .eq

theorem byteOrder_eq {d : UInt8} (hc : isHexDigit c = true) (hd : isHexDigit d = true) :
    byteOrder c d = compare (weight c) (weight d) := by
  have order : ∀ {c d : UInt8}, isHexDigit c = true → isHexDigit d = true →
      (c < d ↔ weight c < weight d) := by
    intro c d hc hd
    rw [UInt8.lt_iff_toNat_lt]
    have wc := weight_toNat hc
    have wd := weight_toNat hd
    have bc := (hexDigit_facts hc).2.1
    have bd := (hexDigit_facts hd).2.1
    omega
  unfold byteOrder
  simp only [order hc hd, order hd hc]
  rcases lt_trichotomy (weight c) (weight d) with less | equal | greater
  · rw [if_pos less, compare_lt_iff_lt.mpr less]
  · rw [equal, if_neg (Nat.lt_irrefl _), if_neg (Nat.lt_irrefl _), compare_eq_iff_eq.mpr rfl]
  · rw [if_neg (Nat.lt_asymm greater), if_pos greater, compare_gt_iff_gt.mpr greater]

variable {s : Bytes}

theorem strncmp_eq_compareLex {t : Bytes} (same : s.length = t.length) :
    strncmp s.length s t = List.compareLex byteOrder s t := by
  induction s generalizing t with
  | nil =>
    cases length_eq_zero_iff.mp same.symm
    rw [List.compareLex_nil_nil]
    rfl
  | cons c s ih =>
    cases t with
    | nil => cases same
    | cons d t =>
      rw [List.length_cons, strncmp, ih (Nat.succ.inj same), List.compareLex_cons_cons]
      unfold byteOrder
      split
      · rfl
      · split
        · rfl
        · rfl

/-! ## Numbers without leading zeros -/

theorem stripZeros_sublist (s : Bytes) : (stripZeros s).Sublist s := by
  induction s with
  | nil => exact .slnil
  | cons c s ih =>
    cases s with
    | nil => exact .refl _
    | cons d s =>
      rw [stripZeros]
      split
      · exact ih.cons c
      · exact .refl _

/-- Digits without leading zeros -/
structure Stripped (s : Bytes) : Prop where
  hex : ∀ c ∈ s, isHexDigit c = true
  canonical : Numeral.Canonical weight s

theorem stripped_stripZeros (nonempty : s ≠ []) (hex : ∀ c ∈ s, isHexDigit c = true) : Stripped
    (stripZeros s) := by
  refine ⟨fun c mem => hex c ((stripZeros_sublist s).subset mem), ?_⟩
  induction s with
  | nil => exact absurd rfl nonempty
  | cons c s ih =>
    cases s with
    | nil => trivial
    | cons d s =>
      rw [stripZeros]
      split
      · exact ih (cons_ne_nil _ _) fun c mem => hex c (mem_cons_of_mem _ mem)
      · next nonzero =>
          exact fun zero =>
            nonzero ((hexDigit_facts (hex c mem_cons_self)).2.2.2.mp zero)

theorem value_stripZeros (s : Bytes) :
    Numeral.value weight 16 (stripZeros s) = Numeral.value weight 16 s := by
  induction s with
  | nil => rfl
  | cons c s ih =>
    cases s with
    | nil => rfl
    | cons d s =>
      rw [stripZeros]
      split
      · next zero =>
          have none : weight c = 0 := by
            rw [zero]
            decide
          rw [ih, Numeral.value_cons c, none, Nat.zero_mul, Nat.zero_add]
      · rfl

theorem inOrder_iff (order : Ordering → Bool) {t : Bytes} (hs : Stripped s) (ht : Stripped t) :
    inOrder order s t =
      order (compare (Numeral.value weight 16 s) (Numeral.value weight 16 t)) := by
  have byDigits : compare (Numeral.value weight 16 s) (Numeral.value weight 16 t) =
      (compare s.length t.length).then (List.compareLex byteOrder s t) :=
    Numeral.compare_value (fun c d hc hd => byteOrder_eq hc hd)
      (fun c hex => (hexDigit_facts hex).2.1) hs.hex ht.hex hs.canonical ht.canonical
  rw [byDigits]
  unfold inOrder
  congr 1
  by_cases same : s.length = t.length
  · rw [strncmp_eq_compareLex same]
  · have notEq : compare s.length t.length ≠ .eq := fun h => same (compare_eq_iff_eq.mp h)
    cases eq : compare s.length t.length with
    | lt => rfl
    | eq => exact absurd eq notEq
    | gt => rfl

theorem strncmp_eq_iff (n : Nat) (s t : Bytes) : strncmp n s t = .eq ↔ s.take n = t.take n := by
  induction n generalizing s t with
  | zero => simp [strncmp]
  | succ n ih =>
    cases s with
    | nil =>
      cases t with
      | nil => simp [strncmp]
      | cons d t => simp [strncmp]
    | cons c s =>
      cases t with
      | nil => simp [strncmp]
      | cons d t =>
        rw [strncmp, take_succ_cons, take_succ_cons, List.cons.injEq, ← ih]
        by_cases less : c < d
        · rw [if_pos less]
          exact ⟨nofun, fun h => absurd h.1 (UInt8.ne_of_lt less)⟩
        · by_cases greater : d < c
          · rw [if_neg less, if_pos greater]
            exact ⟨nofun, fun h => absurd h.1.symm (UInt8.ne_of_lt greater)⟩
          · rw [if_neg less, if_neg greater]
            have same : c = d :=
              UInt8.le_antisymm (UInt8.not_lt.mp greater) (UInt8.not_lt.mp less)
            exact ⟨fun h => ⟨same, h⟩, fun h => h.2⟩

theorem sameText_iff (s t : Bytes) :
    (decide (s.length = t.length) && (strncmp s.length t s).isEq) = true ↔ s = t := by
  rw [Bool.and_eq_true, decide_eq_true_iff, Ordering.isEq_iff_eq_eq, strncmp_eq_iff]
  constructor
  · rintro ⟨same, prefixes⟩
    rw [take_length, same, take_length] at prefixes
    exact prefixes.symm
  · rintro rfl
    exact ⟨rfl, rfl⟩

/-! ## Searching a character -/

theorem strchrP_of_notMem {p : Bytes} (stop : Bytes) (none : c ∉ p) :
    strchrP p stop c = .none := by
  unfold strchrP
  have all : p.dropWhile (· ≠ c) = [] := by
    rw [dropWhile_eq_nil_iff]
    intro d mem
    have other : d ≠ c := fun same => none (same ▸ mem)
    exact decide_eq_true other
  dsimp only
  rw [all, if_neg (by simp)]

theorem strchrP_append {front back stop : Bytes} (none : c ∉ front) :
    strchrP (front ++ c :: back) stop c =
      if stop.length < back.length + 1 then some (c :: back) else .none := by
  unfold strchrP
  have found : (front ++ c :: back).dropWhile (· ≠ c) = c :: back := by
    have others : ∀ d ∈ front, decide (d ≠ c) = true := by
      intro d mem
      have other : d ≠ c := fun same => none (same ▸ mem)
      exact decide_eq_true other
    rw [dropWhile_append_of_pos others, dropWhile_cons_of_neg (by simp)]
  dsimp only
  rw [found, length_cons]

theorem strchrP_found {front back : Bytes} (none : c ∉ front) :
    strchrP (front ++ c :: back) [] c = some (c :: back) := by
  rw [strchrP_append none, if_pos (by simp)]

/-! ## The comparison of numbers -/

namespace HexNumber

variable (n : HexNumber)

theorem stripped : Stripped (stripZeros n.digits) := stripped_stripZeros n.nonempty n.hex

theorem value_eq : Numeral.value weight 16 (stripZeros n.digits) = n.value :=
  value_stripZeros n.digits

theorem startsHex : startsHex n.digits = true := by
  obtain ⟨digits, nonempty, hex⟩ := n
  cases digits with
  | nil => exact absurd rfl nonempty
  | cons c s => exact (hexDigit_facts (hex c mem_cons_self)).1

theorem matchPlain_eq (text : Bytes) :
    matchPlain n.digits text = matchNumber (stripZeros n.digits) text := by
  unfold matchPlain comparedValue
  rw [if_pos n.startsHex, if_pos n.startsHex]

theorem inOrder_eq (order : Ordering → Bool) (m : HexNumber) :
    inOrder order (stripZeros n.digits) (stripZeros m.digits) =
      order (compare n.value m.value) := by
  rw [inOrder_iff order n.stripped m.stripped, n.value_eq, m.value_eq]

/-- `>N` -/
theorem match_above (m : HexNumber) :
    matchPlain n.digits (0x3e :: m.digits) = true ↔ m.value < n.value := by
  rw [matchPlain_eq, matchNumber]
  dsimp only
  rw [if_pos rfl, inOrder_eq, Ordering.isGT_iff_eq_gt, compare_gt_iff_gt]

/-- `<N` -/
theorem match_below (m : HexNumber) :
    matchPlain n.digits (0x3c :: m.digits) = true ↔ n.value < m.value := by
  rw [matchPlain_eq, matchNumber]
  dsimp only
  rw [if_neg (by decide), if_pos rfl, inOrder_eq, Ordering.isLT_iff_eq_lt, compare_lt_iff_lt]

theorem notMem_dash {s : Bytes} (hex : ∀ c ∈ s, isHexDigit c = true) : 0x2d ∉ s := fun mem =>
  (hexDigit_facts (hex _ mem)).2.2.1 rfl

/-- The first digit is neither `>` nor `<`. -/
theorem matchNumber_digits (value rest : Bytes) {c : UInt8} (hex : isHexDigit c = true) :
    matchNumber value (c :: rest) =
      match strchrP (stripZeros (c :: rest)) [] 0x2d with
      | some q1 =>
        let p := stripZeros (c :: rest)
        let low := if q1.length = p.length then [0x30] else p.take (p.length - q1.length)
        inOrder Ordering.isGE value low && inOrder Ordering.isLE value (stripZeros q1.tail)
      | none =>
        decide (value.length = (stripZeros (c :: rest)).length) &&
          (strncmp value.length (stripZeros (c :: rest)) value).isEq := by
  have plain : c ≠ 0x3e ∧ c ≠ 0x3c := by
    refine ⟨fun same => ?_, fun same => ?_⟩ <;>
    · rw [same] at hex
      exact absurd hex (by decide)
  unfold matchNumber
  dsimp only
  exact (if_neg plain.1).trans ((if_neg plain.2).trans (if_pos (hexDigit_facts hex).1))

theorem match_number (m : HexNumber) :
    matchPlain n.digits m.digits = true ↔ n.value = m.value := by
  obtain ⟨c, s, eq⟩ := exists_cons_of_ne_nil m.nonempty
  have hex : isHexDigit c = true := m.hex c (by rw [eq]; exact mem_cons_self)
  rw [matchPlain_eq, eq, matchNumber_digits _ _ hex, ← eq,
    strchrP_of_notMem _ (notMem_dash m.stripped.hex), sameText_iff]
  constructor
  · intro same
    rw [← n.value_eq, ← m.value_eq, same]
  · intro same
    have equal := n.inOrder_eq Ordering.isEq m
    rw [compare_eq_iff_eq.mpr same] at equal
    obtain ⟨lengths, texts⟩ := Ordering.then_eq_eq.mp (Ordering.isEq_iff_eq_eq.mp equal)
    rw [compare_eq_iff_eq] at lengths
    rw [strncmp_eq_iff, take_length, lengths, take_length] at texts
    exact texts

/-- The zeros before a range are those of its first number, or all of it but the last. -/
theorem stripZeros_range {low : Bytes} (high : Bytes) (nonempty : low ≠ [])
    (hex : ∀ c ∈ low, isHexDigit c = true) :
    (stripZeros (low ++ 0x2d :: high) = 0x2d :: high ∧ stripZeros low = [0x30]) ∨
      (stripZeros (low ++ 0x2d :: high) = stripZeros low ++ 0x2d :: high) := by
  induction low with
  | nil => exact absurd rfl nonempty
  | cons c low ih =>
    cases low with
    | nil =>
      by_cases zero : c = 0x30
      · left
        rw [zero]
        refine ⟨?_, rfl⟩
        cases high with
        | nil => rfl
        | cons d high => rfl
      · right
        show stripZeros (c :: 0x2d :: high) = c :: 0x2d :: high
        rw [stripZeros, if_neg zero]
    | cons d low =>
      have rest := ih (cons_ne_nil _ _) fun c mem => hex c (mem_cons_of_mem _ mem)
      show (stripZeros (c :: d :: (low ++ 0x2d :: high)) = _ ∧ _) ∨
        stripZeros (c :: d :: (low ++ 0x2d :: high)) = _
      rw [stripZeros, stripZeros]
      by_cases zero : c = 0x30
      · rw [if_pos zero, if_pos zero]
        exact rest
      · rw [if_neg zero, if_neg zero]
        exact .inr rfl

/-- `N-M` -/
theorem match_between (low high : HexNumber) :
    matchPlain n.digits (low.digits ++ 0x2d :: high.digits) = true ↔
      low.value ≤ n.value ∧ n.value ≤ high.value := by
  obtain ⟨c, s, eq⟩ := exists_cons_of_ne_nil low.nonempty
  have hex : isHexDigit c = true := low.hex c (by rw [eq]; exact mem_cons_self)
  rw [matchPlain_eq, eq, cons_append, matchNumber_digits _ _ hex, ← cons_append, ← eq]
  have bounds : (inOrder Ordering.isGE (stripZeros n.digits) (stripZeros low.digits) &&
      inOrder Ordering.isLE (stripZeros n.digits) (stripZeros high.digits)) = true ↔
      low.value ≤ n.value ∧ n.value ≤ high.value := by
    rw [inOrder_eq, inOrder_eq, Bool.and_eq_true, Ordering.isGE_iff_ne_lt,
      Ordering.isLE_iff_ne_gt, compare_lt_iff_lt, compare_gt_iff_gt, Nat.not_lt, Nat.not_lt]
  rcases stripZeros_range high.digits low.nonempty low.hex with ⟨all, zero⟩ | some
  · -- the first number is zero, and the search starts at the hyphen
    have found : strchrP ([] ++ 0x2d :: high.digits) [] 0x2d = .some (0x2d :: high.digits) :=
      strchrP_found not_mem_nil
    rw [nil_append] at found
    rw [all, found]
    dsimp only
    rw [if_pos rfl, ← zero]
    exact bounds
  · have found : strchrP (stripZeros low.digits ++ 0x2d :: high.digits) [] 0x2d =
        .some (0x2d :: high.digits) :=
      strchrP_found (notMem_dash low.stripped.hex)
    have before : (stripZeros low.digits ++ 0x2d :: high.digits).length -
        (0x2d :: high.digits).length = (stripZeros low.digits).length := by
      rw [length_append, Nat.add_sub_cancel]
    have positive : stripZeros low.digits ≠ [] := by
      intro empty
      have canonical := low.stripped.canonical
      rw [empty] at canonical
      exact canonical
    rw [some, found]
    dsimp only
    rw [if_neg, before, take_left]
    · exact bounds
    · intro same
      rw [length_append] at same
      have := length_pos_iff.mpr positive
      omega

end HexNumber

end Nmap.OsScan
