import Nmap.Dns.ReverseOctets
import Nmap.Dns.RoundTrip
import Mathlib.Data.List.DropRight
import Mathlib.Algebra.Order.BigOperators.Group.List

/-!
# Reading nibbles from the end (`massdns.cc`)

The loop of `ptrToIp` for IPv6 reads up to 32 digits wherever the dots are, and takes some
characters for digits that are none. `ptrToIp_iff` says which texts are read as they should be,
for both families.
-/

namespace Nmap.Dns

open Nmap.Base

set_option maxRecDepth 4000

/-! ## Nibbles -/

def digitsOf (t : Bytes) : Bytes := t.filter (· ≠ dot)

/-- A character that the loop gets over -/
def NibbleTurn (c : UInt8) (t : Bytes) : Prop :=
  (digitsOf t).length < 32 ∧ if c = dot then t.head? ≠ some dot else (nibble c).isSome = true

/-- The nibble that is read as this one -/
def nibbleAt (t : Bytes) (k : Nat) : UInt8 := ((digitsOf t).reverse[k]?.bind nibble).getD 0

/-- What the loop has in the address behind this text -/
def nibbles (t : Bytes) : Vector UInt8 16 :=
  Vector.ofFn fun j => nibbleAt t (2 * j) <<< 4 + nibbleAt t (2 * j + 1)

/-- The loop comes to a character that it does not take for a digit, or to a second dot. -/
def RefusedNibbles (w : Bytes) : Prop :=
  ∃ u b t, w = u ++ b :: t ∧ Readable NibbleTurn t ∧ (digitsOf t).length < 32 ∧
    nibble b = none ∧ (b = dot → t.head? = some dot)

/-- 32 labels of hexadecimal digits, and the last 32 digits are the values of the labels -/
def GoodNibbles (w : Bytes) : Prop :=
  (w.splitOn dot).length = 32 ∧
    (∀ l ∈ w.splitOn dot, l ≠ [] ∧ ∀ c ∈ l, isDigitOf 16 c = true) ∧
    (w.splitOn dot).map (digitsValue 16) =
      ((digitsOf w).rtake 32).map fun c => digitsValue 16 [c]

theorem digitsOf_dot (t : Bytes) : digitsOf (dot :: t) = digitsOf t :=
  List.filter_cons_of_neg (by simp)

variable {c : UInt8}

theorem digitsOf_char (plain : c ≠ dot) (t : Bytes) :
    digitsOf (c :: t) = c :: digitsOf t := List.filter_cons_of_pos (by simp [plain])

theorem nibbleAt_dot (t : Bytes) (k : Nat) : nibbleAt (dot :: t) k = nibbleAt t k := by
  unfold nibbleAt
  rw [digitsOf_dot]

variable {n : UInt8}

theorem nibbleAt_char (plain : c ≠ dot) (value : nibble c = some n) (t : Bytes) (k : Nat) :
    nibbleAt (c :: t) k = if k = (digitsOf t).length then n else nibbleAt t k := by
  unfold nibbleAt
  rw [digitsOf_char plain, List.reverse_cons]
  split
  · next last =>
      rw [last, ← List.length_reverse, List.getElem?_concat_length]
      show (nibble c).getD 0 = n
      rw [value]
      rfl
  · next other =>
      by_cases here : k < (digitsOf t).reverse.length
      · rw [List.getElem?_append_left here]
      · rw [List.getElem?_eq_none (Nat.le_of_not_lt here), List.getElem?_eq_none]
        rw [List.length_reverse] at here
        rw [List.length_append, List.length_reverse, List.length_singleton]
        omega

variable {t : Bytes}

theorem nibbleAt_behind {k : Nat} (behind : (digitsOf t).length ≤ k) :
    nibbleAt t k = 0 := by
  unfold nibbleAt
  rw [List.getElem?_eq_none (by rwa [List.length_reverse])]
  rfl

theorem nibbles_get (t : Bytes) (j : Nat) (bound : j < 16) :
    (nibbles t)[j] = nibbleAt t (2 * j) <<< 4 + nibbleAt t (2 * j + 1) :=
  Vector.getElem_ofFn bound

theorem nibbles_dot (t : Bytes) : nibbles (dot :: t) = nibbles t := by
  ext j bound
  rw [nibbles_get, nibbles_get, nibbleAt_dot, nibbleAt_dot]

theorem nibbles_high {i : Nat} (plain : c ≠ dot) (value : nibble c = some n)
    (count : (digitsOf t).length = 2 * i) (room : i < 16) :
    (nibbles t).set i ((nibbles t)[i] + n <<< 4) = nibbles (c :: t) := by
  ext j bound
  rw [Vector.getElem_set, nibbles_get, nibbles_get, nibbles_get, nibbleAt_char plain value,
    nibbleAt_char plain value, count]
  by_cases same : i = j
  · rw [if_pos same, ← same, if_pos rfl, if_neg (by omega), nibbleAt_behind (by omega),
      nibbleAt_behind (by omega)]
    simp
  · rw [if_neg same, if_neg (by omega), if_neg (by omega)]

theorem nibbles_low {i : Nat} (plain : c ≠ dot) (value : nibble c = some n)
    (count : (digitsOf t).length = 2 * i + 1) (room : i < 16) :
    (nibbles t).set i ((nibbles t)[i] + n) = nibbles (c :: t) := by
  ext j bound
  rw [Vector.getElem_set, nibbles_get, nibbles_get, nibbles_get, nibbleAt_char plain value,
    nibbleAt_char plain value, count]
  by_cases same : i = j
  · have behind : nibbleAt t (2 * i + 1) = 0 := nibbleAt_behind (by omega)
    rw [if_pos same, ← same, if_pos rfl, if_neg (by omega), behind, UInt8.add_zero]
  · rw [if_neg same, if_neg (by omega), if_neg (by omega)]

/-! ## The loop for IPv6 -/

theorem nibble_dot : nibble dot = none := by decide

theorem going {dotRead : Bool} {n : Nat} (few : n < 32) :
    (!dotRead && decide (n / 2 ≥ 16)) = false := by
  have small : ¬ n / 2 ≥ 16 := by omega
  simp [small]

/-- After a text that can be read, the variables of the loop tell its digits. -/
theorem readNibbles_run (suffix : Bytes) : ∀ (t u : Bytes), Readable NibbleTurn t →
    readNibbles (u ++ t ++ suffix) false (u ++ t).length 0 false (Vector.replicate 16 0) =
      readNibbles (u ++ t ++ suffix) (t.head? = some dot) u.length ((digitsOf t).length / 2)
        ((digitsOf t).length % 2 = 1) (nibbles t)
  | [], u, _ => by
    have start : nibbles [] = Vector.replicate 16 0 := by decide
    rw [List.append_nil, start]
    rfl
  | c :: t, u, readable => by
    obtain ⟨turn, behind⟩ := readable
    have run := readNibbles_run suffix t (u ++ [c]) behind
    have whole : u ++ [c] ++ t = u ++ c :: t := by simp
    rw [whole, length_next] at run
    obtain ⟨few, next⟩ := turn
    rw [run, readNibbles, next_char, going few, if_neg Bool.false_ne_true]
    by_cases isDot : c = dot
    · rw [if_pos isDot] at next
      rw [isDot, nibbles_dot, digitsOf_dot]
      simp [next]
    · rw [if_neg isDot] at next
      obtain ⟨n, value⟩ := Option.isSome_iff_exists.mp next
      rw [digitsOf_char isDot, List.length_cons]
      have room : (digitsOf t).length / 2 < 16 := by omega
      rcases Nat.mod_two_eq_zero_or_one (digitsOf t).length with even | odd
      · have count : (digitsOf t).length = 2 * ((digitsOf t).length / 2) := by omega
        have half : ((digitsOf t).length + 1) / 2 = (digitsOf t).length / 2 := by omega
        have alt : ((digitsOf t).length + 1) % 2 = 1 := by omega
        rw [← nibbles_high isDot value count room, half]
        simp [isDot, value, room, even, alt]
      · have count : (digitsOf t).length = 2 * ((digitsOf t).length / 2) + 1 := by omega
        have half : ((digitsOf t).length + 1) / 2 = (digitsOf t).length / 2 + 1 := by omega
        have alt : ((digitsOf t).length + 1) % 2 = 0 := by omega
        rw [← nibbles_low isDot value count room, half]
        simp [isDot, value, room, odd, alt]

variable {w : Bytes}

theorem readNibbles_refused (refused : RefusedNibbles w) (suffix : Bytes) :
    readNibbles (w ++ suffix) false w.length 0 false (Vector.replicate 16 0) = .ok none := by
  obtain ⟨u, b, t, rfl, readable, few, other, behind⟩ := refused
  have run := readNibbles_run suffix t (u ++ [b]) readable
  have whole : u ++ [b] ++ t = u ++ b :: t := by simp
  rw [whole, length_next] at run
  rw [run, readNibbles, next_char, going few, if_neg Bool.false_ne_true]
  by_cases dotRead : t.head? = some dot
  · simp [dotRead, other]
  · have plain : b ≠ dot := fun isDot => dotRead (behind isDot)
    simp [dotRead, plain, other]

/-- The end of a text that the loop reads: it is all of it, or it has 32 digits. -/
def ReadNibbles (w t : Bytes) : Prop :=
  ∃ u, w = u ++ t ∧ Readable NibbleTurn t ∧ (u = [] ∨ (digitsOf t).length = 32)

theorem readable_digits (readable : Readable NibbleTurn t) :
    (digitsOf t).length ≤ 32 := by
  cases t with
  | nil => exact Nat.zero_le _
  | cons c t =>
    have few := readable.1.1
    by_cases isDot : c = dot
    · rw [isDot, digitsOf_dot]
      exact Nat.le_of_lt few
    · rw [digitsOf_char isDot, List.length_cons]
      exact few

/-- What the loop for IPv6 comes to -/
theorem readNibbles_cases (w suffix : Bytes) :
    (∃ t, ReadNibbles w t ∧
      readNibbles (w ++ suffix) false w.length 0 false (Vector.replicate 16 0) =
        .ok (some (nibbles t))) ∨
      (RefusedNibbles w ∧
        readNibbles (w ++ suffix) false w.length 0 false (Vector.replicate 16 0) = .ok none) := by
  rcases readable_front NibbleTurn w with all | ⟨u, b, t, rfl, readable, stuck⟩
  · left
    refine ⟨w, ⟨[], rfl, all, .inl rfl⟩, ?_⟩
    have run := readNibbles_run suffix w [] all
    rw [List.nil_append] at run
    rw [run]
    rfl
  by_cases few : (digitsOf t).length < 32
  · right
    have refused : RefusedNibbles (u ++ b :: t) := by
      unfold NibbleTurn at stuck
      refine ⟨u, b, t, rfl, readable, few, ?_, ?_⟩
      · by_cases isDot : b = dot
        · rw [isDot]
          exact nibble_dot
        · rw [if_neg isDot] at stuck
          cases value : nibble b with
          | none => rfl
          | some n => exact absurd ⟨few, by rw [value]; rfl⟩ stuck
      · intro isDot
        rw [if_pos isDot] at stuck
        by_contra single
        exact stuck ⟨few, single⟩
    exact ⟨refused, readNibbles_refused refused suffix⟩
  · left
    have full : (digitsOf t).length = 32 :=
      Nat.le_antisymm (readable_digits readable) (Nat.le_of_not_lt few)
    refine ⟨t, ⟨u ++ [b], by simp, readable, .inr full⟩, ?_⟩
    have run := readNibbles_run suffix t (u ++ [b]) readable
    have whole : u ++ [b] ++ t = u ++ b :: t := by simp
    rw [whole, length_next] at run
    -- A dot would have been read while there were fewer digits.
    have noDot : t.head? ≠ some dot := by
      cases t with
      | nil => exact fun none => by cases none
      | cons c t =>
        intro isDot
        have same : c = dot := Option.some.inj isDot
        rw [same, digitsOf_dot] at few
        exact few readable.1.1
    rw [run, readNibbles, full]
    simp [noDot]

/-! ## Good nibbles -/

theorem digitsOf_append (u t : Bytes) : digitsOf (u ++ t) = digitsOf u ++ digitsOf t :=
  List.filter_append u t

theorem digitsOf_flatten (w : Bytes) : (w.splitOn dot).flatten = digitsOf w := by
  induction w with
  | nil => rfl
  | cons c w ih =>
    obtain ⟨l, rest, parts, -⟩ := splitOn_open w
    rw [parts] at ih
    by_cases isDot : c = dot
    · rw [isDot, splitOn_dot, digitsOf_dot, ← ih, parts]
      rfl
    · rw [splitOn_char isDot parts, digitsOf_char isDot, ← ih]
      rfl

theorem digitsOf_count (full : ∀ l ∈ w.splitOn dot, l ≠ []) :
    (w.splitOn dot).length ≤ (digitsOf w).length := by
  rw [← digitsOf_flatten, List.length_flatten]
  have one : ∀ n ∈ (w.splitOn dot).map List.length, 1 ≤ n := by
    intro n mem
    obtain ⟨l, here, rfl⟩ := List.mem_map.mp mem
    exact List.length_pos_iff.mpr (full l here)
  have sum := List.length_le_sum_of_one_le _ one
  rwa [List.length_map] at sum

/-- What is read of each byte as a digit, and what is written of it as two -/
theorem hex_each : ∀ c : UInt8,
    (isDigitOf 16 c = true → (nibble c).map UInt8.toNat = some (digitsValue 16 [c]) ∧
      digitsValue 16 [c] < 16) ∧
    digitsValue 16 [hex (c &&& 0xf)] = c.toNat % 16 ∧
    digitsValue 16 [hex ((c >>> 4) &&& 0xf)] = c.toNat / 16 ∧
    isDigitOf 16 (hex (c &&& 0xf)) = true ∧ isDigitOf 16 (hex ((c >>> 4) &&& 0xf)) = true :=
  forall_byte (by decide +kernel)

theorem nibble_hex (digit : isDigitOf 16 c = true) :
    ∃ n, nibble c = some n ∧ n.toNat = digitsValue 16 [c] ∧ n.toNat < 16 := by
  obtain ⟨value, small⟩ := (hex_each c).1 digit
  obtain ⟨n, here, eq⟩ := Option.map_eq_some_iff.mp value
  exact ⟨n, here, eq, eq ▸ small⟩

theorem range_pairs {α : Type} (f : Nat → α) (n : Nat) :
    (List.range n).flatMap (fun j => [f (2 * j), f (2 * j + 1)]) =
      (List.range (2 * n)).map f := by
  induction n with
  | zero => rfl
  | succ n ih =>
    rw [List.range_succ, List.flatMap_append, ih, Nat.mul_succ, List.range_succ,
      List.range_succ]
    simp

theorem byte_halves {high low : UInt8} (small : high.toNat < 16) (small' : low.toNat < 16) :
    (high <<< 4 + low).toNat / 16 = high.toNat ∧ (high <<< 4 + low).toNat % 16 = low.toNat := by
  have value : (high <<< 4 + low).toNat = high.toNat * 16 + low.toNat := by
    rw [UInt8.toNat_add, UInt8.toNat_shiftLeft]
    show (high.toNat <<< 4 % 256 + low.toNat) % 256 = _
    rw [Nat.shiftLeft_eq]
    omega
  omega

theorem nibbleAt_hex {k : Nat} (here : (digitsOf t).reverse[k]? = some c)
    (digit : isDigitOf 16 c = true) :
    (nibbleAt t k).toNat = digitsValue 16 [c] ∧ (nibbleAt t k).toNat < 16 := by
  obtain ⟨n, value, eq, small⟩ := nibble_hex digit
  have same : nibbleAt t k = n := by
    unfold nibbleAt
    rw [here]
    show (nibble c).getD 0 = n
    rw [value]
    rfl
  rw [same]
  exact ⟨eq, small⟩

theorem nibbles_list (t : Bytes) : (nibbles t).toList =
    (List.range 16).map fun j => nibbleAt t (2 * j) <<< 4 + nibbleAt t (2 * j + 1) := by
  refine List.ext_getElem (by simp) fun j _ bound => ?_
  rw [List.length_map, List.length_range] at bound
  rw [Vector.getElem_toList, nibbles_get t j bound, List.getElem_map, List.getElem_range]

theorem nibbles_halves (small : ∀ k < 32, (nibbleAt t k).toNat < 16) :
    (nibbles t).toList.flatMap (fun b => [b.toNat / 16, b.toNat % 16]) =
      (List.range 32).map fun k => (nibbleAt t k).toNat := by
  have pairs := range_pairs (fun k => (nibbleAt t k).toNat) 16
  rw [show 2 * 16 = 32 from rfl] at pairs
  rw [nibbles_list, List.flatMap_map, ← pairs]
  refine List.flatMap_congr fun j mem => ?_
  have bound := List.mem_range.mp mem
  have high := small (2 * j) (by omega)
  have low := small (2 * j + 1) (by omega)
  rw [(byte_halves high low).1, (byte_halves high low).2]

theorem nibbles_values (full : (digitsOf t).length = 32)
    (hex : ∀ c ∈ digitsOf t, isDigitOf 16 c = true) :
    (Address.inet6 (nibbles t)).values = (digitsOf t).map fun c => digitsValue 16 [c] := by
  have length : (digitsOf t).reverse.length = 32 := by rw [List.length_reverse, full]
  have at_k : ∀ k c, (digitsOf t).reverse[k]? = some c →
      (nibbleAt t k).toNat = digitsValue 16 [c] ∧ (nibbleAt t k).toNat < 16 := by
    intro k c here
    exact nibbleAt_hex here (hex c (List.mem_reverse.mp (List.mem_of_getElem? here)))
  have small : ∀ k < 32, (nibbleAt t k).toNat < 16 := by
    intro k bound
    exact (at_k k _ (List.getElem?_eq_getElem (length ▸ bound))).2
  have same : ((List.range 32).map fun k => (nibbleAt t k).toNat) =
      (digitsOf t).reverse.map fun c => digitsValue 16 [c] := by
    have count : ((List.range 32).map fun k => (nibbleAt t k).toNat).length =
        ((digitsOf t).reverse.map fun c => digitsValue 16 [c]).length := by
      rw [List.length_map, List.length_range, List.length_map, length]
    refine List.ext_getElem count fun k bound inside => ?_
    rw [List.length_map] at inside
    rw [List.getElem_map, List.getElem_range, List.getElem_map]
    exact (at_k k _ (List.getElem?_eq_getElem inside)).1
  unfold Address.values
  dsimp only
  rw [nibbles_halves small, same, List.map_reverse, List.reverse_reverse]

theorem ReadNibbles.full (read : ReadNibbles w t) (count : (w.splitOn dot).length = 32)
    (each : ∀ l ∈ w.splitOn dot, l ≠ [] ∧ ∀ c ∈ l, isDigitOf 16 c = true) :
    (digitsOf w).rtake 32 = digitsOf t ∧
      (Address.inet6 (nibbles t)).values = (digitsOf t).map fun c => digitsValue 16 [c] := by
  obtain ⟨u, rfl, readable, whole⟩ := read
  have many := digitsOf_count fun l mem => (each l mem).1
  rw [count] at many
  have all : (digitsOf t).length = 32 := by
    rcases whole with rfl | all
    · exact Nat.le_antisymm (readable_digits readable) many
    · exact all
  constructor
  · unfold List.rtake
    rw [digitsOf_append, List.length_append, all, Nat.add_sub_cancel, List.drop_left]
  · refine nibbles_values all fun c mem => ?_
    have here : c ∈ digitsOf (u ++ t) := by
      rw [digitsOf_append]
      exact List.mem_append_right _ mem
    rw [← digitsOf_flatten] at here
    obtain ⟨l, label, mem⟩ := List.mem_flatten.mp here
    exact (each l label).2 c mem

theorem values_length (addr : Vector UInt8 16) : (Address.inet6 addr).values.length = 32 := by
  unfold Address.values
  rw [List.length_reverse, List.length_flatMap]
  simp

/-- What is read of a text is the address of which it is a reverse name exactly when its labels
are good. -/
theorem nibbles_reverse_iff (read : ReadNibbles w t) :
    List.Forall₂ (Denotes 16) (w.splitOn dot) (Address.inet6 (nibbles t)).values ↔
      GoodNibbles w := by
  rw [forall₂_denotes]
  constructor
  · rintro ⟨each, values⟩
    have count := congrArg List.length values
    rw [List.length_map, values_length] at count
    obtain ⟨last, read_values⟩ := read.full count each
    refine ⟨count, each, ?_⟩
    rw [last, ← read_values, values]
  · rintro ⟨count, each, values⟩
    obtain ⟨last, read_values⟩ := read.full count each
    refine ⟨each, ?_⟩
    rw [read_values, ← last, values]

/-! ## What is written -/

/-- The labels of a byte, the low half first -/
def byteLabels (b : UInt8) : List Bytes := [[hex (b &&& 0xf)], [hex ((b >>> 4) &&& 0xf)]]

def addressLabels (addr : Vector UInt8 16) : List Bytes := addr.toList.reverse.flatMap byteLabels

theorem byteLabels_hex (b : UInt8) :
    (byteLabels b).map (digitsValue 16) = [b.toNat % 16, b.toNat / 16] ∧
      ∀ l ∈ byteLabels b, ∃ c, l = [c] ∧ isDigitOf 16 c = true := by
  obtain ⟨low, high, digit, digit'⟩ := (hex_each b).2
  refine ⟨?_, fun l mem => ?_⟩
  · show [digitsValue 16 [_], digitsValue 16 [_]] = _
    rw [low, high]
  · rcases List.mem_cons.mp mem with rfl | mem
    · exact ⟨_, rfl, digit⟩
    · rw [List.mem_singleton.mp mem]
      exact ⟨_, rfl, digit'⟩

theorem addressLabels_values (addr : Vector UInt8 16) :
    (addressLabels addr).map (digitsValue 16) = (Address.inet6 addr).values := by
  show _ = (addr.toList.flatMap fun b => [b.toNat / 16, b.toNat % 16]).reverse
  unfold addressLabels
  rw [List.map_flatMap, List.reverse_flatMap]
  refine List.flatMap_congr fun b _ => ?_
  rw [(byteLabels_hex b).1]
  rfl

theorem addressLabels_single {addr : Vector UInt8 16} {l : Bytes} (mem : l ∈ addressLabels addr) :
    ∃ c, l = [c] ∧ isDigitOf 16 c = true := by
  obtain ⟨b, -, here⟩ := List.mem_flatMap.mp mem
  exact (byteLabels_hex b).2 l here

theorem values_inj {addr addr' : Vector UInt8 16}
    (same : (Address.inet6 addr).values = (Address.inet6 addr').values) : addr = addr' := by
  have lists : ∀ l l' : Bytes, (l.flatMap fun b => [b.toNat / 16, b.toNat % 16]) =
      (l'.flatMap fun b => [b.toNat / 16, b.toNat % 16]) → l = l' := by
    intro l
    induction l with
    | nil =>
      intro l' eq
      cases l' with
      | nil => rfl
      | cons b l' => cases eq
    | cons b l ih =>
      intro l' eq
      cases l' with
      | nil => cases eq
      | cons b' l' =>
        rw [List.flatMap_cons, List.flatMap_cons] at eq
        obtain ⟨high, eq⟩ := List.cons.inj eq
        obtain ⟨low, eq⟩ := List.cons.inj eq
        have byte : b = b' := by
          apply UInt8.toNat.inj
          omega
        rw [byte, ih l' eq]
  exact Vector.toList_inj.mp (lists _ _ (List.reverse_inj.mp same))

theorem single_values : ∀ {labels : List Bytes},
    (∀ l ∈ labels, ∃ c, l = [c] ∧ isDigitOf 16 c = true) →
    labels.flatten.map (fun c => digitsValue 16 [c]) = labels.map (digitsValue 16)
  | [], _ => rfl
  | l :: labels, single => by
    obtain ⟨c, rfl, -⟩ := single l List.mem_cons_self
    have rest := single_values fun l mem => single l (List.mem_cons_of_mem _ mem)
    rw [List.flatten_cons, List.map_append, rest]
    rfl

/-- The name of an address is its labels and the domain, whose dot is behind the last label. -/
theorem ipToPtr_inet6 (addr : Vector UInt8 16) :
    ∃ w, ipToPtr (.inet6 addr) = w ++ ipv6PtrDomain ∧ w.splitOn dot = addressLabels addr := by
  have digits : addr.toList.reverse.flatMap hexLabels = dotted (addressLabels addr) := by
    unfold dotted addressLabels
    rw [List.flatMap_assoc]
    rfl
  have count : (addr.toList.reverse.flatMap hexLabels).length = 64 := by
    have four : ∀ b, (hexLabels b).length = 4 := fun _ => rfl
    rw [List.length_flatMap]
    simp [four]
  have tail : ipv6PtrExample.drop 64 = ascii "ip6.arpa" := by decide +kernel
  have domain : ipv6PtrDomain = dot :: ascii "ip6.arpa" := by decide
  have free : ∀ l ∈ addressLabels addr, dot ∉ l := by
    intro l mem here
    obtain ⟨c, rfl, digit⟩ := addressLabels_single mem
    rw [← List.mem_singleton.mp here] at digit
    exact absurd digit (by decide)
  show ∃ w, addr.toList.reverse.flatMap hexLabels ++
    ipv6PtrExample.drop (addr.toList.reverse.flatMap hexLabels).length = _ ∧ _
  rw [count, tail, digits]
  rcases List.eq_nil_or_concat (addressLabels addr) with none | ⟨ls, last, labels⟩
  · rw [digits, none] at count
    cases count
  · rw [List.concat_eq_append] at labels
    rw [labels] at free ⊢
    refine ⟨dotted ls ++ last, ?_, ?_⟩
    · rw [dotted_append_single, domain, List.append_assoc (dotted ls ++ last)]
      rfl
    · exact splitOn_dotted (fun l mem => free l (List.mem_append_left _ mem))
        (free last (by simp))

theorem goodNibbles_single (count : (w.splitOn dot).length = 32)
    (single : ∀ l ∈ w.splitOn dot, ∃ c, l = [c] ∧ isDigitOf 16 c = true) : GoodNibbles w := by
  refine ⟨count, fun l mem => ?_, ?_⟩
  · obtain ⟨c, rfl, digit⟩ := single l mem
    refine ⟨List.cons_ne_nil _ _, fun d here => ?_⟩
    rw [List.mem_singleton.mp here]
    exact digit
  · have values := single_values single
    have all := congrArg List.length values
    rw [List.length_map, List.length_map, count, digitsOf_flatten] at all
    unfold List.rtake
    rw [all, Nat.sub_self, List.drop_zero, ← values, digitsOf_flatten]

theorem GoodNibbles.not_refused (good : GoodNibbles w) : ¬ RefusedNibbles w := by
  rintro ⟨u, b, t, rfl, -, -, other, behind⟩
  by_cases isDot : b = dot
  · have empty : [] ∈ (u ++ b :: t).splitOn dot := by
      rw [isDot]
      exact empty_label (behind isDot)
    exact (good.2.1 [] empty).1 rfl
  · obtain ⟨l, rest, parts, -⟩ := splitOn_open t
    obtain ⟨front, x, eq⟩ := char_label (u := u) isDot parts
    have digit := (good.2.1 (x ++ b :: l) (by rw [eq]; simp)).2 b (by simp)
    obtain ⟨n, value, -⟩ := nibble_hex digit
    rw [other] at value
    cases value

/-! ## Both families -/

/-- The text is read without an access outside of it, of the table or of the address, and if it is
accepted, it is a reverse name of the address. -/
def Faithful (ptr : Bytes) : Prop :=
  ∃ r, ptrToIp ptr = .ok r ∧ ∀ a, r = some a → IsReverseName a ptr

/-- In front of a domain, a character is refused or the labels are good. -/
def WellRead (ptr : Bytes) : Prop :=
  ∀ w suffix, ptr = w ++ suffix →
    (suffix.map lower = ipv4PtrDomain → RefusedOctets w ∨ GoodOctets w) ∧
    (suffix.map lower = ipv6PtrDomain → RefusedNibbles w ∨ GoodNibbles w)

variable {suffix : Bytes}

theorem ptrToIp_ipv4 (same : suffix.map lower = ipv4PtrDomain) :
    ptrToIp (w ++ suffix) =
      (readOctets (w ++ suffix) false w.length 0 0 (Vector.replicate 4 0)).map
        (Option.map .inet) := by
  unfold ptrToIp
  rw [find_ipv4.mpr ⟨w, suffix, rfl, same, rfl⟩]

theorem ptrToIp_ipv6 (same : suffix.map lower = ipv6PtrDomain) :
    ptrToIp (w ++ suffix) =
      (readNibbles (w ++ suffix) false w.length 0 false (Vector.replicate 16 0)).map
        (Option.map .inet6) := by
  have other : findDomain ipv4PtrDomain (w ++ suffix) = none := by
    refine Option.eq_none_iff_forall_ne_some.mpr fun p found => ?_
    obtain ⟨w', suffix', eq, four, -⟩ := find_ipv4.mp found
    exact domains_apart eq.symm four same
  unfold ptrToIp
  rw [other, find_ipv6.mpr ⟨w, suffix, rfl, same, rfl⟩]

theorem faithful_ipv4 (same : suffix.map lower = ipv4PtrDomain) :
    Faithful (w ++ suffix) ↔ RefusedOctets w ∨ GoodOctets w := by
  have name : ∀ addr, IsReverseName (.inet addr) (w ++ suffix) ↔
      List.Forall₂ (Denotes 10) (w.splitOn dot) (Address.inet addr).values :=
    fun addr => isReverseName_iff same
  unfold Faithful
  rw [ptrToIp_ipv4 same]
  constructor
  · rintro ⟨r, result, accepted⟩
    rcases readOctets_cases w suffix with ⟨readable, run⟩ | ⟨refused, -⟩ | ⟨e, run⟩
    · rw [run] at result
      cases result
      exact .inr ((octets_reverse_iff readable).mp ((name _).mp (accepted _ rfl)))
    · exact .inl refused
    · rw [run] at result
      cases result
  · rintro (refused | good)
    · rw [readOctets_refused refused]
      exact ⟨none, rfl, fun a none => by cases none⟩
    · have readable := good.readable
      rw [readOctets_readable readable]
      refine ⟨some (.inet (octets w)), rfl, fun a same => ?_⟩
      cases same
      exact (name _).mpr ((octets_reverse_iff readable).mpr good)

theorem faithful_ipv6 (same : suffix.map lower = ipv6PtrDomain) :
    Faithful (w ++ suffix) ↔ RefusedNibbles w ∨ GoodNibbles w := by
  have name : ∀ addr, IsReverseName (.inet6 addr) (w ++ suffix) ↔
      List.Forall₂ (Denotes 16) (w.splitOn dot) (Address.inet6 addr).values :=
    fun addr => isReverseName_iff same
  unfold Faithful
  rw [ptrToIp_ipv6 same]
  rcases readNibbles_cases w suffix with ⟨t, read, run⟩ | ⟨refused, run⟩
  · rw [run]
    constructor
    · rintro ⟨r, result, accepted⟩
      cases result
      exact .inr ((nibbles_reverse_iff read).mp ((name _).mp (accepted _ rfl)))
    · rintro (refused | good)
      · rw [readNibbles_refused refused] at run
        cases run
      · refine ⟨some (.inet6 (nibbles t)), rfl, fun a same => ?_⟩
        cases same
        exact (name _).mpr ((nibbles_reverse_iff read).mpr good)
  · rw [run]
    exact iff_of_true ⟨none, rfl, fun a none => by cases none⟩ (.inl refused)

theorem ptrToIp_ipToPtr : ∀ a, ptrToIp (ipToPtr a) = .ok (some a)
  | .inet addr => by
    obtain ⟨w, eq, good, value⟩ := octets_written addr
    have plain : ipv4PtrDomain.map lower = ipv4PtrDomain := by decide
    rw [eq, ptrToIp_ipv4 plain, readOctets_readable good.readable, value]
    rfl
  | .inet6 addr => by
    obtain ⟨w, eq, labels⟩ := ipToPtr_inet6 addr
    have plain : ipv6PtrDomain.map lower = ipv6PtrDomain := by decide
    have values := addressLabels_values addr
    rw [← labels] at values
    have count := congrArg List.length values
    rw [List.length_map, values_length] at count
    have good : GoodNibbles w := by
      refine goodNibbles_single count fun l mem => ?_
      rw [labels] at mem
      exact addressLabels_single mem
    rcases readNibbles_cases w ipv6PtrDomain with ⟨t, read, run⟩ | ⟨refused, -⟩
    · have same := forall₂_denotes.mp ((nibbles_reverse_iff read).mpr good)
      rw [eq, ptrToIp_ipv6 plain, run, values_inj (same.2.symm.trans values)]
      rfl
    · exact absurd refused good.not_refused

/-- **Which reverse names are read as they should be.** The name of every address is read as the
address. A text is read inside its bounds, and accepted only as a reverse name, exactly when in
front of a domain the loop comes to a character that it refuses or the labels are good. -/
theorem ptrToIp_iff (a : Address) (ptr : Bytes) :
    ptrToIp (ipToPtr a) = .ok (some a) ∧ (Faithful ptr ↔ WellRead ptr) := by
  refine ⟨ptrToIp_ipToPtr a, ?_⟩
  constructor
  · rintro faithful w suffix rfl
    exact ⟨fun four => (faithful_ipv4 four).mp faithful, fun six => (faithful_ipv6 six).mp faithful⟩
  · intro well
    cases four : findDomain ipv4PtrDomain ptr with
    | some p =>
      obtain ⟨w, suffix, rfl, same, -⟩ := find_ipv4.mp four
      exact (faithful_ipv4 same).mpr ((well w suffix rfl).1 same)
    | none =>
      cases six : findDomain ipv6PtrDomain ptr with
      | some p =>
        obtain ⟨w, suffix, rfl, same, -⟩ := find_ipv6.mp six
        exact (faithful_ipv6 same).mpr ((well w suffix rfl).2 same)
      | none =>
        refine ⟨none, ?_, fun a none => by cases none⟩
        unfold ptrToIp
        rw [four, six]

/-- Four digits go behind the table, five labels behind the address, and one label is accepted. -/
theorem ptrToIp_strays :
    ptrToIp (ascii "1234.in-addr.arpa") = .error .placeValues ∧
      ptrToIp (ascii "1.2.3.4.5.in-addr.arpa") = .error .address ∧
      ptrToIp (ascii "1.in-addr.arpa") = .ok (some (.inet #v[1, 0, 0, 0])) ∧
      ¬ Faithful (ascii "1234.in-addr.arpa") := by
  have table : ptrToIp (ascii "1234.in-addr.arpa") = .error .placeValues := by rfl
  refine ⟨table, by rfl, by rfl, ?_⟩
  rintro ⟨r, result, -⟩
  rw [table] at result
  cases result

end Nmap.Dns
