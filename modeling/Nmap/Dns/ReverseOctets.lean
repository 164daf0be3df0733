import Nmap.Dns.ReverseName
import Mathlib.Data.List.Forall2
import Mathlib.Data.List.GetD
import Mathlib.Data.List.TakeWhile
import Mathlib.Tactic.Ring

/-!
# Reading octets from the end (`massdns.cc`)

What a reverse name is, and the loop of `ptrToIp` for IPv4. It comes through a text from its end,
and after every character its variables tell the labels behind it.
-/

namespace Nmap.Dns

open Nmap.Base

set_option maxRecDepth 4000

/-! ## Reverse names -/

/-- Digits that stand for a number, with any zeros in front -/
def Denotes (base : Nat) (l : Bytes) (n : Nat) : Prop :=
  l ≠ [] ∧ (∀ c ∈ l, isDigitOf base c = true) ∧ digitsValue base l = n

/-- The domain of the reverse names of a family -/
def Address.domain : Address → Bytes
  | .inet _ => ipv4PtrDomain
  | .inet6 _ => ipv6PtrDomain

def Address.base : Address → Nat
  | .inet _ => 10
  | .inet6 _ => 16

/-- What the labels stand for: the octets, or the two halves of each byte, the last one first -/
def Address.values : Address → List Nat
  | .inet addr => addr.toList.reverse.map UInt8.toNat
  | .inet6 addr => (addr.toList.flatMap fun b => [b.toNat / 16, b.toNat % 16]).reverse

/-- The text is a reverse name of the address: labels that denote its values, and the domain. -/
def IsReverseName (a : Address) (ptr : Bytes) : Prop :=
  ∃ w suffix, ptr = w ++ suffix ∧ suffix.map lower = a.domain ∧
    List.Forall₂ (Denotes a.base) (w.splitOn dot) a.values

theorem forall₂_denotes {base : Nat} {labels : List Bytes} {values : List Nat} :
    List.Forall₂ (Denotes base) labels values ↔
      (∀ l ∈ labels, l ≠ [] ∧ ∀ c ∈ l, isDigitOf base c = true) ∧
        labels.map (digitsValue base) = values := by
  have parts : Denotes base = fun l n =>
      (l ≠ [] ∧ ∀ c ∈ l, isDigitOf base c = true) ∧ digitsValue base l = n := by
    funext l n
    exact propext and_assoc.symm
  rw [parts, List.forall₂_and_left, ← List.forall₂_map_left_iff, List.forall₂_eq_eq_eq]

/-! ## Finding the domain -/

variable {suffix : Bytes}

theorem suffix_nonzero {domain : Bytes} (clean : 0 ∉ domain) (same : suffix.map lower = domain) :
    suffix.takeWhile (· ≠ 0) = suffix := by
  refine List.takeWhile_eq_self_iff.mpr fun c mem => decide_eq_true fun zero => clean ?_
  rw [← same, ← show lower 0 = 0 from by decide, ← zero]
  exact List.mem_map_of_mem mem

variable {ptr : Bytes} {p : Nat}

/-- The search begins where the domain has to begin. -/
theorem findDomain_some {domain : Bytes} (clean : 0 ∉ domain) (plain : domain.map lower = domain)
    (some_char : domain ≠ []) :
    findDomain domain ptr = some p ↔
      ∃ w suffix, ptr = w ++ suffix ∧ suffix.map lower = domain ∧ w.length = p := by
  unfold findDomain strcasestr
  rw [plain]
  constructor
  · intro found
    split at found
    · next long =>
        obtain ⟨k, search, rfl⟩ := Option.map_eq_some_iff.mp found
        have here := List.find?_some search
        rw [decide_eq_true_eq] at here
        have count := congrArg List.length here
        have whole : ((ptr.drop (ptr.length - domain.length)).takeWhile (· ≠ 0)).length ≤
            domain.length := by
          refine (List.takeWhile_prefix _).length_le.trans ?_
          rw [List.length_drop]
          omega
        have positive := List.length_pos_iff.mpr some_char
        rw [List.length_map, List.length_take, List.length_drop] at count
        -- Nothing can be in front of the domain, and the text has no zero byte.
        have first : k = 0 := by omega
        have all : (ptr.drop (ptr.length - domain.length)).takeWhile (· ≠ 0) =
            ptr.drop (ptr.length - domain.length) := by
          refine (List.takeWhile_prefix _).eq_of_length ?_
          rw [List.length_drop]
          omega
        refine ⟨ptr.take (ptr.length - domain.length), ptr.drop (ptr.length - domain.length),
          (List.take_append_drop _ _).symm, ?_, ?_⟩
        · rw [all, first, List.drop_zero, List.take_of_length_le] at here
          · exact here
          · rw [List.length_drop]
            omega
        · rw [List.length_take, first]
          omega
    · cases found
  · rintro ⟨w, suffix, rfl, same, rfl⟩
    have count : suffix.length = domain.length := by
      rw [← same, List.length_map]
    have start : (w ++ suffix).length - domain.length = w.length := by
      rw [List.length_append]
      omega
    rw [if_pos (by rw [List.length_append]; omega)]
    dsimp only
    rw [start, List.drop_left, suffix_nonzero clean same, List.range_succ_eq_map,
      List.find?_cons_of_pos]
    · rfl
    · rw [List.drop_zero, ← count, List.take_length, same]
      exact decide_eq_true rfl

theorem find_ipv4 : findDomain ipv4PtrDomain ptr = some p ↔
    ∃ w suffix, ptr = w ++ suffix ∧ suffix.map lower = ipv4PtrDomain ∧ w.length = p :=
  findDomain_some (by decide) (by decide) (by decide)

theorem find_ipv6 : findDomain ipv6PtrDomain ptr = some p ↔
    ∃ w suffix, ptr = w ++ suffix ∧ suffix.map lower = ipv6PtrDomain ∧ w.length = p :=
  findDomain_some (by decide) (by decide) (by decide)

variable {w : Bytes}

theorem domains_apart {w' suffix' : Bytes} (same : w ++ suffix = w' ++ suffix')
    (four : suffix.map lower = ipv4PtrDomain) (six : suffix'.map lower = ipv6PtrDomain) :
    False := by
  have long : suffix.length = 13 := by
    have count := congrArg List.length four
    rw [List.length_map] at count
    rw [count]
    rfl
  have short : suffix'.length = 9 := by
    have count := congrArg List.length six
    rw [List.length_map] at count
    rw [count]
    rfl
  have tail : suffix.drop 4 = suffix' := by
    have count := congrArg List.length same
    rw [List.length_append, List.length_append] at count
    have cut := congrArg (List.drop w'.length) same
    rw [List.drop_left, List.drop_append, List.drop_eq_nil_of_le (by omega), List.nil_append,
      show w'.length - w.length = 4 by omega] at cut
    exact cut
  have lowered := congrArg (List.map lower) tail
  rw [List.map_drop, four, six] at lowered
  exact absurd lowered (by decide)

/-! ## Reading from the end -/

/-- All characters can be read, each in front of what is behind it. -/
def Readable (turn : UInt8 → Bytes → Prop) : Bytes → Prop
  | [] => True
  | c :: t => turn c t ∧ Readable turn t

/-- What can be read of a text goes to its beginning, or there is a character in front of it that
cannot be read. -/
theorem readable_front (turn : UInt8 → Bytes → Prop) (w : Bytes) :
    Readable turn w ∨ ∃ u b t, w = u ++ b :: t ∧ Readable turn t ∧ ¬ turn b t := by
  induction w with
  | nil => exact .inl trivial
  | cons c w ih =>
    rcases ih with all | ⟨u, b, t, rfl, readable, stuck⟩
    · by_cases step : turn c w
      · exact .inl ⟨step, all⟩
      · exact .inr ⟨[], c, w, rfl, all, step⟩
    · exact .inr ⟨c :: u, b, t, rfl, readable, stuck⟩

theorem splitOn_open (t : Bytes) : ∃ l rest, t.splitOn dot = l :: rest ∧
    t.takeWhile (· ≠ dot) = l ∧ t.count dot = rest.length := by
  induction t with
  | nil => exact ⟨[], [], rfl, rfl, rfl⟩
  | cons c t ih =>
    obtain ⟨l, rest, parts, front, dots⟩ := ih
    rw [List.splitOn_cons_eq_if_modifyHead, parts]
    by_cases isDot : c = dot
    · refine ⟨[], l :: rest, by simp [isDot], by simp [isDot], ?_⟩
      rw [isDot, List.count_cons_self, dots, List.length_cons]
    · refine ⟨c :: l, rest, by simp [isDot], ?_, ?_⟩
      · rw [List.takeWhile_cons_of_pos (by simp [isDot]), front]
      · rw [List.count_cons_of_ne isDot, dots]

variable {t l : Bytes} {rest : List Bytes}

theorem splitOn_append (u : Bytes) (parts : t.splitOn dot = l :: rest) :
    ∃ front x, (u ++ t).splitOn dot = front ++ (x ++ l) :: rest := by
  induction u with
  | nil => exact ⟨[], [], parts⟩
  | cons c u ih =>
    obtain ⟨front, x, eq⟩ := ih
    rw [List.cons_append, List.splitOn_cons_eq_if_modifyHead, eq]
    by_cases isDot : c = dot
    · exact ⟨[] :: front, x, by simp [isDot]⟩
    · rcases front with _ | ⟨f, front⟩
      · exact ⟨[], c :: x, by simp [isDot]⟩
      · exact ⟨(c :: f) :: front, x, by simp [isDot]⟩

theorem splitOn_dot (t : Bytes) : (dot :: t).splitOn dot = [] :: t.splitOn dot := by
  rw [List.splitOn_cons_eq_if_modifyHead]
  simp

variable {c : UInt8}

theorem splitOn_char (plain : c ≠ dot) (parts : t.splitOn dot = l :: rest) : (c :: t).splitOn dot =
    (c :: l) :: rest := by
  rw [List.splitOn_cons_eq_if_modifyHead, parts]
  simp [plain]

variable {u : Bytes}

theorem empty_label (twice : t.head? = some dot) :
    [] ∈ (u ++ dot :: t).splitOn dot := by
  cases t with
  | nil => cases twice
  | cons c t =>
    obtain ⟨pre, x, eq⟩ := splitOn_append u (splitOn_dot (c :: t))
    rw [eq, show c = dot from Option.some.inj twice, splitOn_dot]
    simp

theorem char_label {b : UInt8} (plain : b ≠ dot) (parts : t.splitOn dot = l :: rest) :
    ∃ front x, (u ++ b :: t).splitOn dot = front ++ (x ++ b :: l) :: rest :=
  splitOn_append u (splitOn_char plain parts)

/-! ## Octets -/

/-- A digit that the loop adds to an octet: there is a place for it, and an octet. Dots do not
follow each other. -/
def OctetTurn (c : UInt8) (t : Bytes) : Prop :=
  if c = dot then t.head? ≠ some dot
  else isDigit c = true ∧ (t.takeWhile (· ≠ dot)).length < 3 ∧ t.count dot < 4

/-- What the loop has in the address behind this text -/
def octets (t : Bytes) : Vector UInt8 4 :=
  Vector.ofFn fun j => UInt8.ofNat (digitsValue 10 ((t.splitOn dot).reverse.getD j []))

/-- The loop comes to a character that is no digit, or to a second dot. -/
def RefusedOctets (w : Bytes) : Prop :=
  ∃ u b t, w = u ++ b :: t ∧ Readable OctetTurn t ∧ isDigit b = false ∧
    (b = dot → t.head? = some dot)

/-- Four labels of one to three digits that fit a byte -/
def GoodOctets (w : Bytes) : Prop :=
  (w.splitOn dot).length = 4 ∧ ∀ l ∈ w.splitOn dot,
    l ≠ [] ∧ l.length ≤ 3 ∧ (∀ c ∈ l, isDigit c = true) ∧ digitsValue 10 l ≤ 255

theorem count_lt_four (readable : Readable OctetTurn t) (other : t.head? ≠ some dot) :
    t.count dot < 4 := by
  cases t with
  | nil => exact Nat.zero_lt_succ 3
  | cons c t =>
    have plain : c ≠ dot := fun isDot => other (by rw [isDot]; rfl)
    have turn := readable.1
    unfold OctetTurn at turn
    rw [if_neg plain] at turn
    rw [List.count_cons_of_ne plain]
    exact turn.2.2

theorem digitsValue_cons (base : Nat) (c : UInt8) (l : Bytes) :
    digitsValue base (c :: l) = (digitValue c).getD 0 * base ^ l.length + digitsValue base l := by
  have start : ∀ (l : Bytes) (n : Nat),
      l.foldl (fun n c => n * base + (digitValue c).getD 0) n =
        n * base ^ l.length + digitsValue base l := by
    intro l
    induction l with
    | nil =>
      intro n
      simp [digitsValue]
    | cons d l ih =>
      intro n
      unfold digitsValue
      rw [List.foldl_cons, List.foldl_cons, ih, ih, List.length_cons]
      ring
  have whole := start l ((digitValue c).getD 0)
  rw [← whole]
  simp [digitsValue]

theorem digit_value (digit : isDigit c = true) :
    UInt8.ofNat ((digitValue c).getD 0) = c - 0x30 := by
  have low : 0x30 ≤ c.toNat := of_decide_eq_true (Bool.and_eq_true_iff.mp digit).1
  rw [digitValue_digit digit, Option.getD_some, UInt8.ofNat_sub low, UInt8.ofNat_toNat]
  rfl

theorem octet_cons {value : UInt8} (digit : isDigit c = true)
    (place : placeValues[l.length]? = some value) :
    UInt8.ofNat (digitsValue 10 (c :: l)) =
      UInt8.ofNat (digitsValue 10 l) + (c - 0x30) * value := by
  have power : UInt8.ofNat (10 ^ l.length) = value := by
    generalize l.length = n at place ⊢
    rcases n with _ | _ | _ | n
    · exact Option.some.inj place
    · exact Option.some.inj place
    · exact Option.some.inj place
    · cases place
  rw [digitsValue_cons, UInt8.ofNat_add, UInt8.ofNat_mul, digit_value digit, power,
    UInt8.add_comm]

theorem octets_dot (t : Bytes) : octets (dot :: t) = octets t := by
  unfold octets
  rw [splitOn_dot, List.reverse_cons]
  congr 1
  funext j
  by_cases here : j.val < (t.splitOn dot).reverse.length
  · rw [List.getD_append _ _ _ _ here]
  · rw [List.getD_append_right _ _ _ _ (Nat.le_of_not_lt here), List.getD_eq_default _ _
      (Nat.le_of_not_lt here)]
    generalize j.val - _ = k
    rcases k with _ | k
    · rfl
    · rfl

theorem octets_get (t : Bytes) (j : Nat) (bound : j < 4) :
    (octets t)[j] = UInt8.ofNat (digitsValue 10 ((t.splitOn dot).reverse.getD j [])) :=
  Vector.getElem_ofFn bound

theorem getD_open (l : Bytes) (rest : List Bytes) (j : Nat) :
    (l :: rest).reverse.getD j [] =
      if j = rest.length then l else rest.reverse.getD j [] := by
  rw [List.reverse_cons]
  split
  · next same =>
      rw [same, List.getD_append_right _ _ _ _ (by simp)]
      simp
  · next other =>
      by_cases here : j < rest.reverse.length
      · rw [List.getD_append _ _ _ _ here]
      · rw [List.getD_eq_default _ _ (Nat.le_of_not_lt here), List.getD_eq_default]
        rw [List.length_reverse] at here
        rw [List.length_append, List.length_reverse, List.length_singleton]
        omega

theorem octets_digit {value : UInt8} (parts : t.splitOn dot = l :: rest) (plain : c ≠ dot)
    (digit : isDigit c = true) (place : placeValues[l.length]? = some value)
    (room : rest.length < 4) :
    (octets t).set rest.length ((octets t)[rest.length] + (c - 0x30) * value) =
      octets (c :: t) := by
  ext j bound
  rw [Vector.getElem_set, octets_get, octets_get, octets_get, parts, splitOn_char plain parts,
    getD_open, getD_open, getD_open, if_pos rfl]
  by_cases same : rest.length = j
  · rw [if_pos same, if_pos same.symm, octet_cons digit place]
  · rw [if_neg same, if_neg (Ne.symm same), if_neg (Ne.symm same)]

theorem octets_nil : octets [] = Vector.replicate 4 0 := by decide

/-! ## The loop for IPv4 -/

theorem next_char (u t suffix : Bytes) (c : UInt8) :
    (u ++ c :: t ++ suffix)[u.length]? = some c := by
  rw [List.append_assoc, List.getElem?_append_right (Nat.le_refl _), Nat.sub_self]
  rfl

theorem length_next (u : Bytes) (c : UInt8) : (u ++ [c]).length = u.length + 1 := by
  rw [List.length_append, List.length_singleton]

/-- After a text that can be read, the variables of the loop tell its labels. -/
theorem readOctets_run (suffix : Bytes) : ∀ (t u : Bytes), Readable OctetTurn t →
    readOctets (u ++ t ++ suffix) false (u ++ t).length 0 0 (Vector.replicate 4 0) =
      readOctets (u ++ t ++ suffix) (t.head? = some dot) u.length (t.count dot)
        (t.takeWhile (· ≠ dot)).length (octets t)
  | [], u, _ => by
    rw [List.append_nil, octets_nil]
    rfl
  | c :: t, u, readable => by
    obtain ⟨turn, behind⟩ := readable
    have run := readOctets_run suffix t (u ++ [c]) behind
    have whole : u ++ [c] ++ t = u ++ c :: t := by simp
    rw [whole, length_next] at run
    obtain ⟨l, rest, parts, front, dots⟩ := splitOn_open t
    rw [front, dots] at run
    rw [run, readOctets, next_char]
    unfold OctetTurn at turn
    by_cases isDot : c = dot
    · rw [if_pos isDot] at turn
      have few := count_lt_four behind turn
      rw [dots] at few
      rw [isDot, octets_dot, List.count_cons_self, dots]
      simp [turn, Nat.not_le_of_lt few]
    · rw [if_neg isDot] at turn
      obtain ⟨digit, short, few⟩ := turn
      rw [front] at short
      rw [dots] at few
      obtain ⟨value, place⟩ : ∃ value, placeValues[l.length]? = some value :=
        ⟨_, List.getElem?_eq_getElem short⟩
      have next := octets_digit parts isDot digit place few
      have longer : (c :: t).takeWhile (· ≠ dot) = c :: l := by
        rw [List.takeWhile_cons_of_pos (by simp [isDot]), front]
      rw [List.count_cons_of_ne isDot, dots, longer, ← next]
      simp [isDot, digit, place, few, Nat.not_le_of_lt few]

theorem readOctets_readable (readable : Readable OctetTurn w) (suffix : Bytes) :
    readOctets (w ++ suffix) false w.length 0 0 (Vector.replicate 4 0) = .ok (some (octets w)) := by
  have run := readOctets_run suffix w [] readable
  rw [List.nil_append] at run
  rw [run]
  rfl

theorem readOctets_refused (refused : RefusedOctets w) (suffix : Bytes) :
    readOctets (w ++ suffix) false w.length 0 0 (Vector.replicate 4 0) = .ok none := by
  obtain ⟨u, b, t, rfl, readable, other, behind⟩ := refused
  have run := readOctets_run suffix t (u ++ [b]) readable
  have whole : u ++ [b] ++ t = u ++ b :: t := by simp
  rw [whole, length_next] at run
  rw [run, readOctets, next_char]
  by_cases dotRead : t.head? = some dot
  · simp [dotRead, other]
  · have few := count_lt_four readable dotRead
    have plain : b ≠ dot := fun isDot => dotRead (behind isDot)
    simp [dotRead, plain, other, Nat.not_le_of_lt few]

theorem readOctets_stuck {b : UInt8} (readable : Readable OctetTurn t) (plain : b ≠ dot)
    (digit : isDigit b = true) (stuck : ¬ OctetTurn b t) (suffix : Bytes) :
    ∃ e, readOctets (u ++ b :: t ++ suffix) false (u ++ b :: t).length 0 0
      (Vector.replicate 4 0) = .error e := by
  have run := readOctets_run suffix t (u ++ [b]) readable
  have whole : u ++ [b] ++ t = u ++ b :: t := by simp
  rw [whole, length_next] at run
  have going : ((!decide (t.head? = some dot)) && decide (t.count dot ≥ 4)) = false := by
    by_cases dotRead : t.head? = some dot
    · simp [dotRead]
    · have few := count_lt_four readable dotRead
      simp [Nat.not_le_of_lt few]
  unfold OctetTurn at stuck
  rw [if_neg plain] at stuck
  rw [run, readOctets, next_char, going]
  generalize t.count dot = i at *
  generalize (t.takeWhile (· ≠ dot)).length = place at *
  cases value : placeValues[place]? with
  | none => exact ⟨.placeValues, by simp [plain, digit]⟩
  | some v =>
    have short : place < 3 := (List.getElem?_eq_some_iff.mp value).1
    have full : ¬ i < 4 := fun room => stuck ⟨digit, short, room⟩
    exact ⟨.address, by simp [plain, digit, full]⟩

/-- What the loop for IPv4 comes to -/
theorem readOctets_cases (w suffix : Bytes) :
    (Readable OctetTurn w ∧ readOctets (w ++ suffix) false w.length 0 0 (Vector.replicate 4 0) =
        .ok (some (octets w))) ∨
      (RefusedOctets w ∧ readOctets (w ++ suffix) false w.length 0 0 (Vector.replicate 4 0) =
        .ok none) ∨
      ∃ e, readOctets (w ++ suffix) false w.length 0 0 (Vector.replicate 4 0) = .error e := by
  rcases readable_front OctetTurn w with all | ⟨u, b, t, rfl, readable, stuck⟩
  · exact .inl ⟨all, readOctets_readable all suffix⟩
  right
  by_cases isDot : b = dot
  · left
    have twice : t.head? = some dot := by
      unfold OctetTurn at stuck
      rw [if_pos isDot] at stuck
      exact not_not.mp stuck
    have refused : RefusedOctets (u ++ b :: t) :=
      ⟨u, b, t, rfl, readable, by rw [isDot]; rfl, fun _ => twice⟩
    exact ⟨refused, readOctets_refused refused suffix⟩
  · cases digit : isDigit b with
    | true => exact .inr (readOctets_stuck readable isDot digit stuck suffix)
    | false =>
      left
      have refused : RefusedOctets (u ++ b :: t) :=
        ⟨u, b, t, rfl, readable, digit, fun same => absurd same isDot⟩
      exact ⟨refused, readOctets_refused refused suffix⟩

/-! ## Good octets -/

/-- Labels that are good can be read. -/
theorem GoodOctets.readable (good : GoodOctets w) : Readable OctetTurn w := by
  obtain ⟨four, each⟩ := good
  rcases readable_front OctetTurn w with all | ⟨u, b, t, rfl, -, stuck⟩
  · exact all
  refine absurd ?_ stuck
  obtain ⟨l, rest, parts, front, dots⟩ := splitOn_open t
  unfold OctetTurn
  by_cases isDot : b = dot
  · rw [if_pos isDot]
    intro twice
    have empty : [] ∈ (u ++ b :: t).splitOn dot := by
      rw [isDot]
      exact empty_label twice
    exact (each [] empty).1 rfl
  · rw [if_neg isDot]
    obtain ⟨pre, x, eq⟩ := char_label (u := u) isDot parts
    have mem : x ++ b :: l ∈ (u ++ b :: t).splitOn dot := by
      rw [eq]
      simp
    obtain ⟨-, short, digits, -⟩ := each _ mem
    rw [eq, List.length_append, List.length_cons] at four
    rw [List.length_append, List.length_cons] at short
    refine ⟨digits b (by simp), ?_, ?_⟩
    · rw [front]
      omega
    · rw [dots]
      omega

theorem readable_short : ∀ {w : Bytes}, Readable OctetTurn w →
    ∀ l ∈ w.splitOn dot, l.length ≤ 3
  | [], _, l, mem => by
    rw [List.splitOn_nil, List.mem_singleton] at mem
    rw [mem]
    exact Nat.zero_le 3
  | c :: t, readable, l, mem => by
    have behind := readable_short readable.2
    obtain ⟨first, rest, parts, front, -⟩ := splitOn_open t
    have turn := readable.1
    unfold OctetTurn at turn
    by_cases isDot : c = dot
    · rw [isDot, splitOn_dot] at mem
      rcases List.mem_cons.mp mem with rfl | mem
      · exact Nat.zero_le 3
      · exact behind l mem
    · rw [if_neg isDot, front] at turn
      rw [splitOn_char isDot parts] at mem
      rcases List.mem_cons.mp mem with rfl | mem
      · exact turn.2.1
      · exact behind l (by rw [parts]; exact List.mem_cons_of_mem _ mem)

theorem isReverseName_iff {a : Address} (same : suffix.map lower = a.domain) :
    IsReverseName a (w ++ suffix) ↔ List.Forall₂ (Denotes a.base) (w.splitOn dot) a.values := by
  constructor
  · rintro ⟨w', suffix', eq, same', labels⟩
    have count := congrArg List.length (same.trans same'.symm)
    rw [List.length_map, List.length_map] at count
    obtain ⟨rfl, -⟩ := List.append_inj' eq count
    exact labels
  · intro labels
    exact ⟨w, suffix, rfl, same, labels⟩

theorem isDigitOf_ten_iff (c : UInt8) : isDigitOf 10 c = true ↔ isDigit c = true := by
  refine ⟨fun digit => ?_, isDigitOf_ten c⟩
  by_contra other
  rw [isDigitOf_of_not (Nat.le_refl 10) (by simpa using other)] at digit
  cases digit

theorem octets_values (four : (w.splitOn dot).length = 4) :
    (Address.inet (octets w)).values = (w.splitOn dot).map fun l => digitsValue 10 l % 256 := by
  show (octets w).toList.reverse.map UInt8.toNat = _
  have listed : ∀ v : Vector UInt8 4, v.toList = [v[0], v[1], v[2], v[3]] := by
    rintro ⟨⟨l⟩, four⟩
    obtain ⟨_, _, _, _, rfl⟩ := List.length_eq_four.mp four
    rfl
  rw [listed, octets_get, octets_get, octets_get, octets_get]
  match w.splitOn dot, four with
  | [a, b, c, d], _ => simp

/-- A text that can be read is a reverse name of the address that it gives exactly when its labels
are good. -/
theorem octets_reverse_iff (readable : Readable OctetTurn w) :
    List.Forall₂ (Denotes 10) (w.splitOn dot) (Address.inet (octets w)).values ↔
      GoodOctets w := by
  rw [forall₂_denotes]
  constructor
  · rintro ⟨each, values⟩
    have four : (w.splitOn dot).length = 4 := by
      have count := congrArg List.length values
      rw [List.length_map] at count
      rw [count]
      simp [Address.values]
    rw [octets_values four] at values
    refine ⟨four, fun l mem => ?_⟩
    obtain ⟨some_digit, digits⟩ := each l mem
    refine ⟨some_digit, readable_short readable l mem, ?_, ?_⟩
    · intro c here
      exact (isDigitOf_ten_iff c).mp (digits c here)
    · rw [List.map_inj_left.mp values l mem]
      exact Nat.le_of_lt_succ (Nat.mod_lt _ (by decide))
  · rintro ⟨four, each⟩
    rw [octets_values four]
    refine ⟨fun l mem => ?_, List.map_inj_left.mpr fun l mem => ?_⟩
    · obtain ⟨some_digit, -, digits, -⟩ := each l mem
      exact ⟨some_digit, fun c here => (isDigitOf_ten_iff c).mpr (digits c here)⟩
    · obtain ⟨-, -, -, small⟩ := each l mem
      exact (Nat.mod_eq_of_lt (Nat.lt_succ_of_le small)).symm

theorem splitOn_octets (addr : Vector UInt8 4) : ∃ w, ipToPtr (.inet addr) = w ++ ipv4PtrDomain ∧
    w.splitOn dot = addr.toList.reverse.map fun b => decimal b.toNat := by
  have free : ∀ n, dot ∉ decimal n := by
    intro n mem
    have digit := decimal_digits dot mem
    exact absurd digit (by decide)
  obtain ⟨⟨l⟩, four⟩ := addr
  obtain ⟨a, b, c, d, rfl⟩ := List.length_eq_four.mp four
  refine ⟨_, rfl, ?_⟩
  show (decimal d.toNat ++ [dot] ++ decimal c.toNat ++ [dot] ++ decimal b.toNat ++ [dot] ++
    decimal a.toNat).splitOn dot = [d, c, b, a].map fun b => decimal b.toNat
  simp only [List.append_assoc, List.cons_append, List.nil_append]
  rw [List.splitOn_append_cons_self_of_not_mem (free _),
    List.splitOn_append_cons_self_of_not_mem (free _),
    List.splitOn_append_cons_self_of_not_mem (free _), List.splitOn_eq_singleton (free _)]
  rfl

theorem octets_written (addr : Vector UInt8 4) :
    ∃ w, ipToPtr (.inet addr) = w ++ ipv4PtrDomain ∧ GoodOctets w ∧ octets w = addr := by
  obtain ⟨w, eq, parts⟩ := splitOn_octets addr
  refine ⟨w, eq, ?_, ?_⟩
  · refine ⟨?_, fun l mem => ?_⟩
    · rw [parts]
      simp
    · rw [parts] at mem
      obtain ⟨b, -, rfl⟩ := List.mem_map.mp mem
      have small : b.toNat < 256 := b.toNat_lt
      refine ⟨decimal_ne_nil _, decimal_length_le (by decide) (by omega), decimal_digits, ?_⟩
      rw [digitsValue_decimal]
      omega
  · ext j bound
    rw [octets_get, parts, ← List.map_reverse, List.reverse_reverse]
    have here : j < (addr.toList.map fun b => decimal b.toNat).length := by
      simpa using bound
    rw [List.getD_eq_getElem _ _ here, List.getElem_map, digitsValue_decimal]
    simp

end Nmap.Dns
