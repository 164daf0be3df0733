import Mathlib.Data.List.TakeWhile
import Nmap.Base.Numeral
import Nmap.Addrset.NetBlock

/-!
# Excluding and scanning the same expression

`addrset_add_spec` and `NetBlock::parse_expr` read expressions of four dotted octets with copies of
one parser. The address set asks the system for a plain address first, and `inet_aton` takes a
number with a leading zero for octal.
-/

namespace Nmap.Addrset

open Nmap.Base List Option

/-! ## `inet_aton` -/

/-- The weight of a digit, 16 for what is none -/
def digitWeight (c : Char) : Nat :=
  if c.isDigit then c.toNat - '0'.toNat
  else if 'a' ≤ c ∧ c ≤ 'f' then c.toNat - 'a'.toNat + 10
  else if 'A' ≤ c ∧ c ≤ 'F' then c.toNat - 'A'.toNat + 10
  else 16

/-- The base of a number and its digits, as in C -/
def radix : List Char → Nat × List Char
  | '0' :: 'x' :: digits => (16, digits)
  | '0' :: 'X' :: digits => (16, digits)
  | '0' :: digits => (8, '0' :: digits)
  | digits => (10, digits)

def inetNumber (s : List Char) : Option Nat :=
  let (base, digits) := radix s
  if digits ≠ [] ∧ digits.all (fun c => digitWeight c < base) = true then
    some (Numeral.value digitWeight base digits)
  else none

/-- `inet_aton`: one to four numbers, the last of which fills the bytes that are left -/
def inetAton (name : List Char) : Option U32 :=
  match (name.splitOn '.').mapM inetNumber with
  | some [a] => if a < 2 ^ 32 then some (BitVec.ofNat 32 a) else none
  | some [a, b] =>
    if a < 256 ∧ b < 2 ^ 24 then some (BitVec.ofNat 32 (a <<< 24 ||| b)) else none
  | some [a, b, c] =>
    if a < 256 ∧ b < 256 ∧ c < 2 ^ 16 then some (BitVec.ofNat 32 (a <<< 24 ||| b <<< 16 ||| c))
    else none
  | some [a, b, c, d] =>
    if a < 256 ∧ b < 256 ∧ c < 256 ∧ d < 256 then some (ofOctets a b c d) else none
  | _ => none

/-- The number that digits stand for in base ten -/
def decimalOctet (s : List Char) : Nat := Numeral.value digitWeight 10 s

/-- The address of four decimal numbers -/
def decimalAddr (name : List Char) : U32 :=
  match (name.splitOn '.').map decimalOctet with
  | [o0, o1, o2, o3] => ofOctets o0 o1 o2 o3
  | _ => 0

/-- `getaddrinfo` with `AI_NUMERICHOST` reads a name without a colon as `inet_aton` does. -/
def NumericAsInetAton (res : Resolver) : Prop :=
  ∀ name, ':' ∉ name → res.numeric name = (inetAton name).map fun a => [some (.inet a)]

/-- Where the text before the netmask is a plain address to the system, its octal numbers make no
difference to the bits that the netmask keeps. -/
def ReadAlike (expr : List Char) : Prop :=
  ∀ name bits, NetBlock.splitNetmask expr = some (name, bits) → ∀ a, inetAton name = some a →
    SamePrefix (keptBits bits) a (decimalAddr name)

/-! ## The two netmasks -/

variable {expr : List Char}

theorem lastSlash_none (none : '/' ∉ expr) :
    NetBlock.lastSlash expr = .none := by
  have all : expr.reverse.dropWhile (· ≠ '/') = [] := by
    rw [dropWhile_eq_nil_iff]
    intro c mem
    exact decide_eq_true fun slash => none (slash ▸ mem_reverse.mp mem)
  rw [NetBlock.lastSlash, all]

theorem lastSlash_append (name : List Char) {netmask : List Char} (last : '/' ∉ netmask) :
    NetBlock.lastSlash (name ++ '/' :: netmask) = some (name, netmask) := by
  have others : ∀ c ∈ netmask.reverse, decide (c ≠ '/') = true := fun c mem =>
    decide_eq_true fun slash => last (slash ▸ mem_reverse.mp mem)
  have reverse : (name ++ '/' :: netmask).reverse = netmask.reverse ++ '/' :: name.reverse := by
    simp
  rw [NetBlock.lastSlash, reverse, dropWhile_append_of_pos others,
    takeWhile_append_of_pos others]
  simp

variable {name : List Char} {bits : Int}

/-- `addrset_add_spec` splits the text at the first slash, and the rest has only digits. -/
theorem parseNetmask_shape (first : AddrSet.parseNetmask expr = some (name, bits)) :
    ('/' ∉ expr ∧ name = expr ∧ bits = -1) ∨
      ∃ netmask l, '/' ∉ netmask ∧ expr = name ++ '/' :: netmask ∧
        parseLong netmask = (some l, []) ∧ bits = (l : Int) := by
  have whole : expr.takeWhile (· ≠ '/') ++ expr.dropWhile (· ≠ '/') = expr :=
    takeWhile_append_dropWhile
  unfold AddrSet.parseNetmask at first
  cases rest : expr.dropWhile (· ≠ '/') with
  | nil =>
    rw [rest] at first whole
    rw [append_nil] at whole
    obtain ⟨same, missing⟩ : expr.takeWhile (· ≠ '/') = name ∧ -1 = bits := by
      simpa using first
    refine .inl ⟨fun mem => ?_, same.symm.trans whole, missing.symm⟩
    rw [← whole] at mem
    simpa using mem_takeWhile_imp mem
  | cons slash netmask =>
    have isSlash : slash = '/' := by
      have head := List.head?_dropWhile_not (fun c => decide (c ≠ '/')) expr
      rw [rest] at head
      simpa using head
    rw [rest, isSlash] at whole
    rw [rest] at first
    dsimp only at first
    cases read : parseLong netmask with
    | mk value tail =>
      rw [read] at first
      cases value with
      | none => cases first
      | some l =>
        dsimp only at first
        split at first
        · cases first
        · rename_i good
          obtain ⟨same, number⟩ : expr.takeWhile (· ≠ '/') = name ∧ (l : Int) = bits := by
            simpa using first
          have done : tail = [] := by
            by_contra more
            exact good (.inl more)
          refine .inr ⟨netmask, l, fun mem => ?_, by rw [← same, whole], done ▸ read,
            number.symm⟩
          have digits : netmask.dropWhile Char.isDigit = [] := by
            have snd := congrArg Prod.snd read
            exact snd.trans done
          have digit := dropWhile_eq_nil_iff.mp digits '/' mem
          exact absurd digit (by decide)

/-- A text that `addrset_add_spec` accepts has one slash at most, so both split it there. -/
theorem splitNetmask_of_parseNetmask {hostexp : List Char} {bits' : Int}
    (first : AddrSet.parseNetmask expr = some (name, bits))
    (last : NetBlock.splitNetmask expr = some (hostexp, bits')) :
    hostexp = name ∧ bits' = bits := by
  unfold NetBlock.splitNetmask at last
  rcases parseNetmask_shape first with ⟨none, rfl, rfl⟩ | ⟨netmask, l, one, rfl, read, rfl⟩
  · rw [lastSlash_none none] at last
    cases last
    exact ⟨rfl, rfl⟩
  · rw [lastSlash_append name one] at last
    dsimp only at last
    rw [read] at last
    dsimp only at last
    split at last
    · cases last
    · cases last
      exact ⟨rfl, rfl⟩

/-! ## Plain addresses -/

/-- What follows a number of a plain address -/
def Stops (rest : List Char) : Prop := rest = [] ∨ ∃ more, rest = '.' :: more

theorem digitWeight_lt_ten {c : Char} (digit : digitWeight c < 10) : c.isDigit = true := by
  unfold digitWeight at digit
  split at digit
  · assumption
  · split at digit
    · omega
    · split at digit <;> omega

theorem digitWeight_of_isDigit {c : Char} (digit : c.isDigit = true) :
    digitWeight c = c.toNat - 48 := by
  rw [digitWeight, if_pos digit]
  rfl

/-- `parse_long` reads digits up to what stops them. -/
theorem parseLong_digits {ds rest : List Char} (digits : ∀ c ∈ ds, c.isDigit = true)
    (stops : ∀ c ∈ rest.head?, c.isDigit = false) :
    parseLong (ds ++ rest) =
      (if decimalOctet ds ≤ longMax then some (decimalOctet ds) else none, rest) := by
  have taken : (ds ++ rest).takeWhile Char.isDigit = ds := by
    rw [takeWhile_append_of_pos digits]
    cases rest with
    | nil => simp
    | cons c rest => simp [stops c rfl]
  have dropped : (ds ++ rest).dropWhile Char.isDigit = rest := by
    rw [dropWhile_append_of_pos digits]
    cases rest with
    | nil => rfl
    | cons c rest => simp [stops c rfl]
  have value : ∀ (n : Nat), ds.foldl (fun v c => 10 * v + (c.toNat - 48)) n =
      ds.foldl (fun v c => v * 10 + digitWeight c) n := by
    clear taken dropped
    induction ds with
    | nil => exact fun n => rfl
    | cons c ds ih =>
      intro n
      rw [foldl_cons, foldl_cons, digitWeight_of_isDigit (digits c mem_cons_self),
        Nat.mul_comm]
      exact ih (fun d mem => digits d (mem_cons_of_mem _ mem)) _
  rw [parseLong, taken, dropped, value 0]
  rfl

theorem fillRange_self (d : Nat) : fillRange 0 d d = bitSet 0 d := by
  have one : d + 1 - d = 1 := by omega
  rw [fillRange, one]
  rfl

section Plain

variable {ds rest : List Char} (someDigit : ds ≠ []) (digits : ∀ c ∈ ds, c.isDigit = true)
  (plain : ∀ c ∈ rest.head?, c.isDigit = false ∧ c ≠ '-' ∧ c ≠ ',')
include someDigit digits plain

theorem parseRange_digits :
    parseRange (ds ++ rest) =
      if decimalOctet ds < 256 then some (decimalOctet ds, decimalOctet ds, rest) else none := by
  have moved : rest ≠ ds ++ rest := fun same => someDigit (append_left_eq_self.mp same.symm)
  rw [parseRange, parseLong_digits digits fun c mem => (plain c mem).1]
  by_cases small : decimalOctet ds < 256
  · have long : decimalOctet ds ≤ longMax := by
      have huge : 256 ≤ longMax := by decide
      omega
    have fits : ¬ decimalOctet ds > 255 := by omega
    simp only [if_pos long, moved, false_and, if_false, fits, if_pos small]
    split
    · exact absurd rfl (plain '-' rfl).2.1
    · rfl
  · rw [if_neg small]
    split
    · rfl
    · rename_i start tail read
      have value : start = decimalOctet ds ∧ tail = rest := by
        split at read
        · cases read
          exact ⟨rfl, rfl⟩
        · cases read
      rw [value.1, value.2, if_neg fun h => moved h.1, if_pos (by omega)]

theorem parseOctet_digits :
    parseOctet (ds ++ rest) =
      if decimalOctet ds < 256 then some (bitSet 0 (decimalOctet ds), rest) else none := by
  have items : parseOctet (ds ++ rest) = parseItems ((ds ++ rest).length + 1) 0 (ds ++ rest) := by
    unfold parseOctet
    split
    · rename_i p star
      obtain ⟨c, ds, rfl⟩ := exists_cons_of_ne_nil someDigit
      have digit := digits c mem_cons_self
      rw [cons_append, List.cons.injEq] at star
      rw [star.1] at digit
      cases digit
    · rfl
  rw [items, parseItems, parseRange_digits someDigit digits plain]
  by_cases small : decimalOctet ds < 256
  · simp only [if_pos small, fillRange_self]
    split
    · exact absurd rfl (plain ',' rfl).2.2
    · rfl
  · simp only [if_neg small]

end Plain

theorem dot_plain (rest : List Char) :
    ∀ c ∈ ('.' :: rest).head?, c.isDigit = false ∧ c ≠ '-' ∧ c ≠ ',' := by
  intro c mem
  cases mem
  exact ⟨rfl, by decide, by decide⟩

/-- A number that `inet_aton` takes is made of decimal digits or begins with "0x". -/
theorem inetNumber_shape {s : List Char} (number : inetNumber s ≠ none) :
    s ≠ [] ∧ ((∀ c ∈ s, c.isDigit = true) ∨
      ∃ x more, s = '0' :: x :: more ∧ (x = 'x' ∨ x = 'X')) := by
  unfold inetNumber at number
  have good : (radix s).2 ≠ [] ∧ ∀ c ∈ (radix s).2, digitWeight c < (radix s).1 := by
    by_contra bad
    refine number (if_neg fun good => bad ⟨good.1, fun c mem => ?_⟩)
    exact of_decide_eq_true (all_eq_true.mp good.2 c mem)
  unfold radix at good
  split at good
  · exact ⟨by simp, .inr ⟨_, _, rfl, .inl rfl⟩⟩
  · exact ⟨by simp, .inr ⟨_, _, rfl, .inr rfl⟩⟩
  · refine ⟨by simp, .inl fun c mem => digitWeight_lt_ten ?_⟩
    have octal : digitWeight c < 8 := good.2 c mem
    omega
  · exact ⟨good.1, .inl fun c mem => digitWeight_lt_ten (good.2 c mem)⟩

theorem parseOctet_hex {x : Char} (letter : x = 'x' ∨ x = 'X') (rest : List Char) :
    parseOctet ('0' :: x :: rest) = some (bitSet 0 0, x :: rest) := by
  have plain : ∀ c ∈ (x :: rest).head?, c.isDigit = false ∧ c ≠ '-' ∧ c ≠ ',' := by
    intro c mem
    cases mem
    rcases letter with rfl | rfl <;> exact ⟨rfl, by decide, by decide⟩
  have digit : ∀ c ∈ ['0'], c.isDigit = true := by simp
  have zero := parseOctet_digits (cons_ne_nil '0' []) digit plain
  simpa [decimalOctet, Numeral.value, digitWeight] using zero

variable {p : List Char}

theorem parseOctets_succ (n : Nat) (nonempty : p ≠ []) :
    parseOctets (n + 1) p = (parseOctet p).bind fun (bits, tail) =>
      if n = 0 then (parseOctets 0 tail).map (bits :: ·)
      else
        match tail with
        | '.' :: tail => (parseOctets n tail).map (bits :: ·)
        | _ => none := by
  rw [parseOctets, if_neg nonempty]
  cases parseOctet p with
  | none => rfl
  | some read => rfl

theorem parseOctets_zero (p : List Char) :
    parseOctets 0 p = if p = [] then some [] else none := by
  rw [parseOctets]

/-- What the range parser reads where the system reads a plain address -/
theorem parseOctets_plain {parts : List (List Char)} (octets : parts ≠ [])
    (numbers : ∀ p ∈ parts, inetNumber p ≠ none) {n : Nat} {bs : List OctetBitvector}
    (parsed : parseOctets n (['.'].intercalate parts) = some bs) :
    bs = parts.map (fun p => bitSet 0 (decimalOctet p)) ∧ parts.length = n ∧
      ∀ p ∈ parts, decimalOctet p < 256 := by
  induction parts generalizing n bs with
  | nil => exact absurd rfl octets
  | cons p parts ih =>
    obtain ⟨nonempty, shape⟩ := inetNumber_shape (numbers p mem_cons_self)
    obtain ⟨rest, text, stops⟩ : ∃ rest, ['.'].intercalate (p :: parts) = p ++ rest ∧
        (parts = [] ∧ rest = [] ∨ parts ≠ [] ∧ rest = '.' :: ['.'].intercalate parts) := by
      cases parts with
      | nil => exact ⟨[], by simp, .inl ⟨rfl, rfl⟩⟩
      | cons q parts => exact ⟨_, by simp, .inr ⟨by simp, rfl⟩⟩
    have whole : p ++ rest ≠ [] := by simp [nonempty]
    have plain : ∀ c ∈ rest.head?, c.isDigit = false ∧ c ≠ '-' ∧ c ≠ ',' := by
      rcases stops with ⟨-, rfl⟩ | ⟨-, rfl⟩
      · simp
      · exact dot_plain _
    rw [text] at parsed
    cases n with
    | zero =>
      rw [parseOctets_zero, if_neg whole] at parsed
      cases parsed
    | succ n =>
      rw [parseOctets_succ n whole] at parsed
      rcases shape with digits | ⟨x, more, rfl, letter⟩
      · rw [parseOctet_digits nonempty digits plain] at parsed
        by_cases small : decimalOctet p < 256
        · rw [if_pos small, bind_some] at parsed
          dsimp only at parsed
          rcases stops with ⟨rfl, rfl⟩ | ⟨others, rfl⟩
          · by_cases last : n = 0
            · subst last
              rw [if_pos rfl, parseOctets_zero, if_pos rfl, map_some] at parsed
              cases parsed
              exact ⟨rfl, rfl, by simpa using small⟩
            · rw [if_neg last] at parsed
              cases parsed
          · by_cases last : n = 0
            · subst last
              simp [parseOctets_zero] at parsed
            · rw [if_neg last] at parsed
              obtain ⟨rest, read, rfl⟩ := map_eq_some_iff.mp parsed
              obtain ⟨bits, length, bounds⟩ :=
                ih others (fun q mem => numbers q (mem_cons_of_mem _ mem)) read
              refine ⟨by rw [bits, map_cons], by rw [length_cons, length], ?_⟩
              exact forall_mem_cons.mpr ⟨small, bounds⟩
        · rw [if_neg small] at parsed
          cases parsed
      · -- the letter is neither a dot nor the end
        have notDot : x ≠ '.' := by rcases letter with rfl | rfl <;> decide
        have stuck := parseOctet_hex letter (more ++ rest)
        rw [cons_append, cons_append, stuck, bind_some] at parsed
        dsimp only at parsed
        split at parsed
        · simp [parseOctets_zero] at parsed
        · split at parsed
          · rename_i same
            exact absurd (List.cons.inj same).1 notDot
          · cases parsed

theorem mapM_some {α β : Type} {f : α → Option β} {xs : List α} {ys : List β}
    (all : xs.mapM f = some ys) : ∀ x ∈ xs, f x ≠ none := by
  induction xs generalizing ys with
  | nil => exact fun x mem => absurd mem not_mem_nil
  | cons x xs ih =>
    rw [mapM_cons] at all
    cases first : f x with
    | none =>
      rw [first] at all
      cases all
    | some y =>
      rw [first] at all
      cases rest : xs.mapM f with
      | none =>
        rw [rest] at all
        cases all
      | some ys =>
        refine forall_mem_cons.mpr ⟨?_, ih rest⟩
        rw [first]
        simp

variable {a : U32}

theorem inetAton_numbers (plain : inetAton name = some a) :
    ∀ p ∈ name.splitOn '.', inetNumber p ≠ none := by
  cases all : (name.splitOn '.').mapM inetNumber with
  | none =>
    rw [inetAton, all] at plain
    cases plain
  | some numbers => exact mapM_some all

theorem bitIsSet_single (addr : U32) (s d : Nat) :
    bitIsSet (bitSet 0 d) (addr.extractLsb' s 8).toNat = true ↔
      (addr.extractLsb' s 8).toNat = d := by
  rw [bitIsSet_bitSet 0 d (BitVec.isLt _)]
  simp [bitIsSet]

variable {elem : AddrsetElem}

/-- A plain address to both sides: the range element is its decimal reading. -/
theorem parseIpv4Ranges_plain (parsed : parseIpv4Ranges name = some elem)
    (plain : inetAton name = some a) (b : U32) :
    matchIpv4Bits elem b = true ↔ b = decimalAddr name := by
  unfold parseIpv4Ranges at parsed
  split at parsed
  · rename_i b0 b1 b2 b3 read
    cases parsed
    have name_eq : ['.'].intercalate (name.splitOn '.') = name := intercalate_splitOn '.'
    rw [← name_eq] at read
    obtain ⟨bits, four, small⟩ :=
      parseOctets_plain (splitOn_ne_nil '.' name) (inetAton_numbers plain) read
    unfold decimalAddr
    generalize name.splitOn '.' = parts at bits four small
    match parts, four with
    | [p0, p1, p2, p3], _ =>
      simp only [map_cons, map_nil, List.cons.injEq, and_true] at bits ⊢
      obtain ⟨rfl, rfl, rfl, rfl⟩ := bits
      simp only [forall_mem_cons, not_mem_nil, false_implies, implies_true,
        and_true] at small
      obtain ⟨h0, h1, h2, h3⟩ := small
      simp only [matchIpv4Bits, Bool.and_eq_true, bitIsSet_single]
      constructor
      · rintro ⟨⟨⟨e0, e1⟩, e2⟩, e3⟩
        rw [← ofOctets_octets b, e0, e1, e2, e3]
      · rintro rfl
        obtain ⟨e0, e1, e2, e3⟩ := octets_ofOctets h0 h1 h2 h3
        exact ⟨⟨⟨e0, e1⟩, e2⟩, e3⟩
  · cases parsed

/-! ## No colon in an expression of octets -/

theorem colon_parseLong (colon : ':' ∈ p) : ':' ∈ (parseLong p).2 := by
  rw [← takeWhile_append_dropWhile (p := Char.isDigit) (l := p)] at colon
  rcases mem_append.mp colon with digit | later
  · exact absurd (mem_takeWhile_imp digit) (by decide)
  · exact later

variable {tail : List Char}

theorem colon_parseRange {start stop : Nat} (parsed : parseRange p = some (start, stop, tail))
    (colon : ':' ∈ p) : ':' ∈ tail := by
  have first := colon_parseLong colon
  unfold parseRange at parsed
  cases read : parseLong p with
  | mk value rest =>
    rw [read] at parsed first
    cases value with
    | none => cases parsed
    | some low =>
      dsimp only at parsed
      split at parsed
      · cases parsed
      split at parsed
      · cases parsed
      split at parsed
      · rename_i range _
        have second := colon_parseLong ((mem_cons.mp first).resolve_left (by decide))
        cases read : parseLong range with
        | mk value rest =>
          rw [read] at parsed second
          cases value with
          | none => cases parsed
          | some high =>
            dsimp only at parsed
            split at parsed
            · split at parsed
              · cases parsed
              · cases parsed
                exact second
            · split at parsed
              · cases parsed
              · cases parsed
                exact second
      · cases parsed
        exact first

theorem colon_parseItems {rounds : Nat} {bits bits' : OctetBitvector}
    (parsed : parseItems rounds bits p = some (bits', tail)) (colon : ':' ∈ p) : ':' ∈ tail := by
  induction rounds generalizing bits p with
  | zero => cases parsed
  | succ rounds ih =>
    rw [parseItems] at parsed
    split at parsed
    · cases parsed
    · rename_i start stop rest read
      have later := colon_parseRange read colon
      dsimp only at parsed
      split at parsed
      · exact ih parsed ((mem_cons.mp later).resolve_left (by decide))
      · cases parsed
        exact later

theorem colon_parseOctet {bits : OctetBitvector} (parsed : parseOctet p = some (bits, tail))
    (colon : ':' ∈ p) : ':' ∈ tail := by
  unfold parseOctet at parsed
  split at parsed
  · cases parsed
    exact (mem_cons.mp colon).resolve_left (by decide)
  · exact colon_parseItems parsed colon

theorem colon_parseOctets {n : Nat} {bs : List OctetBitvector}
    (parsed : parseOctets n p = some bs) : ':' ∉ p := by
  induction n generalizing p bs with
  | zero =>
    rw [parseOctets_zero] at parsed
    split at parsed
    · rename_i nil
      rw [nil]
      exact not_mem_nil
    · cases parsed
  | succ n ih =>
    intro colon
    rw [parseOctets_succ n (ne_nil_of_mem colon)] at parsed
    obtain ⟨⟨bits, tail⟩, read, rest⟩ := bind_eq_some_iff.mp parsed
    have later := colon_parseOctet read colon
    dsimp only at rest
    split at rest
    · rename_i last
      subst last
      obtain ⟨_, more, _⟩ := map_eq_some_iff.mp rest
      exact ih more later
    · split at rest
      · obtain ⟨_, more, _⟩ := map_eq_some_iff.mp rest
        exact ih more ((mem_cons.mp later).resolve_left (by decide))
      · cases rest

theorem colon_parseIpv4Ranges (parsed : parseIpv4Ranges name = some elem) : ':' ∉ name := by
  unfold parseIpv4Ranges at parsed
  split at parsed
  · rename_i read
    exact colon_parseOctets read
  · cases parsed

/-! ## The set of a plain address -/

theorem trieMatchAddr_new (y : Words) : TrieRoot.new.trieMatchAddr y = false := by
  simp [TrieRoot.new, TrieRoot.trieMatchAddr, Trie.matchWalk]

/-- A new set with one address contains what shares its masked bits. -/
theorem addrsetContains_new_insert (a : U32) (short : bits ≤ 32) (addr : U32) :
    AddrSet.addrsetContains (AddrSet.new.insert (.inet a) bits) (.inet addr) = true ↔
      SamePrefix (keptBits bits) a addr := by
  have valid : ¬ bits > (Sockaddr.inet a).family.addrBits := Int.not_lt.mpr short
  have spec := (TrieRoot.trieInsert_spec TrieRoot.WF.new
    (AddrSet.insertionOf (.inet a) bits valid)).2 (sockaddrToAddr (.inet addr)) rfl
  have masked : (AddrSet.insertionOf (.inet a) bits valid).maskLen = 96 + keptBits bits := by
    show (if bits ≥ 0 then bits.toNat + 96 else 128) = 96 + if bits < 0 then 32 else bits.toNat
    split <;> split <;> omega
  have gained : TrieRoot.new.Gained (sockaddrToAddr (.inet a)) (96 + keptBits bits)
      (sockaddrToAddr (.inet addr)) ↔ SamePrefix (keptBits bits) a addr := by
    have short32 : keptBits bits ≤ 32 := by
      unfold keptBits
      split <;> omega
    have rest : min (96 + keptBits bits - 32 - 32 - 32) 32 = keptBits bits := by omega
    have nothing : AgreeUpTo (96 + keptBits bits - 32 - 32 - 32 - 32) [] [] := fun i hi => rfl
    unfold TrieRoot.Gained
    simp only [sockaddrToAddr, agreeUpTo_cons, rest, nothing, and_true, implies_true, true_and]
    exact ⟨fun h => h.1, fun same => ⟨same, .inr (.inr fun y _ => trieMatchAddr_new y)⟩⟩
  rw [AddrSet.addrsetContains_inet, ← gained, ← masked]
  show TrieRoot.Has _ _ ∨ ([] : List AddrsetElem).any _ = true ↔ _
  rw [any_nil]
  simp only [Bool.false_eq_true, or_false]
  refine spec.trans ?_
  rw [trieMatchAddr_new, Bool.false_eq_true, false_or]
  rfl

/-! ## The two sides -/

/-- What `addrset_add_spec` makes of an expression of octets that it accepts -/
theorem addrsetAddSpec_octets {res : Resolver} (numeric : NumericAsInetAton res)
    {af : Option Family} {dns : Bool} {set : AddrSet}
    (netmask : AddrSet.parseNetmask expr = some (name, bits))
    (octets : parseIpv4Ranges name = some elem)
    (excludes : AddrSet.addrsetAddSpec res .new expr af dns = (set, true)) :
    bits ≤ 32 ∧
      match inetAton name with
      | some a => set = AddrSet.new.insert (.inet a) bits
      | none => set = { AddrSet.new with head := [applyIpv4NetmaskBits elem bits] } := by
  have answer := numeric name (colon_parseIpv4Ranges octets)
  unfold AddrSet.addrsetAddSpec at excludes
  rw [netmask] at excludes
  dsimp only at excludes
  cases plain : inetAton name with
  | some a =>
    rw [plain, map_some] at answer
    have resolved : resolveName res name af false = some [some (.inet a)] := by
      rw [resolveName, answer]
    rw [resolved] at excludes
    dsimp only [AddrSet.addAddrs] at excludes
    split at excludes
    · cases excludes
    · rename_i short
      cases excludes
      exact ⟨Int.not_lt.mp short, rfl⟩
  | none =>
    rw [plain, map_none] at answer
    have resolved : resolveName res name af false = none := by
      rw [resolveName, answer]
      rfl
    rw [resolved, octets] at excludes
    dsimp only at excludes
    split at excludes
    · cases excludes
    · rename_i short
      cases excludes
      exact ⟨Int.not_lt.mp short, rfl⟩

/-- What `parse_expr` makes of an expression of octets -/
theorem parseExpr_octets {resolveNumeric : List Char → Option Words} {requests : List (List Char)}
    {resolveAll : Bool} {block : NetBlockIPv4Ranges}
    (scans : (NetBlock.parseExpr resolveNumeric expr .inet requests resolveAll).1 =
      some (.ipv4Ranges block)) :
    ∃ name bits elem, NetBlock.splitNetmask expr = some (name, bits) ∧
      parseIpv4Ranges name = some elem ∧
      block = { NetBlockIPv4Ranges.new resolveAll with
        octets := applyIpv4NetmaskBits elem (if bits > 32 then -1 else bits) } := by
  unfold NetBlock.parseExpr at scans
  split at scans
  · cases scans
  · rename_i name bits split_
    refine ⟨name, bits, ?_⟩
    dsimp only [NetBlock.parseExprWithoutNetmask] at scans
    simp only [if_true, true_and] at scans
    cases octets : NetBlock.parseIpv4Ranges name with
    | some elem =>
      rw [octets] at scans
      dsimp only at scans
      cases scans
      exact ⟨elem, split_, octets, rfl⟩
    | none =>
      -- an IPv6 address is refused, and a host name makes another kind of block
      rw [octets] at scans
      cases resolved : resolveNumeric name with
      | some addr => simp [resolved] at scans
      | none => simp [resolved, NetBlock.applyNetmask] at scans

theorem SamePrefix.trans {k : Nat} {b c : U32} (ab : SamePrefix k a b) (bc : SamePrefix k b c) :
    SamePrefix k a c := fun i hi => (ab i hi).trans (bc i hi)

theorem SamePrefix.symm {k : Nat} {b : U32} (ab : SamePrefix k a b) : SamePrefix k b a :=
  fun i hi => (ab i hi).symm

/-- An expression of four octets that both sides accept is excluded as it is scanned, iff the
system does not read a plain address in it as another one, up to the netmask. -/
theorem exclude_equals_scan_iff {res : Resolver} (numeric : NumericAsInetAton res)
    {resolveNumeric : List Char → Option Words} {expr : List Char} {af : Option Family}
    {dns : Bool} {requests : List (List Char)} {resolveAll : Bool} {block : NetBlockIPv4Ranges}
    {set : AddrSet}
    (scans : (NetBlock.parseExpr resolveNumeric expr .inet requests resolveAll).1 =
      some (.ipv4Ranges block))
    (excludes : AddrSet.addrsetAddSpec res .new expr af dns = (set, true)) :
    (∀ addr, AddrSet.addrsetContains set (.inet addr) = true ↔ block.Enumerates addr) ↔
      ReadAlike expr := by
  obtain ⟨name, bits, elem, split_, octets, rfl⟩ := parseExpr_octets scans
  obtain ⟨⟨name', bits'⟩, netmask⟩ : ∃ parts, AddrSet.parseNetmask expr = some parts := by
    cases netmask : AddrSet.parseNetmask expr with
    | some parts => exact ⟨parts, rfl⟩
    | none =>
      rw [AddrSet.addrsetAddSpec, netmask] at excludes
      cases excludes
  obtain ⟨rfl, rfl⟩ := splitNetmask_of_parseNetmask netmask split_
  obtain ⟨short, made⟩ := addrsetAddSpec_octets numeric netmask octets excludes
  have scanned : ∀ addr, ({ NetBlockIPv4Ranges.new resolveAll with
      octets := applyIpv4NetmaskBits elem (if bits > 32 then -1 else bits) } :
      NetBlockIPv4Ranges).Enumerates addr ↔
        ∃ b, matchIpv4Bits elem b = true ∧ SamePrefix (keptBits bits) addr b := by
    intro addr
    rw [if_neg (Int.not_lt.mpr short)]
    exact (NetBlockIPv4Ranges.enumerates_iff rfl rfl addr).trans
      (matchIpv4Bits_applyIpv4NetmaskBits elem short addr)
  have readAlike : ReadAlike expr ↔
      ∀ a, inetAton name = some a → SamePrefix (keptBits bits) a (decimalAddr name) := by
    constructor
    · exact fun alike => alike name bits split_
    · intro alike name' bits' split'
      rw [split_] at split'
      cases split'
      exact alike
  rw [readAlike]
  simp only [scanned]
  cases plain : inetAton name with
  | none =>
    rw [plain] at made
    dsimp only at made
    subst made
    refine ⟨fun _ a none => (by cases none), fun _ addr => ?_⟩
    rw [AddrSet.addrsetContains_inet, ← matchIpv4Bits_applyIpv4NetmaskBits elem short]
    have empty : ¬ TrieRoot.new.Has (sockaddrToAddr (.inet addr)) := by
      rw [TrieRoot.Has, trieMatchAddr_new]
      exact Bool.false_ne_true
    refine (or_iff_right empty).trans ?_
    show [applyIpv4NetmaskBits elem bits].any _ = true ↔ _
    rw [any_cons, any_nil, Bool.or_false]
  | some a =>
    rw [plain] at made
    dsimp only at made
    subst made
    -- the block enumerates what shares its prefix with the decimal address
    have decimal : ∀ addr,
        (∃ b, matchIpv4Bits elem b = true ∧ SamePrefix (keptBits bits) addr b) ↔
          SamePrefix (keptBits bits) addr (decimalAddr name) := by
      intro addr
      simp only [parseIpv4Ranges_plain octets plain, exists_eq_left]
    simp only [addrsetContains_new_insert a short, decimal, Option.some.injEq, forall_eq']
    constructor
    · exact fun same => (same a).mp fun i _ => rfl
    · intro alike addr
      exact ⟨fun shared => shared.symm.trans alike, fun shared => alike.trans shared.symm⟩

/-- A system that only reads plain IPv4 addresses -/
def plainResolver : Resolver where
  numeric name := if ':' ∈ name then none else (inetAton name).map fun a => [some (.inet a)]
  name _ _ := none

theorem plainResolver_numeric : NumericAsInetAton plainResolver := fun _ colon => if_neg colon

def octalText : List Char := ['0', '1', '0', '.', '0', '.', '0', '.', '1']

/-- The block of 10.0.0.1 with a netmask -/
def tenBlock (bits : Int) : NetBlockIPv4Ranges :=
  { NetBlockIPv4Ranges.new false with
    octets := applyIpv4NetmaskBits ⟨bitSet 0 10, bitSet 0 0, bitSet 0 0, bitSet 0 1⟩ bits }

def eightSet (bits : Int) : AddrSet := AddrSet.new.insert (.inet 0x08000001) bits

theorem octalText_scans {expr : List Char} {bits : Int}
    (parts : NetBlock.splitNetmask expr = some (octalText, bits)) (few : bits ≤ 32) :
    (NetBlock.parseExpr (fun _ => none) expr .inet [] false).1 =
      some (.ipv4Ranges (tenBlock bits)) := by
  have octets : NetBlock.parseIpv4Ranges octalText =
      some ⟨bitSet 0 10, bitSet 0 0, bitSet 0 0, bitSet 0 1⟩ := by decide +kernel
  unfold NetBlock.parseExpr
  rw [parts]
  dsimp only [NetBlock.parseExprWithoutNetmask]
  rw [if_pos rfl, octets, if_neg fun many => Int.not_lt.mpr few many.2]
  rfl

/-- 010.0.0.1/4 is 8.0.0.1/4 to the system and 10.0.0.1/4 to the scan, which are the same. -/
theorem exclude_equals_scan_masked :
    (NetBlock.parseExpr (fun _ => none) (octalText ++ ['/', '4']) .inet [] false).1 =
        some (.ipv4Ranges (tenBlock 4)) ∧
      AddrSet.addrsetAddSpec plainResolver .new (octalText ++ ['/', '4']) none false =
        (eightSet 4, true) ∧
      ∀ addr, AddrSet.addrsetContains (eightSet 4) (.inet addr) = true ↔
        (tenBlock 4).Enumerates addr := by
  have parts : NetBlock.splitNetmask (octalText ++ ['/', '4']) = some (octalText, 4) := by
    decide
  have scans := octalText_scans parts (by decide)
  have excludes : AddrSet.addrsetAddSpec plainResolver .new (octalText ++ ['/', '4']) none false =
      (eightSet 4, true) := by decide
  have alike : ReadAlike (octalText ++ ['/', '4']) := by
    intro name bits split_ a plain
    rw [parts] at split_
    cases split_
    have octal : inetAton octalText = some 0x08000001 := by decide
    rw [octal] at plain
    cases plain
    show ∀ i < 4, _
    decide
  exact ⟨scans, excludes, (exclude_equals_scan_iff plainResolver_numeric scans excludes).mpr alike⟩

/-- 010.0.0.1 is scanned as 10.0.0.1 and excluded as 8.0.0.1. -/
theorem exclude_misses_octal :
    NumericAsInetAton plainResolver ∧
      (NetBlock.parseExpr (fun _ => none) octalText .inet [] false).1 =
        some (.ipv4Ranges (tenBlock (-1))) ∧
      AddrSet.addrsetAddSpec plainResolver .new octalText none false = (eightSet (-1), true) ∧
      (tenBlock (-1)).Enumerates 0x0a000001 ∧
      AddrSet.addrsetContains (eightSet (-1)) (.inet 0x0a000001) = false ∧
      AddrSet.addrsetContains (eightSet (-1)) (.inet 0x08000001) = true := by
  refine ⟨plainResolver_numeric, octalText_scans (by decide) (by decide), by decide, ?_,
    by decide, by decide⟩
  rw [NetBlockIPv4Ranges.enumerates_iff rfl rfl]
  decide

end Nmap.Addrset
