import Mathlib.Data.Nat.Basic
import Mathlib.Data.List.Basic
import Mathlib.Tactic.Common

/-!
# Integers as Python reads and writes them

`int` takes white space around the number, a sign, digits of any script, and single underscores
between the digits. What `str` writes is read back.
-/

namespace Nmap.Base.PyInt

open List

/-- What Python knows of the characters. The laws are those that ASCII needs. -/
structure Unicode where
  isSpace : Char → Bool
  /-- the value of a decimal digit -/
  decimal : Char → Option Nat
  /-- `str.lower` -/
  lower : List Char → List Char
  isSpace_digit : ∀ c, c.isDigit → isSpace c = false
  isSpace_minus : isSpace '-' = false
  decimal_digit : ∀ c, c.isDigit → decimal c = some (c.toNat - '0'.toNat)

/-- Without the characters beyond ASCII -/
def Unicode.ascii : Unicode where
  isSpace c := c = ' ' ∨ ('\t' ≤ c ∧ c ≤ '\r')
  decimal c := if c.isDigit then some (c.toNat - '0'.toNat) else none
  lower s := s.map Char.toLower
  isSpace_digit := by
    intro c digit
    rw [Char.isDigit, Bool.and_eq_true, decide_eq_true_eq, decide_eq_true_eq] at digit
    rw [decide_eq_false_iff_not]
    rintro (rfl | ⟨_, high⟩)
    · exact absurd digit.1 (by decide)
    · exact absurd (Nat.le_trans digit.1 high) (by decide)
  isSpace_minus := by decide
  decimal_digit _ digit := if_pos digit

variable (u : Unicode)

def strip (s : List Char) : List Char :=
  ((s.dropWhile u.isSpace).reverse.dropWhile u.isSpace).reverse

/-- The digits that follow the ones that make up `n` -/
def digits (n : Nat) : List Char → Option Nat
  | [] => some n
  | '_' :: c :: rest => (u.decimal c).bind fun k => digits (10 * n + k) rest
  | c :: rest => (u.decimal c).bind fun k => digits (10 * n + k) rest

/-- Digits, the first of which is no underscore -/
def number : List Char → Option Nat
  | [] => none
  | c :: rest => (u.decimal c).bind fun k => digits u k rest

/-- `int`, for a string. `none` is a `ValueError`. -/
def int (s : List Char) : Option Int :=
  match strip u s with
  | '-' :: rest => (number u rest).map fun n : Nat => -(n : Int)
  | '+' :: rest => (number u rest).map fun n : Nat => (n : Int)
  | rest => (number u rest).map fun n : Nat => (n : Int)

/-- `str`, for an integer -/
def str : Int → List Char
  | .ofNat n => Nat.toDigits 10 n
  | .negSucc n => '-' :: Nat.toDigits 10 (n + 1)

variable {u}

@[simp] theorem int_nil : int u [] = none := rfl

theorem strip_eq_self {s : List Char} (solid : ∀ c ∈ s, u.isSpace c = false) :
    strip u s = s := by
  have none : ∀ t : List Char, (∀ c ∈ t, u.isSpace c = false) → t.dropWhile u.isSpace = t := by
    intro t solid
    cases t with
    | nil => rfl
    | cons c t =>
      rw [dropWhile_cons, solid c mem_cons_self]
      rfl
  rw [strip, none s solid, none s.reverse fun c mem => solid c (mem_reverse.mp mem),
    reverse_reverse]

theorem isDigit_toDigits {n : Nat} {c : Char} (mem : c ∈ Nat.toDigits 10 n) : c.isDigit = true :=
  Nat.isDigit_of_mem_toDigits (by decide) (by decide) mem

theorem digits_ofDigitChars (n : Nat) {s : List Char} (all : ∀ c ∈ s, c.isDigit = true) :
    digits u n s = some (Nat.ofDigitChars 10 s n) := by
  induction s generalizing n with
  | nil => rfl
  | cons c s ih =>
    have digit := all c mem_cons_self
    have plain : c ≠ '_' := by
      rintro rfl
      exact absurd digit (by decide)
    rw [digits, u.decimal_digit c digit, Option.bind_some,
      ih _ fun d mem => all d (mem_cons_of_mem c mem), Nat.ofDigitChars_cons]
    intro d rest equal
    exact absurd equal plain

theorem number_toDigits (n : Nat) : number u (Nat.toDigits 10 n) = some n := by
  have all : ∀ c ∈ Nat.toDigits 10 n, c.isDigit = true := fun c mem => isDigit_toDigits mem
  have value := Nat.ofDigitChars_ten_toDigits (n := n)
  cases found : Nat.toDigits 10 n with
  | nil => exact absurd found Nat.toDigits_ne_nil
  | cons c s =>
    rw [found] at all value
    have first := digits_ofDigitChars (u := u) 0 all
    rw [number, u.decimal_digit c (all c mem_cons_self), Option.bind_some,
      digits_ofDigitChars _ fun d mem => all d (mem_cons_of_mem c mem)]
    rw [Nat.ofDigitChars_cons, Nat.mul_zero, Nat.zero_add] at value
    rw [value]

/-- What is written is read back. -/
theorem int_str (n : Int) : int u (str n) = some n := by
  cases n with
  | ofNat n =>
    have all : ∀ c ∈ Nat.toDigits 10 n, c.isDigit = true := fun c mem => isDigit_toDigits mem
    have read := number_toDigits (u := u) n
    rw [int, str, strip_eq_self fun c mem => u.isSpace_digit c (all c mem)]
    cases found : Nat.toDigits 10 n with
    | nil => exact absurd found Nat.toDigits_ne_nil
    | cons c s =>
      rw [found] at all read
      split
      · rename_i equal
        rw [(List.cons.inj equal).1] at all
        exact absurd (all _ mem_cons_self) (by decide)
      · rename_i equal
        rw [(List.cons.inj equal).1] at all
        exact absurd (all _ mem_cons_self) (by decide)
      · rw [read]
        rfl
  | negSucc n =>
    rw [int, str, strip_eq_self]
    · show (number u (Nat.toDigits 10 (n + 1))).map _ = _
      rw [number_toDigits]
      rfl
    · intro c mem
      cases mem_cons.mp mem with
      | inl minus => rw [minus, u.isSpace_minus]
      | inr mem => exact u.isSpace_digit c (isDigit_toDigits mem)

end Nmap.Base.PyInt
