import Nmap.Base.CString

/-!
# String literals

What stands between the quotes of a string literal: characters that stand for themselves, and
escapes behind a backslash. An octal escape has up to three digits and a hexadecimal one has two;
any other character than a letter or a digit stands for itself behind a backslash.
-/

namespace Nmap.Base

set_option maxRecDepth 4000

/-- A digit of `%02x` -/
def lowerHexDigit (n : UInt8) : UInt8 := if n < 10 then 0x30 + n else 0x57 + n

/-- `%02x` -/
def lowerHex (c : UInt8) : Bytes := [lowerHexDigit (c / 16), lowerHexDigit (c % 16)]

def readHexPair : Bytes → Option (UInt8 × Bytes)
  | a :: b :: rest =>
    if isXDigit a && isXDigit b then some (UInt8.ofNat (digitsValue 16 [a, b]), rest) else none
  | _ => none

def readEscape : Bytes → Option (UInt8 × Bytes)
  | [] => none
  | e :: rest =>
    if e = 0x78 then readHexPair rest
    else if isDigitOf 8 e then
      let digits := ((e :: rest).takeWhile (isDigitOf 8)).take 3
      some (UInt8.ofNat (digitsValue 8 digits), (e :: rest).drop digits.length)
    else if e = 0x6e then some (0x0a, rest)
    else if e = 0x72 then some (0x0d, rest)
    else if e = 0x74 then some (0x09, rest)
    else if isAlnum e then none
    else some (e, rest)

def readLiteralChar : Bytes → Option (UInt8 × Bytes)
  | [] => none
  | c :: rest => if c = 0x5c then readEscape rest else some (c, rest)

/-- Reads characters up to a closing quote, so many of them at most. -/
def readLiteral : Nat → Bytes → Option (Bytes × Bytes)
  | 0, _ => none
  | turns + 1, text =>
    if text.head? = some 0x22 then some ([], text.tail)
    else do
      let (c, text) ← readLiteralChar text
      let (s, text) ← readLiteral turns text
      some (c :: s, text)

variable {c e : UInt8} {rest : Bytes}

theorem readLiteralChar_plain (other : c ≠ 0x5c) : readLiteralChar (c :: rest) = some (c, rest) :=
  if_neg other

theorem digitValue_lowerHexDigit :
    ∀ n : Fin 16, digitValue (lowerHexDigit (UInt8.ofNat n)) = some n.val := by
  decide

theorem readEscape_hex (c : UInt8) :
    readEscape (0x78 :: (lowerHex c ++ rest)) = some (c, rest) := by
  have low : c.toNat % 16 < 16 := Nat.mod_lt _ (by decide)
  have high : c.toNat / 16 < 16 := Nat.div_lt_of_lt_mul c.toNat_lt
  have digit (n : Nat) (small : n < 16) :
      digitValue (lowerHexDigit (UInt8.ofNat n)) = some n := digitValue_lowerHexDigit ⟨n, small⟩
  have isDigit (n : Nat) (small : n < 16) : isXDigit (lowerHexDigit (UInt8.ofNat n)) = true := by
    rw [isXDigit, isDigitOf, digit n small]
    exact decide_eq_true small
  have parts : lowerHex c = [lowerHexDigit (UInt8.ofNat (c.toNat / 16)),
      lowerHexDigit (UInt8.ofNat (c.toNat % 16))] := by
    rw [lowerHex, UInt8.ofNat_div c.toNat_lt (by decide), UInt8.ofNat_mod c.toNat_lt (by decide),
      UInt8.ofNat_toNat]
    rfl
  rw [parts]
  show (if isXDigit _ && isXDigit _ then some (UInt8.ofNat (digitsValue 16 _), rest) else none) = _
  rw [isDigit _ high, isDigit _ low, digitsValue, List.foldl_cons, List.foldl_cons, digit _ high,
    digit _ low]
  show some (UInt8.ofNat ((0 * 16 + c.toNat / 16) * 16 + c.toNat % 16), rest) = _
  rw [Nat.zero_mul, Nat.zero_add, Nat.div_add_mod', UInt8.ofNat_toNat]

theorem readEscape_zero (ends : rest.head?.any (isDigitOf 8) = false) :
    readEscape (0x30 :: rest) = some (0, rest) := by
  have none : rest.takeWhile (isDigitOf 8) = [] := by
    cases rest with
    | nil => rfl
    | cons c rest => exact List.takeWhile_cons_of_neg (by simpa using ends)
  rw [readEscape, if_neg (by decide), if_pos (by decide),
    List.takeWhile_cons_of_pos (by decide), none]
  rfl

theorem readEscape_other (other : isAlnum e = false) : readEscape (e :: rest) = some (e, rest) := by
  have ne {d : UInt8} (alnum : isAlnum d = true) : e ≠ d := by
    rintro rfl
    rw [other] at alnum
    cases alnum
  have digit : isDigitOf 8 e = false :=
    isDigitOf_of_not (by decide) (Bool.or_eq_false_iff.mp (Bool.or_eq_false_iff.mp other).1).1
  rw [readEscape, if_neg (ne rfl), digit, if_neg Bool.false_ne_true, if_neg (ne rfl),
    if_neg (ne rfl), if_neg (ne rfl), other, if_neg Bool.false_ne_true]

theorem readLiteral_cons {turns : Nat} {text : Bytes} (open_ : text.head? ≠ some 0x22)
    (reads : readLiteralChar text = some (c, rest)) :
    readLiteral (turns + 1) text =
      (readLiteral turns rest).map fun read => (c :: read.1, read.2) := by
  rw [readLiteral, if_neg open_, reads]
  show (readLiteral turns rest >>= fun read => some (c :: read.1, read.2)) = _
  cases readLiteral turns rest
  · rfl
  · rfl

theorem readLiteral_quote {turns : Nat} :
    readLiteral (turns + 1) (0x22 :: rest) = some ([], rest) := rfl

end Nmap.Base
