import Nmap.Base.Utf8
import Mathlib.Tactic.IntervalCases

/-!
# C strings

A C string is a list of bytes without a zero byte. The character classes are those of the
C locale, and `strtol` returns the number with what is left of the text.
-/

namespace Nmap.Base

open List

set_option maxRecDepth 4000

/-- A C string -/
structure CString where
  bytes : Bytes
  nonzero : 0 ∉ bytes

/-! ## Character classes -/

def isSpace (c : UInt8) : Bool := c = 0x20 || (0x09 ≤ c && c ≤ 0x0d)

def isDigit (c : UInt8) : Bool := 0x30 ≤ c && c ≤ 0x39

def isLower (c : UInt8) : Bool := 0x61 ≤ c && c ≤ 0x7a

def isAlnum (c : UInt8) : Bool := isDigit c || isLower c || (0x41 ≤ c && c ≤ 0x5a)

def isPunct (c : UInt8) : Bool := 0x21 ≤ c && c ≤ 0x7e && !isAlnum c

/-- The value of a digit, in the bases up to 36 -/
def digitValue (c : UInt8) : Option Nat :=
  if 0x30 ≤ c && c ≤ 0x39 then some (c.toNat - 0x30)
  else if 0x61 ≤ c && c ≤ 0x7a then some (c.toNat - 0x61 + 10)
  else if 0x41 ≤ c && c ≤ 0x5a then some (c.toNat - 0x41 + 10)
  else none

def isDigitOf (base : Nat) (c : UInt8) : Bool :=
  match digitValue c with
  | some d => d < base
  | none => false

def isXDigit (c : UInt8) : Bool := isDigitOf 16 c

/-! ## Numbers -/

def digitsValue (base : Nat) (digits : Bytes) : Nat :=
  digits.foldl (fun n c => n * base + (digitValue c).getD 0) 0

def readSign : Bytes → Bool × Bytes
  | [] => (false, [])
  | c :: s => if c = 0x2d then (true, s) else if c = 0x2b then (false, s) else (false, c :: s)

/-- The prefix `0x`, if digits follow -/
def dropHexPrefix : Bytes → Bytes
  | c :: x :: d :: s =>
    if c = 0x30 && (x = 0x78 || x = 0x58) && isXDigit d then d :: s else c :: x :: d :: s
  | s => s

/-- A value that does not fit a `long` gives the nearest one that does. -/
def clampLong (n : Int) : Int := max (-2 ^ 63) (min (2 ^ 63 - 1) n)

/-- `strtol`. Without digits the end is the beginning. -/
def strtol (base : Nat) (s : Bytes) : Int × Bytes :=
  let (negative, t) := readSign (s.dropWhile isSpace)
  let t := if base = 16 then dropHexPrefix t else t
  let digits := t.takeWhile (isDigitOf base)
  if digits.isEmpty then (0, s)
  else
    let n : Int := digitsValue base digits
    (clampLong (if negative then -n else n), t.dropWhile (isDigitOf base))

theorem takeWhile_all {α : Type} {p : α → Bool} {front rest : List α}
    (all : ∀ c ∈ front, p c = true) (stop : ∀ c ∈ rest.head?, p c = false) :
    (front ++ rest).takeWhile p = front ∧ (front ++ rest).dropWhile p = rest := by
  induction front with
  | nil =>
    cases rest with
    | nil => exact ⟨rfl, rfl⟩
    | cons c rest =>
      have no := stop c rfl
      exact ⟨by simp [no], by simp [no]⟩
  | cons c front ih =>
    have yes := all c mem_cons_self
    obtain ⟨take, drop⟩ := ih fun c mem => all c (mem_cons_of_mem _ mem)
    exact ⟨by simp [yes, take], by simp [yes, drop]⟩

variable {c : UInt8}

theorem dropHexPrefix_of_ne (plain : c ≠ 0x30) (s : Bytes) :
    dropHexPrefix (c :: s) = c :: s := by
  rcases s with _ | ⟨x, _ | ⟨d, s⟩⟩
  · rfl
  · rfl
  · rw [dropHexPrefix, if_neg (by simp [plain])]

variable {digits rest : Bytes}

theorem strtol_signed {base : Nat} {s : Bytes} {negative : Bool}
    (signed : readSign (s.dropWhile isSpace) = (negative, digits ++ rest))
    (plain : base = 16 → dropHexPrefix (digits ++ rest) = digits ++ rest) (some : digits ≠ [])
    (all : ∀ d ∈ digits, isDigitOf base d = true)
    (stop : ∀ d ∈ rest.head?, isDigitOf base d = false) :
    strtol base s = (clampLong (if negative then -(digitsValue base digits : Int)
      else digitsValue base digits), rest) := by
  have hex : (if base = 16 then dropHexPrefix (digits ++ rest) else digits ++ rest) =
      digits ++ rest := by
    split
    · next h =>
        exact plain h
    · rfl
  obtain ⟨take, drop⟩ := takeWhile_all all stop
  unfold strtol
  rw [signed]
  dsimp only
  rw [hex, take, drop, if_neg (by simpa using some)]

theorem strtol_digits {base : Nat} (all : ∀ d ∈ c :: digits, isDigitOf base d = true)
    (stop : ∀ d ∈ rest.head?, isDigitOf base d = false) (plain : base = 16 → c ≠ 0x30)
    (bare : isSpace c = false ∧ c ≠ 0x2d ∧ c ≠ 0x2b) :
    strtol base (c :: digits ++ rest) = (clampLong (digitsValue base (c :: digits)), rest) := by
  have sign : readSign ((c :: digits ++ rest).dropWhile isSpace) =
      (false, c :: digits ++ rest) := by
    rw [cons_append, dropWhile_cons_of_neg (by simp [bare.1]), readSign,
      if_neg bare.2.1, if_neg bare.2.2]
  exact strtol_signed sign (fun h => dropHexPrefix_of_ne (plain h) _) (cons_ne_nil _ _) all
    stop

theorem readSign_suffix (s : Bytes) : (readSign s).2 <:+ s := by
  rcases s with _ | ⟨c, s⟩
  · exact suffix_refl _
  · rw [readSign]
    split_ifs
    · exact suffix_cons c s
    · exact suffix_cons c s
    · exact suffix_refl _

theorem dropHexPrefix_suffix (s : Bytes) : dropHexPrefix s <:+ s := by
  unfold dropHexPrefix
  split
  · next c x d s =>
      split
      · exact (suffix_cons x (d :: s)).trans (suffix_cons c _)
      · exact suffix_refl _
  · exact suffix_refl _

/-- `strtol` leaves an end of the text, and a shorter one if it returns anything but 0. -/
theorem strtol_suffix (base : Nat) (s : Bytes) :
    (strtol base s).2 <:+ s ∧
      ((strtol base s).1 ≠ 0 → (strtol base s).2.length < s.length) := by
  have front : (if base = 16 then dropHexPrefix (readSign (s.dropWhile isSpace)).2
      else (readSign (s.dropWhile isSpace)).2) <:+ s := by
    have signed := (readSign_suffix (s.dropWhile isSpace)).trans (dropWhile_suffix _)
    split
    · exact (dropHexPrefix_suffix _).trans signed
    · exact signed
  unfold strtol
  dsimp only
  generalize (if base = 16 then dropHexPrefix (readSign (s.dropWhile isSpace)).2
    else (readSign (s.dropWhile isSpace)).2) = t at front
  split
  · exact ⟨suffix_refl _, fun moved => absurd rfl moved⟩
  · next digits =>
      refine ⟨(dropWhile_suffix _).trans front, fun _ => ?_⟩
      have whole := congrArg List.length
        (takeWhile_append_dropWhile (p := isDigitOf base) (l := t))
      have some : (t.takeWhile (isDigitOf base)).length ≠ 0 := by
        simpa [length_eq_zero_iff] using digits
      have shorter := front.length_le
      rw [length_append] at whole
      show (t.dropWhile (isDigitOf base)).length < s.length
      omega

/-- The base that `strtol` finds for itself where it is given 0 -/
def autoBase (s : Bytes) : Nat :=
  let t := (readSign (s.dropWhile isSpace)).2
  if dropHexPrefix t ≠ t then 16 else if t.head? = some 0x30 then 8 else 10

/-- `strtol` with base 0 -/
def strtolAuto (s : Bytes) : Int × Bytes := strtol (autoBase s) s

/-! ## Unsigned decimals -/

/-- `%lu` of `printf` -/
def decimal (n : Nat) : Bytes := (Nat.toDigits 10 n).map fun c => UInt8.ofNat c.toNat

/-- `%0<width>lu` of `printf` -/
def zeroPadded (width n : Nat) : Bytes := List.leftpad width 0x30 (decimal n)

/-- `%lu` of `scanf`: white space, a sign and digits. A value that does not fit is `ULONG_MAX`,
and a negative one wraps. -/
def scanUnsigned (s : Bytes) : Option (Nat × Bytes) :=
  let (negative, t) := readSign (s.dropWhile isSpace)
  let digits := t.takeWhile isDigit
  if digits.isEmpty then none
  else
    let n := digitsValue 10 digits
    let value := if 2 ^ 64 ≤ n then 2 ^ 64 - 1 else if negative then (2 ^ 64 - n) % 2 ^ 64 else n
    some (value, t.dropWhile isDigit)

variable {n : Nat}

theorem toDigits_code {c : Char} (mem : c ∈ Nat.toDigits 10 n) :
    0x30 ≤ c.toNat ∧ c.toNat ≤ 0x39 := by
  have digit := Nat.isDigit_of_mem_toDigits (by decide) (by decide) mem
  simp only [Char.isDigit, Bool.and_eq_true, decide_eq_true_eq, ge_iff_le] at digit
  exact digit

theorem isDigit_ofNat (bounds : 0x30 ≤ n ∧ n ≤ 0x39) :
    isDigit (UInt8.ofNat n) = true := by
  obtain ⟨low, high⟩ := bounds
  interval_cases n <;> rfl

theorem decimal_digits : ∀ c ∈ decimal n, isDigit c = true := by
  intro c mem
  obtain ⟨d, code, rfl⟩ := mem_map.mp mem
  exact isDigit_ofNat (toDigits_code code)

theorem decimal_ne_nil (n : Nat) : decimal n ≠ [] := by
  simp [decimal, Nat.toDigits_ne_nil]

theorem decimal_length_le {k : Nat} (pos : 0 < k) (bound : n < 10 ^ k) :
    (decimal n).length ≤ k := by
  rw [decimal, length_map]
  exact (Nat.length_toDigits_le_iff (by decide) pos).mpr bound

theorem digitValue_ofNat (bounds : 0x30 ≤ n ∧ n ≤ 0x39) :
    (digitValue (UInt8.ofNat n)).getD 0 = n - 0x30 := by
  obtain ⟨low, high⟩ := bounds
  interval_cases n <;> rfl

/-- The digits that `%lu` writes stand for the number. -/
theorem digitsValue_decimal (n : Nat) : digitsValue 10 (decimal n) = n := by
  have each : ∀ (l : List Char) (start : Nat), (∀ c ∈ l, 0x30 ≤ c.toNat ∧ c.toNat ≤ 0x39) →
      (l.map fun c => UInt8.ofNat c.toNat).foldl
        (fun n c => n * 10 + (digitValue c).getD 0) start = Nat.ofDigitChars 10 l start := by
    intro l
    induction l with
    | nil => intro start _; rfl
    | cons c l ih =>
      intro start codes
      rw [map_cons, foldl_cons, ih _ fun d mem => codes d (mem_cons_of_mem _ mem),
        digitValue_ofNat (codes c mem_cons_self), Nat.mul_comm]
      rfl
  have read := each (Nat.toDigits 10 n) 0 fun c mem => toDigits_code mem
  rw [Nat.ofDigitChars_ten_toDigits] at read
  exact read

/-- In a base up to ten only decimal digits are digits. -/
theorem isDigitOf_of_not {base : Nat} (small : base ≤ 10) (other : isDigit c = false) :
    isDigitOf base c = false := by
  have large : ∀ d, digitValue c = some d → 10 ≤ d := by
    intro d value
    have letter : ¬ (0x30 ≤ c && c ≤ 0x39) = true := ne_true_of_eq_false other
    rw [digitValue, if_neg letter] at value
    split_ifs at value
    · cases value
      omega
    · cases value
      omega
  rw [isDigitOf]
  cases value : digitValue c with
  | none => rfl
  | some d => exact decide_eq_false (Nat.not_lt.mpr (small.trans (large d value)))

theorem digitValue_digit (digit : isDigit c = true) : digitValue c = some (c.toNat - 0x30) :=
  if_pos digit

theorem isDigitOf_ten (c : UInt8) (digit : isDigit c = true) : isDigitOf 10 c = true := by
  have high : c.toNat ≤ 0x39 := of_decide_eq_true (Bool.and_eq_true_iff.mp digit).2
  rw [isDigitOf, digitValue_digit digit]
  exact decide_eq_true (by omega)

theorem decimal_head (positive : 0 < n) :
    ∃ c digits, decimal n = c :: digits ∧ c ≠ 0x30 := by
  induction n using Nat.strongRecOn with
  | ind n ih =>
    unfold decimal
    rw [Nat.toDigits_eq_if (by decide)]
    split
    · next small =>
        refine ⟨_, [], rfl, ?_⟩
        interval_cases n <;> decide
    · obtain ⟨c, digits, front, other⟩ := ih (n / 10) (by omega) (by omega)
      unfold decimal at front
      rw [map_append, front]
      exact ⟨c, _, rfl, other⟩

theorem digitsValue_leftpad (width : Nat) (digits : Bytes) :
    digitsValue 10 (List.leftpad width 0x30 digits) = digitsValue 10 digits := by
  have zeros : ∀ k, (List.replicate k (0x30 : UInt8)).foldl
      (fun n c => n * 10 + (digitValue c).getD 0) 0 = 0 := by
    intro k
    induction k with
    | zero => rfl
    | succ k ih =>
      rw [replicate_succ, foldl_cons]
      exact ih
  rw [digitsValue, List.leftpad, foldl_append, zeros]
  rfl

theorem isDigit_bare (digit : isDigit c = true) :
    isSpace c = false ∧ c ≠ 0x2d ∧ c ≠ 0x2b := by
  simp only [isDigit, Bool.and_eq_true, decide_eq_true_eq, UInt8.le_iff_toNat_le] at digit
  obtain ⟨low, high⟩ := digit
  simp only [UInt8.reduceToNat] at low high
  refine ⟨?_, ?_, ?_⟩
  · simp only [isSpace, Bool.or_eq_false_iff, decide_eq_false_iff_not, Bool.and_eq_false_iff,
      ← UInt8.toNat_inj, UInt8.le_iff_toNat_le, UInt8.reduceToNat]
    omega
  · rintro rfl
    simp at low
  · rintro rfl
    simp at low

/-- What `%lu` wrote, `%lu` reads. -/
theorem scanUnsigned_digits (nonempty : digits ≠ []) (all : ∀ c ∈ digits, isDigit c = true)
    (stop : ∀ c ∈ rest.head?, isDigit c = false) (fits : digitsValue 10 digits < 2 ^ 64) :
    scanUnsigned (digits ++ rest) = some (digitsValue 10 digits, rest) := by
  obtain ⟨take, drop⟩ := takeWhile_all all stop
  obtain ⟨c, digits, rfl⟩ := exists_cons_of_ne_nil nonempty
  have digit := all c mem_cons_self
  have bare : isSpace c = false ∧ c ≠ 0x2d ∧ c ≠ 0x2b := isDigit_bare digit
  have spaces : (c :: digits ++ rest).dropWhile isSpace = c :: digits ++ rest := by
    simp [bare.1]
  have sign : readSign (c :: digits ++ rest) = (false, c :: digits ++ rest) := by
    rw [cons_append, readSign, if_neg bare.2.1, if_neg bare.2.2]
  unfold scanUnsigned
  rw [spaces, sign]
  dsimp only
  rw [take, drop, if_neg (by simp), if_neg (by omega)]
  rfl

/-! ## Signed decimals -/

/-- `%d` of `printf` -/
def signedDecimal (n : Int) : Bytes :=
  if n < 0 then 0x2d :: decimal n.natAbs else decimal n.natAbs

theorem signedDecimal_cons (n : Int) : ∃ c s, signedDecimal n = c :: s ∧
    (c = 0x2d ∨ isDigit c = true) := by
  unfold signedDecimal
  split
  · exact ⟨_, _, rfl, .inl rfl⟩
  · cases digits : decimal n.natAbs with
    | nil => exact absurd digits (decimal_ne_nil _)
    | cons c s =>
      refine ⟨c, s, rfl, .inr (decimal_digits (n := n.natAbs) c ?_)⟩
      rw [digits]
      exact mem_cons_self

theorem readSign_signedDecimal (n : Int) (rest : Bytes) :
    readSign ((signedDecimal n ++ rest).dropWhile isSpace) =
      (decide (n < 0), decimal n.natAbs ++ rest) := by
  unfold signedDecimal
  by_cases negative : n < 0
  · rw [if_pos negative, cons_append, dropWhile_cons_of_neg (by decide), readSign,
      if_pos rfl, decide_eq_true negative]
  · rw [if_neg negative, decide_eq_false negative]
    cases digits : decimal n.natAbs with
    | nil => exact absurd digits (decimal_ne_nil _)
    | cons c s =>
      have bare := isDigit_bare (decimal_digits (n := n.natAbs) c (by
        rw [digits]
        exact mem_cons_self))
      rw [cons_append, dropWhile_cons_of_neg (by simp [bare.1]), readSign,
        if_neg bare.2.1, if_neg bare.2.2]

theorem clampLong_of_long {n : Int} (low : -2 ^ 63 ≤ n) (high : n < 2 ^ 63) : clampLong n = n := by
  unfold clampLong
  omega

/-- What `%d` wrote, `strtol` reads, also where it finds the base for itself. -/
theorem strtolAuto_signedDecimal {n : Int} (low : -2 ^ 63 ≤ n) (high : n < 2 ^ 63)
    (stop : ∀ c ∈ rest.head?, isDigit c = false ∧ c ≠ 0x78 ∧ c ≠ 0x58) :
    strtolAuto (signedDecimal n ++ rest) = (n, rest) := by
  have signed := readSign_signedDecimal n rest
  have value : (if decide (n < 0) = true then -(n.natAbs : Int) else n.natAbs) = n := by
    by_cases negative : n < 0
    · rw [if_pos (decide_eq_true negative)]
      omega
    · rw [if_neg (by simpa using negative)]
      omega
  unfold strtolAuto
  rcases Nat.eq_zero_or_pos n.natAbs with zero | positive
  · -- 0 is read as an octal number
    have base : autoBase (signedDecimal n ++ rest) = 8 := by
      unfold autoBase
      rw [signed, zero]
      have same : dropHexPrefix (0x30 :: rest) = 0x30 :: rest := by
        rcases rest with _ | ⟨x, _ | ⟨d, s⟩⟩
        · rfl
        · rfl
        · have other := (stop x rfl).2
          rw [dropHexPrefix, if_neg (by simp [other])]
      show (if dropHexPrefix (0x30 :: rest) ≠ 0x30 :: rest then 16
        else if (0x30 :: rest).head? = some 0x30 then 8 else 10) = 8
      rw [if_neg (by simp [same])]
      rfl
    have octal : ∀ d ∈ decimal n.natAbs, isDigitOf 8 d = true := by
      rw [zero]
      intro d mem
      rw [mem_singleton.mp mem]
      rfl
    rw [base, strtol_signed signed (by simp) (decimal_ne_nil _) octal
      fun c head => isDigitOf_of_not (by decide) (stop c head).1]
    have none : digitsValue 8 (decimal n.natAbs) = n.natAbs := by
      rw [zero]
      rfl
    rw [none, value, clampLong_of_long low high]
  · obtain ⟨c, digits, decimal_eq, other⟩ := decimal_head positive
    have base : autoBase (signedDecimal n ++ rest) = 10 := by
      unfold autoBase
      rw [signed, decimal_eq]
      show (if dropHexPrefix (c :: (digits ++ rest)) ≠ c :: (digits ++ rest) then 16
        else if (c :: (digits ++ rest)).head? = some 0x30 then 8 else 10) = 10
      rw [dropHexPrefix_of_ne other, if_neg (by simp), if_neg (by simpa using other)]
    rw [base, strtol_signed signed (by simp) (decimal_ne_nil _)
      (fun d mem => isDigitOf_ten d (decimal_digits d mem))
      fun c head => isDigitOf_of_not (Nat.le_refl 10) (stop c head).1]
    rw [digitsValue_decimal, value, clampLong_of_long low high]

end Nmap.Base
