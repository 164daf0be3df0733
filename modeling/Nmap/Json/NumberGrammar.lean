import Nmap.Base.Munch
import Nmap.Json.Value

/-!
# The numbers of JSON (`json.cc`)

The grammar of RFC 8259 for numbers, as a language over bytes, and the four readers of which
`json_is_number` is made: each takes what its part of the grammar says, and the whole takes
nothing else (`jsonIsNumber_iff`).
-/

namespace Nmap.Json

open Nmap.Base Nmap.Base.Words List

open Computability

/-! ## The grammar -/

def byte (b : UInt8) : Language UInt8 := letter (· == b)

/-- `digit1-9` -/
def isDigit19 (c : UInt8) : Bool := c ≥ 0x31 && c ≤ 0x39

/-- `minus = %x2D` -/
def minusWord : Language UInt8 := byte 0x2d

/-- `int = zero / ( digit1-9 *DIGIT )` -/
def intWord : Language UInt8 := byte 0x30 + letter isDigit19 * (letter isDigit)∗

/-- `frac = decimal-point 1*DIGIT` -/
def fracWord : Language UInt8 := byte 0x2e * oneOrMore isDigit

/-- `exp = e [ minus / plus ] 1*DIGIT` -/
def expWord : Language UInt8 :=
  (byte 0x65 + byte 0x45) * (opt (byte 0x2d + byte 0x2b) * oneOrMore isDigit)

/-- `number = [ minus ] int [ frac ] [ exp ]` -/
def numberWord : Language UInt8 := opt minusWord * (intWord * (opt fracWord * opt expWord))

/-! ## Its parts -/

variable {w : Bytes}

theorem mem_byte {b : UInt8} : w ∈ byte b ↔ w = [b] := by
  rw [byte, mem_letter]
  simp

/-- After a number: no byte that would go on with it -/
def goesOn (c : UInt8) : Bool := isDigit c || c == 0x2e || c == 0x65 || c == 0x45

def numberSign (s : Bytes) : Option Bytes :=
  some (if s.head? = some 0x2d then s.drop 1 else s)

theorem jsonIsNumber_eq (s : Bytes) :
    jsonIsNumber s = true ↔
      ((numberSign s).bind fun s => (numberInt s).bind fun s =>
        (numberFrac s).bind numberExp) = some [] := by
  simp only [jsonIsNumber, numberSign, Option.bind_some]
  split
  · rename_i rest parts
    rw [parts, List.isEmpty_iff, Option.some.injEq]
  · rename_i parts
    rw [parts]
    simp

theorem sign_reads : ReadsWords numberSign (opt minusWord) (NoHead (· == 0x2d)) where
  taken := by
    intro s rest read
    cases read
    split
    · rename_i minus
      obtain ⟨tail, rfl⟩ := List.head?_eq_some_iff.mp minus
      exact ⟨[0x2d], mem_opt.mpr (Or.inr (mem_byte.mpr rfl)), rfl⟩
    · exact ⟨[], mem_opt.mpr (Or.inl rfl), rfl⟩
  takes := by
    intro w rest mem ends
    rcases mem_opt.mp mem with rfl | minus
    · have other : rest.head? ≠ some 0x2d := by
        intro first
        have := ends _ first
        simp at this
      rw [numberSign, nil_append, if_neg other]
    · rw [mem_byte.mp minus]
      rfl

theorem digit_of_digit19 {c : UInt8} (digit : isDigit19 c = true) : isDigit c = true := by
  simp only [isDigit19, isDigit, Bool.and_eq_true, decide_eq_true_eq] at digit ⊢
  exact ⟨UInt8.le_trans (by decide) digit.1, digit.2⟩

theorem int_reads : ReadsWords numberInt intWord (NoHead isDigit) where
  taken := by
    intro s rest read
    cases s with
    | nil => cases read
    | cons c s =>
      rw [numberInt] at read
      split at read
      · rename_i zero
        cases read
        refine ⟨[0x30], ?_, by rw [zero]; rfl⟩
        exact mem_either.mpr (Or.inl (mem_byte.mpr rfl))
      · split at read
        · rename_i digit
          cases read
          refine ⟨(c :: s).takeWhile isDigit, ?_, takeWhile_append_dropWhile.symm⟩
          have first : isDigit c = true := digit_of_digit19 digit
          rw [takeWhile_cons_of_pos first]
          refine mem_either.mpr (Or.inr ?_)
          exact Language.append_mem_mul (a := [c]) ⟨c, digit, rfl⟩
            (mem_many.mpr fun b mem => mem_takeWhile_imp mem)
        · cases read
  takes := by
    intro w rest mem ends
    rcases mem_either.mp mem with zero | nonzero
    · rw [mem_byte.mp zero]
      rfl
    · obtain ⟨first, ⟨c, digit, rfl⟩, digits, many, rfl⟩ := Language.mem_mul.mp nonzero
      have notZero : c ≠ 0x30 := by
        rintro rfl
        cases digit
      have whole : (c :: (digits ++ rest)).dropWhile isDigit = rest := by
        rw [dropWhile_cons_of_pos (digit_of_digit19 digit)]
        exact dropWhile_append (mem_many.mp many) ends
      show numberInt (c :: (digits ++ rest)) = some rest
      rw [numberInt, if_neg notZero]
      show (if isDigit19 c = true then _ else _) = _
      rw [if_pos digit, whole]

theorem digits_read : ReadsWords numberDigits (oneOrMore isDigit) (NoHead isDigit) where
  taken := by
    intro s rest read
    cases s with
    | nil => cases read
    | cons c s =>
      rw [numberDigits] at read
      split at read
      · rename_i digit
        cases read
        refine ⟨(c :: s).takeWhile isDigit, ?_, takeWhile_append_dropWhile.symm⟩
        rw [takeWhile_cons_of_pos digit]
        exact mem_oneOrMore.mpr ⟨c, _, rfl, digit, fun b mem => mem_takeWhile_imp mem⟩
      · cases read
  takes := by
    intro w rest mem ends
    obtain ⟨c, digits, rfl, digit, all⟩ := mem_oneOrMore.mp mem
    have whole : (c :: (digits ++ rest)).dropWhile isDigit = rest := by
      rw [dropWhile_cons_of_pos digit]
      exact dropWhile_append all ends
    show numberDigits (c :: (digits ++ rest)) = some rest
    rw [numberDigits, if_pos digit, whole]

theorem frac_reads :
    ReadsWords numberFrac (opt fracWord) (NoHead fun c => isDigit c || c == 0x2e) where
  taken := by
    intro s rest read
    cases s with
    | nil =>
      cases read
      exact ⟨[], mem_opt.mpr (Or.inl rfl), rfl⟩
    | cons c s =>
      rw [numberFrac] at read
      split at read
      · rename_i point
        obtain ⟨w, digits, rfl⟩ := digits_read.taken read
        refine ⟨0x2e :: w, mem_opt.mpr (Or.inr ?_), by rw [point]; rfl⟩
        exact Language.append_mem_mul (a := [0x2e]) (mem_byte.mpr rfl) digits
      · cases read
        exact ⟨[], mem_opt.mpr (Or.inl rfl), rfl⟩
  takes := by
    intro w rest mem ends
    rcases mem_opt.mp mem with rfl | frac
    · cases rest with
      | nil => rfl
      | cons c rest =>
        have other : c ≠ 0x2e := by
          rintro rfl
          have := noHead_cons.mp ends
          simp at this
        show numberFrac (c :: rest) = _
        rw [numberFrac, if_neg other]
    · obtain ⟨point, isPoint, digits, some, rfl⟩ := Language.mem_mul.mp frac
      rw [mem_byte.mp isPoint]
      show numberDigits (digits ++ rest) = _
      apply digits_read.takes some
      exact ends.mono fun c digit => by rw [digit]; rfl

/-- The sign of an exponent and its digits -/
def exponent : Bytes → Option Bytes
  | [] => none
  | c :: s => if c = 0x2b ∨ c = 0x2d then numberDigits s else numberDigits (c :: s)

theorem numberExp_cons (c : UInt8) (s : Bytes) :
    numberExp (c :: s) = if c = 0x65 ∨ c = 0x45 then exponent s else some (c :: s) := by
  cases s with
  | nil => rfl
  | cons d s => rfl

variable {rest : Bytes}

theorem exponent_taken {s : Bytes} (read : exponent s = some rest) :
    ∃ w ∈ opt (byte 0x2d + byte 0x2b) * oneOrMore isDigit, s = w ++ rest := by
  cases s with
  | nil => cases read
  | cons c s =>
    rw [exponent] at read
    split at read
    · rename_i sign
      obtain ⟨w, digits, rfl⟩ := digits_read.taken read
      refine ⟨[c] ++ w, Language.append_mem_mul (mem_opt.mpr (Or.inr ?_)) digits, rfl⟩
      rcases sign with plus | minus
      · exact mem_either.mpr (Or.inr (mem_byte.mpr (by rw [plus])))
      · exact mem_either.mpr (Or.inl (mem_byte.mpr (by rw [minus])))
    · obtain ⟨w, digits, same⟩ := digits_read.taken read
      exact ⟨[] ++ w, Language.append_mem_mul (mem_opt.mpr (Or.inl rfl)) digits, same⟩

theorem exp_reads : ReadsWords numberExp (opt expWord) (NoHead goesOn) where
  taken := by
    intro s rest read
    cases s with
    | nil =>
      cases read
      exact ⟨[], mem_opt.mpr (Or.inl rfl), rfl⟩
    | cons c s =>
      rw [numberExp_cons] at read
      split at read
      · rename_i e
        obtain ⟨w, exponent, rfl⟩ := exponent_taken read
        refine ⟨[c] ++ w, mem_opt.mpr (Or.inr (Language.append_mem_mul ?_ exponent)), rfl⟩
        rcases e with lower | upper
        · exact mem_either.mpr (Or.inl (mem_byte.mpr (by rw [lower])))
        · exact mem_either.mpr (Or.inr (mem_byte.mpr (by rw [upper])))
      · cases read
        exact ⟨[], mem_opt.mpr (Or.inl rfl), rfl⟩
  takes := by
    intro w rest mem ends
    rcases mem_opt.mp mem with rfl | exp
    · cases rest with
      | nil => rfl
      | cons c rest =>
        have other : ¬ (c = 0x65 ∨ c = 0x45) := by
          have outside := noHead_cons.mp ends
          simp only [goesOn, Bool.or_eq_false_iff, beq_eq_false_iff_ne] at outside
          exact not_or.mpr ⟨outside.1.2, outside.2⟩
        show numberExp (c :: rest) = _
        rw [numberExp_cons, if_neg other]
    · obtain ⟨letter, isLetter, exponent, signed, rfl⟩ := Language.mem_mul.mp exp
      obtain ⟨e, isE, rfl⟩ : ∃ e : UInt8, (e = 0x65 ∨ e = 0x45) ∧ letter = [e] := by
        rcases mem_either.mp isLetter with lower | upper
        · exact ⟨0x65, Or.inl rfl, mem_byte.mp lower⟩
        · exact ⟨0x45, Or.inr rfl, mem_byte.mp upper⟩
      have noDigit : NoHead isDigit rest := ends.mono fun c digit => by rw [goesOn, digit]; rfl
      obtain ⟨sign, isSign, digits, some, rfl⟩ := Language.mem_mul.mp signed
      have read : numberDigits (digits ++ rest) = _ := digits_read.takes some noDigit
      show numberExp (e :: (sign ++ digits ++ rest)) = _
      rw [numberExp_cons, if_pos isE]
      rcases mem_opt.mp isSign with rfl | signByte
      · obtain ⟨c, tail, rfl, digit, -⟩ := mem_oneOrMore.mp some
        have noSign : ¬ (c = 0x2b ∨ c = 0x2d) := by
          rintro (rfl | rfl)
          · cases digit
          · cases digit
        show (if c = 0x2b ∨ c = 0x2d then _ else _) = _
        rw [if_neg noSign]
        exact read
      · obtain ⟨c, isSignByte, rfl⟩ : ∃ c : UInt8, (c = 0x2b ∨ c = 0x2d) ∧ sign = [c] := by
          rcases mem_either.mp signByte with minus | plus
          · exact ⟨0x2d, Or.inr rfl, mem_byte.mp minus⟩
          · exact ⟨0x2b, Or.inl rfl, mem_byte.mp plus⟩
        show (if c = 0x2b ∨ c = 0x2d then _ else _) = _
        rw [if_pos isSignByte]
        exact read

/-! ## The whole -/

theorem noHead_exp (mem : w ∈ opt expWord) (ends : NoHead goesOn rest) :
    NoHead (fun c => isDigit c || c == 0x2e) (w ++ rest) := by
  rcases mem_opt.mp mem with rfl | exp
  · apply ends.mono
    intro c holds
    rw [goesOn, holds]
    rfl
  · obtain ⟨letter, isLetter, exponent, -, rfl⟩ := Language.mem_mul.mp exp
    rcases mem_either.mp isLetter with lower | upper
    · rw [mem_byte.mp lower]
      exact noHead_cons.mpr rfl
    · rw [mem_byte.mp upper]
      exact noHead_cons.mpr rfl

theorem noHead_frac (mem : w ∈ opt fracWord * opt expWord) (ends : NoHead goesOn rest) :
    NoHead isDigit (w ++ rest) := by
  obtain ⟨frac, memFrac, exp, memExp, rfl⟩ := Language.mem_mul.mp mem
  rcases mem_opt.mp memFrac with rfl | point
  · apply (noHead_exp memExp ends).mono
    intro c digit
    rw [digit]
    rfl
  · obtain ⟨byte, isByte, digits, -, rfl⟩ := Language.mem_mul.mp point
    rw [mem_byte.mp isByte]
    exact noHead_cons.mpr rfl

theorem noHead_int (mem : w ∈ intWord * (opt fracWord * opt expWord)) :
    NoHead (· == 0x2d) (w ++ rest) := by
  obtain ⟨int, memInt, tail, -, rfl⟩ := Language.mem_mul.mp mem
  rcases mem_either.mp memInt with zero | nonzero
  · rw [mem_byte.mp zero]
    exact noHead_cons.mpr rfl
  · obtain ⟨first, ⟨c, digit, rfl⟩, digits, -, rfl⟩ := Language.mem_mul.mp nonzero
    apply noHead_cons.mpr
    cases minus : c == 0x2d with
    | false => rfl
    | true => rw [eq_of_beq minus] at digit; cases digit

/-- `json_is_number` accepts the numbers of the grammar and nothing else. -/
theorem jsonIsNumber_iff (s : Bytes) : jsonIsNumber s = true ↔ s ∈ numberWord := by
  rw [jsonIsNumber_eq]
  have tail := frac_reads.mul exp_reads noHead_exp
  have number := int_reads.mul tail noHead_frac
  have signed := sign_reads.mul number fun mem _ => noHead_int mem
  exact signed.accepts_iff (noHead_nil goesOn) s

end Nmap.Json
