import Nmap.Base.WordReader
import Nmap.Zenmap.GetOption

/-!
# Quoting of words (`zenmapCore/NmapOptions.py`)

`join_quoted` writes a list of strings as one line, and `split_quoted` reads a line. A string that
has a quote, a backslash or white space in it is quoted. An empty one is not, and it is lost.
-/

namespace Nmap.Zenmap

open Nmap.Base List

/-! ## The functions -/

/-- `str.isspace`, for a character -/
def isSpace (c : Char) : Bool :=
  let n := c.toNat
  (0x09 ≤ n && n ≤ 0x0d) || (0x1c ≤ n && n ≤ 0x20) || n = 0x85 || n = 0xa0 || n = 0x1680 ||
    (0x2000 ≤ n && n ≤ 0x200a) || n = 0x2028 || n = 0x2029 || n = 0x202f || n = 0x205f || n = 0x3000

/-- One character more in front of what is read -/
def consPart (c : Char) (read : Str × Str) : Str × Str := (c :: read.1, read.2)

/-- The loop over one word and, behind `begin`, the loop over a quoted part of it: the word, and
what is left behind it -/
def readPart : Option Char → Str → Str × Str
  | _, [] => ([], [])
  | none, c :: s =>
    if isSpace c then ([], c :: s)
    else if c = '"' ∨ c = '\'' then readPart (some c) s
    else consPart c (readPart none s)
  | some begin, c :: s =>
    if c = begin then readPart none s
    else if c = '\\' then
      match s with
      -- "Otherwise, ignore the error and leave the backslash at the end of the string."
      | [] => (['\\'], [])
      | d :: s => consPart d (readPart (some begin) s)
    else consPart c (readPart (some begin) s)

attribute [local simp] readPart in
theorem readPart_close (begin : Char) (s : Str) :
    readPart (some begin) (begin :: s) = readPart none s := by
  rw [readPart.eq_def]
  exact if_pos rfl

theorem readPart_escape {begin : Char} (other : '\\' ≠ begin) (d : Char) (s : Str) :
    readPart (some begin) ('\\' :: d :: s) = consPart d (readPart (some begin) s) := by
  rw [readPart.eq_def]
  exact if_neg other

theorem readPart_inside {begin c : Char} (other : c ≠ begin) (plain : c ≠ '\\') (s : Str) :
    readPart (some begin) (c :: s) = consPart c (readPart (some begin) s) := by
  rw [readPart.eq_def]
  exact (if_neg other).trans (if_neg plain)

theorem readPart_length (quote : Option Char) (s : Str) :
    (readPart quote s).2.length ≤ s.length := by
  fun_induction readPart quote s with
  | case1 => exact Nat.le_refl _
  | case2 => exact Nat.le_refl _
  | case3 c s plain isQuote ih => exact Nat.le_succ_of_le ih
  | case4 c s plain other ih => exact Nat.le_succ_of_le ih
  | case5 s begin ih => exact Nat.le_succ_of_le ih
  | case6 => exact Nat.zero_le _
  | case7 begin d s other ih => exact Nat.le_succ_of_le (Nat.le_succ_of_le ih)
  | case8 begin c s other plain ih => exact Nat.le_succ_of_le ih

/-- The words of a line. A word begins at the first character that is no white space. -/
def words : WordReader Char Str where
  isSep := isSpace
  read c s := readPart none (c :: s)
  shorter c s plain := by
    rw [readPart, if_neg (by simp [plain])]
    split
    · exact readPart_length _ _
    · exact readPart_length _ _

def splitQuoted (s : Str) : List Str := words.words s

/-- What `maybe_quote` looks for -/
def needsQuote (c : Char) : Bool := c = '"' || c = '\\' || c = '\'' || isSpace c

def escapeChar (c : Char) : Str :=
  if c = '"' then ['\\', '"'] else if c = '\\' then ['\\', '\\'] else [c]

def maybeQuote (s : Str) : Str :=
  if s.any needsQuote then '"' :: (s.flatMap escapeChar ++ ['"']) else s

def joinQuoted (l : List Str) : Str := [' '].intercalate (l.map maybeQuote)

/-! ## The round trip -/

variable {s rest : Str}

theorem readPart_escaped (s rest : Str) :
    readPart (some '"') (s.flatMap escapeChar ++ '"' :: rest) =
      (s ++ (readPart none rest).1, (readPart none rest).2) := by
  induction s with
  | nil => exact readPart_close '"' rest
  | cons c s ih =>
    rw [flatMap_cons, append_assoc, escapeChar]
    by_cases isQuote : c = '"'
    · rw [if_pos isQuote, isQuote, cons_append, singleton_append,
        readPart_escape (by decide), ih]
      rfl
    rw [if_neg isQuote]
    by_cases escape : c = '\\'
    · rw [if_pos escape, escape, cons_append, singleton_append,
        readPart_escape (by decide), ih]
      rfl
    · rw [if_neg escape, singleton_append, readPart_inside isQuote escape, ih]
      rfl

theorem readPart_plain (plain : s.any needsQuote = false) (rest : Str) :
    readPart none (s ++ rest) = (s ++ (readPart none rest).1, (readPart none rest).2) := by
  induction s with
  | nil => rfl
  | cons c s ih =>
    rw [any_cons, Bool.or_eq_false_iff] at plain
    obtain ⟨here, behind⟩ := plain
    simp only [needsQuote, Bool.or_eq_false_iff, decide_eq_false_iff_not] at here
    obtain ⟨⟨⟨notDouble, -⟩, notSingle⟩, notSpace⟩ := here
    rw [cons_append, readPart, if_neg (by simp [notSpace]), if_neg (by tauto), ih behind]
    rfl

theorem readPart_ends (ends : words.Ends rest) : readPart none rest = ([], rest) := by
  cases rest with
  | nil => rfl
  | cons c rest => exact if_pos (ends c rfl)

/-- A string is read back from what is written for it, if that is something. -/
theorem maybeQuote_encodes (s : Str) : words.Encodes s (maybeQuote s) := by
  unfold maybeQuote
  split
  · refine ⟨fun c first => by cases first; rfl, fun c t rest text ends => ?_⟩
    cases text
    show readPart (some '"') (_ ++ ['"'] ++ rest) = _
    rw [append_assoc, singleton_append, readPart_escaped, readPart_ends ends,
      append_nil]
  · next plain =>
      rw [Bool.not_eq_true] at plain
      refine ⟨fun c first => ?_, fun c t rest text ends => ?_⟩
      · have none := any_eq_false.mp plain c (mem_of_mem_head? first)
        simp only [needsQuote, Bool.or_eq_true, not_or] at none
        exact Bool.not_eq_true _ ▸ none.2
      · show readPart none (c :: t ++ rest) = _
        rw [← text, readPart_plain plain, readPart_ends ends, append_nil]

theorem maybeQuote_eq_nil : maybeQuote s = [] ↔ s = [] := by
  unfold maybeQuote
  split
  · next quoted =>
      refine iff_of_false (cons_ne_nil _ _) ?_
      rintro rfl
      cases quoted
  · rfl

/-- All strings are read back but the empty ones. -/
theorem splitQuoted_joinQuoted (l : List Str) :
    splitQuoted (joinQuoted l) = l.filter (· ≠ []) := by
  have read : splitQuoted (joinQuoted l) = (l.filter fun s => maybeQuote s ≠ []).map id :=
    WordReader.words_intercalate rfl l fun s _ => maybeQuote_encodes s
  rw [read, map_id]
  simp only [ne_eq, maybeQuote_eq_nil]

/-- **When words are read back.** Every list of strings is read back from the line that is written
for it, exactly if no string of it is empty. -/
theorem splitQuoted_joinQuoted_iff (l : List Str) :
    splitQuoted (joinQuoted l) = l ↔ [] ∉ l := by
  rw [splitQuoted_joinQuoted, filter_eq_self]
  constructor
  · intro all empty
    exact absurd (all [] empty) (by simp)
  · intro none s mem
    exact decide_eq_true fun empty => none (empty ▸ mem)

/-- Nothing is written for an empty string. -/
theorem splitQuoted_empty : splitQuoted (joinQuoted [[]]) ≠ [[]] := by
  rw [splitQuoted_joinQuoted]
  decide

end Nmap.Zenmap
