import Mathlib.Data.List.Basic

/-!
# Reading a text word by word

A reader knows what stands between words, and how a word is read where one begins. Words that are
written with one separator between them are read back, but for those that are written as nothing.
-/

namespace Nmap.Base

open List

variable {τ ω : Type}

structure WordReader (τ ω : Type) where
  isSep : τ → Bool
  /-- the word that begins with this character, and what is left behind it -/
  read : τ → List τ → ω × List τ
  shorter : ∀ c s, isSep c = false → (read c s).2.length ≤ s.length

namespace WordReader

variable (r : WordReader τ ω)

/-- The words of a text -/
def words (s : List τ) : List ω :=
  match behind : s.dropWhile r.isSep with
  | [] => []
  | c :: t => (r.read c t).1 :: words (r.read c t).2
  termination_by s.length
  decreasing_by
    have plain : r.isSep c = false := by
      have head := List.head?_dropWhile_not r.isSep s
      simpa [behind] using head
    have suffix := (dropWhile_suffix r.isSep (l := s)).length_le
    have shorter := r.shorter c t plain
    rw [behind, length_cons] at suffix
    omega

variable {r} {sep c : τ} {s t : List τ}

@[simp] theorem words_nil : r.words [] = [] := by
  rw [words]
  rfl

theorem words_eq_nil (none : s.dropWhile r.isSep = []) : r.words s = [] := by
  rw [words]
  split
  · rfl
  · next behind =>
      rw [none] at behind
      cases behind

theorem words_eq_cons (first : s.dropWhile r.isSep = c :: t) :
    r.words s = (r.read c t).1 :: r.words (r.read c t).2 := by
  rw [words]
  split
  · next behind =>
      rw [first] at behind
      cases behind
  · next behind =>
      rw [first] at behind
      cases behind
      rfl

theorem words_sep (between : r.isSep sep = true) (s : List τ) :
    r.words (sep :: s) = r.words s := by
  have skipped : (sep :: s).dropWhile r.isSep = s.dropWhile r.isSep :=
    dropWhile_cons_of_pos between
  cases behind : s.dropWhile r.isSep with
  | nil => rw [words_eq_nil behind, words_eq_nil (skipped.trans behind)]
  | cons c t => rw [words_eq_cons behind, words_eq_cons (skipped.trans behind)]

theorem words_cons (plain : r.isSep c = false) (s : List τ) :
    r.words (c :: s) = (r.read c s).1 :: r.words (r.read c s).2 :=
  words_eq_cons (dropWhile_cons_of_neg (by simp [plain]))

/-! ## Writing -/

/-- Behind a word the text ends, or a separator stands there. -/
def Ends (r : WordReader τ ω) (rest : List τ) : Prop := ∀ c ∈ rest.head?, r.isSep c = true

/-- What is written for a word is nothing, or it is read back in front of any end. -/
structure Encodes (r : WordReader τ ω) (w : ω) (text : List τ) : Prop where
  begins : ∀ c ∈ text.head?, r.isSep c = false
  reads : ∀ c t rest, text = c :: t → r.Ends rest → r.read c (t ++ rest) = (w, rest)

variable {w : ω} {text rest : List τ}

theorem Encodes.words (encodes : r.Encodes w text) (ends : r.Ends rest) :
    r.words (text ++ rest) = (if text = [] then [] else [w]) ++ r.words rest := by
  cases text with
  | nil => rfl
  | cons c t =>
    rw [cons_append, words_cons (encodes.begins c rfl),
      encodes.reads c t rest rfl ends, if_neg (cons_ne_nil c t)]
    rfl

/-- **Words are read back.** With a separator between them, all are read back but those for which
nothing is written. -/
theorem words_intercalate {α : Type} {enc : α → List τ} {val : α → ω} {sep : τ}
    (between : r.isSep sep = true) (as : List α) (encodes : ∀ a ∈ as, r.Encodes (val a) (enc a)) :
    r.words ([sep].intercalate (as.map enc)) = (as.filter fun a => enc a ≠ []).map val := by
  have first : ∀ a rest, r.Encodes (val a) (enc a) → r.Ends rest →
      r.words (enc a ++ rest) = ([a].filter fun a => enc a ≠ []).map val ++ r.words rest := by
    intro a rest encodes ends
    rw [encodes.words ends]
    by_cases empty : enc a = [] <;> simp [empty]
  induction as with
  | nil => exact words_nil
  | cons a as ih =>
    have here := encodes a mem_cons_self
    have behind := ih fun b mem => encodes b (mem_cons_of_mem a mem)
    have apart : ((a :: as).filter fun a => enc a ≠ []).map val =
        ([a].filter fun a => enc a ≠ []).map val ++ (as.filter fun a => enc a ≠ []).map val := by
      rw [← map_append, ← filter_append, singleton_append]
    rw [apart, ← behind]
    cases as with
    | nil =>
      have whole := first a [] here (fun _ none => by cases none)
      rw [append_nil] at whole
      rw [map_singleton, intercalate_singleton, whole]
      rfl
    | cons b as =>
      show r.words ([sep].intercalate (enc a :: enc b :: as.map enc)) = _
      rw [intercalate_cons_cons, append_assoc, singleton_append,
        first a _ here fun c here => by cases here; exact between, words_sep between]
      rfl

end WordReader

end Nmap.Base
