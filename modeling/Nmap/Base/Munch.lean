import Mathlib.Computability.Language
import Mathlib.Data.List.TakeWhile

/-!
# Readers that never go back

A reader takes a word from the front of a text and returns what is left of it, or nothing. It
reads a language if it only takes words of the language, and takes every one of them where a
text follows in which the word does not go on. Readers that read two languages read their
concatenation one after the other, where the words of the second one end those of the first.
-/

namespace Nmap.Base

open Computability List

variable {α : Type*}

/-! ## Languages -/

namespace Words

/-- The words of one letter that satisfies `p` -/
def letter (p : α → Bool) : Language α := {w | ∃ a, p a = true ∧ w = [a]}

def opt (L : Language α) : Language α := 1 + L

def oneOrMore (p : α → Bool) : Language α := letter p * (letter p)∗

variable {p : α → Bool} {L M : Language α} {w : List α}

theorem mem_either : w ∈ L + M ↔ w ∈ L ∨ w ∈ M := Language.mem_add L M w

theorem mem_letter : w ∈ letter p ↔ ∃ a, p a = true ∧ w = [a] := Iff.rfl

theorem mem_opt : w ∈ opt L ↔ w = [] ∨ w ∈ L := by
  rw [opt, mem_either, Language.mem_one]

theorem mem_many : w ∈ (letter p)∗ ↔ ∀ a ∈ w, p a = true := by
  constructor
  · intro mem
    obtain ⟨parts, rfl, each⟩ := Language.mem_kstar.mp mem
    intro a inside
    obtain ⟨part, isPart, here⟩ := mem_flatten.mp inside
    obtain ⟨b, holds, rfl⟩ := each part isPart
    rw [mem_singleton.mp here]
    exact holds
  · intro all
    refine Language.mem_kstar.mpr ⟨w.map fun a => [a], ?_, ?_⟩
    · induction w with
      | nil => rfl
      | cons a w ih =>
        have tail := ih fun b mem => all b (mem_cons_of_mem a mem)
        rw [map_cons, flatten_cons, ← tail, singleton_append]
    · intro part isPart
      obtain ⟨a, mem, rfl⟩ := mem_map.mp isPart
      exact ⟨a, all a mem, rfl⟩

theorem mem_oneOrMore :
    w ∈ oneOrMore p ↔ ∃ a rest, w = a :: rest ∧ p a = true ∧ ∀ b ∈ rest, p b = true := by
  rw [oneOrMore, Language.mem_mul]
  constructor
  · rintro ⟨first, ⟨a, holds, rfl⟩, rest, many, rfl⟩
    exact ⟨a, rest, rfl, holds, mem_many.mp many⟩
  · rintro ⟨a, rest, rfl, holds, all⟩
    exact ⟨[a], ⟨a, holds, rfl⟩, rest, mem_many.mpr all, rfl⟩

end Words

/-! ## Readers -/

/-- The text does not begin with a letter that satisfies `p`. -/
def NoHead (p : α → Bool) (rest : List α) : Prop := ∀ a, rest.head? = some a → p a = false

@[simp] theorem noHead_nil (p : α → Bool) : NoHead p [] := by
  intro a first
  cases first

variable {p : α → Bool} {rest : List α}

@[simp] theorem noHead_cons {a : α} :
    NoHead p (a :: rest) ↔ p a = false := by
  simp [NoHead]

theorem NoHead.mono {q : α → Bool} (none : NoHead p rest) (imp : ∀ a, q a = true → p a = true) :
    NoHead q rest := by
  intro a first
  have outside := none a first
  cases holds : q a with
  | false => rfl
  | true => rw [imp a holds] at outside; cases outside

theorem dropWhile_append {w : List α} (all : ∀ a ∈ w, p a = true) (ends : NoHead p rest) :
    (w ++ rest).dropWhile p = rest := by
  rw [dropWhile_append_of_pos all]
  cases rest with
  | nil => rfl
  | cons a rest => simp [noHead_cons.mp ends]

/-- `read` takes words of `L` only, and each of them where the text goes on as `follow` says. -/
structure ReadsWords (read : List α → Option (List α)) (L : Language α)
    (follow : List α → Prop) : Prop where
  taken : ∀ {s rest}, read s = some rest → ∃ w ∈ L, s = w ++ rest
  takes : ∀ {w rest}, w ∈ L → follow rest → read (w ++ rest) = some rest

namespace ReadsWords

variable {read next : List α → Option (List α)} {L M : Language α} {follow after : List α → Prop}

theorem mul (first : ReadsWords read L follow) (second : ReadsWords next M after)
    (ends : ∀ {w rest}, w ∈ M → after rest → follow (w ++ rest)) :
    ReadsWords (fun s => (read s).bind next) (L * M) after where
  taken := by
    intro s rest both
    obtain ⟨middle, front, back⟩ := Option.bind_eq_some_iff.mp both
    obtain ⟨v, memL, rfl⟩ := first.taken front
    obtain ⟨w, memM, rfl⟩ := second.taken back
    exact ⟨v ++ w, Language.append_mem_mul memL memM, (append_assoc v w rest).symm⟩
  takes := by
    intro w rest mem goesOn
    obtain ⟨v, memL, u, memM, rfl⟩ := Language.mem_mul.mp mem
    have front : read (v ++ (u ++ rest)) = some (u ++ rest) := first.takes memL (ends memM goesOn)
    rw [append_assoc, front]
    exact second.takes memM goesOn

theorem accepts_iff (reads : ReadsWords read L follow) (atEnd : follow []) (s : List α) :
    read s = some [] ↔ s ∈ L := by
  constructor
  · intro whole
    obtain ⟨w, mem, same⟩ := reads.taken whole
    rw [append_nil] at same
    rwa [same]
  · intro mem
    have whole := reads.takes mem atEnd
    rwa [append_nil] at whole

end ReadsWords

end Nmap.Base
