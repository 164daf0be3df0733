import Mathlib.Data.List.Basic

/-!
# Pieces of a text

A text in pieces that know where they belong. Contiguous pieces put together give the text, in
whatever order they come.
-/

namespace Nmap.Base

open List

variable {α : Type}

/-- A piece of a text -/
structure Piece (α : Type) where
  offset : Nat
  data : List α

/-- What a piece has at a place of the text -/
def Piece.get? (p : Piece α) (i : Nat) : Option α :=
  if i < p.offset then none else p.data[i - p.offset]?

/-- What the pieces have at a place: the first that has something there -/
def reassemble (pieces : List (Piece α)) (i : Nat) : Option α := pieces.findSome? (·.get? i)

/-- Each piece begins where the one before it ends, and the first one here. -/
def Contiguous : Nat → List (Piece α) → Prop
  | _, [] => True
  | start, p :: ps => p.offset = start ∧ Contiguous (start + p.data.length) ps

def texts (pieces : List (Piece α)) : List α := pieces.flatMap (·.data)

variable {start : Nat} {pieces : List (Piece α)}

theorem Contiguous.get?_before (contiguous : Contiguous start pieces) {i : Nat}
    (before : i < start) : ∀ p ∈ pieces, p.get? i = none := by
  induction pieces generalizing start with
  | nil => simp
  | cons p ps ih =>
    intro q mem
    rcases mem_cons.mp mem with rfl | later
    · rw [Piece.get?, if_pos (by rw [contiguous.1]; exact before)]
    · exact ih contiguous.2 (by omega) q later

/-- **Contiguous pieces are the text.** -/
theorem reassemble_contiguous (contiguous : Contiguous start pieces) (i : Nat) :
    reassemble pieces (start + i) = (texts pieces)[i]? := by
  induction pieces generalizing start i with
  | nil => rfl
  | cons p ps ih =>
    obtain ⟨first, rest⟩ := contiguous
    have here : p.get? (start + i) = p.data[i]? := by
      rw [Piece.get?, first, if_neg (by omega), Nat.add_sub_cancel_left]
    rw [reassemble, List.findSome?_cons, here, texts, flatMap_cons]
    rcases Nat.lt_or_ge i p.data.length with inside | behind
    · rw [List.getElem?_append_left inside, List.getElem?_eq_getElem inside]
    · have later := ih rest (i - p.data.length)
      rw [List.getElem?_append_right behind, List.getElem?_eq_none behind]
      rw [show start + p.data.length + (i - p.data.length) = start + i by omega] at later
      exact later

theorem Contiguous.disjoint (contiguous : Contiguous start pieces) (i : Nat) :
    pieces.Pairwise fun p q => p.get? i = none ∨ q.get? i = none := by
  induction pieces generalizing start with
  | nil => exact .nil
  | cons p ps ih =>
    obtain ⟨first, rest⟩ := contiguous
    refine .cons ?_ (ih rest)
    intro q mem
    rcases Nat.lt_or_ge i (start + p.data.length) with front | behind
    · exact .inr (rest.get?_before front q mem)
    · left
      rw [Piece.get?, if_neg (by omega), List.getElem?_eq_none (by omega)]

theorem findSome?_perm {β : Type} {f : α → Option β} {l m : List α} (perm : l.Perm m)
    (one : l.Pairwise fun a b => f a = none ∨ f b = none) : l.findSome? f = m.findSome? f := by
  induction perm with
  | nil => rfl
  | cons a _ ih =>
    rw [List.findSome?_cons, List.findSome?_cons, ih (pairwise_cons.mp one).2]
  | swap a b l =>
    have two := (pairwise_cons.mp one).1 a mem_cons_self
    rw [List.findSome?_cons, List.findSome?_cons, List.findSome?_cons, List.findSome?_cons]
    rcases two with eq | eq
    · rw [eq]
    · rw [eq]
  | trans first _ ih ih' =>
    exact (ih one).trans (ih' (one.perm first fun either => either.symm))

/-- **The order in which pieces arrive does not matter.** -/
theorem reassemble_perm {arrived : List (Piece α)} (contiguous : Contiguous 0 pieces)
    (perm : arrived.Perm pieces) (i : Nat) : reassemble arrived i = (texts pieces)[i]? := by
  have whole := reassemble_contiguous contiguous i
  rw [Nat.zero_add] at whole
  rw [← whole]
  exact (findSome?_perm perm.symm (contiguous.disjoint i)).symm

end Nmap.Base
