import Mathlib.Data.List.Forall2
import Mathlib.Data.List.Infix

/-!
# Texts along patterns

A text goes along a pattern if it can be cut into parts, one for each item of the pattern, so that
every part is one that its item stands for. A pattern may be one with wildcards, and it may be the
bytes that an encoded text is decoded to.
-/

namespace Nmap.Base

open List

variable {π α : Type*} {piece : π → List α → Prop}

/-- The text can be cut into parts that the items of the pattern stand for. -/
def Along (piece : π → List α → Prop) (pattern : List π) (text : List α) : Prop :=
  ∃ parts : List (List α), parts.flatten = text ∧ Forall₂ piece pattern parts

namespace Along

variable {p : π} {ps : List π} {text : List α}

theorem nil_iff : Along piece [] text ↔ text = [] := by
  constructor
  · rintro ⟨parts, rfl, each⟩
    cases each
    rfl
  · rintro rfl
    exact ⟨[], rfl, .nil⟩

theorem cons_iff : Along piece (p :: ps) text ↔
    ∃ part rest, text = part ++ rest ∧ piece p part ∧ Along piece ps rest := by
  constructor
  · rintro ⟨parts, rfl, each⟩
    obtain ⟨part, parts, first, others, rfl⟩ := List.forall₂_cons_left_iff.mp each
    exact ⟨part, parts.flatten, flatten_cons, first, parts, rfl, others⟩
  · rintro ⟨part, rest, rfl, first, parts, rfl, others⟩
    exact ⟨part :: parts, flatten_cons, .cons first others⟩

/-! ## Wildcards -/

theorem star_iff (star : ∀ part, piece p part) :
    Along piece (p :: ps) text ↔ ∃ rest, rest <:+ text ∧ Along piece ps rest := by
  rw [cons_iff]
  constructor
  · rintro ⟨part, rest, rfl, -, along⟩
    exact ⟨rest, suffix_append part rest, along⟩
  · rintro ⟨rest, ⟨part, rfl⟩, along⟩
    exact ⟨part, rest, rfl, star part, along⟩

theorem star_star_iff (star : ∀ part, piece p part) :
    Along piece (p :: p :: ps) text ↔ Along piece (p :: ps) text := by
  rw [star_iff star]
  constructor
  · rintro ⟨rest, suffix, along⟩
    obtain ⟨last, suffix', along⟩ := (star_iff star).mp along
    exact (star_iff star).mpr ⟨last, suffix'.trans suffix, along⟩
  · intro along
    exact ⟨text, suffix_refl text, along⟩

theorem star_last (star : ∀ part, piece p part) : Along piece [p] text :=
  (star_iff star).mpr ⟨[], nil_suffix, nil_iff.mpr rfl⟩

theorem one_iff {q : α → Prop} (one : ∀ part, piece p part ↔ ∃ a, part = [a] ∧ q a) :
    Along piece (p :: ps) text ↔ ∃ a rest, text = a :: rest ∧ q a ∧ Along piece ps rest := by
  rw [cons_iff]
  constructor
  · rintro ⟨part, rest, rfl, first, along⟩
    obtain ⟨a, rfl, holds⟩ := (one part).mp first
    exact ⟨a, rest, rfl, holds, along⟩
  · rintro ⟨a, rest, rfl, holds, along⟩
    exact ⟨[a], rest, rfl, (one [a]).mpr ⟨a, rfl, holds⟩, along⟩

/-! ## Codes -/

theorem unique (some_char : ∀ p, ¬ piece p [])
    (first : ∀ {p p' part part' rest rest'}, piece p part → piece p' part' →
      part ++ rest = part' ++ rest' → p = p' ∧ part = part') {ps' : List π}
    (along : Along piece ps text) (along' : Along piece ps' text) : ps = ps' := by
  induction ps generalizing ps' text with
  | nil =>
    rw [nil_iff.mp along] at along'
    cases ps' with
    | nil => rfl
    | cons p' ps' =>
      obtain ⟨part, rest, whole, here, -⟩ := cons_iff.mp along'
      rw [(append_eq_nil_iff.mp whole.symm).1] at here
      exact absurd here (some_char p')
  | cons p ps ih =>
    obtain ⟨part, rest, rfl, here, along⟩ := cons_iff.mp along
    cases ps' with
    | nil =>
      rw [(append_eq_nil_iff.mp (nil_iff.mp along')).1] at here
      exact absurd here (some_char p)
    | cons p' ps' =>
      obtain ⟨part', rest', whole, here', behind⟩ := cons_iff.mp along'
      obtain ⟨rfl, rfl⟩ := first here here' whole
      rw [← append_cancel_left whole] at behind
      rw [ih along behind]

theorem flatMap (f : π → List α) (each : ∀ p ∈ ps, piece p (f p)) :
    Along piece ps (ps.flatMap f) := by
  refine ⟨ps.map f, (flatMap_def).symm, ?_⟩
  rw [List.forall₂_map_right_iff]
  exact List.forall₂_same.mpr each

end Along

end Nmap.Base
