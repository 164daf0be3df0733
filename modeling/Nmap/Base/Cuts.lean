import Mathlib.Data.List.Basic
import Mathlib.Tactic.Common

/-!
# Cutting a text where a word occurs

A text is cut from left to right wherever a word occurs in it, so that no two of the occurrences
overlap. With another word between the pieces every occurrence has been replaced, and with nothing
between them it has been deleted.
-/

namespace Nmap.Base

open List

variable {α : Type*}

/-- The pieces that a text is cut into: in front of the first occurrence of the word, between one
and the next, and behind the last one. -/
inductive Cuts (word : List α) : List α → List (List α) → Prop
  | last {text : List α} (none : ∀ k < text.length, ¬ word <+: text.drop k) : Cuts word text [text]
  | cut {piece rest : List α} {pieces : List (List α)}
      (first : ∀ k < piece.length, ¬ word <+: (piece ++ word ++ rest).drop k)
      (cuts : Cuts word rest pieces) : Cuts word (piece ++ word ++ rest) (piece :: pieces)

/-- The word occurs at the very end of the text, and is cut off there. The empty text is cut
off as well. -/
def CutOff (word text : List α) : Prop :=
  ∃ pieces, Cuts word text pieces ∧ pieces.getLast? = some []

variable {word text rest : List α} {pieces : List (List α)} {a : α}

theorem Cuts.nil : Cuts word [] [[]] := .last fun _ no => absurd no (Nat.not_lt_zero _)

theorem Cuts.ne_nil (cuts : Cuts word text pieces) : pieces ≠ [] := by
  cases cuts with
  | last _ => exact cons_ne_nil _ _
  | cut _ _ => exact cons_ne_nil _ _

theorem CutOff.nil : CutOff word [] := ⟨_, .nil, rfl⟩

theorem Cuts.eq_nil (cuts : Cuts [] text pieces) : text = [] := by
  induction cuts with
  | @last text none =>
    cases text with
    | nil => rfl
    | cons a text => exact absurd nil_prefix (none 0 (Nat.zero_lt_succ _))
  | @cut piece rest pieces first cuts ih =>
    cases piece with
    | nil => exact ih
    | cons a piece => exact absurd nil_prefix (first 0 (Nat.zero_lt_succ _))

/-! ## A text that begins with the word -/

theorem Cuts.at_word (cuts : Cuts word rest pieces) : Cuts word (word ++ rest) ([] :: pieces) :=
  @Cuts.cut _ word [] rest pieces (fun _ no => absurd no (Nat.not_lt_zero _)) cuts

theorem cuts_word (some : word ≠ []) (cuts : Cuts word (word ++ rest) pieces) :
    ∃ pieces', pieces = [] :: pieces' ∧ Cuts word rest pieces' := by
  generalize whole : word ++ rest = text at cuts
  cases cuts with
  | last none =>
    refine absurd ?_ (none 0 ?_)
    · rw [drop_zero, ← whole]
      exact prefix_append _ _
    · rw [← whole, length_append]
      have := length_pos_iff.mpr some
      omega
  | @cut piece rest' pieces' first cuts' =>
    cases piece with
    | nil =>
      rw [nil_append] at whole
      rw [append_cancel_left whole]
      exact ⟨pieces', rfl, cuts'⟩
    | cons b piece =>
      refine absurd ?_ (first 0 (Nat.zero_lt_succ _))
      rw [drop_zero, ← whole]
      exact prefix_append _ _

theorem cutOff_word (some : word ≠ []) : CutOff word (word ++ rest) ↔ CutOff word rest := by
  constructor
  · intro ⟨pieces, cuts, ends⟩
    obtain ⟨pieces', rfl, cuts'⟩ := cuts_word some cuts
    refine ⟨pieces', cuts', ?_⟩
    rwa [List.getLast?_cons_of_ne_nil cuts'.ne_nil] at ends
  · intro ⟨pieces, cuts, ends⟩
    refine ⟨[] :: pieces, cuts.at_word, ?_⟩
    rwa [List.getLast?_cons_of_ne_nil cuts.ne_nil]

/-! ## A text that does not begin with the word -/

/-- One element more in the first piece -/
def extend (a : α) : List (List α) → List (List α)
  | [] => []
  | piece :: pieces => (a :: piece) :: pieces

theorem Cuts.extend (cuts : Cuts word text pieces) (other : ¬ word <+: a :: text) :
    Cuts word (a :: text) (extend a pieces) := by
  cases cuts with
  | last none =>
    refine .last ?_
    intro k inside
    cases k with
    | zero => exact other
    | succ k => exact none k (Nat.lt_of_succ_lt_succ inside)
  | @cut piece rest pieces first cuts =>
    refine @Cuts.cut _ word (a :: piece) rest pieces ?_ cuts
    intro k inside
    cases k with
    | zero => exact other
    | succ k => exact first k (Nat.lt_of_succ_lt_succ inside)

theorem cuts_other (other : ¬ word <+: a :: text) (cuts : Cuts word (a :: text) pieces) :
    ∃ pieces', pieces = extend a pieces' ∧ Cuts word text pieces' := by
  generalize whole : a :: text = text' at cuts
  cases cuts with
  | last none =>
    subst whole
    refine ⟨[text], rfl, .last ?_⟩
    intro k inside
    exact none (k + 1) (Nat.succ_lt_succ inside)
  | @cut piece rest pieces first cuts =>
    cases piece with
    | nil =>
      rw [whole] at other
      exact absurd (prefix_append _ _) other
    | cons b piece =>
      rw [cons_append, cons_append] at whole
      injection whole with same same'
      subst same same'
      refine ⟨piece :: pieces, rfl, .cut ?_ cuts⟩
      intro k inside
      exact first (k + 1) (Nat.succ_lt_succ inside)

theorem cutOff_other (other : ¬ word <+: a :: text) (more : text ≠ []) :
    CutOff word (a :: text) ↔ CutOff word text := by
  -- the last piece is the one that was extended only if there is no cut
  have ends (pieces : List (List α)) (cuts : Cuts word text pieces) :
      (extend a pieces).getLast? = some [] ↔ pieces.getLast? = some [] := by
    cases cuts with
    | last _ => simp [extend, more]
    | @cut piece rest pieces first cuts =>
      rw [extend, List.getLast?_cons_of_ne_nil cuts.ne_nil,
        List.getLast?_cons_of_ne_nil cuts.ne_nil]
  constructor
  · intro ⟨pieces, cuts, last⟩
    obtain ⟨pieces', rfl, cuts'⟩ := cuts_other other cuts
    exact ⟨pieces', cuts', (ends pieces' cuts').mp last⟩
  · intro ⟨pieces, cuts, last⟩
    exact ⟨_, cuts.extend other, (ends pieces cuts).mpr last⟩

theorem not_cutOff_of_short (short : text.length < word.length) (some : text ≠ []) :
    ¬ CutOff word text := by
  intro ⟨pieces, cuts, last⟩
  cases cuts with
  | last _ =>
    rw [List.getLast?_singleton] at last
    injection last with empty
    exact some empty
  | @cut piece rest pieces _ _ =>
    rw [length_append, length_append] at short
    omega

theorem intercalate_extend (by_ : List α) (some : pieces ≠ []) :
    by_.intercalate (extend a pieces) = a :: by_.intercalate pieces := by
  cases pieces with
  | nil => exact absurd rfl some
  | cons piece pieces =>
    cases pieces with
    | nil => rw [extend, intercalate_singleton, intercalate_singleton]
    | cons piece' pieces =>
      rw [extend, intercalate_cons_cons, intercalate_cons_cons]
      rfl

/-! ## Putting the word in -/

/-- The text, with the word put in at some places -/
inductive Inserted (word : List α) : List α → List α → Prop
  | nil : Inserted word [] []
  | cons {a : α} {text whole : List α} (rest : Inserted word text whole) :
      Inserted word (a :: text) (a :: whole)
  | word {text whole : List α} (rest : Inserted word text whole) :
      Inserted word text (word ++ whole)

theorem Inserted.refl (text : List α) : Inserted word text text := by
  induction text with
  | nil => exact .nil
  | cons a text ih => exact .cons ih

theorem Inserted.append {text' whole whole' : List α} (first : Inserted word text whole)
    (second : Inserted word text' whole') : Inserted word (text ++ text') (whole ++ whole') := by
  induction first with
  | nil => exact second
  | cons _ ih => exact .cons ih
  | word _ ih =>
    rw [append_assoc]
    exact .word ih

theorem Inserted.ne_nil {whole : List α} (inserted : Inserted word text whole)
    (some : text ≠ []) : whole ≠ [] := by
  induction inserted with
  | nil => exact some
  | cons _ _ => exact cons_ne_nil _ _
  | word _ ih => simp [ih some]

theorem Inserted.cuts {b : α} {tail whole : List α} (inserted : Inserted (b :: tail) text whole)
    (other : b ∉ text) : ∃ pieces, Cuts (b :: tail) whole pieces ∧ pieces.flatten = text := by
  induction inserted with
  | nil => exact ⟨[[]], .nil, rfl⟩
  | @cons a text whole rest ih =>
    obtain ⟨pieces, cuts, same⟩ := ih (not_mem_of_not_mem_cons other)
    refine ⟨extend a pieces, cuts.extend ?_, ?_⟩
    · rw [cons_prefix_cons]
      intro ⟨same, _⟩
      exact ne_of_not_mem_cons other same
    · cases pieces with
      | nil => exact absurd rfl cuts.ne_nil
      | cons piece pieces => rw [← same, extend, flatten_cons, flatten_cons,
          cons_append]
  | word rest ih =>
    obtain ⟨pieces, cuts, same⟩ := ih other
    exact ⟨[] :: pieces, cuts.at_word, same⟩

end Nmap.Base
