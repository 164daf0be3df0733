import Mathlib.Data.List.Induction
import Mathlib.Order.Lattice

/-!
# The last of the greatest elements of a list

A fold that replaces its candidate by every element that is not less ends with the last of the
elements whose key is greatest.
-/

namespace Nmap.Base

open List

variable {α β : Type} [LinearOrder β]

/-- The last of the elements of a list whose key is greatest -/
def LastMax (key : α → β) (l : List α) (best : α) : Prop :=
  ∃ before after, l = before ++ best :: after ∧ (∀ x ∈ before, key x ≤ key best) ∧
    ∀ x ∈ after, key x < key best

def lastMax (less : α → α → Bool) (l : List α) : Option α :=
  l.foldl (fun best cur =>
    match best with
    | none => some cur
    | some best => if less cur best then some best else some cur) none

variable {key : α → β}

theorem LastMax.snoc {l : List α} {best : α} (last : LastMax key l best) (x : α) :
    LastMax key (l ++ [x]) (if key x < key best then best else x) := by
  obtain ⟨before, after, rfl, lower, less⟩ := last
  split
  · next lt =>
      refine ⟨before, after ++ [x], by simp, lower, fun y mem => ?_⟩
      rcases mem_append.mp mem with mem | mem
      · exact less y mem
      · rw [mem_singleton.mp mem]
        exact lt
  · next notLess =>
      have above := le_of_not_gt notLess
      refine ⟨before ++ best :: after, [], rfl, fun y mem => ?_, fun y mem => ?_⟩
      · rcases mem_append.mp mem with mem | mem
        · exact le_trans (lower y mem) above
        · rcases mem_cons.mp mem with rfl | mem
          · exact above
          · exact le_trans (le_of_lt (less y mem)) above
      · cases mem

/-- The fold finds the last of the greatest elements, if there are any. -/
theorem lastMax_spec {less : α → α → Bool} (by_key : ∀ a b, less a b = true ↔ key a < key b)
    (l : List α) :
    match lastMax less l with
    | none => l = []
    | some best => LastMax key l best := by
  induction l using List.reverseRecOn with
  | nil => rfl
  | append_singleton l x ih =>
    unfold lastMax at ih ⊢
    rw [foldl_append, foldl_cons, foldl_nil]
    cases found : l.foldl (fun best cur =>
        match best with
        | none => some cur
        | some best => if less cur best then some best else some cur) none with
    | none =>
      rw [found] at ih
      subst ih
      exact ⟨[], [], rfl, fun _ mem => absurd mem not_mem_nil,
        fun _ mem => absurd mem not_mem_nil⟩
    | some best =>
      rw [found] at ih
      have next := LastMax.snoc ih x
      have same : (if less x best = true then some best else some x) =
          some (if key x < key best then best else x) := by
        by_cases lt : key x < key best
        · rw [if_pos lt, if_pos ((by_key x best).mpr lt)]
        · rw [if_neg lt, if_neg (mt (by_key x best).mp lt)]
      dsimp only
      rw [same]
      exact next

theorem LastMax.unique {l : List α} {a b : α} (left : LastMax key l a) (right : LastMax key l b) :
    a = b := by
  obtain ⟨before, after, eq, lower, less⟩ := left
  obtain ⟨before', after', eq', lower', less'⟩ := right
  rw [eq] at eq'
  rcases append_eq_append_iff.mp eq' with ⟨mid, front, back⟩ | ⟨mid, front, back⟩
  · cases mid with
    | nil => exact (List.cons.inj back).1
    | cons c mid =>
      obtain ⟨rfl, rest⟩ := List.cons.inj back
      have up : key a ≤ key b := lower' a (by rw [front]; simp)
      have down : key b < key a := less b (by rw [rest]; simp)
      exact absurd down (not_lt.mpr up)
  · cases mid with
    | nil => exact (List.cons.inj back).1.symm
    | cons c mid =>
      obtain ⟨rfl, rest⟩ := List.cons.inj back
      have up : key b ≤ key a := lower b (by rw [front]; simp)
      have down : key a < key b := less' a (by rw [rest]; simp)
      exact absurd down (not_lt.mpr up)

end Nmap.Base
