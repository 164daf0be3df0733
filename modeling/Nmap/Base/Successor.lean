import Mathlib.Data.List.Perm.Basic
import Mathlib.Order.Lattice

/-!
# Walks from one element to the next

A function that looks up, in a list, the first element behind a given one in an order. Begun
with nothing and applied again to what it found, it visits every element once, in the order.
-/

namespace Nmap.Base

open List

variable {α β : Type*} [LinearOrder β]

/-- An element behind another one; everything is behind nothing. -/
def Behind (rank : α → β) : Option α → α → Prop
  | none, _ => True
  | some prev, a => rank prev < rank a

/-- `next` finds the first element of `l` behind nothing or behind one of them. -/
structure FindsNext (l : List α) (rank : α → β) (next : Option α → Option α) : Prop where
  found : ∀ {prev a}, (∀ p ∈ prev, p ∈ l) → next prev = some a →
    a ∈ l ∧ Behind rank prev a ∧ ∀ b ∈ l, Behind rank prev b → rank a ≤ rank b
  none_left : ∀ {prev}, (∀ p ∈ prev, p ∈ l) → next prev = none → ∀ b ∈ l, ¬ Behind rank prev b

/-- Begun with `prev`, the walk visits these elements and ends. -/
def Visits (next : Option α → Option α) : Option α → List α → Prop
  | prev, [] => next prev = none
  | prev, a :: rest => next prev = some a ∧ Visits next (some a) rest

variable {l : List α} {rank : α → β} {next : Option α → Option α}

open Classical in
theorem FindsNext.fewer (finds : FindsNext l rank next) {prev : Option α}
    (inside : ∀ p ∈ prev, p ∈ l) {a : α} (found : next prev = some a) :
    (l.filter (Behind rank (some a))).length < (l.filter (Behind rank prev)).length := by
  obtain ⟨mem, behind, -⟩ := finds.found inside found
  have later : ∀ b, Behind rank (some a) b → Behind rank prev b := by
    intro b lt
    cases prev with
    | none => trivial
    | some p => exact lt_trans behind lt
  have sub : (l.filter (Behind rank (some a))).Sublist (l.filter (Behind rank prev)) :=
    monotone_filter_right l fun b => by simpa using later b
  apply Nat.lt_of_le_of_ne sub.length_le
  intro same
  have all := sub.eq_of_length same
  have here : a ∈ l.filter (Behind rank prev) :=
    mem_filter.mpr ⟨mem, by simpa using behind⟩
  rw [← all, mem_filter] at here
  have self : Behind rank (some a) a := of_decide_eq_true here.2
  exact lt_irrefl _ self

/-- The walk from anywhere visits what is behind, once and in order. -/
theorem FindsNext.visits_from (finds : FindsNext l rank next)
    (inj : ∀ a ∈ l, ∀ b ∈ l, rank a = rank b → a = b) (prev : Option α)
    (inside : ∀ p ∈ prev, p ∈ l) : ∃ visited, Visits next prev visited ∧
      visited.Pairwise (fun a b => rank a < rank b) ∧
      ∀ a, a ∈ visited ↔ a ∈ l ∧ Behind rank prev a := by
  classical
  induction size : (l.filter (Behind rank prev)).length using Nat.strongRecOn
    generalizing prev with
  | ind n ih =>
    subst size
    cases here : next prev with
    | none =>
      refine ⟨[], here, .nil, ?_⟩
      intro a
      constructor
      · intro mem
        cases mem
      · rintro ⟨mem, behind⟩
        exact absurd behind (finds.none_left inside here a mem)
    | some a =>
      obtain ⟨mem, behind, least⟩ := finds.found inside here
      have inside' : ∀ p ∈ some a, p ∈ l := by
        intro p same
        cases same
        exact mem
      obtain ⟨rest, walk, ordered, members⟩ :=
        ih _ (finds.fewer inside here) (some a) inside' rfl
      refine ⟨a :: rest, ⟨here, walk⟩, pairwise_cons.mpr ⟨?_, ordered⟩, ?_⟩
      · intro b later
        exact ((members b).mp later).2
      · intro b
        rw [mem_cons, members b]
        constructor
        · rintro (rfl | ⟨memB, lt⟩)
          · exact ⟨mem, behind⟩
          · refine ⟨memB, ?_⟩
            cases prev with
            | none => trivial
            | some p => exact lt_trans behind lt
        · rintro ⟨memB, behindB⟩
          rcases lt_or_eq_of_le (least b memB behindB) with lt | same
          · exact Or.inr ⟨memB, lt⟩
          · exact Or.inl (inj b memB a mem same.symm)

theorem FindsNext.visits (finds : FindsNext l rank next)
    (inj : ∀ a ∈ l, ∀ b ∈ l, rank a = rank b → a = b) :
    ∃ visited, Visits next none visited ∧ visited.Pairwise (fun a b => rank a < rank b) ∧
      ∀ a, a ∈ visited ↔ a ∈ l := by
  obtain ⟨visited, walk, ordered, members⟩ := finds.visits_from inj none fun _ mem => by cases mem
  refine ⟨visited, walk, ordered, ?_⟩
  intro a
  rw [members a]
  exact and_iff_left trivial

end Nmap.Base
