import Mathlib.Data.List.Basic

/-!
# Iterators

An iterator is a function that each call returns an element, or nothing, and leaves the iterator
in another state. It may be called any number of times, also after it has returned nothing.
-/

namespace Nmap.Base

variable {σ α : Type*} (next : σ → Option α × σ)

/-- What the call returns that so many others came before -/
def nthCall : Nat → σ → Option α
  | 0, s => (next s).1
  | k + 1, s => nthCall k (next s).2

/-- The calls return the elements of the list one after the other, and nothing from then on. -/
def Yields (s : σ) (as : List α) : Prop := ∀ k, nthCall next k s = as[k]?

/-- As many calls as there are elements in the list return these, and lead to the second state. -/
def Passes : σ → List α → σ → Prop
  | s, [], s' => s = s'
  | s, a :: as, s' => (next s).1 = some a ∧ Passes (next s).2 as s'

variable {next} {s s' s'' : σ} {a : α} {as bs : List α}

theorem Yields.cons (first : (next s).1 = some a) (rest : Yields next (next s).2 as) :
    Yields next s (a :: as) := by
  intro k
  cases k with
  | zero => exact first
  | succ k => exact rest k

theorem Yields.of_dead (Dead : σ → Prop)
    (stays : ∀ s, Dead s → (next s).1 = none ∧ Dead (next s).2) (dead : Dead s) :
    Yields next s [] := by
  intro k
  rw [List.getElem?_nil]
  induction k generalizing s with
  | zero => exact (stays s dead).1
  | succ k ih => exact ih (stays s dead).2

theorem Passes.yields (first : Passes next s as s') (rest : Yields next s' bs) :
    Yields next s (as ++ bs) := by
  induction as generalizing s with
  | nil =>
    obtain rfl : s = s' := first
    exact rest
  | cons a as ih => exact .cons first.1 (ih first.2)

theorem Yields.map {τ β : Type*} {next' : τ → Option β × τ} {f : α → β} {g : σ → τ}
    (runs : ∀ s, next' (g s) = ((next s).1.map f, g (next s).2)) (all : Yields next s as) :
    Yields next' (g s) (as.map f) := by
  have calls : ∀ k s, nthCall next' k (g s) = (nthCall next k s).map f := by
    intro k
    induction k with
    | zero => exact fun s => congrArg Prod.fst (runs s)
    | succ k ih =>
      intro s
      rw [nthCall, runs]
      exact ih (next s).2
  intro k
  rw [calls, all k, List.getElem?_map]

theorem Yields.exists_nthCall (all : Yields next s as) :
    (∃ k, nthCall next k s = some a) ↔ a ∈ as := by
  simp only [all _, List.mem_iff_getElem?]

end Nmap.Base
