import Mathlib.Algebra.Order.Group.Multiset
import Mathlib.Logic.Relation

/-!
# Attempts

Every key is attempted once, and then again as long as an attempt is open and its number is below
a limit. Keys that wait for their first attempt and open attempts may be lost at any time. The
attempts of a key are numbered from 0 on without a gap, and never go beyond the limit
(`Sound.runs`).
-/

namespace Nmap.Base

open List

/-- The keys that wait for their first attempt, the open attempts with their numbers, and all
attempts that were made, in their order -/
structure Attempts (κ : Type*) where
  due : Multiset κ
  opened : Multiset (κ × ℕ)
  made : List (κ × ℕ)

namespace Attempts

variable {κ : Type*} {limit : ℕ}

/-- One step -/
inductive Step (limit : ℕ) : Attempts κ → Attempts κ → Prop
  | lose {due due' : Multiset κ} {opened opened' : Multiset (κ × ℕ)} {made : List (κ × ℕ)}
      (less : due' ≤ due) (fewer : opened' ≤ opened) :
      Step limit ⟨due, opened, made⟩ ⟨due', opened', made⟩
  | first {due : Multiset κ} {opened : Multiset (κ × ℕ)} {made : List (κ × ℕ)} {k : κ} :
      Step limit ⟨k ::ₘ due, opened, made⟩ ⟨due, (k, 0) ::ₘ opened, made ++ [(k, 0)]⟩
  | again {due : Multiset κ} {opened : Multiset (κ × ℕ)} {made : List (κ × ℕ)} {k : κ} {n : ℕ}
      (below : n < limit) :
      Step limit ⟨due, (k, n) ::ₘ opened, made⟩
        ⟨due, (k, n + 1) ::ₘ opened, made ++ [(k, n + 1)]⟩

/-- Any number of steps -/
abbrev Steps (limit : ℕ) : Attempts κ → Attempts κ → Prop := Relation.ReflTransGen (Step limit)

variable {due : Multiset κ} {opened opened' : Multiset (κ × ℕ)} {made : List (κ × ℕ)}

theorem Steps.lose {due' : Multiset κ} (less : due' ≤ due) (fewer : opened' ≤ opened) :
    Steps limit ⟨due, opened, made⟩ ⟨due', opened', made⟩ :=
  .single (.lose less fewer)

variable {k : κ}

theorem Steps.first {due' : Multiset κ} (waits : k ::ₘ due' ≤ due)
    (fewer : opened' ≤ (k, 0) ::ₘ opened) :
    Steps limit ⟨due, opened, made⟩ ⟨due', opened', made ++ [(k, 0)]⟩ :=
  ((Steps.lose waits le_rfl).tail .first).trans (Steps.lose le_rfl fewer)

theorem Steps.again {rest : Multiset (κ × ℕ)} {n : ℕ} (below : n < limit)
    (waits : (k, n) ::ₘ rest ≤ opened) (fewer : opened' ≤ (k, n + 1) ::ₘ rest) :
    Steps limit ⟨due, opened, made⟩ ⟨due, opened', made ++ [(k, n + 1)]⟩ :=
  ((Steps.lose le_rfl waits).tail (.again below)).trans (Steps.lose le_rfl fewer)

variable [DecidableEq κ]

/-- The numbers of the attempts of a key -/
def numbers (made : List (κ × ℕ)) (k : κ) : List ℕ := (made.filter (·.1 = k)).map (·.2)

/-- No key waits or is open twice, an open attempt is the last one of its key, and the attempts of
each key are numbered. -/
structure Sound (limit : ℕ) (s : Attempts κ) : Prop where
  once : (s.due + s.opened.map Prod.fst).Nodup
  last : ∀ k n, (k, n) ∈ s.opened → numbers s.made k = List.range (n + 1)
  fresh : ∀ k ∈ s.due, numbers s.made k = []
  numbered : ∀ k, ∃ n ≤ limit + 1, numbers s.made k = List.range n

@[simp] theorem numbers_nil (k : κ) : numbers [] k = [] := rfl

theorem numbers_append_self (made : List (κ × ℕ)) (k : κ) (n : ℕ) :
    numbers (made ++ [(k, n)]) k = numbers made k ++ [n] := by
  simp [numbers]

theorem numbers_append_ne (made : List (κ × ℕ)) {k' : κ} (n : ℕ) (other : k' ≠ k) :
    numbers (made ++ [(k, n)]) k' = numbers made k' := by
  simp [numbers, other.symm]

variable {s t : Attempts κ}

theorem Sound.step (sound : Sound limit s) (step : Step limit s t) : Sound limit t := by
  obtain ⟨once, last, fresh, numbered⟩ := sound
  cases step with
  | lose less fewer =>
    refine ⟨?_, ?_, ?_, numbered⟩
    · exact Multiset.nodup_of_le (add_le_add less (Multiset.map_le_map fewer)) once
    · intro k n mem
      exact last k n (Multiset.mem_of_le fewer mem)
    · intro k mem
      exact fresh k (Multiset.mem_of_le less mem)
  | @first due opened made k =>
    dsimp only at once last fresh numbered
    have none : numbers made k = [] := fresh k (Multiset.mem_cons_self k due)
    have all : numbers (made ++ [(k, 0)]) k = List.range 1 := by
      rw [numbers_append_self, none]
      rfl
    rw [Multiset.cons_add, Multiset.nodup_cons] at once
    refine ⟨?_, ?_, ?_, ?_⟩
    · show (due + ((k, 0) ::ₘ opened).map Prod.fst).Nodup
      rw [Multiset.map_cons, Multiset.add_cons, Multiset.nodup_cons]
      exact once
    · intro k' n mem
      rcases Multiset.mem_cons.mp mem with same | mem
      · cases same
        exact all
      · have isOpen : k' ∈ opened.map Prod.fst := Multiset.mem_map_of_mem Prod.fst mem
        have other : k' ≠ k := by
          rintro rfl
          exact once.1 (Multiset.mem_add.mpr (.inr isOpen))
        rw [numbers_append_ne made 0 other]
        exact last k' n mem
    · intro k' mem
      have other : k' ≠ k := by
        rintro rfl
        exact once.1 (Multiset.mem_add.mpr (.inl mem))
      rw [numbers_append_ne made 0 other]
      exact fresh k' (Multiset.mem_cons_of_mem mem)
    · intro k'
      by_cases same : k' = k
      · rw [same]
        exact ⟨1, by omega, all⟩
      · rw [numbers_append_ne made 0 same]
        exact numbered k'
  | @again due opened made k n below =>
    dsimp only at once last fresh numbered
    have all : numbers (made ++ [(k, n + 1)]) k = List.range (n + 2) := by
      rw [numbers_append_self, last k n (Multiset.mem_cons_self _ _), ← range_succ]
    rw [Multiset.map_cons, Multiset.add_cons] at once
    refine ⟨?_, ?_, ?_, ?_⟩
    · show (due + ((k, n + 1) ::ₘ opened).map Prod.fst).Nodup
      rw [Multiset.map_cons, Multiset.add_cons]
      exact once
    · intro k' n' mem
      rcases Multiset.mem_cons.mp mem with same | mem
      · cases same
        exact all
      · have isOpen : k' ∈ opened.map Prod.fst := Multiset.mem_map_of_mem Prod.fst mem
        have other : k' ≠ k := by
          rintro rfl
          exact (Multiset.nodup_cons.mp once).1 (Multiset.mem_add.mpr (.inr isOpen))
        rw [numbers_append_ne made _ other]
        exact last k' n' (Multiset.mem_cons_of_mem mem)
    · intro k' mem
      have other : k' ≠ k := by
        rintro rfl
        exact (Multiset.nodup_cons.mp once).1 (Multiset.mem_add.mpr (.inl mem))
      rw [numbers_append_ne made _ other]
      exact fresh k' mem
    · intro k'
      by_cases same : k' = k
      · rw [same]
        exact ⟨n + 2, by omega, all⟩
      · rw [numbers_append_ne made _ same]
        exact numbered k'

theorem Sound.steps (sound : Sound limit s) (steps : Steps limit s t) : Sound limit t := by
  induction steps with
  | refl => exact sound
  | tail _ step ih => exact ih.step step

theorem Sound.start (once : due.Nodup) : Sound limit ⟨due, 0, []⟩ where
  once := by simpa using once
  last := by
    intro k n mem
    cases Multiset.notMem_zero _ mem
  fresh := fun _ _ => rfl
  numbered := fun _ => ⟨0, Nat.zero_le _, rfl⟩

theorem Sound.count_le (sound : Sound limit s) (k : κ) :
    s.made.countP (·.1 = k) ≤ limit + 1 := by
  obtain ⟨n, bounded, same⟩ := sound.numbered k
  have length := congrArg List.length same
  rw [numbers, length_map, ← countP_eq_length_filter, length_range] at length
  rwa [length]

theorem Sound.number_eq (sound : Sound limit s) {earlier later : List (κ × ℕ)} {n : ℕ}
    (made : s.made = earlier ++ (k, n) :: later) : n = earlier.countP (·.1 = k) := by
  obtain ⟨m, -, same⟩ := sound.numbered k
  have split : numbers earlier k ++ n :: numbers later k = List.range m := by
    rw [← same, made]
    simp [numbers]
  have count : (numbers earlier k).length = earlier.countP (·.1 = k) := by
    rw [numbers, length_map, countP_eq_length_filter]
  have here : (List.range m)[(numbers earlier k).length]? = some n := by
    rw [← split, List.getElem?_append_right (Nat.le_refl _), Nat.sub_self]
    rfl
  rw [← count]
  rw [List.getElem?_eq_some_iff] at here
  obtain ⟨inside, number⟩ := here
  rw [getElem_range] at number
  exact number.symm

end Attempts

end Nmap.Base
