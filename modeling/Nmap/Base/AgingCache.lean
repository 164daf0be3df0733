import Mathlib.Data.Set.Card
import Mathlib.Logic.Function.Basic

/-!
# Caches that age

A cache holds a value for some of the keys and counts how often each was found, up to a limit. A
key that is new has no hits. If the cache is full when a key comes to it, it is pruned: what has no
hits goes, and of the rest the hits are halved.
-/

namespace Nmap.Base

open Function

/-- What is held for a key, with its hits -/
structure AgingCache (κ ν : Type) where
  entry : κ → Option (ν × Nat)

namespace AgingCache

variable {κ ν : Type}

def empty : AgingCache κ ν := ⟨fun _ => none⟩

def aged : Option (ν × Nat) → Option (ν × Nat)
  | some (v, hits) => if hits = 0 then none else some (v, hits / 2)
  | none => none

/-- What has no hits goes, and the other hits are halved. -/
def prune (m : AgingCache κ ν) : AgingCache κ ν := ⟨fun k => aged (m.entry k)⟩

/-- How many keys are held -/
noncomputable def size (m : AgingCache κ ν) : Nat := {k | m.entry k ≠ none}.ncard

section Keys

variable [DecidableEq κ]

def hit (limit : Nat) (m : AgingCache κ ν) (k : κ) : AgingCache κ ν :=
  ⟨update m.entry k ((m.entry k).map fun (v, hits) => (v, min limit (hits + 1)))⟩

/-- The value of a key, which is counted as found -/
def lookup (limit : Nat) (m : AgingCache κ ν) (k : κ) : Option ν × AgingCache κ ν :=
  ((m.entry k).map Prod.fst, m.hit limit k)

def insert (m : AgingCache κ ν) (k : κ) (v : ν) : AgingCache κ ν :=
  ⟨update m.entry k (some (v, 0))⟩

/-- A key that is held keeps its value and is counted as found. A new one is inserted, after a prune
if the cache is full. -/
noncomputable def add (limit capacity : Nat) (m : AgingCache κ ν) (k : κ) (v : ν) :
    Bool × AgingCache κ ν :=
  match m.entry k with
  | some _ => (false, m.hit limit k)
  | none => (true, (if capacity ≤ m.size then m.prune else m).insert k v)

theorem hit_self (limit : Nat) (m : AgingCache κ ν) (k : κ) :
    (m.hit limit k).entry k = (m.entry k).map fun (v, hits) => (v, min limit (hits + 1)) :=
  update_self k _ _

theorem hit_of_ne (limit : Nat) (m : AgingCache κ ν) {k k' : κ} (other : k' ≠ k) :
    (m.hit limit k).entry k' = m.entry k' := update_of_ne other _ _

theorem hit_none (limit : Nat) {m : AgingCache κ ν} {k : κ} (none : m.entry k = none) :
    m.hit limit k = m := by
  unfold hit
  rw [none, Option.map_none, ← none, update_eq_self]

theorem insert_self (m : AgingCache κ ν) (k : κ) (v : ν) :
    (m.insert k v).entry k = some (v, 0) := update_self k _ _

theorem insert_of_ne (m : AgingCache κ ν) {k k' : κ} (other : k' ≠ k) (v : ν) :
    (m.insert k v).entry k' = m.entry k' := update_of_ne other _ _

end Keys

theorem aged_none {e : Option (ν × Nat)} :
    aged e = none ↔ ∀ v hits, e = some (v, hits) → hits = 0 := by
  rcases e with _ | ⟨v, hits⟩
  · exact iff_of_true rfl fun _ _ none => by cases none
  · show (if hits = 0 then none else some (v, hits / 2)) = none ↔ _
    by_cases unused : hits = 0
    · rw [if_pos unused]
      refine iff_of_true rfl fun v' hits' same => ?_
      cases same
      exact unused
    · rw [if_neg unused]
      exact iff_of_false (fun none => by cases none) fun all => unused (all v hits rfl)

theorem aged_used (v : ν) {hits : Nat} (used : hits ≠ 0) :
    aged (some (v, hits)) = some (v, hits / 2) ∧ hits / 2 ≠ hits := by
  refine ⟨if_neg used, ?_⟩
  omega

theorem prune_unused {m : AgingCache κ ν}
    (unused : ∀ k v hits, m.entry k = some (v, hits) → hits = 0) : m.prune = empty := by
  have all : (fun k => aged (m.entry k)) = fun _ => none := by
    funext k
    exact aged_none.mpr (unused k)
  exact congrArg AgingCache.mk all

theorem size_eq [DecidableEq κ] {m : AgingCache κ ν} {keys : List κ} (nodup : keys.Nodup)
    (held : ∀ k, m.entry k ≠ none ↔ k ∈ keys) : m.size = keys.length := by
  have same : {k | m.entry k ≠ none} = (keys.toFinset : Set κ) := by
    ext k
    rw [Finset.mem_coe, List.mem_toFinset]
    exact held k
  unfold size
  rw [same, Set.ncard_coe_finset, List.toFinset_card_of_nodup nodup]

end AgingCache

end Nmap.Base
