import Mathlib.Order.Lattice
import Mathlib.Data.List.Basic
import Mathlib.Data.List.Forall2

/-!
# Joining two lists by key

Two lists are read side by side, as in a merge of sorted lists. Elements with one key come
together, and any other comes alone.
-/

namespace Nmap.Base

open List

variable {α β κ : Type} (k : α → κ) (l : β → κ)

def join [LinearOrder κ] : List α → List β → List (Option α × Option β)
  | [], bs => bs.map fun b => (none, some b)
  | a :: as, [] => (a :: as).map fun a => (some a, none)
  | a :: as, b :: bs =>
    if k a < l b then (some a, none) :: join as (b :: bs)
    else if k a > l b then (none, some b) :: join (a :: as) bs
    else (some a, some b) :: join as bs
  termination_by as bs => as.length + bs.length

attribute [elab_as_elim] join.induct_unfolding

/-- What is joined to what: elements with one key, or an element without any of its key in the
other list -/
inductive Joined (as : List α) (bs : List β) : Option α × Option β → Prop
  | both {a b} : a ∈ as → b ∈ bs → k a = l b → Joined as bs (some a, some b)
  | left {a} : a ∈ as → (∀ b ∈ bs, k a ≠ l b) → Joined as bs (some a, none)
  | right {b} : b ∈ bs → (∀ a ∈ as, k a ≠ l b) → Joined as bs (none, some b)

variable {k l}

variable {as : List α} {bs : List β} {p : Option α × Option β}

/-- A list joins to another as its tail does, and its head comes alone, when no key of the other
list is as small. -/
theorem joined_cons_left {a : α} (alone : ∀ b ∈ bs, k a ≠ l b) :
    Joined k l (a :: as) bs p ↔ p = (some a, none) ∨ Joined k l as bs p := by
  constructor
  · rintro (⟨mem, other, same⟩ | ⟨mem, none⟩ | ⟨mem, none⟩)
    · rcases mem_cons.mp mem with rfl | mem
      · exact absurd same (alone _ other)
      · exact .inr (.both mem other same)
    · rcases mem_cons.mp mem with rfl | mem
      · exact .inl rfl
      · exact .inr (.left mem none)
    · exact .inr (.right mem fun x mem' => none x (mem_cons_of_mem _ mem'))
  · rintro (rfl | ⟨mem, other, same⟩ | ⟨mem, none⟩ | ⟨mem, none⟩)
    · exact .left mem_cons_self alone
    · exact .both (mem_cons_of_mem _ mem) other same
    · exact .left (mem_cons_of_mem _ mem) none
    · refine .right mem fun x mem' => ?_
      rcases mem_cons.mp mem' with rfl | mem'
      · exact alone _ mem
      · exact none x mem'

theorem joined_cons_right {b : β} (alone : ∀ a ∈ as, k a ≠ l b) :
    Joined k l as (b :: bs) p ↔ p = (none, some b) ∨ Joined k l as bs p := by
  constructor
  · rintro (⟨mem, other, same⟩ | ⟨mem, none⟩ | ⟨mem, none⟩)
    · rcases mem_cons.mp other with rfl | other
      · exact absurd same (alone _ mem)
      · exact .inr (.both mem other same)
    · exact .inr (.left mem fun x mem' => none x (mem_cons_of_mem _ mem'))
    · rcases mem_cons.mp mem with rfl | mem
      · exact .inl rfl
      · exact .inr (.right mem none)
  · rintro (rfl | ⟨mem, other, same⟩ | ⟨mem, none⟩ | ⟨mem, none⟩)
    · exact .right mem_cons_self alone
    · exact .both mem (mem_cons_of_mem _ other) same
    · refine .left mem fun x mem' => ?_
      rcases mem_cons.mp mem' with rfl | mem'
      · exact alone _ mem
      · exact none x mem'
    · exact .right (mem_cons_of_mem _ mem) none

theorem joined_cons_cons {a : α} {b : β} (same : k a = l b) (aloneA : ∀ b ∈ bs, k a ≠ l b)
    (aloneB : ∀ a ∈ as, k a ≠ l b) :
    Joined k l (a :: as) (b :: bs) p ↔ p = (some a, some b) ∨ Joined k l as bs p := by
  constructor
  · rintro (⟨mem, other, same'⟩ | ⟨mem, none⟩ | ⟨mem, none⟩)
    · rcases mem_cons.mp mem with rfl | mem
      · rcases mem_cons.mp other with rfl | other
        · exact .inl rfl
        · exact absurd same' (aloneA _ other)
      · rcases mem_cons.mp other with rfl | other
        · exact absurd same' (aloneB _ mem)
        · exact .inr (.both mem other same')
    · rcases mem_cons.mp mem with rfl | mem
      · exact absurd same (none b mem_cons_self)
      · exact .inr (.left mem fun x mem' => none x (mem_cons_of_mem _ mem'))
    · rcases mem_cons.mp mem with rfl | mem
      · exact absurd same (none a mem_cons_self)
      · exact .inr (.right mem fun x mem' => none x (mem_cons_of_mem _ mem'))
  · rintro (rfl | ⟨mem, other, same'⟩ | ⟨mem, none⟩ | ⟨mem, none⟩)
    · exact .both mem_cons_self mem_cons_self same
    · exact .both (mem_cons_of_mem _ mem) (mem_cons_of_mem _ other) same'
    · refine .left (mem_cons_of_mem _ mem) fun x mem' => ?_
      rcases mem_cons.mp mem' with rfl | mem'
      · exact aloneB _ mem
      · exact none x mem'
    · refine .right (mem_cons_of_mem _ mem) fun x mem' => ?_
      rcases mem_cons.mp mem' with rfl | mem'
      · exact aloneA _ mem
      · exact none x mem'

variable [LinearOrder κ]

@[simp]
theorem join_nil_left (bs : List β) :
    join k l [] bs = bs.map fun b => (none, some b) := by
  rw [join]

@[simp]
theorem join_nil_right (as : List α) :
    join k l as [] = as.map fun a => (some a, none) := by
  cases as with
  | nil => rw [join_nil_left, map_nil, map_nil]
  | cons a as => rw [join]

theorem none_none_not_mem_join (as : List α) (bs : List β) :
    (none, none) ∉ join k l as bs := by
  fun_induction join k l as bs with
  | case1 bs => simp
  | case2 a as => simp
  | case3 a as b bs less ih => simp [ih]
  | case4 a as b bs notLess more ih => simp [ih]
  | case5 a as b bs notLess notMore ih => simp [ih]

/-- The join of lists that are sorted by pairwise different keys -/
theorem mem_join (sortedA : as.Pairwise fun x y => k x < k y)
    (sortedB : bs.Pairwise fun x y => l x < l y) :
    p ∈ join k l as bs ↔ Joined k l as bs p := by
  fun_induction join k l as bs with
  | case1 bs =>
    rw [mem_map]
    constructor
    · rintro ⟨b, mem, rfl⟩
      exact .right mem fun a mem => absurd mem not_mem_nil
    · rintro (⟨mem, -, -⟩ | ⟨mem, -⟩ | ⟨mem, -⟩)
      · exact absurd mem not_mem_nil
      · exact absurd mem not_mem_nil
      · exact ⟨_, mem, rfl⟩
  | case2 a as =>
    rw [mem_map]
    constructor
    · rintro ⟨a, mem, rfl⟩
      exact .left mem fun b mem => absurd mem not_mem_nil
    · rintro (⟨-, mem, -⟩ | ⟨mem, -⟩ | ⟨mem, -⟩)
      · exact absurd mem not_mem_nil
      · exact ⟨_, mem, rfl⟩
      · exact absurd mem not_mem_nil
  | case3 a as b bs less ih =>
    obtain ⟨-, sortedA⟩ := pairwise_cons.mp sortedA
    rw [mem_cons, ih sortedA sortedB, joined_cons_left]
    intro x mem
    rcases mem_cons.mp mem with rfl | mem
    · exact less.ne
    · exact (less.trans ((pairwise_cons.mp sortedB).1 x mem)).ne
  | case4 a as b bs _ more ih =>
    obtain ⟨-, sortedB⟩ := pairwise_cons.mp sortedB
    rw [mem_cons, ih sortedA sortedB, joined_cons_right]
    intro x mem
    rcases mem_cons.mp mem with rfl | mem
    · exact more.ne'
    · exact (more.trans ((pairwise_cons.mp sortedA).1 x mem)).ne'
  | case5 a as b bs notLess notMore ih =>
    obtain ⟨beforeA, sortedA⟩ := pairwise_cons.mp sortedA
    obtain ⟨beforeB, sortedB⟩ := pairwise_cons.mp sortedB
    have same : k a = l b := le_antisymm (not_lt.mp notMore) (not_lt.mp notLess)
    rw [mem_cons, ih sortedA sortedB, joined_cons_cons same]
    · exact fun x mem => (same ▸ beforeB x mem).ne
    · exact fun x mem => (same ▸ beforeA x mem).ne'

/-- Only elements of one key come together, in any lists, iff the lists go in step. -/
theorem forall_join_iff {R : α → β → Prop} (as : List α) (bs : List β) :
    (∀ p ∈ join k l as bs, ∃ a b, p = (some a, some b) ∧ R a b) ↔
      Forall₂ (fun a b => k a = l b ∧ R a b) as bs := by
  fun_induction join k l as bs with
  | case1 bs =>
    cases bs with
    | nil => simp
    | cons b bs => simp
  | case2 a as => simp
  | case3 a as b bs less ih =>
    simp only [forall_mem_cons, List.forall₂_cons]
    constructor
    · rintro ⟨⟨a, b, same, -⟩, -⟩
      cases same
    · exact fun h => absurd h.1.1 less.ne
  | case4 a as b bs _ more ih =>
    simp only [forall_mem_cons, List.forall₂_cons]
    constructor
    · rintro ⟨⟨a, b, same, -⟩, -⟩
      cases same
    · exact fun h => absurd h.1.1 more.ne'
  | case5 a as b bs notLess notMore ih =>
    have same : k a = l b := le_antisymm (not_lt.mp notMore) (not_lt.mp notLess)
    simp only [forall_mem_cons, List.forall₂_cons, ih, same, true_and]
    refine and_congr_left fun _ => ?_
    constructor
    · rintro ⟨a, b, pair, r⟩
      cases pair
      exact r
    · exact fun r => ⟨a, b, rfl, r⟩

/-! ## Repeated keys -/

theorem filterMap_fst_join (as : List α) (bs : List β) :
    (join k l as bs).filterMap Prod.fst = as := by
  fun_induction join k l as bs with
  | case1 bs => simp
  | case2 a as => simp [filterMap_map]
  | case3 a as b bs less ih => simp [ih]
  | case4 a as b bs notLess more ih => simp [ih]
  | case5 a as b bs notLess notMore ih => simp [ih]

theorem filterMap_snd_join (as : List α) (bs : List β) :
    (join k l as bs).filterMap Prod.snd = bs := by
  fun_induction join k l as bs with
  | case1 bs => simp [filterMap_map]
  | case2 a as => simp
  | case3 a as b bs less ih => simp [ih]
  | case4 a as b bs notLess more ih => simp [ih]
  | case5 a as b bs notLess notMore ih => simp [ih]

variable (k l) in
/-- Two elements with this key -/
def bothHave (key : κ) : Option α × Option β → Bool
  | (some a, some b) => k a = key ∧ l b = key
  | _ => false

theorem countP_eq_zero_of_lt {a : κ} (above : ∀ x ∈ as, a < k x) :
    as.countP (fun x => k x = a) = 0 := by
  rw [countP_eq_zero]
  intro x mem
  simpa using (above x mem).ne'

/-- In lists that are sorted by key, of the elements with one key as many come together as the
shorter side has. -/
theorem countP_join (sortedA : as.Pairwise fun x y => k x ≤ k y)
    (sortedB : bs.Pairwise fun x y => l x ≤ l y) (key : κ) :
    (join k l as bs).countP (bothHave k l key) =
      min (as.countP fun a => k a = key) (bs.countP fun b => l b = key) := by
  fun_induction join k l as bs with
  | case1 bs =>
    rw [countP_nil, Nat.zero_min, countP_map]
    exact countP_eq_zero.mpr fun b _ => Bool.false_ne_true
  | case2 a as =>
    rw [countP_nil, Nat.min_zero, countP_map]
    exact countP_eq_zero.mpr fun a _ => Bool.false_ne_true
  | case3 a as b bs less ih =>
    obtain ⟨-, sortedA⟩ := pairwise_cons.mp sortedA
    rw [countP_cons_of_neg Bool.false_ne_true, ih sortedA sortedB]
    by_cases here : k a = key
    · -- all keys of the other list are larger
      have none : (b :: bs).countP (fun b => l b = key) = 0 := by
        refine countP_eq_zero_of_lt fun x mem => here ▸ ?_
        rcases mem_cons.mp mem with rfl | mem
        · exact less
        · exact less.trans_le ((pairwise_cons.mp sortedB).1 x mem)
      rw [none, Nat.min_zero, Nat.min_zero]
    · have behind : (a :: as).countP (fun a => k a = key) = as.countP fun a => k a = key :=
        countP_cons_of_neg (by simpa using here)
      rw [behind]
  | case4 a as b bs _ more ih =>
    obtain ⟨-, sortedB⟩ := pairwise_cons.mp sortedB
    rw [countP_cons_of_neg Bool.false_ne_true, ih sortedA sortedB]
    by_cases here : l b = key
    · have none : (a :: as).countP (fun a => k a = key) = 0 := by
        refine countP_eq_zero_of_lt fun x mem => here ▸ ?_
        rcases mem_cons.mp mem with rfl | mem
        · exact more
        · exact more.trans_le ((pairwise_cons.mp sortedA).1 x mem)
      rw [none, Nat.zero_min, Nat.zero_min]
    · have behind : (b :: bs).countP (fun b => l b = key) = bs.countP fun b => l b = key :=
        countP_cons_of_neg (by simpa using here)
      rw [behind]
  | case5 a as b bs notLess notMore ih =>
    obtain ⟨-, sortedA⟩ := pairwise_cons.mp sortedA
    obtain ⟨-, sortedB⟩ := pairwise_cons.mp sortedB
    have same : k a = l b := le_antisymm (not_lt.mp notMore) (not_lt.mp notLess)
    rw [countP_cons, ih sortedA sortedB, countP_cons, countP_cons]
    by_cases here : k a = key
    · have there : l b = key := same ▸ here
      simp only [bothHave, here, there, and_self, decide_true, if_true]
      omega
    · have there : l b ≠ key := same ▸ here
      simp [bothHave, here, there]

end Nmap.Base
