import Mathlib.Data.List.Basic
import Mathlib.Data.List.Nodup

/-!
# Lists in groups

A list in which the elements with one key stand together, with a pointer to the first of each
group: what inserting before the first of a group, appending a new group and removing an
element do to the grouping and to the pointers, and why a walk that follows successors goes
through a whole group.
-/

namespace Nmap

open List

variable {α κ : Type*}

/-- Elements with one key stand together: where a key comes again, it comes next. -/
def Grouped (key : α → κ) : List α → Prop
  | [] => True
  | a :: rest => (∀ b ∈ rest, key b = key a → ∀ c ∈ rest.head?, key c = key a) ∧ Grouped key rest

section

variable [DecidableEq κ]

def firstWith (key : α → κ) (k : κ) (l : List α) : Option α := l.find? fun a => key a = k

end

section

variable [DecidableEq α]

/-- `a` inserted before an element -/
def insertBefore (before a : α) : List α → List α
  | [] => [a]
  | b :: rest => if b = before then a :: b :: rest else b :: insertBefore before a rest

/-- The element behind `a` -/
def nextOf (a : α) : List α → Option α
  | [] => none
  | b :: rest => if b = a then rest.head? else nextOf a rest

/-- The element in front of `a` -/
def prevOf (a : α) : List α → Option α
  | b :: c :: rest => if c = a then some b else prevOf a (c :: rest)
  | _ => none

end

/-- `b` is `a` or comes behind it. -/
def FromOn (a b : α) (l : List α) : Prop := (b = a ∧ a ∈ l) ∨ [a, b].Sublist l

/-! ## Membership -/

section

variable [DecidableEq α] {a b before : α} {l : List α}

attribute [local simp] insertBefore in
@[simp] theorem mem_insertBefore : b ∈ insertBefore before a l ↔ b = a ∨ b ∈ l := by
  induction l with
  | nil => simp
  | cons c rest ih =>
    rw [insertBefore]
    by_cases here : c = before
    · rw [if_pos here, mem_cons]
    · rw [if_neg here, mem_cons, ih, mem_cons]
      exact or_left_comm

theorem sublist_insertBefore : l.Sublist (insertBefore before a l) := by
  induction l with
  | nil => exact nil_sublist _
  | cons c rest ih =>
    rw [insertBefore]
    by_cases here : c = before
    · rw [if_pos here]
      exact sublist_cons_self a (c :: rest)
    · rw [if_neg here]
      exact ih.cons_cons c

theorem nodup_insertBefore (nodup : l.Nodup) (new : a ∉ l) : (insertBefore before a l).Nodup := by
  induction l with
  | nil => exact nodup_singleton a
  | cons c rest ih =>
    rw [insertBefore]
    by_cases here : c = before
    · rw [if_pos here]
      exact nodup_cons.mpr ⟨new, nodup⟩
    · rw [if_neg here, nodup_cons, mem_insertBefore]
      rw [mem_cons, not_or] at new
      have parts := nodup_cons.mp nodup
      refine ⟨?_, ih parts.2 new.2⟩
      rintro (same | later)
      · exact new.1 same.symm
      · exact parts.1 later

theorem nextOf_mem {c : α} (next : nextOf a l = some c) : c ∈ l := by
  induction l with
  | nil => simp [nextOf] at next
  | cons b rest ih =>
    rw [nextOf] at next
    by_cases here : b = a
    · rw [if_pos here] at next
      exact mem_cons_of_mem _ (mem_of_mem_head? next)
    · rw [if_neg here] at next
      exact mem_cons_of_mem _ (ih next)

theorem nextOf_ne {c : α} (nodup : l.Nodup) (next : nextOf a l = some c) : c ≠ a := by
  induction l with
  | nil => simp [nextOf] at next
  | cons b rest ih =>
    have parts := nodup_cons.mp nodup
    rw [nextOf] at next
    by_cases here : b = a
    · rw [if_pos here] at next
      rintro rfl
      rw [here] at parts
      exact parts.1 (mem_of_mem_head? next)
    · rw [if_neg here] at next
      exact ih parts.2 next

end

/-! ## Grouping -/

section

variable {key key' : α → κ} {a : α} {l : List α}

theorem Grouped.congr (grouped : Grouped key l) (same : ∀ b ∈ l, key' b = key b) :
    Grouped key' l := by
  induction l with
  | nil => trivial
  | cons b rest ih =>
    refine ⟨?_, ih grouped.2 fun c mem => same c (mem_cons_of_mem b mem)⟩
    intro c mem keys d first
    have behind : d ∈ rest := mem_of_mem_head? first
    rw [same d (mem_cons_of_mem b behind), same b mem_cons_self]
    rw [same c (mem_cons_of_mem b mem), same b mem_cons_self] at keys
    exact grouped.1 c mem keys d first

theorem Grouped.between (grouped : Grouped key l) {b c : α} (inside : [a, b, c].Sublist l)
    (ends : key c = key a) : key b = key a := by
  induction l generalizing a b with
  | nil => cases inside
  | cons d rest ih =>
    cases inside with
    | cons _ later => exact ih grouped.2 later ends
    | cons_cons _ later =>
      -- the element next to the first has its key, and is `b` or stands before it
      cases rest with
      | nil => cases later
      | cons e rest =>
        have next : key e = key d :=
          grouped.1 c (later.subset (by simp)) ends e rfl
        cases later with
        | cons_cons _ last => exact next
        | cons _ last =>
          have step : [e, b, c].Sublist (e :: rest) := last.cons_cons e
          exact (ih grouped.2 step (ends.trans next.symm)).trans next

theorem Grouped.append (grouped : Grouped key l) (new : ∀ b ∈ l, key b ≠ key a) :
    Grouped key (l ++ [a]) := by
  induction l with
  | nil => simp [Grouped]
  | cons b rest ih =>
    refine ⟨?_, ih grouped.2 fun c mem => new c (mem_cons_of_mem b mem)⟩
    intro c mem keys d first
    rcases mem_append.mp mem with here | last
    · cases rest with
      | nil => cases here
      | cons e rest => exact grouped.1 c here keys d first
    · rw [mem_singleton.mp last] at keys
      exact absurd keys.symm (new b mem_cons_self)

variable [DecidableEq α]

theorem Grouped.erase (grouped : Grouped key l) : Grouped key (l.erase a) := by
  induction l with
  | nil => trivial
  | cons b rest ih =>
    by_cases here : b = a
    · rw [here, erase_cons_head]
      exact grouped.2
    · rw [erase_cons_tail (by simpa using here)]
      refine ⟨?_, ih grouped.2⟩
      intro c mem keys d first
      cases rest with
      | nil => cases first
      | cons e rest =>
        have next : key e = key b := grouped.1 c (mem_of_mem_erase mem) keys e rfl
        by_cases gone : e = a
        · rw [gone, erase_cons_head] at mem first
          rw [← next]
          exact grouped.2.1 c mem (keys.trans next.symm) d first
        · rw [erase_cons_tail (by simpa using gone)] at first
          cases first
          exact next

variable [DecidableEq κ]

theorem Grouped.insertBefore {before : α} (grouped : Grouped key l)
    (first : firstWith key (key a) l = some before) : Grouped key (insertBefore before a l) := by
  induction l with
  | nil => cases first
  | cons b rest ih =>
    rw [firstWith, List.find?_cons] at first
    by_cases same : key b = key a
    · simp only [same, decide_true, Option.some.injEq] at first
      rw [Nmap.insertBefore, if_pos first]
      refine ⟨?_, grouped⟩
      intro c mem keys d head
      cases head
      exact same
    · simp only [same, decide_false] at first
      have other : b ≠ before := by
        rintro rfl
        have found := List.find?_some first
        exact same (by simpa using found)
      rw [Nmap.insertBefore, if_neg other]
      refine ⟨?_, ih grouped.2 first⟩
      intro c mem keys d head
      have later : c ∈ rest := by
        rcases mem_insertBefore.mp mem with new | old
        · rw [new] at keys
          exact absurd keys.symm same
        · exact old
      cases rest with
      | nil => cases later
      | cons e rest =>
        have next : key e = key b := grouped.1 c later keys e rfl
        have notBefore : e ≠ before := by
          rintro rfl
          have found := List.find?_some first
          rw [decide_eq_true_eq] at found
          exact same (next.symm.trans found)
        rw [Nmap.insertBefore, if_neg notBefore] at head
        cases head
        exact next

end

/-! ## The first of a group -/

section

variable [DecidableEq κ] {key key' : α → κ} {a b : α} {k : κ} {l : List α}

theorem firstWith_congr (same : ∀ b ∈ l, key' b = key b) :
    firstWith key' k l = firstWith key k l := by
  induction l with
  | nil => rfl
  | cons b rest ih =>
    have later := ih fun c mem => same c (mem_cons_of_mem b mem)
    rw [firstWith, firstWith] at later
    rw [firstWith, firstWith, List.find?_cons, List.find?_cons, same b mem_cons_self, later]

theorem firstWith_mem (first : firstWith key k l = some a) : a ∈ l :=
  mem_of_find?_eq_some first

theorem firstWith_key (first : firstWith key k l = some a) : key a = k := by
  have found := List.find?_some first
  exact of_decide_eq_true found

theorem firstWith_eq_none : firstWith key k l = none ↔ ∀ b ∈ l, key b ≠ k := by
  simp [firstWith]

theorem firstWith_append (new : ∀ b ∈ l, key b ≠ key a) :
    firstWith key k (l ++ [a]) = if k = key a then some a else firstWith key k l := by
  rw [firstWith, List.find?_append]
  by_cases here : k = key a
  · subst here
    have none := firstWith_eq_none.mpr new
    rw [firstWith] at none
    simp [none]
  · have other : ¬ key a = k := fun eq => here eq.symm
    simp [firstWith, here, other]

variable [DecidableEq α]

theorem firstWith_insertBefore {before : α} (first : firstWith key (key a) l = some before) :
    firstWith key k (insertBefore before a l) =
      if k = key a then some a else firstWith key k l := by
  induction l with
  | nil => cases first
  | cons b rest ih =>
    rw [firstWith, List.find?_cons] at first
    by_cases same : key b = key a
    · simp only [same, decide_true, Option.some.injEq] at first
      rw [insertBefore, if_pos first, firstWith, List.find?_cons]
      by_cases here : k = key a
      · simp [here]
      · have other : ¬ key a = k := fun eq => here eq.symm
        simp [here, other, firstWith]
    · simp only [same, decide_false] at first
      have other : b ≠ before := by
        rintro rfl
        exact same (firstWith_key first)
      have later := ih first
      rw [firstWith] at later
      rw [insertBefore, if_neg other, firstWith, List.find?_cons, later, firstWith, firstWith,
        List.find?_cons]
      by_cases here : k = key a
      · simp [here, same]
      · simp [here]

theorem firstWith_erase_of_ne (other : firstWith key k l ≠ some a) :
    firstWith key k (l.erase a) = firstWith key k l := by
  induction l with
  | nil => rfl
  | cons b rest ih =>
    rw [firstWith, List.find?_cons] at other
    by_cases here : b = a
    · rw [here, erase_cons_head, firstWith, firstWith, List.find?_cons]
      rw [here] at other
      by_cases same : key a = k
      · simp [same] at other
      · simp [same]
    · rw [erase_cons_tail (by simpa using here), firstWith, firstWith, List.find?_cons,
        List.find?_cons]
      by_cases same : key b = k
      · simp [same]
      · simp only [same, decide_false] at other ⊢
        exact ih other

/-- Behind the first of a group is the new first, or the group is empty. -/
theorem firstWith_erase_first (grouped : Grouped key l) (nodup : l.Nodup)
    (first : firstWith key k l = some a) :
    firstWith key k (l.erase a) = (nextOf a l).filter fun c => key c = k := by
  induction l with
  | nil => cases first
  | cons b rest ih =>
    have parts := nodup_cons.mp nodup
    rw [firstWith, List.find?_cons] at first
    by_cases same : key b = k
    · simp only [same, decide_true, Option.some.injEq] at first
      subst first
      rw [erase_cons_head, nextOf, if_pos rfl]
      cases rest with
      | nil => rfl
      | cons c rest =>
        by_cases next : key c = k
        · simp [firstWith, next, Option.filter]
        · have none : firstWith key k (c :: rest) = none := by
            rw [firstWith_eq_none]
            intro d mem keys
            exact next ((grouped.1 d mem (keys.trans same.symm) c rfl).trans same)
          rw [none]
          simp [next, Option.filter]
    · simp only [same, decide_false] at first
      have other : b ≠ a := by
        rintro rfl
        exact same (firstWith_key first)
      rw [erase_cons_tail (by simpa using other), nextOf, if_neg other, firstWith,
        List.find?_cons]
      simp only [same, decide_false]
      exact ih grouped.2 parts.2 first

end

/-! ## Walking through a group -/

section

variable {a b c : α} {l m : List α}

theorem FromOn.start_mem (walk : FromOn a b l) : a ∈ l := by
  rcases walk with ⟨-, mem⟩ | inside
  · exact mem
  · exact inside.subset (by simp)

theorem FromOn.mono (walk : FromOn a b l) (sub : l.Sublist m) : FromOn a b m :=
  walk.imp (fun here => ⟨here.1, sub.subset here.2⟩) fun inside => inside.trans sub

theorem fromOn_first [DecidableEq κ] {key : α → κ} {k : κ} (first : firstWith key k l = some a)
    (mem : b ∈ l) (keys : key b = k) : FromOn a b l := by
  induction l with
  | nil => cases mem
  | cons d rest ih =>
    rw [firstWith, List.find?_cons] at first
    by_cases same : key d = k
    · simp only [same, decide_true, Option.some.injEq] at first
      subst first
      rcases mem_cons.mp mem with rfl | later
      · exact .inl ⟨rfl, by simp⟩
      · exact .inr ((singleton_sublist.mpr later).cons_cons d)
    · simp only [same, decide_false] at first
      rcases mem_cons.mp mem with rfl | later
      · exact absurd keys same
      · exact (ih first later).mono (sublist_cons_self d rest)

variable [DecidableEq α]

theorem FromOn.erase (walk : FromOn a b l) (notA : c ≠ a) (notB : c ≠ b) :
    FromOn a b (l.erase c) := by
  rcases walk with ⟨rfl, mem⟩ | inside
  · exact .inl ⟨rfl, (mem_erase_of_ne notA.symm).mpr mem⟩
  · have kept := inside.erase c
    rw [erase_of_not_mem (by simp [notA, notB])] at kept
    exact .inr kept

/-- The walk from `a` on goes on with the element behind `a`. -/
theorem FromOn.next (walk : FromOn a b l) (nodup : l.Nodup) (other : b ≠ a) :
    ∃ c, nextOf a l = some c ∧ FromOn c b l := by
  have inside : [a, b].Sublist l := walk.resolve_left fun here => other here.1
  clear walk
  induction l with
  | nil => cases inside
  | cons d rest ih =>
    have parts := nodup_cons.mp nodup
    cases inside with
    | cons _ later =>
      have notHere : d ≠ a := by
        rintro rfl
        exact parts.1 (later.subset (by simp))
      obtain ⟨c, next, more⟩ := ih parts.2 later
      rw [nextOf, if_neg notHere]
      exact ⟨c, next, more.mono (sublist_cons_self d rest)⟩
    | cons_cons _ last =>
      have mem : b ∈ rest := last.subset (by simp)
      rw [nextOf, if_pos rfl]
      cases rest with
      | nil => cases mem
      | cons c rest =>
        refine ⟨c, rfl, ?_⟩
        rcases mem_cons.mp mem with rfl | later
        · exact .inl ⟨rfl, by simp⟩
        · have pair : [c, b].Sublist (c :: rest) :=
            (singleton_sublist.mpr later).cons_cons c
          exact .inr (pair.cons a)

theorem Grouped.next_key {key : α → κ} (grouped : Grouped key l) (nodup : l.Nodup)
    (walk : FromOn a b l) (same : key b = key a) (next : nextOf a l = some c) (other : b ≠ a) :
    key c = key a := by
  have inside : [a, b].Sublist l := walk.resolve_left fun here => other here.1
  clear walk
  induction l with
  | nil => cases inside
  | cons d rest ih =>
    have parts := nodup_cons.mp nodup
    cases inside with
    | cons _ later =>
      have notHere : d ≠ a := by
        rintro rfl
        exact parts.1 (later.subset (by simp))
      rw [nextOf, if_neg notHere] at next
      exact ih grouped.2 parts.2 next later
    | cons_cons _ last =>
      rw [nextOf, if_pos rfl] at next
      exact grouped.1 b (last.subset (by simp)) same c next

end

end Nmap
