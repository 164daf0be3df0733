import Mathlib.Data.Finset.Card
import Mathlib.Data.Finset.Lattice.Basic

/-!
# Unions with a guard

Sets are collected one after the other. A guarded set is left out as a whole when anything
in its scope has been collected already, even if the set itself has elements that have not.
-/

namespace Nmap.Base

open List

variable {α : Type} [DecidableEq α]

/-- A set to be collected -/
structure Guarded (α : Type) where
  guarded : Bool
  scope : Finset α
  items : Finset α
  inScope : items ⊆ scope

namespace Guarded

def collect (acc : Finset α) (g : Guarded α) : Finset α :=
  if g.guarded && decide (acc ∩ g.scope).Nonempty then acc else acc ∪ g.items

def collectAll (acc : Finset α) (gs : List (Guarded α)) : Finset α := gs.foldl collect acc

/-- An element that is missing in the end: when its first set came, something in the scope of
that set was there, and the later ones are guarded with the same effect. -/
def Lost (gs : List (Guarded α)) (x : α) : Prop :=
  ∃ before g after, gs = before ++ g :: after ∧ x ∈ g.items ∧ (∀ h ∈ before, x ∉ h.items) ∧
    g.guarded = true ∧ (∃ h ∈ before, ∃ y ∈ h.items, y ∈ g.scope) ∧
    ∀ h ∈ after, x ∈ h.items → h.guarded = true ∧ 1 < h.scope.card

/-- Every scope is `wide` or has a single element. -/
def Scoped (wide : Finset α) (gs : List (Guarded α)) : Prop :=
  ∀ g ∈ gs, g.scope = wide ∨ ∃ x, g.scope = {x}

theorem subset_collect (acc : Finset α) (g : Guarded α) : acc ⊆ collect acc g := by
  unfold collect
  split
  · exact Finset.Subset.refl _
  · exact Finset.subset_union_left

theorem subset_collectAll (acc : Finset α) (gs : List (Guarded α)) :
    acc ⊆ collectAll acc gs := by
  induction gs generalizing acc with
  | nil => exact Finset.Subset.refl _
  | cons g gs ih => exact (subset_collect acc g).trans (ih _)

variable {acc : Finset α} {g : Guarded α} {x : α}

theorem mem_collect (mem : x ∈ collect acc g) :
    x ∈ acc ∨ x ∈ g.items := by
  unfold collect at mem
  split at mem
  · exact .inl mem
  · exact Finset.mem_union.mp mem

variable {gs : List (Guarded α)}

theorem mem_collectAll (mem : x ∈ collectAll acc gs) : x ∈ acc ∨ ∃ g ∈ gs, x ∈ g.items := by
  induction gs generalizing acc with
  | nil => exact .inl mem
  | cons g gs ih =>
    rcases ih mem with here | ⟨h, hmem, later⟩
    · rcases mem_collect here with old | new
      · exact .inl old
      · exact .inr ⟨g, mem_cons_self, new⟩
    · exact .inr ⟨h, mem_cons_of_mem _ hmem, later⟩

theorem collectAll_append (acc : Finset α) (gs hs : List (Guarded α)) :
    collectAll acc (gs ++ hs) = collectAll (collectAll acc gs) hs :=
  foldl_append

theorem mem_collect_of_free (mem : x ∈ g.items) (free : g.guarded = true → acc ∩ g.scope = ∅) :
    x ∈ collect acc g := by
  unfold collect
  rw [if_neg]
  · exact Finset.mem_union_right _ mem
  · rw [Bool.and_eq_true, decide_eq_true_eq]
    rintro ⟨guarded, some⟩
    rw [free guarded] at some
    exact Finset.not_nonempty_empty some

theorem mem_collect_of_single (mem : x ∈ g.items) (single : g.guarded = false ∨ g.scope.card ≤ 1) :
    x ∈ collect acc g := by
  by_cases old : x ∈ acc
  · exact subset_collect acc g old
  · apply mem_collect_of_free mem
    intro guarded
    have card : g.scope.card ≤ 1 := by
      rcases single with free | card
      · rw [free] at guarded
        cases guarded
      · exact card
    rw [Finset.eq_empty_iff_forall_notMem]
    intro y both
    rw [Finset.mem_inter] at both
    have same : y = x := Finset.card_le_one.mp card y both.2 x (g.inScope mem)
    exact old (same ▸ both.1)

variable {wide : Finset α}

/-- Once a set reaches into `wide`, something in `wide` is collected. -/
theorem wide_collected (scopes : Scoped wide gs) (reaches : ∃ g ∈ gs, ∃ y ∈ g.items, y ∈ wide) :
    (collectAll ∅ gs ∩ wide).Nonempty := by
  induction gs using List.reverseRecOn with
  | nil =>
    obtain ⟨g, mem, -⟩ := reaches
    cases mem
  | append_singleton gs g ih =>
    rw [collectAll_append]
    show (collect (collectAll ∅ gs) g ∩ wide).Nonempty
    by_cases earlier : (collectAll ∅ gs ∩ wide).Nonempty
    · exact earlier.mono (Finset.inter_subset_inter_right (subset_collect _ g))
    · -- nothing before reaches into `wide`, so the last set does, and its guard is open
      have none := Finset.not_nonempty_iff_eq_empty.mp earlier
      have before : ¬ ∃ g ∈ gs, ∃ y ∈ g.items, y ∈ wide := fun h =>
        earlier (ih (fun g mem => scopes g (mem_append_left _ mem)) h)
      obtain ⟨h, mem, y, item, inWide⟩ := reaches
      rcases mem_append.mp mem with old | new
      · exact absurd ⟨h, old, y, item, inWide⟩ before
      · rw [mem_singleton.mp new] at item
        refine ⟨y, Finset.mem_inter.mpr ⟨mem_collect_of_free item fun _ => ?_, inWide⟩⟩
        rcases scopes g (by simp) with same | ⟨z, single⟩
        · rw [same]
          exact none
        · have isY : y = z := by
            have inScope := g.inScope item
            rw [single, Finset.mem_singleton] at inScope
            exact inScope
          rw [single, ← isY, Finset.eq_empty_iff_forall_notMem]
          intro w both
          rw [Finset.mem_inter, Finset.mem_singleton] at both
          have inBoth : w ∈ collectAll ∅ gs ∩ wide :=
            Finset.mem_inter.mpr ⟨both.1, both.2 ▸ inWide⟩
          rw [none] at inBoth
          exact Finset.notMem_empty _ inBoth

/-- With something in `wide` collected, guarded sets with that scope add nothing. -/
theorem notMem_collectAll (scopes : Scoped wide gs) (some : (acc ∩ wide).Nonempty)
    (missing : x ∉ acc) (held : ∀ g ∈ gs, x ∈ g.items → g.guarded = true ∧ 1 < g.scope.card) :
    x ∉ collectAll acc gs := by
  induction gs generalizing acc with
  | nil => exact missing
  | cons g gs ih =>
    refine ih (fun g mem => scopes g (mem_cons_of_mem _ mem))
      (some.mono (Finset.inter_subset_inter_right (subset_collect acc g))) ?_
      fun g mem => held g (mem_cons_of_mem _ mem)
    by_cases item : x ∈ g.items
    · obtain ⟨guarded, card⟩ := held g mem_cons_self item
      have isWide : g.scope = wide := by
        rcases scopes g mem_cons_self with same | ⟨y, single⟩
        · exact same
        · rw [single, Finset.card_singleton] at card
          exact absurd card (Nat.lt_irrefl 1)
      unfold collect
      rw [if_pos]
      · exact missing
      · rw [Bool.and_eq_true, decide_eq_true_eq, isWide]
        exact ⟨guarded, some⟩
    · exact fun mem => (mem_collect mem).elim missing item

/-- **What is collected**: the elements of all sets, less those that are lost. -/
theorem mem_collect_iff (scopes : Scoped wide gs) (x : α) :
    x ∈ collectAll ∅ gs ↔ (∃ g ∈ gs, x ∈ g.items) ∧ ¬ Lost gs x := by
  constructor
  · intro mem
    refine ⟨(mem_collectAll mem).resolve_left (Finset.notMem_empty x), ?_⟩
    rintro ⟨before, g, after, rfl, item, first, guarded, ⟨h, hmem, y, hy, inScope⟩, held⟩
    have ne : y ≠ x := fun same => first h hmem (same ▸ hy)
    have isWide : g.scope = wide := by
      rcases scopes g (by simp) with same | ⟨z, single⟩
      · exact same
      · have hx := g.inScope item
        rw [single, Finset.mem_singleton] at hx inScope
        exact absurd (inScope.trans hx.symm) ne
    have scopedBefore : Scoped wide before := fun g mem => scopes g (mem_append_left _ mem)
    have scopedAfter : Scoped wide (g :: after) := fun g mem =>
      scopes g (mem_append_right _ mem)
    have collected := wide_collected scopedBefore ⟨h, hmem, y, hy, isWide ▸ inScope⟩
    rw [collectAll_append] at mem
    refine notMem_collectAll scopedAfter collected ?_ ?_ mem
    · intro early
      rcases mem_collectAll early with none | ⟨h, hmem, hx⟩
      · exact Finset.notMem_empty x none
      · exact first h hmem hx
    · intro k kmem hx
      rcases mem_cons.mp kmem with rfl | later
      · have two : 1 < k.scope.card := Finset.one_lt_card.mpr ⟨y, inScope, x, k.inScope item, ne⟩
        exact ⟨guarded, two⟩
      · exact held k later hx
  · rintro ⟨some, kept⟩
    -- cut the list at the first set that has the element
    obtain ⟨before, g, after, eq, item, first⟩ : ∃ before g after, gs = before ++ g :: after ∧
        x ∈ g.items ∧ ∀ h ∈ before, x ∉ h.items := by
      clear kept scopes
      induction gs with
      | nil =>
        obtain ⟨g, mem, -⟩ := some
        cases mem
      | cons g gs ih =>
        by_cases item : x ∈ g.items
        · exact ⟨[], g, gs, rfl, item, fun h mem => absurd mem not_mem_nil⟩
        · obtain ⟨h, mem, hx⟩ := some
          have later : h ∈ gs := (mem_cons.mp mem).resolve_left fun same =>
            item (same ▸ hx)
          obtain ⟨before, k, after, rfl, hk, first⟩ := ih ⟨h, later, hx⟩
          refine ⟨g :: before, k, after, rfl, hk, fun h mem => ?_⟩
          rcases mem_cons.mp mem with rfl | mem
          · exact item
          · exact first h mem
    rw [eq, collectAll_append]
    show x ∈ collectAll (collect (collectAll ∅ before) g) after
    by_cases free : g.guarded = true → collectAll ∅ before ∩ g.scope = ∅
    · exact subset_collectAll _ _ (mem_collect_of_free item free)
    · obtain ⟨guarded, overlap⟩ := Classical.not_imp.mp free
      obtain ⟨y, both⟩ := Finset.nonempty_iff_ne_empty.mpr overlap
      rw [Finset.mem_inter] at both
      obtain ⟨h, hmem, hy⟩ := (mem_collectAll both.1).resolve_left (Finset.notMem_empty y)
      have later : ¬ ∀ k ∈ after, x ∈ k.items → k.guarded = true ∧ 1 < k.scope.card := fun all =>
        kept ⟨before, g, after, eq, item, first, guarded, ⟨h, hmem, y, hy, both.2⟩, all⟩
      push Not at later
      obtain ⟨k, kmem, hx, single⟩ := later
      obtain ⟨front, back, rfl⟩ := append_of_mem kmem
      rw [collectAll_append]
      refine subset_collectAll _ back (mem_collect_of_single hx ?_)
      by_cases guardedK : k.guarded = true
      · exact .inr (single guardedK)
      · exact .inl (by simpa using guardedK)

end Guarded

end Nmap.Base
