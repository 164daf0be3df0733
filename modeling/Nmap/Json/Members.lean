import Mathlib.Data.List.Perm.Basic
import Mathlib.Data.List.Nodup
import Nmap.Json.Element

/-!
# Collecting the members of an object

An object is filled by contributions, each a value for a key: attributes first, then
children. What ends up under a key depends on the contributions to that key alone
(`get_addMembers`). So contributions to other keys may be taken out of the way:
those to fresh keys simply follow (`addMembers_append`), and collecting those of a
set of keys separately only reorders the members (`addMembers_partition`).
-/

namespace Nmap.Json

open Nmap.Base List

namespace Members

def keys (ms : Members) : List Bytes := ms.map Prod.fst

@[simp] theorem keys_append (a b : Members) : keys (a ++ b) = keys a ++ keys b :=
  map_append

theorem get_set (ms : Members) (k k' : Bytes) (v : JsonValue) :
    (ms.set k v).get k' = if k = k' then some v else ms.get k' := by
  induction ms with
  | nil => simp only [set, get]
  | cons m ms ih =>
    rw [set]
    by_cases hm : m.1 = k
    · rw [if_pos hm, get, get, hm]
      by_cases hk : k = k'
      · rw [if_pos hk, if_pos hk]
      · rw [if_neg hk, if_neg hk, if_neg hk]
    · rw [if_neg hm, get, get, ih]
      by_cases hk : k = k'
      · rw [if_pos hk, if_pos hk, if_neg (hk ▸ hm)]
      · rw [if_neg hk, if_neg hk]

variable {ms : Members} {k : Bytes}

theorem get_eq_none_iff : ms.get k = none ↔ k ∉ keys ms := by
  induction ms with
  | nil => simp [get, keys]
  | cons m ms ih =>
    rw [get]
    by_cases hm : m.1 = k
    · simp [hm, keys]
    · rw [if_neg hm, ih, keys, keys, map_cons, mem_cons, not_or]
      exact ⟨fun h => ⟨fun hk => hm hk.symm, h⟩, fun h => h.2⟩

theorem set_of_not_mem (h : k ∉ keys ms) (v : JsonValue) :
    ms.set k v = ms ++ [(k, v)] := by
  induction ms with
  | nil => rfl
  | cons m ms ih =>
    rw [keys, map_cons, mem_cons, not_or] at h
    rw [set, if_neg (fun hk => h.1 hk.symm), ih h.2, cons_append]

theorem keys_set (ms : Members) (k : Bytes) (v : JsonValue) :
    keys (ms.set k v) = if k ∈ keys ms then keys ms else keys ms ++ [k] := by
  by_cases h : k ∈ keys ms
  · rw [if_pos h]
    induction ms with
    | nil => cases h
    | cons m ms ih =>
      rw [set]
      split
      · rfl
      · rename_i hm
        have hms : k ∈ keys ms := by
          rcases mem_cons.mp h with hk | hk
          · exact absurd hk.symm hm
          · exact hk
        exact congrArg (m.1 :: ·) (ih hms)
  · rw [if_neg h, set_of_not_mem h, keys_append]
    rfl

theorem nodup_set (h : (keys ms).Nodup) (k : Bytes) (v : JsonValue) :
    (keys (ms.set k v)).Nodup := by
  rw [keys_set]
  split
  · exact h
  · rename_i hk
    rw [nodup_append]
    refine ⟨h, nodup_singleton k, ?_⟩
    rintro a ha b hb rfl
    rw [mem_singleton.mp hb] at ha
    exact hk ha

theorem get_append (a b : Members) (k : Bytes) :
    get (a ++ b) k = (a.get k).or (b.get k) := by
  induction a with
  | nil => rfl
  | cons m a ih =>
    rw [cons_append, get, get, ih]
    split <;> rfl

theorem set_append_right {a b : Members} (h : k ∉ keys a) (v : JsonValue) :
    set (a ++ b) k v = a ++ b.set k v := by
  induction a with
  | nil => rfl
  | cons m a ih =>
    rw [keys, map_cons, mem_cons, not_or] at h
    rw [cons_append, set, if_neg (fun hk => h.1 hk.symm), ih h.2, cons_append]

theorem mem_iff_get (h : (keys ms).Nodup) {v : JsonValue} :
    (k, v) ∈ ms ↔ ms.get k = some v := by
  induction ms with
  | nil => simp [get]
  | cons m ms ih =>
    rw [keys, map_cons, nodup_cons] at h
    rw [mem_cons, get]
    by_cases hm : m.1 = k
    · rw [if_pos hm]
      refine ⟨?_, fun hv => Or.inl ?_⟩
      · rintro (rfl | hmem)
        · rfl
        · exact absurd (hm ▸ mem_map_of_mem hmem) h.1
      · cases hv
        rw [← hm]
    · rw [if_neg hm, ← ih h.2]
      refine ⟨?_, Or.inr⟩
      rintro (rfl | hmem)
      · exact absurd rfl hm
      · exact hmem

theorem perm_of_get {a b : Members} (ha : (keys a).Nodup) (hb : (keys b).Nodup)
    (h : ∀ k, a.get k = b.get k) : a.Perm b := by
  rw [perm_ext_iff_of_nodup ha.of_map hb.of_map]
  rintro ⟨k, v⟩
  rw [mem_iff_get ha, mem_iff_get hb, h]

end Members

/-! ## Contributions -/

/-- A value for a key, which starts an array there or not. -/
structure Contribution where
  key : Bytes
  value : JsonValue
  asArray : Bool

/-- What a further contribution makes of the value under its key. -/
def Contribution.merge (c : Contribution) : Option JsonValue → JsonValue
  | none => if c.asArray then .array [c.value] else c.value
  | some (.array arr) => .array (arr ++ [c.value])
  | some existing => .array [existing, c.value]

def addMembers (obj : Members) (cs : List Contribution) : Members :=
  cs.foldl (fun obj c => addMember obj c.key c.value c.asArray) obj

theorem addMember_eq_set (obj : Members) (c : Contribution) :
    addMember obj c.key c.value c.asArray = obj.set c.key (c.merge (obj.get c.key)) := by
  rw [addMember]
  split
  · rename_i h
    rw [h]
    rfl
  · rename_i h
    rw [h]
    rfl
  · rename_i existing noArray h
    rw [h]
    cases existing with
    | array arr => exact absurd rfl (noArray arr)
    | _ => rfl

@[simp] theorem addMembers_nil (obj : Members) : addMembers obj [] = obj := rfl

theorem addMembers_cons (obj : Members) (c : Contribution) (cs : List Contribution) :
    addMembers obj (c :: cs) = addMembers (obj.set c.key (c.merge (obj.get c.key))) cs := by
  rw [← addMember_eq_set]
  rfl

theorem addMembers_concat (obj : Members) (cs : List Contribution) (c : Contribution) :
    addMembers obj (cs ++ [c]) = addMember (addMembers obj cs) c.key c.value c.asArray := by
  rw [addMembers, foldl_append]
  rfl

theorem addMembers_append_list (obj : Members) (cs ds : List Contribution) :
    addMembers obj (cs ++ ds) = addMembers (addMembers obj cs) ds :=
  foldl_append

theorem get_addMembers (obj : Members) (cs : List Contribution) (k : Bytes) :
    (addMembers obj cs).get k =
      (cs.filter fun c => c.key = k).foldl (fun old c => some (c.merge old)) (obj.get k) := by
  induction cs generalizing obj with
  | nil => rfl
  | cons c cs ih =>
    rw [addMembers_cons, ih, Members.get_set]
    by_cases hk : c.key = k
    · rw [filter_cons_of_pos (by simpa using hk), if_pos hk, foldl_cons, hk]
    · rw [filter_cons_of_neg (by simpa using hk), if_neg hk]

theorem nodup_addMembers {obj : Members} (h : obj.keys.Nodup) (cs : List Contribution) :
    (addMembers obj cs).keys.Nodup := by
  induction cs generalizing obj with
  | nil => exact h
  | cons c cs ih =>
    rw [addMembers_cons]
    exact ih (Members.nodup_set h _ _)

theorem mem_keys_addMembers {obj : Members} {cs : List Contribution} {k : Bytes} :
    k ∈ (addMembers obj cs).keys ↔ k ∈ obj.keys ∨ k ∈ cs.map Contribution.key := by
  induction cs generalizing obj with
  | nil => simp
  | cons c cs ih =>
    rw [addMembers_cons, ih, Members.keys_set, map_cons, mem_cons, ← or_assoc]
    apply or_congr_left
    split
    · rename_i h
      exact ⟨Or.inl, fun hk => hk.elim id fun hk => hk ▸ h⟩
    · rw [mem_append, mem_singleton]

theorem addMembers_append {a : Members} {cs : List Contribution}
    (fresh : ∀ c ∈ cs, c.key ∉ a.keys) (b : Members) :
    addMembers (a ++ b) cs = a ++ addMembers b cs := by
  induction cs generalizing b with
  | nil => rfl
  | cons c cs ih =>
    have hc : c.key ∉ a.keys := fresh c (by simp)
    have hcs : ∀ c ∈ cs, c.key ∉ a.keys := fun c hc => fresh c (by simp [hc])
    have hget : Members.get (a ++ b) c.key = b.get c.key := by
      rw [Members.get_append, Members.get_eq_none_iff.mpr hc, Option.none_or]
    rw [addMembers_cons, hget, Members.set_append_right hc, ih hcs, addMembers_cons]

/-- Collecting the contributions to a set of keys separately reorders the members. -/
theorem addMembers_partition (p : Bytes → Bool) (cs : List Contribution) :
    (addMembers [] cs).Perm (addMembers [] (cs.filter fun c => p c.key) ++
      addMembers [] (cs.filter fun c => !p c.key)) := by
  have empty : Members.keys [] = [] := rfl
  have nodup : ∀ ds, (addMembers [] ds).keys.Nodup :=
    fun ds => nodup_addMembers (by simp [empty]) ds
  have keyed : ∀ (q : Bytes → Bool) (k : Bytes),
      k ∈ (addMembers [] (cs.filter fun c => q c.key)).keys → q k = true := by
    intro q k hk
    rw [mem_keys_addMembers, empty] at hk
    rcases hk with hk | hk
    · cases hk
    · obtain ⟨c, hc, rfl⟩ := mem_map.mp hk
      exact (mem_filter.mp hc).2
  apply Members.perm_of_get (nodup cs)
  · rw [Members.keys_append, nodup_append]
    refine ⟨nodup _, nodup _, ?_⟩
    rintro a ha b hb rfl
    have h1 := keyed p a ha
    have h2 := keyed (fun k => !p k) a hb
    simp [h1] at h2
  · intro k
    -- the filter by key sees only one of the two parts
    have part : ∀ q : Bytes → Bool, q k = true →
        (cs.filter fun c => q c.key).filter (fun c => c.key = k) =
          cs.filter fun c => c.key = k := by
      intro q hq
      rw [filter_filter]
      apply filter_congr
      intro c _
      by_cases hk : c.key = k
      · simp [hk, hq]
      · simp [hk]
    rw [Members.get_append]
    cases hp : p k with
    | true =>
      have other : (addMembers [] (cs.filter fun c => !p c.key)).get k = none := by
        rw [Members.get_eq_none_iff]
        intro hk
        have := keyed (fun k => !p k) k hk
        simp [hp] at this
      rw [other, Option.or_none, get_addMembers, get_addMembers, part p hp]
    | false =>
      have other : (addMembers [] (cs.filter fun c => p c.key)).get k = none := by
        rw [Members.get_eq_none_iff]
        intro hk
        have := keyed p k hk
        simp [hp] at this
      rw [other, Option.none_or, get_addMembers, get_addMembers,
        part (fun k => !p k) (by simp [hp])]

/-! ## The contributions of an element -/

def attributeContribution (a : Bytes × Bytes) : Contribution :=
  ⟨a.1, typedAttribute a.1 a.2, false⟩

/-- What a child, or a child of a transparent child, contributes. -/
def childContribution (overrideKey : Option Bytes) (child : JsonElement) : Contribution :=
  ⟨overrideKey.getD (jsonKeyForElement child.name), jsonConvertElement child,
    overrideKey.isSome || jsonElementIsArray child.name⟩

/-- What one child contributes, those it lifts included. -/
def contributions (child : JsonElement) : List Contribution :=
  if jsonElementIsTransparent child.name then
    child.children.map (childContribution (transparentChildKey child.name))
  else [childContribution none child]

theorem addAttributes_eq (obj : Members) (attrs : List (Bytes × Bytes)) :
    addAttributes obj attrs = addMembers obj (attrs.map attributeContribution) := by
  rw [addMembers, foldl_map]
  rfl

theorem addLifted_eq (obj : Members) (overrideKey : Option Bytes) (children : List JsonElement) :
    addLifted obj overrideKey children =
      addMembers obj (children.map (childContribution overrideKey)) := by
  induction children generalizing obj with
  | nil => rw [addLifted]; rfl
  | cons child children ih =>
    rw [addLifted, ih]
    rfl

theorem addChildren_eq (obj : Members) (children : List JsonElement) :
    addChildren obj children = addMembers obj (children.flatMap contributions) := by
  induction children generalizing obj with
  | nil => rw [addChildren]; rfl
  | cons child children ih =>
    rw [addChildren, ih, flatMap_cons, addMembers_append_list, contributions]
    split
    · cases child with
      | mk name attrs text grandchildren => rw [addTransparent, addLifted_eq]; rfl
    · rfl

theorem meaningMembers_eq_map (ms : Members) :
    meaningMembers ms = ms.map fun m => (Utf8.decodeLossy m.1, meaning m.2) := by
  induction ms with
  | nil => rfl
  | cons m ms ih => rw [meaningMembers, ih, map_cons]

end Nmap.Json
