import Nmap.Addrset.TrieInsert

/-!
# Merging one radix tree into another (`trie_update`)

`trie_update` re-derives a prefix for every full node and every full half of the
other tree and inserts them one by one. `UpdateOk` is the condition on the two
trees under which the result is their union, and `trieUpdate_union_iff` proves it
to be exact. It has two parts, both consequences of how an insertion treats the
off half of its prefix:

* an inserted prefix must not have its off half split by the receiving tree, and
* a full node that repeats its parent's mask on the zero branch is inserted with
  the parent's whole prefix, so it spills over the one branch when the receiving
  tree has nothing there.
-/

namespace Nmap.Addrset

namespace Trie

/-- The number of leading ones of a mask word. -/
def wordLength (w : U32) : Nat := (List.range 33).findIdx (wordMask · == w)

/-- The number of bits a prefix mask covers. -/
def maskLength (mask : Words) : Nat := (mask.map wordLength).sum

/-- The number of pointers in a tree, which bounds the work of `trie_update`. -/
def size : Trie → Nat
  | null => 1
  | nodeTrue => 1
  | node _ _ one zero => 1 + one.size + zero.size

theorem size_pos (t : Trie) : 0 < t.size := by
  cases t <;> simp only [size] <;> omega

/-- `next_bit_one` or `next_bit_zero` is a node, which `trie_update` pushes. -/
def isNode : Trie → Bool
  | node .. => true
  | _ => false

end Trie

namespace TrieRoot

open Trie

/-- The insertion of a half-`TRUE` node: the node's prefix with one bit more. -/
def insertHalf (r : TrieRoot) (one : Bool) (addr mask : Words) : TrieRoot :=
  let half := extendMask one addr mask
  r.trieInsertAddr half.1 half.2

/-- What the body of the loop of `trie_update` inserts for one node. -/
def updateNode (r : TrieRoot) (addr mask : Words) (one zero : Trie) : TrieRoot :=
  if bothTrue one zero then r.trieInsertAddr addr mask
  else
    let r := if one = nodeTrue then r.insertHalf true addr mask else r
    if zero = nodeTrue then r.insertHalf false addr mask else r

/-- What the body of the loop pushes for one node: the zero branch on top. -/
def updatePush (one zero : Trie) : List Trie :=
  (if zero.isNode then [zero] else []) ++ (if one.isNode then [one] else [])

/-- The loop of `trie_update` with its explicit stack. Only nodes are pushed. -/
def updateLoop (r : TrieRoot) : List Trie → TrieRoot
  | [] => r
  | .node addr mask one zero :: stack =>
    updateLoop (r.updateNode addr mask one zero) (updatePush one zero ++ stack)
  | _ :: stack => updateLoop r stack
termination_by stack => (stack.map size).sum
decreasing_by
  · cases one <;> cases zero <;> simp [updatePush, isNode, size] <;> omega
  · simp [size_pos]

/-- The root as the node `trie_update` starts from. -/
def toNode (r : TrieRoot) : Trie := .node rootMask rootMask r.nextBitOne r.nextBitZero

/-- `trie_update` of two different tries. -/
def trieUpdate (r other : TrieRoot) : TrieRoot := updateLoop r [other.toNode]

/-- The same walk without the stack: a node, then everything below its zero
branch, then everything below its one branch. -/
def updateWalk (r : TrieRoot) : Trie → TrieRoot
  | .node addr mask one zero =>
    updateWalk (updateWalk (r.updateNode addr mask one zero) zero) one
  | _ => r

theorem updateLoop_cons (r : TrieRoot) (t : Trie) (stack : List Trie) :
    updateLoop r (t :: stack) = updateLoop (r.updateWalk t) stack := by
  induction t generalizing r stack with
  | null => rw [updateLoop, updateWalk] <;> simp
  | nodeTrue => rw [updateLoop, updateWalk] <;> simp
  | node addr mask one zero ihOne ihZero =>
    rw [updateLoop, updateWalk]
    -- branches that are not pushed do nothing in the recursion either
    have pushed : ∀ (r : TrieRoot) (t : Trie) (rest : List Trie),
        (updateLoop r (t :: rest) = updateLoop (r.updateWalk t) rest) →
        updateLoop r ((if t.isNode then [t] else []) ++ rest) =
          updateLoop (r.updateWalk t) rest := by
      intro r t rest h
      cases t <;> simp_all [isNode, updateWalk]
    rw [updatePush, List.append_assoc, pushed _ _ _ (ihZero _ _), pushed _ _ _ (ihOne _ _)]

theorem trieUpdate_eq_updateWalk (r other : TrieRoot) :
    r.trieUpdate other = r.updateWalk other.toNode := by
  rw [trieUpdate, updateLoop_cons, updateLoop]

end TrieRoot

/-! ## When the union comes out -/

/-- One half of the prefix of length `l` of `a`. -/
def Half (a : Words) (l : Nat) (b : Bool) (x : Words) : Prop :=
  x.length = 4 ∧ AgreeUpTo l a x ∧ bit x l = b

/-- Inserting `(a, m)` into a tree that matches `M` adds the whole prefix, up to
addresses in `E` that are known from elsewhere. -/
def Whole (M E : Words → Prop) (a : Words) (m : Nat) : Prop :=
  m ≤ 1 ∨ (∀ y, OffHalf a m y → ¬ M y) ∨ (∀ y, OffHalf a m y → M y ∨ E y)

namespace Trie

/-- The branch is a node with the mask of its parent. -/
def repeats (mask : Words) : Trie → Bool
  | node _ cm _ _ => cm == mask
  | _ => false

/-- The condition on the receiving tree, which matches `M`, under which walking
the other tree `t` adds exactly what `t` matches, up to addresses in `E`. -/
def UpdateOk (M E : Words → Prop) : Trie → Prop
  | null => True
  | nodeTrue => True
  | node a mask one zero =>
    let l := maskLength mask
    if bothTrue one zero then Whole M E a l
    else
      (if one = nodeTrue then Whole M E (setBit a l true) (l + 1)
        else repeats mask one = true ∨ UpdateOk M E one) ∧
      (if zero = nodeTrue then Whole M E (setBit a l false) (l + 1)
        else repeats mask zero = true ∨ UpdateOk M E zero) ∧
      -- the spill of a repeated zero branch
      (repeats mask zero = true → (∀ y, Half a l true y → ¬ M y) →
        ∀ y, Half a l true y → matchWalk y one = true ∨ E y)

variable {l : Nat}

private theorem maskLength_prefixMask (hl : l ≤ 128) :
    maskLength (prefixMask 4 l) = l := by
  have word : ∀ k < 33, wordLength (wordMask k) = k := by decide
  have each (m : Nat) : wordLength (wordMask (min m 32)) = min m 32 := word _ (by omega)
  simp only [maskLength, prefixMask, List.map_cons, List.map_nil, each, List.sum_cons, List.sum_nil]
  omega

theorem prefixMask_inj {l' : Nat} (hl : l ≤ 128) (hl' : l' ≤ 128)
    (h : prefixMask 4 l = prefixMask 4 l') : l = l' := by
  rw [← maskLength_prefixMask hl, h, maskLength_prefixMask hl']

/-- The condition for one branch of a node. -/
def BranchOk (M E : Words → Prop) (a : Words) (l : Nat) (mask : Words) (b : Bool)
    (child : Trie) : Prop :=
  if child = nodeTrue then Whole M E (setBit a l b) (l + 1)
  else repeats mask child = true ∨ UpdateOk M E child

/-! ### The condition looks only at the prefix of the tree -/

variable {a : Words}

theorem half_iff {x : Words} (len : a.length = 4) (hl : l < 128) (b : Bool) :
    Half a l b x ↔ x.length = 4 ∧ AgreeUpTo (l + 1) (setBit a l b) x := by
  rw [agreeUpTo_setBit len hl]
  exact Iff.rfl

variable {M E : Words → Prop}

theorem whole_congr {M' : Words → Prop} {m : Nat}
    (same : ∀ x, x.length = 4 → AgreeUpTo m a x → (M x ↔ M' x)) :
    Whole M E a m ↔ Whole M' E a m := by
  refine or_congr_right (or_congr (forall_congr' fun y => ?_) (forall_congr' fun y => ?_))
  · exact forall_congr' fun off => not_congr (same y off.1 off.2.1)
  · exact forall_congr' fun off => or_congr_left (same y off.1 off.2.1)

/-- A condition that says nothing about a tree it finds empty and that is full
up to `E` anyway. -/
theorem whole_of_empty {m : Nat} (empty : ∀ x, x.length = 4 → AgreeUpTo m a x → ¬ M x) :
    Whole M E a m :=
  .inr (.inl fun y off => empty y off.1 off.2.1)

variable {p : Words} {k : Nat} {t : Trie}

/-- An induction over the normal nodes of a branch, with the conditions of the
two branches of a node as the step. -/
theorem nodeInduction {P : Words → Nat → Trie → Prop}
    (full : ∀ p a k l, a.length = 4 → AgreeUpTo k p a → k ≤ l → l ≤ 128 →
      P p k (newTrieNode a (prefixMask 4 l)))
    (step : ∀ p a k l one zero, a.length = 4 → AgreeUpTo k p a → k ≤ l → l < 128 →
      bothTrue one zero = false →
      WF (setBit a l true) (l + 1) one → WF (setBit a l false) (l + 1) zero →
      (repeats (prefixMask 4 l) one = false → one.isNode = true →
        P (setBit a l true) (l + 1) one) →
      (repeats (prefixMask 4 l) zero = false → zero.isNode = true →
        P (setBit a l false) (l + 1) zero) →
      P p k (node a (prefixMask 4 l) one zero))
    (wf : WF p k t) :
    t.isNode = true → (∀ l, k = l + 1 → repeats (prefixMask 4 l) t = false) → P p k t := by
  induction wf with
  | full p k => simp [isNode]
  | @repeated p a k l len pos two short bound =>
    intro _ h
    have := h l short.symm
    simp [repeats] at this
  | @node p a k l one zero len pos long bound last wfOne wfZero ihOne ihZero =>
    intro _ _
    cases hboth : bothTrue one zero with
    | true =>
      obtain ⟨rfl, rfl⟩ := bothTrue_iff.mp hboth
      exact full p a k l len pos long bound
    | false =>
      have hl : l ≠ 128 := by
        intro h
        obtain ⟨rfl, rfl⟩ := last h
        simp [bothTrue] at hboth
      have child : ∀ t : Trie, repeats (prefixMask 4 l) t = false →
          ∀ l', l + 1 = l' + 1 → repeats (prefixMask 4 l') t = false := by
        intro t h l' hl'
        rw [show l' = l by omega]
        exact h
      exact step p a k l one zero len pos long (by omega) hboth wfOne wfZero
        (fun h hn => ihOne hn (child one h)) (fun h hn => ihZero hn (child zero h))

theorem updateOk_node {one zero : Trie} (hl : l < 128) (some : bothTrue one zero = false) :
    UpdateOk M E (node a (prefixMask 4 l) one zero) ↔
      BranchOk M E a l (prefixMask 4 l) true one ∧
      BranchOk M E a l (prefixMask 4 l) false zero ∧
      (repeats (prefixMask 4 l) zero = true → (∀ y, Half a l true y → ¬ M y) →
        ∀ y, Half a l true y → matchWalk y one = true ∨ E y) := by
  simp only [UpdateOk, some, Bool.false_eq_true, if_false, maskLength_prefixMask (Nat.le_of_lt hl),
    BranchOk]

theorem updateOk_full (hl : l ≤ 128) :
    UpdateOk M E (newTrieNode a (prefixMask 4 l)) ↔ Whole M E a l := by
  simp only [newTrieNode, UpdateOk, bothTrue, if_true, maskLength_prefixMask hl]

theorem branchOk_congr_of {M' : Words → Prop} {mask : Words} {b : Bool} {child : Trie}
    (len : a.length = 4) (hl : l < 128) (same : ∀ x, Half a l b x → (M x ↔ M' x))
    (ih : repeats mask child = false → child ≠ nodeTrue →
      (UpdateOk M E child ↔ UpdateOk M' E child)) :
    BranchOk M E a l mask b child ↔ BranchOk M' E a l mask b child := by
  unfold BranchOk
  split
  · refine whole_congr fun x lenX agree => same x ?_
    exact (half_iff len hl b).mpr ⟨lenX, agree⟩
  · rename_i hne
    cases hr : repeats mask child with
    | true => simp
    | false =>
      simp only [Bool.false_eq_true, false_or]
      exact ih hr hne

theorem WF.isNode_of_ne (wf : WF p k t) (h : t ≠ nodeTrue) :
    t.isNode = true := by
  cases wf with
  | full => exact absurd rfl h
  | repeated => rfl
  | node => rfl

/-- The condition depends on the receiving tree only where `t` matches. -/
theorem updateOk_congr (wf : WF p k t) (isNode : t.isNode = true)
    (normal : ∀ l, k = l + 1 → repeats (prefixMask 4 l) t = false) :
    ∀ M M' : Words → Prop, (∀ x, x.length = 4 → AgreeUpTo k p x → (M x ↔ M' x)) →
      (UpdateOk M E t ↔ UpdateOk M' E t) := by
  refine nodeInduction (P := fun p k t => ∀ M M' : Words → Prop,
    (∀ x, x.length = 4 → AgreeUpTo k p x → (M x ↔ M' x)) →
      (UpdateOk M E t ↔ UpdateOk M' E t)) ?_ ?_ wf isNode normal
  · intro p a k l len pos long bound M M' same
    rw [updateOk_full bound, updateOk_full bound]
    exact whole_congr fun x lenX agree => same x lenX (pos.trans (agree.mono long))
  · intro p a k l one zero len pos long bound some wfOne wfZero ihOne ihZero M M' same
    have inside : ∀ b x, Half a l b x → (M x ↔ M' x) := fun b x h =>
      same x h.1 (pos.trans (h.2.1.mono long))
    have below : ∀ b x, x.length = 4 → AgreeUpTo (l + 1) (setBit a l b) x → (M x ↔ M' x) :=
      fun b x lenX agree => inside b x ((half_iff len bound b).mpr ⟨lenX, agree⟩)
    rw [updateOk_node bound some, updateOk_node bound some,
      branchOk_congr_of len bound (inside true)
        (fun h hne => ihOne h (wfOne.isNode_of_ne hne) M M' (below true)),
      branchOk_congr_of len bound (inside false)
        (fun h hne => ihZero h (wfZero.isNode_of_ne hne) M M' (below false))]
    have empty : (∀ y, Half a l true y → ¬ M y) ↔ ∀ y, Half a l true y → ¬ M' y :=
      forall_congr' fun y => forall_congr' fun h => not_congr (inside true y h)
    rw [empty]

/-- A tree that is full up to `E` may be walked into a tree that has nothing
there, whatever its shape. -/
theorem updateOk_of_empty (wf : WF p k t) (isNode : t.isNode = true)
    (normal : ∀ l, k = l + 1 → repeats (prefixMask 4 l) t = false) :
    (∀ x, x.length = 4 → AgreeUpTo k p x → ¬ M x) →
      (∀ x, x.length = 4 → AgreeUpTo k p x → matchWalk x t = true ∨ E x) → UpdateOk M E t := by
  refine nodeInduction (P := fun p k t =>
    (∀ x, x.length = 4 → AgreeUpTo k p x → ¬ M x) →
      (∀ x, x.length = 4 → AgreeUpTo k p x → matchWalk x t = true ∨ E x) → UpdateOk M E t)
    ?_ ?_ wf isNode normal
  · intro p a k l len pos long bound empty _
    rw [updateOk_full bound]
    exact whole_of_empty fun x lenX agree => empty x lenX (pos.trans (agree.mono long))
  · intro p a k l one zero len pos long bound some wfOne wfZero ihOne ihZero empty full
    have emptyHalf : ∀ b x, x.length = 4 → AgreeUpTo (l + 1) (setBit a l b) x → ¬ M x := by
      intro b x lenX agree
      have h := (half_iff len bound b).mpr ⟨lenX, agree⟩
      exact empty x lenX (pos.trans (h.2.1.mono long))
    have fullHalf : ∀ b x, Half a l b x → matchWalk x (branch one zero b) = true ∨ E x := by
      intro b x h
      refine (full x h.1 (pos.trans (h.2.1.mono long))).imp_left fun hm => ?_
      rw [matchWalk_node len h.1 (by omega), h.2.2] at hm
      exact hm.2.resolve_left (by omega)
    have ok : ∀ b, WF (setBit a l b) (l + 1) (branch one zero b) →
        (repeats (prefixMask 4 l) (branch one zero b) = false →
          (branch one zero b).isNode = true →
          (∀ x, x.length = 4 → AgreeUpTo (l + 1) (setBit a l b) x → ¬ M x) →
          (∀ x, x.length = 4 → AgreeUpTo (l + 1) (setBit a l b) x →
            matchWalk x (branch one zero b) = true ∨ E x) →
          UpdateOk M E (branch one zero b)) →
        BranchOk M E a l (prefixMask 4 l) b (branch one zero b) := by
      intro b wfB ihB
      unfold BranchOk
      split
      · exact whole_of_empty (emptyHalf b)
      · rename_i hne
        cases hr : repeats (prefixMask 4 l) (branch one zero b) with
        | true => exact .inl rfl
        | false =>
          exact .inr (ihB hr (wfB.isNode_of_ne hne) (emptyHalf b) fun x lenX agree =>
            fullHalf b x ((half_iff len bound b).mpr ⟨lenX, agree⟩))
    rw [updateOk_node bound some]
    exact ⟨ok true wfOne ihOne, ok false wfZero ihZero, fun _ _ y h => fullHalf true y h⟩

end Trie

/-! ## The effect of walking a tree -/

namespace TrieRoot

open Trie

def Has (r : TrieRoot) (x : Words) : Prop := r.trieMatchAddr x = true

variable {r : TrieRoot} {a : Words}

/-- One insertion: nothing is lost, nothing is gained outside the prefix, the
half of the inserted address is gained, and the rest of the prefix too exactly
under `Whole`. -/
theorem insert_effect (wf : r.WF) {m : Nat} (len : a.length = 4) (hm : m ≤ 128) :
    (r.trieInsertAddr a (prefixMask 4 m)).WF ∧
    (∀ x, x.length = 4 → r.Has x → (r.trieInsertAddr a (prefixMask 4 m)).Has x) ∧
    (∀ x, x.length = 4 → ¬ AgreeUpTo m a x →
      (r.trieInsertAddr a (prefixMask 4 m)).Has x → r.Has x) ∧
    (∀ x, x.length = 4 → AgreeUpTo m a x → bit x m = bit a m →
      (r.trieInsertAddr a (prefixMask 4 m)).Has x) ∧
    (∀ x, OffHalf a m x → 2 ≤ m →
      ((r.trieInsertAddr a (prefixMask 4 m)).Has x ↔
        r.Has x ∨ ∀ y, OffHalf a m y → ¬ r.Has y)) ∧
    (∀ E : Words → Prop, (∀ x, x.length = 4 → AgreeUpTo m a x →
      (r.trieInsertAddr a (prefixMask 4 m)).Has x ∨ E x) ↔ Whole r.Has E a m) := by
  obtain ⟨wf', spec⟩ := trieInsertAddr_spec wf len hm
  have none : (∀ y, OffHalf a m y → r.trieMatchAddr y = false) ↔
      ∀ y, OffHalf a m y → ¬ r.Has y := by
    simp only [Has, Bool.not_eq_true]
  have off : ∀ x, OffHalf a m x → ((r.trieInsertAddr a (prefixMask 4 m)).Has x ↔
      r.Has x ∨ m ≤ 1 ∨ ∀ y, OffHalf a m y → ¬ r.Has y) := by
    intro x hx
    rw [Has, spec x hx.1, Gained, none]
    simp only [hx.2.1, hx.2.2, true_and, false_or, Has]
  refine ⟨wf', ?_, ?_, ?_, ?_, ?_⟩
  · intro x lenX h
    exact (spec x lenX).mpr (.inl h)
  · intro x lenX out h
    exact ((spec x lenX).mp h).resolve_right fun g => out g.1
  · intro x lenX agree hbit
    exact (spec x lenX).mpr (.inr ⟨agree, .inr (.inl hbit)⟩)
  · intro x hx two
    have : ¬ m ≤ 1 := by omega
    rw [off x hx]
    simp only [this, false_or]
  · intro E
    constructor
    · intro all
      by_cases one : m ≤ 1
      · exact .inl one
      by_cases empty : ∀ y, OffHalf a m y → ¬ r.Has y
      · exact .inr (.inl empty)
      refine .inr (.inr fun y hy => ?_)
      have := all y hy.1 hy.2.1
      rw [off y hy] at this
      simpa only [one, empty, or_false] using this
    · intro whole x lenX agree
      by_cases hbit : bit x m = bit a m
      · exact .inl ((spec x lenX).mpr (.inr ⟨agree, .inr (.inl hbit)⟩))
      have hx : OffHalf a m x := ⟨lenX, agree, hbit⟩
      rw [off x hx]
      rcases whole with one | empty | covered
      · exact .inl (.inr (.inl one))
      · exact .inl (.inr (.inr empty))
      · exact (covered x hx).imp_left .inl

/-- What walking the tree `t` on the branch `(p, k)` does to the receiving trie:
`exact` says when it adds exactly what `t` matches. -/
structure Effect (E : Words → Prop) (p : Words) (k : Nat) (t : Trie) (r r' : TrieRoot)
    (ok : Prop) : Prop where
  wf : r'.WF
  mono : ∀ x, x.length = 4 → r.Has x → r'.Has x
  frame : ∀ x, x.length = 4 → ¬ AgreeUpTo k p x → r'.Has x → r.Has x
  touch : ∃ y, y.length = 4 ∧ AgreeUpTo k p y ∧ r'.Has y
  exact : (∀ x, x.length = 4 → AgreeUpTo k p x →
    (r'.Has x ∨ E x ↔ r.Has x ∨ matchWalk x t = true ∨ E x)) ↔ ok

variable {p : Words} {k l : Nat}

theorem effect_full (E : Words → Prop) (wf : r.WF) (len : a.length = 4) (pos : AgreeUpTo k p a)
    (long : k ≤ l) (bound : l ≤ 128) :
    Effect E p k (newTrieNode a (prefixMask 4 l)) r (r.trieInsertAddr a (prefixMask 4 l))
      (Whole r.Has E a l) := by
  obtain ⟨wf', mono, frame, own, -, whole⟩ := insert_effect wf len bound
  refine ⟨wf', mono, fun x lenX out => frame x lenX fun h => out (pos.trans (h.mono long)),
    ⟨a, len, pos, own a len (AgreeUpTo.refl l a) rfl⟩, ?_⟩
  rw [← whole E]
  constructor
  · intro all x lenX agree
    rw [all x lenX (pos.trans (agree.mono long)), matchWalk_newTrieNode len lenX bound]
    exact .inr (.inl agree)
  · intro all x lenX posX
    rw [matchWalk_newTrieNode len lenX bound]
    by_cases agree : AgreeUpTo l a x
    · have := all x lenX agree
      simp only [agree, true_or, or_true, iff_true]
      exact this
    · simp only [agree, false_or]
      exact or_congr_left ⟨frame x lenX agree, mono x lenX⟩

theorem effect_half (E : Words → Prop) (wf : r.WF) (len : a.length = 4) (bound : l < 128)
    (b : Bool) :
    Effect E (setBit a l b) (l + 1) nodeTrue r (r.insertHalf b a (prefixMask 4 l))
      (Whole r.Has E (setBit a l b) (l + 1)) := by
  have lenHalf : (setBit a l b).length = 4 := by rw [setBit_length, len]
  simp only [insertHalf, extendMask_prefixMask len (show l < 32 * 4 by omega)]
  obtain ⟨wf', mono, frame, own, -, whole⟩ := insert_effect wf lenHalf (m := l + 1) (by omega)
  refine ⟨wf', mono, frame, ⟨_, lenHalf, AgreeUpTo.refl _ _,
    own _ lenHalf (AgreeUpTo.refl _ _) rfl⟩, ?_⟩
  rw [← whole E]
  simp

/-! ### The branches of a node -/

/-- What `trie_update` does for one branch of a node. -/
def updateBranch (r : TrieRoot) (b : Bool) (addr mask : Words) (child : Trie) : TrieRoot :=
  if child = nodeTrue then r.insertHalf b addr mask else r.updateWalk child

/-- The order of the branches: a full half is inserted before any node is
walked, and of two nodes the zero branch is walked first. -/
theorem updateWalk_node (r : TrieRoot) (a mask : Words) {one zero : Trie}
    (some : bothTrue one zero = false) :
    r.updateWalk (.node a mask one zero) =
      if one = nodeTrue then (r.updateBranch true a mask one).updateBranch false a mask zero
      else (r.updateBranch false a mask zero).updateBranch true a mask one := by
  simp only [updateWalk, updateNode, some, Bool.false_eq_true, if_false, updateBranch]
  by_cases hone : one = nodeTrue
  · have hzero : zero ≠ nodeTrue := by
      rintro rfl
      rw [hone] at some
      simp [bothTrue] at some
    simp only [hone, hzero, if_true, if_false, updateWalk]
  · by_cases hzero : zero = nodeTrue
    · simp only [hone, hzero, if_true, if_false, updateWalk]
    · simp only [hone, hzero, if_false]

/-- What one branch does to the receiving trie. A branch that repeats its
parent's mask spills over the other one when nothing is there. -/
structure BranchEffect (E : Words → Prop) (a mask : Words) (l : Nat) (b : Bool) (child : Trie)
    (r r' : TrieRoot) : Prop where
  wf : r'.WF
  mono : ∀ x, x.length = 4 → r.Has x → r'.Has x
  frame : ∀ x, x.length = 4 → ¬ AgreeUpTo l a x → r'.Has x → r.Has x
  other : ∀ x, Half a l (!b) x → (r'.Has x ↔
    r.Has x ∨ (repeats mask child = true ∧ ∀ y, Half a l (!b) y → ¬ r.Has y))
  touch : ∃ y, Half a l b y ∧ r'.Has y
  exact : (∀ x, Half a l b x → (r'.Has x ∨ E x ↔ r.Has x ∨ matchWalk x child = true ∨ E x)) ↔
    BranchOk r.Has E a l mask b child

variable {E : Words → Prop} {b : Bool} {child : Trie}

theorem Effect.branch {mask : Words} {r' : TrieRoot} {ok : Prop} (len : a.length = 4)
    (bound : l < 128) (h : Effect E (setBit a l b) (l + 1) child r r' ok)
    (normal : repeats mask child = false) (okIff : ok ↔ BranchOk r.Has E a l mask b child) :
    BranchEffect E a mask l b child r r' := by
  have half : ∀ x, Half a l b x ↔ x.length = 4 ∧ AgreeUpTo (l + 1) (setBit a l b) x :=
    fun x => half_iff len bound b
  refine ⟨h.wf, h.mono, fun x lenX out => h.frame x lenX fun agree => ?_, fun x hx => ?_, ?_, ?_⟩
  · exact out ((half x).mpr ⟨lenX, agree⟩).2.1
  · simp only [normal, Bool.false_eq_true, false_and, or_false]
    refine ⟨h.frame x hx.1 fun agree => ?_, h.mono x hx.1⟩
    have := ((half x).mpr ⟨hx.1, agree⟩).2.2
    rw [hx.2.2] at this
    simp at this
  · obtain ⟨y, lenY, posY, hasY⟩ := h.touch
    exact ⟨y, (half y).mpr ⟨lenY, posY⟩, hasY⟩
  · rw [← okIff, ← h.exact]
    refine forall_congr' fun x => ?_
    rw [half x, and_imp]

/-- A full node with its parent's mask. -/
theorem branchEffect_repeated (E : Words → Prop) (wf : r.WF) {c : Words} (lenA : a.length = 4)
    (lenC : c.length = 4) (two : 2 ≤ l) (bound : l < 128)
    (pos : AgreeUpTo (l + 1) (setBit a l b) c) :
    BranchEffect E a (prefixMask 4 l) l b (newTrieNode c (prefixMask 4 l)) r
      (r.trieInsertAddr c (prefixMask 4 l)) := by
  obtain ⟨agreeC, bitC⟩ := (agreeUpTo_setBit lenA bound b).mp pos
  obtain ⟨wf', mono, frame, own, off, -⟩ := insert_effect wf lenC (m := l) (by omega)
  have halfOff : ∀ x, Half a l (!b) x ↔ OffHalf c l x := by
    intro x
    unfold Half OffHalf
    rw [bitC]
    refine and_congr_right fun _ => and_congr ⟨agreeC.symm.trans, agreeC.trans⟩ ?_
    cases bit x l <;> cases b <;> simp
  have repeated : repeats (prefixMask 4 l) (newTrieNode c (prefixMask 4 l)) = true := by
    simp [newTrieNode, repeats]
  refine ⟨wf', mono, fun x lenX out => frame x lenX fun h => out (agreeC.trans h), ?_, ?_, ?_⟩
  · intro x hx
    rw [off x ((halfOff x).mp hx) two]
    simp only [repeated, true_and, halfOff]
  · exact ⟨c, ⟨lenC, agreeC, bitC⟩, own c lenC (AgreeUpTo.refl l c) rfl⟩
  · have ok : BranchOk r.Has E a l (prefixMask 4 l) b (newTrieNode c (prefixMask 4 l)) := by
      rw [BranchOk, if_neg (by simp [newTrieNode])]
      exact .inl repeated
    refine ⟨fun _ => ok, fun _ x hx => ?_⟩
    have agreeX := agreeC.symm.trans hx.2.1
    have hasX := own x hx.1 agreeX (by rw [hx.2.2, bitC])
    simp only [hasX, true_or, (matchWalk_newTrieNode lenC hx.1 (Nat.le_of_lt bound)).mpr agreeX,
      or_true]

/-- One branch of a node of the other tree, given the effect of the nodes below. -/
theorem updateBranch_effect (E : Words → Prop) (wf : r.WF) (len : a.length = 4) (bound : l < 128)
    (wfChild : Trie.WF (setBit a l b) (l + 1) child)
    (below : repeats (prefixMask 4 l) child = false → child.isNode = true →
      Effect E (setBit a l b) (l + 1) child r (r.updateWalk child) (UpdateOk r.Has E child)) :
    BranchEffect E a (prefixMask 4 l) l b child r
      (r.updateBranch b a (prefixMask 4 l) child) := by
  by_cases full : child = nodeTrue
  · subst full
    rw [updateBranch, if_pos rfl]
    refine (effect_half E wf len bound b).branch len bound rfl ?_
    rw [BranchOk, if_pos rfl]
  · rw [updateBranch, if_neg full]
    cases hr : repeats (prefixMask 4 l) child with
    | false =>
      refine (below hr (wfChild.isNode_of_ne full)).branch len bound hr ?_
      simp only [BranchOk, if_neg full, hr, Bool.false_eq_true, false_or]
    | true =>
      cases wfChild with
      | full => exact absurd rfl full
      | @repeated _ c _ l' lenC pos two short _ =>
        have : l' = l := by omega
        subst this
        exact branchEffect_repeated E wf len lenC two bound pos
      | @node _ c _ l' one zero lenC pos long boundC last _ _ =>
        have : l' = l := by
          refine prefixMask_inj boundC (Nat.le_of_lt bound) ?_
          simpa [repeats] using hr
        omega

/-- Both branches of a node, `b` before the other one. The second branch finds
something in the first half, so it never spills back. -/
theorem twoBranches_exact {mask : Words} {first second : Trie} {r1 r2 : TrieRoot}
    (h1 : BranchEffect E a mask l b first r r1) (h2 : BranchEffect E a mask l (!b) second r1 r2)
    (congr : (∀ x, Half a l (!b) x → (r.Has x ↔ r1.Has x)) →
      (BranchOk r.Has E a l mask (!b) second ↔ BranchOk r1.Has E a l mask (!b) second))
    (empty : (∀ x, Half a l (!b) x → ¬ r.Has x) →
      (∀ x, Half a l (!b) x → matchWalk x second = true ∨ E x) →
      BranchOk r.Has E a l mask (!b) second) :
    ((∀ x, Half a l b x → (r2.Has x ∨ E x ↔ r.Has x ∨ matchWalk x first = true ∨ E x)) ∧
      (∀ x, Half a l (!b) x → (r2.Has x ∨ E x ↔ r.Has x ∨ matchWalk x second = true ∨ E x))) ↔
    (BranchOk r.Has E a l mask b first ∧ BranchOk r.Has E a l mask (!b) second ∧
      (repeats mask first = true → (∀ y, Half a l (!b) y → ¬ r.Has y) →
        ∀ y, Half a l (!b) y → matchWalk y second = true ∨ E y)) := by
  have firstHalf : ∀ x, Half a l b x → (r2.Has x ↔ r1.Has x) := by
    intro x hx
    rw [h2.other x (by rwa [Bool.not_not])]
    refine or_iff_left ?_
    rintro ⟨-, none⟩
    obtain ⟨y, hy, hasY⟩ := h1.touch
    exact none y (by rwa [Bool.not_not]) hasY
  have exactFirst : (∀ x, Half a l b x →
      (r2.Has x ∨ E x ↔ r.Has x ∨ matchWalk x first = true ∨ E x)) ↔
      BranchOk r.Has E a l mask b first := by
    rw [← h1.exact]
    refine forall_congr' fun x => forall_congr' fun hx => ?_
    rw [firstHalf x hx]
  rw [exactFirst]
  refine and_congr_right fun _ => ?_
  by_cases spill : repeats mask first = true ∧ ∀ y, Half a l (!b) y → ¬ r.Has y
  · -- the first branch has filled the second half
    obtain ⟨rep, none⟩ := spill
    have filled : ∀ x, Half a l (!b) x → r2.Has x := fun x hx =>
      h2.mono x hx.1 ((h1.other x hx).mpr (.inr ⟨rep, none⟩))
    constructor
    · intro all
      have full : ∀ x, Half a l (!b) x → matchWalk x second = true ∨ E x := fun x hx =>
        ((all x hx).mp (.inl (filled x hx))).resolve_left (none x hx)
      exact ⟨empty none full, fun _ _ => full⟩
    · rintro ⟨-, full⟩ x hx
      have := full rep none x hx
      simp only [filled x hx, true_or, this, or_true]
  · -- the first branch stays within its half
    have untouched : ∀ x, Half a l (!b) x → (r.Has x ↔ r1.Has x) := fun x hx =>
      ((h1.other x hx).trans (or_iff_left spill)).symm
    have noSpill : (repeats mask first = true → (∀ y, Half a l (!b) y → ¬ r.Has y) →
        ∀ y, Half a l (!b) y → matchWalk y second = true ∨ E y) ↔ True :=
      iff_true_intro fun rep none => absurd ⟨rep, none⟩ spill
    rw [noSpill, and_true, congr untouched, ← h2.exact]
    refine forall_congr' fun x => forall_congr' fun hx => ?_
    rw [untouched x hx]

theorem branchOk_congr {M M' : Words → Prop} (len : a.length = 4) (bound : l < 128)
    (wf : Trie.WF (setBit a l b) (l + 1) child) (same : ∀ x, Half a l b x → (M x ↔ M' x)) :
    BranchOk M E a l (prefixMask 4 l) b child ↔ BranchOk M' E a l (prefixMask 4 l) b child := by
  refine branchOk_congr_of len bound same fun hr hne => ?_
  refine updateOk_congr wf (wf.isNode_of_ne hne) (fun l' h => ?_) M M' fun x lenX agree =>
    same x ((half_iff len bound b).mpr ⟨lenX, agree⟩)
  rw [show l' = l by omega]
  exact hr

theorem branchOk_of_empty {M : Words → Prop} (len : a.length = 4) (bound : l < 128)
    (wf : Trie.WF (setBit a l b) (l + 1) child) (empty : ∀ x, Half a l b x → ¬ M x)
    (full : ∀ x, Half a l b x → matchWalk x child = true ∨ E x) :
    BranchOk M E a l (prefixMask 4 l) b child := by
  have half : ∀ x, x.length = 4 → AgreeUpTo (l + 1) (setBit a l b) x → Half a l b x :=
    fun x lenX agree => (half_iff len bound b).mpr ⟨lenX, agree⟩
  unfold BranchOk
  split
  · exact whole_of_empty fun x lenX agree => empty x (half x lenX agree)
  · rename_i hne
    cases hr : repeats (prefixMask 4 l) child with
    | true => exact .inl rfl
    | false =>
      refine .inr (updateOk_of_empty wf (wf.isNode_of_ne hne) (fun l' h => ?_)
        (fun x lenX agree => empty x (half x lenX agree))
        fun x lenX agree => full x (half x lenX agree))
      rw [show l' = l by omega]
      exact hr

/-- A node whose branches are walked `b` first. -/
theorem effect_twoBranches (one zero : Trie) {r1 r2 : TrieRoot} (len : a.length = 4)
    (pos : AgreeUpTo k p a) (long : k ≤ l) (bound : l < 128)
    (wfSecond : Trie.WF (setBit a l (!b)) (l + 1) (branch one zero (!b)))
    (h1 : BranchEffect E a (prefixMask 4 l) l b (branch one zero b) r r1)
    (h2 : BranchEffect E a (prefixMask 4 l) l (!b) (branch one zero (!b)) r1 r2) :
    Effect E p k (.node a (prefixMask 4 l) one zero) r r2
      (BranchOk r.Has E a l (prefixMask 4 l) b (branch one zero b) ∧
        BranchOk r.Has E a l (prefixMask 4 l) (!b) (branch one zero (!b)) ∧
        (repeats (prefixMask 4 l) (branch one zero b) = true →
          (∀ y, Half a l (!b) y → ¬ r.Has y) →
            ∀ y, Half a l (!b) y → matchWalk y (branch one zero (!b)) = true ∨ E y)) := by
  have h128 : l ≠ 128 := by omega
  refine ⟨h2.wf, fun x lenX h => h2.mono x lenX (h1.mono x lenX h), ?_, ?_, ?_⟩
  · intro x lenX out h
    have outside : ¬ AgreeUpTo l a x := fun h => out (pos.trans (h.mono long))
    exact h1.frame x lenX outside (h2.frame x lenX outside h)
  · obtain ⟨y, hy, hasY⟩ := h2.touch
    exact ⟨y, hy.1, pos.trans (hy.2.1.mono long), hasY⟩
  · rw [← twoBranches_exact h1 h2 (branchOk_congr len bound wfSecond)
      (branchOk_of_empty len bound wfSecond)]
    have inHalf : ∀ c x, Half a l c x →
        (matchWalk x (.node a (prefixMask 4 l) one zero) = true ↔
          matchWalk x (branch one zero c) = true) := by
      intro c x hx
      rw [matchWalk_node len hx.1 (Nat.le_of_lt bound), hx.2.2]
      simp only [hx.2.1, h128, true_and, false_or]
    constructor
    · intro all
      refine ⟨fun x hx => ?_, fun x hx => ?_⟩
      · rw [← inHalf b x hx]
        exact all x hx.1 (pos.trans (hx.2.1.mono long))
      · rw [← inHalf (!b) x hx]
        exact all x hx.1 (pos.trans (hx.2.1.mono long))
    · rintro ⟨allFirst, allSecond⟩ x lenX _
      by_cases agree : AgreeUpTo l a x
      · by_cases hb : bit x l = b
        · have hx : Half a l b x := ⟨lenX, agree, hb⟩
          rw [inHalf b x hx]
          exact allFirst x hx
        · have hx : Half a l (!b) x := ⟨lenX, agree, by
            cases hx : bit x l <;> cases b <;> simp_all⟩
          rw [inHalf (!b) x hx]
          exact allSecond x hx
      · have no : ¬ matchWalk x (.node a (prefixMask 4 l) one zero) = true := by
          rw [matchWalk_node len lenX (Nat.le_of_lt bound)]
          exact fun h => agree h.1
        have same : r2.Has x ↔ r.Has x :=
          ⟨fun h => h1.frame x lenX agree (h2.frame x lenX agree h),
            fun h => h2.mono x lenX (h1.mono x lenX h)⟩
        simp [no, same]

/-- Walking a node of the other tree, whatever lies below it. -/
theorem updateWalk_effect (E : Words → Prop) {t : Trie} (wf : Trie.WF p k t)
    (isNode : t.isNode = true) (normal : ∀ l, k = l + 1 → repeats (prefixMask 4 l) t = false) :
    ∀ r : TrieRoot, r.WF → Effect E p k t r (r.updateWalk t) (UpdateOk r.Has E t) := by
  refine nodeInduction (P := fun p k t => ∀ r : TrieRoot, r.WF →
    Effect E p k t r (r.updateWalk t) (UpdateOk r.Has E t)) ?_ ?_ wf isNode normal
  · intro p a k l len pos long bound r wfR
    rw [updateOk_full bound]
    exact effect_full E wfR len pos long bound
  · intro p a k l one zero len pos long bound some wfOne wfZero ihOne ihZero r wfR
    rw [updateWalk_node r a _ some, updateOk_node bound some]
    by_cases hone : one = nodeTrue
    · -- the one half is inserted before the zero branch is walked
      rw [if_pos hone]
      have h1 := updateBranch_effect E wfR (b := true) len bound wfOne
        fun hr hn => ihOne hr hn r wfR
      have h2 := updateBranch_effect E h1.wf (b := false) len bound wfZero
        fun hr hn => ihZero hr hn _ h1.wf
      have both := effect_twoBranches one zero (b := true) len pos long bound
        wfZero h1 h2
      have noSpill : (repeats (prefixMask 4 l) zero = true →
          (∀ y, Half a l true y → ¬ r.Has y) →
            ∀ y, Half a l true y → matchWalk y one = true ∨ E y) ↔
          (repeats (prefixMask 4 l) (branch one zero true) = true →
            (∀ y, Half a l (!true) y → ¬ r.Has y) →
              ∀ y, Half a l (!true) y → matchWalk y (branch one zero (!true)) = true ∨ E y) := by
        subst hone
        simp [branch, repeats]
      rw [noSpill]
      exact both
    · rw [if_neg hone]
      have h1 := updateBranch_effect E wfR (b := false) len bound wfZero
        fun hr hn => ihZero hr hn r wfR
      have h2 := updateBranch_effect E h1.wf (b := true) len bound wfOne
        fun hr hn => ihOne hr hn _ h1.wf
      have both := effect_twoBranches one zero (b := false) len pos long bound
        wfOne h1 h2
      rw [and_left_comm]
      exact both

/-! ### The root of the other tree -/

theorem not_repeats_rootMask {t : Trie} (wf : Trie.WF p 1 t) :
    repeats rootMask t = false := by
  cases wf with
  | full => rfl
  | repeated _ _ two short => omega
  | @node _ a _ l _ _ _ _ long bound =>
    rw [← Bool.not_eq_true, rootMask_eq]
    intro h
    have : l = 0 := prefixMask_inj bound (by omega) (by simpa [repeats] using h)
    omega

/-- The branches of a root may be empty, and none repeats the empty mask. -/
theorem rootBranch_effect (E : Words → Prop) (wf : r.WF)
    (wfChild : child = .null ∨ Trie.WF (side b) 1 child) :
    (r.updateBranch b rootMask rootMask child).WF ∧
    (∀ x, x.length = 4 → r.Has x → (r.updateBranch b rootMask rootMask child).Has x) ∧
    (∀ x, x.length = 4 → bit x 0 ≠ b →
      ((r.updateBranch b rootMask rootMask child).Has x ↔ r.Has x)) ∧
    ((∀ x, x.length = 4 → bit x 0 = b → ((r.updateBranch b rootMask rootMask child).Has x ∨ E x ↔
        r.Has x ∨ matchWalk x child = true ∨ E x)) ↔
      BranchOk r.Has E rootMask 0 rootMask b child) := by
  rcases wfChild with rfl | wfChild
  · have same : r.updateBranch b rootMask rootMask .null = r := by simp [updateBranch, updateWalk]
    rw [same]
    refine ⟨wf, fun _ _ h => h, fun _ _ _ => Iff.rfl, ?_⟩
    simp [matchWalk, BranchOk, UpdateOk]
  · have normal : repeats (prefixMask 4 0) child = false := by
      rw [← rootMask_eq]
      exact not_repeats_rootMask wfChild
    have effect := updateBranch_effect E wf (a := rootMask) (l := 0) (b := b) rfl (by omega)
      wfChild fun hr hn => updateWalk_effect E wfChild hn
        (fun l h => by rw [show l = 0 by omega]; exact normal) r wf
    rw [← rootMask_eq] at effect
    have half : ∀ c x, Half rootMask 0 c x ↔ x.length = 4 ∧ bit x 0 = c := fun c x =>
      ⟨fun h => ⟨h.1, h.2.2⟩, fun h => ⟨h.1, fun i hi => by omega, h.2⟩⟩
    refine ⟨effect.wf, effect.mono, fun x lenX hx => ?_, ?_⟩
    · rw [effect.other x ((half _ x).mpr ⟨lenX, by cases h : bit x 0 <;> cases b <;> simp_all⟩),
        rootMask_eq, normal]
      simp
    · rw [← effect.exact]
      refine forall_congr' fun x => ?_
      rw [half b x, and_imp]

/-- Both branches of the root, in either order. -/
theorem rootBranches_effect (E : Words → Prop) {other : TrieRoot} (wf : r.WF)
    (wfFirst : branch other.nextBitOne other.nextBitZero b = .null ∨
      Trie.WF (side b) 1 (branch other.nextBitOne other.nextBitZero b))
    (wfSecond : branch other.nextBitOne other.nextBitZero (!b) = .null ∨
      Trie.WF (side (!b)) 1 (branch other.nextBitOne other.nextBitZero (!b))) :
    let r1 := r.updateBranch b rootMask rootMask (branch other.nextBitOne other.nextBitZero b)
    let r2 := r1.updateBranch (!b) rootMask rootMask
      (branch other.nextBitOne other.nextBitZero (!b))
    r2.WF ∧
      ((∀ x, x.length = 4 → (r2.Has x ∨ E x ↔ r.Has x ∨ other.Has x ∨ E x)) ↔
        BranchOk r.Has E rootMask 0 rootMask b (branch other.nextBitOne other.nextBitZero b) ∧
          BranchOk r.Has E rootMask 0 rootMask (!b)
            (branch other.nextBitOne other.nextBitZero (!b))) := by
  intro r1 r2
  obtain ⟨wf1, mono1, frame1, exact1⟩ := rootBranch_effect E wf wfFirst
  obtain ⟨wf2, mono2, frame2, exact2⟩ := rootBranch_effect E wf1 wfSecond
  refine ⟨wf2, ?_⟩
  have hasOther : ∀ x, x.length = 4 → (other.Has x ↔
      matchWalk x (branch other.nextBitOne other.nextBitZero (bit x 0)) = true) := by
    intro x lenX
    rw [Has, trieMatchAddr, firstBit_eq lenX]
    cases bit x 0 <;> simp [branch]
  -- the second condition may look at the trie before or after the first branch
  have congr : BranchOk r.Has E rootMask 0 rootMask (!b)
        (branch other.nextBitOne other.nextBitZero (!b)) ↔
      BranchOk r1.Has E rootMask 0 rootMask (!b)
        (branch other.nextBitOne other.nextBitZero (!b)) := by
    rcases wfSecond with hnull | wfSecond
    · simp [hnull, BranchOk, UpdateOk]
    · refine branchOk_congr rfl (by omega) wfSecond fun x hx => ?_
      exact (frame1 x hx.1 (by rw [hx.2.2]; cases b <;> simp)).symm
  rw [congr, ← exact1, ← exact2]
  constructor
  · intro all
    refine ⟨fun x lenX hx => ?_, fun x lenX hx => ?_⟩
    · rw [← hx, ← hasOther x lenX, ← all x lenX, frame2 x lenX (by rw [hx]; cases b <;> simp)]
      simp [hx]
    · rw [← hx, ← hasOther x lenX, frame1 x lenX (by rw [hx]; cases b <;> simp)]
      have := all x lenX
      simpa [r2, hx] using this
  · rintro ⟨allFirst, allSecond⟩ x lenX
    rw [hasOther x lenX]
    by_cases hx : bit x 0 = b
    · rw [hx, ← allFirst x lenX hx]
      exact or_congr_left (frame2 x lenX (by rw [hx]; cases b <;> simp))
    · have hx' : bit x 0 = !b := by cases h : bit x 0 <;> cases b <;> simp_all
      rw [hx', ← frame1 x lenX hx]
      exact allSecond x lenX hx'

/-- `trie_update` yields the union of the two tries, up to the addresses in `E`,
exactly when the other tree is `UpdateOk` for the receiving one. -/
theorem trieUpdate_has_iff (E : Words → Prop) {other : TrieRoot} (wf : r.WF) (wfOther : other.WF) :
    (r.trieUpdate other).WF ∧
      ((∀ x, x.length = 4 → ((r.trieUpdate other).Has x ∨ E x ↔ r.Has x ∨ other.Has x ∨ E x)) ↔
        UpdateOk r.Has E other.toNode) := by
  rw [trieUpdate_eq_updateWalk]
  cases some : bothTrue other.nextBitOne other.nextBitZero with
  | true =>
    obtain ⟨hone, hzero⟩ := bothTrue_iff.mp some
    obtain ⟨wf', -, -, -, -, whole⟩ := insert_effect wf (a := rootMask) (m := 0) rfl (by omega)
    have walk : r.updateWalk other.toNode = r.trieInsertAddr rootMask (prefixMask 4 0) := by
      simp [toNode, hone, hzero, updateWalk, updateNode, bothTrue, rootMask_eq]
    rw [walk]
    refine ⟨wf', ?_⟩
    have ok : UpdateOk r.Has E other.toNode ↔ Whole r.Has E rootMask 0 := by
      rw [toNode, hone, hzero, rootMask_eq]
      exact updateOk_full (by omega)
    rw [ok, ← whole E]
    have all : ∀ x, x.length = 4 → AgreeUpTo 0 rootMask x := fun x _ i hi => by omega
    have hasOther : ∀ x, other.Has x := fun x => by
      simp [Has, trieMatchAddr, hone, hzero]
    constructor
    · intro h x lenX _
      exact (h x lenX).mpr (.inr (.inl (hasOther x)))
    · intro h x lenX
      have := h x lenX (all x lenX)
      simp [this, hasOther x]
  | false =>
    have node := updateOk_node (M := r.Has) (E := E) (a := rootMask) (l := 0) (by omega) some
    rw [← rootMask_eq] at node
    have noSpill : repeats rootMask other.nextBitZero = false := by
      rcases wfOther.zero with h | h
      · rw [h]
        rfl
      · exact not_repeats_rootMask h
    rw [toNode, node, updateWalk_node r _ _ some, noSpill]
    simp only [Bool.false_eq_true, false_implies, and_true]
    by_cases hone : other.nextBitOne = nodeTrue
    · rw [if_pos hone]
      exact rootBranches_effect E wf (b := true) wfOther.one wfOther.zero
    · rw [if_neg hone, and_comm (a := BranchOk _ _ _ _ _ true _)]
      exact rootBranches_effect E wf (b := false) wfOther.zero wfOther.one

end TrieRoot

end Nmap.Addrset
