import Nmap.Addrset.Trie
import Nmap.Addrset.WordLemmas
import Mathlib.Data.List.Induction

/-!
# What an insertion into the radix tree does

A branch of the tree is reached by the addresses that agree with some address
`p` on the first `k` bits. `WF p k t` is the invariant of the tree `t` on such a
branch, and `insertWalk_spec` says which addresses the tree matches after one
insertion.

`trie_split` lets the node supersede only a strictly longer common prefix. When
the inserted mask is exactly as long as the common prefix, the insertion goes
one bit further and reaches only the addresses that share the next bit of the
inserted address, so it loses the other half of the prefix (`OffHalf`) whenever
the tree already matches something there.
-/

namespace Nmap.Addrset

open List

/-! ## Prefixes -/

theorem AgreeUpTo.refl (m : Nat) (a : Words) : AgreeUpTo m a a := fun _ _ => rfl

variable {m : Nat} {a b : Words}

theorem AgreeUpTo.symm (h : AgreeUpTo m a b) : AgreeUpTo m b a :=
  fun i hi => (h i hi).symm

theorem AgreeUpTo.trans {c : Words} (hab : AgreeUpTo m a b) (hbc : AgreeUpTo m b c) :
    AgreeUpTo m a c :=
  fun i hi => (hab i hi).trans (hbc i hi)

theorem AgreeUpTo.mono {n : Nat} (h : AgreeUpTo n a b) (hmn : m ≤ n) :
    AgreeUpTo m a b :=
  fun i hi => h i (by omega)

theorem agreeUpTo_succ :
    AgreeUpTo (m + 1) a b ↔ AgreeUpTo m a b ∧ bit a m = bit b m := by
  constructor
  · intro h
    exact ⟨h.mono (by omega), h m (by omega)⟩
  · rintro ⟨h, hm⟩ i hi
    by_cases him : i = m
    · rw [him, hm]
    · exact h i (by omega)

theorem agreeUpTo_setBit {l : Nat} {x : Words} (len : a.length = 4) (hl : l < 128) (b : Bool) :
    AgreeUpTo (l + 1) (setBit a l b) x ↔ AgreeUpTo l a x ∧ bit x l = b := by
  have hbit := bit_setBit (a := a) (m := l) (by omega) b
  rw [agreeUpTo_succ, hbit, if_pos rfl]
  have below : AgreeUpTo l (setBit a l b) x ↔ AgreeUpTo l a x := by
    constructor
    · intro h i hi
      rw [← h i hi, hbit, if_neg (by omega)]
    · intro h i hi
      rw [hbit, if_neg (by omega), h i hi]
  rw [below]
  exact ⟨fun h => ⟨h.1, h.2.symm⟩, fun h => ⟨h.1, h.2.symm⟩⟩

/-- The half of the prefix of length `m` of `a` that does not share the next
bit of `a`. -/
def OffHalf (a : Words) (m : Nat) (y : Words) : Prop :=
  y.length = 4 ∧ AgreeUpTo m a y ∧ bit y m ≠ bit a m

namespace Trie

/-! ## The invariant of a branch -/

/-- The branch `t` of the addresses that agree with `p` on `k` bits: it is not
`NULL`, and every node has a prefix mask longer than its parent's. The one
exception is `repeated`, a full node whose mask is its parent's: it is what the
insertion of a prefix leaves behind below a node for the same prefix. -/
inductive WF : Words → Nat → Trie → Prop
  | full (p : Words) (k : Nat) : WF p k nodeTrue
  | repeated {p a : Words} {k l : Nat} (len : a.length = 4) (pos : AgreeUpTo k p a)
      (two : 2 ≤ l) (short : l + 1 = k) (bound : l < 128) :
      WF p k (node a (prefixMask 4 l) nodeTrue nodeTrue)
  | node {p a : Words} {k l : Nat} {one zero : Trie} (len : a.length = 4)
      (pos : AgreeUpTo k p a) (long : k ≤ l) (bound : l ≤ 128)
      (last : l = 128 → one = nodeTrue ∧ zero = nodeTrue)
      (wfOne : WF (setBit a l true) (l + 1) one) (wfZero : WF (setBit a l false) (l + 1) zero) :
      WF p k (node a (prefixMask 4 l) one zero)

/-! ## Matching -/

@[simp]
theorem matchWalk_nodeTrue (x : Words) : matchWalk x nodeTrue = true := rfl

variable {l : Nat}

private theorem lastBit_prefixMask (hl : l ≤ 128) :
    ((prefixMask 4 l).getD 3 0).getLsbD 0 = decide (l = 128) := by
  have word : ∀ k < 33, (wordMask k).getLsbD 0 = decide (k = 32) := by decide
  show (wordMask (min (l - 32 - 32 - 32) 32)).getLsbD 0 = _
  rw [word _ (by omega), decide_eq_decide]
  omega

variable {a x : Words}

/-- `_trie_match` at a node: the address has the node's prefix and its branch
matches. -/
theorem matchWalk_node (lenA : a.length = 4) (lenX : x.length = 4) (hl : l ≤ 128)
    (one zero : Trie) :
    matchWalk x (node a (prefixMask 4 l) one zero) = true ↔
      AgreeUpTo l a x ∧ (l = 128 ∨ matchWalk x (branch one zero (bit x l)) = true) := by
  simp only [matchWalk, lastBit_prefixMask hl, addrNextBitIsOne_prefixMask lenX]
  have agree := addrMatches_prefixMask lenA lenX l
  by_cases h : AgreeUpTo l a x
  · rw [agree.mpr h]
    by_cases h128 : l = 128
    · subst h128
      simp [h]
    · cases hb : bit x l <;> simp [h, h128, branch]
  · have : addrMatches (prefixMask 4 l) a x = false := by
      rw [← Bool.not_eq_true, agree]
      exact h
    simp [this, h]

theorem matchWalk_newTrieNode (lenA : a.length = 4) (lenX : x.length = 4) (hl : l ≤ 128) :
    matchWalk x (newTrieNode a (prefixMask 4 l)) = true ↔ AgreeUpTo l a x := by
  rw [newTrieNode, matchWalk_node lenA lenX hl]
  cases hb : bit x l <;> simp [branch]

variable {one zero : Trie}

theorem bothTrue_iff :
    bothTrue one zero = true ↔ one = nodeTrue ∧ zero = nodeTrue := by
  cases one <;> cases zero <;> simp [bothTrue]

variable {p : Words} {k : Nat} {t : Trie}

theorem WF.nonempty (wf : WF p k t) :
    p.length = 4 → ∃ y, y.length = 4 ∧ AgreeUpTo k p y ∧ matchWalk y t = true := by
  induction wf with
  | full p k => exact fun len => ⟨p, len, AgreeUpTo.refl k p, rfl⟩
  | @repeated p a k l len pos two short bound =>
    intro _
    exact ⟨a, len, pos, (matchWalk_newTrieNode len len (by omega)).mpr (AgreeUpTo.refl l a)⟩
  | @node p a k l one zero len pos long bound last wfOne wfZero ihOne ihZero =>
    intro _
    by_cases h128 : l = 128
    · exact ⟨a, len, pos, (matchWalk_node len len bound _ _).mpr ⟨AgreeUpTo.refl l a, .inl h128⟩⟩
    · obtain ⟨y, lenY, posY, matchY⟩ := ihOne (by rw [setBit_length, len])
      obtain ⟨agree, hbit⟩ := (agreeUpTo_setBit len (by omega) true).mp posY
      refine ⟨y, lenY, pos.trans (agree.mono long), ?_⟩
      rw [matchWalk_node len lenY bound, hbit]
      exact ⟨agree, .inr matchY⟩

/-! ## Rewriting one branch -/

theorem matchWalk_setBranch (lenA : a.length = 4) (lenX : x.length = 4) (hl : l < 128)
    (one zero : Trie) (b : Bool) (child : Trie) :
    matchWalk x (setBranch a (prefixMask 4 l) one zero b child) = true ↔
      AgreeUpTo l a x ∧
        matchWalk x (if bit x l = b then child else branch one zero (bit x l)) = true := by
  have h128 : l ≠ 128 := by omega
  cases b <;> cases hb : bit x l <;>
    simp [setBranch, matchWalk_node lenA lenX (Nat.le_of_lt hl), h128, hb, branch]

theorem WF.setBranch {p a : Words} {k l : Nat} {one zero child : Trie} {b : Bool}
    (len : a.length = 4) (pos : AgreeUpTo k p a) (long : k ≤ l) (bound : l < 128)
    (wfChild : WF (setBit a l b) (l + 1) child)
    (wfOther : WF (setBit a l (!b)) (l + 1) (branch one zero (!b))) :
    WF p k (setBranch a (prefixMask 4 l) one zero b child) := by
  cases b with
  | true => exact .node len pos long (by omega) (fun h => by omega) wfChild wfOther
  | false => exact .node len pos long (by omega) (fun h => by omega) wfOther wfChild

/-- Collapsing a full child changes neither the invariant nor what is matched. -/
theorem collapse_spec (hl : l < 128) (wf : WF p (l + 1) t) :
    WF p (l + 1) (collapse (prefixMask 4 l) t).1 ∧
      ∀ x, x.length = 4 → AgreeUpTo (l + 1) p x →
        matchWalk x (collapse (prefixMask 4 l) t).1 = matchWalk x t := by
  have same : ∀ a q one zero, a.length = 4 → AgreeUpTo (l + 1) p a → q ≤ 128 →
      WF p (l + 1) (node a (prefixMask 4 q) one zero) →
      WF p (l + 1) (collapse (prefixMask 4 l) (node a (prefixMask 4 q) one zero)).1 ∧
        ∀ x, x.length = 4 → AgreeUpTo (l + 1) p x →
          matchWalk x (collapse (prefixMask 4 l) (node a (prefixMask 4 q) one zero)).1 =
            matchWalk x (node a (prefixMask 4 q) one zero) := by
    intro a q one zero len pos hq wf
    simp only [collapse, maskIsOneBitMore_prefixMask (n := 4) (p := l) (q := q) (by omega)
      (by omega)]
    split
    · rename_i h
      rw [Bool.and_eq_true, decide_eq_true_eq, bothTrue_iff] at h
      obtain ⟨rfl, rfl, rfl⟩ := h
      refine ⟨.full _ _, fun x lenX posX => ?_⟩
      have := (matchWalk_newTrieNode len lenX hq).mpr (pos.symm.trans posX)
      rw [newTrieNode] at this
      rw [this, matchWalk_nodeTrue]
    · exact ⟨wf, fun _ _ _ => rfl⟩
  cases wf with
  | full => exact ⟨.full _ _, fun _ _ _ => rfl⟩
  | repeated len pos two short bound =>
    exact same _ _ _ _ len pos (by omega) (.repeated len pos two short bound)
  | node len pos long bound last wfOne wfZero =>
    exact same _ _ _ _ len pos bound (.node len pos long bound last wfOne wfZero)

/-- Climbing keeps the invariant, and matching follows the rewritten branch. -/
theorem climb_spec (one zero : Trie) {b : Bool} (below : Trie × Bool) (len : a.length = 4)
    (pos : AgreeUpTo k p a) (long : k ≤ l) (bound : l < 128)
    (wfBelow : WF (setBit a l b) (l + 1) below.1)
    (wfOther : WF (setBit a l (!b)) (l + 1) (branch one zero (!b))) :
    WF p k (climb a (prefixMask 4 l) one zero b below).1 ∧
      ∀ x, x.length = 4 →
        (matchWalk x (climb a (prefixMask 4 l) one zero b below).1 = true ↔
          AgreeUpTo l a x ∧
            matchWalk x (if bit x l = b then below.1 else branch one zero (bit x l)) = true) := by
  obtain ⟨wfCollapsed, matchCollapsed⟩ := collapse_spec bound wfBelow
  simp only [climb]
  cases hflag : below.2 with
  | false =>
    simp only [Bool.false_eq_true, if_false]
    exact ⟨wfBelow.setBranch len pos long bound wfOther,
      fun x lenX => matchWalk_setBranch len lenX bound _ _ _ _⟩
  | true =>
    simp only [if_true]
    refine ⟨wfCollapsed.setBranch len pos long bound wfOther, fun x lenX => ?_⟩
    rw [matchWalk_setBranch len lenX bound]
    refine and_congr_right fun agree => ?_
    by_cases hb : bit x l = b
    · rw [if_pos hb, if_pos hb,
        matchCollapsed x lenX ((agreeUpTo_setBit len bound b).mpr ⟨agree, hb⟩)]
    · rw [if_neg hb, if_neg hb]

/-! ## One insertion -/

/-- What the tree `t` on the branch `(p, k)` gains when `(addr, m)` is inserted:
the prefix, or only the half of it that shares the next bit of `addr`. -/
def Gained (p : Words) (k : Nat) (t : Trie) (addr : Words) (m : Nat) (x : Words) : Prop :=
  AgreeUpTo m addr x ∧
    (bit x m = bit addr m ∨
      ∀ y, OffHalf addr m y → AgreeUpTo k p y → matchWalk y t = false)

/-- What one descent of `_trie_insert` has to achieve on a branch. -/
def InsertOk (p : Words) (k : Nat) (addr : Words) (m : Nat) (t t' : Trie) : Prop :=
  WF p k t' ∧ ∀ x, x.length = 4 → AgreeUpTo k p x →
    (matchWalk x t' = true ↔ matchWalk x t = true ∨ Gained p k t addr m x)

variable {addr : Words} {m : Nat}

theorem insertOk_of_full (wf : WF p k t)
    (full : ∀ x, x.length = 4 → AgreeUpTo k p x → matchWalk x t = true) :
    InsertOk p k addr m t t :=
  ⟨wf, fun x lenX posX => by simp [full x lenX posX]⟩

/-- The node is superseded: it had more bits than the new prefix, all of them
in the half of the new address. -/
theorem insertOk_superseded (len : a.length = 4) (pos : AgreeUpTo k p a) (bound : l ≤ 128)
    (two : 2 ≤ m) (hk : k ≤ m + 1) (hml : m < l) (agree : AgreeUpTo (m + 1) a addr) :
    InsertOk p k addr m (node a (prefixMask 4 l) one zero) (newTrieNode a (prefixMask 4 m)) := by
  obtain ⟨agreeM, hbit⟩ := agreeUpTo_succ.mp agree
  refine ⟨?_, fun x lenX posX => ?_⟩
  · by_cases h : k ≤ m
    · exact .node len pos h (by omega) (fun h => by omega) (.full _ _) (.full _ _)
    · exact .repeated len pos two (by omega) (by omega)
  · rw [matchWalk_newTrieNode len lenX (by omega), matchWalk_node len lenX bound]
    constructor
    · intro h
      refine .inr ⟨agreeM.symm.trans h, .inr fun y ⟨lenY, _, off⟩ _ => ?_⟩
      rw [← Bool.not_eq_true, matchWalk_node len lenY bound]
      rintro ⟨agreeY, -⟩
      exact off (by rw [← agreeY m hml, hbit])
    · rintro (⟨h, -⟩ | ⟨h, -⟩)
      · exact h.mono (by omega)
      · exact agreeM.trans h

/-- The node contains the new prefix: the insertion goes on below, on the branch
of the new address. -/
theorem insertOk_contained (one zero : Trie) {below : Trie × Bool} (len : a.length = 4)
    (pos : AgreeUpTo k p a) (long : k ≤ l) (bound : l < 128) (hlm : l ≤ m)
    (wfOther : WF (setBit a l (!bit addr l)) (l + 1) (branch one zero (!bit addr l)))
    (agree : AgreeUpTo l a addr)
    (ih : InsertOk (setBit a l (bit addr l)) (l + 1) addr m (branch one zero (bit addr l))
      below.1) :
    InsertOk p k addr m (node a (prefixMask 4 l) one zero)
      (climb a (prefixMask 4 l) one zero (bit addr l) below).1 := by
  obtain ⟨wfBelow, matchBelow⟩ := ih
  obtain ⟨wf, matchNew⟩ := climb_spec one zero below len pos long bound wfBelow wfOther
  refine ⟨wf, fun x lenX posX => ?_⟩
  have h128 : l ≠ 128 := by omega
  rw [matchNew x lenX, matchWalk_node len lenX (by omega)]
  by_cases agreeX : AgreeUpTo l a x
  swap
  · -- outside the node's prefix nothing changes, and the new prefix is inside it
    have : ¬ AgreeUpTo m addr x := fun h => agreeX (agree.trans (h.mono hlm))
    simp [agreeX, Gained, this]
  by_cases hb : bit x l = bit addr l
  · -- the branch of the new address
    have posX' : AgreeUpTo (l + 1) (setBit a l (bit addr l)) x :=
      (agreeUpTo_setBit len bound _).mpr ⟨agreeX, hb⟩
    rw [if_pos hb, matchBelow x lenX posX', hb]
    simp only [agreeX, h128, true_and, false_or]
    refine or_congr_right (and_congr_right fun agreeM => or_congr_right' fun hxm => ?_)
    have hne : l ≠ m := by
      rintro rfl
      exact hxm hb
    -- below a shorter node the off half lies wholly on this branch
    have inside : ∀ y, OffHalf addr m y →
        AgreeUpTo l a y ∧ bit y l = bit addr l := fun y off =>
      ⟨agree.trans (off.2.1.mono hlm), (off.2.1 l (by omega)).symm⟩
    constructor
    · intro h y off posY
      rw [← Bool.not_eq_true, matchWalk_node len off.1 (by omega)]
      rintro ⟨agreeY, h' | h'⟩
      · exact h128 h'
      · rw [(inside y off).2, h y off ((agreeUpTo_setBit len bound _).mpr (inside y off))] at h'
        exact Bool.false_ne_true h'
    · intro h y off posY
      have := h y off (pos.trans ((inside y off).1.mono long))
      rw [← Bool.not_eq_true, matchWalk_node len off.1 (by omega), (inside y off).2] at this
      rw [← Bool.not_eq_true]
      exact fun h' => this ⟨(inside y off).1, .inr h'⟩
  · -- the other branch: it is not empty, so an equal mask does not reach it
    rw [if_neg hb]
    simp only [agreeX, h128, true_and, false_or]
    refine (or_iff_left ?_).symm
    rintro ⟨agreeM, hgain⟩
    have hlm' : l = m := by
      by_contra hne
      exact hb (agreeM l (by omega)).symm
    subst hlm'
    rcases hgain with h | h
    · exact hb h
    · obtain ⟨y, lenY, posY, matchY⟩ := wfOther.nonempty (by rw [setBit_length, len])
      obtain ⟨agreeY, hbitY⟩ := (agreeUpTo_setBit len bound _).mp posY
      have hoff : OffHalf addr l y := ⟨lenY, agree.symm.trans agreeY, by simp [hbitY]⟩
      have := h y hoff (pos.trans (agreeY.mono long))
      rw [← Bool.not_eq_true, matchWalk_node len lenY (by omega), hbitY] at this
      exact this ⟨agreeY, .inr matchY⟩

/-- What `trie_split` puts on the node's own branch matches as before. -/
theorem splitFork_own {c : Nat} (len : a.length = 4) (bound : l ≤ 128) (hcl : c < l)
    (last : l = 128 → one = nodeTrue ∧ zero = nodeTrue) (wfOne : WF (setBit a l true) (l + 1) one)
    (wfZero : WF (setBit a l false) (l + 1) zero) :
    ∃ own, splitFork a (prefixMask 4 l) one zero (prefixMask 4 c) (decide (l = c + 1)) =
        (if bit a c then (own, null) else (null, own)) ∧
      WF (setBit a c (bit a c)) (c + 1) own ∧
      ∀ x, x.length = 4 → AgreeUpTo (c + 1) a x →
        matchWalk x own = matchWalk x (node a (prefixMask 4 l) one zero) := by
  have posOwn : AgreeUpTo (c + 1) (setBit a c (bit a c)) a :=
    (agreeUpTo_setBit len (by omega) _).mpr ⟨AgreeUpTo.refl c a, rfl⟩
  simp only [splitFork, addrNextBitIsOne_prefixMask len]
  by_cases h : (decide (l = c + 1) && bothTrue one zero) = true
  · rw [if_pos h]
    refine ⟨nodeTrue, rfl, .full _ _, fun x lenX posX => ?_⟩
    rw [Bool.and_eq_true, decide_eq_true_eq, bothTrue_iff] at h
    obtain ⟨rfl, rfl, rfl⟩ := h
    have := (matchWalk_newTrieNode len lenX bound).mpr posX
    rw [newTrieNode] at this
    rw [this, matchWalk_nodeTrue]
  · rw [if_neg h]
    exact ⟨_, rfl, .node len posOwn (by omega) bound last wfOne wfZero, fun _ _ _ => rfl⟩

/-- The node forks at the first bit `c` where the two addresses differ, and the
new prefix gets the other branch. -/
theorem insertOk_fork {c : Nat} {own : Trie} (len : a.length = 4) (lenAddr : addr.length = 4)
    (pos : AgreeUpTo k p a) (posAddr : AgreeUpTo k p addr) (bound : l ≤ 128) (two : 2 ≤ m)
    (hm : m ≤ 128) (wf : WF p k (node a (prefixMask 4 l) one zero)) (lenP : p.length = 4)
    (hcl : c < l) (hcm : c ≤ m) (agree : AgreeUpTo c a addr) (differ : bit a c ≠ bit addr c)
    (wfOwn : WF (setBit a c (bit a c)) (c + 1) own)
    (matchOwn : ∀ x, x.length = 4 → AgreeUpTo (c + 1) a x →
      matchWalk x own = matchWalk x (node a (prefixMask 4 l) one zero))
    (one' zero' : Trie) (hown : branch one' zero' (bit a c) = own) :
    InsertOk p k addr m (node a (prefixMask 4 l) one zero)
      (climb a (prefixMask 4 c) one' zero' (bit addr c)
        (newTrieNode addr (prefixMask 4 m), true)).1 := by
  have hother : (!bit addr c) = bit a c := by
    cases ha : bit a c <;> cases hb : bit addr c <;> simp_all
  have hkc : k ≤ c := by
    by_contra h
    exact differ ((pos.symm.trans posAddr) c (by omega))
  have posLeaf : AgreeUpTo (c + 1) (setBit a c (bit addr c)) addr :=
    (agreeUpTo_setBit len (by omega) _).mpr ⟨agree, rfl⟩
  have wfLeaf : WF (setBit a c (bit addr c)) (c + 1) (newTrieNode addr (prefixMask 4 m)) := by
    by_cases h : c + 1 ≤ m
    · exact .node lenAddr posLeaf h hm (fun _ => ⟨rfl, rfl⟩) (.full _ _) (.full _ _)
    · exact .repeated lenAddr posLeaf two (by omega) (by omega)
  obtain ⟨wf', matchNew⟩ := climb_spec one' zero' (newTrieNode addr (prefixMask 4 m), true) len pos
    hkc (by omega) wfLeaf
    (by rw [hother, hown]; exact wfOwn)
  refine ⟨wf', fun x lenX posX => ?_⟩
  rw [matchNew x lenX]
  by_cases agreeX : AgreeUpTo c a x
  swap
  · have h1 : ¬ AgreeUpTo m addr x := fun h => agreeX (agree.trans (h.mono hcm))
    have h2 : ¬ AgreeUpTo l a x := fun h => agreeX (h.mono (by omega))
    simp [agreeX, Gained, h1, matchWalk_node len lenX bound, h2]
  by_cases hb : bit x c = bit addr c
  · -- the new branch: nothing was matched there before
    have before : ∀ y, y.length = 4 → bit y c = bit addr c →
        matchWalk y (node a (prefixMask 4 l) one zero) = false := by
      intro y lenY hy
      rw [← Bool.not_eq_true, matchWalk_node len lenY bound]
      rintro ⟨h, -⟩
      exact differ (by rw [h c hcl, hy])
    rw [if_pos hb, matchWalk_newTrieNode lenAddr lenX hm, before x lenX hb]
    simp only [agreeX, true_and, Bool.false_eq_true, false_or, Gained]
    refine ⟨fun h => ⟨h, ?_⟩, fun h => h.1⟩
    by_cases hcm' : c = m
    · left
      rw [← hcm', hb]
    · right
      exact fun y off _ => before y off.1 (off.2.1 c (by omega)).symm
  · -- the node's own branch: the new prefix reaches it only if it ends at `c`
    have hbx : bit x c = bit a c := by
      rw [← hother]
      cases hx : bit x c <;> cases ha : bit addr c <;> simp_all
    rw [if_neg hb, hbx, hown,
      matchOwn x lenX (agreeUpTo_succ.mpr ⟨agreeX, hbx.symm⟩)]
    simp only [agreeX, true_and]
    refine (or_iff_left ?_).symm
    rintro ⟨agreeM, hgain⟩
    have hcm' : c = m := by
      by_contra hne
      exact hb (agreeM c (by omega)).symm
    subst hcm'
    rcases hgain with h | h
    · exact hb h
    · obtain ⟨y, lenY, posY, matchY⟩ := wf.nonempty lenP
      have agreeY := ((matchWalk_node len lenY bound _ _).mp matchY).1
      have off : OffHalf addr c y :=
        ⟨lenY, agree.symm.trans (agreeY.mono (by omega)), by rw [← agreeY c hcl]; exact differ⟩
      rw [h y off posY] at matchY
      exact Bool.false_ne_true matchY

/-- One descent of `_trie_insert`, on any branch the inserted address belongs to. -/
theorem insertWalk_spec (wf : WF p k t) (lenAddr : addr.length = 4) (two : 2 ≤ m) (hm : m ≤ 128)
    (hk : k ≤ m + 1) (lenP : p.length = 4) (posAddr : AgreeUpTo k p addr) :
    InsertOk p k addr m t (insertWalk addr (prefixMask 4 m) t).1 := by
  induction wf with
  | full p k => exact insertOk_of_full (.full p k) fun _ _ _ => rfl
  | @repeated p a k l len pos twoL short bound =>
    have agree : AgreeUpTo (l + 1) a addr := by
      rw [short]
      exact pos.symm.trans posAddr
    have unchanged : (insertWalk addr (prefixMask 4 m)
        (node a (prefixMask 4 l) nodeTrue nodeTrue)).1 =
          node a (prefixMask 4 l) nodeTrue nodeTrue := by
      rcases splitScan_spec len lenAddr (l := l) (m := m) (by omega) (by omega) with
        ⟨h, -, -⟩ | ⟨-, -, scan⟩ | ⟨c, h, -, -, differ, -⟩
      · omega
      · simp only [insertWalk, scan, addrNextBitIsOne_prefixMask lenAddr, ite_self]
        cases bit addr l <;> rfl
      · exact absurd (agree c (by omega)) differ
    rw [unchanged]
    refine insertOk_of_full (.repeated len pos twoL short bound) fun x lenX posX => ?_
    exact (matchWalk_newTrieNode len lenX (by omega)).mpr ((pos.symm.trans posX).mono (by omega))
  | @node p a k l one zero len pos long bound last wfOne wfZero ihOne ihZero =>
    rcases splitScan_spec len lenAddr (l := l) (m := m) (by omega) (by omega) with
      ⟨hml, agree, scan⟩ | ⟨hlm, agree, scan⟩ | ⟨c, hcl, hcm, agree, differ, scan⟩
    · simp only [insertWalk, scan]
      exact insertOk_superseded len pos bound two hk hml agree
    · simp only [insertWalk, scan, addrNextBitIsOne_prefixMask lenAddr]
      by_cases h128 : l = 128
      · -- a single address: both branches are full
        obtain ⟨rfl, rfl⟩ := last h128
        have unchanged : (climb a (prefixMask 4 l) nodeTrue nodeTrue (bit addr l)
            (if bit addr l = true then insertWalk addr (prefixMask 4 m) nodeTrue
              else insertWalk addr (prefixMask 4 m) nodeTrue)).1 =
            node a (prefixMask 4 l) nodeTrue nodeTrue := by
          cases bit addr l <;> rfl
        rw [unchanged]
        refine ⟨.node len pos long bound last wfOne wfZero, fun x lenX posX => ?_⟩
        refine (or_iff_left_of_imp ?_).symm
        rintro ⟨agreeM, -⟩
        exact (matchWalk_newTrieNode len lenX bound).mpr (agree.trans (agreeM.mono hlm))
      · have posBelow : ∀ b, bit addr l = b → AgreeUpTo (l + 1) (setBit a l b) addr :=
          fun b hb => (agreeUpTo_setBit len (by omega) b).mpr ⟨agree, hb⟩
        have lenBelow : ∀ b, (setBit a l b).length = 4 := fun b => by rw [setBit_length, len]
        cases hb : bit addr l with
        | true =>
          have ih := ihOne (by omega) (lenBelow true) (posBelow true hb)
          have := insertOk_contained one zero len pos long (by omega) hlm
            (by rw [hb]; exact wfZero) agree (by rw [hb]; exact ih)
          rwa [hb] at this
        | false =>
          have ih := ihZero (by omega) (lenBelow false) (posBelow false hb)
          have := insertOk_contained one zero len pos long (by omega) hlm
            (by rw [hb]; exact wfOne) agree (by rw [hb]; exact ih)
          rwa [hb] at this
    · obtain ⟨own, hfork, wfOwn, matchOwn⟩ := splitFork_own len bound hcl last wfOne wfZero
      simp only [insertWalk, scan, hfork, addrNextBitIsOne_prefixMask lenAddr]
      have wf : WF p k (node a (prefixMask 4 l) one zero) :=
        .node len pos long bound last wfOne wfZero
      cases ha : bit a c with
      | true =>
        have hb : bit addr c = false := by
          rw [ha] at differ
          simpa using differ.symm
        have := insertOk_fork len lenAddr pos posAddr bound two
          hm wf lenP hcl hcm agree differ wfOwn matchOwn own null (by rw [ha]; rfl)
        rw [hb] at this ⊢
        exact this
      | false =>
        have hb : bit addr c = true := by
          rw [ha] at differ
          simpa using differ.symm
        have := insertOk_fork len lenAddr pos posAddr bound two
          hm wf lenP hcl hcm agree differ wfOwn matchOwn null own (by rw [ha]; rfl)
        rw [hb] at this ⊢
        exact this

end Trie

/-! ## The root -/

namespace TrieRoot

open Trie

/-- The addresses on one branch of the root. -/
def side (b : Bool) : Words := setBit rootMask 0 b

/-- A branch of the root is empty or satisfies the invariant for its first bit. -/
structure WF (r : TrieRoot) : Prop where
  one : r.nextBitOne = .null ∨ Trie.WF (side true) 1 r.nextBitOne
  zero : r.nextBitZero = .null ∨ Trie.WF (side false) 1 r.nextBitZero

theorem WF.new : WF new := ⟨.inl rfl, .inl rfl⟩

/-- What the root gains when `(addr, m)` is inserted. The special cases for /0
and /1 never lose a half. -/
def Gained (r : TrieRoot) (addr : Words) (m : Nat) (x : Words) : Prop :=
  AgreeUpTo m addr x ∧
    (m ≤ 1 ∨ bit x m = bit addr m ∨ ∀ y, OffHalf addr m y → r.trieMatchAddr y = false)

theorem rootMask_eq : rootMask = prefixMask 4 0 := by decide

theorem firstBit_eq {a : Words} (len : a.length = 4) : firstBit a = bit a 0 := by
  match a, len with
  | w :: ws, _ =>
    have := nextBitIsOne_wordMask (k := 0) (by omega) w
    rw [bit_cons_lt (by omega), ← this]
    rfl

theorem agreeUpTo_side {x : Words} (b : Bool) : AgreeUpTo 1 (side b) x ↔ bit x 0 = b := by
  have := agreeUpTo_setBit (a := rootMask) (x := x) (l := 0) rfl (by omega) b
  rw [side, this]
  exact ⟨fun h => h.2, fun h => ⟨fun i hi => by omega, h⟩⟩

variable {addr : Words} {m : Nat}

/-- `_trie_insert` on the branch of the root the address belongs to. -/
theorem insertBranch_spec {b : Bool} {t : Trie} (lenAddr : addr.length = 4) (hm : m ≤ 128)
    (two : 2 ≤ m) (hb : bit addr 0 = b) (wf : t = .null ∨ Trie.WF (side b) 1 t) :
    InsertOk (side b) 1 addr m t (insertBranch addr (prefixMask 4 m) t) := by
  have posAddr : AgreeUpTo 1 (side b) addr := (agreeUpTo_side b).mpr hb
  rcases wf with rfl | wf
  · refine ⟨.node lenAddr posAddr (by omega) hm (fun _ => ⟨rfl, rfl⟩) (.full _ _) (.full _ _), ?_⟩
    intro x lenX posX
    simp [insertBranch, matchWalk_newTrieNode lenAddr lenX hm, Trie.Gained, matchWalk]
  · have walk := insertWalk_spec wf lenAddr two hm (by omega) (by rw [side, setBit_length]; rfl)
      posAddr
    have unfolded : insertBranch addr (prefixMask 4 m) t =
        if (insertWalk addr (prefixMask 4 m) t).2 then
          (collapse rootMask (insertWalk addr (prefixMask 4 m) t).1).1
        else (insertWalk addr (prefixMask 4 m) t).1 := by
      cases wf <;> rfl
    rw [unfolded]
    split
    · obtain ⟨wf', same⟩ := collapse_spec (l := 0) (by omega) walk.1
      rw [rootMask_eq]
      refine ⟨wf', fun x lenX posX => ?_⟩
      rw [same x lenX posX]
      exact walk.2 x lenX posX
    · exact walk

variable {r : TrieRoot}

/-- The addresses the root matches after `_trie_insert`. -/
theorem insertDeep_spec (wf : r.WF) (lenAddr : addr.length = 4) (hm : m ≤ 128) (two : 2 ≤ m) :
    (r.insertDeep addr (prefixMask 4 m)).WF ∧ ∀ x, x.length = 4 →
      ((r.insertDeep addr (prefixMask 4 m)).trieMatchAddr x = true ↔
        r.trieMatchAddr x = true ∨ r.Gained addr m x) := by
  have far : ∀ x, bit x 0 ≠ bit addr 0 → ¬ r.Gained addr m x := fun x hx h =>
    hx (h.1 0 (by omega)).symm
  have near : ∀ (x : Words) (t : Trie) (b : Bool), bit addr 0 = b →
      (∀ y, y.length = 4 → bit y 0 = b → r.trieMatchAddr y = matchWalk y t) →
      (Trie.Gained (side b) 1 t addr m x ↔ r.Gained addr m x) := by
    intro x t b hb ht
    have hm1 : ¬ m ≤ 1 := by omega
    refine and_congr_right fun _ => ?_
    simp only [hm1, false_or]
    refine or_congr_right (forall_congr' fun y => ?_)
    refine ⟨fun h off => ?_, fun h off pos => ?_⟩
    · have hy : bit y 0 = b := by rw [← off.2.1 0 (by omega), hb]
      rw [ht y off.1 hy]
      exact h off ((agreeUpTo_side b).mpr hy)
    · rw [← ht y off.1 ((agreeUpTo_side b).mp pos)]
      exact h off
  unfold insertDeep
  rw [firstBit_eq lenAddr]
  cases hb : bit addr 0 with
  | true =>
    obtain ⟨wf', spec⟩ := insertBranch_spec lenAddr hm two hb wf.one
    refine ⟨⟨.inr wf', wf.zero⟩, fun x lenX => ?_⟩
    simp only [trieMatchAddr, firstBit_eq lenX, if_true]
    cases hx : bit x 0 with
    | true =>
      simp only [if_true]
      rw [spec x lenX ((agreeUpTo_side true).mpr hx), near x _ true hb]
      intro y lenY hy
      simp [trieMatchAddr, firstBit_eq lenY, hy]
    | false =>
      simp [far x (by simp [hx, hb])]
  | false =>
    obtain ⟨wf', spec⟩ := insertBranch_spec lenAddr hm two hb wf.zero
    refine ⟨⟨wf.one, .inr wf'⟩, fun x lenX => ?_⟩
    simp only [trieMatchAddr, firstBit_eq lenX, Bool.false_eq_true, if_false]
    cases hx : bit x 0 with
    | true =>
      simp [far x (by simp [hx, hb])]
    | false =>
      simp only [Bool.false_eq_true, if_false]
      rw [spec x lenX ((agreeUpTo_side false).mpr hx), near x _ false hb]
      intro y lenY hy
      simp [trieMatchAddr, firstBit_eq lenY, hy]

/-- The special case of `trie_insert_addr`: a branch is filled when the mask is
empty or the branch is the address's own. -/
theorem insertShallow_eq (lenAddr : addr.length = 4) (one : m ≤ 1) :
    r.trieInsertAddr addr (prefixMask 4 m) =
      { nextBitOne := if m = 0 ∨ bit addr 0 = true then .nodeTrue else r.nextBitOne
        nextBitZero := if m = 0 ∨ bit addr 0 = false then .nodeTrue else r.nextBitZero } := by
  match addr, lenAddr with
  | w :: ws, lenAddr =>
    have hfirst := firstBit_eq lenAddr
    simp only [firstBit, headD_cons] at hfirst
    have hm : m = 0 ∨ m = 1 := by omega
    rcases hm with rfl | rfl
    · simp [trieInsertAddr, prefixMask, wordMask_zero]
    · have hmask : wordMask (min 1 32) = (1 : U32) <<< 31 := by decide
      simp only [trieInsertAddr, prefixMask, hmask, headD_cons]
      rw [← hfirst]
      simp

/-- The addresses the root matches after `trie_insert_addr`. -/
theorem trieInsertAddr_spec (wf : r.WF) (lenAddr : addr.length = 4) (hm : m ≤ 128) :
    (r.trieInsertAddr addr (prefixMask 4 m)).WF ∧ ∀ x, x.length = 4 →
      ((r.trieInsertAddr addr (prefixMask 4 m)).trieMatchAddr x = true ↔
        r.trieMatchAddr x = true ∨ r.Gained addr m x) := by
  by_cases one : m ≤ 1
  · rw [insertShallow_eq lenAddr one]
    refine ⟨⟨?_, ?_⟩, fun x lenX => ?_⟩
    · simp only
      split
      · exact .inr (.full _ _)
      · exact wf.one
    · simp only
      split
      · exact .inr (.full _ _)
      · exact wf.zero
    · simp only [trieMatchAddr, firstBit_eq lenX, Gained, one, true_or, and_true]
      have hm : m = 0 ∨ m = 1 := by omega
      rcases hm with rfl | rfl
      · have : AgreeUpTo 0 addr x := fun i hi => by omega
        simp [this]
      · have : AgreeUpTo 1 addr x ↔ bit addr 0 = bit x 0 :=
          ⟨fun h => h 0 (by omega), fun h i hi => by rw [show i = 0 by omega, h]⟩
        rw [this]
        cases hx : bit x 0 <;> cases ha : bit addr 0 <;> simp
  · have deep : r.trieInsertAddr addr (prefixMask 4 m) = r.insertDeep addr (prefixMask 4 m) := by
      have hlt := wordMask_lt_iff (j := 1) (k := min m 32) (by omega) (by omega)
      have hmask : wordMask 1 = (1 : U32) <<< 31 := by decide
      rw [hmask] at hlt
      have : ¬ wordMask (min m 32) ≤ (1 : U32) <<< 31 := by
        rw [BitVec.not_le]
        exact hlt.mpr (by omega)
      simp only [trieInsertAddr, prefixMask, headD_cons]
      exact if_neg this
    rw [deep]
    exact insertDeep_spec wf lenAddr hm (by omega)

end TrieRoot

/-! ## Sequences of insertions -/

/-- A successful insertion into the trie of one family: `addrset_add_spec`
refuses a mask longer than the address, and passes -1 for a missing one. -/
structure Insertion (f : Family) where
  sa : Sockaddr
  bits : Int
  family : sa.family = f
  valid : bits ≤ f.addrBits

namespace Insertion

variable {f : Family}

/-- The masked bits of an inserted prefix. -/
def maskLen (q : Insertion f) : Nat := maskBits f q.bits

/-- The address agrees with the inserted one on all masked bits. -/
def Covers (q : Insertion f) (x : Sockaddr) : Prop :=
  AgreeUpTo q.maskLen (sockaddrToAddr q.sa) (sockaddrToAddr x)

/-- The address lies in the prefix but differs from the inserted address in
the first bit after the mask. -/
def CoversOff (q : Insertion f) (x : Sockaddr) : Prop :=
  q.Covers x ∧ bit (sockaddrToAddr x) q.maskLen ≠ bit (sockaddrToAddr q.sa) q.maskLen

/-- The earlier insertions do not split the off half of the prefix: they leave
it alone or cover it. -/
def Unsplit (earlier : List (Insertion f)) (q : Insertion f) : Prop :=
  q.maskLen ≤ 1 ∨
    (∀ x : Sockaddr, x.family = f → q.CoversOff x → ¬ ∃ e ∈ earlier, e.Covers x) ∨
    (∀ x : Sockaddr, x.family = f → q.CoversOff x → ∃ e ∈ earlier, e.Covers x)

theorem maskLen_le (q : Insertion f) : q.maskLen ≤ 128 := by
  have := q.valid
  unfold maskLen maskBits
  cases f with
  | inet =>
    simp only [Family.addrBits] at this ⊢
    split <;> omega
  | inet6 =>
    simp only [Family.addrBits] at this ⊢
    split <;> omega

end Insertion

/-- `sockaddr_to_mask` builds the prefix mask. -/
theorem sockaddrToMask_eq {f : Family} {bits : Int} (h : maskBits f bits ≤ 128) :
    sockaddrToMask f bits = prefixMask 4 (maskBits f bits) := by
  have word : ∀ k < 32, (u32AllBits - 1) <<< (31 - k) = wordMask k := by decide
  have each : ∀ i l : Nat, (if i < l / 32 then u32AllBits
      else if i > l / 32 then 0
      else (u32AllBits - 1) <<< (31 - l % 32)) = wordMask (min (l - 32 * i) 32) := by
    intro i l
    split_ifs with before behind
    · rw [show min (l - 32 * i) 32 = 32 by omega, wordMask_full]
    · rw [show min (l - 32 * i) 32 = 0 by omega, wordMask_zero]
    · rw [word _ (by omega), show l % 32 = min (l - 32 * i) 32 by omega]
  have four : List.range 4 = [0, 1, 2, 3] := rfl
  simp only [sockaddrToMask, four, map_cons, map_nil, each, prefixMask, Nat.sub_sub]
  rfl

theorem sockaddrToAddr_length (sa : Sockaddr) : (sockaddrToAddr sa).length = 4 := by
  cases sa <;> rfl

/-- The addresses that share the first 96 bits of an IPv4-mapped address are
the IPv4-mapped ones. -/
theorem exists_inet {a : U32} {y : Words} (len : y.length = 4)
    (agree : AgreeUpTo 96 (sockaddrToAddr (.inet a)) y) : ∃ b, sockaddrToAddr (.inet b) = y := by
  match y, len with
  | [w0, w1, w2, w3], _ =>
    have word : ∀ (v w : U32), (∀ i < 32, v.getMsbD i = w.getMsbD i) → v = w :=
      fun v w h => BitVec.eq_of_getMsbD_eq fun i hi => h i hi
    simp only [sockaddrToAddr, agreeUpTo_cons] at agree
    obtain ⟨h0, h1, h2, -⟩ := agree
    refine ⟨w3, ?_⟩
    rw [← word 0 w0 h0, ← word 0 w1 h1, ← word 0xffff w2 h2]
    rfl

theorem Insertion.maskLen_inet (q : Insertion .inet) : 96 ≤ q.maskLen := by
  unfold Insertion.maskLen maskBits
  split <;> simp

/-- An address that shares the masked bits of an inserted prefix is the address
of a socket address of the same family. -/
theorem Insertion.exists_sockaddr {f : Family} (q : Insertion f) {y : Words}
    (len : y.length = 4) (agree : AgreeUpTo q.maskLen (sockaddrToAddr q.sa) y) :
    ∃ x : Sockaddr, x.family = f ∧ sockaddrToAddr x = y := by
  cases f with
  | inet6 =>
    match y, len with
    | [w0, w1, w2, w3], _ => exact ⟨.inet6 w0 w1 w2 w3, rfl, rfl⟩
  | inet =>
    have agree96 := agree.mono q.maskLen_inet
    obtain ⟨sa, bits, family, valid⟩ := q
    cases sa with
    | inet6 => cases family
    | inet a =>
      obtain ⟨b, hb⟩ := exists_inet (a := a) len agree96
      exact ⟨.inet b, rfl, hb⟩

namespace TrieRoot

variable {f : Family}

/-- The trie after a sequence of insertions. -/
def insertAll (ops : List (Insertion f)) : TrieRoot :=
  ops.foldl (fun r q => r.trieInsert q.sa q.bits) new

@[simp]
theorem insertAll_concat (ops : List (Insertion f)) (q : Insertion f) :
    insertAll (ops ++ [q]) = (insertAll ops).trieInsert q.sa q.bits := by
  simp [insertAll]

/-- `trie_insert` in terms of prefixes. -/
theorem trieInsert_spec {r : TrieRoot} (wf : r.WF) (q : Insertion f) :
    (r.trieInsert q.sa q.bits).WF ∧ ∀ x, x.length = 4 →
      ((r.trieInsert q.sa q.bits).trieMatchAddr x = true ↔
        r.trieMatchAddr x = true ∨ r.Gained (sockaddrToAddr q.sa) q.maskLen x) := by
  have hmask : sockaddrToMask q.sa.family q.bits = prefixMask 4 q.maskLen := by
    rw [q.family]
    exact sockaddrToMask_eq q.maskLen_le
  unfold trieInsert
  rw [hmask]
  exact trieInsertAddr_spec wf (sockaddrToAddr_length q.sa) q.maskLen_le

theorem insertAll_wf (ops : List (Insertion f)) : (insertAll ops).WF := by
  induction ops using List.reverseRecOn with
  | nil => exact WF.new
  | append_singleton ops q ih =>
    rw [insertAll_concat]
    exact (trieInsert_spec ih q).1

/-- The trie agrees with the union of the inserted prefixes. -/
def MatchesUnion (ops : List (Insertion f)) : Prop :=
  ∀ x : Sockaddr, x.family = f →
    ((insertAll ops).trieMatch x = true ↔ ∃ q ∈ ops, q.Covers x)

/-- One insertion into a trie that is right so far is right exactly when the
earlier prefixes do not split the off half of the new one. -/
theorem matchesUnion_concat {ops : List (Insertion f)} (q : Insertion f)
    (before : MatchesUnion ops) : MatchesUnion (ops ++ [q]) ↔ q.Unsplit ops := by
  have spec : ∀ x : Sockaddr, ((insertAll ops).trieInsert q.sa q.bits).trieMatch x = true ↔
      (insertAll ops).trieMatch x = true ∨
        (insertAll ops).Gained (sockaddrToAddr q.sa) q.maskLen (sockaddrToAddr x) :=
    fun x => (trieInsert_spec (insertAll_wf ops) q).2 _ (sockaddrToAddr_length x)
  -- the off half, seen as words and as socket addresses of the family
  have words : (∀ y, OffHalf (sockaddrToAddr q.sa) q.maskLen y →
        (insertAll ops).trieMatchAddr y = false) ↔
      ∀ x : Sockaddr, x.family = f → q.CoversOff x → ¬ ∃ e ∈ ops, e.Covers x := by
    constructor
    · intro h x hx off
      rw [← before x hx, Bool.not_eq_true]
      exact h _ ⟨sockaddrToAddr_length x, off⟩
    · intro h y off
      obtain ⟨x, hx, rfl⟩ := q.exists_sockaddr off.1 off.2.1
      have := h x hx off.2
      rwa [← before x hx, Bool.not_eq_true] at this
  have union : ∀ x, (∃ e ∈ ops ++ [q], e.Covers x) ↔ (∃ e ∈ ops, e.Covers x) ∨ q.Covers x := by
    intro x
    simp only [mem_append, mem_singleton, or_and_right, exists_or, exists_eq_left]
  constructor
  · intro after
    by_cases one : q.maskLen ≤ 1
    · exact .inl one
    by_cases none : ∀ x : Sockaddr, x.family = f → q.CoversOff x → ¬ ∃ e ∈ ops, e.Covers x
    · exact .inr (.inl none)
    refine .inr (.inr fun x hx off => ?_)
    have := (after x hx).mpr ((union x).mpr (.inr off.1))
    rw [insertAll_concat, spec x, before x hx] at this
    rcases this with h | ⟨-, h | h | h⟩
    · exact h
    · exact absurd h one
    · exact absurd h off.2
    · exact absurd (words.mp h) none
  · intro safe x hx
    rw [insertAll_concat, spec x, before x hx, union x]
    constructor
    · exact Or.imp_right fun h => h.1
    · rintro (h | covers)
      · exact .inl h
      by_cases half : bit (sockaddrToAddr x) q.maskLen = bit (sockaddrToAddr q.sa) q.maskLen
      · exact .inr ⟨covers, .inr (.inl half)⟩
      rcases safe with one | none | all
      · exact .inr ⟨covers, .inl one⟩
      · exact .inr ⟨covers, .inr (.inr (words.mpr none))⟩
      · exact .inl (all x hx ⟨covers, half⟩)

/-- After every insertion of a sequence `trie_match` answers for the union of
the prefixes inserted so far, exactly when no insertion finds the off half of
its prefix split by the earlier ones. -/
theorem matchesUnion_iff (f : Family) (ops : List (Insertion f)) :
    (∀ done, done <+: ops → MatchesUnion done) ↔
      ∀ done q, done ++ [q] <+: ops → q.Unsplit done := by
  induction ops using List.reverseRecOn with
  | nil =>
    refine ⟨fun _ done q h => ?_, fun _ done h => ?_⟩
    · simp at h
    · rw [prefix_nil.mp h]
      intro x _
      simp [insertAll, trieMatch, trieMatchAddr, new, Trie.matchWalk]
  | append_singleton ops last ih =>
    constructor
    · intro right done q h
      rcases prefix_concat_iff.mp h with h | h
      · obtain ⟨rfl, rfl⟩ := append_inj' h rfl |>.imp_right (List.cons.inj · |>.1)
        exact (matchesUnion_concat q (right _ (prefix_append _ _))).mp
          (right _ (prefix_refl _))
      · exact ih.mp (fun d hd => right d (hd.trans (prefix_append _ _))) done q h
    · intro safe done h
      have rightBefore := ih.mpr fun d q hd => safe d q (hd.trans (prefix_append _ _))
      rcases prefix_concat_iff.mp h with rfl | h
      · exact (matchesUnion_concat last (rightBefore ops (prefix_refl _))).mpr
          (safe ops last (prefix_refl _))
      · exact rightBefore done h

end TrieRoot

end Nmap.Addrset
