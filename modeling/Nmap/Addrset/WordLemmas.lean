import Nmap.Addrset.Words

/-!
# What the word loops compute

One lemma for each function of `Nmap.Addrset.Words`, in terms of bit
positions. The masks a trie stores are always `prefixMask 4 l`, so every
lemma is stated for such masks. Facts about a single mask word quantify over
at most 33 × 33 lengths and are settled by evaluation.
-/

namespace Nmap.Addrset

open List

set_option maxRecDepth 4000

/-! ## One word -/

variable {k i : Nat}

theorem wordMask_getMsbD (hk : k ≤ 32) :
    (wordMask k).getMsbD i = decide (i < k) := by
  rw [wordMask, BitVec.getMsbD_shiftLeft, BitVec.getMsbD_allOnes, decide_eq_decide]
  omega

theorem logTable256_eq {t : Nat} (h0 : t ≠ 0) (h : t < 256) :
    logTable256.getD t 0 = (Nat.log2 t : Int) := by
  have table : logTable256 = -1 :: (List.range 255).map fun t => ((t + 1).log2 : Int) := by rfl
  obtain ⟨t, rfl⟩ := Nat.exists_eq_succ_of_ne_zero h0
  have below : t < 255 := by omega
  rw [table, getD_cons_succ, getD_eq_getElem?_getD, getElem?_map, getElem?_range below]
  rfl

private theorem log2_shift {v s : Nat} (h : v >>> s ≠ 0) : v.log2 = s + (v >>> s).log2 := by
  have hv : v ≠ 0 := by
    rintro rfl
    exact h (Nat.zero_shiftRight s)
  obtain ⟨hlo, hhi⟩ := (Nat.log2_eq_iff h).mp rfl
  rw [Nat.log2_eq_iff hv]
  rw [Nat.shiftRight_eq_div_pow] at hlo hhi
  rw [Nat.shiftRight_eq_div_pow]
  have hpos : 0 < 2 ^ s := Nat.two_pow_pos s
  constructor
  · rw [Nat.pow_add, Nat.mul_comm]
    exact (Nat.le_div_iff_mul_le hpos).mp hlo
  · rw [Nat.add_assoc, Nat.pow_add, Nat.mul_comm]
    exact (Nat.div_lt_iff_lt_mul hpos).mp hhi

variable {v : U32}

private theorem toNat_ne_zero (h : v ≠ 0) : v.toNat ≠ 0 := by
  intro h0
  exact h (BitVec.eq_of_toNat_eq (by simpa using h0))

/-- The byte-wise table lookup of `common_mask` is the binary logarithm. -/
theorem highBit_eq_log2 (hv : v ≠ 0) : highBit v = v.toNat.log2 := by
  have hlt : v.toNat < 2 ^ 32 := v.isLt
  unfold highBit
  simp only
  split
  · rename_i htt
    have h16 := toNat_ne_zero htt
    rw [BitVec.toNat_ushiftRight] at h16
    split
    · rename_i ht
      have h24 := toNat_ne_zero ht
      rw [BitVec.toNat_ushiftRight, BitVec.toNat_ushiftRight, ← Nat.shiftRight_add] at h24
      rw [BitVec.toNat_ushiftRight, BitVec.toNat_ushiftRight, ← Nat.shiftRight_add,
        logTable256_eq h24 (by rw [Nat.shiftRight_eq_div_pow]; omega), log2_shift h24]
      omega
    · rename_i ht
      have h24 : v.toNat >>> 16 < 256 := by
        have := congrArg BitVec.toNat (not_not.mp ht)
        rw [BitVec.toNat_ushiftRight, BitVec.toNat_ushiftRight] at this
        simp [Nat.shiftRight_eq_div_pow] at this ⊢
        omega
      rw [BitVec.toNat_ushiftRight, logTable256_eq h16 h24, log2_shift h16]
      omega
  · rename_i htt
    have hlow : v.toNat < 2 ^ 16 := by
      have := congrArg BitVec.toNat (not_not.mp htt)
      rw [BitVec.toNat_ushiftRight] at this
      simp [Nat.shiftRight_eq_div_pow] at this ⊢
      omega
    split
    · rename_i ht
      have h8 := toNat_ne_zero ht
      rw [BitVec.toNat_ushiftRight] at h8
      rw [BitVec.toNat_ushiftRight,
        logTable256_eq h8 (by rw [Nat.shiftRight_eq_div_pow]; omega), log2_shift h8]
      omega
    · rename_i ht
      have h8 : v.toNat < 256 := by
        have := congrArg BitVec.toNat (not_not.mp ht)
        rw [BitVec.toNat_ushiftRight] at this
        simp [Nat.shiftRight_eq_div_pow] at this ⊢
        omega
      rw [logTable256_eq (toNat_ne_zero hv) h8]
      omega

/-- `common_mask` returns the mask of the longest common prefix. -/
theorem commonMask_spec (a b : U32) :
    ∃ c ≤ 32, commonMask a b = wordMask c ∧ (∀ i < c, a.getMsbD i = b.getMsbD i) ∧
      (c < 32 → a.getMsbD c ≠ b.getMsbD c) := by
  unfold commonMask
  simp only
  split
  · rename_i h
    have hab : a = b := by simpa using h
    exact ⟨32, le_rfl, by decide, fun _ _ => by rw [hab], fun h => absurd h (by omega)⟩
  · rename_i h
    rw [highBit_eq_log2 h]
    have hn := toNat_ne_zero h
    have hr : (a ^^^ b).toNat.log2 < 32 := (Nat.log2_lt hn).mpr (a ^^^ b).isLt
    have top : (a ^^^ b).toNat.testBit (a ^^^ b).toNat.log2 = true := Nat.testBit_log2 hn
    have below : ∀ j, (a ^^^ b).toNat.log2 < j → (a ^^^ b).toNat.testBit j = false := by
      intro j hj
      exact Nat.testBit_lt_two_pow ((Nat.log2_lt hn).mp hj)
    have masks : ∀ r < 32, (if r + 1 ≥ 32 then (0 : U32) else ~~~(((1 : U32) <<< (r + 1)) - 1))
        = wordMask (31 - r) := by decide
    have hbit : ∀ i < 32, (a.getMsbD i ^^ b.getMsbD i) = (a ^^^ b).toNat.testBit (31 - i) := by
      intro i hi
      rw [← BitVec.getMsbD_xor, BitVec.getMsbD_eq_getLsbD, BitVec.testBit_toNat]
      simp [hi]
    refine ⟨31 - (a ^^^ b).toNat.log2, by omega, masks _ hr, ?_, ?_⟩
    · intro i hi
      have := hbit i (by omega)
      rw [below (31 - i) (by omega)] at this
      simpa using this
    · intro hc heq
      have := hbit (31 - (a ^^^ b).toNat.log2) hc
      rw [heq, show 31 - (31 - (a ^^^ b).toNat.log2) = (a ^^^ b).toNat.log2 by omega, top] at this
      simp at this
theorem wordMask_zero : wordMask 0 = 0 := by decide
theorem wordMask_full : wordMask 32 = u32AllBits := by decide

theorem wordMask_lt_iff {j : Nat} (hj : j ≤ 32) (hk : k ≤ 32) :
    wordMask j < wordMask k ↔ j < k := by
  have value : ∀ k < 33, (wordMask k).toNat + 2 ^ (32 - k) = 2 ^ 32 := by decide
  have power : 2 ^ (32 - k) < 2 ^ (32 - j) ↔ 32 - k < 32 - j :=
    Nat.pow_lt_pow_iff_right (by decide)
  have first := value j (by omega)
  have second := value k (by omega)
  rw [BitVec.lt_def]
  omega

theorem wordMask_inj {j : Nat} (hj : j ≤ 32) (hk : k ≤ 32) :
    wordMask j = wordMask k ↔ j = k := by
  refine ⟨fun h => ?_, fun h => by rw [h]⟩
  have h1 := wordMask_lt_iff hj hk
  have h2 := wordMask_lt_iff hk hj
  rw [h] at h1 h2
  simp only [BitVec.lt_irrefl, false_iff, Nat.not_lt] at h1 h2
  omega

theorem wordMask_eq_zero (hk : k ≤ 32) : wordMask k = 0 ↔ k = 0 := by
  rw [← wordMask_zero, wordMask_inj hk (by omega)]

theorem wordMask_lt_full (hk : k ≤ 32) : wordMask k < u32AllBits ↔ k < 32 := by
  rw [← wordMask_full, wordMask_lt_iff hk le_rfl]

theorem maskMatches_wordMask (hk : k ≤ 32) (a b : U32) :
    maskMatches (wordMask k) a b = true ↔ ∀ i < k, a.getMsbD i = b.getMsbD i := by
  unfold maskMatches
  rw [beq_iff_eq]
  constructor
  · intro h i hi
    have hbit := congrArg (·.getMsbD i) h
    simp only [BitVec.getMsbD_and, wordMask_getMsbD hk, hi, decide_true, Bool.true_and,
      BitVec.getMsbD_xor] at hbit
    simpa using hbit
  · intro h
    apply BitVec.eq_of_getMsbD_eq
    intro i _
    simp only [BitVec.getMsbD_and, wordMask_getMsbD hk, BitVec.getMsbD_xor]
    by_cases hi : i < k
    · simp [hi, h i hi]
    · simp [hi]

theorem nextBitIsOne_wordMask (hk : k < 32) (v : U32) :
    (nextBitIsOne (wordMask k) v != 0) = v.getMsbD k := by
  have isolate : ∀ k < 32,
      (if wordMask k = 0 then (1 : U32) <<< 31
        else if wordMask k = u32AllBits then 0
        else (wordMask k >>> 1) &&& ~~~(wordMask k)) = BitVec.twoPow 32 (31 - k) := by
    decide
  have split : nextBitIsOne (wordMask k) v = v &&& BitVec.twoPow 32 (31 - k) := by
    rw [← isolate k hk]
    unfold nextBitIsOne
    split
    · exact BitVec.and_comm _ _
    · split
      · simp
      · exact BitVec.and_comm _ _
  have nonzero : ∀ k < 32, (BitVec.twoPow 32 (31 - k) != 0) = true := by decide
  rw [split, BitVec.and_twoPow, BitVec.getMsbD_eq_getLsbD]
  have hidx : 32 - 1 - k = 31 - k := by omega
  simp only [hk, decide_true, Bool.true_and, hidx]
  by_cases hv : v.getLsbD (31 - k) = true
  · rw [if_pos hv, hv]
    exact nonzero k hk
  · rw [if_neg hv]
    simpa using hv

/-! ## A list of words -/

variable {w : U32}

theorem bit_cons_lt {ws : Words} (h : i < 32) :
    bit (w :: ws) i = w.getMsbD i := by
  simp [bit, h]

theorem bit_cons_add (w : U32) (ws : Words) (i : Nat) : bit (w :: ws) (32 + i) = bit ws i := by
  simp [bit]

theorem prefixMask_zero (n : Nat) : prefixMask n 0 = List.replicate n 0 := by
  induction n with
  | zero => rfl
  | succ n ih => simp [prefixMask, ih, wordMask_zero, replicate_succ]

@[simp]
theorem prefixMask_length (n m : Nat) : (prefixMask n m).length = n := by
  induction n generalizing m with
  | zero => rfl
  | succ n ih => simp [prefixMask, ih]

variable {m : Nat}

theorem agreeUpTo_cons {ws vs : Words} :
    AgreeUpTo m (w :: ws) (v :: vs) ↔
      (∀ i < min m 32, w.getMsbD i = v.getMsbD i) ∧ AgreeUpTo (m - 32) ws vs := by
  constructor
  · intro h
    refine ⟨fun i hi => ?_, fun i hi => ?_⟩
    · have := h i (by omega)
      rwa [bit_cons_lt (by omega), bit_cons_lt (by omega)] at this
    · have := h (32 + i) (by omega)
      rwa [bit_cons_add, bit_cons_add] at this
  · rintro ⟨h1, h2⟩ i hi
    by_cases h32 : i < 32
    · rw [bit_cons_lt h32, bit_cons_lt h32]
      exact h1 i (by omega)
    · rw [show i = 32 + (i - 32) by omega, bit_cons_add, bit_cons_add]
      exact h2 _ (by omega)

variable {n : Nat} {a : Words}

/-- `addr_matches` compares the masked bits. -/
theorem addrMatches_prefixMask {b : Words} (ha : a.length = n) (hb : b.length = n) (m : Nat) :
    addrMatches (prefixMask n m) a b = true ↔ AgreeUpTo m a b := by
  induction n generalizing a b m with
  | zero =>
    rw [length_eq_zero_iff] at ha hb
    subst ha hb
    simp [addrMatches, prefixMask, AgreeUpTo]
  | succ n ih =>
    match a, b, ha, hb with
    | w :: ws, v :: vs, ha, hb =>
      simp only [length_cons, Nat.add_right_cancel_iff] at ha hb
      simp only [prefixMask, addrMatches]
      rw [agreeUpTo_cons]
      split
      · rename_i h0
        rw [wordMask_eq_zero (by omega)] at h0
        have hm : m = 0 := by omega
        subst hm
        simp [AgreeUpTo]
      · have hword := maskMatches_wordMask (show min m 32 ≤ 32 by omega) w v
        cases hmm : maskMatches (wordMask (min m 32)) w v
        · rw [hmm] at hword
          simp only [Bool.false_eq_true, false_iff] at hword
          simp only [Bool.not_false, if_true, Bool.false_eq_true, false_iff]
          exact fun h => hword h.1
        · rw [hmm] at hword
          simp only [true_iff] at hword
          simp only [Bool.not_true, Bool.false_eq_true, if_false]
          rw [ih ha hb]
          exact ⟨fun h => ⟨hword, h⟩, fun h => h.2⟩

/-- `addr_next_bit_is_one` reads the bit after the mask; off the end it is
zero, as `bit` is. -/
theorem addrNextBitIsOne_prefixMask (ha : a.length = n) (m : Nat) :
    addrNextBitIsOne (prefixMask n m) a = bit a m := by
  induction n generalizing a m with
  | zero =>
    rw [length_eq_zero_iff] at ha
    subst ha
    rfl
  | succ n ih =>
    match a, ha with
    | w :: ws, ha =>
      simp only [length_cons, Nat.add_right_cancel_iff] at ha
      simp only [prefixMask, addrNextBitIsOne, wordMask_lt_full (show min m 32 ≤ 32 by omega)]
      split
      · rename_i h
        have hm : min m 32 = m := by omega
        rw [hm, nextBitIsOne_wordMask (by omega), bit_cons_lt (by omega)]
      · rename_i h
        rw [ih ha]
        conv_rhs => rw [show m = 32 + (m - 32) by omega, bit_cons_add]

theorem wordMask_shift_one {p q : Nat} (hp : p ≤ 32) (hq : q ≤ 32) (h : p < q) :
    (wordMask p == (wordMask q <<< 1) &&& u32AllBits) = decide (q = p + 1) := by
  have shifted : ∀ k < 32, (wordMask (k + 1) <<< 1) &&& u32AllBits = wordMask k := by decide
  obtain ⟨k, rfl⟩ := Nat.exists_eq_add_of_le' (show 1 ≤ q by omega)
  rw [shifted k (by omega)]
  show decide (wordMask p = wordMask k) = _
  rw [decide_eq_decide, wordMask_inj hp (by omega)]
  omega

theorem prefixMask_head_zero (hm : m ≤ 32 * n) :
    ((prefixMask n m).isEmpty || (prefixMask n m).headD 0 == 0) = decide (m = 0) := by
  cases n with
  | zero =>
    have : m = 0 := by omega
    simp [prefixMask, this]
  | succ n =>
    simp only [prefixMask, isEmpty_cons, Bool.false_or, headD_cons]
    by_cases h0 : m = 0
    · simp [h0, wordMask_zero]
    · have : wordMask (min m 32) ≠ 0 := by
        rw [Ne, wordMask_eq_zero (by omega)]
        omega
      simpa [h0] using this

/-- `mask_is_one_bit_more` compares the two lengths. -/
theorem maskIsOneBitMore_prefixMask {p q : Nat} (hp : p ≤ 32 * n) (hq : q ≤ 32 * n) :
    maskIsOneBitMore (prefixMask n p) (prefixMask n q) = decide (q = p + 1) := by
  induction n generalizing p q with
  | zero =>
    have : ¬ q = p + 1 := by omega
    simp [prefixMask, maskIsOneBitMore, this]
  | succ n ih =>
    simp only [prefixMask, maskIsOneBitMore, gt_iff_lt,
      wordMask_lt_iff (show min p 32 ≤ 32 by omega) (show min q 32 ≤ 32 by omega),
      wordMask_lt_iff (show min q 32 ≤ 32 by omega) (show min p 32 ≤ 32 by omega)]
    split
    · have : ¬ q = p + 1 := by omega
      simp [this]
    · split
      · rw [wordMask_shift_one (by omega) (by omega) (by omega),
          prefixMask_head_zero (by omega), ← Bool.decide_and]
        apply decide_eq_decide.mpr
        omega
      · rw [ih (by omega) (by omega)]
        apply decide_eq_decide.mpr
        omega

/-- The three ways the scan of `trie_split` ends. `c` is the length of the
common prefix. Equal lengths of the common prefix and of the new mask end in
`contained` or `fork`, never in `superseded`. -/
theorem splitScan_spec {ta : Words} (hta : ta.length = n) (ha : a.length = n) {l : Nat}
    (hl : l ≤ 32 * n) (hm : m ≤ 32 * n) :
    (m < l ∧ AgreeUpTo (m + 1) ta a ∧
      splitScan ta (prefixMask n l) a (prefixMask n m) = .superseded (prefixMask n m)) ∨
    (l ≤ m ∧ AgreeUpTo l ta a ∧
      splitScan ta (prefixMask n l) a (prefixMask n m) = .contained) ∨
    (∃ c, c < l ∧ c ≤ m ∧ AgreeUpTo c ta a ∧ bit ta c ≠ bit a c ∧
      splitScan ta (prefixMask n l) a (prefixMask n m) =
        .fork (prefixMask n c) (decide (l = c + 1))) := by
  induction n generalizing ta a l m with
  | zero =>
    rw [length_eq_zero_iff] at hta ha
    subst hta ha
    right; left
    exact ⟨by omega, fun i hi => by omega, rfl⟩
  | succ n ih =>
    match ta, a, hta, ha with
    | t :: ts, w :: ws, hta, ha =>
      simp only [length_cons, Nat.add_right_cancel_iff] at hta ha
      obtain ⟨c, hc, hcm, hagree, hdiff⟩ := commonMask_spec t w
      -- the smaller of the common prefix and the node's mask, in this word
      have hnew : (if wordMask c > wordMask (min l 32) then wordMask (min l 32) else wordMask c)
          = wordMask (min c (min l 32)) := by
        simp only [gt_iff_lt, wordMask_lt_iff (show min l 32 ≤ 32 by omega) hc]
        split
        · congr 1; omega
        · congr 1; omega
      have hzeros : (prefixMask n (l - 32)).map (fun _ => (0 : U32)) = prefixMask n 0 := by
        rw [prefixMask_zero, map_const', prefixMask_length]
      simp only [prefixMask, splitScan, hcm, hnew, hzeros]
      simp only [gt_iff_lt, ge_iff_le, BitVec.not_lt.symm,
        wordMask_lt_iff (show min m 32 ≤ 32 by omega) (show min c (min l 32) ≤ 32 by omega),
        wordMask_lt_full (show min c (min l 32) ≤ 32 by omega),
        wordMask_lt_iff (show min c (min l 32) ≤ 32 by omega) (show min l 32 ≤ 32 by omega)]
      by_cases hsup : min m 32 < min c (min l 32)
      · -- this word already shows the new mask to be the broader one
        left
        refine ⟨by omega, ?_, ?_⟩
        · rw [agreeUpTo_cons]
          refine ⟨fun i hi => hagree i (by omega), fun i hi => by omega⟩
        · rw [if_pos hsup, show m - 32 = 0 by omega]
      · rw [if_neg hsup]
        by_cases hfull : min c (min l 32) < 32
        · rw [if_pos hfull]
          right
          by_cases hin : min c (min l 32) < min l 32
          · right
            have hcl : min c (min l 32) = c := by omega
            refine ⟨c, by omega, by omega, ?_, ?_, ?_⟩
            · rw [agreeUpTo_cons]
              exact ⟨fun i hi => hagree i (by omega), fun i hi => by omega⟩
            · rw [bit_cons_lt (by omega), bit_cons_lt (by omega)]
              exact hdiff (by omega)
            · have hone := maskIsOneBitMore_prefixMask (n := n + 1) (p := c) (q := l)
                (by omega) hl
              simp only [prefixMask, show min c 32 = c by omega,
                show c - 32 = 0 by omega] at hone
              rw [if_neg (by omega), hcl, hone, show min c 32 = c by omega,
                show c - 32 = 0 by omega]
          · left
            refine ⟨by omega, ?_, ?_⟩
            · rw [agreeUpTo_cons]
              exact ⟨fun i hi => hagree i (by omega), fun i hi => by omega⟩
            · rw [if_pos hin]
        · rw [if_neg hfull]
          -- both words agree completely and are completely masked: next word
          have h32 : min l 32 = 32 ∧ min m 32 = 32 ∧ c = 32 := by omega
          have hword : ∀ i < 32, t.getMsbD i = w.getMsbD i := fun i hi => hagree i (by omega)
          rcases ih hta ha (l := l - 32) (m := m - 32) (by omega) (by omega) with
            ⟨h1, h2, h3⟩ | ⟨h1, h2, h3⟩ | ⟨d, h1, h2, h3, h4, h5⟩
          · left
            refine ⟨by omega, ?_, ?_⟩
            · rw [agreeUpTo_cons]
              refine ⟨fun i hi => hword i (by omega), ?_⟩
              rw [show m + 1 - 32 = m - 32 + 1 by omega]
              exact h2
            · rw [h3, h32.1, h32.2.1]
          · right; left
            refine ⟨by omega, ?_, ?_⟩
            · rw [agreeUpTo_cons]
              exact ⟨fun i hi => hword i (by omega), h2⟩
            · rw [h3]
          · right; right
            refine ⟨32 + d, by omega, by omega, ?_, ?_, ?_⟩
            · rw [agreeUpTo_cons, show 32 + d - 32 = d by omega]
              exact ⟨fun i hi => hword i (by omega), h3⟩
            · rw [bit_cons_add, bit_cons_add]
              exact h4
            · rw [h5]
              simp only [show min (32 + d) 32 = 32 by omega, show 32 + d - 32 = d by omega,
                h32.1, h32.2.2, Nat.min_self, SplitScan.fork.injEq, true_and]
              apply decide_eq_decide.mpr
              omega

/-! ## Replacing a bit -/

@[simp]
theorem setBit_length (a : Words) (m : Nat) (b : Bool) : (setBit a m b).length = a.length := by
  induction a generalizing m with
  | nil => rfl
  | cons w ws ih =>
    simp only [setBit]
    split <;> simp [ih]

theorem getMsbD_setBit (hm : m < 32) (hi : i < 32) (b : Bool) :
    (if b then w ||| BitVec.twoPow 32 (31 - m)
      else w &&& ~~~(BitVec.twoPow 32 (31 - m))).getMsbD i = if i = m then b else w.getMsbD i := by
  have one : ∀ m < 32, ∀ i < 32, (BitVec.twoPow 32 (31 - m)).getMsbD i = decide (i = m) := by
    intro m hm i hi
    rw [BitVec.getMsbD_twoPow, ← Bool.decide_and, decide_eq_decide]
    omega
  cases b with
  | true =>
    simp only [if_true, BitVec.getMsbD_or, one m hm i hi]
    by_cases h : i = m <;> simp [h]
  | false =>
    simp only [Bool.false_eq_true, if_false, BitVec.getMsbD_and, BitVec.getMsbD_not,
      one m hm i hi, hi]
    by_cases h : i = m <;> simp [h]

theorem bit_setBit (hm : m < 32 * a.length) (b : Bool) (i : Nat) :
    bit (setBit a m b) i = if i = m then b else bit a i := by
  induction a generalizing m i with
  | nil => simp at hm
  | cons w ws ih =>
    simp only [length_cons] at hm
    simp only [setBit]
    by_cases h32 : m < 32
    · rw [if_pos h32]
      by_cases hi : i < 32
      · rw [bit_cons_lt hi, bit_cons_lt hi, getMsbD_setBit h32 hi]
      · have hne : i ≠ m := by omega
        rw [if_neg hne, show i = 32 + (i - 32) by omega, bit_cons_add, bit_cons_add]
    · rw [if_neg h32]
      by_cases hi : i < 32
      · have hne : i ≠ m := by omega
        rw [if_neg hne, bit_cons_lt hi, bit_cons_lt hi]
      · rw [show i = 32 + (i - 32) by omega, bit_cons_add, bit_cons_add, ih (by omega)]
        congr 1
        apply propext
        omega

/-- The loop of `trie_update` takes one half of the node's prefix. -/
theorem extendMask_prefixMask (ha : a.length = n) (hm : m < 32 * n) (one : Bool) :
    extendMask one a (prefixMask n m) = (setBit a m one, prefixMask n (m + 1)) := by
  induction n generalizing a m with
  | zero => omega
  | succ n ih =>
    match a, ha with
    | w :: ws, ha =>
      simp only [length_cons, Nat.add_right_cancel_iff] at ha
      have longer : ∀ k < 33, (wordMask k >>> 1) ||| ((1 : U32) <<< 31) =
          wordMask (min (k + 1) 32) := by decide
      have extra : ∀ k < 32, ~~~(wordMask k) &&& wordMask (k + 1) = BitVec.twoPow 32 (31 - k) ∧
          ~~~(wordMask k) ^^^ wordMask (k + 1) = ~~~(BitVec.twoPow 32 (31 - k)) := by
        decide
      simp only [prefixMask, extendMask, longer (min m 32) (by omega), setBit, Ne,
        wordMask_inj (show min (min m 32 + 1) 32 ≤ 32 by omega) (show min m 32 ≤ 32 by omega)]
      by_cases h32 : m < 32
      · have h1 : min m 32 = m := by omega
        have h2 : min (m + 1) 32 = m + 1 := by omega
        obtain ⟨hor, hand⟩ := extra m h32
        rw [if_pos (by omega), if_pos h32, h1, h2, hor, hand, show m - 32 = 0 by omega,
          show m + 1 - 32 = 0 by omega]
      · have h1 : min m 32 = 32 := by omega
        rw [if_neg (by omega), if_neg h32, ih ha (by omega), h1,
          show min (m + 1) 32 = 32 by omega, show m + 1 - 32 = m - 32 + 1 by omega]

end Nmap.Addrset
