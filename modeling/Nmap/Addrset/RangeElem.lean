import Nmap.Addrset.Set

/-!
# What a range element contains

The netmask of a range element widens its bit vectors one octet at a time. An address is in
the element afterwards iff it agrees with an address that was in it on the bits of the mask.
-/

namespace Nmap.Addrset

open List

set_option maxRecDepth 4000

/-! ## One octet -/

variable {i : Nat}

theorem bitIsSet_bitSet (bits : OctetBitvector) (k : Nat) (hi : i < 256) :
    bitIsSet (bitSet bits k) i = (bitIsSet bits i || decide (i = k)) := by
  simp [bitIsSet, bitSet, hi]

/-- One pair of bits in a round of `apply_ipv4_netmask_octet` -/
def pairBits (chunkSize : Nat) (bits : OctetBitvector) (k : Nat) : OctetBitvector :=
  if bitIsSet bits k then bitSet bits (k + chunkSize)
  else if bitIsSet bits (k + chunkSize) then bitSet bits k
  else bits

/-- The first bits of the pairs, in order -/
def pairStarts (chunkSize : Nat) : List Nat :=
  (List.range (128 / chunkSize)).flatMap fun pair =>
    (List.range chunkSize).map fun j => pair * (chunkSize * 2) + j

theorem pairChunks_eq (bits : OctetBitvector) (chunkSize : Nat) :
    pairChunks bits chunkSize = (pairStarts chunkSize).foldl (pairBits chunkSize) bits := by
  rw [pairStarts, foldl_flatMap]
  simp only [foldl_map]
  rfl

variable {chunkSize k : Nat}

theorem bitIsSet_pairBits (bits : OctetBitvector) (hi : i < 256) :
    bitIsSet (pairBits chunkSize bits k) i =
      (bitIsSet bits i || decide (i = k) && bitIsSet bits (k + chunkSize) ||
        decide (i = k + chunkSize) && bitIsSet bits k) := by
  unfold pairBits
  split
  · rename_i first
    rw [bitIsSet_bitSet bits _ hi, first]
    by_cases here : i = k
    · simp [here, first]
    · simp [here]
  · rename_i first
    split
    · rename_i second
      rw [bitIsSet_bitSet bits _ hi, second]
      simp [first]
    · rename_i second
      simp [first, second]

theorem bitIsSet_foldl_mono (hi : i < 256) (starts : List Nat) (bits : OctetBitvector)
    (set : bitIsSet bits i = true) :
    bitIsSet (starts.foldl (pairBits chunkSize) bits) i = true := by
  induction starts generalizing bits with
  | nil => exact set
  | cons k starts ih =>
    refine ih _ ?_
    rw [bitIsSet_pairBits bits hi, set]
    simp

theorem bitIsSet_foldl_complete {j : Nat} (hi : i < 256) (hj : j < 256) {starts : List Nat}
    (mem : k ∈ starts) (pair : i = k ∧ j = k + chunkSize ∨ i = k + chunkSize ∧ j = k)
    (bits : OctetBitvector) (set : bitIsSet bits j = true) :
    bitIsSet (starts.foldl (pairBits chunkSize) bits) i = true := by
  induction starts generalizing bits with
  | nil => exact absurd mem not_mem_nil
  | cons first starts ih =>
    rw [foldl_cons]
    by_cases here : k = first
    · apply bitIsSet_foldl_mono hi
      rw [bitIsSet_pairBits bits hi, ← here]
      rcases pair with ⟨rfl, rfl⟩ | ⟨rfl, rfl⟩
      · simp [set]
      · simp [set]
    · refine ih ((mem_cons.mp mem).resolve_left here) _ ?_
      rw [bitIsSet_pairBits bits hj, set]
      simp

variable {e : Nat}

/-- A bit that is set afterwards was set itself, or its partner was. -/
theorem bitIsSet_foldl_sound (he : e < 8) (hi : i < 256) {starts : List Nat}
    (pairs : ∀ k ∈ starts, k + 2 ^ e = k ^^^ 2 ^ e) (bits : OctetBitvector)
    (set : bitIsSet (starts.foldl (pairBits (2 ^ e)) bits) i = true) :
    bitIsSet bits i = true ∨ bitIsSet bits (i ^^^ 2 ^ e) = true := by
  have small : ∀ d < 256, d ^^^ 2 ^ e < 256 := fun d hd =>
    Nat.xor_lt_two_pow (n := 8) hd (Nat.pow_lt_pow_right (by omega) he)
  have back : ∀ d, d ^^^ 2 ^ e ^^^ 2 ^ e = d := fun d => by
    rw [Nat.xor_assoc, Nat.xor_self, Nat.xor_zero]
  induction starts generalizing bits with
  | nil => exact .inl set
  | cons k starts ih =>
    have other : k + 2 ^ e = k ^^^ 2 ^ e := pairs k mem_cons_self
    have one : ∀ d < 256, bitIsSet (pairBits (2 ^ e) bits k) d = true →
        bitIsSet bits d = true ∨ bitIsSet bits (d ^^^ 2 ^ e) = true := by
      intro d hd now
      rw [bitIsSet_pairBits bits hd, other] at now
      simp only [Bool.or_eq_true, Bool.and_eq_true, decide_eq_true_eq] at now
      rcases now with (now | ⟨rfl, now⟩) | ⟨rfl, now⟩
      · exact .inl now
      · exact .inr now
      · rw [back]
        exact .inr now
    rcases ih (fun k mem => pairs k (mem_cons_of_mem _ mem)) _ set with now | now
    · exact one i hi now
    · rcases one _ (small i hi) now with before | before
      · exact .inr before
      · rw [back] at before
        exact .inl before

theorem mem_pairStarts :
    k ∈ pairStarts chunkSize ↔
      ∃ pair < 128 / chunkSize, ∃ j < chunkSize, pair * (chunkSize * 2) + j = k := by
  simp [pairStarts]

/-- The bit with index `e` in the numbers of an octet: flipping it moves to the other bit of the
pair, whose first one has it clear. -/
theorem xor_index : ∀ e < 8, ∀ i < 256, i ^^^ 2 ^ e < 256 ∧ i / (2 ^ e * 2) < 128 / 2 ^ e ∧
    (i % (2 ^ e * 2) < 2 ^ e → i + 2 ^ e = i ^^^ 2 ^ e) ∧
    (2 ^ e ≤ i % (2 ^ e * 2) → i - 2 ^ e = i ^^^ 2 ^ e) := by
  decide +kernel

/-- The pairs of the round with index `e` differ in the bit `e` alone. -/
theorem pairStarts_xor (he : e < 8) :
    (∀ k ∈ pairStarts (2 ^ e), k + 2 ^ e = k ^^^ 2 ^ e) ∧
      ∀ i < 256, i ^^^ 2 ^ e < 256 ∧ ∃ k ∈ pairStarts (2 ^ e),
        i = k ∧ i ^^^ 2 ^ e = k + 2 ^ e ∨ i = k + 2 ^ e ∧ i ^^^ 2 ^ e = k := by
  have positive : 0 < 2 ^ e := Nat.two_pow_pos e
  constructor
  · intro k mem
    obtain ⟨pair, hpair, j, hj, rfl⟩ := mem_pairStarts.mp mem
    have small : pair * (2 ^ e * 2) + j < 256 := by
      have rounds : (pair + 1) * 2 ^ e ≤ 128 :=
        (Nat.mul_le_mul_right _ hpair).trans (Nat.div_mul_le_self 128 (2 ^ e))
      have double : pair * (2 ^ e * 2) = pair * 2 ^ e * 2 := (Nat.mul_assoc _ _ _).symm
      rw [Nat.add_mul] at rounds
      omega
    refine (xor_index e he _ small).2.2.1 ?_
    rwa [Nat.mul_add_mod_of_lt (by omega)]
  · intro i hi
    obtain ⟨inside, pair, first, second⟩ := xor_index e he i hi
    have split_ := Nat.div_add_mod' i (2 ^ e * 2)
    refine ⟨inside, ?_⟩
    rcases Nat.lt_or_ge (i % (2 ^ e * 2)) (2 ^ e) with low | high
    · exact ⟨i, mem_pairStarts.mpr ⟨_, pair, _, low, split_⟩, .inl ⟨rfl, (first low).symm⟩⟩
    · have bound := Nat.mod_lt i (show 0 < 2 ^ e * 2 by omega)
      refine ⟨i - 2 ^ e, mem_pairStarts.mpr ⟨_, pair, i % (2 ^ e * 2) - 2 ^ e, by omega, by omega⟩,
        .inr ⟨by omega, (second high).symm⟩⟩

theorem bitIsSet_pairChunks (he : e < 8) (hi : i < 256) (bits : OctetBitvector) :
    bitIsSet (pairChunks bits (2 ^ e)) i = true ↔
      bitIsSet bits i = true ∨ bitIsSet bits (i ^^^ 2 ^ e) = true := by
  obtain ⟨pairs, covers⟩ := pairStarts_xor he
  obtain ⟨small, k, mem, pair⟩ := covers i hi
  rw [pairChunks_eq]
  constructor
  · exact bitIsSet_foldl_sound he hi pairs bits
  · rintro (set | set)
    · exact bitIsSet_foldl_mono hi _ bits set
    · exact bitIsSet_foldl_complete hi small mem pair bits set

/-- The rounds of a list of mask bits: a bit is set afterwards iff one was that differs from
it in those of the list only that the mask leaves out. -/
theorem bitIsSet_rounds (mask : BitVec 8) (es : List Nat) (below : ∀ e ∈ es, e < 8) (hi : i < 256)
    (bits : OctetBitvector) :
    bitIsSet (es.foldl (fun bits e =>
        if mask.getLsbD e then bits else pairChunks bits (2 ^ e)) bits) i = true ↔
      ∃ j < 256, bitIsSet bits j = true ∧
        ∀ e, (e ∈ es → mask.getLsbD e = true) → i.testBit e = j.testBit e := by
  induction es generalizing bits i with
  | nil =>
    constructor
    · exact fun set => ⟨i, hi, set, fun _ _ => rfl⟩
    · rintro ⟨j, -, set, same⟩
      rwa [Nat.eq_of_testBit_eq fun e => same e fun mem => absurd mem not_mem_nil]
  | cons e es ih =>
    have he : e < 8 := below e mem_cons_self
    have rest : ∀ d ∈ es, d < 8 := fun d mem => below d (mem_cons_of_mem _ mem)
    have flip : ∀ j d, (j ^^^ 2 ^ e).testBit d = (j.testBit d ^^ decide (e = d)) := fun j d => by
      rw [Nat.testBit_xor, Nat.testBit_two_pow]
    rw [foldl_cons, ih rest hi]
    by_cases masked : mask.getLsbD e = true
    · simp only [masked, if_true]
      refine exists_congr fun j => and_congr_right fun _ => and_congr_right fun _ => ?_
      refine forall_congr' fun d => imp_congr_left ⟨fun free mem => ?_, fun free mem => ?_⟩
      · rcases mem_cons.mp mem with rfl | mem
        · exact masked
        · exact free mem
      · exact free (mem_cons_of_mem _ mem)
    · simp only [masked, Bool.false_eq_true, if_false]
      constructor
      · rintro ⟨j, hj, set, same⟩
        have apart : ∀ d, (d ∈ e :: es → mask.getLsbD d = true) → e ≠ d := fun d free eq =>
          masked (eq ▸ free (eq ▸ mem_cons_self))
        rcases (bitIsSet_pairChunks he hj bits).mp set with set | set
        · exact ⟨j, hj, set, fun d free => same d fun mem => free (mem_cons_of_mem _ mem)⟩
        · refine ⟨j ^^^ 2 ^ e, ((pairStarts_xor he).2 j hj).1, set, fun d free => ?_⟩
          rw [flip, same d fun mem => free (mem_cons_of_mem _ mem)]
          simp [apart d free]
      · rintro ⟨j, hj, set, same⟩
        have other : ∀ d, e ≠ d → (d ∈ es → mask.getLsbD d = true) →
            i.testBit d = j.testBit d := fun d ne free =>
          same d fun mem => free ((mem_cons.mp mem).resolve_left (Ne.symm ne))
        by_cases here : i.testBit e = j.testBit e
        · refine ⟨j, hj, (bitIsSet_pairChunks he hj bits).mpr (.inl set), fun d free => ?_⟩
          by_cases eq : e = d
          · rw [← eq, here]
          · exact other d eq free
        · -- the partner of the bit that was set
          obtain ⟨small, -⟩ := (pairStarts_xor he).2 j hj
          refine ⟨j ^^^ 2 ^ e, small, ?_, fun d free => ?_⟩
          · refine (bitIsSet_pairChunks he small bits).mpr (.inr ?_)
            rwa [Nat.xor_assoc, Nat.xor_self, Nat.xor_zero]
          · rw [flip]
            by_cases eq : e = d
            · subst eq
              cases hi : i.testBit e <;> cases hj : j.testBit e <;> simp_all
            · rw [other d eq free]
              simp [eq]

/-- `apply_ipv4_netmask_octet` -/
theorem bitIsSet_applyIpv4NetmaskOctet (bits : OctetBitvector) (mask : BitVec 8) (hi : i < 256) :
    bitIsSet (applyIpv4NetmaskOctet bits mask) i = true ↔
      ∃ j < 256, bitIsSet bits j = true ∧
        ∀ e < 8, mask.getLsbD e = true → i.testBit e = j.testBit e := by
  rw [applyIpv4NetmaskOctet, bitIsSet_rounds mask (List.range 8) (fun e => mem_range.mp) hi]
  refine exists_congr fun j => and_congr_right fun hj => and_congr_right fun _ => ?_
  constructor
  · exact fun same e _ masked => same e fun _ => masked
  · intro same e free
    rcases Nat.lt_or_ge e 8 with he | he
    · exact same e he (free (mem_range.mpr he))
    · have high : 256 ≤ 2 ^ e := Nat.pow_le_pow_right (n := 2) (by omega) he
      rw [Nat.testBit_lt_two_pow (by omega), Nat.testBit_lt_two_pow (by omega)]

/-! ## Four octets -/

/-- `(octet[0] << 24) | (octet[1] << 16) | (octet[2] << 8) | octet[3]` -/
def ofOctets (o0 o1 o2 o3 : Nat) : U32 :=
  BitVec.ofNat 32 (o0 <<< 24 ||| o1 <<< 16 ||| o2 <<< 8 ||| o3)

theorem toNat_ofOctets {o0 o1 o2 o3 : Nat} (h0 : o0 < 256) (h1 : o1 < 256) (h2 : o2 < 256)
    (h3 : o3 < 256) :
    (ofOctets o0 o1 o2 o3).toNat = o0 * 2 ^ 24 + o1 * 2 ^ 16 + o2 * 2 ^ 8 + o3 := by
  have low : 2 ^ 8 * o2 + o3 = 2 ^ 8 * o2 ||| o3 := Nat.two_pow_add_eq_or_of_lt h3 o2
  have mid : 2 ^ 16 * o1 + (2 ^ 8 * o2 + o3) = 2 ^ 16 * o1 ||| (2 ^ 8 * o2 + o3) :=
    Nat.two_pow_add_eq_or_of_lt (by omega) o1
  have all : 2 ^ 24 * o0 + (2 ^ 16 * o1 + (2 ^ 8 * o2 + o3)) =
      2 ^ 24 * o0 ||| (2 ^ 16 * o1 + (2 ^ 8 * o2 + o3)) :=
    Nat.two_pow_add_eq_or_of_lt (by omega) o0
  rw [ofOctets, BitVec.toNat_ofNat, Nat.or_assoc, Nat.or_assoc]
  simp only [Nat.shiftLeft_eq, Nat.mul_comm _ (2 ^ _)]
  rw [← low, ← mid, ← all]
  omega

theorem toNat_octet (addr : U32) (s : Nat) :
    (addr.extractLsb' s 8).toNat = addr.toNat / 2 ^ s % 256 := by
  rw [BitVec.extractLsb'_toNat, Nat.shiftRight_eq_div_pow]

theorem octets_ofOctets {o0 o1 o2 o3 : Nat} (h0 : o0 < 256) (h1 : o1 < 256) (h2 : o2 < 256)
    (h3 : o3 < 256) :
    ((ofOctets o0 o1 o2 o3).extractLsb' 24 8).toNat = o0 ∧
      ((ofOctets o0 o1 o2 o3).extractLsb' 16 8).toNat = o1 ∧
      ((ofOctets o0 o1 o2 o3).extractLsb' 8 8).toNat = o2 ∧
      ((ofOctets o0 o1 o2 o3).extractLsb' 0 8).toNat = o3 := by
  simp only [toNat_octet, toNat_ofOctets h0 h1 h2 h3]
  omega

theorem ofOctets_octets (addr : U32) :
    ofOctets (addr.extractLsb' 24 8).toNat (addr.extractLsb' 16 8).toNat
      (addr.extractLsb' 8 8).toNat (addr.extractLsb' 0 8).toNat = addr := by
  have octet : ∀ s, (addr.extractLsb' s 8).toNat < 256 := fun s => BitVec.isLt _
  have bound := addr.isLt
  apply BitVec.eq_of_toNat_eq
  rw [toNat_ofOctets (octet 24) (octet 16) (octet 8) (octet 0)]
  simp only [toNat_octet]
  omega

theorem testBit_octet (addr : U32) (s : Nat) (he : e < 8) :
    (addr.extractLsb' s 8).toNat.testBit e = addr.getLsbD (s + e) := by
  rw [BitVec.testBit_toNat, BitVec.getLsbD_extractLsb']
  simp [he]

/-- One octet of `apply_ipv4_netmask` -/
theorem bitIsSet_netmask (bits : OctetBitvector) (mask addr : U32) (s : Nat) :
    bitIsSet (applyIpv4NetmaskOctet bits (mask.extractLsb' s 8)) (addr.extractLsb' s 8).toNat =
        true ↔
      ∃ j < 256, bitIsSet bits j = true ∧
        ∀ e < 8, mask.getLsbD (s + e) = true → addr.getLsbD (s + e) = j.testBit e := by
  rw [bitIsSet_applyIpv4NetmaskOctet _ _ (BitVec.isLt _)]
  refine exists_congr fun j => and_congr_right fun _ => and_congr_right fun _ => ?_
  refine forall_congr' fun e => forall_congr' fun he => ?_
  rw [testBit_octet addr s he, BitVec.getLsbD_extractLsb']
  simp [he]

/-- `apply_ipv4_netmask`: the element contains what agrees on the mask with an address that it
contained. -/
theorem matchIpv4Bits_applyIpv4Netmask (elem : AddrsetElem) (mask addr : U32) :
    matchIpv4Bits (applyIpv4Netmask elem mask) addr = true ↔
      ∃ b, matchIpv4Bits elem b = true ∧
        ∀ i < 32, mask.getLsbD i = true → addr.getLsbD i = b.getLsbD i := by
  simp only [matchIpv4Bits, applyIpv4Netmask, Bool.and_eq_true, bitIsSet_netmask]
  constructor
  · rintro ⟨⟨⟨⟨j0, h0, set0, same0⟩, j1, h1, set1, same1⟩, j2, h2, set2, same2⟩,
      j3, h3, set3, same3⟩
    obtain ⟨o0, o1, o2, o3⟩ := octets_ofOctets h0 h1 h2 h3
    refine ⟨ofOctets j0 j1 j2 j3, by rw [o0, o1, o2, o3]; exact ⟨⟨⟨set0, set1⟩, set2⟩, set3⟩,
      fun i hi masked => ?_⟩
    have octet : ∀ s j, ((ofOctets j0 j1 j2 j3).extractLsb' s 8).toNat = j →
        (∀ e < 8, mask.getLsbD (s + e) = true → addr.getLsbD (s + e) = j.testBit e) →
        s ≤ i → i < s + 8 → addr.getLsbD i = (ofOctets j0 j1 j2 j3).getLsbD i := by
      rintro s j rfl same le lt
      obtain ⟨e, rfl⟩ := Nat.exists_eq_add_of_le le
      rw [same e (by omega) masked, testBit_octet _ s (by omega)]
    rcases Nat.lt_or_ge i 8 with lt | le
    · exact octet 0 j3 o3 same3 (by omega) lt
    rcases Nat.lt_or_ge i 16 with lt | le
    · exact octet 8 j2 o2 same2 le lt
    rcases Nat.lt_or_ge i 24 with lt | le
    · exact octet 16 j1 o1 same1 le lt
    · exact octet 24 j0 o0 same0 le hi
  · rintro ⟨b, ⟨⟨⟨set0, set1⟩, set2⟩, set3⟩, same⟩
    have octet : ∀ s, s + 8 ≤ 32 → ∀ e < 8, mask.getLsbD (s + e) = true →
        addr.getLsbD (s + e) = (b.extractLsb' s 8).toNat.testBit e := by
      intro s le e he masked
      rw [testBit_octet b s he]
      exact same (s + e) (by omega) masked
    exact ⟨⟨⟨⟨_, BitVec.isLt _, set0, octet 24 (by omega)⟩,
      _, BitVec.isLt _, set1, octet 16 (by omega)⟩,
      _, BitVec.isLt _, set2, octet 8 (by omega)⟩,
      _, BitVec.isLt _, set3, octet 0 (by omega)⟩

/-! ## Netmasks -/

/-- The leading bits that a netmask of the given length keeps: all, for a missing one -/
def keptBits (bits : Int) : Nat := if bits < 0 then 32 else bits.toNat

/-- The two addresses agree on their first `k` bits. -/
def SamePrefix (k : Nat) (a b : U32) : Prop := ∀ i < k, a.getMsbD i = b.getMsbD i

/-- `apply_ipv4_netmask_bits` -/
theorem matchIpv4Bits_applyIpv4NetmaskBits (elem : AddrsetElem) {bits : Int} (short : bits ≤ 32)
    (addr : U32) :
    matchIpv4Bits (applyIpv4NetmaskBits elem bits) addr = true ↔
      ∃ b, matchIpv4Bits elem b = true ∧ SamePrefix (keptBits bits) addr b := by
  have le : keptBits bits ≤ 32 := by
    unfold keptBits
    split <;> omega
  have masked :
      applyIpv4NetmaskBits elem bits = applyIpv4Netmask elem (wordMask (keptBits bits)) := by
    rw [applyIpv4NetmaskBits, if_neg (by omega)]
    show applyIpv4Netmask elem (if keptBits bits = 0 then 0 else _) = _
    split
    · rename_i zero
      rw [zero, wordMask_zero]
    · rfl
  rw [masked, matchIpv4Bits_applyIpv4Netmask]
  refine exists_congr fun b => and_congr_right fun _ => ?_
  have fromTop : ∀ (v : U32) (i : Nat), i < 32 → v.getMsbD i = v.getLsbD (31 - i) := by
    intro v i hi
    rw [BitVec.getMsbD_eq_getLsbD]
    simp [hi]
  constructor
  · intro same i hi
    have kept := wordMask_getMsbD (i := i) le
    rw [fromTop _ i (by omega), decide_eq_true hi] at kept
    rw [fromTop _ i (by omega), fromTop _ i (by omega)]
    exact same (31 - i) (by omega) kept
  · intro same i hi kept
    have back : 31 - (31 - i) = i := by omega
    have top := wordMask_getMsbD (i := 31 - i) le
    rw [fromTop _ _ (by omega), back, kept, eq_comm, decide_eq_true_iff] at top
    have bits := same (31 - i) top
    rwa [fromTop _ _ (by omega), fromTop _ _ (by omega), back] at bits

end Nmap.Addrset
