import Nmap.Addrset.Set

/-!
# Full address sets and random targets

`NetBlockRandomIPv4::next` draws random addresses until one is outside its avoid
set. It asks `addrset_matches_all` first, which looks for one full range element
or one full node of the trie. Its positive answers are right; a set that is full
through several elements or several nodes escapes it, and then the draw goes on
for ever. `MatchesAllFinds` is the exact condition.
-/

namespace Nmap.Addrset

namespace Trie

def nodeCount : Trie → Nat
  | node _ _ one zero => 1 + one.nodeCount + zero.nodeCount
  | _ => 0

/-- The walk of `trie_matches_all` for IPv4 towards ::ffff:0:0/96, and the tests
after it. -/
def matchesAllWalk (addr : Words) : Trie → Bool
  | null => false
  | nodeTrue => true
  | node na mask one zero =>
    if addrMatches mask na addr then
      -- "Matched too specifically; some IPv4 would not match"
      if mask.getD 3 0 ≠ 0 then false
      -- "Matched the prefix exactly! Stop searching and test this node."
      else if (mask.getD 2 0).getLsbD 0 then bothTrue one zero
      else if addrNextBitIsOne mask addr then matchesAllWalk addr one
      else matchesAllWalk addr zero
    else bothTrue one zero && addrMatches mask na addr

end Trie

/-- The number of nodes below the root. -/
def TrieRoot.nodeCount (r : TrieRoot) : Nat := r.nextBitOne.nodeCount + r.nextBitZero.nodeCount

def TrieRoot.trieMatchesAll (r : TrieRoot) (af : Family) : Bool :=
  let addr : Words := [0, 0, 0xffff, 0]
  match af with
  | .inet => r.toNode.matchesAllWalk addr
  | .inet6 =>
    Trie.bothTrue r.nextBitOne r.nextBitZero &&
      addrMatches TrieRoot.rootMask TrieRoot.rootMask addr

/-- The 128 bytes of an element are all 0xff. -/
def AddrsetElem.allOnes (elem : AddrsetElem) : Bool :=
  elem.bits0 == BitVec.allOnes 256 && elem.bits1 == BitVec.allOnes 256 &&
    elem.bits2 == BitVec.allOnes 256 && elem.bits3 == BitVec.allOnes 256

def AddrSet.addrsetMatchesAll (set : AddrSet) (af : Family) : Bool :=
  (set.afTrie af).trieMatchesAll af ||
    (decide (af = .inet) && set.head.any AddrsetElem.allOnes)

/-! ## Random targets -/

structure NetBlockRandomIPv4 where
  count : Nat
  infinite : Bool
  avoid : AddrSet

namespace NetBlockRandomIPv4

/-- The `do … while` of `next`: `rand` are the values of `get_random_unique_u32`
in host order, the loop is at the `pos`-th of them, and it may make `rounds`
rounds. -/
def draw (avoid : AddrSet) (rand : Nat → U32) : Nat → Nat → Option (U32 × Nat)
  | 0, _ => none
  | rounds + 1, pos =>
    if avoid.addrsetContains (.inet (rand pos)) then draw avoid rand rounds (pos + 1)
    else some (rand pos, pos + 1)

/-- `NetBlockRandomIPv4::next`, allowed `rounds` rounds of its loop: the address
(`none` where it returns false), the block and the position in the stream. The
result is `none` while the loop is still running. -/
def next (block : NetBlockRandomIPv4) (rand : Nat → U32) (rounds pos : Nat) :
    Option (Option U32 × NetBlockRandomIPv4 × Nat) :=
  if block.infinite = false ∧ block.count = 0 then some (none, block, pos)
  else
    let block := if block.infinite then block else { block with count := block.count - 1 }
    if block.avoid.addrsetMatchesAll .inet then some (none, block, pos)
    else (draw block.avoid rand rounds pos).map fun (addr, pos) => (some addr, block, pos)

end NetBlockRandomIPv4

/-- From every position on, the stream visits every value. -/
def VisitsAll (rand : Nat → U32) : Prop := ∀ pos v, ∃ n, rand (pos + n) = v

namespace AddrSet

def ContainsAllInet (set : AddrSet) : Prop := ∀ addr, addrsetContains set (.inet addr) = true

/-- The sets on which `addrset_matches_all` gives the right answer for IPv4: some
address is missing, or one range element alone holds them all, or the trie alone
does and consists of a single node. -/
def MatchesAllFinds (set : AddrSet) : Prop :=
  ¬ ContainsAllInet set ∨
    (∃ elem ∈ set.head, ∀ addr, matchIpv4Bits elem addr = true) ∨
    ((∀ addr, set.trie4.trieMatch (.inet addr) = true) ∧ set.trie4.nodeCount = 1)

/-! ## What the two tests mean -/

private theorem eq_allOnes_iff {n : Nat} (bits : BitVec n) :
    bits = BitVec.allOnes n ↔ ∀ i < n, bits.getLsbD i = true := by
  constructor
  · rintro rfl i hi
    rw [BitVec.getLsbD_allOnes]
    exact decide_eq_true hi
  · intro h
    apply BitVec.eq_of_getLsbD_eq
    intro i hi
    rw [BitVec.getLsbD_allOnes, h i hi]
    exact (decide_eq_true hi).symm

private theorem octet_ofNat {v : Nat} (hv : v < 4294967296) (k : Nat) :
    ((BitVec.ofNat 32 v).extractLsb' k 8).toNat = v / 2 ^ k % 256 := by
  rw [BitVec.extractLsb'_toNat, Nat.shiftRight_eq_div_pow, BitVec.toNat_ofNat,
    show v % 2 ^ 32 = v from Nat.mod_eq_of_lt hv]

private theorem exists_octets {i0 i1 i2 i3 : Nat} (h0 : i0 < 256) (h1 : i1 < 256) (h2 : i2 < 256)
    (h3 : i3 < 256) :
    ∃ addr : U32, (addr.extractLsb' 24 8).toNat = i0 ∧ (addr.extractLsb' 16 8).toNat = i1 ∧
      (addr.extractLsb' 8 8).toNat = i2 ∧ (addr.extractLsb' 0 8).toNat = i3 := by
  have value : i0 * 16777216 + i1 * 65536 + i2 * 256 + i3 < 4294967296 := by omega
  refine ⟨BitVec.ofNat 32 (i0 * 16777216 + i1 * 65536 + i2 * 256 + i3), ?_⟩
  rw [octet_ofNat value, octet_ofNat value, octet_ofNat value, octet_ofNat value]
  simp only [Nat.reducePow]
  refine ⟨by omega, by omega, by omega, by omega⟩

theorem allOnes_iff (elem : AddrsetElem) :
    elem.allOnes = true ↔ ∀ addr, matchIpv4Bits elem addr = true := by
  have octet : ∀ (addr : U32) (k : Nat), (addr.extractLsb' k 8).toNat < 256 :=
    fun addr k => (addr.extractLsb' k 8).isLt
  rw [AddrsetElem.allOnes]
  simp only [Bool.and_eq_true, beq_iff_eq]
  rw [eq_allOnes_iff, eq_allOnes_iff, eq_allOnes_iff, eq_allOnes_iff]
  constructor
  · rintro ⟨⟨⟨h0, h1⟩, h2⟩, h3⟩ addr
    simp only [matchIpv4Bits, bitIsSet, h0 _ (octet addr 24), h1 _ (octet addr 16),
      h2 _ (octet addr 8), h3 _ (octet addr 0), Bool.and_self]
  · intro h
    simp only [matchIpv4Bits, bitIsSet, Bool.and_eq_true] at h
    refine ⟨⟨⟨fun i hi => ?_, fun i hi => ?_⟩, fun i hi => ?_⟩, fun i hi => ?_⟩
    · obtain ⟨addr, rfl, -⟩ := exists_octets hi hi hi hi
      exact (h addr).1.1.1
    · obtain ⟨addr, -, rfl, -⟩ := exists_octets hi hi hi hi
      exact (h addr).1.1.2
    · obtain ⟨addr, -, -, rfl, -⟩ := exists_octets hi hi hi hi
      exact (h addr).1.2
    · obtain ⟨addr, -, -, -, rfl⟩ := exists_octets hi hi hi hi
      exact (h addr).2

theorem bothTrue_iff_nodeCount {p a mask : Words} {k : Nat} {one zero : Trie}
    (wf : Trie.WF p k (.node a mask one zero)) :
    Trie.bothTrue one zero = true ↔ one.nodeCount + zero.nodeCount = 0 := by
  have children : one ≠ .null ∧ zero ≠ .null := by
    cases wf with
    | repeated => simp
    | node _ _ _ _ _ wfOne wfZero =>
      exact ⟨by cases wfOne <;> simp, by cases wfZero <;> simp⟩
  cases one <;> cases zero <;> simp_all [Trie.bothTrue, Trie.nodeCount]

/-- A full node of the IPv4 trie holds every address exactly when its prefix is
the mapped range itself. -/
theorem full_node_iff {a : Words} {l : Nat} (len : a.length = 4) (mappedA : IsMapped a)
    (h96 : 96 ≤ l) (bound : l ≤ 128) :
    (∀ addr, Trie.matchWalk (sockaddrToAddr (.inet addr))
      (Trie.newTrieNode a (prefixMask 4 l)) = true) ↔ l = 96 := by
  constructor
  · intro all
    by_contra hne
    -- an address that differs in the first bit after the mapped prefix
    have lenY : (setBit a 96 (!bit a 96)).length = 4 := by rw [setBit_length, len]
    have hbits := bit_setBit (a := a) (m := 96) (by omega) (!bit a 96)
    have mappedY : AgreeUpTo 96 (sockaddrToAddr (.inet 0)) (setBit a 96 (!bit a 96)) := by
      intro i hi
      rw [hbits, if_neg (by omega)]
      exact mappedA i hi
    obtain ⟨addr, haddr⟩ := exists_inet lenY mappedY
    have := all addr
    rw [haddr, Trie.matchWalk_newTrieNode len lenY bound] at this
    have h := this 96 (by omega)
    rw [hbits, if_pos rfl] at h
    simp at h
  · rintro rfl addr
    rw [Trie.matchWalk_newTrieNode len (sockaddrToAddr_length _) bound]
    exact mappedA.symm.trans (isMapped_inet addr)

/-- For the IPv4 trie `trie_matches_all` looks for a single full node for the
mapped range. -/
theorem trieMatchesAll_inet {r : TrieRoot} (wf : r.WF)
    (mapped : ∀ x, x.length = 4 → r.Has x → IsMapped x) :
    r.trieMatchesAll .inet = true ↔
      (∀ addr, r.trieMatch (.inet addr) = true) ∧ r.nodeCount = 1 := by
  have below : r.nextBitOne = .null → r.trieMatchesAll .inet =
      Trie.matchesAllWalk [0, 0, 0xffff, 0] r.nextBitZero := by
    intro one
    simp [TrieRoot.trieMatchesAll, TrieRoot.toNode, Trie.matchesAllWalk, TrieRoot.rootMask,
      addrMatches, addrNextBitIsOne, u32AllBits, nextBitIsOne]
  have zeroSide : ∀ addr, r.trieMatch (.inet addr) =
      Trie.matchWalk (sockaddrToAddr (.inet addr)) r.nextBitZero := by
    intro addr
    rw [TrieRoot.trieMatch, TrieRoot.trieMatchAddr, TrieRoot.firstBit_eq (sockaddrToAddr_length _)]
    rfl
  obtain ⟨one, zero | ⟨a, l, t1, t0, zero, h96, bound, len, mappedA, wfNode⟩⟩ :=
    trie4_shape wf mapped
  · rw [below one, zero]
    simp [Trie.matchesAllWalk, TrieRoot.nodeCount, Trie.nodeCount, one, zero]
  · rw [below one]
    simp only [zeroSide, TrieRoot.nodeCount, one, zero, Trie.nodeCount, Nat.zero_add]
    have walk : Trie.matchesAllWalk [0, 0, 0xffff, 0] (.node a (prefixMask 4 l) t1 t0) =
        (decide (l = 96) && Trie.bothTrue t1 t0) := by
      have masks : ∀ l < 129, 96 ≤ l → ((prefixMask 4 l).getD 3 0 = 0 ↔ l = 96) ∧
          ((prefixMask 4 l).getD 2 0).getLsbD 0 = true := by decide
      obtain ⟨low, exactly⟩ := masks l (by omega) h96
      rw [Trie.matchesAllWalk]
      by_cases h : l = 96
      · have agree : addrMatches (prefixMask 4 l) a [0, 0, 0xffff, 0] = true := by
          rw [addrMatches_prefixMask len rfl, h]
          exact mappedA.symm
        rw [if_pos agree, if_neg (not_not.mpr (low.mpr h)), if_pos exactly]
        simp [h]
      · have wide : ¬ (prefixMask 4 l).getD 3 0 = 0 := fun hz => h (low.mp hz)
        rw [if_pos wide, decide_eq_false h]
        cases addrMatches (prefixMask 4 l) a [0, 0, 0xffff, 0] <;> simp
    rw [walk, Bool.and_eq_true, decide_eq_true_eq, bothTrue_iff_nodeCount wfNode]
    constructor
    · rintro ⟨h, none⟩
      obtain ⟨rfl, rfl⟩ := Trie.bothTrue_iff.mp ((bothTrue_iff_nodeCount wfNode).mpr none)
      exact ⟨(full_node_iff len mappedA h96 bound).mpr h, by omega⟩
    · rintro ⟨all, single⟩
      have none : t1.nodeCount + t0.nodeCount = 0 := by omega
      obtain ⟨rfl, rfl⟩ := Trie.bothTrue_iff.mp ((bothTrue_iff_nodeCount wfNode).mpr none)
      exact ⟨(full_node_iff len mappedA h96 bound).mp all, none⟩

/-- `addrset_matches_all` for IPv4: one full element or one full node. -/
theorem addrsetMatchesAll_inet {set : AddrSet} (wf : set.WF) :
    addrsetMatchesAll set .inet = true ↔
      (∃ elem ∈ set.head, ∀ addr, matchIpv4Bits elem addr = true) ∨
        ((∀ addr, set.trie4.trieMatch (.inet addr) = true) ∧ set.trie4.nodeCount = 1) := by
  simp only [addrsetMatchesAll, Bool.or_eq_true, afTrie, decide_true, Bool.true_and,
    List.any_eq_true, allOnes_iff, trieMatchesAll_inet wf.trie4 wf.mapped]
  rw [or_comm]

/-- A positive answer of `addrset_matches_all` is right, for both families. -/
theorem addrsetMatchesAll_sound {set : AddrSet} (wf : set.WF) (x : Sockaddr)
    (full : addrsetMatchesAll set x.family = true) : addrsetContains set x = true := by
  cases x with
  | inet addr =>
    rw [addrsetContains_inet]
    rcases (addrsetMatchesAll_inet wf).mp full with ⟨elem, mem, all⟩ | ⟨all, -⟩
    · exact .inr (List.any_eq_true.mpr ⟨elem, mem, all addr⟩)
    · exact .inl (all addr)
  | inet6 w0 w1 w2 w3 =>
    rw [addrsetContains_inet6]
    simp only [Sockaddr.family, addrsetMatchesAll, afTrie, TrieRoot.trieMatchesAll,
      Bool.or_eq_true, Bool.and_eq_true, reduceCtorEq, decide_false, Bool.false_and,
      Bool.false_eq_true, or_false] at full
    obtain ⟨hone, hzero⟩ := Trie.bothTrue_iff.mp full.1
    simp [TrieRoot.Has, TrieRoot.trieMatchAddr, hone, hzero]

/-! ## Whether `next` returns -/

theorem draw_returns {avoid : AddrSet} {rand : Nat → U32} {addr : U32} (n pos : Nat)
    (outside : addrsetContains avoid (.inet addr) = false) (visit : rand (pos + n) = addr) :
    ∃ rounds, (NetBlockRandomIPv4.draw avoid rand rounds pos).isSome := by
  induction n generalizing pos with
  | zero =>
    refine ⟨1, ?_⟩
    rw [Nat.add_zero] at visit
    simp [NetBlockRandomIPv4.draw, visit, outside]
  | succ n ih =>
    obtain ⟨rounds, h⟩ := ih (pos + 1) (by rw [← visit]; congr 1; omega)
    refine ⟨rounds + 1, ?_⟩
    rw [NetBlockRandomIPv4.draw]
    split
    · exact h
    · rfl

theorem draw_none {avoid : AddrSet} (full : ContainsAllInet avoid) (rand : Nat → U32)
    (rounds pos : Nat) : NetBlockRandomIPv4.draw avoid rand rounds pos = none := by
  induction rounds generalizing pos with
  | zero => rfl
  | succ rounds ih => rw [NetBlockRandomIPv4.draw, if_pos (full _), ih]

/-- For every set that can be built, with `next` run on any stream that visits
every value: positive answers of `addrset_matches_all` are right, and it finds
full sets, and `next` always returns, exactly under `MatchesAllFinds`. -/
theorem matchesAll_next_iff (S : BuiltSet) :
    (∀ af, addrsetMatchesAll S.set af = true →
      ∀ x : Sockaddr, x.family = af → addrsetContains S.set x = true) ∧
    ((ContainsAllInet S.set → addrsetMatchesAll S.set .inet = true) ↔ MatchesAllFinds S.set) ∧
    ((∀ rand, VisitsAll rand → ∀ block : NetBlockRandomIPv4, block.avoid = S.set →
      ∀ pos, ∃ rounds, (block.next rand rounds pos).isSome) ↔ MatchesAllFinds S.set) := by
  have wf := S.built.wf
  have finds : (ContainsAllInet S.set → addrsetMatchesAll S.set .inet = true) ↔
      MatchesAllFinds S.set := by
    rw [addrsetMatchesAll_inet wf, MatchesAllFinds, imp_iff_not_or]
  refine ⟨?_, finds, ?_⟩
  · rintro af h x rfl
    exact addrsetMatchesAll_sound wf x h
  rw [← finds]
  constructor
  · intro returns full
    -- a block that draws for ever, on the stream of all values in turn
    by_contra unseen
    let rand : Nat → U32 := fun n => BitVec.ofNat 32 n
    have visits : VisitsAll rand := by
      intro pos v
      refine ⟨v.toNat + (2 ^ 32 - pos % 2 ^ 32), BitVec.eq_of_toNat_eq ?_⟩
      have := v.isLt
      simp only [rand, BitVec.toNat_ofNat]
      omega
    obtain ⟨rounds, h⟩ := returns rand visits ⟨0, true, S.set⟩ rfl 0
    simp [NetBlockRandomIPv4.next, unseen, draw_none full] at h
  · intro found rand visits block avoid pos
    rw [← avoid] at found
    by_cases seen : addrsetMatchesAll block.avoid .inet = true
    · refine ⟨0, ?_⟩
      rw [NetBlockRandomIPv4.next]
      split
      · rfl
      · cases block.infinite <;> simp [seen]
    · have : ∃ addr, addrsetContains block.avoid (.inet addr) = false := by
        by_contra none
        refine seen (found fun addr => ?_)
        by_contra h
        exact none ⟨addr, Bool.not_eq_true _ ▸ h⟩
      obtain ⟨addr, outside⟩ := this
      obtain ⟨n, visit⟩ := visits pos addr
      obtain ⟨rounds, h⟩ := draw_returns n pos outside visit
      refine ⟨rounds, ?_⟩
      rw [NetBlockRandomIPv4.next]
      split
      · rfl
      · cases block.infinite <;> simp [seen, h]

/-- `getaddrinfo` for texts that are neither addresses nor names. -/
def noAddresses : Resolver := ⟨fun _ => none, fun _ _ => none⟩

/-- 0-127.*.*.* and 128-255.*.*.* -/
def twoHalves : BuiltSet where
  set :=
    let first := (addrsetAddSpec noAddresses new "0-127.*.*.*".toList none false).1
    (addrsetAddSpec noAddresses first "128-255.*.*.*".toList none false).1
  built := .addSpec _ _ _ _ (.addSpec _ _ _ _ .new)

/-- The two halves hold every IPv4 address between them, `addrset_matches_all`
does not see it, and `next` never returns. -/
theorem twoHalves_unseen :
    ¬ (ContainsAllInet twoHalves.set → addrsetMatchesAll twoHalves.set .inet = true) ∧
      ∀ rand rounds pos,
        NetBlockRandomIPv4.next ⟨0, true, twoHalves.set⟩ rand rounds pos = none := by
  have head : twoHalves.set.head =
      [⟨~~~(BitVec.ofNat 256 (2 ^ 128 - 1)), ~~~0, ~~~0, ~~~0⟩,
        ⟨BitVec.ofNat 256 (2 ^ 128 - 1), ~~~0, ~~~0, ~~~0⟩] := by decide +kernel
  have unseen : addrsetMatchesAll twoHalves.set .inet = false := by decide +kernel
  have full : ContainsAllInet twoHalves.set := by
    intro addr
    have octet : ∀ k, (addr.extractLsb' k 8).toNat < 256 := fun k => (addr.extractLsb' k 8).isLt
    have halves : ∀ i < 256, ((~~~(BitVec.ofNat 256 (2 ^ 128 - 1))).getLsbD i ||
        (BitVec.ofNat 256 (2 ^ 128 - 1)).getLsbD i) = true := by decide +kernel
    have ones : ∀ i < 256, (~~~(0 : BitVec 256)).getLsbD i = true := by decide +kernel
    rw [addrsetContains_inet, head]
    right
    simp only [List.any_cons, List.any_nil, Bool.or_false, matchIpv4Bits, bitIsSet,
      ones _ (octet 16), ones _ (octet 8), ones _ (octet 0), Bool.and_true, halves _ (octet 24)]
  refine ⟨fun h => ?_, fun rand rounds pos => ?_⟩
  · rw [h full] at unseen
    exact Bool.noConfusion unseen
  · simp [NetBlockRandomIPv4.next, unseen, draw_none full]

end AddrSet

end Nmap.Addrset
