import Nmap.Addrset.TrieUpdate
import Mathlib.Data.List.Basic

/-!
# Address sets (`struct addrset`)

A set is a radix tree for each address family and a list of IPv4 range
elements, four bit vectors of 256 bits each. This module embeds the public
functions: building a set from host specifications, membership and the union of
two sets. Name resolution is a parameter, since `getaddrinfo` is outside the
program; nothing about it is assumed.

The sets that can be built are the `Built` ones. Their tries satisfy the
invariant of `Nmap.Addrset.TrieInsert`, and the IPv4 trie holds nothing outside
the IPv4-mapped range.
-/

namespace Nmap.Addrset

open List

/-! ## Range elements -/

abbrev OctetBitvector := BitVec 256

def bitSet (bits : OctetBitvector) (i : Nat) : OctetBitvector := bits ||| BitVec.twoPow 256 i

def bitIsSet (bits : OctetBitvector) (i : Nat) : Bool := bits.getLsbD i

/-- `struct addrset_elem`: a bit vector for each address octet. -/
structure AddrsetElem where
  bits0 : OctetBitvector
  bits1 : OctetBitvector
  bits2 : OctetBitvector
  bits3 : OctetBitvector
  deriving DecidableEq, Repr

/-- `LONG_MAX` of the 64-bit platforms -/
def longMax : Nat := 2 ^ 63 - 1

/-- `parse_long`: digits only. The value is `none` where `strtol` sets `errno`,
and the tail is the text itself where there is no digit. -/
def parseLong (s : List Char) : Option Nat × List Char :=
  let digits := s.takeWhile Char.isDigit
  let value := digits.foldl (fun v c => 10 * v + (c.toNat - 48)) 0
  (if value ≤ longMax then some value else none, s.dropWhile Char.isDigit)

/-- One item of an octet: a number or a range, possibly open at either end.
Returns the bounds and the rest. -/
def parseRange (p : List Char) : Option (Nat × Nat × List Char) :=
  match parseLong p with
  | (none, _) => none
  | (some start, tail) =>
    -- "Is this a range open on the left?"
    if tail = p ∧ p.head? ≠ some '-' then none
    else if start > 255 then none
    else
      match tail with
      | '-' :: p =>
        match parseLong p with
        | (none, _) => none
        | (some stop, tail) =>
          let stop := if tail = p then 255 else stop
          if stop > 255 ∨ stop < start then none else some (start, stop, tail)
      | _ => some (start, start, tail)

def fillRange (bits : OctetBitvector) (start stop : Nat) : OctetBitvector :=
  (List.range (stop + 1 - start)).foldl (fun bits i => bitSet bits (start + i)) bits

/-- The inner `for (;;)` of `parse_ipv4_ranges`: items separated by commas.
Each round but the last consumes a comma, so the length of the text bounds the
number of rounds. -/
def parseItems : Nat → OctetBitvector → List Char → Option (OctetBitvector × List Char)
  | 0, _, _ => none
  | rounds + 1, bits, p =>
    match parseRange p with
    | none => none
    | some (start, stop, tail) =>
      let bits := fillRange bits start stop
      match tail with
      | ',' :: p => parseItems rounds bits p
      | _ => some (bits, tail)

/-- One octet: a wildcard or a list of items. -/
def parseOctet : List Char → Option (OctetBitvector × List Char)
  | '*' :: p => some (fillRange 0 0 255, p)
  | p => parseItems (p.length + 1) 0 p

/-- The outer loop of `parse_ipv4_ranges`, with `n` octets to go. -/
def parseOctets : Nat → List Char → Option (List OctetBitvector)
  | 0, p => if p = [] then some [] else none
  | n + 1, p =>
    if p = [] then none
    else
      match parseOctet p with
      | none => none
      | some (bits, p) =>
        if n = 0 then (parseOctets 0 p).map (bits :: ·)
        else
          match p with
          | '.' :: p => (parseOctets n p).map (bits :: ·)
          | _ => none

def parseIpv4Ranges (spec : List Char) : Option AddrsetElem :=
  match parseOctets 4 spec with
  | some [b0, b1, b2, b3] => some ⟨b0, b1, b2, b3⟩
  | _ => none

/-- One round of `apply_ipv4_netmask_octet`: the chunks are paired up, and each
bit set in one chunk of a pair is set in the other. -/
def pairChunks (bits : OctetBitvector) (chunkSize : Nat) : OctetBitvector :=
  (List.range (128 / chunkSize)).foldl (fun bits pair =>
    (List.range chunkSize).foldl (fun bits j =>
      let i := pair * (chunkSize * 2)
      if bitIsSet bits (i + j) then bitSet bits (i + j + chunkSize)
      else if bitIsSet bits (i + j + chunkSize) then bitSet bits (i + j)
      else bits) bits) bits

def applyIpv4NetmaskOctet (bits : OctetBitvector) (mask : BitVec 8) : OctetBitvector :=
  (List.range 8).foldl (fun bits e =>
    if mask.getLsbD e then bits else pairChunks bits (2 ^ e)) bits

/-- `apply_ipv4_netmask`, with the mask in host order -/
def applyIpv4Netmask (elem : AddrsetElem) (mask : U32) : AddrsetElem where
  bits0 := applyIpv4NetmaskOctet elem.bits0 (mask.extractLsb' 24 8)
  bits1 := applyIpv4NetmaskOctet elem.bits1 (mask.extractLsb' 16 8)
  bits2 := applyIpv4NetmaskOctet elem.bits2 (mask.extractLsb' 8 8)
  bits3 := applyIpv4NetmaskOctet elem.bits3 (mask.extractLsb' 0 8)

/-- `apply_ipv4_netmask_bits`: a negative length is taken to be 32. -/
def applyIpv4NetmaskBits (elem : AddrsetElem) (bits : Int) : AddrsetElem :=
  if bits > 32 then elem
  else
    let bits := if bits < 0 then 32 else bits.toNat
    applyIpv4Netmask elem (if bits = 0 then 0 else u32AllBits <<< (32 - bits))

/-- `match_ipv4_bits` for an IPv4 address in host order -/
def matchIpv4Bits (elem : AddrsetElem) (addr : U32) : Bool :=
  bitIsSet elem.bits0 (addr.extractLsb' 24 8).toNat &&
    bitIsSet elem.bits1 (addr.extractLsb' 16 8).toNat &&
    bitIsSet elem.bits2 (addr.extractLsb' 8 8).toNat &&
    bitIsSet elem.bits3 (addr.extractLsb' 0 8).toNat

def addrsetElemMatch (elem : AddrsetElem) : Sockaddr → Bool
  | .inet addr => matchIpv4Bits elem addr
  | .inet6 .. => false

/-! ## Sets -/

structure AddrSet where
  head : List AddrsetElem
  trie4 : TrieRoot
  trie6 : TrieRoot
  deriving DecidableEq, Repr

namespace AddrSet

/-- `addrset_new` -/
def new : AddrSet := ⟨[], .new, .new⟩

def afTrie (set : AddrSet) : Family → TrieRoot
  | .inet => set.trie4
  | .inet6 => set.trie6

/-- `trie_insert(af_trie(set, ...), ...)` -/
def insert (set : AddrSet) (sa : Sockaddr) (bits : Int) : AddrSet :=
  match sa.family with
  | .inet => { set with trie4 := set.trie4.trieInsert sa bits }
  | .inet6 => { set with trie6 := set.trie6.trieInsert sa bits }

end AddrSet

/-- `getaddrinfo` as `resolve_name` uses it. `none` stands for a non-zero return
value, and an entry `none` for an address of another family. -/
structure Resolver where
  /-- the lookup with `AI_NUMERICHOST` -/
  numeric : List Char → Option (List (Option Sockaddr))
  /-- the lookup of the name, for an address family or any -/
  name : List Char → Option Family → Option (List (Option Sockaddr))

def resolveName (res : Resolver) (name : List Char) (af : Option Family) (useDns : Bool) :
    Option (List (Option Sockaddr)) :=
  match res.numeric name with
  | some addrs => some addrs
  | none => if useDns then res.name name af else none

namespace AddrSet

/-- The two loops over the resolved addresses: an address whose family is too
short for the mask ends the call, with what was inserted before it. -/
def addAddrs (set : AddrSet) (bits : Int) : List (Option Sockaddr) → AddrSet × Bool
  | [] => (set, true)
  | none :: rest => addAddrs set bits rest
  | some sa :: rest =>
    if bits > sa.family.addrBits then (set, false)
    else addAddrs (set.insert sa bits) bits rest

/-- The netmask of a specification: the text before the slash and the number
after it, -1 where there is no slash. -/
def parseNetmask (spec : List Char) : Option (List Char × Int) :=
  let name := spec.takeWhile (· ≠ '/')
  match spec.dropWhile (· ≠ '/') with
  | [] => some (name, -1)
  | _ :: netmask =>
    match parseLong netmask with
    | (some bits, tail) => if tail ≠ [] ∨ tail = netmask then none else some (name, bits)
    | (none, _) => none

/-- `addrset_add_spec`: the set after the call and the return value. -/
def addrsetAddSpec (res : Resolver) (set : AddrSet) (spec : List Char) (af : Option Family)
    (dns : Bool) : AddrSet × Bool :=
  match parseNetmask spec with
  | none => (set, false)
  | some (name, bits) =>
    -- "See if it's a plain IP address"
    match resolveName res name af false with
    | some (addr :: addrs) => addAddrs set bits (addr :: addrs)
    | _ =>
      match parseIpv4Ranges name with
      | some elem =>
        if bits > 32 then (set, false)
        else ({ set with head := applyIpv4NetmaskBits elem bits :: set.head }, true)
      | none =>
        -- "When all else fails, resolve the name."
        match resolveName res name af dns with
        | none => (set, false)
        | some addrs => addAddrs set bits addrs

def addrsetContains (set : AddrSet) (sa : Sockaddr) : Bool :=
  (set.afTrie sa.family).trieMatch sa ||
    (decide (sa.family = .inet) && set.head.any (addrsetElemMatch · sa))

/-- `addrset_update` of two different sets: the elements of `other` are copied to
the front, one by one. -/
def addrsetUpdate (set other : AddrSet) : AddrSet where
  head := other.head.foldl (fun head oe => oe :: head) set.head
  trie4 := set.trie4.trieUpdate other.trie4
  trie6 := set.trie6.trieUpdate other.trie6

/-! ## The sets that can be built -/

/-- The sets reachable by `addrset_add_spec` and `addrset_update`. Every call may
see different answers of the resolver. -/
inductive Built : AddrSet → Prop
  | new : Built new
  | addSpec {set : AddrSet} (res : Resolver) (spec : List Char) (af : Option Family) (dns : Bool) :
      Built set → Built (addrsetAddSpec res set spec af dns).1
  | update {set other : AddrSet} : Built set → Built other → Built (addrsetUpdate set other)

def IsMapped (x : Words) : Prop := AgreeUpTo 96 (sockaddrToAddr (.inet 0)) x

/-- The invariant of a set. -/
structure WF (set : AddrSet) : Prop where
  trie4 : set.trie4.WF
  trie6 : set.trie6.WF
  mapped : ∀ x, x.length = 4 → set.trie4.Has x → IsMapped x

theorem WF.new : WF new :=
  ⟨TrieRoot.WF.new, TrieRoot.WF.new, fun x _ h => by
    simp [AddrSet.new, TrieRoot.new, TrieRoot.Has, TrieRoot.trieMatchAddr, Trie.matchWalk] at h⟩

/-- The insertion a call of `trie_insert` makes after the length check. -/
def insertionOf (sa : Sockaddr) (bits : Int)
    (valid : ¬ bits > sa.family.addrBits) :
    Insertion sa.family where
  sa := sa
  bits := bits
  family := rfl
  valid := by omega

theorem isMapped_inet (a : U32) : IsMapped (sockaddrToAddr (.inet a)) := by
  simp only [IsMapped, sockaddrToAddr, agreeUpTo_cons]
  exact ⟨fun _ _ => trivial, fun _ _ => trivial, fun _ _ => trivial, fun i hi => by omega,
    fun i hi => by omega⟩

variable {set : AddrSet}

theorem WF.insert (wf : set.WF) (sa : Sockaddr) (bits : Int) (valid : ¬ bits > sa.family.addrBits) :
    (set.insert sa bits).WF := by
  cases sa with
  | inet6 w0 w1 w2 w3 =>
    have spec := TrieRoot.trieInsert_spec wf.trie6 (insertionOf (.inet6 w0 w1 w2 w3) bits valid)
    exact ⟨wf.trie4, spec.1, wf.mapped⟩
  | inet a =>
    have spec := TrieRoot.trieInsert_spec wf.trie4 (insertionOf (.inet a) bits valid)
    refine ⟨spec.1, wf.trie6, fun x lenX h => ?_⟩
    rcases (spec.2 x lenX).mp h with h | ⟨agree, -⟩
    · exact wf.mapped x lenX h
    · exact (isMapped_inet a).trans (agree.mono (Insertion.maskLen_inet _))

theorem WF.addAddrs {bits : Int} {addrs : List (Option Sockaddr)} (wf : set.WF) :
    (set.addAddrs bits addrs).1.WF := by
  induction addrs generalizing set with
  | nil => exact wf
  | cons addr rest ih =>
    cases addr with
    | none => exact ih wf
    | some sa =>
      unfold AddrSet.addAddrs
      split
      · exact wf
      · exact ih (wf.insert sa bits ‹_›)

theorem WF.addSpec (wf : set.WF) (res : Resolver) (spec : List Char) (af : Option Family)
    (dns : Bool) : (addrsetAddSpec res set spec af dns).1.WF := by
  unfold addrsetAddSpec
  split
  · exact wf
  · split
    · exact wf.addAddrs
    · split
      · split
        · exact wf
        · exact ⟨wf.trie4, wf.trie6, wf.mapped⟩
      · split
        · exact wf
        · exact wf.addAddrs

/-- The shape of an IPv4 trie: nothing on the one branch of the root, and on the
zero branch at most a tree below ::ffff:0:0/96. -/
theorem trie4_shape {r : TrieRoot} (wf : r.WF)
    (mapped : ∀ x, x.length = 4 → r.Has x → IsMapped x) :
    r.nextBitOne = .null ∧ (r.nextBitZero = .null ∨
      ∃ a l one zero, r.nextBitZero = .node a (prefixMask 4 l) one zero ∧ 96 ≤ l ∧ l ≤ 128 ∧
        a.length = 4 ∧ IsMapped a ∧ Trie.WF a 96 (.node a (prefixMask 4 l) one zero)) := by
  have hasOf : ∀ b x, x.length = 4 → bit x 0 = b →
      (r.Has x ↔ Trie.matchWalk x (Trie.branch r.nextBitOne r.nextBitZero b) = true) := by
    intro b x lenX hb
    rw [TrieRoot.Has, TrieRoot.trieMatchAddr, TrieRoot.firstBit_eq lenX, hb]
    cases b <;> simp [Trie.branch]
  have sideLen : ∀ b, (TrieRoot.side b).length = 4 := by decide
  refine ⟨wf.one.resolve_right fun wfOne => ?_, wf.zero.imp_right fun wfZero => ?_⟩
  · obtain ⟨y, lenY, posY, matchY⟩ := wfOne.nonempty (sideLen true)
    have bitY := (TrieRoot.agreeUpTo_side true).mp posY
    have := mapped y lenY ((hasOf true y lenY bitY).mpr matchY) 0 (by omega)
    rw [bitY] at this
    exact absurd this (by decide)
  · -- what is matched below the zero branch is mapped
    have below : ∀ y, y.length = 4 → bit y 0 = false →
        Trie.matchWalk y r.nextBitZero = true → IsMapped y := fun y lenY bitY h =>
      mapped y lenY ((hasOf false y lenY bitY).mpr h)
    generalize r.nextBitZero = t at wfZero below
    cases wfZero with
    | full =>
      have : IsMapped [0, 0, 0, 0] := below _ rfl rfl rfl
      exact absurd (this 80 (by omega)) (by decide)
    | repeated _ _ two short => omega
    | @node _ a _ l one zero len pos long bound last wfOne wfZero =>
      have bitA := (TrieRoot.agreeUpTo_side false).mp pos
      have inNode : ∀ b y, y.length = 4 → l < 128 → AgreeUpTo (l + 1) (setBit a l b) y →
          Trie.matchWalk y (Trie.branch one zero b) = true → AgreeUpTo l a y ∧ IsMapped y := by
        intro b y lenY hl posY h
        obtain ⟨agree, hb⟩ := (agreeUpTo_setBit len hl b).mp posY
        refine ⟨agree, below y lenY ?_ ?_⟩
        · rw [← agree 0 (by omega), bitA]
        · rw [Trie.matchWalk_node len lenY bound, hb]
          exact ⟨agree, .inr h⟩
      have lenHalf : ∀ b, (setBit a l b).length = 4 := fun b => by rw [setBit_length, len]
      have h96 : 96 ≤ l := by
        by_contra h
        obtain ⟨y, lenY, posY, matchY⟩ := wfOne.nonempty (lenHalf true)
        obtain ⟨z, lenZ, posZ, matchZ⟩ := wfZero.nonempty (lenHalf false)
        have mappedY := (inNode true y lenY (by omega) posY matchY).2
        have mappedZ := (inNode false z lenZ (by omega) posZ matchZ).2
        have hy := ((agreeUpTo_setBit len (by omega) true).mp posY).2
        have hz := ((agreeUpTo_setBit len (by omega) false).mp posZ).2
        have := (mappedY l (by omega)).symm.trans (mappedZ l (by omega))
        rw [hy, hz] at this
        exact Bool.noConfusion this
      obtain ⟨y, lenY, agreeY, matchY⟩ :=
        (Trie.WF.node len (AgreeUpTo.refl 96 a) h96 bound last wfOne wfZero).nonempty len
      have agreeL := ((Trie.matchWalk_node len lenY bound _ _).mp matchY).1
      have mappedY := below y lenY (by rw [← agreeL 0 (by omega), bitA]) matchY
      exact ⟨a, l, one, zero, rfl, h96, bound, len, mappedY.trans agreeY.symm,
        .node len (AgreeUpTo.refl 96 a) h96 bound last wfOne wfZero⟩

theorem WF.update {other : AddrSet} (wf : set.WF) (wfOther : other.WF) :
    (addrsetUpdate set other).WF := by
  refine ⟨(TrieRoot.trieUpdate_has_iff (fun _ => False) wf.trie4 wfOther.trie4).1,
    (TrieRoot.trieUpdate_has_iff (fun _ => False) wf.trie6 wfOther.trie6).1, fun x lenX h => ?_⟩
  obtain ⟨one, zero | ⟨a, l, t1, t0, zero, h96, bound, len, mappedA, wfNode⟩⟩ :=
    trie4_shape wfOther.trie4 wfOther.mapped
  · refine wf.mapped x lenX ?_
    simpa [addrsetUpdate, TrieRoot.trieUpdate_eq_updateWalk, TrieRoot.toNode, one, zero,
      TrieRoot.updateWalk, TrieRoot.updateNode, Trie.bothTrue] using h
  · have walk : (addrsetUpdate set other).trie4 = set.trie4.updateWalk other.trie4.nextBitZero := by
      have full : other.trie4.nextBitZero ≠ .nodeTrue := by simp [zero]
      simp only [addrsetUpdate, TrieRoot.trieUpdate_eq_updateWalk, TrieRoot.toNode, one]
      conv_lhs => rw [TrieRoot.updateWalk]
      simp [TrieRoot.updateNode, Trie.bothTrue, full, TrieRoot.updateWalk]
    rw [walk, zero] at h
    have normal : ∀ l', 96 = l' + 1 →
        Trie.repeats (prefixMask 4 l') (.node a (prefixMask 4 l) t1 t0) = false := by
      intro l' h'
      rw [← Bool.not_eq_true]
      intro hr
      have : l = l' := Trie.prefixMask_inj bound (by omega) (by simpa [Trie.repeats] using hr)
      omega
    have effect := TrieRoot.updateWalk_effect (fun _ => False) wfNode rfl normal set.trie4 wf.trie4
    by_cases agree : AgreeUpTo 96 a x
    · exact mappedA.trans agree
    · exact wf.mapped x lenX (effect.frame x lenX agree h)

theorem Built.wf (built : Built set) : set.WF := by
  induction built with
  | new => exact WF.new
  | addSpec res spec af dns _ ih => exact ih.addSpec res spec af dns
  | update _ _ ih ihOther => exact ih.update ihOther

/-! ## Membership after insertions -/

/-- A set built by insertions into the trie of one family. -/
def insertAll {f : Family} (ops : List (Insertion f)) : AddrSet :=
  ops.foldl (fun set q => set.insert q.sa q.bits) new

theorem insertAll_eq {f : Family} (ops : List (Insertion f)) :
    (insertAll ops).head = [] ∧ (insertAll ops).afTrie f = TrieRoot.insertAll ops := by
  induction ops using List.reverseRecOn with
  | nil => exact ⟨rfl, by cases f <;> rfl⟩
  | append_singleton ops q ih =>
    obtain ⟨sa, bits, rfl, valid⟩ := q
    rw [TrieRoot.insertAll_concat, ← ih.2]
    simp only [insertAll, foldl_append, foldl_cons, foldl_nil] at ih ⊢
    cases sa with
    | inet a => exact ⟨ih.1, rfl⟩
    | inet6 => exact ⟨ih.1, rfl⟩

theorem addrsetContains_insertAll {f : Family} (ops : List (Insertion f)) {x : Sockaddr}
    (hx : x.family = f) :
    addrsetContains (insertAll ops) x = (TrieRoot.insertAll ops).trieMatch x := by
  obtain ⟨head, trie⟩ := insertAll_eq ops
  rw [addrsetContains, hx, trie, head]
  simp

/-- After every insertion of a sequence `trie_match` and `addrset_contains` answer
for the union of the prefixes inserted so far, exactly when no insertion finds
the off half of its prefix split by the earlier ones. -/
theorem insertions_contain_union_iff (f : Family) (ops : List (Insertion f)) :
    (∀ done, done <+: ops → ∀ x : Sockaddr, x.family = f →
      ((TrieRoot.insertAll done).trieMatch x = true ↔ ∃ q ∈ done, q.Covers x) ∧
      (addrsetContains (insertAll done) x = true ↔ ∃ q ∈ done, q.Covers x)) ↔
    ∀ done q, done ++ [q] <+: ops → q.Unsplit done := by
  rw [← TrieRoot.matchesUnion_iff]
  refine forall_congr' fun done => forall_congr' fun _ => forall_congr' fun x => ?_
  refine forall_congr' fun hx => ?_
  rw [addrsetContains_insertAll done hx, and_self_iff]

def narrowThenWide : List (Insertion .inet) :=
  [⟨.inet 0x010203c0, 26, rfl, by decide⟩, ⟨.inet 0x01020300, 24, rfl, by decide⟩]

/-- After these two insertions 1.2.3.130 is not found. -/
theorem insertions_lose_half :
    ¬ ((TrieRoot.insertAll narrowThenWide).trieMatch (.inet 0x01020382) = true ↔
      ∃ q ∈ narrowThenWide, q.Covers (.inet 0x01020382)) := by
  intro right
  have lost := right.mpr ⟨_, mem_cons_of_mem _ (mem_singleton.mpr rfl), by
    show ∀ i < 120, _
    decide⟩
  exact absurd lost (by decide)

/-! ## The union of two sets -/

/-- A set together with the calls that built it. -/
structure BuiltSet where
  set : AddrSet
  built : Built set

/-- The addresses a range element of either set contains. -/
def InElems (set other : AddrSet) (x : Words) : Prop :=
  ∃ addr, sockaddrToAddr (.inet addr) = x ∧
    (set.head ++ other.head).any (matchIpv4Bits · addr) = true

/-- `addrset_contains` for the two families. -/
theorem addrsetContains_inet (set : AddrSet) (addr : U32) :
    addrsetContains set (.inet addr) = true ↔
      set.trie4.Has (sockaddrToAddr (.inet addr)) ∨
        set.head.any (matchIpv4Bits · addr) = true := by
  simp [addrsetContains, Sockaddr.family, afTrie, TrieRoot.Has, TrieRoot.trieMatch,
    addrsetElemMatch]

theorem addrsetContains_inet6 (set : AddrSet) (w0 w1 w2 w3 : U32) :
    addrsetContains set (.inet6 w0 w1 w2 w3) = true ↔ set.trie6.Has [w0, w1, w2, w3] := by
  simp [addrsetContains, Sockaddr.family, afTrie, TrieRoot.Has, TrieRoot.trieMatch,
    sockaddrToAddr]

private theorem head_update (set other : AddrSet) (p : AddrsetElem → Bool) :
    (addrsetUpdate set other).head.any p = (set.head.any p || other.head.any p) := by
  have push : ∀ (l head : List AddrsetElem),
      (l.foldl (fun head oe => oe :: head) head).any p = (head.any p || l.any p) := by
    intro l
    induction l with
    | nil => simp
    | cons e l ih =>
      intro head
      rw [foldl_cons, ih, any_cons, any_cons]
      cases p e <;> simp
  exact push _ _

/-- The tries of the two families decide the union. The range elements of both
sets are copied, and hide what goes wrong in the IPv4 trie where they contain it. -/
theorem addrsetUpdate_union_iff (A B : BuiltSet) :
    (∀ x : Sockaddr, addrsetContains (addrsetUpdate A.set B.set) x = true ↔
      addrsetContains A.set x = true ∨ addrsetContains B.set x = true) ↔
    Trie.UpdateOk A.set.trie4.Has (InElems A.set B.set) B.set.trie4.toNode ∧
      Trie.UpdateOk A.set.trie6.Has (fun _ => False) B.set.trie6.toNode := by
  have wfA := A.built.wf
  have wfB := B.built.wf
  have wfC := wfA.update wfB
  rw [← (TrieRoot.trieUpdate_has_iff _ wfA.trie4 wfB.trie4).2,
    ← (TrieRoot.trieUpdate_has_iff _ wfA.trie6 wfB.trie6).2]
  -- the elements that contain an IPv4 address
  have elems : ∀ addr, InElems A.set B.set (sockaddrToAddr (.inet addr)) ↔
      (A.set.head.any (matchIpv4Bits · addr) = true ∨
        B.set.head.any (matchIpv4Bits · addr) = true) := by
    intro addr
    have inj : ∀ v, sockaddrToAddr (.inet v) = sockaddrToAddr (.inet addr) → v = addr := by
      intro v h
      simpa [sockaddrToAddr] using h
    constructor
    · rintro ⟨v, hv, h⟩
      rwa [inj v hv, any_append, Bool.or_eq_true] at h
    · intro h
      exact ⟨addr, rfl, by rwa [any_append, Bool.or_eq_true]⟩
  have inet : ∀ addr, (addrsetContains (addrsetUpdate A.set B.set) (.inet addr) = true ↔
        addrsetContains A.set (.inet addr) = true ∨ addrsetContains B.set (.inet addr) = true) ↔
      ((A.set.trie4.trieUpdate B.set.trie4).Has (sockaddrToAddr (.inet addr)) ∨
          InElems A.set B.set (sockaddrToAddr (.inet addr)) ↔
        A.set.trie4.Has (sockaddrToAddr (.inet addr)) ∨
          B.set.trie4.Has (sockaddrToAddr (.inet addr)) ∨
          InElems A.set B.set (sockaddrToAddr (.inet addr))) := by
    intro addr
    rw [addrsetContains_inet, addrsetContains_inet, addrsetContains_inet, head_update,
      Bool.or_eq_true, elems addr]
    rw [addrsetUpdate, or_or_or_comm, or_assoc]
  constructor
  · intro all
    refine ⟨fun x lenX => ?_, fun x lenX => ?_⟩
    · by_cases mapped : IsMapped x
      · obtain ⟨addr, rfl⟩ := exists_inet lenX mapped
        exact (inet addr).mp (all _)
      · have hC : ¬ (A.set.trie4.trieUpdate B.set.trie4).Has x :=
          fun h => mapped (wfC.mapped x lenX h)
        have hA : ¬ A.set.trie4.Has x := fun h => mapped (wfA.mapped x lenX h)
        have hB : ¬ B.set.trie4.Has x := fun h => mapped (wfB.mapped x lenX h)
        simp only [hA, hB, hC, false_or]
    · obtain ⟨w0, w1, w2, w3, rfl⟩ := length_eq_four.mp lenX
      have := all (.inet6 w0 w1 w2 w3)
      rw [addrsetContains_inet6, addrsetContains_inet6, addrsetContains_inet6] at this
      simpa only [or_false, addrsetUpdate] using this
  · rintro ⟨all4, all6⟩ x
    cases x with
    | inet addr => exact (inet addr).mpr (all4 _ (sockaddrToAddr_length _))
    | inet6 w0 w1 w2 w3 =>
      rw [addrsetContains_inet6, addrsetContains_inet6, addrsetContains_inet6]
      simpa only [or_false, addrsetUpdate] using all6 [w0, w1, w2, w3] rfl

/-- `getaddrinfo` for two numeric addresses. -/
def twoAddresses : Resolver where
  numeric name :=
    if name = "1.2.3.192".toList then some [some (.inet 0x010203c0)]
    else if name = "1.2.3.0".toList then some [some (.inet 0x01020300)]
    else none
  name _ _ := none

/-- A set whose trie repeats a mask on a zero branch. -/
def repeatedMask : BuiltSet where
  set :=
    let first := (addrsetAddSpec twoAddresses new "1.2.3.192/26".toList none false).1
    (addrsetAddSpec twoAddresses first "1.2.3.0/24".toList none false).1
  built := .addSpec _ _ _ _ (.addSpec _ _ _ _ .new)

/-- Updating the empty set from 1.2.3.192/26 and 1.2.3.0/24 adds 1.2.3.130, which
the other set does not contain. -/
theorem addrsetUpdate_adds_stranger :
    ¬ (addrsetContains (addrsetUpdate new repeatedMask.set) (.inet 0x01020382) = true ↔
      addrsetContains new (.inet 0x01020382) = true ∨
        addrsetContains repeatedMask.set (.inet 0x01020382) = true) := by
  simp only [addrsetUpdate, TrieRoot.trieUpdate_eq_updateWalk]
  decide

end AddrSet

end Nmap.Addrset
