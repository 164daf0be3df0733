import Nmap.Base.Odometer
import Nmap.Addrset.RangeElem

/-!
# Target expressions (`NetBlock.cc`)

`NetBlock::parse_expr` reads a target expression into a block, and `next` enumerates the block's
addresses. The range parser and the netmask functions are those of address sets over again.

The blocks of IPv4 ranges are modelled as a whole. Of an IPv6 block and of a host name that is
still to be resolved only what `parse_expr` stores is kept.
-/

namespace Nmap.Addrset

open Nmap.Base List

/-! ## Blocks -/

/-- `NetBlockIPv4Ranges`, with the fields of `NetBlock` that it reads -/
structure NetBlockIPv4Ranges where
  octets : AddrsetElem
  counter : List Nat
  resolveAll : Bool
  resolvedaddrs : List U32
  /-- the iterator into `resolvedaddrs`: the addresses from it on -/
  currentAddr : List U32
  deriving DecidableEq, Repr

/-- `NetBlock`: the classes that `parse_expr` makes -/
inductive NetBlock
  | ipv4Ranges (block : NetBlockIPv4Ranges)
  | ipv6Netmask (addr : Words) (bits : Int) (resolveAll : Bool)
  | hostname (hostname : List Char) (af : Family) (bits : Int) (resolveAll : Bool)
  deriving DecidableEq, Repr

namespace NetBlockIPv4Ranges

/-- `NetBlockIPv4Ranges`, the constructor -/
def new (resolveAll : Bool) : NetBlockIPv4Ranges where
  octets := ⟨0, 0, 0, 0⟩
  counter := [0, 0, 0, 0]
  resolveAll := resolveAll
  resolvedaddrs := []
  currentAddr := []

/-- `apply_netmask`: that of the range elements -/
def applyNetmask (nb : NetBlockIPv4Ranges) (bits : Int) : NetBlockIPv4Ranges :=
  { nb with octets := applyIpv4NetmaskBits nb.octets bits }

def setAddr (nb : NetBlockIPv4Ranges) (ip : U32) : NetBlockIPv4Ranges :=
  { nb with
    octets :=
      ⟨bitSet 0 (ip.extractLsb' 24 8).toNat, bitSet 0 (ip.extractLsb' 16 8).toNat,
        bitSet 0 (ip.extractLsb' 8 8).toNat, bitSet 0 (ip.extractLsb' 0 8).toNat⟩
    counter := [0, 0, 0, 0] }

def wheels (nb : NetBlockIPv4Ranges) : List (Nat → Bool) :=
  [bitIsSet nb.octets.bits0, bitIsSet nb.octets.bits1, bitIsSet nb.octets.bits2,
    bitIsSet nb.octets.bits3]

/-- The address that the counters stand for -/
def address (counter : List Nat) : U32 :=
  ofOctets (counter.getD 0 0) (counter.getD 1 0) (counter.getD 2 0) (counter.getD 3 0)

/-- What `next` does when all counters have been cycled: the next of the resolved addresses, or
counters that are not valid -/
def cycled (nb : NetBlockIPv4Ranges) : NetBlockIPv4Ranges :=
  let spent := { nb with counter := [256, 256, 256, 256] }
  if nb.resolveAll = true ∧ nb.resolvedaddrs ≠ [] then
    match nb.currentAddr with
    | [] => spent
    | [_] => { spent with currentAddr := [] }
    | _ :: addr :: rest => { nb with currentAddr := addr :: rest }.setAddr addr
  else spent

/-- `next`: the address and the block afterwards, or none -/
def next (nb : NetBlockIPv4Ranges) : Option (U32 × NetBlockIPv4Ranges) :=
  match Odometer.settle 256 nb.wheels nb.counter with
  | none => none
  | some counter =>
    let ticked := Odometer.tick 256 nb.wheels counter
    some (address counter,
      if ticked.2 then nb.cycled else { nb with counter := ticked.1 })

/-- The addresses of so many calls of `next`, up to the first that returns false -/
def enumerate : Nat → NetBlockIPv4Ranges → List U32
  | 0, _ => []
  | calls + 1, nb =>
    match nb.next with
    | none => []
    | some (addr, nb) => addr :: enumerate calls nb

/-- Some call of `next` returns the address. -/
def Enumerates (nb : NetBlockIPv4Ranges) (addr : U32) : Prop := ∃ calls, addr ∈ nb.enumerate calls

end NetBlockIPv4Ranges

/-! ## Parsing -/

namespace NetBlock

def intMax : Nat := 2 ^ 31 - 1

/-- `strrchr` for a slash: what is before the last one and after it -/
def lastSlash (expr : List Char) : Option (List Char × List Char) :=
  match expr.reverse.dropWhile (· ≠ '/') with
  | [] => none
  | _ :: before => some (before.reverse, (expr.reverse.takeWhile (· ≠ '/')).reverse)

/-- `split_netmask`: the text up to the last slash and the number after it, -1 without one. Where
`strtol` overflows it returns `LONG_MAX`, which is over `INT_MAX`. -/
def splitNetmask (expr : List Char) : Option (List Char × Int) :=
  match lastSlash expr with
  | none => some (expr, -1)
  | some (hostexp, netmask) =>
    match parseLong netmask with
    | (none, _) => none
    | (some l, tail) =>
      if tail = netmask ∨ tail ≠ [] ∨ l > intMax then none else some (hostexp, l)

/-- `parse_ipv4_ranges`: line by line that of `nbase_addrset.c` -/
def parseIpv4Ranges (spec : List Char) : Option AddrsetElem := Addrset.parseIpv4Ranges spec

/-- `parse_expr_without_netmask`. `resolveNumeric` is `resolve_numeric` for `AF_INET6`, and the
names of the requests are those that are to be resolved. -/
def parseExprWithoutNetmask (resolveNumeric : List Char → Option Words) (hostexp : List Char)
    (af : Family) (requests : List (List Char)) (resolveAll : Bool) :
    Option NetBlock × List (List Char) :=
  match (if af = .inet then parseIpv4Ranges hostexp else none) with
  | some octets =>
    (some (.ipv4Ranges { NetBlockIPv4Ranges.new resolveAll with octets := octets }), requests)
  | none =>
    match resolveNumeric hostexp with
    | some addr =>
      -- "looks like an IPv6 target specification -- you have to use the -6 option."
      if af ≠ .inet6 then (none, requests)
      else (some (.ipv6Netmask addr (-1) resolveAll), requests)
    | none => (some (.hostname hostexp af (-1) resolveAll), requests ++ [hostexp])

def applyNetmask (nb : NetBlock) (bits : Int) : NetBlock :=
  match nb with
  | .ipv4Ranges block => .ipv4Ranges (block.applyNetmask bits)
  | .ipv6Netmask addr old resolveAll =>
    .ipv6Netmask addr (if bits > 128 then old else bits) resolveAll
  | .hostname name af _ resolveAll => .hostname name af bits resolveAll

def parseExpr (resolveNumeric : List Char → Option Words) (targetExpr : List Char) (af : Family)
    (requests : List (List Char)) (resolveAll : Bool) : Option NetBlock × List (List Char) :=
  match splitNetmask targetExpr with
  | none => (none, requests)
  | some (hostexp, bits) =>
    -- "Illegal netmask [...]. Assuming /32 (one host)"
    let bits := if af = .inet ∧ bits > 32 then -1 else bits
    match parseExprWithoutNetmask resolveNumeric hostexp af requests resolveAll with
    | (none, requests) => (none, requests)
    | (some netblock, requests) => (some (netblock.applyNetmask bits), requests)

end NetBlock

/-! ## What a block enumerates -/

namespace NetBlockIPv4Ranges

open Odometer

variable {nb : NetBlockIPv4Ranges}

theorem shows_iff {counter : List Nat} :
    Shows 256 nb.wheels counter ↔ ∃ o0 o1 o2 o3, counter = [o0, o1, o2, o3] ∧
      (o0 < 256 ∧ o1 < 256 ∧ o2 < 256 ∧ o3 < 256) ∧
      matchIpv4Bits nb.octets (ofOctets o0 o1 o2 o3) = true := by
  have octets : ∀ {o0 o1 o2 o3}, o0 < 256 → o1 < 256 → o2 < 256 → o3 < 256 →
      (matchIpv4Bits nb.octets (ofOctets o0 o1 o2 o3) = true ↔
        ((bitIsSet nb.octets.bits0 o0 = true ∧ bitIsSet nb.octets.bits1 o1 = true) ∧
          bitIsSet nb.octets.bits2 o2 = true) ∧ bitIsSet nb.octets.bits3 o3 = true) := by
    intro o0 o1 o2 o3 h0 h1 h2 h3
    obtain ⟨e0, e1, e2, e3⟩ := octets_ofOctets h0 h1 h2 h3
    simp only [matchIpv4Bits, e0, e1, e2, e3, Bool.and_eq_true]
  constructor
  · rintro (_ | ⟨⟨h0, s0⟩, _ | ⟨⟨h1, s1⟩, _ | ⟨⟨h2, s2⟩, _ | ⟨⟨h3, s3⟩, _ | _⟩⟩⟩⟩)
    exact ⟨_, _, _, _, rfl, ⟨h0, h1, h2, h3⟩, (octets h0 h1 h2 h3).mpr ⟨⟨⟨s0, s1⟩, s2⟩, s3⟩⟩
  · rintro ⟨o0, o1, o2, o3, rfl, ⟨h0, h1, h2, h3⟩, set⟩
    obtain ⟨⟨⟨s0, s1⟩, s2⟩, s3⟩ := (octets h0 h1 h2 h3).mp set
    exact .cons ⟨h0, s0⟩ (.cons ⟨h1, s1⟩ (.cons ⟨h2, s2⟩ (.cons ⟨h3, s3⟩ .nil)))

/-- With counters that are not valid `next` returns false. -/
theorem next_spent (spent : nb.counter = [256, 256, 256, 256]) : nb.next = none := by
  have past : settle 256 nb.wheels [256, 256, 256, 256] = none := rfl
  rw [next, spent, past]

/-- From counters that show an address on, the calls return the remaining ones in order. -/
theorem enumerate_of_shows (single : nb.resolvedaddrs = [])
    (shows_ : Shows 256 nb.wheels nb.counter) (calls : Nat) :
    nb.enumerate calls = ((remaining 256 nb.wheels nb.counter).map address).take calls := by
  induction calls generalizing nb with
  | zero => rw [enumerate, take_zero]
  | succ calls ih =>
    obtain ⟨showsNext, rest⟩ := tick_spec shows_
    rw [enumerate, next, shows_.settle_eq]
    cases carry : (tick 256 nb.wheels nb.counter).2 with
    | true =>
      obtain ⟨last, -⟩ : remaining 256 nb.wheels nb.counter = [nb.counter] ∧ _ := by
        simpa only [carry, if_true] using rest
      have after : (nb.cycled).enumerate calls = [] := by
        cases calls with
        | zero => rfl
        | succ calls =>
          have spent : nb.cycled.counter = [256, 256, 256, 256] := by
            simp [cycled, single]
          rw [enumerate, next_spent spent]
      simp only [carry, if_true, after, last, map_singleton]
      rw [take_of_length_le (by simp)]
    | false =>
      have more : remaining 256 nb.wheels nb.counter =
          nb.counter :: remaining 256 nb.wheels (tick 256 nb.wheels nb.counter).1 := by
        simpa only [carry, Bool.false_eq_true, if_false] using rest
      let turned : NetBlockIPv4Ranges :=
        { nb with counter := (tick 256 nb.wheels nb.counter).1 }
      have later : turned.enumerate calls =
          ((remaining 256 nb.wheels turned.counter).map address).take calls :=
        ih single showsNext
      rw [more, map_cons, take_succ_cons]
      simp only [carry, Bool.false_eq_true, if_false]
      rw [later]

/-- A new block returns every address of its octets once, in order. -/
theorem enumerate_eq (single : nb.resolvedaddrs = []) (fresh : nb.counter = [0, 0, 0, 0])
    (calls : Nat) :
    nb.enumerate calls = ((readings 256 nb.wheels).map address).take calls := by
  have zero : nb.counter = nb.wheels.map fun _ => 0 := fresh
  rcases settle_zero (n := 256) nb.wheels with ⟨empty, none⟩ | ⟨counter, settled, shows_, all⟩
  · rw [none, map_nil, take_nil]
    cases calls with
    | zero => rfl
    | succ calls => rw [enumerate, next, zero, empty]
  · -- the first call finds the first address, and goes on as if it had stood there
    let placed : NetBlockIPv4Ranges := { nb with counter := counter }
    have same : nb.enumerate calls = placed.enumerate calls := by
      cases calls with
      | zero => rfl
      | succ calls =>
        have here : placed.next = nb.next := by
          rw [next, next, zero, settled]
          show (match settle 256 nb.wheels counter with | none => _ | some _ => _) = _
          rw [shows_.settle_eq]
          rfl
        rw [enumerate, enumerate, here]
    have alone : placed.resolvedaddrs = [] := single
    rw [same, enumerate_of_shows alone shows_]
    show ((remaining 256 nb.wheels counter).map address).take calls = _
    rw [all]

theorem mem_addresses (addr : U32) :
    addr ∈ (readings 256 nb.wheels).map address ↔ matchIpv4Bits nb.octets addr = true := by
  rw [mem_map]
  constructor
  · rintro ⟨counter, mem, rfl⟩
    obtain ⟨o0, o1, o2, o3, rfl, -, set⟩ := shows_iff.mp (mem_readings.mp mem)
    exact set
  · intro set
    have octet : ∀ s, (addr.extractLsb' s 8).toNat < 256 := fun s => BitVec.isLt _
    refine ⟨_, mem_readings.mpr (shows_iff.mpr ⟨_, _, _, _, rfl,
      ⟨octet 24, octet 16, octet 8, octet 0⟩, ?_⟩), ofOctets_octets addr⟩
    rwa [ofOctets_octets]

theorem enumerates_iff (single : nb.resolvedaddrs = []) (fresh : nb.counter = [0, 0, 0, 0])
    (addr : U32) : nb.Enumerates addr ↔ matchIpv4Bits nb.octets addr = true := by
  rw [← mem_addresses]
  constructor
  · rintro ⟨calls, mem⟩
    rw [enumerate_eq single fresh] at mem
    exact mem_of_mem_take mem
  · intro mem
    refine ⟨((readings 256 nb.wheels).map address).length, ?_⟩
    rwa [enumerate_eq single fresh, take_length]

end NetBlockIPv4Ranges

end Nmap.Addrset
