import Nmap.Addrset.NetBlock
import Nmap.Base.Yields

/-!
# Runs of a block of IPv4 ranges

The calls of `next` for a target expression return the addresses that agree, on the bits of the
netmask, with one of the product of its octets: each once, from the smallest to the largest. After
them every call returns false (`ranges_enumerated`).
-/

namespace Nmap.Addrset

open Nmap.Base Nmap.Base.Odometer

/-- `mask` of `apply_netmask` -/
def netmask (bits : Int) : U32 :=
  let bits := if bits < 0 then 32 else bits.toNat
  if bits = 0 then 0 else u32AllBits <<< (32 - bits)

theorem and_eq_and_iff (mask a b : U32) :
    a &&& mask = b &&& mask ↔ ∀ i < 32, mask.getLsbD i = true → b.getLsbD i = a.getLsbD i := by
  constructor
  · intro same i _ kept
    have bit := congrArg (·.getLsbD i) same
    simpa [kept, eq_comm] using bit
  · intro same
    apply BitVec.eq_of_getLsbD_eq
    intro i hi
    rw [BitVec.getLsbD_and, BitVec.getLsbD_and]
    cases kept : mask.getLsbD i with
    | true => rw [same i hi kept]
    | false => rw [Bool.and_false, Bool.and_false]

/-- `apply_netmask` adds what agrees on the mask with an address of the product. -/
theorem matchIpv4Bits_netmask (octets : AddrsetElem) {bits : Int} (short : bits ≤ 32) (b : U32) :
    matchIpv4Bits (applyIpv4NetmaskBits octets bits) b = true ↔
      ∃ a, matchIpv4Bits octets a = true ∧ a &&& netmask bits = b &&& netmask bits := by
  have masked : applyIpv4NetmaskBits octets bits = applyIpv4Netmask octets (netmask bits) := by
    rw [applyIpv4NetmaskBits, if_neg (by omega)]
    rfl
  rw [masked, matchIpv4Bits_applyIpv4Netmask]
  simp only [and_eq_and_iff]

namespace NetBlockIPv4Ranges

/-- A call of `next`: the address, if it returns true, and the block afterwards. The counters are
moved on also where it returns false. -/
def nextCall (nb : NetBlockIPv4Ranges) : Option U32 × NetBlockIPv4Ranges :=
  match nb.next with
  | some (addr, nb) => (some addr, nb)
  | none => (none, { nb with counter := sought 256 nb.wheels nb.counter })

/-- The addresses of a block, in the order of its counters -/
def addresses (nb : NetBlockIPv4Ranges) : List U32 := (readings 256 nb.wheels).map address

variable {nb : NetBlockIPv4Ranges}

theorem toNat_address {counter : List Nat} (shows_ : Shows 256 nb.wheels counter) :
    (address counter).toNat = Numeral.value id 256 counter := by
  obtain ⟨o0, o1, o2, o3, rfl, ⟨h0, h1, h2, h3⟩, -⟩ := shows_iff.mp shows_
  show (ofOctets o0 o1 o2 o3).toNat = _
  rw [toNat_ofOctets h0 h1 h2 h3]
  simp [Numeral.value]
  omega

theorem addresses_increasing (nb : NetBlockIPv4Ranges) : nb.addresses.Pairwise (· < ·) := by
  rw [addresses, List.pairwise_map]
  refine (readings_increasing 256 nb.wheels).imp_of_mem fun mem mem' less => ?_
  rw [BitVec.lt_def, toNat_address (mem_readings.mp mem), toNat_address (mem_readings.mp mem')]
  exact less

/-- From counters that show an address on, the calls return the remaining ones, and end where all
counters have been cycled. -/
theorem passes_of_shows (shows_ : Shows 256 nb.wheels nb.counter) :
    Passes nextCall nb ((remaining 256 nb.wheels nb.counter).map address) nb.cycled := by
  generalize rest : remaining 256 nb.wheels nb.counter = counters
  induction counters generalizing nb with
  | nil =>
    obtain ⟨-, next⟩ := tick_spec shows_
    rw [rest] at next
    split at next
    · cases next.1
    · cases next
  | cons first counters ih =>
    obtain ⟨showsNext, next⟩ := tick_spec shows_
    have call : nextCall nb = (some (address nb.counter),
        if (tick 256 nb.wheels nb.counter).2 then nb.cycled
        else { nb with counter := (tick 256 nb.wheels nb.counter).1 }) := by
      rw [nextCall, NetBlockIPv4Ranges.next, shows_.settle_eq]
    rw [List.map_cons, Passes, call]
    rw [rest] at next
    cases carry : (tick 256 nb.wheels nb.counter).2 with
    | true =>
      obtain ⟨⟨rfl, rfl⟩, -⟩ : (first = nb.counter ∧ counters = []) ∧ _ := by
        simpa [carry] using next
      exact ⟨rfl, rfl⟩
    | false =>
      obtain ⟨rfl, more⟩ : first = nb.counter ∧
          counters = remaining 256 nb.wheels (tick 256 nb.wheels nb.counter).1 := by
        simpa [carry] using next
      let turned : NetBlockIPv4Ranges :=
        { nb with counter := (tick 256 nb.wheels nb.counter).1 }
      have later : Passes nextCall turned (counters.map address) turned.cycled :=
        ih showsNext more.symm
      exact ⟨rfl, later⟩

/-- A new block returns its addresses before all counters have been cycled. -/
theorem passes_of_fresh (fresh : nb.counter = [0, 0, 0, 0]) (some_ : nb.addresses ≠ []) :
    Passes nextCall nb nb.addresses nb.cycled := by
  have zero : nb.counter = nb.wheels.map fun _ => 0 := fresh
  rcases settle_zero (n := 256) nb.wheels with ⟨-, none⟩ | ⟨counter, settled, shows_, all⟩
  · exact absurd (by rw [addresses, none, List.map_nil]) some_
  · -- the first call finds the first address, and goes on as if it had stood there
    let placed : NetBlockIPv4Ranges := { nb with counter := counter }
    have here : placed.nextCall = nb.nextCall := by
      have same : placed.next = nb.next := by
        have here : settle 256 placed.wheels placed.counter = some counter := shows_.settle_eq
        rw [NetBlockIPv4Ranges.next, NetBlockIPv4Ranges.next, zero, settled, here]
        rfl
      have found : ∃ result, nb.next = some result := by
        rw [NetBlockIPv4Ranges.next, zero, settled]
        exact ⟨_, rfl⟩
      obtain ⟨result, found⟩ := found
      rw [nextCall, nextCall, same, found]
    have passes : Passes nextCall placed nb.addresses nb.cycled := by
      have fromThere : Passes nextCall placed _ placed.cycled := passes_of_shows shows_
      rwa [show remaining 256 placed.wheels placed.counter = _ from all] at fromThere
    cases list : nb.addresses with
    | nil => exact absurd list some_
    | cons addr rest =>
      rw [list, Passes, here] at passes
      exact passes

theorem yields_nil (noneLeft : nb.next = none) : Yields nextCall nb [] := by
  refine .of_dead (fun nb : NetBlockIPv4Ranges => settle 256 nb.wheels nb.counter = none) ?_ ?_
  · intro nb dead
    have false_ : nb.next = none := by
      rw [NetBlockIPv4Ranges.next, dead]
    rw [nextCall, false_]
    exact ⟨rfl, (settle_sought nb.wheels nb.counter).trans dead⟩
  · cases settled : settle 256 nb.wheels nb.counter with
    | none => rfl
    | some counter =>
      rw [NetBlockIPv4Ranges.next, settled] at noneLeft
      cases noneLeft

theorem yields_of_fresh (single : nb.resolvedaddrs = []) (fresh : nb.counter = [0, 0, 0, 0]) :
    Yields nextCall nb nb.addresses := by
  by_cases none : nb.addresses = []
  · rw [none]
    apply yields_nil
    have zero : nb.counter = nb.wheels.map fun _ => 0 := fresh
    rcases settle_zero (n := 256) nb.wheels with ⟨empty, -⟩ | ⟨counter, -, shows_, -⟩
    · rw [NetBlockIPv4Ranges.next, zero, empty]
    · have mem : address counter ∈ nb.addresses :=
        List.mem_map_of_mem (mem_readings.mpr shows_)
      rw [none] at mem
      cases mem
  · have spent : Yields nextCall nb.cycled [] := by
      refine yields_nil (next_spent ?_)
      simp [cycled, single]
    simpa using (passes_of_fresh fresh none).yields spent

/-- The calls of `next` for a target expression of octets with a netmask, or none -/
theorem ranges_enumerated (resolveNumeric : List Char → Option Words) (targetExpr : List Char)
    (requests : List (List Char)) (resolveAll : Bool) {hostexp : List Char} {bits : Int}
    {octets : AddrsetElem} (split_ : NetBlock.splitNetmask targetExpr = some (hostexp, bits))
    (accepted : NetBlock.parseIpv4Ranges hostexp = some octets) (short : bits ≤ 32) :
    ∃ nb, (NetBlock.parseExpr resolveNumeric targetExpr .inet requests resolveAll).1 =
        some (.ipv4Ranges nb) ∧
      ∃ addrs : List U32, addrs.Pairwise (· < ·) ∧
        (∀ b, b ∈ addrs ↔
          ∃ a, matchIpv4Bits octets a = true ∧ a &&& netmask bits = b &&& netmask bits) ∧
        Yields nextCall nb addrs := by
  let nb : NetBlockIPv4Ranges := { new resolveAll with octets := octets }
  have parsed : (NetBlock.parseExpr resolveNumeric targetExpr .inet requests resolveAll).1 =
      some (.ipv4Ranges (nb.applyNetmask bits)) := by
    rw [NetBlock.parseExpr, split_]
    simp only [NetBlock.parseExprWithoutNetmask, if_true, accepted]
    rw [if_neg fun long => absurd long.2 (by omega)]
    rfl
  refine ⟨_, parsed, (nb.applyNetmask bits).addresses, addresses_increasing _, ?_,
    yields_of_fresh rfl rfl⟩
  intro b
  rw [addresses, mem_addresses]
  exact matchIpv4Bits_netmask octets short b

theorem ranges_enumerated_example :
    ∃ octets, NetBlock.parseIpv4Ranges "192.168.0-1.1,3".toList = some octets ∧
      ∃ nb, (NetBlock.parseExpr (fun _ => none) "192.168.0-1.1,3/31".toList .inet [] false).1 =
          some (.ipv4Ranges nb) ∧
        ∃ addrs : List U32, addrs.Pairwise (· < ·) ∧
          (∀ b, b ∈ addrs ↔
            ∃ a, matchIpv4Bits octets a = true ∧ a &&& netmask 31 = b &&& netmask 31) ∧
          Yields nextCall nb addrs :=
  have accepted : (NetBlock.parseIpv4Ranges "192.168.0-1.1,3".toList).isSome = true := by
    decide +kernel
  have split_ : NetBlock.splitNetmask "192.168.0-1.1,3/31".toList =
      some ("192.168.0-1.1,3".toList, 31) := by
    decide
  ⟨_, Option.eq_some_of_isSome accepted,
    ranges_enumerated _ _ _ _ split_ (Option.eq_some_of_isSome accepted) (by decide)⟩

end NetBlockIPv4Ranges

end Nmap.Addrset
