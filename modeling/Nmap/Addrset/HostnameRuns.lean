import Mathlib.Data.Set.List
import Nmap.Addrset.Ipv6Block
import Nmap.Addrset.RangeRuns

/-!
# Blocks of resolved names (`NetBlock.cc`)

With `--resolve-all` the block of a name goes on, behind the addresses of the first block, with the
other resolved addresses. But it goes on with these alone: `set_addr` does not bring the netmask
along that `resolve` applied to the first one (`covers_iff`).
-/

namespace Nmap.Addrset

open Nmap.Base Nmap.Base.Odometer List

/-! ## Resolving -/

/-- `struct sockaddr_storage`, as a DNS request fills it in -/
inductive SockaddrStorage
  | inet (addr : U32)
  | inet6 (addr : SockaddrIn6)
  deriving DecidableEq

/-- An address alone -/
inductive HostAddr
  | inet (addr : U32)
  | inet6 (addr : In6Addr)
  deriving DecidableEq

namespace SockaddrStorage

def family : SockaddrStorage → Family
  | inet _ => .inet
  | inet6 _ => .inet6

def hostAddr : SockaddrStorage → HostAddr
  | inet addr => .inet addr
  | inet6 addr => .inet6 addr.sin6Addr

/-- The cast to `struct sockaddr_in` -/
def sin : SockaddrStorage → Option U32
  | inet addr => some addr
  | inet6 _ => none

/-- The cast to `struct sockaddr_in6` -/
def sin6 : SockaddrStorage → Option SockaddrIn6
  | inet _ => none
  | inet6 addr => some addr

theorem exists_inet {sss : List SockaddrStorage} (all : ∀ ss ∈ sss, ss.family = .inet) :
    ∃ addrs : List U32, addrs.map inet = sss := by
  show sss ∈ Set.range (List.map inet)
  rw [Set.range_list_map]
  intro ss mem
  cases ss with
  | inet addr => exact ⟨addr, rfl⟩
  | inet6 addr => cases all _ mem

theorem exists_inet6 {sss : List SockaddrStorage} (all : ∀ ss ∈ sss, ss.family = .inet6) :
    ∃ addrs : List SockaddrIn6, addrs.map inet6 = sss := by
  show sss ∈ Set.range (List.map inet6)
  rw [Set.range_list_map]
  intro ss mem
  cases ss with
  | inet addr => cases all _ mem
  | inet6 addr => exact ⟨addr, rfl⟩

@[simp] theorem filterMap_sin (addrs : List U32) : (addrs.map inet).filterMap sin = addrs :=
  (filterMap_map ..).trans (filterMap_some ..)

@[simp] theorem filterMap_sin6 (addrs : List SockaddrIn6) :
    (addrs.map inet6).filterMap sin6 = addrs :=
  (filterMap_map ..).trans (filterMap_some ..)

end SockaddrStorage

/-- The blocks that `resolve` makes -/
inductive ResolvedBlock
  | ipv4Ranges (nb : NetBlockIPv4Ranges)
  | ipv6Netmask (nb : NetBlockIPv6Netmask)

def ResolvedBlock.next (deviceScope : U32) :
    ResolvedBlock → Option SockaddrStorage × ResolvedBlock
  | ipv4Ranges nb => (nb.nextCall.1.map .inet, ipv4Ranges nb.nextCall.2)
  | ipv6Netmask nb =>
    ((nb.next deviceScope).1.map .inet6, ipv6Netmask (nb.next deviceScope).2)

structure NetBlockHostname where
  af : Family
  bits : Int
  resolveAll : Bool

namespace NetBlockHostname

/-- The loop of `resolve`: the addresses that are to be scanned -/
def scannedAddrs (nb : NetBlockHostname) :
    List SockaddrStorage → List SockaddrStorage → List SockaddrStorage
  | [], resolvedaddrs => resolvedaddrs
  | ss :: ssv, resolvedaddrs =>
    if ss.family = nb.af ∧ (nb.resolveAll = true ∨ resolvedaddrs = []) then
      scannedAddrs nb ssv (resolvedaddrs ++ [ss])
    else scannedAddrs nb ssv resolvedaddrs

/-- `resolve`, for the addresses of the answer. `none` is "Failed to resolve". -/
def resolve (nb : NetBlockHostname) (ssv : List SockaddrStorage) : Option ResolvedBlock :=
  let resolvedaddrs := nb.scannedAddrs ssv []
  match resolvedaddrs.head? with
  | none => none
  | some (.inet addr) =>
    let ranges := (NetBlockIPv4Ranges.new nb.resolveAll).setAddr addr
    let addrs := resolvedaddrs.filterMap SockaddrStorage.sin
    some (.ipv4Ranges
      ({ ranges with resolvedaddrs := addrs, currentAddr := addrs }.applyNetmask nb.bits))
  | some (.inet6 addr) =>
    let ipv6 := (NetBlockIPv6Netmask.new nb.resolveAll).setAddr addr
    let addrs := resolvedaddrs.filterMap SockaddrStorage.sin6
    some (.ipv6Netmask
      ({ ipv6 with resolvedaddrs := addrs, currentAddr := addrs }.applyNetmask nb.bits))

/-- With `--resolve-all` every address of the family is scanned. -/
theorem scannedAddrs_eq {nb : NetBlockHostname} (all : nb.resolveAll = true)
    (ssv resolvedaddrs : List SockaddrStorage) :
    nb.scannedAddrs ssv resolvedaddrs = resolvedaddrs ++ ssv.filter (·.family = nb.af) := by
  induction ssv generalizing resolvedaddrs with
  | nil => simp [scannedAddrs]
  | cons ss ssv ih =>
    rw [scannedAddrs, ih, ih]
    by_cases same : ss.family = nb.af
    · simp [same, all]
    · simp [same]

end NetBlockHostname

/-! ## Blocks of IPv4 addresses -/

theorem samePrefix_long {k : Nat} (long : 32 ≤ k) (a b : U32) : SamePrefix k a b ↔ a = b := by
  constructor
  · intro same
    apply BitVec.eq_of_getMsbD_eq
    intro i inside
    exact same i (by omega)
  · rintro rfl i -
    rfl

namespace NetBlockIPv4Ranges

variable {nb : NetBlockIPv4Ranges}

/-- `set_addr` leaves one address. -/
theorem matchIpv4Bits_setAddr (nb : NetBlockIPv4Ranges) (a b : U32) :
    matchIpv4Bits (nb.setAddr a).octets b = true ↔ b = a := by
  have octet : ∀ s, bitIsSet (bitSet 0 (a.extractLsb' s 8).toNat) (b.extractLsb' s 8).toNat =
      true ↔ (b.extractLsb' s 8).toNat = (a.extractLsb' s 8).toNat := by
    intro s
    rw [bitIsSet_bitSet 0 _ (BitVec.isLt _)]
    simp [bitIsSet]
  simp only [setAddr, matchIpv4Bits, Bool.and_eq_true, octet]
  constructor
  · rintro ⟨⟨⟨e0, e1⟩, e2⟩, e3⟩
    rw [← ofOctets_octets b, e0, e1, e2, e3, ofOctets_octets]
  · rintro rfl
    exact ⟨⟨⟨rfl, rfl⟩, rfl⟩, rfl⟩

theorem matchIpv4Bits_block (nb : NetBlockIPv4Ranges) (a : U32) (bits : Int) (b : U32) :
    matchIpv4Bits ((nb.setAddr a).applyNetmask bits).octets b = true ↔
      SamePrefix (keptBits bits) a b := by
  rcases Int.lt_or_le 32 bits with long | short
  · have kept : keptBits bits = bits.toNat := if_neg (by omega)
    have same : ((nb.setAddr a).applyNetmask bits).octets = (nb.setAddr a).octets := if_pos long
    rw [same, matchIpv4Bits_setAddr, kept, samePrefix_long (by omega), eq_comm]
  · show matchIpv4Bits (applyIpv4NetmaskBits _ bits) b = true ↔ _
    rw [matchIpv4Bits_applyIpv4NetmaskBits _ short]
    simp only [matchIpv4Bits_setAddr, exists_eq_left]
    exact ⟨fun same i inside => (same i inside).symm, fun same i inside => (same i inside).symm⟩

/-- The block that `set_addr` leaves behind returns one address. -/
theorem addresses_setAddr (nb : NetBlockIPv4Ranges) (a : U32) : (nb.setAddr a).addresses = [a] := by
  have only : ∀ b, b ∈ (nb.setAddr a).addresses ↔ b = a := by
    intro b
    rw [addresses, mem_addresses, matchIpv4Bits_setAddr]
  have increasing := addresses_increasing (nb.setAddr a)
  cases list : (nb.setAddr a).addresses with
  | nil =>
    have mem := (only a).mpr rfl
    rw [list] at mem
    cases mem
  | cons b rest =>
    rw [list] at only increasing
    cases (only b).mp mem_cons_self
    cases rest with
    | nil => rfl
    | cons c rest =>
      have less := (pairwise_cons.mp increasing).1 c mem_cons_self
      rw [(only c).mp (by simp)] at less
      exact absurd less (BitVec.lt_irrefl a)

theorem yields_cycled (all : nb.resolveAll = true) (listed : nb.resolvedaddrs ≠ []) {addr : U32}
    {rest : List U32} (at_ : nb.currentAddr = addr :: rest) :
    Yields nextCall nb.cycled rest := by
  induction rest generalizing nb addr with
  | nil =>
    apply yields_nil
    apply next_spent
    simp [cycled, all, listed, at_]
  | cons next rest ih =>
    let turned : NetBlockIPv4Ranges := { nb with currentAddr := next :: rest }.setAddr next
    have cycled_ : nb.cycled = turned := by
      rw [cycled, if_pos ⟨all, listed⟩, at_]
    have own : Passes nextCall turned [next] turned.cycled := by
      have passes : Passes nextCall turned turned.addresses turned.cycled :=
        passes_of_fresh rfl (by rw [addresses_setAddr]; simp)
      rwa [addresses_setAddr] at passes
    have later : Yields nextCall turned.cycled rest :=
      ih all listed rfl
    rw [cycled_]
    exact own.yields later

/-- The run of a block that `resolve` makes -/
theorem yields_resolved (first : U32) (rest : List U32) (bits : Int) :
    ∃ addrs, (∀ b, b ∈ addrs ↔ SamePrefix (keptBits bits) first b ∨ b ∈ rest) ∧
      Yields nextCall ({ (new true).setAddr first with
        resolvedaddrs := first :: rest, currentAddr := first :: rest }.applyNetmask bits)
        addrs := by
  let nb : NetBlockIPv4Ranges := { (new true).setAddr first with
    resolvedaddrs := first :: rest, currentAddr := first :: rest }.applyNetmask bits
  have own : ∀ b, b ∈ nb.addresses ↔ SamePrefix (keptBits bits) first b := by
    intro b
    rw [addresses, mem_addresses]
    exact matchIpv4Bits_block (new true) first bits b
  have some_ : nb.addresses ≠ [] := ne_nil_of_mem ((own first).mpr fun i inside => rfl)
  refine ⟨nb.addresses ++ rest, ?_, (passes_of_fresh rfl some_).yields
    (yields_cycled rfl (cons_ne_nil _ _) rfl)⟩
  intro b
  rw [mem_append, own]

end NetBlockIPv4Ranges

/-! ## Blocks of IPv6 addresses -/

namespace NetBlockIPv6Netmask

/-- An exhausted block goes on with the resolved addresses, one by one. -/
theorem yields_exhausted (deviceScope : U32) (nb : NetBlockIPv6Netmask)
    (spent : nb.exhausted = true) (all : nb.resolveAll = true) (listed : nb.resolvedaddrs ≠ [])
    {addr : SockaddrIn6} {rest : List SockaddrIn6} (at_ : nb.currentAddr = addr :: rest) :
    ∃ addrs : List SockaddrIn6, addrs.map (·.sin6Addr) = rest.map (·.sin6Addr) ∧
      Yields (next deviceScope) nb addrs := by
  induction rest generalizing nb addr with
  | nil =>
    refine ⟨[], rfl, .of_dead (fun nb : NetBlockIPv6Netmask => nb.exhausted = true ∧
      nb.currentAddr.length ≤ 1) ?_ ⟨spent, by rw [at_]; exact Nat.le_refl _⟩⟩
    rintro nb ⟨spent, short⟩
    have stays : ∃ nb' : NetBlockIPv6Netmask, nb.goOn = (false, nb') ∧
        nb'.exhausted = true ∧ nb'.currentAddr.length ≤ 1 := by
      rw [goOn, if_pos spent]
      split
      · rcases list : nb.currentAddr with _ | ⟨_, _ | _⟩
        · exact ⟨nb, rfl, spent, short⟩
        · exact ⟨_, rfl, spent, Nat.zero_le _⟩
        · rw [list, length_cons, length_cons] at short
          omega
      · exact ⟨nb, rfl, spent, short⟩
    obtain ⟨nb', still, spent', short'⟩ := stays
    rw [next, still]
    exact ⟨rfl, spent', short'⟩
  | cons addr' rest ih =>
    let turned : NetBlockIPv6Netmask := { nb with currentAddr := addr' :: rest }.setAddr addr'
    have wake : next deviceScope nb = next deviceScope turned := by
      have going : nb.goOn = (true, turned) := by
        rw [goOn, if_pos spent, if_pos ⟨all, listed⟩, at_]
      have still : turned.goOn = (true, turned) := if_neg (by simp [turned, setAddr])
      rw [next, next, going, still]
    obtain ⟨scope, call⟩ := next_of_more deviceScope turned rfl
    have later : ∃ addrs : List SockaddrIn6,
        addrs.map (·.sin6Addr) = rest.map (·.sin6Addr) ∧
          Yields (next deviceScope) (next deviceScope turned).2 addrs := by
      rw [call]
      exact ih _ (decide_eq_true rfl) all listed rfl
    obtain ⟨addrs, same, yields⟩ := later
    refine ⟨⟨addr'.sin6Addr, scope⟩ :: addrs, ?_, .cons ?_ ?_⟩
    · rw [map_cons, map_cons, same]
    · rw [wake, call]
      rfl
    · rw [wake]
      exact yields

/-- The run of a block that `resolve` makes -/
theorem yields_resolved (deviceScope : U32) (first : SockaddrIn6) (rest : List SockaddrIn6)
    (bits : Int) :
    ∃ addrs : List SockaddrIn6, (∀ b, b ∈ addrs.map (·.sin6Addr) ↔
        first.sin6Addr.SharesBits (prefixLength bits) b ∨ b ∈ rest.map (·.sin6Addr)) ∧
      Yields (next deviceScope) ({ (new true).setAddr first with
        resolvedaddrs := first :: rest, currentAddr := first :: rest }.applyNetmask bits)
        addrs := by
  let nb : NetBlockIPv6Netmask := { new true with
    resolvedaddrs := first :: rest, currentAddr := first :: rest }
  obtain ⟨own, cur, -, mem, passes⟩ := passes_ofAddr deviceScope nb first bits
  obtain ⟨-, -, -, all, listed, at_⟩ := ofAddr_fields nb first bits
  have some_ : (nb.ofAddr first bits).resolvedaddrs ≠ [] := by
    rw [listed]
    exact cons_ne_nil _ _
  let spent : NetBlockIPv6Netmask := { nb.ofAddr first bits with exhausted := true, cur := cur }
  have goesOn : ∃ addrs : List SockaddrIn6, addrs.map (·.sin6Addr) = rest.map (·.sin6Addr) ∧
      Yields (next deviceScope) spent addrs :=
    yields_exhausted deviceScope spent rfl all some_ at_
  obtain ⟨others, same, yields⟩ := goesOn
  refine ⟨own ++ others, ?_, passes.yields yields⟩
  intro b
  rw [map_append, mem_append, same, mem]

end NetBlockIPv6Netmask

/-! ## What the run of a resolved name covers -/

/-- The second address is in the block of the first one. -/
def InBlock (bits : Int) : HostAddr → HostAddr → Prop
  | .inet a, .inet b => SamePrefix (keptBits bits) a b
  | .inet6 a, .inet6 b => a.SharesBits (prefixLength bits) b
  | _, _ => False

theorem InBlock.symm {bits : Int} {a b : HostAddr} (inside : InBlock bits a b) :
    InBlock bits b a := by
  match a, b, inside with
  | .inet _, .inet _, same => exact fun i kept => (same i kept).symm
  | .inet6 _, .inet6 _, same => exact fun i kept => (same i kept).symm

theorem InBlock.trans {bits : Int} {a b c : HostAddr} (first : InBlock bits a b)
    (second : InBlock bits b c) : InBlock bits a c := by
  match a, b, c, first, second with
  | .inet _, .inet _, .inet _, same, same' =>
    exact fun i kept => (same i kept).trans (same' i kept)
  | .inet6 _, .inet6 _, .inet6 _, same, same' =>
    exact fun i kept => (same i kept).trans (same' i kept)

namespace NetBlockHostname

/-- The block of a name returns the block of the first address, and then the other ones. -/
theorem resolve_runs (deviceScope : U32) {af : Family} (bits : Int)
    {ssv : List SockaddrStorage} {first : SockaddrStorage} {rest : List SockaddrStorage}
    (resolved : ssv.filter (·.family = af) = first :: rest) :
    ∃ nb addrs, resolve ⟨af, bits, true⟩ ssv = some nb ∧
      Yields (ResolvedBlock.next deviceScope) nb addrs ∧
      ∀ b, b ∈ addrs.map SockaddrStorage.hostAddr ↔
        InBlock bits first.hostAddr b ∨ b ∈ rest.map SockaddrStorage.hostAddr := by
  have scanned : scannedAddrs ⟨af, bits, true⟩ ssv [] = first :: rest := by
    rw [scannedAddrs_eq rfl, nil_append, resolved]
  have family : ∀ ss ∈ first :: rest, ss.family = af := by
    intro ss mem
    rw [← resolved, mem_filter, decide_eq_true_eq] at mem
    exact mem.2
  cases af with
  | inet =>
    obtain ⟨addrs, same⟩ := SockaddrStorage.exists_inet family
    cases addrs with
    | nil => cases same
    | cons addr others =>
      obtain ⟨rfl, rfl⟩ := List.cons.inj same
      obtain ⟨addrs, mem, yields⟩ := NetBlockIPv4Ranges.yields_resolved addr others bits
      have casts := SockaddrStorage.filterMap_sin (addr :: others)
      rw [map_cons] at casts
      refine ⟨.ipv4Ranges _, addrs.map .inet, ?_, yields.map (fun nb => rfl), ?_⟩
      · rw [resolve]
        simp only [scanned, List.head?_cons, casts]
      · intro b
        cases b with
        | inet b => simp [SockaddrStorage.hostAddr, InBlock, mem]
        | inet6 b => simp [SockaddrStorage.hostAddr, InBlock]
  | inet6 =>
    obtain ⟨addrs, same⟩ := SockaddrStorage.exists_inet6 family
    cases addrs with
    | nil => cases same
    | cons addr others =>
      obtain ⟨rfl, rfl⟩ := List.cons.inj same
      obtain ⟨addrs, mem, yields⟩ :=
        NetBlockIPv6Netmask.yields_resolved deviceScope addr others bits
      have casts := SockaddrStorage.filterMap_sin6 (addr :: others)
      rw [map_cons] at casts
      refine ⟨.ipv6Netmask _, addrs.map .inet6, ?_, yields.map (fun nb => rfl), ?_⟩
      · rw [resolve]
        simp only [scanned, List.head?_cons, casts]
      · intro b
        cases b with
        | inet b => simp [SockaddrStorage.hostAddr, InBlock]
        | inet6 b =>
          have inner := mem b
          simp only [mem_map] at inner
          simp [SockaddrStorage.hostAddr, InBlock, inner]

/-- With `--resolve-all`, every address of the block of every resolved address is returned by some
call of `next`. -/
def Covers (deviceScope : U32) (af : Family) (bits : Int) (ssv : List SockaddrStorage) : Prop :=
  ∃ nb, resolve ⟨af, bits, true⟩ ssv = some nb ∧
    ∀ ss ∈ ssv, ss.family = af → ∀ addr, InBlock bits ss.hostAddr addr →
      ∃ k ss', nthCall (ResolvedBlock.next deviceScope) k nb = some ss' ∧ ss'.hostAddr = addr

/-- What is covered are the first block and the other addresses. -/
theorem covers_iff_listed (deviceScope : U32) {af : Family} (bits : Int)
    {ssv : List SockaddrStorage} {first : SockaddrStorage} {rest : List SockaddrStorage}
    (resolved : ssv.filter (·.family = af) = first :: rest) :
    Covers deviceScope af bits ssv ↔
      ∀ ss ∈ first :: rest, ∀ addr, InBlock bits ss.hostAddr addr →
        InBlock bits first.hostAddr addr ∨ addr ∈ rest.map SockaddrStorage.hostAddr := by
  obtain ⟨nb, addrs, made, yields, mem⟩ := resolve_runs deviceScope bits resolved
  have returned : ∀ addr,
      (∃ k ss', nthCall (ResolvedBlock.next deviceScope) k nb = some ss' ∧ ss'.hostAddr = addr) ↔
        InBlock bits first.hostAddr addr ∨ addr ∈ rest.map SockaddrStorage.hostAddr := by
    intro addr
    rw [← mem, mem_map, exists_comm]
    refine exists_congr fun ss => ?_
    rw [exists_and_right, yields.exists_nthCall]
  have listed : ∀ ss, ss ∈ first :: rest ↔ ss ∈ ssv ∧ ss.family = af := by
    intro ss
    rw [← resolved, mem_filter, decide_eq_true_eq]
  constructor
  · rintro ⟨nb', made', all⟩ ss at_ss addr inside
    obtain rfl : nb = nb' := Option.some.inj (made.symm.trans made')
    obtain ⟨mem, family⟩ := (listed ss).mp at_ss
    exact (returned addr).mp (all ss mem family addr inside)
  · intro all
    refine ⟨nb, made, fun ss mem family addr inside => ?_⟩
    exact (returned addr).mpr (all ss ((listed ss).mpr ⟨mem, family⟩) addr inside)

/-- Every block is covered exactly if each address but the first is in the block of the first one,
or has only resolved addresses in its own. -/
theorem covers_iff (deviceScope : U32) (af : Family) (bits : Int) (ssv : List SockaddrStorage)
    (first : SockaddrStorage) (rest : List SockaddrStorage)
    (resolved : ssv.filter (·.family = af) = first :: rest) :
    Covers deviceScope af bits ssv ↔
      ∀ ss ∈ rest, InBlock bits first.hostAddr ss.hostAddr ∨
        ∀ addr, InBlock bits ss.hostAddr addr →
          addr ∈ rest.map SockaddrStorage.hostAddr := by
  rw [covers_iff_listed deviceScope bits resolved]
  constructor
  · intro all ss mem
    by_cases same : InBlock bits first.hostAddr ss.hostAddr
    · exact .inl same
    · refine .inr fun addr inside => ?_
      rcases all ss (mem_cons_of_mem _ mem) addr inside with near | listed
      · exact absurd (near.trans inside.symm) same
      · exact listed
  · intro each ss mem addr inside
    rcases mem_cons.mp mem with rfl | mem
    · exact .inl inside
    · rcases each ss mem with same | whole
      · exact .inl (same.trans inside)
      · exact .inr (whole addr inside)

def twoNetworks : List SockaddrStorage := [.inet 0xc0000201, .inet 0xc6336401]

theorem covers_iff_twoNetworks :
    Covers 0 .inet 24 twoNetworks ↔
      ∀ ss ∈ [SockaddrStorage.inet 0xc6336401],
        InBlock 24 (.inet 0xc0000201) ss.hostAddr ∨
          ∀ addr, InBlock 24 ss.hostAddr addr →
            addr ∈ [SockaddrStorage.inet 0xc6336401].map SockaddrStorage.hostAddr :=
  covers_iff 0 .inet 24 twoNetworks (.inet 0xc0000201) [.inet 0xc6336401] rfl

/-- The rest of the second network is not covered: 198.51.100.2 -/
theorem second_network_lost : ¬ Covers 0 .inet 24 twoNetworks := by
  have resolved : twoNetworks.filter (·.family = .inet) =
      .inet 0xc0000201 :: [.inet 0xc6336401] := rfl
  rw [covers_iff_listed 0 24 resolved]
  intro all
  have neighbour : InBlock 24 (.inet 0xc6336401) (.inet 0xc6336402) := by
    show ∀ i < 24, (0xc6336401 : U32).getMsbD i = (0xc6336402 : U32).getMsbD i
    decide
  rcases all (.inet 0xc6336401) (by simp) (.inet 0xc6336402) neighbour with near | listed
  · have first : (0xc0000201 : U32).getMsbD 5 = (0xc6336402 : U32).getMsbD 5 := near 5 (by decide)
    exact absurd first (by decide)
  · exact absurd listed (by decide)

end NetBlockHostname

end Nmap.Addrset
