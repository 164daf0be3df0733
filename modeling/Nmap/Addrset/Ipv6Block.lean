import Nmap.Base.BigEndian
import Nmap.Base.Yields
import Nmap.Addrset.RangeString
import Nmap.Addrset.Words

/-!
# Blocks of IPv6 addresses (`NetBlock.cc`)

`NetBlockIPv6Netmask` counts from the first address of a block to the last one, and that is what
`next` returns. The text of the block is another matter: the netmask that `str` recovers from the
two ends is always empty (`enumerates_and_reports_iff`).
-/

namespace Nmap.Addrset

open Nmap.Base Nmap.Base.BigEndian List

/-! ## Addresses -/

structure In6Addr where
  s6Addr : List UInt8
  length_eq : s6Addr.length = 16
  deriving DecidableEq

structure SockaddrIn6 where
  sin6Addr : In6Addr
  sin6ScopeId : U32
  deriving DecidableEq

namespace In6Addr

def all (b : UInt8) : In6Addr := ⟨List.replicate 16 b, length_replicate⟩

def number (a : In6Addr) : Nat := value a.s6Addr

/-- Two addresses share their first bits. -/
def SharesBits (bits : Nat) (a b : In6Addr) : Prop :=
  ∀ i < bits, bitAt a.s6Addr i = bitAt b.s6Addr i

theorem number_inj {a b : In6Addr} : a.number = b.number ↔ a = b := by
  refine ⟨fun same => ?_, congrArg number⟩
  have bytes := eq_of_value (a.length_eq.trans b.length_eq.symm) same
  cases a
  cases b
  cases bytes
  rfl

/-- The loop of `next` that increments `cur` -/
def increment (a : In6Addr) : In6Addr :=
  ⟨(BigEndian.increment a.s6Addr).1, (length_increment _).trans a.length_eq⟩

end In6Addr

/-- What the loop of `make_ipv6_netmask` writes, with so many bytes left -/
def maskBytes : Nat → Nat → List UInt8
  | 0, _ => []
  | left + 1, bits =>
    if bits > 8 then 0xFF :: maskBytes left (bits - 8)
    else UInt8.ofNat (0xFF <<< (8 - bits)) :: List.replicate left 0

theorem length_maskBytes (left bits : Nat) : (maskBytes left bits).length = left := by
  induction left generalizing bits with
  | zero => rfl
  | succ left ih =>
    rw [maskBytes]
    split
    · rw [length_cons, ih]
    · rw [length_cons, length_replicate]

def makeIpv6Netmask (bits : Int) : In6Addr :=
  let bits := if bits < 0 then 0 else if bits > 128 then 128 else bits
  if bits = 0 then .all 0 else ⟨maskBytes 16 bits.toNat, length_maskBytes _ _⟩

/-- `ipv6_or_mask`: "a = (a & mask) | (b & ~mask)" -/
def ipv6OrMask (a mask b : In6Addr) : In6Addr where
  s6Addr := List.zipWith (· ||| ·) (List.zipWith (· &&& ·) a.s6Addr mask.s6Addr)
    (List.zipWith (fun b mask => b &&& ~~~mask) b.s6Addr mask.s6Addr)
  length_eq := by simp [a.length_eq, mask.length_eq, b.length_eq]

/-- `recover_ipv6_netmask`: "a = a & ~b" -/
def recoverIpv6Netmask (a b : In6Addr) : In6Addr where
  s6Addr := List.zipWith (fun a b => a &&& ~~~b) a.s6Addr b.s6Addr
  length_eq := by simp [a.length_eq, b.length_eq]

def countIpv6Bits (a : In6Addr) : Nat :=
  a.s6Addr.foldl (fun n b => (List.range 8).foldl (fun n e =>
    let mask := (0x80 : UInt8) >>> UInt8.ofNat e
    if b &&& mask ≠ 0 then n + 1 else n) n) 0

/-! ## Blocks -/

/-- `NetBlockIPv6Netmask`, with the fields of `NetBlock` that it reads -/
structure NetBlockIPv6Netmask where
  exhausted : Bool
  addr : SockaddrIn6
  start : In6Addr
  cur : In6Addr
  end_ : In6Addr
  resolveAll : Bool
  resolvedaddrs : List SockaddrIn6
  /-- the iterator into `resolvedaddrs`: the addresses from it on -/
  currentAddr : List SockaddrIn6

namespace NetBlockIPv6Netmask

/-- `NetBlockIPv6Netmask`, the constructor -/
def new (resolveAll : Bool) : NetBlockIPv6Netmask where
  exhausted := false
  addr := ⟨.all 0, 0⟩
  start := .all 0
  cur := .all 0
  end_ := .all 0
  resolveAll := resolveAll
  resolvedaddrs := []
  currentAddr := []

def setAddr (nb : NetBlockIPv6Netmask) (addr : SockaddrIn6) : NetBlockIPv6Netmask :=
  { nb with
    exhausted := false
    addr := addr
    start := addr.sin6Addr
    cur := addr.sin6Addr
    end_ := addr.sin6Addr }

def applyNetmask (nb : NetBlockIPv6Netmask) (bits : Int) : NetBlockIPv6Netmask :=
  if bits > 128 then nb
  else
    let mask := makeIpv6Netmask (if bits < 0 then 128 else bits)
    let start := ipv6OrMask nb.start mask (.all 0)
    { nb with
      exhausted := false
      start := start
      end_ := ipv6OrMask nb.end_ mask (.all 0xff)
      cur := start }

/-- The first part of `next`: where the block is exhausted it goes on with the next of the resolved
addresses, if there is one. -/
def goOn (nb : NetBlockIPv6Netmask) : Bool × NetBlockIPv6Netmask :=
  if nb.exhausted = true then
    if nb.resolveAll = true ∧ nb.resolvedaddrs ≠ [] then
      match nb.currentAddr with
      | [] => (false, nb)
      | [_] => (false, { nb with currentAddr := [] })
      | _ :: addr :: rest => (true, { nb with currentAddr := addr :: rest }.setAddr addr)
    else (false, nb)
  else (true, nb)

/-- `next`. The scope is that of the device where the address has none. -/
def next (deviceScope : U32) (nb : NetBlockIPv6Netmask) :
    Option SockaddrIn6 × NetBlockIPv6Netmask :=
  let (more, nb) := nb.goOn
  if more = true then
    (some ⟨nb.cur, if nb.addr.sin6ScopeId ≠ 0 then nb.addr.sin6ScopeId else deviceScope⟩,
      { nb with
        exhausted := if nb.cur = nb.end_ then true else nb.exhausted
        cur := nb.cur.increment })
  else (none, nb)

/-- `str`. `inet_ntop_ez` is that of the system. -/
def str (inetNtop : SockaddrIn6 → List Char) (nb : NetBlockIPv6Netmask) : List Char :=
  inetNtop nb.addr ++ '/' :: decimal (countIpv6Bits (recoverIpv6Netmask nb.start nb.end_))

end NetBlockIPv6Netmask

/-! ## Bits of the addresses -/

section Bits

variable {a b mask : In6Addr} {i : Nat}

theorem bitAt_all (i : Nat) (inside : i < 128) (b : Bool) :
    bitAt (In6Addr.all (if b then 0xff else 0)).s6Addr i = b := by
  have each : ∀ i < 128, ∀ b, bitAt (In6Addr.all (if b then 0xff else 0)).s6Addr i = b := by
    decide
  exact each i inside b

theorem bitAt_maskBytes {left bits : Nat} (short : bits ≤ 8 * left) (inside : i < 8 * left) :
    bitAt (maskBytes left bits) i = decide (i < bits) := by
  induction left generalizing bits i with
  | zero => omega
  | succ left ih =>
    have byte : ∀ bits ≤ 8, ∀ i < 8,
        (UInt8.ofNat (0xFF <<< (8 - bits))).toNat.testBit (7 - i) = decide (i < bits) := by
      decide
    rw [maskBytes]
    rcases Nat.lt_or_ge i 8 with first | later
    · split
      · rw [bitAt_cons_of_lt _ _ first]
        have full := byte 8 (by decide) i first
        rw [decide_eq_true (show i < bits by omega), ← decide_eq_true first]
        exact full
      · rw [bitAt_cons_of_lt _ _ first]
        exact byte bits (by omega) i first
    · obtain ⟨i, rfl⟩ := Nat.exists_eq_add_of_le' later
      split
      · rw [bitAt_cons_add, ih (by omega) (by omega)]
        exact decide_eq_decide.mpr (by omega)
      · rw [bitAt_cons_add, decide_eq_false (by omega), bitAt_eq_getElem (by simp; omega)]
        simp

theorem bitAt_makeIpv6Netmask {bits : Int} (range : 0 ≤ bits ∧ bits ≤ 128) (inside : i < 128) :
    bitAt (makeIpv6Netmask bits).s6Addr i = decide ((i : Int) < bits) := by
  have clamped : (if bits < 0 then 0 else if bits > 128 then 128 else bits) = bits := by
    rw [if_neg (by omega), if_neg (by omega)]
  simp only [makeIpv6Netmask, clamped]
  by_cases zero : bits = 0
  · subst zero
    rw [if_pos rfl, decide_eq_false (by omega)]
    exact bitAt_all i inside false
  · rw [if_neg zero]
    show bitAt (maskBytes 16 bits.toNat) i = _
    rw [bitAt_maskBytes (by omega) (by omega)]
    exact decide_eq_decide.mpr (by omega)

theorem testBit_andNot (x y : UInt8) {j : Nat} (inside : j < 8) :
    (x &&& ~~~y).toNat.testBit j = (x.toNat.testBit j && !y.toNat.testBit j) := by
  have not_ : (~~~y).toNat = 2 ^ 8 - (y.toNat + 1) := by
    rw [UInt8.toNat_not]
    have bound := y.toNat_lt
    simp only [UInt8.size]
    omega
  rw [UInt8.toNat_and, Nat.testBit_and, not_, Nat.testBit_two_pow_sub_succ y.toNat_lt]
  simp [inside]

theorem bitAt_ipv6OrMask (a mask b : In6Addr) (inside : i < 128) :
    bitAt (ipv6OrMask a mask b).s6Addr i =
      if bitAt mask.s6Addr i then bitAt a.s6Addr i else bitAt b.s6Addr i := by
  have sizes := And.intro a.length_eq (And.intro mask.length_eq b.length_eq)
  rw [ipv6OrMask, bitAt_zipWith (g := (· || ·)) (by intros; simp) (by simp [sizes])
      (by simp [sizes]; omega),
    bitAt_zipWith (g := (· && ·)) (by intros; simp) (by simp [sizes]) (by simp [sizes]; omega),
    bitAt_zipWith (g := fun x y => x && !y) (fun x y j => testBit_andNot x y) (by simp [sizes])
      (by simp [sizes]; omega)]
  cases bitAt mask.s6Addr i
  · simp
  · simp

theorem bitAt_recoverIpv6Netmask (a b : In6Addr) (inside : i < 128) :
    bitAt (recoverIpv6Netmask a b).s6Addr i = (bitAt a.s6Addr i && !bitAt b.s6Addr i) := by
  have sizes := And.intro a.length_eq b.length_eq
  rw [recoverIpv6Netmask, bitAt_zipWith (g := fun x y => x && !y) (fun x y j => testBit_andNot x y)
    (by simp [sizes]) (by simp [sizes]; omega)]

end Bits

/-! ## The two ends of a block -/

/-- The length of the prefix that a netmask keeps: all, for one that is missing or too long -/
def prefixLength (bits : Int) : Nat := if bits < 0 ∨ bits > 128 then 128 else bits.toNat

theorem prefixLength_le (bits : Int) : prefixLength bits ≤ 128 := by
  unfold prefixLength
  split <;> omega

namespace NetBlockIPv6Netmask

/-- The block of an address, as `set_addr` and `apply_netmask` make it -/
def ofAddr (nb : NetBlockIPv6Netmask) (addr : SockaddrIn6) (bits : Int) : NetBlockIPv6Netmask :=
  (nb.setAddr addr).applyNetmask bits

/-- Up to the netmask the first and the last address are that of the block, and then zeros or
ones. -/
theorem bitAt_ends (nb : NetBlockIPv6Netmask) (addr : SockaddrIn6) (bits : Int) {i : Nat}
    (inside : i < 128) :
    (bitAt (nb.ofAddr addr bits).start.s6Addr i =
        if i < prefixLength bits then bitAt addr.sin6Addr.s6Addr i else false) ∧
      bitAt (nb.ofAddr addr bits).end_.s6Addr i =
        if i < prefixLength bits then bitAt addr.sin6Addr.s6Addr i else true := by
  by_cases long : bits > 128
  · have kept : i < prefixLength bits := by
      rw [prefixLength, if_pos (.inr long)]
      exact inside
    rw [ofAddr, applyNetmask, if_pos long, if_pos kept, if_pos kept]
    exact ⟨rfl, rfl⟩
  · have range : 0 ≤ (if bits < 0 then 128 else bits) ∧
        (if bits < 0 then 128 else bits) ≤ 128 := by
      split <;> omega
    have kept : ((i : Int) < if bits < 0 then 128 else bits) ↔ i < prefixLength bits := by
      unfold prefixLength
      split <;> split <;> omega
    have mask : bitAt (makeIpv6Netmask (if bits < 0 then 128 else bits)).s6Addr i =
        decide (i < prefixLength bits) :=
      (bitAt_makeIpv6Netmask range inside).trans (decide_eq_decide.mpr kept)
    have zeros : bitAt (In6Addr.all 0).s6Addr i = false := bitAt_all i inside false
    have ones : bitAt (In6Addr.all 0xff).s6Addr i = true := bitAt_all i inside true
    rw [ofAddr, applyNetmask, if_neg long]
    simp only [bitAt_ipv6OrMask _ _ _ inside, mask, zeros, ones, decide_eq_true_eq]
    exact ⟨rfl, rfl⟩

/-- What `apply_netmask` does not change, and where the count begins -/
theorem ofAddr_fields (nb : NetBlockIPv6Netmask) (addr : SockaddrIn6) (bits : Int) :
    (nb.ofAddr addr bits).exhausted = false ∧
      (nb.ofAddr addr bits).cur = (nb.ofAddr addr bits).start ∧
      (nb.ofAddr addr bits).addr = addr ∧
      (nb.ofAddr addr bits).resolveAll = nb.resolveAll ∧
      (nb.ofAddr addr bits).resolvedaddrs = nb.resolvedaddrs ∧
      (nb.ofAddr addr bits).currentAddr = nb.currentAddr := by
  rw [ofAddr, applyNetmask]
  split
  · exact ⟨rfl, rfl, rfl, rfl, rfl, rfl⟩
  · exact ⟨rfl, rfl, rfl, rfl, rfl, rfl⟩

/-- The first address of the block, as a number, and how many follow -/
theorem number_ends (nb : NetBlockIPv6Netmask) (addr : SockaddrIn6) (bits : Int) :
    (nb.ofAddr addr bits).start.number =
        2 ^ (128 - prefixLength bits) *
          (addr.sin6Addr.number / 2 ^ (128 - prefixLength bits)) ∧
      (nb.ofAddr addr bits).end_.number =
        (nb.ofAddr addr bits).start.number + (2 ^ (128 - prefixLength bits) - 1) := by
  have le := prefixLength_le bits
  -- an address that goes on, behind the netmask, with the same bit everywhere
  have number : ∀ (a : In6Addr) (b : Bool),
      (∀ i < 128, bitAt a.s6Addr i =
        if i < prefixLength bits then bitAt addr.sin6Addr.s6Addr i else b) →
      a.number = 2 ^ (128 - prefixLength bits) *
          (addr.sin6Addr.number / 2 ^ (128 - prefixLength bits)) +
        if b then 2 ^ (128 - prefixLength bits) - 1 else 0 := by
    intro a b bits_
    have length := a.length_eq
    have high := (same_front_iff (k := prefixLength bits)
      (length.trans addr.sin6Addr.length_eq.symm) (by omega)).mp fun i inside => by
        rw [bits_ i (by omega), if_pos inside]
    have back : ∀ i, prefixLength bits ≤ i → i < 8 * a.s6Addr.length →
        bitAt a.s6Addr i = b := fun i behind inside => by
      rw [bits_ i (by omega), if_neg (by omega)]
    have low := value_mod (by omega) back
    rw [length] at high low
    have whole := Nat.div_add_mod a.number (2 ^ (128 - prefixLength bits))
    rw [show a.number % 2 ^ (128 - prefixLength bits) = _ from low,
      show a.number / 2 ^ (128 - prefixLength bits) = _ from high] at whole
    exact whole.symm
  have first := number (nb.ofAddr addr bits).start false fun i inside =>
    (bitAt_ends nb addr bits inside).1
  have last := number (nb.ofAddr addr bits).end_ true fun i inside =>
    (bitAt_ends nb addr bits inside).2
  refine ⟨first, ?_⟩
  rw [first, last]
  rfl

/-! ## The calls of `next` -/

theorem next_of_more (deviceScope : U32) (nb : NetBlockIPv6Netmask)
    (more : nb.exhausted = false) :
    ∃ scope, next deviceScope nb = (some ⟨nb.cur, scope⟩,
      { nb with exhausted := decide (nb.cur = nb.end_), cur := nb.cur.increment }) := by
  refine ⟨if nb.addr.sin6ScopeId ≠ 0 then nb.addr.sin6ScopeId else deviceScope, ?_⟩
  rw [next, goOn, if_neg (by simp [more])]
  by_cases last : nb.cur = nb.end_
  · simp [last]
  · simp [last, more]

/-- Before the block is exhausted, the calls return the addresses up to the last one. -/
theorem passes_to_end (deviceScope : U32) (left : Nat) {nb : NetBlockIPv6Netmask}
    (more : nb.exhausted = false) (upTo : nb.end_.number = nb.cur.number + left) :
    ∃ addrs : List SockaddrIn6, ∃ cur : In6Addr,
      addrs.map (·.sin6Addr.number) = List.range' nb.cur.number (left + 1) ∧
        Passes (next deviceScope) nb addrs { nb with exhausted := true, cur := cur } := by
  induction left generalizing nb with
  | zero =>
    obtain ⟨scope, call⟩ := next_of_more deviceScope nb more
    have last : nb.cur = nb.end_ := In6Addr.number_inj.mp upTo.symm
    refine ⟨[⟨nb.cur, scope⟩], nb.cur.increment, by simp, by rw [call], ?_⟩
    rw [call, last, decide_eq_true rfl]
    rfl
  | succ left ih =>
    obtain ⟨scope, call⟩ := next_of_more deviceScope nb more
    have before : nb.cur ≠ nb.end_ := by
      intro same
      rw [same] at upTo
      omega
    have counted : nb.cur.increment.number = nb.cur.number + 1 :=
      value_increment_of_lt (nb.cur.length_eq.trans nb.end_.length_eq.symm)
        (show nb.cur.number < nb.end_.number by omega)
    let counting : NetBlockIPv6Netmask := { nb with cur := nb.cur.increment }
    have upTo' : counting.end_.number = counting.cur.number + left := by
      show nb.end_.number = nb.cur.increment.number + left
      omega
    have rest : ∃ addrs : List SockaddrIn6, ∃ cur : In6Addr,
        addrs.map (·.sin6Addr.number) = List.range' counting.cur.number (left + 1) ∧
          Passes (next deviceScope) counting addrs
            { counting with exhausted := true, cur := cur } := ih more upTo'
    obtain ⟨addrs, cur, numbers, passes⟩ := rest
    refine ⟨⟨nb.cur, scope⟩ :: addrs, cur, ?_, by rw [call], ?_⟩
    · rw [map_cons, numbers, List.range'_succ (n := left + 1)]
      show nb.cur.number :: List.range' nb.cur.increment.number _ = _
      rw [counted]
    · rw [call, decide_eq_false before, ← more]
      exact passes

theorem between_iff (nb : NetBlockIPv6Netmask) {addr : SockaddrIn6} (bits : Int) (b : In6Addr) :
    ((nb.ofAddr addr bits).start.number ≤ b.number ∧
        b.number ≤ (nb.ofAddr addr bits).end_.number) ↔
      addr.sin6Addr.SharesBits (prefixLength bits) b := by
  obtain ⟨first, last⟩ := number_ends nb addr bits
  have le := prefixLength_le bits
  have length := addr.sin6Addr.length_eq
  have shares := same_front_iff (k := prefixLength bits) (length.trans b.length_eq.symm) (by omega)
  rw [length] at shares
  have positive := Nat.two_pow_pos (128 - prefixLength bits)
  rw [In6Addr.SharesBits, shares, last, first]
  show _ ↔ addr.sin6Addr.number / 2 ^ (128 - prefixLength bits) =
    b.number / 2 ^ (128 - prefixLength bits)
  generalize 2 ^ (128 - prefixLength bits) = size at positive
  rw [eq_comm, Nat.div_eq_iff positive]
  generalize addr.sin6Addr.number / size = q
  rw [Nat.mul_comm, Nat.add_sub_assoc positive]

/-- The calls for a block that is not exhausted return its addresses, and end where it is. -/
theorem passes_ofAddr (deviceScope : U32) (nb : NetBlockIPv6Netmask) (addr : SockaddrIn6)
    (bits : Int) :
    ∃ addrs : List SockaddrIn6, ∃ cur : In6Addr,
      addrs.Pairwise (fun a b => a.sin6Addr.number < b.sin6Addr.number) ∧
        (∀ b, b ∈ addrs.map SockaddrIn6.sin6Addr ↔
          addr.sin6Addr.SharesBits (prefixLength bits) b) ∧
        Passes (next deviceScope) (nb.ofAddr addr bits) addrs
          { nb.ofAddr addr bits with exhausted := true, cur := cur } := by
  obtain ⟨more, begun, -⟩ := ofAddr_fields nb addr bits
  have last := (number_ends nb addr bits).2
  rw [← begun] at last
  obtain ⟨addrs, cur, numbers, passes⟩ := passes_to_end deviceScope _ more last
  refine ⟨addrs, cur, ?_, ?_, passes⟩
  · have increasing := pairwise_lt_range' (s := (nb.ofAddr addr bits).cur.number)
      (n := 2 ^ (128 - prefixLength bits) - 1 + 1) 1
    rwa [← numbers, pairwise_map] at increasing
  · intro b
    rw [← between_iff nb bits b, ← begun]
    have mem : b.number ∈ addrs.map (·.sin6Addr.number) ↔
        (nb.ofAddr addr bits).cur.number ≤ b.number ∧
          b.number ≤ (nb.ofAddr addr bits).end_.number := by
      rw [numbers, mem_range'_1]
      omega
    rw [← mem, mem_map, mem_map]
    constructor
    · rintro ⟨a, at_a, rfl⟩
      exact ⟨a, at_a, rfl⟩
    · rintro ⟨a, at_a, same⟩
      exact ⟨a, at_a, In6Addr.number_inj.mp same⟩

theorem yields_nil (deviceScope : U32) {nb : NetBlockIPv6Netmask} (spent : nb.exhausted = true)
    (single : nb.resolvedaddrs = []) : Yields (next deviceScope) nb [] := by
  refine .of_dead (fun nb : NetBlockIPv6Netmask => nb.exhausted = true ∧ nb.resolvedaddrs = []) ?_
    ⟨spent, single⟩
  rintro nb ⟨spent, single⟩
  have still : nb.goOn = (false, nb) := by
    rw [goOn, if_pos spent, if_neg fun more => more.2 single]
  rw [next, still]
  exact ⟨rfl, spent, single⟩

/-! ## The text -/

theorem count_recovered (nb : NetBlockIPv6Netmask) (addr : SockaddrIn6) (bits : Int) :
    countIpv6Bits (recoverIpv6Netmask (nb.ofAddr addr bits).start (nb.ofAddr addr bits).end_) =
      0 := by
  have length := (recoverIpv6Netmask (nb.ofAddr addr bits).start
    (nb.ofAddr addr bits).end_).length_eq
  have zero := eq_zero_of_bits (recoverIpv6Netmask (nb.ofAddr addr bits).start
    (nb.ofAddr addr bits).end_).s6Addr fun i inside => by
      have inside' : i < 128 := by omega
      obtain ⟨first, last⟩ := bitAt_ends nb addr bits inside'
      rw [bitAt_recoverIpv6Netmask _ _ inside', first, last]
      split
      · exact Bool.and_not_self _
      · rfl
  rw [countIpv6Bits, zero, length]
  decide

theorem decimal_inj {m n : Nat} (same : decimal m = decimal n) : m = n := by
  have value := congrArg (Nat.ofDigitChars 10 · 0) same
  rwa [decimal, decimal, Nat.ofDigitChars_ten_toDigits, Nat.ofDigitChars_ten_toDigits] at value

/-- A new block returns each address of its prefix once, in order, and then nothing; and its text
is that of the address with the length of the prefix. -/
def EnumeratesAndReports (deviceScope : U32) (inetNtop : SockaddrIn6 → List Char)
    (resolveAll : Bool) (addr : SockaddrIn6) (bits : Int) : Prop :=
  (∃ addrs : List SockaddrIn6,
    addrs.Pairwise (fun a b => a.sin6Addr.number < b.sin6Addr.number) ∧
      (∀ b, b ∈ addrs.map SockaddrIn6.sin6Addr ↔
        addr.sin6Addr.SharesBits (prefixLength bits) b) ∧
      Yields (next deviceScope) ((new resolveAll).ofAddr addr bits) addrs) ∧
    ((new resolveAll).ofAddr addr bits).str inetNtop =
      inetNtop addr ++ '/' :: decimal (prefixLength bits)

theorem str_ofAddr (inetNtop : SockaddrIn6 → List Char) (nb : NetBlockIPv6Netmask)
    (addr : SockaddrIn6) (bits : Int) :
    (nb.ofAddr addr bits).str inetNtop = inetNtop addr ++ '/' :: decimal 0 := by
  rw [str, (ofAddr_fields nb addr bits).2.2.1, count_recovered nb addr bits]

/-- Only where the prefix is empty does the text report its length. -/
theorem enumerates_and_reports_iff (deviceScope : U32) (inetNtop : SockaddrIn6 → List Char)
    (resolveAll : Bool) (addr : SockaddrIn6) (bits : Int) :
    EnumeratesAndReports deviceScope inetNtop resolveAll addr bits ↔ bits = 0 := by
  obtain ⟨addrs, cur, increasing, mem, passes⟩ :=
    passes_ofAddr deviceScope (new resolveAll) addr bits
  have single : ((new resolveAll).ofAddr addr bits).resolvedaddrs = [] :=
    (ofAddr_fields _ addr bits).2.2.2.2.1
  have yields := passes.yields (yields_nil deviceScope rfl single)
  rw [append_nil] at yields
  rw [EnumeratesAndReports, and_iff_right ⟨addrs, increasing, mem, yields⟩,
    str_ofAddr inetNtop _ addr bits, append_cancel_left_eq, List.cons.injEq,
    and_iff_right rfl]
  constructor
  · intro same
    have zero := decimal_inj same
    unfold prefixLength at zero
    split at zero <;> omega
  · rintro rfl
    rfl

def documentationAddr : SockaddrIn6 where
  sin6Addr := ⟨[0x20, 0x01, 0x0d, 0xb8, 0, 0, 0, 0, 0, 0, 0, 0, 0, 0, 0, 1], rfl⟩
  sin6ScopeId := 0

/-- The text of 2001:db8::1/64 is "2001:db8::1/0". -/
theorem slash64_reported_as_slash0 :
    ¬ EnumeratesAndReports 0 (fun _ => "2001:db8::1".toList) false documentationAddr 64 := by
  intro both
  have text := both.2
  rw [str_ofAddr] at text
  exact absurd text (by decide)

end NetBlockIPv6Netmask

end Nmap.Addrset
