import Nmap.Packet.Checksum

/-!
# Building packets (`tcpip.cc`)

TCP, UDP and ICMP packets over IPv4 and IPv6. A segment is built with a checksum of zero, then
the checksum is stored, and the segment is copied behind an IP header.
-/

namespace Nmap.Packet

open Nmap.Base OnesComplement List

/-- The machine, and the options of the command line that the builders read -/
structure Settings where
  order : ByteOrder
  badsum : Bool
  ipoptFirsthop : Nat
  ipoptLasthop : Nat

/-- What `get_random_bytes` and `get_random_uint` return -/
structure Random where
  bytes : UInt32
  uint : Nat

/-- A packet that was built, in two parts of its buffer -/
structure Built where
  header : Bytes
  data : Bytes

/-- `const char *data, u16 datalen`. Behind a null pointer there is what the memory for the data
happens to hold. -/
structure Payload where
  null : Bool
  bytes : Bytes
  short : bytes.length < 2 ^ 16

/-! ## IP headers -/

/-- What IPv4 packets are built from -/
structure IpArgs where
  source : InAddr
  victim : InAddr
  ttl : Int
  ipid : UInt16
  tos : UInt8
  df : Bool
  ipopt : Bytes

/-- What IPv6 packets are built from -/
structure Ip6Args where
  source : In6Addr
  victim : In6Addr
  tc : UInt8
  flowlabel : UInt32
  hoplimit : Int

/-- A time to live; -1 asks for a random one. -/
def chooseTtl (r : Random) (ttl : Int) : UInt8 :=
  if ttl = -1 then UInt8.ofNat (r.uint % 23 + 37) else UInt8.ofInt ttl

/-- The destination and the options of a header; with source routing the destination moves to
the last hop. -/
def sourceRoute (o : Settings) (ip : IpArgs) : Bytes × Bytes :=
  if ip.ipopt ≠ [] && o.ipoptFirsthop ≠ 0 && o.ipoptLasthop ≠ 0 then
    let newdst := (List.range 4).map fun i => byteAt ip.ipopt (o.ipoptFirsthop + i)
    (newdst, ip.ipopt.take o.ipoptLasthop ++ ip.victim.toList ++ ip.ipopt.drop (o.ipoptLasthop + 4))
  else (ip.victim.toList, ip.ipopt)

def fillIpRaw (o : Settings) (ip : IpArgs) (packetlen : Nat) (ttl p : UInt8) : Bytes :=
  let (dst, ipopt) := sourceRoute o ip
  let hl := 5 + ip.ipopt.length / 4
  let header := [UInt8.ofNat (4 * 16 + hl % 16), ip.tos] ++ htons packetlen ++
    htons ip.ipid.toNat ++ htons (if ip.df then 0x4000 else 0) ++ [ttl, p] ++ [0, 0] ++
    ip.source.toList ++ dst ++ ipopt
  store16 o.order header 10 (inCksum o.order header)

/-- `build_ip_raw`, with `datalen` passed as a `u16`; `none` is a failed assertion. -/
def buildIpRaw (o : Settings) (r : Random) (ip : IpArgs) (proto : UInt8) (data : Bytes) :
    Option Built :=
  let datalen := data.length % 2 ^ 16
  if ip.ipopt.length % 4 ≠ 0 then none
  else some ⟨fillIpRaw o ip (20 + ip.ipopt.length + datalen) (chooseTtl r ip.ttl) proto,
    data.take datalen⟩

/-- `build_ipv6_raw`, with `datalen` passed as a `u16` -/
def buildIpv6Raw (r : Random) (ip : Ip6Args) (nextheader : UInt8) (data : Bytes) : Built :=
  let datalen := data.length % 2 ^ 16
  let flow := ip.tc.toNat % 16 * 2 ^ 20 + ip.flowlabel.toNat % 2 ^ 20
  ⟨[UInt8.ofNat (6 * 16 + ip.tc.toNat / 16)] ++ (htonl flow).drop 1 ++ htons datalen ++
    [nextheader, chooseTtl r ip.hoplimit] ++ ip.source.toList ++ ip.victim.toList,
    data.take datalen⟩

/-! ## TCP -/

/-- What a TCP segment is built from -/
structure TcpArgs where
  sport : UInt16
  dport : UInt16
  seq : UInt32
  ack : UInt32
  reserved : UInt8
  flags : UInt8
  window : UInt16
  urp : UInt16
  tcpopt : Bytes
  data : Payload

/-- The header of a TCP segment in front of the checksum -/
def tcpFront (r : Random) (tcp : TcpArgs) : Bytes :=
  let seq := if tcp.seq ≠ 0 then tcp.seq else if tcp.flags &&& 2 ≠ 0 then r.bytes else 0
  let off := 5 + tcp.tcpopt.length / 4
  let win := if tcp.window ≠ 0 then tcp.window else 1024
  htons tcp.sport.toNat ++ htons tcp.dport.toNat ++ htonl seq.toNat ++ htonl tcp.ack.toNat ++
    [UInt8.ofNat (off % 16 * 16 + tcp.reserved.toNat % 16), tcp.flags] ++ htons win.toNat

def tcpBack (tcp : TcpArgs) : Bytes := htons tcp.urp.toNat ++ tcp.tcpopt ++ tcp.data.bytes

/-- `build_tcp`; `none` is `fatal`. -/
def buildTcp (r : Random) (tcp : TcpArgs) : Option Bytes :=
  if tcp.tcpopt.length % 4 ≠ 0 then none
  else some (tcpFront r tcp ++ [0, 0] ++ tcpBack tcp)

/-- `build_tcp_raw`; `th_sum` is at offset 16. -/
def buildTcpRaw (o : Settings) (r : Random) (ip : IpArgs) (tcp : TcpArgs) : Option Built :=
  (buildTcp r tcp).bind fun p =>
    let sum := ipv4Cksum o.order o.badsum ip.source ip.victim ipprotoTcp p p.length
    buildIpRaw o r ip ipprotoTcp (store16 o.order p 16 sum)

def buildTcpRawIpv6 (o : Settings) (r : Random) (ip : Ip6Args) (tcp : TcpArgs) : Option Built :=
  (buildTcp r tcp).map fun p =>
    let sum := ipv6Cksum o.order o.badsum ip.source ip.victim ipprotoTcp p p.length
    buildIpv6Raw r ip ipprotoTcp (store16 o.order p 16 sum)

/-! ## UDP -/

/-- What a UDP segment is built from -/
structure UdpArgs where
  sport : UInt16
  dport : UInt16
  data : Payload

/-- The header of a UDP segment in front of the checksum -/
def udpFront (udp : UdpArgs) : Bytes :=
  htons udp.sport.toNat ++ htons udp.dport.toNat ++ htons (8 + udp.data.bytes.length)

def buildUdp (udp : UdpArgs) : Bytes := udpFront udp ++ [0, 0] ++ udp.data.bytes

/-- `build_udp_raw`; `uh_sum` is at offset 6. -/
def buildUdpRaw (o : Settings) (r : Random) (ip : IpArgs) (udp : UdpArgs) : Option Built :=
  let p := buildUdp udp
  let sum := ipv4Cksum o.order o.badsum ip.source ip.victim ipprotoUdp p p.length
  buildIpRaw o r ip ipprotoUdp (store16 o.order p 6 sum)

def buildUdpRawIpv6 (o : Settings) (r : Random) (ip : Ip6Args) (udp : UdpArgs) : Option Built :=
  let p := buildUdp udp
  let sum := ipv6Cksum o.order o.badsum ip.source ip.victim ipprotoUdp p p.length
  some (buildIpv6Raw r ip ipprotoUdp (store16 o.order p 6 sum))

/-! ## ICMP -/

def ipprotoIcmp : UInt8 := 1

def ipprotoIcmpv6 : UInt8 := 58

/-- What ICMP messages are built from -/
structure IcmpArgs where
  seq : UInt16
  id : UInt16
  ptype : UInt8
  pcode : UInt8
  data : Payload

/-- `if (o.badsum) --checksum` -/
def spoilIcmp (badsum : Bool) (sum : Nat) : Nat :=
  if badsum then (sum + 0xFFFF) % 2 ^ 16 else sum

/-- How many zeros follow the header of a type and code; `none` is `fatal`. -/
def icmpZeros (icmp : IcmpArgs) : Option Nat :=
  if icmp.ptype = 8 then some 0
  else if icmp.ptype = 13 && icmp.pcode = 0 then some 12
  else if icmp.ptype = 17 && icmp.pcode = 0 then some 4
  else none

/-- An ICMP message behind the checksum, with room for 1500 bytes behind its header -/
def icmpBack (icmp : IcmpArgs) (zeros : Nat) : Bytes :=
  let data := if icmp.data.null then List.replicate icmp.data.bytes.length 0 else icmp.data.bytes
  htons icmp.id.toNat ++ htons icmp.seq.toNat ++ List.replicate zeros 0 ++ data.take (1500 - zeros)

def buildIcmpRaw (o : Settings) (r : Random) (ip : IpArgs) (icmp : IcmpArgs) : Option Built :=
  (icmpZeros icmp).bind fun zeros =>
    let ping := [icmp.ptype, icmp.pcode] ++ [0, 0] ++ icmpBack icmp zeros
    let sum := spoilIcmp o.badsum (inCksum o.order ping)
    buildIpRaw o r ip ipprotoIcmp (store16 o.order ping 2 sum)

/-- An ICMPv6 message behind the checksum -/
def icmpv6Back (icmp : IcmpArgs) : Bytes :=
  (if icmp.ptype = 128 then htons icmp.id.toNat ++ htons icmp.seq.toNat else []) ++
    if icmp.data.null then [] else icmp.data.bytes

/-- `build_icmpv6_raw`. The checksum is over all of the message, whatever its length. -/
def buildIcmpv6Raw (o : Settings) (r : Random) (ip : Ip6Args) (icmp : IcmpArgs) : Option Built :=
  let packet := [icmp.ptype, icmp.pcode] ++ [0, 0] ++ icmpv6Back icmp
  let sum := ipv6PseudoheaderCksum o.order ip.source ip.victim ipprotoIcmpv6 packet.length packet
  some (buildIpv6Raw r ip ipprotoIcmpv6 (store16 o.order packet 2 (spoilIcmp o.badsum sum)))

/-! ## The builders as one -/

/-- A packet to build: which builder is called, and with what -/
inductive Probe
  | tcp (ip : IpArgs) (args : TcpArgs)
  | tcp6 (ip : Ip6Args) (args : TcpArgs)
  | udp (ip : IpArgs) (args : UdpArgs)
  | udp6 (ip : Ip6Args) (args : UdpArgs)
  | icmp (ip : IpArgs) (args : IcmpArgs)
  | icmp6 (ip : Ip6Args) (args : IcmpArgs)

namespace Probe

def build (o : Settings) (r : Random) : Probe → Option Built
  | .tcp ip args => buildTcpRaw o r ip args
  | .tcp6 ip args => buildTcpRawIpv6 o r ip args
  | .udp ip args => buildUdpRaw o r ip args
  | .udp6 ip args => buildUdpRawIpv6 o r ip args
  | .icmp ip args => buildIcmpRaw o r ip args
  | .icmp6 ip args => buildIcmpv6Raw o r ip args

def proto : Probe → UInt8
  | .tcp _ _ | .tcp6 _ _ => ipprotoTcp
  | .udp _ _ | .udp6 _ _ => ipprotoUdp
  | .icmp _ _ => ipprotoIcmp
  | .icmp6 _ _ => ipprotoIcmpv6

/-- The segment in front of the checksum -/
def front (r : Random) : Probe → Bytes
  | .tcp _ args | .tcp6 _ args => tcpFront r args
  | .udp _ args | .udp6 _ args => udpFront args
  | .icmp _ args | .icmp6 _ args => [args.ptype, args.pcode]

def back : Probe → Bytes
  | .tcp _ args | .tcp6 _ args => tcpBack args
  | .udp _ args | .udp6 _ args => args.data.bytes
  | .icmp _ args => icmpBack args ((icmpZeros args).getD 0)
  | .icmp6 _ args => icmpv6Back args

/-- The pseudo-header for a segment of this length; ICMP over IPv4 has none. -/
def pseudo (len : Nat) : Probe → Bytes
  | .tcp ip _ => pseudo4 ip.source ip.victim ipprotoTcp len
  | .tcp6 ip _ => pseudo6 ip.source ip.victim ipprotoTcp len
  | .udp ip _ => pseudo4 ip.source ip.victim ipprotoUdp len
  | .udp6 ip _ => pseudo6 ip.source ip.victim ipprotoUdp len
  | .icmp _ _ => []
  | .icmp6 ip _ => pseudo6 ip.source ip.victim ipprotoIcmpv6 len

variable (r : Random) (p : Probe)

def blank : Bytes := p.front r ++ [0, 0] ++ p.back

def segmentLength : Nat := (p.blank r).length

def field (segment : Bytes) : Bytes := (segment.drop (p.front r).length).take 2

/-- A receiver accepts a segment whose sum with the pseudo-header is all ones, and a UDP segment
without a checksum. -/
def Accepts (segment : Bytes) : Prop :=
  SumsToOnes (p.pseudo segment.length ++ segment) ∨
    p.proto = ipprotoUdp ∧ p.field r segment = [0, 0]

/-- The packet carries the segment, with a checksum that makes the sum all ones, and is not zero
for UDP; with `--badsum` it is not accepted. -/
def ChecksumRight (badsum : Bool) (packet : Built) : Prop :=
  packet.data.length = p.segmentLength r ∧
    (badsum = false → SumsToOnes (p.pseudo packet.data.length ++ packet.data) ∧
      (p.proto = ipprotoUdp → p.field r packet.data ≠ [0, 0])) ∧
    (badsum = true → ¬ p.Accepts r packet.data)

/-- The segment and its pseudo-header sum to all ones without a checksum, so that the right one
is zero. -/
def SumsToOnesAlready : Prop := SumsToOnes (p.pseudo (p.segmentLength r) ++ p.blank r)

/-! ## What a builder stores -/

theorem length_tcpFront (args : TcpArgs) : (tcpFront r args).length = 16 := by
  simp [tcpFront, length_htons, length_htonl]

theorem front_even : (p.front r).length % 2 = 0 := by
  cases p <;> simp [front, length_tcpFront, udpFront, length_htons]

theorem pseudo_even (len : Nat) : (p.pseudo len).length % 2 = 0 := by
  cases p <;> simp [pseudo, length_pseudo4, length_pseudo6]

theorem pseudo_le (len : Nat) : (p.pseudo len).length ≤ 40 := by
  cases p <;> simp [pseudo, length_pseudo4, length_pseudo6]

/-- The segment as the sums see it, when it fits in a packet -/
def summed (fits : p.segmentLength r < 2 ^ 16) : Summed where
  hdr := p.pseudo (p.segmentLength r)
  pre := p.front r
  post := p.back
  evenHdr := p.pseudo_even _
  evenPre := p.front_even r
  short := by
    have hdr := p.pseudo_le (p.segmentLength r)
    have whole : p.segmentLength r = (p.front r).length + 2 + p.back.length := by
      simp only [segmentLength, blank, length_append, length_cons, length_nil]
    omega

/-- The checksum that a builder computes for a segment that fits -/
def cksum (order : ByteOrder) : Nat :=
  pseudoCksum order (p.pseudo (p.segmentLength r)) p.proto (p.blank r)

theorem store16_blank (order : ByteOrder) (front back : Bytes) (sum : Nat) {off : Nat}
    (here : front.length = off) :
    store16 order (front ++ [0, 0] ++ back) off sum = front ++ bytesOf order sum ++ back := by
  subst here
  simp [store16]

variable {proto : UInt8}

theorem spoilIcmp_eq (badsum : Bool) (other : proto ≠ ipprotoUdp) (sum : Nat) :
    spoilIcmp badsum sum = spoil badsum proto sum := by
  unfold spoilIcmp spoil
  simp [other]

/-- Without a pseudo-header the checksum is that of `in_cksum`. -/
theorem pseudoCksum_nil (order : ByteOrder) (other : proto ≠ ipprotoUdp) (data : Bytes) :
    pseudoCksum order [] proto data = inCksum order data := by
  simp [pseudoCksum, inCksum, ipCksumAdd, words, other]

variable {data : Bytes}

theorem ipv4Cksum_fits (order : ByteOrder) (badsum : Bool) (src dst : InAddr) (proto : UInt8)
    (fits : data.length < 2 ^ 16) :
    ipv4Cksum order badsum src dst proto data data.length =
      spoil badsum proto (pseudoCksum order (pseudo4 src dst proto data.length) proto data) := by
  rw [ipv4Cksum, ipv4PseudoheaderCksum, Nat.mod_eq_of_lt fits, take_length]

theorem ipv6Cksum_fits (order : ByteOrder) (badsum : Bool) (src dst : In6Addr) (proto : UInt8)
    (fits : data.length < 2 ^ 16) :
    ipv6Cksum order badsum src dst proto data data.length =
      spoil badsum proto (pseudoCksum order (pseudo6 src dst proto data.length) proto data) := by
  rw [ipv6Cksum, ipv6PseudoheaderCksum, Nat.mod_eq_of_lt fits, take_length]

variable {packet : Built}

theorem buildIpRaw_data {o : Settings} {ip : IpArgs}
    (built : buildIpRaw o r ip proto data = some packet) :
    packet.data = data.take (data.length % 2 ^ 16) := by
  unfold buildIpRaw at built
  dsimp only at built
  split at built
  · cases built
  · cases built
    rfl

theorem buildIpv6Raw_data {ip : Ip6Args} (built : buildIpv6Raw r ip proto data = packet) :
    packet.data = data.take (data.length % 2 ^ 16) := by
  subst built
  rfl

/-- A packet carries the segment with some checksum, cut off to the length modulo `2 ^ 16`, and if
the segment fits then the checksum is the one for it. -/
def Carries (o : Settings) (packet : Built) : Prop :=
  ∃ sum, packet.data = (p.front r ++ bytesOf o.order sum ++ p.back).take
      (p.segmentLength r % 2 ^ 16) ∧
    (p.segmentLength r < 2 ^ 16 → sum = spoil o.badsum p.proto (p.cksum r o.order))

theorem build_data {o : Settings} (built : p.build o r = some packet) :
    p.Carries r o packet := by
  have stored : ∀ sum, (p.front r ++ bytesOf o.order sum ++ p.back).length = p.segmentLength r := by
    intro sum
    simp only [segmentLength, blank, length_append, length_bytesOf]
    rfl
  have carried : ∀ sum, packet.data = (p.front r ++ bytesOf o.order sum ++ p.back).take
        ((p.front r ++ bytesOf o.order sum ++ p.back).length % 2 ^ 16) →
      (p.segmentLength r < 2 ^ 16 → sum = spoil o.badsum p.proto (p.cksum r o.order)) →
      p.Carries r o packet :=
    fun sum data eq => ⟨sum, by rw [data, stored sum], eq⟩
  cases p with
  | tcp ip args =>
    change (buildTcp r args).bind _ = some packet at built
    obtain ⟨segment, made, raw⟩ := Option.bind_eq_some_iff.mp built
    unfold buildTcp at made
    split at made
    · cases made
    cases made
    have data := buildIpRaw_data r raw
    rw [store16_blank _ _ _ _ (length_tcpFront r args)] at data
    exact carried _ data (ipv4Cksum_fits _ _ _ _ _)
  | tcp6 ip args =>
    change (buildTcp r args).map _ = some packet at built
    obtain ⟨segment, made, raw⟩ := Option.map_eq_some_iff.mp built
    unfold buildTcp at made
    split at made
    · cases made
    cases made
    have data := buildIpv6Raw_data r raw
    rw [store16_blank _ _ _ _ (length_tcpFront r args)] at data
    exact carried _ data (ipv6Cksum_fits _ _ _ _ _)
  | udp ip args =>
    have data := buildIpRaw_data r built
    rw [buildUdp, store16_blank _ _ _ _ (show (udpFront args).length = 6 from rfl)] at data
    exact carried _ data (ipv4Cksum_fits _ _ _ _ _)
  | udp6 ip args =>
    have data := buildIpv6Raw_data r (Option.some.inj built)
    rw [buildUdp, store16_blank _ _ _ _ (show (udpFront args).length = 6 from rfl)] at data
    exact carried _ data (ipv6Cksum_fits _ _ _ _ _)
  | icmp ip args =>
    change (icmpZeros args).bind _ = some packet at built
    obtain ⟨zeros, known, raw⟩ := Option.bind_eq_some_iff.mp built
    have other : ipprotoIcmp ≠ ipprotoUdp := by decide
    have same : icmpBack args zeros = (Probe.icmp ip args).back := by
      rw [back, known]
      rfl
    have data := buildIpRaw_data r raw
    rw [store16_blank _ _ _ _ (show [args.ptype, args.pcode].length = 2 from rfl), same] at data
    refine carried _ data fun _ => ?_
    rw [spoilIcmp_eq _ other, ← pseudoCksum_nil _ other]
    rfl
  | icmp6 ip args =>
    have other : ipprotoIcmpv6 ≠ ipprotoUdp := by decide
    have data := buildIpv6Raw_data r (Option.some.inj built)
    rw [store16_blank _ _ _ _ (show [args.ptype, args.pcode].length = 2 from rfl)] at data
    refine carried _ data fun _ => ?_
    rw [spoilIcmp_eq _ other, ipv6PseudoheaderCksum, take_length]
    rfl

theorem field_segment (two post : Bytes) (length : two.length = 2) :
    p.field r (p.front r ++ two ++ post) = two := by
  rw [field, append_assoc, drop_left, take_left' length]

theorem bytesOf_eq_zero {order : ByteOrder} {n : Nat} (small : n < 2 ^ 16) :
    bytesOf order n = [0, 0] ↔ n = 0 := by
  constructor
  · intro eq
    have value := word_bytesOf order small
    have zero : words order [0, 0] = [0] := by cases order <;> rfl
    rw [eq, zero] at value
    exact (List.cons.inj value).1.symm
  · rintro rfl
    cases order <;> rfl

/-- **When a builder's checksum is right.** For every packet that is built, the segment is in it
with a checksum that completes the sum, or with `--badsum` one that no receiver accepts, exactly
when the length of the segment fits in 16 bits and, with `--badsum` and a protocol other than
UDP, the right checksum is not zero. -/
theorem build_checksum_iff {o : Settings} {packet : Built} (built : p.build o r = some packet) :
    p.ChecksumRight r o.badsum packet ↔
      p.segmentLength r < 2 ^ 16 ∧
        (o.badsum = true → p.proto = ipprotoUdp ∨ ¬ p.SumsToOnesAlready r) := by
  obtain ⟨sum, data, eq⟩ := p.build_data r built
  have stored : (p.front r ++ bytesOf o.order sum ++ p.back).length = p.segmentLength r := by
    simp only [segmentLength, blank, length_append, length_bytesOf]
    rfl
  have length : packet.data.length = p.segmentLength r ↔ p.segmentLength r < 2 ^ 16 := by
    rw [data, length_take, stored]
    omega
  unfold ChecksumRight
  rw [length, and_congr_right_iff]
  intro fits
  rw [Nat.mod_eq_of_lt fits, ← stored, take_length] at data
  have sum_eq := eq fits
  rw [length.mpr fits]
  let s := p.summed r fits
  have below := (pseudoCksum_spec o.order s p.proto).1
  have completes := checksum_completes o.order s p.proto
  have accepted := spoiled_accepted_iff o.order s p.proto
  have full : s.Full = p.SumsToOnesAlready r := rfl
  have segment : ∀ two, s.hdr ++ s.segment two =
      p.pseudo (p.segmentLength r) ++ (p.front r ++ two ++ p.back) := fun two => rfl
  change p.cksum r o.order < 2 ^ 16 at below
  change SumsToOnes (s.hdr ++ s.segment (bytesOf o.order (p.cksum r o.order))) ∧
    (p.proto = ipprotoUdp → p.cksum r o.order ≠ 0) at completes
  change SumsToOnes (s.hdr ++ s.segment (bytesOf o.order
    (spoil true p.proto (p.cksum r o.order)))) ↔ _ at accepted
  rw [segment] at completes accepted
  rw [full] at accepted
  cases badsum : o.badsum with
  | false =>
    rw [badsum] at sum_eq
    change sum = p.cksum r o.order at sum_eq
    rw [data, sum_eq]
    simp only [Bool.false_eq_true, false_implies, and_true, true_implies, iff_true]
    refine ⟨completes.1, ?_⟩
    intro udp
    rw [field_segment _ _ _ _ (length_bytesOf _ _), ne_eq, bytesOf_eq_zero below]
    exact completes.2 udp
  | true =>
    rw [badsum] at sum_eq
    unfold Accepts
    rw [length.mpr fits, data, field_segment _ _ _ _ (length_bytesOf _ _), sum_eq]
    simp only [Bool.true_eq_false, false_implies, true_and, true_implies]
    rw [accepted, bytesOf_eq_zero (spoil_lt p.proto _), not_or]
    have spoiled : ¬ (p.proto = ipprotoUdp ∧ spoil true p.proto (p.cksum r o.order) = 0) := by
      rintro ⟨udp, zero⟩
      rw [udp] at zero
      exact spoil_udp _ zero
    constructor
    · rintro ⟨not, -⟩
      by_cases udp : p.proto = ipprotoUdp
      · exact .inl udp
      · exact .inr fun already => not ⟨udp, already⟩
    · intro either
      refine ⟨?_, spoiled⟩
      rintro ⟨other, already⟩
      rcases either with udp | not
      · exact other udp
      · exact not already

/-- A TCP SYN probe to port 80, from and to the local host, with this sequence number -/
def synProbe (seq : UInt32) : Probe :=
  .tcp ⟨#v[127, 0, 0, 1], #v[127, 0, 0, 1], 64, 1, 0, false, []⟩
    ⟨40000, 80, seq, 0, 0, 2, 1024, 0, [], ⟨true, [], by decide⟩⟩

/-- A little-endian machine, with or without `--badsum` -/
def settings (badsum : Bool) : Settings := ⟨.little, badsum, 0, 0⟩

theorem build_checksum_syn : ∃ packet, (synProbe 1).build (settings true) ⟨0, 0⟩ = some packet ∧
    (synProbe 1).ChecksumRight ⟨0, 0⟩ true packet := by
  refine ⟨_, rfl, ((synProbe 1).build_checksum_iff ⟨0, 0⟩ rfl).mpr ⟨by decide, fun _ => .inr ?_⟩⟩
  unfold SumsToOnesAlready
  decide

/-- The checksum of this probe is zero, and what is stored with `--badsum` is all ones. -/
theorem build_checksum_zero :
    ∃ packet, (synProbe 4432).build (settings true) ⟨0, 0⟩ = some packet ∧
      (synProbe 4432).Accepts ⟨0, 0⟩ packet.data := by
  refine ⟨_, rfl, .inl ?_⟩
  decide

end Probe

end Nmap.Packet
