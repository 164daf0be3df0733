import Nmap.Packet.Validate

/-!
# The data of an IP packet (`netutil.cc`)

`ip_get_data` finds the payload of a packet, behind the options of an IPv4 header or the
extension headers of an IPv6 one, and fills in an `abstract_ip_hdr`. It reads captured packets
and the packets quoted in ICMP errors.
-/

namespace Nmap.Packet

open Nmap.Base

/-- `abstract_ip_hdr` -/
structure IpHdr where
  src : List UInt8
  dst : List UInt8
  proto : UInt8
  ttl : UInt8
  ipid : UInt32
  deriving DecidableEq, Repr

/-- A field of two bytes in network order -/
def u16At (p : Bytes) (i : Nat) : UInt16 := UInt16.ofNat (ntohsAt p i)

/-- A field of four bytes in network order -/
def u32At (p : Bytes) (i : Nat) : UInt32 := UInt32.ofNat (ntohsAt p i * 65536 + ntohsAt p (i + 2))

/-- The loop of `ipv6_get_data_primitive` where the last header may be of any protocol -/
def walkAnyHeaders : Nat → UInt8 → Bytes → Option (Nat × UInt8)
  | _, _, [] => none
  | skip + 1, nxt, _ :: s => walkAnyHeaders skip nxt s
  | 0, nxt, b :: s =>
    if ipv6IsExtensionHeader nxt then
      if (b :: s).length < 8 then none
      else walkAnyHeaders (((byteAt s 0).toNat + 1) * 8 - 1) b s
    else some ((b :: s).length, nxt)

def ipv6GetDataAny (p : Bytes) : Option (Nat × UInt8) :=
  if p.length < 40 then none
  else (walkAnyHeaders 0 (ip6Nxt p) (p.drop 40)).map fun (left, nxt) => (p.length - left, nxt)

def ipv4Hdr (p : Bytes) : IpHdr where
  src := (p.drop 12).take 4
  dst := (p.drop 16).take 4
  proto := ipP p
  ttl := byteAt p 8
  ipid := UInt32.ofNat (ntohsAt p 4)

/-- The fields of an IPv6 header, with the protocol that its chain ends in -/
def ipv6Hdr (p : Bytes) (proto : UInt8) : IpHdr where
  src := (p.drop 8).take 16
  dst := (p.drop 24).take 16
  proto := proto
  ttl := byteAt p 7
  ipid := u32At p 0 &&& 0x000FFFFF

/-- `ip_get_data_primitive`, with the walk over the IPv6 headers -/
def ipGetDataWith (walk : Bytes → Option (Nat × UInt8)) (p : Bytes) : Option (IpHdr × Bytes) :=
  if p.length < 20 then none
  else if ipV p = 4 then (ipv4GetData p).map fun off => (ipv4Hdr p, p.drop off)
  else if 40 ≤ p.length ∧ ipV p = 6 then
    (walk p).map fun (off, nxt) => (ipv6Hdr p nxt, p.drop off)
  else none

def ipGetData : Bytes → Option (IpHdr × Bytes) := ipGetDataWith ipv6GetData

def ipGetDataAny : Bytes → Option (IpHdr × Bytes) := ipGetDataWith ipv6GetDataAny

/-- An IPv4 packet of less than 256 bytes, without options -/
def ipv4Packet (proto : UInt8) (src dst data : Bytes) : Bytes :=
  [0x45, 0, 0, UInt8.ofNat (20 + data.length), 0, 5, 0, 0, 64, proto, 0, 0] ++ src ++ dst ++ data

end Nmap.Packet
