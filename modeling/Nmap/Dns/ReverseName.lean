import Nmap.Base.CString
import Nmap.Dns.Message

/-!
# Reverse names (`massdns.cc`)

`ipToPtr` writes the name under which the name of an address is looked up, and `ptrToIp` reads
such a name from its end. An access outside of the string, the table of place values or the
address is an error here.
-/

namespace Nmap.Dns

open Nmap.Base

/-- `sockaddr_storage` with an address of one of the two families -/
inductive Address
  | inet (addr : Vector UInt8 4)
  | inet6 (addr : Vector UInt8 16)
  deriving DecidableEq

/-- `C_IPV4_PTR_DOMAIN` -/
def ipv4PtrDomain : Bytes := ascii ".in-addr.arpa"

/-- `C_IPV6_PTR_DOMAIN` -/
def ipv6PtrDomain : Bytes := ascii ".ip6.arpa"

/-! ## Writing -/

/-- `C_IPV6_PTR_EXAMPLE` -/
def ipv6PtrExample : Bytes :=
  ascii "0.0.1.1.2.2.3.3.4.4.5.5.6.6.7.7.8.8.9.9.a.a.b.b.c.c.d.d.e.e.f.f.ip6.arpa"

def hex (n : UInt8) : UInt8 := (ascii "0123456789abcdef").getD n.toNat 0

/-- The two digits of a byte, the low one first -/
def hexLabels (b : UInt8) : Bytes := [hex (b &&& 0xf), dot, hex ((b >>> 4) &&& 0xf), dot]

def ipToPtr : Address → Bytes
  | .inet addr =>
    decimal addr[3].toNat ++ [dot] ++ decimal addr[2].toNat ++ [dot] ++ decimal addr[1].toNat ++
      [dot] ++ decimal addr[0].toNat ++ ipv4PtrDomain
  | .inet6 addr =>
    -- the loop overwrites the front of the example
    let digits := addr.toList.reverse.flatMap hexLabels
    digits ++ ipv6PtrExample.drop digits.length

/-! ## Reading -/

/-- What is accessed where it does not reach -/
inductive Beyond
  | string
  | placeValues
  | address
  deriving DecidableEq

/-- `tolower` -/
def lower (c : UInt8) : UInt8 := if 0x41 ≤ c && c ≤ 0x5a then c + 0x20 else c

/-- `strcasestr`: where the word begins in a C string -/
def strcasestr (haystack needle : Bytes) : Option Nat :=
  let s := haystack.takeWhile (· ≠ 0)
  (List.range (s.length + 1)).find? fun k =>
    ((s.drop k).take needle.length).map lower = needle.map lower

/-- `cptr + ptr.length() + 1 - sizeof(domain)`, searched for the domain: how much is in front of
it -/
def findDomain (domain ptr : Bytes) : Option Nat :=
  if ptr.length ≥ domain.length then
    let start := ptr.length - domain.length
    (strcasestr (ptr.drop start) domain).map (start + ·)
  else none

/-- `place_value` -/
def placeValues : List UInt8 := [1, 10, 100]

/-- The loop of `ptrToIp` for IPv4, with `p` characters left, `i`, `place` and `v`. A dot is read in
the same round as the digit in front of it. -/
def readOctets (ptr : Bytes) : Bool → Nat → Nat → Nat → Vector UInt8 4 →
    Except Beyond (Option (Vector UInt8 4))
  | _, 0, _, _, v => .ok (some v)
  | dotRead, p + 1, i, place, v =>
    if !dotRead && i ≥ 4 then .ok (some v)
    else
      match ptr[p]? with
      | none => .error .string
      | some n =>
        if !dotRead && n = dot then readOctets ptr true p (i + 1) 0 v
        else if isDigit n then
          match placeValues[place]? with
          | none => .error .placeValues
          | some value =>
            if room : i < 4 then
              readOctets ptr false p i (place + 1) (v.set i (v[i] + (n - 0x30) * value))
            else .error .address
        else .ok none

/-- The value of a character, as the loop for IPv6 finds it. The subtractions wrap. -/
def nibble (n : UInt8) : Option UInt8 :=
  let value :=
    if n < 0x3A then some (n - 0x30)
    else if n < 0x47 then some (n - 0x37)
    else if n < 0x67 then some (n - 0x57)
    else none
  value.filter (· ≤ 0xf)

/-- The loop of `ptrToIp` for IPv6, with `p` characters left, `i`, `alt` and `s6_addr` -/
def readNibbles (ptr : Bytes) : Bool → Nat → Nat → Bool → Vector UInt8 16 →
    Except Beyond (Option (Vector UInt8 16))
  | _, 0, _, _, v => .ok (some v)
  | dotRead, p + 1, i, alt, v =>
    if !dotRead && i ≥ 16 then .ok (some v)
    else
      match ptr[p]? with
      | none => .error .string
      | some c =>
        if !dotRead && c = dot then readNibbles ptr true p i alt v
        else
          match nibble c with
          | none => .ok none
          | some n =>
            if room : i < 16 then
              if alt then readNibbles ptr false p (i + 1) false (v.set i (v[i] + n))
              else readNibbles ptr false p i true (v.set i (v[i] + n <<< 4))
            else .error .address

def ptrToIp (ptr : Bytes) : Except Beyond (Option Address) :=
  match findDomain ipv4PtrDomain ptr with
  | some p => (readOctets ptr false p 0 0 (Vector.replicate 4 0)).map (Option.map .inet)
  | none =>
    match findDomain ipv6PtrDomain ptr with
    | some p => (readNibbles ptr false p 0 false (Vector.replicate 16 0)).map (Option.map .inet6)
    | none => .ok none

end Nmap.Dns
