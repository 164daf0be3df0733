import Mathlib.Data.List.Basic
import Nmap.Base.Utf8

/-!
# Validating captured packets (`tcpip.cc`, `netutil.cc`)

`validatepkt` checks the headers of a packet against the number of bytes captured, and then
trims that number to what the length field of the IP header says, however little that is.
-/

namespace Nmap.Packet

open Nmap.Base List

/-- A captured packet: a buffer and how many bytes of it there are -/
structure Capture where
  buffer : Bytes
  len : Nat
  captured : len ≤ buffer.length

def Capture.bytes (c : Capture) : Bytes := c.buffer.take c.len

theorem Capture.length_bytes (c : Capture) : c.bytes.length = c.len := by
  rw [bytes, length_take]
  exact Nat.min_eq_left c.captured

/-! ## Header fields -/

def byteAt (p : Bytes) (i : Nat) : UInt8 := p.getD i 0

/-- `ntohs` of the two bytes at an offset -/
def ntohsAt (p : Bytes) (i : Nat) : Nat := (byteAt p i).toNat * 256 + (byteAt p (i + 1)).toNat

def ipV (p : Bytes) : Nat := (byteAt p 0).toNat / 16

/-- `ip_hl * 4` -/
def ipHeaderLen (p : Bytes) : Nat := (byteAt p 0).toNat % 16 * 4

def ipLen (p : Bytes) : Nat := ntohsAt p 2

/-- `8 * (ip_off & IP_OFFMASK)` -/
def fragOff (p : Bytes) : Nat := 8 * (ntohsAt p 6 % 0x2000)

def ipP (p : Bytes) : UInt8 := byteAt p 9

def ip6Plen (p : Bytes) : Nat := ntohsAt p 4

def ip6Nxt (p : Bytes) : UInt8 := byteAt p 6

/-- `th_off * 4`, for a TCP header at an offset -/
def tcpHeaderLen (p : Bytes) (off : Nat) : Nat := (byteAt p (off + 12)).toNat / 16 * 4

def ipprotoTcp : UInt8 := 6

def ipprotoUdp : UInt8 := 17

/-! ## Finding the upper layer -/

/-- `ipv4_get_data`: the offset of the data -/
def ipv4GetData (p : Bytes) : Option Nat :=
  if p.length < 20 then none
  else if ipHeaderLen p < 20 then none
  else if ipHeaderLen p > p.length then none
  else some (ipHeaderLen p)

/-- `ipv6_is_extension_header`: hop-by-hop, destination, routing and fragment headers -/
def ipv6IsExtensionHeader (type : UInt8) : Bool := type ∈ [(0 : UInt8), 60, 43, 44]

def ipv6IsUpperlayer (type : UInt8) : Bool := type ∈ [(59 : UInt8), 6, 17, 1, 58, 132]

/-- The loop of `ipv6_get_data_primitive` over what is left of the packet, with how much is
left at the end. `skip` more bytes belong to an extension header. -/
def walkHeaders : Nat → UInt8 → Bytes → Option (Nat × UInt8)
  | _, _, [] => none
  | skip + 1, nxt, _ :: s => walkHeaders skip nxt s
  | 0, nxt, b :: s =>
    if ipv6IsExtensionHeader nxt then
      if (b :: s).length < 8 then none
      else walkHeaders (((byteAt s 0).toNat + 1) * 8 - 1) b s
    else if ipv6IsUpperlayer nxt then some ((b :: s).length, nxt)
    else none

/-- `ipv6_get_data`: the offset of the data and its protocol -/
def ipv6GetData (p : Bytes) : Option (Nat × UInt8) :=
  if p.length < 40 then none
  else (walkHeaders 0 (ip6Nxt p) (p.drop 40)).map fun (left, nxt) => (p.length - left, nxt)

/-! ## TCP options -/

/-- The loop of `validateTCPhdr` over the options. `skip` more bytes belong to an option that
is through. -/
def validOptions : Nat → Bytes → Bool
  | _, [] => true
  | skip + 1, _ :: s => validOptions skip s
  | 0, [kind] => kind = 0 || kind = 1
  | 0, kind :: hdrlen :: s =>
    let optlen := s.length + 2
    -- `OPTLEN_IS`
    let optlenIs (expected : Nat) : Bool :=
      if expected = 0 || optlen < expected || hdrlen.toNat ≠ expected then false
      else validOptions (expected - 1) (hdrlen :: s)
    if kind = 0 then true
    else if kind = 1 then validOptions 0 (hdrlen :: s)
    else if kind = 2 then optlenIs 4
    else if kind = 3 then optlenIs 3
    else if kind = 4 then optlenIs 2
    else if kind = 5 then
      let n := (hdrlen.toNat + 2 ^ 32 - 2) % 2 ^ 32
      if n = 0 || n % 8 ≠ 0 then false else optlenIs hdrlen.toNat
    else if kind = 8 then optlenIs 10
    else if kind = 14 then optlenIs 3
    else optlenIs hdrlen.toNat

def validateTCPhdr (tcpc : Bytes) : Bool :=
  if tcpc.length < 20 then false
  else
    let hdrlen := tcpHeaderLen tcpc 0
    if hdrlen > tcpc.length || hdrlen < 20 then false
    else validOptions 0 ((tcpc.take hdrlen).drop 20)

/-! ## The packet -/

/-- The switch at the end of `validatepkt`: the header of the upper layer -/
def validUpper (hdr : UInt8) (data : Bytes) : Bool :=
  if hdr = ipprotoTcp then !(data.length < 20) && validateTCPhdr data
  else if hdr = ipprotoUdp then !(data.length < 8)
  else true

/-- `validatepkt`: the new length, or `none` for a packet that is rejected -/
def validatepkt (c : Capture) : Option Nat :=
  let p := c.bytes
  if c.len < 20 then none
  else if ipV p = 4 then
    match ipv4GetData p with
    | none => none
    | some off =>
      if fragOff p ≠ 0 then none
      else
        let len := if c.len > ipLen p then ipLen p else c.len
        if validUpper (ipP p) (p.drop off) then some len else none
  else if ipV p = 6 then
    if c.len < 40 then none
    else
      match ipv6GetData p with
      | none => none
      | some (off, hdr) =>
        let datalen := c.len - off
        let len := if datalen > ip6Plen p then c.len - (datalen - ip6Plen p) else c.len
        if validUpper hdr (p.drop off) then some len else none
  else none

/-! ## Where the headers end -/

/-- Following extension headers from one at an offset: the upper layer and its protocol -/
inductive Chain (p : Bytes) : Nat → UInt8 → Nat → UInt8 → Prop
  | upper {off : Nat} {nxt : UInt8} : ipv6IsExtensionHeader nxt = false → Chain p off nxt off nxt
  | extension {off off' : Nat} {nxt nxt' : UInt8} : ipv6IsExtensionHeader nxt = true →
      Chain p (off + ((byteAt p (off + 1)).toNat + 1) * 8) (byteAt p off) off' nxt' →
      Chain p off nxt off' nxt'

/-- The IPv4 header with its options, or the IPv6 header with its extensions, ends here, and
this is the protocol that follows. -/
def UpperLayer (p : Bytes) (off : Nat) (proto : UInt8) : Prop :=
  ipV p = 4 ∧ off = ipHeaderLen p ∧ proto = ipP p ∨ ipV p = 6 ∧ Chain p 40 (ip6Nxt p) off proto

/-- The length of the header of the upper layer: TCP with its options, or UDP -/
def upperLen (p : Bytes) (off : Nat) (proto : UInt8) : Nat :=
  if proto = ipprotoTcp then tcpHeaderLen p off else if proto = ipprotoUdp then 8 else 0

def HeadersFit (p : Bytes) (len : Nat) : Prop :=
  ∃ off proto, UpperLayer p off proto ∧ off ≤ len ∧ off + upperLen p off proto ≤ len

/-- The length field of the IP header leaves room for the headers: the total length for all of
them, or the payload length for the header of the upper layer. -/
def LengthFieldCovers (p : Bytes) : Prop :=
  ∃ off proto, UpperLayer p off proto ∧
    if ipV p = 4 then off + upperLen p off proto ≤ ipLen p
    else upperLen p off proto ≤ ip6Plen p

variable {p : Bytes} {off : Nat}

theorem Chain.unique {a b : Nat} {nxt x y : UInt8} (left : Chain p off nxt a x)
    (right : Chain p off nxt b y) : a = b ∧ x = y := by
  induction left with
  | upper stop =>
    cases right with
    | upper _ => exact ⟨rfl, rfl⟩
    | extension more _ =>
      rw [stop] at more
      cases more
  | extension more _ ih =>
    cases right with
    | upper stop =>
      rw [stop] at more
      cases more
    | extension _ rest => exact ih rest

theorem UpperLayer.unique {off' : Nat} {proto proto' : UInt8} (left : UpperLayer p off proto)
    (right : UpperLayer p off' proto') :
    off = off' ∧ proto = proto' := by
  rcases left with ⟨v4, rfl, rfl⟩ | ⟨v6, chain⟩ <;>
    rcases right with ⟨v4', rfl, rfl⟩ | ⟨v6', chain'⟩
  · exact ⟨rfl, rfl⟩
  · omega
  · omega
  · exact chain.unique chain'

theorem byteAt_drop (p : Bytes) (k i : Nat) : byteAt (p.drop k) i = byteAt p (k + i) := by
  simp [byteAt, getD_eq_getElem?_getD, List.getElem?_drop]

/-- The loop follows the chain. -/
theorem walkHeaders_chain (p : Bytes) : ∀ (s : Bytes) (skip : Nat) (nxt : UInt8) (k left : Nat)
    (proto : UInt8), s = p.drop k → walkHeaders skip nxt s = some (left, proto) →
      left ≤ p.length ∧ Chain p (k + skip) nxt (p.length - left) proto := by
  intro s
  induction s with
  | nil =>
    intro skip nxt k left proto _ walked
    cases skip <;> cases walked
  | cons b s ih =>
    intro skip nxt k left proto eq walked
    have next : s = p.drop (k + 1) := by
      rw [← drop_drop, ← eq]
      rfl
    have first : byteAt p k = b := by
      have here := byteAt_drop p k 0
      rw [← eq] at here
      exact here.symm
    have second : byteAt s 0 = byteAt p (k + 1) := by rw [next, byteAt_drop]
    cases skip with
    | succ skip =>
      have rest := ih skip nxt (k + 1) left proto next walked
      rwa [Nat.add_right_comm] at rest
    | zero =>
      rw [walkHeaders] at walked
      split at walked
      · next more =>
          split at walked
          · cases walked
          · obtain ⟨inside, chain⟩ := ih _ b (k + 1) left proto next walked
            refine ⟨inside, .extension more ?_⟩
            rw [second] at chain
            rw [Nat.add_zero, first]
            have past : k + 1 + (((byteAt p (k + 1)).toNat + 1) * 8 - 1) =
                k + ((byteAt p (k + 1)).toNat + 1) * 8 := by omega
            rwa [past] at chain
      · next stop =>
          split at walked
          · have length : (b :: s).length = p.length - k := by rw [eq, length_drop]
            have some : (b :: s).length ≠ 0 := by simp
            cases walked
            have back : p.length - (b :: s).length = k := by omega
            refine ⟨by omega, ?_⟩
            rw [back, Nat.add_zero]
            exact .upper (by simpa using stop)
          · cases walked

/-- What was checked of the upper layer fits in the packet. -/
theorem validUpper_fits {proto : UInt8} (inside : off ≤ p.length)
    (valid : validUpper proto (p.drop off) = true) :
    off + upperLen p off proto ≤ p.length := by
  unfold upperLen
  unfold validUpper at valid
  have length : (p.drop off).length = p.length - off := length_drop
  split
  · next tcp =>
      rw [if_pos tcp, Bool.and_eq_true] at valid
      have header := valid.2
      unfold validateTCPhdr at header
      split at header
      · cases header
      dsimp only at header
      split at header
      · cases header
      · next fits =>
          have same : tcpHeaderLen (p.drop off) 0 = tcpHeaderLen p off := by
            unfold tcpHeaderLen
            rw [byteAt_drop, Nat.zero_add]
          simp only [same, length, Bool.or_eq_true, decide_eq_true_eq, not_or] at fits
          omega
  · next notTcp =>
      rw [if_neg notTcp] at valid
      split
      · next udp =>
          rw [if_pos udp] at valid
          simp only [length, Bool.not_eq_true', decide_eq_false_iff_not] at valid
          omega
      · exact inside

/-- What an accepted packet is known to be: the headers fit in what was captured, and the new
length is what the length field leaves of it. -/
theorem validatepkt_some {c : Capture} {len : Nat} (accepted : validatepkt c = some len) :
    ∃ off proto, UpperLayer c.bytes off proto ∧
      off + upperLen c.bytes off proto ≤ c.len ∧
      (ipV c.bytes = 4 ∧ len = min c.len (ipLen c.bytes) ∨
        ipV c.bytes = 6 ∧ len = min c.len (off + ip6Plen c.bytes)) := by
  have length := c.length_bytes
  unfold validatepkt at accepted
  dsimp only at accepted
  split at accepted
  · cases accepted
  split at accepted
  · next v4 =>
      split at accepted
      · cases accepted
      · next off found =>
          unfold ipv4GetData at found
          split_ifs at found with short small big
          cases found
          split_ifs at accepted with fragment valid longer
          all_goals
            cases accepted
            have fits := validUpper_fits (by omega) valid
            refine ⟨ipHeaderLen c.bytes, ipP c.bytes, .inl ⟨v4, rfl, rfl⟩, by omega, .inl ⟨v4, ?_⟩⟩
            omega
  · split at accepted
    · next v6 =>
        split at accepted
        · cases accepted
        split at accepted
        · cases accepted
        · next off hdr found =>
            unfold ipv6GetData at found
            split_ifs at found with short
            obtain ⟨⟨left, nxt⟩, walked, eq⟩ := Option.map_eq_some_iff.mp found
            cases eq
            obtain ⟨inside, chain⟩ := walkHeaders_chain c.bytes _ 0 _ 40 left hdr rfl walked
            have upper : UpperLayer c.bytes (c.bytes.length - left) hdr := .inr ⟨v6, chain⟩
            split_ifs at accepted with valid longer
            all_goals
              cases accepted
              have fits := validUpper_fits (Nat.sub_le _ _) valid
              refine ⟨_, hdr, upper, by omega, .inr ⟨v6, ?_⟩⟩
              omega
    · cases accepted

/-- **When the headers fit.** The length of an accepted packet never grows, and all the headers
that were checked fit in it exactly when the length field of the IP header covers them. -/
theorem headers_fit_iff (c : Capture) {len : Nat} (accepted : validatepkt c = some len) :
    (len ≤ c.len ∧ HeadersFit c.bytes len) ↔ LengthFieldCovers c.bytes := by
  obtain ⟨off, proto, upper, fits, trimmed⟩ := validatepkt_some accepted
  constructor
  · rintro ⟨-, off', proto', upper', base, whole⟩
    obtain ⟨rfl, rfl⟩ := upper.unique upper'
    refine ⟨off, proto, upper, ?_⟩
    rcases trimmed with ⟨v4, eq⟩ | ⟨v6, eq⟩
    · rw [if_pos v4]
      omega
    · rw [if_neg (by omega)]
      omega
  · rintro ⟨off', proto', upper', covers⟩
    obtain ⟨rfl, rfl⟩ := upper.unique upper'
    rcases trimmed with ⟨v4, eq⟩ | ⟨v6, eq⟩
    · rw [if_pos v4] at covers
      exact ⟨by omega, off, proto, upper, by omega, by omega⟩
    · rw [if_neg (by omega)] at covers
      exact ⟨by omega, off, proto, upper, by omega, by omega⟩

/-- An IPv4 packet of 28 bytes with a UDP header and this total length -/
def udpPacket (total : UInt8) : Capture where
  buffer := [0x45, 0, 0, total, 0, 0, 0, 0, 64, 17, 0, 0, 127, 0, 0, 1, 127, 0, 0, 1,
    0, 53, 0, 53, 0, 8, 0, 0]
  len := 28
  captured := Nat.le_refl _

theorem headers_fit_udp : validatepkt (udpPacket 28) = some 28 ∧
    HeadersFit (udpPacket 28).bytes 28 := by
  have accepted : validatepkt (udpPacket 28) = some 28 := by decide
  have covers : LengthFieldCovers (udpPacket 28).bytes :=
    ⟨20, 17, .inl ⟨by decide, by decide, by decide⟩, by decide⟩
  exact ⟨accepted, ((headers_fit_iff _ accepted).mpr covers).2⟩

/-- With a total length of zero nothing is left of the packet. -/
theorem headers_cut_off : validatepkt (udpPacket 0) = some 0 ∧
    ¬ HeadersFit (udpPacket 0).bytes 0 := by
  refine ⟨by decide, ?_⟩
  rintro ⟨off, proto, upper, base, -⟩
  have start : UpperLayer (udpPacket 0).bytes 20 17 := .inl ⟨by decide, by decide, by decide⟩
  have twenty := (start.unique upper).1
  omega

end Nmap.Packet
