import Nmap.Packet.Validate

/-!
# Reading a packet from pcap (`tcpip.cc`, `netutil.cc`)

`readip_pcap` waits for a frame that holds an IP packet, finds where the link header ends, and
has `validatepkt` check the packet and trim its length. The length it then stores is computed
again from the number of bytes captured, so what was behind the packet in the frame is counted
after all.
-/

namespace Nmap.Packet

open Nmap.Base List

set_option maxRecDepth 4000

deriving instance DecidableEq for Capture

/-- A frame as pcap delivers it: its length is `caplen`, a `u32`. -/
structure Frame extends Capture where
  word : len < 2 ^ 32
  deriving DecidableEq

/-- `p + offset`, with the bytes captured from there on -/
def Frame.behind (f : Frame) (offset : Nat) : Capture where
  buffer := f.buffer.drop offset
  len := f.len - offset
  captured := by
    have captured := f.captured
    rw [length_drop]
    omega

/-- The types of link layer that `datalink_offset` knows -/
inductive Datalink
  | en10mb | ieee802 | loop | null | slip | slipBsdos | ppp | pppBsdos | pppSerial | pppEther
  | raw | fddi | enc | linuxSll | ipnet | other
  deriving DecidableEq, Repr

/-- `datalink_offset`, with the values for systems other than the BSDs and Solaris; `none` is -1 -/
def datalinkOffset : Datalink → Option Nat
  | .en10mb => some 14
  | .ieee802 => some 22
  | .loop | .null => some 4
  | .slip | .slipBsdos => some 24
  | .ppp | .pppBsdos | .pppSerial | .pppEther => some 24
  | .raw => some 0
  | .fddi => some 21
  | .enc => some 12
  | .linuxSll => some 16
  | .ipnet => some 24
  | .other => none

/-- What one turn of the loop of `read_reply_pcap` gets from pcap -/
inductive Poll
  | frame (f : Frame)
  /-- Nothing was captured; `late` when the time is up. -/
  | nothing (late : Bool)
  | error

/-- What `read_reply_pcap` comes back with. It is still `waiting` when the polls end before it
does. -/
inductive Reply
  | frame (f : Frame) (offset : Nat)
  | timedOut
  | fatal
  | waiting

/-- `ETH_TYPE_8021Q` and `ETH_TYPE_8021AD` -/
def isTag (ethertype : Nat) : Bool := ethertype = 0x8100 || ethertype = 0x88A8

/-- The loop over the VLAN tags of a frame -/
def tags (f : Frame) : Nat → Nat → Nat
  | 0, l2len => l2len
  | fuel + 1, l2len =>
    if l2len ≤ f.len then
      if isTag (ntohsAt f.buffer (l2len - 2)) then tags f fuel (l2len + 4) else l2len
    else l2len

/-- `*offset` after the loop over the tags, which ends at the latest behind the captured bytes -/
def skipTags (f : Frame) (offset : Nat) : Nat := tags f (f.len + 1) offset

/-- `*offset` for a frame: only on Ethernet are there tags -/
def frameOffset (datalink : Datalink) (f : Frame) (offset : Nat) : Nat :=
  if datalink = .en10mb then skipTags f offset else offset

def acceptAny (_ : Frame) (_ : Nat) : Bool := true

def acceptIp (f : Frame) (offset : Nat) : Bool :=
  if f.len < offset + 20 then false
  else
    let v := (byteAt f.buffer offset).toNat / 16
    v = 4 || v = 6

/-- The loop of `read_reply_pcap`. The offset found in one frame is where it starts with the
next. -/
def readLoop (accept : Frame → Nat → Bool) (datalink : Datalink) :
    Nat → Nat → List Poll → Reply
  | _, _, [] => .waiting
  | _, _, .error :: _ => .fatal
  | offset, badcounter, .nothing late :: polls =>
    if late then .timedOut else readLoop accept datalink offset badcounter polls
  | offset, badcounter, .frame f :: polls =>
    let offset := frameOffset datalink f offset
    if accept f offset then .frame f offset
    else if badcounter > 50 then .timedOut
    else readLoop accept datalink offset (badcounter + 1) polls

def readReplyPcap (accept : Frame → Nat → Bool) (datalink : Datalink) (polls : List Poll) :
    Reply :=
  match datalinkOffset datalink with
  | none => .fatal
  | some offset => readLoop accept datalink offset 0 polls

/-- `struct link_header`: the part that `readip_pcap` fills in -/
structure LinkHeader where
  datalinktype : Datalink
  headerlen : Nat
  deriving DecidableEq

/-- A packet that `readip_pcap` returns: the pointer it returns, as the frame and the offset of
the packet in it, the length it stores, and `*linknfo` where that is filled in -/
structure Received where
  frame : Frame
  offset : Nat
  len : Nat
  linknfo : Option LinkHeader
  deriving DecidableEq

/-- The packet with all the bytes captured of it -/
def Received.packet (r : Received) : Capture := r.frame.behind r.offset

/-- The outcome of `readip_pcap`; `none` is a null pointer, with a length of zero. -/
inductive ReadIp
  | packet (r : Received)
  | none
  | fatal
  | waiting
  deriving DecidableEq

/-- `head->caplen - offset`, as the `unsigned int` that it is stored in -/
def Frame.lenBehind (f : Frame) (offset : Nat) : Nat := (f.len + 2 ^ 64 - offset) % 2 ^ 32

/-- `readip_pcap`, with `validate` and a place for the link header -/
def readipPcap (datalink : Datalink) (validate : Bool) (polls : List Poll) : ReadIp :=
  match readReplyPcap (if validate then acceptIp else acceptAny) datalink polls with
  | .waiting => .waiting
  | .fatal => .fatal
  | .timedOut => .none
  | .frame f offset =>
    if validate && (validatepkt (f.behind offset)).isNone then .none
    else
      let linknfo := if offset = 0 then Option.none else some ⟨datalink, offset⟩
      -- `*len` is what `validatepkt` left in it up to here, and is set once more
      .packet ⟨f, offset, f.lenBehind offset, linknfo⟩

/-- The length of an IP packet by its header: the total length of IPv4, or the header and the
payload length of IPv6 -/
def ipTotal (p : Bytes) : Nat := if ipV p = 4 then ipLen p else 40 + ip6Plen p

/-! ## The frame that is accepted -/

/-- What the loop hands on is one of the frames it was given, at an offset where the frame was
accepted; on Ethernet all tags are in front of that. -/
theorem readLoop_frame {accept : Frame → Nat → Bool} {datalink : Datalink} :
    ∀ {polls : List Poll} {offset badcounter : Nat} {f : Frame} {off : Nat},
    readLoop accept datalink offset badcounter polls = .frame f off →
      .frame f ∈ polls ∧ accept f off = true ∧ ∃ start, off = frameOffset datalink f start := by
  intro polls
  induction polls with
  | nil =>
    intro offset badcounter f off read
    cases read
  | cons poll polls ih =>
    intro offset badcounter f off read
    cases poll with
    | error => cases read
    | nothing late =>
      rw [readLoop] at read
      split at read
      · cases read
      · obtain ⟨member, rest⟩ := ih read
        exact ⟨mem_cons_of_mem _ member, rest⟩
    | frame g =>
      rw [readLoop] at read
      split at read
      · next accepted =>
          cases read
          exact ⟨mem_cons_self, accepted, offset, rfl⟩
      · split at read
        · cases read
        · obtain ⟨member, rest⟩ := ih read
          exact ⟨mem_cons_of_mem _ member, rest⟩

theorem acceptIp_fits {f : Frame} {offset : Nat} (accepted : acceptIp f offset = true) :
    offset + 20 ≤ f.len := by
  unfold acceptIp at accepted
  split at accepted
  · cases accepted
  · omega

/-- What is known of a packet that is returned with `validate`: it was captured, all of it
behind the link header counts, and `validatepkt` accepted it. -/
theorem readipPcap_packet {datalink : Datalink} {polls : List Poll} {r : Received}
    (read : readipPcap datalink true polls = .packet r) :
    .frame r.frame ∈ polls ∧ r.offset + 20 ≤ r.frame.len ∧ r.len = r.packet.len ∧
      ∃ trimmed, validatepkt r.packet = some trimmed := by
  unfold readipPcap at read
  split at read
  · cases read
  · cases read
  · cases read
  · next f offset reply =>
      unfold readReplyPcap at reply
      split at reply
      · cases reply
      obtain ⟨member, accepted, -⟩ := readLoop_frame reply
      split at read
      · cases read
      · next valid =>
          cases read
          have fits := acceptIp_fits accepted
          have word := f.word
          refine ⟨member, fits, ?_, ?_⟩
          · show (f.len + 2 ^ 64 - offset) % 2 ^ 32 = f.len - offset
            omega
          · rw [Bool.true_and, Option.isNone_iff_eq_none] at valid
            exact Option.ne_none_iff_exists'.mp valid

/-! ## The length -/

theorem Chain.le {p : Bytes} {off off' : Nat} {nxt nxt' : UInt8}
    (chain : Chain p off nxt off' nxt') : off ≤ off' := by
  induction chain with
  | upper _ => exact Nat.le_refl _
  | extension _ _ ih => omega

/-- **When nothing behind the packet is counted.** A packet read with `validate` is returned
with its trimmed length, which is no more than its header says, exactly when no more than
that was captured behind the link header. -/
theorem readipPcap_len_iff {datalink : Datalink} {polls : List Poll} {r : Received}
    (read : readipPcap datalink true polls = .packet r) :
    (validatepkt r.packet = some r.len ∧ r.len ≤ ipTotal r.packet.bytes) ↔
      r.packet.len ≤ ipTotal r.packet.bytes := by
  obtain ⟨-, -, whole, trimmed, accepted⟩ := readipPcap_packet read
  obtain ⟨off, proto, upper, -, length⟩ := validatepkt_some accepted
  rw [whole]
  constructor
  · rintro ⟨-, within⟩
    exact within
  · intro within
    refine ⟨?_, within⟩
    rw [accepted]
    congr 1
    unfold ipTotal at within
    rcases length with ⟨v4, eq⟩ | ⟨v6, eq⟩
    · rw [if_pos v4] at within
      omega
    · rw [if_neg (by omega)] at within
      -- the headers that `validatepkt` has skipped begin behind the fixed one
      have base : 40 ≤ off := by
        rcases upper with ⟨v4, -⟩ | ⟨-, chain⟩
        · omega
        · exact chain.le
      omega

/-- An Ethernet frame with a UDP packet of 28 bytes and this many bytes of padding -/
def udpFrame (padding : Fin 33) : Frame where
  buffer := List.replicate 12 0 ++ [8, 0] ++ (udpPacket 28).buffer ++ List.replicate padding 0
  len := 42 + padding
  captured := by
    simp only [udpPacket, length_append, length_replicate, length_cons,
      length_nil]
    omega
  word := by omega

theorem readipPcap_len_unpadded :
    readipPcap .en10mb true [.nothing false, .frame (udpFrame 0)] =
      .packet ⟨udpFrame 0, 14, 28, some ⟨.en10mb, 14⟩⟩ ∧
    validatepkt ((udpFrame 0).behind 14) = some 28 := by
  have read : readipPcap .en10mb true [.nothing false, .frame (udpFrame 0)] =
      .packet ⟨udpFrame 0, 14, 28, some ⟨.en10mb, 14⟩⟩ := by decide
  exact ⟨read, ((readipPcap_len_iff read).mpr (by decide)).1⟩

/-- The shortest Ethernet frame: 18 bytes of padding behind the packet are counted. -/
theorem readipPcap_len_padded :
    readipPcap .en10mb true [.frame (udpFrame 18)] =
      .packet ⟨udpFrame 18, 14, 46, some ⟨.en10mb, 14⟩⟩ ∧
    validatepkt ((udpFrame 18).behind 14) = some 28 ∧
    ¬ 46 ≤ ipTotal ((udpFrame 18).behind 14).bytes := by
  refine ⟨by decide, by decide, by decide⟩

end Nmap.Packet
