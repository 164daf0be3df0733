import Nmap.Base.Pieces
import Nmap.Packet.Checksum

/-!
# Sending a packet in fragments (`netutil.cc`)

`send_frag_ip_packet` sends an IPv4 packet in fragments of `mtu` bytes of data. All of them are
made in one buffer, whose header and data are overwritten from one to the next.
-/

namespace Nmap.Packet

open Nmap.Base OnesComplement List

/-- An `unsigned int` -/
def u32 (n : Nat) : Nat := n % 2 ^ 32

def ipMf : Nat := 0x2000

/-- What `send_frag_ip_packet` comes back with: the packets it has sent and its result, or a
failed assertion -/
inductive SendFrag
  | done (sent : List Bytes) (res : Int)
  | aborted
  | unfinished
  deriving DecidableEq

section

variable (send : List Bytes → Bytes → Int) (order : ByteOrder)

/-- Setting the length, the offset and the checksum of a header -/
def setFragment (headerlen len off : Nat) (fpacket : Bytes) : Bytes :=
  let p := store16 .big fpacket 2 len
  let p := store16 .big p 6 off
  let p := store16 order p 10 0
  store16 order p 10 (inCksum order (p.take headerlen))

/-- `memcpy(fpacket + headerlen, packet + from, fdatalen)` -/
def copyData (packet : Bytes) (headerlen start fdatalen : Nat) (fpacket : Bytes) : Bytes :=
  fpacket.take headerlen ++ (packet.drop start).take fdatalen ++ fpacket.drop (headerlen + fdatalen)

/-- One turn of the loop, up to the send: the fragment of this number, in the buffer -/
def nextFragment (packet : Bytes) (headerlen mtu datalen fragment : Nat) (fpacket : Bytes) :
    Bytes :=
  let fdatalen := if u32 (fragment * mtu) ≤ datalen then mtu else datalen % mtu
  let start := u32 ((fragment - 1) * mtu)
  let off := if u32 (start + fdatalen) < datalen then start / 8 ||| ipMf else start / 8
  let fpacket := setFragment order headerlen (headerlen + fdatalen) off fpacket
  if fragment > 1 then copyData packet headerlen (headerlen + start) fdatalen fpacket else fpacket

/-- The loop that creates fragments and sends them. The result of a send may depend on what was
sent before. -/
def sendFragments (packet : Bytes) (headerlen mtu datalen : Nat) :
    Nat → Nat → Bytes → Int → List Bytes → SendFrag
  | 0, _, _, _, _ => .unfinished
  | fuel + 1, fragment, fpacket, res, sent =>
    if u32 (fragment * mtu) < u32 (datalen + mtu) then
      let fpacket := nextFragment order packet headerlen mtu datalen fragment fpacket
      let out := fpacket.take (ntohsAt fpacket 2)
      let res := send sent out
      if res = -1 then .done (sent ++ [out]) res
      else sendFragments packet headerlen mtu datalen fuel (fragment + 1) fpacket res
        (sent ++ [out])
    else .done sent res

def sendFragIpPacket (packet : Bytes) (mtu : Nat) : SendFrag :=
  let headerlen := ipHeaderLen packet
  let datalen := packet.length - headerlen
  if ¬ headerlen ≤ packet.length then .aborted
  else if ¬ (20 ≤ headerlen ∧ headerlen ≤ 60) then .aborted
  else if ¬ (0 < mtu ∧ mtu % 8 = 0) then .aborted
  else if datalen ≤ mtu then .done [packet] (send [] packet)
  else sendFragments send order packet headerlen mtu datalen (datalen + mtu) 1
    (packet.take (headerlen + mtu)) 0 []

end

/-! ## Headers in the buffer -/

section

variable {p : Bytes} {off i n : Nat} (order : ByteOrder)

theorem length_store16 (room : off + 2 ≤ p.length) : (store16 order p off n).length = p.length := by
  simp only [store16, length_append, length_take, length_bytesOf, length_drop]
  omega

theorem byteAt_store16 (room : off + 2 ≤ p.length) (elsewhere : i < off ∨ off + 2 ≤ i) :
    byteAt (store16 order p off n) i = byteAt p i := by
  have front : (p.take off).length = off := length_take_of_le (by omega)
  have two : (p.take off ++ bytesOf order n).length = off + 2 := by
    rw [length_append, front, length_bytesOf]
  unfold byteAt store16
  rw [getD_eq_getElem?_getD, getD_eq_getElem?_getD]
  congr 1
  rcases elsewhere with before | behind
  · rw [List.getElem?_append_left (by omega), List.getElem?_append_left (by omega),
      List.getElem?_take_of_lt before]
  · rw [List.getElem?_append_right (by omega), two, List.getElem?_drop]
    congr 1
    omega

theorem ntohsAt_store16 (room : off + 2 ≤ p.length) (elsewhere : i + 2 ≤ off ∨ off + 2 ≤ i) :
    ntohsAt (store16 order p off n) i = ntohsAt p i := by
  unfold ntohsAt
  rw [byteAt_store16 order room (by omega), byteAt_store16 order room (by omega)]

/-- What is stored by `htons` is read by `ntohs`. -/
theorem ntohsAt_store16_same (room : off + 2 ≤ p.length) :
    ntohsAt (store16 .big p off n) off = n % 2 ^ 16 := by
  have front : (p.take off).length = off := length_take_of_le (by omega)
  have first : byteAt (store16 .big p off n) off = UInt8.ofNat (n / 2 ^ 8) := by
    unfold byteAt store16
    rw [append_assoc, getD_eq_getElem?_getD,
      List.getElem?_append_right (by omega), front, Nat.sub_self]
    rfl
  have second : byteAt (store16 .big p off n) (off + 1) = UInt8.ofNat n := by
    unfold byteAt store16
    rw [append_assoc, getD_eq_getElem?_getD,
      List.getElem?_append_right (by omega), front, Nat.add_sub_cancel_left]
    rfl
  have byte : ∀ m : Nat, (UInt8.ofNat m).toNat = m % 2 ^ 8 := fun m => UInt8.toNat_ofNat'
  unfold ntohsAt
  rw [first, second, byte, byte]
  omega

theorem drop_store16 (room : off + 2 ≤ p.length) (behind : off + 2 ≤ i) :
    (store16 order p off n).drop i = p.drop i := by
  have front : (p.take off).length = off := length_take_of_le (by omega)
  have two : (p.take off ++ bytesOf order n).length = off + 2 := by
    rw [length_append, front, length_bytesOf]
  unfold store16
  rw [drop_append, drop_of_length_le (by omega), two, drop_drop, nil_append]
  congr 1
  omega

theorem store16_again (room : off + 2 ≤ p.length) (m : Nat) :
    store16 order (store16 order p off m) off n = store16 order p off n := by
  have front : (p.take off).length = off := length_take_of_le (by omega)
  have first : (store16 order p off m).take off = p.take off := by
    rw [store16, append_assoc]
    exact take_left' front
  show (store16 order p off m).take off ++ bytesOf order n ++
    (store16 order p off m).drop (off + 2) = _
  rw [first, drop_store16 order room (Nat.le_refl _)]
  rfl

end

/-! ## One fragment -/

def moreFragments (p : Bytes) : Bool := ntohsAt p 6 / ipMf % 2 = 1

/-- What a header becomes: the length and the offset are as they were given, the checksum is
right, and nothing else has changed. -/
theorem setFragment_spec (order : ByteOrder) {fpacket : Bytes} {headerlen : Nat} (len off : Nat)
    (room : headerlen ≤ fpacket.length) (header : 20 ≤ headerlen) (short : headerlen ≤ 60) :
    (setFragment order headerlen len off fpacket).length = fpacket.length ∧
      ntohsAt (setFragment order headerlen len off fpacket) 2 = len % 2 ^ 16 ∧
      ntohsAt (setFragment order headerlen len off fpacket) 6 = off % 2 ^ 16 ∧
      byteAt (setFragment order headerlen len off fpacket) 0 = byteAt fpacket 0 ∧
      (setFragment order headerlen len off fpacket).drop headerlen = fpacket.drop headerlen ∧
      SumsToOnes ((setFragment order headerlen len off fpacket).take headerlen) := by
  unfold setFragment
  dsimp only
  have two : 2 + 2 ≤ fpacket.length := by omega
  have a := length_store16 .big (n := len) two
  have six : 6 + 2 ≤ (store16 .big fpacket 2 len).length := by omega
  have b := length_store16 .big (n := off) six
  have ten : 10 + 2 ≤ (store16 .big (store16 .big fpacket 2 len) 6 off).length := by omega
  have c := length_store16 order (n := 0) ten
  have ten' : 10 + 2 ≤
      (store16 order (store16 .big (store16 .big fpacket 2 len) 6 off) 10 0).length := by omega
  refine ⟨?_, ?_, ?_, ?_, ?_, ?_⟩
  · rw [length_store16 order ten']
    omega
  · rw [ntohsAt_store16 order ten' (by omega), ntohsAt_store16 order ten (by omega),
      ntohsAt_store16 .big six (by omega), ntohsAt_store16_same two]
  · rw [ntohsAt_store16 order ten' (by omega), ntohsAt_store16 order ten (by omega),
      ntohsAt_store16_same six]
  · rw [byteAt_store16 order ten' (by omega), byteAt_store16 order ten (by omega),
      byteAt_store16 .big six (by omega), byteAt_store16 .big two (by omega)]
  · rw [drop_store16 order ten' (by omega), drop_store16 order ten (by omega),
      drop_store16 .big six (by omega), drop_store16 .big two (by omega)]
  · -- the header in front of and behind its checksum, which is zero when the sum is taken
    generalize store16 .big (store16 .big fpacket 2 len) 6 off = q at *
    have front : (q.take 10).length = 10 := length_take_of_le (by omega)
    let s : Summed := ⟨[], q.take 10, (q.drop 12).take (headerlen - 12), rfl, by omega, by
      rw [length_nil, length_take, length_take]
      omega⟩
    have part : ∀ n, (store16 order q 10 n).take headerlen = s.segment (bytesOf order n) := by
      intro n
      show (q.take 10 ++ bytesOf order n ++ q.drop 12).take headerlen =
        q.take 10 ++ bytesOf order n ++ (q.drop 12).take (headerlen - 12)
      rw [take_append, take_of_length_le (by
        rw [length_append, front, length_bytesOf]
        omega), length_append, front, length_bytesOf]
    have blank : s.segment (bytesOf order 0) = s.blank := by
      show s.segment _ = s.segment _
      cases order <;> rfl
    rw [store16_again order (by omega), part, part, blank]
    exact (inCksum_completes order s rfl).1

/-- An IPv4 packet, with a header as long as it says -/
structure Ipv4Packet where
  bytes : Bytes
  header : 20 ≤ ipHeaderLen bytes
  whole : ipHeaderLen bytes ≤ bytes.length
  short : bytes.length < 2 ^ 16

namespace Ipv4Packet

variable (packet : Ipv4Packet)

def headerlen : Nat := ipHeaderLen packet.bytes

def data : Bytes := packet.bytes.drop packet.headerlen

theorem headerlen_le : packet.headerlen ≤ 60 := by
  show (byteAt packet.bytes 0).toNat % 16 * 4 ≤ 60
  omega

theorem length_data : packet.headerlen + packet.data.length = packet.bytes.length := by
  rw [data, length_drop]
  exact Nat.add_sub_of_le packet.whole

/-- The fragment of this number, counted from zero: its header is as long, tells its length, and
has the right checksum; its data is that part of the data of the packet. -/
structure FragmentOf (mtu k : Nat) (p : Bytes) : Prop where
  header : ipHeaderLen p = packet.headerlen
  sums : SumsToOnes (p.take packet.headerlen)
  len : ipLen p = p.length
  inside : packet.headerlen ≤ p.length
  offset : fragOff p = k * mtu
  more : moreFragments p = decide ((k + 1) * mtu < packet.data.length)
  data : p.drop packet.headerlen = (packet.data.drop (k * mtu)).take mtu

/-- What the buffer keeps from one fragment to the next, and what it begins with -/
structure Buffer (mtu k : Nat) (fpacket : Bytes) : Prop where
  length : fpacket.length = packet.headerlen + mtu
  first : byteAt fpacket 0 = byteAt packet.bytes 0
  data : k = 0 → fpacket.drop packet.headerlen = packet.data.take mtu

end Ipv4Packet

variable {p : Bytes} {n i : Nat}

theorem byteAt_take (inside : i < n) :
    byteAt (p.take n) i = byteAt p i := by
  unfold byteAt
  rw [getD_eq_getElem?_getD, getD_eq_getElem?_getD, List.getElem?_take_of_lt inside]

theorem byteAt_of_take {q : Bytes} (same : p.take n = q.take n) (inside : i < n) :
    byteAt p i = byteAt q i := by
  rw [← byteAt_take inside, same, byteAt_take inside]

theorem ntohsAt_of_take {q : Bytes} (same : p.take n = q.take n) (inside : i + 1 < n) :
    ntohsAt p i = ntohsAt q i := by
  unfold ntohsAt
  rw [byteAt_of_take same (by omega), byteAt_of_take same inside]

theorem or_ipMf (small : n < 2 ^ 13) : n ||| ipMf = n + ipMf := by
  have sum := Nat.two_pow_add_eq_or_of_lt small 1
  rw [Nat.or_comm, Nat.add_comm]
  exact sum.symm

theorem copyData_spec {packet fpacket : Bytes} {headerlen start fdatalen : Nat}
    (room : headerlen + fdatalen ≤ fpacket.length) (inside : start + fdatalen ≤ packet.length) :
    (copyData packet headerlen start fdatalen fpacket).length = fpacket.length ∧
      (copyData packet headerlen start fdatalen fpacket).take headerlen = fpacket.take headerlen ∧
      ((copyData packet headerlen start fdatalen fpacket).drop headerlen).take fdatalen =
        (packet.drop start).take fdatalen := by
  have front : (fpacket.take headerlen).length = headerlen := length_take_of_le (by omega)
  have middle : ((packet.drop start).take fdatalen).length = fdatalen := by
    rw [length_take, length_drop]
    omega
  unfold copyData
  refine ⟨?_, ?_, ?_⟩
  · simp only [length_append, front, middle, length_drop]
    omega
  · rw [append_assoc, take_left' front]
  · rw [append_assoc, drop_left' front, take_left' middle]

section

variable (send : List Bytes → Bytes → Int) (order : ByteOrder) (packet : Ipv4Packet) {mtu : Nat}

theorem fdatalen_eq {a k datalen : Nat} (start : a = k * mtu) (more : a < datalen) :
    (if a + mtu ≤ datalen then mtu else datalen % mtu) = min mtu (datalen - a) := by
  split
  · next whole => omega
  · next cut =>
      have last : datalen = mtu * k + (datalen - a) := by
        rw [Nat.mul_comm]
        omega
      rw [last, Nat.mul_add_mod, Nat.mod_eq_of_lt (by omega)]
      omega

/-- The fragment in the buffer is the one of its number, and the buffer stays ready. -/
theorem nextFragment_spec (multiple : mtu % 8 = 0) (smaller : mtu < packet.data.length)
    {k : Nat} {fpacket : Bytes} (buffer : packet.Buffer mtu k fpacket)
    (more : k * mtu < packet.data.length) :
    ∃ next, next = nextFragment order packet.bytes packet.headerlen mtu packet.data.length (k + 1)
        fpacket ∧
      packet.FragmentOf mtu k (next.take (ntohsAt next 2)) ∧ packet.Buffer mtu (k + 1) next := by
  have header : 20 ≤ packet.headerlen := packet.header
  have header' := packet.headerlen_le
  have whole := packet.length_data
  have short := packet.short
  have eight : k * mtu % 8 = 0 := by rw [Nat.mul_mod, multiple, Nat.mul_zero, Nat.zero_mod]
  have next_ : (k + 1) * mtu = k * mtu + mtu := Nat.succ_mul k mtu
  obtain ⟨a, start⟩ : ∃ a, a = k * mtu := ⟨_, rfl⟩
  rw [← start] at more eight next_
  obtain ⟨fd, fd_eq⟩ : ∃ fd, fd = min mtu (packet.data.length - a) := ⟨_, rfl⟩
  obtain ⟨off, off_eq⟩ : ∃ off, off = if a + fd < packet.data.length then a / 8 ||| ipMf
    else a / 8 := ⟨_, rfl⟩
  obtain ⟨fp, fp_eq⟩ : ∃ fp, fp = setFragment order packet.headerlen (packet.headerlen + fd) off
    fpacket := ⟨_, rfl⟩
  have made : nextFragment order packet.bytes packet.headerlen mtu packet.data.length (k + 1)
      fpacket = if k + 1 > 1 then
        copyData packet.bytes packet.headerlen (packet.headerlen + a) fd fp else fp := by
    unfold nextFragment u32
    dsimp only
    rw [Nat.add_sub_cancel, next_, ← start, Nat.mod_eq_of_lt (show a + mtu < 2 ^ 32 by omega),
      Nat.mod_eq_of_lt (show a < 2 ^ 32 by omega), fdatalen_eq start more, ← fd_eq,
      Nat.mod_eq_of_lt (show a + fd < 2 ^ 32 by omega), ← off_eq, ← fp_eq]
  obtain ⟨length, two, six, zero, behind, sums⟩ := setFragment_spec order
    (packet.headerlen + fd) off (show packet.headerlen ≤ fpacket.length by
      rw [buffer.length]
      omega) header header'
  rw [← fp_eq, buffer.length] at length
  rw [← fp_eq] at two six zero behind sums
  -- the data that the fragment is to carry
  obtain ⟨part, part_eq⟩ : ∃ part, part = (packet.data.drop a).take mtu := ⟨_, rfl⟩
  have part_take : (packet.bytes.drop (packet.headerlen + a)).take fd = part := by
    rw [part_eq, Ipv4Packet.data, drop_drop, take_eq_take_iff, length_drop]
    omega
  obtain ⟨next, next_eq⟩ : ∃ next, next = if k + 1 > 1 then
    copyData packet.bytes packet.headerlen (packet.headerlen + a) fd fp else fp := ⟨_, rfl⟩
  have copied : next.length = packet.headerlen + mtu ∧
      next.take packet.headerlen = fp.take packet.headerlen ∧
      (next.drop packet.headerlen).take fd = part := by
    rw [next_eq]
    split
    · obtain ⟨length', front, data⟩ := copyData_spec
        (show packet.headerlen + fd ≤ fp.length by omega)
        (show packet.headerlen + a + fd ≤ packet.bytes.length by omega)
      exact ⟨length'.trans length, front, data.trans part_take⟩
    · -- the first fragment was copied with the header
      have first : k = 0 := by omega
      refine ⟨length, rfl, ?_⟩
      have none_ : a = 0 := by rw [start, first, Nat.zero_mul]
      rw [behind, buffer.data first, part_eq, none_, drop_zero, take_take]
      congr 1
      omega
  obtain ⟨length', front, data⟩ := copied
  have len : ntohsAt next 2 = packet.headerlen + fd := by
    rw [ntohsAt_of_take front (by omega), two, Nat.mod_eq_of_lt (by omega)]
  have out_length : (next.take (packet.headerlen + fd)).length = packet.headerlen + fd :=
    length_take_of_le (by omega)
  have out_front : (next.take (packet.headerlen + fd)).take packet.headerlen =
      fp.take packet.headerlen := by
    rw [take_take, Nat.min_eq_left (Nat.le_add_right _ _), front]
  have first : ∀ p : Bytes, p.take packet.headerlen = fp.take packet.headerlen →
      byteAt p 0 = byteAt packet.bytes 0 := by
    intro p same
    rw [byteAt_of_take same (by omega), zero, buffer.first]
  have off_small : off % 2 ^ 16 = off := by
    rw [off_eq]
    split
    · rw [or_ipMf (show a / 8 < 2 ^ 13 by omega)]
      unfold ipMf
      omega
    · omega
  have out_off : ntohsAt (next.take (packet.headerlen + fd)) 6 = off := by
    rw [ntohsAt_of_take out_front (by omega), six, off_small]
  refine ⟨next, next_eq.trans made.symm, ?_, ?_⟩
  · rw [len]
    refine ⟨?_, ?_, ?_, ?_, ?_, ?_, ?_⟩
    · show (byteAt _ 0).toNat % 16 * 4 = (byteAt _ 0).toNat % 16 * 4
      rw [first _ out_front]
    · rw [out_front]
      exact sums
    · show ntohsAt _ 2 = _
      rw [ntohsAt_of_take out_front (by omega), two, out_length, Nat.mod_eq_of_lt (by omega)]
    · omega
    · show 8 * (ntohsAt _ 6 % 0x2000) = k * mtu
      rw [out_off, off_eq, ← start]
      split
      · rw [or_ipMf (show a / 8 < 2 ^ 13 by omega)]
        unfold ipMf
        omega
      · omega
    · unfold moreFragments
      rw [out_off, off_eq, next_]
      apply decide_eq_decide.mpr
      split
      · rw [or_ipMf (show a / 8 < 2 ^ 13 by omega)]
        unfold ipMf
        omega
      · unfold ipMf
        omega
    · rw [drop_take, Nat.add_sub_cancel_left, data, part_eq, start]
  · exact ⟨length', first _ front, fun zero => absurd zero (by omega)⟩

/-! ## All fragments -/

/-- The fragments from one number on, up to the end of the data -/
def FragmentsFrom (packet : Ipv4Packet) (mtu : Nat) : Nat → List Bytes → Prop
  | k, [] => packet.data.length ≤ k * mtu
  | k, p :: ps =>
    k * mtu < packet.data.length ∧ packet.FragmentOf mtu k p ∧ FragmentsFrom packet mtu (k + 1) ps

/-- **The loop sends all fragments**, if no send fails. The fuel that is enough goes down with what
is left of the data. -/
theorem sendFragments_all (positive : 0 < mtu) (multiple : mtu % 8 = 0)
    (smaller : mtu < packet.data.length) (succeed : ∀ sent p, send sent p ≠ -1) :
    ∀ (fuel k : Nat) (fpacket : Bytes) (res : Int) (sent : List Bytes),
      packet.Buffer mtu k fpacket → packet.data.length + mtu ≤ k * mtu + fuel →
      k * mtu < packet.data.length + mtu → res ≠ -1 →
      ∃ rest res', sendFragments send order packet.bytes packet.headerlen mtu packet.data.length
          fuel (k + 1) fpacket res sent = .done (sent ++ rest) res' ∧
        res' ≠ -1 ∧ FragmentsFrom packet mtu k rest := by
  intro fuel
  induction fuel with
  | zero =>
    intro k fpacket res sent buffer enough last good
    exfalso
    omega
  | succ fuel ih =>
    intro k fpacket res sent buffer enough last good
    have whole := packet.length_data
    have short := packet.short
    have next_ : (k + 1) * mtu = k * mtu + mtu := Nat.succ_mul k mtu
    rw [sendFragments]
    have test : u32 ((k + 1) * mtu) < u32 (packet.data.length + mtu) ↔
        k * mtu < packet.data.length := by
      unfold u32
      rw [next_, Nat.mod_eq_of_lt (by omega), Nat.mod_eq_of_lt (by omega)]
      omega
    by_cases more : k * mtu < packet.data.length
    · rw [if_pos (test.mpr more)]
      obtain ⟨next, next_eq, fragment, buffer'⟩ :=
        nextFragment_spec order packet multiple smaller buffer more
      dsimp only
      rw [← next_eq, if_neg (succeed _ _)]
      obtain ⟨rest, res', run, good', from_⟩ := ih (k + 1) next _
        (sent ++ [next.take (ntohsAt next 2)]) buffer' (by omega) (by omega) (succeed _ _)
      refine ⟨next.take (ntohsAt next 2) :: rest, res', ?_, good', more, fragment, from_⟩
      rw [run, append_assoc]
      rfl
    · rw [if_neg (fun less => more (test.mp less))]
      refine ⟨[], res, ?_, good, by simpa [FragmentsFrom] using more⟩
      rw [append_nil]

end

/-- A fragment as a receiver takes it: where its data belongs, by its header, and the data -/
def pieceOf (p : Bytes) : Piece UInt8 := ⟨fragOff p, p.drop (ipHeaderLen p)⟩

section

variable {packet : Ipv4Packet} {mtu k : Nat}

theorem Ipv4Packet.FragmentOf.piece {p : Bytes} (fragment : packet.FragmentOf mtu k p) :
    pieceOf p = ⟨k * mtu, (packet.data.drop (k * mtu)).take mtu⟩ := by
  rw [pieceOf, fragment.header, fragment.offset, fragment.data]

/-- The data of the fragments is contiguous, and is all that is left. -/
theorem FragmentsFrom.pieces : ∀ {ps : List Bytes} {k : Nat}, FragmentsFrom packet mtu k ps →
    Contiguous (k * mtu) (ps.map pieceOf) ∧
      texts (ps.map pieceOf) = packet.data.drop (k * mtu) := by
  intro ps
  induction ps with
  | nil =>
    intro k done
    exact ⟨trivial, (drop_of_length_le done).symm⟩
  | cons p ps ih =>
    intro k fragments
    obtain ⟨more, fragment, rest⟩ := fragments
    obtain ⟨contiguous, text⟩ := ih rest
    have next_ : (k + 1) * mtu = k * mtu + mtu := Nat.succ_mul k mtu
    rw [map_cons, fragment.piece]
    refine ⟨⟨rfl, ?_⟩, ?_⟩
    · cases ps with
      | nil => trivial
      | cons q qs =>
        -- only the last fragment is shorter
        have full : ((packet.data.drop (k * mtu)).take mtu).length = mtu := by
          have later := rest.1
          rw [length_take, length_drop]
          omega
        show Contiguous (k * mtu + ((packet.data.drop (k * mtu)).take mtu).length) _
        rw [full, ← next_]
        exact contiguous
    · rw [texts, flatMap_cons]
      change _ ++ texts (ps.map pieceOf) = _
      rw [text, next_, ← drop_drop]
      exact take_append_drop _ _

/-- All but the last say that more follow. -/
theorem FragmentsFrom.more : ∀ {ps : List Bytes} {k : Nat}, FragmentsFrom packet mtu k ps →
    (∀ p ∈ ps.dropLast, moreFragments p = true) ∧ ∀ p ∈ ps.getLast?, moreFragments p = false := by
  intro ps
  induction ps with
  | nil =>
    intro k _
    exact ⟨by simp, by simp⟩
  | cons p ps ih =>
    intro k fragments
    obtain ⟨-, fragment, rest⟩ := fragments
    cases ps with
    | nil =>
      refine ⟨by simp, ?_⟩
      intro q last
      cases last
      show moreFragments p = false
      rw [fragment.more, decide_eq_false_iff_not]
      exact Nat.not_lt.mpr rest
    | cons q qs =>
      obtain ⟨all, last⟩ := ih rest
      refine ⟨?_, ?_⟩
      · intro r mem
        rcases mem_cons.mp mem with rfl | later
        · rw [fragment.more, decide_eq_true_eq]
          exact rest.1
        · exact all r later
      · rw [List.getLast?_cons_cons]
        exact last

theorem FragmentsFrom.each : ∀ {ps : List Bytes} {k : Nat}, FragmentsFrom packet mtu k ps →
    ∀ p ∈ ps, ∃ j, packet.FragmentOf mtu j p := by
  intro ps
  induction ps with
  | nil => simp
  | cons q ps ih =>
    intro k fragments p mem
    rcases mem_cons.mp mem with rfl | later
    · exact ⟨k, fragments.2.1⟩
    · exact ih fragments.2.2 p later

end

section

variable (send : List Bytes → Bytes → Int) (order : ByteOrder) (packet : Ipv4Packet) {mtu : Nat}

/-- All fragments are sent, when the data is longer than `mtu`. -/
theorem sendFragIpPacket_fragments (positive : 0 < mtu) (multiple : mtu % 8 = 0)
    (smaller : mtu < packet.data.length) (succeed : ∀ sent p, send sent p ≠ -1) :
    ∃ sent res, sendFragIpPacket send order packet.bytes mtu = .done sent res ∧ res ≠ -1 ∧
      FragmentsFrom packet mtu 0 sent := by
  have header : 20 ≤ packet.headerlen := packet.header
  have whole := packet.length_data
  have buffer : packet.Buffer mtu 0 (packet.bytes.take (packet.headerlen + mtu)) := by
    refine ⟨length_take_of_le (by omega), byteAt_take (by omega), ?_⟩
    intro _
    rw [drop_take, Nat.add_sub_cancel_left]
    rfl
  obtain ⟨sent, res, run, good, fragments⟩ := sendFragments_all send order packet positive multiple
    smaller succeed (packet.data.length + mtu) 0 _ 0 [] buffer (by omega) (by omega) (by decide)
  refine ⟨sent, res, ?_, good, fragments⟩
  have datalen : packet.bytes.length - packet.headerlen = packet.data.length := by omega
  rw [nil_append] at run
  rw [← run]
  unfold sendFragIpPacket
  rw [if_neg (not_not.mpr packet.whole), if_neg (not_not.mpr ⟨header, packet.headerlen_le⟩),
    if_neg (not_not.mpr ⟨positive, multiple⟩)]
  change packet.bytes.length - ipHeaderLen packet.bytes = _ at datalen
  rw [datalen, if_neg (by omega)]
  rfl

/-- **Fragmentation loses nothing.** For every IPv4 packet and every positive multiple of 8 less
than the length of its data, if no send fails, the fragments that are sent are contiguous from
offset zero, all but the last say that more follow, each tells the length of its header and
data, and put together in any order they are the data of the packet. -/
theorem fragments_reassemble (positive : 0 < mtu) (multiple : mtu % 8 = 0)
    (smaller : mtu < packet.data.length) (succeed : ∀ sent p, send sent p ≠ -1) :
    ∃ sent res, sendFragIpPacket send order packet.bytes mtu = .done sent res ∧ res ≠ -1 ∧
      Contiguous 0 (sent.map pieceOf) ∧
      (∀ p ∈ sent.dropLast, moreFragments p = true) ∧
      (∀ p ∈ sent.getLast?, moreFragments p = false) ∧
      (∀ p ∈ sent, ipHeaderLen p = packet.headerlen ∧
        ipLen p = packet.headerlen + (pieceOf p).data.length ∧ ipLen p = p.length ∧
        SumsToOnes (p.take packet.headerlen)) ∧
      ∀ arrived : List Bytes, arrived.Perm sent → ∀ i,
        reassemble (arrived.map pieceOf) i = packet.data[i]? := by
  obtain ⟨sent, res, run, good, fragments⟩ :=
    sendFragIpPacket_fragments send order packet positive multiple smaller succeed
  obtain ⟨contiguous, text⟩ := fragments.pieces
  rw [Nat.zero_mul] at contiguous text
  obtain ⟨all, last⟩ := fragments.more
  refine ⟨sent, res, run, good, contiguous, all, last, ?_, ?_⟩
  · intro p mem
    obtain ⟨k, fragment⟩ := fragments.each p mem
    refine ⟨fragment.header, ?_, fragment.len, fragment.sums⟩
    have inside := fragment.inside
    rw [fragment.len, pieceOf, fragment.header, length_drop]
    omega
  · intro arrived perm i
    rw [reassemble_perm contiguous (perm.map pieceOf) i, text]
    rfl

end

/-- An IPv4 packet with twelve bytes of data -/
def twelveBytes : Ipv4Packet where
  bytes := (udpPacket 28).buffer ++ [1, 2, 3, 4]
  header := by decide
  whole := by decide
  short := by decide

theorem fragments_reassemble_twelve :
    ∃ sent res, sendFragIpPacket (fun _ _ => 0) .little twelveBytes.bytes 8 = .done sent res ∧
      res ≠ -1 ∧ ∀ arrived : List Bytes, arrived.Perm sent → ∀ i,
        reassemble (arrived.map pieceOf) i = twelveBytes.data[i]? := by
  obtain ⟨sent, res, run, good, -, -, -, -, whole⟩ := fragments_reassemble (fun _ _ => 0) .little
    twelveBytes (show 0 < 8 by decide) (by decide) (by decide) (fun _ _ => by decide)
  exact ⟨sent, res, run, good, whole⟩

end Nmap.Packet
