import Mathlib.Data.List.TakeDrop
import Nmap.Base.OnesComplement
import Nmap.Packet.Validate

/-!
# Checksums (`netutil.cc`, `tcpip.cc`, libdnet's `ip-util.c`)

The checksums of IP headers, and of TCP, UDP and ICMP segments with their pseudo-headers. The
code adds up words in the byte order of the machine.
-/

namespace Nmap.Packet

open Nmap.Base OnesComplement

abbrev InAddr := Vector UInt8 4

abbrev In6Addr := Vector UInt8 16

/-- `htons`, as bytes in memory -/
def htons (n : Nat) : Bytes := bytesOf .big n

/-- `htonl`, as bytes in memory -/
def htonl (n : Nat) : Bytes := htons (n / 2 ^ 16) ++ htons n

section

variable (order : ByteOrder)

/-- `ip_cksum_add`. The sum is taken to fit in its `int`. -/
def ipCksumAdd (buf : Bytes) (cksum : Nat) : Nat := cksum + (words order buf).sum

def ipCksumCarry (x : Nat) : Nat :=
  let x := x / 2 ^ 16 + x % 2 ^ 16
  2 ^ 16 - 1 - (x + x / 2 ^ 16) % 2 ^ 16

def inCksum (buf : Bytes) : Nat := ipCksumCarry (ipCksumAdd order buf 0)

/-- The part that the two functions for pseudo-headers share: for UDP, zero is replaced. -/
def pseudoCksum (hdr : Bytes) (proto : UInt8) (data : Bytes) : Nat :=
  let sum := ipCksumAdd order hdr 0
  let sum := ipCksumAdd order data sum
  let sum := ipCksumCarry sum
  if proto = ipprotoUdp && sum = 0 then 0xFFFF else sum

def pseudo4 (src dst : InAddr) (proto : UInt8) (len : Nat) : Bytes :=
  src.toList ++ dst.toList ++ [0, proto] ++ htons len

def pseudo6 (src dst : In6Addr) (nxt : UInt8) (len : Nat) : Bytes :=
  src.toList ++ dst.toList ++ htonl len ++ [0, 0, 0, nxt]

/-- `ipv4_pseudoheader_cksum`, with `len` a `u16` -/
def ipv4PseudoheaderCksum (src dst : InAddr) (proto : UInt8) (len : Nat) (hstart : Bytes) : Nat :=
  pseudoCksum order (pseudo4 src dst proto len) proto (hstart.take len)

/-- `ipv6_pseudoheader_cksum`, with `len` a `u32` -/
def ipv6PseudoheaderCksum (src dst : In6Addr) (nxt : UInt8) (len : Nat) (hstart : Bytes) : Nat :=
  pseudoCksum order (pseudo6 src dst nxt len) nxt (hstart.take len)

end

/-- What `--badsum` does to a checksum; for UDP, zero is replaced again. -/
def spoil (badsum : Bool) (proto : UInt8) (sum : Nat) : Nat :=
  if badsum then
    let sum := (sum + 0xFFFF) % 2 ^ 16
    if proto = ipprotoUdp && sum = 0 then 0xffff else sum
  else sum

/-- `ipv4_cksum`; the length is passed as a `u16`. -/
def ipv4Cksum (order : ByteOrder) (badsum : Bool) (src dst : InAddr) (proto : UInt8)
    (data : Bytes) (len : Nat) : Nat :=
  spoil badsum proto (ipv4PseudoheaderCksum order src dst proto (len % 2 ^ 16) data)

/-- `ipv6_cksum`; the length is passed as a `u16`. -/
def ipv6Cksum (order : ByteOrder) (badsum : Bool) (src dst : In6Addr) (nxt : UInt8)
    (data : Bytes) (len : Nat) : Nat :=
  spoil badsum nxt (ipv6PseudoheaderCksum order src dst nxt (len % 2 ^ 16) data)

def store16 (order : ByteOrder) (p : Bytes) (off sum : Nat) : Bytes :=
  p.take off ++ bytesOf order sum ++ p.drop (off + 2)

/-! ## Sums -/

theorem ipCksumCarry_spec {x : Nat} (small : x < 2 ^ 32) :
    ipCksumCarry x < 2 ^ 16 ∧ (x + ipCksumCarry x) % ones = 0 ∧ x + ipCksumCarry x ≠ 0 ∧
      (ipCksumCarry x = 0 ↔ x % ones = 0 ∧ x ≠ 0) := by
  unfold ipCksumCarry ones
  dsimp only
  have whole := Nat.div_add_mod x (2 ^ 16)
  have low := Nat.mod_lt x (show 0 < 2 ^ 16 by decide)
  have high : x / 2 ^ 16 < 2 ^ 16 := by omega
  generalize x / 2 ^ 16 = a at *
  generalize x % 2 ^ 16 = b at *
  subst whole
  -- the first addition has a carry or not, and the second never
  rcases Nat.lt_or_ge (a + b) (2 ^ 16) with fits | carry
  · rw [Nat.div_eq_of_lt fits, Nat.add_zero, Nat.mod_eq_of_lt fits]
    omega
  · have once : (a + b) / 2 ^ 16 = 1 := by omega
    have rest : (a + b + 1) % 2 ^ 16 = a + b + 1 - 2 ^ 16 := by omega
    rw [once, rest]
    omega

theorem length_htons (n : Nat) : (htons n).length = 2 := rfl

theorem length_htonl (n : Nat) : (htonl n).length = 4 := rfl

theorem length_pseudo4 (src dst : InAddr) (proto : UInt8) (len : Nat) :
    (pseudo4 src dst proto len).length = 12 := by
  simp [pseudo4, length_htons]

theorem length_pseudo6 (src dst : In6Addr) (nxt : UInt8) (len : Nat) :
    (pseudo6 src dst nxt len).length = 40 := by
  simp [pseudo6, length_htonl]

/-! ## What a receiver finds -/

/-- The one's complement sum of a text, in network order, is all ones. -/
def SumsToOnes (s : Bytes) : Prop := OnesComplement.sum (words .big s) = ones

instance (s : Bytes) : Decidable (SumsToOnes s) := inferInstanceAs (Decidable (_ = _))

/-- The text of a segment in front of and behind its checksum, with what is added up before
it: the pseudo-header, if there is one. -/
structure Summed where
  hdr : Bytes
  pre : Bytes
  post : Bytes
  evenHdr : hdr.length % 2 = 0
  evenPre : pre.length % 2 = 0
  short : hdr.length + pre.length + post.length < 2 ^ 16 + 2 ^ 8

namespace Summed

variable (order : ByteOrder)

/-- The segment with two bytes as its checksum -/
def segment (s : Summed) (field : Bytes) : Bytes := s.pre ++ field ++ s.post

/-- The segment before its checksum is stored -/
def blank (s : Summed) : Bytes := s.segment [0, 0]

theorem sum_lt (s : Summed) :
    (words order s.hdr).sum + (words order s.blank).sum < 2 ^ 32 := by
  have hdr := sum_words_le order s.hdr
  have rest := sum_words_le order s.blank
  have length : s.blank.length = s.pre.length + 2 + s.post.length := by
    simp only [blank, segment, List.length_append, List.length_cons, List.length_nil]
  have short := s.short
  omega

theorem words_segment (s : Summed) {n : Nat} (small : n < 2 ^ 16) :
    (words order (s.hdr ++ s.segment (bytesOf order n))).sum =
      (words order s.hdr).sum + (words order s.blank).sum + n := by
  rw [words_append order s.evenHdr, List.sum_append, segment,
    sum_words_field order s.evenPre small, blank, segment]
  omega

theorem sumsToOnes_iff (s : Summed) {n : Nat} (small : n < 2 ^ 16) :
    SumsToOnes (s.hdr ++ s.segment (bytesOf order n)) ↔
      ((words order s.hdr).sum + (words order s.blank).sum + n) % ones = 0 ∧
        (words order s.hdr).sum + (words order s.blank).sum + n ≠ 0 := by
  unfold SumsToOnes
  rw [sum_words_eq_ones_iff order, s.words_segment order small]

/-- The segment without its checksum sums to all ones already. -/
def Full (s : Summed) : Prop := SumsToOnes (s.hdr ++ s.blank)

instance (s : Summed) : Decidable s.Full := inferInstanceAs (Decidable (SumsToOnes _))

theorem full_iff (s : Summed) : s.Full ↔
    ((words order s.hdr).sum + (words order s.blank).sum) % ones = 0 ∧
      (words order s.hdr).sum + (words order s.blank).sum ≠ 0 := by
  have zero : bytesOf order 0 = [0, 0] := by cases order <;> rfl
  have iff := s.sumsToOnes_iff order (n := 0) (by decide)
  rw [zero, Nat.add_zero] at iff
  exact iff

end Summed

section

variable (order : ByteOrder) (s : Summed) (proto : UInt8)

/-- What is known of a checksum over a segment that has none yet -/
theorem pseudoCksum_spec :
    pseudoCksum order s.hdr proto s.blank < 2 ^ 16 ∧
      ((words order s.hdr).sum + (words order s.blank).sum +
        pseudoCksum order s.hdr proto s.blank) % ones = 0 ∧
      (words order s.hdr).sum + (words order s.blank).sum +
        pseudoCksum order s.hdr proto s.blank ≠ 0 ∧
      (pseudoCksum order s.hdr proto s.blank = 0 ↔ proto ≠ ipprotoUdp ∧ s.Full) := by
  obtain ⟨below, multiple, positive, zero⟩ := ipCksumCarry_spec (s.sum_lt order)
  rw [s.full_iff order, ← zero]
  unfold pseudoCksum ipCksumAdd
  dsimp only
  rw [Nat.zero_add]
  split
  · next replaced =>
      -- all ones count as much as the zero that they replace
      rw [Bool.and_eq_true, decide_eq_true_eq, decide_eq_true_eq] at replaced
      obtain ⟨udp, is⟩ := replaced
      rw [is, Nat.add_zero] at multiple positive
      unfold ones at multiple ⊢
      refine ⟨by decide, by omega, by omega, ?_⟩
      simp [udp]
  · next kept =>
      refine ⟨below, multiple, positive, ?_⟩
      constructor
      · intro is
        simp only [is, decide_true, Bool.and_true, decide_eq_true_eq] at kept
        exact ⟨kept, is⟩
      · rintro ⟨-, is⟩
        exact is

/-- **Checksums complete the sum.** A segment with the checksum that the code computes for it
sums to all ones with the pseudo-header, and for UDP the checksum is not zero. -/
theorem checksum_completes :
    SumsToOnes (s.hdr ++ s.segment (bytesOf order (pseudoCksum order s.hdr proto s.blank))) ∧
      (proto = ipprotoUdp → pseudoCksum order s.hdr proto s.blank ≠ 0) := by
  obtain ⟨below, multiple, positive, zero⟩ := pseudoCksum_spec order s proto
  refine ⟨(s.sumsToOnes_iff order below).mpr ⟨multiple, positive⟩, ?_⟩
  intro udp is
  exact (zero.mp is).1 udp

theorem spoil_lt (sum : Nat) : spoil true proto sum < 2 ^ 16 := by
  unfold spoil
  rw [if_pos rfl]
  dsimp only
  split
  · decide
  · omega

theorem spoil_udp (sum : Nat) : spoil true ipprotoUdp sum ≠ 0 := by
  unfold spoil
  rw [if_pos rfl]
  dsimp only
  split
  · decide
  · next kept => simpa using kept

theorem decrement_of_pos {sum : Nat} (positive : 0 < sum) (below : sum < 2 ^ 16) :
    (sum + 0xFFFF) % 2 ^ 16 = sum - 1 := by
  have eq : sum + 0xFFFF = sum - 1 + 2 ^ 16 := by omega
  rw [eq, Nat.add_mod_right, Nat.mod_eq_of_lt (by omega)]

theorem decrement_completes_iff {rest sum : Nat} (below : sum < 2 ^ 16)
    (multiple : (rest + sum) % ones = 0) (positive : rest + sum ≠ 0) :
    (rest + (sum + 0xFFFF) % 2 ^ 16) % ones = 0 ∧ rest + (sum + 0xFFFF) % 2 ^ 16 ≠ 0 ↔
      sum = 0 := by
  unfold ones at *
  rcases Nat.eq_zero_or_pos sum with zero | one
  · subst zero
    have all : (0 + 0xFFFF) % 2 ^ 16 = 2 ^ 16 - 1 := rfl
    rw [all, Nat.add_mod_right]
    refine ⟨fun _ => rfl, fun _ => ⟨multiple, ?_⟩⟩
    omega
  · rw [decrement_of_pos one below]
    constructor
    · rintro ⟨again, -⟩
      omega
    · omega

/-- **When a spoiled checksum is accepted.** The checksum that is one less completes the sum as
well exactly when the right one is zero, and UDP has no such checksum. -/
theorem spoiled_accepted_iff :
    SumsToOnes (s.hdr ++ s.segment (bytesOf order
      (spoil true proto (pseudoCksum order s.hdr proto s.blank)))) ↔
      proto ≠ ipprotoUdp ∧ s.Full := by
  obtain ⟨below, multiple, positive, zero⟩ := pseudoCksum_spec order s proto
  rw [s.sumsToOnes_iff order (spoil_lt proto _), ← zero]
  have nonzero := (checksum_completes order s proto).2
  generalize pseudoCksum order s.hdr proto s.blank = sum at *
  generalize (words order s.hdr).sum + (words order s.blank).sum = rest at *
  unfold spoil
  rw [if_pos rfl]
  dsimp only
  split
  · next replaced =>
      rw [Bool.and_eq_true, decide_eq_true_eq, decide_eq_true_eq] at replaced
      -- the right checksum is one here, and all ones are put in its place
      have some_ := nonzero replaced.1
      rw [decrement_of_pos (Nat.pos_of_ne_zero some_) below] at replaced
      unfold ones at multiple ⊢
      constructor
      · rintro ⟨again, -⟩
        omega
      · intro none_
        exact absurd none_ some_
  · exact decrement_completes_iff below multiple positive

end

theorem inCksum_completes (order : ByteOrder) (s : Summed) (bare : s.hdr = []) :
    SumsToOnes (s.segment (bytesOf order (inCksum order s.blank))) ∧
      (inCksum order s.blank = 0 ↔ s.Full) := by
  have other : (0 : UInt8) ≠ ipprotoUdp := by decide
  have same : pseudoCksum order s.hdr 0 s.blank = inCksum order s.blank := by
    unfold pseudoCksum inCksum ipCksumAdd
    rw [bare]
    simp [words, ipprotoUdp]
  obtain ⟨-, -, -, zero⟩ := pseudoCksum_spec order s 0
  have completes := (checksum_completes order s 0).1
  rw [same] at zero completes
  rw [bare, List.nil_append] at completes
  refine ⟨completes, zero.trans ?_⟩
  simp [other]

end Nmap.Packet
