import Mathlib.Data.Nat.Bitwise
import Mathlib.Tactic.SplitIfs

/-!
# Try numbers in TCP probes (`scan_engine_raw.cc`, `tcpip.cc`)

With a fixed source port, the try number of a TCP probe is sent in its sequence number, or in
its acknowledgement number if the probe has the ACK flag: the number is put into both halves of
32 bits, under a random mask. A response is decoded by trying three of its fields, and the
halves must be equal once the mask is off.

`survives_iff`: the halves are also equal by accident, for some masks, and then the wrong field
is taken.
-/

namespace Nmap.ScanEngine

/-! ## Encoding -/

def mirror (nfo : UInt8) : UInt32 := (nfo.toUInt32 <<< 16) + nfo.toUInt32

def seq32Encode (seqmask : UInt32) (trynum : UInt8) : UInt32 := mirror trynum ^^^ seqmask

def seq32Decode (seqmask seq : UInt32) : Option UInt8 :=
  let seq := seq ^^^ seqmask
  if seq >>> 16 ≠ seq &&& 0xFFFF then none else some (seq &&& 0xFF).toUInt8

/-- The three attempts of `tcp_probe_match`: `th_ack` less one, `th_ack`, `th_seq` -/
def decodeTryno (seqmask thAck thSeq : UInt32) : Option UInt8 :=
  seq32Decode seqmask (thAck - 1) <|> seq32Decode seqmask thAck <|> seq32Decode seqmask thSeq

/-- The fields of a TCP header that carry the try number -/
structure TcpNumbers where
  thSeq : UInt32
  thAck : UInt32
  deriving DecidableEq, Repr

/-- `build_tcp`; a sequence number of zero is replaced in a SYN. -/
def buildTcp (seq ack : UInt32) (flags : UInt8) (random : UInt32) : TcpNumbers where
  thSeq := if seq ≠ 0 then seq else if flags &&& 0x02 ≠ 0 then random else 0
  thAck := ack

/-- The TCP probe that `sendIPScanProbe` builds -/
def tcpProbe (seqmask : UInt32) (tryno flags : UInt8) (random : UInt32) : TcpNumbers :=
  if flags &&& 0x10 ≠ 0 then buildTcp 0 (seq32Encode seqmask tryno) flags random
  else buildTcp (seq32Encode seqmask tryno) 0 flags random

/-! ## Halves -/

def hi (x : UInt32) : Nat := x.toNat / 2 ^ 16

def lo (x : UInt32) : Nat := x.toNat % 2 ^ 16

def Mirrored (x : UInt32) : Prop := hi x = lo x

instance (x : UInt32) : Decidable (Mirrored x) := inferInstanceAs (Decidable (_ = _))

theorem hi_lt (x : UInt32) : hi x < 2 ^ 16 := by
  have := x.toNat_lt
  rw [hi]
  omega

theorem hi_xor (x y : UInt32) : hi (x ^^^ y) = hi x ^^^ hi y := by
  simp only [hi, UInt32.toNat_xor, ← Nat.shiftRight_eq_div_pow]
  exact Nat.shiftRight_xor_distrib

theorem lo_xor (x y : UInt32) : lo (x ^^^ y) = lo x ^^^ lo y := by
  simp only [lo, UInt32.toNat_xor]
  exact Nat.xor_mod_two_pow

theorem mirrored_iff (x : UInt32) : Mirrored x ↔ x >>> 16 = x &&& 0xFFFF := by
  have upper : (x >>> 16).toNat = hi x := by
    rw [UInt32.toNat_shiftRight]
    exact Nat.shiftRight_eq_div_pow _ _
  have lower : (x &&& 0xFFFF).toNat = lo x := by
    rw [UInt32.toNat_and]
    exact Nat.and_two_pow_sub_one_eq_mod x.toNat 16
  rw [← UInt32.toNat_inj, upper, lower, Mirrored]

theorem mirrored_xor {y : UInt32} (mirrored : Mirrored y) (x : UInt32) :
    Mirrored (x ^^^ y) ↔ Mirrored x := by
  rw [Mirrored, Mirrored, hi_xor, lo_xor, mirrored]
  exact Nat.xor_left_inj

theorem toNat_mirror (nfo : UInt8) : (mirror nfo).toNat = nfo.toNat * 2 ^ 16 + nfo.toNat := by
  have small := nfo.toNat_lt
  rw [mirror, UInt32.toNat_add, UInt32.toNat_shiftLeft, UInt8.toNat_toUInt32]
  show (nfo.toNat <<< 16 % 2 ^ 32 + nfo.toNat) % 2 ^ 32 = _
  rw [Nat.shiftLeft_eq]
  omega

theorem mirrored_mirror (nfo : UInt8) : Mirrored (mirror nfo) := by
  have small := nfo.toNat_lt
  rw [Mirrored, hi, lo, toNat_mirror]
  omega

theorem flip_half {a : Nat} (small : a < 2 ^ 16) : (2 ^ 16 - 1) ^^^ a = 2 ^ 16 - 1 - a := by
  apply Nat.eq_of_testBit_eq
  intro i
  rw [show 2 ^ 16 - 1 - a = 2 ^ 16 - (a + 1) by omega, Nat.testBit_two_pow_sub_succ small,
    Nat.testBit_xor, Nat.testBit_two_pow_sub_one]
  by_cases inside : i < 16
  · simp [inside]
  · have beyond : a < 2 ^ i :=
      Nat.lt_of_lt_of_le small (Nat.pow_le_pow_right (by decide) (by omega))
    simp [inside, Nat.testBit_lt_two_pow beyond]

theorem sub_one_xor_eq (a : Nat) (pos : 0 < a) (small : a < 2 ^ 16) :
    (a - 1) ^^^ a = 2 ^ 16 - 1 ↔ a = 2 ^ 15 := by
  constructor
  · intro all
    have complement : a - 1 = (2 ^ 16 - 1) ^^^ a := by
      rw [← all, Nat.xor_assoc, Nat.xor_self, Nat.xor_zero]
    rw [flip_half small] at complement
    omega
  · rintro rfl
    rfl

/-- Subtracting one gives equal halves of the changed bits in two cases only. -/
theorem mirrored_sub_one (x : UInt32) : Mirrored ((x - 1) ^^^ x) ↔ x = 0 ∨ x = 0x80000000 := by
  have size := x.toNat_lt
  have less : (x - 1).toNat = (2 ^ 32 - 1 + x.toNat) % 2 ^ 32 := UInt32.toNat_sub x 1
  have same : ∀ y : UInt32, x = y ↔ x.toNat = y.toNat := fun y => UInt32.toNat_inj.symm
  rw [Mirrored, hi_xor, lo_xor, same, same]
  show _ ↔ x.toNat = 0 ∨ x.toNat = 2 ^ 31
  by_cases low : lo x = 0
  · have low' : x.toNat % 2 ^ 16 = 0 := low
    by_cases high : hi x = 0
    · have high' : x.toNat / 2 ^ 16 = 0 := high
      have zero : x.toNat = 0 := by omega
      have lower : lo (x - 1) = 2 ^ 16 - 1 := by rw [lo, less, zero]; rfl
      have upper : hi (x - 1) = 2 ^ 16 - 1 := by rw [hi, less, zero]; rfl
      simp [lower, upper, low, high, zero]
    · -- the lower half is all ones after the subtraction
      have high' : x.toNat / 2 ^ 16 ≠ 0 := high
      have lower : lo (x - 1) = 2 ^ 16 - 1 := by rw [lo, less]; omega
      have upper : hi (x - 1) = hi x - 1 := by rw [hi, hi, less]; omega
      rw [lower, upper, low, Nat.xor_zero, sub_one_xor_eq _ (by omega) (hi_lt x)]
      rw [hi] at high ⊢
      omega
  · -- only the lower half changes
    have low' : x.toNat % 2 ^ 16 ≠ 0 := low
    have lower : lo (x - 1) = lo x - 1 := by rw [lo, lo, less]; omega
    have upper : hi (x - 1) = hi x := by rw [hi, hi, less]; omega
    rw [lower, upper, Nat.xor_self]
    constructor
    · intro none
      have := Nat.xor_eq_zero_iff.mp none.symm
      omega
    · omega

/-! ## Decoding -/

theorem mirrored_ones : Mirrored (0 - 1) := by decide

def lowByte (x : UInt32) : UInt8 := (x &&& 0xFF).toUInt8

theorem toNat_lowByte (x : UInt32) : (lowByte x).toNat = x.toNat % 2 ^ 8 := by
  rw [lowByte, UInt32.toNat_toUInt8, UInt32.toNat_and]
  show (x.toNat &&& (2 ^ 8 - 1)) % 2 ^ 8 = _
  rw [Nat.and_two_pow_sub_one_eq_mod, Nat.mod_mod]

theorem lowByte_xor (x y : UInt32) : lowByte (x ^^^ y) = lowByte x ^^^ lowByte y := by
  apply UInt8.toNat_inj.mp
  rw [UInt8.toNat_xor]
  simp only [toNat_lowByte, UInt32.toNat_xor]
  exact Nat.xor_mod_two_pow

theorem lowByte_mirror (nfo : UInt8) : lowByte (mirror nfo) = nfo := by
  have small := nfo.toNat_lt
  apply UInt8.toNat_inj.mp
  rw [toNat_lowByte, toNat_mirror]
  omega

theorem seq32Decode_eq (seqmask seq : UInt32) :
    seq32Decode seqmask seq =
      if Mirrored (seq ^^^ seqmask) then some (lowByte (seq ^^^ seqmask)) else none := by
  rw [seq32Decode]
  by_cases same : Mirrored (seq ^^^ seqmask)
  · rw [if_pos same, if_neg (not_not_intro ((mirrored_iff _).mp same))]
    rfl
  · rw [if_neg same, if_pos (same ∘ (mirrored_iff _).mpr)]

theorem seq32Encode_xor_mask (seqmask : UInt32) (t : UInt8) :
    seq32Encode seqmask t ^^^ seqmask = mirror t := by
  rw [seq32Encode, UInt32.xor_assoc, UInt32.xor_self, UInt32.xor_zero]

theorem seq32Decode_encode (seqmask : UInt32) (t : UInt8) :
    seq32Decode seqmask (seq32Encode seqmask t) = some t := by
  rw [seq32Decode_eq, seq32Encode_xor_mask, if_pos (mirrored_mirror t), lowByte_mirror]

theorem seq32Encode_eq_iff (seqmask : UInt32) (t : UInt8) (x : UInt32) :
    seq32Encode seqmask t = x ↔ seqmask = mirror t ^^^ x := by
  rw [seq32Encode]
  constructor
  · rintro rfl
    rw [← UInt32.xor_assoc, UInt32.xor_self, UInt32.zero_xor]
  · rintro rfl
    rw [← UInt32.xor_assoc, UInt32.xor_self, UInt32.zero_xor]

theorem flipped_ne (t : UInt8) : 0xFF ^^^ t ≠ t := by
  intro same
  have ones : (0xFF : UInt8) = 0 := by
    calc (0xFF : UInt8) = 0xFF ^^^ t ^^^ t := by
          rw [UInt8.xor_assoc, UInt8.xor_self, UInt8.xor_zero]
      _ = 0 := by rw [same, UInt8.xor_self]
  exact absurd ones (by decide)

/-- The first attempt on the number itself: taken by accident in two cases, and then with all
bits flipped -/
theorem seq32Decode_pred (seqmask : UInt32) (t : UInt8) :
    seq32Decode seqmask (seq32Encode seqmask t - 1) =
      if seq32Encode seqmask t = 0 ∨ seq32Encode seqmask t = 0x80000000 then some (0xFF ^^^ t)
      else none := by
  have encoded := seq32Encode_xor_mask seqmask t
  revert encoded
  generalize seq32Encode seqmask t = e
  intro encoded
  have unmasked : (e - 1) ^^^ seqmask = ((e - 1) ^^^ e) ^^^ mirror t := by
    rw [← encoded, ← UInt32.xor_assoc, UInt32.xor_assoc _ e e, UInt32.xor_self, UInt32.xor_zero]
  rw [seq32Decode_eq, unmasked, lowByte_xor, lowByte_mirror]
  simp only [mirrored_xor (mirrored_mirror t), mirrored_sub_one]
  by_cases accident : e = 0 ∨ e = 0x80000000
  · rw [if_pos accident, if_pos accident]
    cases accident with
    | inl zero => rw [zero]; rfl
    | inr top => rw [top]; rfl
  · rw [if_neg accident, if_neg accident]

theorem seq32Decode_zero (seqmask : UInt32) :
    seq32Decode seqmask 0 = if Mirrored seqmask then some (lowByte seqmask) else none := by
  rw [seq32Decode_eq, UInt32.zero_xor]

theorem seq32Decode_ones (seqmask : UInt32) :
    seq32Decode seqmask (0 - 1) =
      if Mirrored seqmask then some (0xFF ^^^ lowByte seqmask) else none := by
  rw [seq32Decode_eq, UInt32.xor_comm, lowByte_xor, UInt8.xor_comm]
  simp only [mirrored_xor mirrored_ones]
  rfl

/-! ## The round trip -/

/-- A response that carries the number of the probe back: the sequence number or the next one
is acknowledged, or the acknowledgement number of an ACK probe is the sequence number. -/
def Reflects (probe : TcpNumbers) (flags : UInt8) (thAck thSeq : UInt32) : Prop :=
  if flags &&& 0x10 ≠ 0 then thSeq = probe.thAck ∧ thAck = 0
  else thAck = probe.thSeq ∨ thAck = probe.thSeq + 1

instance (probe : TcpNumbers) (flags : UInt8) (thAck thSeq : UInt32) :
    Decidable (Reflects probe flags thAck thSeq) := by
  unfold Reflects
  infer_instance

/-- Every such response is decoded to the try number. -/
def Survives (seqmask : UInt32) (tryno flags : UInt8) : Prop :=
  ∀ random thAck thSeq, Reflects (tcpProbe seqmask tryno flags random) flags thAck thSeq →
    decodeTryno seqmask thAck thSeq = some tryno

theorem survives_ack_iff (seqmask : UInt32) (t flags : UInt8) (ack : flags &&& 0x10 ≠ 0) :
    Survives seqmask t flags ↔ (Mirrored seqmask → t = 0xFF ^^^ lowByte seqmask) := by
  have decoded : decodeTryno seqmask 0 (seq32Encode seqmask t) =
      if Mirrored seqmask then some (0xFF ^^^ lowByte seqmask) else some t := by
    rw [decodeTryno, seq32Decode_ones, seq32Decode_zero, seq32Decode_encode]
    split_ifs <;> rfl
  have reflected : ∀ random thAck thSeq,
      Reflects (tcpProbe seqmask t flags random) flags thAck thSeq ↔
        thSeq = seq32Encode seqmask t ∧ thAck = 0 := by
    intro random thAck thSeq
    rw [Reflects, tcpProbe, if_pos ack, if_pos ack]
    rfl
  simp only [Survives, reflected]
  constructor
  · intro survives halves
    have number := survives 0 0 _ ⟨rfl, rfl⟩
    rw [decoded, if_pos halves] at number
    exact (Option.some.inj number).symm
  · rintro flipped random thAck thSeq ⟨rfl, rfl⟩
    rw [decoded]
    split_ifs with halves
    · rw [flipped halves]
    · rfl

/-- Probes without the ACK flag -/
theorem survives_seq_iff (seqmask : UInt32) (t flags : UInt8) (seq : ¬flags &&& 0x10 ≠ 0) :
    Survives seqmask t flags ↔
      seq32Encode seqmask t ≠ 0 ∧ seq32Encode seqmask t ≠ 0x80000000 := by
  have probe : ∀ random, tcpProbe seqmask t flags random =
      buildTcp (seq32Encode seqmask t) 0 flags random := by
    intro random
    rw [tcpProbe, if_neg seq]
  have pred := seq32Decode_pred seqmask t
  simp only [Survives, Reflects, probe, if_neg seq]
  constructor
  · intro survives
    refine ⟨fun zero => ?_, fun top => ?_⟩
    · by_cases syn : flags &&& 0x02 ≠ 0
      · -- the random number that is sent instead has different halves
        have mask : seqmask = mirror t := by
          rw [(seq32Encode_eq_iff seqmask t 0).mp zero, UInt32.xor_zero]
        have number := survives 2 2 2 (.inl (by simp [buildTcp, zero, syn]))
        have lost : ∀ x, ¬Mirrored x → seq32Decode seqmask x = none := by
          intro x different
          rw [seq32Decode_eq, mask, if_neg (different ∘ (mirrored_xor (mirrored_mirror t) x).mp)]
        rw [decodeTryno, lost _ (by decide), lost 2 (by decide)] at number
        cases number
      · have number := survives 0 0 0 (.inl (by simp [buildTcp, zero, syn]))
        rw [zero, if_pos (.inl rfl)] at pred
        rw [decodeTryno, pred] at number
        exact flipped_ne t (Option.some.inj number)
    · have number := survives 0 0x80000000 0 (.inl (by simp [buildTcp, top]))
      rw [top, if_pos (.inr rfl)] at pred
      rw [decodeTryno, pred] at number
      exact flipped_ne t (Option.some.inj number)
  · rintro ⟨nonzero, below⟩ random thAck thSeq reflected
    have sent : (buildTcp (seq32Encode seqmask t) 0 flags random).thSeq = seq32Encode seqmask t :=
      if_pos nonzero
    rw [if_neg (by simp [nonzero, below])] at pred
    rw [sent] at reflected
    rcases reflected with rfl | rfl
    · rw [decodeTryno, pred, seq32Decode_encode]
      rfl
    · rw [decodeTryno, UInt32.add_sub_cancel, seq32Decode_encode]
      rfl

/-- The try number of a TCP probe is always recovered unless, for a probe without the ACK flag,
its encoding is zero or has only the first bit, or, for one with it, the halves of the mask are
equal. -/
theorem survives_iff (seqmask : UInt32) (t flags : UInt8) :
    Survives seqmask t flags ↔
      if flags &&& 0x10 ≠ 0 then Mirrored seqmask → t = 0xFF ^^^ lowByte seqmask
      else seqmask ≠ mirror t ∧ seqmask ≠ mirror t ^^^ 0x80000000 := by
  by_cases ack : flags &&& 0x10 ≠ 0
  · rw [if_pos ack]
    exact survives_ack_iff seqmask t flags ack
  · rw [if_neg ack, survives_seq_iff seqmask t flags ack, Ne, Ne, seq32Encode_eq_iff,
      seq32Encode_eq_iff, UInt32.xor_zero]

/-- The first ACK probe under a mask with equal halves: its try number is 0, and the response
is taken for one to try number 203. -/
theorem survives_fails :
    Reflects (tcpProbe 0x12341234 0 0x10 0) 0x10 0 0x12341234 ∧
      decodeTryno 0x12341234 0 0x12341234 = some 203 ∧ ¬Survives 0x12341234 0 0x10 := by
  have reflects : Reflects (tcpProbe 0x12341234 0 0x10 0) 0x10 0 0x12341234 := by decide
  have decoded : decodeTryno 0x12341234 0 0x12341234 = some 203 := by decide
  refine ⟨reflects, decoded, fun survives => ?_⟩
  have number := survives 0 0 0x12341234 reflects
  rw [decoded] at number
  exact absurd number (by decide)

end Nmap.ScanEngine
