import Mathlib.Data.Nat.Bitwise
import Mathlib.Tactic.Common

/-!
# Address words (`nbase_addrset.c`)

An address and a netmask are each a `u32[4]`, most significant word first.
This module embeds the word loops of the radix tree (`common_mask`,
`addr_next_bit_is_one`, `addr_matches`, `mask_is_one_bit_more`, the scan of
`trie_split` and the mask extension of `trie_update`) and gives each of them
its meaning on bit positions, counted from the most significant bit. After this
module no proof looks inside a word again.
-/

namespace Nmap.Addrset

abbrev U32 := BitVec 32

/-- `u32[4]`: the words of an address or of a mask. The loops below run over
the words from the front, so they are stated for any number of words. -/
abbrev Words := List U32

def u32AllBits : U32 := 0xffffffff

/-! ## The source's word functions -/

def logTable256 : List Int :=
  [-1, 0, 1, 1] ++ List.replicate 4 2 ++ List.replicate 8 3 ++
    List.replicate 16 4 ++ List.replicate 32 5 ++ List.replicate 64 6 ++
    List.replicate 128 7

/-- The `r` of `common_mask`: the index of the highest set bit of a non-zero
word, read off the table byte by byte. -/
def highBit (v : U32) : Nat :=
  let tt := v >>> 16
  if tt ≠ 0 then
    let t := tt >>> 8
    if t ≠ 0 then (24 + logTable256.getD t.toNat 0).toNat
    else (16 + logTable256.getD tt.toNat 0).toNat
  else
    let t := v >>> 8
    if t ≠ 0 then (8 + logTable256.getD t.toNat 0).toNat
    else (logTable256.getD v.toNat 0).toNat

/-- `common_mask`: the mask of the common prefix of two words. -/
def commonMask (a b : U32) : U32 :=
  let v := a ^^^ b
  if v = 0 then u32AllBits
  else
    let r := highBit v
    if r + 1 ≥ 32 then 0 else ~~~(((1 : U32) <<< (r + 1)) - 1)

/-- `next_bit_is_one`: the bit right after the mask (non-zero when set). -/
def nextBitIsOne (mask value : U32) : U32 :=
  if mask = 0 then ((1 : U32) <<< 31) &&& value
  else if mask = u32AllBits then 0
  else ((mask >>> 1) &&& ~~~mask) &&& value

/-- `addr_next_bit_is_one`: only the first word that is not completely masked
is looked at. -/
def addrNextBitIsOne : Words → Words → Bool
  | m :: ms, a :: as =>
    if m < u32AllBits then nextBitIsOne m a != 0 else addrNextBitIsOne ms as
  | _, _ => false

def maskMatches (mask a b : U32) : Bool := (mask &&& (a ^^^ b)) == 0

def addrMatches : Words → Words → Words → Bool
  | m :: ms, a :: as, b :: bs =>
    if m = 0 then true
    else if !maskMatches m a b then false
    else addrMatches ms as bs
  | _, _, _ => true

/-- `mask_is_one_bit_more`, from the word both lists start at. -/
def maskIsOneBitMore : Words → Words → Bool
  | t :: ts, o :: os =>
    if t > o then false
    else if t < o then
      -- "But not if there are more bits in other parts."
      (t == (o <<< 1) &&& u32AllBits) && (os.isEmpty || os.headD 0 == 0)
    else maskIsOneBitMore ts os
  | _, _ => false

/-- How the scan at the top of `trie_split` ends. -/
inductive SplitScan
  /-- The new mask is broader: the node's mask is overwritten by this one. -/
  | superseded (mask : Words)
  /-- The node completely contains the new address and mask. -/
  | contained
  /-- The common mask, shorter than the node's, and whether it is exactly one
  bit shorter. -/
  | fork (newMask : Words) (oneBit : Bool)
  deriving DecidableEq, Repr

/-- The word loop of `trie_split`, with the two tests that follow it. -/
def splitScan : Words → Words → Words → Words → SplitScan
  | ta :: tas, tm :: tms, a :: as, m :: ms =>
    let common := commonMask ta a
    -- "Addrs have more bits in common than we care about for this node."
    let newMask := if common > tm then tm else common
    if newMask > m then .superseded (m :: tms.map fun _ => 0)
    else if newMask < u32AllBits then
      if newMask ≥ tm then .contained
      else
        let rest := tms.map fun _ => (0 : U32)
        .fork (newMask :: rest) (maskIsOneBitMore (newMask :: rest) (tm :: tms))
    else
      match splitScan tas tms as ms with
      | .superseded mask => .superseded (tm :: mask)
      | .contained => .contained
      | .fork mask oneBit => .fork (newMask :: mask) oneBit
  | _, _, _, _ => .contained

/-- The loop `trie_update` runs twice: lengthen the mask by one bit, possibly
into the next word, and set (`one`) or clear that bit of the address. -/
def extendMask (one : Bool) : Words → Words → Words × Words
  | a :: as, m :: ms =>
    let tmp := (m >>> 1) ||| ((1 : U32) <<< 31)
    if tmp ≠ m then
      ((if one then a ||| (~~~m &&& tmp) else a &&& (~~~m ^^^ tmp)) :: as, tmp :: ms)
    else
      let rest := extendMask one as ms
      (a :: rest.1, m :: rest.2)
  | as, ms => (as, ms)

/-! ## Bits of an address -/

/-- Bit `i` of an address, most significant bit first. -/
def bit : Words → Nat → Bool
  | [], _ => false
  | w :: ws, i => if i < 32 then w.getMsbD i else bit ws (i - 32)

/-- The word whose `k` leading bits are ones. -/
def wordMask (k : Nat) : U32 := BitVec.allOnes 32 <<< (32 - k)

/-- The mask of `n` words whose `m` leading bits are ones. -/
def prefixMask : Nat → Nat → Words
  | 0, _ => []
  | n + 1, m => wordMask (min m 32) :: prefixMask n (m - 32)

/-- Two addresses have the same first `m` bits. -/
def AgreeUpTo (m : Nat) (a b : Words) : Prop := ∀ i < m, bit a i = bit b i

/-- The address with bit `m` replaced by `b`. -/
def setBit : Words → Nat → Bool → Words
  | [], _, _ => []
  | w :: ws, m, b =>
    if m < 32 then
      (if b then w ||| BitVec.twoPow 32 (31 - m) else w &&& ~~~(BitVec.twoPow 32 (31 - m))) :: ws
    else w :: setBit ws (m - 32) b

end Nmap.Addrset
