import Nmap.Addrset.Words

/-!
# The radix tree (`nbase_addrset.c`)

A branch of a `struct trie_node` is `NULL`, the special `TRIE_NODE_TRUE` or
another node. The C code rewrites nodes in place while it walks down and
keeps the path in a stack, to climb back up and collapse full nodes; here the
walk is a structural recursion that returns the rewritten branch and whether
the climb goes on.
-/

namespace Nmap.Addrset

/-- `struct trie_node *` -/
inductive Trie
  /-- `NULL`: no address -/
  | null
  /-- `TRIE_NODE_TRUE`: all addresses that get here -/
  | nodeTrue
  | node (addr mask : Words) (nextBitOne nextBitZero : Trie)
  deriving DecidableEq, Repr

namespace Trie

/-- `new_trie_node`: new nodes default to matching true. -/
def newTrieNode (addr mask : Words) : Trie := node addr mask nodeTrue nodeTrue

/-- Both branches are `TRIE_NODE_TRUE`. -/
def bothTrue : Trie → Trie → Bool
  | nodeTrue, nodeTrue => true
  | _, _ => false

/-- The branch that `bit` selects. -/
def branch (one zero : Trie) (bit : Bool) : Trie := if bit then one else zero

/-- A node whose branch for `bit` is replaced. -/
def setBranch (addr mask : Words) (one zero : Trie) (bit : Bool) (child : Trie) : Trie :=
  if bit then node addr mask child zero else node addr mask one child

/-- The end of `trie_split`: the node gets the smaller mask, and what it has
been matching goes on the branch of its own next bit. The other branch is
`NULL`. -/
def splitFork (ta tm : Words) (one zero : Trie) (newMask : Words) (oneBit : Bool) :
    Trie × Trie :=
  let newNode := if oneBit && bothTrue one zero then nodeTrue else node ta tm one zero
  if addrNextBitIsOne newMask ta then (newNode, null) else (null, newNode)

/-- One round of the collapsing loop of `_trie_insert`: `child` hangs below a
node with mask `mask`. A full child that is one bit longer becomes
`TRIE_NODE_TRUE`, and then the loop goes on with the parent. -/
def collapse (mask : Words) : Trie → Trie × Bool
  | node ca cm one zero =>
    if maskIsOneBitMore mask cm && bothTrue one zero then (nodeTrue, true)
    else (node ca cm one zero, false)
  | t => (t, false)

/-- Climb to a node whose branch for `bit` was walked with result `below`. -/
def climb (addr mask : Words) (one zero : Trie) (bit : Bool) (below : Trie × Bool) :
    Trie × Bool :=
  let below := if below.2 then collapse mask below.1 else below
  (setBranch addr mask one zero bit below.1, below.2)

/-- The descent of `_trie_insert`: `trie_split` at every node, then the branch
of the next bit of `addr`. An empty branch gets a new node, and the climb
starts there. -/
def insertWalk (addr mask : Words) : Trie → Trie × Bool
  | null => (newTrieNode addr mask, true)
  | nodeTrue => (nodeTrue, false)
  | node ta tm one zero =>
    match splitScan ta tm addr mask with
    | .superseded m =>
      -- both branches are now TRIE_NODE_TRUE, where the descent stops
      (node ta m nodeTrue nodeTrue, false)
    | .contained =>
      climb ta tm one zero (addrNextBitIsOne tm addr)
        (if addrNextBitIsOne tm addr then insertWalk addr mask one
         else insertWalk addr mask zero)
    | .fork newMask oneBit =>
      let (one', zero') := splitFork ta tm one zero newMask oneBit
      let bit := addrNextBitIsOne newMask addr
      match branch one' zero' bit with
      | null => climb ta newMask one' zero' bit (newTrieNode addr mask, true)
      | _ =>
        -- not reached: the two addresses differ in this bit
        (node ta newMask one' zero', false)

/-- `_trie_match` -/
def matchWalk (addr : Words) : Trie → Bool
  | null => false
  | nodeTrue => true
  | node ta tm one zero =>
    if addrMatches tm ta addr then
      -- "We've matched all possible bits! Yay!"
      if (tm.getD 3 0).getLsbD 0 then true
      else if addrNextBitIsOne tm addr then matchWalk addr one
      else matchWalk addr zero
    else false

end Trie

/-- The first node of a trie. Its address and mask stay zero, and only its
two branches change. -/
structure TrieRoot where
  nextBitOne : Trie
  nextBitZero : Trie
  deriving DecidableEq, Repr

namespace TrieRoot

/-- The node `addrset_new` allocates. -/
def new : TrieRoot := ⟨.null, .null⟩

/-- The first bit of an address: `((u32)1 << 31) & addr[0]`. -/
def firstBit (addr : Words) : Bool := ((1 : U32) <<< 31) &&& addr.headD 0 != 0

def rootMask : Words := [0, 0, 0, 0]

/-- What `_trie_insert` does with one branch of the root. -/
def insertBranch (addr mask : Words) : Trie → Trie
  | .null => .newTrieNode addr mask
  | t =>
    let below := t.insertWalk addr mask
    if below.2 then (Trie.collapse rootMask below.1).1 else below.1

/-- `_trie_insert` -/
def insertDeep (root : TrieRoot) (addr mask : Words) : TrieRoot :=
  if firstBit addr then { root with nextBitOne := insertBranch addr mask root.nextBitOne }
  else { root with nextBitZero := insertBranch addr mask root.nextBitZero }

/-- `trie_insert_addr`: special cases for /0 and /1, then `_trie_insert`. -/
def trieInsertAddr (root : TrieRoot) (addr mask : Words) : TrieRoot :=
  let m := mask.headD 0
  let a := addr.headD 0
  if m ≤ (1 : U32) <<< 31 then
    { nextBitOne := if m = 0 ∨ m &&& a ≠ 0 then .nodeTrue else root.nextBitOne
      nextBitZero := if m = 0 ∨ m &&& a = 0 then .nodeTrue else root.nextBitZero }
  else root.insertDeep addr mask

/-- `trie_match` after `sockaddr_to_addr`: the first bit is checked by hand. -/
def trieMatchAddr (root : TrieRoot) (addr : Words) : Bool :=
  if firstBit addr then root.nextBitOne.matchWalk addr else root.nextBitZero.matchWalk addr

end TrieRoot

/-! ## Socket addresses -/

/-- `sa_family` -/
inductive Family
  | inet
  | inet6
  deriving DecidableEq, Repr

def Family.addrBits : Family → Int
  | .inet => 32
  | .inet6 => 128

/-- `struct sockaddr` of one of the two families: the address in host order,
or the sixteen bytes of an IPv6 address as four words. -/
inductive Sockaddr
  | inet (addr : U32)
  | inet6 (w0 w1 w2 w3 : U32)
  deriving DecidableEq, Repr

def Sockaddr.family : Sockaddr → Family
  | inet _ => .inet
  | inet6 .. => .inet6

/-- `sockaddr_to_addr`: an IPv4 address becomes IPv4-mapped. -/
def sockaddrToAddr : Sockaddr → Words
  | .inet a => [0, 0, 0xffff, a]
  | .inet6 w0 w1 w2 w3 => [w0, w1, w2, w3]

/-- The mask length `sockaddr_to_mask` works with: 96 more for IPv4, and all
bits for a negative (unspecified) length. -/
def maskBits (family : Family) (bits : Int) : Nat :=
  if bits ≥ 0 then
    match family with
    | .inet => bits.toNat + 96
    | .inet6 => bits.toNat
  else 128

def sockaddrToMask (family : Family) (bits : Int) : Words :=
  let bits := maskBits family bits
  let k := bits / 32
  (List.range 4).map fun i =>
    if i < k then u32AllBits
    else if i > k then 0
    else (u32AllBits - 1) <<< (31 - bits % 32)

namespace TrieRoot

def trieInsert (root : TrieRoot) (sa : Sockaddr) (bits : Int) : TrieRoot :=
  root.trieInsertAddr (sockaddrToAddr sa) (sockaddrToMask sa.family bits)

def trieMatch (root : TrieRoot) (sa : Sockaddr) : Bool :=
  root.trieMatchAddr (sockaddrToAddr sa)

end TrieRoot

end Nmap.Addrset
