import Nmap.Base.Utf8

/-!
# DNS messages (`massdns.h`, `massdns.cc`)

`DNS::Factory` writes queries and `DNS::Packet::parseFromBuffer` reads messages. A function of
the source that returns the number of bytes, and 0 when it gives up, is one that may throw
here.
-/

namespace Nmap.Dns

open Nmap.Base

/-- `DNS_LABEL_MAX_LENGTH` -/
def labelMaxLength : Nat := 63

/-- `DNS_NAME_MAX_LENGTH` -/
def nameMaxLength : Nat := 255

def compressedName : UInt8 := 0xc0

/-- `RECORD_TYPE`: what the code calls by name -/
def recordNone : UInt16 := 0
def recordA : UInt16 := 1
def recordCname : UInt16 := 5
def recordPtr : UInt16 := 12
def recordAaaa : UInt16 := 28
def recordAny : UInt16 := 255

def classIn : UInt16 := 1

/-- `OP_STANDARD_QUERY | RECURSION_DESIRED` -/
def queryFlags : UInt16 := 0x0000 ||| 0x0100

/-- `DATA`: where the header ends -/
def dataOffset : Nat := 12

/-- `.` -/
def dot : UInt8 := 46

/-! ## Writing a query -/

/-- `putUnsignedShort`: the two bytes -/
def putUnsignedShort (num : UInt16) (offset maxlen : Nat) : Option Bytes :=
  if maxlen > offset + 1 then some [(num >>> 8).toUInt8, num.toUInt8] else none

/-- The loop of `putDomainName`, with what was written, where the length of the current label
goes and how long it is -/
def putLabels : Bytes → Bytes → Nat → UInt8 → Option (Bytes × Nat × UInt8)
  | [], out, labelStart, labelLen => some (out, labelStart, labelLen)
  | c :: name, out, labelStart, labelLen =>
    if out.length ≥ nameMaxLength then none
    else if c = dot then putLabels name (out.set labelStart labelLen ++ [0]) out.length 0
    else if labelLen.toNat ≥ labelMaxLength then none
    else putLabels name (out ++ [c]) labelStart (labelLen + 1)

/-- `putDomainName`: the bytes written at the offset -/
def putDomainName (name : Bytes) (offset maxlen : Nat) : Option Bytes :=
  if offset ≥ maxlen || name.length ≥ maxlen - offset then none
  else
    (putLabels name [0] 0 0).map fun (out, labelStart, labelLen) =>
      if labelLen > 0 then out.set labelStart labelLen ++ [0] else out

/-- `buildSimpleRequest`: the bytes of the message -/
def buildSimpleRequest (id : UInt16) (name : Bytes) (rt : UInt16) (maxlen : Nat) :
    Option Bytes := do
  let id' ← putUnsignedShort id 0 maxlen
  let flags ← putUnsignedShort queryFlags 2 maxlen
  let qdcount ← putUnsignedShort 1 4 maxlen
  let ancount ← putUnsignedShort 0 6 maxlen
  let nscount ← putUnsignedShort 0 8 maxlen
  let arcount ← putUnsignedShort 0 10 maxlen
  let header := id' ++ flags ++ qdcount ++ ancount ++ nscount ++ arcount
  let name' ← putDomainName name dataOffset maxlen
  let ret := header.length + name'.length
  let rt' ← putUnsignedShort rt ret maxlen
  let class' ← putUnsignedShort classIn (ret + 2) maxlen
  return header ++ name' ++ rt' ++ class'

/-! ## Reading -/

/-- Why nothing was read: the source returns 0, or it would look past the buffer -/
inductive ParseError
  | rejected
  | overread
  deriving DecidableEq

/-- Reading from a buffer: mostly a value and how many bytes it took -/
abbrev Reading : Type → Type := Except ParseError

/-- `buf[i]` -/
def readAt (buf : Bytes) (i : Nat) : Reading UInt8 :=
  match buf[i]? with
  | some b => .ok b
  | none => .error .overread

def readBytes (buf : Bytes) (offset len : Nat) : Reading Bytes :=
  if offset + len ≤ buf.length then .ok ((buf.drop offset).take len) else .error .overread

/-- `DNS_CHECK_UPPER_BOUND` -/
def checkUpperBound (accumulator max : Nat) : Reading Unit :=
  if accumulator > max then .error .rejected else .ok ()

def parseUnsignedShort (buf : Bytes) (offset : Nat) : Reading (UInt16 × Nat) :=
  if buf.length > offset + 1 then do
    let low ← readAt buf (offset + 1)
    let high ← readAt buf offset
    return (low.toUInt16 + (high.toUInt16 <<< 8), 2)
  else .error .rejected

def parseUnsignedInt (buf : Bytes) (offset : Nat) : Reading (UInt32 × Nat) :=
  if buf.length > offset + 3 then do
    let b3 ← readAt buf (offset + 3)
    let b2 ← readAt buf (offset + 2)
    let b1 ← readAt buf (offset + 1)
    let b0 ← readAt buf offset
    return (b3.toUInt32 + (b2.toUInt32 <<< 8) + (b1.toUInt32 <<< 16) + (b0.toUInt32 <<< 24), 4)
  else .error .rejected

/-- `parseIPv4` and `parseIPv6`: the bytes of an address -/
def parseAddress (n : Nat) (buf : Bytes) (offset : Nat) : Reading (Bytes × Nat) :=
  if buf.length > offset + (n - 1) then do
    let addr ← readBytes buf offset n
    return (addr, n)
  else .error .rejected

/-- The loop of `parseDomainName`: the name so far, where it stopped, and how far it got without
following pointers. -/
def parseLabels (buf : Bytes) (currOffset maxOffset : Nat) (name : Bytes) :
    Reading (Bytes × Nat × Nat) :=
  match buf[currOffset]? with
  | none => .ok (name, currOffset, maxOffset)
  | some labelLength =>
    if labelLength = 0 then .ok (name, currOffset, maxOffset)
    else if labelLength &&& compressedName = compressedName then
      match parseUnsignedShort buf currOffset with
      | .error e => .error e
      | .ok (raw, tmp) =>
        let maxOffset := if currOffset ≥ maxOffset then currOffset + tmp else maxOffset
        let realOffset := raw - (compressedName.toUInt16 <<< 8)
        -- Pointers must go back.
        if realOffset.toNat < currOffset then parseLabels buf realOffset.toNat maxOffset name
        else .error .rejected
    else if labelLength.toNat > labelMaxLength then .error .rejected
    else
      let currOffset := currOffset + 1
      if currOffset + labelLength.toNat > buf.length then .error .rejected
      else
        let name' := name ++ (buf.drop currOffset).take labelLength.toNat ++ [dot]
        let currOffset := currOffset + labelLength.toNat
        let maxOffset := if currOffset > maxOffset then currOffset else maxOffset
        if name'.length > nameMaxLength - 1 then .error .rejected
        else parseLabels buf currOffset maxOffset name'
termination_by (nameMaxLength - name.length, currOffset)
decreasing_by
  · exact Prod.Lex.right _ ‹_›
  · apply Prod.Lex.left
    have longer : name.length < name'.length := by
      simp only [name', List.length_append, List.length_singleton]
      omega
    show nameMaxLength - name'.length < nameMaxLength - name.length
    simp only [nameMaxLength] at *
    omega

/-- `maxlen - 1`, which wraps for an empty buffer -/
def lastOffset (maxlen : Nat) : Nat := if maxlen = 0 then 2 ^ 64 - 1 else maxlen - 1

def parseDomainName (buf : Bytes) (offset : Nat) : Reading (Bytes × Nat) := do
  let (name, currOffset, maxOffset) ← parseLabels buf offset offset []
  checkUpperBound currOffset (lastOffset buf.length)
  let maxOffset ←
    if maxOffset = currOffset then do
      let b ← readAt buf currOffset
      pure (if b = 0 then maxOffset + 1 else maxOffset)
    else pure maxOffset
  let name :=
    if name = [] then [dot]
    else if name.getLast? = some dot then name.dropLast else name
  -- `DNS_CHECK_ACCUMLATE`, which every caller applies
  if maxOffset - offset < 1 then .error .rejected else return (name, maxOffset - offset)

/-- `A_Record`, `CNAME_Record` and `PTR_Record` -/
inductive Record
  | a (rt : UInt16) (addr : Bytes)
  | cname (value : Bytes)
  | ptr (value : Bytes)
  deriving DecidableEq

/-- `A_Record::parseFromBuffer` -/
def parseARecord (buf : Bytes) (offset : Nat) (rt : UInt16) : Reading (Record × Nat) :=
  if rt = recordA then do
    let (addr, tmp) ← parseAddress 4 buf offset
    return (.a rt addr, tmp)
  else if rt = recordAaaa then do
    let (addr, tmp) ← parseAddress 16 buf offset
    return (.a rt addr, tmp)
  else .error .rejected

/-- The record of an answer of this type -/
def parseRecord (buf : Bytes) (offset : Nat) (rt : UInt16) : Reading (Record × Nat) :=
  if rt = recordA || rt = recordAaaa then parseARecord buf offset rt
  else if rt = recordCname then do
    let (value, tmp) ← parseDomainName buf offset
    return (.cname value, tmp)
  else if rt = recordPtr then do
    let (value, tmp) ← parseDomainName buf offset
    return (.ptr value, tmp)
  else .error .rejected

structure Query where
  name : Bytes
  recordType : UInt16
  recordClass : UInt16
  deriving DecidableEq

structure Answer where
  name : Bytes
  recordType : UInt16
  recordClass : UInt16
  ttl : UInt32
  length : UInt16
  record : Record
  deriving DecidableEq

structure Packet where
  id : UInt16
  flags : UInt16
  queries : List Query
  answers : List Answer
  deriving DecidableEq

/-- `Query::parseFromBuffer` -/
def parseQuery (buf : Bytes) (offset : Nat) : Reading (Query × Nat) :=
  if buf.length - offset > 5 then do
    let (name, tmp) ← parseDomainName buf offset
    let ret := tmp
    let (recordType, tmp) ← parseUnsignedShort buf (offset + ret)
    let ret := ret + tmp
    let (recordClass, tmp) ← parseUnsignedShort buf (offset + ret)
    let ret := ret + tmp
    return ({ name, recordType, recordClass }, ret)
  else .error .rejected

/-- `Answer::parseFromBuffer` -/
def parseAnswer (buf : Bytes) (offset : Nat) : Reading (Answer × Nat) :=
  if buf.length - offset > 7 then do
    let (name, tmp) ← parseDomainName buf offset
    let ret := tmp
    let (recordType, tmp) ← parseUnsignedShort buf (offset + ret)
    let ret := ret + tmp
    let (recordClass, tmp) ← parseUnsignedShort buf (offset + ret)
    let ret := ret + tmp
    let (ttl, tmp) ← parseUnsignedInt buf (offset + ret)
    let ret := ret + tmp
    let (length, tmp) ← parseUnsignedShort buf (offset + ret)
    let ret := ret + tmp
    checkUpperBound (offset + ret + length.toNat) buf.length
    let (record, tmp) ← parseRecord buf (offset + ret) recordType
    let ret := ret + tmp
    return ({ name, recordType, recordClass, ttl, length, record }, ret)
  else .error .rejected

/-- The loops of `Packet::parseFromBuffer`: this many elements from an offset on -/
def parseMany {α : Type} (parse : Nat → Reading (α × Nat)) : Nat → Nat → Reading (List α × Nat)
  | 0, ret => .ok ([], ret)
  | n + 1, ret => do
    let (x, tmp) ← parse ret
    let (xs, ret) ← parseMany parse n (ret + tmp)
    return (x :: xs, ret)

/-- `Packet::parseFromBuffer` -/
def parsePacket (buf : Bytes) : Reading (Packet × Nat) :=
  if buf.length < dataOffset then .error .rejected
  else do
    let (id, tmp) ← parseUnsignedShort buf 0
    let ret := tmp
    let (flags, tmp) ← parseUnsignedShort buf 2
    let ret := ret + tmp
    let (queriesCounter, tmp) ← parseUnsignedShort buf 4
    let ret := ret + tmp
    let (answersCounter, tmp) ← parseUnsignedShort buf 6
    let ret := ret + tmp
    let (_, tmp) ← parseUnsignedShort buf 8
    let ret := ret + tmp
    let (_, tmp) ← parseUnsignedShort buf 10
    let ret := ret + tmp
    let (queries, ret) ← parseMany (parseQuery buf) queriesCounter.toNat ret
    let (answers, ret) ← parseMany (parseAnswer buf) answersCounter.toNat ret
    return ({ id, flags, queries, answers }, ret)

end Nmap.Dns
