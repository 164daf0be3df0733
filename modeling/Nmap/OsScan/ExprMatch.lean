import Nmap.Base.CString

/-!
# Fingerprint expressions (`expr_match` in `osscan.cc`)

An observed value is compared with an expression of the fingerprint database: alternatives
separated by `|`, each a text, a hex number, a bound or a range and, in the tests for TCP
options, a template with alternatives in brackets. A pointer into the expression is the
rest of the text from there on, so a pointer is before another one when its text is longer.
-/

namespace Nmap.OsScan

open Nmap.Base

def strncmp : Nat → Bytes → Bytes → Ordering
  | 0, _, _ => .eq
  | _ + 1, [], [] => .eq
  | _ + 1, [], _ :: _ => .lt
  | _ + 1, _ :: _, [] => .gt
  | n + 1, c :: s, d :: t => if c < d then .lt else if d < c then .gt else strncmp n s t

/-- `strchr_p`: the first `c` before the end -/
def strchrP (p stop : Bytes) (c : UInt8) : Option Bytes :=
  let found := p.dropWhile (· ≠ c)
  if stop.length < found.length then some found else none

/-! ## A value and one alternative -/

/-- Leading zeros go, but for the last digit. -/
def stripZeros : Bytes → Bytes
  | [] => []
  | [c] => [c]
  | c :: d :: s => if c = 0x30 then stripZeros (d :: s) else c :: d :: s

/-- Is the value, by length and then by its characters, in this order to the bound? -/
def inOrder (order : Ordering → Bool) (value bound : Bytes) : Bool :=
  order ((compare value.length bound.length).then (strncmp value.length value bound))

/-- The comparison of a value without leading zeros that begins with a hex digit -/
def matchNumber (value text : Bytes) : Bool :=
  match text with
  | [] => false
  | c :: bound =>
    if c = 0x3e then inOrder Ordering.isGT value (stripZeros bound)
    else if c = 0x3c then inOrder Ordering.isLT value (stripZeros bound)
    else if isXDigit c then
      let p := stripZeros text
      match strchrP p [] 0x2d with
      | some q1 =>
        -- for a range from zero, the last zero is not to be skipped
        let low := if q1.length = p.length then [0x30] else p.take (p.length - q1.length)
        inOrder Ordering.isGE value low && inOrder Ordering.isLE value (stripZeros q1.tail)
      | none => decide (value.length = p.length) && (strncmp value.length p value).isEq
    else false

/-- Does the value begin with a hex digit? -/
def startsHex (value : Bytes) : Bool := value.head?.any isXDigit

/-- The value as it is compared, and the length that is left of it in `vlen` -/
def comparedValue (value : Bytes) : Bytes := if startsHex value then stripZeros value else value

/-- A value and an alternative that has no brackets -/
def matchPlain (value text : Bytes) : Bool :=
  if startsHex value then matchNumber (comparedValue value) text
  else decide (value.length = text.length) && (strncmp value.length text value).isEq

/-! ## Templates -/

/-- How the loop over the brackets of a template ends: at `goto next_expr`, with no brackets
left, or at the failed assertion -/
inductive Nests
  | failed (q : Option Bytes)
  | passed (p : Bytes) (q : Option Bytes) (subval : Bytes)
  | unclosed

/-- The loop over the brackets, with the comparison of a group as a parameter -/
def matchNests (group : Bytes → Nat → Bytes → Nat → Option Bool) :
    Nat → Bytes → Option Bytes → Bytes → Bytes → Nests
  | 0, _, q, _, _ => .failed q
  | fuel + 1, p, q, nest, subval =>
    match strchrP nest [] 0x5d with
    | none => .unclosed
    | some q1 =>
      let q := if q.any (fun q => q1.length < q.length) then strchrP q1 [] 0x7c else q
      let sublen := p.length - nest.length
      if strncmp sublen p subval ≠ .eq then .failed q
      else
        let subval := subval.drop sublen
        let nlen := (subval.takeWhile isXDigit).length
        let p := q1.tail
        if 0 < nlen && group subval nlen nest.tail (nest.tail.length - q1.length) == some true
        then
          let subval := subval.drop nlen
          match strchrP p (q.getD []) 0x5b with
          | some nest => matchNests group fuel p q nest subval
          | none => .passed p q subval
        else .failed q

/-- How a turn of the loop over the alternatives ends: with a match, at `next_expr`, or at the
failed assertion -/
inductive Turn
  | matched
  | next (q : Option Bytes) (vlen : Nat)
  | unclosed

/-- One turn of the loop over the alternatives -/
def matchTurn (doNested : Bool) (group : Bytes → Nat → Bytes → Nat → Option Bool) (val : Bytes)
    (vlen : Nat) (p : Bytes) : Turn :=
  let q := strchrP p [] 0x7c
  let nest := strchrP p (q.getD []) 0x5b
  if vlen = 0 ∧ (q = some p ∨ p = []) then .matched
  else if vlen = 0 ∧ nest.isNone then .next q vlen
  else
    match doNested, nest with
    | true, some nest =>
      match matchNests group (p.length + 1) p q nest val with
      | .unclosed => .unclosed
      | .failed q => .next q vlen
      | .passed p q subval =>
        -- `vlen` has become too small where leading zeros were skipped before
        let read := val.length - subval.length
        if read ≤ vlen ∧ p.length = vlen - read ∧ strncmp (vlen - read) subval p = .eq then
          .matched
        else .next q vlen
    | _, _ =>
      let text := p.take (p.length - (q.getD []).length)
      if matchPlain (val.take vlen) text then .matched
      else .next q (comparedValue (val.take vlen)).length

/-- The loop over the alternatives. `none` is the failed assertion. -/
def matchLoop (doNested : Bool) (group : Bytes → Nat → Bytes → Nat → Option Bool) (val : Bytes) :
    Nat → Nat → Bytes → Option Bool
  | 0, _, _ => some false
  | fuel + 1, vlen, p =>
    match matchTurn doNested group val vlen p with
    | .matched => some true
    | .unclosed => none
    | .next none _ => some false
    | .next (some q) vlen => matchLoop doNested group val fuel vlen q.tail

/-- `expr_match` with `do_nested` off, as it is called for what stands in brackets -/
def exprMatchFlat (val : Bytes) (vlen : Nat) (expr : Bytes) (explen : Nat) : Option Bool :=
  let vlen := if vlen = 0 then val.length else vlen
  let explen := if explen = 0 then expr.length else explen
  if explen = 0 then some (vlen = 0)
  else matchLoop false (fun _ _ _ _ => none) val (explen + 1) vlen (expr.take explen)

def exprMatch (val : Bytes) (vlen : Nat) (expr : Bytes) (explen : Nat) (doNested : Bool) :
    Option Bool :=
  let vlen := if vlen = 0 then val.length else vlen
  let explen := if explen = 0 then expr.length else explen
  if explen = 0 then some (vlen = 0)
  else matchLoop doNested exprMatchFlat val (explen + 1) vlen (expr.take explen)

end Nmap.OsScan
