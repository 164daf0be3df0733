import Nmap.OsScan.ExprMatch
import Mathlib.Algebra.Order.BigOperators.Group.List
import Mathlib.Algebra.Order.Floor.Semiring
import Mathlib.Data.Rat.Floor

/-!
# Comparing fingerprints (`osscan.cc`, `osscan.h`)

A fingerprint has up to thirteen tests with up to eleven values each. The database says how many
points each value is worth, and the accuracy of a comparison is the part of the points of the
compared values that goes to values that match.
-/

namespace Nmap.OsScan

open Nmap.Base

/-! ## Fingerprints -/

inductive TestID
  | seq | ops | win | ecn | t1 | t2 | t3 | t4 | t5 | t6 | t7 | u1 | ie
  deriving DecidableEq

/-- The tests in the order of their numbers -/
def TestID.all : List TestID :=
  [.seq, .ops, .win, .ecn, .t1, .t2, .t3, .t4, .t5, .t6, .t7, .u1, .ie]

theorem TestID.mem_all (t : TestID) : t ∈ TestID.all := by
  cases t <;> simp [TestID.all]

def testAttrs : TestID → List Bytes
  | .seq => ["SP", "GCD", "ISR", "TI", "CI", "II", "SS", "TS"].map ascii
  | .ops => ["O1", "O2", "O3", "O4", "O5", "O6"].map ascii
  | .win => ["W1", "W2", "W3", "W4", "W5", "W6"].map ascii
  | .ecn => ["R", "DF", "T", "TG", "W", "O", "CC", "Q"].map ascii
  | .t1 => ["R", "DF", "T", "TG", "S", "A", "F", "RD", "Q"].map ascii
  | .t2 | .t3 | .t4 | .t5 | .t6 | .t7 =>
    ["R", "DF", "T", "TG", "W", "S", "A", "F", "O", "RD", "Q"].map ascii
  | .u1 => ["R", "DF", "T", "TG", "IPL", "UN", "RIPL", "RID", "RIPCK", "RUCK", "RUD"].map ascii
  | .ie => ["R", "DFI", "T", "TG", "CD"].map ascii

def TestID.numAttrs (t : TestID) : Nat := (testAttrs t).length

/-- The values of the tests of one kind in brackets: those of OPS, and those with the name O -/
def TestID.nested (t : TestID) (i : Fin t.numAttrs) : Bool :=
  decide (t = .ops) || decide ((testAttrs t).get i = ascii "O")

/-- The match points. The sums over one test are computed as `int`s. -/
structure FingerPrintDef where
  points : (t : TestID) → Fin t.numAttrs → Nat
  fits : ∀ t, ((List.finRange t.numAttrs).map (points t)).sum < 2 ^ 31

/-- The `results` of a test; none for NULL -/
abbrev Results (t : TestID) := Fin t.numAttrs → Option CString

/-- `struct FingerPrint`; `numprints` counts the points that are possible, and `name` is the
`OS_name`. -/
structure FingerPrint where
  name : Bytes
  numprints : UInt16
  tests : (t : TestID) → Option (Results t)

/-- `new FingerPrint` -/
def FingerPrint.new (name : Bytes) : FingerPrint := ⟨name, 0, fun _ => none⟩

def getMaxPoints (d : FingerPrintDef) (t : TestID) (results : Results t) : Nat :=
  ((List.finRange t.numAttrs).map fun i =>
    if (results i).isSome then d.points t i else 0).sum

def FingerPrint.setTest (fp : FingerPrint) (t : TestID) (results : Results t) : FingerPrint :=
  { fp with tests := Function.update fp.tests t (some results) }

/-- A line with the values of a test, once it is read -/
structure TestLine where
  id : TestID
  results : Results id

/-- What `parse_fingerprint_file` does with the line of a test -/
def FingerPrint.addTest (d : FingerPrintDef) (fp : FingerPrint) (line : TestLine) : FingerPrint :=
  { fp.setTest line.id line.results with
    numprints := fp.numprints + UInt16.ofNat (getMaxPoints d line.id line.results) }

/-- The fingerprint with these tests in `parse_fingerprint_file` -/
def loadFingerprint (d : FingerPrintDef) (name : Bytes) (lines : List TestLine) : FingerPrint :=
  lines.foldl (FingerPrint.addTest d) (.new name)

/-! ## The comparison -/

/-- The loop of `AVal_match` at one value, with `subtests` and `subtests_succeeded`; none for an
assertion that fails in `expr_match` -/
def matchAttr (d : FingerPrintDef) (t : TestID) (refV fpV : Results t) (n : Nat × Nat)
    (i : Fin t.numAttrs) : Option (Nat × Nat) :=
  match refV i, fpV i with
  | some currentRef, some currentFp => do
    let matched ← exprMatch currentFp.bytes 0 currentRef.bytes 0 (t.nested i)
    pure (n.1 + d.points t i, if matched then n.2 + d.points t i else n.2)
  | _, _ => some n

/-- `AVal_match`: what a test adds to `num_subtests` and to `num_subtests_succeeded` -/
def avalMatch (d : FingerPrintDef) (t : TestID) (reference fprint : Option (Results t)) :
    Option (Nat × Nat) :=
  match reference, fprint with
  | some refV, some fpV => (List.finRange t.numAttrs).foldlM (matchAttr d t refV fpV) (0, 0)
  | _, _ => some (0, 0)

/-- The loop of `compare_fingerprints` over the tests -/
def compareLoop (d : FingerPrintDef) (referenceFP observedFP : FingerPrint) (verbose : Bool)
    (maxMismatch : Nat) : List TestID → Nat × Nat → Option (Nat × Nat)
  | [], n => some n
  | t :: rest, n => do
    let added ← avalMatch d t (referenceFP.tests t) (observedFP.tests t)
    let n := (n.1 + added.1, n.2 + added.2)
    if verbose = false ∧ maxMismatch < n.1 - n.2 then some n
    else compareLoop d referenceFP observedFP verbose maxMismatch rest n

def accuracy (n : Nat × Nat) : ℚ := if n.1 = 0 then 0 else n.2 / n.1

def maxMismatch (threshold : ℚ) (numprints : UInt16) : Nat :=
  ⌊(1 - threshold) * numprints.toNat⌋₊

def compareFingerprints (referenceFP observedFP : FingerPrint) (matchPoints : FingerPrintDef)
    (verbose : Bool) (threshold : ℚ) : Option ℚ :=
  (compareLoop matchPoints referenceFP observedFP verbose
    (maxMismatch threshold referenceFP.numprints) TestID.all (0, 0)).map accuracy

end Nmap.OsScan
