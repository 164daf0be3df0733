import Mathlib.Algebra.GroupWithZero.Nat
import Mathlib.Algebra.Order.BigOperators.Group.List
import Mathlib.Data.List.Dedup
import Nmap.Base.MergeJoin
import Nmap.Ndiff.Scan

/-!
# The differences of two hosts (`ndiff.py`)

A difference has a cost, the number of single changes. One lemma for each kind of difference says
when its cost is zero.
-/

namespace Nmap.Ndiff

open Nmap.Base List

/-! ## `difflib` -/

/-- What an opcode of `difflib` does -/
inductive Op
  | replace | delete | insert | equal
  deriving DecidableEq, Repr

/-- The 5-tuples of `get_opcodes` -/
structure Opcode where
  op : Op
  i1 : Nat
  i2 : Nat
  j1 : Nat
  j2 : Nat
  deriving DecidableEq, Repr

/-- `difflib.SequenceMatcher(None, a, b).get_opcodes()` -/
abbrev Difflib := List String → List String → List Opcode

/-- All opcodes are "equal" iff the two lists are. -/
def Difflib.AllEqualIff (difflib : Difflib) : Prop :=
  ∀ a b, (∀ x ∈ difflib a b, x.op = .equal) ↔ a = b

/-- Opcodes for whole lists: all of one is taken for all of the other, unless they are equal. -/
def wholeOpcodes : Difflib := fun a b =>
  if a = b then if a = [] then [] else [⟨.equal, 0, a.length, 0, b.length⟩]
  else if b = [] then [⟨.delete, 0, a.length, 0, 0⟩]
  else if a = [] then [⟨.insert, 0, 0, 0, b.length⟩]
  else [⟨.replace, 0, a.length, 0, b.length⟩]

theorem wholeOpcodes_allEqualIff : Difflib.AllEqualIff wholeOpcodes := by
  intro a b
  unfold wholeOpcodes
  by_cases same : a = b
  · rw [if_pos same]
    split <;> simp [same]
  · rw [if_neg same]
    split
    · simp [same]
    · split <;> simp [same]

/-! ## Scripts -/

/-- `ScriptResultDiff`: a result may be missing on one side. -/
structure ScriptResultDiff where
  srA : Option ScriptResult
  srB : Option ScriptResult
  deriving DecidableEq, Repr

/-- `diff_lists`: "This algorithm is like a merge of sorted lists." -/
def diffLists (verbose : Bool) (a b : List ScriptResult) : List ScriptResultDiff :=
  (join ScriptResult.id ScriptResult.id a b).filterMap fun pair =>
    match pair with
    | (some x, some y) =>
      if x.output ≠ y.output ∨ verbose = true then some ⟨some x, some y⟩ else none
    | (x, y) => some ⟨x, y⟩

/-! ## Ports -/

structure PortDiff where
  portA : Port
  portB : Port
  scriptResultDiffs : List ScriptResultDiff
  cost : Nat
  deriving DecidableEq, Repr

/-- `PortDiff.diff` -/
def PortDiff.new (verbose : Bool) (a b : Port) : PortDiff :=
  let scripts := diffLists verbose a.scriptResults b.scriptResults
  { portA := a
    portB := b
    scriptResultDiffs := scripts
    cost :=
      (if a.spec ≠ b.spec then 1 else 0) + (if a.state ≠ b.state then 1 else 0) +
        (if a.service.eq b.service then 0 else 1) + scripts.length }

/-! ## Hosts -/

/-- `HostDiff`; the differences of the ports in the order of `ports` -/
structure HostDiff where
  hostA : Host
  hostB : Host
  stateChanged : Bool
  idChanged : Bool
  osChanged : Bool
  extraportsChanged : Bool
  portDiffs : List (Port × PortDiff)
  osDiffs : List Opcode
  scriptResultDiffs : List ScriptResultDiff
  cost : Nat

def sameSet {α : Type} [DecidableEq α] (a b : List α) : Bool :=
  a.all (· ∈ b) && b.all (· ∈ a)

/-- `get(spec) or Port(spec)` -/
def Host.portOr (h : Host) (spec : Spec) : Port := (h.getPort spec).getD { spec := spec }

/-- The sorted union of the port specifications -/
def allSpecs (a b : Host) : List Spec :=
  ((a.ports.map Port.spec ++ b.ports.map Port.spec).dedup).mergeSort Spec.le

/-- `include_diff`: "Don't include the diff if the states are only extraports." -/
def includeDiff (verbose : Bool) (a b : Host) (diff : PortDiff) : Bool :=
  if a.isExtraports diff.portA.state && b.isExtraports diff.portB.state then false
  else if verbose then true
  else decide (diff.cost > 0)

def portDiffsOf (verbose : Bool) (a b : Host) : List (Port × PortDiff) :=
  (allSpecs a b).filterMap fun spec =>
    let diff := PortDiff.new verbose (a.portOr spec) (b.portOr spec)
    if includeDiff verbose a b diff then some ((a.getPort spec).getD (b.portOr spec), diff) else none

/-- `HostDiff.diff` -/
def HostDiff.new (difflib : Difflib) (verbose : Bool) (a b : Host) : HostDiff :=
  let stateChanged := decide (a.state ≠ b.state)
  let idChanged := !sameSet a.addresses b.addresses || !sameSet a.hostnames b.hostnames
  let ports := portDiffsOf verbose a b
  let osDiffs := difflib a.os b.os
  let osCost := osDiffs.countP (·.op ≠ .equal)
  let extraportsChanged :=
    decide (a.extraports.map (fun item => (item.2, item.1)) ≠
      b.extraports.map (fun item => (item.2, item.1)))
  let scripts := diffLists verbose a.scriptResults b.scriptResults
  { hostA := a
    hostB := b
    stateChanged := stateChanged
    idChanged := idChanged
    osChanged := decide (osCost > 0)
    extraportsChanged := extraportsChanged
    portDiffs := ports
    osDiffs := osDiffs
    scriptResultDiffs := scripts
    cost :=
      stateChanged.toNat + idChanged.toNat + (ports.map (·.2.cost)).sum + osCost +
        extraportsChanged.toNat + scripts.length }

/-! ## No cost -/

theorem sameSet_iff {α : Type} [DecidableEq α] {a b : List α} :
    sameSet a b = true ↔ ∀ x, x ∈ a ↔ x ∈ b := by
  rw [sameSet, Bool.and_eq_true, all_eq_true, all_eq_true]
  simp only [decide_eq_true_eq]
  constructor
  · exact fun h x => ⟨h.1 x, h.2 x⟩
  · exact fun h => ⟨fun x => (h x).mp, fun x => (h x).mpr⟩

theorem diffLists_eq_nil_iff {a b : List ScriptResult} : diffLists false a b = [] ↔ a = b := by
  have step : ∀ pair : Option ScriptResult × Option ScriptResult,
      (match pair with
        | (some x, some y) =>
          if x.output ≠ y.output ∨ false = true then some (ScriptResultDiff.mk (some x) (some y))
          else none
        | (x, y) => some ⟨x, y⟩) = none ↔
      ∃ x y, pair = (some x, some y) ∧ x.output = y.output := by
    rintro ⟨_ | x, _ | y⟩ <;> simp
  rw [diffLists, filterMap_eq_nil_iff]
  simp only [step]
  rw [forall_join_iff, ← List.forall₂_eq_eq_eq]
  constructor
  · intro h
    refine h.imp fun x y same => ?_
    cases x
    cases y
    simp_all
  · intro h
    refine h.imp fun x y same => ?_
    rw [same]
    exact ⟨rfl, rfl⟩

theorem Host.portOr_spec (h : Host) (spec : Spec) : (h.portOr spec).spec = spec := by
  unfold Host.portOr Host.getPort
  cases found : h.ports.find? (·.spec = spec) with
  | none => rfl
  | some port => simpa using List.find?_some found

/-- The two ports agree on all that a difference of ports counts. -/
structure SamePort (a b : Port) : Prop where
  state : a.state = b.state
  service : a.service.eq b.service = true
  scripts : a.scriptResults = b.scriptResults

theorem PortDiff.cost_eq_zero_iff {a b : Port} (spec : a.spec = b.spec) :
    (PortDiff.new false a b).cost = 0 ↔ SamePort a b := by
  have sum : (PortDiff.new false a b).cost = 0 ↔
      a.state = b.state ∧ a.service.eq b.service = true ∧
        diffLists false a.scriptResults b.scriptResults = [] := by
    simp [PortDiff.new, spec, and_assoc]
  rw [sum, diffLists_eq_nil_iff]
  exact ⟨fun h => ⟨h.1, h.2.1, h.2.2⟩, fun h => ⟨h.state, h.service, h.scripts⟩⟩

/-- The state of the port is folded into the extra ports on both sides. -/
def Folded (a b : Host) (spec : Spec) : Prop :=
  a.isExtraports (a.portOr spec).state = true ∧ b.isExtraports (b.portOr spec).state = true

variable {a b : Host} {spec : Spec}

theorem mem_allSpecs :
    spec ∈ allSpecs a b ↔ (∃ p ∈ a.ports, p.spec = spec) ∨ ∃ p ∈ b.ports, p.spec = spec := by
  rw [allSpecs, (mergeSort_perm _ _).mem_iff, mem_dedup, mem_append, mem_map,
    mem_map]

theorem Host.portOr_of_absent {h : Host} (absent : ¬ ∃ p ∈ h.ports, p.spec = spec) :
    h.portOr spec = { spec := spec } := by
  have none : h.getPort spec = none := by
    rw [Host.getPort, List.find?_eq_none]
    intro p mem same
    exact absent ⟨p, mem, by simpa using same⟩
  rw [Host.portOr, none, Option.getD_none]

theorem folded_of_absent (absent : spec ∉ allSpecs a b) :
    Folded a b spec := by
  rw [mem_allSpecs, not_or] at absent
  rw [Folded, Host.portOr_of_absent absent.1, Host.portOr_of_absent absent.2]
  exact ⟨rfl, rfl⟩

theorem includeDiff_eq_false_iff (spec : Spec) :
    includeDiff false a b (PortDiff.new false (a.portOr spec) (b.portOr spec)) = false ↔
      Folded a b spec ∨ SamePort (a.portOr spec) (b.portOr spec) := by
  have same := PortDiff.cost_eq_zero_iff
    ((a.portOr_spec spec).trans (b.portOr_spec spec).symm)
  rw [← same, Folded, ← Bool.and_eq_true]
  show (if (a.isExtraports (a.portOr spec).state && b.isExtraports (b.portOr spec).state) = true
    then _ else _) = false ↔ _
  split
  · rename_i folded
    simp only [folded, true_or]
  · rename_i shown
    simp only [Bool.false_eq_true, if_false, decide_eq_false_iff_not, shown, false_or]
    omega

theorem portDiffs_eq_nil_iff :
    portDiffsOf false a b = [] ↔
      ∀ spec, Folded a b spec ∨ SamePort (a.portOr spec) (b.portOr spec) := by
  rw [portDiffsOf, filterMap_eq_nil_iff]
  constructor
  · intro none spec
    by_cases mem : spec ∈ allSpecs a b
    · have out := none spec mem
      rw [← includeDiff_eq_false_iff]
      by_contra shown
      simp [shown] at out
    · exact .inl (folded_of_absent mem)
  · intro same spec _
    simp [(includeDiff_eq_false_iff spec).mpr (same spec)]

theorem portDiffs_cost_pos {x : Port × PortDiff} (mem : x ∈ portDiffsOf false a b) :
    0 < x.2.cost := by
  obtain ⟨spec, -, listed⟩ := mem_filterMap.mp mem
  dsimp only at listed
  split at listed
  · rename_i shown
    cases listed
    unfold includeDiff at shown
    split at shown
    · cases shown
    · simpa using shown
  · cases listed

/-- The two hosts agree on all that a difference of hosts counts. -/
structure SameCounted (a b : Host) : Prop where
  state : a.state = b.state
  addresses : ∀ x, x ∈ a.addresses ↔ x ∈ b.addresses
  hostnames : ∀ x, x ∈ a.hostnames ↔ x ∈ b.hostnames
  ports : ∀ spec, Folded a b spec ∨ SamePort (a.portOr spec) (b.portOr spec)
  os : a.os = b.os
  extraports : a.extraports = b.extraports
  scripts : a.scriptResults = b.scriptResults

theorem osChanged_eq_false_iff {difflib : Difflib} (law : difflib.AllEqualIff) (a b : Host) :
    (HostDiff.new difflib false a b).osChanged = false ↔ a.os = b.os := by
  rw [← law a.os b.os]
  show decide ((difflib a.os b.os).countP (·.op ≠ .equal) > 0) = false ↔ _
  rw [decide_eq_false_iff_not, gt_iff_lt, countP_pos_iff]
  simp

theorem idChanged_eq_false_iff (difflib : Difflib) (a b : Host) :
    (HostDiff.new difflib false a b).idChanged = false ↔
      (∀ x, x ∈ a.addresses ↔ x ∈ b.addresses) ∧ ∀ x, x ∈ a.hostnames ↔ x ∈ b.hostnames := by
  rw [← sameSet_iff, ← sameSet_iff]
  show (!sameSet a.addresses b.addresses || !sameSet a.hostnames b.hostnames) = false ↔ _
  simp

theorem extraportsChanged_eq_false_iff (difflib : Difflib) (a b : Host) :
    (HostDiff.new difflib false a b).extraportsChanged = false ↔ a.extraports = b.extraports := by
  have swapped : Function.Injective fun item : Option String × Int => (item.2, item.1) :=
    fun x y same => Prod.ext (Prod.ext_iff.mp same).2 (Prod.ext_iff.mp same).1
  show decide (_ ≠ _) = false ↔ _
  rw [decide_eq_false_iff_not, not_not]
  exact (map_injective_iff.mpr swapped).eq_iff

/-- The cost of a host is zero iff what is counted is the same. -/
theorem HostDiff.cost_eq_zero_iff {difflib : Difflib} (law : difflib.AllEqualIff) (a b : Host) :
    (HostDiff.new difflib false a b).cost = 0 ↔ SameCounted a b := by
  have os := osChanged_eq_false_iff law a b
  have extraports := extraportsChanged_eq_false_iff difflib a b
  have id := idChanged_eq_false_iff difflib a b
  have ports : ((portDiffsOf false a b).map (·.2.cost)).sum = 0 ↔ portDiffsOf false a b = [] := by
    cases listed : portDiffsOf false a b with
    | nil => exact ⟨fun _ => rfl, fun _ => rfl⟩
    | cons x rest =>
      have pos : 0 < x.2.cost := portDiffs_cost_pos (listed ▸ mem_cons_self)
      rw [map_cons, sum_cons]
      constructor
      · intro zero
        omega
      · exact fun none => absurd none (cons_ne_nil _ _)
  have parts : (HostDiff.new difflib false a b).cost = 0 ↔
      a.state = b.state ∧ (HostDiff.new difflib false a b).idChanged = false ∧
        portDiffsOf false a b = [] ∧ (HostDiff.new difflib false a b).osChanged = false ∧
        (HostDiff.new difflib false a b).extraportsChanged = false ∧
        diffLists false a.scriptResults b.scriptResults = [] := by
    rw [← ports]
    simp [HostDiff.new, and_assoc]
  rw [parts, id, os, extraports, portDiffs_eq_nil_iff, diffLists_eq_nil_iff]
  constructor
  · rintro ⟨state, ⟨addresses, hostnames⟩, ports, os, extraports, scripts⟩
    exact ⟨state, addresses, hostnames, ports, os, extraports, scripts⟩
  · intro h
    exact ⟨h.state, ⟨h.addresses, h.hostnames⟩, h.ports, h.os, h.extraports, h.scripts⟩

end Nmap.Ndiff
