import Nmap.Ndiff.Dom
import Nmap.Ndiff.TextMarks

/-!
# What the differences show (`ndiff.py`)

A difference of hosts with a cost is counted by one set of comparisons and shown by others, once as
text and once as XML. What is said here is when both show it.
-/

namespace Nmap.Ndiff

open Nmap.Base List

/-! ## Fragments without a mark -/

theorem not_marks_map {α : Type} {xs : List α} {f : α → Node} (plain : ∀ x, ¬ (f x).HasMark) :
    ¬ Marks (xs.map f) := by
  rintro ⟨node, mem, mark⟩
  obtain ⟨x, -, rfl⟩ := mem_map.mp mem
  exact plain x mark

/-- An element that is not `<a>` or `<b>` and has no children -/
theorem not_hasMark_leaf {tag : String} (other : tag ≠ "a" ∧ tag ≠ "b")
    (attrs : List (String × Option String)) : ¬ (Node.elem tag attrs []).HasMark := by
  intro mark
  cases mark with
  | here isMark => exact isMark.elim other.1 other.2
  | inside mem _ => cases mem

@[simp] theorem Address.not_marks (addr : Address) : ¬ Marks addr.toDomFragment := by
  simp [Address.toDomFragment]

@[simp] theorem ScriptResult.not_marks (sr : ScriptResult) : ¬ Marks sr.toDomFragment := by
  simp [ScriptResult.toDomFragment]

@[simp] theorem Service.not_marks (s : Service) : ¬ Marks s.toDomFragment := by
  rw [Service.toDomFragment]
  split
  · simp
  · simp

@[simp] theorem Port.stateElem_not_marks (p : Port) : ¬ Marks p.stateElem :=
  not_marks_map fun _ => not_hasMark_leaf (by decide) _

@[simp] theorem Host.hostname_not_marks (hostname : String) :
    ¬ Marks (Host.hostnameToDomFragment hostname) := by
  simp [Host.hostnameToDomFragment]

@[simp] theorem Host.os_not_marks (os : String) : ¬ Marks (Host.osToDomFragment os) := by
  simp [Host.osToDomFragment]

@[simp] theorem Host.extraports_not_marks (h : Host) : ¬ Marks h.extraportsToDomFragment :=
  not_marks_map fun _ => not_hasMark_leaf (by decide) _

/-! ## The parts of `to_dom_fragment` -/

theorem diffLists_marks {a b : List ScriptResult} {diff : ScriptResultDiff}
    (mem : diff ∈ diffLists false a b) : Marks diff.toDomFragment := by
  obtain ⟨⟨x, y⟩, memJoin, listed⟩ := mem_filterMap.mp mem
  match x, y with
  | none, none => exact absurd memJoin (none_none_not_mem_join a b)
  | some x, none =>
    cases listed
    simp [ScriptResultDiff.toDomFragment]
  | none, some y =>
    cases listed
    simp [ScriptResultDiff.toDomFragment]
  | some x, some y =>
    dsimp only at listed
    split at listed
    · rename_i differ
      cases listed
      have other : x ≠ y := by
        rintro rfl
        simp at differ
      simp [ScriptResultDiff.toDomFragment, other]
    · cases listed

theorem scriptResultDiffs_marks (tag : String) {a b : List ScriptResult}
    (differ : diffLists false a b ≠ []) :
    Marks (scriptResultDiffsToDomFragment tag a b (diffLists false a b)) := by
  unfold scriptResultDiffsToDomFragment
  by_cases noneB : b.length = 0
  · by_cases noneA : a.length = 0
    · rw [length_eq_zero_iff] at noneA noneB
      exact absurd (diffLists_eq_nil_iff.mpr (noneA.trans noneB.symm)) differ
    · rw [if_neg fun both => noneA both.1, if_pos noneB, marks_cons]
      exact .inl (.inl (.inl rfl))
  · rw [if_neg fun both => noneB both.2, if_neg noneB]
    by_cases noneA : a.length = 0
    · rw [if_pos noneA, marks_cons]
      exact .inl (.inl (.inr rfl))
    · rw [if_neg noneA, marks_cons, marks_flatMap]
      obtain ⟨diff, rest, cons⟩ := exists_cons_of_ne_nil differ
      have mem : diff ∈ diffLists false a b := cons ▸ mem_cons_self
      exact .inl (.inr ⟨diff, mem, diffLists_marks mem⟩)

theorem setElems_marks {α : Type} [DecidableEq α] {le : α → α → Bool} {toDom : α → Fragment}
    (plain : ∀ x, ¬ Marks (toDom x)) (shown : ∀ x, toDom x ≠ []) {a b : List α} :
    Marks (setElems le toDom a b) ↔ ¬ ∀ x, x ∈ a ↔ x ∈ b := by
  -- What is sorted has the elements of the difference.
  have alone : ∀ xs ys : List α,
      ((((xs.filter (· ∉ ys)).dedup).mergeSort le).flatMap toDom ≠ []) ↔ ∃ x ∈ xs, x ∉ ys := by
    intro xs ys
    rw [ne_eq, flatMap_eq_nil_iff]
    simp only [mem_mergeSort, mem_dedup, mem_filter, decide_eq_true_eq, shown]
    push Not
    simp
  unfold setElems
  simp only [marks_append, marks_elemUnlessEmpty, marks_flatMap, plain, and_false, exists_false,
    or_false, false_or, alone, true_or, or_true, and_true]
  rw [← not_iff_not]
  push Not
  constructor
  · exact fun h x => ⟨h.1 x, h.2 x⟩
  · exact fun h => ⟨fun x => (h x).mp, fun x => (h x).mpr⟩

section Parts

variable {difflib : Difflib} {a b : Host}

theorem stateElems_marks :
    Marks ((HostDiff.new difflib false a b).stateElems false) ↔ a.state ≠ b.state := by
  show Marks (if a.state = b.state then _ else _) ↔ _
  by_cases same : a.state = b.state
  · rw [if_pos same]
    simp [same]
  · rw [if_neg same]
    simp [same]

theorem PortDiff.marks_of_differ {a b : Port} (spec : a.spec = b.spec) (differ : ¬ SamePort a b) :
    Marks (PortDiff.new false a b).toDomFragment := by
  rw [PortDiff.toDomFragment, marks_cons]
  refine .inl (.inr ?_)
  show Marks (if a.spec = b.spec ∧ a.state = b.state then _ else _)
  by_cases state : a.state = b.state
  · rw [if_pos ⟨spec, state⟩, marks_cons, marks_append, marks_append]
    refine .inl (.inr ?_)
    show (_ ∨ Marks (if a.service.eq b.service = true then _ else _)) ∨
      Marks ((diffLists false a.scriptResults b.scriptResults).flatMap _)
    by_cases service : a.service.eq b.service = true
    · right
      have scripts : diffLists false a.scriptResults b.scriptResults ≠ [] := fun none =>
        differ ⟨state, service, diffLists_eq_nil_iff.mp none⟩
      obtain ⟨diff, rest, cons⟩ := exists_cons_of_ne_nil scripts
      have mem : diff ∈ diffLists false a.scriptResults b.scriptResults :=
        cons ▸ mem_cons_self
      exact marks_flatMap.mpr ⟨diff, mem, diffLists_marks mem⟩
    · left
      rw [if_neg service, marks_cons]
      exact .inr (.inl (.inl (.inl rfl)))
  · rw [if_neg fun both => state both.2, marks_cons]
    exact .inl (.inl (.inl rfl))

theorem portDiffsOf_marks {x : Port × PortDiff} (mem : x ∈ portDiffsOf false a b) :
    Marks x.2.toDomFragment := by
  obtain ⟨spec, new, -, differ⟩ := mem_portDiffsOf mem
  rw [new]
  exact PortDiff.marks_of_differ ((a.portOr_spec spec).trans (b.portOr_spec spec).symm) differ

theorem portElems_marks :
    Marks ((HostDiff.new difflib false a b).portElems false) ↔
      sameExtraports a b = false ∨ portDiffsOf false a b ≠ [] := by
  have ports : Marks ((portDiffsOf false a b).flatMap fun x =>
      if x.2.cost = 0 then if false = true then x.1.toDomFragment else []
      else x.2.toDomFragment) ↔ portDiffsOf false a b ≠ [] := by
    rw [marks_flatMap]
    constructor
    · rintro ⟨x, mem, -⟩
      exact ne_nil_of_mem mem
    · intro some_
      obtain ⟨x, rest, cons⟩ := exists_cons_of_ne_nil some_
      have mem : x ∈ portDiffsOf false a b := cons ▸ mem_cons_self
      refine ⟨x, mem, ?_⟩
      rw [if_neg (portDiffs_cost_pos mem).ne']
      exact portDiffsOf_marks mem
  unfold HostDiff.portElems
  rw [marks_append]
  refine or_congr ?_ ports
  show Marks (if sameExtraports a b = true then _ else _) ↔ _
  cases same : sameExtraports a b with
  | true => simp [HostDiff.new]
  | false => simp

theorem osElems_marks (law : difflib.Lawful) :
    Marks (HostDiff.new difflib false a b).osElems ↔ a.os ≠ b.os := by
  have allEqual := law.allEqual a.os b.os
  rw [ne_eq, ← allEqual]
  unfold HostDiff.osElems
  rw [marks_flatMap]
  push Not
  refine exists_congr fun x => and_congr_right fun _ => ?_
  cases op : x.op <;> simp

theorem scriptElems_marks :
    Marks ((HostDiff.new difflib false a b).scriptElems false) ↔
      a.scriptResults ≠ b.scriptResults := by
  have none := diffLists_eq_nil_iff (a := a.scriptResults) (b := b.scriptResults)
  show Marks (if (diffLists false a.scriptResults b.scriptResults).length > 0 ∨ false = true
    then _ else _) ↔ _
  rw [ne_eq, ← none]
  by_cases same : diffLists false a.scriptResults b.scriptResults = []
  · simp [same]
  · rw [if_pos (.inl (length_pos_iff.mpr same))]
    exact iff_of_true (scriptResultDiffs_marks _ same) same

/-- The hosts agree on all that is counted but the order of the extra ports. -/
structure SameButOrder (a b : Host) : Prop where
  state : a.state = b.state
  addresses : ∀ x, x ∈ a.addresses ↔ x ∈ b.addresses
  hostnames : ∀ x, x ∈ a.hostnames ↔ x ∈ b.hostnames
  ports : ∀ spec, Folded a b spec ∨ SamePort (a.portOr spec) (b.portOr spec)
  os : a.os = b.os
  extraports : sameExtraports a b = true
  scripts : a.scriptResults = b.scriptResults

theorem not_sameButOrder_iff :
    ¬ SameButOrder a b ↔
      (((((a.state ≠ b.state ∨ ¬ ∀ x, x ∈ a.addresses ↔ x ∈ b.addresses) ∨
        ¬ ∀ x, x ∈ a.hostnames ↔ x ∈ b.hostnames) ∨
        (sameExtraports a b = false ∨ portDiffsOf false a b ≠ [])) ∨
        a.os ≠ b.os) ∨ a.scriptResults ≠ b.scriptResults) := by
  rw [← not_iff_not, not_not]
  simp only [not_or, not_not, ne_eq, Bool.not_eq_false]
  rw [portDiffs_eq_nil_iff]
  constructor
  · exact fun h =>
      ⟨⟨⟨⟨⟨h.state, h.addresses⟩, h.hostnames⟩, h.extraports, h.ports⟩, h.os⟩, h.scripts⟩
  · rintro ⟨⟨⟨⟨⟨state, addresses⟩, hostnames⟩, extraports, ports⟩, os⟩, scripts⟩
    exact ⟨state, addresses, hostnames, ports, os, extraports, scripts⟩

theorem osChanges_marks (law : difflib.Lawful) :
    Marks ((HostDiff.new difflib false a b).osChanges false) ↔ a.os ≠ b.os := by
  have changed := osChanged_eq_false_iff law.allEqual a b
  unfold HostDiff.osChanges
  by_cases same : a.os = b.os
  · rw [if_neg (by simp [changed.mpr same])]
    simp [same]
  · rw [if_pos (.inl (Bool.eq_true_of_not_eq_false (changed.not.mpr same))),
      marks_elemUnlessEmpty, osElems_marks law]
    simp

/-- An element other than `<a>` and `<b>` has the marks of its children. -/
theorem marks_elemUnlessEmpty_other {tag : String} (other : tag ≠ "a" ∧ tag ≠ "b")
    {children : Fragment} : Marks (elemUnlessEmpty tag children) ↔ Marks children := by
  rw [marks_elemUnlessEmpty]
  simp [other]

theorem hostElems_marks (law : difflib.Lawful) :
    Marks ((HostDiff.new difflib false a b).hostElems false) ↔ ¬ SameButOrder a b := by
  have addresses : Marks (setElems Address.le Address.toDomFragment a.addresses b.addresses) ↔ _ :=
    setElems_marks Address.not_marks fun _ => cons_ne_nil _ _
  have hostnames : Marks (setElems (fun x y => decide (x ≤ y)) Host.hostnameToDomFragment
      a.hostnames b.hostnames) ↔ _ :=
    setElems_marks Host.hostname_not_marks fun _ => cons_ne_nil _ _
  unfold HostDiff.hostElems
  rw [not_sameButOrder_iff, marks_append, marks_append, marks_append, marks_append, marks_append,
    marks_elemUnlessEmpty_other (by decide), marks_elemUnlessEmpty_other (by decide),
    stateElems_marks, portElems_marks, osChanges_marks law, scriptElems_marks]
  exact or_congr_left (or_congr_left (or_congr_left
    (or_congr (or_congr_right addresses) hostnames)))

theorem toDomFragment_marks (law : difflib.Lawful) (oneState : a.state ≠ none ∨ b.state ≠ none) :
    Marks ((HostDiff.new difflib false a b).toDomFragment false) ↔
      (a.state = none ∨ b.state = none) ∨ ¬ SameButOrder a b := by
  rw [HostDiff.toDomFragment, marks_cons]
  show ((_ ∨ Marks (if a.state.isNone ∨ b.state.isNone then
    if a.state.isSome then _ else if b.state.isSome then _ else _ else _)) ∨ _) ↔ _
  simp only [Option.isNone_iff_eq_none]
  by_cases missing : a.state = none ∨ b.state = none
  · rw [if_pos missing]
    refine iff_of_true (.inl (.inr ?_)) (.inl missing)
    by_cases stateA : a.state.isSome = true
    · rw [if_pos stateA, marks_cons]
      exact .inl (.inl (.inl rfl))
    · have stateB : b.state.isSome = true := by
        rw [Option.isSome_iff_ne_none] at stateA ⊢
        exact oneState.resolve_left stateA
      rw [if_neg stateA, if_pos stateB, marks_cons]
      exact .inl (.inl (.inr rfl))
  · rw [if_neg missing, marks_cons, hostElems_marks law]
    simp [missing]

/-! ## Both outputs -/

/-- The hosts differ in their scripts, and in nothing else that is counted. -/
structure OnlyScripts (a b : Host) : Prop extends SameButScripts a b where
  scripts : a.scriptResults ≠ b.scriptResults

/-- The hosts differ in the order of the extra ports, and in nothing else that is counted. -/
structure OnlyOrder (a b : Host) : Prop extends SameButOrder a b where
  order : a.extraports ≠ b.extraports

/-- The difference is none of those that an output hides. -/
structure Clear (f : Stream) (a b : Host) : Prop where
  columns : ¬ ColumnsHide a b
  sortable : a.extraports ≠ b.extraports → ¬ a.Unsortable ∧ ¬ b.Unsortable
  scripts : OnlyScripts a b → f = .stdout ∧
    ∃ diff ∈ diffLists false a.scriptResults b.scriptResults, diff.LinesDiffer
  order : ¬ OnlyOrder a b

/-- Both outputs of two hosts show a difference. -/
def Shown (difflib : Difflib) (f : Stream) (a b : Host) : Prop :=
  TextShown difflib f (HostDiff.new difflib false a b) ∧
    Marks ((HostDiff.new difflib false a b).toDomFragment false)

theorem seen_iff {f : Stream} (differ : ¬ SameCounted a b) :
    (¬ SameButScripts a b ∨ f = .stdout ∧
      ∃ diff ∈ diffLists false a.scriptResults b.scriptResults, diff.LinesDiffer) ↔
    (OnlyScripts a b → f = .stdout ∧
      ∃ diff ∈ diffLists false a.scriptResults b.scriptResults, diff.LinesDiffer) := by
  constructor
  · rintro (other | seen) only
    · exact absurd only.toSameButScripts other
    · exact seen
  · intro clear
    by_cases same : SameButScripts a b
    · refine .inr (clear ⟨same, fun scripts => differ ?_⟩)
      exact ⟨same.state, same.addresses, same.hostnames, same.ports, same.os, same.extraports,
        scripts⟩
    · exact .inl same

theorem marked_iff (differ : ¬ SameCounted a b) (oneState : a.state ≠ none ∨ b.state ≠ none) :
    ((a.state = none ∨ b.state = none) ∨ ¬ SameButOrder a b) ↔ ¬ OnlyOrder a b := by
  constructor
  · rintro (missing | other) only
    · have same := only.state
      rcases missing with none | none
      · exact oneState.elim (absurd none) (absurd (same ▸ none))
      · exact oneState.elim (absurd (same ▸ none)) (absurd none)
    · exact other only.toSameButOrder
  · intro notOnly
    refine .inr fun same => notOnly ⟨same, fun extraports => differ ?_⟩
    exact ⟨same.state, same.addresses, same.hostnames, same.ports, same.os, extraports,
      same.scripts⟩

/-- A difference that is counted is shown by both outputs iff it is clear. -/
theorem shown_iff (law : difflib.Lawful) (f : Stream)
    (counted : 0 < (HostDiff.new difflib false a b).cost)
    (oneState : a.state ≠ none ∨ b.state ≠ none) : Shown difflib f a b ↔ Clear f a b := by
  have differ : ¬ SameCounted a b := fun same =>
    counted.ne' ((HostDiff.cost_eq_zero_iff law.allEqual a b).mpr same)
  rw [Shown, textShown_iff law f oneState, toDomFragment_marks law oneState,
    marked_iff differ oneState]
  constructor
  · exact fun h => ⟨h.1.columns, h.1.sortable, (seen_iff differ).mp h.1.seen, h.2⟩
  · exact fun h => ⟨⟨h.columns, h.sortable, (seen_iff differ).mpr h.scripts⟩, h.order⟩

end Parts

/-! ## Runs -/

/-- An opcode that changes something is about the whole lists, and takes nothing from an empty
one. -/
theorem mem_wholeOpcodes {a b : List String} {x : Opcode} (mem : x ∈ wholeOpcodes a b)
    (other : x.op ≠ .equal) :
    (x.i1 = 0 ∧ x.i2 = a.length ∧ (x.op ≠ .insert → a ≠ [])) ∧
      x.j1 = 0 ∧ x.j2 = b.length ∧ (x.op ≠ .delete → b ≠ []) := by
  unfold wholeOpcodes at mem
  by_cases same : a = b
  · rw [if_pos same] at mem
    split at mem
    · cases mem
    · rw [mem_singleton.mp mem] at other
      exact absurd rfl other
  · rw [if_neg same] at mem
    by_cases noneB : b = []
    · rw [if_pos noneB, mem_singleton] at mem
      subst mem noneB
      exact ⟨⟨rfl, rfl, fun _ => same⟩, rfl, rfl, fun delete => absurd rfl delete⟩
    · rw [if_neg noneB] at mem
      by_cases noneA : a = []
      · rw [if_pos noneA, mem_singleton] at mem
        subst mem noneA
        exact ⟨⟨rfl, rfl, fun insert => absurd rfl insert⟩, rfl, rfl, fun _ => noneB⟩
      · rw [if_neg noneA, mem_singleton] at mem
        subst mem
        exact ⟨⟨rfl, rfl, fun _ => noneA⟩, rfl, rfl, fun _ => noneB⟩

theorem wholeOpcodes_lawful : Difflib.Lawful wholeOpcodes := by
  refine ⟨wholeOpcodes_allEqualIff, fun a b x mem op => ?_, fun a b x mem op => ?_⟩
  · obtain ⟨⟨i1, i2, some_⟩, -⟩ := mem_wholeOpcodes mem fun equal => by simp [equal] at op
    have pos := length_pos_iff.mpr (some_ fun insert => by simp [insert] at op)
    exact ⟨by rw [i1, i2]; exact pos, i2.le⟩
  · obtain ⟨-, j1, j2, some_⟩ := mem_wholeOpcodes mem fun equal => by simp [equal] at op
    have pos := length_pos_iff.mpr (some_ fun delete => by simp [delete] at op)
    exact ⟨by rw [j1, j2]; exact pos, j2.le⟩

def bareHost (state : String) : Host := { object := 1, state := some state }

/-- A host that goes down is shown. -/
theorem shown_iff_state : Shown wholeOpcodes .file (bareHost "up") (bareHost "down") := by
  have states : (bareHost "up").state ≠ (bareHost "down").state := by decide
  refine (shown_iff wholeOpcodes_lawful .file (Nat.pos_of_ne_zero fun zero => ?_)
    (.inl (by decide))).mpr ⟨?_, ?_, ?_, ?_⟩
  · exact states ((HostDiff.cost_eq_zero_iff wholeOpcodes_allEqualIff _ _).mp zero).state
  · rintro ⟨spec, shown, -⟩
    exact shown (folded_of_absent (by simp [mem_allSpecs, bareHost]))
  · exact fun differ => absurd rfl differ
  · exact fun only => absurd only.state states
  · exact fun only => states only.state

/-- A host with a web server, of which a script has an output -/
def titleHost (title : String) : Host where
  object := 1
  state := some "up"
  ports := [{ spec := ⟨80, "tcp"⟩, state := some "open", scriptResults := [⟨"http-title", title⟩] }]

/-- A script of a port has another output, which is counted, and printing it raises an exception. -/
theorem shown_misses_script :
    0 < (HostDiff.new wholeOpcodes false (titleHost "a") (titleHost "b")).cost ∧
      (titleHost "a").state ≠ none ∧
      (HostDiff.new wholeOpcodes false (titleHost "a") (titleHost "b")).printText wholeOpcodes
        false .file = .error .typeError := by
  have hidden : ColumnsHide (titleHost "a") (titleHost "b") := by
    refine ⟨⟨80, "tcp"⟩, ?_, fun same => ?_, rfl⟩
    · intro folded
      exact absurd folded.1 (by decide)
    · exact absurd same.scripts (by decide)
  refine ⟨Nat.pos_of_ne_zero fun zero => ?_, by decide, ?_⟩
  · have same := (HostDiff.cost_eq_zero_iff wholeOpcodes_allEqualIff _ _).mp zero
    obtain ⟨spec, shown, differ, -⟩ := hidden
    exact (same.ports spec).elim shown differ
  · obtain ⟨e, error⟩ := printText_error wholeOpcodes .file (.inl hidden)
    cases e
    exact error

end Nmap.Ndiff
