import Nmap.Ndiff.HostDiff

/-!
# The XML of a difference (`ndiff.py`)

`HostDiff.to_dom_fragment` puts what differs into `<a>` and `<b>` elements. A document fragment is
the list of its children.
-/

namespace Nmap.Ndiff

open List

/-! ## Elements -/

/-- An element with its attributes, of which `setAttribute` takes any value -/
inductive Node
  | elem (tag : String) (attrs : List (String × Option String)) (children : List Node)

/-- The node is an `<a>` or a `<b>`, or contains one. -/
inductive Node.HasMark : Node → Prop
  | here {tag : String} {attrs : List (String × Option String)} {children : List Node} :
      tag = "a" ∨ tag = "b" → HasMark (.elem tag attrs children)
  | inside {tag : String} {attrs : List (String × Option String)} {children : List Node}
      {child : Node} : child ∈ children → child.HasMark → HasMark (.elem tag attrs children)

/-- `Host.to_dom_fragment` and the others make fragments. -/
abbrev Fragment := List Node

/-- An `<a>` or a `<b>` is somewhere in the fragment. -/
def Marks (frag : Fragment) : Prop := ∃ node ∈ frag, node.HasMark

@[simp] theorem not_marks_nil : ¬ Marks [] := by
  rintro ⟨node, mem, -⟩
  cases mem

@[simp] theorem marks_append {xs ys : Fragment} : Marks (xs ++ ys) ↔ Marks xs ∨ Marks ys := by
  simp only [Marks, mem_append, or_and_right, exists_or]

@[simp] theorem marks_cons {tag : String} {attrs : List (String × Option String)}
    {children : List Node} {rest : Fragment} :
    Marks (.elem tag attrs children :: rest) ↔
      ((tag = "a" ∨ tag = "b") ∨ Marks children) ∨ Marks rest := by
  constructor
  · rintro ⟨node, mem, mark⟩
    rcases mem_cons.mp mem with rfl | mem
    · cases mark with
      | here isMark => exact .inl (.inl isMark)
      | inside mem mark => exact .inl (.inr ⟨_, mem, mark⟩)
    · exact .inr ⟨node, mem, mark⟩
  · rintro ((isMark | ⟨child, mem, mark⟩) | ⟨node, mem, mark⟩)
    · exact ⟨_, mem_cons_self, .here isMark⟩
    · exact ⟨_, mem_cons_self, .inside mem mark⟩
    · exact ⟨node, mem_cons_of_mem _ mem, mark⟩

@[simp] theorem marks_flatMap {α : Type} {xs : List α} {f : α → Fragment} :
    Marks (xs.flatMap f) ↔ ∃ x ∈ xs, Marks (f x) := by
  constructor
  · rintro ⟨node, mem, mark⟩
    obtain ⟨x, memX, memNode⟩ := mem_flatMap.mp mem
    exact ⟨x, memX, node, memNode, mark⟩
  · rintro ⟨x, memX, node, memNode, mark⟩
    exact ⟨node, mem_flatMap.mpr ⟨x, memX, memNode⟩, mark⟩

/-- An element that is appended only where it has children -/
def elemUnlessEmpty (tag : String) (children : Fragment) : Fragment :=
  if children = [] then [] else [.elem tag [] children]

theorem marks_elemUnlessEmpty {tag : String} {children : Fragment} :
    Marks (elemUnlessEmpty tag children) ↔
      children ≠ [] ∧ (tag = "a" ∨ tag = "b") ∨ Marks children := by
  unfold elemUnlessEmpty
  by_cases empty : children = []
  · rw [if_pos empty, empty]
    simp
  · rw [if_neg empty, marks_cons]
    simp [empty]

/-! ## What is shown of the data -/

/-- The `type` of the subclasses of `Address` -/
def AddrType.text : AddrType → String
  | .ipv4 => "ipv4"
  | .ipv6 => "ipv6"
  | .mac => "mac"

def Address.toDomFragment (addr : Address) : Fragment :=
  [.elem "address" [("addr", some addr.s), ("addrtype", some addr.type.text)] []]

def Service.toDomFragment (s : Service) : Fragment :=
  let attrs := [("name", s.name), ("product", s.product), ("version", s.version),
    ("extrainfo", s.extrainfo), ("tunnel", s.tunnel)].filter (·.2.isSome)
  if attrs.length > 0 then [.elem "service" attrs []] else []

def ScriptResult.toDomFragment (sr : ScriptResult) : Fragment :=
  [.elem "script" [("id", some sr.id), ("output", some sr.output)] []]

def Port.attrs (p : Port) : List (String × Option String) :=
  [("portid", some (toString p.spec.number)), ("protocol", some p.spec.protocol)]

/-- The state of a port, where it has one -/
def Port.stateElem (p : Port) : Fragment :=
  p.state.toList.map fun state => .elem "state" [("state", some state)] []

def Port.toDomFragment (p : Port) : Fragment :=
  [.elem "port" p.attrs (p.stateElem ++ p.service.toDomFragment ++
    p.scriptResults.flatMap ScriptResult.toDomFragment)]

namespace Host

def stateToDomFragment (h : Host) : Fragment :=
  h.state.toList.map fun state => .elem "status" [("state", some state)] []

def hostnameToDomFragment (hostname : String) : Fragment :=
  [.elem "hostname" [("name", some hostname)] []]

def extraportsToDomFragment (h : Host) : Fragment :=
  h.extraports.map fun item =>
    .elem "extraports" [("state", item.1), ("count", some (toString item.2))] []

def osToDomFragment (os : String) : Fragment := [.elem "osmatch" [("name", some os)] []]

/-- `to_dom_fragment`. The specifications of the ports are distinct, so that their order is the
order of the ports. -/
def toDomFragment (h : Host) : Fragment :=
  let ports := (h.ports.mergeSort fun p q => p.spec.le q.spec).filter
    fun port => !h.isExtraports port.state
  [.elem "host" []
    ((if h.state.isSome then h.stateToDomFragment else []) ++
      h.addresses.flatMap Address.toDomFragment ++
      (if h.hostnames.length > 0 then
        [.elem "hostnames" [] (h.hostnames.flatMap hostnameToDomFragment)] else []) ++
      elemUnlessEmpty "ports" (h.extraportsToDomFragment ++ ports.flatMap Port.toDomFragment) ++
      (if h.os.length > 0 then [.elem "os" [] (h.os.flatMap osToDomFragment)] else []) ++
      (if h.scriptResults.length > 0 then
        [.elem "hostscript" [] (h.scriptResults.flatMap ScriptResult.toDomFragment)] else []))]

end Host

/-! ## Differences -/

def ScriptResultDiff.toDomFragment (diff : ScriptResultDiff) : Fragment :=
  if diff.srA.isSome ∧ diff.srB.isSome ∧ diff.srA = diff.srB then
    diff.srA.toList.flatMap ScriptResult.toDomFragment
  else
    (diff.srA.toList.map fun sr => .elem "a" [] sr.toDomFragment) ++
      diff.srB.toList.map fun sr => .elem "b" [] sr.toDomFragment

/-- `script_result_diffs_to_dom_fragment` for an element without children -/
def scriptResultDiffsToDomFragment (tag : String) (a b : List ScriptResult)
    (diffs : List ScriptResultDiff) : Fragment :=
  if a.length = 0 ∧ b.length = 0 then []
  else if b.length = 0 then [.elem "a" [] [.elem tag [] (a.flatMap ScriptResult.toDomFragment)]]
  else if a.length = 0 then [.elem "b" [] [.elem tag [] (b.flatMap ScriptResult.toDomFragment)]]
  else [.elem tag [] (diffs.flatMap ScriptResultDiff.toDomFragment)]

def PortDiff.toDomFragment (diff : PortDiff) : Fragment :=
  let a := diff.portA
  let b := diff.portB
  [.elem "portdiff" []
    (if a.spec = b.spec ∧ a.state = b.state then
      [.elem "port" a.attrs (a.stateElem ++
        (if a.service.eq b.service then a.service.toDomFragment
          else [.elem "a" [] a.service.toDomFragment, .elem "b" [] b.service.toDomFragment]) ++
        diff.scriptResultDiffs.flatMap ScriptResultDiff.toDomFragment)]
    else [.elem "a" [] a.toDomFragment, .elem "b" [] b.toDomFragment])]

/-- What two sets have in common, and what one of them has alone, each sorted -/
def setElems {α : Type} [DecidableEq α] (le : α → α → Bool) (toDom : α → Fragment)
    (a b : List α) : Fragment :=
  (((a.filter (· ∈ b)).dedup).mergeSort le).flatMap toDom ++
    elemUnlessEmpty "a" ((((a.filter (· ∉ b)).dedup).mergeSort le).flatMap toDom) ++
    elemUnlessEmpty "b" ((((b.filter (· ∉ a)).dedup).mergeSort le).flatMap toDom)

/-- The comparison of two dictionaries of extra ports -/
def sameExtraports (a b : Host) : Bool :=
  a.extraports.length == b.extraports.length &&
    a.extraports.all fun item => b.getExtraports item.1 == some item.2

namespace HostDiff

variable (verbose : Bool) (d : HostDiff)

def stateElems : Fragment :=
  if d.hostA.state = d.hostB.state then
    if verbose then d.hostA.stateToDomFragment else []
  else [.elem "a" [] d.hostA.stateToDomFragment, .elem "b" [] d.hostB.stateToDomFragment]

def portElems : Fragment :=
  (if sameExtraports d.hostA d.hostB then d.hostA.extraportsToDomFragment
    else [.elem "a" [] d.hostA.extraportsToDomFragment,
      .elem "b" [] d.hostB.extraportsToDomFragment]) ++
    d.portDiffs.flatMap fun x =>
      if x.2.cost = 0 then if verbose then x.1.toDomFragment else [] else x.2.toDomFragment

/-- The children of `os_elem` -/
def osElems : Fragment :=
  d.osDiffs.flatMap fun x =>
    let ofA := ((d.hostA.os.drop x.i1).take (x.i2 - x.i1)).flatMap Host.osToDomFragment
    let ofB := ((d.hostB.os.drop x.j1).take (x.j2 - x.j1)).flatMap Host.osToDomFragment
    (if x.op = .replace ∨ x.op = .delete then [.elem "a" [] ofA] else []) ++
      (if x.op = .replace ∨ x.op = .insert then [.elem "b" [] ofB] else []) ++
      (if x.op = .equal then ofA else [])

def scriptElems : Fragment :=
  if d.scriptResultDiffs.length > 0 ∨ verbose = true then
    scriptResultDiffsToDomFragment "hostscript" d.hostA.scriptResults d.hostB.scriptResults
      d.scriptResultDiffs
  else []

def osChanges : Fragment :=
  if d.osChanged ∨ verbose = true then elemUnlessEmpty "os" d.osElems else []

/-- The children of `host_elem` -/
def hostElems : Fragment :=
  d.stateElems verbose ++
    setElems Address.le Address.toDomFragment d.hostA.addresses d.hostB.addresses ++
    elemUnlessEmpty "hostnames" (setElems (fun x y => decide (x ≤ y)) Host.hostnameToDomFragment
      d.hostA.hostnames d.hostB.hostnames) ++
    elemUnlessEmpty "ports" (d.portElems verbose) ++
    d.osChanges verbose ++
    d.scriptElems verbose

def toDomFragment : Fragment :=
  [.elem "hostdiff" []
    (if d.hostA.state.isNone ∨ d.hostB.state.isNone then
      -- "The host is missing in one scan. Output the whole thing."
      if d.hostA.state.isSome then [.elem "a" [] d.hostA.toDomFragment]
      else if d.hostB.state.isSome then [.elem "b" [] d.hostB.toDomFragment]
      else []
    else
      [.elem "host" [] (d.hostElems verbose)])]

end HostDiff

end Nmap.Ndiff
