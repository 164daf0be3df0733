import Mathlib.Data.String.Basic
import Mathlib.Data.Sum.Order
import Mathlib.Data.List.Nodup

/-!
# Scans (`ndiff.py`)

The data of a scan as Ndiff reads it, with what the differences ask of it. Dictionaries are lists
of their items in the order of insertion, each key once.
-/

namespace Nmap.Ndiff

/-- The exceptions of the language that the code can raise -/
inductive PyError
  | typeError
  deriving DecidableEq, Repr

/-! ## Addresses -/

/-- `IPv4Address`, `IPv6Address` and `MACAddress` -/
inductive AddrType
  | ipv4 | ipv6 | mac
  deriving DecidableEq, Repr

def AddrType.rank : AddrType → Nat
  | .ipv4 => 0
  | .ipv6 => 1
  | .mac => 2

/-- `Address`. Two are equal when their sort keys are, so when type and text are. -/
structure Address where
  type : AddrType
  s : String
  deriving DecidableEq, Repr

/-- The order of `sort_key` -/
def Address.le (a b : Address) : Bool :=
  a.type.rank < b.type.rank || a.type.rank == b.type.rank && decide (a.s ≤ b.s)

/-! ## Services, scripts and ports -/

structure Service where
  name : Option String := none
  product : Option String := none
  version : Option String := none
  extrainfo : Option String := none
  tunnel : Option String := none
  deriving DecidableEq, Repr

def Service.eq (a b : Service) : Bool :=
  a.name == b.name && a.product == b.product && a.version == b.version && a.extrainfo == b.extrainfo

structure ScriptResult where
  id : String
  output : String
  deriving DecidableEq, Repr

/-- A port number and a protocol -/
structure Spec where
  number : Int
  protocol : String
  deriving DecidableEq, Repr

def Spec.le (a b : Spec) : Bool :=
  a.number < b.number || a.number == b.number && decide (a.protocol ≤ b.protocol)

structure Port where
  spec : Spec
  state : Option String := none
  service : Service := {}
  scriptResults : List ScriptResult := []
  deriving DecidableEq, Repr

/-! ## Hosts -/

theorem noSpecs : ([] : List Spec).Nodup := List.nodup_nil

theorem noStates : ([] : List (Option String)).Nodup := List.nodup_nil

/-- `Host`. The items of `extraports` are states, or none for "unknown", and counts. -/
structure Host where
  /-- what `id` gives for the object -/
  object : Nat
  state : Option String := none
  addresses : List Address := []
  hostnames : List String := []
  ports : List Port := []
  extraports : List (Option String × Int) := []
  os : List String := []
  scriptResults : List ScriptResult := []
  portsKeys : (ports.map Port.spec).Nodup := by first | exact noSpecs | simp
  extraportsKeys : (extraports.map Prod.fst).Nodup := by first | exact noStates | simp

/-- `Host()`, as it is put in the place of a host that is missing -/
def Host.empty : Host := { object := 0 }

/-- `ports.get` -/
def Host.getPort (h : Host) (spec : Spec) : Option Port := h.ports.find? (·.spec = spec)

/-- `extraports.get` -/
def Host.getExtraports (h : Host) (state : Option String) : Option Int :=
  (h.extraports.find? (·.1 = state)).map Prod.snd

def Host.isExtraports (h : Host) (state : Option String) : Bool :=
  state == none || h.extraports.any (·.1 = state)

/-- `get_id`: a text, or the object of a host without addresses and names -/
inductive HostId
  | text (s : String)
  | object (n : Nat)
  deriving DecidableEq, Repr

/-- `"%-40s" % s` -/
def pad40 (s : String) : String := s ++ String.ofList (List.replicate (40 - s.length) ' ')

def Host.getId (h : Host) : HostId :=
  let hid := (h.addresses.mergeSort Address.le).head?.map fun addr => pad40 addr.s
  match (h.hostnames.mergeSort (· ≤ ·)).head? with
  | some hostname => .text (hid.getD (pad40 "") ++ hostname)
  | none =>
    match hid with
    | some hid => .text hid
    | none => .object h.object

/-! ## Ids -/

namespace HostId

/-- Texts before objects: the order in which ids of one kind compare -/
def toSum : HostId → String ⊕ₗ Nat
  | text s => Sum.inlₗ s
  | object n => Sum.inrₗ n

theorem toSum_injective : Function.Injective toSum := by
  intro i j same
  cases i with
  | text s =>
    cases j with
    | text t => rw [Sum.inl.inj (toLex.injective same)]
    | object n => cases toLex.injective same
  | object m =>
    cases j with
    | text t => cases toLex.injective same
    | object n => rw [Sum.inr.inj (toLex.injective same)]

instance : LinearOrder HostId := LinearOrder.lift' toSum toSum_injective

def isText : HostId → Bool
  | text _ => true
  | object _ => false

/-- The comparison of two ids, which a text and an object do not have -/
def lt? (i j : HostId) : Except PyError Bool :=
  if i.isText = j.isText then .ok (decide (i < j)) else .error .typeError

end HostId

/-- `Scan`, without what the banner shows -/
structure Scan where
  hosts : List Host
  preScriptResults : List ScriptResult
  postScriptResults : List ScriptResult

/-- `sort_hosts`: any sort of ids of both kinds compares a text with an object somewhere. -/
def Scan.sortHosts (scan : Scan) : Except PyError Scan :=
  if ∀ x ∈ scan.hosts, ∀ y ∈ scan.hosts, x.getId.isText = y.getId.isText then
    .ok { scan with hosts := scan.hosts.mergeSort fun x y => decide (x.getId ≤ y.getId) }
  else .error .typeError

end Nmap.Ndiff
