import Nmap.Base.CString
import Nmap.Ports.PortList
import Nmap.Service.Probes

/-!
# The port map and the ports of a target (`portlist.cc`)

`initializePortMap` fixes the ports of a scan, in ascending order, and gives each its index.
A `PortList` starts with all of them in the default state. Besides the states of
`Nmap.Ports.PortList` a target's ports carry the service deductions and script results.
The operations here are for mapped ports: `mapPort` turns other numbers away or takes them
for index 0.
-/

namespace Nmap.Ports

open Nmap.Base List Function

def maxIpProtoNum : Nat := 255

/-- `port_map_rev`, `port_list_count`: the ports of each protocol. "The data in ports should
be sorted." -/
structure PortMap where
  portMapRev : Proto → List UInt16
  sorted : ∀ proto, (portMapRev proto).Pairwise (· < ·)
  protocols : ∀ portno ∈ portMapRev .ip, portno.toNat ≤ maxIpProtoNum

namespace PortMap

/-- `port_map`, as the loop of `initializePortMap` fills it -/
def portMap (map : PortMap) (proto : Proto) : UInt16 → Nat :=
  (map.portMapRev proto).zipIdx.foldl (fun m entry => update m entry.1 entry.2) fun _ => 0

def portListCount (map : PortMap) (proto : Proto) : Nat := (map.portMapRev proto).length

/-- The port is one of those of the scan. -/
def Mapped (map : PortMap) (key : PortKey) : Prop := key.portno ∈ map.portMapRev key.proto

theorem nodup (map : PortMap) (proto : Proto) : (map.portMapRev proto).Nodup :=
  (map.sorted proto).imp fun lt eq => absurd (eq ▸ lt) (UInt16.lt_irrefl _)

theorem portMap_of_getElem? (map : PortMap) {proto : Proto} {i : Nat} {portno : UInt16}
    (entry : (map.portMapRev proto)[i]? = some portno) : map.portMap proto portno = i := by
  have filled : ∀ (ports : List UInt16) (start : Nat) (m : UInt16 → Nat), ports.Nodup →
      (∀ i portno, ports[i]? = some portno → (ports.zipIdx start).foldl
        (fun m entry => update m entry.1 entry.2) m portno = start + i) ∧
      ∀ portno ∉ ports, (ports.zipIdx start).foldl
        (fun m entry => update m entry.1 entry.2) m portno = m portno := by
    intro ports
    induction ports with
    | nil => exact fun _ _ _ => ⟨fun _ _ h => by simp at h, fun _ _ => rfl⟩
    | cons first ports ih =>
      intro start m nodup
      obtain ⟨fresh, nodup⟩ := nodup_cons.mp nodup
      obtain ⟨inside, outside⟩ := ih (start + 1) (update m first start) nodup
      refine ⟨fun i portno entry => ?_, fun portno out => ?_⟩
      · cases i with
        | zero =>
          have here : first = portno := by simpa using entry
          subst here
          rw [zipIdx_cons, foldl_cons, outside first fresh, update_self]
          rfl
        | succ i =>
          rw [zipIdx_cons, foldl_cons, inside i portno (by simpa using entry)]
          omega
      · rw [mem_cons, not_or] at out
        rw [zipIdx_cons, foldl_cons, outside portno out.2,
          update_of_ne out.1]
  have at_i := (filled (map.portMapRev proto) 0 (fun _ => 0) (map.nodup proto)).1 i portno entry
  rw [Nat.zero_add] at at_i
  exact at_i

end PortMap

namespace PortList

/-- `PortList::PortList` -/
def new (map : PortMap) : PortList where
  ports := fun _ => none
  defaultPortState := fun _ => .unknown
  stateCounts := fun proto state => if state = .unknown then map.portListCount proto else 0

/-- `createPort`, for what it does to the list -/
def create (pl : PortList) (key : PortKey) : PortList := pl.put key (pl.createPort key).1

def setDefaultPortState (map : PortMap) (pl : PortList) (proto : Proto) (state : PortState) :
    PortList :=
  let pl := (map.portMapRev proto).foldl
    (fun (pl : PortList) portno =>
      if (pl.ports ⟨portno, proto⟩).isNone then
        (pl.count proto (pl.defaultPortState proto) (-1)).count proto state 1
      else pl)
    pl
  { pl with defaultPortState := update pl.defaultPortState proto state }

/-- `forgetPort`, with its result -/
def forgetPort (pl : PortList) (key : PortKey) : PortList × Int :=
  match pl.ports key with
  | none => (pl, -1)
  | some answer =>
    let pl := pl.count key.proto answer.state (-1)
    let pl := pl.count key.proto (pl.defaultPortState key.proto) 1
    ({ pl with ports := update pl.ports key none }, 0)

end PortList

/-! ## Services and scripts -/

/-- `service_detection_type` -/
inductive DetectionType
  | table
  | probed
  deriving DecidableEq, Repr

structure ServiceDeductions where
  name : Option Bytes
  nameConfidence : Nat
  product : Option Bytes
  version : Option Bytes
  extrainfo : Option Bytes
  hostname : Option Bytes
  ostype : Option Bytes
  devicetype : Option Bytes
  cpe : List Bytes
  serviceTunnel : Service.Tunnel
  dtype : DetectionType
  serviceFp : Option Bytes
  deriving DecidableEq, Repr

def cstringSanityCheck (string : Bytes) (len : Nat) : Bytes :=
  (string.take len).map fun c => if 0x20 ≤ c && c ≤ 0x7e then c else 0x2e

/-- The arguments of `setServiceProbeResults` -/
structure ProbeResults where
  sres : Service.ProbeState
  sname : Option Bytes
  tunnel : Service.Tunnel
  product : Option Bytes
  version : Option Bytes
  extrainfo : Option Bytes
  hostname : Option Bytes
  ostype : Option Bytes
  devicetype : Option Bytes
  cpe : List Bytes
  fingerprint : Option Bytes
  deriving DecidableEq, Repr

/-- The name, the detection type and the confidence for a result; `table` is the name
`nmap_getservbyport` knows. -/
def ProbeResults.verdict (results : ProbeResults) (table : Option Bytes) :
    Option Bytes × DetectionType × Nat :=
  if results.sres = .finishedHardmatched || results.sres = .finishedSoftmatched then
    (results.sname, .probed, 10)
  else if results.sres = .finishedTcpwrapped then
    (some (results.sname.getD (ascii "tcpwrapped")), .probed, 8)
  else (results.sname.or table, .table, 3)

/-- The deductions that `setServiceProbeResults` stores -/
def ProbeResults.deductions (results : ProbeResults) (table : Option Bytes) : ServiceDeductions :=
  let (name, dtype, confidence) := results.verdict table
  { name := name
    nameConfidence := confidence
    product := results.product.map (cstringSanityCheck · 80)
    version := results.version.map (cstringSanityCheck · 80)
    extrainfo := results.extrainfo.map (cstringSanityCheck · 256)
    hostname := results.hostname.map (cstringSanityCheck · 80)
    ostype := results.ostype.map (cstringSanityCheck · 32)
    devicetype := results.devicetype.map (cstringSanityCheck · 32)
    cpe := results.cpe.map (cstringSanityCheck · 80)
    serviceTunnel := results.tunnel
    dtype := dtype
    serviceFp := results.fingerprint }

/-- The ports of a target, with what is known about their services -/
structure TargetPorts where
  list : PortList
  service : PortKey → Option ServiceDeductions
  scriptResults : PortKey → List Bytes

/-- The calls that change the ports of a target -/
inductive PortOp
  | setPortState (key : PortKey) (state : PortState)
  | setDefaultPortState (proto : Proto) (state : PortState)
  | setServiceProbeResults (key : PortKey) (results : ProbeResults)
  | addScriptResult (key : PortKey) (sr : Bytes)
  | setStateReason (key : PortKey) (reason : ReasonCode) (ttl : UInt8)
      (ipAddr : ReasonAddr)
  | forgetPort (key : PortKey)

namespace TargetPorts

def new (map : PortMap) : TargetPorts := ⟨.new map, fun _ => none, fun _ => []⟩

section

variable (map : PortMap) (getServByPort : PortKey → Option Bytes)

/-- One call. A fatal error gives `none`. -/
def apply (tp : TargetPorts) : PortOp → Option TargetPorts
  | .setPortState key state =>
    (tp.list.setPortState key state).map fun result => { tp with list := result.1 }
  | .setDefaultPortState proto state =>
    some { tp with list := tp.list.setDefaultPortState map proto state }
  | .setServiceProbeResults key results =>
    some { tp with
      list := tp.list.create key
      service := update tp.service key (some (results.deductions (getServByPort key))) }
  | .addScriptResult key sr =>
    some { tp with
      list := tp.list.create key
      scriptResults := update tp.scriptResults key (tp.scriptResults key ++ [sr]) }
  | .setStateReason key reason ttl ipAddr =>
    some { tp with list := tp.list.setStateReason key reason ttl ipAddr }
  | .forgetPort key =>
    some
      { list := (tp.list.forgetPort key).1
        service := update tp.service key none
        scriptResults := update tp.scriptResults key [] }

def run (tp : TargetPorts) (ops : List PortOp) : Option TargetPorts :=
  ops.foldlM (apply map getServByPort) tp

end

end TargetPorts

end Nmap.Ports
