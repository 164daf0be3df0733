import Nmap.Base.TSys
import Nmap.ScanEngine.Coverage
import Nmap.ScanEngine.Retransmit

/-!
# How often a host is probed (`scan_engine.cc`, `scan_engine_raw.cc`, `NmapOps.cc`)

The try number of a probe, from its first sending through its retransmissions, the bench and the
retry stack: all that `ultra_scan` does to one host, in any order. What the other hosts of the
scan change meanwhile is left open.
-/

namespace Nmap.ScanEngine

open Nmap.Ports (Errno Sockname PortState PortKey)

def setMaxRetransmissions (maxRetransmit : Int) : Except Failure Nat :=
  if maxRetransmit < 0 then .error .fatal else .ok maxRetransmit.toNat

/-- A `HostScanStats` with the fields that count tries -/
structure HostTries where
  hss : HostScanStats
  benchTryno : Nat
  retryStackTries : List UInt8
  maxSuccessfulTryno : Nat

namespace HostTries

variable (cfg : Config) (h : HostTries)

/-! ## The highest try number -/

/-- `HostScanStats::allowedTryno`, with `capped` -/
def allowedTryno : Nat × Bool :=
  let maxval := max 1 (h.maxSuccessfulTryno + 1)
  if cfg.maxRetransmissions < maxval then (cfg.maxRetransmissions, true) else (maxval, false)

/-- The loop of `allowedTryno` over the outstanding probes -/
def allFinished (maxval : Nat) : List UltraProbe → Except Failure Bool
  | [] => .ok true
  | probe :: rest =>
    if !probe.timedout then .error .assertion
    else if !probe.retransmitted && !probe.isPing && probe.tryno.seqnum.val < maxval then
      .ok false
    else allFinished maxval rest

/-- `mayincrease` of `allowedTryno` -/
def mayIncrease : Except Failure Bool := do
  let (maxval, capped) := h.allowedTryno cfg
  if !capped && h.hss.numProbesActive = 0 && !h.hss.supply.freshPortsLeft cfg then do
    let allfinished ← allFinished maxval h.hss.probesOutstanding
    return !allfinished
  else return !capped

/-! ## Answers -/

/-- `adjust_timing` of `ultrascan_port_probe_update`, for a response -/
def adjustsTiming (probe : UltraProbe) (newstate : PortState) (adjustTimingHint : Bool) : Bool :=
  let scan := cfg.updateScan
  let again := decide (0 < probe.tryno.seqnum.val)
  adjustTimingHint &&
    !(newstate = .filtered && !scan.norespOpenScan && again) &&
    !(cfg.defeatRstRatelimit && newstate = .closed && !scan.norespOpenScan && again) &&
    !(cfg.defeatIcmpRatelimit && (newstate = .closed || newstate = .filtered) && cfg.udpScan &&
      again)

/-- "We got a positive response to a higher tryno than we've seen so far." -/
def succeeded (probe : UltraProbe) (newstate : PortState) (adjustTimingHint : Bool) : HostTries :=
  if adjustsTiming cfg probe newstate adjustTimingHint &&
      h.maxSuccessfulTryno < probe.tryno.seqnum.val then
    { h with maxSuccessfulTryno := probe.tryno.seqnum.val }
  else h

/-- `ultrascan_port_probe_update`, for a response -/
def portUpdate (g : GroupProbes) (probe : UltraProbe) (newstate : PortState)
    (adjustTimingHint : Bool) : Except Failure (HostTries × GroupProbes) := do
  let (hss, g) ← ultrascanPortProbeUpdate cfg h.hss g probe newstate adjustTimingHint
  return ({ h with hss := hss }.succeeded cfg probe newstate adjustTimingHint, g)

/-- The state that `handleConnectResult` updates the port with, if it does -/
def connectPortState (probe : UltraProbe) (errno : Errno) (sockname : Sockname) :
    Option PortState :=
  match connectVerdict cfg errno with
  | .error _ => none
  | .ok (newhoststate, newportstate, reason) =>
    if reason = .noResponse || probe.isPing && newhoststate ≠ .unknown || cfg.pingScan ||
        newportstate = .unknown || newportstate = .open && sockname ≠ .distinct then none
    else some newportstate

/-- `max_successful_tryno` after `handleConnectResult` -/
def connected (probe : UltraProbe) (errno : Errno) (sockname : Sockname) : HostTries :=
  match connectPortState cfg probe errno sockname with
  | some newstate => h.succeeded cfg probe newstate true
  | none => h

/-- `handleConnectResult` -/
def connectUpdate (g : GroupProbes) (probe : UltraProbe) (errno : Errno) (sockname : Sockname)
    (destroyProbe : Bool) : Except Failure (HostTries × GroupProbes) := do
  let (hss, g) ← handleConnectResult cfg h.hss g probe errno sockname destroyProbe
  return ({ h with hss := hss }.connected cfg probe errno sockname, g)

end HostTries

/-! ## Sending -/

/-- What a function that sends a probe gets from outside -/
structure ProbeCall extends ConnectCall where
  ipid : UInt32
  extra : ExtraData

/-- The probe that is sent with a packet -/
def rawProbe (type : UPType) (pspec : ProbeSpec) (tryno : Tryno) (call : ProbeCall) :
    UltraProbe where
  addr := call.addr
  type := type
  pspec := pspec
  tryno := tryno
  timedout := false
  retransmitted := false
  sent := call.now
  prevSent := .zero
  ipid := call.ipid
  extra := call.extra
  sd := -1

/-- "Now that the probe has been sent, add it to the Queue for this host" -/
def addRawProbe (hss : HostScanStats) (g : GroupProbes) (probe : UltraProbe) :
    HostScanStats × GroupProbes × Option Nat :=
  (hss.addProbe probe, { g with numProbesActive := g.numProbesActive + 1 }, some probe.addr)

def sendArpScanProbe (call : ProbeCall) (hss : HostScanStats) (g : GroupProbes) (tryno : Tryno) :
    HostScanStats × GroupProbes × Option Nat :=
  addRawProbe hss g (rawProbe .arp ⟨.arp, 0, .none⟩ tryno call)

def sendNDScanProbe (call : ProbeCall) (hss : HostScanStats) (g : GroupProbes) (tryno : Tryno) :
    HostScanStats × GroupProbes × Option Nat :=
  addRawProbe hss g (rawProbe .nd ⟨.nd, 0, .none⟩ tryno call)

def sendIPScanProbe (cfg : Config) (call : ProbeCall) (hss : HostScanStats) (g : GroupProbes)
    (pspec : ProbeSpec) (tryno : Tryno) :
    Except Failure (HostScanStats × GroupProbes × Option Nat) :=
  let sent := addRawProbe hss g (rawProbe .ip pspec tryno call)
  match pspec.type with
  | .tcp => if cfg.connectScan then .error .assertion else .ok sent
  | .udp | .sctp | .proto | .icmp | .icmpv6 => .ok sent
  | _ => .error .assertion

def rawSenders (cfg : Config) (call : ProbeCall) : Senders := fun type hss g pspec tryno =>
  match type with
  | .arp => .ok (sendArpScanProbe call hss g tryno)
  | .nd => .ok (sendNDScanProbe call hss g tryno)
  | .ip => sendIPScanProbe cfg call hss g pspec tryno
  | _ => .error .fatal

/-- The type of the probes for a kind of `probespec` -/
def PspecType.upType : PspecType → UPType
  | .arp => .arp
  | .nd => .nd
  | .connectTcp => .connect
  | .none => .unset
  | _ => .ip

/-- The `probespec` that a probe of this type has when it is sent for another one -/
def sentSpec : UPType → ProbeSpec → ProbeSpec
  | .arp, _ => ⟨.arp, 0, .none⟩
  | .nd, _ => ⟨.nd, 0, .none⟩
  | .connect, pspec => ⟨.connectTcp, 6, .tcp pspec.unionDport 0x02⟩
  | _, pspec => pspec

namespace HostTries

variable (cfg : Config) (h : HostTries)

/-- `max_successful_tryno` after `sendConnectScanProbe` -/
def sentConnect (g : GroupProbes) (destport : UInt16) (tryno : Tryno) (call : ConnectCall) :
    HostTries :=
  match call.result with
  | .inProgress | .done .eagain => h
  | .done errno =>
    h.connected cfg (connectProbe call.addr destport tryno call.now g.csi.nextSD) errno
      call.sockname

/-- The branches for the kinds of probes that `sendNextScanProbe`, `sendNextRetryStackProbe` and
`sendPingProbe` have in common -/
def sendProbe (call : ProbeCall) (g : GroupProbes) (pspec : ProbeSpec) (tryno : Tryno) :
    Except Failure (HostTries × GroupProbes) :=
  match pspec.type with
  | .arp =>
    let (hss, g, _) := sendArpScanProbe call h.hss g tryno
    .ok ({ h with hss := hss }, g)
  | .nd =>
    let (hss, g, _) := sendNDScanProbe call h.hss g tryno
    .ok ({ h with hss := hss }, g)
  | .connectTcp => do
    let destport := pspec.unionDport
    let (hss, g') ← (sendConnectScanProbe cfg h.hss g destport tryno call.toConnectCall).map
      fun r => (r.1, r.2.1)
    return ({ h with hss := hss }.sentConnect cfg g destport tryno call.toConnectCall, g')
  | .none => .error .assertion
  | _ => do
    let (hss, g, _) ← sendIPScanProbe cfg call h.hss g pspec tryno
    return ({ h with hss := hss }, g)

/-- `numprobes_sent++; USI->gstats->probes_sent++;` -/
def countSent (g : GroupProbes) : HostTries × GroupProbes :=
  ({ h with hss := { h.hss with numprobesSent := h.hss.numprobesSent + 1 } },
    { g with probesSent := g.probesSent + 1 })

def sendNextScanProbe (call : ProbeCall) (g : GroupProbes) :
    Except Failure (HostTries × GroupProbes) := do
  match ← h.hss.supply.nextTargetProbe cfg with
  | none => .error .fatal
  | some (pspec, supply) =>
    let (h, g) := { h with hss := { h.hss with supply := supply } }.countSent g
    h.sendProbe cfg call g pspec ⟨false, 0⟩

/-- `tryno.fields.seqnum = pspec_tries + 1` -/
def retryTryno (pspecTries : UInt8) : Tryno := ⟨false, Fin.ofNat 128 (pspecTries.toNat + 1)⟩

def sendNextRetryStackProbe (call : ProbeCall) (g : GroupProbes) :
    Except Failure (HostTries × GroupProbes) :=
  match h.hss.retryStack.getLast?, h.retryStackTries.getLast? with
  | none, _ => .error .assertion
  | some _, none => .error .dangling
  | some pspec, some pspecTries =>
    let (h, g) := { h with
      hss := { h.hss with retryStack := h.hss.retryStack.dropLast }
      retryStackTries := h.retryStackTries.dropLast }.countSent g
    if pspec.type = .arp ∨ pspec.type = .nd then .error .assertion
    else h.sendProbe cfg call g pspec (retryTryno pspecTries)

/-- `sendPingProbe`, which has no branch for ICMPv6 -/
def sendPingProbe (call : ProbeCall) (seqnum : Fin 128) (g : GroupProbes) :
    Except Failure (HostTries × GroupProbes) := do
  if h.hss.pingprobe.type = .icmpv6 then .error .assertion
  else do
    let (h, g) ← h.sendProbe cfg call g h.hss.pingprobe ⟨true, seqnum⟩
    return (h, { g with probesSent := g.probesSent + 1 })

/-- `retransmitProbe` -/
def retransmit (call : ProbeCall) (g : GroupProbes) (probe : UltraProbe) :
    Except Failure (HostTries × GroupProbes) := do
  let (hss, g') ← retransmitProbe cfg (rawSenders cfg call) h.hss g probe call.toConnectCall
  let h := { h with hss := hss }
  if probe.type = .connect then
    let tryno := { probe.tryno with seqnum := probe.tryno.seqnum + 1 }
    return (h.sentConnect cfg g probe.pspec.unionDport tryno call.toConnectCall, g')
  else return (h, g')

/-! ## The bench -/

def dismissBench : HostTries :=
  if h.hss.probeBench.isEmpty then h
  else
    let hss := if cfg.pingScan then
      h.hss.probeBench.foldr (fun _ hss => ultrascanHostPspecUpdate hss .down) h.hss else h.hss
    { h with hss := { hss with probeBench := [] }, benchTryno := 0 }

def retransmitBench : Except Failure HostTries :=
  if h.hss.probeBench.isEmpty then .ok h
  else
    let retryStack := h.hss.retryStack ++ h.hss.probeBench
    let retryStackTries := h.retryStackTries ++
      List.replicate h.hss.probeBench.length (UInt8.ofNat h.benchTryno)
    if retryStack.length ≠ retryStackTries.length then .error .assertion
    else .ok { h with
      hss := { h.hss with retryStack := retryStack, probeBench := [] }
      retryStackTries := retryStackTries
      benchTryno := 0 }

def moveProbeToBench (probe : UltraProbe) : Except Failure HostTries :=
  if !h.hss.probeBench.isEmpty && h.benchTryno ≠ probe.tryno.seqnum.val then .error .assertion
  else
    match h.hss.numProbesWaitingRetransmit with
    | 0 => .error .underflow
    | waiting + 1 => .ok { h with
        hss := { h.hss with
          probesOutstanding := h.hss.probesOutstanding.erase probe
          numProbesWaitingRetransmit := waiting
          probeBench := h.hss.probeBench ++ [probe.pspec] }
        benchTryno := probe.tryno.seqnum.val }

/-! ## `processData` -/

/-- "Should we dump everyone off the bench?" -/
def checkBench (maxtries : Nat) (trynoMayincrease : Bool) : Except Failure HostTries :=
  if h.hss.probeBench.isEmpty then .ok h
  else if maxtries = h.benchTryno ∧ trynoMayincrease = false then .ok (h.dismissBench cfg)
  else if h.benchTryno < maxtries then h.retransmitBench
  else .ok h

/-- What the clock says of a probe: whether it is older than `to_us`, and than `expire_us` -/
structure Ages where
  late : UltraProbe → Bool
  expired : UltraProbe → Bool

/-- `ultrascan_host_probe_update` without a response, and the reason after it -/
def hostGivesUp (hss : HostScanStats) (g : GroupProbes) (probe : UltraProbe) :
    Except Failure (HostScanStats × GroupProbes) := do
  let (hss, g) ← destroyOutstandingProbe (ultrascanHostPspecUpdate hss .down) g probe
  let reasonId := if hss.reason.reasonId = .unknown then .noResponse else hss.reason.reasonId
  return ({ hss with reason := { hss.reason with reasonId := reasonId } }, g)

def onProbes (h : HostTries) (r : Except Failure (HostScanStats × GroupProbes)) :
    Except Failure (HostTries × GroupProbes) :=
  r.map fun s => ({ h with hss := s.1 }, s.2)

/-- One round of the loop of `processData` -/
def processProbe (ages : Ages) (maxtries : Nat) (trynoMayincrease : Bool)
    (s : HostTries × GroupProbes) (probe : UltraProbe) :
    Except Failure (HostTries × GroupProbes) :=
  let (h, g) := s
  if !probe.timedout && ages.late probe then h.onProbes (markProbeTimedout h.hss g probe)
  else if probe.timedout && !probe.retransmitted && !probe.isPing && !trynoMayincrease &&
      maxtries ≤ probe.tryno.seqnum.val then
    h.onProbes (if cfg.pingScan then hostGivesUp h.hss g probe
      else destroyOutstandingProbe h.hss g probe)
  else if probe.timedout && !probe.retransmitted && !probe.isPing &&
      maxtries ≤ probe.tryno.seqnum.val && ages.expired probe then
    if probe.tryno.seqnum.val ≠ maxtries then .error .assertion
    else (h.moveProbeToBench probe).map fun h => (h, g)
  else if (probe.isPing || probe.timedout && probe.retransmitted) && ages.expired probe then
    h.onProbes (destroyOutstandingProbe h.hss g probe)
  else .ok s

/-- `processData`, for one host -/
def processData (ages : Ages) (g : GroupProbes) : Except Failure (HostTries × GroupProbes) := do
  let (maxtries, _) := h.allowedTryno cfg
  let trynoMayincrease ← h.mayIncrease cfg
  let h ← h.checkBench cfg maxtries trynoMayincrease
  h.hss.probesOutstanding.foldlM (processProbe cfg ages maxtries trynoMayincrease) (h, g)

end HostTries

/-! ## Runs -/

/-- What `ultra_scan` does to a host -/
inductive HostEvent
  /-- `doAnyNewProbes` sends a probe. -/
  | newProbe (call : ProbeCall)
  /-- `doAnyRetryStackRetransmits` sends a probe. -/
  | retryStackProbe (call : ProbeCall)
  /-- `doAnyPings` sends a probe, with what `nextPingSeq` returns. -/
  | pingProbe (seqnum : Fin 128) (call : ProbeCall)
  /-- `doAnyOutstandingRetransmits` sends a probe again. -/
  | retransmit (probe : UltraProbe) (call : ProbeCall)
  /-- `ultrascan_ping_update` -/
  | pingUpdate (probe : UltraProbe)
  /-- `ultrascan_host_probe_update` -/
  | hostUpdate (probe : UltraProbe) (newstate : HostState) (adjustTimingHint : Bool)
  /-- `ultrascan_port_probe_update` -/
  | portUpdate (probe : UltraProbe) (newstate : PortState) (adjustTimingHint : Bool)
  /-- `handleConnectResult`, called by `do_one_select_round` -/
  | connectResult (probe : UltraProbe) (errno : Errno) (sockname : Sockname)
  /-- `destroyAllOutstandingProbes` -/
  | destroyAll
  /-- `processData` -/
  | processData (ages : HostTries.Ages)
  /-- All else, which leaves the probes and their counts alone -/
  | elsewhere (hss : HostScanStats) (g : GroupProbes)

namespace HostEvent

/-- When an event may happen. New probes have new addresses. -/
def May (cfg : Config) (h : HostTries) : HostEvent → Prop
  | .newProbe call =>
    h.hss.supply.freshPortsLeft cfg = true ∧
      call.addr ∉ h.hss.probesOutstanding.map (·.addr)
  | .retryStackProbe call =>
    h.hss.retryStack ≠ [] ∧ call.addr ∉ h.hss.probesOutstanding.map (·.addr)
  | .pingProbe _ call => call.addr ∉ h.hss.probesOutstanding.map (·.addr)
  | .retransmit probe call =>
    probe ∈ h.hss.probesOutstanding ∧ probe.retransmitted = false ∧ probe.isPing = false ∧
      probe.timedout = true ∧ probe.tryno.seqnum.val < (h.allowedTryno cfg).1 ∧
      call.addr ∉ h.hss.probesOutstanding.map (·.addr)
  | .pingUpdate probe | .hostUpdate probe _ _ | .portUpdate probe _ _
  | .connectResult probe _ _ => probe ∈ h.hss.probesOutstanding
  | .destroyAll | .processData _ => True
  | .elsewhere hss _ =>
    SameProbes h.hss hss ∧ hss.supply = h.hss.supply ∧ hss.probeBench = h.hss.probeBench ∧
      hss.retryStack = h.hss.retryStack

def perform (cfg : Config) (h : HostTries) (g : GroupProbes) :
    HostEvent → Except Failure (HostTries × GroupProbes)
  | .newProbe call => h.sendNextScanProbe cfg call g
  | .retryStackProbe call => h.sendNextRetryStackProbe cfg call g
  | .pingProbe seqnum call => h.sendPingProbe cfg call seqnum g
  | .retransmit probe call => h.retransmit cfg call g probe
  | .pingUpdate probe => h.onProbes (ultrascanPingUpdate h.hss g probe)
  | .hostUpdate probe newstate adjustTimingHint =>
    h.onProbes (ultrascanHostProbeUpdate cfg h.hss g probe newstate adjustTimingHint)
  | .portUpdate probe newstate adjustTimingHint =>
    h.portUpdate cfg g probe newstate adjustTimingHint
  | .connectResult probe errno sockname => h.connectUpdate cfg g probe errno sockname false
  | .destroyAll => h.onProbes (destroyAllOutstandingProbes h.hss g)
  | .processData ages => h.processData cfg ages g
  | .elsewhere hss g => .ok ({ h with hss := hss }, g)

/-- The scan probe that an event sends, with its try number. It is sent also where the program
stops right after it. -/
def sends (cfg : Config) (h : HostTries) : HostEvent → List (ProbeSpec × Fin 128)
  | .newProbe _ =>
    match h.hss.supply.nextTargetProbe cfg with
    | .ok (some (pspec, _)) => [(sentSpec pspec.type.upType pspec, 0)]
    | _ => []
  | .retryStackProbe _ =>
    match h.hss.retryStack.getLast?, h.retryStackTries.getLast? with
    | some pspec, some pspecTries =>
      [(sentSpec pspec.type.upType pspec, (HostTries.retryTryno pspecTries).seqnum)]
    | _, _ => []
  | .retransmit probe _ => [(sentSpec probe.type probe.pspec, probe.tryno.seqnum + 1)]
  | _ => []

end HostEvent

/-- A host in a scan, until the program stops, with the scan probes that were sent to it -/
structure ScanRun where
  state : Except Failure (HostTries × GroupProbes)
  sent : List (ProbeSpec × Fin 128)

/-- A host before the scan -/
structure HostTries.New (h : HostTries) : Prop where
  probes : h.hss.probesOutstanding = []
  active : h.hss.numProbesActive = 0
  waiting : h.hss.numProbesWaitingRetransmit = 0
  bench : h.hss.probeBench = []
  retryStack : h.hss.retryStack = []
  supply : h.hss.supply = {}
  benchTryno : h.benchTryno = 0
  retryStackTries : h.retryStackTries = []
  maxSuccessfulTryno : h.maxSuccessfulTryno = 0

def hostStep (cfg : Config) (s t : ScanRun) : Prop :=
  ∃ h g e, s.state = .ok (h, g) ∧ HostEvent.May cfg h e ∧
    t = ⟨e.perform cfg h g, s.sent ++ e.sends cfg h⟩

/-- All that can happen to a host in a scan -/
def hostScan (cfg : Config) : TSys ScanRun where
  init s := ∃ h g, h.New ∧ s = ⟨.ok (h, g), []⟩
  step := hostStep cfg

end Nmap.ScanEngine
