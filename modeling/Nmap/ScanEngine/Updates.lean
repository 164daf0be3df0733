import Nmap.ScanEngine.Probes

/-!
# What a response changes (`scan_engine.cc`)

`ultrascan_host_probe_update`, `ultrascan_port_probe_update` and `ultrascan_ping_update` write
the state of a host or of a port, may change the probe that times the host, and then destroy
the probe that was answered. Round trip times and the congestion window are left out.
-/

namespace Nmap.ScanEngine

open Nmap.Ports (ScanType PortState)

/-! ## The best probe for pings -/

def pingprobeScore (cfg : Config) (pspec : ProbeSpec) (state : PortState) : UInt32 :=
  match pspec.type, pspec.pd with
  | .tcp, .tcp dport flags =>
    if state = .filtered then 20
    else if flags = 0x02 && (state = .open || state = .unknown) then 30
    -- "Frequently spoofed port numbers"
    else if dport = 25 || dport = 113 || dport = 135 || dport = 139 || dport = 445 then 50
    else 60
  | .sctp, _ =>
    if state = .filtered then 20
    else if state = .open || state = .unknown then 30
    else 60
  | .icmp, .icmp icmpType _ => if icmpType = 8 || icmpType = 17 || icmpType = 13 then 50 else 20
  | .arp, _ | .nd, _ => 40
  | .udp, .udp dport =>
    let score := 20 - UInt32.ofNat (cfg.udpPayloadCount dport)
    if score = 19 then 20 else score
  | .proto, _ => 20
  | .connectTcp, _ => 10
  | _, _ => 0

def pingprobeIsBetter (cfg : Config) (newProbe : ProbeSpec) (newState : PortState)
    (oldProbe : ProbeSpec) (oldState : PortState) : Bool :=
  pingprobeScore cfg oldProbe oldState < pingprobeScore cfg newProbe newState

/-- The end of both updates: another probe becomes the ping probe of the host. -/
def HostScanStats.changePingprobe (cfg : Config) (hss : HostScanStats) (adjustPing : Bool)
    (pspec : ProbeSpec) (state : PortState) : HostScanStats :=
  if adjustPing && pingprobeIsBetter cfg pspec state hss.pingprobe hss.pingprobeState then
    { hss with pingprobe := pspec, pingprobeState := state }
  else hss

/-! ## Updates -/

def ultrascanHostPspecUpdate (hss : HostScanStats) (newstate : HostState) : HostScanStats :=
  if hss.flags ≠ .up then
    { hss with flags := if newstate = .unknown then hss.flags else newstate }
  else hss

def ultrascanPingUpdate (hss : HostScanStats) (g : GroupProbes) (probe : UltraProbe) :
    Except Failure (HostScanStats × GroupProbes) :=
  destroyOutstandingProbe hss g probe

/-- `ultrascan_host_probe_update`, for a response -/
def ultrascanHostProbeUpdate (cfg : Config) (hss : HostScanStats) (g : GroupProbes)
    (probe : UltraProbe) (newstate : HostState) (adjustTimingHint : Bool) :
    Except Failure (HostScanStats × GroupProbes) :=
  let hss := ultrascanHostPspecUpdate hss newstate
  let adjustPing := adjustTimingHint && decide (newstate = .up)
  let hss := hss.changePingprobe cfg adjustPing probe.pspec .unknown
  destroyOutstandingProbe hss g probe

/-- The scan that ports are updated for. Without ports, nothing is as it is for protocols or
where no response means open. -/
def Config.updateScan (cfg : Config) : ScanType :=
  match cfg.scantype with
  | .portScan scan => scan
  | _ => .syn

/-- `ultrascan_port_probe_update`, for a response -/
def ultrascanPortProbeUpdate (cfg : Config) (hss : HostScanStats) (g : GroupProbes)
    (probe : UltraProbe) (newstate : PortState) (adjustTimingHint : Bool) :
    Except Failure (HostScanStats × GroupProbes) := do
  let scan := cfg.updateScan
  let ports ← (match pspecPort scan probe.pspec with
    | none => .error .assertion
    | some _ =>
      match ultrascanPortPspecUpdate scan hss.ports probe.pspec newstate with
      | none => .error .fatal
      | some (ports, _) => .ok ports)
  let hss := { hss with ports := ports }
  let adjustPing := adjustTimingHint
  let adjustPing := adjustPing && !(newstate = .filtered && !scan.norespOpenScan)
  let adjustPing := adjustPing &&
    !(cfg.defeatRstRatelimit && newstate = .closed && !scan.norespOpenScan)
  let adjustPing := adjustPing &&
    !(cfg.defeatIcmpRatelimit && (newstate = .closed || newstate = .filtered) && cfg.udpScan)
  let hss := hss.changePingprobe cfg adjustPing probe.pspec newstate
  destroyOutstandingProbe hss g probe

/-! ## What they do to the probes -/

/-- Two hosts with the same probes and the same counts of them -/
structure SameProbes (hss hss' : HostScanStats) : Prop where
  probes : hss'.probesOutstanding = hss.probesOutstanding
  active : hss'.numProbesActive = hss.numProbesActive
  waiting : hss'.numProbesWaitingRetransmit = hss.numProbesWaitingRetransmit

theorem SameProbes.counted {hss hss' : HostScanStats} {g : GroupProbes}
    (same : SameProbes hss hss') (counted : Counted hss g) : Counted hss' g := by
  obtain ⟨distinct, active, waiting, group⟩ := counted
  constructor
  · rw [same.probes]
    exact distinct
  · rw [same.active, same.probes]
    exact active
  · rw [same.waiting, same.probes]
    exact waiting
  · rw [same.active]
    exact group

theorem SameProbes.trans {a b c : HostScanStats} (first : SameProbes a b)
    (second : SameProbes b c) : SameProbes a c where
  probes := second.probes.trans first.probes
  active := second.active.trans first.active
  waiting := second.waiting.trans first.waiting

theorem changePingprobe_same (cfg : Config) (hss : HostScanStats) (adjustPing : Bool)
    (pspec : ProbeSpec) (state : PortState) :
    SameProbes hss (hss.changePingprobe cfg adjustPing pspec state) := by
  rw [HostScanStats.changePingprobe]
  split
  · exact ⟨rfl, rfl, rfl⟩
  · exact ⟨rfl, rfl, rfl⟩

theorem hostPspecUpdate_same (hss : HostScanStats) (newstate : HostState) :
    SameProbes hss (ultrascanHostPspecUpdate hss newstate) := by
  rw [ultrascanHostPspecUpdate]
  split
  · exact ⟨rfl, rfl, rfl⟩
  · exact ⟨rfl, rfl, rfl⟩

namespace Counted

variable {hss : HostScanStats} {g : GroupProbes} {probe : UltraProbe}

theorem destroy_same {hss' : HostScanStats} (counted : Counted hss g)
    (same : SameProbes hss hss') (mem : probe ∈ hss.probesOutstanding) :
    ∃ hss'' g', destroyOutstandingProbe hss' g probe = .ok (hss'', g') ∧
      hss''.probesOutstanding = hss.probesOutstanding.erase probe ∧ Counted hss'' g' := by
  obtain ⟨active, waiting, g', destroyed, counted', -⟩ :=
    (same.counted counted).destroy
      (show probe ∈ hss'.probesOutstanding by rw [same.probes]; exact mem)
  refine ⟨_, g', destroyed, ?_, counted'⟩
  show hss'.probesOutstanding.erase probe = hss.probesOutstanding.erase probe
  rw [same.probes]

theorem hostProbeUpdate (counted : Counted hss g) (cfg : Config)
    (mem : probe ∈ hss.probesOutstanding) (newstate : HostState) (hint : Bool) :
    ∃ hss' g', ultrascanHostProbeUpdate cfg hss g probe newstate hint = .ok (hss', g') ∧
      hss'.probesOutstanding = hss.probesOutstanding.erase probe ∧ Counted hss' g' :=
  counted.destroy_same
    ((hostPspecUpdate_same hss newstate).trans (changePingprobe_same cfg _ _ _ _)) mem

theorem portProbeUpdate (counted : Counted hss g) (cfg : Config)
    (mem : probe ∈ hss.probesOutstanding) {key : Ports.PortKey}
    (port : pspecPort cfg.updateScan probe.pspec = some key) (newstate : PortState)
    (hint : Bool) :
    Meets (· = .fatal) (fun s : HostScanStats × GroupProbes =>
        s.1.probesOutstanding = hss.probesOutstanding.erase probe ∧ Counted s.1 s.2)
      (ultrascanPortProbeUpdate cfg hss g probe newstate hint) := by
  rw [ultrascanPortProbeUpdate, port]
  cases update : ultrascanPortPspecUpdate cfg.updateScan hss.ports probe.pspec newstate with
  | none => exact rfl
  | some r =>
    obtain ⟨ports, changed⟩ := r
    have same : SameProbes hss { hss with ports := ports } := ⟨rfl, rfl, rfl⟩
    obtain ⟨hss', g', destroyed, erased, counted'⟩ :=
      counted.destroy_same (same.trans (changePingprobe_same cfg _ _ probe.pspec newstate)) mem
    show Meets _ _ (destroyOutstandingProbe _ g probe)
    rw [destroyed]
    exact ⟨erased, counted'⟩

end Counted

end Nmap.ScanEngine
