import Mathlib.Tactic.SplitIfs
import Nmap.ScanEngine.Matching

/-!
# Replies in port scans (`scan_engine_raw.cc`)

`get_pcap_result` reads packets until one answers a probe, for scans of TCP, UDP and SCTP
ports. Some of its variables live on from one packet to the next: `newstate`, `current_reason`
and `from_target`. The first two are written again by each answer that is used, but
`from_target` by ICMP errors only: whether one of them came from the host that it is about.
-/

namespace Nmap.ScanEngine

open Nmap.Base Nmap.Packet List
open Nmap.Ports (PortState ReasonCode ReasonAddr)

/-! ## One packet -/

/-- `newstate`, `current_reason` and `from_target` -/
structure PcapLocals where
  newstate : PortState
  reason : ReasonCode
  fromTarget : Bool
  deriving DecidableEq, Repr

def PcapLocals.start : PcapLocals := ⟨.unknown, .noResponse, true⟩

/-- What is known along with `goodone` -/
structure PortMatch where
  hss : HostScanStats
  probe : UltraProbe
  hdr : IpHdr

section

variable (usi : ScanInfo) (locals : PcapLocals) (hdr : IpHdr) (data : Bytes)

def portTcp : PcapLocals × Option PortMatch :=
  let tcp := tcpHdr data
  match usi.findHost hdr.src with
  | none => (locals, none)
  | some hss =>
    match hss.findProbe fun probe =>
        probe.checkProtoPort hdr.proto tcp.dport tcp.sport && usi.tcpProbeMatch probe tcp hdr with
    | none => (locals, none)
    | some probe =>
      if probe.isPing then (locals, some ⟨hss, probe, hdr⟩)
      else
        match Ports.interpretTcp usi.cfg.updateScan tcp.flags tcp.win with
        | none => (locals, none)
        | some (newstate, reason) =>
          ({ locals with newstate := newstate, reason := reason }, some ⟨hss, probe, hdr⟩)

def portSctp : PcapLocals × Option PortMatch :=
  match usi.findHost hdr.src with
  | none => (locals, none)
  | some hss =>
    match hss.findProbe fun probe =>
        probe.checkProtoPort hdr.proto (u16At data 2) (u16At data 0) && !probe.sawOwn hdr with
    | none => (locals, none)
    | some probe =>
      if probe.isPing || !usi.cfg.sctpScan then (locals, some ⟨hss, probe, hdr⟩)
      else
        match Ports.interpretSctp usi.cfg.updateScan (byteAt data 12) with
        | none => (locals, none)
        | some (newstate, reason) =>
          ({ locals with newstate := newstate, reason := reason }, some ⟨hss, probe, hdr⟩)

/-- UDP. What comes after the header is kept for the service scan. -/
def portUdp : PcapLocals × Option PortMatch :=
  match usi.findHost hdr.src with
  | none => (locals, none)
  | some hss =>
    match hss.findProbe fun probe =>
        probe.checkProtoPort hdr.proto (u16At data 2) (u16At data 0) && !probe.sawOwn hdr with
    | none =>
      -- set for each probe that is looked at
      (if hss.probesOutstanding.isEmpty then locals else { locals with newstate := .unknown },
        none)
    | some probe =>
      let early := if 8 < data.length then [⟨probe.pspec, data.drop 8⟩] else []
      let hss := { hss with earlySvcResponses := hss.earlySvcResponses ++ early }
      ({ locals with newstate := .open, reason := .udpResponse }, some ⟨hss, probe, hdr⟩)

/-- The host that an ICMP error is about, with the header and the data that it quotes -/
def portErrorHost (ipGetData : Bytes → Option (IpHdr × Bytes)) :
    Option (HostScanStats × IpHdr × Bytes) :=
  match ipGetData (data.drop 8) with
  | none => none
  | some (encaps, quoted) =>
    if (usi.cfg.tcpScan || usi.cfg.udpScan || usi.cfg.sctpScan) && quoted.length < 8 then none
    else if usi.cfg.tcpScan && encaps.proto ≠ 6 then none
    else if usi.cfg.udpScan && encaps.proto ≠ 17 then none
    else if usi.cfg.sctpScan && encaps.proto ≠ 132 then none
    else if usi.sourceAddr ≠ encaps.src then none
    else (usi.findHost encaps.dst).map fun hss => (hss, encaps, quoted)

/-- Whether a probe is the one quoted in an ICMP error -/
def portQuoted (encaps : IpHdr) (quoted : Bytes) (probe : UltraProbe) : Except Failure Bool :=
  if probe.protocol ≠ encaps.proto then .ok false
  else if encaps.proto = 6 then
    .ok (u16At quoted 0 = probe.sport && u16At quoted 2 = probe.dport &&
      u32At quoted 4 = probe.tcpseq)
  else if encaps.proto = 132 then
    .ok (u16At quoted 0 = probe.sport && u16At quoted 2 = probe.dport &&
      u32At quoted 4 = probe.sctpvtag)
  else if encaps.proto = 17 then
    .ok (u16At quoted 0 = probe.sport && u16At quoted 2 = probe.dport)
  else .error .assertion

/-- The host and the probe that an ICMP error is about -/
def portErrorProbe (ipGetData : Bytes → Option (IpHdr × Bytes)) :
    Except Failure (Option (HostScanStats × UltraProbe)) :=
  match portErrorHost usi data ipGetData with
  | none => .ok none
  | some (hss, encaps, quoted) => do
    let probe ← hss.probesOutstanding.reverse.findM? (portQuoted encaps quoted)
    .ok (probe.map fun probe => (hss, probe))

/-- An ICMP error, with the state that it means, if it is known whether it came from the target -/
def portError (ipGetData : Bytes → Option (IpHdr × Bytes)) (state : Bool → PortState) :
    Except Failure (PcapLocals × Option PortMatch) :=
  match portErrorHost usi data ipGetData with
  | none => .ok (locals, none)
  | some (target, _, _) => do
    let fromTarget := decide (target.sockAddr = hdr.src)
    let locals := { locals with fromTarget := fromTarget }
    match ← portErrorProbe usi data ipGetData with
    | none => .ok (locals, none)
    | some (hss, probe) =>
      -- codes that are not expected leave the state as it is
      let newstate :=
        if state fromTarget = .unknown then locals.newstate else state fromTarget
      let reason := icmpToReason hdr.proto (byteAt data 0) (byteAt data 1)
      let locals := { locals with newstate := newstate, reason := reason }
      .ok (locals, if newstate = .unknown then none else some ⟨hss, probe, hdr⟩)

/-- ICMP: destination unreachable and time exceeded -/
def portIcmp : Except Failure (PcapLocals × Option PortMatch) :=
  if data.length < 8 then .ok (locals, none)
  else if byteAt data 0 ≠ 3 && byteAt data 0 ≠ 11 then .ok (locals, none)
  else
    portError usi locals hdr data ipGetData fun fromTarget =>
      Ports.icmpState usi.cfg.updateScan (byteAt data 0) (byteAt data 1) fromTarget false

/-- ICMPv6: destination unreachable and parameter problem -/
def portIcmpv6 : Except Failure (PcapLocals × Option PortMatch) :=
  if data.length < 8 then .ok (locals, none)
  else if byteAt data 0 ≠ 1 && byteAt data 0 ≠ 4 then .ok (locals, none)
  else
    portError usi locals hdr data ipGetDataAny fun fromTarget =>
      Ports.icmpv6State usi.cfg.updateScan (byteAt data 0) (byteAt data 1) fromTarget false

def portUpper : Except Failure (PcapLocals × Option PortMatch) :=
  if hdr.proto = 6 then .ok (portTcp usi locals hdr data)
  else if hdr.proto = 132 then .ok (portSctp usi locals hdr data)
  else if hdr.proto = 1 then portIcmp usi locals hdr data
  else if hdr.proto = 58 then portIcmpv6 usi locals hdr data
  else if hdr.proto = 17 then .ok (portUdp usi locals hdr data)
  else .ok (locals, none)

end

/-- The body of the loop of `get_pcap_result` -/
def portPacket (usi : ScanInfo) (locals : PcapLocals) (packet : Bytes) :
    Except Failure (PcapLocals × Option PortMatch) :=
  match ipGetData packet with
  | none => .ok (locals, none)
  | some (hdr, data) =>
    if usi.sourceAddr ≠ hdr.dst then .ok (locals, none) else portUpper usi locals hdr data

/-! ## The loop -/

/-- The loop, which ends with an answer or when the time is up -/
def portLoop (usi : ScanInfo) :
    PcapLocals → List PcapRead → Except Failure (Option (PcapLocals × PortMatch))
  | _, [] => .ok none
  | locals, read :: rest =>
    match read.packet with
    | none => if read.late then .ok none else portLoop usi locals rest
    | some packet => do
      match ← portPacket usi locals packet with
      | (locals, some found) => .ok (some (locals, found))
      | (locals, none) => if read.late then .ok none else portLoop usi locals rest

/-- What the updates after the loop are given -/
inductive Verdict
  | ping (hss : HostScanStats) (probe : UltraProbe)
  | port (hss : HostScanStats) (probe : UltraProbe) (newstate : PortState)
      (reason : ReasonCode) (ttl : UInt8) (reasonSip : ReasonAddr)

/-- The variables after the loop, as far as they are used -/
def PcapLocals.verdict (locals : PcapLocals) (found : PortMatch) : Verdict :=
  if found.probe.isPing then .ping found.hss found.probe
  else
    .port found.hss found.probe locals.newstate locals.reason found.hdr.ttl
      (if locals.fromTarget then .unspec else .ip found.hdr.src)

/-- The verdict on the probe that is answered first, if there is one in time -/
def pcapVerdict (usi : ScanInfo) (reads : List PcapRead) : Except Failure (Option Verdict) := do
  let result ← portLoop usi .start reads
  .ok (result.map fun (locals, found) => locals.verdict found)

def inproto2portlistproto (protocol : UInt8) : Ports.Proto :=
  if protocol = 6 then .tcp
  else if protocol = 17 then .udp
  else if protocol = 132 then .sctp
  else .ip

def portUpdate (usi : ScanInfo) : Verdict → Except Failure ScanInfo
  | .ping hss probe => do
    let (hss, g) ← ultrascanPingUpdate hss usi.group probe
    .ok (usi.write hss g)
  | .port hss probe newstate reason ttl reasonSip => do
    let (hss, g) ← ultrascanPortProbeUpdate usi.cfg hss usi.group probe newstate true
    let ports := hss.ports.ports.setStateReason
      ⟨probe.dport, inproto2portlistproto probe.protocol⟩ reason ttl reasonSip
    .ok (usi.write { hss with ports := { hss.ports with ports := ports } } g)

/-- `get_pcap_result`, in scans of ports -/
def getPcapResult (usi : ScanInfo) (reads : List PcapRead) :
    Except Failure (Bool × ScanInfo) := do
  match ← pcapVerdict usi reads with
  | none => .ok (false, usi)
  | some verdict =>
    let usi ← portUpdate usi verdict
    .ok (true, usi)

/-! ## What a packet takes from the ones before it -/

/-- The host of ours that a packet is an ICMP error about, of the types that are used -/
def errorTarget (usi : ScanInfo) (hdr : IpHdr) (data : Bytes) : Option HostScanStats :=
  if data.length < 8 then none
  else if hdr.proto = 1 && (byteAt data 0 = 3 || byteAt data 0 = 11) then
    (portErrorHost usi data ipGetData).map (·.1)
  else if hdr.proto = 58 && (byteAt data 0 = 1 || byteAt data 0 = 4) then
    (portErrorHost usi data ipGetDataAny).map (·.1)
  else none

/-- For an ICMP error about one of our hosts, whether it came from that host -/
def errorFrom (usi : ScanInfo) (packet : Bytes) : Option Bool :=
  match ipGetData packet with
  | none => none
  | some (hdr, data) =>
    if usi.sourceAddr ≠ hdr.dst then none
    else (errorTarget usi hdr data).map fun hss => decide (hss.sockAddr = hdr.src)

/-- A TCP, UDP or SCTP port scan. Its probes other than pings are of its protocol. -/
structure PortScan (usi : ScanInfo) : Prop where
  ports : usi.cfg.tcpScan = true ∨ usi.cfg.udpScan = true ∨ usi.cfg.sctpScan = true
  own : ∀ hss ∈ usi.hosts, ∀ probe ∈ hss.probesOutstanding, probe.isPing = false →
    probe.protocol = 6 ∧ usi.cfg.tcpScan = true ∨ probe.protocol = 17 ∧ usi.cfg.udpScan = true ∨
      probe.protocol = 132 ∧ usi.cfg.sctpScan = true

/-- Two runs over one packet that start with different variables. `error` is what the packet
says about the sender of an error. -/
def Parallel (error : Option Bool) (before1 before2 : PcapLocals) :
    PcapLocals × Option PortMatch → PcapLocals × Option PortMatch → Prop
  | (after1, found1), (after2, found2) =>
    found1 = found2 ∧ after1.fromTarget = error.getD before1.fromTarget ∧
      after2.fromTarget = error.getD before2.fromTarget ∧
      match found1 with
      | none => after1.newstate = .unknown ∧ after2.newstate = .unknown
      | some found => found.probe.isPing = false →
          after1.newstate = after2.newstate ∧ after1.reason = after2.reason

def ParallelRuns (error : Option Bool) (before1 before2 : PcapLocals) :
    Except Failure (PcapLocals × Option PortMatch) →
      Except Failure (PcapLocals × Option PortMatch) → Prop
  | .ok run1, .ok run2 => Parallel error before1 before2 run1 run2
  | .error e1, .error e2 => e1 = e2
  | _, _ => False

section

variable {usi : ScanInfo} {hdr : IpHdr} {data : Bytes} {before1 before2 : PcapLocals}

theorem parallel_ignored (unknown1 : before1.newstate = .unknown)
    (unknown2 : before2.newstate = .unknown) :
    Parallel none before1 before2 (before1, none) (before2, none) :=
  ⟨rfl, rfl, rfl, unknown1, unknown2⟩

theorem portTcp_parallel (unknown1 : before1.newstate = .unknown)
    (unknown2 : before2.newstate = .unknown) :
    Parallel none before1 before2 (portTcp usi before1 hdr data)
      (portTcp usi before2 hdr data) := by
  rw [portTcp, portTcp]
  split
  · exact parallel_ignored unknown1 unknown2
  rename_i hss _
  split
  · exact parallel_ignored unknown1 unknown2
  rename_i probe _
  split_ifs with ping
  · refine ⟨rfl, rfl, rfl, ?_⟩
    intro scan
    have scan : probe.isPing = false := scan
    rw [ping] at scan
    cases scan
  · split
    · exact parallel_ignored unknown1 unknown2
    · exact ⟨rfl, rfl, rfl, fun _ => ⟨rfl, rfl⟩⟩

theorem portSctp_parallel (scan : PortScan usi) (sctp : hdr.proto = 132)
    (unknown1 : before1.newstate = .unknown) (unknown2 : before2.newstate = .unknown) :
    Parallel none before1 before2 (portSctp usi before1 hdr data)
      (portSctp usi before2 hdr data) := by
  rw [portSctp, portSctp]
  split
  · exact parallel_ignored unknown1 unknown2
  rename_i hss host
  split
  · exact parallel_ignored unknown1 unknown2
  rename_i probe found
  split_ifs with used
  · refine ⟨rfl, rfl, rfl, ?_⟩
    intro port
    have port : probe.isPing = false := port
    -- a probe of another scan
    have proto : probe.protocol = 132 := by
      have matched := List.find?_some found
      rw [Bool.and_eq_true, UltraProbe.checkProtoPort] at matched
      by_contra other
      rw [if_pos (by rw [sctp]; exact fun same => other same.symm)] at matched
      cases matched.1
    rw [port, Bool.false_or, Bool.not_eq_true'] at used
    rcases scan.own hss (findHost_mem host) probe (findProbe_mem found) port with
      ⟨tcp, -⟩ | ⟨udp, -⟩ | ⟨-, on⟩
    · rw [proto] at tcp
      cases tcp
    · rw [proto] at udp
      cases udp
    · rw [used] at on
      cases on
  · split
    · exact parallel_ignored unknown1 unknown2
    · exact ⟨rfl, rfl, rfl, fun _ => ⟨rfl, rfl⟩⟩

theorem portUdp_parallel (unknown1 : before1.newstate = .unknown)
    (unknown2 : before2.newstate = .unknown) :
    Parallel none before1 before2 (portUdp usi before1 hdr data)
      (portUdp usi before2 hdr data) := by
  rw [portUdp, portUdp]
  split
  · exact parallel_ignored unknown1 unknown2
  split
  · split_ifs
    · exact parallel_ignored unknown1 unknown2
    · exact ⟨rfl, rfl, rfl, rfl, rfl⟩
  · exact ⟨rfl, rfl, rfl, fun _ => ⟨rfl, rfl⟩⟩

theorem portError_parallel {getData : Bytes → Option (IpHdr × Bytes)}
    {state : Bool → PortState} (unknown1 : before1.newstate = .unknown)
    (unknown2 : before2.newstate = .unknown) :
    ParallelRuns ((portErrorHost usi data getData).map fun found =>
        decide (found.1.sockAddr = hdr.src)) before1 before2
      (portError usi before1 hdr data getData state)
      (portError usi before2 hdr data getData state) := by
  rw [portError, portError]
  cases host : portErrorHost usi data getData with
  | none => exact parallel_ignored unknown1 unknown2
  | some found =>
    dsimp only
    cases portErrorProbe usi data getData with
    | error e => exact rfl
    | ok result =>
      cases result with
      | none => exact ⟨rfl, rfl, rfl, unknown1, unknown2⟩
      | some hit =>
        rw [unknown1, unknown2]
        refine ⟨rfl, rfl, rfl, ?_⟩
        by_cases unknown : state (decide (found.1.sockAddr = hdr.src)) = .unknown
        · simp [unknown]
        · simp [unknown]

/-- Messages of the types `a` and `b` are errors, any other one is ignored. -/
theorem errors_parallel {getData : Bytes → Option (IpHdr × Bytes)} {state : Bool → PortState}
    {a b : UInt8} {target : Option HostScanStats} (unknown1 : before1.newstate = .unknown)
    (unknown2 : before2.newstate = .unknown)
    (errors : target = if data.length < 8 then none
      else if byteAt data 0 = a ∨ byteAt data 0 = b then (portErrorHost usi data getData).map (·.1)
      else none) :
    let run locals : Except Failure (PcapLocals × Option PortMatch) :=
      if data.length < 8 then .ok (locals, none)
      else if byteAt data 0 ≠ a && byteAt data 0 ≠ b then .ok (locals, none)
      else portError usi locals hdr data getData state
    ParallelRuns (target.map fun hss => decide (hss.sockAddr = hdr.src)) before1 before2
      (run before1) (run before2) := by
  intro run
  simp only [run, errors, Bool.and_eq_true, decide_eq_true_eq, ← not_or]
  split_ifs with short used
  · exact parallel_ignored unknown1 unknown2
  · rw [Option.map_map]
    exact portError_parallel unknown1 unknown2
  · exact parallel_ignored unknown1 unknown2

theorem portIcmp_parallel (proto : hdr.proto = 1) (unknown1 : before1.newstate = .unknown)
    (unknown2 : before2.newstate = .unknown) :
    ParallelRuns ((errorTarget usi hdr data).map fun hss => decide (hss.sockAddr = hdr.src))
      before1 before2 (portIcmp usi before1 hdr data) (portIcmp usi before2 hdr data) := by
  apply errors_parallel unknown1 unknown2
  simp [errorTarget, proto]

theorem portIcmpv6_parallel (proto : hdr.proto = 58) (unknown1 : before1.newstate = .unknown)
    (unknown2 : before2.newstate = .unknown) :
    ParallelRuns ((errorTarget usi hdr data).map fun hss => decide (hss.sockAddr = hdr.src))
      before1 before2 (portIcmpv6 usi before1 hdr data) (portIcmpv6 usi before2 hdr data) := by
  apply errors_parallel unknown1 unknown2
  simp [errorTarget, proto]

theorem portUpper_parallel (scan : PortScan usi) (unknown1 : before1.newstate = .unknown)
    (unknown2 : before2.newstate = .unknown) :
    ParallelRuns ((errorTarget usi hdr data).map fun hss => decide (hss.sockAddr = hdr.src))
      before1 before2 (portUpper usi before1 hdr data) (portUpper usi before2 hdr data) := by
  -- other packets are no errors
  have other : hdr.proto ≠ 1 → hdr.proto ≠ 58 → errorTarget usi hdr data = none := by
    intro icmp icmpv6
    simp [errorTarget, icmp, icmpv6]
  rw [portUpper, portUpper]
  split_ifs with tcp sctp icmp icmpv6 udp
  · rw [other (by simp [tcp]) (by simp [tcp])]
    exact portTcp_parallel unknown1 unknown2
  · rw [other (by simp [sctp]) (by simp [sctp])]
    exact portSctp_parallel scan sctp unknown1 unknown2
  · exact portIcmp_parallel icmp unknown1 unknown2
  · exact portIcmpv6_parallel icmpv6 unknown1 unknown2
  · rw [other icmp icmpv6]
    exact portUdp_parallel unknown1 unknown2
  · rw [other icmp icmpv6]
    exact parallel_ignored unknown1 unknown2

variable (before1 before2) in
theorem portPacket_parallel (scan : PortScan usi) (packet : Bytes)
    (unknown1 : before1.newstate = .unknown) (unknown2 : before2.newstate = .unknown) :
    ParallelRuns (errorFrom usi packet) before1 before2 (portPacket usi before1 packet)
      (portPacket usi before2 packet) := by
  rw [portPacket, portPacket, errorFrom]
  split
  · exact parallel_ignored unknown1 unknown2
  split_ifs
  · exact parallel_ignored unknown1 unknown2
  · exact portUpper_parallel scan unknown1 unknown2

end

/-! ## Ignored packets -/

/-- The loop goes on after this turn: its packet, if there is one, is for no probe. -/
def Ignored (usi : ScanInfo) (read : PcapRead) : Prop :=
  read.late = false ∧ ∀ packet, read.packet = some packet →
    ∃ locals, portPacket usi .start packet = .ok (locals, none)

/-- `from_target` after packets that are ignored: what the last ICMP error about one of our
hosts says -/
def carriedFromTarget (usi : ScanInfo) (reads : List PcapRead) (fromTarget : Bool) : Bool :=
  reads.foldl (fun b read => (read.packet.bind (errorFrom usi)).getD b) fromTarget

section

variable {usi : ScanInfo}

/-- A packet that is ignored changes `from_target` only. -/
theorem Ignored.packet (scan : PortScan usi) {read : PcapRead} (ignored : Ignored usi read)
    {packet : Bytes} (there : read.packet = some packet) {locals : PcapLocals}
    (unknown : locals.newstate = .unknown) :
    ∃ after, portPacket usi locals packet = .ok (after, none) ∧ after.newstate = .unknown ∧
      after.fromTarget = (errorFrom usi packet).getD locals.fromTarget := by
  obtain ⟨after1, run1⟩ := ignored.2 packet there
  have parallel := portPacket_parallel .start locals scan packet rfl unknown
  rw [run1] at parallel
  cases run2 : portPacket usi locals packet with
  | error e => rw [run2] at parallel; cases parallel
  | ok result =>
    obtain ⟨after2, found2⟩ := result
    rw [run2] at parallel
    obtain ⟨none_, -, target, -, state⟩ := parallel
    cases none_
    exact ⟨after2, rfl, state, target⟩

/-- The loop after packets that are ignored -/
theorem portLoop_append (scan : PortScan usi) {before : List PcapRead}
    (ignored : ∀ read ∈ before, Ignored usi read) (locals : PcapLocals)
    (unknown : locals.newstate = .unknown) (rest : List PcapRead) :
    ∃ after, portLoop usi locals (before ++ rest) = portLoop usi after rest ∧
      after.newstate = .unknown ∧
      after.fromTarget = carriedFromTarget usi before locals.fromTarget := by
  induction before generalizing locals with
  | nil => exact ⟨locals, rfl, unknown, rfl⟩
  | cons read before ih =>
    have here := ignored read mem_cons_self
    have later : ∀ read ∈ before, Ignored usi read :=
      fun r mem => ignored r (mem_cons_of_mem read mem)
    rw [cons_append, portLoop, carriedFromTarget, foldl_cons]
    cases there : read.packet with
    | none =>
      dsimp only
      rw [here.1, if_neg Bool.false_ne_true]
      exact ih later locals unknown
    | some packet =>
      obtain ⟨after, run, unknown', target⟩ := here.packet scan there unknown
      dsimp only
      rw [run, here.1]
      obtain ⟨last, loop, state, carried⟩ := ih later after unknown'
      refine ⟨last, loop, state, ?_⟩
      rw [carried, target]
      rfl

theorem pcapVerdict_of_match {locals after : PcapLocals} {packet : Bytes} {found : PortMatch}
    (run : portPacket usi locals packet = .ok (after, some found)) (late : Bool)
    (rest : List PcapRead) :
    portLoop usi locals (⟨some packet, late⟩ :: rest) = .ok (some (after, found)) := by
  rw [portLoop]
  dsimp only
  rw [run]
  rfl

theorem verdict_eq_iff {after1 after2 : PcapLocals} {found : PortMatch}
    (same : found.probe.isPing = false →
      after1.newstate = after2.newstate ∧ after1.reason = after2.reason) :
    after1.verdict found = after2.verdict found ↔
      found.probe.isPing = true ∨ after1.fromTarget = after2.fromTarget := by
  rw [PcapLocals.verdict, PcapLocals.verdict]
  cases ping : found.probe.isPing with
  | true => simp
  | false =>
    obtain ⟨state, reason⟩ := same ping
    rw [state, reason, if_neg Bool.false_ne_true, if_neg Bool.false_ne_true]
    cases after1.fromTarget <;> cases after2.fromTarget <;> simp

end

/-- The verdict on the packet that is answered is the same after packets that are ignored
exactly if it is for a ping, or the packet is an ICMP error, or the last error about one of our
hosts came from that host. -/
theorem no_trace_iff (usi : ScanInfo) (scan : PortScan usi) (before rest : List PcapRead)
    (packet : Bytes) (late : Bool) (locals : PcapLocals) (found : PortMatch)
    (ignored : ∀ read ∈ before, Ignored usi read)
    (answered : portPacket usi .start packet = .ok (locals, some found)) :
    pcapVerdict usi (before ++ ⟨some packet, late⟩ :: rest) =
        pcapVerdict usi [⟨some packet, late⟩] ↔
      found.probe.isPing = true ∨ (errorFrom usi packet).isSome = true ∨
        carriedFromTarget usi before true = true := by
  obtain ⟨carried, loop, unknown, target⟩ := portLoop_append scan ignored .start
    rfl (⟨some packet, late⟩ :: rest)
  have parallel := portPacket_parallel carried .start scan packet unknown rfl
  rw [answered] at parallel
  cases run : portPacket usi carried packet with
  | error e => rw [run] at parallel; cases parallel
  | ok result =>
    obtain ⟨after, found'⟩ := result
    rw [run] at parallel
    obtain ⟨rfl, target1, target2, same⟩ := parallel
    have first : pcapVerdict usi (before ++ ⟨some packet, late⟩ :: rest) =
        .ok (some (after.verdict found)) := by
      rw [pcapVerdict, loop, pcapVerdict_of_match run]
      rfl
    have alone : pcapVerdict usi [⟨some packet, late⟩] =
        .ok (some (locals.verdict found)) := by
      rw [pcapVerdict, pcapVerdict_of_match answered]
      rfl
    rw [first, alone]
    have inject : (Except.ok (some (after.verdict found)) : Except Failure (Option Verdict)) =
        .ok (some (locals.verdict found)) ↔ after.verdict found = locals.verdict found := by
      simp
    rw [inject, verdict_eq_iff same, target1, target2, target]
    apply or_congr_right
    cases errorFrom usi packet with
    | none => simp [PcapLocals.start]
    | some b => simp

/-- The result of `get_pcap_result` is a matter of the verdict. -/
theorem getPcapResult_congr {usi : ScanInfo} {reads1 reads2 : List PcapRead}
    (same : pcapVerdict usi reads1 = pcapVerdict usi reads2) :
    getPcapResult usi reads1 = getPcapResult usi reads2 := by
  rw [getPcapResult, getPcapResult, same]

/-! A SYN scan of port 80 of 198.51.100.7 from port 40000 of 192.0.2.1 -/

def synScanPort80 : Config where
  scantype := .portScan .syn
  ports := ⟨[], [], [], [], [], [80], [], [], []⟩
  pingtype := ⟨false, false, false, false, false, false, false, false, false, false⟩
  isr00t := true
  ipv6 := false
  scanflags := none
  maxRetransmissions := 10
  defeatRstRatelimit := false
  defeatIcmpRatelimit := false
  discoveryIgnoreRst := false
  udpPayloadCount := fun _ => 0

def synProbe : UltraProbe where
  addr := 1
  type := .ip
  pspec := ⟨.tcp, 6, .tcp 80 0x02⟩
  tryno := ⟨false, 0⟩
  timedout := false
  retransmitted := false
  sent := .zero
  prevSent := .zero
  ipid := 7
  extra := .tcp 40000 0x01020304
  sd := -1

def synScan : ScanInfo where
  cfg := synScanPort80
  sourceAddr := [192, 0, 2, 1]
  incompleteHosts := [(HostScanStats.new 0 [198, 51, 100, 7]).setProbes [synProbe] 1 0]
  completedHosts := []
  seqmask := 0
  magicPortSet := false
  group := ⟨1, 1, ⟨-1, []⟩⟩

/-- "Host unreachable" from a router, about a connection that nobody waits for -/
def strayError : Bytes :=
  ipv4Packet 1 [192, 0, 2, 254] [192, 0, 2, 1]
    ([3, 1, 0, 0, 0, 0, 0, 0] ++
      ipv4Packet 6 [192, 0, 2, 1] [198, 51, 100, 7] [0xc3, 0x50, 0, 22, 0, 0, 0, 1])

def synAck : Bytes :=
  ipv4Packet 6 [198, 51, 100, 7] [192, 0, 2, 1]
    [0, 80, 0x9c, 0x40, 0, 0, 0, 9, 1, 2, 3, 5, 0x50, 0x12, 4, 0, 0, 0, 0, 0]

def ScanInfo.reasonPort80 (usi : ScanInfo) : Option Ports.StateReason :=
  usi.incompleteHosts.head?.bind fun hss =>
    (hss.ports.ports.ports ⟨80, .tcp⟩).map (·.reason)

theorem synScan_portScan : PortScan synScan where
  ports := Or.inl rfl
  own := by
    intro hss host probe mem _
    rw [mem_singleton.mp host] at mem
    rw [mem_singleton.mp mem]
    exact Or.inl ⟨rfl, rfl⟩

theorem strayError_ignored : Ignored synScan ⟨some strayError, false⟩ := by
  refine ⟨rfl, ?_⟩
  intro packet there
  cases there
  exact ⟨_, rfl⟩

/-- The stray error shows in the verdict on the port. -/
theorem no_trace_stray :
    pcapVerdict synScan ([⟨some strayError, false⟩] ++ [⟨some synAck, false⟩]) =
        pcapVerdict synScan [⟨some synAck, false⟩] ↔
      synProbe.isPing = true ∨ (errorFrom synScan synAck).isSome = true ∨
        carriedFromTarget synScan [⟨some strayError, false⟩] true = true := by
  apply no_trace_iff synScan synScan_portScan [⟨some strayError, false⟩] [] synAck false _ _ ?_ rfl
  intro read mem
  rw [mem_singleton.mp mem]
  exact strayError_ignored

/-- The reason of the open port is stored with the address of the host itself, as that of
another sender. -/
theorem strayError_leaves_trace :
    PortScan synScan ∧ Ignored synScan ⟨some strayError, false⟩ ∧
      pcapVerdict synScan [⟨some strayError, false⟩, ⟨some synAck, false⟩] ≠
        pcapVerdict synScan [⟨some synAck, false⟩] ∧
      ∃ usi1 usi2,
        getPcapResult synScan [⟨some strayError, false⟩, ⟨some synAck, false⟩] =
          .ok (true, usi1) ∧
        getPcapResult synScan [⟨some synAck, false⟩] = .ok (true, usi2) ∧
        usi1.reasonPort80 = some ⟨.synAck, some [198, 51, 100, 7], 64⟩ ∧
        usi2.reasonPort80 = some ⟨.synAck, none, 64⟩ := by
  have results : ∃ usi1 usi2,
      getPcapResult synScan [⟨some strayError, false⟩, ⟨some synAck, false⟩] = .ok (true, usi1) ∧
      getPcapResult synScan [⟨some synAck, false⟩] = .ok (true, usi2) ∧
      usi1.reasonPort80 = some ⟨.synAck, some [198, 51, 100, 7], 64⟩ ∧
      usi2.reasonPort80 = some ⟨.synAck, none, 64⟩ := ⟨_, _, rfl, rfl, rfl, rfl⟩
  refine ⟨synScan_portScan, strayError_ignored, ?_, results⟩
  obtain ⟨usi1, usi2, result1, result2, stored1, stored2⟩ := results
  intro same
  have equal := getPcapResult_congr same
  rw [result1, result2] at equal
  cases equal
  rw [stored1] at stored2
  cases stored2

end Nmap.ScanEngine
