import Nmap.ScanEngine.Matching

/-!
# Replies in host discovery (`scan_engine_raw.cc`)

`get_ping_pcap_result` reads packets until one answers a probe. The answer makes a host up or
down and the probe is destroyed, all unless the new state is unknown: then the function returns
true as well, but the probe stays outstanding.

`pings_retired_iff`: this is so for destination unreachable errors, save port and protocol
unreachable from the target itself.
-/

namespace Nmap.ScanEngine

open Nmap.Base Nmap.Packet List
open Nmap.Ports (ReasonCode)

/-! ## One packet -/

/-- What is set along with `goodone` -/
structure PingAnswer where
  hss : HostScanStats
  probe : UltraProbe
  hdr : IpHdr
  newstate : HostState
  adjustTiming : Bool

/-- How the handling of a packet goes on -/
inductive PingStep
  /-- `continue` -/
  | skip
  /-- on to the check for a protocol reply -/
  | pass
  | answer (a : PingAnswer)

section

variable (usi : ScanInfo) (reason : ReasonCode) (hdr : IpHdr) (data : Bytes)

/-- The probe that provoked a response, among those of the host that it comes from -/
def pingResponse (wanted : UltraProbe → Bool) : PingStep :=
  match usi.findHost hdr.src with
  | none => .skip
  | some hss =>
    match hss.findProbe wanted with
    | none => .pass
    | some probe => .answer ⟨hss, probe, hdr, .up, true⟩

/-- Whether a probe is the one quoted in an ICMP error -/
def pingQuoted (encaps : IpHdr) (quoted : Bytes) (probe : UltraProbe) : Except Failure Bool :=
  if probe.protocol ≠ encaps.proto then .ok false
  else if (encaps.proto = 1 || encaps.proto = 58) && usi.cfg.rawicmpscan then
    .ok (!(quoted.length < 8) && probe.icmpid = u16At quoted 4)
  else if encaps.proto = 6 && usi.cfg.rawtcpscan then
    .ok (!(quoted.length < 20) && probe.dport = u16At quoted 2 && probe.sport = u16At quoted 0 &&
      probe.tcpseq = u32At quoted 4)
  else if encaps.proto = 17 && usi.cfg.rawudpscan then
    .ok (!(quoted.length < 8) && probe.dport = u16At quoted 2 && probe.sport = u16At quoted 0)
  else if encaps.proto = 132 && usi.cfg.rawsctpscan then
    .ok (!(quoted.length < 12) && probe.dport = u16At quoted 2 && probe.sport = u16At quoted 0 &&
      probe.sctpvtag = u32At quoted 4)
  else if usi.cfg.rawprotoscan then .ok true
  else .error .assertion

/-- "Bail out early if possible": no probe of the protocol is sent. -/
def pingBailsOut (encaps : IpHdr) : Bool :=
  !usi.cfg.rawprotoscan &&
    (encaps.proto = 1 && !usi.cfg.rawicmpscan || encaps.proto = 58 && !usi.cfg.rawicmpscan ||
      encaps.proto = 6 && !usi.cfg.rawtcpscan || encaps.proto = 17 && !usi.cfg.rawudpscan ||
      encaps.proto = 132 && !usi.cfg.rawsctpscan)

/-- The host and the probe that an ICMP error is about -/
def pingErrorProbe : Except Failure (Option (HostScanStats × UltraProbe)) :=
  match ipGetData (data.drop 8) with
  | none => .ok none
  | some (encaps, quoted) =>
    if (usi.cfg.tcpScan || usi.cfg.udpScan || usi.cfg.sctpScan) && quoted.length < 8 then .ok none
    else if pingBailsOut usi encaps then .ok none
    else if usi.sourceAddr ≠ encaps.src then .ok none
    else
      match usi.findHost encaps.dst with
      | none => .ok none
      | some hss => do
        let probe ← hss.probesOutstanding.reverse.findM? (pingQuoted usi encaps quoted)
        .ok (probe.map fun probe => (hss, probe))

def isUnreachable : Bool :=
  hdr.proto = 1 && byteAt data 0 = 3 || hdr.proto = 58 && byteAt data 0 = 1

def isPortUnreachable : Bool :=
  hdr.proto = 1 && (byteAt data 1 = 2 || byteAt data 1 = 3) || hdr.proto = 58 && byteAt data 1 = 4

/-- What an ICMP error says about the host, if anything, and whether it is to be timed -/
def pingErrorState (target : Addr) : Option (HostState × Bool) :=
  if isUnreachable hdr data then
    if isPortUnreachable hdr data && target = hdr.src then some (.up, true)
    -- "Still, it's a response so we should destroy the matching probe"
    else some (.unknown, false)
  else if hdr.proto = 1 && byteAt data 0 = 11 || hdr.proto = 58 && byteAt data 0 = 3 then
    some (.down, false)
  else none

def pingError : Except Failure PingStep := do
  match ← pingErrorProbe usi data with
  | none => .ok .skip
  | some (hss, probe) =>
    match pingErrorState hdr data hss.sockAddr with
    | none => .ok .pass
    | some (newstate, adjustTiming) => .ok (.answer ⟨hss, probe, hdr, newstate, adjustTiming⟩)

def pingIcmp : Except Failure (ReasonCode × PingStep) :=
  if data.length < 8 then .ok (reason, .skip)
  else
    let icmpType := byteAt data 0
    let reason := icmpToReason hdr.proto icmpType (byteAt data 1)
    if usi.cfg.rawicmpscan && (hdr.proto = 1 && (icmpType = 0 || icmpType = 14 || icmpType = 18) ||
        hdr.proto = 58 && icmpType = 129) then
      .ok (reason, pingResponse usi hdr fun probe => probe.icmpProbeMatch hdr data)
    else if hdr.proto = 1 && (icmpType = 3 || icmpType = 4 || icmpType = 11) ||
        hdr.proto = 58 && (icmpType = 1 || icmpType = 2 || icmpType = 3 || icmpType = 4) then do
      let step ← pingError usi hdr data
      .ok (reason, step)
    else .ok (reason, .pass)

/-- The reason that a TCP response gives -/
def pingTcpReason (flags : UInt8) : ReasonCode :=
  if usi.cfg.pingtype.tcpUseSyn then
    if flags &&& 0x04 ≠ 0 then .resetPeer
    else if flags &&& 0x12 = 0x12 then .synAck
    else reason
  else if usi.cfg.pingtype.tcpUseAck && flags &&& 0x04 ≠ 0 then .resetPeer
  else reason

/-- The reason that an SCTP response gives -/
def pingSctpReason (chunkType : UInt8) : ReasonCode :=
  if chunkType = 2 then .initAck else if chunkType = 6 then .abort else .unknown

def PingStep.withReason (answered : ReasonCode) : PingStep → ReasonCode × PingStep
  | .answer a => (answered, .answer a)
  | step => (reason, step)

def pingTcp : ReasonCode × PingStep :=
  let tcp := tcpHdr data
  if data.length < 20 then (reason, .skip)
  else if usi.cfg.discoveryIgnoreRst && tcp.flags &&& 0x04 ≠ 0 then (reason, .skip)
  else if tcp.flags &&& 0x04 = 0 && tcp.flags &&& 0x12 ≠ 0x12 then (reason, .skip)
  else
    (pingResponse usi hdr fun probe =>
      probe.checkProtoPort hdr.proto tcp.dport tcp.sport &&
        usi.tcpProbeMatch probe tcp hdr).withReason reason (pingTcpReason usi reason tcp.flags)

def pingUdp : ReasonCode × PingStep :=
  if data.length < 8 then (reason, .skip)
  else
    (pingResponse usi hdr fun probe =>
      probe.checkProtoPort hdr.proto (u16At data 2) (u16At data 0) &&
        !probe.sawOwn hdr).withReason reason .udpResponse

def pingSctp : ReasonCode × PingStep :=
  if data.length < 16 then (reason, .skip)
  else
    (pingResponse usi hdr fun probe =>
      probe.checkProtoPort hdr.proto (u16At data 2) (u16At data 0) &&
        !probe.sawOwn hdr).withReason reason (pingSctpReason (byteAt data 12))

def pingUpper : Except Failure (ReasonCode × PingStep) :=
  if hdr.proto = 1 || hdr.proto = 58 then pingIcmp usi reason hdr data
  else if hdr.proto = 6 && usi.cfg.rawtcpscan then .ok (pingTcp usi reason hdr data)
  else if hdr.proto = 17 && usi.cfg.rawudpscan then .ok (pingUdp usi reason hdr data)
  else if hdr.proto = 132 && usi.cfg.rawsctpscan then .ok (pingSctp usi reason hdr data)
  else .ok (reason, .pass)

def pingProtocol : Option PingAnswer :=
  if usi.cfg.rawprotoscan then do
    let hss ← usi.findHost hdr.src
    let probe ← hss.findProbe fun probe => probe.protocol = hdr.proto
    if hdr.src = hdr.dst && probe.ipid = hdr.ipid then none
    else some ⟨hss, probe, hdr, .up, true⟩
  else none

end

/-- The body of the loop of `get_ping_pcap_result`, with `current_reason` -/
def pingPacket (usi : ScanInfo) (reason : ReasonCode) (packet : Bytes) :
    Except Failure (ReasonCode × Option PingAnswer) :=
  match ipGetData packet with
  | none => .ok (reason, none)
  | some (hdr, data) =>
    if usi.sourceAddr ≠ hdr.dst then .ok (reason, none)
    else do
      match ← pingUpper usi reason hdr data with
      | (reason, .skip) => .ok (reason, none)
      | (reason, .answer a) => .ok (reason, some a)
      | (reason, .pass) =>
        match pingProtocol usi hdr with
        | none => .ok (reason, none)
        | some a => .ok (.protoResponse, some a)

/-! ## The loop -/

/-- The loop, which ends with an answer or when the time is up -/
def pingLoop (usi : ScanInfo) :
    ReasonCode → List PcapRead → Except Failure (Option (ReasonCode × PingAnswer))
  | _, [] => .ok none
  | reason, read :: rest =>
    match read.packet with
    | none => if read.late then .ok none else pingLoop usi reason rest
    | some packet => do
      match ← pingPacket usi reason packet with
      | (reason, some a) => .ok (some (reason, a))
      | (reason, none) => if read.late then .ok none else pingLoop usi reason rest

/-- The update of the host after an answer -/
def pingUpdate (usi : ScanInfo) (reason : ReasonCode) (a : PingAnswer) :
    Except Failure ScanInfo :=
  if a.newstate = .unknown then .ok usi
  else if a.probe.isPing then do
    let (hss, g) ← ultrascanPingUpdate a.hss usi.group a.probe
    .ok (usi.write hss g)
  else do
    let (hss, g) ← ultrascanHostProbeUpdate usi.cfg a.hss usi.group a.probe a.newstate
      a.adjustTiming
    -- "If the host is up, we can forget our other probes"
    let (hss, g) ← (if a.newstate = .up then destroyAllOutstandingProbes hss g else .ok (hss, g))
    let ipAddr := if a.hdr.src ≠ hss.sockAddr then some a.hdr.src else hss.reason.ipAddr
    .ok (usi.write { hss with reason := ⟨reason, ipAddr, a.hdr.ttl⟩ } g)

def getPingPcapResult (usi : ScanInfo) (reads : List PcapRead) :
    Except Failure (Bool × ScanInfo) := do
  match ← pingLoop usi .noResponse reads with
  | none => .ok (false, usi)
  | some (reason, a) =>
    let usi ← pingUpdate usi reason a
    .ok (true, usi)

/-! ## What is answered -/

/-- An answer is about an outstanding probe of a host. -/
def PingAnswer.Outstanding (usi : ScanInfo) (a : PingAnswer) : Prop :=
  a.hss ∈ usi.hosts ∧ a.probe ∈ a.hss.probesOutstanding

/-- An unreachable error for an outstanding probe, other than from the target itself that a port
or its protocol cannot be reached -/
structure UnclearError (usi : ScanInfo) (hdr : IpHdr) (data : Bytes) : Prop where
  long : 8 ≤ data.length
  unreachable : isUnreachable hdr data = true
  found : ∃ hss probe, pingErrorProbe usi data = .ok (some (hss, probe)) ∧
    ¬(isPortUnreachable hdr data = true ∧ hss.sockAddr = hdr.src)

def Unclear (usi : ScanInfo) (packet : Bytes) : Prop :=
  ∃ hdr data, ipGetData packet = some (hdr, data) ∧ usi.sourceAddr = hdr.dst ∧
    UnclearError usi hdr data

section

variable {usi : ScanInfo} {reason : ReasonCode} {hdr : IpHdr} {data : Bytes}

variable {a : PingAnswer}

theorem pingResponse_answer {wanted : UltraProbe → Bool}
    (answer : pingResponse usi hdr wanted = .answer a) :
    a.Outstanding usi ∧ a.newstate = .up := by
  rw [pingResponse] at answer
  cases host : usi.findHost hdr.src with
  | none => rw [host] at answer; cases answer
  | some hss =>
    rw [host] at answer
    dsimp only at answer
    cases probe : hss.findProbe wanted with
    | none => rw [probe] at answer; cases answer
    | some probe' =>
      rw [probe] at answer
      cases answer
      exact ⟨⟨findHost_mem host, findProbe_mem probe⟩, rfl⟩

theorem pingErrorProbe_mem {hss : HostScanStats} {probe : UltraProbe}
    (found : pingErrorProbe usi data = .ok (some (hss, probe))) :
    hss ∈ usi.hosts ∧ probe ∈ hss.probesOutstanding := by
  rw [pingErrorProbe] at found
  split at found
  · cases found
  rename_i encaps quoted _
  split_ifs at found
  · cases found
  · cases found
  · cases found
  cases host : usi.findHost encaps.dst with
  | none => rw [host] at found; cases found
  | some hss' =>
    rw [host] at found
    dsimp only at found
    cases search : hss'.probesOutstanding.reverse.findM? (pingQuoted usi encaps quoted) with
    | error e => rw [search] at found; cases found
    | ok result =>
      rw [search] at found
      cases result with
      | none => cases found
      | some probe' =>
        cases found
        exact ⟨findHost_mem host, mem_reverse.mp (findM?_mem search)⟩

/-- An error leaves the state of a host unknown only if it is an unclear one. -/
theorem pingError_answer (long : 8 ≤ data.length)
    (answer : pingError usi hdr data = .ok (.answer a)) :
    a.Outstanding usi ∧ (a.newstate = .unknown → UnclearError usi hdr data) := by
  rw [pingError] at answer
  cases found : pingErrorProbe usi data with
  | error e => rw [found] at answer; cases answer
  | ok result =>
    rw [found] at answer
    rcases result with _ | ⟨hss, probe⟩
    · cases answer
    · dsimp only [bind, Except.bind] at answer
      cases state : pingErrorState hdr data hss.sockAddr with
      | none => rw [state] at answer; cases answer
      | some verdict =>
        rw [state] at answer
        cases answer
        refine ⟨pingErrorProbe_mem found, ?_⟩
        rintro unknown
        have unknown : verdict.1 = .unknown := unknown
        rw [pingErrorState] at state
        split_ifs at state with unreachable clear
        · cases state
          cases unknown
        · refine ⟨long, unreachable, hss, probe, found, ?_⟩
          simpa using clear
        · cases state
          cases unknown

variable {reason' : ReasonCode}

theorem pingIcmp_answer (answer : pingIcmp usi reason hdr data = .ok (reason', .answer a)) :
    a.Outstanding usi ∧ (a.newstate = .unknown → UnclearError usi hdr data) := by
  rw [pingIcmp] at answer
  split_ifs at answer with short
  · cases answer
  dsimp only at answer
  split_ifs at answer
  · -- a reply to a ping
    injection answer with answer
    injection answer with _ answer
    obtain ⟨outstanding, up⟩ := pingResponse_answer answer
    refine ⟨outstanding, ?_⟩
    rw [up]
    intro unknown
    cases unknown
  · cases error : pingError usi hdr data with
    | error e => rw [error] at answer; cases answer
    | ok step =>
      rw [error] at answer
      cases answer
      exact pingError_answer (Nat.le_of_not_lt short) error
  · cases answer

theorem PingStep.withReason_snd (reason answered : ReasonCode) (step : PingStep) :
    (step.withReason reason answered).2 = step := by
  cases step <;> rfl

theorem pingTcp_answer (answer : (pingTcp usi reason hdr data).2 = .answer a) :
    a.Outstanding usi ∧ a.newstate = .up := by
  rw [pingTcp] at answer
  split_ifs at answer
  rw [PingStep.withReason_snd] at answer
  exact pingResponse_answer answer

theorem pingUdp_answer (answer : (pingUdp usi reason hdr data).2 = .answer a) :
    a.Outstanding usi ∧ a.newstate = .up := by
  rw [pingUdp] at answer
  split_ifs at answer
  rw [PingStep.withReason_snd] at answer
  exact pingResponse_answer answer

theorem pingSctp_answer (answer : (pingSctp usi reason hdr data).2 = .answer a) :
    a.Outstanding usi ∧ a.newstate = .up := by
  rw [pingSctp] at answer
  split_ifs at answer
  rw [PingStep.withReason_snd] at answer
  exact pingResponse_answer answer

theorem pingProtocol_answer (answer : pingProtocol usi hdr = some a) :
    a.Outstanding usi ∧ a.newstate = .up := by
  rw [pingProtocol] at answer
  split_ifs at answer
  cases host : usi.findHost hdr.src with
  | none => rw [host] at answer; cases answer
  | some hss =>
    rw [host] at answer
    cases probe : hss.findProbe fun probe => probe.protocol = hdr.proto with
    | none =>
      dsimp only [bind, Option.bind] at answer
      rw [probe] at answer
      cases answer
    | some probe' =>
      dsimp only [bind, Option.bind] at answer
      rw [probe] at answer
      dsimp only at answer
      split_ifs at answer
      cases answer
      exact ⟨⟨findHost_mem host, findProbe_mem probe⟩, rfl⟩

theorem pingUpper_answer (answer : pingUpper usi reason hdr data = .ok (reason', .answer a)) :
    a.Outstanding usi ∧ (a.newstate = .unknown → UnclearError usi hdr data) := by
  have unclear_of_up : a.Outstanding usi ∧ a.newstate = .up →
      a.Outstanding usi ∧ (a.newstate = .unknown → UnclearError usi hdr data) := by
    rintro ⟨outstanding, up⟩
    refine ⟨outstanding, ?_⟩
    rw [up]
    intro unknown
    cases unknown
  rw [pingUpper] at answer
  split_ifs at answer
  · exact pingIcmp_answer answer
  · injection answer with answer
    exact unclear_of_up (pingTcp_answer (by rw [answer]))
  · injection answer with answer
    exact unclear_of_up (pingUdp_answer (by rw [answer]))
  · injection answer with answer
    exact unclear_of_up (pingSctp_answer (by rw [answer]))
  · cases answer

theorem pingPacket_answer {packet : Bytes}
    (answer : pingPacket usi reason packet = .ok (reason', some a)) :
    a.Outstanding usi ∧ (a.newstate = .unknown → Unclear usi packet) := by
  rw [pingPacket] at answer
  split at answer
  · cases answer
  rename_i hdr data read
  split_ifs at answer with elsewhere
  · cases answer
  have here : usi.sourceAddr = hdr.dst := not_not.mp elsewhere
  cases upper : pingUpper usi reason hdr data with
  | error e => rw [upper] at answer; cases answer
  | ok result =>
    obtain ⟨reason1, step⟩ := result
    rw [upper] at answer
    cases step with
    | skip => cases answer
    | answer a1 =>
      cases answer
      obtain ⟨outstanding, unclear⟩ := pingUpper_answer upper
      exact ⟨outstanding, fun unknown => ⟨hdr, data, read, here, unclear unknown⟩⟩
    | pass =>
      dsimp only [bind, Except.bind] at answer
      cases protocol : pingProtocol usi hdr with
      | none => rw [protocol] at answer; cases answer
      | some a1 =>
        rw [protocol] at answer
        cases answer
        obtain ⟨outstanding, up⟩ := pingProtocol_answer protocol
        refine ⟨outstanding, ?_⟩
        rw [up]
        intro unknown
        cases unknown

variable (usi reason) in
theorem pingUpper_unreachable (long : 8 ≤ data.length)
    (unreachable : isUnreachable hdr data = true) :
    ∃ reason', pingUpper usi reason hdr data =
      (pingError usi hdr data >>= fun step => .ok (reason', step)) := by
  refine ⟨icmpToReason hdr.proto (byteAt data 0) (byteAt data 1), ?_⟩
  rw [isUnreachable] at unreachable
  have kinds : hdr.proto = 1 ∧ byteAt data 0 = 3 ∨ hdr.proto = 58 ∧ byteAt data 0 = 1 := by
    simpa using unreachable
  rw [pingUpper, pingIcmp, if_neg (Nat.not_lt.mpr long)]
  rcases kinds with ⟨proto, kind⟩ | ⟨proto, kind⟩
  · simp [proto, kind]
  · simp [proto, kind]

variable (reason) in
theorem pingPacket_unclear {packet : Bytes} (unclear : Unclear usi packet) :
    ∃ reason' a, pingPacket usi reason packet = .ok (reason', some a) ∧ a.Outstanding usi ∧
      a.newstate = .unknown := by
  obtain ⟨hdr, data, read, here, long, unreachable, hss, probe, found, other⟩ := unclear
  obtain ⟨reason', upper⟩ := pingUpper_unreachable usi reason long unreachable
  have state : pingErrorState hdr data hss.sockAddr = some (.unknown, false) := by
    rw [pingErrorState, if_pos unreachable, if_neg (by simpa using other)]
  have error : pingError usi hdr data = .ok (.answer ⟨hss, probe, hdr, .unknown, false⟩) := by
    rw [pingError, found]
    dsimp only [bind, Except.bind]
    rw [state]
  refine ⟨reason', ⟨hss, probe, hdr, .unknown, false⟩, ?_, pingErrorProbe_mem found, rfl⟩
  rw [pingPacket, read]
  dsimp only
  rw [if_neg (not_not.mpr here), upper, error]
  rfl

end

/-! ## The reason so far -/

section

variable (usi : ScanInfo) (reason1 reason2 : ReasonCode) (hdr : IpHdr) (data : Bytes)

/-- What a packet answers does not depend on the reason of an earlier one. -/
theorem pingUpper_reason :
    (pingUpper usi reason1 hdr data).map Prod.snd =
      (pingUpper usi reason2 hdr data).map Prod.snd := by
  rw [pingUpper, pingUpper]
  split_ifs
  · rw [pingIcmp, pingIcmp]
    split_ifs <;> rfl
  · rw [pingTcp, pingTcp]
    split_ifs
    · rfl
    · rfl
    · rfl
    · show Except.ok _ = Except.ok _
      rw [PingStep.withReason_snd, PingStep.withReason_snd]
  · rw [pingUdp, pingUdp]
    split_ifs
    · rfl
    · show Except.ok _ = Except.ok _
      rw [PingStep.withReason_snd, PingStep.withReason_snd]
  · rw [pingSctp, pingSctp]
    split_ifs
    · rfl
    · show Except.ok _ = Except.ok _
      rw [PingStep.withReason_snd, PingStep.withReason_snd]
  · rfl

theorem pingPacket_reason (packet : Bytes) :
    (pingPacket usi reason1 packet).map Prod.snd =
      (pingPacket usi reason2 packet).map Prod.snd := by
  rw [pingPacket, pingPacket]
  split
  · rfl
  rename_i hdr data _
  split_ifs
  · rfl
  have same := pingUpper_reason usi reason1 reason2 hdr data
  cases upper1 : pingUpper usi reason1 hdr data with
  | error e =>
    cases upper2 : pingUpper usi reason2 hdr data with
    | error e' => rw [upper1, upper2] at same; cases same; rfl
    | ok result => rw [upper1, upper2] at same; cases same
  | ok result1 =>
    cases upper2 : pingUpper usi reason2 hdr data with
    | error e => rw [upper1, upper2] at same; cases same
    | ok result2 =>
      rw [upper1, upper2] at same
      obtain ⟨after1, step1⟩ := result1
      obtain ⟨after2, step2⟩ := result2
      cases same
      cases step1 with
      | skip => rfl
      | answer a => rfl
      | pass =>
        dsimp only [bind, Except.bind]
        cases pingProtocol usi hdr with
        | none => rfl
        | some a => rfl

end

/-! ## The packet that ends the loop -/

def Unanswered (usi : ScanInfo) (packet : Bytes) : Prop :=
  (pingPacket usi .noResponse packet).map Prod.snd = .ok none

def GoesOn (usi : ScanInfo) (read : PcapRead) : Prop :=
  read.late = false ∧ ∀ packet, read.packet = some packet → Unanswered usi packet

/-- The first packet that answers a probe is an unclear error. -/
def FirstUnclear (usi : ScanInfo) (reads : List PcapRead) : Prop :=
  ∃ before read rest packet, reads = before ++ read :: rest ∧
    (∀ earlier ∈ before, GoesOn usi earlier) ∧ read.packet = some packet ∧ Unclear usi packet

section

variable {usi : ScanInfo} {reason : ReasonCode}

variable (reason) in
theorem Unanswered.packet {packet : Bytes} (unanswered : Unanswered usi packet) :
    ∃ reason', pingPacket usi reason packet = .ok (reason', none) := by
  have same : (pingPacket usi reason packet).map Prod.snd = .ok none :=
    (pingPacket_reason usi reason .noResponse packet).trans unanswered
  cases result : pingPacket usi reason packet with
  | error e => rw [result] at same; cases same
  | ok r =>
    rw [result] at same
    obtain ⟨reason', answer⟩ := r
    cases same
    exact ⟨reason', rfl⟩

theorem unanswered_of_packet {packet : Bytes} {reason' : ReasonCode}
    (result : pingPacket usi reason packet = .ok (reason', none)) : Unanswered usi packet := by
  rw [Unanswered, pingPacket_reason usi .noResponse reason packet, result]
  rfl

variable (reason) in
theorem pingLoop_append {before : List PcapRead} (on : ∀ earlier ∈ before, GoesOn usi earlier)
    (rest : List PcapRead) :
    ∃ reason', pingLoop usi reason (before ++ rest) = pingLoop usi reason' rest := by
  induction before generalizing reason with
  | nil => exact ⟨reason, rfl⟩
  | cons read before ih =>
    obtain ⟨early, unanswered⟩ := on read mem_cons_self
    have later : ∀ earlier ∈ before, GoesOn usi earlier :=
      fun earlier mem => on earlier (mem_cons_of_mem read mem)
    rw [cons_append, pingLoop]
    cases packet : read.packet with
    | none =>
      dsimp only
      rw [early, if_neg Bool.false_ne_true]
      exact ih _ later
    | some bytes =>
      obtain ⟨reason', none_⟩ := (unanswered bytes packet).packet reason
      dsimp only
      rw [none_, early]
      exact ih _ later

/-- An answer comes from the first packet that answers. -/
theorem pingLoop_answer {reads : List PcapRead} {reason' : ReasonCode} {a : PingAnswer}
    (answer : pingLoop usi reason reads = .ok (some (reason', a))) :
    ∃ before read rest packet before', reads = before ++ read :: rest ∧
      (∀ earlier ∈ before, GoesOn usi earlier) ∧ read.packet = some packet ∧
      pingPacket usi before' packet = .ok (reason', some a) := by
  induction reads generalizing reason with
  | nil => cases answer
  | cons read reads ih =>
    -- a turn that the loop goes on from
    have goesOn : GoesOn usi read → (∃ reason1,
        pingLoop usi reason1 reads = .ok (some (reason', a))) →
        ∃ before read' rest packet before', read :: reads = before ++ read' :: rest ∧
          (∀ earlier ∈ before, GoesOn usi earlier) ∧ read'.packet = some packet ∧
          pingPacket usi before' packet = .ok (reason', some a) := by
      rintro on ⟨reason1, later⟩
      obtain ⟨before, read', rest, packet, before', split, each, read_, found⟩ := ih later
      refine ⟨read :: before, read', rest, packet, before', by rw [split]; rfl, ?_, read_,
        found⟩
      intro earlier mem
      rcases mem_cons.mp mem with rfl | mem
      · exact on
      · exact each earlier mem
    rw [pingLoop] at answer
    cases packet : read.packet with
    | none =>
      rw [packet] at answer
      dsimp only at answer
      split_ifs at answer with late
      · cases answer
      refine goesOn ⟨Bool.eq_false_iff.mpr late, ?_⟩ ⟨reason, answer⟩
      intro bytes some_
      rw [packet] at some_
      cases some_
    | some bytes =>
      rw [packet] at answer
      dsimp only at answer
      cases result : pingPacket usi reason bytes with
      | error e => rw [result] at answer; cases answer
      | ok r =>
        obtain ⟨reason1, found⟩ := r
        rw [result] at answer
        cases found with
        | some a1 =>
          cases answer
          refine ⟨[], read, reads, bytes, reason, rfl, ?_, packet, result⟩
          intro earlier mem
          cases mem
        | none =>
          dsimp only [bind, Except.bind] at answer
          split_ifs at answer with late
          · cases answer
          refine goesOn ⟨Bool.eq_false_iff.mpr late, ?_⟩ ⟨reason1, answer⟩
          intro bytes' some_
          rw [packet] at some_
          cases some_
          exact unanswered_of_packet result

end

/-! ## Retired probes -/

/-- The probe that was answered is not among those outstanding of its host. -/
def Retired (usi : ScanInfo) (a : PingAnswer) : Prop :=
  ∀ hss ∈ usi.hosts, hss.ptr = a.hss.ptr →
    ∀ probe ∈ hss.probesOutstanding, probe.addr ≠ a.probe.addr

/-- Whenever an answer is found and `get_ping_pcap_result` returns, the probe is retired. -/
def PingsRetired (usi : ScanInfo) (reads : List PcapRead) : Prop :=
  ∀ reason a usi', pingLoop usi .noResponse reads = .ok (some (reason, a)) →
    getPingPcapResult usi reads = .ok (true, usi') → Retired usi' a

section

variable {hss : HostScanStats} {g : GroupProbes} {probe : UltraProbe}

theorem destroyOutstandingProbe_erases :
    Meets (fun _ => True) (fun s : HostScanStats × GroupProbes => s.1.ptr = hss.ptr ∧
        s.1.probesOutstanding = hss.probesOutstanding.erase probe)
      (destroyOutstandingProbe hss g probe) := by
  have passes : ∀ {α : Type} (x : Except Failure α), Meets (fun _ => True) (fun _ => True) x := by
    intro α x
    cases x <;> trivial
  rw [destroyOutstandingProbe]
  split
  · trivial
  apply Meets.bind (passes _)
  intro active _
  apply Meets.bind (passes _)
  intro waiting _
  apply Meets.bind (passes _)
  intro csi _
  exact ⟨rfl, rfl⟩

theorem destroyAllOutstandingProbes_erases :
    Meets (fun _ => True) (fun s : HostScanStats × GroupProbes => s.1.ptr = hss.ptr ∧
        ∀ probe ∈ s.1.probesOutstanding, probe ∈ hss.probesOutstanding)
      (destroyAllOutstandingProbes hss g) := by
  apply Meets.foldlM
  · exact ⟨rfl, fun probe mem => mem⟩
  · rintro ⟨hss1, g1⟩ ⟨same, kept⟩ probe _
    apply destroyOutstandingProbe_erases.mono
    rintro ⟨hss2, g2⟩ ⟨same', erased⟩
    refine ⟨same'.trans same, ?_⟩
    intro other mem
    rw [erased] at mem
    exact kept other (mem_of_mem_erase mem)

theorem ultrascanHostProbeUpdate_erases {cfg : Config} {newstate : HostState} {hint : Bool} :
    Meets (fun _ => True) (fun s : HostScanStats × GroupProbes => s.1.ptr = hss.ptr ∧
        s.1.probesOutstanding = hss.probesOutstanding.erase probe)
      (ultrascanHostProbeUpdate cfg hss g probe newstate hint) := by
  have same := (hostPspecUpdate_same hss newstate).trans
    (changePingprobe_same cfg _ (hint && decide (newstate = .up)) probe.pspec .unknown)
  have ptr : ((ultrascanHostPspecUpdate hss newstate).changePingprobe cfg
      (hint && decide (newstate = .up)) probe.pspec .unknown).ptr = hss.ptr := by
    rw [HostScanStats.changePingprobe, ultrascanHostPspecUpdate]
    split_ifs <;> rfl
  apply destroyOutstandingProbe_erases.mono
  rintro ⟨hss', g'⟩ ⟨ptr', erased⟩
  exact ⟨ptr'.trans ptr, erased.trans (by rw [same.probes])⟩

theorem retired_of_write {usi : ScanInfo} {a : PingAnswer}
    (distinct : (a.hss.probesOutstanding.map (·.addr)).Nodup)
    (mem : a.probe ∈ a.hss.probesOutstanding) {hss : HostScanStats}
    (ptr : hss.ptr = a.hss.ptr)
    (erased : ∀ probe ∈ hss.probesOutstanding, probe ∈ a.hss.probesOutstanding.erase a.probe)
    (g : GroupProbes) :
    Retired (usi.write hss g) a := by
  intro hss' host same probe outstanding addr
  -- the host is the one that was written
  have written : hss' = hss := by
    have host : hss' ∈ writeHost usi.incompleteHosts hss ++ writeHost usi.completedHosts hss :=
      host
    rw [writeHost, writeHost, ← map_append] at host
    obtain ⟨old, -, rfl⟩ := mem_map.mp host
    split_ifs at same ⊢ with written
    · rfl
    · exact absurd (same.trans ptr.symm) written
  rw [written] at outstanding
  have kept := erased probe outstanding
  have nodup : a.hss.probesOutstanding.Nodup := distinct.of_map _
  rw [nodup.mem_erase_iff] at kept
  exact kept.1 (inj_on_of_nodup_map distinct kept.2 mem addr)

theorem pingUpdate_retires (usi : ScanInfo) (reason : ReasonCode) {a : PingAnswer}
    (distinct : (a.hss.probesOutstanding.map (·.addr)).Nodup)
    (mem : a.probe ∈ a.hss.probesOutstanding) (known : a.newstate ≠ .unknown) :
    Meets (fun _ => True) (fun usi' => Retired usi' a) (pingUpdate usi reason a) := by
  rw [pingUpdate, if_neg known]
  split_ifs with ping up
  · apply Meets.bind destroyOutstandingProbe_erases
    rintro ⟨hss, g⟩ ⟨ptr, erased⟩
    exact retired_of_write distinct mem ptr (fun other mem => erased ▸ mem) g
  · apply Meets.bind ultrascanHostProbeUpdate_erases
    rintro ⟨hss1, g1⟩ ⟨ptr1, erased⟩
    apply Meets.bind destroyAllOutstandingProbes_erases
    rintro ⟨hss2, g2⟩ ⟨ptr2, kept⟩
    show Retired (usi.write _ g2) a
    apply retired_of_write distinct mem
    · exact ptr2.trans ptr1
    · exact fun other mem => erased ▸ kept other mem
  · apply Meets.bind ultrascanHostProbeUpdate_erases
    rintro ⟨hss1, g1⟩ ⟨ptr1, erased⟩
    show Retired (usi.write _ g1) a
    apply retired_of_write distinct mem
    · exact ptr1
    · exact fun other mem => erased ▸ mem

end

/-- Every answered ping probe is retired exactly if the first packet that answers is not an
unclear error. -/
theorem pings_retired_iff (usi : ScanInfo) (reads : List PcapRead)
    (distinct : ∀ hss ∈ usi.hosts, (hss.probesOutstanding.map (·.addr)).Nodup) :
    PingsRetired usi reads ↔ ¬ FirstUnclear usi reads := by
  constructor
  · rintro retired ⟨before, read, rest, packet, rfl, on, read_, unclear⟩
    obtain ⟨reason, ends⟩ := pingLoop_append .noResponse on (read :: rest)
    obtain ⟨reason', a, answer, ⟨host, mem⟩, unknown⟩ :=
      pingPacket_unclear reason unclear
    have loop : pingLoop usi .noResponse (before ++ read :: rest) = .ok (some (reason', a)) := by
      rw [ends, pingLoop, read_]
      dsimp only
      rw [answer]
      rfl
    have result : getPingPcapResult usi (before ++ read :: rest) = .ok (true, usi) := by
      rw [getPingPcapResult, loop]
      show (pingUpdate usi reason' a >>= _) = _
      rw [pingUpdate, if_pos unknown]
      rfl
    exact retired reason' a usi loop result a.hss host rfl a.probe mem rfl
  · intro clear reason a usi' loop result
    obtain ⟨before, read, rest, packet, reason', split, on, read_, answer⟩ := pingLoop_answer loop
    obtain ⟨⟨host, mem⟩, unclear⟩ := pingPacket_answer answer
    have known : a.newstate ≠ .unknown := by
      intro unknown
      exact clear ⟨before, read, rest, packet, split, on, read_, unclear unknown⟩
    have retires := pingUpdate_retires usi reason (distinct a.hss host) mem known
    rw [getPingPcapResult, loop] at result
    cases update : pingUpdate usi reason a with
    | error e =>
      dsimp only [bind, Except.bind] at result
      rw [update] at result
      cases result
    | ok usi1 =>
      dsimp only [bind, Except.bind] at result
      rw [update] at result
      cases result
      exact retires.of_ok update

/-! A host that is pinged with an ICMP echo request, the identifier of which is 0x1234 -/

def echoPing : Config where
  scantype := .pingScan
  ports := ⟨[], [], [], [], [], [], [], [], []⟩
  pingtype := ⟨true, false, false, false, false, false, false, false, false, false⟩
  isr00t := true
  ipv6 := false
  scanflags := none
  maxRetransmissions := 10
  defeatRstRatelimit := false
  defeatIcmpRatelimit := false
  discoveryIgnoreRst := false
  udpPayloadCount := fun _ => 0

def echoProbe : UltraProbe where
  addr := 1
  type := .ip
  pspec := ⟨.icmp, 1, .icmp 8 0⟩
  tryno := ⟨false, 0⟩
  timedout := false
  retransmitted := false
  sent := .zero
  prevSent := .zero
  ipid := 5
  extra := .icmp 0x1234
  sd := -1

/-- The host 198.51.100.7, scanned from 192.0.2.1 -/
def echoScan : ScanInfo where
  cfg := echoPing
  sourceAddr := [192, 0, 2, 1]
  incompleteHosts := [(HostScanStats.new 0 [198, 51, 100, 7]).setProbes [echoProbe] 1 0]
  completedHosts := []
  seqmask := 0
  magicPortSet := false
  group := ⟨1, 1, ⟨-1, []⟩⟩

/-- "Host unreachable", from the router 192.0.2.254 -/
def hostUnreachable : Bytes :=
  ipv4Packet 1 [192, 0, 2, 254] [192, 0, 2, 1]
    ([3, 1, 0, 0, 0, 0, 0, 0] ++
      ipv4Packet 1 [192, 0, 2, 1] [198, 51, 100, 7] [8, 0, 0, 0, 0x12, 0x34, 0, 0])

/-- "Protocol unreachable", from the host itself -/
def protocolUnreachable : Bytes :=
  ipv4Packet 1 [198, 51, 100, 7] [192, 0, 2, 1]
    ([3, 2, 0, 0, 0, 0, 0, 0] ++
      ipv4Packet 1 [192, 0, 2, 1] [198, 51, 100, 7] [8, 0, 0, 0, 0x12, 0x34, 0, 0])

theorem pings_retired_protocol :
    PingsRetired echoScan [⟨some protocolUnreachable, false⟩] ↔
      ¬ FirstUnclear echoScan [⟨some protocolUnreachable, false⟩] :=
  pings_retired_iff echoScan [⟨some protocolUnreachable, false⟩] (by
    intro hss host
    rw [mem_singleton.mp host]
    exact nodup_singleton _)

/-- The router's error is an answer, but the probe is still outstanding. -/
theorem hostUnreachable_not_retired :
    getPingPcapResult echoScan [⟨some hostUnreachable, false⟩] = .ok (true, echoScan) ∧
      ¬ PingsRetired echoScan [⟨some hostUnreachable, false⟩] := by
  obtain ⟨reason, a, loop, host, probe, unknown⟩ : ∃ reason a,
      pingLoop echoScan .noResponse [⟨some hostUnreachable, false⟩] = .ok (some (reason, a)) ∧
        a.hss ∈ echoScan.hosts ∧ a.probe ∈ a.hss.probesOutstanding ∧ a.newstate = .unknown :=
    ⟨_, _, rfl, mem_cons_self, mem_cons_self, rfl⟩
  have result :
      getPingPcapResult echoScan [⟨some hostUnreachable, false⟩] = .ok (true, echoScan) := by
    rw [getPingPcapResult, loop]
    show (pingUpdate echoScan reason a >>= _) = _
    rw [pingUpdate, if_pos unknown]
    rfl
  refine ⟨result, ?_⟩
  intro retired
  exact retired reason a echoScan loop result a.hss host rfl a.probe probe rfl

end Nmap.ScanEngine
