import Nmap.Ports.Responses

/-!
# Probes to send (`scan_engine.cc`, `probespec.h`)

The settings that `UltraScanInfo::Init` derives from the scan type and the options, and
the supply of fresh probes of a host: `get_next_target_probe` and `freshPortsLeft`.
-/

namespace Nmap.ScanEngine

open Option

open Nmap.Ports (ScanType)

/-! ## Probe specifications -/

/-- `PS_NONE` to `PS_ND` -/
inductive PspecType
  | none
  | tcp
  | udp
  | proto
  | icmp
  | arp
  | connectTcp
  | sctp
  | icmpv6
  | nd
  deriving DecidableEq, Repr

/-- The chunk types that are sent -/
inductive SctpChunk
  | init
  | cookieEcho
  deriving DecidableEq, Repr

/-- The union `pd` of a `probespec` -/
inductive ProbeData
  | none
  | tcp (dport : UInt16) (flags : UInt8)
  | udp (dport : UInt16)
  | sctp (dport : UInt16) (chunktype : SctpChunk)
  | icmp (icmpType icmpCode : UInt8)
  deriving DecidableEq, Repr

/-- `probespec`. The member `icmpv6` of the union is laid out as `icmp` is. -/
structure ProbeSpec where
  type : PspecType
  proto : UInt8
  pd : ProbeData
  deriving DecidableEq, Repr

/-- A `probespec` set to zeros -/
def ProbeSpec.zero : ProbeSpec := ⟨.none, 0, .none⟩

/-! ## Settings -/

/-- `scantype`, as far as `ultra_scan` is run with it -/
inductive Stype
  | portScan (scan : ScanType)
  | pingScan
  | pingScanArp
  | pingScanNd
  deriving DecidableEq, Repr

/-- The bits of `o.pingtype` -/
structure Pingtype where
  icmpPing : Bool
  icmpMask : Bool
  icmpTs : Bool
  tcp : Bool
  tcpUseAck : Bool
  tcpUseSyn : Bool
  connectTcp : Bool
  udp : Bool
  proto : Bool
  sctpInit : Bool
  deriving DecidableEq, Repr

/-- `scan_lists`; the counts are the lengths. -/
structure ScanLists where
  synPingPorts : List UInt16
  ackPingPorts : List UInt16
  udpPingPorts : List UInt16
  sctpPingPorts : List UInt16
  protoPingPorts : List UInt16
  tcpPorts : List UInt16
  udpPorts : List UInt16
  sctpPorts : List UInt16
  prots : List UInt16
  deriving DecidableEq, Repr

/-- What stays the same while `ultra_scan` runs -/
structure Config where
  scantype : Stype
  ports : ScanLists
  pingtype : Pingtype
  isr00t : Bool
  /-- the targets' `af()` is `AF_INET6` -/
  ipv6 : Bool
  /-- `o.scanflags`, unless it is -1 -/
  scanflags : Option UInt8
  /-- `perf.tryno_cap` is set to it -/
  maxRetransmissions : Nat
  defeatRstRatelimit : Bool
  defeatIcmpRatelimit : Bool
  discoveryIgnoreRst : Bool
  /-- `udp_payload_count` of `payload.cc` -/
  udpPayloadCount : UInt16 → Nat

/-- What can stop the program: an `assert`, a call of `fatal`, an unsigned counter that
is taken below zero, a probe that is used after it was destroyed -/
inductive Failure
  | assertion
  | fatal
  | underflow
  | dangling
  deriving DecidableEq, Repr

namespace Config

variable (cfg : Config)

def tcpScan : Bool :=
  match cfg.scantype with
  | .portScan .udp | .portScan .sctpInit | .portScan .sctpCookieEcho | .portScan .ipProt => false
  | .portScan _ => true
  | _ => false

def udpScan : Bool := cfg.scantype = .portScan .udp

def sctpScan : Bool :=
  cfg.scantype = .portScan .sctpInit || cfg.scantype = .portScan .sctpCookieEcho

def protScan : Bool := cfg.scantype = .portScan .ipProt

/-- "Includes trad. ping scan & arp scan" -/
def pingScan : Bool :=
  cfg.scantype = .pingScan || cfg.scantype = .pingScanArp || cfg.scantype = .pingScanNd

def pingScanArp : Bool := cfg.scantype = .pingScanArp

def pingScanNd : Bool := cfg.scantype = .pingScanNd

def connectScan : Bool := cfg.scantype = .portScan .connect

def norespOpenScan : Bool :=
  match cfg.scantype with
  | .portScan scan => scan.norespOpenScan
  | _ => false

/-- The members of `ptech`, which are set for `PING_SCAN` only -/
def ptech (selected : Bool) : Bool := decide (cfg.scantype = .pingScan) && selected

def rawicmpscan : Bool :=
  cfg.ptech (cfg.pingtype.icmpPing || cfg.pingtype.icmpMask || cfg.pingtype.icmpTs)

def rawudpscan : Bool := cfg.ptech cfg.pingtype.udp

def rawsctpscan : Bool := cfg.ptech cfg.pingtype.sctpInit

def rawtcpscan : Bool := cfg.ptech (cfg.pingtype.tcp && cfg.isr00t)

def rawprotoscan : Bool := cfg.ptech cfg.pingtype.proto

def connecttcpscan : Bool :=
  cfg.ptech (cfg.pingtype.tcp && !cfg.isr00t || cfg.pingtype.connectTcp)

def isRawScan : Bool :=
  !cfg.connectScan &&
    (cfg.tcpScan || cfg.udpScan || cfg.sctpScan || cfg.protScan || cfg.pingScanArp ||
      cfg.pingScanNd || (cfg.pingScan && (cfg.rawicmpscan || cfg.rawtcpscan || cfg.rawudpscan ||
        cfg.rawsctpscan || cfg.rawprotoscan)))

/-- Whether there is a `ConnectScanInfo` -/
def connects : Bool := cfg.connectScan || cfg.connecttcpscan

def numProbesPerHost : Nat :=
  if cfg.tcpScan then cfg.ports.tcpPorts.length
  else if cfg.udpScan then cfg.ports.udpPorts.length
  else if cfg.sctpScan then cfg.ports.sctpPorts.length
  else if cfg.protScan then cfg.ports.prots.length
  else if cfg.pingScanArp || cfg.pingScanNd then 1
  else
    (if cfg.rawtcpscan && cfg.pingtype.tcpUseAck then cfg.ports.ackPingPorts.length else 0) +
    (if cfg.rawtcpscan && cfg.pingtype.tcpUseSyn then cfg.ports.synPingPorts.length else 0) +
    (if cfg.rawudpscan then cfg.ports.udpPingPorts.length else 0) +
    (if cfg.rawsctpscan then cfg.ports.sctpPingPorts.length else 0) +
    (if cfg.rawicmpscan && cfg.pingtype.icmpPing then 1 else 0) +
    (if cfg.rawicmpscan && cfg.pingtype.icmpMask then 1 else 0) +
    (if cfg.rawicmpscan && cfg.pingtype.icmpTs then 1 else 0) +
    (if cfg.rawprotoscan then cfg.ports.protoPingPorts.length else 0) +
    (if cfg.connecttcpscan then cfg.ports.synPingPorts.length else 0)

end Config

/-- The probes that scan with these settings -/
def Config.Scans (cfg : Config) (pspec : ProbeSpec) : Prop :=
  match pspec.type with
  | .tcp => pspec.proto = 6 ∧ cfg.connectScan = false
  | .udp => pspec.proto = 17
  | .sctp => pspec.proto = 132
  | .icmp => pspec.proto = 1
  | .icmpv6 => pspec.proto = 58
  | .proto => cfg.protScan = true ∨ cfg.rawprotoscan = true
  | .arp => cfg.pingScanArp = true
  | .nd => cfg.pingScanNd = true
  | .connectTcp => cfg.connects = true
  | .none => False

/-! ## The supply of a host -/

/-- The fields of `HostScanStats` that say which probes were taken -/
structure Supply where
  nextPortidx : Nat := 0
  sentArp : Bool := false
  nextAckportpingidx : Nat := 0
  nextSynportpingidx : Nat := 0
  nextUdpportpingidx : Nat := 0
  nextSctpportpingidx : Nat := 0
  nextProtoportpingidx : Nat := 0
  sentIcmpPing : Bool := false
  sentIcmpMask : Bool := false
  sentIcmpTs : Bool := false
  deriving DecidableEq, Repr

namespace Supply

variable (cfg : Config) (s : Supply)

/-- The flags of the TCP probes of a raw port scan -/
def scanFlags (scan : ScanType) : Except Failure UInt8 :=
  match cfg.scanflags with
  | some flags => .ok flags
  | none =>
    match scan with
    | .syn => .ok 0x02
    | .ack => .ok 0x10
    | .xmas => .ok 0x29
    | .null => .ok 0x00
    | .fin => .ok 0x01
    | .maimon => .ok 0x11
    | .window => .ok 0x10
    | _ => .error .assertion

/-- The probe for a port of the list of a port scan -/
def portSpec (scan : ScanType) (port : UInt16) : Except Failure ProbeSpec :=
  match scan with
  | .udp => .ok ⟨.udp, 17, .udp port⟩
  | .sctpInit => .ok ⟨.sctp, 132, .sctp port .init⟩
  | .sctpCookieEcho => .ok ⟨.sctp, 132, .sctp port .cookieEcho⟩
  -- the conversion from `unsigned short` to `u8`
  | .ipProt => .ok ⟨.proto, port.toUInt8, .none⟩
  | .connect => .ok ⟨.connectTcp, 6, .tcp port 0x02⟩
  | scan => do
    let flags ← scanFlags cfg scan
    .ok ⟨.tcp, 6, .tcp port flags⟩

def scanPorts (scan : ScanType) : List UInt16 :=
  match scan with
  | .udp => cfg.ports.udpPorts
  | .sctpInit | .sctpCookieEcho => cfg.ports.sctpPorts
  | .ipProt => cfg.ports.prots
  | _ => cfg.ports.tcpPorts

/-- The next probe of a port scan; `none` stands for -1. -/
def nextPort (scan : ScanType) : Except Failure (Option (ProbeSpec × Supply)) :=
  match (scanPorts cfg scan)[s.nextPortidx]? with
  | none => .ok none
  | some port => do
    let pspec ← portSpec cfg scan port
    .ok (some (pspec, { s with nextPortidx := s.nextPortidx + 1 }))

/-! The pings of `PING_SCAN`, in the order in which they are tried -/

def nextIcmpPing : Option (ProbeSpec × Supply) :=
  if cfg.rawicmpscan && cfg.pingtype.icmpPing && !s.sentIcmpPing then
    some (if cfg.ipv6 then ⟨.icmpv6, 58, .icmp 128 0⟩ else ⟨.icmp, 1, .icmp 8 0⟩,
      { s with sentIcmpPing := true })
  else none

def nextSynPing : Option (ProbeSpec × Supply) :=
  if cfg.rawtcpscan && cfg.pingtype.tcpUseSyn then
    cfg.ports.synPingPorts[s.nextSynportpingidx]?.map fun port =>
      (⟨.tcp, 6, .tcp port 0x02⟩, { s with nextSynportpingidx := s.nextSynportpingidx + 1 })
  else none

def nextAckPing : Option (ProbeSpec × Supply) :=
  if cfg.rawtcpscan && cfg.pingtype.tcpUseAck then
    cfg.ports.ackPingPorts[s.nextAckportpingidx]?.map fun port =>
      (⟨.tcp, 6, .tcp port 0x10⟩, { s with nextAckportpingidx := s.nextAckportpingidx + 1 })
  else none

def nextIcmpTs : Option (ProbeSpec × Supply) :=
  if cfg.rawicmpscan && cfg.pingtype.icmpTs && !s.sentIcmpTs then
    some (⟨.icmp, 1, .icmp 13 0⟩, { s with sentIcmpTs := true })
  else none

def nextUdpPing : Option (ProbeSpec × Supply) :=
  if cfg.rawudpscan then
    cfg.ports.udpPingPorts[s.nextUdpportpingidx]?.map fun port =>
      (⟨.udp, 17, .udp port⟩, { s with nextUdpportpingidx := s.nextUdpportpingidx + 1 })
  else none

def nextSctpPing : Option (ProbeSpec × Supply) :=
  if cfg.rawsctpscan then
    cfg.ports.sctpPingPorts[s.nextSctpportpingidx]?.map fun port =>
      (⟨.sctp, 132, .sctp port .init⟩,
        { s with nextSctpportpingidx := s.nextSctpportpingidx + 1 })
  else none

def nextProtoPing : Option (ProbeSpec × Supply) :=
  if cfg.rawprotoscan then
    cfg.ports.protoPingPorts[s.nextProtoportpingidx]?.map fun port =>
      (⟨.proto, port.toUInt8, .none⟩,
        { s with nextProtoportpingidx := s.nextProtoportpingidx + 1 })
  else none

def nextConnectPing : Option (ProbeSpec × Supply) :=
  if cfg.connecttcpscan then
    cfg.ports.synPingPorts[s.nextSynportpingidx]?.map fun port =>
      (⟨.connectTcp, 6, .tcp port 0x02⟩,
        { s with nextSynportpingidx := s.nextSynportpingidx + 1 })
  else none

def nextIcmpMask : Option (ProbeSpec × Supply) :=
  if cfg.rawicmpscan && cfg.pingtype.icmpMask && !s.sentIcmpMask then
    some (⟨.icmp, 1, .icmp 17 0⟩, { s with sentIcmpMask := true })
  else none

def nextPing : Option (ProbeSpec × Supply) :=
  s.nextIcmpPing cfg <|> s.nextSynPing cfg <|> s.nextAckPing cfg <|> s.nextIcmpTs cfg <|>
    s.nextUdpPing cfg <|> s.nextSctpPing cfg <|> s.nextProtoPing cfg <|>
    s.nextConnectPing cfg <|> s.nextIcmpMask cfg

/-- `get_next_target_probe`; `none` stands for -1. -/
def nextTargetProbe : Except Failure (Option (ProbeSpec × Supply)) :=
  match cfg.scantype with
  | .portScan scan => s.nextPort cfg scan
  | .pingScanArp =>
    .ok (if s.sentArp then none else some (⟨.arp, 0, .none⟩, { s with sentArp := true }))
  | .pingScanNd =>
    .ok (if s.sentArp then none else some (⟨.nd, 0, .none⟩, { s with sentArp := true }))
  | .pingScan =>
    match s.nextPing cfg with
    | some next => .ok (some next)
    | none => .error .assertion

def freshPortsLeft : Bool :=
  match cfg.scantype with
  | .portScan scan => s.nextPortidx < (scanPorts cfg scan).length
  | .pingScanArp | .pingScanNd => !s.sentArp
  | .pingScan =>
    cfg.rawtcpscan &&
      (cfg.pingtype.tcpUseAck && s.nextAckportpingidx < cfg.ports.ackPingPorts.length ||
        cfg.pingtype.tcpUseSyn && s.nextSynportpingidx < cfg.ports.synPingPorts.length) ||
    cfg.rawicmpscan &&
      (cfg.pingtype.icmpPing && !s.sentIcmpPing || cfg.pingtype.icmpMask && !s.sentIcmpMask ||
        cfg.pingtype.icmpTs && !s.sentIcmpTs) ||
    cfg.connecttcpscan && s.nextSynportpingidx < cfg.ports.synPingPorts.length ||
    cfg.rawudpscan && s.nextUdpportpingidx < cfg.ports.udpPingPorts.length ||
    cfg.rawsctpscan && s.nextSctpportpingidx < cfg.ports.sctpPingPorts.length ||
    cfg.rawprotoscan && s.nextProtoportpingidx < cfg.ports.protoPingPorts.length

/-! ## What is taken from it -/

variable {cfg} {s}

theorem portSpec_ok (scan : ScanType) (scantype : cfg.scantype = .portScan scan)
    (port : UInt16) : ∃ pspec, portSpec cfg scan port = .ok pspec ∧ cfg.Scans pspec := by
  cases scan with
  | syn | ack | fin | xmas | null | maimon | window =>
    cases flags : cfg.scanflags <;>
      simp [portSpec, scanFlags, flags, Config.Scans, Config.connectScan, scantype, bind,
        Except.bind]
  | _ => simp [portSpec, Config.Scans, Config.connects, Config.connectScan, Config.protScan,
      scantype]

theorem nextPort_ok {scan : ScanType} (scantype : cfg.scantype = .portScan scan)
    (left : s.nextPortidx < (scanPorts cfg scan).length) :
    ∃ pspec, portSpec cfg scan (scanPorts cfg scan)[s.nextPortidx] = .ok pspec ∧
      cfg.Scans pspec ∧
      s.nextPort cfg scan =
        .ok (some (pspec, { s with nextPortidx := s.nextPortidx + 1 })) := by
  obtain ⟨pspec, spec, scans⟩ := portSpec_ok scan scantype (scanPorts cfg scan)[s.nextPortidx]
  refine ⟨pspec, spec, scans, ?_⟩
  rw [nextPort, List.getElem?_eq_getElem left]
  simp [spec, bind, Except.bind]

/-- A member of `ptech` is set for `PING_SCAN` only. -/
theorem connectScan_of_ptech {selected : Bool} (set : cfg.ptech selected = true) :
    cfg.connectScan = false := by
  have ping : cfg.scantype = .pingScan := by
    have := (Bool.and_eq_true_iff.mp set).1
    simpa using this
  simp [Config.connectScan, ping]

theorem nextPing_scans {next : ProbeSpec × Supply} (found : s.nextPing cfg = some next) :
    cfg.Scans next.1 := by
  simp only [nextPing, orElse_eq_orElse, orElse_eq_or, or_eq_some_iff]
    at found
  rcases found with icmp | ⟨-, syn | ⟨-, ack | ⟨-, ts | ⟨-, udp | ⟨-, sctp | ⟨-, proto | ⟨-,
    connect | ⟨-, mask⟩⟩⟩⟩⟩⟩⟩⟩
  · simp only [nextIcmpPing, ite_none_right_eq_some, Option.some.injEq] at icmp
    obtain ⟨-, rfl⟩ := icmp
    cases cfg.ipv6 <;> simp [Config.Scans]
  · simp only [nextSynPing, ite_none_right_eq_some, map_eq_some_iff,
      Bool.and_eq_true] at syn
    obtain ⟨⟨raw, -⟩, port, -, rfl⟩ := syn
    exact ⟨rfl, connectScan_of_ptech raw⟩
  · simp only [nextAckPing, ite_none_right_eq_some, map_eq_some_iff,
      Bool.and_eq_true] at ack
    obtain ⟨⟨raw, -⟩, port, -, rfl⟩ := ack
    exact ⟨rfl, connectScan_of_ptech raw⟩
  · simp only [nextIcmpTs, ite_none_right_eq_some, Option.some.injEq] at ts
    obtain ⟨-, rfl⟩ := ts
    exact rfl
  · simp only [nextUdpPing, ite_none_right_eq_some, map_eq_some_iff] at udp
    obtain ⟨-, port, -, rfl⟩ := udp
    exact rfl
  · simp only [nextSctpPing, ite_none_right_eq_some, map_eq_some_iff] at sctp
    obtain ⟨-, port, -, rfl⟩ := sctp
    exact rfl
  · simp only [nextProtoPing, ite_none_right_eq_some, map_eq_some_iff] at proto
    obtain ⟨raw, port, -, rfl⟩ := proto
    exact Or.inr raw
  · simp only [nextConnectPing, ite_none_right_eq_some, map_eq_some_iff]
      at connect
    obtain ⟨connects, port, -, rfl⟩ := connect
    simp [Config.Scans, Config.connects, connects]
  · simp only [nextIcmpMask, ite_none_right_eq_some, Option.some.injEq] at mask
    obtain ⟨-, rfl⟩ := mask
    exact rfl

theorem nextPing_isSome (scantype : cfg.scantype = .pingScan)
    (left : s.freshPortsLeft cfg = true) : ∃ next, s.nextPing cfg = some next := by
  have unless_none (none : s.nextPing cfg = none) : s.freshPortsLeft cfg = false := by
    simp only [nextPing, orElse_eq_orElse, orElse_eq_or, or_eq_none_iff]
      at none
    obtain ⟨icmp, syn, ack, ts, udp, sctp, proto, connect, mask⟩ := none
    simp only [nextIcmpPing, nextSynPing, nextAckPing, nextIcmpTs, nextUdpPing, nextSctpPing,
      nextProtoPing, nextConnectPing, nextIcmpMask, ite_eq_right_iff, map_eq_none_iff,
      List.getElem?_eq_none_iff, reduceCtorEq, imp_false, Bool.not_eq_true]
      at icmp syn ack ts udp sctp proto connect mask
    simp only [freshPortsLeft, scantype]
    grind
  cases found : s.nextPing cfg with
  | none => rw [unless_none found] at left; cases left
  | some next => exact ⟨next, rfl⟩

theorem nextTargetProbe_fresh (left : s.freshPortsLeft cfg = true) :
    ∃ pspec s', s.nextTargetProbe cfg = .ok (some (pspec, s')) ∧ cfg.Scans pspec := by
  cases scantype : cfg.scantype with
  | portScan scan =>
    have inside : s.nextPortidx < (scanPorts cfg scan).length := by
      simpa [freshPortsLeft, scantype] using left
    obtain ⟨pspec, -, scans, next⟩ := nextPort_ok scantype inside
    refine ⟨pspec, { s with nextPortidx := s.nextPortidx + 1 }, ?_, scans⟩
    rw [nextTargetProbe, scantype]
    exact next
  | pingScanArp =>
    have fresh : s.sentArp = false := by simpa [freshPortsLeft, scantype] using left
    refine ⟨⟨.arp, 0, .none⟩, { s with sentArp := true }, ?_, ?_⟩
    · simp [nextTargetProbe, scantype, fresh]
    · simp [Config.Scans, Config.pingScanArp, scantype]
  | pingScanNd =>
    have fresh : s.sentArp = false := by simpa [freshPortsLeft, scantype] using left
    refine ⟨⟨.nd, 0, .none⟩, { s with sentArp := true }, ?_, ?_⟩
    · simp [nextTargetProbe, scantype, fresh]
    · simp [Config.Scans, Config.pingScanNd, scantype]
  | pingScan =>
    obtain ⟨⟨pspec, s'⟩, found⟩ := nextPing_isSome scantype left
    refine ⟨pspec, s', ?_, nextPing_scans found⟩
    simp [nextTargetProbe, scantype, found]

end Supply

end Nmap.ScanEngine
