import Nmap.Packet.IpData
import Nmap.ScanEngine.TryNumbers
import Nmap.ScanEngine.Updates

/-!
# Matching packets with probes (`scan_engine.cc`, `scan_engine_raw.cc`)

What both receivers use: how a host is found by its address, and the conditions on which a
probe takes a packet for its answer. The receivers go through the outstanding probes of a host
from the newest one back.
-/

namespace Nmap.ScanEngine

open Nmap.Base Nmap.Packet List
open Nmap.Ports (ReasonCode)

/-- The parts of `UltraScanInfo` and of the options that the receivers read -/
structure ScanInfo where
  cfg : Config
  /-- `SourceSockAddr` -/
  sourceAddr : Addr
  incompleteHosts : List HostScanStats
  completedHosts : List HostScanStats
  seqmask : UInt32
  magicPortSet : Bool
  group : GroupProbes

def ScanInfo.hosts (usi : ScanInfo) : List HostScanStats :=
  usi.incompleteHosts ++ usi.completedHosts

def ScanInfo.findHost (usi : ScanInfo) (ss : Addr) : Option HostScanStats :=
  usi.incompleteHosts.find? (·.sockAddr = ss) <|> usi.completedHosts.find? (·.sockAddr = ss)

/-- What is written through a pointer to a host -/
def writeHost (hosts : List HostScanStats) (hss : HostScanStats) : List HostScanStats :=
  hosts.map fun old => if old.ptr = hss.ptr then hss else old

def ScanInfo.write (usi : ScanInfo) (hss : HostScanStats) (g : GroupProbes) : ScanInfo :=
  { usi with
    incompleteHosts := writeHost usi.incompleteHosts hss
    completedHosts := writeHost usi.completedHosts hss
    group := g }

/-- The first of the outstanding probes, from the newest one back -/
def HostScanStats.findProbe (hss : HostScanStats) (wanted : UltraProbe → Bool) :
    Option UltraProbe :=
  hss.probesOutstanding.reverse.find? wanted

namespace UltraProbe

variable (probe : UltraProbe)

/-! The members of the union are read only where the protocol is theirs. -/

def tcpseq : UInt32 :=
  match probe.extra with
  | .tcp _ seq => seq
  | _ => 0

def sctpvtag : UInt32 :=
  match probe.extra with
  | .sctp _ vtag => vtag
  | _ => 0

def icmpid : UInt16 :=
  match probe.extra with
  | .icmp ident => ident
  | _ => 0

/-- `pspec()->pd.icmp.type` -/
def icmpType : UInt8 :=
  match probe.pspec.pd with
  | .icmp icmpType _ => icmpType
  | _ => 0

/-- `pspec()->pd.tcp.flags` -/
def tcpFlags : UInt8 :=
  match probe.pspec.pd with
  | .tcp _ flags => flags
  | _ => 0

def checkTryno (tryno : UInt8) : Bool := tryno = probe.tryno.byte

def checkProtoPort (proto : UInt8) (sportOrIcmpid dport : UInt16) : Bool :=
  if proto ≠ probe.pspec.proto then false
  else if proto = 1 || proto = 58 then sportOrIcmpid = probe.icmpid
  else if proto = 6 || proto = 17 || proto = 132 then
    sportOrIcmpid = probe.sport && dport = probe.dport
  else false

/-- "We saw the packet we ourselves sent": the ports, the addresses and the identifier -/
def sawOwn (hdr : IpHdr) : Bool :=
  probe.dport = probe.sport && hdr.src = hdr.dst && probe.ipid = hdr.ipid

/-- `icmp_probe_match`, for the `ppkt` in the data of a packet -/
def icmpProbeMatch (hdr : IpHdr) (ping : Bytes) : Bool :=
  if !probe.checkProtoPort hdr.proto (u16At ping 4) 0 then false
  else if hdr.proto = 1 && (byteAt ping 0 = 0 && probe.icmpType ≠ 8 ||
      byteAt ping 0 = 14 && probe.icmpType ≠ 13 || byteAt ping 0 = 18 && probe.icmpType ≠ 17) then
    false
  else if hdr.proto = 58 && (byteAt ping 0 = 129 && probe.icmpType ≠ 128) then false
  else !probe.sawOwn hdr

end UltraProbe

/-! ## Headers -/

structure TcpHdr where
  sport : UInt16
  dport : UInt16
  seq : UInt32
  ack : UInt32
  flags : UInt8
  win : UInt16
  deriving DecidableEq, Repr

def tcpHdr (data : Bytes) : TcpHdr :=
  ⟨u16At data 0, u16At data 2, u32At data 4, u32At data 8, byteAt data 13, u16At data 14⟩

def ScanInfo.tcpProbeMatch (usi : ScanInfo) (probe : UltraProbe) (tcp : TcpHdr) (hdr : IpHdr) :
    Bool :=
  let tryno := if usi.magicPortSet then
      (decodeTryno usi.seqmask tcp.ack tcp.seq).any probe.checkTryno
    else true
  if !tryno then false
  -- a SYN/ACK answers a SYN probe only
  else if tcp.flags &&& 0x12 = 0x12 && probe.tcpFlags &&& 0x02 = 0 then false
  else !probe.sawOwn hdr

def icmpToReason (proto icmpType icmpCode : UInt8) : ReasonCode :=
  if proto = 1 then Ports.icmpv4ToReason icmpType icmpCode
  else if proto = 58 then Ports.icmpv6ToReason icmpType icmpCode
  else .unknown

/-- A turn of the receive loop -/
structure PcapRead where
  /-- the packet of `readip_pcap`, if there was one in time -/
  packet : Option Bytes
  /-- without a packet: the time is up; with one: it was up 200 ms ago -/
  late : Bool
  deriving DecidableEq, Repr

/-! ## Finding -/

theorem findM?_mem {α ε : Type} {p : α → Except ε Bool} {l : List α} {x : α}
    (found : l.findM? p = .ok (some x)) : x ∈ l := by
  induction l with
  | nil => cases found
  | cons first rest ih =>
    rw [List.findM?] at found
    cases here : p first with
    | error e => rw [here] at found; cases found
    | ok b =>
      rw [here] at found
      cases b with
      | true => cases found; exact mem_cons_self
      | false => exact mem_cons_of_mem first (ih found)

theorem findProbe_mem {hss : HostScanStats} {wanted : UltraProbe → Bool} {probe : UltraProbe}
    (found : hss.findProbe wanted = some probe) : probe ∈ hss.probesOutstanding :=
  mem_reverse.mp (mem_of_find?_eq_some found)

theorem findHost_mem {usi : ScanInfo} {ss : Addr} {hss : HostScanStats}
    (found : usi.findHost ss = some hss) : hss ∈ usi.hosts := by
  rw [ScanInfo.findHost, Option.orElse_eq_orElse, Option.orElse_eq_or, Option.or_eq_some_iff]
    at found
  apply mem_append.mpr
  rcases found with incomplete | ⟨-, completed⟩
  · exact Or.inl (mem_of_find?_eq_some incomplete)
  · exact Or.inr (mem_of_find?_eq_some completed)

end Nmap.ScanEngine
