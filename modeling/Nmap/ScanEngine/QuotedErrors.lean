import Nmap.ScanEngine.PingReplies
import Nmap.ScanEngine.PortReplies

/-!
# Errors that quote a probe (`scan_engine_raw.cc`)

A router that cannot deliver a probe quotes its IP header and at least 8 bytes of what follows.
Both receivers then look for the probe with these ports, and with this sequence number or
verification tag. These are in the first 8 bytes, and `get_pcap_result` asks for no more, but
`get_ping_pcap_result` for all of the TCP or SCTP header.
-/

namespace Nmap.ScanEngine

open Nmap.Base Nmap.Packet

/-! ## Finding a probe -/

/-- `get_ping_pcap_result` takes the packet for an answer to the probe. -/
def PingFinds (usi : ScanInfo) (packet : Bytes) (hss : HostScanStats) (probe : UltraProbe) :
    Prop :=
  ∃ reason a, pingPacket usi .noResponse packet = .ok (reason, some a) ∧ a.hss = hss ∧
    a.probe = probe

/-- In `get_pcap_result`, the search for the probe that an ICMP error is about ends with the
probe. -/
def PortFinds (usi : ScanInfo) (packet : Bytes) (hss : HostScanStats) (probe : UltraProbe) :
    Prop :=
  ∃ hdr data, ipGetData packet = some (hdr, data) ∧ usi.sourceAddr = hdr.dst ∧ hdr.proto = 1 ∧
    8 ≤ data.length ∧ (byteAt data 0 = 3 ∨ byteAt data 0 = 11) ∧
    portErrorProbe usi data ipGetData = .ok (some (hss, probe))

def ScanInfo.withCfg (usi : ScanInfo) (cfg : Config) : ScanInfo := { usi with cfg := cfg }

/-- A ping scan that sends raw probes of this protocol -/
structure Config.PingsWith (cfg : Config) (proto : UInt8) : Prop where
  tcp : proto = 6 → cfg.rawtcpscan = true
  udp : proto = 17 → cfg.rawudpscan = true
  sctp : proto = 132 → cfg.rawsctpscan = true

/-- A port scan of this protocol -/
structure Config.ScansPorts (cfg : Config) (proto : UInt8) : Prop where
  tcp : proto = 6 → cfg.tcpScan = true
  udp : proto = 17 → cfg.udpScan = true
  sctp : proto = 132 → cfg.sctpScan = true

/-- An ICMP destination unreachable error that quotes our IP header and at least 8 bytes of the
transport header of an outstanding probe -/
structure QuotesProbe (usi : ScanInfo) (packet quoted : Bytes) (probe : UltraProbe) : Prop where
  packet : ∃ hdr data encaps hss, ipGetData packet = some (hdr, data) ∧
    usi.sourceAddr = hdr.dst ∧ hdr.proto = 1 ∧ 8 ≤ data.length ∧ byteAt data 0 = 3 ∧
    ipGetData (data.drop 8) = some (encaps, quoted) ∧ usi.sourceAddr = encaps.src ∧
    usi.findHost encaps.dst = some hss ∧ probe ∈ hss.probesOutstanding ∧
    encaps.proto = probe.protocol
  transport : probe.protocol = 6 ∨ probe.protocol = 17 ∨ probe.protocol = 132
  long : 8 ≤ quoted.length
  sport : u16At quoted 0 = probe.sport
  dport : u16At quoted 2 = probe.dport
  seq : probe.protocol = 6 → u32At quoted 4 = probe.tcpseq
  vtag : probe.protocol = 132 → u32At quoted 4 = probe.sctpvtag

/-- What `get_ping_pcap_result` asks for of a header -/
def EnoughQuoted (proto : UInt8) (quoted : Bytes) : Prop :=
  (proto = 6 → 20 ≤ quoted.length) ∧ (proto = 132 → 12 ≤ quoted.length)

instance (proto : UInt8) (quoted : Bytes) : Decidable (EnoughQuoted proto quoted) :=
  inferInstanceAs (Decidable (_ ∧ _))

/-! ## The searches -/

/-- The ports, and the sequence number or the verification tag, are those of the probe. -/
def sameHeader (proto : UInt8) (quoted : Bytes) (probe : UltraProbe) : Bool :=
  probe.protocol = proto && u16At quoted 0 = probe.sport && u16At quoted 2 = probe.dport &&
    (proto ≠ 6 || u32At quoted 4 = probe.tcpseq) &&
    (proto ≠ 132 || u32At quoted 4 = probe.sctpvtag)

theorem findM?_ok {α ε : Type} (p : α → Bool) (l : List α) :
    l.findM? (fun x => (.ok (p x) : Except ε Bool)) = .ok (l.find? p) :=
  List.findM?_pure p l

section

variable {usi : ScanInfo} {encaps : IpHdr} {quoted : Bytes}

variable (quoted) in
theorem portQuoted_eq (transport : encaps.proto = 6 ∨ encaps.proto = 17 ∨ encaps.proto = 132)
    (probe : UltraProbe) :
    portQuoted encaps quoted probe = .ok (sameHeader encaps.proto quoted probe) := by
  rw [portQuoted]
  by_cases proto : probe.protocol = encaps.proto
  · rcases transport with tcp | udp | sctp
    · simp [sameHeader, proto, tcp]
    · simp [sameHeader, proto, udp]
    · simp [sameHeader, proto, sctp]
  · simp [sameHeader, proto]

theorem pingQuoted_eq (pings : usi.cfg.PingsWith encaps.proto)
    (transport : encaps.proto = 6 ∨ encaps.proto = 17 ∨ encaps.proto = 132)
    (long : 8 ≤ quoted.length) (probe : UltraProbe) :
    pingQuoted usi encaps quoted probe =
      .ok (sameHeader encaps.proto quoted probe && decide (EnoughQuoted encaps.proto quoted)) := by
  rw [pingQuoted]
  by_cases proto : probe.protocol = encaps.proto
  · rw [if_neg (not_not.mpr proto)]
    rcases transport with tcp | udp | sctp
    · have enough : EnoughQuoted encaps.proto quoted ↔ ¬quoted.length < 20 := by
        simp [EnoughQuoted, tcp]
      simp only [tcp, pings.tcp tcp]
      rw [if_neg (by simp), if_pos (by simp)]
      apply congrArg Except.ok
      rw [tcp] at proto enough
      rw [sameHeader, proto, Bool.eq_iff_iff]
      simp only [Bool.and_eq_true, Bool.or_eq_true, Bool.not_eq_true', decide_eq_true_eq,
        decide_eq_false_iff_not, enough]
      constructor
      · rintro ⟨⟨⟨full, dport⟩, sport⟩, seq⟩
        rw [← dport, ← sport, ← seq]
        simp [full]
      · rintro ⟨⟨⟨⟨⟨-, sport⟩, dport⟩, seq⟩, -⟩, full⟩
        have seq : u32At quoted 4 = probe.tcpseq := by simpa using seq
        rw [← dport, ← sport, ← seq]
        simp [full]
    · have enough : EnoughQuoted encaps.proto quoted ↔ ¬quoted.length < 8 := by
        simp [EnoughQuoted, udp]
        omega
      simp only [udp, pings.udp udp]
      rw [if_neg (by simp), if_neg (by simp), if_pos (by simp)]
      apply congrArg Except.ok
      rw [udp] at proto enough
      rw [sameHeader, proto, Bool.eq_iff_iff]
      simp only [Bool.and_eq_true, Bool.or_eq_true, Bool.not_eq_true', decide_eq_true_eq,
        decide_eq_false_iff_not, enough]
      constructor
      · rintro ⟨⟨full, dport⟩, sport⟩
        rw [← dport, ← sport]
        simp [full]
      · rintro ⟨⟨⟨⟨⟨-, sport⟩, dport⟩, -⟩, -⟩, full⟩
        rw [← dport, ← sport]
        simp [full]
    · have enough : EnoughQuoted encaps.proto quoted ↔ ¬quoted.length < 12 := by
        simp [EnoughQuoted, sctp]
      simp only [sctp, pings.sctp sctp]
      rw [if_neg (by simp), if_neg (by simp), if_neg (by simp), if_pos (by simp)]
      apply congrArg Except.ok
      rw [sctp] at proto enough
      rw [sameHeader, proto, Bool.eq_iff_iff]
      simp only [Bool.and_eq_true, Bool.or_eq_true, Bool.not_eq_true', decide_eq_true_eq,
        decide_eq_false_iff_not, enough]
      constructor
      · rintro ⟨⟨⟨full, dport⟩, sport⟩, vtag⟩
        rw [← dport, ← sport, ← vtag]
        simp [full]
      · rintro ⟨⟨⟨⟨⟨-, sport⟩, dport⟩, -⟩, vtag⟩, full⟩
        have vtag : u32At quoted 4 = probe.sctpvtag := by simpa using vtag
        rw [← dport, ← sport, ← vtag]
        simp [full]
  · simp [sameHeader, proto]

theorem Config.scans_apart (cfg : Config) :
    (cfg.tcpScan = true → cfg.udpScan = false ∧ cfg.sctpScan = false) ∧
      (cfg.udpScan = true → cfg.tcpScan = false ∧ cfg.sctpScan = false) ∧
      (cfg.sctpScan = true → cfg.tcpScan = false ∧ cfg.udpScan = false) := by
  rw [Config.tcpScan, Config.udpScan, Config.sctpScan]
  cases cfg.scantype with
  | portScan scan => cases scan <;> simp
  | pingScan => simp
  | pingScanArp => simp
  | pingScanNd => simp

variable {data : Bytes} {hss : HostScanStats}

variable (usi) in
theorem portErrorProbe_eq (scans : usi.cfg.ScansPorts encaps.proto)
    (transport : encaps.proto = 6 ∨ encaps.proto = 17 ∨ encaps.proto = 132)
    (quotes : ipGetData (data.drop 8) = some (encaps, quoted)) (long : 8 ≤ quoted.length)
    (sent : usi.sourceAddr = encaps.src) (host : usi.findHost encaps.dst = some hss) :
    portErrorProbe usi data ipGetData =
      .ok ((hss.findProbe (sameHeader encaps.proto quoted)).map fun probe => (hss, probe)) := by
  obtain ⟨tcpOnly, udpOnly, sctpOnly⟩ := usi.cfg.scans_apart
  have found : portErrorHost usi data ipGetData = some (hss, encaps, quoted) := by
    rw [portErrorHost, quotes]
    dsimp only
    have short : decide (quoted.length < 8) = false := decide_eq_false (Nat.not_lt.mpr long)
    rw [short, Bool.and_false, if_neg Bool.false_ne_true]
    rcases transport with tcp | udp | sctp
    · simp [tcp, tcpOnly (scans.tcp tcp), sent, host]
    · simp [udp, udpOnly (scans.udp udp), sent, host]
    · simp [sctp, sctpOnly (scans.sctp sctp), sent, host]
  have search : hss.probesOutstanding.reverse.findM? (portQuoted encaps quoted) =
      .ok (hss.findProbe (sameHeader encaps.proto quoted)) := by
    rw [funext (portQuoted_eq quoted transport), findM?_ok]
    rfl
  rw [portErrorProbe, found]
  dsimp only
  rw [search]
  rfl

variable (usi) in
/-- The search of a ping scan -/
theorem pingErrorProbe_eq (pings : usi.cfg.PingsWith encaps.proto)
    (transport : encaps.proto = 6 ∨ encaps.proto = 17 ∨ encaps.proto = 132)
    (quotes : ipGetData (data.drop 8) = some (encaps, quoted)) (long : 8 ≤ quoted.length)
    (sent : usi.sourceAddr = encaps.src) (host : usi.findHost encaps.dst = some hss) :
    pingErrorProbe usi data =
      .ok ((hss.findProbe fun probe => sameHeader encaps.proto quoted probe &&
        decide (EnoughQuoted encaps.proto quoted)).map fun probe => (hss, probe)) := by
  have short : decide (quoted.length < 8) = false := decide_eq_false (Nat.not_lt.mpr long)
  have goesOn : pingBailsOut usi encaps = false := by
    rcases transport with tcp | udp | sctp
    · simp [pingBailsOut, tcp, pings.tcp tcp]
    · simp [pingBailsOut, udp, pings.udp udp]
    · simp [pingBailsOut, sctp, pings.sctp sctp]
  have search : hss.probesOutstanding.reverse.findM? (pingQuoted usi encaps quoted) =
      .ok (hss.findProbe fun probe => sameHeader encaps.proto quoted probe &&
        decide (EnoughQuoted encaps.proto quoted)) := by
    rw [funext (pingQuoted_eq pings transport long), findM?_ok]
    rfl
  rw [pingErrorProbe, quotes]
  dsimp only
  rw [short, Bool.and_false, if_neg Bool.false_ne_true, goesOn, if_neg Bool.false_ne_true,
    if_neg (not_not.mpr sent), host]
  dsimp only
  rw [search]
  rfl

end

/-! ## Both receivers -/

section

variable {usi : ScanInfo} {packet data : Bytes} {hdr : IpHdr}

variable (usi) in
/-- The receiver of pings takes an unreachable error for an answer to the probe that its search
ends with. -/
theorem pingFinds_iff (read : ipGetData packet = some (hdr, data))
    (ours : usi.sourceAddr = hdr.dst) (icmp : hdr.proto = 1) (long : 8 ≤ data.length)
    (kind : byteAt data 0 = 3) (hss : HostScanStats) (probe : UltraProbe) :
    PingFinds usi packet hss probe ↔ pingErrorProbe usi data = .ok (some (hss, probe)) := by
  have unreachable : isUnreachable hdr data = true := by simp [isUnreachable, icmp, kind]
  obtain ⟨reason', upper⟩ := pingUpper_unreachable usi .noResponse long unreachable
  cases search : pingErrorProbe usi data with
  | error e =>
    have fails : pingPacket usi .noResponse packet = .error e := by
      rw [pingPacket, read]
      dsimp only
      rw [if_neg (not_not.mpr ours), upper, pingError, search]
      rfl
    simp [PingFinds, fails]
  | ok result =>
    rcases result with _ | ⟨hss', probe'⟩
    · have skips : pingPacket usi .noResponse packet = .ok (reason', none) := by
        rw [pingPacket, read]
        dsimp only
        rw [if_neg (not_not.mpr ours), upper, pingError, search]
        rfl
      simp [PingFinds, skips]
    · obtain ⟨verdict, state⟩ : ∃ verdict,
          pingErrorState hdr data hss'.sockAddr = some verdict := by
        rw [pingErrorState, if_pos unreachable]
        split_ifs
        · exact ⟨_, rfl⟩
        · exact ⟨_, rfl⟩
      have answers : pingPacket usi .noResponse packet =
          .ok (reason', some ⟨hss', probe', hdr, verdict.1, verdict.2⟩) := by
        rw [pingPacket, read]
        dsimp only
        rw [if_neg (not_not.mpr ours), upper, pingError, search]
        dsimp only [bind, Except.bind]
        rw [state]
      constructor
      · rintro ⟨reason, a, answer, rfl, rfl⟩
        rw [answers] at answer
        cases answer
        rfl
      · intro same
        cases same
        exact ⟨reason', _, answers, rfl, rfl⟩

variable (usi) in
theorem portFinds_iff (read : ipGetData packet = some (hdr, data))
    (ours : usi.sourceAddr = hdr.dst) (icmp : hdr.proto = 1) (long : 8 ≤ data.length)
    (kind : byteAt data 0 = 3) (hss : HostScanStats) (probe : UltraProbe) :
    PortFinds usi packet hss probe ↔
      portErrorProbe usi data ipGetData = .ok (some (hss, probe)) := by
  constructor
  · rintro ⟨hdr', data', read', -, -, -, -, found⟩
    rw [read] at read'
    cases read'
    exact found
  · intro found
    exact ⟨hdr, data, read, ours, icmp, long, Or.inl kind, found⟩

end

/-- For an error that quotes a probe, a ping scan and a port scan find the same probe exactly if
the whole header is quoted, or is one of UDP. -/
theorem searches_agree_iff (usi : ScanInfo) (pingCfg portCfg : Config) (packet quoted : Bytes)
    (probe : UltraProbe) (quotes : QuotesProbe usi packet quoted probe)
    (pings : pingCfg.PingsWith probe.protocol) (scans : portCfg.ScansPorts probe.protocol) :
    (∀ hss found, PingFinds (usi.withCfg pingCfg) packet hss found ↔
        PortFinds (usi.withCfg portCfg) packet hss found) ↔
      EnoughQuoted probe.protocol quoted := by
  obtain ⟨⟨hdr, data, encaps, hss, read, ours, icmp, enough, kind, inner, sent, host, mem, proto⟩,
    transport, long, sport, dport, seq, vtag⟩ := quotes
  rw [← proto] at pings scans transport seq vtag
  have ping := pingErrorProbe_eq (usi.withCfg pingCfg) pings transport inner long sent host
  have port := portErrorProbe_eq (usi.withCfg portCfg) scans transport inner long sent host
  have same : sameHeader encaps.proto quoted probe = true := by
    simp only [sameHeader, Bool.and_eq_true, Bool.or_eq_true, decide_eq_true_eq]
    refine ⟨⟨⟨⟨proto.symm, sport⟩, dport⟩, ?_⟩, ?_⟩
    · exact (em (encaps.proto = 6)).symm.imp_right seq
    · exact (em (encaps.proto = 132)).symm.imp_right vtag
  obtain ⟨found, search⟩ : ∃ found,
      hss.findProbe (sameHeader encaps.proto quoted) = some found := by
    apply Option.isSome_iff_exists.mp
    rw [HostScanStats.findProbe, List.find?_isSome]
    exact ⟨probe, List.mem_reverse.mpr mem, same⟩
  rw [search] at port
  rw [← proto]
  have either : ∀ hss' found', (PingFinds (usi.withCfg pingCfg) packet hss' found' ↔
      PortFinds (usi.withCfg portCfg) packet hss' found') ↔
      (pingErrorProbe (usi.withCfg pingCfg) data = .ok (some (hss', found')) ↔
        portErrorProbe (usi.withCfg portCfg) data ipGetData = .ok (some (hss', found'))) := by
    intro hss' found'
    rw [pingFinds_iff (usi.withCfg pingCfg) read ours icmp enough kind,
      portFinds_iff (usi.withCfg portCfg) read ours icmp enough kind]
  by_cases full : EnoughQuoted encaps.proto quoted
  · have all : (fun probe => sameHeader encaps.proto quoted probe &&
        decide (EnoughQuoted encaps.proto quoted)) = sameHeader encaps.proto quoted := by
      funext probe
      rw [decide_eq_true full, Bool.and_true]
    rw [all, search] at ping
    refine iff_of_true ?_ full
    intro hss' found'
    rw [either, ping, port]
  · have none_ : (hss.findProbe fun probe => sameHeader encaps.proto quoted probe &&
        decide (EnoughQuoted encaps.proto quoted)) = none := by
      rw [HostScanStats.findProbe, decide_eq_false full]
      simp
    rw [none_] at ping
    refine iff_of_false ?_ full
    intro agree
    have differ := (either hss found).mp (agree hss found)
    rw [ping, port] at differ
    cases differ.mpr rfl

/-! A SYN ping of port 80 of 198.51.100.7, which a router cannot deliver -/

def synPing : Config where
  scantype := .pingScan
  ports := ⟨[80], [], [], [], [], [], [], [], []⟩
  pingtype := ⟨false, false, false, true, false, true, false, false, false, false⟩
  isr00t := true
  ipv6 := false
  scanflags := none
  maxRetransmissions := 10
  defeatRstRatelimit := false
  defeatIcmpRatelimit := false
  discoveryIgnoreRst := false
  udpPayloadCount := fun _ => 0

/-- "Host unreachable", with so much of the transport header -/
def undelivered (quoted : Bytes) : Bytes :=
  ipv4Packet 1 [192, 0, 2, 254] [192, 0, 2, 1]
    ([3, 1, 0, 0, 0, 0, 0, 0] ++ ipv4Packet 6 [192, 0, 2, 1] [198, 51, 100, 7] quoted)

/-- The first 8 bytes of the header of the probe -/
def synHeader : Bytes := [0x9c, 0x40, 0, 80, 1, 2, 3, 4]

def synHeaderFull : Bytes := synHeader ++ [0, 0, 0, 0, 0x50, 2, 4, 0, 0, 0, 0, 0]

theorem synPing_pings : synPing.PingsWith synProbe.protocol where
  tcp := fun _ => rfl
  udp := by simp [synProbe, UltraProbe.protocol]
  sctp := by simp [synProbe, UltraProbe.protocol]

theorem synScanPort80_scans : synScanPort80.ScansPorts synProbe.protocol where
  tcp := fun _ => rfl
  udp := by simp [synProbe, UltraProbe.protocol]
  sctp := by simp [synProbe, UltraProbe.protocol]

theorem quotes_undelivered {quoted : Bytes} (part : quoted = synHeader ∨ quoted = synHeaderFull) :
    QuotesProbe synScan (undelivered quoted) quoted synProbe := by
  rcases part with rfl | rfl
  · exact ⟨⟨_, _, _, _, rfl, rfl, rfl, by decide, rfl, rfl, rfl, rfl, List.mem_cons_self, rfl⟩,
      Or.inl rfl, by decide, rfl, rfl, fun _ => rfl, by simp [synProbe, UltraProbe.protocol]⟩
  · exact ⟨⟨_, _, _, _, rfl, rfl, rfl, by decide, rfl, rfl, rfl, rfl, List.mem_cons_self, rfl⟩,
      Or.inl rfl, by decide, rfl, rfl, fun _ => rfl, by simp [synProbe, UltraProbe.protocol]⟩

/-- With all of the header, both find the probe. -/
theorem searches_agree_full :
    (∀ hss found, PingFinds (synScan.withCfg synPing) (undelivered synHeaderFull) hss found ↔
        PortFinds (synScan.withCfg synScanPort80) (undelivered synHeaderFull) hss found) ↔
      EnoughQuoted synProbe.protocol synHeaderFull :=
  searches_agree_iff synScan synPing synScanPort80 (undelivered synHeaderFull) synHeaderFull
    synProbe (quotes_undelivered (Or.inr rfl)) synPing_pings synScanPort80_scans

/-- With 8 bytes, the port scan finds the probe and the ping scan does not. -/
theorem searches_differ_short :
    QuotesProbe synScan (undelivered synHeader) synHeader synProbe ∧
      synPing.PingsWith synProbe.protocol ∧ synScanPort80.ScansPorts synProbe.protocol ∧
      ∃ hss, PortFinds (synScan.withCfg synScanPort80) (undelivered synHeader) hss synProbe ∧
        ¬PingFinds (synScan.withCfg synPing) (undelivered synHeader) hss synProbe := by
  refine ⟨quotes_undelivered (Or.inl rfl), synPing_pings, synScanPort80_scans, ?_⟩
  refine ⟨(HostScanStats.new 0 [198, 51, 100, 7]).setProbes [synProbe] 1 0, ?_, ?_⟩
  · exact ⟨_, _, rfl, rfl, rfl, by decide, Or.inl rfl, rfl⟩
  · rintro ⟨reason, a, answer, -⟩
    have skips : pingPacket (synScan.withCfg synPing) .noResponse (undelivered synHeader) =
        .ok (.hostUnreach, none) := rfl
    rw [skips] at answer
    cases answer

end Nmap.ScanEngine
