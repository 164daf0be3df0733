import Mathlib.Tactic.Ring
import Nmap.ScanEngine.Supply

/-!
# What the supply covers (`scan_engine.cc`)

`numFreshPortsLeft` counts what `freshPortsLeft` asks for and `get_next_target_probe` takes.
`due` is the list of the probes that are still to be taken, in the order in which they are: the
three functions are read off it, and one call takes its head.
-/

namespace Nmap.ScanEngine

open List Option

open Nmap.Ports (ScanType)

/-! ## Counting -/

namespace Supply

variable (cfg : Config) (s : Supply)

/-- `HostScanStats::numFreshPortsLeft`. The unsigned sums are those of the integers, since the
lists hold 65536 ports at most. -/
def numFreshPortsLeft : Int :=
  match cfg.scantype with
  | .portScan scan =>
    if (scanPorts cfg scan).length ≤ s.nextPortidx then 0
    else (scanPorts cfg scan).length - s.nextPortidx
  | .pingScanArp | .pingScanNd => if s.sentArp then 0 else 1
  | .pingScan =>
    (if cfg.rawtcpscan && cfg.pingtype.tcpUseAck then
      (cfg.ports.ackPingPorts.length : Int) - s.nextAckportpingidx else 0) +
    (if cfg.rawtcpscan && cfg.pingtype.tcpUseSyn then
      (cfg.ports.synPingPorts.length : Int) - s.nextSynportpingidx else 0) +
    (if cfg.rawudpscan then
      (cfg.ports.udpPingPorts.length : Int) - s.nextUdpportpingidx else 0) +
    (if cfg.rawsctpscan then
      (cfg.ports.sctpPingPorts.length : Int) - s.nextSctpportpingidx else 0) +
    (if cfg.rawicmpscan && cfg.pingtype.icmpPing && !s.sentIcmpPing then 1 else 0) +
    (if cfg.rawicmpscan && cfg.pingtype.icmpMask && !s.sentIcmpMask then 1 else 0) +
    (if cfg.rawicmpscan && cfg.pingtype.icmpTs && !s.sentIcmpTs then 1 else 0) +
    (if cfg.rawprotoscan then
      (cfg.ports.protoPingPorts.length : Int) - s.nextProtoportpingidx else 0) +
    (if cfg.connecttcpscan then
      (cfg.ports.synPingPorts.length : Int) - s.nextSynportpingidx else 0)

/-- A sequence of successful calls of `get_next_target_probe` -/
inductive Takes : Supply → List ProbeSpec → Supply → Prop
  | none (s : Supply) : Takes s [] s
  | next {s s' t : Supply} {pspec : ProbeSpec} {pspecs : List ProbeSpec} :
      s.nextTargetProbe cfg = .ok (some (pspec, s')) → Takes s' pspecs t →
      Takes s (pspec :: pspecs) t

end Supply

/-! ## What is listed -/

namespace Config

variable (cfg : Config)

/-- The pings of `PING_SCAN`, in the order in which they are tried -/
def listedPings : List ProbeSpec :=
  (if cfg.rawicmpscan && cfg.pingtype.icmpPing then
    [if cfg.ipv6 then ⟨.icmpv6, 58, .icmp 128 0⟩ else ⟨.icmp, 1, .icmp 8 0⟩] else []) ++
  (if cfg.rawtcpscan && cfg.pingtype.tcpUseSyn then
    cfg.ports.synPingPorts.map fun port => ⟨.tcp, 6, .tcp port 0x02⟩ else []) ++
  (if cfg.rawtcpscan && cfg.pingtype.tcpUseAck then
    cfg.ports.ackPingPorts.map fun port => ⟨.tcp, 6, .tcp port 0x10⟩ else []) ++
  (if cfg.rawicmpscan && cfg.pingtype.icmpTs then [⟨.icmp, 1, .icmp 13 0⟩] else []) ++
  (if cfg.rawudpscan then
    cfg.ports.udpPingPorts.map fun port => ⟨.udp, 17, .udp port⟩ else []) ++
  (if cfg.rawsctpscan then
    cfg.ports.sctpPingPorts.map fun port => ⟨.sctp, 132, .sctp port .init⟩ else []) ++
  (if cfg.rawprotoscan then
    cfg.ports.protoPingPorts.map fun port => ⟨.proto, port.toUInt8, .none⟩ else []) ++
  (if cfg.connecttcpscan then
    cfg.ports.synPingPorts.map fun port => ⟨.connectTcp, 6, .tcp port 0x02⟩ else []) ++
  (if cfg.rawicmpscan && cfg.pingtype.icmpMask then [⟨.icmp, 1, .icmp 17 0⟩] else [])

/-- The probes for every listed port or ping type -/
def listed : List (Except Failure ProbeSpec) :=
  match cfg.scantype with
  | .portScan scan => (Supply.scanPorts cfg scan).map (Supply.portSpec cfg scan)
  | .pingScanArp => [.ok ⟨.arp, 0, .none⟩]
  | .pingScanNd => [.ok ⟨.nd, 0, .none⟩]
  | .pingScan => cfg.listedPings.map .ok

theorem listed_length : cfg.listed.length = cfg.numProbesPerHost := by
  rw [listed, numProbesPerHost]
  cases scantype : cfg.scantype with
  | portScan scan =>
    cases scan <;>
      simp [Supply.scanPorts, tcpScan, udpScan, sctpScan, protScan, scantype]
  | pingScanArp => simp [tcpScan, udpScan, sctpScan, protScan, pingScanArp, scantype]
  | pingScanNd => simp [tcpScan, udpScan, sctpScan, protScan, pingScanArp, pingScanNd, scantype]
  | pingScan =>
    simp only [tcpScan, udpScan, sctpScan, protScan, pingScanArp, pingScanNd, scantype,
      length_map, listedPings, length_append, apply_ite List.length, length_nil,
      length_singleton]
    simp only [Bool.false_eq_true, reduceCtorEq, decide_false, Bool.or_self, if_false]
    omega

end Config

/-! ## What is due -/

namespace Supply

variable (cfg : Config) (s : Supply)

/-- What is still to be taken of a list -/
def duePorts (selected : Bool) (ports : List UInt16) (idx : Nat) (probe : UInt16 → ProbeSpec) :
    List ProbeSpec :=
  if selected then (ports.drop idx).map probe else []

/-- What is still to be taken of a ping that is sent once -/
def dueOnce (selected sent : Bool) (probe : ProbeSpec) : List ProbeSpec :=
  if selected && !sent then [probe] else []

/-- The pings that are still to be taken, in the order in which they are tried -/
def duePings : List ProbeSpec :=
  dueOnce (cfg.rawicmpscan && cfg.pingtype.icmpPing) s.sentIcmpPing
    (if cfg.ipv6 then ⟨.icmpv6, 58, .icmp 128 0⟩ else ⟨.icmp, 1, .icmp 8 0⟩) ++
  (duePorts (cfg.rawtcpscan && cfg.pingtype.tcpUseSyn) cfg.ports.synPingPorts
    s.nextSynportpingidx (fun port => ⟨.tcp, 6, .tcp port 0x02⟩) ++
  (duePorts (cfg.rawtcpscan && cfg.pingtype.tcpUseAck) cfg.ports.ackPingPorts
    s.nextAckportpingidx (fun port => ⟨.tcp, 6, .tcp port 0x10⟩) ++
  (dueOnce (cfg.rawicmpscan && cfg.pingtype.icmpTs) s.sentIcmpTs ⟨.icmp, 1, .icmp 13 0⟩ ++
  (duePorts cfg.rawudpscan cfg.ports.udpPingPorts
    s.nextUdpportpingidx (fun port => ⟨.udp, 17, .udp port⟩) ++
  (duePorts cfg.rawsctpscan cfg.ports.sctpPingPorts
    s.nextSctpportpingidx (fun port => ⟨.sctp, 132, .sctp port .init⟩) ++
  (duePorts cfg.rawprotoscan cfg.ports.protoPingPorts
    s.nextProtoportpingidx (fun port => ⟨.proto, port.toUInt8, .none⟩) ++
  (duePorts cfg.connecttcpscan cfg.ports.synPingPorts
    s.nextSynportpingidx (fun port => ⟨.connectTcp, 6, .tcp port 0x02⟩) ++
  dueOnce (cfg.rawicmpscan && cfg.pingtype.icmpMask) s.sentIcmpMask ⟨.icmp, 1, .icmp 17 0⟩)))))))

/-- The probes that are still to be taken -/
def due : List (Except Failure ProbeSpec) :=
  match cfg.scantype with
  | .portScan scan => ((scanPorts cfg scan).drop s.nextPortidx).map (portSpec cfg scan)
  | .pingScanArp => if s.sentArp then [] else [.ok ⟨.arp, 0, .none⟩]
  | .pingScanNd => if s.sentArp then [] else [.ok ⟨.nd, 0, .none⟩]
  | .pingScan => (s.duePings cfg).map .ok

/-- In a new `HostScanStats` all that is listed is due. -/
theorem due_new : ({} : Supply).due cfg = cfg.listed := by
  rw [due, Config.listed]
  cases cfg.scantype with
  | portScan scan => rfl
  | pingScanArp => rfl
  | pingScanNd => rfl
  | pingScan => simp [duePings, duePorts, dueOnce, Config.listedPings]

variable {cfg} {s}

variable {selected : Bool}

theorem duePorts_eq_nil {ports : List UInt16} {idx : Nat} {probe : UInt16 → ProbeSpec} :
    duePorts selected ports idx probe = [] ↔ (selected = true → ports.length ≤ idx) := by
  cases selected <;> simp [duePorts]

theorem dueOnce_eq_nil {sent : Bool} {probe : ProbeSpec} :
    dueOnce selected sent probe = [] ↔ (selected = true → sent = true) := by
  cases selected <;> cases sent <;> simp [dueOnce]

theorem freshPortsLeft_iff_due : s.freshPortsLeft cfg = true ↔ s.due cfg ≠ [] := by
  rw [freshPortsLeft, due]
  cases cfg.scantype with
  | portScan scan => simp
  | pingScanArp => cases s.sentArp <;> simp
  | pingScanNd => cases s.sentArp <;> simp
  | pingScan =>
    simp only [ne_eq, map_eq_nil_iff, duePings, append_eq_nil_iff, duePorts_eq_nil,
      dueOnce_eq_nil, Bool.and_eq_true, Bool.or_eq_true, decide_eq_true_eq,
      Bool.not_eq_true']
    grind

/-! ## One call -/

/-! The nine pings are of two kinds. Nothing is due of a kind that is passed, and one that is
taken is the head of what was due. -/

section Kinds

variable {selected : Bool}

theorem duePorts_passed {ports : List UInt16} {idx : Nat} {take : UInt16 → ProbeSpec × Supply}
    (passed : (if selected then ports[idx]?.map take else none) = none) :
    ∀ probe, duePorts selected ports idx probe = [] := by
  intro probe
  rw [duePorts_eq_nil]
  intro selects
  rw [if_pos selects, map_eq_none_iff] at passed
  exact List.getElem?_eq_none_iff.mp passed

variable {next : ProbeSpec × Supply}

theorem duePorts_taken {ports : List UInt16} {idx : Nat} {take : UInt16 → ProbeSpec × Supply}
    (taken : (if selected then ports[idx]?.map take else none) = some next) :
    selected = true ∧ idx < ports.length ∧ ∃ port, next = take port ∧ ∀ probe,
      duePorts selected ports idx probe =
        probe port :: duePorts selected ports (idx + 1) probe := by
  rw [ite_none_right_eq_some] at taken
  obtain ⟨selects, mapped⟩ := taken
  obtain ⟨port, found, rfl⟩ := map_eq_some_iff.mp mapped
  obtain ⟨inside, rfl⟩ := List.getElem?_eq_some_iff.mp found
  refine ⟨selects, inside, ports[idx], rfl, fun probe => ?_⟩
  rw [duePorts, duePorts, if_pos selects, if_pos selects, drop_eq_getElem_cons inside]
  rfl

theorem dueOnce_passed {sent : Bool}
    (passed : (if selected && !sent then some next else none) = none) :
    ∀ probe, dueOnce selected sent probe = [] := by
  intro probe
  cases sends : selected && !sent with
  | false => rw [dueOnce, sends]; rfl
  | true => rw [sends] at passed; cases passed

theorem dueOnce_taken {sent : Bool} {next' : ProbeSpec × Supply}
    (taken : (if selected && !sent then some next else none) = some next') :
    next' = next ∧ ∀ probe, dueOnce selected sent probe = probe :: dueOnce selected true probe := by
  rw [ite_none_right_eq_some] at taken
  obtain ⟨sends, same⟩ := taken
  refine ⟨(Option.some.inj same).symm, fun probe => ?_⟩
  rw [dueOnce, if_pos sends, dueOnce, Bool.not_true, Bool.and_false]
  rfl

theorem duePorts_off (ports : List UInt16) (idx : Nat) (probe : UInt16 → ProbeSpec) :
    duePorts false ports idx probe = [] := rfl

end Kinds

/-- No index is past the end of its list. -/
structure InRange (cfg : Config) (s : Supply) : Prop where
  syn : s.nextSynportpingidx ≤ cfg.ports.synPingPorts.length
  ack : s.nextAckportpingidx ≤ cfg.ports.ackPingPorts.length
  udp : s.nextUdpportpingidx ≤ cfg.ports.udpPingPorts.length
  sctp : s.nextSctpportpingidx ≤ cfg.ports.sctpPingPorts.length
  proto : s.nextProtoportpingidx ≤ cfg.ports.protoPingPorts.length

theorem inRange_new : InRange cfg {} :=
  ⟨Nat.zero_le _, Nat.zero_le _, Nat.zero_le _, Nat.zero_le _, Nat.zero_le _⟩

theorem duePorts_succ_sublist (selected : Bool) (ports : List UInt16) (idx : Nat)
    (probe : UInt16 → ProbeSpec) :
    (duePorts selected ports (idx + 1) probe).Sublist (duePorts selected ports idx probe) := by
  cases selected with
  | false => exact .refl _
  | true => exact (drop_sublist_drop_left ports (Nat.le_succ idx)).map probe

theorem duePorts_succ_passed {ports : List UInt16} {idx : Nat}
    (passed : ∀ probe, duePorts selected ports idx probe = []) (probe : UInt16 → ProbeSpec) :
    duePorts selected ports (idx + 1) probe = [] := by
  have shorter := duePorts_succ_sublist selected ports idx probe
  rw [passed] at shorter
  exact sublist_nil.mp shorter

variable {pspec : ProbeSpec} {s' : Supply}

/-- A ping is the head of what is due, and besides it nothing becomes due. The lists of SYN pings
and of connections share their index: where both are selected, one call takes from both. -/
theorem nextPing_due (found : s.nextPing cfg = some (pspec, s')) :
    (pspec :: s'.duePings cfg).Sublist (s.duePings cfg) ∧
      (¬(cfg.rawtcpscan = true ∧ cfg.connecttcpscan = true) →
        s.duePings cfg = pspec :: s'.duePings cfg) ∧
      (InRange cfg s → InRange cfg s') := by
  have exactly : s.duePings cfg = pspec :: s'.duePings cfg →
      (pspec :: s'.duePings cfg).Sublist (s.duePings cfg) ∧
        (¬(cfg.rawtcpscan = true ∧ cfg.connecttcpscan = true) →
          s.duePings cfg = pspec :: s'.duePings cfg) := by
    intro head
    rw [head]
    exact ⟨.refl _, fun _ => rfl⟩
  simp only [nextPing, orElse_eq_orElse, orElse_eq_or, or_eq_some_iff]
    at found
  rcases found with icmp | ⟨icmp, syn | ⟨syn, ack | ⟨ack, ts | ⟨ts, udp | ⟨udp, sctp | ⟨sctp,
    proto | ⟨proto, connect | ⟨connect, mask⟩⟩⟩⟩⟩⟩⟩⟩
  · obtain ⟨same, head⟩ := dueOnce_taken icmp
    cases same
    obtain ⟨sublist, equal⟩ := exactly (by simp only [duePings, head, cons_append])
    exact ⟨sublist, equal, fun range => { range with }⟩
  · obtain ⟨-, inside, port, same, head⟩ := duePorts_taken syn
    cases same
    have connections := duePorts_succ_sublist cfg.connecttcpscan
      cfg.ports.synPingPorts s.nextSynportpingidx fun port => ⟨.connectTcp, 6, .tcp port 0x02⟩
    refine ⟨?_, fun separate => ?_, fun range => { range with syn := inside }⟩
    · simp only [duePings, dueOnce_passed icmp, head, nil_append, cons_append]
      apply Sublist.cons_cons
      repeat apply Sublist.append (Sublist.refl _)
      exact connections.append (.refl _)
    · have raw : cfg.rawtcpscan = true := by
        cases off : cfg.rawtcpscan with
        | true => rfl
        | false => simp [nextSynPing, off] at syn
      have off : cfg.connecttcpscan = false := by simpa [raw] using separate
      simp only [duePings, dueOnce_passed icmp, head, off, duePorts_off, nil_append,
        cons_append]
  · obtain ⟨-, inside, port, same, head⟩ := duePorts_taken ack
    cases same
    obtain ⟨sublist, equal⟩ := exactly (by simp only [duePings, dueOnce_passed icmp,
      duePorts_passed syn, head, nil_append, cons_append])
    exact ⟨sublist, equal, fun range => { range with ack := inside }⟩
  · obtain ⟨same, head⟩ := dueOnce_taken ts
    cases same
    obtain ⟨sublist, equal⟩ := exactly (by simp only [duePings, dueOnce_passed icmp,
      duePorts_passed syn, duePorts_passed ack, head, nil_append, cons_append])
    exact ⟨sublist, equal, fun range => { range with }⟩
  · obtain ⟨-, inside, port, same, head⟩ := duePorts_taken udp
    cases same
    obtain ⟨sublist, equal⟩ := exactly (by simp only [duePings, dueOnce_passed icmp,
      duePorts_passed syn, duePorts_passed ack, dueOnce_passed ts, head, nil_append,
      cons_append])
    exact ⟨sublist, equal, fun range => { range with udp := inside }⟩
  · obtain ⟨-, inside, port, same, head⟩ := duePorts_taken sctp
    cases same
    obtain ⟨sublist, equal⟩ := exactly (by simp only [duePings, dueOnce_passed icmp,
      duePorts_passed syn, duePorts_passed ack, dueOnce_passed ts, duePorts_passed udp, head,
      nil_append, cons_append])
    exact ⟨sublist, equal, fun range => { range with sctp := inside }⟩
  · obtain ⟨-, inside, port, same, head⟩ := duePorts_taken proto
    cases same
    obtain ⟨sublist, equal⟩ := exactly (by simp only [duePings, dueOnce_passed icmp,
      duePorts_passed syn, duePorts_passed ack, dueOnce_passed ts, duePorts_passed udp,
      duePorts_passed sctp, head, nil_append, cons_append])
    exact ⟨sublist, equal, fun range => { range with proto := inside }⟩
  · obtain ⟨-, inside, port, same, head⟩ := duePorts_taken connect
    cases same
    have passed := duePorts_succ_passed (duePorts_passed syn)
    obtain ⟨sublist, equal⟩ := exactly (by simp only [duePings, dueOnce_passed icmp,
      duePorts_passed syn, duePorts_passed ack, dueOnce_passed ts, duePorts_passed udp,
      duePorts_passed sctp, duePorts_passed proto, passed, head, nil_append,
      cons_append])
    exact ⟨sublist, equal, fun range => { range with syn := inside }⟩
  · obtain ⟨same, head⟩ := dueOnce_taken mask
    cases same
    obtain ⟨sublist, equal⟩ := exactly (by simp only [duePings, dueOnce_passed icmp,
      duePorts_passed syn, duePorts_passed ack, dueOnce_passed ts, duePorts_passed udp,
      duePorts_passed sctp, duePorts_passed proto, duePorts_passed connect, head,
      nil_append])
    exact ⟨sublist, equal, fun range => { range with }⟩

/-- A successful call takes what is due first. -/
theorem nextTargetProbe_takes (next : s.nextTargetProbe cfg = .ok (some (pspec, s'))) :
    (.ok pspec :: s'.due cfg).Sublist (s.due cfg) ∧
      (¬(cfg.rawtcpscan = true ∧ cfg.connecttcpscan = true) →
        s.due cfg = .ok pspec :: s'.due cfg) ∧
      (InRange cfg s → InRange cfg s') := by
  rw [nextTargetProbe] at next
  rw [due, due]
  cases scantype : cfg.scantype with
  | portScan scan =>
    rw [scantype] at next
    simp only [nextPort] at next
    cases found : (scanPorts cfg scan)[s.nextPortidx]? with
    | none => rw [found] at next; cases next
    | some port =>
      simp only [found] at next
      cases spec : portSpec cfg scan port with
      | error failure => rw [spec] at next; cases next
      | ok pspec' =>
        rw [spec] at next
        cases next
        obtain ⟨inside, rfl⟩ := List.getElem?_eq_some_iff.mp found
        have head : ((scanPorts cfg scan).drop s.nextPortidx).map (portSpec cfg scan) =
            .ok pspec :: ((scanPorts cfg scan).drop (s.nextPortidx + 1)).map
              (portSpec cfg scan) := by
          simp only [drop_eq_getElem_cons inside, map_cons, spec]
        exact ⟨head ▸ .refl _, fun _ => head, fun range => { range with }⟩
  | pingScanArp =>
    simp only [scantype] at next
    cases sent : s.sentArp <;> simp only [sent] at next <;> cases next
    exact ⟨.refl _, fun _ => rfl, fun range => { range with }⟩
  | pingScanNd =>
    simp only [scantype] at next
    cases sent : s.sentArp <;> simp only [sent] at next <;> cases next
    exact ⟨.refl _, fun _ => rfl, fun range => { range with }⟩
  | pingScan =>
    simp only [scantype] at next
    cases found : s.nextPing cfg with
    | none => rw [found] at next; cases next
    | some both =>
      rw [found] at next
      cases next
      obtain ⟨sublist, head, range⟩ := nextPing_due found
      refine ⟨?_, fun separate => ?_, range⟩
      · exact sublist.map (Except.ok (ε := Failure))
      · simp only [head separate, map_cons]

theorem nextTargetProbe_due (separate : ¬(cfg.rawtcpscan = true ∧ cfg.connecttcpscan = true))
    (next : s.nextTargetProbe cfg = .ok (some (pspec, s'))) :
    s.due cfg = .ok pspec :: s'.due cfg ∧ (InRange cfg s → InRange cfg s') :=
  ⟨(nextTargetProbe_takes next).2.1 separate, (nextTargetProbe_takes next).2.2⟩

/-! ## All calls -/

theorem numFreshPortsLeft_eq (range : InRange cfg s) :
    s.numFreshPortsLeft cfg = (s.due cfg).length := by
  rw [numFreshPortsLeft, due]
  cases cfg.scantype with
  | portScan scan =>
    simp only [length_map, length_drop]
    split_ifs <;> omega
  | pingScanArp => cases s.sentArp <;> rfl
  | pingScanNd => cases s.sentArp <;> rfl
  | pingScan =>
    obtain ⟨syn, ack, udp, sctp, proto⟩ := range
    simp only [length_map, duePings, duePorts, dueOnce, length_append,
      apply_ite List.length, length_nil, length_singleton, length_drop,
      Nat.cast_add, Nat.cast_ite, Nat.cast_zero, Nat.cast_one, Nat.cast_sub syn,
      Nat.cast_sub ack, Nat.cast_sub udp, Nat.cast_sub sctp, Nat.cast_sub proto]
    ring

namespace Takes

theorem due_eq (separate : ¬(cfg.rawtcpscan = true ∧ cfg.connecttcpscan = true))
    {pspecs : List ProbeSpec} {t : Supply} (takes : Takes cfg s pspecs t) :
    s.due cfg = pspecs.map .ok ++ t.due cfg ∧ (InRange cfg s → InRange cfg t) := by
  induction takes with
  | none s => exact ⟨rfl, id⟩
  | next first rest ih =>
    obtain ⟨head, range⟩ := nextTargetProbe_due separate first
    exact ⟨by rw [head, ih.1]; rfl, ih.2 ∘ range⟩

end Takes

theorem exists_takes_all (separate : ¬(cfg.rawtcpscan = true ∧ cfg.connecttcpscan = true))
    (s : Supply) : ∃ pspecs t, Takes cfg s pspecs t ∧ t.freshPortsLeft cfg = false := by
  cases left : s.freshPortsLeft cfg with
  | false => exact ⟨[], s, .none s, left⟩
  | true =>
    obtain ⟨pspec, s', first, -⟩ := nextTargetProbe_fresh left
    have head := (nextTargetProbe_due separate first).1
    have fewer : (s'.due cfg).length < (s.due cfg).length := by simp [head]
    obtain ⟨pspecs, t, rest, spent⟩ := exists_takes_all separate s'
    exact ⟨pspec :: pspecs, t, .next first rest, spent⟩
termination_by (s.due cfg).length

/-- Unless raw and connect TCP pings are both selected: in every supply that calls for a new
host lead to, `freshPortsLeft`, `numFreshPortsLeft` and `get_next_target_probe` agree, and a
call lowers the number by one; and all calls together take what is listed. -/
theorem supply_covers (cfg : Config)
    (separate : ¬(cfg.rawtcpscan = true ∧ cfg.connecttcpscan = true)) :
    (∀ pspecs s, Takes cfg {} pspecs s →
      (s.freshPortsLeft cfg = true ↔ 0 < s.numFreshPortsLeft cfg) ∧
      (s.freshPortsLeft cfg = true ↔ ∃ next, s.nextTargetProbe cfg = .ok (some next)) ∧
      (s.freshPortsLeft cfg = true → ∀ failure, s.nextTargetProbe cfg ≠ .error failure) ∧
      ∀ pspec s', s.nextTargetProbe cfg = .ok (some (pspec, s')) →
        s'.numFreshPortsLeft cfg = s.numFreshPortsLeft cfg - 1) ∧
    (∃ pspecs s, Takes cfg {} pspecs s ∧ s.freshPortsLeft cfg = false) ∧
    ∀ pspecs s, Takes cfg {} pspecs s → s.freshPortsLeft cfg = false →
      pspecs.length = cfg.numProbesPerHost ∧ pspecs.map .ok = cfg.listed := by
  refine ⟨fun pspecs s takes => ?_, exists_takes_all separate {}, fun pspecs s takes none => ?_⟩
  · have range : InRange cfg s := (takes.due_eq separate).2 inRange_new
    have number := numFreshPortsLeft_eq range
    refine ⟨?_, ⟨fun left => ?_, ?_⟩, fun left failure fails => ?_, fun pspec s' next => ?_⟩
    · rw [freshPortsLeft_iff_due, number, Int.natCast_pos, length_pos_iff]
    · obtain ⟨pspec, s', next, -⟩ := nextTargetProbe_fresh left
      exact ⟨(pspec, s'), next⟩
    · rintro ⟨⟨pspec, s'⟩, next⟩
      rw [freshPortsLeft_iff_due, (nextTargetProbe_due separate next).1]
      exact cons_ne_nil _ _
    · obtain ⟨pspec, s', next, -⟩ := nextTargetProbe_fresh left
      rw [next] at fails
      cases fails
    · obtain ⟨head, range'⟩ := nextTargetProbe_due separate next
      rw [number, numFreshPortsLeft_eq (range' range), head, length_cons]
      omega
  · have nothing : s.due cfg = [] := by
      by_contra some
      rw [freshPortsLeft_iff_due.mpr some] at none
      cases none
    have all := (takes.due_eq separate).1
    rw [nothing, append_nil, due_new] at all
    refine ⟨?_, all.symm⟩
    rw [← cfg.listed_length, all, length_map]

/-- The pings of a privileged user: `-PE -PS443 -PA80 -PP` -/
def defaultPing : Config where
  scantype := .pingScan
  ports := ⟨[443], [80], [], [], [], [], [], [], []⟩
  pingtype := ⟨true, false, true, true, true, true, false, false, false, false⟩
  isr00t := true
  ipv6 := false
  scanflags := none
  maxRetransmissions := 10
  defeatRstRatelimit := false
  defeatIcmpRatelimit := false
  discoveryIgnoreRst := false
  udpPayloadCount := fun _ => 0

/-- The four probes, in the order of their effectiveness -/
theorem supply_covers_default :
    (∃ s, Takes defaultPing {} [⟨.icmp, 1, .icmp 8 0⟩, ⟨.tcp, 6, .tcp 443 0x02⟩,
        ⟨.tcp, 6, .tcp 80 0x10⟩, ⟨.icmp, 1, .icmp 13 0⟩] s) ∧
      4 = defaultPing.numProbesPerHost ∧
      [.ok ⟨.icmp, 1, .icmp 8 0⟩, .ok ⟨.tcp, 6, .tcp 443 0x02⟩, .ok ⟨.tcp, 6, .tcp 80 0x10⟩,
        .ok ⟨.icmp, 1, .icmp 13 0⟩] = defaultPing.listed := by
  have takes : Takes defaultPing {} [⟨.icmp, 1, .icmp 8 0⟩, ⟨.tcp, 6, .tcp 443 0x02⟩,
      ⟨.tcp, 6, .tcp 80 0x10⟩, ⟨.icmp, 1, .icmp 13 0⟩] _ :=
    .next rfl (.next rfl (.next rfl (.next rfl (.none _))))
  exact ⟨⟨_, takes⟩, (supply_covers defaultPing (by decide)).2.2 _ _ takes rfl⟩

end Supply

end Nmap.ScanEngine
