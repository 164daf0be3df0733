import Nmap.ScanEngine.TryBound

/-!
# At most so many probes for a port (`scan_engine.cc`, `NmapOps.cc`)

`retransmission_bound`: as long as the greatest number of retransmissions is below 128, no port
is sent more than one probe more than that, and try numbers count the probes for a port.
-/

namespace Nmap.ScanEngine

open Nmap.Base List
open Nmap.Ports (ScanType PortKey)

/-! ## Ports -/

/-- What a probe is for: the port in a port scan, and otherwise its `probespec` -/
def Config.target (cfg : Config) (pspec : ProbeSpec) : Option PortKey ⊕ ProbeSpec :=
  match cfg.scantype with
  | .portScan scan => .inl (pspecPort scan pspec)
  | _ => .inr pspec

/-- The lists as `getpts` and `getpts_simple` fill them: every port once, and no protocol above
255 -/
structure ScanLists.Once (ports : ScanLists) : Prop where
  synPing : ports.synPingPorts.Nodup
  ackPing : ports.ackPingPorts.Nodup
  udpPing : ports.udpPingPorts.Nodup
  sctpPing : ports.sctpPingPorts.Nodup
  protoPing : ports.protoPingPorts.Nodup
  protoPingByte : ∀ port ∈ ports.protoPingPorts, port.toNat ≤ 255
  tcp : ports.tcpPorts.Nodup
  udp : ports.udpPorts.Nodup
  sctp : ports.sctpPorts.Nodup
  prots : ports.prots.Nodup
  protsByte : ∀ port ∈ ports.prots, port.toNat ≤ 255

theorem toUInt8_inj {a b : UInt16} (ha : a.toNat ≤ 255) (hb : b.toNat ≤ 255)
    (same : a.toUInt8 = b.toUInt8) : a = b := by
  have numbers := congrArg UInt8.toNat same
  rw [UInt16.toNat_toUInt8, UInt16.toNat_toUInt8] at numbers
  apply UInt16.toNat_inj.mp
  omega

namespace Supply

variable {cfg : Config} {s : Supply}

def dueSpecs (cfg : Config) (s : Supply) : List ProbeSpec := (s.due cfg).filterMap Except.toOption

variable {pspec : ProbeSpec}

theorem mem_dueSpecs : pspec ∈ s.dueSpecs cfg ↔ .ok pspec ∈ s.due cfg := by
  rw [dueSpecs, mem_filterMap]
  constructor
  · rintro ⟨r, mem, same⟩
    cases r with
    | error failure => cases same
    | ok pspec' =>
      cases same
      exact mem
  · intro mem
    exact ⟨.ok pspec, mem, rfl⟩

theorem dueSpecs_takes {s' : Supply} (next : s.nextTargetProbe cfg = .ok (some (pspec, s'))) :
    (pspec :: s'.dueSpecs cfg).Sublist (s.dueSpecs cfg) :=
  (nextTargetProbe_takes next).1.filterMap Except.toOption

theorem rawSpec_flags {flags : Except Failure UInt8} {port : UInt16}
    (spec : (flags >>= fun flags => .ok ⟨.tcp, 6, .tcp port flags⟩) = .ok pspec) :
    ∃ flags, pspec = ⟨.tcp, 6, .tcp port flags⟩ := by
  cases flags with
  | error failure => cases spec
  | ok flags =>
    cases spec
    exact ⟨flags, rfl⟩

/-- A `probespec` of a port scan and its port -/
theorem portSpec_spec {scan : ScanType} {port : UInt16}
    (spec : portSpec cfg scan port = .ok pspec) :
    Sendable pspec ∧ ∃ proto, pspecPort scan pspec =
      some ⟨if scan = .ipProt then port.toUInt8.toUInt16 else port, proto⟩ := by
  cases scan with
  | udp | sctpInit | sctpCookieEcho | ipProt | connect =>
    cases spec
    exact ⟨rfl, _, rfl⟩
  | syn | ack | xmas | null | fin | maimon | window =>
    obtain ⟨flags, rfl⟩ := rawSpec_flags spec
    exact ⟨rfl, _, rfl⟩

/-- What is due is sent as it is. -/
theorem dueSpecs_sendable (mem : pspec ∈ s.dueSpecs cfg) :
    Sendable pspec := by
  rw [mem_dueSpecs, due] at mem
  cases scantype : cfg.scantype with
  | portScan scan =>
    simp only [scantype] at mem
    obtain ⟨port, -, spec⟩ := mem_map.mp mem
    exact (portSpec_spec spec).1
  | pingScanArp | pingScanNd =>
    simp only [scantype] at mem
    split at mem
    · cases mem
    · cases mem_singleton.mp mem
      rfl
  | pingScan =>
    simp only [scantype] at mem
    obtain ⟨pspec', mem, same⟩ := mem_map.mp mem
    cases same
    have once : ∀ {selected sent : Bool} {probe : ProbeSpec},
        pspec ∈ dueOnce selected sent probe → Sendable probe → Sendable pspec := by
      intro selected sent probe mem sendable
      rw [dueOnce] at mem
      split at mem
      · rw [mem_singleton.mp mem]
        exact sendable
      · cases mem
    have ports : ∀ {selected : Bool} {ports : List UInt16} {idx : Nat}
        {probe : UInt16 → ProbeSpec}, pspec ∈ duePorts selected ports idx probe →
        (∀ port, Sendable (probe port)) → Sendable pspec := by
      intro selected ports idx probe mem sendable
      rw [duePorts] at mem
      split at mem
      · obtain ⟨port, -, rfl⟩ := mem_map.mp mem
        exact sendable port
      · cases mem
    simp only [duePings, mem_append] at mem
    rcases mem with icmp | syn | ack | ts | udp | sctp | proto | connect | mask
    · apply once icmp
      split
      · rfl
      · rfl
    · exact ports syn fun _ => rfl
    · exact ports ack fun _ => rfl
    · exact once ts rfl
    · exact ports udp fun _ => rfl
    · exact ports sctp fun _ => rfl
    · exact ports proto fun _ => rfl
    · exact ports connect fun _ => rfl
    · exact once mask rfl

/-! ## Every port once -/

/-- The kinds of pings, in the order of their list -/
def pingKind (pspec : ProbeSpec) : Nat :=
  match pspec.type, pspec.pd with
  | .tcp, .tcp _ flags => if flags = 0x02 then 1 else 2
  | .icmp, .icmp icmpType _ => if icmpType = 8 then 0 else if icmpType = 13 then 3 else 8
  | .udp, _ => 4
  | .sctp, _ => 5
  | .proto, _ => 6
  | .connectTcp, _ => 7
  | _, _ => 0

/-- Pings of the first kinds, every one once -/
def FirstKinds (kinds : Nat) (pings : List ProbeSpec) : Prop :=
  pings.Nodup ∧ ∀ ping ∈ pings, pingKind ping < kinds

variable {kinds : Nat} {pings : List ProbeSpec}

theorem FirstKinds.add {more : List ProbeSpec} (first : FirstKinds kinds pings) (once : more.Nodup)
    (kind : ∀ ping ∈ more, pingKind ping = kinds) :
    FirstKinds (kinds + 1) (pings ++ more) := by
  obtain ⟨nodup, below⟩ := first
  constructor
  · rw [nodup_append]
    refine ⟨nodup, once, ?_⟩
    rintro ping mem _ mem' rfl
    have less := below ping mem
    rw [kind ping mem'] at less
    exact Nat.lt_irrefl _ less
  · intro ping mem
    rcases mem_append.mp mem with mem | mem
    · exact Nat.lt_succ_of_lt (below ping mem)
    · rw [kind ping mem]
      exact Nat.lt_succ_self _

theorem FirstKinds.addPorts (first : FirstKinds kinds pings) (selected : Bool) {ports : List UInt16}
    (once : ports.Nodup) (probe : UInt16 → ProbeSpec)
    (different : ∀ a ∈ ports, ∀ b ∈ ports, probe a = probe b → a = b)
    (kind : ∀ port, pingKind (probe port) = kinds) :
    FirstKinds (kinds + 1) (pings ++ if selected then ports.map probe else []) := by
  apply first.add
  · split
    · exact once.map_on different
    · exact nodup_nil
  · intro ping mem
    split at mem
    · obtain ⟨port, -, rfl⟩ := mem_map.mp mem
      exact kind port
    · cases mem

theorem FirstKinds.addOnce (first : FirstKinds kinds pings) (selected : Bool) (probe : ProbeSpec)
    (kind : pingKind probe = kinds) :
    FirstKinds (kinds + 1) (pings ++ if selected then [probe] else []) := by
  apply first.add
  · split
    · exact nodup_singleton _
    · exact nodup_nil
  · intro ping mem
    split at mem
    · rw [mem_singleton.mp mem]
      exact kind
    · cases mem

theorem listedPings_nodup (once : cfg.ports.Once) : cfg.listedPings.Nodup := by
  have none : FirstKinds 0 [] := ⟨nodup_nil, fun _ mem => by cases mem⟩
  have echo : pingKind (if cfg.ipv6 then ⟨.icmpv6, 58, .icmp 128 0⟩
      else ⟨.icmp, 1, .icmp 8 0⟩) = 0 := by
    split
    · rfl
    · rfl
  have protocols : ∀ a ∈ cfg.ports.protoPingPorts, ∀ b ∈ cfg.ports.protoPingPorts,
      (⟨.proto, a.toUInt8, .none⟩ : ProbeSpec) = ⟨.proto, b.toUInt8, .none⟩ → a = b := by
    intro a ha b hb same
    exact toUInt8_inj (once.protoPingByte a ha) (once.protoPingByte b hb)
      (congrArg ProbeSpec.proto same)
  have icmp := none.addOnce (cfg.rawicmpscan && cfg.pingtype.icmpPing) _ echo
  have syn := icmp.addPorts (cfg.rawtcpscan && cfg.pingtype.tcpUseSyn) once.synPing
    (fun port => ⟨.tcp, 6, .tcp port 0x02⟩) (by simp) fun _ => rfl
  have ack := syn.addPorts (cfg.rawtcpscan && cfg.pingtype.tcpUseAck) once.ackPing
    (fun port => ⟨.tcp, 6, .tcp port 0x10⟩) (by simp) fun _ => rfl
  have ts := ack.addOnce (cfg.rawicmpscan && cfg.pingtype.icmpTs) ⟨.icmp, 1, .icmp 13 0⟩ rfl
  have udp := ts.addPorts cfg.rawudpscan once.udpPing
    (fun port => ⟨.udp, 17, .udp port⟩) (by simp) fun _ => rfl
  have sctp := udp.addPorts cfg.rawsctpscan once.sctpPing
    (fun port => ⟨.sctp, 132, .sctp port .init⟩) (by simp) fun _ => rfl
  have proto := sctp.addPorts cfg.rawprotoscan once.protoPing
    (fun port => ⟨.proto, port.toUInt8, .none⟩) protocols fun _ => rfl
  have connect := proto.addPorts cfg.connecttcpscan once.synPing
    (fun port => ⟨.connectTcp, 6, .tcp port 0x02⟩) (by simp) fun _ => rfl
  exact (connect.addOnce (cfg.rawicmpscan && cfg.pingtype.icmpMask) ⟨.icmp, 1, .icmp 17 0⟩
    rfl).1

/-- No port is due twice. -/
theorem dueSpecs_targets_nodup (once : cfg.ports.Once) :
    (({} : Supply).dueSpecs cfg |>.map cfg.target).Nodup := by
  rw [dueSpecs, due_new, Config.listed]
  cases scantype : cfg.scantype with
  | portScan scan =>
    have target : ∀ pspec, cfg.target pspec = .inl (pspecPort scan pspec) := by
      intro pspec
      rw [Config.target, scantype]
    have ports : (scanPorts cfg scan).Nodup ∧
        (scan = .ipProt → ∀ port ∈ scanPorts cfg scan, port.toNat ≤ 255) := by
      cases scan with
      | udp => exact ⟨once.udp, fun absurd => by cases absurd⟩
      | sctpInit | sctpCookieEcho => exact ⟨once.sctp, fun absurd => by cases absurd⟩
      | ipProt => exact ⟨once.prots, fun _ => once.protsByte⟩
      | _ => exact ⟨once.tcp, fun absurd => by cases absurd⟩
    obtain ⟨nodup, byte⟩ := ports
    show Pairwise _ _
    rw [pairwise_map, pairwise_filterMap, pairwise_map]
    refine Pairwise.imp_of_mem ?_ nodup
    intro a b ha hb different pspec specA pspec' specB same
    have okA : portSpec cfg scan a = .ok pspec := by
      cases spec : portSpec cfg scan a with
      | error failure => rw [spec] at specA; cases specA
      | ok p => rw [spec] at specA; cases specA; rfl
    have okB : portSpec cfg scan b = .ok pspec' := by
      cases spec : portSpec cfg scan b with
      | error failure => rw [spec] at specB; cases specB
      | ok p => rw [spec] at specB; cases specB; rfl
    obtain ⟨-, protoA, portA⟩ := portSpec_spec okA
    obtain ⟨-, protoB, portB⟩ := portSpec_spec okB
    rw [target, target, portA, portB] at same
    injection same with same
    injection same with same
    injection same with number
    split at number
    · rename_i ipProt
      have bytes : a.toUInt8 = b.toUInt8 := by
        have numbers := congrArg UInt16.toNat number
        rw [UInt8.toNat_toUInt16, UInt8.toNat_toUInt16] at numbers
        exact UInt8.toNat_inj.mp numbers
      exact different (toUInt8_inj (byte ipProt a ha) (byte ipProt b hb) bytes)
    · exact different number
  | pingScanArp | pingScanNd => exact nodup_singleton _
  | pingScan =>
    have target : cfg.target = .inr := by
      funext pspec
      rw [Config.target, scantype]
    have same : (cfg.listedPings.map (Except.ok (ε := Failure))).filterMap Except.toOption =
        cfg.listedPings := by
      rw [filterMap_map]
      exact filterMap_some
    show ((cfg.listedPings.map (Except.ok (ε := Failure))).filterMap _ |>.map _).Nodup
    rw [same, target]
    exact (listedPings_nodup once).map Sum.inr_injective

end Supply

/-! ## Runs -/

section Runs

variable {cfg : Config}

def madeOf (cfg : Config) (sent : List (ProbeSpec × Fin 128)) :
    List ((Option PortKey ⊕ ProbeSpec) × ℕ) :=
  sent.map fun e => (cfg.target e.1, e.2.val)

theorem madeOf_concat (cfg : Config) (sent : List (ProbeSpec × Fin 128)) (pspec : ProbeSpec)
    (number : Fin 128) :
    madeOf cfg (sent ++ [(pspec, number)]) =
      madeOf cfg sent ++ [(cfg.target pspec, number.val)] := by
  rw [madeOf, map_append]
  rfl

/-- The attempts at a host: what is due by this supply, and what is open -/
def attemptsOf (cfg : Config) (supply : Supply) (opened : Multiset (ProbeSpec × ℕ))
    (sent : List (ProbeSpec × Fin 128)) : Attempts (Option PortKey ⊕ ProbeSpec) where
  due := (supply.dueSpecs cfg).map cfg.target
  opened := opened.map fun e => (cfg.target e.1, e.2)
  made := madeOf cfg sent

/-- What holds in all states of a run: the attempts are sound, also after the program has
stopped. -/
def RunSound (cfg : Config) (s : ScanRun) : Prop :=
  match s.state with
  | .ok (h, _) => h.Kept cfg ∧
      (attemptsOf cfg h.hss.supply h.opened s.sent).Sound cfg.maxRetransmissions
  | .error _ => ∃ attempts : Attempts (Option PortKey ⊕ ProbeSpec),
      attempts.Sound cfg.maxRetransmissions ∧ attempts.made = madeOf cfg s.sent

theorem runSound_of {r : Except Failure (HostTries × GroupProbes)}
    {sent : List (ProbeSpec × Fin 128)} {supply : Supply} {bound : Multiset (ProbeSpec × ℕ)}
    (sound : (attemptsOf cfg supply bound sent).Sound cfg.maxRetransmissions)
    (returns : Returns (fun s : HostTries × GroupProbes =>
      s.1.Kept cfg ∧ s.1.opened ≤ bound ∧ s.1.hss.supply = supply) r) :
    RunSound cfg ⟨r, sent⟩ := by
  cases r with
  | error failure => exact ⟨_, sound, rfl⟩
  | ok s =>
    obtain ⟨kept, opened, rfl⟩ := returns
    exact ⟨kept, sound.steps (.lose le_rfl (Multiset.map_le_map opened))⟩

theorem hostStep_sound (fits : cfg.maxRetransmissions ≤ 127) {s t : ScanRun}
    (sound : RunSound cfg s) (step : hostStep cfg s t) : RunSound cfg t := by
  obtain ⟨h, g, e, state, may, rfl⟩ := step
  rw [RunSound, state] at sound
  obtain ⟨kept, sound⟩ := sound
  have quiet : ∀ {r : Except Failure (HostTries × GroupProbes)},
      Returns (fun s : HostTries × GroupProbes => h.Quiet cfg s.1) r →
      RunSound cfg ⟨r, s.sent ++ []⟩ := by
    intro r returns
    rw [append_nil]
    exact runSound_of sound (returns.mono fun _ quiet =>
      ⟨quiet.kept, quiet.opened, quiet.supply⟩)
  have again : ∀ {r : Except Failure (HostTries × GroupProbes)} {pspec : ProbeSpec} {n : ℕ}
      {number : Fin 128}, number.val = n + 1 → HostTries.SendsAgain cfg h pspec n r →
      RunSound cfg ⟨r, s.sent ++ [(pspec, number)]⟩ := by
    rintro r pspec n number same ⟨below, rest, opened, returns⟩
    refine runSound_of ?_ returns
    rw [attemptsOf, madeOf_concat, same, Multiset.map_cons]
    refine sound.steps (.again below ?_ le_rfl)
    rw [← opened, Multiset.map_cons]
  cases e with
  | newProbe call =>
    obtain ⟨left, fresh⟩ := may
    obtain ⟨pspec, supply, next, -⟩ := Supply.nextTargetProbe_fresh left
    have takes := Supply.dueSpecs_takes next
    have sendable : Sendable pspec :=
      Supply.dueSpecs_sendable (takes.subset mem_cons_self)
    have sends : HostEvent.sends cfg h (.newProbe call) = [(pspec, 0)] := by
      rw [HostEvent.sends, next]
      show [(sentSpec pspec.type.upType pspec, _)] = _
      rw [sendable]
    rw [sends]
    refine runSound_of ?_ (kept.sendNextScanProbe g next fresh)
    rw [sendable, attemptsOf, madeOf_concat, Multiset.map_cons]
    exact sound.steps (.first (takes.map cfg.target).subperm le_rfl)
  | retryStackProbe call =>
    obtain ⟨nonempty, fresh⟩ := may
    have triesNonempty : h.retryStackTries ≠ [] := by
      have sync := kept.sync
      rintro empty
      rw [empty] at sync
      exact nonempty (length_eq_zero_iff.mp sync)
    have last := List.getLast?_eq_getLast_of_ne_nil nonempty
    have tries := List.getLast?_eq_getLast_of_ne_nil triesNonempty
    obtain ⟨sendable, number, sendsAgain⟩ :=
      kept.sendNextRetryStackProbe fits g last tries fresh
    rw [HostEvent.sends, last, tries]
    show RunSound cfg ⟨_, s.sent ++ [(sentSpec _ _, _)]⟩
    rw [sendable]
    exact again number sendsAgain
  | pingProbe seqnum call => exact quiet (kept.sendPingProbe seqnum g may)
  | retransmit probe call =>
    obtain ⟨same, number, returns⟩ := kept.retransmit fits g may
    show RunSound cfg ⟨_, s.sent ++ [(sentSpec probe.type probe.pspec, _)]⟩
    rw [same]
    exact again number returns
  | pingUpdate probe => exact quiet (kept.onProbes (destroy_fewer h.hss g probe))
  | hostUpdate probe newstate adjustTimingHint =>
    exact quiet (kept.onProbes
      (hostProbeUpdate_fewer cfg h.hss g probe newstate adjustTimingHint))
  | portUpdate probe newstate adjustTimingHint =>
    exact quiet (kept.portUpdate g probe newstate adjustTimingHint)
  | connectResult probe errno sockname =>
    exact quiet (kept.connectUpdate g probe errno sockname false)
  | destroyAll => exact quiet (kept.onProbes (destroyAll_fewer h.hss g))
  | processData ages => exact quiet (kept.processData fits ages g)
  | elsewhere hss g =>
    obtain ⟨same, supply, bench, stack⟩ := may
    have fewer : Fewer h.hss hss := by
      refine ⟨?_, bench, stack, supply⟩
      rw [HostScanStats.marks, same.probes]
      exact .refl _
    exact quiet (kept.fewer fewer ⟨rfl, rfl⟩)

theorem runSound_inductive (once : cfg.ports.Once) (fits : cfg.maxRetransmissions ≤ 127) :
    (hostScan cfg).Inductive (RunSound cfg) where
  init := by
    rintro _ ⟨h, g, new, rfl⟩
    obtain ⟨probes, -, -, bench, stack, supply, -, tries, -⟩ := new
    have marks : h.hss.marks = [] := by
      rw [HostScanStats.marks, probes]
      rfl
    have opened : h.opened = 0 := by
      rw [HostTries.opened, HostTries.openBench, HostTries.openStack, marks, bench, stack]
      rfl
    refine ⟨⟨?_, ?_, ?_, ?_, ?_, ?_⟩, ?_⟩
    · rw [marks]
      exact nodup_nil
    · rw [marks]
      exact fun m mem => by cases mem
    · rw [bench]
      exact fun pspec mem => by cases mem
    · rw [stack]
      exact fun pspec mem => by cases mem
    · rw [tries]
      exact fun n mem => by cases mem
    · rw [stack, tries]
      rfl
    · rw [opened, supply]
      exact .start (Multiset.coe_nodup.mpr (Supply.dueSpecs_targets_nodup once))
  step := fun _ _ sound step => hostStep_sound fits sound step

end Runs

/-! ## The bound -/

/-- The scan probes of a run are within the bound, and each has the number of those for the same
port before it. -/
structure TriesBounded (cfg : Config) (sent : List (ProbeSpec × Fin 128)) : Prop where
  count : ∀ pspec, sent.countP (fun e => cfg.target e.1 = cfg.target pspec) ≤
    cfg.maxRetransmissions + 1
  tryno : ∀ earlier pspec tryno later, sent = earlier ++ (pspec, tryno) :: later →
    tryno.val = earlier.countP fun e => cfg.target e.1 = cfg.target pspec

theorem triesBounded_of_sound {cfg : Config}
    {sent : List (ProbeSpec × Fin 128)} {attempts : Attempts (Option PortKey ⊕ ProbeSpec)}
    (sound : attempts.Sound cfg.maxRetransmissions) (made : attempts.made = madeOf cfg sent) :
    TriesBounded cfg sent := by
  have counts : ∀ (sent : List (ProbeSpec × Fin 128)) pspec,
      (madeOf cfg sent).countP (fun e => e.1 = cfg.target pspec) =
        sent.countP fun e => cfg.target e.1 = cfg.target pspec := by
    intro sent pspec
    rw [madeOf, countP_map]
    rfl
  constructor
  · intro pspec
    have bound := sound.count_le (cfg.target pspec)
    rw [made, counts] at bound
    exact bound
  · rintro earlier pspec tryno later rfl
    rw [madeOf, map_append, map_cons] at made
    have number := sound.number_eq made
    rw [← counts earlier pspec]
    exact number

/-- In every state of every run, if try numbers can reach the greatest number of
retransmissions -/
theorem retransmission_bound {cfg : Config} (once : cfg.ports.Once)
    (fits : cfg.maxRetransmissions ≤ 127) {s : ScanRun} (reach : (hostScan cfg).Reachable s) :
    TriesBounded cfg s.sent := by
  have sound := (runSound_inductive once fits).holds reach
  rw [RunSound] at sound
  split at sound
  · exact triesBounded_of_sound sound.2 rfl
  · obtain ⟨attempts, sound, made⟩ := sound
    exact triesBounded_of_sound sound made

end Nmap.ScanEngine
