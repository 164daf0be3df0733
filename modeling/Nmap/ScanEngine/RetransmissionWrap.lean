import Nmap.ScanEngine.RetransmissionBound

/-!
# Try numbers that start again (`scan_engine.h`, `scan_engine.cc`, `NmapOps.cc`)

A try number has 7 bits. If 128 retransmissions are allowed, and ports are answered at one try
more each, then there comes a state where every try number is below the highest allowed one: a
port without an answer is probed for ever.
-/

namespace Nmap.ScanEngine

open List

open Nmap.Ports (PortState PortKey)

/-! ## A scan of 128 ports -/

def widePort (i : Nat) : UInt16 := UInt16.ofNat (i + 1)

/-- A SYN scan of the ports from 1 to 128 -/
def wideScan (maxRetransmissions : Nat) : Config where
  scantype := .portScan .syn
  ports := ⟨[], [], [], [], [], (List.range 128).map widePort, [], [], []⟩
  pingtype := ⟨false, false, false, false, false, false, false, false, false, false⟩
  isr00t := true
  ipv6 := false
  scanflags := none
  maxRetransmissions := maxRetransmissions
  defeatRstRatelimit := false
  defeatIcmpRatelimit := false
  discoveryIgnoreRst := false
  udpPayloadCount := fun _ => 0

def synSpec (port : UInt16) : ProbeSpec := ⟨.tcp, 6, .tcp port 0x02⟩

/-- A probe gets its number as its address. -/
def tryCall (n : Nat) : ProbeCall where
  addr := n
  result := .inProgress
  sockname := .distinct
  now := .zero
  ipid := 0
  extra := .none

/-- The probe for a port after so many others for it -/
def nthProbe (port : UInt16) (n : Nat) : UltraProbe :=
  rawProbe .ip (synSpec port) ⟨false, Fin.ofNat 128 n⟩ (tryCall n)

def lateNth (port : UInt16) (n : Nat) : UltraProbe := (nthProbe port n).expire

/-- So much time has passed that all probes are late, and have expired. -/
def allLate : HostTries.Ages := ⟨fun _ => true, fun _ => true⟩

variable {m : Nat}

theorem widePort_inj {i j : Nat} (hi : i < 128) (hj : j < 128)
    (same : widePort i = widePort j) : i = j := by
  have numbers := congrArg UInt16.toNat same
  simp only [widePort, UInt16.toNat_ofNat'] at numbers
  omega

theorem wideScan_once (m : Nat) : (wideScan m).ports.Once := by
  have tcp : ((List.range 128).map widePort).Nodup := by
    apply nodup_range.map_on
    intro i hi j hj same
    exact widePort_inj (mem_range.mp hi) (mem_range.mp hj) same
  have byte : ∀ port ∈ ([] : List UInt16), port.toNat ≤ 255 := fun _ mem => by cases mem
  exact ⟨.nil, .nil, .nil, .nil, .nil, byte, tcp, .nil, .nil, .nil, byte⟩

theorem wideScan_next {s : Supply} (left : s.nextPortidx < 128) :
    s.nextTargetProbe (wideScan m) = .ok (some (synSpec (widePort s.nextPortidx),
      { s with nextPortidx := s.nextPortidx + 1 })) := by
  have port : ((List.range 128).map widePort)[s.nextPortidx]? =
      some (widePort s.nextPortidx) := by
    rw [List.getElem?_map, List.getElem?_range left]
    rfl
  show s.nextPort (wideScan m) .syn = _
  rw [Supply.nextPort]
  have next : (Supply.scanPorts (wideScan m) .syn)[s.nextPortidx]? = _ := port
  rw [next]
  rfl

/-! ## Stages of a run -/

/-- A host in this scan: the highest answered try, the next port and the probes that are
outstanding -/
structure Stage (answered next : Nat) (probes : List UltraProbe) (h : HostTries)
    (g : GroupProbes) : Prop where
  counted : Counted h.hss g
  probes : h.hss.probesOutstanding = probes
  bench : h.hss.probeBench = []
  supply : h.hss.supply.nextPortidx = next
  answered : h.maxSuccessfulTryno = answered
  scanned : h.hss.ports.ports.Scanned

theorem writeProbe_self (probe : UltraProbe) (f : UltraProbe → UltraProbe) :
    writeProbe [probe] probe.addr f = [f probe] := by
  rw [writeProbe, map_singleton, if_pos rfl]

theorem ultrascanPortPspecUpdate_scanned {scan : Ports.ScanType} {pspec : ProbeSpec}
    {key : PortKey} (target : pspecPort scan pspec = some key) {ports : HostPorts}
    (scanned : ports.ports.Scanned) {newstate : PortState} (answer : Ports.Answered newstate) :
    ∃ ports' changed, ultrascanPortPspecUpdate scan ports pspec newstate =
        some (ports', changed) ∧ ports'.ports.Scanned := by
  obtain ⟨ports', changed, port, update, same, state⟩ :=
    Ports.ultrascanPortPspecUpdate_spec scan.norespOpenScan (scanned key) answer
  refine ⟨_, changed, by
    rw [ultrascanPortPspecUpdate_eq target ports (scanned key) answer, update]
    rfl, scanned.settled answer same state⟩

theorem changePingprobe_kept (cfg : Config) (hss : HostScanStats) (adjustPing : Bool)
    (pspec : ProbeSpec) (state : PortState) :
    ∃ pingprobe pingprobeState, hss.changePingprobe cfg adjustPing pspec state =
      { hss with pingprobe := pingprobe, pingprobeState := pingprobeState } := by
  rw [HostScanStats.changePingprobe]
  split
  · exact ⟨_, _, rfl⟩
  · exact ⟨_, _, rfl⟩

theorem portProbeUpdate_eq (cfg : Config) {hss : HostScanStats} {probe : UltraProbe}
    {key : PortKey} (target : pspecPort cfg.updateScan probe.pspec = some key)
    {newstate : PortState} {ports : HostPorts} {changed : Bool}
    (update : ultrascanPortPspecUpdate cfg.updateScan hss.ports probe.pspec newstate =
      some (ports, changed)) (g : GroupProbes) (adjustTimingHint : Bool) :
    ∃ pingprobe pingprobeState,
      ultrascanPortProbeUpdate cfg hss g probe newstate adjustTimingHint =
        destroyOutstandingProbe { hss with
          ports := ports
          pingprobe := pingprobe
          pingprobeState := pingprobeState } g probe := by
  rw [ultrascanPortProbeUpdate, target]
  simp only [update]
  obtain ⟨pingprobe, pingprobeState, pinged⟩ := changePingprobe_kept cfg
    { hss with ports := ports } _ probe.pspec newstate
  refine ⟨pingprobe, pingprobeState, ?_⟩
  show destroyOutstandingProbe (HostScanStats.changePingprobe cfg _ _ _ _) g probe = _
  rw [pinged]

namespace Stage

variable {answered next : Nat} {probes : List UltraProbe} {h : HostTries} {g : GroupProbes}

theorem setProbes (stage : Stage answered next probes h g) {probes' : List UltraProbe}
    {active waiting : Nat} {g' : GroupProbes}
    (counted : Counted (h.hss.setProbes probes' active waiting) g') :
    Stage answered next probes'
      { h with hss := h.hss.setProbes probes' active waiting } g' where
  counted := counted
  probes := rfl
  bench := stage.bench
  supply := stage.supply
  answered := stage.answered
  scanned := stage.scanned

theorem allowedTryno (stage : Stage answered next probes h g) (wide : answered + 1 ≤ m) :
    h.allowedTryno (wideScan m) = (answered + 1, false) := by
  rw [HostTries.allowedTryno, stage.answered, Nat.max_eq_right (by omega)]
  exact if_neg (by show ¬ m < answered + 1; omega)

theorem freshPortsLeft (stage : Stage answered next probes h g) (left : next < 128) :
    h.hss.supply.freshPortsLeft (wideScan m) = true := by
  show decide (h.hss.supply.nextPortidx < ((List.range 128).map widePort).length) = true
  simp [stage.supply, left]

variable {probe : UltraProbe}

theorem active_ne_zero (stage : Stage answered next probes h g) (mem : probe ∈ probes)
    (live : probe.timedout = false) : h.hss.numProbesActive ≠ 0 := by
  rw [← stage.probes] at mem
  exact Nat.pos_iff_ne_zero.mp (stage.counted.active_pos mem live)

/-! ### A new probe -/

theorem newProbe (stage : Stage answered next [] h g) (left : next < 128) :
    ∃ h' g', HostEvent.perform (wideScan m) h g (.newProbe (tryCall 0)) = .ok (h', g') ∧
      Stage answered (next + 1) [nthProbe (widePort next) 0] h' g' := by
  obtain ⟨counted, none_left, bench, rfl, answered, scanned⟩ := stage
  let probe := nthProbe (widePort h.hss.supply.nextPortidx) 0
  let supply := { h.hss.supply with nextPortidx := h.hss.supply.nextPortidx + 1 }
  let sent := { h.hss with supply := supply, numprobesSent := h.hss.numprobesSent + 1 }
  have performed : HostEvent.perform (wideScan m) h g (.newProbe (tryCall 0)) =
      .ok ({ h with hss := sent.addProbe probe },
        { g with
          numProbesActive := g.numProbesActive + 1
          probesSent := g.probesSent + 1 }) := by
    show h.sendNextScanProbe (wideScan m) (tryCall 0) g = _
    rw [HostTries.sendNextScanProbe, wideScan_next left]
    rfl
  refine ⟨_, _, performed, ?_⟩
  have fresh : probe.addr ∉ h.hss.probesOutstanding.map (·.addr) := by
    rw [none_left]
    exact not_mem_nil
  obtain ⟨distinct, active, waiting, group⟩ := counted.add fresh rfl g.csi
  refine ⟨⟨distinct, active, waiting, group⟩, ?_, bench, rfl, answered, scanned⟩
  show h.hss.probesOutstanding ++ [probe] = [probe]
  rw [none_left]
  rfl

/-! ### Retransmission -/

theorem seqnum_succ (n : Nat) : Fin.ofNat 128 n + 1 = Fin.ofNat 128 (n + 1) := by
  apply Fin.ext
  show (n % 128 + 1) % 128 = (n + 1) % 128
  omega

theorem written (port : UInt16) (n : Nat) :
    writeProbe (writeProbe [lateNth port n, nthProbe port (n + 1)] (n + 1)
      (UltraProbe.setPrevSent .zero)) n UltraProbe.resent =
      [(lateNth port n).resent, nthProbe port (n + 1)] := by
  have old : (lateNth port n).addr = n := rfl
  have new : (nthProbe port (n + 1)).addr = n + 1 := rfl
  have same : (nthProbe port (n + 1)).setPrevSent .zero = nthProbe port (n + 1) := rfl
  simp [writeProbe, old, new, same]

variable {port : UInt16} {n : Nat}

theorem retransmit (stage : Stage answered next [lateNth port n] h g) :
    ∃ h' g', HostEvent.perform (wideScan m) h g
        (.retransmit (lateNth port n) (tryCall (n + 1))) = .ok (h', g') ∧
      Stage answered next [(lateNth port n).resent, nthProbe port (n + 1)] h' g' := by
  obtain ⟨counted, outstanding, bench, supply, answered, scanned⟩ := stage
  have active : h.hss.numProbesActive = 0 := by
    rw [counted.active, outstanding]
    rfl
  have waiting : h.hss.numProbesWaitingRetransmit = 1 := by
    rw [counted.waiting, outstanding]
    rfl
  let probes := writeProbe (writeProbe (h.hss.probesOutstanding ++ [nthProbe port (n + 1)])
    (n + 1) (UltraProbe.setPrevSent .zero)) n UltraProbe.resent
  have probes_eq : probes = [(lateNth port n).resent, nthProbe port (n + 1)] := by
    show writeProbe (writeProbe (h.hss.probesOutstanding ++ _) _ _) _ _ = _
    rw [outstanding]
    exact written port n
  have again : sendAgain (wideScan m) (rawSenders (wideScan m) (tryCall (n + 1))) h.hss g
      (lateNth port n) ⟨false, Fin.ofNat 128 n + 1⟩ (tryCall (n + 1)).toConnectCall =
      .ok (h.hss.addProbe (nthProbe port (n + 1)),
        { g with numProbesActive := g.numProbesActive + 1 }, some (n + 1)) := by
    rw [seqnum_succ]
    rfl
  have still : (lateNth port n).addr ∈
      (h.hss.addProbe (nthProbe port (n + 1))).probesOutstanding.map (·.addr) := by
    apply mem_map_of_mem
    apply mem_append_left
    rw [outstanding]
    exact mem_cons_self
  let hss' := { h.hss.setProbes probes (h.hss.numProbesActive + 1) 0 with
    numprobesSent := h.hss.numprobesSent + 1 }
  let g' := { g with
    numProbesActive := g.numProbesActive + 1
    probesSent := g.probesSent + 1 }
  have sent : retransmitProbe (wideScan m) (rawSenders (wideScan m) (tryCall (n + 1))) h.hss g
      (lateNth port n) (tryCall (n + 1)).toConnectCall = .ok (hss', g') := by
    rw [retransmitProbe]
    show (sendAgain _ _ _ _ _ ⟨false, Fin.ofNat 128 n + 1⟩ _ >>= _) = _
    rw [again]
    show (if _ then _ else _) = _
    rw [if_neg (not_not.mpr still)]
    show (decrement h.hss.numProbesWaitingRetransmit >>= _) = _
    rw [waiting]
    rfl
  have performed : h.retransmit (wideScan m) (tryCall (n + 1)) g (lateNth port n) =
      .ok ({ h with hss := hss' }, g') := by
    rw [HostTries.retransmit, sent]
    rfl
  refine ⟨_, _, performed, ⟨?_, ?_, ?_, ?_⟩, probes_eq, bench, supply, answered, scanned⟩
  · show (probes.map _).Nodup
    rw [probes_eq]
    show [n, n + 1].Nodup
    simp
  · show h.hss.numProbesActive + 1 = probes.countP _
    rw [probes_eq, active]
    rfl
  · show 0 = probes.countP _
    rw [probes_eq]
    rfl
  · show h.hss.numProbesActive + 1 ≤ g.numProbesActive + 1
    exact Nat.succ_le_succ counted.group

/-! ### Time -/

/-- A round of `processData`, by whose end this probe is late -/
theorem late_round (stage : Stage answered next probes h g) (mem : probe ∈ probes)
    (live : probe.timedout = false) (first : probe.retransmitted = false) (maxtries : Nat)
    (trynoMayincrease : Bool) :
    ∃ h' g', HostTries.processProbe (wideScan m) allLate maxtries trynoMayincrease (h, g) probe =
        .ok (h', g') ∧
      Stage answered next (writeProbe probes probe.addr UltraProbe.expire) h' g' := by
  have outstanding := stage.probes
  subst outstanding
  obtain ⟨active, waiting, g', marked, counted⟩ := stage.counted.markTimedout mem live first
  refine ⟨_, g', ?_, stage.setProbes counted⟩
  rw [HostTries.processProbe, if_pos (by rw [live]; rfl), marked]
  rfl

theorem gone_round (stage : Stage answered next probes h g) (mem : probe ∈ probes)
    (late : probe.timedout = true) (resent : probe.retransmitted = true) (maxtries : Nat)
    (trynoMayincrease : Bool) :
    ∃ h' g', HostTries.processProbe (wideScan m) allLate maxtries trynoMayincrease (h, g) probe =
        .ok (h', g') ∧ Stage answered next (probes.erase probe) h' g' := by
  have outstanding := stage.probes
  subst outstanding
  obtain ⟨active, waiting, g', destroyed, counted, -⟩ := stage.counted.destroy mem
  refine ⟨_, g', ?_, stage.setProbes counted⟩
  rw [HostTries.processProbe, late, resent, destroyed]
  simp [HostTries.onProbes, allLate, Except.map]

/-- Without a bench, and while there are active probes or fresh ports, `processData` only looks
at the probes. -/
theorem processData_eq (stage : Stage answered next probes h g)
    (more : h.hss.numProbesActive ≠ 0 ∨ next < 128) :
    ∃ maxtries trynoMayincrease, h.processData (wideScan m) allLate g = probes.foldlM
      (HostTries.processProbe (wideScan m) allLate maxtries trynoMayincrease) (h, g) := by
  have outstanding := stage.probes
  subst outstanding
  have increase : h.mayIncrease (wideScan m) = .ok (!(h.allowedTryno (wideScan m)).2) := by
    have different : ¬ (h.hss.numProbesActive = 0 ∧
        h.hss.supply.freshPortsLeft (wideScan m) = false) := by
      rintro ⟨none_active, none_fresh⟩
      rcases more with active | left
      · exact active none_active
      · rw [stage.freshPortsLeft left] at none_fresh
        cases none_fresh
    rw [HostTries.mayIncrease]
    dsimp only
    rw [if_neg (by simpa using fun _ => not_and.mp different)]
    rfl
  refine ⟨(h.allowedTryno (wideScan m)).1, !(h.allowedTryno (wideScan m)).2, ?_⟩
  rw [HostTries.processData, increase]
  show (h.checkBench _ _ _ >>= _) = _
  rw [HostTries.checkBench, stage.bench]
  rfl

/-- A probe that was just sent has timed out after `processData`. -/
theorem newLate (stage : Stage answered next [nthProbe port 0] h g) :
    ∃ h' g', h.processData (wideScan m) allLate g = .ok (h', g') ∧
      Stage answered next [lateNth port 0] h' g' := by
  obtain ⟨maxtries, increase, processed⟩ := stage.processData_eq (m := m)
    (Or.inl (stage.active_ne_zero mem_cons_self rfl))
  obtain ⟨h', g', late, stage'⟩ :=
    stage.late_round (m := m) mem_cons_self rfl rfl maxtries increase
  rw [writeProbe_self] at stage'
  refine ⟨h', g', ?_, stage'⟩
  rw [processed, foldlM_cons, late]
  rfl

theorem againLate
    (stage : Stage answered next [(lateNth port n).resent, nthProbe port (n + 1)] h g) :
    ∃ h' g', h.processData (wideScan m) allLate g = .ok (h', g') ∧
      Stage answered next [lateNth port (n + 1)] h' g' := by
  obtain ⟨maxtries, increase, processed⟩ := stage.processData_eq (m := m)
    (Or.inl (stage.active_ne_zero (mem_cons_of_mem _ mem_cons_self) rfl))
  obtain ⟨h1, g1, gone, stage1⟩ :=
    stage.gone_round (m := m) mem_cons_self rfl rfl maxtries increase
  rw [erase_cons_head] at stage1
  obtain ⟨h2, g2, late, stage2⟩ :=
    stage1.late_round (m := m) mem_cons_self rfl rfl maxtries increase
  rw [writeProbe_self] at stage2
  refine ⟨h2, g2, ?_, stage2⟩
  rw [processed, foldlM_cons, gone]
  show [nthProbe port (n + 1)].foldlM
    (HostTries.processProbe (wideScan m) allLate maxtries increase) (h1, g1) = _
  rw [foldlM_cons, late]
  rfl

theorem oldLate (stage : Stage answered next [(lateNth port n).resent] h g) (left : next < 128) :
    ∃ h' g', h.processData (wideScan m) allLate g = .ok (h', g') ∧
      Stage answered next [] h' g' := by
  obtain ⟨maxtries, increase, processed⟩ := stage.processData_eq (m := m) (Or.inr left)
  obtain ⟨h', g', gone, stage'⟩ :=
    stage.gone_round (m := m) mem_cons_self rfl rfl maxtries increase
  rw [erase_cons_head] at stage'
  refine ⟨h', g', ?_, stage'⟩
  rw [processed, foldlM_cons, gone]
  rfl

/-! ### An answer -/

/-- An answer to a higher try than all before raises the highest answered one. -/
theorem answer (stage : Stage answered next [(lateNth port n).resent, nthProbe port (n + 1)] h g)
    (fits : n + 1 < 128) (higher : answered < n + 1) :
    ∃ h' g', HostEvent.perform (wideScan m) h g
        (.portUpdate (nthProbe port (n + 1)) .open true) = .ok (h', g') ∧
      Stage (n + 1) next [(lateNth port n).resent] h' g' := by
  obtain ⟨counted, outstanding, bench, supply, answered, scanned⟩ := stage
  have mem : nthProbe port (n + 1) ∈ h.hss.probesOutstanding := by
    rw [outstanding]
    exact mem_cons_of_mem _ mem_cons_self
  have target : pspecPort .syn (nthProbe port (n + 1)).pspec = some ⟨port, .tcp⟩ := rfl
  obtain ⟨ports, changed, update, scanned'⟩ :=
    ultrascanPortPspecUpdate_scanned target scanned (Or.inl rfl : Ports.Answered .open)
  obtain ⟨pingprobe, pingprobeState, updated⟩ :=
    portProbeUpdate_eq (wideScan m) target update g true
  let hss := { h.hss with
    ports := ports
    pingprobe := pingprobe
    pingprobeState := pingprobeState }
  have same : SameProbes h.hss hss := ⟨rfl, rfl, rfl⟩
  obtain ⟨active, waiting, g', destroyed, counted', -⟩ := (same.counted counted).destroy mem
  have erased : hss.probesOutstanding.erase (nthProbe port (n + 1)) =
      [(lateNth port n).resent] := by
    have older : (lateNth port n).resent ≠ nthProbe port (n + 1) := by
      intro same
      have addrs : n = n + 1 := congrArg UltraProbe.addr same
      omega
    show h.hss.probesOutstanding.erase _ = _
    rw [outstanding, erase_cons_tail (by simpa using older), erase_cons_head]
  rw [erased] at destroyed counted'
  have number : (nthProbe port (n + 1)).tryno.seqnum.val = n + 1 := Nat.mod_eq_of_lt fits
  let h1 := { h with hss := hss.setProbes [(lateNth port n).resent] active waiting }
  have raised : h1.succeeded (wideScan m) (nthProbe port (n + 1)) .open true =
      { h1 with maxSuccessfulTryno := n + 1 } := by
    rw [HostTries.succeeded, number]
    exact if_pos (by simpa [HostTries.adjustsTiming, wideScan, h1, answered] using higher)
  have performed : h.portUpdate (wideScan m) g (nthProbe port (n + 1)) .open true =
      .ok ({ h1 with maxSuccessfulTryno := n + 1 }, g') := by
    rw [HostTries.portUpdate, updated, destroyed]
    show Except.ok (h1.succeeded (wideScan m) (nthProbe port (n + 1)) .open true, g') = _
    rw [raised]
  exact ⟨_, g', performed, counted', rfl, bench, supply, rfl, scanned'⟩

end Stage

/-! ## The run -/

/-- A run comes to such a stage, after these scan probes. -/
def Comes (m answered next : Nat) (probes : List UltraProbe) (sent : List (ProbeSpec × Fin 128)) :
    Prop :=
  ∃ h g, (hostScan (wideScan m)).Reachable ⟨.ok (h, g), sent⟩ ∧ Stage answered next probes h g

namespace Comes

variable {answered next : Nat} {sent : List (ProbeSpec × Fin 128)}

theorem start (m : Nat) : Comes m 0 0 [] [] := by
  let h : HostTries := ⟨.new 0 [192, 0, 2, 1], 0, [], 0⟩
  have new : h.New := ⟨rfl, rfl, rfl, rfl, rfl, rfl, rfl, rfl, rfl⟩
  refine ⟨h, ⟨0, 0, ⟨0, []⟩⟩, .start ⟨h, _, new, rfl⟩, ⟨.nil, rfl, rfl, le_rfl⟩, rfl, rfl, rfl,
    rfl, ?_⟩
  intro key state known
  cases known

theorem event {probes : List UltraProbe} {answered' next' : Nat} {h : HostTries}
    {g : GroupProbes} (reach : (hostScan (wideScan m)).Reachable ⟨.ok (h, g), sent⟩) {e : HostEvent}
    (may : e.May (wideScan m) h)
    (performs : ∃ h' g', e.perform (wideScan m) h g = .ok (h', g') ∧
      Stage answered' next' probes h' g') :
    Comes m answered' next' probes (sent ++ e.sends (wideScan m) h) := by
  obtain ⟨h', g', performed, stage⟩ := performs
  refine ⟨h', g', .next reach ⟨h, g, e, rfl, may, ?_⟩, stage⟩
  rw [performed]

theorem newProbe (comes : Comes m answered next [] sent) (left : next < 128) :
    Comes m answered (next + 1) [lateNth (widePort next) 0]
      (sent ++ [(synSpec (widePort next), 0)]) := by
  obtain ⟨h, g, reach, stage⟩ := comes
  have sends : HostEvent.sends (wideScan m) h (.newProbe (tryCall 0)) =
      [(synSpec (widePort next), 0)] := by
    rw [HostEvent.sends, wideScan_next (stage.supply.symm ▸ left), stage.supply]
    rfl
  have unused : (tryCall 0).addr ∉ h.hss.probesOutstanding.map (·.addr) := by
    rw [stage.probes]
    exact not_mem_nil
  have may : HostEvent.May (wideScan m) h (.newProbe (tryCall 0)) :=
    ⟨stage.freshPortsLeft left, unused⟩
  obtain ⟨h1, g1, reach1, stage1⟩ := event reach may (stage.newProbe left)
  have late := event (e := .processData allLate) reach1 trivial stage1.newLate
  rw [sends] at late
  rwa [← append_nil (sent ++ [_])]

variable {port : UInt16} {n : Nat}

theorem resend (comes : Comes m answered next [lateNth port n] sent) (wide : answered + 1 ≤ m)
    (below : n % 128 < answered + 1) :
    Comes m answered next [(lateNth port n).resent, nthProbe port (n + 1)]
      (sent ++ [(synSpec port, Fin.ofNat 128 (n + 1))]) := by
  obtain ⟨h, g, reach, stage⟩ := comes
  have may : HostEvent.May (wideScan m) h (.retransmit (lateNth port n) (tryCall (n + 1))) := by
    refine ⟨?_, rfl, rfl, rfl, ?_, ?_⟩
    · rw [stage.probes]
      exact mem_cons_self
    · rw [stage.allowedTryno wide]
      exact below
    · rw [stage.probes]
      show n + 1 ∉ [n]
      simp
  have sends : HostEvent.sends (wideScan m) h (.retransmit (lateNth port n) (tryCall (n + 1))) =
      [(synSpec port, Fin.ofNat 128 (n + 1))] := by
    show [(synSpec port, Fin.ofNat 128 n + 1)] = _
    rw [Stage.seqnum_succ]
  rw [← sends]
  exact event reach may stage.retransmit

theorem again (comes : Comes m answered next [lateNth port n] sent) (wide : answered + 1 ≤ m)
    (below : n % 128 < answered + 1) :
    Comes m answered next [lateNth port (n + 1)]
      (sent ++ [(synSpec port, Fin.ofNat 128 (n + 1))]) := by
  obtain ⟨h, g, reach, stage⟩ := comes.resend wide below
  rw [← append_nil (sent ++ [_])]
  exact event (e := .processData allLate) reach trivial stage.againLate

theorem answer (comes : Comes m answered next [lateNth port n] sent) (wide : answered + 1 ≤ m)
    (last : n = answered) (fits : n + 1 < 128) (left : next < 128) :
    Comes m (n + 1) next [] (sent ++ [(synSpec port, Fin.ofNat 128 (n + 1))]) := by
  obtain ⟨h, g, reach, stage⟩ := comes.resend wide (by omega)
  have outstanding : nthProbe port (n + 1) ∈ h.hss.probesOutstanding := by
    rw [stage.probes]
    exact mem_cons_of_mem _ mem_cons_self
  obtain ⟨h1, g1, reach1, stage1⟩ :=
    event (e := .portUpdate (nthProbe port (n + 1)) .open true) reach outstanding
      (stage.answer fits (by omega))
  have expired := event (e := .processData allLate) reach1 trivial (stage1.oldLate left)
  simpa [HostEvent.sends] using expired

theorem tries (comes : Comes m answered next [lateNth port 0] sent) (wide : answered + 1 ≤ m)
    (few : n ≤ answered) :
    ∃ sent, Comes m answered next [lateNth port n] sent := by
  induction n with
  | zero => exact ⟨sent, comes⟩
  | succ n ih =>
    obtain ⟨sent, comes⟩ := ih (by omega)
    exact ⟨_, comes.again wide (by omega)⟩

theorem answers (wide : 128 ≤ m) (fits : n < 128) : ∃ sent, Comes m n n [] sent := by
  induction n with
  | zero => exact ⟨[], start m⟩
  | succ n ih =>
    obtain ⟨sent, comes⟩ := ih (by omega)
    obtain ⟨sent, comes⟩ := (comes.newProbe (by omega)).tries (by omega) le_rfl
    exact ⟨_, comes.answer (by omega) rfl fits fits⟩

theorem endless (wide : 128 ≤ m) (n : Nat) : ∃ sent,
    Comes m 127 128 [lateNth (widePort 127) n] sent ∧
      n < sent.countP fun e => (wideScan m).target e.1 =
        (wideScan m).target (synSpec (widePort 127)) := by
  induction n with
  | zero =>
    obtain ⟨sent, comes⟩ := answers wide (Nat.lt_succ_self 127)
    refine ⟨_, comes.newProbe (Nat.lt_succ_self 127), ?_⟩
    rw [countP_append]
    simp
  | succ n ih =>
    obtain ⟨sent, comes, more⟩ := ih
    have below : n % 128 < 127 + 1 := Nat.mod_lt n (by omega)
    refine ⟨_, comes.again wide below, ?_⟩
    rw [countP_append]
    simpa using Nat.succ_lt_succ more

end Comes

theorem wideScan_unbounded (wide : 128 ≤ m) : ∃ s, (hostScan (wideScan m)).Reachable s ∧
    ¬ TriesBounded (wideScan m) s.sent := by
  obtain ⟨sent, ⟨h, g, reach, -⟩, more⟩ := Comes.endless wide (m + 1)
  refine ⟨⟨.ok (h, g), sent⟩, reach, ?_⟩
  intro bounded
  have count := bounded.count (synSpec (widePort 127))
  exact absurd count (Nat.not_le_of_lt more)

/-- The bound holds in all runs of all scans exactly if try numbers can reach the number of
retransmissions that is set. -/
theorem retransmission_bound_iff (maxRetransmit : Int) (maxRetransmissions : Nat)
    (accepted : setMaxRetransmissions maxRetransmit = .ok maxRetransmissions) :
    (∀ cfg : Config, cfg.ports.Once → cfg.maxRetransmissions = maxRetransmissions →
        ∀ s, (hostScan cfg).Reachable s → TriesBounded cfg s.sent) ↔
      maxRetransmit ≤ 127 := by
  have value : maxRetransmit = maxRetransmissions := by
    rw [setMaxRetransmissions] at accepted
    split at accepted
    · cases accepted
    · cases accepted
      omega
  constructor
  · intro bounded
    by_contra above
    obtain ⟨s, reach, unbounded⟩ := @wideScan_unbounded maxRetransmissions (by omega)
    exact unbounded (bounded _ (wideScan_once _) rfl s reach)
  · rintro fits cfg once rfl s reach
    exact retransmission_bound once (by omega) reach

/-- The default of 10 retransmissions -/
theorem retransmission_bound_ten :
    (∀ cfg : Config, cfg.ports.Once → cfg.maxRetransmissions = 10 →
        ∀ s, (hostScan cfg).Reachable s → TriesBounded cfg s.sent) ↔ (10 : Int) ≤ 127 :=
  retransmission_bound_iff 10 10 rfl

/-- With 128 retransmissions, the last of 128 ports is probed too often. -/
theorem retransmission_bound_128 : setMaxRetransmissions 128 = .ok 128 ∧
    (wideScan 128).ports.Once ∧ (wideScan 128).maxRetransmissions = 128 ∧
    ∃ s, (hostScan (wideScan 128)).Reachable s ∧ ¬ TriesBounded (wideScan 128) s.sent :=
  ⟨rfl, wideScan_once 128, rfl, wideScan_unbounded le_rfl⟩

end Nmap.ScanEngine
