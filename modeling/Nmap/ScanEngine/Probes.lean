import Mathlib.Data.List.Count
import Mathlib.Data.List.Nodup
import Nmap.ScanEngine.MaxRate
import Nmap.ScanEngine.Verdict

/-!
# Outstanding probes (`scan_engine.h`, `scan_engine.cc`)

The probes that a host waits for, with the counts that are kept of them: how many have not
timed out, and how many have and still wait for their retransmission. `Counted` says that the
counts are right. Destroying a probe and marking it as timed out keep them so.
-/

namespace Nmap.ScanEngine

open List

open Nmap.Ports (ScanType PortState PortKey ReasonCode)

/-! ## Probes -/

instance seqnum_neZero : NeZero 128 := ⟨by decide⟩

/-- `tryno_t` -/
structure Tryno where
  isPing : Bool
  seqnum : Fin 128
  deriving DecidableEq, Repr

/-- The number that both fields make up -/
def Tryno.byte (t : Tryno) : UInt8 := UInt8.ofNat (2 * t.seqnum.val + t.isPing.toNat)

inductive UPType
  | unset
  | ip
  | connect
  | arp
  | nd
  deriving DecidableEq, Repr

/-- The union `pd` of `IPExtraProbeData` -/
inductive ExtraData
  | none
  | icmp (ident : UInt16)
  | tcp (sport : UInt16) (seq : UInt32)
  | udp (sport : UInt16)
  | sctp (sport : UInt16) (vtag : UInt32)
  deriving DecidableEq, Repr

deriving instance DecidableEq for Timeval

/-- `UltraProbe`. Probes are referred to by their addresses. -/
structure UltraProbe where
  addr : Nat
  type : UPType
  pspec : ProbeSpec
  tryno : Tryno
  timedout : Bool
  retransmitted : Bool
  sent : Timeval
  prevSent : Timeval
  /-- `probes.IP` -/
  ipid : UInt32
  extra : ExtraData
  /-- `probes.CP->sd` -/
  sd : Int
  deriving DecidableEq

namespace UltraProbe

variable (probe : UltraProbe)

def isPing : Bool := probe.tryno.isPing

def waits : Bool := !probe.isPing && probe.timedout && !probe.retransmitted

def sport : UInt16 :=
  match probe.extra with
  | .tcp sport _ => if probe.pspec.proto = 6 then sport else 0
  | .udp sport => if probe.pspec.proto = 17 then sport else 0
  | .sctp sport _ => if probe.pspec.proto = 132 then sport else 0
  | _ => 0

def dport : UInt16 :=
  match probe.pspec.pd with
  | .tcp dport _ => if probe.pspec.proto = 6 then dport else 0
  | .udp dport => if probe.pspec.proto = 17 then dport else 0
  | .sctp dport _ => if probe.pspec.proto = 132 then dport else 0
  | _ => 0

def protocol : UInt8 := probe.pspec.proto

end UltraProbe

/-! ## Hosts -/

/-- An address, of 4 or of 16 bytes -/
abbrev Addr := List UInt8

/-- `HOST_UNKNOWN`, `HOST_UP` and `HOST_DOWN` -/
inductive HostState
  | unknown
  | up
  | down
  deriving DecidableEq, Repr

/-- `host_timeout_nfo` -/
structure TimeoutClock where
  msecsUsed : UInt64
  running : Bool
  start : Timeval
  deriving DecidableEq

structure EarlySvcResponse where
  pspec : ProbeSpec
  data : List UInt8
  deriving DecidableEq, Repr

/-- `HostScanStats` with its `Target`. Hosts are referred to by their addresses `ptr`. -/
structure HostScanStats where
  ptr : Nat
  sockAddr : Addr
  flags : HostState
  weirdResponses : Int
  clock : TimeoutClock
  pingprobe : ProbeSpec
  pingprobeState : PortState
  reason : Ports.StateReason
  earlySvcResponses : List EarlySvcResponse
  ports : HostPorts
  supply : Supply
  probesOutstanding : List UltraProbe
  numProbesActive : Nat
  numProbesWaitingRetransmit : Nat
  probeBench : List ProbeSpec
  retryStack : List ProbeSpec
  completiontime : Timeval
  numprobesSent : Int

/-- `Timeval` set to zeros -/
def Timeval.zero : Timeval := ⟨0, 0, zero_small⟩

/-- A new `HostScanStats` of a new `Target` -/
def HostScanStats.new (ptr : Nat) (sockAddr : Addr) : HostScanStats where
  ptr := ptr
  sockAddr := sockAddr
  flags := .unknown
  weirdResponses := 0
  clock := ⟨0, false, .zero⟩
  pingprobe := .zero
  pingprobeState := .unknown
  reason := ⟨.unknown, none, 0⟩
  earlySvcResponses := []
  ports := ⟨.start (fun _ => .unknown) fun _ _ => 0, 0⟩
  supply := {}
  probesOutstanding := []
  numProbesActive := 0
  numProbesWaitingRetransmit := 0
  probeBench := []
  retryStack := []
  completiontime := .zero
  numprobesSent := 0

/-- `ConnectScanInfo`; `numSDs` is the length of the list of watched descriptors. -/
structure ConnectScanInfo where
  nextSD : Int
  watched : List Int

/-- What `GroupScanStats` and its `CSI` keep of the probes -/
structure GroupProbes where
  numProbesActive : Nat
  probesSent : Int
  csi : ConnectScanInfo

def ConnectScanInfo.watchSD (csi : ConnectScanInfo) (sd : Int) :
    Except Failure ConnectScanInfo :=
  if sd < 0 then .error .assertion
  else .ok (if sd ∈ csi.watched then csi else { csi with watched := sd :: csi.watched })

def ConnectScanInfo.clearSD (csi : ConnectScanInfo) (sd : Int) :
    Except Failure ConnectScanInfo :=
  if sd < 0 then .error .assertion else .ok { csi with watched := csi.watched.erase sd }

/-- `assert(n > 0); n--;` -/
def decrement : Nat → Except Failure Nat
  | 0 => .error .assertion
  | n + 1 => .ok n

def HostScanStats.setProbes (hss : HostScanStats) (probes : List UltraProbe)
    (active waiting : Nat) : HostScanStats :=
  { hss with
    probesOutstanding := probes
    numProbesActive := active
    numProbesWaitingRetransmit := waiting }

/-- What is written through a pointer to a probe -/
def writeProbe (probes : List UltraProbe) (addr : Nat) (f : UltraProbe → UltraProbe) :
    List UltraProbe :=
  probes.map fun probe => if probe.addr = addr then f probe else probe

def HostScanStats.completed (cfg : Config) (hss : HostScanStats) : Bool :=
  if hss.numProbesActive ≠ 0 || hss.numProbesWaitingRetransmit ≠ 0 || !hss.probeBench.isEmpty ||
      !hss.retryStack.isEmpty then false
  else if cfg.pingScan && (hss.flags = .up || hss.flags = .down || hss.weirdResponses ≠ 0) then
    true
  else !hss.supply.freshPortsLeft cfg

/-! ## The end of a probe -/

/-- The counts of active probes of the host and of the group, without one -/
def oneLessActive (hss : HostScanStats) (g : GroupProbes) : Except Failure (Nat × Nat) := do
  let active ← decrement hss.numProbesActive
  let groupActive ← decrement g.numProbesActive
  return (active, groupActive)

def destroyOutstandingProbe (hss : HostScanStats) (g : GroupProbes) (probe : UltraProbe) :
    Except Failure (HostScanStats × GroupProbes) :=
  if hss.probesOutstanding.isEmpty then .error .assertion
  else do
    let active ← (if probe.timedout then .ok (hss.numProbesActive, g.numProbesActive)
      else oneLessActive hss g)
    let waiting ← (if probe.waits then decrement hss.numProbesWaitingRetransmit
      else .ok hss.numProbesWaitingRetransmit)
    let csi ← (if probe.type = .connect ∧ 0 < probe.sd then g.csi.clearSD probe.sd
      else .ok g.csi)
    return (hss.setProbes (hss.probesOutstanding.erase probe) active.1 waiting,
      { g with numProbesActive := active.2, csi := csi })

/-- `HostScanStats::destroyAllOutstandingProbes`: always the first one, until none is left -/
def destroyAllOutstandingProbes (hss : HostScanStats) (g : GroupProbes) :
    Except Failure (HostScanStats × GroupProbes) :=
  hss.probesOutstanding.foldlM
    (fun (s : HostScanStats × GroupProbes) probe => destroyOutstandingProbe s.1 s.2 probe) (hss, g)

/-- A connect probe has a socket until it is closed. -/
def UltraProbe.hasSocket (probe : UltraProbe) : Bool :=
  decide (probe.type = .connect) && decide (0 ≤ probe.sd)

/-- A probe marked as timed out, with its socket closed -/
def UltraProbe.expire (probe : UltraProbe) : UltraProbe :=
  { probe with timedout := true, sd := if probe.hasSocket then -1 else probe.sd }

def markProbeTimedout (hss : HostScanStats) (g : GroupProbes) (probe : UltraProbe) :
    Except Failure (HostScanStats × GroupProbes) :=
  if probe.timedout || probe.retransmitted then .error .assertion
  else do
    let (active, groupActive) ← oneLessActive hss g
    let waiting := hss.numProbesWaitingRetransmit + (!probe.isPing).toNat
    let csi ← (if probe.hasSocket then g.csi.clearSD probe.sd else .ok g.csi)
    return (hss.setProbes (writeProbe hss.probesOutstanding probe.addr UltraProbe.expire) active
        waiting,
      { g with numProbesActive := groupActive, csi := csi })

/-! ## Writing to a probe -/

section Write

variable {probes : List UltraProbe} {f : UltraProbe → UltraProbe}

theorem writeProbe_addrs (same : ∀ probe, (f probe).addr = probe.addr) (addr : Nat) :
    (writeProbe probes addr f).map (·.addr) = probes.map (·.addr) := by
  rw [writeProbe, map_map]
  apply map_congr_left
  intro probe _
  show (if probe.addr = addr then f probe else probe).addr = probe.addr
  split
  · exact same probe
  · rfl

theorem writeProbe_of_not_mem {addr : Nat} (absent : addr ∉ probes.map (·.addr)) :
    writeProbe probes addr f = probes := by
  have each : ∀ probe ∈ probes, (if probe.addr = addr then f probe else probe) = probe := by
    intro probe mem
    apply if_neg
    rintro rfl
    exact absent (mem_map_of_mem mem)
  rw [writeProbe, map_congr_left each, map_id']

theorem countP_writeProbe (distinct : (probes.map (·.addr)).Nodup) {probe : UltraProbe}
    (mem : probe ∈ probes) (p : UltraProbe → Bool) :
    (writeProbe probes probe.addr f).countP p + (p probe).toNat =
      probes.countP p + (p (f probe)).toNat := by
  induction probes with
  | nil => cases mem
  | cons first rest ih =>
    rw [map_cons, nodup_cons] at distinct
    have tail : writeProbe (first :: rest) probe.addr f =
        (if first.addr = probe.addr then f first else first) :: writeProbe rest probe.addr f :=
      rfl
    rw [tail]
    rcases mem_cons.mp mem with rfl | mem
    · rw [if_pos rfl, writeProbe_of_not_mem distinct.1, countP_cons, countP_cons]
      cases p probe <;> cases p (f probe) <;> simp
    · have other : first.addr ≠ probe.addr := by
        intro same
        exact distinct.1 (same ▸ mem_map_of_mem mem)
      rw [if_neg other, countP_cons, countP_cons]
      have := ih distinct.2 mem
      omega

end Write

/-! ## The counts -/

/-- The counts of a host are those of its probes, and are part of the count of the group. -/
structure Counted (hss : HostScanStats) (g : GroupProbes) : Prop where
  distinct : (hss.probesOutstanding.map (·.addr)).Nodup
  active : hss.numProbesActive = hss.probesOutstanding.countP (!·.timedout)
  waiting : hss.numProbesWaitingRetransmit = hss.probesOutstanding.countP (·.waits)
  group : hss.numProbesActive ≤ g.numProbesActive

theorem decrement_eq {n : Nat} (pos : 0 < n) : decrement n = .ok (n - 1) := by
  cases n with
  | zero => cases pos
  | succ n => rfl

theorem ConnectScanInfo.clearSD_ok (csi : ConnectScanInfo) {sd : Int} (valid : 0 ≤ sd) :
    ∃ csi', csi.clearSD sd = .ok csi' := by
  refine ⟨_, if_neg ?_⟩
  omega

namespace Counted

variable {hss : HostScanStats} {g : GroupProbes}

variable {probe : UltraProbe}

theorem active_pos (counted : Counted hss g) (mem : probe ∈ hss.probesOutstanding)
    (live : probe.timedout = false) :
    0 < hss.numProbesActive := by
  rw [counted.active]
  exact countP_pos_iff.mpr ⟨probe, mem, by simp [live]⟩

theorem waiting_pos (counted : Counted hss g) (mem : probe ∈ hss.probesOutstanding)
    (waits : probe.waits = true) :
    0 < hss.numProbesWaitingRetransmit := by
  rw [counted.waiting]
  exact countP_pos_iff.mpr ⟨probe, mem, waits⟩

theorem oneLessActive (counted : Counted hss g) (mem : probe ∈ hss.probesOutstanding)
    (live : probe.timedout = false) :
    ScanEngine.oneLessActive hss g = .ok (hss.numProbesActive - 1, g.numProbesActive - 1) := by
  have pos := counted.active_pos mem live
  have group := counted.group
  rw [ScanEngine.oneLessActive, decrement_eq pos, decrement_eq (by omega)]
  rfl

/-- A probe of the host can be destroyed, and the counts stay right: both counts of active
probes go down by as much. -/
theorem destroy (counted : Counted hss g) (mem : probe ∈ hss.probesOutstanding) :
    ∃ active waiting g', destroyOutstandingProbe hss g probe =
        .ok (hss.setProbes (hss.probesOutstanding.erase probe) active waiting, g') ∧
      Counted (hss.setProbes (hss.probesOutstanding.erase probe) active waiting) g' ∧
      g'.numProbesActive + hss.numProbesActive = g.numProbesActive + active := by
  have nonempty : hss.probesOutstanding.isEmpty = false := by
    cases empty : hss.probesOutstanding.isEmpty with
    | false => rfl
    | true => rw [isEmpty_iff.mp empty] at mem; cases mem
  obtain ⟨active, stop, hactive, hgroup, hless⟩ : ∃ active,
      (if probe.timedout = true then .ok (hss.numProbesActive, g.numProbesActive)
        else ScanEngine.oneLessActive hss g) = Except.ok active ∧
      active.1 = (hss.probesOutstanding.erase probe).countP (!·.timedout) ∧
      active.1 ≤ active.2 ∧
      active.2 + hss.numProbesActive = g.numProbesActive + active.1 := by
    have group := counted.group
    rw [countP_erase, ← counted.active]
    cases live : probe.timedout with
    | true => exact ⟨_, rfl, by simp, group, rfl⟩
    | false =>
      have pos := counted.active_pos mem live
      refine ⟨_, counted.oneLessActive mem live, by simp [mem], ?_, ?_⟩
      · show hss.numProbesActive - 1 ≤ g.numProbesActive - 1
        omega
      · show g.numProbesActive - 1 + hss.numProbesActive =
          g.numProbesActive + (hss.numProbesActive - 1)
        omega
  obtain ⟨waiting, wait, hwaiting⟩ : ∃ waiting,
      (if probe.waits = true then decrement hss.numProbesWaitingRetransmit
        else .ok hss.numProbesWaitingRetransmit) = Except.ok waiting ∧
      waiting = (hss.probesOutstanding.erase probe).countP (·.waits) := by
    rw [countP_erase, ← counted.waiting]
    cases waits : probe.waits with
    | true =>
      exact ⟨_, decrement_eq (counted.waiting_pos mem waits), by simp [mem]⟩
    | false => exact ⟨_, rfl, by simp⟩
  obtain ⟨csi, clear⟩ : ∃ csi, (if probe.type = .connect ∧ 0 < probe.sd then
      g.csi.clearSD probe.sd else .ok g.csi) = Except.ok csi := by
    split
    · exact g.csi.clearSD_ok (by omega)
    · exact ⟨_, rfl⟩
  refine ⟨active.1, waiting, { g with numProbesActive := active.2, csi := csi }, ?_, ?_, hless⟩
  · rw [destroyOutstandingProbe, nonempty, stop, wait, clear]
    rfl
  · refine ⟨?_, hactive, hwaiting, hgroup⟩
    exact counted.distinct.sublist (erase_sublist.map _)

/-- All probes of the host can be destroyed. -/
theorem destroyAll (counted : Counted hss g) :
    ∃ active waiting g', destroyAllOutstandingProbes hss g =
        .ok (hss.setProbes [] active waiting, g') ∧
      Counted (hss.setProbes [] active waiting) g' ∧
      g'.numProbesActive + hss.numProbesActive = g.numProbesActive := by
  -- the induction is on the probes that are left
  have rest : ∀ (probes : List UltraProbe) (hss1 : HostScanStats) (g1 : GroupProbes),
      hss1.probesOutstanding = probes → Counted hss1 g1 → ∃ active waiting g',
        probes.foldlM (fun (s : HostScanStats × GroupProbes) probe =>
            destroyOutstandingProbe s.1 s.2 probe) (hss1, g1) =
          (.ok (hss1.setProbes [] active waiting, g') :
            Except Failure (HostScanStats × GroupProbes)) ∧
        Counted (hss1.setProbes [] active waiting) g' ∧
        g'.numProbesActive + hss1.numProbesActive = g1.numProbesActive := by
    intro probes
    induction probes with
    | nil =>
      intro hss1 g1 same counted1
      refine ⟨hss1.numProbesActive, hss1.numProbesWaitingRetransmit, g1, ?_, ?_, ?_⟩
      · rw [foldlM_nil, ← same]
        rfl
      · rw [← same]
        exact counted1
      · have none : hss1.numProbesActive = 0 := by
          rw [counted1.active, same]
          rfl
        omega
    | cons probe probes ih =>
      intro hss1 g1 same counted1
      obtain ⟨active, waiting, g2, first, counted2, less⟩ :=
        counted1.destroy (show probe ∈ hss1.probesOutstanding by rw [same]; exact .head _)
      obtain ⟨active', waiting', g3, later, counted3, rest⟩ :=
        ih _ g2 (by show hss1.probesOutstanding.erase probe = probes; rw [same]; simp) counted2
      refine ⟨active', waiting', g3, ?_, counted3, ?_⟩
      · rw [foldlM_cons, first]
        exact later
      · have rest : g3.numProbesActive + active = g2.numProbesActive := rest
        omega
  exact rest _ hss g rfl counted

/-- A probe that is active can be marked as timed out. -/
theorem markTimedout (counted : Counted hss g) (mem : probe ∈ hss.probesOutstanding)
    (live : probe.timedout = false) (first : probe.retransmitted = false) :
    ∃ active waiting g', markProbeTimedout hss g probe = .ok (hss.setProbes
        (writeProbe hss.probesOutstanding probe.addr UltraProbe.expire) active waiting, g') ∧
      Counted (hss.setProbes
        (writeProbe hss.probesOutstanding probe.addr UltraProbe.expire) active waiting) g' := by
  obtain ⟨csi, clear⟩ : ∃ csi,
      (if probe.hasSocket = true then g.csi.clearSD probe.sd else .ok g.csi) =
        Except.ok csi := by
    split
    · rename_i open_
      rw [UltraProbe.hasSocket, Bool.and_eq_true] at open_
      exact g.csi.clearSD_ok (of_decide_eq_true open_.2)
    · exact ⟨_, rfl⟩
  have pos := counted.active_pos mem live
  have group := counted.group
  refine ⟨hss.numProbesActive - 1, hss.numProbesWaitingRetransmit + (!probe.isPing).toNat,
    { g with numProbesActive := g.numProbesActive - 1, csi := csi }, ?_, ?_, ?_, ?_, ?_⟩
  · rw [markProbeTimedout, live, first, counted.oneLessActive mem live, clear]
    rfl
  · show (List.map _ (writeProbe _ probe.addr _)).Nodup
    rw [writeProbe_addrs (f := UltraProbe.expire) fun _ => rfl]
    exact counted.distinct
  · have exchange := countP_writeProbe (f := UltraProbe.expire) counted.distinct mem (!·.timedout)
    rw [← counted.active, live] at exchange
    show hss.numProbesActive - 1 =
      (writeProbe hss.probesOutstanding probe.addr UltraProbe.expire).countP (!·.timedout)
    have late : probe.expire.timedout = true := rfl
    simp only [late, Bool.not_true, Bool.not_false, Bool.toNat_true, Bool.toNat_false] at exchange
    omega
  · have exchange := countP_writeProbe (f := UltraProbe.expire) counted.distinct mem (·.waits)
    rw [← counted.waiting] at exchange
    show hss.numProbesWaitingRetransmit + (!probe.isPing).toNat =
      (writeProbe hss.probesOutstanding probe.addr UltraProbe.expire).countP (·.waits)
    have before : probe.waits = false := by simp [UltraProbe.waits, live]
    have after : probe.expire.waits = !probe.isPing := by
      simp [UltraProbe.waits, UltraProbe.expire, UltraProbe.isPing, first]
    simp only [before, after, Bool.toNat_false] at exchange
    omega
  · show hss.numProbesActive - 1 ≤ g.numProbesActive - 1
    omega

end Counted

end Nmap.ScanEngine
