import Nmap.ScanEngine.Updates

/-!
# Retransmission of connect probes (`scan_engine.cc`, `scan_engine_connect.cc`)

`connect` may be through at once, and then its result is handled before `retransmitProbe` is
done with the old probe. In a ping scan a result that says that the host is up destroys all
probes of the host, the old one with them.

`retransmitProbe_safe_iff`: in all other cases the old probe is still there, and the counts
stay right.
-/

namespace Nmap.ScanEngine

open List

open Nmap.Ports (Errno Sockname PortState ReasonCode)

/-! ## Results of `connect` -/

/-- What `connect` returns -/
inductive ConnectReturn
  | inProgress
  /-- through, with this error or none -/
  | done (errno : Errno)
  deriving DecidableEq, Repr

/-- What a call of `sendConnectScanProbe` gets from outside -/
structure ConnectCall where
  /-- the address of the new probe -/
  addr : Nat
  result : ConnectReturn
  sockname : Sockname
  now : Timeval

/-- The first `switch` of `handleConnectResult` -/
def connectVerdict (cfg : Config) : Errno → Except Failure (HostState × PortState × ReasonCode)
  | .ok => .ok (.up, .open, .conAccept)
  | .eacces => .ok (.down, .filtered, .adminProhibited)
  | .econnrefused => .ok (if cfg.discoveryIgnoreRst then .unknown else .up, .closed, .conRefused)
  | .eagain => .ok (.up, .unknown, .conAccept)
  | .enoprotoopt => .ok (.down, .filtered, .protoUnreach)
  | .ehostunreach => .ok (.down, .filtered, .hostUnreach)
  | .etimedout | .ehostdown => .ok (.down, .filtered, .noResponse)
  | .enetunreach => .ok (.down, .filtered, .netUnreach)
  | .enonet => .ok (.down, .filtered, .destUnreach)
  | .enetdown | .enetreset | .econnaborted => .error .fatal
  | .other => .ok (.unknown, .unknown, .unknown)

/-- A port update with the reason that is stored after it -/
def updatePortWithReason (cfg : Config) (hss : HostScanStats) (g : GroupProbes)
    (probe : UltraProbe) (newportstate : PortState) (reason : ReasonCode) :
    Except Failure (HostScanStats × GroupProbes) := do
  let (hss, g) ← ultrascanPortProbeUpdate cfg hss g probe newportstate true
  let ports := hss.ports.ports.setStateReason ⟨probe.dport, .tcp⟩ reason 0 .null
  return ({ hss with ports := { hss.ports with ports := ports } }, g)

def handleConnectResult (cfg : Config) (hss : HostScanStats) (g : GroupProbes)
    (probe : UltraProbe) (errno : Errno) (sockname : Sockname) (destroyProbe : Bool) :
    Except Failure (HostScanStats × GroupProbes) := do
  let (newhoststate, newportstate, reason) ← connectVerdict cfg errno
  if reason = .noResponse then markProbeTimedout hss g probe
  else if probe.isPing && newhoststate ≠ .unknown then ultrascanPingUpdate hss g probe
  else if cfg.pingScan && newhoststate ≠ .unknown then do
    let (hss, g) ← ultrascanHostProbeUpdate cfg hss g probe newhoststate true
    let hss := { hss with reason := { hss.reason with reasonId := reason } }
    -- "If the host is up, we can forget our other probes."
    if newhoststate = .up then destroyAllOutstandingProbes hss g else return (hss, g)
  else if !cfg.pingScan && newportstate ≠ .unknown then
    if newportstate = .open then
      match sockname with
      | .self => markProbeTimedout hss g probe
      | .distinct => updatePortWithReason cfg hss g probe newportstate reason
      | .failed => return (hss, g)
    else updatePortWithReason cfg hss g probe newportstate reason
  else if destroyProbe then destroyOutstandingProbe hss g probe
  else return (hss, g)

/-! ## Sending -/

/-- A probe that `setConnect` has prepared, when it was sent -/
def connectProbe (addr : Nat) (destport : UInt16) (tryno : Tryno) (sent : Timeval) (sd : Int) :
    UltraProbe where
  addr := addr
  type := .connect
  pspec := ⟨.connectTcp, 6, .tcp destport 0x02⟩
  tryno := tryno
  timedout := false
  retransmitted := false
  sent := sent
  prevSent := .zero
  ipid := 0
  extra := .none
  sd := sd

/-- A probe that was sent: it is the last of the host, and counted as active. -/
def HostScanStats.addProbe (hss : HostScanStats) (probe : UltraProbe) : HostScanStats :=
  hss.setProbes (hss.probesOutstanding ++ [probe]) (hss.numProbesActive + 1)
    hss.numProbesWaitingRetransmit

/-- `sendConnectScanProbe`, with the address of the probe that it returns -/
def sendConnectScanProbe (cfg : Config) (hss : HostScanStats) (g : GroupProbes)
    (destport : UInt16) (tryno : Tryno) (call : ConnectCall) :
    Except Failure (HostScanStats × GroupProbes × Option Nat) :=
  -- `getSocket`
  let sd := g.csi.nextSD
  if sd ≤ 0 then .error .assertion
  else
    let probe := connectProbe call.addr destport tryno call.now sd
    let hss := hss.addProbe probe
    let g := { g with
      numProbesActive := g.numProbesActive + 1
      csi := { g.csi with nextSD := -1 } }
    if call.result = .inProgress ∨ call.result = .done .eagain then do
      let csi ← g.csi.watchSD sd
      return (hss, { g with csi := csi }, some call.addr)
    else
      match call.result with
      | .inProgress => .ok (hss, g, none)
      | .done errno => do
        let (hss, g) ← handleConnectResult cfg hss g probe errno call.sockname true
        return (hss, g, none)

/-- The member `dport` of the union `pd`, which is its first one -/
def ProbeSpec.unionDport (pspec : ProbeSpec) : UInt16 :=
  match pspec.pd with
  | .tcp dport _ | .udp dport | .sctp dport _ => dport
  | _ => 0

/-- The functions that send the probes of the other types -/
abbrev Senders :=
  UPType → HostScanStats → GroupProbes → ProbeSpec → Tryno →
    Except Failure (HostScanStats × GroupProbes × Option Nat)

/-- The protocols whose probes are sent again outside of protocol scans -/
def retransmittable (cfg : Config) (proto : UInt8) : Bool :=
  cfg.protScan || cfg.rawprotoscan || proto = 6 || proto = 17 || proto = 132 || proto = 1 ||
    proto = 58

def sendAgain (cfg : Config) (senders : Senders) (hss : HostScanStats) (g : GroupProbes)
    (probe : UltraProbe) (tryno : Tryno) (call : ConnectCall) :
    Except Failure (HostScanStats × GroupProbes × Option Nat) :=
  match probe.type with
  | .ip =>
    if retransmittable cfg probe.protocol then senders .ip hss g probe.pspec tryno
    else .error .assertion
  | .connect => sendConnectScanProbe cfg hss g probe.pspec.unionDport tryno call
  | .arp => senders .arp hss g probe.pspec tryno
  | .nd => senders .nd hss g probe.pspec tryno
  | .unset => .error .fatal

def UltraProbe.resent (probe : UltraProbe) : UltraProbe := { probe with retransmitted := true }

/-- A retransmission, with the time at which its probe was sent before -/
def UltraProbe.setPrevSent (sent : Timeval) (probe : UltraProbe) : UltraProbe :=
  { probe with prevSent := sent }

def retransmitProbe (cfg : Config) (senders : Senders) (hss : HostScanStats) (g : GroupProbes)
    (probe : UltraProbe) (call : ConnectCall) : Except Failure (HostScanStats × GroupProbes) := do
  let tryno := { probe.tryno with seqnum := probe.tryno.seqnum + 1 }
  let (hss, g, newProbe) ← sendAgain cfg senders hss g probe tryno call
  -- from here on the old probe is read and written
  if probe.addr ∉ hss.probesOutstanding.map (·.addr) then .error .dangling
  else do
    let probes := match newProbe with
      | some addr =>
        writeProbe hss.probesOutstanding addr (UltraProbe.setPrevSent probe.sent)
      | none => hss.probesOutstanding
    let probes := writeProbe probes probe.addr UltraProbe.resent
    let waiting ← decrement hss.numProbesWaitingRetransmit
    let hss := hss.setProbes probes hss.numProbesActive waiting
    return ({ hss with numprobesSent := hss.numprobesSent + 1 },
      { g with probesSent := g.probesSent + 1 })

/-! ## Results that leave the other probes alone -/

/-- The counts are right, and the probes of the host other than one are as they were. -/
def KeepsOthers (hss : HostScanStats) (probe : UltraProbe) (s : HostScanStats × GroupProbes) :
    Prop :=
  Counted s.1 s.2 ∧
    ∀ other ∈ hss.probesOutstanding, other.addr ≠ probe.addr → other ∈ s.1.probesOutstanding

/-- A result that says at once that a pinged host is up -/
def UpAtOnce (cfg : Config) (errno : Errno) : Prop :=
  cfg.pingScan = true ∧
    (errno = .ok ∨ errno = .econnrefused ∧ cfg.discoveryIgnoreRst = false)

instance (cfg : Config) (errno : Errno) : Decidable (UpAtOnce cfg errno) :=
  inferInstanceAs (Decidable (_ ∧ _))

section Keeps

variable {cfg : Config} {hss : HostScanStats} {g : GroupProbes} {probe : UltraProbe}

theorem keepsOthers_of_erase {s : HostScanStats × GroupProbes}
    (erased : s.1.probesOutstanding = hss.probesOutstanding.erase probe)
    (counted : Counted s.1 s.2) : KeepsOthers hss probe s := by
  refine ⟨counted, ?_⟩
  intro other mem different
  rw [erased]
  apply (mem_erase_of_ne ?_).mpr mem
  rintro rfl
  exact different rfl

theorem keepsOthers_of_write {s : HostScanStats × GroupProbes} {f : UltraProbe → UltraProbe}
    (written : s.1.probesOutstanding = writeProbe hss.probesOutstanding probe.addr f)
    (counted : Counted s.1 s.2) : KeepsOthers hss probe s := by
  refine ⟨counted, ?_⟩
  intro other mem different
  rw [written]
  exact mem_map.mpr ⟨other, mem, if_neg different⟩

theorem destroy_keeps (counted : Counted hss g) (mem : probe ∈ hss.probesOutstanding) :
    Meets (· = .fatal) (KeepsOthers hss probe) (destroyOutstandingProbe hss g probe) := by
  obtain ⟨active, waiting, g', destroyed, counted', -⟩ := counted.destroy mem
  rw [destroyed]
  exact keepsOthers_of_erase rfl counted'

theorem markTimedout_keeps (counted : Counted hss g) (mem : probe ∈ hss.probesOutstanding)
    (live : probe.timedout = false) (first : probe.retransmitted = false) :
    Meets (· = .fatal) (KeepsOthers hss probe) (markProbeTimedout hss g probe) := by
  obtain ⟨active, waiting, g', marked, counted'⟩ := counted.markTimedout mem live first
  rw [marked]
  exact keepsOthers_of_write rfl counted'

theorem updatePort_keeps (counted : Counted hss g) (mem : probe ∈ hss.probesOutstanding)
    {key : Ports.PortKey} (port : pspecPort cfg.updateScan probe.pspec = some key)
    (newportstate : PortState) (reason : ReasonCode) :
    Meets (· = .fatal) (KeepsOthers hss probe)
      (updatePortWithReason cfg hss g probe newportstate reason) := by
  apply Meets.bind (counted.portProbeUpdate cfg mem port newportstate true)
  rintro ⟨hss', g'⟩ ⟨erased, counted'⟩
  exact keepsOthers_of_erase erased ⟨counted'.distinct, counted'.active, counted'.waiting,
    counted'.group⟩

variable {errno : Errno}

theorem connectVerdict_calm (done : errno ≠ .eagain) (calm : ¬ UpAtOnce cfg errno) :
    Meets (· = .fatal)
      (fun v : HostState × PortState × ReasonCode => cfg.pingScan = true → v.1 ≠ .up)
      (connectVerdict cfg errno) := by
  cases errno with
  | ok =>
    intro ping
    exact absurd ⟨ping, Or.inl rfl⟩ calm
  | econnrefused =>
    intro ping
    have ignored : cfg.discoveryIgnoreRst = true := by
      cases heed : cfg.discoveryIgnoreRst with
      | true => rfl
      | false => exact absurd ⟨ping, Or.inr ⟨rfl, heed⟩⟩ calm
    simp [ignored]
  | eagain => exact absurd rfl done
  | enetdown | enetreset | econnaborted => exact rfl
  | _ => intro _; simp

/-- Unless the host is found to be up in a ping scan, only the answered probe changes. -/
theorem handleConnectResult_keeps (counted : Counted hss g) (mem : probe ∈ hss.probesOutstanding)
    (live : probe.timedout = false) (first : probe.retransmitted = false) {key : Ports.PortKey}
    (port : pspecPort cfg.updateScan probe.pspec = some key) (done : errno ≠ .eagain)
    (calm : ¬ UpAtOnce cfg errno) (sockname : Sockname) :
    Meets (· = .fatal) (KeepsOthers hss probe)
      (handleConnectResult cfg hss g probe errno sockname true) := by
  apply Meets.bind (connectVerdict_calm done calm)
  rintro ⟨newhoststate, newportstate, reason⟩ notUp
  dsimp only at notUp ⊢
  split
  · exact markTimedout_keeps counted mem live first
  split
  · exact destroy_keeps counted mem
  split
  · -- the host is down
    rename_i host
    rw [Bool.and_eq_true] at host
    obtain ⟨hss', g', updated, erased, counted'⟩ :=
      counted.hostProbeUpdate cfg mem newhoststate true
    rw [updated]
    show Meets _ _ (if newhoststate = .up then _ else _)
    rw [if_neg (notUp host.1)]
    exact keepsOthers_of_erase erased ⟨counted'.distinct, counted'.active, counted'.waiting,
      counted'.group⟩
  split
  · split
    · cases sockname with
      | self => exact markTimedout_keeps counted mem live first
      | distinct => exact updatePort_keeps counted mem port newportstate reason
      | failed => exact ⟨counted, fun other mem _ => mem⟩
    · exact updatePort_keeps counted mem port newportstate reason
  · rw [if_pos rfl]
    exact destroy_keeps counted mem

theorem handleConnectResult_up (counted : Counted hss g) (mem : probe ∈ hss.probesOutstanding)
    (scan : probe.isPing = false) (up : UpAtOnce cfg errno) (sockname : Sockname) :
    ∃ hss' g', handleConnectResult cfg hss g probe errno sockname true = .ok (hss', g') ∧
      hss'.probesOutstanding = [] := by
  obtain ⟨newportstate, reason, verdict, answered⟩ : ∃ newportstate reason,
      connectVerdict cfg errno = .ok (.up, newportstate, reason) ∧ reason ≠ .noResponse := by
    obtain ⟨-, rfl | ⟨rfl, heed⟩⟩ := up
    · exact ⟨_, _, rfl, by simp⟩
    · exact ⟨.closed, .conRefused, by simp [connectVerdict, heed], by simp⟩
  obtain ⟨hss1, g1, updated, -, counted1⟩ := counted.hostProbeUpdate cfg mem .up true
  have counted2 : Counted { hss1 with reason := { hss1.reason with reasonId := reason } } g1 :=
    ⟨counted1.distinct, counted1.active, counted1.waiting, counted1.group⟩
  obtain ⟨active, waiting, g2, destroyed, -⟩ := counted2.destroyAll
  refine ⟨{ hss1 with reason := { hss1.reason with reasonId := reason } }.setProbes [] active
    waiting, g2, ?_, rfl⟩
  rw [handleConnectResult, verdict]
  show (if reason = .noResponse then _ else _) = _
  rw [if_neg answered, scan, up.1, updated]
  exact destroyed

end Keeps

/-! ## Retransmission -/

variable {hss : HostScanStats} {g : GroupProbes}

theorem Counted.add (counted : Counted hss g) {probe : UltraProbe}
    (fresh : probe.addr ∉ hss.probesOutstanding.map (·.addr)) (live : probe.timedout = false)
    (csi : ConnectScanInfo) :
    Counted (hss.addProbe probe)
      { g with numProbesActive := g.numProbesActive + 1, csi := csi } := by
  obtain ⟨distinct, active, waiting, group⟩ := counted
  constructor
  · show ((hss.probesOutstanding ++ [probe]).map (·.addr)).Nodup
    rw [map_append, nodup_append]
    refine ⟨distinct, by simp, ?_⟩
    intro a ha b hb same
    rw [map_singleton, mem_singleton] at hb
    exact fresh (hb ▸ same ▸ ha)
  · show hss.numProbesActive + 1 = (hss.probesOutstanding ++ [probe]).countP (!·.timedout)
    rw [countP_append, ← active]
    simp [live]
  · show hss.numProbesWaitingRetransmit = (hss.probesOutstanding ++ [probe]).countP (·.waits)
    rw [countP_append, ← waiting]
    simp [UltraProbe.waits, live]
  · show hss.numProbesActive + 1 ≤ g.numProbesActive + 1
    omega

theorem Counted.write (counted : Counted hss g) {f : UltraProbe → UltraProbe} (addr : Nat)
    (sameAddr : ∀ probe, (f probe).addr = probe.addr)
    (sameLive : ∀ probe, (f probe).timedout = probe.timedout)
    (sameWaits : ∀ probe, (f probe).waits = probe.waits) :
    Counted (hss.setProbes (writeProbe hss.probesOutstanding addr f) hss.numProbesActive
      hss.numProbesWaitingRetransmit) g := by
  obtain ⟨distinct, active, waiting, group⟩ := counted
  have keeps : ∀ p : UltraProbe → Bool, (∀ probe, p (f probe) = p probe) →
      (writeProbe hss.probesOutstanding addr f).countP p = hss.probesOutstanding.countP p := by
    intro p same
    rw [writeProbe, countP_map]
    apply countP_congr
    intro probe _
    show p (if probe.addr = addr then f probe else probe) = true ↔ p probe = true
    split
    · rw [same]
    · rfl
  refine ⟨?_, ?_, ?_, group⟩
  · show ((writeProbe hss.probesOutstanding addr f).map (·.addr)).Nodup
    rw [writeProbe_addrs sameAddr]
    exact distinct
  · exact active.trans (keeps _ fun probe => by rw [sameLive]).symm
  · exact waiting.trans (keeps _ sameWaits).symm

theorem Counted.retransmitted (counted : Counted hss g) {probe : UltraProbe}
    (mem : probe ∈ hss.probesOutstanding) (waits : probe.waits = true) :
    Counted (hss.setProbes (writeProbe hss.probesOutstanding probe.addr UltraProbe.resent)
      hss.numProbesActive (hss.numProbesWaitingRetransmit - 1)) g := by
  have exchange := fun p => countP_writeProbe (f := UltraProbe.resent) counted.distinct mem p
  have pos := counted.waiting_pos mem waits
  obtain ⟨distinct, active, waiting, group⟩ := counted
  refine ⟨?_, ?_, ?_, group⟩
  · show (List.map _ (writeProbe _ _ _)).Nodup
    rw [writeProbe_addrs (f := UltraProbe.resent) fun _ => rfl]
    exact distinct
  · show hss.numProbesActive = List.countP _ (writeProbe _ _ _)
    have live := exchange (!·.timedout)
    have same : probe.resent.timedout = probe.timedout := rfl
    rw [same] at live
    omega
  · show hss.numProbesWaitingRetransmit - 1 = List.countP _ (writeProbe _ _ _)
    have again := exchange (·.waits)
    have after : probe.resent.waits = false := by simp [UltraProbe.waits, UltraProbe.resent]
    rw [← waiting, waits, after, Bool.toNat_true, Bool.toNat_false] at again
    omega

section Retransmit

variable {cfg : Config} {senders : Senders} {hss : HostScanStats} {g : GroupProbes}
  {probe : UltraProbe} {call : ConnectCall}

theorem pspecPort_connectProbe (scan : Ports.ScanType) (addr : Nat) (destport : UInt16)
    (tryno : Tryno) (sent : Timeval) (sd : Int) :
    ∃ key, pspecPort scan (connectProbe addr destport tryno sent sd).pspec = some key := by
  rw [pspecPort]
  split
  · exact ⟨_, rfl⟩
  · exact ⟨_, rfl⟩

/-- After a calm `connect`, the probes from before are still there. -/
theorem sendConnectScanProbe_calm (counted : Counted hss g) (socket : 0 < g.csi.nextSD)
    (fresh : call.addr ∉ hss.probesOutstanding.map (·.addr)) (destport : UInt16) (tryno : Tryno)
    (calm : ¬ ∃ errno, call.result = .done errno ∧ UpAtOnce cfg errno) :
    Meets (· = .fatal) (fun r : HostScanStats × GroupProbes × Option Nat =>
        Counted r.1 r.2.1 ∧ (∀ other ∈ hss.probesOutstanding, other ∈ r.1.probesOutstanding) ∧
          ∀ addr, r.2.2 = some addr → addr = call.addr)
      (sendConnectScanProbe cfg hss g destport tryno call) := by
  have different : ∀ other ∈ hss.probesOutstanding, other.addr ≠ call.addr := by
    intro other mem same
    exact fresh (same ▸ mem_map_of_mem mem)
  rw [sendConnectScanProbe, if_neg (by omega)]
  dsimp only
  have fresh' : (connectProbe call.addr destport tryno call.now g.csi.nextSD).addr ∉
      hss.probesOutstanding.map (·.addr) := fresh
  have sent := fun csi => counted.add fresh' rfl csi
  split
  · -- the socket is watched
    rw [ConnectScanInfo.watchSD, if_neg (by show ¬ g.csi.nextSD < 0; omega)]
    refine ⟨sent _, ?_, ?_⟩
    · intro other mem
      exact mem_append_left _ mem
    · intro addr same
      cases same
      rfl
  · rename_i through
    cases result : call.result with
    | inProgress => exact absurd (Or.inl result) through
    | done errno =>
      obtain ⟨key, port⟩ := pspecPort_connectProbe cfg.updateScan call.addr destport tryno
        call.now g.csi.nextSD
      apply Meets.bind (handleConnectResult_keeps (sent _)
        (mem_append_right _ mem_cons_self) rfl rfl port
        (fun again => through (Or.inr (again ▸ result))) (fun up => calm ⟨errno, result, up⟩)
        call.sockname)
      rintro ⟨hss', g'⟩ ⟨counted', others⟩
      refine ⟨counted', ?_, ?_⟩
      · intro other mem
        exact others other (mem_append_left _ mem) (different other mem)
      · intro addr none
        cases none

/-- After a `connect` that finds a pinged host up, no probe is left. -/
theorem sendConnectScanProbe_up (counted : Counted hss g) (socket : 0 < g.csi.nextSD)
    (fresh : call.addr ∉ hss.probesOutstanding.map (·.addr)) (destport : UInt16) (tryno : Tryno)
    (scan : tryno.isPing = false) {errno : Errno} (result : call.result = .done errno)
    (up : UpAtOnce cfg errno) :
    ∃ hss' g', sendConnectScanProbe cfg hss g destport tryno call = .ok (hss', g', none) ∧
      hss'.probesOutstanding = [] := by
  have through : ¬ (call.result = .inProgress ∨ call.result = .done .eagain) := by
    rw [result]
    rintro (inProgress | again)
    · cases inProgress
    · cases again
      obtain ⟨-, ok | ⟨refused, -⟩⟩ := up
      · cases ok
      · cases refused
  have fresh' : (connectProbe call.addr destport tryno call.now g.csi.nextSD).addr ∉
      hss.probesOutstanding.map (·.addr) := fresh
  obtain ⟨hss', g', handled, none_left⟩ := handleConnectResult_up
    (counted.add fresh' rfl { g.csi with nextSD := -1 })
    (mem_append_right _ mem_cons_self) scan up call.sockname
  refine ⟨hss', g', ?_, none_left⟩
  rw [sendConnectScanProbe, if_neg (by omega)]
  dsimp only
  rw [if_neg through, result]
  show (handleConnectResult _ _ _ _ _ _ _ >>= _) = _
  rw [handled]
  rfl

/-- Retransmitting a connect probe keeps the old probe and the counts exactly if it does not
find a pinged host up at once. Otherwise the old probe is used after it was destroyed. -/
theorem retransmitProbe_safe_iff (cfg : Config) (senders : Senders) (hss : HostScanStats)
    (g : GroupProbes) (probe : UltraProbe) (call : ConnectCall) (counted : Counted hss g)
    (mem : probe ∈ hss.probesOutstanding) (connect : probe.type = .connect)
    (waits : probe.waits = true) (socket : 0 < g.csi.nextSD)
    (fresh : call.addr ∉ hss.probesOutstanding.map (·.addr)) :
    Meets (· = .fatal) (fun s : HostScanStats × GroupProbes => Counted s.1 s.2)
        (retransmitProbe cfg senders hss g probe call) ↔
      ¬ ∃ errno, call.result = .done errno ∧ UpAtOnce cfg errno := by
  have scan : probe.tryno.isPing = false := by
    simp only [UltraProbe.waits, UltraProbe.isPing, Bool.and_eq_true] at waits
    simpa using waits.1.1
  constructor
  · rintro safe ⟨errno, result, up⟩
    obtain ⟨hss', g', sent, none_left⟩ := sendConnectScanProbe_up counted socket fresh
      probe.pspec.unionDport { probe.tryno with seqnum := probe.tryno.seqnum + 1 } scan result up
    have dangling : retransmitProbe cfg senders hss g probe call = .error .dangling := by
      rw [retransmitProbe, sendAgain, connect]
      dsimp only
      rw [sent]
      show (if _ then _ else _) = _
      rw [none_left]
      rfl
    rw [dangling] at safe
    cases safe
  · intro calm
    rw [retransmitProbe, sendAgain, connect]
    apply Meets.bind (sendConnectScanProbe_calm counted socket fresh _ _ calm)
    rintro ⟨hss', g', newProbe⟩ ⟨counted', others, address⟩
    dsimp only at counted' others address ⊢
    rw [if_neg (not_not.mpr (mem_map_of_mem (others probe mem)))]
    have pos := counted'.waiting_pos (others probe mem) waits
    cases newProbe with
    | none =>
      rw [decrement_eq pos]
      obtain ⟨distinct, active, waiting, group⟩ :=
        counted'.retransmitted (others probe mem) waits
      exact ⟨distinct, active, waiting, group⟩
    | some addr =>
      have other : addr ≠ probe.addr := by
        rw [address addr rfl]
        intro same
        exact fresh (same ▸ mem_map_of_mem mem)
      have written := counted'.write (f := UltraProbe.setPrevSent probe.sent) addr
        (fun _ => rfl) (fun _ => rfl) (fun _ => rfl)
      have still : probe ∈ writeProbe hss'.probesOutstanding addr
          (UltraProbe.setPrevSent probe.sent) :=
        mem_map.mpr ⟨probe, others probe mem, if_neg other.symm⟩
      rw [decrement_eq pos]
      obtain ⟨distinct, active, waiting, group⟩ := written.retransmitted still waits
      exact ⟨distinct, active, waiting, group⟩

end Retransmit

/-! A host that is pinged with connections to its port 80. The first one has timed out. -/

def connectPing : Config where
  scantype := .pingScan
  ports := ⟨[80], [], [], [], [], [], [], [], []⟩
  pingtype := ⟨false, false, false, true, false, true, false, false, false, false⟩
  isr00t := false
  ipv6 := false
  scanflags := none
  maxRetransmissions := 10
  defeatRstRatelimit := false
  defeatIcmpRatelimit := false
  discoveryIgnoreRst := false
  udpPayloadCount := fun _ => 0

/-- The probe that has timed out; its socket is closed. -/
def lateProbe : UltraProbe :=
  (connectProbe 1 80 ⟨false, 0⟩ .zero 5).expire

def latePing : HostScanStats × GroupProbes :=
  ((HostScanStats.new 0 [192, 0, 2, 1]).setProbes [lateProbe] 0 1, ⟨0, 1, ⟨5, []⟩⟩)

theorem latePing_counted : Counted latePing.1 latePing.2 :=
  ⟨nodup_singleton _, rfl, rfl, Nat.le_refl 0⟩

/-- The second connection is in progress. -/
theorem retransmitProbe_in_progress :
    Meets (· = .fatal) (fun s : HostScanStats × GroupProbes => Counted s.1 s.2)
        (retransmitProbe connectPing (fun _ hss g _ _ => .ok (hss, g, none)) latePing.1
          latePing.2 lateProbe ⟨2, .inProgress, .distinct, .zero⟩) ↔
      ¬ ∃ errno, ConnectReturn.inProgress = .done errno ∧ UpAtOnce connectPing errno :=
  retransmitProbe_safe_iff connectPing _ latePing.1 latePing.2 lateProbe
    ⟨2, .inProgress, .distinct, .zero⟩ latePing_counted mem_cons_self rfl rfl (by decide)
    (by simp [latePing, HostScanStats.setProbes, lateProbe, connectProbe, UltraProbe.expire])

/-- The second connection is accepted at once. -/
theorem retransmitProbe_accepted :
    Counted latePing.1 latePing.2 ∧ lateProbe ∈ latePing.1.probesOutstanding ∧
      lateProbe.waits = true ∧
      ¬ Meets (· = .fatal) (fun s : HostScanStats × GroupProbes => Counted s.1 s.2)
        (retransmitProbe connectPing (fun _ hss g _ _ => .ok (hss, g, none)) latePing.1
          latePing.2 lateProbe ⟨2, .done .ok, .distinct, .zero⟩) := by
  refine ⟨latePing_counted, mem_cons_self, rfl, ?_⟩
  have dangling : retransmitProbe connectPing (fun _ hss g _ _ => .ok (hss, g, none)) latePing.1
      latePing.2 lateProbe ⟨2, .done .ok, .distinct, .zero⟩ = .error .dangling := rfl
  rw [dangling]
  intro fatal
  cases fatal

end Nmap.ScanEngine
