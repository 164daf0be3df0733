import Mathlib.Data.List.MinMax
import Nmap.ScanEngine.Supply

/-!
# The verdict on a port (`scan_engine.cc`)

`ultrascan_port_pspec_update` with the count of finished ports of the host. The states
that the receivers of a scan report are ranked, and each update keeps the higher of the
old and the new state: in most scans open outranks closed and closed outranks filtered, an
ACK scan puts unfiltered in the middle, and where no response means open the order is
closed, filtered, open. So the state of a port is the highest ranked answer.
-/

namespace Nmap.ScanEngine

open List

open Nmap.Ports (ScanType PortState PortKey Port PortList Answered)

/-! ## The update -/

/-- The ports of a `HostScanStats` and how many of them are finished -/
structure HostPorts where
  ports : PortList
  portsFinished : Nat

/-- The protocol and the number of the port that a probe is for -/
def pspecPort (scan : ScanType) (pspec : ProbeSpec) : Option PortKey :=
  if scan = .ipProt then some ⟨pspec.proto.toUInt16, .ip⟩
  else
    match pspec.type, pspec.pd with
    | .tcp, .tcp dport _ | .connectTcp, .tcp dport _ => some ⟨dport, .tcp⟩
    | .udp, .udp dport => some ⟨dport, .udp⟩
    | .sctp, .sctp dport _ => some ⟨dport, .sctp⟩
    | _, _ => none

/-- `ultrascan_port_pspec_update`. `none` stands for its assertion and for a state that is
fatal. -/
def ultrascanPortPspecUpdate (scan : ScanType) (hss : HostPorts) (pspec : ProbeSpec)
    (newstate : PortState) : Option (HostPorts × Bool) := do
  let norespOpenScan := scan.norespOpenScan
  let key ← pspecPort scan pspec
  let (ports, oldstate) ← hss.ports.setPortState key newstate
  let hss := { hss with ports := ports }
  let revert := do
    let (ports, _) ← hss.ports.setPortState key oldstate
    return { hss with ports := ports }
  if newstate ≠ oldstate then
    let hss ← match oldstate with
      -- "Brand new port -- add it to the list"
      | .testing => some { hss with portsFinished := hss.portsFinished + 1 }
      | .open => if !norespOpenScan then revert else some hss
      | .closed => if norespOpenScan || newstate = .filtered then revert else some hss
      | .filtered => if norespOpenScan && newstate = .open then revert else some hss
      | .unfiltered => if newstate ≠ .open && newstate ≠ .closed then revert else some hss
      | .openFiltered => some hss
      | _ => none
    return (hss, true)
  else return (hss, false)

def portPspecUpdates (scan : ScanType) (hss : HostPorts) (pspec : ProbeSpec)
    (answers : List PortState) : Option HostPorts :=
  answers.foldlM
    (fun hss newstate => (ultrascanPortPspecUpdate scan hss pspec newstate).map (·.1)) hss

/-! ## The answers of a scan -/

/-- The states that the receivers of a scan report -/
def answerStates : ScanType → List PortState
  | .ack => [.unfiltered, .filtered, .open]
  | _ => [.open, .closed, .filtered]

/-- How much an answer weighs against the others -/
def weight (norespOpenScan : Bool) : PortState → Nat
  | .open => if norespOpenScan then 0 else 3
  | .closed | .unfiltered => 2
  | .filtered => 1
  | _ => 0

variable {scan : ScanType} {state : PortState}

theorem answered_of_mem (h : state ∈ answerStates scan) :
    Answered state := by
  cases scan <;> simp only [answerStates, mem_cons, not_mem_nil, or_false] at h <;>
    simp only [Answered] <;> tauto

/-- Two answers of one scan never weigh the same. -/
theorem weight_injective {s t : PortState} (hs : s ∈ answerStates scan) (ht : t ∈ answerStates scan)
    (same : weight scan.norespOpenScan s = weight scan.norespOpenScan t) : s = t := by
  revert same
  cases scan <;> simp only [answerStates, mem_cons, not_mem_nil, or_false] at hs ht <;>
    rcases hs with rfl | rfl | rfl <;> rcases ht with rfl | rfl | rfl <;>
    simp [weight, ScanType.norespOpenScan]

/-- What is left of two answers is the one that weighs more. -/
theorem settledState_eq {old new : PortState} (hold : old ∈ answerStates scan)
    (hnew : new ∈ answerStates scan) :
    Ports.settledState scan.norespOpenScan (some old) new =
      if weight scan.norespOpenScan old < weight scan.norespOpenScan new then new else old := by
  cases scan <;>
    simp only [answerStates, mem_cons, not_mem_nil, or_false] at hold hnew <;>
    rcases hold with rfl | rfl | rfl <;> rcases hnew with rfl | rfl | rfl <;> rfl

/-! ## Runs of updates -/

/-- The port list is updated as it is without the count, and a port without a state is
counted. -/
theorem ultrascanPortPspecUpdate_eq {pspec : ProbeSpec} {key : PortKey}
    (hkey : pspecPort scan pspec = some key) (hss : HostPorts)
    (scanned : ∀ state, hss.ports.state? key = some state → Answered state) {newstate : PortState}
    (answered : Answered newstate) :
    ultrascanPortPspecUpdate scan hss pspec newstate =
      (Ports.ultrascanPortPspecUpdate scan.norespOpenScan hss.ports key newstate).map fun r =>
        (⟨r.1, hss.portsFinished + if hss.ports.state? key = none then 1 else 0⟩, r.2) := by
  obtain ⟨⟨ports, oldstate⟩, hset⟩ :=
    Option.isSome_iff_exists.mp (hss.ports.setPortState_isSome key answered.legal)
  obtain ⟨-, hold, -⟩ := PortList.setPortState_ports hset
  rw [ultrascanPortPspecUpdate, Ports.ultrascanPortPspecUpdate, hkey]
  simp only [Option.bind_eq_bind, Option.bind_some, hset]
  cases hstate : hss.ports.state? key with
  | none =>
    rw [hstate] at hold
    subst hold
    rcases answered with rfl | rfl | rfl | rfl <;> rfl
  | some old =>
    rw [hstate] at hold
    have same : oldstate = old := hold
    subst same
    generalize scan.norespOpenScan = norespOpenScan
    rcases scanned oldstate hstate with rfl | rfl | rfl | rfl <;>
      rcases answered with rfl | rfl | rfl | rfl <;> cases norespOpenScan <;>
      cases ports.setPortState key _ <;> rfl

/-- One update -/
theorem ultrascanPortPspecUpdate_spec {pspec : ProbeSpec} {key : PortKey}
    (hkey : pspecPort scan pspec = some key) (hss : HostPorts)
    (scanned : ∀ state, hss.ports.state? key = some state → Answered state) {newstate : PortState}
    (answered : Answered newstate) :
    ∃ hss' changed,
      ultrascanPortPspecUpdate scan hss pspec newstate = some (hss', changed) ∧
      hss'.ports.state? key =
        some (Ports.settledState scan.norespOpenScan (hss.ports.state? key) newstate) ∧
      hss'.portsFinished =
        hss.portsFinished + if hss.ports.state? key = none then 1 else 0 := by
  obtain ⟨ports, changed, port, update, hports, hstate⟩ :=
    Ports.ultrascanPortPspecUpdate_spec scan.norespOpenScan scanned answered
  refine ⟨_, changed, by rw [ultrascanPortPspecUpdate_eq hkey hss scanned answered, update]; rfl,
    ?_, rfl⟩
  simpa [PortList.state?, hports] using hstate

section Run

variable {scan : ScanType} {pspec : ProbeSpec} {key : PortKey} {hss : HostPorts}

/-- The state of a new port is the answer that weighs most, and the port is counted once. -/
theorem portPspecUpdates_spec (hkey : pspecPort scan pspec = some key)
    (fresh : hss.ports.state? key = none) (answers : List PortState)
    (reported : ∀ state ∈ answers, state ∈ answerStates scan) :
    ∃ hss', portPspecUpdates scan hss pspec answers = some hss' ∧
      hss'.ports.state? key = answers.argmax (weight scan.norespOpenScan) ∧
      hss'.portsFinished = hss.portsFinished + if answers = [] then 0 else 1 := by
  induction answers using List.reverseRecOn with
  | nil => exact ⟨hss, rfl, fresh, rfl⟩
  | append_singleton answers newstate ih =>
    obtain ⟨hss1, run, hstate, hfinished⟩ := ih fun state h => reported state (by simp [h])
    have hnew : newstate ∈ answerStates scan := reported newstate (by simp)
    have hmem : ∀ state, hss1.ports.state? key = some state → state ∈ answerStates scan := by
      intro state h
      rw [hstate] at h
      exact reported state (by simp [argmax_mem h])
    obtain ⟨hss2, changed, update, hstate2, hfinished2⟩ :=
      ultrascanPortPspecUpdate_spec hkey hss1 (fun state h => answered_of_mem (hmem state h))
        (answered_of_mem hnew)
    refine ⟨hss2, ?_, ?_, ?_⟩
    · show (answers ++ [newstate]).foldlM _ hss = some hss2
      rw [foldlM_append]
      show (portPspecUpdates scan hss pspec answers).bind _ = some hss2
      simp [run, update]
    · rw [hstate2, argmax_concat, ← hstate]
      cases hold : hss1.ports.state? key with
      | none => rfl
      | some old =>
        rw [settledState_eq (hmem old hold) hnew]
        show some _ = if _ then some newstate else some old
        rw [apply_ite some]
    · rw [hfinished2, hfinished, hstate]
      cases answers <;> simp

end Run

/-- What weighs most depends only on what is in the list. -/
theorem argmax_congr {answers others : List PortState}
    (reported : ∀ state ∈ answers, state ∈ answerStates scan)
    (same : ∀ state, state ∈ others ↔ state ∈ answers) :
    others.argmax (weight scan.norespOpenScan) = answers.argmax (weight scan.norespOpenScan) := by
  cases best : answers.argmax (weight scan.norespOpenScan) with
  | none =>
    rw [argmax_eq_none] at best ⊢
    subst best
    exact eq_nil_iff_forall_not_mem.mpr fun state h => by simpa using (same state).mp h
  | some state =>
    cases other : others.argmax (weight scan.norespOpenScan) with
    | none =>
      rw [argmax_eq_none] at other
      subst other
      exact absurd ((same state).mpr (argmax_mem best)) (by simp)
    | some state' =>
      have hmem : state' ∈ answers := (same state').mp (argmax_mem other)
      have below : weight scan.norespOpenScan state' ≤ weight scan.norespOpenScan state :=
        le_of_mem_argmax hmem best
      have above : weight scan.norespOpenScan state ≤ weight scan.norespOpenScan state' :=
        le_of_mem_argmax ((same state).mpr (argmax_mem best)) other
      rw [weight_injective (reported state' hmem)
        (reported state (argmax_mem best)) (Nat.le_antisymm below above)]

/-- The verdict on a new port is the same for all lists of the same answers, in any order
and repeated any number of times, and they finish the port once. -/
theorem verdict_order_free (scan : ScanType) (hss : HostPorts) (pspec : ProbeSpec)
    (key : PortKey) (hkey : pspecPort scan pspec = some key)
    (fresh : hss.ports.state? key = none) (answers others : List PortState)
    (reported : ∀ state ∈ answers, state ∈ answerStates scan)
    (same : ∀ state, state ∈ others ↔ state ∈ answers) :
    ∃ hss' hss'', portPspecUpdates scan hss pspec answers = some hss' ∧
      portPspecUpdates scan hss pspec others = some hss'' ∧
      hss''.ports.state? key = hss'.ports.state? key ∧
      hss'.portsFinished = hss.portsFinished + (if answers = [] then 0 else 1) ∧
      hss''.portsFinished = hss'.portsFinished := by
  obtain ⟨hss', run, hstate, hfinished⟩ := portPspecUpdates_spec hkey fresh answers reported
  obtain ⟨hss'', run', hstate', hfinished'⟩ :=
    portPspecUpdates_spec hkey fresh others fun state h => reported state ((same state).mp h)
  have empty : others = [] ↔ answers = [] := by
    simp only [eq_nil_iff_forall_not_mem, same]
  refine ⟨hss', hss'', run, run', ?_, hfinished, ?_⟩
  · rw [hstate', hstate, argmax_congr reported same]
  · simp only [hfinished', hfinished, empty]

/-- A RST, a SYN/ACK and an ICMP error of a SYN scan, and the same with the RST twice and
last -/
theorem verdict_order_free_syn :
    ∃ hss' hss'', portPspecUpdates .syn ⟨.start (fun _ => .filtered) fun _ _ => 0, 0⟩
        ⟨.tcp, 6, .tcp 80 0x02⟩ [.closed, .open, .filtered] = some hss' ∧
      portPspecUpdates .syn ⟨.start (fun _ => .filtered) fun _ _ => 0, 0⟩
        ⟨.tcp, 6, .tcp 80 0x02⟩ [.open, .filtered, .closed, .closed] = some hss'' ∧
      hss''.ports.state? ⟨80, .tcp⟩ = hss'.ports.state? ⟨80, .tcp⟩ ∧
      hss'.portsFinished = 0 + (if [PortState.closed, .open, .filtered] = [] then 0 else 1) ∧
      hss''.portsFinished = hss'.portsFinished :=
  verdict_order_free .syn _ _ ⟨80, .tcp⟩ rfl rfl _ _ (by simp [answerStates])
    (by intro state; cases state <;> simp)

end Nmap.ScanEngine
