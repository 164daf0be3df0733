import Nmap.Service.Bookkeeping

/-!
# When a service is reported as tcpwrapped

`end_svcprobe` overrides the state it is given with `PROBESTATE_FINISHED_TCPWRAPPED` as long
as `tcpwrap_possible` is set. The flag starts out set and only reads and matches clear it, so
a service that is ended without one of them comes out as tcpwrapped, whatever its protocol
and whether or not it was ever connected.
-/

namespace Nmap.Service

open ServiceNFO ServiceGroup List

variable {svc : ServiceNFO}

/-- What tcpwrapped should mean: a TCP service that accepted a connection and then never sent
anything, without keeping the scan waiting for it -/
structure Earned (svc : ServiceNFO) : Prop where
  tcp : svc.proto = .tcp
  connected : ∃ timedOut, SvcEvent.connect .success timedOut ∈ svc.history
  noData : ∀ errno timedOut, SvcEvent.read .success errno timedOut ∉ svc.history
  noTimeout : ∀ errno timedOut, SvcEvent.read .timeout errno timedOut ∉ svc.history

/-- Nothing ends the service before it has earned the name or something has ruled it out. -/
def EndsInOrder (svc : ServiceNFO) : Prop :=
  (∃ event ∈ svc.history, event.ends = true) →
    (∃ event ∈ svc.history, event.clears = true) ∨
      svc.proto = .tcp ∧ ∃ timedOut, SvcEvent.connect .success timedOut ∈ svc.history

theorem established_iff :
    svc.established = true ↔ ∃ timedOut, SvcEvent.connect .success timedOut ∈ svc.history := by
  unfold established
  rw [any_eq_true]
  constructor
  · rintro ⟨event, mem, establishes⟩
    unfold SvcEvent.establishes at establishes
    split at establishes
    · exact ⟨_, mem⟩
    · cases establishes
  · rintro ⟨timedOut, mem⟩
    exact ⟨_, mem, rfl⟩

theorem ServiceNFO.LogOk.notRead (log : svc.LogOk) (possible : svc.tcpwrapPossible = true)
    {event : SvcEvent} (clears : event.clears = true) : event ∉ svc.history := by
  intro mem
  have cleared : svc.cleared = true := any_eq_true.mpr ⟨event, mem, clears⟩
  have flag := log.flag
  rw [possible, cleared] at flag
  cases flag

theorem endsInOrder_of_open (state : svc.probeState ≠ .finishedTcpwrapped)
    (notEnded : svc.ended = false) :
    (svc.probeState = .finishedTcpwrapped → Earned svc) ↔ EndsInOrder svc := by
  refine ⟨fun _ some => ?_, fun _ wrapped => absurd wrapped state⟩
  have ended : svc.ended = true := any_eq_true.mpr some
  rw [notEnded] at ended
  cases ended

theorem endsInOrder_of_done (done : svc.Done) :
    (svc.probeState = .finishedTcpwrapped → Earned svc) ↔ EndsInOrder svc := by
  constructor
  · intro earned some
    have ended : svc.ended = true := any_eq_true.mpr some
    cases possible : svc.tcpwrapPossible with
    | true =>
      have deserved := earned (done.endedWrapped ended possible)
      exact .inr ⟨deserved.tcp, deserved.connected⟩
    | false =>
      have cleared : svc.cleared = true := by
        have flag := done.log.flag
        rw [possible] at flag
        simpa using flag
      exact .inl (any_eq_true.mp cleared)
  · intro inOrder wrapped
    obtain ⟨possible, earned⟩ := done.wrapped wrapped
    have deserved : svc.proto = .tcp ∧
        ∃ timedOut, SvcEvent.connect .success timedOut ∈ svc.history := by
      rcases earned with ended | ⟨tcp, established⟩
      · rcases inOrder (any_eq_true.mp ended) with ⟨event, mem, clears⟩ | deserved
        · exact absurd mem (done.log.notRead possible clears)
        · exact deserved
      · exact ⟨tcp, established_iff.mp established⟩
    refine ⟨deserved.1, deserved.2, fun errno timedOut => ?_, fun errno timedOut => ?_⟩
    · exact done.log.notRead possible (by simp [SvcEvent.clears])
    · exact done.log.notRead possible (by simp [SvcEvent.clears])

/-- **tcpwrapped is earned exactly where services end in order.** In every state of every run,
a service has the state tcpwrapped only as a connected TCP service that returned no data and
on which no read timed out, if and only if it was not ended before by its host's timeout, a
failed connect or write or the lack of probes. -/
theorem tcpwrapped_earned_iff {cfg : Config} {targets : List Target} {phase : Phase}
    {sg : ServiceGroup} (reach : (serviceScan cfg targets).Reachable (.live phase sg)) (i : Nat)
    (made : i < sg.created) :
    ((sg.services i).probeState = .finishedTcpwrapped → Earned (sg.services i)) ↔
      EndsInOrder (sg.services i) := by
  have inv := Books.inv (scanOk_reachable reach)
  have mem := inv.perm.mem_iff.mpr (mem_range.mpr made)
  rcases mem_append.mp mem with unfinished | finished
  · rcases mem_append.mp unfinished with remaining | inProgress
    · have waiting := inv.waiting i remaining (by simp)
      exact endsInOrder_of_open (by simp [waiting.state]) waiting.notEnded
    · obtain ⟨iod, on⟩ := inv.probing i inProgress (by simp)
      obtain ⟨probe, selected⟩ := on.selected
      refine endsInOrder_of_open (fun wrapped => ?_) on.notEnded
      have unfinished := (unfinished_of_selected selected).1
      rw [wrapped] at unfinished
      cases unfinished
  · exact endsInOrder_of_done (inv.done i finished)

/-- The services of the two hosts, right after the construction of the group -/
theorem tcpwrapped_earned_iff_snmp :
    ∃ sg, newServiceGroup snmpConfig snmpTargets = .ok sg ∧ 1 < sg.created ∧
      (((sg.services 1).probeState = .finishedTcpwrapped → Earned (sg.services 1)) ↔
        EndsInOrder (sg.services 1)) := by
  refine ⟨_, rfl, Nat.lt_succ_self 1, ?_⟩
  have reach : (serviceScan snmpConfig snmpTargets).Reachable
      (.ofExcept .constructed (newServiceGroup snmpConfig snmpTargets)) := .start rfl
  exact tcpwrapped_earned_iff reach 1 (Nat.lt_succ_self 1)

/-- A host with one UDP port, for which no probe applies -/
def dnsTargets : List Target := [⟨false, [(53, .udp)], [], []⟩]

/-- A UDP service to which nothing was ever sent ends as tcpwrapped. -/
theorem udp_service_tcpwrapped :
    ∃ sg, (serviceScan snmpConfig dnsTargets).Reachable (.live .running sg) ∧
      sg.servicesFinished = [0] ∧ (sg.services 0).probeState = .finishedTcpwrapped ∧
      (sg.services 0).proto = .udp ∧ (sg.services 0).history = [.exhausted] ∧
      ¬ Earned (sg.services 0) := by
  have start : (serviceScan snmpConfig dnsTargets).Reachable _ := .start rfl
  have excluded := start.next (ScanStep.exclude _)
  have launched := excluded.next
    (ScanStep.launch _ ⟨fun _ => false, fun _ => none⟩ (cons_ne_nil 0 []))
  refine ⟨_, launched, rfl, rfl, rfl, rfl, ?_⟩
  intro earned
  cases earned.tcp

end Nmap.Service
