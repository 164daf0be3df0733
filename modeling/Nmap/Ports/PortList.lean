import Mathlib.Logic.Function.Basic

/-!
# Ports, their states and reasons (`portlist.cc`, `portreasons.cc`)

The part of `PortList` that a port scan writes: a port is created when its state is
first set, `setPortState` keeps the counts by state and gives filtered ports the
reason `no-response`, and `setStateReason` stores a reason whatever the state.
-/

namespace Nmap.Ports

open Function

/-- `PORT_UNKNOWN` to `PORT_CLOSEDFILTERED` -/
inductive PortState
  | unknown
  | closed
  | open
  | filtered
  | testing
  | fresh
  | unfiltered
  | openFiltered
  | closedFiltered
  deriving DecidableEq, Repr

/-- `reason_codes` -/
inductive ReasonCode
  | resetPeer
  | conRefused
  | conAccept
  | synAck
  | syn
  | udpResponse
  | protoResponse
  | acces
  | netUnreach
  | hostUnreach
  | protoUnreach
  | portUnreach
  | echoReply
  | destUnreach
  | sourceQuench
  | netProhibited
  | hostProhibited
  | adminProhibited
  | timeExceeded
  | timestampReply
  | addressMaskReply
  | noIpidChange
  | ipidChange
  | arpResponse
  | ndResponse
  | tcpResponse
  | noResponse
  | initAck
  | abort
  | localhost
  | script
  | unknown
  | user
  | noRoute
  | beyondScope
  | rejectRoute
  | paramProblem
  deriving DecidableEq, Repr

def icmpv4ToReason (icmpType icmpCode : UInt8) : ReasonCode :=
  if icmpType = 0 then .echoReply
  else if icmpType = 3 then
    if icmpCode = 0 then .netUnreach
    else if icmpCode = 1 then .hostUnreach
    else if icmpCode = 2 then .protoUnreach
    else if icmpCode = 3 then .portUnreach
    else if icmpCode = 9 then .netProhibited
    else if icmpCode = 10 then .hostProhibited
    else if icmpCode = 13 then .adminProhibited
    else .destUnreach
  else if icmpType = 4 then .sourceQuench
  else if icmpType = 11 then .timeExceeded
  else if icmpType = 14 then .timestampReply
  else if icmpType = 18 then .addressMaskReply
  else .unknown

def icmpv6ToReason (icmpType icmpCode : UInt8) : ReasonCode :=
  if icmpType = 129 then .echoReply
  else if icmpType = 1 then
    if icmpCode = 0 then .noRoute
    else if icmpCode = 1 then .adminProhibited
    else if icmpCode = 2 then .beyondScope
    else if icmpCode = 3 then .hostUnreach
    else if icmpCode = 4 then .portUnreach
    else if icmpCode = 5 then .adminProhibited
    else if icmpCode = 6 then .rejectRoute
    else .destUnreach
  else if icmpType = 4 then .paramProblem
  else if icmpType = 3 then .timeExceeded
  else .unknown

/-- `state_reason_t` -/
structure StateReason where
  reasonId : ReasonCode
  /-- none for `AF_UNSPEC` -/
  ipAddr : Option (List UInt8)
  ttl : UInt8
  deriving DecidableEq, Repr

/-- The `ip_addr` that `setStateReason` is given -/
inductive ReasonAddr
  | null
  /-- `AF_UNSPEC` -/
  | unspec
  | ip (addr : List UInt8)
  deriving DecidableEq, Repr

/-- `set_ip_addr` stores addresses of IP only, and a null pointer takes the old one away. -/
def ReasonAddr.store (old : Option (List UInt8)) : ReasonAddr → Option (List UInt8)
  | .null => none
  | .unspec => old
  | .ip addr => some addr

/-- `Port`, as far as a port scan writes it -/
structure Port where
  state : PortState
  reason : StateReason
  deriving DecidableEq, Repr

/-- The protocols of a port list -/
inductive Proto
  | tcp
  | udp
  | sctp
  | ip
  deriving DecidableEq, Repr

/-- A port number within its protocol -/
structure PortKey where
  portno : UInt16
  proto : Proto
  deriving DecidableEq, Repr

/-- `PortList`: the ports that have been created, the state of the others, and the
counts by state -/
structure PortList where
  ports : PortKey → Option Port
  defaultPortState : Proto → PortState
  stateCounts : Proto → PortState → Int

namespace PortList

/-- `createPort`: the port, and whether it is new -/
def createPort (pl : PortList) (key : PortKey) : Port × Bool :=
  match pl.ports key with
  | some port => (port, false)
  | none => (⟨pl.defaultPortState key.proto, ⟨.noResponse, none, 0⟩⟩, true)

def put (pl : PortList) (key : PortKey) (port : Port) : PortList :=
  { pl with ports := update pl.ports key (some port) }

def count (pl : PortList) (proto : Proto) (state : PortState) (d : Int) : PortList :=
  { pl with
    stateCounts := update pl.stateCounts proto
      (update (pl.stateCounts proto) state (pl.stateCounts proto state + d)) }

/-- The states `setPortState` accepts. -/
def legalState (state : PortState) : Bool :=
  state = .open || state = .closed || state = .filtered || state = .unfiltered ||
    state = .openFiltered || state = .closedFiltered

def setStateReason (pl : PortList) (key : PortKey) (reason : ReasonCode) (ttl : UInt8)
    (ipAddr : ReasonAddr) : PortList :=
  let port := (pl.createPort key).1
  pl.put key { port with reason := ⟨reason, ipAddr.store port.reason.ipAddr, ttl⟩ }

/-- `setPortState`, with the old state. Illegal states are fatal. -/
def setPortState (pl : PortList) (key : PortKey) (state : PortState) :
    Option (PortList × PortState) :=
  if !legalState state then none
  else
    let (current, created) := pl.createPort key
    let old := if created then pl.defaultPortState key.proto else current.state
    let oldstate := if created then .testing else current.state
    let pl := (pl.count key.proto old (-1)).put key { current with state := state }
    let pl := pl.count key.proto state 1
    let pl := if state = .filtered || state = .openFiltered then
        pl.setStateReason key .noResponse 0 .null else pl
    some (pl, oldstate)

def getPortState (pl : PortList) (key : PortKey) : PortState :=
  match pl.ports key with
  | some port => port.state
  | none => pl.defaultPortState key.proto

/-! ## What is written -/

def state? (pl : PortList) (key : PortKey) : Option PortState := (pl.ports key).map (·.state)

def reason? (pl : PortList) (key : PortKey) : Option ReasonCode :=
  (pl.ports key).map (·.reason.reasonId)

@[simp] theorem ports_count (pl : PortList) (proto : Proto) (state : PortState) (d : Int) :
    (pl.count proto state d).ports = pl.ports := rfl

@[simp] theorem ports_put (pl : PortList) (key : PortKey) (port : Port) :
    (pl.put key port).ports = update pl.ports key (some port) := rfl

theorem setStateReason_ports (pl : PortList) (key : PortKey) (reason : ReasonCode) (ttl : UInt8)
    (ipAddr : ReasonAddr) : ∃ port, (pl.setStateReason key reason ttl ipAddr).ports =
      update pl.ports key (some port) ∧ port.reason.reasonId = reason ∧
      ∀ state, pl.state? key = some state → port.state = state := by
  refine ⟨_, rfl, rfl, ?_⟩
  intro state h
  simp only [state?, Option.map_eq_some_iff] at h
  obtain ⟨port, hport, rfl⟩ := h
  simp [createPort, hport]

theorem setPortState_ports {pl pl' : PortList} {key : PortKey} {state oldstate : PortState}
    (h : pl.setPortState key state = some (pl', oldstate)) :
    (∃ port, pl'.ports = update pl.ports key (some port) ∧ port.state = state) ∧
      oldstate = (pl.state? key).getD .testing ∧ legalState state = true := by
  rw [setPortState] at h
  split at h
  · cases h
  · rename_i legal
    have hlegal : legalState state = true := by simpa using legal
    dsimp only at h
    split at h
    · cases h
      refine ⟨?_, ?_, hlegal⟩
      · refine ⟨_, update_idem .., ?_⟩
        simp [createPort]
      · cases hport : pl.ports key <;> simp [createPort, state?, hport]
    · cases h
      refine ⟨⟨_, rfl, rfl⟩, ?_, hlegal⟩
      cases hport : pl.ports key <;> simp [createPort, state?, hport]

theorem setPortState_isSome (pl : PortList) (key : PortKey) {state : PortState}
    (legal : legalState state = true) : (pl.setPortState key state).isSome = true := by
  rw [setPortState, legal]
  rfl

end PortList

end Nmap.Ports
