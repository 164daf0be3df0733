import Mathlib.Data.List.Basic

/-!
# Services and their probes (`service_scan.h`, `service_scan.cc`)

The data of version detection: the probes of `nmap-service-probes`, the service of one port
(`ServiceNFO`) and the walk over the probes that `nextProbe` makes, first the NULL probe,
then the probes that name the port, then the others.

`nextProbe_spec` says all of what one call can do: it leaves a probe selected or gives the
service one of the two final states.
-/

namespace Nmap.Service

/-! ## Data -/

inductive Proto
  | tcp
  | udp
  | sctp
  deriving DecidableEq, Repr

/-- `service_tunnel_type` -/
inductive Tunnel
  | none
  | ssl
  deriving DecidableEq, Repr

/-- `serviceprobestate`, in the order of the source -/
inductive ProbeState
  | initial
  | nullProbe
  | matchingProbes
  | nonmatchingProbes
  | finishedHardmatched
  | finishedSoftmatched
  | finishedNomatch
  | finishedTcpwrapped
  | excluded
  | incomplete
  deriving DecidableEq, Repr

/-- `probe_state < PROBESTATE_FINISHED_HARDMATCHED` -/
def ProbeState.unfinished : ProbeState → Bool
  | .initial | .nullProbe | .matchingProbes | .nonmatchingProbes => true
  | _ => false

/-- The name of a service as a C string -/
abbrev Name := List Char

/-- The strings of `MatchDetails` about the version, each of which may be a null pointer -/
structure MatchStrings where
  product : Option Name := none
  version : Option Name := none
  info : Option Name := none
  hostname : Option Name := none
  ostype : Option Name := none
  devicetype : Option Name := none
  cpeA : Option Name := none
  cpeH : Option Name := none
  cpeO : Option Name := none
  deriving DecidableEq, Repr

structure MatchDetails where
  isSoft : Bool
  serviceName : Option Name
  strings : MatchStrings
  deriving DecidableEq, Repr

/-- The arrays `product_matched` to `cpe_o_matched` of a `ServiceNFO` -/
structure MatchedStrings where
  product : Name := []
  version : Name := []
  extrainfo : Name := []
  hostname : Name := []
  ostype : Name := []
  devicetype : Name := []
  cpeA : Name := []
  cpeH : Name := []
  cpeO : Name := []
  deriving DecidableEq, Repr

def serviceFieldLen : Nat := 80

def serviceExtraLen : Nat := 256

def serviceTypeLen : Nat := 32

/-- `Strncpy` to an array of `len` bytes, unless there is no string -/
def copyString (len : Nat) (matched : Name) : Option Name → Name
  | none => matched
  | some string => string.take (len - 1)

/-- The copies that `processMatch` makes -/
def MatchedStrings.copy (matched : MatchedStrings) (strings : MatchStrings) : MatchedStrings where
  product := copyString serviceFieldLen matched.product strings.product
  version := copyString serviceFieldLen matched.version strings.version
  extrainfo := copyString serviceExtraLen matched.extrainfo strings.info
  hostname := copyString serviceFieldLen matched.hostname strings.hostname
  ostype := copyString serviceTypeLen matched.ostype strings.ostype
  devicetype := copyString serviceTypeLen matched.devicetype strings.devicetype
  cpeA := copyString serviceFieldLen matched.cpeA strings.cpeA
  cpeH := copyString serviceFieldLen matched.cpeH strings.cpeH
  cpeO := copyString serviceFieldLen matched.cpeO strings.cpeO

/-- A pointer to a probe of `AllProbes` -/
inductive ProbeRef
  | null
  | listed (index : Nat)
  deriving DecidableEq, Repr

structure ServiceProbe where
  probestring : List UInt8
  probeprotocol : Proto
  probableports : List Nat
  probablesslports : List Nat
  rarity : Nat
  detectedServices : List Name
  fallbacks : List ProbeRef
  deriving DecidableEq, Repr

def ServiceProbe.isNullProbe (probe : ServiceProbe) : Bool :=
  probe.probestring.isEmpty

def ServiceProbe.portIsProbable (probe : ServiceProbe) (tunnel : Tunnel) (portno : Nat) : Bool :=
  let portv := if tunnel = .ssl then probe.probablesslports else probe.probableports
  portv.contains portno

/-- No name is possible for the null pointer, which `nextProbe` never passes: a soft match
has a name. -/
def ServiceProbe.serviceIsPossible (probe : ServiceProbe) : Option Name → Bool
  | none => false
  | some sname => probe.detectedServices.contains sname

/-- `AllProbes`. Reading the file puts a probe without a string in `nullProbe` and every
other one in `probes`. -/
structure AllProbes where
  nullProbe : Option ServiceProbe
  probes : List ServiceProbe
  excludedTcpPorts : List Nat
  excludedUdpPorts : List Nat
  excludedSctpPorts : List Nat
  nullProbe_isNull : ∀ probe ∈ nullProbe, probe.isNullProbe = true
  probes_notNull : ∀ probe ∈ probes, probe.isNullProbe = false

def AllProbes.isExcluded (ap : AllProbes) (port : Nat) : Proto → Bool
  | .tcp => ap.excludedTcpPorts.contains port
  | .udp => ap.excludedUdpPorts.contains port
  | .sctp => ap.excludedSctpPorts.contains port

inductive NseStatus
  | none
  | success
  | error
  | timeout
  | cancelled
  | kill
  | eof
  | proxyerror
  deriving DecidableEq, Repr

/-- The error codes that `servicescan_read_handler` tells apart -/
inductive Errno
  | econnreset
  | econnrefused
  | econnaborted
  | enoprotoopt
  | emsgsize
  | eopnotsupp
  | epipe
  | enetreset
  | eproto
  | eio
  | ehostdown
  | enonet
  | enetunreach
  | ehostunreach
  | enetdown
  | other
  deriving DecidableEq, Repr

/-- What has happened to a service. The source keeps no such record. -/
inductive SvcEvent
  /-- the response to a UDP payload of the port scan -/
  | early (details : MatchDetails)
  /-- the host had timed out when the service was to be started -/
  | hostTimeout
  | connect (status : NseStatus) (timedOut : Bool)
  | write (status : NseStatus) (timedOut : Bool)
  | read (status : NseStatus) (errno : Errno) (timedOut : Bool)
  /-- `nextProbe` has found no further probe -/
  | exhausted
  deriving DecidableEq, Repr

/-- An I/O descriptor by the number of events of each type that are pending on it -/
structure Iod where
  connects : Nat
  writes : Nat
  reads : Nat
  deriving DecidableEq, Repr

def Iod.idle : Iod := ⟨0, 0, 0⟩

structure ServiceNFO where
  target : Nat
  portno : Nat
  proto : Proto
  probeState : ProbeState := .initial
  /-- the iterator `current_probe` as an index -/
  currentProbeIndex : Nat := 0
  currentresp : List UInt8 := []
  tunnel : Tunnel := .none
  probeMatched : Option Name := none
  matched : MatchedStrings := {}
  softMatchFound : Bool := false
  tcpwrapPossible : Bool := true
  /-- none once `nsock_iod_delete` was called -/
  niod : Option Iod := none
  /-- newest first -/
  history : List SvcEvent := []
  deriving DecidableEq, Repr

/-- Ways a scan callback can end the program -/
inductive Halt
  /-- an assertion of `end_svcprobe` fails -/
  | assertion
  /-- a null `ServiceProbe` is dereferenced -/
  | nullDereference
  /-- `fatal` of `nextProbe` for a finished service -/
  | finishedProbe
  /-- `fatal` of a handler for an nsock status it does not expect -/
  | unexpectedStatus
  /-- the bound on the rounds of the launcher is reached; the source has none -/
  | outOfFuel
  deriving DecidableEq, Repr

/-! ## The walk over the probes -/

/-- `while (current_probe != AP->probes.end())`: the first probe from here that is wanted -/
def seek (wanted : ServiceProbe → Bool) : List ServiceProbe → Nat → Option (Nat × ServiceProbe)
  | [], _ => none
  | probe :: rest, index =>
    if wanted probe then some (index, probe) else seek wanted rest (index + 1)

namespace ServiceNFO

/-- Where the walk goes on: behind the current probe, or at the first one after a change of
state (`dropdown`) -/
def seekStart (svc : ServiceNFO) (ap : AllProbes) (dropdown : Bool) : Nat :=
  if dropdown then 0
  else if svc.currentProbeIndex ≠ ap.probes.length then svc.currentProbeIndex + 1
  else svc.currentProbeIndex

def wantedMatching (svc : ServiceNFO) (versionIntensity : Nat) (probe : ServiceProbe) : Bool :=
  svc.proto = probe.probeprotocol && probe.portIsProbable svc.tunnel svc.portno &&
    (!svc.softMatchFound || versionIntensity ≥ 9 || probe.serviceIsPossible svc.probeMatched)

def wantedNonmatching (svc : ServiceNFO) (versionIntensity : Nat) (probe : ServiceProbe) : Bool :=
  svc.proto = probe.probeprotocol && !probe.portIsProbable svc.tunnel svc.portno &&
    ((!svc.softMatchFound && probe.rarity ≤ versionIntensity) ||
      (svc.softMatchFound &&
        (versionIntensity ≥ 9 || probe.serviceIsPossible svc.probeMatched)))

/-- The last part of `nextProbe` -/
def nextNonmatching (ap : AllProbes) (versionIntensity : Nat) (dropdown : Bool)
    (svc : ServiceNFO) : Option ServiceProbe × ServiceNFO :=
  let start := svc.seekStart ap dropdown
  match seek (svc.wantedNonmatching versionIntensity) (ap.probes.drop start) start with
  | some (index, probe) =>
    (some probe, { svc with probeState := .nonmatchingProbes, currentProbeIndex := index })
  | none =>
    let final := if svc.softMatchFound then .finishedSoftmatched else .finishedNomatch
    (none, { svc with probeState := final, currentProbeIndex := ap.probes.length })

/-- The part of `nextProbe` for the probes that name the port -/
def nextMatching (ap : AllProbes) (versionIntensity : Nat) (dropdown : Bool)
    (svc : ServiceNFO) : Option ServiceProbe × ServiceNFO :=
  let start := svc.seekStart ap dropdown
  match seek (svc.wantedMatching versionIntensity) (ap.probes.drop start) start with
  | some (index, probe) =>
    (some probe, { svc with probeState := .matchingProbes, currentProbeIndex := index })
  | none => nextNonmatching ap versionIntensity true svc

def nextProbe (ap : AllProbes) (versionIntensity : Nat) (newresp : Bool) (svc : ServiceNFO) :
    Except Halt (Option ServiceProbe × ServiceNFO) :=
  let svc := if newresp then { svc with currentresp := [] } else svc
  match svc.probeState with
  | .initial =>
    match svc.proto, ap.nullProbe with
    | .tcp, some probe => .ok (some probe, { svc with probeState := .nullProbe })
    | _, _ => .ok (nextMatching ap versionIntensity true svc)
  | .nullProbe => .ok (nextMatching ap versionIntensity true svc)
  | .matchingProbes => .ok (nextMatching ap versionIntensity false svc)
  | .nonmatchingProbes => .ok (nextNonmatching ap versionIntensity false svc)
  | _ => .error .finishedProbe

/-- The probe that is selected in a state other than `PROBESTATE_INITIAL` -/
def selected (ap : AllProbes) (svc : ServiceNFO) : Option ServiceProbe :=
  match svc.probeState with
  | .nullProbe => ap.nullProbe
  | .matchingProbes | .nonmatchingProbes => ap.probes[svc.currentProbeIndex]?
  | _ => none

/-- `currentProbe`: for a service that was not started it selects the first one. -/
def currentProbe (ap : AllProbes) (versionIntensity : Nat) (svc : ServiceNFO) :
    Except Halt (Option ServiceProbe × ServiceNFO) :=
  if svc.probeState = .initial then nextProbe ap versionIntensity true svc
  else .ok (svc.selected ap, svc)

def resetProbes (svc : ServiceNFO) : ServiceNFO :=
  { svc with currentresp := [], probeState := .initial }

/-- `processMatch`: whether this is a new hard match -/
def processMatch (details : Option MatchDetails) (svc : ServiceNFO) : Bool × ServiceNFO :=
  match details with
  | some ⟨isSoft, some name, strings⟩ =>
    if isSoft && svc.probeMatched.isSome then (false, svc)
    else
      (!isSoft, { svc with
        probeMatched := some name
        tcpwrapPossible := false
        matched := svc.matched.copy strings
        softMatchFound := isSoft })
  | _ => (false, svc)

/-- `scanThroughTunnel`: whether the service is scanned again through SSL -/
def scanThroughTunnel (haveOpenssl : Bool) (svc : ServiceNFO) : Bool × ServiceNFO :=
  let name := svc.probeMatched.getD []
  if ['s', 's', 'l', '/'].isPrefixOf name then
    (false, { svc with tunnel := .ssl, probeMatched := some (name.drop 4) })
  else if !haveOpenssl || svc.tunnel ≠ .none then (false, svc)
  else if svc.probeMatched ≠ some ['s', 's', 'l'] ∧
      svc.probeMatched ≠ some ['d', 't', 'l', 's'] then (false, svc)
  else
    (true, ({ svc with
      tunnel := .ssl, probeMatched := none, matched := {}, softMatchFound := false }).resetProbes)

end ServiceNFO

/-! ## What a call of `nextProbe` does -/

theorem seek_some {wanted : ServiceProbe → Bool} {probes : List ServiceProbe} {start index : Nat}
    {probe : ServiceProbe} (found : seek wanted (probes.drop start) start = some (index, probe)) :
    probes[index]? = some probe := by
  -- the walk keeps the invariant that what is left is the list behind the iterator
  have walk : ∀ (rest : List ServiceProbe) (k : Nat), rest = probes.drop k →
      seek wanted rest k = some (index, probe) → probes[index]? = some probe := by
    intro rest
    induction rest with
    | nil =>
      intro k _ found
      simp [seek] at found
    | cons head tail ih =>
      intro k here found
      have headAt : probes[k]? = some head := by
        have := congrArg (·[0]?) here
        simpa using this.symm
      have tailAt : tail = probes.drop (k + 1) := by
        have := congrArg List.tail here
        simpa using this
      unfold seek at found
      split at found
      · obtain ⟨rfl, rfl⟩ : k = index ∧ head = probe := by simpa using found
        exact headAt
      · exact ih (k + 1) tailAt found
  exact walk _ start rfl found

namespace ServiceNFO

variable {ap : AllProbes} {versionIntensity : Nat} {svc svc' : ServiceNFO} {probe : ServiceProbe}

theorem unfinished_of_selected (selected : svc.selected ap = some probe) :
    svc.probeState.unfinished = true ∧ svc.probeState ≠ .initial := by
  unfold ServiceNFO.selected at selected
  split at selected <;> simp_all [ProbeState.unfinished]

theorem isNullProbe_iff (selected : svc.selected ap = some probe) :
    probe.isNullProbe = true ↔ svc.probeState = .nullProbe := by
  have listed : ∀ index : Nat, ap.probes[index]? = some probe → probe.isNullProbe = false :=
    fun index found => ap.probes_notNull probe (List.mem_of_getElem? found)
  unfold ServiceNFO.selected at selected
  split at selected
  · next state => simp [state, ap.nullProbe_isNull probe selected]
  · next state => simp [state, listed _ selected]
  · next state => simp [state, listed _ selected]
  · cases selected

theorem currentProbe_selected (selected : svc.selected ap = some probe) :
    svc.currentProbe ap versionIntensity = .ok (some probe, svc) := by
  unfold currentProbe
  rw [if_neg (unfinished_of_selected selected).2, selected]

/-- `svc` after a call of `nextProbe` with the result `result` -/
structure Walk (ap : AllProbes) (newresp : Bool) (svc : ServiceNFO) (result : Option ServiceProbe)
    (svc' : ServiceNFO) : Prop where
  frame : svc' = { svc with
    probeState := svc'.probeState
    currentProbeIndex := svc'.currentProbeIndex
    currentresp := if newresp then [] else svc.currentresp }
  found : ∀ probe, result = some probe → svc'.selected ap = some probe
  nullFirst : svc'.probeState = .nullProbe → svc.probeState = .initial ∧ svc.proto = .tcp
  final : result = none →
    svc'.probeState = .finishedSoftmatched ∨ svc'.probeState = .finishedNomatch

theorem nextNonmatching_walk (dropdown : Bool) :
    Walk ap false svc (nextNonmatching ap versionIntensity dropdown svc).1
      (nextNonmatching ap versionIntensity dropdown svc).2 := by
  unfold nextNonmatching
  dsimp only
  split
  · next index probe found =>
      refine ⟨rfl, ?_, by simp, by simp⟩
      intro probe' eq
      rw [← Option.some.inj eq]
      exact seek_some found
  · refine ⟨rfl, by simp, ?_, ?_⟩
    · dsimp only
      split <;> simp
    · dsimp only
      split <;> simp

theorem nextMatching_walk (dropdown : Bool) :
    Walk ap false svc (nextMatching ap versionIntensity dropdown svc).1
      (nextMatching ap versionIntensity dropdown svc).2 := by
  unfold nextMatching
  dsimp only
  split
  · next index probe found =>
      refine ⟨rfl, ?_, by simp, by simp⟩
      intro probe' eq
      rw [← Option.some.inj eq]
      exact seek_some found
  · exact nextNonmatching_walk true

/-- A call of `nextProbe` for an unfinished service leaves a probe selected, or it returns
NULL and the service is in one of the two final states; nothing else changes. -/
theorem nextProbe_spec (ap : AllProbes) (versionIntensity : Nat) (newresp : Bool)
    (svc : ServiceNFO) (unfinished : svc.probeState.unfinished = true) :
    ∃ result svc', nextProbe ap versionIntensity newresp svc = .ok (result, svc') ∧
      Walk ap newresp svc result svc' := by
  -- the walk starts from the service with its response forgotten where a new one is wanted
  have lift : ∀ {start : ServiceNFO} {result svc'},
      start = (if newresp then { svc with currentresp := [] } else svc) →
      Walk ap false start result svc' → Walk ap newresp svc result svc' := by
    intro start result svc' eq walk
    refine ⟨?_, walk.found, fun null => ?_, walk.final⟩
    · rw [walk.frame, eq]
      cases newresp <;> rfl
    · have first := walk.nullFirst null
      rw [eq] at first
      cases newresp <;> exact first
  generalize starts : (if newresp then { svc with currentresp := [] } else svc) = start at lift
  have unfinished' : start.probeState.unfinished = true := by
    rw [← starts]
    cases newresp <;> exact unfinished
  unfold nextProbe
  rw [starts]
  dsimp only
  cases state : start.probeState with
  | initial =>
    dsimp only
    split
    · next probe tcp null =>
        refine ⟨_, _, rfl, lift rfl ⟨rfl, ?_, fun _ => ⟨state, tcp⟩, by simp⟩⟩
        intro probe' eq
        rw [← Option.some.inj eq]
        exact null
    · exact ⟨_, _, rfl, lift rfl (nextMatching_walk true)⟩
  | nullProbe => exact ⟨_, _, rfl, lift rfl (nextMatching_walk true)⟩
  | matchingProbes => exact ⟨_, _, rfl, lift rfl (nextMatching_walk false)⟩
  | nonmatchingProbes => exact ⟨_, _, rfl, lift rfl (nextNonmatching_walk false)⟩
  | _ => rw [state] at unfinished'; cases unfinished'

end ServiceNFO

end Nmap.Service
