import Mathlib.Logic.Function.Basic
import Nmap.Base.TSys
import Nmap.Service.Probes

/-!
# The service scan (`service_scan.cc`)

The `ServiceGroup` with its three lists of services, its constructor, the launcher and the
handlers of nsock's connect, write and read events, and the runs that they make.

What a callback takes from outside is an argument of it: the clock (`timedOut`, `timeLeft`,
`quick`), whether a connect fails at once, and which write or read events nsock delivers
before the call that requests them returns. Matching a response against the regular
expressions is `Config.testMatch` and `Config.payloadServiceMatch`.
-/

namespace Nmap.Service

/-! ## The group -/

structure Config where
  ap : AllProbes
  haveOpenssl : Bool
  versionIntensity : Nat
  timingLevel : Nat
  minParallelism : Nat
  maxParallelism : Nat
  overrideExcludeports : Bool
  testMatch : ProbeRef → List UInt8 → Option MatchDetails
  payloadServiceMatch : Nat → List UInt8 → Option MatchDetails
  /-- what `total_services` holds before its first assignment -/
  uninitialised : Nat

/-- `ServiceGroup`. The `ServiceNFO`s are numbered in the order of their creation. -/
structure ServiceGroup where
  services : Nat → ServiceNFO
  created : Nat
  servicesFinished : List Nat
  servicesInProgress : List Nat
  servicesRemaining : List Nat
  totalServices : Nat
  idealParallelism : Nat
  busy : Bool

/-- What the clock and the sockets do while the launcher runs. For a connect that fails at
once the value says whether the host has timed out by then. -/
structure Env where
  timedOut : Nat → Bool
  connectFails : Nat → Option Bool

structure ConnectEvent where
  status : NseStatus
  timedOut : Bool
  deriving DecidableEq, Repr

structure WriteEvent where
  status : NseStatus
  timedOut : Bool
  deriving DecidableEq, Repr

structure ReadEvent where
  status : NseStatus
  errno : Errno
  data : List UInt8
  timedOut : Bool
  /-- `probe_timemsleft(probe) > 0` -/
  timeLeft : Bool
  /-- `probe_timemsused(probe) < tcpwrappedms` -/
  quick : Bool
  /-- the write event that comes before `nsock_write` returns, if probe text is sent now -/
  syncWrite : Option WriteEvent
  deriving DecidableEq, Repr

/-- The calls that run before their result is looked at -/
abbrev Callback := ServiceGroup → Except Halt ServiceGroup

namespace ServiceGroup

/-- Stores to the `ServiceNFO` with the number `i` -/
def put (sg : ServiceGroup) (i : Nat) (svc : ServiceNFO) : ServiceGroup :=
  { sg with services := Function.update sg.services i svc }

def modify (sg : ServiceGroup) (i : Nat) (f : ServiceNFO → ServiceNFO) : ServiceGroup :=
  sg.put i (f (sg.services i))

/-- Adds to the record of what has happened to a service -/
def record (sg : ServiceGroup) (i : Nat) (event : SvcEvent) : ServiceGroup :=
  sg.modify i fun svc => { svc with history := event :: svc.history }

end ServiceGroup

open ServiceGroup

/-- The branches of `end_svcprobe` that look for the service -/
def eraseUnfinished (i : Nat) (sg : ServiceGroup) : Except Halt ServiceGroup :=
  if i ∈ sg.servicesInProgress then
    .ok { sg with servicesInProgress := sg.servicesInProgress.erase i }
  else if i ∈ sg.servicesRemaining then
    .ok { sg with servicesRemaining := sg.servicesRemaining.erase i }
  else .error .assertion

/-- `end_svcprobe`; `nsi` is false for the null pointer. -/
def endSvcprobe (state : ProbeState) (nsi : Bool) (i : Nat) (sg : ServiceGroup) :
    Except Halt ServiceGroup := do
  let sg := sg.modify i fun svc =>
    { svc with probeState := if svc.tcpwrapPossible then .finishedTcpwrapped else state }
  let sg ← eraseUnfinished i sg
  let sg := { sg with servicesFinished := sg.servicesFinished ++ [i] }
  .ok (if nsi then sg.modify i fun svc => { svc with niod := none } else sg)

/-! ## The constructor -/

structure EarlySvcResponse where
  dport : Nat
  data : List UInt8
  deriving DecidableEq, Repr

structure Target where
  timedOut : Bool
  openPorts : List (Nat × Proto)
  openFilteredPorts : List (Nat × Proto)
  earlySvcResponses : List EarlySvcResponse
  deriving DecidableEq, Repr

/-- `new ServiceNFO(AP)` for a port -/
def addService (target : Nat) (sg : ServiceGroup) (port : Nat × Proto) : ServiceGroup :=
  { sg with
    services := Function.update sg.services sg.created
      { target := target, portno := port.1, proto := port.2 }
    created := sg.created + 1
    servicesRemaining := sg.servicesRemaining ++ [sg.created] }

/-- The service that an early response is taken for: of any target, as in the source -/
def earlyService (sg : ServiceGroup) (dport : Nat) : Option Nat :=
  sg.servicesRemaining.find? fun i =>
    (sg.services i).proto = .udp && (sg.services i).portno = dport

/-- One round of the loop over `earlySvcResponses` -/
def earlyResponse (cfg : Config) (sg : ServiceGroup) (esr : EarlySvcResponse) :
    Except Halt ServiceGroup :=
  match cfg.payloadServiceMatch esr.dport esr.data with
  | none => .ok sg
  | some details =>
    match earlyService sg esr.dport with
    | none => .ok sg
    | some i =>
      let sg := sg.record i (.early details)
      match (sg.services i).processMatch (some details) with
      | (false, svc) => .ok (sg.put i svc)
      | (true, svc) =>
        match svc.scanThroughTunnel cfg.haveOpenssl with
        | (true, svc) => .ok (sg.put i svc)
        | (false, svc) => endSvcprobe .finishedHardmatched false i (sg.put i svc)

/-- The services of one target, with `total_services` set again -/
def addServices (sg : ServiceGroup) (target : Nat) (t : Target) : ServiceGroup :=
  let sg := t.openPorts.foldl (addService target) sg
  let sg := t.openFilteredPorts.foldl (addService target) sg
  { sg with totalServices := sg.servicesRemaining.length }

/-- One round of the loop over the targets -/
def addTarget (cfg : Config) (sg : ServiceGroup) (entry : Target × Nat) :
    Except Halt ServiceGroup :=
  if entry.1.timedOut then .ok sg
  else entry.1.earlySvcResponses.foldlM (earlyResponse cfg) (addServices sg entry.2 entry.1)

def desiredPar (timingLevel : Nat) : Nat :=
  if timingLevel ≥ 5 then 40 else if timingLevel = 4 then 30 else if timingLevel = 3 then 20 else 1

/-- `box(min_par, max_par, desired_par)` -/
def idealPar (cfg : Config) : Nat :=
  let minPar := cfg.minParallelism
  let maxPar := max minPar (if cfg.maxParallelism ≠ 0 then cfg.maxParallelism else 100)
  let desired := desiredPar cfg.timingLevel
  if desired < minPar then minPar else if desired > maxPar then maxPar else desired

/-- The members before the loop over the targets -/
def emptyGroup (cfg : Config) : ServiceGroup where
  services := fun _ => { target := 0, portno := 0, proto := .tcp }
  created := 0
  servicesFinished := []
  servicesInProgress := []
  servicesRemaining := []
  totalServices := cfg.uninitialised
  idealParallelism := 0
  busy := false

/-- `ServiceGroup::ServiceGroup` -/
def newServiceGroup (cfg : Config) (targets : List Target) : Except Halt ServiceGroup := do
  let sg ← targets.zipIdx.foldlM (addTarget cfg) (emptyGroup cfg)
  .ok { sg with idealParallelism := idealPar cfg, busy := false }

def removeExcludedPorts (ap : AllProbes) (sg : ServiceGroup) : ServiceGroup :=
  let excluded i := ap.isExcluded (sg.services i).portno (sg.services i).proto
  { sg with
    servicesRemaining := sg.servicesRemaining.filter fun i => !excluded i
    servicesFinished := sg.servicesFinished ++ sg.servicesRemaining.filter excluded }

/-! ## Starting probes -/

/-- `servicescan_connect_handler` where no connection was made or the host has timed out -/
def abandonConnect (launch : Callback) (event : ConnectEvent) (i : Nat) (sg : ServiceGroup) :
    Except Halt ServiceGroup :=
  let sg := sg.record i (.connect event.status event.timedOut)
  if event.timedOut then do
    let sg ← endSvcprobe .incomplete true i sg
    launch sg
  else
    match event.status with
    | .timeout | .error | .proxyerror => do
      let sg ← endSvcprobe .incomplete true i sg
      launch sg
    | .kill => endSvcprobe .incomplete true i sg
    | _ => .error .unexpectedStatus

/-- The final state for a service whose probes are all used up -/
def noMoreProbes (svc : ServiceNFO) : ProbeState :=
  if svc.softMatchFound then .finishedSoftmatched else .finishedNomatch

/-- The probe that `startNextProbe` opens a new connection for: the first one, which
`currentProbe` has just selected, or the one after the current probe. The old iod is deleted. -/
def nextConnection (cfg : Config) (nsi : Bool) (svc : ServiceNFO) :
    Except Halt (Option ServiceProbe × ServiceNFO) := do
  let isInitial := svc.probeState = .initial
  let (probe, svc) ← svc.currentProbe cfg.ap cfg.versionIntensity
  let svc := if nsi then { svc with niod := none } else svc
  if isInitial then .ok (probe, svc) else svc.nextProbe cfg.ap cfg.versionIntensity true

/-- `startNextProbe` on a new connection. nsock calls the connect handler at once when the
connect fails, and never when it succeeds. -/
def restartProbe (cfg : Config) (env : Env) (launch : Callback) (nsi : Bool) (i : Nat)
    (sg : ServiceGroup) : Except Halt ServiceGroup := do
  match ← nextConnection cfg nsi (sg.services i) with
  | (some _, svc) =>
    match env.connectFails i with
    | none => .ok (sg.put i { svc with niod := some { Iod.idle with connects := 1 } })
    | some timedOut =>
      abandonConnect launch ⟨.error, timedOut⟩ i
        (sg.put i { svc with niod := some Iod.idle })
  | (none, svc) =>
    let sg := (sg.put i svc).record i .exhausted
    endSvcprobe (noMoreProbes svc) false i sg

/-- The rounds of `launchSomeServiceProbes` -/
def launchLoop (cfg : Config) (env : Env) : Nat → ServiceGroup → Except Halt ServiceGroup
  | 0, _ => .error .outOfFuel
  | fuel + 1, sg =>
    if sg.busy then .ok sg
    else if sg.servicesInProgress.length < sg.idealParallelism then
      match sg.servicesRemaining with
      | [] => .ok sg
      | i :: _ =>
        if env.timedOut i then do
          let sg ← endSvcprobe .incomplete false i (sg.record i .hostTimeout)
          launchLoop cfg env fuel sg
        else do
          let sg ← restartProbe cfg env (launchLoop cfg env fuel) false i sg
          if (sg.services i).probeState = .finishedNomatch then launchLoop cfg env fuel sg
          else if sg.servicesRemaining.head? = some i then
            launchLoop cfg env fuel { sg with
              servicesRemaining := sg.servicesRemaining.tail
              servicesInProgress := sg.servicesInProgress ++ [i] }
          else launchLoop cfg env fuel sg
    else .ok sg

def launchSomeServiceProbes (cfg : Config) (env : Env) : Callback := fun sg =>
  launchLoop cfg env (sg.servicesRemaining.length + 1) sg

/-! ## Handlers -/

def servicescanWriteHandler (launch : Callback) (event : WriteEvent) (i : Nat)
    (sg : ServiceGroup) : Except Halt ServiceGroup :=
  let sg := sg.record i (.write event.status event.timedOut)
  if event.timedOut then endSvcprobe .incomplete true i sg
  else
    match event.status with
    | .success => .ok sg
    | .kill => endSvcprobe .incomplete true i sg
    | _ => do
      let sg ← endSvcprobe .incomplete true i sg
      launch sg

/-- `nsock_write`: the event stays pending or its handler is called now. -/
def nsockWrite (launch : Callback) (syncWrite : Option WriteEvent) (i : Nat)
    (sg : ServiceGroup) : Except Halt ServiceGroup :=
  match syncWrite with
  | none =>
    .ok (sg.modify i fun svc =>
      { svc with niod := svc.niod.map fun iod => { iod with writes := iod.writes + 1 } })
  | some event => servicescanWriteHandler launch event i sg

def sendProbeText (launch : Callback) (syncWrite : Option WriteEvent) (probe : ServiceProbe)
    (i : Nat) (sg : ServiceGroup) : Except Halt ServiceGroup :=
  if probe.isNullProbe then .ok sg
  else do
    let sg ← nsockWrite launch syncWrite i { sg with busy := true }
    .ok { sg with busy := false }

/-- Sends the text of a probe and reads what comes back, unless that has ended the service -/
def sendAndRead (launch : Callback) (nsockRead : Nat → Callback) (syncWrite : Option WriteEvent)
    (probe : ServiceProbe) (i : Nat) (sg : ServiceGroup) : Except Halt ServiceGroup := do
  let sg ← sendProbeText launch syncWrite probe i sg
  if (sg.services i).probeState.unfinished then nsockRead i sg else .ok sg

/-- `startNextProbe` from a handler, whose iod is deleted before the next connection -/
def startNextProbe (cfg : Config) (env : Env) (nsockRead : Nat → Callback)
    (syncWrite : Option WriteEvent) (alwaysrestart : Bool) (i : Nat) (sg : ServiceGroup) :
    Except Halt ServiceGroup := do
  let launch := launchSomeServiceProbes cfg env
  if alwaysrestart then restartProbe cfg env launch true i sg
  else
    match ← (sg.services i).currentProbe cfg.ap cfg.versionIntensity with
    | (none, _) => .error .nullDereference
    | (some probe, svc) =>
      if probe.isNullProbe then
        -- the connection of the NULL probe is used again
        match ← svc.nextProbe cfg.ap cfg.versionIntensity false with
        | (some probe, svc) => sendAndRead launch nsockRead syncWrite probe i (sg.put i svc)
        | (none, svc) =>
          let sg := (sg.put i svc).record i .exhausted
          endSvcprobe (noMoreProbes svc) false i sg
      else restartProbe cfg env launch true i sg

/-- The loop of `servicescan_read_handler` over the fallbacks of the current probe -/
def testFallbacks (cfg : Config) (probe : ServiceProbe) (resp : List UInt8) :
    Option MatchDetails :=
  probe.fallbacks.findSome? fun fallback =>
    (cfg.testMatch fallback resp).filter fun details => details.serviceName.isSome

/-- `tcpwrap_possible = false` -/
def notTcpwrapped (sg : ServiceGroup) (i : Nat) : ServiceGroup :=
  sg.modify i fun svc => { svc with tcpwrapPossible := false }

section ReadHandler

variable (cfg : Config) (env : Env) (nsockRead : Nat → Callback)

/-- `NSE_STATUS_SUCCESS` of a read -/
def readSuccess (event : ReadEvent) (probe : ServiceProbe) (i : Nat) (sg : ServiceGroup) :
    Except Halt ServiceGroup :=
  let sg := notTcpwrapped sg i
  let resp := (sg.services i).currentresp ++ event.data
  let sg := sg.modify i fun svc => { svc with currentresp := resp }
  match (sg.services i).processMatch (testFallbacks cfg probe resp) with
  | (true, svc) =>
    match svc.scanThroughTunnel cfg.haveOpenssl with
    | (true, svc) => startNextProbe cfg env nsockRead event.syncWrite true i (sg.put i svc)
    | (false, svc) => endSvcprobe .finishedHardmatched true i (sg.put i svc)
  | (false, svc) =>
    if event.timeLeft && resp.length < 4096 then nsockRead i (sg.put i svc)
    else startNextProbe cfg env nsockRead event.syncWrite false i (sg.put i svc)

/-- `NSE_STATUS_EOF` of a read -/
def readEof (event : ReadEvent) (probe : ServiceProbe) (i : Nat) (sg : ServiceGroup) :
    Except Halt ServiceGroup :=
  let sg := if (sg.services i).currentresp.length > 0 then notTcpwrapped sg i else sg
  if (sg.services i).tcpwrapPossible && probe.isNullProbe &&
      (sg.services i).currentresp.length = 0 && event.quick then
    endSvcprobe .finishedTcpwrapped true i sg
  else startNextProbe cfg env nsockRead event.syncWrite true i sg

/-- `NSE_STATUS_ERROR` of a read -/
def readError (event : ReadEvent) (probe : ServiceProbe) (i : Nat) (sg : ServiceGroup) :
    Except Halt ServiceGroup :=
  match event.errno with
  | .econnreset | .econnrefused | .econnaborted =>
    if (sg.services i).tcpwrapPossible && probe.isNullProbe && event.quick then
      endSvcprobe .finishedTcpwrapped true i sg
    else startNextProbe cfg env nsockRead event.syncWrite true i sg
  | .enoprotoopt | .emsgsize | .eopnotsupp | .epipe | .enetreset | .eproto | .eio =>
    startNextProbe cfg env nsockRead event.syncWrite true i sg
  | .ehostdown | .enonet | .enetunreach | .ehostunreach | .enetdown | .other =>
    endSvcprobe .incomplete true i (notTcpwrapped sg i)

/-- `servicescan_read_handler`, with the selected probe -/
def readWith (event : ReadEvent) (probe : ServiceProbe) (i : Nat) (sg : ServiceGroup) :
    Except Halt ServiceGroup :=
  let launch := launchSomeServiceProbes cfg env
  if event.timedOut then do
    let sg ← endSvcprobe .incomplete true i (notTcpwrapped sg i)
    launch sg
  else
    match event.status with
    | .success => do
      let sg ← readSuccess cfg env nsockRead event probe i sg
      launch sg
    | .timeout => do
      let sg ← startNextProbe cfg env nsockRead event.syncWrite false i (notTcpwrapped sg i)
      launch sg
    | .eof => do
      let sg ← readEof cfg env nsockRead event probe i sg
      launch sg
    | .error => do
      let sg ← readError cfg env nsockRead event probe i sg
      launch sg
    | .kill => endSvcprobe .incomplete true i (notTcpwrapped sg i)
    | .none | .cancelled | .proxyerror => .error .unexpectedStatus

def servicescanReadHandler (event : ReadEvent) (i : Nat) (sg : ServiceGroup) :
    Except Halt ServiceGroup := do
  let sg := sg.record i (.read event.status event.errno event.timedOut)
  match ← (sg.services i).currentProbe cfg.ap cfg.versionIntensity with
  | (none, _) => .error .nullDereference
  | (some probe, svc) => readWith cfg env nsockRead event probe i (sg.put i svc)

end ReadHandler

/-- `nsock_read`: each call takes the next of the read events that nsock has at hand and calls
the handler now, and leaves the event pending when there is none. -/
def nsockRead (cfg : Config) (env : Env) : List ReadEvent → Nat → Callback
  | [], i => fun sg =>
    .ok (sg.modify i fun svc =>
      { svc with niod := svc.niod.map fun iod => { iod with reads := iod.reads + 1 } })
  | event :: rest, i => servicescanReadHandler cfg env (nsockRead cfg env rest) event i

def servicescanConnectHandler (cfg : Config) (env : Env) (event : ConnectEvent)
    (syncWrite : Option WriteEvent) (syncReads : List ReadEvent) (i : Nat) (sg : ServiceGroup) :
    Except Halt ServiceGroup := do
  let launch := launchSomeServiceProbes cfg env
  match ← (sg.services i).currentProbe cfg.ap cfg.versionIntensity with
  | (none, _) => .error .nullDereference
  | (some probe, svc) =>
    let sg := sg.put i svc
    if event.timedOut || event.status ≠ .success then abandonConnect launch event i sg
    else
      let sg := sg.record i (.connect event.status event.timedOut)
      let sg ← sendAndRead launch (nsockRead cfg env syncReads) syncWrite probe i sg
      launch sg

/-! ## Runs -/

/-- What nsock delivers from its loop -/
inductive Event
  | connect (i : Nat) (event : ConnectEvent) (syncWrite : Option WriteEvent)
      (syncReads : List ReadEvent)
  | write (i : Nat) (event : WriteEvent)
  | read (i : Nat) (event : ReadEvent) (syncReads : List ReadEvent)
  deriving DecidableEq, Repr

/-- Delivers an event; none where no such event is pending on the iod of the service, or the
iod was deleted -/
def deliver (cfg : Config) (env : Env) (sg : ServiceGroup) :
    Event → Option (Except Halt ServiceGroup)
  | .connect i event syncWrite syncReads => do
    let iod ← (sg.services i).niod
    if iod.connects = 0 then none
    else
      let svc := { sg.services i with niod := some { iod with connects := iod.connects - 1 } }
      some (servicescanConnectHandler cfg env event syncWrite syncReads i (sg.put i svc))
  | .write i event => do
    let iod ← (sg.services i).niod
    if iod.writes = 0 then none
    else
      let svc := { sg.services i with niod := some { iod with writes := iod.writes - 1 } }
      some (servicescanWriteHandler (launchSomeServiceProbes cfg env) event i (sg.put i svc))
  | .read i event syncReads => do
    let iod ← (sg.services i).niod
    if iod.reads = 0 then none
    else
      let svc := { sg.services i with niod := some { iod with reads := iod.reads - 1 } }
      some (servicescanReadHandler cfg env (nsockRead cfg env syncReads) event i
        (sg.put i svc))

/-- How far `service_scan` has come -/
inductive Phase
  | constructed
  | checkedExclusions
  | running
  deriving DecidableEq, Repr

inductive ScanState
  | live (phase : Phase) (sg : ServiceGroup)
  | halted (halt : Halt)

def ScanState.ofExcept (phase : Phase) : Except Halt ServiceGroup → ScanState
  | .ok sg => .live phase sg
  | .error halt => .halted halt

/-- The steps of `service_scan` after the construction of the group -/
inductive ScanStep (cfg : Config) : ScanState → ScanState → Prop
  | exclude (sg : ServiceGroup) :
      ScanStep cfg (.live .constructed sg) (.live .checkedExclusions
        (if cfg.overrideExcludeports then sg else removeExcludedPorts cfg.ap sg))
  | launch (sg : ServiceGroup) (env : Env) : sg.servicesRemaining ≠ [] →
      ScanStep cfg (.live .checkedExclusions sg)
        (.ofExcept .running (launchSomeServiceProbes cfg env sg))
  | deliver (sg : ServiceGroup) (env : Env) (event : Event) {result : Except Halt ServiceGroup} :
      deliver cfg env sg event = some result →
      ScanStep cfg (.live .running sg) (.ofExcept .running result)

/-- `service_scan` of the targets -/
def serviceScan (cfg : Config) (targets : List Target) : TSys ScanState where
  init s := s = .ofExcept .constructed (newServiceGroup cfg targets)
  step := ScanStep cfg

end Nmap.Service
