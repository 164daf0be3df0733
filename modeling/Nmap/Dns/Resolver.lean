import Nmap.Dns.Message
import Mathlib.Data.Fintype.BigOperators

/-!
# The parallel resolver (`massdns.cc`)

`n` servers, in the order of `servs`, resolve `m` requests. A request is the pointer of the
source; the 16-bit id that it is sent under comes with the configuration, and two requests may
share one. The handlers run between the calls of `nsock`, so a write or a read that `nsock`
starts is an event that comes later.
-/

namespace Nmap.Dns

open Nmap.Base Function

/-! ## Data -/

structure Timeval where
  sec : Int
  usec : Int
  deriving DecidableEq

/-- `TIMEVAL_MSEC_SUBTRACT`, in an `int` -/
def Timeval.msecSubtract (a b : Timeval) : Int :=
  Int.bmod ((a.sec - b.sec) * 1000 + (a.usec - b.usec).tdiv 1000) (2 ^ 32)

def Timeval.before (a b : Timeval) : Bool :=
  if a.sec = b.sec then a.usec < b.usec else a.sec < b.sec

/-- `dns_server::status_t` -/
inductive ServerStatus
  | disconnected
  | connecting
  | connected
  deriving DecidableEq

/-- `request::status_t` -/
inductive RequestStatus
  | ready
  | noResult
  | done
  deriving DecidableEq

/-- `struct dns_server` -/
structure Server (m : Nat) where
  status : ServerStatus
  reqsOnWire : Int
  capacity : Int
  ssthresh : Int
  toProcess : List (Fin m)
  inProcess : List (Fin m)
  records : UInt16 → Option (Fin m)
  lastIncrease : Timeval

/-- The fields of `struct request` that change -/
structure Request (n : Nat) where
  sent : Timeval
  tries : Nat
  serversTried : Nat
  firstServer : Option (Fin n)
  status : RequestStatus

/-- What a request asks for: `targ`, with the name that is sent for it -/
structure Target where
  recordType : UInt16
  name : Bytes

/-- The fields of `struct request` that do not change -/
structure Config (m : Nat) where
  target : Fin m → Target
  id : Fin m → UInt16
  altReq : Fin m → Bool

/-- `struct Stats`. `dropped` lists the requests that the source counts. -/
structure Stats (m : Nat) where
  actual : Int
  ok : Int
  nx : Int
  sf : Int
  trans : Int
  system : Int
  dropped : List (Fin m)

/-- `class ResolverImpl`, with the quit flag of its `nsock` pool -/
structure Resolver (n m : Nat) where
  servers : Fin n → Server m
  reqs : Fin m → Request n
  newReqs : List (Fin m)
  deferredReqs : List (Fin m)
  finished : List (Fin m)
  totalReqs : Int
  stat : Stats m
  quit : Bool

/-- `CAPACITY_MIN`, `CAPACITY_MAX` and `CAPACITY_UP_STEP` -/
def capacityMin : Int := 10
def capacityMax : Int := 100
def capacityUpStep : Int := 2

/-- `(int) (capacity * CAPACITY_MINOR_DOWN_SCALE)`. The double closest to 0.7 is a bit less. -/
def minorDown (capacity : Int) : Int := if capacity = 90 then 62 else capacity * 7 / 10

/-- `(int) (capacity * CAPACITY_MAJOR_DOWN_SCALE)` -/
def majorDown (capacity : Int) : Int := capacity * 4 / 10

/-- `MAX_DNS_TRIES`, `MIN_DNS_TIMEOUT` and `SERVERS_TO_TRY` -/
def maxDnsTries : Nat := 3
def minDnsTimeout : Int := 500
def serversToTry : Nat := 3

/-- `default_read_timeouts[tries]` in the row for this many servers -/
def readTimeout (n tries : Nat) : Int :=
  let row : List Int :=
    if n = 1 then [1000, 1500, 2000, -1]
    else if n = 2 then [1000, 1000, -1, -1]
    else [500, 1000, -1, -1]
  row.getD tries (-1)

/-! ## Changing parts of the state -/

namespace Resolver

variable {n m : Nat}

def onServer (s : Resolver n m) (k : Fin n) (f : Server m → Server m) : Resolver n m :=
  { s with servers := update s.servers k (f (s.servers k)) }

def onRequest (s : Resolver n m) (r : Fin m) (f : Request n → Request n) : Resolver n m :=
  { s with reqs := update s.reqs r (f (s.reqs r)) }

def onStat (s : Resolver n m) (f : Stats m → Stats m) : Resolver n m :=
  { s with stat := f s.stat }

/-- Is the request `READY`? -/
def Ready (s : Resolver n m) (r : Fin m) : Prop := (s.reqs r).status = .ready

instance (s : Resolver n m) (r : Fin m) : Decidable (s.Ready r) :=
  inferInstanceAs (Decidable ((s.reqs r).status = .ready))

end Resolver

def Server.checkCapacities {m : Nat} (sv : Server m) : Server m :=
  { sv with capacity := max capacityMin (min capacityMax sv.capacity) }

namespace Resolver

variable {n m : Nat} (cfg : Config m)

def markAsDone (s : Resolver n m) (r : Fin m) (hasAnswer : Bool) : Resolver n m :=
  { s with
    totalReqs := if s.Ready r then s.totalReqs - 1 else s.totalReqs
    reqs := update s.reqs r
      { s.reqs r with status := if hasAnswer then .done else .noResult }
    finished := if r ∈ s.finished then s.finished else r :: s.finished }

/-! ## Sending -/

def putDnsPacketOnWire (s : Resolver n m) (r : Fin m) (k : Fin n) : Resolver n m :=
  s.onServer k fun sv => { sv with
    reqsOnWire := sv.reqsOnWire + 1
    inProcess := r :: sv.inProcess
    records := update sv.records (cfg.id r) (some r) }

/-- The loop of `server_send` over `new_reqs` -/
def popNew (k : Fin n) (reqs : Fin m → Request n) :
    List (Fin m) → Option (Fin m) × (Fin m → Request n) × List (Fin m)
  | [] => (none, reqs, [])
  | r :: rest =>
    let reqs := update reqs r { reqs r with firstServer := some k }
    if (reqs r).status = .ready then (some r, reqs, rest) else popNew k reqs rest

/-- The loop of `server_send` over `to_process` -/
def popToProcess (reqs : Fin m → Request n) : List (Fin m) → Option (Fin m) × List (Fin m)
  | [] => (none, [])
  | r :: rest => if (reqs r).status = .ready then (some r, rest) else popToProcess reqs rest

/-- `server_send`, with whether it sent -/
def serverSend (s : Resolver n m) (k : Fin n) : Bool × Resolver n m :=
  if (s.servers k).reqsOnWire ≥ (s.servers k).capacity then (false, s)
  else
    let sent (s : Resolver n m) (r : Fin m) : Bool × Resolver n m :=
      (true, putDnsPacketOnWire cfg (s.onStat fun st => { st with trans := st.trans + 1 }) r k)
    match popNew k s.reqs s.newReqs with
    | (some r, reqs, rest) => sent { s with reqs := reqs, newReqs := rest } r
    | (none, reqs, rest) =>
      let s := { s with reqs := reqs, newReqs := rest }
      match popToProcess s.reqs (s.servers k).toProcess with
      | (some r, rest) => sent (s.onServer k fun sv => { sv with toProcess := rest }) r
      | (none, rest) => (false, s.onServer k fun sv => { sv with toProcess := rest })

/-- The inner loop of `do_possible_writes` -/
def sendMany (k : Fin n) : Nat → Resolver n m → Resolver n m
  | 0, s => s
  | i + 1, s =>
    match serverSend cfg s k with
    | (true, s) => sendMany k i s
    | (false, s) => s

def doPossibleWrites (s : Resolver n m) : Resolver n m :=
  let t := (List.finRange n).foldl (fun s k =>
    if (s.servers k).status = .connected then
      sendMany cfg k ((s.servers k).capacity - (s.servers k).reqsOnWire).toNat s
    else s) s
  if ∀ k, (s.servers k).status = .disconnected then { t with quit := true } else t

def handleWrite (s : Resolver n m) (k : Fin n) (r : Fin m) (now : Timeval) (success : Bool) :
    Resolver n m :=
  if success then (serverSend cfg (s.onRequest r fun q => { q with sent := now }) k).2
  else
    -- The request does not leave `reqs_on_wire`.
    s.onServer k fun sv => { sv with
      inProcess := sv.inProcess.filter (· ≠ r)
      toProcess := r :: sv.toProcess }

/-! ## Timeouts -/

/-- The variables of `deal_with_timedout_reads` -/
structure Timing where
  earliestSent : Timeval
  adjusted : Bool
  mayIncrease : Bool
  minTimeout : Int

/-- The server that comes next: the first connected one behind `k`, or `k` itself -/
def nextServer (s : Resolver n m) (k : Fin n) : Fin n :=
  (((List.finRange n).rotate (k.val + 1)).find? fun j =>
    j = k || (s.servers j).status = .connected).getD k

/-- `ssthresh` and `capacity` go down. -/
def slowDown (s : Resolver n m) (k : Fin n) (scale : Int → Int) : Resolver n m :=
  s.onServer k fun sv => Server.checkCapacities
    { sv with ssthresh := min sv.ssthresh sv.capacity, capacity := scale sv.capacity }

/-- A request that has been tried often enough leaves for the next server, or is dropped. -/
def moveOn (s : Resolver n m) (k : Fin n) (r : Fin m) : Resolver n m :=
  let next := s.nextServer k
  let s := s.onRequest r fun q => { q with tries := 0, serversTried := q.serversTried + 1 }
  if some next = (s.reqs r).firstServer ∨ (s.reqs r).serversTried = serversToTry then
    (s.onStat fun st => { st with dropped := st.dropped ++ [r] }).markAsDone r false
  else
    s.onServer next fun sv => { sv with
      records := update sv.records (cfg.id r) (some r)
      toProcess := sv.toProcess ++ [r] }

/-- A request that has timed out on a server -/
def timedOut (s : Resolver n m) (t : Timing) (k : Fin n) (r : Fin m) : Resolver n m × Timing :=
  let t := { t with mayIncrease := false }
  let s := s.onRequest r fun q => { q with tries := min (q.tries + 1) maxDnsTries }
  let s := s.onServer k fun sv => { sv with
    inProcess := sv.inProcess.erase r
    reqsOnWire := sv.reqsOnWire - 1 }
  if readTimeout n (s.reqs r).tries = -1 then
    if !t.adjusted && (s.reqs r).serversTried = 0 then
      (moveOn cfg (s.slowDown k majorDown) k r, { t with adjusted := true })
    else (moveOn cfg s k r, t)
  else
    let back (s : Resolver n m) : Resolver n m :=
      s.onServer k fun sv => { sv with toProcess := sv.toProcess ++ [r] }
    if !t.adjusted && (s.reqs r).serversTried = 0 && (s.reqs r).tries ≤ 1 then
      (back (s.slowDown k minorDown), { t with adjusted := true })
    else (back s, t)

/-- One round of `deal_with_timedout_reads` over `in_process` -/
def checkTimeout (k : Fin n) (now : Timeval) (st : Resolver n m × Timing) (r : Fin m) :
    Resolver n m × Timing :=
  let (s, t) := st
  let tp := readTimeout n (s.reqs r).tries - now.msecSubtract (s.reqs r).sent
  if tp > 0 then
    (s, { t with
      earliestSent :=
        if t.mayIncrease && (s.reqs r).sent.before t.earliestSent then (s.reqs r).sent
        else t.earliestSent
      minTimeout := min t.minTimeout tp })
  else timedOut cfg s t k r

/-- What `deal_with_timedout_reads` does with one server -/
def checkServer (now : Timeval) (adjustTiming : Bool) (st : Resolver n m × Int) (k : Fin n) :
    Resolver n m × Int :=
  let (s, minTimeout) := st
  if (s.servers k).inProcess = [] then (s, minTimeout)
  else
    let (s, t) := (s.servers k).inProcess.foldl (checkTimeout cfg k now)
      (s, ⟨now, !adjustTiming, adjustTiming, minTimeout⟩)
    let sv := s.servers k
    if t.mayIncrease && t.earliestSent.msecSubtract sv.lastIncrease > minDnsTimeout &&
        sv.reqsOnWire > sv.capacity - 2 * capacityUpStep then
      (s.onServer k fun sv => { Server.checkCapacities
        { sv with capacity := sv.capacity + capacityUpStep } with lastIncrease := now },
        t.minTimeout)
    else (s, t.minTimeout)

/-- `deal_with_timedout_reads`, with the time until the next timeout -/
def dealWithTimedoutReads (s : Resolver n m) (now : Timeval) (adjustTiming : Bool) :
    Resolver n m × Int :=
  let (s, minTimeout) :=
    (List.finRange n).foldl (checkServer cfg now adjustTiming) (s, 2 ^ 31 - 1)
  (s, min 500 minTimeout)

/-! ## Answers -/

/-- The parameter `action` of `process_request` -/
inductive Action
  | finished
  | systemResolve
  | timeout
  deriving DecidableEq

/-- The part of `process_request` that ends a request -/
def endRequest (s : Resolver n m) (k : Fin n) (r : Fin m) (hasAnswer : Bool) : Resolver n m :=
  let s := s.onServer k fun sv =>
    if sv.reqsOnWire = sv.capacity ∧ sv.capacity < sv.ssthresh then
      Server.checkCapacities { sv with capacity := sv.capacity + capacityUpStep }
    else sv
  let s := s.onServer k fun sv => { sv with
    records := update sv.records (cfg.id r) none
    inProcess := sv.inProcess.filter (· ≠ r)
    toProcess := sv.toProcess.filter (· ≠ r) }
  (s.markAsDone r hasAnswer).onServer k fun sv => { sv with reqsOnWire := sv.reqsOnWire - 1 }

def processRequest (action : Action) (s : Resolver n m) (r : Fin m) (k : Fin n) (now : Timeval) :
    Resolver n m :=
  match action with
  | .finished => endRequest cfg s k r true
  | .systemResolve =>
    let s := endRequest cfg s k r false
    if cfg.altReq r then s.onStat fun st => { st with actual := st.actual - 1 }
    else { s with
      deferredReqs := s.deferredReqs ++ [r]
      stat := { s.stat with system := s.stat.system + 1 } }
  | .timeout =>
    (dealWithTimedoutReads cfg
      (s.onRequest r fun q => { q with tries := maxDnsTries }) now false).1

/-- `DNS_HAS_FLAG` -/
def hasFlag (v flag : UInt16) : Bool := v &&& flag = flag

/-- `DNS_HAS_ERR` -/
def hasErr (v err : UInt16) : Bool := v &&& 0x0007 = err

/-- Case-insensitive comparison of bytes, `iequals` -/
def iequals (a b : Bytes) : Bool :=
  let lower (c : UInt8) : UInt8 := if 0x41 ≤ c && c ≤ 0x5a then c + 0x20 else c
  a.map lower = b.map lower

def wireType (t : UInt16) : UInt16 := if t = recordAny then recordA else t

/-- The first checks of `handle_read`: `RESPONSE`, `ZERO` and the errors `FORMAT`,
`NOT_IMPLEMENTED` and `REFUSED`. The flag of a standard query is zero. -/
def usable (p : Packet) : Bool :=
  !p.queries.isEmpty && hasFlag p.flags 0x8000 && p.flags &&& 0x0070 = 0 &&
    !hasErr p.flags 0x0001 && !hasErr p.flags 0x0004 && !hasErr p.flags 0x0005

/-- What a packet says about the request it matches -/
inductive Verdict
  /-- No such name, or no answers: the system resolver may do better -/
  | nxdomain (system : Bool)
  | servfail
  | answered
  /-- Cut off, or an alias -/
  | deferred
  | unable
  deriving DecidableEq

/-- The names that the system resolver may do better with. The comparison of characters is
signed. -/
def systemMayDoBetter (t : Target) : Bool :=
  t.recordType ≠ recordPtr &&
    (t.name.any (fun c => c < 0x30 || c ≥ 0x80) || !t.name.contains dot)

/-- The loop over the answers: the name that is looked for, and whether one was taken -/
def followAnswers (t : Target) (q : Query) (answers : List Answer) : Bytes × Bool :=
  answers.foldl (fun (qname, successful) a =>
    if a.recordClass = classIn && (iequals a.name qname || iequals a.name q.name) then
      if wireType t.recordType = a.recordType then (qname, true)
      else if a.recordType = recordCname then
        match a.record with
        | .cname value => (value, successful)
        | _ => (qname, successful)
      else (qname, successful)
    else (qname, successful)) (t.name, false)

/-- The decisions of `handle_read` about a packet with this query and this target -/
def judge (p : Packet) (q : Query) (t : Target) : Verdict :=
  if hasErr p.flags 0x0003 || p.answers.isEmpty then .nxdomain (systemMayDoBetter t)
  else if hasErr p.flags 0x0002 then .servfail
  else
    let (qname, successful) := followAnswers t q p.answers
    if successful then .answered
    else if hasFlag p.flags 0x0200 || !iequals q.name qname then .deferred
    else .unable

/-- The request that a packet from a server is about, and what it says about it -/
def matchPacket (s : Resolver n m) (k : Fin n) (p : Packet) : Option (Fin m × Verdict) :=
  match p.queries with
  | [] => none
  | q :: _ =>
    if !usable p then none
    else
      match (s.servers k).records p.id with
      | none => none
      | some r =>
        let t := cfg.target r
        if (s.reqs r).status = .done then none
        else if q.recordClass ≠ classIn || q.recordType ≠ wireType t.recordType then none
        else if !iequals q.name t.name then none
        else some (r, judge p q t)

/-- What `close_dns_servers` does with one server -/
def closeServer (s : Resolver n m) (k : Fin n) : Resolver n m :=
  if (s.servers k).status = .disconnected then s
  else
    let left := (s.servers k).toProcess ++ (s.servers k).inProcess
    (left.foldl (fun s r => s.markAsDone r false) s).onServer k fun sv => { sv with
      status := .disconnected
      toProcess := []
      inProcess := []
      records := fun _ => none }

def closeDnsServers (s : Resolver n m) : Resolver n m :=
  { (List.finRange n).foldl closeServer s with quit := true }

/-- The end of `handle_read` -/
def afterAnswer (s : Resolver n m) : Resolver n m :=
  let s := doPossibleWrites cfg s
  if s.totalReqs = 0 then s.closeDnsServers else s

/-- What `handle_read` does once the request is found -/
def actOn (s : Resolver n m) (k : Fin n) (now : Timeval) (r : Fin m) :
    Verdict → Resolver n m
  | .nxdomain true => processRequest cfg .systemResolve s r k now
  | .nxdomain false =>
    (processRequest cfg .finished s r k now).onStat fun st => { st with nx := st.nx + 1 }
  | .servfail =>
    (processRequest cfg .timeout s r k now).onStat fun st => { st with sf := st.sf + 1 }
  | .answered =>
    afterAnswer cfg (processRequest cfg .finished
      (s.onStat fun st => { st with ok := st.ok + 1 }) r k now)
  | .deferred => afterAnswer cfg (processRequest cfg .systemResolve s r k now)
  | .unable => afterAnswer cfg s

/-- `handle_read` of a datagram, with the packet if one could be parsed -/
def handleRead (s : Resolver n m) (k : Fin n) (now : Timeval) (packet : Option Packet) :
    Resolver n m :=
  match packet.bind (matchPacket cfg s k) with
  | none => s
  | some (r, verdict) => actOn cfg s k now r verdict

/-- `handle_read` of an event that is no success -/
def handleReadFailed (s : Resolver n m) (k : Fin n) : Resolver n m :=
  { s.onServer k (fun sv => { sv with status := .disconnected, inProcess := [], toProcess := [] })
    with newReqs := s.newReqs ++ (s.servers k).inProcess ++ (s.servers k).toProcess }

def handleConnect (s : Resolver n m) (k : Fin n) (success : Bool) : Resolver n m :=
  s.onServer k fun sv => { sv with status := if success then .connected else .disconnected }

end Resolver

/-! ## Runs -/

/-- The events that the handlers answer, and a round of the main loop -/
inductive ResolverEvent (n m : Nat)
  | connect (k : Fin n) (success : Bool)
  | written (k : Fin n) (r : Fin m) (now : Timeval) (success : Bool)
  | read (k : Fin n) (now : Timeval) (packet : Option Packet)
  | readFailed (k : Fin n)
  | round (now : Timeval) (adjustTiming : Bool)

namespace Resolver

variable {n m : Nat} (cfg : Config m)

/-- `resolve_nsock` before its first call of `nsock_loop`: all requests are new, and the servers
are being connected to. -/
def start (n m : Nat) : Resolver n m where
  servers _ := ⟨.connecting, 0, capacityMin, (capacityMax + capacityMin) / 2, [], [],
    fun _ => none, ⟨0, 0⟩⟩
  reqs _ := ⟨⟨0, 0⟩, 0, 0, none, .ready⟩
  newReqs := List.finRange m
  deferredReqs := []
  finished := []
  totalReqs := m
  stat := ⟨m, 0, 0, 0, 0, 0, []⟩
  quit := false

/-- What an event does. The events of a server that is not connected are those of its
connection. -/
def step (s : Resolver n m) : ResolverEvent n m → Option (Resolver n m)
  | .connect k success =>
    if (s.servers k).status = .connecting then some (s.handleConnect k success) else none
  | .written k r now success =>
    if (s.servers k).status = .connected then some (handleWrite cfg s k r now success)
    else none
  | .read k now packet =>
    if (s.servers k).status = .connected then some (handleRead cfg s k now packet) else none
  | .readFailed k =>
    if (s.servers k).status = .connected then some (s.handleReadFailed k) else none
  | .round now adjustTiming =>
    some (doPossibleWrites cfg (dealWithTimedoutReads cfg s now adjustTiming).1)

end Resolver

end Nmap.Dns
