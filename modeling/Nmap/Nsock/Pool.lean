import Nmap.Base.Grouped
import Mathlib.Algebra.Group.Nat.Defs

/-!
# The event pool of nsock (`nsock_event.c`, `nsock_core.c`, `nsock_iod.c`)

The structs of a pool and what the library does to them between two calls of a handler. A
`struct nevent` and a `struct niod` are numbers; the doubly linked lists are lists of the nodes
that are in them. Every event is in its list by `nodeq_io` or by `nodeq_pcap`.
-/

namespace Nmap.Nsock

open Function

/-! ## Data -/

/-- `enum nse_type` -/
inductive NseType
  | connect
  | connectSsl
  | read
  | write
  | timer
  | pcapRead
  deriving DecidableEq

def NseType.code : NseType → Nat
  | .connect => 0
  | .connectSsl => 1
  | .read => 2
  | .write => 3
  | .timer => 4
  | .pcapRead => 5

/-- The type with a number; six and seven are no types -/
def NseType.ofCode : Nat → Option NseType
  | 0 => some .connect
  | 1 => some .connectSsl
  | 2 => some .read
  | 3 => some .write
  | 4 => some .timer
  | 5 => some .pcapRead
  | _ => none

/-- `enum nse_status` -/
inductive NseStatus
  | none
  | success
  | error
  | timeout
  | cancelled
  | kill
  | eof
  | proxyError
  deriving DecidableEq

/-- The lists of a pool, in the order in which its loops go through them -/
inductive EvList
  | connectEvents
  | readEvents
  | writeEvents
  | pcapReadEvents
  deriving DecidableEq

def EvList.next? : EvList → Option EvList
  | .connectEvents => some .readEvents
  | .readEvents => some .writeEvents
  | .writeEvents => some .pcapReadEvents
  | .pcapReadEvents => none

/-- A `gh_lnode_t` of a `struct nevent` -/
inductive Lnode
  | nodeqIo (e : Nat)
  | nodeqPcap (e : Nat)
  deriving DecidableEq

def Lnode.event : Lnode → Nat
  | .nodeqIo e => e
  | .nodeqPcap e => e

/-- `lnode_nevent`. From a `nodeq_pcap` it computes an address inside of the struct, at which
no `struct nevent` begins; its `iod` is then read out of the heap index, which is no address. -/
def lnodeNevent : Lnode → Option Nat
  | .nodeqIo e => some e
  | .nodeqPcap _ => none

def lnodeNevent2 : Lnode → Option Nat
  | .nodeqIo _ => none
  | .nodeqPcap e => some e

/-- The node by which an event is in a list -/
def EvList.node (e : Nat) : EvList → Lnode
  | .pcapReadEvents => .nodeqPcap e
  | _ => .nodeqIo e

def EvList.nevent : EvList → Lnode → Option Nat
  | .pcapReadEvents => lnodeNevent2
  | _ => lnodeNevent

/-- How the library was built: `PCAP_BSD_SELECT_HACK` and `sizeof(nsock_event_id) * 8` -/
structure Config where
  bsdSelectHack : Bool
  idBits : Nat

/-- What was asked for when an event was started -/
structure Request where
  id : Nat
  type : NseType
  iod : Option Nat
  handler : Nat
  userdata : Nat
  deriving DecidableEq

/-- `struct nevent`. `timeout` is none for `tv_sec == 0`; `use` numbers the requests that the
struct has served, and is no field of the source. -/
structure Nevent where
  id : Nat
  type : NseType
  status : NseStatus
  iobuf : List UInt8
  timeout : Option Nat
  iod : Option Nat
  handler : Nat
  userdata : Nat
  eventDone : Bool
  eof : Bool
  use : Nat
  deriving DecidableEq

def Nevent.request (nse : Nevent) : Request :=
  ⟨nse.id, nse.type, nse.iod, nse.handler, nse.userdata⟩

def Nevent.unused : Nevent := ⟨0, .connect, .none, [], none, none, 0, 0, true, false, 0⟩

/-- What `event_delete` leaves of a struct -/
def Nevent.deleted (nse : Nevent) : Nevent :=
  { nse with
    iobuf := if nse.type = .read ∨ nse.type = .write ∨ nse.type = .pcapRead then [] else nse.iobuf
    eventDone := true }

/-- The status of a `handle_*_result` with `NSE_STATUS_TIMEOUT`, for a timer with
`NSE_STATUS_SUCCESS` -/
def Nevent.timeoutStatus (nse : Nevent) : NseStatus :=
  match nse.type with
  | .read => if nse.iobuf = [] then .timeout else .success
  | .timer => .success
  | _ => .timeout

/-- What a call that starts an event asks for: `timeout` is none for -1, `iobuf` is what it has
to write, and `done` is its status where it failed or ended at once. -/
structure Start where
  type : NseType
  iod : Option Nat
  timeout : Option Nat
  handler : Nat
  userdata : Nat
  iobuf : List UInt8
  done : Option NseStatus

/-- What `handle_*_result` with `NSE_STATUS_SUCCESS` made of the answers of the system: the
bytes read, the status, and whether the event is done. -/
structure IoResult where
  data : List UInt8
  status : NseStatus
  done : Bool
  eof : Bool

/-- `enum iod_state`, the states that are set -/
inductive IodState
  | deleted
  | initial
  | unknown
  deriving DecidableEq

/-- `struct niod`: `first` holds `first_connect` and its kin, `pcapDesc` the descriptor of the
`mspcap`, if there is one, and `ioeof` the flag `IOD_EOF`. -/
structure Niod where
  state : IodState
  eventsPending : Int
  first : EvList → Option Lnode
  pcapDesc : Option Int
  ioeof : Bool

/-- A fresh `struct niod` -/
def Niod.new (state : IodState) : Niod := ⟨state, 0, fun _ => none, none, false⟩

/-- `struct npool`, with the structs that were allocated for it; `freeEvents` are the structs
whose `nodeq_io` is on `free_events`. -/
structure Npool where
  lists : EvList → List Lnode
  expirables : List Nat
  activeIods : List Nat
  freeIods : List Nat
  freeEvents : List Nat
  eventsPending : Int
  nextEventSerial : Nat
  tod : Nat
  events : Nat → Nevent
  eventCount : Nat
  iods : Nat → Niod
  iodCount : Nat

/-- `nsock_pool_new` -/
def Npool.new (tod : Nat) : Npool where
  lists _ := []
  expirables := []
  activeIods := []
  freeIods := []
  freeEvents := []
  eventsPending := 0
  nextEventSerial := 1
  tod := tod
  events _ := Nevent.unused
  eventCount := 0
  iods _ := Niod.new .deleted
  iodCount := 0

namespace Npool

def onEvent (p : Npool) (e : Nat) (f : Nevent → Nevent) : Npool :=
  { p with events := update p.events e (f (p.events e)) }

def onIod (p : Npool) (i : Nat) (f : Niod → Niod) : Npool :=
  { p with iods := update p.iods i (f (p.iods i)) }

def onList (p : Npool) (L : EvList) (f : List Lnode → List Lnode) : Npool :=
  { p with lists := update p.lists L (f (p.lists L)) }

/-- Change the iod of an event, if it has one -/
def onIodOf (p : Npool) (e : Nat) (f : Niod → Niod) : Npool :=
  match (p.events e).iod with
  | some i => p.onIod i f
  | none => p

/-! ## Nodes -/

/-- The nodes of the list that a node is in -/
def listOf (p : Npool) : Lnode → List Lnode
  | .nodeqPcap _ => p.lists .pcapReadEvents
  | .nodeqIo e =>
    if .nodeqIo e ∈ p.lists .connectEvents then p.lists .connectEvents
    else if .nodeqIo e ∈ p.lists .readEvents then p.lists .readEvents
    else if .nodeqIo e ∈ p.lists .writeEvents then p.lists .writeEvents
    else p.freeEvents.map .nodeqIo

/-- `gh_lnode_next` -/
def lnodeNext (p : Npool) (n : Lnode) : Option Lnode := nextOf n (p.listOf n)

/-- `gh_lnode_prev` -/
def lnodePrev (p : Npool) (n : Lnode) : Option Lnode := prevOf n (p.listOf n)

def iodAt (p : Npool) (L : EvList) (n : Lnode) : Option Nat :=
  (L.nevent n).bind fun e => (p.events e).iod

/-! ## The lists of an event -/

/-- The lists that an event belongs to, or none where a pcap event's iod has no `mspcap` left
to ask -/
def queues (cfg : Config) (p : Npool) (e : Nat) : Option (List EvList) :=
  match (p.events e).type with
  | .connect | .connectSsl => some [.connectEvents]
  | .read => some [.readEvents]
  | .write => some [.writeEvents]
  | .timer => some []
  | .pcapRead =>
    if cfg.bsdSelectHack then some [.readEvents, .pcapReadEvents]
    else ((p.events e).iod.bind fun i => (p.iods i).pcapDesc).map fun desc =>
      if 0 ≤ desc then [.readEvents] else [.pcapReadEvents]

/-- One case of `iod_add_event`: before the first event of the iod, or at the end -/
def addFirst (p : Npool) (e i : Nat) (L : EvList) : Npool :=
  let p' := match (p.iods i).first L with
    | some first => p.onList L (insertBefore first (L.node e))
    | none => p.onList L fun l => l ++ [L.node e]
  p'.onIod i fun iod => { iod with first := update iod.first L (some (L.node e)) }

def iodAddEvent (cfg : Config) (p : Npool) (e i : Nat) : Option Npool :=
  (p.queues cfg e).map fun qs => qs.foldl (fun p L => p.addFirst e i L) p

def firstEvNext (p : Npool) (e i : Nat) (L : EvList) : Npool :=
  match (p.iods i).first L with
  | none => p
  | some first =>
    if first = .nodeqIo e ∨ first = .nodeqPcap e then
      p.onIod i fun iod => { iod with
        first := update iod.first L <|
          (p.lnodeNext first).filter fun next => p.iodAt L next = some i }
    else p

/-- The lists whose first event `update_first_events` looks at -/
def firstLists : NseType → List EvList
  | .connect | .connectSsl => [.connectEvents]
  | .read => [.readEvents]
  | .write => [.writeEvents]
  | .timer => []
  | .pcapRead => [.readEvents, .pcapReadEvents]

def updateFirstEvents (p : Npool) (e : Nat) : Npool :=
  match (p.events e).iod with
  | some i => (firstLists (p.events e).type).foldl (fun p L => p.firstEvNext e i L) p
  | none => p

/-- The `gh_list_remove` of `nevent_unref` -/
def unlink (p : Npool) (e : Nat) (L : EvList) : Npool := p.onList L (·.erase (L.node e))

/-- `nevent_unref`; none where it goes through the NULL `pcap` of the iod -/
def neventUnref (cfg : Config) (p : Npool) (e : Nat) : Option Npool :=
  let p := p.updateFirstEvents e
  (p.queues cfg e).map fun qs =>
    let p := qs.foldl (fun p L => p.unlink e L) p
    let p := if (p.events e).timeout.isSome then
        { p.onEvent e (fun nse => { nse with timeout := none }) with
          expirables := p.expirables.erase e }
      else p
    { p with freeEvents := p.freeEvents ++ [e] }

/-! ## Events begin and end -/

/-- `get_new_event_id`: the id, and the serial that comes next -/
def getNewEventId (cfg : Config) (p : Npool) (type : NseType) : Nat × Nat :=
  let serial := p.nextEventSerial
  (serial <<< 3 ||| type.code, if serial = 2 ^ (cfg.idBits - 3) - 1 then 1 else serial + 1)

def getEventIdType (id : Nat) : Option NseType := NseType.ofCode (id &&& (1 <<< 3 - 1))

/-- The struct that `event_new` takes: the first on the free list, or a new one -/
def nextStruct (p : Npool) : Nat := p.freeEvents.head?.getD p.eventCount

/-- The event of a call, as `event_new` and the caller fill it in -/
def newNevent (cfg : Config) (p : Npool) (a : Start) (use : Nat) : Nevent where
  id := (p.getNewEventId cfg a.type).1
  type := a.type
  status := a.done.getD .none
  iobuf := a.iobuf
  timeout := a.timeout.map fun ms => p.tod + ms
  iod := a.iod
  handler := a.handler
  userdata := a.userdata
  eventDone := a.done.isSome
  eof := false
  use := use

/-- Take a struct off the free list, or allocate one, for an event of an iod -/
def takeStruct (p : Npool) (nse : Nevent) : Npool :=
  let e := p.nextStruct
  let q := match p.freeEvents with
    | [] => { p with eventCount := p.eventCount + 1 }
    | _ :: rest => { p with freeEvents := rest }
  ({ q with events := update p.events e nse }).onIodOf e fun iod =>
    { iod with eventsPending := iod.eventsPending + 1 }

/-- `event_new`, and what its caller sets in the event before it is added -/
def eventNew (cfg : Config) (p : Npool) (a : Start) (use : Nat) : Npool :=
  { p with nextEventSerial := (p.getNewEventId cfg a.type).2 }.takeStruct (p.newNevent cfg a use)

/-- The counters of `event_dispatch_and_delete` -/
def countDispatched (p : Npool) (e : Nat) : Npool :=
  ({ p with eventsPending := p.eventsPending - 1 }).onIodOf e fun iod =>
    { iod with eventsPending := iod.eventsPending - 1 }

/-- An event for which `event_done` is set from the start -/
def markDone (p : Npool) (e : Nat) (status : NseStatus) (eof : Bool) : Npool :=
  p.onEvent e fun nse => { nse with status := status, eventDone := true, eof := nse.eof || eof }

/-- Any `handle_*_result` with `NSE_STATUS_CANCELLED` -/
def handleCancelled (p : Npool) (e : Nat) : Npool := p.markDone e .cancelled false

/-! ## Readiness and timeouts -/

def eventTimedout (p : Npool) (e : Nat) : Bool :=
  !(p.events e).eventDone && (p.events e).timeout.any (· ≤ p.tod)

/-- A `handle_*_result` with `NSE_STATUS_SUCCESS` -/
def handleIo (p : Npool) (e : Nat) (r : IoResult) : Npool :=
  let p := p.onEvent e fun nse => { nse with
    iobuf := nse.iobuf ++ r.data, status := r.status, eventDone := r.done, eof := nse.eof || r.eof }
  if r.eof then p.onIodOf e fun iod => { iod with ioeof := true } else p

/-- What the system's answer does in `process_event`; timers wait for none. -/
def handleAnswer (p : Npool) (e : Nat) : Option IoResult → Npool
  | some r => if (p.events e).type = .timer then p else p.handleIo e r
  | none => p

/-- The first part of `process_event`: the event's own work, which may end it -/
def advance (p : Npool) (e : Nat) (io : Option IoResult) : Npool :=
  if (p.events e).eventDone then p
  else
    let p := p.handleAnswer e io
    if p.eventTimedout e then p.markDone e (p.events e).timeoutStatus false else p

/-! ## Iods -/

/-- `nsock_iod_new` and its kin -/
def iodNew (p : Npool) (state : IodState) : Npool :=
  match p.freeIods with
  | [] => { p with
      iods := update p.iods p.iodCount (Niod.new state)
      iodCount := p.iodCount + 1, activeIods := p.activeIods ++ [p.iodCount] }
  | i :: rest => { p with
      iods := update p.iods i (Niod.new state)
      freeIods := rest, activeIods := p.activeIods ++ [i] }

/-- What `nsock_pcap_open` leaves in the iod -/
def pcapOpen (p : Npool) (i : Nat) (desc : Int) : Npool :=
  p.onIod i fun iod => { iod with pcapDesc := some desc }

/-- What `nsock_iod_delete` leaves of an iod -/
def iodDeleted (p : Npool) (i : Nat) : Npool :=
  p.onIod i fun iod => { iod with state := .deleted, pcapDesc := none }

/-- An engine takes a deleted iod off the active ones. -/
def reapIod (p : Npool) (i : Nat) : Npool :=
  { p with activeIods := p.activeIods.erase i, freeIods := i :: p.freeIods }

/-! ## Looking an event up -/

def findIn (p : Npool) (id : Nat) (L : EvList) : Option Nat :=
  ((p.lists L).filterMap L.nevent).find? fun e => (p.events e).id = id

/-- The event that `nsock_event_cancel` finds -/
def findEvent (p : Npool) (id : Nat) (type : NseType) : Option Nat :=
  match type with
  | .connect | .connectSsl => p.findIn id .connectEvents
  | .read => p.findIn id .readEvents
  | .write => p.findIn id .writeEvents
  | .timer => p.expirables.find? fun e => (p.events e).id = id
  | .pcapRead => (p.findIn id .readEvents).or (p.findIn id .pcapReadEvents)

end Npool

end Nmap.Nsock
