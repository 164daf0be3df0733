import Nmap.Base.TSys
import Nmap.Nsock.Pool

/-!
# Runs of nsock (`nsock_core.c`, `nsock_event.c`, `nsock_iod.c`)

The library calls the handlers of a program and the handlers call the library. A state holds
the pool and the calls that are under way, the innermost first; a step is a call that the
program or a handler makes, the return of a handler, a choice of the engine, or a piece of the
library's own work between two points at which a handler could run. What the handlers do, what
the system answers and when is left to the run.
-/

namespace Nmap.Nsock

/-! ## States -/

/-- `process_iod_events` before it looks at `current` -/
structure IodPass where
  nsi : Nat
  list : EvList
  current : Option Lnode
  last : Option Lnode

/-- `nsock_iod_delete` before it looks at `current`: `starts` is its `evlist_ar`. `since` is
the number of the first event started after the call, which is no variable of the source. -/
structure Deletion where
  nsi : Nat
  notify : Bool
  list : EvList
  current : Option Lnode
  starts : EvList → Option Lnode
  since : Nat

/-- A call under way. `seen` is the event as it was when its handler was called. -/
inductive Frame
  | loop
  | iodEvents (pass : IodPass)
  | iodEvent (pass : IodPass) (e : Nat)
  | expired (e : Nat)
  | added (e : Nat)
  | immediate (e : Nat)
  | handler (e : Nat) (seen : Nevent)
  | iodDelete (d : Deletion)

/-- What ends the program: the two fatal errors of `nsock_iod_delete`, the one of
`nsock_event_cancel`, a failed assertion, and a read through a NULL `pcap` -/
inductive Fault
  | couldNotFind (n : Int)
  | pendingError (n : Int)
  | bogusType
  | assertion
  | nullPcap
  deriving DecidableEq

/-- One dispatch of an event: the request served, whether the handler is called, and the struct
as it was then -/
structure Delivery where
  use : Nat
  notified : Bool
  seen : Nevent
  deriving DecidableEq

/-- A state of a run. `requests` are all the events started so far, `deliveries` the dispatches
and `ended` the requests for which `event_delete` has returned; they are no part of the
source's state. -/
structure Run where
  pool : Npool
  stack : List Frame
  fault : Option Fault
  requests : List Request
  deliveries : List Delivery
  ended : List Nat

/-- `pending_response` of `nsock_iod_delete` -/
inductive DelMode
  | notify
  | silent
  | error
  deriving DecidableEq

/-- What happens next. The calls of the program and of its handlers come first; `start` says
what `SSL_pending` finds after it. -/
inductive Input
  | iodNew (state : IodState)
  | pcapOpen (nsi : Nat) (desc : Int)
  | start (s : Start) (sslPending : Option (Option IoResult))
  | cancel (id : Nat) (notify : Bool)
  | iodDelete (nsi : Nat) (mode : DelMode)
  | nsockLoop
  | ret
  | tick (now : Nat)
  | processIod (nsi : Nat)
  | processExpired (e : Nat)
  | reap (nsi : Nat)
  | endLoop
  | resume (io : Option IoResult)

namespace Run

def new (tod : Nat) : Run := ⟨Npool.new tod, [], none, [], [], []⟩

/-- Code of the program runs: its own or one of its handlers. -/
def userRuns (s : Run) : Bool :=
  match s.stack with
  | [] => true
  | .handler _ _ :: _ => true
  | _ => false

def push (s : Run) (f : Frame) : Run := { s with stack := f :: s.stack }

def fail (s : Run) (f : Fault) : Run := { s with fault := some f }

/-! ## The library's work -/

def eventDelete (s : Run) (e : Nat) : Run :=
  { s with
    pool := s.pool.onEvent e Nevent.deleted
    ended := s.ended ++ [(s.pool.events e).use] }

/-- `event_dispatch_and_delete`, up to where the handler runs -/
def eventDispatchAndDelete (s : Run) (e : Nat) (notify : Bool) : Run :=
  let s : Run := { s with
    pool := s.pool.countDispatched e
    deliveries := s.deliveries ++ [⟨(s.pool.events e).use, notify, s.pool.events e⟩] }
  if notify then s.push (.handler e (s.pool.events e)) else s.eventDelete e

/-- `nevent_unref` of an event that is through -/
def unref (cfg : Config) (s : Run) (e : Nat) : Run :=
  match s.pool.neventUnref cfg e with
  | some p => { s with pool := p }
  | none => s.fail .nullPcap

def neventDelete (cfg : Config) (s : Run) (e : Nat) (notify : Bool) : Run :=
  if (s.pool.events e).eventDone then s
  else
    match (s.pool.handleCancelled e).neventUnref cfg e with
    | some p => { s with pool := p }.eventDispatchAndDelete e notify
    | none => s.fail .nullPcap

def processEvent (s : Run) (e : Nat) (io : Option IoResult) : Run :=
  let s : Run := { s with pool := s.pool.advance e io }
  if (s.pool.events e).eventDone then s.eventDispatchAndDelete e true else s

/-- What the callers of `process_event` do when it has returned -/
def afterEvent (cfg : Config) (s : Run) (e : Nat) : Run :=
  if (s.pool.events e).eventDone then s.unref cfg e else s

def nsockPoolAddEvent (cfg : Config) (s : Run) (e : Nat)
    (sslPending : Option (Option IoResult)) : Run :=
  let p := { s.pool with eventsPending := s.pool.eventsPending + 1 }
  let nse := p.events e
  let p := if nse.type = .read ∧ nse.iod.any (fun i => (p.iods i).ioeof) then
      p.markDone e .eof true
    else p
  if (p.events e).eventDone then
    ({ s with pool := p }.push (.immediate e)).eventDispatchAndDelete e true
  else
    let p := if nse.timeout.isSome then { p with expirables := e :: p.expirables } else p
    match nse.iod with
    | none => { s with pool := p }
    | some i =>
      match p.iodAddEvent cfg e i, sslPending with
      | none, _ => s.fail .assertion
      | some p, some io =>
        if nse.type = .read then ({ s with pool := p }.push (.added e)).processEvent e io
        else { s with pool := p }
      | some p, none => { s with pool := p }

/-- A call that starts an event: `event_new`, then `nsock_pool_add_event` -/
def startEvent (cfg : Config) (s : Run) (a : Start)
    (sslPending : Option (Option IoResult)) : Run :=
  let e := s.pool.nextStruct
  let p := s.pool.eventNew cfg a s.requests.length
  { s with pool := p, requests := s.requests ++ [(p.events e).request] }.nsockPoolAddEvent cfg e
    sslPending

def nsockEventCancel (cfg : Config) (s : Run) (id : Nat) (notify : Bool) : Run :=
  match Npool.getEventIdType id with
  | none => s.fail .bogusType
  | some type =>
    match s.pool.findEvent id type with
    | none => s
    | some e => s.neventDelete cfg e notify

/-- The end of `nsock_iod_delete` -/
def finishDelete (s : Run) (nsi : Nat) : Run :=
  if (s.pool.iods nsi).eventsPending ≠ 0 then
    s.fail (.couldNotFind (s.pool.iods nsi).eventsPending)
  else { s with pool := s.pool.iodDeleted nsi }

/-- `nsock_iod_delete` up to its first event -/
def nsockIodDelete (s : Run) (nsi : Nat) (mode : DelMode) : Run :=
  let iod := s.pool.iods nsi
  if iod.state = .deleted then s
  else if 0 < iod.eventsPending then
    if mode = .error then s.fail (.pendingError iod.eventsPending)
    else s.push <| .iodDelete {
      nsi := nsi, notify := mode = .notify, list := .connectEvents
      current := iod.first .connectEvents, starts := iod.first, since := s.requests.length }
  else s.finishDelete nsi

/-- `nsock_iod_delete` has come to the end of a list. -/
def nextList (s : Run) (d : Deletion) : Run :=
  match d.list.next? with
  | some L =>
    if 0 < (s.pool.iods d.nsi).eventsPending then
      s.push (.iodDelete { d with list := L, current := d.starts L })
    else s.finishDelete d.nsi
  | none => s.finishDelete d.nsi

/-- One round of the loops of `nsock_iod_delete`. It takes every node for a `nodeq_io`. -/
def walk (cfg : Config) (s : Run) (d : Deletion) : Run :=
  match d.current with
  | none => s.nextList d
  | some n =>
    match lnodeNevent n with
    | none => s.nextList d
    | some e =>
      if (s.pool.events e).iod = some d.nsi then
        (s.push (.iodDelete { d with current := s.pool.lnodeNext n })).neventDelete cfg e
          d.notify
      else s.nextList d

/-- `process_iod_events` begins a list. -/
def beginPass (s : Run) (nsi : Nat) (L : EvList) : Frame :=
  .iodEvents ⟨nsi, L, (s.pool.iods nsi).first L, (s.pool.lists L).getLast?⟩

/-- `process_iod_events` has come to the end of a list. -/
def nextPass (s : Run) (pass : IodPass) : Run :=
  match pass.list.next? with
  | some L => s.push (s.beginPass pass.nsi L)
  | none => s

/-- One round of the loops of `process_iod_events` -/
def passOn (s : Run) (pass : IodPass) (io : Option IoResult) : Run :=
  match pass.current with
  | none => s.nextPass pass
  | some n =>
    if s.pool.lnodePrev n = pass.last then s.nextPass pass
    else
      match pass.list.nevent n with
      | none => s.nextPass pass
      | some e =>
        if (s.pool.events e).iod = some pass.nsi then
          (s.push (.iodEvent pass e)).processEvent e io
        else s.nextPass pass

/-- The innermost call goes on, with no handler running. -/
def resume (cfg : Config) (s : Run) (io : Option IoResult) : Option Run :=
  match s.stack with
  | .iodEvents pass :: rest => some ({ s with stack := rest }.passOn pass io)
  | .iodEvent pass e :: rest =>
    let next := pass.current.bind s.pool.lnodeNext
    some (({ s with stack := rest }.afterEvent cfg e).push (.iodEvents { pass with current := next }))
  | .expired e :: rest => some ({ s with stack := rest }.afterEvent cfg e)
  | .added e :: rest => some ({ s with stack := rest }.afterEvent cfg e)
  | .immediate e :: rest =>
    some { s with stack := rest, pool := { s.pool with freeEvents := s.pool.freeEvents ++ [e] } }
  | .iodDelete d :: rest => some ({ s with stack := rest }.walk cfg d)
  | _ => none

/-! ## Calls of the program and choices of the engine -/

/-- The assertions of `event_new`, `nsock_pool_add_event` and their callers: an event that is no
timer has an iod in use, and a pcap event one with a pcap handle. -/
def Startable (s : Run) (a : Start) : Prop :=
  match a.iod with
  | none => a.type = .timer
  | some i => a.type ≠ .timer ∧ i ∈ s.pool.activeIods ∧ (s.pool.iods i).state ≠ .deleted ∧
      (a.type = .pcapRead → (s.pool.iods i).pcapDesc.isSome)

instance (s : Run) (a : Start) : Decidable (s.Startable a) := by
  unfold Startable
  split <;> infer_instance

/-- The root of the heap: no event in it expires earlier. -/
def Earliest (s : Run) (e : Nat) : Prop :=
  e ∈ s.pool.expirables ∧ ∀ other ∈ s.pool.expirables,
    (s.pool.events e).timeout.getD 0 ≤ (s.pool.events other).timeout.getD 0

instance (s : Run) (e : Nat) : Decidable (s.Earliest e) :=
  inferInstanceAs (Decidable (_ ∧ _))

/-- What a call of the program does; none where it breaks an assertion on its arguments -/
def call (cfg : Config) (s : Run) : Input → Option Run
  | .iodNew state => if state = .deleted then none else some { s with pool := s.pool.iodNew state }
  | .pcapOpen nsi desc =>
    if nsi ∈ s.pool.activeIods ∧ (s.pool.iods nsi).state ≠ .deleted ∧
        (s.pool.iods nsi).pcapDesc = none then
      some { s with pool := s.pool.pcapOpen nsi desc }
    else none
  | .start a sslPending => if s.Startable a then some (s.startEvent cfg a sslPending) else none
  | .cancel id notify => some (s.nsockEventCancel cfg id notify)
  | .iodDelete nsi mode => if nsi ∈ s.pool.activeIods then some (s.nsockIodDelete nsi mode) else none
  | .nsockLoop => if s.stack.isEmpty then some { s with stack := [.loop] } else none
  | .ret =>
    match s.stack with
    | .handler e _ :: rest => some ({ s with stack := rest }.eventDelete e)
    | _ => none
  | _ => none

/-- What the engine does between two events -/
def engine (s : Run) : Input → Option Run
  | .processIod nsi =>
    if nsi ∈ s.pool.activeIods then some (s.push (s.beginPass nsi .connectEvents)) else none
  | .processExpired e =>
    if s.Earliest e ∧ s.pool.eventTimedout e then
      some ((s.push (.expired e)).processEvent e none)
    else none
  | .reap nsi =>
    if nsi ∈ s.pool.activeIods ∧ (s.pool.iods nsi).state = .deleted then
      some { s with pool := s.pool.reapIod nsi }
    else none
  | .endLoop => some { s with stack := [] }
  | _ => none

def step (cfg : Config) (s : Run) (i : Input) : Option Run :=
  if s.fault.isSome then none
  else
    match i, s.stack with
    | .tick now, _ => some { s with pool := { s.pool with tod := now } }
    | .resume io, _ => s.resume cfg io
    | i, [.loop] => s.engine i
    | i, _ => if s.userRuns then s.call cfg i else none

/-- What a call of the program does, where it breaks no assertion -/
inductive Called (cfg : Config) (s : Run) : Input → Run → Prop
  | iodNew {state : IodState} : Called cfg s (.iodNew state) { s with pool := s.pool.iodNew state }
  | pcapOpen {nsi : Nat} {desc : Int} (active : nsi ∈ s.pool.activeIods)
      (inUse : (s.pool.iods nsi).state ≠ .deleted) (without : (s.pool.iods nsi).pcapDesc = none) :
      Called cfg s (.pcapOpen nsi desc) { s with pool := s.pool.pcapOpen nsi desc }
  | start {a : Start} {sslPending : Option (Option IoResult)} (startable : s.Startable a) :
      Called cfg s (.start a sslPending) (s.startEvent cfg a sslPending)
  | cancel {id : Nat} {notify : Bool} :
      Called cfg s (.cancel id notify) (s.nsockEventCancel cfg id notify)
  | iodDelete {nsi : Nat} {mode : DelMode} (active : nsi ∈ s.pool.activeIods) :
      Called cfg s (.iodDelete nsi mode) (s.nsockIodDelete nsi mode)
  | nsockLoop (empty : s.stack = []) : Called cfg s .nsockLoop { s with stack := [.loop] }
  | ret {e : Nat} {seen : Nevent} {rest : List Frame} (top : s.stack = .handler e seen :: rest) :
      Called cfg s .ret ({ s with stack := rest }.eventDelete e)

/-- What the engine does between two events -/
inductive Driven (s : Run) : Input → Run → Prop
  | processIod {nsi : Nat} (active : nsi ∈ s.pool.activeIods) :
      Driven s (.processIod nsi) (s.push (s.beginPass nsi .connectEvents))
  | processExpired {e : Nat} (earliest : s.Earliest e) :
      Driven s (.processExpired e) ((s.push (.expired e)).processEvent e none)
  | reap {nsi : Nat} (active : nsi ∈ s.pool.activeIods)
      (deleted : (s.pool.iods nsi).state = .deleted) :
      Driven s (.reap nsi) { s with pool := s.pool.reapIod nsi }
  | endLoop : Driven s .endLoop { s with stack := [] }

variable {cfg : Config} {s t : Run} {i : Input}

theorem called_of_call (step : s.call cfg i = some t) : s.Called cfg i t := by
  cases i <;> simp only [call, Option.ite_none_left_eq_some, Option.ite_none_right_eq_some,
    Option.some.injEq, List.isEmpty_iff, reduceCtorEq] at step
  case iodNew => exact step.2 ▸ .iodNew
  case pcapOpen => exact step.2 ▸ .pcapOpen step.1.1 step.1.2.1 step.1.2.2
  case start => exact step.2 ▸ .start step.1
  case cancel => exact step ▸ .cancel
  case iodDelete => exact step.2 ▸ .iodDelete step.1
  case nsockLoop => exact step.2 ▸ .nsockLoop step.1
  case ret =>
    split at step
    · next top => exact Option.some.inj step ▸ .ret top
    · cases step

theorem driven_of_engine (step : s.engine i = some t) : s.Driven i t := by
  cases i <;> simp only [engine, Option.ite_none_right_eq_some, Option.some.injEq,
    reduceCtorEq] at step
  case processIod => exact step.2 ▸ .processIod step.1
  case processExpired => exact step.2 ▸ .processExpired step.1.1
  case reap => exact step.2 ▸ .reap step.1.1 step.1.2
  case endLoop => exact step ▸ .endLoop

end Run

def machine (cfg : Config) : Machine Run Input where
  init s := ∃ tod, s = Run.new tod
  step := Run.step cfg

end Nmap.Nsock
