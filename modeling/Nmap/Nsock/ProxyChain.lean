import Mathlib.Data.List.Infix
import Nmap.Base.TSys
import Nmap.Base.Utf8
import Nmap.Nsock.Pool

/-!
# Connecting through proxies (`nsock_proxy.c`, `proxy_http.c`, `proxy_socks4.c`)

An iod connects to the first proxy of its chain and asks each proxy in turn to connect to the next
one, the last of them to the target. The write of a request and the read of its reply are in flight
together, and they and the connect have one handler, `nsock_proxy_ev_dispatch`.
-/

namespace Nmap.Nsock.Proxy

open Nmap.Base

/-! ## Data -/

/-- `enum nsock_proxy_type` -/
inductive ProxyType
  | http | socks4
  deriving DecidableEq

/-- `enum nsock_proxy_state` -/
inductive ProxyState
  | initial
  | httpTcpConnected
  | httpTunnelEstablished
  | socks4TcpConnected
  | socks4TunnelEstablished
  deriving DecidableEq

/-- `AF_INET` and `AF_INET6` -/
inductive AddressFamily
  | inet | inet6
  deriving DecidableEq

/-- `struct sockaddr_storage` -/
structure SockAddr where
  family : AddressFamily
  address : Bytes
  deriving DecidableEq

structure ProxyNode where
  type : ProxyType
  ss : SockAddr
  port : UInt16
  deriving DecidableEq

/-- `struct proxy_chain_context`; the nodes of `px_chain` are those before `px_current`, itself and
those after it. -/
structure ChainContext where
  before : List ProxyNode
  current : ProxyNode
  after : List ProxyNode
  state : ProxyState
  targetEvType : NseType
  targetSs : SockAddr
  targetPort : UInt16

/-- `px_chain` -/
def ChainContext.chain (ctx : ChainContext) : List ProxyNode :=
  ctx.before ++ ctx.current :: ctx.after

/-- What a proxy is asked to connect to, in the words of its protocol -/
structure Request where
  type : ProxyType
  ss : SockAddr
  port : UInt16
  deriving DecidableEq

/-- What a reply is read with: `nsock_readlines` or `nsock_readbytes` -/
inductive ReadUntil
  | lines (nlines : Nat)
  | bytes (nbytes : Nat)
  deriving DecidableEq

/-- An event of the handshakes that is in flight -/
inductive PxEvent
  | connect
  | write (request : Request)
  | read (wanted : ReadUntil)
  deriving DecidableEq

def PxEvent.type : PxEvent → NseType
  | .connect => .connect
  | .write _ => .write
  | .read _ => .read

/-- The fields of a `struct nevent` that the handlers read -/
structure Nevent where
  type : NseType
  status : NseStatus
  readbuf : Bytes

/-- What is observed of a connection attempt: a proxy accepts its request, or the user's
`target_handler` is called. -/
inductive Obs
  | accepts (node : ProxyNode)
  | calls (type : NseType) (status : NseStatus)
  deriving DecidableEq

/-- A connection attempt of an iod -/
structure Attempt where
  ctx : ChainContext
  inFlight : List PxEvent
  log : List Obs

/-- What ends the program: the assertion of `socks4_data_init`, or `fatal` -/
inductive Failure
  | assertion
  | fatal
  deriving DecidableEq

/-! ## The handlers -/

/-- `proxy_ctx_node_next` -/
def ChainContext.nodeNext (ctx : ChainContext) : Option ProxyNode := ctx.after.head?

def forwardEvent (s : Attempt) (nse : Nevent) : Attempt :=
  let status := if nse.status ≠ .success then .proxyError else nse.status
  { s with log := s.log ++ [.calls s.ctx.targetEvType status] }

/-- The address and the port that the current proxy is asked for -/
def ChainContext.destination (ctx : ChainContext) : SockAddr × UInt16 :=
  match ctx.nodeNext with
  | some next => (next.ss, next.port)
  | none => (ctx.targetSs, ctx.targetPort)

/-- A request and the read of its reply are put in flight. Where the iod has seen the end of the
file, the read is delivered before anything else. -/
def Attempt.ask (s : Attempt) (state : ProxyState) (type : ProxyType) (wanted : ReadUntil) :
    Attempt :=
  { s with
    ctx := { s.ctx with state := state }
    inFlight := s.inFlight ++
      [.write ⟨type, s.ctx.destination.1, s.ctx.destination.2⟩, .read wanted] }

/-- `strstr(res, needle)`: the text of `res` ends at its first zero. -/
def strstr (res needle : Bytes) : Bool := decide (needle <:+: res.takeWhile (· ≠ 0))

def ok200 : Bytes := [0x32, 0x30, 0x30, 0x20, 0x4f, 0x4b]

/-- The `ops` of a `struct proxy_spec`, and the states that its handler knows -/
structure ProxySpec where
  tcpConnected : ProxyState
  tunnelEstablished : ProxyState
  /-- the check of the reply -/
  accepts : Bytes → Bool
  handleStateInitial : Attempt → Except Failure Attempt

def proxySpecHttp : ProxySpec where
  tcpConnected := .httpTcpConnected
  tunnelEstablished := .httpTunnelEstablished
  accepts res := res.length ≥ 15 && strstr res ok200
  handleStateInitial s := .ok (s.ask .httpTcpConnected .http (.lines 1))

/-- `ProxySpecSocks4`; `socks4_data_init` asserts that the address is one of IPv4. -/
def proxySpecSocks4 : ProxySpec where
  tcpConnected := .socks4TcpConnected
  tunnelEstablished := .socks4TunnelEstablished
  accepts res := res.length = 8 && res[1]? = some 90
  handleStateInitial s :=
    if s.ctx.destination.1.family = .inet then .ok (s.ask .socks4TcpConnected .socks4 (.bytes 8))
    else .error .assertion

def ProxyNode.spec (node : ProxyNode) : ProxySpec :=
  match node.type with
  | .http => proxySpecHttp
  | .socks4 => proxySpecSocks4

/-- `handle_state_tcp_connected`, or `none` for `-EINVAL` -/
def handleStateTcpConnected (spec : ProxySpec) (s : Attempt) (nse : Nevent) :
    Option (Except Failure Attempt) :=
  if spec.accepts nse.readbuf then
    let s := { s with log := s.log ++ [Obs.accepts s.ctx.current] }
    match s.ctx.after with
    | [] => some (.ok (forwardEvent { s with ctx.state := spec.tunnelEstablished } nse))
    | next :: after =>
      -- `nsock_proxy_ev_dispatch` runs the handler of the next proxy in its first state.
      some (next.spec.handleStateInitial
        { s with
          ctx.before := s.ctx.before ++ [s.ctx.current]
          ctx.current := next
          ctx.after := after
          ctx.state := .initial })
  else none

/-- `proxy_http_handler` and `proxy_socks4_handler` -/
def handler (spec : ProxySpec) (s : Attempt) (nse : Nevent) : Except Failure Attempt :=
  if s.ctx.state = .initial then spec.handleStateInitial s
  else if s.ctx.state = spec.tcpConnected then
    if nse.type = .read then
      match handleStateTcpConnected spec s nse with
      | some result => result
      | none => .ok (forwardEvent s { nse with status := .proxyError })
    else .ok s
  else if s.ctx.state = spec.tunnelEstablished then .ok (forwardEvent s nse)
  else .error .fatal

/-- `nsock_proxy_ev_dispatch` -/
def proxyEvDispatch (s : Attempt) (nse : Nevent) : Except Failure Attempt :=
  if nse.status = .success then handler s.ctx.current.spec s nse else .ok (forwardEvent s nse)

/-! ## Runs -/

/-- What happens to an attempt: an event that is in flight is delivered, or the user deletes the
iod and what is in flight with it. -/
inductive Delivery
  | event (e : PxEvent) (status : NseStatus) (readbuf : Bytes)
  | dropped

/-- The attempt when `nsock_connect_internal` has redirected it through the chain -/
def Attempt.start (first : ProxyNode) (rest : List ProxyNode) (type : NseType) (ss : SockAddr)
    (port : UInt16) : Attempt where
  ctx := ⟨[], first, rest, .initial, type, ss, port⟩
  inFlight := [.connect]
  log := []

/-- Events are delivered in any order. A run ends where the program does. -/
def attempts : Machine Attempt Delivery where
  init s := ∃ first rest type ss port, s = .start first rest type ss port
  step s d :=
    match d with
    | .event e status readbuf =>
      if e ∈ s.inFlight then
        (proxyEvDispatch { s with inFlight := s.inFlight.erase e }
          ⟨e.type, status, readbuf⟩).toOption
      else none
    | .dropped => some { s with inFlight := [] }

end Nmap.Nsock.Proxy
