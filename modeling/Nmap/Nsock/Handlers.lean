import Nmap.Base.TSys
import Nmap.Nsock.Pool

/-!
# The handlers of one socket (`nsock_core.c`, `nsock_connect.c`, `nsock_read.c`)

What `handle_connect_result`, `handle_write_result` and `handle_read_result` do to the event and
to the iod of a socket: the counts of events that wait for the descriptor, and what the engine
watches it for. The answers of the system and of the SSL library are arguments.
-/

namespace Nmap.Nsock

/-! ## Data -/

/-- `nse->sslinfo.ssl_desire`: `SSL_ERROR_NONE`, `SSL_ERROR_WANT_READ`, `SSL_ERROR_WANT_WRITE`
or `SSL_ERROR_WANT_CONNECT` -/
inductive SslDesire
  | none
  | wantRead
  | wantWrite
  | wantConnect
  deriving DecidableEq

/-- A set of `EV_READ` and `EV_WRITE` -/
structure EvSet where
  read : Bool
  write : Bool
  deriving DecidableEq

/-- `EV_NONE` -/
def EvSet.none : EvSet := ⟨false, false⟩

def EvSet.evRead : EvSet := ⟨true, false⟩

def EvSet.evWrite : EvSet := ⟨false, true⟩

/-- `a | b` -/
def EvSet.or (a b : EvSet) : EvSet := ⟨a.read || b.read, a.write || b.write⟩

/-- `a & b` -/
def EvSet.and (a b : EvSet) : EvSet := ⟨a.read && b.read, a.write && b.write⟩

/-- `a ^ b` -/
def EvSet.xor (a b : EvSet) : EvSet := ⟨a.read ^^ b.read, a.write ^^ b.write⟩

/-- `a & ~b` -/
def EvSet.diff (a b : EvSet) : EvSet := ⟨a.read && !b.read, a.write && !b.write⟩

/-- What ends the program: an assertion of a `socket_count_*` function, one of `update_events`
or of the engine, and a fatal error -/
inductive Failure
  | socketCount
  | updateEvents
  | fatal
  deriving DecidableEq

/-- `assert` -/
def assertThat (p : Prop) [Decidable p] (f : Failure) : Except Failure Unit :=
  if p then .ok () else .error f

/-- How nsock was built: `SSL_OP_NO_SSLv2 != 0` -/
structure SslConfig where
  noSslv2 : Bool

/-- What the handlers use of a `struct niod` with a socket: `ssl` says whether there is an SSL
session and `optNoSslv2` whether it has `SSL_OP_NO_SSLv2`, `registered` is the flag
`IOD_REGISTERED` and `ioeof` the flag `IOD_EOF`. -/
structure SockIod where
  sd : Int
  udp : Bool
  ssl : Bool
  optNoSslv2 : Bool
  readsdCount : Int
  writesdCount : Int
  registered : Bool
  watchedEvents : EvSet
  ioeof : Bool
  deriving DecidableEq

def SockIod.new : SockIod := ⟨-1, false, false, false, 0, 0, false, .none, false⟩

/-- `enum nsock_read_types` -/
inductive ReadType
  | read
  | readbytes
  | readlines
  deriving DecidableEq

/-- What the handlers use of a `struct nevent` -/
structure SockEvent where
  type : NseType
  status : NseStatus
  eventDone : Bool
  eof : Bool
  iobuf : List UInt8
  writtenSoFar : Nat
  readType : ReadType
  num : Int
  sslDesire : SslDesire
  deriving DecidableEq

/-! ## `socket_count_*` and `update_events` -/

def socketCountReadInc (iod : SockIod) : Except Failure (SockIod × EvSet) := do
  assertThat (0 ≤ iod.readsdCount) .socketCount
  pure ({ iod with readsdCount := iod.readsdCount + 1 }, .evRead)

def socketCountReadDec (iod : SockIod) : Except Failure (SockIod × EvSet) := do
  assertThat (0 < iod.readsdCount) .socketCount
  pure ({ iod with readsdCount := iod.readsdCount - 1 },
    if iod.readsdCount - 1 = 0 then .evRead else .none)

def socketCountWriteInc (iod : SockIod) : Except Failure (SockIod × EvSet) := do
  assertThat (0 ≤ iod.writesdCount) .socketCount
  pure ({ iod with writesdCount := iod.writesdCount + 1 }, .evWrite)

def socketCountWriteDec (iod : SockIod) : Except Failure (SockIod × EvSet) := do
  assertThat (0 < iod.writesdCount) .socketCount
  pure ({ iod with writesdCount := iod.writesdCount - 1 },
    if iod.writesdCount - 1 = 0 then .evWrite else .none)

def socketCountDecSslDesire (iod : SockIod) (nse : SockEvent) :
    Except Failure (SockIod × EvSet) := do
  assertThat (iod.ssl = true) .socketCount
  assertThat (nse.sslDesire = .wantRead ∨ nse.sslDesire = .wantWrite) .socketCount
  if nse.sslDesire = .wantRead then socketCountReadDec iod else socketCountWriteDec iod

def shouldClearEvRead (iod : SockIod) (evSet : EvSet) : Bool :=
  evSet.read && decide (iod.readsdCount = 0)

def shouldClearEvWrite (iod : SockIod) (evSet : EvSet) : Bool :=
  evSet.write && decide (iod.writesdCount = 0)

/-- `nsock_engine_iod_register` -/
def iodRegister (iod : SockIod) (ev : EvSet) : Except Failure SockIod := do
  assertThat (iod.registered = false) .updateEvents
  assertThat (iod.sd ≠ -1) .fatal
  pure { iod with watchedEvents := ev, registered := true }

/-- `nsock_engine_iod_unregister` -/
def iodUnregister (iod : SockIod) : SockIod :=
  { iod with watchedEvents := .none, registered := false }

/-- `nsock_engine_iod_modify` -/
def iodModify (iod : SockIod) (evSet evClr : EvSet) : Except Failure SockIod := do
  assertThat (evSet.and evClr = .none) .updateEvents
  assertThat (iod.registered = true) .updateEvents
  pure { iod with watchedEvents := (iod.watchedEvents.or evSet).diff evClr }

def updateEvents (iod : SockIod) (evInc evDec : EvSet) : Except Failure SockIod := do
  let evTemp := evInc.xor evDec
  let evInc := evInc.and evTemp
  let evDec := evDec.and evTemp
  let clrmask : EvSet := ⟨shouldClearEvRead iod evDec, shouldClearEvWrite iod evDec⟩
  if iod.registered then iodModify iod evInc clrmask
  else do
    assertThat (clrmask = .none) .updateEvents
    iodRegister iod evInc

/-! ## Connects -/

/-- What becomes of `nsock_connect_internal`: no descriptor, one that cannot be bound, a
connection that fails at once, or one under way -/
inductive ConnectOutcome
  | noSocket
  | notBound (sd : Nat)
  | refused (sd : Nat)
  | started (sd : Nat)

/-- `nsock_make_socket`; none if there is no descriptor -/
def nsockMakeSocket (iod : SockIod) (udp : Bool) : Option Nat → SockIod
  | none => { iod with sd := -1 }
  | some sd => { iod with sd := sd, udp := udp }

def ConnectOutcome.sd : ConnectOutcome → Option Nat
  | .noSocket => none
  | .notBound sd => some sd
  | .refused sd => some sd
  | .started sd => some sd

/-- `nsock_connect_internal`, without a proxy chain -/
def nsockConnectInternal (iod : SockIod) (nse : SockEvent) (udp : Bool)
    (outcome : ConnectOutcome) : SockIod × SockEvent :=
  let iod := nsockMakeSocket iod udp outcome.sd
  match outcome with
  | .started _ => (iod, nse)
  | _ => (iod, { nse with eventDone := true, status := .error })

/-- What `SSL_connect` and `SSL_get_error` answer; after another error `retry` is what becomes
of a second connection. -/
inductive SslConnect
  | done (verified : Bool)
  | wantRead
  | wantWrite
  | failed (retry : ConnectOutcome)

/-- `SO_ERROR` is zero, and the answer of the SSL library -/
structure ConnectAnswer where
  connected : Bool
  ssl : SslConnect

def SockEvent.sslconnectInprogress (nse : SockEvent) : Bool :=
  decide (nse.type = .connectSsl) &&
    (decide (nse.sslDesire = .wantRead) || decide (nse.sslDesire = .wantWrite))

/-- The first part of `handle_connect_result`: whether the connection is up, and the session of
an SSL connect -/
def connectChecked (iod : SockIod) (nse : SockEvent) (status : NseStatus) (connected : Bool) :
    Except Failure (SockIod × SockEvent) :=
  if status = .timeout ∨ status = .cancelled then
    .ok (iod, { nse with status := status, eventDone := true })
  else if nse.sslconnectInprogress then .ok (iod, nse)
  else if status = .success then
    let nse := { nse with status := if connected then .success else .error }
    if nse.type = .connectSsl ∧ nse.status = .success then
      let iod := if iod.ssl then iod else { iod with ssl := true, optNoSslv2 := false }
      .ok (iod, { nse with sslDesire := .wantConnect })
    else .ok (iod, { nse with eventDone := true })
  else .error .fatal

/-- The second part: the counts of the TCP connect, or of the SSL connect that ends -/
def connectUncounted (iod : SockIod) (nse : SockEvent) (inprogress : Bool) :
    Except Failure SockIod := do
  if iod.sd = -1 then pure iod
  else if inprogress then
    if nse.eventDone then do
      let (iod, ev) ← socketCountDecSslDesire iod nse
      updateEvents iod .none ev
    else pure iod
  else do
    let (iod, evR) ← socketCountReadDec iod
    let (iod, evW) ← socketCountWriteDec iod
    updateEvents iod .none (evR.or evW)

def reconnectNoSslv2 (iod : SockIod) (nse : SockEvent) (retry : ConnectOutcome) :
    Except Failure (SockIod × SockEvent) := do
  let savedEv := iod.watchedEvents
  let (iod, nse) := nsockConnectInternal (iodUnregister iod) nse iod.udp retry
  let iod ← iodRegister iod savedEv
  let (iod, _) ← socketCountReadInc { iod with optNoSslv2 := true }
  let (iod, _) ← socketCountWriteInc iod
  let iod ← updateEvents iod (EvSet.evRead.or .evWrite) .none
  pure (iod, { nse with sslDesire := .wantConnect })

/-- The third part: `SSL_connect` -/
def sslConnected (cfg : SslConfig) (iod : SockIod) (nse : SockEvent) (inprogress : Bool)
    (ssl : SslConnect) : Except Failure (SockIod × SockEvent) := do
  let iod ← if inprogress then do
      let (iod, ev) ← socketCountDecSslDesire iod nse
      updateEvents iod .none ev
    else pure iod
  match ssl with
  | .done verified =>
    pure (iod, { nse with eventDone := true, status := if verified then .success else .error })
  | .wantRead => do
    let (iod, _) ← socketCountReadInc iod
    let iod ← updateEvents iod .evRead .none
    pure (iod, { nse with sslDesire := .wantRead })
  | .wantWrite => do
    let (iod, _) ← socketCountWriteInc iod
    let iod ← updateEvents iod .evWrite .none
    pure (iod, { nse with sslDesire := .wantWrite })
  | .failed retry =>
    if cfg.noSslv2 ∧ ¬ iod.udp ∧ ¬ iod.optNoSslv2 then reconnectNoSslv2 iod nse retry
    else pure (iod, { nse with eventDone := true, status := .error })

def handleConnectResult (cfg : SslConfig) (iod : SockIod) (nse : SockEvent) (status : NseStatus)
    (answer : ConnectAnswer) : Except Failure (SockIod × SockEvent) := do
  let inprogress := nse.sslconnectInprogress
  let (iod, nse) ← connectChecked iod nse status answer.connected
  let iod ← connectUncounted iod nse inprogress
  if nse.type = .connectSsl ∧ nse.eventDone = false then
    sslConnected cfg iod nse inprogress answer.ssl
  else pure (iod, nse)

/-! ## Writes -/

/-- What `SSL_write` or the system's write answers: the number of bytes taken, another attempt
in a direction (with SSL) or later, or an error -/
inductive WriteAnswer
  | wrote (n : Nat)
  | wantRead
  | wantWrite
  | again
  | failed

/-- An SSL event waits for another direction. -/
def moveDesire (iod : SockIod) (nse : SockEvent) (toRead : Bool) :
    Except Failure (SockIod × SockEvent) := do
  let (iod, evset) ← if toRead then socketCountReadInc iod else socketCountWriteInc iod
  let (iod, evclr) ← socketCountDecSslDesire iod nse
  let iod ← updateEvents iod evset evclr
  pure (iod, { nse with sslDesire := if toRead then .wantRead else .wantWrite })

def SockEvent.wrote (nse : SockEvent) (n : Nat) : SockEvent :=
  if n = nse.iobuf.length - nse.writtenSoFar then { nse with eventDone := true, status := .success }
  else { nse with writtenSoFar := nse.writtenSoFar + n }

/-- `NSE_STATUS_SUCCESS` in `handle_write_result` -/
def doWrite (iod : SockIod) (nse : SockEvent) (answer : WriteAnswer) :
    Except Failure (SockIod × SockEvent) :=
  match answer with
  | .wrote n => .ok (iod, nse.wrote n)
  | .failed => .ok (iod, { nse with eventDone := true, status := .error })
  | .wantRead => if iod.ssl then moveDesire iod nse true else .ok (iod, nse)
  | .wantWrite => if iod.ssl then moveDesire iod nse false else .ok (iod, nse)
  | .again => if iod.ssl then .ok (iod, { nse with eventDone := true, status := .error })
      else .ok (iod, nse)

/-- The end of `handle_write_result` and of `handle_read_result`: an event that is done waits for
nothing more. -/
def uncountDone (iod : SockIod) (nse : SockEvent) (hasSd : Bool)
    (dec : SockIod → Except Failure (SockIod × EvSet)) : Except Failure (SockIod × SockEvent) := do
  if nse.eventDone ∧ hasSd then do
    let (iod, ev) ← if iod.ssl then socketCountDecSslDesire iod nse else dec iod
    let iod ← updateEvents iod .none ev
    pure (iod, nse)
  else pure (iod, nse)

def handleWriteResult (iod : SockIod) (nse : SockEvent) (status : NseStatus)
    (answer : WriteAnswer) : Except Failure (SockIod × SockEvent) := do
  let (iod, nse) ←
    if status = .timeout ∨ status = .cancelled then
      pure (iod, { nse with eventDone := true, status := status })
    else if status = .success then doWrite iod nse answer
    else pure (iod, nse)
  uncountDone iod nse (decide (iod.sd ≠ -1)) socketCountWriteDec

/-! ## Reads -/

/-- Bytes that were read, and whether there was memory to store them -/
structure Chunk where
  data : List UInt8
  stored : Bool

/-- What ends a read: for a plain descriptor no more bytes for now; for an SSL session the
direction it waits for; an end of file; or an error -/
inductive ReadEnd
  | again
  | wantRead
  | wantWrite
  | eof
  | failed

/-- The answers to one `do_actual_read` -/
structure ReadAnswer where
  chunks : List Chunk
  last : ReadEnd

def readBufferSz : Nat := 8192

def nsockReadChunkSize : Int := 0x8FFFF

def SockEvent.maxChunk (nse : SockEvent) : Int :=
  if nse.readType = .readbytes then nse.num else nsockReadChunkSize

def readEof (iod : SockIod) (nse : SockEvent) : SockIod × SockEvent :=
  ({ iod with ioeof := true }, { nse with
    eventDone := true, eof := true
    status := if 0 < nse.iobuf.length then .success else .eof })

/-- An error, with -1 for the number of bytes -/
def SockEvent.readFailed (nse : SockEvent) : SockEvent × Int :=
  ({ nse with eventDone := true, status := .error }, -1)

def SockEvent.readSince (nse : SockEvent) (startlen : Nat) : Int := nse.iobuf.length - startlen

/-- The loop of `do_actual_read` on a plain descriptor: the event, the number of bytes, and
whether it is at the end of the file -/
def readPlain (nse : SockEvent) (startlen : Nat) (last : ReadEnd) :
    List Chunk → SockEvent × Int × Bool
  | [] =>
    match last with
    | .eof => (nse, nse.readSince startlen, true)
    | .failed => (nse.readFailed.1, nse.readFailed.2, false)
    | _ => (nse, nse.readSince startlen, false)
  | c :: rest =>
    if c.stored then
      let nse := { nse with iobuf := nse.iobuf ++ c.data }
      if nse.maxChunk < nse.iobuf.length ∨ c.data.length < readBufferSz then
        (nse, nse.readSince startlen, false)
      else readPlain nse startlen last rest
    else (nse.readFailed.1, nse.readFailed.2, false)

/-- The loop of `do_actual_read` on an SSL session: none for the way the reading ended if it is
over -/
def readSsl (nse : SockEvent) (startlen : Nat) (last : ReadEnd) :
    List Chunk → SockEvent × Int × Option ReadEnd
  | [] => (nse, nse.readSince startlen, some last)
  | c :: rest =>
    if c.stored then
      let nse := { nse with iobuf := nse.iobuf ++ c.data }
      if nse.maxChunk < nse.iobuf.length then (nse, nse.readSince startlen, none)
      else readSsl nse startlen last rest
    else (nse.readFailed.1, nse.readFailed.2, none)

def doActualRead (iod : SockIod) (nse : SockEvent) (answer : ReadAnswer) :
    Except Failure (SockIod × SockEvent × Int) :=
  let startlen := nse.iobuf.length
  if iod.ssl = false then
    match readPlain nse startlen answer.last answer.chunks with
    | (nse, rc, true) => .ok ((readEof iod nse).1, (readEof iod nse).2, rc)
    | (nse, rc, false) => .ok (iod, nse, rc)
  else
    match readSsl nse startlen answer.last answer.chunks with
    | (nse, rc, none) => .ok (iod, nse, rc)
    | (nse, rc, some .wantRead) => (moveDesire iod nse true).map fun (iod, nse) => (iod, nse, rc)
    | (nse, rc, some .wantWrite) => (moveDesire iod nse false).map fun (iod, nse) => (iod, nse, rc)
    | (nse, rc, some .eof) => .ok ((readEof iod nse).1, (readEof iod nse).2, rc)
    | (nse, _, some _) => .ok (iod, nse.readFailed.1, nse.readFailed.2)

def SockEvent.readEnough (nse : SockEvent) : Bool :=
  match nse.readType with
  | .read => true
  | .readbytes => nse.num ≤ nse.iobuf.length
  | .readlines => nse.num ≤ nse.iobuf.count '\n'.toUInt8

/-- `NSE_STATUS_SUCCESS` in `handle_read_result` -/
def readSuccess (iod : SockIod) (nse : SockEvent) (answer : ReadAnswer) :
    Except Failure (SockIod × SockEvent) := do
  let (iod, nse, rc) ← doActualRead iod nse answer
  if 0 < rc ∧ nse.readEnough then pure (iod, { nse with status := .success, eventDone := true })
  else pure (iod, nse)

def handleReadResult (iod : SockIod) (nse : SockEvent) (status : NseStatus)
    (answer : ReadAnswer) : Except Failure (SockIod × SockEvent) := do
  let (iod, nse) ←
    if status = .timeout then
      pure (iod, { nse with
        eventDone := true, status := if 0 < nse.iobuf.length then .success else .timeout })
    else if status = .cancelled then pure (iod, { nse with status := status, eventDone := true })
    else if status = .success then readSuccess iod nse answer
    else .error .fatal
  uncountDone iod nse (decide (0 ≤ iod.sd)) socketCountReadDec

end Nmap.Nsock
