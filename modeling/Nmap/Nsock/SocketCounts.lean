import Nmap.Nsock.Handlers

/-!
# What a socket is watched for

The runs of one iod: the user starts connects, reads and writes, and the handlers of the events
that are pending run with any answers, time out or are cancelled. The counts of an iod are then
the numbers of events that wait for the descriptor, and the engine watches what is waited for.
-/

namespace Nmap.Nsock

/-! ## Runs of one iod -/

/-- `event_new` -/
def SockEvent.new (type : NseType) : SockEvent where
  type := type
  status := .none
  eventDone := false
  eof := false
  iobuf := []
  writtenSoFar := 0
  readType := .read
  num := 0
  sslDesire := .none

/-- `nsock_pool_add_event` up to the branches by type: a read after the end of the file is
done. -/
def SockEvent.atEof (nse : SockEvent) (ioeof : Bool) : SockEvent :=
  if nse.type = .read ∧ ioeof then { nse with eof := true, eventDone := true, status := .eof }
  else nse

/-- `nsock_pool_add_event` for the events of a socket -/
def nsockPoolAddEvent (iod : SockIod) (nse : SockEvent) :
    Except Failure (SockIod × SockEvent) := do
  let nse := nse.atEof iod.ioeof
  if nse.eventDone then return (iod, nse)
  assertThat (0 ≤ iod.sd) .fatal
  match nse.type with
  | .connect | .connectSsl => do
    let (iod, _) ← socketCountReadInc iod
    let (iod, _) ← socketCountWriteInc iod
    let iod ← updateEvents iod (EvSet.evRead.or .evWrite) .none
    pure (iod, nse)
  | .read => do
    let (iod, _) ← socketCountReadInc iod
    let iod ← updateEvents iod .evRead .none
    pure (iod, if iod.ssl then { nse with sslDesire := .wantRead } else nse)
  | .write => do
    let (iod, _) ← socketCountWriteInc iod
    let iod ← updateEvents iod .evWrite .none
    pure (iod, if iod.ssl then { nse with sslDesire := .wantWrite } else nse)
  | _ => .error .fatal

/-- An iod, its pending events, and what ended the program -/
structure SocketRun where
  iod : SockIod
  events : List SockEvent
  failed : Option Failure
  deriving DecidableEq

/-- What the system and the SSL library answer to the handler of an event -/
structure Answers where
  connect : ConnectAnswer
  write : WriteAnswer
  read : ReadAnswer

/-- What happens next: the user makes a socket or starts an event, or the handler of the `i`-th
pending event runs with a status. -/
inductive SocketInput
  | setupUdp (sd : Option Nat)
  | connect (ssl udp : Bool) (outcome : ConnectOutcome)
  | reconnectSsl
  | read (readType : ReadType) (num : Int)
  | write (data : List UInt8)
  | result (i : Nat) (status : NseStatus) (answers : Answers)

def handleResult (cfg : SslConfig) (iod : SockIod) (nse : SockEvent) (status : NseStatus)
    (answers : Answers) : Except Failure (SockIod × SockEvent) :=
  match nse.type with
  | .connect | .connectSsl => handleConnectResult cfg iod nse status answers.connect
  | .read => handleReadResult iod nse status answers.read
  | .write => handleWriteResult iod nse status answers.write
  | _ => .error .fatal

/-- An event that is not done is pending, and one that is done is delivered. -/
def SockEvent.pending (nse : SockEvent) : List SockEvent := if nse.eventDone then [] else [nse]

/-- What a call leaves: the new iod and the event among the others, or the failure -/
def SocketRun.after (s : SocketRun) (before later : List SockEvent) :
    Except Failure (SockIod × SockEvent) → SocketRun
  | .error f => { s with failed := some f }
  | .ok (iod, nse) => ⟨iod, before ++ nse.pending ++ later, none⟩

def SocketRun.start (s : SocketRun) (iod : SockIod) (nse : SockEvent) : SocketRun :=
  s.after s.events [] (nsockPoolAddEvent iod nse)

def SocketRun.step (cfg : SslConfig) (s : SocketRun) (input : SocketInput) : Option SocketRun :=
  if s.failed ≠ none then none
  else match input with
  | .setupUdp sd => some { s with iod := nsockMakeSocket s.iod true sd }
  | .connect ssl udp outcome =>
    let nse := SockEvent.new (if ssl then .connectSsl else .connect)
    let (iod, nse) := nsockConnectInternal s.iod nse udp outcome
    some (s.start iod nse)
  | .reconnectSsl =>
    if s.iod.udp then some { s with failed := some .fatal }
    else some (s.start s.iod { SockEvent.new .connectSsl with status := .success })
  | .read readType num =>
    some (s.start s.iod { SockEvent.new .read with readType := readType, num := num })
  | .write data => some (s.start s.iod { SockEvent.new .write with iobuf := data })
  | .result i status answers =>
    match s.events[i]? with
    | none => none
    | some nse =>
      some (s.after (s.events.take i) (s.events.drop (i + 1))
        (handleResult cfg s.iod nse status answers))

/-- One iod, with or without a descriptor at the start -/
def socket (cfg : SslConfig) : Machine SocketRun SocketInput where
  init s := ∃ sd : Option Nat, s = ⟨nsockMakeSocket .new false sd, [], none⟩
  step := SocketRun.step cfg

/-! ## Waiting events -/

/-- A connect waits in both directions until the SSL session asks for one, and a read or a write
in its own unless the session asks for the other. -/
def SockEvent.waitsRead (nse : SockEvent) : Bool :=
  match nse.type with
  | .connect | .connectSsl | .read => decide (nse.sslDesire ≠ .wantWrite)
  | .write => decide (nse.sslDesire = .wantRead)
  | _ => false

def SockEvent.waitsWrite (nse : SockEvent) : Bool :=
  match nse.type with
  | .connect | .connectSsl | .write => decide (nse.sslDesire ≠ .wantRead)
  | .read => decide (nse.sslDesire = .wantWrite)
  | _ => false

/-- The counts of an iod are those of its waiting events, and it is watched for what they wait
for. -/
structure SocketRun.Watched (s : SocketRun) : Prop where
  read : s.iod.readsdCount = s.events.countP SockEvent.waitsRead
  write : s.iod.writesdCount = s.events.countP SockEvent.waitsWrite
  watchedRead : s.iod.watchedEvents.read = true ↔ 0 < s.iod.readsdCount
  watchedWrite : s.iod.watchedEvents.write = true ↔ 0 < s.iod.writesdCount

/-- No assertion of a `socket_count_*` function has failed, and while the program runs the iod
is watched for what its events wait for. -/
def SocketRun.Sound (s : SocketRun) : Prop :=
  s.failed ≠ some .socketCount ∧ (s.failed = none → s.Watched)

/-! ## The condition -/

/-- The handler of a connect goes on to `SSL_connect`. -/
def SockEvent.reachesSsl (nse : SockEvent) (status : NseStatus) (connected : Bool) : Bool :=
  decide (nse.type = .connectSsl ∧ status ≠ .timeout ∧ status ≠ .cancelled) &&
    (nse.sslconnectInprogress || connected)

/-- No event has plain reads or writes to do. -/
def SocketRun.onlyConnects (s : SocketRun) : Prop :=
  ∀ nse ∈ s.events, nse.type ≠ .read ∧ nse.type ≠ .write

/-- The second connection without SSLv2, if it has a descriptor, is under way. -/
def SslConnect.retryStarted : SslConnect → Prop
  | .failed (.notBound _) => False
  | .failed (.refused _) => False
  | _ => True

/-- A descriptor goes away only when nothing waits for it; an SSL session is made only when no
read or write waits; and the second connection of an SSL connect is under way. -/
def SocketInput.Safe (cfg : SslConfig) (s : SocketRun) : SocketInput → Prop
  | .setupUdp none => s.events = []
  | .connect _ _ .noSocket => s.events = []
  | .result i status answers =>
    ∀ nse, s.events[i]? = some nse → nse.reachesSsl status answers.connect.connected = true →
      (s.iod.ssl = false → s.onlyConnects) ∧
      (cfg.noSslv2 ∧ ¬ s.iod.udp ∧ ¬ (s.iod.ssl ∧ s.iod.optNoSslv2) →
        answers.connect.ssl.retryStarted)
  | _ => True

/-! ## Counts and watched events -/

/-- The iod that is watched for `r` events that wait to read and `w` that wait to write -/
def SockIod.counted (iod : SockIod) (r w : Nat) : SockIod :=
  { iod with
    readsdCount := r, writesdCount := w
    watchedEvents := ⟨decide (0 < r), decide (0 < w)⟩, registered := true }

section
variable (iod : SockIod) (r w : Nat)

@[simp] theorem SockIod.counted_sd : (iod.counted r w).sd = iod.sd := rfl

@[simp] theorem SockIod.counted_udp : (iod.counted r w).udp = iod.udp := rfl

@[simp] theorem SockIod.counted_ssl : (iod.counted r w).ssl = iod.ssl := rfl

@[simp] theorem SockIod.counted_optNoSslv2 :
    (iod.counted r w).optNoSslv2 = iod.optNoSslv2 := rfl

/-- The counts and the watched events of an iod with `r` readers and `w` writers, which need not
be registered when there are none -/
structure SockIod.Counts : Prop where
  read : iod.readsdCount = r
  write : iod.writesdCount = w
  watched : iod.watchedEvents = ⟨decide (0 < r), decide (0 < w)⟩
  registered : iod.registered = true ∨ (r = 0 ∧ w = 0)

end

variable {iod : SockIod} {r w : Nat}

theorem SockIod.Counts.of_counted : (iod.counted r w).Counts r w :=
  ⟨rfl, rfl, rfl, .inl rfl⟩

/-- What becomes of one direction: it is watched afterwards if and only if something waits. -/
def Keeps (before after : Nat) (inc dec : Bool) : Prop :=
  decide (0 < after) =
    ((decide (0 < before) || (inc && !dec)) && !(dec && !inc && decide (after = 0)))

/-- `update_events` after the counts have changed -/
theorem SockIod.Counts.updateEvents (counts : iod.Counts r w) (r' w' : Nat) (inc dec : EvSet)
    (descriptor : 0 ≤ iod.sd) (keepsRead : Keeps r r' inc.read dec.read)
    (keepsWrite : Keeps w w' inc.write dec.write)
    (none : r = 0 ∧ w = 0 → dec = .none) :
    Nsock.updateEvents { iod with readsdCount := r', writesdCount := w' } inc dec =
      .ok (iod.counted r' w') := by
  obtain ⟨incR, incW⟩ := inc
  obtain ⟨decR, decW⟩ := dec
  obtain ⟨_, _, watched, registered⟩ := counts
  simp only [Keeps] at keepsRead keepsWrite
  cases isRegistered : iod.registered with
  | true =>
    have disjoint : ∀ inc dec x : Bool, ((inc && (inc ^^ dec)) && (dec && (inc ^^ dec) && x)) =
      false := by decide
    simp only [Nsock.updateEvents, if_true, iodModify, assertThat, EvSet.and,
      EvSet.xor, shouldClearEvRead, shouldClearEvWrite, disjoint, EvSet.none, EvSet.or,
      EvSet.diff, watched, Int.natCast_eq_zero]
    refine congrArg Except.ok ?_
    simp only [SockIod.counted]
    congr 2
    · rw [keepsRead]
      cases incR <;> cases decR <;> simp
    · rw [keepsWrite]
      cases incW <;> cases decW <;> simp
  | false =>
    have zero := registered.resolve_left (by simp [isRegistered])
    obtain ⟨rfl, rfl⟩ := zero
    cases none ⟨rfl, rfl⟩
    have sd : iod.sd ≠ -1 := by omega
    simp only [Bool.not_false, Bool.and_true, Bool.false_and, Nat.lt_irrefl, decide_false,
      Bool.false_or] at keepsRead keepsWrite
    simp [Nsock.updateEvents, iodRegister, assertThat, EvSet.and, EvSet.xor,
      shouldClearEvRead, shouldClearEvWrite, EvSet.none, SockIod.counted, sd, bind,
      Except.bind, pure, Except.pure, keepsRead, keepsWrite]

theorem keeps_inc (n : Nat) (inc : Bool) : Keeps n (n + inc.toNat) inc false := by
  cases inc <;> simp [Keeps]

theorem keeps_dec (n : Nat) (dec : Bool) :
    Keeps (n + dec.toNat) n false (dec && decide (n = 0)) := by
  cases dec <;> simp [Keeps, Nat.pos_iff_ne_zero]

theorem keeps_move (n : Nat) (before after : Bool) :
    Keeps (n + before.toNat) (n + after.toNat) after
      (before && decide (n + after.toNat = 0)) := by
  cases before <;> cases after <;> simp [Keeps, Nat.pos_iff_ne_zero]

/-! ## `socket_count_*` -/

theorem socketCountReadInc_eq (read : iod.readsdCount = r) :
    socketCountReadInc iod = .ok ({ iod with readsdCount := ↑(r + 1) }, .evRead) := by
  simp [socketCountReadInc, assertThat, read, bind, Except.bind, pure, Except.pure]

theorem socketCountWriteInc_eq (write : iod.writesdCount = w) :
    socketCountWriteInc iod = .ok ({ iod with writesdCount := ↑(w + 1) }, .evWrite) := by
  simp [socketCountWriteInc, assertThat, write, bind, Except.bind, pure, Except.pure]

theorem socketCountReadDec_eq (read : iod.readsdCount = ↑(r + 1)) :
    socketCountReadDec iod =
      .ok ({ iod with readsdCount := r }, ⟨decide (r = 0), false⟩) := by
  have pos : 0 < iod.readsdCount := by omega
  have less : iod.readsdCount - 1 = r := by omega
  simp only [socketCountReadDec, assertThat, pos, less, if_true, bind, Except.bind, pure,
    Except.pure]
  by_cases zero : r = 0 <;> simp [zero, EvSet.evRead, EvSet.none]

theorem socketCountWriteDec_eq (write : iod.writesdCount = ↑(w + 1)) :
    socketCountWriteDec iod =
      .ok ({ iod with writesdCount := w }, ⟨false, decide (w = 0)⟩) := by
  have pos : 0 < iod.writesdCount := by omega
  have less : iod.writesdCount - 1 = w := by omega
  simp only [socketCountWriteDec, assertThat, pos, less, if_true, bind, Except.bind, pure,
    Except.pure]
  by_cases zero : w = 0 <;> simp [zero, EvSet.evWrite, EvSet.none]

/-- The SSL session asks for readability. -/
def SslDesire.reads (d : SslDesire) : Bool := decide (d = .wantRead)

/-- The SSL session asks for writability. -/
def SslDesire.writes (d : SslDesire) : Bool := decide (d = .wantWrite)

/-- An SSL session asks for one direction. -/
def SslDesire.Asks (d : SslDesire) : Prop := d = .wantRead ∨ d = .wantWrite

variable {nse : SockEvent}

/-- `socket_count_dec_ssl_desire` takes an event off the counts. -/
theorem socketCountDecSslDesire_eq (iod : SockIod) (ssl : iod.ssl = true)
    (asks : nse.sslDesire.Asks) (read : iod.readsdCount = ↑(r + nse.sslDesire.reads.toNat))
    (write : iod.writesdCount = ↑(w + nse.sslDesire.writes.toNat)) :
    socketCountDecSslDesire iod nse = .ok ({ iod with readsdCount := r, writesdCount := w },
      ⟨nse.sslDesire.reads && decide (r = 0), nse.sslDesire.writes && decide (w = 0)⟩) := by
  rcases asks with desire | desire
  · simp only [desire, SslDesire.reads, SslDesire.writes, decide_true, reduceCtorEq, decide_false,
      Bool.toNat_true, Bool.toNat_false, Nat.add_zero] at read write ⊢
    simp [socketCountDecSslDesire, assertThat, ssl, desire, bind, Except.bind,
      socketCountReadDec_eq read, ← write]
  · simp only [desire, SslDesire.reads, SslDesire.writes, decide_true, reduceCtorEq, decide_false,
      Bool.toNat_true, Bool.toNat_false, Nat.add_zero] at read write ⊢
    simp [socketCountDecSslDesire, assertThat, ssl, desire, bind, Except.bind,
      socketCountWriteDec_eq write, ← read]

theorem uncountDesire_eq (ssl : iod.ssl = true) (descriptor : 0 ≤ iod.sd)
    (asks : nse.sslDesire.Asks)
    (counts : iod.Counts (r + nse.sslDesire.reads.toNat) (w + nse.sslDesire.writes.toNat)) :
    (do let (iod, ev) ← socketCountDecSslDesire iod nse; updateEvents iod .none ev) =
      .ok (iod.counted r w) := by
  rw [socketCountDecSslDesire_eq iod ssl asks counts.read counts.write]
  refine counts.updateEvents r w .none _ descriptor (keeps_dec r _) (keeps_dec w _) ?_
  rintro ⟨noRead, noWrite⟩
  have : nse.sslDesire.reads = false := by simpa using Nat.eq_zero_of_add_eq_zero_left noRead
  have : nse.sslDesire.writes = false := by simpa using Nat.eq_zero_of_add_eq_zero_left noWrite
  simp [*, EvSet.none]

/-- `ssl_desire` after a move -/
def SslDesire.toward (toRead : Bool) : SslDesire := if toRead then .wantRead else .wantWrite

theorem moveDesire_eq (ssl : iod.ssl = true) (descriptor : 0 ≤ iod.sd) (asks : nse.sslDesire.Asks)
    (toRead : Bool)
    (counts : iod.Counts (r + nse.sslDesire.reads.toNat) (w + nse.sslDesire.writes.toNat)) :
    moveDesire iod nse toRead = .ok
      (iod.counted (r + toRead.toNat) (w + (!toRead).toNat),
        { nse with sslDesire := .toward toRead }) := by
  have clear : ∀ evset ev : EvSet, evset = ⟨toRead, !toRead⟩ →
      ev = ⟨nse.sslDesire.reads && decide (r + toRead.toNat = 0),
        nse.sslDesire.writes && decide (w + (!toRead).toNat = 0)⟩ →
      updateEvents { iod with
        readsdCount := ↑(r + toRead.toNat), writesdCount := ↑(w + (!toRead).toNat) } evset ev =
          .ok (iod.counted (r + toRead.toNat) (w + (!toRead).toNat)) := by
    rintro _ _ rfl rfl
    refine counts.updateEvents _ _ _ _ descriptor (keeps_move r _ _) (keeps_move w _ _) ?_
    rintro ⟨noRead, noWrite⟩
    have : nse.sslDesire.reads = false := by simpa using Nat.eq_zero_of_add_eq_zero_left noRead
    have : nse.sslDesire.writes = false := by simpa using Nat.eq_zero_of_add_eq_zero_left noWrite
    simp [*, EvSet.none]
  cases toRead with
  | true =>
    have read : (↑(r + nse.sslDesire.reads.toNat + 1) : Int) =
      ↑(r + 1 + nse.sslDesire.reads.toNat) := by omega
    rw [moveDesire, if_pos rfl, socketCountReadInc_eq counts.read]
    simp only [bind, Except.bind]
    rw [socketCountDecSslDesire_eq { iod with
      readsdCount := ↑(r + nse.sslDesire.reads.toNat + 1) } ssl asks read counts.write]
    dsimp only
    have moved : updateEvents { iod with readsdCount := ↑(r + 1), writesdCount := ↑w } .evRead
        ⟨nse.sslDesire.reads && decide (r + 1 = 0), nse.sslDesire.writes && decide (w = 0)⟩ =
          .ok (iod.counted (r + 1) w) := clear _ _ rfl rfl
    rw [moved]
    rfl
  | false =>
    have write : (↑(w + nse.sslDesire.writes.toNat + 1) : Int) =
      ↑(w + 1 + nse.sslDesire.writes.toNat) := by omega
    rw [moveDesire, if_neg nofun, socketCountWriteInc_eq counts.write]
    simp only [bind, Except.bind]
    rw [socketCountDecSslDesire_eq { iod with
      writesdCount := ↑(w + nse.sslDesire.writes.toNat + 1) } ssl asks counts.read write]
    dsimp only
    have moved : updateEvents { iod with readsdCount := ↑r, writesdCount := ↑(w + 1) } .evWrite
        ⟨nse.sslDesire.reads && decide (r = 0), nse.sslDesire.writes && decide (w + 1 = 0)⟩ =
          .ok (iod.counted r (w + 1)) := clear _ _ rfl rfl
    rw [moved]
    rfl

theorem watchRead_eq (counts : iod.Counts r w) (descriptor : 0 ≤ iod.sd) :
    (do let (iod, _) ← socketCountReadInc iod; updateEvents iod .evRead .none) =
      .ok (iod.counted (r + 1) w) := by
  rw [socketCountReadInc_eq counts.read]
  have watched := counts.updateEvents (r + 1) (w + false.toNat) .evRead .none descriptor
    (keeps_inc r true) (keeps_inc w false) fun _ => rfl
  have write : iod.writesdCount = ↑(w + false.toNat) := counts.write
  rw [← write] at watched
  exact watched

theorem watchWrite_eq (counts : iod.Counts r w) (descriptor : 0 ≤ iod.sd) :
    (do let (iod, _) ← socketCountWriteInc iod; updateEvents iod .evWrite .none) =
      .ok (iod.counted r (w + 1)) := by
  rw [socketCountWriteInc_eq counts.write]
  have watched := counts.updateEvents (r + false.toNat) (w + 1) .evWrite .none descriptor
    (keeps_inc r false) (keeps_inc w true) fun _ => rfl
  have read : iod.readsdCount = ↑(r + false.toNat) := counts.read
  rw [← read] at watched
  exact watched

theorem watchBoth_eq (counts : iod.Counts r w) (descriptor : 0 ≤ iod.sd) :
    (do
      let (iod, _) ← socketCountReadInc iod
      let (iod, _) ← socketCountWriteInc iod
      updateEvents iod (EvSet.evRead.or .evWrite) .none) = .ok (iod.counted (r + 1) (w + 1)) := by
  rw [socketCountReadInc_eq counts.read]
  show (do
    let (iod, _) ← socketCountWriteInc { iod with readsdCount := ↑(r + 1) }
    updateEvents iod (EvSet.evRead.or .evWrite) .none) = _
  have write : ({ iod with readsdCount := ↑(r + 1) } : SockIod).writesdCount = w := counts.write
  rw [socketCountWriteInc_eq write]
  exact counts.updateEvents (r + 1) (w + 1) (EvSet.evRead.or .evWrite) .none descriptor
    (keeps_inc r true) (keeps_inc w true) fun _ => rfl

theorem unwatchRead_eq (counts : iod.Counts (r + 1) w) (descriptor : 0 ≤ iod.sd) :
    (do let (iod, ev) ← socketCountReadDec iod; updateEvents iod .none ev) =
      .ok (iod.counted r w) := by
  rw [socketCountReadDec_eq counts.read]
  have unwatched := counts.updateEvents r w .none ⟨decide (r = 0), false⟩ descriptor
    (keeps_dec r true) (keeps_dec w false) (by omega)
  rw [← counts.write] at unwatched
  exact unwatched

theorem unwatchWrite_eq (counts : iod.Counts r (w + 1)) (descriptor : 0 ≤ iod.sd) :
    (do let (iod, ev) ← socketCountWriteDec iod; updateEvents iod .none ev) =
      .ok (iod.counted r w) := by
  rw [socketCountWriteDec_eq counts.write]
  have unwatched := counts.updateEvents r w .none ⟨false, decide (w = 0)⟩ descriptor
    (keeps_dec r false) (keeps_dec w true) (by omega)
  rw [← counts.read] at unwatched
  exact unwatched

theorem unwatchBoth_eq (counts : iod.Counts (r + 1) (w + 1)) (descriptor : 0 ≤ iod.sd) :
    (do
      let (iod, evR) ← socketCountReadDec iod
      let (iod, evW) ← socketCountWriteDec iod
      updateEvents iod .none (evR.or evW)) = .ok (iod.counted r w) := by
  rw [socketCountReadDec_eq counts.read]
  show (do
    let (iod, evW) ← socketCountWriteDec { iod with readsdCount := ↑r }
    updateEvents iod .none (EvSet.or ⟨decide (r = 0), false⟩ evW)) = _
  have write : ({ iod with readsdCount := ↑r } : SockIod).writesdCount = ↑(w + 1) := counts.write
  rw [socketCountWriteDec_eq write]
  have events : EvSet.or ⟨decide (r = 0), false⟩ ⟨false, decide (w = 0)⟩ =
    ⟨true && decide (r = 0), true && decide (w = 0)⟩ := by simp [EvSet.or]
  show updateEvents { iod with readsdCount := ↑r, writesdCount := ↑w } .none
    (EvSet.or ⟨decide (r = 0), false⟩ ⟨false, decide (w = 0)⟩) = _
  rw [events]
  exact counts.updateEvents r w .none _ descriptor (keeps_dec r true) (keeps_dec w true) (by omega)

end Nmap.Nsock
