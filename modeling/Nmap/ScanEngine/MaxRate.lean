import Mathlib.Data.Rat.Floor
import Nmap.Base.Paced
import Nmap.Base.TSys
import Nmap.ScanEngine.Supply

/-!
# Maximum and minimum rate (`scan_engine.cc`)

The group keeps the time before which nothing may be sent (`--max-rate`) and the time at which
something has to be sent (`--min-rate`). Four loops send probes, and each asks `sendOK` of the
group before every probe. A probe may be several packets, and each packet moves both times on. A
turn of a loop says what it finds in the hosts, and what happens between the loops changes all but
the two times.
-/

namespace Nmap.ScanEngine

open Nmap.Base List

/-! ## Times -/

/-- `struct timeval`, with less than a second of microseconds -/
structure Timeval where
  sec : Nat
  usec : Nat
  small : usec < 1000000

theorem Timeval.zero_small : 0 < 1000000 := by decide

def Timeval.micros (t : Timeval) : Nat := t.sec * 1000000 + t.usec

def Timeval.add (t : Timeval) (usecs : Nat) : Timeval where
  sec := t.sec + usecs / 1000000 + (t.usec + usecs % 1000000) / 1000000
  usec := (t.usec + usecs % 1000000) % 1000000
  small := Nat.mod_lt _ (by omega)

def Timeval.after (a b : Timeval) : Bool :=
  decide (b.sec < a.sec) || (decide (a.sec = b.sec) && decide (b.usec < a.usec))

def Timeval.subtract (a b : Timeval) : Int := ((a.sec : Int) - b.sec) * 1000000 + a.usec - b.usec

def Timeval.msecSubtract (a b : Timeval) : Int :=
  ((a.sec : Int) - b.sec) * 1000 + Int.tdiv ((a.usec : Int) - b.usec) 1000

@[simp] theorem Timeval.add_micros (t : Timeval) (usecs : Nat) :
    (t.add usecs).micros = t.micros + usecs := by
  simp only [micros, add]
  omega

theorem Timeval.after_iff (a b : Timeval) : a.after b = true ↔ b.micros < a.micros := by
  have := a.small
  have := b.small
  simp only [after, micros, Bool.or_eq_true, Bool.and_eq_true, decide_eq_true_eq]
  omega

/-! ## The group -/

/-- The options of a run, and what it does not change -/
structure RateOptions where
  /-- `o.max_packet_send_rate` and `o.min_packet_send_rate`, 0 when unset -/
  maxPacketSendRate : ℚ
  minPacketSendRate : ℚ
  nogcc : Bool
  numdecoys : Nat
  /-- `udp_payload_count` -/
  udpPayloadCount : UInt16 → UInt8
  /-- `scantype == CONNECT_SCAN || ptech.connecttcpscan` -/
  connects : Bool
  pcapRecvTimevalValid : Bool
  pingScanArp : Bool
  pingScanNd : Bool
  /-- `gstats->numprobes` -/
  numprobes : Nat
  /-- `perf.pingtime` -/
  pingtime : Int

/-- `max_rate_add` and `min_rate_add`: the microseconds for a packet -/
def rateAdd (rate : ℚ) : Nat := if rate ≠ 0 then (1000000 / rate).floor.toNat else 0

/-- What the whole engine changes of a `GroupScanStats` -/
structure GroupRest where
  probesSent : Int
  probesSentAtLastWait : Int
  lastWait : Timeval
  srtt : Int
  numProbesActive : Int
  cwnd : ℚ
  lastrcvd : Timeval
  lastpingSent : Timeval
  lastpingSentNumprobes : Int
  pinghost : Option Nat

structure GroupScanStats extends GroupRest where
  sendNoEarlierThan : Timeval
  sendNoLaterThan : Timeval

/-- What `GroupScanStats::sendOK` asks of others -/
structure GroupView where
  /-- `CSI->sendOK()`, if there is a `CSI` -/
  csi : Option Bool
  numIncompleteHosts : Nat

/-- The two times after a packet in `GroupScanStats::probeSent` -/
def GroupScanStats.probeSent (o : RateOptions) (now : Timeval) (g : GroupScanStats) :
    GroupScanStats :=
  let g := if o.maxPacketSendRate ≠ 0 then
      { g with sendNoEarlierThan := g.sendNoEarlierThan.add (rateAdd o.maxPacketSendRate) }
    else g
  if o.minPacketSendRate ≠ 0 then
    let base := if g.sendNoLaterThan.after now then now else g.sendNoLaterThan
    { g with sendNoLaterThan := base.add (rateAdd o.minPacketSendRate) }
  else g

/-- `GroupScanStats::sendOK(NULL)` -/
def GroupScanStats.sendOK (o : RateOptions) (now : Timeval) (view : GroupView)
    (g : GroupScanStats) : Bool :=
  let recentsends := g.probesSent - g.probesSentAtLastWait
  if view.csi = some false then false
  else if 0 < recentsends ∧ (o.connects = true ∨ o.pcapRecvTimevalValid = false) ∧
      max (Int.tdiv (g.srtt * 3) 4000) 50 < now.msecSubtract g.lastWait then false
  else if o.maxPacketSendRate ≠ 0 ∧ g.sendNoEarlierThan.after now = true then false
  else if o.minPacketSendRate ≠ 0 ∧ g.sendNoLaterThan.after now = false then true
  else if 50 ≤ recentsends then false
  else if o.nogcc then true
  else if view.numIncompleteHosts < 2 then true
  else decide (g.numProbesActive + 1 / 2 ≤ g.cwnd)

/-! ## Sending -/

/-- Where a loop is -/
inductive Phase
  | idle
  | newProbes (hss unableToSend : Option Nat)
  | retryStack (hss unableToSend : Option Nat)
  | hostPings (left : List Nat)
  | globalPing
  | retransmits (cache left : List Nat) (retrans : Nat)

/-- The group, the clock and the loop; the log has the time of every packet that `probeSent` was
called for, and `largest` is the largest number of packets of a probe. -/
structure RateRun where
  gstats : GroupScanStats
  now : Timeval
  phase : Phase
  log : List Timeval
  largest : Nat

/-- How often `probeSent` is called for a probe -/
def numPackets (o : RateOptions) (pspec : ProbeSpec) : Nat :=
  match pspec.type, pspec.pd with
  | .udp, .udp dport => max (o.udpPayloadCount dport).toNat 1 * o.numdecoys
  | .arp, _ | .nd, _ | .connectTcp, _ => 1
  | _, _ => o.numdecoys

/-- The calls of `probeSent` for a probe -/
def probeSents (o : RateOptions) (now : Timeval) : Nat → GroupScanStats → GroupScanStats
  | 0, g => g
  | n + 1, g => probeSents o now n (g.probeSent o now)

/-- What is read of the clock while a probe is sent, and what becomes of the group when a
`connect` is over at once -/
structure Sending where
  before : Timeval
  after : Timeval
  connected : Option GroupRest

/-- `sendArpScanProbe`, `sendNDScanProbe`, `sendConnectScanProbe` and `sendIPScanProbe`, as far as
they concern the group -/
def sendProbe (o : RateOptions) (pspec : ProbeSpec) (sending : Sending) (s : RateRun) : RateRun :=
  -- only `sendArpScanProbe` reads the clock before it sends
  let now := if pspec.type = .arp then sending.before else s.now
  let n := numPackets o pspec
  let g := probeSents o now n s.gstats
  let g := { g with numProbesActive := g.numProbesActive + 1 }
  let g := if pspec.type = .connectTcp then
      { g with toGroupRest := sending.connected.getD g.toGroupRest }
    else g
  { s with
    gstats := g
    now := sending.after
    log := s.log ++ List.replicate n now
    largest := max s.largest n }

/-- `USI->gstats->probes_sent++` -/
def countProbe (s : RateRun) : RateRun :=
  { s with gstats := { s.gstats with probesSent := s.gstats.probesSent + 1 } }

/-! ## The loops -/

/-- An outstanding probe, as `doAnyOutstandingRetransmits` looks at it -/
structure ProbeView where
  pspec : ProbeSpec
  retransmitted : Bool
  isPing : Bool
  timedout : Bool
  tryno : Nat

/-- What a turn finds in its host -/
structure HostView where
  freshPortsLeft : Bool
  /-- what `get_next_target_probe` gives -/
  nextProbe : ProbeSpec
  /-- the top of `retry_stack` -/
  retryStack : Option ProbeSpec
  pingprobe : ProbeSpec
  sendOK : Bool
  rldWaiting : Bool
  numprobesSent : Int
  lastpingSentNumprobes : Int
  lastrcvd : Timeval
  lastpingSent : Timeval
  numProbesActive : Nat
  numProbesWaitingRetransmit : Nat
  maxTrynoSent : Nat
  maxtries : Nat
  /-- `probes_outstanding` before the iterator of the cache, from its end on -/
  outstanding : List ProbeView

/-- A turn of a loop -/
structure Turn where
  view : GroupView
  host : HostView
  sending : Sending
  /-- `nextIncompleteHost()` at its end -/
  next : Option Nat

/-- A turn of `doAnyNewProbes` or `doAnyRetryStackRetransmits`; the two differ in what a host has
to send and in how it is sent. -/
def loopTurn (o : RateOptions) (phase : Option Nat → Option Nat → Phase)
    (available : Option ProbeSpec) (t : Turn) (hss unableToSend : Option Nat) (s : RateRun) :
    RateRun :=
  match hss with
  | none => { s with phase := .idle }
  | some host =>
    if unableToSend = some host ∨ s.gstats.sendOK o s.now t.view = false then
      { s with phase := .idle }
    else
      match available, t.host.sendOK with
      | some pspec, true =>
        { sendProbe o pspec t.sending (countProbe s) with phase := phase t.next none }
      | _, _ => { s with phase := phase t.next (unableToSend.orElse fun _ => hss) }

/-- A turn of `doAnyNewProbes` -/
def newProbesTurn (o : RateOptions) (t : Turn) : Option Nat → Option Nat → RateRun → RateRun :=
  loopTurn o .newProbes (if t.host.freshPortsLeft then some t.host.nextProbe else none) t

/-- A turn of `doAnyRetryStackRetransmits` -/
def retryStackTurn (o : RateOptions) (t : Turn) : Option Nat → Option Nat → RateRun → RateRun :=
  loopTurn o .retryStack t.host.retryStack t

def sendPingProbe (o : RateOptions) (t : Turn) (s : RateRun) : RateRun :=
  countProbe (sendProbe o t.host.pingprobe t.sending s)

/-- A turn of the first loop of `doAnyPings` -/
def hostPingTurn (o : RateOptions) (t : Turn) (left : List Nat) (s : RateRun) : RateRun :=
  match left with
  | [] => { s with phase := .globalPing }
  | _ :: left =>
    let hss := t.host
    if hss.pingprobe.type ≠ .none ∧ hss.rldWaiting = false ∧
        hss.lastpingSentNumprobes + 10 ≤ hss.numprobesSent ∧
        o.pingtime < s.now.subtract hss.lastrcvd ∧ o.pingtime < s.now.subtract hss.lastpingSent ∧
        s.gstats.sendOK o s.now t.view = true ∧ hss.sendOK = true then
      { sendPingProbe o t s with phase := .hostPings left }
    else { s with phase := .hostPings left }

/-- The global ping of `doAnyPings` -/
def globalPingTurn (o : RateOptions) (t : Turn) (s : RateRun) : RateRun :=
  let g := s.gstats
  if g.pinghost.isSome = true ∧ t.host.pingprobe.type ≠ .none ∧ t.host.numProbesActive = 0 ∧
      g.lastpingSentNumprobes + 20 ≤ g.probesSent ∧ o.pingtime < s.now.subtract g.lastrcvd ∧
      o.pingtime < s.now.subtract g.lastpingSent ∧ g.sendOK o s.now t.view = true then
    let s := sendPingProbe o t s
    { s with
      gstats := { s.gstats with
        lastpingSent := s.now
        lastpingSentNumprobes := s.gstats.probesSent }
      phase := .idle }
  else { s with phase := .idle }

/-- The probe of a host that `doAnyOutstandingRetransmits` retransmits: the first that may be, if
it need not wait -/
def HostView.retransmit (o : RateOptions) (hss : HostView) : Option ProbeSpec :=
  match hss.outstanding.find? fun probe => !(probe.retransmitted || probe.isPing) &&
      probe.timedout && decide (probe.tryno < hss.maxtries) with
  | none => none
  | some probe =>
    if hss.maxTrynoSent < probe.tryno + 1 ∧
        (1 < o.numprobes ∨ o.pingScanArp = true ∨ o.pingScanNd = true) then none
    else some probe.pspec

/-- A turn of `doAnyOutstandingRetransmits`: the next host, or the condition at the end of the
outer loop -/
def retransmitTurn (o : RateOptions) (t : Turn) (cache left : List Nat) (retrans : Nat)
    (s : RateRun) : RateRun :=
  let ok := s.gstats.sendOK o s.now t.view
  match left with
  | [] =>
    if ok && decide (retrans ≠ 0) then { s with phase := .retransmits cache cache 0 }
    else { s with now := t.sending.after, phase := .idle }
  | _ :: left =>
    if ok = false then { s with phase := .retransmits cache [] retrans }
    else if t.host.numProbesActive = 0 ∧ t.host.numProbesWaitingRetransmit = 0 then
      { s with phase := .retransmits cache left retrans }
    else if t.host.sendOK = false then { s with phase := .retransmits cache left retrans }
    else
      match t.host.retransmit o with
      | none => { s with phase := .retransmits cache left retrans }
      | some pspec =>
        { countProbe (sendProbe o pspec t.sending s) with
          phase := .retransmits cache left (retrans + 1) }

/-! ## Runs -/

/-- What the engine does next: it enters one of the loops, takes a turn of the loop that it is in,
or does something else between the loops -/
inductive RateEvent
  | doAnyNewProbes (clock : Timeval) (first : Option Nat)
  | doAnyRetryStackRetransmits (clock : Timeval) (first : Option Nat)
  | doAnyPings (clock : Timeval) (incompleteHosts : List Nat)
  | doAnyOutstandingRetransmits (clock : Timeval) (cache : List Nat)
  | turn (t : Turn)
  | elsewhere (clock : Timeval) (rest : GroupRest)

def Sending.Forward (now : Timeval) (sending : Sending) : Prop :=
  now.micros ≤ sending.before.micros ∧ sending.before.micros ≤ sending.after.micros

instance (now : Timeval) (sending : Sending) : Decidable (sending.Forward now) :=
  inferInstanceAs (Decidable (_ ∧ _))

def enter (clock : Timeval) (phase : Phase) (s : RateRun) : Option RateRun :=
  match s.phase with
  | .idle => if s.now.micros ≤ clock.micros then some { s with now := clock, phase } else none
  | _ => none

/-- A turn of the loop that the engine is in -/
def takeTurn (o : RateOptions) (t : Turn) (s : RateRun) : Option RateRun :=
  match s.phase with
  | .idle => none
  | .newProbes hss unableToSend => some (newProbesTurn o t hss unableToSend s)
  | .retryStack hss unableToSend => some (retryStackTurn o t hss unableToSend s)
  | .hostPings left => some (hostPingTurn o t left s)
  | .globalPing => some (globalPingTurn o t s)
  | .retransmits cache left retrans => some (retransmitTurn o t cache left retrans s)

def RateRun.step (o : RateOptions) (s : RateRun) : RateEvent → Option RateRun
  | .doAnyNewProbes clock first => enter clock (.newProbes first none) s
  | .doAnyRetryStackRetransmits clock first => enter clock (.retryStack first none) s
  | .doAnyPings clock incompleteHosts => enter clock (.hostPings incompleteHosts) s
  | .doAnyOutstandingRetransmits clock cache => enter clock (.retransmits cache cache 0) s
  | .turn t => if t.sending.Forward s.now then takeTurn o t s else none
  | .elsewhere clock rest =>
    (enter clock .idle s).map fun s => { s with gstats := { s.gstats with toGroupRest := rest } }

/-- `GroupScanStats::GroupScanStats` -/
def RateRun.start (now : Timeval) (rest : GroupRest) : RateRun where
  gstats := ⟨{ rest with
    probesSent := 0
    probesSentAtLastWait := 0
    numProbesActive := 0
    lastrcvd := now
    lastpingSent := now
    lastpingSentNumprobes := 0
    pinghost := none }, now, now⟩
  now := now
  phase := .idle
  log := []
  largest := 0

def rateEngine (o : RateOptions) (start : Timeval) : Machine RateRun RateEvent where
  init s := ∃ rest, s = .start start rest
  step := RateRun.step o

/-- How many packets were recorded up to a time? -/
def RateRun.recorded (s : RateRun) (t : Timeval) : Nat :=
  countUpTo (s.log.map Timeval.micros) t.micros

/-! ## The schedule -/

variable {o : RateOptions} {start : Timeval} {s s' : RateRun}

theorem probeSent_earliest (limited : o.maxPacketSendRate ≠ 0) (now : Timeval)
    (g : GroupScanStats) : (g.probeSent o now).sendNoEarlierThan.micros =
      g.sendNoEarlierThan.micros + rateAdd o.maxPacketSendRate := by
  rw [GroupScanStats.probeSent, if_pos limited]
  dsimp only
  split <;> exact Timeval.add_micros ..

theorem probeSents_earliest (limited : o.maxPacketSendRate ≠ 0) (now : Timeval) (n : Nat) :
    ∀ g : GroupScanStats, (probeSents o now n g).sendNoEarlierThan.micros =
      g.sendNoEarlierThan.micros + n * rateAdd o.maxPacketSendRate := by
  induction n with
  | zero =>
    intro g
    simp [probeSents]
  | succ n ih =>
    intro g
    rw [probeSents, ih, probeSent_earliest limited, Nat.succ_mul]
    omega

theorem sendOK_earliest (limited : o.maxPacketSendRate ≠ 0) {now : Timeval} {view : GroupView}
    {g : GroupScanStats} (ok : g.sendOK o now view = true) :
    g.sendNoEarlierThan.micros ≤ now.micros := by
  by_contra early
  have later : g.sendNoEarlierThan.after now = true :=
    (Timeval.after_iff _ _).mpr (Nat.lt_of_not_le early)
  unfold GroupScanStats.sendOK at ok
  simp [limited, later] at ok

/-- The schedule counts all packets, and all packets are paced. -/
structure RateRun.Kept (o : RateOptions) (start : Timeval) (s : RateRun) : Prop where
  schedule : s.gstats.sendNoEarlierThan.micros =
    start.micros + s.log.length * rateAdd o.maxPacketSendRate
  paced : Paced start.micros (rateAdd o.maxPacketSendRate) s.largest (s.log.map Timeval.micros)

/-- The time at which the packets of a probe are recorded -/
def recordTime (pspec : ProbeSpec) (sending : Sending) (s : RateRun) : Timeval :=
  if pspec.type = .arp then sending.before else s.now

theorem sendProbe_earliest (pspec : ProbeSpec) (sending : Sending) :
    (sendProbe o pspec sending s).gstats.sendNoEarlierThan =
      (probeSents o (recordTime pspec sending s) (numPackets o pspec)
        s.gstats).sendNoEarlierThan := by
  unfold sendProbe
  dsimp only
  split <;> rfl

theorem le_recordTime (pspec : ProbeSpec) {sending : Sending} (forward : sending.Forward s.now) :
    s.now.micros ≤ (recordTime pspec sending s).micros := by
  unfold recordTime
  split
  · exact forward.1
  · exact Nat.le_refl _

theorem RateRun.Kept.sendProbe (limited : o.maxPacketSendRate ≠ 0) (kept : s.Kept o start)
    (due : s.gstats.sendNoEarlierThan.micros ≤ s.now.micros) {sending : Sending}
    (forward : sending.Forward s.now) (pspec : ProbeSpec) :
    (sendProbe o pspec sending s).Kept o start := by
  constructor
  · rw [sendProbe_earliest, probeSents_earliest limited, kept.schedule]
    show _ = start.micros + (s.log ++ List.replicate (numPackets o pspec) _).length * _
    rw [length_append, length_replicate, Nat.add_mul, Nat.add_assoc]
  · show Paced _ _ (max s.largest (numPackets o pspec)) (List.map Timeval.micros
      (s.log ++ List.replicate (numPackets o pspec) (recordTime pspec sending s)))
    rw [map_append, map_replicate]
    refine (kept.paced.mono (Nat.le_max_left _ _)).append (Nat.le_max_right _ _) ?_
    rw [length_map, ← kept.schedule]
    exact due.trans (le_recordTime pspec forward)

theorem RateRun.Kept.of_same (kept : s.Kept o start)
    (earliest : s'.gstats.sendNoEarlierThan = s.gstats.sendNoEarlierThan) (log : s'.log = s.log)
    (largest : s'.largest = s.largest) : s'.Kept o start := by
  constructor
  · rw [earliest, log]
    exact kept.schedule
  · rw [log, largest]
    exact kept.paced

/-! ## The turns -/

variable {t : Turn}

theorem loopTurn_kept (limited : o.maxPacketSendRate ≠ 0) (kept : s.Kept o start)
    (forward : t.sending.Forward s.now) (phase : Option Nat → Option Nat → Phase)
    (available : Option ProbeSpec) (hss unableToSend : Option Nat) :
    (loopTurn o phase available t hss unableToSend s).Kept o start := by
  unfold loopTurn
  cases hss with
  | none => exact kept.of_same rfl rfl rfl
  | some host =>
    dsimp only
    split
    · exact kept.of_same rfl rfl rfl
    · next goes =>
        have ok : s.gstats.sendOK o s.now t.view = true := by
          simpa using fun no => goes (.inr no)
        split
        · next pspec _ =>
            have counted : (countProbe s).Kept o start := kept.of_same rfl rfl rfl
            have due : s.gstats.sendNoEarlierThan.micros ≤ s.now.micros :=
              sendOK_earliest limited ok
            exact (counted.sendProbe limited due forward pspec).of_same rfl rfl rfl
        · exact kept.of_same rfl rfl rfl

theorem sendPingProbe_kept (limited : o.maxPacketSendRate ≠ 0) (kept : s.Kept o start)
    (forward : t.sending.Forward s.now) (ok : s.gstats.sendOK o s.now t.view = true) :
    (sendPingProbe o t s).Kept o start :=
  (kept.sendProbe limited (sendOK_earliest limited ok) forward t.host.pingprobe).of_same rfl rfl rfl

theorem hostPingTurn_kept (limited : o.maxPacketSendRate ≠ 0) (kept : s.Kept o start)
    (forward : t.sending.Forward s.now) (left : List Nat) :
    (hostPingTurn o t left s).Kept o start := by
  unfold hostPingTurn
  split
  · exact kept.of_same rfl rfl rfl
  · dsimp only
    split
    · next asked =>
        obtain ⟨-, -, -, -, -, ok, -⟩ := asked
        exact (sendPingProbe_kept limited kept forward ok).of_same rfl rfl rfl
    · exact kept.of_same rfl rfl rfl

theorem globalPingTurn_kept (limited : o.maxPacketSendRate ≠ 0) (kept : s.Kept o start)
    (forward : t.sending.Forward s.now) : (globalPingTurn o t s).Kept o start := by
  unfold globalPingTurn
  dsimp only
  split
  · next asked =>
      obtain ⟨-, -, -, -, -, -, ok⟩ := asked
      exact (sendPingProbe_kept limited kept forward ok).of_same rfl rfl rfl
  · exact kept.of_same rfl rfl rfl

theorem retransmitTurn_kept (limited : o.maxPacketSendRate ≠ 0) (kept : s.Kept o start)
    (forward : t.sending.Forward s.now) (cache left : List Nat) (retrans : Nat) :
    (retransmitTurn o t cache left retrans s).Kept o start := by
  unfold retransmitTurn
  dsimp only
  cases left with
  | nil =>
    dsimp only
    split
    · exact kept.of_same rfl rfl rfl
    · exact kept.of_same rfl rfl rfl
  | cons host left =>
    dsimp only
    split
    · exact kept.of_same rfl rfl rfl
    · next goes =>
        have ok : s.gstats.sendOK o s.now t.view = true := by simpa using goes
        split
        · exact kept.of_same rfl rfl rfl
        · split
          · exact kept.of_same rfl rfl rfl
          · split
            · exact kept.of_same rfl rfl rfl
            · next pspec _ =>
                exact (kept.sendProbe limited (sendOK_earliest limited ok) forward pspec).of_same
                  rfl rfl rfl

/-! ## The run -/

theorem takeTurn_kept (limited : o.maxPacketSendRate ≠ 0) (kept : s.Kept o start)
    (forward : t.sending.Forward s.now) (turn : takeTurn o t s = some s') : s'.Kept o start := by
  unfold takeTurn at turn
  split at turn
  · cases turn
  · cases turn
    exact loopTurn_kept limited kept forward ..
  · cases turn
    exact loopTurn_kept limited kept forward ..
  · cases turn
    exact hostPingTurn_kept limited kept forward _
  · cases turn
    exact globalPingTurn_kept limited kept forward
  · cases turn
    exact retransmitTurn_kept limited kept forward ..

theorem enter_kept (kept : s.Kept o start) {clock : Timeval} {phase : Phase}
    (entered : enter clock phase s = some s') : s'.Kept o start := by
  unfold enter at entered
  split at entered
  · split at entered
    · cases entered
      exact kept.of_same rfl rfl rfl
    · cases entered
  · cases entered

theorem step_kept (limited : o.maxPacketSendRate ≠ 0) (kept : s.Kept o start) {e : RateEvent}
    (stepped : s.step o e = some s') : s'.Kept o start := by
  cases e with
  | doAnyNewProbes clock first => exact enter_kept kept stepped
  | doAnyRetryStackRetransmits clock first => exact enter_kept kept stepped
  | doAnyPings clock incompleteHosts => exact enter_kept kept stepped
  | doAnyOutstandingRetransmits clock cache => exact enter_kept kept stepped
  | turn t =>
    rw [RateRun.step] at stepped
    split at stepped
    · next forward => exact takeTurn_kept limited kept forward stepped
    · cases stepped
  | elsewhere clock rest =>
    obtain ⟨between, entered, rfl⟩ := Option.map_eq_some_iff.mp stepped
    exact (enter_kept kept entered).of_same rfl rfl rfl

theorem start_kept (o : RateOptions) (start : Timeval) (rest : GroupRest) :
    (RateRun.start start rest).Kept o start := by
  constructor
  · show start.micros = start.micros + 0 * _
    rw [Nat.zero_mul, Nat.add_zero]
  · exact Paced.nil _ _ _

theorem kept_inductive (limited : o.maxPacketSendRate ≠ 0) (start : Timeval) :
    (rateEngine o start).sys.Inductive (RateRun.Kept o start) where
  init s := by
    rintro ⟨rest, rfl⟩
    exact start_kept o start rest
  step s s' kept := by
    rintro ⟨e, -, stepped⟩
    exact step_kept limited kept stepped

/-- **The maximum rate is kept.** In every run with a maximum rate and at every time, no more
packets are recorded than there were whole intervals since the start, and the packets of one
probe. An interval of 0, for more than a million packets a second, limits nothing. -/
theorem max_rate_kept (limited : o.maxPacketSendRate ≠ 0)
    (reach : (rateEngine o start).sys.Reachable s) (t : Timeval)
    (whole : 0 < rateAdd o.maxPacketSendRate) :
    s.recorded t ≤ (t.micros - start.micros) / rateAdd o.maxPacketSendRate + s.largest :=
  ((kept_inductive limited start).holds reach).paced.count_le whole t.micros

/-- 100 packets a second, and at least 50, with two decoys -/
def hundredPerSecond : RateOptions where
  maxPacketSendRate := 100
  minPacketSendRate := 50
  nogcc := false
  numdecoys := 3
  udpPayloadCount _ := 0
  connects := false
  pcapRecvTimevalValid := true
  pingScanArp := false
  pingScanNd := false
  numprobes := 1
  pingtime := 1000000

def timeZero : Timeval := ⟨0, 0, Timeval.zero_small⟩

def noRest : GroupRest := ⟨0, 0, timeZero, 0, 0, 10, timeZero, timeZero, 0, none⟩

def synHost : HostView where
  freshPortsLeft := true
  nextProbe := ⟨.tcp, 6, .tcp 80 2⟩
  retryStack := none
  pingprobe := .zero
  sendOK := true
  rldWaiting := false
  numprobesSent := 0
  lastpingSentNumprobes := 0
  lastrcvd := timeZero
  lastpingSent := timeZero
  numProbesActive := 0
  numProbesWaitingRetransmit := 0
  maxTrynoSent := 0
  maxtries := 1
  outstanding := []

/-- One probe is sent, and the next has to wait. -/
def oneProbe : List RateEvent :=
  [.doAnyNewProbes timeZero (some 0),
    .turn ⟨⟨none, 1⟩, synHost, ⟨timeZero, timeZero, none⟩, some 1⟩,
    .turn ⟨⟨none, 1⟩, synHost, ⟨timeZero, timeZero, none⟩, some 2⟩]

theorem max_rate_kept_oneProbe : ∃ s, (rateEngine hundredPerSecond timeZero).run
    (.start timeZero noRest) oneProbe = some s ∧ s.recorded timeZero = 3 ∧
      s.recorded timeZero ≤ (timeZero.micros - timeZero.micros) /
        rateAdd hundredPerSecond.maxPacketSendRate + s.largest := by
  have ran : (rateEngine hundredPerSecond timeZero).run (.start timeZero noRest) oneProbe =
    some _ := rfl
  refine ⟨_, ran, by decide +kernel, ?_⟩
  exact max_rate_kept (by decide) (Machine.run_reachable (.start ⟨noRest, rfl⟩) ran)
    timeZero (by decide +kernel)

end Nmap.ScanEngine
