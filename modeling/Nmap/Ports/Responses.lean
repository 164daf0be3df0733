import Mathlib.Data.List.Induction
import Mathlib.Tactic.SplitIfs
import Nmap.Ports.PortList

/-!
# Responses of a port scan (`scan_engine.cc`, `scan_engine_raw.cc`, `scan_engine_connect.cc`)

How a response that was matched to a probe of a port is interpreted, and how
`ultrascan_port_pspec_update` and its callers write it: the new state is set, put
back where the transition table does not allow the change, and the reason is stored
in either case.
-/

namespace Nmap.Ports

open Function

/-! ## Interpretation -/

/-- The port scans of `scan_type` -/
inductive ScanType
  | ack
  | syn
  | fin
  | xmas
  | null
  | maimon
  | window
  | connect
  | udp
  | sctpInit
  | sctpCookieEcho
  | ipProt
  deriving DecidableEq, Repr

/-- `noresp_open_scan`: no response means that a port is open -/
def ScanType.norespOpenScan : ScanType → Bool
  | .fin | .xmas | .maimon | .null | .udp | .ipProt => true
  | _ => false

/-- `connect_errno` -/
inductive Errno
  | ok
  | eacces
  | econnrefused
  | eagain
  | enoprotoopt
  | ehostunreach
  | etimedout
  | ehostdown
  | enetunreach
  | enonet
  | enetdown
  | enetreset
  | econnaborted
  | other
  deriving DecidableEq, Repr

/-- What `getsockname` says about the socket of an accepted connection -/
inductive Sockname
  | failed
  /-- the probe connected to itself -/
  | self
  | distinct
  deriving DecidableEq, Repr

/-- A response matched to a probe of the port that is no ping. `carried` is set where
the new state is still `PORT_OPEN` from the protocol match of an IP protocol scan when the
ICMP error inside the packet is looked at. -/
inductive Response
  | tcp (flags : UInt8) (win : UInt16)
  | sctp (chunkType : UInt8)
  | udp
  | protocol
  | icmp (icmpType icmpCode : UInt8) (fromTarget carried : Bool)
  | icmpv6 (icmpType icmpCode : UInt8) (fromTarget carried : Bool)
  /-- `protoscanicmphack` -/
  | protoscanIcmp (icmpType icmpCode : UInt8)
  | connect (errno : Errno) (sockname : Sockname)
  deriving DecidableEq, Repr

/-- TCP: the flags, and the window in a window scan -/
def interpretTcp (scan : ScanType) (flags : UInt8) (win : UInt16) :
    Option (PortState × ReasonCode) :=
  if scan = .syn ∧ flags &&& 0x12 = 0x12 then some (.open, .synAck)
  else if flags &&& 0x04 ≠ 0 then
    if scan = .window then some (if win ≠ 0 then .open else .closed, .resetPeer)
    else if scan = .ack then some (.unfiltered, .resetPeer)
    else some (.closed, .resetPeer)
  -- a TCP split handshake
  else if scan = .syn ∧ flags &&& 0x02 ≠ 0 then some (.open, .syn)
  else none

/-- SCTP: `SCTP_INIT_ACK` and `SCTP_ABORT` chunks -/
def interpretSctp (scan : ScanType) (chunkType : UInt8) : Option (PortState × ReasonCode) :=
  if scan = .sctpInit then
    if chunkType = 2 then some (.open, .initAck)
    else if chunkType = 6 then some (.closed, .abort)
    else none
  else if scan = .sctpCookieEcho then
    if chunkType = 6 then some (.closed, .abort) else none
  else none

/-- The state left over when no case of a `switch` sets it. -/
def carriedState (carried : Bool) : PortState := if carried then .open else .unknown

/-- Port unreachable, the same for both versions of ICMP -/
def portUnreachState (scan : ScanType) (fromTarget : Bool) : PortState :=
  if fromTarget ∧ scan = .udp then .closed
  else if fromTarget ∧ scan = .ipProt then .open
  else .filtered

/-- ICMP destination unreachable and time exceeded: the new state -/
def icmpState (scan : ScanType) (icmpType icmpCode : UInt8) (fromTarget carried : Bool) :
    PortState :=
  if icmpType = 3 then
    if icmpCode = 0 ∨ icmpCode = 1 then .filtered
    else if icmpCode = 2 then if scan = .ipProt ∧ fromTarget then .closed else .filtered
    else if icmpCode = 3 then portUnreachState scan fromTarget
    else if icmpCode = 9 ∨ icmpCode = 10 ∨ icmpCode = 13 then .filtered
    else carriedState carried
  else if icmpType = 11 then .filtered
  else .unknown

/-- ICMPv6 destination unreachable and parameter problem: the new state -/
def icmpv6State (scan : ScanType) (icmpType icmpCode : UInt8) (fromTarget carried : Bool) :
    PortState :=
  if icmpType = 1 then
    if icmpCode = 4 then portUnreachState scan fromTarget
    else if icmpCode ≤ 6 then .filtered
    else carriedState carried
  else if icmpType = 4 then
    -- "it was understood, just invalid"
    if icmpCode = 0 then .open
    else if icmpCode = 1 then if fromTarget ∧ scan = .ipProt then .closed else .filtered
    else carriedState carried
  else .unknown

/-- `handleConnectResult`: what is written for a port, if anything -/
def interpretConnect (errno : Errno) (sockname : Sockname) : Option (PortState × ReasonCode) :=
  match errno with
  | .ok =>
    match sockname with
    | .distinct => some (.open, .conAccept)
    -- marked as timed out, or left alone
    | _ => none
  | .eacces => some (.filtered, .adminProhibited)
  | .econnrefused => some (.closed, .conRefused)
  | .enoprotoopt => some (.filtered, .protoUnreach)
  | .ehostunreach => some (.filtered, .hostUnreach)
  | .enetunreach => some (.filtered, .netUnreach)
  | .enonet => some (.filtered, .destUnreach)
  -- `ER_NORESPONSE` only marks the probe as timed out
  | .etimedout | .ehostdown => none
  | .eagain | .enetdown | .enetreset | .econnaborted | .other => none

/-- The interpreted state and the reason of a response; `none` where it is dropped. -/
def interpret (scan : ScanType) : Response → Option (PortState × ReasonCode)
  | .tcp flags win => interpretTcp scan flags win
  | .sctp chunkType => interpretSctp scan chunkType
  | .udp => some (.open, .udpResponse)
  | .protocol => some (.open, .protoResponse)
  | .icmp icmpType icmpCode fromTarget carried =>
    match icmpState scan icmpType icmpCode fromTarget carried with
    | .unknown => none
    | state => some (state, icmpv4ToReason icmpType icmpCode)
  | .icmpv6 icmpType icmpCode fromTarget carried =>
    match icmpv6State scan icmpType icmpCode fromTarget carried with
    | .unknown => none
    | state => some (state, icmpv6ToReason icmpType icmpCode)
  | .protoscanIcmp icmpType icmpCode =>
    some (.open, if icmpCode = 0 ∧ icmpType = 0 then .echoReply
      else icmpv4ToReason icmpType icmpCode)
  | .connect errno sockname => interpretConnect errno sockname

/-! ## Updates -/

/-- `ultrascan_port_pspec_update`: the ports and whether the port was new or changed.
Unexpected states are fatal. -/
def ultrascanPortPspecUpdate (norespOpenScan : Bool) (pl : PortList) (key : PortKey)
    (newstate : PortState) : Option (PortList × Bool) := do
  let (pl, oldstate) ← pl.setPortState key newstate
  let revert := do
    let (pl, _) ← pl.setPortState key oldstate
    return pl
  if newstate ≠ oldstate then
    let pl ← match oldstate with
      | .testing => some pl
      | .open => if !norespOpenScan then revert else some pl
      | .closed => if norespOpenScan || newstate = .filtered then revert else some pl
      | .filtered => if norespOpenScan && newstate = .open then revert else some pl
      | .unfiltered => if newstate ≠ .open && newstate ≠ .closed then revert else some pl
      | .openFiltered => some pl
      | _ => none
    return (pl, true)
  else return (pl, false)

/-- A response for a port, with the time to live and the sender stored with its reason. -/
structure PortResponse where
  key : PortKey
  response : Response
  ttl : UInt8
  sender : ReasonAddr
  deriving DecidableEq, Repr

/-- The end of `get_pcap_result` and of `handleConnectResult`: the state is updated,
then the reason is stored. -/
def processResponse (scan : ScanType) (pl : PortList) (r : PortResponse) : Option PortList :=
  match interpret scan r.response with
  | none => some pl
  | some (newstate, reason) => do
    let (pl, _) ← ultrascanPortPspecUpdate scan.norespOpenScan pl r.key newstate
    return pl.setStateReason r.key reason r.ttl r.sender

/-- A port list at the start of a scan. -/
def PortList.start (defaultPortState : Proto → PortState) (stateCounts : Proto → PortState → Int) :
    PortList :=
  ⟨fun _ => none, defaultPortState, stateCounts⟩

/-- Responses processed one after the other. -/
def processResponses (scan : ScanType) (pl : PortList) (rs : List PortResponse) :
    Option PortList :=
  rs.foldlM (processResponse scan) pl

/-! ## What an update does -/

/-- The changes `ultrascan_port_pspec_update` takes back. -/
def reverts (norespOpenScan : Bool) (oldstate newstate : PortState) : Bool :=
  match oldstate with
  | .open => newstate ≠ .open && !norespOpenScan
  | .closed => newstate ≠ .closed && (norespOpenScan || newstate = .filtered)
  | .filtered => norespOpenScan && newstate = .open
  | .unfiltered => newstate ≠ .unfiltered && newstate ≠ .open && newstate ≠ .closed
  | _ => false

/-- The state a port ends up with, given the one it had. -/
def settledState (norespOpenScan : Bool) (old : Option PortState) (newstate : PortState) :
    PortState :=
  match old with
  | none => newstate
  | some oldstate => if reverts norespOpenScan oldstate newstate then oldstate else newstate

/-- The states responses are interpreted as. -/
def Answered (state : PortState) : Prop :=
  state = .open ∨ state = .closed ∨ state = .filtered ∨ state = .unfiltered

variable {state : PortState}

theorem Answered.legal (h : Answered state) :
    PortList.legalState state = true := by
  rcases h with rfl | rfl | rfl | rfl <;> rfl

variable {scan : ScanType}

theorem icmpState_answered {icmpType icmpCode : UInt8} {fromTarget carried : Bool}
    (known : icmpState scan icmpType icmpCode fromTarget carried ≠ .unknown) :
    Answered (icmpState scan icmpType icmpCode fromTarget carried) := by
  revert known
  simp only [icmpState, portUnreachState, carriedState, Answered]
  split_ifs <;> simp

theorem icmpv6State_answered {icmpType icmpCode : UInt8} {fromTarget carried : Bool}
    (known : icmpv6State scan icmpType icmpCode fromTarget carried ≠ .unknown) :
    Answered (icmpv6State scan icmpType icmpCode fromTarget carried) := by
  revert known
  simp only [icmpv6State, portUnreachState, carriedState, Answered]
  split_ifs <;> simp

variable {reason : ReasonCode}

theorem interpret_answered {response : Response}
    (h : interpret scan response = some (state, reason)) :
    Answered state := by
  cases response with
  | tcp flags win =>
    simp only [interpret, interpretTcp] at h
    split_ifs at h <;> cases h <;> simp [Answered]
  | sctp chunkType =>
    simp only [interpret, interpretSctp] at h
    split_ifs at h <;> cases h <;> simp [Answered]
  | udp => cases h; exact Or.inl rfl
  | protocol => cases h; exact Or.inl rfl
  | icmp icmpType icmpCode fromTarget carried =>
    simp only [interpret] at h
    split at h
    · cases h
    · rename_i known
      cases h
      exact icmpState_answered known
  | icmpv6 icmpType icmpCode fromTarget carried =>
    simp only [interpret] at h
    split at h
    · cases h
    · rename_i known
      cases h
      exact icmpv6State_answered known
  | protoscanIcmp icmpType icmpCode => cases h; exact Or.inl rfl
  | connect errno sockname =>
    cases errno with
    | ok => cases sockname <;> cases h; exact Or.inl rfl
    | econnrefused => cases h; exact Or.inr (Or.inl rfl)
    | eacces | enoprotoopt | ehostunreach | enetunreach | enonet =>
      cases h; exact Or.inr (Or.inr (Or.inl rfl))
    | _ => cases h

variable {newstate : PortState}

theorem reverts_ne {norespOpenScan : Bool} {oldstate : PortState}
    (h : reverts norespOpenScan oldstate newstate = true) : oldstate ≠ newstate := by
  rintro rfl
  cases oldstate <;> simp [reverts] at h

/-- Every port was set to an interpreted state. -/
def PortList.Scanned (pl : PortList) : Prop :=
  ∀ key state, pl.state? key = some state → Answered state

variable {pl : PortList}

/-- The new state is written, or the old one again. -/
theorem ultrascanPortPspecUpdate_spec (norespOpenScan : Bool) {key : PortKey}
    (scanned : ∀ state, pl.state? key = some state → Answered state)
    (answered : Answered newstate) :
    ∃ pl' changed port, ultrascanPortPspecUpdate norespOpenScan pl key newstate =
        some (pl', changed) ∧ pl'.ports = update pl.ports key (some port) ∧
      port.state = settledState norespOpenScan (pl.state? key) newstate := by
  obtain ⟨⟨pl1, oldstate⟩, h1⟩ :=
    Option.isSome_iff_exists.mp (pl.setPortState_isSome key answered.legal)
  obtain ⟨⟨port1, hports1, hstate1⟩, hold, -⟩ := PortList.setPortState_ports h1
  -- the old state, put back
  have again : ∀ oldstate, Answered oldstate → ∃ pl2 old2 port2,
      pl1.setPortState key oldstate = some (pl2, old2) ∧
        pl2.ports = update pl.ports key (some port2) ∧ port2.state = oldstate := by
    intro oldstate hanswered
    obtain ⟨⟨pl2, old2⟩, h2⟩ :=
      Option.isSome_iff_exists.mp (pl1.setPortState_isSome key hanswered.legal)
    obtain ⟨⟨port2, hports2, hstate2⟩, -, -⟩ := PortList.setPortState_ports h2
    refine ⟨pl2, old2, port2, h2, ?_, hstate2⟩
    rw [hports2, hports1, update_idem]
  rw [ultrascanPortPspecUpdate, h1]
  cases hkey : pl.state? key with
  | none =>
    rw [hkey] at hold
    cases hold
    refine ⟨pl1, true, port1, ?_, hports1, hstate1⟩
    rcases answered with rfl | rfl | rfl | rfl <;> rfl
  | some old =>
    rw [hkey] at hold
    have hold' : oldstate = old := hold
    subst hold'
    have hanswered := scanned oldstate hkey
    obtain ⟨pl2, old2, port2, h2, hports2, hstate2⟩ := again oldstate hanswered
    by_cases hrev : reverts norespOpenScan oldstate newstate = true
    · refine ⟨pl2, true, port2, ?_, hports2, by simpa [settledState, hrev] using hstate2⟩
      rcases hanswered with rfl | rfl | rfl | rfl <;>
        rcases answered with rfl | rfl | rfl | rfl <;>
        cases norespOpenScan <;>
        first
        | (cases hrev; done)
        | simp [h2]
    · refine ⟨pl1, decide (newstate ≠ oldstate), port1, ?_, hports1,
        by simpa [settledState, hrev] using hstate1⟩
      rcases hanswered with rfl | rfl | rfl | rfl <;>
        rcases answered with rfl | rfl | rfl | rfl <;>
        cases norespOpenScan <;>
        first
        | rfl
        | exact absurd rfl hrev

/-! ## Runs -/

/-- A response to this port was interpreted as this state, with this reason. -/
def Heard (scan : ScanType) (rs : List PortResponse) (key : PortKey) (state : PortState)
    (reason : ReasonCode) : Prop :=
  ∃ r ∈ rs, r.key = key ∧ interpret scan r.response = some (state, reason)

/-- State and reason of every port come from one response. -/
def Agree (scan : ScanType) (rs : List PortResponse) (pl : PortList) : Prop :=
  ∀ key port, pl.ports key = some port → Heard scan rs key port.state port.reason.reasonId

/-- A response whose state is put back has the reason of an earlier response that was
interpreted as the state that stays. -/
def RevertsKnown (scan : ScanType) (rs : List PortResponse) (pl : PortList) (r : PortResponse) :
    Prop :=
  ∀ oldstate newstate reason, pl.state? r.key = some oldstate →
    interpret scan r.response = some (newstate, reason) →
    reverts scan.norespOpenScan oldstate newstate = true → Heard scan rs r.key oldstate reason

theorem Heard.mono {rs : List PortResponse} {key : PortKey} (h : Heard scan rs key state reason)
    (more : List PortResponse) :
    Heard scan (rs ++ more) key state reason := by
  obtain ⟨r, hr, hkey, hinterpret⟩ := h
  exact ⟨r, List.mem_append_left _ hr, hkey, hinterpret⟩

theorem processResponse_spec (scanned : pl.Scanned) {r : PortResponse}
    (hinterpret : interpret scan r.response = some (newstate, reason)) :
    ∃ pl' port, processResponse scan pl r = some pl' ∧
      pl'.ports = update pl.ports r.key (some port) ∧ port.reason.reasonId = reason ∧
      port.state = settledState scan.norespOpenScan (pl.state? r.key) newstate := by
  have answered := interpret_answered hinterpret
  obtain ⟨pl1, changed, port1, hupdate, hports, hstate⟩ :=
    ultrascanPortPspecUpdate_spec scan.norespOpenScan (scanned r.key) answered
  obtain ⟨port2, hports2, hreason, hsame⟩ :=
    pl1.setStateReason_ports r.key reason r.ttl r.sender
  refine ⟨pl1.setStateReason r.key reason r.ttl r.sender, port2, ?_, ?_, hreason, ?_⟩
  · rw [processResponse, hinterpret]
    simp only [hupdate]
    rfl
  · rw [hports2, hports, update_idem]
  · rw [hsame port1.state (by simp [PortList.state?, hports]), hstate]

theorem PortList.Scanned.settled {pl pl' : PortList} (scanned : pl.Scanned) {key : PortKey}
    {port : Port} {norespOpenScan : Bool} {newstate : PortState} (answered : Answered newstate)
    (updated : pl'.ports = update pl.ports key (some port))
    (settled : port.state = settledState norespOpenScan (pl.state? key) newstate) :
    pl'.Scanned := by
  intro key' state hkey
  by_cases hsame : key' = key
  · subst hsame
    have hport : port.state = state := by simpa [PortList.state?, updated] using hkey
    rw [← hport, settled]
    cases hold : pl.state? key' with
    | none => exact answered
    | some oldstate =>
      rw [settledState]
      split
      · exact scanned _ _ hold
      · exact answered
  · apply scanned key' state
    simpa [PortList.state?, updated, hsame] using hkey

theorem processResponse_scanned (scan : ScanType) (scanned : pl.Scanned) (r : PortResponse) :
    ∃ pl', processResponse scan pl r = some pl' ∧ pl'.Scanned := by
  cases hinterpret : interpret scan r.response with
  | none => exact ⟨pl, by rw [processResponse, hinterpret], scanned⟩
  | some p =>
    obtain ⟨newstate, reason⟩ := p
    obtain ⟨pl', port, hprocess, hports, -, hstate⟩ := processResponse_spec scanned hinterpret
    exact ⟨pl', hprocess, scanned.settled (interpret_answered hinterpret) hports hstate⟩

theorem processResponses_concat (scan : ScanType) (pl : PortList) (rs : List PortResponse)
    (r : PortResponse) : processResponses scan pl (rs ++ [r]) =
      (processResponses scan pl rs).bind fun pl => processResponse scan pl r := by
  simp [processResponses, List.foldlM_append]

section Run

variable (scan : ScanType) (defaultPortState : Proto → PortState)
  (stateCounts : Proto → PortState → Int)

theorem processResponses_scanned (rs : List PortResponse) :
    ∃ pl, processResponses scan (.start defaultPortState stateCounts) rs = some pl ∧
      pl.Scanned := by
  induction rs using List.reverseRecOn with
  | nil => exact ⟨_, rfl, by intro key state h; cases h⟩
  | append_singleton rs r ih =>
    obtain ⟨pl, hpl, scanned⟩ := ih
    obtain ⟨pl', hpl', scanned'⟩ := processResponse_scanned scan scanned r
    exact ⟨pl', by rw [processResponses_concat, hpl]; exact hpl', scanned'⟩

/-- One response keeps state and reason together exactly if it is not put back, or known. -/
theorem processResponse_agree_iff {scan : ScanType} {rs : List PortResponse} {pl pl' : PortList}
    (scanned : pl.Scanned) (agree : Agree scan rs pl) {r : PortResponse}
    (h : processResponse scan pl r = some pl') :
    Agree scan (rs ++ [r]) pl' ↔ RevertsKnown scan rs pl r := by
  cases hinterpret : interpret scan r.response with
  | none =>
    rw [processResponse, hinterpret] at h
    cases h
    constructor
    · intro _ oldstate newstate reason _ hsome
      rw [hinterpret] at hsome
      cases hsome
    · intro _ key port hport
      exact (agree key port hport).mono [r]
  | some p =>
    obtain ⟨newstate, reason⟩ := p
    obtain ⟨pl1, port1, hprocess, hports, hreason, hstate⟩ :=
      processResponse_spec scanned hinterpret
    rw [h] at hprocess
    cases hprocess
    constructor
    · intro agree' oldstate newstate' reason' hold hsome hrev
      rw [hinterpret] at hsome
      cases hsome
      rw [hold] at hstate
      simp only [settledState, hrev, if_true] at hstate
      obtain ⟨r', hr', hkey, hinterpret'⟩ := agree' r.key port1 (by simp [hports])
      rw [hstate, hreason] at hinterpret'
      rcases List.mem_append.mp hr' with hr' | hr'
      · exact ⟨r', hr', hkey, hinterpret'⟩
      · rw [List.mem_singleton.mp hr', hinterpret] at hinterpret'
        cases hinterpret'
        exact absurd rfl (reverts_ne hrev)
    · intro known key port hport
      by_cases hkey : key = r.key
      · subst hkey
        have hsame : port1 = port := by simpa [hports] using hport
        subst hsame
        have this : Heard scan (rs ++ [r]) r.key newstate reason :=
          ⟨r, by simp, rfl, hinterpret⟩
        rw [hstate, hreason]
        cases hold : pl.state? r.key with
        | none => exact this
        | some oldstate =>
          rw [settledState]
          split
          · rename_i hrev
            exact (known oldstate newstate reason hold hinterpret hrev).mono [r]
          · exact this
      · have hold : pl.ports key = some port := by simpa [hports, hkey] using hport
        exact (agree key port hold).mono [r]

/-- State and reason agree after every response of a run exactly if no response is put
back whose reason no earlier response gave to the state that stays. -/
theorem state_and_reason_agree_iff (rs : List PortResponse) :
    (∀ earlier later, rs = earlier ++ later →
      ∃ pl, processResponses scan (.start defaultPortState stateCounts) earlier = some pl ∧
        Agree scan earlier pl) ↔
    ∀ earlier r later, rs = earlier ++ r :: later →
      ∃ pl, processResponses scan (.start defaultPortState stateCounts) earlier = some pl ∧
        RevertsKnown scan earlier pl r := by
  constructor
  · intro h earlier r later hrs
    obtain ⟨pl, hpl, agree⟩ := h earlier (r :: later) hrs
    obtain ⟨pl', hpl', agree'⟩ := h (earlier ++ [r]) later (by simp [hrs])
    refine ⟨pl, hpl, ?_⟩
    obtain ⟨pl1, hpl1, scanned⟩ :=
      processResponses_scanned scan defaultPortState stateCounts earlier
    rw [hpl] at hpl1
    cases hpl1
    rw [processResponses_concat, hpl] at hpl'
    exact (processResponse_agree_iff scanned agree hpl').mp agree'
  · intro h earlier
    induction earlier using List.reverseRecOn with
    | nil =>
      intro later _
      exact ⟨_, rfl, by intro key port hport; cases hport⟩
    | append_singleton earlier r ih =>
      intro later hrs
      have hrs' : rs = earlier ++ r :: later := by simp [hrs]
      obtain ⟨pl, hpl, agree⟩ := ih (r :: later) hrs'
      obtain ⟨pl1, hpl1, known⟩ := h earlier r later hrs'
      obtain ⟨pl2, hpl2, scanned⟩ :=
        processResponses_scanned scan defaultPortState stateCounts earlier
      rw [hpl] at hpl1 hpl2
      cases hpl1
      cases hpl2
      obtain ⟨pl', hpl', -⟩ := processResponse_scanned scan scanned r
      refine ⟨pl', by rw [processResponses_concat, hpl]; exact hpl', ?_⟩
      exact (processResponse_agree_iff scanned agree hpl').mpr known

end Run

/-- A SYN scan that gets a SYN/ACK for the first try of a port and a RST for the second:
the port stays open, with the reason of the RST. -/
theorem open_port_with_reset_reason :
    ∃ pl, processResponses .syn (.start (fun _ => .filtered) fun _ _ => 0)
        [⟨⟨80, .tcp⟩, .tcp 0x12 0, 64, .unspec⟩, ⟨⟨80, .tcp⟩, .tcp 0x14 0, 64, .unspec⟩] = some pl ∧
      ¬ Agree .syn [⟨⟨80, .tcp⟩, .tcp 0x12 0, 64, .unspec⟩, ⟨⟨80, .tcp⟩, .tcp 0x14 0, 64, .unspec⟩]
        pl := by
  refine ⟨_, rfl, ?_⟩
  intro agree
  obtain ⟨r, hr, -, hinterpret⟩ := agree ⟨80, .tcp⟩ ⟨.open, ⟨.resetPeer, none, 64⟩⟩ rfl
  have facts : ∀ r ∈ [(⟨⟨80, .tcp⟩, .tcp 0x12 0, 64, .unspec⟩ : PortResponse),
      ⟨⟨80, .tcp⟩, .tcp 0x14 0, 64, .unspec⟩],
      interpret .syn r.response ≠ some (.open, .resetPeer) := by decide
  exact facts r hr hinterpret

end Nmap.Ports
