import Nmap.Base.Attempts
import Nmap.ScanEngine.HostTries

/-!
# The bound on retransmissions (`scan_engine.cc`)

The probes of a host are attempts: a port or a kind of ping is due until it is probed first, and
its last probe is open while it is outstanding, on the bench or on the retry stack. As long as try
numbers fit into their 7 bits, every event of a scan is made of steps of `Attempts`.
-/

namespace Nmap.ScanEngine

open Nmap.Base List
open Nmap.Ports (Errno Sockname PortState PortKey)

/-! ## What is left of the probes -/

/-- Whatever is returned satisfies `post`. -/
abbrev Returns {α : Type} (post : α → Prop) (r : Except Failure α) : Prop :=
  Meets (fun _ => True) post r

/-- What of a probe decides over its retransmission -/
structure ProbeMark where
  addr : Nat
  type : UPType
  pspec : ProbeSpec
  tryno : Tryno
  retransmitted : Bool

def UltraProbe.mark (probe : UltraProbe) : ProbeMark :=
  ⟨probe.addr, probe.type, probe.pspec, probe.tryno, probe.retransmitted⟩

/-- The marks of the outstanding probes -/
def HostScanStats.marks (hss : HostScanStats) : List ProbeMark :=
  hss.probesOutstanding.map UltraProbe.mark

/-- Only probes have gone, and none was marked as retransmitted. -/
structure Fewer (hss hss' : HostScanStats) : Prop where
  marks : hss'.marks.Sublist hss.marks
  bench : hss'.probeBench = hss.probeBench
  stack : hss'.retryStack = hss.retryStack
  supply : hss'.supply = hss.supply

theorem Fewer.refl (hss : HostScanStats) : Fewer hss hss := ⟨.refl _, rfl, rfl, rfl⟩

theorem Fewer.trans {a b c : HostScanStats} (first : Fewer a b) (second : Fewer b c) :
    Fewer a c where
  marks := second.marks.trans first.marks
  bench := second.bench.trans first.bench
  stack := second.stack.trans first.stack
  supply := second.supply.trans first.supply

/-- The outstanding probes have become others. -/
structure Becomes (hss : HostScanStats) (probes : List UltraProbe) (hss' : HostScanStats) :
    Prop where
  probes : hss'.probesOutstanding = probes
  bench : hss'.probeBench = hss.probeBench
  stack : hss'.retryStack = hss.retryStack
  supply : hss'.supply = hss.supply

theorem Becomes.fewer {hss hss' : HostScanStats} {probes : List UltraProbe}
    (becomes : Becomes hss probes hss')
    (marks : (probes.map UltraProbe.mark).Sublist hss.marks) : Fewer hss hss' where
  marks := by
    rw [HostScanStats.marks, becomes.probes]
    exact marks
  bench := becomes.bench
  stack := becomes.stack
  supply := becomes.supply

theorem Returns.bind_any {α β : Type} {post : β → Prop} {x : Except Failure α}
    {f : α → Except Failure β} (rest : ∀ a, Returns post (f a)) : Returns post (x >>= f) := by
  cases x with
  | ok a => exact rest a
  | error failure => trivial

theorem writeProbe_marks {f : UltraProbe → UltraProbe} (same : ∀ probe, (f probe).mark = probe.mark)
    (probes : List UltraProbe) (addr : Nat) :
    (writeProbe probes addr f).map UltraProbe.mark = probes.map UltraProbe.mark := by
  rw [writeProbe, map_map]
  apply map_congr_left
  intro probe _
  show (if probe.addr = addr then f probe else probe).mark = probe.mark
  split
  · exact same probe
  · rfl

section Handlers

variable (cfg : Config) (hss : HostScanStats) (g : GroupProbes) (probe : UltraProbe)

theorem destroy_becomes : Returns
    (fun s : HostScanStats × GroupProbes =>
      Becomes hss (hss.probesOutstanding.erase probe) s.1)
    (destroyOutstandingProbe hss g probe) := by
  rw [destroyOutstandingProbe]
  split
  · trivial
  · apply Returns.bind_any
    intro active
    apply Returns.bind_any
    intro waiting
    apply Returns.bind_any
    intro csi
    exact ⟨rfl, rfl, rfl, rfl⟩

theorem mark_becomes : Returns
    (fun s : HostScanStats × GroupProbes =>
      Becomes hss (writeProbe hss.probesOutstanding probe.addr UltraProbe.expire) s.1)
    (markProbeTimedout hss g probe) := by
  rw [markProbeTimedout]
  split
  · trivial
  · apply Returns.bind_any
    intro active
    apply Returns.bind_any
    intro csi
    exact ⟨rfl, rfl, rfl, rfl⟩

theorem destroy_fewer : Returns (fun s : HostScanStats × GroupProbes => Fewer hss s.1)
    (destroyOutstandingProbe hss g probe) :=
  (destroy_becomes hss g probe).mono fun _ becomes =>
    becomes.fewer (erase_sublist.map UltraProbe.mark)

theorem mark_fewer : Returns (fun s : HostScanStats × GroupProbes => Fewer hss s.1)
    (markProbeTimedout hss g probe) :=
  (mark_becomes hss g probe).mono fun _ becomes => becomes.fewer (by
    rw [writeProbe_marks (f := UltraProbe.expire) fun _ => rfl]
    exact .refl _)

theorem destroyAll_fewer : Returns (fun s : HostScanStats × GroupProbes => Fewer hss s.1)
    (destroyAllOutstandingProbes hss g) := by
  refine Meets.foldlM ?_ ?_
  · exact Fewer.refl hss
  intro s fewer probe _
  exact (destroy_fewer s.1 s.2 probe).mono fun _ => fewer.trans

theorem changePingprobe_fewer (adjustPing : Bool) (pspec : ProbeSpec) (state : PortState) :
    Fewer hss (hss.changePingprobe cfg adjustPing pspec state) := by
  rw [HostScanStats.changePingprobe]
  split
  · exact ⟨.refl _, rfl, rfl, rfl⟩
  · exact .refl hss

theorem hostPspecUpdate_fewer (newstate : HostState) :
    Fewer hss (ultrascanHostPspecUpdate hss newstate) := by
  rw [ultrascanHostPspecUpdate]
  split
  · exact ⟨.refl _, rfl, rfl, rfl⟩
  · exact .refl hss

theorem hostProbeUpdate_fewer (newstate : HostState) (adjustTimingHint : Bool) :
    Returns (fun s : HostScanStats × GroupProbes => Fewer hss s.1)
      (ultrascanHostProbeUpdate cfg hss g probe newstate adjustTimingHint) :=
  (destroy_fewer _ g probe).mono fun _ =>
    ((hostPspecUpdate_fewer hss newstate).trans (changePingprobe_fewer cfg _ _ _ _)).trans

theorem portProbeUpdate_fewer (newstate : PortState) (adjustTimingHint : Bool) :
    Returns (fun s : HostScanStats × GroupProbes => Fewer hss s.1)
      (ultrascanPortProbeUpdate cfg hss g probe newstate adjustTimingHint) := by
  rw [ultrascanPortProbeUpdate]
  apply Returns.bind_any
  intro ports
  have other : Fewer hss { hss with ports := ports } := ⟨.refl _, rfl, rfl, rfl⟩
  exact (destroy_fewer _ g probe).mono fun _ =>
    (other.trans (changePingprobe_fewer cfg _ _ _ _)).trans

theorem updatePort_fewer (newstate : PortState) (reason : Ports.ReasonCode) :
    Returns (fun s : HostScanStats × GroupProbes => Fewer hss s.1)
      (updatePortWithReason cfg hss g probe newstate reason) := by
  apply Meets.bind (portProbeUpdate_fewer cfg hss g probe newstate true)
  intro s fewer
  exact fewer.trans ⟨.refl _, rfl, rfl, rfl⟩

theorem handleConnectResult_fewer (errno : Errno) (sockname : Sockname) (destroyProbe : Bool) :
    Returns (fun s : HostScanStats × GroupProbes => Fewer hss s.1)
      (handleConnectResult cfg hss g probe errno sockname destroyProbe) := by
  apply Returns.bind_any
  rintro ⟨newhoststate, newportstate, reason⟩
  dsimp only
  split
  · exact mark_fewer hss g probe
  split
  · exact destroy_fewer hss g probe
  split
  · apply Meets.bind (hostProbeUpdate_fewer cfg hss g probe newhoststate true)
    intro s fewer
    have updated : Fewer hss { s.1 with reason := { s.1.reason with reasonId := reason } } :=
      fewer.trans ⟨.refl _, rfl, rfl, rfl⟩
    split
    · exact (destroyAll_fewer _ s.2).mono fun _ => updated.trans
    · exact updated
  split
  · split
    · cases sockname with
      | self => exact mark_fewer hss g probe
      | distinct => exact updatePort_fewer cfg hss g probe newportstate reason
      | failed => exact Fewer.refl hss
    · exact updatePort_fewer cfg hss g probe newportstate reason
  split
  · exact destroy_fewer hss g probe
  · exact Fewer.refl hss

end Handlers

/-! ## Sending -/

/-- A `probespec` that a probe has when it is sent for itself -/
def Sendable (pspec : ProbeSpec) : Prop := sentSpec pspec.type.upType pspec = pspec

/-- A new probe of a host, on its way -/
structure NewProbe (call : ProbeCall) (upType : UPType) (source : ProbeSpec) (tryno : Tryno)
    (probe : UltraProbe) : Prop where
  addr : probe.addr = call.addr
  type : probe.type = upType
  pspec : probe.pspec = sentSpec upType source
  kind : upType = (sentSpec upType source).type.upType
  sendable : Sendable (sentSpec upType source)
  tryno : probe.tryno = tryno
  first : probe.retransmitted = false

/-- A new probe was added, and then some probes may have gone. -/
def Sent (call : ProbeCall) (type : UPType) (pspec : ProbeSpec) (tryno : Tryno)
    (hss hss' : HostScanStats) : Prop :=
  ∃ probe, NewProbe call type pspec tryno probe ∧ Fewer (hss.addProbe probe) hss'

section Sending

variable (cfg : Config) (call : ProbeCall) (hss : HostScanStats) (g : GroupProbes)
  (pspec : ProbeSpec) (tryno : Tryno)

theorem addRawProbe_sent {type : UPType} (kind : type = (sentSpec type pspec).type.upType)
    (sendable : Sendable (sentSpec type pspec)) :
    Sent call type pspec tryno hss
      (addRawProbe hss g (rawProbe type (sentSpec type pspec) tryno call)).1 :=
  ⟨rawProbe type (sentSpec type pspec) tryno call, ⟨rfl, rfl, rfl, kind, sendable, rfl, rfl⟩,
    .refl _⟩

theorem sendIPScanProbe_sent :
    Returns (fun r : HostScanStats × GroupProbes × Option Nat =>
        pspec.type.upType = .ip ∧ Sent call .ip pspec tryno hss r.1)
      (sendIPScanProbe cfg call hss g pspec tryno) := by
  have added : .ip = pspec.type.upType →
      Sent call .ip pspec tryno hss (addRawProbe hss g (rawProbe .ip pspec tryno call)).1 := by
    intro kind
    apply addRawProbe_sent call hss g pspec tryno kind
    show sentSpec pspec.type.upType pspec = pspec
    rw [← kind]
    rfl
  rw [sendIPScanProbe]
  cases type : pspec.type with
  | tcp =>
    show Returns _ (if _ then _ else _)
    split
    · trivial
    · exact ⟨rfl, added (by rw [type]; rfl)⟩
  | udp | sctp | proto | icmp | icmpv6 => exact ⟨rfl, added (by rw [type]; rfl)⟩
  | none | arp | nd | connectTcp => trivial

theorem sendConnectScanProbe_sent :
    Returns (fun r : HostScanStats × GroupProbes × Option Nat =>
        Sent call .connect pspec tryno hss r.1)
      (sendConnectScanProbe cfg hss g pspec.unionDport tryno call.toConnectCall) := by
  rw [sendConnectScanProbe]
  split
  · trivial
  · have new : NewProbe call .connect pspec tryno
        (connectProbe call.addr pspec.unionDport tryno call.now g.csi.nextSD) :=
      ⟨rfl, rfl, rfl, rfl, rfl, rfl, rfl⟩
    dsimp only
    split
    · apply Returns.bind_any
      intro csi
      exact ⟨_, new, .refl _⟩
    · split
      · exact ⟨_, new, .refl _⟩
      · apply Meets.bind (handleConnectResult_fewer cfg _ _ _ _ call.sockname true)
        intro s fewer
        exact ⟨_, new, fewer⟩

theorem sendAgain_sent {probe : UltraProbe} :
    Returns (fun r : HostScanStats × GroupProbes × Option Nat =>
        Sent call probe.type probe.pspec tryno hss r.1)
      (sendAgain cfg (rawSenders cfg call) hss g probe tryno call.toConnectCall) := by
  rw [sendAgain]
  cases probe.type with
  | unset => trivial
  | arp => exact addRawProbe_sent call hss g probe.pspec tryno rfl rfl
  | nd => exact addRawProbe_sent call hss g probe.pspec tryno rfl rfl
  | connect => exact sendConnectScanProbe_sent cfg call hss g probe.pspec tryno
  | ip =>
    show Returns _ (if _ then _ else _)
    split
    · exact (sendIPScanProbe_sent cfg call hss g probe.pspec tryno).mono fun _ => And.right
    · trivial

end Sending

/-- The numbers of tries that are not known from the probes -/
structure SameTries (h h' : HostTries) : Prop where
  benchTryno : h'.benchTryno = h.benchTryno
  retryStackTries : h'.retryStackTries = h.retryStackTries

theorem connected_same (cfg : Config) (h : HostTries) (probe : UltraProbe) (errno : Errno)
    (sockname : Sockname) :
    (h.connected cfg probe errno sockname).hss = h.hss ∧
      SameTries h (h.connected cfg probe errno sockname) := by
  have succeeded : ∀ newstate, (h.succeeded cfg probe newstate true).hss = h.hss ∧
      SameTries h (h.succeeded cfg probe newstate true) := by
    intro newstate
    rw [HostTries.succeeded]
    split
    · exact ⟨rfl, rfl, rfl⟩
    · exact ⟨rfl, rfl, rfl⟩
  rw [HostTries.connected]
  split
  · exact succeeded _
  · exact ⟨rfl, rfl, rfl⟩

theorem sentConnect_same (cfg : Config) (h : HostTries) (g : GroupProbes) (destport : UInt16)
    (tryno : Tryno) (call : ConnectCall) :
    (h.sentConnect cfg g destport tryno call).hss = h.hss ∧
      SameTries h (h.sentConnect cfg g destport tryno call) := by
  rw [HostTries.sentConnect]
  split
  · exact ⟨rfl, rfl, rfl⟩
  · exact ⟨rfl, rfl, rfl⟩
  · exact connected_same cfg h _ _ _

theorem sendProbe_sent (cfg : Config) (h : HostTries) (call : ProbeCall) (g : GroupProbes)
    (pspec : ProbeSpec) (tryno : Tryno) :
    Returns (fun s : HostTries × GroupProbes =>
        Sent call pspec.type.upType pspec tryno h.hss s.1.hss ∧ SameTries h s.1)
      (h.sendProbe cfg call g pspec tryno) := by
  rw [HostTries.sendProbe]
  have ip := sendIPScanProbe_sent cfg call h.hss g pspec tryno
  cases type : pspec.type with
  | none => trivial
  | arp => exact ⟨addRawProbe_sent call h.hss g pspec tryno rfl rfl, rfl, rfl⟩
  | nd => exact ⟨addRawProbe_sent call h.hss g pspec tryno rfl rfl, rfl, rfl⟩
  | connectTcp =>
    have sent : Returns
        (fun s : HostScanStats × GroupProbes => Sent call .connect pspec tryno h.hss s.1)
        ((sendConnectScanProbe cfg h.hss g pspec.unionDport tryno call.toConnectCall).map
          fun r => (r.1, r.2.1)) :=
      Meets.map (sendConnectScanProbe_sent cfg call h.hss g pspec tryno)
    apply Meets.bind sent
    rintro ⟨hss, g'⟩ sent
    obtain ⟨same, tries⟩ := sentConnect_same cfg { h with hss := hss } g pspec.unionDport tryno
      call.toConnectCall
    refine ⟨?_, tries.benchTryno, tries.retryStackTries⟩
    show Sent _ _ _ _ _ (HostTries.sentConnect _ _ _ _ _ _).hss
    rw [same]
    exact sent
  | tcp | udp | sctp | proto | icmp | icmpv6 =>
    apply Meets.bind ip
    rintro ⟨hss, g', _⟩ ⟨-, sent⟩
    exact ⟨sent, rfl, rfl⟩

/-! ## Open attempts -/

/-- The last probe for its `probespec`, unless it is a ping -/
def ProbeMark.opens (m : ProbeMark) : Bool := !m.tryno.isPing && !m.retransmitted

/-- The open attempts among some probes -/
def openMarks (marks : List ProbeMark) : List (ProbeSpec × ℕ) :=
  (marks.filter ProbeMark.opens).map fun m => (m.pspec, m.tryno.seqnum.val)

theorem openMarks_append (marks marks' : List ProbeMark) :
    openMarks (marks ++ marks') = openMarks marks ++ openMarks marks' := by
  rw [openMarks, filter_append, map_append]
  rfl

theorem openMarks_cons_of_opens {m : ProbeMark} (opens : m.opens = true)
    (marks : List ProbeMark) :
    openMarks (m :: marks) = (m.pspec, m.tryno.seqnum.val) :: openMarks marks := by
  rw [openMarks, filter_cons_of_pos opens]
  rfl

theorem openMarks_cons_of_not {m : ProbeMark} (closed : m.opens = false)
    (marks : List ProbeMark) : openMarks (m :: marks) = openMarks marks := by
  rw [openMarks, filter_cons_of_neg (by simp [closed])]
  rfl

theorem openMarks_sublist {marks marks' : List ProbeMark} (fewer : marks'.Sublist marks) :
    (openMarks marks').Sublist (openMarks marks) :=
  (fewer.filter _).map _

/-- The mark of a probe after the one at this address was sent again -/
def ProbeMark.resentAt (addr : Nat) (m : ProbeMark) : ProbeMark :=
  if m.addr = addr then { m with retransmitted := true } else m

theorem marks_resent (probes : List UltraProbe) (addr : Nat) :
    (writeProbe probes addr UltraProbe.resent).map UltraProbe.mark =
      (probes.map UltraProbe.mark).map (ProbeMark.resentAt addr) := by
  rw [writeProbe, map_map, map_map]
  apply map_congr_left
  intro probe _
  show (if probe.addr = addr then probe.resent else probe).mark =
    if probe.addr = addr then _ else _
  split
  · rfl
  · rfl

theorem resentAt_of_not_mem {marks : List ProbeMark} {addr : Nat}
    (absent : addr ∉ marks.map (·.addr)) : marks.map (ProbeMark.resentAt addr) = marks := by
  have each : ∀ m ∈ marks, m.resentAt addr = m := by
    intro m mem
    apply if_neg
    rintro rfl
    exact absent (mem_map_of_mem mem)
  rw [map_congr_left each, map_id']

namespace HostTries

def openBench (h : HostTries) : List (ProbeSpec × ℕ) :=
  h.hss.probeBench.map fun pspec => (pspec, h.benchTryno)

def openStack (h : HostTries) : List (ProbeSpec × ℕ) :=
  (h.hss.retryStack.zip h.retryStackTries).map fun e => (e.1, e.2.toNat)

def opened (h : HostTries) : Multiset (ProbeSpec × ℕ) :=
  (openMarks h.hss.marks : Multiset (ProbeSpec × ℕ)) + h.openBench + h.openStack

/-- What all events keep. What is open was sent as it will be sent again, and what is on the
retry stack will be. -/
structure Kept (cfg : Config) (h : HostTries) : Prop where
  distinct : (h.hss.marks.map (·.addr)).Nodup
  probes : ∀ m ∈ h.hss.marks, m.opens = true → m.type = m.pspec.type.upType ∧ Sendable m.pspec
  bench : ∀ pspec ∈ h.hss.probeBench, Sendable pspec
  stack : ∀ pspec ∈ h.hss.retryStack, Sendable pspec
  below : ∀ pspecTries ∈ h.retryStackTries, pspecTries.toNat < cfg.maxRetransmissions
  sync : h.hss.retryStack.length = h.retryStackTries.length

/-- Nothing is sent, and nothing more is open than before. -/
structure Quiet (cfg : Config) (h h' : HostTries) : Prop where
  kept : Kept cfg h'
  opened : h'.opened ≤ h.opened
  supply : h'.hss.supply = h.hss.supply

variable {cfg : Config} {h : HostTries}

theorem Kept.quiet (kept : Kept cfg h) : Quiet cfg h h := ⟨kept, le_rfl, rfl⟩

variable {h' : HostTries}

theorem Quiet.trans {h'' : HostTries} (first : Quiet cfg h h') (second : Quiet cfg h' h'') :
    Quiet cfg h h'' where
  kept := second.kept
  opened := second.opened.trans first.opened
  supply := second.supply.trans first.supply

theorem openBench_eq (bench : h'.hss.probeBench = h.hss.probeBench) (same : SameTries h h') :
    h'.openBench = h.openBench := by
  rw [openBench, bench, same.benchTryno]
  rfl

theorem openStack_eq (stack : h'.hss.retryStack = h.hss.retryStack) (same : SameTries h h') :
    h'.openStack = h.openStack := by
  rw [openStack, stack, same.retryStackTries]
  rfl

theorem Kept.fewer (kept : Kept cfg h) {h' : HostTries} (fewer : Fewer h.hss h'.hss)
    (same : SameTries h h') : Quiet cfg h h' where
  kept := by
    obtain ⟨distinct, probes, bench, stack, below, sync⟩ := kept
    constructor
    · exact distinct.sublist (fewer.marks.map _)
    · intro m mem
      exact probes m (fewer.marks.subset mem)
    · rw [fewer.bench]
      exact bench
    · rw [fewer.stack]
      exact stack
    · rw [same.retryStackTries]
      exact below
    · rw [fewer.stack, same.retryStackTries]
      exact sync
  opened := by
    rw [opened, opened, openBench_eq fewer.bench same, openStack_eq fewer.stack same]
    exact add_le_add_left (add_le_add_left (openMarks_sublist fewer.marks).subperm _) _
  supply := fewer.supply

theorem Kept.onProbes (kept : Kept cfg h)
    {r : Except Failure (HostScanStats × GroupProbes)}
    (fewer : Returns (fun s : HostScanStats × GroupProbes => Fewer h.hss s.1) r) :
    Returns (fun s : HostTries × GroupProbes => Quiet cfg h s.1) (h.onProbes r) :=
  Meets.map (fewer.mono fun _ fewer => kept.fewer fewer ⟨rfl, rfl⟩)

theorem Kept.portUpdate (kept : Kept cfg h) (g : GroupProbes) (probe : UltraProbe)
    (newstate : PortState) (adjustTimingHint : Bool) :
    Returns (fun s : HostTries × GroupProbes => Quiet cfg h s.1)
      (h.portUpdate cfg g probe newstate adjustTimingHint) := by
  apply Meets.bind (portProbeUpdate_fewer cfg h.hss g probe newstate adjustTimingHint)
  intro s fewer
  show Quiet cfg h (HostTries.succeeded _ _ _ _ _)
  rw [succeeded]
  split
  · exact kept.fewer fewer ⟨rfl, rfl⟩
  · exact kept.fewer fewer ⟨rfl, rfl⟩

theorem Kept.connectUpdate (kept : Kept cfg h) (g : GroupProbes) (probe : UltraProbe)
    (errno : Errno) (sockname : Sockname) (destroyProbe : Bool) :
    Returns (fun s : HostTries × GroupProbes => Quiet cfg h s.1)
      (h.connectUpdate cfg g probe errno sockname destroyProbe) := by
  apply Meets.bind (handleConnectResult_fewer cfg h.hss g probe errno sockname destroyProbe)
  intro s fewer
  obtain ⟨same, tries⟩ := connected_same cfg { h with hss := s.1 } probe errno sockname
  refine kept.fewer ?_ ⟨tries.benchTryno, tries.retryStackTries⟩
  rw [same]
  exact fewer

/-! ## The bench -/

theorem allowedTryno_le (cfg : Config) (h : HostTries) :
    (h.allowedTryno cfg).1 ≤ cfg.maxRetransmissions := by
  rw [allowedTryno]
  split
  · exact Nat.le_refl _
  · rename_i within
    exact Nat.le_of_not_lt within

theorem Kept.dismissBench (kept : Kept cfg h) : Quiet cfg h (h.dismissBench cfg) := by
  rw [HostTries.dismissBench]
  split
  · exact kept.quiet
  · have down : ∀ pspecs : List ProbeSpec, Fewer h.hss
        (pspecs.foldr (fun _ hss => ultrascanHostPspecUpdate hss .down) h.hss) := by
      intro pspecs
      induction pspecs with
      | nil => exact .refl h.hss
      | cons pspec rest ih => exact ih.trans (hostPspecUpdate_fewer _ _)
    have fewer : Fewer h.hss (if cfg.pingScan then
        h.hss.probeBench.foldr (fun _ hss => ultrascanHostPspecUpdate hss .down) h.hss
        else h.hss) := by
      split
      · exact down h.hss.probeBench
      · exact .refl h.hss
    generalize (if cfg.pingScan then _ else h.hss) = hss at fewer ⊢
    obtain ⟨kept', opened, supply⟩ : Quiet cfg h { h with hss := hss } :=
      kept.fewer fewer ⟨rfl, rfl⟩
    obtain ⟨distinct, probes, bench, stack, below, sync⟩ := kept'
    refine ⟨⟨distinct, probes, ?_, stack, below, sync⟩, ?_, supply⟩
    · intro pspec mem
      cases mem
    · refine le_trans ?_ opened
      show (openMarks hss.marks : Multiset (ProbeSpec × ℕ)) + ([] : List (ProbeSpec × ℕ)) + _ ≤ _
      exact add_le_add_left (add_le_add_right (Multiset.zero_le _) _) _

theorem zip_replicate_map {α : Type} (l : List α) (n : UInt8) :
    (l.zip (List.replicate l.length n)).map (fun e => (e.1, e.2.toNat)) =
      l.map fun a => (a, n.toNat) := by
  induction l with
  | nil => rfl
  | cons a rest ih =>
    rw [length_cons, replicate_succ, zip_cons_cons, map_cons, ih]
    rfl

theorem Kept.retransmitBench (kept : Kept cfg h) (fits : cfg.maxRetransmissions ≤ 127)
    (allowed : h.benchTryno < cfg.maxRetransmissions) :
    Returns (Quiet cfg h) h.retransmitBench := by
  rw [HostTries.retransmitBench]
  split
  · exact kept.quiet
  · dsimp only
    split
    · trivial
    · rename_i sync'
      obtain ⟨distinct, probes, bench, stack, below, sync⟩ := kept
      have tries : (UInt8.ofNat h.benchTryno).toNat = h.benchTryno := by
        rw [UInt8.toNat_ofNat']
        omega
      refine ⟨⟨distinct, probes, ?_, ?_, ?_, Classical.not_not.mp sync'⟩, ?_, rfl⟩
      · intro pspec mem
        cases mem
      · intro pspec mem
        rcases mem_append.mp mem with mem | mem
        · exact stack pspec mem
        · exact bench pspec mem
      · intro pspecTries mem
        rcases mem_append.mp mem with mem | mem
        · exact below pspecTries mem
        · rw [eq_of_mem_replicate mem, tries]
          exact allowed
      · show (openMarks h.hss.marks : Multiset (ProbeSpec × ℕ)) + ([] : List (ProbeSpec × ℕ)) +
          (((h.hss.retryStack ++ h.hss.probeBench).zip (h.retryStackTries ++
            List.replicate h.hss.probeBench.length (UInt8.ofNat h.benchTryno))).map
              fun e => (e.1, e.2.toNat) : List (ProbeSpec × ℕ)) ≤ h.opened
        rw [zip_append sync, map_append, zip_replicate_map, tries,
          ← Multiset.coe_add]
        show _ + (0 : Multiset (ProbeSpec × ℕ)) + (↑h.openStack + ↑h.openBench) ≤ h.opened
        rw [add_zero, opened, add_comm (h.openStack : Multiset (ProbeSpec × ℕ)), add_assoc]

variable {probe : UltraProbe}

theorem openMarks_erase {probes : List UltraProbe} (mem : probe ∈ probes)
    (opens : probe.mark.opens = true) :
    (openMarks (probes.map UltraProbe.mark) : Multiset (ProbeSpec × ℕ)) =
      (probe.pspec, probe.tryno.seqnum.val) ::ₘ
        openMarks ((probes.erase probe).map UltraProbe.mark) := by
  have perm := ((perm_cons_erase mem).map UltraProbe.mark).filter ProbeMark.opens
  have same : openMarks (probes.map UltraProbe.mark) |>.Perm
      (openMarks ((probe :: probes.erase probe).map UltraProbe.mark)) := perm.map _
  rw [Multiset.coe_eq_coe.mpr same, map_cons, openMarks_cons_of_opens opens]
  rfl

theorem Kept.moveProbeToBench (kept : Kept cfg h) (mem : probe ∈ h.hss.probesOutstanding)
    (opens : probe.mark.opens = true) :
    Returns (fun h' => Quiet cfg h h' ∧
        h'.hss.probesOutstanding = h.hss.probesOutstanding.erase probe)
      (h.moveProbeToBench probe) := by
  rw [HostTries.moveProbeToBench]
  split
  · trivial
  · rename_i same
    cases h.hss.numProbesWaitingRetransmit with
    | zero => trivial
    | succ waiting =>
      obtain ⟨distinct, probes, bench, stack, below, sync⟩ := kept
      have fewer := (erase_sublist (a := probe) (l := h.hss.probesOutstanding)).map
        UltraProbe.mark
      have sendable := (probes _ (mem_map_of_mem mem) opens).2
      refine ⟨⟨⟨distinct.sublist (fewer.map _), ?_, ?_, stack, below, sync⟩, ?_, rfl⟩, rfl⟩
      · intro m mem
        exact probes m (fewer.subset mem)
      · intro pspec mem
        rcases mem_append.mp mem with mem | mem
        · exact bench pspec mem
        · rw [mem_singleton.mp mem]
          exact sendable
      · have onBench : (h.hss.probeBench ++ [probe.pspec]).map
            (fun pspec => (pspec, probe.tryno.seqnum.val)) =
              h.openBench ++ [(probe.pspec, probe.tryno.seqnum.val)] := by
          rw [map_append, openBench]
          cases bench : h.hss.probeBench with
          | nil => rfl
          | cons pspec rest =>
            have number : h.benchTryno = probe.tryno.seqnum.val := by
              simpa [bench] using same
            rw [number]
            rfl
        show (openMarks ((h.hss.probesOutstanding.erase probe).map UltraProbe.mark) :
          Multiset (ProbeSpec × ℕ)) + ((h.hss.probeBench ++ [probe.pspec]).map
            (fun pspec => (pspec, probe.tryno.seqnum.val)) : List (ProbeSpec × ℕ)) +
              h.openStack ≤ h.opened
        rw [onBench, opened, HostScanStats.marks, openMarks_erase mem opens,
          ← Multiset.coe_add]
        show _ + (_ + {_}) + _ ≤ _
        rw [← add_assoc, add_comm _ {_}, Multiset.singleton_add, Multiset.cons_add,
          Multiset.cons_add, Multiset.cons_add]

/-! ## `processData` -/

/-- The probes that are not processed stay. -/
def Others (h h' : HostTries) (probe : UltraProbe) : Prop :=
  ∀ other ∈ h.hss.probesOutstanding, other.addr ≠ probe.addr →
    other ∈ h'.hss.probesOutstanding

theorem others_of_erase (erased : h'.hss.probesOutstanding = h.hss.probesOutstanding.erase probe) :
    Others h h' probe := by
  intro other mem different
  rw [erased]
  apply (mem_erase_of_ne ?_).mpr mem
  rintro rfl
  exact different rfl

theorem Kept.destroy (kept : Kept cfg h) (g : GroupProbes) (probe : UltraProbe) :
    Returns (fun s : HostTries × GroupProbes => Quiet cfg h s.1 ∧ Others h s.1 probe)
      (h.onProbes (destroyOutstandingProbe h.hss g probe)) :=
  Meets.map ((destroy_becomes h.hss g probe).mono fun _ becomes =>
    ⟨kept.fewer (becomes.fewer (erase_sublist.map _)) ⟨rfl, rfl⟩,
      others_of_erase becomes.probes⟩)

theorem hostGivesUp_becomes (hss : HostScanStats) (g : GroupProbes) (probe : UltraProbe) :
    Returns (fun s : HostScanStats × GroupProbes =>
        Becomes hss (hss.probesOutstanding.erase probe) s.1)
      (hostGivesUp hss g probe) := by
  have down : Becomes hss hss.probesOutstanding (ultrascanHostPspecUpdate hss .down) := by
    rw [ultrascanHostPspecUpdate]
    split
    · exact ⟨rfl, rfl, rfl, rfl⟩
    · exact ⟨rfl, rfl, rfl, rfl⟩
  apply Meets.bind (destroy_becomes (ultrascanHostPspecUpdate hss .down) g probe)
  rintro s ⟨probes, bench, stack, supply⟩
  rw [down.probes] at probes
  exact ⟨probes, bench.trans down.bench, stack.trans down.stack, supply.trans down.supply⟩

theorem Kept.processProbe (kept : Kept cfg h) (g : GroupProbes) (ages : Ages) (maxtries : Nat)
    (trynoMayincrease : Bool) {probe : UltraProbe} (mem : probe ∈ h.hss.probesOutstanding) :
    Returns (fun s : HostTries × GroupProbes => Quiet cfg h s.1 ∧ Others h s.1 probe)
      (processProbe cfg ages maxtries trynoMayincrease (h, g) probe) := by
  rw [HostTries.processProbe]
  split
  · apply Meets.map
    apply (mark_becomes h.hss g probe).mono
    intro s becomes
    refine ⟨kept.fewer (becomes.fewer ?_) ⟨rfl, rfl⟩, ?_⟩
    · rw [writeProbe_marks (f := UltraProbe.expire) fun _ => rfl]
      exact .refl _
    · intro other mem different
      show other ∈ s.1.probesOutstanding
      rw [becomes.probes]
      exact mem_map.mpr ⟨other, mem, if_neg different⟩
  split
  · split
    · apply Meets.map
      apply (hostGivesUp_becomes h.hss g probe).mono
      intro s becomes
      exact ⟨kept.fewer (becomes.fewer (erase_sublist.map _)) ⟨rfl, rfl⟩,
        others_of_erase becomes.probes⟩
    · exact kept.destroy g probe
  split
  · rename_i benched
    have opens : probe.mark.opens = true := by
      simp only [Bool.and_eq_true] at benched
      obtain ⟨⟨⟨⟨-, first⟩, scan⟩, -⟩, -⟩ := benched
      rw [ProbeMark.opens, Bool.and_eq_true]
      exact ⟨scan, first⟩
    split
    · trivial
    · apply Meets.map
      exact (kept.moveProbeToBench mem opens).mono fun _ moved =>
        ⟨moved.1, others_of_erase moved.2⟩
  split
  · exact kept.destroy g probe
  · exact ⟨kept.quiet, fun _ mem _ => mem⟩

theorem Kept.checkBench (kept : Kept cfg h) (fits : cfg.maxRetransmissions ≤ 127)
    (trynoMayincrease : Bool) :
    Returns (Quiet cfg h) (h.checkBench cfg (h.allowedTryno cfg).1 trynoMayincrease) := by
  rw [HostTries.checkBench]
  split
  · exact kept.quiet
  split
  · exact kept.dismissBench
  split
  · rename_i more
    exact kept.retransmitBench fits (Nat.lt_of_lt_of_le more (allowedTryno_le cfg h))
  · exact kept.quiet

theorem Kept.processProbes (ages : Ages) (maxtries : Nat) (trynoMayincrease : Bool)
    {rest : List UltraProbe} :
    ∀ {h : HostTries} (g : GroupProbes), Kept cfg h →
      (∀ probe ∈ rest, probe ∈ h.hss.probesOutstanding) → (rest.map (·.addr)).Nodup →
      Returns (fun s : HostTries × GroupProbes => Quiet cfg h s.1)
        (rest.foldlM (HostTries.processProbe cfg ages maxtries trynoMayincrease) (h, g)) := by
  induction rest with
  | nil => exact fun g kept _ _ => kept.quiet
  | cons probe rest ih =>
    intro h g kept mem distinct
    rw [map_cons, nodup_cons] at distinct
    rw [foldlM_cons]
    apply Meets.bind (kept.processProbe g ages maxtries trynoMayincrease
      (mem probe mem_cons_self))
    rintro ⟨h', g'⟩ ⟨quiet, others⟩
    have left : ∀ other ∈ rest, other ∈ h'.hss.probesOutstanding := by
      intro other inRest
      apply others other (mem other (mem_cons_of_mem probe inRest))
      intro same
      exact distinct.1 (same ▸ mem_map_of_mem inRest)
    exact (ih g' quiet.kept left distinct.2).mono fun _ => quiet.trans

theorem Kept.processData (kept : Kept cfg h) (fits : cfg.maxRetransmissions ≤ 127) (ages : Ages)
    (g : GroupProbes) :
    Returns (fun s : HostTries × GroupProbes => Quiet cfg h s.1) (h.processData cfg ages g) := by
  rw [HostTries.processData]
  apply Returns.bind_any
  intro trynoMayincrease
  apply Meets.bind (kept.checkBench fits trynoMayincrease)
  intro h' quiet
  have distinct : (h'.hss.probesOutstanding.map (·.addr)).Nodup := by
    have marks := quiet.kept.distinct
    rw [HostScanStats.marks, map_map] at marks
    exact marks
  exact (quiet.kept.processProbes ages _ trynoMayincrease g (fun _ => id) distinct).mono
    fun _ => quiet.trans

/-! ## New probes -/

theorem marks_addr (hss : HostScanStats) :
    hss.marks.map (·.addr) = hss.probesOutstanding.map (·.addr) := by
  rw [HostScanStats.marks, map_map]
  rfl

/-- A probe was sent, and nothing more is open than it and what was open before. -/
structure Sends (cfg : Config) (h h' : HostTries) (pspec : ProbeSpec) (tryno : Tryno) : Prop where
  kept : Kept cfg h'
  opened : h'.opened ≤
    if tryno.isPing then h.opened else (pspec, tryno.seqnum.val) ::ₘ h.opened
  supply : h'.hss.supply = h.hss.supply

variable {call : ProbeCall}

/-- The new probe is there, and no other has gone. -/
theorem Kept.add (kept : Kept cfg h) {upType : UPType} {source : ProbeSpec} {tryno : Tryno}
    (new : NewProbe call upType source tryno probe)
    (fresh : call.addr ∉ h.hss.probesOutstanding.map (·.addr)) :
    Sends cfg h { h with hss := h.hss.addProbe probe } (sentSpec upType source) tryno := by
  obtain ⟨distinct, probes, bench, stack, below, sync⟩ := kept
  obtain ⟨addr, type, pspec, kind, sendable, number, first⟩ := new
  have marks : (h.hss.addProbe probe).marks = h.hss.marks ++ [probe.mark] := by
    show (h.hss.probesOutstanding ++ [probe]).map UltraProbe.mark = _
    rw [map_append]
    rfl
  refine ⟨⟨?_, ?_, bench, stack, below, sync⟩, ?_, rfl⟩
  · show ((h.hss.addProbe probe).marks.map _).Nodup
    rw [marks, map_append, nodup_append]
    refine ⟨distinct, nodup_singleton _, ?_⟩
    intro a ha b hb same
    rw [map_singleton, mem_singleton] at hb
    apply fresh
    rw [← marks_addr, ← addr]
    show probe.mark.addr ∈ _
    rw [← hb, ← same]
    exact ha
  · show ∀ m ∈ (h.hss.addProbe probe).marks, _
    rw [marks]
    intro m mem opens
    rcases mem_append.mp mem with mem | mem
    · exact probes m mem opens
    · rw [mem_singleton.mp mem]
      show probe.type = probe.pspec.type.upType ∧ Sendable probe.pspec
      rw [type, pspec]
      exact ⟨kind, sendable⟩
  · show (openMarks (h.hss.addProbe probe).marks : Multiset (ProbeSpec × ℕ)) + h.openBench +
      h.openStack ≤ _
    have mark : probe.mark = ⟨probe.addr, upType, sentSpec upType source, tryno, false⟩ := by
      rw [UltraProbe.mark, type, pspec, number, first]
    rw [marks, openMarks_append, ← Multiset.coe_add, mark]
    cases ping : tryno.isPing with
    | true =>
      rw [openMarks_cons_of_not (by simp [ProbeMark.opens, ping])]
      show _ + (0 : Multiset (ProbeSpec × ℕ)) + _ + _ ≤ h.opened
      rw [add_zero]
      exact le_rfl
    | false =>
      rw [openMarks_cons_of_opens (by simp [ProbeMark.opens, ping])]
      show _ + {(sentSpec upType source, tryno.seqnum.val)} + _ + _ ≤
        (sentSpec upType source, tryno.seqnum.val) ::ₘ h.opened
      rw [opened, add_comm _ {_}, Multiset.singleton_add, Multiset.cons_add,
        Multiset.cons_add]

variable {pspec : ProbeSpec}

theorem Sends.fewer {h'' : HostTries} {tryno : Tryno} (sends : Sends cfg h h' pspec tryno)
    (quiet : Quiet cfg h' h'') :
    Sends cfg h h'' pspec tryno where
  kept := quiet.kept
  opened := quiet.opened.trans sends.opened
  supply := quiet.supply.trans sends.supply

theorem Kept.sent (kept : Kept cfg h) {call : ProbeCall} {upType : UPType} {source : ProbeSpec}
    {tryno : Tryno} {h' : HostTries} (sent : Sent call upType source tryno h.hss h'.hss)
    (same : SameTries h h') (fresh : call.addr ∉ h.hss.probesOutstanding.map (·.addr)) :
    Sends cfg h h' (sentSpec upType source) tryno := by
  obtain ⟨probe, new, fewer⟩ := sent
  have sends := kept.add new fresh
  exact sends.fewer (sends.kept.fewer fewer ⟨same.benchTryno, same.retryStackTries⟩)

theorem Kept.sendProbe (kept : Kept cfg h) (g : GroupProbes) (pspec : ProbeSpec) (tryno : Tryno)
    (fresh : call.addr ∉ h.hss.probesOutstanding.map (·.addr)) :
    Returns (fun s : HostTries × GroupProbes =>
        Sends cfg h s.1 (sentSpec pspec.type.upType pspec) tryno)
      (h.sendProbe cfg call g pspec tryno) :=
  (sendProbe_sent cfg h call g pspec tryno).mono fun _ sent => kept.sent sent.1 sent.2 fresh

theorem Kept.sendPingProbe (kept : Kept cfg h) (seqnum : Fin 128) (g : GroupProbes)
    (fresh : call.addr ∉ h.hss.probesOutstanding.map (·.addr)) :
    Returns (fun s : HostTries × GroupProbes => Quiet cfg h s.1)
      (h.sendPingProbe cfg call seqnum g) := by
  rw [HostTries.sendPingProbe]
  split
  · trivial
  · apply Meets.bind (kept.sendProbe g h.hss.pingprobe ⟨true, seqnum⟩ fresh)
    rintro s ⟨kept', opened, supply⟩
    exact ⟨kept', opened, supply⟩

theorem Kept.sendNextScanProbe (kept : Kept cfg h) (g : GroupProbes) {supply : Supply}
    (next : h.hss.supply.nextTargetProbe cfg = .ok (some (pspec, supply)))
    (fresh : call.addr ∉ h.hss.probesOutstanding.map (·.addr)) :
    Returns (fun s : HostTries × GroupProbes =>
        Kept cfg s.1 ∧ s.1.opened ≤ (sentSpec pspec.type.upType pspec, 0) ::ₘ h.opened ∧
          s.1.hss.supply = supply)
      (h.sendNextScanProbe cfg call g) := by
  obtain ⟨distinct, probes, bench, stack, below, sync⟩ := kept
  have taken : Kept cfg ({ h with hss := { h.hss with supply := supply } }.countSent g).1 :=
    ⟨distinct, probes, bench, stack, below, sync⟩
  rw [HostTries.sendNextScanProbe, next]
  exact (taken.sendProbe _ pspec ⟨false, 0⟩ fresh).mono fun _ sends =>
    ⟨sends.kept, sends.opened, sends.supply⟩

/-! ## Probes that are sent again -/

/-- The next probe after the open one with this number is sent, whatever comes of it. -/
def SendsAgain (cfg : Config) (h : HostTries) (pspec : ProbeSpec) (n : ℕ)
    (r : Except Failure (HostTries × GroupProbes)) : Prop :=
  n < cfg.maxRetransmissions ∧ ∃ rest, (pspec, n) ::ₘ rest = h.opened ∧
    Returns (fun s : HostTries × GroupProbes => Kept cfg s.1 ∧
      s.1.opened ≤ (pspec, n + 1) ::ₘ rest ∧ s.1.hss.supply = h.hss.supply) r

/-- The host without the last entry of the retry stack -/
theorem Kept.pop (kept : Kept cfg h) {pspecTries : UInt8}
    (last : h.hss.retryStack.getLast? = some pspec)
    (tries : h.retryStackTries.getLast? = some pspecTries)
    (probes : h'.hss.probesOutstanding = h.hss.probesOutstanding)
    (bench : h'.hss.probeBench = h.hss.probeBench) (benchTryno : h'.benchTryno = h.benchTryno)
    (stack : h'.hss.retryStack = h.hss.retryStack.dropLast)
    (stackTries : h'.retryStackTries = h.retryStackTries.dropLast) :
    Kept cfg h' ∧ Sendable pspec ∧ pspecTries.toNat < cfg.maxRetransmissions ∧
      (pspec, pspecTries.toNat) ::ₘ h'.opened = h.opened := by
  obtain ⟨rest, same⟩ := List.getLast?_eq_some_iff.mp last
  obtain ⟨restTries, sameTries⟩ := List.getLast?_eq_some_iff.mp tries
  obtain ⟨distinct, probesKept, benchKept, stackKept, below, sync⟩ := kept
  rw [same] at stackKept sync
  rw [sameTries] at below sync
  rw [same, dropLast_concat] at stack
  rw [sameTries, dropLast_concat] at stackTries
  have marks : h'.hss.marks = h.hss.marks := by
    rw [HostScanStats.marks, probes]
    rfl
  have shorter : rest.length = restTries.length := by simpa using sync
  refine ⟨⟨?_, ?_, ?_, ?_, ?_, ?_⟩, ?_, ?_, ?_⟩
  · rw [marks]
    exact distinct
  · rw [marks]
    exact probesKept
  · rw [bench]
    exact benchKept
  · rw [stack]
    exact fun pspec mem => stackKept pspec (mem_append_left _ mem)
  · rw [stackTries]
    exact fun n mem => below n (mem_append_left _ mem)
  · rw [stack, stackTries]
    exact shorter
  · exact stackKept pspec (by simp)
  · exact below pspecTries (by simp)
  · have split : h.openStack = h'.openStack ++ [(pspec, pspecTries.toNat)] := by
      rw [openStack, openStack, same, sameTries, stack, stackTries, zip_append shorter,
        map_append]
      rfl
    have onBench : h'.openBench = h.openBench := by
      rw [openBench, bench, benchTryno]
      rfl
    rw [opened, opened, marks, onBench, split, ← Multiset.coe_add]
    show _ = _ + (_ + {_})
    rw [← add_assoc, add_comm _ {_}, Multiset.singleton_add]

theorem Kept.sendNextRetryStackProbe (kept : Kept cfg h) (fits : cfg.maxRetransmissions ≤ 127)
    (g : GroupProbes) {pspecTries : UInt8} (last : h.hss.retryStack.getLast? = some pspec)
    (tries : h.retryStackTries.getLast? = some pspecTries)
    (fresh : call.addr ∉ h.hss.probesOutstanding.map (·.addr)) :
    Sendable pspec ∧ (retryTryno pspecTries).seqnum.val = pspecTries.toNat + 1 ∧
      SendsAgain cfg h pspec pspecTries.toNat (h.sendNextRetryStackProbe cfg call g) := by
  let popped : HostTries := ({ h with
    hss := { h.hss with retryStack := h.hss.retryStack.dropLast }
    retryStackTries := h.retryStackTries.dropLast }.countSent g).1
  obtain ⟨kept', sendable, below, split⟩ : Kept cfg popped ∧ Sendable pspec ∧
      pspecTries.toNat < cfg.maxRetransmissions ∧
      (pspec, pspecTries.toNat) ::ₘ popped.opened = h.opened :=
    kept.pop last tries rfl rfl rfl rfl rfl
  have number : (retryTryno pspecTries).seqnum.val = pspecTries.toNat + 1 := by
    show (pspecTries.toNat + 1) % 128 = _
    omega
  refine ⟨sendable, number, below, popped.opened, split, ?_⟩
  rw [HostTries.sendNextRetryStackProbe, last, tries]
  dsimp only
  split
  · trivial
  · refine (kept'.sendProbe _ pspec (retryTryno pspecTries) fresh).mono ?_
    rintro s ⟨kept'', opened, supply⟩
    rw [show sentSpec pspec.type.upType pspec = pspec from sendable, number] at opened
    exact ⟨kept'', opened, supply⟩

/-- The host with a probe marked as sent again -/
def resent (h : HostTries) (addr : Nat) : HostTries :=
  { h with hss := { h.hss with
    probesOutstanding := writeProbe h.hss.probesOutstanding addr UltraProbe.resent } }

theorem Kept.resent (kept : Kept cfg h) (mem : probe ∈ h.hss.probesOutstanding)
    (opens : probe.mark.opens = true) :
    Kept cfg (h.resent probe.addr) ∧
      (probe.pspec, probe.tryno.seqnum.val) ::ₘ (h.resent probe.addr).opened = h.opened := by
  obtain ⟨distinct, probes, bench, stack, below, sync⟩ := kept
  obtain ⟨before, behind, split⟩ :=
    append_of_mem (mem_map_of_mem (f := UltraProbe.mark) mem)
  have split : h.hss.marks = before ++ probe.mark :: behind := split
  have marks : (h.resent probe.addr).hss.marks =
      before ++ { probe.mark with retransmitted := true } :: behind := by
    rw [split, map_append, map_cons, nodup_append, nodup_cons] at distinct
    obtain ⟨-, ⟨absent, -⟩, apart⟩ := distinct
    have absentBehind : probe.addr ∉ behind.map (·.addr) := absent
    have absentBefore : probe.addr ∉ before.map (·.addr) := by
      intro mem
      exact apart _ mem _ mem_cons_self rfl
    show (writeProbe _ _ _).map UltraProbe.mark = _
    rw [marks_resent]
    show h.hss.marks.map _ = _
    rw [split, map_append, map_cons, resentAt_of_not_mem absentBefore,
      resentAt_of_not_mem absentBehind]
    show before ++ (if probe.addr = probe.addr then _ else _) :: behind = _
    rw [if_pos rfl]
  have addrs : (h.resent probe.addr).hss.marks.map (·.addr) = h.hss.marks.map (·.addr) := by
    rw [marks, split]
    simp
  refine ⟨⟨?_, ?_, bench, stack, below, sync⟩, ?_⟩
  · rw [addrs]
    exact distinct
  · rw [marks]
    intro m mem opens
    rcases mem_append.mp mem with mem | mem
    · exact probes m (by rw [split]; exact mem_append_left _ mem) opens
    · rcases mem_cons.mp mem with rfl | mem
      · simp [ProbeMark.opens] at opens
      · refine probes m ?_ opens
        rw [split]
        exact mem_append_right _ (mem_cons_of_mem _ mem)
  · rw [opened, opened, marks, split, openMarks_append, openMarks_append,
      openMarks_cons_of_opens opens,
      openMarks_cons_of_not (by simp [ProbeMark.opens] : ProbeMark.opens _ = false),
      ← Multiset.coe_add, ← Multiset.coe_add]
    show _ = _ + ((probe.pspec, probe.tryno.seqnum.val) ::ₘ (openMarks behind : Multiset _)) +
      _ + _
    rw [Multiset.add_cons, Multiset.cons_add, Multiset.cons_add]
    rfl

/-- The old probe is marked, wherever the new one has gone. -/
theorem retransmitProbe_sent (cfg : Config) (h : HostTries) (g : GroupProbes) (probe : UltraProbe)
    (other : call.addr ≠ probe.addr) :
    Returns (fun s : HostScanStats × GroupProbes => Sent call probe.type probe.pspec
        { probe.tryno with seqnum := probe.tryno.seqnum + 1 } (h.resent probe.addr).hss s.1)
      (retransmitProbe cfg (rawSenders cfg call) h.hss g probe call.toConnectCall) := by
  rw [retransmitProbe]
  apply Meets.bind (sendAgain_sent cfg call h.hss g _)
  rintro ⟨hss, g', newProbe⟩ ⟨new, isNew, fewer⟩
  replace fewer : Fewer (h.hss.addProbe new) hss := fewer
  show Returns _ (if probe.addr ∉ hss.probesOutstanding.map (·.addr) then _ else _)
  split
  · trivial
  · apply Returns.bind_any
    intro waiting
    refine ⟨new, isNew, ?_, fewer.bench, fewer.stack, fewer.supply⟩
    have newMark : ProbeMark.resentAt probe.addr new.mark = new.mark := by
      apply if_neg
      rw [show new.mark.addr = call.addr from isNew.addr]
      exact other
    have all : ((h.resent probe.addr).hss.addProbe new).marks =
        (h.hss.addProbe new).marks.map (ProbeMark.resentAt probe.addr) := by
      show (writeProbe _ _ _ ++ [new]).map UltraProbe.mark =
        ((h.hss.probesOutstanding ++ [new]).map UltraProbe.mark).map _
      rw [map_append, map_append, map_append, marks_resent, map_singleton,
        map_singleton, newMark]
    show ((writeProbe _ probe.addr UltraProbe.resent).map UltraProbe.mark).Sublist _
    rw [marks_resent, all]
    apply Sublist.map
    cases newProbe with
    | none => exact fewer.marks
    | some addr =>
      show ((writeProbe _ addr (UltraProbe.setPrevSent probe.sent)).map _).Sublist _
      rw [writeProbe_marks (f := UltraProbe.setPrevSent probe.sent) fun _ => rfl]
      exact fewer.marks

theorem Kept.retransmit (kept : Kept cfg h) (fits : cfg.maxRetransmissions ≤ 127) (g : GroupProbes)
    (may : HostEvent.May cfg h (.retransmit probe call)) :
    sentSpec probe.type probe.pspec = probe.pspec ∧
      (probe.tryno.seqnum + 1).val = probe.tryno.seqnum.val + 1 ∧
      SendsAgain cfg h probe.pspec probe.tryno.seqnum.val (h.retransmit cfg call g probe) := by
  obtain ⟨mem, first, scan, -, less, fresh⟩ := may
  have below : probe.tryno.seqnum.val < cfg.maxRetransmissions :=
    Nat.lt_of_lt_of_le less (allowedTryno_le cfg h)
  have opens : probe.mark.opens = true := by
    show (!probe.isPing && !probe.retransmitted) = true
    rw [scan, first]
    rfl
  obtain ⟨type, sendable⟩ := kept.probes _ (mem_map_of_mem mem) opens
  have same : sentSpec probe.type probe.pspec = probe.pspec := by
    rw [show probe.type = probe.pspec.type.upType from type]
    exact sendable
  have number : (probe.tryno.seqnum + 1).val = probe.tryno.seqnum.val + 1 := by
    rw [Fin.val_add]
    show (probe.tryno.seqnum.val + 1) % 128 = _
    omega
  refine ⟨same, number, ?_⟩
  obtain ⟨kept', split⟩ := kept.resent mem opens
  have fresh' : call.addr ∉ (h.resent probe.addr).hss.probesOutstanding.map (·.addr) := by
    show call.addr ∉ (writeProbe _ _ UltraProbe.resent).map (·.addr)
    rw [writeProbe_addrs (f := UltraProbe.resent) fun _ => rfl]
    exact fresh
  have other : call.addr ≠ probe.addr := by
    intro same
    exact fresh (same ▸ mem_map_of_mem mem)
  refine ⟨below, (h.resent probe.addr).opened, split, ?_⟩
  rw [HostTries.retransmit]
  apply Meets.bind (retransmitProbe_sent cfg h g probe other)
  rintro ⟨hss, g'⟩ sent
  replace sent : Sent call probe.type probe.pspec
    { probe.tryno with seqnum := probe.tryno.seqnum + 1 } (h.resent probe.addr).hss hss := sent
  have again : ∀ h' : HostTries, h'.hss = hss → SameTries h h' → Kept cfg h' ∧
      h'.opened ≤ (probe.pspec, probe.tryno.seqnum.val + 1) ::ₘ (h.resent probe.addr).opened ∧
        h'.hss.supply = h.hss.supply := by
    rintro h' rfl sameTries
    obtain ⟨kept'', opened, supply⟩ := kept'.sent sent ⟨sameTries.1, sameTries.2⟩ fresh'
    rw [same, number, if_neg (by rw [show probe.tryno.isPing = false from scan]; simp)] at opened
    exact ⟨kept'', opened, supply⟩
  dsimp only
  split
  · obtain ⟨sameHss, sameTries⟩ := sentConnect_same cfg { h with hss := hss } g
      probe.pspec.unionDport { probe.tryno with seqnum := probe.tryno.seqnum + 1 }
      call.toConnectCall
    exact again _ sameHss ⟨sameTries.1, sameTries.2⟩
  · exact again _ rfl ⟨rfl, rfl⟩

end HostTries

end Nmap.ScanEngine
