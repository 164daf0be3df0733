import Nmap.Ports.PortMap

/-!
# Iterating over ports (`portlist.cc`)

`nextPort` finds its place from the port it is given and goes on from there. When the ports
of a protocol are through, it goes on with the next protocol if all were asked for, but on
later calls it decides so by the protocol of the last port alone, whatever was asked for.
-/

namespace Nmap.Ports

open List

/-- `allowed_protocol`: one protocol, `UDPANDSCTP` or `TCPANDUDPANDSCTP` -/
inductive AllowedProtocol
  | only (proto : Proto)
  | udpAndSctp
  | tcpAndUdpAndSctp
  deriving DecidableEq, Repr

namespace PortList

section

variable (map : PortMap) (pl : PortList)

/-- A port as `nextPort` returns it. One that does not exist is a copy of the default port. -/
def portAt (key : PortKey) : Port :=
  (pl.ports key).getD ⟨pl.defaultPortState key.proto, ⟨.noResponse, none, 0⟩⟩

/-- `allowed_state==0 || ...`; 0 is `PORT_UNKNOWN`. -/
def stateAllowed (allowedState : PortState) (key : PortKey) : Bool :=
  allowedState = .unknown || (pl.portAt key).state = allowedState

/-- The loop over the ports of a protocol, from an index on -/
def search (proto : Proto) (mappedPno : Nat) (allowedState : PortState) : Option PortKey :=
  (((map.portMapRev proto).drop mappedPno).map (PortKey.mk · proto)).find?
    (pl.stateAllowed allowedState)

/-- `nextPort` without a port to start from -/
def firstPort (allowedState : PortState) : AllowedProtocol → Option PortKey
  | .only proto => pl.search map proto 0 allowedState
  | .udpAndSctp => (pl.search map .udp 0 allowedState).or (pl.search map .sctp 0 allowedState)
  | .tcpAndUdpAndSctp =>
    (pl.search map .tcp 0 allowedState).or
      ((pl.search map .udp 0 allowedState).or (pl.search map .sctp 0 allowedState))

/-- `nextPort`, by the number and protocol of the port it returns -/
def nextPort (cur : Option PortKey) (allowedProtocol : AllowedProtocol)
    (allowedState : PortState) : Option PortKey :=
  match cur with
  | none => pl.firstPort map allowedState allowedProtocol
  | some cur =>
    match pl.search map cur.proto (map.portMap cur.proto cur.portno + 1) allowedState with
    | some next => some next
    | none =>
      -- what was asked for is not looked at any more
      if cur.proto = .tcp then pl.firstPort map allowedState .udpAndSctp
      else if cur.proto = .udp then pl.firstPort map allowedState (.only .sctp)
      else none

/-- The ports that are visited from here on, until there are no more -/
inductive Visits (allowedProtocol : AllowedProtocol) (allowedState : PortState) :
    Option PortKey → List PortKey → Prop
  | done {cur : Option PortKey} :
      pl.nextPort map cur allowedProtocol allowedState = none →
      Visits allowedProtocol allowedState cur []
  | next {cur : Option PortKey} {key : PortKey} {keys : List PortKey} :
      pl.nextPort map cur allowedProtocol allowedState = some key →
      Visits allowedProtocol allowedState (some key) keys →
      Visits allowedProtocol allowedState cur (key :: keys)

end

end PortList

/-! ## What was asked for -/

/-- The protocols that are allowed, in order -/
def AllowedProtocol.protos : AllowedProtocol → List Proto
  | .only proto => [proto]
  | .udpAndSctp => [.udp, .sctp]
  | .tcpAndUdpAndSctp => [.tcp, .udp, .sctp]

/-- The place of a protocol: TCP before UDP before SCTP -/
def Proto.rank : Proto → Nat
  | .tcp => 0
  | .udp => 1
  | .sctp => 2
  | .ip => 3

/-- Ascending ports within a protocol, one protocol after the other -/
def PortKey.Before (a b : PortKey) : Prop :=
  a.proto.rank < b.proto.rank ∨ a.proto = b.proto ∧ a.portno < b.portno

namespace PortList

/-- Starting from the beginning, exactly the ports that were asked for are visited, each once
and in order, and then the iteration ends. -/
def IteratesExactly (map : PortMap) (pl : PortList) (allowedProtocol : AllowedProtocol)
    (allowedState : PortState) : Prop :=
  ∃ keys, pl.Visits map allowedProtocol allowedState none keys ∧
    keys.Pairwise PortKey.Before ∧
    ∀ key, key ∈ keys ↔ map.Mapped key ∧ key.proto ∈ allowedProtocol.protos ∧
      pl.stateAllowed allowedState key = true

/-- Some mapped port of the protocol is in an allowed state. -/
def HasMatch (map : PortMap) (pl : PortList) (allowedState : PortState) (proto : Proto) : Prop :=
  ∃ portno ∈ map.portMapRev proto, pl.stateAllowed allowedState ⟨portno, proto⟩ = true

section

variable {map : PortMap} {pl : PortList} {allowedState : PortState}

/-- The matches of a protocol from an index on -/
def matchesFrom (map : PortMap) (pl : PortList) (allowedState : PortState) (proto : Proto)
    (start : Nat) : List PortKey :=
  (((map.portMapRev proto).drop start).map (PortKey.mk · proto)).filter
    (pl.stateAllowed allowedState)

theorem search_cases (proto : Proto) (start : Nat) :
    (pl.search map proto start allowedState = none ∧
      pl.matchesFrom map allowedState proto start = []) ∨
    ∃ i portno, (map.portMapRev proto)[i]? = some portno ∧
      pl.search map proto start allowedState = some ⟨portno, proto⟩ ∧
      pl.matchesFrom map allowedState proto start =
        ⟨portno, proto⟩ :: pl.matchesFrom map allowedState proto (i + 1) := by
  unfold search matchesFrom
  generalize hk : (map.portMapRev proto).length - start = k
  induction k generalizing start with
  | zero =>
    left
    rw [drop_eq_nil_of_le (by omega)]
    exact ⟨rfl, rfl⟩
  | succ k ih =>
    have inside : start < (map.portMapRev proto).length := by omega
    rw [drop_eq_getElem_cons inside, map_cons]
    by_cases allowed : pl.stateAllowed allowedState ⟨(map.portMapRev proto)[start], proto⟩ = true
    · right
      refine ⟨start, _, List.getElem?_eq_getElem inside, ?_, ?_⟩
      · rw [List.find?_cons_of_pos allowed]
      · rw [filter_cons_of_pos allowed]
    · rw [List.find?_cons_of_neg allowed, filter_cons_of_neg allowed]
      exact ih (start + 1) (by omega)

variable {proto : Proto}

theorem mem_matchesFrom {key : PortKey} :
    key ∈ pl.matchesFrom map allowedState proto 0 ↔
      map.Mapped key ∧ key.proto = proto ∧ pl.stateAllowed allowedState key = true := by
  unfold matchesFrom PortMap.Mapped
  rw [mem_filter, mem_map, drop_zero]
  constructor
  · rintro ⟨⟨portno, mem, rfl⟩, allowed⟩
    exact ⟨mem, rfl, allowed⟩
  · rintro ⟨mem, rfl, allowed⟩
    exact ⟨⟨key.portno, mem, rfl⟩, allowed⟩

theorem hasMatch_iff : pl.HasMatch map allowedState proto ↔
    pl.matchesFrom map allowedState proto 0 ≠ [] := by
  constructor
  · rintro ⟨portno, mem, allowed⟩
    exact ne_nil_of_mem (mem_matchesFrom.mpr ⟨mem, rfl, allowed⟩ :
      (⟨portno, proto⟩ : PortKey) ∈ _)
  · intro nonempty
    obtain ⟨key, mem⟩ := exists_mem_of_ne_nil _ nonempty
    obtain ⟨mapped, rfl, allowed⟩ := mem_matchesFrom.mp mem
    exact ⟨key.portno, mapped, allowed⟩

theorem pairwise_matchesFrom (proto : Proto) :
    (pl.matchesFrom map allowedState proto 0).Pairwise PortKey.Before := by
  unfold matchesFrom
  refine List.Pairwise.filter _ (pairwise_map.mpr ?_)
  rw [drop_zero]
  exact (map.sorted proto).imp fun lt => .inr ⟨rfl, lt⟩

/-! ## Runs of the iteration -/

/-- What later calls go on with after the last port of a protocol -/
def after (map : PortMap) (pl : PortList) (allowedState : PortState) : Proto → List PortKey
  | .tcp => pl.matchesFrom map allowedState .udp 0 ++ pl.matchesFrom map allowedState .sctp 0
  | .udp => pl.matchesFrom map allowedState .sctp 0
  | .sctp => []
  | .ip => []

variable {allowedProtocol : AllowedProtocol}

theorem visits_within {proto : Proto} {tail : List PortKey}
    (follows : ∀ portno, pl.search map proto (map.portMap proto portno + 1) allowedState = none →
      pl.Visits map allowedProtocol allowedState (some ⟨portno, proto⟩) tail)
    {i : Nat} {portno : UInt16} (entry : (map.portMapRev proto)[i]? = some portno) :
    pl.Visits map allowedProtocol allowedState (some ⟨portno, proto⟩)
      (pl.matchesFrom map allowedState proto (i + 1) ++ tail) := by
  have place := map.portMap_of_getElem? entry
  rcases search_cases proto (i + 1) with ⟨none, empty⟩ | ⟨j, next, entry', found, matched⟩
  · rw [empty]
    exact follows portno (by rw [place]; exact none)
  · rw [matched]
    refine .next ?_ (visits_within follows entry')
    unfold nextPort
    dsimp only
    rw [place, found]
termination_by (pl.matchesFrom map allowedState proto (i + 1)).length
decreasing_by
  rw [matched]
  exact Nat.lt_succ_self _

variable {cur : Option PortKey} {keys : List PortKey}

theorem visits_from {tail : List PortKey}
    (within : ∀ {i : Nat} {portno : UInt16}, (map.portMapRev proto)[i]? = some portno →
      pl.Visits map allowedProtocol allowedState (some ⟨portno, proto⟩)
        (pl.matchesFrom map allowedState proto (i + 1) ++ tail))
    {rest : Option PortKey}
    (call : pl.nextPort map cur allowedProtocol allowedState =
      (pl.search map proto 0 allowedState).or rest)
    (without : pl.search map proto 0 allowedState = none →
      pl.Visits map allowedProtocol allowedState cur keys) :
    pl.Visits map allowedProtocol allowedState cur
      (if (pl.matchesFrom map allowedState proto 0).isEmpty then keys
        else pl.matchesFrom map allowedState proto 0 ++ tail) := by
  rcases search_cases proto 0 with ⟨none, empty⟩ | ⟨i, portno, entry, found, matched⟩
  · rw [empty]
    exact without none
  · rw [matched]
    rw [found] at call
    exact .next call (within entry)

theorem nextPort_last {portno : UInt16}
    (last : pl.search map proto (map.portMap proto portno + 1) allowedState = none) :
    pl.nextPort map (some ⟨portno, proto⟩) allowedProtocol allowedState =
      if proto = .tcp then pl.firstPort map allowedState .udpAndSctp
      else if proto = .udp then pl.firstPort map allowedState (.only .sctp)
      else none := by
  unfold nextPort
  dsimp only
  rw [last]

theorem follows_sctp (portno : UInt16)
    (last : pl.search map .sctp (map.portMap .sctp portno + 1) allowedState = none) :
    pl.Visits map allowedProtocol allowedState (some ⟨portno, .sctp⟩) [] :=
  .done (nextPort_last last)

theorem visits_sctp
    (call : pl.nextPort map cur allowedProtocol allowedState =
      pl.search map .sctp 0 allowedState) :
    pl.Visits map allowedProtocol allowedState cur (pl.matchesFrom map allowedState .sctp 0) := by
  have without : pl.search map .sctp 0 allowedState = none →
      pl.Visits map allowedProtocol allowedState cur [] := fun none => .done (call.trans none)
  have visits := visits_from (visits_within follows_sctp) (by rw [call, Option.or_none]) without
  split at visits
  · next empty =>
      rw [isEmpty_iff.mp empty]
      exact visits
  · rw [append_nil] at visits
    exact visits

theorem follows_udp (portno : UInt16)
    (last : pl.search map .udp (map.portMap .udp portno + 1) allowedState = none) :
    pl.Visits map allowedProtocol allowedState (some ⟨portno, .udp⟩)
      (pl.after map allowedState .udp) :=
  visits_sctp (nextPort_last last)

theorem visits_udpAndSctp
    (call : pl.nextPort map cur allowedProtocol allowedState =
      pl.firstPort map allowedState .udpAndSctp) :
    pl.Visits map allowedProtocol allowedState cur (pl.after map allowedState .tcp) := by
  have visits := visits_from (visits_within follows_udp) call fun none => visits_sctp (by
    rw [call, firstPort, none, Option.none_or])
  split at visits
  · next empty =>
      rw [after, isEmpty_iff.mp empty]
      exact visits
  · exact visits

theorem follows_tcp (portno : UInt16)
    (last : pl.search map .tcp (map.portMap .tcp portno + 1) allowedState = none) :
    pl.Visits map allowedProtocol allowedState (some ⟨portno, .tcp⟩)
      (pl.after map allowedState .tcp) :=
  visits_udpAndSctp (nextPort_last last)

theorem follows_proto (proto : Proto) (portno : UInt16)
    (last : pl.search map proto (map.portMap proto portno + 1) allowedState = none) :
    pl.Visits map allowedProtocol allowedState (some ⟨portno, proto⟩)
      (pl.after map allowedState proto) := by
  cases proto with
  | tcp => exact follows_tcp portno last
  | udp => exact follows_udp portno last
  | sctp => exact follows_sctp portno last
  | ip => exact .done (nextPort_last last)

/-- The ports that `nextPort` visits in the end -/
def visited (map : PortMap) (pl : PortList) (allowedState : PortState) :
    AllowedProtocol → List PortKey
  | .only proto =>
    if (pl.matchesFrom map allowedState proto 0).isEmpty then []
    else pl.matchesFrom map allowedState proto 0 ++ pl.after map allowedState proto
  | .udpAndSctp => pl.after map allowedState .tcp
  | .tcpAndUdpAndSctp => pl.matchesFrom map allowedState .tcp 0 ++ pl.after map allowedState .tcp

theorem visits_visited (allowedProtocol : AllowedProtocol) :
    pl.Visits map allowedProtocol allowedState none
      (pl.visited map allowedState allowedProtocol) := by
  cases allowedProtocol with
  | only proto =>
    have call : pl.nextPort map none (.only proto) allowedState =
        (pl.search map proto 0 allowedState).or none := by
      rw [Option.or_none]
      rfl
    refine visits_from (visits_within (follows_proto proto)) call fun none => .done ?_
    exact none
  | udpAndSctp => exact visits_udpAndSctp rfl
  | tcpAndUdpAndSctp =>
    have call : pl.nextPort map none .tcpAndUdpAndSctp allowedState =
        (pl.search map .tcp 0 allowedState).or (pl.firstPort map allowedState .udpAndSctp) := rfl
    have visits := visits_from (visits_within follows_tcp) call fun none =>
      visits_udpAndSctp (by rw [call, none, Option.none_or])
    split at visits
    · next empty =>
        rw [visited, isEmpty_iff.mp empty]
        exact visits
    · exact visits

theorem Visits.unique {keys' : List PortKey}
    (visits : pl.Visits map allowedProtocol allowedState cur keys)
    (visits' : pl.Visits map allowedProtocol allowedState cur keys') : keys = keys' := by
  induction visits generalizing keys' with
  | done none =>
    cases visits' with
    | done _ => rfl
    | next some _ =>
      rw [none] at some
      cases some
  | next some _ ih =>
    cases visits' with
    | done none =>
      rw [some] at none
      cases none
    | next some' rest =>
      rw [some] at some'
      cases some'
      rw [ih rest]

/-! ## When the iteration is exact -/

theorem pairwise_append_matches {a b : Proto} (lt : a.rank < b.rank)
    (pairwise : keys.Pairwise PortKey.Before) (later : ∀ key ∈ keys, b.rank ≤ key.proto.rank) :
    (pl.matchesFrom map allowedState a 0 ++ keys).Pairwise PortKey.Before := by
  rw [pairwise_append]
  refine ⟨pairwise_matchesFrom a, pairwise, fun key mem key' mem' => .inl ?_⟩
  rw [(mem_matchesFrom.mp mem).2.1]
  exact Nat.lt_of_lt_of_le lt (later key' mem')

theorem pairwise_after_tcp : (pl.after map allowedState .tcp).Pairwise PortKey.Before := by
  refine pairwise_append_matches (by decide : Proto.udp.rank < Proto.sctp.rank)
    (pairwise_matchesFrom .sctp) fun key mem => ?_
  have sctp : key.proto = .sctp := (mem_matchesFrom.mp mem).2.1
  exact Nat.le_of_eq (congrArg Proto.rank sctp.symm)

theorem mem_after_tcp {key : PortKey} : key ∈ pl.after map allowedState .tcp ↔
    map.Mapped key ∧ (key.proto = .udp ∨ key.proto = .sctp) ∧
      pl.stateAllowed allowedState key = true := by
  rw [after, mem_append, mem_matchesFrom, mem_matchesFrom]
  tauto

/-- The ports that were asked for are left for others: more than one protocol matches where
only one was asked for. -/
def Overruns (map : PortMap) (pl : PortList) (allowedState : PortState) : AllowedProtocol → Prop
  | .only .tcp => pl.HasMatch map allowedState .tcp ∧
      (pl.HasMatch map allowedState .udp ∨ pl.HasMatch map allowedState .sctp)
  | .only .udp => pl.HasMatch map allowedState .udp ∧ pl.HasMatch map allowedState .sctp
  | _ => False

theorem visited_only (stays : ¬ pl.Overruns map allowedState (.only proto)) :
    pl.visited map allowedState (.only proto) = pl.matchesFrom map allowedState proto 0 := by
  rw [visited]
  split
  · next empty => exact (isEmpty_iff.mp empty).symm
  · next nonempty =>
      have has : pl.HasMatch map allowedState proto :=
        hasMatch_iff.mpr fun empty => nonempty (isEmpty_iff.mpr empty)
      have none : ∀ {other : Proto}, ¬ pl.HasMatch map allowedState other →
          pl.matchesFrom map allowedState other 0 = [] := fun no =>
        Classical.not_not.mp fun some => no (hasMatch_iff.mpr some)
      have last : pl.after map allowedState proto = [] := by
        cases proto with
        | tcp =>
          have udp := none fun udp => stays ⟨has, .inl udp⟩
          have sctp := none fun sctp => stays ⟨has, .inr sctp⟩
          rw [after, udp, sctp]
          rfl
        | udp => exact none fun sctp => stays ⟨has, sctp⟩
        | sctp => rfl
        | ip => rfl
      rw [last, append_nil]

/-- Asked for one protocol, another one is visited. -/
theorem visited_overruns {allowedProtocol : AllowedProtocol}
    (overruns : pl.Overruns map allowedState allowedProtocol) :
    ∃ key ∈ pl.visited map allowedState allowedProtocol,
      key.proto ∉ allowedProtocol.protos := by
  have start : ∀ {proto other : Proto}, pl.HasMatch map allowedState proto →
      pl.HasMatch map allowedState other → proto ≠ other →
      (∀ key ∈ pl.matchesFrom map allowedState other 0, key ∈ pl.after map allowedState proto) →
      ∃ key ∈ pl.visited map allowedState (.only proto),
        key.proto ∉ (AllowedProtocol.only proto).protos := by
    intro proto other has hasOther ne follows
    obtain ⟨key, mem⟩ := exists_mem_of_ne_nil _ (hasMatch_iff.mp hasOther)
    refine ⟨key, ?_, ?_⟩
    · rw [visited, if_neg fun empty => hasMatch_iff.mp has (isEmpty_iff.mp empty)]
      exact mem_append_right _ (follows key mem)
    · rw [(mem_matchesFrom.mp mem).2.1]
      exact fun h => ne (mem_singleton.mp h).symm
  cases allowedProtocol with
  | only proto =>
    cases proto with
    | tcp =>
      rcases overruns with ⟨tcp, udp | sctp⟩
      · exact start tcp udp (by decide) fun key mem => mem_append_left _ mem
      · exact start tcp sctp (by decide) fun key mem => mem_append_right _ mem
    | udp => exact start overruns.1 overruns.2 (by decide) fun key mem => mem
    | sctp => exact overruns.elim
    | ip => exact overruns.elim
  | udpAndSctp => exact overruns.elim
  | tcpAndUdpAndSctp => exact overruns.elim

end

/-- **When the iteration is exact.** Starting without a port and passing back each one
returned, `nextPort` visits exactly the ports that were asked for, in order, unless it was
asked for TCP or UDP alone, that protocol has a match, and so has a protocol after it. -/
theorem iteration_exact_iff (map : PortMap) (pl : PortList) (allowedProtocol : AllowedProtocol)
    (allowedState : PortState) :
    pl.IteratesExactly map allowedProtocol allowedState ↔
      ¬ pl.Overruns map allowedState allowedProtocol := by
  constructor
  · rintro ⟨keys, visits, -, members⟩ overruns
    rw [visits.unique (visits_visited allowedProtocol)] at members
    obtain ⟨key, mem, other⟩ := visited_overruns overruns
    exact other ((members key).mp mem).2.1
  · intro stays
    refine ⟨_, visits_visited allowedProtocol, ?_⟩
    cases allowedProtocol with
    | only proto =>
      rw [visited_only stays]
      refine ⟨pairwise_matchesFrom proto, fun key => ?_⟩
      rw [mem_matchesFrom, AllowedProtocol.protos, mem_singleton]
    | udpAndSctp =>
      refine ⟨pairwise_after_tcp, fun key => ?_⟩
      rw [visited, mem_after_tcp]
      simp [AllowedProtocol.protos]
    | tcpAndUdpAndSctp =>
      refine ⟨pairwise_append_matches (by decide : Proto.tcp.rank < Proto.udp.rank)
        pairwise_after_tcp fun key mem => ?_, fun key => ?_⟩
      · rcases (mem_after_tcp.mp mem).2.1 with h | h <;> rw [h] <;> decide
      · rw [visited, mem_append, mem_matchesFrom, mem_after_tcp]
        simp only [AllowedProtocol.protos, mem_cons, not_mem_nil, or_false]
        tauto

def tcpAndUdp : PortMap where
  portMapRev := fun proto => if proto = .tcp then [22] else if proto = .udp then [53] else []
  sorted := by
    intro proto
    cases proto with
    | tcp | udp => exact pairwise_singleton _ _
    | sctp | ip => exact .nil
  protocols := by simp

/-- Asked for TCP ports, `nextPort` goes on with UDP. -/
theorem tcp_iteration_visits_udp :
    (new tcpAndUdp).Visits tcpAndUdp (.only .tcp) .unknown none [⟨22, .tcp⟩, ⟨53, .udp⟩] ∧
      ¬ (new tcpAndUdp).IteratesExactly tcpAndUdp (.only .tcp) .unknown := by
  have visits : (new tcpAndUdp).Visits tcpAndUdp (.only .tcp) .unknown none
      [⟨22, .tcp⟩, ⟨53, .udp⟩] := .next (by decide) (.next (by decide) (.done (by decide)))
  refine ⟨visits, ?_⟩
  rintro ⟨keys, visits', -, members⟩
  rw [visits'.unique visits] at members
  have udp := ((members ⟨53, .udp⟩).mp (by decide)).2.1
  exact absurd udp (by decide)

end PortList

end Nmap.Ports
