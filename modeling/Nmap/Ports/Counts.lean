import Mathlib.Algebra.BigOperators.Group.List.Basic
import Mathlib.Data.List.Nodup
import Nmap.Ports.PortMap

/-!
# The counts by state (`portlist.cc`)

`state_counts_proto` says how many of the mapped ports are in each state, those in the
default state included. Every operation moves at most one port from one state to another,
except for `setDefaultPortState`, which moves all ports that do not exist yet, and each
adjusts the counts to match (`Exact`).
-/

namespace Nmap.Ports

open List Function Option

/-! ## Counting a list by a label -/

section

variable {α σ : Type} [DecidableEq σ]

theorem countP_update {l : List α} (nodup : l.Nodup) {x : α} (mem : x ∈ l) {f g : α → σ}
    (others : ∀ y ∈ l, y ≠ x → g y = f y) (s : σ) :
    (l.countP (fun y => g y = s) : Int) = l.countP (fun y => f y = s) +
      (if f x = s then -1 else 0) + (if g x = s then 1 else 0) := by
  induction l with
  | nil => cases mem
  | cons y l ih =>
    obtain ⟨fresh, nodup⟩ := nodup_cons.mp nodup
    by_cases here : y = x
    · subst here
      have rest : l.countP (fun y => g y = s) = l.countP (fun y => f y = s) := by
        apply countP_congr
        intro z mem'
        have ne : z ≠ y := fun h => fresh (h ▸ mem')
        rw [others z (mem_cons_of_mem _ mem') ne]
      rw [countP_cons, countP_cons, rest]
      by_cases fs : f y = s <;> by_cases gs : g y = s <;> simp [fs, gs]
    · have mem' : x ∈ l := (mem_cons.mp mem).resolve_left (Ne.symm here)
      have rest := ih nodup mem' fun z hz => others z (mem_cons_of_mem _ hz)
      rw [countP_cons, countP_cons, others y mem_cons_self here]
      push_cast
      rw [rest]
      omega

theorem sum_countP {labels : List σ} (nodup : labels.Nodup) (f : α → σ)
    (all : ∀ y, f y ∈ labels) (l : List α) :
    (labels.map fun s => l.countP fun y => f y = s).sum = l.length := by
  induction l with
  | nil => simp
  | cons y l ih =>
    have one : (labels.map fun s => if f y = s then 1 else 0).sum = 1 := by
      have count : (labels.map fun s => if f y = s then 1 else 0).sum = labels.count (f y) := by
        clear ih nodup all
        induction labels with
        | nil => rfl
        | cons s labels ih =>
          rw [map_cons, sum_cons, ih, count_cons]
          by_cases h : s = f y
          · simp [h, Nat.add_comm]
          · simp [h, Ne.symm h]
      rw [count, count_eq_one_of_mem nodup (all y)]
    have split : (fun s => (y :: l).countP fun y => f y = s) =
        fun s => (l.countP fun y => f y = s) + if f y = s then 1 else 0 := by
      funext s
      rw [countP_cons]
      simp
    rw [split, sum_map_add, ih, one, length_cons]

end

namespace PortList

/-! ## One operation -/

/-- The counts are those of the mapped ports. -/
def Exact (map : PortMap) (pl : PortList) : Prop :=
  ∀ proto state, pl.stateCounts proto state =
    ((map.portMapRev proto).countP fun portno => pl.getPortState ⟨portno, proto⟩ = state : Int)

theorem new_exact (map : PortMap) : (new map).Exact map := by
  intro proto state
  show (if state = .unknown then ((map.portMapRev proto).length : Int) else 0) = _
  split
  · next unknown =>
      rw [unknown, countP_eq_length.mpr]
      intro portno _
      rfl
  · next other =>
      rw [countP_eq_zero.mpr]
      · rfl
      · intro portno _
        have default : (new map).getPortState ⟨portno, proto⟩ = .unknown := rfl
        rw [default]
        simpa using Ne.symm other

theorem stateCounts_count (pl : PortList) (proto proto' : Proto) (state state' : PortState)
    (d : Int) : (pl.count proto state d).stateCounts proto' state' =
      pl.stateCounts proto' state' + if proto = proto' ∧ state = state' then d else 0 := by
  unfold count
  dsimp only
  by_cases hp : proto = proto'
  · subst hp
    rw [update_self]
    by_cases hs : state = state'
    · subst hs
      simp
    · rw [update_of_ne (Ne.symm hs)]
      simp [hs]
  · rw [update_of_ne (Ne.symm hp)]
    simp [hp]

variable {map : PortMap} {pl pl' : PortList} {key : PortKey}

/-- One port moves from its state to another, and the counts follow. -/
theorem Exact.move (exact : pl.Exact map) (mapped : map.Mapped key) {state : PortState}
    (moved : pl'.getPortState key = state)
    (others : ∀ key', key' ≠ key → pl'.getPortState key' = pl.getPortState key')
    (counts : ∀ proto s, pl'.stateCounts proto s = pl.stateCounts proto s +
      (if key.proto = proto ∧ pl.getPortState key = s then -1 else 0) +
      (if key.proto = proto ∧ state = s then 1 else 0)) : pl'.Exact map := by
  intro proto s
  rw [counts, exact proto s]
  by_cases hp : key.proto = proto
  · subst hp
    have recount := countP_update (map.nodup key.proto) mapped
      (f := fun portno => pl.getPortState ⟨portno, key.proto⟩)
      (g := fun portno => pl'.getPortState ⟨portno, key.proto⟩)
      (fun portno _ ne => others _ fun h => ne (congrArg PortKey.portno h)) s
    have now : pl'.getPortState ⟨key.portno, key.proto⟩ = state := moved
    rw [recount, now]
    simp only [true_and]
  · have same : (map.portMapRev proto).countP (fun portno =>
        pl'.getPortState ⟨portno, proto⟩ = s) =
        (map.portMapRev proto).countP fun portno => pl.getPortState ⟨portno, proto⟩ = s := by
      apply countP_congr
      intro portno _
      rw [others ⟨portno, proto⟩ fun h => hp (congrArg PortKey.proto h).symm]
    rw [same]
    simp [hp]

theorem Exact.congr (exact : pl.Exact map)
    (states : ∀ key, pl'.getPortState key = pl.getPortState key)
    (counts : pl'.stateCounts = pl.stateCounts) : pl'.Exact map := by
  intro proto state
  rw [counts, exact proto state]
  simp only [states]

theorem getPortState_put (pl : PortList) (key key' : PortKey) (port : Port) :
    (pl.put key port).getPortState key' =
      if key' = key then port.state else pl.getPortState key' := by
  unfold getPortState put
  dsimp only
  split_ifs with same
  · rw [same, update_self]
  · rw [update_of_ne same]

theorem createPort_state (pl : PortList) (key : PortKey) :
    (pl.createPort key).1.state = pl.getPortState key := by
  unfold createPort getPortState
  split <;> rfl

theorem getPortState_create (pl : PortList) (key : PortKey) {port : Port}
    (state : port.state = (pl.createPort key).1.state) (key' : PortKey) :
    (pl.put key port).getPortState key' = pl.getPortState key' := by
  rw [getPortState_put]
  split
  · next same => rw [state, createPort_state, same]
  · rfl

theorem create_exact (exact : pl.Exact map) (key : PortKey) :
    (pl.create key).Exact map :=
  exact.congr (pl.getPortState_create key rfl) rfl

theorem setStateReason_exact (exact : pl.Exact map) (key : PortKey) (reason : ReasonCode)
    (ttl : UInt8) (ipAddr : ReasonAddr) :
    (pl.setStateReason key reason ttl ipAddr).Exact map :=
  exact.congr (pl.getPortState_create key rfl) rfl

theorem setPortState_exact (exact : pl.Exact map) (mapped : map.Mapped key)
    {state oldstate : PortState} (set : pl.setPortState key state = some (pl', oldstate)) :
    pl'.Exact map := by
  obtain ⟨⟨port, ports, portState⟩, -, legal⟩ := setPortState_ports set
  have default : pl'.defaultPortState = pl.defaultPortState ∧
      ∀ proto s, pl'.stateCounts proto s = pl.stateCounts proto s +
        (if key.proto = proto ∧ pl.getPortState key = s then -1 else 0) +
        (if key.proto = proto ∧ state = s then 1 else 0) := by
    have old : (if (pl.createPort key).2 then pl.defaultPortState key.proto
        else (pl.createPort key).1.state) = pl.getPortState key := by
      unfold createPort getPortState
      split <;> rfl
    unfold setPortState at set
    rw [legal] at set
    simp only [Bool.not_true, Bool.false_eq_true, if_false, old] at set
    split at set
    all_goals
      cases set
      refine ⟨rfl, fun proto s => ?_⟩
      show (count (put (count pl _ _ _) _ _) _ _ _).stateCounts proto s = _
      rw [stateCounts_count]
      show (count pl _ _ _).stateCounts proto s + _ = _
      rw [stateCounts_count]
  obtain ⟨default, counts⟩ := default
  refine exact.move mapped ?_ ?_ counts
  · unfold getPortState
    rw [ports, update_self]
    exact portState
  · intro key' ne
    unfold getPortState
    rw [ports, default, update_of_ne ne]

theorem forgetPort_exact (exact : pl.Exact map) (mapped : map.Mapped key) :
    (pl.forgetPort key).1.Exact map := by
  unfold forgetPort
  split
  · exact exact
  · next answer known =>
      have state : pl.getPortState key = answer.state := by
        unfold getPortState
        rw [known]
      have moved : getPortState { (pl.count key.proto answer.state (-1)).count key.proto
          (pl.defaultPortState key.proto) 1 with ports := update pl.ports key none } key =
          pl.defaultPortState key.proto := by
        unfold getPortState
        dsimp only
        rw [update_self]
        rfl
      refine exact.move mapped moved ?_ ?_
      · intro key' ne
        unfold getPortState
        dsimp only
        rw [update_of_ne ne]
        rfl
      · intro proto s
        show (count (count pl _ _ _) _ _ _).stateCounts proto s = _
        rw [stateCounts_count, stateCounts_count, state]
        rfl

/-- The loop of `setDefaultPortState` touches the counts only, one port after the other. -/
theorem setDefault_loop (proto : Proto) (state : PortState) (ports : List UInt16)
    (pl : PortList) : ∃ counts : Proto → PortState → Int,
      ports.foldl (fun (pl : PortList) portno =>
        if (pl.ports ⟨portno, proto⟩).isNone then
          (pl.count proto (pl.defaultPortState proto) (-1)).count proto state 1
        else pl) pl = { pl with stateCounts := counts } ∧
      (∀ proto' s, proto' ≠ proto → counts proto' s = pl.stateCounts proto' s) ∧
      ∀ s, counts proto s = pl.stateCounts proto s -
        (ports.countP fun portno => pl.getPortState ⟨portno, proto⟩ = s) +
        (ports.countP fun portno =>
          ((pl.ports ⟨portno, proto⟩).map Port.state).getD state = s) := by
  induction ports generalizing pl with
  | nil => exact ⟨pl.stateCounts, rfl, fun _ _ _ => rfl, fun s => by simp⟩
  | cons portno ports ih =>
    rw [foldl_cons]
    split
    · next new =>
        have isNew : pl.ports ⟨portno, proto⟩ = none := isNone_iff_eq_none.mp new
        obtain ⟨counts, eq, others, here⟩ := ih
          ((pl.count proto (pl.defaultPortState proto) (-1)).count proto state 1)
        refine ⟨counts, eq, fun proto' s ne => ?_, fun s => ?_⟩
        · rw [others proto' s ne, stateCounts_count, stateCounts_count]
          simp [Ne.symm ne]
        · have old : pl.getPortState ⟨portno, proto⟩ = pl.defaultPortState proto := by
            unfold getPortState
            rw [isNew]
          have rest : counts proto s =
              ((pl.count proto (pl.defaultPortState proto) (-1)).count proto state 1).stateCounts
                proto s - (ports.countP fun portno => pl.getPortState ⟨portno, proto⟩ = s) +
              (ports.countP fun portno =>
                ((pl.ports ⟨portno, proto⟩).map Port.state).getD state = s) := here s
          rw [rest, stateCounts_count, stateCounts_count, countP_cons, countP_cons, old,
            isNew]
          simp only [map_none, getD_none, true_and, decide_eq_true_eq]
          split_ifs <;> push_cast <;> omega
    · next known =>
        obtain ⟨port, isPort⟩ := ne_none_iff_exists'.mp fun h =>
          known (isNone_iff_eq_none.mpr h)
        obtain ⟨counts, eq, others, here⟩ := ih pl
        refine ⟨counts, eq, others, fun s => ?_⟩
        have old : pl.getPortState ⟨portno, proto⟩ = port.state := by
          unfold getPortState
          rw [isPort]
        rw [here s, countP_cons, countP_cons, old, isPort]
        simp only [map_some, getD_some]
        push_cast
        omega

theorem setDefaultPortState_exact (exact : pl.Exact map) (proto : Proto) (state : PortState) :
    (pl.setDefaultPortState map proto state).Exact map := by
  obtain ⟨counts, eq, others, here⟩ := setDefault_loop proto state (map.portMapRev proto) pl
  unfold setDefaultPortState
  rw [eq]
  intro proto' s
  by_cases same : proto' = proto
  · subst same
    show counts proto' s = _
    rw [here s, exact proto' s]
    have now : ∀ portno, getPortState { pl with
        stateCounts := counts
        defaultPortState := update pl.defaultPortState proto' state } ⟨portno, proto'⟩ =
        ((pl.ports ⟨portno, proto'⟩).map Port.state).getD state := by
      intro portno
      unfold getPortState
      dsimp only
      cases pl.ports ⟨portno, proto'⟩ with
      | none => rw [update_self]; rfl
      | some port => rfl
    simp only [now]
    omega
  · show counts proto' s = _
    rw [others proto' s same, exact proto' s]
    have now : ∀ portno, getPortState { pl with
        stateCounts := counts
        defaultPortState := update pl.defaultPortState proto state } ⟨portno, proto'⟩ =
        pl.getPortState ⟨portno, proto'⟩ := by
      intro portno
      unfold getPortState
      dsimp only
      rw [update_of_ne same]
    simp only [now]

end PortList

/-! ## Sequences of operations -/

/-- The states a port can be counted in -/
def allStates : List PortState :=
  [.unknown, .closed, .open, .filtered, .testing, .fresh, .unfiltered, .openFiltered,
    .closedFiltered]

/-- The operation is for a mapped port and sets a legal state. -/
def PortOp.Legal (map : PortMap) : PortOp → Prop
  | .setPortState key state => map.Mapped key ∧ PortList.legalState state = true
  | .setDefaultPortState _ _ => True
  | .setServiceProbeResults key _ => map.Mapped key
  | .addScriptResult key _ => map.Mapped key
  | .setStateReason key _ _ _ => map.Mapped key
  | .forgetPort key => map.Mapped key

theorem apply_exact {map : PortMap} (getServByPort : PortKey → Option Base.Bytes)
    {tp : TargetPorts} (exact : tp.list.Exact map) {op : PortOp} (legal : op.Legal map) :
    ∃ tp', tp.apply map getServByPort op = some tp' ∧ tp'.list.Exact map := by
  cases op with
  | setPortState key state =>
    have accepted := tp.list.setPortState_isSome key legal.2
    obtain ⟨⟨pl, old⟩, set⟩ := isSome_iff_exists.mp accepted
    refine ⟨{ tp with list := pl }, ?_, PortList.setPortState_exact exact legal.1 set⟩
    show (tp.list.setPortState key state).map _ = _
    rw [set]
    rfl
  | setDefaultPortState proto state =>
    exact ⟨_, rfl, PortList.setDefaultPortState_exact exact proto state⟩
  | setServiceProbeResults key results => exact ⟨_, rfl, PortList.create_exact exact key⟩
  | addScriptResult key sr => exact ⟨_, rfl, PortList.create_exact exact key⟩
  | setStateReason key reason ttl ipAddr =>
    exact ⟨_, rfl, PortList.setStateReason_exact exact key reason ttl ipAddr⟩
  | forgetPort key => exact ⟨_, rfl, PortList.forgetPort_exact exact legal⟩

theorem run_exact {map : PortMap} (getServByPort : PortKey → Option Base.Bytes)
    {tp : TargetPorts} (exact : tp.list.Exact map) {ops : List PortOp}
    (legal : ∀ op ∈ ops, op.Legal map) :
    ∃ tp', tp.run map getServByPort ops = some tp' ∧ tp'.list.Exact map := by
  induction ops generalizing tp with
  | nil => exact ⟨tp, rfl, exact⟩
  | cons op ops ih =>
    obtain ⟨tp₁, step, exact₁⟩ := apply_exact getServByPort exact (legal op mem_cons_self)
    obtain ⟨tp₂, rest, exact₂⟩ := ih exact₁ fun op mem => legal op (mem_cons_of_mem _ mem)
    refine ⟨tp₂, ?_, exact₂⟩
    unfold TargetPorts.run at rest ⊢
    rw [foldlM_cons, step]
    exact rest

/-- **The counts are exact.** After any operations on mapped ports each count is the number of
mapped ports in that state; so no count is negative and they add up to the ports of the
protocol. -/
theorem counts_exact (map : PortMap) (getServByPort : PortKey → Option Base.Bytes)
    (ops : List PortOp) (legal : ∀ op ∈ ops, op.Legal map) :
    ∃ tp, (TargetPorts.new map).run map getServByPort ops = some tp ∧ ∀ proto,
      (∀ state, tp.list.stateCounts proto state = ((map.portMapRev proto).countP fun portno =>
        tp.list.getPortState ⟨portno, proto⟩ = state : Int)) ∧
      (∀ state, 0 ≤ tp.list.stateCounts proto state) ∧
      (allStates.map (tp.list.stateCounts proto)).sum = map.portListCount proto := by
  have start : (TargetPorts.new map).list.Exact map := PortList.new_exact map
  obtain ⟨tp, ran, exact⟩ := run_exact getServByPort start legal
  refine ⟨tp, ran, fun proto => ⟨exact proto, fun state => ?_, ?_⟩⟩
  · rw [exact proto state]
    exact Int.natCast_nonneg _
  · have every : ∀ state, state ∈ allStates := by
      intro state
      cases state <;> decide
    have total := sum_countP (by decide : allStates.Nodup)
      (fun portno => tp.list.getPortState ⟨portno, proto⟩) (fun _ => every _)
      (map.portMapRev proto)
    have counts : tp.list.stateCounts proto = fun state =>
        (((map.portMapRev proto).countP fun portno =>
          tp.list.getPortState ⟨portno, proto⟩ = state : Nat) : Int) := funext (exact proto)
    rw [PortMap.portListCount, ← total, counts]
    simp [allStates]

def sshAndHttp : PortMap where
  portMapRev := fun proto => if proto = .tcp then [22, 80] else []
  sorted := by
    intro proto
    cases proto with
    | tcp => exact pairwise_pair.mpr (by decide)
    | udp | sctp | ip => exact .nil
  protocols := by simp

theorem counts_exact_sshAndHttp :
    ∃ tp, (TargetPorts.new sshAndHttp).run sshAndHttp (fun _ => none)
        [.addScriptResult ⟨22, .tcp⟩ [], .setDefaultPortState .tcp .closed,
          .setPortState ⟨80, .tcp⟩ .open] = some tp ∧
      (allStates.map (tp.list.stateCounts .tcp)).sum = 2 := by
  have mapped : ∀ portno ∈ [(22 : UInt16), 80], sshAndHttp.Mapped ⟨portno, .tcp⟩ :=
    fun portno mem => mem
  obtain ⟨tp, ran, exact⟩ := counts_exact sshAndHttp (fun _ => none)
    [.addScriptResult ⟨22, .tcp⟩ [], .setDefaultPortState .tcp .closed,
      .setPortState ⟨80, .tcp⟩ .open] (by
    intro op mem
    simp only [mem_cons, not_mem_nil, or_false] at mem
    rcases mem with rfl | rfl | rfl
    · exact mapped 22 (by decide)
    · trivial
    · exact ⟨mapped 80 (by decide), rfl⟩)
  exact ⟨tp, ran, (exact .tcp).2.2⟩

end Nmap.Ports
