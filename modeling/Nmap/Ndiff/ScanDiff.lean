import Nmap.Ndiff.HostDiff

/-!
# The differences of two scans (`ndiff.py`)

`ScanDiff.output` compares the hosts of two scans, paired by their ids, and returns the sum of the
costs, from which the exit code is made. Scripts of the scan and tunnels of services are not
counted, but the order of the extra ports is.
-/

namespace Nmap.Ndiff

open Nmap.Base List

/-! ## Pairs of hosts -/

def hostPairs : List Host → List Host → Except PyError (List (Host × Host))
  | [], bs => .ok (bs.map fun b => (Host.empty, b))
  | a :: as, [] => .ok ((a :: as).map fun a => (a, Host.empty))
  | a :: as, b :: bs => do
    if ← a.getId.lt? b.getId then
      let rest ← hostPairs as (b :: bs)
      return (a, Host.empty) :: rest
    else if ← b.getId.lt? a.getId then
      let rest ← hostPairs (a :: as) bs
      return (Host.empty, b) :: rest
    else
      let rest ← hostPairs as bs
      return (a, b) :: rest
  termination_by as bs => as.length + bs.length

/-! ## `ScanDiff.output` -/

/-- The output methods of a subclass, as what they write. Only that for a host can raise an
exception. -/
structure Methods where
  outputBeginning : Scan → Scan → List String
  outputPreScripts : Scan → Scan → List ScriptResultDiff → List String
  outputHostDiff : HostDiff → Except PyError (List String)
  outputPostScripts : Scan → Scan → List ScriptResultDiff → List String
  outputEnding : List String

/-- The loop over the pairs of hosts: the cost and what is written -/
def outputHosts (methods : Methods) (difflib : Difflib) (verbose : Bool) :
    List (Host × Host) → Except PyError (Nat × List String)
  | [] => .ok (0, [])
  | (hostA, hostB) :: pairs => do
    let diff := HostDiff.new difflib verbose hostA hostB
    let shown ← if diff.cost > 0 ∨ verbose = true then methods.outputHostDiff diff else .ok []
    let (cost, written) ← outputHosts methods difflib verbose pairs
    return (diff.cost + cost, shown ++ written)

def output (methods : Methods) (difflib : Difflib) (verbose : Bool) (scanA scanB : Scan) :
    Except PyError (Nat × List String) := do
  let a ← scanA.sortHosts
  let b ← scanB.sortHosts
  let beginning := methods.outputBeginning a b
  let pre := methods.outputPreScripts a b (diffLists verbose a.preScriptResults b.preScriptResults)
  let pairs ← hostPairs a.hosts b.hosts
  let (cost, hosts) ← outputHosts methods difflib verbose pairs
  let post :=
    methods.outputPostScripts a b (diffLists verbose a.postScriptResults b.postScriptResults)
  return (cost, beginning ++ pre ++ hosts ++ post ++ methods.outputEnding)

def ReturnsZero (methods : Methods) (difflib : Difflib) (scanA scanB : Scan) : Prop :=
  ∃ written, output methods difflib false scanA scanB = .ok (0, written)

/-! ## What it means to be the same -/

/-- An empty host in the place of one that is missing -/
def fill (pair : Option Host × Option Host) : Host × Host :=
  (pair.1.getD Host.empty, pair.2.getD Host.empty)

/-- The hosts are paired: they have one id, or one has an id that the other scan does not have. -/
def Paired (as bs : List Host) (x y : Host) : Prop :=
  ∃ pair, Joined Host.getId Host.getId as bs pair ∧ fill pair = (x, y)

/-- The hosts are the same, but for the tunnels of services and the order of the extra ports. -/
structure Alike (a b : Host) : Prop where
  state : a.state = b.state
  addresses : ∀ x, x ∈ a.addresses ↔ x ∈ b.addresses
  hostnames : ∀ x, x ∈ a.hostnames ↔ x ∈ b.hostnames
  ports : ∀ spec, Folded a b spec ∨ SamePort (a.portOr spec) (b.portOr spec)
  os : a.os = b.os
  extraports : ∀ state, a.getExtraports state = b.getExtraports state
  scripts : a.scriptResults = b.scriptResults

/-- Some service that is not folded has another tunnel. -/
def TunnelDiffers (a b : Host) : Prop :=
  ∃ spec, ¬ Folded a b spec ∧ (a.portOr spec).service.tunnel ≠ (b.portOr spec).service.tunnel

/-- The hosts are the same: in state, addresses, host names, operating systems, scripts, the counts
of the extra ports, and the state, service and scripts of every port that is not folded. -/
structure SameHost (a b : Host) : Prop where
  state : a.state = b.state
  addresses : ∀ x, x ∈ a.addresses ↔ x ∈ b.addresses
  hostnames : ∀ x, x ∈ a.hostnames ↔ x ∈ b.hostnames
  ports : ∀ spec, Folded a b spec ∨
    (a.portOr spec).state = (b.portOr spec).state ∧
      (a.portOr spec).service = (b.portOr spec).service ∧
      (a.portOr spec).scriptResults = (b.portOr spec).scriptResults
  os : a.os = b.os
  extraports : ∀ state, a.getExtraports state = b.getExtraports state
  scripts : a.scriptResults = b.scriptResults

structure SameScan (a b : Scan) : Prop where
  pre : a.preScriptResults = b.preScriptResults
  hosts : ∀ x y, Paired a.hosts b.hosts x y → SameHost x y
  post : a.postScriptResults = b.postScriptResults

/-- All ids are of one kind, so that they compare. -/
def OneKind (as bs : List Host) : Prop :=
  ∀ x ∈ as ++ bs, ∀ y ∈ as ++ bs, x.getId.isText = y.getId.isText

/-- What the cost misses: scripts of the scan, and tunnels -/
def Missed (a b : Scan) : Prop :=
  a.preScriptResults ≠ b.preScriptResults ∨ a.postScriptResults ≠ b.postScriptResults ∨
    ∃ x y, Paired a.hosts b.hosts x y ∧ TunnelDiffers x y

/-- What is counted although it is the same, the order of extra ports, or fails -/
def Miscounted (a b : Scan) : Prop :=
  ¬ OneKind a.hosts b.hosts ∨ ∃ x y, Paired a.hosts b.hosts x y ∧ x.extraports ≠ y.extraports

theorem Service.eq_iff {a b : Service} : a = b ↔ a.eq b = true ∧ a.tunnel = b.tunnel := by
  cases a
  cases b
  simp [Service.eq, and_assoc]

variable {a b : Host}

theorem sameHost_iff : SameHost a b ↔ Alike a b ∧ ¬ TunnelDiffers a b := by
  have tunnels : ¬ TunnelDiffers a b ↔ ∀ spec, Folded a b spec ∨
      (a.portOr spec).service.tunnel = (b.portOr spec).service.tunnel := by
    simp only [TunnelDiffers, not_exists, not_and, not_not, ← or_iff_not_imp_left]
  rw [tunnels]
  constructor
  · intro same
    refine ⟨⟨same.state, same.addresses, same.hostnames, fun spec => ?_, same.os,
      same.extraports, same.scripts⟩, fun spec => ?_⟩
    · refine (same.ports spec).imp_right fun ⟨state, service, scripts⟩ => ?_
      exact ⟨state, (Service.eq_iff.mp service).1, scripts⟩
    · exact (same.ports spec).imp_right fun ⟨_, service, _⟩ => (Service.eq_iff.mp service).2
  · rintro ⟨alike, tunnels⟩
    refine ⟨alike.state, alike.addresses, alike.hostnames, fun spec => ?_, alike.os,
      alike.extraports, alike.scripts⟩
    rcases tunnels spec with folded | tunnel
    · exact .inl folded
    · refine (alike.ports spec).imp_right fun same => ?_
      exact ⟨same.state, Service.eq_iff.mpr ⟨same.service, tunnel⟩, same.scripts⟩

theorem sameCounted_iff : SameCounted a b ↔ Alike a b ∧ a.extraports = b.extraports := by
  constructor
  · intro same
    refine ⟨⟨same.state, same.addresses, same.hostnames, same.ports, same.os, fun state => ?_,
      same.scripts⟩, same.extraports⟩
    rw [Host.getExtraports, Host.getExtraports, same.extraports]
  · rintro ⟨alike, items⟩
    exact ⟨alike.state, alike.addresses, alike.hostnames, alike.ports, alike.os, items,
      alike.scripts⟩

/-! ## Sorting and pairing -/

theorem HostId.lt?_eq {i j : HostId} (kind : i.isText = j.isText) :
    i.lt? j = .ok (decide (i < j)) := if_pos kind

/-- The hosts of a scan in the order of their ids -/
def Scan.sorted (scan : Scan) : List Host :=
  scan.hosts.mergeSort fun x y => decide (x.getId ≤ y.getId)

theorem Scan.sorted_perm (scan : Scan) : scan.sorted.Perm scan.hosts := mergeSort_perm _ _

theorem Scan.mem_sorted {scan : Scan} {x : Host} : x ∈ scan.sorted ↔ x ∈ scan.hosts :=
  scan.sorted_perm.mem_iff

theorem Scan.sorted_le (scan : Scan) : scan.sorted.Pairwise fun x y => x.getId ≤ y.getId := by
  have ordered : scan.sorted.Pairwise fun x y => decide (x.getId ≤ y.getId) = true := by
    refine pairwise_mergeSort (fun x y z xy yz => ?_) (fun x y => ?_) _
    · exact decide_eq_true ((of_decide_eq_true xy).trans (of_decide_eq_true yz))
    · rw [Bool.or_eq_true]
      exact (le_total x.getId y.getId).imp decide_eq_true decide_eq_true
  exact ordered.imp of_decide_eq_true

theorem Scan.sorted_pairwise {scan : Scan} (distinct : (scan.hosts.map Host.getId).Nodup) :
    scan.sorted.Pairwise fun x y => x.getId < y.getId := by
  have different : scan.sorted.Pairwise fun x y => x.getId ≠ y.getId := by
    refine (pairwise_map (f := Host.getId)).mp ?_
    exact (scan.sorted_perm.map Host.getId).nodup_iff.mpr distinct
  exact (scan.sorted_le.and different).imp fun both => lt_of_le_of_ne both.1 both.2

theorem OneKind.mono {as bs as' bs' : List Host} (kind : OneKind as bs) (left : as' ⊆ as)
    (right : bs' ⊆ bs) : OneKind as' bs' := by
  have both : as' ++ bs' ⊆ as ++ bs := append_subset.mpr
    ⟨fun x mem => mem_append_left _ (left mem), fun x mem => mem_append_right _ (right mem)⟩
  exact fun x hx y hy => kind x (both hx) y (both hy)

/-- Ids of one kind are paired without an exception. -/
theorem hostPairs_eq (as bs : List Host) (kind : OneKind as bs) :
    hostPairs as bs = .ok ((join Host.getId Host.getId as bs).map fill) := by
  fun_induction join Host.getId Host.getId as bs with
  | case1 bs =>
    rw [hostPairs, map_map]
    rfl
  | case2 a as =>
    rw [hostPairs, map_map]
    rfl
  | case3 a as b bs less ih =>
    have same : a.getId.isText = b.getId.isText := kind a (by simp) b (by simp)
    have rest := ih (kind.mono (subset_cons_self a as) (List.Subset.refl _))
    rw [hostPairs, HostId.lt?_eq same, rest, decide_eq_true less]
    rfl
  | case4 a as b bs notLess more ih =>
    have same : a.getId.isText = b.getId.isText := kind a (by simp) b (by simp)
    have rest := ih (kind.mono (List.Subset.refl _) (subset_cons_self b bs))
    rw [hostPairs, HostId.lt?_eq same, HostId.lt?_eq same.symm, rest, decide_eq_false notLess,
      decide_eq_true more]
    rfl
  | case5 a as b bs notLess notMore ih =>
    have same : a.getId.isText = b.getId.isText := kind a (by simp) b (by simp)
    have rest := ih (kind.mono (subset_cons_self a as) (subset_cons_self b bs))
    rw [hostPairs, HostId.lt?_eq same, HostId.lt?_eq same.symm, rest, decide_eq_false notLess,
      decide_eq_false notMore]
    rfl

theorem hostPairs_error (other : a.getId.isText ≠ b.getId.isText) (as bs : List Host) :
    hostPairs (a :: as) (b :: bs) = .error .typeError := by
  rw [hostPairs, HostId.lt?, if_neg other]
  rfl

/-! ## The cost of two scans -/

theorem Scan.sortHosts_eq (scan : Scan)
    (kind : ∀ x ∈ scan.hosts, ∀ y ∈ scan.hosts, x.getId.isText = y.getId.isText) :
    scan.sortHosts = .ok { scan with hosts := scan.sorted } := if_pos kind

variable {methods : Methods} {difflib : Difflib}

/-- With ids of one kind the cost is that of the pairs. -/
theorem returnsZero_iff {a b : Scan} (kind : OneKind a.hosts b.hosts) :
    ReturnsZero methods difflib a b ↔
      ∃ written, outputHosts methods difflib false
        ((join Host.getId Host.getId a.sorted b.sorted).map fill) = .ok (0, written) := by
  have sortA := Scan.sortHosts_eq a fun x hx y hy =>
    kind x (mem_append_left _ hx) y (mem_append_left _ hy)
  have sortB := Scan.sortHosts_eq b fun x hx y hy =>
    kind x (mem_append_right _ hx) y (mem_append_right _ hy)
  have pairs := hostPairs_eq a.sorted b.sorted
    (kind.mono (fun x => Scan.mem_sorted.mp) fun x => Scan.mem_sorted.mp)
  unfold ReturnsZero output
  rw [sortA, sortB]
  simp only [bind, Except.bind, pairs, pure, Except.pure]
  cases outputHosts methods difflib false
      ((join Host.getId Host.getId a.sorted b.sorted).map fill) with
  | error e =>
    constructor
    · rintro ⟨_, ⟨⟩⟩
    · rintro ⟨_, ⟨⟩⟩
  | ok result =>
    obtain ⟨cost, written⟩ := result
    constructor
    · rintro ⟨_, same⟩
      cases same
      exact ⟨written, rfl⟩
    · rintro ⟨_, same⟩
      cases same
      exact ⟨_, rfl⟩

/-- With ids of both kinds, either a sort or the first comparison of the merge fails. -/
theorem oneKind_of_merged {a b a' b' : Scan} {pairs : List (Host × Host)}
    (sortA : a.sortHosts = .ok a') (sortB : b.sortHosts = .ok b')
    (merged : hostPairs a'.hosts b'.hosts = .ok pairs) : OneKind a.hosts b.hosts := by
  by_cases kindA : ∀ x ∈ a.hosts, ∀ y ∈ a.hosts, x.getId.isText = y.getId.isText
  · by_cases kindB : ∀ x ∈ b.hosts, ∀ y ∈ b.hosts, x.getId.isText = y.getId.isText
    · rw [Scan.sortHosts_eq _ kindA] at sortA
      rw [Scan.sortHosts_eq _ kindB] at sortB
      cases sortA
      cases sortB
      -- the first hosts of the two lists compare, and so do all others
      have across : ∀ x ∈ a.hosts, ∀ y ∈ b.hosts, x.getId.isText = y.getId.isText := by
        intro x hx y hy
        obtain ⟨first, rest, sortedA⟩ :=
          exists_cons_of_ne_nil (ne_nil_of_mem (Scan.mem_sorted.mpr hx))
        obtain ⟨second, more, sortedB⟩ :=
          exists_cons_of_ne_nil (ne_nil_of_mem (Scan.mem_sorted.mpr hy))
        have inA : first ∈ a.hosts := Scan.mem_sorted.mp (sortedA ▸ mem_cons_self)
        have inB : second ∈ b.hosts := Scan.mem_sorted.mp (sortedB ▸ mem_cons_self)
        rw [kindA x hx first inA, kindB y hy second inB]
        by_contra other
        dsimp only at merged
        rw [sortedA, sortedB, hostPairs_error other] at merged
        cases merged
      intro x hx y hy
      rcases mem_append.mp hx with hx | hx <;> rcases mem_append.mp hy with hy | hy
      · exact kindA x hx y hy
      · exact across x hx y hy
      · exact (across y hy x hx).symm
      · exact kindB x hx y hy
    · have failed : b.sortHosts = .error .typeError := if_neg kindB
      rw [failed] at sortB
      cases sortB
  · have failed : a.sortHosts = .error .typeError := if_neg kindA
    rw [failed] at sortA
    cases sortA

/-- Ids of both kinds raise an exception. -/
theorem not_returnsZero {a b : Scan} (mixed : ¬ OneKind a.hosts b.hosts) :
    ¬ ReturnsZero methods difflib a b := by
  rintro ⟨written, returned⟩
  unfold output at returned
  cases sortA : a.sortHosts with
  | error e =>
    rw [sortA] at returned
    cases returned
  | ok a' =>
    cases sortB : b.sortHosts with
    | error e =>
      rw [sortA, sortB] at returned
      cases returned
    | ok b' =>
      rw [sortA, sortB] at returned
      cases merged : hostPairs a'.hosts b'.hosts with
      | error e =>
        simp only [bind, Except.bind, merged] at returned
        cases returned
      | ok pairs => exact mixed (oneKind_of_merged sortA sortB merged)

/-- The loop returns zero iff no pair has a cost: then nothing of a host is written. -/
theorem outputHosts_zero_iff (pairs : List (Host × Host)) :
    (∃ written, outputHosts methods difflib false pairs = .ok (0, written)) ↔
      ∀ pair ∈ pairs, (HostDiff.new difflib false pair.1 pair.2).cost = 0 := by
  induction pairs with
  | nil => exact ⟨fun _ pair mem => absurd mem not_mem_nil, fun _ => ⟨[], rfl⟩⟩
  | cons pair pairs ih =>
    obtain ⟨x, y⟩ := pair
    rw [forall_mem_cons, ← ih, outputHosts]
    by_cases zero : (HostDiff.new difflib false x y).cost = 0
    · simp only [zero, gt_iff_lt, Nat.lt_irrefl, Bool.false_eq_true, or_self, if_false, bind,
        Except.bind, pure, Except.pure, true_and]
      cases outputHosts methods difflib false pairs with
      | error e => simp
      | ok result =>
        obtain ⟨cost, written⟩ := result
        simp
    · have pos : (HostDiff.new difflib false x y).cost > 0 := Nat.pos_of_ne_zero zero
      refine iff_of_false ?_ fun h => zero h.1
      rintro ⟨written, returned⟩
      simp only [pos, true_or, if_true, bind, Except.bind] at returned
      cases shown : methods.outputHostDiff (HostDiff.new difflib false x y) with
      | error e =>
        rw [shown] at returned
        cases returned
      | ok lines =>
        rw [shown] at returned
        cases rest : outputHosts methods difflib false pairs with
        | error e =>
          rw [rest] at returned
          cases returned
        | ok result =>
          rw [rest] at returned
          dsimp only [pure, Except.pure] at returned
          have cost : _ + result.1 = 0 := congrArg Prod.fst (Except.ok.inj returned)
          omega

theorem joined_congr {as bs as' bs' : List Host} (left : ∀ x, x ∈ as ↔ x ∈ as')
    (right : ∀ x, x ∈ bs ↔ x ∈ bs') {pair : Option Host × Option Host}
    (joined : Joined Host.getId Host.getId as bs pair) :
    Joined Host.getId Host.getId as' bs' pair := by
  cases joined with
  | both mem other same => exact .both ((left _).mp mem) ((right _).mp other) same
  | left mem alone => exact .left ((left _).mp mem) fun y other => alone y ((right _).mpr other)
  | right mem alone => exact .right ((right _).mp mem) fun x other => alone x ((left _).mpr other)

theorem mem_pairs_iff {a b : Scan} (distinctA : (a.hosts.map Host.getId).Nodup)
    (distinctB : (b.hosts.map Host.getId).Nodup) {x y : Host} :
    (x, y) ∈ (join Host.getId Host.getId a.sorted b.sorted).map fill ↔
      Paired a.hosts b.hosts x y := by
  rw [mem_map]
  simp only [mem_join (Scan.sorted_pairwise distinctA) (Scan.sorted_pairwise distinctB)]
  constructor
  · rintro ⟨pair, joined, filled⟩
    exact ⟨pair, joined_congr (fun _ => Scan.mem_sorted) (fun _ => Scan.mem_sorted) joined, filled⟩
  · rintro ⟨pair, joined, filled⟩
    exact ⟨pair, joined_congr (fun _ => Scan.mem_sorted.symm) (fun _ => Scan.mem_sorted.symm) joined,
      filled⟩

/-- The cost of zero tells that the scans are the same, unless they are alike but for what is
missed or miscounted, and just one of the two occurs. -/
theorem output_zero_iff {difflib : Difflib} (law : difflib.AllEqualIff) (methods : Methods)
    {a b : Scan} (distinctA : (a.hosts.map Host.getId).Nodup)
    (distinctB : (b.hosts.map Host.getId).Nodup) :
    (ReturnsZero methods difflib a b ↔ SameScan a b) ↔
      ((∀ x y, Paired a.hosts b.hosts x y → Alike x y) → (Missed a b ↔ Miscounted a b)) := by
  have returns : ReturnsZero methods difflib a b ↔
      (∀ x y, Paired a.hosts b.hosts x y → Alike x y) ∧ ¬ Miscounted a b := by
    by_cases kind : OneKind a.hosts b.hosts
    · rw [returnsZero_iff kind, outputHosts_zero_iff]
      have pairs : (∀ pair ∈ (join Host.getId Host.getId a.sorted b.sorted).map fill,
          (HostDiff.new difflib false pair.1 pair.2).cost = 0) ↔
          ∀ x y, Paired a.hosts b.hosts x y → Alike x y ∧ x.extraports = y.extraports := by
        simp only [Prod.forall, mem_pairs_iff distinctA distinctB,
          HostDiff.cost_eq_zero_iff law, sameCounted_iff]
      rw [pairs, Miscounted, not_or, not_not]
      constructor
      · intro all
        refine ⟨fun x y paired => (all x y paired).1, kind, ?_⟩
        rintro ⟨x, y, paired, differ⟩
        exact differ (all x y paired).2
      · rintro ⟨alike, -, same⟩ x y paired
        refine ⟨alike x y paired, ?_⟩
        by_contra differ
        exact same ⟨x, y, paired, differ⟩
    · exact iff_of_false (not_returnsZero kind) fun h => h.2 (.inl kind)
  have same : SameScan a b ↔
      (∀ x y, Paired a.hosts b.hosts x y → Alike x y) ∧ ¬ Missed a b := by
    constructor
    · intro same
      refine ⟨fun x y paired => (sameHost_iff.mp (same.hosts x y paired)).1, ?_⟩
      rintro (pre | post | ⟨x, y, paired, tunnel⟩)
      · exact pre same.pre
      · exact post same.post
      · exact (sameHost_iff.mp (same.hosts x y paired)).2 tunnel
    · rintro ⟨alike, noneMissed⟩
      refine ⟨?_, fun x y paired => sameHost_iff.mpr ⟨alike x y paired, fun tunnel => ?_⟩, ?_⟩
      · by_contra pre
        exact noneMissed (.inl pre)
      · exact noneMissed (.inr (.inr ⟨x, y, paired, tunnel⟩))
      · by_contra post
        exact noneMissed (.inr (.inl post))
  rw [returns, same]
  constructor
  · intro both alike
    have parts := both
    rw [and_iff_right alike, and_iff_right alike] at parts
    exact (not_iff_not.mp parts).symm
  · intro only
    refine and_congr_right fun alike => ?_
    exact not_iff_not.mpr (only alike).symm

/-! ## Runs -/

def silent : Methods where
  outputBeginning _ _ := []
  outputPreScripts _ _ _ := []
  outputHostDiff _ := .ok []
  outputPostScripts _ _ _ := []
  outputEnding := []

def oneHost (state : String) : Scan where
  hosts := [{ object := 1, state := some state }]
  preScriptResults := []
  postScriptResults := []

/-- A host that goes down is reported. -/
theorem output_zero_iff_state :
    ReturnsZero silent wholeOpcodes (oneHost "up") (oneHost "down") ↔
      SameScan (oneHost "up") (oneHost "down") := by
  have distinct : ∀ state, ((oneHost state).hosts.map Host.getId).Nodup := fun state =>
    nodup_singleton _
  refine (output_zero_iff wholeOpcodes_allEqualIff silent (distinct "up") (distinct "down")).mpr ?_
  intro alike
  have paired : Paired (oneHost "up").hosts (oneHost "down").hosts
      { object := 1, state := some "up" } { object := 1, state := some "down" } :=
    ⟨_, .both (mem_singleton.mpr rfl) (mem_singleton.mpr rfl) rfl, rfl⟩
  have same : some "up" = some "down" := (alike _ _ paired).state
  exact absurd same (by decide)

def scriptScan (output : String) : Scan where
  hosts := []
  preScriptResults := [⟨"broadcast-ping", output⟩]
  postScriptResults := []

/-- The scripts of the scan differ, and the cost is zero. -/
theorem output_misses_prescript :
    ReturnsZero silent wholeOpcodes (scriptScan "1.2.3.4") (scriptScan "1.2.3.5") ∧
      ¬ SameScan (scriptScan "1.2.3.4") (scriptScan "1.2.3.5") := by
  constructor
  · rw [returnsZero_iff fun x mem => absurd mem not_mem_nil]
    refine (outputHosts_zero_iff _).mpr fun pair mem => ?_
    have none : (join Host.getId Host.getId (scriptScan "1.2.3.4").sorted
        (scriptScan "1.2.3.5").sorted).map fill = [] := by
      simp [Scan.sorted, scriptScan]
    rw [none] at mem
    exact absurd mem not_mem_nil
  · intro same
    exact absurd same.pre (by decide)

end Nmap.Ndiff
