import Mathlib.Algebra.Order.BigOperators.Group.List
import Mathlib.Data.List.Chain
import Mathlib.Data.List.Sort
import Nmap.ScanEngine.Updates

/-!
# Completed hosts (`scan_engine.cc`)

`removeCompletedHosts` moves the hosts that are completed or have timed out to the set of
completed hosts, and counts those that have timed out. Whether a host has timed out is only
asked where it is not completed, and the answer is kept from one host to the next: a completed
host right behind one that has timed out is counted too (`removeCompletedHosts_exact_iff`).
-/

namespace Nmap.ScanEngine

open List

/-! ## The hosts of a scan -/

/-- What one call of `removeCompletedHosts` does not change -/
structure ScanEnv where
  cfg : Config
  /-- `o.host_timeout` -/
  hostTimeout : UInt64
  now : Timeval

/-- The hosts of an `UltraScanInfo`, each set in its order. The iterator `nextI` is the address
of the host it points to. -/
structure HostSets where
  incompleteHosts : List HostScanStats
  completedHosts : List HostScanStats
  nextI : Nat
  lastCompletedHostRemoval : Timeval
  g : GroupProbes
  pinghost : Option Nat
  numHostsTimedout : Nat

/-- `sockaddr_storage_cmp(a, b) < 0`; IPv4 addresses are compared as little-endian numbers. -/
def addrBefore (a b : Addr) : Bool :=
  if a.length ≠ b.length then a.length < b.length
  else if a.length = 4 then decide (a.reverse < b.reverse)
  else decide (a < b)

/-- The milliseconds that a running clock adds -/
def TimeoutClock.used (now : Timeval) (clock : TimeoutClock) : UInt64 :=
  if clock.running then clock.msecsUsed + UInt64.ofInt (now.msecSubtract clock.start)
  else clock.msecsUsed

def targetTimedOut (env : ScanEnv) (hss : HostScanStats) : Bool :=
  env.hostTimeout ≠ 0 && env.hostTimeout < hss.clock.used env.now

/-- `(!ping_scan) && hss->target->timedOut(&now)` -/
def expired (env : ScanEnv) (hss : HostScanStats) : Bool :=
  !env.cfg.pingScan && targetTimedOut env hss

/-- A host that is moved to the completed ones; `stopTimeOutClock` -/
def HostScanStats.retire (now : Timeval) (hss : HostScanStats) : HostScanStats :=
  { hss with
    completiontime := now
    clock := { hss.clock with running := false, msecsUsed := hss.clock.used now } }

/-! ## Old completed hosts -/

/-- `COMPL_HOST_LIFETIME_MS`, in seconds -/
def complHostLifetime : Nat := 120

/-- `TIMEVAL_BEFORE(t, now - COMPL_HOST_LIFETIME_MS)` -/
def outlived (now t : Timeval) : Bool :=
  t.sec + complHostLifetime < now.sec ||
    (t.sec + complHostLifetime = now.sec && t.usec < now.usec)

/-- A completed host stays for its lifetime, or while it is pinged. -/
def lingers (env : ScanEnv) (pinghost : Option Nat) (hss : HostScanStats) : Bool :=
  pinghost = some hss.ptr || !outlived env.now hss.completiontime

/-- The first loop: the completed hosts that stay, and how many do not -/
def dropOutlived (env : ScanEnv) (pinghost : Option Nat) : List HostScanStats → GroupProbes →
    Except Failure (List HostScanStats × GroupProbes × Nat)
  | [], g => .ok ([], g, 0)
  | hss :: rest, g =>
    if lingers env pinghost hss then do
      let (kept, g, removed) ← dropOutlived env pinghost rest g
      return (hss :: kept, g, removed)
    else do
      let (_, g) ← destroyAllOutstandingProbes hss g
      let (kept, g, removed) ← dropOutlived env pinghost rest g
      return (kept, g, removed + 1)

/-- "We don't want to run this all of the time" -/
def dropCompletedHosts (env : ScanEnv) (s : HostSets) : Except Failure (HostSets × Nat) :=
  if env.now.after (s.lastCompletedHostRemoval.add (complHostLifetime / 2 * 1000000)) then do
    let (kept, g, removed) ← dropOutlived env s.pinghost s.completedHosts s.g
    return ({ s with
      completedHosts := kept
      g := g
      lastCompletedHostRemoval := env.now }, removed)
  else .ok (s, 0)

/-! ## Completed and timed out hosts -/

/-- "Consider making this host the new global ping host" -/
def considerPinghost (cfg : Config) (completedHosts : List HostScanStats) (pinghost : Option Nat)
    (hss : HostScanStats) : Except Failure (Option Nat) :=
  match pinghost with
  | none => .ok (if hss.pingprobe.type ≠ .none then some hss.ptr else none)
  | some ptr =>
    match completedHosts.find? (·.ptr = ptr) with
    | none => .error .dangling
    | some old =>
      .ok (if old.numProbesActive = 0 && !pingprobeIsBetter cfg old.pingprobe
          old.pingprobeState hss.pingprobe hss.pingprobeState then some hss.ptr
        else some ptr)

/-- `insert` into a multiset: behind the hosts with the same address -/
def insertHost (hosts : List HostScanStats) (hss : HostScanStats) : List HostScanStats :=
  hosts.orderedInsert (fun a b => addrBefore a.sockAddr b.sockAddr) hss

/-- `nextI` for the removal of a host, with the hosts before and behind it -/
def adjustNextI (nextI : Nat) (hss : HostScanStats) (kept rest : List HostScanStats) : Nat :=
  if nextI = hss.ptr then
    match rest ++ kept with
    | next :: _ => next.ptr
    | [] => nextI
  else nextI

/-- A host is moved, with the incomplete hosts before and behind it. -/
def moveHost (env : ScanEnv) (kept rest : List HostScanStats) (timedout : Bool) (s : HostSets)
    (hss : HostScanStats) : Except Failure HostSets := do
  let completedHosts := insertHost s.completedHosts (hss.retire env.now)
  let pinghost ← considerPinghost env.cfg completedHosts s.pinghost hss
  return { s with
    completedHosts := completedHosts
    nextI := adjustNextI s.nextI hss kept rest
    pinghost := pinghost
    numHostsTimedout := s.numHostsTimedout + timedout.toNat }

/-- The second loop over the incomplete hosts: those that stay, those that are left to look at,
`timedout` and `hostsRemoved` -/
def sweep (env : ScanEnv) : List HostScanStats → List HostScanStats → Bool → HostSets → Nat →
    Except Failure (HostSets × Nat)
  | kept, [], _, s, removed => .ok ({ s with incompleteHosts := kept }, removed)
  | kept, hss :: rest, timedout, s, removed =>
    -- `timedout` is assigned only if the host is not completed
    let timedout := if hss.completed env.cfg then timedout else expired env hss
    if hss.completed env.cfg || timedout then do
      let s ← moveHost env kept rest timedout s hss
      sweep env kept rest timedout s (removed + 1)
    else sweep env (kept ++ [hss]) rest timedout s removed

def removeCompletedHosts (env : ScanEnv) (s : HostSets) : Except Failure (HostSets × Nat) := do
  let (s, removed) ← dropCompletedHosts env s
  sweep env [] s.incompleteHosts false s removed

/-! ## What is moved -/

def finished (env : ScanEnv) (hss : HostScanStats) : Bool :=
  hss.completed env.cfg || expired env hss

def late (env : ScanEnv) (hss : HostScanStats) : Bool :=
  !hss.completed env.cfg && expired env hss

/-- The completed hosts that are counted because the host before them was, with whether the
host before the first one was -/
def miscounted (env : ScanEnv) : Bool → List HostScanStats → Nat
  | _, [] => 0
  | timedout, hss :: rest =>
    if hss.completed env.cfg then timedout.toNat + miscounted env timedout rest
    else miscounted env (expired env hss) rest

/-- An iterator into a set, unless the set is empty -/
def PointsInto (nextI : Nat) (hosts : List HostScanStats) : Prop :=
  nextI ∈ hosts.map (·.ptr) ∨ hosts = []

/-- The ping host is one of the completed hosts. -/
def PinghostKept (pinghost : Option Nat) (completedHosts : List HostScanStats) : Prop :=
  ∀ ptr, pinghost = some ptr → ptr ∈ completedHosts.map (·.ptr)

variable {env : ScanEnv}

theorem adjustNextI_pointsInto {nextI : Nat} {hss : HostScanStats}
    {kept rest : List HostScanStats} (points : PointsInto nextI (kept ++ hss :: rest)) :
    PointsInto (adjustNextI nextI hss kept rest) (kept ++ rest) := by
  rw [adjustNextI]
  split
  · cases others : rest ++ kept with
    | nil =>
      right
      rw [append_eq_nil_iff] at others ⊢
      exact ⟨others.2, others.1⟩
    | cons next tail =>
      left
      have mem : next ∈ rest ++ kept := others ▸ mem_cons_self
      rw [mem_append] at mem
      exact mem_map_of_mem (f := HostScanStats.ptr) (mem_append.mpr mem.symm)
  · rename_i different
    rcases points with mem | empty
    · left
      simp only [map_append, map_cons, mem_append, mem_cons] at mem ⊢
      tauto
    · simp at empty

/-- The ping host is found, and the new one is completed. -/
theorem considerPinghost_kept (cfg : Config) {completedHosts : List HostScanStats}
    {pinghost : Option Nat} (hss : HostScanStats) (kept : PinghostKept pinghost completedHosts)
    (moved : hss.ptr ∈ completedHosts.map (·.ptr)) :
    ∃ pinghost', considerPinghost cfg completedHosts pinghost hss = .ok pinghost' ∧
      PinghostKept pinghost' completedHosts := by
  have self : PinghostKept (some hss.ptr) completedHosts := by
    intro ptr same
    cases same
    exact moved
  cases pinghost with
  | none =>
    refine ⟨_, rfl, ?_⟩
    split
    · exact self
    · exact kept
  | some ptr =>
    obtain ⟨old, mem, same⟩ := mem_map.mp (kept ptr rfl)
    cases found : completedHosts.find? (·.ptr = ptr) with
    | none =>
      have none := List.find?_eq_none.mp found old mem
      exact absurd same (by simpa using none)
    | some old =>
      refine ⟨_, by rw [considerPinghost, found], ?_⟩
      split
      · exact self
      · exact kept

theorem insertHost_perm (completedHosts : List HostScanStats) (hss : HostScanStats)
    (others : List HostScanStats) :
    (insertHost completedHosts hss ++ others).Perm (completedHosts ++ hss :: others) :=
  ((perm_orderedInsert _ hss completedHosts).append_right others).trans
    perm_middle.symm

variable (env) in
theorem moveHost_spec (kept rest : List HostScanStats) (timedout : Bool) {s : HostSets}
    {hss : HostScanStats} (pinghost : PinghostKept s.pinghost s.completedHosts)
    (points : PointsInto s.nextI (kept ++ hss :: rest)) :
    ∃ s', moveHost env kept rest timedout s hss = .ok s' ∧
      PinghostKept s'.pinghost s'.completedHosts ∧ PointsInto s'.nextI (kept ++ rest) ∧
      s'.completedHosts = insertHost s.completedHosts (hss.retire env.now) ∧
      s'.numHostsTimedout = s.numHostsTimedout + timedout.toNat := by
  have mem : ∀ other, other ∈ insertHost s.completedHosts (hss.retire env.now) ↔
      other = hss.retire env.now ∨ other ∈ s.completedHosts :=
    fun other => mem_orderedInsert _
  have kept' : PinghostKept s.pinghost (insertHost s.completedHosts (hss.retire env.now)) := by
    intro ptr same
    obtain ⟨old, old_mem, rfl⟩ := mem_map.mp (pinghost ptr same)
    exact mem_map_of_mem ((mem old).mpr (Or.inr old_mem))
  have moved : (hss.retire env.now).ptr ∈
      (insertHost s.completedHosts (hss.retire env.now)).map (·.ptr) :=
    mem_map_of_mem ((mem (hss.retire env.now)).mpr (Or.inl rfl))
  obtain ⟨pinghost', considered, kept''⟩ :=
    considerPinghost_kept env.cfg hss kept' moved
  refine ⟨_, by rw [moveHost, considered]; rfl, kept'', adjustNextI_pointsInto points, rfl, rfl⟩

variable (env) in
/-- The second loop -/
theorem sweep_spec (todo : List HostScanStats) : ∀ (kept : List HostScanStats) (timedout : Bool)
    (s : HostSets) (removed : Nat), PinghostKept s.pinghost s.completedHosts →
    PointsInto s.nextI (kept ++ todo) →
    ∃ s', sweep env kept todo timedout s removed =
        .ok (s', removed + todo.countP (finished env)) ∧
      s'.incompleteHosts = kept ++ todo.filter (!finished env ·) ∧
      s'.completedHosts.Perm
        (s.completedHosts ++ (todo.filter (finished env)).map (·.retire env.now)) ∧
      PointsInto s'.nextI s'.incompleteHosts ∧
      s'.numHostsTimedout =
        s.numHostsTimedout + (todo.countP (late env) + miscounted env timedout todo) := by
  induction todo with
  | nil =>
    intro kept timedout s removed pinghost points
    refine ⟨{ s with incompleteHosts := kept }, rfl, by simp, by simp, by simpa using points,
      by simp [miscounted]⟩
  | cons hss rest ih =>
    intro kept timedout s removed pinghost points
    by_cases moves : finished env hss = true
    · -- the value of `timedout` when the host is counted
      have flag : ∃ timedout', (if hss.completed env.cfg then timedout else expired env hss) =
            timedout' ∧ (hss.completed env.cfg || timedout') = true ∧
          timedout'.toNat + miscounted env timedout' rest =
            (late env hss).toNat + miscounted env timedout (hss :: rest) := by
        rw [finished] at moves
        cases completed : hss.completed env.cfg with
        | true => exact ⟨timedout, rfl, rfl, by simp [late, miscounted, completed]⟩
        | false =>
          have timed : expired env hss = true := by simpa [completed] using moves
          exact ⟨true, timed, rfl, by simp [late, miscounted, completed, timed]⟩
      obtain ⟨timedout', assigned, removes, counted⟩ := flag
      obtain ⟨s1, moved, pinghost1, points1, completed1, count1⟩ :=
        moveHost_spec env kept rest timedout' pinghost points
      obtain ⟨s', swept, incomplete, completed, points', count⟩ :=
        ih kept timedout' s1 (removed + 1) pinghost1 points1
      refine ⟨s', ?_, ?_, ?_, points', ?_⟩
      · rw [sweep, assigned, if_pos removes, moved]
        show sweep env kept rest timedout' s1 (removed + 1) = _
        rw [swept, countP_cons_of_pos moves, Nat.add_assoc, Nat.add_comm 1]
      · rw [incomplete, filter_cons_of_neg (by simp [moves])]
      · rw [completed1] at completed
        rw [filter_cons_of_pos moves, map_cons]
        exact completed.trans (insertHost_perm _ _ _)
      · rw [count, count1, countP_cons]
        cases isLate : late env hss <;> rw [isLate] at counted <;>
          simp only [Bool.toNat_true, Bool.toNat_false] at counted <;> simp <;> omega
    · have stays : hss.completed env.cfg = false ∧ expired env hss = false := by
        simpa [finished] using moves
      obtain ⟨s', swept, incomplete, completed, points', count⟩ :=
        ih (kept ++ [hss]) false s removed pinghost (by simpa using points)
      refine ⟨s', ?_, ?_, ?_, points', ?_⟩
      · rw [sweep, stays.1, stays.2, if_neg (by simp), countP_cons_of_neg moves]
        exact swept
      · rw [incomplete, filter_cons_of_pos (by simpa using moves)]
        simp
      · rw [filter_cons_of_neg moves]
        exact completed
      · rw [count, countP_cons_of_neg (by simp [late, stays.2])]
        simp [miscounted, stays]

/-! ## Old completed hosts -/

/-- The counts of hosts, which make up no more than the count of the group -/
structure GroupCounted (hosts : List HostScanStats) (g : GroupProbes) : Prop where
  each : ∀ hss ∈ hosts, Counted hss g
  total : (hosts.map (·.numProbesActive)).sum ≤ g.numProbesActive

/-- The completed hosts that are left of the first loop -/
def lingering (env : ScanEnv) (s : HostSets) : List HostScanStats :=
  if env.now.after (s.lastCompletedHostRemoval.add (complHostLifetime / 2 * 1000000)) then
    s.completedHosts.filter (lingers env s.pinghost)
  else s.completedHosts

variable (env) in
theorem dropOutlived_spec (pinghost : Option Nat) (hosts : List HostScanStats) :
    ∀ g, GroupCounted hosts g → ∃ g' removed, dropOutlived env pinghost hosts g =
      .ok (hosts.filter (lingers env pinghost), g', removed) := by
  induction hosts with
  | nil => exact fun g _ => ⟨g, 0, rfl⟩
  | cons hss rest ih =>
    intro g counted
    have total := counted.total
    rw [map_cons, sum_cons] at total
    by_cases stays : lingers env pinghost hss = true
    · obtain ⟨g', removed, run⟩ :=
        ih g ⟨fun other mem => counted.each other (mem_cons_of_mem _ mem), by omega⟩
      refine ⟨g', removed, ?_⟩
      rw [dropOutlived, if_pos stays, run, filter_cons_of_pos stays]
      rfl
    · obtain ⟨active, waiting, g1, destroyed, -, less⟩ :=
        (counted.each hss mem_cons_self).destroyAll
      have others : GroupCounted rest g1 := by
        refine ⟨?_, by omega⟩
        intro other mem
        obtain ⟨distinct, active, waiting, -⟩ := counted.each other (mem_cons_of_mem _ mem)
        have part : other.numProbesActive ≤ (rest.map (·.numProbesActive)).sum :=
          le_sum_of_mem (mem_map_of_mem mem)
        exact ⟨distinct, active, waiting, by omega⟩
      obtain ⟨g', removed, run⟩ := ih g1 others
      refine ⟨g', removed + 1, ?_⟩
      rw [dropOutlived, if_neg stays, destroyed, filter_cons_of_neg stays]
      show (dropOutlived env pinghost rest g1 >>= _) = _
      rw [run]
      rfl

variable (env) in
theorem dropCompletedHosts_spec {s : HostSets} (counted : GroupCounted s.completedHosts s.g) :
    ∃ s' removed, dropCompletedHosts env s = .ok (s', removed) ∧
      s'.completedHosts = lingering env s ∧ s'.incompleteHosts = s.incompleteHosts ∧
      s'.nextI = s.nextI ∧ s'.pinghost = s.pinghost ∧
      s'.numHostsTimedout = s.numHostsTimedout := by
  rw [dropCompletedHosts, lingering]
  split
  · obtain ⟨g, removed, run⟩ := dropOutlived_spec env s.pinghost s.completedHosts s.g counted
    rw [run]
    exact ⟨_, removed, rfl, rfl, rfl, rfl, rfl, rfl⟩
  · exact ⟨s, 0, rfl, rfl, rfl, rfl, rfl, rfl⟩

theorem lingering_pinghost {s : HostSets} (kept : PinghostKept s.pinghost s.completedHosts) :
    PinghostKept s.pinghost (lingering env s) := by
  intro ptr same
  obtain ⟨old, mem, rfl⟩ := mem_map.mp (kept ptr same)
  apply mem_map_of_mem
  rw [lingering]
  split
  · exact mem_filter.mpr ⟨mem, by simp [lingers, same]⟩
  · exact mem

/-! ## The count -/

/-- What one call is to do: the finished hosts are moved, the iterator points to a host that is
left, and the hosts that have timed out without being completed are counted. -/
structure Exact (env : ScanEnv) (s s' : HostSets) : Prop where
  incomplete : s'.incompleteHosts = s.incompleteHosts.filter (!finished env ·)
  completed : s'.completedHosts.Perm (lingering env s ++
    (s.incompleteHosts.filter (finished env)).map (·.retire env.now))
  nextI : PointsInto s'.nextI s'.incompleteHosts
  timedOut : s'.numHostsTimedout = s.numHostsTimedout + s.incompleteHosts.countP (late env)

variable (env) in
/-- Nothing is miscounted where no completed host is right behind one that has timed out. -/
theorem miscounted_eq_zero_iff (hosts : List HostScanStats) : ∀ timedout,
    miscounted env timedout hosts = 0 ↔
      (timedout = true → ∀ hss ∈ hosts.head?, hss.completed env.cfg = false) ∧
        hosts.IsChain fun a b => ¬ (late env a = true ∧ b.completed env.cfg = true) := by
  induction hosts with
  | nil =>
    intro timedout
    simp [miscounted]
  | cons hss rest ih =>
    intro timedout
    rw [miscounted, isChain_cons]
    cases completed : hss.completed env.cfg with
    | true =>
      have notLate : late env hss = false := by simp [late, completed]
      rw [if_pos rfl, Nat.add_eq_zero_iff, ih]
      cases timedout <;> simp [completed, notLate]
    | false =>
      have same : late env hss = expired env hss := by simp [late, completed]
      rw [if_neg (by simp), ih, same]
      have swap : (expired env hss = true →
            ∀ next ∈ rest.head?, next.completed env.cfg = false) ↔
          ∀ next ∈ rest.head?,
            ¬ (expired env hss = true ∧ next.completed env.cfg = true) := by
        constructor
        · rintro calm next mem ⟨timed, done⟩
          rw [calm timed next mem] at done
          cases done
        · intro apart timed next mem
          exact Bool.eq_false_iff.mpr fun done => apart next mem ⟨timed, done⟩
      rw [swap]
      simp [completed]

/-- The call is exact where no completed host is right behind one that has timed out. -/
theorem removeCompletedHosts_exact_iff (env : ScanEnv) (s : HostSets)
    (counted : GroupCounted s.completedHosts s.g)
    (pinghost : PinghostKept s.pinghost s.completedHosts)
    (points : PointsInto s.nextI s.incompleteHosts) :
    (∃ s' removed, removeCompletedHosts env s = .ok (s', removed) ∧ Exact env s s') ↔
      s.incompleteHosts.IsChain fun a b => ¬ (late env a = true ∧ b.completed env.cfg = true) := by
  obtain ⟨s1, dropped, drop, completed1, incomplete1, nextI1, pinghost1, timedout1⟩ :=
    dropCompletedHosts_spec env counted
  obtain ⟨s2, swept, incomplete, completed, points', count⟩ :=
    sweep_spec env s1.incompleteHosts [] false s1 dropped
      (by rw [pinghost1, completed1]; exact lingering_pinghost pinghost)
      (by rw [nextI1, incomplete1]; exact points)
  have call : removeCompletedHosts env s =
      .ok (s2, dropped + s1.incompleteHosts.countP (finished env)) := by
    rw [removeCompletedHosts, drop]
    exact swept
  rw [incomplete1] at incomplete completed count
  have chain := miscounted_eq_zero_iff env s.incompleteHosts false
  constructor
  · rintro ⟨s', removed, call', exact⟩
    rw [call] at call'
    cases call'
    have exactly := exact.timedOut
    rw [count, timedout1] at exactly
    exact (chain.mp (by omega)).2
  · intro good
    have none : miscounted env false s.incompleteHosts = 0 := chain.mpr ⟨by simp, good⟩
    refine ⟨s2, _, call, incomplete, ?_, points', ?_⟩
    · rw [← completed1]
      exact completed
    · rw [count, timedout1, none, Nat.add_zero]

/-! Two hosts of a scan of one port: the probe for the first one is not sent yet when the host
times out, and the second one is completed. -/

/-- A SYN scan of port 80 that gives each host a second -/
def oneSecondScan : ScanEnv where
  cfg := {
    scantype := .portScan .syn
    ports := ⟨[], [], [], [], [], [80], [], [], []⟩
    pingtype := ⟨false, false, false, false, false, false, false, false, false, false⟩
    isr00t := true
    ipv6 := false
    scanflags := none
    maxRetransmissions := 10
    defeatRstRatelimit := false
    defeatIcmpRatelimit := false
    discoveryIgnoreRst := false
    udpPayloadCount := fun _ => 0 }
  hostTimeout := 1000
  now := ⟨200, 0, Timeval.zero_small⟩

def lateHost : HostScanStats :=
  { HostScanStats.new 1 [192, 0, 2, 1] with clock := ⟨2000, false, .zero⟩ }

def doneHost : HostScanStats :=
  { HostScanStats.new 2 [192, 0, 2, 2] with supply := { nextPortidx := 1 } }

def twoHosts (first second : HostScanStats) : HostSets :=
  ⟨[first, second], [], first.ptr, .zero, ⟨0, 0, ⟨-1, []⟩⟩, none, 0⟩

/-- The host that has timed out comes last. -/
theorem removeCompletedHosts_late_last :
    (∃ s' removed, removeCompletedHosts oneSecondScan (twoHosts doneHost lateHost) =
        .ok (s', removed) ∧ Exact oneSecondScan (twoHosts doneHost lateHost) s') ↔
      (twoHosts doneHost lateHost).incompleteHosts.IsChain fun a b =>
        ¬ (late oneSecondScan a = true ∧ b.completed oneSecondScan.cfg = true) :=
  removeCompletedHosts_exact_iff oneSecondScan (twoHosts doneHost lateHost)
    ⟨by simp [twoHosts], by simp [twoHosts]⟩ (by intro ptr none; cases none)
    (Or.inl mem_cons_self)

/-- The host that has timed out comes first: both are counted. -/
theorem removeCompletedHosts_late_first :
    GroupCounted (twoHosts lateHost doneHost).completedHosts (twoHosts lateHost doneHost).g ∧
      PinghostKept (twoHosts lateHost doneHost).pinghost
        (twoHosts lateHost doneHost).completedHosts ∧
      PointsInto (twoHosts lateHost doneHost).nextI (twoHosts lateHost doneHost).incompleteHosts ∧
      ¬ ∃ s' removed, removeCompletedHosts oneSecondScan (twoHosts lateHost doneHost) =
        .ok (s', removed) ∧ Exact oneSecondScan (twoHosts lateHost doneHost) s' := by
  refine ⟨⟨by simp [twoHosts], by simp [twoHosts]⟩, ?_, Or.inl mem_cons_self, ?_⟩
  · intro ptr none
    cases none
  rintro ⟨s', removed, call, exactly⟩
  have count : (removeCompletedHosts oneSecondScan (twoHosts lateHost doneHost)).map
      (·.1.numHostsTimedout) = .ok 2 := rfl
  rw [call] at count
  have counted : s'.numHostsTimedout = 2 := Except.ok.inj count
  have one : (twoHosts lateHost doneHost).numHostsTimedout +
      (twoHosts lateHost doneHost).incompleteHosts.countP (late oneSecondScan) = 1 := rfl
  rw [exactly.timedOut, one] at counted
  cases counted

end Nmap.ScanEngine
