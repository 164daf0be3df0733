import Nmap.Service.Invariant

/-!
# The handlers keep the invariant

One lemma for each handler of `service_scan.cc`, from the write handler up to the delivery of
an event. A handler is entered with its service exempt (`Inv (some i)`) and returns with
every service in a place where it belongs, or halts on an unexpected nsock status.
-/

namespace Nmap.Service

open ServiceNFO ServiceGroup Option

variable {cfg : Config} {env : Env} {ap : AllProbes} {i : Nat} {sg sg' : ServiceGroup}

def Returned (ap : AllProbes) (sg sg' : ServiceGroup) : Prop := Inv ap none sg' ∧ Keeps sg sg'

theorem Over.returned (ended : Over ap i sg sg') : Returned ap sg sg' := ⟨ended.inv, ended.keeps⟩

variable {svc : ServiceNFO}

theorem Returned.of_put (inv : Inv ap (some i) sg) (returned : Returned ap (sg.put i svc) sg') :
    Returned ap sg sg' :=
  ⟨returned.1, (inv.keeps_put svc).trans returned.2⟩

theorem Returned.launch (returned : Returned ap sg sg') (env : Env) (cfg : Config)
    (same : cfg.ap = ap) : Fine (Returned ap sg) (launchSomeServiceProbes cfg env sg') := by
  subst same
  have ok := launchSomeServiceProbes_ok cfg env (sg'.servicesRemaining.length + 1)
  refine (ok sg' returned.1 (Nat.lt_succ_self _)).mono fun sg'' launched => ?_
  exact ⟨launched.1, returned.2.trans launched.2⟩

/-! ## Writing -/

variable {iod : Iod} {event : SvcEvent}

theorem ServiceNFO.ProbingOn.noting (on : svc.ProbingOn ap iod) (clears : event.clears = false)
    (ends : event.ends = false) :
    (svc.noting event).ProbingOn ap iod where
  niod := on.niod
  selected := on.selected
  single := on.single
  connecting := on.connecting
  writing := on.writing
  connected := by
    intro connects
    rw [noting_established, on.connected connects, Bool.or_true]
  nullTcp := on.nullTcp
  log := on.log.noting clears
  notEnded := by
    rw [noting_ended, ends, on.notEnded]
    rfl

/-- A write handler ends the service, or it only notes the success. -/
theorem servicescanWriteHandler_spec (env : Env) (event : WriteEvent) (inv : Inv cfg.ap (some i) sg)
    (log : (sg.services i).LogOk) :
    Fine (fun sg' => Over cfg.ap i sg sg' ∨ sg' = sg.record i (.write .success false))
      (servicescanWriteHandler (launchSomeServiceProbes cfg env) event i sg) := by
  have ok := launchSomeServiceProbes_ok cfg env (sg.servicesRemaining.length + 1)
  have inv' := inv.put ((sg.services i).noting (.write event.status event.timedOut))
  have finish : event.timedOut = true ∨ event.status ≠ .success →
      ∃ sg', endSvcprobe .incomplete true i (sg.record i (.write event.status event.timedOut)) =
        .ok sg' ∧ Over cfg.ap i sg sg' := by
    intro failed
    have ends : (SvcEvent.write event.status event.timedOut).ends = true := by
      simpa [SvcEvent.ends] using failed
    have ending : Ending .incomplete true
        ((sg.record i (.write event.status event.timedOut)).services i) := by
      rw [record_eq, put_services_self]
      exact .aborted rfl (by simp) (by simp) log ends rfl
    obtain ⟨sg', eq, ended, -⟩ := endSvcprobe_over inv' ending
    exact ⟨sg', eq, Over.of_put inv ended⟩
  unfold servicescanWriteHandler
  dsimp only
  split
  · next timedOut =>
      obtain ⟨sg', eq, ended⟩ := finish (.inl timedOut)
      rw [eq]
      exact .inl ended
  · next inTime =>
      split
      · next success =>
          right
          rw [success, Bool.eq_false_iff.mpr inTime]
      · next kill =>
          obtain ⟨sg', eq, ended⟩ := finish (.inr (by simp [kill]))
          rw [eq]
          exact .inl ended
      · next notSuccess _ =>
          obtain ⟨sg', eq, ended⟩ := finish (.inr notSuccess)
          rw [eq]
          refine (ok sg' ended.inv (Nat.lt_succ_of_le ended.keeps.remaining)).mono
            fun sg'' launched => ?_
          exact .inl (ended.launched launched.1 launched.2)

theorem Inv.setBusy {held : Option Nat} (inv : Inv ap held sg) (busy : Bool) :
    Inv ap held { sg with busy := busy } :=
  ⟨inv.perm, inv.bound, inv.waiting, inv.probing, inv.done, inv.heldOpen, inv.unborn⟩

variable {syncWrite : Option WriteEvent}

/-- Sending the text of the selected probe ends the service, or leaves it connected. -/
theorem sendProbeText_spec {probe : ServiceProbe} (inv : Inv cfg.ap (some i) sg)
    (notBusy : sg.busy = false) (reading : (sg.services i).Reading cfg.ap)
    (selected : (sg.services i).selected cfg.ap = some probe) :
    Fine (fun sg' => Over cfg.ap i sg sg' ∨
        ∃ svc : ServiceNFO, svc.Reading cfg.ap ∧ sg' = sg.put i svc)
      (sendProbeText (launchSomeServiceProbes cfg env) syncWrite probe i sg) := by
  obtain ⟨writes, on⟩ := reading
  have idle : ({ sg with busy := false } : ServiceGroup) = sg := by
    rw [← notBusy]
  unfold sendProbeText
  split
  · exact .inr ⟨_, ⟨writes, on⟩, (put_services sg i).symm⟩
  · next text =>
      have notNull : (sg.services i).probeState ≠ .nullProbe :=
        fun null => text ((isNullProbe_iff selected).mpr null)
      cases syncWrite with
      | none =>
        simp only [nsockWrite, bind, Except.bind]
        refine .inr ⟨{ sg.services i with niod := some ⟨0, writes + 1, 0⟩ }, ⟨writes + 1, ?_⟩, ?_⟩
        · exact { on with
            niod := rfl
            selected := on.selected
            connecting := fun connects => absurd rfl connects
            writing := fun _ => notNull
            log := ⟨on.log.flag, on.log.resp, on.log.matched⟩ }
        · simp only [modify_eq, on.niod, map_some]
          rw [← idle]
          rfl
      | some event =>
        have spec := servicescanWriteHandler_spec env event (inv.setBusy true) on.log
        refine Meets.bind spec fun sg' outcome => ?_
        rcases outcome with ended | rfl
        · left
          exact {
            inv := ended.inv.setBusy false
            keeps := ⟨ended.keeps.created, ended.keeps.total, ended.keeps.ideal, notBusy.symm,
              ended.keeps.remaining, ended.keeps.finished⟩
            finished := ended.finished
            state := ended.state
            fewer := ended.fewer }
        · refine .inr ⟨(sg.services i).noting (.write .success false),
            ⟨writes, on.noting rfl rfl⟩, ?_⟩
          rw [← idle]
          rfl

/-! ## Reading -/

/-- `read` may be called for a connected service in progress. -/
def ReadOk (ap : AllProbes) (read : Nat → Callback) : Prop :=
  ∀ i sg, Inv ap (some i) sg → sg.busy = false → i ∈ sg.servicesInProgress →
    (sg.services i).Reading ap → Fine (Returned ap sg) (read i sg)

theorem ServiceNFO.Reading.probing (reading : svc.Reading ap) :
    svc.Probing ap := by
  obtain ⟨writes, on⟩ := reading
  exact ⟨_, on⟩

theorem ServiceNFO.Reading.startable (reading : svc.Reading ap) :
    Startable ap true svc := by
  obtain ⟨writes, on⟩ := reading
  exact ⟨.inr on.selected, by simp, on.log, on.notEnded⟩

theorem sendAndRead_spec {read : Nat → Callback} {probe : ServiceProbe}
    (readOk : ReadOk cfg.ap read) (inv : Inv cfg.ap (some i) sg) (notBusy : sg.busy = false)
    (inProgress : i ∈ sg.servicesInProgress) (reading : (sg.services i).Reading cfg.ap)
    (selected : (sg.services i).selected cfg.ap = some probe) :
    Fine (Returned cfg.ap sg)
      (sendAndRead (launchSomeServiceProbes cfg env) read syncWrite probe i sg) := by
  unfold sendAndRead
  refine Meets.bind (sendProbeText_spec inv notBusy reading selected) fun sg' outcome => ?_
  rcases outcome with ended | ⟨svc, reading', rfl⟩
  · rw [if_neg (by rw [ended.state]; simp)]
    exact ended.returned
  · obtain ⟨probe', selected'⟩ := reading'.probing.choose_spec.selected
    rw [put_services_self, if_pos (unfinished_of_selected selected').1]
    have read := readOk i (sg.put i svc) (inv.put svc) notBusy inProgress (by simpa using reading')
    exact Meets.mono read fun _ => Returned.of_put inv

theorem restartProbe_returned (inv : Inv cfg.ap (some i) sg)
    (inProgress : i ∈ sg.servicesInProgress) (startable : Startable cfg.ap true (sg.services i)) :
    Fine (Returned cfg.ap sg)
      (restartProbe cfg env (launchSomeServiceProbes cfg env) true i sg) := by
  have ok := launchSomeServiceProbes_ok cfg env (sg.servicesRemaining.length + 1)
  refine Meets.mono (restartProbe_spec inv startable ok (.inl (Nat.lt_succ_self _)))
    fun sg' outcome => ?_
  rcases outcome with ended | ⟨svc, probing, rfl⟩
  · exact ended.returned
  · refine ⟨(inv.put svc).releaseProbing inProgress ?_, inv.keeps_put svc⟩
    rwa [put_services_self]

/-- The reuse of the connection of a NULL probe: nothing is pending on it. -/
theorem startNextProbe_spec {read : Nat → Callback} {alwaysrestart : Bool}
    (readOk : ReadOk cfg.ap read) (inv : Inv cfg.ap (some i) sg) (notBusy : sg.busy = false)
    (inProgress : i ∈ sg.servicesInProgress) (startable : Startable cfg.ap true (sg.services i))
    (reading : alwaysrestart = false → (sg.services i).Reading cfg.ap) :
    Fine (Returned cfg.ap sg) (startNextProbe cfg env read syncWrite alwaysrestart i sg) := by
  unfold startNextProbe
  cases alwaysrestart with
  | true => exact restartProbe_returned inv inProgress startable
  | false =>
    obtain ⟨writes, on⟩ := reading rfl
    obtain ⟨probe, selected⟩ := on.selected
    rw [currentProbe_selected selected]
    simp only [Bool.false_eq_true, if_false, bind, Except.bind]
    split
    · next isNull =>
        have null := (isNullProbe_iff selected).mp isNull
        have nothing : writes = 0 := by
          by_contra some
          exact on.writing some null
        subst nothing
        obtain ⟨result, svc, eq, walk⟩ := nextProbe_spec cfg.ap cfg.versionIntensity false
          (sg.services i) (unfinished_of_selected selected).1
        have niod : svc.niod = some Iod.idle := walk.niod.trans on.niod
        have notNull : svc.probeState ≠ .nullProbe := by
          intro null'
          have initial := (walk.nullFirst null').1
          rw [null] at initial
          cases initial
        rw [eq]
        dsimp only
        cases result with
        | some probe' =>
          have selected' := walk.found probe' rfl
          have reading' : svc.Reading cfg.ap := by
            refine ⟨0, niod, ⟨probe', selected'⟩, Nat.zero_le 1,
              fun connects => absurd rfl connects, fun _ => notNull, fun _ => ?_,
              fun null' => absurd null' notNull, walk.log on.log, walk.notEnded on.notEnded⟩
            rw [walk.frame]
            exact on.connected rfl
          refine Meets.mono (sendAndRead_spec readOk (inv.put svc) notBusy inProgress ?_ ?_)
            fun _ => Returned.of_put inv
          · rwa [put_services_self]
          · rwa [put_services_self]
        | none =>
          refine Meets.mono (endExhausted_over inv (walk.log on.log) ?_) fun _ => Over.returned
          intro iod mem
          rw [niod] at mem
          exact (Option.some.inj mem).symm
    · exact restartProbe_returned inv inProgress startable

theorem ServiceNFO.LogOk.of_cleared {svc' : ServiceNFO} (clears : event.clears = true)
    (history : svc'.history = event :: svc.history) (impossible : svc'.tcpwrapPossible = false) :
    svc'.LogOk where
  flag := by
    have cleared := noting_cleared event svc
    unfold ServiceNFO.cleared at cleared ⊢
    rw [impossible, history, cleared, clears]
    rfl
  resp := fun _ => impossible
  matched := fun _ => impossible

/-- An event that rules a TCP wrapper out leaves the service probing, whatever is matched. -/
theorem ServiceNFO.ProbingOn.cleared {svc' : ServiceNFO} (on : svc.ProbingOn ap iod)
    (clears : event.clears = true) (ends : event.ends = false) (niod : svc'.niod = svc.niod)
    (state : svc'.probeState = svc.probeState)
    (index : svc'.currentProbeIndex = svc.currentProbeIndex) (proto : svc'.proto = svc.proto)
    (history : svc'.history = event :: svc.history) (impossible : svc'.tcpwrapPossible = false) :
    svc'.ProbingOn ap iod where
  niod := niod.trans on.niod
  selected := by
    unfold ServiceNFO.selected
    rw [state, index]
    exact on.selected
  single := on.single
  connecting := on.connecting
  writing := by
    rw [state]
    exact on.writing
  connected := by
    intro connects
    have noted := noting_established event svc
    unfold established at noted ⊢
    rw [history, noted, ← established, on.connected connects, Bool.or_true]
  nullTcp := by
    rw [state, proto]
    exact on.nullTcp
  log := .of_cleared clears history impossible
  notEnded := by
    have noted := noting_ended event svc
    unfold ended at noted ⊢
    rw [history, noted, ends, ← ended, on.notEnded]
    rfl

theorem processMatch_spec (details : Option MatchDetails) (svc : ServiceNFO) :
    (svc.processMatch details = (false, svc) ∧
      ∀ isSoft name strings, details = some ⟨isSoft, some name, strings⟩ →
        isSoft = true ∧ svc.probeMatched ≠ none) ∨
      ∃ isSoft name strings, details = some ⟨isSoft, some name, strings⟩ ∧
        svc.processMatch details = (!isSoft, { svc with
          probeMatched := some name
          tcpwrapPossible := false
          matched := svc.matched.copy strings
          softMatchFound := isSoft }) := by
  unfold processMatch
  split
  · next isSoft name strings =>
      split
      · next again =>
          refine .inl ⟨rfl, fun _ _ _ same => ?_⟩
          cases same
          simpa [isSome_iff_ne_none] using again
      · exact .inr ⟨isSoft, name, strings, rfl, rfl⟩
  · next unnamed =>
      exact .inl ⟨rfl, fun isSoft name strings eq => absurd eq (unnamed isSoft name strings)⟩

theorem scanThroughTunnel_spec (haveOpenssl : Bool) (svc : ServiceNFO) :
    ∃ again svc', svc.scanThroughTunnel haveOpenssl = (again, svc') ∧
      svc' = { svc with
        tunnel := svc'.tunnel
        probeMatched := svc'.probeMatched
        matched := svc'.matched
        softMatchFound := svc'.softMatchFound
        currentresp := svc'.currentresp
        probeState := svc'.probeState } ∧
      (again = true → svc'.probeState = .initial) := by
  unfold scanThroughTunnel
  dsimp only
  split
  · exact ⟨_, _, rfl, rfl, by simp⟩
  · split
    · exact ⟨_, _, rfl, rfl, by simp⟩
    · split
      · exact ⟨_, _, rfl, rfl, by simp⟩
      · exact ⟨_, _, rfl, rfl, fun _ => rfl⟩

section

variable {read : Nat → Callback} {event : ReadEvent} {probe : ServiceProbe} {writes : Nat}
  {svc : ServiceNFO}

/-- The record entry of a read -/
abbrev ReadEvent.entry (event : ReadEvent) : SvcEvent :=
  .read event.status event.errno event.timedOut

theorem endSvcprobe_returned {state : ProbeState} {nsi : Bool} (inv : Inv ap (some i) sg)
    (ending : Ending state nsi (sg.services i)) :
    Fine (Returned ap sg) (endSvcprobe state nsi i sg) := by
  obtain ⟨sg', eq, ended, -⟩ := endSvcprobe_over inv ending
  rw [eq]
  exact ended.returned

theorem readMore_spec {svc' : ServiceNFO} {more : Bool} {syncWrite : Option WriteEvent}
    (readOk : ReadOk cfg.ap read) (inv : Inv cfg.ap (some i) sg) (notBusy : sg.busy = false)
    (inProgress : i ∈ sg.servicesInProgress) (reading : svc'.Reading cfg.ap) :
    Fine (Returned cfg.ap sg) (if more then read i (sg.put i svc')
      else startNextProbe cfg env read syncWrite false i (sg.put i svc')) := by
  have reading' : ((sg.put i svc').services i).Reading cfg.ap := by rwa [put_services_self]
  have inv' := inv.put svc'
  cases more with
  | true =>
    exact Meets.mono (readOk i _ inv' notBusy inProgress reading') fun _ => Returned.of_put inv
  | false =>
    rw [if_neg Bool.false_ne_true]
    exact Meets.mono
      (startNextProbe_spec readOk inv' notBusy inProgress reading'.startable fun _ => reading')
      fun _ => Returned.of_put inv

/-- A hard match ends the service, unless it is scanned again through a tunnel. -/
theorem hardMatch_spec {svc' : ServiceNFO} {syncWrite : Option WriteEvent}
    (readOk : ReadOk cfg.ap read) (inv : Inv cfg.ap (some i) sg) (notBusy : sg.busy = false)
    (inProgress : i ∈ sg.servicesInProgress) (on : svc'.ProbingOn cfg.ap ⟨0, writes, 0⟩)
    (impossible : svc'.tcpwrapPossible = false) :
    Fine (Returned cfg.ap sg) (match svc'.scanThroughTunnel cfg.haveOpenssl with
      | (true, svc) => startNextProbe cfg env read syncWrite true i (sg.put i svc)
      | (false, svc) => endSvcprobe .finishedHardmatched true i (sg.put i svc)) := by
  obtain ⟨again, tunnelled, eq, frame, initial⟩ := scanThroughTunnel_spec cfg.haveOpenssl svc'
  have impossible' : tunnelled.tcpwrapPossible = false := by
    rw [frame]
    exact impossible
  have log : tunnelled.LogOk := by
    refine ⟨?_, fun _ => impossible', fun _ => impossible'⟩
    rw [frame]
    exact on.log.flag
  have inv' := inv.put tunnelled
  rw [eq]
  cases again with
  | true =>
    have startable : Startable cfg.ap true ((sg.put i tunnelled).services i) := by
      rw [put_services_self]
      refine ⟨.inl (initial rfl), by simp, log, ?_⟩
      rw [frame]
      exact on.notEnded
    exact Meets.mono (startNextProbe_spec readOk inv' notBusy inProgress startable (by simp))
      fun _ => Returned.of_put inv
  | false =>
    have ending : Ending .finishedHardmatched true ((sg.put i tunnelled).services i) := by
      rw [put_services_self]
      exact .cleared rfl (by simp) (by simp) log impossible'
    exact Meets.mono (endSvcprobe_returned inv' ending) fun _ => Returned.of_put inv

theorem readSuccess_spec (readOk : ReadOk cfg.ap read) (inv : Inv cfg.ap (some i) sg)
    (notBusy : sg.busy = false) (inProgress : i ∈ sg.servicesInProgress)
    (on : svc.ProbingOn cfg.ap ⟨0, writes, 0⟩) (here : sg.services i = svc.noting event.entry)
    (success : event.status = .success) :
    Fine (Returned cfg.ap sg) (readSuccess cfg env read event probe i sg) := by
  have clears : event.entry.clears = true := by simp [SvcEvent.clears, success]
  unfold readSuccess notTcpwrapped
  simp only [modify_eq, here, put_services_self, put_put]
  generalize svc.currentresp ++ event.data = resp
  generalize testFallbacks cfg probe resp = details
  rcases processMatch_spec details
      { svc.noting event.entry with tcpwrapPossible := false, currentresp := resp } with
    ⟨noMatch, -⟩ | ⟨isSoft, name, strings, -, isMatch⟩
  · rw [noMatch]
    exact readMore_spec readOk inv notBusy inProgress
      ⟨writes, on.cleared clears rfl rfl rfl rfl rfl rfl rfl⟩
  · rw [isMatch]
    cases isSoft with
    | true =>
      exact readMore_spec readOk inv notBusy inProgress
        ⟨writes, on.cleared clears rfl rfl rfl rfl rfl rfl rfl⟩
    | false =>
      exact hardMatch_spec readOk inv notBusy inProgress
        (on.cleared clears rfl rfl rfl rfl rfl rfl rfl) rfl

theorem noting_reading (on : svc.ProbingOn cfg.ap ⟨0, writes, 0⟩)
    (here : sg.services i = svc.noting event.entry) (clears : event.entry.clears = false) :
    (sg.services i).Reading cfg.ap := by
  rw [here]
  exact ⟨writes, on.noting clears rfl⟩

theorem endWrapped_returned (inv : Inv cfg.ap (some i) sg)
    (reading : (sg.services i).Reading cfg.ap)
    (selected : (sg.services i).selected cfg.ap = some probe) (isNull : probe.isNullProbe = true)
    (possible : (sg.services i).tcpwrapPossible = true) :
    Fine (Returned cfg.ap sg) (endSvcprobe .finishedTcpwrapped true i sg) := by
  obtain ⟨writes, on⟩ := reading
  have null := (isNullProbe_iff selected).mp isNull
  exact endSvcprobe_returned inv {
    final := rfl
    wrapped := fun _ => possible
    idle := by simp
    log := on.log
    earned := fun _ => .inr ⟨on.nullTcp null, on.connected rfl⟩ }

theorem readEof_spec (readOk : ReadOk cfg.ap read) (inv : Inv cfg.ap (some i) sg)
    (notBusy : sg.busy = false) (inProgress : i ∈ sg.servicesInProgress)
    (reading : (sg.services i).Reading cfg.ap)
    (selected : (sg.services i).selected cfg.ap = some probe) :
    Fine (Returned cfg.ap sg) (readEof cfg env read event probe i sg) := by
  -- the flag is cleared only where data was read, which has cleared it before
  have same : (if (sg.services i).currentresp.length > 0 then notTcpwrapped sg i else sg) = sg := by
    split
    · next some =>
        have log := reading.choose_spec.log
        have impossible := log.resp (List.ne_nil_of_length_pos some)
        unfold notTcpwrapped
        rw [modify_eq, ← impossible]
        exact put_services sg i
    · rfl
  unfold readEof
  rw [same]
  dsimp only
  split
  · next wrapped =>
      simp only [Bool.and_eq_true, decide_eq_true_eq] at wrapped
      exact endWrapped_returned inv reading selected wrapped.1.1.2 wrapped.1.1.1
  · exact startNextProbe_spec readOk inv notBusy inProgress reading.startable (by simp)

theorem giveUp_spec (inv : Inv cfg.ap (some i) sg)
    (here : sg.services i = svc.noting event.entry) (clears : event.entry.clears = true) :
    Fine (Returned cfg.ap sg) (endSvcprobe .incomplete true i (notTcpwrapped sg i)) := by
  have ending : Ending .incomplete true ((notTcpwrapped sg i).services i) := by
    unfold notTcpwrapped
    rw [modify_eq, put_services_self, here]
    exact .cleared rfl (by simp) (by simp) (.clear clears) rfl
  exact Meets.mono (endSvcprobe_returned (inv.put _) ending) fun _ => Returned.of_put inv

theorem readError_spec (readOk : ReadOk cfg.ap read) (inv : Inv cfg.ap (some i) sg)
    (notBusy : sg.busy = false) (inProgress : i ∈ sg.servicesInProgress)
    (on : svc.ProbingOn cfg.ap ⟨0, writes, 0⟩) (here : sg.services i = svc.noting event.entry)
    (selected : (sg.services i).selected cfg.ap = some probe)
    (inTime : event.timedOut = false) (error : event.status = .error) :
    Fine (Returned cfg.ap sg) (readError cfg env read event probe i sg) := by
  have clears : event.entry.clears = event.errno.givesUp := by
    simp [SvcEvent.clears, inTime, error]
  have restart : event.errno.givesUp = false → Fine (Returned cfg.ap sg)
      (startNextProbe cfg env read event.syncWrite true i sg) := by
    intro goesOn
    have reading := noting_reading on here (clears.trans goesOn)
    exact startNextProbe_spec readOk inv notBusy inProgress reading.startable (by simp)
  have hangUp : event.errno.givesUp = false → Fine (Returned cfg.ap sg)
      (if (sg.services i).tcpwrapPossible && probe.isNullProbe && event.quick then
        endSvcprobe .finishedTcpwrapped true i sg
      else startNextProbe cfg env read event.syncWrite true i sg) := by
    intro goesOn
    split
    · next wrapped =>
        simp only [Bool.and_eq_true] at wrapped
        exact endWrapped_returned inv (noting_reading on here (clears.trans goesOn)) selected
          wrapped.1.2 wrapped.1.1
    · exact restart goesOn
  unfold readError
  cases errno : event.errno <;> rw [errno] at clears restart hangUp <;> dsimp only
  case econnreset | econnrefused | econnaborted => exact hangUp rfl
  case enoprotoopt | emsgsize | eopnotsupp | epipe | enetreset | eproto | eio => exact restart rfl
  all_goals exact giveUp_spec inv here clears

theorem readWith_spec (readOk : ReadOk cfg.ap read) (inv : Inv cfg.ap (some i) sg)
    (notBusy : sg.busy = false) (inProgress : i ∈ sg.servicesInProgress)
    (on : svc.ProbingOn cfg.ap ⟨0, writes, 0⟩) (here : sg.services i = svc.noting event.entry)
    (selected : (sg.services i).selected cfg.ap = some probe) :
    Fine (Returned cfg.ap sg) (readWith cfg env read event probe i sg) := by
  have launch : ∀ {result : Except Halt ServiceGroup}, Fine (Returned cfg.ap sg) result →
      Fine (Returned cfg.ap sg) (result >>= launchSomeServiceProbes cfg env) :=
    fun spec => Meets.bind spec fun _ returned => returned.launch env cfg rfl
  unfold readWith
  dsimp only
  cases inTime : event.timedOut with
  | true => exact launch (giveUp_spec inv here (by simp [SvcEvent.clears, inTime]))
  | false =>
    cases status : event.status with
    | success => exact launch (readSuccess_spec readOk inv notBusy inProgress on here status)
    | timeout =>
      have clears : event.entry.clears = true := by simp [SvcEvent.clears, status]
      have reading : ((notTcpwrapped sg i).services i).Reading cfg.ap := by
        unfold notTcpwrapped
        rw [modify_eq, put_services_self, here]
        exact ⟨writes, on.cleared clears rfl rfl rfl rfl rfl rfl rfl⟩
      refine launch (Meets.mono (startNextProbe_spec readOk (inv.put _) notBusy inProgress
        reading.startable fun _ => reading) fun _ => Returned.of_put inv)
    | eof =>
      have clears : event.entry.clears = false := by simp [SvcEvent.clears, inTime, status]
      exact launch (readEof_spec readOk inv notBusy inProgress
        (noting_reading on here clears) selected)
    | error =>
      exact launch (readError_spec readOk inv notBusy inProgress on here selected inTime status)
    | kill => exact giveUp_spec inv here (by simp [SvcEvent.clears, status])
    | none => rfl
    | cancelled => rfl
    | proxyerror => rfl

theorem servicescanReadHandler_spec (readOk : ReadOk cfg.ap read) (inv : Inv cfg.ap (some i) sg)
    (notBusy : sg.busy = false) (inProgress : i ∈ sg.servicesInProgress)
    (reading : (sg.services i).Reading cfg.ap) :
    Fine (Returned cfg.ap sg) (servicescanReadHandler cfg env read event i sg) := by
  obtain ⟨writes, on⟩ := reading
  obtain ⟨probe, selected⟩ := on.selected
  have selected' : ((sg.services i).noting event.entry).selected cfg.ap = some probe := selected
  unfold servicescanReadHandler
  dsimp only
  rw [record_eq, put_services_self, currentProbe_selected selected']
  simp only [bind, Except.bind, put_put]
  refine Meets.mono (readWith_spec readOk (inv.put _) notBusy inProgress on ?_ ?_)
    fun _ => Returned.of_put inv
  · rw [put_services_self]
  · rwa [put_services_self]

end

theorem nsockRead_ok (cfg : Config) (env : Env) (syncReads : List ReadEvent) :
    ReadOk cfg.ap (nsockRead cfg env syncReads) := by
  induction syncReads with
  | nil =>
    intro i sg inv notBusy inProgress reading
    obtain ⟨writes, on⟩ := reading
    refine ⟨(inv.put _).releaseProbing inProgress ?_, inv.keeps_put _⟩
    rw [put_services_self]
    refine ⟨⟨0, writes, 1⟩, { on with
      niod := by
        show (sg.services i).niod.map _ = _
        rw [on.niod]
        rfl
      selected := on.selected
      single := Nat.le_refl 1
      connecting := on.connecting
      log := ⟨on.log.flag, on.log.resp, on.log.matched⟩ }⟩
  | cons event rest ih =>
    exact fun i sg inv notBusy inProgress reading =>
      servicescanReadHandler_spec ih inv notBusy inProgress reading

/-! ## Events -/

/-- A connect handler is entered with nothing pending on the iod. -/
theorem servicescanConnectHandler_spec {event : ConnectEvent} {syncReads : List ReadEvent}
    (inv : Inv cfg.ap (some i) sg) (notBusy : sg.busy = false)
    (inProgress : i ∈ sg.servicesInProgress) (on : svc.ProbingOn cfg.ap iod)
    (here : sg.services i = { svc with niod := some Iod.idle }) :
    Fine (Returned cfg.ap sg)
      (servicescanConnectHandler cfg env event syncWrite syncReads i sg) := by
  have log : (sg.services i).LogOk := by
    rw [here]
    exact ⟨on.log.flag, on.log.resp, on.log.matched⟩
  obtain ⟨probe, selected⟩ := on.selected
  have selected' : (sg.services i).selected cfg.ap = some probe := by
    rw [here]
    exact selected
  unfold servicescanConnectHandler
  dsimp only
  rw [currentProbe_selected selected']
  simp only [bind, Except.bind, put_services]
  split
  · next failed =>
      have ok := launchSomeServiceProbes_ok cfg env (sg.servicesRemaining.length + 1)
      have failed' : event.timedOut = true ∨ event.status ≠ .success := by simpa using failed
      exact Meets.mono (abandonConnect_over inv log failed' ok (.inl (Nat.lt_succ_self _)))
        fun _ => Over.returned
  · next made =>
      have success : event.status = .success := by
        simp only [Bool.or_eq_true, decide_eq_true_eq, not_or, not_not] at made
        exact made.2
      have inTime : event.timedOut = false := by
        simp only [Bool.or_eq_true, not_or, Bool.not_eq_true] at made
        exact made.1
      have noted : (sg.services i).noting (.connect event.status event.timedOut) =
          { svc.noting (.connect .success false) with niod := some Iod.idle } := by
        rw [here, success, inTime]
      have reading : ({ svc.noting (.connect .success false) with
          niod := some Iod.idle } : ServiceNFO).Reading cfg.ap := by
        refine ⟨0, rfl, ⟨probe, selected⟩, Nat.zero_le 1, fun connects => absurd rfl connects,
          fun writes => absurd rfl writes, fun _ => rfl, on.nullTcp, ?_, ?_⟩
        · have log' : (svc.noting (.connect .success false)).LogOk := on.log.noting rfl
          exact ⟨log'.flag, log'.resp, log'.matched⟩
        · show (svc.noting (.connect .success false)).ended = false
          rw [noting_ended, on.notEnded]
          rfl
      have sent : Fine (Returned cfg.ap (sg.record i (.connect event.status event.timedOut)))
          (sendAndRead (launchSomeServiceProbes cfg env) (nsockRead cfg env syncReads) syncWrite
            probe i (sg.record i (.connect event.status event.timedOut))) := by
        refine sendAndRead_spec (nsockRead_ok cfg env syncReads) (inv.put _) notBusy inProgress
          ?_ ?_
        · rw [record_eq, put_services_self]
          show ((sg.services i).noting (.connect event.status event.timedOut)).Reading cfg.ap
          rw [noted]
          exact reading
        · rw [record_eq, put_services_self]
          exact selected'
      exact Meets.bind (Meets.mono sent fun _ => Returned.of_put inv)
        fun _ returned => returned.launch env cfg rfl

theorem Inv.pending (inv : Inv ap none sg) {iod : Iod} (niod : (sg.services i).niod = some iod)
    (pending : iod ≠ Iod.idle) :
    i ∈ sg.servicesInProgress ∧ (sg.services i).ProbingOn ap iod := by
  have born : i < sg.created := by
    by_contra unborn
    have none := inv.unborn i (Nat.not_lt.mp unborn)
    rw [niod] at none
    cases none
  have mem := inv.perm.mem_iff.mpr (List.mem_range.mpr born)
  rcases List.mem_append.mp mem with unfinished | finished
  · rcases List.mem_append.mp unfinished with remaining | inProgress
    · have none := (inv.waiting i remaining (by simp)).niod
      rw [niod] at none
      cases none
    · obtain ⟨iod', on⟩ := inv.probing i inProgress (by simp)
      have same : iod' = iod := Option.some.inj (on.niod.symm.trans niod)
      exact ⟨inProgress, same ▸ on⟩
  · exact absurd ((inv.done i finished).idle iod niod) pending

/-- Every event that nsock delivers is handled. -/
theorem deliver_spec {event : Event} {result : Except Halt ServiceGroup} (inv : Inv cfg.ap none sg)
    (notBusy : sg.busy = false) (delivered : deliver cfg env sg event = some result) :
    Fine (Returned cfg.ap sg) result := by
  cases event with
  | connect i event syncWrite syncReads =>
    obtain ⟨iod, niod, rest⟩ := bind_eq_some_iff.mp delivered
    split at rest
    · cases rest
    · next connects =>
        obtain ⟨inProgress, on⟩ := inv.pending niod (by rintro rfl; exact connects rfl)
        have held := inv.hold (.inr inProgress)
        have writes := on.connecting connects
        have single := on.single
        have one : iod.connects = 1 ∧ iod.reads = 0 := by omega
        have last : ({ iod with connects := iod.connects - 1 } : Iod) = Iod.idle := by
          rw [one.1, one.2, writes]
          rfl
        rw [← Option.some.inj rest, last]
        refine Meets.mono (servicescanConnectHandler_spec (held.put _) notBusy inProgress on ?_)
          fun _ => Returned.of_put held
        rw [put_services_self]
  | write i event =>
    obtain ⟨iod, niod, rest⟩ := bind_eq_some_iff.mp delivered
    split at rest
    · cases rest
    · next writes =>
        obtain ⟨inProgress, on⟩ := inv.pending niod (by rintro rfl; exact writes rfl)
        have held := inv.hold (.inr inProgress)
        have notNull := on.writing writes
        have connects : iod.connects = 0 := by
          by_contra connects
          exact writes (on.connecting connects)
        have on' : ({ sg.services i with
            niod := some { iod with writes := iod.writes - 1 } } : ServiceNFO).ProbingOn cfg.ap
            { iod with writes := iod.writes - 1 } :=
          { on with
            niod := rfl
            selected := on.selected
            connecting := fun some => absurd connects some
            writing := fun _ => notNull
            log := ⟨on.log.flag, on.log.resp, on.log.matched⟩ }
        have log : ((sg.put i { sg.services i with
            niod := some { iod with writes := iod.writes - 1 } }).services i).LogOk := by
          rw [put_services_self]
          exact on'.log
        rw [← Option.some.inj rest]
        refine Meets.mono (servicescanWriteHandler_spec env event (held.put _) log)
          fun sg' outcome => ?_
        rcases outcome with ended | rfl
        · exact (Over.of_put held ended).returned
        · rw [record_eq, put_services_self, put_put]
          refine ⟨(held.put _).releaseProbing inProgress ?_, held.keeps_put _⟩
          rw [put_services_self]
          exact ⟨_, on'.noting rfl rfl⟩
  | read i event syncReads =>
    obtain ⟨iod, niod, rest⟩ := bind_eq_some_iff.mp delivered
    split at rest
    · cases rest
    · next reads =>
        obtain ⟨inProgress, on⟩ := inv.pending niod (by rintro rfl; exact reads rfl)
        have held := inv.hold (.inr inProgress)
        have single := on.single
        have connects : iod.connects = 0 := by omega
        have one : iod.reads = 1 := by omega
        have last : ({ iod with reads := iod.reads - 1 } : Iod) = ⟨0, iod.writes, 0⟩ := by
          rw [one, connects]
        rw [← Option.some.inj rest, last]
        refine Meets.mono (servicescanReadHandler_spec (nsockRead_ok cfg env syncReads)
          (held.put _) notBusy inProgress ?_) fun _ => Returned.of_put held
        rw [put_services_self]
        exact ⟨iod.writes, { on with
          niod := rfl
          selected := on.selected
          single := Nat.zero_le 1
          connecting := fun some => absurd rfl some
          connected := fun _ => on.connected connects
          log := ⟨on.log.flag, on.log.resp, on.log.matched⟩ }⟩

end Nmap.Service
