import Nmap.Service.Handlers

/-!
# The books of the service scan

Every service that the constructor makes is in exactly one of the three lists at all times,
`end_svcprobe` always finds it, and no more than `ideal_parallelism` services are in progress.

`total_services` is assigned anew for each target from the services that remain, so it is too
small once an early response to an earlier target has ended a service.
-/

namespace Nmap.Service

open ServiceNFO ServiceGroup List Function

variable {cfg : Config} {sg sg' : ServiceGroup}

/-! ## The constructor -/

/-- The invariant while the group is built -/
structure Building (ap : AllProbes) (sg : ServiceGroup) : Prop where
  inv : Inv ap none sg
  idle : sg.servicesInProgress = []

variable {ap : AllProbes}

theorem Building.size (building : Building ap sg) :
    sg.servicesRemaining.length + sg.servicesFinished.length = sg.created := by
  have length := building.inv.perm.length_eq
  rw [building.idle, append_nil, length_append, length_range] at length
  exact length

theorem addService_building (building : Building ap sg) (target : Nat) (port : Nat × Proto) :
    Building ap (addService target sg port) := by
  have inv := building.inv
  have old : ∀ i, i < sg.created → (addService target sg port).services i = sg.services i :=
    fun i born => update_of_ne (Nat.ne_of_lt born) ..
  refine ⟨⟨?perm, inv.bound, ?waiting, ?probing, ?done, by simp, ?unborn⟩, building.idle⟩
  case perm =>
    show (sg.servicesRemaining ++ [sg.created] ++ sg.servicesInProgress ++
      sg.servicesFinished).Perm (List.range (sg.created + 1))
    rw [range_succ]
    refine Perm.trans ?_ (inv.perm.append_right [sg.created])
    simp only [append_assoc]
    refine Perm.append_left _ ?_
    rw [← append_assoc sg.servicesInProgress]
    exact perm_append_comm
  case waiting =>
    intro i mem _
    rcases mem_append.mp mem with old' | new
    · rw [old i (inv.lt_created (.inl old'))]
      exact inv.waiting i old' (by simp)
    · rw [mem_singleton.mp new]
      show ServiceNFO.Waiting (update sg.services sg.created _ sg.created)
      rw [update_self]
      exact ⟨rfl, rfl, ⟨rfl, fun some => absurd rfl some, fun some => absurd rfl some⟩, rfl⟩
  case probing =>
    intro i mem _
    rw [old i (inv.lt_created (.inr mem))]
    exact inv.probing i mem (by simp)
  case done =>
    intro i mem
    have born : i < sg.created := mem_range.mp (inv.perm.subset (mem_append_right _ mem))
    rw [old i born]
    exact inv.done i mem
  case unborn =>
    intro i unborn
    have ne : i ≠ sg.created := Nat.ne_of_gt unborn
    show (update sg.services sg.created _ i).niod = none
    rw [update_of_ne ne]
    exact inv.unborn i (Nat.le_of_succ_le unborn)

theorem addServices_building (building : Building ap sg) (target : Nat) (t : Target) : Building ap
    (addServices sg target t) ∧
      (addServices sg target t).servicesFinished = sg.servicesFinished := by
  have fold : ∀ (ports : List (Nat × Proto)) (sg : ServiceGroup), Building ap sg →
      Building ap (ports.foldl (addService target) sg) ∧
        (ports.foldl (addService target) sg).servicesFinished = sg.servicesFinished := by
    intro ports
    induction ports with
    | nil => exact fun sg building => ⟨building, rfl⟩
    | cons port rest ih => exact fun sg building => ih _ (addService_building building target port)
  obtain ⟨first, finished⟩ := fold t.openPorts sg building
  obtain ⟨second, finished'⟩ := fold t.openFilteredPorts _ first
  exact ⟨⟨⟨second.inv.perm, second.inv.bound, second.inv.waiting, second.inv.probing,
    second.inv.done, second.inv.heldOpen, second.inv.unborn⟩, second.idle⟩,
    finished'.trans finished⟩

/-- Whether an early response ends the service it is taken for: it is a new hard match that
needs no scan through a tunnel. -/
def earlyEnds (cfg : Config) (sg : ServiceGroup) (esr : EarlySvcResponse) : Bool :=
  match cfg.payloadServiceMatch esr.dport esr.data, earlyService sg esr.dport with
  | some details, some i =>
    let matched := (sg.services i).processMatch (some details)
    matched.1 && !(matched.2.scanThroughTunnel cfg.haveOpenssl).1
  | _, _ => false

/-- What the processing of an early response does to the lists -/
structure EarlyDone (cfg : Config) (esr : EarlySvcResponse) (sg sg' : ServiceGroup) : Prop where
  building : Building cfg.ap sg'
  created : sg'.created = sg.created
  total : sg'.totalServices = sg.totalServices
  finished : sg'.servicesFinished.length =
    sg.servicesFinished.length + (earlyEnds cfg sg esr).toNat

theorem processMatch_noting (details : Option MatchDetails) (event : SvcEvent) (svc : ServiceNFO) :
    (svc.noting event).processMatch details =
      ((svc.processMatch details).1, (svc.processMatch details).2.noting event) := by
  unfold processMatch
  split
  · split
    · rfl
    · rfl
  · rfl

theorem scanThroughTunnel_noting (haveOpenssl : Bool) (event : SvcEvent) (svc : ServiceNFO) :
    (svc.noting event).scanThroughTunnel haveOpenssl =
      ((svc.scanThroughTunnel haveOpenssl).1,
        (svc.scanThroughTunnel haveOpenssl).2.noting event) := by
  unfold scanThroughTunnel
  dsimp only
  split
  · rfl
  · split
    · rfl
    · split
      · rfl
      · rfl

variable {svc : ServiceNFO}

theorem waiting_early {svc' : ServiceNFO} {details : MatchDetails} (waiting : svc.Waiting)
    (state : svc'.probeState = .initial) (niod : svc'.niod = svc.niod)
    (history : svc'.history = .early details :: svc.history) (log : svc'.LogOk) : svc'.Waiting where
  state := state
  niod := niod.trans waiting.niod
  log := log
  notEnded := by
    have noted := noting_ended (.early details) svc
    unfold ended at noted ⊢
    rw [history, noted, ← ended, waiting.notEnded]
    rfl

theorem earlyKept {details : MatchDetails} {i : Nat} (building : Building cfg.ap sg)
    (remaining : i ∈ sg.servicesRemaining) (state : svc.probeState = .initial)
    (niod : svc.niod = (sg.services i).niod)
    (history : svc.history = .early details :: (sg.services i).history) (log : svc.LogOk) :
    Building cfg.ap (sg.put i svc) := by
  have waiting := building.inv.waiting i remaining (by simp)
  have held := building.inv.hold (.inl remaining)
  refine ⟨(held.put svc).releaseWaiting remaining ?_, building.idle⟩
  rw [put_services_self]
  exact waiting_early waiting state niod history log

theorem endEarly {i : Nat} (building : Building cfg.ap sg) (remaining : i ∈ sg.servicesRemaining)
    (niod : svc.niod = none) (log : svc.LogOk) (impossible : svc.tcpwrapPossible = false) :
    ∃ sg', endSvcprobe .finishedHardmatched false i (sg.put i svc) = .ok sg' ∧
      Building cfg.ap sg' ∧ Keeps sg sg' ∧
      sg'.servicesFinished.length = sg.servicesFinished.length + 1 := by
  have held := building.inv.hold (.inl remaining)
  have ending : Ending .finishedHardmatched false ((sg.put i svc).services i) := by
    rw [put_services_self]
    refine .cleared rfl (by simp) (fun _ iod mem => ?_) log impossible
    rw [niod] at mem
    cases mem
  obtain ⟨sg', eq, ended, sub⟩ := endSvcprobe_over (held.put svc) ending
  refine ⟨sg', eq, ⟨ended.inv, ?_⟩, (Over.of_put held ended).keeps, ?_⟩
  · rw [put_inProgress, building.idle] at sub
    exact sublist_nil.mp sub
  · have remaining' : i ∈ (sg.put i svc).servicesRemaining := remaining
    have explicit := (endSvcprobe_eq (Or.inl remaining')).symm.trans eq
    rw [put_inProgress, building.idle, if_neg not_mem_nil] at explicit
    rw [← Except.ok.inj explicit]
    exact length_append

/-- An early response leaves its service waiting, or ends it. -/
theorem earlyResponse_done (building : Building cfg.ap sg) (esr : EarlySvcResponse) :
    ∃ sg', earlyResponse cfg sg esr = .ok sg' ∧ EarlyDone cfg esr sg sg' := by
  unfold earlyResponse
  cases details? : cfg.payloadServiceMatch esr.dport esr.data with
  | none => exact ⟨sg, rfl, building, rfl, rfl, by simp [earlyEnds, details?]⟩
  | some details =>
    cases found : earlyService sg esr.dport with
    | none => exact ⟨sg, rfl, building, rfl, rfl, by simp [earlyEnds, details?, found]⟩
    | some i =>
      have remaining : i ∈ sg.servicesRemaining := mem_of_find?_eq_some found
      have waiting := building.inv.waiting i remaining (by simp)
      have ends : earlyEnds cfg sg esr =
          (((sg.services i).processMatch (some details)).1 &&
            !(((sg.services i).processMatch (some details)).2.scanThroughTunnel
              cfg.haveOpenssl).1) := by
        simp [earlyEnds, details?, found]
      have entry : (sg.record i (.early details)).services i =
          (sg.services i).noting (.early details) := put_services_self ..
      dsimp only
      rw [entry, processMatch_noting]
      rcases processMatch_spec (some details) (sg.services i) with
        ⟨noMatch, known⟩ | ⟨isSoft, name, strings, named, isMatch⟩
      · -- no name, or a soft match of a service that has one
        rw [noMatch] at ends ⊢
        refine ⟨_, rfl, ?_, rfl, rfl, by rw [ends]; rfl⟩
        rw [record_eq, put_put]
        refine earlyKept building remaining waiting.state rfl rfl ?_
        obtain ⟨isSoft, name?, strings⟩ := details
        cases name? with
        | none => exact waiting.log.noting rfl
        | some name =>
          exact .of_cleared rfl rfl (waiting.log.matched (known isSoft name strings rfl).2)
      · have clears : (SvcEvent.early details).clears = true := by
          rw [Option.some.inj named]
          rfl
        rw [isMatch] at ends ⊢
        cases isSoft with
        | true =>
          refine ⟨_, rfl, ?_, rfl, rfl, by rw [ends]; rfl⟩
          rw [record_eq, put_put]
          exact earlyKept building remaining waiting.state rfl rfl
            (.of_cleared clears rfl rfl)
        | false =>
          simp only [Bool.not_false] at ends ⊢
          rw [scanThroughTunnel_noting]
          obtain ⟨again, tunnelled, eq, frame, initial⟩ :=
            scanThroughTunnel_spec cfg.haveOpenssl { sg.services i with
              probeMatched := some name
              tcpwrapPossible := false
              matched := (sg.services i).matched.copy strings
              softMatchFound := false }
          rw [eq] at ends ⊢
          have niod : tunnelled.niod = (sg.services i).niod := by rw [frame]
          have history : tunnelled.history = (sg.services i).history := by rw [frame]
          have impossible : tunnelled.tcpwrapPossible = false := by rw [frame]
          have history' : (tunnelled.noting (.early details)).history =
              .early details :: (sg.services i).history := by rw [← history]
          have log : (tunnelled.noting (.early details)).LogOk :=
            .of_cleared clears history' impossible
          rw [record_eq]
          cases again with
          | true =>
            refine ⟨_, rfl, ?_, rfl, rfl, by rw [ends]; rfl⟩
            rw [put_put]
            exact earlyKept building remaining (initial rfl) niod history' log
          | false =>
            have niod' : (tunnelled.noting (.early details)).niod = none :=
              niod.trans waiting.niod
            dsimp only
            rw [put_put]
            obtain ⟨sg', eq', building', keeps, finished⟩ :=
              endEarly building remaining niod' log impossible
            refine ⟨sg', eq', building', keeps.created, keeps.total, ?_⟩
            rw [finished, ends]
            rfl

/-! ## The total -/

/-- No response of the list ends a service, each in the state it is processed in. -/
def quietResponses (cfg : Config) : List EarlySvcResponse → ServiceGroup → Bool
  | [], _ => true
  | esr :: rest, sg =>
    !earlyEnds cfg sg esr &&
      match earlyResponse cfg sg esr with
      | .ok sg => quietResponses cfg rest sg
      | .error _ => false

/-- No early response of a live target ends a service, those of the last one apart. -/
def quietTargets (cfg : Config) : List (Target × Nat) → ServiceGroup → Bool
  | [], _ => true
  | entry :: rest, sg =>
    if entry.1.timedOut then quietTargets cfg rest sg
    else if rest.all (·.1.timedOut) then true
    else
      quietResponses cfg entry.1.earlySvcResponses (addServices sg entry.2 entry.1) &&
        match addTarget cfg sg entry with
        | .ok sg => quietTargets cfg rest sg
        | .error _ => false

/-- The targets for which `total_services` comes out right. Without a live target it is never
assigned. -/
def TotalExact (cfg : Config) (targets : List Target) : Prop :=
  if targets.all (·.timedOut) then cfg.uninitialised = 0
  else quietTargets cfg targets.zipIdx (emptyGroup cfg) = true

/-- The responses of one target -/
theorem earlyResponses_done (responses : List EarlySvcResponse) (building : Building cfg.ap sg) :
    ∃ sg', responses.foldlM (earlyResponse cfg) sg = .ok sg' ∧ Building cfg.ap sg' ∧
      sg'.created = sg.created ∧ sg'.totalServices = sg.totalServices ∧
      (sg'.servicesFinished = [] ↔
        sg.servicesFinished = [] ∧ quietResponses cfg responses sg = true) := by
  induction responses generalizing sg with
  | nil => exact ⟨sg, rfl, building, rfl, rfl, by simp [quietResponses]⟩
  | cons esr rest ih =>
    obtain ⟨sg', eq, done⟩ := earlyResponse_done building esr
    obtain ⟨sg'', eq', building', created, total, finished⟩ := ih done.building
    refine ⟨sg'', ?_, building', created.trans done.created, total.trans done.total, ?_⟩
    · rw [foldlM_cons, eq]
      exact eq'
    · have length := done.finished
      rw [finished, quietResponses, eq]
      cases ends : earlyEnds cfg sg esr with
      | true =>
        have some : sg'.servicesFinished ≠ [] := by
          intro none
          rw [none, ends] at length
          simp at length
        simp [some]
      | false =>
        rw [ends] at length
        have none : sg'.servicesFinished = [] ↔ sg.servicesFinished = [] := by
          rw [← length_eq_zero_iff, ← length_eq_zero_iff, length]
          rfl
        simp [none]

theorem addTarget_done (entry : Target × Nat) (live : entry.1.timedOut = false)
    (building : Building cfg.ap sg) :
    ∃ sg', addTarget cfg sg entry = .ok sg' ∧ Building cfg.ap sg' ∧
      sg'.totalServices + sg.servicesFinished.length = sg'.created ∧
      (sg'.servicesFinished = [] ↔ sg.servicesFinished = [] ∧
        quietResponses cfg entry.1.earlySvcResponses (addServices sg entry.2 entry.1) = true) := by
  obtain ⟨added, finished⟩ := addServices_building building entry.2 entry.1
  obtain ⟨sg', eq, building', created, total, quiet⟩ :=
    earlyResponses_done entry.1.earlySvcResponses added
  refine ⟨sg', ?_, building', ?_, ?_⟩
  · unfold addTarget
    rw [live]
    exact eq
  · have size := added.size
    rw [finished] at size
    rw [total, created, ← size]
    rfl
  · rw [quiet, finished]

/-- All targets: the total is exact if none was ended before and none is ended early. -/
theorem addTargets_done (entries : List (Target × Nat)) (building : Building cfg.ap sg) :
    ∃ sg', entries.foldlM (addTarget cfg) sg = .ok sg' ∧ Building cfg.ap sg' ∧
      if entries.all (·.1.timedOut) then sg' = sg
      else (sg'.totalServices = sg'.created ↔
        sg.servicesFinished = [] ∧ quietTargets cfg entries sg = true) := by
  induction entries generalizing sg with
  | nil => exact ⟨sg, rfl, building, rfl⟩
  | cons entry rest ih =>
    cases live : entry.1.timedOut with
    | true =>
      have same : addTarget cfg sg entry = .ok sg := by
        unfold addTarget
        rw [live]
        rfl
      obtain ⟨sg', eq, building', total⟩ := ih building
      refine ⟨sg', ?_, building', ?_⟩
      · rw [foldlM_cons, same]
        exact eq
      · rw [all_cons, live, Bool.true_and, quietTargets, live]
        exact total
    | false =>
      obtain ⟨sg₁, eq₁, building₁, total₁, quiet₁⟩ := addTarget_done entry live building
      obtain ⟨sg', eq, building', total⟩ := ih building₁
      refine ⟨sg', ?_, building', ?_⟩
      · rw [foldlM_cons, eq₁]
        exact eq
      rw [all_cons, live, Bool.false_and, if_neg Bool.false_ne_true, quietTargets, live,
        if_neg Bool.false_ne_true, eq₁]
      split at total
      · next last =>
          -- the last live target: what was finished before it is missing
          rw [total, if_pos last]
          constructor
          · intro exact'
            refine ⟨length_eq_zero_iff.mp ?_, rfl⟩
            omega
          · rintro ⟨none, -⟩
            rw [none] at total₁
            exact total₁
      · next more =>
          rw [total, quiet₁, if_neg more, Bool.and_eq_true, and_assoc]

theorem emptyGroup_building (cfg : Config) : Building cfg.ap (emptyGroup cfg) := by
  refine ⟨⟨Perm.refl _, Nat.le_refl 0, ?_, ?_, ?_, by simp, fun _ _ => rfl⟩, rfl⟩
  all_goals
    intro i mem
    cases mem

/-- What holds of the group that the constructor makes -/
structure Books (cfg : Config) (targets : List Target) (sg : ServiceGroup) : Prop where
  inv : Inv cfg.ap none sg
  notBusy : sg.busy = false
  ideal : sg.idealParallelism = idealPar cfg
  total : sg.totalServices = sg.created ↔ TotalExact cfg targets

theorem newServiceGroup_books (cfg : Config) (targets : List Target) :
    ∃ sg, newServiceGroup cfg targets = .ok sg ∧ Books cfg targets sg := by
  obtain ⟨sg, eq, building, total⟩ := addTargets_done targets.zipIdx (emptyGroup_building cfg)
  have inv := building.inv
  refine ⟨{ sg with idealParallelism := idealPar cfg, busy := false }, ?_, ⟨?_, rfl, rfl, ?_⟩⟩
  · unfold newServiceGroup
    rw [eq]
    rfl
  · refine ⟨inv.perm, ?_, inv.waiting, inv.probing, inv.done, inv.heldOpen, inv.unborn⟩
    show sg.servicesInProgress.length ≤ _
    rw [building.idle]
    exact Nat.zero_le _
  · show sg.totalServices = sg.created ↔ _
    have live : targets.zipIdx.all (·.1.timedOut) = targets.all (·.timedOut) := by
      have fst : targets.zipIdx.map Prod.fst = targets := zipIdx_map_fst 0 targets
      conv_rhs => rw [← fst, all_map]
      rfl
    unfold TotalExact
    rw [← live]
    split at total
    · next dead =>
        rw [total, if_pos dead]
        rfl
    · next some =>
        rw [total, if_neg some]
        exact and_iff_right rfl

/-! ## Runs -/

theorem ServiceNFO.Waiting.done (waiting : svc.Waiting) : svc.Done where
  idle := by simp [waiting.niod]
  log := waiting.log
  wrapped := by simp [waiting.state]
  endedWrapped := by simp [waiting.notEnded]

/-- Excluded services are done without having been started. -/
theorem removeExcludedPorts_inv (inv : Inv ap none sg) :
    Inv ap none (removeExcludedPorts ap sg) := by
  generalize excludedEq : (fun i => ap.isExcluded (sg.services i).portno (sg.services i).proto) =
    excluded
  have eq : removeExcludedPorts ap sg = { sg with
      servicesRemaining := sg.servicesRemaining.filter fun i => !excluded i
      servicesFinished := sg.servicesFinished ++ sg.servicesRemaining.filter excluded } := by
    rw [← excludedEq]
    rfl
  rw [eq]
  refine ⟨?perm, inv.bound, ?waiting, inv.probing, ?done, by simp, inv.unborn⟩
  case perm =>
    refine Perm.trans ?_ inv.perm
    have split := filter_append_perm (fun i => !excluded i) sg.servicesRemaining
    simp only [Bool.not_not] at split
    refine Perm.trans ?_ ((split.append_right _).append_right _)
    simp only [append_assoc]
    refine Perm.append_left _ ?_
    rw [← append_assoc]
    exact perm_append_comm
  case waiting =>
    intro i mem _
    exact inv.waiting i (mem_of_mem_filter mem) (by simp)
  case done =>
    intro i mem
    rcases mem_append.mp mem with old | new
    · exact inv.done i old
    · exact (inv.waiting i (mem_of_mem_filter new) (by simp)).done

/-- The books of a group, or the reason why the program has stopped -/
def ScanOk (cfg : Config) (targets : List Target) : ScanState → Prop
  | .live _ sg => Books cfg targets sg
  | .halted halt => halt = .unexpectedStatus

variable {targets : List Target}

theorem scanOk_ofExcept {result : Except Halt ServiceGroup} (phase : Phase)
    (books : Books cfg targets sg) (spec : Fine (Returned cfg.ap sg) result) :
    ScanOk cfg targets (.ofExcept phase result) := by
  cases result with
  | error halt => exact spec
  | ok sg' =>
    obtain ⟨inv, keeps⟩ := spec
    refine ⟨inv, keeps.busy.trans books.notBusy, keeps.ideal.trans books.ideal, ?_⟩
    rw [keeps.total, keeps.created]
    exact books.total

theorem scanOk_reachable {s : ScanState} (reach : (serviceScan cfg targets).Reachable s) :
    ScanOk cfg targets s := by
  refine TSys.Inductive.holds (P := ScanOk cfg targets) ⟨?init, ?step⟩ reach
  case init =>
    rintro s rfl
    obtain ⟨sg, eq, books⟩ := newServiceGroup_books cfg targets
    rw [eq]
    exact books
  case step =>
    intro s t books step
    cases step with
    | exclude sg =>
      have inv := removeExcludedPorts_inv books.inv
      split
      · exact books
      · exact ⟨inv, books.notBusy, books.ideal, books.total⟩
    | launch sg env _ =>
      have ok := launchSomeServiceProbes_ok cfg env (sg.servicesRemaining.length + 1)
      exact scanOk_ofExcept _ books (ok sg books.inv (Nat.lt_succ_self _))
    | deliver sg env event delivered =>
      exact scanOk_ofExcept _ books (deliver_spec books.inv books.notBusy delivered)

/-- The books of one state of a scan. An assertion of `end_svcprobe` that fails halts it. -/
structure BookkeepingOk (sg : ServiceGroup) : Prop where
  /-- each service that was made is in exactly one list, once -/
  once : ∀ i < sg.created, sg.servicesRemaining.count i + sg.servicesInProgress.count i +
    sg.servicesFinished.count i = 1
  parallel : sg.servicesInProgress.length ≤ sg.idealParallelism

/-- `total_services` is the number of services in the three lists. -/
def TotalOk (sg : ServiceGroup) : Prop :=
  sg.totalServices = sg.servicesRemaining.length + sg.servicesInProgress.length +
    sg.servicesFinished.length

theorem Inv.bookkeepingOk (inv : Inv ap none sg) : BookkeepingOk sg := by
  refine ⟨fun i born => ?_, inv.bound⟩
  rw [← count_append, ← count_append, inv.perm.count_eq]
  rw [nodup_range.count, if_pos (mem_range.mpr born)]

theorem Books.totalOk_iff (books : Books cfg targets sg) :
    TotalOk sg ↔ TotalExact cfg targets := by
  have size := books.inv.perm.length_eq
  rw [length_append, length_append, length_range] at size
  rw [← books.total, TotalOk, size]

/-- **Bookkeeping of the service scan.** In every state of every run each service is in exactly
one list, no more than `ideal_parallelism` are in progress and no assertion has failed; the
total is the sum of the three lists in every state exactly when `TotalExact` holds of the
targets. -/
theorem bookkeeping_iff (cfg : Config) (targets : List Target) :
    (∀ s, (serviceScan cfg targets).Reachable s → s ≠ .halted .assertion ∧
      ∀ phase sg, s = .live phase sg → BookkeepingOk sg) ∧
    ((∀ s, (serviceScan cfg targets).Reachable s → s ≠ .halted .assertion ∧
      ∀ phase sg, s = .live phase sg → BookkeepingOk sg ∧ TotalOk sg) ↔
        TotalExact cfg targets) := by
  have always : ∀ s, (serviceScan cfg targets).Reachable s → s ≠ .halted .assertion ∧
      ∀ phase sg, s = .live phase sg → BookkeepingOk sg := by
    intro s reach
    have ok := scanOk_reachable reach
    refine ⟨?_, ?_⟩
    · rintro rfl
      cases ok
    · rintro phase sg rfl
      exact Inv.bookkeepingOk (Books.inv ok)
  refine ⟨always, ?_, ?_⟩
  · intro exact'
    obtain ⟨sg, eq, books⟩ := newServiceGroup_books cfg targets
    have start : (serviceScan cfg targets).Reachable (.live .constructed sg) := by
      refine .start ?_
      show _ = ScanState.ofExcept _ (newServiceGroup cfg targets)
      rw [eq]
      rfl
    exact books.totalOk_iff.mp ((exact' _ start).2 _ sg rfl).2
  · intro exact' s reach
    refine ⟨(always s reach).1, ?_⟩
    rintro phase sg rfl
    exact ⟨(always _ reach).2 phase sg rfl, (Books.totalOk_iff (scanOk_reachable reach)).mpr exact'⟩

/-- A build with one TCP probe, where the SNMP payload of a port scan is recognised -/
def snmpConfig : Config where
  ap := {
    nullProbe := none
    probes := [⟨[71, 69, 84], .tcp, [80], [], 1, [], []⟩]
    excludedTcpPorts := []
    excludedUdpPorts := []
    excludedSctpPorts := []
    nullProbe_isNull := by simp
    probes_notNull := by simp [ServiceProbe.isNullProbe] }
  haveOpenssl := true
  versionIntensity := 7
  timingLevel := 3
  minParallelism := 0
  maxParallelism := 0
  overrideExcludeports := false
  testMatch := fun _ _ => none
  payloadServiceMatch := fun dport _ =>
    if dport = 161 then some ⟨false, some ['s', 'n', 'm', 'p'], {}⟩ else none
  uninitialised := 0

/-- Two hosts, the first of which has answered the SNMP payload -/
def snmpTargets : List Target :=
  [⟨false, [(161, .udp)], [], [⟨161, [48, 38]⟩]⟩, ⟨false, [(80, .tcp)], [], []⟩]

/-- With an early match on the first of two hosts the total is one although there are two
services. -/
theorem total_misses_early_match :
    ∃ sg, (serviceScan snmpConfig snmpTargets).Reachable (.live .constructed sg) ∧
      sg.totalServices = 1 ∧ sg.servicesRemaining = [1] ∧ sg.servicesInProgress = [] ∧
      sg.servicesFinished = [0] ∧ ¬ TotalOk sg := by
  refine ⟨_, .start rfl, rfl, rfl, rfl, rfl, ?_⟩
  intro total
  cases total

end Nmap.Service
