import Mathlib.Data.List.Nodup
import Mathlib.Tactic.SplitIfs
import Nmap.Service.Bookkeeping

/-!
# Who early responses are credited to

The constructor of `ServiceGroup` looks for the service of an early response by protocol and
port only, among the services of all targets so far. For one UDP port these are a queue: every
target adds its services at the end, and every response with a match goes to the head.
-/

namespace Nmap.Service

open ServiceNFO ServiceGroup List Option

/-! ## Rounds -/

/-- A service without the record of what has happened to it -/
def ServiceNFO.forget (svc : ServiceNFO) : ServiceNFO := { svc with history := [] }

/-- The details of the service `i` are changed, or it is finished. -/
def Touched (sg sg' : ServiceGroup) (i : Nat) : Prop :=
  (sg'.services i).forget ≠ (sg.services i).forget ∨
    i ∈ sg'.servicesFinished ∧ i ∉ sg.servicesFinished

/-- The rounds of the loop over the early responses of the target `k`: the group before each
and after it -/
def responseRounds (cfg : Config) (k : Nat) :
    List EarlySvcResponse → ServiceGroup → List (Nat × ServiceGroup × ServiceGroup)
  | [], _ => []
  | esr :: rest, sg =>
    match earlyResponse cfg sg esr with
    | .ok sg' => (k, sg, sg') :: responseRounds cfg k rest sg'
    | .error _ => []

def rounds (cfg : Config) :
    List (Target × Nat) → ServiceGroup → List (Nat × ServiceGroup × ServiceGroup)
  | [], _ => []
  | entry :: rest, sg =>
    (if entry.1.timedOut then []
      else responseRounds cfg entry.2 entry.1.earlySvcResponses
        (addServices sg entry.2 entry.1)) ++
    match addTarget cfg sg entry with
    | .ok sg' => rounds cfg rest sg'
    | .error _ => []

/-- A round touches services of the target only that holds the response. -/
def CreditsOwn (round : Nat × ServiceGroup × ServiceGroup) : Prop :=
  ∀ i, Touched round.2.1 round.2.2 i → (round.2.1.services i).target = round.1

/-- So do all rounds of the constructor. -/
def CreditsSender (cfg : Config) (targets : List Target) : Prop :=
  ∀ round ∈ rounds cfg targets.zipIdx (emptyGroup cfg), CreditsOwn round

/-! ## The queue of a port -/

/-- Whether a match changes a service: it has a name, and is not a soft match of a service that
has matched -/
def MatchDetails.affects (details : MatchDetails) (svc : ServiceNFO) : Bool :=
  details.serviceName.isSome && !(details.isSoft && svc.probeMatched.isSome)

/-- Whether a match ends a service, and the service after it -/
def credit (cfg : Config) (details : MatchDetails) (svc : ServiceNFO) : Bool × ServiceNFO :=
  match svc.processMatch (some details) with
  | (false, svc) => (false, svc)
  | (true, svc) =>
    let (again, svc) := svc.scanThroughTunnel cfg.haveOpenssl
    (!again, svc)

/-- The queue of the port `p` after a response -/
def creditOn (cfg : Config) (p : Nat) (queue : List ServiceNFO) (esr : EarlySvcResponse) :
    List ServiceNFO :=
  if esr.dport = p then
    match cfg.payloadServiceMatch esr.dport esr.data, queue with
    | some details, svc :: rest =>
      let (ends, svc) := credit cfg details svc
      if ends then rest else svc :: rest
    | _, _ => queue
  else queue

/-- The services that the target `k` has on the UDP port `p` -/
def servicesOn (p : Nat) (t : Target) (k : Nat) : List ServiceNFO :=
  ((t.openPorts ++ t.openFilteredPorts).filter fun port => port.2 = .udp && port.1 = p).map
    fun port => { target := k, portno := port.1, proto := port.2 }

/-- What the target's own responses leave of them -/
def leftOn (cfg : Config) (p : Nat) (t : Target) (k : Nat) : List ServiceNFO :=
  t.earlySvcResponses.foldl (creditOn cfg p) (servicesOn p t k)

/-- No response of the target to the port has a match that changes the service. -/
def Leaves (cfg : Config) (p : Nat) (svc : ServiceNFO) (t : Target) : Prop :=
  ∀ esr ∈ t.earlySvcResponses, esr.dport = p →
    ∀ details ∈ cfg.payloadServiceMatch esr.dport esr.data, details.affects svc = false

/-- Of the targets that have not timed out, the first one that keeps a service on the port, when
its own responses are credited to it: no later target has a response that changes this
service. -/
def Undisturbed (cfg : Config) (p : Nat) : List (Target × Nat) → Prop
  | [] => True
  | (t, k) :: rest =>
    if t.timedOut then Undisturbed cfg p rest
    else
      match leftOn cfg p t k with
      | [] => Undisturbed cfg p rest
      | svc :: _ => ∀ entry ∈ rest, entry.1.timedOut = false → Leaves cfg p svc entry.1

namespace ServiceGroup

def onPort (sg : ServiceGroup) (p i : Nat) : Bool :=
  (sg.services i).proto = .udp && (sg.services i).portno = p

/-- Those of the listed services that are on the UDP port `p` -/
def queueOf (sg : ServiceGroup) (p : Nat) (listed : List Nat) : List ServiceNFO :=
  (listed.filter (sg.onPort p)).map fun i => (sg.services i).forget

/-- The services that wait on the UDP port `p` -/
def queue (sg : ServiceGroup) (p : Nat) : List ServiceNFO := sg.queueOf p sg.servicesRemaining

variable {sg sg' : ServiceGroup} {p i : Nat}

theorem queueOf_append (sg : ServiceGroup) (p : Nat) (before after : List Nat) :
    sg.queueOf p (before ++ after) = sg.queueOf p before ++ sg.queueOf p after := by
  simp [queueOf]

theorem queueOf_cons (sg : ServiceGroup) (p i : Nat) (listed : List Nat) :
    sg.queueOf p (i :: listed) = sg.queueOf p [i] ++ sg.queueOf p listed :=
  queueOf_append sg p [i] listed

theorem queueOf_off (off : sg.onPort p i = false) : sg.queueOf p [i] = [] := by
  simp [queueOf, off]

theorem queueOf_on (on : sg.onPort p i = true) : sg.queueOf p [i] = [(sg.services i).forget] := by
  simp [queueOf, on]

theorem queueOf_congr {listed : List Nat} (same : ∀ i ∈ listed, sg'.services i = sg.services i) :
    sg'.queueOf p listed = sg.queueOf p listed := by
  have filtered : listed.filter (sg'.onPort p) = listed.filter (sg.onPort p) := by
    apply filter_congr
    intro i mem
    rw [onPort, onPort, same i mem]
  rw [queueOf, queueOf, filtered]
  apply map_congr_left
  intro i mem
  rw [same i (mem_filter.mp mem).1]

theorem earlyService_split (found : earlyService sg p = some i) :
    sg.onPort p i = true ∧ ∃ before after, sg.servicesRemaining = before ++ i :: after ∧
      sg.queueOf p before = [] := by
  obtain ⟨on, before, after, split, passed⟩ := List.find?_eq_some_iff_append.mp found
  refine ⟨on, before, after, split, ?_⟩
  have none : before.filter (sg.onPort p) = [] := by
    rw [filter_eq_nil_iff]
    intro j mem
    have passed' := passed j mem
    rw [Bool.not_eq_true'] at passed'
    rw [onPort, passed']
    exact Bool.false_ne_true
  rw [queueOf, none, map_nil]

theorem earlyService_head (sg : ServiceGroup) (p : Nat) :
    (earlyService sg p).map (fun i => (sg.services i).forget) = (sg.queue p).head? := by
  rw [queue, queueOf, List.head?_map, List.head?_filter]
  rfl

end ServiceGroup

/-! ## One response -/

section

variable {cfg : Config} {sg : ServiceGroup}

@[simp] theorem forget_noting (event : SvcEvent) (svc : ServiceNFO) :
    (svc.noting event).forget = svc.forget := rfl

theorem processMatch_forget (details : Option MatchDetails) (svc : ServiceNFO) :
    svc.forget.processMatch details =
      ((svc.processMatch details).1, (svc.processMatch details).2.forget) := by
  unfold processMatch forget
  dsimp only
  split
  · split
    · rfl
    · rfl
  · rfl

theorem scanThroughTunnel_forget (haveOpenssl : Bool) (svc : ServiceNFO) :
    svc.forget.scanThroughTunnel haveOpenssl =
      ((svc.scanThroughTunnel haveOpenssl).1, (svc.scanThroughTunnel haveOpenssl).2.forget) := by
  unfold scanThroughTunnel forget
  dsimp only
  split
  · rfl
  · split
    · rfl
    · split
      · rfl
      · rfl

theorem credit_forget (cfg : Config) (details : MatchDetails) (svc : ServiceNFO) :
    credit cfg details svc.forget =
      ((credit cfg details svc).1, (credit cfg details svc).2.forget) := by
  rw [credit, credit, processMatch_forget]
  generalize svc.processMatch (some details) = result
  obtain ⟨hard, svc'⟩ := result
  cases hard with
  | false => rfl
  | true =>
    dsimp only
    rw [scanThroughTunnel_forget]

variable {details : MatchDetails} {svc : ServiceNFO}

theorem processMatch_unaffected (leaves : details.affects svc = false) : svc.processMatch
    (some details) = (false, svc) := by
  obtain ⟨isSoft, name, strings⟩ := details
  cases name with
  | none => rfl
  | some name =>
    have again : (isSoft && svc.probeMatched.isSome) = true := by
      simpa [MatchDetails.affects] using leaves
    exact if_pos again

theorem processMatch_affected (affects : details.affects svc = true) :
    ∃ name, svc.processMatch (some details) = (!details.isSoft, { svc with
      probeMatched := some name
      tcpwrapPossible := false
      matched := svc.matched.copy details.strings
      softMatchFound := details.isSoft }) := by
  obtain ⟨isSoft, name, strings⟩ := details
  cases name with
  | none => cases affects
  | some name =>
    have first : ¬(isSoft && svc.probeMatched.isSome) = true := by
      rw [Bool.not_eq_true]
      exact (Bool.not_eq_true' _).mp affects
    exact ⟨name, if_neg first⟩

variable (cfg) in
theorem credit_unaffected (leaves : details.affects svc = false) : credit cfg details svc =
    (false, svc) := by
  rw [credit, processMatch_unaffected leaves]

theorem scanThroughTunnel_again {haveOpenssl : Bool}
    (again : (svc.scanThroughTunnel haveOpenssl).1 = true) :
    svc.tunnel = .none ∧ (svc.scanThroughTunnel haveOpenssl).2.tunnel = .ssl := by
  revert again
  unfold scanThroughTunnel
  dsimp only
  split
  · exact fun again => nomatch again
  · split
    · exact fun again => nomatch again
    · next direct =>
        split
        · exact fun again => nomatch again
        · intro _
          refine ⟨?_, rfl⟩
          simp at direct
          exact direct.2

variable (cfg) in
theorem credit_eq (affects : details.affects svc = true) :
    ∃ name matched, credit cfg details svc =
      let stored := { svc with
        probeMatched := some name
        tcpwrapPossible := false
        matched := matched
        softMatchFound := details.isSoft }
      if details.isSoft then (false, stored)
      else (!(stored.scanThroughTunnel cfg.haveOpenssl).1,
        (stored.scanThroughTunnel cfg.haveOpenssl).2) := by
  obtain ⟨name, eq⟩ := processMatch_affected affects
  refine ⟨name, svc.matched.copy details.strings, ?_⟩
  rw [credit, eq]
  cases details.isSoft with
  | true => rfl
  | false => rfl

variable (cfg) in
/-- A match that affects a service ends it or changes it. -/
theorem credit_affected (affects : details.affects svc = true) :
    (credit cfg details svc).1 = true ∨ (credit cfg details svc).2.forget ≠ svc.forget := by
  obtain ⟨name, matched, eq⟩ := credit_eq cfg affects
  rw [eq]
  cases soft : details.isSoft with
  | true =>
    -- nothing had matched before
    right
    intro same
    have stored : some name = svc.probeMatched := congrArg ServiceNFO.probeMatched same
    rw [MatchDetails.affects, soft, ← stored] at affects
    simp at affects
  | false =>
    dsimp only
    rw [if_neg Bool.false_ne_true]
    generalize stored : { svc with
      probeMatched := some name
      tcpwrapPossible := false
      matched := matched
      softMatchFound := false } = svc'
    cases again : (svc'.scanThroughTunnel cfg.haveOpenssl).1 with
    | false => exact .inl rfl
    | true =>
      right
      intro same
      obtain ⟨direct, tunnel⟩ := scanThroughTunnel_again again
      have tunnels := congrArg ServiceNFO.tunnel same
      have changed : (svc'.scanThroughTunnel cfg.haveOpenssl).2.tunnel = svc.tunnel := tunnels
      rw [tunnel, show svc.tunnel = svc'.tunnel by rw [← stored], direct] at changed
      cases changed

theorem credit_frame (cfg : Config) (details : MatchDetails) (svc : ServiceNFO) :
    (credit cfg details svc).2.target = svc.target ∧
      (credit cfg details svc).2.portno = svc.portno ∧
      (credit cfg details svc).2.proto = svc.proto := by
  cases affects : details.affects svc with
  | false =>
    rw [credit_unaffected cfg affects]
    exact ⟨rfl, rfl, rfl⟩
  | true =>
    obtain ⟨name, matched, eq⟩ := credit_eq cfg affects
    rw [eq]
    dsimp only
    split
    · exact ⟨rfl, rfl, rfl⟩
    · obtain ⟨again, svc', tunnelled, frame, -⟩ :=
        scanThroughTunnel_spec cfg.haveOpenssl { svc with
          probeMatched := some name
          tcpwrapPossible := false
          matched := matched
          softMatchFound := details.isSoft }
      rw [tunnelled, frame]
      exact ⟨rfl, rfl, rfl⟩

variable {esr : EarlySvcResponse} {i : Nat}

theorem earlyResponse_eq (isMatch : cfg.payloadServiceMatch esr.dport esr.data = some details)
    (found : earlyService sg esr.dport = some i) :
    let credited := credit cfg details ((sg.services i).noting (.early details))
    earlyResponse cfg sg esr =
      if credited.1 then endSvcprobe .finishedHardmatched false i (sg.put i credited.2)
      else .ok (sg.put i credited.2) := by
  unfold earlyResponse credit
  rw [isMatch]
  simp only [found, record_eq, put_services_self, put_put]
  generalize processMatch (some details) ((sg.services i).noting (.early details)) = result
  obtain ⟨hard, svc⟩ := result
  cases hard with
  | false => rfl
  | true =>
    obtain ⟨again, svc', tunnelled, -⟩ := scanThroughTunnel_spec cfg.haveOpenssl svc
    simp only [tunnelled]
    cases again with
    | false => rfl
    | true => rfl

/-- What a response does to the queues, and to a service of the one of its port -/
structure Credited (cfg : Config) (esr : EarlySvcResponse) (sg sg' : ServiceGroup) : Prop where
  queue : ∀ p, sg'.queue p = creditOn cfg p (sg.queue p) esr
  touched : ∀ i, Touched sg sg' i ↔ earlyService sg esr.dport = some i ∧
    ∃ details ∈ cfg.payloadServiceMatch esr.dport esr.data, details.affects (sg.services i) = true

theorem not_touched_self (sg : ServiceGroup) (i : Nat) : ¬ Touched sg sg i := by
  rintro (changed | ⟨finished, unfinished⟩)
  · exact changed rfl
  · exact unfinished finished

variable {p : Nat}

theorem queueOf_found {q : Nat} (on : sg.onPort p i = true) :
    sg.queueOf q [i] = if p = q then [(sg.services i).forget] else [] := by
  split
  · next same => exact queueOf_on (same ▸ on)
  · next other =>
      apply queueOf_off
      simp only [onPort, Bool.and_eq_true, decide_eq_true_eq] at on
      simp only [onPort, on.2, other, decide_false, Bool.and_false]

theorem queue_kept (nodup : sg.servicesRemaining.Nodup) (found : earlyService sg p = some i)
    (portno : svc.portno = (sg.services i).portno) (proto : svc.proto = (sg.services i).proto)
    (q : Nat) :
    (sg.put i svc).queue q = if p = q then svc.forget :: (sg.queue q).tail else sg.queue q := by
  obtain ⟨on, before, after, split, passed⟩ := earlyService_split found
  rw [split] at nodup
  have apart : ∀ j ∈ before ++ after, (sg.put i svc).services j = sg.services j := by
    intro j mem
    apply put_services_ne
    rintro rfl
    exact (nodup_cons.mp (nodup_middle.mp nodup)).1 mem
  have on' : (sg.put i svc).onPort p i = true := by
    rw [onPort, put_services_self, portno, proto]
    exact on
  have before' := queueOf_congr (p := q) fun j mem => apart j (mem_append_left _ mem)
  have after' := queueOf_congr (p := q) fun j mem => apart j (mem_append_right _ mem)
  rw [queue, queue, put_remaining, split, queueOf_append, queueOf_append,
    queueOf_cons sg q i after, queueOf_cons _ q i after, before', after', queueOf_found on,
    queueOf_found on', put_services_self]
  split_ifs with same
  · rw [← same, passed]
    rfl
  · rfl

/-- The head of the queue of this port is gone. -/
theorem queue_ended (nodup : sg.servicesRemaining.Nodup) (found : earlyService sg p = some i)
    (q : Nat) :
    (endedGroup .finishedHardmatched false i [] (sg.servicesRemaining.erase i)
        (sg.put i svc)).queue q =
      if p = q then (sg.queue q).tail else sg.queue q := by
  obtain ⟨on, before, after, split, passed⟩ := earlyService_split found
  rw [split] at nodup
  have fresh : i ∉ before ++ after := (nodup_cons.mp (nodup_middle.mp nodup)).1
  generalize ended : endedGroup .finishedHardmatched false i [] (sg.servicesRemaining.erase i)
    (sg.put i svc) = sg'
  have apart : ∀ j ∈ before ++ after, sg'.services j = sg.services j := by
    intro j mem
    have other : j ≠ i := by
      rintro rfl
      exact fresh mem
    rw [← ended, endedGroup]
    show ((sg.put i svc).put i _).services j = _
    rw [put_put, put_services_ne sg _ other]
  have left : sg'.servicesRemaining = before ++ after := by
    rw [← ended]
    show sg.servicesRemaining.erase i = _
    rw [split, erase_append_right _ fun mem => fresh (mem_append_left _ mem),
      erase_cons_head]
  rw [queue, queue, left, queueOf_congr apart, split, queueOf_append, queueOf_append,
    queueOf_cons sg q i after, queueOf_found on]
  split_ifs with same
  · rw [← same, passed]
    rfl
  · rfl

/-- The group after a response that has a match and finds a service -/
theorem earlyResponse_found {sg' : ServiceGroup} (building : Building cfg.ap sg)
    (isMatch : cfg.payloadServiceMatch esr.dport esr.data = some details)
    (found : earlyService sg esr.dport = some i) (response : earlyResponse cfg sg esr = .ok sg') :
    sg' =
      let credited := credit cfg details ((sg.services i).noting (.early details))
      if credited.1 then
        endedGroup .finishedHardmatched false i [] (sg.servicesRemaining.erase i)
          (sg.put i credited.2)
      else sg.put i credited.2 := by
  have remaining : i ∈ sg.servicesRemaining := mem_of_find?_eq_some found
  rw [earlyResponse_eq isMatch found] at response
  dsimp only at response ⊢
  split at response
  · next ends =>
      rw [if_pos ends]
      have remaining' : i ∈ (sg.put i (credit cfg details
        ((sg.services i).noting (.early details))).2).servicesRemaining := remaining
      have explicit := (endSvcprobe_eq (Or.inl remaining')).symm.trans response
      rw [put_inProgress, building.idle, if_neg not_mem_nil] at explicit
      exact (Except.ok.inj explicit).symm
  · next goesOn =>
      rw [if_neg goesOn]
      exact (Except.ok.inj response).symm

/-- An early response credits the head of the queue of its port. -/
theorem credited_found {sg' : ServiceGroup} (building : Building cfg.ap sg)
    (isMatch : cfg.payloadServiceMatch esr.dport esr.data = some details)
    (found : earlyService sg esr.dport = some i) (response : earlyResponse cfg sg esr = .ok sg') :
    Credited cfg esr sg sg' := by
  have remaining : i ∈ sg.servicesRemaining := mem_of_find?_eq_some found
  have unfinished := building.inv.notFinished (.inl remaining)
  have nodup : sg.servicesRemaining.Nodup :=
    (nodup_append.mp (nodup_append.mp building.inv.nodup).1).1
  have head := earlyService_head sg esr.dport
  rw [found, map_some] at head
  have front : sg.queue esr.dport = (sg.services i).forget :: (sg.queue esr.dport).tail :=
    eq_cons_of_mem_head? head.symm
  obtain ⟨-, portno, proto⟩ :=
    credit_frame cfg details ((sg.services i).noting (.early details))
  have erased := credit_forget cfg details ((sg.services i).noting (.early details))
  rw [forget_noting] at erased
  have others : ∀ j, j ≠ i → sg'.services j = sg.services j ∧
      (j ∈ sg'.servicesFinished ↔ j ∈ sg.servicesFinished) := by
    intro j other
    rw [earlyResponse_found building isMatch found response]
    dsimp only
    split_ifs
    · refine ⟨?_, ?_⟩
      · show ((sg.put i _).put i _).services j = _
        rw [put_put, put_services_ne sg _ other]
      · show j ∈ sg.servicesFinished ++ [i] ↔ _
        simp [other]
    · exact ⟨put_services_ne sg _ other, Iff.rfl⟩
  have self : Touched sg sg' i ↔ details.affects (sg.services i) = true := by
    rw [earlyResponse_found building isMatch found response]
    dsimp only
    cases affects : details.affects (sg.services i) with
    | true =>
      simp only [iff_true]
      have affects' : details.affects ((sg.services i).noting (.early details)) = true := affects
      rcases credit_affected cfg affects' with ends | changed
      · rw [if_pos ends]
        right
        refine ⟨?_, unfinished⟩
        exact mem_append_right _ mem_cons_self
      · split_ifs
        · right
          refine ⟨?_, unfinished⟩
          exact mem_append_right _ mem_cons_self
        · left
          rw [put_services_self]
          exact changed
    | false =>
      have leaves : details.affects ((sg.services i).noting (.early details)) = false := affects
      simp only [iff_false, Bool.false_eq_true]
      rw [credit_unaffected cfg leaves, if_neg Bool.false_ne_true]
      rintro (changed | ⟨finished, -⟩)
      · rw [put_services_self] at changed
        exact changed rfl
      · exact unfinished finished
  refine ⟨fun p => ?_, fun j => ?_⟩
  · unfold creditOn
    rw [isMatch, earlyResponse_found building isMatch found response]
    by_cases same : esr.dport = p
    · subst same
      rw [if_pos rfl, front]
      dsimp only
      rw [erased]
      dsimp only
      split_ifs
      · rw [queue_ended nodup found, if_pos rfl]
      · rw [queue_kept nodup found portno proto, if_pos rfl]
    · rw [if_neg same]
      dsimp only
      split_ifs
      · rw [queue_ended nodup found, if_neg same]
      · rw [queue_kept nodup found portno proto, if_neg same]
  · by_cases same : j = i
    · subst same
      rw [self, found, isMatch]
      simp
    · obtain ⟨kept, finished⟩ := others j same
      rw [Touched, kept, finished, found, Option.some.injEq]
      simp [Ne.symm same]

/-- What an early response does -/
theorem earlyResponse_credited (building : Building cfg.ap sg) (esr : EarlySvcResponse) :
    ∃ sg', earlyResponse cfg sg esr = .ok sg' ∧ Building cfg.ap sg' ∧ Credited cfg esr sg sg' := by
  obtain ⟨sg', response, done⟩ := earlyResponse_done building esr
  refine ⟨sg', response, done.building, ?_⟩
  have head := earlyService_head sg esr.dport
  cases isMatch : cfg.payloadServiceMatch esr.dport esr.data with
  | none =>
    have same : sg' = sg := by
      rw [earlyResponse, isMatch] at response
      exact (Except.ok.inj response).symm
    subst same
    refine ⟨fun p => ?_, fun i => ?_⟩
    · unfold creditOn
      rw [isMatch]
      exact (ite_self _).symm
    · simp [not_touched_self, isMatch]
  | some details =>
    cases found : earlyService sg esr.dport with
    | none =>
      have same : sg' = sg := by
        rw [earlyResponse, isMatch] at response
        simp only [found] at response
        exact (Except.ok.inj response).symm
      subst same
      refine ⟨fun p => ?_, fun i => ?_⟩
      · rw [found, map_none] at head
        unfold creditOn
        rw [isMatch]
        split_ifs with port
        · rw [← port, List.head?_eq_none_iff.mp head.symm]
        · rfl
      · simp [not_touched_self, found]
    | some i => exact credited_found building isMatch found response

/-! ## One target -/

theorem addService_queue (building : Building cfg.ap sg) (k : Nat) (port : Nat × Proto) (p : Nat) :
    (addService k sg port).queue p = sg.queue p ++
      if port.2 = .udp && port.1 = p then [{ target := k, portno := port.1, proto := port.2 }]
      else [] := by
  have old : ∀ i ∈ sg.servicesRemaining,
      (addService k sg port).services i = sg.services i :=
    fun i mem => Function.update_of_ne (Nat.ne_of_lt (building.inv.lt_created (.inl mem))) ..
  have new : (addService k sg port).services sg.created =
      { target := k, portno := port.1, proto := port.2 } := Function.update_self ..
  rw [queue, queue, show (addService k sg port).servicesRemaining =
    sg.servicesRemaining ++ [sg.created] from rfl, queueOf_append, queueOf_congr old]
  congr 1
  have on : (addService k sg port).onPort p sg.created = (port.2 = .udp && port.1 = p) := by
    rw [onPort, new]
  split_ifs with udp
  · rw [queueOf_on (on.trans udp), new]
    rfl
  · exact queueOf_off (on.trans (Bool.not_eq_true _ ▸ udp))

theorem addServices_queue (building : Building cfg.ap sg) (t : Target) (k p : Nat) :
    (addServices sg k t).queue p = sg.queue p ++ servicesOn p t k := by
  have fold : ∀ (ports : List (Nat × Proto)) (sg : ServiceGroup), Building cfg.ap sg →
      (ports.foldl (addService k) sg).queue p = sg.queue p ++
        (ports.filter fun port => port.2 = .udp && port.1 = p).map fun port =>
          { target := k, portno := port.1, proto := port.2 } := by
    intro ports
    induction ports with
    | nil => simp
    | cons port rest ih =>
      intro sg building
      rw [foldl_cons, ih _ (addService_building building k port),
        addService_queue building k port p, filter_cons]
      split_ifs <;> simp
  rw [servicesOn, ← fold _ sg building, foldl_append]
  rfl

/-- The service at the head of the queue, when a response with a match that affects it comes,
is one of the target `k`. -/
def OwnHeads (cfg : Config) (p k : Nat) : List EarlySvcResponse → List ServiceNFO → Prop
  | [], _ => True
  | esr :: rest, queue =>
    (esr.dport = p → ∀ details ∈ cfg.payloadServiceMatch esr.dport esr.data,
      ∀ svc ∈ queue.head?, details.affects svc = true → svc.target = k) ∧
    OwnHeads cfg p k rest (creditOn cfg p queue esr)

/-- The rounds of one target, read off the queues -/
theorem responseRounds_own (k : Nat) (responses : List EarlySvcResponse)
    (building : Building cfg.ap sg) :
    ∃ sg', responses.foldlM (earlyResponse cfg) sg = .ok sg' ∧ Building cfg.ap sg' ∧
      (∀ p, sg'.queue p = responses.foldl (creditOn cfg p) (sg.queue p)) ∧
      ((∀ round ∈ responseRounds cfg k responses sg, CreditsOwn round) ↔
        ∀ p, OwnHeads cfg p k responses (sg.queue p)) := by
  induction responses generalizing sg with
  | nil => exact ⟨sg, rfl, building, fun _ => rfl, by simp [responseRounds, OwnHeads]⟩
  | cons esr rest ih =>
    obtain ⟨sg1, response, building1, credited⟩ := earlyResponse_credited building esr
    obtain ⟨sg', responses, building', queues, own⟩ := ih building1
    refine ⟨sg', ?_, building', fun p => ?_, ?_⟩
    · rw [foldlM_cons, response]
      exact responses
    · rw [queues p, credited.queue p]
      rfl
    · have first : CreditsOwn (k, sg, sg1) ↔
          ∀ details ∈ cfg.payloadServiceMatch esr.dport esr.data,
            ∀ svc ∈ (sg.queue esr.dport).head?, details.affects svc = true → svc.target = k := by
        rw [← earlyService_head]
        constructor
        · intro own details isMatch svc head affects
          obtain ⟨i, found, rfl⟩ := map_eq_some_iff.mp head
          exact own i ((credited.touched i).mpr ⟨found, details, isMatch, affects⟩)
        · intro own i touched
          obtain ⟨found, details, isMatch, affects⟩ := (credited.touched i).mp touched
          have head : (sg.services i).forget ∈
              (earlyService sg esr.dport).map fun i => (sg.services i).forget :=
            map_eq_some_iff.mpr ⟨i, found, rfl⟩
          exact own details isMatch (sg.services i).forget head affects
      rw [responseRounds, response]
      simp only [forall_mem_cons, own, first, OwnHeads, credited.queue]
      constructor
      · rintro ⟨here, later⟩ p
        refine ⟨?_, later p⟩
        rintro rfl
        exact here
      · intro all
        exact ⟨(all esr.dport).1 rfl, fun p => (all p).2⟩

/-! ## All targets -/

variable {queue : List ServiceNFO}

theorem creditOn_targets :
    ∀ svc ∈ creditOn cfg p queue esr, svc.target ∈ queue.map (·.target) := by
  unfold creditOn
  split
  · split
    · next details svc rest _ =>
        have kept := (credit_frame cfg details svc).1
        dsimp only
        split
        · exact fun svc' mem => mem_map_of_mem (mem_cons_of_mem _ mem)
        · intro svc' mem
          rcases mem_cons.mp mem with rfl | mem
          · rw [kept]
            exact mem_cons_self
          · exact mem_map_of_mem (mem_cons_of_mem _ mem)
    · exact fun svc mem => mem_map_of_mem mem
  · exact fun svc mem => mem_map_of_mem mem

theorem foldl_creditOn_targets (responses : List EarlySvcResponse) :
    ∀ queue : List ServiceNFO, ∀ svc ∈ responses.foldl (creditOn cfg p) queue,
      svc.target ∈ queue.map (·.target) := by
  induction responses with
  | nil => exact fun queue svc mem => mem_map_of_mem mem
  | cons esr rest ih =>
    intro queue svc mem
    obtain ⟨svc', mem', same⟩ := mem_map.mp (ih _ svc mem)
    rw [← same]
    exact creditOn_targets svc' mem'

variable {k : Nat}

theorem ownHeads_of_own (responses : List EarlySvcResponse) :
    ∀ queue : List ServiceNFO, (∀ svc ∈ queue, svc.target = k) →
    OwnHeads cfg p k responses queue := by
  induction responses with
  | nil => exact fun _ _ => trivial
  | cons esr rest ih =>
    intro queue own
    refine ⟨fun _ _ _ svc head _ => own svc (mem_of_mem_head? head), ih _ fun svc mem => ?_⟩
    obtain ⟨svc', mem', same⟩ := mem_map.mp (creditOn_targets svc mem)
    rw [← same]
    exact own svc' mem'

theorem creditOn_leaves
    (leaves : esr.dport = p → ∀ details ∈ cfg.payloadServiceMatch esr.dport esr.data,
      details.affects svc = false) :
    creditOn cfg p (svc :: queue) esr = svc :: queue := by
  unfold creditOn
  split
  · next port =>
      cases isMatch : cfg.payloadServiceMatch esr.dport esr.data with
      | none => rfl
      | some details =>
        have unaffected := credit_unaffected cfg (leaves port details isMatch)
        simp only [unaffected]
        rfl
  · rfl

/-- Behind a service of another target nothing is credited. -/
theorem ownHeads_other (other : svc.target ≠ k) (responses : List EarlySvcResponse) :
    OwnHeads cfg p k responses (svc :: queue) ↔
      ∀ esr ∈ responses, esr.dport = p →
        ∀ details ∈ cfg.payloadServiceMatch esr.dport esr.data, details.affects svc = false := by
  induction responses with
  | nil => simp [OwnHeads]
  | cons esr rest ih =>
    rw [OwnHeads, forall_mem_cons]
    have first : (esr.dport = p → ∀ details ∈ cfg.payloadServiceMatch esr.dport esr.data,
        ∀ svc' ∈ (svc :: queue).head?, details.affects svc' = true → svc'.target = k) ↔
        (esr.dport = p → ∀ details ∈ cfg.payloadServiceMatch esr.dport esr.data,
          details.affects svc = false) := by
      constructor
      · intro own port details isMatch
        cases affects : details.affects svc with
        | false => rfl
        | true => exact absurd (own port details isMatch svc rfl affects) other
      · intro leaves port details isMatch svc' head affects
        cases head
        rw [leaves port details isMatch] at affects
        cases affects
    rw [first]
    constructor
    · rintro ⟨leaves, later⟩
      rw [creditOn_leaves leaves, ih] at later
      exact ⟨leaves, later⟩
    · rintro ⟨leaves, later⟩
      rw [creditOn_leaves leaves, ih]
      exact ⟨leaves, later⟩

theorem foldl_creditOn_leaves (responses : List EarlySvcResponse)
    (leaves : ∀ esr ∈ responses, esr.dport = p →
      ∀ details ∈ cfg.payloadServiceMatch esr.dport esr.data, details.affects svc = false) :
    responses.foldl (creditOn cfg p) (svc :: queue) = svc :: queue := by
  induction responses with
  | nil => rfl
  | cons esr rest ih =>
    rw [foldl_cons, creditOn_leaves (leaves esr mem_cons_self)]
    exact ih fun esr' mem => leaves esr' (mem_cons_of_mem _ mem)

variable (cfg) in
/-- The same with a queue that earlier targets have left -/
def UndisturbedFrom (p : Nat) (entries : List (Target × Nat)) : List ServiceNFO → Prop
  | [] => Undisturbed cfg p entries
  | svc :: _ => ∀ entry ∈ entries, entry.1.timedOut = false → Leaves cfg p svc entry.1

/-- One more target -/
theorem undisturbedFrom_cons {t : Target} (live : t.timedOut = false)
    (other : k ∉ queue.map (·.target)) (rest : List (Target × Nat)) :
    UndisturbedFrom cfg p ((t, k) :: rest) queue ↔
      OwnHeads cfg p k t.earlySvcResponses (queue ++ servicesOn p t k) ∧
        UndisturbedFrom cfg p rest
          (t.earlySvcResponses.foldl (creditOn cfg p) (queue ++ servicesOn p t k)) := by
  cases queue with
  | nil =>
    have own : OwnHeads cfg p k t.earlySvcResponses (servicesOn p t k) := by
      apply ownHeads_of_own
      intro svc mem
      obtain ⟨port, -, rfl⟩ := mem_map.mp mem
      rfl
    rw [nil_append, UndisturbedFrom, Undisturbed, live, if_neg Bool.false_ne_true,
      and_iff_right own]
    show _ ↔ UndisturbedFrom cfg p rest (leftOn cfg p t k)
    cases leftOn cfg p t k with
    | nil => rfl
    | cons svc queue => rfl
  | cons svc queue =>
    have other' : svc.target ≠ k := by
      rintro rfl
      exact other mem_cons_self
    rw [cons_append, ownHeads_other other', UndisturbedFrom, forall_mem_cons,
      forall_prop_of_true live]
    show (∀ esr ∈ _, _) ∧ _ ↔ _
    apply and_congr_right
    intro leaves
    rw [foldl_creditOn_leaves _ leaves]
    rfl

/-- The rounds of all targets, read off the queues -/
theorem rounds_own (entries : List (Target × Nat)) (building : Building cfg.ap sg)
    (nodup : (entries.map (·.2)).Nodup)
    (others : ∀ p, ∀ k ∈ entries.map (·.2), k ∉ (sg.queue p).map (·.target)) :
    (∀ round ∈ rounds cfg entries sg, CreditsOwn round) ↔
      ∀ p, UndisturbedFrom cfg p entries (sg.queue p) := by
  induction entries generalizing sg with
  | nil =>
    simp only [rounds, not_mem_nil, false_imp_iff, implies_true, true_iff]
    intro p
    cases sg.queue p with
    | nil => trivial
    | cons svc queue => exact forall_mem_nil _
  | cons entry rest ih =>
    obtain ⟨t, k⟩ := entry
    rw [map_cons, nodup_cons] at nodup
    cases live : t.timedOut with
    | true =>
      have same : addTarget cfg sg (t, k) = .ok sg := by
        rw [addTarget, live]
        rfl
      have skip : ∀ p, UndisturbedFrom cfg p ((t, k) :: rest) (sg.queue p) ↔
          UndisturbedFrom cfg p rest (sg.queue p) := by
        intro p
        cases sg.queue p with
        | nil => rw [UndisturbedFrom, Undisturbed, live, if_pos rfl]; rfl
        | cons svc queue =>
          rw [UndisturbedFrom, forall_mem_cons]
          simp [live, UndisturbedFrom]
      rw [rounds, live, if_pos rfl, nil_append, same]
      simp only [skip]
      exact ih building nodup.2 fun p k' mem => others p k' (mem_cons_of_mem _ mem)
    | false =>
      have added := (addServices_building building k t).1
      have placed := fun p => addServices_queue building t k p
      obtain ⟨sg', responses, building', queues, own⟩ :=
        responseRounds_own k t.earlySvcResponses added
      have eq : addTarget cfg sg (t, k) = .ok sg' := by
        rw [addTarget, live]
        exact responses
      have others' : ∀ p, ∀ k' ∈ rest.map (·.2), k' ∉ (sg'.queue p).map (·.target) := by
        intro p k' mem left
        obtain ⟨svc, mem', rfl⟩ := mem_map.mp left
        rw [queues p, placed p] at mem'
        have from' := foldl_creditOn_targets _ _ svc mem'
        rw [map_append, mem_append] at from'
        rcases from' with old | new
        · exact others p _ (mem_cons_of_mem _ mem) old
        · obtain ⟨svc', new', same⟩ := mem_map.mp new
          obtain ⟨port, -, rfl⟩ := mem_map.mp new'
          rw [← same] at mem
          exact nodup.1 mem
      rw [rounds, live, if_neg Bool.false_ne_true, eq, forall_mem_append, own,
        ih building' nodup.2 others', ← forall_and]
      apply forall_congr'
      intro p
      rw [undisturbedFrom_cons live (others p k mem_cons_self), queues p, placed p]

end

/-- **Early responses are credited to their own targets exactly where no earlier target has left
a service of their port that they would change.** -/
theorem creditsSender_iff (cfg : Config) (targets : List Target) :
    CreditsSender cfg targets ↔ ∀ p, Undisturbed cfg p targets.zipIdx := by
  have nodup : (targets.zipIdx.map (·.2)).Nodup := by
    rw [zipIdx_map_snd]
    exact nodup_range'
  exact rounds_own targets.zipIdx (emptyGroup_building cfg) nodup fun p k _ none => nomatch none

/-- Two hosts with SNMP, the second of which has answered -/
def secondAnswers : List Target :=
  [⟨false, [(161, .udp)], [], []⟩, ⟨false, [(161, .udp)], [], [⟨161, [48, 38]⟩]⟩]

/-- The answer of the second host ends the service of the first one, whose version it becomes.
The second one's own service is left to be scanned. -/
theorem early_response_misses :
    ∃ sg, newServiceGroup snmpConfig secondAnswers = .ok sg ∧ sg.servicesFinished = [0] ∧
      (sg.services 0).target = 0 ∧ (sg.services 0).probeMatched = some ['s', 'n', 'm', 'p'] ∧
      (sg.services 1).target = 1 ∧ (sg.services 1).probeMatched = none ∧
      ¬ CreditsSender snmpConfig secondAnswers := by
  refine ⟨_, rfl, rfl, rfl, rfl, rfl, rfl, ?_⟩
  intro credits
  have own := credits _ mem_cons_self 0 (.inr ⟨mem_cons_self, not_mem_nil⟩)
  cases own

end Nmap.Service
