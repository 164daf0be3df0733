import Mathlib.Data.List.Perm.Basic
import Nmap.Service.Scan

/-!
# The invariant of the service scan

Between two steps each service is in one of the three lists and looks as its list says: not
started, probing on a live iod, or done with nothing pending. While a callback works on one
service that service is exempt (`Inv (some i)`), and the callback gives it back in its new
place.

Each function of the scan gets one lemma that says so; `inv_reachable` puts them together
over runs.
-/

namespace Nmap.Service

open List

/-! ## The record of a service -/

/-- The error codes after which the read handler gives up on the port -/
def Errno.givesUp : Errno → Bool
  | .ehostdown | .enonet | .enetunreach | .ehostunreach | .enetdown | .other => true
  | _ => false

/-- Events that rule out a TCP wrapper: a match, a read that returned data or timed out, and
reads on which the service is given up -/
def SvcEvent.clears : SvcEvent → Bool
  | .early details => details.serviceName.isSome
  | .read status errno timedOut =>
    timedOut || status = .success || status = .timeout || status = .kill ||
      (status = .error && errno.givesUp)
  | _ => false

/-- Events that end a service, whatever it has answered before: its host timed out before its
start, its connect or write failed, or there is no probe left for it -/
def SvcEvent.ends : SvcEvent → Bool
  | .hostTimeout | .exhausted => true
  | .connect status timedOut | .write status timedOut => timedOut || status ≠ .success
  | _ => false

def SvcEvent.establishes : SvcEvent → Bool
  | .connect .success _ => true
  | _ => false

namespace ServiceNFO

def cleared (svc : ServiceNFO) : Bool := svc.history.any SvcEvent.clears

def ended (svc : ServiceNFO) : Bool := svc.history.any SvcEvent.ends

def established (svc : ServiceNFO) : Bool := svc.history.any SvcEvent.establishes

/-- The flag is what the record says. -/
structure LogOk (svc : ServiceNFO) : Prop where
  flag : svc.tcpwrapPossible = !svc.cleared
  resp : svc.currentresp ≠ [] → svc.tcpwrapPossible = false
  matched : svc.probeMatched ≠ none → svc.tcpwrapPossible = false

/-- A service of `services_remaining` -/
structure Waiting (svc : ServiceNFO) : Prop where
  state : svc.probeState = .initial
  niod : svc.niod = none
  log : svc.LogOk
  notEnded : svc.ended = false

/-- A service that is being probed, on the iod `iod` -/
structure ProbingOn (ap : AllProbes) (iod : Iod) (svc : ServiceNFO) : Prop where
  niod : svc.niod = some iod
  selected : ∃ probe, svc.selected ap = some probe
  single : iod.connects + iod.reads ≤ 1
  connecting : iod.connects ≠ 0 → iod.writes = 0
  -- the NULL probe sends nothing
  writing : iod.writes ≠ 0 → svc.probeState ≠ .nullProbe
  connected : iod.connects = 0 → svc.established = true
  nullTcp : svc.probeState = .nullProbe → svc.proto = .tcp
  log : svc.LogOk
  notEnded : svc.ended = false

/-- A service of `services_in_progress` -/
def Probing (ap : AllProbes) (svc : ServiceNFO) : Prop := ∃ iod, svc.ProbingOn ap iod

/-- A connected service for which no read is pending -/
def Reading (ap : AllProbes) (svc : ServiceNFO) : Prop := ∃ writes, svc.ProbingOn ap ⟨0, writes, 0⟩

/-- A service of `services_finished` -/
structure Done (svc : ServiceNFO) : Prop where
  idle : ∀ iod ∈ svc.niod, iod = Iod.idle
  log : svc.LogOk
  wrapped : svc.probeState = .finishedTcpwrapped →
    svc.tcpwrapPossible = true ∧
      (svc.ended = true ∨ svc.proto = .tcp ∧ svc.established = true)
  endedWrapped : svc.ended = true → svc.tcpwrapPossible = true →
    svc.probeState = .finishedTcpwrapped

end ServiceNFO

/-! ## The group -/

open ServiceNFO ServiceGroup

/-- The invariant, with the service `held` exempt from what its list says -/
structure Inv (ap : AllProbes) (held : Option Nat) (sg : ServiceGroup) : Prop where
  perm : (sg.servicesRemaining ++ sg.servicesInProgress ++ sg.servicesFinished).Perm
    (List.range sg.created)
  bound : sg.servicesInProgress.length ≤ sg.idealParallelism
  waiting : ∀ i ∈ sg.servicesRemaining, some i ≠ held → (sg.services i).Waiting
  probing : ∀ i ∈ sg.servicesInProgress, some i ≠ held → (sg.services i).Probing ap
  done : ∀ i ∈ sg.servicesFinished, (sg.services i).Done
  heldOpen : ∀ i, held = some i → i ∈ sg.servicesRemaining ∨ i ∈ sg.servicesInProgress
  unborn : ∀ i, sg.created ≤ i → (sg.services i).niod = none

/-- What no callback changes -/
structure Keeps (sg sg' : ServiceGroup) : Prop where
  created : sg'.created = sg.created
  total : sg'.totalServices = sg.totalServices
  ideal : sg'.idealParallelism = sg.idealParallelism
  busy : sg'.busy = sg.busy
  remaining : sg'.servicesRemaining.length ≤ sg.servicesRemaining.length
  finished : ∀ i ∈ sg.servicesFinished,
    i ∈ sg'.servicesFinished ∧ sg'.services i = sg.services i

theorem Keeps.refl (sg : ServiceGroup) : Keeps sg sg :=
  ⟨rfl, rfl, rfl, rfl, Nat.le_refl _, fun _ mem => ⟨mem, rfl⟩⟩

variable {sg : ServiceGroup}

theorem Keeps.trans {sg' sg'' : ServiceGroup} (first : Keeps sg sg') (second : Keeps sg' sg'') :
    Keeps sg sg'' where
  created := second.created.trans first.created
  total := second.total.trans first.total
  ideal := second.ideal.trans first.ideal
  busy := second.busy.trans first.busy
  remaining := Nat.le_trans second.remaining first.remaining
  finished := by
    intro i mem
    obtain ⟨mem', eq'⟩ := first.finished i mem
    obtain ⟨mem'', eq''⟩ := second.finished i mem'
    exact ⟨mem'', eq''.trans eq'⟩

/-- The callback has ended the service `i`. -/
structure Over (ap : AllProbes) (i : Nat) (sg sg' : ServiceGroup) : Prop where
  inv : Inv ap none sg'
  keeps : Keeps sg sg'
  finished : i ∈ sg'.servicesFinished
  state : (sg'.services i).probeState.unfinished = false
  fewer : i ∈ sg.servicesRemaining → sg'.servicesRemaining.length < sg.servicesRemaining.length

/-- The only way a callback halts is on a status that nsock does not deliver for its type. -/
abbrev Fine (post : ServiceGroup → Prop) (result : Except Halt ServiceGroup) : Prop :=
  Meets (· = Halt.unexpectedStatus) post result

namespace ServiceGroup

@[simp] theorem put_inProgress (sg : ServiceGroup) (i : Nat) (svc : ServiceNFO) :
    (sg.put i svc).servicesInProgress = sg.servicesInProgress := rfl

@[simp] theorem put_remaining (sg : ServiceGroup) (i : Nat) (svc : ServiceNFO) :
    (sg.put i svc).servicesRemaining = sg.servicesRemaining := rfl

@[simp] theorem put_services_self (sg : ServiceGroup) (i : Nat) (svc : ServiceNFO) :
    (sg.put i svc).services i = svc := Function.update_self ..

theorem put_services_ne (sg : ServiceGroup) {i j : Nat} (svc : ServiceNFO) (ne : j ≠ i) :
    (sg.put i svc).services j = sg.services j := Function.update_of_ne ne ..

@[simp] theorem put_put (sg : ServiceGroup) (i : Nat) (svc svc' : ServiceNFO) :
    (sg.put i svc).put i svc' = sg.put i svc' := by
  simp [put]

@[simp] theorem put_services (sg : ServiceGroup) (i : Nat) : sg.put i (sg.services i) = sg := by
  simp [put]

theorem modify_eq (sg : ServiceGroup) (i : Nat) (f : ServiceNFO → ServiceNFO) :
    sg.modify i f = sg.put i (f (sg.services i)) := rfl

theorem record_eq (sg : ServiceGroup) (i : Nat) (event : SvcEvent) :
    sg.record i event =
      sg.put i { sg.services i with history := event :: (sg.services i).history } := rfl

end ServiceGroup

namespace Inv

variable {ap : AllProbes} {sg : ServiceGroup} {i : Nat} {svc : ServiceNFO}

variable {held : Option Nat}

theorem nodup (inv : Inv ap held sg) :
    (sg.servicesRemaining ++ sg.servicesInProgress ++ sg.servicesFinished).Nodup :=
  inv.perm.nodup_iff.mpr nodup_range

theorem notFinished (inv : Inv ap held sg)
    (unfinished : i ∈ sg.servicesRemaining ∨ i ∈ sg.servicesInProgress) :
    i ∉ sg.servicesFinished := by
  have apart := (nodup_append.mp inv.nodup).2.2
  intro finished
  exact apart i (mem_append.mpr unfinished) i finished rfl

theorem notRemaining (inv : Inv ap held sg) (inProgress : i ∈ sg.servicesInProgress) :
    i ∉ sg.servicesRemaining := by
  have apart := (nodup_append.mp (nodup_append.mp inv.nodup).1).2.2
  intro remaining
  exact apart i remaining i inProgress rfl

theorem held_notFinished (inv : Inv ap (some i) sg) : i ∉ sg.servicesFinished :=
  inv.notFinished (inv.heldOpen i rfl)

theorem lt_created (inv : Inv ap held sg)
    (unfinished : i ∈ sg.servicesRemaining ∨ i ∈ sg.servicesInProgress) : i < sg.created := by
  have mem : i ∈ sg.servicesRemaining ++ sg.servicesInProgress ++ sg.servicesFinished :=
    mem_append_left _ (mem_append.mpr unfinished)
  exact mem_range.mp (inv.perm.subset mem)

theorem hold (inv : Inv ap none sg)
    (unfinished : i ∈ sg.servicesRemaining ∨ i ∈ sg.servicesInProgress) : Inv ap (some i) sg where
  perm := inv.perm
  bound := inv.bound
  waiting := fun j mem _ => inv.waiting j mem (by simp)
  probing := fun j mem _ => inv.probing j mem (by simp)
  done := inv.done
  heldOpen := by
    intro j eq
    rw [← Option.some.inj eq]
    exact unfinished
  unborn := inv.unborn

/-- The service that a callback works on may take any value. -/
theorem put (inv : Inv ap (some i) sg) (svc : ServiceNFO) : Inv ap (some i) (sg.put i svc) where
  perm := inv.perm
  bound := inv.bound
  waiting := by
    intro j mem ne
    rw [put_services_ne sg svc fun eq => ne (by rw [eq])]
    exact inv.waiting j mem ne
  probing := by
    intro j mem ne
    rw [put_services_ne sg svc fun eq => ne (by rw [eq])]
    exact inv.probing j mem ne
  done := by
    intro j mem
    have ne : j ≠ i := by
      rintro rfl
      exact inv.held_notFinished mem
    rw [put_services_ne sg svc ne]
    exact inv.done j mem
  heldOpen := inv.heldOpen
  unborn := by
    intro j unborn
    have ne : j ≠ i := by
      rintro rfl
      exact absurd (inv.lt_created (inv.heldOpen j rfl)) (Nat.not_lt.mpr unborn)
    rw [put_services_ne sg svc ne]
    exact inv.unborn j unborn

theorem releaseProbing (inv : Inv ap (some i) sg) (inProgress : i ∈ sg.servicesInProgress)
    (probing : (sg.services i).Probing ap) : Inv ap none sg where
  perm := inv.perm
  bound := inv.bound
  waiting := by
    intro j mem _
    refine inv.waiting j mem fun eq => ?_
    rw [Option.some.inj eq] at mem
    exact inv.notRemaining inProgress mem
  probing := by
    intro j mem _
    by_cases eq : j = i
    · rwa [eq]
    · exact inv.probing j mem (by simpa using eq)
  done := inv.done
  heldOpen := by simp
  unborn := inv.unborn

theorem releaseWaiting (inv : Inv ap (some i) sg) (remaining : i ∈ sg.servicesRemaining)
    (waiting : (sg.services i).Waiting) : Inv ap none sg where
  perm := inv.perm
  bound := inv.bound
  waiting := by
    intro j mem _
    by_cases eq : j = i
    · rwa [eq]
    · exact inv.waiting j mem (by simpa using eq)
  probing := by
    intro j mem _
    refine inv.probing j mem fun eq => ?_
    rw [Option.some.inj eq] at mem
    exact inv.notRemaining mem remaining
  done := inv.done
  heldOpen := by simp
  unborn := inv.unborn

theorem keeps_put (inv : Inv ap (some i) sg) (svc : ServiceNFO) : Keeps sg (sg.put i svc) where
  created := rfl
  total := rfl
  ideal := rfl
  busy := rfl
  remaining := Nat.le_refl _
  finished := by
    intro j mem
    refine ⟨mem, put_services_ne sg svc ?_⟩
    rintro rfl
    exact inv.held_notFinished mem

end Inv

variable {ap : AllProbes} {i : Nat} {svc : ServiceNFO}

theorem Over.of_put {sg' : ServiceGroup} (inv : Inv ap (some i) sg)
    (ended : Over ap i (sg.put i svc) sg') : Over ap i sg sg' where
  inv := ended.inv
  keeps := (inv.keeps_put svc).trans ended.keeps
  finished := ended.finished
  state := ended.state
  fewer := ended.fewer

/-! ## Ending a service -/

/-- What a caller of `end_svcprobe` has to see to -/
structure Ending (state : ProbeState) (nsi : Bool) (svc : ServiceNFO) : Prop where
  final : state.unfinished = false
  wrapped : state = .finishedTcpwrapped → svc.tcpwrapPossible = true
  idle : nsi = false → ∀ iod ∈ svc.niod, iod = Iod.idle
  log : svc.LogOk
  earned : svc.tcpwrapPossible = true →
    svc.ended = true ∨ svc.proto = .tcp ∧ svc.established = true

/-- The service after `end_svcprobe` -/
def endedService (state : ProbeState) (nsi : Bool) (svc : ServiceNFO) : ServiceNFO :=
  { svc with
    probeState := if svc.tcpwrapPossible then .finishedTcpwrapped else state
    niod := if nsi then none else svc.niod }

variable {state : ProbeState} {nsi : Bool}

theorem Ending.done (ending : Ending state nsi svc) : (endedService state nsi svc).Done where
  idle := by
    intro iod mem
    cases nsi with
    | true => simp [endedService] at mem
    | false => exact ending.idle rfl iod mem
  log := ⟨ending.log.flag, ending.log.resp, ending.log.matched⟩
  wrapped := by
    intro wrapped
    have possible : svc.tcpwrapPossible = true := by
      by_contra impossible
      simp only [endedService, impossible, if_false] at wrapped
      exact impossible (ending.wrapped wrapped)
    exact ⟨possible, ending.earned possible⟩
  endedWrapped := by
    intro _ possible
    have possible' : svc.tcpwrapPossible = true := possible
    simp [endedService, possible']

theorem endedService_state (final : state.unfinished = false) :
    (endedService state nsi svc).probeState.unfinished = false := by
  unfold endedService
  dsimp only
  split
  · rfl
  · exact final

/-- The group after `end_svcprobe`, where the service has left the lists `inProgress` and
`remaining` -/
def endedGroup (state : ProbeState) (nsi : Bool) (i : Nat) (inProgress remaining : List Nat)
    (sg : ServiceGroup) : ServiceGroup :=
  { sg.put i (endedService state nsi (sg.services i)) with
    servicesInProgress := inProgress
    servicesRemaining := remaining
    servicesFinished := sg.servicesFinished ++ [i] }

/-- Both branches of `end_svcprobe` in one form -/
theorem endSvcprobe_eq (unfinished : i ∈ sg.servicesRemaining ∨ i ∈ sg.servicesInProgress) :
    endSvcprobe state nsi i sg = .ok
      (if i ∈ sg.servicesInProgress then
        endedGroup state nsi i (sg.servicesInProgress.erase i) sg.servicesRemaining sg
      else endedGroup state nsi i sg.servicesInProgress (sg.servicesRemaining.erase i) sg) := by
  by_cases inProgress : i ∈ sg.servicesInProgress
  · unfold endSvcprobe eraseUnfinished
    cases nsi <;>
      simp [inProgress, modify_eq, endedGroup, endedService, ServiceGroup.put, bind, Except.bind]
  · have remaining : i ∈ sg.servicesRemaining := unfinished.resolve_right inProgress
    unfold endSvcprobe eraseUnfinished
    cases nsi <;>
      simp [inProgress, remaining, modify_eq, endedGroup, endedService, ServiceGroup.put, bind,
        Except.bind]

/-- Moving a service from the unfinished lists to the end of the finished one -/
theorem endedGroup_over {inProgress remaining : List Nat} (inv : Inv ap (some i) sg)
    (ending : Ending state nsi (sg.services i))
    (moved : (sg.servicesRemaining ++ sg.servicesInProgress).Perm
      (i :: (remaining ++ inProgress)))
    (subProgress : inProgress.Sublist sg.servicesInProgress)
    (subRemaining : remaining.Sublist sg.servicesRemaining)
    (fewer : i ∈ sg.servicesRemaining → remaining.length < sg.servicesRemaining.length) :
    Over ap i sg (endedGroup state nsi i inProgress remaining sg) := by
  have notMem : i ∉ remaining ++ inProgress := by
    have nodup := moved.nodup_iff.mp (nodup_append.mp inv.nodup).1
    exact (nodup_cons.mp nodup).1
  have apart : ∀ j, j ≠ i → (endedGroup state nsi i inProgress remaining sg).services j =
      sg.services j := fun j ne => put_services_ne sg _ ne
  refine ⟨⟨?perm, ?bound, ?waiting, ?probing, ?done, by simp, (inv.put _).unborn⟩, ?keeps,
    ?finished, ?state, fewer⟩
  case perm =>
    refine Perm.trans ?_ inv.perm
    show (remaining ++ inProgress ++ (sg.servicesFinished ++ [i])).Perm _
    refine Perm.trans ?_ (moved.symm.append_right sg.servicesFinished)
    rw [← append_assoc]
    exact perm_append_singleton i _
  case bound => exact Nat.le_trans subProgress.length_le inv.bound
  case waiting =>
    intro j mem _
    have ne : j ≠ i := by
      rintro rfl
      exact notMem (mem_append_left _ mem)
    rw [apart j ne]
    exact inv.waiting j (subRemaining.subset mem) (by simpa using ne)
  case probing =>
    intro j mem _
    have ne : j ≠ i := by
      rintro rfl
      exact notMem (mem_append_right _ mem)
    rw [apart j ne]
    exact inv.probing j (subProgress.subset mem) (by simpa using ne)
  case done =>
    intro j mem
    by_cases eq : j = i
    · subst eq
      show ((sg.put j (endedService state nsi (sg.services j))).services j).Done
      rw [put_services_self]
      exact ending.done
    · rw [apart j eq]
      rcases mem_append.mp mem with old | new
      · exact inv.done j old
      · exact absurd (mem_singleton.mp new) eq
  case keeps =>
    refine ⟨rfl, rfl, rfl, rfl, subRemaining.length_le, ?_⟩
    intro j mem
    refine ⟨mem_append_left _ mem, apart j ?_⟩
    rintro rfl
    exact inv.held_notFinished mem
  case finished => exact mem_append_right _ mem_cons_self
  case state =>
    show ((sg.put i (endedService state nsi (sg.services i))).services i).probeState.unfinished = _
    rw [put_services_self]
    exact endedService_state ending.final

/-- `end_svcprobe` finds the service and moves it to the finished ones. -/
theorem endSvcprobe_over (inv : Inv ap (some i) sg) (ending : Ending state nsi (sg.services i)) :
    ∃ sg', endSvcprobe state nsi i sg = .ok sg' ∧ Over ap i sg sg' ∧
      sg'.servicesInProgress.Sublist sg.servicesInProgress := by
  refine ⟨_, endSvcprobe_eq (inv.heldOpen i rfl), ?_⟩
  split
  · next inProgress =>
      have sub : (sg.servicesInProgress.erase i).Sublist sg.servicesInProgress :=
        erase_sublist
      refine ⟨endedGroup_over inv ending ?_ sub (Sublist.refl _) ?_, sub⟩
      · exact ((perm_cons_erase inProgress).append_left _).trans perm_middle
      · exact fun remaining => absurd remaining (inv.notRemaining inProgress)
  · next notInProgress =>
      have remaining := (inv.heldOpen i rfl).resolve_right notInProgress
      refine ⟨endedGroup_over inv ending ?_ (Sublist.refl _) erase_sublist ?_,
        Sublist.refl _⟩
      · exact (perm_cons_erase remaining).append_right _
      · intro _
        rw [length_erase_of_mem remaining]
        exact Nat.sub_lt (length_pos_of_mem remaining) Nat.one_pos

/-! ## Recording -/

namespace ServiceNFO

/-- The service with one more event in its record -/
abbrev noting (event : SvcEvent) (svc : ServiceNFO) : ServiceNFO :=
  { svc with history := event :: svc.history }

@[simp] theorem noting_cleared (event : SvcEvent) (svc : ServiceNFO) :
    (svc.noting event).cleared = (event.clears || svc.cleared) := by
  simp [cleared]

@[simp] theorem noting_ended (event : SvcEvent) (svc : ServiceNFO) :
    (svc.noting event).ended = (event.ends || svc.ended) := by
  simp [ended]

@[simp] theorem noting_established (event : SvcEvent) (svc : ServiceNFO) :
    (svc.noting event).established = (event.establishes || svc.established) := by
  simp [established]

variable {svc : ServiceNFO} {event : SvcEvent}

theorem LogOk.noting (log : svc.LogOk) (clears : event.clears = false) :
    (svc.noting event).LogOk where
  flag := by
    rw [noting_cleared, clears]
    exact log.flag
  resp := log.resp
  matched := log.matched

theorem LogOk.clear (clears : event.clears = true) :
    ({ svc.noting event with tcpwrapPossible := false } : ServiceNFO).LogOk where
  flag := by
    show false = !(svc.noting event).cleared
    rw [noting_cleared, clears]
    rfl
  resp := fun _ => rfl
  matched := fun _ => rfl

end ServiceNFO

/-- Callers of `end_svcprobe` that abort the service because of the event just recorded -/
theorem Ending.aborted {event : SvcEvent} (final : state.unfinished = false)
    (notWrapped : state ≠ .finishedTcpwrapped)
    (idle : nsi = false → ∀ iod ∈ svc.niod, iod = Iod.idle) (log : svc.LogOk)
    (ends : event.ends = true) (clears : event.clears = false) :
    Ending state nsi (svc.noting event) where
  final := final
  wrapped := fun wrapped => absurd wrapped notWrapped
  idle := idle
  log := log.noting clears
  earned := by
    intro _
    left
    rw [noting_ended, ends, Bool.true_or]

/-- Callers of `end_svcprobe` that know that there is no TCP wrapper -/
theorem Ending.cleared (final : state.unfinished = false) (notWrapped : state ≠ .finishedTcpwrapped)
    (idle : nsi = false → ∀ iod ∈ svc.niod, iod = Iod.idle) (log : svc.LogOk)
    (impossible : svc.tcpwrapPossible = false) : Ending state nsi svc where
  final := final
  wrapped := fun wrapped => absurd wrapped notWrapped
  idle := idle
  log := log
  earned := by
    intro possible
    rw [impossible] at possible
    cases possible

/-! ## Launching -/

/-- `launch` keeps the invariant where fewer than `rounds` services remain. -/
def LaunchOk (ap : AllProbes) (rounds : Nat) (launch : Callback) : Prop :=
  ∀ sg, Inv ap none sg → sg.servicesRemaining.length < rounds →
    Fine (fun sg' => Inv ap none sg' ∧ Keeps sg sg') (launch sg)

section

variable {ap : AllProbes} {i : Nat} {sg sg' sg'' : ServiceGroup} {rounds : Nat} {launch : Callback}

theorem Over.launched (ended : Over ap i sg sg') (inv : Inv ap none sg'') (keeps : Keeps sg' sg'') :
    Over ap i sg sg'' where
  inv := inv
  keeps := ended.keeps.trans keeps
  finished := (keeps.finished i ended.finished).1
  state := by
    rw [(keeps.finished i ended.finished).2]
    exact ended.state
  fewer := fun remaining => Nat.lt_of_le_of_lt keeps.remaining (ended.fewer remaining)

/-- There are rounds left to launch other services once the service `i` has ended. -/
def Room (rounds i : Nat) (sg : ServiceGroup) : Prop :=
  sg.servicesRemaining.length < rounds ∨
    i ∈ sg.servicesRemaining ∧ sg.servicesRemaining.length ≤ rounds

theorem Over.room (ended : Over ap i sg sg') (room : Room rounds i sg) :
    sg'.servicesRemaining.length < rounds := by
  rcases room with room | ⟨remaining, room⟩
  · exact Nat.lt_of_le_of_lt ended.keeps.remaining room
  · exact Nat.lt_of_lt_of_le (ended.fewer remaining) room

variable {nsi : Bool}

theorem endAndLaunch_over {state : ProbeState} (inv : Inv ap (some i) sg)
    (ending : Ending state nsi (sg.services i)) (ok : LaunchOk ap rounds launch)
    (room : Room rounds i sg) :
    Fine (Over ap i sg) (endSvcprobe state nsi i sg >>= launch) := by
  obtain ⟨sg', eq, ended, -⟩ := endSvcprobe_over inv ending
  rw [eq]
  exact (ok sg' ended.inv (ended.room room)).mono fun sg'' launched =>
    ended.launched launched.1 launched.2

theorem abandonConnect_over {event : ConnectEvent} (inv : Inv ap (some i) sg)
    (log : (sg.services i).LogOk) (failed : event.timedOut = true ∨ event.status ≠ .success)
    (ok : LaunchOk ap rounds launch) (room : Room rounds i sg) :
    Fine (Over ap i sg) (abandonConnect launch event i sg) := by
  have ends : (SvcEvent.connect event.status event.timedOut).ends = true := by
    simpa [SvcEvent.ends] using failed
  have ending : Ending .incomplete true
      ((sg.record i (.connect event.status event.timedOut)).services i) := by
    rw [record_eq, put_services_self]
    exact .aborted rfl (by simp) (by simp) log ends rfl
  have inv' := inv.put ((sg.services i).noting (.connect event.status event.timedOut))
  have finish := (endAndLaunch_over inv' ending ok room).mono fun _ => Over.of_put inv
  unfold abandonConnect
  dsimp only
  split
  · exact finish
  · split
    · exact finish
    · exact finish
    · exact finish
    · obtain ⟨sg', eq, ended, -⟩ := endSvcprobe_over inv' ending
      rw [record_eq, eq]
      exact Over.of_put inv ended
    · rfl

/-- The service just before its connection is opened -/
structure Startable (ap : AllProbes) (nsi : Bool) (svc : ServiceNFO) : Prop where
  state : svc.probeState = .initial ∨ ∃ probe, svc.selected ap = some probe
  niod : nsi = false → svc.niod = none
  log : svc.LogOk
  notEnded : svc.ended = false

variable {svc : ServiceNFO}

theorem ServiceNFO.Waiting.startable (waiting : svc.Waiting) :
    Startable ap false svc :=
  ⟨.inl waiting.state, fun _ => waiting.niod, waiting.log, waiting.notEnded⟩

/-- Both ways in which `startNextProbe` comes to the probe for a new connection -/
theorem nextConnection_spec {cfg : Config} (startable : Startable cfg.ap nsi svc) :
    ∃ result svc', nextConnection cfg nsi svc = .ok (result, svc') ∧
      ServiceNFO.Walk cfg.ap true { svc with niod := none } result svc' := by
  have dropped : ∀ svc' : ServiceNFO, (nsi = false → svc'.niod = none) →
      (if nsi then { svc' with niod := none } else svc') = { svc' with niod := none } := by
    intro svc' deleted
    cases nsi with
    | true => rfl
    | false =>
      have := deleted rfl
      cases svc'
      simp_all
  unfold nextConnection
  by_cases initial : svc.probeState = .initial
  · have unfinished : svc.probeState.unfinished = true := by
      rw [initial]
      rfl
    obtain ⟨result, svc', eq, walk⟩ :=
      nextProbe_spec cfg.ap cfg.versionIntensity true svc unfinished
    have deleted : nsi = false → svc'.niod = none := by
      intro none
      rw [walk.frame]
      exact startable.niod none
    refine ⟨result, { svc' with niod := none }, ?_, ?_⟩
    · unfold currentProbe
      rw [if_pos initial, eq]
      simp only [initial, bind, Except.bind, if_true, dropped svc' deleted]
    · refine ⟨?_, walk.found, walk.nullFirst, walk.final⟩
      exact congrArg (fun s : ServiceNFO => { s with niod := none }) walk.frame
  · obtain ⟨probe, selected⟩ := startable.state.resolve_left initial
    obtain ⟨result, svc', eq, walk⟩ := nextProbe_spec cfg.ap cfg.versionIntensity true
      { svc with niod := none } (unfinished_of_selected selected).1
    refine ⟨result, svc', ?_, walk⟩
    rw [currentProbe_selected selected]
    simp only [initial, bind, Except.bind, if_false, dropped svc startable.niod]
    exact eq

namespace ServiceNFO.Walk

variable {newresp : Bool} {svc svc' : ServiceNFO} {result : Option ServiceProbe}

theorem log (walk : Walk ap newresp svc result svc') (log : svc.LogOk) : svc'.LogOk := by
  rw [walk.frame]
  refine ⟨log.flag, fun some => ?_, log.matched⟩
  cases newresp with
  | true => exact absurd rfl some
  | false => exact log.resp some

theorem notEnded (walk : Walk ap newresp svc result svc') (notEnded : svc.ended = false) :
    svc'.ended = false := by
  rw [walk.frame]
  exact notEnded

theorem niod (walk : Walk ap newresp svc result svc') : svc'.niod = svc.niod := by
  rw [walk.frame]

theorem nullTcp (walk : Walk ap newresp svc result svc') (null : svc'.probeState = .nullProbe) :
    svc'.proto = .tcp := by
  rw [walk.frame]
  exact (walk.nullFirst null).2

end ServiceNFO.Walk

theorem noMoreProbes_final (svc : ServiceNFO) :
    (noMoreProbes svc).unfinished = false ∧ noMoreProbes svc ≠ .finishedTcpwrapped := by
  unfold noMoreProbes
  split <;> simp [ProbeState.unfinished]

/-- Ending a service because `nextProbe` returned NULL -/
theorem endExhausted_over (inv : Inv ap (some i) sg) (log : svc.LogOk)
    (idle : ∀ iod ∈ svc.niod, iod = Iod.idle) :
    Fine (Over ap i sg)
      (endSvcprobe (noMoreProbes svc) false i ((sg.put i svc).record i .exhausted)) := by
  have ending : Ending (noMoreProbes svc) false
      (((sg.put i svc).record i .exhausted).services i) := by
    rw [record_eq, put_services_self, put_services_self]
    exact .aborted (noMoreProbes_final svc).1 (noMoreProbes_final svc).2 (fun _ => idle) log rfl rfl
  have inv' : Inv ap (some i) ((sg.put i svc).record i .exhausted) := (inv.put svc).put _
  obtain ⟨sg', eq, ended, -⟩ := endSvcprobe_over inv' ending
  rw [eq]
  exact Over.of_put inv (Over.of_put (inv.put svc) ended)

/-- A restart ends the service or leaves it waiting for its connection. -/
theorem restartProbe_spec {cfg : Config} {env : Env} (inv : Inv cfg.ap (some i) sg)
    (startable : Startable cfg.ap nsi (sg.services i)) (ok : LaunchOk cfg.ap rounds launch)
    (room : Room rounds i sg) :
    Fine (fun sg' => Over cfg.ap i sg sg' ∨
        ∃ svc : ServiceNFO, svc.Probing cfg.ap ∧ sg' = sg.put i svc)
      (restartProbe cfg env launch nsi i sg) := by
  obtain ⟨result, svc, eq, walk⟩ := nextConnection_spec startable
  have log : svc.LogOk := walk.log ⟨startable.log.flag, startable.log.resp, startable.log.matched⟩
  unfold restartProbe
  rw [eq]
  simp only [bind, Except.bind]
  cases result with
  | some probe =>
    dsimp only
    split
    · refine .inr ⟨_, ⟨⟨1, 0, 0⟩, ?_⟩, rfl⟩
      exact {
        niod := rfl
        selected := ⟨probe, walk.found probe rfl⟩
        single := Nat.le_refl 1
        connecting := fun _ => rfl
        writing := fun none => absurd rfl none
        connected := fun connects => nomatch connects
        nullTcp := walk.nullTcp
        log := ⟨log.flag, log.resp, log.matched⟩
        notEnded := walk.notEnded startable.notEnded }
    · next timedOut _ =>
        have log' : ((sg.put i { svc with niod := some Iod.idle }).services i).LogOk := by
          rw [put_services_self]
          exact ⟨log.flag, log.resp, log.matched⟩
        refine Meets.mono (abandonConnect_over (inv.put _) log' (.inr ?_) ok room) fun _ ended =>
          .inl (Over.of_put inv ended)
        simp
  | none =>
    refine Meets.mono (endExhausted_over inv log ?_) fun _ => .inl
    intro iod mem
    rw [walk.niod] at mem
    cases mem

/-- The launcher moves the first waiting service to those in progress. -/
theorem Inv.start {rest : List Nat} (inv : Inv ap none sg)
    (first : sg.servicesRemaining = i :: rest) (probing : svc.Probing ap)
    (free : sg.servicesInProgress.length < sg.idealParallelism) :
    Inv ap none { sg.put i svc with
      servicesRemaining := rest, servicesInProgress := sg.servicesInProgress ++ [i] } := by
  have held : Inv ap (some i) (sg.put i svc) :=
    (inv.hold (.inl (first ▸ mem_cons_self))).put svc
  have nodup : (i :: rest).Nodup :=
    first ▸ (nodup_append.mp (nodup_append.mp inv.nodup).1).1
  refine ⟨?perm, ?bound, ?waiting, ?probing, held.done, by simp, held.unborn⟩
  case perm =>
    refine Perm.trans ?_ inv.perm
    rw [first]
    refine Perm.append_right _ ?_
    rw [← append_assoc]
    exact perm_append_singleton i _
  case bound =>
    show (sg.servicesInProgress ++ [i]).length ≤ sg.idealParallelism
    rw [length_append]
    exact free
  case waiting =>
    intro j mem _
    have ne : j ≠ i := by
      rintro rfl
      exact (nodup_cons.mp nodup).1 mem
    refine held.waiting j ?_ (by simpa using ne)
    show j ∈ sg.servicesRemaining
    rw [first]
    exact mem_cons_of_mem i mem
  case probing =>
    intro j mem _
    by_cases eq : j = i
    · subst eq
      show ((sg.put j svc).services j).Probing ap
      rwa [put_services_self]
    · rcases mem_append.mp mem with old | new
      · exact held.probing j old (by simpa using eq)
      · exact absurd (mem_singleton.mp new) eq

/-- Every run of the launcher ends within as many rounds as services remain, and keeps the
invariant. -/
theorem launchLoop_ok (cfg : Config) (env : Env) (fuel : Nat) :
    LaunchOk cfg.ap fuel (launchLoop cfg env fuel) := by
  induction fuel with
  | zero => exact fun sg _ room => nomatch room
  | succ fuel ih =>
    intro sg inv room
    unfold launchLoop
    split
    · exact ⟨inv, Keeps.refl sg⟩
    split
    case isFalse => exact ⟨inv, Keeps.refl sg⟩
    case isTrue free =>
      cases first : sg.servicesRemaining with
      | nil => exact ⟨inv, Keeps.refl sg⟩
      | cons i rest =>
        have remaining : i ∈ sg.servicesRemaining := first ▸ mem_cons_self
        have waiting := inv.waiting i remaining (by simp)
        have held := inv.hold (.inl remaining)
        have room' : Room fuel i sg := .inr ⟨remaining, Nat.le_of_lt_succ room⟩
        dsimp only
        split
        · have ending : Ending .incomplete false
              ((sg.record i .hostTimeout).services i) := by
            rw [record_eq, put_services_self]
            refine .aborted rfl (by simp) (fun _ iod mem => ?_) waiting.log rfl rfl
            rw [waiting.niod] at mem
            cases mem
          refine Meets.mono (endAndLaunch_over (held.put _) ending ih room') fun sg' ended => ?_
          exact ⟨ended.inv, (Over.of_put held ended).keeps⟩
        · refine Meets.bind (restartProbe_spec held waiting.startable ih room')
            fun sg' outcome => ?_
          rcases outcome with ended | ⟨svc, probing, rfl⟩
          · -- the service has ended: the loop goes on without it
            have goOn : Fine (fun sg'' => Inv cfg.ap none sg'' ∧ Keeps sg sg'')
                (launchLoop cfg env fuel sg') :=
              (ih sg' ended.inv (ended.room room')).mono fun sg'' launched =>
                ⟨launched.1, ended.keeps.trans launched.2⟩
            split
            · exact goOn
            · split
              · next front =>
                  have stillThere := mem_of_mem_head? front
                  exact absurd ended.finished (ended.inv.notFinished (.inl stillThere))
              · exact goOn
          · obtain ⟨iod, on⟩ := probing
            obtain ⟨probe, selected⟩ := on.selected
            have unfinished := (unfinished_of_selected selected).1
            rw [put_services_self, if_neg, if_pos]
            · have started := inv.start first ⟨iod, on⟩ free
              have fewer : rest.length < fuel := by
                rw [first, length_cons] at room
                exact Nat.lt_of_succ_lt_succ room
              have tail : (sg.put i svc).servicesRemaining.tail = rest := by
                rw [put_remaining, first, tail_cons]
              rw [tail]
              refine (ih _ started fewer).mono fun sg' launched => ⟨launched.1, ?_⟩
              refine Keeps.trans ?_ launched.2
              have keeps := held.keeps_put svc
              refine ⟨rfl, rfl, rfl, rfl, ?_, keeps.finished⟩
              show rest.length ≤ sg.servicesRemaining.length
              rw [first]
              exact Nat.le_succ _
            · rw [put_remaining, first, List.head?_cons]
            · intro nomatch'
              rw [nomatch'] at unfinished
              cases unfinished

theorem launchSomeServiceProbes_ok (cfg : Config) (env : Env) (rounds : Nat) :
    LaunchOk cfg.ap rounds (launchSomeServiceProbes cfg env) :=
  fun sg inv _ => launchLoop_ok cfg env _ sg inv (Nat.lt_succ_self _)

end

end Nmap.Service
