import Mathlib.Data.List.Nodup
import Mathlib.Tactic.SplitIfs
import Nmap.Base.Odometer
import Nmap.Service.Probes

/-!
# The order of the probes (`service_scan.cc`)

A run of `nextProbe`, from `resetProbes` until it returns NULL. Whether there is a soft match,
and for which service, may change between any two calls. `todo` is what a run may still return,
in order.
-/

namespace Nmap.Service

open List

open Nmap.Base.Odometer (stops mem_stops stops_of_lt)

/-! ## Runs -/

def AllProbes.deref (ap : AllProbes) : ProbeRef → Option ServiceProbe
  | .null => ap.nullProbe
  | .listed index => ap.probes[index]?

/-- A call of `nextProbe`, with what has become of the matches before it -/
structure ProbeCall where
  newresp : Bool
  softMatchFound : Bool
  probeMatched : Option Name

namespace ServiceNFO

def matchedBefore (svc : ServiceNFO) (call : ProbeCall) : ServiceNFO :=
  { svc with softMatchFound := call.softMatchFound, probeMatched := call.probeMatched }

def current (svc : ServiceNFO) : Option ProbeRef :=
  match svc.probeState with
  | .nullProbe => some .null
  | .matchingProbes | .nonmatchingProbes => some (.listed svc.currentProbeIndex)
  | _ => none

/-- The calls of a run return these probes, and then NULL. -/
inductive ProbeRun (ap : AllProbes) (versionIntensity : Nat) :
    ServiceNFO → List ProbeCall → List ProbeRef → ServiceNFO → Prop
  | finished {svc svc' : ServiceNFO} {call : ProbeCall} :
      nextProbe ap versionIntensity call.newresp (svc.matchedBefore call) = .ok (none, svc') →
      ProbeRun ap versionIntensity svc [call] [] svc'
  | returned {svc svc' last : ServiceNFO} {call : ProbeCall} {calls : List ProbeCall}
      {probe : ServiceProbe} {ref : ProbeRef} {refs : List ProbeRef} :
      nextProbe ap versionIntensity call.newresp (svc.matchedBefore call) =
        .ok (some probe, svc') →
      svc'.current = some ref → ap.deref ref = some probe →
      ProbeRun ap versionIntensity svc' calls refs last →
      ProbeRun ap versionIntensity svc (call :: calls) (ref :: refs) last

/-! ## What there is to do -/

variable (ap : AllProbes) (svc : ServiceNFO)

/-- The probe at this index is one of the protocol, and probable for the port. -/
def probableAt (index : Nat) : Bool :=
  ap.probes[index]?.any fun probe =>
    svc.proto = probe.probeprotocol && probe.portIsProbable svc.tunnel svc.portno

/-- The probe at this index is one of the protocol, and not probable for the port. -/
def improbableAt (index : Nat) : Bool :=
  ap.probes[index]?.any fun probe =>
    svc.proto = probe.probeprotocol && !probe.portIsProbable svc.tunnel svc.portno

def nullProbes : List ProbeRef :=
  if svc.proto = .tcp ∧ ap.nullProbe.isSome = true then [.null] else []

/-- The probable probes from this index on -/
def probables (start : Nat) : List ProbeRef :=
  (stops ap.probes.length (svc.probableAt ap) start).map .listed

/-- The probes from this index on that are not probable -/
def improbables (start : Nat) : List ProbeRef :=
  (stops ap.probes.length (svc.improbableAt ap) start).map .listed

/-- The probes that the calls may still return -/
def todo : List ProbeRef :=
  match svc.probeState with
  | .initial => svc.nullProbes ap ++ svc.probables ap 0 ++ svc.improbables ap 0
  | .nullProbe => svc.probables ap 0 ++ svc.improbables ap 0
  | .matchingProbes =>
    svc.probables ap (svc.currentProbeIndex + 1) ++ svc.improbables ap 0
  | .nonmatchingProbes => svc.improbables ap (svc.currentProbeIndex + 1)
  | _ => []

/-- A probe that is due without a soft match: it is probable, or not too rare. -/
def due (versionIntensity : Nat) : ProbeRef → Bool
  | .null => true
  | .listed index =>
    svc.probableAt ap index ||
      ap.probes[index]?.any fun probe => probe.rarity ≤ versionIntensity

/-! ## The search -/

variable {ap svc}

/-- What the search passes by, of the positions among which it looks -/
theorem seek_spec {probes : List ServiceProbe} {wanted : ServiceProbe → Bool} {p : Nat → Bool}
    (inside : ∀ index, probes[index]?.any wanted = true → p index = true) (start : Nat) :
    match seek wanted (probes.drop start) start with
    | some (index, probe) => probes[index]? = some probe ∧ wanted probe = true ∧
        ∃ skipped, stops probes.length p start =
            skipped ++ index :: stops probes.length p (index + 1) ∧
          ∀ j ∈ skipped, probes[j]?.any wanted = false
    | none => ∀ j ∈ stops probes.length p start, probes[j]?.any wanted = false := by
  induction left : probes.length - start generalizing start with
  | zero =>
    rw [drop_eq_nil_of_le (by omega)]
    intro j mem
    have := mem_stops.mp mem
    omega
  | succ left ih =>
    have lt : start < probes.length := by omega
    have here : probes[start]? = some probes[start] := List.getElem?_eq_getElem lt
    have rest := ih (start + 1) (by omega)
    rw [drop_eq_getElem_cons lt, seek, stops_of_lt lt]
    cases want : wanted probes[start] with
    | true =>
      have counts : p start = true := inside start (by rw [here]; exact want)
      rw [if_pos rfl, if_pos counts]
      exact ⟨here, want, [], rfl, by simp⟩
    | false =>
      have passed : probes[start]?.any wanted = false := by rw [here]; exact want
      rw [if_neg Bool.false_ne_true]
      cases found : seek wanted (probes.drop (start + 1)) (start + 1) with
      | none =>
        rw [found] at rest
        intro j mem
        split at mem
        · rcases mem_cons.mp mem with rfl | mem
          · exact passed
          · exact rest j mem
        · exact rest j mem
      | some result =>
        rw [found] at rest
        obtain ⟨at_index, want', skipped, split_, others⟩ := rest
        refine ⟨at_index, want', ?_⟩
        split
        · refine ⟨start :: skipped, by rw [split_]; rfl, ?_⟩
          intro j mem
          rcases mem_cons.mp mem with rfl | mem
          · exact passed
          · exact others j mem
        · exact ⟨skipped, split_, others⟩

theorem stops_seekStart (p : Nat → Bool) (dropdown : Bool) :
    stops ap.probes.length p (svc.seekStart ap dropdown) =
      stops ap.probes.length p (if dropdown then 0 else svc.currentProbeIndex + 1) := by
  cases dropdown with
  | true => rfl
  | false =>
    rw [seekStart, if_neg Bool.false_ne_true, if_neg Bool.false_ne_true]
    split_ifs with last
    · rfl
    · rw [not_not.mp last]
      simp [stops]

/-! ## One call -/

/-- A call with `todo` to do skips some of it and returns the next probe, or skips all. -/
structure Advances (ap : AllProbes) (versionIntensity : Nat) (svc : ServiceNFO)
    (todo : List ProbeRef) (result : Option ServiceProbe) (svc' : ServiceNFO) : Prop where
  proto : svc'.proto = svc.proto
  portno : svc'.portno = svc.portno
  tunnel : svc'.tunnel = svc.tunnel
  soft : svc'.softMatchFound = svc.softMatchFound
  returned : ∀ probe, result = some probe → ∃ skipped ref,
    todo = skipped ++ ref :: svc'.todo ap ∧ svc'.current = some ref ∧
      ap.deref ref = some probe ∧ .null ∉ skipped ∧
      (svc.softMatchFound = false → svc.due ap versionIntensity ref = true ∧
        ∀ other ∈ skipped, svc.due ap versionIntensity other = false)
  ended : result = none → .null ∉ todo ∧
    (svc.softMatchFound = false →
      ∀ other ∈ todo, svc.due ap versionIntensity other = false) ∧
    svc'.probeState =
      if svc.softMatchFound then .finishedSoftmatched else .finishedNomatch

variable {index : Nat}

theorem any_mono {probes : List ServiceProbe} {p q : ServiceProbe → Bool}
    (imp : ∀ probe, p probe = true → q probe = true) (holds : probes[index]?.any p = true) :
    probes[index]?.any q = true := by
  obtain ⟨probe, here, yes⟩ := (Option.any_eq_true _ _).mp holds
  exact (Option.any_eq_true _ _).mpr ⟨probe, here, imp probe yes⟩

theorem null_not_mem_listed (indices : List Nat) :
    ProbeRef.null ∉ indices.map ProbeRef.listed := by
  simp

variable {versionIntensity : Nat}

theorem due_improbable (noSoft : svc.softMatchFound = false)
    (improbable : svc.improbableAt ap index = true) :
    svc.due ap versionIntensity (.listed index) =
      ap.probes[index]?.any (svc.wantedNonmatching versionIntensity) := by
  obtain ⟨probe, here, not_probable⟩ := (Option.any_eq_true _ _).mp improbable
  simp only [Bool.and_eq_true, Bool.not_eq_true', decide_eq_true_eq] at not_probable
  rw [due, probableAt, here]
  simp [wantedNonmatching, not_probable.1, not_probable.2, noSoft]

theorem nextNonmatching_advances (versionIntensity : Nat) (dropdown : Bool) :
    Advances ap versionIntensity svc
      (svc.improbables ap (if dropdown then 0 else svc.currentProbeIndex + 1))
      (nextNonmatching ap versionIntensity dropdown svc).1
      (nextNonmatching ap versionIntensity dropdown svc).2 := by
  have inside : ∀ index,
      ap.probes[index]?.any (svc.wantedNonmatching versionIntensity) = true →
        svc.improbableAt ap index = true := by
    intro index
    apply any_mono
    intro probe wanted
    rw [wantedNonmatching, Bool.and_eq_true] at wanted
    exact wanted.1
  have search := seek_spec inside (svc.seekStart ap dropdown)
  rw [improbables, ← stops_seekStart, nextNonmatching]
  dsimp only
  cases found : seek (svc.wantedNonmatching versionIntensity)
      (ap.probes.drop (svc.seekStart ap dropdown)) (svc.seekStart ap dropdown) with
  | some result =>
    obtain ⟨index, probe⟩ := result
    rw [found] at search
    obtain ⟨here, wanted, skipped, split_, others⟩ := search
    refine ⟨rfl, rfl, rfl, rfl, ?_, by simp⟩
    intro probe' same
    cases same
    refine ⟨skipped.map .listed, .listed index, ?_, rfl, here, null_not_mem_listed _, ?_⟩
    · rw [split_, map_append, map_cons]
      rfl
    · intro noSoft
      have due : ∀ j ∈ stops ap.probes.length (svc.improbableAt ap) (svc.seekStart ap dropdown),
          svc.due ap versionIntensity (.listed j) =
            ap.probes[j]?.any (svc.wantedNonmatching versionIntensity) :=
        fun j mem => due_improbable noSoft (mem_stops.mp mem).2.2
      rw [split_] at due
      refine ⟨?_, ?_⟩
      · rw [due index (by simp), here]
        exact wanted
      · intro other mem
        obtain ⟨j, at_j, rfl⟩ := mem_map.mp mem
        rw [due j (mem_append_left _ at_j)]
        exact others j at_j
  | none =>
    rw [found] at search
    refine ⟨rfl, rfl, rfl, rfl, by simp, ?_⟩
    intro _
    refine ⟨null_not_mem_listed _, ?_, rfl⟩
    intro noSoft other mem
    obtain ⟨j, at_j, rfl⟩ := mem_map.mp mem
    rw [due_improbable noSoft (mem_stops.mp at_j).2.2]
    exact search j at_j

theorem wantedMatching_eq (noSoft : svc.softMatchFound = false) (index : Nat) :
    ap.probes[index]?.any (svc.wantedMatching versionIntensity) = svc.probableAt ap index := by
  rw [probableAt]
  congr 1
  funext probe
  simp [wantedMatching, noSoft]

theorem nextMatching_advances (versionIntensity : Nat) (dropdown : Bool) :
    Advances ap versionIntensity svc
      (svc.probables ap (if dropdown then 0 else svc.currentProbeIndex + 1) ++
        svc.improbables ap 0)
      (nextMatching ap versionIntensity dropdown svc).1
      (nextMatching ap versionIntensity dropdown svc).2 := by
  have inside : ∀ index, ap.probes[index]?.any (svc.wantedMatching versionIntensity) = true →
      svc.probableAt ap index = true := by
    intro index
    apply any_mono
    intro probe wanted
    rw [wantedMatching, Bool.and_eq_true] at wanted
    exact wanted.1
  -- without a soft match nothing is passed by
  have passed : svc.softMatchFound = false → ∀ j, svc.probableAt ap j = true →
      ap.probes[j]?.any (svc.wantedMatching versionIntensity) ≠ false := by
    intro noSoft j probable unwanted
    rw [wantedMatching_eq noSoft, probable] at unwanted
    cases unwanted
  have search := seek_spec inside (svc.seekStart ap dropdown)
  rw [probables, ← stops_seekStart, nextMatching]
  cases found : seek (svc.wantedMatching versionIntensity)
      (ap.probes.drop (svc.seekStart ap dropdown)) (svc.seekStart ap dropdown) with
  | some result =>
    obtain ⟨index, probe⟩ := result
    rw [found] at search
    obtain ⟨here, wanted, skipped, split_, others⟩ := search
    refine ⟨rfl, rfl, rfl, rfl, ?_, by simp⟩
    intro probe' same
    cases same
    refine ⟨skipped.map .listed, .listed index, ?_, rfl, here, null_not_mem_listed _, ?_⟩
    · rw [split_, map_append, map_cons, append_assoc, cons_append]
      rfl
    · intro noSoft
      refine ⟨?_, ?_⟩
      · rw [due, inside index (by rw [here]; exact wanted), Bool.true_or]
      · intro other mem
        obtain ⟨j, at_j, rfl⟩ := mem_map.mp mem
        have counts : j ∈ stops ap.probes.length (svc.probableAt ap)
            (svc.seekStart ap dropdown) := by
          rw [split_]
          exact mem_append_left _ at_j
        exact absurd (others j at_j) (passed noSoft j (mem_stops.mp counts).2.2)
  | none =>
    rw [found] at search
    have rest : Advances ap versionIntensity svc (svc.improbables ap 0) _ _ :=
      nextNonmatching_advances versionIntensity true
    obtain ⟨proto, portno, tunnel, soft, returned, ended⟩ := rest
    refine ⟨proto, portno, tunnel, soft, ?_, ?_⟩
    · intro probe same
      obtain ⟨skipped, ref, split_, here, points, notNull, noSoft⟩ := returned probe same
      let passedBy := (stops ap.probes.length (svc.probableAt ap)
        (svc.seekStart ap dropdown)).map ProbeRef.listed
      refine ⟨passedBy ++ skipped, ref, ?_, here, points, ?_, ?_⟩
      · rw [append_assoc]
        exact congrArg (passedBy ++ ·) split_
      · rw [mem_append, not_or]
        exact ⟨null_not_mem_listed _, notNull⟩
      · intro none_
        refine ⟨(noSoft none_).1, ?_⟩
        intro other mem
        rcases mem_append.mp mem with mem | mem
        · obtain ⟨j, at_j, rfl⟩ := mem_map.mp mem
          exact absurd (search j at_j) (passed none_ j (mem_stops.mp at_j).2.2)
        · exact (noSoft none_).2 other mem
    · intro none_
      obtain ⟨notNull, unwanted, final⟩ := ended none_
      refine ⟨?_, ?_, final⟩
      · rw [mem_append, not_or]
        exact ⟨null_not_mem_listed _, notNull⟩
      · intro noSoft other mem
        rcases mem_append.mp mem with mem | mem
        · obtain ⟨j, at_j, rfl⟩ := mem_map.mp mem
          exact absurd (search j at_j) (passed noSoft j (mem_stops.mp at_j).2.2)
        · exact unwanted noSoft other mem

/-- Every call for an unfinished service advances. -/
theorem nextProbe_advances (ap : AllProbes) (versionIntensity : Nat) (newresp : Bool)
    (svc : ServiceNFO) (unfinished : svc.probeState.unfinished = true) :
    ∃ result svc', nextProbe ap versionIntensity newresp svc = .ok (result, svc') ∧
      Advances ap versionIntensity svc (svc.todo ap) result svc' := by
  -- the forgotten response is read by nothing here
  have lift : ∀ {start : ServiceNFO} {todo result svc'},
      start = (if newresp then { svc with currentresp := [] } else svc) →
      Advances ap versionIntensity start todo result svc' →
      Advances ap versionIntensity svc todo result svc' := by
    intro start todo result svc' eq advances
    subst eq
    cases newresp with
    | false => exact advances
    | true =>
      obtain ⟨proto, portno, tunnel, soft, returned, ended⟩ := advances
      exact ⟨proto, portno, tunnel, soft, returned, ended⟩
  have same : (if newresp then { svc with currentresp := [] } else svc).todo ap = svc.todo ap := by
    cases newresp <;> rfl
  generalize starts : (if newresp then { svc with currentresp := [] } else svc) = start
    at lift same
  have unfinished' : start.probeState.unfinished = true := by
    rw [← starts]
    cases newresp <;> exact unfinished
  unfold nextProbe
  rw [starts, ← same]
  dsimp only
  cases state : start.probeState with
  | initial =>
    dsimp only
    split
    · next probe tcp null =>
        have first : start.todo ap = .null ::
            { start with probeState := .nullProbe }.todo ap := by
          rw [todo, state, todo, nullProbes, if_pos ⟨tcp, by rw [null]; rfl⟩]
          rfl
        refine ⟨_, _, rfl, lift rfl ⟨rfl, rfl, rfl, rfl, ?_, by simp⟩⟩
        intro probe' eq
        cases eq
        refine ⟨[], .null, first, rfl, null, by simp, fun _ => ⟨rfl, by simp⟩⟩
    · next other =>
        have none_ : start.nullProbes ap = [] := by
          rw [nullProbes, if_neg]
          rintro ⟨tcp, isSome⟩
          obtain ⟨probe, null⟩ := Option.isSome_iff_exists.mp isSome
          exact other probe tcp null
        have first : start.todo ap = start.probables ap 0 ++ start.improbables ap 0 := by
          rw [todo, state, none_]
          rfl
        rw [first]
        exact ⟨_, _, rfl, lift rfl (nextMatching_advances versionIntensity true)⟩
  | nullProbe =>
    rw [todo, state]
    exact ⟨_, _, rfl, lift rfl (nextMatching_advances versionIntensity true)⟩
  | matchingProbes =>
    rw [todo, state]
    exact ⟨_, _, rfl, lift rfl (nextMatching_advances versionIntensity false)⟩
  | nonmatchingProbes =>
    rw [todo, state]
    exact ⟨_, _, rfl, lift rfl (nextNonmatching_advances versionIntensity false)⟩
  | _ => rw [state] at unfinished'; cases unfinished'

/-! ## A whole run -/

/-- What a run has returned, of what there was to do -/
structure Returned (ap : AllProbes) (versionIntensity : Nat) (svc : ServiceNFO)
    (calls : List ProbeCall) (refs : List ProbeRef) (last : ServiceNFO) : Prop where
  part : refs.Sublist (svc.todo ap)
  null : .null ∈ svc.todo ap → .null ∈ refs
  final : ∃ call, calls.getLast? = some call ∧ last.probeState =
    if call.softMatchFound then .finishedSoftmatched else .finishedNomatch
  noSoft : (∀ call ∈ calls, call.softMatchFound = false) →
    refs = (svc.todo ap).filter (svc.due ap versionIntensity)

/-- A run ends, whatever becomes of the matches. -/
theorem run_returned (ap : AllProbes) (versionIntensity : Nat) (svc : ServiceNFO)
    (unfinished : svc.probeState.unfinished = true) (change : Nat → ProbeCall) :
    ∃ n refs last, ProbeRun ap versionIntensity svc ((List.range n).map change) refs last ∧
      Returned ap versionIntensity svc ((List.range n).map change) refs last := by
  induction size : (svc.todo ap).length using Nat.strongRecOn generalizing svc change with
  | ind length ih =>
    subst size
    have matched : ((svc.matchedBefore (change 0)).todo ap) = svc.todo ap := rfl
    obtain ⟨result, svc', called, advances⟩ := nextProbe_advances ap versionIntensity
      (change 0).newresp (svc.matchedBefore (change 0)) unfinished
    rw [matched] at advances
    cases result with
    | none =>
      obtain ⟨notNull, unwanted, final⟩ := advances.ended rfl
      refine ⟨1, [], svc', .finished called, nil_sublist _, ?_, ?_, ?_⟩
      · intro null
        exact absurd null notNull
      · exact ⟨change 0, rfl, final⟩
      · intro noSoft
        have none_ := unwanted (noSoft (change 0) (by simp))
        symm
        rw [filter_eq_nil_iff]
        intro other mem
        have off : svc.due ap versionIntensity other = false := none_ other mem
        rw [off]
        exact Bool.false_ne_true
    | some probe =>
      obtain ⟨skipped, ref, split_, here, points, notNull, wanted⟩ :=
        advances.returned probe rfl
      have unfinished' : svc'.probeState.unfinished = true := by
        rw [current] at here
        cases state : svc'.probeState <;> rw [state] at here <;> first | rfl | cases here
      have less : (svc'.todo ap).length < (svc.todo ap).length := by
        rw [split_, length_append, length_cons]
        omega
      obtain ⟨n, refs, last, run, part, null, final, noSoft⟩ :=
        ih _ less svc' unfinished' (fun k => change (k + 1)) rfl
      have shift : (List.range (n + 1)).map change =
          change 0 :: (List.range n).map fun k => change (k + 1) := by
        rw [range_succ_eq_map, map_cons, map_map]
        rfl
      have due : svc'.due ap versionIntensity = svc.due ap versionIntensity := by
        funext other
        cases other with
        | null => rfl
        | listed index =>
          simp only [ServiceNFO.due, probableAt, advances.proto, advances.portno,
            advances.tunnel]
          rfl
      refine ⟨n + 1, ref :: refs, last, ?_, ?_, ?_, ?_, ?_⟩
      · rw [shift]
        exact .returned called here points run
      · rw [split_]
        exact (part.cons_cons ref).trans (sublist_append_right _ _)
      · rw [split_, mem_append, mem_cons, mem_cons]
        rintro (mem | rfl | mem)
        · exact absurd mem notNull
        · exact Or.inl rfl
        · exact Or.inr (null mem)
      · obtain ⟨call, isLast, state⟩ := final
        refine ⟨call, ?_, state⟩
        rw [shift, List.getLast?_cons, isLast]
        rfl
      · intro none_
        rw [shift] at none_
        obtain ⟨isDue, others⟩ := wanted (none_ (change 0) mem_cons_self)
        have rest := noSoft fun call mem => none_ call (mem_cons_of_mem _ mem)
        have before : skipped.filter (svc.due ap versionIntensity) = [] := by
          rw [filter_eq_nil_iff]
          intro other mem
          have off : svc.due ap versionIntensity other = false := others other mem
          rw [off]
          exact Bool.false_ne_true
        have kept : svc.due ap versionIntensity ref = true := isDue
        rw [split_, filter_append, before, filter_cons, if_pos kept, rest, due]
        rfl

theorem comparable_cons {a b : ProbeCall} {l r : List ProbeCall}
    (same : a :: l <+: b :: r ∨ b :: r <+: a :: l) : a = b ∧ (l <+: r ∨ r <+: l) := by
  rcases same with same | same
  · obtain ⟨head, tail⟩ := cons_prefix_cons.mp same
    exact ⟨head, Or.inl tail⟩
  · obtain ⟨head, tail⟩ := cons_prefix_cons.mp same
    exact ⟨head.symm, Or.inr tail⟩

/-- With the same changes there is one run only. -/
theorem ProbeRun.unique {calls others : List ProbeCall} {refs refs' : List ProbeRef}
    {last last' : ServiceNFO} (run : ProbeRun ap versionIntensity svc calls refs last)
    (run' : ProbeRun ap versionIntensity svc others refs' last')
    (same : calls <+: others ∨ others <+: calls) : refs' = refs ∧ last' = last := by
  induction run generalizing others refs' with
  | finished called =>
    cases run' with
    | finished called' =>
      cases (comparable_cons same).1
      rw [called] at called'
      cases called'
      exact ⟨rfl, rfl⟩
    | returned called' =>
      cases (comparable_cons same).1
      rw [called] at called'
      cases called'
  | returned called here points rest ih =>
    cases run' with
    | finished called' =>
      cases (comparable_cons same).1
      rw [called] at called'
      cases called'
    | returned called' here' points' rest' =>
      cases (comparable_cons same).1
      rw [called] at called'
      cases called'
      rw [here] at here'
      cases here'
      obtain ⟨rfl, rfl⟩ := ih rest' (comparable_cons same).2
      exact ⟨rfl, rfl⟩

theorem stops_increasing (n : Nat) (p : Nat → Bool) (start : Nat) :
    (stops n p start).Pairwise (· < ·) :=
  List.Pairwise.filter _ pairwise_lt_range'

theorem not_improbableAt (probable : svc.probableAt ap index = true) :
    svc.improbableAt ap index = false := by
  obtain ⟨probe, here, yes⟩ := (Option.any_eq_true _ _).mp probable
  rw [Bool.and_eq_true] at yes
  rw [improbableAt, here]
  simp [yes.2]

theorem mem_todo_listed {probe : ServiceProbe} (here : ap.probes[index]? = some probe) :
    .listed index ∈ svc.nullProbes ap ++ svc.probables ap 0 ++ svc.improbables ap 0 ↔
      svc.proto = probe.probeprotocol := by
  have inside : index < ap.probes.length := by
    by_contra outside
    rw [List.getElem?_eq_none (Nat.le_of_not_lt outside)] at here
    cases here
  have null : .listed index ∉ svc.nullProbes ap := by
    rw [nullProbes]
    split <;> simp
  simp only [probables, improbables, mem_append, null, false_or, mem_map,
    ProbeRef.listed.injEq, exists_eq_right, mem_stops, Nat.zero_le, inside, true_and, probableAt,
    improbableAt, here, Option.any_some, Bool.and_eq_true, decide_eq_true_eq]
  cases probe.portIsProbable svc.tunnel svc.portno <;> simp

/-- The order of the probes: a run ends, in the state that the last soft match says, and returns
no probe twice: first the NULL probe, for TCP, then probable ones in the order of the list, then
others in the order of the list. Without soft matches these are all probes of the protocol that
are probable or not too rare. -/
theorem nextProbe_order (ap : AllProbes) (versionIntensity : Nat) (svc : ServiceNFO)
    (change : Nat → ProbeCall) :
    ∃ n refs last,
      ProbeRun ap versionIntensity svc.resetProbes ((List.range n).map change) refs last ∧
      (∀ m refs' last', ProbeRun ap versionIntensity svc.resetProbes
        ((List.range m).map change) refs' last' → refs' = refs ∧ last' = last) ∧
      refs.Nodup ∧
      (∃ first second : List Nat,
        refs = svc.nullProbes ap ++ first.map .listed ++ second.map .listed ∧
        first.Pairwise (· < ·) ∧ (∀ index ∈ first, svc.probableAt ap index = true) ∧
        second.Pairwise (· < ·) ∧ ∀ index ∈ second, svc.improbableAt ap index = true) ∧
      (∃ call, ((List.range n).map change).getLast? = some call ∧ last.probeState =
        if call.softMatchFound then .finishedSoftmatched else .finishedNomatch) ∧
      ((∀ k < n, (change k).softMatchFound = false) → ∀ index probe,
        ap.probes[index]? = some probe → (.listed index ∈ refs ↔
          svc.proto = probe.probeprotocol ∧
            (probe.portIsProbable svc.tunnel svc.portno = true ∨
              probe.rarity ≤ versionIntensity))) := by
  obtain ⟨n, refs, last, run, part, null, final, noSoft⟩ :=
    run_returned ap versionIntensity svc.resetProbes rfl change
  have todo : svc.resetProbes.todo ap =
      svc.nullProbes ap ++ svc.probables ap 0 ++ svc.improbables ap 0 := rfl
  rw [todo] at part null noSoft
  have groups : ∃ first second : List Nat,
      refs = svc.nullProbes ap ++ first.map .listed ++ second.map .listed ∧
      first.Pairwise (· < ·) ∧ (∀ index ∈ first, svc.probableAt ap index = true) ∧
      second.Pairwise (· < ·) ∧ ∀ index ∈ second, svc.improbableAt ap index = true := by
    obtain ⟨front, second', rfl, partFront, partSecond⟩ := sublist_append_iff.mp part
    obtain ⟨nulls, first', rfl, partNull, partFirst⟩ := sublist_append_iff.mp partFront
    obtain ⟨first, subFirst, rfl⟩ := sublist_map_iff.mp partFirst
    obtain ⟨second, subSecond, rfl⟩ := sublist_map_iff.mp partSecond
    refine ⟨first, second, ?_, ?_, ?_, ?_, ?_⟩
    · -- the NULL probe is not skipped
      congr 2
      by_cases tcp : svc.proto = .tcp ∧ ap.nullProbe.isSome = true
      · have one : svc.nullProbes ap = [.null] := if_pos tcp
        rw [one] at partNull null ⊢
        have mem := null (by simp)
        simp only [mem_append, null_not_mem_listed, or_false] at mem
        exact partNull.eq_of_length_le (length_pos_of_mem mem)
      · have none_ : svc.nullProbes ap = [] := if_neg tcp
        rw [none_] at partNull ⊢
        exact sublist_nil.mp partNull
    · exact (stops_increasing _ _ _).sublist subFirst
    · intro index mem
      exact (mem_stops.mp (subFirst.subset mem)).2.2
    · exact (stops_increasing _ _ _).sublist subSecond
    · intro index mem
      exact (mem_stops.mp (subSecond.subset mem)).2.2
  refine ⟨n, refs, last, run, ?_, ?_, groups, final, ?_⟩
  · intro m refs' last' run'
    apply run.unique run'
    have longer : ∀ {a b : Nat}, a ≤ b →
        (List.range a).map change <+: (List.range b).map change := by
      intro a b le
      obtain ⟨more, rfl⟩ := Nat.exists_eq_add_of_le le
      rw [range_add, map_append]
      exact prefix_append _ _
    exact (Nat.le_total n m).imp longer longer
  · obtain ⟨first, second, rfl, increasing, probable, increasing', improbable⟩ := groups
    have listed_inj : Function.Injective ProbeRef.listed := fun a b same => by cases same; rfl
    have nodupFirst : (first.map ProbeRef.listed).Nodup :=
      (increasing.imp fun lt => Nat.ne_of_lt lt).map _ fun a b ne same => ne (listed_inj same)
    have nodupSecond : (second.map ProbeRef.listed).Nodup :=
      (increasing'.imp fun lt => Nat.ne_of_lt lt).map _ fun a b ne same => ne (listed_inj same)
    have nodupNull : (svc.nullProbes ap).Nodup := by
      rw [nullProbes]
      split <;> simp
    have nulls : ∀ ref ∈ svc.nullProbes ap, ref = .null := by
      intro ref mem
      rw [nullProbes] at mem
      split at mem
      · exact mem_singleton.mp mem
      · cases mem
    rw [nodup_append, nodup_append]
    refine ⟨⟨nodupNull, nodupFirst, ?_⟩, nodupSecond, ?_⟩
    · intro a memA b memB
      obtain ⟨index, -, rfl⟩ := mem_map.mp memB
      rw [nulls a memA]
      exact ProbeRef.noConfusion
    · intro a memA b memB
      obtain ⟨index, mem, rfl⟩ := mem_map.mp memB
      rcases mem_append.mp memA with memA | memA
      · rw [nulls a memA]
        exact ProbeRef.noConfusion
      · obtain ⟨index', mem', rfl⟩ := mem_map.mp memA
        intro same
        cases same
        have off := not_improbableAt (probable index mem')
        rw [improbable index mem] at off
        cases off
  · intro none_ index probe here
    have all : ∀ call ∈ (List.range n).map change, call.softMatchFound = false := by
      intro call mem
      obtain ⟨k, inside, rfl⟩ := mem_map.mp mem
      exact none_ k (mem_range.mp inside)
    rw [noSoft all, mem_filter, mem_todo_listed here]
    apply and_congr_right
    intro proto
    rw [due, probableAt, here]
    simp [resetProbes, proto]

end ServiceNFO

end Nmap.Service
