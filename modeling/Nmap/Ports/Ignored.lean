import Mathlib.Algebra.BigOperators.Group.List.Basic
import Mathlib.Algebra.Ring.Int.Defs
import Mathlib.Data.List.Induction
import Mathlib.Data.List.Nodup
import Mathlib.Data.Prod.Lex
import Mathlib.Tactic.SplitIfs
import Nmap.Base.Successor
import Nmap.Ports.PortList

/-!
# Ignored states (`portlist.cc`)

The report does not list the ports in states that are ignored, but counts them by state.
`nextIgnoredState` gives these states one after the other, the most common first and of equally
common ones the smaller: `ignored_states_enumerated`.
-/

namespace Nmap.Ports

open Nmap.Base List

/-! ## Ignored states -/

/-- The `PORT_` number of a state -/
def PortState.number : PortState → Nat
  | .unknown => 0
  | .closed => 1
  | .open => 2
  | .filtered => 3
  | .testing => 4
  | .fresh => 5
  | .unfiltered => 6
  | .openFiltered => 7
  | .closedFiltered => 8

/-- The states below `PORT_HIGHEST_STATE`, in their order -/
def statesInOrder : List PortState :=
  [.unknown, .closed, .open, .filtered, .testing, .fresh, .unfiltered, .openFiltered,
    .closedFiltered]

/-- The options that the report depends on -/
structure ReportOptions where
  verbose : Int
  debugging : Int
  ipprotscan : Bool
  openOnly : Bool

namespace PortList

variable (o : ReportOptions) (pl : PortList)

/-- `getStateCounts`, of all protocols -/
def getStateCounts (state : PortState) : Int :=
  pl.stateCounts .tcp state + pl.stateCounts .udp state + pl.stateCounts .sctp state +
    pl.stateCounts .ip state

def maxPerState : Int :=
  if o.verbose ≠ 0 ∨ o.debugging ≠ 0 then
    if o.ipprotscan then 25 * (o.verbose + 1 + 3 * o.debugging)
    else 25 * (o.verbose + 1 + 20 * o.debugging)
  else 25

/-- `isIgnoredState`, with the count that it fills in -/
def isIgnoredState (state : PortState) : Option Int :=
  if 2 < o.debugging then none
  else if state = .open ∨ state = .unknown ∨ state = .testing ∨ state = .fresh then none
  else if state = .openFiltered ∧ (2 < o.verbose ∨ 2 < o.debugging) then none
  else
    let count := pl.getStateCounts state
    if o.openOnly ∧ state ≠ .openFiltered ∧ state ≠ .unfiltered ∧ 0 < count then some count
    else if maxPerState o < count then some count
    else none

def numIgnoredStates : Nat := statesInOrder.countP fun state => (pl.isIgnoredState o state).isSome

def numIgnoredPorts : Int :=
  statesInOrder.foldl (fun numports state =>
    match pl.isIgnoredState o state with
    | some count => numports + count
    | none => numports) 0

/-- One round of the loop of `nextIgnoredState`, with `beststate` and `bestcount` -/
def considerState (prevstate : PortState) (prevcount : Int) (best : PortState × Int)
    (state : PortState) : PortState × Int :=
  match pl.isIgnoredState o state with
  | none => best
  | some count =>
    -- "We can't give the same state again ..."
    if state = prevstate then best
    else if prevstate ≠ .unknown ∧ (prevcount < count ∨
        count = prevcount ∧ state.number ≤ prevstate.number) then best
    else if best.1 ≠ .unknown ∧ count ≤ best.2 then best
    else (state, count)

def nextIgnoredState (prevstate : PortState) : PortState :=
  let prevcount := if prevstate ≠ .unknown then pl.getStateCounts prevstate else 0
  (statesInOrder.foldl (pl.considerState o prevstate prevcount) (.unknown, 0)).1

/-- `while ((istate = nextIgnoredState(prevstate)) != PORT_UNKNOWN)`: the states that the loop
sees until it ends -/
def EnumeratesIgnored : PortState → List PortState → Prop
  | prevstate, [] => pl.nextIgnoredState o prevstate = .unknown
  | prevstate, state :: rest =>
    pl.nextIgnoredState o prevstate = state ∧ state ≠ .unknown ∧ EnumeratesIgnored state rest

/-! ## The order -/

variable {o pl}

variable {s t : PortState}

theorem PortState.number_inj (same : s.number = t.number) : s = t := by
  cases s <;> cases t <;> first | rfl | cases same

theorem mem_statesInOrder (state : PortState) : state ∈ statesInOrder := by
  cases state <;> simp [statesInOrder]

theorem statesInOrder_sorted : statesInOrder.Pairwise fun s t => s.number < t.number := by
  decide

variable {state : PortState}

/-- Only the count of its state is filled in, and never for `PORT_UNKNOWN`. -/
theorem isIgnoredState_some {count : Int} (ignored : pl.isIgnoredState o state = some count) :
    count = pl.getStateCounts state ∧ state ≠ .unknown := by
  simp only [isIgnoredState] at ignored
  split at ignored
  · cases ignored
  split at ignored
  · cases ignored
  rename_i known
  split at ignored
  · cases ignored
  have notUnknown : state ≠ .unknown := fun unknown => known (Or.inr (Or.inl unknown))
  split at ignored
  · cases ignored
    exact ⟨rfl, notUnknown⟩
  split at ignored
  · cases ignored
    exact ⟨rfl, notUnknown⟩
  · cases ignored

/-- More common states come first, and of equally common ones the smaller. -/
def stateRank (pl : PortList) (state : PortState) : ℤ ×ₗ ℕ :=
  toLex (-pl.getStateCounts state, state.number)

theorem stateRank_inj (same : stateRank pl s = stateRank pl t) : s = t :=
  PortState.number_inj (congrArg Prod.snd (toLex.injective same))

theorem stateRank_lt : stateRank pl s < stateRank pl t ↔
    pl.getStateCounts t < pl.getStateCounts s ∨
      pl.getStateCounts t = pl.getStateCounts s ∧ s.number < t.number := by
  rw [stateRank, stateRank, Prod.Lex.toLex_lt_toLex]
  show -_ < -_ ∨ -_ = -_ ∧ _ ↔ _
  omega

/-! ## One call -/

def ignoredStates (o : ReportOptions) (pl : PortList) : List PortState :=
  statesInOrder.filter fun state => (pl.isIgnoredState o state).isSome

theorem mem_ignoredStates :
    state ∈ pl.ignoredStates o ↔ (pl.isIgnoredState o state).isSome = true := by
  rw [ignoredStates, mem_filter]
  exact and_iff_right (mem_statesInOrder state)

/-- The state a call is given, if it is one -/
def given (prevstate : PortState) : Option PortState :=
  if prevstate = .unknown then none else some prevstate

/-- The first of the states in the order, of those that are ignored and behind the given one -/
def IsBest (o : ReportOptions) (pl : PortList) (prevstate : PortState) (states : List PortState)
    (best : PortState × Int) : Prop :=
  (best.1 = .unknown ∧
      ∀ s ∈ states, s ∈ pl.ignoredStates o → ¬ Behind (stateRank pl) (given prevstate) s) ∨
    (best.1 ≠ .unknown ∧ best.2 = pl.getStateCounts best.1 ∧ best.1 ∈ states ∧
      best.1 ∈ pl.ignoredStates o ∧ Behind (stateRank pl) (given prevstate) best.1 ∧
      ∀ s ∈ states, s ∈ pl.ignoredStates o → Behind (stateRank pl) (given prevstate) s →
        stateRank pl best.1 ≤ stateRank pl s)

theorem skipped_iff (pl : PortList) (prevstate state : PortState) :
    (state = prevstate ∨ prevstate ≠ .unknown ∧
        (pl.getStateCounts prevstate < pl.getStateCounts state ∨
          pl.getStateCounts state = pl.getStateCounts prevstate ∧
            state.number ≤ prevstate.number)) ∧ state ≠ .unknown ↔
      ¬ Behind (stateRank pl) (given prevstate) state ∧ state ≠ .unknown := by
  by_cases unknown : prevstate = .unknown
  · subst unknown
    simp [given, Behind]
  · rw [given, if_neg unknown, Behind, stateRank_lt]
    constructor
    · rintro ⟨rfl | ⟨-, skip⟩, known⟩
      · exact ⟨by omega, known⟩
      · exact ⟨by omega, known⟩
    · rintro ⟨notBehind, known⟩
      refine ⟨?_, known⟩
      by_cases same : state = prevstate
      · exact Or.inl same
      · refine Or.inr ⟨unknown, ?_⟩
        have different : state.number ≠ prevstate.number := fun eq =>
          same (PortState.number_inj eq)
        omega

variable {states : List PortState}

theorem IsBest.snoc {prevstate : PortState} {best : PortState × Int}
    (isBest : IsBest o pl prevstate states best)
    (notBetter : state ∈ pl.ignoredStates o → Behind (stateRank pl) (given prevstate) state →
      best.1 ≠ .unknown ∧ stateRank pl best.1 ≤ stateRank pl state) :
    IsBest o pl prevstate (states ++ [state]) best := by
  rcases isBest with ⟨unknown, none⟩ | ⟨known, counted, mem, ignored, behind, least⟩
  · refine Or.inl ⟨unknown, ?_⟩
    intro s mem ignored behind
    rcases mem_append.mp mem with mem | mem
    · exact none s mem ignored behind
    · rw [mem_singleton.mp mem] at ignored behind
      exact (notBetter ignored behind).1 unknown
  · refine Or.inr ⟨known, counted, mem_append_left _ mem, ignored, behind, ?_⟩
    intro s mem ignored behind
    rcases mem_append.mp mem with mem | mem
    · exact least s mem ignored behind
    · rw [mem_singleton.mp mem] at ignored behind ⊢
      exact (notBetter ignored behind).2

/-- A round of the loop keeps the best state, where the states come in their order. -/
theorem considerState_best {prevstate : PortState} {prevcount : Int}
    (given_count : prevstate ≠ .unknown → prevcount = pl.getStateCounts prevstate)
    {best : PortState × Int} (isBest : IsBest o pl prevstate states best)
    (after : ∀ s ∈ states, s.number < state.number) :
    IsBest o pl prevstate (states ++ [state])
      (pl.considerState o prevstate prevcount best state) := by
  rw [considerState]
  cases ignored : pl.isIgnoredState o state with
  | none =>
    apply isBest.snoc
    intro mem
    rw [mem_ignoredStates, ignored] at mem
    cases mem
  | some count =>
    obtain ⟨rfl, known⟩ := isIgnoredState_some ignored
    have mem : state ∈ pl.ignoredStates o := mem_ignoredStates.mpr (by rw [ignored]; rfl)
    have skip := skipped_iff pl prevstate state
    dsimp only
    split_ifs with same notBehind notMore
    · apply isBest.snoc
      intro _ behind
      exact absurd behind (skip.mp ⟨Or.inl same, known⟩).1
    · apply isBest.snoc
      intro _ behind
      rw [given_count notBehind.1] at notBehind
      exact absurd behind (skip.mp ⟨Or.inr notBehind, known⟩).1
    · apply isBest.snoc
      intro _ _
      refine ⟨notMore.1, le_of_lt (stateRank_lt.mpr ?_)⟩
      rcases isBest with ⟨unknown, -⟩ | ⟨-, counted, earlier, -⟩
      · exact absurd unknown notMore.1
      · have less := after best.1 earlier
        omega
    · -- the best state so far
      have behind : Behind (stateRank pl) (given prevstate) state := by
        by_contra notBehind'
        rcases (skip.mpr ⟨notBehind', known⟩).1 with eq | ⟨given', counts⟩
        · exact same eq
        · rw [← given_count given'] at counts
          exact notBehind ⟨given', counts⟩
      refine Or.inr ⟨known, rfl, mem_append_right _ mem_cons_self, mem, behind, ?_⟩
      intro s mem' ignored' behind'
      rcases mem_append.mp mem' with earlier | here
      · rcases isBest with ⟨-, none⟩ | ⟨known', counted, -, -, -, least⟩
        · exact absurd behind' (none s earlier ignored')
        · have more : best.2 < pl.getStateCounts state := by
            by_contra atMost
            exact notMore ⟨known', by omega⟩
          have first : stateRank pl state < stateRank pl best.1 :=
            stateRank_lt.mpr (Or.inl (by omega))
          exact le_of_lt (lt_of_lt_of_le first (least s earlier ignored' behind'))
      · rw [mem_singleton.mp here]

theorem nextIgnoredState_best (o : ReportOptions) (pl : PortList) (prevstate : PortState) :
    ∃ count, IsBest o pl prevstate statesInOrder (pl.nextIgnoredState o prevstate, count) := by
  let prevcount := if prevstate ≠ .unknown then pl.getStateCounts prevstate else 0
  have given_count : prevstate ≠ .unknown → prevcount = pl.getStateCounts prevstate :=
    fun known => if_pos known
  have loop : ∀ states, states.Pairwise (fun s t : PortState => s.number < t.number) →
      IsBest o pl prevstate states
        (states.foldl (pl.considerState o prevstate prevcount) (.unknown, 0)) := by
    intro states
    induction states using List.reverseRecOn with
    | nil =>
      intro _
      exact Or.inl ⟨rfl, by simp⟩
    | append_singleton states state ih =>
      intro sorted
      rw [pairwise_append] at sorted
      rw [foldl_append, foldl_cons, foldl_nil]
      exact considerState_best given_count (ih sorted.1) fun s mem =>
        sorted.2.2 s mem state mem_cons_self
  exact ⟨_, loop statesInOrder statesInOrder_sorted⟩

/-! ## The walk -/

def nextIgnored (o : ReportOptions) (pl : PortList) (prev : Option PortState) :
    Option PortState :=
  given (pl.nextIgnoredState o (prev.getD .unknown))

theorem nextIgnored_findsNext (o : ReportOptions) (pl : PortList) :
    FindsNext (pl.ignoredStates o) (stateRank pl) (nextIgnored o pl) := by
  have known : ∀ prev : Option PortState, (∀ p ∈ prev, p ∈ pl.ignoredStates o) →
      given (prev.getD .unknown) = prev := by
    intro prev inside
    cases prev with
    | none => rfl
    | some p =>
      have ignored := mem_ignoredStates.mp (inside p rfl)
      obtain ⟨count, ignored⟩ := Option.isSome_iff_exists.mp ignored
      exact if_neg (isIgnoredState_some ignored).2
  constructor
  · intro prev a inside found
    obtain ⟨count, ⟨unknown, -⟩ | ⟨isKnown, -, -, ignored, behind, least⟩⟩ :=
      nextIgnoredState_best o pl (prev.getD .unknown)
    · rw [nextIgnored, given, if_pos unknown] at found
      cases found
    · rw [nextIgnored, given, if_neg isKnown] at found
      cases found
      rw [known prev inside] at behind least
      exact ⟨ignored, behind, fun b mem => least b (mem_statesInOrder b) mem⟩
  · intro prev inside notFound b mem
    obtain ⟨count, ⟨-, none⟩ | ⟨isKnown, -⟩⟩ := nextIgnoredState_best o pl (prev.getD .unknown)
    · rw [known prev inside] at none
      exact none b (mem_statesInOrder b) mem
    · rw [nextIgnored, given, if_neg isKnown] at notFound
      cases notFound

theorem enumeratesIgnored_of_visits :
    ∀ {prev : Option PortState}, Visits (nextIgnored o pl) prev states →
      pl.EnumeratesIgnored o (prev.getD .unknown) states := by
  induction states with
  | nil =>
    intro prev ends
    by_contra other
    have known : pl.nextIgnoredState o (prev.getD .unknown) ≠ .unknown := other
    rw [Visits, nextIgnored, given, if_neg known] at ends
    cases ends
  | cons state states ih =>
    rintro prev ⟨found, walk⟩
    rw [nextIgnored, given] at found
    split at found
    · cases found
    · rename_i known
      cases found
      exact ⟨rfl, known, ih walk⟩

theorem numIgnoredPorts_eq (o : ReportOptions) (pl : PortList) :
    pl.numIgnoredPorts o = ((pl.ignoredStates o).map pl.getStateCounts).sum := by
  have loop : ∀ (states : List PortState) (numports : Int),
      states.foldl (fun numports state =>
        match pl.isIgnoredState o state with
        | some count => numports + count
        | none => numports) numports =
      numports + ((states.filter fun state => (pl.isIgnoredState o state).isSome).map
        pl.getStateCounts).sum := by
    intro states
    induction states with
    | nil =>
      intro numports
      simp
    | cons state states ih =>
      intro numports
      rw [foldl_cons, ih, filter_cons]
      cases ignored : pl.isIgnoredState o state with
      | none => simp
      | some count =>
        obtain ⟨rfl, -⟩ := isIgnoredState_some ignored
        simp [Int.add_assoc]
  rw [numIgnoredPorts, loop, Int.zero_add, ignoredStates]

/-- From `PORT_UNKNOWN` on, `nextIgnoredState` gives each ignored state once, by falling count
and among equal counts by rising number, and then `PORT_UNKNOWN`. -/
theorem ignored_states_enumerated (o : ReportOptions) (pl : PortList) :
    ∃ states, pl.EnumeratesIgnored o .unknown states ∧
      (∀ state, state ∈ states ↔ (pl.isIgnoredState o state).isSome = true) ∧
      states.Nodup ∧
      states.Pairwise (fun s t => pl.getStateCounts t < pl.getStateCounts s ∨
        pl.getStateCounts t = pl.getStateCounts s ∧ s.number < t.number) ∧
      states.length = pl.numIgnoredStates o ∧
      (states.map pl.getStateCounts).sum = pl.numIgnoredPorts o := by
  obtain ⟨states, walk, ordered, members⟩ := (nextIgnored_findsNext o pl).visits
    fun a _ b _ same => stateRank_inj same
  have nodup : states.Nodup := ordered.imp fun lt same => by
    rw [same] at lt
    exact lt_irrefl _ lt
  have nodupIgnored : (pl.ignoredStates o).Nodup := by
    apply Nodup.filter
    exact statesInOrder_sorted.imp fun lt same => by
      rw [same] at lt
      exact Nat.lt_irrefl _ lt
  have perm : states.Perm (pl.ignoredStates o) :=
    (perm_ext_iff_of_nodup nodup nodupIgnored).mpr members
  refine ⟨states, enumeratesIgnored_of_visits walk, ?_, nodup, ?_, ?_, ?_⟩
  · intro state
    rw [members, mem_ignoredStates]
  · exact ordered.imp fun lt => stateRank_lt.mp lt
  · rw [perm.length_eq, ignoredStates, numIgnoredStates, countP_eq_length_filter]
  · rw [(perm.map _).sum_eq, numIgnoredPorts_eq]

end PortList

end Nmap.Ports
