import Nmap.Nsock.Pool
import Mathlib.Data.List.Nodup
import Mathlib.Data.Finset.Card

/-!
# The lists of a pool

The events that are in the lists and the heap, whatever else there is to say of them: each is in
the lists of its type, in each list the events of an iod stand together, and the iod points to
the first of them. `iod_add_event` and `nevent_unref` keep this.
-/

namespace Nmap.Nsock

open List Function Option

@[simp] theorem EvList.event_node (e : Nat) (L : EvList) : (L.node e).event = e := by
  cases L <;> rfl

@[simp] theorem EvList.nevent_node (e : Nat) (L : EvList) : L.nevent (L.node e) = some e := by
  cases L <;> rfl

theorem EvList.node_inj {e e' : Nat} {L : EvList} (eq : L.node e = L.node e') : e = e' := by
  have events := congrArg Lnode.event eq
  rwa [EvList.event_node, EvList.event_node] at events

namespace Npool

variable {cfg : Config} {p q : Npool} {live live' : Nat → Prop} {e i : Nat} {L : EvList}

def owner (p : Npool) (n : Lnode) : Option Nat := (p.events n.event).iod

/-- The events `live` are the ones in the lists and in the heap. -/
structure Lists (cfg : Config) (p : Npool) (live : Nat → Prop) : Prop where
  nodup : ∀ L, (p.lists L).Nodup
  node : ∀ L, ∀ n ∈ p.lists L, n = L.node n.event
  listed : ∀ L, ∀ n ∈ p.lists L, live n.event
  typed : ∀ L, ∀ n ∈ p.lists L, L ∈ firstLists (p.events n.event).type
  placed : ∀ L, ∀ n ∈ p.lists L, ∀ qs, p.queues cfg n.event = some qs → L ∈ qs
  queued : ∀ e, live e → ∀ qs, p.queues cfg e = some qs → ∀ L ∈ qs, L.node e ∈ p.lists L
  heapNodup : p.expirables.Nodup
  heap : ∀ e, e ∈ p.expirables ↔ live e ∧ (p.events e).timeout.isSome
  owned : ∀ e, live e → ∀ i, (p.events e).iod = some i →
    (p.events e).type ≠ .timer ∧ i ∈ p.activeIods
  timer : ∀ e, live e → (p.events e).iod = none → (p.events e).type = .timer
  grouped : ∀ L, Grouped p.owner (p.lists L)
  first : ∀ i ∈ p.activeIods, ∀ L,
    (p.iods i).first L = firstWith p.owner (some i) (p.lists L)

/-! ## What the lists depend on -/

theorem queues_congr (type : (q.events e).type = (p.events e).type)
    (iod : (q.events e).iod = (p.events e).iod)
    (desc : ∀ i, (p.events e).iod = some i → (q.iods i).pcapDesc = (p.iods i).pcapDesc) :
    q.queues cfg e = p.queues cfg e := by
  unfold queues
  rw [type, iod]
  cases same : (p.events e).iod with
  | none => rfl
  | some i => simp [desc i same]

variable {qs : List EvList}

theorem queues_subset (has : p.queues cfg e = some qs) :
    ∀ L ∈ qs, L ∈ firstLists (p.events e).type := by
  unfold queues at has
  intro L mem
  cases type : (p.events e).type with
  | pcapRead =>
    simp only [type] at has
    have lists : L = .readEvents ∨ L = .pcapReadEvents := by
      split at has
      · cases has
        exact mem_pair.mp mem
      · obtain ⟨desc, -, rfl⟩ := map_eq_some_iff.mp has
        split at mem
        · exact .inl (mem_singleton.mp mem)
        · exact .inr (mem_singleton.mp mem)
    exact mem_pair.mpr lists
  | _ =>
    simp only [type, Option.some.injEq] at has
    subst has
    exact mem

theorem queues_nodup (has : p.queues cfg e = some qs) : qs.Nodup := by
  unfold queues at has
  split at has
  any_goals (cases has; simp)
  split at has
  · cases has
    simp
  · obtain ⟨desc, -, rfl⟩ := map_eq_some_iff.mp has
    split <;> simp

theorem Lists.congr (l : Lists cfg p live) (lists : q.lists = p.lists)
    (heap : q.expirables = p.expirables)
    (same : ∀ e, live e → (q.events e).type = (p.events e).type ∧
      (q.events e).iod = (p.events e).iod ∧ (q.events e).timeout = (p.events e).timeout)
    (queues : ∀ e, live e → ∀ qs, q.queues cfg e = some qs → p.queues cfg e = some qs)
    (active : ∀ e, live e → ∀ i, (p.events e).iod = some i → i ∈ q.activeIods)
    (first : ∀ i ∈ q.activeIods, ∀ L,
      (q.iods i).first L = firstWith p.owner (some i) (p.lists L))
    (eqv : ∀ e, live' e ↔ live e) : Lists cfg q live' := by
  have owners : ∀ L, ∀ n ∈ p.lists L, q.owner n = p.owner n := by
    intro L n mem
    exact (same n.event (l.listed L n mem)).2.1
  refine ⟨?_, ?_, ?_, ?_, ?_, ?_, ?_, ?_, ?_, ?_, ?_, ?_⟩
  · rw [lists]
    exact l.nodup
  · rw [lists]
    exact l.node
  · rw [lists]
    exact fun L n mem => (eqv n.event).mpr (l.listed L n mem)
  · rw [lists]
    intro L n mem
    rw [(same n.event (l.listed L n mem)).1]
    exact l.typed L n mem
  · rw [lists]
    intro L n mem qs has
    exact l.placed L n mem qs (queues n.event (l.listed L n mem) qs has)
  · rw [lists]
    intro e isLive qs has
    have was := (eqv e).mp isLive
    exact l.queued e was qs (queues e was qs has)
  · rw [heap]
    exact l.heapNodup
  · intro e
    rw [heap, l.heap, eqv]
    refine and_congr_right fun was => ?_
    rw [(same e was).2.2]
  · intro e isLive i iod
    have was := (eqv e).mp isLive
    rw [(same e was).2.1] at iod
    rw [(same e was).1]
    exact ⟨(l.owned e was i iod).1, active e was i iod⟩
  · intro e isLive iod
    have was := (eqv e).mp isLive
    rw [(same e was).2.1] at iod
    rw [(same e was).1]
    exact l.timer e was iod
  · intro L
    rw [lists]
    exact (l.grouped L).congr (owners L)
  · intro i mem L
    rw [lists, first i mem L]
    exact (firstWith_congr (owners L)).symm

/-! ## Nodes -/

theorem Lists.not_mem (l : Lists cfg p live) (notLive : ¬ live e) (L : EvList) :
    L.node e ∉ p.lists L := by
  intro mem
  have isLive := l.listed L _ mem
  rw [EvList.event_node] at isLive
  exact notLive isLive

variable {n : Lnode}

theorem Lists.mem_unique (l : Lists cfg p live) {L L' : EvList} (mem : n ∈ p.lists L)
    (mem' : n ∈ p.lists L') : L = L' := by
  have node := l.node L n mem
  have node' := l.node L' n mem'
  have typed := l.typed L n mem
  have typed' := l.typed L' n mem'
  rw [node] at node'
  revert typed typed' node'
  cases (p.events n.event).type <;> cases L <;> cases L' <;> simp [firstLists, EvList.node]

theorem Lists.listOf_eq (l : Lists cfg p live) (mem : n ∈ p.lists L) :
    p.listOf n = p.lists L := by
  have node := l.node L n mem
  cases n with
  | nodeqPcap e =>
    cases L with
    | pcapReadEvents => rfl
    | _ => cases node
  | nodeqIo e =>
    have only : ∀ L', .nodeqIo e ∈ p.lists L' → L' = L := fun L' mem' => l.mem_unique mem' mem
    cases L with
    | pcapReadEvents => cases node
    | connectEvents => simp [listOf, mem]
    | readEvents =>
      have notFirst : .nodeqIo e ∉ p.lists .connectEvents := fun h => by cases only _ h
      simp [listOf, mem, notFirst]
    | writeEvents =>
      have notFirst : .nodeqIo e ∉ p.lists .connectEvents := fun h => by cases only _ h
      have notSecond : .nodeqIo e ∉ p.lists .readEvents := fun h => by cases only _ h
      simp [listOf, mem, notFirst, notSecond]

theorem Lists.lnodeNext_eq (l : Lists cfg p live) (mem : n ∈ p.lists L) :
    p.lnodeNext n = nextOf n (p.lists L) := by
  rw [lnodeNext, l.listOf_eq mem]

theorem Lists.iodAt_eq (l : Lists cfg p live) (mem : n ∈ p.lists L) :
    p.iodAt L n = p.owner n := by
  rw [iodAt, l.node L n mem, EvList.nevent_node]
  simp [owner]

/-! ## `nevent_unref` -/

/-- The first event of an iod in a list once an event is gone -/
def nextFirst (p : Npool) (e i : Nat) (L : EvList) : Option Lnode :=
  match (p.iods i).first L with
  | none => none
  | some first =>
    if first = .nodeqIo e ∨ first = .nodeqPcap e then
      (p.lnodeNext first).filter fun next => p.iodAt L next = some i
    else some first

theorem onIod_self {f : Niod → Niod} (same : f (p.iods i) = p.iods i) : p.onIod i f = p := by
  rw [onIod, same, update_eq_self]

theorem firstEvNext_eq : p.firstEvNext e i L = p.onIod i fun iod =>
    { iod with first := update iod.first L (p.nextFirst e i L) } := by
  unfold firstEvNext nextFirst
  cases first : (p.iods i).first L with
  | none =>
    rw [onIod_self]
    show { p.iods i with first := update (p.iods i).first L none } = _
    rw [← first, update_eq_self]
  | some n =>
    dsimp only
    by_cases here : n = .nodeqIo e ∨ n = .nodeqPcap e
    · rw [if_pos here, if_pos here]
    · rw [if_neg here, if_neg here, onIod_self]
      show { p.iods i with first := update (p.iods i).first L (some n) } = _
      rw [← first, update_eq_self]

theorem nextFirst_congr (lists : q.lists = p.lists) (free : q.freeEvents = p.freeEvents)
    (events : q.events = p.events) (first : (q.iods i).first L = (p.iods i).first L) :
    q.nextFirst e i L = p.nextFirst e i L := by
  have next : q.lnodeNext = p.lnodeNext := by
    funext n
    unfold lnodeNext listOf
    rw [lists, free]
  have iods : q.iodAt = p.iodAt := by
    funext L n
    unfold iodAt
    rw [events]
  rw [nextFirst, nextFirst, first, next, iods]

variable {Ls : List EvList}

theorem foldl_firstEvNext (nodup : Ls.Nodup) (p : Npool) :
    Ls.foldl (fun p L => p.firstEvNext e i L) p = p.onIod i fun iod =>
      { iod with first := fun L => if L ∈ Ls then p.nextFirst e i L else iod.first L } := by
  induction Ls generalizing p with
  | nil =>
    rw [onIod_self]
    · rfl
    · simp
  | cons K rest ih =>
    have parts := nodup_cons.mp nodup
    have other : ∀ L, L ∈ rest → L ≠ K := by
      rintro L mem rfl
      exact parts.1 mem
    rw [foldl_cons, ih parts.2, firstEvNext_eq]
    simp only [onIod, update_idem, update_self]
    congr 2
    congr 1
    funext L
    by_cases later : L ∈ rest
    · have kept : (p.firstEvNext e i K).nextFirst e i L = p.nextFirst e i L := by
        rw [firstEvNext_eq]
        refine nextFirst_congr rfl rfl rfl ?_
        simp [onIod, other L later]
      rw [firstEvNext_eq] at kept
      rw [if_pos later, if_pos (mem_cons_of_mem K later), ← kept]
      rfl
    · by_cases here : L = K
      · subst here
        simp [later]
      · simp [later, here]

theorem foldl_unlink (nodup : Ls.Nodup) (p : Npool) :
    Ls.foldl (fun p L => p.unlink e L) p =
      { p with lists := fun L =>
          if L ∈ Ls then (p.lists L).erase (L.node e) else p.lists L } := by
  induction Ls generalizing p with
  | nil => simp
  | cons K rest ih =>
    have parts := nodup_cons.mp nodup
    rw [foldl_cons, ih parts.2]
    simp only [unlink, onList]
    congr 1
    funext L
    by_cases here : L = K
    · subst here
      simp [parts.1]
    · simp [here]

/-- The pool without an event that was in the lists `qs` -/
def dequeued (p : Npool) (e : Nat) (qs : List EvList) : Npool :=
  { p with
    lists := fun L => if L ∈ qs then (p.lists L).erase (L.node e) else p.lists L
    iods := match (p.events e).iod with
      | some i => update p.iods i { p.iods i with
          first := fun L => if L ∈ firstLists (p.events e).type then p.nextFirst e i L
            else (p.iods i).first L }
      | none => p.iods
    events := update p.events e { p.events e with timeout := none }
    expirables := if (p.events e).timeout.isSome then p.expirables.erase e else p.expirables
    freeEvents := p.freeEvents ++ [e] }

theorem firstLists_nodup (type : NseType) : (firstLists type).Nodup := by
  cases type <;> simp [firstLists]

theorem updateFirstEvents_eq : p.updateFirstEvents e = { p with
    iods := match (p.events e).iod with
      | some i => update p.iods i { p.iods i with
          first := fun L => if L ∈ firstLists (p.events e).type then p.nextFirst e i L
            else (p.iods i).first L }
      | none => p.iods } := by
  unfold updateFirstEvents
  cases iod : (p.events e).iod with
  | none => rfl
  | some i => exact foldl_firstEvNext (firstLists_nodup _) p

theorem neventUnref_eq :
    p.neventUnref cfg e = (p.queues cfg e).map fun qs => p.dequeued e qs := by
  unfold neventUnref
  have same : (p.updateFirstEvents e).queues cfg e = p.queues cfg e := by
    rw [updateFirstEvents_eq]
    refine queues_congr rfl rfl fun i iod => ?_
    simp only [iod]
    simp
  dsimp only
  rw [same]
  cases has : p.queues cfg e with
  | none => rfl
  | some qs =>
    rw [map_some, map_some, foldl_unlink (queues_nodup has),
      updateFirstEvents_eq]
    simp only [onEvent, dequeued, Option.some.injEq]
    by_cases timed : (p.events e).timeout.isSome
    · simp [timed]
    · have none : (p.events e).timeout = none := not_isSome_iff_eq_none.mp timed
      have eta : { p.events e with timeout := Option.none } = p.events e := by
        rw [← none]
      simp [none, eta]

@[simp] theorem dequeued_type (x : Nat) :
    ((p.dequeued e qs).events x).type = (p.events x).type := by
  by_cases here : x = e
  · subst here
    simp [dequeued]
  · simp [dequeued, here]

@[simp] theorem dequeued_iod (x : Nat) :
    ((p.dequeued e qs).events x).iod = (p.events x).iod := by
  by_cases here : x = e
  · subst here
    simp [dequeued]
  · simp [dequeued, here]

theorem dequeued_timeout {x : Nat} (other : x ≠ e) :
    ((p.dequeued e qs).events x).timeout = (p.events x).timeout := by
  simp [dequeued, other]

theorem dequeued_iods (i : Nat) :
    (p.dequeued e qs).iods i = { p.iods i with first := ((p.dequeued e qs).iods i).first } := by
  unfold dequeued
  cases iod : (p.events e).iod with
  | none => rfl
  | some j =>
    by_cases here : i = j
    · subst here
      simp
    · simp [here]

theorem dequeued_queues (x : Nat) :
    (p.dequeued e qs).queues cfg x = p.queues cfg x :=
  queues_congr (dequeued_type x) (dequeued_iod x) fun i _ => by rw [dequeued_iods]

theorem dequeued_owner : (p.dequeued e qs).owner = p.owner := by
  funext n
  exact dequeued_iod n.event

theorem Lists.dequeued_lists (l : Lists cfg p live) (has : p.queues cfg e = some qs) (L : EvList) :
    (p.dequeued e qs).lists L = (p.lists L).erase (L.node e) := by
  show (if L ∈ qs then (p.lists L).erase (L.node e) else p.lists L) = _
  by_cases mem : L ∈ qs
  · rw [if_pos mem]
  · rw [if_neg mem, erase_of_not_mem]
    intro listed
    refine mem (l.placed L _ listed qs ?_)
    rw [EvList.event_node]
    exact has

/-- Where an event is the first of its iod, the next one becomes the first. -/
theorem Lists.nextFirst_eq (l : Lists cfg p live) (active : i ∈ p.activeIods) :
    p.nextFirst e i L = firstWith p.owner (some i) ((p.lists L).erase (L.node e)) := by
  have first := l.first i active L
  unfold nextFirst
  rw [first]
  cases found : firstWith p.owner (some i) (p.lists L) with
  | none =>
    rw [firstWith_erase_of_ne, found]
    rw [found]
    exact nofun
  | some n =>
    have mem := firstWith_mem found
    dsimp only
    by_cases here : n = .nodeqIo e ∨ n = .nodeqPcap e
    · have event : n.event = e := by
        rcases here with rfl | rfl <;> rfl
      have node : n = L.node e := by
        rw [l.node L n mem, event]
      rw [if_pos here, ← node, firstWith_erase_first (l.grouped L) (l.nodup L) found,
        l.lnodeNext_eq mem]
      cases next : nextOf n (p.lists L) with
      | none => rfl
      | some c => simp only [Option.filter, l.iodAt_eq (nextOf_mem next)]
    · rw [if_neg here, firstWith_erase_of_ne, found]
      rw [found]
      intro eq
      have same : n = L.node e := Option.some.inj eq
      refine here ?_
      cases L with
      | pcapReadEvents => exact .inr same
      | _ => exact .inl same

theorem Lists.dequeue (l : Lists cfg p live) (has : p.queues cfg e = some qs) :
    Lists cfg (p.dequeued e qs) fun x => live x ∧ x ≠ e := by
  have lists := l.dequeued_lists has
  have kept : ∀ L, ∀ n ∈ (p.dequeued e qs).lists L, n ∈ p.lists L ∧ n.event ≠ e := by
    intro L n mem
    rw [lists, (l.nodup L).mem_erase_iff] at mem
    refine ⟨mem.2, fun event => mem.1 ?_⟩
    rw [l.node L n mem.2, event]
  refine ⟨?_, ?_, ?_, ?_, ?_, ?_, ?_, ?_, ?_, ?_, ?_, ?_⟩
  · intro L
    rw [lists]
    exact (l.nodup L).erase _
  · exact fun L n mem => l.node L n (kept L n mem).1
  · exact fun L n mem => ⟨l.listed L n (kept L n mem).1, (kept L n mem).2⟩
  · intro L n mem
    rw [dequeued_type]
    exact l.typed L n (kept L n mem).1
  · intro L n mem
    rw [dequeued_queues]
    exact l.placed L n (kept L n mem).1
  · intro x isLive
    rw [dequeued_queues]
    intro qs' has' L mem
    rw [lists, mem_erase_of_ne]
    · exact l.queued x isLive.1 qs' has' L mem
    · exact fun eq => isLive.2 (EvList.node_inj eq)
  · show (if (p.events e).timeout.isSome then p.expirables.erase e else p.expirables).Nodup
    split
    · exact l.heapNodup.erase e
    · exact l.heapNodup
  · intro x
    have heap : x ∈ (p.dequeued e qs).expirables ↔ x ∈ p.expirables ∧ x ≠ e := by
      show x ∈ (if (p.events e).timeout.isSome then p.expirables.erase e else p.expirables) ↔ _
      by_cases timed : (p.events e).timeout.isSome
      · rw [if_pos timed, l.heapNodup.mem_erase_iff, and_comm]
      · rw [if_neg timed]
        refine ⟨fun mem => ⟨mem, ?_⟩, fun h => h.1⟩
        rintro rfl
        exact timed ((l.heap x).mp mem).2
    rw [heap, l.heap]
    by_cases here : x = e
    · simp [here]
    · rw [dequeued_timeout here]
      tauto
  · intro x isLive j iod
    rw [dequeued_iod] at iod
    rw [dequeued_type]
    exact l.owned x isLive.1 j iod
  · intro x isLive iod
    rw [dequeued_iod] at iod
    rw [dequeued_type]
    exact l.timer x isLive.1 iod
  · intro L
    rw [dequeued_owner, lists]
    exact (l.grouped L).erase
  · intro j active L
    change j ∈ p.activeIods at active
    rw [dequeued_owner, lists]
    have unchanged (same : ((p.dequeued e qs).iods j).first L = (p.iods j).first L)
        (other : firstWith p.owner (some j) (p.lists L) ≠ some (L.node e)) :
        ((p.dequeued e qs).iods j).first L =
          firstWith p.owner (some j) ((p.lists L).erase (L.node e)) := by
      rw [same, l.first j active, firstWith_erase_of_ne other]
    by_cases own : (p.events e).iod = some j
    · by_cases typed : L ∈ firstLists (p.events e).type
      · have next : ((p.dequeued e qs).iods j).first L = p.nextFirst e j L := by
          simp [dequeued, own, typed]
        rw [next, l.nextFirst_eq active]
      · refine unchanged ?_ ?_
        · simp [dequeued, own, typed]
        · intro found
          refine typed ?_
          have was := l.typed L _ (firstWith_mem found)
          rwa [EvList.event_node] at was
    · refine unchanged ?_ ?_
      · unfold dequeued
        cases iod : (p.events e).iod with
        | none => rfl
        | some k =>
          have other : j ≠ k := fun eq => own (by rw [iod, eq])
          simp [other]
      · intro found
        have key := firstWith_key found
        rw [owner, EvList.event_node] at key
        exact own key

/-! ## `iod_add_event` -/

def withFirst (p : Npool) (e i : Nat) (L : EvList) : List Lnode :=
  match (p.iods i).first L with
  | some first => insertBefore first (L.node e) (p.lists L)
  | none => p.lists L ++ [L.node e]

theorem addFirst_eq : p.addFirst e i L = { p with
    lists := update p.lists L (p.withFirst e i L)
    iods := update p.iods i { p.iods i with
      first := update (p.iods i).first L (some (L.node e)) } } := by
  unfold addFirst withFirst
  cases (p.iods i).first L <;> rfl

theorem foldl_addFirst (nodup : Ls.Nodup) (p : Npool) :
    Ls.foldl (fun p L => p.addFirst e i L) p = { p with
      lists := fun L => if L ∈ Ls then p.withFirst e i L else p.lists L
      iods := update p.iods i { p.iods i with
        first := fun L => if L ∈ Ls then some (L.node e) else (p.iods i).first L } } := by
  induction Ls generalizing p with
  | nil => simp
  | cons K rest ih =>
    have parts := nodup_cons.mp nodup
    have other : ∀ L, L ∈ rest → L ≠ K := by
      rintro L mem rfl
      exact parts.1 mem
    rw [foldl_cons, ih parts.2, addFirst_eq]
    simp only [update_idem, update_self]
    congr 1
    · funext L
      by_cases later : L ∈ rest
      · simp [later, withFirst, other L later]
      · by_cases here : L = K
        · subst here
          simp [later]
        · simp [later, here]
    · congr 2
      funext L
      by_cases later : L ∈ rest
      · simp [later]
      · by_cases here : L = K
        · subst here
          simp [later]
        · simp [later, here]

/-- The pool with a new event in the lists `qs`, and in the heap if it expires -/
def enqueued (p : Npool) (e i : Nat) (qs : List EvList) : Npool :=
  { p with
    lists := fun L => if L ∈ qs then p.withFirst e i L else p.lists L
    iods := update p.iods i { p.iods i with
      first := fun L => if L ∈ qs then some (L.node e) else (p.iods i).first L }
    expirables := if (p.events e).timeout.isSome then e :: p.expirables else p.expirables }

theorem enqueued_nil : p.enqueued e i [] =
    { p with expirables :=
        if (p.events e).timeout.isSome then e :: p.expirables else p.expirables } := by
  simp [enqueued]

theorem enqueued_iods (j : Nat) :
    (p.enqueued e i qs).iods j = { p.iods j with first := ((p.enqueued e i qs).iods j).first } := by
  by_cases here : j = i
  · subst here
    simp [enqueued]
  · simp [enqueued, here]

theorem mem_withFirst : n ∈ p.withFirst e i L ↔ n = L.node e ∨ n ∈ p.lists L := by
  unfold withFirst
  cases (p.iods i).first L with
  | none => rw [mem_append, mem_singleton, or_comm]
  | some first => exact mem_insertBefore

theorem sublist_withFirst : (p.lists L).Sublist (p.withFirst e i L) := by
  unfold withFirst
  cases (p.iods i).first L with
  | none => exact sublist_append_left _ _
  | some first => exact sublist_insertBefore

theorem enqueued_queues (x : Nat) :
    (p.enqueued e i qs).queues cfg x = p.queues cfg x :=
  queues_congr rfl rfl fun j _ => by rw [enqueued_iods]

theorem enqueued_owner : (p.enqueued e i qs).owner = p.owner := rfl

theorem Lists.withFirst_grouped (l : Lists cfg p live) (active : i ∈ p.activeIods)
    (own : (p.events e).iod = some i) : Grouped p.owner (p.withFirst e i L) ∧
      ∀ j, firstWith p.owner (some j) (p.withFirst e i L) =
        if j = i then some (L.node e) else firstWith p.owner (some j) (p.lists L) := by
  have first := l.first i active L
  have key : p.owner (L.node e) = some i := by
    rw [owner, EvList.event_node]
    exact own
  unfold withFirst
  rw [first]
  cases found : firstWith p.owner (some i) (p.lists L) with
  | none =>
    have new : ∀ n ∈ p.lists L, p.owner n ≠ p.owner (L.node e) := by
      rw [key]
      exact firstWith_eq_none.mp found
    refine ⟨(l.grouped L).append new, fun j => ?_⟩
    dsimp only
    rw [firstWith_append new, key]
    simp only [Option.some.injEq]
  | some n =>
    rw [← key] at found
    refine ⟨(l.grouped L).insertBefore found, fun j => ?_⟩
    dsimp only
    rw [firstWith_insertBefore found, key]
    simp only [Option.some.injEq]

theorem Lists.enqueue (l : Lists cfg p live) (new : ¬ live e) (has : p.queues cfg e = some qs)
    (own : ∀ j, (p.events e).iod = some j → j = i ∧ (p.events e).type ≠ .timer ∧ j ∈ p.activeIods)
    (timer : (p.events e).iod = none → (p.events e).type = .timer ∧ qs = []) :
    Lists cfg (p.enqueued e i qs) fun x => live x ∨ x = e := by
  have listed : ∀ L, L ∈ qs → (p.events e).iod = some i ∧ i ∈ p.activeIods := by
    intro L mem
    cases iod : (p.events e).iod with
    | none =>
      rw [(timer iod).2] at mem
      cases mem
    | some j =>
      obtain ⟨rfl, -, active⟩ := own j iod
      exact ⟨rfl, active⟩
  have lists : ∀ L, (p.enqueued e i qs).lists L =
      if L ∈ qs then p.withFirst e i L else p.lists L := fun _ => rfl
  have mems : ∀ L, ∀ n ∈ (p.enqueued e i qs).lists L, n ∈ p.lists L ∨ n = L.node e ∧ L ∈ qs := by
    intro L n mem
    rw [lists] at mem
    by_cases here : L ∈ qs
    · rw [if_pos here, mem_withFirst] at mem
      exact mem.symm.imp id fun eq => ⟨eq, here⟩
    · rw [if_neg here] at mem
      exact .inl mem
  refine ⟨?_, ?_, ?_, ?_, ?_, ?_, ?_, ?_, ?_, ?_, ?_, ?_⟩
  · intro L
    rw [lists]
    split
    · unfold withFirst
      cases (p.iods i).first L with
      | none =>
        refine nodup_append.mpr ⟨l.nodup L, nodup_singleton _, ?_⟩
        rintro n mem m last rfl
        rw [mem_singleton.mp last] at mem
        exact l.not_mem new L mem
      | some first => exact nodup_insertBefore (l.nodup L) (l.not_mem new L)
    · exact l.nodup L
  · intro L n mem
    rcases mems L n mem with old | ⟨rfl, -⟩
    · exact l.node L n old
    · rw [EvList.event_node]
  · intro L n mem
    rcases mems L n mem with old | ⟨rfl, -⟩
    · exact .inl (l.listed L n old)
    · exact .inr (EvList.event_node e L)
  · intro L n mem
    rcases mems L n mem with old | ⟨rfl, here⟩
    · exact l.typed L n old
    · rw [EvList.event_node]
      exact queues_subset has L here
  · intro L n mem qs' has'
    rw [enqueued_queues] at has'
    rcases mems L n mem with old | ⟨rfl, here⟩
    · exact l.placed L n old qs' has'
    · rw [EvList.event_node, has] at has'
      cases has'
      exact here
  · intro x isLive qs' has' L mem
    rw [enqueued_queues] at has'
    rw [lists]
    rcases isLive with old | rfl
    · have was := l.queued x old qs' has' L mem
      split
      · exact mem_withFirst.mpr (.inr was)
      · exact was
    · rw [has] at has'
      cases has'
      rw [if_pos mem, mem_withFirst]
      exact .inl rfl
  · show (if (p.events e).timeout.isSome then e :: p.expirables else p.expirables).Nodup
    split
    · exact nodup_cons.mpr ⟨fun mem => new ((l.heap e).mp mem).1, l.heapNodup⟩
    · exact l.heapNodup
  · intro x
    show x ∈ (if (p.events e).timeout.isSome then e :: p.expirables else p.expirables) ↔
      (live x ∨ x = e) ∧ (p.events x).timeout.isSome
    by_cases here : x = e
    · subst here
      have notIn : x ∉ p.expirables := fun mem => new ((l.heap x).mp mem).1
      split <;> simp_all
    · have same := l.heap x
      split <;> simp_all
  · intro x isLive j iod
    rcases isLive with old | rfl
    · exact l.owned x old j iod
    · exact (own j iod).2
  · intro x isLive iod
    rcases isLive with old | rfl
    · exact l.timer x old iod
    · exact (timer iod).1
  · intro L
    rw [enqueued_owner, lists]
    split
    · next here => exact (l.withFirst_grouped (listed L here).2 (listed L here).1).1
    · exact l.grouped L
  · intro j active L
    rw [enqueued_owner, lists]
    by_cases here : L ∈ qs
    · rw [if_pos here, (l.withFirst_grouped (listed L here).2 (listed L here).1).2]
      by_cases own : j = i
      · subst own
        simp [enqueued, here]
      · rw [if_neg own, ← l.first j active L]
        simp [enqueued, own]
    · rw [if_neg here, ← l.first j active L]
      by_cases own : j = i
      · subst own
        simp [enqueued, here]
      · simp [enqueued, own]

end Npool

end Nmap.Nsock
