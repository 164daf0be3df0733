import Nmap.Nsock.Lists

/-!
# The books of a pool

Every struct of a pool has one role: it is on the free list, or a call under way has it, or it
waits in the lists for its completion; and each iod counts the events that wait on it. `run`
are the events whose call under way will take them off the lists, `held` those that never were
in a list, and `late` the iods of the events that are done but still counted.
-/

namespace Nmap.Nsock

open List Function

namespace Npool

variable {cfg : Config} {p q : Npool} {run held : List Nat} {late : List (Option Nat)} {e i : Nat}

/-- The event waits for its completion. -/
def Pending (p : Npool) (e : Nat) : Prop := (p.events e).eventDone = false

instance (p : Npool) : DecidablePred p.Pending := fun _ => inferInstanceAs (Decidable (_ = _))

theorem not_pending : ¬ p.Pending e ↔ (p.events e).eventDone = true := by
  rw [Pending, Bool.not_eq_false]

def Live (p : Npool) (run : List Nat) (e : Nat) : Prop := p.Pending e ∨ e ∈ run

def pendingOn (p : Npool) (i : Nat) : Finset Nat :=
  (Finset.range p.eventCount).filter fun e => p.Pending e ∧ (p.events e).iod = some i

/-- What each struct and each iod is used for -/
structure Roles (p : Npool) (run held : List Nat) : Prop where
  free : ∀ e ∈ p.freeEvents, e < p.eventCount ∧ ¬ p.Pending e ∧ e ∉ run ∧ e ∉ held
  freeNodup : p.freeEvents.Nodup
  heldDone : ∀ e ∈ held, e < p.eventCount ∧ ¬ p.Pending e ∧ e ∉ run
  heldNodup : held.Nodup
  running : ∀ e ∈ run, e < p.eventCount
  runNodup : run.Nodup
  unused : ∀ e, p.Pending e → e < p.eventCount
  waiting : ∀ e, p.Pending e → ∀ i, (p.events e).iod = some i → (p.iods i).state ≠ .deleted
  desc : ∀ e, p.Live run e → ∀ i, (p.events e).iod = some i → (p.events e).type = .pcapRead →
    (p.iods i).state ≠ .deleted → (p.iods i).pcapDesc.isSome
  activeNodup : p.activeIods.Nodup
  freeIodsNodup : p.freeIods.Nodup
  apart : ∀ i ∈ p.freeIods, i ∉ p.activeIods
  iodCount : ∀ i, i ∈ p.activeIods ∨ i ∈ p.freeIods → i < p.iodCount

/-- `iod->events_pending` counts the events that wait on the iod. -/
def Counts (p : Npool) (late : List (Option Nat)) : Prop :=
  ∀ i ∈ p.activeIods,
    (p.iods i).eventsPending = ((p.pendingOn i).card + late.count (some i) : Nat)

/-- The lists, the roles and the counts are right. -/
structure Sound (cfg : Config) (p : Npool) (run held : List Nat) (late : List (Option Nat)) :
    Prop where
  lists : Lists cfg p (p.Live run)
  roles : Roles p run held
  counts : p.Counts late

theorem Roles.mem_pendingOn (roles : Roles p run held) :
    e ∈ p.pendingOn i ↔ p.Pending e ∧ (p.events e).iod = some i := by
  rw [pendingOn, Finset.mem_filter, Finset.mem_range]
  exact and_iff_right_of_imp fun h => roles.unused e h.1

theorem Sound.none_pending (sound : Sound cfg p run held []) (active : i ∈ p.activeIods)
    (zero : (p.iods i).eventsPending = 0) (iod : (p.events e).iod = some i) : ¬ p.Pending e := by
  intro pending
  have counts := sound.counts i active
  rw [zero, count_nil, Nat.add_zero] at counts
  have empty : p.pendingOn i = ∅ := Finset.card_eq_zero.mp (by omega)
  have mem : e ∈ p.pendingOn i := sound.roles.mem_pendingOn.mpr ⟨pending, iod⟩
  rw [empty] at mem
  cases mem

theorem Sound.pending_of_count (sound : Sound cfg p run held []) (active : i ∈ p.activeIods)
    (some : (p.iods i).eventsPending ≠ 0) : ∃ e, p.Pending e ∧ (p.events e).iod = .some i := by
  have counts := sound.counts i active
  rw [count_nil, Nat.add_zero] at counts
  have positive : (p.pendingOn i).card ≠ 0 := fun zero => some (by rw [counts, zero]; rfl)
  obtain ⟨e, mem⟩ := Finset.card_ne_zero.mp positive
  exact ⟨e, sound.roles.mem_pendingOn.mp mem⟩

/-! ## Changes of one event -/

@[simp] theorem onEvent_events (f : Nevent → Nevent) (x : Nat) :
    (p.onEvent e f).events x = if x = e then f (p.events e) else p.events x := by
  show update p.events e (f (p.events e)) x = _
  rw [update_apply]

theorem pendingOn_congr (count : q.eventCount = p.eventCount)
    (pending : ∀ e, q.Pending e ↔ p.Pending e)
    (iod : ∀ e, p.Pending e → (q.events e).iod = (p.events e).iod) :
    q.pendingOn i = p.pendingOn i := by
  ext x
  rw [pendingOn, pendingOn, count, Finset.mem_filter, Finset.mem_filter, pending]
  refine and_congr_right fun _ => and_congr_right fun waits => ?_
  rw [iod x waits]

/-- A call under way takes an event over. -/
theorem Sound.hold (sound : Sound cfg p run held late) (pending : p.Pending e) (new : e ∉ run) :
    Sound cfg p (e :: run) held late := by
  have roles := sound.roles
  refine ⟨?_, ?_, sound.counts⟩
  · refine sound.lists.congr rfl rfl (fun _ _ => ⟨rfl, rfl, rfl⟩) (fun _ _ _ has => has) ?_
      sound.lists.first ?_
    · exact fun x live j iod => (sound.lists.owned x live j iod).2
    · intro x
      refine ⟨?_, fun live => live.imp id (mem_cons_of_mem e)⟩
      rintro (waits | mem)
      · exact .inl waits
      · rcases mem_cons.mp mem with rfl | mem
        · exact .inl pending
        · exact .inr mem
  · refine { roles with free := ?_, heldDone := ?_, running := ?_, runNodup := ?_, desc := ?_ }
    · intro x mem
      obtain ⟨small, done, notRun, notHeld⟩ := roles.free x mem
      refine ⟨small, done, ?_, notHeld⟩
      rw [mem_cons, not_or]
      refine ⟨?_, notRun⟩
      rintro rfl
      exact done pending
    · intro x mem
      obtain ⟨small, done, notRun⟩ := roles.heldDone x mem
      refine ⟨small, done, ?_⟩
      rw [mem_cons, not_or]
      refine ⟨?_, notRun⟩
      rintro rfl
      exact done pending
    · intro x mem
      rcases mem_cons.mp mem with rfl | mem
      · exact roles.unused x pending
      · exact roles.running x mem
    · exact nodup_cons.mpr ⟨new, roles.runNodup⟩
    · rintro x (waits | mem)
      · exact roles.desc x (.inl waits)
      · rcases mem_cons.mp mem with rfl | mem
        · exact roles.desc x (.inl pending)
        · exact roles.desc x (.inr mem)

/-- What may change in an event that a call under way has, or that is done -/
structure Harmless (p : Npool) (run : List Nat) (e : Nat) (f : Nevent → Nevent) : Prop where
  type : (f (p.events e)).type = (p.events e).type
  iod : (f (p.events e)).iod = (p.events e).iod
  timeout : (f (p.events e)).timeout = (p.events e).timeout
  done : ¬ p.Pending e → (f (p.events e)).eventDone = true
  allocated : e < p.eventCount
  owned : p.Pending e → e ∈ run

variable {f : Nevent → Nevent}

theorem Harmless.onEvent (harmless : Harmless p run e f) (x : Nat) :
    ((p.onEvent e f).events x).type = (p.events x).type ∧
      ((p.onEvent e f).events x).iod = (p.events x).iod ∧
      ((p.onEvent e f).events x).timeout = (p.events x).timeout := by
  rw [onEvent_events]
  by_cases here : x = e
  · subst here
    rw [if_pos rfl]
    exact ⟨harmless.type, harmless.iod, harmless.timeout⟩
  · rw [if_neg here]
    exact ⟨rfl, rfl, rfl⟩

variable {x : Nat}

theorem Harmless.pending (harmless : Harmless p run e f) (waits : (p.onEvent e f).Pending x) :
    p.Pending x := by
  rw [Pending, onEvent_events] at waits
  by_cases here : x = e
  · subst here
    rw [if_pos rfl] at waits
    by_contra done
    rw [harmless.done done] at waits
    cases waits
  · rwa [if_neg here] at waits

theorem Harmless.queues (harmless : Harmless p run e f) (x : Nat) :
    (p.onEvent e f).queues cfg x = p.queues cfg x := by
  obtain ⟨type, iod, -⟩ := harmless.onEvent x
  exact queues_congr type iod fun _ _ => rfl

theorem Harmless.lists {f : Nevent → Nevent} (harmless : Harmless p run e f)
    (lists : Lists cfg p (p.Live run)) : Lists cfg (p.onEvent e f) ((p.onEvent e f).Live run) := by
  refine lists.congr rfl rfl (fun x _ => harmless.onEvent x) ?_ ?_ lists.first ?_
  · intro x _ qs has
    rwa [harmless.queues] at has
  · exact fun x live j iod => (lists.owned x live j iod).2
  · intro x
    refine ⟨fun live => live.imp harmless.pending id, ?_⟩
    rintro (waits | mem)
    · by_cases here : x = e
      · exact .inr (here ▸ harmless.owned (here ▸ waits))
      · refine .inl ?_
        rw [Pending, onEvent_events, if_neg here]
        exact waits
    · exact .inr mem

theorem Harmless.roles {f : Nevent → Nevent} (harmless : Harmless p run e f)
    (roles : Roles p run held) : Roles (p.onEvent e f) run held := by
  refine { roles with free := ?_, heldDone := ?_, unused := ?_, waiting := ?_, desc := ?_ }
  · intro x mem
    obtain ⟨small, done, others⟩ := roles.free x mem
    exact ⟨small, fun waits => done (harmless.pending waits), others⟩
  · intro x mem
    obtain ⟨small, done, others⟩ := roles.heldDone x mem
    exact ⟨small, fun waits => done (harmless.pending waits), others⟩
  · exact fun x waits => roles.unused x (harmless.pending waits)
  · intro x waits j iod
    rw [(harmless.onEvent x).2.1] at iod
    exact roles.waiting x (harmless.pending waits) j iod
  · intro x live j iod type
    rw [(harmless.onEvent x).2.1] at iod
    rw [(harmless.onEvent x).1] at type
    exact roles.desc x (live.imp harmless.pending id) j iod type

theorem Sound.touch (sound : Sound cfg p run held late) (harmless : Harmless p run e f)
    (done : (f (p.events e)).eventDone = (p.events e).eventDone) :
    Sound cfg (p.onEvent e f) run held late := by
  refine ⟨harmless.lists sound.lists, harmless.roles sound.roles, ?_⟩
  intro j active
  have same : (p.onEvent e f).pendingOn j = p.pendingOn j := by
    refine pendingOn_congr rfl (fun x => ?_) fun x _ => (harmless.onEvent x).2.1
    rw [Pending, Pending, onEvent_events]
    by_cases here : x = e
    · subst here
      rw [if_pos rfl, done]
    · rw [if_neg here]
  rw [same]
  exact sound.counts j active

theorem Sound.finish (sound : Sound cfg p run held late) (harmless : Harmless p run e f)
    (pending : p.Pending e) (done : (f (p.events e)).eventDone = true) :
    Sound cfg (p.onEvent e f) run held ((p.events e).iod :: late) := by
  refine ⟨harmless.lists sound.lists, harmless.roles sound.roles, ?_⟩
  intro j active
  have counts := sound.counts j active
  have others : (p.onEvent e f).pendingOn j = (p.pendingOn j).erase e := by
    ext x
    rw [Finset.mem_erase, (harmless.roles sound.roles).mem_pendingOn, sound.roles.mem_pendingOn,
      (harmless.onEvent x).2.1, Pending, onEvent_events]
    by_cases here : x = e
    · subst here
      simp [done]
    · simp [here, Pending]
  change (p.iods j).eventsPending = _
  rw [counts, others]
  by_cases own : (p.events e).iod = some j
  · have mem : e ∈ p.pendingOn j := sound.roles.mem_pendingOn.mpr ⟨pending, own⟩
    have size := Finset.card_erase_add_one mem
    rw [own, count_cons_self]
    omega
  · have notMem : e ∉ p.pendingOn j := fun mem => own (sound.roles.mem_pendingOn.mp mem).2
    rw [Finset.erase_eq_of_notMem notMem, count_cons_of_ne own]

/-! ## Changes of the iods -/

theorem Lists.of_iff {live live' : Nat → Prop} (l : Lists cfg p live)
    (eqv : ∀ e, live' e ↔ live e) : Lists cfg p live' :=
  l.congr rfl rfl (fun _ _ => ⟨rfl, rfl, rfl⟩) (fun _ _ _ has => has)
    (fun e live j iod => (l.owned e live j iod).2) l.first eqv

/-- Two pools with the same lists, structs and iods but for counters, clocks and flags -/
structure Alike (p q : Npool) : Prop where
  lists : q.lists = p.lists
  heap : q.expirables = p.expirables
  events : q.events = p.events
  eventCount : q.eventCount = p.eventCount
  activeIods : q.activeIods = p.activeIods
  freeIods : q.freeIods = p.freeIods
  iodCount : q.iodCount = p.iodCount
  freeEvents : q.freeEvents = p.freeEvents
  first : ∀ i, (q.iods i).first = (p.iods i).first
  state : ∀ i, (q.iods i).state = (p.iods i).state
  pcapDesc : ∀ i, (q.iods i).pcapDesc = (p.iods i).pcapDesc

theorem Alike.refl (p : Npool) : Alike p p :=
  ⟨rfl, rfl, rfl, rfl, rfl, rfl, rfl, rfl, fun _ => rfl, fun _ => rfl, fun _ => rfl⟩

theorem Alike.pending (alike : Alike p q) (e : Nat) : q.Pending e ↔ p.Pending e := by
  rw [Pending, Pending, alike.events]

theorem Alike.onIod (p : Npool) (i : Nat) {f : Niod → Niod}
    (first : (f (p.iods i)).first = (p.iods i).first)
    (state : (f (p.iods i)).state = (p.iods i).state)
    (pcapDesc : (f (p.iods i)).pcapDesc = (p.iods i).pcapDesc) : Alike p (p.onIod i f) := by
  refine { Alike.refl p with first := ?_, state := ?_, pcapDesc := ?_ } <;> intro j <;>
    by_cases here : j = i <;> simp_all [Npool.onIod]

theorem Alike.onIodOf (p : Npool) (e : Nat) {f : Niod → Niod}
    (first : ∀ iod, (f iod).first = iod.first)
    (state : ∀ iod, (f iod).state = iod.state) (pcapDesc : ∀ iod, (f iod).pcapDesc = iod.pcapDesc) :
    Alike p (p.onIodOf e f) := by
  unfold Npool.onIodOf
  cases (p.events e).iod with
  | none => exact Alike.refl p
  | some i => exact Alike.onIod p i (first _) (state _) (pcapDesc _)

theorem Alike.trans {r : Npool} (one : Alike p q) (two : Alike q r) : Alike p r where
  lists := two.lists.trans one.lists
  heap := two.heap.trans one.heap
  events := two.events.trans one.events
  eventCount := two.eventCount.trans one.eventCount
  activeIods := two.activeIods.trans one.activeIods
  freeIods := two.freeIods.trans one.freeIods
  iodCount := two.iodCount.trans one.iodCount
  freeEvents := two.freeEvents.trans one.freeEvents
  first i := (two.first i).trans (one.first i)
  state i := (two.state i).trans (one.state i)
  pcapDesc i := (two.pcapDesc i).trans (one.pcapDesc i)

theorem Alike.queues (alike : Alike p q) (e : Nat) : q.queues cfg e = p.queues cfg e :=
  queues_congr (by rw [alike.events]) (by rw [alike.events]) fun i _ => alike.pcapDesc i

theorem Alike.pendingOn (alike : Alike p q) : q.pendingOn i = p.pendingOn i :=
  pendingOn_congr alike.eventCount alike.pending fun e _ => by rw [alike.events]

theorem Lists.alike {live : Nat → Prop} (l : Lists cfg p live) (alike : Alike p q) :
    Lists cfg q live := by
  refine l.congr alike.lists alike.heap ?_ ?_ ?_ ?_ fun _ => Iff.rfl
  · intro e _
    rw [alike.events]
    exact ⟨rfl, rfl, rfl⟩
  · intro e _ qs has
    rwa [alike.queues] at has
  · intro e live j iod
    rw [alike.activeIods]
    exact (l.owned e live j iod).2
  · intro j active L
    rw [alike.activeIods] at active
    rw [alike.first]
    exact l.first j active L

/-- The roles do not depend on the lists. -/
theorem Roles.congr (roles : Roles p run held) (events : q.events = p.events)
    (eventCount : q.eventCount = p.eventCount) (activeIods : q.activeIods = p.activeIods)
    (freeIods : q.freeIods = p.freeIods) (iodCount : q.iodCount = p.iodCount)
    (freeEvents : q.freeEvents = p.freeEvents)
    (state : ∀ i, (q.iods i).state = (p.iods i).state)
    (pcapDesc : ∀ i, (q.iods i).pcapDesc = (p.iods i).pcapDesc) : Roles q run held := by
  have pending : ∀ e, q.Pending e ↔ p.Pending e := by
    intro e
    rw [Pending, Pending, events]
  constructor
  · intro e
    rw [freeEvents, eventCount, pending]
    exact roles.free e
  · rw [freeEvents]
    exact roles.freeNodup
  · intro e
    rw [eventCount, pending]
    exact roles.heldDone e
  · exact roles.heldNodup
  · rw [eventCount]
    exact roles.running
  · exact roles.runNodup
  · intro e
    rw [eventCount, pending]
    exact roles.unused e
  · intro e
    rw [pending, events]
    intro waits j iod
    rw [state]
    exact roles.waiting e waits j iod
  · intro e live j
    rw [events, state, pcapDesc]
    exact roles.desc e (live.imp (pending e).mp id) j
  · rw [activeIods]
    exact roles.activeNodup
  · rw [freeIods]
    exact roles.freeIodsNodup
  · rw [freeIods, activeIods]
    exact roles.apart
  · rw [activeIods, freeIods, iodCount]
    exact roles.iodCount

theorem Sound.alike (sound : Sound cfg p run held late) (alike : Alike p q)
    {late' : List (Option Nat)} (counts : q.Counts late') : Sound cfg q run held late' := by
  refine ⟨?_, ?_, counts⟩
  · exact (sound.lists.alike alike).of_iff fun e => or_congr_left (alike.pending e)
  · exact sound.roles.congr alike.events alike.eventCount alike.activeIods alike.freeIods
      alike.iodCount alike.freeEvents alike.state alike.pcapDesc

theorem Sound.alike_same (sound : Sound cfg p run held late) (alike : Alike p q)
    (pending : ∀ i, (q.iods i).eventsPending = (p.iods i).eventsPending) :
    Sound cfg q run held late := by
  refine sound.alike alike fun i active => ?_
  rw [alike.activeIods] at active
  rw [pending, alike.pendingOn]
  exact sound.counts i active

theorem onIodOf_eventsPending (f : Niod → Niod) (j : Nat) :
    ((p.onIodOf e f).iods j).eventsPending =
      if (p.events e).iod = some j then (f (p.iods j)).eventsPending
      else (p.iods j).eventsPending := by
  unfold onIodOf
  cases iod : (p.events e).iod with
  | none => rfl
  | some i =>
    by_cases here : j = i
    · subst here
      simp [onIod]
    · have other : ¬ i = j := fun eq => here eq.symm
      simp [onIod, here, other]

theorem countDispatched_alike (p : Npool) (e : Nat) : Alike p (p.countDispatched e) :=
  Alike.trans (q := { p with eventsPending := p.eventsPending - 1 }) { Alike.refl p with }
    (Alike.onIodOf _ e (fun _ => rfl) (fun _ => rfl) fun _ => rfl)

theorem countDispatched_eventsPending (p : Npool) (e j : Nat) :
    ((p.countDispatched e).iods j).eventsPending =
      if (p.events e).iod = some j then (p.iods j).eventsPending - 1
      else (p.iods j).eventsPending :=
  onIodOf_eventsPending (p := { p with eventsPending := p.eventsPending - 1 }) _ j

/-- `event_dispatch_and_delete` takes the event out of the count. -/
theorem Sound.countDispatched (sound : Sound cfg p run held ((p.events e).iod :: late)) :
    Sound cfg (p.countDispatched e) run held late := by
  have alike := countDispatched_alike p e
  refine sound.alike alike fun j active => ?_
  rw [alike.activeIods] at active
  have counts := sound.counts j active
  rw [countDispatched_eventsPending, alike.pendingOn]
  by_cases own : (p.events e).iod = some j
  · rw [own, count_cons_self] at counts
    rw [if_pos own]
    omega
  · rw [count_cons_of_ne own] at counts
    rw [if_neg own, counts]

/-! ## An event leaves the lists, a struct becomes free -/

variable {qs : List EvList}

theorem dequeued_pending (x : Nat) :
    (p.dequeued e qs).Pending x ↔ p.Pending x := by
  rw [Pending, Pending]
  by_cases here : x = e
  · subst here
    simp [dequeued]
  · simp [dequeued, here]

/-- `nevent_unref` of an event that is done -/
theorem Sound.unref (sound : Sound cfg p (e :: run) held late) (done : ¬ p.Pending e)
    (unref : p.neventUnref cfg e = some q) : Sound cfg q run held late := by
  have roles := sound.roles
  have nodup := nodup_cons.mp roles.runNodup
  rw [neventUnref_eq] at unref
  obtain ⟨qs, has, rfl⟩ := Option.map_eq_some_iff.mp unref
  refine ⟨?_, ?_, ?_⟩
  · refine (sound.lists.dequeue has).of_iff fun x => ?_
    rw [Live, Live, dequeued_pending, mem_cons]
    constructor
    · rintro (waits | mem)
      · refine ⟨.inl waits, ?_⟩
        rintro rfl
        exact done waits
      · refine ⟨.inr (.inr mem), ?_⟩
        rintro rfl
        exact nodup.1 mem
    · rintro ⟨waits | rfl | mem, other⟩
      · exact .inl waits
      · exact absurd rfl other
      · exact .inr mem
  · have small := roles.running e mem_cons_self
    constructor
    · intro x mem
      change x ∈ p.freeEvents ++ [e] at mem
      rw [dequeued_pending]
      rcases mem_append.mp mem with old | last
      · obtain ⟨bound, waits, notRun, notHeld⟩ := roles.free x old
        exact ⟨bound, waits, fun mem => notRun (mem_cons_of_mem e mem), notHeld⟩
      · obtain rfl := mem_singleton.mp last
        exact ⟨small, done, nodup.1, fun mem => (roles.heldDone x mem).2.2 mem_cons_self⟩
    · show (p.freeEvents ++ [e]).Nodup
      refine nodup_append.mpr ⟨roles.freeNodup, nodup_singleton e, ?_⟩
      rintro x mem y last rfl
      obtain rfl := mem_singleton.mp last
      exact (roles.free x mem).2.2.1 mem_cons_self
    · intro x mem
      rw [dequeued_pending]
      obtain ⟨bound, waits, notRun⟩ := roles.heldDone x mem
      exact ⟨bound, waits, fun mem => notRun (mem_cons_of_mem e mem)⟩
    · exact roles.heldNodup
    · exact fun x mem => roles.running x (mem_cons_of_mem e mem)
    · exact nodup.2
    · intro x
      rw [dequeued_pending]
      exact roles.unused x
    · intro x
      rw [dequeued_pending, dequeued_iod]
      intro waits j iod
      rw [dequeued_iods]
      exact roles.waiting x waits j iod
    · intro x live j
      rw [dequeued_iod, dequeued_type, dequeued_iods]
      rw [Live, dequeued_pending] at live
      exact roles.desc x (live.imp id (mem_cons_of_mem e)) j
    · exact roles.activeNodup
    · exact roles.freeIodsNodup
    · exact roles.apart
    · exact roles.iodCount
  · intro j active
    have same : (p.dequeued e qs).pendingOn j = p.pendingOn j :=
      pendingOn_congr rfl dequeued_pending fun x _ => dequeued_iod x
    rw [same, dequeued_iods]
    exact sound.counts j active

theorem Sound.release (sound : Sound cfg p run (e :: held) late) :
    Sound cfg { p with freeEvents := p.freeEvents ++ [e] } run held late := by
  have roles := sound.roles
  have nodup := nodup_cons.mp roles.heldNodup
  have mine := roles.heldDone e mem_cons_self
  refine ⟨?_, ?_, sound.counts⟩
  · exact sound.lists.congr rfl rfl (fun _ _ => ⟨rfl, rfl, rfl⟩) (fun _ _ _ has => has)
      (fun x live j iod => (sound.lists.owned x live j iod).2) sound.lists.first fun _ => Iff.rfl
  · refine { roles with free := ?_, freeNodup := ?_, heldDone := ?_, heldNodup := nodup.2 }
    · intro x mem
      rcases mem_append.mp mem with old | last
      · obtain ⟨bound, waits, notRun, notHeld⟩ := roles.free x old
        exact ⟨bound, waits, notRun, fun mem => notHeld (mem_cons_of_mem e mem)⟩
      · obtain rfl := mem_singleton.mp last
        exact ⟨mine.1, mine.2.1, mine.2.2, nodup.1⟩
    · refine nodup_append.mpr ⟨roles.freeNodup, nodup_singleton e, ?_⟩
      rintro x mem y last rfl
      obtain rfl := mem_singleton.mp last
      exact (roles.free x mem).2.2.2 mem_cons_self
    · exact fun x mem => roles.heldDone x (mem_cons_of_mem e mem)

/-! ## A new event -/

/-- The pool in which a struct is taken for an event that is not counted yet -/
def taken (p : Npool) (nse : Nevent) : Npool :=
  { p with
    events := update p.events p.nextStruct nse
    freeEvents := p.freeEvents.tail
    eventCount := if p.freeEvents = [] then p.eventCount + 1 else p.eventCount }

theorem takeStruct_eq (nse : Nevent) : p.takeStruct nse = (p.taken nse).onIodOf p.nextStruct
    fun iod => { iod with eventsPending := iod.eventsPending + 1 } := by
  unfold takeStruct taken
  cases p.freeEvents <;> simp

theorem taken_events (nse : Nevent) (x : Nat) :
    (p.taken nse).events x = if x = p.nextStruct then nse else p.events x := by
  show update p.events p.nextStruct nse x = _
  rw [update_apply]

theorem takeStruct_alike (p : Npool) (nse : Nevent) : Alike (p.taken nse) (p.takeStruct nse) := by
  rw [takeStruct_eq]
  exact Alike.onIodOf _ _ (fun _ => rfl) (fun _ => rfl) fun _ => rfl

theorem takeStruct_events (nse : Nevent) (x : Nat) :
    (p.takeStruct nse).events x = if x = p.nextStruct then nse else p.events x := by
  rw [(takeStruct_alike p nse).events, taken_events]

theorem Roles.nextStruct (roles : Roles p run held) :
    ¬ p.Pending p.nextStruct ∧ p.nextStruct ∉ run ∧ p.nextStruct ∉ held := by
  unfold Npool.nextStruct
  cases free : p.freeEvents with
  | nil =>
    show ¬ p.Pending p.eventCount ∧ p.eventCount ∉ run ∧ p.eventCount ∉ held
    refine ⟨fun waits => ?_, fun mem => ?_, fun mem => ?_⟩
    · exact absurd (roles.unused _ waits) (lt_irrefl _)
    · exact absurd (roles.running _ mem) (lt_irrefl _)
    · exact absurd (roles.heldDone _ mem).1 (lt_irrefl _)
  | cons e rest =>
    have mem : e ∈ p.freeEvents := by
      rw [free]
      exact mem_cons_self
    exact (roles.free e mem).2

theorem Roles.taken_bounds (roles : Roles p run held) (nse : Nevent) :
    p.nextStruct < (p.taken nse).eventCount ∧ p.eventCount ≤ (p.taken nse).eventCount ∧
      ∀ x ∈ (p.taken nse).freeEvents, x ∈ p.freeEvents ∧ x ≠ p.nextStruct := by
  unfold taken Npool.nextStruct
  cases free : p.freeEvents with
  | nil => simp
  | cons e rest =>
    have nodup := roles.freeNodup
    rw [free] at nodup
    have small : e < p.eventCount := (roles.free e (by rw [free]; exact mem_cons_self)).1
    refine ⟨small, le_refl _, ?_⟩
    intro x mem
    refine ⟨mem_cons_of_mem e mem, ?_⟩
    rintro rfl
    exact (nodup_cons.mp nodup).1 mem

theorem Roles.taken_live (roles : Roles p run held) (nse : Nevent) (live : p.Live run x) :
    (p.taken nse).events x = p.events x := by
  have new := roles.nextStruct
  rw [taken_events, if_neg]
  rintro rfl
  exact live.elim new.1 new.2.1

variable {nse : Nevent}

theorem Roles.taken_pending (roles : Roles p run held) (done : nse.eventDone = true) (x : Nat) :
    (p.taken nse).Pending x ↔ p.Pending x := by
  have new := roles.nextStruct
  rw [Pending, Pending, taken_events]
  by_cases here : x = p.nextStruct
  · rw [if_pos here, done, here, not_pending.mp new.1]
  · rw [if_neg here]

theorem Sound.taken_lists (sound : Sound cfg p run held late) (nse : Nevent) :
    Lists cfg (p.taken nse) (p.Live run) := by
  refine sound.lists.congr rfl rfl ?_ ?_ ?_ sound.lists.first fun _ => Iff.rfl
  · intro x live
    rw [sound.roles.taken_live nse live]
    exact ⟨rfl, rfl, rfl⟩
  · intro x live qs has
    have same := sound.roles.taken_live nse live
    have queues : (p.taken nse).queues cfg x = p.queues cfg x :=
      queues_congr (by rw [same]) (by rw [same]) fun _ _ => rfl
    rwa [queues] at has
  · exact fun x live j iod => (sound.lists.owned x live j iod).2

/-- The roles while the new struct has none -/
theorem Roles.taken (roles : Roles p run held) (done : nse.eventDone = true) :
    Roles (p.taken nse) run (p.nextStruct :: held) := by
  have new := roles.nextStruct
  obtain ⟨small, more, free⟩ := roles.taken_bounds nse
  have pending := roles.taken_pending done
  constructor
  · intro x mem
    obtain ⟨old, other⟩ := free x mem
    obtain ⟨bound, waits, notRun, notHeld⟩ := roles.free x old
    rw [pending, mem_cons, not_or]
    exact ⟨bound.trans_le more, waits, notRun, other, notHeld⟩
  · exact roles.freeNodup.tail
  · intro x mem
    rw [pending]
    rcases mem_cons.mp mem with rfl | mem
    · exact ⟨small, new.1, new.2.1⟩
    · obtain ⟨bound, waits, notRun⟩ := roles.heldDone x mem
      exact ⟨bound.trans_le more, waits, notRun⟩
  · exact nodup_cons.mpr ⟨new.2.2, roles.heldNodup⟩
  · exact fun x mem => (roles.running x mem).trans_le more
  · exact roles.runNodup
  · exact fun x waits => (roles.unused x ((pending x).mp waits)).trans_le more
  · intro x waits
    have was := (pending x).mp waits
    rw [roles.taken_live nse (.inl was)]
    exact roles.waiting x was
  · intro x live
    have was := live.imp (pending x).mp id
    rw [roles.taken_live nse was]
    exact roles.desc x was
  · exact roles.activeNodup
  · exact roles.freeIodsNodup
  · exact roles.apart
  · exact roles.iodCount

theorem takeStruct_eventsPending (p : Npool) (nse : Nevent) (j : Nat) :
    ((p.takeStruct nse).iods j).eventsPending =
      if nse.iod = some j then (p.iods j).eventsPending + 1 else (p.iods j).eventsPending := by
  rw [takeStruct_eq, onIodOf_eventsPending, taken_events, if_pos rfl]
  rfl

/-- An event that is done before it is added is counted, and in no list. -/
theorem Sound.take_done (sound : Sound cfg p run held late) (done : nse.eventDone = true) :
    Sound cfg (p.takeStruct nse) run (p.nextStruct :: held) (nse.iod :: late) := by
  have roles := sound.roles.taken done
  have new := sound.roles.nextStruct
  have pending := sound.roles.taken_pending done
  have base : Sound cfg (p.taken nse) run (p.nextStruct :: held) late := by
    refine ⟨(sound.taken_lists nse).of_iff fun x => or_congr_left (pending x), roles, ?_⟩
    intro j active
    have same : (p.taken nse).pendingOn j = p.pendingOn j := by
      ext x
      rw [roles.mem_pendingOn, sound.roles.mem_pendingOn, pending]
      refine and_congr_right fun waits => ?_
      rw [taken_events, if_neg]
      rintro rfl
      exact new.1 waits
    rw [same]
    exact sound.counts j active
  refine base.alike (takeStruct_alike p nse) fun j active => ?_
  rw [(takeStruct_alike p nse).activeIods] at active
  have counts := base.counts j active
  rw [takeStruct_eventsPending, (takeStruct_alike p nse).pendingOn]
  change (p.iods j).eventsPending = _ at counts
  by_cases own : nse.iod = some j
  · rw [if_pos own, own, count_cons_self, counts]
    omega
  · rw [if_neg own, count_cons_of_ne own, counts]

/-- A struct without a role begins to wait. -/
theorem Roles.activate (roles : Roles p run (e :: held))
    (own : ∀ j, nse.iod = some j → (p.iods j).state ≠ .deleted ∧
      (nse.type = .pcapRead → (p.iods j).pcapDesc.isSome)) :
    Roles (p.onEvent e fun _ => nse) run held := by
  have nodup := nodup_cons.mp roles.heldNodup
  have mine := roles.heldDone e mem_cons_self
  have others : ∀ x, x ≠ e → (p.onEvent e fun _ => nse).events x = p.events x := by
    intro x other
    rw [onEvent_events, if_neg other]
  have pending : ∀ x, x ≠ e → ((p.onEvent e fun _ => nse).Pending x ↔ p.Pending x) := by
    intro x other
    rw [Pending, Pending, others x other]
  constructor
  · intro x mem
    obtain ⟨bound, waits, notRun, notHeld⟩ := roles.free x mem
    rw [mem_cons, not_or] at notHeld
    rw [pending x notHeld.1]
    exact ⟨bound, waits, notRun, notHeld.2⟩
  · exact roles.freeNodup
  · intro x mem
    have other : x ≠ e := by
      rintro rfl
      exact nodup.1 mem
    rw [pending x other]
    exact roles.heldDone x (mem_cons_of_mem e mem)
  · exact nodup.2
  · exact roles.running
  · exact roles.runNodup
  · intro x waits
    by_cases here : x = e
    · rw [here]
      exact mine.1
    · exact roles.unused x ((pending x here).mp waits)
  · intro x waits j iod
    by_cases here : x = e
    · rw [onEvent_events, if_pos here] at iod
      exact (own j iod).1
    · rw [others x here] at iod
      exact roles.waiting x ((pending x here).mp waits) j iod
  · intro x live j iod type
    by_cases here : x = e
    · rw [onEvent_events, if_pos here] at iod type
      exact fun _ => (own j iod).2 type
    · rw [others x here] at iod type
      exact roles.desc x (live.imp (pending x here).mp id) j iod type
  · exact roles.activeNodup
  · exact roles.freeIodsNodup
  · exact roles.apart
  · exact roles.iodCount

/-- What the callers of `event_new` make sure of -/
structure Startable (p : Npool) (nse : Nevent) : Prop where
  owned : ∀ j, nse.iod = some j → nse.type ≠ .timer ∧ j ∈ p.activeIods ∧
    (p.iods j).state ≠ .deleted ∧ (nse.type = .pcapRead → (p.iods j).pcapDesc.isSome)
  timer : nse.iod = none → nse.type = .timer

/-- A new event goes to its lists. -/
theorem Sound.take_enqueue (sound : Sound cfg p run held late) (waits : nse.eventDone = false)
    (startable : p.Startable nse) (own : ∀ j, nse.iod = some j → j = i)
    (has : (p.takeStruct nse).queues cfg p.nextStruct = some qs) :
    Sound cfg ((p.takeStruct nse).enqueued p.nextStruct i qs) run held late := by
  have alike := takeStruct_alike p nse
  have new := sound.roles.nextStruct
  have event : (p.takeStruct nse).events p.nextStruct = nse := by
    rw [takeStruct_events, if_pos rfl]
  have lists : Lists cfg (p.takeStruct nse) (p.Live run) := (sound.taken_lists nse).alike alike
  have notLive : ¬ p.Live run p.nextStruct := fun live => live.elim new.1 new.2.1
  have pending : ∀ x, (p.takeStruct nse).Pending x ↔ p.Pending x ∨ x = p.nextStruct := by
    intro x
    rw [Pending, Pending, takeStruct_events]
    by_cases here : x = p.nextStruct
    · simp [here, waits]
    · simp [here]
  have roles : Roles (p.taken nse) run held := by
    have done : Roles (p.taken { nse with eventDone := true }) run (p.nextStruct :: held) :=
      sound.roles.taken rfl
    have idle : Roles ((p.taken { nse with eventDone := true }).onEvent p.nextStruct fun _ => nse)
        run held := done.activate fun j iod => (startable.owned j iod).2.2
    refine idle.congr ?_ rfl rfl rfl rfl rfl (fun _ => rfl) fun _ => rfl
    show update p.events p.nextStruct nse = update (update _ _ _) _ _
    rw [update_idem]
  refine ⟨?_, ?_, ?_⟩
  · refine (lists.enqueue notLive has ?_ ?_).of_iff fun x => ?_
    · intro j iod
      rw [event] at iod
      rw [event, alike.activeIods]
      obtain ⟨type, active, -⟩ := startable.owned j iod
      exact ⟨own j iod, type, active⟩
    · intro iod
      rw [event] at iod
      have timer := startable.timer iod
      rw [event]
      refine ⟨timer, ?_⟩
      rw [queues, event, timer] at has
      exact (Option.some.inj has).symm
    · show (p.takeStruct nse).Pending x ∨ x ∈ run ↔ _
      rw [pending]
      exact or_right_comm
  · refine roles.congr alike.events alike.eventCount alike.activeIods alike.freeIods
      alike.iodCount alike.freeEvents ?_ ?_
    · intro j
      rw [enqueued_iods]
      exact alike.state j
    · intro j
      rw [enqueued_iods]
      exact alike.pcapDesc j
  · intro j active
    change j ∈ (p.takeStruct nse).activeIods at active
    rw [alike.activeIods] at active
    have counts := sound.counts j active
    have same : ((p.takeStruct nse).enqueued p.nextStruct i qs).pendingOn j =
        (p.takeStruct nse).pendingOn j := rfl
    rw [same, enqueued_iods, takeStruct_eventsPending, alike.pendingOn]
    have mems : ∀ x, x ∈ (p.taken nse).pendingOn j ↔
        x ∈ p.pendingOn j ∨ x = p.nextStruct ∧ nse.iod = some j := by
      intro x
      rw [roles.mem_pendingOn, sound.roles.mem_pendingOn, ← alike.pending, pending, taken_events]
      by_cases here : x = p.nextStruct
      · simp [here, new.1]
      · simp [here]
    by_cases mine : nse.iod = some j
    · have grown : (p.taken nse).pendingOn j = insert p.nextStruct (p.pendingOn j) := by
        ext x
        rw [mems, Finset.mem_insert]
        tauto
      have notMem : p.nextStruct ∉ p.pendingOn j :=
        fun mem => new.1 (sound.roles.mem_pendingOn.mp mem).1
      rw [if_pos mine, grown, Finset.card_insert_of_notMem notMem, counts]
      omega
    · have same : (p.taken nse).pendingOn j = p.pendingOn j := by
        ext x
        rw [mems]
        tauto
      rw [if_neg mine, same, counts]

/-! ## Iods come and go -/

/-- Queues change only where an iod gets a pcap handle. -/
theorem queues_mono (events : q.events = p.events)
    (desc : ∀ i, (p.events e).iod = some i → (p.events e).type = .pcapRead →
      (q.iods i).pcapDesc = (p.iods i).pcapDesc ∨ (q.iods i).pcapDesc = none)
    (has : q.queues cfg e = some qs) : p.queues cfg e = some qs := by
  unfold queues at has ⊢
  rw [events] at has
  cases type : (p.events e).type with
  | pcapRead =>
    rw [type] at has
    dsimp only at has ⊢
    split at has
    · next hack => rwa [if_pos hack]
    · next hack =>
        rw [if_neg hack]
        cases iod : (p.events e).iod with
        | none =>
          rw [iod] at has
          cases has
        | some i =>
          rw [iod] at has
          change ((q.iods i).pcapDesc).map _ = _ at has
          rcases desc i iod type with same | gone
          · rwa [same] at has
          · rw [gone] at has
            cases has
  | _ =>
    rw [type] at has
    exact has

theorem Sound.first_of_idle (sound : Sound cfg p run held late)
    (idle : ∀ e, p.Live run e → (p.events e).iod ≠ some i) (L : EvList) :
    firstWith p.owner (some i) (p.lists L) = none :=
  firstWith_eq_none.mpr fun n mem => idle n.event (sound.lists.listed L n mem)

/-- An iod is made anew. -/
theorem Sound.renew (sound : Sound cfg p run held []) {state : IodState} {freeIods : List Nat}
    {count : Nat} (out : i ∉ p.activeIods) (free : freeIods.Sublist p.freeIods)
    (other : i ∉ freeIods)
    (small : i < count) (more : p.iodCount ≤ count) :
    Sound cfg { p with
      iods := update p.iods i (Niod.new state), activeIods := p.activeIods ++ [i]
      freeIods := freeIods, iodCount := count } run held [] := by
  have roles := sound.roles
  have idle : ∀ e, p.Live run e → (p.events e).iod ≠ some i :=
    fun e live iod => out (sound.lists.owned e live i iod).2
  have kept : ∀ j, j ≠ i → update p.iods i (Niod.new state) j = p.iods j :=
    fun j ne => update_of_ne ne _ _
  have ofLive : ∀ e, p.Live run e → ∀ j, (p.events e).iod = some j → j ≠ i := by
    rintro e live j iod rfl
    exact idle e live iod
  refine ⟨?_, ?_, ?_⟩
  · refine sound.lists.congr rfl rfl (fun _ _ => ⟨rfl, rfl, rfl⟩) ?_ ?_ ?_ fun _ => Iff.rfl
    · intro e live qs has
      refine queues_mono (by rfl) (fun j iod _ => .inl ?_) has
      show (update p.iods i (Niod.new state) j).pcapDesc = _
      rw [kept j (ofLive e live j iod)]
    · exact fun e live j iod => mem_append_left _ (sound.lists.owned e live j iod).2
    · intro j active L
      by_cases here : j = i
      · subst here
        rw [sound.first_of_idle idle]
        show (update p.iods j (Niod.new state) j).first L = none
        rw [update_self]
        rfl
      · have old : j ∈ p.activeIods :=
          (mem_append.mp active).resolve_right fun last => here (mem_singleton.mp last)
        show (update p.iods i (Niod.new state) j).first L = _
        rw [kept j here]
        exact sound.lists.first j old L
  · refine { roles with waiting := ?_, desc := ?_, activeNodup := ?_, freeIodsNodup := ?_, apart := ?_, iodCount := ?_ }
    · intro e waits j iod
      show (update p.iods i (Niod.new state) j).state ≠ _
      rw [kept j (ofLive e (.inl waits) j iod)]
      exact roles.waiting e waits j iod
    · intro e live j iod
      show _ → (update p.iods i (Niod.new state) j).state ≠ _ →
        (update p.iods i (Niod.new state) j).pcapDesc.isSome
      rw [kept j (ofLive e live j iod)]
      exact roles.desc e live j iod
    · refine nodup_append.mpr ⟨roles.activeNodup, nodup_singleton i, ?_⟩
      rintro j mem k last rfl
      obtain rfl := mem_singleton.mp last
      exact out mem
    · exact roles.freeIodsNodup.sublist free
    · intro j mem active
      rcases mem_append.mp active with old | last
      · exact roles.apart j (free.subset mem) old
      · rw [mem_singleton.mp last] at mem
        exact other mem
    · intro j mem
      rcases mem with active | mem
      · rcases mem_append.mp active with old | last
        · exact (roles.iodCount j (.inl old)).trans_le more
        · rw [mem_singleton.mp last]
          exact small
      · exact (roles.iodCount j (.inr (free.subset mem))).trans_le more
  · intro j active
    show (update p.iods i (Niod.new state) j).eventsPending = _
    by_cases here : j = i
    · subst here
      have none : p.pendingOn j = ∅ := by
        rw [Finset.eq_empty_iff_forall_notMem]
        intro e mem
        obtain ⟨waits, iod⟩ := roles.mem_pendingOn.mp mem
        exact idle e (.inl waits) iod
      rw [update_self]
      show _ = ((((p.pendingOn j).card + List.count (some j) []) : Nat) : Int)
      rw [none]
      rfl
    · rw [kept j here]
      have old : j ∈ p.activeIods :=
        (mem_append.mp active).resolve_right fun last => here (mem_singleton.mp last)
      exact sound.counts j old

theorem Sound.iodNew (sound : Sound cfg p run held []) (state : IodState) :
    Sound cfg (p.iodNew state) run held [] := by
  have roles := sound.roles
  unfold Npool.iodNew
  split
  · next free =>
      have big : p.iodCount ∉ p.activeIods :=
        fun mem => absurd (roles.iodCount _ (.inl mem)) (lt_irrefl _)
      exact sound.renew big (Sublist.refl p.freeIods) (by rw [free]; exact not_mem_nil)
        (Nat.lt_succ_self p.iodCount) (Nat.le_succ _)
  · next i rest free =>
      have mem : i ∈ p.freeIods := by
        rw [free]
        exact mem_cons_self
      have nodup := roles.freeIodsNodup
      rw [free] at nodup
      refine sound.renew (roles.apart i mem) ?_ (nodup_cons.mp nodup).1
        (roles.iodCount i (.inr mem)) (le_refl _)
      rw [free]
      exact sublist_cons_self i rest

/-- A change of the state and the pcap handle of an iod -/
theorem Sound.onIod_desc (sound : Sound cfg p run held late) {f : Niod → Niod}
    (first : (f (p.iods i)).first = (p.iods i).first)
    (count : (f (p.iods i)).eventsPending = (p.iods i).eventsPending)
    (queues : ∀ e, p.Live run e → ∀ qs, (p.onIod i f).queues cfg e = some qs →
      p.queues cfg e = some qs)
    (waiting : ∀ e, p.Pending e → (p.events e).iod = some i → (f (p.iods i)).state ≠ .deleted)
    (desc : (f (p.iods i)).state ≠ .deleted → (p.iods i).pcapDesc.isSome →
      (f (p.iods i)).pcapDesc.isSome)
    (state : (f (p.iods i)).state ≠ .deleted → (p.iods i).state ≠ .deleted) :
    Sound cfg (p.onIod i f) run held late := by
  have roles := sound.roles
  have kept : ∀ j, j ≠ i → (p.onIod i f).iods j = p.iods j :=
    fun j ne => update_of_ne ne _ _
  have here : (p.onIod i f).iods i = f (p.iods i) := update_self ..
  refine ⟨?_, ?_, ?_⟩
  · refine sound.lists.congr rfl rfl (fun _ _ => ⟨rfl, rfl, rfl⟩) queues ?_ ?_ fun _ => Iff.rfl
    · exact fun e live j iod => (sound.lists.owned e live j iod).2
    · intro j active L
      by_cases same : j = i
      · subst same
        rw [here, first]
        exact sound.lists.first j active L
      · rw [kept j same]
        exact sound.lists.first j active L
  · refine { roles with waiting := ?_, desc := ?_ }
    · intro e waits j iod
      by_cases same : j = i
      · subst same
        rw [here]
        exact waiting e waits iod
      · rw [kept j same]
        exact roles.waiting e waits j iod
    · intro e live j iod type
      by_cases same : j = i
      · subst same
        rw [here]
        exact fun stays => desc stays (roles.desc e live j iod type (state stays))
      · rw [kept j same]
        exact roles.desc e live j iod type
  · intro j active
    by_cases same : j = i
    · subst same
      rw [here, count]
      exact sound.counts j active
    · rw [kept j same]
      exact sound.counts j active

/-- `nsock_pcap_open`, for an iod in use that had no pcap handle -/
theorem Sound.pcapOpen (sound : Sound cfg p run held late) (desc : Int)
    (inUse : (p.iods i).state ≠ .deleted) (without : (p.iods i).pcapDesc = none) :
    Sound cfg (p.pcapOpen i desc) run held late := by
  refine sound.onIod_desc rfl rfl ?_ ?_ (fun _ _ => rfl) id
  · intro e live qs has
    refine queues_mono (by rfl) (fun j iod type => .inl ?_) has
    have other : j ≠ i := by
      rintro rfl
      have has := sound.roles.desc e live j iod type inUse
      rw [without] at has
      cases has
    simp [onIod, other]
  · exact fun e waits iod => sound.roles.waiting e waits i iod

/-- `nsock_iod_delete` once no event waits on the iod -/
theorem Sound.iodDeleted (sound : Sound cfg p run held []) (active : i ∈ p.activeIods)
    (zero : (p.iods i).eventsPending = 0) : Sound cfg (p.iodDeleted i) run held [] := by
  refine sound.onIod_desc rfl rfl ?_ ?_ (fun stays => absurd rfl stays)
    fun stays => absurd rfl stays
  · intro e _ qs has
    refine queues_mono (by rfl) (fun j _ _ => ?_) has
    by_cases here : j = i
    · subst here
      simp [onIod]
    · simp [onIod, here]
  · exact fun e waits iod => absurd waits (sound.none_pending active zero iod)

/-- An engine recycles a deleted iod between two calls. -/
theorem Sound.reapIod (sound : Sound cfg p [] held []) (active : i ∈ p.activeIods)
    (deleted : (p.iods i).state = .deleted) : Sound cfg (p.reapIod i) [] held [] := by
  have roles := sound.roles
  have idle : ∀ e, p.Live [] e → ∀ j, (p.events e).iod = some j → j ≠ i := by
    rintro e (waits | mem) j iod rfl
    · exact roles.waiting e waits j iod deleted
    · cases mem
  refine ⟨?_, ?_, ?_⟩
  · refine sound.lists.congr rfl rfl (fun _ _ => ⟨rfl, rfl, rfl⟩) (fun _ _ _ has => has) ?_ ?_
      fun _ => Iff.rfl
    · intro e live j iod
      exact (mem_erase_of_ne (idle e live j iod)).mpr (sound.lists.owned e live j iod).2
    · exact fun j mem => sound.lists.first j (mem_of_mem_erase mem)
  · refine { roles with activeNodup := ?_, freeIodsNodup := ?_, apart := ?_, iodCount := ?_ }
    · exact roles.activeNodup.erase i
    · refine nodup_cons.mpr ⟨fun mem => roles.apart i mem active, roles.freeIodsNodup⟩
    · intro j mem again
      rw [Npool.reapIod, roles.activeNodup.mem_erase_iff] at again
      rcases mem_cons.mp mem with rfl | mem
      · exact again.1 rfl
      · exact roles.apart j mem again.2
    · intro j mem
      refine roles.iodCount j ?_
      rcases mem with mem | mem
      · exact .inl (mem_of_mem_erase mem)
      · rcases mem_cons.mp mem with rfl | mem
        · exact .inl active
        · exact .inr mem
  · exact fun j mem => sound.counts j (mem_of_mem_erase mem)

/-! ## `process_event` works on an event -/

theorem Sound.unhold (sound : Sound cfg p (e :: run) held late) (pending : p.Pending e) :
    Sound cfg p run held late := by
  have roles := sound.roles
  refine ⟨?_, ?_, sound.counts⟩
  · refine sound.lists.of_iff fun x => ?_
    rw [Live, Live, mem_cons]
    constructor
    · rintro (waits | mem)
      · exact .inl waits
      · exact .inr (.inr mem)
    · rintro (waits | rfl | mem)
      · exact .inl waits
      · exact .inl pending
      · exact .inr mem
  · refine { roles with free := ?_, heldDone := ?_, running := ?_, runNodup := ?_, desc := ?_ }
    · intro x mem
      obtain ⟨bound, done, notRun, notHeld⟩ := roles.free x mem
      exact ⟨bound, done, fun mem => notRun (mem_cons_of_mem e mem), notHeld⟩
    · intro x mem
      obtain ⟨bound, done, notRun⟩ := roles.heldDone x mem
      exact ⟨bound, done, fun mem => notRun (mem_cons_of_mem e mem)⟩
    · exact fun x mem => roles.running x (mem_cons_of_mem e mem)
    · exact (nodup_cons.mp roles.runNodup).2
    · exact fun x live => roles.desc x (live.imp id (mem_cons_of_mem e))

/-- What the work on an event leaves as it was -/
structure Nevent.SameRequest (nse nse' : Nevent) : Prop where
  request : nse'.request = nse.request
  use : nse'.use = nse.use
  timeout : nse'.timeout = nse.timeout

theorem Nevent.SameRequest.type {nse' : Nevent} (same : Nevent.SameRequest nse nse') :
    nse'.type = nse.type := congrArg Request.type same.request

theorem Nevent.SameRequest.iod {nse' : Nevent} (same : Nevent.SameRequest nse nse') :
    nse'.iod = nse.iod := congrArg Request.iod same.request

/-- Two pools that differ in the answers to one event -/
structure Advanced (p q : Npool) (e : Nat) : Prop where
  alike : Alike (p.onEvent e fun _ => q.events e) q
  same : Nevent.SameRequest (p.events e) (q.events e)
  counts : ∀ i, (q.iods i).eventsPending = (p.iods i).eventsPending

theorem Advanced.refl (p : Npool) (e : Nat) : Advanced p p e := by
  have same : p.onEvent e (fun _ => p.events e) = p := by
    rw [Npool.onEvent, update_eq_self]
  refine ⟨?_, ⟨rfl, rfl, rfl⟩, fun _ => rfl⟩
  rw [same]
  exact Alike.refl p

theorem Advanced.onEvent (adv : Advanced p q e)
    (same : Nevent.SameRequest (q.events e) (f (q.events e))) :
    Advanced p (q.onEvent e f) e := by
  have event : (q.onEvent e f).events e = f (q.events e) := by
    rw [onEvent_events, if_pos rfl]
  refine ⟨?_, ?_, adv.counts⟩
  · refine { adv.alike with events := ?_ }
    rw [event]
    show update q.events e _ = update p.events e _
    rw [adv.alike.events]
    exact update_idem ..
  · rw [event]
    exact ⟨same.request.trans adv.same.request, same.use.trans adv.same.use,
      same.timeout.trans adv.same.timeout⟩

theorem Advanced.handleIo (p : Npool) (e : Nat) (r : IoResult) : Advanced p (p.handleIo e r) e := by
  unfold Npool.handleIo
  have one : Advanced p (p.onEvent e fun nse => { nse with
      iobuf := nse.iobuf ++ r.data, status := r.status, eventDone := r.done
      eof := nse.eof || r.eof }) e := (Advanced.refl p e).onEvent ⟨rfl, rfl, rfl⟩
  dsimp only
  split
  · have flag := Alike.onIodOf (p.onEvent e fun nse => { nse with
      iobuf := nse.iobuf ++ r.data, status := r.status, eventDone := r.done
      eof := nse.eof || r.eof }) e (f := fun iod => { iod with ioeof := true }) (fun _ => rfl)
      (fun _ => rfl) fun _ => rfl
    refine ⟨?_, ?_, fun i => ?_⟩
    · have both := one.alike.trans flag
      rwa [← flag.events] at both
    · rw [flag.events]
      exact one.same
    · rw [onIodOf_eventsPending, ite_self]
      rfl
  · exact one

theorem Advanced.handleAnswer (p : Npool) (e : Nat) (io : Option IoResult) :
    Advanced p (p.handleAnswer e io) e := by
  cases io with
  | none => exact Advanced.refl p e
  | some r =>
    rw [Npool.handleAnswer]
    split
    · exact Advanced.refl p e
    · exact Advanced.handleIo p e r

theorem Advanced.advance (p : Npool) (e : Nat) (io : Option IoResult) :
    Advanced p (p.advance e io) e := by
  have work := Advanced.handleAnswer p e io
  unfold Npool.advance
  split
  · exact Advanced.refl p e
  · dsimp only
    split
    · exact work.onEvent ⟨rfl, rfl, rfl⟩
    · exact work

theorem Advanced.events_ne (adv : Advanced p q e) (other : x ≠ e) :
    q.events x = p.events x := by
  rw [adv.alike.events, onEvent_events, if_neg other]

theorem Advanced.pending_ne (adv : Advanced p q e) (other : x ≠ e) :
    q.Pending x ↔ p.Pending x := by
  rw [Pending, Pending, adv.events_ne other]

theorem Sound.advanced (sound : Sound cfg p run held late) (adv : Advanced p q e) (mem : e ∈ run)
    (pending : p.Pending e) :
    Sound cfg q run held (if q.Pending e then late else (p.events e).iod :: late) := by
  have harmless : Harmless p run e fun _ => q.events e :=
    { type := adv.same.type, iod := adv.same.iod, timeout := adv.same.timeout
      done := fun done => absurd pending done
      allocated := sound.roles.unused e pending, owned := fun _ => mem }
  by_cases waits : q.Pending e
  · rw [if_pos waits]
    refine (sound.touch harmless ?_).alike_same adv.alike adv.counts
    show (q.events e).eventDone = _
    rw [waits, pending]
  · rw [if_neg waits]
    exact (sound.finish harmless pending (not_pending.mp waits)).alike_same adv.alike adv.counts

end Npool

end Nmap.Nsock
