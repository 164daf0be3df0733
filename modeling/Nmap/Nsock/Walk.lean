import Nmap.Nsock.Steps

/-!
# How `nsock_iod_delete` comes to the events of its iod (`nsock_iod.c`)

The function saves where the events of the iod begin in each list, and in the list it is in the
node that comes next. While handlers run in between, an event of the iod that waited when the
function was called still stands behind the node that was saved for its list, as long as no
such node was taken off the list.
-/

namespace Nmap.Nsock

open List

variable {cfg : Config} {p q r : Npool} {s t : Run} {e x n m : Nat} {gone : Option Nat}
  {d : Deletion} {below : List Nat}

/-! ## What is saved -/

/-- Where a list stands in the order of the loops -/
def EvList.rank : EvList → Nat
  | .connectEvents => 0
  | .readEvents => 1
  | .writeEvents => 2
  | .pcapReadEvents => 3

theorem EvList.rank_inj {L L' : EvList} (same : L.rank = L'.rank) : L = L' := by
  cases L <;> cases L' <;> first | rfl | cases same

theorem EvList.rank_of_next? {L L' : EvList} (next : L.next? = some L') : L'.rank = L.rank + 1 := by
  cases L <;> cases next <;> rfl

/-- The node from which the function will go through a list -/
def Deletion.saved (d : Deletion) (L : EvList) : Option Lnode :=
  if L = d.list then d.current else if d.list.rank < L.rank then d.starts L else none

/-- An event stands behind the node that is saved for its list. The list of the
`nodeq_pcap` does not count. -/
def Covered (p : Npool) (d : Deletion) (below : List Nat) (e : Nat) : Prop :=
  ∀ L, L ≠ .pcapReadEvents → L.node e ∈ p.lists L →
    ∃ a, d.saved L = some a ∧ FromOn a (L.node e) (p.lists L) ∧ p.Live below a.event ∧
      p.owner a = some d.nsi

/-- The events of the iod that waited when the function was called are covered. -/
structure Walks (p : Npool) (n : Nat) (d : Deletion) (below : List Nat) : Prop where
  since : d.since ≤ n
  covered : ∀ e, p.Pending e → (p.events e).iod = some d.nsi → (p.events e).use < d.since →
    Covered p d below e

/-- So it is for each `nsock_iod_delete` under way. -/
def Walking (p : Npool) (n : Nat) : List Frame → Prop
  | [] => True
  | .iodDelete d :: rest => Walks p n d (running rest) ∧ Walking p n rest
  | _ :: rest => Walking p n rest

/-! ## What a step does to the lists -/

/-- What a step does to the events that waited before it: `gone` is the event that leaves its
lists, and events from number `n` on are new. -/
structure Evolves (p q : Npool) (n : Nat) (gone : Option Nat) : Prop where
  old : ∀ e, q.Pending e → (q.events e).use < n →
    p.Pending e ∧ q.events e = p.events e ∧ gone ≠ some e
  live : ∀ e, p.Pending e → gone ≠ some e → q.Pending e
  back : ∀ e, q.Pending e → (q.events e).use < n → ∀ L, L.node e ∈ q.lists L → L.node e ∈ p.lists L
  lists : ∀ L a b, FromOn a b (p.lists L) → gone ≠ some a.event → gone ≠ some b.event →
    FromOn a b (q.lists L)
  owner : ∀ L, ∀ a ∈ p.lists L, gone ≠ some a.event → q.owner a = p.owner a

theorem Evolves.refl (p : Npool) (n : Nat) : Evolves p p n none :=
  ⟨fun _ waits _ => ⟨waits, rfl, nofun⟩, fun _ waits _ => waits, fun _ _ _ _ mem => mem,
    fun _ _ _ walk _ _ => walk, fun _ _ _ _ => rfl⟩

theorem Evolves.same (ev : Evolves p q n gone) (pending : ∀ x, r.Pending x ↔ q.Pending x)
    (events : ∀ x, q.Pending x → r.events x = q.events x)
    (iod : ∀ x, (r.events x).iod = (q.events x).iod) (lists : r.lists = q.lists) :
    Evolves p r n gone := by
  have use : ∀ x, r.Pending x → (r.events x).use < n → (q.events x).use < n := by
    intro x waits small
    rwa [events x ((pending x).mp waits)] at small
  constructor
  · intro x waits small
    have was := (pending x).mp waits
    rw [events x was]
    exact ev.old x was (use x waits small)
  · exact fun x waits kept => (pending x).mpr (ev.live x waits kept)
  · intro x waits small L mem
    rw [lists] at mem
    exact ev.back x ((pending x).mp waits) (use x waits small) L mem
  · rw [lists]
    exact ev.lists
  · intro L a mem kept
    exact (iod a.event).trans (ev.owner L a mem kept)

theorem Evolves.alike (ev : Evolves p q n gone) (alike : Npool.Alike q r) :
    Evolves p r n gone :=
  ev.same alike.pending (fun x _ => by rw [alike.events]) (fun x => by rw [alike.events]) alike.lists

/-- `event_delete` -/
theorem Evolves.eventDelete (ev : Evolves p s.pool n gone) (done : ¬ s.pool.Pending e) :
    Evolves p (s.eventDelete e).pool n gone := by
  refine ev.same ?_ ?_ ?_ rfl
  · intro x
    rw [Npool.Pending, Npool.Pending]
    show ((s.pool.onEvent e Nevent.deleted).events x).eventDone = false ↔ _
    rw [Npool.onEvent_events]
    by_cases here : x = e
    · rw [if_pos here, here, Npool.not_pending.mp done]
      exact Iff.rfl
    · rw [if_neg here]
  · intro x waits
    show (s.pool.onEvent e Nevent.deleted).events x = _
    rw [Npool.onEvent_events, if_neg]
    rintro rfl
    exact done waits
  · intro x
    show ((s.pool.onEvent e Nevent.deleted).events x).iod = _
    rw [Npool.onEvent_events]
    by_cases here : x = e
    · rw [if_pos here, here]
      rfl
    · rw [if_neg here]

/-- `event_dispatch_and_delete` -/
theorem Evolves.dispatch (ev : Evolves p s.pool n gone) (done : ¬ s.pool.Pending e)
    (notify : Bool) : Evolves p (s.eventDispatchAndDelete e notify).pool n gone := by
  have alike := Npool.countDispatched_alike s.pool e
  have counted := ev.alike alike
  unfold Run.eventDispatchAndDelete
  cases notify with
  | true => exact counted
  | false =>
    have done' : ¬ (s.pool.countDispatched e).Pending e :=
      fun waits => done ((alike.pending e).mp waits)
    exact Evolves.eventDelete (s := { s with
      pool := s.pool.countDispatched e
      deliveries := s.deliveries ++ [⟨(s.pool.events e).use, false, s.pool.events e⟩] })
      counted done'

/-- An event that is done leaves the lists. -/
theorem Evolves.unlinked (un : p.Unlinked q e) (done : ¬ p.Pending e) : Evolves p q n (some e) := by
  have other : ∀ x, p.Pending x → x ≠ e := by
    rintro x waits rfl
    exact done waits
  constructor
  · intro x waits _
    have was := (un.pending x).mp waits
    have ne := other x was
    exact ⟨was, un.others x ne, fun eq => ne (Option.some.inj eq).symm⟩
  · exact fun x waits _ => (un.pending x).mpr waits
  · intro x _ _ L mem
    rcases un.lists L with same | erased
    · rwa [same] at mem
    · rw [erased] at mem
      exact mem_of_mem_erase mem
  · intro L a b walk notA notB
    rcases un.lists L with same | erased
    · rwa [same]
    · rw [erased]
      refine walk.erase ?_ ?_
      · rintro rfl
        exact notA (by rw [EvList.event_node])
      · rintro rfl
        exact notB (by rw [EvList.event_node])
  · intro L a _ kept
    have ne : a.event ≠ e := fun eq => kept (by rw [eq])
    show (q.events a.event).iod = _
    rw [un.others _ ne]
    rfl

/-- `nevent_delete` of an event that waits -/
theorem Evolves.neventDelete (waits : s.pool.Pending e) {notify : Bool}
    (alive : (s.neventDelete cfg e notify).fault = none) :
    Evolves s.pool (s.neventDelete cfg e notify).pool n (some e) := by
  unfold Run.neventDelete at alive ⊢
  have notDone : ¬ (s.pool.events e).eventDone = true := by
    rw [← Npool.not_pending]
    exact not_not_intro waits
  rw [if_neg notDone] at alive ⊢
  have others : ∀ x, x ≠ e → (s.pool.handleCancelled e).events x = s.pool.events x :=
    fun x other => Function.update_of_ne other _ _
  have idle := s.pool.handleCancelled_idle e
  cases unref : (s.pool.handleCancelled e).neventUnref cfg e with
  | none =>
    rw [unref] at alive
    cases alive
  | some q =>
    have un := Npool.neventUnref_unlinked unref
    have ev : Evolves (s.pool.handleCancelled e) q n (some e) := .unlinked un idle
    have both : Evolves s.pool q n (some e) := by
      constructor
      · intro x still small
        obtain ⟨was, same, kept⟩ := ev.old x still small
        have ne : x ≠ e := fun eq => kept (by rw [eq])
        rw [others x ne] at same
        refine ⟨?_, same, kept⟩
        rw [Npool.Pending, others x ne] at was
        exact was
      · intro x was kept
        have ne : x ≠ e := fun eq => kept (by rw [eq])
        refine ev.live x ?_ kept
        rw [Npool.Pending, others x ne]
        exact was
      · exact ev.back
      · exact ev.lists
      · intro L a mem kept
        have ne : a.event ≠ e := fun eq => kept (by rw [eq])
        refine (ev.owner L a mem kept).trans ?_
        show ((s.pool.handleCancelled e).events a.event).iod = _
        rw [others _ ne]
        rfl
    exact Evolves.dispatch (s := { s with pool := q }) both
      (fun still => idle ((un.pending e).mp still)) notify

/-- The work on a new event -/
theorem Evolves.advanced (ev : Evolves p q n gone) (adv : Npool.Advanced q r e)
    (new : n ≤ (q.events e).use) (idle : ¬ p.Pending e) : Evolves p r n gone := by
  have lists : r.lists = q.lists := adv.alike.lists
  have other : ∀ x, (r.events x).use < n → x ≠ e := by
    rintro x small rfl
    rw [adv.same.use] at small
    omega
  constructor
  · intro x waits small
    have ne := other x small
    rw [adv.events_ne ne] at small ⊢
    exact ev.old x ((adv.pending_ne ne).mp waits) small
  · intro x waits kept
    have ne : x ≠ e := by
      rintro rfl
      exact idle waits
    exact (adv.pending_ne ne).mpr (ev.live x waits kept)
  · intro x waits small L mem
    have ne := other x small
    rw [adv.events_ne ne] at small
    rw [lists] at mem
    exact ev.back x ((adv.pending_ne ne).mp waits) small L mem
  · rw [lists]
    exact ev.lists
  · intro L a mem kept
    refine Eq.trans ?_ (ev.owner L a mem kept)
    show (r.events a.event).iod = (q.events a.event).iod
    by_cases here : a.event = e
    · rw [here]
      exact adv.same.iod
    · rw [adv.events_ne here]

/-- `process_event` of a new event -/
theorem Evolves.processEvent (ev : Evolves p s.pool n gone) (new : n ≤ (s.pool.events e).use)
    (idle : ¬ p.Pending e) (io : Option IoResult) :
    Evolves p (s.processEvent e io).pool n gone := by
  have advanced := ev.advanced (Npool.Advanced.advance s.pool e io) new idle
  unfold Run.processEvent
  dsimp only
  split
  · next done =>
      exact Evolves.dispatch (s := { s with pool := s.pool.advance e io }) advanced
        (Npool.not_pending.mpr done) true
  · exact advanced

/-- A new event -/
theorem Evolves.started (sound : s.Sound cfg) {nse : Nevent} (use : nse.use = s.requests.length)
    (started : Run.Started cfg s nse t) (alive : t.fault = none) :
    Evolves s.pool t.pool s.requests.length none := by
  have idle := sound.pool.roles.nextStruct.1
  obtain ⟨-, -, -, others⟩ := sound.pool.roles.takeStruct_old nse
  have event : (s.pool.takeStruct nse).events s.pool.nextStruct = nse := by
    rw [Npool.takeStruct_events, if_pos rfl]
  have lists : (s.pool.takeStruct nse).lists = s.pool.lists := (Npool.takeStruct_alike s.pool nse).lists
  have old : ∀ x, ((s.pool.takeStruct nse).events x).use < s.requests.length →
      x ≠ s.pool.nextStruct := by
    rintro x small rfl
    rw [event, use] at small
    exact absurd small (lt_irrefl _)
  have ofPending : ∀ x, s.pool.Pending x → x ≠ s.pool.nextStruct := by
    rintro x waits rfl
    exact idle waits
  have listed : ∀ L, ∀ a ∈ s.pool.lists L, a.event ≠ s.pool.nextStruct := by
    intro L a mem eq
    have live := sound.pool.lists.listed L a mem
    rw [eq] at live
    exact live.elim idle sound.pool.roles.nextStruct.2.1
  have taken : Evolves s.pool (s.pool.takeStruct nse) s.requests.length none := by
    constructor
    · intro x waits small
      have same := others x (old x small)
      rw [Npool.Pending, same] at waits
      exact ⟨waits, same, fun none => by cases none⟩
    · intro x waits _
      rw [Npool.Pending, others x (ofPending x waits)]
      exact waits
    · rw [lists]
      exact fun _ _ _ _ mem => mem
    · rw [lists]
      exact fun _ _ _ walk _ _ => walk
    · intro L a mem _
      show ((s.pool.takeStruct nse).events a.event).iod = _
      rw [others _ (listed L a mem)]
      rfl
  have enqueued : ∀ i qs, Evolves s.pool ((s.pool.takeStruct nse).enqueued s.pool.nextStruct i qs)
      s.requests.length none := by
    intro i qs
    refine ⟨taken.old, taken.live, ?_, ?_, taken.owner⟩
    · intro x waits small L mem
      change L.node x ∈ (if L ∈ qs then _ else _) at mem
      refine taken.back x waits small L ?_
      split at mem
      · refine (Npool.mem_withFirst.mp mem).resolve_left fun eq => ?_
        exact old x small (EvList.node_inj eq)
      · exact mem
    · intro L a b walk notA notB
      have walk' := taken.lists L a b walk notA notB
      show FromOn a b (if L ∈ qs then _ else _)
      split
      · exact walk'.mono Npool.sublist_withFirst
      · exact walk'
  cases started with
  | immediate done =>
    refine Evolves.dispatch (s := Run.push _ _) taken ?_ true
    show ¬ (s.pool.takeStruct nse).Pending _
    rw [Npool.not_pending, event]
    exact done
  | queued waits own has => exact enqueued _ _
  | added waits own has io =>
    refine Evolves.processEvent (s := Run.push _ _) (enqueued _ _) ?_ idle io
    show _ ≤ ((s.pool.takeStruct nse).events _).use
    rw [event, use]
  | failed fault =>
    rw [fault] at alive
    cases alive

/-! ## Coverage is kept -/

theorem Covered.evolve (covered : Covered p d below e) (ev : Evolves p q n gone)
    (waits : q.Pending e) (old : (q.events e).use < n)
    (safe : ∀ L a, L ≠ .pcapReadEvents → d.saved L = some a → gone = some a.event →
      p.Live below a.event → FromOn a (L.node e) (p.lists L) → False) : Covered q d below e := by
  intro L notPcap mem
  obtain ⟨-, -, kept⟩ := ev.old e waits old
  obtain ⟨a, saved, walk, live, owner⟩ := covered L notPcap (ev.back e waits old L mem)
  have keptA : gone ≠ some a.event := fun eq => safe L a notPcap saved eq live walk
  refine ⟨a, saved, ?_, ?_, (ev.owner L a walk.start_mem keptA).trans owner⟩
  · refine ev.lists L a _ walk keptA ?_
    rw [EvList.event_node]
    exact kept
  · exact live.imp (fun waits => ev.live _ waits keptA) id

theorem Walks.evolve (walks : Walks p n d below) (ev : Evolves p q n gone) (more : n ≤ m)
    (safe : ∀ L a e, L ≠ .pcapReadEvents → d.saved L = some a → gone = some a.event →
      p.Live below a.event → p.Pending e → gone ≠ some e → (p.events e).iod = some d.nsi →
      FromOn a (L.node e) (p.lists L) → False) : Walks q m d below where
  since := walks.since.trans more
  covered e waits iod use := by
    have small : (q.events e).use < n := use.trans_le walks.since
    obtain ⟨was, same, kept⟩ := ev.old e waits small
    rw [same] at iod use
    refine (walks.covered e was iod use).evolve ev waits small ?_
    exact fun L a notPcap saved eq live walk => safe L a e notPcap saved eq live was kept iod walk

theorem Walking.evolve {stack : List Frame} (walking : Walking p n stack) (ev : Evolves p q n gone)
    (more : n ≤ m)
    (safe : ∀ d, .iodDelete d ∈ stack → ∀ L a e, L ≠ .pcapReadEvents → d.saved L = some a →
      gone = some a.event → p.Live (running stack) a.event → p.Pending e → gone ≠ some e →
      (p.events e).iod = some d.nsi → FromOn a (L.node e) (p.lists L) → False) :
    Walking q m stack := by
  induction stack with
  | nil => trivial
  | cons f rest ih =>
    have sub : ∀ x, x ∈ running rest → x ∈ running (f :: rest) := by
      intro x mem
      obtain ⟨g, isG, eq⟩ := mem_filterMap.mp mem
      exact mem_filterMap.mpr ⟨g, mem_cons_of_mem f isG, eq⟩
    have later : Walking p n rest → Walking q m rest := by
      intro walking
      refine ih walking fun d mem L a e notPcap saved eq live => ?_
      exact safe d (mem_cons_of_mem f mem) L a e notPcap saved eq (live.imp id (sub _))
    cases f with
    | iodDelete d =>
      refine ⟨?_, later walking.2⟩
      refine walking.1.evolve ev more fun L a e notPcap saved eq live => ?_
      exact safe d mem_cons_self L a e notPcap saved eq (live.imp id (sub _))
    | _ => exact later walking

theorem Walking.evolve_none {stack : List Frame} (walking : Walking p n stack)
    (ev : Evolves p q n none) (more : n ≤ m) : Walking q m stack :=
  walking.evolve ev more nofun

theorem Walking.plain {stack : List Frame} (walking : Walking p n stack) {f : Frame}
    (plain : ∀ d, f ≠ .iodDelete d) : Walking p n (f :: stack) := by
  cases f with
  | iodDelete d => exact absurd rfl (plain d)
  | _ => exact walking

theorem Walking.none {stack : List Frame} (none : ∀ d, .iodDelete d ∉ stack) :
    Walking p n stack := by
  induction stack with
  | nil => trivial
  | cons f rest ih =>
    refine Walking.plain (ih fun d mem => none d (mem_cons_of_mem f mem)) ?_
    rintro d rfl
    exact none d mem_cons_self

theorem Walking.dispatch (walking : Walking q m s.stack) (e : Nat) (notify : Bool) :
    Walking q m (s.eventDispatchAndDelete e notify).stack := by
  cases notify <;> exact walking

theorem Walking.neventDelete (walking : Walking q m s.stack) (e : Nat) (notify : Bool) :
    Walking q m (s.neventDelete cfg e notify).stack := by
  unfold Run.neventDelete
  split
  · exact walking
  · split
    · next p' _ => exact Walking.dispatch (s := { s with pool := p' }) walking e notify
    · exact walking

theorem Walking.processEvent (walking : Walking q m s.stack) (e : Nat) (io : Option IoResult) :
    Walking q m (s.processEvent e io).stack := by
  unfold Run.processEvent
  dsimp only
  split
  · exact walking
  · exact walking

/-! ## The walk itself -/

/-- The walk goes on behind an event of the iod. -/
theorem Covered.next {live : Nat → Prop} (covered : Covered p d below e)
    (lists : Npool.Lists cfg p live)
    (alive : ∀ x, live x → p.Live below x) {a : Lnode} (current : d.current = some a)
    (event : lnodeNevent a = some x) (other : e ≠ x) (iod : (p.events e).iod = some d.nsi) :
    Covered p { d with current := p.lnodeNext a } below e := by
  intro L notPcap mem
  obtain ⟨b, saved, walk, liveB, owner⟩ := covered L notPcap mem
  by_cases here : L = d.list
  · have same : b = a := by
      unfold Deletion.saved at saved
      rw [if_pos here, current] at saved
      exact (Option.some.inj saved).symm
    subst same
    have listed := walk.start_mem
    have node : b = .nodeqIo x := by
      cases b with
      | nodeqIo y => rw [show y = x from Option.some.inj event]
      | nodeqPcap y => cases event
    have ne : L.node e ≠ b := by
      intro eq
      refine other ?_
      have events := congrArg Lnode.event eq
      rw [EvList.event_node, node] at events
      exact events
    obtain ⟨c, next, walk'⟩ := walk.next (lists.nodup L) ne
    have memC := nextOf_mem next
    refine ⟨c, ?_, walk', alive _ (lists.listed L c memC), ?_⟩
    · show (if L = d.list then p.lnodeNext b else _) = _
      rw [if_pos here, lists.lnodeNext_eq listed, next]
    · have keys : p.owner (L.node e) = p.owner b := by
        rw [owner, Npool.owner, EvList.event_node]
        exact iod
      exact ((lists.grouped L).next_key (lists.nodup L) walk keys next ne).trans owner
  · refine ⟨b, ?_, walk, liveB, owner⟩
    unfold Deletion.saved at saved ⊢
    rw [if_neg here] at saved ⊢
    exact saved

theorem Covered.nextList (covered : Covered p d below e) {L' : EvList}
    (next : d.list.next? = some L')
    (through : ∀ L a, L ≠ .pcapReadEvents → d.current = some a → a ∈ p.lists L →
      p.owner a ≠ some d.nsi) :
    Covered p { d with list := L', current := d.starts L' } below e := by
  intro L notPcap mem
  obtain ⟨b, saved, walk, liveB, owner⟩ := covered L notPcap mem
  refine ⟨b, ?_, walk, liveB, owner⟩
  unfold Deletion.saved at saved ⊢
  dsimp only
  by_cases here : L = d.list
  · rw [if_pos here] at saved
    exact absurd owner (through L b notPcap saved walk.start_mem)
  · rw [if_neg here] at saved
    split at saved
    · next later =>
        by_cases now : L = L'
        · rw [if_pos now, ← now]
          exact saved
        · have rank := EvList.rank_of_next? next
          have other : L.rank ≠ L'.rank := fun eq => now (EvList.rank_inj eq)
          have later' : L'.rank < L.rank := by omega
          rw [if_neg now, if_pos later']
          exact saved
    · cases saved

theorem Covered.last (covered : Covered p d below e) (last : d.list = .pcapReadEvents) {L : EvList}
    (notPcap : L ≠ .pcapReadEvents) : L.node e ∉ p.lists L := by
  intro mem
  obtain ⟨b, saved, -⟩ := covered L notPcap mem
  unfold Deletion.saved at saved
  rw [last, if_neg notPcap, if_neg] at saved
  · cases saved
  · cases L <;> simp [EvList.rank]

/-- `nsock_iod_delete` begins. -/
theorem Walks.start (sound : s.Sound cfg) {nsi : Nat} (active : nsi ∈ s.pool.activeIods)
    (notify : Bool) : Walks s.pool s.requests.length
      { nsi := nsi, notify := notify, list := .connectEvents
        current := (s.pool.iods nsi).first .connectEvents, starts := (s.pool.iods nsi).first
        since := s.requests.length } (running s.stack) where
  since := le_refl _
  covered e waits iod _ := by
    intro L notPcap mem
    have first := sound.pool.lists.first nsi active L
    have owner : s.pool.owner (L.node e) = some nsi := by
      rw [Npool.owner, EvList.event_node]
      exact iod
    cases found : firstWith s.pool.owner (some nsi) (s.pool.lists L) with
    | none => exact absurd owner (firstWith_eq_none.mp found _ mem)
    | some a =>
      refine ⟨a, ?_, fromOn_first found mem owner, ?_, firstWith_key found⟩
      · rw [found] at first
        unfold Deletion.saved
        cases L with
        | connectEvents => exact first
        | _ => exact first
      · exact sound.pool.lists.listed L a (firstWith_mem found)

end Nmap.Nsock
