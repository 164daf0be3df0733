import Nmap.Nsock.Steps

/-!
# Structs on the free list (`nsock_event.c`, `nsock_core.c`)

A struct on `free_events` may be handed out by `event_new`. `nsock_pool_add_event` and the two
loops of the engine put a struct there once its handler has returned and `event_delete` was
called; `nevent_delete` does so before it calls the handler.
-/

namespace Nmap.Nsock

open List Option

variable {cfg : Config} {s t : Run} {e : Nat} {i : Input}

/-! ## The property -/

/-- A struct is free only once the handler of its last use is through and its event deleted. -/
def Run.FreeIsOver (s : Run) : Prop :=
  ∀ e ∈ s.pool.freeEvents, e ∉ handling s.stack ∧ (s.pool.events e).use ∈ s.ended

/-- Every event that was started and not dispatched still waits, in the lists of its type and,
if it expires, in the heap. -/
def Run.NoneLost (cfg : Config) (s : Run) : Prop :=
  ∀ u < s.requests.length, u ∉ s.deliveries.map Delivery.use →
    ∃ e, s.pool.Pending e ∧ (s.pool.events e).use = u ∧
      s.requests[u]? = some (s.pool.events e).request ∧
      (∃ qs, s.pool.queues cfg e = some qs ∧ ∀ L ∈ qs, L.node e ∈ s.pool.lists L) ∧
      ((s.pool.events e).timeout.isSome → e ∈ s.pool.expirables)

/-- A handler sees its event as it was when it was called, and each event is dispatched with
the data it was started with. -/
def Run.OwnData (s : Run) : Prop :=
  (∀ e seen, .handler e seen ∈ s.stack → s.pool.events e = seen) ∧
    ∀ d ∈ s.deliveries, d.seen.use = d.use ∧ s.requests[d.use]? = some d.seen.request

def Run.NoneTwice (s : Run) : Prop := (s.deliveries.map Delivery.use).Nodup

/-- What is expected of the free list and of the dispatches -/
def Run.Recycles (cfg : Config) (s : Run) : Prop :=
  s.FreeIsOver ∧ s.NoneLost cfg ∧ s.OwnData ∧ s.NoneTwice

/-! ## The condition -/

/-- The event that a step hands to `nevent_delete`, and whether its handler is to be notified -/
def Run.neventDeleted (s : Run) : Input → Option (Nat × Bool)
  | .cancel id notify =>
    ((Npool.getEventIdType id).bind fun type => s.pool.findEvent id type).map fun e => (e, notify)
  | .resume _ =>
    match s.stack with
    | .iodDelete d :: _ =>
      ((d.current.bind lnodeNevent).filter fun e => (s.pool.events e).iod = some d.nsi).map
        fun e => (e, d.notify)
    | _ => none
  | _ => none

theorem Run.neventDeleted_resume {d : Deletion} {rest : List Frame} {io : Option IoResult}
    (top : s.stack = .iodDelete d :: rest) (event : d.current.bind lnodeNevent = some e)
    (own : (s.pool.events e).iod = some d.nsi) :
    s.neventDeleted (.resume io) = some (e, d.notify) := by
  unfold Run.neventDeleted
  simp [top, event, Option.filter, own]

/-- `nevent_delete` notifies no handler of an event that waits. -/
def Run.Quiet (s : Run) (i : Input) : Prop :=
  ∀ e, s.neventDeleted i = some (e, true) → ¬ s.pool.Pending e

/-! ## Handlers run on top of the call that has their event -/

/-- Each handler stands on the call that will put its struct on the free list. -/
def Direct : List Frame → Prop
  | [] => True
  | f :: rest => (∀ e, f.handled? = some e →
      ∃ g, rest.head? = some g ∧ (g.run? = some e ∨ g.held? = some e)) ∧ Direct rest

theorem Direct.owned {stack : List Frame} (direct : Direct stack) (mem : e ∈ handling stack) :
    e ∈ running stack ∨ e ∈ holding stack := by
  induction stack with
  | nil => cases mem
  | cons f rest ih =>
    obtain ⟨g, isG, handled⟩ := mem_filterMap.mp mem
    rcases mem_cons.mp isG with rfl | below
    · obtain ⟨h, top, own⟩ := direct.1 e handled
      have belongs : h ∈ g :: rest := mem_cons_of_mem g (mem_of_mem_head? top)
      exact own.imp (fun run => mem_filterMap.mpr ⟨h, belongs, run⟩)
        fun held => mem_filterMap.mpr ⟨h, belongs, held⟩
    · have later := ih direct.2 (mem_filterMap.mpr ⟨g, below, handled⟩)
      refine later.imp (fun run => ?_) fun held => ?_
      · obtain ⟨h, isH, eq⟩ := mem_filterMap.mp run
        exact mem_filterMap.mpr ⟨h, mem_cons_of_mem f isH, eq⟩
      · obtain ⟨h, isH, eq⟩ := mem_filterMap.mp held
        exact mem_filterMap.mpr ⟨h, mem_cons_of_mem f isH, eq⟩

theorem Direct.plain {stack : List Frame} (direct : Direct stack) {f : Frame}
    (plain : f.handled? = none) : Direct (f :: stack) := by
  refine ⟨fun e handled => ?_, direct⟩
  rw [plain] at handled
  cases handled

theorem Direct.processEvent (direct : Direct s.stack) {f : Frame} (top : s.stack.head? = some f)
    (own : f.run? = some e) (io : Option IoResult) : Direct (s.processEvent e io).stack := by
  unfold Run.processEvent
  dsimp only
  split
  · refine ⟨fun x handled => ?_, direct⟩
    obtain rfl : e = x := Option.some.inj handled
    exact ⟨f, top, .inl own⟩
  · exact direct

theorem Run.afterEvent_stack (s : Run) (e : Nat) : (s.afterEvent cfg e).stack = s.stack := by
  unfold Run.afterEvent Run.unref
  split
  · split <;> rfl
  · rfl

theorem Run.neventDelete_stack {notify : Bool} (quiet : notify = true → ¬ s.pool.Pending e) :
    (s.neventDelete cfg e notify).stack = s.stack := by
  unfold Run.neventDelete
  split
  · rfl
  · next waits =>
      have silent : notify = false := by
        cases notify with
        | false => rfl
        | true => exact absurd (Npool.not_pending.mp (quiet rfl)) waits
      subst silent
      split <;> rfl

theorem Run.finishDelete_stack (s : Run) (nsi : Nat) : (s.finishDelete nsi).stack = s.stack := by
  unfold Run.finishDelete
  split <;> rfl

theorem Direct.nextList (direct : Direct s.stack) (d : Deletion) : Direct (s.nextList d).stack := by
  unfold Run.nextList
  split
  · split
    · exact direct.plain rfl
    · rwa [Run.finishDelete_stack]
  · rwa [Run.finishDelete_stack]

theorem Direct.walk {d : Deletion} (direct : Direct s.stack)
    (quiet : d.notify = true → ∀ e, d.current.bind lnodeNevent = some e →
      (s.pool.events e).iod = some d.nsi → ¬ s.pool.Pending e) : Direct (s.walk cfg d).stack := by
  unfold Run.walk
  cases current : d.current with
  | none => exact direct.nextList d
  | some n =>
    dsimp only
    cases event : lnodeNevent n with
    | none => exact direct.nextList d
    | some e =>
      dsimp only
      split
      · next own =>
          rw [Run.neventDelete_stack]
          · exact direct.plain rfl
          · intro notify
            refine quiet notify e ?_ own
            rw [current]
            exact event
      · exact direct.nextList d

theorem Direct.nextPass (direct : Direct s.stack) (pass : IodPass) :
    Direct (s.nextPass pass).stack := by
  unfold Run.nextPass
  split
  · exact direct.plain rfl
  · exact direct

theorem Direct.passOn (direct : Direct s.stack) (pass : IodPass) (io : Option IoResult) :
    Direct (s.passOn pass io).stack := by
  unfold Run.passOn
  split
  · exact direct.nextPass pass
  · split
    · exact direct.nextPass pass
    · split
      · exact direct.nextPass pass
      · split
        · exact Direct.processEvent (direct.plain rfl) rfl rfl io
        · exact direct.nextPass pass

theorem Direct.resume (direct : Direct s.stack) (io : Option IoResult)
    (quiet : s.Quiet (.resume io)) (step : s.resume cfg io = some t) : Direct t.stack := by
  unfold Run.resume at step
  split at step
  · next pass rest top =>
      obtain rfl := Option.some.inj step
      rw [top] at direct
      exact Direct.passOn direct.2 pass io
  · next pass e rest top =>
      obtain rfl := Option.some.inj step
      rw [top] at direct
      refine Direct.plain ?_ rfl
      rw [Run.afterEvent_stack]
      exact direct.2
  · next e rest top =>
      obtain rfl := Option.some.inj step
      rw [top] at direct
      rw [Run.afterEvent_stack]
      exact direct.2
  · next e rest top =>
      obtain rfl := Option.some.inj step
      rw [top] at direct
      rw [Run.afterEvent_stack]
      exact direct.2
  · next e rest top =>
      obtain rfl := Option.some.inj step
      rw [top] at direct
      exact direct.2
  · next d rest top =>
      obtain rfl := Option.some.inj step
      rw [top] at direct
      refine Direct.walk direct.2 ?_
      intro notify e event own
      refine quiet e ?_
      rw [Run.neventDeleted_resume top event own, notify]
  · cases step

theorem Direct.engine (direct : Direct s.stack) (step : s.engine i = some t) : Direct t.stack := by
  cases Run.driven_of_engine step with
  | processIod active =>
    exact direct.plain rfl
  | @processExpired e earliest =>
    exact Direct.processEvent (direct.plain rfl) rfl rfl none
  | reap active deleted =>
    exact direct
  | endLoop =>
    trivial

theorem Direct.started (direct : Direct s.stack) {nse : Nevent} (started : Run.Started cfg s nse t)
    (alive : t.fault = none) : Direct t.stack := by
  cases started with
  | immediate done =>
    refine ⟨fun x handled => ?_, direct.plain rfl⟩
    obtain rfl : s.pool.nextStruct = x := Option.some.inj handled
    exact ⟨_, rfl, .inr rfl⟩
  | queued waits own has => exact direct
  | added waits own has io => exact Direct.processEvent (direct.plain rfl) rfl rfl io
  | failed fault =>
    rw [fault] at alive
    cases alive

theorem Direct.call (direct : Direct s.stack) (quiet : s.Quiet i) (step : s.call cfg i = some t)
    (alive : t.fault = none) : Direct t.stack := by
  cases Run.called_of_call step with
  | @iodNew state =>
    exact direct
  | pcapOpen active inUse without =>
    exact direct
  | @start a sslPending startable =>
    obtain ⟨nse, -, started⟩ := Run.startEvent_started startable sslPending
    exact Direct.started (s := { s with pool := s.pool.counted cfg a.type }) direct started alive
  | @cancel id notify =>
    unfold Run.Quiet Run.neventDeleted at quiet
    dsimp only at quiet
    unfold Run.nsockEventCancel
    cases type : Npool.getEventIdType id with
    | none => exact direct
    | some type' =>
      rw [type, bind_some] at quiet
      dsimp only
      cases found : s.pool.findEvent id type' with
      | none => exact direct
      | some e =>
        rw [found] at quiet
        dsimp only
        rw [Run.neventDelete_stack]
        · exact direct
        · intro notified
          exact quiet e (by rw [notified]; rfl)
  | iodDelete active =>
    unfold Run.nsockIodDelete
    dsimp only
    split
    · exact direct
    · split
      · split
        · exact direct
        · exact direct.plain rfl
      · rwa [Run.finishDelete_stack]
  | nsockLoop empty =>
    exact ⟨nofun, trivial⟩
  | @ret e seen rest top =>
    rw [top] at direct
    exact direct.2

/-- A step that notifies nobody of a deletion keeps the handlers on the calls that have their
events. -/
theorem Direct.step (direct : Direct s.stack) (quiet : s.Quiet i) (step : s.step cfg i = some t)
    (alive : t.fault = none) : Direct t.stack := by
  unfold Run.step at step
  split at step
  · cases step
  · split at step
    · next now _ =>
        obtain rfl := Option.some.inj step
        exact direct
    · exact direct.resume _ quiet step
    · exact direct.engine step
    · simp only [ite_none_right_eq_some] at step
      exact direct.call quiet step.2 alive

/-! ## Runs -/

theorem Run.Sound.free_not_handled (sound : s.Sound cfg) (direct : Direct s.stack)
    (mem : e ∈ s.pool.freeEvents) : e ∉ handling s.stack := by
  intro handled
  obtain ⟨-, -, notRun, notHeld⟩ := sound.pool.roles.free e mem
  exact (direct.owned handled).elim notRun notHeld

theorem Run.Sound.fresh (sound : s.Sound cfg) (direct : Direct s.stack) (i : Input) :
    s.Fresh i := by
  cases i with
  | start a sslPending =>
    show s.pool.nextStruct ∉ handling s.stack
    intro handled
    obtain ⟨-, notRun, notHeld⟩ := sound.pool.roles.nextStruct
    exact (direct.owned handled).elim notRun notHeld
  | _ => trivial

theorem Npool.Sound.queues_some {p : Npool} {run held : List Nat} {late : List (Option Nat)}
    (sound : p.Sound cfg run held late) (waits : p.Pending e) : ∃ qs, p.queues cfg e = some qs := by
  unfold Npool.queues
  cases type : (p.events e).type with
  | pcapRead =>
    dsimp only
    split
    · exact ⟨_, rfl⟩
    · cases iod : (p.events e).iod with
      | none =>
        have timer := sound.lists.timer e (.inl waits) iod
        rw [type] at timer
        cases timer
      | some j =>
        have inUse := sound.roles.waiting e waits j iod
        obtain ⟨desc, has⟩ := isSome_iff_exists.mp
          (sound.roles.desc e (.inl waits) j iod type inUse)
        exact ⟨_, by rw [bind_some, has]; rfl⟩
  | _ => exact ⟨_, rfl⟩

theorem Run.Sound.noneLost (sound : s.Sound cfg) : s.NoneLost cfg := by
  intro u small new
  obtain ⟨e, waits, use⟩ := sound.ledger.kept u small new
  obtain ⟨qs, has⟩ := sound.pool.queues_some waits
  refine ⟨e, waits, use, ?_, ⟨qs, has, ?_⟩, ?_⟩
  · rw [← use]
    exact (sound.ledger.asked e waits).1
  · exact sound.pool.lists.queued e (.inl waits) qs has
  · exact fun timed => (sound.pool.lists.heap e).mpr ⟨.inl waits, timed⟩

theorem Run.Sound.recycles (sound : s.Sound cfg) (direct : Direct s.stack) : s.Recycles cfg := by
  refine ⟨?_, sound.noneLost, ⟨?_, sound.ledger.own⟩, sound.ledger.once⟩
  · intro e mem
    obtain ⟨small, idle, -⟩ := sound.pool.roles.free e mem
    have notHandled := sound.free_not_handled direct mem
    exact ⟨notHandled, (sound.closed e small idle).resolve_right notHandled⟩
  · exact fun e seen mem => (sound.frames.handlers e seen mem).2.1

theorem Run.sound_of_quiet {s : Run} (reach : ((machine cfg).guarded Run.Quiet).Reachable s) :
    s.fault = none → s.Sound cfg ∧ Direct s.stack := by
  have ind : ((machine cfg).guarded Run.Quiet).Inductive fun s =>
      s.fault = none → s.Sound cfg ∧ Direct s.stack := by
    constructor
    · rintro s ⟨tod, rfl⟩ -
      exact ⟨Run.new_sound tod, trivial⟩
    · rintro s t holds ⟨i, quiet, step⟩ alive
      have running : s.fault = none := by
        by_contra ended
        have stuck : s.step cfg i = none := if_pos (isSome_iff_ne_none.mpr ended)
        change s.step cfg i = some t at step
        rw [stuck] at step
        cases step
      obtain ⟨sound, direct⟩ := holds running
      exact ⟨sound.step (sound.fresh direct i) step alive, direct.step quiet step alive⟩
  exact ind.holds reach

/-- The handler that `nevent_delete` notifies finds its struct on the free list. -/
theorem Run.neventDelete_notified (waits : s.pool.Pending e)
    (alive : (s.neventDelete cfg e true).fault = none) :
    ¬ (s.neventDelete cfg e true).FreeIsOver := by
  unfold Run.neventDelete at alive ⊢
  have notDone : ¬ (s.pool.events e).eventDone = true := by
    rw [← Npool.not_pending]
    exact not_not_intro waits
  rw [if_neg notDone] at alive ⊢
  cases unref : (s.pool.handleCancelled e).neventUnref cfg e with
  | none =>
    rw [unref] at alive
    cases alive
  | some q =>
    intro finished
    have un := Npool.neventUnref_unlinked unref
    refine (finished e ?_).1 mem_cons_self
    show e ∈ (q.countDispatched e).freeEvents
    rw [(Npool.countDispatched_alike q e).freeEvents, un.freeEvents]
    exact mem_append_right _ (mem_singleton.mpr rfl)

theorem Run.step_of_neventDeleted {notify : Bool} (deleted : s.neventDeleted i = some (e, notify))
    (step : s.step cfg i = some t) : ∃ s' : Run, s'.pool = s.pool ∧
      t = s'.neventDelete cfg e notify := by
  unfold Run.step at step
  split at step
  · cases step
  · cases i with
    | cancel id notify' =>
      have called : s.call cfg (.cancel id notify') = some t := by
        split at step
        · next other => cases other
        · next other => cases other
        · cases step
        · exact (ite_none_right_eq_some.mp step).2
      obtain rfl := Option.some.inj called
      obtain ⟨x, found, eq⟩ := map_eq_some_iff.mp deleted
      cases eq
      obtain ⟨type, isType, found⟩ := bind_eq_some_iff.mp found
      refine ⟨s, rfl, ?_⟩
      unfold Run.nsockEventCancel
      rw [isType]
      dsimp only
      rw [found]
    | resume io =>
      change s.resume cfg io = some t at step
      unfold Run.neventDeleted at deleted
      dsimp only at deleted
      split at deleted
      · next d rest top =>
          obtain ⟨x, found, eq⟩ := map_eq_some_iff.mp deleted
          cases eq
          obtain ⟨event, own⟩ := filter_eq_some_iff.mp found
          obtain ⟨n, current, isNode⟩ := bind_eq_some_iff.mp event
          unfold Run.resume at step
          rw [top] at step
          obtain rfl := Option.some.inj step
          refine ⟨({ s with stack := rest } : Run).push
            (.iodDelete { d with current := s.pool.lnodeNext n }), rfl, ?_⟩
          unfold Run.walk
          rw [current]
          dsimp only
          rw [isNode]
          exact if_pos (of_decide_eq_true own)
      · cases deleted
    | _ => cases deleted

/-- While no event is deleted with a notification, a struct is on the free list only once its
handler is through, and each event is dispatched once, with its own data. The step that deletes
an event with a notification calls its handler with the struct on the free list. -/
theorem recycles_when_quiet (cfg : Config) :
    (∀ s, ((machine cfg).guarded Run.Quiet).Reachable s → s.fault = none → s.Recycles cfg) ∧
      ∀ (s : Run) (i : Input) (t : Run), s.step cfg i = some t → ¬ s.Quiet i → t.fault = none →
        ¬ t.FreeIsOver := by
  constructor
  · intro s reach alive
    obtain ⟨sound, direct⟩ := Run.sound_of_quiet reach alive
    exact sound.recycles direct
  · intro s i t step loud alive
    unfold Run.Quiet at loud
    push Not at loud
    obtain ⟨e, deleted, waits⟩ := loud
    obtain ⟨s', same, rfl⟩ := Run.step_of_neventDeleted deleted step
    rw [← same] at waits
    exact Run.neventDelete_notified waits alive

/-- A timer expires in the loop and its struct is free afterwards. -/
theorem recycles_when_quiet_timer : ∃ s, ((machine ⟨false, 64⟩).guarded Run.Quiet).Reachable s ∧
    s.pool.freeEvents = [0] ∧ s.ended = [0] ∧ s.Recycles ⟨false, 64⟩ := by
  have start : ((machine ⟨false, 64⟩).guarded Run.Quiet).Reachable (Run.new 5) := .start ⟨5, rfl⟩
  have started := start.next ⟨.start ⟨.timer, none, some 100, 0, 0, [], none⟩ none, nofun, rfl⟩
  have looping := started.next ⟨.nsockLoop, nofun, rfl⟩
  have later := looping.next ⟨.tick 105, nofun, rfl⟩
  have expired := later.next ⟨.processExpired 0, nofun, rfl⟩
  have returned := expired.next ⟨.ret, nofun, rfl⟩
  have finished := returned.next ⟨.resume none, nofun, rfl⟩
  exact ⟨_, finished, rfl, rfl, (recycles_when_quiet ⟨false, 64⟩).1 _ finished rfl⟩

/-- The handler of a cancelled timer runs with its struct on the free list. It starts another
timer, which gets that struct, and is lost when the handler returns. -/
theorem recycles_cancelled_timer :
    ¬ (∀ s, (machine ⟨false, 64⟩).sys.Reachable s → s.fault = none → s.FreeIsOver) ∧
      ¬ ∀ s, (machine ⟨false, 64⟩).sys.Reachable s → s.fault = none → s.NoneLost ⟨false, 64⟩ := by
  have start : (machine ⟨false, 64⟩).sys.Reachable (Run.new 5) := .start ⟨5, rfl⟩
  have started := start.next
    ⟨.start ⟨.timer, none, some 100, 0, 0, [], none⟩ none, trivial, rfl⟩
  have cancelled := started.next ⟨.cancel 12 true, trivial, rfl⟩
  have again := cancelled.next
    ⟨.start ⟨.timer, none, some 100, 1, 1, [], none⟩ none, trivial, rfl⟩
  have returned := again.next ⟨.ret, trivial, rfl⟩
  constructor
  · intro finished
    exact (finished _ cancelled rfl 0 mem_cons_self).1 mem_cons_self
  · intro kept
    obtain ⟨e, waits, -⟩ := kept _ returned rfl 1 (by decide) (by decide)
    -- no struct waits: the one that both timers used is done, the others never were in use
    cases e with
    | zero => exact Bool.noConfusion (show true = false from waits)
    | succ e => exact Bool.noConfusion (show true = false from waits)

end Nmap.Nsock
