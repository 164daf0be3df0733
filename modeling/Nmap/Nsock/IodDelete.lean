import Nmap.Nsock.FreeEvents
import Nmap.Nsock.Walk

/-!
# Iods are deleted with their events (`nsock_iod.c`)

In each list the events of an iod stand together and the iod points to the first of them; so it
is in every run in which no struct is handed out too early, and `nsock_iod_delete` walks from
there.
-/

namespace Nmap.Nsock

open List Option

variable {cfg : Config} {s t : Run} {e x : Nat} {i : Input} {d : Deletion} {rest : List Frame}

/-! ## The condition -/

def Frame.deletion? : Frame → Option Deletion
  | .iodDelete d => some d
  | _ => none

/-- The deletions under way, with the nodes that they will still look at once the event at
which the innermost stands is gone -/
def Run.deletions (s : Run) : List Deletion :=
  match s.stack with
  | .iodDelete d :: rest => { d with current := none } :: rest.filterMap Frame.deletion?
  | stack => stack.filterMap Frame.deletion?

/-- A node of `x` is saved, and behind it stand further events of the iod that wait. -/
def Deletion.LeansOn (d : Deletion) (p : Npool) (x : Nat) : Prop :=
  ∃ L a e, L ≠ .pcapReadEvents ∧ d.saved L = some a ∧ a.event = x ∧ p.Pending e ∧ e ≠ x ∧
    (p.events e).iod = some d.nsi ∧ FromOn a (L.node e) (p.lists L)

/-- No struct is handed out whose handler runs, no saved node is deleted in front of further
events of the iod, and at the end of a deletion each event of the iod that waits was there when
it began, and is in a list by its `nodeq_io`. -/
structure Run.Undisturbed (s : Run) (i : Input) : Prop where
  fresh : s.Fresh i
  saved : ∀ x notify, s.neventDeleted i = some (x, notify) → s.pool.Pending x →
    ∀ d ∈ s.deletions, ¬ d.LeansOn s.pool x
  found : ∀ io d rest, i = .resume io → s.stack = .iodDelete d :: rest →
    d.list = .pcapReadEvents → ∀ e, s.pool.Pending e → (s.pool.events e).iod = some d.nsi →
    (s.pool.events e).use < d.since ∧ ∃ L, L ≠ .pcapReadEvents ∧ L.node e ∈ s.pool.lists L

theorem Run.Undisturbed.of_calm {s : Run} {i : Input} (fresh : s.Fresh i)
    (calm : s.neventDeleted i = none) (other : ∀ io, i ≠ .resume io) : s.Undisturbed i where
  fresh := fresh
  saved x notify deleted := by
    rw [calm] at deleted
    cases deleted
  found io _ _ resumed := absurd resumed (other io)

/-! ## The walks go on -/

/-- The deletions of a state will come to all the events that they have to find. -/
def Run.Walking (s : Run) : Prop := Nsock.Walking s.pool s.requests.length s.stack

theorem Run.dispatch_requests (s : Run) (e : Nat) (notify : Bool) :
    (s.eventDispatchAndDelete e notify).requests = s.requests := by
  cases notify <;> rfl

theorem Run.processEvent_requests (s : Run) (e : Nat) (io : Option IoResult) :
    (s.processEvent e io).requests = s.requests := by
  unfold Run.processEvent
  dsimp only
  split <;> rfl

theorem Run.neventDelete_requests (s : Run) (e : Nat) (notify : Bool) :
    (s.neventDelete cfg e notify).requests = s.requests := by
  unfold Run.neventDelete
  split
  · rfl
  · split
    · next p _ => exact Run.dispatch_requests { s with pool := p } e notify
    · rfl

theorem Run.Walking.evolve (walking : s.Walking) (ev : Evolves s.pool t.pool s.requests.length none)
    (stack : t.stack = s.stack) (requests : t.requests = s.requests) : t.Walking := by
  unfold Run.Walking
  rw [stack, requests]
  exact Nsock.Walking.evolve_none walking ev (le_refl _)

/-- On top of `nsock_loop` alone no deletion is under way. -/
theorem Run.Walking.of_none (none : ∀ d, .iodDelete d ∉ t.stack) : t.Walking :=
  Nsock.Walking.none none

theorem Run.Walking.processEvent_none (none : ∀ d, .iodDelete d ∉ s.stack) (e : Nat)
    (io : Option IoResult) : (s.processEvent e io).Walking := by
  refine Run.Walking.of_none fun d => ?_
  unfold Run.processEvent
  dsimp only
  split
  · intro mem
    rcases mem_cons.mp mem with eq | old
    · cases eq
    · exact none d old
  · exact none d

theorem Run.Walking.finishDelete (walking : s.Walking) (nsi : Nat)
    (alive : (s.finishDelete nsi).fault = none) : (s.finishDelete nsi).Walking := by
  refine walking.evolve ?_ (Run.finishDelete_stack s nsi) ?_
  · unfold Run.finishDelete at alive ⊢
    split
    · next some =>
        rw [if_pos some] at alive
        cases alive
    · exact (Evolves.refl _ _).same (fun _ => Iff.rfl) (fun _ _ => rfl) (fun _ => rfl) rfl
  · unfold Run.finishDelete
    split <;> rfl

theorem Run.Walking.nextList (walking : s.Walking)
    (walks : Walks s.pool s.requests.length d (running s.stack))
    (through : ∀ L a, L ≠ .pcapReadEvents → d.current = some a → a ∈ s.pool.lists L →
      s.pool.owner a ≠ some d.nsi) (alive : (s.nextList d).fault = none) :
    (s.nextList d).Walking := by
  unfold Run.nextList at alive ⊢
  cases next : d.list.next? with
  | none =>
    rw [next] at alive
    exact walking.finishDelete d.nsi alive
  | some L =>
    rw [next] at alive
    dsimp only at alive ⊢
    split
    · refine ⟨⟨walks.since, fun e waits iod use => ?_⟩, walking⟩
      exact (walks.covered e waits iod use).nextList next through
    · next zero =>
        rw [if_neg zero] at alive
        exact walking.finishDelete d.nsi alive

theorem Run.Walking.neventDelete (walking : s.Walking) {notify : Bool}
    (saved : s.pool.Pending x → ∀ d, .iodDelete d ∈ s.stack → ¬ d.LeansOn s.pool x)
    (alive : (s.neventDelete cfg x notify).fault = none) :
    (s.neventDelete cfg x notify).Walking := by
  by_cases waits : s.pool.Pending x
  · unfold Run.Walking
    rw [Run.neventDelete_requests]
    refine Nsock.Walking.neventDelete ?_ x notify
    refine Nsock.Walking.evolve walking (Evolves.neventDelete waits alive) (le_refl _) ?_
    intro d mem L a e notPcap isSaved gone _ pending kept iod walk
    refine saved waits d mem ⟨L, a, e, notPcap, isSaved, (Option.some.inj gone).symm, pending, ?_,
      iod, walk⟩
    exact fun eq => kept (by rw [eq])
  · have same : s.neventDelete cfg x notify = s := by
      unfold Run.neventDelete
      rw [if_pos (Npool.not_pending.mp waits)]
    rwa [same]

theorem Run.Walking.walk (sound : s.Sound cfg) (walking : s.Walking)
    (walks : Walks s.pool s.requests.length d (running s.stack))
    (saved : ∀ x, d.current.bind lnodeNevent = some x → (s.pool.events x).iod = some d.nsi →
      s.pool.Pending x → (¬ Deletion.LeansOn { d with current := none } s.pool x) ∧
        ∀ d', .iodDelete d' ∈ s.stack → ¬ d'.LeansOn s.pool x)
    (alive : (s.walk cfg d).fault = none) : (s.walk cfg d).Walking := by
  unfold Run.walk at alive ⊢
  cases current : d.current with
  | none =>
    rw [current] at alive
    refine walking.nextList walks ?_ alive
    intro L a _ eq
    rw [current] at eq
    cases eq
  | some n =>
    rw [current] at alive
    dsimp only at alive ⊢
    cases event : lnodeNevent n with
    | none =>
      rw [event] at alive
      refine walking.nextList walks ?_ alive
      intro L a notPcap eq mem
      rw [current] at eq
      cases eq
      have node := sound.pool.lists.node L n mem
      rw [node] at event
      cases L with
      | pcapReadEvents => exact absurd rfl notPcap
      | _ => cases event
    | some x =>
      rw [event] at alive
      dsimp only at alive ⊢
      have isNode : n = .nodeqIo x := by
        cases n with
        | nodeqIo y => rw [show y = x from Option.some.inj event]
        | nodeqPcap y => cases event
      by_cases own : (s.pool.events x).iod = some d.nsi
      · rw [if_pos own] at alive ⊢
        have bound : d.current.bind lnodeNevent = some x := by
          rw [current]
          exact event
        -- the pointers of the walk itself: the next node, and the later lists
        have next : ∀ e, s.pool.Pending e → (s.pool.events e).iod = some d.nsi →
            (s.pool.events e).use < d.since → e ≠ x →
            Covered s.pool { d with current := s.pool.lnodeNext n } (running s.stack) e := by
          intro e waits iod use other
          exact (walks.covered e waits iod use).next sound.pool.lists (fun _ live => live) current
            event other iod
        by_cases waits : s.pool.Pending x
        · obtain ⟨top, below⟩ := saved x bound own waits
          have ev := Evolves.neventDelete (n := s.requests.length) (s := s.push (.iodDelete
            { d with current := s.pool.lnodeNext n })) waits alive
          unfold Run.Walking
          rw [Run.neventDelete_requests]
          refine Nsock.Walking.neventDelete (s := s.push (.iodDelete
            { d with current := s.pool.lnodeNext n })) ?_ x d.notify
          refine ⟨⟨walks.since, ?_⟩, ?_⟩
          · intro e still iod use
            have small := use.trans_le walks.since
            obtain ⟨was, same, kept⟩ := ev.old e still small
            have other : e ≠ x := fun eq => kept (by rw [eq])
            rw [same] at iod use
            refine (next e was iod use other).evolve ev still small ?_
            intro L a notPcap isSaved gone live walk
            have mine : a.event = x := (Option.some.inj gone).symm
            by_cases here : L = d.list
            · -- the next node is not the one that goes
              unfold Deletion.saved at isSaved
              rw [if_pos here] at isSaved
              change s.pool.lnodeNext n = some a at isSaved
              have listed := walk.start_mem
              have node := sound.pool.lists.node L a listed
              have isN : a = n := by
                rw [node, mine, isNode]
                cases L with
                | pcapReadEvents => exact absurd rfl notPcap
                | _ => rfl
              rw [isN] at listed isSaved
              rw [sound.pool.lists.lnodeNext_eq listed] at isSaved
              exact nextOf_ne (sound.pool.lists.nodup L) isSaved rfl
            · refine top ⟨L, a, e, notPcap, ?_, mine, was, other, iod, walk⟩
              unfold Deletion.saved at isSaved ⊢
              rw [if_neg here] at isSaved ⊢
              exact isSaved
          · refine Nsock.Walking.evolve walking ev (le_refl _) ?_
            intro d' mem L a e notPcap isSaved gone _ pending kept iod walk
            refine below d' mem ⟨L, a, e, notPcap, isSaved, (Option.some.inj gone).symm, pending,
              ?_, iod, walk⟩
            exact fun eq => kept (by rw [eq])
        · have same : Run.neventDelete cfg (s.push (.iodDelete
              { d with current := s.pool.lnodeNext n })) x d.notify =
              s.push (.iodDelete { d with current := s.pool.lnodeNext n }) := by
            unfold Run.neventDelete
            exact if_pos (Npool.not_pending.mp waits)
          rw [same]
          refine ⟨⟨walks.since, ?_⟩, walking⟩
          intro e still iod use
          refine next e still iod use ?_
          rintro rfl
          exact waits still
      · rw [if_neg own] at alive ⊢
        refine walking.nextList walks ?_ alive
        intro L a _ eq _ owner
        rw [current] at eq
        cases eq
        rw [isNode] at owner
        exact own owner

/-! ## Every step -/

/-- A call gives an event that is done, or one that waits, back. -/
theorem Run.Walking.afterEvent (sound : s.Sound cfg) (top : s.stack = .added e :: rest)
    (walking : s.Walking) (alive : (Run.afterEvent cfg { s with stack := rest } e).fault = none) :
    (Run.afterEvent cfg { s with stack := rest } e).Walking := by
  have below : Nsock.Walking s.pool s.requests.length rest := by
    unfold Run.Walking at walking
    rwa [top] at walking
  have pool := sound.pool
  rw [top] at pool
  have notRun : e ∉ running rest := (nodup_cons.mp pool.roles.runNodup).1
  unfold Run.afterEvent Run.unref at alive ⊢
  dsimp only at alive ⊢
  by_cases done : (s.pool.events e).eventDone = true
  · rw [if_pos done] at alive ⊢
    have idle : ¬ s.pool.Pending e := Npool.not_pending.mpr done
    cases unref : s.pool.neventUnref cfg e with
    | none =>
      rw [unref] at alive
      cases alive
    | some q =>
      have ev : Evolves s.pool q s.requests.length (some e) :=
        .unlinked (Npool.neventUnref_unlinked unref) idle
      refine Nsock.Walking.evolve below ev (le_refl _) ?_
      intro d mem L a x _ _ gone live _ _ _ _
      obtain rfl := Option.some.inj gone
      exact live.elim idle notRun
  · rw [if_neg done]
    exact below

variable {io : Option IoResult}

theorem Run.Walking.resume (sound : s.Sound cfg) (walking : s.Walking)
    (calm : s.Undisturbed (.resume io)) (step : s.resume cfg io = some t) (alive : t.fault = none) :
    t.Walking := by
  have frames := sound.frames
  have onLoop : ∀ {f : Frame} {rest : List Frame}, rest = [.loop] → (∀ d, f ≠ .iodDelete d) →
      ∀ d, .iodDelete d ∉ f :: rest := by
    rintro f rest rfl plain d mem
    rcases mem_cons.mp mem with eq | later
    · exact plain d eq.symm
    · simp at later
  unfold Run.resume at step
  split at step
  · next pass rest top =>
      obtain rfl := Option.some.inj step
      rw [top] at frames
      have bottom : rest = [.loop] := frames.shape.1
      subst bottom
      unfold Run.passOn
      have idle : Run.Walking { s with stack := [.loop] } := Run.Walking.of_none (by simp)
      have next : (Run.nextPass { s with stack := [.loop] } pass).Walking := by
        unfold Run.nextPass
        split
        · exact Run.Walking.of_none (onLoop rfl fun d loop => by cases loop)
        · exact idle
      split
      · exact next
      · split
        · exact next
        · split
          · exact next
          · split
            · refine Run.Walking.processEvent_none ?_ _ _
              exact onLoop rfl fun d loop => by cases loop
            · exact next
  · next pass e rest top =>
      obtain rfl := Option.some.inj step
      rw [top] at frames
      have bottom : rest = [.loop] := frames.shape.1
      refine Run.Walking.of_none ?_
      unfold Run.push
      rw [Run.afterEvent_stack]
      exact onLoop bottom fun d loop => by cases loop
  · next e rest top =>
      obtain rfl := Option.some.inj step
      rw [top] at frames
      have bottom : rest = [.loop] := frames.shape.1
      refine Run.Walking.of_none ?_
      rw [Run.afterEvent_stack]
      show ∀ d, .iodDelete d ∉ rest
      rw [bottom]
      simp
  · next e rest top =>
      obtain rfl := Option.some.inj step
      exact walking.afterEvent sound top alive
  · next e rest top =>
      obtain rfl := Option.some.inj step
      unfold Run.Walking at walking
      rw [top] at walking
      exact Nsock.Walking.evolve_none walking
        ((Evolves.refl _ _).same (fun _ => Iff.rfl) (fun _ _ => rfl) (fun _ => rfl) rfl) (le_refl _)
  · next d rest top =>
      obtain rfl := Option.some.inj step
      have back := sound.pop top rfl rfl rfl
      unfold Run.Walking at walking
      rw [top] at walking
      refine Run.Walking.walk back walking.2 walking.1 ?_ alive
      intro x event own waits
      have kept := calm.saved x d.notify (Run.neventDeleted_resume top event own) waits
      unfold Run.deletions at kept
      rw [top] at kept
      refine ⟨kept _ mem_cons_self, fun d' mem => ?_⟩
      exact kept d' (mem_cons_of_mem _ (mem_filterMap.mpr ⟨_, mem, rfl⟩))
  · cases step

theorem Run.Walking.engine (bottom : s.stack = [.loop])
    (step : s.engine i = some t) : t.Walking := by
  have none : ∀ d, .iodDelete d ∉ s.stack := by
    rw [bottom]
    simp
  cases Run.driven_of_engine step with
  | processIod active =>
    refine Run.Walking.of_none fun d mem => ?_
    rcases mem_cons.mp mem with eq | old
    · cases eq
    · exact none d old
  | @processExpired e earliest =>
    refine Run.Walking.processEvent_none ?_ e .none
    intro d mem
    rcases mem_cons.mp mem with eq | old
    · cases eq
    · exact none d old
  | reap active deleted =>
    exact Run.Walking.of_none none
  | endLoop =>
    trivial

theorem Run.Walking.started (sound : s.Sound cfg) (walking : s.Walking) {nse : Nevent}
    (use : nse.use = s.requests.length) (started : Run.Started cfg s nse t)
    (alive : t.fault = none) : t.Walking := by
  have ev := Evolves.started sound use started alive
  have more : s.requests.length ≤ (s.requests ++ [nse.request]).length := by
    rw [length_append]
    exact Nat.le_add_right _ _
  cases started with
  | immediate done => exact Nsock.Walking.evolve_none walking ev more
  | queued waits own has => exact Nsock.Walking.evolve_none walking ev more
  | added waits own has io =>
    have later := Nsock.Walking.evolve_none walking ev more
    unfold Run.Walking
    rw [Run.processEvent_requests]
    exact Nsock.Walking.processEvent (s := Run.push _ _) later _ io
  | failed fault =>
    rw [fault] at alive
    cases alive

theorem Run.Walking.call (sound : s.Sound cfg) (user : UserStack s.stack) (walking : s.Walking)
    (calm : s.Undisturbed i) (step : s.call cfg i = some t) (alive : t.fault = none) :
    t.Walking := by
  have deletions : s.deletions = s.stack.filterMap Frame.deletion? := by
    unfold Run.deletions
    split
    · next top =>
        rw [top] at user
        cases user
    · rfl
  cases Run.called_of_call step with
  | @iodNew state =>
    refine walking.evolve ((Evolves.refl _ _).same ?_ ?_ ?_ ?_) rfl rfl
    all_goals
      unfold Npool.iodNew
      split
    all_goals first | rfl | exact fun _ => Iff.rfl | exact fun _ => rfl | exact fun _ _ => rfl
  | pcapOpen active inUse without =>
    exact walking.evolve
      ((Evolves.refl _ _).same (fun _ => Iff.rfl) (fun _ _ => rfl) (fun _ => rfl) rfl) rfl rfl
  | @start a sslPending startable =>
    obtain ⟨nse, same, started⟩ := Run.startEvent_started startable sslPending
    have counted : Run.Sound cfg { s with pool := s.pool.counted cfg a.type } :=
      sound.alike (Npool.counted_alike s.pool a.type) fun _ => rfl
    have walking' : Run.Walking { s with pool := s.pool.counted cfg a.type } :=
      walking.evolve ((Evolves.refl _ _).alike (Npool.counted_alike s.pool a.type)) rfl rfl
    exact Run.Walking.started counted walking' same.use started alive
  | @cancel id notify =>
    have kept := calm.saved
    unfold Run.neventDeleted at kept
    unfold Run.nsockEventCancel at alive ⊢
    cases type : Npool.getEventIdType id with
    | none => exact walking
    | some type' =>
      rw [type] at alive
      dsimp only at alive ⊢
      cases found : s.pool.findEvent id type' with
      | none => exact walking
      | some e =>
        rw [found] at alive
        refine Run.Walking.neventDelete walking ?_ alive
        intro waits d mem
        refine kept e notify ?_ waits d ?_
        · dsimp only
          rw [type, bind_some, found]
          rfl
        · rw [deletions]
          exact mem_filterMap.mpr ⟨_, mem, rfl⟩
  | @iodDelete nsi mode active =>
    unfold Run.nsockIodDelete at alive ⊢
    dsimp only at alive ⊢
    split
    · exact walking
    · next inUse =>
        rw [if_neg inUse] at alive
        split
        · split
          · exact walking
          · exact ⟨Walks.start sound active _, walking⟩
        · next zero =>
            rw [if_neg zero] at alive
            exact walking.finishDelete nsi alive
  | nsockLoop empty =>
    trivial
  | @ret e seen rest top =>
    have frames := sound.frames
    rw [top] at frames
    obtain ⟨-, -, done⟩ := frames.handlers e seen mem_cons_self
    unfold Run.Walking at walking
    rw [top] at walking
    exact Nsock.Walking.evolve_none walking
      (Evolves.eventDelete (s := { s with stack := rest }) (Evolves.refl _ _) done) (le_refl _)

theorem Run.Walking.step (sound : s.Sound cfg) (walking : s.Walking) (calm : s.Undisturbed i)
    (step : s.step cfg i = some t) (alive : t.fault = none) : t.Walking := by
  unfold Run.step at step
  split at step
  · cases step
  · split at step
    · next now _ =>
        obtain rfl := Option.some.inj step
        exact walking.evolve ((Evolves.refl _ _).alike { Npool.Alike.refl s.pool with }) rfl rfl
    · exact walking.resume sound calm step alive
    · next bottom => exact Run.Walking.engine bottom step
    · simp only [ite_none_right_eq_some] at step
      exact walking.call sound (Run.userRuns_iff.mp step.1) calm step.2 alive

/-! ## The fatal error -/

/-- The state is not the end of the program for want of an event. -/
def Run.NoneMissing (s : Run) : Prop := ∀ n, s.fault ≠ some (.couldNotFind n)

theorem Run.noneMissing_of_alive (alive : s.fault = none) : s.NoneMissing := by
  intro n eq
  rw [alive] at eq
  cases eq

theorem Run.dispatch_fault (s : Run) (e : Nat) (notify : Bool) :
    (s.eventDispatchAndDelete e notify).fault = s.fault := by
  cases notify <;> rfl

theorem Run.processEvent_fault (s : Run) (e : Nat) (io : Option IoResult) :
    (s.processEvent e io).fault = s.fault := by
  unfold Run.processEvent
  dsimp only
  split <;> rfl

theorem Run.afterEvent_noneMissing (alive : s.fault = none) (e : Nat) :
    (s.afterEvent cfg e).NoneMissing := by
  unfold Run.afterEvent Run.unref
  split
  · split
    · exact Run.noneMissing_of_alive alive
    · exact fun n => nofun
  · exact Run.noneMissing_of_alive alive

theorem Run.neventDelete_noneMissing (alive : s.fault = none) (e : Nat) (notify : Bool) :
    (s.neventDelete cfg e notify).NoneMissing := by
  unfold Run.neventDelete
  split
  · exact Run.noneMissing_of_alive alive
  · split
    · next p _ =>
        refine Run.noneMissing_of_alive ?_
        rw [Run.dispatch_fault]
        exact alive
    · exact fun n => nofun

theorem Run.Sound.finishDelete_noneMissing (sound : s.Sound cfg) (alive : s.fault = none)
    {nsi : Nat} (active : nsi ∈ s.pool.activeIods)
    (idle : ∀ e, s.pool.Pending e → (s.pool.events e).iod ≠ some nsi) :
    (s.finishDelete nsi).NoneMissing := by
  unfold Run.finishDelete
  split
  · next some =>
      obtain ⟨e, waits, iod⟩ := sound.pool.pending_of_count active some
      exact absurd iod (idle e waits)
  · exact Run.noneMissing_of_alive alive

theorem Run.Sound.idle_of_count (sound : s.Sound cfg) {nsi : Nat}
    (active : nsi ∈ s.pool.activeIods) (zero : ¬ 0 < (s.pool.iods nsi).eventsPending) :
    ∀ e, s.pool.Pending e → (s.pool.events e).iod ≠ some nsi := by
  intro e waits iod
  have counts := sound.pool.counts nsi active
  have none : (s.pool.iods nsi).eventsPending = 0 := by omega
  exact sound.pool.none_pending active none iod waits

theorem Run.Sound.nextList_noneMissing (sound : s.Sound cfg) (alive : s.fault = none)
    (active : d.nsi ∈ s.pool.activeIods)
    (last : d.list = .pcapReadEvents → ∀ e, s.pool.Pending e → (s.pool.events e).iod ≠ some d.nsi) :
    (s.nextList d).NoneMissing := by
  unfold Run.nextList
  cases next : d.list.next? with
  | none =>
    refine sound.finishDelete_noneMissing alive active (last ?_)
    cases isList : d.list with
    | pcapReadEvents => rfl
    | _ =>
      rw [isList] at next
      cases next
  | some L =>
    dsimp only
    split
    · exact Run.noneMissing_of_alive alive
    · next zero =>
        exact sound.finishDelete_noneMissing alive active (sound.idle_of_count active zero)

theorem Run.Sound.walk_noneMissing (sound : s.Sound cfg) (alive : s.fault = none)
    (active : d.nsi ∈ s.pool.activeIods)
    (last : d.list = .pcapReadEvents → ∀ e, s.pool.Pending e → (s.pool.events e).iod ≠ some d.nsi) :
    (s.walk cfg d).NoneMissing := by
  have next := sound.nextList_noneMissing alive active last
  unfold Run.walk
  split
  · exact next
  · split
    · exact next
    · split
      · refine Run.neventDelete_noneMissing ?_ _ _
        exact alive
      · exact next

theorem Run.Sound.resume_noneMissing (sound : s.Sound cfg) (walking : s.Walking)
    (alive : s.fault = none) (calm : s.Undisturbed (.resume io)) (step : s.resume cfg io = some t) :
    t.NoneMissing := by
  unfold Run.resume at step
  split at step
  · next pass rest top =>
      obtain rfl := Option.some.inj step
      refine Run.noneMissing_of_alive ?_
      have next : (Run.nextPass { s with stack := rest } pass).fault = none := by
        unfold Run.nextPass
        split <;> exact alive
      unfold Run.passOn
      split
      · exact next
      · split
        · exact next
        · split
          · exact next
          · split
            · rw [Run.processEvent_fault]
              exact alive
            · exact next
  · next pass e rest top =>
      obtain rfl := Option.some.inj step
      exact Run.afterEvent_noneMissing (s := { s with stack := rest }) alive e
  · next e rest top =>
      obtain rfl := Option.some.inj step
      exact Run.afterEvent_noneMissing (s := { s with stack := rest }) alive e
  · next e rest top =>
      obtain rfl := Option.some.inj step
      exact Run.afterEvent_noneMissing (s := { s with stack := rest }) alive e
  · next e rest top =>
      obtain rfl := Option.some.inj step
      exact Run.noneMissing_of_alive alive
  · next d rest top =>
      obtain rfl := Option.some.inj step
      have back := sound.pop top rfl rfl rfl
      have frames := sound.frames
      rw [top] at frames
      refine back.walk_noneMissing alive (frames.iods _ mem_cons_self _ rfl) ?_
      -- an event that still waits is covered, and after the last list none is
      intro last e waits iod
      obtain ⟨use, L, notPcap, mem⟩ := calm.found io d rest rfl top last e waits iod
      unfold Run.Walking at walking
      rw [top] at walking
      exact (walking.1.covered e waits iod use).last last notPcap mem
  · cases step

theorem Run.Sound.call_noneMissing (sound : s.Sound cfg) (alive : s.fault = none)
    (step : s.call cfg i = some t) : t.NoneMissing := by
  cases Run.called_of_call step with
  | @iodNew state =>
    exact Run.noneMissing_of_alive alive
  | pcapOpen active inUse without =>
    exact Run.noneMissing_of_alive alive
  | @start a sslPending startable =>
    obtain ⟨nse, -, started⟩ : ∃ nse, _ ∧
        Run.Started cfg _ nse (s.startEvent cfg a sslPending) :=
      Run.startEvent_started startable sslPending
    generalize s.startEvent cfg a sslPending = t at started
    cases started with
    | immediate done => exact Run.noneMissing_of_alive alive
    | queued waits own has => exact Run.noneMissing_of_alive alive
    | added waits own has io =>
      refine Run.noneMissing_of_alive ?_
      rw [Run.processEvent_fault]
      exact alive
    | failed fault =>
      intro n eq
      rw [fault] at eq
      cases eq
  | @cancel id notify =>
    unfold Run.nsockEventCancel
    split
    · exact fun n missing => by cases missing
    · split
      · exact Run.noneMissing_of_alive alive
      · exact Run.neventDelete_noneMissing alive _ notify
  | @iodDelete nsi mode active =>
    unfold Run.nsockIodDelete
    dsimp only
    split
    · exact Run.noneMissing_of_alive alive
    · split
      · split
        · exact fun n missing => by cases missing
        · exact Run.noneMissing_of_alive alive
      · next zero =>
          exact sound.finishDelete_noneMissing alive active (sound.idle_of_count active zero)
  | nsockLoop empty =>
    exact Run.noneMissing_of_alive alive
  | ret top => exact Run.noneMissing_of_alive alive

theorem Run.engine_noneMissing (alive : s.fault = none) (step : s.engine i = some t) :
    t.NoneMissing := by
  cases Run.driven_of_engine step with
  | processIod active =>
    exact Run.noneMissing_of_alive alive
  | @processExpired e earliest =>
    refine Run.noneMissing_of_alive ?_
    rw [Run.processEvent_fault]
    exact alive
  | reap active deleted =>
    exact Run.noneMissing_of_alive alive
  | endLoop =>
    exact Run.noneMissing_of_alive alive

theorem Run.Sound.step_noneMissing (sound : s.Sound cfg) (walking : s.Walking)
    (calm : s.Undisturbed i) (step : s.step cfg i = some t) : t.NoneMissing := by
  unfold Run.step at step
  split at step
  · cases step
  · next running =>
      have alive : s.fault = none := by simpa using running
      split at step
      · next now _ =>
          obtain rfl := Option.some.inj step
          exact Run.noneMissing_of_alive alive
      · exact sound.resume_noneMissing walking alive calm step
      · exact Run.engine_noneMissing alive step
      · simp only [ite_none_right_eq_some] at step
        exact sound.call_noneMissing alive step.2

/-! ## Results -/

/-- In each list the events of an iod stand together, the iod points to the first of them, and
no event waits on an iod that was deleted. -/
structure Run.Grouped (s : Run) : Prop where
  together : ∀ L a b c, [a, b, c].Sublist (s.pool.lists L) → s.pool.owner c = s.pool.owner a →
    s.pool.owner b = s.pool.owner a
  first : ∀ i ∈ s.pool.activeIods, ∀ L,
    (s.pool.iods i).first L = firstWith s.pool.owner (some i) (s.pool.lists L)
  deleted : ∀ i, (s.pool.iods i).state = .deleted → ∀ e, s.pool.Pending e →
    (s.pool.events e).iod ≠ some i

theorem Run.Sound.grouped (sound : s.Sound cfg) : s.Grouped where
  together L _ _ _ sub ends := (sound.pool.lists.grouped L).between sub ends
  first := sound.pool.lists.first
  deleted i gone e waits iod := sound.pool.roles.waiting e waits i iod gone

/-- What a round of `nsock_iod_delete` does: an event of another iod stays as and where it is,
and at most one event of the iod is cancelled. -/
structure Run.CancelsOwn (s t : Run) (d : Deletion) : Prop where
  others : ∀ e, (s.pool.events e).iod ≠ some d.nsi →
    t.pool.events e = s.pool.events e ∧ ∀ L, L.node e ∈ s.pool.lists L → L.node e ∈ t.pool.lists L
  own : t.deliveries = s.deliveries ∨ ∃ e seen, s.pool.Pending e ∧
    (s.pool.events e).iod = some d.nsi ∧ ¬ t.pool.Pending e ∧ seen.status = .cancelled ∧
    seen.request = (s.pool.events e).request ∧
    t.deliveries = s.deliveries ++ [⟨(s.pool.events e).use, d.notify, seen⟩]

theorem Run.CancelsOwn.of_same (events : t.pool.events = s.pool.events)
    (lists : t.pool.lists = s.pool.lists) (deliveries : t.deliveries = s.deliveries) :
    s.CancelsOwn t d where
  others e _ := by
    rw [events, lists]
    exact ⟨rfl, fun _ mem => mem⟩
  own := .inl deliveries

theorem Run.CancelsOwn.finishDelete (s : Run) (d : Deletion) (nsi : Nat) :
    s.CancelsOwn (s.finishDelete nsi) d := by
  unfold Run.finishDelete
  split <;> exact .of_same rfl rfl rfl

theorem Run.CancelsOwn.nextList (s : Run) (d : Deletion) : s.CancelsOwn (s.nextList d) d := by
  unfold Run.nextList
  split
  · split
    · exact .of_same rfl rfl rfl
    · exact Run.CancelsOwn.finishDelete s d d.nsi
  · exact Run.CancelsOwn.finishDelete s d d.nsi

theorem Run.CancelsOwn.neventDelete (own : (s.pool.events e).iod = some d.nsi) :
    s.CancelsOwn (s.neventDelete cfg e d.notify) d := by
  unfold Run.neventDelete
  split
  · exact .of_same rfl rfl rfl
  · next notDone =>
      have waits : s.pool.Pending e := by
        by_contra idle
        exact notDone (Npool.not_pending.mp idle)
      have kept : ∀ x, x ≠ e → (s.pool.handleCancelled e).events x = s.pool.events x :=
        fun x other => Function.update_of_ne other _ _
      have event : (s.pool.handleCancelled e).events e = { s.pool.events e with
          status := .cancelled, eventDone := true, eof := (s.pool.events e).eof || false } :=
        Function.update_self ..
      cases unref : (s.pool.handleCancelled e).neventUnref cfg e with
      | none => exact .of_same rfl rfl rfl
      | some q =>
        have un := Npool.neventUnref_unlinked unref
        have alike := Npool.countDispatched_alike q e
        have idle : ¬ q.Pending e :=
          fun still => s.pool.handleCancelled_idle e ((un.pending e).mp still)
        dsimp only
        have stays : ∀ x, x ≠ e →
            ((Run.eventDispatchAndDelete { s with pool := q } e d.notify).pool.events x =
              s.pool.events x) ∧ ∀ L, L.node x ∈ s.pool.lists L →
            L.node x ∈ (Run.eventDispatchAndDelete { s with pool := q } e d.notify).pool.lists L := by
          intro x other
          have listed : ∀ L, L.node x ∈ s.pool.lists L → L.node x ∈ (q.countDispatched e).lists L := by
            intro L mem
            rw [alike.lists]
            exact un.kept mem fun eq => other (EvList.node_inj eq)
          have same : (q.countDispatched e).events x = s.pool.events x := by
            rw [alike.events, un.others x other, kept x other]
          cases d.notify with
          | true => exact ⟨same, listed⟩
          | false => exact ⟨(Function.update_of_ne other _ _).trans same, listed⟩
        constructor
        · intro x other
          refine stays x ?_
          rintro rfl
          exact other own
        · refine .inr ⟨e, q.events e, waits, own, ?_, ?_, ?_, ?_⟩
          · have ended : ((q.countDispatched e).events e).eventDone = true := by
              rw [alike.events]
              exact Npool.not_pending.mp idle
            rw [Npool.not_pending]
            cases d.notify with
            | true => exact ended
            | false =>
              show ((q.countDispatched e).onEvent e Nevent.deleted |>.events e).eventDone = true
              rw [Npool.onEvent_events, if_pos rfl]
              rfl
          · rw [un.event, event]
          · rw [un.event, event]
            rfl
          · have use : (q.events e).use = (s.pool.events e).use := by
              rw [un.event, event]
            rw [← use]
            cases d.notify <;> rfl

theorem Run.step_cancelsOwn (top : s.stack = .iodDelete d :: rest)
    (step : s.step cfg (.resume io) = some t) : s.CancelsOwn t d := by
  unfold Run.step at step
  split at step
  · cases step
  · change s.resume cfg io = some t at step
    unfold Run.resume at step
    rw [top] at step
    obtain rfl := Option.some.inj step
    have next : s.CancelsOwn (Run.nextList { s with stack := rest } d) d := by
      have own := Run.CancelsOwn.nextList { s with stack := rest } d
      exact ⟨own.others, own.own⟩
    unfold Run.walk
    split
    · exact next
    · next n _ =>
        split
        · exact next
        · next e _ =>
            split
            · next own =>
                let s' := Run.push { s with stack := rest }
                  (.iodDelete { d with current := s.pool.lnodeNext n })
                have cancelled : s'.CancelsOwn (s'.neventDelete cfg e d.notify) d :=
                  Run.CancelsOwn.neventDelete own
                exact ⟨cancelled.others, cancelled.own⟩
            · exact next

theorem Run.sound_of_undisturbed {s : Run}
    (reach : ((machine cfg).guarded Run.Undisturbed).Reachable s) :
    (s.fault = none → s.Sound cfg ∧ s.Walking) ∧ s.NoneMissing := by
  have ind : ((machine cfg).guarded Run.Undisturbed).Inductive fun s =>
      (s.fault = none → s.Sound cfg ∧ s.Walking) ∧ s.NoneMissing := by
    constructor
    · rintro s ⟨tod, rfl⟩
      exact ⟨fun _ => ⟨Run.new_sound tod, trivial⟩, Run.noneMissing_of_alive rfl⟩
    · rintro s t ⟨holds, -⟩ ⟨i, calm, step⟩
      have running : s.fault = none := by
        by_contra ended
        have stuck : s.step cfg i = none := if_pos (isSome_iff_ne_none.mpr ended)
        change s.step cfg i = some t at step
        rw [stuck] at step
        cases step
      obtain ⟨sound, walking⟩ := holds running
      refine ⟨fun alive => ⟨sound.step calm.fresh step alive, walking.step sound calm step alive⟩, ?_⟩
      exact sound.step_noneMissing walking calm step
  exact ind.holds reach

/-- In every run that disturbs no deletion the events of an iod stand together in each list, the
iod points to the first, and `nsock_iod_delete` finds all of them; a round of it never touches
an event of another iod. -/
theorem iod_delete_finds_own (cfg : Config) :
    (∀ s, ((machine cfg).guarded Run.Undisturbed).Reachable s →
      (s.fault = none → s.Grouped) ∧ s.NoneMissing) ∧
      ∀ (s t : Run) (io : Option IoResult) (d : Deletion) (rest : List Frame),
        s.stack = .iodDelete d :: rest → s.step cfg (.resume io) = some t → s.CancelsOwn t d := by
  constructor
  · intro s reach
    obtain ⟨holds, found⟩ := Run.sound_of_undisturbed reach
    exact ⟨fun alive => (holds alive).1.grouped, found⟩
  · exact fun s t io d rest top step => Run.step_cancelsOwn top step

/-- A read is cancelled with its iod, without a notification. -/
theorem iod_delete_finds_own_read :
    ∃ s, ((machine ⟨false, 64⟩).guarded Run.Undisturbed).Reachable s ∧
      s.deliveries.map Delivery.use = [0] ∧ (s.pool.iods 0).state = .deleted ∧ s.NoneMissing := by
  have start : ((machine ⟨false, 64⟩).guarded Run.Undisturbed).Reachable (Run.new 5) :=
    .start ⟨5, rfl⟩
  -- no deletion comes to the last list in this run
  have notLast : ∀ {s : Run} {L : EvList},
      (s.stack.head?.bind Frame.deletion?).map Deletion.list = some L → L ≠ .pcapReadEvents →
      ∀ (io : Option IoResult) d rest, s.stack = .iodDelete d :: rest → d.list ≠ .pcapReadEvents := by
    intro s L top other io d rest stack last
    rw [stack] at top
    exact other ((Option.some.inj top).symm.trans last)
  have iod := start.next ⟨.iodNew .initial, .of_calm trivial rfl nofun, rfl⟩
  have reading := iod.next
    ⟨.start ⟨.read, some 0, some 100, 0, 0, [], none⟩ none, .of_calm not_mem_nil rfl nofun, rfl⟩
  have connects := reading.next ⟨.iodDelete 0 .silent, .of_calm trivial rfl nofun, rfl⟩
  have reads := connects.next ⟨.resume none, ⟨trivial, nofun, fun io d rest _ stack last =>
    absurd last (notLast (L := .connectEvents) rfl nofun io d rest stack)⟩, rfl⟩
  have cancelled := reads.next ⟨.resume none, ⟨trivial, fun x notify deleted waits d mem => ?_,
    fun io d rest _ stack last =>
    absurd last (notLast (L := .readEvents) rfl nofun io d rest stack)⟩, rfl⟩
  · have finished := cancelled.next ⟨.resume none, ⟨trivial, nofun, fun io d rest _ stack last =>
      absurd last (notLast (L := .readEvents) rfl nofun io d rest stack)⟩, rfl⟩
    exact ⟨_, finished, rfl, rfl, ((iod_delete_finds_own ⟨false, 64⟩).1 _ finished).2⟩
  · -- no node is saved but that of the read
    obtain rfl := mem_singleton.mp mem
    rintro ⟨L, a, e, -, isSaved, -⟩
    cases L <;> cases isSaved

/-- A pcap read on a handle without a descriptor is only in the pcap list, where
`nsock_iod_delete` takes its `nodeq_pcap` for a `nodeq_io`. -/
theorem iod_delete_misses_pcap :
    ¬ ∀ s, (machine ⟨false, 64⟩).sys.Reachable s → s.NoneMissing := by
  intro found
  have start : (machine ⟨false, 64⟩).sys.Reachable (Run.new 5) := .start ⟨5, rfl⟩
  have iod := start.next ⟨.iodNew .initial, trivial, rfl⟩
  have opened := iod.next ⟨.pcapOpen 0 (-1), trivial, rfl⟩
  have reading := opened.next
    ⟨.start ⟨.pcapRead, some 0, some 100, 0, 0, [], none⟩ none, trivial, rfl⟩
  have connects := reading.next ⟨.iodDelete 0 .silent, trivial, rfl⟩
  have reads := connects.next ⟨.resume none, trivial, rfl⟩
  have writes := reads.next ⟨.resume none, trivial, rfl⟩
  have pcaps := writes.next ⟨.resume none, trivial, rfl⟩
  have finished := pcaps.next ⟨.resume none, trivial, rfl⟩
  exact found _ finished 1 rfl

end Nmap.Nsock
