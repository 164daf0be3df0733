import Nmap.Nsock.Dispatch

/-!
# Events begin

`event_new` takes a struct off the free list or allocates one, and `nsock_pool_add_event` puts
the event in its lists or dispatches it at once. What holds between two steps holds again if
the struct is not one whose handler still runs.
-/

namespace Nmap.Nsock

open Option

variable {cfg : Config} {p q : Npool} {s t : Run} {e : Nat}

variable {nse : Nevent}

theorem Npool.takeStruct_onEvent {f : Nevent → Nevent} (iod : (f nse).iod = nse.iod) :
    (p.takeStruct nse).onEvent p.nextStruct f = p.takeStruct (f nse) := by
  rw [Npool.takeStruct_eq, Npool.takeStruct_eq]
  unfold Npool.onIodOf Npool.taken
  simp only [Function.update_self, iod]
  cases nse.iod <;> simp [Npool.onEvent, Npool.onIod]

theorem Npool.takeStruct_onPending (n : Int) :
    { p.takeStruct nse with eventsPending := n } =
    { p with eventsPending := n }.takeStruct nse := by
  rw [Npool.takeStruct_eq, Npool.takeStruct_eq]
  unfold Npool.onIodOf Npool.taken
  simp only [Npool.nextStruct, Function.update_self]
  cases nse.iod <;> simp [Npool.onIod]

theorem Npool.Roles.takeStruct_old {run held : List Nat} (roles : p.Roles run held) (nse : Nevent) :
    p.nextStruct < (p.takeStruct nse).eventCount ∧
      p.eventCount ≤ (p.takeStruct nse).eventCount ∧
      (∀ x < (p.takeStruct nse).eventCount, x ≠ p.nextStruct → x < p.eventCount) ∧
      ∀ x, x ≠ p.nextStruct → (p.takeStruct nse).events x = p.events x := by
  obtain ⟨small, more, -⟩ := roles.taken_bounds nse
  rw [(Npool.takeStruct_alike p nse).eventCount]
  refine ⟨small, more, ?_, ?_⟩
  · intro x bound other
    unfold Npool.nextStruct at other
    cases free : p.freeEvents with
    | nil =>
      rw [free] at other
      have new : x ≠ p.eventCount := other
      simp only [Npool.taken, free, if_true] at bound
      omega
    | cons y later => simpa [Npool.taken, free] using bound
  · intro x other
    rw [Npool.takeStruct_events, if_neg other]

theorem Frames.takeStruct {stack : List Frame} {run held : List Nat} (frames : Frames p stack)
    (roles : p.Roles run held) (fresh : p.nextStruct ∉ handling stack) (nse : Nevent) :
    Frames (p.takeStruct nse) stack := by
  have alike := Npool.takeStruct_alike p nse
  obtain ⟨-, more, -, others⟩ := roles.takeStruct_old nse
  refine frames.mono more ?_ ?_ ?_ (.inl ?_)
  · intro x handled
    refine others x ?_
    rintro rfl
    exact fresh handled
  · rw [alike.activeIods]
    exact frames.iods
  · rw [alike.lists]
    exact fun _ _ _ mem => mem
  · intro L
    rw [alike.lists]
    rfl

/-- An event that is done before it is added goes to its handler at once. -/
theorem Run.Sound.immediate (sound : s.Sound cfg) (user : UserStack s.stack)
    (fresh : s.pool.nextStruct ∉ handling s.stack) (done : nse.eventDone = true)
    (use : nse.use = s.requests.length) :
    (({ s with
      pool := s.pool.takeStruct nse
      requests := s.requests ++ [nse.request] } : Run).push
      (.immediate s.pool.nextStruct)).eventDispatchAndDelete s.pool.nextStruct true |>.Sound cfg := by
  obtain ⟨small, -, old, others⟩ := sound.pool.roles.takeStruct_old nse
  have event : (s.pool.takeStruct nse).events s.pool.nextStruct = nse := by
    rw [Npool.takeStruct_events, if_pos rfl]
  have idle := sound.pool.roles.nextStruct.1
  have pending : ∀ x, (s.pool.takeStruct nse).Pending x ↔ s.pool.Pending x := by
    intro x
    rw [(Npool.takeStruct_alike s.pool nse).pending]
    exact sound.pool.roles.taken_pending done x
  have pool := sound.pool.take_done done
  have frames : Frames (s.pool.takeStruct nse) (.immediate s.pool.nextStruct :: s.stack) := by
    refine (sound.frames.takeStruct sound.pool.roles fresh nse).push user rfl ?_ ?_ ?_
    · exact nofun
    · exact nofun
    · exact nofun
  have ledger : Ledger (s.pool.takeStruct nse) (s.requests ++ [nse.request])
      (s.deliveries ++ [⟨nse.use, true, nse⟩]) := by
    refine sound.ledger.startDone (d := ⟨nse.use, true, nse⟩) pending ?_ use rfl
    intro x waits
    refine others x ?_
    rintro rfl
    exact idle waits
  refine Run.dispatch_sound true ?_ frames ?_ ?_ small ?_ fresh rfl
  · show Npool.Sound cfg (s.pool.takeStruct nse) (running s.stack)
      (s.pool.nextStruct :: holding s.stack) [((s.pool.takeStruct nse).events _).iod]
    rw [event]
    exact pool
  · show Ledger _ _ (s.deliveries ++ [⟨((s.pool.takeStruct nse).events _).use, true, _⟩])
    rw [show (Run.push _ _).pool = s.pool.takeStruct nse from rfl, event]
    exact ledger
  · intro x bound other still
    show ((s.pool.takeStruct nse).events x).use ∈ s.ended ∨ x ∈ handling s.stack
    rw [others x other]
    exact sound.closed x (old x bound other) fun waits => still ((pending x).mpr waits)
  · exact fun waits => idle ((pending _).mp waits)

/-- An event that waits goes to its lists. -/
theorem Run.Sound.queued (sound : s.Sound cfg) (user : UserStack s.stack)
    (fresh : s.pool.nextStruct ∉ handling s.stack) {i : Nat} (waits : nse.eventDone = false)
    (use : nse.use = s.requests.length) (startable : s.pool.Startable nse)
    (own : ∀ j, nse.iod = some j → j = i) {qs : List EvList}
    (has : (s.pool.takeStruct nse).queues cfg s.pool.nextStruct = some qs) :
    Run.Sound cfg { s with
      pool := (s.pool.takeStruct nse).enqueued s.pool.nextStruct i qs
      requests := s.requests ++ [nse.request] } := by
  obtain ⟨-, -, old, others⟩ := sound.pool.roles.takeStruct_old nse
  have event : (s.pool.takeStruct nse).events s.pool.nextStruct = nse := by
    rw [Npool.takeStruct_events, if_pos rfl]
  have idle := sound.pool.roles.nextStruct.1
  have pending : ∀ x, (s.pool.takeStruct nse).Pending x ↔
      s.pool.Pending x ∨ x = s.pool.nextStruct := by
    intro x
    by_cases here : x = s.pool.nextStruct
    · rw [here, Npool.Pending, event]
      exact ⟨fun _ => .inr rfl, fun _ => waits⟩
    · rw [Npool.Pending, others x here]
      exact ⟨.inl, fun still => still.resolve_right here⟩
  have pool := sound.pool.take_enqueue waits startable own has
  refine ⟨pool, ?_, ?_, ?_⟩
  · refine (sound.frames.takeStruct sound.pool.roles fresh nse).mono (le_refl _) (fun _ _ => rfl) ?_ ?_
      (.inr (sound.frames.shape.no_pass user.open))
    · exact (sound.frames.takeStruct sound.pool.roles fresh nse).iods
    · intro x _ L mem
      show L.node x ∈ if L ∈ qs then (s.pool.takeStruct nse).withFirst _ i L else _
      split
      · exact Npool.mem_withFirst.mpr (.inr mem)
      · exact mem
  · have ledger := sound.ledger.start (q := (s.pool.takeStruct nse).enqueued s.pool.nextStruct i qs)
      idle pending others ?_
    · change Ledger _ (s.requests ++ [((s.pool.takeStruct nse).events _).request]) _ at ledger
      rwa [event] at ledger
    · show ((s.pool.takeStruct nse).events _).use = _
      rw [event]
      exact use
  · intro x bound still
    show ((s.pool.takeStruct nse).events x).use ∈ _ ∨ _
    have other : x ≠ s.pool.nextStruct := by
      rintro rfl
      exact still ((pending _).mpr (.inr rfl))
    rw [others x other]
    exact sound.closed x (old x bound other) fun was => still ((pending x).mpr (.inl was))

/-- The heap and `iod_add_event` -/
theorem Npool.iodAddEvent_eq {i : Nat} :
    (if (p.events e).timeout.isSome then { p with expirables := e :: p.expirables }
      else p).iodAddEvent cfg e i = (p.queues cfg e).map fun qs => p.enqueued e i qs := by
  unfold Npool.iodAddEvent
  by_cases timed : (p.events e).timeout.isSome
  · rw [if_pos timed]
    have same : Npool.queues cfg { p with expirables := e :: p.expirables } e = p.queues cfg e :=
      Npool.queues_congr rfl rfl fun _ _ => rfl
    rw [same]
    cases has : p.queues cfg e with
    | none => rfl
    | some qs =>
      rw [map_some, map_some, Npool.foldl_addFirst (Npool.queues_nodup has)]
      simp only [Npool.enqueued, timed, if_true]
      rfl
  · rw [if_neg timed]
    cases has : p.queues cfg e with
    | none => rfl
    | some qs =>
      rw [map_some, map_some, Npool.foldl_addFirst (Npool.queues_nodup has)]
      simp only [Npool.enqueued, timed]
      rfl

/-- The pool in which `nsock_pool_add_event` begins its work -/
def Npool.counted (cfg : Config) (p : Npool) (type : NseType) : Npool :=
  { p with
    nextEventSerial := (p.getNewEventId cfg type).2, eventsPending := p.eventsPending + 1 }

theorem Npool.counted_alike (p : Npool) (type : NseType) : Npool.Alike p (p.counted cfg type) :=
  { Npool.Alike.refl p with }

variable {a : Start}

theorem Npool.eventNew_eq {n : Nat} :
    { p.eventNew cfg a n with eventsPending := (p.eventNew cfg a n).eventsPending + 1 } =
      (p.counted cfg a.type).takeStruct (p.newNevent cfg a n) := by
  have pending : (p.eventNew cfg a n).eventsPending = p.eventsPending := by
    unfold Npool.eventNew
    rw [Npool.takeStruct_eq]
    unfold Npool.onIodOf
    split <;> rfl
  rw [pending]
  exact Npool.takeStruct_onPending _

/-- What a call that starts an event does with its struct `nse` -/
inductive Run.Started (cfg : Config) (s : Run) (nse : Nevent) : Run → Prop
  | immediate (done : nse.eventDone = true) : Started cfg s nse
      (({ s with
        pool := s.pool.takeStruct nse
        requests := s.requests ++ [nse.request] } : Run).push
        (.immediate s.pool.nextStruct) |>.eventDispatchAndDelete s.pool.nextStruct true)
  | queued {i : Nat} {qs : List EvList} (waits : nse.eventDone = false)
      (own : ∀ j, nse.iod = some j → j = i)
      (has : (s.pool.takeStruct nse).queues cfg s.pool.nextStruct = some qs) : Started cfg s nse
      { s with
        pool := (s.pool.takeStruct nse).enqueued s.pool.nextStruct i qs
        requests := s.requests ++ [nse.request] }
  | added {i : Nat} {qs : List EvList} (waits : nse.eventDone = false)
      (own : ∀ j, nse.iod = some j → j = i)
      (has : (s.pool.takeStruct nse).queues cfg s.pool.nextStruct = some qs)
      (io : Option IoResult) : Started cfg s nse
      (({ s with
        pool := (s.pool.takeStruct nse).enqueued s.pool.nextStruct i qs
        requests := s.requests ++ [nse.request] } : Run).push
        (.added s.pool.nextStruct) |>.processEvent s.pool.nextStruct io)
  | failed {t : Run} (fault : t.fault = some .assertion) : Started cfg s nse t

theorem Run.nsockPoolAddEvent_started {s' : Run} (sslPending : Option (Option IoResult))
    (pool : { s'.pool with eventsPending := s'.pool.eventsPending + 1 } = s.pool.takeStruct nse)
    (rest : s' = { s with pool := s'.pool, requests := s.requests ++ [nse.request] })
    (timer : nse.iod = none → nse.type = .timer) :
    ∃ nse', Npool.Nevent.SameRequest nse nse' ∧
      Started cfg s nse' (s'.nsockPoolAddEvent cfg s.pool.nextStruct sslPending) := by
  have event : ∀ nse, (s.pool.takeStruct nse).events s.pool.nextStruct = nse := by
    intro nse
    rw [Npool.takeStruct_events, if_pos rfl]
  have pools : ∀ p, { s' with pool := p } =
      { s with pool := p, requests := s.requests ++ [nse.request] } := by
    intro p
    rw [rest]
  obtain ⟨nse', same, marked⟩ : ∃ nse', Npool.Nevent.SameRequest nse nse' ∧
      (if nse.type = .read ∧ nse.iod.any (fun i => ((s.pool.takeStruct nse).iods i).ioeof) then
        (s.pool.takeStruct nse).markDone s.pool.nextStruct .eof true
      else s.pool.takeStruct nse) = s.pool.takeStruct nse' := by
    split
    · refine ⟨{ nse with status := .eof, eventDone := true, eof := nse.eof || true },
        ⟨rfl, rfl, rfl⟩, ?_⟩
      exact Npool.takeStruct_onEvent (f := fun nse => { nse with
        status := .eof, eventDone := true, eof := nse.eof || true }) rfl
    · exact ⟨nse, ⟨rfl, rfl, rfl⟩, rfl⟩
  refine ⟨nse', same, ?_⟩
  unfold Run.nsockPoolAddEvent
  rw [pool]
  simp only [event, marked, pools, ← same.request]
  by_cases done : nse'.eventDone = true
  · rw [if_pos done]
    exact .immediate done
  · have waits : nse'.eventDone = false := by simpa using done
    rw [if_neg done, ← same.timeout, ← same.iod, ← same.type]
    cases iod : nse'.iod with
    | none =>
      have kind : nse'.type = .timer := same.type.trans (timer (same.iod.symm.trans iod))
      have has : (s.pool.takeStruct nse').queues cfg s.pool.nextStruct = some [] := by
        rw [Npool.queues, event, kind]
      have queued := Started.queued (i := 0) waits (by rw [iod]; exact nofun) has
      rw [Npool.enqueued_nil, event] at queued
      split at queued
      · next timed =>
          rw [if_pos timed]
          exact queued
      · next timed =>
          rw [if_neg timed]
          exact queued
    | some i =>
      have own : ∀ j, nse'.iod = some j → j = i := by
        intro j iod'
        exact Option.some.inj (iod'.symm.trans iod)
      have lists : Npool.iodAddEvent cfg _ s.pool.nextStruct i = Option.map _ _ :=
        Npool.iodAddEvent_eq (p := s.pool.takeStruct nse')
      rw [event] at lists
      dsimp only
      rw [lists]
      cases has : (s.pool.takeStruct nse').queues cfg s.pool.nextStruct with
      | none => exact .failed rfl
      | some qs =>
        cases sslPending with
        | none => exact .queued waits own has
        | some io =>
          rw [map_some]
          dsimp only
          split
          · exact .added waits own has io
          · exact .queued waits own has

theorem Run.startEvent_started (startable : s.Startable a) (sslPending : Option (Option IoResult)) :
    ∃ nse, Npool.Nevent.SameRequest (s.pool.newNevent cfg a s.requests.length) nse ∧
      Started cfg { s with pool := s.pool.counted cfg a.type } nse
        (s.startEvent cfg a sslPending) := by
  have next : (s.pool.counted cfg a.type).nextStruct = s.pool.nextStruct := rfl
  have first : (s.pool.eventNew cfg a s.requests.length).events s.pool.nextStruct =
      s.pool.newNevent cfg a s.requests.length := by
    have both : Npool.events { s.pool.eventNew cfg a s.requests.length with
        eventsPending := (s.pool.eventNew cfg a s.requests.length).eventsPending + 1 }
        s.pool.nextStruct = ((s.pool.counted cfg a.type).takeStruct
          (s.pool.newNevent cfg a s.requests.length)).events s.pool.nextStruct := by
      rw [Npool.eventNew_eq]
    rwa [← next, Npool.takeStruct_events, if_pos rfl] at both
  unfold Run.startEvent
  dsimp only
  rw [first]
  refine Run.nsockPoolAddEvent_started (s := { s with pool := s.pool.counted cfg a.type })
    sslPending Npool.eventNew_eq rfl ?_
  intro iod
  unfold Run.Startable at startable
  change a.iod = none at iod
  rw [iod] at startable
  exact startable

theorem Run.Sound.started (sound : s.Sound cfg) (user : UserStack s.stack)
    (fresh : s.pool.nextStruct ∉ handling s.stack) {nse : Nevent}
    (use : nse.use = s.requests.length) (startable : s.pool.Startable nse)
    (started : Started cfg s nse t) (alive : t.fault = none) : t.Sound cfg := by
  cases started with
  | immediate done => exact sound.immediate user fresh done use
  | queued waits own has => exact sound.queued user fresh waits use startable own has
  | failed fault =>
    rw [fault] at alive
    cases alive
  | @added i qs waits own has io =>
    have queued := sound.queued user fresh waits use startable own has
    have pending : ((s.pool.takeStruct nse).enqueued s.pool.nextStruct i qs).Pending
        s.pool.nextStruct := by
      show ((s.pool.takeStruct nse).events _).eventDone = false
      rw [Npool.takeStruct_events, if_pos rfl]
      exact waits
    have notRun : s.pool.nextStruct ∉ running s.stack := sound.pool.roles.nextStruct.2.1
    refine Run.Sound.processEvent ?_ ?_ ?_ ?_ io
    · exact {
        pool := queued.pool.hold pending notRun
        frames := queued.frames.push ⟨user, fresh⟩ rfl nofun nofun nofun
        ledger := queued.ledger
        closed := queued.closed }
    · exact pending
    · exact List.mem_cons_self
    · exact rfl

theorem Run.Sound.startEvent (sound : s.Sound cfg) (user : UserStack s.stack)
    (fresh : s.pool.nextStruct ∉ handling s.stack) (startable : s.Startable a)
    (sslPending : Option (Option IoResult)) (alive : (s.startEvent cfg a sslPending).fault = none) :
    (s.startEvent cfg a sslPending).Sound cfg := by
  obtain ⟨nse, same, started⟩ := Run.startEvent_started startable sslPending
  refine Run.Sound.started (sound.alike (Npool.counted_alike s.pool a.type) fun _ => rfl) user fresh
    same.use ?_ started alive
  have iod : nse.iod = a.iod := same.iod
  have type : nse.type = a.type := same.type
  unfold Run.Startable at startable
  constructor
  · intro j own
    rw [iod] at own
    rw [own] at startable
    rw [type]
    exact startable
  · intro none
    rw [iod] at none
    rw [none] at startable
    rw [type]
    exact startable

end Nmap.Nsock
