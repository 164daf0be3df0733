import Nmap.Nsock.Stack

/-!
# Events end

What holds between two steps, and that it holds again once an event was dispatched, deleted,
worked on or taken off the lists.
-/

namespace Nmap.Nsock

open List Function

variable {cfg : Config} {p q : Npool} {s t : Run} {e : Nat} {rest : List Frame}

/-- What holds between two steps. An event that is done was deleted, or its handler runs. -/
structure Run.Sound (cfg : Config) (s : Run) : Prop where
  pool : s.pool.Sound cfg (running s.stack) (holding s.stack) []
  frames : Frames s.pool s.stack
  ledger : Ledger s.pool s.requests s.deliveries
  closed : ∀ e < s.pool.eventCount, ¬ s.pool.Pending e →
    (s.pool.events e).use ∈ s.ended ∨ e ∈ handling s.stack

theorem Frames.not_handling {stack : List Frame} (frames : Frames p stack) (waits : p.Pending e) :
    e ∉ handling stack := by
  intro mem
  obtain ⟨seen, mem⟩ := mem_handling.mp mem
  exact (frames.handlers e seen mem).2.2 waits

theorem Run.Sound.alike (sound : s.Sound cfg) (alike : Npool.Alike s.pool q)
    (counts : ∀ i, (q.iods i).eventsPending = (s.pool.iods i).eventsPending) :
    Run.Sound cfg { s with pool := q } where
  pool := sound.pool.alike_same alike counts
  frames := sound.frames.alike alike
  ledger := by
    refine sound.ledger.congr alike.pending fun x _ => ?_
    show (q.events x).use = _ ∧ (q.events x).request = _
    rw [alike.events]
    exact ⟨rfl, rfl⟩
  closed x small done := by
    change x < q.eventCount at small
    rw [alike.eventCount] at small
    show (q.events x).use ∈ _ ∨ _
    rw [alike.events]
    exact sound.closed x small fun waits => done ((alike.pending x).mpr waits)

/-! ## Dispatch -/

/-- `event_delete` of an event that is done and in no handler -/
theorem Run.eventDelete_sound (pool : s.pool.Sound cfg (running s.stack) (holding s.stack) [])
    (frames : Frames s.pool s.stack) (ledger : Ledger s.pool s.requests s.deliveries)
    (closed : ∀ x < s.pool.eventCount, x ≠ e → ¬ s.pool.Pending x →
      (s.pool.events x).use ∈ s.ended ∨ x ∈ handling s.stack)
    (small : e < s.pool.eventCount) (done : ¬ s.pool.Pending e) (new : e ∉ handling s.stack) :
    (s.eventDelete e).Sound cfg := by
  have harmless : Npool.Harmless s.pool (running s.stack) e Nevent.deleted :=
    { type := rfl, iod := rfl, timeout := rfl, done := fun _ => rfl, allocated := small
      owned := fun waits => absurd waits done }
  have others : ∀ x, x ≠ e → (s.pool.onEvent e Nevent.deleted).events x = s.pool.events x := by
    intro x other
    rw [Npool.onEvent_events, if_neg other]
  have pending : ∀ x, (s.pool.onEvent e Nevent.deleted).Pending x ↔ s.pool.Pending x := by
    intro x
    rw [Npool.Pending, Npool.Pending, Npool.onEvent_events]
    by_cases here : x = e
    · subst here
      rw [if_pos rfl, Npool.not_pending.mp done]
      exact Iff.rfl
    · rw [if_neg here]
  constructor
  · refine pool.touch harmless ?_
    rw [Npool.not_pending.mp done]
    rfl
  · refine frames.mono (le_refl _) ?_ frames.iods (fun _ _ _ mem => mem) (.inl fun _ => rfl)
    intro x mem
    refine others x ?_
    rintro rfl
    exact new mem
  · refine ledger.congr pending fun x waits => ?_
    have other : x ≠ e := by
      rintro rfl
      exact done waits
    show ((s.pool.onEvent e Nevent.deleted).events x).use = _ ∧ _
    rw [others x other]
    exact ⟨rfl, congrArg Nevent.request (others x other)⟩
  · intro x small' done'
    show ((s.pool.onEvent e Nevent.deleted).events x).use ∈ s.ended ++ [(s.pool.events e).use] ∨ _
    by_cases here : x = e
    · subst here
      rw [Npool.onEvent_events, if_pos rfl]
      exact .inl (mem_append_right _ (mem_singleton.mpr rfl))
    · rw [others x here]
      have was := closed x small' here fun waits => done' ((pending x).mpr waits)
      exact was.imp (mem_append_left _) id

/-- `event_dispatch_and_delete` of an event that its iod still counts -/
theorem Run.dispatch_sound (notify : Bool)
    (pool : s.pool.Sound cfg (running s.stack) (holding s.stack) [(s.pool.events e).iod])
    (frames : Frames s.pool s.stack)
    (ledger : Ledger s.pool s.requests
      (s.deliveries ++ [⟨(s.pool.events e).use, notify, s.pool.events e⟩]))
    (closed : ∀ x < s.pool.eventCount, x ≠ e → ¬ s.pool.Pending x →
      (s.pool.events x).use ∈ s.ended ∨ x ∈ handling s.stack)
    (small : e < s.pool.eventCount) (done : ¬ s.pool.Pending e) (new : e ∉ handling s.stack)
    (caller : CalledBy e s.stack) : (s.eventDispatchAndDelete e notify).Sound cfg := by
  have alike := Npool.countDispatched_alike s.pool e
  have pool' := pool.countDispatched
  have frames' := frames.alike alike
  have ledger' : Ledger (s.pool.countDispatched e) s.requests
      (s.deliveries ++ [⟨(s.pool.events e).use, notify, s.pool.events e⟩]) := by
    refine ledger.congr alike.pending fun x _ => ?_
    rw [alike.events]
    exact ⟨rfl, rfl⟩
  have done' : ¬ (s.pool.countDispatched e).Pending e := fun waits => done ((alike.pending e).mp waits)
  have closed' : ∀ x < (s.pool.countDispatched e).eventCount, x ≠ e →
      ¬ (s.pool.countDispatched e).Pending x →
      ((s.pool.countDispatched e).events x).use ∈ s.ended ∨ x ∈ handling s.stack := by
    intro x bound other idle
    rw [alike.eventCount] at bound
    rw [alike.events]
    exact closed x bound other fun waits => idle ((alike.pending x).mpr waits)
  have small' : e < (s.pool.countDispatched e).eventCount := by
    rw [alike.eventCount]
    exact small
  unfold Run.eventDispatchAndDelete
  cases notify with
  | true =>
    refine ⟨pool', ?_, ledger', ?_⟩
    · exact frames'.call small' done' new caller
    · intro x bound idle
      by_cases here : x = e
      · exact .inr (mem_handling.mpr ⟨_, by rw [here]; exact mem_cons_self⟩)
      · exact (closed' x bound here idle).imp id (mem_cons_of_mem e)
  | false => exact Run.eventDelete_sound pool' frames' ledger' closed' small' done' new

/-- `process_event` of an event that waits -/
theorem Run.Sound.processEvent (sound : s.Sound cfg) (waits : s.pool.Pending e)
    (mem : e ∈ running s.stack) (caller : CalledBy e s.stack) (io : Option IoResult) :
    (s.processEvent e io).Sound cfg := by
  have adv := Npool.Advanced.advance s.pool e io
  have new := sound.frames.not_handling waits
  have pool := sound.pool.advanced adv mem waits
  unfold Run.processEvent
  generalize s.pool.advance e io = q at *
  have count : q.eventCount = s.pool.eventCount := adv.alike.eventCount
  have frames : Frames q s.stack := by
    refine sound.frames.mono (le_of_eq count.symm) ?_ ?_ ?_ (.inl ?_)
    · intro x handled
      refine adv.events_ne ?_
      rintro rfl
      exact new handled
    · rw [adv.alike.activeIods]
      exact sound.frames.iods
    · rw [adv.alike.lists]
      exact fun _ _ _ listed => listed
    · intro L
      rw [adv.alike.lists]
      rfl
  have closed : ∀ x < q.eventCount, x ≠ e → ¬ q.Pending x →
      (q.events x).use ∈ s.ended ∨ x ∈ handling s.stack := by
    intro x small other done
    rw [adv.events_ne other]
    rw [adv.pending_ne other] at done
    exact sound.closed x (by omega) done
  by_cases waits' : q.Pending e
  · rw [if_pos waits'] at pool
    have pending : ∀ x, q.Pending x ↔ s.pool.Pending x := by
      intro x
      by_cases here : x = e
      · rw [here]
        exact ⟨fun _ => waits, fun _ => waits'⟩
      · exact adv.pending_ne here
    have notDone : ¬ (q.events e).eventDone = true := by
      rw [← Npool.not_pending]
      exact not_not_intro waits'
    dsimp only
    rw [if_neg notDone]
    refine ⟨pool, frames, ?_, ?_⟩
    · refine sound.ledger.congr pending fun x _ => ?_
      by_cases here : x = e
      · rw [here]
        exact ⟨adv.same.use, adv.same.request⟩
      · show (q.events x).use = _ ∧ (q.events x).request = _
        rw [adv.events_ne here]
        exact ⟨rfl, rfl⟩
    · intro x small done
      refine closed x small ?_ done
      rintro rfl
      exact done waits'
  · rw [if_neg waits', ← adv.same.iod] at pool
    dsimp only
    rw [if_pos (Npool.not_pending.mp waits')]
    have small : e < q.eventCount := by
      rw [count]
      exact sound.pool.roles.unused e waits
    refine Run.dispatch_sound (s := { s with pool := q }) true pool frames ?_ closed small waits' new
      caller
    refine sound.ledger.deliver waits ?_ (fun x other => adv.events_ne other) adv.same.use rfl
      adv.same.request
    intro x
    by_cases here : x = e
    · rw [here]
      exact ⟨fun still => absurd still waits', fun both => absurd rfl both.2⟩
    · rw [adv.pending_ne here]
      exact ⟨fun still => ⟨still, here⟩, fun both => both.1⟩

/-! ## Off the lists -/

/-- What `nevent_unref` leaves of an event and of the others -/
structure Npool.Unlinked (p q : Npool) (e : Nat) : Prop where
  event : q.events e = { p.events e with timeout := none }
  others : ∀ x, x ≠ e → q.events x = p.events x
  eventCount : q.eventCount = p.eventCount
  activeIods : q.activeIods = p.activeIods
  freeEvents : q.freeEvents = p.freeEvents ++ [e]
  pending : ∀ x, q.Pending x ↔ p.Pending x
  lists : ∀ L, q.lists L = p.lists L ∨ q.lists L = (p.lists L).erase (L.node e)

theorem Npool.neventUnref_unlinked (unref : p.neventUnref cfg e = some q) : p.Unlinked q e := by
  rw [Npool.neventUnref_eq] at unref
  obtain ⟨qs, -, rfl⟩ := Option.map_eq_some_iff.mp unref
  have lists : ∀ L, (p.dequeued e qs).lists L =
      if L ∈ qs then (p.lists L).erase (L.node e) else p.lists L := fun _ => rfl
  refine ⟨?_, ?_, rfl, rfl, rfl, Npool.dequeued_pending, ?_⟩
  · exact update_self ..
  · exact fun x other => update_of_ne other _ _
  · intro L
    rw [lists]
    split
    · exact .inr rfl
    · exact .inl rfl

theorem Npool.Unlinked.kept (un : p.Unlinked q e) {L : EvList} {n : Lnode} (mem : n ∈ p.lists L)
    (other : n ≠ L.node e) : n ∈ q.lists L := by
  rcases un.lists L with same | erased
  · rwa [same]
  · rw [erased]
    exact (mem_erase_of_ne other).mpr mem

theorem Npool.Unlinked.same (un : p.Unlinked q e) (x : Nat) :
    (q.events x).use = (p.events x).use ∧ (q.events x).request = (p.events x).request := by
  by_cases here : x = e
  · rw [here, un.event]
    exact ⟨rfl, rfl⟩
  · rw [un.others x here]
    exact ⟨rfl, rfl⟩

theorem Frames.unlinked {stack : List Frame} (frames : Frames p stack) (un : p.Unlinked q e)
    (new : e ∉ handling stack) (notRun : e ∉ running stack)
    (noPass : ∀ pass, .iodEvents pass ∉ stack) : Frames q stack := by
  refine frames.mono (le_of_eq un.eventCount.symm) ?_ ?_ ?_ (.inr noPass)
  · intro x handled
    refine un.others x ?_
    rintro rfl
    exact new handled
  · rw [un.activeIods]
    exact frames.iods
  · intro x mem L listed
    refine un.kept listed fun eq => ?_
    rw [EvList.node_inj eq] at mem
    exact notRun mem

/-- `nevent_unref` by the call that has the event -/
theorem Run.unref_sound (pool : s.pool.Sound cfg (e :: running s.stack) (holding s.stack) [])
    (frames : Frames s.pool s.stack) (ledger : Ledger s.pool s.requests s.deliveries)
    (closed : ∀ x < s.pool.eventCount, ¬ s.pool.Pending x →
      (s.pool.events x).use ∈ s.ended ∨ x ∈ handling s.stack)
    (done : ¬ s.pool.Pending e) (new : e ∉ handling s.stack)
    (noPass : ∀ pass, .iodEvents pass ∉ s.stack) (alive : (s.unref cfg e).fault = none) :
    (s.unref cfg e).Sound cfg := by
  unfold Run.unref at alive ⊢
  cases unref : s.pool.neventUnref cfg e with
  | none =>
    rw [unref] at alive
    cases alive
  | some q =>
    have un := Npool.neventUnref_unlinked unref
    have notRun := (nodup_cons.mp pool.roles.runNodup).1
    refine ⟨pool.unref done unref, frames.unlinked un new notRun noPass, ?_, ?_⟩
    · exact ledger.congr un.pending fun x _ => un.same x
    · intro x small idle
      change x < q.eventCount at small
      rw [un.eventCount] at small
      show (q.events x).use ∈ _ ∨ _
      rw [(un.same x).1]
      exact closed x small fun waits => idle ((un.pending x).mpr waits)

theorem Npool.handleCancelled_idle (p : Npool) (e : Nat) : ¬ (p.handleCancelled e).Pending e := by
  rw [Npool.not_pending, Npool.handleCancelled, Npool.markDone, Npool.onEvent_events, if_pos rfl]

/-- `nevent_delete` -/
theorem Run.Sound.neventDelete (sound : s.Sound cfg) (opened : Open s.stack) (notify : Bool)
    (alive : (s.neventDelete cfg e notify).fault = none) :
    (s.neventDelete cfg e notify).Sound cfg := by
  unfold Run.neventDelete at alive ⊢
  by_cases done : (s.pool.events e).eventDone = true
  · rw [if_pos done]
    exact sound
  · rw [if_neg done] at alive ⊢
    have waits : s.pool.Pending e := by
      by_contra idle
      exact done (Npool.not_pending.mp idle)
    have notRun : e ∉ running s.stack := fun mem => sound.frames.running_done opened e mem waits
    have new := sound.frames.not_handling waits
    have small := sound.pool.roles.unused e waits
    have cancelled := (sound.pool.hold waits notRun).finish (f := fun nse => { nse with
        status := .cancelled, eventDone := true, eof := nse.eof || false })
      { type := rfl, iod := rfl, timeout := rfl, done := fun _ => rfl, allocated := small
        owned := fun _ => mem_cons_self } waits rfl
    change Npool.Sound cfg (s.pool.handleCancelled e) _ _ _ at cancelled
    have event : (s.pool.handleCancelled e).events e = { s.pool.events e with
        status := .cancelled, eventDone := true, eof := (s.pool.events e).eof || false } :=
      update_self ..
    have others : ∀ x, x ≠ e → (s.pool.handleCancelled e).events x = s.pool.events x :=
      fun x other => update_of_ne other _ _
    have idle := s.pool.handleCancelled_idle e
    cases unref : (s.pool.handleCancelled e).neventUnref cfg e with
    | none =>
      rw [unref] at alive
      cases alive
    | some q =>
      have un := Npool.neventUnref_unlinked unref
      have idle' : ¬ q.Pending e := fun still => idle ((un.pending e).mp still)
      have same : ∀ x, x ≠ e → q.events x = s.pool.events x := by
        intro x other
        rw [un.others x other, others x other]
      have pool := cancelled.unref idle unref
      have iod : (q.events e).iod = (s.pool.events e).iod := by
        rw [un.event, event]
      rw [← iod] at pool
      have frames : Frames (s.pool.handleCancelled e) s.stack := by
        refine sound.frames.mono (le_refl _) ?_ sound.frames.iods (fun _ _ _ mem => mem)
          (.inl fun _ => rfl)
        intro x handled
        refine others x ?_
        rintro rfl
        exact new handled
      refine Run.dispatch_sound (s := { s with pool := q }) notify pool
        (frames.unlinked un new notRun (sound.frames.shape.no_pass opened)) ?_ ?_ ?_ idle' new
        (opened.calledBy e)
      · refine sound.ledger.deliver waits ?_ same ?_ rfl ?_
        · intro x
          by_cases here : x = e
          · rw [here]
            exact ⟨fun still => absurd still idle', fun both => absurd rfl both.2⟩
          · rw [Npool.Pending, Npool.Pending, same x here]
            exact ⟨fun still => ⟨still, here⟩, fun both => both.1⟩
        · show (q.events e).use = _
          rw [un.event, event]
        · show (q.events e).request = _
          rw [un.event, event]
          rfl
      · intro x bound other still
        change x < q.eventCount at bound
        rw [un.eventCount] at bound
        change ¬ (q.events x).eventDone = false at still
        rw [same x other] at still
        show (q.events x).use ∈ _ ∨ _
        rw [same x other]
        exact sound.closed x bound still
      · show e < q.eventCount
        rw [un.eventCount]
        exact small

end Nmap.Nsock
