import Nmap.Nsock.Starts

/-!
# What a step keeps

The books, the calls under way and the ledger stay right through every step of a run, as long
as `event_new` is not handed a struct whose handler still runs.
-/

namespace Nmap.Nsock

open List Option

variable {cfg : Config} {q : Npool} {s t : Run} {e : Nat} {rest : List Frame}

/-! ## Iods -/

theorem Run.Sound.onIods (sound : s.Sound cfg)
    (pool : q.Sound cfg (running s.stack) (holding s.stack) []) (events : q.events = s.pool.events)
    (lists : q.lists = s.pool.lists) (eventCount : q.eventCount = s.pool.eventCount)
    (iods : ∀ f ∈ s.stack, ∀ i ∈ f.nsi?, i ∈ q.activeIods) :
    Run.Sound cfg { s with pool := q } := by
  have pending : ∀ x, q.Pending x ↔ s.pool.Pending x := by
    intro x
    rw [Npool.Pending, Npool.Pending, events]
  refine ⟨pool, ?_, ?_, ?_⟩
  · refine sound.frames.mono (le_of_eq eventCount.symm) ?_ iods ?_ (.inl ?_)
    · exact fun x _ => by rw [events]
    · rw [lists]
      exact fun _ _ _ mem => mem
    · exact fun L => by rw [lists]
  · refine sound.ledger.congr pending fun x _ => ?_
    show (q.events x).use = _ ∧ (q.events x).request = _
    rw [events]
    exact ⟨rfl, rfl⟩
  · intro x small done
    change x < q.eventCount at small
    rw [eventCount] at small
    show (q.events x).use ∈ _ ∨ _
    rw [events]
    exact sound.closed x small fun waits => done ((pending x).mpr waits)

variable {nsi : Nat}

theorem Run.Sound.finishDelete (sound : s.Sound cfg) (active : nsi ∈ s.pool.activeIods)
    (alive : (s.finishDelete nsi).fault = none) : (s.finishDelete nsi).Sound cfg := by
  unfold Run.finishDelete at alive ⊢
  by_cases some : (s.pool.iods nsi).eventsPending ≠ 0
  · rw [if_pos some] at alive
    cases alive
  · rw [if_neg some] at alive ⊢
    have pool := sound.pool.iodDeleted active (not_not.mp some)
    exact sound.onIods pool rfl rfl rfl sound.frames.iods

variable {f : Frame}

theorem Run.Sound.push (sound : s.Sound cfg) (fits : Fits f s.stack) (run : f.run? = none)
    (held : f.held? = none) (handled : f.handled? = none)
    (iods : ∀ i ∈ f.nsi?, i ∈ s.pool.activeIods)
    (begun : ∀ pass, f = .iodEvents pass → ∀ n ∈ pass.current, n ∈ s.pool.lists pass.list) :
    (s.push f).Sound cfg where
  pool := by
    show s.pool.Sound cfg (running (f :: s.stack)) (holding (f :: s.stack)) []
    rw [running, holding, filterMap_cons_none run, filterMap_cons_none held]
    exact sound.pool
  frames := by
    refine sound.frames.push fits handled iods ?_ begun
    rintro pass x rfl
    cases run
  ledger := sound.ledger
  closed x small done := by
    refine (sound.closed x small done).imp id fun mem => ?_
    show x ∈ handling (f :: s.stack)
    rw [handling, filterMap_cons_none handled]
    exact mem

theorem Run.Sound.pop (sound : s.Sound cfg) (top : s.stack = f :: rest) (run : f.run? = none)
    (held : f.held? = none) (handled : f.handled? = none) :
    Run.Sound cfg { s with stack := rest } := by
  have pool := sound.pool
  have frames := sound.frames
  have closed := sound.closed
  rw [top] at pool frames closed
  rw [running, holding, filterMap_cons_none run, filterMap_cons_none held] at pool
  rw [handling, filterMap_cons_none handled] at closed
  exact ⟨pool, frames.tail, sound.ledger, closed⟩

theorem Run.Sound.nsockIodDelete (sound : s.Sound cfg) (user : UserStack s.stack)
    (active : nsi ∈ s.pool.activeIods) (mode : DelMode)
    (alive : (s.nsockIodDelete nsi mode).fault = none) : (s.nsockIodDelete nsi mode).Sound cfg := by
  unfold Run.nsockIodDelete at alive ⊢
  dsimp only at alive ⊢
  by_cases deleted : (s.pool.iods nsi).state = .deleted
  · rw [if_pos deleted]
    exact sound
  · rw [if_neg deleted] at alive ⊢
    by_cases some : 0 < (s.pool.iods nsi).eventsPending
    · rw [if_pos some] at alive ⊢
      by_cases error : mode = .error
      · rw [if_pos error] at alive
        cases alive
      · rw [if_neg error]
        refine sound.push user rfl rfl rfl ?_ nofun
        intro i mem
        cases mem
        exact active
    · rw [if_neg some] at alive ⊢
      exact sound.finishDelete active alive

theorem Run.Sound.nextList (sound : s.Sound cfg) (user : UserStack s.stack) {d : Deletion}
    (active : d.nsi ∈ s.pool.activeIods) (alive : (s.nextList d).fault = none) :
    (s.nextList d).Sound cfg := by
  unfold Run.nextList at alive ⊢
  cases next : d.list.next? with
  | none =>
    rw [next] at alive
    exact sound.finishDelete active alive
  | some L =>
    rw [next] at alive
    dsimp only at alive ⊢
    by_cases some : 0 < (s.pool.iods d.nsi).eventsPending
    · rw [if_pos some]
      refine sound.push user rfl rfl rfl ?_ nofun
      intro i mem
      cases mem
      exact active
    · rw [if_neg some] at alive ⊢
      exact sound.finishDelete active alive

theorem Run.Sound.walk (sound : s.Sound cfg) (user : UserStack s.stack) {d : Deletion}
    (active : d.nsi ∈ s.pool.activeIods) (alive : (s.walk cfg d).fault = none) :
    (s.walk cfg d).Sound cfg := by
  unfold Run.walk at alive ⊢
  cases current : d.current with
  | none =>
    rw [current] at alive
    exact sound.nextList user active alive
  | some n =>
    rw [current] at alive
    dsimp only at alive ⊢
    cases event : lnodeNevent n with
    | none =>
      rw [event] at alive
      exact sound.nextList user active alive
    | some e =>
      rw [event] at alive
      dsimp only at alive ⊢
      by_cases own : (s.pool.events e).iod = some d.nsi
      · rw [if_pos own] at alive ⊢
        refine Run.Sound.neventDelete ?_ ?_ d.notify alive
        · refine sound.push user rfl rfl rfl ?_ nofun
          intro i mem
          cases mem
          exact active
        · trivial
      · rw [if_neg own] at alive ⊢
        exact sound.nextList user active alive

/-! ## The engine -/

theorem Run.Sound.afterEvent (sound : s.Sound cfg) (top : s.stack = f :: rest)
    (run : f.run? = some e) (held : f.held? = none) (handled : f.handled? = none)
    (new : e ∉ handling rest) (noPass : ∀ pass, .iodEvents pass ∉ rest)
    (alive : (Run.afterEvent cfg { s with stack := rest } e).fault = none) :
    (Run.afterEvent cfg { s with stack := rest } e).Sound cfg := by
  have pool := sound.pool
  have frames := sound.frames
  have closed := sound.closed
  rw [top] at pool frames closed
  rw [running, holding, filterMap_cons_some run, filterMap_cons_none held] at pool
  rw [handling, filterMap_cons_none handled] at closed
  unfold Run.afterEvent at alive ⊢
  by_cases done : (s.pool.events e).eventDone = true
  · rw [if_pos done] at alive ⊢
    exact Run.unref_sound pool frames.tail sound.ledger closed (Npool.not_pending.mpr done) new noPass
      alive
  · rw [if_neg done]
    have waits : s.pool.Pending e := by
      by_contra idle
      exact done (Npool.not_pending.mp idle)
    exact ⟨pool.unhold waits, frames.tail, sound.ledger, closed⟩

/-- What `process_iod_events` leaves on the stack is `nsock_loop`. -/
theorem Run.Sound.beginPass (sound : s.Sound cfg) (bottom : s.stack = [.loop])
    (active : nsi ∈ s.pool.activeIods) (L : EvList) : (s.push (s.beginPass nsi L)).Sound cfg := by
  refine sound.push bottom rfl rfl rfl ?_ ?_
  · intro i mem
    cases mem
    exact active
  · intro pass eq n first
    cases eq
    change n ∈ (s.pool.iods nsi).first L at first
    rw [sound.pool.lists.first nsi active L] at first
    exact firstWith_mem first

variable {pass : IodPass}

theorem Run.Sound.nextPass (sound : s.Sound cfg) (bottom : s.stack = [.loop])
    (active : pass.nsi ∈ s.pool.activeIods) : (s.nextPass pass).Sound cfg := by
  unfold Run.nextPass
  cases pass.list.next? with
  | none => exact sound
  | some L => exact sound.beginPass bottom active L

theorem Run.Sound.take (sound : s.Sound cfg) (bottom : s.stack = [.loop]) (waits : s.pool.Pending e)
    (run : f.run? = some e) (held : f.held? = none) (handled : f.handled? = none)
    (fits : Fits f [.loop]) (iods : ∀ i ∈ f.nsi?, i ∈ s.pool.activeIods)
    (passes : ∀ pass x, f = .iodEvent pass x →
      pass.current = some (pass.list.node x) ∧ pass.list.node x ∈ s.pool.lists pass.list) :
    (s.push f).Sound cfg := by
  have notRun : e ∉ running s.stack := by
    rw [bottom]
    exact not_mem_nil
  refine ⟨?_, ?_, sound.ledger, ?_⟩
  · show s.pool.Sound cfg (running (f :: s.stack)) (holding (f :: s.stack)) []
    rw [running, holding, filterMap_cons_some run, filterMap_cons_none held]
    exact sound.pool.hold waits notRun
  · refine sound.frames.push (by rwa [bottom]) handled iods passes ?_
    rintro pass rfl
    cases run
  · intro x small done
    refine (sound.closed x small done).imp id fun mem => ?_
    show x ∈ handling (f :: s.stack)
    rw [handling, filterMap_cons_none handled]
    exact mem

/-- On top of `nsock_loop` every event in a list waits. -/
theorem Run.pending_of_live (bottom : s.stack = [.loop])
    (live : s.pool.Live (running s.stack) e) : s.pool.Pending e := by
  rw [bottom] at live
  exact live.resolve_right not_mem_nil

theorem Run.Sound.passOn (sound : s.Sound cfg) (bottom : s.stack = [.loop])
    (active : pass.nsi ∈ s.pool.activeIods) (begun : ∀ n ∈ pass.current, n ∈ s.pool.lists pass.list)
    (io : Option IoResult) :
    (s.passOn pass io).Sound cfg := by
  unfold Run.passOn
  cases current : pass.current with
  | none => exact sound.nextPass bottom active
  | some n =>
    have listed := begun n current
    have node := sound.pool.lists.node _ n listed
    have event : pass.list.nevent n = some n.event := by
      rw [node, EvList.nevent_node, EvList.event_node]
    dsimp only
    rw [event]
    dsimp only
    by_cases last : s.pool.lnodePrev n = pass.last
    · rw [if_pos last]
      exact sound.nextPass bottom active
    · rw [if_neg last]
      by_cases own : (s.pool.events n.event).iod = some pass.nsi
      · rw [if_pos own]
        have waits := Run.pending_of_live bottom (sound.pool.lists.listed _ n listed)
        refine Run.Sound.processEvent ?_ ?_ ?_ ?_ io
        · refine sound.take bottom waits rfl rfl rfl rfl ?_ ?_
          · intro i mem
            cases mem
            exact active
          · intro pass' x eq
            cases eq
            rw [← node]
            exact ⟨current, listed⟩
        · exact waits
        · exact mem_cons_self
        · exact rfl
      · rw [if_neg own]
        exact sound.nextPass bottom active

/-- `process_iod_events` comes back from an event and goes on behind it. -/
theorem Run.Sound.iodEvent (sound : s.Sound cfg) (top : s.stack = .iodEvent pass e :: rest)
    (alive : (Run.afterEvent cfg { s with stack := rest } e).fault = none) :
    ((Run.afterEvent cfg { s with stack := rest } e).push
      (.iodEvents { pass with current := pass.current.bind s.pool.lnodeNext })).Sound cfg := by
  have frames := sound.frames
  rw [top] at frames
  have bottom : rest = [.loop] := frames.shape.1
  subst bottom
  obtain ⟨current, listed⟩ := frames.passes pass e mem_cons_self
  have back := sound.afterEvent top rfl rfl rfl not_mem_nil (by simp) alive
  have active : pass.nsi ∈ (Run.afterEvent cfg { s with stack := [.loop] } e).pool.activeIods ∧
      ∀ n, nextOf (pass.list.node e) (s.pool.lists pass.list) = some n →
        n ∈ (Run.afterEvent cfg { s with stack := [.loop] } e).pool.lists pass.list := by
    have was : pass.nsi ∈ s.pool.activeIods := frames.iods _ mem_cons_self _ rfl
    unfold Run.afterEvent Run.unref at alive ⊢
    dsimp only at alive ⊢
    split
    · next done =>
        rw [if_pos done] at alive
        cases unref : s.pool.neventUnref cfg e with
        | none =>
          rw [unref] at alive
          cases alive
        | some q =>
          have un := Npool.neventUnref_unlinked unref
          refine ⟨?_, fun n next => ?_⟩
          · show _ ∈ q.activeIods
            rw [un.activeIods]
            exact was
          · exact un.kept (nextOf_mem next) (nextOf_ne (sound.pool.lists.nodup _) next)
    · exact ⟨was, fun n next => nextOf_mem next⟩
  have stack : (Run.afterEvent cfg { s with stack := [.loop] } e).stack = [.loop] := by
    unfold Run.afterEvent Run.unref
    split
    · split <;> rfl
    · rfl
  refine back.push ?_ rfl rfl rfl ?_ ?_
  · exact stack
  · intro i mem
    cases mem
    exact active.1
  · intro pass' eq n next
    cases eq
    change n ∈ pass.current.bind s.pool.lnodeNext at next
    rw [current, bind_some, sound.pool.lists.lnodeNext_eq listed] at next
    exact active.2 n next

theorem Run.Sound.resume (sound : s.Sound cfg) (io : Option IoResult)
    (step : s.resume cfg io = some t) (alive : t.fault = none) : t.Sound cfg := by
  have frames := sound.frames
  unfold Run.resume at step
  split at step
  · next pass rest top =>
      obtain rfl := Option.some.inj step
      rw [top] at frames
      have bottom : rest = [.loop] := frames.shape.1
      have back := sound.pop top rfl rfl rfl
      exact back.passOn bottom (frames.iods _ mem_cons_self _ rfl)
        (frames.begun pass mem_cons_self) io
  · next pass e rest top =>
      obtain rfl := Option.some.inj step
      exact sound.iodEvent top alive
  · next e rest top =>
      obtain rfl := Option.some.inj step
      rw [top] at frames
      have bottom : rest = [.loop] := frames.shape.1
      subst bottom
      exact sound.afterEvent top rfl rfl rfl not_mem_nil (by simp) alive
  · next e rest top =>
      obtain rfl := Option.some.inj step
      rw [top] at frames
      have fits : UserStack rest ∧ e ∉ handling rest := frames.shape.1
      exact sound.afterEvent top rfl rfl rfl fits.2 (frames.shape.2.no_pass fits.1.open) alive
  · next e rest top =>
      obtain rfl := Option.some.inj step
      have pool := sound.pool
      have closed := sound.closed
      rw [top] at pool frames closed
      refine ⟨pool.release, ?_, ?_, closed⟩
      · exact frames.tail.mono (le_refl _) (fun _ _ => rfl) frames.tail.iods
          (fun _ _ _ mem => mem) (.inl fun _ => rfl)
      · exact sound.ledger.congr (fun _ => Iff.rfl) fun _ _ => ⟨rfl, rfl⟩
  · next d rest top =>
      obtain rfl := Option.some.inj step
      rw [top] at frames
      have back := sound.pop top rfl rfl rfl
      exact back.walk frames.shape.1 (frames.iods _ mem_cons_self _ rfl) alive
  · cases step

theorem Run.Sound.engine (sound : s.Sound cfg) (bottom : s.stack = [.loop]) {i : Input}
    (step : s.engine i = some t) : t.Sound cfg := by
  cases Run.driven_of_engine step with
  | processIod active =>
    exact sound.beginPass bottom active .connectEvents
  | @processExpired e earliest =>
    have live := ((sound.pool.lists.heap e).mp earliest.1).1
    have waits := Run.pending_of_live bottom live
    refine Run.Sound.processEvent ?_ ?_ ?_ ?_ none
    · exact sound.take bottom waits rfl rfl rfl rfl nofun nofun
    · exact waits
    · exact mem_cons_self
    · exact rfl
  | reap active deleted =>
    have pool := sound.pool
    rw [bottom] at pool
    refine sound.onIods ?_ rfl rfl rfl ?_
    · rw [bottom]
      exact pool.reapIod active deleted
    · rw [bottom]
      intro f mem
      obtain rfl := mem_singleton.mp mem
      exact nofun
  | endLoop =>
    exact sound.pop bottom rfl rfl rfl

/-- `event_new` is not handed a struct whose handler runs. -/
def Run.Fresh (s : Run) : Input → Prop
  | .start _ _ => s.pool.nextStruct ∉ handling s.stack
  | _ => True

theorem Run.Sound.call (sound : s.Sound cfg) (user : UserStack s.stack) {i : Input}
    (fresh : s.Fresh i) (step : s.call cfg i = some t) (alive : t.fault = none) : t.Sound cfg := by
  cases Run.called_of_call step with
  | @iodNew state =>
    have same : (s.pool.iodNew state).events = s.pool.events ∧
        (s.pool.iodNew state).lists = s.pool.lists ∧
        (s.pool.iodNew state).eventCount = s.pool.eventCount ∧
        ∀ i ∈ s.pool.activeIods, i ∈ (s.pool.iodNew state).activeIods := by
      unfold Npool.iodNew
      split <;> exact ⟨rfl, rfl, rfl, fun i mem => mem_append_left _ mem⟩
    refine sound.onIods (sound.pool.iodNew state) same.1 same.2.1 same.2.2.1 ?_
    exact fun f mem i nsi => same.2.2.2 i (sound.frames.iods f mem i nsi)
  | @pcapOpen _ desc active inUse without =>
    exact sound.onIods (sound.pool.pcapOpen desc inUse without) rfl rfl rfl sound.frames.iods
  | start startable =>
    exact sound.startEvent user fresh startable _ alive
  | @cancel id notify =>
    unfold Run.nsockEventCancel at alive ⊢
    cases type : Npool.getEventIdType id with
    | none =>
      rw [type] at alive
      cases alive
    | some type' =>
      rw [type] at alive
      dsimp only at alive ⊢
      cases found : s.pool.findEvent id type' with
      | none => exact sound
      | some e =>
        rw [found] at alive
        exact sound.neventDelete user.open notify alive
  | iodDelete active => exact sound.nsockIodDelete user active _ alive
  | nsockLoop empty =>
    have pushed := sound.push (f := .loop) empty rfl rfl rfl nofun nofun
    unfold Run.push at pushed
    rwa [empty] at pushed
  | @ret e seen rest top =>
    have pool := sound.pool
    have frames := sound.frames
    have closed := sound.closed
    rw [top] at pool frames closed
    obtain ⟨small, -, done⟩ := frames.handlers e seen mem_cons_self
    have new := (nodup_cons.mp frames.handlersNodup).1
    refine Run.eventDelete_sound (s := { s with stack := rest }) pool frames.tail sound.ledger ?_
      small done new
    intro x bound other idle
    refine (closed x bound idle).imp id fun mem => ?_
    exact (mem_cons.mp mem).resolve_left other

theorem Run.userRuns_iff : s.userRuns = true ↔ UserStack s.stack := by
  unfold Run.userRuns UserStack
  split <;> simp_all

theorem Run.Sound.step (sound : s.Sound cfg) {i : Input} (fresh : s.Fresh i)
    (step : s.step cfg i = some t) (alive : t.fault = none) : t.Sound cfg := by
  unfold Run.step at step
  split at step
  · cases step
  · split at step
    · next now _ =>
        obtain rfl := Option.some.inj step
        exact sound.alike { Npool.Alike.refl s.pool with } fun _ => rfl
    · exact sound.resume _ step alive
    · next bottom => exact sound.engine bottom step
    · next top =>
        simp only [ite_none_right_eq_some] at step
        exact sound.call (Run.userRuns_iff.mp step.1) fresh step.2 alive

theorem Npool.new_idle (tod e : Nat) : ¬ (Npool.new tod).Pending e := by
  rw [Npool.not_pending]
  rfl

theorem Npool.new_sound (tod : Nat) : Npool.Sound cfg (Npool.new tod) [] [] [] := by
  have idle : ∀ e, ¬ (Npool.new tod).Live [] e := by
    rintro e (waits | mem)
    · exact Npool.new_idle tod e waits
    · cases mem
  refine ⟨?_, ?_, nofun⟩
  · constructor
    · exact fun _ => nodup_nil
    · exact nofun
    · exact nofun
    · exact nofun
    · exact nofun
    · exact fun e live => absurd live (idle e)
    · exact nodup_nil
    · exact fun e => ⟨nofun, fun both => absurd both.1 (idle e)⟩
    · exact fun e live => absurd live (idle e)
    · exact fun e live => absurd live (idle e)
    · exact fun _ => trivial
    · exact nofun
  · constructor
    · exact nofun
    · exact nodup_nil
    · exact nofun
    · exact nodup_nil
    · exact nofun
    · exact nodup_nil
    · exact fun e waits => absurd waits (Npool.new_idle tod e)
    · exact fun e waits => absurd waits (Npool.new_idle tod e)
    · exact fun e live => absurd live (idle e)
    · exact nodup_nil
    · exact nodup_nil
    · exact nofun
    · rintro i (mem | mem) <;> cases mem

theorem Frames.nil (p : Npool) : Frames p [] :=
  ⟨trivial, fun _ _ mem => absurd mem not_mem_nil, nodup_nil,
    fun _ mem => absurd mem not_mem_nil, fun _ _ mem => absurd mem not_mem_nil,
    fun _ mem => absurd mem not_mem_nil⟩

theorem Ledger.nil {p : Npool} (idle : ∀ e, ¬ p.Pending e) : Ledger p [] [] :=
  ⟨fun e waits => absurd waits (idle e), fun e _ waits => absurd waits (idle e),
    fun _ mem => absurd mem not_mem_nil, nodup_nil,
    fun u small => absurd small (Nat.not_lt_zero u)⟩

theorem Run.new_sound (tod : Nat) : (Run.new tod).Sound cfg := by
  refine ⟨Npool.new_sound tod, Frames.nil _, Ledger.nil (Npool.new_idle tod), ?_⟩
  intro e small
  exact absurd small (Nat.not_lt_zero e)

end Nmap.Nsock
