import Nmap.Dns.ResolverBooks

/-!
# The main loop of the resolver (`resolve_nsock`)

`resolve_nsock` calls `nsock_loop` once before its main loop and once at the end of each round.
Only the first call sets the variable that the loop tests, so a later call that returns because
nothing can happen any more does not end the loop.
-/

namespace Nmap.Dns

/-- `enum nsock_loopstatus` -/
inductive LoopStatus
  | noEvents
  | timeout
  | error
  | quit
  deriving DecidableEq

/-- Where `resolve_nsock` is: in its first call of `nsock_loop`, in one of its main loop, or
behind the loop -/
inductive Phase
  | firstLoop
  | looping
  | left
  deriving DecidableEq

/-- `resolve_nsock` and its variables -/
structure ResolveRun (n m : Nat) where
  resolver : Resolver n m
  phase : Phase
  status : LoopStatus
  sinceLast : Int
  timeout : Int

/-- A handler is called, or `nsock_loop` returns. -/
inductive LoopEvent (n m : Nat)
  | handler (e : ResolverEvent n m)
  | loopReturns (status : LoopStatus) (now : Timeval)

namespace ResolveRun

variable {n m : Nat} (cfg : Config m)

/-- Before the first call of `nsock_loop` -/
def start (n m : Nat) : ResolveRun n m := ⟨Resolver.start n m, .firstLoop, .error, 0, 0⟩

/-- A round of the main loop, up to its call of `nsock_loop` -/
def round (r : ResolveRun n m) (now : Timeval) : ResolveRun n m :=
  let sinceLast := r.sinceLast + r.timeout
  let adjustTiming := decide (sinceLast > minDnsTimeout)
  let (resolver, timeout) := r.resolver.dealWithTimedoutReads cfg now adjustTiming
  let resolver := resolver.doPossibleWrites cfg
  { r with
    resolver := resolver
    phase := if resolver.totalReqs ≤ 0 then .left else .looping
    sinceLast := if adjustTiming then 0 else sinceLast
    timeout := timeout }

def test (r : ResolveRun n m) (now : Timeval) : ResolveRun n m :=
  if r.status = .timeout ∧ r.resolver.totalReqs > 0 then r.round cfg now
  else { r with phase := .left }

/-- What an event does. `nsock_loop` quits when it was asked to. -/
def step (r : ResolveRun n m) : LoopEvent n m → Option (ResolveRun n m)
  | .handler (.round _ _) => none
  | .handler e =>
    if r.phase = .left then none
    else (r.resolver.step cfg e).map fun resolver => { r with resolver := resolver }
  | .loopReturns status now =>
    if r.phase = .left ∨ (r.resolver.quit = true ↔ status ≠ .quit) then none
    else
      let resolver := { r.resolver with quit := false }
      match r.phase with
      | .firstLoop => some (test cfg { r with resolver := resolver, status := status } now)
      | _ => some (test cfg { r with resolver := resolver } now)

/-- The runs of `resolve_nsock` -/
def machine : Machine (ResolveRun n m) (LoopEvent n m) where
  init r := r = start n m
  step := fun r e => r.step cfg e

/-- The handlers keep the books of the resolver. -/
def Careful (r : ResolveRun n m) : LoopEvent n m → Prop
  | .handler e => r.resolver.Careful cfg e
  | .loopReturns _ _ => True

def Alone (r : ResolveRun n m) : Prop := ∀ k, (r.resolver.servers k).status = .disconnected

def Settled (r : ResolveRun n m) : Prop := ∀ x, ¬ r.resolver.Ready x

/-- The books, and what the tested variable holds -/
structure Inv (r : ResolveRun n m) : Prop where
  books : r.resolver.Balanced []
  tested : r.phase = .looping → r.status = .timeout

variable {r : ResolveRun n m}

theorem settled_iff (books : r.resolver.Balanced []) :
    r.Settled ↔ r.resolver.totalReqs ≤ 0 := by
  constructor
  · intro settled
    have none : r.resolver.readyReqs = ∅ := by
      apply Finset.eq_empty_of_forall_notMem
      intro x mem
      exact settled x (Finset.mem_filter.mp mem).2
    rw [books.total, none]
    exact Int.le_refl 0
  · intro few
    have zero : r.resolver.totalReqs = 0 := by
      have total := books.total
      omega
    exact (books.empty zero).1

theorem round_books (books : r.resolver.Balanced []) (now : Timeval) :
    (r.round cfg now).resolver.Balanced [] := by
  have checked := Resolver.dealWithTimedoutReads_books cfg now
    (decide (r.sinceLast + r.timeout > minDnsTimeout)) r.resolver books
  exact (Resolver.doPossibleWrites_books cfg _ checked.1).1

theorem test_inv (books : r.resolver.Balanced []) (now : Timeval) :
    (r.test cfg now).Inv := by
  unfold test
  split
  · next runs => exact ⟨round_books cfg books now, fun _ => runs.1⟩
  · exact ⟨books, nofun⟩

variable {r' : ResolveRun n m}

theorem step_inv (inv : r.Inv) {e : LoopEvent n m} (careful : r.Careful cfg e)
    (step : r.step cfg e = some r') : r'.Inv := by
  cases e with
  | handler e =>
    have handled : ∀ s, r.resolver.step cfg e = some s →
        ({ r with resolver := s } : ResolveRun n m).Inv := by
      intro s stepped
      exact ⟨(Resolver.step_books cfg inv.books careful stepped).1, inv.tested⟩
    cases e with
    | round now adjustTiming => cases step
    | _ =>
      simp only [ResolveRun.step] at step
      split at step
      · cases step
      · obtain ⟨s, stepped, rfl⟩ := Option.map_eq_some_iff.mp step
        exact handled s stepped
  | loopReturns status now =>
    have books : ({ r.resolver with quit := false } : Resolver n m).Balanced [] :=
      inv.books.congr rfl rfl rfl fun _ => rfl
    simp only [ResolveRun.step] at step
    split at step
    · cases step
    · split at step
      · cases step
        exact test_inv cfg books now
      · cases step
        exact test_inv cfg books now

/-! ## Rounds with nobody to ask -/

theorem dealWithTimedoutReads_alone {s : Resolver n m} (books : s.Balanced [])
    (alone : ∀ k, (s.servers k).status = .disconnected) (now : Timeval) (adjustTiming : Bool) :
    (s.dealWithTimedoutReads cfg now adjustTiming).1 = s := by
  have idle : ∀ k, (s.servers k).inProcess = [] := by
    intro k
    have other : (s.servers k).status ≠ .connected := by
      rw [alone k]
      nofun
    exact ((books.sound k).idle other).1
  have all : ∀ (l : List (Fin n)) (least : Int),
      (l.foldl (Resolver.checkServer cfg now adjustTiming) (s, least)).1 = s := by
    intro l
    induction l with
    | nil => exact fun _ => rfl
    | cons k l ih =>
      intro least
      rw [List.foldl_cons]
      have skip : Resolver.checkServer cfg now adjustTiming (s, least) k = (s, least) :=
        if_pos (idle k)
      rw [skip]
      exact ih least
  exact all (List.finRange n) _

/-- Without servers nothing is written, and `nsock_loop` is asked to quit. -/
theorem doPossibleWrites_alone {s : Resolver n m}
    (alone : ∀ k, (s.servers k).status = .disconnected) :
    s.doPossibleWrites cfg = { s with quit := true } := by
  have all : ∀ l : List (Fin n), l.foldl (fun s k =>
      if (s.servers k).status = .connected then
        Resolver.sendMany cfg k ((s.servers k).capacity - (s.servers k).reqsOnWire).toNat s
      else s) s = s := by
    intro l
    induction l with
    | nil => rfl
    | cons k l ih =>
      rw [List.foldl_cons, if_neg]
      · exact ih
      · rw [alone k]
        nofun
  unfold Resolver.doPossibleWrites
  rw [all]
  exact if_pos alone

theorem round_alone (books : r.resolver.Balanced []) (alone : r.Alone)
    (pending : r.resolver.totalReqs > 0) (now : Timeval) : (r.round cfg now).phase = .looping := by
  unfold round
  dsimp only
  rw [dealWithTimedoutReads_alone cfg books alone, doPossibleWrites_alone cfg alone, if_neg]
  exact not_le.mpr pending

/-! ## The end of the loop -/

/-- What is asked of `resolve_nsock` when `nsock_loop` returns: with all servers disconnected
there is no other round, and behind the loop `new_reqs` is empty and every request has its
final status. -/
def StopsWell (r r' : ResolveRun n m) : Prop :=
  (r.Alone → r'.phase = .left) ∧
    (r'.phase = .left → r'.resolver.newReqs = [] ∧ r'.Settled)

/-- When `nsock_loop` returns, a request that still waits has a server left, and the first call
returns because of its timeout. -/
def Attended (r : ResolveRun n m) (status : LoopStatus) : Prop :=
  (r.Alone → r.Settled) ∧ (r.phase = .firstLoop → status ≠ .timeout → r.Settled)

theorem test_stopsWell_iff (books : r.resolver.Balanced []) (now : Timeval) :
    r.StopsWell (r.test cfg now) ↔
      (r.Alone → r.Settled) ∧ (r.status ≠ .timeout → r.Settled) := by
  by_cases runs : r.status = .timeout ∧ r.resolver.totalReqs > 0
  · have pending : ¬ r.Settled := by
      rw [settled_iff books]
      exact not_le.mpr runs.2
    have next : r.test cfg now = r.round cfg now := if_pos runs
    rw [StopsWell, next]
    constructor
    · rintro ⟨stops, -⟩
      refine ⟨?_, fun other => absurd runs.1 other⟩
      intro alone
      have goesOn := round_alone cfg books alone runs.2 now
      rw [stops alone] at goesOn
      cases goesOn
    · rintro ⟨attended, -⟩
      refine ⟨fun alone => absurd (attended alone) pending, ?_⟩
      intro left
      have books' := round_books cfg books now
      have few : (r.round cfg now).resolver.totalReqs ≤ 0 := by
        by_contra more
        have goesOn : (r.round cfg now).phase = .looping := if_neg more
        rw [left] at goesOn
        cases goesOn
      have zero : (r.round cfg now).resolver.totalReqs = 0 := by
        have total := books'.total
        omega
      exact ⟨(books'.empty zero).2.1, (settled_iff books').mpr few⟩
  · have next : r.test cfg now = { r with phase := .left } := if_neg runs
    rw [StopsWell, next]
    constructor
    · rintro ⟨-, ends⟩
      have settled : r.Settled := (ends rfl).2
      exact ⟨fun _ => settled, fun _ => settled⟩
    · rintro ⟨-, settled⟩
      have few : r.Settled := by
        by_cases timeout : r.status = .timeout
        · rw [settled_iff books]
          by_contra more
          exact runs ⟨timeout, not_le.mp more⟩
        · exact settled timeout
      have zero : r.resolver.totalReqs = 0 := by
        have total := books.total
        have none := (settled_iff books).mp few
        omega
      exact ⟨fun _ => rfl, fun _ => ⟨(books.empty zero).2.1, few⟩⟩

/-- The handlers keep the books, and the requests that wait are attended to. -/
def Guarded (r : ResolveRun n m) (e : LoopEvent n m) : Prop :=
  r.Careful cfg e ∧ ∀ status now, e = .loopReturns status now → r.Attended status

/-- What follows a return of `nsock_loop` in a run whose handlers keep the books -/
theorem return_stopsWell_iff (inv : r.Inv) {status : LoopStatus} {now : Timeval}
    (returns : r.step cfg (.loopReturns status now) = some r') :
    r.StopsWell r' ↔ r.Attended status := by
  have books : ({ r.resolver with quit := false } : Resolver n m).Balanced [] :=
    inv.books.congr rfl rfl rfl fun _ => rfl
  simp only [ResolveRun.step] at returns
  split at returns
  · cases returns
  · split at returns
    · next first =>
        cases returns
        refine (test_stopsWell_iff cfg (r := { r with
          resolver := { r.resolver with quit := false }, status := status }) books now).trans ?_
        rw [Attended]
        simp only [first, forall_const]
        exact Iff.rfl
    · next other =>
        cases returns
        refine (test_stopsWell_iff cfg (r := { r with
          resolver := { r.resolver with quit := false } }) books now).trans ?_
        have looping : r.phase = .looping := by
          cases phase : r.phase with
          | firstLoop => exact absurd phase other
          | looping => rfl
          | left => simp_all
        have timeout : r.status = .timeout := inv.tested looping
        rw [Attended]
        simp only [looping, timeout]
        simp [Alone, Settled, Resolver.Ready]

/-- Only a return of `nsock_loop` leaves the main loop. -/
theorem step_left {e : LoopEvent n m} (step : r.step cfg e = some r') (left : r'.phase = .left) :
    ∃ status now, e = .loopReturns status now := by
  cases e with
  | loopReturns status now => exact ⟨status, now, rfl⟩
  | handler e =>
    cases e with
    | round now adjustTiming => cases step
    | _ =>
      simp only [ResolveRun.step] at step
      split at step
      · cases step
      · next inside =>
          obtain ⟨s, -, rfl⟩ := Option.map_eq_some_iff.mp step
          exact absurd left inside

/-- The request has been sent, and its server answers with an error. -/
def serverLost : ResolveRun 1 1 :=
  ⟨Resolver.oneSent.handleReadFailed Resolver.onlyServer, .looping, .timeout, 0, 500⟩

end ResolveRun

end Nmap.Dns
